import Dragonchain.Command
import Dragonchain.CacheRuns

/-!
Validation code as programs over a coins view. The calls are those of
CCoinsViewCache; one handler runs them on a stack of caches, another on a plain map
from outpoints to coins. The plain view also keeps the two best blocks a cache can
answer with, its own and that of the view below.
-/

namespace Dragonchain.Coins

open Command List Coins CCoinsViewCache

variable {β Failure α γ : Type} {caches caches' : List CCoinsViewCache}

inductive ViewCall where
  | haveCoin (outpoint : COutPoint)
  | accessCoin (outpoint : COutPoint)
  | spendCoin (outpoint : COutPoint)
  | addCoin (outpoint : COutPoint) (coin : Coin) (possible_overwrite : Bool)
  | getBestBlock
  | setBestBlock (hashBlock : Uint256)

/-- SpendCoin answers with what it moved out, `none` where it returns false. -/
abbrev ViewAnswer : ViewCall → Type
  | .haveCoin _ => Bool
  | .accessCoin _ => Coin
  | .spendCoin _ => Option Coin
  | .addCoin _ _ _ => Unit
  | .getBestBlock => Uint256
  | .setBestBlock _ => Unit

structure PlainView where
  coins : PlainMap
  hashBlock : Uint256
  belowBest : Uint256

section Handlers
variable [CCoinsView β] (raise : CoinsFault → Failure)

def viewHandler : Handler ViewCall ViewAnswer Failure (ViewStack β)
  | .haveCoin outpoint, stack =>
    let (found, caches) := haveCoin stack.base stack.caches outpoint
    .ok (found, { stack with caches })
  | .accessCoin outpoint, stack =>
    let (coin, caches) := accessCoin stack.base stack.caches outpoint
    .ok (coin, { stack with caches })
  | .spendCoin outpoint, stack =>
    let (moveout, caches) := spendCoin stack.base stack.caches outpoint
    .ok (moveout, { stack with caches })
  | .addCoin outpoint coin possible_overwrite, stack =>
    match stack.caches with
    | [] => .ok ((), stack)
    | cache :: below =>
      match addCoin cache outpoint coin possible_overwrite with
      | (.error fault, _) => .error (raise fault)
      | (.ok (), cache) => .ok ((), { stack with caches := cache :: below })
  | .getBestBlock, stack =>
    let (hashBlock, caches) := getBestBlock stack.base stack.caches
    .ok (hashBlock, { stack with caches })
  | .setBestBlock hashBlock, stack =>
    match stack.caches with
    | [] => .ok ((), stack)
    | cache :: below => .ok ((), { stack with caches := setBestBlock cache hashBlock :: below })

def plainHandler : Handler ViewCall ViewAnswer Failure PlainView
  | .haveCoin outpoint, view => .ok ((view.coins outpoint).isSome, view)
  | .accessCoin outpoint, view => .ok ((view.coins outpoint).getD Coin.empty, view)
  | .spendCoin outpoint, view =>
    .ok (view.coins outpoint, { view with coins := Function.update view.coins outpoint none })
  | .addCoin outpoint coin _, view =>
    if coin.isSpent then .error (raise .addSpentCoin)
    else if Script.isUnspendable coin.out.scriptPubKey then .ok ((), view)
    else .ok ((), { view with coins := Function.update view.coins outpoint (some coin) })
  | .getBestBlock, view =>
    if view.hashBlock.isNull then .ok (view.belowBest, { view with hashBlock := view.belowBest })
    else .ok (view.hashBlock, view)
  | .setBestBlock hashBlock, view => .ok ((), { view with hashBlock })

end Handlers

section Commands
abbrev ViewProgram (Failure α : Type) := Program ViewCall ViewAnswer Failure α

variable (outpoint : COutPoint)

def haveCoinCall : ViewProgram Failure Bool := .request (ViewCall.haveCoin outpoint)

def accessCoinCall : ViewProgram Failure Coin := .request (ViewCall.accessCoin outpoint)

def spendCoinCall : ViewProgram Failure (Option Coin) := .request (ViewCall.spendCoin outpoint)

def addCoinCall (coin : Coin) (possible_overwrite : Bool) : ViewProgram Failure Unit :=
  .request (ViewCall.addCoin outpoint coin possible_overwrite)

def getBestBlockCall : ViewProgram Failure Uint256 := .request ViewCall.getBestBlock

def setBestBlockCall (hashBlock : Uint256) : ViewProgram Failure Unit := .request (ViewCall.setBestBlock hashBlock)

end Commands

/-! Programs that only look coins up. -/

def ViewCall.Reads : ViewCall → Prop
  | .haveCoin _ => True
  | .accessCoin _ => True
  | _ => False

variable {value : α} {program : ViewProgram Failure α} {base : β}

section Reading
variable [CCoinsView β] {raise : CoinsFault → Failure} {view final : PlainView}
  {outpoint : COutPoint}

lemma reads_haveCoin : Only ViewCall.Reads (haveCoinCall outpoint : ViewProgram Failure Bool) :=
  only_request trivial

lemma reads_accessCoin : Only ViewCall.Reads (accessCoinCall outpoint : ViewProgram Failure Coin) :=
  only_request trivial

lemma reads_plain (reads : Only ViewCall.Reads program)
    (ran : run (plainHandler raise) program view = .ok (value, final)) : final = view := by
  have same : view = final := by
    apply reads.run Eq (fun _ => rfl) (fun _ _ _ => Eq.trans) _ ran
    intro call state answer after isRead answered
    cases call with
    | haveCoin outpoint =>
      cases answered
      rfl
    | accessCoin outpoint =>
      cases answered
      rfl
    | _ => exact isRead.elim
  exact same.symm

lemma run_belowBest
    (ran : run (plainHandler raise) program view = .ok (value, final)) : final.belowBest = view.belowBest := by
  apply run_invariant (fun after => after.belowBest = view.belowBest) _ rfl ran
  intro call state answer after same answered
  rw [← same]
  cases call with
  | addCoin outpoint coin possible_overwrite =>
    simp only [plainHandler] at answered
    split at answered
    · cases answered
    · split at answered <;> cases answered <;> rfl
  | getBestBlock =>
    simp only [plainHandler] at answered
    split at answered <;> cases answered <;> rfl
  | _ =>
    cases answered
    rfl

lemma haveCoin_fetched : Fetched base caches (haveCoin base caches outpoint).2 := by
  cases caches with
  | nil => exact .nil
  | cons cache below => exact (haveCoin_spec base cache below outpoint).2

lemma accessCoin_fetched : Fetched base caches (accessCoin base caches outpoint).2 := haveCoin_fetched

lemma reads_fetched (reads : Only ViewCall.Reads program) {stack final : ViewStack β}
    (ran : run (viewHandler raise) program stack = .ok (value, final)) :
    final.base = stack.base ∧ Fetched stack.base stack.caches final.caches := by
  apply reads.run (fun stack final =>
    final.base = stack.base ∧ Fetched stack.base stack.caches final.caches) _ _ _ ran
  · intro stack
    exact ⟨rfl, Fetched.refl _ _⟩
  · rintro first second third ⟨base, fetched⟩ ⟨base', fetched'⟩
    rw [base] at base' fetched'
    exact ⟨base', fetched.trans fetched'⟩
  · intro call stack answer after isRead answered
    cases call with
    | haveCoin outpoint =>
      cases answered
      exact ⟨rfl, haveCoin_fetched⟩
    | accessCoin outpoint =>
      cases answered
      exact ⟨rfl, accessCoin_fetched⟩
    | _ => exact isRead.elim

end Reading

/-! The caches show a plain view, and every permitted call keeps it so. -/

section Shown
variable [CCoinsView β] {raise : CoinsFault → Failure}

structure Shows (stack : ViewStack β) (view : PlainView) : Prop where
  coherent : Coherent stack.base stack.caches
  coins : content stack.base stack.caches = view.coins
  hashes : ∃ cache below, stack.caches = cache :: below ∧ cache.hashBlock = view.hashBlock ∧
    (getBestBlock stack.base below).1 = view.belowBest

/-- possible_overwrite is false only where no coin would be replaced, and after spending
a coin that is not there the program does not look at what was moved out. -/
def Allowed {α : Type} (view : PlainView) : (call : ViewCall) → (ViewAnswer call → ViewProgram Failure α) → Prop
  | .addCoin outpoint coin possible_overwrite, _ =>
    Script.isUnspendable coin.out.scriptPubKey = false → possible_overwrite = false → view.coins outpoint = none
  | .spendCoin outpoint, next => view.coins outpoint = none → next (some Coin.empty) = next none
  | _, _ => True

variable {stack : ViewStack β} {stack : ViewStack β} {view : PlainView}

lemma Fetched.bestBlock (fetched : Fetched base caches caches') :
    (getBestBlock base caches').1 = (getBestBlock base caches).1 := by
  induction fetched with
  | nil => rfl
  | cons tail filled tidy hash ih =>
    simp only [getBestBlock, hash]
    split
    · exact ih
    · rfl

lemma fetched_shows (shows : Shows stack view) (fetched : Fetched stack.base stack.caches caches) :
    Shows { stack with caches } view := by
  obtain ⟨coherent, coins, cache, below, same, hash, best⟩ := shows
  refine ⟨fetched.coherent coherent, fetched.content.trans coins, ?_⟩
  rw [same] at fetched
  cases fetched with
  | cons tail filled tidy kept => exact ⟨_, _, rfl, kept.trans hash, tail.bestBlock.trans best⟩

lemma getBestBlock_coins (base : β) (caches : List CCoinsViewCache) :
    (getBestBlock base caches).2.map cacheCoins = caches.map cacheCoins := by
  induction caches with
  | nil => rfl
  | cons cache below ih =>
    simp only [getBestBlock]
    split
    · simp [ih]
    · rfl

lemma getBestBlock_again : (getBestBlock base (getBestBlock base caches).2).1 = (getBestBlock base caches).1 := by
  induction caches with
  | nil => rfl
  | cons cache below ih =>
    by_cases unset : cache.hashBlock.isNull = true
    · simp only [getBestBlock, unset, if_true]
      split
      · exact ih
      · rfl
    · simp [getBestBlock, unset]

lemma Fetched.length (fetched : Fetched base caches caches') : caches'.length = caches.length := by
  induction fetched with
  | nil => rfl
  | cons tail filled tidy hash ih => rw [length_cons, length_cons, ih]

lemma spendCoin_length {outpoint : COutPoint} : (spendCoin base caches outpoint).2.length = caches.length := by
  -- SpendCoin fetches the way HaveCoin does
  have fetched : (fetchCoin base caches outpoint).2.length = caches.length := haveCoin_fetched.length
  rw [spendCoin]
  split
  · rename_i found
    rwa [found] at fetched
  · rename_i found
    rwa [found] at fetched

lemma run_shape {final : ViewStack β} (ran : run (viewHandler raise) program stack = .ok (value, final)) :
    final.base = stack.base ∧ final.caches.length = stack.caches.length := by
  apply run_invariant
    (fun after => after.base = stack.base ∧ after.caches.length = stack.caches.length) _ ⟨rfl, rfl⟩ ran
  rintro call state answer after ⟨base, lengths⟩ answered
  rw [← base, ← lengths]
  cases call with
  | haveCoin outpoint =>
    cases answered
    exact ⟨rfl, haveCoin_fetched.length⟩
  | accessCoin outpoint =>
    cases answered
    exact ⟨rfl, accessCoin_fetched.length⟩
  | spendCoin outpoint =>
    cases answered
    exact ⟨rfl, spendCoin_length⟩
  | addCoin outpoint coin possible_overwrite =>
    simp only [viewHandler] at answered
    split at answered
    · cases answered
      exact ⟨rfl, rfl⟩
    · rename_i listed
      split at answered
      · cases answered
      · cases answered
        exact ⟨rfl, by rw [listed]; rfl⟩
  | getBestBlock =>
    cases answered
    exact ⟨rfl, by simpa using congrArg List.length (getBestBlock_coins state.base state.caches)⟩
  | setBestBlock hashBlock =>
    simp only [viewHandler] at answered
    split at answered
    · cases answered
      exact ⟨rfl, rfl⟩
    · rename_i listed
      cases answered
      exact ⟨rfl, by rw [listed]; rfl⟩

/-- What a stack shows, and whether its flags are kept, depends on the entries alone. -/
lemma same_entries (base : β) (same : caches'.map cacheCoins = caches.map cacheCoins) :
    content base caches' = content base caches ∧ (Coherent base caches → Coherent base caches') := by
  induction caches generalizing caches' with
  | nil =>
    rw [map_nil, map_eq_nil_iff] at same
    subst same
    exact ⟨rfl, id⟩
  | cons cache below ih =>
    obtain ⟨cache', below', rfl, entries, rest⟩ := map_eq_cons_iff.mp same
    obtain ⟨shown, kept⟩ := ih rest
    have top : content base (cache' :: below') = content base (cache :: below) := by
      funext outpoint
      simp [content, entries, shown]
    refine ⟨top, ?_⟩
    rintro ⟨sound, tidy, coherent⟩
    refine ⟨?_, by rw [entries]; exact tidy, kept coherent⟩
    rw [entries, shown]
    exact sound

lemma call_shows {call : ViewCall} (next : ViewAnswer call → ViewProgram Failure α) (shows : Shows stack view)
    (allowed : Allowed view call next) : (∃ failure, viewHandler raise call stack = .error failure ∧
      plainHandler raise call view = .error failure) ∨
    ∃ answer answer' after after', viewHandler raise call stack = .ok (answer, after) ∧
      plainHandler raise call view = .ok (answer', after') ∧ Shows after after' ∧
      next answer = next answer' := by
  obtain ⟨base, caches⟩ := stack
  have whole := shows
  obtain ⟨coherent, coins, cache, below, same, hash, best⟩ := shows
  subst same
  cases call with
  | haveCoin outpoint =>
    have spec := haveCoin_spec base cache below outpoint
    refine .inr ⟨(haveCoin base (cache :: below) outpoint).1, (view.coins outpoint).isSome, _,
      view, rfl, rfl, fetched_shows whole spec.2, ?_⟩
    rw [spec.1, coins]
  | accessCoin outpoint =>
    have spec := accessCoin_spec base cache below outpoint coherent
    refine .inr ⟨(accessCoin base (cache :: below) outpoint).1,
      (view.coins outpoint).getD Coin.empty, _, view, rfl, rfl, fetched_shows whole spec.2, ?_⟩
    rw [spec.1, coins]
  | spendCoin outpoint =>
    obtain ⟨moveout, cache', below', spent, moved, kept, shown, fetched, hashKept⟩ :=
      spendCoin_cases base cache below outpoint coherent
    refine .inr ⟨moveout, view.coins outpoint, ⟨base, cache' :: below'⟩, _, ?_, rfl, ?_, ?_⟩
    · simp [viewHandler, spent]
    · refine ⟨kept, ?_, cache', below', rfl, hashKept.trans hash, fetched.bestBlock.trans best⟩
      rw [shown, coins]
    · rcases moved with rfl | ⟨gone, rfl⟩
      · rw [coins]
      · rw [coins] at gone
        rw [gone]
        exact allowed gone
  | addCoin outpoint coin possible_overwrite =>
    rcases addCoin_cases base cache below outpoint coin possible_overwrite coherent
      (by rw [coins]; exact allowed) with ⟨spent, failed⟩ | ⟨live, cache', added, kept, moved, hashKept⟩
    · left
      refine ⟨raise .addSpentCoin, ?_, ?_⟩
      · simp [viewHandler, failed]
      · simp [plainHandler, spent]
    · refine .inr ⟨(), (), ⟨base, cache' :: below⟩, { view with coins := content base (cache' :: below) }, ?_,
        ?_, ⟨kept, rfl, cache', below, rfl, hashKept.trans hash, best⟩, rfl⟩
      · simp [viewHandler, added]
      · simp only [plainHandler, live, moved, coins, Bool.false_eq_true, if_false]
        split <;> rfl
  | getBestBlock =>
    right
    have entries := same_entries base (getBestBlock_coins base (cache :: below))
    by_cases unset : cache.hashBlock.isNull = true
    · have unsetView : view.hashBlock.isNull = true := by rw [← hash]; exact unset
      have answered : getBestBlock base (cache :: below) =
          (view.belowBest, { cache with hashBlock := view.belowBest } :: (getBestBlock base below).2) := by
        simp [getBestBlock, unset, best]
      rw [answered] at entries
      refine ⟨view.belowBest, view.belowBest, ⟨base, _⟩, { view with hashBlock := view.belowBest },
        by simp only [viewHandler, answered]; rfl, by simp [plainHandler, unsetView],
        ?_, rfl⟩
      refine ⟨entries.2 coherent, entries.1.trans coins, _, _, rfl, rfl, ?_⟩
      exact getBestBlock_again.trans best
    · have setView : ¬ view.hashBlock.isNull = true := by rw [← hash]; exact unset
      have answered : getBestBlock base (cache :: below) = (view.hashBlock, cache :: below) := by
        rw [getBestBlock, if_neg unset, hash]
      refine ⟨view.hashBlock, view.hashBlock, ⟨base, _⟩, view,
        by simp [viewHandler, answered],
        by simp [plainHandler, setView], whole, rfl⟩
  | setBestBlock hashBlock =>
    refine .inr ⟨(), (), _, { view with hashBlock }, rfl, rfl, ?_, rfl⟩
    have entries := same_entries base (show ((setBestBlock cache hashBlock :: below).map cacheCoins) =
        (cache :: below).map cacheCoins from rfl)
    exact ⟨entries.2 coherent, entries.1.trans coins, _, _, rfl, rfl, best⟩

lemma Shows.bestBlock (shows : Shows stack view) :
    (getBestBlock stack.base stack.caches).1 =
      if view.hashBlock.isNull then view.belowBest else view.hashBlock := by
  obtain ⟨_, _, cache, below, same, hash, best⟩ := shows
  rw [same, ← hash, ← best, getBestBlock]
  split <;> rfl

lemma shows_of_coherent (coherent : Coherent stack.base stack.caches)
    (layered : stack.caches ≠ []) : ∃ view, Shows stack view := by
  obtain ⟨cache, below, same⟩ := exists_cons_of_ne_nil layered
  exact ⟨⟨content stack.base stack.caches, cache.hashBlock, (getBestBlock stack.base below).1⟩,
    coherent, rfl, cache, below, same, rfl, rfl⟩

lemma allowed_bind {next : α → ViewProgram Failure γ} (view : PlainView)
    (call : ViewCall) (onward : ViewAnswer call → ViewProgram Failure α)
    (allowed : Allowed view call onward) : Allowed view call fun answer => onward answer >>= next := by
  cases call with
  | spendCoin outpoint =>
    intro gone
    show onward (some Coin.empty) >>= next = onward none >>= next
    rw [allowed gone]
  | addCoin outpoint coin possible_overwrite => exact allowed
  | _ => trivial

/-- A program that only makes allowed calls runs on the caches as on the plain view. -/
lemma program_shows (shows : Shows stack view) (along : Along (plainHandler raise) Allowed program view) :
    SameOutcome Shows (run (viewHandler raise) program stack) (run (plainHandler raise) program view) :=
  run_simulates (fun stack view call next => call_shows next) stack view shows along

end Shown

end Dragonchain.Coins
