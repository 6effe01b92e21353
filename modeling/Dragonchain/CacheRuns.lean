import Dragonchain.CoinsRefinement

/-!
Whole runs of calls on the topmost coin cache, with caches opened and closed on
the way, against the same calls on a stack of plain maps. On the plain side a
query reads the top map, AddCoin and SpendCoin change it at one outpoint, and
Flush makes the map below equal to it.
-/

namespace Dragonchain.Coins

open List Coins

variable {β : Type} {caches caches' : List CCoinsViewCache}

inductive CacheCall where
  | addCoin (outpoint : COutPoint) (coin : Coin) (possible_overwrite : Bool)
  | spendCoin (outpoint : COutPoint)
  | getCoin (outpoint : COutPoint)
  | haveCoin (outpoint : COutPoint)
  | accessCoin (outpoint : COutPoint)
  | uncache (outpoint : COutPoint)
  | flush (order : Iteration)
  | newCache
  | dropCache

inductive CacheAnswer where
  | done
  | coin (found : Option Coin)
  | present (found : Bool)
  | access (coin : Coin)
  deriving DecidableEq

structure ViewStack (β : Type) where
  base : β
  caches : List CCoinsViewCache

abbrev PlainMap := COutPoint → Option Coin

section Runs
variable [CCoinsView β]

/-- One call on the topmost cache. SpendCoin answers with the coin it moved out. -/
def ViewStack.call (stack : ViewStack β) : CacheCall → Except CoinsFault (CacheAnswer × ViewStack β)
  | .addCoin outpoint coin possible_overwrite =>
    match stack.caches with
    | [] => .ok (.done, stack)
    | cache :: below =>
      match addCoin cache outpoint coin possible_overwrite with
      | (.error fault, _) => .error fault
      | (.ok (), cache) => .ok (.done, { stack with caches := cache :: below })
  | .spendCoin outpoint =>
    let (moveout, caches) := spendCoin stack.base stack.caches outpoint
    .ok (.coin (moveout.bind Coin.unspent), { stack with caches })
  | .getCoin outpoint =>
    let (found, caches) := getCoin stack.base stack.caches outpoint
    .ok (.coin found, { stack with caches })
  | .haveCoin outpoint =>
    let (found, caches) := haveCoin stack.base stack.caches outpoint
    .ok (.present found, { stack with caches })
  | .accessCoin outpoint =>
    let (coin, caches) := accessCoin stack.base stack.caches outpoint
    .ok (.access coin, { stack with caches })
  | .uncache outpoint =>
    match stack.caches with
    | [] => .ok (.done, stack)
    | cache :: below => .ok (.done, { stack with caches := uncache cache outpoint :: below })
  | .flush order =>
    match flush order stack.base stack.caches with
    | .error fault => .error fault
    | .ok (caches, base) => .ok (.done, { base, caches })
  | .newCache => .ok (.done, { stack with caches := {} :: stack.caches })
  | .dropCache =>
    match stack.caches with
    | _ :: parent :: below => .ok (.done, { stack with caches := parent :: below })
    | _ => .ok (.done, stack)

def ViewStack.run (stack : ViewStack β) : List CacheCall → Except CoinsFault (List CacheAnswer × ViewStack β)
  | [] => .ok ([], stack)
  | call :: rest =>
    match stack.call call with
    | .error fault => .error fault
    | .ok (answer, stack) =>
      match stack.run rest with
      | .error fault => .error fault
      | .ok (answers, stack) => .ok (answer :: answers, stack)

def ViewStack.maps (stack : ViewStack β) : List PlainMap := contents stack.base stack.caches

end Runs

variable (maps : List PlainMap)

/-- The same call on plain maps: the head is the map of the topmost cache. -/
def plainCall (call : CacheCall) : Except CoinsFault (CacheAnswer × List PlainMap) :=
  match maps with
  | [] => .ok (.done, [])
  | top :: below =>
    match call with
    | .addCoin outpoint coin _ =>
      if coin.isSpent then .error .addSpentCoin
      else if Script.isUnspendable coin.out.scriptPubKey then .ok (.done, maps)
      else .ok (.done, Function.update top outpoint (some coin) :: below)
    | .spendCoin outpoint => .ok (.coin (top outpoint), Function.update top outpoint none :: below)
    | .getCoin outpoint => .ok (.coin (top outpoint), maps)
    | .haveCoin outpoint => .ok (.present (top outpoint).isSome, maps)
    | .accessCoin outpoint => .ok (.access ((top outpoint).getD Coin.empty), maps)
    | .uncache _ => .ok (.done, maps)
    | .flush _ => .ok (.done, top :: top :: below.tail)
    | .newCache => .ok (.done, top :: maps)
    | .dropCache =>
      match below with
      | parent :: base :: rest => .ok (.done, parent :: base :: rest)
      | _ => .ok (.done, maps)

def plainRun (maps : List PlainMap) : List CacheCall → Except CoinsFault (List CacheAnswer × List PlainMap)
  | [] => .ok ([], maps)
  | call :: rest =>
    match plainCall maps call with
    | .error fault => .error fault
    | .ok (answer, maps) =>
      match plainRun maps rest with
      | .error fault => .error fault
      | .ok (answers, maps) => .ok (answer :: answers, maps)

/-- possible_overwrite is false only where the map has no unspent coin. -/
def Permitted : CacheCall → Prop
  | .addCoin outpoint _ possible_overwrite => possible_overwrite = false → ∀ top ∈ maps.head?, top outpoint = none
  | _ => True

def Disciplined : List PlainMap → List CacheCall → Prop
  | _, [] => True
  | maps, call :: rest =>
    Permitted maps call ∧ ∀ answer next, plainCall maps call = .ok (answer, next) → Disciplined next rest

section Refinement
variable [CCoinsView β]

/-- What a call is to show: it answers and moves as on plain maps, or AddCoin's
assertion fails on both sides. -/
def Follows (stack : ViewStack β) (call : CacheCall) : Prop :=
  (stack.call call = .error .addSpentCoin ∧ plainCall stack.maps call = .error .addSpentCoin) ∨
    ∃ answer next, stack.call call = .ok (answer, next) ∧
      plainCall stack.maps call = .ok (answer, next.maps) ∧
      Coherent next.base next.caches ∧ next.caches ≠ []

lemma Fetched.present {base : β}
    (fetched : Fetched base caches caches') (present : caches ≠ []) : caches' ≠ [] := by
  cases fetched with
  | nil => exact present
  | cons => exact cons_ne_nil _ _

variable (stack : ViewStack β) {call : CacheCall}

-- a query leaves every map as it was, so only its answer is compared
lemma query_follows (answer : CacheAnswer) (coherent : Coherent stack.base stack.caches)
    (present : stack.caches ≠ []) (fetched : Fetched stack.base stack.caches caches)
    (answered : stack.call call = .ok (answer, { stack with caches }))
    (plain : plainCall stack.maps call = .ok (answer, stack.maps)) : Follows stack call := by
  refine .inr ⟨answer, { stack with caches }, answered, ?_, fetched.coherent coherent, fetched.present present⟩
  rw [plain]
  simp [ViewStack.maps, fetched.contents]

lemma call_follows (coherent : Coherent stack.base stack.caches) (present : stack.caches ≠ [])
    (permitted : Permitted stack.maps call) : Follows stack call := by
  obtain ⟨base, caches⟩ := stack
  obtain ⟨cache, below, rfl⟩ := exists_cons_of_ne_nil present
  cases call with
  | addCoin outpoint coin possible_overwrite =>
    rcases addCoin_cases base cache below outpoint coin possible_overwrite coherent
      (fun _ strict => permitted strict _ (by simp [ViewStack.maps, contents])) with
      ⟨spent, failed⟩ | ⟨live, cache', added, kept, moved, _⟩
    · left
      simp [ViewStack.call, failed, plainCall, ViewStack.maps, contents, spent]
    · refine .inr ⟨.done, ⟨base, cache' :: below⟩, ?_, ?_, kept, cons_ne_nil _ _⟩
      · simp [ViewStack.call, added]
      · simp only [plainCall, ViewStack.maps, contents, live, moved, Bool.false_eq_true, if_false]
        split <;> rfl
  | spendCoin outpoint =>
    obtain ⟨moved, kept, views⟩ := spendCoin_refines base cache below outpoint coherent
    generalize spent : spendCoin base (cache :: below) outpoint = result at moved kept views
    refine .inr ⟨.coin (result.1.bind Coin.unspent), ⟨base, result.2⟩, ?_, ?_, kept, ?_⟩
    · simp [ViewStack.call, spent]
    · simp [plainCall, ViewStack.maps, contents, moved, views]
    · intro empty
      simp only at empty
      rw [empty] at views
      cases below <;> simp [contents] at views
  | getCoin outpoint =>
    have spec := getCoin_spec base (cache :: below) outpoint
    refine query_follows _ (.coin (getCoin base (cache :: below) outpoint).1) coherent present spec.2 rfl ?_
    simp [plainCall, ViewStack.maps, contents, spec.1]
  | haveCoin outpoint =>
    have spec := haveCoin_spec base cache below outpoint
    refine query_follows _ (.present (haveCoin base (cache :: below) outpoint).1) coherent present spec.2 rfl ?_
    simp [plainCall, ViewStack.maps, contents, spec.1]
  | accessCoin outpoint =>
    have spec := accessCoin_spec base cache below outpoint coherent
    refine query_follows _ (.access (accessCoin base (cache :: below) outpoint).1) coherent present spec.2 rfl ?_
    simp [plainCall, ViewStack.maps, contents, spec.1]
  | uncache outpoint =>
    obtain ⟨kept, same⟩ := uncache_refines base cache below outpoint coherent
    refine .inr ⟨.done, ⟨base, uncache cache outpoint :: below⟩, rfl, ?_, kept, cons_ne_nil _ _⟩
    simp [plainCall, ViewStack.maps, contents, same]
  | flush order =>
    obtain ⟨caches', base', flushed, kept, nonempty, rest, before, after⟩ :=
      flush_refines base order (cache :: below) coherent present
    refine .inr ⟨.done, ⟨base', caches'⟩, ?_, ?_, kept, nonempty⟩
    · simp [ViewStack.call, flushed]
    · simp [plainCall, ViewStack.maps, before, after]
  | newCache =>
    refine .inr ⟨.done, ⟨base, {} :: cache :: below⟩, rfl, rfl, ⟨fun _ => WriteBack.sound_none, ?_, coherent⟩,
      cons_ne_nil _ _⟩
    intro outpoint entry held
    cases held
  | dropCache =>
    cases below with
    | nil => exact .inr ⟨.done, ⟨base, [cache]⟩, rfl, rfl, coherent, present⟩
    | cons parent below =>
      refine .inr ⟨.done, ⟨base, parent :: below⟩, rfl, ?_, coherent.2.2, cons_ne_nil _ _⟩
      cases below <;> rfl

lemma run_follows (calls : List CacheCall) (coherent : Coherent stack.base stack.caches)
    (present : stack.caches ≠ []) (disciplined : Disciplined stack.maps calls) :
    (stack.run calls = .error .addSpentCoin ∧ plainRun stack.maps calls = .error .addSpentCoin) ∨
      ∃ answers final, stack.run calls = .ok (answers, final) ∧
        plainRun stack.maps calls = .ok (answers, final.maps) := by
  induction calls generalizing stack with
  | nil => exact .inr ⟨[], stack, rfl, rfl⟩
  | cons call rest ih =>
    obtain ⟨permitted, onward⟩ := disciplined
    rcases call_follows stack coherent present permitted with
      ⟨failed, plain⟩ | ⟨answer, next, answered, plain, kept, nonempty⟩
    · left
      simp [ViewStack.run, plainRun, failed, plain]
    · rcases ih next kept nonempty (onward answer next.maps plain) with
        ⟨failed, plainRest⟩ | ⟨answers, final, done, plainRest⟩
      · left
        simp [ViewStack.run, plainRun, answered, plain, failed, plainRest]
      · right
        refine ⟨answer :: answers, final, ?_, ?_⟩
        · simp [ViewStack.run, answered, done]
        · simp [plainRun, plain, plainRest]

/-- Every run of calls on the topmost of any number of caches answers as plain maps
do and leaves the caches and the base showing those maps; the logic_errors of AddCoin
and BatchWrite are never thrown. -/
theorem caches_answer_as_maps (base : β) (calls : List CacheCall) (disciplined :
      Disciplined [CCoinsView.getCoin base, CCoinsView.getCoin base] calls) :
    ((ViewStack.mk base [{}]).run calls).map (fun result => (result.1, result.2.maps)) =
        plainRun [CCoinsView.getCoin base, CCoinsView.getCoin base] calls ∧
      (ViewStack.mk base [{}]).run calls ≠ .error .freshFlagMisapplied ∧
      (ViewStack.mk base [{}]).run calls ≠ .error .replacesNonPrunedEntry := by
  have coherent : Coherent base [({} : CCoinsViewCache)] := by
    refine ⟨fun _ => WriteBack.sound_none, ?_, trivial⟩
    rintro outpoint entry ⟨⟩
  have start : (ViewStack.mk base [{}]).maps = [CCoinsView.getCoin base, CCoinsView.getCoin base] := rfl
  rw [← start] at disciplined ⊢
  rcases run_follows (ViewStack.mk base [{}]) calls coherent (cons_ne_nil _ _) disciplined
    with ⟨failed, plain⟩ | ⟨answers, final, done, plain⟩
  · rw [failed, plain]
    exact ⟨rfl, by simp, by simp⟩
  · rw [done, plain]
    exact ⟨rfl, by simp, by simp⟩

end Refinement

/-- A coin added in one cache, spent in a second one opened over it, and flushed down. -/
def nestedSpend (outpoint : COutPoint) (order : Iteration) : List CacheCall :=
  [.addCoin outpoint ⟨⟨5, []⟩, false, 1⟩ false, .newCache, .haveCoin outpoint, .spendCoin outpoint,
    .flush order, .dropCache, .getCoin outpoint, .flush order]

theorem nestedSpend_answers :
    let outpoint : COutPoint := ⟨Uint256.null, 0⟩
    let calls := nestedSpend outpoint ⟨AList.entries, fun _ => List.Perm.refl _⟩
    let coins := CCoinsView.getCoin CCoinsViewDB.empty
    Disciplined [coins, coins] calls ∧ ((ViewStack.mk CCoinsViewDB.empty [{}]).run calls).map
          (fun result => (result.1, result.2.maps)) = plainRun [coins, coins] calls := by
  intro outpoint calls coins
  have disciplined : Disciplined [coins, coins] calls := by
    refine ⟨fun _ top member => ?_, ?_⟩
    · cases member
      rfl
    · intro answer next _
      simp [Disciplined, Permitted]
  exact ⟨disciplined, (caches_answer_as_maps CCoinsViewDB.empty calls disciplined).1⟩

section Spending
variable [CCoinsView β]

/-- SpendCoin returns true on every entry it finds, HaveCoin on unspent ones only: the two
agree unless the topmost cache still holds the coin as spent. -/
theorem spendCoin_haveCoin_iff (base : β) (cache : CCoinsViewCache) (below : List CCoinsViewCache)
    (outpoint : COutPoint) : ((spendCoin base (cache :: below) outpoint).1.isSome = true ↔
        (haveCoin base (cache :: below) outpoint).1 = true) ↔
      ∀ entry, cache.cacheCoins.lookup outpoint = some entry → entry.coin.isSpent = false := by
  cases held : cache.cacheCoins.lookup outpoint with
  | some entry => simp [spendCoin, haveCoin, fetchCoin, fetchFrom, held]
  | none =>
    have answered := (getCoin_spec base below outpoint).1
    cases found : getCoin base below outpoint with
    | mk answer caches =>
      cases answer with
      | none => simp [spendCoin, haveCoin, fetchCoin, fetchFrom, held, found]
      | some tmp =>
        rw [found] at answered
        have live := content_unspent base below outpoint tmp answered.symm
        simp [spendCoin, haveCoin, fetchCoin, fetchFrom, held, found, live]

end Spending

/-- The coin is below the cache that spends it, so its entry stays, as a spent one. -/
theorem spent_entry_spent_again : ∃ answers stack, (ViewStack.mk CCoinsViewDB.empty [{}]).run
        [.addCoin ⟨Uint256.null, 0⟩ ⟨⟨5, []⟩, false, 1⟩ false, .newCache, .spendCoin ⟨Uint256.null, 0⟩] =
      .ok (answers, stack) ∧ (haveCoin stack.base stack.caches ⟨Uint256.null, 0⟩).1 = false ∧
    (spendCoin stack.base stack.caches ⟨Uint256.null, 0⟩).1 = some Coin.empty := by
  refine ⟨_, _, rfl, ?_, ?_⟩
  · decide
  · decide

end Dragonchain.Coins
