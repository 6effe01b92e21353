import Dragonchain.CoinsProgram
import Dragonchain.Sums

/-!
What the coins of a stack of caches are worth, counted without trusting the FRESH
flags. BIP30 is not enforced on every block, and AddCoin may then set a flag that is
wrong, so a value that a cache hides may come back later. The tally of an outpoint
is the coin that is visible together with all that is hidden below it. Reads keep
it, SpendCoin lowers it by the coin moved out, AddCoin raises it by at most the coin
added, and Flush never raises it.
-/

namespace Dragonchain.Coins

open WriteBack Sums Function

variable {slot ours merged : Option (Slot Coin)} {value coin : Coin}
  {overwrite possible_overwrite : Bool}

def Coin.worth (coin : Coin) : Nat := coin.out.nValue.toInt.toNat

section Tally
variable {β : Type} [CCoinsView β]

def tally (base : β) : List CCoinsViewCache → COutPoint → Option Coin × Nat
  | [], outpoint => (CCoinsView.getCoin base outpoint, 0)
  | cache :: below, outpoint => atop Coin.worth (slots cache.cacheCoins outpoint) (tally base below outpoint)

def holding (base : β) (caches : List CCoinsViewCache) (outpoint : COutPoint) : Nat :=
  total Coin.worth (tally base caches outpoint)

/-- Entries that are not dirty repeat what is below them. -/
def Settled (base : β) : List CCoinsViewCache → Prop
  | [] => True
  | cache :: below =>
    (∀ outpoint, Repeats (slots cache.cacheCoins outpoint) (content base below outpoint)) ∧ Settled base below

@[simp] lemma tally_content (base : β) (caches : List CCoinsViewCache) (outpoint : COutPoint) :
    (tally base caches outpoint).1 = content base caches outpoint := by
  induction caches with
  | nil => rfl
  | cons cache below ih => simp [tally, ih, content]

lemma content_le_holding (base : β) (caches : List CCoinsViewCache) (outpoint : COutPoint) :
    weight Coin.worth (content base caches outpoint) ≤ holding base caches outpoint := by
  rw [holding, total, tally_content]
  exact Nat.le_add_right _ _

variable {caches caches' : List CCoinsViewCache}

lemma Fetched.tally {base : β}
    (fetched : Fetched base caches caches') : Coins.tally base caches' = Coins.tally base caches := by
  induction fetched with
  | nil => rfl
  | cons tail filled _ _ ih =>
    funext outpoint
    simp only [Coins.tally, ih]
    rcases filled outpoint with same | filled
    · rw [same]
    · rw [filled, ← tally_content, atop_fill]

lemma Fetched.settled {base : β} (fetched : Fetched base caches caches') (settled : Settled base caches) :
    Settled base caches' := by
  induction fetched with
  | nil => trivial
  | cons tail filled _ _ ih =>
    obtain ⟨here, rest⟩ := settled
    refine ⟨fun outpoint => ?_, ih rest⟩
    rw [tail.content]
    rcases filled outpoint with same | filled
    · rw [same]
      exact here outpoint
    · rw [filled]
      exact fill_repeats _ (here outpoint)

variable {base : β} {cache cache' : CCoinsViewCache}

lemma tally_same_entries (base : β)
    (same : caches'.map CCoinsViewCache.cacheCoins = caches.map CCoinsViewCache.cacheCoins) :
    tally base caches' = tally base caches ∧ (Settled base caches → Settled base caches') := by
  induction caches generalizing caches' with
  | nil =>
    rw [List.map_nil, List.map_eq_nil_iff] at same
    subst same
    exact ⟨rfl, id⟩
  | cons cache below ih =>
    obtain ⟨cache', below', rfl, entries, rest⟩ := List.map_eq_cons_iff.mp same
    obtain ⟨tallies, kept⟩ := ih rest
    refine ⟨by funext outpoint; simp [tally, entries, tallies], ?_⟩
    rintro ⟨here, settled⟩
    refine ⟨?_, kept settled⟩
    rw [entries, (same_entries base rest).1]
    exact here

/-! Calls that change one slot of the topmost cache. -/

variable {below : List CCoinsViewCache} {outpoint : COutPoint}

lemma tally_update (changed : slots cache'.cacheCoins = Function.update (slots cache.cacheCoins) outpoint slot) :
    tally base (cache' :: below) = Function.update (tally base (cache :: below)) outpoint
        (atop Coin.worth slot (tally base below outpoint)) := by
  funext other
  by_cases same : other = outpoint
  · subst same
    simp [tally, changed]
  · simp [tally, changed, same]

lemma settled_update (settled : Settled base (cache :: below))
    (changed : slots cache'.cacheCoins = Function.update (slots cache.cacheCoins) outpoint slot)
    (dirty : ∀ held, slot = some held → held.dirty = true) : Settled base (cache' :: below) := by
  refine ⟨fun other => ?_, settled.2⟩
  rw [changed]
  by_cases same : other = outpoint
  · subst same
    rw [update_self]
    intro held present clean
    rw [dirty held present] at clean
    cases clean
  · rw [update_of_ne same]
    exact settled.1 other

lemma take_dirty {held taken : Slot Coin} (present : take held = some taken) : taken.dirty = true := by
  unfold take at present
  split at present
  · cases present
  · cases present
    rfl

lemma put_dirty {held : Slot Coin} (stored : put value overwrite slot = some held) : held.dirty = true := by
  dsimp only [put] at stored
  split at stored
  · cases stored
  · cases stored
    rfl

lemma spendCoin_tally (outpoint : COutPoint) (settled : Settled base (cache :: below)) : ∃ moveout cache' below',
      spendCoin base (cache :: below) outpoint = (moveout, cache' :: below') ∧
      Settled base (cache' :: below') ∧ (∀ other, other ≠ outpoint →
        tally base (cache' :: below') other = tally base (cache :: below) other) ∧
      holding base (cache' :: below') outpoint + weight Coin.worth (content base (cache :: below) outpoint) =
        holding base (cache :: below) outpoint := by
  obtain ⟨cache', below', fetched, found⟩ := spendCoin_fetches base cache below outpoint
  have kept := fetched.settled settled
  have tallies := fetched.tally
  rcases found with ⟨none, gone⟩ | ⟨held, moved, cached, shown⟩
  · refine ⟨_, cache', below', none, kept, fun other _ => ?_, ?_⟩
    · rw [tallies]
    · rw [holding, tallies, gone]
      rfl
  · have changed := (spendEntry_slot cache' outpoint held).1
    refine ⟨_, _, below', moved, settled_update kept changed fun _ => take_dirty, ?_, ?_⟩
    · intro other differs
      rw [tally_update changed, update_of_ne differs, tallies]
    · have before : tally base (cache :: below) outpoint =
          atop Coin.worth (some (slotOf held)) (tally base below' outpoint) := by
        rw [← tallies, tally, slots, cached]
        rfl
      rw [holding, tally_update changed, update_self, holding, before, ← shown]
      exact take_total

lemma addCoin_tally (settled : Settled base (cache :: below))
    (added : addCoin cache outpoint coin possible_overwrite = (.ok (), cache')) :
    Settled base (cache' :: below) ∧ (∀ other, other ≠ outpoint →
        tally base (cache' :: below) other = tally base (cache :: below) other) ∧
      holding base (cache' :: below) outpoint ≤ holding base (cache :: below) outpoint + coin.worth := by
  by_cases spent : coin.isSpent = true
  · simp [addCoin, spent] at added
  have live : coin.isSpent = false := by simpa using spent
  by_cases unspendable : Script.isUnspendable coin.out.scriptPubKey = true
  · have same : cache' = cache := by simpa [addCoin, live, unspendable, eq_comm] using added
    subst same
    exact ⟨settled, fun _ _ => rfl, Nat.le_add_right _ _⟩
  have spendable : Script.isUnspendable coin.out.scriptPubKey = false := by simpa using unspendable
  have spec := addCoin_slot cache outpoint coin possible_overwrite live spendable
  cases stored : put coin possible_overwrite (slots cache.cacheCoins outpoint) with
  | none =>
    rw [stored] at spec
    simp [added] at spec
  | some held =>
    rw [stored] at spec
    obtain ⟨cache'', again, changed, _, _⟩ := spec
    have same : cache'' = cache' := by simpa [added, eq_comm] using again
    subst same
    refine ⟨settled_update settled changed ?_, ?_, ?_⟩
    · rintro _ ⟨⟩
      exact put_dirty stored
    · intro other differs
      rw [tally_update changed, update_of_ne differs]
    · rw [holding, tally_update changed, update_self]
      apply put_total _ stored
      rw [tally_content]
      exact settled.1 outpoint

/-! Flush. -/

lemma merge_dirty {child : Slot Coin} {below : Option Coin}
    (accepted : merge child ours = some merged) (repeats : Repeats ours below) : Repeats merged below := by
  unfold merge at accepted
  split at accepted
  · cases accepted
    exact repeats
  · intro held present clean
    cases ours with
    | none =>
      dsimp only at accepted
      split at accepted <;> cases accepted <;> cases present
      cases clean
    | some old =>
      dsimp only at accepted
      split at accepted
      · cases accepted
      · split at accepted <;> cases accepted <;> cases present
        cases clean

lemma flush_tally {order : Iteration} {base' : β} (settled : Settled base (cache :: below))
    (flushed : flush order base (cache :: below) = .ok (caches', base')) :
    Settled base' caches' ∧ caches' ≠ [] ∧
      ∀ outpoint, holding base' caches' outpoint ≤ holding base (cache :: below) outpoint := by
  cases below with
  | nil =>
    cases flushed
    refine ⟨⟨fun _ => repeats_none, trivial⟩, List.cons_ne_nil _ _, ?_⟩
    intro outpoint
    have law := CCoinsView.getCoin_batchWrite base (order.visit cache.cacheCoins)
      cache.hashBlock outpoint (visit_nodup order _)
    rw [visit_dlookup] at law
    have here := settled.1 outpoint
    simp only [holding, tally, slots_empty, atop, law]
    cases found : cache.cacheCoins.lookup outpoint with
    | none => simp [slots, found]
    | some entry =>
      simp only [slots, found, Option.map_some] at here
      by_cases dirty : entry.dirty = true
      · simp [slots, found, slotOf, dirty, total]
      · have clean : entry.dirty = false := by simpa using dirty
        have same := (here (slotOf entry) rfl clean).2
        simp [slots, found, clean, total, same, content]
  | cons parent below =>
    rcases batchWriteEntries_cases (order.visit cache.cacheCoins) parent (visit_nodup order _) with
      ⟨failed, _⟩ | ⟨parent', written, slotsAfter, _⟩
    · simp only [flush, batchWrite, failed] at flushed
      cases flushed
    · have result : caches' = { cache with cacheCoins := ∅, cachedCoinsUsage := 0 } ::
          { parent' with hashBlock := cache.hashBlock } :: below ∧ base' = base := by
        simp only [flush, batchWrite, written] at flushed
        cases flushed
        exact ⟨rfl, rfl⟩
      obtain ⟨rfl, rfl⟩ := result
      obtain ⟨childHere, ourHere, rest⟩ := settled
      -- one key at a time: the slot of the child is merged, or the key is not in the child
      have keys : ∀ outpoint,
          Repeats (slots parent'.cacheCoins outpoint) (content base' below outpoint) ∧
          total Coin.worth (atop Coin.worth (slots parent'.cacheCoins outpoint) (tally base' below outpoint)) =
            holding base' (cache :: parent :: below) outpoint := by
        intro outpoint
        have merged := slotsAfter outpoint
        have child := childHere outpoint
        rw [mergedAt, visit_dlookup] at merged
        cases found : cache.cacheCoins.lookup outpoint with
        | none =>
          rw [found] at merged
          have same := (Option.some.inj merged).symm
          rw [same]
          refine ⟨ourHere outpoint, ?_⟩
          simp only [holding, tally, slots, found, Option.map_none]
          rfl
        | some entry =>
          rw [found] at merged
          simp only [slots, found, Option.map_some] at child
          refine ⟨merge_dirty merged (ourHere outpoint), ?_⟩
          have top : holding base' (cache :: parent :: below) outpoint =
              total Coin.worth (atop Coin.worth (some (slotOf entry))
                (tally base' (parent :: below) outpoint)) := by
            simp [holding, tally, slots, found]
          rw [top]
          by_cases dirty : entry.dirty = true
          · exact merge_total dirty merged
          · have clean : entry.dirty = false := by simpa using dirty
            have same : slots parent'.cacheCoins outpoint = slots parent.cacheCoins outpoint := by
              simpa [merge, slotOf, clean, eq_comm] using merged
            rw [same, clean_total clean]
            · rfl
            · rw [tally_content]
              exact child
      refine ⟨⟨fun _ => repeats_none, fun outpoint => (keys outpoint).1, rest⟩,
        List.cons_ne_nil _ _, fun outpoint => ?_⟩
      exact (keys outpoint).2.le

end Tally

end Dragonchain.Coins
