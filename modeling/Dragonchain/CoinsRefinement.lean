import Dragonchain.WriteBack
import Dragonchain.CoinsDB

/-!
The stack of coin caches read as a stack of plain maps from outpoint to unspent
coin. `content` is what the topmost cache shows, `Coherent` is the promise of the
DIRTY and FRESH flags kept in every cache. Each call of CCoinsViewCache keeps it
and moves the map as a plain map would move.
-/

namespace Dragonchain.Coins

open WriteBack Function

variable {caches caches' caches'' : List CCoinsViewCache}

def slotOf (entry : CCoinsCacheEntry) : Slot Coin := ⟨entry.coin.unspent, entry.dirty, entry.fresh⟩

def slots (mapCoins : CCoinsMap) (outpoint : COutPoint) : Option (Slot Coin) :=
  (mapCoins.lookup outpoint).map slotOf

variable (mapCoins : CCoinsMap) (outpoint : COutPoint)

lemma slots_empty : slots ∅ outpoint = none := rfl

lemma slots_insert {entry : CCoinsCacheEntry} : slots (mapCoins.insert outpoint entry) =
      Function.update (slots mapCoins) outpoint (some (slotOf entry)) := by
  funext other
  by_cases same : other = outpoint
  · subst same
    simp [slots]
  · simp [slots, same]

lemma slots_erase : slots (mapCoins.erase outpoint) = Function.update (slots mapCoins) outpoint none := by
  funext other
  by_cases same : other = outpoint
  · subst same
    simp [slots]
  · simp [slots, same]

/-- Spent entries hold the cleared coin, so AccessCoin shows coinEmpty for them. -/
def Tidy (mapCoins : CCoinsMap) : Prop :=
  ∀ outpoint entry, mapCoins.lookup outpoint = some entry → entry.coin.isSpent = true → entry.coin = Coin.empty

lemma Tidy.insert {mapCoins : CCoinsMap} (tidy : Tidy mapCoins) (outpoint : COutPoint)
    (entry : CCoinsCacheEntry) (cleared : entry.coin.isSpent = true → entry.coin = Coin.empty) :
    Tidy (mapCoins.insert outpoint entry) := by
  intro other found held
  by_cases same : other = outpoint
  · subst same
    rw [AList.lookup_insert] at held
    cases held
    exact cleared
  · rw [AList.lookup_insert_ne same] at held
    exact tidy other found held

lemma Tidy.erase {mapCoins : CCoinsMap} (tidy : Tidy mapCoins) (outpoint : COutPoint) :
    Tidy (mapCoins.erase outpoint) := by
  intro other found held
  by_cases same : other = outpoint
  · subst same
    simp at held
  · rw [AList.lookup_erase_ne same] at held
    exact tidy other found held

lemma Coin.unspent_of_live {coin : Coin} (live : coin.isSpent = false) : coin.unspent = some coin := by
  simp [Coin.unspent, live]

section Stack
variable {β : Type} [CCoinsView β]

def content (base : β) : List CCoinsViewCache → COutPoint → Option Coin
  | [], outpoint => CCoinsView.getCoin base outpoint
  | cache :: below, outpoint => seen (slots cache.cacheCoins outpoint) (content base below outpoint)

def contents (base : β) : List CCoinsViewCache → List (COutPoint → Option Coin)
  | [] => [content base []]
  | cache :: below => content base (cache :: below) :: contents base below

def Coherent (base : β) : List CCoinsViewCache → Prop
  | [] => True
  | cache :: below =>
    (∀ outpoint, Sound (slots cache.cacheCoins outpoint) (content base below outpoint)) ∧
      Tidy cache.cacheCoins ∧ Coherent base below

lemma content_unspent (base : β) (caches : List CCoinsViewCache) (outpoint : COutPoint)
    (coin : Coin) (held : content base caches outpoint = some coin) : coin.isSpent = false := by
  induction caches with
  | nil => exact CCoinsView.getCoin_unspent base outpoint coin held
  | cons cache below ih =>
    cases found : cache.cacheCoins.lookup outpoint with
    | none =>
      simp only [content, slots, found, Option.map_none, seen_none] at held
      exact ih held
    | some entry =>
      simp only [content, slots, found, Option.map_some, seen_some, slotOf] at held
      obtain ⟨rfl, live⟩ := Coin.unspent_eq_some held
      exact live

/-! What a read does to the stack: some slots are filled from the view below. -/

inductive Fetched (base : β) : List CCoinsViewCache → List CCoinsViewCache → Prop
  | nil : Fetched base [] []
  | cons {cache cache' : CCoinsViewCache} {below below' : List CCoinsViewCache}
      (tail : Fetched base below below')
      (filled : ∀ outpoint,
        slots cache'.cacheCoins outpoint = slots cache.cacheCoins outpoint ∨
        slots cache'.cacheCoins outpoint = fill (content base below outpoint) (slots cache.cacheCoins outpoint))
      (tidy : Tidy cache.cacheCoins → Tidy cache'.cacheCoins)
      (hash : cache'.hashBlock = cache.hashBlock) :
      Fetched base (cache :: below) (cache' :: below')

lemma Fetched.refl (base : β) (caches : List CCoinsViewCache) : Fetched base caches caches := by
  induction caches with
  | nil => exact .nil
  | cons cache below ih => exact .cons ih (fun _ => .inl rfl) id rfl

section Fetches
variable {base : β}

variable (fetched : Fetched base caches caches')
include fetched

lemma Fetched.content : Coins.content base caches' = Coins.content base caches := by
  induction fetched with
  | nil => rfl
  | cons tail filled _ _ ih =>
    funext outpoint
    simp only [Coins.content, ih]
    rcases filled outpoint with same | filled
    · rw [same]
    · rw [filled, seen_fill]

lemma Fetched.contents : Coins.contents base caches' = Coins.contents base caches := by
  induction fetched with
  | nil => rfl
  | cons tail filled tidy hash ih =>
    simp only [Coins.contents, ih]
    rw [(Fetched.cons tail filled tidy hash).content]

lemma Fetched.coherent (coherent : Coherent base caches) : Coherent base caches' := by
  induction fetched with
  | nil => exact coherent
  | cons tail filled tidy _ ih =>
    obtain ⟨sound, tidied, rest⟩ := coherent
    refine ⟨fun outpoint => ?_, tidy tidied, ih rest⟩
    rw [tail.content]
    rcases filled outpoint with same | filled
    · rw [same]
      exact sound outpoint
    · rw [filled]
      exact fill_sound _ (sound outpoint)

omit fetched

lemma Fetched.trans (first : Fetched base caches caches') (second : Fetched base caches' caches'') :
    Fetched base caches caches'' := by
  induction first generalizing caches'' with
  | nil =>
    cases second
    exact .nil
  | cons tail filled tidy hash ih =>
    cases second with
    | cons tail' filled' tidy' hash' =>
      refine .cons (ih tail') (fun outpoint => ?_) (tidy' ∘ tidy) (hash'.trans hash)
      rcases filled' outpoint with same' | filled'
      · rw [same']
        exact filled outpoint
      · rw [filled', tail.content]
        right
        rcases filled outpoint with same | filled
        · rw [same]
        · rw [filled, fill_fill]

end Fetches

variable (base : β) (order : Iteration) (mapCoins : CCoinsMap) (cache : CCoinsViewCache)
  (below : List CCoinsViewCache) (outpoint : COutPoint) (coin : Coin) (entry : CCoinsCacheEntry)
  {answer : Option Coin × List CCoinsViewCache}

/-- Everything FetchCoin does, given what the view below answers. -/
lemma fetchFrom_cases :
    (∃ entry, cache.cacheCoins.lookup outpoint = some entry ∧
      fetchFrom cache below outpoint answer = (some entry, cache :: below)) ∨
    (cache.cacheCoins.lookup outpoint = none ∧ answer.1 = none ∧
      fetchFrom cache below outpoint answer = (none, cache :: answer.2)) ∨
    (cache.cacheCoins.lookup outpoint = none ∧ ∃ tmp, answer.1 = some tmp ∧
      fetchFrom cache below outpoint answer = (some { coin := tmp, fresh := tmp.isSpent }, { cache with
          cacheCoins := cache.cacheCoins.insert outpoint { coin := tmp, fresh := tmp.isSpent }
          cachedCoinsUsage := cache.cachedCoinsUsage + tmp.dynamicMemoryUsage } :: answer.2)) := by
  obtain ⟨found, below'⟩ := answer
  cases hit : cache.cacheCoins.lookup outpoint with
  | some entry => exact .inl ⟨entry, rfl, by simp [fetchFrom, hit]⟩
  | none =>
    cases found with
    | none => exact .inr (.inl ⟨rfl, rfl, by simp [fetchFrom, hit]⟩)
    | some tmp => exact .inr (.inr ⟨rfl, tmp, rfl, by simp [fetchFrom, hit]⟩)

/-- What a fetch through a cache yields: the entry agrees with the map, only reads
happened, and the entry now sits in the topmost cache. -/
structure FetchedEntry (base : β) (caches : List CCoinsViewCache) (outpoint : COutPoint)
    (entry : Option CCoinsCacheEntry) (caches' : List CCoinsViewCache) : Prop where
  agrees : (entry.bind fun entry => entry.coin.unspent) = content base caches outpoint
  fetched : Fetched base caches caches'
  cached : ∃ cache below, caches' = cache :: below ∧ cache.cacheCoins.lookup outpoint = entry

lemma fetchFrom_entry (agrees : answer.1 = content base below outpoint) (fetched : Fetched base below answer.2) :
    FetchedEntry base (cache :: below) outpoint (fetchFrom cache below outpoint answer).1
      (fetchFrom cache below outpoint answer).2 := by
  rcases fetchFrom_cases cache below outpoint with
    ⟨entry, hit, same⟩ | ⟨miss, gone, same⟩ | ⟨miss, tmp, found, same⟩
  · rw [same]
    refine ⟨?_, Fetched.refl base _, cache, below, rfl, hit⟩
    simp [content, slots, hit, slotOf]
  · rw [same]
    refine ⟨?_, .cons fetched (fun _ => .inl rfl) id rfl, cache, answer.2, rfl, miss⟩
    simp [content, slots, miss, ← agrees, gone]
  · -- the coin below is unspent, so the copy is neither dirty nor fresh
    have live : tmp.isSpent = false := by
      apply content_unspent base below outpoint tmp
      rw [← agrees, found]
    rw [same]
    refine ⟨?_, .cons fetched (fun other => ?_) (fun tidy => ?_) rfl, _, answer.2, rfl, AList.lookup_insert _⟩
    · simp [content, slots, miss, ← agrees, found, Coin.unspent_of_live live]
    · rw [slots_insert]
      by_cases hit : other = outpoint
      · right
        subst hit
        simp [slots, miss, fill, ← agrees, found, slotOf, Coin.unspent_of_live live, live]
      · left
        rw [update_of_ne hit]
    · exact tidy.insert outpoint _ fun spent => by simp [live] at spent

lemma getCoin_spec (caches : List CCoinsViewCache) (outpoint : COutPoint) :
    (getCoin base caches outpoint).1 = content base caches outpoint ∧
      Fetched base caches (getCoin base caches outpoint).2 := by
  induction caches with
  | nil => exact ⟨rfl, .nil⟩
  | cons cache below ih =>
    have entry := fetchFrom_entry base cache below outpoint ih.1 ih.2
    exact ⟨entry.agrees, entry.fetched⟩

lemma fetchCoin_spec :
    FetchedEntry base (cache :: below) outpoint (fetchCoin base (cache :: below) outpoint).1
      (fetchCoin base (cache :: below) outpoint).2 :=
  let answer := getCoin_spec base below outpoint
  fetchFrom_entry base cache below outpoint answer.1 answer.2

lemma haveCoin_spec :
    (haveCoin base (cache :: below) outpoint).1 = (content base (cache :: below) outpoint).isSome ∧
      Fetched base (cache :: below) (haveCoin base (cache :: below) outpoint).2 := by
  have entry := fetchCoin_spec base cache below outpoint
  refine ⟨?_, entry.fetched⟩
  rw [← entry.agrees]
  simp only [haveCoin]
  cases (fetchCoin base (cache :: below) outpoint).1 with
  | none => rfl
  | some found => cases live : found.coin.isSpent <;> simp [Coin.unspent, live]

lemma accessCoin_spec (coherent : Coherent base (cache :: below)) :
    (accessCoin base (cache :: below) outpoint).1 = (content base (cache :: below) outpoint).getD Coin.empty ∧
      Fetched base (cache :: below) (accessCoin base (cache :: below) outpoint).2 := by
  have entry := fetchCoin_spec base cache below outpoint
  refine ⟨?_, entry.fetched⟩
  obtain ⟨cache', below', same, cached⟩ := entry.cached
  have kept := entry.fetched.coherent coherent
  rw [same] at kept
  rw [← entry.agrees]
  simp only [accessCoin]
  cases found : (fetchCoin base (cache :: below) outpoint).1 with
  | none => rfl
  | some held =>
    rw [found] at cached
    by_cases spent : held.coin.isSpent = true
    · have cleared := kept.2.1 outpoint held cached spent
      have gone : held.coin.unspent = none := by simp [Coin.unspent, spent]
      simpa [gone] using cleared
    · simp [Coin.unspent, spent]

/-- An unspent answer of AccessCoin is the coin of the map, whatever the flags say. -/
lemma accessCoin_live (live : (accessCoin base (cache :: below) outpoint).1.isSpent = false) :
    content base (cache :: below) outpoint = some (accessCoin base (cache :: below) outpoint).1 := by
  rw [← (fetchCoin_spec base cache below outpoint).agrees]
  simp only [accessCoin] at live ⊢
  generalize (fetchCoin base (cache :: below) outpoint).1 = found at live ⊢
  cases found with
  | none => cases live
  | some entry => exact Coin.unspent_of_live live

/-! Calls that change one slot of the topmost cache. -/

variable {slot : Option (Slot Coin)}

lemma content_update {cache cache' : CCoinsViewCache} {below : List CCoinsViewCache} {outpoint : COutPoint}
    (changed : slots cache'.cacheCoins = Function.update (slots cache.cacheCoins) outpoint slot) :
    content base (cache' :: below) = Function.update (content base (cache :: below)) outpoint
        (seen slot (content base below outpoint)) := by
  funext other
  by_cases same : other = outpoint
  · subst same
    simp [content, changed]
  · simp [content, changed, same]

lemma coherent_update {cache cache' : CCoinsViewCache} {below : List CCoinsViewCache}
    {outpoint : COutPoint} (coherent : Coherent base (cache :: below))
    (changed : slots cache'.cacheCoins = Function.update (slots cache.cacheCoins) outpoint slot)
    (sound : Sound slot (content base below outpoint)) (tidy : Tidy cache'.cacheCoins) :
    Coherent base (cache' :: below) := by
  refine ⟨fun other => ?_, tidy, coherent.2.2⟩
  rw [changed]
  by_cases same : other = outpoint
  · subst same
    rwa [update_self]
  · rw [update_of_ne same]
    exact coherent.1 other

lemma slotOf_empty : slotOf {} = ⟨none, false, false⟩ := by
  simp [slotOf, Coin.unspent, Coin.isSpent, Coin.empty, CTxOut.null, CTxOut.isNull]

lemma unspent_isSome : coin.unspent.isSome = !coin.isSpent := by
  cases spent : coin.isSpent <;> simp [Coin.unspent, spent]

lemma unspent_isNone : coin.unspent.isNone = coin.isSpent := by
  cases spent : coin.isSpent <;> simp [Coin.unspent, spent]

variable (possible_overwrite : Bool)

lemma addCoin_slot (live : coin.isSpent = false) (spendable : Script.isUnspendable coin.out.scriptPubKey = false) :
    match put coin possible_overwrite (slots cache.cacheCoins outpoint) with
    | none => (addCoin cache outpoint coin possible_overwrite).1 = .error .replacesNonPrunedEntry
    | some held => ∃ cache', addCoin cache outpoint coin possible_overwrite = (.ok (), cache') ∧
        slots cache'.cacheCoins = Function.update (slots cache.cacheCoins) outpoint (some held) ∧
        (Tidy cache.cacheCoins → Tidy cache'.cacheCoins) ∧ cache'.hashBlock = cache.hashBlock := by
  have same : (slots cache.cacheCoins outpoint).getD ⟨none, false, false⟩ =
      slotOf ((cache.cacheCoins.lookup outpoint).getD {}) := by
    cases found : cache.cacheCoins.lookup outpoint with
    | none => simp [slots, found, slotOf_empty]
    | some entry => simp [slots, found]
  simp only [put, same]
  generalize held : (cache.cacheCoins.lookup outpoint).getD {} = it
  have refusal : (!possible_overwrite && (slotOf it).value.isSome) = (!possible_overwrite && !it.coin.isSpent) := by
    rw [← unspent_isSome it.coin]
    rfl
  rw [refusal]
  by_cases refused : (!possible_overwrite && !it.coin.isSpent) = true
  · simp [addCoin, live, spendable, held, refused]
  · simp only [refused, Bool.false_eq_true, if_false]
    have added : ∃ usage, addCoin cache outpoint coin possible_overwrite =
        (.ok (), { cache with
          cacheCoins := cache.cacheCoins.insert outpoint
            ⟨coin, true, it.fresh || (!possible_overwrite && !it.dirty)⟩
          cachedCoinsUsage := usage }) :=
      ⟨_, by simp only [addCoin, live, spendable, held, refused, Bool.false_eq_true, if_false]; rfl⟩
    obtain ⟨usage, added⟩ := added
    refine ⟨_, added, ?_, ?_, rfl⟩
    · rw [slots_insert]
      simp [slotOf, Coin.unspent_of_live live]
    · intro tidy
      exact tidy.insert outpoint _ fun spent => by simp [live] at spent

/-- AddCoin refuses a spent coin and passes over an unspendable one; any other it adds. -/
lemma addCoin_cases
    (coherent : Coherent base (cache :: below))
    (vacant : Script.isUnspendable coin.out.scriptPubKey = false → possible_overwrite = false →
      content base (cache :: below) outpoint = none) :
    (coin.isSpent = true ∧ addCoin cache outpoint coin possible_overwrite = (.error .addSpentCoin, cache)) ∨
    coin.isSpent = false ∧ ∃ cache', addCoin cache outpoint coin possible_overwrite = (.ok (), cache') ∧
      Coherent base (cache' :: below) ∧
      content base (cache' :: below) =
        (if Script.isUnspendable coin.out.scriptPubKey then content base (cache :: below)
          else Function.update (content base (cache :: below)) outpoint (some coin)) ∧
      cache'.hashBlock = cache.hashBlock := by
  cases live : coin.isSpent with
  | true => exact .inl ⟨rfl, by rw [addCoin, if_pos live]⟩
  | false =>
    refine .inr ⟨rfl, ?_⟩
    cases spendable : Script.isUnspendable coin.out.scriptPubKey with
    | true => exact ⟨cache, by simp [addCoin, live, spendable], coherent, rfl, rfl⟩
    | false =>
      obtain ⟨held, stored, value, sound⟩ := put_accepted (coherent.1 outpoint) (vacant spendable)
      have spec := addCoin_slot cache outpoint coin possible_overwrite live spendable
      rw [stored] at spec
      obtain ⟨cache', added, changed, tidy, hash⟩ := spec
      refine ⟨cache', added, ?_, ?_, hash⟩
      · exact coherent_update base coherent changed sound (tidy coherent.2.1)
      · rw [content_update base changed, seen_some, value]
        rfl

lemma spendEntry_slot : slots (spendEntry cache outpoint entry).cacheCoins =
        Function.update (slots cache.cacheCoins) outpoint (take (slotOf entry)) ∧
      (Tidy cache.cacheCoins → Tidy (spendEntry cache outpoint entry).cacheCoins) ∧
      (spendEntry cache outpoint entry).hashBlock = cache.hashBlock := by
  by_cases fresh : entry.fresh = true
  · refine ⟨?_, fun tidy => ?_, ?_⟩
    · simp [spendEntry, fresh, slots_erase, take, slotOf]
    · simpa [spendEntry, fresh] using tidy.erase outpoint
    · simp [spendEntry, fresh]
  · have cleared : slotOf { entry with coin := Coin.empty, dirty := true } = ⟨none, true, false⟩ := by
      simpa [slotOf, fresh] using congrArg Slot.value slotOf_empty
    have spent : (spendEntry cache outpoint entry).cacheCoins =
        cache.cacheCoins.insert outpoint { entry with coin := Coin.empty, dirty := true } := by
      simp [spendEntry, fresh]
    refine ⟨?_, fun tidy => ?_, ?_⟩
    · rw [spent, slots_insert, cleared]
      simp [take, slotOf, fresh]
    · simpa [spendEntry, fresh] using tidy.insert outpoint _ fun _ => rfl
    · simp [spendEntry, fresh]

/-- SpendCoin fetches the entry, and spends it where there is one. -/
lemma spendCoin_fetches : ∃ cache' below', Fetched base (cache :: below) (cache' :: below') ∧
      ((spendCoin base (cache :: below) outpoint = (none, cache' :: below') ∧
          content base (cache :: below) outpoint = none) ∨
        ∃ held, spendCoin base (cache :: below) outpoint =
            (some held.coin, spendEntry cache' outpoint held :: below') ∧
          cache'.cacheCoins.lookup outpoint = some held ∧
          held.coin.unspent = content base (cache :: below) outpoint) := by
  have entry := fetchCoin_spec base cache below outpoint
  obtain ⟨cache', below', same, cached⟩ := entry.cached
  have agrees := entry.agrees
  have pair : fetchCoin base (cache :: below) outpoint =
      ((fetchCoin base (cache :: below) outpoint).1, cache' :: below') := by rw [← same]
  refine ⟨cache', below', same ▸ entry.fetched, ?_⟩
  cases found : (fetchCoin base (cache :: below) outpoint).1 with
  | none =>
    rw [found] at pair agrees
    exact .inl ⟨by simp [spendCoin, pair], agrees.symm⟩
  | some held =>
    rw [found] at pair cached agrees
    exact .inr ⟨held, by simp [spendCoin, pair], cached, agrees⟩

variable (coherent : Coherent base (cache :: below))
include coherent

/-- SpendCoin moves out the coin of the map. Where the map has none the call may still
succeed on a spent entry, and then moves out the cleared coin. -/
lemma spendCoin_cases : ∃ moveout cache' below',
      spendCoin base (cache :: below) outpoint = (moveout, cache' :: below') ∧
      (moveout = content base (cache :: below) outpoint ∨
        content base (cache :: below) outpoint = none ∧ moveout = some Coin.empty) ∧
      Coherent base (cache' :: below') ∧ content base (cache' :: below') =
        Function.update (content base (cache :: below)) outpoint none ∧
      Fetched base below below' ∧ cache'.hashBlock = cache.hashBlock := by
  obtain ⟨cache', below', fetched, found⟩ := spendCoin_fetches base cache below outpoint
  have kept := fetched.coherent coherent
  have shows := fetched.content
  cases fetched with
  | cons tail filled tidied hash =>
    rcases found with ⟨none, gone⟩ | ⟨held, moved, cached, shown⟩
    · refine ⟨_, cache', below', none, .inl gone.symm, kept, ?_, tail, hash⟩
      rw [shows, ← gone, update_eq_self]
    · obtain ⟨changed, tidy, hashKept⟩ := spendEntry_slot cache' outpoint held
      have sound := kept.1 outpoint
      simp only [slots, cached, Option.map_some] at sound
      refine ⟨_, _, below', moved, ?_, ?_, ?_, tail, hashKept.trans hash⟩
      · cases spent : held.coin.isSpent with
        | false =>
          left
          rw [← shown, Coin.unspent_of_live spent]
        | true =>
          right
          rw [← shown, kept.2.1 outpoint held cached spent]
          exact ⟨congrArg Slot.value slotOf_empty, rfl⟩
      · exact coherent_update base kept changed take_sound (tidy kept.2.1)
      · rw [content_update base changed, seen_take sound, shows]

lemma spendCoin_refines : ((spendCoin base (cache :: below) outpoint).1.bind Coin.unspent) =
        content base (cache :: below) outpoint ∧ Coherent base (spendCoin base (cache :: below) outpoint).2 ∧
      contents base (spendCoin base (cache :: below) outpoint).2 =
        Function.update (content base (cache :: below)) outpoint none :: contents base below := by
  obtain ⟨moveout, cache', below', spent, moved, kept, shows, fetched, _⟩ :=
    spendCoin_cases base cache below outpoint coherent
  rw [spent]
  refine ⟨?_, kept, ?_⟩
  · rcases moved with rfl | ⟨gone, rfl⟩
    · cases held : content base (cache :: below) outpoint with
      | none => rfl
      | some coin => exact Coin.unspent_of_live (content_unspent base _ outpoint coin held)
    · rw [gone]
      exact congrArg Slot.value slotOf_empty
  · simp [contents, shows, fetched.contents]

lemma uncache_refines : Coherent base (uncache cache outpoint :: below) ∧
      content base (uncache cache outpoint :: below) = content base (cache :: below) := by
  cases found : cache.cacheCoins.lookup outpoint with
  | none =>
    simp only [uncache, found]
    exact ⟨coherent, trivial⟩
  | some entry =>
    by_cases own : (!entry.dirty && !entry.fresh) = true
    · have released : release (slots cache.cacheCoins outpoint) = none := by
        cases dirty : entry.dirty <;> cases fresh : entry.fresh <;> simp [dirty, fresh] at own
        simp [release, slots, found, slotOf, dirty, fresh]
      have changed : slots (uncache cache outpoint).cacheCoins =
          Function.update (slots cache.cacheCoins) outpoint (release (slots cache.cacheCoins outpoint)) := by
        rw [released]
        simp [uncache, found, own, slots_erase]
      have tidy : Tidy (uncache cache outpoint).cacheCoins := by
        simpa only [uncache, found, own, if_true] using coherent.2.1.erase outpoint
      refine ⟨coherent_update base coherent changed (release_sound _ (coherent.1 outpoint)) tidy, ?_⟩
      rw [content_update base changed, seen_release _ (coherent.1 outpoint)]
      exact update_eq_self outpoint (content base (cache :: below))
    · simp only [uncache, found, own, Bool.false_eq_true, if_false]
      exact ⟨coherent, trivial⟩

/-! BatchWrite merges the entries of a child cache one key at a time. -/

omit coherent

lemma batchWriteEntry_slot :
    match merge (slotOf entry) (slots cache.cacheCoins outpoint) with
    | none => batchWriteEntry cache ⟨outpoint, entry⟩ = .error .freshFlagMisapplied
    | some merged => ∃ cache', batchWriteEntry cache ⟨outpoint, entry⟩ = .ok cache' ∧
        slots cache'.cacheCoins = Function.update (slots cache.cacheCoins) outpoint merged ∧
        ((entry.coin.isSpent = true → entry.coin = Coin.empty) →
          Tidy cache.cacheCoins → Tidy cache'.cacheCoins) := by
  by_cases dirty : entry.dirty = true
  · cases found : cache.cacheCoins.lookup outpoint with
    | none =>
      by_cases gone : (entry.fresh && entry.coin.isSpent) = true
      · simp only [merge, slots, found, slotOf, dirty, unspent_isNone, gone, batchWriteEntry,
          Option.map_none, Bool.not_true, Bool.false_eq_true, if_false, if_true]
        refine ⟨cache, rfl, ?_, fun _ => id⟩
        symm
        simp [slots, found]
      · simp only [merge, slots, found, slotOf, dirty, unspent_isNone, gone, batchWriteEntry,
          Option.map_none, Bool.not_true, Bool.false_eq_true, if_false]
        refine ⟨_, rfl, ?_, fun cleared tidy => tidy.insert outpoint _ cleared⟩
        exact slots_insert _ _
    | some itUs =>
      by_cases misused : (entry.fresh && !itUs.coin.isSpent) = true
      · simp [merge, slots, found, slotOf, dirty, unspent_isSome, misused, batchWriteEntry]
      · by_cases gone : (itUs.fresh && entry.coin.isSpent) = true
        · simp only [merge, slots, found, slotOf, dirty, unspent_isSome, unspent_isNone, misused,
            gone, batchWriteEntry, Option.map_some, Bool.not_true, Bool.false_eq_true, if_false,
            if_true]
          exact ⟨_, rfl, slots_erase _ _, fun _ tidy => tidy.erase outpoint⟩
        · simp only [merge, slots, found, slotOf, dirty, unspent_isSome, unspent_isNone, misused,
            gone, batchWriteEntry, Option.map_some, Bool.not_true, Bool.false_eq_true, if_false]
          exact ⟨_, rfl, slots_insert _ _, fun cleared tidy => tidy.insert outpoint _ cleared⟩
  · have clean : entry.dirty = false := by simpa using dirty
    simp only [merge, slotOf, clean, batchWriteEntry, Bool.not_false, if_true]
    exact ⟨cache, rfl, (update_eq_self outpoint _).symm, fun _ => id⟩

def mergedAt (mapCoins : List CoinsEntry) (cache : CCoinsViewCache) (outpoint : COutPoint) :
    Option (Option (Slot Coin)) :=
  match mapCoins.dlookup outpoint with
  | some entry => merge (slotOf entry) (slots cache.cacheCoins outpoint)
  | none => some (slots cache.cacheCoins outpoint)

lemma batchWriteEntries_cases (mapCoins : List CoinsEntry) (cache : CCoinsViewCache)
    (nodup : mapCoins.NodupKeys) : (mapCoins.foldlM batchWriteEntry cache = .error .freshFlagMisapplied ∧
      ∃ outpoint, mergedAt mapCoins cache outpoint = none) ∨
    ∃ cache', mapCoins.foldlM batchWriteEntry cache = .ok cache' ∧
      (∀ outpoint, mergedAt mapCoins cache outpoint = some (slots cache'.cacheCoins outpoint)) ∧
      ((∀ it ∈ mapCoins, it.2.coin.isSpent = true → it.2.coin = Coin.empty) →
        Tidy cache.cacheCoins → Tidy cache'.cacheCoins) := by
  induction mapCoins generalizing cache with
  | nil => exact .inr ⟨cache, rfl, fun _ => rfl, fun _ => id⟩
  | cons it rest ih =>
    obtain ⟨key, entry⟩ := it
    rw [List.nodupKeys_cons] at nodup
    have absent := List.dlookup_eq_none.mpr nodup.1
    have step := batchWriteEntry_slot cache key entry
    have here : mergedAt (⟨key, entry⟩ :: rest) cache key = merge (slotOf entry) (slots cache.cacheCoins key) := by
      simp [mergedAt]
    cases merged : merge (slotOf entry) (slots cache.cacheCoins key) with
    | none =>
      rw [merged] at step here
      left
      exact ⟨by rw [List.foldlM_cons, step]; rfl, key, here⟩
    | some slot =>
      rw [merged] at step here
      obtain ⟨next, written, changed, tidy⟩ := step
      have fold : List.foldlM batchWriteEntry cache (⟨key, entry⟩ :: rest) =
          List.foldlM batchWriteEntry next rest := by
        rw [List.foldlM_cons, written]
        rfl
      -- the keys of the rest are other keys, whose slots the first merge left alone
      have elsewhere : ∀ other, other ≠ key →
          mergedAt (⟨key, entry⟩ :: rest) cache other = mergedAt rest next other := by
        intro other differs
        simp [mergedAt, changed, differs, List.dlookup_cons_ne]
      rw [fold]
      rcases ih next nodup.2 with ⟨failed, other, refused⟩ | ⟨cache', done, slotsAfter, tidied⟩
      · left
        refine ⟨failed, other, ?_⟩
        rw [elsewhere other ?_, refused]
        rintro rfl
        simp [mergedAt, absent] at refused
      · right
        refine ⟨cache', done, fun other => ?_, fun cleared start => ?_⟩
        · by_cases same : other = key
          · subst same
            have last := slotsAfter other
            simp only [mergedAt, absent, changed, update_self] at last
            rw [here, last]
          · rw [elsewhere other same, slotsAfter other]
        · apply tidied fun it member => cleared it (List.mem_cons_of_mem _ member)
          exact tidy (cleared ⟨key, entry⟩ List.mem_cons_self) start

lemma visit_nodup : (order.visit mapCoins).NodupKeys :=
  (List.perm_nodupKeys (order.perm mapCoins)).mpr mapCoins.nodupKeys

lemma visit_dlookup : (order.visit mapCoins).dlookup outpoint = mapCoins.lookup outpoint :=
  List.perm_dlookup outpoint (visit_nodup order mapCoins) (order.perm mapCoins)

lemma visit_tidy (tidy : Tidy mapCoins) :
    ∀ it ∈ order.visit mapCoins, it.2.coin.isSpent = true → it.2.coin = Coin.empty := by
  rintro ⟨outpoint, entry⟩ member
  have listed : (⟨outpoint, entry⟩ : CoinsEntry) ∈ mapCoins.entries := (order.perm mapCoins).mem_iff.mp member
  exact tidy outpoint entry (AList.mem_lookup_iff.mpr listed)

/-- Merging a coherent child never faults, and the parent then shows the child's map. -/
lemma mergedAt_coherent {cache parent : CCoinsViewCache}
    {below : List CCoinsViewCache} (coherent : Coherent base (cache :: parent :: below))
    (outpoint : COutPoint) : ∃ merged, mergedAt (order.visit cache.cacheCoins) parent outpoint = some merged ∧
      seen merged (content base below outpoint) = content base (cache :: parent :: below) outpoint ∧
      Sound merged (content base below outpoint) := by
  obtain ⟨childSound, _, ourSound, _, _⟩ := coherent
  have child := childSound outpoint
  cases found : cache.cacheCoins.lookup outpoint with
  | none =>
    refine ⟨slots parent.cacheCoins outpoint, ?_, ?_, ourSound outpoint⟩
    · rw [mergedAt, visit_dlookup, found]
    · simp [content, slots, found]
  | some entry =>
    simp only [slots, found, Option.map_some] at child
    have kept := child (slotOf entry) rfl
    rw [mergedAt, visit_dlookup, found]
    by_cases dirty : entry.dirty = true
    · have top : content base (cache :: parent :: below) outpoint = (slotOf entry).value := by
        simp [content, slots, found]
      rw [top]
      exact merge_accepted dirty kept.2 (ourSound outpoint)
    · have clean : entry.dirty = false := by simpa using dirty
      refine ⟨slots parent.cacheCoins outpoint, by simp [merge, slotOf, clean], ?_, ourSound outpoint⟩
      rw [content]
      simp only [slots, found, Option.map_some, seen_some, kept.1 clean]
      rfl

lemma flush_onto_cache {cache parent : CCoinsViewCache}
    {below : List CCoinsViewCache} (coherent : Coherent base (cache :: parent :: below)) :
    ∃ caches, flush order base (cache :: parent :: below) = .ok (caches, base) ∧
      Coherent base caches ∧ caches ≠ [] ∧ contents base caches =
        content base (cache :: parent :: below) :: content base (cache :: parent :: below) ::
          contents base below := by
  have merges := mergedAt_coherent base order coherent
  rcases batchWriteEntries_cases (order.visit cache.cacheCoins) parent (visit_nodup order _) with
    ⟨_, outpoint, faults⟩ | ⟨parent', written, slotsAfter, tidy⟩
  · obtain ⟨merged, accepted, _⟩ := merges outpoint
    rw [faults] at accepted
    cases accepted
  · have shown : content base ({ parent' with hashBlock := cache.hashBlock } :: below) =
        content base (cache :: parent :: below) := by
      funext outpoint
      obtain ⟨merged, accepted, seenMerged, _⟩ := merges outpoint
      rw [slotsAfter outpoint, Option.some.injEq] at accepted
      rw [← seenMerged, ← accepted]
      rfl
    have kept : Coherent base ({ parent' with hashBlock := cache.hashBlock } :: below) := by
      refine ⟨fun outpoint => ?_, ?_, coherent.2.2.2.2⟩
      · obtain ⟨merged, accepted, _, sound⟩ := merges outpoint
        rw [slotsAfter outpoint, Option.some.injEq] at accepted
        rw [accepted]
        exact sound
      · exact tidy (visit_tidy order _ coherent.2.1) coherent.2.2.2.1
    refine ⟨_, by simp only [flush, batchWrite, written]; rfl, ?_, List.cons_ne_nil _ _, ?_⟩
    · refine ⟨fun outpoint => sound_none, ?_, kept⟩
      rintro outpoint entry ⟨⟩
    · simp only [contents, shown]
      congr 1

lemma flush_onto_base
    (coherent : Coherent base [cache]) : ∃ caches base', flush order base [cache] = .ok (caches, base') ∧
      Coherent base' caches ∧ caches ≠ [] ∧
      contents base' caches = [content base [cache], content base [cache]] := by
  have stored : content (CCoinsView.batchWrite base (order.visit cache.cacheCoins)
      cache.hashBlock) [] = content base [cache] := by
    funext outpoint
    have law := CCoinsView.getCoin_batchWrite base (order.visit cache.cacheCoins)
      cache.hashBlock outpoint (visit_nodup order _)
    rw [visit_dlookup] at law
    simp only [content, law]
    cases found : cache.cacheCoins.lookup outpoint with
    | none => simp [slots, found]
    | some entry =>
      have sound := coherent.1 outpoint
      simp only [slots, found, Option.map_some] at sound
      by_cases dirty : entry.dirty = true
      · simp [slots, found, slotOf, dirty]
      · have clean : entry.dirty = false := by simpa using dirty
        have same := (sound (slotOf entry) rfl).1 clean
        simp only [slots, found, clean, Option.map_some, seen_some, same, content]
        rfl
  refine ⟨_, _, rfl, ⟨fun _ => sound_none, ?_, trivial⟩, List.cons_ne_nil _ _, ?_⟩
  · rintro outpoint entry ⟨⟩
  · simp only [contents, stored, List.cons.injEq, and_true]
    rw [← stored]
    rfl

lemma flush_refines (caches : List CCoinsViewCache) (coherent : Coherent base caches) (present : caches ≠ []) :
    ∃ caches' base', flush order base caches = .ok (caches', base') ∧ Coherent base' caches' ∧ caches' ≠ [] ∧
      ∃ rest, contents base caches = content base caches :: rest ∧
        contents base' caches' = content base caches :: content base caches :: rest.tail := by
  cases caches with
  | nil => exact absurd rfl present
  | cons cache below =>
    cases below with
    | nil =>
      obtain ⟨caches', base', flushed, kept, nonempty, views⟩ := flush_onto_base base order cache coherent
      exact ⟨caches', base', flushed, kept, nonempty, _, rfl, views⟩
    | cons parent below =>
      obtain ⟨caches', flushed, kept, nonempty, views⟩ := flush_onto_cache base order coherent
      exact ⟨caches', base, flushed, kept, nonempty, _, rfl, views⟩

end Stack

end Dragonchain.Coins
