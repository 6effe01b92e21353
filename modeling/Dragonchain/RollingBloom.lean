import Dragonchain.Primitives

/-!
CRollingBloomFilter of bloom.cpp, for any function in the place of MurmurHash3. Data has an even number
of words and is listed in pairs: `data[p & ~1]` and `data[p | 1]` are the pair `p / 2`.
-/

namespace Dragonchain

open List Function

variable {nGeneration bit value : Nat}

abbrev BloomData := Nat → BitVec 64 × BitVec 64

/-- What does not change after a reset. -/
structure BloomSettings where
  nElements : Nat
  nHashFuncs : Nat
  dataSize : Nat
  nTweak : UInt32
  murmurHash3 : UInt32 → Bytes → UInt32

/-- The defaults are the values after a reset. -/
structure CRollingBloomFilter where
  nEntriesThisGeneration : Nat := 0
  nGeneration : Nat := 1
  data : BloomData := fun _ => (0, 0)

namespace CRollingBloomFilter
variable (settings : BloomSettings) (filter : CRollingBloomFilter) (vKey : Bytes)

/-- The sum wraps only for 2 ^ 32 - 1 elements, where the data is empty. -/
def nEntriesPerGeneration : Nat := (settings.nElements + 1) / 2

/-- The pair and the bit of each hash function. -/
def slots : List (Nat × Nat) := (range settings.nHashFuncs).map fun n =>
  let h := settings.murmurHash3 (UInt32.ofNat n * 0xFBA4C795 + settings.nTweak) vKey
  let pos := (h >>> 6).toNat % settings.dataSize
  (pos / 2, (h &&& 0x3F).toNat)

def setBit (word : BitVec 64) (bit value : Nat) : BitVec 64 :=
  (word &&& ~~~(1#64 <<< bit)) ||| (BitVec.ofNat 64 value <<< bit)

def setGeneration (nGeneration : Nat) (data : BloomData) (slot : Nat × Nat) : BloomData :=
  update data slot.1 (setBit (data slot.1).1 slot.2 (nGeneration % 2),
    setBit (data slot.1).2 slot.2 (nGeneration / 2))

/-- Wipes the entries that used this generation number. -/
def wipe (nGeneration : Nat) (data : BloomData) : BloomData := fun pair =>
  let nGenerationMask1 := 0 - BitVec.ofNat 64 (nGeneration % 2)
  let nGenerationMask2 := 0 - BitVec.ofNat 64 (nGeneration / 2)
  let (p1, p2) := data pair
  let mask := (p1 ^^^ nGenerationMask1) ||| (p2 ^^^ nGenerationMask2)
  (p1 &&& mask, p2 &&& mask)

def nextGeneration : CRollingBloomFilter :=
  let nGeneration := if filter.nGeneration + 1 = 4 then 1 else filter.nGeneration + 1
  ⟨0, nGeneration, wipe nGeneration filter.data⟩

def insert : CRollingBloomFilter :=
  let filter :=
    if filter.nEntriesThisGeneration = nEntriesPerGeneration settings then filter.nextGeneration else filter
  { filter with
    nEntriesThisGeneration := filter.nEntriesThisGeneration + 1
    data := (slots settings vKey).foldl (setGeneration filter.nGeneration) filter.data }

def contains : Bool :=
  (slots settings vKey).all fun (pair, bit) =>
    (((filter.data pair).1 ||| (filter.data pair).2) >>> bit) &&& 1#64 != 0

/-! The generation of a slot: 1, 2 or 3, or 0 where nothing is set. -/

def generationAt (data : BloomData) (slot : Nat × Nat) : Nat :=
  ((data slot.1).1.getLsbD slot.2).toNat + 2 * ((data slot.1).2.getLsbD slot.2).toNat

/-- A generation that is at most so many behind. -/
def Recent (nGeneration behind generation : Nat) : Prop :=
  0 < generation ∧ generation ≤ 3 ∧ (nGeneration + 3 - generation) % 3 ≤ behind

variable {settings filter vKey} {data : BloomData} {slot : Nat × Nat}

lemma slot_inside (member : slot ∈ slots settings vKey) : slot.2 < 64 := by
  obtain ⟨n, _, rfl⟩ := mem_map.mp member
  exact Nat.lt_of_le_of_lt (UInt32.toNat_and .. ▸ Nat.and_le_right) (by decide)

lemma getLsbD_setBit {word : BitVec 64} (inside : bit < 64) (small : value < 2) (i : Nat) :
    (setBit word bit value).getLsbD i = if i = bit then decide (value = 1) else word.getLsbD i := by
  obtain rfl | rfl : value = 0 ∨ value = 1 := by omega
  all_goals
    rcases Nat.lt_trichotomy i bit with below | rfl | above
    · simp [setBit, below, Nat.ne_of_lt below, Nat.lt_trans below inside]
    · simp [setBit, inside]
    · by_cases high : i < 64
      · simp [setBit, high, Nat.sub_eq_zero_iff_le, Nat.not_le.mpr above, Nat.ne_of_gt above]
      · simp [setBit, Nat.ne_of_gt above, BitVec.getLsbD_of_ge _ _ (Nat.le_of_not_lt high)]

lemma generationAt_set (few : nGeneration < 4) (inside : slot.2 < 64) (other : Nat × Nat) :
    generationAt (setGeneration nGeneration data slot) other =
      if other = slot then nGeneration else generationAt data other := by
  have bits : ∀ g < 4, (decide (g % 2 = 1)).toNat + 2 * (decide (g / 2 = 1)).toNat = g := by decide
  by_cases pair : other.1 = slot.1
  · simp only [generationAt, setGeneration, pair, update_self, Prod.ext_iff, true_and,
      getLsbD_setBit inside (Nat.mod_lt nGeneration Nat.two_pos),
      getLsbD_setBit inside (Nat.div_lt_of_lt_mul (n := 2) few)]
    split
    · exact bits _ few
    · rfl
  · simp [generationAt, setGeneration, pair, Prod.ext_iff]

lemma generationAt_wipe (first : 0 < nGeneration) (few : nGeneration < 4) (inside : slot.2 < 64) :
    generationAt (wipe nGeneration data) slot =
      if generationAt data slot = nGeneration then 0 else generationAt data slot := by
  have ones : (18446744073709551615#64)[slot.2] = true := BitVec.getElem_allOnes _ inside
  obtain rfl | rfl | rfl : nGeneration = 1 ∨ nGeneration = 2 ∨ nGeneration = 3 := by omega
  all_goals
    simp [generationAt, wipe, inside, ones]
    cases (data slot.1).1[slot.2] <;> cases (data slot.1).2[slot.2] <;> rfl

lemma contains_iff : filter.contains settings vKey = true ↔
    ∀ slot ∈ slots settings vKey, generationAt filter.data slot ≠ 0 := by
  rw [contains, all_eq_true]
  refine forall₂_congr fun slot member => ?_
  simp [generationAt, BitVec.and_one_eq_setWidth_ofBool_getLsbD]
  cases (filter.data slot.1).1.getLsbD slot.2 <;> cases (filter.data slot.1).2.getLsbD slot.2 <;> decide

/-- The slots of the key now have the generation, the others keep theirs. -/
lemma generationAt_foldl (few : nGeneration < 4) {places : List (Nat × Nat)}
    (inside : ∀ place ∈ places, place.2 < 64) (slot : Nat × Nat) :
    generationAt (places.foldl (setGeneration nGeneration) data) slot =
      if slot ∈ places then nGeneration else generationAt data slot := by
  induction places generalizing data with
  | nil => rfl
  | cons place places ih =>
    rw [foldl_cons, ih fun other member => inside other (mem_cons_of_mem _ member),
      generationAt_set few (inside place mem_cons_self)]
    by_cases later : slot ∈ places <;> simp [later]

/-- The keys are listed latest first: those of this generation, of the last two and of the last three. -/
structure Remembers (settings : BloomSettings) (filter : CRollingBloomFilter) (keys : List Bytes) : Prop where
  first : 0 < filter.nGeneration
  few : filter.nGeneration < 4
  entries : filter.nEntriesThisGeneration ≤ nEntriesPerGeneration settings
  recent : ∀ behind < 3, ∀ key ∈ keys.take (filter.nEntriesThisGeneration + behind * nEntriesPerGeneration settings),
    ∀ slot ∈ slots settings key, Recent filter.nGeneration behind (generationAt filter.data slot)

variable {keys : List Bytes}

lemma Remembers.nextGeneration (remembers : Remembers settings filter keys)
    (full : filter.nEntriesThisGeneration = nEntriesPerGeneration settings) :
    Remembers settings filter.nextGeneration keys := by
  obtain ⟨first, few, entries, recent⟩ := remembers
  have rotated : 0 < filter.nextGeneration.nGeneration ∧ filter.nextGeneration.nGeneration < 4 ∧
      filter.nextGeneration.nGeneration % 3 = (filter.nGeneration + 1) % 3 := by
    dsimp only [CRollingBloomFilter.nextGeneration]
    split <;> omega
  refine ⟨rotated.1, rotated.2.1, Nat.zero_le _, fun behind bound key member slot place => ?_⟩
  cases behind with
  | zero => simp [CRollingBloomFilter.nextGeneration] at member
  | succ behind =>
    -- what was at most one behind is not of the generation that is wiped
    have old := recent behind (by omega) key (by
      rwa [full, Nat.add_comm, ← Nat.succ_mul, ← Nat.zero_add (_ * _)]) slot place
    have near := old.2
    change Recent _ _ (generationAt (wipe filter.nextGeneration.nGeneration filter.data) slot)
    rw [generationAt_wipe rotated.1 rotated.2.1 (slot_inside place), if_neg (by omega)]
    exact ⟨old.1, old.2.1, by omega⟩

lemma Remembers.insert (remembers : Remembers settings filter keys) (some : 0 < nEntriesPerGeneration settings) :
    Remembers settings (filter.insert settings vKey) (vKey :: keys) := by
  obtain ⟨turned, remembers, room, same⟩ : ∃ turned, Remembers settings turned keys ∧
      turned.nEntriesThisGeneration < nEntriesPerGeneration settings ∧ turned =
        if filter.nEntriesThisGeneration = nEntriesPerGeneration settings then filter.nextGeneration
        else filter := by
    split
    case isTrue full => exact ⟨_, remembers.nextGeneration full, some, rfl⟩
    case isFalse room => exact ⟨_, remembers, Nat.lt_of_le_of_ne remembers.entries room, rfl⟩
  rw [CRollingBloomFilter.insert, ← same]
  refine ⟨remembers.first, remembers.few, room, fun behind bound key member slot place => ?_⟩
  dsimp only
  rw [generationAt_foldl remembers.few fun _ => slot_inside]
  split
  case isTrue => exact ⟨remembers.first, Nat.le_of_lt_succ remembers.few, by omega⟩
  case isFalse other =>
    rw [Nat.succ_add, take_succ_cons, mem_cons] at member
    rcases member with rfl | member
    · exact absurd place other
    · exact remembers.recent behind bound key member slot place

lemma Remembers.foldl (remembers : Remembers settings filter keys) (some : 0 < nEntriesPerGeneration settings)
    (last : List Bytes) :
    Remembers settings (last.foldl (CRollingBloomFilter.insert settings) filter) (last.reverse ++ keys) := by
  induction last generalizing filter keys with
  | nil => exact remembers
  | cons key last ih =>
    rw [reverse_cons, append_assoc]
    exact ih (remembers.insert some)

/-- The last inserted keys are all found, as many as the filter has elements. -/
theorem last_contained (settings : BloomSettings) (keys : List Bytes) :
    (keys.reverse.take settings.nElements).all ((keys.foldl (insert settings) {}).contains settings) = true := by
  refine all_eq_true.mpr fun key member => ?_
  have positive : settings.nElements ≠ 0 := by
    rintro none
    simp [none] at member
  have start : Remembers settings {} [] := ⟨by decide, by decide, Nat.zero_le _, by simp⟩
  have remembers := start.foldl (by grind [nEntriesPerGeneration]) keys
  refine contains_iff.mpr fun slot place => Nat.ne_of_gt (remembers.recent 2 (by decide) key ?_ slot place).1
  rw [append_nil]
  exact take_subset_take_left _ (by grind [nEntriesPerGeneration]) member

end CRollingBloomFilter

end Dragonchain
