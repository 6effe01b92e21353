import Mathlib.Data.Finset.Card
import Dragonchain.Median

/-!
AddTimeData of timedata.cpp, for any type of addresses. The sum of the two middle values and the negation
in abs64 wrap, where the source overflows.
-/

namespace Dragonchain

/-- The samples of CMedianFilter, oldest first, with the addresses they came from. -/
structure TimeData (Address : Type) where
  setKnown : Finset Address := ∅
  vValues : List Int64 := [0]
  nTimeOffset : Int64 := 0

namespace TimeData
variable {Address : Type} [DecidableEq Address]

def MAX_SAMPLES : Nat := 200

def abs64 (n : Int64) : Int64 := if n ≥ 0 then n else -n

variable (vValues : List Int64)

def input (value : Int64) : List Int64 :=
  (if vValues.length = MAX_SAMPLES then vValues.tail else vValues) ++ [value]

def median : Int64 :=
  let vSorted := vValues.insertionSort (· ≤ ·)
  let middle := vSorted.length / 2
  if vSorted.length % 2 = 1 then vSorted.getD middle 0
  else (vSorted.getD (middle - 1) 0 + vSorted.getD middle 0) / 2

def addTimeData (maxtimeadjustment : Int64) (data : TimeData Address) (sample : Address × Int64) :
    TimeData Address :=
  if data.setKnown.card = MAX_SAMPLES then data
  else if sample.1 ∈ data.setKnown then data
  else
    let vValues := input data.vValues sample.2
    { setKnown := insert sample.1 data.setKnown
      vValues
      nTimeOffset :=
        if vValues.length ≥ 5 ∧ vValues.length % 2 = 1 then
          -- only let other nodes change our time by so much
          if abs64 (median vValues) ≤ max 0 maxtimeadjustment then median vValues else 0
        else data.nTimeOffset }

def after (bound : Int64) (samples : List (Address × Int64)) : TimeData Address :=
  samples.foldl (addTimeData bound) {}

/-- The samples that AddTimeData does not ignore as long as there is room: the first of every
address. -/
def firstSamples (samples : List (Address × Int64)) : List (Address × Int64) :=
  samples.foldl (fun counted sample => if sample.1 ∈ counted.map Prod.fst then counted else counted ++ [sample]) []

variable (bound : Int64) (data : TimeData Address) (sample : Address × Int64)

/-- The median counts once there are five samples, and while their number is odd. -/
def Counts : Prop := data.vValues.length ≥ 5 ∧ data.vValues.length % 2 = 1

def Within : Prop := data.nTimeOffset.toInt.natAbs ≤ (max 0 bound).toInt

def Settled : Prop := data.Counts → data.nTimeOffset =
  if abs64 (median data.vValues) ≤ max 0 bound then median data.vValues else 0

lemma addTimeData_cases : addTimeData bound data sample = data ∨
    ∃ next : TimeData Address, addTimeData bound data sample = next ∧ next.Settled bound ∧
      (¬next.Counts → next.nTimeOffset = data.nTimeOffset) := by
  unfold addTimeData
  split_ifs with full known
  · exact .inl rfl
  · exact .inl rfl
  · exact .inr ⟨_, rfl, fun counts => if_pos counts, fun early => if_neg early⟩

lemma after_settled (samples : List (Address × Int64)) : (after bound samples).Settled bound := by
  refine List.foldlRecOn (motive := Settled bound) _ _ (by simp [Settled, Counts]) ?_
  intro data settled sample _
  obtain same | ⟨next, done, settled', _⟩ := addTimeData_cases bound data sample
  · rwa [same]
  · rwa [done]

variable {bound}

/-- The negation of the least value is that value, which is below every bound. -/
lemma clamped_le_iff (n : Int64) (nonneg : 0 ≤ bound.toInt) :
    (if abs64 n ≤ bound then n else 0).toInt.natAbs ≤ bound.toInt ↔ n ≠ Int64.minValue := by
  have high := bound.toInt_lt
  by_cases least : n = Int64.minValue
  · refine iff_of_false ?_ (not_not.mpr least)
    rw [least, if_pos (Int64.le_iff_toInt_le.mpr (le_trans (by decide) nonneg)), Int64.toInt_minValue]
    omega
  · refine iff_of_true ?_ least
    rw [← Int64.toInt_inj, Int64.toInt_minValue] at least
    have low := n.le_toInt
    have size := n.toInt_lt
    have negated : (-n).toInt = -n.toInt := by rw [Int64.toInt_neg, Int.bmod_eq_of_le] <;> omega
    have zero := Int64.toInt_zero
    simp only [abs64, Int64.le_iff_toInt_le, ge_iff_le]
    split_ifs <;> omega

lemma max_nonneg : 0 ≤ (max 0 bound).toInt := by
  rw [show max 0 bound = if 0 ≤ bound then bound else 0 from rfl]
  split_ifs with nonneg
  · exact Int64.le_iff_toInt_le.mp nonneg
  · exact le_rfl

/-- What the run has kept of the samples. Below 200 addresses the filter holds all of them, and
the 0 that it starts with. -/
structure Holds (data : TimeData Address) (counted : List (Address × Int64)) : Prop where
  card : data.setKnown.card = min counted.length MAX_SAMPLES
  known : counted.length < MAX_SAMPLES → ∀ address, address ∈ data.setKnown ↔ address ∈ counted.map Prod.fst
  values : counted.length < MAX_SAMPLES → data.vValues = 0 :: counted.map Prod.snd
  full : MAX_SAMPLES ≤ counted.length → data.vValues.length = MAX_SAMPLES

section Held
variable {data : TimeData Address} {counted : List (Address × Int64)}

omit [DecidableEq Address] in
lemma holds_of_full (card : data.setKnown.card = MAX_SAMPLES) (length : data.vValues.length = MAX_SAMPLES)
    (many : MAX_SAMPLES ≤ counted.length) : data.Holds counted where
  card := card.trans (Nat.min_eq_right many).symm
  known few := absurd few (Nat.not_lt.mpr many)
  values few := absurd few (Nat.not_lt.mpr many)
  full _ := length

variable (bound) in
lemma Holds.add (holds : data.Holds counted) (sample : Address × Int64) :
    (addTimeData bound data sample).Holds
      (if sample.1 ∈ counted.map Prod.fst then counted else counted ++ [sample]) := by
  obtain ⟨card, known, values, full⟩ := holds
  rcases Nat.lt_or_ge counted.length MAX_SAMPLES with few | many
  · rw [Nat.min_eq_left few.le] at card
    rw [addTimeData, if_neg (card.trans_ne few.ne)]
    by_cases seen : sample.1 ∈ counted.map Prod.fst
    · rw [if_pos ((known few _).mpr seen), if_pos seen]
      exact ⟨card.trans (Nat.min_eq_left few.le).symm, known, values, full⟩
    · rw [if_neg (mt (known few _).mp seen), if_neg seen]
      have size : (input data.vValues sample.2).length = min (counted.length + 2) MAX_SAMPLES := by
        rw [input, values few]
        split_ifs with whole
        all_goals
          simp only [List.length_cons, List.length_map, List.length_append, List.length_nil, List.tail_cons] at *
          omega
      refine ⟨?_, fun _ address => ?_, fun later => ?_, fun many => ?_⟩
      · rw [Finset.card_insert_of_notMem (mt (known few _).mp seen), card, List.length_append]
        exact (Nat.min_eq_left few).symm
      · simp [known few, or_comm]
      · rw [List.length_append, List.length_singleton] at later
        rw [input, values few, if_neg (by simp only [List.length_cons, List.length_map]; omega), List.map_append]
        rfl
      · rw [List.length_append, List.length_singleton] at many
        exact size.trans (by omega)
  · have whole := card.trans (Nat.min_eq_right many)
    rw [addTimeData, if_pos whole]
    split_ifs
    · exact holds_of_full whole (full many) many
    · exact holds_of_full whole (full many) (many.trans (by rw [List.length_append]; exact Nat.le_add_right ..))

variable (bound) in
lemma after_holds (samples : List (Address × Int64)) : (after bound samples).Holds (firstSamples samples) := by
  induction samples using List.reverseRecOn with
  | nil =>
    exact ⟨rfl, fun _ _ => iff_of_false (Finset.notMem_empty _) List.not_mem_nil, fun _ => rfl,
      fun many => absurd many (Nat.not_succ_le_zero _)⟩
  | append_singleton samples sample ih =>
    rw [after, firstSamples, List.foldl_append, List.foldl_append]
    exact ih.add bound sample

omit [DecidableEq Address] in
lemma Holds.counts_iff (holds : data.Holds counted) :
    data.Counts ↔ 4 ≤ counted.length ∧ counted.length < MAX_SAMPLES ∧ counted.length % 2 = 0 := by
  rcases Nat.lt_or_ge counted.length MAX_SAMPLES with few | many
  · rw [Counts, holds.values few, List.length_cons, List.length_map]
    omega
  · rw [Counts, holds.full many, MAX_SAMPLES] at *
    omega

end Held

/-- The order of Int64, for the lemmas on medians. -/
@[reducible] def int64Order : LinearOrder Int64 where
  le_refl := Int64.le_refl
  le_trans _ _ _ := Int64.le_trans
  le_antisymm _ _ := Int64.le_antisymm
  le_total := Int64.le_total
  lt_iff_le_not_ge _ _ := by
    simp only [Int64.le_iff_toInt_le, Int64.lt_iff_toInt_lt]
    omega
  toDecidableLE := inferInstance

lemma least_lt_iff (n : Int64) : Int64.minValue + 1 ≤ n ↔ n ≠ Int64.minValue := by
  have low := n.le_toInt
  rw [Int64.le_iff_toInt_le, ← Int64.toInt_inj.ne, show (Int64.minValue + 1).toInt = -2 ^ 63 + 1 by decide,
    Int64.toInt_minValue]
  omega

/-- The middle of an odd number of values is the least one when more than half of them are. -/
lemma median_ne_least {offsets : List Int64} (even : offsets.length % 2 = 0) :
    median (0 :: offsets) ≠ Int64.minValue ↔ 2 * offsets.count Int64.minValue ≤ offsets.length := by
  have odd : ((0 :: offsets).insertionSort (· ≤ ·)).length = offsets.length + 1 := List.length_insertionSort ..
  have counted : (0 :: offsets).countP (Int64.minValue + 1 ≤ ·) + offsets.count Int64.minValue =
      offsets.length + 1 := by
    have split := offsets.length_eq_countP_add_countP (· == Int64.minValue)
    simp only [beq_iff_eq, ← ne_eq, ← least_lt_iff] at split
    rw [List.countP_cons_of_pos (by decide), List.count, split]
    omega
  rw [median, odd, if_pos (by omega), ← least_lt_iff]
  have middle : (offsets.length + 1) / 2 < (0 :: offsets).length := by
    rw [List.length_cons]
    omega
  have below := @Median.le_getD_insertionSort Int64 int64Order _ _ middle (Int64.minValue + 1) 0
  refine below.trans ?_
  rw [List.length_cons]
  omega

/-- The offset stays within its bound exactly while at most half of the samples that count are
the least value. -/
theorem timeOffset_within_iff (bound : Int64) (samples : List (Address × Int64)) :
    (∀ count, (after bound (samples.take count)).Within bound) ↔
      ∀ count, let counted := firstSamples (samples.take count)
        4 ≤ counted.length → counted.length < MAX_SAMPLES → counted.length % 2 = 0 →
          2 * (counted.map Prod.snd).count Int64.minValue ≤ counted.length := by
  have sane : ∀ samples : List (Address × Int64), ((after bound samples).Counts →
      median (after bound samples).vValues ≠ Int64.minValue) ↔ (4 ≤ (firstSamples samples).length →
        (firstSamples samples).length < MAX_SAMPLES → (firstSamples samples).length % 2 = 0 →
        2 * ((firstSamples samples).map Prod.snd).count Int64.minValue ≤ (firstSamples samples).length) := by
    intro samples
    have holds := after_holds bound samples
    rw [holds.counts_iff, and_imp, and_imp]
    refine forall_congr' fun _ => forall_congr' fun few => forall_congr' fun even => ?_
    rw [holds.values few, median_ne_least, List.length_map]
    rwa [List.length_map]
  simp only [← sane]
  constructor
  · intro within count counts
    apply (clamped_le_iff _ max_nonneg).mp
    rw [← after_settled bound _ counts]
    exact within count
  · intro sane count
    induction count with
    | zero => exact max_nonneg
    | succ count ih =>
      have sane := sane (count + 1)
      rw [after] at ih
      rw [List.take_add_one, after, List.foldl_append] at sane ⊢
      generalize List.foldl (addTimeData bound) {} (samples.take count) = data at ih sane ⊢
      generalize samples[count]? = last at sane ⊢
      rcases last with _ | sample
      · exact ih
      · change (addTimeData bound data sample).Within bound
        change (addTimeData bound data sample).Counts → median (addTimeData bound data sample).vValues ≠ _ at sane
        obtain same | ⟨next, done, settled, early⟩ := addTimeData_cases bound data sample
        · rwa [same]
        · rw [done] at sane ⊢
          by_cases counts : next.Counts
          · rw [Within, settled counts]
            exact (clamped_le_iff _ max_nonneg).mpr (sane counts)
          · rw [Within, early counts]
            exact ih

/-- Four peers with the least offset. -/
theorem least_offset_taken : ¬ (after 70 [(1, Int64.minValue), (2, Int64.minValue), (3, Int64.minValue),
    (4, Int64.minValue)]).Within 70 := by
  unfold Within
  decide +kernel

end TimeData

end Dragonchain
