import Dragonchain.BitStream
import Dragonchain.Primitives

/-!
ConvertBits of utilstrencodings.h: bytes that hold groups of `frombits` bits are written
out again in groups of `tobits` bits. Both loops only move a stream of bits along, so
their effect is stated on the stream. Groups of at most eight bits are the ones that the
output type holds.
-/

namespace Dragonchain

open BitStream List

variable {width tobits frombits i shift acc rounds : Nat} {second it out : Bytes}

/-- The inner loop: the complete groups of the accumulator, and how many bits are left.
Every round takes `tobits` bits, so `bits` rounds are enough. -/
def takeGroups (tobits acc : Nat) : Nat → Nat → Bytes × Nat
  | 0, bits => ([], bits)
  | rounds + 1, bits =>
    if bits ≥ tobits then
      let bits := bits - tobits
      let result := takeGroups tobits acc rounds bits
      (UInt8.ofNat ((acc >>> bits) &&& (2 ^ tobits - 1)) :: result.1, result.2)
    else ([], bits)

def regroup (frombits tobits : Nat) : Bytes → Nat → Nat → Bytes × Nat × Nat
  | [], acc, bits => ([], acc, bits)
  | value :: it, acc, bits =>
    let acc := ((acc <<< frombits) ||| value.toNat) &&& (2 ^ (frombits + tobits - 1) - 1)
    let groups := takeGroups tobits acc (bits + frombits) (bits + frombits)
    let result := regroup frombits tobits it acc groups.2
    (groups.1 ++ result.1, result.2)

/-- The verdict, and what has been written by then. -/
def convertBits (frombits tobits : Nat) (pad : Bool) (it : Bytes) : Bool × Bytes :=
  let (out, acc, bits) := regroup frombits tobits it 0 0
  let last := (acc <<< (tobits - bits)) &&& (2 ^ tobits - 1)
  if pad then (true, if bits ≠ 0 then out ++ [UInt8.ofNat last] else out)
  else if bits ≥ frombits ∨ last ≠ 0 then (false, out)
  else (true, out)

def groupBits (width : Nat) (groups : Bytes) : List Bool := groups.flatMap fun group => natBits width group.toNat

lemma length_groupBits (groups : Bytes) : (groupBits width groups).length = width * groups.length := by
  induction groups with
  | nil => rfl
  | cons group rest ih =>
    rw [groupBits, flatMap_cons, length_append, length_natBits, length_cons, Nat.mul_succ, add_comm]
    exact congrArg (· + width) ih

lemma groupBits_append (first second : Bytes) :
    groupBits width (first ++ second) = groupBits width first ++ groupBits width second :=
  flatMap_append

lemma groupBits_injective {first : Bytes} (firstFits : ∀ group ∈ first, group.toNat < 2 ^ width)
    (secondFits : ∀ group ∈ second, group.toNat < 2 ^ width) (length : first.length = second.length)
    (same : groupBits width first = groupBits width second) : first = second := by
  induction first generalizing second with
  | nil => exact (length_eq_zero_iff.mp length.symm).symm
  | cons group rest ih =>
    cases second with
    | nil => cases length
    | cons other tail =>
      obtain ⟨top, below⟩ := append_inj same (by simp)
      have head := natBits_injective (firstFits group mem_cons_self) (secondFits other mem_cons_self) top
      rw [UInt8.toNat_inj.mp head, ih (fun g member => firstFits g (mem_cons_of_mem _ member))
        (fun g member => secondFits g (mem_cons_of_mem _ member)) (Nat.succ.inj length) below]

lemma toNat_group (narrow : width ≤ 8) (value : Nat) :
    (UInt8.ofNat (value &&& (2 ^ width - 1))).toNat = value % 2 ^ width := by
  have fits : value % 2 ^ width < 256 := lt_of_lt_of_le (Nat.mod_lt _ (Nat.two_pow_pos width))
    (Nat.pow_le_pow_right (by decide) narrow)
  rw [Nat.and_two_pow_sub_one_eq_mod, UInt8.toNat_ofNat', Nat.mod_eq_of_lt fits]

lemma natBits_mod (value : Nat) : natBits width (value % 2 ^ width) = natBits width value :=
  natBits_congr fun i below => by simp [Nat.testBit_mod_two_pow, below]

lemma natBits_zero (width : Nat) : natBits width 0 = replicate width false := by
  induction width with
  | zero => rfl
  | succ width ih => rw [natBits, ih, Nat.zero_testBit, replicate_succ]

lemma testBit_shiftLeft_low {value : Nat} (low : i < shift) : (value <<< shift).testBit i = Nat.testBit 0 i := by
  rw [Nat.testBit_shiftLeft, decide_eq_false (Nat.not_le_of_lt low), Bool.false_and, Nat.zero_testBit]

lemma takeGroups_spec (positive : 0 < tobits) (narrow : tobits ≤ 8) {bits : Nat} (enough : bits ≤ rounds) :
    let result := takeGroups tobits acc rounds bits
    groupBits tobits result.1 ++ natBits result.2 acc = natBits bits acc ∧ result.2 < tobits ∧
      ∀ group ∈ result.1, group.toNat < 2 ^ tobits := by
  induction rounds generalizing bits with
  | zero =>
    obtain rfl := Nat.le_zero.mp enough
    exact ⟨rfl, positive, by simp [takeGroups]⟩
  | succ rounds ih =>
    rw [takeGroups]
    split_ifs with full
    · have fewer : bits - tobits ≤ rounds := by omega
      obtain ⟨stream, left, fits⟩ := ih fewer
      have value := toNat_group narrow (acc >>> (bits - tobits))
      refine ⟨?_, left, forall_mem_cons.mpr ⟨?_, fits⟩⟩
      · have window := natBits_add tobits (bits - tobits) acc
        rw [Nat.add_sub_cancel' full] at window
        rw [window, ← stream, ← append_assoc, ← natBits_mod (acc >>> (bits - tobits)), ← value]
        rfl
      · rw [value]
        exact Nat.mod_lt _ (Nat.two_pow_pos tobits)
    · exact ⟨rfl, by omega, by simp⟩

lemma natBits_acc (acc : Nat) {value bits : Nat} (left : bits < tobits) (fits : value < 2 ^ frombits) :
    natBits (bits + frombits) (((acc <<< frombits) ||| value) &&& (2 ^ (frombits + tobits - 1) - 1)) =
      natBits bits acc ++ natBits frombits value := by
  rw [natBits_add]
  congr 1
  · refine natBits_congr fun i below => ?_
    have high : value.testBit (frombits + i) = false := Nat.testBit_lt_two_pow
      (lt_of_lt_of_le fits (Nat.pow_le_pow_right (by decide) (Nat.le_add_right _ _)))
    have kept : frombits + i < frombits + tobits - 1 := by omega
    simp [Nat.testBit_shiftRight, Nat.testBit_shiftLeft, high, kept]
  · refine natBits_congr fun i below => ?_
    have low : ¬ frombits ≤ i := by omega
    have kept : i < frombits + tobits - 1 := by omega
    simp [Nat.testBit_shiftLeft, low, kept]

lemma regroup_spec (narrow : tobits ≤ 8)
    (fits : ∀ value ∈ it, value.toNat < 2 ^ frombits) (acc : Nat) {bits : Nat} (left : bits < tobits) :
    let result := regroup frombits tobits it acc bits
    groupBits tobits result.1 ++ natBits result.2.2 result.2.1 = natBits bits acc ++ groupBits frombits it ∧
      result.2.2 < tobits ∧ ∀ group ∈ result.1, group.toNat < 2 ^ tobits := by
  induction it generalizing acc bits with
  | nil => exact ⟨(append_nil _).symm, left, by simp [regroup]⟩
  | cons value it ih =>
    have entered := natBits_acc acc left (fits value mem_cons_self)
    rw [regroup]
    generalize ((acc <<< frombits) ||| value.toNat) &&& (2 ^ (frombits + tobits - 1) - 1) = acc at entered ⊢
    obtain ⟨stream, short, small⟩ := takeGroups_spec (by omega) narrow (le_refl (bits + frombits))
    obtain ⟨onward, last, rest⟩ := ih (fun other member => fits other (mem_cons_of_mem _ member)) acc short
    refine ⟨?_, last, ?_⟩
    · dsimp only at onward ⊢
      rw [groupBits_append, append_assoc, onward, ← append_assoc, stream, entered, append_assoc]
      rfl
    · intro group member
      exact (mem_append.mp member).elim (small group) (rest group)

/-- Padding ends the stream with fewer than `tobits` zeros. -/
lemma convertBits_pad (positive : 0 < tobits) (narrow : tobits ≤ 8)
    (fits : ∀ value ∈ it, value.toNat < 2 ^ frombits) :
    ∃ out zeros, convertBits frombits tobits true it = (true, out) ∧ zeros < tobits ∧
      groupBits tobits out = groupBits frombits it ++ replicate zeros false ∧
      ∀ group ∈ out, group.toNat < 2 ^ tobits := by
  obtain ⟨stream, left, small⟩ := regroup_spec narrow fits 0 positive
  rw [convertBits]
  generalize regroup frombits tobits it 0 0 = result at stream left small
  obtain ⟨out, acc, bits⟩ := result
  rw [natBits, nil_append] at stream
  by_cases none : bits = 0
  · subst none
    refine ⟨out, 0, rfl, positive, ?_, small⟩
    rw [← stream, natBits, append_nil, replicate_zero, append_nil]
  · have value := toNat_group narrow (acc <<< (tobits - bits))
    have window : natBits tobits (acc <<< (tobits - bits) % 2 ^ tobits) =
        natBits bits acc ++ replicate (tobits - bits) false := by
      have parts := natBits_add bits (tobits - bits) (acc <<< (tobits - bits))
      rw [Nat.add_sub_cancel' (le_of_lt left)] at parts
      rw [natBits_mod, parts, Nat.shiftLeft_shiftRight, ← natBits_zero]
      congr 1
      exact natBits_congr fun i below => testBit_shiftLeft_low below
    refine ⟨_, tobits - bits, congrArg (Prod.mk true) (if_pos none), by omega, ?_, ?_⟩
    · rw [groupBits_append, ← stream, append_assoc, ← window, ← value]
      exact congrArg (groupBits tobits out ++ ·) (append_nil _)
    · refine forall_mem_append.mpr ⟨small, forall_mem_singleton.mpr ?_⟩
      rw [value]
      exact Nat.mod_lt _ (Nat.two_pow_pos tobits)

/-- A stream of whole groups that ends in fewer zeros than an input group has is read. -/
lemma convertBits_read (narrow : tobits ≤ 8) {zeros : Nat} (fits : ∀ value ∈ it, value.toNat < 2 ^ frombits)
    (short : zeros < frombits) (wider : frombits ≤ tobits) (outFits : ∀ group ∈ out, group.toNat < 2 ^ tobits)
    (padded : groupBits frombits it = groupBits tobits out ++ replicate zeros false) :
    convertBits frombits tobits false it = (true, out) := by
  obtain ⟨stream, left, small⟩ := regroup_spec narrow fits 0 (by omega : 0 < tobits)
  rw [convertBits]
  generalize regroup frombits tobits it 0 0 = result at stream left small
  obtain ⟨read, acc, bits⟩ := result
  dsimp only at stream left small ⊢
  rw [natBits, nil_append, padded] at stream
  -- Both sides split into whole groups and a rest shorter than one, so the rests are equal.
  have total := congrArg List.length stream
  rw [length_append, length_append, length_groupBits, length_groupBits, length_natBits, length_replicate] at total
  have count : read.length = out.length := by
    have first := congrArg (· / tobits) total
    simpa [Nat.mul_add_div (by omega : tobits > 0), Nat.div_eq_of_lt left,
      Nat.div_eq_of_lt (lt_of_lt_of_le short wider)] using first
  obtain ⟨same, rest⟩ := append_inj stream (by rw [length_groupBits, length_groupBits, count])
  have bitsLeft : bits = zeros := by
    have length := congrArg List.length rest
    rwa [length_natBits, length_replicate] at length
  subst bitsLeft
  have clear : (acc <<< (tobits - bits)) &&& (2 ^ tobits - 1) = 0 := by
    apply Nat.eq_of_testBit_eq
    intro i
    rw [← natBits_zero] at rest
    rcases lt_or_ge i tobits with inside | outside
    · rcases lt_or_ge i (tobits - bits) with low | high
      · rw [Nat.testBit_and, testBit_shiftLeft_low low, Nat.zero_testBit, Bool.false_and]
      · have bit := testBit_of_natBits rest (i := i - (tobits - bits)) (by omega)
        simp [Nat.testBit_shiftLeft, high, bit]
    · simp [outside]
  have ends : ¬ (bits ≥ frombits ∨ (acc <<< (tobits - bits)) &&& (2 ^ tobits - 1) ≠ 0) := by
    rintro (many | set)
    · omega
    · exact set clear
  rw [if_neg Bool.false_ne_true, if_neg ends, groupBits_injective small outFits count same]

/-- Bytes written in smaller groups with padding are read back from them. -/
lemma convertBits_round_trip (positive : 0 < tobits) (narrower : tobits ≤ frombits) (narrow : frombits ≤ 8)
    (fits : ∀ value ∈ it, value.toNat < 2 ^ frombits) :
    ∃ out, convertBits frombits tobits true it = (true, out) ∧ (∀ group ∈ out, group.toNat < 2 ^ tobits) ∧
      tobits * out.length < frombits * it.length + tobits ∧
      convertBits tobits frombits false out = (true, it) := by
  obtain ⟨out, zeros, written, short, padded, small⟩ := convertBits_pad positive (le_trans narrower narrow) fits
  refine ⟨out, written, small, ?_, convertBits_read narrow small short narrower fits padded⟩
  have length := congrArg List.length padded
  rw [length_groupBits, length_append, length_groupBits, length_replicate] at length
  omega

end Dragonchain
