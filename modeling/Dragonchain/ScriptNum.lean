import Dragonchain.Script
import Mathlib.Data.Nat.Bitwise

/-!
CScriptNum as a number format: little-endian bytes of the absolute value, whose topmost bit is the sign.
-/

namespace Dragonchain.Script
open ByteCodec List

variable {vch init : Bytes} {back : UInt8} {n : Int}

lemma leValue_concat : leValue (init ++ [back]) = leValue init + 256 ^ init.length * back.toNat := by
  induction init with
  | nil => simp [leValue]
  | cons byte rest ih =>
    rw [cons_append, leValue, ih, leValue, length_cons]
    ring

lemma signBit_iff : (back &&& 0x80 != 0) = true ↔ 128 ≤ back.toNat := by
  have small := back.toNat_lt
  have bit := Nat.and_two_pow back.toNat 7
  rw [bne_iff_ne, Ne, ← UInt8.toNat_inj, UInt8.toNat_and, show (0x80 : UInt8).toNat = 2 ^ 7 from rfl, bit,
    Nat.testBit_eq_decide_div_mod_eq]
  by_cases high : back.toNat / 2 ^ 7 % 2 = 1 <;> simp <;> omega

lemma lowBits_iff : (back &&& 0x7f != 0) = true ↔ back.toNat % 128 ≠ 0 := by
  rw [bne_iff_ne, Ne, ← UInt8.toNat_inj, UInt8.toNat_and]
  exact not_congr (Nat.and_two_pow_sub_one_eq_mod back.toNat 7 ▸ Iff.rfl)

/-- The absolute value of a number whose last byte is back. -/
def magnitude (init : Bytes) (back : UInt8) : Nat := leValue init + 256 ^ init.length * (back.toNat % 128)

lemma leValue_magnitude : leValue (init ++ [back]) =
    magnitude init back + if 128 ≤ back.toNat then 0x80 * 256 ^ init.length else 0 := by
  have small := back.toNat_lt
  rw [leValue_concat, magnitude]
  split_ifs with sign
  · rw [show back.toNat = back.toNat % 128 + 128 by omega]
    simp
    ring
  · rw [Nat.mod_eq_of_lt (by omega), Nat.add_zero]

lemma setVch_concat : setVch (init ++ [back]) =
    if 128 ≤ back.toNat then -(magnitude init back : Int) else magnitude init back := by
  unfold setVch
  simp only [getLast?_concat, signBit_iff, leValue_magnitude, length_append, length_singleton, Nat.add_sub_cancel]
  split_ifs
  · push_cast
    ring
  · rfl

lemma isMinimalNum_concat : isMinimalNum (init ++ [back]) = true ↔
    back.toNat % 128 ≠ 0 ∨ ∃ front second, init = front ++ [second] ∧ 128 ≤ second.toNat := by
  unfold isMinimalNum
  simp only [getLast?_concat, Bool.or_eq_true, lowBits_iff, Bool.and_eq_true, signBit_iff]
  refine or_congr_right ?_
  rcases eq_nil_or_concat init with rfl | ⟨front, second, rfl⟩
  · simp
  · simp [concat_eq_append]

lemma magnitude_lt : magnitude init back < 128 * 256 ^ init.length := by
  have low := leValue_lt init
  have high : 256 ^ init.length * (back.toNat % 128) ≤ 256 ^ init.length * 127 := Nat.mul_le_mul_left _ (by omega)
  rw [magnitude]
  omega

lemma le_magnitude (minimal : isMinimalNum (init ++ [back]) = true) :
    256 ^ init.length ≤ 2 * magnitude init back := by
  rw [magnitude]
  rcases isMinimalNum_concat.mp minimal with used | ⟨front, second, rfl, high⟩
  · have whole : 256 ^ init.length * 1 ≤ 256 ^ init.length * (back.toNat % 128) := Nat.mul_le_mul_left _ (by omega)
    omega
  · have half : 256 ^ front.length * 128 ≤ 256 ^ front.length * second.toNat := Nat.mul_le_mul_left _ high
    rw [leValue_concat, length_append, length_singleton, pow_succ]
    omega

/-- A minimal number is shorter than every other vector of its value. -/
lemma isMinimalNum_shortest (minimal : isMinimalNum init = true) (same : setVch init = setVch vch) :
    init.length < vch.length ∨ init = vch := by
  rcases eq_nil_or_concat' vch with rfl | ⟨init', back', rfl⟩ <;>
    rcases eq_nil_or_concat' init with rfl | ⟨init, back, rfl⟩
  · exact .inr rfl
  · have least := le_magnitude minimal
    have positive : 0 < 256 ^ init.length := Nat.pow_pos (by decide)
    rw [setVch_concat, show setVch [] = 0 from rfl] at same
    split_ifs at same <;> omega
  · exact .inl (by simp)
  · have least := le_magnitude minimal
    have positive : 0 < 256 ^ init.length := Nat.pow_pos (by decide)
    have most : magnitude init' back' < _ := magnitude_lt
    rw [setVch_concat, setVch_concat] at same
    have equal : magnitude init back = magnitude init' back' ∧ (128 ≤ back.toNat ↔ 128 ≤ back'.toNat) := by
      split_ifs at same <;> omega
    have short : 256 ^ init.length < 256 ^ (init'.length + 1) := by rw [pow_succ]; omega
    simp only [length_append, length_singleton]
    rcases Nat.lt_or_eq_of_le (Nat.le_of_lt_succ ((Nat.pow_lt_pow_iff_right (by decide)).mp short)) with less | length
    · exact .inl (by omega)
    · refine .inr (leValue_injective (by simp [length]) ?_)
      rw [leValue_magnitude, leValue_magnitude, equal.1, length]
      simp only [equal.2]

lemma absBytes_spec {fuel absvalue : Nat} (fits : absvalue < 256 ^ fuel) :
    leValue (absBytes fuel absvalue) = absvalue ∧
      ∀ init back, absBytes fuel absvalue = init ++ [back] → back.toNat ≠ 0 := by
  induction fuel generalizing absvalue with
  | zero => simp_all [absBytes, leValue]
  | succ fuel ih =>
    have digit : (UInt8.ofNat absvalue).toNat = absvalue % 256 := UInt8.toNat_ofNat'
    have shorter : absvalue / 256 < 256 ^ fuel := by rw [pow_succ] at fits; omega
    obtain ⟨value, last⟩ := ih shorter
    unfold absBytes
    split_ifs with zero
    · simp [leValue, zero]
    · refine ⟨by rw [leValue, value, digit]; omega, fun init back shape => ?_⟩
      cases init with
      | cons byte rest => exact last rest back (cons.inj shape).2
      | nil =>
        obtain ⟨rfl, rest⟩ := cons.inj shape
        rw [rest, leValue] at value
        omega

/-- What serialize writes is minimal and decodes to the number. -/
lemma serializeNum_spec (fits : n.natAbs < 256 ^ 8) :
    setVch (serializeNum n) = n ∧ isMinimalNum (serializeNum n) = true := by
  obtain ⟨value, last⟩ := absBytes_spec fits
  unfold serializeNum
  rcases eq_nil_or_concat' (absBytes 8 n.natAbs) with empty | ⟨init, back, shape⟩
  · rw [empty, leValue] at value
    rw [empty, Int.natAbs_eq_zero.mp value.symm]
    exact ⟨rfl, rfl⟩
  · have used := last init back shape
    have small := back.toNat_lt
    rw [shape] at value
    simp only [shape, getLast?_concat, signBit_iff, dropLast_concat]
    by_cases sign : 128 ≤ back.toNat
    · -- a byte of its own holds the sign
      have whole {last : UInt8} (none : last.toNat % 128 = 0) : magnitude (init ++ [back]) last = n.natAbs := by
        rw [magnitude, none, Nat.mul_zero, Nat.add_zero, value]
      rw [if_pos sign]
      refine ⟨?_, isMinimalNum_concat.mpr (.inr ⟨init, back, rfl, sign⟩)⟩
      split_ifs
      · rw [setVch_concat, whole rfl, if_pos (by decide)]
        omega
      · rw [setVch_concat, whole rfl, if_neg (by decide)]
        omega
    · rw [leValue_magnitude, if_neg sign, Nat.add_zero] at value
      have flipped : (back ||| 0x80).toNat = 128 + back.toNat := by
        rw [UInt8.toNat_or, Nat.or_comm]
        exact (Nat.two_pow_add_eq_or_of_lt (i := 7) (by omega) 1).symm
      rw [if_neg sign]
      split_ifs with negative
      · have same : magnitude init (back ||| 0x80) = n.natAbs := by
          rw [← value, magnitude, magnitude, flipped, Nat.add_mod_left]
        refine ⟨?_, isMinimalNum_concat.mpr (.inl (by omega))⟩
        rw [setVch_concat, if_pos (by omega), same]
        omega
      · refine ⟨?_, isMinimalNum_concat.mpr (.inl (by omega))⟩
        rw [setVch_concat, if_neg sign, value]
        omega

lemma setVch_natAbs_lt (short : vch.length ≤ 8) : (setVch vch).natAbs < 2 ^ 63 := by
  rcases eq_nil_or_concat' vch with rfl | ⟨init, back, rfl⟩
  · decide
  · have bound : magnitude init back < _ := magnitude_lt
    have few : 256 ^ init.length ≤ 256 ^ 7 := Nat.pow_le_pow_right (by decide) (by simp at short; omega)
    rw [setVch_concat]
    split_ifs <;> omega

/-- The numbers of 64 bits other than the least have one encoding of at most eight bytes that the
constructor accepts, which is their shortest. -/
theorem serializeNum_canonical :
    (∀ n : Int64, n ≠ Int64.minValue → setVch (serializeNum n.toInt) = n.toInt ∧
      ∀ vch, setVch vch = n.toInt → (serializeNum n.toInt).length < vch.length ∨ serializeNum n.toInt = vch) ∧
    ∀ nMaxNumSize ≤ 8, ∀ vch : Bytes, vch.length ≤ nMaxNumSize → ∃ n : Int64, n ≠ Int64.minValue ∧
      setVch vch = n.toInt ∧ (scriptNum vch true nMaxNumSize = .ok n.toInt ↔ vch = serializeNum n.toInt) := by
  refine ⟨fun n _ => ?_, fun nMaxNumSize few vch short => ?_⟩
  · have low := n.le_toInt
    have high := n.toInt_lt
    obtain ⟨value, minimal⟩ := serializeNum_spec (n := n.toInt) (by omega)
    exact ⟨value, fun vch same => isMinimalNum_shortest minimal (value.trans same.symm)⟩
  · have bound := setVch_natAbs_lt (short.trans few)
    obtain ⟨value, minimal⟩ := serializeNum_spec (n := setVch vch) (by omega)
    have held : (Int64.ofInt (setVch vch)).toInt = setVch vch := Int64.toInt_ofInt_of_le (by omega) (by omega)
    refine ⟨.ofInt (setVch vch), fun least => ?_, held.symm, ?_⟩
    · rw [least] at held
      rw [← held] at bound
      exact absurd bound (by decide)
    · rw [held, scriptNum, if_neg (by omega)]
      constructor
      · intro accepted
        have own : isMinimalNum vch = true := by
          by_contra padded
          simp [padded] at accepted
        rcases isMinimalNum_shortest minimal value with less | same
        · rcases isMinimalNum_shortest own value.symm with less' | same
          · omega
          · exact same
        · exact same.symm
      · intro same
        rw [← same] at minimal
        simp [minimal]

/-- Nine bytes that the constructor accepts when it is given that size, and that no number has. -/
theorem nine_bytes_accepted : (∃ value, scriptNum [0, 0, 0, 0, 0, 0, 0, 0, 1] true 9 = .ok value) ∧
    ¬∃ n : Int64, serializeNum n.toInt = [0, 0, 0, 0, 0, 0, 0, 0, 1] := by
  refine ⟨⟨_, rfl⟩, ?_⟩
  rintro ⟨n, same⟩
  have low := n.le_toInt
  have high := n.toInt_lt
  have value := (serializeNum_spec (n := n.toInt) (by omega)).1
  rw [same, show setVch [0, 0, 0, 0, 0, 0, 0, 0, 1] = 2 ^ 64 from rfl] at value
  omega

end Dragonchain.Script
