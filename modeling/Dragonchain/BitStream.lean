import Mathlib.Data.Nat.Bitwise
import Mathlib.Data.List.Basic

/-!
Bytes as streams of bits, the most significant bit of a byte first. A number is packed
into and read off a given number of bits; a stream whose length is a multiple of eight is
the stream of exactly one byte list.
-/

namespace Dragonchain.BitStream

open List Nat

variable {width first second i count : Nat}

/-- The low `width` bits of a number, most significant first. -/
def natBits : Nat → Nat → List Bool
  | 0, _ => []
  | width + 1, value => value.testBit width :: natBits width value

@[simp] lemma length_natBits (width value : Nat) : (natBits width value).length = width := by
  induction width with
  | zero => rfl
  | succ width ih => rw [natBits, length_cons, ih]

lemma natBits_congr (same : ∀ i < width, first.testBit i = second.testBit i) :
    natBits width first = natBits width second := by
  induction width with
  | zero => rfl
  | succ width ih =>
    rw [natBits, natBits, same width (lt_succ_self width), ih fun i below => same i (lt_succ_of_lt below)]

lemma testBit_of_natBits (same : natBits width first = natBits width second) (below : i < width) :
    first.testBit i = second.testBit i := by
  induction width with
  | zero => cases below
  | succ width ih =>
    obtain ⟨top, rest⟩ := List.cons.inj same
    rcases Nat.lt_succ_iff_lt_or_eq.mp below with lower | rfl
    · exact ih rest lower
    · exact top

lemma natBits_injective (firstFits : first < 2 ^ width)
    (secondFits : second < 2 ^ width) (same : natBits width first = natBits width second) : first = second := by
  apply eq_of_testBit_eq
  intro i
  rcases lt_or_ge i width with below | above
  · exact testBit_of_natBits same below
  · have power : 2 ^ width ≤ 2 ^ i := Nat.pow_le_pow_right (by decide) above
    rw [testBit_lt_two_pow (lt_of_lt_of_le firstFits power), testBit_lt_two_pow (lt_of_lt_of_le secondFits power)]

lemma natBits_add (high low value : Nat) :
    natBits (high + low) value = natBits high (value >>> low) ++ natBits low value := by
  induction high with
  | zero => rw [zero_add, natBits, nil_append]
  | succ high ih => rw [succ_add, natBits, natBits, ih, testBit_shiftRight, add_comm low high, cons_append]

def ofBits : List Bool → Nat
  | [] => 0
  | bit :: rest => bit.toNat * 2 ^ rest.length + ofBits rest

variable (stream : List Bool)

lemma ofBits_lt : ofBits stream < 2 ^ stream.length := by
  induction stream with
  | nil => decide
  | cons bit rest ih =>
    rw [ofBits, length_cons, pow_succ]
    cases bit with
    | false => simp only [Bool.toNat_false]; omega
    | true => simp only [Bool.toNat_true]; omega

lemma natBits_ofBits : natBits stream.length (ofBits stream) = stream := by
  induction stream with
  | nil => rfl
  | cons bit rest ih =>
    have lower := ofBits_lt rest
    have top : (ofBits (bit :: rest)).testBit rest.length = bit := by
      rw [ofBits, mul_comm, testBit_two_pow_mul_add _ lower, if_neg (lt_irrefl _), Nat.sub_self]
      cases bit <;> rfl
    have tail : natBits rest.length (ofBits (bit :: rest)) = natBits rest.length (ofBits rest) := by
      refine natBits_congr fun i below => ?_
      rw [ofBits, mul_comm, testBit_two_pow_mul_add _ lower, if_pos below]
    rw [length_cons, natBits, top, tail, ih]

lemma ofBits_natBits (width value : Nat) : ofBits (natBits width value) = value % 2 ^ width := by
  have low : natBits width value = natBits width (value % 2 ^ width) := by
    refine natBits_congr fun i below => ?_
    rw [testBit_mod_two_pow, decide_eq_true below, Bool.true_and]
  have bound := ofBits_lt (natBits width value)
  have packed := natBits_ofBits (natBits width value)
  rw [length_natBits] at bound packed
  exact natBits_injective bound (mod_lt value (Nat.two_pow_pos width)) (packed.trans low)

def bits (bytes : List UInt8) : List Bool := bytes.flatMap fun byte => natBits 8 byte.toNat

@[simp] lemma bits_nil : bits [] = [] := rfl

@[simp] lemma bits_cons (byte : UInt8) (rest : List UInt8) :
    bits (byte :: rest) = natBits 8 byte.toNat ++ bits rest := rfl

lemma length_bits {bytes : List UInt8} : (bits bytes).length = 8 * bytes.length := by
  induction bytes with
  | nil => rfl
  | cons byte rest ih =>
    rw [bits_cons, length_append, length_natBits, ih, length_cons]
    omega

lemma bits_injective {first second : List UInt8} (same : bits first = bits second) : first = second := by
  induction first generalizing second with
  | nil =>
    have length := congrArg List.length same
    rw [length_bits, length_bits] at length
    exact (length_eq_zero_iff.mp (by rw [length_nil] at length; omega)).symm
  | cons byte rest ih =>
    cases second with
    | nil =>
      have length := congrArg List.length same
      rw [length_bits, length_bits, length_cons, length_nil] at length
      omega
    | cons byte' rest' =>
      obtain ⟨head, tail⟩ := append_inj same (by simp)
      rw [UInt8.toNat_inj.mp (natBits_injective byte.toNat_lt byte'.toNat_lt head), ih tail]

lemma exists_bits {stream : List Bool} (whole : stream.length = 8 * count) :
    ∃ bytes : List UInt8, bits bytes = stream := by
  induction count generalizing stream with
  | zero => exact ⟨[], (length_eq_zero_iff.mp whole).symm⟩
  | succ count ih =>
    have short : (stream.drop 8).length = 8 * count := by
      rw [length_drop, whole]
      omega
    have first : (stream.take 8).length = 8 := by
      rw [length_take, whole]
      omega
    obtain ⟨rest, packed⟩ := ih short
    have bound := ofBits_lt (stream.take 8)
    have read := natBits_ofBits (stream.take 8)
    rw [first] at bound read
    refine ⟨UInt8.ofNat (ofBits (stream.take 8)) :: rest, ?_⟩
    rw [bits_cons, packed, UInt8.toNat_ofNat', mod_eq_of_lt bound, read, take_append_drop]

end Dragonchain.BitStream
