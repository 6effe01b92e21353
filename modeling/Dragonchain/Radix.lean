import Mathlib.Data.Nat.Digits.Lemmas
import Mathlib.Data.List.DropRight
import Mathlib.Tactic.LinearCombination

/-!
Conversion of numbers between bases in a buffer of fixed size. The buffer holds the
digits of the number read so far, least significant first; each further digit of the
input multiplies the number by the base of the input and adds the digit, carrying along
the digits in use. A carry left at the end of the buffer is an overflow: none occurs when
the buffer has room for every number of the input's length, and the digits left after the
leading zeros are then the digits of the number.
-/

namespace Dragonchain.Radix

open List Nat

variable {factor radix count room i digit start q p : Nat} {digits rest values : List Nat}

/-- The digits of a number, and how many of them are in use. -/
structure Buffer where
  digits : List Nat
  length : Nat

/-- One pass over the digits from position `i` on: the digits, the carry that is left and
the position where the pass stopped. -/
def scale (factor radix length : Nat) : List Nat → Nat → Nat → List Nat × Nat × Nat
  | [], carry, i => ([], carry, i)
  | digit :: rest, carry, i =>
    if carry ≠ 0 ∨ i < length then
      let carry := carry + factor * digit
      let result := scale factor radix length rest (carry / radix) (i + 1)
      (carry % radix :: result.1, result.2)
    else (digit :: rest, carry, i)

/-- Multiplies by `factor` and adds; `none` when a carry is left. -/
def Buffer.push (factor radix : Nat) (buffer : Buffer) (carry : Nat) : Option Buffer :=
  let result := scale factor radix buffer.length buffer.digits carry 0
  if result.2.1 = 0 then some ⟨result.1, result.2.2⟩ else none

def Buffer.pushAll (factor radix : Nat) : List Nat → Buffer → Option Buffer
  | [], buffer => some buffer
  | value :: rest, buffer => (buffer.push factor radix value).bind (pushAll factor radix rest)

def Buffer.empty (size : Nat) : Buffer := ⟨replicate size 0, 0⟩

/-- The digits in use, most significant first, without leading zeros. -/
def Buffer.significant (buffer : Buffer) : List Nat :=
  (buffer.digits.reverse.drop (buffer.digits.length - buffer.length)).dropWhile (· == 0)

/-- The number that digits, most significant first, append to a number. -/
def horner (factor : Nat) : Nat → List Nat → Nat := List.foldl fun value digit => factor * value + digit

/-- The buffer represents the number; every digit past its length is zero. -/
structure Buffer.Holds (radix size : Nat) (buffer : Buffer) (value : Nat) : Prop where
  size : buffer.digits.length = size
  digits : ∀ digit ∈ buffer.digits, digit < radix
  unused : ∀ digit ∈ buffer.digits.drop buffer.length, digit = 0
  value : Nat.ofDigits radix buffer.digits = value

variable {buffer : Buffer}

lemma ofDigits_zeros (zeros : ∀ digit ∈ digits, digit = 0) : Nat.ofDigits radix digits = 0 := by
  rw [eq_replicate_of_mem zeros, ofDigits_replicate_zero]

lemma unused_tail {length : Nat}
    (unused : ∀ d ∈ (digit :: rest).drop (length - i), d = 0) : ∀ d ∈ rest.drop (length - (i + 1)), d = 0 := by
  intro d member
  apply unused d
  rcases lt_or_ge i length with used | free
  · have next : length - i = length - (i + 1) + 1 := by omega
    rwa [next, drop_succ_cons]
  · rw [Nat.sub_eq_zero_of_le free]
    exact mem_cons_of_mem _ (mem_of_mem_drop member)

/-- The invariant of the pass: what it has written, with the carry one place above, is the
multiple of what was there. -/
lemma scale_spec (factor : Nat) (positive : 0 < radix) (length : Nat) (carry i : Nat)
    (small : ∀ digit ∈ digits, digit < radix) (unused : ∀ digit ∈ digits.drop (length - i), digit = 0) :
    let result := scale factor radix length digits carry i
    result.1.length = digits.length ∧ (∀ digit ∈ result.1, digit < radix) ∧ i ≤ result.2.2 ∧
      (∀ digit ∈ result.1.drop (result.2.2 - i), digit = 0) ∧
      Nat.ofDigits radix result.1 + radix ^ digits.length * result.2.1 =
        factor * Nat.ofDigits radix digits + carry := by
  induction digits generalizing carry i with
  | nil => simp [scale]
  | cons digit rest ih =>
    rw [scale]
    split
    · have smallRest : ∀ d ∈ rest, d < radix := fun d member => small d (mem_cons_of_mem _ member)
      obtain ⟨size, bounded, later, zeros, value⟩ :=
        ih ((carry + factor * digit) / radix) (i + 1) smallRest (unused_tail unused)
      refine ⟨congrArg (· + 1) size, ?_, le_of_lt later, ?_, ?_⟩
      · intro d member
        rcases mem_cons.mp member with rfl | inside
        · exact mod_lt _ positive
        · exact bounded d inside
      · intro d member
        obtain ⟨k, more⟩ := Nat.exists_eq_add_of_le later
        apply zeros d
        rw [more, Nat.add_sub_cancel_left]
        have place : i + 1 + k - i = k + 1 := by omega
        rwa [more, place, drop_succ_cons] at member
      · have parts := mod_add_div (carry + factor * digit) radix
        rw [ofDigits_cons, ofDigits_cons, length_cons, pow_succ]
        linear_combination radix * value + parts
    -- The pass stops: no carry is left, and neither is a digit in use.
    · have ended : carry = 0 ∧ length ≤ i := by omega
      have free : ∀ d ∈ digit :: rest, d = 0 := by rwa [Nat.sub_eq_zero_of_le ended.2] at unused
      refine ⟨rfl, small, le_refl i, ?_, ?_⟩
      · intro d member
        exact free d (mem_of_mem_drop member)
      · simp [ofDigits_zeros free, ended.1]

namespace Buffer

lemma empty_holds (positive : 0 < radix) {size : Nat} : Holds radix size (empty size) 0 where
  size := length_replicate
  digits := by
    intro digit member
    rw [eq_of_mem_replicate member]
    exact positive
  unused := by
    intro digit member
    exact eq_of_mem_replicate (mem_of_mem_drop member)
  value := ofDigits_replicate_zero

variable {size value carry : Nat} {buffer : Buffer}

lemma Holds.lt (one : 1 < radix) (holds : Holds radix size buffer value) : value < radix ^ size := by
  rw [← holds.value, ← holds.size]
  exact ofDigits_lt_base_pow_length one holds.digits

variable (positive : 0 < radix) (holds : Holds radix size buffer value)
include positive holds

lemma Holds.of_push {next : Buffer}
    (pushed : buffer.push factor radix carry = some next) : Holds radix size next (factor * value + carry) := by
  obtain ⟨length, small, -, zeros, total⟩ := scale_spec factor positive buffer.length
    carry 0 holds.digits holds.unused
  rw [holds.size, holds.value] at total
  rw [Buffer.push] at pushed
  split_ifs at pushed with done
  cases pushed
  rw [done, mul_zero, add_zero] at total
  exact ⟨length.trans holds.size, small, zeros, total⟩

lemma Holds.push (fits : factor * value + carry < radix ^ size) :
    ∃ next, buffer.push factor radix carry = some next ∧ Holds radix size next (factor * value + carry) := by
  obtain ⟨-, -, -, -, total⟩ := scale_spec factor positive buffer.length carry 0 holds.digits holds.unused
  rw [holds.size, holds.value] at total
  -- A carry at the end would be worth a whole radix ^ size.
  have done : (scale factor radix buffer.length buffer.digits carry 0).2.1 = 0 := by
    by_contra left
    have whole := Nat.le_mul_of_pos_right (radix ^ size) (Nat.pos_of_ne_zero left)
    omega
  have pushed : buffer.push factor radix carry = some _ := if_pos done
  exact ⟨_, pushed, holds.of_push positive pushed⟩

end Buffer

/-! The number that an input stands for. -/

lemma horner_eq (start : Nat) (values : List Nat) : horner factor start values =
      start * factor ^ values.length + Nat.ofDigits factor values.reverse := by
  induction values generalizing start with
  | nil => simp [horner]
  | cons value rest ih =>
    change horner factor (factor * start + value) rest = _
    rw [ih, reverse_cons, ofDigits_append, ofDigits_singleton, length_reverse, length_cons, pow_succ]
    ring

variable {value size : Nat} {α : Type}

/-- A number lies between its leading digits, filled up with zeros, and their successor. -/
lemma horner_bounds (start : Nat) (one : 1 < factor) (small : ∀ value ∈ values, value < factor) :
    start * factor ^ values.length ≤ horner factor start values ∧
      horner factor start values < (start + 1) * factor ^ values.length := by
  have below := ofDigits_lt_base_pow_length one (fun value member => small value (mem_reverse.mp member))
  rw [length_reverse] at below
  rw [horner_eq, succ_mul]
  constructor
  · exact Nat.le_add_right _ _
  · exact Nat.add_lt_add_left below _

lemma le_horner (one : 1 < factor) (small : ∀ value ∈ values, value < factor)
    (head : values.head? ≠ some 0) (nonempty : values ≠ []) :
    factor ^ (values.length - 1) ≤ horner factor 0 values := by
  cases values with
  | nil => exact absurd rfl nonempty
  | cons value rest =>
    have positive : 0 < value := Nat.pos_of_ne_zero fun zero => head (congrArg some zero)
    have bounds := horner_bounds value one fun other member => small other (mem_cons_of_mem _ member)
    have start : horner factor 0 (value :: rest) = horner factor value rest := by
      rw [horner, foldl_cons, mul_zero, zero_add]
    rw [start]
    exact le_trans (Nat.le_mul_of_pos_left _ positive) bounds.1

/-- Room for a digit and the ones after it is room for the ones after it. -/
lemma push_room (digit : value < factor)
    (fits : (start + 1) * factor ^ (count + 1) ≤ room) : (factor * start + value + 1) * factor ^ count ≤ room :=
  calc (factor * start + value + 1) * factor ^ count
    _ ≤ factor * (start + 1) * factor ^ count := by
        rw [mul_succ]
        exact Nat.mul_le_mul_right _ (by omega)
    _ = (start + 1) * factor ^ (count + 1) := by ring
    _ ≤ room := fits

lemma push_fits (positive : 0 < factor) (digit : value < factor)
    (fits : (start + 1) * factor ^ (count + 1) ≤ room) : factor * start + value < room :=
  lt_of_succ_le <| le_trans (Nat.le_mul_of_pos_right _ (one_le_pow count _ positive)) (push_room digit fits)

lemma Buffer.Holds.pushAll (one : 1 < factor) (positive : 0 < radix) (holds : Holds radix size buffer start)
    (small : ∀ value ∈ values, value < factor) (fits : (start + 1) * factor ^ values.length ≤ radix ^ size) :
    ∃ last, buffer.pushAll factor radix values = some last ∧
      Holds radix size last (horner factor start values) := by
  induction values generalizing start buffer with
  | nil => exact ⟨buffer, rfl, holds⟩
  | cons value rest ih =>
    have digit := small value mem_cons_self
    obtain ⟨next, pushed, held⟩ := holds.push positive (push_fits (lt_of_succ_lt one) digit fits)
    obtain ⟨last, done, final⟩ := ih held
      (fun other member => small other (mem_cons_of_mem _ member)) (push_room digit fits)
    refine ⟨last, ?_, final⟩
    rw [Buffer.pushAll, pushed, Option.bind_some, done]

lemma Buffer.Holds.of_pushAll {buffer last : Buffer} (positive : 0 < radix)
    (holds : Holds radix size buffer start) (pushed : buffer.pushAll factor radix values = some last) :
    Holds radix size last (horner factor start values) := by
  induction values generalizing buffer start with
  | nil =>
    cases pushed
    exact holds
  | cons value rest ih =>
    obtain ⟨next, first, onward⟩ := Option.bind_eq_some_iff.mp pushed
    exact ih (holds.of_push positive first) onward

/-! The digits that are left. -/

def toRadix (radix value : Nat) : List Nat := (Nat.digits radix value).reverse

lemma ofDigits_rdropWhile (digits : List Nat) :
    Nat.ofDigits radix (digits.rdropWhile (· == 0)) = Nat.ofDigits radix digits := by
  induction digits using List.reverseRecOn with
  | nil => rfl
  | append_singleton rest digit ih =>
    by_cases zero : digit = 0
    · subst zero
      rw [rdropWhile_concat_pos _ _ _ rfl, ih, ofDigits_append, ofDigits_singleton, mul_zero, add_zero]
    · rw [rdropWhile_concat_neg _ _ _ (by simpa using zero)]

lemma dropWhile_drop {test : α → Bool} {list : List α} (passes : ∀ item ∈ list.take count, test item = true) :
    (list.drop count).dropWhile test = list.dropWhile test := by
  induction count generalizing list with
  | zero => rfl
  | succ count ih =>
    cases list with
    | nil => rfl
    | cons item rest =>
      rw [drop_succ_cons, dropWhile_cons_of_pos (passes item mem_cons_self)]
      exact ih fun other member => passes other (mem_cons_of_mem _ member)

lemma leading_run [BEq α] [LawfulBEq α] {value : α} {rest : List α} (head : rest.head? ≠ some value) (count : Nat) :
    (replicate count value ++ rest).takeWhile (· == value) = replicate count value ∧
      (replicate count value ++ rest).dropWhile (· == value) = rest := by
  induction count with
  | zero =>
    cases rest with
    | nil => exact ⟨rfl, rfl⟩
    | cons item rest =>
      have other : ¬ (item == value) = true := fun same => head (congrArg some (beq_iff_eq.mp same))
      exact ⟨takeWhile_cons_of_neg other, dropWhile_cons_of_neg other⟩
  | succ count ih => simp [replicate_succ, ih]

lemma exists_leading_run [BEq α] [LawfulBEq α] (value : α) (list : List α) :
    ∃ count rest, list = replicate count value ++ rest ∧ rest.head? ≠ some value := by
  induction list with
  | nil => exact ⟨0, [], rfl, by simp⟩
  | cons item list ih =>
    by_cases same : item = value
    · obtain ⟨count, rest, split, head⟩ := ih
      exact ⟨count + 1, rest, by rw [replicate_succ, cons_append, ← split, same], head⟩
    · exact ⟨0, item :: list, rfl, by simpa using same⟩

lemma Buffer.Holds.significant (one : 1 < radix)
    (holds : Holds radix size buffer value) : buffer.significant = toRadix radix value := by
  have unused : ∀ digit ∈ buffer.digits.reverse.take (buffer.digits.length - buffer.length),
      (digit == 0) = true := by
    intro digit member
    rw [take_reverse, mem_reverse] at member
    refine beq_iff_eq.mpr (holds.unused digit ?_)
    rcases Nat.le_total buffer.length buffer.digits.length with inside | beyond
    · rwa [Nat.sub_sub_self inside] at member
    · rw [Nat.sub_eq_zero_of_le beyond, Nat.sub_zero, drop_length] at member
      cases member
  have trimmed : Nat.digits radix value = buffer.digits.rdropWhile (· == 0) := by
    rw [← holds.value, ← ofDigits_rdropWhile]
    refine digits_ofDigits radix one _ ?_ ?_
    · intro digit member
      exact holds.digits digit ((List.rdropWhile_prefix _ _).subset member)
    · intro nonempty
      simpa using rdropWhile_last_not _ _ nonempty
  rw [Buffer.significant, dropWhile_drop unused, toRadix, trimmed, List.rdropWhile, reverse_reverse]

lemma pushAll_significant (one : 1 < factor) (two : 1 < radix) (small : ∀ value ∈ values, value < factor)
    (fits : factor ^ values.length ≤ radix ^ size) :
    ∃ last, (Buffer.empty size).pushAll factor radix values = some last ∧
      last.significant = toRadix radix (horner factor 0 values) := by
  obtain ⟨last, done, held⟩ := (Buffer.empty_holds (lt_of_succ_lt two)).pushAll one
    (lt_of_succ_lt two) small (by rwa [zero_add, one_mul])
  exact ⟨last, done, held.significant two⟩

lemma toRadix_lt (one : 1 < radix) : ∀ digit ∈ toRadix radix value, digit < radix :=
  fun _ member => digits_lt_base one (mem_reverse.mp member)

lemma head_toRadix : (toRadix radix value).head? ≠ some 0 := by
  intro zero
  rw [toRadix, head?_reverse] at zero
  have nonzero : value ≠ 0 := by
    rintro rfl
    simp at zero
  rw [getLast?_eq_some_getLast (digits_ne_nil_iff_ne_zero.mpr nonzero)] at zero
  exact getLast_digit_ne_zero radix nonzero (Option.some.inj zero)

lemma horner_toRadix (value : Nat) : horner radix 0 (toRadix radix value) = value := by
  rw [horner_eq, toRadix, reverse_reverse, ofDigits_digits, zero_mul, zero_add]

lemma toRadix_horner (one : 1 < radix) (small : ∀ value ∈ values, value < radix) (head : values.head? ≠ some 0) :
    toRadix radix (horner radix 0 values) = values := by
  rw [toRadix, horner_eq, zero_mul, zero_add, digits_ofDigits radix one, reverse_reverse]
  · intro value member
    exact small value (mem_reverse.mp member)
  · intro nonempty zero
    apply head
    rw [getLast_reverse] at zero
    rw [← zero, head?_eq_some_head]

/-- Room for the digits in proportion to their number, `p` for every `q` of them. -/
lemma capacity (positive : 0 < q) (period : factor ^ q ≤ radix ^ p)
    (below : ∀ r < q, factor ^ r ≤ radix ^ (r * p / q + 1)) (count : Nat) :
    factor ^ count ≤ radix ^ (count * p / q + 1) := by
  have parts := div_add_mod count q
  have room : count * p / q = count / q * p + count % q * p / q := by
    have whole : count * p = count % q * p + q * (count / q * p) := by
      conv_lhs => rw [← parts]
      ring
    rw [whole, add_mul_div_left _ _ positive, add_comm]
  calc factor ^ count
    _ = (factor ^ q) ^ (count / q) * factor ^ (count % q) := by rw [← pow_mul, ← pow_add, parts]
    _ ≤ (radix ^ p) ^ (count / q) * radix ^ (count % q * p / q + 1) :=
        Nat.mul_le_mul (Nat.pow_le_pow_left period _) (below _ (mod_lt _ positive))
    _ = radix ^ (count * p / q + 1) := by rw [← pow_mul, ← pow_add, room, mul_comm p, add_assoc]

end Dragonchain.Radix
