import Mathlib.Algebra.BigOperators.Intervals
import Mathlib.Algebra.Order.BigOperators.Group.Finset

/-!
Two facts about sums. A family of amounts is `Bounded` by what any finite part of it
adds up to, and moves with one of its members. A series that repeats each term of
another one `period` times is bounded by the period times the terms that are not zero.
-/

namespace Dragonchain.Sums

open Finset

variable {bound bound' : Int}

section Families
variable {ι : Type}

def Bounded (amount : ι → Nat) (bound : Int) : Prop :=
  ∀ part : Finset ι, ((∑ key ∈ part, amount key : Nat) : Int) ≤ bound

variable {amount amount' : ι → Nat} {key : ι}

lemma Bounded.mono (bounded : Bounded amount bound) (smaller : ∀ key, amount' key ≤ amount key)
    (wider : bound ≤ bound') : Bounded amount' bound' := by
  intro part
  have here := bounded part
  have less : ∑ key ∈ part, amount' key ≤ ∑ key ∈ part, amount key := sum_le_sum fun key _ => smaller key
  omega

lemma bounded_zero (empty : ∀ key, amount key = 0) : Bounded amount 0 := by
  intro part
  simp [empty]

variable [DecidableEq ι]

variable (bounded : Bounded amount bound) (others : ∀ other, other ≠ key → amount' other = amount other)
include bounded others

variable {more less : Nat}

/-- One member grows by at most `more`. -/
lemma Bounded.raise (grown : amount' key ≤ amount key + more) : Bounded amount' (bound + more) := by
  intro part
  have within := bounded part
  by_cases member : key ∈ part
  · rw [← add_sum_erase part amount member] at within
    rw [← add_sum_erase part amount' member]
    have rest : ∑ other ∈ part.erase key, amount' other = ∑ other ∈ part.erase key, amount other :=
      sum_congr rfl fun other differs => others other (ne_of_mem_erase differs)
    omega
  · have rest : ∑ other ∈ part, amount' other = ∑ other ∈ part, amount other :=
      sum_congr rfl fun other listed => others other fun same => member (same ▸ listed)
    omega

/-- One member shrinks by `less`, and with it every bound. -/
lemma Bounded.lower (shrunk : amount' key + less = amount key) : Bounded amount' (bound - less) := by
  intro part
  -- a part without the member is compared with the part that has it
  have within := bounded (insert key part)
  rw [← add_sum_erase _ amount (mem_insert_self key part), erase_insert_eq_erase] at within
  have rest : ∑ other ∈ part.erase key, amount' other = ∑ other ∈ part.erase key, amount other :=
    sum_congr rfl fun other differs => others other (ne_of_mem_erase differs)
  by_cases member : key ∈ part
  · rw [← add_sum_erase part amount' member]
    omega
  · rw [erase_eq_of_notMem member] at within rest
    omega

end Families

lemma sum_steps {term : Nat → Nat} {period count : Nat} (positive : 0 < period) :
    ∑ index ∈ range (period * count), term (index / period) = period * ∑ step ∈ range count, term step := by
  induction count with
  | zero => simp
  | succ count ih =>
    rw [Nat.mul_succ, sum_range_add, ih, sum_range_succ, mul_add]
    congr 1
    have inside : ∀ index ∈ range period, term ((period * count + index) / period) = term count := by
      intro index member
      rw [Nat.mul_add_div positive, Nat.div_eq_of_lt (mem_range.mp member), add_zero]
    rw [sum_const_nat inside, card_range]

lemma sum_steps_le (term : Nat → Nat) (period count length : Nat) (positive : 0 < period)
    (ends : ∀ step, count ≤ step → term step = 0) :
    ∑ index ∈ range length, term (index / period) ≤ period * ∑ step ∈ range count, term step := by
  rw [← sum_steps positive]
  rcases Nat.le_total length (period * count) with short | long
  · exact sum_le_sum_of_subset (range_mono short)
  · obtain ⟨more, rfl⟩ := Nat.exists_eq_add_of_le long
    rw [sum_range_add]
    have tail : ∀ index ∈ range more, term ((period * count + index) / period) = 0 := by
      intro index _
      rw [Nat.mul_add_div positive]
      exact ends _ (Nat.le_add_right _ _)
    rw [sum_eq_zero tail, add_zero]

end Dragonchain.Sums
