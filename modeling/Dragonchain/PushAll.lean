import Mathlib.Tactic.IntervalCases
import Dragonchain.ScriptRuns
import Dragonchain.Signing

/-!
PushAll against EvalScript. PushAll writes the empty value as OP_0 and the bytes 1 to 16 as
OP_1 to OP_16, as CheckMinimalPush wants them; it has no case for the byte 0x81, which
CheckMinimalPush wants as OP_1NEGATE.
-/

namespace Dragonchain.Script

open Outcome List

variable {crypto : Crypto} {flags : ScriptFlags} {checker : BaseSignatureChecker}
  {sigversion : SigVersion} {n : Nat} {v : Bytes} {values : List Bytes}

lemma smallInteger_spec (positive : 1 ≤ n) (small : n ≤ 16) :
    decode (encodeOP_N n) = .number n ∧ encodeOP_N n ≤ OP_16 ∧ ¬ encodeOP_N n ≤ OP_PUSHDATA4 ∧
      serializeNum n = [UInt8.ofNat n] ∧
      toScriptNum [UInt8.ofNat n] (STANDARD_SCRIPT_VERIFY_FLAGS .MINIMALDATA) = .ok (n : Int) := by
  interval_cases n <;> exact ⟨rfl, by decide, by decide, by decide, rfl⟩

lemma evalStep_smallInteger (positive : 1 ≤ n) (small : n ≤ 16) (script : Bytes) (stack : Stack)
    (nOpCount : Int) (pc : Bytes) (final : EvalState) :
    evalStep crypto flags checker sigversion (running script stack nOpCount) (encodeOP_N n) [] pc = .ok final ↔
      stack.length + 1 ≤ MAX_STACK_SIZE ∧ running script ([UInt8.ofNat n] :: stack) nOpCount = final := by
  obtain ⟨decoded, low, high, bytes, _⟩ := smallInteger_spec positive small
  have nonneg : ¬ (n : Int) < 0 := by omega
  have executed : execOpcode crypto flags checker sigversion true pc
      (running script stack nOpCount) (decode (encodeOP_N n)) =
        .ok (running script ([UInt8.ofNat n] :: stack) nOpCount) := by
    rw [decoded, execOpcode, getvch, if_neg nonneg, bytes]
    rfl
  have ran : runOpcode crypto flags checker sigversion true (running script stack nOpCount)
      (encodeOP_N n) [] pc = .ok (running script ([UInt8.ofNat n] :: stack) nOpCount) := by
    rw [runOpcode, decide_eq_false high]
    exact executed
  rw [evalStep, bind_eq_ok]
  simp only [checkOpcode_push low]
  constructor
  · rintro ⟨_, ⟨_, rfl⟩, done⟩
    obtain ⟨next, stepped, done⟩ := bind_eq_ok.mp done
    cases ran.symm.trans stepped
    obtain ⟨room, done⟩ := require_bind_eq_ok.mp done
    exact ⟨of_decide_eq_true room, (pure_eq_ok ..).mp done⟩
  · rintro ⟨room, rfl⟩
    refine ⟨_, ⟨Nat.zero_le _, rfl⟩, bind_eq_ok.mpr ⟨_, ran, require_bind_eq_ok.mpr ?_⟩⟩
    exact ⟨decide_eq_true room, rfl⟩

lemma pushAll_cons (single : v.length ≠ 1) : pushAll (v :: values) = pushData v ++ pushAll values := by
  cases v with
  | nil => rfl
  | cons _ _ => simp [pushAll, length_cons] at single ⊢; simp [single]

/-- How PushAll writes its first value: one of OP_1 to OP_16, or a push. -/
lemma pushAll_cases (v : Bytes) (values : List Bytes) : (∃ n, 1 ≤ n ∧ n ≤ 16 ∧ v = [UInt8.ofNat n] ∧
      pushAll (v :: values) = encodeOP_N n :: pushAll values) ∨
    pushAll (v :: values) = pushData v ++ pushAll values ∧
      (checkMinimalPush v (pushOpcode v.length) = true ↔ v ≠ [0x81]) := by
  by_cases single : v.length = 1
  · obtain ⟨byte, rfl⟩ := length_eq_one_iff.mp single
    by_cases small : 1 ≤ byte ∧ byte ≤ 16
    · refine .inl ⟨byte.toNat, UInt8.le_iff_toNat_le.mp small.1, UInt8.le_iff_toNat_le.mp small.2, ?_, ?_⟩
      · rw [UInt8.ofNat_toNat]
      · simp [pushAll, small]
    · refine .inr ⟨by simp [pushAll, small], ?_⟩
      have direct : checkMinimalPush [byte] (pushOpcode 1) =
          if byte = 0x81 then pushOpcode 1 == OP_1NEGATE else (pushOpcode 1).toNat == 1 := by
        simp [checkMinimalPush, small]
      rw [length_singleton, direct, ne_eq, singleton_inj]
      split_ifs with minusOne
      · exact iff_of_false (by decide) (not_not.mpr minusOne)
      · exact iff_of_true (by decide) minusOne
  · refine .inr ⟨pushAll_cons single, iff_of_true (checkMinimalPush_pushOpcode single) ?_⟩
    rintro rfl
    exact single rfl

lemma length_le_pushAll (member : v ∈ values) : v.length ≤ (pushAll values).length := by
  induction values with
  | nil => cases member
  | cons first values ih =>
    have here : first.length + (pushAll values).length ≤ (pushAll (first :: values)).length := by
      rcases pushAll_cases first values with ⟨n, _, _, rfl, shape⟩ | ⟨shape, _⟩
      · rw [shape, length_singleton, length_cons, Nat.add_comm]
      · obtain ⟨size, pushed⟩ := pushData_cons first
        rw [shape, pushed, length_append, length_append, length_cons]
        omega
    cases mem_cons.mp member with
    | inl same =>
      rw [same]
      omega
    | inr later =>
      have := ih later
      omega

lemma length_pushAll_le (values : List Bytes) :
    (pushAll values).length ≤ (values.map fun v => v.length + 5).sum := by
  induction values with
  | nil => exact Nat.zero_le _
  | cons v values ih =>
    rw [map_cons, sum_cons]
    rcases pushAll_cases v values with ⟨n, _, _, rfl, shape⟩ | ⟨shape, _⟩
    · rw [shape, length_cons, length_singleton]
      omega
    · have here := length_pushData_le v
      rw [shape, length_append]
      omega

lemma isPushOnly_pushAll (fits : ∀ v ∈ values, v.length < 256 ^ 4) : isPushOnly (pushAll values) = true := by
  induction values with
  | nil => rfl
  | cons v values ih =>
    obtain ⟨fit, later⟩ := forall_mem_cons.mp fits
    rcases pushAll_cases v values with ⟨n, positive, small, _, shape⟩ | ⟨shape, _⟩
    · obtain ⟨_, low, high, _⟩ := smallInteger_spec positive small
      rw [shape, isPushOnly_next (getOp_plain _ high), decide_eq_true low, Bool.true_and]
      exact ih later
    · have push : pushOpcode v.length ≤ OP_16 := UInt8.le_of_lt
        (UInt8.lt_of_lt_of_le (pushOpcode_lt v.length) (show OP_1NEGATE ≤ OP_16 by decide))
      rw [shape, isPushOnly_next (getOp_pushData v _ fit), decide_eq_true push, Bool.true_and]
      exact ih later

lemma evalFrom_value (fits : v.length < 256 ^ 4) (script : Bytes) (stack : Stack) (final : EvalState) :
    evalFrom crypto flags checker sigversion (pushAll (v :: values)) (running script stack 0) = .ok final ↔
      v.length ≤ MAX_SCRIPT_ELEMENT_SIZE ∧ (flags .MINIMALDATA = true → v ≠ [0x81]) ∧
      stack.length + 1 ≤ MAX_STACK_SIZE ∧
      evalFrom crypto flags checker sigversion (pushAll values) (running script (v :: stack) 0) = .ok final := by
  rcases pushAll_cases v values with ⟨n, positive, small, rfl, shape⟩ | ⟨shape, minimal⟩
  · have other : [UInt8.ofNat n] ≠ [0x81] := by interval_cases n <;> decide
    simp only [shape, evalFrom_next (getOp_plain _ (smallInteger_spec positive small).2.2.1),
      evalStep_smallInteger positive small, other, ne_eq, not_false_iff, implies_true, true_and,
      and_assoc, exists_and_left, exists_eq_left']
    exact (and_iff_right (show 1 ≤ 2048 by decide)).symm
  · rw [shape, evalFrom_push fits, minimal]

lemma evalFrom_pushAll (script : Bytes) (fits : ∀ v ∈ values, v.length < 256 ^ 4) (stack : Stack)
    (room : stack.length ≤ MAX_STACK_SIZE) (final : EvalState) :
    evalFrom crypto flags checker sigversion (pushAll values) (running script stack 0) = .ok final ↔
      (∀ v ∈ values, v.length ≤ MAX_SCRIPT_ELEMENT_SIZE) ∧
        (flags .MINIMALDATA = true → [0x81] ∉ values) ∧ stack.length + values.length ≤ MAX_STACK_SIZE ∧
        running script (values.reverse ++ stack) 0 = final := by
  induction values generalizing stack with
  | nil => simpa [pushAll, evalFrom_nil] using fun _ => room
  | cons v values ih =>
    obtain ⟨fit, fits⟩ := forall_mem_cons.mp fits
    rw [evalFrom_value fit, forall_mem_cons, mem_cons, length_cons, reverse_cons, append_assoc]
    constructor
    · rintro ⟨size, minimal, more, ran⟩
      obtain ⟨sizes, minimals, all, shape⟩ := (ih fits (v :: stack) more).mp ran
      rw [length_cons] at all
      refine ⟨⟨size, sizes⟩, fun set found => ?_, by omega, shape⟩
      exact found.elim (fun same => minimal set same.symm) (minimals set)
    · rintro ⟨⟨size, sizes⟩, minimals, all, shape⟩
      refine ⟨size, fun set same => minimals set (.inl same.symm), by omega, ?_⟩
      refine (ih fits (v :: stack) (by rw [length_cons]; omega)).mpr
        ⟨sizes, fun set found => minimals set (.inr found), ?_, shape⟩
      rw [length_cons]
      omega

/-- A scriptSig of PushAll leaves its values, the last one on top. -/
lemma evalScript_pushAll {final : EvalState} :
    evalScript crypto flags checker sigversion [] (pushAll values) = .ok final ↔
      (pushAll values).length ≤ MAX_SCRIPT_SIZE ∧ (∀ v ∈ values, v.length ≤ MAX_SCRIPT_ELEMENT_SIZE) ∧
        (flags .MINIMALDATA = true → [0x81] ∉ values) ∧ values.length ≤ MAX_STACK_SIZE ∧
        running (pushAll values) values.reverse 0 = final := by
  rw [evalScript_ok]
  refine and_congr_right fun whole => ?_
  have fits : ∀ v ∈ values, v.length < 256 ^ 4 := by
    intro v member
    have bound := length_le_pushAll member
    rw [MAX_SCRIPT_SIZE] at whole
    omega
  rw [evalFrom_pushAll _ fits [] (Nat.zero_le _), append_nil, length_nil, Nat.zero_add]
  constructor
  · rintro ⟨ran, _⟩
    exact ran
  · rintro ⟨sizes, minimals, room, rfl⟩
    exact ⟨⟨sizes, minimals, room, rfl⟩, rfl⟩

/-- The value `[0x81]` is the only one that PushAll does not write as EvalScript wants it. -/
theorem pushAll_leaves_values_iff (minimal : flags .MINIMALDATA = true) (few : values.length ≤ 1000)
    (sizes : ∀ v ∈ values, v.length ≤ 2048) (whole : (pushAll values).length ≤ MAX_SCRIPT_SIZE) :
    (∃ final, evalScript crypto flags checker sigversion [] (pushAll values) = .ok final ∧
      final.stack = values.reverse) ↔ [0x81] ∉ values := by
  constructor
  · rintro ⟨final, ran, _⟩
    exact (evalScript_pushAll.mp ran).2.2.1 minimal
  · intro other
    exact ⟨_, evalScript_pushAll.mpr ⟨whole, sizes, fun _ => other, few, rfl⟩, rfl⟩

theorem pushAll_leaves_numbers : ∃ final, evalScript Crypto.zeros STANDARD_SCRIPT_VERIFY_FLAGS
    acceptingChecker .BASE [] (pushAll [[], [5], [0x80]]) = .ok final ∧ final.stack = [[0x80], [5], []] :=
  (pushAll_leaves_values_iff rfl (by decide) (by decide) (by decide)).mpr (by decide)

theorem pushAll_minusOne_refused : evalScript Crypto.zeros STANDARD_SCRIPT_VERIFY_FLAGS acceptingChecker
    .BASE [] (pushAll [[0x81]]) = .error (.error .MINIMALDATA) := rfl

end Dragonchain.Script
