import Dragonchain.ScriptSafety
import Dragonchain.Templates

/-!
Runs of EvalScript outside of any conditional, described by when they succeed: one
equivalence for a push, one for any other opcode, and from them the runs of the standard
scripts. What a run needs and what a successful run tells are read from the same lemma.
-/

namespace Dragonchain.Script

open Outcome List Nat

section Machine
variable (crypto : Crypto) (flags : ScriptFlags) (checker : BaseSignatureChecker)
  (sigversion : SigVersion)

/-- The loop of EvalScript with fuel for the whole script. -/
def evalFrom (pc : Bytes) (state : EvalState) : Eval EvalState :=
  evalLoop crypto flags checker sigversion pc.length pc state

/-- A state outside of any conditional, with an empty altstack. -/
def running (script : Bytes) (stack : Stack) (nOpCount : Int) : EvalState :=
  { stack, nOpCount, pbegincodehash := script }

end Machine

variable {crypto : Crypto} {flags : ScriptFlags} {checker : BaseSignatureChecker}
  {sigversion : SigVersion}

lemma evalLoop_nil (fuel : Nat) (state : EvalState) :
    evalLoop crypto flags checker sigversion fuel [] state = .ok state := by
  cases fuel <;> rfl

variable {pc vch rest : Bytes} {opcode : UInt8} {nOpCount : Int}

lemma evalLoop_next (parsed : getOp pc = some (opcode, vch, rest)) (fuel : Nat) (state : EvalState) :
    evalLoop crypto flags checker sigversion (fuel + 1) pc state =
      evalStep crypto flags checker sigversion state opcode vch rest >>=
        evalLoop crypto flags checker sigversion fuel rest := by
  have full : pc.isEmpty = false := by
    cases pc with
    | nil => cases parsed
    | cons _ _ => rfl
  rw [evalLoop, full, parsed]
  rfl

variable (script : Bytes) {fuel : Nat} (fuel' : Nat) (keyID : Uint160) (vchPubKey vchSig : Bytes)
  (final : EvalState)

lemma evalLoop_enough (state : EvalState) (enough : pc.length ≤ fuel)
    (enough' : pc.length ≤ fuel') : evalLoop crypto flags checker sigversion fuel pc state =
      evalLoop crypto flags checker sigversion fuel' pc state := by
  induction fuel generalizing fuel' pc state with
  | zero =>
    obtain rfl : pc = [] := length_eq_zero_iff.mp (le_zero.mp enough)
    rw [evalLoop_nil, evalLoop_nil]
  | succ fuel ih =>
    cases fuel' with
    | zero =>
      obtain rfl : pc = [] := length_eq_zero_iff.mp (le_zero.mp enough')
      rw [evalLoop_nil, evalLoop_nil]
    | succ fuel' =>
      cases parsed : getOp pc with
      | none => rw [evalLoop, evalLoop, parsed]
      | some op =>
        obtain ⟨opcode, vch, rest⟩ := op
        have shorter := getOp_length parsed
        rw [evalLoop_next parsed, evalLoop_next parsed]
        congr 1
        funext next
        exact ih fuel' next (by omega) (by omega)

lemma evalFrom_nil {state final : EvalState} :
    evalFrom crypto flags checker sigversion [] state = .ok final ↔ state = final := by
  rw [evalFrom, evalLoop_nil, Except.ok.injEq]

lemma evalFrom_next (parsed : getOp pc = some (opcode, vch, rest)) {state final : EvalState} :
    evalFrom crypto flags checker sigversion pc state = .ok final ↔
      ∃ next, evalStep crypto flags checker sigversion state opcode vch rest = .ok next ∧
        evalFrom crypto flags checker sigversion rest next = .ok final := by
  have shorter := getOp_length parsed
  cases pc with
  | nil => cases parsed
  | cons first tail =>
    rw [evalFrom, length_cons, evalLoop_next parsed, bind_eq_ok]
    rw [length_cons] at shorter
    refine exists_congr fun next => and_congr_right fun _ => ?_
    rw [evalFrom, evalLoop_enough rest.length next (by omega) le_rfl]

variable {stack : Stack} {nOpCount : Int}

lemma evalScript_ok {script : Bytes} {final : EvalState} :
    evalScript crypto flags checker sigversion stack script = .ok final ↔ script.length ≤ MAX_SCRIPT_SIZE ∧
        evalFrom crypto flags checker sigversion script (running script stack 0) = .ok final ∧
        final.vfExec = [] := by
  rw [evalScript, require_bind_eq_ok, decide_eq_true_iff, bind_eq_ok]
  refine and_congr_right fun _ => ?_
  constructor
  · rintro ⟨last, ran, done⟩
    obtain ⟨balanced, same⟩ := require_bind_eq_ok.mp done
    cases same
    exact ⟨ran, List.isEmpty_iff.mp balanced⟩
  · rintro ⟨ran, balanced⟩
    exact ⟨final, ran, require_bind_eq_ok.mpr ⟨List.isEmpty_iff.mpr balanced, rfl⟩⟩

/-! One turn of the loop. -/

variable {value result : Int}

lemma checkOpcode_push (push : opcode ≤ OP_16) :
    checkOpcode flags sigversion nOpCount opcode vch = .ok result ↔
      vch.length ≤ MAX_SCRIPT_ELEMENT_SIZE ∧ nOpCount = result := by
  have low : ¬ opcode > OP_16 := UInt8.not_lt.mpr push
  have enabled : isDisabled opcode = false := by
    refine decide_eq_false fun disabled => ?_
    have high : ([0x7e, 0x7f, 0x80, 0x81, 0x83, 0x84, 0x85, 0x86, 0x8d, 0x8e, 0x95, 0x96, 0x97,
      0x98, 0x99] : List UInt8).all (fun code => decide (OP_16 < code)) = true := by decide
    exact low (of_decide_eq_true (all_eq_true.mp high opcode disabled))
  have plain : (opcode == 0xab) = false := by
    refine beq_false_of_ne fun same => low ?_
    rw [same]
    decide
  simp only [checkOpcode, int32If, low, enabled, plain, decide_false, Bool.false_and, Bool.not_false,
    require_bind_eq_ok, decide_eq_true_iff, Bool.false_eq_true, if_false, true_and, pure_bind,
    pure_eq_ok]

lemma evalStep_push (push : opcode ≤ OP_PUSHDATA4) {script : Bytes} {final : EvalState} :
    evalStep crypto flags checker sigversion (running script stack nOpCount) opcode vch pc = .ok final ↔
      vch.length ≤ MAX_SCRIPT_ELEMENT_SIZE ∧ (flags .MINIMALDATA = true → checkMinimalPush vch opcode = true) ∧
      stack.length + 1 ≤ MAX_STACK_SIZE ∧ running script (vch :: stack) nOpCount = final := by
  have small : opcode ≤ OP_16 := UInt8.le_trans push (show OP_PUSHDATA4 ≤ OP_16 by decide)
  rw [evalStep, bind_eq_ok]
  simp only [checkOpcode_push small, runOpcode, running, all_nil, push, decide_true, Bool.and_self,
    if_true, bind_assoc, require_bind_eq_ok, pure_bind, decide_eq_true_iff, pure_eq_ok, length_cons,
    length_nil, add_zero, and_assoc, exists_and_left, exists_eq_left']
  cases flags .MINIMALDATA <;> simp

/-- Opcodes that are counted and enabled, without OP_CODESEPARATOR. -/
abbrev PlainOp (opcode : UInt8) : Prop := OP_16 < opcode ∧ isDisabled opcode = false ∧ opcode ≠ 0xab

lemma evalFrom_exec (read : getOp pc = some (opcode, [], rest)) (plain : PlainOp opcode) {script : Bytes}
    (few : 0 ≤ nOpCount ∧ nOpCount ≤ MAX_OPS_PER_SCRIPT) {final : EvalState} :
    evalFrom crypto flags checker sigversion pc (running script stack nOpCount) = .ok final ↔
      nOpCount < MAX_OPS_PER_SCRIPT ∧ ∃ next,
        execOpcode crypto flags checker sigversion true rest (running script stack (nOpCount + 1))
          (decode opcode) = .ok next ∧ next.stack.length + next.altstack.length ≤ MAX_STACK_SIZE ∧
        evalFrom crypto flags checker sigversion rest next = .ok final := by
  obtain ⟨high, enabled, separator⟩ := plain
  have long : ¬ opcode ≤ OP_PUSHDATA4 :=
    UInt8.not_le.mpr (UInt8.lt_of_le_of_lt (show OP_PUSHDATA4 ≤ OP_16 by decide) high)
  have bound : (MAX_OPS_PER_SCRIPT : Int) = 201 := rfl
  have inside : -2147483648 ≤ nOpCount + 1 ∧ nOpCount + 1 ≤ 2147483647 := by omega
  have noSeparator : (opcode == 0xab) = false := beq_false_of_ne separator
  have count : (!decide ((MAX_OPS_PER_SCRIPT : Int) < nOpCount + 1)) = true ↔ nOpCount < MAX_OPS_PER_SCRIPT := by
    rw [Bool.not_eq_true', decide_eq_false_iff_not, bound]
    omega
  rw [evalFrom_next read]
  simp only [evalStep, bind_eq_ok, checkOpcode, int32If, int32, running, high, enabled, noSeparator, long, all_nil,
    runOpcode, decide_true, decide_false, inside, and_self, gt_iff_lt, Bool.true_and, Bool.false_and,
    Bool.and_false, Bool.false_eq_true, Bool.true_or, Bool.not_false, if_true, if_false, pure_bind,
    require_eq_ok, exists_const, decide_eq_true_iff, true_and, pure_eq_ok, length_nil, zero_le, count,
    and_assoc, exists_and_left, exists_eq_left']
  refine and_congr_right fun _ => ?_
  constructor
  · rintro ⟨_, ⟨next, done, room, rfl⟩, ran⟩
    exact ⟨next, done, room, ran⟩
  · rintro ⟨next, done, room, ran⟩
    exact ⟨next, ⟨next, done, room, rfl⟩, ran⟩

/-! The standard scripts. -/

lemma checkMinimalPush_pushOpcode (single : vch.length ≠ 1) :
    checkMinimalPush vch (pushOpcode vch.length) = true := by
  simp only [checkMinimalPush, single, false_and, if_false]
  unfold pushOpcode
  rw [show OP_PUSHDATA1.toNat = 76 from rfl]
  split_ifs with empty <;> first | rfl | omega | skip
  · rw [empty]
    rfl
  · rw [UInt8.toNat_ofNat', mod_eq_of_lt (by omega)]
    exact beq_self_eq_true _

lemma evalFrom_push (fits : vch.length < 256 ^ 4) (script rest : Bytes) (stack : Stack)
    (nOpCount : Int) (final : EvalState) :
    evalFrom crypto flags checker sigversion (pushData vch ++ rest) (running script stack nOpCount)
        = .ok final ↔ vch.length ≤ MAX_SCRIPT_ELEMENT_SIZE ∧
      (flags .MINIMALDATA = true → checkMinimalPush vch (pushOpcode vch.length) = true) ∧
      stack.length + 1 ≤ MAX_STACK_SIZE ∧
      evalFrom crypto flags checker sigversion rest (running script (vch :: stack) nOpCount) = .ok final := by
  have push : pushOpcode vch.length ≤ OP_PUSHDATA4 := by
    have low := pushOpcode_lt vch.length
    revert low
    generalize pushOpcode vch.length = opcode
    exact le_of_lt_succ
  simp [evalFrom_next (getOp_pushData vch rest fits), evalStep_push push, and_assoc]

lemma evalFrom_pushData (single : vch.length ≠ 1) (fits : vch.length < 256 ^ 4)
    (script rest : Bytes) (stack : Stack) (nOpCount : Int) (final : EvalState) :
    evalFrom crypto flags checker sigversion (pushData vch ++ rest) (running script stack nOpCount)
        = .ok final ↔ vch.length ≤ MAX_SCRIPT_ELEMENT_SIZE ∧ stack.length + 1 ≤ MAX_STACK_SIZE ∧
      evalFrom crypto flags checker sigversion rest (running script (vch :: stack) nOpCount) = .ok final := by
  simp [evalFrom_push fits, checkMinimalPush_pushOpcode single]

lemma length_pushData_le (vch : Bytes) : (pushData vch).length ≤ vch.length + 5 := by
  unfold pushData
  split_ifs <;> simp only [length_cons, length_append, ByteCodec.length_leBytes] <;> omega

lemma evalFrom_zero (script rest : Bytes) (stack : Stack) (nOpCount : Int) (final : EvalState) :
    evalFrom crypto flags checker sigversion (OP_0 :: rest) (running script stack nOpCount) = .ok final ↔
      stack.length + 1 ≤ MAX_STACK_SIZE ∧
      evalFrom crypto flags checker sigversion rest (running script ([] :: stack) nOpCount) = .ok final := by
  have pushed : OP_0 :: rest = pushData [] ++ rest := rfl
  rw [pushed, evalFrom_pushData (by decide) (by decide)]
  exact and_iff_right (zero_le _)

section Opcodes
variable (script pc : Bytes) (stack : Stack) (nOpCount : Int)

lemma exec_dup (vch : Bytes) :
    execOpcode crypto flags checker sigversion true pc (running script (vch :: stack) nOpCount)
      (decode OP_DUP) = .ok (running script (vch :: vch :: stack) nOpCount) := rfl

lemma exec_hash160 (vch : Bytes) :
    execOpcode crypto flags checker sigversion true pc (running script (vch :: stack) nOpCount)
      (decode OP_HASH160) = .ok (running script ((crypto.hash160 vch).bytes :: stack) nOpCount) := rfl

lemma exec_equal (vch1 vch2 : Bytes) :
    execOpcode crypto flags checker sigversion true pc (running script (vch2 :: vch1 :: stack) nOpCount)
      (decode OP_EQUAL) = .ok (running script (vchBool (vch1 == vch2) :: stack) nOpCount) := rfl

lemma exec_equalVerify (vch1 vch2 : Bytes) (next : EvalState) :
    execOpcode crypto flags checker sigversion true pc (running script (vch2 :: vch1 :: stack) nOpCount)
      (decode OP_EQUALVERIFY) = .ok next ↔ vch1 = vch2 ∧ running script stack nOpCount = next := by
  show (equalOp true (vch2 :: vch1 :: stack) >>= fun left => pure (running script left nOpCount)) = .ok next ↔ _
  have step : equalOp true (vch2 :: vch1 :: stack) =
      require (vch1 == vch2) ScriptError.EQUALVERIFY >>= fun _ => pure stack := rfl
  rw [step, bind_assoc, require_bind_eq_ok, beq_iff_eq, pure_bind, pure_eq_ok]

lemma exec_checkSig (next : EvalState) :
    execOpcode crypto flags checker sigversion true pc (running script stack nOpCount)
      (decode OP_CHECKSIG) = .ok next ↔
        ∃ left, checkSigOp crypto flags checker sigversion false script stack = .ok left ∧
          running script left nOpCount = next := by
  show (checkSigOp crypto flags checker sigversion false script stack >>= fun left =>
    pure (running script left nOpCount)) = .ok next ↔ _
  simp only [bind_eq_ok, pure_eq_ok]

end Opcodes

lemma uint160_inj {first second : Uint160} : first.bytes = second.bytes ↔ first = second := by
  cases first
  cases second
  rw [Uint160.mk.injEq]

lemma evalFrom_pubKeyHash : evalFrom crypto flags checker sigversion (getScriptForPubKeyHash keyID)
        (running script [vchPubKey, vchSig] 0) = .ok final ↔ crypto.hash160 vchPubKey = keyID ∧
      ∃ left, checkSigOp crypto flags checker sigversion false script [vchPubKey, vchSig] = .ok left ∧
        left.length ≤ MAX_STACK_SIZE ∧ running script left 4 = final := by
  have size : keyID.bytes.length = 20 := keyID.size
  have shape : getScriptForPubKeyHash keyID =
      OP_DUP :: OP_HASH160 :: (pushData keyID.bytes ++ [OP_EQUALVERIFY, OP_CHECKSIG]) := by
    rfl
  rw [shape, evalFrom_exec (getOp_plain _ (by decide)) (by decide) (by decide)]
  simp only [exec_dup, Except.ok.injEq, exists_eq_left']
  rw [evalFrom_exec (getOp_plain _ (by decide)) (by decide) (by decide)]
  simp only [exec_hash160, Except.ok.injEq, exists_eq_left']
  rw [evalFrom_pushData (by omega) (by omega), evalFrom_exec (getOp_plain _ (by decide)) (by decide) (by decide)]
  simp only [exec_equalVerify, and_assoc, exists_and_left, exists_eq_left']
  rw [evalFrom_exec (getOp_plain _ (by decide)) (by decide) (by decide)]
  simp only [exec_checkSig, evalFrom_nil, uint160_inj]
  simp [running, size, MAX_STACK_SIZE, MAX_OPS_PER_SCRIPT, MAX_SCRIPT_ELEMENT_SIZE]

lemma evalScript_pubKeyHash :
    evalScript crypto flags checker sigversion [vchPubKey, vchSig] (getScriptForPubKeyHash keyID)
        = .ok final ↔ crypto.hash160 vchPubKey = keyID ∧
      ∃ left, checkSigOp crypto flags checker sigversion false (getScriptForPubKeyHash keyID)
          [vchPubKey, vchSig] = .ok left ∧ left.length ≤ MAX_STACK_SIZE ∧
        running (getScriptForPubKeyHash keyID) left 4 = final := by
  have short : (getScriptForPubKeyHash keyID).length ≤ MAX_SCRIPT_SIZE := by
    simp [getScriptForPubKeyHash, pushData, keyID.size, OP_PUSHDATA1, MAX_SCRIPT_SIZE]
  rw [evalScript_ok, evalFrom_pubKeyHash]
  constructor
  · rintro ⟨_, ran, _⟩
    exact ran
  · rintro ⟨same, left, checked, room, rfl⟩
    exact ⟨short, ⟨same, left, checked, room, rfl⟩, rfl⟩

lemma evalScript_scriptHash (scriptID : Uint160) (subscript : Bytes) (stack : Stack) (final : EvalState) :
    evalScript crypto flags checker sigversion (subscript :: stack) (getScriptForScriptHash scriptID)
        = .ok final ↔ stack.length + 2 ≤ MAX_STACK_SIZE ∧ running (getScriptForScriptHash scriptID)
        (vchBool ((crypto.hash160 subscript).bytes == scriptID.bytes) :: stack) 2 = final := by
  have size : scriptID.bytes.length = 20 := scriptID.size
  have short : (getScriptForScriptHash scriptID).length ≤ MAX_SCRIPT_SIZE := by
    simp [getScriptForScriptHash, pushData, size, OP_PUSHDATA1, MAX_SCRIPT_SIZE]
  have shape : getScriptForScriptHash scriptID = OP_HASH160 :: (pushData scriptID.bytes ++ [OP_EQUAL]) := rfl
  rw [evalScript_ok]
  generalize code : getScriptForScriptHash scriptID = script at short
  rw [← code, shape, evalFrom_exec (getOp_plain _ (by decide)) (by decide) (by decide)]
  simp only [exec_hash160, Except.ok.injEq, exists_eq_left']
  rw [evalFrom_pushData (by omega) (by omega), evalFrom_exec (getOp_plain _ (by decide)) (by decide) (by decide)]
  simp only [exec_equal, Except.ok.injEq, exists_eq_left', evalFrom_nil]
  rw [← shape, code]
  constructor
  · rintro ⟨_, ⟨_, _, _, room, _, _, same⟩, _⟩
    exact ⟨room, same⟩
  · rintro ⟨room, rfl⟩
    have one : stack.length + 1 ≤ MAX_STACK_SIZE := le_of_succ_le room
    exact ⟨short, ⟨by decide, one, by rw [size]; decide, room, by decide, one, rfl⟩, rfl⟩

lemma evalScript_program {program : Bytes} (long : 2 ≤ program.length)
    (short : program.length ≤ 40) (room : stack.length + 2 ≤ MAX_STACK_SIZE) :
    evalScript crypto flags checker sigversion stack (OP_0 :: pushData program) =
      .ok (running (OP_0 :: pushData program) (program :: [] :: stack) 0) := by
  have whole : (OP_0 :: pushData program).length ≤ MAX_SCRIPT_SIZE := by
    have bound := length_pushData_le program
    rw [length_cons, MAX_SCRIPT_SIZE]
    omega
  refine evalScript_ok.mpr ⟨whole, ?_, rfl⟩
  generalize code : OP_0 :: pushData program = script
  rw [← code, ← append_nil (pushData program), evalFrom_zero, evalFrom_pushData (by omega) (by omega), evalFrom_nil]
  simp only [MAX_STACK_SIZE] at room
  simp [MAX_STACK_SIZE, MAX_SCRIPT_ELEMENT_SIZE]
  omega

/-! Push-only scripts, as PushAll makes them. -/

lemma parseOps_enough (pc : Bytes) (enough : pc.length ≤ fuel)
    (enough' : pc.length ≤ fuel') : parseOps fuel pc = parseOps fuel' pc := by
  induction fuel generalizing fuel' pc with
  | zero =>
    obtain rfl : pc = [] := length_eq_zero_iff.mp (le_zero.mp enough)
    cases fuel' <;> rfl
  | succ fuel ih =>
    cases fuel' with
    | zero =>
      obtain rfl : pc = [] := length_eq_zero_iff.mp (le_zero.mp enough')
      rfl
    | succ fuel' =>
      cases parsed : getOp pc with
      | none => rw [parseOps, parseOps, parsed]
      | some op =>
        obtain ⟨opcode, vch, rest⟩ := op
        have shorter := getOp_length parsed
        rw [parseOps, parseOps, parsed]
        dsimp only
        rw [ih fuel' rest (by omega) (by omega)]

variable (parsed : getOp pc = some (opcode, vch, rest))
include parsed

lemma ops_next : ops pc = ((opcode, vch) :: (ops rest).1, (ops rest).2) := by
  have shorter := getOp_length parsed
  cases pc with
  | nil => cases parsed
  | cons first tail =>
    rw [length_cons] at shorter
    rw [ops, length_cons, parseOps, parsed]
    dsimp only
    rw [parseOps_enough rest.length rest (by omega) le_rfl]
    rfl

lemma isPushOnly_next : isPushOnly pc = (decide (opcode ≤ OP_16) && isPushOnly rest) := by
  rw [isPushOnly, ops_next parsed, isPushOnly, all_cons, Bool.and_left_comm]

end Dragonchain.Script
