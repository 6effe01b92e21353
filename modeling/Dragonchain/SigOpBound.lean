import Mathlib.Algebra.BigOperators.Ring.List
import Mathlib.Algebra.Order.BigOperators.Group.List
import Mathlib.Tactic.IntervalCases
import Dragonchain.Connect
import Dragonchain.CountedScript
import Dragonchain.MultiSig

/-!
The CheckSig calls of VerifyScript against the sigop counts. The static count reads
the key count of a CHECKMULTISIG from the opcode before it or takes the most there can
be; along a run that opcode has just left its number on the stack.
-/

namespace Dragonchain.Script

open Outcome Coins List Serialization Bool UInt8

variable {checker : BaseSignatureChecker} {calls fuel witversion : Nat}
  {nOpCount nSigsCount nKeysCount isig ikey : Int}
  {fAccurate fExec fSuccess malleated hadWitness : Bool}
  {pc script scriptSig scriptPubKey scriptCode program vchPushValue vch : Bytes}
  {state next final sigState : EvalState}

section Calls
variable {crypto : Crypto} {flags : ScriptFlags} {sigversion : SigVersion} {stack : Stack}
  {opcode lastOpcode : UInt8} {witness : List Bytes} {result : Bool × Stack}

lemma matchSignaturesCounted_le (few : nSigsCount ≤ nKeysCount)
    (ran : matchSignaturesCounted crypto flags checker sigversion stack scriptCode fuel isig ikey
      nSigsCount nKeysCount = .ok (fSuccess, calls)) : (calls : Int) ≤ max nKeysCount 0 := by
  induction fuel generalizing isig ikey nSigsCount nKeysCount fSuccess calls with
  | zero =>
    unfold matchSignaturesCounted at ran
    split_ifs at ran
    · cases ran
    · cases ran
      omega
  | succ fuel ih =>
    unfold matchSignaturesCounted at ran
    split_ifs at ran with more
    · obtain ⟨vchSig, _, ran⟩ := bind_eq_ok.mp ran
      obtain ⟨vchPubKey, _, ran⟩ := bind_eq_ok.mp ran
      obtain ⟨_, _, ran⟩ := bind_eq_ok.mp ran
      obtain ⟨_, _, ran⟩ := bind_eq_ok.mp ran
      obtain ⟨isig', _, ran⟩ := bind_eq_ok.mp ran
      obtain ⟨sigs, left, ran⟩ := bind_eq_ok.mp ran
      obtain ⟨ikey', _, ran⟩ := bind_eq_ok.mp ran
      obtain ⟨keys, fewer, ran⟩ := bind_eq_ok.mp ran
      have fewer := (int32_eq_ok.mp fewer).1
      split_ifs at ran with lost
      · cases ran
        omega
      · obtain ⟨⟨found, later⟩, onward, done⟩ := bind_eq_ok.mp ran
        cases done
        have bound := ih (by omega) onward
        omega
    · cases ran
      omega

lemma checkMultiSigCounted_le {verify : Bool} {result : Int × Stack}
    (ran : checkMultiSigCounted crypto flags checker sigversion verify scriptCode nOpCount stack
      = .ok (result, calls)) :
    ∃ vch bn, stacktop stack (-1) = .ok vch ∧ toScriptNum vch (flags .MINIMALDATA) = .ok bn ∧
      (calls : Int) ≤ getint bn ∧ getint bn ≤ MAX_PUBKEYS_PER_MULTISIG := by
  obtain ⟨⟨nOpCount', nKeysCount, nSigsCount, i⟩, counts, ran⟩ := bind_eq_ok.mp ran
  obtain ⟨ikey2, _, ran⟩ := bind_eq_ok.mp ran
  obtain ⟨isig, _, ran⟩ := bind_eq_ok.mp ran
  obtain ⟨code, _, ran⟩ := bind_eq_ok.mp ran
  obtain ⟨⟨fSuccess, made⟩, matched, ran⟩ := bind_eq_ok.mp ran
  obtain ⟨stack1, _, ran⟩ := bind_eq_ok.mp ran
  obtain ⟨_, ran⟩ := require_bind_eq_ok.mp ran
  obtain ⟨dummy, _, ran⟩ := bind_eq_ok.mp ran
  obtain ⟨_, ran⟩ := require_bind_eq_ok.mp ran
  obtain ⟨stack2, _, ran⟩ := bind_eq_ok.mp ran
  have same : made = calls := by
    cases verify with
    | false =>
      cases ran
      rfl
    | true =>
      obtain ⟨_, ran⟩ := require_bind_eq_ok.mp ran
      obtain ⟨stack3, _, ran⟩ := bind_eq_ok.mp ran
      cases ran
      rfl
  subst same
  obtain ⟨⟨⟨vch, bn, top, read, rfl⟩, _, keysRange, sigsRange, _⟩, _⟩ := multiSigCounts_eq_ok.mp counts
  have bound := matchSignaturesCounted_le (by omega) matched
  refine ⟨vch, bn, top, read, by omega, by omega⟩

def sigOpWeight (fAccurate : Bool) (lastOpcode opcode : UInt8) : Nat :=
  if opcode = OP_CHECKSIG ∨ opcode = OP_CHECKSIGVERIFY then 1
  else if opcode = OP_CHECKMULTISIG ∨ opcode = OP_CHECKMULTISIGVERIFY then
    if fAccurate ∧ lastOpcode ≥ OP_1 ∧ lastOpcode ≤ OP_16 then decodeOP_N lastOpcode
    else MAX_PUBKEYS_PER_MULTISIG
  else 0

def sigOpsFrom (fAccurate : Bool) : UInt8 → List (UInt8 × Bytes) → Nat
  | _, [] => 0
  | lastOpcode, (opcode, _) :: rest => sigOpWeight fAccurate lastOpcode opcode + sigOpsFrom fAccurate opcode rest

/-- The number that OP_1 to OP_16 have left, read by the next operation. -/
def Follows (fAccurate : Bool) (lastOpcode : UInt8) (state : EvalState) : Prop :=
  fAccurate = true → OP_1 ≤ lastOpcode → lastOpcode ≤ OP_16 → state.vfExec.all id = true →
    ∃ below, state.stack = [UInt8.ofNat (decodeOP_N lastOpcode)] :: below

/-- OP_1 to OP_16 push the number that DecodeOP_N gives. -/
lemma small_number (low : OP_1 ≤ opcode) (high : opcode ≤ OP_16) :
    decode opcode = .number (decodeOP_N opcode : Nat) ∧
      getvch (decodeOP_N opcode : Nat) = .ok [UInt8.ofNat (decodeOP_N opcode)] ∧
      ∀ fRequireMinimal, toScriptNum [UInt8.ofNat (decodeOP_N opcode)] fRequireMinimal =
        .ok (decodeOP_N opcode : Nat) := by
  have bounds : 0x51 ≤ opcode.toNat ∧ opcode.toNat ≤ 0x60 := ⟨le_iff_toNat_le.mp low, le_iff_toNat_le.mp high⟩
  have same : opcode = UInt8.ofNat opcode.toNat := UInt8.ofNat_toNat.symm
  generalize opcode.toNat = code at bounds same
  obtain ⟨least, most⟩ := bounds
  subst same
  interval_cases code <;> exact ⟨rfl, rfl, fun minimal => by cases minimal <;> rfl⟩

/-- The two kinds of opcodes that call the checker. -/
def Opcode.checksOne : Opcode → Bool
  | .OP_CHECKSIG _ => true
  | _ => false

def Opcode.checksMany : Opcode → Bool
  | .OP_CHECKMULTISIG _ => true
  | _ => false

lemma forall_opcode (property : UInt8 → Prop) (all : ∀ code < 256, property (UInt8.ofNat code))
    (opcode : UInt8) : property opcode := by
  have here := all opcode.toNat opcode.toNat_lt
  rwa [UInt8.ofNat_toNat] at here

lemma decode_checksOne (opcode : UInt8) :
    (decode opcode).checksOne = true ↔ opcode = OP_CHECKSIG ∨ opcode = OP_CHECKSIGVERIFY :=
  forall_opcode (fun opcode => (decode opcode).checksOne = true ↔
    opcode = OP_CHECKSIG ∨ opcode = OP_CHECKSIGVERIFY) (by decide +kernel) opcode

lemma decode_checksMany (opcode : UInt8) : (decode opcode).checksMany = true ↔
      opcode = OP_CHECKMULTISIG ∨ opcode = OP_CHECKMULTISIGVERIFY :=
  forall_opcode (fun opcode => (decode opcode).checksMany = true ↔
    opcode = OP_CHECKMULTISIG ∨ opcode = OP_CHECKMULTISIGVERIFY) (by decide +kernel) opcode

lemma execOpcodeCounted_le (follows : Follows fAccurate lastOpcode state) (executed : state.vfExec.all id = true)
    (ran : execOpcodeCounted crypto flags checker sigversion fExec pc state (decode opcode) = .ok (next, calls)) :
    calls ≤ sigOpWeight fAccurate lastOpcode opcode := by
  have one := decode_checksOne opcode
  have many := decode_checksMany opcode
  rw [sigOpWeight]
  generalize decode opcode = operation at one many ran
  cases operation with
  | OP_CHECKSIG verify =>
    obtain ⟨stack, _, done⟩ := bind_eq_ok.mp ran
    cases done
    rw [if_pos (one.mp rfl)]
  | OP_CHECKMULTISIG verify =>
    obtain ⟨⟨result, made⟩, counted, done⟩ := bind_eq_ok.mp ran
    cases done
    obtain ⟨vch, bn, top, read, bound, most⟩ := checkMultiSigCounted_le counted
    have other : ¬ (opcode = OP_CHECKSIG ∨ opcode = OP_CHECKSIGVERIFY) := fun sig => nomatch one.mpr sig
    rw [if_neg other, if_pos (many.mp rfl)]
    by_cases accurate : fAccurate ∧ lastOpcode ≥ OP_1 ∧ lastOpcode ≤ OP_16
    · rw [if_pos accurate]
      obtain ⟨precise, low, high⟩ := accurate
      obtain ⟨below, shape⟩ := follows precise low high executed
      rw [shape] at top
      cases top
      rw [(small_number low high).2.2] at read
      cases read
      unfold getint at bound
      split_ifs at bound <;> omega
    · rw [if_neg accurate]
      omega
  | _ =>
    obtain ⟨_, _, done⟩ := bind_eq_ok.mp ran
    cases done
    exact Nat.zero_le _

lemma execOpcodeCounted_quiet {operation : Opcode}
    (ran : execOpcodeCounted crypto flags checker sigversion fExec pc state operation = .ok (next, calls))
    (one : operation.checksOne = false) (many : operation.checksMany = false) : calls = 0 := by
  cases operation with
  | OP_CHECKSIG verify => cases one
  | OP_CHECKMULTISIG verify => cases many
  | _ =>
    obtain ⟨_, _, done⟩ := bind_eq_ok.mp ran
    cases done
    rfl

lemma evalStepCounted_le (follows : Follows fAccurate lastOpcode state)
    (ran : evalStepCounted crypto flags checker sigversion state opcode vchPushValue pc = .ok (next, calls)) :
    calls ≤ sigOpWeight fAccurate lastOpcode opcode ∧ Follows fAccurate opcode next := by
  obtain ⟨nOpCount, _, ran⟩ := bind_eq_ok.mp ran
  obtain ⟨⟨final, made⟩, turn, ran⟩ := bind_eq_ok.mp ran
  obtain ⟨_, done⟩ := require_bind_eq_ok.mp ran
  cases done
  unfold runOpcodeCounted at turn
  cases executed : state.vfExec.all id with
  | true =>
    rw [executed, Bool.true_and, Bool.true_or, if_pos rfl] at turn
    by_cases push : opcode ≤ OP_PUSHDATA4
    · rw [if_pos (decide_eq_true push)] at turn
      obtain ⟨_, same⟩ := require_bind_eq_ok.mp turn
      cases same
      refine ⟨Nat.zero_le _, fun _ low => ?_⟩
      exact absurd (UInt8.lt_of_le_of_lt push (show OP_PUSHDATA4 < OP_1 by decide)) (UInt8.not_lt.mpr low)
    · rw [if_neg (by simpa using push)] at turn
      have following : Follows fAccurate lastOpcode { state with nOpCount } := follows
      refine ⟨execOpcodeCounted_le following executed turn, ?_⟩
      intro _ low high _
      obtain ⟨number, value, _⟩ := small_number low high
      rw [number] at turn
      obtain ⟨after, pushed, same⟩ := bind_eq_ok.mp turn
      cases same
      obtain ⟨vch, read, same⟩ := bind_eq_ok.mp pushed
      cases same
      rw [value] at read
      cases read
      exact ⟨state.stack, rfl⟩
  | false =>
    rw [executed, Bool.false_and, if_neg (by decide), Bool.false_or] at turn
    by_cases conditional : (0x63 ≤ opcode && opcode ≤ 0x68) = true
    · rw [if_pos conditional] at turn
      simp only [and_eq_true, decide_eq_true_eq] at conditional
      obtain ⟨least, most⟩ := conditional
      have quiet : calls = 0 := by
        apply execOpcodeCounted_quiet turn
        · rw [eq_false_iff, Ne, decode_checksOne]
          rintro (rfl | rfl) <;> exact absurd most (by decide)
        · rw [eq_false_iff, Ne, decode_checksMany]
          rintro (rfl | rfl) <;> exact absurd most (by decide)
      refine ⟨quiet.le.trans (Nat.zero_le _), fun _ _ high => ?_⟩
      exact absurd (UInt8.le_trans least high) (by decide)
    · rw [if_neg conditional] at turn
      cases turn
      refine ⟨Nat.zero_le _, fun _ _ _ running => ?_⟩
      exact absurd (executed.symm.trans running) (by decide)

/-- The loop of EvalScript makes at most the calls that the rest of the script counts. -/
lemma evalLoopCounted_le (follows : Follows fAccurate lastOpcode state)
    (ran : evalLoopCounted crypto flags checker sigversion fuel pc state = .ok (final, calls)) :
    calls ≤ sigOpsFrom fAccurate lastOpcode (parseOps fuel pc).1 := by
  induction fuel generalizing pc state lastOpcode calls with
  | zero =>
    unfold evalLoopCounted at ran
    split_ifs at ran
    · cases ran
      exact Nat.zero_le _
    · cases ran
  | succ fuel ih =>
    rw [evalLoopCounted] at ran
    rw [parseOps]
    split_ifs at ran ⊢
    · cases ran
      exact Nat.zero_le _
    · cases parsed : getOp pc with
      | none =>
        rw [parsed] at ran
        cases ran
      | some op =>
        obtain ⟨opcode, vch, rest⟩ := op
        rw [parsed] at ran
        obtain ⟨⟨next, made⟩, step, ran⟩ := bind_eq_ok.mp ran
        obtain ⟨⟨last, later⟩, onward, done⟩ := bind_eq_ok.mp ran
        cases done
        obtain ⟨here, following⟩ := evalStepCounted_le follows step
        exact Nat.add_le_add here (ih following onward)

lemma decodeOP_N_le (high : opcode ≤ OP_16) : decodeOP_N opcode ≤ 16 := by
  have bound : opcode.toNat ≤ 0x60 := le_iff_toNat_le.mp high
  unfold decodeOP_N
  rw [show OP_1.toNat - 1 = 0x50 from rfl]
  split_ifs <;> omega

lemma sigOpWeight_le (fAccurate : Bool) (lastOpcode opcode : UInt8) :
    sigOpWeight fAccurate lastOpcode opcode ≤ MAX_PUBKEYS_PER_MULTISIG := by
  have most : MAX_PUBKEYS_PER_MULTISIG = 20 := rfl
  unfold sigOpWeight
  split_ifs with _ _ accurate
  · omega
  · have small := decodeOP_N_le accurate.2.2
    omega
  · exact le_rfl
  · exact Nat.zero_le _

lemma sigOpsFrom_le (fAccurate : Bool) (lastOpcode : UInt8) (operations : List (UInt8 × Bytes)) :
    sigOpsFrom fAccurate lastOpcode operations ≤ MAX_PUBKEYS_PER_MULTISIG * operations.length := by
  induction operations generalizing lastOpcode with
  | nil => exact Nat.zero_le _
  | cons operation rest ih =>
    have here := sigOpWeight_le fAccurate lastOpcode operation.1
    have later := ih operation.1
    rw [length_cons, Nat.mul_succ, sigOpsFrom]
    omega

lemma foldl_countSigOp (fAccurate : Bool) (n : UInt32) (lastOpcode : UInt8)
    (operations : List (UInt8 × Bytes)) : (operations.foldl (countSigOp fAccurate) (n, lastOpcode)).1.toNat =
      (n.toNat + sigOpsFrom fAccurate lastOpcode operations) % 2 ^ 32 := by
  induction operations generalizing n lastOpcode with
  | nil => exact (Nat.mod_eq_of_lt n.toNat_lt).symm
  | cons operation rest ih =>
    have step : countSigOp fAccurate (n, lastOpcode) operation =
        (n + UInt32.ofNat (sigOpWeight fAccurate lastOpcode operation.1), operation.1) := by
      simp only [countSigOp, sigOpWeight]
      split_ifs
      · rfl
      · rfl
      · rfl
      · exact congrArg (·, operation.1) (UInt32.add_zero n).symm
    rw [foldl_cons, step, ih, sigOpsFrom, UInt32.toNat_add, UInt32.toNat_ofNat',
      Nat.add_mod_mod, Nat.mod_add_mod, add_assoc]

lemma length_parseOps_le (fuel : Nat) (pc : Bytes) : (parseOps fuel pc).1.length ≤ fuel := by
  induction fuel generalizing pc with
  | zero => exact le_rfl
  | succ fuel ih =>
    rw [parseOps]
    split_ifs
    · exact Nat.zero_le _
    · cases getOp pc with
      | none => exact Nat.zero_le _
      | some op => exact Nat.succ_le_succ (ih op.2.2)

/-- The sigop count of a script that is not too long to run does not wrap. -/
lemma getSigOpCount_toNat (short : script.length ≤ MAX_SCRIPT_SIZE) :
    (getSigOpCount fAccurate script).toNat = sigOpsFrom fAccurate OP_INVALIDOPCODE (ops script).1 := by
  have count := sigOpsFrom_le fAccurate OP_INVALIDOPCODE (ops script).1
  have few := length_parseOps_le script.length script
  have most : MAX_PUBKEYS_PER_MULTISIG = 20 := rfl
  have long : MAX_SCRIPT_SIZE = 10000 := rfl
  rw [most] at count
  rw [getSigOpCount, foldl_countSigOp, show (0 : UInt32).toNat = 0 from rfl, zero_add]
  apply Nat.mod_eq_of_lt
  unfold ops at count ⊢
  omega

lemma evalScriptCounted_le (fAccurate : Bool)
    (ran : evalScriptCounted crypto flags checker sigversion stack script = .ok (final, calls)) :
    calls ≤ (getSigOpCount fAccurate script).toNat := by
  obtain ⟨short, ran⟩ := require_bind_eq_ok.mp ran
  obtain ⟨⟨last, made⟩, looped, ran⟩ := bind_eq_ok.mp ran
  obtain ⟨_, done⟩ := require_bind_eq_ok.mp ran
  cases done
  rw [getSigOpCount_toNat (of_decide_eq_true short)]
  apply evalLoopCounted_le _ looped
  intro _ _ high
  exact absurd high (by decide)

/-- A stack element that runs no signature check as a script and is no witness
program: what OP_1NEGATE and OP_1 to OP_16 push. -/
def Inert (vch : Bytes) : Prop := (∀ fAccurate, getSigOpCount fAccurate vch = 0) ∧ isWitnessProgram vch = none

lemma evalStep_number (low : OP_PUSHDATA4 < opcode) (high : opcode ≤ OP_16)
    (ran : evalStep crypto flags checker sigversion (running script stack nOpCount) opcode vch pc
      = .ok next) : ∃ top, Inert top ∧ next = running script (top :: stack) nOpCount := by
  obtain ⟨count, counted, ran⟩ := bind_eq_ok.mp ran
  obtain ⟨_, rfl⟩ := (checkOpcode_push high).mp counted
  obtain ⟨final, turn, ran⟩ := bind_eq_ok.mp ran
  obtain ⟨_, done⟩ := require_bind_eq_ok.mp ran
  cases done
  have executed : (running script stack nOpCount).vfExec.all id = true := rfl
  have bounds : 0x4e < opcode.toNat ∧ opcode.toNat ≤ 0x60 := ⟨lt_iff_toNat_lt.mp low, le_iff_toNat_le.mp high⟩
  have same : opcode = UInt8.ofNat opcode.toNat := UInt8.ofNat_toNat.symm
  generalize opcode.toNat = code at bounds same
  obtain ⟨least, most⟩ := bounds
  subst same
  interval_cases code <;> cases turn <;> exact ⟨_, ⟨fun accurate => by cases accurate <;> rfl, rfl⟩, rfl⟩

/-- A push-only script leaves its last push on top: the data that GetOp gives for it,
or a number. -/
lemma evalFrom_pushOnly (pushes : isPushOnly pc = true) (present : pc ≠ [])
    (ran : evalFrom crypto flags checker sigversion pc (running script stack nOpCount)
      = .ok final) : ∃ opcode vch top below, (ops pc).1.getLast? = some (opcode, vch) ∧
      final.stack = top :: below ∧ (top = vch ∨ Inert top) := by
  induction size : pc.length using Nat.strong_induction_on generalizing pc stack with
  | _ size ih =>
    subst size
    cases parsed : getOp pc with
    | none =>
      rw [evalFrom, show pc.length = pc.length - 1 + 1 by
        have := length_pos_of_ne_nil present; omega, evalLoop, parsed] at ran
      rw [if_neg (by simpa using present)] at ran
      cases ran
    | some op =>
      obtain ⟨opcode, vch, rest⟩ := op
      rw [isPushOnly_next parsed, and_eq_true, decide_eq_true_eq] at pushes
      obtain ⟨next, step, onward⟩ := (evalFrom_next parsed).mp ran
      obtain ⟨top, kind, rfl⟩ : ∃ top, (top = vch ∨ Inert top) ∧ next = running script (top :: stack) nOpCount := by
        by_cases push : opcode ≤ OP_PUSHDATA4
        · obtain ⟨_, _, _, same⟩ := (evalStep_push push ..).mp step
          exact ⟨vch, .inl rfl, same.symm⟩
        · obtain ⟨top, inert, same⟩ := evalStep_number (UInt8.not_le.mp push) pushes.1 step
          exact ⟨top, .inr inert, same⟩
      rw [ops_next parsed]
      by_cases done : rest = []
      · subst done
        cases evalFrom_nil.mp onward
        exact ⟨opcode, vch, top, stack, rfl, rfl, kind⟩
      · obtain ⟨opcode', vch', top', below, last, shape, kind'⟩ :=
          ih rest.length (by have := getOp_length parsed; omega) pushes.2 done onward rfl
        refine ⟨opcode', vch', top', below, ?_, shape, kind'⟩
        rw [getLast?_cons, last]
        rfl

lemma map_eq_ok {α β : Type} {f : α → β} {action : Eval α} {result : β}
    (ran : f <$> action = .ok result) : ∃ value, action = .ok value ∧ f value = result := by
  cases action with
  | error stop => cases ran
  | ok value => exact ⟨value, rfl, Except.ok.inj ran⟩

lemma evalScript_of_counted
    (ran : evalScriptCounted crypto flags checker sigversion stack script = .ok (final, calls)) :
    evalScript crypto flags checker sigversion stack script = .ok final := by
  rw [← map_fst_evalScriptCounted, ran]
  rfl

lemma getSigOpCount_keyHash (size : program.length = 20) : getSigOpCount true
      ([OP_DUP, OP_HASH160] ++ pushData program ++ [OP_EQUALVERIFY, OP_CHECKSIG]) = 1 := by
  have plain : ∀ {opcode : UInt8} (rest : Bytes), OP_PUSHDATA4 < opcode →
      ops (opcode :: rest) = ((opcode, []) :: (ops rest).1, (ops rest).2) :=
    fun rest high => ops_next (getOp_plain rest (UInt8.not_le.mpr high))
  have push := ops_next (getOp_pushData program [OP_EQUALVERIFY, OP_CHECKSIG] (by omega))
  have opcode : pushOpcode program.length = 0x14 := by rw [size]; rfl
  rw [getSigOpCount, append_assoc, cons_append, cons_append, nil_append,
    plain _ (by decide), plain _ (by decide), push, opcode]
  rfl

lemma verifyWitnessProgramCounted_le
    (ran : verifyWitnessProgramCounted crypto flags checker witness witversion program
      = .ok calls) : calls ≤ witnessSigOps witversion program witness := by
  unfold verifyWitnessProgramCounted at ran
  unfold witnessSigOps
  split_ifs at ran with version
  · obtain ⟨⟨scriptPubKey, stack⟩, chosen, ran⟩ := bind_eq_ok.mp ran
    obtain ⟨_, ran⟩ := require_bind_eq_ok.mp ran
    obtain ⟨⟨final, made⟩, evaluated, ran⟩ := bind_eq_ok.mp ran
    obtain ⟨_, ran⟩ := require_bind_eq_ok.mp ran
    obtain ⟨vch, _, ran⟩ := bind_eq_ok.mp ran
    obtain ⟨_, done⟩ := require_bind_eq_ok.mp ran
    cases done
    have bound := evalScriptCounted_le true evaluated
    rw [if_pos version]
    unfold witnessScript at chosen
    split_ifs at chosen with script key
    · rw [if_neg (by omega), if_pos script]
      cases last : witness.getLast? with
      | none =>
        rw [last] at chosen
        cases chosen
      | some subscript =>
        rw [last] at chosen
        obtain ⟨_, same⟩ := require_bind_eq_ok.mp chosen
        cases same
        exact bound
    · obtain ⟨_, same⟩ := require_bind_eq_ok.mp chosen
      cases same
      rw [getSigOpCount_keyHash key] at bound
      rw [if_pos key]
      exact bound
    · cases chosen
  · obtain ⟨_, done⟩ := require_bind_eq_ok.mp ran
    cases done
    exact Nat.zero_le _

def programSigOps (witness : List Bytes) (script : Bytes) : Nat :=
  match isWitnessProgram script with
  | none => 0
  | some (witnessversion, witnessprogram) => witnessSigOps witnessversion witnessprogram witness

lemma verifyWitnessCounted_le {malleatedError : ScriptError}
    (ran : verifyWitnessCounted crypto flags checker witness script malleated malleatedError stack
      = .ok (result, calls)) : calls ≤ programSigOps witness script := by
  unfold verifyWitnessCounted at ran
  unfold programSigOps
  cases found : isWitnessProgram script with
  | none =>
    rw [found] at ran
    cases ran
    exact le_rfl
  | some program =>
    rw [found] at ran
    obtain ⟨_, ran⟩ := require_bind_eq_ok.mp ran
    obtain ⟨made, verified, done⟩ := bind_eq_ok.mp ran
    cases done
    exact verifyWitnessProgramCounted_le verified

lemma isWitnessProgram_payToScriptHash (hash : isPayToScriptHash script = true) :
    isWitnessProgram script = none := by
  simp only [isPayToScriptHash, and_eq_true, beq_iff_eq] at hash
  have outside : (OP_HASH160 != OP_0 && (decide (OP_HASH160 < OP_1) || decide (OP_HASH160 > OP_16)))
      = true := by decide
  rw [isWitnessProgram, hash.1.1.2, if_pos outside, ite_self]

def lastData (scriptSig : Bytes) : Bytes := ((ops scriptSig).1.getLast?.map Prod.snd).getD []

/-- The sigops that GetP2SHSigOpCount and CountWitnessSigOps attribute to an input. -/
def attributedSigOps (scriptSig scriptPubKey : Bytes) (witness : List Bytes) : Nat :=
  if isPayToScriptHash scriptPubKey then
    (getSigOpCountP2SH scriptPubKey scriptSig).toNat +
      if isPushOnly scriptSig then programSigOps witness (lastData scriptSig) else 0
  else programSigOps witness scriptPubKey

lemma verifyP2SHCounted_le (hash : isPayToScriptHash scriptPubKey = true)
    (first : evalScript crypto flags checker .BASE [] scriptSig = .ok sigState)
    (ran : verifyP2SHCounted crypto flags checker witness scriptSig hadWitness sigState.stack
      = .ok (result, calls)) : calls ≤ attributedSigOps scriptSig scriptPubKey witness := by
  have loop := (evalScript_ok.mp first).2.1
  obtain ⟨pushes, ran⟩ := require_bind_eq_ok.mp ran
  have present : scriptSig ≠ [] := by
    rintro rfl
    cases evalFrom_nil.mp loop
    cases ran
  obtain ⟨opcode, vch, top, below, last, shape, kind⟩ := evalFrom_pushOnly pushes present loop
  rw [shape] at ran
  obtain ⟨⟨state, made⟩, evaluated, ran⟩ := bind_eq_ok.mp ran
  obtain ⟨_, _, ran⟩ := bind_eq_ok.mp ran
  have redeem := evalScriptCounted_le true evaluated
  have data : lastData scriptSig = vch := by rw [lastData, last]; rfl
  have static : getSigOpCountP2SH scriptPubKey scriptSig = getSigOpCount true vch := by
    rw [getSigOpCountP2SH, hash, pushes, last]
    rfl
  rw [attributedSigOps, if_pos hash, if_pos pushes, data, static]
  -- A number as redeem script checks nothing.
  have counts : (getSigOpCount true top).toNat ≤ (getSigOpCount true vch).toNat ∧
      programSigOps witness top ≤ programSigOps witness vch := by
    rcases kind with rfl | ⟨quiet, plain⟩
    · exact ⟨le_rfl, le_rfl⟩
    · rw [quiet, programSigOps, plain]
      exact ⟨Nat.zero_le _, Nat.zero_le _⟩
  split_ifs at ran
  · obtain ⟨⟨_, later⟩, witnessed, done⟩ := bind_eq_ok.mp ran
    cases done
    have bound := verifyWitnessCounted_le witnessed
    omega
  · cases ran
    omega

lemma verifyScriptCounted_le
    (ran : verifyScriptCounted crypto flags checker scriptSig scriptPubKey witness = .ok calls) :
    calls ≤ (getSigOpCount false scriptSig).toNat + (getSigOpCount false scriptPubKey).toNat +
      attributedSigOps scriptSig scriptPubKey witness := by
  obtain ⟨⟨⟨hadWitness, stack⟩, made⟩, verified, ran⟩ := bind_eq_ok.mp ran
  obtain ⟨_, _, ran⟩ := bind_eq_ok.mp ran
  obtain ⟨_, _, done⟩ := bind_eq_ok.mp ran
  cases done
  obtain ⟨_, verified⟩ := require_bind_eq_ok.mp verified
  obtain ⟨⟨sigState, sigCalls⟩, first, verified⟩ := bind_eq_ok.mp verified
  obtain ⟨⟨state, pubCalls⟩, second, verified⟩ := bind_eq_ok.mp verified
  obtain ⟨_, _, verified⟩ := bind_eq_ok.mp verified
  obtain ⟨⟨⟨had, after⟩, witnessCalls⟩, witnessed, verified⟩ := bind_eq_ok.mp verified
  have sig := evalScriptCounted_le false first
  have pub := evalScriptCounted_le false second
  have early : witnessCalls ≤ programSigOps witness scriptPubKey := by
    split_ifs at witnessed
    · exact verifyWitnessCounted_le witnessed
    · cases witnessed
      exact Nat.zero_le _
  by_cases hash : isPayToScriptHash scriptPubKey = true
  · have none : programSigOps witness scriptPubKey = 0 := by
      rw [programSigOps, isWitnessProgram_payToScriptHash hash]
    split_ifs at verified
    · obtain ⟨⟨_, later⟩, redeemed, done⟩ := bind_eq_ok.mp verified
      cases done
      have bound := verifyP2SHCounted_le hash (evalScript_of_counted first) redeemed
      omega
    · cases verified
      omega
  · dsimp only at verified
    rw [if_neg (by simp [hash])] at verified
    cases verified
    rw [attributedSigOps, if_neg hash]
    omega

lemma countWitnessSigOps_eq (p2sh : flags .P2SH = true) (witnessed : flags .WITNESS = true)
    (scriptSig scriptPubKey : Bytes) (witness : List Bytes) :
    ∃ count, countWitnessSigOps flags scriptSig scriptPubKey witness = .ok count ∧
      attributedSigOps scriptSig scriptPubKey witness =
        (if isPayToScriptHash scriptPubKey then (getSigOpCountP2SH scriptPubKey scriptSig).toNat
          else 0) + count := by
  simp only [countWitnessSigOps, p2sh, witnessed, attributedSigOps, Bool.not_true, false_eq_true, if_false]
  by_cases hash : isPayToScriptHash scriptPubKey = true
  · rw [isWitnessProgram_payToScriptHash hash, if_pos hash, if_pos hash, hash, Bool.true_and]
    cases isPushOnly scriptSig with
    | false => exact ⟨0, rfl, rfl⟩
    | true =>
      simp only [if_true, programSigOps, lastData]
      cases isWitnessProgram (((ops scriptSig).1.getLast?.map Prod.snd).getD []) with
      | none => exact ⟨0, rfl, rfl⟩
      | some program => exact ⟨_, rfl, rfl⟩
  · rw [if_neg hash, if_neg hash, eq_false_iff.mpr hash, Bool.false_and, programSigOps]
    cases isWitnessProgram scriptPubKey with
    | none => exact ⟨0, rfl, rfl⟩
    | some program => exact ⟨_, rfl, (zero_add _).symm⟩

end Calls

section Inputs
variable (crypto : Crypto) (flags : ScriptFlags)

def checkSigCalls (checker : BaseSignatureChecker) (input : CTxIn × Coin) : Nat :=
  match verifyScriptCounted crypto flags checker input.1.scriptSig input.2.out.scriptPubKey
      input.1.scriptWitness with
  | .ok calls => calls
  | .error _ => 0

/-- GetSigOpCount of the scriptSig and the scriptPubKey that an input runs. -/
def legacySigOps (input : CTxIn × Coin) : Nat :=
  (getSigOpCount false input.1.scriptSig).toNat + (getSigOpCount false input.2.out.scriptPubKey).toNat

def p2shSigOpsOf (input : CTxIn × Coin) : Nat := (p2shSigOps 0 input).toNat

def witnessSigOpsOf (input : CTxIn × Coin) : Nat :=
  match countWitnessSigOps flags input.1.scriptSig input.2.out.scriptPubKey input.1.scriptWitness with
  | .ok count => count
  | .error _ => 0

variable {crypto flags} {inputs : List (CTxIn × Coin)} {input : CTxIn × Coin}

lemma checkSigCalls_le (p2sh : flags .P2SH = true) (witnessed : flags .WITNESS = true)
    (passes : verifyScript crypto flags checker input.1.scriptSig input.2.out.scriptPubKey
      input.1.scriptWitness = .ok ()) : checkSigCalls crypto flags checker input ≤
      legacySigOps input + p2shSigOpsOf input + witnessSigOpsOf flags input := by
  rw [← map_verifyScriptCounted] at passes
  obtain ⟨calls, counted, _⟩ := map_eq_ok passes
  have bound := verifyScriptCounted_le counted
  obtain ⟨count, found, split⟩ := countWitnessSigOps_eq p2sh witnessed input.1.scriptSig
    input.2.out.scriptPubKey input.1.scriptWitness
  have contribution : p2shSigOpsOf input = if isPayToScriptHash input.2.out.scriptPubKey then
      (getSigOpCountP2SH input.2.out.scriptPubKey input.1.scriptSig).toNat else 0 := by
    simp only [p2shSigOpsOf, p2shSigOps]
    split_ifs
    · rw [UInt32.zero_add]
    · rfl
  rw [checkSigCalls, counted, witnessSigOpsOf, found, contribution]
  dsimp only
  unfold legacySigOps
  omega

lemma foldl_p2shSigOps (nSigOps : UInt32) (inputs : List (CTxIn × Coin)) :
    (inputs.foldl p2shSigOps nSigOps).toNat = (nSigOps.toNat + (inputs.map p2shSigOpsOf).sum) % 2 ^ 32 := by
  induction inputs generalizing nSigOps with
  | nil => exact (Nat.mod_eq_of_lt nSigOps.toNat_lt).symm
  | cons input rest ih =>
    have step : p2shSigOps nSigOps input = nSigOps + p2shSigOps 0 input := by
      simp only [p2shSigOps]
      split_ifs
      · rw [UInt32.zero_add]
      · rw [UInt32.add_zero]
    rw [foldl_cons, step, ih, UInt32.toNat_add, Nat.mod_add_mod, map_cons, sum_cons, p2shSigOpsOf, add_assoc]

lemma getSigOpCount_le : (getSigOpCount fAccurate script).toNat ≤ MAX_PUBKEYS_PER_MULTISIG * script.length := by
  rw [getSigOpCount, foldl_countSigOp]
  refine (Nat.mod_le _ _).trans ?_
  rw [show (0 : UInt32).toNat = 0 from rfl, zero_add]
  exact (sigOpsFrom_le _ _ _).trans (Nat.mul_le_mul_left _ (length_parseOps_le _ _))

lemma length_data_le {operation : UInt8 × Bytes} (member : operation ∈ (parseOps fuel pc).1) :
    operation.2.length ≤ pc.length := by
  induction fuel generalizing pc with
  | zero => cases member
  | succ fuel ih =>
    rw [parseOps] at member
    split_ifs at member
    · cases member
    · cases parsed : getOp pc with
      | none =>
        rw [parsed] at member
        cases member
      | some op =>
        obtain ⟨opcode, vch, rest⟩ := op
        rw [parsed] at member
        have shorter := getOp_length parsed
        rcases mem_cons.mp member with rfl | later
        · show vch.length ≤ pc.length
          omega
        · exact (ih later).trans (by omega)

lemma length_lastData_le : (lastData scriptSig).length ≤ scriptSig.length := by
  rw [lastData]
  cases last : (ops scriptSig).1.getLast? with
  | none => exact Nat.zero_le _
  | some operation => exact length_data_le (mem_of_getLast? last)

lemma p2shSigOpsOf_le : p2shSigOpsOf input ≤ MAX_PUBKEYS_PER_MULTISIG * input.1.scriptSig.length := by
  simp only [p2shSigOpsOf, p2shSigOps]
  split_ifs with hash
  · rw [UInt32.zero_add, getSigOpCountP2SH, if_neg (by simp [hash])]
    split_ifs
    · exact Nat.zero_le _
    · exact getSigOpCount_le.trans (Nat.mul_le_mul_left _ length_lastData_le)
  · exact Nat.zero_le _

lemma sum_scriptSig_le (tx : CTransaction) : (tx.vin.map fun txin => txin.scriptSig.length).sum ≤
      (serializeTransaction false tx).length := by
  have inputs : (tx.vin.map fun txin => txin.scriptSig.length).sum ≤ (tx.vin.flatMap serializeTxIn).length := by
    rw [length_flatMap]
    apply sum_le_sum
    intro txin _
    simp only [serializeTxIn, serializeBytes, length_append]
    omega
  simp only [serializeTransaction, serializeVector, length_append]
  omega

/-- A transaction within the size limit of CheckTransaction does not wrap the unsigned
int of GetP2SHSigOpCount. -/
lemma foldl_p2shSigOps_exact {tx : CTransaction} (spends : inputs.map Prod.fst = tx.vin)
    (sized : ¬ (serializeTransaction false tx).length * WITNESS_SCALE_FACTOR >
      MAX_BLOCK_WEIGHT) : (inputs.foldl p2shSigOps 0).toNat = (inputs.map p2shSigOpsOf).sum := by
  have each : (inputs.map p2shSigOpsOf).sum ≤
      MAX_PUBKEYS_PER_MULTISIG * (tx.vin.map fun txin => txin.scriptSig.length).sum := by
    rw [← spends, map_map, ← sum_map_mul_left]
    exact sum_le_sum fun input _ => p2shSigOpsOf_le
  have total := sum_scriptSig_le tx
  have most : MAX_PUBKEYS_PER_MULTISIG = 20 := rfl
  have weight : MAX_BLOCK_WEIGHT = 64000000 := rfl
  have factor : WITNESS_SCALE_FACTOR = 4 := rfl
  rw [most] at each
  rw [weight, factor] at sized
  rw [foldl_p2shSigOps, show (0 : UInt32).toNat = 0 from rfl, zero_add]
  apply Nat.mod_eq_of_lt
  omega

/-- The CheckSig calls that verify a transaction, against the sigops attributed to it. -/
theorem checkSig_calls_bounded (crypto : Crypto) (flags : ScriptFlags)
    (p2sh : flags .P2SH = true) (witnessed : flags .WITNESS = true) (tx : CTransaction)
    (inputs : List (CTxIn × Coin)) (spends : inputs.map Prod.fst = tx.vin)
    (checker : Nat → BaseSignatureChecker) (passes : ∀ nIn input, inputs[nIn]? = some input →
      verifyScript crypto flags (checker nIn) input.1.scriptSig input.2.out.scriptPubKey
        input.1.scriptWitness = .ok ()) :
    (inputs.mapIdx fun nIn => checkSigCalls crypto flags (checker nIn)).sum ≤
        (inputs.map legacySigOps).sum + (inputs.map p2shSigOpsOf).sum + (inputs.map (witnessSigOpsOf flags)).sum ∧
      (¬ (serializeTransaction false tx).length * WITNESS_SCALE_FACTOR > MAX_BLOCK_WEIGHT →
        (inputs.foldl p2shSigOps 0).toNat = (inputs.map p2shSigOpsOf).sum) := by
  refine ⟨?_, foldl_p2shSigOps_exact spends⟩
  clear spends
  induction inputs generalizing checker with
  | nil => exact Nat.zero_le _
  | cons input rest ih =>
    have here := checkSigCalls_le p2sh witnessed (passes 0 input rfl)
    have later := ih (fun nIn => checker (nIn + 1)) fun nIn input found => passes (nIn + 1) input found
    simp only [mapIdx_cons, map_cons, sum_cons]
    omega

end Inputs

namespace RedeemCheckSig

def flags : ScriptFlags := fun flag => flag = .P2SH ∨ flag = .WITNESS

def txin : CTxIn := ⟨⟨Uint256.filled 3, 0⟩, [1, 7, 1, 8, 1, OP_CHECKSIG], 0xffffffff, []⟩

def coin : Coin := ⟨⟨1000, [OP_HASH160, 0x14] ++ replicate 20 0 ++ [OP_EQUAL]⟩, false, 1⟩

def tx : CTransaction := ⟨[txin], [⟨1000, [OP_1]⟩], 1, 0⟩

def inputs : List (CTxIn × Coin) := [(txin, coin)]

theorem one_call : checkSigCalls Crypto.zeros flags acceptingChecker (txin, coin) = 1 ∧
      (inputs.mapIdx fun _ => checkSigCalls Crypto.zeros flags acceptingChecker).sum ≤
        (inputs.map legacySigOps).sum + (inputs.map p2shSigOpsOf).sum +
          (inputs.map (witnessSigOpsOf flags)).sum := by
  have passes : ∀ (nIn : Nat) (input : CTxIn × Coin), inputs[nIn]? = some input →
      verifyScript Crypto.zeros flags acceptingChecker input.1.scriptSig input.2.out.scriptPubKey
        input.1.scriptWitness = .ok () := by
    intro nIn input found
    obtain rfl : input = (txin, coin) := mem_singleton.mp (mem_of_getElem? found)
    decide +kernel
  exact ⟨by decide +kernel, (checkSig_calls_bounded Crypto.zeros flags rfl rfl tx inputs rfl
    (fun _ => acceptingChecker) passes).1⟩

end RedeemCheckSig

end Dragonchain.Script
