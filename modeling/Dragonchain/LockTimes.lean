import Dragonchain.BlockCheck
import Dragonchain.ScriptRuns
import Dragonchain.TransactionChecker

/-!
Lock times from the script to the block. CHECKLOCKTIMEVERIFY and CHECKSEQUENCEVERIFY
only compare their operand with fields of the transaction; that the block is late
enough follows from IsFinalTx and SequenceLocks on these fields.
-/

namespace Dragonchain.Script

open Outcome List Nat

variable {state next final : EvalState}
  {nLockTime nSequence nCoinHeight nBlockHeight nBlockTime : Int} {vch rest pc : Bytes}
  {prevHeights : List Int}

section Machine
variable (crypto : Crypto) (flags : ScriptFlags) (checker : BaseSignatureChecker)
  (sigversion : SigVersion)

/-- The loop of EvalScript executes an opcode on a stack. -/
inductive Executes : Bytes → EvalState → Opcode → Stack → Prop
  | here {pc vch rest : Bytes} {opcode : UInt8} {state : EvalState}
      (parsed : getOp pc = some (opcode, vch, rest)) (executed : state.vfExec.all id = true)
      (operation : OP_PUSHDATA4 < opcode) : Executes pc state (decode opcode) state.stack
  | later {pc vch rest : Bytes} {opcode : UInt8} {state next : EvalState} {operation : Opcode}
      {stack : Stack} (parsed : getOp pc = some (opcode, vch, rest))
      (step : evalStep crypto flags checker sigversion state opcode vch rest = .ok next)
      (onward : Executes rest next operation stack) : Executes pc state operation stack

end Machine

variable {crypto : Crypto} {flags : ScriptFlags} {checker : BaseSignatureChecker}
  {sigversion : SigVersion}

lemma evalStep_executed {opcode : UInt8} (executed : state.vfExec.all id = true) (operation : OP_PUSHDATA4 < opcode)
    (step : evalStep crypto flags checker sigversion state opcode vch rest = .ok next) :
    ∃ before, before.stack = state.stack ∧
      execOpcode crypto flags checker sigversion true rest before (decode opcode) = .ok next := by
  obtain ⟨nOpCount, _, step⟩ := bind_eq_ok.mp step
  obtain ⟨last, ran, step⟩ := bind_eq_ok.mp step
  obtain ⟨_, same⟩ := require_bind_eq_ok.mp step
  cases same
  rw [executed, runOpcode, if_neg, if_pos] at ran
  · exact ⟨{ state with nOpCount }, rfl, ran⟩
  · rfl
  · simpa using operation

variable {stack : Stack} {pindexPrev : Ancestry}

/-- In a script that passes, every opcode that is executed succeeds. -/
lemma Executes.succeeds {operation : Opcode}
    (reached : Executes crypto flags checker sigversion pc state operation stack)
    (passes : evalFrom crypto flags checker sigversion pc state = .ok final) :
    ∃ before rest next, before.stack = stack ∧
      execOpcode crypto flags checker sigversion true rest before operation = .ok next := by
  induction reached with
  | here parsed executed operation =>
    obtain ⟨next, step, _⟩ := (evalFrom_next parsed).mp passes
    obtain ⟨before, same, ran⟩ := evalStep_executed executed operation step
    exact ⟨before, _, next, same, ran⟩
  | later parsed step _ ih =>
    obtain ⟨next', step', onward⟩ := (evalFrom_next parsed).mp passes
    rw [step] at step'
    cases step'
    exact ih onward

def operand (flags : ScriptFlags) (stack : Stack) : Eval Int := do
  let vch ← stacktop stack (-1)
  toScriptNum vch (flags .MINIMALDATA) 5

lemma checkLockTimeVerify_ok (enabled : flags .CHECKLOCKTIMEVERIFY = true)
    (read : operand flags stack = .ok nLockTime) (passes : checkLockTimeVerify flags checker stack = .ok ()) :
    0 ≤ nLockTime ∧ checker.checkLockTime nLockTime = true := by
  rw [checkLockTimeVerify, enabled] at passes
  obtain ⟨_, passes⟩ := require_bind_eq_ok.mp passes
  obtain ⟨vch, top, passes⟩ := bind_eq_ok.mp passes
  obtain ⟨value, decoded, passes⟩ := bind_eq_ok.mp passes
  rw [operand, top] at read
  cases decoded.symm.trans read
  obtain ⟨positive, checked⟩ := require_bind_eq_ok.mp passes
  exact ⟨by simpa using positive, require_eq_ok.mp checked⟩

lemma checkSequenceVerify_ok
    (enabled : flags .CHECKSEQUENCEVERIFY = true) (read : operand flags stack = .ok nSequence)
    (used : nSequence.toNat.testBit 31 = false) (passes : checkSequenceVerify flags checker stack = .ok ()) :
    0 ≤ nSequence ∧ checker.checkSequence nSequence = true := by
  rw [checkSequenceVerify, enabled] at passes
  obtain ⟨_, passes⟩ := require_bind_eq_ok.mp passes
  obtain ⟨vch, top, passes⟩ := bind_eq_ok.mp passes
  obtain ⟨value, decoded, passes⟩ := bind_eq_ok.mp passes
  rw [operand, top] at read
  cases decoded.symm.trans read
  obtain ⟨positive, checked⟩ := require_bind_eq_ok.mp passes
  rw [used] at checked
  exact ⟨by simpa using positive, require_eq_ok.mp checked⟩

namespace TransactionSignatureChecker
variable {checker : TransactionSignatureChecker}

lemma checkLockTime_ok (checked : checker.checkLockTime nLockTime = true) :
    (nLockTime < LOCKTIME_THRESHOLD ↔ checker.txTo.nLockTime.toNat < LOCKTIME_THRESHOLD) ∧
      nLockTime ≤ checker.txTo.nLockTime.toNat ∧ checker.txin.nSequence ≠ SEQUENCE_FINAL := by
  rw [checkLockTime] at checked
  split_ifs at checked with kinds late
  refine ⟨?_, by omega, bne_iff_ne.mp checked⟩
  simp only [Bool.not_eq_true', Bool.or_eq_false_iff, not_and, Bool.and_eq_false_iff,
    decide_eq_false_iff_not] at kinds
  omega

lemma toBase_checkLockTime (arithmetic : Falcon.Arithmetic) :
    (checker.toBase crypto arithmetic).checkLockTime = checker.checkLockTime := by
  simp [toBase]

lemma txin_mem : checker.txin ∈ checker.txTo.vin := get_mem _ _

lemma txin_mem_zip (checker : TransactionSignatureChecker)
    (coin : prevHeights[checker.nIn.val]? = some nCoinHeight) :
    (checker.txin, nCoinHeight) ∈ checker.txTo.vin.zip prevHeights := by
  apply mem_of_getElem? (i := checker.nIn.val)
  rw [getElem?_zip_eq_some]
  exact ⟨getElem?_eq_getElem checker.nIn.isLt, coin⟩

/-- A transaction that is final in a block after the genesis block has reached the
operand: by its lock time, or because that is zero. -/
lemma checkLockTime_isFinalTx (checked : checker.checkLockTime nLockTime = true) (positive : 0 ≤ nLockTime)
    (later : 0 < nBlockHeight) (final : isFinalTx checker.txTo nBlockHeight nBlockTime = true) :
    nLockTime < if nLockTime < LOCKTIME_THRESHOLD then nBlockHeight else nBlockTime := by
  obtain ⟨kind, reached, open'⟩ := checkLockTime_ok checked
  rw [isFinalTx] at final
  by_cases zero : checker.txTo.nLockTime = 0
  · have start : nLockTime = 0 := by
      rw [zero] at reached
      exact le_antisymm reached positive
    rw [start, if_pos (by decide)]
    exact later
  · rw [if_neg zero] at final
    by_cases passed : (checker.txTo.nLockTime.toNat : Int) <
        if checker.txTo.nLockTime.toNat < LOCKTIME_THRESHOLD then nBlockHeight else nBlockTime
    · simp only [kind]
      exact lt_of_le_of_lt reached passed
    · rw [if_neg passed] at final
      have closed := all_eq_true.mp final checker.txin txin_mem
      exact absurd (beq_iff_eq.mp closed) open'

lemma and_sequenceMask (nSequence : Nat) :
    nSequence &&& sequenceMask = 2 ^ 22 * (nSequence.testBit 22).toNat + nSequence % 2 ^ 16 := by
  have small : nSequence % 2 ^ 16 < 2 ^ 22 := (mod_lt _ (by decide)).trans (by decide)
  rw [two_pow_add_eq_or_of_lt small, sequenceMask, and_or_distrib_left]
  congr 1
  · rw [mul_comm]
    exact and_two_pow nSequence 22
  · exact and_two_pow_sub_one_eq_mod nSequence 16

lemma checkSequence_ok (checked : checker.checkSequence nSequence = true) :
    2 ≤ checker.txTo.nVersion.toUInt32 ∧ checker.txin.nSequence.toNat.testBit 31 = false ∧
      checker.txin.nSequence.toNat.testBit 22 = nSequence.toNat.testBit 22 ∧
      nSequence.toNat % 2 ^ 16 ≤ checker.txin.nSequence.toNat % 2 ^ 16 := by
  rw [checkSequence] at checked
  split_ifs at checked with version disabled kinds
  have flag : SEQUENCE_LOCKTIME_TYPE_FLAG = 2 ^ 22 := rfl
  have low' := mod_lt checker.txin.nSequence.toNat (show 2 ^ 16 > 0 by decide)
  simp only [and_sequenceMask, flag] at checked kinds
  refine ⟨UInt32.not_lt.mp version, ?_, ?_⟩
  · have bit := and_two_pow checker.txin.nSequence.toNat 31
    rw [show SEQUENCE_LOCKTIME_DISABLE_FLAG = 2 ^ 31 from rfl, bit] at disabled
    cases set : checker.txin.nSequence.toNat.testBit 31 with
    | false => rfl
    | true =>
      rw [set] at disabled
      exact absurd (by decide) disabled
  · -- Both are above the type flag or both are below it.
    cases kind : nSequence.toNat.testBit 22 <;>
      cases kind' : checker.txin.nSequence.toNat.testBit 22 <;>
      simp only [kind, kind', Bool.toNat_true, Bool.toNat_false, decide_eq_true_eq, ge_iff_le,
        Bool.not_eq_true', Bool.or_eq_false_iff, Bool.and_eq_false_iff, decide_eq_false_iff_not]
        at checked kinds <;>
      first
        | exact ⟨rfl, by omega⟩
        | omega

end TransactionSignatureChecker

open TransactionSignatureChecker

/-- What SequenceLocks has to wait for because of one input. -/
def Awaits (block : Ancestry) (txin : CTxIn) (nCoinHeight : Int) (lock : Int × Int) : Prop :=
  txin.nSequence.toNat.testBit 31 = false →
    if txin.nSequence.toNat.testBit 22 then
      ∃ ancestor, block.getAncestor (max (nCoinHeight - 1) 0) = some ancestor ∧
        ancestor.getMedianTimePast + (512 * (txin.nSequence.toNat % 2 ^ 16) : Nat) - 1 ≤ lock.2
    else nCoinHeight + (txin.nSequence.toNat % 2 ^ 16 : Nat) - 1 ≤ lock.1

variable {txin : CTxIn} {lock lock' : Int × Int}

lemma Awaits.mono {block : Ancestry} (awaits : Awaits block txin nCoinHeight lock) (height : lock.1 ≤ lock'.1)
    (time : lock.2 ≤ lock'.2) : Awaits block txin nCoinHeight lock' := by
  intro used
  have bound := awaits used
  split_ifs at bound ⊢
  · obtain ⟨ancestor, found, reached⟩ := bound
    exact ⟨ancestor, found, reached.trans time⟩
  · exact bound.trans height

lemma toNat_masked (nSequence : UInt32) :
    (nSequence &&& SEQUENCE_LOCKTIME_MASK).toNat = nSequence.toNat % 2 ^ 16 := by
  exact and_two_pow_sub_one_eq_mod _ 16

lemma sequenceLock_awaits {block : Ancestry} (done : sequenceLock block lock (txin, nCoinHeight) = some lock') :
    lock.1 ≤ lock'.1 ∧ lock.2 ≤ lock'.2 ∧ Awaits block txin nCoinHeight lock' := by
  rw [sequenceLock, toNat_masked] at done
  unfold Awaits
  cases disabled : txin.nSequence.toNat.testBit 31 with
  | true =>
    rw [disabled, if_pos rfl] at done
    cases done
    exact ⟨le_rfl, le_rfl, (absurd · Bool.true_eq_false.mp)⟩
  | false =>
    cases kind : txin.nSequence.toNat.testBit 22 with
    | true =>
      rw [disabled, kind, if_neg (by decide), if_pos rfl] at done
      obtain ⟨ancestor, found, same⟩ := Option.bind_eq_some_iff.mp done
      cases same
      refine ⟨le_rfl, le_max_left _ _, fun _ => ?_⟩
      refine ⟨ancestor, found, le_trans (le_of_eq ?_) (le_max_right _ _)⟩
      rw [SEQUENCE_LOCKTIME_GRANULARITY, shiftLeft_eq, mul_comm]
    | false =>
      rw [disabled, kind, if_neg (by decide), if_neg (by decide)] at done
      cases done
      exact ⟨le_max_left _ _, le_rfl, fun _ => le_max_right _ _⟩

lemma foldlM_sequenceLock {block : Ancestry} {inputs : List (CTxIn × Int)}
    (done : inputs.foldlM (sequenceLock block) lock = some lock') :
    lock.1 ≤ lock'.1 ∧ lock.2 ≤ lock'.2 ∧ ∀ input ∈ inputs, Awaits block input.1 input.2 lock' := by
  induction inputs generalizing lock with
  | nil =>
    cases done
    exact ⟨le_rfl, le_rfl, by simp⟩
  | cons input rest ih =>
    obtain ⟨next, here, onward⟩ := Option.bind_eq_some_iff.mp done
    obtain ⟨height, time, awaits⟩ := sequenceLock_awaits here
    obtain ⟨height', time', others⟩ := ih onward
    refine ⟨height.trans height', time.trans time', ?_⟩
    intro other member
    rcases mem_cons.mp member with rfl | later
    · exact awaits.mono height' time'
    · exact others other later

lemma sequenceLocks_awaits {tx : CTransaction} {block : Ancestry}
    (version : 2 ≤ tx.nVersion.toUInt32) (passed : sequenceLocks tx true prevHeights block = some true)
    (input : (txin, nCoinHeight) ∈ tx.vin.zip prevHeights) :
    Awaits block txin nCoinHeight (block.nHeight - 1, Ancestry.getMedianTimePast block.tail - 1) := by
  obtain ⟨lock, calculated, evaluated⟩ := Option.map_eq_some_iff.mp passed
  have enforced : (decide (tx.nVersion.toUInt32 ≥ 2) && true) = true := by simpa using version
  rw [calculateSequenceLocks, enforced] at calculated
  have awaits := (foldlM_sequenceLock calculated).2.2 _ input
  simp only [evaluateSequenceLocks, Bool.not_eq_true', Bool.or_eq_false_iff,
    decide_eq_false_iff_not, ge_iff_le, not_le] at evaluated
  exact awaits.mono (Int.le_sub_one_of_lt evaluated.1) (Int.le_sub_one_of_lt evaluated.2)

lemma contextualCheckBlock_isFinalTx {params : Consensus.Params} {block : CBlock} {tx : CTransaction}
    (passed : contextualCheckBlock crypto params block pindexPrev = .ok ())
    (member : tx ∈ block.vtx) : isFinalTx tx (pindexPrev.nHeight + 1)
      (if params.csvActive pindexPrev then pindexPrev.getMedianTimePast else block.nTime.toNat) = true := by
  obtain ⟨_, finals, _⟩ := ok_of_bind passed
  exact all_eq_true.mp (check_ok finals) tx member

/-- Both lock time opcodes hold the block to their operand. The block has a
predecessor: the genesis block spends no coin. -/
theorem lockTimes_enforced (crypto : Crypto) (arithmetic : Falcon.Arithmetic)
    (params : Consensus.Params) (checker : TransactionSignatureChecker) (flags : ScriptFlags)
    (sigversion : SigVersion) (stack : Stack) (script : Bytes) (final : EvalState)
    (passes : evalScript crypto flags (checker.toBase crypto arithmetic) sigversion stack script = .ok final) :
    (∀ arguments n, Executes crypto flags (checker.toBase crypto arithmetic) sigversion script
        (running script stack 0) .OP_CHECKLOCKTIMEVERIFY arguments →
      flags .CHECKLOCKTIMEVERIFY = true → operand flags arguments = .ok n →
      ∀ (block : CBlock) (pindex : IndexEntry) (pprev : Ancestry), checker.txTo ∈ block.vtx →
      contextualCheckBlock crypto params block (pindex :: pprev) = .ok () →
      n < if n < LOCKTIME_THRESHOLD then Ancestry.nHeight (pindex :: pprev) + 1
        else if params.csvActive (pindex :: pprev) then
          Ancestry.getMedianTimePast (pindex :: pprev)
        else block.nTime.toNat) ∧
    ∀ arguments n, Executes crypto flags (checker.toBase crypto arithmetic) sigversion script
        (running script stack 0) .OP_CHECKSEQUENCEVERIFY arguments →
      flags .CHECKSEQUENCEVERIFY = true → operand flags arguments = .ok n →
      n.toNat.testBit 31 = false →
      ∀ (prevHeights : List Int) (nCoinHeight : Int) (block : Ancestry),
      prevHeights[checker.nIn.val]? = some nCoinHeight →
      sequenceLocks checker.txTo true prevHeights block = some true →
      if n.toNat.testBit 22 then
        ∃ ancestor, block.getAncestor (max (nCoinHeight - 1) 0) = some ancestor ∧
          ancestor.getMedianTimePast + (512 * (n.toNat % 2 ^ 16) : Nat) ≤ Ancestry.getMedianTimePast block.tail
      else nCoinHeight + (n.toNat % 2 ^ 16 : Nat) ≤ block.nHeight := by
  have ran := (evalScript_ok.mp passes).2.1
  constructor
  · intro arguments n reached enabled read block pindex pprev member checked
    obtain ⟨before, rest, next, same, executed⟩ := reached.succeeds ran
    subst same
    obtain ⟨_, verified, _⟩ := bind_eq_ok.mp executed
    obtain ⟨positive, compared⟩ := checkLockTimeVerify_ok enabled read verified
    have later : 0 < Ancestry.nHeight (pindex :: pprev) + 1 := by
      rw [Ancestry.nHeight, length_cons]
      omega
    rw [toBase_checkLockTime] at compared
    exact checkLockTime_isFinalTx compared positive later (contextualCheckBlock_isFinalTx checked member)
  · intro arguments n reached enabled read used prevHeights nCoinHeight block coin passed
    obtain ⟨before, rest, next, same, executed⟩ := reached.succeeds ran
    subst same
    obtain ⟨_, verified, _⟩ := bind_eq_ok.mp executed
    obtain ⟨_, compared⟩ := checkSequenceVerify_ok enabled read used verified
    obtain ⟨version, enabled', kind, bound⟩ := checkSequence_ok compared
    have awaits := sequenceLocks_awaits version passed (checker.txin_mem_zip coin)
    have waited := awaits enabled'
    rw [kind] at waited
    split_ifs at waited ⊢
    · obtain ⟨ancestor, found, reached⟩ := waited
      exact ⟨ancestor, found, by omega⟩
    · omega

deriving instance DecidableEq for EvalState

namespace FiveBlocks

def script : Bytes := [1, 5, 0xb1, 0xb2]

def tx : CTransaction := ⟨[⟨⟨Uint256.filled 3, 0⟩, [], 5, []⟩], [⟨1000, [OP_1]⟩], 2, 5⟩

def input : TransactionSignatureChecker := ⟨tx, ⟨0, by decide⟩, 1000, none⟩

def enforced : ScriptFlags := fun flag => flag = .CHECKLOCKTIMEVERIFY ∨ flag = .CHECKSEQUENCEVERIFY

def params : Consensus.Params := { Consensus.Params.easy with BIP34Height := 1000 }

def index (number : UInt8) : IndexEntry :=
  ⟨Uint256.filled number, ⟨1, Uint256.null, Uint256.null, number.toUInt32, 0, 0⟩⟩

def below : Ancestry := [index 4, index 3, index 2, index 1, index 0]

def block : CBlock := ⟨⟨1, Uint256.filled 5, Uint256.null, 6, 0, 0⟩, [tx]⟩

lemma passes : evalScript Crypto.zeros enforced (input.toBase Crypto.zeros (Resigned.arithmetic 0)) .BASE []
      script = .ok ⟨[[5]], [], [], 2, script⟩ := by
  decide +kernel

lemma parsed : getOp script = some (1, [5], [0xb1, 0xb2]) := by decide

lemma parsed_rest : getOp [0xb1, 0xb2] = some (0xb1, [], [0xb2]) := by decide

lemma pushed : evalStep Crypto.zeros enforced (input.toBase Crypto.zeros (Resigned.arithmetic 0)) .BASE
      (running script [] 0) 1 [5] [0xb1, 0xb2] = .ok (running script [[5]] 0) := by
  decide +kernel

lemma executes_lockTime :
    Executes Crypto.zeros enforced (input.toBase Crypto.zeros (Resigned.arithmetic 0)) .BASE script
      (running script [] 0) .OP_CHECKLOCKTIMEVERIFY [[5]] :=
  .later parsed pushed (.here parsed_rest rfl (by decide))

lemma executes_sequence :
    Executes Crypto.zeros enforced (input.toBase Crypto.zeros (Resigned.arithmetic 0)) .BASE script
      (running script [] 0) .OP_CHECKSEQUENCEVERIFY [[5]] := by
  have verified : evalStep Crypto.zeros enforced
      (input.toBase Crypto.zeros (Resigned.arithmetic 0)) .BASE
      (running script [[5]] 0) 0xb1 [] [0xb2] = .ok (running script [[5]] 1) := by
    decide +kernel
  have parsed_last : getOp [0xb2] = some (0xb2, [], []) := by decide
  exact .later parsed pushed (.later parsed_rest verified (.here parsed_last rfl (by decide)))

theorem height_and_age : (5 : Int) < Ancestry.nHeight (index 5 :: below) + 1 ∧
      (1 : Int) + (5 : Nat) ≤ Ancestry.nHeight (index 6 :: index 5 :: below) := by
  have enforcement := lockTimes_enforced Crypto.zeros (Resigned.arithmetic 0) params input enforced
    .BASE [] script _ passes
  have read : operand enforced [[5]] = .ok 5 := by decide
  have final : contextualCheckBlock Crypto.zeros params block (index 5 :: below) = .ok () := by decide +kernel
  have waited : sequenceLocks input.txTo true [1] (index 6 :: index 5 :: below) = some true := by decide +kernel
  exact ⟨enforcement.1 [[5]] 5 executes_lockTime (by decide) read block (index 5) below mem_cons_self final,
    enforcement.2 [[5]] 5 executes_sequence (by decide) read (by decide) [1] 1 _ rfl waited⟩

end FiveBlocks

end Dragonchain.Script
