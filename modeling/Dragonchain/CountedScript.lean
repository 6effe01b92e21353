import Dragonchain.ScriptRuns

/-!
VerifyScript with a count of its CheckSig calls. Only CHECKSIG and the loop of
CHECKMULTISIG call the checker; everything else is the interpreter as it is. Each
counted function gives back the original one when its count is dropped.
-/

namespace Dragonchain.Script

open Outcome

section Counted
variable (crypto : Crypto) (flags : ScriptFlags) (checker : BaseSignatureChecker)
  (sigversion : SigVersion)

/-- `matchSignatures`, where each turn is one call. -/
def matchSignaturesCounted (stack : Stack) (scriptCode : Bytes) :
    Nat → (isig ikey nSigsCount nKeysCount : Int) → Eval (Bool × Nat)
  | 0, _, _, nSigsCount, _ => if nSigsCount > 0 then crash .loopBound else pure (true, 0)
  | fuel + 1, isig, ikey, nSigsCount, nKeysCount =>
    if nSigsCount > 0 then do
      let vchSig ← stacktop stack (-isig)
      let vchPubKey ← stacktop stack (-ikey)
      checkSignatureEncoding crypto flags vchSig
      checkPubKeyEncoding flags sigversion vchPubKey
      let fOk := checker.checkSig vchSig vchPubKey scriptCode sigversion
      let isig ← int32If fOk isig 1
      let nSigsCount ← int32If fOk nSigsCount (-1)
      let ikey ← int32 (ikey + 1)
      let nKeysCount ← int32 (nKeysCount - 1)
      if nSigsCount > nKeysCount then pure (false, 1)
      else do
        let (fSuccess, calls) ← matchSignaturesCounted stack scriptCode fuel isig ikey nSigsCount nKeysCount
        pure (fSuccess, calls + 1)
    else pure (true, 0)

def checkMultiSigCounted (verify : Bool) (scriptCode : Bytes) (nOpCount : Int) (stack : Stack) :
    Eval ((Int × Stack) × Nat) := do
  let (nOpCount, nKeysCount, nSigsCount, i) ← multiSigCounts flags nOpCount stack
  let ikey2 ← int32 (nKeysCount + 2)
  let isig ← int32 (nKeysCount + 3)
  let scriptCode ← dropSignatures flags sigversion stack isig nSigsCount.toNat 0 scriptCode
  let (fSuccess, calls) ← matchSignaturesCounted crypto flags checker sigversion stack scriptCode
    (nKeysCount.toNat + 1) isig 2 nSigsCount nKeysCount
  let stack ← popArguments flags fSuccess (i - 1).toNat ikey2 stack
  require (stack.length ≥ 1) .INVALID_STACK_OPERATION
  let vch ← stacktop stack (-1)
  require (!(flags .NULLDUMMY && vch.length != 0)) .SIG_NULLDUMMY
  let stack ← popstack stack
  let stack := vchBool fSuccess :: stack
  if verify then do
    require fSuccess .CHECKMULTISIGVERIFY
    let stack ← popstack stack
    pure ((nOpCount, stack), calls)
  else pure ((nOpCount, stack), calls)

/-- CHECKSIG makes one call, on the way to any result. -/
def execOpcodeCounted (fExec : Bool) (pc : Bytes) (state : EvalState) (opcode : Opcode) : Eval (EvalState × Nat) :=
  match opcode with
  | .OP_CHECKSIG verify => do
    let stack ← checkSigOp crypto flags checker sigversion verify state.pbegincodehash state.stack
    pure ({ state with stack }, 1)
  | .OP_CHECKMULTISIG verify => do
    let ((nOpCount, stack), calls) ← checkMultiSigCounted crypto flags checker sigversion verify
      state.pbegincodehash state.nOpCount state.stack
    pure ({ state with nOpCount, stack }, calls)
  | opcode => do
    let state ← execOpcode crypto flags checker sigversion fExec pc state opcode
    pure (state, 0)

def runOpcodeCounted (fExec : Bool) (state : EvalState) (opcode : UInt8) (vchPushValue pc : Bytes) :
    Eval (EvalState × Nat) :=
  if fExec && opcode ≤ OP_PUSHDATA4 then do
    require (!(flags .MINIMALDATA && !checkMinimalPush vchPushValue opcode)) .MINIMALDATA
    pure ({ state with stack := vchPushValue :: state.stack }, 0)
  else if fExec || (0x63 ≤ opcode && opcode ≤ 0x68) then
    execOpcodeCounted crypto flags checker sigversion fExec pc state (decode opcode)
  else pure (state, 0)

def evalStepCounted (state : EvalState) (opcode : UInt8) (vchPushValue pc : Bytes) : Eval (EvalState × Nat) := do
  let fExec := state.vfExec.all id
  let nOpCount ← checkOpcode flags sigversion state.nOpCount opcode vchPushValue
  let (state, calls) ← runOpcodeCounted crypto flags checker sigversion fExec
    { state with nOpCount } opcode vchPushValue pc
  require (state.stack.length + state.altstack.length ≤ MAX_STACK_SIZE) .STACK_SIZE
  pure (state, calls)

def evalLoopCounted : Nat → Bytes → EvalState → Eval (EvalState × Nat)
  | 0, pc, state => if pc.isEmpty then pure (state, 0) else crash .loopBound
  | fuel + 1, pc, state =>
    if pc.isEmpty then pure (state, 0)
    else
      match getOp pc with
      | none => fail .BAD_OPCODE
      | some (opcode, vchPushValue, pc) => do
        let (state, calls) ← evalStepCounted crypto flags checker sigversion state opcode vchPushValue pc
        let (state, later) ← evalLoopCounted fuel pc state
        pure (state, calls + later)

def evalScriptCounted (stack : Stack) (script : Bytes) : Eval (EvalState × Nat) := do
  require (script.length ≤ MAX_SCRIPT_SIZE) .SCRIPT_SIZE
  let (state, calls) ← evalLoopCounted crypto flags checker sigversion script.length script
    { stack, pbegincodehash := script }
  require state.vfExec.isEmpty .UNBALANCED_CONDITIONAL
  pure (state, calls)

end Counted

section Verify
variable (crypto : Crypto) (flags : ScriptFlags) (checker : BaseSignatureChecker) (witness : List Bytes)

def verifyWitnessProgramCounted (witversion : Nat) (program : Bytes) : Eval Nat :=
  if witversion = 0 then do
    let (scriptPubKey, stack) ← witnessScript crypto witness program
    require (stack.all fun vch => vch.length ≤ MAX_SCRIPT_ELEMENT_SIZE) .PUSH_SIZE
    let (state, calls) ← evalScriptCounted crypto flags checker .WITNESS_V0 stack scriptPubKey
    require (state.stack.length == 1) .EVAL_FALSE
    let vch ← stacktop state.stack (-1)
    require (castToBool vch) .EVAL_FALSE
    pure calls
  else do
    require (!flags .DISCOURAGE_UPGRADABLE_WITNESS_PROGRAM) .DISCOURAGE_UPGRADABLE_WITNESS_PROGRAM
    pure 0

def verifyWitnessCounted (script : Bytes) (malleated : Bool)
    (malleatedError : ScriptError) (stack : Stack) : Eval ((Bool × Stack) × Nat) :=
  match isWitnessProgram script with
  | none => pure ((false, stack), 0)
  | some (witnessversion, witnessprogram) => do
    require (!malleated) malleatedError
    let calls ← verifyWitnessProgramCounted crypto flags checker witness witnessversion witnessprogram
    pure ((true, resizeOne stack), calls)

variable (scriptSig : Bytes)

def verifyP2SHCounted (hadWitness : Bool) (stackCopy : Stack) : Eval ((Bool × Stack) × Nat) := do
  require (isPushOnly scriptSig) .SIG_PUSHONLY
  match stackCopy with
  | [] => crash .p2shStackEmpty
  | pubKey2 :: stack => do
    let (state, calls) ← evalScriptCounted crypto flags checker .BASE stack pubKey2
    requireTrue state.stack
    if flags .WITNESS then do
      let ((found, stack), later) ← verifyWitnessCounted crypto flags checker witness pubKey2
        (scriptSig != pushData pubKey2) .WITNESS_MALLEATED_P2SH state.stack
      pure ((hadWitness || found, stack), calls + later)
    else pure ((hadWitness, state.stack), calls)

variable (scriptPubKey : Bytes)

def verifyStacksCounted (witness : List Bytes) : Eval ((Bool × Stack) × Nat) := do
  require (!(flags .SIGPUSHONLY && !isPushOnly scriptSig)) .SIG_PUSHONLY
  let (sigState, sigCalls) ← evalScriptCounted crypto flags checker .BASE [] scriptSig
  let (state, calls) ← evalScriptCounted crypto flags checker .BASE sigState.stack scriptPubKey
  requireTrue state.stack
  let ((hadWitness, stack), witnessCalls) ←
    (if flags .WITNESS then
      verifyWitnessCounted crypto flags checker witness scriptPubKey (scriptSig.length != 0)
        .WITNESS_MALLEATED state.stack
    else pure ((false, state.stack), 0))
  if flags .P2SH && isPayToScriptHash scriptPubKey then do
    let (result, later) ← verifyP2SHCounted crypto flags checker witness scriptSig hadWitness sigState.stack
    pure (result, sigCalls + calls + witnessCalls + later)
  else pure ((hadWitness, stack), sigCalls + calls + witnessCalls)

def verifyScriptCounted (witness : List Bytes) : Eval Nat := do
  let ((hadWitness, stack), calls) ← verifyStacksCounted crypto flags checker scriptSig scriptPubKey witness
  checkCleanStack flags stack
  checkUnexpectedWitness flags witness hadWitness
  pure calls

end Verify

/-! Without the counts. -/

section Erasure
variable (crypto : Crypto) (flags : ScriptFlags) (checker : BaseSignatureChecker)
  (sigversion : SigVersion)

lemma map_ite_eval {α β : Type} (f : α → β) (condition : Prop) [Decidable condition] (first second : Eval α) :
    f <$> (if condition then first else second) = if condition then f <$> first else f <$> second :=
  apply_ite _ _ _ _

variable (stack : Stack) (scriptPubKey : Bytes) (witness : List Bytes) (scriptCode : Bytes) (script : Bytes)
  (fuel : Nat) (pc : Bytes) (state : EvalState)

lemma map_fst_matchSignaturesCounted (isig ikey nSigsCount nKeysCount : Int) :
    Prod.fst <$> matchSignaturesCounted crypto flags checker sigversion stack scriptCode fuel isig
        ikey nSigsCount nKeysCount =
      matchSignatures crypto flags checker sigversion stack scriptCode fuel isig ikey nSigsCount
        nKeysCount := by
  induction fuel generalizing isig ikey nSigsCount nKeysCount with
  | zero =>
    unfold matchSignaturesCounted matchSignatures
    split_ifs <;> rfl
  | succ fuel ih => simp [matchSignaturesCounted, matchSignatures, map_ite_eval, ← ih]

lemma map_fst_checkMultiSigCounted (verify : Bool) (scriptCode : Bytes) (nOpCount : Int) (stack : Stack) :
    Prod.fst <$> checkMultiSigCounted crypto flags checker sigversion verify scriptCode nOpCount stack =
      checkMultiSigOp crypto flags checker sigversion verify scriptCode nOpCount stack := by
  simp [checkMultiSigCounted, checkMultiSigOp, map_ite_eval, ← map_fst_matchSignaturesCounted]

lemma map_fst_execOpcodeCounted (fExec : Bool) (pc : Bytes) (state : EvalState) (opcode : Opcode) :
    Prod.fst <$> execOpcodeCounted crypto flags checker sigversion fExec pc state opcode =
      execOpcode crypto flags checker sigversion fExec pc state opcode := by
  cases opcode with
  | OP_CHECKSIG verify => simp [execOpcodeCounted, execOpcode]
  | OP_CHECKMULTISIG verify => simp [execOpcodeCounted, execOpcode, ← map_fst_checkMultiSigCounted]
  | _ => simp [execOpcodeCounted]

lemma map_fst_evalStepCounted (opcode : UInt8) (vchPushValue pc : Bytes) :
    Prod.fst <$> evalStepCounted crypto flags checker sigversion state opcode vchPushValue pc =
      evalStep crypto flags checker sigversion state opcode vchPushValue pc := by
  have ran : ∀ fExec state, Prod.fst <$> runOpcodeCounted crypto flags checker sigversion fExec
      state opcode vchPushValue pc =
      runOpcode crypto flags checker sigversion fExec state opcode vchPushValue pc := by
    intro fExec state
    simp [runOpcodeCounted, runOpcode, map_ite_eval, map_fst_execOpcodeCounted]
  simp [evalStepCounted, evalStep, ← ran]

lemma map_fst_evalLoopCounted : Prod.fst <$> evalLoopCounted crypto flags checker sigversion fuel pc state =
      evalLoop crypto flags checker sigversion fuel pc state := by
  induction fuel generalizing pc state with
  | zero =>
    unfold evalLoopCounted evalLoop
    split_ifs <;> rfl
  | succ fuel ih =>
    rw [evalLoopCounted, evalLoop, map_ite_eval]
    congr 1
    cases getOp pc with
    | none => rfl
    | some op => simp [← map_fst_evalStepCounted, ← ih]

lemma map_fst_evalScriptCounted :
    Prod.fst <$> evalScriptCounted crypto flags checker sigversion stack script =
      evalScript crypto flags checker sigversion stack script := by
  simp [evalScriptCounted, evalScript, ← map_fst_evalLoopCounted]

variable (scriptSig : Bytes)

lemma map_verifyWitnessProgramCounted (witversion : Nat) (program : Bytes) :
    (fun _ => ()) <$> verifyWitnessProgramCounted crypto flags checker witness witversion program =
      verifyWitnessProgram crypto flags checker witness witversion program := by
  simp [verifyWitnessProgramCounted, verifyWitnessProgram, map_ite_eval, ← map_fst_evalScriptCounted]

lemma map_fst_verifyWitnessCounted (malleated : Bool) (malleatedError : ScriptError) (stack : Stack) :
    Prod.fst <$> verifyWitnessCounted crypto flags checker witness script malleated malleatedError stack =
      verifyWitness crypto flags checker witness script malleated malleatedError stack := by
  unfold verifyWitnessCounted verifyWitness
  cases isWitnessProgram script with
  | none => rfl
  | some found => simp [← map_verifyWitnessProgramCounted]

lemma map_fst_verifyP2SHCounted (hadWitness : Bool) (stackCopy : Stack) :
    Prod.fst <$> verifyP2SHCounted crypto flags checker witness scriptSig hadWitness stackCopy =
      verifyP2SH crypto flags checker witness scriptSig hadWitness stackCopy := by
  cases stackCopy with
  | nil =>
    simp only [verifyP2SHCounted, verifyP2SH, map_bind]
    rfl
  | cons pubKey2 stack =>
    simp [verifyP2SHCounted, verifyP2SH, map_ite_eval, ← map_fst_evalScriptCounted, ← map_fst_verifyWitnessCounted]

lemma map_fst_verifyStacksCounted :
    Prod.fst <$> verifyStacksCounted crypto flags checker scriptSig scriptPubKey witness =
      verifyStacks crypto flags checker scriptSig scriptPubKey witness := by
  unfold verifyStacksCounted verifyStacks
  cases flags .WITNESS <;>
    simp [map_ite_eval, ← map_fst_evalScriptCounted, ← map_fst_verifyWitnessCounted, ← map_fst_verifyP2SHCounted]

lemma map_verifyScriptCounted :
    (fun _ => ()) <$> verifyScriptCounted crypto flags checker scriptSig scriptPubKey witness =
      verifyScript crypto flags checker scriptSig scriptPubKey witness := by
  simp [verifyScriptCounted, verifyScript, ← map_fst_verifyStacksCounted]

end Erasure

end Dragonchain.Script
