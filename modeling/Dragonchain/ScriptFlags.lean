import Dragonchain.Interpreter

/-!
Verification flags only restrict. Two runs of the interpreter on the same scripts,
one under a larger flag set, stay in step for as long as the stricter run succeeds:
every check under fewer flags is weaker or absent, and no flag changes a value that
a surviving run computes.
-/

namespace Dragonchain.Script

open Outcome Implies

variable {vch script vchSig vchPubKey scriptCode vchPushValue pc program scriptSig scriptPubKey : Bytes}
  {nMaxNumSize remaining fuel witversion : Nat}
  {roll negated verify fExec hadWitness hadWitness' malleated : Bool} {crypto : Crypto}
  {checker : BaseSignatureChecker} {isig k nOpCount : Int} {stack stackCopy : Stack}

def Included (small large : ScriptFlags) : Prop := ∀ flag, small flag = true → large flag = true

/-- The flag combinations that VerifyScript does not assert against. -/
def Admissible (flags : ScriptFlags) : Prop :=
  (flags .WITNESS = true → flags .P2SH = true) ∧
    (flags .CLEANSTACK = true → flags .P2SH = true ∧ flags .WITNESS = true)

section Numbers
variable {strict lax : Bool} (fewer : lax = true → strict = true)
include fewer

lemma toScriptNum_implies : Implies (toScriptNum vch strict nMaxNumSize) (toScriptNum vch lax nMaxNumSize) := by
  cases strict with
  | true =>
    cases lax with
    | true => exact refl _
    | false =>
      intro value done
      by_cases minimal : isMinimalNum vch = true
      · simpa [toScriptNum, scriptNum, minimal] using done
      · by_cases long : vch.length > nMaxNumSize
        · simp [toScriptNum, scriptNum, long, fail] at done
        · simp [toScriptNum, scriptNum, long, minimal, fail] at done
  | false =>
    cases lax with
    | true => cases fewer rfl
    | false => exact refl _

lemma pickOp_implies : Implies (pickOp strict roll stack) (pickOp lax roll stack) := by
  apply onward; intro _
  apply onward; intro vch
  exact (toScriptNum_implies fewer).bind fun _ => refl _

lemma unaryOp_implies {op : UnaryOp} : Implies (unaryOp strict op stack) (unaryOp lax op stack) := by
  apply onward; intro _
  apply onward; intro vch
  exact (toScriptNum_implies fewer).bind fun _ => refl _

lemma binaryOp_implies {op : BinaryOp} : Implies (binaryOp strict op stack) (binaryOp lax op stack) := by
  apply onward; intro _
  apply onward; intro vch1
  apply (toScriptNum_implies fewer).bind; intro _
  apply onward; intro vch2
  exact (toScriptNum_implies fewer).bind fun _ => refl _

lemma withinOp_implies : Implies (withinOp strict stack) (withinOp lax stack) := by
  apply onward; intro _
  apply onward; intro vch1
  apply (toScriptNum_implies fewer).bind; intro _
  apply onward; intro vch2
  apply (toScriptNum_implies fewer).bind; intro _
  apply onward; intro vch3
  exact (toScriptNum_implies fewer).bind fun _ => refl _

end Numbers

section Machine
variable {strict lax : ScriptFlags} (fewer : Included lax strict) {sigversion : SigVersion}

include fewer

lemma checkSignatureEncoding_implies :
    Implies (checkSignatureEncoding crypto strict vchSig) (checkSignatureEncoding crypto lax vchSig) := by
  have strictEnc := fewer .STRICTENC
  have lowS := fewer .LOW_S
  have derSig := fewer .DERSIG
  unfold checkSignatureEncoding
  split
  · exact refl _
  split
  · apply implies_require
    grind
  apply (implies_require (by grind)).bind; intro _
  refine bind ?_ fun _ => implies_require ?_
  · cases onLax : lax .LOW_S with
    | false => exact implies_skip
    | true =>
      rw [lowS onLax]
      exact refl _
  · grind

lemma checkPubKeyEncoding_implies :
    Implies (checkPubKeyEncoding strict sigversion vchPubKey) (checkPubKeyEncoding lax sigversion vchPubKey) := by
  have strictEnc := fewer .STRICTENC
  have witnessKey := fewer .WITNESS_PUBKEYTYPE
  apply (implies_require (by grind)).bind; intro _
  exact implies_require (by grind)

variable {state : EvalState} {opcode : UInt8}

lemma checkLockTimeVerify_implies :
    Implies (checkLockTimeVerify strict checker stack) (checkLockTimeVerify lax checker stack) := by
  unfold checkLockTimeVerify
  cases onLax : lax .CHECKLOCKTIMEVERIFY with
  | false => exact implies_skip
  | true =>
    rw [fewer _ onLax]
    apply onward; intro _
    apply onward; intro vch
    exact (toScriptNum_implies (fewer .MINIMALDATA)).bind fun _ => refl _

lemma checkSequenceVerify_implies :
    Implies (checkSequenceVerify strict checker stack) (checkSequenceVerify lax checker stack) := by
  unfold checkSequenceVerify
  cases onLax : lax .CHECKSEQUENCEVERIFY with
  | false => exact implies_skip
  | true =>
    rw [fewer _ onLax]
    apply onward; intro _
    apply onward; intro vch
    exact (toScriptNum_implies (fewer .MINIMALDATA)).bind fun _ => refl _

lemma ifOp_implies : Implies (ifOp strict sigversion negated stack) (ifOp lax sigversion negated stack) := by
  have minimalIf := fewer .MINIMALIF
  apply onward; intro _
  apply onward; intro vch
  apply (implies_require (by grind)).bind; intro _
  apply (implies_require (by grind)).bind; intro _
  exact refl _

lemma dropSignature_implies :
    Implies (dropSignature strict sigversion scriptCode vchSig)
      (dropSignature lax sigversion scriptCode vchSig) := by
  have constCode := fewer .CONST_SCRIPTCODE
  unfold dropSignature
  split
  · apply onward; intro found
    exact (implies_require (by grind)).bind fun _ => refl _
  · exact refl _

lemma checkSigOp_implies : Implies (checkSigOp crypto strict checker sigversion verify scriptCode stack)
      (checkSigOp crypto lax checker sigversion verify scriptCode stack) := by
  have nullFail := fewer .NULLFAIL
  apply onward; intro _
  apply onward; intro vchSig
  apply onward; intro vchPubKey
  apply (dropSignature_implies fewer).bind; intro scriptCode
  apply (checkSignatureEncoding_implies fewer).bind; intro _
  apply (checkPubKeyEncoding_implies fewer).bind; intro _
  exact (implies_require (by grind)).bind fun _ => refl _

lemma dropSignatures_implies :
    Implies (dropSignatures strict sigversion stack isig remaining k scriptCode)
      (dropSignatures lax sigversion stack isig remaining k scriptCode) := by
  induction remaining generalizing k scriptCode with
  | zero => exact refl _
  | succ remaining ih =>
    apply onward; intro below
    apply onward; intro index
    apply onward; intro vchSig
    apply (dropSignature_implies fewer).bind; intro scriptCode
    apply onward; intro k
    exact ih

lemma matchSignatures_implies (scriptCode : Bytes) (fuel : Nat) (isig ikey nSigsCount nKeysCount : Int) : Implies
      (matchSignatures crypto strict checker sigversion stack scriptCode fuel isig ikey nSigsCount nKeysCount)
      (matchSignatures crypto lax checker sigversion stack scriptCode fuel isig ikey nSigsCount nKeysCount) := by
  induction fuel generalizing isig ikey nSigsCount nKeysCount with
  | zero => exact refl _
  | succ fuel ih =>
    unfold matchSignatures
    split
    · apply onward; intro vchSig
      apply onward; intro vchPubKey
      apply (checkSignatureEncoding_implies fewer).bind; intro _
      apply (checkPubKeyEncoding_implies fewer).bind; intro _
      apply onward; intro isig
      apply onward; intro nSigsCount
      apply onward; intro ikey
      apply onward; intro nKeysCount
      split
      · exact refl _
      · exact ih isig ikey nSigsCount nKeysCount
    · exact refl _

lemma popArguments_implies (fSuccess : Bool) (remaining : Nat) (ikey2 : Int) (stack : Stack) :
    Implies (popArguments strict fSuccess remaining ikey2 stack)
      (popArguments lax fSuccess remaining ikey2 stack) := by
  have nullFail := fewer .NULLFAIL
  induction remaining generalizing ikey2 stack with
  | zero => exact refl _
  | succ remaining ih =>
    apply onward; intro vch
    apply (implies_require (by grind)).bind; intro _
    apply onward; intro rest
    exact ih _ rest

lemma multiSigCounts_implies :
    Implies (multiSigCounts strict nOpCount stack) (multiSigCounts lax nOpCount stack) := by
  apply onward; intro _
  apply onward; intro vch
  apply (toScriptNum_implies (fewer .MINIMALDATA)).bind; intro bn
  apply onward; intro _
  apply onward; intro nOpCount
  apply onward; intro _
  apply onward; intro i
  apply onward; intro _
  apply onward; intro vch
  exact (toScriptNum_implies (fewer .MINIMALDATA)).bind fun _ => refl _

lemma checkMultiSigOp_implies :
    Implies (checkMultiSigOp crypto strict checker sigversion verify scriptCode nOpCount stack)
      (checkMultiSigOp crypto lax checker sigversion verify scriptCode nOpCount stack) := by
  have nullDummy := fewer .NULLDUMMY
  apply (multiSigCounts_implies fewer).bind
  rintro ⟨nOpCount, nKeysCount, nSigsCount, i⟩
  apply onward; intro ikey2
  apply onward; intro isig
  apply (dropSignatures_implies fewer).bind; intro scriptCode
  apply (matchSignatures_implies fewer scriptCode _ isig 2 nSigsCount nKeysCount).bind
  intro fSuccess
  apply (popArguments_implies fewer fSuccess _ ikey2 stack).bind; intro stack
  apply onward; intro _
  apply onward; intro vch
  exact (implies_require (by grind)).bind fun _ => refl _

lemma execOpcode_implies {opcode : Opcode} :
    Implies (execOpcode crypto strict checker sigversion fExec pc state opcode)
      (execOpcode crypto lax checker sigversion fExec pc state opcode) := by
  cases opcode with
  | OP_CHECKLOCKTIMEVERIFY => exact (checkLockTimeVerify_implies fewer).bind fun _ => refl _
  | OP_CHECKSEQUENCEVERIFY => exact (checkSequenceVerify_implies fewer).bind fun _ => refl _
  | upgradableNop =>
    have discourage := fewer .DISCOURAGE_UPGRADABLE_NOPS
    exact (implies_require (by grind)).bind fun _ => refl _
  | OP_IF negated =>
    cases fExec with
    | true => exact (ifOp_implies fewer).bind fun _ => refl _
    | false => exact refl _
  | OP_PICK roll => exact (pickOp_implies (fewer .MINIMALDATA)).bind fun _ => refl _
  | unary op => exact (unaryOp_implies (fewer .MINIMALDATA)).bind fun _ => refl _
  | binary op => exact (binaryOp_implies (fewer .MINIMALDATA)).bind fun _ => refl _
  | OP_WITHIN => exact (withinOp_implies (fewer .MINIMALDATA)).bind fun _ => refl _
  | OP_CHECKSIG verify => exact (checkSigOp_implies fewer).bind fun _ => refl _
  | OP_CHECKMULTISIG verify => exact (checkMultiSigOp_implies fewer).bind fun _ => refl _
  -- no other opcode looks at the flags
  | number | OP_NOP | OP_ELSE | OP_ENDIF | OP_VERIFY | OP_RETURN | stack | OP_EQUAL | hash
  | OP_CODESEPARATOR | other => exact refl _

lemma checkOpcode_implies :
    Implies (checkOpcode strict sigversion nOpCount opcode vchPushValue)
      (checkOpcode lax sigversion nOpCount opcode vchPushValue) := by
  have constCode := fewer .CONST_SCRIPTCODE
  apply onward; intro _
  apply onward; intro nOpCount
  apply onward; intro _
  apply onward; intro _
  exact (implies_require (by grind)).bind fun _ => refl _

lemma runOpcode_implies :
    Implies (runOpcode crypto strict checker sigversion fExec state opcode vchPushValue pc)
      (runOpcode crypto lax checker sigversion fExec state opcode vchPushValue pc) := by
  have minimalData := fewer .MINIMALDATA
  unfold runOpcode
  split
  · exact (implies_require (by grind)).bind fun _ => refl _
  split
  · exact execOpcode_implies fewer
  · exact refl _

lemma evalStep_implies : Implies (evalStep crypto strict checker sigversion state opcode vchPushValue pc)
      (evalStep crypto lax checker sigversion state opcode vchPushValue pc) := by
  apply (checkOpcode_implies fewer).bind
  intro nOpCount
  apply (runOpcode_implies fewer).bind
  intro state
  exact refl _

lemma evalLoop_implies :
    Implies (evalLoop crypto strict checker sigversion fuel pc state)
      (evalLoop crypto lax checker sigversion fuel pc state) := by
  induction fuel generalizing pc state with
  | zero => exact refl _
  | succ fuel ih =>
    unfold evalLoop
    split
    · exact refl _
    split
    · exact refl _
    next opcode vchPushValue rest _ =>
      apply (evalStep_implies fewer).bind
      intro state
      exact ih

lemma evalScript_implies :
    Implies (evalScript crypto strict checker sigversion stack script)
      (evalScript crypto lax checker sigversion stack script) := by
  apply onward; intro _
  exact (evalLoop_implies fewer).bind fun _ => refl _

end Machine

section Verify
variable {strict lax : ScriptFlags} (fewer : Included lax strict)
include fewer

variable {witness : List Bytes} {result result' : Bool × Stack}

lemma verifyWitnessProgram_implies :
    Implies (verifyWitnessProgram crypto strict checker witness witversion program)
      (verifyWitnessProgram crypto lax checker witness witversion program) := by
  have discourage := fewer .DISCOURAGE_UPGRADABLE_WITNESS_PROGRAM
  unfold verifyWitnessProgram
  split
  · apply (refl _).bind
    rintro ⟨scriptPubKey, stack⟩
    apply onward; intro _
    exact (evalScript_implies fewer).bind fun _ => refl _
  · exact implies_require (by grind)

lemma verifyWitness_implies {malleatedError : ScriptError} :
    Implies (verifyWitness crypto strict checker witness script malleated malleatedError stack)
      (verifyWitness crypto lax checker witness script malleated malleatedError stack) := by
  unfold verifyWitness
  split
  · exact refl _
  next witnessversion witnessprogram _ =>
    apply onward; intro _
    exact (verifyWitnessProgram_implies fewer).bind fun _ => refl _

/-- The two runs agree on hadWitness and the final stack once both look at witnesses;
without WITNESS nothing that follows depends on them. -/
def InStep (lax : ScriptFlags) (result result' : Bool × Stack) : Prop := lax .WITNESS = true → result = result'

lemma verifyP2SH_inStep (same : lax .WITNESS = true → hadWitness = hadWitness') :
    Simulates (InStep lax) (verifyP2SH crypto strict checker witness scriptSig hadWitness stackCopy)
      (verifyP2SH crypto lax checker witness scriptSig hadWitness' stackCopy) := by
  apply ((refl _).simulates fun _ => rfl).bind
  rintro _ _ rfl
  cases stackCopy with
  | nil => exact (refl _).simulates fun _ _ => rfl
  | cons pubKey2 stack =>
    apply ((evalScript_implies fewer).simulates fun _ => rfl).bind
    rintro state _ rfl
    apply ((refl _).simulates fun _ => rfl).bind
    rintro _ _ rfl
    cases onLax : lax .WITNESS with
    | true =>
      rw [fewer _ onLax, same onLax]
      exact ((verifyWitness_implies fewer).bind fun _ => refl _).simulates fun _ _ => rfl
    | false =>
      apply simulates_pure
      intro _ _ on
      rw [onLax] at on
      cases on

variable (admissible : Admissible lax)
include admissible

lemma verifyStacks_inStep :
    Simulates (InStep lax) (verifyStacks crypto strict checker scriptSig scriptPubKey witness)
      (verifyStacks crypto lax checker scriptSig scriptPubKey witness) := by
  have pushOnly := fewer .SIGPUSHONLY
  apply ((implies_require (by grind)).simulates fun _ => rfl).bind
  rintro _ _ rfl
  apply ((evalScript_implies fewer).simulates fun _ => rfl).bind
  rintro sigState _ rfl
  apply ((evalScript_implies fewer).simulates fun _ => rfl).bind
  rintro state _ rfl
  apply ((refl _).simulates fun _ => rfl).bind
  rintro _ _ rfl
  refine Simulates.bind (?_ : Simulates (InStep lax) _ _) ?_
  · cases onLax : lax .WITNESS with
    | true =>
      rw [fewer _ onLax]
      exact (verifyWitness_implies fewer).simulates fun _ _ => rfl
    | false =>
      apply simulates_pure
      intro _ _ on
      rw [onLax] at on
      cases on
  · rintro ⟨hadWitness, stack⟩ ⟨hadWitness', stack'⟩ same
    cases onLax : lax .P2SH with
    | true =>
      rw [fewer _ onLax]
      by_cases p2sh : isPayToScriptHash scriptPubKey = true
      · simp only [p2sh, Bool.and_self, if_true]
        exact verifyP2SH_inStep fewer fun on => congrArg Prod.fst (same on)
      · simp only [p2sh, Bool.and_false, Bool.false_eq_true, if_false]
        rintro result ⟨⟩
        exact ⟨_, rfl, same⟩
    | false =>
      -- without P2SH an admissible set has no WITNESS either
      apply simulates_pure
      intro _ _ on
      rw [admissible.1 on] at onLax
      cases onLax

lemma checkCleanStack_implies (same : InStep lax result result') :
    Implies (checkCleanStack strict result.2) (checkCleanStack lax result'.2) := by
  unfold checkCleanStack
  cases onLax : lax .CLEANSTACK with
  | false => exact implies_skip
  | true =>
    obtain ⟨p2sh, withWitness⟩ := admissible.2 onLax
    rw [fewer _ onLax, p2sh, withWitness, fewer _ p2sh, fewer _ withWitness, same withWitness]
    exact refl _

lemma checkUnexpectedWitness_implies (same : InStep lax result result') :
    Implies (checkUnexpectedWitness strict witness result.1) (checkUnexpectedWitness lax witness result'.1) := by
  unfold checkUnexpectedWitness
  cases onLax : lax .WITNESS with
  | false => exact implies_skip
  | true =>
    have p2sh := admissible.1 onLax
    rw [fewer _ onLax, p2sh, fewer _ p2sh, same onLax]
    exact refl _

end Verify

/-- Fewer flags accept more, for any two admissible flag sets and so below the
standard ones. -/
theorem verifyScript_fewer_flags (crypto : Crypto) (checker : BaseSignatureChecker)
    (scriptSig scriptPubKey : Bytes) (witness : List Bytes) :
    (∀ large small : ScriptFlags, Included small large → Admissible large → Admissible small →
      verifyScript crypto large checker scriptSig scriptPubKey witness = .ok () →
      verifyScript crypto small checker scriptSig scriptPubKey witness = .ok ()) ∧
    (∀ small : ScriptFlags, Included small STANDARD_SCRIPT_VERIFY_FLAGS → Admissible small →
      verifyScript crypto STANDARD_SCRIPT_VERIFY_FLAGS checker scriptSig scriptPubKey witness = .ok () →
      verifyScript crypto small checker scriptSig scriptPubKey witness = .ok ()) := by
  have general : ∀ large small : ScriptFlags, Included small large → Admissible large →
      Admissible small →
      verifyScript crypto large checker scriptSig scriptPubKey witness = .ok () →
      verifyScript crypto small checker scriptSig scriptPubKey witness = .ok () := by
    intro large small fewer _ admissibleSmall valid
    have whole : Simulates (fun _ _ => True)
        (verifyScript crypto large checker scriptSig scriptPubKey witness)
        (verifyScript crypto small checker scriptSig scriptPubKey witness) := by
      apply (verifyStacks_inStep fewer admissibleSmall).bind
      intro result result' same
      have clean := checkCleanStack_implies fewer admissibleSmall same
      exact (clean.bind fun _ => checkUnexpectedWitness_implies fewer admissibleSmall same).simulates
        fun _ => trivial
    obtain ⟨_, done, _⟩ := whole () valid
    exact done
  have standard : Admissible STANDARD_SCRIPT_VERIFY_FLAGS := by constructor <;> intro _ <;> decide
  exact ⟨general, fun small fewer => general _ small fewer standard⟩

/-- A pay-to-pubkey output and a Falcon signature with hash type SIGHASH_ALL. -/
theorem verifyScript_fewer_flags_payToPubkey :
    verifyScript Crypto.zeros STANDARD_SCRIPT_VERIFY_FLAGS acceptingChecker (pushData [0x39, 0x01])
      (pushData (0x02 :: List.replicate 32 0) ++ [OP_CHECKSIG]) [] = .ok () ∧
    verifyScript Crypto.zeros MANDATORY_SCRIPT_VERIFY_FLAGS acceptingChecker (pushData [0x39, 0x01])
      (pushData (0x02 :: List.replicate 32 0) ++ [OP_CHECKSIG]) [] = .ok () := by
  have valid : verifyScript Crypto.zeros STANDARD_SCRIPT_VERIFY_FLAGS acceptingChecker
      (pushData [0x39, 0x01]) (pushData (0x02 :: List.replicate 32 0) ++ [OP_CHECKSIG]) []
      = .ok () := by decide +kernel
  have mandatory : Included MANDATORY_SCRIPT_VERIFY_FLAGS STANDARD_SCRIPT_VERIFY_FLAGS := by
    intro flag; cases flag <;> decide
  have admissible : Admissible MANDATORY_SCRIPT_VERIFY_FLAGS := by constructor <;> intro on <;> cases on
  exact ⟨valid, (verifyScript_fewer_flags _ _ _ _ _).2 _ mandatory admissible valid⟩

end Dragonchain.Script
