import Dragonchain.KeySigning

/-!
ProduceSignature for a key hash behind a witness program. VerifyScript first runs the
scriptPubKey itself, which leaves the program on the stack, so a program that reads as
false fails there; then the P2PKH script runs on the witness.
-/

namespace Dragonchain.Script

open Outcome List

variable {checker : BaseSignatureChecker} {subscript scriptSig vchSig vchPubKey : Bytes}
  {malleated hadWitness : Bool} {found result : Bool × Stack}

section Program
variable {crypto : Crypto} {program : Bytes} {witness : List Bytes} (long : 2 ≤ program.length)
  (short : program.length ≤ 40)

include long short

lemma verifyWitness_program {error : ScriptError} {stack : Stack} :
    verifyWitness crypto standard checker witness (OP_0 :: pushData program) malleated
        error stack = .ok found ↔ malleated = false ∧
        verifyWitnessProgram crypto standard checker witness 0 program = .ok () ∧
        (true, resizeOne stack) = found := by
  simp only [verifyWitness, isWitnessProgram_program long short, bind_eq_ok, pure_eq_ok,
    Unique.exists_iff, require_eq_ok, Bool.not_eq_true']

lemma verifyScript_program :
    verifyScript crypto standard checker [] (OP_0 :: pushData program) witness = .ok () ↔
      castToBool program = true ∧ verifyWitnessProgram crypto standard checker witness 0 program = .ok () := by
  have ran : evalScript crypto standard checker .BASE [] (OP_0 :: pushData program) =
      .ok (running (OP_0 :: pushData program) [program, []] 0) :=
    evalScript_program long short (by decide)
  rw [verifyScript_standard]
  simp only [verifyStacks_standard, verifyWitness_program long short, isPayToScriptHash_program]
  constructor
  · rintro ⟨_, _, ⟨_, _, ⟨⟩, ranProgram, cast, _, ⟨_, verified, _⟩, _⟩, _⟩
    cases ran.symm.trans ranProgram
    exact ⟨(requireTrue_cons ..).mp cast, verified⟩
  · rintro ⟨cast, verified⟩
    exact ⟨true, [[]], ⟨_, _, rfl, ran, (requireTrue_cons ..).mpr cast, _, ⟨rfl, verified, rfl⟩, rfl⟩,
      rfl, .inl rfl⟩

end Program

/-! P2SH. -/

variable {values : List Bytes}

section P2SH
variable {crypto : Crypto} {witness : List Bytes}

lemma isWitnessProgram_scriptHash (scriptID : Uint160) :
    isWitnessProgram (getScriptForScriptHash scriptID) = none :=
  isWitnessProgram_of_opcode (by decide) (.inr (by decide))

lemma verifyP2SH_standard {stack : Stack} :
    verifyP2SH crypto standard checker witness scriptSig hadWitness (subscript :: stack)
        = .ok result ↔ isPushOnly scriptSig = true ∧ ∃ state,
        evalScript crypto standard checker .BASE stack subscript = .ok state ∧
        requireTrue state.stack = .ok () ∧ ∃ found, verifyWitness crypto standard checker witness subscript
            (scriptSig != pushData subscript) .WITNESS_MALLEATED_P2SH state.stack = .ok found ∧
          (hadWitness || found.1, found.2) = result := by
  have witnesses : standard .WITNESS = true := rfl
  simp only [verifyP2SH, witnesses, bind_eq_ok, require_eq_ok, requireTrue_ok, exists_const, if_true, pure_eq_ok]

lemma verifyScript_scriptHash (single : ∀ v ∈ values ++ [subscript], v.length ≠ 1) :
    verifyScript crypto standard checker (pushAll (values ++ [subscript]))
        (getScriptForScriptHash (crypto.hash160 subscript)) witness = .ok () ↔
      (pushAll (values ++ [subscript])).length ≤ MAX_SCRIPT_SIZE ∧
      (∀ v ∈ values ++ [subscript], v.length ≤ MAX_SCRIPT_ELEMENT_SIZE) ∧
      values.length + 2 ≤ MAX_STACK_SIZE ∧ ∃ state,
        evalScript crypto standard checker .BASE values.reverse subscript = .ok state ∧
        requireTrue state.stack = .ok () ∧ ∃ found, verifyWitness crypto standard checker witness subscript
            (pushAll (values ++ [subscript]) != pushData subscript) .WITNESS_MALLEATED_P2SH state.stack
            = .ok found ∧ found.2.length = 1 ∧ (found.1 = true ∨ witness = []) := by
  have shape : (values ++ [subscript]).reverse = subscript :: values.reverse := by
    rw [reverse_append]
    rfl
  have noProgram {malleated : Bool} {error : ScriptError} {stack : Stack} {found : Bool × Stack} :
      verifyWitness crypto standard checker witness
        (getScriptForScriptHash (crypto.hash160 subscript)) malleated error stack = .ok found ↔
          (false, stack) = found := by
    rw [verifyWitness, isWitnessProgram_scriptHash]
    exact pure_eq_ok ..
  have count : (values ++ [subscript]).length = values.length + 1 := length_append ..
  simp only [verifyScript_standard, verifyStacks_standard, isPayToScriptHash_scriptHash, if_true,
    evalScript_pushAll, noProgram]
  constructor
  · rintro ⟨_, _, ⟨_, _, ⟨whole, sizes, _, _, rfl⟩, ran, _, _, rfl, nested⟩, clean, expected⟩
    rw [running, shape, evalScript_scriptHash, length_reverse] at ran
    rw [running, shape, verifyP2SH_standard] at nested
    obtain ⟨_, state, ranSub, cast, found, verified, same⟩ := nested
    obtain ⟨rfl, rfl⟩ := Prod.mk.inj same
    exact ⟨whole, sizes, ran.1, state, ranSub, cast, found, verified, clean, expected⟩
  · rintro ⟨whole, sizes, room, state, ranSub, cast, found, verified, clean, expected⟩
    have pushOnly := isPushOnly_pushAll fun v member => lt_of_le_of_lt (sizes v member) (by decide)
    refine ⟨found.1, found.2, ⟨_, running (getScriptForScriptHash (crypto.hash160 subscript))
      (vchTrue :: values.reverse) 2, ⟨whole, sizes, fun _ byte => single _ byte rfl, by omega, rfl⟩, ?_,
      rfl, _, rfl, ?_⟩, clean, expected⟩
    · rw [running, shape, evalScript_scriptHash, length_reverse]
      exact ⟨room, by rw [beq_self_eq_true]; rfl⟩
    · rw [shape]
      exact verifyP2SH_standard.mpr ⟨pushOnly, state, ranSub, cast, found, verified, rfl⟩

lemma verifyScript_nestedProgram {program : Bytes} (long : 2 ≤ program.length) (short : program.length ≤ 40) :
    verifyScript crypto standard checker (pushAll [OP_0 :: pushData program])
        (getScriptForScriptHash (crypto.hash160 (OP_0 :: pushData program))) witness = .ok () ↔
      castToBool program = true ∧ verifyWitnessProgram crypto standard checker witness 0 program = .ok () := by
  have ran : evalScript crypto standard checker .BASE [] (OP_0 :: pushData program) =
      .ok (running (OP_0 :: pushData program) [program, []] 0) :=
    evalScript_program long short (by decide)
  have upper := length_pushData_le program
  have lower := length_pushData_pos program
  have single : ∀ v ∈ ([] : List Bytes) ++ [OP_0 :: pushData program], v.length ≠ 1 := by
    intro v member
    cases mem_singleton.mp member
    rw [length_cons]
    omega
  have sizes : ∀ v ∈ ([] : List Bytes) ++ [OP_0 :: pushData program], v.length ≤ MAX_SCRIPT_ELEMENT_SIZE := by
    intro v member
    cases mem_singleton.mp member
    rw [length_cons, MAX_SCRIPT_ELEMENT_SIZE]
    omega
  have pushed : pushAll [OP_0 :: pushData program] = pushData (OP_0 :: pushData program) := by
    rw [pushAll_cons (single _ mem_cons_self)]
    exact append_nil _
  have whole : (pushAll [OP_0 :: pushData program]).length ≤ MAX_SCRIPT_SIZE := by
    have length := length_pushData_le (OP_0 :: pushData program)
    rw [length_cons] at length
    rw [pushed, MAX_SCRIPT_SIZE]
    omega
  have same : (pushAll [OP_0 :: pushData program] != pushData (OP_0 :: pushData program)) = false := by
    rw [pushed]
    exact bne_self_eq_false _
  refine (verifyScript_scriptHash single).trans ?_
  constructor
  · rintro ⟨_, _, _, _, ranSub, cast, _, verified, _⟩
    cases ran.symm.trans ranSub
    exact ⟨(requireTrue_cons ..).mp cast, ((verifyWitness_program long short).mp verified).2.1⟩
  · rintro ⟨cast, verified⟩
    exact ⟨whole, sizes, by decide, _, ran, (requireTrue_cons ..).mpr cast, _,
      (verifyWitness_program long short).mpr ⟨same, verified, rfl⟩, rfl, .inl rfl⟩

end P2SH

/-! The witness of a signed input. -/

lemma verifyWitnessProgram_ok {crypto : Crypto} {witness : List Bytes} {program : Bytes}
    : verifyWitnessProgram crypto standard checker witness 0 program = .ok () ↔
      ∃ script stack, witnessScript crypto witness program = .ok (script, stack) ∧
        (∀ vch ∈ stack, vch.length ≤ MAX_SCRIPT_ELEMENT_SIZE) ∧
        ∃ state vch, evalScript crypto standard checker .WITNESS_V0 stack script =
          .ok state ∧ state.stack = [vch] ∧ castToBool vch = true := by
  simp only [verifyWitnessProgram, if_true, bind_eq_ok, require_eq_ok, all_eq_true,
    decide_eq_true_iff, Prod.exists, exists_const, beq_iff_eq]
  refine exists_congr fun script => exists_congr fun stack => and_congr_right fun _ =>
    and_congr_right fun _ => exists_congr fun state => ?_
  constructor
  · rintro ⟨ran, single, vch, top, cast⟩
    obtain ⟨_, shape⟩ := length_eq_one_iff.mp single
    rw [shape] at top
    cases top
    exact ⟨_, ran, shape, cast⟩
  · rintro ⟨vch, ran, shape, cast⟩
    rw [shape]
    exact ⟨ran, rfl, vch, rfl, cast⟩

/-- The scripts that pay to the hash of a key. -/
inductive KeyForm where
  | P2PKH | P2WPKH | P2SH_P2WPKH | P2WSH_P2PKH
  deriving DecidableEq

variable {form : KeyForm}

namespace KeyForm
variable (crypto : Crypto) (keyID : Uint160)

def scriptPubKey : KeyForm → Bytes
  | .P2PKH => getScriptForPubKeyHash keyID
  | .P2WPKH => getScriptForWitnessKeyHash keyID
  | .P2SH_P2WPKH => getScriptForScriptHash (crypto.hash160 (getScriptForWitnessKeyHash keyID))
  | .P2WSH_P2PKH => getScriptForWitnessScriptHash (crypto.sha256 (getScriptForPubKeyHash keyID))

/-- The script that the store has to know, under its own id. -/
def Known (store : CKeyStore) : KeyForm → Prop
  | .P2PKH | .P2WPKH => True
  | .P2SH_P2WPKH => store.getCScript (crypto.hash160 (getScriptForWitnessKeyHash keyID)) =
      some (getScriptForWitnessKeyHash keyID)
  | .P2WSH_P2PKH => store.getCScript (crypto.hash160 (getScriptForPubKeyHash keyID)) =
      some (getScriptForPubKeyHash keyID)

def program : KeyForm → Bytes
  | .P2PKH => []
  | .P2WPKH | .P2SH_P2WPKH => keyID.bytes
  | .P2WSH_P2PKH => (crypto.sha256 (getScriptForPubKeyHash keyID)).bytes

def script : KeyForm → List Bytes
  | .P2WSH_P2PKH => [getScriptForPubKeyHash keyID]
  | _ => []

def redeemScript : KeyForm → List Bytes
  | .P2SH_P2WPKH => [getScriptForWitnessKeyHash keyID]
  | _ => []

variable {crypto : Crypto} {keyID : Uint160} (witness : form ≠ .P2PKH)
include witness

lemma program_length : 2 ≤ (form.program crypto keyID).length ∧ (form.program crypto keyID).length ≤ 40 := by
  cases form with
  | P2PKH => exact absurd rfl witness
  | P2WPKH => rw [program, keyID.size]; decide
  | P2SH_P2WPKH => rw [program, keyID.size]; decide
  | P2WSH_P2PKH => rw [program, Uint256.size]; decide

lemma verifyScript_witness {stack : List Bytes} :
    verifyScript crypto standard checker (pushAll (form.redeemScript keyID))
        (form.scriptPubKey crypto keyID) stack = .ok () ↔ castToBool (form.program crypto keyID) = true ∧
        verifyWitnessProgram crypto standard checker stack 0 (form.program crypto keyID) = .ok () := by
  obtain ⟨long, short⟩ : 2 ≤ (form.program crypto keyID).length ∧
    (form.program crypto keyID).length ≤ 40 := program_length witness
  cases form with
  | P2PKH => exact absurd rfl witness
  | P2WPKH => exact verifyScript_program long short
  | P2SH_P2WPKH => exact verifyScript_nestedProgram long short
  | P2WSH_P2PKH => exact verifyScript_program long short

lemma witnessScript_witness :
    witnessScript crypto ([vchSig, vchPubKey] ++ form.script keyID) (form.program crypto keyID) =
      .ok (getScriptForPubKeyHash keyID, [vchPubKey, vchSig]) := by
  have other : ¬ keyID.bytes.length = 32 := by
    rw [keyID.size]
    decide
  cases form with
  | P2PKH => exact absurd rfl witness
  | P2WPKH =>
    rw [witnessScript, program, if_neg other, if_pos keyID.size]
    rfl
  | P2SH_P2WPKH =>
    rw [witnessScript, program, if_neg other, if_pos keyID.size]
    rfl
  | P2WSH_P2PKH =>
    rw [witnessScript, program, if_pos (Uint256.size _)]
    show (require ((crypto.sha256 (getScriptForPubKeyHash keyID)).bytes ==
      (crypto.sha256 (getScriptForPubKeyHash keyID)).bytes) ScriptError.WITNESS_PROGRAM_MISMATCH >>=
        fun _ => pure (getScriptForPubKeyHash keyID, [vchPubKey, vchSig])) = _
    rw [beq_self_eq_true]
    rfl

end KeyForm

lemma signStep_type (crypto : Crypto) (creator : BaseSignatureCreator) (script : Bytes) (sigversion : SigVersion) :
    (signStep crypto creator script sigversion).whichTypeRet = (solver script).typeRet := by
  unfold signStep
  dsimp only
  split
  · rfl
  · split <;> first | rfl | (split <;> rfl)

/-! ProduceSignature by the types that its SignSteps find. -/

section Assemble
variable {crypto : Crypto} {creator : BaseSignatureCreator}

lemma signWitness_keyHash (keyID : Uint160) :
    signWitness crypto creator ⟨true, [keyID.bytes], some .TX_WITNESS_V0_KEYHASH⟩ =
      ((signStep crypto creator (getScriptForPubKeyHash keyID) .WITNESS_V0).solved,
        (signStep crypto creator (getScriptForPubKeyHash keyID) .WITNESS_V0).ret, []) := rfl

lemma signWitness_scriptHash (script : Bytes) :
    signWitness crypto creator ⟨true, [script], some .TX_WITNESS_V0_SCRIPTHASH⟩ =
      ((signStep crypto creator script .WITNESS_V0).solved && (solver script).typeRet != some .TX_SCRIPTHASH
          && (solver script).typeRet != some .TX_WITNESS_V0_SCRIPTHASH
          && (solver script).typeRet != some .TX_WITNESS_V0_KEYHASH,
        (signStep crypto creator script .WITNESS_V0).ret ++ [script], []) := by
  rw [← signStep_type crypto creator script .WITNESS_V0]
  rfl

variable {script : Bytes}

lemma assembleSignature_direct (plain : (solver script).typeRet ≠ some .TX_SCRIPTHASH) :
    assembleSignature crypto creator script =
      ((signWitness crypto creator (signStep crypto creator script .BASE)).1,
        ⟨pushAll (signWitness crypto creator (signStep crypto creator script .BASE)).2.2,
          (signWitness crypto creator (signStep crypto creator script .BASE)).2.1⟩) := by
  have other : ((signStep crypto creator script .BASE).whichTypeRet == some .TX_SCRIPTHASH) = false := by
    rw [signStep_type]
    exact beq_false_of_ne plain
  rw [assembleSignature, other, Bool.and_false]
  rfl

lemma assembleSignature_nested
    (step : signStep crypto creator script .BASE = ⟨true, [subscript], some .TX_SCRIPTHASH⟩)
    (plain : (solver subscript).typeRet ≠ some .TX_SCRIPTHASH) : assembleSignature crypto creator script =
      ((signWitness crypto creator (signStep crypto creator subscript .BASE)).1,
        ⟨pushAll ((signWitness crypto creator (signStep crypto creator subscript .BASE)).2.2 ++ [subscript]),
          (signWitness crypto creator (signStep crypto creator subscript .BASE)).2.1⟩) := by
  have other : ((signStep crypto creator subscript .BASE).whichTypeRet != some .TX_SCRIPTHASH) = true := by
    rw [signStep_type]
    exact bne_iff_ne.mpr plain
  rw [assembleSignature, step]
  simp [other]

lemma signStep_scriptHash {scriptID : Uint160} {sigversion : SigVersion}
    (found : creator.keystore.getCScript scriptID = some subscript) :
    signStep crypto creator (getScriptForScriptHash scriptID) sigversion =
      ⟨true, [subscript], some .TX_SCRIPTHASH⟩ := by
  simp [signStep, solver_scriptHash, toUint160_bytes, found]

lemma solver_witnessKeyHash (keyID : Uint160) : solver (getScriptForWitnessKeyHash keyID) =
    ⟨true, some .TX_WITNESS_V0_KEYHASH, [keyID.bytes]⟩ := by
  have range : 2 ≤ keyID.bytes.length ∧ keyID.bytes.length ≤ 40 := by
    rw [keyID.size]
    decide
  refine (solver_program range.1 range.2).trans ?_
  rw [solveWitness, if_pos ⟨rfl, keyID.size⟩]

lemma solver_witnessScriptHash (hash : Uint256) : solver (getScriptForWitnessScriptHash hash) =
    ⟨true, some .TX_WITNESS_V0_SCRIPTHASH, [hash.bytes]⟩ := by
  have range : 2 ≤ hash.bytes.length ∧ hash.bytes.length ≤ 40 := by
    rw [hash.size]
    decide
  have other : ¬ (0 = 0 ∧ hash.bytes.length = 20) := by
    rw [hash.size]
    decide
  refine (solver_program range.1 range.2).trans ?_
  rw [solveWitness, if_neg other, if_pos ⟨rfl, hash.size⟩]

/-- What a witness form hands to its inner SignStep, and what it makes of the result. -/
lemma assembleSignature_witness {keyID : Uint160}
    (witness : form ≠ .P2PKH) (known : form.Known crypto keyID creator.keystore) :
    assembleSignature crypto creator (form.scriptPubKey crypto keyID) =
      ((signStep crypto creator (getScriptForPubKeyHash keyID) .WITNESS_V0).solved,
        ⟨pushAll (form.redeemScript keyID),
          (signStep crypto creator (getScriptForPubKeyHash keyID) .WITNESS_V0).ret ++ form.script keyID⟩) := by
  have keyStep : signStep crypto creator (getScriptForWitnessKeyHash keyID) .BASE =
      ⟨true, [keyID.bytes], some .TX_WITNESS_V0_KEYHASH⟩ := by
    rw [signStep, solver_witnessKeyHash]
    rfl
  have noHash : (solver (getScriptForWitnessKeyHash keyID)).typeRet ≠ some .TX_SCRIPTHASH := by
    rw [solver_witnessKeyHash]
    rintro ⟨⟩
  cases form with
  | P2PKH => exact absurd rfl witness
  | P2WPKH =>
    show _ = (_, SignatureData.mk (pushAll []) (_ ++ []))
    rw [KeyForm.scriptPubKey, assembleSignature_direct noHash, keyStep, signWitness_keyHash, append_nil]
  | P2SH_P2WPKH =>
    show _ = (_, SignatureData.mk (pushAll [getScriptForWitnessKeyHash keyID]) (_ ++ []))
    rw [KeyForm.scriptPubKey, assembleSignature_nested (signStep_scriptHash known) noHash,
      keyStep, signWitness_keyHash, append_nil]
    rfl
  | P2WSH_P2PKH =>
    have noScript : (solver (getScriptForWitnessScriptHash
        (crypto.sha256 (getScriptForPubKeyHash keyID)))).typeRet ≠ some .TX_SCRIPTHASH := by
      rw [solver_witnessScriptHash]
      rintro ⟨⟩
    have scriptStep : signStep crypto creator
        (getScriptForWitnessScriptHash (crypto.sha256 (getScriptForPubKeyHash keyID))) .BASE =
          ⟨true, [getScriptForPubKeyHash keyID], some .TX_WITNESS_V0_SCRIPTHASH⟩ := by
      have found : creator.keystore.getCScript
          (crypto.ripemd160 (crypto.sha256 (getScriptForPubKeyHash keyID)).bytes) =
            some (getScriptForPubKeyHash keyID) := known
      simp [signStep, solver_witnessScriptHash, found]
    rw [KeyForm.scriptPubKey, assembleSignature_direct noScript, scriptStep, signWitness_scriptHash,
      solver_pubKeyHash]
    show ((signStep _ _ _ _).solved && true && true && true, _) = _
    rw [Bool.and_true, Bool.and_true, Bool.and_true]
    rfl

end Assemble

/-- What IsStandardTx requires of a scriptSig. -/
def isStandardScriptSig (scriptSig : Bytes) : Bool := decide (scriptSig.length ≤ 1650) && isPushOnly scriptSig

lemma isStandardScriptSig_pushAll (length : (pushAll values).length ≤ 1650) :
    isStandardScriptSig (pushAll values) = true := by
  have fits : ∀ v ∈ values, v.length < 256 ^ 4 := by
    intro v member
    have := length_le_pushAll member
    omega
  rw [isStandardScriptSig, decide_eq_true length, isPushOnly_pushAll fits]
  rfl

lemma isStandardScriptSig_redeemScript (form : KeyForm) (keyID : Uint160) :
    isStandardScriptSig (pushAll (form.redeemScript keyID)) = true := by
  cases form with
  | P2PKH | P2WPKH | P2WSH_P2PKH => exact (by decide : isStandardScriptSig [] = true)
  | P2SH_P2WPKH =>
    have size : (getScriptForWitnessKeyHash keyID).length = 22 := by
      rw [getScriptForWitnessKeyHash, pushData_hash]
      simp [keyID.size]
    have length := length_pushAll_le [getScriptForWitnessKeyHash keyID]
    rw [map_singleton, sum_singleton, size] at length
    exact isStandardScriptSig_pushAll (le_trans length (by decide))

section Signed
variable {crypto : Crypto} {scheme : Falcon.Scheme} {store : CKeyStore} {key : CKey}
  (signs : Signs scheme key) (holds : Holds crypto store key) (txTo : CTransaction)
  (nIn : Fin txTo.vin.length) (amount : Int64)

include signs in
lemma verifyWitnessProgram_signed (witness : form ≠ .P2PKH)
    (made : Made checker key (getScriptForPubKeyHash (key.getPubKey.getID crypto)) .WITNESS_V0 vchSig 1) :
    verifyWitnessProgram crypto standard checker
      ([vchSig ++ [1], key.getPubKey.bytes] ++ form.script (key.getPubKey.getID crypto)) 0
      (form.program crypto (key.getPubKey.getID crypto)) = .ok () := by
  have sizes := (signedValues_range signs made).2
  refine verifyWitnessProgram_ok.mpr ⟨_, _, KeyForm.witnessScript_witness witness, ?_, _, vchTrue,
    (evalScript_signed signs made).mpr ⟨by decide, rfl⟩, rfl, rfl⟩
  intro vch member
  exact sizes vch (by simpa [or_comm] using member)

end Signed

/-- Signing with SIGHASH_ALL for a script that pays to a key hash succeeds, passes its own
check and leaves a standard scriptSig, except that a witness form needs a compressed key
and a program that does not read as false. -/
theorem produceSignature_keyForm_iff (crypto : Crypto) (scheme : Falcon.Scheme) (store : CKeyStore) (key : CKey)
    (signs : Signs scheme key) (holds : Holds crypto store key) (txTo : CTransaction) (nIn : Fin txTo.vin.length)
    (amount : Int64) (form : KeyForm) (known : form.Known crypto (key.getPubKey.getID crypto) store) :
    let creator := transactionSignatureCreator crypto scheme store txTo nIn amount SIGHASH_ALL
    let scriptPubKey := form.scriptPubKey crypto (key.getPubKey.getID crypto)
    let produced := produceSignature crypto creator scriptPubKey
    (produced.1 = true ∧
      (verifyScript crypto STANDARD_SCRIPT_VERIFY_FLAGS creator.checker produced.2.scriptSig scriptPubKey
        produced.2.scriptWitness).isOk = true ∧
      isStandardScriptSig produced.2.scriptSig = true) ↔
    form = .P2PKH ∨ (key.isCompressed = true ∧
      castToBool (form.program crypto (key.getPubKey.getID crypto)) = true) := by
  intro creator scriptPubKey produced
  by_cases plain : form = .P2PKH
  · subst plain
    obtain ⟨vchSig, length, result, verified⟩ := produceSignature_pubKeyHash signs holds txTo nIn
      amount SIGHASH_ALL (by decide)
    have defined : definedHashType SIGHASH_ALL.toUInt32.toUInt8 = true := by decide
    have outcome : produced = _ := result
    rw [outcome]
    exact iff_of_true ⟨defined, verified.trans defined,
      isStandardScriptSig_pushAll (le_trans length (by decide))⟩ (.inl rfl)
  · have assembled : assembleSignature crypto creator scriptPubKey = _ := assembleSignature_witness plain known
    cases compressed : key.isCompressed with
    | false =>
      -- CreateSig refuses, so nothing is solved
      have refused : signStep crypto creator (getScriptForPubKeyHash (key.getPubKey.getID crypto))
          .WITNESS_V0 = _ := signStep_uncompressed holds txTo nIn amount SIGHASH_ALL solver_pubKeyHash compressed
      have unsolved : produced.1 = false := by
        simp only [produced, produceSignature, assembled, refused, Bool.false_and]
        split <;> rfl
      rw [unsolved]
      refine iff_of_false ?_ ?_
      · rintro ⟨⟨⟩, _⟩
      · rintro (same | ⟨⟨⟩, _⟩)
        exact plain same
    | true =>
      obtain ⟨vchSig, step, made⟩ := signStep_pubKeyHash signs holds txTo nIn amount
        SIGHASH_ALL solver_pubKeyHash .WITNESS_V0 (.inr compressed) (by decide)
      have signed : signStep crypto creator (getScriptForPubKeyHash (key.getPubKey.getID crypto))
          .WITNESS_V0 = _ := step
      have verified := verifyWitnessProgram_signed signs plain made
      have checked : (verifyScript crypto STANDARD_SCRIPT_VERIFY_FLAGS creator.checker
          (pushAll (form.redeemScript (key.getPubKey.getID crypto))) scriptPubKey
          ([vchSig ++ [1], key.getPubKey.bytes] ++ form.script (key.getPubKey.getID crypto))).isOk =
            castToBool (form.program crypto (key.getPubKey.getID crypto)) := by
        rw [Bool.eq_iff_iff, isOk_unit]
        exact (KeyForm.verifyScript_witness plain).trans (and_iff_left verified)
      have result : produced = (castToBool (form.program crypto (key.getPubKey.getID crypto)),
          ⟨pushAll (form.redeemScript (key.getPubKey.getID crypto)),
            [vchSig ++ [1], key.getPubKey.bytes] ++ form.script (key.getPubKey.getID crypto)⟩) := by
        have real : creator.isDummy = false := rfl
        simp only [produced, produceSignature, assembled, signed, real, Bool.true_and, Bool.false_eq_true, if_false]
        rw [← checked]
        rfl
      rw [result]
      simp only [checked, isStandardScriptSig_redeemScript, plain, and_true, true_and, false_or, and_self]

namespace ToySigner

def keyID (compressed : Bool) : Uint160 := (key compressed).getPubKey.getID crypto

theorem compressed_signs_nested : (produce true (getScriptForWitnessKeyHash (keyID true))
      (KeyForm.P2SH_P2WPKH.scriptPubKey crypto (keyID true)) SIGHASH_ALL).1 = true :=
  ((produceSignature_keyForm_iff crypto scheme (store true (getScriptForWitnessKeyHash (keyID true)))
    (key true) (signs true) (holds true _) tx input 1000 .P2SH_P2WPKH rfl).mpr
    (.inr ⟨rfl, by decide⟩)).1

/-- The same key with fCompressed unset does not sign for its own witness program. -/
theorem uncompressed_refused : Signs scheme (key false) ∧ Holds crypto (store false []) (key false) ∧
    (produce false [] (KeyForm.P2WPKH.scriptPubKey crypto (keyID false)) SIGHASH_ALL).1 = false :=
  ⟨signs false, holds false [], by decide +kernel⟩

end ToySigner

end Dragonchain.Script
