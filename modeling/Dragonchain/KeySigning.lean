import Dragonchain.PushAll

/-!
ProduceSignature for the scripts that pay to a key hash. The signer's side is one
signature by the key; the verifier's side is the run of a P2PKH script, as the
scriptPubKey itself or behind a witness program.
-/

namespace Dragonchain.Script

open Outcome List Resigned

variable {b pc script scriptCode program vchSig scriptSig scriptPubKey : Bytes}
  {checker : BaseSignatureChecker}

abbrev standard : ScriptFlags := STANDARD_SCRIPT_VERIFY_FLAGS

/-! The solver on the scripts of the builders. -/

lemma pushData_hash (id : Uint160) : pushData id.bytes = 20 :: id.bytes := by
  rw [pushData, id.size]
  rfl

lemma toUint160_bytes (id : Uint160) : toUint160 id.bytes = id := by rw [toUint160, dif_pos id.size]

variable {keyID scriptID : Uint160} {anyone fork : Bool}

lemma isWitnessProgram_pubKeyHash : isWitnessProgram (getScriptForPubKeyHash keyID) = none :=
  isWitnessProgram_of_opcode (by decide) (.inr (by decide))

lemma isPayToScriptHash_pubKeyHash : isPayToScriptHash (getScriptForPubKeyHash keyID) = false := by
  rw [isPayToScriptHash, getScriptForPubKeyHash]
  simp [OP_DUP, OP_HASH160]

lemma solver_pubKeyHash : solver (getScriptForPubKeyHash keyID) = ⟨true, some .TX_PUBKEYHASH, [keyID.bytes]⟩ := by
  have shape : getScriptForPubKeyHash keyID =
      OP_DUP :: OP_HASH160 :: (pushData keyID.bytes ++ [OP_EQUALVERIFY, OP_CHECKSIG]) := by
    rfl
  have scanned : solver (getScriptForPubKeyHash keyID) = scanTemplates (getScriptForPubKeyHash keyID) mTemplates :=
    solver_eq_scan (by decide) (by decide) isWitnessProgram_pubKeyHash
  have dup : getOp (getScriptForPubKeyHash keyID) = some (OP_DUP, [], OP_HASH160 ::
      (pushData keyID.bytes ++ [OP_EQUALVERIFY, OP_CHECKSIG])) := by
    exact getOp_plain _ (by decide)
  have small : keyID.bytes.length < 256 ^ 4 := by
    rw [keyID.size]
    decide
  have notKey : matchTemplate [OP_PUBKEY, OP_CHECKSIG] (getScriptForPubKeyHash keyID) [] = none := by rfl
  have hash : matchTemplate [OP_DUP, OP_HASH160, OP_PUBKEYHASH, OP_EQUALVERIFY, OP_CHECKSIG]
      (getScriptForPubKeyHash keyID) [] = some [keyID.bytes] := by
    show (matchTemplate _ (pushData keyID.bytes ++ _) []) = _
    rw [matchTemplate_step (getOp_pushData _ _ small) (by decide), matchOp_pubkeyhash keyID.size]
    rfl
  rw [scanned, mTemplates]
  simp only [scanTemplates, notKey, hash]
  rfl

lemma isPayToScriptHash_scriptHash : isPayToScriptHash (getScriptForScriptHash scriptID) = true := by
  have last : (getScriptForScriptHash scriptID).getD 22 0 = OP_EQUAL := by
    rw [getScriptForScriptHash, pushData_hash]
    simp [scriptID.size]
  rw [isPayToScriptHash, last]
  simp [getScriptForScriptHash, pushData_hash, scriptID.size]

lemma solver_scriptHash (scriptID : Uint160) :
    solver (getScriptForScriptHash scriptID) = ⟨true, some .TX_SCRIPTHASH, [scriptID.bytes]⟩ := by
  have hash : ((getScriptForScriptHash scriptID).drop 2).take 20 = scriptID.bytes := by
    rw [getScriptForScriptHash, pushData_hash]
    exact take_left' scriptID.size
  rw [solver, isPayToScriptHash_scriptHash, hash]
  rfl

lemma isWitnessProgram_version {opcode : UInt8}
    (version : (opcode != OP_0 && (opcode < OP_1 || opcode > OP_16)) = false)
    (long : 2 ≤ program.length) (short : program.length ≤ 40) :
    isWitnessProgram (opcode :: pushData program) = some (decodeOP_N opcode, program) := by
  have tiny : program.length < OP_PUSHDATA1.toNat := lt_of_le_of_lt short (by decide)
  have value : (UInt8.ofNat program.length).toNat = program.length := by
    rw [UInt8.toNat_ofNat', Nat.mod_eq_of_lt (by omega)]
  rw [isWitnessProgram, pushData, if_pos tiny]
  simp only [getD_cons_zero, getD_cons_succ, length_cons, value, drop_succ_cons, drop_zero, version]
  rw [if_neg (by simp; omega)]
  rfl

lemma isWitnessProgram_program (long : 2 ≤ program.length) (short : program.length ≤ 40) :
    isWitnessProgram (OP_0 :: pushData program) = some (0, program) :=
  isWitnessProgram_version rfl long short

lemma isPayToScriptHash_program (program : Bytes) : isPayToScriptHash (OP_0 :: pushData program) = false := by
  rw [isPayToScriptHash, getD_cons_zero]
  simp [OP_0, OP_HASH160]

lemma solver_program (long : 2 ≤ program.length) (short : program.length ≤ 40) :
    solver (OP_0 :: pushData program) = solveWitness 0 program := by
  rw [solver, isPayToScriptHash_program, isWitnessProgram_program long short]
  rfl

/-! A signature longer than the script is not found in it. -/

lemma deleteFrom_long (fuel : Nat) (long : pc.length < b.length) : (deleteFrom b fuel pc).1 = 0 := by
  induction fuel generalizing pc with
  | zero => rfl
  | succ fuel ih =>
    have none : b.isPrefixOf pc = false := by
      rw [Bool.eq_false_iff]
      intro found
      have := (List.isPrefixOf_iff_prefix.mp found).length_le
      omega
    have skipped : skipCopies b pc.length pc = (0, pc) := by
      cases pc with
      | nil => rfl
      | cons _ _ => rw [length_cons, skipCopies, none]; rfl
    rw [deleteFrom, skipped]
    dsimp only
    cases parsed : getOp pc with
    | none => rfl
    | some op =>
      obtain ⟨opcode, vch, rest⟩ := op
      have shorter := getOp_length parsed
      have later : (deleteFrom b fuel rest).1 = 0 := ih (by omega)
      show 0 + (deleteFrom b fuel rest).1 = 0
      rw [later]

lemma findAndDelete_long (long : script.length < b.length) : findAndDelete script b = (0, script) := by
  have nothing := deleteFrom_long (script.length + 1) long
  unfold findAndDelete
  generalize deleteFrom b (script.length + 1) script = deleted at nothing
  obtain ⟨nFound, result⟩ := deleted
  obtain rfl : nFound = 0 := nothing
  simp

/-! The signer's side. -/

/-- A key whose signatures its own public key accepts, in the encoding of this scheme. -/
structure Signs (scheme : Falcon.Scheme) (key : CKey) : Prop where
  valid : key.isValid = true
  signs : ∀ (hash : Uint256) (draw : Nat), ∃ vchSig,
    scheme.signSignature key.keydata hash.bytes draw = some vchSig ∧ vchSig.getD 0 0 = 0x39 ∧
      vchSig.length ≤ CKey.SIGN_SIZE ∧ key.getPubKey.verify scheme.toArithmetic hash vchSig = true

/-- A store that has the key under its own id. -/
structure Holds (crypto : Crypto) (store : CKeyStore) (key : CKey) : Prop where
  holdsKey : store.getKey (key.getPubKey.getID crypto) = some key
  holdsPubKey : store.getPubKey (key.getPubKey.getID crypto) = some key.getPubKey

/-- A signature in the encoding of the scheme that the checker accepts for the key. -/
structure Made (checker : BaseSignatureChecker) (key : CKey) (scriptCode : Bytes) (sigversion : SigVersion)
    (vchSig : Bytes) (back : UInt8) : Prop where
  header : vchSig.getD 0 0 = 0x39
  short : vchSig.length ≤ CKey.SIGN_SIZE
  salted : 41 ≤ vchSig.length
  accepted : checker.checkSig (vchSig ++ [back]) key.getPubKey.bytes scriptCode sigversion = true

section Signer
variable {crypto : Crypto} {scheme : Falcon.Scheme} {store : CKeyStore} {key : CKey}
  (signs : Signs scheme key) (holds : Holds crypto store key) (txTo : CTransaction)
  (nIn : Fin txTo.vin.length) (amount : Int64) (nHashType : Int32)

include signs holds

lemma createSig_signs (scriptCode : Bytes) (sigversion : SigVersion) (draw : Nat)
    (allowed : sigversion = .BASE ∨ key.isCompressed = true) :
    ∃ vchSig, (transactionSignatureCreator crypto scheme store txTo nIn amount nHashType).createSig
        (key.getPubKey.getID crypto) scriptCode sigversion draw = some (vchSig ++ [nHashType.toUInt32.toUInt8]) ∧
      vchSig.getD 0 0 = 0x39 ∧ vchSig.length ≤ CKey.SIGN_SIZE ∧ key.getPubKey.verify scheme.toArithmetic
        (signatureHash crypto scriptCode txTo nIn nHashType amount sigversion none) vchSig = true := by
  obtain ⟨vchSig, signed, header, short, verified⟩ := signs.signs
    (signatureHash crypto scriptCode txTo nIn nHashType amount sigversion none) draw
  have flag : key.fValid = true := signs.valid
  have full : vchSig ≠ [] := by
    rintro rfl
    cases header
  have compressed : sigversion = .WITNESS_V0 → key.isCompressed = true := by
    rintro rfl
    exact allowed.resolve_left (fun same => nomatch same)
  refine ⟨vchSig, ?_, header, short, verified⟩
  simpa [transactionSignatureCreator, holds.holdsKey, CKey.sign, flag, signed, full, short] using compressed

lemma signStep_pubKeyHash
    (found : solver script = ⟨true, some .TX_PUBKEYHASH, [(key.getPubKey.getID crypto).bytes]⟩)
    (sigversion : SigVersion) (allowed : sigversion = .BASE ∨ key.isCompressed = true)
    (byte : Int32.ofNat nHashType.toUInt32.toUInt8.toNat = nHashType) :
    ∃ vchSig, signStep crypto (transactionSignatureCreator crypto scheme store txTo nIn amount nHashType)
        script sigversion =
          ⟨true, [vchSig ++ [nHashType.toUInt32.toUInt8], key.getPubKey.bytes], some .TX_PUBKEYHASH⟩ ∧
      Made (transactionSignatureCreator crypto scheme store txTo nIn amount nHashType).checker key script
        sigversion vchSig nHashType.toUInt32.toUInt8 := by
  obtain ⟨vchSig, created, header, short, verified⟩ := createSig_signs signs holds txTo nIn amount
    nHashType script sigversion 0 allowed
  have valid := CKey.getPubKey_valid signs.valid
  have salted : 41 ≤ vchSig.length := by
    obtain ⟨_, nonce, buf, _, rfl, length, _⟩ := (CPubKey.verify_iff ..).mp verified
    rw [length_cons, length_append, length, Falcon.NONCELEN]
    omega
  refine ⟨vchSig, ?_, header, short, salted, ?_⟩
  · have pubKey : (transactionSignatureCreator crypto scheme store txTo nIn amount
        nHashType).keystore.getPubKey (key.getPubKey.getID crypto) = some key.getPubKey :=
      holds.holdsPubKey
    simp [signStep, found, toUint160_bytes, created, pubKey]
  · simp only [transactionSignatureCreator, TransactionSignatureChecker.toBase,
      TransactionSignatureChecker.checkSig, CPubKey.ofBytes_bytes valid, valid, getLast?_concat,
      dropLast_concat, byte, Bool.not_true, Bool.false_eq_true, if_false]
    exact verified

omit signs in
lemma signStep_uncompressed
    (found : solver script = ⟨true, some .TX_PUBKEYHASH, [(key.getPubKey.getID crypto).bytes]⟩)
    (uncompressed : key.isCompressed = false) :
    signStep crypto (transactionSignatureCreator crypto scheme store txTo nIn amount nHashType)
        script .WITNESS_V0 = ⟨false, [], some .TX_PUBKEYHASH⟩ := by
  have refused : (transactionSignatureCreator crypto scheme store txTo nIn amount nHashType).createSig
      (key.getPubKey.getID crypto) script .WITNESS_V0 0 = none := by
    simp [transactionSignatureCreator, holds.holdsKey, uncompressed]
  simp [signStep, found, toUint160_bytes, refused]

end Signer

/-! The verifier's side. -/

def definedHashType (back : UInt8) : Bool := decide (1 ≤ back &&& 0x7f) && decide (back &&& 0x7f ≤ 3)

variable {flags : ScriptFlags} {sigversion : SigVersion}

lemma dropSignature_long (long : scriptCode.length < vchSig.length) :
    dropSignature flags sigversion scriptCode vchSig = .ok scriptCode := by
  have pushed : scriptCode.length < (pushData vchSig).length := by
    obtain ⟨size, shape⟩ := pushData_cons vchSig
    rw [shape, length_append, length_cons]
    omega
  rw [dropSignature, findAndDelete_long pushed]
  cases sigversion <;> rfl

variable (back : UInt8) (header : vchSig.getD 0 0 = 0x39) (short : vchSig.length ≤ CKey.SIGN_SIZE)
include back header short

lemma isFalconSignature_append : isFalconSignature (vchSig ++ [back]) = true := by
  cases vchSig with
  | nil => cases header
  | cons first rest =>
    rw [getD_cons_zero] at header
    rw [CKey.SIGN_SIZE, length_cons] at short
    simp [isFalconSignature, header]
    omega

lemma checkSignatureEncoding_falcon {crypto : Crypto}
    (strict : flags .STRICTENC = true) : checkSignatureEncoding crypto flags (vchSig ++ [back]) =
      require (definedHashType back) .SIG_HASHTYPE := by
  have full : (vchSig ++ [back]).length ≠ 0 := by simp
  rw [checkSignatureEncoding, if_neg full, if_pos (isFalconSignature_append back header short), strict]
  simp [isDefinedHashtypeSignature, definedHashType]

omit back header short

lemma checkPubKeyEncoding_falcon {key : CPubKey}
    (valid : key.isValid = true) : checkPubKeyEncoding flags sigversion key.bytes = .ok () := by
  simp only [checkPubKeyEncoding, isCompressedOrUncompressedPubKey, isCompressedPubKey,
    CPubKey.isFalconPubKey_bytes valid, if_true, Bool.or_true]
  rfl

lemma checkSigOp_pair {crypto : Crypto} (scriptCode vchSig vchPubKey : Bytes) :
    checkSigOp crypto flags checker sigversion false scriptCode [vchPubKey, vchSig] = (do
      let scriptCode ← dropSignature flags sigversion scriptCode vchSig
      checkSignatureEncoding crypto flags vchSig
      checkPubKeyEncoding flags sigversion vchPubKey
      let fSuccess := checker.checkSig vchSig vchPubKey scriptCode sigversion
      require (!(!fSuccess && flags .NULLFAIL && vchSig.length != 0)) .SIG_NULLFAIL
      pure [vchBool fSuccess]) := rfl

lemma checkSigOp_falcon {crypto : Crypto} {key : CPubKey} {back : UInt8} (strict : flags .STRICTENC = true)
    (valid : key.isValid = true) (header : vchSig.getD 0 0 = 0x39) (short : vchSig.length ≤ CKey.SIGN_SIZE)
    (long : scriptCode.length < vchSig.length)
    (accepted : checker.checkSig (vchSig ++ [back]) key.bytes scriptCode sigversion = true) (left : Stack) :
    checkSigOp crypto flags checker sigversion false scriptCode [key.bytes, vchSig ++ [back]] = .ok left ↔
      definedHashType back = true ∧ [vchTrue] = left := by
  have longer : scriptCode.length < (vchSig ++ [back]).length := by
    rw [length_append]
    omega
  rw [checkSigOp_pair, dropSignature_long longer, checkSignatureEncoding_falcon back header short strict]
  show (require _ _ >>= _) = .ok left ↔ _
  rw [require_bind_eq_ok, checkPubKeyEncoding_falcon valid, accepted]
  exact and_congr_right fun _ => pure_eq_ok ..

/-! VerifyScript under the standard flags. -/

section Standard
variable {crypto : Crypto}

lemma requireTrue_cons (vch : Bytes) (stack : Stack) (result : Unit) :
    requireTrue (vch :: stack) = .ok result ↔ castToBool vch = true := require_eq_ok

variable {witness : List Bytes}

lemma verifyScript_standard :
    verifyScript crypto standard checker scriptSig scriptPubKey witness = .ok () ↔
      ∃ hadWitness left, verifyStacks crypto standard checker scriptSig scriptPubKey
          witness = .ok (hadWitness, left) ∧ left.length = 1 ∧ (hadWitness = true ∨ witness = []) := by
  rw [verifyScript, bind_eq_ok, Prod.exists]
  refine exists_congr fun hadWitness => exists_congr fun left => and_congr_right fun _ => ?_
  show (require (left.length == 1) _ >>= fun _ => require _ _) = .ok () ↔ _
  rw [require_bind_eq_ok, require_eq_ok, beq_iff_eq]
  cases hadWitness <;> simp

lemma requireTrue_ok {stack : Stack} {result : Unit} :
    requireTrue stack = .ok result ↔ ∃ vch below, stack = vch :: below ∧ castToBool vch = true := by
  cases stack with
  | nil =>
    constructor
    · rintro ⟨⟩
    · rintro ⟨_, _, ⟨⟩, _⟩
  | cons vch below =>
    rw [requireTrue_cons]
    constructor
    · intro passed
      exact ⟨vch, below, rfl, passed⟩
    · rintro ⟨_, _, ⟨⟩, passed⟩
      exact passed

lemma verifyStacks_standard {result : Bool × Stack} :
    verifyStacks crypto standard checker scriptSig scriptPubKey witness = .ok result ↔
      ∃ sigState state, evalScript crypto standard checker .BASE [] scriptSig = .ok sigState ∧
        evalScript crypto standard checker .BASE sigState.stack scriptPubKey = .ok state ∧
        requireTrue state.stack = .ok () ∧
        ∃ found, verifyWitness crypto standard checker witness scriptPubKey
            (scriptSig.length != 0) .WITNESS_MALLEATED state.stack = .ok found ∧
          (if isPayToScriptHash scriptPubKey then
              verifyP2SH crypto standard checker witness scriptSig found.1 sigState.stack
            else pure found) = .ok result := by
  have witnesses : standard .WITNESS = true := rfl
  have p2sh : standard .P2SH = true := rfl
  have mixed : standard .SIGPUSHONLY = false := rfl
  simp [verifyStacks, witnesses, p2sh, mixed, bind_eq_ok, requireTrue_ok]

lemma verifyScript_plain (noProgram : isWitnessProgram scriptPubKey = none)
    (noHash : isPayToScriptHash scriptPubKey = false) :
    verifyScript crypto standard checker scriptSig scriptPubKey [] = .ok () ↔
      ∃ sigState state, evalScript crypto standard checker .BASE [] scriptSig = .ok sigState ∧
        evalScript crypto standard checker .BASE sigState.stack scriptPubKey = .ok state ∧
        ∃ vch, state.stack = [vch] ∧ castToBool vch = true := by
  simp only [verifyScript_standard, verifyStacks_standard, verifyWitness, noProgram, noHash, pure_eq_ok,
    exists_eq_left', requireTrue_ok, or_true, and_true, if_false, Bool.false_eq_true, Prod.mk.injEq]
  constructor
  · rintro ⟨_, left, ⟨sigState, state, ranSig, ran, ⟨vch, below, shape, holds⟩, _, rfl⟩, single⟩
    rw [shape, length_cons, Nat.succ_inj, length_eq_zero_iff] at single
    exact ⟨sigState, state, ranSig, ran, vch, by rw [shape, single], holds⟩
  · rintro ⟨sigState, state, ranSig, ran, vch, shape, holds⟩
    exact ⟨false, state.stack, ⟨sigState, state, ranSig, ran, ⟨vch, [], shape, holds⟩, rfl, rfl⟩,
      by rw [shape]; rfl⟩

end Standard

lemma isOk_unit {action : Eval Unit} : action.isOk = true ↔ action = .ok () := by
  cases action with
  | ok _ => exact ⟨fun _ => rfl, fun _ => rfl⟩
  | error _ => exact ⟨(nomatch ·), (nomatch ·)⟩

/-! P2PKH. -/

section Signed
variable {crypto : Crypto} {scheme : Falcon.Scheme} {store : CKeyStore} {key : CKey}
  (signs : Signs scheme key) (holds : Holds crypto store key) (txTo : CTransaction)
  (nIn : Fin txTo.vin.length) (amount : Int64) (nHashType : Int32)

include signs holds

variable {back : UInt8}

omit holds in
lemma evalScript_signed {final : EvalState}
    (made : Made checker key (getScriptForPubKeyHash (key.getPubKey.getID crypto)) sigversion vchSig back) :
    evalScript crypto standard checker sigversion
        [key.getPubKey.bytes, vchSig ++ [back]] (getScriptForPubKeyHash (key.getPubKey.getID crypto))
        = .ok final ↔ definedHashType back = true ∧
        running (getScriptForPubKeyHash (key.getPubKey.getID crypto)) [vchTrue] 4 = final := by
  have valid := CKey.getPubKey_valid signs.valid
  have small : (getScriptForPubKeyHash (key.getPubKey.getID crypto)).length < vchSig.length := by
    rw [getScriptForPubKeyHash, pushData_hash]
    simp [(key.getPubKey.getID crypto).size]
    have salted := made.salted
    omega
  have same : crypto.hash160 key.getPubKey.bytes = key.getPubKey.getID crypto := rfl
  have strict : standard .STRICTENC = true := rfl
  simp only [evalScript_pubKeyHash, same, true_and,
    checkSigOp_falcon strict valid made.header made.short small made.accepted, and_assoc, exists_and_left,
    exists_eq_left']
  simp [MAX_STACK_SIZE]

/-! The values in the scriptSig of a signed P2PKH input. -/

omit holds in
lemma signedValues_range (made : Made checker key scriptCode sigversion vchSig back) :
    (∀ v ∈ [vchSig ++ [back], key.getPubKey.bytes], v.length ≠ 1) ∧
      ∀ v ∈ [vchSig ++ [back], key.getPubKey.bytes], v.length ≤ MAX_SCRIPT_ELEMENT_SIZE := by
  have size := CPubKey.length_bytes (CKey.getPubKey_valid signs.valid)
  obtain ⟨_, short, salted, _⟩ := made
  rw [CKey.SIGN_SIZE] at short
  simp only [forall_mem_cons, length_append, length_singleton, size,
    MAX_SCRIPT_ELEMENT_SIZE, not_mem_nil, false_implies, implies_true, and_true]
  omega

omit holds in
lemma length_signedValues (made : Made checker key scriptCode sigversion vchSig back) :
    (pushAll [vchSig ++ [back], key.getPubKey.bytes]).length ≤ 1599 := by
  have size := CPubKey.length_bytes (CKey.getPubKey_valid signs.valid)
  have length := length_pushAll_le [vchSig ++ [back], key.getPubKey.bytes]
  have short := made.short
  rw [CKey.SIGN_SIZE] at short
  simp only [map_cons, map_nil, sum_cons, sum_nil, length_append, length_singleton, size] at length
  omega

omit holds in
lemma verifyScript_pubKeyHash
    (made : Made checker key (getScriptForPubKeyHash (key.getPubKey.getID crypto)) .BASE vchSig back) :
    verifyScript crypto standard checker (pushAll [vchSig ++ [back], key.getPubKey.bytes])
        (getScriptForPubKeyHash (key.getPubKey.getID crypto)) [] = .ok () ↔ definedHashType back = true := by
  obtain ⟨single, fits⟩ := signedValues_range signs made
  have bounded : (pushAll [vchSig ++ [back], key.getPubKey.bytes]).length ≤ MAX_SCRIPT_SIZE :=
    le_trans (length_signedValues signs made) (by decide)
  have ranSig : evalScript crypto standard checker .BASE []
      (pushAll [vchSig ++ [back], key.getPubKey.bytes]) = .ok (running
        (pushAll [vchSig ++ [back], key.getPubKey.bytes]) [key.getPubKey.bytes, vchSig ++ [back]] 0) :=
    evalScript_pushAll.mpr ⟨bounded, fits, fun _ byte => single _ byte rfl, show 2 ≤ 1000 by decide, rfl⟩
  rw [verifyScript_plain isWitnessProgram_pubKeyHash isPayToScriptHash_pubKeyHash, ranSig]
  constructor
  · rintro ⟨_, _, ⟨⟩, ran, _⟩
    exact ((evalScript_signed signs made).mp ran).1
  · intro defined
    exact ⟨_, _, rfl, (evalScript_signed signs made).mpr ⟨defined, rfl⟩, vchTrue, rfl, rfl⟩

lemma produceSignature_pubKeyHash (byte : Int32.ofNat nHashType.toUInt32.toUInt8.toNat = nHashType) :
    ∃ vchSig, (pushAll [vchSig ++ [nHashType.toUInt32.toUInt8], key.getPubKey.bytes]).length ≤ 1599 ∧
      produceSignature crypto (transactionSignatureCreator crypto scheme store txTo nIn amount nHashType)
          (getScriptForPubKeyHash (key.getPubKey.getID crypto)) = (definedHashType nHashType.toUInt32.toUInt8,
          ⟨pushAll [vchSig ++ [nHashType.toUInt32.toUInt8], key.getPubKey.bytes], []⟩) ∧
      (verifyScript crypto standard
          (transactionSignatureCreator crypto scheme store txTo nIn amount nHashType).checker
          (pushAll [vchSig ++ [nHashType.toUInt32.toUInt8], key.getPubKey.bytes])
          (getScriptForPubKeyHash (key.getPubKey.getID crypto)) []).isOk =
        definedHashType nHashType.toUInt32.toUInt8 := by
  obtain ⟨vchSig, step, made⟩ := signStep_pubKeyHash signs holds txTo nIn amount
    nHashType solver_pubKeyHash .BASE (.inl rfl) byte
  have verified : (verifyScript crypto standard
      (transactionSignatureCreator crypto scheme store txTo nIn amount nHashType).checker
      (pushAll [vchSig ++ [nHashType.toUInt32.toUInt8], key.getPubKey.bytes])
      (getScriptForPubKeyHash (key.getPubKey.getID crypto)) []).isOk =
        definedHashType nHashType.toUInt32.toUInt8 := by
    rw [Bool.eq_iff_iff, isOk_unit]
    exact verifyScript_pubKeyHash signs made
  refine ⟨vchSig, length_signedValues signs made, ?_, verified⟩
  have assembled : assembleSignature crypto
      (transactionSignatureCreator crypto scheme store txTo nIn amount nHashType)
      (getScriptForPubKeyHash (key.getPubKey.getID crypto)) =
        (true, ⟨pushAll [vchSig ++ [nHashType.toUInt32.toUInt8], key.getPubKey.bytes], []⟩) := by
    rw [assembleSignature, step]
    rfl
  have real : (transactionSignatureCreator crypto scheme store txTo nIn amount nHashType).isDummy = false := rfl
  simp [produceSignature, assembled, real, verified]

end Signed

/-! The hash types with and without SIGHASH_FORKID. -/

inductive BaseHashType where
  | ALL | NONE | SINGLE
  deriving DecidableEq

def BaseHashType.value : BaseHashType → Int32
  | .ALL => SIGHASH_ALL
  | .NONE => SIGHASH_NONE
  | .SINGLE => SIGHASH_SINGLE

variable (base : BaseHashType)

def hashType (anyone fork : Bool) : Int32 :=
  base.value ||| (if anyone then SIGHASH_ANYONECANPAY else 0) ||| (if fork then SIGHASH_FORKID else 0)

lemma hashType_byte {base : BaseHashType} :
    Int32.ofNat (hashType base anyone fork).toUInt32.toUInt8.toNat = hashType base anyone fork := by
  cases base <;> cases anyone <;> cases fork <;> decide

lemma definedHashType_iff (anyone fork : Bool) :
    definedHashType (hashType base anyone fork).toUInt32.toUInt8 = !fork := by
  cases base <;> cases anyone <;> cases fork <;> decide

/-- A P2PKH input signed with a hash type of this family is accepted by the signer's own
check exactly when the hash type is not a replay-protected one. -/
theorem produceSignature_forkId (crypto : Crypto) (scheme : Falcon.Scheme) (store : CKeyStore) (key : CKey)
    (signs : Signs scheme key) (holds : Holds crypto store key) (txTo : CTransaction)
    (nIn : Fin txTo.vin.length) (amount : Int64) (base : BaseHashType) (anyone fork : Bool) :
    (produceSignature crypto
      (transactionSignatureCreator crypto scheme store txTo nIn amount (hashType base anyone fork))
      (getScriptForPubKeyHash (key.getPubKey.getID crypto))).1 = true ↔ fork = false := by
  obtain ⟨_, _, produced, _⟩ := produceSignature_pubKeyHash signs holds txTo nIn amount
    (hashType base anyone fork) hashType_byte
  rw [produced, definedHashType_iff]
  rw [Bool.not_eq_true']

/-! A closed signer, whose scheme hashes every message to the point zero. -/

namespace ToySigner

def crypto : Crypto :=
  { Crypto.zeros with
    sha256 := fun _ => Uint256.one
    ripemd160 := fun _ => ⟨1 :: replicate 19 0, rfl⟩ }

def scheme : Falcon.Scheme where
  toArithmetic := arithmetic 0
  signSignature _ _ _ := some ones
  derivePubKey _ := some (9 :: replicate 896 0)

lemma length_keydata : (0x59 :: replicate 1280 0 : Bytes).length = 1281 := by rw [length_cons, length_replicate]

lemma length_pubkeydata : (9 :: replicate 896 0 : Bytes).length = 897 := by rw [length_cons, length_replicate]

variable (compressed : Bool)

def key : CKey where
  fValid := true
  fCompressed := compressed
  keydata := 0x59 :: replicate 1280 0
  pubkeydata := 9 :: replicate 896 0
  sized := length_keydata
  pubSized := length_pubkeydata

def store (script : Bytes) : CKeyStore :=
  ⟨fun _ => some (key compressed), fun _ => some (key compressed).getPubKey, fun _ => some script⟩

def tx : CTransaction := ⟨[⟨⟨Uint256.null, 0⟩, [], 0xffffffff, []⟩], [⟨1000, [OP_1]⟩], 1, 0⟩

def input : Fin tx.vin.length := ⟨0, by decide⟩

lemma verifies (hash : Uint256) : zeroKey.verify (arithmetic 0) hash ones = true := by
  have closed : zeroKey.verify (arithmetic 0) Uint256.null ones = true := by decide +kernel
  -- the message is only read through the point it is hashed to
  obtain ⟨valid, nonce, buf, x, shape, length, decoded, accepted⟩ := (CPubKey.verify_iff ..).mp closed
  refine (CPubKey.verify_iff ..).mpr ⟨valid, nonce, buf, x, shape, length, decoded, ?_⟩
  rw [← accepted]
  simp only [Falcon.accepts, arithmetic]

lemma signs (compressed : Bool) : Signs scheme (key compressed) where
  valid := rfl
  signs hash _ := ⟨ones, rfl, rfl, by decide +kernel, verifies hash⟩

lemma holds (script : Bytes) : Holds crypto (store compressed script) (key compressed) := ⟨rfl, rfl⟩

def produce (script scriptPubKey : Bytes) (nHashType : Int32) : Bool × SignatureData :=
  produceSignature crypto
    (transactionSignatureCreator crypto scheme (store compressed script) tx input 1000 nHashType)
    scriptPubKey

theorem plain_all_accepted : (produce true [] (getScriptForPubKeyHash ((key true).getPubKey.getID crypto))
      (hashType .ALL false false)).1 = true :=
  (produceSignature_forkId crypto scheme (store true []) (key true) (signs true) (holds true []) tx input
    1000 .ALL false false).mpr rfl

/-- SIGHASH_ALL with SIGHASH_FORKID: the signature is made and then refused. -/
theorem replay_protected_refused : Signs scheme (key true) ∧ Holds crypto (store true []) (key true) ∧
    (produce true [] (getScriptForPubKeyHash ((key true).getPubKey.getID crypto))
      (SIGHASH_ALL ||| SIGHASH_FORKID)).1 = false :=
  ⟨signs true, holds true [], by decide +kernel⟩

end ToySigner

end Dragonchain.Script
