import Dragonchain.IsMine

/-!
Signing for what IsMine calls spendable. IsMine follows the known scripts through every
nesting and looks at public keys only; ProduceSignature follows one P2SH script and one
witness program, refuses a key without its compressed flag in a witness, and runs its
result through VerifyScript, which takes the hash of a P2PKH script only from the shortest
push. What it signs for is described by the script inside the P2SH script, if there is one.
-/

namespace Dragonchain.Wallet

open Script Outcome List ToySigner

/-! The key stores that operations build up. -/

variable {pc vch rest script vchSig vchPubKey inner subscript ran second : Bytes}
  {redeemScripts witness values otherScripts : List Bytes} {creator : BaseSignatureCreator}
  {checker : BaseSignatureChecker} {hash : Uint256} {sigversion : SigVersion}

inductive StoreOperation where
  | addKey (key : CKey)
  | addCScript (redeemScript : Bytes)
  | addWatchOnly (dest : Bytes)
  | removeWatchOnly (dest : Bytes)

namespace CBasicKeyStore
variable (crypto : Crypto)

def operate (store : CBasicKeyStore) : StoreOperation → CBasicKeyStore
  | .addKey key => (store.addKey crypto key).2
  | .addCScript redeemScript => (store.addCScript crypto redeemScript).2
  | .addWatchOnly dest => (store.addWatchOnly crypto dest).2
  | .removeWatchOnly dest => (store.removeWatchOnly crypto dest).2

def after (operations : List StoreOperation) : CBasicKeyStore := operations.foldl (operate crypto) {}

/-- Every key signs and is filed under its own id, and so is every script. -/
structure Sound (scheme : Falcon.Scheme) (store : CBasicKeyStore) : Prop where
  keys : ∀ {id : Uint160} {key : CKey}, store.getKey id = some key →
    Signs scheme key ∧ key.getPubKey.getID crypto = id
  scripts : ∀ {id : Uint160} {script : Bytes}, store.getCScript id = some script → crypto.hash160 script = id

variable {crypto} {scheme : Falcon.Scheme} {store : CBasicKeyStore}

variable (sound : Sound crypto scheme store)
include sound

lemma Sound.learn (script : Bytes) : Sound crypto scheme { store with
      mapScripts := store.mapScripts.insert (crypto.hash160 script) script } where
  keys := sound.keys
  scripts := by
    intro id other found
    rw [getCScript] at found
    by_cases same : id = crypto.hash160 script
    · subst same
      rw [AList.lookup_insert] at found
      rw [← Option.some.inj found]
    · rw [AList.lookup_insert_ne same] at found
      exact sound.scripts found

lemma Sound.learnKeyScripts (pubkey : CPubKey) :
    Sound crypto scheme (store.implicitlyLearnRelatedKeyScripts crypto pubkey) := by
  rw [implicitlyLearnRelatedKeyScripts]
  split
  · exact sound.learn _
  · exact sound

lemma Sound.addKey {key : CKey} (signs : Signs scheme key) : Sound crypto scheme (store.addKey crypto key).2 := by
  have stored : Sound crypto scheme
      { store with mapKeys := store.mapKeys.insert (key.getPubKey.getID crypto) key } := by
    constructor
    · intro id other found
      rw [getKey] at found
      by_cases same : id = key.getPubKey.getID crypto
      · subst same
        rw [AList.lookup_insert] at found
        obtain rfl := Option.some.inj found
        exact ⟨signs, rfl⟩
      · rw [AList.lookup_insert_ne same] at found
        exact sound.keys found
    · exact sound.scripts
  exact stored.learnKeyScripts key.getPubKey

lemma Sound.watch (mapWatchKeys : AList fun _ : Uint160 => CPubKey) (setWatchOnly : List Bytes) :
    Sound crypto scheme ⟨store.mapKeys, mapWatchKeys, store.mapScripts, setWatchOnly⟩ :=
  ⟨sound.keys, sound.scripts⟩

/-- The keys that an operation adds sign. -/
def Signing (scheme : Falcon.Scheme) : StoreOperation → Prop
  | .addKey key => Signs scheme key
  | _ => True

lemma Sound.operate {operation : StoreOperation}
    (signing : Signing scheme operation) : Sound crypto scheme (store.operate crypto operation) := by
  cases operation with
  | addKey key => exact sound.addKey signing
  | addCScript redeemScript =>
    rw [CBasicKeyStore.operate, addCScript]
    split
    · exact sound
    · exact sound.learn redeemScript
  | addWatchOnly dest =>
    rw [CBasicKeyStore.operate, addWatchOnly]
    split
    · exact sound.watch _ _
    · exact (sound.watch _ _).learnKeyScripts _
  | removeWatchOnly dest =>
    rw [CBasicKeyStore.operate, removeWatchOnly]
    split
    · exact sound.watch _ _
    · exact sound.watch _ _

omit sound

lemma sound_after {operations : List StoreOperation} (signing : ∀ operation ∈ operations, Signing scheme operation) :
    Sound crypto scheme (after crypto operations) := by
  have run (operations : List StoreOperation)
      (signing : ∀ operation ∈ operations, Signing scheme operation) {store : CBasicKeyStore}
      (sound : Sound crypto scheme store) :
      Sound crypto scheme (operations.foldl (CBasicKeyStore.operate crypto) store) := by
    induction operations generalizing store with
    | nil => exact sound
    | cons operation rest ih =>
      obtain ⟨first, others⟩ := forall_mem_cons.mp signing
      exact ih others (sound.operate first)
  exact run operations signing ⟨nofun, nofun⟩

lemma Sound.holds (sound : Sound crypto scheme store) {id : Uint160} {key : CKey}
    (found : store.getKey id = some key) : Script.Holds crypto store.toKeyStore key := by
  obtain ⟨-, rfl⟩ := sound.keys found
  refine ⟨found, ?_⟩
  change store.getPubKey (key.getPubKey.getID crypto) = some key.getPubKey
  rw [getPubKey, found]

end CBasicKeyStore

open CBasicKeyStore

/-! P2PKH scripts: Solver takes any push of the hash, VerifyScript the shortest. -/

lemma getOp_direct {opcode : UInt8} (read : getOp pc = some (opcode, vch, rest))
    (direct : opcode < OP_PUSHDATA1 ∨ ¬ opcode ≤ OP_PUSHDATA4) : pc = opcode :: (vch ++ rest) := by
  obtain ⟨size, rfl, low, high⟩ := getOp_inv read
  rw [direct.elim (fun small => (low small).1) fun plain => (high plain).1, nil_append]

lemma solver_pubKeyHash_inv (typed : (solver script).typeRet = some .TX_PUBKEYHASH) :
    ∃ keyID opcode, solver script = ⟨true, some .TX_PUBKEYHASH, [keyID.bytes]⟩ ∧
      ReadsPubKeyHash script keyID opcode := by
  obtain ⟨template, member, matched, solved⟩ := solver_inv rfl typed
  obtain rfl : template = [OP_DUP, OP_HASH160, OP_PUBKEYHASH, OP_EQUALVERIFY, OP_CHECKSIG] := by
    simpa [mTemplates] using member
  obtain ⟨keyID, opcode, found, reads⟩ := matchTemplate_pubKeyHash matched
  refine ⟨keyID, opcode, ?_, reads⟩
  cases shape : solver script with
  | mk verdict typeRet vSolutionsRet =>
    rw [shape] at typed solved found
    cases typed
    cases solved
    cases found
    rfl

lemma evalScript_canonical {crypto : Crypto} {keyID : Uint160}
    (found : solver script = ⟨true, some .TX_PUBKEYHASH, [keyID.bytes]⟩) {final : EvalState}
    (ran : evalScript crypto standard checker sigversion [vchPubKey, vchSig] script = .ok final) :
    script = getScriptForPubKeyHash keyID := by
  obtain ⟨other, opcode, same, reads⟩ := solver_pubKeyHash_inv (congrArg Solution.typeRet found)
  obtain rfl := uint160_inj.mp (head_eq_of_cons_eq (congrArg Solution.vSolutionsRet (same.symm.trans found)))
  have code : opcode = 20 := by
    have minimal := (evalScript_template reads ran).1
    simp only [checkMinimalPush, other.size] at minimal
    exact UInt8.toNat_inj.mp (by simpa using minimal)
  subst code
  obtain ⟨readDup, readHash, readPush, readEqual, readSig⟩ := reads
  rw [getOp_direct readDup (.inr (by decide)), getOp_direct readHash (.inr (by decide)),
    getOp_direct readPush (.inl (by decide)), getOp_direct readEqual (.inr (by decide)),
    getOp_direct readSig (.inr (by decide)), getScriptForPubKeyHash, pushData_hash]
  simp

/-! What ProduceSignature signs for. -/

/-- A script itself, or behind the hash of it that the store knows, with what the scriptSig
then ends in. -/
inductive Wraps (crypto : Crypto) (store : CBasicKeyStore) (inner : Bytes) : List Bytes → Bytes → Prop
  | bare : Wraps crypto store inner [] inner
  | nested (known : store.getCScript (crypto.hash160 inner) = some inner) :
      Wraps crypto store inner [inner] (getScriptForScriptHash (crypto.hash160 inner))

/-- P2PKH with the shortest push, and its witness forms for a key that has its compressed
flag, where the program does not read as false. -/
inductive Pays (crypto : Crypto) (store : CBasicKeyStore) : Bytes → Prop
  | pubKeyHash (keyID : Uint160) : Pays crypto store (getScriptForPubKeyHash keyID)
  | witnessKeyHash {keyID : Uint160} {key : CKey} (held : store.getKey keyID = some key)
      (compressed : key.isCompressed = true) (reads : castToBool keyID.bytes = true) :
      Pays crypto store (getScriptForWitnessKeyHash keyID)
  | witnessScriptHash {keyID : Uint160} {key : CKey} (held : store.getKey keyID = some key)
      (compressed : key.isCompressed = true)
      (known : store.getCScript (crypto.hash160 (getScriptForPubKeyHash keyID)) =
        some (getScriptForPubKeyHash keyID))
      (reads : castToBool (crypto.sha256 (getScriptForPubKeyHash keyID)).bytes = true) :
      Pays crypto store (getScriptForWitnessScriptHash (crypto.sha256 (getScriptForPubKeyHash keyID)))

def Signable (crypto : Crypto) (store : CBasicKeyStore) (script : Bytes) : Prop :=
  ∃ inner redeemScripts, Wraps crypto store inner redeemScripts script ∧ Pays crypto store inner

abbrev allCreator (crypto : Crypto) (scheme : Falcon.Scheme) (store : CBasicKeyStore) (txTo : CTransaction)
    (nIn : Fin txTo.vin.length) (amount : Int64) : BaseSignatureCreator :=
  transactionSignatureCreator crypto scheme store.toKeyStore txTo nIn amount SIGHASH_ALL

section Produce
variable {crypto : Crypto} {scheme : Falcon.Scheme} {store : CBasicKeyStore}
  (owned : creator.keystore = store.toKeyStore) (real : creator.isDummy = false)
include owned real

lemma produceSignature_wraps {signed : Bool × List Bytes × List Bytes}
    (wraps : Wraps crypto store inner redeemScripts script) (plain : (solver inner).typeRet ≠ some .TX_SCRIPTHASH)
    (result : signWitness crypto creator (signStep crypto creator inner .BASE) = signed) :
    (produceSignature crypto creator script).1 = true ↔ signed.1 = true ∧ verifyScript crypto standard
      creator.checker (pushAll (signed.2.2 ++ redeemScripts)) script signed.2.1 = .ok () := by
  have assembled : assembleSignature crypto creator script =
      (signed.1, ⟨pushAll (signed.2.2 ++ redeemScripts), signed.2.1⟩) := by
    rw [← result]
    cases wraps with
    | bare =>
      rw [append_nil]
      exact assembleSignature_direct plain
    | nested known => exact assembleSignature_nested (signStep_scriptHash (owned.symm ▸ known)) plain
  simp [produceSignature, assembled, real, isOk_unit]

omit owned real

lemma verifyScript_wraps_program {program : Bytes} (long : 2 ≤ program.length) (short : program.length ≤ 40)
    (wraps : Wraps crypto store (OP_0 :: pushData program) redeemScripts script) :
    verifyScript crypto standard checker (pushAll redeemScripts) script witness = .ok () ↔
      castToBool program = true ∧ verifyWitnessProgram crypto standard checker witness 0 program = .ok () := by
  cases wraps with
  | bare => exact verifyScript_program long short
  | nested _ => exact verifyScript_nestedProgram long short

/-- Whatever pays to a key hash has run on the values before it is accepted. -/
lemma evalScript_wraps (wraps : Wraps crypto store inner redeemScripts script)
    (accepted : verifyScript crypto standard checker (pushAll (values ++ redeemScripts)) script [] = .ok ()) :
    ∃ state, evalScript crypto standard checker .BASE values.reverse inner = .ok state := by
  cases wraps with
  | bare =>
    rw [append_nil] at accepted
    exact (verifyScript_accepted accepted).1
  | nested _ => exact (verifyScript_acceptedP2SH isPayToScriptHash_scriptHash accepted).1

lemma length_getScriptForPubKeyHash (keyID : Uint160) : (getScriptForPubKeyHash keyID).length = 25 := by
  rw [getScriptForPubKeyHash, pushData_hash]
  simp [keyID.size]

lemma verifyScript_wraps_pubKeyHash {key : CKey} (signs : Signs scheme key)
    (made : Made checker key (getScriptForPubKeyHash (key.getPubKey.getID crypto)) .BASE vchSig 1)
    (wraps : Wraps crypto store (getScriptForPubKeyHash (key.getPubKey.getID crypto)) redeemScripts script) :
    verifyScript crypto standard checker
      (pushAll ([vchSig ++ [1], key.getPubKey.bytes] ++ redeemScripts)) script [] = .ok () := by
  cases wraps with
  | bare => exact (verifyScript_pubKeyHash signs made).mpr (by decide)
  | nested _ =>
    have size := length_getScriptForPubKeyHash (key.getPubKey.getID crypto)
    obtain ⟨single, sizes⟩ := signedValues_range signs made
    have all : ∀ v ∈ [vchSig ++ [1], key.getPubKey.bytes] ++
        [getScriptForPubKeyHash (key.getPubKey.getID crypto)],
        v.length ≠ 1 ∧ v.length ≤ MAX_SCRIPT_ELEMENT_SIZE := by
      intro v member
      cases mem_append.mp member with
      | inl value => exact ⟨single v value, sizes v value⟩
      | inr redeem =>
        rw [mem_singleton.mp redeem, size]
        decide
    have length : (pushAll ([vchSig ++ [1], key.getPubKey.bytes] ++
        [getScriptForPubKeyHash (key.getPubKey.getID crypto)])).length ≤ MAX_SCRIPT_SIZE := by
      have bound := length_pushAll_le ([vchSig ++ [1], key.getPubKey.bytes] ++
        [getScriptForPubKeyHash (key.getPubKey.getID crypto)])
      have pubSize := CPubKey.length_bytes (CKey.getPubKey_valid signs.valid)
      have short := made.short
      rw [CKey.SIGN_SIZE] at short
      simp only [cons_append, nil_append, map_cons, map_nil, sum_cons,
        sum_nil, length_append, length_singleton, pubSize, size] at bound
      rw [MAX_SCRIPT_SIZE]
      exact le_trans bound (by omega)
    refine (verifyScript_scriptHash fun v member => (all v member).1).mpr ⟨length,
      fun v member => (all v member).2, (by decide : 2 + 2 ≤ MAX_STACK_SIZE), _,
      (evalScript_signed signs made).mpr ⟨by decide, rfl⟩,
      (requireTrue_cons ..).mpr rfl, (false, [vchTrue]), ?_, rfl, .inr rfl⟩
    rw [verifyWitness, isWitnessProgram_pubKeyHash]
    rfl

/-! P2WSH. -/

lemma scriptHash_plain : (solver (getScriptForWitnessScriptHash hash)).typeRet ≠ some .TX_SCRIPTHASH := by
  rw [solver_witnessScriptHash]
  exact (nomatch ·)

lemma range_hash : 2 ≤ hash.bytes.length ∧ hash.bytes.length ≤ 40 := by
  rw [hash.size]
  decide

include owned

lemma signWitness_known (known : store.getCScript (crypto.ripemd160 hash.bytes) = some subscript) :
    signWitness crypto creator (signStep crypto creator (getScriptForWitnessScriptHash hash) .BASE) =
      ((signStep crypto creator subscript .WITNESS_V0).solved
          && (solver subscript).typeRet != some .TX_SCRIPTHASH
          && (solver subscript).typeRet != some .TX_WITNESS_V0_SCRIPTHASH
          && (solver subscript).typeRet != some .TX_WITNESS_V0_KEYHASH,
        (signStep crypto creator subscript .WITNESS_V0).ret ++ [subscript], []) := by
  have found : creator.keystore.getCScript (crypto.ripemd160 hash.bytes) = some subscript := owned ▸ known
  have step : signStep crypto creator (getScriptForWitnessScriptHash hash) .BASE =
      ⟨true, [subscript], some .TX_WITNESS_V0_SCRIPTHASH⟩ := by
    simp [signStep, solver_witnessScriptHash, found]
  rw [step, signWitness_scriptHash]

omit owned

lemma witnessScript_hash {first : Bytes} {stack : Stack} :
    witnessScript crypto ([first, second] ++ [subscript]) hash.bytes = .ok (ran, stack) ↔
      crypto.sha256 subscript = hash ∧ subscript = ran ∧ [second, first] = stack := by
  rw [witnessScript, if_pos hash.size, getLast?_concat, dropLast_concat]
  simp only [require_bind_eq_ok, beq_iff_eq, pure_eq_ok, Prod.mk.injEq]
  exact and_congr_left fun _ => ⟨fun same => by cases hash; cases same; rfl, congrArg Uint256.bytes⟩

include owned real

/-- The inner scripts that ProduceSignature refuses in a witness although IsMine follows them. -/
lemma produceSignature_refused (known : store.getCScript (crypto.ripemd160 hash.bytes) = some subscript)
    (typed : (solver subscript).typeRet = some .TX_SCRIPTHASH ∨
      (solver subscript).typeRet = some .TX_WITNESS_V0_SCRIPTHASH ∨
      (solver subscript).typeRet = some .TX_WITNESS_V0_KEYHASH)
    (wraps : Wraps crypto store (getScriptForWitnessScriptHash hash) redeemScripts script) :
    ¬ (produceSignature crypto creator script).1 = true := by
  rw [produceSignature_wraps owned real wraps scriptHash_plain (signWitness_known owned known)]
  rintro ⟨solved, _⟩
  rcases typed with typed | typed | typed <;> simp [typed] at solved

omit owned real

/-! The types that IsMine can find spendable, for a key that the store holds. -/

section Held
variable (txTo : CTransaction) (nIn : Fin txTo.vin.length) (amount : Int64) {keyID : Uint160} {key : CKey}
  (sound : CBasicKeyStore.Sound crypto scheme store) (held : store.getKey keyID = some key)

include sound held

lemma produceSignature_typed (found : solver inner = ⟨true, some .TX_PUBKEYHASH, [keyID.bytes]⟩)
    (wraps : Wraps crypto store inner redeemScripts script) :
    (produceSignature crypto (allCreator crypto scheme store txTo nIn amount) script).1 = true ↔
      inner = getScriptForPubKeyHash keyID := by
  have holds := sound.holds held
  obtain ⟨signs, rfl⟩ := sound.keys held
  have plain : (solver inner).typeRet ≠ some .TX_SCRIPTHASH := by
    rw [found]
    exact (nomatch ·)
  obtain ⟨vchSig, step, made⟩ := signStep_pubKeyHash signs holds txTo nIn amount SIGHASH_ALL found .BASE
    (.inl rfl) (by decide)
  rw [produceSignature_wraps rfl rfl wraps plain (congrArg _ step)]
  constructor
  · rintro ⟨_, verified⟩
    obtain ⟨_, ran⟩ := evalScript_wraps wraps verified
    exact evalScript_canonical found ran
  · rintro rfl
    exact ⟨rfl, verifyScript_wraps_pubKeyHash signs made wraps⟩

lemma produceSignature_keyHash
    (wraps : Wraps crypto store (getScriptForWitnessKeyHash keyID) redeemScripts script) :
    (produceSignature crypto (allCreator crypto scheme store txTo nIn amount) script).1 = true ↔
      key.isCompressed = true ∧ castToBool keyID.bytes = true := by
  have holds := sound.holds held
  obtain ⟨signs, rfl⟩ := sound.keys held
  have plain : (solver (getScriptForWitnessKeyHash (key.getPubKey.getID crypto))).typeRet ≠
      some .TX_SCRIPTHASH := by
    rw [solver_witnessKeyHash]
    rintro ⟨⟩
  have step : signStep crypto (allCreator crypto scheme store txTo nIn amount)
      (getScriptForWitnessKeyHash (key.getPubKey.getID crypto)) .BASE =
        ⟨true, [(key.getPubKey.getID crypto).bytes], some .TX_WITNESS_V0_KEYHASH⟩ := by
    rw [signStep, solver_witnessKeyHash]
    rfl
  have range : 2 ≤ (key.getPubKey.getID crypto).bytes.length ∧ (key.getPubKey.getID crypto).bytes.length ≤ 40 := by
    rw [Uint160.size]
    decide
  rw [produceSignature_wraps rfl rfl wraps plain ((congrArg _ step).trans (signWitness_keyHash _)),
    nil_append, verifyScript_wraps_program range.1 range.2 wraps]
  cases compressed : key.isCompressed with
  | false =>
    rw [signStep_uncompressed holds txTo nIn amount SIGHASH_ALL solver_pubKeyHash compressed]
    refine iff_of_false ?_ ?_ <;> rintro ⟨⟨⟩, _⟩
  | true =>
    obtain ⟨vchSig, signed, made⟩ := signStep_pubKeyHash signs holds txTo nIn amount SIGHASH_ALL
      solver_pubKeyHash .WITNESS_V0 (.inr compressed) (by decide)
    rw [signed]
    have verified := verifyWitnessProgram_signed signs (by decide : KeyForm.P2WPKH ≠ .P2PKH) made
    exact and_congr_right fun _ => and_iff_left verified

lemma produceSignature_scriptHash (known : store.getCScript (crypto.ripemd160 hash.bytes) = some subscript)
    (found : solver subscript = ⟨true, some .TX_PUBKEYHASH, [keyID.bytes]⟩)
    (wraps : Wraps crypto store (getScriptForWitnessScriptHash hash) redeemScripts script) :
    (produceSignature crypto (allCreator crypto scheme store txTo nIn amount) script).1 = true ↔
      key.isCompressed = true ∧ castToBool hash.bytes = true ∧ crypto.sha256 subscript = hash ∧
        subscript = getScriptForPubKeyHash keyID := by
  have holds := sound.holds held
  obtain ⟨signs, rfl⟩ := sound.keys held
  rw [produceSignature_wraps rfl rfl wraps scriptHash_plain (signWitness_known rfl known), nil_append,
    verifyScript_wraps_program range_hash.1 range_hash.2 wraps, found]
  cases compressed : key.isCompressed with
  | false =>
    rw [signStep_uncompressed holds txTo nIn amount SIGHASH_ALL found compressed]
    refine iff_of_false ?_ ?_ <;> rintro ⟨⟨⟩, _⟩
  | true =>
    obtain ⟨vchSig, signed, made⟩ := signStep_pubKeyHash signs holds txTo nIn amount SIGHASH_ALL found
      .WITNESS_V0 (.inr compressed) (by decide)
    rw [signed]
    refine and_congr_right fun _ => and_congr_right fun _ => ?_
    constructor
    · intro verified
      obtain ⟨ran, stack, shape, _, _, _, evaluated, _⟩ := verifyWitnessProgram_ok.mp verified
      obtain ⟨same, rfl, rfl⟩ := witnessScript_hash.mp shape
      exact ⟨same, evalScript_canonical found evaluated⟩
    · rintro ⟨rfl, rfl⟩
      exact verifyWitnessProgram_signed signs (by decide : KeyForm.P2WSH_P2PKH ≠ .P2PKH) made

end Held

end Produce

/-! Both sides by the type that Solver finds. -/

section Pays
variable {crypto : Crypto} {store : CBasicKeyStore}

lemma Pays.plain (pays : Pays crypto store script) : (solver script).typeRet ≠ some .TX_SCRIPTHASH := by
  cases pays with
  | pubKeyHash keyID =>
    rw [solver_pubKeyHash]
    exact (nomatch ·)
  | witnessKeyHash =>
    rw [solver_witnessKeyHash]
    exact (nomatch ·)
  | witnessScriptHash => exact scriptHash_plain

variable {keyID : Uint160}

variable (pays : Pays crypto store script)
include pays

lemma Pays.of_pubKeyHash (found : solver script = ⟨true, some .TX_PUBKEYHASH, [keyID.bytes]⟩) :
    script = getScriptForPubKeyHash keyID := by
  cases pays with
  | pubKeyHash other =>
    rw [solver_pubKeyHash] at found
    rw [uint160_inj.mp (head_eq_of_cons_eq (congrArg Solution.vSolutionsRet found))]
  | witnessKeyHash => cases (solver_witnessKeyHash _).symm.trans found
  | witnessScriptHash => cases (solver_witnessScriptHash _).symm.trans found

lemma Pays.of_keyHash (found : solver script = ⟨true, some .TX_WITNESS_V0_KEYHASH, [keyID.bytes]⟩) :
    ∃ key, store.getKey keyID = some key ∧ key.isCompressed = true ∧ castToBool keyID.bytes = true := by
  cases pays with
  | pubKeyHash other => cases solver_pubKeyHash.symm.trans found
  | witnessKeyHash held compressed reads =>
    rw [solver_witnessKeyHash] at found
    obtain rfl := uint160_inj.mp (head_eq_of_cons_eq (congrArg Solution.vSolutionsRet found))
    exact ⟨_, held, compressed, reads⟩
  | witnessScriptHash => cases (solver_witnessScriptHash _).symm.trans found

lemma Pays.of_scriptHash (found : solver script = ⟨true, some .TX_WITNESS_V0_SCRIPTHASH, [hash.bytes]⟩) :
    ∃ keyID key, store.getKey keyID = some key ∧ key.isCompressed = true ∧
      castToBool hash.bytes = true ∧ crypto.sha256 (getScriptForPubKeyHash keyID) = hash ∧
      store.getCScript (crypto.ripemd160 hash.bytes) = some (getScriptForPubKeyHash keyID) := by
  cases pays with
  | pubKeyHash other => cases solver_pubKeyHash.symm.trans found
  | witnessKeyHash => cases (solver_witnessKeyHash _).symm.trans found
  | witnessScriptHash held compressed known reads =>
    rw [solver_witnessScriptHash] at found
    have same := head_eq_of_cons_eq (congrArg Solution.vSolutionsRet found)
    cases hash
    cases same
    exact ⟨_, _, held, compressed, reads, rfl, known⟩

omit pays

lemma spendable_held
    (apart : store.getKey (crypto.hash160 []) = none) (mine : Spendable crypto store script sigversion)
    (found : solver script = ⟨true, some .TX_PUBKEYHASH, [keyID.bytes]⟩) :
    ∃ key, store.getKey keyID = some key := by
  obtain ⟨_, type, typed, grounds⟩ := spendable_grounds apart mine
  rw [found] at typed grounds
  cases typed
  rw [Grounds, headD_cons, toUint160_bytes] at grounds
  exact Option.isSome_iff_exists.mp grounds

end Pays

section Owned
variable {crypto : Crypto} {scheme : Falcon.Scheme} {store : CBasicKeyStore}
  (sound : CBasicKeyStore.Sound crypto scheme store)
  (apart : store.getKey (crypto.hash160 []) = none) {txTo : CTransaction}
  {nIn : Fin txTo.vin.length} {amount : Int64}

include sound apart

lemma produceSignature_scriptHash_iff (mine : Spendable crypto store (getScriptForWitnessScriptHash hash) .BASE)
    (wraps : Wraps crypto store (getScriptForWitnessScriptHash hash) redeemScripts script) :
    (produceSignature crypto (allCreator crypto scheme store txTo nIn amount) script).1 = true ↔
      Pays crypto store (getScriptForWitnessScriptHash hash) := by
  have found := solver_witnessScriptHash hash
  obtain ⟨_, type, typed, grounds⟩ := spendable_grounds apart mine
  rw [found] at typed grounds
  cases typed
  obtain ⟨subscript, known, within⟩ := grounds
  have only {keyID : Uint160}
      (same : store.getCScript (crypto.ripemd160 hash.bytes) = some (getScriptForPubKeyHash keyID)) :
      subscript = getScriptForPubKeyHash keyID := Option.some.inj (known.symm.trans same)
  obtain ⟨_, type, typed, grounds⟩ := spendable_grounds apart within
  have refused (other : (solver subscript).typeRet ≠ some .TX_PUBKEYHASH) :
      ¬ Pays crypto store (getScriptForWitnessScriptHash hash) := by
    intro pays
    obtain ⟨keyID, _, _, _, _, _, same⟩ := pays.of_scriptHash found
    rw [only same, solver_pubKeyHash] at other
    exact other rfl
  cases type with
  | TX_PUBKEYHASH =>
    obtain ⟨keyID, _, foundKey, _⟩ := solver_pubKeyHash_inv typed
    obtain ⟨key, held⟩ := spendable_held apart within foundKey
    rw [produceSignature_scriptHash txTo nIn amount sound held known foundKey wraps]
    constructor
    · rintro ⟨compressed, reads, rfl, rfl⟩
      exact .witnessScriptHash held compressed known reads
    · intro pays
      obtain ⟨other, key', held', compressed, reads, hashed, same⟩ := pays.of_scriptHash found
      obtain rfl := only same
      rw [solver_pubKeyHash] at foundKey
      obtain rfl := uint160_inj.mp (head_eq_of_cons_eq (congrArg Solution.vSolutionsRet foundKey))
      cases held.symm.trans held'
      exact ⟨compressed, reads, hashed, rfl⟩
  | TX_SCRIPTHASH | TX_WITNESS_V0_SCRIPTHASH | TX_WITNESS_V0_KEYHASH =>
    exact iff_of_false (produceSignature_refused rfl rfl known (by simp [typed]) wraps)
      (refused (by rw [typed]; exact (nomatch ·)))
  | TX_NONSTANDARD | TX_PUBKEY | TX_MULTISIG | TX_NULL_DATA | TX_WITNESS_UNKNOWN => exact grounds.elim

lemma produceSignature_inner_iff (mine : Spendable crypto store inner .BASE)
    (plain : (solver inner).typeRet ≠ some .TX_SCRIPTHASH) (wraps : Wraps crypto store inner redeemScripts script) :
    (produceSignature crypto (allCreator crypto scheme store txTo nIn amount) script).1 = true ↔
      Pays crypto store inner := by
  obtain ⟨_, type, typed, grounds⟩ := spendable_grounds apart mine
  cases type with
  | TX_PUBKEYHASH =>
    obtain ⟨keyID, _, found, _⟩ := solver_pubKeyHash_inv typed
    obtain ⟨key, held⟩ := spendable_held apart mine found
    rw [produceSignature_typed txTo nIn amount sound held found wraps]
    constructor
    · rintro rfl
      exact .pubKeyHash keyID
    · exact fun pays => pays.of_pubKeyHash found
  | TX_WITNESS_V0_KEYHASH =>
    obtain ⟨program, shape, size, found⟩ := solver_witness_inv rfl typed
    obtain ⟨keyID, rfl⟩ : ∃ keyID : Uint160, program = keyID.bytes := ⟨⟨program, size⟩, rfl⟩
    obtain rfl : inner = getScriptForWitnessKeyHash keyID := isWitnessProgram_inv shape
    rw [Grounds, found, headD_cons, toUint160_bytes] at grounds
    obtain ⟨key, held⟩ := spendable_held apart grounds solver_pubKeyHash
    rw [produceSignature_keyHash txTo nIn amount sound held wraps]
    constructor
    · rintro ⟨compressed, reads⟩
      exact .witnessKeyHash held compressed reads
    · intro pays
      obtain ⟨_, held', both⟩ := pays.of_keyHash found
      cases held.symm.trans held'
      exact both
  | TX_WITNESS_V0_SCRIPTHASH =>
    obtain ⟨program, shape, size, _⟩ := solver_witness_inv rfl typed
    obtain ⟨hash, rfl⟩ : ∃ hash : Uint256, program = hash.bytes := ⟨⟨program, size⟩, rfl⟩
    obtain rfl : inner = getScriptForWitnessScriptHash hash := isWitnessProgram_inv shape
    exact produceSignature_scriptHash_iff sound apart mine wraps
  | TX_SCRIPTHASH => exact absurd typed plain
  | TX_NONSTANDARD | TX_PUBKEY | TX_MULTISIG | TX_NULL_DATA | TX_WITNESS_UNKNOWN => exact grounds.elim

/-- What is spendable is spendable for an inner script, or is P2SH inside P2SH. -/
lemma spendable_wraps (mine : Spendable crypto store script .BASE) :
    (∃ inner redeemScripts, Wraps crypto store inner redeemScripts script ∧
      Spendable crypto store inner .BASE ∧ (solver inner).typeRet ≠ some .TX_SCRIPTHASH) ∨
    ∃ subscript, script = getScriptForScriptHash (crypto.hash160 subscript) ∧
      store.getCScript (crypto.hash160 subscript) = some subscript ∧
      (solver subscript).typeRet = some .TX_SCRIPTHASH := by
  by_cases typed : (solver script).typeRet = some .TX_SCRIPTHASH
  · obtain ⟨scriptID, rfl⟩ := eq_scriptHash_of_solver typed
    obtain ⟨_, type, same, grounds⟩ := spendable_grounds apart mine
    rw [solver_scriptHash] at same grounds
    cases same
    obtain ⟨subscript, known, within⟩ := grounds
    rw [headD_cons, toUint160_bytes] at known
    obtain rfl := sound.scripts known
    by_cases inside : (solver subscript).typeRet = some .TX_SCRIPTHASH
    · exact .inr ⟨subscript, rfl, known, inside⟩
    · exact .inl ⟨subscript, [subscript], .nested known, within, inside⟩
  · exact .inl ⟨script, [], .bare, mine, typed⟩

end Owned

section Nesting
variable {crypto : Crypto} {store : CBasicKeyStore}

lemma getScriptForScriptHash_inj {first second : Uint160}
    (same : getScriptForScriptHash first = getScriptForScriptHash second) : first = second := by
  have solved := congrArg solver same
  rw [solver_scriptHash, solver_scriptHash] at solved
  exact uint160_inj.mp (head_eq_of_cons_eq (congrArg Solution.vSolutionsRet solved))

/-- A P2SH script wraps the one script that the store knows for it. -/
lemma Wraps.inner_eq {known : Bytes} (wraps : Wraps crypto store inner redeemScripts script)
    (plain : (solver inner).typeRet ≠ some .TX_SCRIPTHASH)
    (shape : script = getScriptForScriptHash (crypto.hash160 known))
    (found : store.getCScript (crypto.hash160 known) = some known) : inner = known := by
  cases wraps with
  | bare =>
    rw [shape, solver_scriptHash] at plain
    exact absurd rfl plain
  | nested other =>
    rw [getScriptForScriptHash_inj shape, found] at other
    exact (Option.some.inj other).symm

lemma Wraps.unique {first : Bytes} (one : Wraps crypto store first redeemScripts script)
    (other : Wraps crypto store second otherScripts script) (plain : (solver first).typeRet ≠ some .TX_SCRIPTHASH)
    (plain' : (solver second).typeRet ≠ some .TX_SCRIPTHASH) : second = first := by
  cases one with
  | bare =>
    cases other with
    | bare => rfl
    | nested _ =>
      rw [solver_scriptHash] at plain
      exact absurd rfl plain
  | nested known => exact other.inner_eq plain' rfl known

lemma produceSignature_doubled (known : creator.keystore.getCScript (crypto.hash160 subscript) = some subscript)
    (typed : (solver subscript).typeRet = some .TX_SCRIPTHASH) :
    (produceSignature crypto creator (getScriptForScriptHash (crypto.hash160 subscript))).1 = false := by
  have step := signStep_type crypto creator subscript .BASE
  rw [typed] at step
  have unsolved : (assembleSignature crypto creator
      (getScriptForScriptHash (crypto.hash160 subscript))).1 = false := by
    rw [assembleSignature, signStep_scriptHash known]
    simp [step, signWitness]
  rw [produceSignature]
  dsimp only
  rw [unsolved, Bool.false_and]
  split <;> rfl

end Nesting

/-- A script that IsMine calls spendable, in a store of signing keys and known scripts: it
is signed for with SIGHASH_ALL exactly when it is P2PKH with the shortest push, or the
P2WPKH or P2WSH form of it for a compressed key, itself or once behind P2SH. -/
theorem spendable_signed_iff (crypto : Crypto) (scheme : Falcon.Scheme) (operations : List StoreOperation)
    (signing : ∀ operation ∈ operations, CBasicKeyStore.Signing scheme operation)
    (apart : (after crypto operations).getKey (crypto.hash160 []) = none) (script : Bytes)
    (mine : Spendable crypto (after crypto operations) script .BASE) (txTo : CTransaction)
    (nIn : Fin txTo.vin.length) (amount : Int64) : (produceSignature crypto
      (allCreator crypto scheme (after crypto operations) txTo nIn amount) script).1 = true ↔
      Signable crypto (after crypto operations) script := by
  have sound : CBasicKeyStore.Sound crypto scheme (after crypto operations) := sound_after signing
  rcases spendable_wraps sound apart mine with ⟨inner, redeemScripts, wraps, within, plain⟩ |
    ⟨subscript, shape, known, typed⟩
  · rw [produceSignature_inner_iff sound apart within plain wraps]
    constructor
    · intro pays
      exact ⟨inner, redeemScripts, wraps, pays⟩
    · rintro ⟨other, others, wraps', pays⟩
      obtain rfl := wraps.unique wraps' plain pays.plain
      exact pays
  · subst shape
    rw [produceSignature_doubled known typed]
    refine iff_of_false Bool.false_ne_true ?_
    rintro ⟨inner, _, wraps, pays⟩
    -- the inner script could only be the known one, which is P2SH again
    obtain rfl := wraps.inner_eq pays.plain rfl known
    exact pays.plain typed

namespace ToyOwner

def crypto : Crypto :=
  { Crypto.zeros with
    sha256 := fun data => ⟨UInt8.ofNat data.length :: replicate 31 1, rfl⟩
    ripemd160 := fun data => toUint160 (data.take 20) }

variable (compressed : Bool)

def keyID : Uint160 := (key compressed).getPubKey.getID crypto

def operations : List StoreOperation :=
  [.addKey (key compressed), .addCScript (getScriptForPubKeyHash (keyID compressed)),
    .addCScript (getScriptForScriptHash (crypto.hash160 (getScriptForPubKeyHash (keyID compressed))))]

def store : CBasicKeyStore := after crypto (operations compressed)

def produce (script : Bytes) : Bool :=
  (produceSignature crypto (allCreator crypto scheme (store compressed) tx input 1000) script).1

def nestedKeyHash : Bytes := getScriptForScriptHash (crypto.hash160 (getScriptForWitnessKeyHash (keyID true)))

lemma signing : ∀ operation ∈ operations compressed, CBasicKeyStore.Signing scheme operation := by
  simp only [operations, forall_mem_cons, CBasicKeyStore.Signing, not_mem_nil, false_implies,
    implies_true, and_true]
  exact signs compressed

theorem nested_keyHash_signed : produce true nestedKeyHash = true :=
  have held : (store true).getKey (keyID true) = some (key true) := by decide +kernel
  (spendable_signed_iff crypto scheme (operations true) (signing true) (by decide +kernel)
    nestedKeyHash ⟨4, false, by decide +kernel⟩ tx input 1000).mpr
      ⟨getScriptForWitnessKeyHash (keyID true), _, .nested (by decide +kernel),
        .witnessKeyHash held rfl (by decide +kernel)⟩

def doubled : Bytes :=
  getScriptForScriptHash (crypto.hash160
    (getScriptForScriptHash (crypto.hash160 (getScriptForPubKeyHash (keyID true)))))

/-- Spendable and refused: P2WPKH for a key without its compressed flag, P2SH inside P2SH. -/
theorem spendable_refused : (Signs scheme (key false) ∧ (store false).getKey (crypto.hash160 []) = none ∧
      Spendable crypto (store false) (getScriptForWitnessKeyHash (keyID false)) .BASE ∧
      produce false (getScriptForWitnessKeyHash (keyID false)) = false) ∧
    Signs scheme (key true) ∧ (store true).getKey (crypto.hash160 []) = none ∧
      Spendable crypto (store true) doubled .BASE ∧ produce true doubled = false :=
  ⟨⟨signs false, by decide +kernel, ⟨2, false, by decide +kernel⟩, by decide +kernel⟩,
    signs true, by decide +kernel, ⟨3, false, by decide +kernel⟩, by decide +kernel⟩

end ToyOwner

end Dragonchain.Wallet
