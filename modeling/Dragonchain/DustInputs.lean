import Dragonchain.RelayWeight
import Dragonchain.WitnessSigning

/-!
The dust threshold against the input that spends the output. GetDustThreshold takes an
input to have 148 bytes, or 67 with the witness discount; an input signed with a Falcon key
carries a signature of up to 691 bytes and a public key of 898 bytes.
-/

namespace Dragonchain.Policy

open Script Serialization ByteCodec List CFeeRate ToySigner

variable {nSize small large : Nat} {most fee : Int}

def spendingInput (prevout : COutPoint) (nSequence : UInt32) (sigdata : SignatureData) : CTxIn :=
  ⟨prevout, sigdata.scriptSig, nSequence, sigdata.scriptWitness⟩

/-- The virtual size of an input: its stack counts a quarter, rounded up as in
GetVirtualTransactionSize. -/
def inputVirtualSize (txin : CTxIn) : Nat :=
  let stack := if txin.scriptWitness.isEmpty then 0 else stackBytes txin.scriptWitness
  ((serializeTxIn txin).length * WITNESS_SCALE_FACTOR + stack + (WITNESS_SCALE_FACTOR - 1)) / WITNESS_SCALE_FACTOR

/-- A creator that signs for a key of its store with signatures of the largest size, the
hash type included. -/
structure SignsLargest (crypto : Crypto) (creator : BaseSignatureCreator) (pubkey : CPubKey) : Prop where
  valid : pubkey.isValid = true
  stored : creator.keystore.getPubKey (pubkey.getID crypto) = some pubkey
  created : ∀ scriptCode sigversion, ∃ vchSig,
    creator.createSig (pubkey.getID crypto) scriptCode sigversion 0 = some vchSig ∧
      vchSig.length = CKey.SIGN_SIZE + 1

lemma length_pushData_two {vch : Bytes} (long : 0xff < vch.length) (short : vch.length ≤ 0xffff) :
    (pushData vch).length = vch.length + 3 := by
  have first : ¬ vch.length < OP_PUSHDATA1.toNat := by
    have : OP_PUSHDATA1.toNat = 76 := rfl
    omega
  rw [pushData, if_neg first, if_neg (by omega), if_pos short]
  simp only [length_cons, length_append, length_leBytes]
  omega

lemma produceSignature_snd (crypto : Crypto) (creator : BaseSignatureCreator) (script : Bytes) :
    (produceSignature crypto creator script).2 = (assembleSignature crypto creator script).2 := by
  simp only [produceSignature]
  split <;> rfl

section Sizes
variable {crypto : Crypto} {creator : BaseSignatureCreator} {pubkey : CPubKey}
  (largest : SignsLargest crypto creator pubkey)

include largest

lemma signStep_largest {sigversion : SigVersion} : ∃ vchSig : Bytes, vchSig.length = 691 ∧
    signStep crypto creator (getScriptForPubKeyHash (pubkey.getID crypto)) sigversion =
      ⟨true, [vchSig, pubkey.bytes], some .TX_PUBKEYHASH⟩ := by
  obtain ⟨vchSig, created, length⟩ := largest.created (getScriptForPubKeyHash (pubkey.getID crypto)) sigversion
  refine ⟨vchSig, length, ?_⟩
  simp [signStep, solver_pubKeyHash, toUint160_bytes, created, largest.stored]

variable (prevout : COutPoint) (nSequence : UInt32)

lemma virtualSize_pubKeyHash :
    inputVirtualSize (spendingInput prevout nSequence
      (produceSignature crypto creator (getScriptForPubKeyHash (pubkey.getID crypto))).2) = 1638 := by
  obtain ⟨vchSig, length, step⟩ := signStep_largest largest
  have key := CPubKey.length_bytes largest.valid
  have assembled : (assembleSignature crypto creator
      (getScriptForPubKeyHash (pubkey.getID crypto))).2 = ⟨pushAll [vchSig, pubkey.bytes], []⟩ := by
    rw [assembleSignature, step]
    rfl
  have pushed : (pushAll [vchSig, pubkey.bytes]).length = 1595 := by
    rw [pushAll_cons (by omega), pushAll_cons (by omega), length_append, length_append,
      length_pushData_two (by omega) (by omega), length_pushData_two (by omega) (by omega), length, key]
    rfl
  rw [produceSignature_snd, assembled]
  simp [inputVirtualSize, spendingInput, serializeTxIn, serializeOutPoint, serializeUInt32,
    length_serializeBytes, pushed, getSizeOfCompactSize, Uint256.size, WITNESS_SCALE_FACTOR]

lemma virtualSize_witnessKeyHash :
    inputVirtualSize (spendingInput prevout nSequence
      (produceSignature crypto creator (getScriptForWitnessKeyHash (pubkey.getID crypto))).2) = 440 := by
  obtain ⟨vchSig, length, step⟩ := signStep_largest largest
  have key := CPubKey.length_bytes largest.valid
  have assembled : (assembleSignature crypto creator
      (getScriptForWitnessKeyHash (pubkey.getID crypto))).2 = ⟨[], [vchSig, pubkey.bytes]⟩ := by
    have witness : KeyForm.P2WPKH ≠ .P2PKH := by decide
    have form := assembleSignature_witness witness
      (show KeyForm.P2WPKH.Known crypto (pubkey.getID crypto) creator.keystore from trivial)
    rw [step] at form
    exact congrArg Prod.snd form
  rw [produceSignature_snd, assembled]
  simp [inputVirtualSize, spendingInput, serializeTxIn, serializeOutPoint, serializeUInt32,
    length_serializeBytes, stackBytes, length, key, getSizeOfCompactSize, Uint256.size, WITNESS_SCALE_FACTOR]

end Sizes

variable (nValue : Int64) (keyID : Uint160) (rate : CFeeRate)

lemma exactFee_of_pos {rate : Int} (positive : 0 < rate) (some : 0 < nSize) :
    exactFee rate nSize = max 1 (rate * nSize / 1000) := by
  have product : 0 ≤ rate * nSize := Int.mul_nonneg positive.le (Int.natCast_nonneg nSize)
  simp only [exactFee, Int.tdiv_eq_ediv_of_nonneg product]
  split_ifs <;> omega

lemma exactFee_of_neg {rate : Int} (negative : rate < 0) (some : 0 < nSize) :
    exactFee rate nSize = -max 1 (-rate * nSize / 1000) := by
  have product : 0 ≤ -rate * nSize := Int.mul_nonneg (by omega) (Int.natCast_nonneg nSize)
  have turned : (rate * nSize).tdiv 1000 = -(-rate * nSize / 1000) := by
    rw [← Int.tdiv_eq_ediv_of_nonneg product, Int.neg_mul, Int.neg_tdiv, Int.neg_neg]
  simp only [exactFee, turned]
  split_ifs <;> omega

/-- Two sizes and the highest rate at which the fee for the larger one still rounds to 1. -/
structure RoundsTo (small large : Nat) (most : Int) : Prop where
  some : 0 < small
  less : small ≤ large
  short : large < 2000
  positive : 0 ≤ most
  low : most < 5
  rounds : most * large < 2000
  exceeds : 2000 ≤ (most + 1) * large
  apart : 1000 ≤ (most + 1) * (large - small : Int)

section Compare
variable (sizes : RoundsTo small large most)
include sizes

/-- The larger size does not cost more up to that rate, and costs more from the next on. -/
lemma exactFee_le_iff (rate : Int) : exactFee rate large ≤ exactFee rate small ↔ rate ≤ most := by
  obtain ⟨some, less, -, positive, -, rounds, exceeds, apart⟩ := sizes
  have sizes : (small : Int) ≤ large := by exact_mod_cast less
  rcases lt_trichotomy rate 0 with negative | rfl | above
  · have longer : -rate * small ≤ -rate * large := Int.mul_le_mul_of_nonneg_left sizes (by omega)
    rw [exactFee_of_neg negative some, exactFee_of_neg negative (some.trans_le less)]
    omega
  · simp [exactFee, positive]
  · rw [exactFee_of_pos above some, exactFee_of_pos above (some.trans_le less)]
    rcases le_or_gt rate most with low | high
    · have cost : rate * large ≤ most * large := Int.mul_le_mul_of_nonneg_right low (by omega)
      omega
    · have cost : (most + 1) * large ≤ rate * large := Int.mul_le_mul_of_nonneg_right high (by omega)
      have gap := apart.trans (Int.mul_le_mul_of_nonneg_right high (Int.sub_nonneg_of_le sizes))
      rw [Int.mul_sub] at gap
      omega

end Compare

/-- The product fits an int64. -/
def Fits (rate : CFeeRate) (nSize : Nat) : Prop :=
  -2 ^ 63 ≤ rate.nSatoshisPerK.toInt * nSize ∧ rate.nSatoshisPerK.toInt * nSize < 2 ^ 63

variable {rate} in
lemma getFee_eq_ok (short : nSize < 2 ^ 63) :
    rate.getFee nSize = .ok fee ↔ Fits rate nSize ∧ fee = exactFee rate.nSatoshisPerK.toInt nSize := by
  simp only [getFee, if_neg (not_le.mpr short), Fits]
  split_ifs with wide
  · refine iff_of_false (fun same => ?_) fun fits => ?_
    · cases same
    · omega
  · rw [Except.ok.injEq]
    refine ⟨fun same => ⟨by omega, same.symm⟩, fun fits => fits.2.symm⟩

lemma getDustThreshold_pubKeyHash :
    getDustThreshold ⟨nValue, getScriptForPubKeyHash keyID⟩ rate = rate.getFee 182 := by
  have script : getScriptForPubKeyHash keyID =
      OP_DUP :: OP_HASH160 :: 20 :: (keyID.bytes ++ [OP_EQUALVERIFY, OP_CHECKSIG]) := by
    simp [getScriptForPubKeyHash, pushData_hash]
  have length : (getScriptForPubKeyHash keyID).length = 25 := by simp [script, keyID.size]
  have spendable : isUnspendable (getScriptForPubKeyHash keyID) = false := by
    rw [isUnspendable, length, script]
    rfl
  have size : (serializeTxOut ⟨nValue, getScriptForPubKeyHash keyID⟩).length = 34 := by
    simp [serializeTxOut, serializeInt64, length_serializeBytes, length, getSizeOfCompactSize]
  simp [getDustThreshold, spendable, isWitnessProgram_pubKeyHash, size]

lemma getDustThreshold_witnessKeyHash :
    getDustThreshold ⟨nValue, getScriptForWitnessKeyHash keyID⟩ rate = rate.getFee 98 := by
  have script : getScriptForWitnessKeyHash keyID = OP_0 :: 20 :: keyID.bytes := by
    simp [getScriptForWitnessKeyHash, pushData_hash]
  have length : (getScriptForWitnessKeyHash keyID).length = 22 := by simp [script, keyID.size]
  have spendable : isUnspendable (getScriptForWitnessKeyHash keyID) = false := by
    rw [isUnspendable, length, script]
    rfl
  have size : (serializeTxOut ⟨nValue, getScriptForWitnessKeyHash keyID⟩).length = 31 := by
    simp [serializeTxOut, serializeInt64, length_serializeBytes, length, getSizeOfCompactSize]
  have program : (isWitnessProgram (getScriptForWitnessKeyHash keyID)).isSome = true := by
    rw [isWitnessProgram, length, script]
    simp [keyID.size]
  simp [getDustThreshold, spendable, program, size, WITNESS_SCALE_FACTOR]

lemma Fits.fee_range (fits : Fits rate nSize) (some : 0 < nSize) :
    -2 ^ 63 ≤ exactFee rate.nSatoshisPerK.toInt nSize ∧ exactFee rate.nSatoshisPerK.toInt nSize < 2 ^ 63 := by
  obtain ⟨low, high⟩ := fits
  rcases lt_trichotomy rate.nSatoshisPerK.toInt 0 with negative | zero | positive
  · rw [← Int.neg_neg (rate.nSatoshisPerK.toInt * nSize), ← Int.neg_mul] at low
    rw [exactFee_of_neg negative some]
    omega
  · simp [exactFee, zero]
  · rw [exactFee_of_pos positive some]
    omega

/-- IsDust gives a verdict, and where it is negative the value pays the fee for the input. -/
def Covered (rate : CFeeRate) (txout : CTxOut) (nSize : Nat) : Prop :=
  ∃ dust, isDust txout rate = .ok dust ∧
    (dust = false → ∃ fee, rate.getFee nSize = .ok fee ∧ fee ≤ txout.nValue.toInt)

lemma covered_iff {script : Bytes} (sizes : RoundsTo small large most)
    (threshold : ∀ nValue, getDustThreshold ⟨nValue, script⟩ rate = rate.getFee small) :
    (∀ nValue, Covered rate ⟨nValue, script⟩ large) ↔
      -2 ^ 63 ≤ rate.nSatoshisPerK.toInt * large ∧ rate.nSatoshisPerK.toInt ≤ most := by
  have less := sizes.less
  have short : large < 2 ^ 63 := sizes.short.trans (by decide)
  have verdict : ∀ nValue : Int64, ∀ dust, isDust ⟨nValue, script⟩ rate = .ok dust ↔ Fits rate small ∧
      dust = decide (nValue.toInt < exactFee rate.nSatoshisPerK.toInt small) := by
    intro nValue dust
    rw [isDust, threshold]
    constructor
    · intro done
      obtain ⟨fee, paid, rfl⟩ := ok_of_map done
      obtain ⟨fits, rfl⟩ := (getFee_eq_ok (less.trans_lt short)).mp paid
      exact ⟨fits, rfl⟩
    · rintro ⟨fits, rfl⟩
      rw [(getFee_eq_ok (less.trans_lt short)).mpr ⟨fits, rfl⟩]
      rfl
  constructor
  · intro covers
    -- the least value that is not dust is the threshold itself
    obtain ⟨_, judged, _⟩ := covers 0
    have fits := ((verdict 0 _).mp judged).1
    obtain ⟨low, high⟩ := fits.fee_range rate sizes.some
    have kept := Int64.toInt_ofInt_of_le low high
    obtain ⟨dust, judged, pays⟩ := covers (.ofInt (exactFee rate.nSatoshisPerK.toInt small))
    have enough : dust = false := by
      rw [((verdict _ _).mp judged).2, kept]
      exact decide_eq_false (lt_irrefl _)
    obtain ⟨fee, paid, bound⟩ := pays enough
    obtain ⟨fits, rfl⟩ := (getFee_eq_ok short).mp paid
    exact ⟨fits.1, (exactFee_le_iff sizes _).mp (bound.trans_eq kept)⟩
  · rintro ⟨least, cheap⟩ nValue
    have fits : ∀ size : Nat, size ≤ large → Fits rate size := by
      intro size below
      have longer : (size : Int) ≤ large := by exact_mod_cast below
      have most := Int.mul_le_mul_of_nonneg_right (cheap.trans_lt sizes.low).le (Int.natCast_nonneg size)
      have limit := sizes.short
      refine ⟨?_, by omega⟩
      rcases le_total rate.nSatoshisPerK.toInt 0 with negative | above
      · exact least.trans (Int.mul_le_mul_of_nonpos_left negative longer)
      · exact (Int.mul_nonneg above (Int.natCast_nonneg size)).trans' (by decide)
    refine ⟨_, (verdict nValue _).mpr ⟨fits small less, rfl⟩, fun worth => ?_⟩
    have value := not_lt.mp (of_decide_eq_false worth)
    exact ⟨_, (getFee_eq_ok short).mpr ⟨fits large le_rfl, rfl⟩, ((exactFee_le_iff sizes _).mpr cheap).trans value⟩

/-- At which fee rates every output that is not dust pays for the input that spends it: 1638
bytes against 34 + 148, and 440 against 31 + 67 with the witness discount. -/
theorem dust_covers_input_iff (crypto : Crypto) (creator : BaseSignatureCreator) (pubkey : CPubKey)
    (largest : SignsLargest crypto creator pubkey) (prevout : COutPoint) (nSequence : UInt32) (rate : CFeeRate) :
    let covers (script : Bytes) := ∀ nValue, Covered rate ⟨nValue, script⟩
      (inputVirtualSize (spendingInput prevout nSequence (produceSignature crypto creator script).2))
    (covers (getScriptForPubKeyHash (pubkey.getID crypto)) ↔
      -2 ^ 63 ≤ rate.nSatoshisPerK.toInt * 1638 ∧ rate.nSatoshisPerK.toInt ≤ 1) ∧
    (covers (getScriptForWitnessKeyHash (pubkey.getID crypto)) ↔
      -2 ^ 63 ≤ rate.nSatoshisPerK.toInt * 440 ∧ rate.nSatoshisPerK.toInt ≤ 4) := by
  intro covers
  constructor
  · simp only [covers, virtualSize_pubKeyHash largest]
    have sizes : RoundsTo 182 1638 1 := by constructor <;> decide
    exact covered_iff rate sizes fun nValue => getDustThreshold_pubKeyHash nValue _ rate
  · simp only [covers, virtualSize_witnessKeyHash largest]
    have sizes : RoundsTo 98 440 4 := by constructor <;> decide
    exact covered_iff rate sizes fun nValue => getDustThreshold_witnessKeyHash nValue _ rate

namespace SmallOutput

def creator : BaseSignatureCreator := dummySignatureCreator (store true [])

def pubkey : CPubKey := (key true).getPubKey

lemma creator_signs_largest : SignsLargest crypto creator pubkey where
  valid := CKey.getPubKey_valid rfl
  stored := rfl
  created _ _ := ⟨dummySignature, rfl, by rw [dummySignature, length_append, length_replicate]; rfl⟩

/-- At the default rate an output of 546, or of 294 to a witness program, is not dust; the
inputs that spend them cost 4914 and 1320. -/
theorem default_rate_loses :
    (isDust ⟨546, getScriptForPubKeyHash (pubkey.getID crypto)⟩ ⟨DUST_RELAY_TX_FEE⟩ = .ok false ∧
      (mk DUST_RELAY_TX_FEE).getFee (inputVirtualSize (spendingInput ⟨Uint256.one, 0⟩ 0
        (produceSignature crypto creator (getScriptForPubKeyHash (pubkey.getID crypto))).2)) = .ok 4914) ∧
    (isDust ⟨294, getScriptForWitnessKeyHash (pubkey.getID crypto)⟩ ⟨DUST_RELAY_TX_FEE⟩ = .ok false ∧
      (mk DUST_RELAY_TX_FEE).getFee (inputVirtualSize (spendingInput ⟨Uint256.one, 0⟩ 0
        (produceSignature crypto creator (getScriptForWitnessKeyHash (pubkey.getID crypto))).2)) = .ok 1320) := by
  rw [virtualSize_pubKeyHash creator_signs_largest, virtualSize_witnessKeyHash creator_signs_largest,
    isDust, isDust, getDustThreshold_pubKeyHash, getDustThreshold_witnessKeyHash]
  decide +kernel

theorem lowest_rate_covers :
    Covered ⟨1⟩ ⟨1, getScriptForPubKeyHash (pubkey.getID crypto)⟩ (inputVirtualSize
        (spendingInput ⟨Uint256.one, 0⟩ 0
          (produceSignature crypto creator (getScriptForPubKeyHash (pubkey.getID crypto))).2)) ∧
      isDust ⟨1, getScriptForPubKeyHash (pubkey.getID crypto)⟩ ⟨1⟩ = .ok false :=
  ⟨(dust_covers_input_iff crypto creator pubkey creator_signs_largest ⟨Uint256.one, 0⟩ 0 ⟨1⟩).1.mpr
    (by decide) 1, by decide +kernel⟩

end SmallOutput

end Dragonchain.Policy
