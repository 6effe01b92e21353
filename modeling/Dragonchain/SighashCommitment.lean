import Dragonchain.SignatureHash
import Dragonchain.TransactionCodec

/-!
What the version 0 witness signature hash commits to. A hash type fixes which parts of the
transaction are behind the hashes in the preimage.
-/

namespace Dragonchain

open ByteCodec Serialization List Option

variable {data rest data' rest' scriptCode scriptCode' : Bytes} {α : Type}
  {txTo txTo' : CTransaction}

/-- A decoder splits what starts with a code in one way. -/
lemma ByteCodec.Reads.split {reader : Reader α} {front front' rest rest' : List UInt8}
    {value value' : α} (reads : Reads reader front value) (reads' : Reads reader front' value')
    (same : front ++ rest = front' ++ rest') : value = value' ∧ rest = rest' := by
  have decoded := reads rest
  rw [same, reads' rest', some_inj, Prod.mk.injEq] at decoded
  exact ⟨decoded.1.symm, decoded.2.symm⟩

/-- A list is known by the concatenation of codes none of which starts another. -/
lemma ByteCodec.flatMap_eq {encode : α → List UInt8} (present : ∀ value, encode value ≠ [])
    {first second : List α} (split : ∀ value ∈ first, ∀ value' ∈ second, ∀ rest rest',
      encode value ++ rest = encode value' ++ rest' → value = value' ∧ rest = rest')
    (same : first.flatMap encode = second.flatMap encode) : first = second := by
  induction first generalizing second with
  | nil =>
    cases second with
    | nil => rfl
    | cons value second => exact absurd (append_eq_nil_iff.mp same.symm).1 (present value)
  | cons value first ih =>
    cases second with
    | nil => exact absurd (append_eq_nil_iff.mp same).1 (present value)
    | cons value' second =>
      obtain ⟨rfl, rest⟩ := split value mem_cons_self value' mem_cons_self _ _ same
      rw [ih (fun left inside right member => split left (.tail _ inside) right (.tail _ member)) rest]

namespace Serialization

variable {txout txout' : CTxOut}

lemma serializeBytes_split (fits : data.length < 2 ^ 64)
    (fits' : data'.length < 2 ^ 64) (same : serializeBytes data ++ rest = serializeBytes data' ++ rest') :
    data = data' ∧ rest = rest' := by
  obtain ⟨chSize, tail, small, written, reads⟩ := writeCompactSize_reads data.length fits
  obtain ⟨chSize', tail', small', written', reads'⟩ := writeCompactSize_reads data'.length fits'
  rw [serializeBytes, serializeBytes, written, written'] at same
  simp only [append_assoc] at same
  obtain ⟨rfl, after⟩ := (reads_nat 1 chSize small).split (reads_nat 1 chSize' small') same
  obtain ⟨length, behind⟩ := reads.split reads' after
  exact append_inj behind length

lemma serializeTxOut_split (fits : txout.scriptPubKey.length < 2 ^ 64) (fits' : txout'.scriptPubKey.length < 2 ^ 64)
    (same : serializeTxOut txout ++ rest = serializeTxOut txout' ++ rest') : txout = txout' ∧ rest = rest' := by
  obtain ⟨value, script⟩ := reads_int64.split reads_int64 same
  obtain ⟨key, behind⟩ := serializeBytes_split fits fits' script
  cases txout
  cases txout'
  cases value
  cases key
  exact ⟨rfl, behind⟩

end Serialization

namespace Script.SighashCall
variable (crypto : Crypto) (call other : SighashCall)

/-- A witness call as the checkers make it: the cache is the transaction's own, and sizes are size_t. -/
structure Witness : Prop where
  version : call.sigversion = .WITNESS_V0
  cached : call.cache = none ∨ call.cache = precompute crypto call.txTo
  code : call.scriptCode.length < 2 ^ 64
  outputs : ∀ txout ∈ call.txTo.vout, txout.scriptPubKey.length < 2 ^ 64

def hashes : List Bytes :=
  [call.txTo.vin.flatMap fun txin => serializeOutPoint txin.prevout,
    call.txTo.vin.flatMap fun txin => serializeUInt32 txin.nSequence, call.txTo.vout.flatMap serializeTxOut,
    call.serialized crypto, call.preimage crypto] ++ (call.txTo.vout[call.nIn.val]?.map serializeTxOut).toList

/-- The parts of the calls that the hash type covers are the same. -/
structure Agrees : Prop where
  nVersion : call.txTo.nVersion = other.txTo.nVersion
  nLockTime : call.txTo.nLockTime = other.txTo.nLockTime
  prevout : (call.txTo.vin.get call.nIn).prevout = (other.txTo.vin.get other.nIn).prevout
  nSequence : (call.txTo.vin.get call.nIn).nSequence = (other.txTo.vin.get other.nIn).nSequence
  scriptCode : call.scriptCode = other.scriptCode
  amount : call.amount = other.amount
  prevouts : anyoneCanPay call.nHashType = false →
    call.txTo.vin.map CTxIn.prevout = other.txTo.vin.map CTxIn.prevout
  sequences : anyoneCanPay call.nHashType = false → hashSingle call.nHashType = false →
    hashNone call.nHashType = false → call.txTo.vin.map CTxIn.nSequence = other.txTo.vin.map CTxIn.nSequence
  vout : hashSingle call.nHashType = false → hashNone call.nHashType = false → call.txTo.vout = other.txTo.vout
  output : hashSingle call.nHashType = true → call.txTo.vout[call.nIn.val]? = other.txTo.vout[other.nIn.val]?

variable {crypto call other}

lemma Witness.serialized_eq (witness : call.Witness crypto) : call.serialized crypto =
    witnessPreimage crypto call.txTo call.nHashType none call.scriptCode call.nIn call.amount := by
  have taken : call.serialized crypto =
      witnessPreimage crypto call.txTo call.nHashType call.cache call.scriptCode call.nIn call.amount := by
    rw [serialized, witness.version]
  rcases witness.cached with cached | cached <;> rw [taken, cached]
  rw [precompute]
  split_ifs <;> rfl

lemma Witness.hash_eq (witness : call.Witness crypto) : call.hash crypto = crypto.hash256 (call.preimage crypto) :=
  hash_of_preimage crypto call (by rw [returnsOne, witness.version]; rfl)

lemma witnessPreimage_split {nHashType : Int32}
    {nIn : Fin txTo.vin.length} {nIn' : Fin txTo'.vin.length} {amount amount' : Int64}
    (code : scriptCode.length < 2 ^ 64) (code' : scriptCode'.length < 2 ^ 64)
    (same : witnessPreimage crypto txTo nHashType none scriptCode nIn amount =
      witnessPreimage crypto txTo' nHashType none scriptCode' nIn' amount') :
    (txTo.nVersion = txTo'.nVersion ∧ txTo.nLockTime = txTo'.nLockTime ∧
      (txTo.vin.get nIn).prevout = (txTo'.vin.get nIn').prevout ∧
      (txTo.vin.get nIn).nSequence = (txTo'.vin.get nIn').nSequence ∧ scriptCode = scriptCode' ∧ amount = amount') ∧
    signedPrevouts crypto txTo nHashType none = signedPrevouts crypto txTo' nHashType none ∧
    signedSequences crypto txTo nHashType none = signedSequences crypto txTo' nHashType none ∧
    signedOutputsHash crypto txTo nHashType none nIn = signedOutputsHash crypto txTo' nHashType none nIn' := by
  simp only [witnessPreimage, append_assoc] at same
  obtain ⟨version, same⟩ := reads_int32.split reads_int32 same
  obtain ⟨prevouts, same⟩ := reads_uint256.split reads_uint256 same
  obtain ⟨sequences, same⟩ := reads_uint256.split reads_uint256 same
  obtain ⟨prevout, same⟩ := reads_outPoint.split reads_outPoint same
  obtain ⟨script, same⟩ := serializeBytes_split code code' same
  obtain ⟨value, same⟩ := reads_int64.split reads_int64 same
  obtain ⟨sequence, same⟩ := (reads_uint32 _).split (reads_uint32 _) same
  obtain ⟨outputs, same⟩ := reads_uint256.split reads_uint256 same
  obtain ⟨lockTime, _⟩ := (reads_uint32 _).split (reads_uint32 _) same
  exact ⟨⟨version, lockTime, prevout, sequence, script, value⟩, prevouts, sequences, outputs⟩

lemma hashes_map :
    (getPrevoutHash crypto txTo = crypto.hash256 ((txTo.vin.map CTxIn.prevout).flatMap serializeOutPoint)) ∧
      getSequenceHash crypto txTo = crypto.hash256 ((txTo.vin.map CTxIn.nSequence).flatMap serializeUInt32) := by
  rw [flatMap_map, flatMap_map]
  exact ⟨rfl, rfl⟩

lemma Agrees.serialized_eq (agrees : call.Agrees other) (type : call.nHashType = other.nHashType) :
    witnessPreimage crypto call.txTo call.nHashType none call.scriptCode call.nIn call.amount =
      witnessPreimage crypto other.txTo other.nHashType none other.scriptCode other.nIn other.amount := by
  have prevouts : signedPrevouts crypto call.txTo call.nHashType none =
      signedPrevouts crypto other.txTo call.nHashType none := by
    unfold signedPrevouts
    split_ifs with any
    · rfl
    · rw [hashes_map.1, hashes_map.1, agrees.prevouts (Bool.eq_false_of_not_eq_true any)]
  have sequences : signedSequences crypto call.txTo call.nHashType none =
      signedSequences crypto other.txTo call.nHashType none := by
    unfold signedSequences
    split_ifs with covered
    · rfl
    · simp only [Bool.or_eq_true, not_or, Bool.not_eq_true] at covered
      rw [hashes_map.2, hashes_map.2, agrees.sequences covered.1.1 covered.1.2 covered.2]
  have outputs : signedOutputsHash crypto call.txTo call.nHashType none call.nIn =
      signedOutputsHash crypto other.txTo call.nHashType none other.nIn := by
    unfold signedOutputsHash
    split_ifs with covered single
    · simp only [Bool.and_eq_true, Bool.not_eq_true'] at covered
      rw [getOutputsHash, getOutputsHash, agrees.vout covered.1 covered.2]
    · rw [agrees.output single]
    · rfl
  simp only [witnessPreimage, ← type, prevouts, sequences, outputs, agrees.nVersion, agrees.nLockTime,
    agrees.prevout, agrees.nSequence, agrees.scriptCode, agrees.amount]

theorem witness_commits (crypto : Crypto) (hashed : Set Bytes) (injective : Set.InjOn crypto.hash256 hashed)
    (notZero : ∀ data ∈ hashed, crypto.hash256 data ≠ Uint256.null) (call other : SighashCall)
    (witness : call.Witness crypto) (witness' : other.Witness crypto)
    (within : ∀ data ∈ call.hashes crypto ++ other.hashes crypto, data ∈ hashed)
    (type : call.nHashType = other.nHashType) : call.hash crypto = other.hash crypto ↔ call.Agrees other := by
  have inside {data data' : Bytes} (first : data ∈ call.hashes crypto) (second : data' ∈ other.hashes crypto)
      (same : crypto.hash256 data = crypto.hash256 data') : data = data' :=
    injective (within _ (mem_append_left _ first)) (within _ (mem_append_right _ second)) same
  rw [witness.hash_eq, witness'.hash_eq]
  constructor
  · intro same
    have serialized : call.serialized crypto = other.serialized crypto := by
      have preimages := inside (by simp [hashes]) (by simp [hashes]) same
      rw [preimage, preimage, ← type] at preimages
      split at preimages
      · have bytes := congrArg (· ++ []) (append_cancel_left preimages)
        exact inside (by simp [hashes]) (by simp [hashes]) (reads_uint256.split reads_uint256 bytes).1
      · exact preimages
    rw [witness.serialized_eq, witness'.serialized_eq, ← type] at serialized
    obtain ⟨⟨version, lockTime, prevout, sequence, script, value⟩, prevouts, sequences, outputs⟩ :=
      witnessPreimage_split witness.code witness'.code serialized
    refine ⟨version, lockTime, prevout, sequence, script, value, ?_, ?_, ?_, ?_⟩
    · intro all
      simp only [signedPrevouts, all, Bool.false_eq_true, if_false, map_none, getD_none] at prevouts
      have data := inside (by simp [hashes]) (by simp [hashes]) prevouts
      refine flatMap_eq (fun value => ?_) (fun _ _ _ _ _ _ => reads_outPoint.split reads_outPoint)
        (by simpa only [flatMap_map] using data)
      simp [serializeOutPoint, serializeUInt32, leBytes]
    · intro all multiple some
      simp only [signedSequences, all, multiple, some, Bool.or_self, Bool.false_eq_true, if_false,
        map_none, getD_none] at sequences
      have data := inside (by simp [hashes]) (by simp [hashes]) sequences
      refine flatMap_eq (fun value => ?_) (fun _ _ _ _ _ _ => (reads_uint32 _).split (reads_uint32 _))
        (by simpa only [flatMap_map] using data)
      simp [serializeUInt32, leBytes]
    · intro multiple some
      simp only [signedOutputsHash, multiple, some, Bool.not_false, Bool.and_self, if_true,
        map_none, getD_none] at outputs
      have data := inside (by simp [hashes]) (by simp [hashes]) outputs
      refine flatMap_eq (fun value => ?_) (fun txout member txout' member' _ _ =>
        serializeTxOut_split (witness.outputs txout member) (witness'.outputs txout' member')) data
      simp [serializeTxOut, serializeInt64, leBytes]
    · intro single
      simp only [signedOutputsHash, single, Bool.not_true, Bool.false_and, Bool.false_eq_true, if_false,
        if_true] at outputs
      -- An output and none differ, because no hash is zero.
      cases found : call.txTo.vout[call.nIn.val]? with
      | none =>
        cases found' : other.txTo.vout[other.nIn.val]? with
        | none => rfl
        | some txout' =>
          rw [found, found'] at outputs
          exact absurd outputs.symm (notZero _ (within _ (by simp [hashes, found'])))
      | some txout =>
        cases found' : other.txTo.vout[other.nIn.val]? with
        | none =>
          rw [found, found'] at outputs
          exact absurd outputs (notZero _ (within _ (by simp [hashes, found])))
        | some txout' =>
          rw [found, found'] at outputs
          have data := inside (by simp [hashes, found]) (by simp [hashes, found']) outputs
          rw [(serializeTxOut_split (witness.outputs _ (mem_of_getElem? found))
            (witness'.outputs _ (mem_of_getElem? found')) (congrArg (· ++ []) data)).1]
  · intro agrees
    have serialized : call.serialized crypto = other.serialized crypto := by
      rw [witness.serialized_eq, witness'.serialized_eq, agrees.serialized_eq type]
    rw [preimage, preimage, serialized, type]

end Script.SighashCall

namespace Script.CrossChain

/-- The second input has another sequence and a witness, and there is a second output. -/
def changed : CTransaction :=
  { tx with
    vin := [⟨⟨Uint256.null, 0⟩, [], 0xffffffff, []⟩, ⟨⟨Uint256.null, 1⟩, [], 0xfffffffe, [[1]]⟩]
    vout := [⟨1000, [OP_1]⟩, ⟨7, [OP_1]⟩] }

def witnessCall : SighashCall := { signed 0 SIGHASH_SINGLE with sigversion := .WITNESS_V0 }

def changedCall : SighashCall :=
  ⟨[OP_CHECKSIG], changed, ⟨0, by decide⟩, SIGHASH_SINGLE, 1000, .WITNESS_V0, precompute Crypto.suffixes changed⟩

/-- SIGHASH_SINGLE covers neither the sequences nor the other outputs. -/
theorem single_commits : witnessCall.hash Crypto.suffixes = changedCall.hash Crypto.suffixes ∧
    (witnessCall.hash Crypto.suffixes = changedCall.hash Crypto.suffixes ↔ witnessCall.Agrees changedCall) := by
  have free : ∀ data ∈ witnessCall.hashes Crypto.suffixes ++ changedCall.hashes Crypto.suffixes,
      Crypto.suffixes.hash256 data ≠ Uint256.null ∧
        ∀ other ∈ witnessCall.hashes Crypto.suffixes ++ changedCall.hashes Crypto.suffixes,
          Crypto.suffixes.hash256 data = Crypto.suffixes.hash256 other → data = other := by
    decide +kernel
  refine ⟨by decide +kernel, ?_⟩
  exact SighashCall.witness_commits Crypto.suffixes
    {data | data ∈ witnessCall.hashes Crypto.suffixes ++ changedCall.hashes Crypto.suffixes}
    (fun data inside other inside' => (free data inside).2 other inside') (fun data inside => (free data inside).1)
    witnessCall changedCall ⟨rfl, .inl rfl, by decide, by decide⟩ ⟨rfl, .inr rfl, by decide, by decide⟩
    (fun _ => id) rfl

end Script.CrossChain

end Dragonchain
