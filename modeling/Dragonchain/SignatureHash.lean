import Dragonchain.Serialization
import Dragonchain.SignatureEncoding

/-!
SignatureHash of script/interpreter.cpp. Its assertion that nIn is below vin.size() is
the type of `nIn`. A hash type with SIGHASH_FORKID hashes the signature hash once more
behind a fixed text; only a SIGHASH_SINGLE input without an output of its own returns
before that, with the constant one.
-/

namespace Dragonchain.Script

open Serialization List Bool

def SIGHASH_ALL : Int32 := 1
def SIGHASH_NONE : Int32 := 2
def SIGHASH_SINGLE : Int32 := 3
def SIGHASH_FORKID : Int32 := 0x40
def SIGHASH_ANYONECANPAY : Int32 := 0x80

def OP_CODESEPARATOR : UInt8 := 0xab

def anyoneCanPay (nHashType : Int32) : Bool := nHashType &&& SIGHASH_ANYONECANPAY != 0
def hashSingle (nHashType : Int32) : Bool := nHashType &&& 0x1f == SIGHASH_SINGLE
def hashNone (nHashType : Int32) : Bool := nHashType &&& 0x1f == SIGHASH_NONE
def hasForkId (nHashType : Int32) : Bool := nHashType &&& SIGHASH_FORKID != 0

/-! CTransactionSignatureSerializer. -/

/-- Where a GetOp that fails leaves its iterator: behind the opcode, and behind the size
if that could be read. -/
def failedGetOp : Bytes → Bytes
  | [] => []
  | opcode :: pc =>
    match pushSize opcode pc with
    | none => pc
    | some (_, pc) => pc

def countSeparators : Nat → Bytes → Nat
  | 0, _ => 0
  | fuel + 1, pc =>
    match getOp pc with
    | none => 0
    | some (opcode, _, rest) => (if opcode = OP_CODESEPARATOR then 1 else 0) + countSeparators fuel rest

/-- The bytes that the second loop of SerializeScriptCode writes. They end where GetOp
stopped, although the size written before them counts the whole script. -/
def skipSeparators : Nat → Bytes → Bytes
  | 0, _ => []
  | fuel + 1, pc =>
    match getOp pc with
    | none => pc.take (pc.length - (failedGetOp pc).length)
    | some (opcode, _, rest) =>
      (if opcode = OP_CODESEPARATOR then [] else pc.take (pc.length - rest.length)) ++ skipSeparators fuel rest

def serializeScriptCode (scriptCode : Bytes) : Bytes :=
  writeCompactSize (scriptCode.length - countSeparators scriptCode.length scriptCode)
    ++ skipSeparators (scriptCode.length + 1) scriptCode

section Serializer
variable (scriptCode : Bytes) (nIn : Nat) (nHashType : Int32)

def serializeInput (nInput : Nat) (txin : CTxIn) : Bytes :=
  serializeOutPoint txin.prevout
    ++ (if nInput ≠ nIn then serializeBytes [] else serializeScriptCode scriptCode)
    ++ (if nInput ≠ nIn ∧ (hashSingle nHashType || hashNone nHashType) then serializeInt32 0
      else serializeUInt32 txin.nSequence)

def serializeOutput (nOutput : Nat) (txout : CTxOut) : Bytes :=
  if hashSingle nHashType ∧ nOutput ≠ nIn then serializeTxOut CTxOut.null else serializeTxOut txout

/-- The outputs in the serialization; under SIGHASH_SINGLE there are nIn + 1 of them. -/
def signedOutputs (vout : List CTxOut) : List CTxOut :=
  if hashNone nHashType then [] else if hashSingle nHashType then vout.take (nIn + 1) else vout

end Serializer

/-- The vin part; under SIGHASH_ANYONECANPAY it has the signed input only. -/
def serializeInputs (scriptCode : Bytes) (txTo : CTransaction) (nIn : Fin txTo.vin.length)
    (nHashType : Int32) : Bytes :=
  if anyoneCanPay nHashType then
    writeCompactSize 1 ++ serializeInput scriptCode nIn nHashType nIn (txTo.vin.get nIn)
  else
    writeCompactSize txTo.vin.length ++ txTo.vin.zipIdx.flatMap fun input =>
      serializeInput scriptCode nIn nHashType input.2 input.1

/-- The serialization of a CTransactionSignatureSerializer, then the hash type. -/
def legacyPreimage (scriptCode : Bytes) (txTo : CTransaction) (nIn : Fin txTo.vin.length)
    (nHashType : Int32) : Bytes :=
  let outputs := signedOutputs nIn nHashType txTo.vout
  serializeInt32 txTo.nVersion
    ++ serializeInputs scriptCode txTo nIn nHashType
    ++ writeCompactSize outputs.length
    ++ (outputs.zipIdx.flatMap fun output => serializeOutput nIn nHashType output.2 output.1)
    ++ serializeUInt32 txTo.nLockTime
    ++ serializeInt32 nHashType

/-! The version 0 witness format. -/

structure PrecomputedTransactionData where
  hashPrevouts : Uint256
  hashSequence : Uint256
  hashOutputs : Uint256

section Witness
variable (crypto : Crypto)

def getPrevoutHash (txTo : CTransaction) : Uint256 :=
  crypto.hash256 (txTo.vin.flatMap fun txin => serializeOutPoint txin.prevout)

def getSequenceHash (txTo : CTransaction) : Uint256 :=
  crypto.hash256 (txTo.vin.flatMap fun txin => serializeUInt32 txin.nSequence)

def getOutputsHash (txTo : CTransaction) : Uint256 := crypto.hash256 (txTo.vout.flatMap serializeTxOut)

def precompute (txTo : CTransaction) : Option PrecomputedTransactionData :=
  if txTo.hasWitness then
    some ⟨getPrevoutHash crypto txTo, getSequenceHash crypto txTo, getOutputsHash crypto txTo⟩
  else none

variable (txTo : CTransaction) (nHashType : Int32) (cache : Option PrecomputedTransactionData)

def signedPrevouts : Uint256 :=
  if anyoneCanPay nHashType then Uint256.null
  else (cache.map PrecomputedTransactionData.hashPrevouts).getD (getPrevoutHash crypto txTo)

def signedSequences : Uint256 :=
  if anyoneCanPay nHashType || hashSingle nHashType || hashNone nHashType then Uint256.null
  else (cache.map PrecomputedTransactionData.hashSequence).getD (getSequenceHash crypto txTo)

def signedOutputsHash (nIn : Nat) : Uint256 :=
  if !hashSingle nHashType && !hashNone nHashType then
    (cache.map PrecomputedTransactionData.hashOutputs).getD (getOutputsHash crypto txTo)
  else if hashSingle nHashType then
    match txTo.vout[nIn]? with
    | some txout => crypto.hash256 (serializeTxOut txout)
    | none => Uint256.null
  else Uint256.null

def witnessPreimage (scriptCode : Bytes) (nIn : Fin txTo.vin.length) (amount : Int64) : Bytes :=
  let txin := txTo.vin.get nIn
  serializeInt32 txTo.nVersion
    ++ (signedPrevouts crypto txTo nHashType cache).bytes
    ++ (signedSequences crypto txTo nHashType cache).bytes
    ++ serializeOutPoint txin.prevout
    ++ serializeBytes scriptCode
    ++ serializeInt64 amount
    ++ serializeUInt32 txin.nSequence
    ++ (signedOutputsHash crypto txTo nHashType cache nIn).bytes
    ++ serializeUInt32 txTo.nLockTime
    ++ serializeInt32 nHashType

end Witness

def forkIdText : Bytes := "Dragonchain-ForkID-v1".toList.map fun letter => UInt8.ofNat letter.toNat

def forkIdHash (crypto : Crypto) (nHashType : Int32) (hash : Uint256) : Uint256 :=
  if hasForkId nHashType then crypto.hash256 (serializeBytes forkIdText ++ hash.bytes) else hash

/-- The invalid use of SIGHASH_SINGLE, an input with no output at its index. -/
def outOfRange (txTo : CTransaction) (nIn : Nat) (nHashType : Int32) : Bool :=
  hashSingle nHashType && decide (nIn ≥ txTo.vout.length)

def signatureHash (crypto : Crypto) (scriptCode : Bytes) (txTo : CTransaction)
    (nIn : Fin txTo.vin.length) (nHashType : Int32) (amount : Int64) (sigversion : SigVersion)
    (cache : Option PrecomputedTransactionData) : Uint256 :=
  if sigversion = .WITNESS_V0 then
    forkIdHash crypto nHashType (crypto.hash256 (witnessPreimage crypto txTo nHashType cache scriptCode nIn amount))
  else if outOfRange txTo nIn nHashType then Uint256.one
  else
    forkIdHash crypto nHashType (crypto.hash256 (legacyPreimage scriptCode txTo nIn nHashType))

/-! Two calls with the same result. Everything that is hashed without SIGHASH_FORKID is
longer than what is hashed with it. -/

/-- The arguments of a call of SignatureHash. -/
structure SighashCall where
  scriptCode : Bytes
  txTo : CTransaction
  nIn : Fin txTo.vin.length
  nHashType : Int32
  amount : Int64
  sigversion : SigVersion
  cache : Option PrecomputedTransactionData

namespace SighashCall
variable (crypto : Crypto) (call : SighashCall)

def hash : Uint256 :=
  signatureHash crypto call.scriptCode call.txTo call.nIn call.nHashType call.amount call.sigversion call.cache

/-- The call returns the constant one, before it hashes anything. -/
def returnsOne : Bool := call.sigversion == .BASE && outOfRange call.txTo call.nIn call.nHashType

def serialized : Bytes :=
  match call.sigversion with
  | .WITNESS_V0 => witnessPreimage crypto call.txTo call.nHashType call.cache call.scriptCode
      call.nIn call.amount
  | .BASE => legacyPreimage call.scriptCode call.txTo call.nIn call.nHashType

def preimage : Bytes :=
  if hasForkId call.nHashType then
    serializeBytes forkIdText ++ (crypto.hash256 (call.serialized crypto)).bytes
  else call.serialized crypto

lemma hash_of_one (early : call.returnsOne = true) : call.hash crypto = Uint256.one := by
  obtain ⟨base, range⟩ := and_eq_true_iff.mp early
  rw [hash, signatureHash, eq_of_beq base, if_neg (by decide), if_pos range]

lemma hash_of_preimage (late : call.returnsOne = false) :
    call.hash crypto = crypto.hash256 (call.preimage crypto) := by
  have folded : forkIdHash crypto call.nHashType (crypto.hash256 (call.serialized crypto)) =
      crypto.hash256 (call.preimage crypto) := by
    rw [forkIdHash, preimage]
    split_ifs <;> rfl
  rw [← folded, hash, signatureHash, serialized]
  cases version : call.sigversion with
  | WITNESS_V0 => rw [if_pos rfl]
  | BASE =>
    rw [returnsOne, version] at late
    have range : outOfRange call.txTo call.nIn call.nHashType = false := late
    rw [if_neg (by decide), range, if_neg Bool.false_ne_true]

end SighashCall

variable (scriptCode : Bytes) (txTo : CTransaction) (nIn : Fin txTo.vin.length) (nHashType : Int32)

lemma serializeInput_length (nIn : Nat) (nHashType : Int32) (nInput : Nat)
    (txin : CTxIn) : 41 ≤ (serializeInput scriptCode nIn nHashType nInput txin).length := by
  have outpoint : (serializeOutPoint txin.prevout).length = 36 := by
    rw [serializeOutPoint, serializeUInt32, length_append, Uint256.size, ByteCodec.length_leBytes]
  have script : 1 ≤ (if nInput ≠ nIn then serializeBytes [] else serializeScriptCode scriptCode).length := by
    have size := writeCompactSize_length (scriptCode.length - countSeparators scriptCode.length scriptCode)
    split_ifs
    · exact le_refl 1
    · rw [serializeScriptCode, length_append]
      omega
  have sequence : (if nInput ≠ nIn ∧ (hashSingle nHashType || hashNone nHashType) then serializeInt32 0
      else serializeUInt32 txin.nSequence).length = 4 := by
    split_ifs <;> exact ByteCodec.length_leBytes ..
  rw [serializeInput, length_append, length_append, outpoint, sequence]
  omega

lemma serializeInputs_length : 42 ≤ (serializeInputs scriptCode txTo nIn nHashType).length := by
  unfold serializeInputs
  split_ifs
  · have single := serializeInput_length scriptCode nIn nHashType nIn (txTo.vin.get nIn)
    have size := writeCompactSize_length 1
    rw [length_append]
    omega
  · have each : ∀ input ∈ txTo.vin.zipIdx,
        41 ≤ (serializeInput scriptCode nIn nHashType input.2 input.1).length := fun input _ =>
      serializeInput_length scriptCode nIn nHashType input.2 input.1
    have all := length_flatMap_ge each
    have size := writeCompactSize_length txTo.vin.length
    have least := nIn.pos
    rw [length_zipIdx] at all
    rw [length_append]
    omega

lemma legacyPreimage_length : 55 ≤ (legacyPreimage scriptCode txTo nIn nHashType).length := by
  have inputs := serializeInputs_length scriptCode txTo nIn nHashType
  have outputs := writeCompactSize_length (signedOutputs nIn nHashType txTo.vout).length
  simp only [legacyPreimage, serializeInt32, serializeUInt32, length_append, ByteCodec.length_leBytes]
  omega

lemma witnessPreimage_length (crypto : Crypto) (txTo : CTransaction) (nHashType : Int32)
    (cache : Option PrecomputedTransactionData) (scriptCode : Bytes) (nIn : Fin txTo.vin.length)
    (amount : Int64) : 55 ≤ (witnessPreimage crypto txTo nHashType cache scriptCode nIn amount).length := by
  simp only [witnessPreimage, length_append, Uint256.size]
  omega

namespace SighashCall
variable {crypto : Crypto} {call other : SighashCall}

lemma length_of_forkId (marked : hasForkId call.nHashType = true) : (call.preimage crypto).length = 54 := by
  rw [preimage, if_pos marked, length_append, Uint256.size]
  rfl

lemma length_of_plain (plain : hasForkId call.nHashType = false) : 55 ≤ (call.preimage crypto).length := by
  rw [preimage, plain, if_neg Bool.false_ne_true, serialized]
  split
  · exact witnessPreimage_length ..
  · exact legacyPreimage_length ..

lemma preimage_ne (marked : hasForkId call.nHashType = true)
    (plain : hasForkId other.nHashType = false) : other.preimage crypto ≠ call.preimage crypto := by
  intro same
  have short : (call.preimage crypto).length = 54 := length_of_forkId marked
  have long : 55 ≤ (other.preimage crypto).length := length_of_plain plain
  rw [same] at long
  omega

end SighashCall

/-- What is assumed of double SHA-256, on the data that it is applied to. -/
structure CollisionFree (crypto : Crypto) (hashed : Set Bytes) : Prop where
  injective : Set.InjOn crypto.hash256 hashed
  notOne : ∀ data ∈ hashed, crypto.hash256 data ≠ Uint256.one

/-- Whatever the call hashes last is among the given data. -/
def SighashCall.Within (call : SighashCall) (crypto : Crypto) (hashed : Set Bytes) : Prop :=
  call.returnsOne = false → call.preimage crypto ∈ hashed

/-- A signature hash with SIGHASH_FORKID differs from every one without it exactly when it
is not the constant of a SIGHASH_SINGLE input that has no output. -/
theorem forkId_separates_iff {crypto : Crypto} {hashed : Set Bytes} (free : CollisionFree crypto hashed)
    (call : SighashCall) (marked : hasForkId call.nHashType = true) (within : call.Within crypto hashed) :
    (∀ other : SighashCall, hasForkId other.nHashType = false → other.Within crypto hashed →
      other.hash crypto ≠ call.hash crypto) ↔ call.returnsOne = false := by
  constructor
  · intro separated
    by_contra early
    rw [not_eq_false] at early
    -- the same call without the fork id returns the same constant
    let other : SighashCall := { call with nHashType := SIGHASH_SINGLE }
    have single : hashSingle SIGHASH_SINGLE = true := by decide
    have unmarked : hasForkId SIGHASH_SINGLE = false := by decide
    obtain ⟨base, range⟩ := and_eq_true_iff.mp early
    have alike : other.returnsOne = true :=
      and_eq_true_iff.mpr ⟨base, and_eq_true_iff.mpr ⟨single, (and_eq_true_iff.mp range).2⟩⟩
    refine separated other unmarked (fun late => ?_) ?_
    · rw [alike] at late
      cases late
    · rw [SighashCall.hash_of_one crypto call early, SighashCall.hash_of_one crypto other alike]
  · intro late other plain otherWithin same
    rw [SighashCall.hash_of_preimage crypto call late] at same
    cases early : other.returnsOne with
    | true =>
      rw [SighashCall.hash_of_one crypto other early] at same
      exact free.notOne _ (within late) same.symm
    | false =>
      rw [SighashCall.hash_of_preimage crypto other early] at same
      exact SighashCall.preimage_ne marked plain (free.injective (otherWithin early) (within late) same)

namespace CrossChain

def tx : CTransaction :=
  ⟨[⟨⟨Uint256.null, 0⟩, [], 0xffffffff, []⟩, ⟨⟨Uint256.null, 1⟩, [], 0xffffffff, []⟩], [⟨1000, [OP_1]⟩], 1, 0⟩

def signed (nIn : Fin 2) (nHashType : Int32) : SighashCall := ⟨[OP_CHECKSIG], tx, nIn, nHashType, 1000, .BASE, none⟩

theorem first_input_separated : hasForkId (signed 1 3).nHashType = false ∧
      (signed 1 3).hash Crypto.suffixes ≠ (signed 0 0x41).hash Crypto.suffixes := by
  have free : ∀ data ∈ ({(signed 0 0x41).preimage Crypto.suffixes} : Set Bytes),
      Crypto.suffixes.hash256 data ≠ Uint256.one := by
    rintro data rfl
    decide +kernel
  have separated := (forkId_separates_iff ⟨Set.injOn_singleton .., free⟩ (signed 0 0x41) (by decide)
    fun _ => Set.mem_singleton _).mpr (by decide)
  exact ⟨by decide, separated (signed 1 3) (by decide) fun late => absurd late (by decide)⟩

/-- The second input has no output, so the fork id changes nothing. -/
theorem second_input_replayed :
    hasForkId (signed 1 0x43).nHashType = true ∧ hasForkId (signed 1 3).nHashType = false ∧
    (signed 1 0x43).hash Crypto.suffixes = (signed 1 3).hash Crypto.suffixes ∧
    (signed 1 0x43).returnsOne = true ∧ (signed 1 3).returnsOne = true := by
  decide +kernel

end CrossChain

end Dragonchain.Script
