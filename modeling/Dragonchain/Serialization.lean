import Dragonchain.Primitives
import Dragonchain.ByteCodec

/-!
Wire format of serialize.h, primitives/transaction.h and primitives/block.h.
Writers return the bytes of the stream, so GetSerializeSize is a length. Readers
fail where the C++ stream throws; the block-wise growth of vectors while reading
only limits memory and is not visible in the value read.
-/

namespace Dragonchain.Serialization

open ByteCodec List

def MAX_SIZE : Nat := 0x02000000

variable (nSize : Nat)

def writeCompactSize : Bytes :=
  if nSize < 253 then leBytes 1 nSize
  else if nSize ≤ 0xffff then 253 :: leBytes 2 nSize
  else if nSize ≤ 0xffffffff then 254 :: leBytes 4 nSize
  else 255 :: leBytes 8 nSize

def getSizeOfCompactSize : Nat :=
  if nSize < 253 then 1 else if nSize ≤ 0xffff then 3 else if nSize ≤ 0xffffffff then 5 else 9

/-- The bytes after a marker; a size that fits a shorter form is not canonical. -/
def readLongSize (width minimum : Nat) : Reader Nat := do
  let nSize ← readNat width
  if nSize < minimum then failure else pure nSize

def readSize (chSize : Nat) : Reader Nat :=
  if chSize < 253 then pure chSize
  else if chSize = 253 then readLongSize 2 253
  else if chSize = 254 then readLongSize 4 0x10000
  else readLongSize 8 0x100000000

def readCompactSize : Reader Nat := do
  let chSize ← readNat 1
  let nSizeRet ← readSize chSize
  if nSizeRet > MAX_SIZE then failure else pure nSizeRet

variable {α : Type}

def serializeVector (item : α → Bytes) (values : List α) : Bytes :=
  writeCompactSize values.length ++ values.flatMap item

def serializeBytes (data : Bytes) : Bytes := writeCompactSize data.length ++ data

def serializeUInt32 (value : UInt32) : Bytes := leBytes 4 value.toNat
def serializeInt32 (value : Int32) : Bytes := leBytes 4 value.toUInt32.toNat
def serializeUInt64 (value : UInt64) : Bytes := leBytes 8 value.toNat
def serializeInt64 (value : Int64) : Bytes := leBytes 8 value.toUInt64.toNat

def serializeOutPoint (prevout : COutPoint) : Bytes := prevout.hash.bytes ++ serializeUInt32 prevout.n

def serializeTxIn (txin : CTxIn) : Bytes :=
  serializeOutPoint txin.prevout ++ serializeBytes txin.scriptSig ++ serializeUInt32 txin.nSequence

def serializeTxOut (txout : CTxOut) : Bytes := serializeInt64 txout.nValue ++ serializeBytes txout.scriptPubKey

def serializeWitness (tx : CTransaction) : Bytes :=
  tx.vin.flatMap fun txin => serializeVector serializeBytes txin.scriptWitness

/-- SerializeTransaction; `fAllowWitness` is false under SERIALIZE_TRANSACTION_NO_WITNESS. -/
def serializeTransaction (fAllowWitness : Bool) (tx : CTransaction) : Bytes :=
  let extended := fAllowWitness && tx.hasWitness
  serializeInt32 tx.nVersion
    ++ (if extended then serializeVector serializeTxIn [] ++ [1] else [])
    ++ serializeVector serializeTxIn tx.vin
    ++ serializeVector serializeTxOut tx.vout
    ++ (if extended then serializeWitness tx else [])
    ++ serializeUInt32 tx.nLockTime

def serializeHeader (header : CBlockHeader) : Bytes :=
  serializeInt32 header.nVersion ++ header.hashPrevBlock.bytes ++ header.hashMerkleRoot.bytes
    ++ serializeUInt32 header.nTime ++ serializeUInt32 header.nBits ++ serializeUInt32 header.nNonce

def serializeBlock (fAllowWitness : Bool) (block : CBlock) : Bytes :=
  serializeHeader block.toCBlockHeader ++ serializeVector (serializeTransaction fAllowWitness) block.vtx

def getTransactionWeight (tx : CTransaction) : Nat :=
  (serializeTransaction false tx).length * (WITNESS_SCALE_FACTOR - 1) + (serializeTransaction true tx).length

def getBlockWeight (block : CBlock) : Nat :=
  (serializeBlock false block).length * (WITNESS_SCALE_FACTOR - 1) + (serializeBlock true block).length

variable (crypto : Crypto)

def getHash (tx : CTransaction) : Uint256 := crypto.hash256 (serializeTransaction false tx)

def getWitnessHash (tx : CTransaction) : Uint256 :=
  if !tx.hasWitness then getHash crypto tx else crypto.hash256 (serializeTransaction true tx)

variable (header : CBlockHeader)

def getBlockHash : Uint256 := crypto.hash256 (serializeHeader header)

def getPoWHash : Uint256 := crypto.yespower (serializeHeader header)

/-! Sizes. -/

lemma writeCompactSize_length : 0 < (writeCompactSize nSize).length ∧ (writeCompactSize nSize).length ≤ 9 := by
  unfold writeCompactSize
  split_ifs <;> simp

lemma serializeHeader_length : (serializeHeader header).length = 80 := by
  simp [serializeHeader, serializeInt32, serializeUInt32, Uint256.size]

lemma length_flatMap_ge {item : α → Bytes} {values : List α} {least : Nat}
    (each : ∀ value ∈ values, least ≤ (item value).length) :
    values.length * least ≤ (values.flatMap item).length := by
  induction values with
  | nil => simp
  | cons value rest ih =>
    have here := each value mem_cons_self
    have later := ih fun value member => each value (mem_cons_of_mem _ member)
    simp only [flatMap_cons, length_append, length_cons, Nat.succ_mul]
    omega

variable (fAllowWitness : Bool) (tx : CTransaction)

lemma vout_length_le : tx.vout.length ≤ (serializeTransaction fAllowWitness tx).length := by
  have each : ∀ txout ∈ tx.vout, 1 ≤ (serializeTxOut txout).length := by
    intro txout _
    simp only [serializeTxOut, serializeInt64, length_append, length_leBytes]
    omega
  have outputs := length_flatMap_ge each
  simp only [serializeTransaction, serializeVector, length_append]
  omega

lemma transaction_length_ge : 10 ≤ (serializeTransaction fAllowWitness tx).length := by
  have inputs := writeCompactSize_length tx.vin.length
  have outputs := writeCompactSize_length tx.vout.length
  simp only [serializeTransaction, serializeVector, serializeInt32, serializeUInt32, length_leBytes, length_append]
  omega

lemma vtx_length_le (block : CBlock) : block.vtx.length * 10 ≤ (serializeBlock fAllowWitness block).length := by
  have each : block.vtx.length * 10 ≤ (block.vtx.flatMap (serializeTransaction fAllowWitness)).length :=
    length_flatMap_ge fun tx _ => transaction_length_ge fAllowWitness tx
  simp only [serializeBlock, serializeVector, length_append]
  omega

/-! Readers, in the order of the C++ operators. -/

def readUInt32 : Reader UInt32 := UInt32.ofNat <$> readNat 4
def readInt32 : Reader Int32 := UInt32.toInt32 <$> readUInt32
def readUInt64 : Reader UInt64 := UInt64.ofNat <$> readNat 8
def readInt64 : Reader Int64 := UInt64.toInt64 <$> readUInt64

def readUint256 : Reader Uint256 := fun input =>
  if enough : 32 ≤ input.length then
    some (⟨input.take 32, by simp [enough]⟩, input.drop 32)
  else none

def readVector (item : Reader α) : Reader (List α) := do
  let nSize ← readCompactSize
  readMany item nSize

def unserializeBytes : Reader Bytes := do
  let nSize ← readCompactSize
  readBytes nSize

def unserializeOutPoint : Reader COutPoint := do
  let hash ← readUint256
  let n ← readUInt32
  pure { hash, n }

def unserializeTxIn : Reader CTxIn := do
  let prevout ← unserializeOutPoint
  let scriptSig ← unserializeBytes
  let nSequence ← readUInt32
  pure { prevout, scriptSig, nSequence }

def unserializeTxOut : Reader CTxOut := do
  let nValue ← readInt64
  let scriptPubKey ← unserializeBytes
  pure { nValue, scriptPubKey }

def setWitnesses (vin : List CTxIn) (witnesses : List (List Bytes)) : List CTxIn :=
  vin.zipWith (fun txin scriptWitness => { txin with scriptWitness }) witnesses

/-- The vin, vout and flags part of UnserializeTransaction. An empty first vector
is the dummy of the extended format only when witnesses are allowed. -/
def unserializeInOuts (fAllowWitness : Bool) : Reader (UInt8 × List CTxIn × List CTxOut) := do
  let vin ← readVector unserializeTxIn
  if vin.isEmpty && fAllowWitness then do
    let flags ← UInt8.ofNat <$> readNat 1
    if flags != 0 then do
      let vin ← readVector unserializeTxIn
      let vout ← readVector unserializeTxOut
      pure (flags, vin, vout)
    else pure (flags, vin, [])
  else do
    let vout ← readVector unserializeTxOut
    pure (0, vin, vout)

def unserializeWitnesses (fAllowWitness : Bool) (flags : UInt8) (vin : List CTxIn) : Reader (UInt8 × List CTxIn) :=
  if flags &&& 1 != 0 && fAllowWitness then do
    let witnesses ← readMany (readVector unserializeBytes) vin.length
    pure (flags ^^^ 1, setWitnesses vin witnesses)
  else pure (flags, vin)

def unserializeTransaction (fAllowWitness : Bool) : Reader CTransaction := do
  let nVersion ← readInt32
  let (flags, vin, vout) ← unserializeInOuts fAllowWitness
  let (flags, vin) ← unserializeWitnesses fAllowWitness flags vin
  if flags != 0 then failure
  else do
    let nLockTime ← readUInt32
    pure { vin, vout, nVersion, nLockTime }

def unserializeHeader : Reader CBlockHeader := do
  let nVersion ← readInt32
  let hashPrevBlock ← readUint256
  let hashMerkleRoot ← readUint256
  let nTime ← readUInt32
  let nBits ← readUInt32
  let nNonce ← readUInt32
  pure { nVersion, hashPrevBlock, hashMerkleRoot, nTime, nBits, nNonce }

end Dragonchain.Serialization
