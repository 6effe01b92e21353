import Mathlib.Data.List.AList
import Dragonchain.Outcome
import Dragonchain.BlockCheck
import Dragonchain.TransactionCodec

/-!
Compact blocks of blockencodings.h and blockencodings.cpp: the message, its encoder
and its format, and PartiallyDownloadedBlock, which puts the block together again from
the message, the mempool and the transactions it had to ask for. Accesses to the
vectors of InitData are checked here, and the loop that looks for a free position takes
its number of turns as an argument, since nothing in the code bounds it.
-/

namespace Dragonchain

open Serialization ByteCodec Outcome

/-- The index counts the positions since the last prefilled transaction. -/
structure PrefilledTransaction where
  index : UInt16
  tx : CTransaction

structure CBlockHeaderAndShortTxIDs where
  header : CBlockHeader
  nonce : UInt64
  shorttxids : List UInt64
  prefilledtxn : List PrefilledTransaction

namespace CBlockHeaderAndShortTxIDs

def blockTxCount (cmpctblock : CBlockHeaderAndShortTxIDs) : Nat :=
  cmpctblock.shorttxids.length + cmpctblock.prefilledtxn.length

variable (crypto : Crypto) (header : CBlockHeader)

/-- FillShortTxIDSelector: shorttxidk0 and shorttxidk1. -/
def shortTxIDSelector (nonce : UInt64) : UInt64 × UInt64 :=
  let shorttxidhash := crypto.sha256 (serializeHeader header ++ serializeUInt64 nonce)
  (UInt64.ofNat (leValue (shorttxidhash.bytes.take 8)),
    UInt64.ofNat (leValue ((shorttxidhash.bytes.drop 8).take 8)))

def shortID (nonce : UInt64) (txhash : Uint256) : UInt64 :=
  let (shorttxidk0, shorttxidk1) := shortTxIDSelector crypto header nonce
  crypto.sipHashUint256 shorttxidk0 shorttxidk1 txhash &&& 0xffffffffffff

def getShortID (cmpctblock : CBlockHeaderAndShortTxIDs) (txhash : Uint256) : UInt64 :=
  shortID crypto cmpctblock.header cmpctblock.nonce txhash

/-- The hash of a transaction that its short id is made from. -/
def txHash (fUseWTXID : Bool) (tx : CTransaction) : Uint256 :=
  if fUseWTXID then getWitnessHash crypto tx else getHash crypto tx

def ofBlock (block : CBlock) (nonce : UInt64) (fUseWTXID : Bool) : Option CBlockHeaderAndShortTxIDs :=
  match block.vtx with
  | [] => none
  | coinbase :: rest =>
    some { header := block.toCBlockHeader, nonce, prefilledtxn := [⟨0, coinbase⟩]
           shorttxids := rest.map fun tx => shortID crypto block.toCBlockHeader nonce (txHash crypto fUseWTXID tx) }

end CBlockHeaderAndShortTxIDs

/-! The format on the network. -/

def serializeShortID (shorttxid : UInt64) : Bytes :=
  leBytes 4 shorttxid.toNat ++ leBytes 2 (shorttxid.toNat / 2 ^ 32)

def serializePrefilled (prefilled : PrefilledTransaction) : Bytes :=
  writeCompactSize prefilled.index.toNat ++ serializeTransaction true prefilled.tx

def serializeCompactBlock (cmpctblock : CBlockHeaderAndShortTxIDs) : Bytes :=
  serializeHeader cmpctblock.header ++ serializeUInt64 cmpctblock.nonce
    ++ serializeVector serializeShortID cmpctblock.shorttxids
    ++ serializeVector serializePrefilled cmpctblock.prefilledtxn

def unserializeShortID : Reader UInt64 := do
  let lsb ← readNat 4
  let msb ← readNat 2
  pure (UInt64.ofNat (msb * 2 ^ 32 + lsb))

def readIndex : Reader Nat := do
  let idx ← readCompactSize
  if idx > 0xffff then failure else pure idx

def unserializePrefilled : Reader PrefilledTransaction := do
  let idx ← readIndex
  let tx ← unserializeTransaction true
  pure { index := UInt16.ofNat idx, tx }

def unserializeCompactBlock : Reader CBlockHeaderAndShortTxIDs := do
  let header ← unserializeHeader
  let nonce ← readUInt64
  let shorttxids ← readVector unserializeShortID
  let prefilledtxn ← readVector unserializePrefilled
  pure { header, nonce, shorttxids, prefilledtxn }

lemma reads_shortID {shorttxid : UInt64} (fits : shorttxid.toNat < 2 ^ 48) :
    Reads unserializeShortID (serializeShortID shorttxid) shorttxid := by
  have value : UInt64.ofNat (shorttxid.toNat / 2 ^ 32 * 2 ^ 32 + shorttxid.toNat % 2 ^ 32) = shorttxid := by
    rw [Nat.div_add_mod', UInt64.ofNat_toNat]
  rw [serializeShortID, ← leBytes_mod 4]
  refine (reads_nat 4 (shorttxid.toNat % 256 ^ 4) (by omega)).bind ?_
  have last := (reads_nat 2 (shorttxid.toNat / 2 ^ 32) (by omega)).last
    (f := fun msb => UInt64.ofNat (msb * 2 ^ 32 + shorttxid.toNat % 2 ^ 32))
  rwa [value] at last

lemma reads_prefilled {prefilled : PrefilledTransaction} (limits : WithinLimits prefilled.tx) :
    Reads unserializePrefilled (serializePrefilled prefilled) prefilled := by
  have narrow := prefilled.index.toNat_lt
  have index : Reads readIndex (writeCompactSize prefilled.index.toNat) prefilled.index.toNat :=
    reads_guarded (reads_compactSize (by rw [MAX_SIZE]; omega)) (by omega)
  refine index.bind ?_
  rw [UInt16.ofNat_toNat]
  exact (reads_transaction limits).last

lemma reads_compactBlock {cmpctblock : CBlockHeaderAndShortTxIDs} (ids : cmpctblock.shorttxids.length ≤ MAX_SIZE)
    (short : ∀ shorttxid ∈ cmpctblock.shorttxids, shorttxid.toNat < 2 ^ 48)
    (prefilled : cmpctblock.prefilledtxn.length ≤ MAX_SIZE)
    (limits : ∀ it ∈ cmpctblock.prefilledtxn, WithinLimits it.tx) :
    Reads unserializeCompactBlock (serializeCompactBlock cmpctblock) cmpctblock := by
  simp only [serializeCompactBlock, List.append_assoc]
  refine reads_header.bind ?_
  refine (reads_uint64 cmpctblock.nonce).bind ?_
  refine (reads_vector ids fun shorttxid member => reads_shortID (short shorttxid member)).bind ?_
  exact (reads_vector prefilled fun it member => reads_prefilled (limits it member)).last

/-! PartiallyDownloadedBlock. -/

inductive ReadStatus where
  | READ_STATUS_INVALID
  | READ_STATUS_FAILED
  | READ_STATUS_CHECKBLOCK_FAILED
  deriving DecidableEq

inductive PartialFault where
  | outOfRange
  | assertion
  | stillLooping
  deriving DecidableEq

/-- A result is READ_STATUS_OK, an error one of the others. -/
abbrev PartialM := Outcome ReadStatus PartialFault

def CBlockHeader.null : CBlockHeader := ⟨0, Uint256.null, Uint256.null, 0, 0, 0⟩

lemma CBlockHeader.null_isNull : CBlockHeader.null.isNull = true := rfl

abbrev TxSlots := List (Option CTransaction)

structure PartiallyDownloadedBlock where
  txn_available : TxSlots := []
  mempool_count : Nat := 0
  header : CBlockHeader := CBlockHeader.null

def placePrefilled (nShortIDs : Nat) : List PrefilledTransaction → Nat → Int → TxSlots → PartialM TxSlots
  | [], _, _, txn_available => .ok txn_available
  | prefilled :: rest, i, lastprefilledindex, txn_available =>
    if prefilled.tx.isNull then fail .READ_STATUS_INVALID
    else
      let lastprefilledindex := lastprefilledindex + (prefilled.index.toNat + 1)
      if lastprefilledindex > 0xffff then fail .READ_STATUS_INVALID
      else if lastprefilledindex.toNat > nShortIDs + i then fail .READ_STATUS_INVALID
      else if lastprefilledindex.toNat ≥ txn_available.length then crash .outOfRange
      else placePrefilled nShortIDs rest (i + 1) lastprefilledindex
        (txn_available.set lastprefilledindex.toNat (some prefilled.tx))

/-- `while (txn_available[i + index_offset]) index_offset++`. -/
def skipFilled (txn_available : TxSlots) (i : Nat) : Nat → UInt16 → PartialM UInt16
  | 0, _ => crash .stillLooping
  | fuel + 1, index_offset =>
    match txn_available[i + index_offset.toNat]? with
    | none => crash .outOfRange
    | some none => .ok index_offset
    | some (some _) => skipFilled txn_available i fuel (index_offset + 1)

abbrev ShortIDMap := AList fun _ : UInt64 => UInt16

/-- The bucket of a key in a std::unordered_map that was made for some number of keys and
holds some number of them. -/
structure BucketLayout where
  bucket : Nat → Nat → UInt64 → Nat

def bucketSize (layout : BucketLayout) (made : Nat) (keys : List UInt64) (key : UInt64) : Nat :=
  keys.countP fun other => layout.bucket made keys.length other == layout.bucket made keys.length key

def placeShortIDs (layout : BucketLayout) (fuel made : Nat) (txn_available : TxSlots) :
    List UInt64 → Nat → UInt16 → ShortIDMap → PartialM ShortIDMap
  | [], _, _, shorttxids => .ok shorttxids
  | shorttxid :: rest, i, index_offset, shorttxids => do
    let index_offset ← skipFilled txn_available i fuel index_offset
    let shorttxids := shorttxids.insert shorttxid (UInt16.ofNat (i + index_offset.toNat))
    require (!(bucketSize layout made shorttxids.keys shorttxid > 12)) .READ_STATUS_FAILED
    placeShortIDs layout fuel made txn_available rest (i + 1) index_offset shorttxids

structure Found where
  txn_available : TxSlots
  have_txn : List Bool
  mempool_count : Nat

/-- One transaction of the mempool or of the extra ones. A second one for a position
takes the first away where `differs`. -/
def offer (getShortID : Uint256 → UInt64) (differs : CTransaction → CTransaction → Bool)
    (shorttxids : ShortIDMap) (found : Found) (it : Uint256 × CTransaction) : PartialM Found :=
  match shorttxids.lookup (getShortID it.1) with
  | none => .ok found
  | some position =>
    match found.have_txn[position.toNat]?, found.txn_available[position.toNat]? with
    | some false, some _ => .ok
        { txn_available := found.txn_available.set position.toNat (some it.2)
          have_txn := found.have_txn.set position.toNat true
          mempool_count := found.mempool_count + 1 }
    | some true, some none => .ok found
    | some true, some (some held) =>
      if differs held it.2 then .ok
        { found with
          txn_available := found.txn_available.set position.toNat none
          mempool_count := found.mempool_count - 1 }
      else .ok found
    | _, _ => crash .outOfRange

def offerAll (getShortID : Uint256 → UInt64) (differs : CTransaction → CTransaction → Bool)
    (shorttxids : ShortIDMap) : List (Uint256 × CTransaction) → Found → PartialM Found
  | [], found => .ok found
  | it :: rest, found => do
    let found ← offer getShortID differs shorttxids found it
    if found.mempool_count = shorttxids.keys.length then .ok found
    else offerAll getShortID differs shorttxids rest found

/-- InitData; the mempool is its vTxHashes. -/
def initData (crypto : Crypto) (layout : BucketLayout) (fuel : Nat)
    (object : PartiallyDownloadedBlock) (cmpctblock : CBlockHeaderAndShortTxIDs)
    (vTxHashes extra_txn : List (Uint256 × CTransaction)) : PartialM PartiallyDownloadedBlock := do
  require (!(cmpctblock.header.isNull
    || (cmpctblock.shorttxids.isEmpty && cmpctblock.prefilledtxn.isEmpty))) .READ_STATUS_INVALID
  require (!(cmpctblock.blockTxCount > MAX_BLOCK_WEIGHT / MIN_SERIALIZABLE_TRANSACTION_WEIGHT)) .READ_STATUS_INVALID
  (if object.header.isNull && object.txn_available.isEmpty then .ok () else crash .assertion)
  let txn_available ← placePrefilled cmpctblock.shorttxids.length cmpctblock.prefilledtxn 0 (-1)
    (List.replicate cmpctblock.blockTxCount none)
  let shorttxids ← placeShortIDs layout fuel cmpctblock.shorttxids.length txn_available cmpctblock.shorttxids 0 0 ∅
  require (shorttxids.keys.length == cmpctblock.shorttxids.length) .READ_STATUS_FAILED
  let found ← offerAll (cmpctblock.getShortID crypto) (fun _ _ => true) shorttxids vTxHashes
    ⟨txn_available, List.replicate txn_available.length false, object.mempool_count⟩
  let found ← offerAll (cmpctblock.getShortID crypto)
    (fun held tx => getWitnessHash crypto held != getWitnessHash crypto tx) shorttxids extra_txn found
  pure { txn_available := found.txn_available, mempool_count := found.mempool_count
         header := cmpctblock.header }

/-- The loop of FillBlock: the transactions, and those of vtx_missing that were not used. -/
def fillVtx : TxSlots → List CTransaction → Option (List CTransaction × List CTransaction)
  | [], missing => some ([], missing)
  | some tx :: rest, missing => (fillVtx rest missing).map fun (vtx, left) => (tx :: vtx, left)
  | none :: _, [] => none
  | none :: rest, tx :: missing => (fillVtx rest missing).map fun (vtx, left) => (tx :: vtx, left)

def fillBlock {crypto : Crypto} {params : Consensus.Params} (object : PartiallyDownloadedBlock)
    (vtx_missing : List CTransaction) : PartialM (BlockObject crypto params × PartiallyDownloadedBlock) :=
  if object.header.isNull then crash .assertion
  else
    match fillVtx object.txn_available vtx_missing with
    | none => fail .READ_STATUS_INVALID
    | some (_, _ :: _) => fail .READ_STATUS_INVALID
    | some (vtx, []) =>
      match checkBlock ⟨{ toCBlockHeader := object.header, vtx }, false, nofun⟩ true true with
      | .error reject =>
        if reject.corruptionPossible then fail .READ_STATUS_FAILED
        else fail .READ_STATUS_CHECKBLOCK_FAILED
      | .ok block => .ok (block, { object with header := CBlockHeader.null, txn_available := [] })

end Dragonchain
