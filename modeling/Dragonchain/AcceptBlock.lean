import Dragonchain.BlockIndex

/-!
AcceptBlockHeader and AcceptBlock of validation.cpp, with the header checks of
ContextualCheckBlockHeader and checkpoints.cpp. A rejection still returns the chain
state, since a rejected header may mark its ancestors and a rejected block itself.
-/

namespace Dragonchain

open Serialization

def REJECT_OBSOLETE : UInt8 := 0x11
def REJECT_CHECKPOINT : UInt8 := 0x43

def MAX_FUTURE_BLOCK_TIME : Int := 60
def MIN_BLOCKS_TO_KEEP : Int := 288
def VERSIONBITS_TOP_BITS : Int := 0x20000000

/-- Chain parameters, with fCheckpointsEnabled and nMinimumChainWork as they are set at start. -/
structure CChainParams where
  consensus : Consensus.Params
  pow : PowParams
  /-- In the order of the heights. -/
  mapCheckpoints : List (Int × Uint256)
  fCheckpointsEnabled : Bool
  nMinimumChainWork : Nat

structure Surroundings where
  isInitialBlockDownload : Bool
  nAdjustedTime : Int

abbrev CChainParams.State (params : CChainParams) := CChainState params.consensus.hashGenesisBlock

/-- A CBlock object: its block, fChecked and the cache of its header. -/
structure BlockInMemory where
  block : CBlock
  fChecked : Bool := false
  cache : Option PoWCache := none

/-- strprintf("bad-version(0x%08x)", nVersion). -/
def badVersion (nVersion : Int32) : String :=
  "bad-version(0x" ++ String.ofList ((Nat.toDigits 16 nVersion.toUInt32.toNat).leftpad 8 '0') ++ ")"

def invalid (chRejectCode : UInt8) (strRejectReason : String) : Reject := ⟨0, chRejectCode, strRejectReason, false⟩

section Accept
variable (crypto : Crypto) (params : CChainParams)

/-- CheckBlockHeader with the cached hash. -/
def checkHeaderWork (header : CBlockHeader) (cache : Option PoWCache) : Check × Option PoWCache :=
  let (hash, cache) := getPoWHash_cached crypto header cache
  (check (checkProofOfWork params.consensus hash header.nBits) (dos 50 "high-hash"), cache)

/-- CheckBlock of an object; the second part is what follows the header check. -/
def BlockInMemory.checkBlock (object : BlockInMemory) (fCheckPOW fCheckMerkleRoot : Bool := true) :
    Except Reject BlockInMemory :=
  if object.fChecked then .ok object
  else
    let (work, cache) := if fCheckPOW then checkHeaderWork crypto params object.block.toCBlockHeader object.cache
      else (.ok (), object.cache)
    match work with
    | .error reject => .error reject
    | .ok () =>
      match checkBlockBody crypto params.consensus object.block false fCheckMerkleRoot with
      | .error reject => .error reject
      | .ok () => .ok { object with fChecked := fCheckPOW && fCheckMerkleRoot, cache }

variable (state : params.State)

def getLastCheckpoint : Option Uint256 :=
  (params.mapCheckpoints.reverse.map Prod.snd).find? fun hash => state.Known hash

/-- `if (pcheckpoint && nHeight < pcheckpoint->nHeight)`, when checkpoints are enabled. -/
def beforeCheckpoint (nHeight : Int) : Bool :=
  params.fCheckpointsEnabled
    && (getLastCheckpoint params state).any fun pcheckpoint => nHeight < state.nHeight pcheckpoint

variable (block : CBlockHeader)

/-- `bad-version` of the two upgrade rules. -/
def outdatedVersion (nHeight : Int) : Bool :=
  (block.nVersion.toInt < 2 && nHeight ≥ params.consensus.BIP34Height)
    || (block.nVersion.toInt < 3 && nHeight ≥ params.consensus.BIP66Height)
    || (block.nVersion.toInt < 4 && nHeight ≥ params.consensus.BIP65Height)

variable (pindexPrev : Uint256) (nAdjustedTime : Int)

def contextualCheckBlockHeader
 : Check := do
  let nHeight := state.nHeight pindexPrev + 1
  let chain := state.ancestry pindexPrev
  let nTime : Int := block.nTime.toNat
  check (block.nBits == getNextWorkRequired params.consensus params.pow chain block) (dos 100 "bad-diffbits")
  check (!beforeCheckpoint params state nHeight) ⟨100, REJECT_CHECKPOINT, "bad-fork-prior-to-checkpoint", false⟩
  check (!(nTime ≤ chain.getMedianTimePast)) (invalid REJECT_INVALID "time-too-old")
  check (!(nTime > nAdjustedTime + MAX_FUTURE_BLOCK_TIME)) (invalid REJECT_INVALID "time-too-new")
  check (!outdatedVersion params block nHeight) (invalid REJECT_OBSOLETE (badVersion block.nVersion))
  check (!(block.nVersion.toInt < VERSIONBITS_TOP_BITS && params.consensus.witnessEnabled chain))
    (invalid REJECT_OBSOLETE (badVersion block.nVersion))

/-- The failed block that the search over g_failed_blocks finds among the ancestors. -/
def failedAncestor : Option Uint256 :=
  if (state.nStatus pindexPrev).isValid BLOCK_VALID_SCRIPTS then none
  else state.g_failed_blocks.find? fun failedit => failedit ∈ state.path pindexPrev

/-- The part of AcceptBlockHeader after the previous block has been found. -/
def acceptOnto (state : params.State) (header : CBlockHeader)
    (cache : Option PoWCache) (fresh : ¬state.Known (getBlockHash crypto header))
    (known : state.Known header.hashPrevBlock) : Except ChainFault (Except Reject Uint256 × params.State) :=
  let pindexPrev := header.hashPrevBlock
  if (state.nStatus pindexPrev).failed then .ok (.error (dos 100 "bad-prevblk"), state)
  else
    match contextualCheckBlockHeader params state header pindexPrev nAdjustedTime with
    | .error reject => .ok (.error reject, state)
    | .ok () =>
      match failedAncestor params state pindexPrev with
      | some failedit =>
        if !(state.nStatus failedit).failedValid then .error .failedBlockNotFailed
        else .ok (.error (dos 100 "bad-prevblk"),
          state.setFailedChild ((state.path pindexPrev).takeWhile fun walk => walk ≠ failedit))
      | none =>
        .ok (.ok (getBlockHash crypto header),
          state.addToBlockIndex (getBlockHash crypto header) header cache fresh known)

def acceptBlockHeader (outside : Surroundings) (state : params.State) (header : CBlockHeader)
    (cache : Option PoWCache) : Except ChainFault (Except Reject Uint256 × params.State × Option PoWCache) :=
  let hash := getBlockHash crypto header
  if fresh : ¬state.Known hash then
    let (work, cache) := if outside.isInitialBlockDownload then (.ok (), cache)
      else checkHeaderWork crypto params header cache
    match work with
    | .error reject => .ok (.error reject, state, cache)
    | .ok () =>
      if known : state.Known header.hashPrevBlock then
        (acceptOnto crypto params outside.nAdjustedTime state header cache fresh known).map
          fun (result, state) => (result, state, cache)
      else .ok (.error ⟨10, 0, "prev-blk-not-found", false⟩, state, cache)
  -- the genesis block is not looked at: AddToBlockIndex returns its entry
  else if hash ≠ params.consensus.hashGenesisBlock ∧ (state.nStatus hash).failed then
    .ok (.error (invalid 0 "duplicate"), state, cache)
  else .ok (.ok hash, state, cache)

variable (pindex : Uint256)

/-- Whether AcceptBlock returns before it looks at the block: it has it, or was not asked. -/
def skipsBlock (fRequested : Bool) : Bool :=
  (state.nStatus pindex).haveData
    || (!fRequested
      && ((state.blockIndex pindex).nTx != 0
        || !(state.nChainWork pindex ≥ state.nChainWork state.tip)
        || state.nHeight pindex > state.nHeight state.tip + MIN_BLOCKS_TO_KEEP
        || state.nChainWork pindex < params.nMinimumChainWork))

/-- CheckBlock and ContextualCheckBlock as AcceptBlock runs them. -/
def checkArrival (object : BlockInMemory) : Except Reject BlockInMemory := do
  let object ← object.checkBlock crypto params
  contextualCheckBlock crypto params.consensus object.block (state.ancestry pindex).tail
  .ok object

def acceptBlock (address : Uint256 ↪ Nat) (outside : Surroundings) (state : params.State)
    (object : BlockInMemory) (fRequested : Bool) :
    Except ChainFault (Except Reject Uint256 × params.State × BlockInMemory) := do
  let (accepted, state, cache) ←
    acceptBlockHeader crypto params outside state object.block.toCBlockHeader object.cache
  let object := { object with cache }
  match accepted with
  | .error reject => .ok (.error reject, state, object)
  | .ok pindex =>
    if skipsBlock params state pindex fRequested then .ok (.ok pindex, state, object)
    else
      match checkArrival crypto params state pindex object with
      | .error reject =>
        .ok (.error reject, if reject.corruptionPossible then state else state.setFailedValid pindex, object)
      | .ok object =>
        (state.receivedBlockTransactions address object.block pindex).map fun state => (.ok pindex, state, object)

end Accept

/-! A chain whose blocks hold nothing but a coinbase, for closed examples. -/

namespace Sample

open Script

def genesisHeader : CBlockHeader := ⟨4, Uint256.null, Uint256.null, 0, 0x2100ffff, 0⟩

def genesis : Uint256 := getBlockHash Crypto.suffixes genesisHeader

def coinbase (nHeight : Int) : CTransaction :=
  ⟨[⟨⟨Uint256.null, 0xffffffff⟩, pushInt64 nHeight ++ [0], 0xffffffff, []⟩], [⟨0, []⟩], 1, 0⟩

def block (hashPrevBlock : Uint256) (nHeight : Int) (nTime nNonce : UInt32) : CBlock where
  nVersion := 4
  hashPrevBlock
  hashMerkleRoot := getHash Crypto.suffixes (coinbase nHeight)
  nTime
  nBits := 0x2100ffff
  nNonce
  vtx := [coinbase nHeight]

def hash (block : CBlock) : Uint256 := getBlockHash Crypto.suffixes block.toCBlockHeader

variable (mapCheckpoints : List (Int × Uint256))

def params : CChainParams where
  consensus := { Consensus.Params.easy with hashGenesisBlock := genesis }
  pow := PowParams.steady
  mapCheckpoints
  fCheckpointsEnabled := true
  nMinimumChainWork := 0

def start : (params mapCheckpoints).State := .start genesis genesisHeader

def outside : Surroundings := ⟨false, 100⟩

def accepts : Uint256 → Bool := fun _ => true

/-- Entries that lie in memory in the order of their hashes. -/
def address : Uint256 ↪ Nat where
  toFun := UintToArith256
  inj' := by
    rintro ⟨first, size⟩ ⟨second, size'⟩ same
    obtain rfl := ByteCodec.leValue_injective (size.trans size'.symm) same
    rfl

end Sample

end Dragonchain
