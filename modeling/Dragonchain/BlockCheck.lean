import Dragonchain.Merkle
import Dragonchain.TxVerify

/-!
CheckBlock and ContextualCheckBlock of validation.cpp. CheckBlock remembers a full
check in the block object, so a block in memory carries that flag together with the
fact it stands for. The hash that the header class caches for the proof of work is
the hash of its fields here.
-/

namespace Dragonchain

open Script Serialization Merkle

namespace Consensus

structure Params where
  hashGenesisBlock : Uint256
  BIP16Height : Int
  BIP34Height : Int
  BIP34Hash : Uint256
  BIP65Height : Int
  BIP66Height : Int
  powLimit : Uint256
  /-- VersionBitsState(pindexPrev, DEPLOYMENT_CSV) == THRESHOLD_ACTIVE. -/
  csvActive : Ancestry → Bool
  /-- IsWitnessEnabled(pindexPrev). -/
  witnessEnabled : Ancestry → Bool

/-- Parameters under which every hash of zeros is work enough, for closed examples. -/
def Params.easy : Params where
  hashGenesisBlock := Uint256.filled 1
  BIP16Height := 0
  BIP34Height := 0
  BIP34Hash := Uint256.filled 2
  BIP65Height := 0
  BIP66Height := 0
  powLimit := Uint256.filled 255
  csvActive _ := false
  witnessEnabled _ := false

end Consensus

def UintToArith256 (hash : Uint256) : Nat := ByteCodec.leValue hash.bytes

def setCompact (nCompact : UInt32) : Nat × Bool × Bool :=
  let nSize := nCompact.toNat / 2 ^ 24
  let nWord := nCompact.toNat % 2 ^ 23
  let shifted := nWord / 2 ^ (8 * (3 - nSize))
  let value := if nSize ≤ 3 then shifted else nWord * 2 ^ (8 * (nSize - 3)) % 2 ^ 256
  let nWord := if nSize ≤ 3 then shifted else nWord
  let fNegative := nWord != 0 && nCompact.toNat.testBit 23
  let fOverflow := nWord != 0 && (nSize > 34 || (nWord > 0xff && nSize > 33) || (nWord > 0xffff && nSize > 32))
  (value, fNegative, fOverflow)

def checkProofOfWork (params : Consensus.Params) (hash : Uint256) (nBits : UInt32) : Bool :=
  let (bnTarget, fNegative, fOverflow) := setCompact nBits
  if fNegative || bnTarget == 0 || fOverflow || bnTarget > UintToArith256 params.powLimit then false
  else !(UintToArith256 hash > bnTarget)

section Checks
variable (crypto : Crypto) (params : Consensus.Params)

def checkBlockHeader (block : CBlockHeader) (fCheckPOW : Bool) : Check :=
  check (!(fCheckPOW && !checkProofOfWork params (getPoWHash crypto block) block.nBits)) (dos 50 "high-hash")

def checkMerkleRoot (block : CBlock) : Check := do
  let (hashMerkleRoot2, mutated) := blockMerkleRoot crypto block
  check (block.hashMerkleRoot == hashMerkleRoot2) (corrupt 100 "bad-txnmrklroot")
  check (!mutated) (corrupt 100 "bad-txns-duplicate")

def blockSigOps (block : CBlock) : UInt32 := block.vtx.foldl (fun nSigOps tx => nSigOps + getLegacySigOpCount tx) 0

/-- CheckBlock without the early return on fChecked. -/
def checkBlockBody (block : CBlock) (fCheckPOW fCheckMerkleRoot : Bool) : Check := do
  checkBlockHeader crypto params block.toCBlockHeader fCheckPOW
  (if fCheckMerkleRoot then checkMerkleRoot crypto block else .ok ())
  check (!(block.vtx.isEmpty || block.vtx.length * WITNESS_SCALE_FACTOR > MAX_BLOCK_WEIGHT
      || (serializeBlock false block).length * WITNESS_SCALE_FACTOR > MAX_BLOCK_WEIGHT))
    (dos 100 "bad-blk-length")
  check (block.vtx.head?.any CTransaction.isCoinBase) (dos 100 "bad-cb-missing")
  check (block.vtx.tail.all fun tx => !tx.isCoinBase) (dos 100 "bad-cb-multiple")
  block.vtx.forM fun tx => checkTransaction tx true
  check (!((blockSigOps block * UInt32.ofNat WITNESS_SCALE_FACTOR).toNat > MAX_BLOCK_SIGOPS_COST))
    (dos 100 "bad-blk-sigops")

structure BlockObject where
  block : CBlock
  fChecked : Bool := false
  sound : fChecked = true → checkBlockBody crypto params block true true = .ok ()

variable {crypto params} (object : BlockObject crypto params)

def checkBlock (fCheckPOW fCheckMerkleRoot : Bool) : Except Reject (BlockObject crypto params) :=
  if object.fChecked then .ok object
  else
    match passed : checkBlockBody crypto params object.block fCheckPOW fCheckMerkleRoot with
    | .error reject => .error reject
    | .ok () =>
      if full : fCheckPOW ∧ fCheckMerkleRoot then
        .ok ⟨object.block, true, fun _ => by obtain ⟨rfl, rfl⟩ := full; exact passed⟩
      else .ok object

lemma checkBlock_passed (checked : BlockObject crypto params) (passed : checkBlock object true true = .ok checked) :
    checkBlockBody crypto params object.block true true = .ok () := by
  unfold checkBlock at passed
  split at passed
  · rename_i already
    exact object.sound already
  · split at passed
    · cases passed
    · rename_i body
      exact body

lemma checkBlock_of_body (passed : checkBlockBody crypto params object.block true true = .ok ()) :
    ∃ checked, checkBlock object true true = .ok checked ∧ checked.block = object.block := by
  unfold checkBlock
  split
  · exact ⟨object, rfl, rfl⟩
  · split
    · rename_i failed
      rw [passed] at failed
      cases failed
    · exact ⟨_, rfl, rfl⟩

structure CheckedBlock (block : CBlock) : Prop where
  size : (serializeBlock false block).length * WITNESS_SCALE_FACTOR ≤ MAX_BLOCK_WEIGHT
  shape : ∃ coinbase rest, block.vtx = coinbase :: rest ∧ coinbase.isCoinBase = true ∧
    ∀ tx ∈ rest, tx.isCoinBase = false
  transactions : ∀ tx ∈ block.vtx, CheckedTransaction tx

variable {block : CBlock} {fCheckPOW fCheckMerkleRoot : Bool}

lemma checkBlockBody_passed
    (passed : checkBlockBody crypto params block fCheckPOW fCheckMerkleRoot = .ok ()) : CheckedBlock block := by
  obtain ⟨_, _, passed⟩ := ok_of_bind passed
  obtain ⟨_, _, passed⟩ := ok_of_bind passed
  obtain ⟨_, size, passed⟩ := ok_of_bind passed
  obtain ⟨_, first, passed⟩ := ok_of_bind passed
  obtain ⟨_, others, passed⟩ := ok_of_bind passed
  obtain ⟨_, each, _⟩ := ok_of_bind passed
  have sized := check_ok size
  have first := check_ok first
  have others := check_ok others
  refine ⟨by simp at sized; omega, ?_, fun tx member => checkTransaction_passed (forM_ok each tx member)⟩
  cases listed : block.vtx with
  | nil => simp [listed] at first
  | cons coinbase rest =>
    simp only [listed, List.head?_cons, Option.any_some, List.tail_cons] at first others
    exact ⟨coinbase, rest, rfl, first, by simpa using others⟩

lemma checkBlockBody_header
    (passed : checkBlockBody crypto params block true fCheckMerkleRoot = .ok ()) : block.isNull = false := by
  obtain ⟨_, worked, _⟩ := ok_of_bind passed
  have worked := check_ok worked
  -- a target of zero is no work
  by_contra null
  have zero : block.nBits = 0 := by simpa [CBlockHeader.isNull] using null
  rw [zero] at worked
  simp [checkProofOfWork, setCompact] at worked

end Checks

/-- GetWitnessCommitmentIndex: the last output of the coinbase that commits. -/
def isWitnessCommitment (txout : CTxOut) : Bool :=
  txout.scriptPubKey.length ≥ 38 && [OP_RETURN, 0x24, 0xaa, 0x21, 0xa9, 0xed].isPrefixOf txout.scriptPubKey

def witnessCommitment (block : CBlock) : Option CTxOut :=
  block.vtx.head?.bind fun coinbase => (coinbase.vout.filter isWitnessCommitment).getLast?

section Contextual
variable (crypto : Crypto) (params : Consensus.Params)

/-- The witness commitment part of ContextualCheckBlock: fHaveWitness. -/
def checkWitnessCommitment (block : CBlock) (pindexPrev : Ancestry) : Except Reject Bool :=
  if !params.witnessEnabled pindexPrev then .ok false
  else
    match witnessCommitment block with
    | none => .ok false
    | some txout =>
      let (hashWitness, _) := blockWitnessMerkleRoot crypto block
      let scriptWitness := ((block.vtx.head?.bind fun coinbase => coinbase.vin.head?).map
        CTxIn.scriptWitness).getD []
      match scriptWitness with
      | [nonce] =>
        if nonce.length ≠ 32 then .error (corrupt 100 "bad-witness-nonce-size")
        else if (crypto.hash256 (hashWitness.bytes ++ nonce)).bytes
            ≠ (txout.scriptPubKey.drop 6).take 32 then
          .error (corrupt 100 "bad-witness-merkle-match")
        else .ok true
      | _ => .error (corrupt 100 "bad-witness-nonce-size")

def contextualCheckBlock (block : CBlock) (pindexPrev : Ancestry) : Check := do
  let nHeight := pindexPrev.nHeight + 1
  let nLockTimeCutoff := if params.csvActive pindexPrev then pindexPrev.getMedianTimePast else block.nTime.toNat
  check (block.vtx.all fun tx => isFinalTx tx nHeight nLockTimeCutoff) (dos 10 "bad-txns-nonfinal")
  let scriptSig := ((block.vtx.head?.bind fun coinbase => coinbase.vin.head?).map CTxIn.scriptSig).getD []
  check (!(nHeight ≥ params.BIP34Height && !(pushInt64 nHeight).isPrefixOf scriptSig)) (dos 100 "bad-cb-height")
  let fHaveWitness ← checkWitnessCommitment crypto params block pindexPrev
  check (fHaveWitness || block.vtx.all fun tx => !tx.hasWitness) (corrupt 100 "unexpected-witness")
  check (!(getBlockWeight block > MAX_BLOCK_WEIGHT)) (dos 100 "bad-blk-weight")

end Contextual

end Dragonchain
