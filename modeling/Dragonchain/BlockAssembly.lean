import Mathlib.Algebra.BigOperators.Ring.List
import Mathlib.Algebra.Order.BigOperators.Group.List
import Dragonchain.Connect
import Dragonchain.RelayWeight
import Dragonchain.ScriptSafety

/-!
BlockAssembler of miner.cpp. The packages that addPackageTxs tries, in the order of its two
queues, are given as a list; a package is an entry with its ancestors outside the block, and
its size and cost are the sums that the entry's cached totals stand for. The header is given.
-/

namespace Dragonchain.Miner

open Script Serialization Policy List

variable {rest : List CTransaction}

structure CTxMemPoolEntry where
  tx : CTransaction
  nFee : CAmount
  sigOpCost : Nat

namespace CTxMemPoolEntry

variable (entry : CTxMemPoolEntry)

def getTxWeight : Nat := getTransactionWeight entry.tx

/-- GetVirtualTransactionSize with the default nBytesPerSigOp. -/
def getTxSize : Nat :=
  (max entry.getTxWeight (entry.sigOpCost * 20) + WITNESS_SCALE_FACTOR - 1) / WITNESS_SCALE_FACTOR

end CTxMemPoolEntry

open CTxMemPoolEntry

structure BlockAssembler where
  nBlockMaxWeight : Nat
  fIncludeWitness : Bool
  nHeight : Int
  nLockTimeCutoff : Int
  nBlockWeight : Nat := 4000
  nBlockSigOpsCost : Nat := 400
  nBlockTx : Nat := 0
  nFees : CAmount := 0
  /-- The block without its coinbase. -/
  vtx : List CTransaction := []

abbrev Package := List CTxMemPoolEntry

variable (package : Package)

def packageSize : Nat := (package.map getTxSize).sum

def packageSigOpsCost : Nat := (package.map sigOpCost).sum

namespace BlockAssembler
variable (assembler : BlockAssembler)

def testPackage (packageSize packageSigOpsCost : Nat) : Bool :=
  if assembler.nBlockWeight + WITNESS_SCALE_FACTOR * packageSize ≥ assembler.nBlockMaxWeight then false
  else if assembler.nBlockSigOpsCost + packageSigOpsCost ≥ MAX_BLOCK_SIGOPS_COST then false
  else true

def testPackageTransactions (package : Package) : Bool :=
  package.all fun entry => isFinalTx entry.tx assembler.nHeight assembler.nLockTimeCutoff &&
    !(!assembler.fIncludeWitness && entry.tx.hasWitness)

def addToBlock (entry : CTxMemPoolEntry) : BlockAssembler :=
  { assembler with
    vtx := assembler.vtx ++ [entry.tx]
    nBlockWeight := assembler.nBlockWeight + entry.getTxWeight
    nBlockTx := assembler.nBlockTx + 1
    nBlockSigOpsCost := assembler.nBlockSigOpsCost + entry.sigOpCost
    nFees := assembler.nFees + entry.nFee }

def tryPackage (package : Package) : BlockAssembler :=
  if assembler.testPackage (packageSize package) (packageSigOpsCost package) &&
      assembler.testPackageTransactions package then package.foldl addToBlock assembler
  else assembler

def addPackageTxs (tried : List Package) : BlockAssembler := tried.foldl tryPackage assembler

end BlockAssembler

section
variable (crypto : Crypto) (params : Consensus.Params) (pindexPrev : Ancestry)

def updateUncommittedBlockStructures (block : CBlock) : CBlock :=
  if (witnessCommitment block).isSome && params.witnessEnabled pindexPrev &&
      !block.vtx.head?.any CTransaction.hasWitness then
    { block with vtx := block.vtx.modifyHead fun tx =>
      { tx with vin := tx.vin.modifyHead fun txin => { txin with scriptWitness := [replicate 32 0] } } }
  else block

/-- The block after the call and the commitment that it returns; `deployed` is a
DEPLOYMENT_SEGWIT with a timeout. -/
def generateCoinbaseCommitment (deployed : Bool) (block : CBlock) : CBlock × Bytes :=
  if deployed && (witnessCommitment block).isNone then
    let (witnessroot, _) := Merkle.blockWitnessMerkleRoot crypto block
    let commitment := [OP_RETURN, 0x24, 0xaa, 0x21, 0xa9, 0xed] ++
      (crypto.hash256 (witnessroot.bytes ++ replicate 32 0)).bytes
    (updateUncommittedBlockStructures params pindexPrev
      { block with vtx := block.vtx.modifyHead fun tx => { tx with vout := tx.vout ++ [⟨0, commitment⟩] } },
      commitment)
  else (updateUncommittedBlockStructures params pindexPrev block, [])

variable (option : Nat)

def blockMaxWeight : Nat := max 4000 (min (MAX_BLOCK_WEIGHT - 4000) option)

def resetBlock (fMineWitnessTx : Bool) : BlockAssembler where
  nBlockMaxWeight := blockMaxWeight option
  fIncludeWitness := params.witnessEnabled pindexPrev && fMineWitnessTx
  nHeight := pindexPrev.nHeight + 1
  nLockTimeCutoff := pindexPrev.getMedianTimePast

def coinbaseTx (assembler : BlockAssembler) (scriptPubKeyIn : Bytes) : CTransaction :=
  ⟨[⟨⟨Uint256.null, 0xffffffff⟩, pushInt64 assembler.nHeight ++ [OP_0], SEQUENCE_FINAL, []⟩],
    [⟨Int64.ofInt (assembler.nFees + getBlockSubsidy assembler.nHeight), scriptPubKeyIn⟩], 2, 0⟩

def createNewBlock (deployed fMineWitnessTx : Bool) (header : CBlockHeader)
    (scriptPubKeyIn : Bytes) (tried : List Package) : CBlock :=
  let assembler := (resetBlock params pindexPrev option fMineWitnessTx).addPackageTxs tried
  (generateCoinbaseCommitment crypto params pindexPrev deployed
    { header with vtx := coinbaseTx assembler scriptPubKeyIn :: assembler.vtx }).1

end

def getScriptForMining (pubkey : CPubKey) : Bytes := pushData pubkey.bytes ++ [OP_CHECKSIG]

section Sizes

variable (size : Nat)

end Sizes

section Weight
variable (crypto : Crypto) (params : Consensus.Params) (pindexPrev : Ancestry) (option : Nat)
  (deployed fMineWitnessTx : Bool) (header : CBlockHeader) (assembler : BlockAssembler)
  {pubkey : CPubKey} (valid : pubkey.isValid = true)

include valid

omit valid

end Weight

namespace EmptyPool

def pubkey : CPubKey := ⟨replicate 898 7, length_replicate⟩

def header : CBlockHeader := ⟨4, Uint256.null, Uint256.null, 0, 0, 0⟩

def genesis : IndexEntry := ⟨Uint256.null, header⟩

def built (option : Nat) : CBlock :=
  createNewBlock Crypto.zeros Consensus.Params.easy [genesis] option false true header
    (getScriptForMining pubkey) []

end EmptyPool

/-! The commitment to the witnesses. -/

lemma witnessCommitment_last {coinbase : CTransaction} {vout : List CTxOut} {out : CTxOut}
    {block : CBlock} (body : block.vtx = coinbase :: rest)
    (outputs : coinbase.vout = vout ++ [out]) (commits : isWitnessCommitment out = true) :
    witnessCommitment block = some out := by
  simp [witnessCommitment, body, outputs, commits]

/-- Neither change to the coinbase reaches the leaves of the witness tree. -/
theorem generateCoinbaseCommitment_checked (crypto : Crypto) {params : Consensus.Params}
    {pindexPrev : Ancestry} (deployed : Bool) {block : CBlock} {coinbase : CTransaction}
    {rest : List CTransaction} (body : block.vtx = coinbase :: rest)
    (isCoinBase : coinbase.isCoinBase = true) (bare : coinbase.hasWitness = false)
    (uncommitted : witnessCommitment block = none) (enabled : params.witnessEnabled pindexPrev = true) :
    (checkWitnessCommitment crypto params
          (generateCoinbaseCommitment crypto params pindexPrev deployed block).1 pindexPrev = .ok true ∧
      (witnessCommitment (generateCoinbaseCommitment crypto params pindexPrev deployed block).1).map
          CTxOut.scriptPubKey = some (generateCoinbaseCommitment crypto params pindexPrev deployed block).2) ↔
        deployed = true := by
  cases deployed with
  | false => simp [generateCoinbaseCommitment, updateUncommittedBlockStructures, uncommitted]
  | true =>
    obtain ⟨txin, single⟩ : ∃ txin, coinbase.vin = [txin] := by
      rw [CTransaction.isCoinBase] at isCoinBase
      split at isCoinBase
      · next txin single => exact ⟨txin, single⟩
      · cases isCoinBase
    let script : Bytes := [OP_RETURN, 0x24, 0xaa, 0x21, 0xa9, 0xed] ++
      (crypto.hash256 ((Merkle.blockWitnessMerkleRoot crypto block).1.bytes ++ replicate 32 0)).bytes
    have commits : isWitnessCommitment ⟨0, script⟩ = true := by simp [isWitnessCommitment, script, Uint256.size]
    let committed : CTransaction := { coinbase with vout := coinbase.vout ++ [⟨0, script⟩] }
    let nonced : CTransaction := { committed with vin := [{ txin with scriptWitness := [replicate 32 0] }] }
    have added : generateCoinbaseCommitment crypto params pindexPrev true block =
        (updateUncommittedBlockStructures params pindexPrev { block with vtx := committed :: rest }, script) := by
      simp only [generateCoinbaseCommitment, committed, script, uncommitted, body]
      rfl
    have updated : updateUncommittedBlockStructures params pindexPrev { block with vtx := committed :: rest } =
        { block with vtx := nonced :: rest } := by
      rw [updateUncommittedBlockStructures, witnessCommitment_last rfl rfl commits, enabled]
      change (if (true && true && !coinbase.hasWitness) = true then _ else _) = _
      rw [bare]
      simp [committed, nonced, single]
    have found : witnessCommitment { block with vtx := nonced :: rest } = some _ :=
      witnessCommitment_last rfl rfl commits
    have root : Merkle.blockWitnessMerkleRoot crypto { block with vtx := nonced :: rest } =
        Merkle.blockWitnessMerkleRoot crypto block := by
      rw [Merkle.blockWitnessMerkleRoot, Merkle.blockWitnessMerkleRoot, body]
      rfl
    rw [added, updated, found, checkWitnessCommitment, found, root, enabled]
    simp [nonced, script, Uint256.size]

namespace EmptyPool

def segwit : Consensus.Params := { Consensus.Params.easy with witnessEnabled := fun _ => true }

def input (scriptWitness : List Bytes) : CTxIn := ⟨⟨Uint256.null, 0xffffffff⟩, [], SEQUENCE_FINAL, scriptWitness⟩

/-- A coinbase without outputs, and a transaction with a witness. -/
def block : CBlock := ⟨header, [⟨[input []], [], 2, 0⟩, ⟨[input [[]]], [], 2, 0⟩]⟩

theorem witness_committed : checkWitnessCommitment Crypto.zeros segwit
    (generateCoinbaseCommitment Crypto.zeros segwit [genesis] true block).1 [genesis] = .ok true :=
  ((generateCoinbaseCommitment_checked Crypto.zeros true rfl rfl rfl rfl rfl).mpr rfl).1

/-- Active from the start and with a timeout of 0, the deployment leaves the witness unexpected. -/
theorem witness_uncommitted :
    let after := (generateCoinbaseCommitment Crypto.zeros segwit [genesis] false block).1
    checkWitnessCommitment Crypto.zeros segwit after [genesis] = .ok false ∧
      witnessCommitment after = none ∧ after.vtx.any CTransaction.hasWitness = true :=
  ⟨rfl, rfl, rfl⟩

end EmptyPool

end Dragonchain.Miner
