import Mathlib.Data.Prod.Lex
import Dragonchain.LeafTree
import Dragonchain.Loop
import Dragonchain.Pow

/-!
The block index of chain.h and the members of CChainState in validation.cpp. A
pointer to an index entry is the hash of its block, and the pprev pointers are the
paths of a tree that grows by leaves; chainActive is the path of its tip. Where the
source compares addresses of entries, any injective numbering of them will do.
-/

namespace Dragonchain

variable {genesis pa pb best : Uint256}

def BLOCK_VALID_TREE : Nat := 2
def BLOCK_VALID_TRANSACTIONS : Nat := 3
def BLOCK_VALID_SCRIPTS : Nat := 5

structure BlockStatus where
  /-- nStatus & BLOCK_VALID_MASK. -/
  validity : Nat
  haveData : Bool := false
  failedValid : Bool := false
  failedChild : Bool := false
  deriving DecidableEq

namespace BlockStatus

variable (status : BlockStatus)

/-- nStatus & BLOCK_FAILED_MASK. -/
def failed : Bool := status.failedValid || status.failedChild

def isValid (nUpTo : Nat) : Bool := !status.failed && status.validity ≥ nUpTo

def raiseValidity (nUpTo : Nat) : BlockStatus :=
  if status.failed then status
  else if status.validity < nUpTo then { status with validity := nUpTo }
  else status

/-- nStatus & ~BLOCK_FAILED_MASK. -/
def cleared : BlockStatus := { status with failedValid := false, failedChild := false }

lemma cleared_of_sound {status : BlockStatus} (sound : status.failed = false) : status.cleared = status := by
  obtain ⟨validity, haveData, failedValid, failedChild⟩ := status
  obtain ⟨rfl, rfl⟩ := Bool.or_eq_false_iff.mp sound
  rfl

lemma isValid_iff {status : BlockStatus} {nUpTo : Nat} :
    status.isValid nUpTo = true ↔ status.failed = false ∧ nUpTo ≤ status.validity := by
  simp [isValid]

section Raise
variable (status : BlockStatus) (nUpTo : Nat)

lemma raiseValidity_eq : status.raiseValidity nUpTo =
    { status with validity := (status.raiseValidity nUpTo).validity } := by
  unfold raiseValidity
  split_ifs <;> rfl

lemma le_raiseValidity : status.validity ≤ (status.raiseValidity nUpTo).validity := by
  unfold raiseValidity
  split_ifs with _ lower
  · exact le_rfl
  · exact lower.le
  · exact le_rfl

lemma of_le_raiseValidity {status : BlockStatus} {nUpTo validity : Nat} (higher : nUpTo < validity)
    (reached : validity ≤ (status.raiseValidity nUpTo).validity) : validity ≤ status.validity := by
  unfold raiseValidity at reached
  split_ifs at reached
  · exact reached
  · exact absurd higher (not_lt.mpr reached)
  · exact reached

lemma raiseValidity_reaches (sound : status.failed = false) : nUpTo ≤ (status.raiseValidity nUpTo).validity := by
  unfold raiseValidity
  rw [if_neg (by simp [sound])]
  split_ifs with lower
  · exact le_rfl
  · exact Nat.le_of_not_lt lower

end Raise

end BlockStatus

/-- CBlockIndex without pprev and what follows from it (nHeight, pskip, nTimeMax). The counts of
transactions, nTx and nChainTx, are unsigned int. -/
structure CBlockIndex where
  header : CBlockHeader
  cache : Option PoWCache := none
  nChainWork : Nat
  nTx : Nat := 0
  nChainTx : Nat := 0
  nStatus : BlockStatus
  nSequenceId : Int := 0

structure CChainState (genesis : Uint256) where
  mapBlockIndex : LeafTree Uint256 genesis
  blockIndex : Uint256 → CBlockIndex
  /-- chainActive.Tip(). -/
  tip : Uint256
  setBlockIndexCandidates : List Uint256
  mapBlocksUnlinked : List (Uint256 × Uint256)
  /-- In the order of their addresses. -/
  g_failed_blocks : List Uint256
  nBlockSequenceId : Int
  nBlockReverseSequenceId : Int
  nLastPreciousChainwork : Nat

/-- The failed assertions of the modelled functions, and a loop that does not end. -/
inductive ChainFault where
  | failedBlockNotFailed
  | candidateNotLinked
  | noCandidates
  | parentNotTip
  | endless
  deriving DecidableEq

namespace CChainState

def start (genesis : Uint256) (header : CBlockHeader) : CChainState genesis where
  mapBlockIndex := LeafTree.single genesis
  blockIndex _ :=
    { header, nChainWork := getBlockProof header.nBits, nTx := 1, nChainTx := 1,
      nStatus := ⟨BLOCK_VALID_TRANSACTIONS, true, false, false⟩, nSequenceId := 1 }
  tip := genesis
  setBlockIndexCandidates := [genesis]
  mapBlocksUnlinked := []
  g_failed_blocks := []
  nBlockSequenceId := 2
  nBlockReverseSequenceId := -1
  nLastPreciousChainwork := 0

section Reads
variable (state : CChainState genesis)

/-- mapBlockIndex.find(hash) != mapBlockIndex.end(). -/
def Known (hash : Uint256) : Prop := hash ∈ state.mapBlockIndex.nodes

instance (hash : Uint256) : Decidable (state.Known hash) :=
  inferInstanceAs (Decidable (hash ∈ state.mapBlockIndex.nodes))

variable (pindex : Uint256)

abbrev path : List Uint256 := state.mapBlockIndex.path pindex

def pprev : Option Uint256 := (state.path pindex).tail.head?

def nHeight : Int := ((state.path pindex).length : Int) - 1

def ancestry : Ancestry := (state.path pindex).map fun hash => ⟨hash, (state.blockIndex hash).header⟩

def chainActive : List Uint256 := state.path state.tip

abbrev nStatus : BlockStatus := (state.blockIndex pindex).nStatus

abbrev nChainWork : Nat := (state.blockIndex pindex).nChainWork

abbrev nChainTx : Nat := (state.blockIndex pindex).nChainTx

end Reads

/-- The entries and their parents stay. -/
structure SameTree (state after : CChainState genesis) : Prop where
  tree : after.mapBlockIndex = state.mapBlockIndex

section Tree
variable {state after : CChainState genesis} (same : SameTree state after) (pindex : Uint256)
include same

lemma SameTree.path : after.path pindex = state.path pindex := by rw [CChainState.path, same.tree]

lemma SameTree.known : after.Known pindex ↔ state.Known pindex := by rw [Known, same.tree, Known]

lemma SameTree.pprev : after.pprev pindex = state.pprev pindex := by
  rw [CChainState.pprev, same.path, CChainState.pprev]

end Tree

variable (state : CChainState genesis) (pindex : Uint256)

def modify (change : CBlockIndex → CBlockIndex) : CChainState genesis :=
  { state with blockIndex := Function.update state.blockIndex pindex (change (state.blockIndex pindex)) }

lemma modify_entry {pindex other : Uint256} (change : CBlockIndex → CBlockIndex) :
    (state.modify pindex change).blockIndex other =
      if other = pindex then change (state.blockIndex other) else state.blockIndex other := by
  simp only [modify]
  by_cases same : other = pindex
  · subst same
    simp
  · simp [same]

/-- The loops that set a flag on every entry of a walk along pprev. -/
def setFailedChild (walk : List Uint256) : CChainState genesis :=
  { state with
    blockIndex := fun hash =>
      if hash ∈ walk then
        { state.blockIndex hash with nStatus := { state.nStatus hash with failedChild := true } }
      else state.blockIndex hash }

def setFailedValid : CChainState genesis :=
  state.modify pindex fun entry => { entry with nStatus := { entry.nStatus with failedValid := true } }

section Order
variable (address : Uint256 ↪ Nat) (state : CChainState genesis)

/-- CBlockIndexWorkComparator: whether pa sorts before pb. -/
def workComparator (pa pb : Uint256) : Bool :=
  if state.nChainWork pa > state.nChainWork pb then false
  else if state.nChainWork pa < state.nChainWork pb then true
  else if (state.blockIndex pa).nSequenceId < (state.blockIndex pb).nSequenceId then false
  else if (state.blockIndex pa).nSequenceId > (state.blockIndex pb).nSequenceId then true
  else if address pa < address pb then false
  else if address pa > address pb then true
  else false

/-- The order of the comparator: more work, then the earlier sequence id, then the
lower address. -/
def rank (pindex : Uint256) : Nat ×ₗ ℤᵒᵈ ×ₗ ℕᵒᵈ :=
  toLex (state.nChainWork pindex,
    toLex (OrderDual.toDual (state.blockIndex pindex).nSequenceId, OrderDual.toDual (address pindex)))

/-- *setBlockIndexCandidates.rbegin(), over the members of the set. -/
def last : List Uint256 → Option Uint256
  | [] => none
  | pindex :: rest =>
    match last rest with
    | none => some pindex
    | some best => some (if state.workComparator address best pindex then pindex else best)

variable {address} {members : List Uint256}

lemma workComparator_iff :
    state.workComparator address pa pb = true ↔ state.rank address pa < state.rank address pb := by
  simp only [workComparator, rank, Prod.Lex.toLex_lt_toLex, OrderDual.toDual_lt_toDual,
    OrderDual.toDual.injective.eq_iff]
  split_ifs <;> simp <;> omega

lemma workComparator_false :
    state.workComparator address pa pb = false ↔ state.rank address pb ≤ state.rank address pa := by
  rw [← Bool.not_eq_true, workComparator_iff, not_lt]

lemma rank_injective : Function.Injective (state.rank address) := by
  intro first second same
  have tails : address first = address second := congrArg (fun value => (ofLex (ofLex value).2).2) same
  exact address.injective tails

lemma rank_eq_of_entry {state state' : CChainState genesis} {pindex : Uint256}
    (work : (state'.blockIndex pindex).nChainWork = (state.blockIndex pindex).nChainWork)
    (sequence : (state'.blockIndex pindex).nSequenceId = (state.blockIndex pindex).nSequenceId) :
    state'.rank address pindex = state.rank address pindex := by
  simp [rank, work, sequence]

lemma last_none (none : state.last address members = none) : members = [] := by
  cases members with
  | nil => rfl
  | cons pindex rest =>
    unfold last at none
    split at none <;> cases none

lemma last_greatest (found : state.last address members = some best) :
    best ∈ members ∧ ∀ pindex ∈ members, state.rank address pindex ≤ state.rank address best := by
  induction members generalizing best with
  | nil => cases found
  | cons pindex rest ih =>
    unfold last at found
    split at found
    · rename_i none
      obtain rfl := state.last_none none
      obtain rfl := Option.some.inj found
      simp
    · rename_i other held
      obtain ⟨member, greatest⟩ := ih held
      obtain rfl := Option.some.inj found
      split_ifs with worse
      · have below := state.workComparator_iff.mp worse
        refine ⟨List.mem_cons_self, ?_⟩
        rintro other' (_ | ⟨_, later⟩)
        · exact le_rfl
        · exact (greatest other' later).trans below.le
      · have above := state.workComparator_false.mp (Bool.not_eq_true _ ▸ worse)
        refine ⟨List.mem_cons_of_mem _ member, ?_⟩
        rintro other' (_ | ⟨_, later⟩)
        · exact above
        · exact greatest other' later

end Order

/-- AddToBlockIndex for a header that is not in mapBlockIndex. -/
def addToBlockIndex (hash : Uint256) (block : CBlockHeader)
    (cache : Option PoWCache) (fresh : ¬state.Known hash) (known : state.Known block.hashPrevBlock) :
    CChainState genesis :=
  { state with
    mapBlockIndex := state.mapBlockIndex.addLeaf hash block.hashPrevBlock fresh known
    blockIndex := Function.update state.blockIndex hash
      { header := block, cache,
        nChainWork := (state.nChainWork block.hashPrevBlock + getBlockProof block.nBits) % 2 ^ 256,
        nStatus := { validity := BLOCK_VALID_TREE } } }

section Received
variable (address : Uint256 ↪ Nat)

/-- One turn of the queue in ReceivedBlockTransactions, apart from what it queues. -/
def linkBlock (state : CChainState genesis) (pindex : Uint256) : CChainState genesis :=
  let nChainTx := (((state.pprev pindex).elim 0 state.nChainTx) + (state.blockIndex pindex).nTx) % 2 ^ 32
  let linked := { state.modify pindex fun entry =>
      { entry with nChainTx, nSequenceId := state.nBlockSequenceId } with
    nBlockSequenceId := state.nBlockSequenceId + 1 }
  if linked.workComparator address pindex linked.tip then linked
  else { linked with setBlockIndexCandidates := linked.setBlockIndexCandidates.insert pindex }

def linkTurn : List Uint256 × CChainState genesis →
    Except ChainFault (CChainState genesis ⊕ List Uint256 × CChainState genesis)
  | ([], state) => .ok (.inl state)
  | (pindex :: queue, state) =>
    let linked := state.linkBlock address pindex
    let range := linked.mapBlocksUnlinked.filter fun pair => pair.1 == pindex
    .ok (.inr (queue ++ range.map Prod.snd,
      { linked with
        mapBlocksUnlinked := linked.mapBlocksUnlinked.filter fun pair => !(pair.1 == pindex) }))

/-- A turn takes a block from the queue, and what it queues leaves mapBlocksUnlinked, so
that the two together bound the turns. -/
def linkFrom (state : CChainState genesis) (pindex : Uint256) : Except ChainFault (CChainState genesis) :=
  runLoop .endless (linkTurn address) (state.mapBlocksUnlinked.length + 2) ([pindex], state)

/-- What ReceivedBlockTransactions writes into the entry of the block. -/
def storeData (state : CChainState genesis) (pindexNew : Uint256) (nTx : Nat) : CChainState genesis :=
  state.modify pindexNew fun entry =>
    { entry with
      nTx, nChainTx := 0,
      nStatus := { entry.nStatus with haveData := true }.raiseValidity BLOCK_VALID_TRANSACTIONS }

def receivedBlockTransactions (state : CChainState genesis) (block : CBlock) (pindexNew : Uint256) :
    Except ChainFault (CChainState genesis) :=
  let state := state.storeData pindexNew (block.vtx.length % 2 ^ 32)
  match state.pprev pindexNew with
  | none => state.linkFrom address pindexNew
  | some pprev =>
    if state.nChainTx pprev ≠ 0 then state.linkFrom address pindexNew
    else if (state.nStatus pprev).isValid BLOCK_VALID_TREE then
      .ok { state with mapBlocksUnlinked := state.mapBlocksUnlinked ++ [(pprev, pindexNew)] }
    else .ok state

end Received

end CChainState

end Dragonchain
