import Dragonchain.IndexGrowth

/-!
Headers below a failed block. AcceptBlockHeader looks for failed ancestors in
g_failed_blocks only, into which AcceptBlock does not put the blocks that it marks: the
search is complete as long as such a block has no descendants yet.
-/

namespace Dragonchain

open Serialization CChainState List LeafTree Bool

variable {turns : Nat} {header : CBlockHeader} {cache : Option PoWCache}
  {pindex pindexPrev : Uint256}

namespace CChainState

variable {genesis : Uint256} {address : Uint256 ↪ Nat} {state after : CChainState genesis}
  {connectBlock : Uint256 → Bool}

/-- No entry lies below this one. -/
def Childless (state : CChainState genesis) (pindex : Uint256) : Prop :=
  ∀ hash, state.Known hash → pindex ∈ state.path hash → hash = pindex

/-- A failed block is in g_failed_blocks or has no descendants, and what has been connected
has not failed, nor have its ancestors. -/
structure Tracked (state : CChainState genesis) : Prop where
  failed : ∀ hash, state.Known hash → (state.nStatus hash).failedValid = true →
    hash ∈ state.g_failed_blocks ∨ state.Childless hash
  connected : ∀ hash, state.Known hash → BLOCK_VALID_SCRIPTS ≤ (state.nStatus hash).validity →
    (state.nStatus hash).failedValid = false ∧ (state.nStatus hash).haveData = true
  above : ∀ hash, state.Known hash → BLOCK_VALID_SCRIPTS ≤ (state.nStatus hash).validity →
    ∀ upper ∈ state.path hash, upper = genesis ∨ BLOCK_VALID_SCRIPTS ≤ (state.nStatus upper).validity
  tip : ∀ upper ∈ state.path state.tip, upper = genesis ∨ BLOCK_VALID_SCRIPTS ≤ (state.nStatus upper).validity
  root : (state.nStatus genesis).failedValid = false ∧ (state.nStatus genesis).haveData = true

lemma start_tracked : (start genesis header).Tracked where
  failed _ _ flagged := absurd flagged Bool.false_ne_true
  connected _ _ valid := absurd valid (show ¬BLOCK_VALID_SCRIPTS ≤ BLOCK_VALID_TRANSACTIONS by decide)
  above _ _ valid := absurd valid (show ¬BLOCK_VALID_SCRIPTS ≤ BLOCK_VALID_TRANSACTIONS by decide)
  tip upper member := by exact Or.inl (mem_singleton.mp member)
  root := ⟨rfl, rfl⟩

variable (tracked : state.Tracked) (same : SameTree state after)
  (blocks : ∀ hash ∈ state.g_failed_blocks, hash ∈ after.g_failed_blocks)
include tracked same blocks

/-- Nothing but flags of entries that are tracked, and validity along the active chain, changes. -/
lemma Tracked.keep
    (data : ∀ hash, (state.nStatus hash).haveData = true → (after.nStatus hash).haveData = true)
    (failed : ∀ hash, state.Known hash → (after.nStatus hash).failedValid = true →
      (state.nStatus hash).failedValid = true ∨
        (hash ≠ genesis ∧ ¬BLOCK_VALID_SCRIPTS ≤ (after.nStatus hash).validity) ∧
          (hash ∈ after.g_failed_blocks ∨ state.Childless hash))
    (valid : ∀ hash, BLOCK_VALID_SCRIPTS ≤ (state.nStatus hash).validity →
      BLOCK_VALID_SCRIPTS ≤ (after.nStatus hash).validity)
    (connected : ∀ hash, state.Known hash → BLOCK_VALID_SCRIPTS ≤ (after.nStatus hash).validity →
      BLOCK_VALID_SCRIPTS ≤ (state.nStatus hash).validity ∨
        ((state.nStatus hash).failedValid = false ∧ (state.nStatus hash).haveData = true) ∧
          ∀ upper ∈ state.path hash, upper = genesis ∨ BLOCK_VALID_SCRIPTS ≤ (after.nStatus upper).validity)
    (tip : ∀ upper ∈ state.path after.tip,
      upper = genesis ∨ BLOCK_VALID_SCRIPTS ≤ (after.nStatus upper).validity) : after.Tracked := by
  have childless : ∀ hash, state.Childless hash → after.Childless hash := by
    intro hash childless below listed member
    rw [same.path] at member
    exact childless below ((same.known below).mp listed) member
  have sound : ∀ hash, state.Known hash → BLOCK_VALID_SCRIPTS ≤ (after.nStatus hash).validity →
      (state.nStatus hash).failedValid = false ∧ (state.nStatus hash).haveData = true := by
    intro hash listed now
    rcases connected hash listed now with before | ⟨fresh, _⟩
    · exact tracked.connected hash listed before
    · exact fresh
  constructor
  · intro hash listed flagged
    rw [same.known] at listed
    rcases failed hash listed flagged with before | ⟨_, now⟩
    · exact (tracked.failed hash listed before).imp (blocks hash) (childless hash)
    · exact now.imp_right (childless hash)
  · intro hash listed now
    rw [same.known] at listed
    refine ⟨?_, data hash (sound hash listed now).2⟩
    by_contra flagged
    rcases failed hash listed (by simpa using flagged) with before | ⟨⟨_, never⟩, _⟩
    · rw [(sound hash listed now).1] at before
      cases before
    · exact never now
  · intro hash listed now upper member
    rw [same.known] at listed
    rw [same.path] at member
    rcases connected hash listed now with before | ⟨_, fresh⟩
    · exact (tracked.above hash listed before upper member).imp_right (valid upper)
    · exact fresh upper member
  · intro upper member
    rw [same.path] at member
    exact tip upper member
  · refine ⟨?_, data genesis tracked.root.2⟩
    by_contra flagged
    rcases failed genesis state.mapBlockIndex.root_mem (by simpa using flagged) with before | ⟨⟨apart, _⟩, _⟩
    · rw [tracked.root.1] at before
      cases before
    · exact apart rfl

lemma Tracked.flag (data : ∀ hash, (after.nStatus hash).haveData = (state.nStatus hash).haveData)
    (validity : ∀ hash, (after.nStatus hash).validity = (state.nStatus hash).validity)
    (tip : after.tip = state.tip) (failed : ∀ hash, state.Known hash → (after.nStatus hash).failedValid = true →
      (state.nStatus hash).failedValid = true ∨
        (hash ≠ genesis ∧ ¬BLOCK_VALID_SCRIPTS ≤ (state.nStatus hash).validity) ∧
          (hash ∈ after.g_failed_blocks ∨ state.Childless hash)) : after.Tracked := by
  refine tracked.keep same blocks (fun hash held => (data hash).trans held) ?_ ?_ ?_ ?_
  all_goals simp only [validity, tip]
  · exact failed
  · exact fun _ => id
  · exact fun _ _ => Or.inl
  · exact tracked.tip

omit tracked same blocks

lemma Tracked.setFailedChild (tracked : state.Tracked) (walk : List Uint256) :
    (state.setFailedChild walk).Tracked := by
  have status := state.setFailedChild_nStatus walk
  refine tracked.flag ⟨rfl⟩ (fun _ => id) (fun hash => by rw [status]) (fun hash => by rw [status]) rfl
    fun hash _ flagged => Or.inl ?_
  rwa [status] at flagged

lemma Tracked.connect (tracked : state.Tracked) (known : state.Known pindex)
    (parent : state.pprev pindex = some state.tip) (data : (state.nStatus pindex).haveData = true)
    (sound : (state.nStatus pindex).failed = false) :
    Tracked { state.raiseScripts pindex with tip := pindex } := by
  have status := state.connected_nStatus pindex
  have raised : ∀ hash, BLOCK_VALID_SCRIPTS ≤ (state.nStatus hash).validity →
      BLOCK_VALID_SCRIPTS ≤ ((state.raiseScripts pindex).nStatus hash).validity :=
    fun hash valid => valid.trans (state.connected_keeps.entries hash).validity
  have whole : ∀ upper ∈ state.path pindex, upper = genesis ∨
      BLOCK_VALID_SCRIPTS ≤ ((state.raiseScripts pindex).nStatus upper).validity := by
    intro upper member
    rw [(pprev_spec known parent).2.2] at member
    rcases mem_cons.mp member with rfl | active
    · rw [status, if_pos rfl]
      exact Or.inr (BlockStatus.raiseValidity_reaches _ _ sound)
    · exact (tracked.tip upper active).imp_right (raised upper)
  refine tracked.keep ⟨rfl⟩ (fun _ => id) ?_ ?_ ?_ ?_ ?_
  · exact fun hash held => (congrArg BlockStatus.haveData (status hash)).trans held
  · exact fun hash _ flagged => Or.inl ((congrArg BlockStatus.failedValid (status hash)).symm.trans flagged)
  · exact raised
  · intro hash listed valid
    by_cases same : hash = pindex
    · subst same
      exact Or.inr ⟨⟨(or_eq_false_iff.mp sound).1, data⟩, whole⟩
    · refine Or.inl (valid.trans_eq ?_)
      exact (congrArg BlockStatus.validity (status hash)).trans (if_neg same)
  · exact whole

lemma Tracked.reject (tracked : state.Tracked) (again : state.Reaccepts connectBlock)
    (known : state.Known pindex) (parent : state.pprev pindex = some state.tip)
    (rejects : connectBlock pindex = false) : (state.invalidBlockFound address pindex).Tracked := by
  have status := state.setFailedValid_nStatus pindex
  have new : ¬BLOCK_VALID_SCRIPTS ≤ (state.nStatus pindex).validity := by
    intro valid
    rw [again pindex known valid] at rejects
    cases rejects
  have apart : pindex ≠ genesis := by
    rintro rfl
    rw [pprev, path, state.mapBlockIndex.path_root] at parent
    cases parent
  refine tracked.flag ⟨rfl⟩ (fun _ member => mem_invalidBlockFound.mpr (Or.inr member))
    (fun hash => (congrArg BlockStatus.haveData (status hash)).trans rfl)
    (fun hash => (congrArg BlockStatus.validity (status hash)).trans rfl) rfl fun hash _ flagged => ?_
  have flagged := (congrArg BlockStatus.failedValid (status hash)).symm.trans flagged
  refine (or_eq_true _ _ |>.mp flagged).symm.imp_right fun same => ?_
  obtain rfl := of_decide_eq_true same
  exact ⟨⟨apart, new⟩, Or.inl (mem_invalidBlockFound.mpr (Or.inl rfl))⟩

section Add
variable {hash : Uint256} {fresh : ¬state.Known hash} {known : state.Known header.hashPrevBlock}

lemma Tracked.add (tracked : state.Tracked) (rooted : state.Rooted)
    (clear : ∀ upper ∈ state.path header.hashPrevBlock, (state.nStatus upper).failedValid = false) :
    (state.addToBlockIndex hash header cache fresh known).Tracked := by
  have low : ¬BLOCK_VALID_SCRIPTS ≤
      ((state.addToBlockIndex hash header cache fresh known).nStatus hash).validity := by
    rw [nStatus, addToBlockIndex_new]
    exact not_le.mpr (show BLOCK_VALID_TREE < BLOCK_VALID_SCRIPTS by decide)
  constructor
  · intro other listed flagged
    have before := addToBlockIndex_before listed (Or.inr (Or.inr (by simp [BlockStatus.failed, flagged])))
    rw [nStatus, addToBlockIndex_old before] at flagged
    refine (tracked.failed other before flagged).imp_right fun childless below present member => ?_
    by_cases new : below = hash
    · -- the new entry would have a failed ancestor
      subst new
      have shape : (state.addToBlockIndex below header cache fresh known).path below =
          below :: state.path header.hashPrevBlock := addLeaf_path fresh known
      rw [shape] at member
      have upper := (mem_cons.mp member).resolve_left (ne_of_mem_of_not_mem before fresh)
      rw [clear other upper] at flagged
      cases flagged
    · have old := addToBlockIndex_known present new
      rw [addToBlockIndex_path old] at member
      exact childless below old member
  · intro other listed valid
    by_cases same : other = hash
    · exact absurd (same ▸ valid) low
    · rw [nStatus, addToBlockIndex_entry same] at valid ⊢
      exact tracked.connected other (addToBlockIndex_known listed same) valid
  · intro other listed valid upper member
    by_cases same : other = hash
    · exact absurd (same ▸ valid) low
    · have old := addToBlockIndex_known listed same
      rw [nStatus, addToBlockIndex_entry same] at valid
      rw [addToBlockIndex_path old] at member
      rw [nStatus, addToBlockIndex_old (path_nodes old upper member)]
      exact tracked.above other old valid upper member
  · intro upper member
    have member : upper ∈ state.path state.tip := by
      rw [← addToBlockIndex_path rooted.tip]
      exact member
    rw [nStatus, addToBlockIndex_old (path_nodes rooted.tip upper member)]
    exact tracked.tip upper member
  · rw [nStatus, addToBlockIndex_old state.mapBlockIndex.root_mem]
    exact tracked.root

end Add

lemma Tracked.fail (tracked : state.Tracked) (missing : (state.nStatus pindex).haveData = false)
    (known : state.Known pindex) (childless : state.Childless pindex) :
    (state.setFailedValid pindex).Tracked := by
  have status := state.setFailedValid_nStatus pindex
  refine tracked.flag ⟨rfl⟩ (fun _ => id) (fun hash => by rw [status]) (fun hash => by rw [status]) rfl
    fun hash _ flagged => ?_
  rw [status] at flagged
  refine (or_eq_true _ _ |>.mp flagged).symm.imp_right fun same => ?_
  obtain rfl := of_decide_eq_true same
  refine ⟨⟨?_, fun valid => ?_⟩, Or.inr childless⟩
  · rintro rfl
    rw [tracked.root.2] at missing
    cases missing
  · rw [(tracked.connected hash known valid).2] at missing
    cases missing

lemma Tracked.receive {block : CBlock} (tracked : state.Tracked)
    (received : state.receivedBlockTransactions address block pindex = .ok after) : after.Tracked := by
  have same := receivedBlockTransactions_sameFlags received
  have status := fun hash => (same.status hash).trans state.storeData_nStatus
  have valid : ∀ hash, BLOCK_VALID_SCRIPTS ≤ (state.nStatus hash).validity →
      BLOCK_VALID_SCRIPTS ≤ (after.nStatus hash).validity := by
    intro hash valid
    rw [status]
    split_ifs
    · exact valid.trans (BlockStatus.le_raiseValidity ..)
    · exact valid
  refine tracked.keep ⟨same.tree⟩ (fun hash member => same.failedBlocks.symm ▸ member) ?_ ?_ valid ?_ ?_
  · intro hash held
    rw [status]
    exact (or_eq_true _ _).mpr (Or.inr held)
  · intro hash _ flagged
    rw [status] at flagged
    exact Or.inl flagged
  · intro hash _ reached
    rw [status] at reached
    left
    split_ifs at reached
    · exact BlockStatus.of_le_raiseValidity (by decide) reached
    · exact reached
  · intro upper member
    rw [same.tip] at member
    exact (tracked.tip upper member).imp_right (valid upper)

lemma activateBestChain_tracked {result : Bool} (rooted : state.Rooted) (tracked : state.Tracked)
    (again : state.Reaccepts connectBlock)
    (done : state.activateBestChain address connectBlock turns = .ok (result, after)) : after.Tracked := by
  have invariant : ActivationInvariant address connectBlock fun current : CChainState genesis =>
      current.Rooted ∧ current.Tracked ∧ current.Reaccepts connectBlock := by
    refine Rooted.invariant ?_ ?_ ?_ ?_ ?_ ?_
    · exact fun _ _ ⟨tracked, again⟩ =>
        ⟨⟨tracked.failed, tracked.connected, tracked.above, tracked.tip, tracked.root⟩, again⟩
    · exact fun _ _ ⟨tracked, again⟩ =>
        ⟨⟨tracked.failed, tracked.connected, tracked.above, tracked.tip, tracked.root⟩, again⟩
    · intro current walk ⟨tracked, again⟩
      refine ⟨tracked.setFailedChild walk, again.keep fun hash known valid => ⟨known, ?_⟩⟩
      rwa [setFailedChild_nStatus] at valid
    · intro current tip rooted ⟨tracked, again⟩ listed
      refine ⟨⟨tracked.failed, tracked.connected, tracked.above, fun upper member => ?_, tracked.root⟩, again⟩
      exact tracked.tip upper (path_trans rooted.tip listed member)
    · intro current pindex rooted ⟨tracked, again⟩ known parent accepts data sound
      refine ⟨tracked.connect known parent data sound, fun hash listed valid => ?_⟩
      by_cases same : hash = pindex
      · rw [same]
        exact accepts
      · refine again hash listed (valid.trans_eq ?_)
        exact (congrArg BlockStatus.validity (current.connected_nStatus pindex hash)).trans (if_neg same)
    · intro current pindex rooted ⟨tracked, again⟩ known parent rejects
      refine ⟨tracked.reject again known parent rejects, again.keep fun hash listed valid => ⟨listed, ?_⟩⟩
      have status := congrArg BlockStatus.validity (current.setFailedValid_nStatus pindex hash)
      exact valid.trans_eq status
  exact (invariant.activateBestChain ⟨rooted, tracked, again⟩ done).2.1

end CChainState

section Tracking
variable {crypto : Crypto} {params : CChainParams} {address : Uint256 ↪ Nat}
  {outside : Surroundings} {state after : params.State}

/-- Where the search over g_failed_blocks finds nothing, there is no failed ancestor. -/
lemma failedAncestor_complete (tracked : state.Tracked) (known : state.Known pindexPrev)
    (sound : (state.nStatus pindexPrev).failed = false) (clear : failedAncestor params state pindexPrev = none) :
    ∀ hash ∈ state.path pindexPrev, (state.nStatus hash).failedValid = false := by
  intro hash member
  have listed := path_nodes known hash member
  unfold failedAncestor at clear
  split_ifs at clear with valid
  · -- the previous block has been connected, and so have its ancestors
    have reached := (BlockStatus.isValid_iff.mp valid).2
    rcases tracked.above pindexPrev known reached hash member with rfl | upper
    · exact tracked.root.1
    · exact (tracked.connected hash listed upper).1
  · by_contra flagged
    rcases tracked.failed hash listed (by simpa using flagged) with marked | childless
    · have apart := find?_eq_none.mp clear hash marked
      exact apart (by simpa using member)
    · obtain rfl := childless pindexPrev known member
      rw [(or_eq_false_iff.mp sound).1] at flagged
      exact flagged rfl

variable {result : Except Reject Uint256} {call : ChainCall}

lemma HeaderArrives.tracked (arrives : HeaderArrives crypto params outside state header result after cache)
    (rooted : state.Rooted) (tracked : state.Tracked) : after.Tracked := by
  cases arrives with
  | rejected | present => exact tracked
  | marked => exact tracked.setFailedChild _
  | added cache fresh known sound checked clear =>
    exact tracked.add rooted (failedAncestor_complete tracked known sound clear)

/-- What keeps the search complete: a block that fails its checks, with no doubt about its
data, has no descendants in the index. -/
def FailsChildless (crypto : Crypto) (params : CChainParams) (state : params.State)
    (object : BlockInMemory) : Prop :=
  ∀ reject, checkArrival crypto params state (getBlockHash crypto object.block.toCBlockHeader) object =
      .error reject → reject.corruptionPossible = false →
    state.Childless (getBlockHash crypto object.block.toCBlockHeader)

lemma BlockArrives.tracked {object : BlockInMemory}
    (arrives : BlockArrives crypto params outside address state object result after)
    (childless : FailsChildless crypto params state object)
    (rooted : state.Rooted) (tracked : state.Tracked) : after.Tracked := by
  cases arrives with
  | header _ _ _ _ arrives => exact arrives.tracked rooted tracked
  | failed pindex reject mid cache arrives cached missing certain checked =>
    refine (arrives.tracked rooted tracked).fail missing arrives.known.1 ?_
    cases arrives with
    | present _ known =>
      obtain rfl := cached.2 known
      exact childless reject checked certain
    | added _ fresh known =>
      -- an entry that has just been added has no descendants
      intro hash listed member
      by_contra apart
      have old := addToBlockIndex_known listed apart
      rw [addToBlockIndex_path old] at member
      exact fresh (path_nodes old _ member)
  | stored pindex object' mid _ cache arrives cached missing checked received =>
    exact (arrives.tracked rooted tracked).receive received

variable (crypto params) in
/-- Arrivals, and ActivateBestChain, with a ConnectBlock that accepts again what it has
accepted. -/
def ChainCall.Arrival (state : params.State) : ChainCall → Prop
  | .acceptBlockHeader _ _ _ => True
  | .acceptBlock _ object _ => FailsChildless crypto params state object
  | .processNewBlock _ object _ connectBlock =>
    (∀ checked, (withIndexCache crypto params state object).checkBlock crypto params = .ok checked →
      FailsChildless crypto params state checked) ∧ state.Reaccepts connectBlock
  | .activateBestChain connectBlock => state.Reaccepts connectBlock
  | .preciousBlock _ _ | .invalidateBlock _ | .resetBlockFailureFlags _ => False

variable (crypto params address) in
inductive ArrivalRun (header : CBlockHeader) : params.State → Prop
  | start : ArrivalRun header (.start params.consensus.hashGenesisBlock header)
  | call {state after : params.State} (call : ChainCall) (turns : Nat) (run : ArrivalRun header state)
      (arrival : call.Arrival crypto params state)
      (done : call.perform crypto params address turns state = .ok after) : ArrivalRun header after

lemma ChainCall.Arrival.named (arrival : call.Arrival crypto params state) : call.Named state := by
  cases call with
  | acceptBlockHeader | acceptBlock | processNewBlock | activateBestChain => trivial
  | preciousBlock | invalidateBlock | resetBlockFailureFlags => exact arrival.elim

lemma ChainCall.perform_tracked (rooted : state.Rooted)
    (tracked : state.Tracked) (arrival : call.Arrival crypto params state)
    (done : call.perform crypto params address turns state = .ok after) : after.Tracked := by
  cases call with
  | acceptBlockHeader outside header cache =>
    obtain ⟨⟨result, _, cache'⟩, arrived, rfl⟩ := ok_of_map done
    exact (acceptBlockHeader_arrives arrived).1.tracked rooted tracked
  | acceptBlock outside object fRequested =>
    obtain ⟨⟨result, _, object'⟩, arrived, rfl⟩ := ok_of_map done
    exact (acceptBlock_arrives arrived).tracked arrival rooted tracked
  | processNewBlock outside object fForceProcessing connectBlock =>
    obtain ⟨⟨result, _⟩, processed, rfl⟩ := ok_of_map done
    obtain ⟨childless, again⟩ := arrival
    rcases processNewBlock_cases processed with rfl | ⟨checked, _, passed, arrived, processed⟩
    · exact tracked
    have arrives := acceptBlock_arrives arrived
    have tracked := arrives.tracked (childless checked passed) rooted tracked
    rcases processed with rfl | processed
    · exact tracked
    · exact activateBestChain_tracked (arrives.rooted rooted) tracked (arrives.reaccepts again) processed
  | activateBestChain connectBlock =>
    obtain ⟨⟨result, _⟩, activated, rfl⟩ := ok_of_map done
    exact activateBestChain_tracked rooted tracked arrival activated
  | preciousBlock | invalidateBlock | resetBlockFailureFlags => exact arrival.elim

lemma ArrivalRun.tracked (run : ArrivalRun crypto params address header state) : state.Rooted ∧ state.Tracked := by
  induction run with
  | start => exact ⟨start_rooted, start_tracked⟩
  | call call turns run arrival done ih =>
    obtain ⟨rooted, tracked⟩ := ih
    exact ⟨(call.perform_grows rooted arrival.named done).1, call.perform_tracked rooted tracked arrival done⟩

/-- In such a run AcceptBlockHeader adds no header with a failed ancestor. -/
theorem ArrivalRun.adds_no_failed_descendant {arrived : CBlockHeader} {cache cache' : Option PoWCache}
    {result : Except Reject Uint256} (run : ArrivalRun crypto params address header state)
    (done : acceptBlockHeader crypto params outside state arrived cache = .ok (result, after, cache')) :
    ∀ hash, after.Known hash → state.Known hash ∨
      ∀ above ∈ after.path hash, above ≠ hash → (after.nStatus above).failedValid = false := by
  intro hash listed
  cases (acceptBlockHeader_arrives done).1 with
  | rejected | present | marked => exact Or.inl listed
  | added _ fresh known sound checked clear =>
    by_cases same : hash = getBlockHash crypto arrived
    · subst same
      right
      intro above member apart
      have shape : (state.addToBlockIndex _ arrived cache' fresh known).path
          (getBlockHash crypto arrived) = getBlockHash crypto arrived :: state.path arrived.hashPrevBlock :=
        addLeaf_path fresh known
      rw [shape] at member
      have upper := (mem_cons.mp member).resolve_left apart
      rw [nStatus, addToBlockIndex_entry apart]
      exact failedAncestor_complete run.tracked.2 known sound clear above upper
    · exact Or.inl (addToBlockIndex_known listed same)

end Tracking

namespace Orphaned

open Sample

def empty : CBlock := { block genesis 1 1 1 with hashMerkleRoot := Uint256.null, vtx := [] }
def child : CBlock := block (hash empty) 2 2 1
def grandchild : CBlock := block (hash child) 3 3 1
def sibling : CBlock := block genesis 1 1 2

def arrival (block : CBlock) : ChainCall := .acceptBlockHeader outside block.toCBlockHeader none

theorem sibling_of_failed_added :
    ∃ state after result cache, ArrivalRun Crypto.suffixes (params []) address genesisHeader state ∧
      (state.nStatus (hash empty)).failedValid = true ∧
      acceptBlockHeader Crypto.suffixes (params []) outside state sibling.toCBlockHeader none =
        .ok (result, after, cache) ∧ after.Known (hash sibling) ∧ ∀ hash, after.Known hash → state.Known hash ∨
        ∀ above ∈ after.path hash, above ≠ hash → (after.nStatus above).failedValid = false := by
  obtain ⟨before, added, childless, state, failed, flagged, ⟨result, after, cache⟩, done, listed⟩ :
      ∃ before, (arrival empty).perform Crypto.suffixes (params []) address 0 (Sample.start []) = .ok before ∧
        (∀ other ∈ before.mapBlockIndex.nodes, hash empty ∈ before.path other → other = hash empty) ∧
        ∃ state, (ChainCall.acceptBlock outside { block := empty } true).perform Crypto.suffixes (params []) address 0
          before = .ok state ∧ (state.nStatus (hash empty)).failedValid = true ∧
          ∃ done, acceptBlockHeader Crypto.suffixes (params []) outside state sibling.toCBlockHeader none =
            .ok done ∧ done.2.1.Known (hash sibling) := by decide +kernel
  have run : ArrivalRun Crypto.suffixes (params []) address genesisHeader state :=
    (ArrivalRun.start.call (arrival empty) 0 trivial added).call
      (.acceptBlock outside { block := empty } true) 0 (fun _ _ _ => childless) failed
  exact ⟨state, after, result, cache, run, flagged, done, listed, run.adds_no_failed_descendant done⟩

/-- The data of a block fails its checks when a header above it is known already: the next
header on that one is added, two blocks above a failed one. -/
theorem grandchild_of_failed_added :
    ∃ state after result cache, performAll Crypto.suffixes (params []) address 0
        [arrival empty, arrival child, .acceptBlock outside { block := empty } true] (Sample.start []) =
        .ok state ∧
      acceptBlockHeader Crypto.suffixes (params []) outside state grandchild.toCBlockHeader none =
        .ok (result, after, cache) ∧
      (after.Known (hash grandchild) ∧ ¬state.Known (hash grandchild)) ∧
      hash empty ∈ after.path (hash grandchild) ∧ (after.nStatus (hash empty)).failedValid = true := by
  obtain ⟨state, ran, ⟨result, after, cache⟩, done, facts⟩ : ∃ state, performAll Crypto.suffixes (params []) address 0
      [arrival empty, arrival child, .acceptBlock outside { block := empty } true] (Sample.start []) = .ok state ∧
        ∃ done, acceptBlockHeader Crypto.suffixes (params []) outside state grandchild.toCBlockHeader none =
          .ok done ∧ (done.2.1.Known (hash grandchild) ∧ ¬state.Known (hash grandchild)) ∧
            hash empty ∈ done.2.1.path (hash grandchild) ∧
            (done.2.1.nStatus (hash empty)).failedValid = true := by decide +kernel
  exact ⟨state, after, result, cache, ran, done, facts⟩

end Orphaned

end Dragonchain
