import Dragonchain.BestChain

/-!
The invariant of the chain state. `WellLinked` is about the index alone: which entries
are linked (nChainTx), where the others wait, and what the failure flags stand for.
`Ready` adds the active chain. Between two calls the tip need not be the best chain
that is known to be valid, so the invariant names that chain: `best` is a candidate
with nothing but verified blocks, and every usable entry from it on is a candidate.
-/

namespace Dragonchain

open List LeafTree

variable {genesis failed best tip : Uint256} {queue queue' candidates : List Uint256}
  {state' : CChainState genesis}

namespace CChainState

/-- What most functions leave in an entry: it gains data, validity and flags, and neither
its work nor its link changes. -/
structure EntryKept (old new : CBlockIndex) : Prop where
  header : new.header = old.header
  nChainWork : new.nChainWork = old.nChainWork
  nTx : old.nStatus.haveData = true → new.nTx = old.nTx
  nChainTx : new.nChainTx = old.nChainTx
  haveData : old.nStatus.haveData = true → new.nStatus.haveData = true
  validity : old.nStatus.validity ≤ new.nStatus.validity
  failedValid : old.nStatus.failedValid = true → new.nStatus.failedValid = true
  failed : old.nStatus.failed = true → new.nStatus.failed = true

lemma EntryKept.refl (entry : CBlockIndex) : EntryKept entry entry :=
  ⟨rfl, rfl, fun _ => rfl, rfl, id, le_rfl, id, id⟩

variable {second third : CBlockIndex}

lemma EntryKept.trans {first : CBlockIndex} (one : EntryKept first second)
    (two : EntryKept second third) : EntryKept first third where
  header := two.header.trans one.header
  nChainWork := two.nChainWork.trans one.nChainWork
  nTx held := (two.nTx (one.haveData held)).trans (one.nTx held)
  nChainTx := two.nChainTx.trans one.nChainTx
  haveData := two.haveData ∘ one.haveData
  validity := one.validity.trans two.validity
  failedValid := two.failedValid ∘ one.failedValid
  failed := two.failed ∘ one.failed

structure Grows (state state' : CChainState genesis) : Prop extends SameTree state state' where
  unlinked : state'.mapBlocksUnlinked = state.mapBlocksUnlinked
  entries : ∀ pindex, EntryKept (state.blockIndex pindex) (state'.blockIndex pindex)

/-- The order of the entries stays as well. -/
structure Keeps (state state' : CChainState genesis) : Prop extends Grows state state' where
  nSequenceId : ∀ pindex, (state'.blockIndex pindex).nSequenceId = (state.blockIndex pindex).nSequenceId

lemma Keeps.of_entries {state : CChainState genesis} (tree : state'.mapBlockIndex = state.mapBlockIndex)
    (unlinked : state'.mapBlocksUnlinked = state.mapBlocksUnlinked) (same : state'.blockIndex = state.blockIndex) :
    Keeps state state' :=
  ⟨⟨⟨tree⟩, unlinked, fun pindex => by rw [same]; exact .refl _⟩, fun pindex => by rw [same]⟩

lemma Keeps.trans {first second third : CChainState genesis} (one : Keeps first second)
    (two : Keeps second third) : Keeps first third :=
  ⟨⟨⟨two.tree.trans one.tree⟩, two.unlinked.trans one.unlinked,
    fun pindex => (one.entries pindex).trans (two.entries pindex)⟩,
    fun pindex => (two.nSequenceId pindex).trans (one.nSequenceId pindex)⟩

section Grown
variable {state : CChainState genesis} (kept : Grows state state')
include kept

variable (pindex : Uint256)

lemma Grows.nChainTx : state'.nChainTx pindex = state.nChainTx pindex := (kept.entries pindex).nChainTx

lemma Grows.sound {pindex : Uint256} (sound : (state'.nStatus pindex).failed = false) :
    (state.nStatus pindex).failed = false := by
  by_contra failed
  have flagged := (kept.entries pindex).failed (by simpa using failed)
  rw [sound] at flagged
  cases flagged

end Grown

lemma Keeps.rank {state : CChainState genesis} (kept : Keeps state state') (address : Uint256 ↪ Nat)
    (pindex : Uint256) : state'.rank address pindex = state.rank address pindex :=
  rank_eq_of_entry (kept.entries pindex).nChainWork (kept.nSequenceId pindex)

variable {pindex : Uint256} {change : CBlockIndex → CBlockIndex} (state : CChainState genesis)
include state

/-- One entry changes. -/
lemma Grows.modify (kept : EntryKept (state.blockIndex pindex) (change (state.blockIndex pindex))) :
    Grows state (state.modify pindex change) := by
  refine ⟨⟨rfl⟩, rfl, fun other => ?_⟩
  rw [modify_entry]
  split_ifs with same
  · exact same ▸ kept
  · exact .refl _

lemma Keeps.modify (kept : EntryKept (state.blockIndex pindex) (change (state.blockIndex pindex)))
    (order : ∀ entry, (change entry).nSequenceId = entry.nSequenceId) :
    Keeps state (state.modify pindex change) := by
  refine ⟨.modify state kept, fun other => ?_⟩
  rw [modify_entry]
  split_ifs
  · exact order _
  · rfl

variable (walk : List Uint256)

lemma keeps_setFailedChild : Keeps state (state.setFailedChild walk) := by
  refine ⟨⟨⟨rfl⟩, rfl, fun pindex => ?_⟩, fun pindex => ?_⟩
  all_goals
    simp only [setFailedChild]
    split_ifs
  · exact ⟨rfl, rfl, fun _ => rfl, rfl, id, le_rfl, id, fun _ => by simp [BlockStatus.failed]⟩
  · exact .refl _
  · rfl
  · rfl

lemma setFailedChild_nStatus (pindex : Uint256) :
    (state.setFailedChild walk).nStatus pindex = { state.nStatus pindex with
        failedChild := decide (pindex ∈ walk) || (state.nStatus pindex).failedChild } := by
  simp only [setFailedChild, nStatus]
  split_ifs with walked <;> simp [walked]

lemma setFailedValid_nStatus (pindex other : Uint256) :
    (state.setFailedValid pindex).nStatus other = { state.nStatus other with
        failedValid := decide (other = pindex) || (state.nStatus other).failedValid } := by
  rw [setFailedValid, nStatus, modify_entry]
  split_ifs with same <;> simp [same]

lemma keeps_setFailedValid (pindex : Uint256) : Keeps state (state.setFailedValid pindex) :=
  .modify state ⟨rfl, rfl, fun _ => rfl, rfl, id, le_rfl, fun _ => rfl, fun _ => by simp [BlockStatus.failed]⟩
    fun _ => rfl

omit state

/-- The transactions of the blocks up to an entry, of which nChainTx has 32 bits. -/
def pathTx (state : CChainState genesis) (pindex : Uint256) : Nat :=
  ((state.path pindex).map fun hash => (state.blockIndex hash).nTx).sum

/-- No chain of the index reaches 2 ^ 32 transactions, with some more on it. -/
def HasRoom (state : CChainState genesis) (more : Nat) : Prop :=
  ∀ pindex ∈ state.mapBlockIndex.nodes, state.pathTx pindex + more < 2 ^ 32

instance (state : CChainState genesis) (more : Nat) : Decidable (state.HasRoom more) :=
  inferInstanceAs (Decidable (∀ pindex ∈ _, _))

/-- The index: linked entries, entries that wait for their parent, and failure flags.
While ReceivedBlockTransactions runs, `queue` holds the entries it is about to link. -/
structure WellLinked (state : CChainState genesis) (queue : List Uint256) : Prop where
  candidates : ∀ pindex ∈ state.setBlockIndexCandidates, state.Known pindex ∧ state.nChainTx pindex ≠ 0
  valid : ∀ pindex, state.Known pindex → BLOCK_VALID_TREE ≤ (state.nStatus pindex).validity
  data : ∀ pindex, state.Known pindex → (state.nStatus pindex).haveData = true →
    (state.blockIndex pindex).nTx ≠ 0 ∧ BLOCK_VALID_TRANSACTIONS ≤ (state.nStatus pindex).validity
  linked : ∀ pindex, state.Known pindex → state.nChainTx pindex ≠ 0 → (state.nStatus pindex).haveData = true
  parents : ∀ pprev pindex, state.Known pindex → state.pprev pindex = some pprev →
    state.nChainTx pindex ≠ 0 → state.nChainTx pprev ≠ 0
  counted : ∀ pindex, state.Known pindex → state.nChainTx pindex ≤ state.pathTx pindex
  unlinked : ∀ pprev pindex, (pprev, pindex) ∈ state.mapBlocksUnlinked →
    state.Known pindex ∧ state.pprev pindex = some pprev ∧
      (state.nStatus pindex).haveData = true ∧ state.nChainTx pprev = 0
  waiting : ∀ pprev pindex, state.Known pindex → state.pprev pindex = some pprev →
    (state.nStatus pindex).haveData = true → state.nChainTx pindex = 0 →
    (state.nStatus pprev).failed = true ∨ (pprev, pindex) ∈ state.mapBlocksUnlinked ∨ pindex ∈ queue
  child : ∀ pindex, state.Known pindex → (state.nStatus pindex).failedChild = true →
    ∃ above ∈ state.path pindex, above ≠ pindex ∧ (state.nStatus above).failedValid = true
  failedBlocks : ∀ pindex ∈ state.g_failed_blocks, state.Known pindex ∧ (state.nStatus pindex).failedValid = true

variable {state : CChainState genesis}

lemma pprev_of_path {parent : Uint256} (known : state.Known parent)
    (shape : state.path pindex = pindex :: state.path parent) : state.pprev pindex = some parent := by
  obtain ⟨rest, head⟩ := path_cons known
  rw [pprev, shape, tail_cons, show state.path parent = parent :: rest from head]
  rfl

lemma WellLinked.path_linked (well : WellLinked state queue) (known : state.Known pindex)
    (linked : state.nChainTx pindex ≠ 0) : ∀ hash ∈ state.path pindex, state.nChainTx hash ≠ 0 := by
  induction pindex, known using state.mapBlockIndex.induct with
  | base =>
    rw [path, state.mapBlockIndex.path_root]
    intro hash member
    rw [mem_singleton.mp member]
    exact linked
  | step node known parent above shape ih =>
    have upper := ih (well.parents parent node known (pprev_of_path above shape) linked)
    rw [path, shape]
    rintro hash (_ | ⟨_, member⟩)
    · exact linked
    · exact upper hash member

lemma pathTx_congr (path : state'.path pindex = state.path pindex)
    (same : ∀ hash ∈ state.path pindex, (state'.blockIndex hash).nTx = (state.blockIndex hash).nTx) :
    state'.pathTx pindex = state.pathTx pindex := by
  rw [pathTx, path, map_congr_left same, pathTx]

/-- `WellLinked` carries over where new data waits in the queue, new candidates are
linked and new flags stand for a failed block. -/
lemma WellLinked.keep
    (well : WellLinked state queue) (kept : Grows state state') (queued : ∀ hash ∈ queue, hash ∈ queue')
    (data : ∀ pindex, state.Known pindex → (state'.nStatus pindex).haveData = true →
      (state.nStatus pindex).haveData = true ∨ (state'.blockIndex pindex).nTx ≠ 0 ∧
          BLOCK_VALID_TRANSACTIONS ≤ (state'.nStatus pindex).validity ∧ pindex ∈ queue')
    (candidates : ∀ pindex ∈ state'.setBlockIndexCandidates,
      pindex ∈ state.setBlockIndexCandidates ∨ state.Known pindex ∧ state.nChainTx pindex ≠ 0)
    (child : ∀ pindex, state.Known pindex → (state'.nStatus pindex).failedChild = true →
      (state.nStatus pindex).failedChild = true ∨
        ∃ above ∈ state.path pindex, above ≠ pindex ∧ (state'.nStatus above).failedValid = true)
    (failedBlocks : ∀ pindex ∈ state'.g_failed_blocks, pindex ∈ state.g_failed_blocks ∨
      state.Known pindex ∧ (state'.nStatus pindex).failedValid = true) : WellLinked state' queue' where
  candidates pindex member := by
    rw [kept.known, kept.nChainTx]
    exact (candidates pindex member).elim (well.candidates pindex) id
  valid pindex known := (well.valid pindex ((kept.known pindex).mp known)).trans (kept.entries pindex).validity
  data pindex known held := by
    rw [kept.known] at known
    rcases data pindex known held with before | ⟨some, valid, _⟩
    · obtain ⟨some, valid⟩ := well.data pindex known before
      rw [(kept.entries pindex).nTx before]
      exact ⟨some, valid.trans (kept.entries pindex).validity⟩
    · exact ⟨some, valid⟩
  linked pindex known linked := by
    rw [kept.nChainTx] at linked
    exact (kept.entries pindex).haveData (well.linked pindex ((kept.known pindex).mp known) linked)
  parents pprev pindex known parent linked := by
    rw [kept.nChainTx] at linked ⊢
    rw [kept.pprev] at parent
    exact well.parents pprev pindex ((kept.known pindex).mp known) parent linked
  counted pindex known := by
    rw [kept.known] at known
    rw [kept.nChainTx]
    by_cases alone : state.nChainTx pindex = 0
    · exact alone.trans_le (Nat.zero_le _)
    · -- the entries up to a linked one have their data, and with it their count
      rw [pathTx_congr (kept.path pindex) fun hash member => (kept.entries hash).nTx
        (well.linked hash (path_nodes known hash member) (well.path_linked known alone hash member))]
      exact well.counted pindex known
  unlinked pprev pindex member := by
    rw [kept.unlinked] at member
    obtain ⟨known, parent, held, none⟩ := well.unlinked pprev pindex member
    rw [kept.known, kept.pprev, kept.nChainTx]
    exact ⟨known, parent, (kept.entries pindex).haveData held, none⟩
  waiting pprev pindex known parent held none := by
    rw [kept.known] at known
    rw [kept.pprev] at parent
    rw [kept.nChainTx] at none
    rw [kept.unlinked]
    rcases data pindex known held with before | ⟨_, _, member⟩
    · exact (well.waiting pprev pindex known parent before none).imp (kept.entries pprev).failed
        (Or.imp_right (queued pindex))
    · exact Or.inr (Or.inr member)
  child pindex known flagged := by
    rw [kept.path]
    rcases child pindex ((kept.known pindex).mp known) flagged with before | now
    · obtain ⟨above, listed, other, failed⟩ := well.child pindex ((kept.known pindex).mp known) before
      exact ⟨above, listed, other, (kept.entries above).failedValid failed⟩
    · exact now
  failedBlocks pindex member := by
    rw [kept.known]
    rcases failedBlocks pindex member with before | now
    · obtain ⟨known, failed⟩ := well.failedBlocks pindex before
      exact ⟨known, (kept.entries pindex).failedValid failed⟩
    · exact now

/-- A chain of verified blocks: linked, without a flag, and connected once. -/
structure Proven (state : CChainState genesis) (pindex : Uint256) : Prop where
  known : state.Known pindex
  linked : ∀ hash ∈ state.path pindex, state.nChainTx hash ≠ 0
  sound : ∀ hash ∈ state.path pindex, (state.nStatus hash).failed = false
  verified : ∀ hash ∈ state.path pindex, hash = genesis ∨ BLOCK_VALID_SCRIPTS ≤ (state.nStatus hash).validity

variable (proven : Proven state pindex)
include proven

lemma Proven.above {above : Uint256} (listed : above ∈ state.path pindex) : Proven state above := by
  have onward : ∀ hash ∈ state.path above, hash ∈ state.path pindex :=
    fun hash member => path_trans proven.known listed member
  exact ⟨path_nodes proven.known above listed,
    fun hash member => proven.linked hash (onward hash member),
    fun hash member => proven.sound hash (onward hash member),
    fun hash member => proven.verified hash (onward hash member)⟩

lemma Proven.keep (kept : Grows state state')
    (sound : ∀ hash ∈ state.path pindex, (state'.nStatus hash).failed = false) : Proven state' pindex := by
  refine ⟨(kept.known pindex).mpr proven.known, ?_, ?_, ?_⟩
  all_goals rw [kept.path]
  · intro hash member
    rw [kept.nChainTx]
    exact proven.linked hash member
  · exact sound
  · intro hash member
    exact (proven.verified hash member).imp_right fun valid => valid.trans (kept.entries hash).validity

lemma Proven.apart {below : Uint256} (flagged : (state.nStatus failed).failed = true)
    (above : failed ∈ state.path below) : below ∉ state.path pindex := by
  intro listed
  have sound := proven.sound failed (path_trans proven.known listed above)
  rw [flagged] at sound
  cases sound

omit proven

/-- A proven chain from which on every usable entry is a candidate. -/
structure Anchored (address : Uint256 ↪ Nat) (state : CChainState genesis) (best : Uint256)
    (queue : List Uint256) : Prop where
  well : WellLinked state queue
  chain : Proven state best
  member : best ∈ state.setBlockIndexCandidates
  complete : ∀ pindex, state.Known pindex → state.nChainTx pindex ≠ 0 →
    (state.nStatus pindex).failed = false → state.rank address best ≤ state.rank address pindex →
    pindex ∈ state.setBlockIndexCandidates

/-- The state between two calls, and in each turn of ActivateBestChain. -/
structure Ready (address : Uint256 ↪ Nat) (state : CChainState genesis) (best : Uint256)
    (queue : List Uint256 := []) : Prop extends Anchored address state best queue where
  tip : Proven state state.tip
  above : state.rank address state.tip ≤ state.rank address best

section Ready
variable {address : Uint256 ↪ Nat}

/-- Flags on entries outside the proven chains, and candidates dropped with a flag, do not
touch what matters. -/
lemma Ready.keep (ready : Ready address state best queue) (kept : Keeps state state')
    (well : WellLinked state' queue') (sameTip : state'.tip = state.tip)
    (tip : ∀ hash ∈ state.path state.tip, (state'.nStatus hash).failed = false)
    (chain : ∀ hash ∈ state.path best, (state'.nStatus hash).failed = false)
    (candidates : ∀ pindex ∈ state.setBlockIndexCandidates,
      (state'.nStatus pindex).failed = false → pindex ∈ state'.setBlockIndexCandidates) :
    Ready address state' best queue' where
  well := well
  tip := by
    rw [sameTip]
    exact ready.tip.keep kept.toGrows tip
  chain := ready.chain.keep kept.toGrows chain
  member := candidates best ready.member (chain best (self_mem_path ready.chain.known))
  above := by
    rw [sameTip, kept.rank, kept.rank]
    exact ready.above
  complete pindex known linked sound better := by
    rw [kept.known] at known
    rw [kept.nChainTx] at linked
    rw [kept.rank, kept.rank] at better
    exact candidates pindex (ready.complete pindex known linked (kept.sound sound) better) sound

lemma Anchored.ready (anchored : Anchored address state best queue)
    (tip : Proven state state.tip) : ∃ best', Ready address state best' queue := by
  rcases le_total (state.rank address state.tip) (state.rank address best) with below | above
  · exact ⟨best, anchored, tip, below⟩
  · have listed := self_mem_path tip.known
    refine ⟨state.tip, ⟨anchored.well, tip, ?_, ?_⟩, tip, le_rfl⟩
    · exact anchored.complete _ tip.known (tip.linked _ listed) (tip.sound _ listed) above
    · exact fun pindex known linked sound better => anchored.complete pindex known linked sound (above.trans better)

variable (ready : Ready address state best queue)
include ready

lemma Ready.moveTip (proven : Proven state tip) : ∃ best', Ready address { state with tip } best' queue := by
  have kept : Keeps state { state with tip } := .of_entries rfl rfl rfl
  have well : WellLinked { state with tip } queue :=
    ready.well.keep kept.toGrows (fun _ => id) (fun _ _ => Or.inl) (fun _ => Or.inl) (fun _ _ => Or.inl)
      (fun _ => Or.inl)
  have anchored : Anchored address { state with tip } best queue :=
    ⟨well, ready.chain.keep kept.toGrows ready.chain.sound, ready.member, ready.complete⟩
  exact anchored.ready (proven.keep kept.toGrows proven.sound)

variable {walk : List Uint256}

lemma Ready.withCandidates (fewer : ∀ pindex ∈ candidates, pindex ∈ state.setBlockIndexCandidates)
    (stays : ∀ pindex ∈ state.setBlockIndexCandidates, (state.nStatus pindex).failed = false →
      state.rank address best ≤ state.rank address pindex → pindex ∈ candidates) :
    Ready address { state with setBlockIndexCandidates := candidates } best queue := by
  have kept : Keeps state { state with setBlockIndexCandidates := candidates } := .of_entries rfl rfl rfl
  have well : WellLinked { state with setBlockIndexCandidates := candidates } queue :=
    ready.well.keep kept.toGrows (fun _ => id) (fun _ _ => Or.inl)
      (fun pindex member => Or.inl (fewer pindex member)) (fun _ _ => Or.inl) (fun _ => Or.inl)
  have own := self_mem_path ready.chain.known
  exact ⟨⟨well, ready.chain.keep kept.toGrows ready.chain.sound,
    stays best ready.member (ready.chain.sound best own) le_rfl,
    fun pindex known linked sound better =>
      stays pindex (ready.complete pindex known linked sound better) sound better⟩,
    ready.tip.keep kept.toGrows ready.tip.sound, ready.above⟩

lemma Ready.flagBelow (flagged : (state.nStatus failed).failed = true)
    (below : ∀ hash ∈ walk, state.Known hash ∧ failed ∈ state.path hash ∧ hash ≠ failed) :
    Ready address (state.setFailedChild walk) best queue := by
  have kept := keeps_setFailedChild state walk
  have unmarked : ∀ {tip}, Proven state tip → ∀ hash ∈ state.path tip,
      ((state.setFailedChild walk).nStatus hash).failed = false := by
    intro tip proven hash member
    have apart : hash ∉ walk := fun walked => proven.apart flagged (below hash walked).2.1 member
    simpa [setFailedChild_nStatus, BlockStatus.failed, apart] using proven.sound hash member
  refine ready.keep kept ?_ rfl (unmarked ready.tip) (unmarked ready.chain) (fun _ member _ => member)
  refine ready.well.keep kept.toGrows (fun _ => id) ?_ (fun _ => Or.inl) ?_ (fun _ => Or.inl)
  · intro hash _ held
    rw [setFailedChild_nStatus] at held
    exact Or.inl held
  intro hash _ child
  rw [setFailedChild_nStatus] at child
  rcases Bool.or_eq_true _ _ |>.mp child with walked | child
  · obtain ⟨known, above, other⟩ := below hash (of_decide_eq_true walked)
    have failedKnown := path_nodes known failed above
    right
    -- the failed block itself, or the one that its own flag stands for
    rcases Bool.or_eq_true _ _ |>.mp flagged with valid | child
    · exact ⟨failed, above, other.symm, (kept.entries failed).failedValid valid⟩
    · obtain ⟨first, upper, _, valid⟩ := ready.well.child failed failedKnown child
      refine ⟨first, path_trans known above upper, ?_, (kept.entries first).failedValid valid⟩
      rintro rfl
      exact other (path_antisymm known failedKnown upper above)
  · exact Or.inl child

lemma Ready.fail {pindex : Uint256} (tip : pindex ∉ state.path state.tip) (chain : pindex ∉ state.path best) :
    Ready address (state.setFailedValid pindex) best queue := by
  have kept := keeps_setFailedValid state pindex
  have unmarked : ∀ {tip}, Proven state tip → pindex ∉ state.path tip → ∀ hash ∈ state.path tip,
      ((state.setFailedValid pindex).nStatus hash).failed = false := by
    intro tip proven absent hash member
    have other : hash ≠ pindex := ne_of_mem_of_not_mem member absent
    simpa [setFailedValid_nStatus, BlockStatus.failed, other] using proven.sound hash member
  refine ready.keep kept ?_ rfl (unmarked ready.tip tip) (unmarked ready.chain chain) (fun _ member _ => member)
  refine ready.well.keep kept.toGrows (fun _ => id) ?_ (fun _ => Or.inl) ?_ (fun _ => Or.inl)
  · intro hash _ held
    rw [setFailedValid_nStatus] at held
    exact Or.inl held
  · intro hash _ child
    rw [setFailedValid_nStatus] at child
    exact Or.inl child

end Ready

end CChainState

end Dragonchain
