import Dragonchain.BlockArrival

/-!
The calls of the operator keep the invariant of the chain state: PreciousBlock while it
does not move a block back in the order, InvalidateBlock always, and
ResetBlockFailureFlags where no failed ancestor of its block is left and no data below it
waits outside mapBlocksUnlinked.
-/

namespace Dragonchain

open List LeafTree

variable {genesis best pindex tip : Uint256} {queue candidates walk met : List Uint256}
  {state state' now : CChainState genesis}

namespace CChainState

variable {address : Uint256 ↪ Nat}

lemma WellLinked.usable (well : WellLinked state queue) (known : state.Known pindex)
    (linked : state.nChainTx pindex ≠ 0) (sound : (state.nStatus pindex).failed = false) :
    (state.nStatus pindex).isValid BLOCK_VALID_TRANSACTIONS = true :=
  BlockStatus.isValid_iff.mpr ⟨sound, (well.data pindex known (well.linked pindex known linked)).2⟩

/-- One entry moves forward in the order, and the candidates are those that stay usable. -/
structure Promotes (state state' : CChainState genesis) (pindex : Uint256) : Prop extends Grows state state' where
  tip : state'.tip = state.tip
  failedBlocks : state'.g_failed_blocks = state.g_failed_blocks
  status : ∀ hash, state'.nStatus hash = state.nStatus hash
  others : ∀ hash, hash ≠ pindex → (state'.blockIndex hash).nSequenceId = (state.blockIndex hash).nSequenceId
  sooner : Proven state pindex → (state'.blockIndex pindex).nSequenceId ≤ (state.blockIndex pindex).nSequenceId
  fewer : ∀ hash ∈ state'.setBlockIndexCandidates, hash ∈ state.setBlockIndexCandidates ∨
    hash = pindex ∧ state.nChainTx pindex ≠ 0
  stays : ∀ hash ∈ state.setBlockIndexCandidates, hash ≠ pindex → hash ∈ state'.setBlockIndexCandidates
  joins : (state.nStatus pindex).isValid BLOCK_VALID_TRANSACTIONS = true → state.nChainTx pindex ≠ 0 →
    pindex ∈ state'.setBlockIndexCandidates

section Promoted
variable (promotes : Promotes state state' pindex)
include promotes

lemma Promotes.rank {hash : Uint256} (apart : hash ≠ pindex) : state'.rank address hash = state.rank address hash :=
  rank_eq_of_entry (promotes.entries hash).nChainWork (promotes.others hash apart)

lemma Promotes.rank_le {hash : Uint256} (proven : Proven state hash) :
    state.rank address hash ≤ state'.rank address hash := by
  by_cases same : hash = pindex
  · subst same
    have work : state'.nChainWork hash = state.nChainWork hash := (promotes.entries hash).nChainWork
    rw [CChainState.rank, CChainState.rank, work]
    refine Prod.Lex.toLex_mono ⟨le_rfl, ?_⟩
    exact Prod.Lex.toLex_mono ⟨OrderDual.toDual_le_toDual.mpr (promotes.sooner proven), le_rfl⟩
  · exact (promotes.rank same).ge

lemma Promotes.proven (proven : Proven state tip) : Proven state' tip := by
  refine proven.keep promotes.toGrows fun hash member => ?_
  rw [promotes.status]
  exact proven.sound hash member

lemma Promotes.well (known : state.Known pindex) (well : WellLinked state []) : WellLinked state' [] := by
  refine well.keep promotes.toGrows (fun _ => id) ?_ ?_ ?_ ?_
  · intro hash _ held
    exact Or.inl (promotes.status hash ▸ held)
  · intro hash member
    refine (promotes.fewer hash member).imp_right ?_
    rintro ⟨rfl, linked⟩
    exact ⟨known, linked⟩
  · intro hash _ flagged
    exact Or.inl (promotes.status hash ▸ flagged)
  · intro hash member
    exact Or.inl (promotes.failedBlocks ▸ member)

/-- The anchor stays an anchor, since no other entry overtakes it; the tip may. -/
lemma Promotes.ready (known : state.Known pindex) (ready : Ready address state best) :
    ∃ best', Ready address state' best' := by
  have usable : ∀ hash, state.Known hash → state.nChainTx hash ≠ 0 →
      (state.nStatus hash).failed = false → (hash ≠ pindex → hash ∈ state.setBlockIndexCandidates) →
      hash ∈ state'.setBlockIndexCandidates := by
    intro hash listed linked sound member
    by_cases same : hash = pindex
    · subst same
      exact promotes.joins (ready.well.usable listed linked sound) linked
    · exact promotes.stays hash (member same) same
  have own := self_mem_path ready.chain.known
  have anchored : Anchored address state' best [] := by
    refine ⟨promotes.well known ready.well, promotes.proven ready.chain, ?_, ?_⟩
    · exact usable best ready.chain.known (ready.chain.linked best own) (ready.chain.sound best own)
        fun _ => ready.member
    · intro hash listed linked sound better
      rw [promotes.known] at listed
      rw [promotes.nChainTx] at linked
      rw [promotes.status] at sound
      refine usable hash listed linked sound fun apart => ?_
      rw [promotes.rank apart] at better
      exact ready.complete hash listed linked sound ((promotes.rank_le ready.chain).trans better)
  exact anchored.ready (promotes.tip ▸ promotes.proven ready.tip)

end Promoted

lemma movePrecious_entry (state : CChainState genesis) (pindex other : Uint256) :
    (state.movePrecious pindex).blockIndex other =
      if other = pindex then { state.blockIndex other with nSequenceId := state.preciousSequenceId }
      else state.blockIndex other :=
  state.modify_entry fun entry => { entry with nSequenceId := state.preciousSequenceId }

lemma movePrecious_promotes
    (sooner : Proven state pindex → state.preciousSequenceId ≤ (state.blockIndex pindex).nSequenceId)
    (fewer : ∀ hash ∈ candidates, hash ∈ state.setBlockIndexCandidates ∨ hash = pindex ∧ state.nChainTx pindex ≠ 0)
    (stays : ∀ hash ∈ state.setBlockIndexCandidates, hash ≠ pindex → hash ∈ candidates)
    (joins : (state.nStatus pindex).isValid BLOCK_VALID_TRANSACTIONS = true →
      state.nChainTx pindex ≠ 0 → pindex ∈ candidates) :
    Promotes state { state.movePrecious pindex with setBlockIndexCandidates := candidates } pindex := by
  have entry := state.movePrecious_entry pindex
  have grows : Grows state (state.modify pindex fun entry =>
      { entry with nSequenceId := state.preciousSequenceId }) :=
    .modify state ⟨rfl, rfl, fun _ => rfl, rfl, id, le_rfl, id, id⟩
  refine ⟨⟨⟨rfl⟩, rfl, grows.entries⟩, rfl, rfl, fun hash => ?_, ?_, ?_, fewer, stays, joins⟩
  · simp only [nStatus, entry]
    split_ifs <;> rfl
  · intro hash apart
    simp [entry, if_neg apart]
  · simp only [entry, if_pos]
    exact sooner

lemma makePrecious_ready (known : state.Known pindex)
    (sooner : Proven state pindex → state.preciousSequenceId ≤ (state.blockIndex pindex).nSequenceId)
    (ready : Ready address state best) :
    ∃ after best', state.makePrecious address pindex = .ok after ∧ Ready address after best' := by
  have entry := state.movePrecious_entry pindex pindex
  rw [if_pos rfl] at entry
  have listed : ∀ hash, hash ∈ (state.movePrecious pindex).setBlockIndexCandidates ↔
      hash ∈ state.setBlockIndexCandidates ∧ hash ≠ pindex := by
    simp [movePrecious]
  rw [makePrecious]
  simp only [nStatus, nChainTx, entry]
  split_ifs with usable
  · have linked : state.nChainTx pindex ≠ 0 := by simpa using (Bool.and_eq_true _ _ |>.mp usable).2
    have promotes : Promotes state { state.movePrecious pindex with
        setBlockIndexCandidates := (state.movePrecious pindex).setBlockIndexCandidates.insert pindex }
        pindex := by
      refine movePrecious_promotes sooner ?_ ?_ fun _ _ => mem_insert_self
      · intro hash member
        rcases mem_insert_iff.mp member with rfl | old
        · exact Or.inr ⟨rfl, linked⟩
        · exact Or.inl ((listed hash).mp old).1
      · exact fun hash member apart => mem_insert_of_mem ((listed hash).mpr ⟨member, apart⟩)
    obtain ⟨best', ready'⟩ := promotes.ready known ready
    obtain ⟨kept, pruned, ready'⟩ := pruneBlockIndexCandidates_ready ready'
    exact ⟨_, best', pruned, ready'⟩
  · have promotes : Promotes state (state.movePrecious pindex) pindex := by
      refine movePrecious_promotes sooner (fun hash member => Or.inl ((listed hash).mp member).1)
        (fun hash member apart => (listed hash).mpr ⟨member, apart⟩) fun valid linked => ?_
      exact absurd (Bool.and_eq_true _ _ |>.mpr ⟨valid, by simpa using linked⟩) usable
    obtain ⟨best', ready'⟩ := promotes.ready known ready
    exact ⟨_, best', rfl, ready'⟩

section Invalidate

lemma mem_foldl_insert {α : Type} [DecidableEq α] {wanted : α → Bool} {items kept : List α} {value : α} :
    value ∈ items.foldl (fun kept item => if wanted item then kept.insert item else kept) kept ↔
      value ∈ kept ∨ (value ∈ items ∧ wanted value = true) := by
  induction items generalizing kept with
  | nil => simp
  | cons first rest ih =>
    rw [foldl_cons, ih]
    by_cases same : value = first
    · subst same
      split_ifs with held <;> simp [held]
    · split_ifs <;> simp [same]

/-- Blocks are disconnected from the tip on, until one may stay or the genesis block is met. -/
lemma disconnectWhile_above {more : Uint256 → Bool} (known : state.Known pindex) :
    ∃ disconnected tip, disconnectWhile more (state.path pindex) { state with tip := pindex } =
        (disconnected, { state with tip }) ∧
      tip ∈ state.path pindex ∧ (disconnected = true → more tip = false) := by
  induction pindex, known using state.mapBlockIndex.induct with
  | base =>
    rw [path, state.mapBlockIndex.path_root]
    exact ⟨!more genesis, genesis, rfl, mem_singleton.mpr rfl, by simp⟩
  | step node known parent above shape ih =>
    obtain ⟨disconnected, tip, ends, listed, stops⟩ := ih
    obtain ⟨rest, head⟩ := path_cons above
    rw [path, shape, head]
    rw [path, head] at ends listed
    by_cases passes : more node = true
    · refine ⟨disconnected, tip, ?_, mem_cons_of_mem _ listed, stops⟩
      rw [disconnectWhile, if_pos passes]
      exact ends
    · refine ⟨true, node, ?_, mem_cons_self, fun _ => by simpa using passes⟩
      rw [disconnectWhile, if_neg passes]

lemma refillCandidates_ready (well : WellLinked state []) (tip : Proven state state.tip) :
    Ready address (state.refillCandidates address) state.tip := by
  have kept : Keeps state (state.refillCandidates address) := .of_entries rfl rfl rfl
  have listed : ∀ hash, hash ∈ (state.refillCandidates address).setBlockIndexCandidates ↔
      hash ∈ state.setBlockIndexCandidates ∨ state.Known hash ∧
        (state.nStatus hash).isValid BLOCK_VALID_TRANSACTIONS = true ∧ state.nChainTx hash ≠ 0 ∧
        state.rank address state.tip ≤ state.rank address hash := by
    intro hash
    rw [← workComparator_false, refillCandidates]
    simp only [mem_foldl_insert, Known]
    simp [and_assoc]
  have well' : WellLinked (state.refillCandidates address) [] := by
    refine well.keep kept.toGrows (fun _ => id) (fun _ _ => Or.inl) ?_ (fun _ _ => Or.inl) (fun _ => Or.inl)
    intro hash member
    exact ((listed hash).mp member).imp_right fun offered => ⟨offered.1, offered.2.2.1⟩
  have complete : ∀ hash, state.Known hash → state.nChainTx hash ≠ 0 →
      (state.nStatus hash).failed = false → state.rank address state.tip ≤ state.rank address hash →
      hash ∈ (state.refillCandidates address).setBlockIndexCandidates := by
    intro hash known linked sound better
    exact (listed hash).mpr (Or.inr ⟨known, well.usable known linked sound, linked, better⟩)
  have own := self_mem_path tip.known
  have proven := tip.keep kept.toGrows tip.sound
  exact ⟨⟨well', proven, complete _ tip.known (tip.linked _ own) (tip.sound _ own) le_rfl, complete⟩,
    proven, le_rfl⟩

variable (address) in
lemma markInvalid_nStatus (state : CChainState genesis) (walk : List Uint256) (pindex hash : Uint256) :
    (state.markInvalid address walk pindex).nStatus hash = { state.nStatus hash with
        failedValid := decide (hash = pindex) || (state.nStatus hash).failedValid
        failedChild := decide (hash ∈ walk) || (state.nStatus hash).failedChild } := by
  have marked : (state.markInvalid address walk pindex).nStatus hash =
      ((state.setFailedChild walk).setFailedValid pindex).nStatus hash := rfl
  rw [marked, setFailedValid_nStatus, setFailedChild_nStatus]

/-- Marking a block and the disconnected blocks below it, and the candidates afterwards. -/
lemma markInvalid_ready (known : state.Known pindex) (well : WellLinked state []) (tip : Proven state state.tip)
    (apart : pindex ∉ state.path state.tip) (below : ∀ hash ∈ walk, pindex ∈ state.path hash ∧ hash ≠ pindex) :
    Ready address ((state.markInvalid address walk pindex).refillCandidates address) state.tip := by
  have status := state.markInvalid_nStatus address walk pindex
  have kept : Keeps state (state.markInvalid address walk pindex) :=
    ((keeps_setFailedChild state walk).trans (keeps_setFailedValid _ pindex)).trans (.of_entries rfl rfl rfl)
  have sound : ∀ hash ∈ state.path state.tip,
      ((state.markInvalid address walk pindex).nStatus hash).failed = false := by
    intro hash member
    have other : hash ≠ pindex := ne_of_mem_of_not_mem member apart
    have unwalked : hash ∉ walk := fun walked => apart (path_trans tip.known member (below hash walked).1)
    rw [status]
    simpa [BlockStatus.failed, other, unwalked] using tip.sound hash member
  have well' : WellLinked (state.markInvalid address walk pindex) [] := by
    refine well.keep kept.toGrows (fun _ => id) ?_ ?_ ?_ ?_
    · intro hash _ held
      rw [status] at held
      exact Or.inl held
    · intro hash member
      exact Or.inl (mem_of_mem_filter (mem_of_mem_filter member))
    · intro hash _ flagged
      rw [status] at flagged
      rcases Bool.or_eq_true _ _ |>.mp flagged with walked | before
      · obtain ⟨above, other⟩ := below hash (of_decide_eq_true walked)
        refine Or.inr ⟨pindex, above, other.symm, ?_⟩
        rw [status]
        simp
      · exact Or.inl before
    · intro hash member
      rcases mem_invalidBlockFound.mp member with rfl | before
      · refine Or.inr ⟨known, ?_⟩
        rw [status]
        simp
      · exact Or.inl before
  exact refillCandidates_ready well' (tip.keep kept.toGrows sound)

lemma invalidateBlock_ready (known : state.Known pindex) (ready : Ready address state best) :
    ∃ best', Ready address (state.invalidateBlock address pindex).2 best' := by
  obtain ⟨disconnected, tip, ends, listed, stops⟩ := disconnectWhile_above ready.tip.known
  have proven := ready.tip.above listed
  obtain ⟨best', moved⟩ := ready.moveTip proven
  have ends : disconnectWhile (fun tip => decide (pindex ∈ state.path tip)) state.chainActive state =
      (disconnected, { state with tip }) := ends
  rw [invalidateBlock]
  simp only [ends]
  cases disconnected with
  | false => exact ⟨best', moved⟩
  | true =>
    have apart : pindex ∉ state.path tip := by simpa using stops rfl
    refine ⟨_, markInvalid_ready known moved.well moved.tip apart fun hash walked => ?_⟩
    split_ifs at walked with active
    · exact ((mem_takeWhile_path ready.tip.known active).mp walked).2
    · cases walked

end Invalidate

lemma clearFailure_entry (state : CChainState genesis) (pindex other : Uint256) :
    (state.clearFailure pindex).blockIndex other =
      if other = pindex then { state.blockIndex other with nStatus := (state.nStatus other).cleared }
      else state.blockIndex other :=
  state.modify_entry fun entry => { entry with nStatus := entry.nStatus.cleared }

/-- What the first loop of ResetBlockFailureFlags has done once it has met some entries. -/
structure Clears (address : Uint256 ↪ Nat) (pindex : Uint256) (state now : CChainState genesis)
    (met : List Uint256) : Prop extends SameTree state now where
  unlinked : now.mapBlocksUnlinked = state.mapBlocksUnlinked
  tip : now.tip = state.tip
  entry : ∀ hash, now.blockIndex hash =
    if hash ∈ met ∧ pindex ∈ state.path hash then
      { state.blockIndex hash with nStatus := (state.nStatus hash).cleared }
    else state.blockIndex hash
  failedBlocks : ∀ hash ∈ now.g_failed_blocks, hash ∈ state.g_failed_blocks ∧
    (hash ∈ met → pindex ∈ state.path hash → (state.nStatus hash).failed = false)
  more : ∀ hash ∈ state.setBlockIndexCandidates, hash ∈ now.setBlockIndexCandidates
  only : ∀ hash ∈ now.setBlockIndexCandidates, hash ∈ state.setBlockIndexCandidates ∨
    hash ∈ met ∧ state.nChainTx hash ≠ 0
  joins : ∀ hash ∈ met, pindex ∈ state.path hash → (state.nStatus hash).failed = true →
    BLOCK_VALID_TRANSACTIONS ≤ (state.nStatus hash).validity → state.nChainTx hash ≠ 0 →
    state.rank address state.tip < state.rank address hash → hash ∈ now.setBlockIndexCandidates

lemma Clears.start : Clears address pindex state state [] where
  tree := rfl
  unlinked := rfl
  tip := rfl
  entry hash := by simp
  failedBlocks hash member := ⟨member, nofun⟩
  more _ := id
  only _ := Or.inl
  joins hash := nofun

section Cleared
variable (clears : Clears address pindex state now met)
include clears

variable (hash : Uint256) {other : Uint256}

lemma Clears.rank : now.rank address hash = state.rank address hash := by
  refine rank_eq_of_entry ?_ ?_
  all_goals
    rw [clears.entry]
    split_ifs <;> rfl

lemma Clears.nChainTx : now.nChainTx hash = state.nChainTx hash := by
  rw [CChainState.nChainTx, clears.entry]
  split_ifs <;> rfl

lemma Clears.cleared : (now.nStatus hash).cleared = (state.nStatus hash).cleared := by
  rw [nStatus, clears.entry]
  split_ifs <;> rfl

lemma Clears.pass (sound : pindex ∈ state.path other → (now.nStatus other).failed = false) :
    Clears address pindex state now (other :: met) := by
  have before : other ∉ met → pindex ∈ state.path other → (state.nStatus other).failed = false := by
    intro fresh below
    have same : now.blockIndex other = state.blockIndex other := by
      rw [clears.entry, if_neg fun both => fresh both.1]
    rw [nStatus, ← same]
    exact sound below
  refine ⟨⟨clears.tree⟩, clears.unlinked, clears.tip, fun hash => ?_, fun hash member => ?_, clears.more,
    fun hash member => ?_, fun hash member below failed valid linked better => ?_⟩
  · rw [clears.entry]
    by_cases same : hash = other
    · subst same
      by_cases old : hash ∈ met
      · simp [old]
      · by_cases below : pindex ∈ state.path hash
        · rw [if_neg fun both => old both.1, if_pos ⟨mem_cons_self, below⟩,
            BlockStatus.cleared_of_sound (before old below)]
        · rw [if_neg fun both => below both.2, if_neg fun both => below both.2]
    · simp [same]
  · obtain ⟨listed, clean⟩ := clears.failedBlocks hash member
    refine ⟨listed, fun new below => ?_⟩
    by_cases old : hash ∈ met
    · exact clean old below
    · obtain rfl := (mem_cons.mp new).resolve_right old
      exact before old below
  · exact (clears.only hash member).imp_right fun old => ⟨mem_cons_of_mem _ old.1, old.2⟩
  · by_cases old : hash ∈ met
    · exact clears.joins hash old below failed valid linked better
    · obtain rfl := (mem_cons.mp member).resolve_right old
      rw [before old below] at failed
      cases failed

lemma Clears.clear (below : pindex ∈ state.path other)
    (more : ∀ hash ∈ now.setBlockIndexCandidates, hash ∈ candidates)
    (only : ∀ hash ∈ candidates, hash ∈ now.setBlockIndexCandidates ∨ hash = other ∧ state.nChainTx other ≠ 0)
    (joins : BLOCK_VALID_TRANSACTIONS ≤ (state.nStatus other).validity → state.nChainTx other ≠ 0 →
      state.rank address state.tip < state.rank address other → other ∈ candidates) :
    Clears address pindex state { now.clearFailure other with setBlockIndexCandidates := candidates }
      (other :: met) := by
  refine ⟨⟨clears.tree⟩, clears.unlinked, clears.tip, fun hash => ?_, fun hash member => ?_,
    fun hash member => more hash (clears.more hash member), fun hash member => ?_,
    fun hash member below failed valid linked better => ?_⟩
  · simp only [now.clearFailure_entry other hash, clears.cleared]
    by_cases same : hash = other
    · subst same
      rw [if_pos rfl, if_pos ⟨mem_cons_self, below⟩, clears.entry]
      split_ifs <;> rfl
    · rw [if_neg same, clears.entry]
      simp [same]
  · obtain ⟨member, apart⟩ := mem_filter.mp member
    obtain ⟨listed, clean⟩ := clears.failedBlocks hash member
    exact ⟨listed, fun new => clean ((mem_cons.mp new).resolve_left (of_decide_eq_true apart))⟩
  · rcases only hash member with old | ⟨rfl, linked⟩
    · exact (clears.only hash old).imp_right fun old => ⟨mem_cons_of_mem _ old.1, old.2⟩
    · exact Or.inr ⟨mem_cons_self, linked⟩
  · rcases mem_cons.mp member with rfl | old
    · exact joins valid linked better
    · exact more hash (clears.joins hash old below failed valid linked better)

lemma Clears.step (other : Uint256) :
    Clears address pindex state (resetBelow address pindex now other) (other :: met) := by
  have entry := now.clearFailure_entry other
  have ranks : ∀ hash, (now.clearFailure other).rank address hash = state.rank address hash := by
    intro hash
    rw [← clears.rank]
    refine rank_eq_of_entry ?_ ?_
    all_goals
      rw [entry]
      split_ifs <;> rfl
  have status : (now.clearFailure other).nStatus other = (state.nStatus other).cleared := by
    rw [nStatus, entry, if_pos rfl, clears.cleared]
  have links : (now.clearFailure other).nChainTx other = state.nChainTx other := by
    rw [← clears.nChainTx, CChainState.nChainTx, entry, if_pos rfl]
  by_cases flagged : (now.nStatus other).isValid BLOCK_VALID_TRANSACTIONS = true ∨ pindex ∉ state.path other
  · have pass : resetBelow address pindex now other = now := by
      rw [resetBelow, clears.path]
      rcases flagged with valid | apart
      · simp [valid]
      · simp [apart]
    rw [pass]
    refine clears.pass fun below => ?_
    exact (BlockStatus.isValid_iff.mp (flagged.resolve_right (not_not.mpr below))).1
  · obtain ⟨invalid, below⟩ := not_or.mp flagged
    have below := not_not.mp below
    rw [resetBelow, clears.path, if_pos (by simp [invalid, below])]
    have offered : (((now.clearFailure other).nStatus other).isValid BLOCK_VALID_TRANSACTIONS &&
        (now.clearFailure other).nChainTx other != 0 &&
        (now.clearFailure other).workComparator address (now.clearFailure other).tip other) = true ↔
        (BLOCK_VALID_TRANSACTIONS ≤ (state.nStatus other).validity ∧ state.nChainTx other ≠ 0) ∧
          state.rank address state.tip < state.rank address other := by
      rw [Bool.and_eq_true, Bool.and_eq_true, workComparator_iff, ranks, ranks, status, links,
        BlockStatus.isValid_iff, bne_iff_ne, show (now.clearFailure other).tip = state.tip from clears.tip]
      simp [BlockStatus.cleared, BlockStatus.failed]
    simp only
    split_ifs with usable
    · refine clears.clear below (fun hash => mem_insert_of_mem) ?_ fun _ _ _ => mem_insert_self
      intro hash member
      rcases mem_insert_iff.mp member with rfl | old
      · exact Or.inr ⟨rfl, (offered.mp usable).1.2⟩
      · exact Or.inl old
    · refine clears.clear below (fun _ => id) (fun _ => Or.inl) fun valid linked better => ?_
      exact absurd (offered.mpr ⟨⟨valid, linked⟩, better⟩) usable

lemma Clears.run (items : List Uint256) :
    Clears address pindex state (items.foldl (resetBelow address pindex) now) (items.reverse ++ met) := by
  induction items generalizing now met with
  | nil => exact clears
  | cons other rest ih =>
    rw [foldl_cons, reverse_cons, append_assoc]
    exact ih (clears.step other)

end Cleared

lemma foldl_resetAbove {items : List Uint256}
    (sound : ∀ hash ∈ items, (state.nStatus hash).failed = false) : items.foldl resetAbove state = state := by
  induction items with
  | nil => rfl
  | cons first rest ih =>
    have skip : resetAbove state first = state := by
      rw [resetAbove, sound first mem_cons_self]
      rfl
    rw [foldl_cons, skip]
    exact ih fun hash member => sound hash (mem_cons_of_mem _ member)

/-- Where ResetBlockFailureFlags leaves no flag without a cause and no data behind: no
ancestor of the block is marked, and data below it that is not linked is in
mapBlocksUnlinked. -/
structure Reconsiderable (state : CChainState genesis) (pindex : Uint256) : Prop where
  known : state.Known pindex
  above : ∀ hash ∈ state.path pindex, hash ≠ pindex → (state.nStatus hash).failedValid = false
  below : ∀ parent hash, state.Known hash → state.pprev hash = some parent → pindex ∈ state.path parent →
    (state.nStatus hash).haveData = true → state.nChainTx hash = 0 →
    (parent, hash) ∈ state.mapBlocksUnlinked

instance (state : CChainState genesis) (pindex : Uint256) : Decidable (state.Reconsiderable pindex) :=
  decidable_of_iff (state.Known pindex ∧
      (∀ hash ∈ state.path pindex, hash ≠ pindex → (state.nStatus hash).failedValid = false) ∧
      ∀ hash ∈ state.mapBlockIndex.nodes, ∀ parent ∈ state.pprev hash,
        pindex ∈ state.path parent ∧ (state.nStatus hash).haveData = true ∧ state.nChainTx hash = 0 →
          (parent, hash) ∈ state.mapBlocksUnlinked)
    ⟨fun all => ⟨all.1, all.2.1, fun parent hash listed up below data unlinked =>
        all.2.2 hash listed parent up ⟨below, data, unlinked⟩⟩,
      fun can => ⟨can.known, can.above, fun hash listed parent up waits =>
        can.below parent hash listed up waits.1 waits.2.1 waits.2.2⟩⟩

lemma Reconsiderable.unflagged (well : WellLinked state queue) (reconsiderable : Reconsiderable state pindex) :
    ∀ hash ∈ state.path pindex, hash ≠ pindex → (state.nStatus hash).failed = false := by
  intro hash member apart
  have known := path_nodes reconsiderable.known hash member
  rw [BlockStatus.failed, reconsiderable.above hash member apart, Bool.false_or]
  by_contra flagged
  -- a flagged ancestor has a failed ancestor of its own
  obtain ⟨above, upper, _, failed⟩ := well.child hash known (by simpa using flagged)
  have listed := path_trans reconsiderable.known member upper
  have other : above ≠ pindex := by
    rintro rfl
    exact apart (path_antisymm known reconsiderable.known member upper)
  rw [reconsiderable.above above listed other] at failed
  cases failed

lemma resetBlockFailureFlags_clears (well : WellLinked state [])
    (reconsiderable : Reconsiderable state pindex) : ∃ met, (∀ hash, state.Known hash ↔ hash ∈ met) ∧
      Clears address pindex state (state.resetBlockFailureFlags address pindex) met := by
  have clears : Clears address pindex state
      (state.mapBlockIndex.nodes.foldl (resetBelow address pindex) state)
      (state.mapBlockIndex.nodes.reverse ++ []) := Clears.start.run _
  have known : ∀ hash, state.Known hash ↔ hash ∈ state.mapBlockIndex.nodes.reverse ++ [] := by simp [Known]
  refine ⟨_, known, ?_⟩
  rw [resetBlockFailureFlags, foldl_resetAbove]
  · exact clears
  · intro hash member
    rw [clears.path] at member
    rw [nStatus, clears.entry]
    by_cases same : hash = pindex
    · subst same
      rw [if_pos ⟨(known hash).mp reconsiderable.known, member⟩]
      rfl
    · have sound := reconsiderable.unflagged well hash member same
      split_ifs
      · rw [BlockStatus.cleared_of_sound sound]
        exact sound
      · exact sound

section Whole
variable (clears : Clears address pindex state now met)
  (whole : ∀ hash, state.Known hash ↔ hash ∈ met)
include clears

variable (hash : Uint256)

lemma Clears.nTx : (now.blockIndex hash).nTx = (state.blockIndex hash).nTx := by
  rw [clears.entry]
  split_ifs <;> rfl

lemma Clears.haveData : (now.nStatus hash).haveData = (state.nStatus hash).haveData := by
  have same := congrArg BlockStatus.haveData (clears.cleared hash)
  exact same

lemma Clears.validity : (now.nStatus hash).validity = (state.nStatus hash).validity := by
  have same := congrArg BlockStatus.validity (clears.cleared hash)
  exact same

lemma Clears.outside {hash : Uint256} (apart : pindex ∉ state.path hash) :
    now.nStatus hash = state.nStatus hash := by
  rw [nStatus, clears.entry, if_neg fun both => apart both.2]

lemma Clears.sound {hash : Uint256} (sound : (state.nStatus hash).failed = false) :
    (now.nStatus hash).failed = false := by
  rw [nStatus, clears.entry]
  split_ifs
  · rfl
  · exact sound

lemma Clears.proven (proven : Proven state tip) : Proven now tip := by
  refine ⟨(clears.known tip).mpr proven.known, ?_, ?_, ?_⟩
  all_goals
    rw [clears.path]
    intro hash member
  · rw [clears.nChainTx]
    exact proven.linked hash member
  · exact clears.sound (proven.sound hash member)
  · rw [clears.validity]
    exact proven.verified hash member

include whole

lemma Clears.inside {hash : Uint256} (known : state.Known hash) (below : pindex ∈ state.path hash) :
    (now.nStatus hash).failed = false := by
  rw [nStatus, clears.entry, if_pos ⟨(whole hash).mp known, below⟩]
  rfl

lemma Clears.well (well : WellLinked state []) (reconsiderable : Reconsiderable state pindex) :
    WellLinked now [] where
  candidates hash member := by
    rw [clears.known, clears.nChainTx]
    rcases clears.only hash member with old | ⟨listed, linked⟩
    · exact well.candidates hash old
    · exact ⟨(whole hash).mpr listed, linked⟩
  valid hash := by
    rw [clears.known, clears.validity]
    exact well.valid hash
  data hash := by
    rw [clears.known, clears.haveData, clears.nTx, clears.validity]
    exact well.data hash
  linked hash := by
    rw [clears.known, clears.nChainTx, clears.haveData]
    exact well.linked hash
  parents parent hash := by
    rw [clears.known, clears.pprev, clears.nChainTx, clears.nChainTx]
    exact well.parents parent hash
  counted hash := by
    rw [clears.known, clears.nChainTx, pathTx_congr (clears.path hash) fun upper _ => clears.nTx upper]
    exact well.counted hash
  unlinked parent hash := by
    rw [clears.unlinked, clears.known, clears.pprev, clears.haveData, clears.nChainTx]
    exact well.unlinked parent hash
  waiting parent hash := by
    rw [clears.known, clears.pprev, clears.haveData, clears.nChainTx, clears.unlinked]
    intro known parents held none
    rcases well.waiting parent hash known parents held none with failed | waits
    · by_cases below : pindex ∈ state.path parent
      · exact Or.inr (Or.inl (reconsiderable.below parent hash known parents below held none))
      · rw [clears.outside below]
        exact Or.inl failed
    · exact Or.inr waits
  child hash known flagged := by
    rw [clears.known] at known
    have apart : pindex ∉ state.path hash := by
      intro below
      have sound := clears.inside whole known below
      rw [BlockStatus.failed, flagged, Bool.or_true] at sound
      cases sound
    rw [clears.outside apart] at flagged
    obtain ⟨above, member, other, failed⟩ := well.child hash known flagged
    refine ⟨above, ?_, other, ?_⟩
    · rw [clears.path]
      exact member
    · rw [clears.outside fun below => apart (path_trans known member below)]
      exact failed
  failedBlocks hash member := by
    obtain ⟨listed, clean⟩ := clears.failedBlocks hash member
    obtain ⟨known, failed⟩ := well.failedBlocks hash listed
    have apart : pindex ∉ state.path hash := by
      intro below
      have sound := clean ((whole hash).mp known) below
      rw [BlockStatus.failed, failed, Bool.true_or] at sound
      cases sound
    rw [clears.known, clears.outside apart]
    exact ⟨known, failed⟩

/-- The entries that lose their flag and are better than the tip become candidates; the
tip itself had none. -/
lemma Clears.ready (ready : Ready address state best) (reconsiderable : Reconsiderable state pindex) :
    Ready address now best where
  well := clears.well whole ready.well reconsiderable
  chain := clears.proven ready.chain
  member := clears.more best ready.member
  tip := by
    rw [clears.tip]
    exact clears.proven ready.tip
  above := by
    rw [clears.tip, clears.rank, clears.rank]
    exact ready.above
  complete hash known linked sound better := by
    rw [clears.known] at known
    rw [clears.nChainTx] at linked
    rw [clears.rank, clears.rank] at better
    cases flagged : (state.nStatus hash).failed with
    | false => exact clears.more hash (ready.complete hash known linked flagged better)
    | true =>
      have below : pindex ∈ state.path hash := by
        by_contra apart
        rw [clears.outside apart, flagged] at sound
        cases sound
      have valid := (ready.well.data hash known (ready.well.linked hash known linked)).2
      refine clears.joins hash ((whole hash).mp known) below flagged valid linked ?_
      refine lt_of_le_of_ne (ready.above.trans better) fun same => ?_
      obtain rfl := state.rank_injective same
      rw [ready.tip.sound _ (self_mem_path ready.tip.known)] at flagged
      cases flagged

end Whole

lemma resetBlockFailureFlags_ready (reconsiderable : Reconsiderable state pindex)
    (ready : Ready address state best) : Ready address (state.resetBlockFailureFlags address pindex) best := by
  obtain ⟨met, whole, clears⟩ := resetBlockFailureFlags_clears ready.well reconsiderable
  exact clears.ready whole ready reconsiderable

end CChainState

end Dragonchain
