import Dragonchain.Activation
import Dragonchain.ArrivalCases

/-!
Arrivals keep the invariant of the chain state: a new header, a header that is turned
down below a failed block, a block that fails its checks, and a block whose data links
it and the blocks that waited for it.
-/

namespace Dragonchain

open Serialization List LeafTree

variable {genesis best pindex hash other tip : Uint256} {address : Uint256 ↪ Nat}
  {queue hashes : List Uint256} {cache : Option PoWCache} {more nTx : Nat}

namespace CChainState

variable {state : CChainState genesis}

lemma pprev_spec {parent : Uint256} (known : state.Known pindex) (parents : state.pprev pindex = some parent) :
    state.Known parent ∧ parent ∈ state.path pindex ∧ state.path pindex = pindex :: state.path parent := by
  by_cases root : pindex = genesis
  · rw [pprev, root, path, state.mapBlockIndex.path_root] at parents
    cases parents
  · obtain ⟨upper, listed, shape⟩ := state.mapBlockIndex.path_step pindex known root
    obtain rfl : upper = parent := Option.some.inj ((pprev_of_path listed shape).symm.trans parents)
    refine ⟨listed, ?_, shape⟩
    rw [path, shape]
    exact mem_cons_of_mem _ (self_mem_path listed)

section Add
variable {block : CBlockHeader} {fresh : ¬state.Known hash}
  {known : state.Known block.hashPrevBlock}

lemma addToBlockIndex_known
    (listed : (state.addToBlockIndex hash block cache fresh known).Known other) (apart : other ≠ hash) :
    state.Known other :=
  (mem_cons.mp listed).resolve_left apart

lemma addToBlockIndex_path (listed : state.Known other) :
    (state.addToBlockIndex hash block cache fresh known).path other = state.path other :=
  addLeaf_path_of_mem fresh known listed

lemma addToBlockIndex_entry (apart : other ≠ hash) :
    (state.addToBlockIndex hash block cache fresh known).blockIndex other = state.blockIndex other :=
  Function.update_of_ne apart _ _

lemma addToBlockIndex_new : (state.addToBlockIndex hash block cache fresh known).blockIndex hash =
      { header := block, cache,
        nChainWork := (state.nChainWork block.hashPrevBlock + getBlockProof block.nBits) % 2 ^ 256,
        nStatus := { validity := BLOCK_VALID_TREE } } :=
  Function.update_self ..

lemma addToBlockIndex_old (listed : state.Known other) :
    (state.addToBlockIndex hash block cache fresh known).blockIndex other = state.blockIndex other :=
  addToBlockIndex_entry (ne_of_mem_of_not_mem listed fresh)

lemma addToBlockIndex_before (listed : (state.addToBlockIndex hash block cache fresh known).Known other)
    (marked : ((state.addToBlockIndex hash block cache fresh known).nStatus other).haveData = true ∨
      (state.addToBlockIndex hash block cache fresh known).nChainTx other ≠ 0 ∨
      ((state.addToBlockIndex hash block cache fresh known).nStatus other).failed = true) :
    state.Known other := by
  refine addToBlockIndex_known listed ?_
  rintro rfl
  simp [nStatus, nChainTx, addToBlockIndex_new, BlockStatus.failed] at marked

lemma addToBlockIndex_pprev (listed : state.Known other) :
    (state.addToBlockIndex hash block cache fresh known).pprev other = state.pprev other := by
  rw [pprev, addToBlockIndex_path listed, pprev]

lemma addToBlockIndex_pathTx (listed : state.Known other) :
    (state.addToBlockIndex hash block cache fresh known).pathTx other = state.pathTx other :=
  pathTx_congr (addToBlockIndex_path listed) fun upper member =>
    congrArg CBlockIndex.nTx (addToBlockIndex_old (path_nodes listed upper member))

/-- A new entry has no transactions yet. -/
lemma HasRoom.add (room : state.HasRoom more) :
    (state.addToBlockIndex hash block cache fresh known).HasRoom more := by
  intro other listed
  by_cases same : other = hash
  · have shape : (state.addToBlockIndex hash block cache fresh known).path hash =
        hash :: state.path block.hashPrevBlock := addLeaf_path fresh known
    have upper : (state.addToBlockIndex hash block cache fresh known).pathTx hash =
        state.pathTx block.hashPrevBlock := by
      rw [pathTx, shape, map_cons, sum_cons, addToBlockIndex_new, Nat.zero_add,
        ← addToBlockIndex_path known, ← addToBlockIndex_pathTx known, pathTx]
    rw [same, upper]
    exact room _ known
  · have before := addToBlockIndex_known listed same
    rw [addToBlockIndex_pathTx before]
    exact room other before

lemma Proven.add (proven : Proven state pindex) :
    Proven (state.addToBlockIndex hash block cache fresh known) pindex := by
  have old : ∀ other ∈ state.path pindex,
      (state.addToBlockIndex hash block cache fresh known).blockIndex other = state.blockIndex other :=
    fun other member => addToBlockIndex_old (path_nodes proven.known other member)
  refine ⟨mem_cons_of_mem _ proven.known, ?_, ?_, ?_⟩
  all_goals
    intro other member
    rw [addToBlockIndex_path proven.known] at member
    have same := old other member
  · rw [nChainTx, same]
    exact proven.linked other member
  · rw [nStatus, same]
    exact proven.sound other member
  · rw [nStatus, same]
    exact proven.verified other member

lemma WellLinked.add (well : WellLinked state queue) :
    WellLinked (state.addToBlockIndex hash block cache fresh known) queue where
  candidates other member := by
    obtain ⟨listed, linked⟩ := well.candidates other member
    rw [nChainTx, addToBlockIndex_old listed]
    exact ⟨mem_cons_of_mem _ listed, linked⟩
  valid other listed := by
    by_cases same : other = hash
    · rw [same, nStatus, addToBlockIndex_new]
    · rw [nStatus, addToBlockIndex_entry same]
      exact well.valid other (addToBlockIndex_known listed same)
  data other listed held := by
    have before := addToBlockIndex_before listed (Or.inl held)
    rw [nStatus, addToBlockIndex_old before] at held ⊢
    exact well.data other before held
  linked other listed linked := by
    have before := addToBlockIndex_before listed (Or.inr (Or.inl linked))
    rw [nChainTx, addToBlockIndex_old before] at linked
    rw [nStatus, addToBlockIndex_old before]
    exact well.linked other before linked
  parents parent other listed above linked := by
    have before := addToBlockIndex_before listed (Or.inr (Or.inl linked))
    rw [addToBlockIndex_pprev before] at above
    rw [nChainTx, addToBlockIndex_old before] at linked
    rw [nChainTx, addToBlockIndex_old (pprev_spec before above).1]
    exact well.parents parent other before above linked
  counted other listed := by
    by_cases same : other = hash
    · rw [same, nChainTx, addToBlockIndex_new]
      exact Nat.zero_le _
    · have before := addToBlockIndex_known listed same
      rw [nChainTx, addToBlockIndex_old before, addToBlockIndex_pathTx before]
      exact well.counted other before
  unlinked parent other member := by
    obtain ⟨listed, above, held, none⟩ := well.unlinked parent other member
    rw [addToBlockIndex_pprev listed, nStatus, addToBlockIndex_old listed, nChainTx,
      addToBlockIndex_old (pprev_spec listed above).1]
    exact ⟨mem_cons_of_mem _ listed, above, held, none⟩
  waiting parent other listed above held none := by
    have before := addToBlockIndex_before listed (Or.inl held)
    rw [addToBlockIndex_pprev before] at above
    rw [nStatus, addToBlockIndex_old before] at held
    rw [nChainTx, addToBlockIndex_old before] at none
    rw [nStatus, addToBlockIndex_old (pprev_spec before above).1]
    exact well.waiting parent other before above held none
  child other listed flagged := by
    have before := addToBlockIndex_before listed (Or.inr (Or.inr (by simp [BlockStatus.failed, flagged])))
    rw [nStatus, addToBlockIndex_old before] at flagged
    obtain ⟨above, member, apart, failed⟩ := well.child other before flagged
    refine ⟨above, ?_, apart, ?_⟩
    · rw [addToBlockIndex_path before]
      exact member
    · rw [nStatus, addToBlockIndex_old (path_nodes before above member)]
      exact failed
  failedBlocks other member := by
    obtain ⟨listed, failed⟩ := well.failedBlocks other member
    rw [nStatus, addToBlockIndex_old listed]
    exact ⟨mem_cons_of_mem _ listed, failed⟩

lemma addToBlockIndex_rank (listed : state.Known other) :
    (state.addToBlockIndex hash block cache fresh known).rank address other = state.rank address other := by
  have same : (state.addToBlockIndex hash block cache fresh known).blockIndex other =
      state.blockIndex other := addToBlockIndex_old listed
  exact rank_eq_of_entry (congrArg _ same) (congrArg _ same)

lemma Ready.add (ready : Ready address state best queue) :
    Ready address (state.addToBlockIndex hash block cache fresh known) best queue where
  well := ready.well.add
  chain := ready.chain.add
  member := ready.member
  complete other listed linked sound better := by
    have before := addToBlockIndex_before listed (Or.inr (Or.inl linked))
    rw [nChainTx, addToBlockIndex_old before] at linked
    rw [nStatus, addToBlockIndex_old before] at sound
    rw [addToBlockIndex_rank ready.chain.known, addToBlockIndex_rank before] at better
    exact ready.complete other before linked sound better
  tip := ready.tip.add
  above := by
    rw [addToBlockIndex_rank ready.chain.known]
    exact (addToBlockIndex_rank ready.tip.known).trans_le ready.above

end Add

lemma keeps_storeData (data : (state.nStatus pindex).haveData = false)
    (alone : state.nChainTx pindex = 0) (nTx : Nat) : Keeps state (state.storeData pindex nTx) := by
  refine .modify state ?_ fun _ => rfl
  rw [BlockStatus.raiseValidity_eq]
  exact ⟨rfl, rfl, fun held => absurd (data.symm.trans held) Bool.false_ne_true, alone.symm, fun _ => rfl,
    BlockStatus.le_raiseValidity { state.nStatus pindex with haveData := true } BLOCK_VALID_TRANSACTIONS, id, id⟩

lemma sum_map_le {first second : Uint256 → Nat} (once : hashes.Nodup)
    (same : ∀ hash, hash ≠ pindex → second hash = first hash) :
    (hashes.map second).sum ≤ (hashes.map first).sum + second pindex := by
  induction hashes with
  | nil => exact Nat.zero_le _
  | cons front hashes ih =>
    obtain ⟨new, once⟩ := nodup_cons.mp once
    simp only [map_cons, sum_cons]
    by_cases here : front = pindex
    · subst here
      rw [map_congr_left fun hash member => same hash (ne_of_mem_of_not_mem member new)]
      omega
    · rw [same front here, Nat.add_assoc]
      exact Nat.add_le_add_left (ih once) _

/-- The data of a block adds its transactions to the chains that it is on. -/
lemma HasRoom.storeData (room : state.HasRoom nTx) : (state.storeData pindex nTx).HasRoom 0 := by
  intro hash listed
  have once : (state.path hash).Nodup := path_nodup listed
  have grown : (state.storeData pindex nTx).pathTx hash ≤
      state.pathTx hash + ((state.storeData pindex nTx).blockIndex pindex).nTx := by
    refine sum_map_le once fun upper apart => ?_
    rw [CChainState.storeData, modify_entry, if_neg apart]
  rw [CChainState.storeData, modify_entry, if_pos rfl] at grown
  exact grown.trans_lt (room hash listed)

/-- The data of a block arrives: until the queue has run, the block waits in it. -/
lemma Ready.storeData (ready : Ready address state best) (known : state.Known pindex)
    (data : (state.nStatus pindex).haveData = false) (sound : (state.nStatus pindex).failed = false)
    (some : nTx ≠ 0) : Ready address (state.storeData pindex nTx) best [pindex] := by
  have alone : state.nChainTx pindex = 0 := by
    by_contra linked
    rw [ready.well.linked pindex known linked] at data
    cases data
  have kept := keeps_storeData data alone nTx
  have unflagged := fun hash => state.storeData_failed pindex hash nTx
  refine ready.keep kept ?_ rfl (fun hash member => (unflagged hash).trans (ready.tip.sound hash member))
    (fun hash member => (unflagged hash).trans (ready.chain.sound hash member)) (fun _ member _ => member)
  refine ready.well.keep kept.toGrows nofun ?_ (fun _ => Or.inl) ?_ (fun _ => Or.inl)
  · intro hash _ held
    by_cases same : hash = pindex
    · subst same
      right
      rw [storeData_nStatus, if_pos rfl]
      refine ⟨?_, BlockStatus.raiseValidity_reaches _ _ sound, mem_singleton.mpr rfl⟩
      rw [CChainState.storeData, modify_entry, if_pos rfl]
      exact some
    · rw [storeData_nStatus, decide_eq_false same] at held
      exact Or.inl held
  · intro hash _ flagged
    rw [storeData_nStatus] at flagged
    exact Or.inl flagged

/-- The entries in the queue have data and a linked parent, and are neither the tip nor the
anchor, which were linked before. -/
def Queued (state : CChainState genesis) (best : Uint256) (queue : List Uint256) : Prop :=
  ∀ hash ∈ queue, state.Known hash ∧ (state.nStatus hash).haveData = true ∧
    (∀ parent, state.pprev hash = some parent → state.nChainTx parent ≠ 0) ∧
    hash ≠ best ∧ hash ≠ state.tip

/-- What linking one entry changes: its nChainTx and nSequenceId, and it may become a
candidate. -/
structure Links (address : Uint256 ↪ Nat) (state linked : CChainState genesis) (pindex : Uint256) :
    Prop extends SameFlags state linked where
  unlinked : linked.mapBlocksUnlinked = state.mapBlocksUnlinked
  nTx : ∀ hash, (linked.blockIndex hash).nTx = (state.blockIndex hash).nTx
  others : ∀ hash, hash ≠ pindex → linked.blockIndex hash = state.blockIndex hash
  here : linked.nChainTx pindex ≠ 0
  counted : linked.nChainTx pindex ≤ state.pathTx pindex
  more : ∀ hash ∈ state.setBlockIndexCandidates, hash ∈ linked.setBlockIndexCandidates
  only : ∀ hash ∈ linked.setBlockIndexCandidates, hash = pindex ∨ hash ∈ state.setBlockIndexCandidates
  joins : linked.rank address linked.tip ≤ linked.rank address pindex → pindex ∈ linked.setBlockIndexCandidates

lemma WellLinked.linked_count (well : WellLinked state queue) (known : state.Known pindex) :
    (state.pprev pindex).elim 0 state.nChainTx + (state.blockIndex pindex).nTx ≤ state.pathTx pindex := by
  cases parents : state.pprev pindex with
  | none =>
    obtain ⟨rest, shape⟩ := path_cons known
    rw [pathTx, path, shape, map_cons, sum_cons, Option.elim_none, Nat.zero_add]
    exact Nat.le_add_right ..
  | some parent =>
    obtain ⟨above, _, shape⟩ := pprev_spec known parents
    rw [pathTx, shape, map_cons, sum_cons, Nat.add_comm, Option.elim_some]
    exact Nat.add_le_add_left (well.counted parent above) _

/-- Below 2 ^ 32 transactions, an entry with data does not seem unlinked after its turn. -/
lemma linkBlock_links (some : (state.blockIndex pindex).nTx ≠ 0)
    (count : (state.pprev pindex).elim 0 state.nChainTx + (state.blockIndex pindex).nTx ≤ state.pathTx pindex)
    (room : state.pathTx pindex < 2 ^ 32) : Links address state (state.linkBlock address pindex) pindex := by
  have entry := state.linkBlock_entry address pindex
  have sum : (state.linkBlock address pindex).nChainTx pindex =
      (state.pprev pindex).elim 0 state.nChainTx + (state.blockIndex pindex).nTx := by
    rw [nChainTx, entry, if_pos rfl]
    exact Nat.mod_eq_of_lt (count.trans_lt room)
  refine ⟨linkBlock_sameFlags address state pindex, ?_, fun hash => ?_, fun hash apart => ?_, ?_,
    sum.trans_le count, ?_, ?_, ?_⟩
  · simp only [linkBlock]
    split_ifs <;> rfl
  · rw [entry]
    split_ifs <;> rfl
  · rw [entry, if_neg apart]
  · rw [sum]
    exact Nat.ne_of_gt (Nat.add_pos_right _ (Nat.pos_of_ne_zero some))
  all_goals
    simp only [linkBlock]
    split_ifs with worse
  · exact fun _ => id
  · exact fun _ => mem_insert_of_mem
  · exact fun _ => Or.inr
  · exact fun _ => mem_insert_iff.mp
  · exact fun better => absurd better (not_le.mpr ((workComparator_iff _).mp worse))
  · exact fun _ => mem_insert_self

section Linked
variable {linked : CChainState genesis} (links : Links address state linked pindex)
include links

lemma Links.rank (apart : hash ≠ pindex) : linked.rank address hash = state.rank address hash :=
  rank_eq_of_entry (congrArg _ (links.others hash apart)) (congrArg _ (links.others hash apart))

lemma Links.stays (before : state.nChainTx hash ≠ 0) : linked.nChainTx hash ≠ 0 := by
  by_cases same : hash = pindex
  · rw [same]
    exact links.here
  · rw [nChainTx, links.others hash same]
    exact before

lemma Links.before (now : linked.nChainTx hash ≠ 0) : hash = pindex ∨ state.nChainTx hash ≠ 0 := by
  by_cases same : hash = pindex
  · exact Or.inl same
  · rw [nChainTx, links.others hash same] at now
    exact Or.inr now

lemma Links.pathTx : linked.pathTx hash = state.pathTx hash :=
  pathTx_congr (links.path hash) fun upper _ => links.nTx upper

lemma Links.proven (proven : Proven state tip) : Proven linked tip := by
  refine ⟨(links.known tip).mpr proven.known, ?_, ?_, ?_⟩
  all_goals
    rw [links.path]
    intro hash member
  · exact links.stays (proven.linked hash member)
  · rw [links.status]
    exact proven.sound hash member
  · rw [links.status]
    exact proven.verified hash member

lemma Links.well (well : WellLinked state (pindex :: queue)) (known : state.Known pindex)
    (data : (state.nStatus pindex).haveData = true)
    (upper : ∀ parent, state.pprev pindex = some parent → state.nChainTx parent ≠ 0) : WellLinked { linked with
      mapBlocksUnlinked := linked.mapBlocksUnlinked.filter fun pair => !(pair.1 == pindex) }
      (queue ++ (linked.mapBlocksUnlinked.filter fun pair => pair.1 == pindex).map Prod.snd) where
  candidates hash member := by
    rcases links.only hash member with rfl | old
    · exact ⟨(links.known hash).mpr known, links.here⟩
    · obtain ⟨listed, linked⟩ := well.candidates hash old
      exact ⟨(links.known hash).mpr listed, links.stays linked⟩
  valid hash listed := by
    refine (well.valid hash ((links.known hash).mp listed)).trans_eq ?_
    exact congrArg BlockStatus.validity (links.status hash).symm
  data hash listed held := by
    have old := well.data hash ((links.known hash).mp listed) (links.status hash ▸ held)
    exact ⟨(links.nTx hash).trans_ne old.1, (links.status hash).symm ▸ old.2⟩
  linked hash listed now := by
    refine (congrArg BlockStatus.haveData (links.status hash)).trans ?_
    rcases links.before now with rfl | old
    · exact data
    · exact well.linked hash ((links.known hash).mp listed) old
  parents parent hash listed above now := by
    have parents : state.pprev hash = some parent := (links.pprev hash).symm.trans above
    rcases links.before now with rfl | old
    · exact links.stays (upper parent parents)
    · exact links.stays (well.parents parent hash ((links.known hash).mp listed) parents old)
  counted hash listed := by
    refine le_of_le_of_eq ?_ links.pathTx.symm
    by_cases same : hash = pindex
    · rw [same]
      exact links.counted
    · refine (congrArg CBlockIndex.nChainTx (links.others hash same)).trans_le ?_
      exact well.counted hash ((links.known hash).mp listed)
  unlinked parent hash member := by
    obtain ⟨listed, apart⟩ := mem_filter.mp member
    have apart : parent ≠ pindex := by simpa using apart
    obtain ⟨held, above, present, none⟩ := well.unlinked parent hash (links.unlinked ▸ listed)
    refine ⟨(links.known hash).mpr held, (links.pprev hash).trans above, ?_, ?_⟩
    · exact (congrArg BlockStatus.haveData (links.status hash)).trans present
    · exact (congrArg CBlockIndex.nChainTx (links.others parent apart)).trans none
  waiting parent hash listed above held none := by
    have parents : state.pprev hash = some parent := (links.pprev hash).symm.trans above
    have apart : hash ≠ pindex := by
      rintro rfl
      exact links.here none
    have alone : state.nChainTx hash = 0 :=
      (congrArg CBlockIndex.nChainTx (links.others hash apart)).symm.trans none
    rcases well.waiting parent hash ((links.known hash).mp listed) parents (links.status hash ▸ held)
      alone with failed | member | waits
    · exact Or.inl ((congrArg BlockStatus.failed (links.status parent)).trans failed)
    · right
      rw [← links.unlinked] at member
      by_cases mine : parent = pindex
      · refine Or.inr (mem_append_right _ (mem_map.mpr ⟨(parent, hash), ?_, rfl⟩))
        exact mem_filter.mpr ⟨member, by simpa using mine⟩
      · exact Or.inl (mem_filter.mpr ⟨member, by simpa using mine⟩)
    · exact Or.inr (Or.inr (mem_append_left _ ((mem_cons.mp waits).resolve_left apart)))
  child hash listed flagged := by
    obtain ⟨above, member, apart, failed⟩ :=
      well.child hash ((links.known hash).mp listed) (links.status hash ▸ flagged)
    exact ⟨above, (links.path hash).symm ▸ member, apart,
      (congrArg BlockStatus.failedValid (links.status above)).trans failed⟩
  failedBlocks hash member := by
    obtain ⟨listed, failed⟩ := well.failedBlocks hash (links.failedBlocks ▸ member)
    exact ⟨(links.known hash).mpr listed, (congrArg BlockStatus.failedValid (links.status hash)).trans failed⟩

end Linked

lemma linkTurn_ready (ready : Ready address state best (pindex :: queue))
    (queued : Queued state best (pindex :: queue)) (room : state.HasRoom 0) :
    ∃ next, linkTurn address (pindex :: queue, state) = .ok (.inr next) ∧
      Ready address next.2 best next.1 ∧ Queued next.2 best next.1 ∧ next.2.HasRoom 0 ∧
      next.1.length + next.2.mapBlocksUnlinked.length = queue.length + state.mapBlocksUnlinked.length := by
  obtain ⟨known, data, upper, notBest, notTip⟩ := queued pindex mem_cons_self
  have links : Links address state (state.linkBlock address pindex) pindex :=
    linkBlock_links (ready.well.data pindex known data).1 (ready.well.linked_count known) (room pindex known)
  refine ⟨_, rfl, ?_⟩
  generalize state.linkBlock address pindex = linked at *
  have kept : ∀ {tip}, Proven linked tip → Proven { linked with
      mapBlocksUnlinked := linked.mapBlocksUnlinked.filter fun pair => !(pair.1 == pindex) } tip :=
    fun proven => ⟨proven.known, proven.linked, proven.sound, proven.verified⟩
  have below : linked.rank address linked.tip ≤ linked.rank address best := by
    rw [links.tip, links.rank notTip.symm, links.rank notBest.symm]
    exact ready.above
  refine ⟨⟨⟨links.well ready.well known data upper, kept (links.proven ready.chain),
    links.more best ready.member, ?_⟩, kept (links.tip ▸ links.proven ready.tip), below⟩, ?_, ?_, ?_⟩
  · intro hash listed now clean better
    by_cases same : hash = pindex
    · subst same
      exact links.joins (below.trans better)
    · refine links.more hash (ready.complete hash ((links.known hash).mp listed)
        ((links.before now).resolve_left same) (links.status hash ▸ clean) ?_)
      exact (links.rank notBest.symm).symm.trans_le (better.trans (links.rank same).le)
  · intro hash member
    rcases mem_append.mp member with later | moved
    · obtain ⟨listed, held, above, apart, other⟩ := queued hash (mem_cons_of_mem _ later)
      refine ⟨(links.known hash).mpr listed,
        (congrArg BlockStatus.haveData (links.status hash)).trans held, ?_, apart, ?_⟩
      · intro parent parents
        exact links.stays (above parent ((links.pprev hash).symm.trans parents))
      · exact fun same => other (same.trans links.tip)
    · obtain ⟨⟨parent, child⟩, pair, rfl⟩ := mem_map.mp moved
      obtain ⟨listed, mine⟩ := mem_filter.mp pair
      obtain rfl : parent = pindex := by simpa using mine
      obtain ⟨held, above, present, none⟩ := ready.well.unlinked parent child (links.unlinked ▸ listed)
      -- the children of an unlinked entry are unlinked, unlike the anchor and the tip
      have alone : ∀ {tip}, Proven state tip → child ≠ tip := by
        rintro tip proven rfl
        have linked := proven.linked child (self_mem_path proven.known)
        exact ready.well.parents parent child held above linked none
      refine ⟨(links.known child).mpr held,
        (congrArg BlockStatus.haveData (links.status child)).trans present, ?_, alone ready.chain, ?_⟩
      · intro other parents
        obtain rfl : parent = other := Option.some.inj (above.symm.trans ((links.pprev child).symm.trans parents))
        exact links.here
      · exact fun same => alone ready.tip (same.trans links.tip)
  · exact fun hash listed => links.pathTx.trans_lt (room hash ((links.known hash).mp listed))
  · have total := length_eq_length_filter_add (l := linked.mapBlocksUnlinked) fun pair => pair.1 == pindex
    rw [links.unlinked] at total ⊢
    simp only [length_append, length_map]
    omega

lemma linkFrom_ready (ready : Ready address state best [pindex]) (queued : Queued state best [pindex])
    (room : state.HasRoom 0) :
    ∃ after, state.linkFrom address pindex = .ok after ∧ Ready address after best := by
  let invariant (turn : List Uint256 × CChainState genesis) :=
    Ready address turn.2 best turn.1 ∧ Queued turn.2 best turn.1 ∧ turn.2.HasRoom 0
  let measure (turn : List Uint256 × CChainState genesis) := turn.1.length + turn.2.mapBlocksUnlinked.length
  have body : ∀ turn, invariant turn →
      (∃ after, linkTurn address turn = .ok (.inl after) ∧ Ready address after best) ∨
      ∃ next, linkTurn address turn = .ok (.inr next) ∧ invariant next ∧ measure next < measure turn := by
    rintro ⟨queue, current⟩ ⟨ready, queued, room⟩
    cases queue with
    | nil => exact Or.inl ⟨current, rfl, ready⟩
    | cons pindex queue =>
      obtain ⟨next, goes, ready', queued', room', size⟩ := linkTurn_ready ready queued room
      refine Or.inr ⟨next, goes, ⟨ready', queued', room'⟩, ?_⟩
      exact size.trans_lt (Nat.add_lt_add_right (Nat.lt_succ_self _) _)
  have holds : invariant ([pindex], state) := ⟨ready, queued, room⟩
  obtain ⟨after, ready', ends⟩ := runLoop_ends invariant _ body holds
  refine ⟨after, ends _ ?_, ready'⟩
  simp only [measure, length_singleton]
  omega

/-- A block whose parent is not linked waits in mapBlocksUnlinked, unless the parent has failed. -/
lemma Ready.wait {unlinked : List (Uint256 × Uint256)} (ready : Ready address state best [pindex])
    (more : ∀ pair ∈ state.mapBlocksUnlinked, pair ∈ unlinked)
    (only : ∀ parent hash, (parent, hash) ∈ unlinked → (parent, hash) ∈ state.mapBlocksUnlinked ∨
      state.Known hash ∧ state.pprev hash = some parent ∧ (state.nStatus hash).haveData = true ∧
        state.nChainTx parent = 0) (placed : ∀ parent, state.pprev pindex = some parent →
      (state.nStatus parent).failed = true ∨ (parent, pindex) ∈ unlinked) :
    Ready address { state with mapBlocksUnlinked := unlinked } best := by
  have same : ∀ {tip}, Proven state tip → Proven { state with mapBlocksUnlinked := unlinked } tip :=
    fun proven => ⟨proven.known, proven.linked, proven.sound, proven.verified⟩
  have well : WellLinked { state with mapBlocksUnlinked := unlinked } [] := by
    refine ⟨ready.well.candidates, ready.well.valid, ready.well.data, ready.well.linked,
      ready.well.parents, ready.well.counted, fun parent hash member => ?_,
      fun parent hash known above held none => ?_,
      ready.well.child, ready.well.failedBlocks⟩
    · exact (only parent hash member).elim (ready.well.unlinked parent hash) id
    · rcases ready.well.waiting parent hash known above held none with failed | member | queued
      · exact Or.inl failed
      · exact Or.inr (Or.inl (more _ member))
      · obtain rfl := mem_singleton.mp queued
        exact (placed parent above).imp_right Or.inl
  exact ⟨⟨well, same ready.chain, ready.member, ready.complete⟩, same ready.tip, ready.above⟩

lemma receivedBlockTransactions_ready (ready : Ready address state best) {block : CBlock}
    (known : state.Known pindex) (data : (state.nStatus pindex).haveData = false)
    (sound : (state.nStatus pindex).failed = false) (some : block.vtx ≠ [])
    (room : state.HasRoom block.vtx.length) :
    ∃ after, state.receivedBlockTransactions address block pindex = .ok after ∧ Ready address after best := by
  have stored := ready.storeData known data sound (mt length_eq_zero_iff.mp some)
  have room' : (state.storeData pindex block.vtx.length).HasRoom 0 := room.storeData
  have alone : ∀ {tip}, Proven state tip → pindex ≠ tip := by
    rintro tip proven rfl
    have linked := proven.linked pindex (self_mem_path proven.known)
    rw [ready.well.linked pindex known linked] at data
    cases data
  have held : ((state.storeData pindex block.vtx.length).nStatus pindex).haveData = true := by
    simp [storeData_nStatus]
  have linkable : (∀ parent, (state.storeData pindex block.vtx.length).pprev pindex = .some parent →
      (state.storeData pindex block.vtx.length).nChainTx parent ≠ 0) →
      Queued (state.storeData pindex block.vtx.length) best [pindex] := by
    rintro upper hash member
    obtain rfl := mem_singleton.mp member
    exact ⟨known, held, upper, alone ready.chain, alone ready.tip⟩
  have listed : (state.storeData pindex block.vtx.length).Known pindex := known
  have short : block.vtx.length % 2 ^ 32 = block.vtx.length :=
    Nat.mod_eq_of_lt ((Nat.le_add_left ..).trans_lt (room pindex known))
  rw [receivedBlockTransactions, short]
  generalize state.storeData pindex block.vtx.length = current at *
  split
  · rename_i root
    refine linkFrom_ready stored (linkable fun parent above => ?_) room'
    rw [root] at above
    cases above
  · rename_i parent above
    split_ifs with linked valid
    · refine linkFrom_ready stored (linkable fun other parents => ?_) room'
      obtain rfl := Option.some.inj (above.symm.trans parents)
      exact linked
    · refine ⟨_, rfl, stored.wait (fun _ => mem_append_left _) ?_ ?_⟩
      · intro other hash member
        refine (mem_append.mp member).imp_right fun new => ?_
        obtain ⟨rfl, rfl⟩ := Prod.mk.inj (mem_singleton.mp new)
        exact ⟨listed, above, held, not_not.mp linked⟩
      · intro other parents
        obtain rfl := Option.some.inj (above.symm.trans parents)
        exact Or.inr (mem_append_right _ mem_cons_self)
    · refine ⟨_, rfl, stored.wait (fun _ => id) (fun _ _ => Or.inl) fun other parents => ?_⟩
      obtain rfl := Option.some.inj (above.symm.trans parents)
      left
      by_contra clean
      refine valid (BlockStatus.isValid_iff.mpr ⟨by simpa using clean, ?_⟩)
      exact stored.well.valid parent (pprev_spec listed above).1

end CChainState

open CChainState

section Arrive
variable {crypto : Crypto} {params : CChainParams} {outside : Surroundings}
  {state after : params.State} {header : CBlockHeader} {result : Except Reject Uint256}

lemma HeaderArrives.ready (arrives : HeaderArrives crypto params outside state header result after cache)
    (ready : Ready address state best) : Ready address after best := by
  cases arrives with
  | rejected | present => exact ready
  | added => exact ready.add
  | marked reject cache failedit known member above =>
    obtain ⟨_, failed⟩ := ready.well.failedBlocks failedit member
    have flagged : (state.nStatus failedit).failed = true := by simp [BlockStatus.failed, failed]
    refine ready.flagBelow flagged fun hash walked => ?_
    obtain ⟨listed, below⟩ := (mem_takeWhile_path known above).mp walked
    exact ⟨path_nodes known hash listed, below⟩

lemma HeaderArrives.hasRoom (arrives : HeaderArrives crypto params outside state header result after cache)
    (room : state.HasRoom more) : after.HasRoom more := by
  cases arrives with
  | rejected | present => exact room
  | added => exact room.add
  | marked =>
    intro hash listed
    refine (congrArg (· + more) (?_ : _ = state.pathTx hash)).trans_lt (room hash listed)
    refine pathTx_congr rfl fun upper _ => ?_
    simp only [setFailedChild]
    split_ifs <;> rfl

lemma HeaderArrives.accepted (arrives : HeaderArrives crypto params outside state header (.ok pindex) after cache)
    (ready : Ready address state best) : after.Known pindex ∧ (after.nStatus pindex).failed = false := by
  cases arrives with
  | present _ known sound =>
    refine ⟨known, ?_⟩
    rcases sound with root | sound
    · rw [root]
      exact ready.tip.sound _ (root_mem_path ready.tip.known)
    · exact sound
  | added _ fresh known =>
    refine ⟨mem_cons_self, ?_⟩
    rw [nStatus, addToBlockIndex_new]
    rfl

lemma acceptBlock_ready {object : BlockInMemory} {fRequested : Bool} (ready : Ready address state best)
    (sound : object.Checked crypto params) (room : state.HasRoom object.block.vtx.length) :
    ∃ done, acceptBlock crypto params address outside state object fRequested = .ok done ∧
      Ready address done.2.1 best := by
  have links : ∀ pindex object' mid cache,
      HeaderArrives crypto params outside state object.block.toCBlockHeader (.ok pindex) mid cache →
      (mid.nStatus pindex).haveData = false →
      checkArrival crypto params mid pindex { object with cache } = .ok object' →
      ∃ after, mid.receivedBlockTransactions address object'.block pindex = .ok after ∧
        Ready address after best := by
    intro pindex object' mid cache arrives missing checked
    obtain ⟨known, clean⟩ := arrives.accepted ready
    have vetted : BlockInMemory.Checked crypto params { object with cache } := sound
    obtain ⟨same, some⟩ := checkArrival_body vetted checked
    exact receivedBlockTransactions_ready (arrives.ready ready) known missing clean (same ▸ some)
      (same ▸ arrives.hasRoom room)
  obtain ⟨⟨result, after, object'⟩, done⟩ :
      ∃ done, acceptBlock crypto params address outside state object fRequested = .ok done :=
    acceptBlock_ok (fun hash member => (ready.well.failedBlocks hash member).2)
      fun pindex object' mid cache arrives missing checked =>
        (links pindex object' mid cache arrives missing checked).imp fun _ => And.left
  refine ⟨_, done, ?_⟩
  cases acceptBlock_arrives done with
  | header _ _ _ _ arrives => exact arrives.ready ready
  | failed pindex reject mid cache arrives cached missing =>
    have ready := arrives.ready ready
    have apart : ∀ {tip}, Proven mid tip → pindex ∉ mid.path tip := by
      intro tip proven member
      have linked := proven.linked pindex member
      rw [ready.well.linked pindex (path_nodes proven.known pindex member) linked] at missing
      cases missing
    exact ready.fail (apart ready.tip) (apart ready.chain)
  | stored pindex object' mid after cache arrives cached missing checked received =>
    obtain ⟨linked, received', ready⟩ := links pindex object' mid cache arrives missing checked
    obtain rfl := Except.ok.inj (received.symm.trans received')
    exact ready

end Arrive

end Dragonchain
