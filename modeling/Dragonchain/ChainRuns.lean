import Dragonchain.ChainControl

/-!
Runs of the calls that change the chain state. In a run of orderly calls the invariant
holds in every state, so that ActivateBestChain returns and its tip is the best of the
chains whose data is complete and of which no block has failed.
-/

namespace Dragonchain

open Serialization CChainState List LeafTree

variable {connectBlock : Uint256 → Bool} {header : CBlockHeader} {turns : Nat}
  {fForceProcessing : Bool} {best pindex second : Uint256}

namespace CChainState

variable {genesis : Uint256} {address : Uint256 ↪ Nat} {state after : CChainState genesis}

/-- An entry with the data of its whole chain and no failed block on it. -/
def Eligible (state : CChainState genesis) (pindex : Uint256) : Prop :=
  state.Known pindex ∧ ∀ hash ∈ state.path pindex,
    (state.nStatus hash).haveData = true ∧ (state.nStatus hash).failedValid = false

instance (state : CChainState genesis) (pindex : Uint256) : Decidable (state.Eligible pindex) :=
  inferInstanceAs (Decidable (_ ∧ ∀ hash ∈ state.path pindex, _))

variable {queue : List Uint256}

lemma Eligible.sound (well : WellLinked state queue)
    (eligible : state.Eligible pindex) : ∀ hash ∈ state.path pindex, (state.nStatus hash).failed = false := by
  intro hash member
  rw [BlockStatus.failed, (eligible.2 hash member).2, Bool.false_or]
  by_contra flagged
  have known := path_nodes eligible.1 hash member
  obtain ⟨above, upper, _, failed⟩ := well.child hash known (by simpa using flagged)
  rw [(eligible.2 above (path_trans eligible.1 member upper)).2] at failed
  cases failed

/-- Complete data is linked: otherwise the first entry that is not would wait for its parent. -/
lemma Eligible.linked (well : WellLinked state []) (root : state.nChainTx genesis ≠ 0)
    (eligible : state.Eligible pindex) : state.nChainTx pindex ≠ 0 := by
  have sound := eligible.sound well
  obtain ⟨known, complete⟩ := eligible
  induction pindex, known using state.mapBlockIndex.induct with
  | base => exact root
  | step node known parent above shape ih =>
    have onward : ∀ hash ∈ state.path parent, hash ∈ state.path node := by
      intro hash member
      rw [path, shape]
      exact mem_cons_of_mem _ member
    have upper := ih (fun hash member => sound hash (onward hash member))
      fun hash member => complete hash (onward hash member)
    intro none
    have own := self_mem_path known
    rcases well.waiting parent node known (pprev_of_path above shape) (complete node own).1 none with
      failed | waits | queued
    · rw [sound parent (onward parent (self_mem_path above))] at failed
      cases failed
    · exact upper (well.unlinked parent node waits).2.2.2
    · cases queued

lemma Proven.eligible (well : WellLinked state queue) (proven : Proven state pindex) : state.Eligible pindex := by
  refine ⟨proven.known, fun hash member => ⟨?_, ?_⟩⟩
  · exact well.linked hash (path_nodes proven.known hash member) (proven.linked hash member)
  · exact (Bool.or_eq_false_iff.mp (proven.sound hash member)).1

lemma Settled.greatest (settled : Settled address state) (eligible : state.Eligible pindex) :
    state.rank address pindex ≤ state.rank address state.tip := by
  have root := settled.ready.tip.linked _ (root_mem_path settled.ready.tip.known)
  exact settled.chosen.greatest pindex eligible.1 (eligible.linked settled.ready.well root)
    (eligible.sound settled.ready.well pindex (self_mem_path eligible.1))

lemma nChainWork_le {first : Uint256} (below : state.rank address first ≤ state.rank address second) :
    state.nChainWork first ≤ state.nChainWork second := by
  rcases (Prod.Lex.le_iff ..).mp below with less | same
  · exact less.le
  · exact same.1.le

variable (address) in
lemma start_ready : Ready address (start genesis header) genesis := by
  have alone : ∀ {hash}, (start genesis header).Known hash → hash = genesis := by
    intro hash known
    exact mem_singleton.mp known
  have proven : Proven (start genesis header) genesis := by
    refine ⟨mem_singleton.mpr rfl, ?_, ?_, ?_⟩
    all_goals intro hash member
    · exact one_ne_zero
    · rfl
    · exact Or.inl (mem_singleton.mp member)
  have well : WellLinked (start genesis header) [] := by
    refine ⟨?_, ?_, ?_, ?_, ?_, ?_, nofun, ?_, ?_, nofun⟩
    · exact fun hash member => ⟨member, one_ne_zero⟩
    · exact fun _ _ => Nat.le_succ 2
    · exact fun _ _ _ => ⟨one_ne_zero, le_rfl⟩
    · exact fun _ _ _ => rfl
    · exact fun _ _ _ _ _ => one_ne_zero
    · exact fun _ _ => le_refl 1
    · exact fun _ _ _ _ _ none => absurd none one_ne_zero
    · exact fun _ _ flagged => absurd flagged Bool.false_ne_true
  refine ⟨⟨well, proven, mem_singleton.mpr rfl, ?_⟩, proven, le_rfl⟩
  intro hash known _ _ _
  rw [alone known]
  exact mem_singleton.mpr rfl

lemma activateBestChain_done {result : Bool} (ready : Ready address state best)
    (again : state.Reaccepts connectBlock)
    (done : state.activateBestChain address connectBlock turns = .ok (result, after)) :
    Settled address after ∧ Keeps state after := by
  obtain ⟨after', settled, kept, ends⟩ := activateBestChain_settles ready again
  have same := runLoop_unique done (ends _ (Nat.lt_succ_self _))
  obtain rfl : after = after' := congrArg Prod.snd same
  exact ⟨settled, kept⟩

lemma Reaccepts.keep (again : state.Reaccepts connectBlock)
    (same : ∀ hash, after.Known hash → BLOCK_VALID_SCRIPTS ≤ (after.nStatus hash).validity →
      state.Known hash ∧ BLOCK_VALID_SCRIPTS ≤ (state.nStatus hash).validity) :
    after.Reaccepts connectBlock := by
  intro hash known valid
  obtain ⟨known, valid⟩ := same hash known valid
  exact again hash known valid

lemma movePrecious_nStatus (state : CChainState genesis) {hash : Uint256} :
    (state.movePrecious pindex).nStatus hash = state.nStatus hash := by
  rw [nStatus, movePrecious_entry]
  split_ifs <;> rfl

lemma makePrecious_moves (done : state.makePrecious address pindex = .ok after) :
    ∃ candidates, after = { state.movePrecious pindex with setBlockIndexCandidates := candidates } := by
  rw [makePrecious] at done
  simp only [pruneBlockIndexCandidates] at done
  split_ifs at done
  all_goals
    cases done
    exact ⟨_, rfl⟩

lemma Reaccepts.precious (again : state.Reaccepts connectBlock)
    (done : state.makePrecious address pindex = .ok after) : after.Reaccepts connectBlock := by
  obtain ⟨_, rfl⟩ := makePrecious_moves done
  exact again.keep fun hash listed valid => ⟨listed, state.movePrecious_nStatus ▸ valid⟩

end CChainState

section Runs
variable (crypto : Crypto) (params : CChainParams) (address : Uint256 ↪ Nat)

/-- What the calls of a run meet: blocks in memory are as CheckBlock left them, no chain reaches
2 ^ 32 transactions with the block that arrives, ConnectBlock accepts again what it has
accepted, PreciousBlock does not move its block back in the order, and
ResetBlockFailureFlags is given a block that it can reconsider. -/
def ChainCall.Orderly (state : params.State) : ChainCall → Prop
  | .acceptBlockHeader _ _ _ => True
  | .acceptBlock _ object _ => object.Checked crypto params ∧ state.HasRoom object.block.vtx.length
  | .processNewBlock _ object _ connectBlock =>
    object.Checked crypto params ∧ state.HasRoom object.block.vtx.length ∧ state.Reaccepts connectBlock
  | .activateBestChain connectBlock => state.Reaccepts connectBlock
  | .preciousBlock pindex connectBlock =>
    state.Known pindex ∧ state.Reaccepts connectBlock ∧
      (state.nChainWork state.tip ≤ state.nChainWork pindex →
        state.preciousSequenceId ≤ (state.blockIndex pindex).nSequenceId)
  | .invalidateBlock pindex => state.Known pindex
  | .resetBlockFailureFlags pindex => state.Reconsiderable pindex

instance (state : params.State) : (call : ChainCall) → Decidable (call.Orderly crypto params state)
  | .acceptBlockHeader _ _ _ => inferInstanceAs (Decidable True)
  | .acceptBlock _ _ _ => inferInstanceAs (Decidable ((_ → _ = _) ∧ _))
  | .processNewBlock _ _ _ _ => inferInstanceAs (Decidable ((_ → _ = _) ∧ _ ∧ ∀ hash ∈ _, _))
  | .activateBestChain _ => inferInstanceAs (Decidable (∀ hash ∈ _, _))
  | .preciousBlock _ _ => inferInstanceAs (Decidable (_ ∧ (∀ hash ∈ _, _) ∧ _))
  | .invalidateBlock _ => inferInstanceAs (Decidable (_ ∈ _))
  | .resetBlockFailureFlags _ => inferInstanceAs (Decidable (CChainState.Reconsiderable _ _))

/-- Every call is orderly where its turn comes. -/
def OrderlyAll (turns : Nat) : List ChainCall → params.State → Prop
  | [], _ => True
  | call :: calls, state => call.Orderly crypto params state ∧
      ∀ after ∈ (call.perform crypto params address turns state).toOption, OrderlyAll turns calls after

instance (turns : Nat) : (calls : List ChainCall) → (state : params.State) →
    Decidable (OrderlyAll crypto params address turns calls state)
  | [], _ => inferInstanceAs (Decidable True)
  | _ :: calls, _ =>
    have := fun after => instDecidableOrderlyAll turns calls after
    inferInstanceAs (Decidable (_ ∧ ∀ after ∈ _, _))

inductive OrderlyRun (header : CBlockHeader) : params.State → Prop
  | start : OrderlyRun header (.start params.consensus.hashGenesisBlock header)
  | call {state after : params.State} (call : ChainCall) (turns : Nat) (run : OrderlyRun header state)
      (orderly : call.Orderly crypto params state)
      (done : call.perform crypto params address turns state = .ok after) : OrderlyRun header after

variable {crypto params address} {state after : params.State} {outside : Surroundings}
  {object : BlockInMemory} {result : Except Reject Uint256}

lemma HeaderArrives.reaccepts {cache : Option PoWCache}
    (arrives : HeaderArrives crypto params outside state header result after cache)
    (again : state.Reaccepts connectBlock) : after.Reaccepts connectBlock := by
  cases arrives with
  | rejected | present => exact again
  | marked =>
    refine again.keep fun hash known valid => ⟨known, ?_⟩
    rwa [setFailedChild_nStatus] at valid
  | added _ fresh known =>
    refine again.keep fun hash listed valid => ?_
    by_cases same : hash = getBlockHash crypto header
    · rw [same, nStatus, addToBlockIndex_new] at valid
      exact absurd valid (not_le.mpr (show BLOCK_VALID_TREE < BLOCK_VALID_SCRIPTS by decide))
    · rw [nStatus, addToBlockIndex_entry same] at valid
      exact ⟨addToBlockIndex_known listed same, valid⟩

lemma BlockArrives.reaccepts (arrives : BlockArrives crypto params outside address state object result after)
    (again : state.Reaccepts connectBlock) : after.Reaccepts connectBlock := by
  cases arrives with
  | header _ _ _ _ arrives => exact arrives.reaccepts again
  | failed pindex reject mid cache arrives =>
    refine (arrives.reaccepts again).keep fun hash known valid => ⟨known, ?_⟩
    rwa [setFailedValid_nStatus] at valid
  | stored pindex object' mid _ cache arrives cached missing checked received =>
    have same := receivedBlockTransactions_sameFlags received
    refine (arrives.reaccepts again).keep fun hash known valid => ?_
    rw [Known, same.tree] at known
    refine ⟨known, ?_⟩
    rw [same.status, storeData_nStatus] at valid
    split_ifs at valid
    · exact BlockStatus.of_le_raiseValidity (by decide) valid
    · exact valid

variable (crypto) in
lemma withIndexCache_block {state : params.State} :
    (withIndexCache crypto params state object).block = object.block ∧
      (withIndexCache crypto params state object).fChecked = object.fChecked := by
  unfold withIndexCache
  simp only
  split_ifs <;> exact ⟨rfl, rfl⟩

lemma withIndexCache_checked {object' : BlockInMemory} (checked : object.Checked crypto params)
    (passed : (withIndexCache crypto params state object).checkBlock crypto params = .ok object') :
    object'.Checked crypto params := by
  have checked : (withIndexCache crypto params state object).Checked crypto params := by
    obtain ⟨block, flag⟩ := withIndexCache_block crypto
    rw [BlockInMemory.Checked, block, flag]
    exact checked
  intro _
  rw [checkBlock_block passed]
  exact checkBlock_body checked passed

lemma processNewBlock_cases {result : Bool}
    (done : processNewBlock crypto params address turns outside state object fForceProcessing
      connectBlock = .ok (result, after)) : after = state ∨ ∃ object' arrival,
      (withIndexCache crypto params state object).checkBlock crypto params = .ok object' ∧
      acceptBlock crypto params address outside state object' fForceProcessing = .ok arrival ∧
      (after = arrival.2.1 ∨ arrival.2.1.activateBestChain address connectBlock turns = .ok (result, after)) := by
  unfold processNewBlock at done
  split at done
  · cases done
    exact Or.inl rfl
  rename_i object' passed
  obtain ⟨⟨accepted, mid, _⟩, arrived, done⟩ := ok_of_bind done
  refine Or.inr ⟨object', _, passed, arrived, ?_⟩
  cases accepted with
  | error =>
    cases done
    exact Or.inl rfl
  | ok => exact Or.inr done

section
variable (ready : Ready address state best)
include ready

lemma processNewBlock_ready {result : Bool} (checked : object.Checked crypto params)
    (room : state.HasRoom object.block.vtx.length) (again : state.Reaccepts connectBlock)
    (done : processNewBlock crypto params address turns outside state object fForceProcessing
      connectBlock = .ok (result, after)) : ∃ best', Ready address after best' := by
  rcases processNewBlock_cases done with rfl | ⟨object', arrival, passed, arrived, done⟩
  · exact ⟨best, ready⟩
  have body : object'.block = object.block := (checkBlock_block passed).trans (withIndexCache_block crypto).1
  obtain ⟨_, arrived', ready'⟩ := acceptBlock_ready ready (withIndexCache_checked checked passed) (body ▸ room)
  obtain rfl := Except.ok.inj (arrived.symm.trans arrived')
  rcases done with rfl | done
  · exact ⟨best, ready'⟩
  · exact ⟨_, (activateBestChain_done ready' ((acceptBlock_arrives arrived).reaccepts again) done).1.ready⟩

lemma preciousBlock_ready {result : Bool} (known : state.Known pindex)
    (again : state.Reaccepts connectBlock) (sooner : state.nChainWork state.tip ≤ state.nChainWork pindex →
      state.preciousSequenceId ≤ (state.blockIndex pindex).nSequenceId)
    (done : state.preciousBlock address connectBlock turns pindex = .ok (result, after)) :
    ∃ best', Ready address after best' := by
  unfold CChainState.preciousBlock at done
  split_ifs at done with less
  · cases done
    exact ⟨best, ready⟩
  obtain ⟨moved, made, done⟩ := ok_of_bind done
  obtain ⟨moved', best', made', ready'⟩ := makePrecious_ready known (fun _ => sooner (not_lt.mp less)) ready
  obtain rfl := Except.ok.inj (made.symm.trans made')
  exact ⟨_, (activateBestChain_done ready' (again.precious made) done).1.ready⟩

lemma ChainCall.perform_ready {call : ChainCall} (orderly : call.Orderly crypto params state)
    (done : call.perform crypto params address turns state = .ok after) :
    ∃ best', Ready address after best' := by
  cases call with
  | acceptBlockHeader outside header cache =>
    obtain ⟨⟨result, _, cache'⟩, arrived, rfl⟩ := ok_of_map done
    exact ⟨best, (acceptBlockHeader_arrives arrived).1.ready ready⟩
  | acceptBlock outside object fRequested =>
    obtain ⟨arrival, arrived, rfl⟩ := ok_of_map done
    obtain ⟨arrival', arrived', ready'⟩ := acceptBlock_ready ready orderly.1 orderly.2
    obtain rfl := Except.ok.inj (arrived.symm.trans arrived')
    exact ⟨best, ready'⟩
  | processNewBlock outside object fForceProcessing connectBlock =>
    obtain ⟨⟨result, _⟩, processed, rfl⟩ := ok_of_map done
    obtain ⟨checked, room, again⟩ := orderly
    exact processNewBlock_ready ready checked room again processed
  | activateBestChain connectBlock =>
    obtain ⟨⟨result, _⟩, activated, rfl⟩ := ok_of_map done
    exact ⟨_, (activateBestChain_done ready orderly activated).1.ready⟩
  | preciousBlock pindex connectBlock =>
    obtain ⟨⟨result, _⟩, moved, rfl⟩ := ok_of_map done
    obtain ⟨known, again, sooner⟩ := orderly
    exact preciousBlock_ready ready known again sooner moved
  | invalidateBlock pindex =>
    cases done
    exact invalidateBlock_ready orderly ready
  | resetBlockFailureFlags pindex =>
    cases done
    exact ⟨best, resetBlockFailureFlags_ready orderly ready⟩

end

variable (run : OrderlyRun crypto params address header state)
include run

lemma OrderlyRun.ready : ∃ best, Ready address state best := by
  induction run with
  | start => exact ⟨_, start_ready address⟩
  | call call turns run orderly done ih =>
    obtain ⟨best, ready⟩ := ih
    exact call.perform_ready ready orderly done

lemma OrderlyRun.performAll {calls : List ChainCall} (orderly : OrderlyAll crypto params address turns calls state)
    (done : Dragonchain.performAll crypto params address turns calls state = .ok after) :
    OrderlyRun crypto params address header after := by
  induction calls generalizing state with
  | nil =>
    cases done
    exact run
  | cons call calls ih =>
    obtain ⟨mid, performed, done⟩ := ok_of_bind done
    obtain ⟨first, later⟩ := orderly
    exact ih (run.call call turns first performed) (later mid (by rw [performed]; rfl)) done

omit run

/-- The tip beats every other chain with complete data and without a failed block, and no
block of the active chain has a failure flag. -/
structure BestChain (address : Uint256 ↪ Nat) (state : params.State) : Prop where
  eligible : state.Eligible state.tip
  greatest : ∀ pindex, state.Eligible pindex → pindex ≠ state.tip →
    state.workComparator address pindex state.tip = true
  sound : ∀ hash ∈ state.chainActive, (state.nStatus hash).failed = false

theorem OrderlyRun.activates_bestChain {header : CBlockHeader} (run : OrderlyRun crypto params address header state)
    (again : state.Reaccepts connectBlock) : ∃ after bound, BestChain address after ∧
      ∀ turns, bound < turns → state.activateBestChain address connectBlock turns = .ok (true, after) := by
  obtain ⟨best, ready⟩ := run.ready
  obtain ⟨after, settled, _, ends⟩ := activateBestChain_settles ready again
  refine ⟨after, _, ⟨settled.ready.tip.eligible settled.ready.well, ?_, settled.ready.tip.sound⟩, ends⟩
  intro pindex eligible apart
  refine (workComparator_iff after).mpr (lt_of_le_of_ne (settled.greatest eligible) ?_)
  exact fun same => apart (after.rank_injective same)

/-- Assertions of CheckBlockIndex, which hold between any two calls. -/
theorem OrderlyRun.index_checked {header : CBlockHeader} (run : OrderlyRun crypto params address header state) :
    (∀ hash ∈ state.chainActive, (state.nStatus hash).haveData = true ∧ (state.nStatus hash).failed = false ∧
      (hash = params.consensus.hashGenesisBlock ∨ BLOCK_VALID_SCRIPTS ≤ (state.nStatus hash).validity)) ∧
    (∀ pindex, state.Known pindex → (∀ hash ∈ state.path pindex, (state.nStatus hash).failedValid = false) →
      (state.nChainTx pindex ≠ 0 ↔ ∀ hash ∈ state.path pindex, (state.nStatus hash).haveData = true)) ∧
    (∀ pindex, state.Known pindex → (state.nStatus pindex).failed = true →
      ∃ above ∈ state.path pindex, (state.nStatus above).failedValid = true) ∧
    ∀ pprev pindex, (pprev, pindex) ∈ state.mapBlocksUnlinked →
      (state.nStatus pindex).haveData = true ∧ state.nChainTx pprev = 0 := by
  obtain ⟨best, ready⟩ := run.ready
  have eligible := ready.tip.eligible ready.well
  refine ⟨fun hash listed => ?_, fun pindex known valid => ⟨fun linked hash member => ?_, fun data => ?_⟩,
    fun pindex known failed => ?_, fun pprev pindex waits => (ready.well.unlinked pprev pindex waits).2.2⟩
  · exact ⟨(eligible.2 hash listed).1, ready.tip.sound hash listed, ready.tip.verified hash listed⟩
  · exact ready.well.linked hash (path_nodes known hash member) (ready.well.path_linked known linked hash member)
  · exact Eligible.linked ready.well (ready.tip.linked _ (root_mem_path ready.tip.known))
      ⟨known, fun hash member => ⟨data hash member, valid hash member⟩⟩
  · rcases Bool.or_eq_true_iff.mp failed with own | child
    · exact ⟨pindex, self_mem_path known, own⟩
    · obtain ⟨above, upper, _, first⟩ := ready.well.child pindex known child
      exact ⟨above, upper, first⟩

end Runs

namespace Ties

open Sample

/-- Three blocks of the same work are made precious one after the other, so that the last of
them is the tip. It is invalidated, and PreciousBlock of the genesis block then takes the
work of that block for the last precious one. -/
def precious : List ChainCall :=
  [.acceptBlock outside { block := block genesis 1 1 1 } true,
   .acceptBlock outside { block := block genesis 1 1 2 } true,
   .acceptBlock outside { block := block genesis 1 1 3 } true,
   .activateBestChain accepts,
   .preciousBlock (hash (block genesis 1 1 1)) accepts,
   .preciousBlock (hash (block genesis 1 1 2)) accepts,
   .preciousBlock (hash (block genesis 1 1 3)) accepts,
   .invalidateBlock (hash (block genesis 1 1 3)),
   .preciousBlock genesis accepts]

theorem activates_after_precious : ∃ state, performAll Crypto.suffixes (params []) address 20 precious
        (Sample.start []) = .ok state ∧ (state.nStatus (hash (block genesis 1 1 3))).failedValid = true ∧
      OrderlyRun Crypto.suffixes (params []) address genesisHeader state ∧
      ∃ after bound, BestChain address after ∧
        ∀ turns, bound < turns → state.activateBestChain address accepts turns = .ok (true, after) := by
  obtain ⟨state, done, failed, orderly⟩ : ∃ state, performAll Crypto.suffixes (params []) address 20 precious
      (Sample.start []) = .ok state ∧ (state.nStatus (hash (block genesis 1 1 3))).failedValid = true ∧
        OrderlyAll Crypto.suffixes (params []) address 20 precious (Sample.start []) := by decide +kernel
  have run : OrderlyRun Crypto.suffixes (params []) address genesisHeader state :=
    OrderlyRun.start.performAll orderly done
  exact ⟨state, done, failed, run, run.activates_bestChain fun _ _ _ => rfl⟩

/-- PreciousBlock of the tip now starts over from -1, which moves the tip back behind a block
that is no candidate any more. -/
theorem precious_tip_overtaken : ∃ state after, performAll Crypto.suffixes (params []) address 20
        (precious ++ [.preciousBlock (hash (block genesis 1 1 2)) accepts]) (Sample.start []) = .ok state ∧
      state.activateBestChain address accepts 20 = .ok (true, after) ∧
      after.Eligible (hash (block genesis 1 1 1)) ∧
      after.workComparator address after.tip (hash (block genesis 1 1 1)) = true := by
  obtain ⟨state, done, ⟨_, after⟩, activated, rfl, overtaken⟩ : ∃ state, performAll Crypto.suffixes (params [])
      address 20 (precious ++ [.preciousBlock (hash (block genesis 1 1 2)) accepts]) (Sample.start []) = .ok state ∧
        ∃ result, state.activateBestChain address accepts 20 = .ok result ∧ true = result.1 ∧
          result.2.Eligible (hash (block genesis 1 1 1)) ∧
          result.2.workComparator address result.2.tip (hash (block genesis 1 1 1)) = true := by decide +kernel
  exact ⟨state, after, done, activated, overtaken⟩

end Ties

section Resets
variable {crypto : Crypto} {params : CChainParams} {address : Uint256 ↪ Nat}
  {state after : params.State}

/-- After ResetBlockFailureFlags and ActivateBestChain, every BLOCK_FAILED_CHILD stands for
a failed ancestor, and no chain without a failed block has more work than the tip. -/
theorem OrderlyRun.reconsiders_soundly {header : CBlockHeader} {pindex : Uint256} {turns : Nat}
    (run : OrderlyRun crypto params address header state) (reconsiderable : state.Reconsiderable pindex)
    (again : state.Reaccepts connectBlock)
    (done : (state.resetBlockFailureFlags address pindex).activateBestChain address connectBlock turns =
      .ok (true, after)) : (∀ hash, after.Known hash → (after.nStatus hash).failedChild = true →
      ∃ above ∈ after.path hash, above ≠ hash ∧ (after.nStatus above).failedValid = true) ∧
    ∀ hash, after.Eligible hash → after.nChainWork hash ≤ after.nChainWork after.tip := by
  obtain ⟨best, ready⟩ := run.ready
  obtain ⟨met, whole, clears⟩ := resetBlockFailureFlags_clears ready.well reconsiderable
  have again : (state.resetBlockFailureFlags address pindex).Reaccepts connectBlock :=
    again.keep fun hash known valid => ⟨(clears.known hash).mp known, clears.validity hash ▸ valid⟩
  have settled := (activateBestChain_done (resetBlockFailureFlags_ready reconsiderable ready) again done).1
  exact ⟨settled.ready.well.child, fun hash eligible => nChainWork_le (settled.greatest eligible)⟩

end Resets

namespace Siblings

open Sample

def parent : CBlock := block genesis 1 1 1
def active : CBlock := block (hash parent) 2 2 1
def sibling : CBlock := block (hash parent) 2 2 2
def longer : CBlock := block (hash active) 3 3 1

/-- Two branches from one parent, of which the longer one is active. -/
def arrivals : List ChainCall :=
  [.acceptBlock outside { block := parent } true, .acceptBlock outside { block := active } true,
   .acceptBlock outside { block := sibling } true, .acceptBlock outside { block := longer } true,
   .activateBestChain accepts]

lemma arrivals_orderly : OrderlyAll Crypto.suffixes (params []) address 20 arrivals (Sample.start []) := by
  decide +kernel

theorem arrivals_checked : ∃ state, performAll Crypto.suffixes (params []) address 20 arrivals (Sample.start []) =
      .ok state ∧ hash longer ∈ state.chainActive ∧
    ∀ hash ∈ state.chainActive, (state.nStatus hash).haveData = true ∧ (state.nStatus hash).failed = false := by
  obtain ⟨state, done, listed⟩ : ∃ state, performAll Crypto.suffixes (params []) address 20 arrivals
    (Sample.start []) = .ok state ∧ hash longer ∈ state.chainActive := by decide +kernel
  have checked := (OrderlyRun.start.performAll arrivals_orderly done).index_checked.1
  exact ⟨state, done, listed, fun hash member => ⟨(checked hash member).1, (checked hash member).2.1⟩⟩

theorem reconsiders_parent : ∃ state after, OrderlyRun Crypto.suffixes (params []) address genesisHeader state ∧
      state.Reconsiderable (hash parent) ∧ (state.nStatus (hash active)).failedChild = true ∧
      (state.resetBlockFailureFlags address (hash parent)).activateBestChain address accepts 20 =
        .ok (true, after) ∧ (∀ hash, after.Known hash → (after.nStatus hash).failedChild = true →
        ∃ above ∈ after.path hash, above ≠ hash ∧ (after.nStatus above).failedValid = true) ∧
      ∀ hash, after.Eligible hash → after.nChainWork hash ≤ after.nChainWork after.tip := by
  obtain ⟨state, done, known, invalid, invalidated, ⟨listed, clean⟩, linked, flagged, ⟨_, after⟩, activated, rfl⟩ :
      ∃ state, performAll Crypto.suffixes (params []) address 20 arrivals (Sample.start []) = .ok state ∧
        state.Known (hash parent) ∧ ∃ invalid, (ChainCall.invalidateBlock (hash parent)).perform Crypto.suffixes
          (params []) address 20 state = .ok invalid ∧ (invalid.Known (hash parent) ∧
          ∀ above ∈ invalid.path (hash parent), above ≠ hash parent → (invalid.nStatus above).failedValid = false) ∧
          (∀ other ∈ invalid.mapBlockIndex.nodes, invalid.nChainTx other ≠ 0) ∧
          (invalid.nStatus (hash active)).failedChild = true ∧
          ∃ result, (invalid.resetBlockFailureFlags address (hash parent)).activateBestChain address accepts 20 =
            .ok result ∧ true = result.1 := by decide +kernel
  have run : OrderlyRun Crypto.suffixes (params []) address genesisHeader invalid :=
    (OrderlyRun.start.performAll arrivals_orderly done).call (.invalidateBlock (hash parent)) 20 known invalidated
  have reconsiderable : invalid.Reconsiderable (hash parent) :=
    ⟨listed, clean, fun _ other known _ _ _ none => absurd none (linked other known)⟩
  exact ⟨invalid, after, run, reconsiderable, flagged, activated,
    run.reconsiders_soundly reconsiderable (fun _ _ _ => rfl) activated⟩

/-- The parent is invalidated, and ResetBlockFailureFlags of the other branch clears it alone:
the branch that was active keeps its flags without a failed ancestor, and the shorter one wins. -/
theorem sibling_left_behind : ∃ state after, performAll Crypto.suffixes (params []) address 20
        (arrivals ++ [.invalidateBlock (hash parent)]) (Sample.start []) = .ok state ∧
      (state.resetBlockFailureFlags address (hash sibling)).activateBestChain address accepts 20 =
        .ok (true, after) ∧ ((after.nStatus (hash active)).failedChild = true ∧
        ∀ above ∈ after.path (hash active), (after.nStatus above).failedValid = false) ∧
      after.Eligible (hash longer) ∧ after.nChainWork after.tip < after.nChainWork (hash longer) := by
  obtain ⟨state, done, ⟨_, after⟩, activated, rfl, behind⟩ : ∃ state, performAll Crypto.suffixes (params [])
      address 20 (arrivals ++ [.invalidateBlock (hash parent)]) (Sample.start []) = .ok state ∧
        ∃ result, (state.resetBlockFailureFlags address (hash sibling)).activateBestChain address accepts 20 =
          .ok result ∧ true = result.1 ∧ ((result.2.nStatus (hash active)).failedChild = true ∧
            ∀ above ∈ result.2.path (hash active), (result.2.nStatus above).failedValid = false) ∧
            result.2.Eligible (hash longer) ∧
            result.2.nChainWork result.2.tip < result.2.nChainWork (hash longer) := by decide +kernel
  exact ⟨state, after, done, activated, behind⟩

end Siblings

end Dragonchain
