import Mathlib.Data.List.Count
import Dragonchain.ChainInvariant

/-!
ActivateBestChain from a state that is `Ready`: it ends, no assertion of it fails, and
it leaves the best usable chain active. The argument follows the code: what the walk of
FindMostWorkChain finds, what one step towards the chosen chain does, and the measure
that goes down with every turn.
-/

namespace Dragonchain

open List LeafTree Bool

variable {genesis best pindex target pindexNew fork : Uint256} {connectBlock more : Uint256 → Bool}
  {todo back front : List Uint256}

namespace CChainState

variable {address : Uint256 ↪ Nat} {state state' : CChainState genesis}

lemma firstUnusable_cons (rest : List Uint256) (linked : state.nChainTx pindex ≠ 0)
    (data : (state.nStatus pindex).haveData = true) :
    state.firstUnusable (pindex :: rest) = if pindex ∈ state.chainActive then .ok none
      else if (state.nStatus pindex).failed then .ok (some pindex)
      else state.firstUnusable rest := by
  rw [firstUnusable, if_neg (fun both : _ ∧ _ => linked both.1), data]
  simp

lemma Ready.firstUnusable (ready : Ready address state best) (known : state.Known pindex)
    (linked : state.nChainTx pindex ≠ 0) :
    (∃ failed ∈ state.path pindex, state.firstUnusable (state.path pindex) = .ok (some failed) ∧
      (state.nStatus failed).failed = true) ∨ (state.firstUnusable (state.path pindex) = .ok none ∧
      ∀ hash ∈ state.path pindex, (state.nStatus hash).failed = false) := by
  have whole : ∀ {node}, node ∈ state.chainActive → ∀ hash ∈ state.path node, (state.nStatus hash).failed = false :=
    fun active hash member => ready.tip.sound hash (path_trans ready.tip.known active member)
  induction pindex, known using state.mapBlockIndex.induct with
  | base =>
    have root := state.mapBlockIndex.path_root
    have active : genesis ∈ state.chainActive := root_mem_path ready.tip.known
    have data := ready.well.linked genesis state.mapBlockIndex.root_mem linked
    right
    refine ⟨?_, whole active⟩
    rw [path, root, firstUnusable_cons _ linked data, if_pos active]
  | step node known parent above shape ih =>
    have upper := ready.well.parents parent node known (pprev_of_path above shape) linked
    have data := ready.well.linked node known linked
    have turn := firstUnusable_cons (state.path parent) linked data
    rw [path, shape]
    by_cases active : node ∈ state.chainActive
    · rw [if_pos active] at turn
      refine Or.inr ⟨turn, fun hash member => whole active hash ?_⟩
      rw [path, shape]
      exact member
    · rw [if_neg active] at turn
      by_cases failed : (state.nStatus node).failed = true
      · rw [if_pos failed] at turn
        exact Or.inl ⟨node, mem_cons_self, turn, failed⟩
      · rw [if_neg failed] at turn
        rcases ih upper with ⟨stop, member, found, flagged⟩ | ⟨found, sound⟩
        · exact Or.inl ⟨stop, mem_cons_of_mem _ member, turn.trans found, flagged⟩
        · refine Or.inr ⟨turn.trans found, ?_⟩
          rintro hash (_ | ⟨_, member⟩)
          · simpa using failed
          · exact sound hash member

/-- What FindMostWorkChain does to the state: it drops candidates and flags descendants. -/
structure Marks (state state' : CChainState genesis) : Prop where
  keeps : Keeps state state'
  tip : state'.tip = state.tip
  validity : ∀ hash, (state'.nStatus hash).validity = (state.nStatus hash).validity
  failedValid : ∀ hash, (state'.nStatus hash).failedValid = (state.nStatus hash).failedValid

lemma Marks.refl (state : CChainState genesis) : Marks state state :=
  ⟨.of_entries rfl rfl rfl, rfl, fun _ => rfl, fun _ => rfl⟩

lemma Marks.trans {first second third : CChainState genesis} (one : Marks first second)
    (two : Marks second third) : Marks first third :=
  ⟨one.keeps.trans two.keeps, two.tip.trans one.tip,
    fun hash => (two.validity hash).trans (one.validity hash),
    fun hash => (two.failedValid hash).trans (one.failedValid hash)⟩

lemma dropCandidate_failed {failed : Uint256} (flagged : (state.nStatus failed).failed = true) :
    state.dropCandidate pindex failed =
      { state.setFailedChild ((state.path pindex).takeWhile fun hash => hash ≠ failed) with
        setBlockIndexCandidates := state.setBlockIndexCandidates.filter fun other =>
          !decide (other ∈ (state.path pindex).takeWhile (fun hash => hash ≠ failed) ∨ other = failed) } :=
  if_pos flagged

variable (ready : Ready address state best)
include ready

lemma Ready.dropCandidate {failed : Uint256} (known : state.Known pindex)
    (listed : failed ∈ state.path pindex) (flagged : (state.nStatus failed).failed = true) :
    Ready address (state.dropCandidate pindex failed) best ∧ Marks state (state.dropCandidate pindex failed) := by
  have below : ∀ hash ∈ (state.path pindex).takeWhile (fun hash => hash ≠ failed),
      state.Known hash ∧ failed ∈ state.path hash ∧ hash ≠ failed := by
    intro hash walked
    obtain ⟨lower, above, other⟩ := (mem_takeWhile_path known listed).mp walked
    exact ⟨path_nodes known hash lower, above, other⟩
  have marked := ready.flagBelow flagged below
  rw [dropCandidate_failed flagged]
  generalize (state.path pindex).takeWhile (fun hash => hash ≠ failed) = walk at below marked ⊢
  have kept := keeps_setFailedChild state walk
  constructor
  · refine marked.withCandidates (fun other member => (mem_filter.mp member).1) ?_
    intro other member sound _
    refine mem_filter.mpr ⟨member, ?_⟩
    simp only [not_eq_true', decide_eq_false_iff_not]
    rintro (walked | rfl)
    · simp [setFailedChild_nStatus, BlockStatus.failed, walked] at sound
    · rw [(kept.entries other).failed flagged] at sound
      cases sound
  · have status := setFailedChild_nStatus state walk
    exact ⟨kept.trans (.of_entries rfl rfl rfl), rfl,
      fun hash => (congrArg BlockStatus.validity (status hash)).trans rfl,
      fun hash => (congrArg BlockStatus.failedValid (status hash)).trans rfl⟩

/-- The chain that FindMostWorkChain returns: usable, and no usable entry is better. -/
structure Chosen (address : Uint256 ↪ Nat) (state : CChainState genesis) (pindex : Uint256) : Prop where
  known : state.Known pindex
  linked : ∀ hash ∈ state.path pindex, state.nChainTx hash ≠ 0
  sound : ∀ hash ∈ state.path pindex, (state.nStatus hash).failed = false
  greatest : ∀ other, state.Known other → state.nChainTx other ≠ 0 →
    (state.nStatus other).failed = false → state.rank address other ≤ state.rank address pindex

lemma Ready.last : ∃ pindex, state.last address state.setBlockIndexCandidates = some pindex ∧
      pindex ∈ state.setBlockIndexCandidates ∧
      ∀ other, state.Known other → state.nChainTx other ≠ 0 → (state.nStatus other).failed = false →
        state.rank address other ≤ state.rank address pindex := by
  cases found : state.last address state.setBlockIndexCandidates with
  | none =>
    have none := state.last_none found
    have member := ready.member
    rw [none] at member
    cases member
  | some pindex =>
    obtain ⟨member, greatest⟩ := state.last_greatest found
    refine ⟨pindex, rfl, member, fun other known linked sound => ?_⟩
    rcases le_total (state.rank address best) (state.rank address other) with better | worse
    · exact greatest other (ready.complete other known linked sound better)
    · exact worse.trans (greatest best ready.member)

lemma findMostWorkChain_finds :
    ∃ pindex state', state.findMostWorkChain address = .ok (some pindex, state') ∧
      Ready address state' best ∧ Marks state state' ∧ Chosen address state' pindex := by
  have body : ∀ current, Ready address current best ∧ Marks state current →
      (∃ result, findMostWorkTurn address current = .ok (.inl result) ∧
        ∃ pindex, result.1 = some pindex ∧ Ready address result.2 best ∧ Marks state result.2 ∧
          Chosen address result.2 pindex) ∨
      (∃ next, findMostWorkTurn address current = .ok (.inr next) ∧
        (Ready address next best ∧ Marks state next) ∧
        next.setBlockIndexCandidates.length < current.setBlockIndexCandidates.length) := by
    rintro current ⟨ready, marks⟩
    obtain ⟨pindex, last, member, greatest⟩ := ready.last
    obtain ⟨known, linked⟩ := ready.well.candidates pindex member
    simp only [findMostWorkTurn, last]
    rcases ready.firstUnusable known linked with ⟨failed, listed, found, flagged⟩ | ⟨found, sound⟩
    · right
      obtain ⟨dropped, marked⟩ := ready.dropCandidate known listed flagged
      refine ⟨_, by rw [found], ⟨dropped, marks.trans marked⟩, ?_⟩
      rw [dropCandidate_failed flagged]
      refine length_filter_lt_length_iff_exists.mpr ⟨pindex, member, ?_⟩
      obtain ⟨rest, shape⟩ := path_cons known
      by_cases same : pindex = failed <;> simp [path, shape, same]
    · left
      exact ⟨_, by rw [found], pindex, rfl, ready, marks, known,
        ready.well.path_linked known linked, sound, greatest⟩
  obtain ⟨⟨found, after⟩, ⟨pindex, rfl, ready', marks, chosen⟩, ends⟩ :=
    runLoop_ends _ _ body ⟨ready, Marks.refl state⟩
  exact ⟨pindex, after, ends _ (Nat.lt_succ_self _), ready', marks, chosen⟩

omit ready

lemma Chosen.keep (chosen : Chosen address state pindex) (kept : Keeps state state')
    (sound : ∀ hash ∈ state.path pindex, (state'.nStatus hash).failed = false) :
    Chosen address state' pindex where
  known := (kept.known pindex).mpr chosen.known
  linked hash member := by
    rw [kept.path] at member
    rw [kept.nChainTx]
    exact chosen.linked hash member
  sound hash member := sound hash (kept.path pindex ▸ member)
  greatest other known linked sound := by
    rw [kept.rank, kept.rank]
    rw [kept.nChainTx] at linked
    exact chosen.greatest other ((kept.known other).mp known) linked (kept.sound sound)

lemma pruneBlockIndexCandidates_ready (ready : Ready address state best) :
    ∃ kept, state.pruneBlockIndexCandidates address = .ok { state with setBlockIndexCandidates := kept } ∧
      Ready address { state with setBlockIndexCandidates := kept } best := by
  let kept := state.setBlockIndexCandidates.filter fun other => !state.workComparator address other state.tip
  have stays : ∀ other ∈ state.setBlockIndexCandidates,
      state.rank address best ≤ state.rank address other → other ∈ kept := by
    intro other member better
    refine mem_filter.mpr ⟨member, ?_⟩
    rw [state.workComparator_false.mpr (ready.above.trans better)]
    rfl
  have present : kept.isEmpty = false := isEmpty_eq_false_iff_exists_mem.mpr ⟨best, stays best ready.member le_rfl⟩
  refine ⟨kept, ?_, ?_⟩
  · exact if_neg (by rw [present]; exact Bool.false_ne_true)
  · exact ready.withCandidates (fun other member => (mem_filter.mp member).1)
      fun other member _ better => stays other member better

/-- ConnectBlock accepts again what it has accepted before. -/
def Reaccepts (state : CChainState genesis) (connectBlock : Uint256 → Bool) : Prop :=
  ∀ hash, state.Known hash → BLOCK_VALID_SCRIPTS ≤ (state.nStatus hash).validity → connectBlock hash = true

/-- The entries that a failed ConnectBlock can still mark. -/
def unfailed (state : CChainState genesis) : Nat :=
  (state.mapBlockIndex.nodes.filter fun hash => !(state.nStatus hash).failedValid).length

lemma unfailed_eq (kept : Keeps state state')
    (same : ∀ hash, (state'.nStatus hash).failedValid = (state.nStatus hash).failedValid) :
    state'.unfailed = state.unfailed := by
  simp [unfailed, kept.tree, same]

lemma unfailed_lt (kept : Keeps state state') (known : state.Known pindex)
    (before : (state.nStatus pindex).failedValid = false)
    (now : (state'.nStatus pindex).failedValid = true) : state'.unfailed < state.unfailed := by
  have narrower : state.mapBlockIndex.nodes.filter (fun hash => !(state'.nStatus hash).failedValid) =
      (state.mapBlockIndex.nodes.filter fun hash => !(state.nStatus hash).failedValid).filter
        fun hash => !(state'.nStatus hash).failedValid := by
    rw [filter_filter]
    refine filter_congr fun hash _ => ?_
    have grows := (kept.entries hash).failedValid
    cases first : (state.nStatus hash).failedValid with
    | false => simp
    | true => simp [nStatus, grows first]
  rw [unfailed, kept.tree, narrower]
  refine length_filter_lt_length_iff_exists.mpr ⟨pindex, ?_, by simp [now]⟩
  exact mem_filter.mpr ⟨known, by simp [before]⟩

section Connect
abbrev raiseScripts (state : CChainState genesis) (pindexNew : Uint256) : CChainState genesis :=
  state.modify pindexNew fun entry => { entry with nStatus := entry.nStatus.raiseValidity BLOCK_VALID_SCRIPTS }

lemma connected_keeps : Keeps state (state.raiseScripts pindexNew) := by
  refine .modify state ?_ fun _ => rfl
  rw [BlockStatus.raiseValidity_eq]
  exact ⟨rfl, rfl, fun _ => rfl, rfl, id, BlockStatus.le_raiseValidity .., id, id⟩

lemma connected_nStatus (state : CChainState genesis) (pindexNew other : Uint256) :
    (state.raiseScripts pindexNew).nStatus other =
      { state.nStatus other with
        validity := if other = pindexNew then
            ((state.nStatus other).raiseValidity BLOCK_VALID_SCRIPTS).validity
          else (state.nStatus other).validity } := by
  rw [nStatus, modify_entry]
  split_ifs
  · exact BlockStatus.raiseValidity_eq ..
  · rfl

lemma connectTip_accepted (ready : Ready address state best) (chosen : Chosen address state target)
    (again : state.Reaccepts connectBlock) (listed : pindex ∈ state.path target)
    (shape : state.path pindex = pindex :: state.path state.tip) (accepts : connectBlock pindex = true) :
    ∃ after best', state.connectTip address connectBlock pindex = .ok (true, after) ∧
      Ready address after best' ∧ Keeps state after ∧ after.Reaccepts connectBlock ∧
      Chosen address after target ∧ after.unfailed = state.unfailed ∧ after.tip = pindex := by
  let raised := state.raiseScripts pindex
  have kept : Keeps state raised := connected_keeps
  have status := state.connected_nStatus pindex
  have sameFailed : ∀ hash, (raised.nStatus hash).failed = (state.nStatus hash).failed :=
    fun hash => (congrArg BlockStatus.failed (status hash)).trans rfl
  have well : WellLinked raised [] := by
    refine ready.well.keep kept.toGrows (fun _ => id) ?_ (fun _ => Or.inl) ?_ (fun _ => Or.inl)
    · intro hash _ held
      rw [status] at held
      exact Or.inl held
    · intro hash _ child
      rw [status] at child
      exact Or.inl child
  have readyRaised : Ready address raised best :=
    ready.keep kept well rfl (fun hash member => (sameFailed hash).trans (ready.tip.sound hash member))
      (fun hash member => (sameFailed hash).trans (ready.chain.sound hash member)) (fun _ member _ => member)
  have known := path_nodes chosen.known pindex listed
  have sound := chosen.sound pindex listed
  have proven : Proven raised pindex := by
    refine ⟨known, ?_, ?_, ?_⟩
    all_goals
      rw [kept.path, shape]
      rintro hash (_ | ⟨_, member⟩)
    · rw [kept.nChainTx]
      exact chosen.linked pindex listed
    · exact readyRaised.tip.linked hash member
    · exact (sameFailed pindex).trans sound
    · exact readyRaised.tip.sound hash member
    · right
      rw [status, if_pos rfl]
      exact BlockStatus.raiseValidity_reaches _ _ sound
    · exact readyRaised.tip.verified hash member
  obtain ⟨best', ready'⟩ := readyRaised.moveTip proven
  have moved : Keeps state { raised with tip := pindex } := kept.trans (.of_entries rfl rfl rfl)
  refine ⟨{ raised with tip := pindex }, best', ?_, ready', moved, ?_, ?_,
    unfailed_eq moved fun hash => (congrArg BlockStatus.failedValid (status hash)).trans rfl, rfl⟩
  · have parent : state.pprev pindex = some state.tip := pprev_of_path ready.tip.known shape
    rw [connectTip, if_neg (not_not.mpr parent), if_pos accepts]
  · intro hash listed valid
    by_cases same : hash = pindex
    · rw [same]
      exact accepts
    · refine again hash listed ?_
      have held : (raised.nStatus hash).validity = (state.nStatus hash).validity := by rw [status, if_neg same]
      exact held ▸ valid
  · exact chosen.keep moved fun hash member => (sameFailed hash).trans (chosen.sound hash member)

lemma mem_invalidBlockFound {other : Uint256} :
    other ∈ (state.invalidBlockFound address pindex).g_failed_blocks ↔
      other = pindex ∨ other ∈ state.g_failed_blocks := by
  simp only [CChainState.invalidBlockFound]
  split_ifs with already
  · exact ⟨Or.inr, fun member => member.elim (fun same => same ▸ already) id⟩
  · exact mem_orderedInsert _

lemma Ready.invalidBlockFound (ready : Ready address state best) (known : state.Known pindex)
    (tip : pindex ∉ state.path state.tip) (chain : pindex ∉ state.path best) :
    Ready address (state.invalidBlockFound address pindex) best := by
  have marked : ((state.setFailedValid pindex).nStatus pindex).failedValid = true := by
    simp [setFailedValid_nStatus]
  have failed := ready.fail tip chain
  have kept : Keeps (state.setFailedValid pindex) (state.invalidBlockFound address pindex) :=
    .of_entries rfl rfl rfl
  have well : WellLinked (state.invalidBlockFound address pindex) [] := by
    refine failed.well.keep kept.toGrows (fun _ => id) (fun _ _ => Or.inl)
      (fun _ member => Or.inl (mem_filter.mp member).1) (fun _ _ => Or.inl) ?_
    intro other member
    rcases mem_invalidBlockFound.mp member with rfl | before
    · exact Or.inr ⟨known, marked⟩
    · exact Or.inl before
  refine failed.keep kept well rfl failed.tip.sound failed.chain.sound ?_
  intro other member sound
  refine mem_filter.mpr ⟨member, decide_eq_true ?_⟩
  rintro rfl
  have flagged : ((state.setFailedValid other).nStatus other).failed = true := by
    rw [BlockStatus.failed, marked, Bool.true_or]
  exact Bool.false_ne_true (sound.symm.trans flagged)

/-- The same block where ConnectBlock rejects it: it has not been verified before, so the
chains that have been are not touched. -/
lemma connectTip_rejected (ready : Ready address state best) (chosen : Chosen address state target)
    (again : state.Reaccepts connectBlock) (listed : pindex ∈ state.path target)
    (shape : state.path pindex = pindex :: state.path state.tip) (rejects : connectBlock pindex = false) :
    ∃ after, state.connectTip address connectBlock pindex = .ok (false, after) ∧
      Ready address after best ∧ Keeps state after ∧ after.Reaccepts connectBlock ∧
      after.unfailed < state.unfailed := by
  have known := path_nodes chosen.known pindex listed
  have lower : pindex ∉ state.path state.tip := by
    have nodup := path_nodup known
    rw [show state.mapBlockIndex.path pindex = _ from shape] at nodup
    exact (nodup_cons.mp nodup).1
  have other : pindex ≠ genesis := by
    rintro rfl
    exact lower (root_mem_path ready.tip.known)
  have apart : pindex ∉ state.path best := by
    intro member
    rcases ready.chain.verified pindex member with root | valid
    · exact other root
    · rw [again pindex known valid] at rejects
      cases rejects
  have kept : Keeps state (state.invalidBlockFound address pindex) :=
    (keeps_setFailedValid state pindex).trans (.of_entries rfl rfl rfl)
  have status : ∀ hash, (state.invalidBlockFound address pindex).nStatus hash =
      { state.nStatus hash with
        failedValid := decide (hash = pindex) || (state.nStatus hash).failedValid } :=
    setFailedValid_nStatus state pindex
  refine ⟨state.invalidBlockFound address pindex, ?_, ready.invalidBlockFound known lower apart, kept, ?_, ?_⟩
  · have parent : state.pprev pindex = some state.tip := pprev_of_path ready.tip.known shape
    rw [connectTip, if_neg (not_not.mpr parent), rejects, if_neg Bool.false_ne_true]
  · intro hash held valid
    refine again hash held ?_
    rwa [status] at valid
  · refine unfailed_lt kept known ?_ ?_
    · have sound := chosen.sound pindex listed
      exact (or_eq_false_iff.mp sound).1
    · simp [status]

/-- How far connecting blocks towards the target came: a block was marked, or the tip is
on the way, and further along unless nothing was left to connect. -/
def Advanced (address : Uint256 ↪ Nat) (target : Uint256) (state after : CChainState genesis)
    (left : Nat) (fInvalidFound : Bool) : Prop :=
  if fInvalidFound then after.unfailed < state.unfailed
  else Chosen address after target ∧ after.unfailed = state.unfailed ∧
    ∃ front, after.path target = front ++ after.path after.tip ∧ front.length ≤ left - 1

lemma connectBlocks_advances {nOldWork : Nat} (ready : Ready address state best)
    (chosen : Chosen address state target) (again : state.Reaccepts connectBlock)
    (split : state.path target = todo.reverse ++ state.path state.tip) :
    ∃ fInvalidFound after best', connectBlocks address connectBlock nOldWork todo state =
        .ok (fInvalidFound, after) ∧
      Ready address after best' ∧ Keeps state after ∧ after.Reaccepts connectBlock ∧
      Advanced address target state after todo.length fInvalidFound := by
  induction todo generalizing state best with
  | nil =>
    exact ⟨false, state, best, rfl, ready, .of_entries rfl rfl rfl, again, chosen, rfl, [], split, Nat.zero_le _⟩
  | cons pindex rest ih =>
    rw [reverse_cons, append_assoc] at split
    have shape : state.path pindex = pindex :: state.path state.tip := path_of_split chosen.known split
    have listed : pindex ∈ state.path target := by
      rw [split]
      exact mem_append_right _ mem_cons_self
    cases accepts : connectBlock pindex with
    | false =>
      obtain ⟨after, connects, ready', kept, again', fewer⟩ :=
        connectTip_rejected ready chosen again listed shape accepts
      refine ⟨true, after, best, ?_, ready', kept, again', fewer⟩
      rw [connectBlocks, connects]
      rfl
    | true =>
      obtain ⟨after, best', connects, ready', kept, again', chosen', same, tip⟩ :=
        connectTip_accepted ready chosen again listed shape accepts
      obtain ⟨candidates, prunes, ready'⟩ := pruneBlockIndexCandidates_ready ready'
      have pruned : Keeps after { after with setBlockIndexCandidates := candidates } := .of_entries rfl rfl rfl
      have chosen' := chosen'.keep pruned chosen'.sound
      have onward : after.path target = rest.reverse ++ after.path after.tip := by
        rw [kept.path, kept.path, tip, split, shape]
        rfl
      by_cases better : after.nChainWork after.tip > nOldWork
      · refine ⟨false, _, best', ?_, ready', kept.trans pruned, again', chosen', same,
          rest.reverse, onward, by simp⟩
        rw [connectBlocks, connects]
        simp only [bind, Except.bind, prunes, Bool.not_true, false_eq_true, if_false]
        exact if_pos better
      · obtain ⟨invalid, final, best'', connected, ready'', kept', again'', advanced⟩ :=
          ih ready' chosen' again' onward
        refine ⟨invalid, final, best'', ?_, ready'', (kept.trans pruned).trans kept', again'', ?_⟩
        · rw [connectBlocks, connects]
          simp only [bind, Except.bind, prunes, Bool.not_true, false_eq_true, if_false]
          exact (if_neg better).trans connected
        · cases invalid with
          | true => exact lt_of_lt_of_eq advanced same
          | false =>
            obtain ⟨chosen'', equal, front, lies, short⟩ := advanced
            refine ⟨chosen'', equal.trans same, front, lies, ?_⟩
            rw [length_cons]
            omega

lemma disconnectWhile_to (passes : ∀ hash ∈ front, more hash = true) (stops : more fork = false)
    (head : (front ++ fork :: back).head? = some state.tip) :
    disconnectWhile more (front ++ fork :: back) state = (true, { state with tip := fork }) := by
  induction front generalizing state with
  | nil =>
    obtain rfl : fork = state.tip := Option.some.inj head
    cases back with
    | nil => simp [disconnectWhile, stops]
    | cons next rest => simp [disconnectWhile, stops]
  | cons first front ih =>
    have here := passes first mem_cons_self
    have later : ∀ hash ∈ front, more hash = true := fun hash member => passes hash (mem_cons_of_mem _ member)
    cases front with
    | nil =>
      have onward := @ih { state with tip := fork } later rfl
      simp only [nil_append] at onward
      simp [disconnectWhile, here, onward]
    | cons second front =>
      have onward := @ih { state with tip := second } later rfl
      simp only [cons_append] at onward
      simp [disconnectWhile, here, onward]

def gap (state : CChainState genesis) (target : Uint256) : Nat :=
  ((state.path target).takeWhile fun hash => hash ∉ state.path state.tip).length

lemma gap_eq (known : state.Known fork)
    (split : state.path target = front ++ state.path fork) (common : fork ∈ state.path state.tip)
    (apart : ∀ hash ∈ front, hash ∉ state.path state.tip) : state.gap target = front.length := by
  obtain ⟨rest, head⟩ := path_cons known
  rw [gap, split, show state.path fork = fork :: rest from head, takeWhile_append_of_pos (by simpa using apart)]
  simp [common]

lemma gap_of_tip (known : state.Known state.tip) (targetKnown : state.Known target)
    (split : state.path target = front ++ state.path state.tip) : state.gap target = front.length := by
  refine gap_eq known split (self_mem_path known) fun hash member listed => ?_
  have nodup := path_nodup targetKnown
  rw [show state.mapBlockIndex.path target = _ from split] at nodup
  exact disjoint_of_nodup_append nodup member listed

lemma takeWhile_findFork (known : state.Known fork)
    (found : state.findFork target = some fork) (split : state.path target = front ++ state.path fork)
    (common : fork ∈ state.path state.tip) (apart : ∀ hash ∈ front, hash ∉ state.path state.tip) :
    (state.path target).takeWhile (fun hash => some hash ≠ state.findFork target) = front := by
  obtain ⟨tail, head⟩ := path_cons known
  rw [split, show state.path fork = fork :: tail from head, takeWhile_append_of_pos]
  · simp [found]
  · intro hash member
    have other : hash ≠ fork := by
      rintro rfl
      exact apart hash member common
    simpa [found] using other

lemma activateBestChainStep_advances (ready : Ready address state best)
    (chosen : Chosen address state target) (again : state.Reaccepts connectBlock) :
    ∃ fInvalidFound after best', state.activateBestChainStep address connectBlock target =
        .ok (true, fInvalidFound, after) ∧
      Ready address after best' ∧ Keeps state after ∧ after.Reaccepts connectBlock ∧
      Advanced address target state after (state.gap target) fInvalidFound := by
  obtain ⟨fork, front, found, common, split, apart⟩ := exists_fork ready.tip.known chosen.known
  have found : state.findFork target = some fork := found
  have proven := ready.tip.above common
  obtain ⟨best', forked⟩ := ready.moveTip proven
  have moved : Keeps state { state with tip := fork } := .of_entries rfl rfl rfl
  obtain ⟨tail, head⟩ := path_cons proven.known
  -- the active chain is left at the fork
  obtain ⟨lower, active⟩ := path_suffix ready.tip.known common
  have disconnects : disconnectWhile (fun tip => some tip ≠ state.findFork target) state.chainActive
      state = (true, { state with tip := fork }) := by
    have nodup := path_nodup ready.tip.known
    obtain ⟨rest, first⟩ := path_cons ready.tip.known
    rw [active] at nodup
    rw [chainActive, path, active, head]
    refine disconnectWhile_to ?_ ?_ ?_
    · intro hash member
      have other : hash ≠ fork := by
        rintro rfl
        exact disjoint_of_nodup_append nodup member (self_mem_path proven.known)
      simpa [found] using other
    · simp [found]
    · rw [← head, ← active, first]
      rfl
  -- and the blocks above the fork are connected
  have todo := takeWhile_findFork proven.known found split common apart
  have chosen' : Chosen address { state with tip := fork } target := chosen.keep moved chosen.sound
  have away : ({ state with tip := fork } : CChainState genesis).path target =
      front.reverse.reverse ++ ({ state with tip := fork } : CChainState genesis).path fork := by
    rw [reverse_reverse]
    exact split
  obtain ⟨fInvalidFound, after, best'', connects, ready', kept, again', advanced⟩ :=
    connectBlocks_advances forked chosen' again away
  refine ⟨fInvalidFound, after, best'', ?_, ready', moved.trans kept, again', ?_⟩
  · simp only [activateBestChainStep, disconnects, todo, Bool.not_true, false_eq_true, if_false]
    rw [connects]
    rfl
  · rw [gap_eq proven.known split common apart, ← length_reverse]
    exact advanced

/-- What ActivateBestChain leaves: the tip is the best usable chain. -/
structure Settled (address : Uint256 ↪ Nat) (state : CChainState genesis) : Prop where
  ready : Ready address state state.tip
  chosen : Chosen address state state.tip

lemma Ready.settled (ready : Ready address state best) (chosen : Chosen address state state.tip) :
    Settled address state := by
  have listed := self_mem_path ready.chain.known
  have better := chosen.greatest best ready.chain.known (ready.chain.linked best listed)
    (ready.chain.sound best listed)
  have own := self_mem_path ready.tip.known
  refine ⟨⟨⟨ready.well, ready.tip, ?_, ?_⟩, ready.tip, le_rfl⟩, chosen⟩
  · exact ready.complete _ ready.tip.known (ready.tip.linked _ own) (ready.tip.sound _ own) better
  · exact fun other known linked sound above => ready.complete other known linked sound (better.trans above)

/-- The invariant of the loops of ActivateBestChain. -/
structure Turning (address : Uint256 ↪ Nat) (connectBlock : Uint256 → Bool)
    (first : CChainState genesis) (turn : Activation × CChainState genesis) : Prop where
  ready : ∃ best, Ready address turn.2 best
  again : turn.2.Reaccepts connectBlock
  chosen : ∀ target, turn.1.pindexMostWork = some target → Chosen address turn.2 target
  newTip : turn.1.blocks_connected = true → turn.1.pindexNewTip = some turn.2.tip
  keeps : Keeps first turn.2

/-- What is left to do for a target, or until one is chosen. -/
def workLeft (state : CChainState genesis) : Option Uint256 → Nat
  | none => state.mapBlockIndex.nodes.length + 2
  | some target => if target = state.tip then 0 else state.gap target + 1

/-- Turns that are left: a block that fails costs a new search. -/
def turnsLeft (turn : Activation × CChainState genesis) : Nat :=
  turn.2.unfailed * (turn.2.mapBlockIndex.nodes.length + 3) + turn.2.workLeft turn.1.pindexMostWork

lemma gap_bound (known : state.Known target) : state.gap target ≤ state.mapBlockIndex.nodes.length :=
  ((takeWhile_sublist _).length_le).trans (path_length_le known)

lemma Advanced.turnsLeft_lt {after : CChainState genesis} {fInvalidFound : Bool} (kept : Keeps state after)
    (ready : Ready address after best)
    (advanced : Advanced address target state after (state.gap target) fInvalidFound) :
    after.unfailed * (after.mapBlockIndex.nodes.length + 3) +
        after.workLeft (if fInvalidFound then none else some target) <
      state.unfailed * (state.mapBlockIndex.nodes.length + 3) + (state.gap target + 1) := by
  rw [kept.tree]
  cases fInvalidFound with
  | true =>
    have fewer : after.unfailed + 1 ≤ state.unfailed := advanced
    have total := Nat.mul_le_mul_right (state.mapBlockIndex.nodes.length + 3) fewer
    rw [Nat.succ_mul] at total
    simp only [if_true, workLeft, kept.tree]
    omega
  | false =>
    obtain ⟨chosen, same, front, split, short⟩ := advanced
    rw [same]
    simp only [false_eq_true, if_false, workLeft]
    split_ifs with reached
    · omega
    · have present : front ≠ [] := by
        rintro rfl
        obtain ⟨_, first⟩ := path_cons chosen.known
        obtain ⟨_, second⟩ := path_cons ready.tip.known
        rw [nil_append, path, path, first, second] at split
        exact reached (List.cons.inj split).1
      have positive := length_pos_iff.mpr present
      rw [gap_of_tip ready.tip.known chosen.known split]
      omega

variable {first : CChainState genesis}

lemma activateTowards_turns {locals : Activation}
    (ready : Ready address state best) (again : state.Reaccepts connectBlock) (kept : Keeps first state)
    (newTip : locals.blocks_connected = true → locals.pindexNewTip = some state.tip)
    (chosen : Chosen address state target) :
    (∃ result, activateTowards address connectBlock locals state target = .ok (.inl result) ∧
      result.1 = true ∧ Settled address result.2 ∧ Keeps first result.2) ∨
    (∃ next, activateTowards address connectBlock locals state target = .ok (.inr next) ∧
      Turning address connectBlock first next ∧ target ≠ state.tip ∧ turnsLeft next <
        state.unfailed * (state.mapBlockIndex.nodes.length + 3) + (state.gap target + 1)) := by
  unfold activateTowards
  by_cases reached : target = state.tip
  · left
    refine ⟨(true, state), ?_, rfl, ready.settled (reached ▸ chosen), kept⟩
    rw [if_pos reached, leaveInner]
    cases connected : locals.blocks_connected with
    | false => rfl
    | true => simp [newTip connected, reached]
  · obtain ⟨fInvalidFound, after, best', steps, ready', stepped, again', advanced⟩ :=
      activateBestChainStep_advances ready chosen again
    have fewer := advanced.turnsLeft_lt stepped ready'
    have chosen' : ∀ next, (if fInvalidFound then none else some target) = some next →
        Chosen address after next := by
      intro next same
      cases fInvalidFound with
      | true => cases same
      | false => exact Option.some.inj same ▸ advanced.1
    rw [if_neg reached, steps]
    simp only
    generalize (if fInvalidFound then none else some target) = most at fewer chosen' ⊢
    split_ifs with worse
    · right
      exact ⟨_, rfl, ⟨⟨best', ready'⟩, again', chosen', fun _ => rfl, kept.trans stepped⟩, reached, fewer⟩
    · unfold leaveInner
      simp only [Bool.not_true, Bool.false_or, decide_eq_true_eq]
      split_ifs with arrived
      · left
        exact ⟨_, rfl, rfl, ready'.settled (chosen' _ arrived.symm), kept.trans stepped⟩
      · right
        exact ⟨_, rfl, ⟨⟨best', ready'⟩, again', chosen', nofun, kept.trans stepped⟩, reached, fewer⟩

lemma activateTurn_turns (turn : Activation × CChainState genesis)
    (turning : Turning address connectBlock first turn) :
    (∃ result, activateTurn address connectBlock turn = .ok (.inl result) ∧
      result.1 = true ∧ Settled address result.2 ∧ Keeps first result.2) ∨
    (∃ next, activateTurn address connectBlock turn = .ok (.inr next) ∧
      Turning address connectBlock first next ∧ turnsLeft next < turnsLeft turn) := by
  obtain ⟨locals, state⟩ := turn
  obtain ⟨⟨best, ready⟩, again, chosen, newTip, kept⟩ := turning
  cases most : locals.pindexMostWork with
  | some target =>
    simp only [activateTurn, turnsLeft, most]
    rcases activateTowards_turns ready again kept newTip (chosen target most) with
      done | ⟨next, goes, turning, apart, fewer⟩
    · exact Or.inl done
    · refine Or.inr ⟨next, goes, turning, ?_⟩
      rw [workLeft, if_neg apart]
      exact fewer
  | none =>
    obtain ⟨target, after, finds, ready', marks, chosen'⟩ := findMostWorkChain_finds ready
    have again' : after.Reaccepts connectBlock := by
      intro hash known valid
      rw [marks.validity] at valid
      exact again hash ((marks.keeps.known hash).mp known) valid
    have newTip' : locals.blocks_connected = true → locals.pindexNewTip = some after.tip := by
      rw [marks.tip]
      exact newTip
    simp only [activateTurn, turnsLeft, most, finds]
    rcases activateTowards_turns ready' again' (kept.trans marks.keeps) newTip' chosen' with
      done | ⟨next, goes, turning, _, fewer⟩
    · exact Or.inl done
    · refine Or.inr ⟨next, goes, turning, fewer.trans_le ?_⟩
      have bound := gap_bound chosen'.known
      rw [marks.keeps.tree] at bound
      rw [unfailed_eq marks.keeps marks.failedValid, marks.keeps.tree]
      exact Nat.add_le_add_left (Nat.succ_le_succ (bound.trans (Nat.le_succ _))) _

/-- From a ready state ActivateBestChain ends with the best usable chain active. -/
lemma activateBestChain_settles (ready : Ready address state best) (again : state.Reaccepts connectBlock) :
    ∃ after, Settled address after ∧ Keeps state after ∧
      ∀ turns, turnsLeft (⟨none, none, state.tip, false⟩, state) < turns →
        state.activateBestChain address connectBlock turns = .ok (true, after) := by
  have turning : Turning address connectBlock state (⟨none, none, state.tip, false⟩, state) :=
    ⟨⟨best, ready⟩, again, nofun, nofun, .of_entries rfl rfl rfl⟩
  obtain ⟨⟨_, after⟩, ⟨rfl, settled, kept⟩, ends⟩ := runLoop_ends _ _ activateTurn_turns turning
  exact ⟨after, settled, kept, ends⟩

end Connect

end CChainState

end Dragonchain
