import Dragonchain.ChainControl

/-!
The rule of invariants for ActivateBestChain. A property of the chain state that its
elementary changes keep (a candidate goes, an entry is marked, the tip moves to its
parent, the tip moves to a child that ConnectBlock accepts, ConnectBlock rejects a
child) holds whenever ActivateBestChain returns.
-/

namespace Dragonchain

open List LeafTree Bool

variable {genesis pindex target stop pindexNew pindexTest : Uint256} {walk todo : List Uint256}
  {fInvalidFound result : Bool} {nOldWork turns : Nat} {holds extra : CChainState genesis → Prop}

namespace CChainState

structure ActivationInvariant (address : Uint256 ↪ Nat) (connectBlock : Uint256 → Bool)
    (holds : CChainState genesis → Prop) : Prop where
  tip : ∀ state, holds state → state.Known state.tip
  listed : ∀ state, holds state → ∀ pindex ∈ state.setBlockIndexCandidates, state.Known pindex
  candidates : ∀ state candidates, holds state →
    (∀ pindex ∈ candidates, pindex ∈ state.setBlockIndexCandidates) →
    holds { state with setBlockIndexCandidates := candidates }
  unlinked : ∀ state pindex candidates pairs, holds state → pindex ∈ state.setBlockIndexCandidates →
    (∃ hash ∈ state.path pindex, (state.nStatus hash).haveData = false) →
    (∀ pindex ∈ candidates, pindex ∈ state.setBlockIndexCandidates) →
    (∀ pair ∈ pairs, pair ∈ state.mapBlocksUnlinked ∨ state.Known pair.2) →
    holds { state with setBlockIndexCandidates := candidates, mapBlocksUnlinked := pairs }
  mark : ∀ state pindex walk, holds state → pindex ∈ state.setBlockIndexCandidates →
    walk ⊆ state.path pindex → holds (state.setFailedChild walk)
  disconnect : ∀ state tip, holds state → tip ∈ state.path state.tip → holds { state with tip }
  connect : ∀ state pindex, holds state → state.Known pindex → state.pprev pindex = some state.tip →
    connectBlock pindex = true → (state.nStatus pindex).haveData = true →
    (state.nStatus pindex).failed = false →
    holds { state.raiseScripts pindex with
      tip := pindex
      setBlockIndexCandidates := state.setBlockIndexCandidates.filter fun other =>
        !(state.raiseScripts pindex).workComparator address other pindex }
  reject : ∀ state pindex, holds state → state.Known pindex → state.pprev pindex = some state.tip →
    (state.nStatus pindex).haveData = true → connectBlock pindex = false →
    holds (state.invalidBlockFound address pindex)

/-- A chain that ConnectTip can walk up: what is not active yet has data and no flag. -/
def Walkable (state : CChainState genesis) (target : Uint256) : Prop :=
  state.Known target ∧ ∀ hash ∈ state.path target, hash ∈ state.path state.tip ∨
    (state.nStatus hash).haveData = true ∧ (state.nStatus hash).failed = false

variable {address : Uint256 ↪ Nat} {connectBlock : Uint256 → Bool}
  {state after : CChainState genesis}

lemma firstUnusable_walkable (tip : state.Known state.tip) (known : state.Known pindex)
    (passed : state.firstUnusable (state.path pindex) = .ok none) : state.Walkable pindex := by
  refine ⟨known, ?_⟩
  induction pindex, known using state.mapBlockIndex.induct with
  | base =>
    intro hash member
    rw [path, state.mapBlockIndex.path_root] at member
    rw [mem_singleton.mp member]
    exact Or.inl (root_mem_path tip)
  | step node known parent above shape ih =>
    have shape : state.path node = node :: state.path parent := shape
    by_cases active : node ∈ state.chainActive
    · exact fun hash member => Or.inl (path_trans tip active member)
    rw [shape, firstUnusable, if_neg active] at passed
    split_ifs at passed with unlinked unusable
    · cases passed
    rw [shape]
    rintro hash (_ | ⟨_, member⟩)
    · rw [not_eq_true, or_eq_false_iff, not_eq_false'] at unusable
      exact Or.inr ⟨unusable.2, unusable.1⟩
    · exact ih passed hash member

variable {locals : CChainState.Activation}

lemma firstUnusable_stops (found : state.firstUnusable walk = .ok (some stop)) :
    stop ∈ walk ∧ ((state.nStatus stop).failed || !(state.nStatus stop).haveData) = true := by
  induction walk with
  | nil => cases found
  | cons first rest ih =>
    rw [firstUnusable] at found
    split_ifs at found with _ _ unusable
    · cases found
    · cases found
      exact ⟨mem_cons_self, unusable⟩
    · exact (ih found).imp_left (mem_cons_of_mem _)

section Rule
variable (rule : ActivationInvariant address connectBlock holds)
include rule

variable (good : holds state)
include good

lemma ActivationInvariant.dropCandidate (member : pindexNew ∈ state.setBlockIndexCandidates)
    (found : state.firstUnusable (state.path pindexNew) = .ok (some pindexTest)) :
    holds (state.dropCandidate pindexNew pindexTest) := by
  have inside : (state.path pindexNew).takeWhile (fun hash => hash ≠ pindexTest) ⊆ state.path pindexNew :=
    (takeWhile_sublist _).subset
  unfold CChainState.dropCandidate
  split_ifs with failed
  · exact rule.candidates _ _ (rule.mark state pindexNew _ good member inside)
      fun _ member => mem_of_mem_filter member
  · obtain ⟨listed, unusable⟩ := firstUnusable_stops found
    have missing : (state.nStatus pindexTest).haveData = false := by simpa [failed] using unusable
    refine rule.unlinked state pindexNew _ _ good member ⟨_, listed, missing⟩
      (fun _ member => mem_of_mem_filter member) fun pair added => ?_
    refine (mem_append.mp added).imp_right fun new => ?_
    obtain ⟨walked, walks, parents⟩ := mem_filterMap.mp new
    obtain ⟨parent, _, rfl⟩ := Option.map_eq_some_iff.mp parents
    exact path_nodes (rule.listed state good _ member) walked (inside walks)

lemma ActivationInvariant.findMostWorkChain {found : Option Uint256}
    (done : state.findMostWorkChain address = .ok (found, after)) :
    holds after ∧ ∀ target, found = some target → after.Walkable target := by
  refine runLoop_post holds (fun result : Option Uint256 × CChainState genesis =>
    holds result.2 ∧ ∀ target, result.1 = some target → result.2.Walkable target) ?_ ?_ good done
  · intro current result good turned
    unfold findMostWorkTurn at turned
    split at turned
    · cases turned
      exact ⟨good, nofun⟩
    · rename_i pindexNew last
      split at turned
      · cases turned
      · rename_i passed
        cases turned
        refine ⟨good, fun target same => ?_⟩
        obtain rfl := Option.some.inj same
        have member := (current.last_greatest last).1
        exact firstUnusable_walkable (rule.tip current good) (rule.listed current good _ member) passed
      · cases turned
  · intro current next good turned
    unfold findMostWorkTurn at turned
    split at turned
    · cases turned
    · rename_i pindexNew last
      split at turned
      · cases turned
      · cases turned
      · rename_i found
        cases turned
        exact rule.dropCandidate good (current.last_greatest last).1 found

lemma ActivationInvariant.connectBlocks
    (known : state.Known target) (split : state.path target = todo.reverse ++ state.path state.tip)
    (usable : ∀ hash ∈ todo, (state.nStatus hash).haveData = true ∧ (state.nStatus hash).failed = false)
    (done : connectBlocks address connectBlock nOldWork todo state = .ok (fInvalidFound, after)) :
    holds after ∧ (fInvalidFound = false → after.Walkable target) := by
  induction todo generalizing state with
  | nil =>
    cases done
    refine ⟨good, fun _ => ⟨known, fun hash member => Or.inl ?_⟩⟩
    rwa [split] at member
  | cons pindexConnect rest ih =>
    obtain ⟨⟨connected, moved⟩, tried, done⟩ := ok_of_bind done
    have member : pindexConnect ∈ state.path target := by
      rw [split]
      simp
    have listed := path_nodes known pindexConnect member
    unfold connectTip at tried
    split_ifs at tried with parent accepts
    · have parent := not_not.mp parent
      have whole : state.path pindexConnect = pindexConnect :: state.path state.tip :=
        (pprev_spec listed parent).2.2
      obtain ⟨data, sound⟩ := usable pindexConnect mem_cons_self
      have good := rule.connect state pindexConnect good listed parent accepts data sound
      obtain ⟨rfl, rfl⟩ := Prod.mk.inj (Except.ok.inj tried)
      obtain ⟨pruned, prunes, done⟩ := ok_of_bind done
      unfold pruneBlockIndexCandidates at prunes
      simp only at prunes
      split_ifs at prunes
      cases prunes
      have split : state.path target = rest.reverse ++ state.path pindexConnect := by
        rw [split, whole]
        simp
      have usable : ∀ hash ∈ rest, ((state.raiseScripts pindexConnect).nStatus hash).haveData = true ∧
          ((state.raiseScripts pindexConnect).nStatus hash).failed = false := by
        intro hash later
        rw [connected_nStatus]
        exact usable hash (mem_cons_of_mem _ later)
      split_ifs at done
      · cases done
        refine ⟨good, fun _ => ⟨known, fun hash member => ?_⟩⟩
        have member : hash ∈ rest.reverse ++ state.path pindexConnect := split ▸ member
        rcases mem_append.mp member with later | walked
        · exact Or.inr (usable hash (mem_reverse.mp later))
        · exact Or.inl walked
      · exact ih good known split usable done
    · obtain ⟨rfl, rfl⟩ := Prod.mk.inj (Except.ok.inj tried)
      cases done
      refine ⟨rule.reject state pindexConnect good listed (not_not.mp parent)
        (usable pindexConnect mem_cons_self).1 (by simpa using accepts), ?_⟩
      rintro ⟨⟩

lemma ActivationInvariant.step (walkable : state.Walkable target)
    (done : state.activateBestChainStep address connectBlock target = .ok (result, fInvalidFound, after)) :
    holds after ∧ (result = true → fInvalidFound = false → after.Walkable target) := by
  obtain ⟨known, usable⟩ := walkable
  have tip := rule.tip state good
  obtain ⟨fork, front, found, common, split, apart⟩ := exists_fork tip known
  have found : state.findFork target = some fork := found
  obtain ⟨disconnected, low, ends, listed, stops⟩ := disconnectWhile_above tip
  have ends : disconnectWhile (fun tip => decide (some tip ≠ state.findFork target)) state.chainActive
      state = (disconnected, { state with tip := low }) := ends
  unfold activateBestChainStep at done
  simp only [ends] at done
  have good := rule.disconnect state low good listed
  cases disconnected with
  | false =>
    cases done
    exact ⟨good, nofun⟩
  | true =>
    obtain rfl : low = fork := by
      have same := stops rfl
      rw [found] at same
      simpa using same
    obtain ⟨⟨invalid, connected⟩, walked, done⟩ := ok_of_bind done
    cases done
    rw [takeWhile_findFork (path_nodes tip low listed) found split common apart] at walked
    have away : state.path target = front.reverse.reverse ++ state.path low := by
      rw [reverse_reverse]
      exact split
    have fresh : ∀ hash ∈ front.reverse,
        (state.nStatus hash).haveData = true ∧ (state.nStatus hash).failed = false := by
      intro hash member
      have member := mem_reverse.mp member
      refine (usable hash ?_).resolve_left (apart hash member)
      rw [path, split]
      exact mem_append_left _ member
    obtain ⟨good, onward⟩ := rule.connectBlocks good known away fresh walked
    exact ⟨good, fun _ => onward⟩

end Rule

/-- What a turn of ActivateBestChain keeps, whether it returns or goes on. -/
def TurnKept (holds : CChainState genesis → Prop) :
    (Bool × CChainState genesis) ⊕ (Activation × CChainState genesis) → Prop
  | .inl result => holds result.2
  | .inr next => holds next.2 ∧ ∀ target, next.1.pindexMostWork = some target → next.2.Walkable target

lemma leaveInner_kept (good : holds state)
    (walkable : ∀ target, locals.pindexMostWork = some target → state.Walkable target) :
    TurnKept holds (leaveInner locals state) := by
  unfold leaveInner
  split_ifs
  · exact good
  · exact ⟨good, walkable⟩

section Turns
variable (rule : ActivationInvariant address connectBlock holds)
include rule

lemma ActivationInvariant.towards {turned : Bool × CChainState genesis ⊕ CChainState.Activation × CChainState genesis}
    (good : holds state) (walkable : state.Walkable target)
    (done : activateTowards address connectBlock locals state target = .ok turned) : TurnKept holds turned := by
  unfold activateTowards at done
  split_ifs at done
  · cases done
    refine leaveInner_kept good fun other same => ?_
    obtain rfl := Option.some.inj same
    exact walkable
  · split at done
    · cases done
    · rename_i stepped
      cases done
      exact (rule.step good walkable stepped).1
    · rename_i fInvalidFound moved stepped
      obtain ⟨good, onward⟩ := rule.step good walkable stepped
      have next : ∀ other, (if fInvalidFound then none else some target) = some other → moved.Walkable other := by
        intro other same
        cases fInvalidFound with
        | true => cases same
        | false =>
          obtain rfl := Option.some.inj same
          exact onward rfl rfl
      simp only at done
      generalize (if fInvalidFound then none else some target) = most at done next
      split_ifs at done
      · cases done
        exact ⟨good, next⟩
      · cases done
        exact leaveInner_kept good next

lemma ActivationInvariant.turn {turn : Activation × CChainState genesis} (good : holds turn.2)
    (walkable : ∀ target, turn.1.pindexMostWork = some target → turn.2.Walkable target)
    {turned : _ ⊕ _} (done : activateTurn address connectBlock turn = .ok turned) : TurnKept holds turned := by
  obtain ⟨locals, state⟩ := turn
  unfold activateTurn at done
  simp only at done
  split at done
  · rename_i chosen
    exact rule.towards good (walkable _ chosen) done
  · rename_i none
    split at done
    · cases done
    · rename_i found
      cases done
      refine leaveInner_kept (rule.findMostWorkChain good found).1 fun target same => ?_
      rw [none] at same
      cases same
    · rename_i found
      obtain ⟨good, walkable⟩ := rule.findMostWorkChain good found
      exact rule.towards good (walkable _ rfl) done

lemma ActivationInvariant.activateBestChain (good : holds state)
    (done : state.activateBestChain address connectBlock turns = .ok (result, after)) : holds after := by
  have unchosen : ∀ target, none = some target → state.Walkable target := nofun
  refine runLoop_post (fun turn : Activation × CChainState genesis =>
      holds turn.2 ∧ ∀ target, turn.1.pindexMostWork = some target → turn.2.Walkable target)
    (fun result => holds result.2) ?_ ?_ ⟨good, unchosen⟩ done
  · rintro turn result ⟨good, walkable⟩ returned
    exact rule.turn good walkable returned
  · rintro turn next ⟨good, walkable⟩ goes
    exact rule.turn good walkable goes

end Turns

/-- Every hash that the chain state keeps is that of an entry. -/
structure Rooted (state : CChainState genesis) : Prop where
  tip : state.Known state.tip
  candidates : ∀ pindex ∈ state.setBlockIndexCandidates, state.Known pindex
  unlinked : ∀ pair ∈ state.mapBlocksUnlinked, state.Known pair.2

/-- The rule for a property beside `Rooted`, which takes care of itself. -/
lemma Rooted.invariant
    (candidates : ∀ state candidates, extra state → extra { state with setBlockIndexCandidates := candidates })
    (unlinked : ∀ state pairs, extra state → extra { state with mapBlocksUnlinked := pairs })
    (mark : ∀ state walk, extra state → extra (state.setFailedChild walk))
    (disconnect : ∀ state tip, state.Rooted → extra state → tip ∈ state.path state.tip → extra { state with tip })
    (connect : ∀ state pindex, state.Rooted → extra state → state.Known pindex →
      state.pprev pindex = some state.tip → connectBlock pindex = true →
      (state.nStatus pindex).haveData = true → (state.nStatus pindex).failed = false →
      extra { state.raiseScripts pindex with tip := pindex })
    (reject : ∀ state pindex, state.Rooted → extra state → state.Known pindex →
      state.pprev pindex = some state.tip → connectBlock pindex = false →
      extra (state.invalidBlockFound address pindex)) :
    ActivationInvariant address connectBlock fun state => state.Rooted ∧ extra state where
  tip _ good := good.1.tip
  listed _ good := good.1.candidates
  candidates state _ good fewer :=
    ⟨⟨good.1.tip, fun pindex member => good.1.candidates pindex (fewer pindex member), good.1.unlinked⟩,
      candidates state _ good.2⟩
  unlinked state _ _ pairs good _ _ fewer new :=
    ⟨⟨good.1.tip, fun pindex member => good.1.candidates pindex (fewer pindex member),
      fun pair member => (new pair member).elim (good.1.unlinked pair) id⟩,
      candidates _ _ (unlinked state pairs good.2)⟩
  mark state _ walk good _ _ := ⟨⟨good.1.tip, good.1.candidates, good.1.unlinked⟩, mark state walk good.2⟩
  disconnect state tip good listed :=
    ⟨⟨path_nodes good.1.tip tip listed, good.1.candidates, good.1.unlinked⟩,
      disconnect state tip good.1 good.2 listed⟩
  connect state pindex good known parent accepts data sound :=
    ⟨⟨known, fun other member => good.1.candidates other (mem_of_mem_filter member), good.1.unlinked⟩,
      candidates _ _ (connect state pindex good.1 good.2 known parent accepts data sound)⟩
  reject state pindex good known parent _ rejects :=
    ⟨⟨good.1.tip, fun other member => good.1.candidates other (mem_of_mem_filter member),
      good.1.unlinked⟩, reject state pindex good.1 good.2 known parent rejects⟩

end CChainState

end Dragonchain
