import Dragonchain.ActivationRule
import Dragonchain.ChainRuns

/-!
How the block index grows. Over every call that changes the chain state the index stays
as it is, or one entry is added below a known one, for a header that has passed
ContextualCheckBlockHeader.
-/

namespace Dragonchain

open Serialization CChainState List

variable {turns : Nat} {genesis pindex : Uint256}

namespace CChainState

variable {address : Uint256 ↪ Nat} {state after : CChainState genesis}

lemma start_rooted {header : CBlockHeader} : (start genesis header).Rooted :=
  ⟨mem_singleton.mpr rfl, fun _ member => member, nofun⟩

variable (rooted : state.Rooted)
include rooted

variable (address) in
lemma Rooted.linkBlock (known : state.Known pindex) : (state.linkBlock address pindex).Rooted := by
  simp only [CChainState.linkBlock]
  split_ifs
  · exact ⟨rooted.tip, rooted.candidates, rooted.unlinked⟩
  · refine ⟨rooted.tip, fun other member => ?_, rooted.unlinked⟩
    rcases mem_insert_iff.mp member with rfl | old
    · exact known
    · exact rooted.candidates other old

lemma receivedBlockTransactions_rooted {block : CBlock} (known : state.Known pindex)
    (done : state.receivedBlockTransactions address block pindex = .ok after) : after.Rooted := by
  have stored : (state.storeData pindex (block.vtx.length % 2 ^ 32)).Rooted :=
    ⟨rooted.tip, rooted.candidates, rooted.unlinked⟩
  refine (receivedBlockTransactions_post (fun queue current => current.Rooted ∧ ∀ hash ∈ queue, current.Known hash)
    ⟨stored, fun hash member => mem_singleton.mp member ▸ known⟩ ?_ ?_ done).1
  · rintro front queue current next ⟨rooted, listed⟩ turned
    have same := linkBlock_sameFlags address current front
    have linked := rooted.linkBlock address (listed front mem_cons_self)
    cases turned
    refine ⟨⟨linked.tip, linked.candidates, fun pair member => ?_⟩, fun hash member => ?_⟩
    · exact linked.unlinked pair (mem_of_mem_filter member)
    · rcases mem_append.mp member with old | moved
      · exact (same.known hash).mpr (listed hash (mem_cons_of_mem _ old))
      · obtain ⟨pair, inside, rfl⟩ := mem_map.mp moved
        exact linked.unlinked pair (mem_of_mem_filter inside)
  · rintro current pairs ⟨rooted, listed⟩ new
    refine ⟨⟨rooted.tip, rooted.candidates, fun pair member => ?_⟩, nofun⟩
    rcases new pair member with old | same
    · exact rooted.unlinked pair old
    · exact same ▸ listed pindex mem_cons_self

lemma activateBestChain_rooted {connectBlock : Uint256 → Bool} {result : Bool}
    (done : state.activateBestChain address connectBlock turns = .ok (result, after)) :
    after.Rooted ∧ after.mapBlockIndex = state.mapBlockIndex := by
  have invariant : ActivationInvariant address connectBlock fun current : CChainState genesis =>
      current.Rooted ∧ current.mapBlockIndex = state.mapBlockIndex := by
    apply Rooted.invariant
    · exact fun _ _ same => same
    · exact fun _ _ same => same
    · exact fun _ _ same => same
    · exact fun _ _ _ same _ => same
    · exact fun _ _ _ same _ _ _ _ _ => same
    · exact fun _ _ _ same _ _ _ => same
  exact invariant.activateBestChain ⟨rooted, rfl⟩ done

lemma makePrecious_rooted (known : state.Known pindex)
    (done : state.makePrecious address pindex = .ok after) : after.Rooted := by
  have moved : ∀ other ∈ (state.movePrecious pindex).setBlockIndexCandidates, state.Known other :=
    fun other member => rooted.candidates other (mem_of_mem_filter member)
  rw [makePrecious] at done
  simp only [pruneBlockIndexCandidates] at done
  split_ifs at done
  · cases done
    refine ⟨rooted.tip, fun other member => ?_, rooted.unlinked⟩
    rcases mem_insert_iff.mp (mem_of_mem_filter member) with rfl | old
    · exact known
    · exact moved other old
  · cases done
    exact ⟨rooted.tip, moved, rooted.unlinked⟩

lemma invalidateBlock_rooted : (state.invalidateBlock address pindex).2.Rooted ∧
      (state.invalidateBlock address pindex).2.mapBlockIndex = state.mapBlockIndex := by
  obtain ⟨disconnected, tip, ends, listed, _⟩ := disconnectWhile_above rooted.tip
  have ends : disconnectWhile (fun tip => decide (pindex ∈ state.path tip)) state.chainActive state =
      (disconnected, { state with tip }) := ends
  have known := LeafTree.path_nodes rooted.tip tip listed
  rw [invalidateBlock]
  simp only [ends]
  cases disconnected with
  | false => exact ⟨⟨known, rooted.candidates, rooted.unlinked⟩, rfl⟩
  | true =>
    refine ⟨⟨known, fun other member => ?_, rooted.unlinked⟩, rfl⟩
    rcases mem_foldl_insert.mp member with old | ⟨offered, _⟩
    · exact rooted.candidates other (mem_of_mem_filter (mem_of_mem_filter old))
    · exact offered

lemma resetBlockFailureFlags_rooted : (state.resetBlockFailureFlags address pindex).Rooted ∧
      (state.resetBlockFailureFlags address pindex).mapBlockIndex = state.mapBlockIndex := by
  have cleared : ∀ {current : CChainState genesis} (other : Uint256), current.Rooted →
      (current.clearFailure other).Rooted :=
    fun _ rooted => ⟨rooted.tip, rooted.candidates, rooted.unlinked⟩
  let kept (current : CChainState genesis) := current.Rooted ∧ current.mapBlockIndex = state.mapBlockIndex
  have below : kept (state.mapBlockIndex.nodes.foldl (resetBelow address pindex) state) := by
    refine List.foldlRecOn (motive := kept) _ _ ⟨rooted, rfl⟩ ?_
    rintro current ⟨rooted, same⟩ other member
    have listed : current.Known other := by
      rw [Known, same]
      exact member
    unfold resetBelow
    simp only
    split_ifs
    · refine ⟨⟨rooted.tip, fun hash member => ?_, rooted.unlinked⟩, same⟩
      rcases mem_insert_iff.mp member with rfl | old
      · exact listed
      · exact rooted.candidates hash old
    · exact ⟨cleared other rooted, same⟩
    · exact ⟨rooted, same⟩
  refine List.foldlRecOn (motive := kept) _ _ below ?_
  rintro current ⟨rooted, same⟩ other _
  unfold resetAbove
  split_ifs
  · exact ⟨cleared other rooted, same⟩
  · exact ⟨rooted, same⟩

end CChainState

section Growth
variable {crypto : Crypto} {params : CChainParams} {address : Uint256 ↪ Nat} {outside : Surroundings}
  {state after : params.State}

variable (crypto params) in
/-- The index as an arrival leaves it: as it was, or with the entry of the header. -/
def Grows (state after : params.State) (header : Option CBlockHeader) : Prop :=
  after.mapBlockIndex = state.mapBlockIndex ∨
    ∃ arrived fresh known nAdjustedTime, header = some arrived ∧
      after.mapBlockIndex =
        state.mapBlockIndex.addLeaf (getBlockHash crypto arrived) arrived.hashPrevBlock fresh known ∧
      contextualCheckBlockHeader params state arrived arrived.hashPrevBlock nAdjustedTime = .ok ()

variable {result : Except Reject Uint256} {cache : Option PoWCache} {object : BlockInMemory}

lemma HeaderArrives.rooted {header : CBlockHeader}
    (arrives : HeaderArrives crypto params outside state header result after cache)
    (rooted : state.Rooted) : after.Rooted := by
  cases arrives with
  | rejected | present => exact rooted
  | marked => exact ⟨rooted.tip, rooted.candidates, rooted.unlinked⟩
  | added =>
    exact ⟨mem_cons_of_mem _ rooted.tip,
      fun pindex member => mem_cons_of_mem _ (rooted.candidates pindex member),
      fun pair member => mem_cons_of_mem _ (rooted.unlinked pair member)⟩

lemma HeaderArrives.grows {header : CBlockHeader}
    (arrives : HeaderArrives crypto params outside state header result after cache) :
    Grows crypto params state after (some header) := by
  cases arrives with
  | rejected | present | marked => exact Or.inl rfl
  | added cache fresh known sound checked clear =>
    exact Or.inr ⟨header, fresh, known, outside.nAdjustedTime, rfl, rfl, checked⟩

lemma HeaderArrives.known {header : CBlockHeader}
    (arrives : HeaderArrives crypto params outside state header (.ok pindex) after cache) :
    after.Known pindex ∧ pindex = getBlockHash crypto header := by
  cases arrives with
  | present _ known => exact ⟨known, rfl⟩
  | added => exact ⟨mem_cons_self, rfl⟩

variable (arrives : BlockArrives crypto params outside address state object result after)
include arrives

lemma BlockArrives.rooted (rooted : state.Rooted) : after.Rooted := by
  cases arrives with
  | header _ _ _ _ arrives => exact arrives.rooted rooted
  | failed pindex reject mid cache arrives =>
    have rooted := arrives.rooted rooted
    exact ⟨rooted.tip, rooted.candidates, rooted.unlinked⟩
  | stored pindex object' mid _ cache arrives cached missing checked received =>
    exact receivedBlockTransactions_rooted (arrives.rooted rooted) arrives.known.1 received

lemma BlockArrives.grows : Grows crypto params state after (some object.block.toCBlockHeader) := by
  cases arrives with
  | header _ _ _ _ arrives | failed _ _ _ _ arrives => exact arrives.grows
  | stored pindex object' mid _ cache arrives cached missing checked received =>
    have same := (receivedBlockTransactions_sameFlags received).tree
    rw [Grows, same]
    exact arrives.grows

omit arrives

def ChainCall.header : ChainCall → Option CBlockHeader
  | .acceptBlockHeader _ header _ => some header
  | .acceptBlock _ object _ => some object.block.toCBlockHeader
  | .processNewBlock _ object _ _ => some object.block.toCBlockHeader
  | .activateBestChain _ | .preciousBlock _ _ | .invalidateBlock _ | .resetBlockFailureFlags _ => none

/-- The RPC calls look their block up in mapBlockIndex first. -/
def ChainCall.Named (state : params.State) : ChainCall → Prop
  | .preciousBlock pindex _ | .invalidateBlock pindex | .resetBlockFailureFlags pindex => state.Known pindex
  | .acceptBlockHeader _ _ _ | .acceptBlock _ _ _ | .processNewBlock _ _ _ _ | .activateBestChain _ => True

lemma processNewBlock_grows {connectBlock : Uint256 → Bool} {fForceProcessing result : Bool} (rooted : state.Rooted)
    (done : processNewBlock crypto params address turns outside state object fForceProcessing
      connectBlock = .ok (result, after)) :
    after.Rooted ∧ Grows crypto params state after (some object.block.toCBlockHeader) := by
  rcases processNewBlock_cases done with rfl | ⟨object', arrival, passed, arrived, done⟩
  · exact ⟨rooted, Or.inl rfl⟩
  have same : object'.block = object.block := (checkBlock_block passed).trans (withIndexCache_block crypto).1
  have arrives := acceptBlock_arrives arrived
  have grows := arrives.grows
  rw [same] at grows
  rcases done with rfl | done
  · exact ⟨arrives.rooted rooted, grows⟩
  · obtain ⟨rooted, tree⟩ := activateBestChain_rooted (arrives.rooted rooted) done
    rw [Grows, tree]
    exact ⟨rooted, grows⟩

lemma ChainCall.perform_grows {call : ChainCall} (rooted : state.Rooted)
    (named : call.Named state) (done : call.perform crypto params address turns state = .ok after) :
    after.Rooted ∧ Grows crypto params state after call.header := by
  cases call with
  | acceptBlockHeader outside header cache =>
    obtain ⟨⟨result, _, cache'⟩, arrived, rfl⟩ := ok_of_map done
    obtain ⟨arrives, _⟩ := acceptBlockHeader_arrives arrived
    exact ⟨arrives.rooted rooted, arrives.grows⟩
  | acceptBlock outside object fRequested =>
    obtain ⟨⟨result, _, object'⟩, arrived, rfl⟩ := ok_of_map done
    have arrives := acceptBlock_arrives arrived
    exact ⟨arrives.rooted rooted, arrives.grows⟩
  | processNewBlock outside object fForceProcessing connectBlock =>
    obtain ⟨⟨result, _⟩, processed, rfl⟩ := ok_of_map done
    exact processNewBlock_grows rooted processed
  | activateBestChain connectBlock =>
    obtain ⟨⟨result, _⟩, activated, rfl⟩ := ok_of_map done
    exact (activateBestChain_rooted rooted activated).imp_right Or.inl
  | preciousBlock pindex connectBlock =>
    obtain ⟨⟨result, _⟩, moved, rfl⟩ := ok_of_map done
    unfold CChainState.preciousBlock at moved
    split_ifs at moved
    · cases moved
      exact ⟨rooted, Or.inl rfl⟩
    · obtain ⟨mid, made, activated⟩ := ok_of_bind moved
      obtain ⟨rooted, same⟩ := activateBestChain_rooted (makePrecious_rooted rooted named made) activated
      obtain ⟨_, rfl⟩ := makePrecious_moves made
      exact ⟨rooted, Or.inl same⟩
  | invalidateBlock pindex =>
    cases done
    exact (invalidateBlock_rooted rooted).imp_right Or.inl
  | resetBlockFailureFlags pindex =>
    cases done
    exact (resetBlockFailureFlags_rooted rooted).imp_right Or.inl

variable (crypto params address) in
inductive ChainRun (header : CBlockHeader) : params.State → Prop
  | start : ChainRun header (.start params.consensus.hashGenesisBlock header)
  | call {state after : params.State} (call : ChainCall) (turns : Nat) (run : ChainRun header state)
      (named : call.Named state) (done : call.perform crypto params address turns state = .ok after) :
      ChainRun header after

lemma ChainRun.rooted {header : CBlockHeader} (run : ChainRun crypto params address header state) :
    state.Rooted := by
  induction run with
  | start => exact start_rooted
  | call call turns run named done ih => exact (call.perform_grows ih named done).1

end Growth

end Dragonchain
