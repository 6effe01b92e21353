import Dragonchain.IndexGrowth

/-!
The last checkpoint. ContextualCheckBlockHeader compares the height of a new header with
that of the last known checkpoint by `<`, so that a second header at the very height of
the checkpoint is let in; everything else that forks off before it is not.
-/

namespace Dragonchain

open Serialization CChainState

variable {pcheckpoint pindexPrev parent : Uint256}

section Checkpoint
variable {crypto : Crypto} {params : CChainParams} {address : Uint256 ↪ Nat}
  {state first last : params.State}

lemma getLastCheckpoint_known (found : getLastCheckpoint params state = some pcheckpoint) :
    state.Known pcheckpoint := by
  simpa using List.find?_some found

lemma contextualCheckBlockHeader_checkpoint {block : CBlockHeader} {nAdjustedTime : Int}
    (enabled : params.fCheckpointsEnabled = true) (found : getLastCheckpoint params state = some pcheckpoint)
    (passed : contextualCheckBlockHeader params state block pindexPrev nAdjustedTime = .ok ()) :
    state.nHeight pcheckpoint ≤ state.nHeight pindexPrev + 1 := by
  obtain ⟨_, _, passed⟩ := ok_of_bind passed
  obtain ⟨_, checkpoint, _⟩ := ok_of_bind passed
  have after := check_ok checkpoint
  simpa [beforeCheckpoint, enabled, found] using after

lemma addLeaf_nHeight {hash : Uint256} {after : params.State} {fresh : ¬state.Known hash}
    {known : state.Known parent}
    (grown : after.mapBlockIndex = state.mapBlockIndex.addLeaf hash parent fresh known) :
    (∀ other, state.Known other → after.nHeight other = state.nHeight other) ∧
      after.nHeight hash = state.nHeight parent + 1 := by
  constructor
  · intro other listed
    have same : after.path other = state.path other := by
      rw [path, grown]
      exact LeafTree.addLeaf_path_of_mem fresh known listed
    rw [nHeight, same, nHeight]
  · have shape : after.path hash = hash :: state.path parent := by
      rw [path, grown]
      exact LeafTree.addLeaf_path fresh known
    rw [nHeight, shape, nHeight]
    simp

/-- No new header that arrives is at the height of the last known checkpoint. -/
def ChainCall.OffCheckpoint (crypto : Crypto) (state : params.State) (call : ChainCall) : Prop :=
  ∀ header, call.header = some header → ¬state.Known (getBlockHash crypto header) →
    ∀ pcheckpoint, getLastCheckpoint params state = some pcheckpoint →
      state.nHeight header.hashPrevBlock + 1 ≠ state.nHeight pcheckpoint

variable (crypto params address) in
inductive CheckpointRun (pcheckpoint : Uint256) (first : params.State) : params.State → Prop
  | start : CheckpointRun pcheckpoint first first
  | call {state last : params.State} (call : ChainCall) (turns : Nat)
      (run : CheckpointRun pcheckpoint first state)
      (found : getLastCheckpoint params state = some pcheckpoint) (named : call.Named state)
      (off : call.OffCheckpoint crypto state)
      (done : call.perform crypto params address turns state = .ok last) :
      CheckpointRun pcheckpoint first last

lemma ChainCall.perform_checkpoint {call : ChainCall} {turns : Nat} (rooted : state.Rooted)
    (enabled : params.fCheckpointsEnabled = true)
    (found : getLastCheckpoint params state = some pcheckpoint) (named : call.Named state)
    (off : call.OffCheckpoint crypto state) (done : call.perform crypto params address turns state = .ok last) :
    (∀ hash, state.Known hash → last.nHeight hash = state.nHeight hash) ∧
      ∀ hash, last.Known hash → state.Known hash ∨ last.nHeight pcheckpoint < last.nHeight hash := by
  have listed := getLastCheckpoint_known found
  rcases (call.perform_grows rooted named done).2 with same | ⟨header, fresh, known, time, brings, grown, checked⟩
  · refine ⟨fun hash _ => ?_, fun hash member => Or.inl ?_⟩
    · rw [nHeight, path, same, nHeight]
    · rwa [Known, same] at member
  · obtain ⟨kept, height⟩ := addLeaf_nHeight grown
    refine ⟨kept, fun hash member => ?_⟩
    rw [Known, grown] at member
    rcases List.mem_cons.mp member with rfl | old
    · right
      have above := contextualCheckBlockHeader_checkpoint enabled found checked
      have other := off header brings fresh pcheckpoint found
      rw [kept pcheckpoint listed, height]
      omega
    · exact Or.inl old

/-- From a reachable state with a last checkpoint on, no entry is added at or below its height. -/
theorem CheckpointRun.adds_above_checkpoint {header : CBlockHeader} (enabled : params.fCheckpointsEnabled = true)
    (reached : ChainRun crypto params address header first)
    (run : CheckpointRun crypto params address pcheckpoint first last) :
    ∀ hash, last.Known hash → first.Known hash ∨ last.nHeight pcheckpoint < last.nHeight hash := by
  have goes : last.Rooted ∧
      ∀ hash, last.Known hash → first.Known hash ∨ last.nHeight pcheckpoint < last.nHeight hash := by
    induction run with
    | start => exact ⟨reached.rooted, fun _ => Or.inl⟩
    | call call turns run found named off done ih =>
      obtain ⟨rooted, before⟩ := ih
      obtain ⟨kept, added⟩ := call.perform_checkpoint rooted enabled found named off done
      refine ⟨(call.perform_grows rooted named done).1, fun hash listed => ?_⟩
      rcases added hash listed with old | above
      · rw [kept hash old, kept pcheckpoint (getLastCheckpoint_known found)]
        exact before hash old
      · exact Or.inr above
  exact goes.2

end Checkpoint

namespace Fork

open Sample

def checkpoint : CBlock := block genesis 1 1 1
def rival : CBlock := block genesis 1 1 2
def child : CBlock := block (hash checkpoint) 2 2 1

def checkpoints : List (Int × Uint256) := [(1, hash checkpoint)]

def arrival (block : CBlock) : ChainCall := .acceptBlockHeader outside block.toCBlockHeader none

theorem child_above_checkpoint :
    ∃ first last, ChainRun Crypto.suffixes (params checkpoints) address genesisHeader first ∧
      CheckpointRun Crypto.suffixes (params checkpoints) address (hash checkpoint) first last ∧
      (last.Known (hash child) ∧ ¬first.Known (hash child)) ∧ ∀ hash, last.Known hash → first.Known hash ∨
        last.nHeight (Sample.hash checkpoint) < last.nHeight hash := by
  obtain ⟨first, added, found, height, last, done, listed⟩ : ∃ first, (arrival checkpoint).perform Crypto.suffixes
      (params checkpoints) address 0 (Sample.start checkpoints) = .ok first ∧
        getLastCheckpoint (params checkpoints) first = some (hash checkpoint) ∧
        first.nHeight (hash checkpoint) + 1 ≠ first.nHeight (hash checkpoint) ∧
        ∃ last, (arrival child).perform Crypto.suffixes (params checkpoints) address 0 first = .ok last ∧
          last.Known (hash child) ∧ ¬first.Known (hash child) := by decide +kernel
  have reached : ChainRun Crypto.suffixes (params checkpoints) address genesisHeader first :=
    ChainRun.start.call (arrival checkpoint) 0 trivial added
  have off : (arrival child).OffCheckpoint Crypto.suffixes first := by
    intro header brings _ pcheckpoint known
    obtain rfl := Option.some.inj brings
    obtain rfl := Option.some.inj (found.symm.trans known)
    exact height
  have run := CheckpointRun.start.call (arrival child) 0 found trivial off done
  exact ⟨first, last, reached, run, listed, run.adds_above_checkpoint rfl reached⟩

/-- The checkpoint is known, and yet a second header of its height is added. -/
theorem rival_of_checkpoint_added :
    ∃ state after, ChainRun Crypto.suffixes (params checkpoints) address genesisHeader state ∧
      (arrival rival).perform Crypto.suffixes (params checkpoints) address 0 state = .ok after ∧
      getLastCheckpoint (params checkpoints) state = some (hash checkpoint) ∧
      ¬state.Known (hash rival) ∧ after.Known (hash rival) ∧
      after.nHeight (hash rival) = after.nHeight (hash checkpoint) := by
  obtain ⟨state, added, after, done, facts⟩ : ∃ state, (arrival checkpoint).perform Crypto.suffixes
      (params checkpoints) address 0 (Sample.start checkpoints) = .ok state ∧
        ∃ after, (arrival rival).perform Crypto.suffixes (params checkpoints) address 0 state = .ok after ∧
          getLastCheckpoint (params checkpoints) state = some (hash checkpoint) ∧
          ¬state.Known (hash rival) ∧ after.Known (hash rival) ∧
          after.nHeight (hash rival) = after.nHeight (hash checkpoint) := by decide +kernel
  have reached : ChainRun Crypto.suffixes (params checkpoints) address genesisHeader state :=
    ChainRun.start.call (arrival checkpoint) 0 trivial added
  exact ⟨state, after, reached, done, facts⟩

end Fork

end Dragonchain
