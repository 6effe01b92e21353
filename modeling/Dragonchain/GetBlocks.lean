import Dragonchain.BlockFiles
import Dragonchain.BlockIndex
import Dragonchain.Difficulty

/-!
The answer to a getblocks message (net_processing.cpp). A pruned node stops at the first block
that it may not keep for another hour.
-/

namespace Dragonchain.CChainState

open List

variable {genesis : Uint256} (state : CChainState genesis) (pow : PowParams) (fPruneMode : Bool)
  (vHave : List Uint256) (hashStop : Uint256)

def getAncestor (pindex : Uint256) (height : Nat) : Option Uint256 := (state.path pindex).reverse[height]?

def findForkInGlobalIndex : Uint256 :=
  (vHave.findSome? fun hash =>
    if state.Known hash then
      if hash ∈ state.chainActive then some hash
      else if state.getAncestor hash (state.chainActive.length - 1) = some state.tip then some state.tip
      else none
    else none).getD genesis

def nPrunedBlocksLikelyToHave : Int := BlockFiles.MIN_BLOCKS_TO_KEEP - (3600 : Int).tdiv pow.nPowTargetSpacing

/-- The loop along chainActive: what goes to PushInventory. -/
def announceFrom : Int → List Uint256 → List Uint256
  | _, [] => []
  | nLimit, pindex :: rest =>
    if pindex = hashStop then []
    else if fPruneMode && (!(state.nStatus pindex).haveData ||
        state.nHeight pindex ≤ state.nHeight state.tip - nPrunedBlocksLikelyToHave pow) then []
    else pindex :: if nLimit - 1 ≤ 0 then [] else announceFrom (nLimit - 1) rest

/-- The blocks of the active chain after the fork point. -/
def afterFork : List Uint256 := (state.chainActive.takeWhile (· ≠ state.findForkInGlobalIndex vHave)).reverse

def getBlocks : List Uint256 := state.announceFrom pow fPruneMode hashStop 500 (state.afterFork vHave)

/-- What a peer asks for. -/
def requested : List Uint256 := ((state.afterFork vHave).takeWhile (· ≠ hashStop)).take 500

lemma announceFrom_unpruned (count : Nat) (blocks : List Uint256) :
    state.announceFrom pow false hashStop (count + 1) blocks =
      (blocks.takeWhile (· ≠ hashStop)).take (count + 1) := by
  induction blocks generalizing count with
  | nil => rfl
  | cons pindex rest ih =>
    rw [announceFrom, Int.add_sub_cancel]
    by_cases stops : pindex = hashStop
    · simp [stops]
    · cases count with
      | zero => simp [stops]
      | succ count =>
        rw [if_neg (by omega), Nat.cast_succ, ih]
        simp [stops]

variable {state}

/-- An hour has more blocks than a pruned node has to keep. -/
lemma announceFrom_pruned {blocks : List Uint256} (known : state.Known state.tip)
    (active : ∀ pindex ∈ blocks, pindex ∈ state.chainActive) (nLimit : Int) :
    state.announceFrom .main true hashStop nLimit blocks = [] := by
  cases blocks with
  | nil => rfl
  | cons pindex rest =>
    obtain ⟨front, split⟩ := LeafTree.path_suffix known (active pindex mem_cons_self)
    have below : state.nHeight pindex ≤ state.nHeight state.tip - nPrunedBlocksLikelyToHave .main := by
      have likely : nPrunedBlocksLikelyToHave .main = -432 := by decide
      simp only [nHeight, path, split, length_append]
      omega
    rw [announceFrom]
    simp [below]

theorem getBlocks_eq_requested_iff (known : state.Known state.tip) :
    state.getBlocks .main fPruneMode vHave hashStop = state.requested vHave hashStop ↔
      fPruneMode = false ∨ state.requested vHave hashStop = [] := by
  cases fPruneMode with
  | false =>
    have all := announceFrom_unpruned state .main hashStop 499 (state.afterFork vHave)
    exact iff_of_true all (.inl rfl)
  | true =>
    have active : ∀ pindex ∈ state.afterFork vHave, pindex ∈ state.chainActive :=
      fun pindex member => (takeWhile_sublist _).subset (mem_reverse.mp member)
    rw [getBlocks, announceFrom_pruned hashStop known active, eq_comm]
    simp

/-- A genesis block and one block after it, with all data on disk. -/
def oneBehind : CChainState (Uint256.filled 1) :=
  { start (Uint256.filled 1) ⟨1, Uint256.null, Uint256.null, 0, 0x1d00ffff, 0⟩ with
    mapBlockIndex := (LeafTree.single (Uint256.filled 1)).addLeaf (Uint256.filled 2) (Uint256.filled 1)
      (by decide) (by decide)
    tip := Uint256.filled 2 }

/-- A pruned node that has nothing to tell, and one with all blocks that tells of its tip. -/
theorem getBlocks_at_tip :
    oneBehind.getBlocks .main true [Uint256.filled 2] Uint256.null =
        oneBehind.requested [Uint256.filled 2] Uint256.null ∧
    oneBehind.getBlocks .main false [Uint256.filled 1] Uint256.null =
        oneBehind.requested [Uint256.filled 1] Uint256.null ∧
    oneBehind.requested [Uint256.filled 1] Uint256.null = [Uint256.filled 2] := by
  have told (fPruneMode : Bool) (vHave : List Uint256) :=
    getBlocks_eq_requested_iff fPruneMode vHave Uint256.null (by decide : oneBehind.Known oneBehind.tip)
  exact ⟨(told true _).mpr (.inr (by decide)), (told false _).mpr (.inl rfl), by decide⟩

/-- No window will do: a peer one block behind is not told the tip. -/
theorem tip_not_announced : ¬∃ window : Int, 1 ≤ window ∧
    ∀ (genesis : Uint256) (state : CChainState genesis) (vHave : List Uint256) (hashStop : Uint256),
      state.Known state.tip →
      (∀ pindex ∈ state.chainActive.take BlockFiles.MIN_BLOCKS_TO_KEEP, (state.nStatus pindex).haveData = true) →
      state.nHeight state.tip - state.nHeight (state.findForkInGlobalIndex vHave) ≤ window →
      state.getBlocks .main true vHave hashStop = state.requested vHave hashStop := by
  rintro ⟨window, positive, told⟩
  have near : oneBehind.nHeight oneBehind.tip -
      oneBehind.nHeight (oneBehind.findForkInGlobalIndex [Uint256.filled 1]) ≤ 1 := by decide
  have same := told _ oneBehind [Uint256.filled 1] Uint256.null (by decide) (fun _ _ => rfl) (near.trans positive)
  revert same
  decide

end Dragonchain.CChainState
