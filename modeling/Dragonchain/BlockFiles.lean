import Mathlib.Data.List.Induction
import Dragonchain.TxVerify

/-!
The block files of validation.cpp and their pruning. `blk` says which heights are on disk
in a file; the undo file of the same number goes with it. A full disk aborts the node.
-/

namespace Dragonchain.BlockFiles

open List Function

variable {nCurrentUsage fileNumber nAddSize : Nat}

def MIN_BLOCKS_TO_KEEP : Nat := 288
def MAX_BLOCKFILE_SIZE : Nat := 0x8000000
def BLOCKFILE_CHUNK_SIZE : Nat := 0x1000000
def UNDOFILE_CHUNK_SIZE : Nat := 0x100000
def TIMESTAMP_WINDOW : Int := 60

structure CBlockFileInfo where
  nSize : Nat := 0
  nUndoSize : Nat := 0
  nHeightLast : Nat := 0

structure DiskEntry where
  nFile : Nat := 0
  haveData : Bool := false
  haveUndo : Bool := false

/-- The nTimeMax of the blocks of the active chain; heights are ints. -/
structure ActiveChain where
  times : List Int
  short : times.length ≤ 2 ^ 31

def ActiveChain.height (chain : ActiveChain) : Nat := chain.times.length - 1

structure Settings where
  fPruneMode : Bool
  nPruneTarget : Nat
  nPruneAfterHeight : Nat

structure State where
  chainActive : ActiveChain
  mapBlockIndex : Uint256 → DiskEntry := fun _ => {}
  vinfoBlockFile : Nat → CBlockFileInfo := fun _ => {}
  nLastBlockFile : Nat := 0
  fCheckForPruning : Bool := false
  blk : Nat → List Nat := fun _ => []
  removed : List Nat := []

namespace State
variable (settings : Settings) (state : State)

def chunks (size chunk : Nat) : Nat := (size + chunk - 1) / chunk

/-- FindBlockPos for a block that is not on disk yet, with the file it takes. A block is
smaller than a file, so that the next file has room. -/
def findBlockPos (nAddSize nHeight : Nat) : Nat × State :=
  let nFile := if (state.vinfoBlockFile state.nLastBlockFile).nSize + nAddSize ≥ MAX_BLOCKFILE_SIZE then
    state.nLastBlockFile + 1 else state.nLastBlockFile
  let info := state.vinfoBlockFile nFile
  (nFile, { state with
    nLastBlockFile := nFile
    vinfoBlockFile := Function.update state.vinfoBlockFile nFile
      { info with nHeightLast := max info.nHeightLast nHeight, nSize := info.nSize + nAddSize }
    fCheckForPruning := state.fCheckForPruning || settings.fPruneMode &&
      chunks (info.nSize + nAddSize) BLOCKFILE_CHUNK_SIZE > chunks info.nSize BLOCKFILE_CHUNK_SIZE })

def acceptBlock (hash : Uint256) (nHeight nAddSize : Nat) : State :=
  if (state.mapBlockIndex hash).haveData then state
  else
    let (nFile, state) := state.findBlockPos settings nAddSize nHeight
    { state with
      mapBlockIndex := Function.update state.mapBlockIndex hash
        { state.mapBlockIndex hash with nFile, haveData := true }
      blk := Function.update state.blk nFile (nHeight :: state.blk nFile) }

/-- WriteUndoDataForBlock, for a block that ConnectBlock has read from disk. -/
def writeUndoData (hash : Uint256) (nAddSize : Nat) : State :=
  let entry := state.mapBlockIndex hash
  if !entry.haveData || entry.haveUndo then state
  else
    let info := state.vinfoBlockFile entry.nFile
    { state with
      mapBlockIndex := Function.update state.mapBlockIndex hash { entry with haveUndo := true }
      vinfoBlockFile := Function.update state.vinfoBlockFile entry.nFile
        { info with nUndoSize := info.nUndoSize + nAddSize }
      fCheckForPruning := state.fCheckForPruning || settings.fPruneMode &&
        chunks (info.nUndoSize + nAddSize) UNDOFILE_CHUNK_SIZE > chunks info.nUndoSize UNDOFILE_CHUNK_SIZE }

def pruneOneBlockFile (fileNumber : Nat) : State :=
  { state with
    mapBlockIndex := fun hash =>
      if (state.mapBlockIndex hash).nFile = fileNumber then {} else state.mapBlockIndex hash
    vinfoBlockFile := Function.update state.vinfoBlockFile fileNumber {} }

/-- Tip()->nHeight - MIN_BLOCKS_TO_KEEP, of unsigned ints. -/
def lastBlockWeCanPrune : Nat := (state.chainActive.height + 2 ^ 32 - MIN_BLOCKS_TO_KEEP) % 2 ^ 32

variable (nManualPruneHeight : Nat)

/-- The files the two loops choose; a pruned file does not change what the next ones say. -/
def manualFiles : List Nat :=
  (range state.nLastBlockFile).filter fun fileNumber =>
    !((state.vinfoBlockFile fileNumber).nSize = 0 ||
      (state.vinfoBlockFile fileNumber).nHeightLast > min nManualPruneHeight state.lastBlockWeCanPrune)

def automaticFiles : List Nat → Nat → List Nat
  | [], _ => []
  | fileNumber :: rest, nCurrentUsage =>
    let info := state.vinfoBlockFile fileNumber
    if info.nSize = 0 then automaticFiles rest nCurrentUsage
    else if nCurrentUsage + (BLOCKFILE_CHUNK_SIZE + UNDOFILE_CHUNK_SIZE) < settings.nPruneTarget then []
    else if info.nHeightLast > state.lastBlockWeCanPrune then automaticFiles rest nCurrentUsage
    else fileNumber :: automaticFiles rest (nCurrentUsage - (info.nSize + info.nUndoSize))

def calculateCurrentUsage : Nat :=
  ((range (state.nLastBlockFile + 1)).map fun fileNumber =>
    (state.vinfoBlockFile fileNumber).nSize + (state.vinfoBlockFile fileNumber).nUndoSize).sum

def filesToPrune : List Nat :=
  if !(settings.fPruneMode && (state.fCheckForPruning || nManualPruneHeight > 0)) then []
  else if nManualPruneHeight > 0 then state.manualFiles nManualPruneHeight
  else if settings.nPruneTarget = 0 || state.chainActive.height ≤ settings.nPruneAfterHeight then []
  else state.automaticFiles settings (range state.nLastBlockFile) state.calculateCurrentUsage

/-- The pruning in FlushStateToDisk, with UnlinkPrunedFiles. -/
def flushStateToDisk : State :=
  let files := state.filesToPrune settings nManualPruneHeight
  { files.foldl pruneOneBlockFile state with
    fCheckForPruning := state.fCheckForPruning && (!settings.fPruneMode || nManualPruneHeight > 0)
    removed := state.removed ++ files
    blk := fun fileNumber => if fileNumber ∈ files then [] else state.blk fileNumber }

variable (heightParam : Int)

/-- The height of a request, which may be a time. -/
def requestedHeight : Except String Nat :=
  if !settings.fPruneMode then .error "Cannot prune blocks because node is not in prune mode."
  else if heightParam < 0 then .error "Negative block height."
  else if heightParam > 1000000000 then
    match state.chainActive.times.findIdx? (· ≥ heightParam - TIMESTAMP_WINDOW) with
    | none => .error "Could not find block with at least the specified timestamp."
    | some height => .ok height
  else .ok heightParam.toNat

def pruneHeight : Except String Nat := do
  let height ← state.requestedHeight settings heightParam
  let chainHeight := state.chainActive.height
  if chainHeight < settings.nPruneAfterHeight then .error "Blockchain is too short for pruning."
  else if height > chainHeight then .error "Blockchain is shorter than the attempted prune height."
  else if height > state.lastBlockWeCanPrune then .ok state.lastBlockWeCanPrune
  else .ok height

end State

inductive Call where
  | acceptBlock (hash : Uint256) (nHeight nAddSize : Nat)
  | writeUndoData (hash : Uint256) (nAddSize : Nat)
  | setTip (chain : ActiveChain)
  | flushStateToDisk
  | pruneblockchain (heightParam : Int)

namespace Call
variable (settings : Settings) (state : State)

def perform : Call → State
  | acceptBlock hash nHeight nAddSize => state.acceptBlock settings hash nHeight nAddSize
  | writeUndoData hash nAddSize => state.writeUndoData settings hash nAddSize
  | setTip chainActive => { state with chainActive }
  | flushStateToDisk => state.flushStateToDisk settings 0
  | pruneblockchain heightParam =>
    match state.pruneHeight settings heightParam with
    | .error _ => state
    | .ok height => state.flushStateToDisk settings height

def pruned : Call → List Nat
  | flushStateToDisk => state.filesToPrune settings 0
  | pruneblockchain heightParam =>
    match state.pruneHeight settings heightParam with
    | .error _ => []
    | .ok height => state.filesToPrune settings height
  | _ => []

end Call

structure Kept (state : State) : Prop where
  heights : ∀ fileNumber, ∀ height ∈ state.blk fileNumber, height ≤ (state.vinfoBlockFile fileNumber).nHeightLast
  behind : ∀ fileNumber ∈ state.removed, fileNumber < state.nLastBlockFile
  present : ∀ hash, (state.mapBlockIndex hash).haveData = true ∨ (state.mapBlockIndex hash).haveUndo = true →
    (state.mapBlockIndex hash).nFile ∉ state.removed

section
variable {settings : Settings} {state : State}

/-- An entry that is pruned once stays pruned, also when file 0 is pruned later. -/
lemma foldl_pruneOneBlockFile (files : List Nat) (state : State) :
    files.foldl State.pruneOneBlockFile state = { state with
      mapBlockIndex := fun hash => if (state.mapBlockIndex hash).nFile ∈ files then {} else state.mapBlockIndex hash
      vinfoBlockFile := fun fileNumber => if fileNumber ∈ files then {} else state.vinfoBlockFile fileNumber } := by
  induction files generalizing state with
  | nil => simp
  | cons first files ih =>
    rw [foldl_cons, ih]
    unfold State.pruneOneBlockFile
    congr 1
    · funext hash
      by_cases same : (state.mapBlockIndex hash).nFile = first <;> simp [same]
    · funext fileNumber
      by_cases same : fileNumber = first <;> simp [same]

variable {nManualPruneHeight : Nat}

lemma mem_automaticFiles {fileNumbers : List Nat}
    (chosen : fileNumber ∈ state.automaticFiles settings fileNumbers nCurrentUsage) :
    fileNumber ∈ fileNumbers ∧ (state.vinfoBlockFile fileNumber).nHeightLast ≤ state.lastBlockWeCanPrune := by
  induction fileNumbers generalizing nCurrentUsage with
  | nil => cases chosen
  | cons first rest ih =>
    unfold State.automaticFiles at chosen
    dsimp only at chosen
    split_ifs at chosen with empty below high
    · exact ⟨.tail _ (ih chosen).1, (ih chosen).2⟩
    · cases chosen
    · exact ⟨.tail _ (ih chosen).1, (ih chosen).2⟩
    · rcases mem_cons.mp chosen with rfl | later
      · exact ⟨mem_cons_self, Nat.le_of_not_gt high⟩
      · exact ⟨.tail _ (ih later).1, (ih later).2⟩

lemma mem_filesToPrune
    (chosen : fileNumber ∈ state.filesToPrune settings nManualPruneHeight) : fileNumber < state.nLastBlockFile ∧
      (state.vinfoBlockFile fileNumber).nHeightLast ≤ state.lastBlockWeCanPrune ∧
      (nManualPruneHeight = 0 → settings.nPruneAfterHeight < state.chainActive.height) := by
  unfold State.filesToPrune at chosen
  split_ifs at chosen with off manual short
  · cases chosen
  · obtain ⟨inside, passed⟩ := mem_filter.mp chosen
    simp only [Bool.not_eq_true', Bool.or_eq_false_iff, decide_eq_false_iff_not, not_lt, le_min_iff] at passed
    exact ⟨mem_range.mp inside, passed.2.2, fun zero => absurd zero manual.ne'⟩
  · cases chosen
  · obtain ⟨inside, low⟩ := mem_automaticFiles chosen
    simp only [Bool.or_eq_true, decide_eq_true_eq, not_or, not_le] at short
    exact ⟨mem_range.mp inside, low, fun _ => short.2⟩

variable (kept : Kept state)
include kept

lemma acceptBlock_kept {hash : Uint256} {nHeight : Nat} :
    Kept (state.acceptBlock settings hash nHeight nAddSize) := by
  unfold State.acceptBlock
  split
  · exact kept
  unfold State.findBlockPos
  generalize chosen : (if (state.vinfoBlockFile state.nLastBlockFile).nSize + nAddSize ≥ MAX_BLOCKFILE_SIZE then
    state.nLastBlockFile + 1 else state.nLastBlockFile) = nFile
  have later : state.nLastBlockFile ≤ nFile := by
    rw [← chosen]
    split_ifs <;> omega
  refine ⟨?_, fun fileNumber gone => (kept.behind fileNumber gone).trans_le later, ?_⟩
  · intro fileNumber height member
    dsimp only at member ⊢
    by_cases same : fileNumber = nFile
    · subst same
      rw [update_self] at member ⊢
      rcases mem_cons.mp member with rfl | old
      · exact le_max_right _ _
      · exact (kept.heights _ _ old).trans (le_max_left _ _)
    · rw [update_of_ne same] at member ⊢
      exact kept.heights _ _ member
  · intro other flagged
    dsimp only at flagged ⊢
    by_cases same : other = hash
    · subst same
      rw [update_self]
      exact fun gone => absurd (kept.behind _ gone) (not_lt.mpr later)
    · rw [update_of_ne same] at flagged ⊢
      exact kept.present other flagged

lemma writeUndoData_kept {hash : Uint256} : Kept (state.writeUndoData settings hash nAddSize) := by
  unfold State.writeUndoData
  dsimp only
  split
  · exact kept
  refine ⟨?_, kept.behind, ?_⟩
  · intro fileNumber height member
    dsimp only at member ⊢
    by_cases same : fileNumber = (state.mapBlockIndex hash).nFile
    · subst same
      rw [update_self]
      exact kept.heights _ _ member
    · rw [update_of_ne same]
      exact kept.heights _ _ member
  · intro other flagged
    dsimp only at flagged ⊢
    by_cases same : other = hash
    · subst same
      rw [update_self]
      exact kept.present other (by simp_all)
    · rw [update_of_ne same] at flagged ⊢
      exact kept.present other flagged

lemma flushStateToDisk_kept : Kept (state.flushStateToDisk settings nManualPruneHeight) := by
  unfold State.flushStateToDisk
  dsimp only
  rw [foldl_pruneOneBlockFile]
  refine ⟨fun fileNumber => ?_, fun fileNumber gone => ?_, fun hash flagged => ?_⟩
  · dsimp only
    split_ifs
    · exact nofun
    · exact kept.heights fileNumber
  · rcases mem_append.mp gone with old | new
    · exact kept.behind _ old
    · exact (mem_filesToPrune new).1
  · dsimp only at flagged ⊢
    split_ifs at flagged ⊢ with cleared
    · simp at flagged
    · rw [mem_append, not_or]
      exact ⟨kept.present hash flagged, cleared⟩

lemma Call.perform_kept (call : Call) : Kept (call.perform settings state) := by
  cases call with
  | acceptBlock hash nHeight nAddSize => exact acceptBlock_kept kept
  | writeUndoData hash nAddSize => exact writeUndoData_kept kept
  | setTip chainActive => exact ⟨kept.heights, kept.behind, kept.present⟩
  | flushStateToDisk => exact flushStateToDisk_kept kept
  | pruneblockchain heightParam =>
    rw [perform]
    split
    · exact kept
    · exact flushStateToDisk_kept kept

omit kept

lemma Call.pruned_le (late : 1000 ≤ settings.nPruneAfterHeight) (kept : Kept state) {call : Call}
    (pruned : fileNumber ∈ call.pruned settings state) :
    ∀ height ∈ state.blk fileNumber, height + MIN_BLOCKS_TO_KEEP ≤ state.chainActive.height := by
  intro height member
  have low := kept.heights _ _ member
  suffices long : settings.nPruneAfterHeight ≤ state.chainActive.height ∧
      (state.vinfoBlockFile fileNumber).nHeightLast ≤ state.lastBlockWeCanPrune by
    unfold State.lastBlockWeCanPrune at long
    unfold ActiveChain.height MIN_BLOCKS_TO_KEEP at *
    omega
  cases call with
  | flushStateToDisk =>
    obtain ⟨_, bound, long⟩ := mem_filesToPrune pruned
    exact ⟨(long rfl).le, bound⟩
  | pruneblockchain heightParam =>
    rw [Call.pruned] at pruned
    split at pruned
    · cases pruned
    rename_i passed
    obtain ⟨requested, _, passed⟩ := ok_of_bind passed
    dsimp only at passed
    split at passed
    · cases passed
    · exact ⟨not_lt.mp ‹_›, (mem_filesToPrune pruned).2.1⟩
  | _ => cases pruned

end

theorem pruning_keeps_blocks (settings : Settings) (late : 1000 ≤ settings.nPruneAfterHeight) (chain : ActiveChain)
    (calls : List Call) (call : Call) (state : State)
    (reached : state = calls.foldl (Call.perform settings) { chainActive := chain }) :
    (∀ fileNumber ∈ call.pruned settings state, ∀ height ∈ state.blk fileNumber,
      height + MIN_BLOCKS_TO_KEEP ≤ state.chainActive.height) ∧
    ∀ hash, ((call.perform settings state).mapBlockIndex hash).haveData = true ∨
        ((call.perform settings state).mapBlockIndex hash).haveUndo = true →
      ((call.perform settings state).mapBlockIndex hash).nFile ∉ (call.perform settings state).removed := by
  have kept : Kept state := by
    subst reached
    induction calls using List.reverseRecOn with
    | nil => exact ⟨nofun, nofun, nofun⟩
    | append_singleton calls call ih =>
      rw [foldl_concat]
      exact call.perform_kept ih
  exact ⟨fun _ pruned => Call.pruned_le late kept pruned, (call.perform_kept kept).present⟩

namespace TwoFiles

def settings : Settings := ⟨true, 1, 1000⟩

def chain : ActiveChain := ⟨replicate 1501 0, by rw [length_replicate]; decide⟩

def calls : List Call :=
  [.acceptBlock (Uint256.filled 1) 700 100000000, .acceptBlock (Uint256.filled 2) 900 100000000]

def state : State := calls.foldl (Call.perform settings) { chainActive := chain }

theorem first_file_pruned : 0 ∈ (Call.pruneblockchain 1200).pruned settings state ∧
    ∀ height ∈ state.blk 0, height + MIN_BLOCKS_TO_KEEP ≤ state.chainActive.height := by
  have chosen : 0 ∈ (Call.pruneblockchain 1200).pruned settings state := by decide +kernel
  exact ⟨chosen, (pruning_keeps_blocks settings (by decide) chain calls
    (.pruneblockchain 1200) state rfl).1 0 chosen⟩

end TwoFiles

end Dragonchain.BlockFiles
