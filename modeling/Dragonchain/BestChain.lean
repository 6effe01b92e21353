import Dragonchain.AcceptBlock

/-!
The functions of CChainState that choose and change the active chain. ConnectBlock is
known here by its verdict on each entry, which a call of ActivateBestChain is given;
DisconnectBlock succeeds on every block but the genesis block, which has no undo data.
The loops of ActivateBestChain run on a number of turns: running out of them is a loop
that does not end.
-/

namespace Dragonchain

open Serialization

namespace CChainState

variable {genesis : Uint256} (address : Uint256 ↪ Nat)

/-- The walk of FindMostWorkChain along pprev: the entry that rules the candidate out. -/
def firstUnusable (state : CChainState genesis) : List Uint256 → Except ChainFault (Option Uint256)
  | [] => .ok none
  | pindexTest :: rest =>
    if pindexTest ∈ state.chainActive then .ok none
    else if state.nChainTx pindexTest = 0 ∧ state.nHeight pindexTest ≠ 0 then
      .error .candidateNotLinked
    else if (state.nStatus pindexTest).failed || !(state.nStatus pindexTest).haveData then
      .ok (some pindexTest)
    else firstUnusable state rest

variable (state : CChainState genesis)

/-- `Remove the entire chain from the set`. -/
def dropCandidate (pindexNew pindexTest : Uint256) : CChainState genesis :=
  let walk := (state.path pindexNew).takeWhile fun pindexFailed => pindexFailed ≠ pindexTest
  let dropped := { state with
    setBlockIndexCandidates := state.setBlockIndexCandidates.filter fun pindex =>
      !decide (pindex ∈ walk ∨ pindex = pindexTest) }
  if (state.nStatus pindexTest).failed then dropped.setFailedChild walk
  else
    { dropped with
      mapBlocksUnlinked := state.mapBlocksUnlinked ++
        walk.filterMap fun pindexFailed => (state.pprev pindexFailed).map fun pprev => (pprev, pindexFailed) }

def findMostWorkTurn : Except ChainFault ((Option Uint256 × CChainState genesis) ⊕ CChainState genesis) :=
  match state.last address state.setBlockIndexCandidates with
  | none => .ok (.inl (none, state))
  | some pindexNew =>
    match state.firstUnusable (state.path pindexNew) with
    | .error fault => .error fault
    | .ok none => .ok (.inl (some pindexNew, state))
    | .ok (some pindexTest) => .ok (.inr (state.dropCandidate pindexNew pindexTest))

/-- FindMostWorkChain. A turn that goes on removes a candidate, which bounds the turns. -/
def findMostWorkChain : Except ChainFault (Option Uint256 × CChainState genesis) :=
  runLoop .endless (findMostWorkTurn address) (state.setBlockIndexCandidates.length + 1) state

def pruneBlockIndexCandidates : Except ChainFault (CChainState genesis) :=
  let kept := state.setBlockIndexCandidates.filter fun pindex => !state.workComparator address pindex state.tip
  if kept.isEmpty then .error .noCandidates
  else .ok { state with setBlockIndexCandidates := kept }

/-- `while (...) DisconnectTip`, over the entries of the active chain from its tip on, with
the result of the last DisconnectTip. -/
def disconnectWhile (more : Uint256 → Bool) : List Uint256 → CChainState genesis → Bool × CChainState genesis
  | pindexDelete :: pprev :: rest, state =>
    if more pindexDelete then disconnectWhile more (pprev :: rest) { state with tip := pprev }
    else (true, state)
  | [pindexDelete], state => (!more pindexDelete, state)
  | [], state => (true, state)

variable (pindex : Uint256)

def invalidBlockFound : CChainState genesis :=
  let failed := state.setFailedValid pindex
  { failed with
    g_failed_blocks := if pindex ∈ state.g_failed_blocks then state.g_failed_blocks
      else state.g_failed_blocks.orderedInsert (fun first second => address first ≤ address second) pindex
    setBlockIndexCandidates := state.setBlockIndexCandidates.filter fun other => other ≠ pindex }

variable (connectBlock : Uint256 → Bool)

def connectTip (state : CChainState genesis) (pindexNew : Uint256) :
    Except ChainFault (Bool × CChainState genesis) :=
  if state.pprev pindexNew ≠ some state.tip then .error .parentNotTip
  else if connectBlock pindexNew then
    let raised := state.modify pindexNew fun entry =>
      { entry with nStatus := entry.nStatus.raiseValidity BLOCK_VALID_SCRIPTS }
    .ok (true, { raised with tip := pindexNew })
  else .ok (false, state.invalidBlockFound address pindexNew)

/-- The loop of ActivateBestChainStep over the blocks to connect, with fInvalidFound. It
stops as soon as the tip has more work than the old one. -/
def connectBlocks (connectBlock : Uint256 → Bool) (nOldWork : Nat) :
    List Uint256 → CChainState genesis → Except ChainFault (Bool × CChainState genesis)
  | [], state => .ok (false, state)
  | pindexConnect :: rest, state => do
    let (connected, state) ← state.connectTip address connectBlock pindexConnect
    if !connected then .ok (true, state)
    else
      let state ← state.pruneBlockIndexCandidates address
      if state.nChainWork state.tip > nOldWork then .ok (false, state)
      else connectBlocks connectBlock nOldWork rest state

def findFork : Option Uint256 := (state.path pindex).find? fun hash => hash ∈ state.chainActive

def activateBestChainStep (state : CChainState genesis)
    (pindexMostWork : Uint256) : Except ChainFault (Bool × Bool × CChainState genesis) := do
  let pindexFork := state.findFork pindexMostWork
  let (disconnected, forked) := disconnectWhile (fun tip => some tip ≠ pindexFork) state.chainActive state
  if !disconnected then .ok (false, false, forked)
  else
    let vpindexToConnect := ((state.path pindexMostWork).takeWhile fun hash => some hash ≠ pindexFork).reverse
    let (fInvalidFound, connected) ← connectBlocks address connectBlock (state.nChainWork state.tip)
      vpindexToConnect forked
    .ok (true, fInvalidFound, connected)

/-- The locals of ActivateBestChain that live through its two loops. -/
structure Activation where
  pindexMostWork : Option Uint256
  pindexNewTip : Option Uint256
  starting_tip : Uint256
  blocks_connected : Bool

variable (locals : Activation)

/-- What follows the inner loop of ActivateBestChain: the call ends, or the outer loop
goes round again. -/
def leaveInner (state : CChainState genesis) : (Bool × CChainState genesis) ⊕ (Activation × CChainState genesis) :=
  if !locals.blocks_connected || decide (locals.pindexNewTip = locals.pindexMostWork) then
    .inl (true, state)
  else .inr ({ locals with starting_tip := state.tip, blocks_connected := false }, state)

/-- A run of the body of the inner loop for the chain that was chosen. -/
def activateTowards (state : CChainState genesis) (pindexMostWork : Uint256) :
    Except ChainFault ((Bool × CChainState genesis) ⊕ (Activation × CChainState genesis)) :=
  if pindexMostWork = state.tip then
    .ok (leaveInner { locals with pindexMostWork := some pindexMostWork } state)
  else
    match state.activateBestChainStep address connectBlock pindexMostWork with
    | .error fault => .error fault
    | .ok (false, _, state) => .ok (.inl (false, state))
    | .ok (true, fInvalidFound, state) =>
      let locals := { locals with
        pindexMostWork := if fInvalidFound then none else some pindexMostWork
        pindexNewTip := some state.tip
        blocks_connected := true }
      if state.workComparator address state.tip locals.starting_tip then .ok (.inr (locals, state))
      else .ok (leaveInner locals state)

def activateTurn : Activation × CChainState genesis →
    Except ChainFault ((Bool × CChainState genesis) ⊕ (Activation × CChainState genesis))
  | (locals, state) =>
    match locals.pindexMostWork with
    | some pindexMostWork => activateTowards address connectBlock locals state pindexMostWork
    | none =>
      match state.findMostWorkChain address with
      | .error fault => .error fault
      | .ok (none, state) => .ok (leaveInner locals state)
      | .ok (some pindexMostWork, state) => activateTowards address connectBlock locals state pindexMostWork

def activateBestChain (turns : Nat) (state : CChainState genesis) :
    Except ChainFault (Bool × CChainState genesis) :=
  runLoop .endless (activateTurn address connectBlock) turns (⟨none, none, state.tip, false⟩, state)

/-- The sequence id that PreciousBlock gives to its block. -/
def preciousSequenceId : Int :=
  if state.nChainWork state.tip > state.nLastPreciousChainwork then -1 else state.nBlockReverseSequenceId

/-- PreciousBlock up to where the block may become a candidate again. -/
def movePrecious : CChainState genesis :=
  let nSequenceId := state.preciousSequenceId
  { state.modify pindex fun entry => { entry with nSequenceId } with
    setBlockIndexCandidates := state.setBlockIndexCandidates.filter fun other => other ≠ pindex
    nLastPreciousChainwork := state.nChainWork state.tip
    nBlockReverseSequenceId := if nSequenceId > -2 ^ 31 then nSequenceId - 1 else nSequenceId }

/-- The part of PreciousBlock that is done under cs_main. -/
def makePrecious : Except ChainFault (CChainState genesis) :=
  let moved := state.movePrecious pindex
  if (moved.nStatus pindex).isValid BLOCK_VALID_TRANSACTIONS && moved.nChainTx pindex != 0 then
    { moved with setBlockIndexCandidates := moved.setBlockIndexCandidates.insert pindex
      }.pruneBlockIndexCandidates address
  else .ok moved

def preciousBlock (turns : Nat) (state : CChainState genesis)
    (pindex : Uint256) : Except ChainFault (Bool × CChainState genesis) :=
  if state.nChainWork pindex < state.nChainWork state.tip then .ok (true, state)
  else do
    let state ← state.makePrecious address pindex
    state.activateBestChain address connectBlock turns

/-- InvalidateBlock after the blocks have been disconnected: they, then pindex, are marked. -/
def markInvalid (walk : List Uint256) (pindex : Uint256) : CChainState genesis :=
  ({ state with
    setBlockIndexCandidates := state.setBlockIndexCandidates.filter fun other => other ∉ walk
    }.setFailedChild walk).invalidBlockFound address pindex

/-- `The resulting new best tip may not be in setBlockIndexCandidates anymore`. -/
def refillCandidates : CChainState genesis :=
  { state with
    setBlockIndexCandidates := state.mapBlockIndex.nodes.foldl (fun candidates other =>
      if (state.nStatus other).isValid BLOCK_VALID_TRANSACTIONS && state.nChainTx other != 0
          && !state.workComparator address other state.tip then candidates.insert other
      else candidates) state.setBlockIndexCandidates }

/-- InvalidateBlock: false where a block cannot be disconnected. -/
def invalidateBlock : Bool × CChainState genesis :=
  let walk := if pindex ∈ state.chainActive then state.chainActive.takeWhile fun tip => tip ≠ pindex else []
  let (disconnected, forked) := disconnectWhile (fun tip => pindex ∈ state.path tip) state.chainActive state
  if !disconnected then (false, forked)
  else (true, (forked.markInvalid address walk pindex).refillCandidates address)

/-- `nStatus &= ~BLOCK_FAILED_MASK` and the erasure from g_failed_blocks. -/
def clearFailure : CChainState genesis :=
  { state.modify pindex fun entry => { entry with nStatus := entry.nStatus.cleared } with
    g_failed_blocks := state.g_failed_blocks.filter fun failed => failed ≠ pindex }

def resetBelow (state : CChainState genesis) (other : Uint256) : CChainState genesis :=
  if !(state.nStatus other).isValid BLOCK_VALID_TRANSACTIONS && decide (pindex ∈ state.path other) then
    let cleared := state.clearFailure other
    if (cleared.nStatus other).isValid BLOCK_VALID_TRANSACTIONS && cleared.nChainTx other != 0
        && cleared.workComparator address cleared.tip other then
      { cleared with setBlockIndexCandidates := cleared.setBlockIndexCandidates.insert other }
    else cleared
  else state

def resetAbove : CChainState genesis := if (state.nStatus pindex).failed then state.clearFailure pindex else state

def resetBlockFailureFlags : CChainState genesis :=
  let below := state.mapBlockIndex.nodes.foldl (resetBelow address pindex) state
  (below.path pindex).foldl resetAbove below

end CChainState

/-- A call that changes the chain state, with what it is given. -/
inductive ChainCall where
  | acceptBlockHeader (outside : Surroundings) (header : CBlockHeader) (cache : Option PoWCache)
  | acceptBlock (outside : Surroundings) (object : BlockInMemory) (fRequested : Bool)
  | processNewBlock (outside : Surroundings) (object : BlockInMemory) (fForceProcessing : Bool)
      (connectBlock : Uint256 → Bool)
  | activateBestChain (connectBlock : Uint256 → Bool)
  | preciousBlock (pindex : Uint256) (connectBlock : Uint256 → Bool)
  | invalidateBlock (pindex : Uint256)
  | resetBlockFailureFlags (pindex : Uint256)

section Calls
variable (crypto : Crypto) (params : CChainParams) (address : Uint256 ↪ Nat)

/-- The cache that ProcessNewBlock takes over from the index. -/
def withIndexCache (state : params.State) (object : BlockInMemory) : BlockInMemory :=
  let hash := getBlockHash crypto object.block.toCBlockHeader
  if object.cache.isNone && decide (state.Known hash) then
    { object with cache := (state.blockIndex hash).cache }
  else object

def processNewBlock (turns : Nat) (outside : Surroundings) (state : params.State)
    (object : BlockInMemory) (fForceProcessing : Bool) (connectBlock : Uint256 → Bool) :
    Except ChainFault (Bool × params.State) :=
  match (withIndexCache crypto params state object).checkBlock crypto params with
  | .error _ => .ok (false, state)
  | .ok object => do
    let (accepted, state, _) ← acceptBlock crypto params address outside state object fForceProcessing
    match accepted with
    | .error _ => .ok (false, state)
    | .ok _ => state.activateBestChain address connectBlock turns

/-- The state after a call whose loops take at most the given number of turns. -/
def ChainCall.perform (turns : Nat) (state : params.State) : ChainCall → Except ChainFault params.State
  | .acceptBlockHeader outside header cache =>
    (Dragonchain.acceptBlockHeader crypto params outside state header cache).map fun (_, state, _) => state
  | .acceptBlock outside object fRequested =>
    (Dragonchain.acceptBlock crypto params address outside state object fRequested).map fun (_, state, _) => state
  | .processNewBlock outside object fForceProcessing connectBlock =>
    (Dragonchain.processNewBlock crypto params address turns outside state object fForceProcessing
      connectBlock).map Prod.snd
  | .activateBestChain connectBlock => (state.activateBestChain address connectBlock turns).map Prod.snd
  | .preciousBlock pindex connectBlock => (state.preciousBlock address connectBlock turns pindex).map Prod.snd
  | .invalidateBlock pindex => .ok (state.invalidateBlock address pindex).2
  | .resetBlockFailureFlags pindex => .ok (state.resetBlockFailureFlags address pindex)

/-- The state after one call after the other. -/
def performAll (turns : Nat) : List ChainCall → params.State → Except ChainFault params.State
  | [], state => .ok state
  | call :: calls, state => do
    let state ← call.perform crypto params address turns state
    performAll turns calls state

end Calls

end Dragonchain
