import Dragonchain.Serialization

/-!
MerkleComputation of consensus/merkle.cpp. One pass over the leaves keeps the
hashes of the complete subtrees to the left, one for each set bit of `count`; a
final sweep then pairs the rightmost branch with itself where a level is odd. A
uint32_t has 32 bits, which bounds the two loops over levels.
-/

namespace Dragonchain.Merkle

variable (crypto : Crypto)

def hashPair (left right : Uint256) : Uint256 := crypto.hash256 (left.bytes ++ right.bytes)

structure MerkleState where
  inner : Nat → Uint256 := fun _ => Uint256.null
  count : UInt32 := 0
  mutated : Bool := false
  matchlevel : Int := -1
  branch : List Uint256 := []

/-- The hash that climbs the tree, and what the climb has seen. -/
structure Climb where
  level : Nat
  h : Uint256
  matchh : Bool
  mutated : Bool
  branch : List Uint256

/-- The branch entries that one level of a climb pushes, and matchh after it. -/
def recordLevel (state : MerkleState) (climb : Climb) : Bool × List Uint256 :=
  if climb.matchh then (true, climb.branch ++ [state.inner climb.level])
  else if state.matchlevel = climb.level then (true, climb.branch ++ [climb.h])
  else (false, climb.branch)

/-- Climbs while the bits of `count` are zero; only the pass over the leaves looks
for equal siblings. -/
def climbLevels (crypto : Crypto) (state : MerkleState) (watch : Bool) : Nat → Climb → Climb
  | 0, climb => climb
  | fuel + 1, climb =>
    if state.count.toNat.testBit climb.level then climb
    else
      let (matchh, branch) := recordLevel state climb
      climbLevels crypto state watch fuel
        { level := climb.level + 1
          h := hashPair crypto (state.inner climb.level) climb.h
          matchh
          mutated := climb.mutated || (watch && state.inner climb.level == climb.h)
          branch }

def addLeaf (branchpos : UInt32) (state : MerkleState) (leaf : Uint256) : MerkleState :=
  let matchh := state.count == branchpos
  let state := { state with count := state.count + 1 }
  let climb := climbLevels crypto state true 32
    { level := 0, h := leaf, matchh, mutated := state.mutated, branch := state.branch }
  { state with
    inner := Function.update state.inner climb.level climb.h
    mutated := climb.mutated
    branch := climb.branch
    matchlevel := if climb.matchh then climb.level else state.matchlevel }

/-- The lowest level whose bit is set in `count`. -/
def lowestLevel (count : UInt32) : Nat → Nat → Nat
  | 0, level => level
  | fuel + 1, level => if count.toNat.testBit level then level else lowestLevel count fuel (level + 1)

def sweep (crypto : Crypto) : Nat → MerkleState → Climb → Climb
  | 0, _, climb => climb
  | fuel + 1, state, climb =>
    if state.count.toNat = 2 ^ climb.level then climb
    else
      let branch := if climb.matchh then climb.branch ++ [climb.h] else climb.branch
      let state := { state with count := state.count + UInt32.ofNat (2 ^ climb.level) }
      let climb := climbLevels crypto state false 32
        { climb with level := climb.level + 1, h := hashPair crypto climb.h climb.h, branch }
      sweep crypto fuel state climb

variable (leaves : List Uint256)

/-- MerkleComputation: the root, whether equal siblings were seen, and the branch. -/
def merkleComputation (branchpos : UInt32) : Uint256 × Bool × List Uint256 :=
  if leaves.isEmpty then (Uint256.null, false, [])
  else
    let state := leaves.foldl (addLeaf crypto branchpos) {}
    let level := lowestLevel state.count 32 0
    let climb := sweep crypto 32 state
      { level, h := state.inner level, matchh := state.matchlevel == level
        mutated := state.mutated, branch := state.branch }
    (climb.h, state.mutated, climb.branch)

def computeMerkleRoot : Uint256 × Bool :=
  let (root, mutated, _) := merkleComputation crypto leaves 0xffffffff
  (root, mutated)

def blockMerkleRoot (block : CBlock) : Uint256 × Bool :=
  computeMerkleRoot crypto (block.vtx.map (Serialization.getHash crypto))

/-- BlockWitnessMerkleRoot, where the coinbase counts as zero. -/
def blockWitnessMerkleRoot (block : CBlock) : Uint256 × Bool :=
  computeMerkleRoot crypto (Uint256.null :: block.vtx.tail.map (Serialization.getWitnessHash crypto))

end Dragonchain.Merkle
