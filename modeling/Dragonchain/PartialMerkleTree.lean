import Dragonchain.MerkleRoot

/-!
CPartialMerkleTree of merkleblock.h and merkleblock.cpp. Widths and positions are exact:
for the numbers of transactions that ExtractMatches lets through, no shift leaves 32 bits.
Extraction threads its counters and out parameters through the tree; `hashed` collects the
pairs it hashes, which the code does not keep, to say between which inputs the hash must not
collide.
-/

namespace Dragonchain.Merkle

open MerkleTree List

variable {second part pairs' pairs : List (Uint256 × Uint256)}

def MIN_TRANSACTION_WEIGHT : Nat := WITNESS_SCALE_FACTOR * 60

structure CPartialMerkleTree where
  nTransactions : UInt32
  vBits : List Bool
  vHash : List Uint256
  fBad : Bool
  deriving DecidableEq

def calcTreeWidth (nTransactions height : Nat) : Nat := (nTransactions + 2 ^ height - 1) / 2 ^ height

def heightFrom (nTransactions : Nat) : Nat → Nat → Nat
  | 0, nHeight => nHeight
  | fuel + 1, nHeight =>
    if calcTreeWidth nTransactions nHeight > 1 then heightFrom nTransactions fuel (nHeight + 1)
    else nHeight

/-- 32 turns are enough for an unsigned int. -/
def treeHeight (nTransactions : Nat) : Nat := heightFrom nTransactions 32 0

structure Extraction where
  nBitsUsed : Nat := 0
  nHashUsed : Nat := 0
  vMatch : List Uint256 := []
  vnIndex : List Nat := []
  fBad : Bool
  hashed : List (Uint256 × Uint256) := []
  deriving DecidableEq

namespace CPartialMerkleTree

section Extract
variable (crypto : Crypto) (tree : CPartialMerkleTree)

/-- The branch that uses a stored hash; `leaf` is set at height 0. -/
def takeHash (leaf fParentOfMatch : Bool) (pos : Nat) (state : Extraction) : Uint256 × Extraction :=
  match tree.vHash[state.nHashUsed]? with
  | none => (Uint256.null, { state with fBad := true })
  | some hash =>
    let state := { state with nHashUsed := state.nHashUsed + 1 }
    if leaf && fParentOfMatch then
      (hash, { state with vMatch := state.vMatch ++ [hash], vnIndex := state.vnIndex ++ [pos] })
    else (hash, state)

def combine (left right : Uint256) (state : Extraction) : Uint256 × Extraction :=
  (hashPair crypto left right, { state with hashed := state.hashed ++ [(left, right)] })

def traverseAndExtract : Nat → Nat → Extraction → Uint256 × Extraction
  | 0, pos, state =>
    match tree.vBits[state.nBitsUsed]? with
    | none => (Uint256.null, { state with fBad := true })
    | some fParentOfMatch => tree.takeHash true fParentOfMatch pos { state with nBitsUsed := state.nBitsUsed + 1 }
  | height + 1, pos, state =>
    match tree.vBits[state.nBitsUsed]? with
    | none => (Uint256.null, { state with fBad := true })
    | some false => tree.takeHash false false pos { state with nBitsUsed := state.nBitsUsed + 1 }
    | some true =>
      let (left, state) := traverseAndExtract height (pos * 2) { state with nBitsUsed := state.nBitsUsed + 1 }
      if pos * 2 + 1 < calcTreeWidth tree.nTransactions.toNat height then
        let (right, state) := traverseAndExtract height (pos * 2 + 1) state
        -- the two branches should never be identical
        let state := if right = left then { state with fBad := true } else state
        combine crypto left right state
      else combine crypto left left state

variable (vnIndex : List Nat)

/-- The traversal of ExtractMatches; vnIndex keeps what the caller had in it. -/
def extraction : Uint256 × Extraction :=
  tree.traverseAndExtract crypto (treeHeight tree.nTransactions.toNat) 0 { vnIndex := vnIndex, fBad := tree.fBad }

structure Extracted where
  hashMerkleRoot : Uint256
  vMatch : List Uint256
  vnIndex : List Nat
  deriving DecidableEq

def extractMatches : Extracted :=
  let nTransactions := tree.nTransactions.toNat
  if nTransactions = 0 then ⟨Uint256.null, [], vnIndex⟩
  else if nTransactions > MAX_BLOCK_WEIGHT / MIN_TRANSACTION_WEIGHT then ⟨Uint256.null, [], vnIndex⟩
  else if tree.vHash.length > nTransactions then ⟨Uint256.null, [], vnIndex⟩
  else if tree.vBits.length < tree.vHash.length then ⟨Uint256.null, [], vnIndex⟩
  else
    let (hashMerkleRoot, state) := tree.extraction crypto vnIndex
    -- the out parameters are filled in whatever the verdict is
    if state.fBad then ⟨Uint256.null, state.vMatch, state.vnIndex⟩
    else if (state.nBitsUsed + 7) / 8 ≠ (tree.vBits.length + 7) / 8 then
      ⟨Uint256.null, state.vMatch, state.vnIndex⟩
    else if state.nHashUsed ≠ tree.vHash.length then ⟨Uint256.null, state.vMatch, state.vnIndex⟩
    else ⟨hashMerkleRoot, state.vMatch, state.vnIndex⟩

end Extract

end CPartialMerkleTree

variable {nTransactions pos nHeight fuel : Nat}

lemma lt_calcTreeWidth {height : Nat} :
    pos < calcTreeWidth nTransactions height ↔ 2 ^ height * pos < nTransactions := by
  have positive := Nat.two_pow_pos height
  rw [calcTreeWidth, Nat.lt_iff_add_one_le, Nat.le_div_iff_mul_le positive, Nat.succ_mul, mul_comm]
  omega

lemma heightFrom_spec (wide : 2 ^ nHeight < 2 * nTransactions) (enough : nTransactions ≤ 2 ^ (nHeight + fuel)) :
    2 ^ heightFrom nTransactions fuel nHeight < 2 * nTransactions ∧
      nTransactions ≤ 2 ^ heightFrom nTransactions fuel nHeight := by
  induction fuel generalizing nHeight with
  | zero => exact ⟨wide, enough⟩
  | succ fuel ih =>
    have more : calcTreeWidth nTransactions nHeight > 1 ↔ 2 ^ nHeight < nTransactions := by
      rw [gt_iff_lt, lt_calcTreeWidth, mul_one]
    rw [heightFrom]
    split_ifs with several
    · apply ih
      · rw [pow_succ]
        have := more.mp several
        omega
      · rwa [add_right_comm, add_assoc]
    · exact ⟨wide, not_lt.mp fun below => several (more.mpr below)⟩

lemma treeHeight_spec (positive : 0 < nTransactions) (fits : nTransactions ≤ 2 ^ 32) :
    2 ^ treeHeight nTransactions < 2 * nTransactions ∧ nTransactions ≤ 2 ^ treeHeight nTransactions := by
  apply heightFrom_spec
  · omega
  · simpa using fits

/-- No pair of the first list has the hash of another pair of the second. -/
def NoCollision (crypto : Crypto) (first second : List (Uint256 × Uint256)) : Prop :=
  ∀ nodes ∈ first, ∀ nodes' ∈ second,
    hashPair crypto nodes.1 nodes.2 = hashPair crypto nodes'.1 nodes'.2 → nodes = nodes'

lemma NoCollision.mono {first : List (Uint256 × Uint256)} {crypto : Crypto}
    (none : NoCollision crypto first second) (subset : part ⊆ second) : NoCollision crypto first part :=
  fun nodes member nodes' member' => none nodes member nodes' (subset member')

def Genuine (leaves : List Uint256) (found : List (Uint256 × Nat)) : Prop :=
  ∀ entry ∈ found, leaves[entry.2]? = some entry.1

namespace CPartialMerkleTree

/-- What a traversal adds to its state, and that its matches are genuine if the hash it
returns is the node of the tree over `leaves`. -/
structure Adds (crypto : Crypto) (leaves : List Uint256) (height pos : Nat) (before : Extraction)
    (result : Uint256 × Extraction) (found : List (Uint256 × Nat)) (pairs : List (Uint256 × Uint256)) :
    Prop where
  vMatch : result.2.vMatch = before.vMatch ++ found.map Prod.fst
  vnIndex : result.2.vnIndex = before.vnIndex ++ found.map Prod.snd
  paired : result.2.hashed = before.hashed ++ pairs
  genuine : NoCollision crypto (hashed (hashPair crypto) leaves) pairs →
    (level (hashPair crypto) leaves height)[pos]? = some result.1 → Genuine leaves found

variable {crypto : Crypto} {leaves : List Uint256} {tree : CPartialMerkleTree}

lemma genuine_nil : Genuine leaves [] := fun _ member => nomatch member

lemma takeHash_inner (crypto : Crypto) (leaves : List Uint256) (tree : CPartialMerkleTree)
    (height pos : Nat) (state : Extraction) :
    Adds crypto leaves height pos state (tree.takeHash false false pos state) [] [] := by
  unfold takeHash
  split
  · exact ⟨by simp, by simp, by simp, fun _ _ => genuine_nil⟩
  · exact ⟨by simp, by simp, by simp, fun _ _ => genuine_nil⟩

variable {found' found : List (Uint256 × Nat)} {state : Extraction} {node : Uint256}

lemma takeHash_leaf {fParentOfMatch : Bool} {crypto : Crypto} {tree : CPartialMerkleTree} :
    ∃ found, Adds crypto leaves 0 pos state (tree.takeHash true fParentOfMatch pos state) found [] := by
  unfold takeHash
  split
  · exact ⟨[], by simp, by simp, by simp, fun _ _ => genuine_nil⟩
  · rename_i hash _
    cases fParentOfMatch with
    | false => exact ⟨[], by simp, by simp, by simp, fun _ _ => genuine_nil⟩
    | true =>
      refine ⟨[(hash, pos)], by simp, by simp, by simp, ?_⟩
      intro _ node entry member
      cases mem_singleton.mp member
      exact node

variable {height pos : Nat}

variable (several : 2 ^ height < leaves.length)
include several

/-- The hash of two subtrees is the node above them only if both are the nodes below it. -/
lemma children_of_combine {left right : Uint256}
    (none : NoCollision crypto (hashed (hashPair crypto) leaves) (pairs ++ [(left, right)]))
    (node : (level (hashPair crypto) leaves (height + 1))[pos]? = some (hashPair crypto left right)) :
    (level (hashPair crypto) leaves height)[pos * 2]? = some left ∧
      ((level (hashPair crypto) leaves height)[pos * 2 + 1]?).getD left = right := by
  obtain ⟨left', right', member, same, down, across⟩ := exists_children several node
  have equal := none _ member (left, right) (mem_append_right _ mem_cons_self) same
  cases equal
  rw [mul_comm]
  exact ⟨down, across⟩

variable {before : Extraction}

lemma Adds.half {left : Uint256 × Extraction} (adds : Adds crypto leaves height (pos * 2) before left found pairs) :
    Adds crypto leaves (height + 1) pos before (combine crypto left.1 left.1 left.2) found
      (pairs ++ [(left.1, left.1)]) where
  vMatch := adds.vMatch
  vnIndex := adds.vnIndex
  paired := by simp [combine, adds.paired]
  genuine := by
    intro none node
    have below := children_of_combine several none node
    exact adds.genuine (none.mono (subset_append_left _ _)) below.1

lemma Adds.fork {left right : Uint256 × Extraction} (inside : 2 ^ height * (pos * 2 + 1) < leaves.length)
    (adds : Adds crypto leaves height (pos * 2) before left found pairs)
    (adds' : Adds crypto leaves height (pos * 2 + 1) left.2 right found' pairs') :
    Adds crypto leaves (height + 1) pos before (combine crypto left.1 right.1
        (if right.1 = left.1 then { right.2 with fBad := true } else right.2))
      (found ++ found') (pairs ++ pairs' ++ [(left.1, right.1)]) where
  vMatch := by
    simp only [combine, map_append, ← append_assoc, ← adds.vMatch, ← adds'.vMatch]
    split <;> rfl
  vnIndex := by
    simp only [combine, map_append, ← append_assoc, ← adds.vnIndex, ← adds'.vnIndex]
    split <;> rfl
  paired := by
    simp only [combine, ← append_assoc, ← adds.paired, ← adds'.paired]
    split <;> rfl
  genuine := by
    intro none node
    have below := children_of_combine several none node
    have there : (level (hashPair crypto) leaves height)[pos * 2 + 1]? = some right.1 := by
      have across := below.2
      cases beside : (level (hashPair crypto) leaves height)[pos * 2 + 1]? with
      | none => exact absurd inside (not_lt.mpr (getElem?_level_eq_none.mp beside))
      | some node =>
        rw [beside] at across
        exact congrArg some across
    have first := adds.genuine (none.mono fun _ member => by simp [member]) below.1
    have second := adds'.genuine (none.mono fun _ member => by simp [member]) there
    intro entry member
    cases mem_append.mp member with
    | inl early => exact first entry early
    | inr late => exact second entry late

omit several

lemma traverseAndExtract_adds (sized : tree.nTransactions.toNat = leaves.length) (pos : Nat)
    (wide : 2 ^ height < 2 * leaves.length) (state : Extraction) :
    ∃ found pairs, Adds crypto leaves height pos state
      (tree.traverseAndExtract crypto height pos state) found pairs := by
  induction height generalizing pos state with
  | zero =>
    rw [traverseAndExtract]
    split
    · exact ⟨[], [], by simp, by simp, by simp, fun _ _ => genuine_nil⟩
    · rename_i fParentOfMatch _
      obtain ⟨found, adds⟩ := takeHash_leaf
      exact ⟨found, [], adds.vMatch, adds.vnIndex, adds.paired, adds.genuine⟩
  | succ height ih =>
    rw [traverseAndExtract]
    split
    · exact ⟨[], [], by simp, by simp, by simp, fun _ _ => genuine_nil⟩
    · have adds := takeHash_inner crypto leaves tree (height + 1) pos
        { state with nBitsUsed := state.nBitsUsed + 1 }
      exact ⟨[], [], adds.vMatch, adds.vnIndex, adds.paired, adds.genuine⟩
    · obtain ⟨found, pairs, adds⟩ := ih (pos * 2) (by omega) { state with nBitsUsed := state.nBitsUsed + 1 }
      dsimp only
      split
      · rename_i inside
        rw [sized, lt_calcTreeWidth] at inside
        obtain ⟨found', pairs', adds'⟩ := ih (pos * 2 + 1) (by omega)
          (tree.traverseAndExtract crypto height (pos * 2) { state with nBitsUsed := state.nBitsUsed + 1 }).2
        have both := adds.fork (by omega) inside adds'
        exact ⟨_, _, both.vMatch, both.vnIndex, both.paired, both.genuine⟩
      · have half := adds.half (by omega)
        exact ⟨_, _, half.vMatch, half.vnIndex, half.paired, half.genuine⟩

lemma root_of_traversal {crypto : Crypto} (wide : 2 ^ height < 2 * leaves.length)
    (fits : leaves.length ≤ 2 ^ height) (same : node = root (hashPair crypto) Uint256.null leaves) :
    (level (hashPair crypto) leaves height)[0]? = some node := by
  have there : 0 < (level (hashPair crypto) leaves height).length := lt_length_level.mpr (by omega)
  have first := getElem?_eq_getElem there
  rw [first, same, root_of_single wide fits first]

/-- A result that is not the failure value comes from a traversal that consumed its proof. -/
lemma extractMatches_passed {before : List Nat}
    (proper : (tree.extractMatches crypto before).hashMerkleRoot ≠ Uint256.null) :
    0 < tree.nTransactions.toNat ∧ tree.nTransactions.toNat ≤ MAX_BLOCK_WEIGHT / MIN_TRANSACTION_WEIGHT ∧
      tree.extractMatches crypto before =
        ⟨(tree.extraction crypto before).1, (tree.extraction crypto before).2.vMatch,
          (tree.extraction crypto before).2.vnIndex⟩ := by
  unfold extractMatches at proper ⊢
  dsimp only at proper ⊢
  split at proper
  · exact absurd rfl proper
  split at proper
  · exact absurd rfl proper
  split at proper
  · exact absurd rfl proper
  split at proper
  · exact absurd rfl proper
  split at proper
  · exact absurd rfl proper
  split at proper
  · exact absurd rfl proper
  split at proper
  · exact absurd rfl proper
  rename_i nonzero limited hashes bits good bitsUsed hashUsed
  rw [if_neg nonzero, if_neg limited, if_neg hashes, if_neg bits, if_neg good, if_neg bitsUsed, if_neg hashUsed]
  exact ⟨Nat.pos_of_ne_zero nonzero, not_lt.mp limited, rfl⟩

end CPartialMerkleTree

open CPartialMerkleTree in
/-- Whatever an attacker puts into a partial tree: if it extracts to the merkle root of a list,
and that is not the value ExtractMatches fails with, its matches are entries of the list. -/
theorem extractMatches_sound (crypto : Crypto) (leaves : List Uint256) (tree : CPartialMerkleTree)
    (before : List Nat) (sized : tree.nTransactions.toNat = leaves.length)
    (none : NoCollision crypto (hashed (hashPair crypto) leaves) (tree.extraction crypto before).2.hashed)
    (extracted : (tree.extractMatches crypto before).hashMerkleRoot = (computeMerkleRoot crypto leaves).1)
    (proper : (computeMerkleRoot crypto leaves).1 ≠ Uint256.null) :
    ∀ entry ∈ (tree.extractMatches crypto before).vMatch.zip
        ((tree.extractMatches crypto before).vnIndex.drop before.length),
      entry.2 < leaves.length ∧ leaves[entry.2]? = some entry.1 := by
  obtain ⟨positive, limited, result⟩ := extractMatches_passed (extracted ▸ proper)
  have small : leaves.length < 2 ^ 31 := by
    rw [← sized]
    exact lt_of_le_of_lt limited (by decide)
  obtain ⟨wide, fits⟩ := treeHeight_spec positive (by omega)
  rw [sized] at wide fits
  obtain ⟨found, pairs, adds⟩ := traverseAndExtract_adds sized 0 wide { vnIndex := before, fBad := tree.fBad }
  have run : tree.extraction crypto before = tree.traverseAndExtract crypto (treeHeight leaves.length) 0
      { vnIndex := before, fBad := tree.fBad } := by rw [extraction, sized]
  rw [← run] at adds
  have same : (tree.extraction crypto before).1 = root (hashPair crypto) Uint256.null leaves := by
    rw [result] at extracted
    exact extracted.trans (computeMerkleRoot_spec crypto small).1
  have paired : (tree.extraction crypto before).2.hashed = pairs := adds.paired
  have genuine := adds.genuine (paired ▸ none) (root_of_traversal wide fits same)
  have matched : (tree.extraction crypto before).2.vMatch = found.map Prod.fst := adds.vMatch
  have indexed : (tree.extraction crypto before).2.vnIndex = before ++ found.map Prod.snd := adds.vnIndex
  intro entry member
  rw [result, matched, indexed, drop_left, zip_map', map_id''] at member
  · have leaf := genuine entry member
    exact ⟨(List.getElem?_eq_some_iff.mp leaf).choose, leaf⟩
  · exact fun _ => rfl

namespace ForgedProof

def crypto : Crypto := RepeatedLeaf.crypto

def padded : CPartialMerkleTree := ⟨1, true :: replicate 15 false, [Uint256.one], false⟩

/-- A list whose root is the failure value: the padded proof fails, and its match stays. -/
theorem null_root_forged : (computeMerkleRoot crypto [Uint256.null]).2 = false ∧
      NoCollision crypto (hashed (hashPair crypto) [Uint256.null]) (padded.extraction crypto []).2.hashed ∧
      padded.extractMatches crypto [] = ⟨(computeMerkleRoot crypto [Uint256.null]).1, [Uint256.one], [0]⟩ ∧
      [Uint256.null][0]? ≠ some Uint256.one := by
  refine ⟨by decide +kernel, ?_, by decide +kernel, by decide⟩
  intro nodes member
  rw [hashed] at member
  cases member

def leaves : List Uint256 := [Uint256.filled 1, Uint256.filled 2]

def proof : CPartialMerkleTree := ⟨2, [true, true, false], leaves, false⟩

lemma hashed_leaves : hashed (hashPair crypto) leaves = [(Uint256.filled 1, Uint256.filled 2)] := by
  have next : nextLevel (hashPair crypto) leaves = [Uint256.filled 63] := by decide +kernel
  rw [leaves] at next ⊢
  rw [hashed, next, hashed]
  rfl

theorem first_of_two_extracted :
    (proof.extractMatches crypto []).vMatch.zip (proof.extractMatches crypto []).vnIndex = [(Uint256.filled 1, 0)] ∧
      ∀ entry ∈ (proof.extractMatches crypto []).vMatch.zip ((proof.extractMatches crypto []).vnIndex.drop 0),
        entry.2 < leaves.length ∧ leaves[entry.2]? = some entry.1 := by
  have used : (proof.extraction crypto []).2.hashed = [(Uint256.filled 1, Uint256.filled 2)] := by decide +kernel
  refine ⟨by decide +kernel, extractMatches_sound crypto leaves proof [] (by decide) ?_
    (by decide +kernel) (by decide +kernel)⟩
  rw [hashed_leaves, used]
  intro nodes member nodes' member' _
  rw [mem_singleton.mp member, mem_singleton.mp member']

end ForgedProof

end Dragonchain.Merkle
