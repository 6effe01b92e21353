import Mathlib.Data.List.Nodup
import Mathlib.Tactic.Ring

/-!
Merkle trees over a pair hash, level by level. A level is paired off from the left
and the last node of an odd level is paired with itself. `level leaves height`
is the row of that height; node `index` of it covers the leaves from
`index * 2 ^ height` on. Self-pairing makes the root blind to some repetitions of
leaves, and `root_eq` says that two equal siblings, both over complete subtrees,
witness every such repetition.
-/

namespace Dragonchain.MerkleTree

open List Nat

variable {α : Type}

def siblings : List α → List (α × α)
  | [] => []
  | [last] => [(last, last)]
  | left :: right :: rest => (left, right) :: siblings rest

lemma length_siblings (nodes : List α) : (siblings nodes).length = (nodes.length + 1) / 2 := by
  fun_induction siblings nodes with
  | case1 => simp
  | case2 => simp
  | case3 left right rest ih =>
    simp only [length_cons, ih]
    omega

lemma getElem?_siblings (nodes : List α) (index : Nat) : (siblings nodes)[index]? =
      nodes[2 * index]?.map fun left => (left, nodes[2 * index + 1]?.getD left) := by
  fun_induction siblings nodes generalizing index with
  | case1 => rfl
  | case2 last =>
    cases index with
    | zero => rfl
    | succ index => rfl
  | case3 left right rest ih =>
    cases index with
    | zero => rfl
    | succ index => exact ih index

variable (pair : α → α → α)

def nextLevel (nodes : List α) : List α := (siblings nodes).map fun nodes => pair nodes.1 nodes.2

def level (leaves : List α) : Nat → List α
  | 0 => leaves
  | height + 1 => nextLevel pair (level leaves height)

/-- The root; `empty` is the root of no leaves. -/
def root (empty : α) : List α → α
  | [] => empty
  | [node] => node
  | left :: right :: rest => root empty (nextLevel pair (left :: right :: rest))
termination_by nodes => nodes.length
decreasing_by
  simp only [nextLevel, length_map, length_siblings, length_cons]
  omega

/-- The pairs that are hashed on the way to the root. -/
def hashed : List α → List (α × α)
  | [] => []
  | [_] => []
  | left :: right :: rest => siblings (left :: right :: rest) ++ hashed (nextLevel pair (left :: right :: rest))
termination_by nodes => nodes.length
decreasing_by
  simp only [nextLevel, length_map, length_siblings, length_cons]
  omega

/-- No two of the pairs have one hash, and none has a leaf as its hash. -/
def CollisionFree (pairs : List (α × α)) (leaves : List α) : Prop :=
  (∀ first ∈ pairs, ∀ second ∈ pairs, pair first.1 first.2 = pair second.1 second.2 → first = second) ∧
  ∀ nodes ∈ pairs, pair nodes.1 nodes.2 ∉ leaves

instance [DecidableEq α] (pairs : List (α × α)) (leaves : List α) :
    Decidable (CollisionFree pair pairs leaves) :=
  inferInstanceAs (Decidable (_ ∧ _))

/-- Equal siblings over complete subtrees within the first `count` leaves. -/
def Twins (leaves : List α) (count : Nat) : Prop :=
  ∃ height index, 2 ^ height * (2 * (index + 1)) ≤ count ∧
    (level pair leaves height)[2 * index]? = (level pair leaves height)[2 * index + 1]?

variable {left right empty node : α} {leaves nodes known second : List α}

section Levels
variable {pair}

lemma getElem?_level (leaves : List α) (height index : Nat) :
    (level pair leaves (height + 1))[index]? = (level pair leaves height)[2 * index]?.map fun left =>
      pair left ((level pair leaves height)[2 * index + 1]?.getD left) := by
  simp only [level, nextLevel, getElem?_map, getElem?_siblings, Option.map_map]
  rfl

variable {height index : Nat}

lemma level_pair (first : (level pair leaves height)[2 * index]? = some left)
    (second : (level pair leaves height)[2 * index + 1]? = some right) :
    (level pair leaves (height + 1))[index]? = some (pair left right) := by
  rw [getElem?_level, first, second]
  rfl

lemma level_self {last : α} (first : (level pair leaves height)[2 * index]? = some last)
    (alone : (level pair leaves height)[2 * index + 1]? = none) :
    (level pair leaves (height + 1))[index]? = some (pair last last) := by
  rw [getElem?_level, first, alone]
  rfl

lemma lt_length_level : index < (level pair leaves height).length ↔ 2 ^ height * index < leaves.length := by
  induction height generalizing index with
  | zero => simp [level]
  | succ height ih =>
    have halves : index < (level pair leaves (height + 1)).length ↔
        2 * index < (level pair leaves height).length := by
      simp only [level, nextLevel, length_map, length_siblings]
      omega
    rw [halves, ih, pow_succ, mul_assoc]

lemma getElem?_level_eq_none : (level pair leaves height)[index]? = none ↔ leaves.length ≤ 2 ^ height * index := by
  rw [getElem?_eq_none_iff, ← not_lt, lt_length_level, not_lt]

lemma level_nextLevel (leaves : List α) (height : Nat) :
    level pair (nextLevel pair leaves) height = level pair leaves (height + 1) := by
  induction height with
  | zero => rfl
  | succ height ih => exact congrArg (nextLevel pair) ih

lemma root_nextLevel (several : 1 < nodes.length) :
    root pair empty nodes = root pair empty (nextLevel pair nodes) := by
  match nodes, several with
  | _ :: _ :: _, _ => rw [root]

lemma root_level (wide : 2 ^ height < 2 * leaves.length) :
    root pair empty (level pair leaves height) = root pair empty leaves := by
  induction height with
  | zero => rfl
  | succ height ih =>
    have several : 1 < (level pair leaves height).length := lt_length_level.mpr (by omega)
    rw [level, ← root_nextLevel several, ih (by omega)]

/-- The root is the only node of the first level that has a single one. -/
lemma root_of_single (wide : 2 ^ height < 2 * leaves.length) (fits : leaves.length ≤ 2 ^ height)
    (first : (level pair leaves height)[0]? = some node) : root pair empty leaves = node := by
  have past : (level pair leaves height)[1]? = none := getElem?_level_eq_none.mpr (fits.trans (mul_one _).ge)
  have single : level pair leaves height = [node] := by
    match level pair leaves height, first, past with
    | [_], first, _ => rw [← Option.some.inj first]
  rw [← root_level wide, single, root]

lemma exists_root {pair : α → α → α} (nonempty : leaves ≠ []) :
    ∃ height, 2 ^ height < 2 * leaves.length ∧ leaves.length ≤ 2 ^ height ∧
      (level pair leaves height)[0]? = some (root pair empty leaves) := by
  have positive := length_pos_iff.mpr nonempty
  have small : ∃ height, leaves.length ≤ 2 ^ height := ⟨leaves.length, Nat.lt_two_pow_self.le⟩
  have fits := Nat.find_spec small
  have wide : 2 ^ Nat.find small < 2 * leaves.length := by
    cases least : Nat.find small with
    | zero => omega
    | succ height =>
      have below := Nat.find_min small (show height < Nat.find small by omega)
      omega
  have there : 0 < (level pair leaves (Nat.find small)).length := lt_length_level.mpr positive
  have first := getElem?_eq_getElem there
  rw [← root_of_single wide fits first] at first
  exact ⟨Nat.find small, wide, fits, first⟩

lemma siblings_subset_hashed (several : 2 ^ height < leaves.length) :
    siblings (level pair leaves height) ⊆ hashed pair leaves := by
  induction height generalizing leaves with
  | zero =>
    match leaves, several with
    | _ :: _ :: _, _ =>
      rw [hashed]
      exact subset_append_left _ _
  | succ height ih =>
    rw [← level_nextLevel]
    have next : 2 ^ height < (nextLevel pair leaves).length := by
      have shorter : (nextLevel pair leaves).length = (leaves.length + 1) / 2 := by
        rw [nextLevel, length_map, length_siblings]
      omega
    have more : 1 < leaves.length := lt_of_le_of_lt Nat.one_le_two_pow several
    match leaves, more, ih next with
    | _ :: _ :: _, _, inner =>
      rw [hashed]
      exact subset_append_of_subset_right _ inner

lemma exists_children (several : 2 ^ height < leaves.length)
    (there : (level pair leaves (height + 1))[index]? = some node) :
    ∃ left right, (left, right) ∈ hashed pair leaves ∧ pair left right = node ∧
      (level pair leaves height)[2 * index]? = some left ∧
      ((level pair leaves height)[2 * index + 1]?).getD left = right := by
  rw [getElem?_level] at there
  obtain ⟨left, first, same⟩ := Option.map_eq_some_iff.mp there
  refine ⟨left, _, siblings_subset_hashed several ?_, same, first, rfl⟩
  apply mem_of_getElem? (i := index)
  rw [getElem?_siblings, first]
  rfl

end Levels

section Uniqueness
variable {pair} {pairs : List (α × α)} {first : List α} {height index index' : Nat}

lemma height_unique {extra : Nat} (free : CollisionFree pair pairs known)
    (leaves : first ⊆ known) (hashes : hashed pair first ⊆ pairs) (hashes' : hashed pair second ⊆ pairs)
    (wide : 2 ^ height < 2 * first.length) (wide' : 2 ^ (height + extra + 1) < 2 * second.length)
    (there : (level pair first height)[index]? = some node) :
    (level pair second (height + extra + 1))[index']? ≠ some node := by
  induction height generalizing index index' node with
  | zero =>
    intro there'
    obtain ⟨left, right, mem, same, _, _⟩ := exists_children (by omega) there'
    apply free.2 _ (hashes' mem)
    rw [same]
    exact leaves (mem_of_getElem? there)
  | succ height ih =>
    intro there'
    rw [show height + 1 + extra + 1 = height + extra + 1 + 1 by omega] at there' wide'
    obtain ⟨left, right, mem, same, down, _⟩ := exists_children (by omega) there
    obtain ⟨left', right', mem', same', down', _⟩ := exists_children (by omega) there'
    have equal := free.1 _ (hashes mem) _ (hashes' mem') (same.trans same'.symm)
    cases equal
    exact ih (by omega) (by omega) down down'

lemma level_injective (distinct : leaves.Nodup)
    (free : ∀ first ∈ hashed pair leaves, ∀ second ∈ hashed pair leaves,
      pair first.1 first.2 = pair second.1 second.2 → first = second) (wide : 2 ^ height < 2 * leaves.length)
    (there : (level pair leaves height)[index]? = some node)
    (there' : (level pair leaves height)[index']? = some node) : index = index' := by
  induction height generalizing index index' node with
  | zero =>
    obtain ⟨bound, here⟩ := List.getElem?_eq_some_iff.mp there
    obtain ⟨bound', here'⟩ := List.getElem?_eq_some_iff.mp there'
    exact (distinct.getElem_inj_iff).mp (here.trans here'.symm)
  | succ height ih =>
    obtain ⟨left, right, mem, same, down, _⟩ := exists_children (by omega) there
    obtain ⟨left', right', mem', same', down', _⟩ := exists_children (by omega) there'
    cases free _ mem _ mem' (same.trans same'.symm)
    have doubled := ih (by omega) down down'
    omega

/-- The leaves under two nodes of one height agree. -/
def SameBlock (first second : List α) (height index index' : Nat) : Prop :=
  ∀ offset < 2 ^ height, first[2 ^ height * index + offset]? = second[2 ^ height * index' + offset]?

lemma SameBlock.join (left : SameBlock first second height (2 * index) (2 * index'))
    (right : SameBlock first second height (2 * index + 1) (2 * index' + 1)) :
    SameBlock first second (height + 1) index index' := by
  intro offset bound
  rw [pow_succ, mul_assoc, mul_assoc]
  by_cases low : offset < 2 ^ height
  · exact left offset low
  · have high := right (offset - 2 ^ height) (by omega)
    rwa [mul_succ, mul_succ, add_assoc, add_assoc, Nat.add_sub_cancel' (by omega)] at high

lemma sameBlock_beyond (past : (level pair first height)[index]? = none)
    (past' : (level pair second height)[index']? = none) : SameBlock first second height index index' := by
  intro offset _
  rw [getElem?_level_eq_none] at past past'
  rw [getElem?_eq_none_iff.mpr (by omega), getElem?_eq_none_iff.mpr (by omega)]

/-- Siblings over the same leaves are twins: the left one is complete, so the right
one is. -/
lemma twins_of_sameBlock (left : (level pair leaves height)[2 * index]? = some node)
    (right : (level pair leaves height)[2 * index + 1]? = some node)
    (same : SameBlock leaves leaves height (2 * index) (2 * index + 1)) : Twins pair leaves leaves.length := by
  have positive : 0 < 2 ^ height := Nat.two_pow_pos height
  have reached : 2 ^ height * (2 * index + 1) < leaves.length :=
    lt_length_level.mp (List.getElem?_eq_some_iff.mp right).choose
  have last := same (2 ^ height - 1) (by omega)
  rw [mul_succ] at reached last
  rw [getElem?_eq_getElem (by omega), eq_comm, List.getElem?_eq_some_iff] at last
  refine ⟨height, index, ?_, left.trans right.symm⟩
  have bound := last.choose
  rw [show 2 * (index + 1) = 2 * index + 1 + 1 by omega, mul_succ, mul_succ]
  omega

/-- Equal nodes of one height cover the same leaves, unless one of the trees has
twins. -/
lemma block_unique (free : CollisionFree pair pairs known) (hashes : hashed pair first ⊆ pairs)
    (hashes' : hashed pair second ⊆ pairs) (wide : 2 ^ height < 2 * first.length)
    (wide' : 2 ^ height < 2 * second.length) (there : (level pair first height)[index]? = some node)
    (there' : (level pair second height)[index']? = some node) : SameBlock first second height index index' ∨
      Twins pair first first.length ∨ Twins pair second second.length := by
  induction height generalizing first second index index' node with
  | zero =>
    left
    intro offset bound
    have only : offset = 0 := lt_one_iff.mp bound
    subst only
    simpa [level] using there.trans there'.symm
  | succ height ih =>
    obtain ⟨left, right, mem, same, down, across⟩ := exists_children (by omega) there
    obtain ⟨left', right', mem', same', down', across'⟩ := exists_children (by omega) there'
    have equal := free.1 _ (hashes mem) _ (hashes' mem') (same.trans same'.symm)
    cases equal
    -- A tree that pairs the node with itself may meet one that pairs two equal nodes.
    have alone : ∀ {leaves : List α} {index : Nat}, hashed pair leaves ⊆ pairs →
        2 ^ height * 2 < 2 * leaves.length →
        (level pair leaves height)[2 * index]? = some left →
        (level pair leaves height)[2 * index + 1]? = some left →
        Twins pair leaves leaves.length := by
      intro leaves index hashes wide down beside
      rcases ih hashes hashes (by omega) (by omega) down beside with block | twins | twins
      · exact twins_of_sameBlock down beside block
      · exact twins
      · exact twins
    rcases ih hashes hashes' (by omega) (by omega) down down' with block | twins
    · cases beside : (level pair first height)[2 * index + 1]? with
      | none =>
        rw [beside] at across
        cases beside' : (level pair second height)[2 * index' + 1]? with
        | none => exact .inl (block.join (sameBlock_beyond beside beside'))
        | some other =>
          rw [beside'] at across'
          cases across
          cases across'
          exact .inr (.inr (alone hashes' wide' down' beside'))
      | some other =>
        rw [beside] at across
        cases across
        cases beside' : (level pair second height)[2 * index' + 1]? with
        | none =>
          rw [beside'] at across'
          cases across'
          exact .inr (.inl (alone hashes wide down beside))
        | some other' =>
          rw [beside'] at across'
          cases across'
          exact (ih hashes hashes' (by omega) (by omega) beside beside').imp_left block.join
    · exact .inr twins

/-- Two trees with one root have the same leaves, unless one of them has twins. -/
lemma root_eq (nonempty : first ≠ []) (nonempty' : second ≠ [])
    (free : CollisionFree pair (hashed pair first ++ hashed pair second) (first ++ second))
    (same : root pair empty first = root pair empty second) :
    first = second ∨ Twins pair first first.length ∨ Twins pair second second.length := by
  obtain ⟨height, wide, fits, there⟩ := exists_root nonempty
  obtain ⟨height', wide', fits', there'⟩ := exists_root nonempty'
  rw [same] at there
  have hashes : hashed pair first ⊆ hashed pair first ++ hashed pair second := subset_append_left _ _
  have hashes' : hashed pair second ⊆ hashed pair first ++ hashed pair second := subset_append_right _ _
  rcases Nat.lt_trichotomy height height' with lower | equal | higher
  · obtain ⟨extra, rfl⟩ := Nat.exists_eq_add_of_lt lower
    exact absurd there' (height_unique free (subset_append_left _ _) hashes hashes' wide wide' there)
  · subst equal
    refine (block_unique free hashes hashes' wide wide' there there').imp_left fun block => ?_
    apply ext_getElem?
    intro offset
    by_cases inside : offset < 2 ^ height
    · simpa using block offset inside
    · rw [getElem?_eq_none_iff.mpr (by omega), getElem?_eq_none_iff.mpr (by omega)]
  · obtain ⟨extra, rfl⟩ := Nat.exists_eq_add_of_lt higher
    exact absurd there (height_unique free (subset_append_right _ _) hashes' hashes wide' wide there')

end Uniqueness

end Dragonchain.MerkleTree
