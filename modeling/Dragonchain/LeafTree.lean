import Mathlib.Data.List.Nodup
import Mathlib.Data.List.Perm.Subperm
import Mathlib.Data.List.TakeWhile

/-!
A rooted tree that grows by leaves only. A node is known by its path, the list of
nodes from it back to the root. The laws of paths are fields of the tree, so that no
tree with a loop or a dangling parent can be built, and every walk over parents is a
recursion on a list.
-/

namespace Dragonchain

open List Function

structure LeafTree (Node : Type) (root : Node) where
  nodes : List Node
  path : Node → List Node
  root_mem : root ∈ nodes
  path_root : path root = [root]
  path_step : ∀ node ∈ nodes, node ≠ root → ∃ parent ∈ nodes, path node = node :: path parent

namespace LeafTree

variable {Node : Type} {root : Node}

def single (root : Node) : LeafTree Node root where
  nodes := [root]
  path _ := [root]
  root_mem := by simp
  path_root := rfl
  path_step := by simp

def addLeaf [DecidableEq Node] (tree : LeafTree Node root) (leaf parent : Node)
    (fresh : leaf ∉ tree.nodes) (known : parent ∈ tree.nodes) : LeafTree Node root where
  nodes := leaf :: tree.nodes
  path := Function.update tree.path leaf (leaf :: tree.path parent)
  root_mem := mem_cons_of_mem _ tree.root_mem
  path_root := by
    rw [update_of_ne (ne_of_mem_of_not_mem tree.root_mem fresh)]
    exact tree.path_root
  path_step := by
    have kept : ∀ node ∈ tree.nodes,
        Function.update tree.path leaf (leaf :: tree.path parent) node = tree.path node :=
      fun node member => update_of_ne (ne_of_mem_of_not_mem member fresh) _ _
    intro node member other
    rcases mem_cons.mp member with rfl | member
    · exact ⟨parent, mem_cons_of_mem _ known, by rw [update_self, kept parent known]⟩
    · obtain ⟨above, listed, shape⟩ := tree.path_step node member other
      exact ⟨above, mem_cons_of_mem _ listed, by rw [kept node member, kept above listed, shape]⟩

section Leaf
variable [DecidableEq Node] {tree : LeafTree Node root} {leaf parent : Node}
  (fresh : leaf ∉ tree.nodes) (known : parent ∈ tree.nodes)

lemma addLeaf_path : (tree.addLeaf leaf parent fresh known).path leaf = leaf :: tree.path parent := update_self ..

lemma addLeaf_path_of_mem {node : Node} (member : node ∈ tree.nodes) :
    (tree.addLeaf leaf parent fresh known).path node = tree.path node :=
  update_of_ne (ne_of_mem_of_not_mem member fresh) _ _

end Leaf

section Paths
variable (tree : LeafTree Node root)

/-- What holds of the root and passes from a parent to its child holds of every node. -/
lemma induct {motive : (node : Node) → node ∈ tree.nodes → Prop} (base : motive root tree.root_mem)
    (step : ∀ node member parent known, tree.path node = node :: tree.path parent →
      motive parent known → motive node member) : ∀ node member, motive node member := by
  have short : ∀ size node member, (tree.path node).length = size → motive node member := by
    intro size
    induction size using Nat.strongRecOn with
    | ind size ih =>
      intro node member sized
      by_cases first : node = root
      · subst first
        exact base
      · obtain ⟨parent, known, shape⟩ := tree.path_step node member first
        refine step node member parent known shape (ih _ ?_ parent known rfl)
        rw [← sized, shape, length_cons]
        exact Nat.lt_succ_self _
  exact fun node member => short _ node member rfl

variable {tree} {first second third : Node}

lemma path_cons (member : first ∈ tree.nodes) : ∃ rest, tree.path first = first :: rest := by
  by_cases same : first = root
  · exact ⟨[], by rw [same, tree.path_root]⟩
  · obtain ⟨parent, _, shape⟩ := tree.path_step first member same
    exact ⟨tree.path parent, shape⟩

lemma self_mem_path (member : first ∈ tree.nodes) : first ∈ tree.path first := by
  obtain ⟨rest, shape⟩ := path_cons member
  rw [shape]
  exact mem_cons_self

variable (member : second ∈ tree.nodes)
include member

lemma path_nodes : ∀ node ∈ tree.path second, node ∈ tree.nodes := by
  induction second, member using tree.induct with
  | base =>
    rw [tree.path_root]
    rintro node (_ | ⟨_, none⟩)
    · exact tree.root_mem
    · cases none
  | step node known parent _ shape ih =>
    rw [shape]
    rintro other (_ | ⟨_, above⟩)
    · exact known
    · exact ih other above

lemma path_of_split {front back : List Node}
    (split : tree.path second = front ++ first :: back) : tree.path first = first :: back := by
  induction second, member using tree.induct generalizing front with
  | base =>
    rw [tree.path_root] at split
    cases front with
    | nil =>
      obtain ⟨rfl, rfl⟩ := List.cons.inj split
      exact tree.path_root
    | cons _ front => cases front <;> cases split
  | step node known parent _ shape ih =>
    cases front with
    | nil =>
      obtain ⟨rfl, rfl⟩ := List.cons.inj (shape.symm.trans split)
      exact shape
    | cons _ front => exact ih (List.cons.inj (shape.symm.trans split)).2

lemma path_suffix (above : first ∈ tree.path second) : ∃ front, tree.path second = front ++ tree.path first := by
  obtain ⟨front, back, split⟩ := append_of_mem above
  exact ⟨front, by rw [split, path_of_split member split]⟩

omit member

lemma path_trans (member : third ∈ tree.nodes) (lower : second ∈ tree.path third)
    (upper : first ∈ tree.path second) : first ∈ tree.path third := by
  obtain ⟨front, split⟩ := path_suffix member lower
  rw [split]
  exact mem_append_right _ upper

lemma root_mem_path (member : first ∈ tree.nodes) : root ∈ tree.path first := by
  induction first, member using tree.induct with
  | base => exact self_mem_path tree.root_mem
  | step node _ parent _ shape ih =>
    rw [shape]
    exact mem_cons_of_mem _ ih

lemma path_antisymm (known : first ∈ tree.nodes) (member : second ∈ tree.nodes)
    (above : first ∈ tree.path second) (below : second ∈ tree.path first) : first = second := by
  obtain ⟨front, split⟩ := path_suffix member above
  obtain ⟨back, other⟩ := path_suffix known below
  obtain ⟨_, head⟩ := path_cons known
  obtain ⟨_, tail⟩ := path_cons member
  have none : front = [] := by
    have sizes := congrArg List.length split
    have others := congrArg List.length other
    rw [length_append] at sizes others
    exact eq_nil_of_length_eq_zero (by omega)
  rw [none, nil_append, head, tail] at split
  exact (List.cons.inj split).1.symm

lemma path_nodup (member : first ∈ tree.nodes) : (tree.path first).Nodup := by
  induction first, member using tree.induct with
  | base =>
    rw [tree.path_root]
    exact nodup_singleton root
  | step node known parent above shape ih =>
    rw [shape]
    refine nodup_cons.mpr ⟨fun looped => ?_, ih⟩
    -- a node above its own parent would have a path longer than itself
    obtain ⟨front, split⟩ := path_suffix above looped
    have sizes := congrArg List.length split
    rw [shape, length_append, length_cons] at sizes
    omega

lemma path_total (member : third ∈ tree.nodes) (one : first ∈ tree.path third)
    (other : second ∈ tree.path third) : first ∈ tree.path second ∨ second ∈ tree.path first := by
  induction third, member using tree.induct with
  | base =>
    rw [tree.path_root, mem_singleton] at one other
    rw [one, other]
    exact Or.inl (self_mem_path tree.root_mem)
  | step node known parent _ shape ih =>
    rw [shape] at one other
    rcases mem_cons.mp one with rfl | upper
    · exact Or.inr (shape ▸ other)
    · rcases mem_cons.mp other with rfl | lower
      · exact Or.inl (shape ▸ one)
      · exact ih upper lower

lemma path_length_le (member : first ∈ tree.nodes) : (tree.path first).length ≤ tree.nodes.length :=
  (subperm_of_subset (path_nodup member) (path_nodes member)).length_le

/-- The nodes of a path before one of its nodes are those that lie below that node. -/
lemma mem_takeWhile_path [DecidableEq Node] (member : third ∈ tree.nodes) (above : first ∈ tree.path third) :
    second ∈ (tree.path third).takeWhile (fun node => node ≠ first) ↔
      second ∈ tree.path third ∧ first ∈ tree.path second ∧ second ≠ first := by
  obtain ⟨front, split⟩ := path_suffix member above
  obtain ⟨rest, shape⟩ := path_cons (path_nodes member first above)
  have nodup := path_nodup member
  rw [split] at nodup
  have kept : (tree.path third).takeWhile (fun node => node ≠ first) = front := by
    have apart : ∀ node ∈ front, node ≠ first := fun node held same =>
      disjoint_of_nodup_append nodup (same ▸ held) (self_mem_path (path_nodes member first above))
    rw [split, shape, takeWhile_append_of_pos (by simpa using apart)]
    simp
  rw [kept]
  constructor
  · intro walked
    have listed : second ∈ tree.path third := split ▸ mem_append_left _ walked
    have apart := disjoint_of_nodup_append nodup walked
    refine ⟨listed, (path_total member above listed).resolve_right apart, ?_⟩
    rintro rfl
    exact apart (self_mem_path (path_nodes member second listed))
  · rintro ⟨listed, upper, other⟩
    refine (mem_append.mp (split ▸ listed)).resolve_right fun lower => other ?_
    exact path_antisymm (path_nodes member second listed) (path_nodes member first above) lower upper

/-- Where a path meets another one: the part before is apart from it, the rest is the
path of a common node. -/
lemma exists_fork [DecidableEq Node] (known : first ∈ tree.nodes) (member : second ∈ tree.nodes) :
    ∃ fork front, (tree.path second).find? (fun node => node ∈ tree.path first) = some fork ∧
      fork ∈ tree.path first ∧ tree.path second = front ++ tree.path fork ∧
      ∀ node ∈ front, node ∉ tree.path first := by
  cases found : (tree.path second).find? fun node => node ∈ tree.path first with
  | none =>
    have apart := find?_eq_none.mp found root (root_mem_path member)
    exact absurd (root_mem_path known) (by simpa using apart)
  | some fork =>
    obtain ⟨common, front, back, split, apart⟩ := find?_eq_some_iff_append.mp found
    refine ⟨fork, front, rfl, by simpa using common, ?_, by simpa using apart⟩
    rw [split, path_of_split member split]

end Paths

end LeafTree

end Dragonchain
