import Mathlib.Tactic.Linarith
import Dragonchain.Merkle
import Dragonchain.MerkleTree

/-!
MerkleComputation builds the tree of `MerkleTree`. With `count` leaves read, the
inner array holds for each set bit of `count` the last complete node of that
level; reading one more leaf is a binary increment whose carries are the hashes of
the complete subtrees it closes. The sweep rounds `count` up to the next multiple
of each level, so the hash it carries is always the last node of its level.
-/

namespace Dragonchain.Merkle

open MerkleTree List Nat

variable {state : MerkleState} {height count quotient fuel below size : Nat} {leaf h : Uint256}

lemma testBit_level (split : count = 2 ^ height * quotient) : count.testBit height = decide (quotient % 2 = 1) := by
  rw [testBit_eq_decide_div_mod_eq, split, Nat.mul_div_cancel_left _ (Nat.two_pow_pos height)]

variable {climb : Climb}

section Climb
variable (crypto : Crypto) (leaves : List Uint256)

/-- `h` is the last node of its level within the first `count` leaves, and no
carry leaves the level. -/
def LastNode (count height : Nat) (h : Uint256) : Prop :=
  ∃ index, count = 2 ^ height * (2 * index + 1) ∧ (level (hashPair crypto) leaves height)[2 * index]? = some h

/-- Leaf number `count` closes two equal siblings at this height or above. -/
def ClosesTwins (count height : Nat) : Prop :=
  ∃ above index, height ≤ above ∧ count = 2 ^ above * (2 * (index + 1)) ∧
    (level (hashPair crypto) leaves above)[2 * index]? = (level (hashPair crypto) leaves above)[2 * index + 1]?

/-- The inner array has the left siblings that the carries into `count` need. -/
def HasLeft (inner : Nat → Uint256) (count height : Nat) : Prop :=
  ∀ above index, height ≤ above → count = 2 ^ above * (2 * (index + 1)) →
    (level (hashPair crypto) leaves above)[2 * index]? = some (inner above)

variable {crypto leaves} {watch : Bool}

lemma closesTwins_even {index : Nat} : ClosesTwins crypto leaves (2 ^ height * (2 * (index + 1))) height ↔
      (level (hashPair crypto) leaves height)[2 * index]? =
        (level (hashPair crypto) leaves height)[2 * index + 1]? ∨
      ClosesTwins crypto leaves (2 ^ height * (2 * (index + 1))) (height + 1) := by
  constructor
  · rintro ⟨above, other, higher, split, same⟩
    rcases higher.eq_or_lt with rfl | higher
    · have only := Nat.eq_of_mul_eq_mul_left (Nat.two_pow_pos height) split
      obtain rfl : index = other := by omega
      exact .inl same
    · exact .inr ⟨above, other, higher, split, same⟩
  · rintro (same | ⟨above, other, higher, split, same⟩)
    · exact ⟨height, index, le_rfl, rfl, same⟩
    · exact ⟨above, other, by omega, split, same⟩

lemma not_closesTwins_odd {index : Nat} : ¬ ClosesTwins crypto leaves (2 ^ height * (2 * index + 1)) height := by
  rintro ⟨above, other, higher, split, _⟩
  obtain ⟨extra, rfl⟩ := Nat.exists_eq_add_of_le higher
  rw [pow_add, mul_assoc] at split
  have even := Nat.eq_of_mul_eq_mul_left (Nat.two_pow_pos height) split
  rw [mul_left_comm] at even
  omega

def carry (crypto : Crypto) (state : MerkleState) (watch : Bool) (climb : Climb) : Climb where
  level := climb.level + 1
  h := hashPair crypto (state.inner climb.level) climb.h
  matchh := (recordLevel state climb).1
  mutated := climb.mutated || (watch && state.inner climb.level == climb.h)
  branch := (recordLevel state climb).2

lemma climbLevels_carry (unset : state.count.toNat.testBit climb.level = false) :
    climbLevels crypto state watch (fuel + 1) climb =
      climbLevels crypto state watch fuel (carry crypto state watch climb) := by
  rw [climbLevels, unset]
  rfl

lemma climbLevels_stop (set : state.count.toNat.testBit climb.level = true) :
    climbLevels crypto state watch (fuel + 1) climb = climb := by
  rw [climbLevels, if_pos set]

/-- A climb carries the last node below `count` of each level it passes. -/
lemma climbLevels_spec (state : MerkleState) (watch : Bool) (fuel : Nat) (climb : Climb)
    (counted : state.count.toNat = count) (split : count = 2 ^ height * (quotient + 1))
    (enough : count < 2 ^ (height + fuel)) (left : HasLeft crypto leaves state.inner count height)
    (here : climb.level = height) (node : (level (hashPair crypto) leaves height)[quotient]? = some climb.h) :
    let result := climbLevels crypto state watch fuel climb
    height ≤ result.level ∧ LastNode crypto leaves count result.level result.h ∧ (result.mutated = true ↔
        climb.mutated = true ∨ watch = true ∧ ClosesTwins crypto leaves count height) := by
  induction fuel generalizing height quotient climb with
  | zero =>
    have reached : 2 ^ height * 1 ≤ 2 ^ height * (quotient + 1) := Nat.mul_le_mul_left _ (succ_pos quotient)
    rw [add_zero, split] at enough
    omega
  | succ fuel ih =>
    subst here
    have bit := testBit_level split
    rw [← counted] at bit
    rcases even_or_odd' quotient with ⟨index, rfl | rfl⟩
    · -- The bit is set, and no carry leaves this level.
      rw [climbLevels_stop (bit.trans (decide_eq_true (by omega)))]
      refine ⟨le_rfl, ⟨index, split, node⟩, ?_⟩
      rw [split]
      simp [not_closesTwins_odd]
    · rw [climbLevels_carry (bit.trans (decide_eq_false (by omega)))]
      rw [show 2 * index + 1 + 1 = 2 * (index + 1) by omega] at split
      have inner := left climb.level index le_rfl split
      have up : count = 2 ^ (climb.level + 1) * (index + 1) := by rw [split, pow_succ, mul_assoc]
      have enough : count < 2 ^ (climb.level + 1 + fuel) := by rwa [add_right_comm, add_assoc]
      obtain ⟨higher, last, seen⟩ := ih (carry crypto state watch climb) up enough
        (fun above other higher => left above other (le_of_succ_le higher)) rfl
        (level_pair inner node)
      refine ⟨le_of_succ_le higher, last, seen.trans ?_⟩
      rw [split, closesTwins_even, inner, node, ← split]
      cases watch <;> simp [carry, or_assoc]

end Climb

section Leaves
variable (crypto : Crypto) (leaves : List Uint256)

/-- The state of the loop once the first `count` leaves are read. -/
structure Processed (count : Nat) (state : MerkleState) : Prop where
  counted : state.count.toNat = count
  inner : ∀ height index, count / 2 ^ height = 2 * index + 1 →
    (level (hashPair crypto) leaves height)[2 * index]? = some (state.inner height)
  twins : state.mutated = true ↔ Twins (hashPair crypto) leaves count

variable {crypto leaves}

lemma processed_nil : Processed crypto leaves 0 {} where
  counted := rfl
  inner := by
    intro height index odd
    rw [Nat.zero_div] at odd
    omega
  twins := by
    constructor
    · rintro ⟨⟩
    · rintro ⟨height, index, bound, _⟩
      have positive : 0 < 2 ^ height * (2 * (index + 1)) := Nat.mul_pos (Nat.two_pow_pos height) (by omega)
      omega

variable {index : Nat}

lemma div_of_closed (closed : count + 1 = 2 ^ height * (2 * (index + 1))) : count / 2 ^ height = 2 * index + 1 := by
  have positive := Nat.two_pow_pos height
  rw [show 2 * (index + 1) = 2 * index + 1 + 1 by omega, mul_succ] at closed
  rw [show count = 2 ^ height - 1 + 2 ^ height * (2 * index + 1) by omega,
    add_mul_div_left _ _ positive, div_eq_of_lt (by omega), zero_add]

lemma twins_succ : Twins (hashPair crypto) leaves (count + 1) ↔
      Twins (hashPair crypto) leaves count ∨ ClosesTwins crypto leaves (count + 1) 0 := by
  constructor
  · rintro ⟨height, index, bound, same⟩
    rcases bound.eq_or_lt with last | bound
    · exact .inr ⟨height, index, zero_le _, last.symm, same⟩
    · exact .inl ⟨height, index, le_of_lt_succ bound, same⟩
  · rintro (⟨height, index, bound, same⟩ | ⟨height, index, _, last, same⟩)
    · exact ⟨height, index, le_succ_of_le bound, same⟩
    · exact ⟨height, index, last.ge, same⟩

/-- A level whose bit the increment leaves set had the same last node before it. -/
lemma div_succ_of_higher {above : Nat} (split : count + 1 = 2 ^ height * (2 * index + 1)) (higher : height < above) :
    (count + 1) / 2 ^ above = count / 2 ^ above := by
  rw [Nat.succ_div, if_neg, add_zero]
  obtain ⟨extra, rfl⟩ := Nat.exists_eq_add_of_lt higher
  rw [split, add_assoc, pow_add, Nat.mul_dvd_mul_iff_left (Nat.two_pow_pos height)]
  intro divides
  have even : 2 ∣ 2 * index + 1 := (Dvd.intro_left _ (pow_succ ..).symm).trans divides
  omega

lemma div_even_of_lower
    (split : count = 2 ^ height * (2 * index + 1)) (lower : below < height) : count / 2 ^ below % 2 = 0 := by
  obtain ⟨extra, rfl⟩ := Nat.exists_eq_add_of_lt lower
  rw [split, add_assoc, pow_add, mul_assoc,
    Nat.mul_div_cancel_left _ (Nat.two_pow_pos below), pow_succ, Nat.mul_right_comm]
  exact mul_mod_left _ _

def leafClimb (crypto : Crypto) (branchpos : UInt32) (state : MerkleState) (leaf : Uint256) : Climb :=
  climbLevels crypto { state with count := state.count + 1 } true 32
    { level := 0, h := leaf, matchh := state.count == branchpos
      mutated := state.mutated, branch := state.branch }

variable (branchpos : UInt32)

lemma addLeaf_inner (state : MerkleState) (leaf : Uint256) : (addLeaf crypto branchpos state leaf).inner =
      Function.update state.inner (leafClimb crypto branchpos state leaf).level
        (leafClimb crypto branchpos state leaf).h := rfl

variable (done : Processed crypto leaves count state) (short : count + 1 < 2 ^ 32)
  (next : leaves[count]? = some leaf)
include done short next

lemma leafClimb_spec : LastNode crypto leaves (count + 1) (leafClimb crypto branchpos state leaf).level
        (leafClimb crypto branchpos state leaf).h ∧ ((leafClimb crypto branchpos state leaf).mutated = true ↔
        state.mutated = true ∨ true = true ∧ ClosesTwins crypto leaves (count + 1) 0) := by
  have counted : (state.count + 1).toNat = count + 1 := by
    rw [UInt32.toNat_add, done.counted]
    exact mod_eq_of_lt short
  have left : HasLeft crypto leaves state.inner (count + 1) 0 := fun above index _ closed =>
    done.inner above index (div_of_closed closed)
  have split : count + 1 = 2 ^ 0 * (count + 1) := (one_mul _).symm
  have enough : count + 1 < 2 ^ (0 + 32) := short
  exact (climbLevels_spec { state with count := state.count + 1 } true 32
    { level := 0, h := leaf, matchh := state.count == branchpos
      mutated := state.mutated, branch := state.branch }
    counted split enough left rfl next).2

lemma addLeaf_processed {branchpos : UInt32} :
    Processed crypto leaves (count + 1) (addLeaf crypto branchpos state leaf) := by
  obtain ⟨⟨index, split, node⟩, seen⟩ := leafClimb_spec branchpos done short next
  constructor
  · show (state.count + 1).toNat = count + 1
    rw [UInt32.toNat_add, done.counted]
    exact mod_eq_of_lt short
  · intro height other odd
    rw [addLeaf_inner]
    rcases Nat.lt_trichotomy height (leafClimb crypto branchpos state leaf).level with lower | same | higher
    · have even := div_even_of_lower split lower
      omega
    · subst same
      rw [split, Nat.mul_div_cancel_left _ (Nat.two_pow_pos _)] at odd
      obtain rfl : index = other := by omega
      rw [Function.update_self]
      exact node
    · rw [Function.update_of_ne higher.ne']
      rw [div_succ_of_higher split higher] at odd
      exact done.inner height other odd
  · rw [twins_succ, ← done.twins]
    exact seen.trans (by simp)

omit done short next

lemma foldl_addLeaf_processed {branchpos : UInt32} (short : leaves.length < 2 ^ 32) :
    Processed crypto leaves leaves.length (leaves.foldl (addLeaf crypto branchpos) {}) := by
  have run : ∀ rest state count, leaves.drop count = rest → count ≤ leaves.length →
      Processed crypto leaves count state →
      Processed crypto leaves leaves.length (rest.foldl (addLeaf crypto branchpos) state) := by
    intro rest
    induction rest with
    | nil =>
      intro state count all bound done
      have whole : leaves.length = count := le_antisymm (drop_eq_nil_iff.mp all) bound
      rwa [whole]
    | cons leaf rest ih =>
      intro state count all bound done
      have inside : count < leaves.length := by
        by_contra past
        rw [drop_of_length_le (not_lt.mp past)] at all
        cases all
      rw [drop_eq_getElem_cons inside] at all
      cases all
      exact ih _ (count + 1) rfl inside (addLeaf_processed done (by omega) (getElem?_eq_getElem inside))
  exact run leaves {} 0 rfl (zero_le _) processed_nil

end Leaves

section Sweep
variable {crypto : Crypto} {leaves : List Uint256} {index : Nat}

lemma lowestLevel_spec {count : UInt32} (quotient : Nat)
    (split : count.toNat = 2 ^ height * (quotient + 1)) (enough : count.toNat < 2 ^ (height + fuel)) :
    ∃ index, count.toNat = 2 ^ lowestLevel count fuel height * (2 * index + 1) := by
  induction fuel generalizing height quotient with
  | zero =>
    have reached : 2 ^ height * 1 ≤ 2 ^ height * (quotient + 1) := Nat.mul_le_mul_left _ (succ_pos quotient)
    rw [add_zero, split] at enough
    omega
  | succ fuel ih =>
    rw [lowestLevel, testBit_level split]
    rcases even_or_odd' quotient with ⟨index, rfl | rfl⟩
    · rw [if_pos (decide_eq_true (by omega))]
      exact ⟨index, split⟩
    · rw [if_neg (by simp; omega)]
      apply ih index
      · rw [split, pow_succ, mul_assoc]
        rfl
      · rwa [add_right_comm, add_assoc]

/-- The count of a sweep that has reached `height`: the number of leaves, rounded up
to a multiple of `2 ^ height`. -/
structure RoundedUp (size count height : Nat) : Prop where
  least : size ≤ count
  close : count < size + 2 ^ height
  wide : 2 ^ height < 2 * size
  small : count ≤ 2 ^ 31

lemma LastNode.pow_le (last : LastNode crypto leaves count height h) : 2 ^ height ≤ count := by
  obtain ⟨index, split, _⟩ := last
  rw [split]
  exact Nat.le_mul_of_pos_right _ (by omega)

lemma LastNode.level_lt (last : LastNode crypto leaves count height h) (small : count ≤ 2 ^ 31) : height < 32 :=
  (Nat.pow_lt_pow_iff_right (by decide)).mp
    (lt_of_le_of_lt (last.pow_le.trans small) (show 2 ^ 31 < 2 ^ 32 by decide))

/-- A level that the count completes but the leaves do not has its left sibling in
the inner array. -/
lemma RoundedUp.div_eq {above : Nat} (rounded : RoundedUp size count height) (higher : height < above)
    (closed : count + 2 ^ height = 2 ^ above * (2 * (index + 1))) : size / 2 ^ above = 2 * index + 1 := by
  have least := rounded.least
  have close := rounded.close
  have double : 2 ^ height * 2 ≤ 2 ^ above := by
    rw [← pow_succ]
    exact Nat.pow_le_pow_right (by decide) higher
  rw [show 2 * (index + 1) = 2 * index + 1 + 1 by omega] at closed
  apply Nat.div_eq_of_lt_le
  · rw [mul_succ, mul_comm (2 ^ above)] at closed
    omega
  · rw [mul_comm]
    exact lt_of_le_of_lt least (by omega)

/-- Rounding an odd multiple up to the next level stays within 32 bits. -/
lemma add_pow_le (several : 0 < index) (small : 2 ^ height * (2 * index + 1) ≤ 2 ^ 31) :
    2 ^ height * (2 * index + 1) + 2 ^ height ≤ 2 ^ 31 := by
  have bound : height < 31 := by
    apply (Nat.pow_lt_pow_iff_right (a := 2) (by decide)).mp
    have more : 2 ^ height * 3 ≤ 2 ^ height * (2 * index + 1) := Nat.mul_le_mul_left _ (by omega)
    omega
  obtain ⟨extra, gap⟩ := Nat.exists_eq_add_of_lt bound
  have whole : 2 ^ 31 = 2 ^ height * (2 * 2 ^ extra) := by
    rw [gap, pow_succ, pow_add]
    ring
  rw [whole] at small ⊢
  have quotient := Nat.le_of_mul_le_mul_left small (Nat.two_pow_pos height)
  rw [← mul_succ]
  exact Nat.mul_le_mul_left _ (by omega)

lemma sweep_turn {above : Nat}
    (rounded : RoundedUp size count height) (split : count = 2 ^ height * (2 * index + 1))
    (several : 0 < index) (higher : height < above) (reached : 2 ^ above ≤ count + 2 ^ height) :
    RoundedUp size (count + 2 ^ height) above := by
  have least := rounded.least
  have close := rounded.close
  have more : 2 ^ height * 3 ≤ count := by
    rw [split]
    exact Nat.mul_le_mul_left _ (by omega)
  have double : 2 ^ height * 2 ≤ 2 ^ above := by
    rw [← pow_succ]
    exact Nat.pow_le_pow_right (by decide) higher
  constructor
  · omega
  · omega
  · omega
  · rw [split]
    exact add_pow_le several (split ▸ rounded.small)

lemma sweep_root (state : MerkleState) (climb : Climb)
    (inner : ∀ height index, leaves.length / 2 ^ height = 2 * index + 1 →
      (level (hashPair crypto) leaves height)[2 * index]? = some (state.inner height))
    (counted : state.count.toNat = count) (enough : 32 ≤ climb.level + fuel)
    (rounded : RoundedUp leaves.length count climb.level)
    (last : LastNode crypto leaves count climb.level climb.h) :
    root (hashPair crypto) Uint256.null leaves = (sweep crypto fuel state climb).h := by
  induction fuel generalizing state climb count with
  | zero =>
    have bound := last.level_lt rounded.small
    omega
  | succ fuel ih =>
    obtain ⟨index, split, node⟩ := last
    rw [sweep, counted]
    by_cases top : count = 2 ^ climb.level
    · rw [if_pos top]
      have first : index = 0 := by
        rw [split] at top
        have one := Nat.eq_of_mul_eq_mul_left (Nat.two_pow_pos _) (top.trans (mul_one _).symm)
        omega
      subst first
      exact root_of_single rounded.wide (top ▸ rounded.least) node
    · rw [if_neg top]
      have several : 0 < index := by
        rcases Nat.eq_zero_or_pos index with rfl | several
        · exact absurd (split.trans (mul_one _)) top
        · exact several
      have small := add_pow_le several (split ▸ rounded.small)
      rw [← split] at small
      have counted' : (state.count + UInt32.ofNat (2 ^ climb.level)).toNat = count + 2 ^ climb.level := by
        rw [UInt32.toNat_add, counted, UInt32.toNat_ofNat', add_mod_mod]
        exact mod_eq_of_lt (by omega)
      have up : count + 2 ^ climb.level = 2 ^ (climb.level + 1) * (index + 1) := by
        rw [split, pow_succ]
        ring
      have alone : (level (hashPair crypto) leaves climb.level)[2 * index + 1]? = none :=
        getElem?_level_eq_none.mpr (split ▸ rounded.least)
      have climbed := climbLevels_spec
        { state with count := state.count + UInt32.ofNat (2 ^ climb.level) } false 32
        { climb with
          level := climb.level + 1
          h := hashPair crypto climb.h climb.h
          branch := if climb.matchh then climb.branch ++ [climb.h] else climb.branch }
        counted' up
        (lt_of_le_of_lt small (Nat.pow_lt_pow_right (by decide) (by omega)))
        (fun above other higher closed => inner above other (rounded.div_eq (by omega) closed))
        rfl (level_self node alone)
      exact ih _ _ inner counted' (by have := climbed.1; omega)
        (sweep_turn rounded split several (by have := climbed.1; omega) climbed.2.1.pow_le)
        climbed.2.1

/-- The sweep starts at the lowest set bit of the count, with the last complete node. -/
lemma sweep_processed (read : Processed crypto leaves leaves.length state)
    (positive : 0 < leaves.length) (short : leaves.length < 2 ^ 31)
    (lowest : climb.level = lowestLevel state.count 32 0) (node : climb.h = state.inner climb.level) :
    root (hashPair crypto) Uint256.null leaves = (sweep crypto 32 state climb).h := by
  have counted := read.counted
  obtain ⟨index, split⟩ : ∃ index, leaves.length = 2 ^ climb.level * (2 * index + 1) := by
    rw [lowest, ← counted]
    have whole : state.count.toNat = 2 ^ 0 * (leaves.length - 1 + 1) := by
      rw [counted, pow_zero, one_mul, Nat.sub_add_cancel positive]
    exact lowestLevel_spec _ whole (by omega)
  have last : LastNode crypto leaves leaves.length climb.level climb.h := by
    refine ⟨index, split, ?_⟩
    rw [node]
    apply read.inner
    rw [split, Nat.mul_div_cancel_left _ (Nat.two_pow_pos _)]
  have reached := last.pow_le
  have rounded : RoundedUp leaves.length leaves.length climb.level := by
    have power := Nat.two_pow_pos climb.level
    constructor <;> omega
  exact sweep_root state climb read.inner counted (by omega) rounded last

end Sweep

/-- ComputeMerkleRoot is the root of the tree, and reports its twins. -/
lemma computeMerkleRoot_spec (crypto : Crypto) {leaves : List Uint256} (short : leaves.length < 2 ^ 31) :
    (computeMerkleRoot crypto leaves).1 = root (hashPair crypto) Uint256.null leaves ∧
      ((computeMerkleRoot crypto leaves).2 = true ↔ Twins (hashPair crypto) leaves leaves.length) := by
  cases leaves with
  | nil =>
    have quiet : Processed crypto [] 0 {} := processed_nil
    exact ⟨by rw [root]; rfl, quiet.twins⟩
  | cons leaf rest =>
    have read : Processed crypto (leaf :: rest) (leaf :: rest).length
        ((leaf :: rest).foldl (addLeaf crypto 0xffffffff) {}) :=
      foldl_addLeaf_processed (by omega)
    exact ⟨(sweep_processed read (succ_pos _) short rfl rfl).symm, read.twins⟩

/-- ComputeMerkleRoot is the level-by-level root, and where the hashes of two trees do
not collide, different leaves under one root are reported as mutated. -/
theorem computeMerkleRoot_reference (crypto : Crypto) (leaves : List Uint256) (short : leaves.length < 2 ^ 31) :
    (computeMerkleRoot crypto leaves).1 = root (hashPair crypto) Uint256.null leaves ∧
      ∀ others : List Uint256, others.length < 2 ^ 31 → leaves ≠ [] → others ≠ [] →
        CollisionFree (hashPair crypto) (hashed (hashPair crypto) leaves ++ hashed (hashPair crypto) others)
          (leaves ++ others) → leaves ≠ others →
        (computeMerkleRoot crypto leaves).1 = (computeMerkleRoot crypto others).1 →
        (computeMerkleRoot crypto leaves).2 = true ∨ (computeMerkleRoot crypto others).2 = true := by
  obtain ⟨reference, reports⟩ := computeMerkleRoot_spec crypto short
  refine ⟨reference, ?_⟩
  intro others short' nonempty nonempty' free different same
  obtain ⟨reference', reports'⟩ := computeMerkleRoot_spec crypto short'
  rw [reports, reports']
  rw [reference, reference'] at same
  exact (root_eq nonempty nonempty' free same).resolve_left different

namespace RepeatedLeaf

def crypto : Crypto :=
  { Crypto.zeros with
    sha256 := fun data => Uint256.filled (7 * data.getD 0 0 + data.getD 32 0) }

def leaves : List Uint256 := [Uint256.filled 1, Uint256.filled 2, Uint256.filled 3]

def others : List Uint256 := leaves ++ [Uint256.filled 3]

lemma collisionFree : CollisionFree (hashPair crypto)
      (hashed (hashPair crypto) leaves ++ hashed (hashPair crypto) others) (leaves ++ others) := by
  decide +kernel

theorem reported_mutated :
    (computeMerkleRoot crypto leaves).2 = true ∨ (computeMerkleRoot crypto others).2 = true :=
  (computeMerkleRoot_reference crypto leaves (by decide)).2 others (by decide) (by decide)
    (by decide) collisionFree (by decide) (by decide +kernel)

/-- No leaves and the single leaf zero have one root, and neither is reported. -/
theorem empty_not_reported : CollisionFree (hashPair crypto)
        (hashed (hashPair crypto) [] ++ hashed (hashPair crypto) [Uint256.null]) ([] ++ [Uint256.null]) ∧
      [] ≠ [Uint256.null] ∧ (computeMerkleRoot crypto []).1 = (computeMerkleRoot crypto [Uint256.null]).1 ∧
      (computeMerkleRoot crypto []).2 = false ∧ (computeMerkleRoot crypto [Uint256.null]).2 = false := by
  decide +kernel

end RepeatedLeaf

end Dragonchain.Merkle
