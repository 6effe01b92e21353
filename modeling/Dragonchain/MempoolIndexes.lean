import Mathlib.Algebra.Order.Field.Basic
import Mathlib.Data.List.Induction
import Mathlib.Data.List.Lex
import Mathlib.Data.Prod.Lex
import Mathlib.Data.Rat.Cast.Order
import Dragonchain.Primitives

/-!
The indexes that CTxMemPool keeps over its entries: the comparators of the ordered indexes of
mapTx, with the products of double read as exact integers, and vTxHashes. An iterator into
mapTx is the txid of its entry.
-/

namespace Dragonchain.TxMemPool

open List

/-- What the comparators read of a CTxMemPoolEntry. -/
structure CTxMemPoolEntry where
  hash : Uint256
  nTime : Int
  modifiedFee : Int
  txSize : Nat
  modFeesWithDescendants : Int
  sizeWithDescendants : Nat
  modFeesWithAncestors : Int
  sizeWithAncestors : Nat
  sized : 0 < txSize ∧ 0 < sizeWithDescendants ∧ 0 < sizeWithAncestors

/-- The order of memcmp. -/
def hashOrder (hash : Uint256) : List Nat := hash.bytes.map UInt8.toNat

namespace CompareByDescendantScore

def getModFeeAndSize (a : CTxMemPoolEntry) : Int × Nat :=
  let f1 := a.modifiedFee * a.sizeWithDescendants
  let f2 := a.modFeesWithDescendants * a.txSize
  if f2 > f1 then (a.modFeesWithDescendants, a.sizeWithDescendants) else (a.modifiedFee, a.txSize)

def less (a b : CTxMemPoolEntry) : Bool :=
  let (a_mod_fee, a_size) := getModFeeAndSize a
  let (b_mod_fee, b_size) := getModFeeAndSize b
  let f1 := a_mod_fee * b_size
  let f2 := a_size * b_mod_fee
  if f1 = f2 then a.nTime ≥ b.nTime else f1 < f2

end CompareByDescendantScore

namespace CompareByScore

def less (a b : CTxMemPoolEntry) : Bool :=
  let f1 := a.modifiedFee * b.txSize
  let f2 := b.modifiedFee * a.txSize
  if f1 = f2 then hashOrder b.hash < hashOrder a.hash else f1 > f2

end CompareByScore

namespace CompareByAncestorFee

variable (a : CTxMemPoolEntry)

def getModFeeAndSize : Int × Nat :=
  let f1 := a.modifiedFee * a.sizeWithAncestors
  let f2 := a.modFeesWithAncestors * a.txSize
  if f1 > f2 then (a.modFeesWithAncestors, a.sizeWithAncestors) else (a.modifiedFee, a.txSize)

def less (b : CTxMemPoolEntry) : Bool :=
  let (a_mod_fee, a_size) := getModFeeAndSize a
  let (b_mod_fee, b_size) := getModFeeAndSize b
  let f1 := a_mod_fee * b_size
  let f2 := a_size * b_mod_fee
  if f1 = f2 then hashOrder a.hash < hashOrder b.hash else f1 > f2

lemma getModFeeAndSize_pos : 0 < (getModFeeAndSize a).2 := by
  simp only [getModFeeAndSize]
  split_ifs
  · exact a.sized.2.2
  · exact a.sized.1

end CompareByAncestorFee

/-- A comparator that compares keys of a linear order. -/
lemma strictWeakOrder_of_key {α κ : Type*} [LinearOrder κ] {less : α → α → Prop} (key : α → κ)
    (compares : ∀ a b, less a b ↔ key a < key b) : IsStrictWeakOrder α less :=
  { irrefl := by simp [compares]
    trans := fun a b c => by simpa only [compares] using lt_trans
    incomp_trans := fun a b c first second => by
      simp only [compares, not_lt] at first second ⊢
      exact ⟨second.1.trans first.1, first.2.trans second.2⟩ }

def rate (pair : Int × Nat) : ℚ := pair.1 / pair.2

section Rates
variable {p q : Int × Nat} (first : 0 < p.2) (second : 0 < q.2)
include first second

lemma rate_lt_iff : rate p < rate q ↔ p.1 * q.2 < q.1 * p.2 := by
  rw [rate, rate, div_lt_div_iff₀ (by exact_mod_cast first) (by exact_mod_cast second)]
  exact_mod_cast Iff.rfl

lemma rate_eq_iff : rate p = rate q ↔ p.1 * q.2 = q.1 * p.2 := by
  rw [rate, rate, div_eq_div_iff (by exact_mod_cast first.ne') (by exact_mod_cast second.ne')]
  exact_mod_cast Iff.rfl

end Rates

variable (pool : Set CTxMemPoolEntry)

lemma byScore_strictWeakOrder : IsStrictWeakOrder pool fun a b => CompareByScore.less a b = true := by
  refine strictWeakOrder_of_key (fun entry : pool => OrderDual.toDual
    (toLex (rate (entry.1.modifiedFee, entry.1.txSize), hashOrder entry.1.hash))) fun a b => ?_
  rw [OrderDual.toDual_lt_toDual, Prod.Lex.toLex_lt_toLex, rate_lt_iff b.1.sized.1 a.1.sized.1,
    rate_eq_iff b.1.sized.1 a.1.sized.1]
  simp only [CompareByScore.less]
  split_ifs with same
  · simp [same]
  · simp [Ne.symm same]

lemma byAncestorFee_strictWeakOrder : IsStrictWeakOrder pool fun a b => CompareByAncestorFee.less a b = true := by
  refine strictWeakOrder_of_key (fun entry : pool => toLex (OrderDual.toDual
    (rate (CompareByAncestorFee.getModFeeAndSize entry)), hashOrder entry.1.hash)) fun a b => ?_
  have first := CompareByAncestorFee.getModFeeAndSize_pos a
  have second := CompareByAncestorFee.getModFeeAndSize_pos b
  rw [Prod.Lex.toLex_lt_toLex, OrderDual.toDual_lt_toDual, OrderDual.toDual_inj, rate_lt_iff second first,
    rate_eq_iff first second, Int.mul_comm (CompareByAncestorFee.getModFeeAndSize b).1]
  simp only [CompareByAncestorFee.less]
  split_ifs with same
  · simp [same]
  · simp [same]

lemma byDescendantScore_self {entry : CTxMemPoolEntry} : CompareByDescendantScore.less entry entry = true := by
  simp [CompareByDescendantScore.less, Int.mul_comm]

/-- No entry comes before itself in a strict weak ordering, but each does by its descendant score. -/
theorem comparators_strictWeakOrder_iff (pool : Set CTxMemPoolEntry) :
    ((IsStrictWeakOrder pool (fun a b => CompareByDescendantScore.less a b = true) ∧
        IsStrictWeakOrder pool (fun a b => CompareByScore.less a b = true) ∧
        IsStrictWeakOrder pool fun a b => CompareByAncestorFee.less a b = true) ↔ pool = ∅) ∧
      IsStrictWeakOrder pool (fun a b => CompareByScore.less a b = true) ∧
      IsStrictWeakOrder pool fun a b => CompareByAncestorFee.less a b = true := by
  have sound := And.intro (byScore_strictWeakOrder pool) (byAncestorFee_strictWeakOrder pool)
  refine ⟨⟨fun orders => ?_, fun empty => ⟨?_, sound⟩⟩, sound⟩
  · exact Set.eq_empty_of_forall_notMem fun entry member => orders.1.irrefl ⟨entry, member⟩ byDescendantScore_self
  · subst empty
    exact strictWeakOrder_of_key (fun _ => 0) fun entry => entry.2.elim

def tied (hash : Uint256) : CTxMemPoolEntry where
  hash; nTime := 0; modifiedFee := 1; txSize := 1; modFeesWithDescendants := 1; sizeWithDescendants := 1
  modFeesWithAncestors := 1; sizeWithAncestors := 1; sized := by decide

theorem tied_each_before_the_other :
    CompareByDescendantScore.less (tied Uint256.null) (tied Uint256.one) = true ∧
      CompareByDescendantScore.less (tied Uint256.one) (tied Uint256.null) = true ∧
      CompareByDescendantScore.less (tied Uint256.null) (tied Uint256.null) = true := by
  decide

/-- The members of an entry of mapTx that the upkeep of vTxHashes reads. -/
structure IndexedEntry where
  witnessHash : Uint256
  vTxHashesIdx : Nat

structure CTxMemPool where
  mapTx : Uint256 → Option IndexedEntry
  vTxHashes : List (Uint256 × Uint256)

inductive Operation
  | addUnchecked (hash witnessHash : Uint256)
  | removeUnchecked (it : Uint256)
  | clear

namespace CTxMemPool

def empty : CTxMemPool := ⟨fun _ => none, []⟩

def addUnchecked (pool : CTxMemPool) (hash witnessHash : Uint256) : CTxMemPool :=
  -- mapTx.insert leaves an entry of the same txid in place.
  let newit := (pool.mapTx hash).getD ⟨witnessHash, 0⟩
  { mapTx := Function.update pool.mapTx hash (some ⟨newit.witnessHash, pool.vTxHashes.length⟩)
    vTxHashes := pool.vTxHashes ++ [(newit.witnessHash, hash)] }

/-- Removes the entry at an iterator; where there is no entry, no caller has an iterator. -/
def removeUnchecked (pool : CTxMemPool) (it : Uint256) : CTxMemPool :=
  match pool.mapTx it, pool.vTxHashes.getLast? with
  | some entry, some back =>
    if 1 < pool.vTxHashes.length then
      let moved := (pool.mapTx back.2).map ({ · with vTxHashesIdx := entry.vTxHashesIdx })
      { mapTx := Function.update (Function.update pool.mapTx back.2 moved) it none
        vTxHashes := (pool.vTxHashes.set entry.vTxHashesIdx back).dropLast }
    else { mapTx := Function.update pool.mapTx it none, vTxHashes := [] }
  | _, _ => { mapTx := Function.update pool.mapTx it none, vTxHashes := pool.vTxHashes }

def clear (pool : CTxMemPool) : CTxMemPool := { pool with mapTx := fun _ => none }

def step (pool : CTxMemPool) : Operation → CTxMemPool
  | .addUnchecked hash witnessHash => pool.addUnchecked hash witnessHash
  | .removeUnchecked it => pool.removeUnchecked it
  | .clear => pool.clear

def run (operations : List Operation) : CTxMemPool := operations.foldl step empty

/-- The elements of vTxHashes are the entries of mapTx, each at its own index. -/
def Indexed (pool : CTxMemPool) : Prop :=
  ∀ hash witnessHash i, pool.mapTx hash = some ⟨witnessHash, i⟩ ↔ pool.vTxHashes[i]? = some (witnessHash, hash)

/-- A new transaction is added, or an empty pool cleared. -/
def KeepsIndex (pool : CTxMemPool) : Operation → Prop
  | .addUnchecked hash _ => pool.mapTx hash = none
  | .removeUnchecked _ => True
  | .clear => pool.mapTx = fun _ => none

variable {pool : CTxMemPool} (indexed : Indexed pool)
include indexed

lemma addUnchecked_indexed_iff {hash witnessHash : Uint256} :
    Indexed (pool.addUnchecked hash witnessHash) ↔ pool.mapTx hash = none := by
  constructor
  · intro after
    by_contra present
    obtain ⟨⟨old, i⟩, found⟩ := Option.ne_none_iff_exists'.mp present
    have listed := (indexed hash old i).mp found
    have bound : i < pool.vTxHashes.length := (List.getElem?_eq_some_iff.mp listed).1
    -- The entry would be listed at its old index as well as at the end.
    have again := (after hash old i).mpr (by simp [addUnchecked, getElem?_append_left bound, listed])
    simp [addUnchecked, found] at again
    omega
  · intro fresh other witness i
    have := indexed other witness i
    have := indexed hash witness i
    simp only [addUnchecked, fresh, Option.getD_none, Function.update_apply]
    grind

lemma removeUnchecked_indexed {it : Uint256} : Indexed (pool.removeUnchecked it) := by
  intro hash witness i
  have here := indexed hash witness
  have there := indexed it
  simp only [removeUnchecked, getLast?_eq_getElem?]
  split
  · next entry back found last =>
    have listed := (there entry.1 entry.2).mp found
    have moved := (indexed back.2 back.1 _).mpr last
    split_ifs with many
    · simp only [Function.update_apply, getElem?_dropLast, getElem?_set, length_set, moved]
      grind
    · grind [Function.update_apply]
  · grind [Function.update_apply]

lemma clear_indexed_iff : Indexed pool.clear ↔ pool.mapTx = fun _ => none := by
  constructor
  · intro after
    funext hash
    by_contra present
    obtain ⟨⟨witness, i⟩, found⟩ := Option.ne_none_iff_exists'.mp present
    have listed := (indexed hash witness i).mp found
    have cleared := (after hash witness i).mpr listed
    simp [clear] at cleared
  · intro none
    rwa [clear, ← none]

lemma step_indexed_iff {operation : Operation} : Indexed (pool.step operation) ↔ KeepsIndex pool operation := by
  cases operation with
  | addUnchecked hash witnessHash => exact addUnchecked_indexed_iff indexed
  | removeUnchecked it => exact iff_of_true (removeUnchecked_indexed indexed) trivial
  | clear => exact clear_indexed_iff indexed

omit indexed

theorem run_indexed_iff (operations : List Operation) :
    (∀ earlier, earlier <+: operations → Indexed (run earlier)) ↔
      ∀ earlier operation, earlier ++ [operation] <+: operations → KeepsIndex (run earlier) operation := by
  have step_run (earlier operation) : run (earlier ++ [operation]) = step (run earlier) operation := by simp [run]
  constructor
  · intro indexed earlier operation before
    have kept := indexed _ before
    rw [step_run] at kept
    exact (step_indexed_iff (indexed _ ((prefix_append ..).trans before))).mp kept
  · intro keeps earlier before
    induction earlier using reverseRecOn with
    | nil => simp [run, empty, Indexed]
    | append_singleton earlier operation indexed =>
      rw [step_run, step_indexed_iff (indexed ((prefix_append ..).trans before))]
      exact keeps _ _ before

theorem cleared_entry_listed : ¬ Indexed (run [.addUnchecked Uint256.null Uint256.one, .clear]) := fun indexed => by
  have found := (indexed Uint256.null Uint256.one 0).mpr rfl
  simp [run, step, clear] at found

end CTxMemPool

end Dragonchain.TxMemPool
