import Dragonchain.LockTimes
import Dragonchain.VersionBits

/-!
CheckFinalTx, CheckSequenceLocks and the lock points that a mempool entry stores. A view of
the pool gives the heights of the coins; a lock point names a block by its ancestry.
-/

namespace Dragonchain

open Script List

variable {lock bound lockPair : Int × Int} {pindex entry : IndexEntry} {chain old tip : Ancestry}

namespace Ancestry

lemma getAncestor_eq_some {ancestor : Ancestry} {height : Int} :
    chain.getAncestor height = some ancestor ↔ 0 ≤ height ∧ ancestor.nHeight = height ∧ ancestor <:+ chain := by
  unfold getAncestor nHeight
  constructor
  · intro found
    split at found
    · cases found
    · cases found
      refine ⟨by omega, ?_, drop_suffix _ _⟩
      rw [length_drop]
      omega
  · rintro ⟨positive, rfl, front, rfl⟩
    rw [length_append] at *
    have skipped : (((front.length + ancestor.length : Nat) : Int) - 1 - (ancestor.length - 1)).toNat =
        front.length := by omega
    rw [if_neg (by omega), skipped, drop_left]

lemma exists_ancestor {height : Int} (positive : 0 ≤ height)
    (inside : height ≤ chain.nHeight) : ∃ ancestor : Ancestry, ancestor.nHeight = height ∧ ancestor <:+ chain := by
  have found : chain.getAncestor height = some _ := if_neg (by omega)
  exact ⟨_, (getAncestor_eq_some.mp found).2⟩

end Ancestry

open Ancestry

def MEMPOOL_HEIGHT : Int := 0x7FFFFFFF

/-- The heights CCoinsViewMemPool gives over the coins of a chain. -/
structure PoolView (chain : Ancestry) where
  nHeight : COutPoint → Option Int
  within : ∀ prevout, ∀ height ∈ nHeight prevout, height = MEMPOOL_HEIGHT ∨ 0 ≤ height ∧ height ≤ chain.nHeight

structure LockPoints where
  height : Int := 0
  time : Int := 0
  maxInputBlock : Option Ancestry := none
  deriving DecidableEq

def checkFinalTx (medianTimePast : Bool) (adjustedTime : Int) (tx : CTransaction) (chainActive : Ancestry) : Bool :=
  isFinalTx tx (chainActive.nHeight + 1) (if medianTimePast then chainActive.getMedianTimePast else adjustedTime)

def testLockPointValidity (chainActive : Ancestry) (lp : LockPoints) : Bool :=
  match lp.maxInputBlock with
  | none => true
  | some block => chainActive.getAncestor block.nHeight = some block

/-- The heights as CalculateSequenceLocks leaves them. -/
def relevantHeights (tx : CTransaction) (verifySequence : Bool) (prevHeights : List Int) : List Int :=
  if tx.nVersion.toUInt32 ≥ 2 && verifySequence then
    (tx.vin.zip prevHeights).map fun input => if input.1.nSequence.toNat.testBit 31 then 0 else input.2
  else prevHeights

def nextIndex (tip : Ancestry) : Ancestry := ⟨Uint256.null, ⟨0, Uint256.null, Uint256.null, 0, 0, 0⟩⟩ :: tip

def poolHeight (tip : Ancestry) (nHeight : Int) : Int := if nHeight = MEMPOOL_HEIGHT then tip.nHeight + 1 else nHeight

/-- The verdict and the lock points; `none` is a null CBlockIndex. -/
def checkSequenceLocks (verifySequence : Bool) (tx : CTransaction) (tip : Ancestry) (view : PoolView tip)
    (lp : LockPoints) (useExistingLockPoints : Bool) : Option (Bool × LockPoints) :=
  if useExistingLockPoints then some (evaluateSequenceLocks (nextIndex tip) (lp.height, lp.time), lp)
  else
    match tx.vin.mapM fun txin => (view.nHeight txin.prevout).map (poolHeight tip) with
    | none => some (false, lp)
    | some prevheights => do
      let lockPair ← calculateSequenceLocks tx verifySequence prevheights (nextIndex tip)
      let maxInputHeight := ((relevantHeights tx verifySequence prevheights).filter
        (· ≠ tip.nHeight + 1)).foldl max 0
      some (evaluateSequenceLocks (nextIndex tip) lockPair,
        ⟨lockPair.1, lockPair.2, tip.getAncestor maxInputHeight⟩)

/-- What removeForReorg leaves of an entry's lock points, if it keeps the entry. -/
def reorgLockPoints (tx : CTransaction) (tip : Ancestry) (view : PoolView tip) (lp : LockPoints) :
    Option LockPoints := do
  if !checkFinalTx true 0 tx tip then none
  else
    let (passed, lp) ← checkSequenceLocks true tx tip view lp (testLockPointValidity tip lp)
    if passed then some lp else none

/-- Lock points that an entry of the pool holds, with the heights they were calculated from. -/
inductive Stored (tx : CTransaction) : (COutPoint → Option Int) → LockPoints → Prop
  | accept {tip : Ancestry} (present : tip ≠ []) (view : PoolView tip) {old lp : LockPoints}
      (passed : checkSequenceLocks true tx tip view old false = some (true, lp)) : Stored tx view.nHeight lp
  | keep {tip : Ancestry} (view : PoolView tip) {heights : COutPoint → Option Int} {lp kept : LockPoints}
      (stored : Stored tx heights lp) (valid : testLockPointValidity tip lp = true)
      (done : reorgLockPoints tx tip view lp = some kept) : Stored tx heights kept
  | renew {tip : Ancestry} (present : tip ≠ []) (view : PoolView tip) {heights : COutPoint → Option Int}
      {lp renewed : LockPoints} (stored : Stored tx heights lp) (invalid : testLockPointValidity tip lp = false)
      (done : reorgLockPoints tx tip view lp = some renewed) : Stored tx view.nHeight renewed

lemma foldl_max_le {start bound : Int} {heights : List Int} :
    heights.foldl max start ≤ bound ↔ start ≤ bound ∧ ∀ height ∈ heights, height ≤ bound := by
  induction heights generalizing start with
  | nil => simp
  | cons height heights ih => rw [foldl_cons, ih, max_le_iff, forall_mem_cons, and_assoc]

variable {heights : COutPoint → Option Int} {block : Ancestry} {lp : LockPoints} {txin : CTxIn}
  {nCoinHeight height' time time' : Int}

lemma sequenceLock_le (below : lock ≤ bound) (awaits : Awaits block txin nCoinHeight bound) :
    ∃ lock' ≤ bound, sequenceLock block lock (txin, nCoinHeight) = some lock' := by
  rw [sequenceLock, toNat_masked]
  cases disabled : txin.nSequence.toNat.testBit 31 with
  | true => exact ⟨lock, below, rfl⟩
  | false =>
    have bounded := awaits disabled
    cases kind : txin.nSequence.toNat.testBit 22 with
    | true =>
      rw [kind, if_pos rfl] at bounded
      obtain ⟨ancestor, found, reached⟩ := bounded
      rw [if_neg (by decide), if_pos rfl, found]
      refine ⟨_, ?_, rfl⟩
      refine ⟨below.1, max_le below.2 ?_⟩
      rwa [SEQUENCE_LOCKTIME_GRANULARITY, Nat.shiftLeft_eq, mul_comm]
    | false =>
      rw [kind, if_neg (by decide)] at bounded
      refine ⟨_, ?_, rfl⟩
      exact ⟨max_le below.1 bounded, below.2⟩

lemma foldlM_sequenceLock_le {inputs : List (CTxIn × Int)}
    (below : lock ≤ bound) (awaits : ∀ input ∈ inputs, Awaits block input.1 input.2 bound) :
    ∃ lock' ≤ bound, inputs.foldlM (sequenceLock block) lock = some lock' := by
  induction inputs generalizing lock with
  | nil => exact ⟨lock, below, rfl⟩
  | cons input inputs ih =>
    obtain ⟨next, nextBelow, stepped⟩ := sequenceLock_le below (awaits input mem_cons_self)
    obtain ⟨last, lastBelow, folded⟩ := ih nextBelow fun other member => awaits other (.tail _ member)
    exact ⟨last, lastBelow, by rw [foldlM_cons, stepped]; exact folded⟩

lemma Stored.calculated {tx : CTransaction}
    (stored : Stored tx heights lp) : ∃ (tip : Ancestry) (view : PoolView tip) (old : LockPoints),
      tip ≠ [] ∧ view.nHeight = heights ∧ checkSequenceLocks true tx tip view old false = some (true, lp) := by
  have passes {tip : Ancestry} {view : PoolView tip} {lp kept : LockPoints}
      (done : reorgLockPoints tx tip view lp = some kept) :
      checkSequenceLocks true tx tip view lp (testLockPointValidity tip lp) = some (true, kept) := by
    unfold reorgLockPoints at done
    split at done
    · cases done
    · obtain ⟨⟨passed, next⟩, checked, held⟩ := Option.bind_eq_some_iff.mp done
      cases passed <;> cases held
      exact checked
  induction stored with
  | accept present view passed => exact ⟨_, view, _, present, rfl, passed⟩
  | keep view stored valid done ih =>
    have checked := passes done
    rw [valid] at checked
    cases (Prod.mk.inj (Option.some.inj checked)).2
    exact ih
  | renew present view stored invalid done _ =>
    have checked := passes done
    rw [invalid] at checked
    exact ⟨_, view, _, present, rfl, checked⟩

/-- The input of a block against the input as the lock points saw it. -/
def SameInput (heights : COutPoint → Option Int) (tip : Ancestry) (txin : CTxIn) (height : Int) : Prop :=
  ∀ stored ∈ heights txin.prevout,
    if stored = MEMPOOL_HEIGHT then 0 ≤ height ∧ height ≤ tip.nHeight + 1 else height = stored

lemma Awaits.moved {block : Ancestry}
    {stored height : Int} (oldPresent : 0 ≤ old.nHeight) (present : 0 ≤ tip.nHeight)
    (rule : tip.AfterMedianTime) (awaits : Awaits (nextIndex old) txin (poolHeight old stored) lock)
    (passedOld : lock ≤ (old.nHeight, old.getMedianTimePast - 1))
    (passed : lock ≤ (tip.nHeight, tip.getMedianTimePast - 1))
    (same : if stored = MEMPOOL_HEIGHT then 0 ≤ height ∧ height ≤ tip.nHeight + 1 else height = stored)
    (kept : stored ≠ MEMPOOL_HEIGHT → txin.nSequence.toNat.testBit 31 = false →
      0 ≤ block.nHeight ∧ stored ≤ block.nHeight ∧ block <:+ old ∧ block <:+ tip) :
    Awaits (pindex :: tip) txin height (tip.nHeight, tip.getMedianTimePast - 1) := by
  intro used
  have bound := awaits used
  unfold poolHeight at bound
  obtain ⟨oldHeight, oldTime⟩ := passedOld
  by_cases pooled : stored = MEMPOOL_HEIGHT
  · -- An unconfirmed input passed on the old chain, so its lock is zero.
    rw [if_pos pooled] at bound same
    split_ifs at bound ⊢
    · obtain ⟨ancestor, found, reached⟩ := bound
      have itself : (nextIndex old).getAncestor (max (old.nHeight + 1 - 1) 0) = some old :=
        getAncestor_eq_some.mpr ⟨le_max_right _ _, by omega, suffix_cons _ _⟩
      cases Option.some.inj (itself.symm.trans found)
      obtain ⟨below, level, front, rfl⟩ := exists_ancestor (le_max_right (height - 1) 0)
        (show max (height - 1) 0 ≤ tip.nHeight by omega)
      refine ⟨below, getAncestor_eq_some.mpr ⟨le_max_right _ _, level, pindex :: front, rfl⟩, ?_⟩
      have nonempty : below ≠ [] := by
        rintro rfl
        exact absurd (level.trans_ge (le_max_right _ _)) (by decide)
      have median := rule.getMedianTimePast_le nonempty
      omega
    · dsimp only at oldHeight ⊢
      omega
  · rw [if_neg pooled] at bound same
    subst same
    obtain ⟨nonempty, high, inOld, inTip⟩ := kept pooled used
    refine Awaits.mono (fun _ => ?_) passed.1 passed.2 used
    split_ifs at bound ⊢
    · obtain ⟨ancestor, found, reached⟩ := bound
      obtain ⟨positive, level, inside⟩ := getAncestor_eq_some.mp found
      have shorter : ancestor.length ≤ block.length := by
        unfold nHeight at level high nonempty
        omega
      have below := suffix_of_suffix_length_le inside (inOld.trans (suffix_cons _ _)) shorter
      exact ⟨ancestor, getAncestor_eq_some.mpr
        ⟨positive, level, (below.trans inTip).trans (suffix_cons _ _)⟩, reached⟩
    · exact bound

section
variable {α β : Type} {read : α → Option β} {items : List α} {results : List β} {item : α} {result : β}

variable (done : items.mapM read = some results)
include done

lemma map_of_mapM : items.map read = results.map some := by
  induction items generalizing results with
  | nil =>
    cases done
    rfl
  | cons first items ih =>
    rw [mapM_cons] at done
    obtain ⟨value, here, onward⟩ := Option.bind_eq_some_iff.mp done
    obtain ⟨values, rest, same⟩ := Option.bind_eq_some_iff.mp onward
    cases same
    rw [map_cons, map_cons, here, ih rest]

lemma exists_of_mapM (member : item ∈ items) : ∃ result, read item = some result := by
  obtain ⟨result, _, same⟩ := mem_map.mp (map_of_mapM done ▸ mem_map_of_mem member)
  exact ⟨result, same.symm⟩

lemma mem_zip_of_mapM : (item, result) ∈ items.zip results ↔ item ∈ items ∧ read item = some result := by
  have zipped : (items.zip results).map (Prod.map id some) = items.map fun item => (item, read item) := by
    rw [← zip_map_right, ← map_of_mapM done, ← zip_map', map_id']
  have injective : Function.Injective (Prod.map id some : α × β → α × Option β) :=
    Function.injective_id.prodMap (Option.some_injective _)
  rw [← mem_map_of_injective injective, zipped, mem_map]
  simp

end

/-- The block that the lock points name: no lower than any input with a lock. -/
lemma maxInputBlock_covers {tx : CTransaction} {view : PoolView old} {prevheights : List Int}
    (present : 0 ≤ old.nHeight) (version : tx.nVersion.toUInt32 ≥ 2)
    (read : (tx.vin.mapM fun txin => (view.nHeight txin.prevout).map (poolHeight old)) = some prevheights) :
    ∃ block : Ancestry, old.getAncestor (((relevantHeights tx true prevheights).filter
        (· ≠ old.nHeight + 1)).foldl max 0) = some block ∧
      ∀ txin ∈ tx.vin, ∀ stored ∈ view.nHeight txin.prevout, stored ≠ MEMPOOL_HEIGHT →
        txin.nSequence.toNat.testBit 31 = false → stored ≤ block.nHeight := by
  rw [relevantHeights, if_pos (by simpa using version)]
  set heights := ((tx.vin.zip prevheights).map fun input =>
    if input.1.nSequence.toNat.testBit 31 then 0 else input.2).filter (· ≠ old.nHeight + 1)
  have covers := foldl_max_le.mp (le_refl (heights.foldl max 0))
  have inside : heights.foldl max 0 ≤ old.nHeight := by
    refine foldl_max_le.mpr ⟨present, fun height member => ?_⟩
    obtain ⟨member, other⟩ := mem_filter.mp member
    obtain ⟨⟨txin, height⟩, paired, rfl⟩ := mem_map.mp member
    obtain ⟨stored, found, rfl⟩ := Option.map_eq_some_iff.mp ((mem_zip_of_mapM read).mp paired).2
    have within := view.within _ stored found
    replace other := of_decide_eq_true other
    simp only [poolHeight] at other ⊢
    split_ifs at other ⊢
    · exact present
    · exact absurd rfl other
    · exact (within.resolve_left ‹_›).2
  obtain ⟨block, level, suffix⟩ := exists_ancestor covers.1 inside
  refine ⟨block, getAncestor_eq_some.mpr ⟨covers.1, level, suffix⟩, ?_⟩
  intro txin member stored found confirmed used
  have within := (view.within _ stored found).resolve_left confirmed
  have paired : (txin, stored) ∈ tx.vin.zip prevheights := by
    refine (mem_zip_of_mapM read).mpr ⟨member, ?_⟩
    rw [found, Option.map_some, poolHeight, if_neg confirmed]
  rw [level]
  refine covers.2 stored (mem_filter.mpr ⟨mem_map.mpr ⟨_, paired, ?_⟩, ?_⟩)
  · rw [used]
    rfl
  · simp only [decide_eq_true_eq]
    omega

lemma Ancestry.nHeight_cons : nHeight (entry :: chain) = chain.nHeight + 1 := by
  rw [nHeight, nHeight, length_cons, Nat.cast_succ]
  omega

lemma Ancestry.nHeight_nonneg (present : chain ≠ []) : 0 ≤ chain.nHeight := by
  have := length_pos_of_ne_nil present
  unfold nHeight
  omega

lemma evaluateSequenceLocks_cons :
    evaluateSequenceLocks (entry :: tip) lockPair = true ↔ lockPair ≤ (tip.nHeight, tip.getMedianTimePast - 1) := by
  simp [evaluateSequenceLocks, nHeight_cons, Prod.le_def, Int.lt_add_one_iff, Int.le_sub_one_iff]

/-- What stored lock points say of the chain they were calculated on. -/
lemma Stored.spec {tx : CTransaction}
    (stored : Stored tx heights lp) : ∃ old : Ancestry, 0 ≤ old.nHeight ∧ (-1, -1) ≤ (lp.height, lp.time) ∧
      (lp.height, lp.time) ≤ (old.nHeight, old.getMedianTimePast - 1) ∧
      (tx.nVersion.toUInt32 ≥ 2 → ∃ block : Ancestry, lp.maxInputBlock = some block ∧ 0 ≤ block.nHeight ∧
        block <:+ old ∧ ∀ txin ∈ tx.vin, ∃ stored, heights txin.prevout = some stored ∧
          Awaits (nextIndex old) txin (poolHeight old stored) (lp.height, lp.time) ∧
          (stored ≠ MEMPOOL_HEIGHT → txin.nSequence.toNat.testBit 31 = false → stored ≤ block.nHeight)) := by
  obtain ⟨old, view, before, present, rfl, calculated⟩ := stored.calculated
  rw [checkSequenceLocks, if_neg (by decide)] at calculated
  split at calculated
  · cases calculated
  rename_i oldHeights read
  obtain ⟨lock, locked, same⟩ := Option.bind_eq_some_iff.mp calculated
  obtain ⟨passed, rfl⟩ := Prod.mk.inj (Option.some.inj same)
  refine ⟨old, old.nHeight_nonneg present, ?_, evaluateSequenceLocks_cons.mp passed, ?_⟩
  · rw [calculateSequenceLocks] at locked
    split at locked
    · cases locked
      exact le_rfl
    · exact ⟨(foldlM_sequenceLock locked).1, (foldlM_sequenceLock locked).2.1⟩
  · intro version
    rw [calculateSequenceLocks, if_neg (by simpa using version)] at locked
    obtain ⟨block, found, covers⟩ := maxInputBlock_covers (old.nHeight_nonneg present) version read
    obtain ⟨positive, level, suffix⟩ := getAncestor_eq_some.mp found
    refine ⟨block, found, level ▸ positive, suffix, fun txin member => ?_⟩
    obtain ⟨height, found⟩ := exists_of_mapM read member
    have paired := (mem_zip_of_mapM read).mpr ⟨member, found⟩
    obtain ⟨stored, here, rfl⟩ := Option.map_eq_some_iff.mp found
    have awaits := (foldlM_sequenceLock locked).2.2 (txin, poolHeight old stored) paired
    exact ⟨stored, here, awaits, covers txin member stored here⟩

lemma isFinalTx_mono {height : Int} {tx : CTransaction} (higher : height ≤ height')
    (later : time ≤ time') (final : isFinalTx tx height time = true) : isFinalTx tx height' time' = true := by
  unfold isFinalTx at final ⊢
  split_ifs at final ⊢ <;> first | rfl | exact final | omega

/-- Lock points that are still valid on a chain, and pass there, hold for the next block: the
inputs that were confirmed have kept their heights, the others are confirmed by then. -/
theorem storedLockPoints_final (tx : CTransaction) (heights : COutPoint → Option Int) (lp : LockPoints)
    (stored : Stored tx heights lp) (tip : Ancestry) (present : tip ≠ []) (rule : tip.AfterMedianTime)
    (view : PoolView tip) (valid : testLockPointValidity tip lp = true)
    (locks : checkSequenceLocks true tx tip view lp true = some (true, lp))
    (final : checkFinalTx true 0 tx tip = true) (csvActive : Bool) (pindex : IndexEntry)
    (later : ¬ ((pindex.header.nTime.toNat : Int) ≤ tip.getMedianTimePast)) (prevheights : List Int)
    (same : tx.vin.Forall₂ (SameInput heights tip) prevheights) :
    sequenceLocks tx csvActive prevheights (pindex :: tip) = some true ∧ isFinalTx tx (nHeight (pindex :: tip))
        (if csvActive then tip.getMedianTimePast else pindex.header.nTime.toNat) = true := by
  constructor
  · obtain ⟨old, oldPresent, low, passedOld, spec⟩ := stored.spec
    have passed := evaluateSequenceLocks_cons.mp (Prod.mk.inj (Option.some.inj locks)).1
    have calculated : ∃ bound ≤ (tip.nHeight, tip.getMedianTimePast - 1),
        calculateSequenceLocks tx csvActive prevheights (pindex :: tip) = some bound := by
      rw [calculateSequenceLocks]
      split
      · exact ⟨_, low.trans passed, rfl⟩
      · rename_i enforced
        obtain ⟨block, named, positive, inOld, inputs⟩ := spec (by simp_all)
        have inTip : block <:+ tip := by
          rw [testLockPointValidity, named] at valid
          exact (getAncestor_eq_some.mp (of_decide_eq_true valid)).2.2
        refine foldlM_sequenceLock_le (low.trans passed) ?_
        rintro ⟨txin, height⟩ member
        obtain ⟨stored, here, awaits, kept⟩ := inputs txin (of_mem_zip member).1
        exact Awaits.moved oldPresent (tip.nHeight_nonneg present) rule awaits passedOld passed
          ((List.forall₂_iff_zip.mp same).2 member stored here)
          fun confirmed used => ⟨positive, kept confirmed used, inOld, inTip⟩
    obtain ⟨bound, below, done⟩ := calculated
    rw [sequenceLocks, done, Option.map_some, evaluateSequenceLocks_cons.mpr below]
  · have passed : isFinalTx tx (tip.nHeight + 1) tip.getMedianTimePast = true := final
    refine isFinalTx_mono nHeight_cons.ge ?_ passed
    split
    · exact le_rfl
    · exact (not_le.mp later).le

namespace Script.FiveBlocks

def view : PoolView (index 5 :: below) := ⟨fun _ => some 1, fun _ height found => by cases found; decide⟩

def lockPoints : LockPoints := ⟨5, -1, some [index 1, index 0]⟩

lemma stored : Stored tx view.nHeight lockPoints := by
  have passed : checkSequenceLocks true tx (index 5 :: below) view {} false = some (true, lockPoints) := by
    decide +kernel
  exact .accept (cons_ne_nil _ _) view passed

theorem next_block : sequenceLocks tx true [1] (index 6 :: index 5 :: below) = some true ∧
    isFinalTx tx (nHeight (index 6 :: index 5 :: below))
      (if true then getMedianTimePast (index 5 :: below) else (index 6).header.nTime.toNat) = true :=
  storedLockPoints_final tx view.nHeight lockPoints stored (index 5 :: below) (cons_ne_nil _ _)
    (by decide +kernel) view (by decide +kernel) (by decide +kernel) (by decide +kernel) true (index 6)
    (by decide +kernel) [1] (.cons (fun _ found => by cases found; decide) .nil)

end Script.FiveBlocks

end Dragonchain
