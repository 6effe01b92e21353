import Mathlib.Algebra.GroupWithZero.Action.Defs
import Mathlib.Algebra.Order.BigOperators.Group.List
import Mathlib.Data.Finset.Basic
import Dragonchain.RelayWeight

/-!
The orphan pool of net_processing.cpp. The map of the orphans is listed in the order of its
keys, and the sets of iterators by previous output hold the keys. The draws of the eviction
are numbered; the time of a call is an argument.
-/

namespace Dragonchain.Orphans

open Serialization Policy List Option

variable {nMaxOrphans turns : Nat}

def ORPHAN_TX_EXPIRE_TIME : Int := 20 * 60
def ORPHAN_TX_EXPIRE_INTERVAL : Int := 5 * 60

structure COrphanTx where
  tx : CTransaction
  fromPeer : Int
  nTimeExpire : Int

structure OrphanPool where
  mapOrphanTransactions : List (Uint256 × COrphanTx) := []
  mapOrphanTransactionsByPrev : COutPoint → Option (Finset Uint256) := fun _ => none
  nNextSweep : Int := 0

namespace OrphanPool
variable (crypto : Crypto) (pool : OrphanPool)

def find (hash : Uint256) : Option COrphanTx :=
  (pool.mapOrphanTransactions.find? fun entry => entry.1 = hash).map Prod.snd

def addOrphanTx (nNow : Int) (tx : CTransaction) (peer : Int) : Bool × OrphanPool :=
  let hash := getHash crypto tx
  if (pool.find hash).isSome then (false, pool)
  -- sz is an unsigned int
  else if getTransactionWeight tx % 2 ^ 32 ≥ MAX_STANDARD_TX_WEIGHT then (false, pool)
  else
    let insertPrev (byPrev : COutPoint → Option (Finset Uint256)) (txin : CTxIn) :=
      Function.update byPrev txin.prevout (some (insert hash ((byPrev txin.prevout).getD ∅)))
    (true, { pool with
      mapOrphanTransactions := pool.mapOrphanTransactions.orderedInsert
        (fun first second => first.1.bytes ≤ second.1.bytes) (hash, ⟨tx, peer, nNow + ORPHAN_TX_EXPIRE_TIME⟩)
      mapOrphanTransactionsByPrev := tx.vin.foldl insertPrev pool.mapOrphanTransactionsByPrev })

def eraseOrphanTx (hash : Uint256) : OrphanPool :=
  match pool.find hash with
  | none => pool
  | some orphan =>
    let erasePrev (byPrev : COutPoint → Option (Finset Uint256)) (txin : CTxIn) :=
      match byPrev txin.prevout with
      | none => byPrev
      | some hashes =>
        let left := hashes.erase hash
        Function.update byPrev txin.prevout (if left = ∅ then none else some left)
    { pool with
      mapOrphanTransactions := pool.mapOrphanTransactions.filter fun entry => entry.1 ≠ hash
      mapOrphanTransactionsByPrev := orphan.tx.vin.foldl erasePrev pool.mapOrphanTransactionsByPrev }

def eraseWhere (chosen : COrphanTx → Bool) : OrphanPool :=
  pool.mapOrphanTransactions.foldl (fun pool entry =>
    if chosen entry.2 then pool.eraseOrphanTx (getHash crypto entry.2.tx) else pool) pool

def eraseOrphansFor (peer : Int) : OrphanPool := pool.eraseWhere crypto fun orphan => orphan.fromPeer = peer

def sweep (nNow : Int) : OrphanPool :=
  let left := pool.mapOrphanTransactions.filter fun entry => !(entry.2.nTimeExpire ≤ nNow)
  let nMinExpTime := left.foldl (fun least entry => min entry.2.nTimeExpire least)
    (nNow + ORPHAN_TX_EXPIRE_TIME - ORPHAN_TX_EXPIRE_INTERVAL)
  { pool.eraseWhere crypto (fun orphan => orphan.nTimeExpire ≤ nNow) with
    nNextSweep := nMinExpTime + ORPHAN_TX_EXPIRE_INTERVAL }

def pick (randomhash : Uint256) : Option Uint256 :=
  ((pool.mapOrphanTransactions.find? fun entry => randomhash.bytes ≤ entry.1.bytes).or
    pool.mapOrphanTransactions.head?).map Prod.fst

/-- The loop that evicts random orphans; each turn erases one. -/
def evict (nMaxOrphans : Nat) (draws : Nat → Uint256) : Nat → OrphanPool → OrphanPool
  | 0, pool => pool
  | turns + 1, pool =>
    if pool.mapOrphanTransactions.length > nMaxOrphans then
      match pool.pick (draws turns) with
      | none => pool
      | some hash => evict nMaxOrphans draws turns (pool.eraseOrphanTx hash)
    else pool

def limitOrphanTxSize (nMaxOrphans : Nat) (nNow : Int) (draws : Nat → Uint256) : OrphanPool :=
  let swept := if pool.nNextSweep ≤ nNow then pool.sweep crypto nNow else pool
  evict nMaxOrphans draws swept.mapOrphanTransactions.length swept

def usage : Nat := (pool.mapOrphanTransactions.map fun entry => (serializeTransaction true entry.2.tx).length).sum

end OrphanPool

inductive OrphanCall where
  | addOrphanTx (nNow : Int) (tx : CTransaction) (peer : Int)
  | eraseOrphanTx (hash : Uint256)
  | eraseOrphansFor (peer : Int)
  | limitOrphanTxSize (nMaxOrphans : Nat) (nNow : Int) (draws : Nat → Uint256)

def OrphanCall.perform (crypto : Crypto) (pool : OrphanPool) : OrphanCall → OrphanPool
  | addOrphanTx nNow tx peer => (pool.addOrphanTx crypto nNow tx peer).2
  | eraseOrphanTx hash => pool.eraseOrphanTx hash
  | eraseOrphansFor peer => pool.eraseOrphansFor crypto peer
  | limitOrphanTxSize nMaxOrphans nNow draws => pool.limitOrphanTxSize crypto nMaxOrphans nNow draws

def performAll (crypto : Crypto) (calls : List OrphanCall) : OrphanPool :=
  calls.foldl (OrphanCall.perform crypto) {}

/-! Which orphans are held. -/

namespace OrphanPool
variable {crypto : Crypto} {pool : OrphanPool} {hash : Uint256}

lemma eraseOrphanTx_sublist :
    (pool.eraseOrphanTx hash).mapOrphanTransactions.Sublist pool.mapOrphanTransactions := by
  rw [eraseOrphanTx]
  split
  · exact List.Sublist.refl _
  · exact filter_sublist

lemma find_eq_none : pool.find hash = none ↔ ∀ entry ∈ pool.mapOrphanTransactions, entry.1 ≠ hash := by simp [find]

lemma eraseOrphanTx_ne : ∀ entry ∈ (pool.eraseOrphanTx hash).mapOrphanTransactions, entry.1 ≠ hash := by
  rw [eraseOrphanTx]
  split
  · exact find_eq_none.mp ‹_›
  · exact fun entry member => of_decide_eq_true (mem_filter.mp member).2

lemma foldl_erase (chosen : COrphanTx → Bool) {entries : List (Uint256 × COrphanTx)} (start : OrphanPool) :
    let pool := entries.foldl (fun pool entry => if chosen entry.2 then
      pool.eraseOrphanTx (getHash crypto entry.2.tx) else pool) start
    pool.mapOrphanTransactions.Sublist start.mapOrphanTransactions ∧ ∀ entry ∈ entries, chosen entry.2 = true →
      ∀ left ∈ pool.mapOrphanTransactions, left.1 ≠ getHash crypto entry.2.tx := by
  induction entries generalizing start with
  | nil => exact ⟨List.Sublist.refl _, fun _ member => absurd member not_mem_nil⟩
  | cons entry entries ih =>
    rw [foldl_cons]
    split
    · obtain ⟨shrinks, gone⟩ := ih (start.eraseOrphanTx (getHash crypto entry.2.tx))
      refine ⟨shrinks.trans eraseOrphanTx_sublist, forall_mem_cons.mpr ⟨?_, gone⟩⟩
      exact fun _ left member => eraseOrphanTx_ne left (shrinks.subset member)
    · rename_i skipped
      exact ⟨(ih start).1, forall_mem_cons.mpr ⟨fun holds => absurd holds skipped, (ih start).2⟩⟩

lemma eraseWhere_sublist {chosen : COrphanTx → Bool} :
    (pool.eraseWhere crypto chosen).mapOrphanTransactions.Sublist pool.mapOrphanTransactions :=
  (foldl_erase chosen pool).1

variable {draws : Nat → Uint256}

lemma evict_sublist (turns : Nat) :
    (evict nMaxOrphans draws turns pool).mapOrphanTransactions.Sublist pool.mapOrphanTransactions := by
  induction turns generalizing pool with
  | zero => exact List.Sublist.refl _
  | succ turns ih =>
    rw [evict]
    split
    · split
      · exact List.Sublist.refl _
      · exact ih.trans eraseOrphanTx_sublist
    · exact List.Sublist.refl _

lemma limitOrphanTxSize_sublist (nNow : Int) (draws : Nat → Uint256) :
    (pool.limitOrphanTxSize crypto nMaxOrphans nNow draws).mapOrphanTransactions.Sublist
      pool.mapOrphanTransactions := by
  rw [limitOrphanTxSize]
  split
  · exact (evict_sublist ..).trans eraseWhere_sublist
  · exact evict_sublist ..

lemma pick_held {randomhash : Uint256} (picked : pool.pick randomhash = some hash) :
    ∃ entry ∈ pool.mapOrphanTransactions, entry.1 = hash := by
  obtain ⟨entry, found, rfl⟩ := map_eq_some_iff.mp picked
  rcases or_eq_some_iff.mp found with first | ⟨_, first⟩
  · exact ⟨entry, mem_of_find?_eq_some first, rfl⟩
  · exact ⟨entry, mem_of_head? first, rfl⟩

lemma length_eraseOrphanTx (held : ∃ entry ∈ pool.mapOrphanTransactions, entry.1 = hash) :
    (pool.eraseOrphanTx hash).mapOrphanTransactions.length < pool.mapOrphanTransactions.length := by
  obtain ⟨entry, member, same⟩ := held
  rw [eraseOrphanTx]
  split
  · exact absurd same (find_eq_none.mp ‹_› entry member)
  · exact length_filter_lt_length_iff_exists.mpr ⟨entry, member, by simpa using same⟩

/-- With a turn for every orphan the loop ends below its limit. -/
lemma length_evict (enough : pool.mapOrphanTransactions.length ≤ turns) :
    (evict nMaxOrphans draws turns pool).mapOrphanTransactions.length ≤ nMaxOrphans := by
  induction turns generalizing pool with
  | zero => exact (Nat.le_zero.mp enough).le.trans (Nat.zero_le _)
  | succ turns ih =>
    rw [evict]
    split
    · split
      · rename_i above _ unpicked
        rw [pick, map_eq_none_iff, or_eq_none_iff] at unpicked
        rw [head?_eq_none_iff.mp unpicked.2] at above
        cases above
      · rename_i hash picked
        have fewer := length_eraseOrphanTx (pick_held picked)
        exact ih (by omega)
    · exact Nat.le_of_not_gt ‹_›

end OrphanPool

/-- A call that offers no transaction above 100,000 bytes. -/
def OrphanCall.Small : OrphanCall → Prop
  | addOrphanTx _ tx _ => (serializeTransaction true tx).length ≤ 100000
  | _ => True

variable {crypto : Crypto} {pool : OrphanPool} {call : OrphanCall}

lemma OrphanCall.perform_small (small : call.Small)
    (held : ∀ entry ∈ pool.mapOrphanTransactions, (serializeTransaction true entry.2.tx).length ≤ 100000) :
    ∀ entry ∈ (call.perform crypto pool).mapOrphanTransactions,
      (serializeTransaction true entry.2.tx).length ≤ 100000 := by
  intro entry member
  cases call with
  | addOrphanTx nNow tx peer =>
    rw [perform, OrphanPool.addOrphanTx] at member
    split at member
    · exact held entry member
    split at member
    · exact held entry member
    rcases (mem_orderedInsert _).mp member with rfl | old
    · exact small
    · exact held entry old
  | eraseOrphanTx hash => exact held entry (OrphanPool.eraseOrphanTx_sublist.subset member)
  | eraseOrphansFor peer => exact held entry (OrphanPool.eraseWhere_sublist.subset member)
  | limitOrphanTxSize nMaxOrphans nNow draws =>
    exact held entry ((OrphanPool.limitOrphanTxSize_sublist ..).subset member)

theorem orphans_bounded (crypto : Crypto) (calls : List OrphanCall) (small : ∀ call ∈ calls, call.Small)
    (nNow : Int) (draws : Nat → Uint256) :
    (performAll crypto (calls ++ [.limitOrphanTxSize 100 nNow draws])).usage ≤ 10000000 := by
  have held : ∀ entry ∈ (performAll crypto calls).mapOrphanTransactions,
      (serializeTransaction true entry.2.tx).length ≤ 100000 := by
    induction calls using List.reverseRecOn with
    | nil => exact fun _ member => absurd member not_mem_nil
    | append_singleton calls call ih =>
      rw [performAll, foldl_concat]
      exact call.perform_small (small call (by simp)) (ih fun other member => small other (by simp [member]))
  rw [performAll, foldl_concat, ← performAll, OrphanCall.perform]
  generalize performAll crypto calls = pool at held
  have few : (pool.limitOrphanTxSize crypto 100 nNow draws).mapOrphanTransactions.length ≤ 100 :=
    OrphanPool.length_evict le_rfl
  have sum := sum_le_card_nsmul ((pool.limitOrphanTxSize crypto 100 nNow draws).mapOrphanTransactions.map
    fun entry => (serializeTransaction true entry.2.tx).length) 100000 (by
      intro size member
      obtain ⟨entry, inside, rfl⟩ := mem_map.mp member
      exact held entry ((OrphanPool.limitOrphanTxSize_sublist ..).subset inside))
  rw [length_map, smul_eq_mul] at sum
  exact sum.trans (Nat.mul_le_mul_right 100000 few)

/-- Light orphans with different hashes are all held. -/
lemma performAll_adds {txs : List CTransaction} (distinct : (txs.map (getHash crypto)).Nodup)
    (light : ∀ tx ∈ txs, getTransactionWeight tx < MAX_STANDARD_TX_WEIGHT) :
    (performAll crypto (txs.map fun tx => .addOrphanTx 0 tx 1)).mapOrphanTransactions.map Prod.fst ~
      txs.map (getHash crypto) := by
  induction txs using List.reverseRecOn with
  | nil => exact .nil
  | append_singleton txs tx ih =>
    rw [map_append, nodup_append] at distinct
    have held := ih distinct.1 fun other member => light other (by simp [member])
    have fits := light tx (by simp)
    rw [map_append, map_singleton, performAll, foldl_concat, ← performAll]
    generalize performAll crypto (txs.map fun tx => .addOrphanTx 0 tx 1) = pool at held ⊢
    have fresh : pool.find (getHash crypto tx) = none := by
      rw [OrphanPool.find, map_eq_none_iff, find?_eq_none]
      intro entry member same
      exact distinct.2.2 _ (held.subset (mem_map_of_mem member)) _ (by simp) (of_decide_eq_true same)
    rw [OrphanCall.perform, OrphanPool.addOrphanTx, fresh, isSome_none, if_neg Bool.false_ne_true,
      if_neg (by rw [MAX_STANDARD_TX_WEIGHT] at fits ⊢; omega), map_append]
    exact ((perm_orderedInsert ..).map _).trans ((held.cons _).trans (perm_append_singleton ..).symm)

/-- 101 orphans, whose hashes start with the script of their output. -/
def crowd : List CTransaction := (range 101).map fun count =>
  { Stuffed.tx 0 0 with vout := [⟨0, UInt8.ofNat count :: replicate 27 0⟩] }

def crowdCalls : List OrphanCall := crowd.map fun tx => .addOrphanTx 0 tx 1

lemma crowd_distinct : (crowd.map (getHash Crypto.suffixes)).Nodup := by
  rw [crowd, List.map_map]
  rw [nodup_map_iff_inj_on nodup_range]
  intro first small second below same
  have heads : some (UInt8.ofNat first) = some (UInt8.ofNat second) := congrArg (fun hash => hash.bytes.head?) same
  have bytes := congrArg UInt8.toNat (some.inj heads)
  simp only [UInt8.toNat_ofNat', mem_range] at bytes small below
  omega

variable {tx : CTransaction}

lemma crowd_size (member : tx ∈ crowd) : (serializeTransaction true tx).length = 92 ∧
    (serializeTransaction false tx).length = 88 := by
  obtain ⟨count, _, rfl⟩ := mem_map.mp member
  exact ⟨rfl, rfl⟩

lemma crowd_small (member : call ∈ crowdCalls) : call.Small := by
  obtain ⟨tx, chosen, rfl⟩ := mem_map.mp member
  rw [OrphanCall.Small, (crowd_size chosen).1]
  decide

lemma crowd_held : (performAll Crypto.suffixes crowdCalls).mapOrphanTransactions.length = 101 := by
  have held := (performAll_adds crowd_distinct fun tx member => by
    rw [getTransactionWeight, (crowd_size member).1, (crowd_size member).2]
    decide).length_eq
  rwa [length_map, length_map, crowd, length_map, length_range] at held

theorem crowd_bounded : (performAll Crypto.suffixes crowdCalls).mapOrphanTransactions.length = 101 ∧
    (performAll Crypto.suffixes (crowdCalls ++ [.limitOrphanTxSize 100 0 fun _ => Uint256.null])).usage ≤
      10000000 :=
  ⟨crowd_held, orphans_bounded Crypto.suffixes crowdCalls (fun _ => crowd_small) 0 fun _ => Uint256.null⟩

lemma usage_single (crypto : Crypto)
    (light : ¬ getTransactionWeight tx % 2 ^ 32 ≥ MAX_STANDARD_TX_WEIGHT) (draws : Nat → Uint256) :
    (performAll crypto [.addOrphanTx 0 tx 1, .limitOrphanTxSize 100 0 draws]).usage =
      (serializeTransaction true tx).length := by
  have added : (({} : OrphanPool).addOrphanTx crypto 0 tx 1).2.mapOrphanTransactions =
      [(getHash crypto tx, ⟨tx, 1, 1200⟩)] := by
    rw [OrphanPool.addOrphanTx]
    simp only [if_neg light]
    simp [OrphanPool.find, ORPHAN_TX_EXPIRE_TIME]
  have kept : (({} : OrphanPool).addOrphanTx crypto 0 tx 1).2.eraseWhere crypto
      (fun orphan => orphan.nTimeExpire ≤ 0) = (({} : OrphanPool).addOrphanTx crypto 0 tx 1).2 := by
    simp [OrphanPool.eraseWhere, added]
  simp only [performAll, foldl_cons, foldl_nil, OrphanCall.perform, OrphanPool.limitOrphanTxSize,
    OrphanPool.sweep, kept]
  split <;> simp [OrphanPool.usage, OrphanPool.evict, added]

/-- One transaction with a witness of ten million bytes is below the weight limit. -/
theorem large_orphan_held : 10000000 < (performAll Crypto.zeros [.addOrphanTx 0 (Stuffed.tx 1 10000000) 1,
    .limitOrphanTxSize 100 0 fun _ => Uint256.null]).usage := by
  rw [usage_single]
  · rw [length_serializeTransaction, Stuffed.length_tx, Stuffed.witnessBytes_tx]
    decide
  · rw [getTransactionWeight_eq, Stuffed.length_tx, Stuffed.witnessBytes_tx]
    decide

/-! The orphans by what they spend. -/

namespace OrphanPool
variable {crypto : Crypto} {pool : OrphanPool}

structure Indexed (crypto : Crypto) (pool : OrphanPool) : Prop where
  keyed : ∀ entry ∈ pool.mapOrphanTransactions, entry.1 = getHash crypto entry.2.tx
  unique : (pool.mapOrphanTransactions.map Prod.fst).Nodup
  spenders : ∀ outpoint, pool.mapOrphanTransactionsByPrev outpoint ≠ some ∅ ∧
    ∀ hash, hash ∈ (pool.mapOrphanTransactionsByPrev outpoint).getD ∅ ↔
      ∃ entry ∈ pool.mapOrphanTransactions, entry.1 = hash ∧ outpoint ∈ entry.2.tx.vin.map CTxIn.prevout

/-- A loop over inputs that changes the set of each output, once as twice. -/
lemma foldl_update {turn : (COutPoint → Option (Finset Uint256)) → CTxIn → COutPoint → Option (Finset Uint256)}
    {f : Option (Finset Uint256) → Option (Finset Uint256)}
    (turns : ∀ byPrev txin, turn byPrev txin = Function.update byPrev txin.prevout (f (byPrev txin.prevout)))
    (again : ∀ hashes, f (f hashes) = f hashes) (vin : List CTxIn) (byPrev : COutPoint → Option (Finset Uint256))
    (outpoint : COutPoint) : vin.foldl turn byPrev outpoint =
      if outpoint ∈ vin.map CTxIn.prevout then f (byPrev outpoint) else byPrev outpoint := by
  induction vin generalizing byPrev with
  | nil => rfl
  | cons txin vin ih =>
    rw [foldl_cons, ih, turns, Function.update_apply, map_cons]
    by_cases here : outpoint = txin.prevout <;> simp [here, again]

variable (indexed : Indexed crypto pool)
include indexed

lemma Indexed.addOrphanTx (nNow : Int) (tx : CTransaction) (peer : Int) :
    Indexed crypto (pool.addOrphanTx crypto nNow tx peer).2 := by
  rw [OrphanPool.addOrphanTx]
  split
  · exact indexed
  rename_i absent
  split
  · exact indexed
  have fresh : getHash crypto tx ∉ pool.mapOrphanTransactions.map Prod.fst := by simpa [find] using absent
  refine ⟨?_, ?_, fun outpoint => ?_⟩
  · intro entry inside
    rcases (mem_orderedInsert _).mp inside with rfl | old
    · rfl
    · exact indexed.keyed entry old
  · exact ((perm_orderedInsert ..).map _).nodup_iff.mpr (nodup_cons.mpr ⟨fresh, indexed.unique⟩)
  · obtain ⟨full, member⟩ := indexed.spenders outpoint
    simp only [mem_orderedInsert, exists_eq_or_imp]
    rw [foldl_update (f := fun hashes => some (insert (getHash crypto tx) (hashes.getD ∅))) (fun _ _ => rfl)
      (by simp)]
    split_ifs with spent
    · exact ⟨by simp, by simp [spent, member, eq_comm]⟩
    · exact ⟨full, by simp [spent, member]⟩

lemma Indexed.eraseOrphanTx (hash : Uint256) : Indexed crypto (pool.eraseOrphanTx hash) := by
  rw [OrphanPool.eraseOrphanTx]
  split
  · exact indexed
  rename_i orphan found
  obtain ⟨entry, first, rfl⟩ := map_eq_some_iff.mp found
  have key : entry.1 = hash := by simpa using find?_some first
  refine ⟨fun entry inside => indexed.keyed entry (mem_of_mem_filter inside),
    indexed.unique.sublist (filter_sublist.map _), fun outpoint => ?_⟩
  obtain ⟨full, member⟩ := indexed.spenders outpoint
  have kept (other : Uint256) : (∃ entry ∈ pool.mapOrphanTransactions.filter fun entry => entry.1 ≠ hash,
      entry.1 = other ∧ outpoint ∈ entry.2.tx.vin.map CTxIn.prevout) ↔
      other ≠ hash ∧ other ∈ (pool.mapOrphanTransactionsByPrev outpoint).getD ∅ := by
    rw [member]
    constructor
    · rintro ⟨held, inside, rfl, spends⟩
      exact ⟨of_decide_eq_true (mem_filter.mp inside).2, held, mem_of_mem_filter inside, rfl, spends⟩
    · rintro ⟨apart, held, inside, rfl, spends⟩
      exact ⟨held, mem_filter.mpr ⟨inside, decide_eq_true apart⟩, rfl, spends⟩
  simp only [kept]
  rw [foldl_update (f := fun hashes =>
    if (hashes.getD ∅).erase hash = ∅ then none else some ((hashes.getD ∅).erase hash))]
  · split_ifs with spent empty
    · refine ⟨nofun, fun other => ?_⟩
      rw [← Finset.mem_erase, empty]
      rfl
    · exact ⟨fun same => empty (some.inj same), fun other => Finset.mem_erase⟩
    · refine ⟨full, fun other => iff_and_self.mpr fun held same => spent ?_⟩
      obtain ⟨other, inside, rfl, spends⟩ := (member other).mp held
      exact inj_on_of_nodup_map indexed.unique inside (mem_of_find?_eq_some first) (same.trans key.symm) ▸ spends
  · intro byPrev txin
    cases held : byPrev txin.prevout with
    | none => simp [held]
    | some hashes => rfl
  · intro hashes
    by_cases empty : (hashes.getD ∅).erase hash = ∅ <;> simp [empty]

lemma Indexed.eraseWhere (chosen : COrphanTx → Bool) : Indexed crypto (pool.eraseWhere crypto chosen) := by
  refine foldlRecOn _ _ indexed fun pool indexed entry _ => ?_
  split
  · exact indexed.eraseOrphanTx _
  · exact indexed

lemma Indexed.evict (nMaxOrphans : Nat) (draws : Nat → Uint256) (turns : Nat) :
    Indexed crypto (evict nMaxOrphans draws turns pool) := by
  induction turns generalizing pool with
  | zero => exact indexed
  | succ turns ih =>
    rw [OrphanPool.evict]
    split
    · split
      · exact indexed
      · exact ih (indexed.eraseOrphanTx _)
    · exact indexed

end OrphanPool

lemma OrphanCall.perform_indexed (indexed : pool.Indexed crypto)
    (call : OrphanCall) : (call.perform crypto pool).Indexed crypto := by
  cases call with
  | addOrphanTx nNow tx peer => exact indexed.addOrphanTx nNow tx peer
  | eraseOrphanTx hash => exact indexed.eraseOrphanTx hash
  | eraseOrphansFor peer => exact indexed.eraseWhere fun orphan => orphan.fromPeer = peer
  | limitOrphanTxSize nMaxOrphans nNow draws =>
    apply OrphanPool.Indexed.evict
    split
    · obtain ⟨keyed, unique, spenders⟩ := indexed.eraseWhere fun orphan => orphan.nTimeExpire ≤ nNow
      exact ⟨keyed, unique, spenders⟩
    · exact indexed

theorem orphans_indexed (crypto : Crypto) (calls : List OrphanCall) : (performAll crypto calls).Indexed crypto ∧
    (∀ peer, ∀ entry ∈ ((performAll crypto calls).eraseOrphansFor crypto peer).mapOrphanTransactions,
      entry.2.fromPeer ≠ peer) ∧
    ∀ nMaxOrphans nNow draws, ((performAll crypto calls).limitOrphanTxSize crypto nMaxOrphans nNow
      draws).mapOrphanTransactions.length ≤ nMaxOrphans := by
  have indexed : (performAll crypto calls).Indexed crypto :=
    foldlRecOn _ _ ⟨by simp, by simp, by simp⟩ fun pool indexed call _ => call.perform_indexed indexed
  refine ⟨indexed, ?_, fun nMaxOrphans _ draws => OrphanPool.length_evict le_rfl⟩
  intro peer entry member same
  obtain ⟨shrinks, gone⟩ := OrphanPool.foldl_erase (fun orphan => orphan.fromPeer = peer) (performAll crypto calls)
  have stored := shrinks.subset member
  exact gone entry stored (decide_eq_true same) entry member (indexed.keyed entry stored)

end Dragonchain.Orphans
