import Dragonchain.CompactBlocks

/-!
When InitData comes to an end. The prefilled transactions take positions up to 65535,
and the loop over the short ids then gives out the free positions in order. Its
16-bit offset counts the prefilled positions passed so far, so it only wraps when all
of the first 65536 positions are prefilled, and then the loop never leaves them.
-/

namespace Dragonchain

open Serialization ByteCodec Outcome List

/-! Prefilled transactions. -/

variable {slots front rest : TxSlots} {fuel limit count : Nat}

section Prefilled
variable (nShortIDs : Nat)

lemma countP_set_free {position : Nat} {tx : CTransaction} (free : slots[position]? = some none) :
    (slots.set position (some tx)).countP Option.isSome = slots.countP Option.isSome + 1 := by
  obtain ⟨within, held⟩ := List.getElem?_eq_some_iff.mp free
  rw [countP_set within, held]
  simp

variable (prefilled : List PrefilledTransaction) (i : Nat)

lemma placePrefilled_safe (lastprefilledindex : Int) (txn_available : TxSlots)
    (lengths : txn_available.length = nShortIDs + i + prefilled.length)
    (low : -1 ≤ lastprefilledindex) (high : lastprefilledindex ≤ 0xffff)
    (count : txn_available.countP Option.isSome = i)
    (free : ∀ position : Nat, lastprefilledindex < position → position < txn_available.length →
      txn_available[position]? = some none) :
    Safe (fun placed : TxSlots => placed.length = txn_available.length ∧
        placed.countP Option.isSome = i + prefilled.length ∧ (∀ it ∈ prefilled, it.tx.isNull = false) ∧
        lastprefilledindex + ((prefilled.map fun it => it.index.toNat + 1).sum : Nat) ≤ 0xffff)
      (placePrefilled nShortIDs prefilled i lastprefilledindex txn_available) := by
  induction prefilled generalizing i lastprefilledindex txn_available with
  | nil => exact ⟨rfl, count, by simp, by simpa using high⟩
  | cons it rest ih =>
    rw [length_cons] at lengths
    rw [placePrefilled]
    dsimp only
    split
    · trivial
    split
    · trivial
    split
    · trivial
    rename_i notNull inRange placeable
    have within : (lastprefilledindex + (it.index.toNat + 1)).toNat < txn_available.length := by omega
    rw [if_neg (by omega)]
    have slot := free _ (by omega) within
    refine (ih (i + 1) _ _ ?_ ?_ ?_ ?_ ?_).mono fun placed => ?_
    · rw [length_set]
      omega
    · omega
    · omega
    · rw [countP_set_free slot, count]
    · intro position above below
      rw [length_set] at below
      rw [getElem?_set_ne (by omega)]
      exact free position (by omega) below
    · rintro ⟨length, counted, present, bound⟩
      rw [length_set] at length
      simp only [map_cons, sum_cons, length_cons]
      refine ⟨length, by omega, ?_, by omega⟩
      rintro other (_ | ⟨_, later⟩)
      · simpa using notNull
      · exact present other later

lemma placePrefilled_gapless
    (txn_available : TxSlots) (lengths : txn_available.length = nShortIDs + i + prefilled.length)
    (narrow : i + prefilled.length ≤ 0x10000) (gapless : ∀ it ∈ prefilled, it.index = 0 ∧ it.tx.isNull = false)
    (filled : ∀ position < i, ∃ tx, txn_available[position]? = some (some tx)) :
    ∃ placed, placePrefilled nShortIDs prefilled i ((i : Int) - 1) txn_available = .ok placed ∧
      ∀ position < i + prefilled.length, ∃ tx, placed[position]? = some (some tx) := by
  induction prefilled generalizing i txn_available with
  | nil => exact ⟨txn_available, rfl, filled⟩
  | cons it rest ih =>
    rw [length_cons] at lengths narrow
    obtain ⟨zero, present⟩ := gapless it mem_cons_self
    have next : (i : Int) - 1 + (it.index.toNat + 1) = ((i + 1 : Nat) : Int) - 1 := by
      rw [zero]
      simp
    have position : (((i + 1 : Nat) : Int) - 1).toNat = i := by omega
    obtain ⟨placed, ran, all⟩ := ih (i + 1) (txn_available.set i (some it.tx))
      (by rw [length_set]; omega) (by omega)
      (fun other member => gapless other (mem_cons_of_mem _ member)) (by
        intro position below
        by_cases same : position = i
        · subst same
          exact ⟨it.tx, getElem?_set_self (by omega)⟩
        · rw [getElem?_set_ne (by omega)]
          exact filled position (by omega))
    refine ⟨placed, ?_, fun position below => all position (by rw [length_cons] at below; omega)⟩
    rw [placePrefilled, present, if_neg Bool.false_ne_true]
    dsimp only
    rw [next, position, if_neg (by omega), if_neg (by omega), if_neg (by omega)]
    exact ran

end Prefilled

/-! Free positions. -/

section Free

def freeFrom : Nat → TxSlots → List Nat
  | _, [] => []
  | start, none :: rest => start :: freeFrom (start + 1) rest
  | start, some _ :: rest => freeFrom (start + 1) rest

lemma freeFrom_length (start : Nat) (slots : TxSlots) :
    (freeFrom start slots).length + slots.countP Option.isSome = slots.length := by
  induction slots generalizing start with
  | nil => rfl
  | cons slot rest ih =>
    have later := ih (start + 1)
    cases slot with
    | none =>
      simp only [freeFrom, length_cons, countP_cons, Option.isSome_none]
      simp only [Bool.false_eq_true, if_false]
      omega
    | some tx =>
      simp only [freeFrom, length_cons, countP_cons, Option.isSome_some, if_true]
      omega

variable {start : Nat}

lemma freeFrom_lt {position : Nat} (member : position ∈ freeFrom start slots) : position < start + slots.length := by
  induction slots generalizing start with
  | nil => cases member
  | cons slot rest ih =>
    rw [length_cons]
    cases slot with
    | none =>
      rw [freeFrom, mem_cons] at member
      rcases member with rfl | later
      · omega
      · have := ih later
        omega
    | some tx =>
      have := ih member
      omega

lemma first_free (some_free : 0 < (freeFrom start slots).length) :
    ∃ filled rest, slots = filled ++ none :: rest ∧ filled.countP Option.isSome = filled.length ∧
      freeFrom start slots = (start + filled.length) :: freeFrom (start + filled.length + 1) rest := by
  induction slots generalizing start with
  | nil => exact absurd some_free (lt_irrefl 0)
  | cons slot rest ih =>
    cases slot with
    | none => exact ⟨[], rest, rfl, rfl, rfl⟩
    | some tx =>
      obtain ⟨filled, tail, rfl, all, positions⟩ := ih some_free
      refine ⟨some tx :: filled, tail, rfl, by simp [all], ?_⟩
      rw [freeFrom, positions, length_cons]
      simp [add_assoc, add_comm 1]

lemma skipFilled_filled {index_offset : UInt16} {filled : TxSlots} {i : Nat}
    (at_front : front.length = i + index_offset.toNat) (all : filled.countP Option.isSome = filled.length)
    (narrow : index_offset.toNat + filled.length < 0x10000) (turns : filled.length < fuel) :
    skipFilled (front ++ (filled ++ none :: rest)) i fuel index_offset =
      .ok (UInt16.ofNat (index_offset.toNat + filled.length)) := by
  induction filled generalizing front index_offset fuel with
  | nil =>
    obtain ⟨turns', rfl⟩ : ∃ turns', fuel = turns' + 1 := ⟨fuel - 1, by simp at turns; omega⟩
    rw [skipFilled, ← at_front, getElem?_append_right (le_refl _)]
    simp
  | cons slot filled ih =>
    obtain ⟨turns', rfl⟩ : ∃ turns', fuel = turns' + 1 := ⟨fuel - 1, by simp at turns; omega⟩
    rw [length_cons] at turns narrow
    have bound := countP_le_length (p := Option.isSome) (l := filled)
    cases slot with
    | none =>
      simp at all
      omega
    | some tx =>
      have step : (index_offset + 1).toNat = index_offset.toNat + 1 := by exact Nat.mod_eq_of_lt (by simp; omega)
      have moved : (front ++ [some tx]).length = i + (index_offset + 1).toNat := by
        rw [length_append, at_front, step, length_singleton, add_assoc]
      have onward := ih moved (by simpa using all) (by omega) (show filled.length < turns' by omega)
      rw [append_assoc, singleton_append, step] at onward
      rw [skipFilled, ← at_front, getElem?_append_right (le_refl _)]
      simp only [Nat.sub_self, cons_append, getElem?_cons_zero]
      rw [onward, length_cons, add_assoc, add_comm 1]

/-- While all of the first 65536 positions are filled the loop goes round. -/
lemma skipFilled_wraps (filled : ∀ position < 0x10000, ∃ tx, slots[position]? = some (some tx)) (fuel : Nat)
    (index_offset : UInt16) : skipFilled slots 0 fuel index_offset = crash .stillLooping := by
  induction fuel generalizing index_offset with
  | zero => rfl
  | succ fuel ih =>
    obtain ⟨tx, held⟩ := filled index_offset.toNat index_offset.toNat_lt
    rw [skipFilled, zero_add, held]
    exact ih (index_offset + 1)

end Free

/-! The map from short ids to positions. -/

section ShortIDs
variable (layout : BucketLayout) (made : Nat)

/-- What the loop over the short ids does with the positions it finds. -/
def insertAll : List (UInt64 × Nat) → ShortIDMap → PartialM ShortIDMap
  | [], shorttxids => .ok shorttxids
  | (shorttxid, position) :: rest, shorttxids => do
    let shorttxids := shorttxids.insert shorttxid (UInt16.ofNat position)
    require (!(bucketSize layout made shorttxids.keys shorttxid > 12)) .READ_STATUS_FAILED
    insertAll rest shorttxids

/-- As long as the offset cannot wrap, the loop gives out the free positions in order. -/
lemma placeShortIDs_eq (front slots : TxSlots) (ids : List UInt64) (i : Nat)
    (index_offset : UInt16) (shorttxids : ShortIDMap) (at_front : front.length = i + index_offset.toNat)
    (enough : ids.length ≤ (freeFrom front.length slots).length)
    (narrow : index_offset.toNat + slots.countP Option.isSome < 0x10000) (turns : 0x10000 ≤ fuel) :
    placeShortIDs layout fuel made (front ++ slots) ids i index_offset shorttxids =
      insertAll layout made (ids.zip (freeFrom front.length slots)) shorttxids := by
  induction ids generalizing front slots i index_offset shorttxids with
  | nil => rfl
  | cons shorttxid ids ih =>
    rw [length_cons] at enough
    obtain ⟨filled, rest, rfl, all, positions⟩ := first_free (lt_of_lt_of_le (Nat.succ_pos _) enough)
    rw [countP_append, all, countP_cons] at narrow
    have bound : index_offset.toNat + filled.length < 0x10000 := by omega
    have offset : (UInt16.ofNat (index_offset.toNat + filled.length)).toNat =
        index_offset.toNat + filled.length := UInt16.toNat_ofNat_of_lt' bound
    have skipped : skipFilled (front ++ (filled ++ none :: rest)) i fuel index_offset = _ :=
      skipFilled_filled at_front all bound (by omega)
    have next : (front ++ filled ++ [none]).length = front.length + filled.length + 1 := by
      simp only [length_append, length_singleton]
    have moved : (front ++ filled ++ [none]).length =
        i + 1 + (UInt16.ofNat (index_offset.toNat + filled.length)).toNat := by
      omega
    rw [positions, length_cons] at enough
    have left : ids.length ≤ (freeFrom (front ++ filled ++ [none]).length rest).length := by
      rw [next]
      omega
    have onward := ih (front ++ filled ++ [none]) rest (i + 1) _
      (shorttxids.insert shorttxid (UInt16.ofNat (front.length + filled.length))) moved left
      (by rw [offset]; omega)
    rw [next, append_assoc, append_assoc, singleton_append] at onward
    rw [positions, placeShortIDs, skipped, ok_bind, zip_cons_cons, insertAll, offset, ← add_assoc, ← at_front]
    dsimp only
    rw [onward]

lemma insertAll_safe {pairs : List (UInt64 × Nat)}
    (within : ∀ pair ∈ pairs, pair.2 < limit) (shorttxids : ShortIDMap)
    (before : ∀ key position, shorttxids.lookup key = some position → position.toNat < limit) :
    Safe (fun result : ShortIDMap => ∀ key position, result.lookup key = some position → position.toNat < limit)
      (insertAll layout made pairs shorttxids) := by
  induction pairs generalizing shorttxids with
  | nil => exact before
  | cons pair rest ih =>
    obtain ⟨shorttxid, place⟩ := pair
    refine Safe.after_require fun _ => ?_
    refine ih (fun pair member => within pair (mem_cons_of_mem _ member)) _ ?_
    intro key position found
    by_cases same : key = shorttxid
    · subst same
      rw [AList.lookup_insert, Option.some.injEq] at found
      subst found
      have here := within _ mem_cons_self
      exact lt_of_le_of_lt (Nat.mod_le _ _) here
    · rw [AList.lookup_insert_ne same] at found
      exact before key position found

end ShortIDs

/-! Offered transactions. -/

section Offers
variable {getShortID : Uint256 → UInt64} {differs : CTransaction → CTransaction → Bool}
  {shorttxids : ShortIDMap}

variable (within : ∀ key position, shorttxids.lookup key = some position → position.toNat < limit)
include within

variable {found : Found}

lemma offer_safe {it : Uint256 × CTransaction} (slots : found.txn_available.length = limit)
    (flags : found.have_txn.length = limit) :
    Safe (fun after : Found => after.txn_available.length = limit ∧ after.have_txn.length = limit)
      (offer getShortID differs shorttxids found it) := by
  rw [offer]
  split
  · exact ⟨slots, flags⟩
  · rename_i position known
    have below := within _ _ known
    split
    · exact ⟨by rw [length_set]; exact slots, by rw [length_set]; exact flags⟩
    · exact ⟨slots, flags⟩
    · split
      · exact ⟨by rw [length_set]; exact slots, flags⟩
      · exact ⟨slots, flags⟩
    · rename_i free taken taken'
      -- both vectors reach as far as the map does
      have slot : position.toNat < found.txn_available.length := by omega
      have flag : position.toNat < found.have_txn.length := by omega
      rw [getElem?_eq_getElem slot, getElem?_eq_getElem flag] at free taken taken'
      cases held : found.have_txn[position.toNat] with
      | false => exact free _ (by rw [held]) rfl
      | true =>
        cases kept : found.txn_available[position.toNat] with
        | none => exact taken (by rw [held]) (by rw [kept])
        | some tx => exact taken' tx (by rw [held]) (by rw [kept])

lemma offerAll_safe {offered : List (Uint256 × CTransaction)}
    (slots : found.txn_available.length = limit) (flags : found.have_txn.length = limit) :
    Safe (fun after : Found => after.txn_available.length = limit ∧ after.have_txn.length = limit)
      (offerAll getShortID differs shorttxids offered found) := by
  induction offered generalizing found with
  | nil => exact ⟨slots, flags⟩
  | cons it rest ih =>
    refine (offer_safe within slots flags).bind fun after lengths => ?_
    split
    · exact lengths
    · exact ih lengths.1 lengths.2

end Offers

/-! InitData. -/

section Init
variable (crypto : Crypto) (layout : BucketLayout) (cmpctblock : CBlockHeaderAndShortTxIDs)
  (vTxHashes extra_txn : List (Uint256 × CTransaction))

/-- All of the first 65536 positions are prefilled, and there is a short id to place. -/
structure FillsOffset : Prop where
  header : cmpctblock.header.isNull = false
  limit : cmpctblock.blockTxCount ≤ MAX_BLOCK_WEIGHT / MIN_SERIALIZABLE_TRANSACTION_WEIGHT
  waiting : cmpctblock.shorttxids ≠ []
  prefilled : cmpctblock.prefilledtxn.length = 0x10000
  gapless : ∀ it ∈ cmpctblock.prefilledtxn, it.index = 0 ∧ it.tx.isNull = false

lemma sum_succ_eq (prefilled : List PrefilledTransaction) : (prefilled.map fun it => it.index.toNat + 1).sum =
      (prefilled.map fun it => it.index.toNat).sum + prefilled.length := by
  induction prefilled with
  | nil => rfl
  | cons it rest ih =>
    simp only [map_cons, sum_cons, length_cons, ih]
    omega

lemma initData_loops (fills : FillsOffset cmpctblock) :
    initData crypto layout fuel {} cmpctblock vTxHashes extra_txn = crash .stillLooping := by
  obtain ⟨shorttxid, rest, ids⟩ := exists_cons_of_ne_nil fills.waiting
  obtain ⟨placed, ran, all⟩ := placePrefilled_gapless cmpctblock.shorttxids.length
    cmpctblock.prefilledtxn 0 (replicate cmpctblock.blockTxCount none)
    (by rw [length_replicate]; rfl) (by rw [fills.prefilled]) fills.gapless (by simp)
  have started : require (!(cmpctblock.header.isNull
      || (cmpctblock.shorttxids.isEmpty && cmpctblock.prefilledtxn.isEmpty)))
        ReadStatus.READ_STATUS_INVALID = (.ok () : PartialM Unit) := by
    simp [require, fills.header, ids]
  have limited : require (!(cmpctblock.blockTxCount >
      MAX_BLOCK_WEIGHT / MIN_SERIALIZABLE_TRANSACTION_WEIGHT))
        ReadStatus.READ_STATUS_INVALID = (.ok () : PartialM Unit) := by
    simp [require, fills.limit]
  rw [initData, started, ok_bind, limited, ok_bind]
  rw [show ((0 : Nat) : Int) - 1 = -1 from rfl] at ran
  rw [ran, ok_bind]
  have looping := skipFilled_wraps (fun position below => all position (by rw [fills.prefilled]; omega)) fuel 0
  rw [ids, placeShortIDs, looping]
  rfl

lemma offset_narrow (ordinary : ¬ FillsOffset cmpctblock) (waiting : cmpctblock.shorttxids ≠ [])
    (header : cmpctblock.header.isNull = false)
    (limit : cmpctblock.blockTxCount ≤ MAX_BLOCK_WEIGHT / MIN_SERIALIZABLE_TRANSACTION_WEIGHT)
    (present : ∀ it ∈ cmpctblock.prefilledtxn, it.tx.isNull = false)
    (bound : (-1 : Int) + ((cmpctblock.prefilledtxn.map fun it => it.index.toNat + 1).sum : Nat)
      ≤ 0xffff) : cmpctblock.prefilledtxn.length < 0x10000 := by
  rw [sum_succ_eq] at bound
  by_contra full
  have count : cmpctblock.prefilledtxn.length = 0x10000 := by omega
  have sum : (cmpctblock.prefilledtxn.map fun it => it.index.toNat).sum = 0 := by omega
  apply ordinary
  refine ⟨header, limit, waiting, count, fun it member => ⟨?_, present it member⟩⟩
  have zero := List.sum_eq_zero_iff_forall_eq_nat.mp sum it.index.toNat (mem_map_of_mem member)
  exact UInt16.toNat_inj.mp zero

lemma initData_safe (ordinary : ¬ FillsOffset cmpctblock) :
    Safe (fun _ => True) (initData crypto layout 0x10000 {} cmpctblock vTxHashes extra_txn) := by
  refine Safe.after_require fun header => Safe.after_require fun limit => ?_
  have header : cmpctblock.header.isNull = false := by
    simp only [Bool.not_eq_true', Bool.or_eq_false_iff] at header
    exact header.1
  have limit : cmpctblock.blockTxCount ≤ MAX_BLOCK_WEIGHT / MIN_SERIALIZABLE_TRANSACTION_WEIGHT := by
    simpa using limit
  refine (placePrefilled_safe cmpctblock.shorttxids.length cmpctblock.prefilledtxn 0 (-1)
    (replicate cmpctblock.blockTxCount none) ?_ ?_ ?_ ?_ ?_).bind fun placed checked => ?_
  · rw [length_replicate]
    rfl
  · decide
  · decide
  · simp
  · intro position _ below
    rw [length_replicate] at below
    simp [below]
  obtain ⟨lengths, counted, present, bound⟩ := checked
  rw [length_replicate] at lengths
  -- the positions in the map are positions of the vector
  have mapped : Safe (fun shorttxids : ShortIDMap => ∀ key position,
      shorttxids.lookup key = some position → position.toNat < placed.length)
      (placeShortIDs layout 0x10000 cmpctblock.shorttxids.length placed cmpctblock.shorttxids 0 0 ∅) := by
    have free := freeFrom_length 0 placed
    by_cases waiting : cmpctblock.shorttxids = []
    · rw [waiting]
      rintro key position ⟨⟩
    have narrow := offset_narrow cmpctblock ordinary waiting header limit present bound
    have enough : cmpctblock.shorttxids.length ≤ (freeFrom 0 placed).length := by
      rw [CBlockHeaderAndShortTxIDs.blockTxCount] at lengths
      omega
    have placing := placeShortIDs_eq layout cmpctblock.shorttxids.length [] placed
      cmpctblock.shorttxids 0 0 ∅ rfl enough (by rw [counted]; simpa using narrow) (le_refl _)
    rw [nil_append] at placing
    rw [placing]
    refine insertAll_safe layout _ (fun pair member => ?_) ∅ ?_
    · have below := freeFrom_lt (of_mem_zip member).2
      simpa using below
    · rintro key position ⟨⟩
  refine mapped.bind fun shorttxids within => Safe.after_require fun _ => ?_
  refine (offerAll_safe within rfl (length_replicate ..)).bind fun found sizes => ?_
  refine (offerAll_safe within sizes.1 sizes.2).bind fun found _ => ?_
  trivial

/-- InitData returns, without an access out of range, unless all of the first 65536
positions are prefilled. -/
theorem initData_returns_iff :
    (∃ fuel, Safe (fun _ => True) (initData crypto layout fuel {} cmpctblock vTxHashes extra_txn)) ↔
      ¬ FillsOffset cmpctblock := by
  constructor
  · rintro ⟨fuel, safe⟩ fills
    rwa [initData_loops crypto layout cmpctblock vTxHashes extra_txn fills] at safe
  · intro ordinary
    exact ⟨0x10000, initData_safe crypto layout cmpctblock vTxHashes extra_txn ordinary⟩

end Init

/-! Messages with one short id that prefill the positions before it. -/

namespace WrappingMessage

def tx : CTransaction := ⟨[{ prevout := ⟨Uint256.filled 7, 0⟩, scriptSig := [], nSequence := 0 }], [⟨0, []⟩], 1, 0⟩

def message (count : Nat) : CBlockHeaderAndShortTxIDs where
  header := ⟨1, Uint256.null, Uint256.null, 0, 0x1d00ffff, 0⟩
  nonce := 0
  shorttxids := [0]
  prefilledtxn := replicate count ⟨0, tx⟩

lemma length_prefilledtxn : (message count).prefilledtxn.length = count := length_replicate

lemma eq_of_prefilled {it : PrefilledTransaction} (member : it ∈ (message count).prefilledtxn) : it = ⟨0, tx⟩ :=
  eq_of_mem_replicate member

lemma fills : FillsOffset (message 0x10000) := by
  refine ⟨rfl, ?_, cons_ne_nil _ _, length_prefilledtxn, fun it member => ?_⟩
  · rw [CBlockHeaderAndShortTxIDs.blockTxCount, length_prefilledtxn]
    decide
  · rw [eq_of_prefilled member]
    exact ⟨rfl, rfl⟩

lemma received (limit : count ≤ MAX_SIZE) :
    Reads unserializeCompactBlock (serializeCompactBlock (message count)) (message count) := by
  refine reads_compactBlock (show 1 ≤ MAX_SIZE by decide) ?_ ?_ fun it member => ?_
  · intro shorttxid member
    rw [mem_singleton.mp member]
    decide
  · rw [length_prefilledtxn]
    exact limit
  · rw [eq_of_prefilled member]
    refine ⟨by decide, ?_, by decide, ?_, ?_, ?_⟩ <;> simp [tx]

lemma size_le (limit : count ≤ 0x10000) : (serializeCompactBlock (message count)).length ≤ 32 * 1000 * 1000 := by
  have each : ((message count).prefilledtxn.flatMap serializePrefilled).length = count * 61 := by
    rw [message, flatMap_replicate, List.length_flatten, map_replicate, sum_replicate_nat]
    rfl
  have header := serializeHeader_length (message count).header
  have nonce : (serializeUInt64 (message count).nonce).length = 8 := rfl
  have ids : (serializeVector serializeShortID (message count).shorttxids).length = 7 := rfl
  have counted := (writeCompactSize_length (message count).prefilledtxn.length).2
  rw [serializeCompactBlock, length_append, length_append, length_append, header, nonce,
    ids, serializeVector, length_append, each]
  omega

end WrappingMessage

/-- A message that can be received, on which InitData never comes to an end. -/
theorem initData_never_returns : ∃ bytes cmpctblock,
    unserializeCompactBlock bytes = some (cmpctblock, []) ∧ bytes.length ≤ 32 * 1000 * 1000 ∧
    ∀ crypto layout vTxHashes extra_txn fuel,
      initData crypto layout fuel {} cmpctblock vTxHashes extra_txn = crash .stillLooping := by
  refine ⟨serializeCompactBlock (WrappingMessage.message 0x10000), WrappingMessage.message 0x10000, ?_,
    WrappingMessage.size_le (le_refl _), ?_⟩
  · have read := WrappingMessage.received (show 0x10000 ≤ MAX_SIZE by decide) []
    rwa [append_nil] at read
  · intro crypto layout vTxHashes extra_txn fuel
    exact initData_loops crypto layout _ vTxHashes extra_txn WrappingMessage.fills

end Dragonchain
