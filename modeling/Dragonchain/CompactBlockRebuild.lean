import Dragonchain.CompactBlockInit
import Dragonchain.MerkleRoot

/-!
A compact block and back. The encoder prefills the coinbase only, so InitData gives
the short id of transaction j + 1 the position j + 1, in 16 bits. It finds mempool
transactions by their witness hash, whichever hash the encoder used.
-/

namespace Dragonchain

open Serialization ByteCodec Outcome List CBlockHeaderAndShortTxIDs

/-! More turns do not change a result. -/

variable {slots : TxSlots} {fuel more made j place count : Nat} {index_offset : UInt16}
  {ids keys keys' offered offered' : List UInt64} {shorttxids : ShortIDMap}
  {entries vTxHashes extra_txn : List (Uint256 × CTransaction)} {params : Consensus.Params}
  {fUseWTXID : Bool} {α β : Type}

section Turns
variable {i : Nat} {result : UInt16}

lemma skipFilled_more (enough : fuel ≤ more) (ran : skipFilled slots i fuel index_offset = .ok result) :
    skipFilled slots i more index_offset = .ok result := by
  induction fuel generalizing more index_offset with
  | zero => cases ran
  | succ fuel ih =>
    obtain ⟨turns, rfl⟩ : ∃ turns, more = turns + 1 := ⟨more - 1, by omega⟩
    rw [skipFilled] at ran ⊢
    split at ran
    · cases ran
    · exact ran
    · exact ih (by omega) ran

lemma placeShortIDs_more {layout : BucketLayout} {i : Nat} {result : ShortIDMap} (enough : fuel ≤ more)
    (ran : placeShortIDs layout fuel made slots ids i index_offset shorttxids = .ok result) :
    placeShortIDs layout more made slots ids i index_offset shorttxids = .ok result := by
  induction ids generalizing i index_offset shorttxids with
  | nil => exact ran
  | cons shorttxid ids ih =>
    obtain ⟨offset, skipped, ran⟩ := ok_of_bind ran
    obtain ⟨_, checked, ran⟩ := ok_of_bind ran
    rw [placeShortIDs, skipFilled_more enough skipped, ok_bind]
    dsimp only
    rw [checked, ok_bind]
    exact ih ran

end Turns

/-! The map for distinct short ids. -/

section Map
variable {layout : BucketLayout}

lemma bucketSize_perm (perm : keys.Perm keys') (key : UInt64) :
    bucketSize layout made keys key = bucketSize layout made keys' key := by
  rw [bucketSize, bucketSize, perm.length_eq, perm.countP_eq]

/-- No bucket has more than 12 of the keys, after any of the insertions. -/
def BucketsFit (layout : BucketLayout) (ids : List UInt64) : Prop :=
  ∀ before shorttxid after, ids = before ++ shorttxid :: after →
    bucketSize layout ids.length (before ++ [shorttxid]) shorttxid ≤ 12

lemma insertAll_distinct (layout : BucketLayout) (made : Nat) (pairs : List (UInt64 × Nat))
    (shorttxids : ShortIDMap) (before : List UInt64) (perm : shorttxids.keys.Perm before)
    (distinct : (before ++ pairs.map Prod.fst).Nodup)
    (fits : ∀ front shorttxid after, pairs.map Prod.fst = front ++ shorttxid :: after →
      bucketSize layout made (before ++ front ++ [shorttxid]) shorttxid ≤ 12) :
    ∃ result, insertAll layout made pairs shorttxids = .ok result ∧
      result.keys.length = before.length + pairs.length ∧
      (∀ pair ∈ pairs, result.lookup pair.1 = some (UInt16.ofNat pair.2)) ∧
      ∀ key, key ∉ pairs.map Prod.fst → result.lookup key = shorttxids.lookup key := by
  induction pairs generalizing shorttxids before with
  | nil => exact ⟨shorttxids, rfl, perm.length_eq, by simp, fun _ _ => rfl⟩
  | cons pair rest ih =>
    obtain ⟨shorttxid, position⟩ := pair
    simp only [map_cons] at distinct fits
    have fresh : shorttxid ∉ before := by
      intro member
      exact (nodup_append.mp distinct).2.2 _ member _ mem_cons_self rfl
    have later : shorttxid ∉ rest.map Prod.fst := (nodup_cons.mp (nodup_append.mp distinct).2.1).1
    have missing : shorttxid ∉ shorttxids.keys := fun member => fresh (perm.mem_iff.mp member)
    have keys : (shorttxids.insert shorttxid (UInt16.ofNat position)).keys.Perm (before ++ [shorttxid]) := by
      rw [AList.keys_insert, erase_of_not_mem missing]
      exact (List.Perm.cons _ perm).trans (perm_append_singleton _ _).symm
    have room : bucketSize layout made
        (shorttxids.insert shorttxid (UInt16.ofNat position)).keys shorttxid ≤ 12 := by
      rw [bucketSize_perm keys]
      simpa using fits [] shorttxid _ rfl
    obtain ⟨result, ran, count, placed, others⟩ := ih
      (shorttxids.insert shorttxid (UInt16.ofNat position)) (before ++ [shorttxid]) keys
      (by rw [append_assoc]; exact distinct) (by
        intro front other after split
        have room := fits (shorttxid :: front) other after (by rw [split]; rfl)
        simpa using room)
    refine ⟨result, ?_, ?_, ?_, ?_⟩
    · rw [insertAll, require, if_pos (by simpa using room), ok_bind]
      exact ran
    · rw [count, length_append, length_singleton, length_cons]
      omega
    · rintro pair (_ | ⟨_, member⟩)
      · rw [others shorttxid later]
        exact AList.lookup_insert _
      · exact placed pair member
    · intro key absent
      rw [map_cons, mem_cons, not_or] at absent
      rw [others key absent.2]
      exact AList.lookup_insert_ne absent.1

lemma freeFrom_replicate (start count : Nat) : freeFrom start (replicate count none) = range' start count := by
  induction count generalizing start with
  | zero => rfl
  | succ count ih => rw [replicate_succ, freeFrom, ih, range'_succ]

/-- Short id number j has position j + 1. -/
structure Numbered (shorttxids : ShortIDMap) (ids : List UInt64) : Prop where
  count : shorttxids.keys.length = ids.length
  known : ∀ (j : Nat) shorttxid, ids[j]? = some shorttxid →
    shorttxids.lookup shorttxid = some (UInt16.ofNat (j + 1))
  unknown : ∀ key, key ∉ ids → shorttxids.lookup key = none

/-- The positions that InitData gives to the short ids behind a prefilled coinbase. -/
lemma placeShortIDs_numbered {coinbase : CTransaction}
    (distinct : ids.Nodup) (fits : BucketsFit layout ids) (turns : 0x10000 ≤ fuel) :
    ∃ shorttxids, placeShortIDs layout fuel ids.length
        (some coinbase :: replicate ids.length none) ids 0 0 ∅ = .ok shorttxids ∧ Numbered shorttxids ids := by
  have free : freeFrom 0 (some coinbase :: replicate ids.length none) =
      range' 1 ids.length := freeFrom_replicate 1 ids.length
  have placing := placeShortIDs_eq layout ids.length []
    (some coinbase :: replicate ids.length none) ids 0 0 ∅ rfl
    (by rw [length_nil, free, length_range']) (by simp [countP_replicate]) turns
  rw [nil_append, length_nil, free] at placing
  have keys : (ids.zip (range' 1 ids.length)).map Prod.fst = ids := map_fst_zip (by rw [length_range'])
  obtain ⟨result, ran, count, placed, others⟩ := insertAll_distinct layout ids.length
    (ids.zip (range' 1 ids.length)) ∅ [] (List.Perm.refl _)
    (by rw [keys]; exact distinct) (by
      intro front shorttxid after split
      rw [keys] at split
      exact fits front shorttxid after split)
  refine ⟨result, placing.trans ran, ?_, ?_, ?_⟩
  · simpa using count
  · intro j shorttxid found
    obtain ⟨below, held⟩ := List.getElem?_eq_some_iff.mp found
    have member : (shorttxid, j + 1) ∈ ids.zip (range' 1 ids.length) := by
      rw [mem_iff_getElem?]
      refine ⟨j, ?_⟩
      rw [getElem?_zip_eq_some]
      refine ⟨found, ?_⟩
      rw [getElem?_range' below]
      simp [add_comm]
    exact placed _ member
  · intro key absent
    rw [others key (by rw [keys]; exact absent)]
    rfl

end Map

/-! Offers to a block of distinct short ids. -/

section Offers
variable {getShortID : Uint256 → UInt64} {differs : CTransaction → CTransaction → Bool}
  (encode : CTransaction → UInt64) (coinbase : CTransaction) (rest : List CTransaction)

/-- What InitData holds after the transactions with these short ids were offered. -/
def foundAfter (offered : List UInt64) : Found :=
  let flags := rest.map fun tx => decide (encode tx ∈ offered)
  { txn_available := some coinbase :: rest.map fun tx => if encode tx ∈ offered then some tx else none
    have_txn := false :: flags
    mempool_count := flags.countP id }

/-- A flag is set where a transaction is held. -/
lemma flags_eq (offered : List UInt64) : (rest.map fun tx => decide (encode tx ∈ offered)) =
    (rest.map fun tx => if encode tx ∈ offered then some tx else none).map Option.isSome := by
  rw [map_map]
  exact map_congr_left fun tx _ => by by_cases held : encode tx ∈ offered <;> simp [held]

lemma foundAfter_congr (same : ∀ tx ∈ rest, encode tx ∈ offered ↔ encode tx ∈ offered') :
    foundAfter encode coinbase rest offered = foundAfter encode coinbase rest offered' := by
  have slots : (rest.map fun tx => if encode tx ∈ offered then some tx else none) =
      rest.map fun tx => if encode tx ∈ offered' then some tx else none :=
    map_congr_left fun tx member => by simp [same tx member]
  simp [foundAfter, flags_eq, slots]

lemma map_set_of_ne {values : List α} {f g : α → β} {value : α} (held : values[j]? = some value)
    (others : ∀ (i : Nat) other, i ≠ j → values[i]? = some other → f other = g other) :
    (values.map f).set j (g value) = values.map g := by
  apply ext_getElem?
  intro i
  by_cases same : i = j
  · subst same
    obtain ⟨below, _⟩ := List.getElem?_eq_some_iff.mp held
    rw [getElem?_set_self (by rw [length_map]; exact below), getElem?_map, held]
    rfl
  · rw [getElem?_set_ne (Ne.symm same), getElem?_map, getElem?_map]
    cases found : values[i]? with
    | none => rfl
    | some other => simp [others i other same found]

lemma countP_set_flag {flags : List Bool} (clear : flags[j]? = some false) :
    (flags.set j true).countP id = flags.countP id + 1 := by
  obtain ⟨within, held⟩ := List.getElem?_eq_some_iff.mp clear
  rw [countP_set within, held]
  simp

variable {encode coinbase rest} {it : Uint256 × CTransaction}

lemma Numbered.position (numbered : Numbered shorttxids (rest.map encode)) {key : UInt64}
    {position : UInt16} (known : shorttxids.lookup key = some position) :
    ∃ (j : Nat) (tx : CTransaction), rest[j]? = some tx ∧ encode tx = key ∧ position.toNat = (j + 1) % 0x10000 := by
  by_cases member : key ∈ rest.map encode
  · obtain ⟨j, found⟩ := mem_iff_getElem?.mp member
    rw [numbered.known j _ found, Option.some.injEq] at known
    rw [getElem?_map, Option.map_eq_some_iff] at found
    obtain ⟨tx, held, same⟩ := found
    exact ⟨j, tx, held, same, by rw [← known, UInt16.toNat_ofNat']⟩
  · rw [numbered.unknown _ member] at known
    cases known

lemma offer_fresh (numbered : Numbered shorttxids (rest.map encode))
    (narrow : rest.length < 0x10000) (distinct : (rest.map encode).Nodup) (fresh : getShortID it.1 ∉ offered)
    (own : ∀ tx ∈ rest, getShortID it.1 = encode tx → it.2 = tx) :
    offer getShortID differs shorttxids (foundAfter encode coinbase rest offered) it =
      .ok (foundAfter encode coinbase rest (getShortID it.1 :: offered)) := by
  rw [offer]
  cases known : shorttxids.lookup (getShortID it.1) with
  | none =>
    dsimp only
    congr 1
    apply foundAfter_congr
    intro tx listed
    have apart : encode tx ≠ getShortID it.1 := by
      intro equal
      obtain ⟨j, found⟩ := mem_iff_getElem?.mp (mem_map_of_mem (f := encode) listed)
      rw [← equal, numbered.known j _ found] at known
      cases known
    rw [mem_cons, or_iff_right apart]
  | some position =>
    obtain ⟨j, tx, held, same, place⟩ := numbered.position known
    have below := (List.getElem?_eq_some_iff.mp held).1
    rw [← same] at fresh ⊢
    have slot : (rest.map fun tx => if encode tx ∈ offered then some tx else none)[j]? = some none := by
      rw [getElem?_map, held, Option.map_some, if_neg fresh]
    have slots : (rest.map fun tx => if encode tx ∈ offered then some tx else none).set j (some it.2) =
        rest.map fun other => if encode other ∈ encode tx :: offered then some other else none := by
      have set : (if encode tx ∈ encode tx :: offered then some tx else none) = some it.2 := by
        rw [if_pos mem_cons_self, own tx (mem_of_getElem? held) same.symm]
      rw [← set]
      apply map_set_of_ne (g := fun other => if encode other ∈ encode tx :: offered then some other else none) held
      intro i other apart held'
      -- the other transactions have other short ids
      have apart' : encode other ≠ encode tx := by
        intro equal
        have below' := (List.getElem?_eq_some_iff.mp held').1
        apply apart
        apply (getElem?_inj (by rw [length_map]; exact below') distinct).mp
        rw [getElem?_map, getElem?_map, held, held', Option.map_some, Option.map_some, equal]
      simp [apart']
    have flag : (rest.map fun tx => decide (encode tx ∈ offered))[j]? = some false := by
      rw [flags_eq, getElem?_map, slot]
      rfl
    have flags : (rest.map fun tx => decide (encode tx ∈ offered)).set j true =
        rest.map fun other => decide (encode other ∈ encode tx :: offered) := by
      rw [flags_eq, flags_eq, ← slots, map_set]
      rfl
    dsimp only [foundAfter]
    rw [place, Nat.mod_eq_of_lt (by omega), getElem?_cons_succ, getElem?_cons_succ, flag, slot]
    rw [set_cons_succ, set_cons_succ, ← countP_set_flag flag, flags, slots]

variable (numbered : Numbered shorttxids (rest.map encode)) (narrow : rest.length < 0x10000)
include numbered narrow

lemma offerAll_fresh (distinct : (rest.map encode).Nodup) (offered : List UInt64)
    (once : ((entries.map fun it => getShortID it.1) ++ offered).Nodup)
    (own : ∀ it ∈ entries, ∀ tx ∈ rest, getShortID it.1 = encode tx → it.2 = tx)
    (covers : ∀ tx ∈ rest, encode tx ∈ (entries.map fun it => getShortID it.1) ++ offered) :
    ∃ offered', (∀ tx ∈ rest, encode tx ∈ offered') ∧
      offerAll getShortID differs shorttxids entries (foundAfter encode coinbase rest offered) =
        .ok (foundAfter encode coinbase rest offered') := by
  induction entries generalizing offered with
  | nil => exact ⟨offered, covers, rfl⟩
  | cons it entries ih =>
    simp only [map_cons, cons_append, nodup_cons, mem_append, not_or] at once
    have step : offer getShortID differs shorttxids (foundAfter encode coinbase rest offered) it = _ :=
      offer_fresh numbered narrow distinct once.1.2 (own it mem_cons_self)
    rw [offerAll, step, ok_bind]
    split_ifs with full
    · -- as many as there are short ids, so none is missing
      refine ⟨_, fun tx member => ?_, rfl⟩
      rw [numbered.count, length_map] at full
      have all := countP_eq_length.mp (full.trans (length_map _).symm) _ (mem_map_of_mem member)
      simpa using all
    · apply ih (getShortID it.1 :: offered)
      · exact perm_middle.nodup_iff.mpr (nodup_cons.mpr ⟨by rw [mem_append, not_or]; exact once.1, once.2⟩)
      · exact fun other member => own other (mem_cons_of_mem _ member)
      · intro tx member
        exact perm_middle.mem_iff.mpr (covers tx member)

lemma offerAll_complete (all : ∀ tx ∈ rest, encode tx ∈ offered)
    (own : ∀ it ∈ entries, ∀ tx ∈ rest, getShortID it.1 = encode tx → it.2 = tx)
    (alike : ∀ tx, differs tx tx = false) :
    offerAll getShortID differs shorttxids entries (foundAfter encode coinbase rest offered) =
      .ok (foundAfter encode coinbase rest offered) := by
  induction entries with
  | nil => rfl
  | cons it entries ih =>
    have kept : offer getShortID differs shorttxids (foundAfter encode coinbase rest offered) it =
        .ok (foundAfter encode coinbase rest offered) := by
      rw [offer]
      cases known : shorttxids.lookup (getShortID it.1) with
      | none => rfl
      | some position =>
        obtain ⟨j, tx, held, same, place⟩ := numbered.position known
        have below := (List.getElem?_eq_some_iff.mp held).1
        have listed := mem_of_getElem? held
        have mine : it.2 = tx := own it mem_cons_self tx listed same.symm
        dsimp only [foundAfter]
        rw [place, Nat.mod_eq_of_lt (by omega), getElem?_cons_succ, getElem?_cons_succ, getElem?_map,
          getElem?_map, held, Option.map_some, Option.map_some, if_pos (all tx listed),
          decide_eq_true (all tx listed), mine]
        dsimp only
        rw [alike tx, if_neg Bool.false_ne_true]
    rw [offerAll, kept, ok_bind]
    split
    · rfl
    · exact ih fun other member => own other (mem_cons_of_mem _ member)

omit numbered narrow

lemma foundAfter_complete (all : ∀ tx ∈ rest, encode tx ∈ offered) :
    (foundAfter encode coinbase rest offered).txn_available = (coinbase :: rest).map some := by
  rw [foundAfter, map_cons]
  dsimp only
  congr 1
  exact map_congr_left fun tx member => if_pos (all tx member)

lemma offerAll_free {found after : Found} (free : found.txn_available[place]? = some none)
    (elsewhere : ∀ it ∈ entries, ∀ position,
      shorttxids.lookup (getShortID it.1) = some position → position.toNat ≠ place)
    (ran : offerAll getShortID differs shorttxids entries found = .ok after) :
    after.txn_available[place]? = some none := by
  induction entries generalizing found with
  | nil =>
    cases ran
    exact free
  | cons it entries ih =>
    obtain ⟨next, offered, ran⟩ := ok_of_bind ran
    have kept : next.txn_available[place]? = some none := by
      rw [offer] at offered
      split at offered
      · cases offered
        exact free
      · rename_i position known
        have apart := elsewhere it mem_cons_self position known
        have set {slot} : (found.txn_available.set position.toNat slot)[place]? = some none :=
          (getElem?_set_ne apart).trans free
        repeat' split at offered
        all_goals cases offered
        all_goals first | exact set | exact free
    split at ran
    · cases ran
      exact kept
    · exact ih kept (fun other member => elsewhere other (mem_cons_of_mem _ member)) ran

end Offers

/-! FillBlock with nothing missing. -/

lemma fillVtx_filled (vtx : List CTransaction) : fillVtx (vtx.map some) [] = some (vtx, []) := by
  induction vtx with
  | nil => rfl
  | cons tx rest ih => rw [map_cons, fillVtx, ih, Option.map_some]

lemma fillVtx_free (free : slots[place]? = some none) : fillVtx slots [] = none := by
  induction slots generalizing place with
  | nil => cases free
  | cons slot rest ih =>
    cases slot with
    | none => rfl
    | some tx =>
      cases place with
      | zero => cases free
      | succ place =>
        rw [fillVtx, ih free]
        rfl

/-! There and back. -/

section Rebuild
variable {crypto : Crypto} {block : CBlock} {nonce : UInt64} {layout : BucketLayout}

def encodedID (crypto : Crypto) (block : CBlock) (nonce : UInt64) (fUseWTXID : Bool) (tx : CTransaction) : UInt64 :=
  shortID crypto block.toCBlockHeader nonce (txHash crypto fUseWTXID tx)

/-- A mempool, and extra transactions, that have the transactions of the block and whose
short ids are not confused with one another. -/
structure Relayed (crypto : Crypto) (block : CBlock) (nonce : UInt64) (fUseWTXID : Bool)
    (layout : BucketLayout) (vTxHashes extra_txn : List (Uint256 × CTransaction)) : Prop where
  hashed : ∀ it ∈ vTxHashes ++ extra_txn, it.1 = getWitnessHash crypto it.2
  pooled : ∀ tx ∈ block.vtx.tail, tx ∈ vTxHashes.map Prod.snd
  blockIDs : (block.vtx.tail.map (encodedID crypto block nonce fUseWTXID)).Nodup
  poolIDs : (vTxHashes.map fun it => shortID crypto block.toCBlockHeader nonce it.1).Nodup
  own : ∀ it ∈ vTxHashes ++ extra_txn, ∀ tx ∈ block.vtx.tail,
    shortID crypto block.toCBlockHeader nonce it.1 = encodedID crypto block nonce fUseWTXID tx → it.2 = tx
  buckets : BucketsFit layout (block.vtx.tail.map (encodedID crypto block nonce fUseWTXID))

def rebuild (crypto : Crypto) (params : Consensus.Params) (layout : BucketLayout) (fuel : Nat)
    (cmpctblock : CBlockHeaderAndShortTxIDs) (vTxHashes extra_txn : List (Uint256 × CTransaction)) :
    PartialM CBlock := do
  let object ← initData crypto layout fuel {} cmpctblock vTxHashes extra_txn
  let filled : BlockObject crypto params × PartiallyDownloadedBlock ← fillBlock object []
  pure filled.1.block

variable {cmpctblock : CBlockHeaderAndShortTxIDs}

lemma initData_more {object : PartiallyDownloadedBlock} (enough : fuel ≤ more)
    (ran : initData crypto layout fuel {} cmpctblock vTxHashes extra_txn = .ok object) :
    initData crypto layout more {} cmpctblock vTxHashes extra_txn = .ok object := by
  obtain ⟨_, first, ran⟩ := ok_of_bind ran
  obtain ⟨_, second, ran⟩ := ok_of_bind ran
  obtain ⟨_, third, ran⟩ := ok_of_bind ran
  obtain ⟨placed, prefilled, ran⟩ := ok_of_bind ran
  obtain ⟨shorttxids, short, ran⟩ := ok_of_bind ran
  rw [initData, first, ok_bind, second, ok_bind, third, ok_bind, prefilled, ok_bind,
    placeShortIDs_more enough short, ok_bind]
  exact ran

variable {coinbase : CTransaction} {rest : List CTransaction} {result : CBlock}

lemma initData_ofBlock (vTxHashes extra_txn : List (Uint256 × CTransaction))
    (accepted : checkBlockBody crypto params block true true = .ok ()) (listed : block.vtx = coinbase :: rest)
    (each : ids.length = rest.length) (distinct : ids.Nodup) (fits : BucketsFit layout ids)
    (turns : 0x10000 ≤ fuel) : ∃ shorttxids, Numbered shorttxids ids ∧
      initData crypto layout fuel {} ⟨block.toCBlockHeader, nonce, ids, [⟨0, coinbase⟩]⟩ vTxHashes extra_txn = (do
        let found ← offerAll (shortID crypto block.toCBlockHeader nonce)
          (fun _ _ => true) shorttxids vTxHashes
          ⟨some coinbase :: replicate rest.length none, replicate (rest.length + 1) false, 0⟩
        let found ← offerAll (shortID crypto block.toCBlockHeader nonce)
          (fun held tx => getWitnessHash crypto held != getWitnessHash crypto tx) shorttxids extra_txn
          found
        pure { txn_available := found.txn_available, mempool_count := found.mempool_count
               header := block.toCBlockHeader }) := by
  have checked := checkBlockBody_passed accepted
  have header := checkBlockBody_header accepted
  obtain ⟨shorttxids, short, numbered⟩ : ∃ shorttxids, placeShortIDs layout fuel ids.length
      (some coinbase :: replicate ids.length none) ids 0 0 ∅ = .ok shorttxids ∧ _ :=
    placeShortIDs_numbered distinct fits turns
  refine ⟨shorttxids, numbered, ?_⟩
  have count : rest.length + 1 ≤ MAX_BLOCK_WEIGHT / MIN_SERIALIZABLE_TRANSACTION_WEIGHT := by
    have size := checked.size
    have vtx := vtx_length_le false block
    rw [listed, length_cons] at vtx
    simp only [MAX_BLOCK_WEIGHT, WITNESS_SCALE_FACTOR, MIN_SERIALIZABLE_TRANSACTION_WEIGHT] at size ⊢
    omega
  have present : coinbase.isNull = false := by
    obtain ⟨first, _, same, isCoinBase, _⟩ := checked.shape
    rw [listed] at same
    cases same
    unfold CTransaction.isCoinBase at isCoinBase
    split at isCoinBase
    · rename_i vin
      rw [CTransaction.isNull, vin]
      rfl
    · cases isCoinBase
  have prefilled : placePrefilled ids.length [⟨0, coinbase⟩] 0 (-1) (replicate (rest.length + 1) none) =
      .ok (some coinbase :: replicate rest.length none) := by
    simp [placePrefilled, present, replicate_succ, each]
  have total : blockTxCount ⟨block.toCBlockHeader, nonce, ids, [⟨0, coinbase⟩]⟩ = rest.length + 1 := by
    rw [blockTxCount, each, length_singleton]
  rw [initData, total, prefilled]
  rw [each] at short
  simp only [require, header, Bool.false_or, isEmpty_cons, Bool.and_false, Bool.not_false, if_true,
    ok_bind, gt_iff_lt, not_lt.mpr count, decide_false, CBlockHeader.null_isNull, beq_self_eq_true,
    isEmpty_nil, Bool.and_self, each, short, numbered.count, length_cons,
    length_replicate]
  rfl

variable (accepted : checkBlockBody crypto params block true true = .ok ())
  (encoded : ofBlock crypto block nonce fUseWTXID = some cmpctblock)
  (relayed : Relayed crypto block nonce fUseWTXID layout vTxHashes extra_txn)
include accepted encoded relayed

/-- A block of at most 65536 transactions whose short ids are those that InitData
computes for the mempool comes back. -/
lemma rebuild_ok (narrow : block.vtx.length ≤ 0x10000) (same : ∀ tx ∈ block.vtx.tail,
      encodedID crypto block nonce fUseWTXID tx = encodedID crypto block nonce true tx) :
    rebuild crypto params layout 0x10000 cmpctblock vTxHashes extra_txn = .ok block := by
  obtain ⟨coinbase, rest, listed, _, _⟩ := (checkBlockBody_passed accepted).shape
  obtain ⟨hashed, pooled, blockIDs, poolIDs, own, buckets⟩ := relayed
  rw [listed, tail_cons] at pooled blockIDs own buckets same
  rw [listed, length_cons] at narrow
  rw [ofBlock, listed, Option.some.injEq] at encoded
  subst encoded
  obtain ⟨shorttxids, numbered, ran⟩ :=
    initData_ofBlock vTxHashes extra_txn accepted listed (length_map _) blockIDs buckets (le_refl 0x10000)
  have covers : ∀ tx ∈ rest, encodedID crypto block nonce fUseWTXID tx ∈
      (vTxHashes.map fun it => shortID crypto block.toCBlockHeader nonce it.1) ++ [] := by
    intro tx member
    obtain ⟨it, inPool, rfl⟩ := mem_map.mp (pooled tx member)
    rw [append_nil, mem_map]
    refine ⟨it, inPool, ?_⟩
    rw [same it.2 member, hashed it (mem_append_left _ inPool)]
    rfl
  have start : (⟨some coinbase :: replicate rest.length none,
      replicate (rest.length + 1) false, 0⟩ : Found) =
        foundAfter (encodedID crypto block nonce fUseWTXID) coinbase rest [] := by
    simp [foundAfter, replicate_succ, map_const', countP_replicate]
  obtain ⟨offered, all, pool⟩ : ∃ offered, _ ∧ offerAll
      (shortID crypto block.toCBlockHeader nonce) (fun _ _ => true) shorttxids
      vTxHashes (foundAfter (encodedID crypto block nonce fUseWTXID) coinbase rest []) = _ :=
    offerAll_fresh numbered (by omega) blockIDs [] (by rw [append_nil]; exact poolIDs)
      (fun it member => own it (mem_append_left _ member)) covers
  have extra : offerAll (shortID crypto block.toCBlockHeader nonce)
      (fun held tx => getWitnessHash crypto held != getWitnessHash crypto tx) shorttxids extra_txn
      (foundAfter (encodedID crypto block nonce fUseWTXID) coinbase rest offered) = _ :=
    offerAll_complete numbered (by omega) all
      (fun it member => own it (mem_append_right _ member)) fun tx => bne_self_eq_false _
  rw [start, pool, ok_bind, extra, ok_bind, foundAfter_complete all, ← listed] at ran
  obtain ⟨checked, passed, whole⟩ := checkBlock_of_body
    ⟨{ toCBlockHeader := block.toCBlockHeader, vtx := block.vtx }, false, (absurd · Bool.false_ne_true)⟩ accepted
  have filled : ∀ count, fillBlock ⟨block.vtx.map some, count, block.toCBlockHeader⟩ [] =
      .ok (checked, ⟨[], count, CBlockHeader.null⟩) := by
    intro count
    simp only [fillBlock, checkBlockBody_header accepted, fillVtx_filled, passed]
    rfl
  exact (congrArg (· >>= _) ran).trans (by
    show (fillBlock _ [] >>= fun filled => pure filled.1.block) = _
    rw [filled, ok_bind, whole]
    rfl)

/-- FillBlock fills a position only where InitData was offered a transaction with a short
id of that position, in 16 bits. -/
lemma rebuild_offered (listed : block.vtx = coinbase :: rest)
    (ran : rebuild crypto params layout fuel cmpctblock vTxHashes extra_txn = .ok result)
    (within : j < rest.length) :
    ∃ it ∈ vTxHashes ++ extra_txn, ∃ (k : Nat) (tx : CTransaction), rest[k]? = some tx ∧
      shortID crypto block.toCBlockHeader nonce it.1 =
        encodedID crypto block nonce fUseWTXID tx ∧ (k + 1) % 0x10000 = j + 1 := by
  obtain ⟨_, _, blockIDs, _, _, buckets⟩ := relayed
  rw [listed, tail_cons] at blockIDs buckets
  rw [ofBlock, listed, Option.some.injEq] at encoded
  subst encoded
  obtain ⟨object, initialised, ran⟩ := ok_of_bind ran
  obtain ⟨shorttxids, numbered, searches⟩ := initData_ofBlock vTxHashes extra_txn accepted listed
    (length_map _) blockIDs buckets (Nat.le_max_right fuel 0x10000)
  have whole := initData_more (Nat.le_max_left fuel 0x10000) initialised
  obtain ⟨found, pool, whole⟩ := ok_of_bind (searches.symm.trans whole)
  obtain ⟨all, extra, whole⟩ := ok_of_bind whole
  cases whole
  by_contra nothing
  have elsewhere : ∀ it ∈ vTxHashes ++ extra_txn, ∀ position, shorttxids.lookup
      (shortID crypto block.toCBlockHeader nonce it.1) = some position →
      position.toNat ≠ j + 1 := by
    intro it offered position known same
    obtain ⟨k, tx, held, shared, place⟩ := numbered.position known
    exact nothing ⟨it, offered, k, tx, held, shared.symm, place.symm.trans same⟩
  have free : found.txn_available[j + 1]? = some none :=
    offerAll_free (by simp [within]) (fun it member => elsewhere it (mem_append_left _ member)) pool
  have missed := offerAll_free free (fun it member => elsewhere it (mem_append_right _ member)) extra
  obtain ⟨filled, ran, _⟩ := ok_of_bind ran
  rw [fillBlock, fillVtx_free missed] at ran
  split at ran <;> cases ran

lemma rebuild_narrow (ran : rebuild crypto params layout fuel cmpctblock vTxHashes extra_txn = .ok result) :
    block.vtx.length ≤ 0x10000 := by
  obtain ⟨coinbase, rest, listed, _, _⟩ := (checkBlockBody_passed accepted).shape
  rw [listed, length_cons]
  by_contra long
  -- the position 65536 is no remainder
  obtain ⟨_, _, k, _, _, _, position⟩ :=
    rebuild_offered (j := 0xffff) accepted encoded relayed listed ran (by omega)
  omega

omit accepted encoded relayed

/-- A block that CheckBlock accepts comes back from its compact form exactly where its
positions fit 16 bits and its short ids are those of the witness hashes. -/
theorem rebuild_ok_iff {object checked : BlockObject crypto params}
    {cmpctblock : CBlockHeaderAndShortTxIDs} (accepted : checkBlock object true true = .ok checked)
    (encoded : ofBlock crypto object.block nonce fUseWTXID = some cmpctblock)
    (relayed : Relayed crypto object.block nonce fUseWTXID layout vTxHashes extra_txn) :
    (∃ fuel, rebuild crypto params layout fuel cmpctblock vTxHashes extra_txn = .ok object.block) ↔
      object.block.vtx.length ≤ 0x10000 ∧ ∀ tx ∈ object.block.vtx.tail,
        encodedID crypto object.block nonce fUseWTXID tx = encodedID crypto object.block nonce true tx := by
  have accepted := checkBlock_passed object checked accepted
  constructor
  · rintro ⟨fuel, ran⟩
    have narrow := rebuild_narrow accepted encoded relayed ran
    obtain ⟨coinbase, rest, listed, _, _⟩ := (checkBlockBody_passed accepted).shape
    refine ⟨narrow, ?_⟩
    rw [listed, length_cons] at narrow
    rw [listed, tail_cons]
    intro tx member
    obtain ⟨j, held⟩ := mem_iff_getElem?.mp member
    have within := (List.getElem?_eq_some_iff.mp held).1
    obtain ⟨it, offered, k, other, held', shared, position⟩ :=
      rebuild_offered accepted encoded relayed listed ran within
    have below := (List.getElem?_eq_some_iff.mp held').1
    obtain rfl : k = j := by omega
    rw [held, Option.some.injEq] at held'
    subst held'
    have mine : it.2 = tx := relayed.own it offered tx (by rw [listed]; exact member) shared
    rw [← shared, relayed.hashed it offered, mine]
    rfl
  · rintro ⟨narrow, same⟩
    exact ⟨0x10000, rebuild_ok accepted encoded relayed narrow same⟩

end Rebuild

/-! Blocks of any number of transactions that differ in their lock time. -/

namespace LockTimes

open Merkle MerkleTree

/-- A hash is the end of the data, and a short id the end of the hash. -/
def crypto : Crypto :=
  { Crypto.suffixes with
    sipHashUint256 := fun _ _ hash => UInt64.ofNat (leValue (hash.bytes.drop 28)) }

variable (prevout : COutPoint) (i : Nat)

def txAt : CTransaction := ⟨[{ prevout, scriptSig := [0, 0], nSequence := 0 }], [⟨0, []⟩], 1, UInt32.ofNat i⟩

def coinbase : CTransaction := txAt ⟨Uint256.null, 0xffffffff⟩ 1

def spend : CTransaction := txAt ⟨Uint256.filled 7, 0⟩ (i + 2)

def vtx (count : Nat) : List CTransaction := coinbase :: (range count).map spend

def block (count : Nat) : CBlock where
  nVersion := 1
  hashPrevBlock := Uint256.null
  hashMerkleRoot := (computeMerkleRoot crypto ((vtx count).map (getHash crypto))).1
  nTime := 0
  nBits := 0x1d00ffff
  nNonce := 0
  vtx := vtx count

def layout : BucketLayout := ⟨fun made _ key => key.toNat % (made + 2)⟩

def mempool (count : Nat) : List (Uint256 × CTransaction) :=
  ((range count).map spend).map fun tx => (getWitnessHash crypto tx, tx)

/-! Hashes and short ids. -/

variable {data : Bytes} {nodes leaves : List Uint256}

lemma sha256_drop (long : 4 ≤ data.length) : (crypto.sha256 data).bytes.drop 28 = data.drop (data.length - 4) := by
  show ((replicate 32 0 ++ data).drop data.length).drop 28 = _
  rw [drop_drop, drop_append, length_replicate, drop_of_length_le (by rw [length_replicate]; omega), nil_append]
  congr 1

lemma hash256_drop (long : 4 ≤ data.length) :
    (crypto.hash256 data).bytes.drop 28 = data.drop (data.length - 4) := by
  have size := (crypto.sha256 data).size
  rw [Crypto.hash256, sha256_drop (by omega), size, sha256_drop long]

def lockTimeOf (hash : Uint256) : Nat := leValue (hash.bytes.drop 28)

lemma lockTimeOf_getHash (tx : CTransaction) : lockTimeOf (getHash crypto tx) = tx.nLockTime.toNat := by
  have size := transaction_length_ge false tx
  have last : ∀ front back : Bytes, (front ++ back).drop ((front ++ back).length - back.length) = back := by
    intro front back
    rw [length_append, Nat.add_sub_cancel, drop_left]
  have four : (serializeUInt32 tx.nLockTime).length = 4 := length_leBytes 4 _
  have below := tx.nLockTime.toNat_lt
  rw [lockTimeOf, getHash, hash256_drop (by omega), ← four, serializeTransaction, last,
    serializeUInt32, leValue_leBytes_of_lt _ _ (by omega)]

variable {tx : CTransaction}

lemma encodedID_toNat (plain : tx.hasWitness = false) :
    (encodedID crypto (block count) 0 fUseWTXID tx).toNat = tx.nLockTime.toNat := by
  have hash : txHash crypto fUseWTXID tx = getHash crypto tx := by
    cases fUseWTXID with
    | false => rfl
    | true => simp [txHash, getWitnessHash, plain]
  have below := tx.nLockTime.toNat_lt
  rw [encodedID, hash]
  show (UInt64.ofNat (lockTimeOf (getHash crypto tx)) &&& 0xffffffffffff).toNat = _
  rw [lockTimeOf_getHash, UInt64.toNat_and, UInt64.toNat_ofNat_of_lt' (by
    show _ < 2 ^ 64
    omega)]
  exact (Nat.and_two_pow_sub_one_eq_mod _ 48).trans (Nat.mod_eq_of_lt (by omega))

/-! The Merkle root. The hash of a pair is its right half, so a leaf climbs unchanged. -/

lemma hashPair_right (left right : Uint256) : hashPair crypto left right = right :=
  Crypto.suffixes_hash256 left.bytes right

lemma nextLevel_sublist : (nextLevel (hashPair crypto) nodes).Sublist nodes := by
  simp only [nextLevel, hashPair_right]
  fun_induction siblings nodes with
  | case1 => exact .slnil
  | case2 last => exact .refl _
  | case3 left right rest ih => exact (ih.cons_cons right).cons left

lemma level_sublist (height : Nat) : (level (hashPair crypto) leaves height).Sublist leaves := by
  induction height with
  | zero => exact .refl _
  | succ height ih => exact nextLevel_sublist.trans ih

/-! The transactions. -/

lemma mem_vtx (member : tx ∈ vtx count) : ∃ prevout i, tx = txAt prevout (i + 1) ∧ i ≤ count := by
  rcases mem_cons.mp member with rfl | listed
  · exact ⟨_, 0, rfl, Nat.zero_le _⟩
  · obtain ⟨i, below, rfl⟩ := mem_map.mp listed
    exact ⟨_, i + 1, rfl, mem_range.mp below⟩

lemma nLockTimes (fits : count < 2 ^ 31) :
    (vtx count).map (fun tx => tx.nLockTime.toNat) = range' 1 (count + 1) := by
  rw [vtx, map_cons, map_map, range'_succ, range'_eq_map_range]
  congr 1
  apply map_congr_left
  intro i listed
  have below := mem_range.mp listed
  show (UInt32.ofNat (i + 2)).toNat = 2 + i
  rw [UInt32.toNat_ofNat_of_lt' (by show _ < 2 ^ 32; omega), add_comm]

lemma distinct_of_lockTimes (fits : count < 2 ^ 31)
    {f : CTransaction → α} (g : α → Nat) (reads : ∀ tx ∈ vtx count, g (f tx) = tx.nLockTime.toNat) :
    ((vtx count).map f).Nodup := by
  apply List.Nodup.of_map g
  rw [map_map]
  have same : (vtx count).map (g ∘ f) = (vtx count).map fun tx => tx.nLockTime.toNat := map_congr_left reads
  rw [same, nLockTimes fits]
  exact nodup_range'

lemma length_txAt : (serializeTransaction false (txAt prevout i)).length = 62 := by
  simp [serializeTransaction, txAt, serializeVector, serializeTxIn, serializeTxOut, serializeOutPoint,
    serializeBytes, serializeInt32, serializeUInt32, serializeInt64, prevout.hash.size, writeCompactSize]

lemma checkTransaction_txAt : checkTransaction (txAt prevout i) true = .ok () := by
  have shape : checkInputShape (txAt prevout i) = .ok () := by
    rw [checkInputShape]
    split
    · rfl
    · rename_i other
      rw [Bool.not_eq_true] at other
      have present : prevout.isNull = false := other
      simp [txAt, present, check]
  rw [checkTransaction, length_txAt, shape]
  simp [txAt, check, checkOutputs]
  decide

/-! CheckBlock and the mempool. -/

lemma length_vtx (count : Nat) : (vtx count).length = count + 1 := by
  rw [vtx, length_cons, length_map, length_range]

lemma not_mutated (count : Nat) (fits : count < 2 ^ 31 - 1) :
    (computeMerkleRoot crypto ((vtx count).map (getHash crypto))).2 = false := by
  have distinct : ((vtx count).map (getHash crypto)).Nodup :=
    distinct_of_lockTimes (by omega) lockTimeOf fun tx _ => lockTimeOf_getHash tx
  have short : ((vtx count).map (getHash crypto)).length < 2 ^ 31 := by
    rw [length_map, length_vtx]
    omega
  rw [← Bool.not_eq_true, (computeMerkleRoot_spec crypto short).2]
  rintro ⟨height, index, bound, same⟩
  have inside : 2 * index + 1 < (level (hashPair crypto) ((vtx count).map (getHash crypto)) height).length :=
    lt_length_level.mpr (by have := Nat.two_pow_pos height; grind)
  exact nodup_iff_getElem?_ne_getElem?.mp (distinct.sublist (level_sublist height)) _ _ (Nat.lt_succ_self _)
    inside same

lemma length_block (count : Nat) : (serializeBlock false (block count)).length ≤ 89 + (count + 1) * 62 := by
  have each : ((vtx count).flatMap (serializeTransaction false)).length = (count + 1) * 62 := by
    rw [length_flatMap, ← length_vtx count, ← sum_replicate_nat]
    congr 1
    rw [map_eq_replicate_iff]
    intro tx member
    obtain ⟨prevout, i, rfl, _⟩ := mem_vtx member
    exact length_txAt prevout (i + 1)
  have header := serializeHeader_length (block count).toCBlockHeader
  have counted := (writeCompactSize_length (vtx count).length).2
  have parts : (serializeBlock false (block count)).length = _ := length_append
  rw [header, serializeVector, length_append] at parts
  have whole : ((block count).vtx.flatMap (serializeTransaction false)).length = _ := each
  have sized : (writeCompactSize (block count).vtx.length).length ≤ 9 := counted
  omega

lemma blockSigOps_block (count : Nat) : blockSigOps (block count) = 0 := by
  refine foldlRecOn (motive := (· = 0)) (vtx count) _ rfl ?_
  rintro _ rfl tx member
  obtain ⟨prevout, i, rfl, _⟩ := mem_vtx member
  rfl

lemma accepted (limit : count ≤ 0x10000) :
    checkBlockBody crypto Consensus.Params.easy (block count) true true = .ok () := by
  have header : checkBlockHeader crypto Consensus.Params.easy (block count).toCBlockHeader true = .ok () := by
    show check (!(true && !checkProofOfWork Consensus.Params.easy Uint256.null 0x1d00ffff)) _ = _
    decide
  have root : checkMerkleRoot crypto (block count) = .ok () := by
    have clean := not_mutated count (by omega)
    have same : blockMerkleRoot crypto (block count) = ((block count).hashMerkleRoot, false) := Prod.ext rfl clean
    rw [checkMerkleRoot, same]
    simp [check, ok_bind]
  have size := length_block count
  have weighed : ¬ (serializeBlock false (block count)).length * WITNESS_SCALE_FACTOR > MAX_BLOCK_WEIGHT := by
    rw [WITNESS_SCALE_FACTOR, MAX_BLOCK_WEIGHT]
    omega
  have counted : ¬ (block count).vtx.length * WITNESS_SCALE_FACTOR > MAX_BLOCK_WEIGHT := by
    have length : (block count).vtx.length = count + 1 := length_vtx count
    rw [length, WITNESS_SCALE_FACTOR, MAX_BLOCK_WEIGHT]
    omega
  have others : (block count).vtx.tail.all (fun tx => !tx.isCoinBase) = true := by
    rw [all_eq_true]
    intro tx member
    obtain ⟨i, _, rfl⟩ := mem_map.mp member
    rfl
  have each : (block count).vtx.forM (fun tx => checkTransaction tx true) = .ok () := by
    apply forM_of_ok
    intro tx member
    obtain ⟨prevout, i, rfl, _⟩ := mem_vtx member
    exact checkTransaction_txAt prevout (i + 1)
  rw [checkBlockBody, header, ok_bind, if_pos rfl, root, ok_bind, blockSigOps_block, others, each]
  simp only [weighed, counted]
  rfl

lemma encodedID_of_mem (member : tx ∈ vtx count) :
    (encodedID crypto (block count) 0 true tx).toNat = tx.nLockTime.toNat := by
  apply encodedID_toNat
  obtain ⟨prevout, i, rfl, _⟩ := mem_vtx member
  rfl

lemma encodedIDs_nodup (limit : count ≤ 0x10000) :
    ((vtx count).map (encodedID crypto (block count) 0 true)).Nodup :=
  distinct_of_lockTimes (by omega) UInt64.toNat fun _ member => encodedID_of_mem member

lemma relayed (limit : count ≤ 0x10000) : Relayed crypto (block count) 0 true layout (mempool count) [] := by
  have later : ((vtx count).tail.map (encodedID crypto (block count) 0 true)).Nodup :=
    (nodup_cons.mp (encodedIDs_nodup limit)).2
  have hashed : ∀ it ∈ mempool count ++ [], it.1 = getWitnessHash crypto it.2 ∧ it.2 ∈ (vtx count).tail := by
    intro it member
    rw [append_nil] at member
    obtain ⟨tx, listed, rfl⟩ := mem_map.mp member
    exact ⟨rfl, listed⟩
  refine ⟨fun it member => (hashed it member).1, ?_, later, ?_, ?_, ?_⟩
  · intro tx listed
    rw [mempool, map_map]
    exact mem_map.mpr ⟨tx, listed, rfl⟩
  · rw [mempool, map_map]
    exact later
  · intro it member tx listed shared
    obtain ⟨hash, inBlock⟩ := hashed it member
    rw [hash] at shared
    exact inj_on_of_nodup_map later inBlock listed shared
  · intro before shorttxid after split
    -- every key is below the number of buckets, so it has a bucket of its own
    have small : ∀ key ∈ before ++ [shorttxid], key.toNat < count + 2 := by
      intro key member
      have listed : key ∈ (vtx count).tail.map (encodedID crypto (block count) 0 true) := by
        rw [append_cons] at split
        rw [← show (block count).vtx = vtx count from rfl, split]
        exact mem_append_left _ member
      obtain ⟨tx, among, rfl⟩ := mem_map.mp listed
      have inBlock : tx ∈ vtx count := mem_of_mem_tail among
      rw [encodedID_of_mem inBlock]
      obtain ⟨prevout, i, rfl, below⟩ := mem_vtx inBlock
      rw [txAt, UInt32.toNat_ofNat_of_lt' (by show _ < 2 ^ 32; omega)]
      omega
    have made : ((block count).vtx.tail.map (encodedID crypto (block count) 0 true)).length = count := by
      rw [length_map, length_tail]
      exact congrArg (· - 1) (length_vtx count)
    have once : (before ++ [shorttxid]).Nodup := by
      rw [show (vtx count).tail.map (encodedID crypto (block count) 0 true) = _ from split, append_cons] at later
      exact (nodup_append.mp later).1
    have own : bucketSize layout count (before ++ [shorttxid]) shorttxid ≤
        (before ++ [shorttxid]).count shorttxid := by
      apply countP_mono_left
      intro key member same
      have bucket := beq_iff_eq.mp same
      dsimp only [layout] at bucket
      rw [Nat.mod_eq_of_lt (small key member), Nat.mod_eq_of_lt (small shorttxid (by simp))] at bucket
      exact beq_iff_eq.mpr (UInt64.toNat_inj.mp bucket)
    rw [made]
    exact own.trans ((nodup_iff_count_le_one.mp once shorttxid).trans (by decide))

end LockTimes

open LockTimes

theorem rebuild_ok_three : ∃ cmpctblock, ∃ fuel, rebuild crypto Consensus.Params.easy
    layout fuel cmpctblock (mempool 2) [] = .ok (block 2) := by
  have small : 2 ≤ 0x10000 := by decide
  obtain ⟨checked, accepted, _⟩ := checkBlock_of_body ⟨block 2, false, (absurd · Bool.false_ne_true)⟩
    (accepted small)
  refine ⟨_, (rebuild_ok_iff accepted rfl (relayed small)).mpr ⟨?_, ?_⟩⟩
  · decide
  · exact fun _ _ => rfl

/-- A block of 65537 transactions that CheckBlock accepts, with distinct short ids, does not
come back. -/
theorem rebuild_long_fails : ∃ (crypto : Crypto) (params : Consensus.Params)
    (object checked : BlockObject crypto params) (cmpctblock : CBlockHeaderAndShortTxIDs)
    (layout : BucketLayout) (vTxHashes : List (Uint256 × CTransaction)),
    checkBlock object true true = .ok checked ∧ ofBlock crypto object.block 0 true = some cmpctblock ∧
    Relayed crypto object.block 0 true layout vTxHashes [] ∧
    (object.block.vtx.map (encodedID crypto object.block 0 true)).Nodup ∧
    ∀ fuel, rebuild crypto params layout fuel cmpctblock vTxHashes [] ≠ .ok object.block := by
  have limit : 0x10000 ≤ 0x10000 := le_refl _
  have accepted := accepted limit
  have relayed := relayed limit
  obtain ⟨checked, passed, _⟩ := checkBlock_of_body ⟨block 0x10000, false, (absurd · Bool.false_ne_true)⟩ accepted
  refine ⟨_, _, _, checked, _, _, _, passed, rfl, relayed, encodedIDs_nodup limit, ?_⟩
  intro fuel ran
  have narrow := rebuild_narrow accepted rfl relayed ran
  have length : (block 0x10000).vtx.length = 0x10000 + 1 := length_vtx _
  omega

/-! What FillBlock accepts. -/

section Commits
open Merkle MerkleTree

variable {crypto : Crypto} {block : CBlock} {object object' : PartiallyDownloadedBlock}
  {vtx_missing : List CTransaction} {filled : BlockObject crypto params}

end Commits

namespace ThreeLeaves

def crypto : Crypto := Merkle.RepeatedLeaf.crypto

def vtx : List CTransaction := [coinbase, txAt ⟨Uint256.filled 7, 0⟩ 2, txAt ⟨Uint256.filled 8, 0⟩ 3]

def block : CBlock :=
  { LockTimes.block 0 with hashMerkleRoot := (Merkle.computeMerkleRoot crypto (vtx.map (getHash crypto))).1, vtx }

lemma accepted : checkBlockBody crypto .easy block true true = .ok () := by decide +kernel

end ThreeLeaves

end Dragonchain
