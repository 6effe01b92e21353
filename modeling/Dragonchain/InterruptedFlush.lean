import Dragonchain.CoinsRefinement

/-!
A flush into CCoinsViewDB that stops between two batches. The first batch marks
the database as being on its way from one tip to another, and from then on every coin is
still that of the old tip or already that of the new one. Only the last batch
takes the mark away.
-/

namespace Dragonchain.Coins

open WriteLog WriteBack List

variable {hashOld hashNew : Uint256} {db : CCoinsViewDB}

abbrev CoinsAt := COutPoint → Option Coin

structure AtTip (coins : CoinsAt) (hashBlock : Uint256) (db : CCoinsViewDB) : Prop where
  coins : db.coins = coins
  bestBlock : db.getBestBlock = hashBlock
  headBlocks : db.getHeadBlocks = []

structure InTransition (coinsOld coinsNew : CoinsAt) (hashOld hashNew : Uint256)
    (db : CCoinsViewDB) : Prop where
  coins : ∀ outpoint, db.coins outpoint = coinsOld outpoint ∨ db.coins outpoint = coinsNew outpoint
  bestBlock : db.getBestBlock = Uint256.null
  headBlocks : db.getHeadBlocks = [hashNew, hashOld]

/-- The first batches written hold the opening writes and the first of the entries. -/
lemma fillBatches_take (full : List DBWrite → Bool) (mapCoins : List CoinsEntry) (batch : List DBWrite) (n : Nat)
    (some_written : 0 < n) (enough : n ≤ (CCoinsViewDB.fillBatches full mapCoins batch).1.length) :
    ∃ k, ((CCoinsViewDB.fillBatches full mapCoins batch).1.take n).flatten =
      batch ++ (entryWrites mapCoins).take k := by
  induction mapCoins generalizing batch n with
  | nil =>
    rw [CCoinsViewDB.fillBatches, length_nil] at enough
    omega
  | cons it rest ih =>
    -- one entry more in the batch, and as many after it as before
    have grown : ∀ k, ∃ k', (if it.2.dirty then batch ++ [.coin it.1 it.2.coin] else batch)
        ++ (entryWrites rest).take k = batch ++ (entryWrites (it :: rest)).take k' := by
      intro k
      by_cases dirty : it.2.dirty = true
      · exact ⟨k + 1, by simp [entryWrites, dirty]⟩
      · exact ⟨k, by simp [entryWrites, dirty]⟩
    simp only [CCoinsViewDB.fillBatches] at enough ⊢
    generalize (if it.2.dirty then batch ++ [DBWrite.coin it.1 it.2.coin] else batch) = next at enough grown ⊢
    by_cases cut : full next = true
    · simp only [cut, if_true, length_cons] at enough ⊢
      obtain ⟨m, rfl⟩ : ∃ m, n = m + 1 := ⟨n - 1, by omega⟩
      rw [take_succ_cons, flatten_cons]
      by_cases only : m = 0
      · subst only
        obtain ⟨k', same⟩ := grown 0
        exact ⟨k', by simpa using same⟩
      · obtain ⟨k, taken⟩ := ih [] m (by omega) (by omega)
        obtain ⟨k', same⟩ := grown k
        exact ⟨k', by rw [taken, nil_append, same]⟩
    · simp only [cut] at enough ⊢
      obtain ⟨k, taken⟩ := ih next n some_written enough
      obtain ⟨k', same⟩ := grown k
      exact ⟨k', by rw [← same]; exact taken⟩

/-! What a sequence of batches leaves besides coins. -/

lemma writeBatches_eq {batches : List (List DBWrite)} :
    batches.foldl CCoinsViewDB.writeBatch db = db.writeBatch batches.flatten := by
  rw [CCoinsViewDB.writeBatch, foldl_flatten]
  rfl

lemma writeBatch_append (db : CCoinsViewDB) (front back : List DBWrite) :
    db.writeBatch (front ++ back) = (db.writeBatch front).writeBatch back :=
  foldl_append

lemma entryWrites_heads {writes : List DBWrite} {mapCoins : List CoinsEntry}
    (members : ∀ write ∈ writes, write ∈ entryWrites mapCoins) :
    (db.writeBatch writes).bestBlock = db.bestBlock ∧ (db.writeBatch writes).headBlocks = db.headBlocks := by
  induction writes generalizing db with
  | nil => exact ⟨rfl, rfl⟩
  | cons write rest ih =>
    have isCoin := members write mem_cons_self
    rw [entryWrites, mem_map] at isCoin
    obtain ⟨it, _, rfl⟩ := isCoin
    exact ih fun other member => members other (mem_cons_of_mem _ member)

variable {coinsOld coinsNew : CoinsAt}

/-- BatchWrite takes the old tip from the database, also in the middle of a transition. -/
lemma oldTip_eq (start : AtTip coinsOld hashOld db ∨ InTransition coinsOld coinsNew hashOld hashNew db) :
    db.oldTip = hashOld := by
  rcases start with atTip | between
  · simp [CCoinsViewDB.oldTip, atTip.headBlocks, atTip.bestBlock]
  · have unset : Uint256.null.isNull = true := by decide
    simp [CCoinsViewDB.oldTip, between.headBlocks, between.bestBlock, unset]

section Flush
variable {cache : CCoinsViewCache} (order : Iteration) {write : COutPoint × Option Coin}

lemma flushed_coins (coherent : Coherent db [cache]) (shown : content db [cache] = coinsNew) :
    replay db.coins (dirtyWrites (order.visit cache.cacheCoins)) = coinsNew := by
  obtain ⟨caches, flushed, ran, _, _, views⟩ := flush_onto_base db order cache coherent
  cases ran
  have below := (List.cons.inj (List.cons.inj views).2).1
  rw [shown] at below
  rw [← below, ← batchWrite_coins (fun _ => false) db _]
  rfl

lemma dirtyWrites_values (shown : content db [cache] = coinsNew)
    (member : write ∈ dirtyWrites (order.visit cache.cacheCoins)) : write.2 = coinsNew write.1 := by
  rw [dirtyWrites, mem_map] at member
  obtain ⟨it, listed, rfl⟩ := member
  have found : cache.cacheCoins.lookup it.1 = some it.2 := by
    rw [← visit_dlookup order]
    exact mem_dlookup (visit_nodup order _) (mem_filter.mp listed).1
  rw [← shown]
  simp [content, slots, found, slotOf]

lemma taken_values (shown : content db [cache] = coinsNew) (k : Nat)
    (member : write ∈ coinWrites ((entryWrites (order.visit cache.cacheCoins)).take k)) :
    write.2 = coinsNew write.1 := by
  apply dirtyWrites_values order shown
  rw [← coinWrites_entryWrites]
  exact ((take_sublist _ _).filterMap _).subset member

lemma interrupted_flush {n : Nat} (full : List DBWrite → Bool) (order : Iteration)
    (start : AtTip coinsOld hashOld db ∨ InTransition coinsOld coinsNew hashOld hashNew db)
    (coherent : Coherent db [cache]) (shown : content db [cache] = coinsNew) (some_written : 0 < n) :
    let batches := db.batches full (order.visit cache.cacheCoins) hashNew
    let final := (batches.take n).foldl CCoinsViewDB.writeBatch db
    AtTip coinsNew hashNew final ∨ n < batches.length ∧ InTransition coinsOld coinsNew hashOld hashNew final := by
  intro batches final
  have mixed : ∀ outpoint, db.coins outpoint = coinsOld outpoint ∨ db.coins outpoint = coinsNew outpoint := by
    rcases start with atTip | between
    · intro outpoint
      exact .inl (congrFun atTip.coins outpoint)
    · exact between.coins
  have final_eq : final = db.writeBatch (batches.take n).flatten := writeBatches_eq
  by_cases stopped : n < batches.length
  · right
    refine ⟨stopped, ?_⟩
    have lengths : batches.length = (CCoinsViewDB.fillBatches full (order.visit cache.cacheCoins)
        [.eraseBestBlock, .writeHeadBlocks [hashNew, db.oldTip]]).1.length + 1 := by
      simp [batches, CCoinsViewDB.batches]
    obtain ⟨k, taken⟩ := fillBatches_take full (order.visit cache.cacheCoins)
      [.eraseBestBlock, .writeHeadBlocks [hashNew, db.oldTip]] n some_written (by omega)
    have writes : (batches.take n).flatten = [.eraseBestBlock, .writeHeadBlocks [hashNew, db.oldTip]]
          ++ (entryWrites (order.visit cache.cacheCoins)).take k := by
      rw [← taken]
      simp only [batches, CCoinsViewDB.batches]
      rw [take_append_of_le_length (by omega)]
    rw [writes, writeBatch_append, oldTip_eq start] at final_eq
    obtain ⟨best, heads⟩ := entryWrites_heads
      fun write (member : write ∈ (entryWrites (order.visit cache.cacheCoins)).take k) => mem_of_mem_take member
    rw [← final_eq] at best heads
    refine ⟨fun outpoint => ?_, ?_, ?_⟩
    · have toward := replay_toward db.coins coinsNew
        (fun write member => taken_values order shown k member) outpoint
      rw [final_eq, writeBatch_coins]
      rcases toward with kept | moved
      · rcases mixed outpoint with old | new
        · exact .inl (kept.trans old)
        · exact .inr (kept.trans new)
      · exact .inr moved
    · rw [CCoinsViewDB.getBestBlock, best]
      rfl
    · rw [CCoinsViewDB.getHeadBlocks, heads]
      rfl
  · left
    rw [take_of_length_le (by omega), batches_flatten, writeBatch_append] at final_eq
    refine ⟨?_, ?_, ?_⟩
    · have whole : final = db.batchWrite full (order.visit cache.cacheCoins) hashNew :=
        congrArg (List.foldl CCoinsViewDB.writeBatch db) (take_of_length_le (by omega))
      rw [whole, batchWrite_coins, flushed_coins order coherent shown]
    · rw [final_eq]
      rfl
    · rw [final_eq]
      rfl

end Flush

end Dragonchain.Coins
