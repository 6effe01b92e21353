import Dragonchain.Coins
import Dragonchain.WriteLog

/-!
CCoinsViewDB of txdb.cpp. BatchWrite hands the database a sequence of batches,
each applied atomically: the first one marks the database as being between two
tips, the last one marks it as consistent again. A batch is written out when its
size estimate passes -dbbatchsize, which `full` stands for.
-/

namespace Dragonchain.Coins

open List Function

structure CCoinsViewDB where
  coins : COutPoint → Option Coin
  bestBlock : Option Uint256
  headBlocks : Option (List Uint256)
  unspent : ∀ outpoint coin, coins outpoint = some coin → coin.isSpent = false

/-- The operations of CDBBatch on the chainstate keys; a spent coin is erased. -/
inductive DBWrite where
  | coin (outpoint : COutPoint) (coin : Coin)
  | eraseBestBlock
  | writeBestBlock (hashBlock : Uint256)
  | eraseHeadBlocks
  | writeHeadBlocks (heads : List Uint256)

lemma Coin.unspent_eq_some {coin result : Coin} (held : coin.unspent = some result) :
    result = coin ∧ coin.isSpent = false := by
  unfold Coin.unspent at held
  split at held
  · cases held
  · rename_i live
    cases held
    exact ⟨rfl, by simpa using live⟩

namespace CCoinsViewDB

def write (db : CCoinsViewDB) : DBWrite → CCoinsViewDB
  | .coin outpoint coin =>
    { db with
      coins := Function.update db.coins outpoint coin.unspent
      unspent := by
        intro other found held
        by_cases same : other = outpoint
        · subst same
          rw [update_self] at held
          obtain ⟨rfl, live⟩ := Coin.unspent_eq_some held
          exact live
        · rw [update_of_ne same] at held
          exact db.unspent other found held }
  | .eraseBestBlock => { db with bestBlock := none }
  | .writeBestBlock hashBlock => { db with bestBlock := some hashBlock }
  | .eraseHeadBlocks => { db with headBlocks := none }
  | .writeHeadBlocks heads => { db with headBlocks := some heads }

def empty : CCoinsViewDB := ⟨fun _ => none, none, none, by simp⟩

def writeBatch (db : CCoinsViewDB) (batch : List DBWrite) : CCoinsViewDB := batch.foldl write db

def getBestBlock (db : CCoinsViewDB) : Uint256 := db.bestBlock.getD Uint256.null

def getHeadBlocks (db : CCoinsViewDB) : List Uint256 := db.headBlocks.getD []

/-- The loop of BatchWrite: the batches written on the way and the one still open. -/
def fillBatches (full : List DBWrite → Bool) : List CoinsEntry → List DBWrite → List (List DBWrite) × List DBWrite
  | [], batch => ([], batch)
  | it :: rest, batch =>
    let batch := if it.2.dirty then batch ++ [.coin it.1 it.2.coin] else batch
    if full batch then
      let (written, last) := fillBatches full rest []
      (batch :: written, last)
    else fillBatches full rest batch

def oldTip (db : CCoinsViewDB) : Uint256 :=
  if db.getBestBlock.isNull && db.getHeadBlocks.length == 2 then
    db.getHeadBlocks.getD 1 Uint256.null
  else db.getBestBlock

def batchWriteAsserts (db : CCoinsViewDB) (hashBlock : Uint256) : Bool :=
  !hashBlock.isNull &&
    (!(db.getBestBlock.isNull && db.getHeadBlocks.length == 2)
      || db.getHeadBlocks.head? == some hashBlock)

def batches (full : List DBWrite → Bool) (db : CCoinsViewDB) (mapCoins : List CoinsEntry)
    (hashBlock : Uint256) : List (List DBWrite) :=
  let (written, last) := fillBatches full mapCoins [.eraseBestBlock, .writeHeadBlocks [hashBlock, db.oldTip]]
  written ++ [last ++ [.eraseHeadBlocks, .writeBestBlock hashBlock]]

def batchWrite (full : List DBWrite → Bool) (db : CCoinsViewDB) (mapCoins : List CoinsEntry)
    (hashBlock : Uint256) : CCoinsViewDB :=
  (batches full db mapCoins hashBlock).foldl writeBatch db

end CCoinsViewDB

def coinWrites (writes : List DBWrite) : List (COutPoint × Option Coin) :=
  writes.filterMap fun
    | .coin outpoint coin => some (outpoint, coin.unspent)
    | _ => none

def dirtyWrites (mapCoins : List CoinsEntry) : List (COutPoint × Option Coin) :=
  (mapCoins.filter fun it => it.2.dirty).map fun it => (it.1, it.2.coin.unspent)

lemma coinWrites_append (front back : List DBWrite) :
    coinWrites (front ++ back) = coinWrites front ++ coinWrites back :=
  filterMap_append

variable (full : List DBWrite → Bool) (db : CCoinsViewDB) (mapCoins : List CoinsEntry)
  {hashBlock : Uint256} (batch : List DBWrite)

lemma writeBatch_coins : (db.writeBatch batch).coins = WriteLog.replay db.coins (coinWrites batch) := by
  induction batch generalizing db with
  | nil => rfl
  | cons write rest ih =>
    have step := ih (db.write write)
    cases write <;> exact step

lemma writeBatches_coins (batches : List (List DBWrite)) :
    (batches.foldl CCoinsViewDB.writeBatch db).coins = WriteLog.replay db.coins (coinWrites batches.flatten) := by
  induction batches generalizing db with
  | nil => rfl
  | cons batch rest ih =>
    rw [foldl_cons, ih, writeBatch_coins, flatten_cons, coinWrites_append, WriteLog.replay_append]

def entryWrites (mapCoins : List CoinsEntry) : List DBWrite :=
  (mapCoins.filter fun it => it.2.dirty).map fun it => .coin it.1 it.2.coin

lemma coinWrites_entryWrites : coinWrites (entryWrites mapCoins) = dirtyWrites mapCoins := by
  simp only [coinWrites, entryWrites, dirtyWrites, filterMap_map]
  exact filterMap_eq_map_iff_forall_eq_some.mpr fun _ _ => rfl

/-- However the batches are cut, together they write the dirty entries in order. -/
lemma fillBatches_writes : (CCoinsViewDB.fillBatches full mapCoins batch).1.flatten
        ++ (CCoinsViewDB.fillBatches full mapCoins batch).2 = batch ++ entryWrites mapCoins := by
  induction mapCoins generalizing batch with
  | nil => simp [CCoinsViewDB.fillBatches, entryWrites]
  | cons it rest ih =>
    have grown : (if it.2.dirty then batch ++ [.coin it.1 it.2.coin] else batch)
        ++ entryWrites rest = batch ++ entryWrites (it :: rest) := by
      by_cases dirty : it.2.dirty = true
      · simp [entryWrites, dirty]
      · simp [entryWrites, dirty]
    rw [← grown]
    simp only [CCoinsViewDB.fillBatches]
    generalize (if it.2.dirty then batch ++ [DBWrite.coin it.1 it.2.coin] else batch) = next
    by_cases cut : full next = true
    · simp only [cut, if_true, flatten_cons, append_assoc]
      rw [ih [], nil_append]
    · simp only [cut]
      exact ih next

lemma batches_flatten : (db.batches full mapCoins hashBlock).flatten =
      [.eraseBestBlock, .writeHeadBlocks [hashBlock, db.oldTip]] ++ entryWrites mapCoins
        ++ [.eraseHeadBlocks, .writeBestBlock hashBlock] := by
  rw [← fillBatches_writes full mapCoins]
  simp [CCoinsViewDB.batches]

lemma batches_writes : coinWrites (db.batches full mapCoins hashBlock).flatten = dirtyWrites mapCoins := by
  rw [batches_flatten, coinWrites_append, coinWrites_append, coinWrites_entryWrites]
  simp [coinWrites]

lemma batchWrite_coins :
    (db.batchWrite full mapCoins hashBlock).coins = WriteLog.replay db.coins (dirtyWrites mapCoins) := by
  rw [CCoinsViewDB.batchWrite, writeBatches_coins, batches_writes]

lemma replay_dirtyWrites {outpoint : COutPoint} (store : COutPoint → Option Coin) {mapCoins : List CoinsEntry}
    (nodup : mapCoins.NodupKeys) :
    WriteLog.replay store (dirtyWrites mapCoins) outpoint =
      match mapCoins.dlookup outpoint with
      | some entry => if entry.dirty then entry.coin.unspent else store outpoint
      | none => store outpoint := by
  induction mapCoins generalizing store with
  | nil => rfl
  | cons it rest ih =>
    obtain ⟨written, entry⟩ := it
    rw [nodupKeys_cons] at nodup
    have missing := dlookup_eq_none.mpr nodup.1
    by_cases same : outpoint = written
    · subst same
      rw [dlookup_cons_eq]
      have tail := fun start => ih start nodup.2
      simp only [missing] at tail
      by_cases dirty : entry.dirty = true
      · simp only [dirtyWrites, filter_cons, dirty, if_true, map_cons]
        exact (tail _).trans (update_self ..)
      · simp only [dirtyWrites, filter_cons, dirty]
        exact tail store
    · rw [dlookup_cons_ne _ _ same]
      by_cases dirty : entry.dirty = true
      · have step := ih (Function.update store written entry.coin.unspent) nodup.2
        rw [update_of_ne same] at step
        simpa [dirtyWrites, dirty, WriteLog.replay] using step
      · simpa [dirtyWrites, dirty] using ih store nodup.2

instance : CCoinsView CCoinsViewDB where
  getCoin db outpoint := db.coins outpoint
  getBestBlock := CCoinsViewDB.getBestBlock
  -- the outcome of a completed BatchWrite does not depend on where batches end
  batchWrite := CCoinsViewDB.batchWrite fun _ => false
  getCoin_unspent db := db.unspent
  getCoin_batchWrite db mapCoins hashBlock outpoint nodup := by
    rw [batchWrite_coins]
    exact replay_dirtyWrites db.coins nodup

end Dragonchain.Coins
