import Mathlib.Data.List.AList
import Dragonchain.Script

/-!
CCoinsViewCache of coins.h and coins.cpp. A cache keeps its entries in an
unordered map and reads through to the view below it, which may be a cache as
well, so the state is a stack of caches over one base view. Reading is not pure:
a miss copies the coin into every cache on the way. The stack is a list whose
head is the cache the calls are made on.
-/

namespace Dragonchain.Coins

open Script

structure Coin where
  out : CTxOut
  fCoinBase : Bool
  nHeight : BitVec 31
  deriving DecidableEq

namespace Coin

def empty : Coin := ⟨CTxOut.null, false, 0⟩

variable (coin : Coin)

def isSpent : Bool := coin.out.isNull

/-- The coin itself while unspent. -/
def unspent : Option Coin := if coin.isSpent then none else some coin

/-- memusage::DynamicUsage of the scriptPubKey, a prevector<28> holding just its bytes. -/
def dynamicMemoryUsage : UInt64 :=
  let size := coin.out.scriptPubKey.length
  if size ≤ 28 then 0 else UInt64.ofNat ((size + 31) / 16 * 16)

end Coin

structure CCoinsCacheEntry where
  coin : Coin := Coin.empty
  dirty : Bool := false
  fresh : Bool := false
  deriving DecidableEq

abbrev CCoinsMap := AList fun _ : COutPoint => CCoinsCacheEntry
abbrev CoinsEntry := Sigma fun _ : COutPoint => CCoinsCacheEntry

structure CCoinsViewCache where
  cacheCoins : CCoinsMap := ∅
  hashBlock : Uint256 := Uint256.null
  cachedCoinsUsage : UInt64 := 0

/-- The two std::logic_errors of coins.cpp and the assertion of AddCoin. -/
inductive CoinsFault where
  | addSpentCoin
  | replacesNonPrunedEntry
  | freshFlagMisapplied
  deriving DecidableEq

/-- What coins.h asks of the view below the lowest cache: GetCoin succeeds on
unspent coins only, and BatchWrite stores the dirty entries it is given. -/
class CCoinsView (β : Type) where
  getCoin : β → COutPoint → Option Coin
  getBestBlock : β → Uint256
  batchWrite : β → List CoinsEntry → Uint256 → β
  getCoin_unspent : ∀ view outpoint coin, getCoin view outpoint = some coin → coin.isSpent = false
  getCoin_batchWrite : ∀ view mapCoins hashBlock outpoint, mapCoins.NodupKeys →
    getCoin (batchWrite view mapCoins hashBlock) outpoint =
      match mapCoins.dlookup outpoint with
      | some entry => if entry.dirty then entry.coin.unspent else getCoin view outpoint
      | none => getCoin view outpoint

/-- An order in which the unordered map visits its entries. -/
structure Iteration where
  visit : CCoinsMap → List CoinsEntry
  perm : ∀ mapCoins : CCoinsMap, (visit mapCoins).Perm mapCoins.entries

section Caches
variable {β : Type} [CCoinsView β] (cache : CCoinsViewCache)

/-- FetchCoin, given the answer of base->GetCoin and the caches below after it. -/
def fetchFrom (below : List CCoinsViewCache) (outpoint : COutPoint)
    (answer : Option Coin × List CCoinsViewCache) : Option CCoinsCacheEntry × List CCoinsViewCache :=
  match cache.cacheCoins.lookup outpoint with
  | some entry => (some entry, cache :: below)
  | none =>
    match answer with
    | (none, below) => (none, cache :: below)
    | (some tmp, below) =>
      let entry : CCoinsCacheEntry := { coin := tmp, fresh := tmp.isSpent }
      (some entry, { cache with
        cacheCoins := cache.cacheCoins.insert outpoint entry
        cachedCoinsUsage := cache.cachedCoinsUsage + tmp.dynamicMemoryUsage } :: below)

def getCoin (base : β) : List CCoinsViewCache → COutPoint → Option Coin × List CCoinsViewCache
  | [], outpoint => (CCoinsView.getCoin base outpoint, [])
  | cache :: below, outpoint =>
    let (entry, caches) := fetchFrom cache below outpoint (getCoin base below outpoint)
    (entry.bind fun entry => entry.coin.unspent, caches)

variable (base : β)

def fetchCoin : List CCoinsViewCache → COutPoint → Option CCoinsCacheEntry × List CCoinsViewCache
  | [], _ => (none, [])
  | cache :: below, outpoint => fetchFrom cache below outpoint (getCoin base below outpoint)

variable (caches : List CCoinsViewCache)

def haveCoin (outpoint : COutPoint) : Bool × List CCoinsViewCache :=
  let (entry, caches) := fetchCoin base caches outpoint
  (entry.any fun entry => !entry.coin.isSpent, caches)

def accessCoin (outpoint : COutPoint) : Coin × List CCoinsViewCache :=
  let (entry, caches) := fetchCoin base caches outpoint
  ((entry.map CCoinsCacheEntry.coin).getD Coin.empty, caches)

variable (outpoint : COutPoint)

/-- AddCoin. A throw leaves the usage already lowered, so the cache is returned with it. -/
def addCoin (coin : Coin) (possible_overwrite : Bool) : Except CoinsFault Unit × CCoinsViewCache :=
  if coin.isSpent then (.error .addSpentCoin, cache)
  else if isUnspendable coin.out.scriptPubKey then (.ok (), cache)
  else
    let found := cache.cacheCoins.lookup outpoint
    let it := found.getD {}
    let usage := match found with
      | none => cache.cachedCoinsUsage
      | some entry => cache.cachedCoinsUsage - entry.coin.dynamicMemoryUsage
    if !possible_overwrite && !it.coin.isSpent then
      (.error .replacesNonPrunedEntry, { cache with cachedCoinsUsage := usage })
    else
      let fresh := !possible_overwrite && !it.dirty
      (.ok (), { cache with
        cacheCoins := cache.cacheCoins.insert outpoint { coin, dirty := true, fresh := it.fresh || fresh }
        cachedCoinsUsage := usage + coin.dynamicMemoryUsage })

def spendEntry (entry : CCoinsCacheEntry) : CCoinsViewCache :=
  let usage := cache.cachedCoinsUsage - entry.coin.dynamicMemoryUsage
  if entry.fresh then
    { cache with cacheCoins := cache.cacheCoins.erase outpoint, cachedCoinsUsage := usage }
  else
    { cache with
      cacheCoins := cache.cacheCoins.insert outpoint { entry with coin := Coin.empty, dirty := true }
      cachedCoinsUsage := usage }

def spendCoin (base : β) (caches : List CCoinsViewCache) (outpoint : COutPoint) :
    Option Coin × List CCoinsViewCache :=
  match fetchCoin base caches outpoint with
  | (some entry, cache :: below) => (some entry.coin, spendEntry cache outpoint entry :: below)
  | (_, caches) => (none, caches)

def uncache : CCoinsViewCache :=
  match cache.cacheCoins.lookup outpoint with
  | some entry =>
    if !entry.dirty && !entry.fresh then
      { cache with
        cacheCoins := cache.cacheCoins.erase outpoint
        cachedCoinsUsage := cache.cachedCoinsUsage - entry.coin.dynamicMemoryUsage }
    else cache
  | none => cache

/-- One iteration of the loop of CCoinsViewCache::BatchWrite. -/
def batchWriteEntry (it : CoinsEntry) : Except CoinsFault CCoinsViewCache :=
  let ⟨outpoint, entry⟩ := it
  if !entry.dirty then .ok cache
  else
    match cache.cacheCoins.lookup outpoint with
    | none =>
      if entry.fresh && entry.coin.isSpent then .ok cache
      else .ok { cache with
        cacheCoins := cache.cacheCoins.insert outpoint { coin := entry.coin, dirty := true, fresh := entry.fresh }
        cachedCoinsUsage := cache.cachedCoinsUsage + entry.coin.dynamicMemoryUsage }
    | some itUs =>
      if entry.fresh && !itUs.coin.isSpent then .error .freshFlagMisapplied
      else if itUs.fresh && entry.coin.isSpent then .ok { cache with
        cacheCoins := cache.cacheCoins.erase outpoint
        cachedCoinsUsage := cache.cachedCoinsUsage - itUs.coin.dynamicMemoryUsage }
      else .ok { cache with
        cacheCoins := cache.cacheCoins.insert outpoint { itUs with coin := entry.coin, dirty := true }
        cachedCoinsUsage := cache.cachedCoinsUsage - itUs.coin.dynamicMemoryUsage + entry.coin.dynamicMemoryUsage }

def batchWrite (mapCoins : List CoinsEntry) (hashBlock : Uint256) : Except CoinsFault CCoinsViewCache := do
  let cache ← mapCoins.foldlM batchWriteEntry cache
  pure { cache with hashBlock }

def flush (order : Iteration) (base : β) : List CCoinsViewCache → Except CoinsFault (List CCoinsViewCache × β)
  | [] => .ok ([], base)
  | [cache] =>
    .ok ([{ cache with cacheCoins := ∅, cachedCoinsUsage := 0 }],
      CCoinsView.batchWrite base (order.visit cache.cacheCoins) cache.hashBlock)
  | cache :: parent :: below => do
    let parent ← batchWrite parent (order.visit cache.cacheCoins) cache.hashBlock
    pure ({ cache with cacheCoins := ∅, cachedCoinsUsage := 0 } :: parent :: below, base)

/-- GetBestBlock, which remembers what the view below answered. -/
def getBestBlock (base : β) : List CCoinsViewCache → Uint256 × List CCoinsViewCache
  | [] => (CCoinsView.getBestBlock base, [])
  | cache :: below =>
    if cache.hashBlock.isNull then
      let (hashBlock, below) := getBestBlock base below
      (hashBlock, { cache with hashBlock } :: below)
    else (cache.hashBlock, cache :: below)

def setBestBlock (hashBlock : Uint256) : CCoinsViewCache := { cache with hashBlock }

end Caches

end Dragonchain.Coins
