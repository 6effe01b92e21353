import Dragonchain.BlockCheck

/-!
The difficulty rule of pow.cpp, the work of a block (chain.cpp), and the proof-of-work
hash that a CBlockHeader object keeps once it has been computed (primitives/block.cpp).
Values of arith_uint256 are natural numbers, reduced where the source reduces them.
-/

namespace Dragonchain

open Serialization

/-- The parameters of Consensus::Params that only the difficulty rule reads. -/
structure PowParams where
  fPowAllowMinDifficultyBlocks : Bool
  fPowNoRetargeting : Bool
  nPowTargetSpacing : Int
  nPowAllowMinDifficultyBlocksAfterHeight : Option Nat
  nPowAveragingWindow : Nat
  nPowMaxAdjustDown : Int
  nPowMaxAdjustUp : Int

namespace PowParams

variable (pow : PowParams)

def averagingWindowTimespan : Int := pow.nPowAveragingWindow * pow.nPowTargetSpacing

def minActualTimespan : Int := (pow.averagingWindowTimespan * (100 - pow.nPowMaxAdjustUp)).tdiv 100

def maxActualTimespan : Int := (pow.averagingWindowTimespan * (100 + pow.nPowMaxAdjustDown)).tdiv 100

end PowParams

def bits (value : Nat) : Nat := if value = 0 then 0 else value.log2 + 1

/-- arith_uint256::GetCompact without the sign, which no caller asks for. -/
def getCompact (value : Nat) : UInt32 :=
  let nSize := (bits value + 7) / 8
  let nCompact := if nSize ≤ 3 then value * 2 ^ (8 * (3 - nSize)) else value / 2 ^ (8 * (nSize - 3))
  -- bit 23 is the sign, so a mantissa that uses it moves down by a byte
  if nCompact.testBit 23 then .ofNat (nCompact / 2 ^ 8 + (nSize + 1) * 2 ^ 24)
  else .ofNat (nCompact + nSize * 2 ^ 24)

def getBlockProof (nBits : UInt32) : Nat :=
  let (bnTarget, fNegative, fOverflow) := setCompact nBits
  if fNegative || fOverflow || bnTarget == 0 then 0
  else (2 ^ 256 - 1 - bnTarget) / (bnTarget + 1) + 1

section Difficulty
variable (params : Consensus.Params) (pow : PowParams)

def calculateNextWorkRequired (bnAvg : Nat) (nLastBlockTime nFirstBlockTime : Int) : UInt32 :=
  let timespan := pow.averagingWindowTimespan
  let nActualTimespan := timespan + (nLastBlockTime - nFirstBlockTime - timespan).tdiv 4
  let nActualTimespan := max nActualTimespan pow.minActualTimespan
  let nActualTimespan := min nActualTimespan pow.maxActualTimespan
  -- the product takes the timespan as a uint32_t
  let bnNew := bnAvg / timespan.toNat * (nActualTimespan % 2 ^ 32).toNat % 2 ^ 256
  getCompact (min bnNew (UintToArith256 params.powLimit))

def getNextWorkRequired (pindexLast : Ancestry) (pblock : CBlockHeader) : UInt32 :=
  let nProofOfWorkLimit := getCompact (UintToArith256 params.powLimit)
  match pindexLast with
  | [] => nProofOfWorkLimit
  | last :: _ =>
    let late := (last.header.nTime.toNat : Int) + pow.nPowTargetSpacing * 6
    if pow.nPowAllowMinDifficultyBlocksAfterHeight.any (fun height => pindexLast.nHeight ≥ height)
        && (pblock.nTime.toNat : Int) > late then nProofOfWorkLimit
    else
      let window := pindexLast.take pow.nPowAveragingWindow
      let bnTot := window.foldl (fun bnTot entry => (bnTot + (setCompact entry.header.nBits).1) % 2 ^ 256) 0
      let pindexFirst : Ancestry := pindexLast.drop pow.nPowAveragingWindow
      if pindexFirst.isEmpty then nProofOfWorkLimit
      else if pow.fPowNoRetargeting && pow.fPowAllowMinDifficultyBlocks then last.header.nBits
      else calculateNextWorkRequired params pow (bnTot / pow.nPowAveragingWindow)
        pindexLast.getMedianTimePast pindexFirst.getMedianTimePast

end Difficulty

/-- Difficulty that stays at the limit for the first blocks, for closed examples. -/
def PowParams.steady : PowParams where
  fPowAllowMinDifficultyBlocks := true
  fPowNoRetargeting := true
  nPowTargetSpacing := 5
  nPowAllowMinDifficultyBlocksAfterHeight := none
  nPowAveragingWindow := 17
  nPowMaxAdjustDown := 0
  nPowMaxAdjustUp := 0

/-- The cache members of CBlockHeader; `none` is cache_init = false. -/
structure PoWCache where
  cache_block_hash : Uint256
  cache_PoW_hash : Uint256
  deriving DecidableEq

/-- CBlockHeader::GetPoWHash_cached, with the cache it leaves behind. -/
def getPoWHash_cached (crypto : Crypto) (header : CBlockHeader) (cache : Option PoWCache) :
    Uint256 × Option PoWCache :=
  let block_hash := getBlockHash crypto header
  let computed := getPoWHash crypto header
  match cache with
  | some held =>
    if block_hash ≠ held.cache_block_hash then (computed, some ⟨block_hash, computed⟩)
    else (held.cache_PoW_hash, cache)
  | none => (computed, some ⟨block_hash, computed⟩)

/-- A cache holds the two hashes of one header that was seen. -/
def CacheOf (crypto : Crypto) (seen : CBlockHeader → Prop) (cache : Option PoWCache) : Prop :=
  ∀ held ∈ cache, ∃ header, seen header ∧
    held.cache_block_hash = getBlockHash crypto header ∧ held.cache_PoW_hash = getPoWHash crypto header

section Cache
variable {crypto : Crypto} {seen : CBlockHeader → Prop} {header : CBlockHeader} {cache : Option PoWCache}

/-- While no two headers that were seen share a block hash, a cache is never stale. -/
lemma getPoWHash_cached_eq (distinct : Set.InjOn (getBlockHash crypto) {header | seen header}) (known : seen header)
    (sound : CacheOf crypto seen cache) :
    (getPoWHash_cached crypto header cache).1 = getPoWHash crypto header := by
  cases cache with
  | none => rfl
  | some held =>
    simp only [getPoWHash_cached]
    split
    · rfl
    · rename_i same
      obtain ⟨other, listed, hash, work⟩ := sound held rfl
      have equal : header = other := distinct known listed (by rw [← hash]; exact not_not.mp same)
      rw [equal, work]

lemma getPoWHash_cached_sound (known : seen header)
    (sound : CacheOf crypto seen cache) : CacheOf crypto seen (getPoWHash_cached crypto header cache).2 := by
  have fresh : CacheOf crypto seen (some ⟨getBlockHash crypto header, getPoWHash crypto header⟩) := by
    rintro held ⟨⟩
    exact ⟨header, known, rfl, rfl⟩
  cases cache with
  | none => exact fresh
  | some held =>
    simp only [getPoWHash_cached]
    split
    · exact fresh
    · exact sound

end Cache

end Dragonchain
