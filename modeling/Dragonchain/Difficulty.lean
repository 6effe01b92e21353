import Mathlib.Algebra.Order.BigOperators.Group.List
import Dragonchain.Pow

/-!
The difficulty rule over a whole chain. A target that went through the compact format is
not larger than before, so every nBits that the rule returns decodes to at most the limit;
510 such targets fit into 256 bits together, and so does one of them times the clamped
timespan. All the arithmetic of the rule is therefore exact.
-/

namespace Dragonchain

open List Nat

/-! The compact format. -/

variable {value width nWord nSize bnAvg : Nat}

/-- The mantissa and the size that GetCompact packs. -/
def compactParts (value : Nat) : Nat × Nat :=
  let nSize := (bits value + 7) / 8
  let nCompact := if nSize ≤ 3 then value * 2 ^ (8 * (3 - nSize)) else value / 2 ^ (8 * (nSize - 3))
  if nCompact.testBit 23 then (nCompact / 2 ^ 8, nSize + 1) else (nCompact, nSize)

lemma getCompact_eq (value : Nat) :
    getCompact value = .ofNat ((compactParts value).1 + (compactParts value).2 * 2 ^ 24) := by
  unfold getCompact compactParts
  dsimp only
  split_ifs <;> rfl

lemma lt_pow_bits (value : Nat) : value < 2 ^ bits value := by
  unfold bits
  split
  · simp_all
  · exact lt_log2_self

lemma bits_le (fits : value < 2 ^ width) : bits value ≤ width := by
  unfold bits
  split
  · exact zero_le _
  · rename_i positive
    exact (log2_lt positive).mpr fits

def compactValue (nWord nSize : Nat) : Nat :=
  if nSize ≤ 3 then nWord / 2 ^ (8 * (3 - nSize)) else nWord * 2 ^ (8 * (nSize - 3))

variable (nCompact : UInt32)

lemma setCompact_value : (setCompact nCompact).1 =
    compactValue (nCompact.toNat % 2 ^ 23) (nCompact.toNat / 2 ^ 24) % 2 ^ 256 := by
  have word : nCompact.toNat % 2 ^ 23 < 2 ^ 23 := mod_lt _ (by decide)
  unfold setCompact compactValue
  dsimp only
  split_ifs with small
  · exact (mod_eq_of_lt (lt_of_le_of_lt (Nat.div_le_self _ _) (by omega))).symm
  · rfl

lemma setCompact_parts (mantissa : nWord < 2 ^ 23) (size : nSize ≤ 32 ∨ (nSize = 33 ∧ nWord ≤ 0xffff)) :
    setCompact (.ofNat (nWord + nSize * 2 ^ 24)) = (compactValue nWord nSize % 2 ^ 256, false, false) := by
  have word : (UInt32.ofNat (nWord + nSize * 2 ^ 24)).toNat = nWord + nSize * 2 ^ 24 := by
    rw [UInt32.toNat_ofNat', mod_eq_of_lt (by omega)]
  have high : (nWord + nSize * 2 ^ 24) / 2 ^ 24 = nSize := by omega
  have low : (nWord + nSize * 2 ^ 24) % 2 ^ 23 = nWord := by omega
  have sign : (nWord + nSize * 2 ^ 24).testBit 23 = false := by
    rw [testBit_eq_decide_div_mod_eq]
    simp only [decide_eq_false_iff_not]
    omega
  refine Prod.ext (by rw [setCompact_value, word, high, low]) ?_
  simp only [setCompact, word, high, low, sign, Bool.and_false, Prod.mk.injEq, true_and]
  split <;> simp <;> omega

lemma two_pow_bits_le (positive : value ≠ 0) : 2 ^ (bits value - 1) ≤ value := by
  rw [bits, if_neg positive]
  exact log2_self_le positive

/-- GetCompact drops bytes of a value from 2^23 on, and as few as it can. -/
lemma compactParts_spec (fits : value < 2 ^ 256) : (compactParts value).1 < 2 ^ 23 ∧
    ((compactParts value).2 ≤ 32 ∨ ((compactParts value).2 = 33 ∧ (compactParts value).1 ≤ 0xffff)) ∧
    ∃ k, compactValue (compactParts value).1 (compactParts value).2 = value / 2 ^ (8 * k) * 2 ^ (8 * k) ∧
      (k = 0 ∨ 2 ^ (15 + 8 * k) ≤ value) := by
  have width := bits_le fits
  have below := lt_pow_bits value
  have above : value ≠ 0 → _ := two_pow_bits_le
  generalize size : (bits value + 7) / 8 = nSize
  have sized : value < 2 ^ (8 * nSize) := lt_of_lt_of_le below (Nat.pow_le_pow_right (by decide) (by omega))
  have top {mantissa : Nat} : mantissa.testBit 23 = true ↔ mantissa / 2 ^ 23 % 2 = 1 := by
    rw [testBit_eq_decide_div_mod_eq, decide_eq_true_iff]
  by_cases small : nSize ≤ 3
  · -- the mantissa holds every byte, and only three bytes with the sign bit lose one
    have four : nSize = 0 ∨ nSize = 1 ∨ nSize = 2 ∨ nSize = 3 := by omega
    have whole : compactValue (compactParts value).1 (compactParts value).2 =
        if 2 ^ 23 ≤ value then value / 2 ^ 8 * 2 ^ 8 else value := by
      rcases four with rfl | rfl | rfl | rfl <;> simp only [compactParts, size, top] <;> split_ifs <;>
        simp [compactValue] <;> omega
    refine ⟨?_, .inl ?_, ?_⟩
    · rcases four with rfl | rfl | rfl | rfl <;> simp only [compactParts, size, top] <;> split_ifs <;> simp <;> omega
    · rcases four with rfl | rfl | rfl | rfl <;> simp only [compactParts, size, top] <;> split_ifs <;> simp
    · rw [whole]
      split_ifs with large
      · exact ⟨1, rfl, .inr large⟩
      · exact ⟨0, by simp, .inl rfl⟩
  · have least : 2 ^ (8 * (nSize - 1)) ≤ value := by
      refine le_trans (Nat.pow_le_pow_right (by decide) (by omega)) (above ?_)
      rintro rfl
      simp [bits] at size
      omega
    have shift : 8 * nSize = 24 + 8 * (nSize - 3) := by omega
    have bounded : value / 2 ^ (8 * (nSize - 3)) < 2 ^ 24 := by
      rwa [Nat.div_lt_iff_lt_mul (Nat.two_pow_pos _), ← pow_add, ← shift]
    have wider : 2 ^ 8 * 2 ^ (8 * (nSize - 3)) = 2 ^ (8 * (nSize - 2)) := by
      rw [← pow_add]
      congr 1
      omega
    simp only [compactParts, size, if_neg small, top]
    split_ifs with sign
    · refine ⟨by dsimp only; omega, by dsimp only; omega, nSize - 2, ?_, .inr ?_⟩
      · rw [compactValue, if_neg (by omega), Nat.div_div_eq_div_mul, mul_comm (2 ^ _), wider]
        rfl
      · have high : 2 ^ 23 ≤ value / 2 ^ (8 * (nSize - 3)) := by
          generalize value / 2 ^ (8 * (nSize - 3)) = mantissa at sign
          omega
        rw [Nat.le_div_iff_mul_le (Nat.two_pow_pos _), ← pow_add] at high
        exact le_trans (Nat.pow_le_pow_right (by decide) (by omega)) high
    · refine ⟨by dsimp only; omega, .inl (by dsimp only; omega), nSize - 3, ?_, .inr ?_⟩
      · rw [compactValue, if_neg small]
      · exact le_trans (Nat.pow_le_pow_right (by decide) (by omega)) least

/-- What GetCompact packs decodes without sign and overflow, to the value without the bytes
that were dropped. -/
lemma setCompact_getCompact (fits : value < 2 ^ 256) :
    ∃ k, setCompact (getCompact value) = (value / 2 ^ (8 * k) * 2 ^ (8 * k), false, false) ∧
      (k = 0 ∨ 2 ^ (15 + 8 * k) ≤ value) := by
  obtain ⟨mantissa, size, k, kept, least⟩ := compactParts_spec fits
  refine ⟨k, ?_, least⟩
  rw [getCompact_eq, setCompact_parts mantissa size, kept, mod_eq_of_lt]
  exact lt_of_le_of_lt (div_mul_le_self _ _) fits

/-- A value that was decoded is less than 2^23 times a number of bytes. -/
lemma setCompact_bytes : ∃ nWord < 2 ^ 23, ∃ e, (setCompact nCompact).1 = nWord * 2 ^ (8 * e) := by
  have word : nCompact.toNat % 2 ^ 23 < 2 ^ 23 := mod_lt _ (by decide)
  rw [setCompact_value]
  generalize nCompact.toNat % 2 ^ 23 = nWord at word
  unfold compactValue
  split_ifs
  · refine ⟨_, ?_, 0, (mul_one _).symm⟩
    exact lt_of_le_of_lt (mod_le _ _) (lt_of_le_of_lt (Nat.div_le_self _ _) word)
  · generalize nCompact.toNat / 2 ^ 24 - 3 = e
    by_cases inside : 8 * e ≤ 256
    · refine ⟨nWord % 2 ^ (256 - 8 * e), lt_of_le_of_lt (mod_le _ _) word, e, ?_⟩
      rw [← Nat.mul_mod_mul_right, ← pow_add, Nat.sub_add_cancel inside]
    · refine ⟨0, by decide, 0, ?_⟩
      rw [show 8 * e = 256 + (8 * e - 256) by omega, pow_add, mul_left_comm, mul_mod_right, zero_mul]

/-- The compact format keeps the top bits of every value, and every value it can express. -/
theorem compact_round_trip (x : BitVec 256) :
    ((setCompact (getCompact x.toNat)).2 = (false, false) ∧ (setCompact (getCompact x.toNat)).1 ≤ x.toNat ∧
      (2 ^ 23 ≤ x.toNat → x.toNat - (setCompact (getCompact x.toNat)).1 < x.toNat / 2 ^ 15)) ∧
    ∀ nCompact : UInt32, (setCompact nCompact).2 = (false, false) → (setCompact nCompact).1 ≠ 0 →
      (setCompact (getCompact (setCompact nCompact).1)).1 = (setCompact nCompact).1 := by
  constructor
  · obtain ⟨k, decoded, least⟩ := setCompact_getCompact x.isLt
    rw [decoded]
    refine ⟨rfl, div_mul_le_self _ _, fun large => ?_⟩
    have kept := Nat.div_add_mod' x.toNat (2 ^ (8 * k))
    have lost : x.toNat % 2 ^ (8 * k) < 2 ^ (8 * k) := mod_lt _ (Nat.two_pow_pos _)
    have bound : 2 ^ (8 * k) ≤ x.toNat / 2 ^ 15 := by
      rw [Nat.le_div_iff_mul_le (by decide), ← pow_add]
      rcases least with rfl | least
      · exact le_trans (by decide) large
      · rwa [add_comm]
    omega
  · intro nCompact _ _
    have fits : (setCompact nCompact).1 < 2 ^ 256 := by
      rw [setCompact_value]
      exact mod_lt _ (Nat.two_pow_pos _)
    obtain ⟨k, decoded, least⟩ := setCompact_getCompact fits
    obtain ⟨nWord, word, e, shape⟩ := setCompact_bytes nCompact
    rw [decoded]
    apply Nat.div_mul_cancel
    -- more bytes than the format itself has shifted in would be too many
    have few : k ≤ e := by
      rcases least with rfl | least
      · exact zero_le _
      · by_contra more
        have moved : 2 ^ (23 + 8 * e) ≤ 2 ^ (15 + 8 * k) := Nat.pow_le_pow_right (by decide) (by omega)
        have short : nWord * 2 ^ (8 * e) < 2 ^ 23 * 2 ^ (8 * e) :=
          Nat.mul_lt_mul_of_pos_right word (Nat.two_pow_pos _)
        rw [pow_add] at moved
        omega
    rw [shape]
    exact Dvd.dvd.mul_left (pow_dvd_pow 2 (by omega)) nWord

/-! The rule. -/

section Rule
variable (pow : PowParams)

def dampedTimespan (measured : Int) : Int :=
  pow.averagingWindowTimespan + (measured - pow.averagingWindowTimespan).tdiv 4

def actualTimespan (measured : Int) : Int :=
  min (max (dampedTimespan pow measured) pow.minActualTimespan) pow.maxActualTimespan

/-- The new target before the cap and the compact format, computed exactly. -/
def exactTarget (bnAvg : Nat) (measured : Int) : Nat :=
  bnAvg / pow.averagingWindowTimespan.toNat * (actualTimespan pow measured).toNat

/-- CalculateNextWorkRequired through its steps; the product takes the timespan as a uint32_t. -/
lemma calculateNextWorkRequired_eq (params : Consensus.Params) (bnAvg : Nat)
    (nLastBlockTime nFirstBlockTime : Int) :
    calculateNextWorkRequired params pow bnAvg nLastBlockTime nFirstBlockTime =
      getCompact (min (bnAvg / pow.averagingWindowTimespan.toNat
        * (actualTimespan pow (nLastBlockTime - nFirstBlockTime) % 2 ^ 32).toNat % 2 ^ 256)
        (UintToArith256 params.powLimit)) := rfl

end Rule

/-- The parameters of the main network; those of the test network are the same. -/
def PowParams.main : PowParams where
  fPowAllowMinDifficultyBlocks := false
  fPowNoRetargeting := false
  nPowTargetSpacing := 5
  nPowAllowMinDifficultyBlocksAfterHeight := none
  nPowAveragingWindow := 510
  nPowMaxAdjustDown := 32
  nPowMaxAdjustUp := 16

def mainPowLimit : Uint256 := ⟨replicate 30 0xff ++ [0x3f, 0], by decide⟩

lemma mainPowLimit_value : UintToArith256 mainPowLimit = 2 ^ 246 - 1 := by decide +kernel

namespace PowParams

lemma main_timespan : main.averagingWindowTimespan = 2550 := rfl
lemma main_minActualTimespan : main.minActualTimespan = 2142 := rfl
lemma main_maxActualTimespan : main.maxActualTimespan = 3366 := rfl

end PowParams

open PowParams

variable (measured : Int)

lemma actualTimespan_range : 2142 ≤ actualTimespan main measured ∧ actualTimespan main measured ≤ 3366 := by
  rw [actualTimespan, main_minActualTimespan, main_maxActualTimespan]
  omega

lemma actualTimespan_mono {measured measured' : Int} (longer : measured ≤ measured') :
    actualTimespan main measured ≤ actualTimespan main measured' := by
  have damped : dampedTimespan main measured ≤ dampedTimespan main measured' := by
    rw [dampedTimespan, dampedTimespan, main_timespan]
    have quarter : (measured - 2550).tdiv 4 ≤ (measured' - 2550).tdiv 4 := Int.tdiv_le_tdiv (by decide) (by omega)
    omega
  unfold actualTimespan
  omega

/-! A chain whose every header has the nBits that the rule asks for. -/

def Built (params : Consensus.Params) (pow : PowParams) : Ancestry → Prop
  | [] => True
  | entry :: rest => entry.header.nBits = getNextWorkRequired params pow rest entry.header ∧ Built params pow rest

variable (pow : PowParams) (pindexLast : Ancestry)

def windowTargets : List Nat :=
  (pindexLast.take pow.nPowAveragingWindow).map fun entry => (setCompact entry.header.nBits).1

def windowAverage : Nat := (windowTargets pow pindexLast).sum / pow.nPowAveragingWindow

def measuredTimespan : Int :=
  pindexLast.getMedianTimePast - Ancestry.getMedianTimePast (pindexLast.drop pow.nPowAveragingWindow)

lemma foldl_add_mod {α : Type} (value : α → Nat) (bound : Nat) (items : List α) (start : Nat)
    (fits : start + (items.map value).sum < bound) :
    items.foldl (fun total item => (total + value item) % bound) start = start + (items.map value).sum := by
  induction items generalizing start with
  | nil => rfl
  | cons item rest ih =>
    rw [map_cons, sum_cons] at fits ⊢
    rw [foldl_cons, mod_eq_of_lt (by omega), ih _ (by omega), add_assoc]

section Main
variable {params : Consensus.Params} (limit : params.powLimit = mainPowLimit)

include limit

lemma powLimit_fits : UintToArith256 params.powLimit < 2 ^ 256 := by
  rw [limit, mainPowLimit_value]
  decide

variable {pblock : CBlockHeader}

omit limit in
/-- Whatever the rule returns is the compact form of a value up to the limit. -/
lemma getNextWorkRequired_compact {pindexLast : Ancestry} :
    ∃ value ≤ UintToArith256 params.powLimit,
      getNextWorkRequired params main pindexLast pblock = getCompact value := by
  unfold getNextWorkRequired
  cases pindexLast with
  | nil => exact ⟨_, le_rfl, rfl⟩
  | cons last rest =>
    dsimp only
    split_ifs
    · exact ⟨_, le_rfl, rfl⟩
    · exact ⟨_, le_rfl, rfl⟩
    · rename_i impossible
      cases impossible
    · exact ⟨_, Nat.min_le_right _ _, rfl⟩

lemma decoded_range (pindexLast : Ancestry) (pblock : CBlockHeader) :
    (setCompact (getNextWorkRequired params main pindexLast pblock)).1 ≤ UintToArith256 params.powLimit ∧
      (setCompact (getNextWorkRequired params main pindexLast pblock)).2 = (false, false) := by
  obtain ⟨value, small, same⟩ := getNextWorkRequired_compact
  obtain ⟨k, kept, -⟩ := setCompact_getCompact (lt_of_le_of_lt small (powLimit_fits limit))
  rw [same, kept]
  exact ⟨le_trans (Nat.div_mul_le_self _ _) small, rfl⟩

variable {chain : Ancestry}

variable (built : Built params main chain)
include built

lemma target_le : ∀ entry ∈ chain, (setCompact entry.header.nBits).1 ≤ 2 ^ 246 - 1 := by
  induction chain with
  | nil => exact forall_mem_nil _
  | cons entry rest ih =>
    obtain ⟨required, before⟩ := built
    have here := (decoded_range limit rest entry.header).1
    rw [← required, limit, mainPowLimit_value] at here
    exact forall_mem_cons.mpr ⟨here, ih before⟩

lemma windowTargets_sum : (windowTargets main chain).sum ≤ 510 * (2 ^ 246 - 1) := by
  have each : ∀ target ∈ windowTargets main chain, target ≤ 2 ^ 246 - 1 := by
    intro target member
    obtain ⟨entry, listed, rfl⟩ := mem_map.mp member
    exact target_le limit built entry (mem_of_mem_take listed)
  have count : (windowTargets main chain).length ≤ 510 := by
    rw [windowTargets, length_map]
    exact length_take_le _ _
  calc (windowTargets main chain).sum
      ≤ (windowTargets main chain).length * (2 ^ 246 - 1) := by simpa using sum_le_card_nsmul _ _ each
    _ ≤ 510 * (2 ^ 246 - 1) := Nat.mul_le_mul_right _ count

lemma product_fits (measured : Int) : exactTarget main (windowAverage main chain) measured < 2 ^ 256 := by
  have total := windowTargets_sum limit built
  have range := actualTimespan_range measured
  have average : windowAverage main chain ≤ 2 ^ 246 := by
    rw [windowAverage, show main.nPowAveragingWindow = 510 from rfl]
    omega
  have factor : (actualTimespan main measured).toNat ≤ 2 * 2550 := by omega
  calc windowAverage main chain / 2550 * (actualTimespan main measured).toNat
      ≤ windowAverage main chain / 2550 * (2 * 2550) := Nat.mul_le_mul_left _ factor
    _ = 2 * (windowAverage main chain / 2550 * 2550) := by ring
    _ ≤ 2 * windowAverage main chain := Nat.mul_le_mul_left _ (div_mul_le_self _ _)
    _ ≤ 2 * 2 ^ 246 := Nat.mul_le_mul_left _ average
    _ < 2 ^ 256 := by decide

/-- The rule without the reductions of 256-bit and 32-bit arithmetic. -/
lemma getNextWorkRequired_exact :
    getNextWorkRequired params main chain pblock =
      if chain.length ≤ main.nPowAveragingWindow then getCompact (UintToArith256 params.powLimit)
      else getCompact (min (exactTarget main (windowAverage main chain) (measuredTimespan main chain))
        (UintToArith256 params.powLimit)) := by
  have total := windowTargets_sum limit built
  have sum : (chain.take main.nPowAveragingWindow).foldl (fun bnTot entry =>
      (bnTot + (setCompact entry.header.nBits).1) % 2 ^ 256) 0 = (windowTargets main chain).sum := by
    rw [foldl_add_mod, zero_add]
    · rfl
    · rw [windowTargets] at total
      omega
  have product := product_fits limit built (measuredTimespan main chain)
  have range := actualTimespan_range (measuredTimespan main chain)
  have word : (actualTimespan main (measuredTimespan main chain) % 2 ^ 32).toNat =
      (actualTimespan main (measuredTimespan main chain)).toNat := by
    omega
  have always : main.nPowAllowMinDifficultyBlocksAfterHeight = none := rfl
  have retargets : main.fPowNoRetargeting = false := rfl
  cases chain with
  | nil =>
    rw [getNextWorkRequired, if_pos]
    exact zero_le _
  | cons last rest =>
    simp only [getNextWorkRequired, always, retargets, Option.bind_eq_bind, Option.bind_none,
      Option.any_none, Bool.false_and, Bool.false_eq_true, if_false, sum, List.isEmpty_iff,
      drop_eq_nil_iff]
    split_ifs
    · rfl
    · unfold exactTarget windowAverage measuredTimespan at *
      rw [calculateNextWorkRequired_eq, word, mod_eq_of_lt product]

end Main

lemma exactTarget_range : 84 * bnAvg ≤ 100 * (exactTarget main bnAvg measured + 2550) ∧
      100 * exactTarget main bnAvg measured ≤ 132 * bnAvg := by
  obtain ⟨low, high⟩ := actualTimespan_range measured
  have least : bnAvg / 2550 * 2142 ≤ exactTarget main bnAvg measured := by exact Nat.mul_le_mul_left _ (by omega)
  have most : exactTarget main bnAvg measured ≤ bnAvg / 2550 * 3366 := by exact Nat.mul_le_mul_left _ (by omega)
  omega

lemma exactTarget_mono {measured measured' : Int} (longer : measured ≤ measured') :
    exactTarget main bnAvg measured ≤ exactTarget main bnAvg measured' := by
  have grows := actualTimespan_mono longer
  exact Nat.mul_le_mul_left _ (Int.toNat_le_toNat grows)

lemma exactTarget_pos (large : 2550 ≤ bnAvg) : 0 < exactTarget main bnAvg measured := by
  have range := actualTimespan_range measured
  exact Nat.mul_pos (Nat.div_pos large (by decide)) (by omega)

/-- The difficulty rule on a chain of the main or test network. The sum of the window and the
product never reach 2^256 and the timespan fits a uint32_t, so the rule is the exact one; what
it returns decodes to at most the limit; and before the cap and the compact format the target
stays within 84% and 132% of the average, one timespan aside, grows with the measured
timespan and does not vanish. -/
theorem getNextWorkRequired_main (params : Consensus.Params) (limit : params.powLimit = mainPowLimit)
    (chain : Ancestry) (built : Built params main chain) (pblock : CBlockHeader) :
    (windowTargets main chain).sum < 2 ^ 256 ∧
    (∀ measured, exactTarget main (windowAverage main chain) measured < 2 ^ 256 ∧
      0 ≤ actualTimespan main measured ∧ actualTimespan main measured < 2 ^ 32) ∧
    getNextWorkRequired params main chain pblock =
      (if chain.length ≤ main.nPowAveragingWindow then getCompact (UintToArith256 params.powLimit)
      else getCompact (min (exactTarget main (windowAverage main chain) (measuredTimespan main chain))
        (UintToArith256 params.powLimit))) ∧
    (setCompact (getNextWorkRequired params main chain pblock)).1 ≤ UintToArith256 params.powLimit ∧
    (setCompact (getNextWorkRequired params main chain pblock)).2 = (false, false) ∧
    ∀ measured, 84 * windowAverage main chain ≤
        100 * (exactTarget main (windowAverage main chain) measured + main.averagingWindowTimespan.toNat) ∧
      100 * exactTarget main (windowAverage main chain) measured ≤ 132 * windowAverage main chain ∧
      (∀ measured', measured ≤ measured' → exactTarget main (windowAverage main chain) measured ≤
        exactTarget main (windowAverage main chain) measured') ∧
      (main.averagingWindowTimespan.toNat ≤ windowAverage main chain →
        0 < exactTarget main (windowAverage main chain) measured) := by
  have total := windowTargets_sum limit built
  obtain ⟨capped, signs⟩ := decoded_range limit chain pblock
  have timespan : main.averagingWindowTimespan.toNat = 2550 := rfl
  refine ⟨by omega, ?_, getNextWorkRequired_exact limit built, capped, signs, ?_⟩
  · intro measured
    obtain ⟨low, high⟩ := actualTimespan_range measured
    exact ⟨product_fits limit built measured, by omega, by omega⟩
  · intro measured
    obtain ⟨least, most⟩ := exactTarget_range measured
    exact ⟨least, most, fun _ longer => exactTarget_mono longer, exactTarget_pos measured⟩

namespace Window

def params : Consensus.Params := { Consensus.Params.easy with powLimit := mainPowLimit }

/-- The time and nBits of the genesis block of the main network. -/
def genesis : IndexEntry := ⟨Uint256.null, ⟨1, Uint256.null, Uint256.null, 1777900800, 0x1f3fffff, 45⟩⟩

/-- Headers like that of the genesis block, one more than the window holds. -/
def chain : Ancestry := replicate 511 genesis

/-- Up to the window, the rule asks for the limit. -/
lemma copies_built (count : Nat) (short : count ≤ 511) : Built params main (replicate count genesis) := by
  induction count with
  | zero => trivial
  | succ count ih =>
    have built := ih (by omega)
    refine ⟨?_, built⟩
    rw [getNextWorkRequired_exact rfl built, if_pos]
    · decide +kernel
    · rw [length_replicate]
      exact Nat.le_of_lt_succ short

theorem target_after_window : main.nPowAveragingWindow < chain.length ∧
    getNextWorkRequired params main chain genesis.header =
      getCompact (min (exactTarget main (windowAverage main chain) (measuredTimespan main chain))
        (UintToArith256 params.powLimit)) ∧
    (setCompact (getNextWorkRequired params main chain genesis.header)).2 = (false, false) := by
  have longer : main.nPowAveragingWindow < chain.length := by
    rw [chain, length_replicate]
    decide
  obtain ⟨-, -, rule, -, signs, -⟩ :=
    getNextWorkRequired_main params rfl chain (copies_built 511 le_rfl) genesis.header
  exact ⟨longer, rule.trans (if_neg (not_le.mpr longer)), signs⟩

end Window

end Dragonchain
