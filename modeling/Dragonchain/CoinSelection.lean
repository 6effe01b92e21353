import Mathlib.Data.List.Sort
import Mathlib.Algebra.BigOperators.Group.List.Basic
import Mathlib.Algebra.Ring.Int.Defs
import Dragonchain.Primitives
import Dragonchain.Outcome

/-!
SelectCoinsMinConf and ApproximateBestSubset of wallet/wallet.cpp. Amounts are int64_t, and
a sum out of that range is a fault. What the code leaves open is fixed by `Choices`: the
order after random_shuffle, the order that std::sort gives to coins of one value, and the
draws of the two searches.
-/

namespace Dragonchain.Wallet

open Outcome List

variable {ret wanted : Bool} {value nBest result : Int}

def CENT : Int := 1000000
def MIN_CHANGE : Int := CENT

inductive AmountFault where
  | overflow
  deriving DecidableEq

abbrev AmountM := Outcome Empty AmountFault

/-- A value that int64_t holds. -/
def InRange (value : Int) : Prop := -2 ^ 63 ≤ value ∧ value < 2 ^ 63

instance (value : Int) : Decidable (InRange value) := inferInstanceAs (Decidable (_ ∧ _))

def amount (value : Int) : AmountM Int := if InRange value then pure value else crash .overflow

structure CInputCoin where
  outpoint : COutPoint
  txout : CTxOut
  deriving DecidableEq

def CInputCoin.nValue (coin : CInputCoin) : Int := coin.txout.nValue.toInt

/-- COutput, with what SelectCoinsMinConf reads of its wallet transaction: the hash, the
output and the verdict of IsFromMe. -/
structure COutput where
  hash : Uint256
  i : UInt32
  txout : CTxOut
  fromMe : Bool
  nDepth : Int32
  fSpendable : Bool
  deriving DecidableEq

def COutput.coin (output : COutput) : CInputCoin := ⟨⟨output.hash, output.i⟩, output.txout⟩

/-- The counts of a mempool entry with its ancestors and with its descendants. -/
structure PackageCounts where
  nCountWithAncestors : Nat
  nCountWithDescendants : Nat

abbrev Mempool := Uint256 → Option PackageCounts

def transactionWithinChainLimit (mempool : Mempool) (txid : Uint256) (chainLimit : Nat) : Bool :=
  match mempool txid with
  | none => true
  | some entry => entry.nCountWithAncestors < chainLimit && entry.nCountWithDescendants < chainLimit

structure Filter where
  mempool : Mempool
  nConfMine : Int32
  nConfTheirs : Int32
  nMaxAncestors : Nat

def Filter.eligible (filter : Filter) (output : COutput) : Bool :=
  output.fSpendable
    && !(output.nDepth < if output.fromMe then filter.nConfMine else filter.nConfTheirs)
    && transactionWithinChainLimit filter.mempool output.hash filter.nMaxAncestors

structure Choices where
  shuffle : List COutput → List COutput
  shuffled : ∀ vCoins, (shuffle vCoins).Perm vCoins
  /-- std::sort and std::reverse. -/
  sort : List CInputCoin → List CInputCoin
  sorted : ∀ vValue, (sort vValue).Perm vValue ∧
    (sort vValue).Pairwise fun first second => second.nValue ≤ first.nValue
  /-- The draws of the first and of the second search, by repetition and position. -/
  randbool : Bool → Nat → Nat → Bool

/-! ApproximateBestSubset. -/

structure Best where
  vfBest : List Bool
  nBest : Int
  deriving DecidableEq

structure Attempt where
  vfIncluded : List Bool
  nTotal : Int
  fReachedTarget : Bool
  best : Best

section Search
variable (vValue : List CInputCoin) (nTargetValue : Int)

/-- The body of the loop over the coins, where `wanted` is the condition of its first test. -/
def tryCoin (wanted : Bool) (i : Nat) (coin : CInputCoin) (attempt : Attempt) : AmountM Attempt :=
  if wanted then do
    let nTotal ← amount (attempt.nTotal + coin.nValue)
    let vfIncluded := attempt.vfIncluded.set i true
    if nTotal ≥ nTargetValue then do
      let best := if nTotal < attempt.best.nBest then ⟨vfIncluded, nTotal⟩ else attempt.best
      let nTotal ← amount (nTotal - coin.nValue)
      pure ⟨vfIncluded.set i false, nTotal, true, best⟩
    else pure { attempt with vfIncluded, nTotal }
  else pure attempt

/-- A pass over the coins from position `i`: the first one takes a coin by a draw, the
second one takes every coin that is not yet included. -/
def pass (first : Bool) (randbool : Nat → Bool) : Nat → List CInputCoin → Attempt → AmountM Attempt
  | _, [], attempt => pure attempt
  | i, coin :: rest, attempt => do
    let wanted := if first then randbool i else !attempt.vfIncluded.getD i false
    let attempt ← tryCoin nTargetValue wanted i coin attempt
    pass first randbool (i + 1) rest attempt

def repetition (randbool : Nat → Bool) (best : Best) : AmountM Best := do
  let attempt ← pass nTargetValue true randbool 0 vValue ⟨replicate vValue.length false, 0, false, best⟩
  if attempt.fReachedTarget then pure attempt.best
  else
    let attempt ← pass nTargetValue false randbool 0 vValue attempt
    pure attempt.best

def repetitions (randbool : Nat → Nat → Bool) (nRep : Nat) : Nat → Best → AmountM Best
  | 0, best => pure best
  | left + 1, best =>
    if best.nBest = nTargetValue then pure best
    else do
      let best ← repetition vValue nTargetValue (randbool nRep) best
      repetitions randbool (nRep + 1) left best

def approximateBestSubset (nTotalLower : Int) (randbool : Nat → Nat → Bool) : AmountM Best :=
  repetitions vValue nTargetValue randbool 0 1000 ⟨replicate vValue.length true, nTotalLower⟩

end Search

/-! SelectCoinsMinConf. -/

structure Tally where
  coinLowestLarger : Option CInputCoin := none
  vValue : List CInputCoin := []
  nTotalLower : Int := 0

def Tally.larger (tally : Tally) (coin : CInputCoin) : Tally :=
  match tally.coinLowestLarger with
  | none => { tally with coinLowestLarger := some coin }
  | some lowest => if coin.nValue < lowest.nValue then { tally with coinLowestLarger := some coin } else tally

def tallyCoins (filter : Filter) (nTargetValue : Int) : List COutput → Tally → AmountM (CInputCoin ⊕ Tally)
  | [], tally => pure (.inr tally)
  | output :: rest, tally =>
    if !filter.eligible output then tallyCoins filter nTargetValue rest tally
    else if output.coin.nValue = nTargetValue then pure (.inl output.coin)
    else do
      if output.coin.nValue < (← amount (nTargetValue + MIN_CHANGE)) then
        let nTotalLower ← amount (tally.nTotalLower + output.coin.nValue)
        tallyCoins filter nTargetValue rest { tally with vValue := tally.vValue ++ [output.coin], nTotalLower }
      else tallyCoins filter nTargetValue rest (tally.larger output.coin)

def insertCoin (setCoinsRet : List CInputCoin) (coin : CInputCoin) : List CInputCoin :=
  if setCoinsRet.any (·.outpoint == coin.outpoint) then setCoinsRet else setCoinsRet ++ [coin]

structure Selected where
  setCoinsRet : List CInputCoin := []
  nValueRet : Int := 0
  deriving DecidableEq

def Selected.add (selected : Selected) (coin : CInputCoin) : AmountM Selected := do
  let nValueRet ← amount (selected.nValueRet + coin.nValue)
  pure ⟨insertCoin selected.setCoinsRet coin, nValueRet⟩

def included : List CInputCoin → List Bool → List CInputCoin
  | coin :: vValue, flag :: vf => if flag then coin :: included vValue vf else included vValue vf
  | _, _ => []

section Select
variable (choices : Choices) (nTargetValue : Int)

/-- The two searches, for coins that together exceed the target. -/
def bestSubset (vValue : List CInputCoin) (nTotalLower : Int) : AmountM Best := do
  let best ← approximateBestSubset vValue nTargetValue nTotalLower (choices.randbool false)
  if best.nBest = nTargetValue then pure best
  else if nTotalLower ≥ (← amount (nTargetValue + MIN_CHANGE)) then
    approximateBestSubset vValue (← amount (nTargetValue + MIN_CHANGE)) nTotalLower (choices.randbool true)
  else pure best

/-- Whether the lowest larger coin is taken in the place of the best subset. -/
def prefersLarger (coin : CInputCoin) (nBest : Int) : AmountM Bool :=
  if nBest = nTargetValue then pure (decide (coin.nValue ≤ nBest))
  else do
    let bound ← amount (nTargetValue + MIN_CHANGE)
    pure (decide (nBest < bound) || decide (coin.nValue ≤ nBest))

def settleTally (tally : Tally) : AmountM (Bool × Selected) :=
  if tally.nTotalLower = nTargetValue then do
    pure (true, ← tally.vValue.foldlM Selected.add {})
  else if tally.nTotalLower < nTargetValue then
    match tally.coinLowestLarger with
    | none => pure (false, {})
    | some coin => do pure (true, ← Selected.add {} coin)
  else do
    let vValue := choices.sort tally.vValue
    let best ← bestSubset choices nTargetValue vValue tally.nTotalLower
    let subset := (included vValue best.vfBest).foldlM Selected.add {}
    match tally.coinLowestLarger with
    | none => do pure (true, ← subset)
    | some coin => do
      if ← prefersLarger nTargetValue coin best.nBest then pure (true, ← Selected.add {} coin)
      else pure (true, ← subset)

def selectCoinsMinConf (filter : Filter) (vCoins : List COutput) : AmountM (Bool × Selected) := do
  match ← tallyCoins filter nTargetValue (choices.shuffle vCoins) {} with
  | .inl coin => pure (true, ← Selected.add {} coin)
  | .inr tally => settleTally choices nTargetValue tally

end Select

/-! Sums of coins. -/

def total (coins : List CInputCoin) : Int := (coins.map CInputCoin.nValue).sum

@[simp]
lemma total_nil : total [] = 0 := rfl

@[simp]
lemma total_cons (coin : CInputCoin) (coins : List CInputCoin) :
    total (coin :: coins) = coin.nValue + total coins := sum_cons

@[simp]
lemma total_append (first second : List CInputCoin) : total (first ++ second) = total first + total second := by
  rw [total, map_append, sum_append]
  rfl

variable {second part rest done coins' : List CInputCoin} {vf : List Bool}

lemma total_perm {first : List CInputCoin} (perm : first.Perm second) : total first = total second :=
    (perm.map _).sum_eq

def Positive (coins : List CInputCoin) : Prop := ∀ coin ∈ coins, 0 < coin.nValue

lemma Positive.total_le {coins : List CInputCoin} (positive : Positive coins)
    (sublist : part.Sublist coins) : total part ≤ total coins := by
  induction sublist with
  | slnil => exact le_rfl
  | cons coin _ ih =>
    obtain ⟨first, others⟩ := forall_mem_cons.mp positive
    have below := ih others
    rw [total_cons]
    omega
  | cons_cons coin _ ih =>
    have below := ih (forall_mem_cons.mp positive).2
    rw [total_cons, total_cons]
    omega

lemma Positive.total_nonneg {coins : List CInputCoin} (positive : Positive coins) : 0 ≤ total coins :=
  positive.total_le (nil_sublist coins)

variable (vValue : List CInputCoin)

lemma included_sublist (vf : List Bool) : (included vValue vf).Sublist vValue := by
  induction vValue generalizing vf with
  | nil => exact List.Sublist.refl _
  | cons coin vValue ih =>
    cases vf with
    | nil => exact nil_sublist _
    | cons flag vf =>
      cases flag with
      | false => exact (ih vf).cons coin
      | true => exact (ih vf).cons_cons coin

lemma included_all : included vValue (replicate vValue.length true) = vValue := by
  induction vValue with
  | nil => rfl
  | cons coin vValue ih => rw [length_cons, replicate_succ, included, if_pos rfl, ih]

lemma included_none (count : Nat) : included vValue (replicate count false) = [] := by
  induction vValue generalizing count with
  | nil => rfl
  | cons coin vValue ih =>
    cases count with
    | zero => rfl
    | succ count => rw [replicate_succ, included, if_neg Bool.false_ne_true, ih]

lemma total_included_set {before : List CInputCoin} {coin : CInputCoin}
    (length : vf.length = (before ++ coin :: rest).length) (unset : vf.getD before.length false = false) :
    total (included (before ++ coin :: rest) (vf.set before.length true)) =
      total (included (before ++ coin :: rest) vf) + coin.nValue := by
  induction before generalizing vf with
  | nil =>
    cases vf with
    | nil => cases length
    | cons flag vf =>
      obtain rfl : flag = false := unset
      simp [included]
      omega
  | cons first before ih =>
    cases vf with
    | nil => cases length
    | cons flag vf =>
      have step := ih (Nat.succ.inj length) unset
      cases flag with
      | false => exact step
      | true => simpa [included, Int.add_assoc] using step

/-! What the searches keep. -/

structure Best.Sound (vValue : List CInputCoin) (nTargetValue : Int) (best : Best) : Prop where
  reaches : nTargetValue ≤ best.nBest
  sum : best.nBest = total (included vValue best.vfBest)

structure Attempt.Sound (vValue : List CInputCoin) (nTargetValue : Int) (attempt : Attempt) : Prop where
  length : attempt.vfIncluded.length = vValue.length
  sum : attempt.nTotal = total (included vValue attempt.vfIncluded)
  best : attempt.best.Sound vValue nTargetValue

lemma exists_ok {α : Type} {post : α → Prop} {action : AmountM α} (safe : Safe post action) :
    ∃ value, action = .ok value ∧ post value := by
  match action, safe with
  | .ok value, holds => exact ⟨value, rfl, holds⟩

lemma safe_amount (fits : InRange value) : Safe (· = value) (amount value) := by
  rw [amount, if_pos fits]
  exact rfl

section Searches
variable {before rest vValue : List CInputCoin} {coin : CInputCoin} {nTargetValue : Int}

lemma inRange_sublist (positive : Positive vValue)
    (sublist : part.Sublist vValue) (fits : InRange (total vValue)) : InRange (total part) := by
  have upper := positive.total_le sublist
  have lower := Positive.total_nonneg fun coin member => positive coin (sublist.subset member)
  unfold InRange at fits ⊢
  omega

lemma inRange_included (positive : Positive vValue) (fits : InRange (total vValue)) :
    InRange (total (included vValue vf)) := inRange_sublist positive (included_sublist vValue vf) fits

variable {attempt : Attempt} {randbool : Nat → Bool} {best : Best} {nRep left : Nat}

/-- A coin is tried only when it is not included, and it leaves the other flags alone. -/
lemma tryCoin_safe (positive : Positive (before ++ coin :: rest)) (fits : InRange (total (before ++ coin :: rest)))
    (sound : attempt.Sound (before ++ coin :: rest) nTargetValue)
    (unset : wanted = true → attempt.vfIncluded.getD before.length false = false) :
    Safe (fun after => after.Sound (before ++ coin :: rest) nTargetValue ∧
        ∀ j, j ≠ before.length → after.vfIncluded.getD j false = attempt.vfIncluded.getD j false)
      (tryCoin nTargetValue wanted before.length coin attempt) := by
  cases wanted with
  | false => exact ⟨sound, fun _ _ => rfl⟩
  | true =>
    have free := unset rfl
    have added := total_included_set sound.length free
    have sum : attempt.nTotal + coin.nValue =
        total (included (before ++ coin :: rest) (attempt.vfIncluded.set before.length true)) := by
      rw [added, sound.sum]
    have back : (attempt.vfIncluded.set before.length true).set before.length false = attempt.vfIncluded := by
      have inside : before.length < attempt.vfIncluded.length := by simp [sound.length]
      rw [getD_eq_getElem?_getD, getElem?_eq_getElem inside, Option.getD_some] at free
      rw [set_set, ← free, set_getElem_self]
    refine (safe_amount (sum ▸ inRange_included positive fits)).bind ?_
    rintro _ rfl
    split
    · rename_i reached
      have range : InRange (attempt.nTotal + coin.nValue - coin.nValue) := by
        rw [Int.add_sub_cancel, sound.sum]
        exact inRange_included positive fits
      refine (safe_amount range).bind ?_
      rintro _ rfl
      rw [back, Int.add_sub_cancel]
      refine ⟨⟨sound.length, sound.sum, ?_⟩, fun _ _ => rfl⟩
      split
      · exact ⟨reached, sum⟩
      · exact sound.best
    · refine ⟨⟨(length_set ..).trans sound.length, sum, sound.best⟩, fun j other => ?_⟩
      simp [getElem?_set_ne other.symm]

/-- The first pass starts without a coin; the second one takes only coins that are not included. -/
lemma pass_safe {first : Bool} (positive : Positive (before ++ rest))
    (fits : InRange (total (before ++ rest))) (sound : attempt.Sound (before ++ rest) nTargetValue)
    (unset : first = true → ∀ j, before.length ≤ j → attempt.vfIncluded.getD j false = false) :
    Safe (fun after => after.Sound (before ++ rest) nTargetValue)
      (pass nTargetValue first randbool before.length rest attempt) := by
  induction rest generalizing before attempt with
  | nil => exact sound
  | cons coin rest ih =>
    have free : (if first then randbool before.length else !attempt.vfIncluded.getD before.length false) = true →
        attempt.vfIncluded.getD before.length false = false := by
      cases first with
      | true => exact fun _ => unset rfl _ le_rfl
      | false => simp
    refine (tryCoin_safe positive fits sound free).bind ?_
    rintro after ⟨kept, others⟩
    have shape : before ++ coin :: rest = before ++ [coin] ++ rest := by simp
    have next : before.length + 1 = (before ++ [coin]).length := by simp
    rw [shape] at positive fits kept ⊢
    rw [next]
    refine ih positive fits kept fun drawn j above => ?_
    rw [others j (by omega)]
    exact unset drawn j (by omega)

variable (positive : Positive vValue) (fits : InRange (total vValue))
include positive fits

lemma repetition_safe (sound : best.Sound vValue nTargetValue) :
    Safe (fun after => after.Sound vValue nTargetValue) (repetition vValue nTargetValue randbool best) := by
  have start : Attempt.Sound vValue nTargetValue ⟨replicate vValue.length false, 0, false, best⟩ := by
    refine ⟨length_replicate, ?_, sound⟩
    rw [included_none]
    rfl
  have unset (j : Nat) : (replicate vValue.length false).getD j false = false := by
    rw [getD_eq_getElem?_getD, getElem?_replicate]
    split <;> rfl
  have passes (first : Bool) {attempt : Attempt} (sound : attempt.Sound vValue nTargetValue)
      (unset : first = true → ∀ j, 0 ≤ j → attempt.vfIncluded.getD j false = false) :
      Safe (fun after => after.Sound vValue nTargetValue) (pass nTargetValue first randbool 0 vValue attempt) :=
    pass_safe (show Positive ([] ++ vValue) from positive) fits sound unset
  refine (passes true start fun _ j _ => unset j).bind fun attempt kept => ?_
  split
  · exact kept.best
  · exact (passes false kept (by simp)).bind fun after kept => kept.best

lemma repetitions_safe {randbool : Nat → Nat → Bool}
    (sound : best.Sound vValue nTargetValue) : Safe (fun after => after.Sound vValue nTargetValue)
      (repetitions vValue nTargetValue randbool nRep left best) := by
  induction left generalizing nRep best with
  | zero => exact sound
  | succ left ih =>
    rw [repetitions]
    split
    · exact sound
    · exact (repetition_safe positive fits sound).bind fun after kept => ih kept

lemma approximateBestSubset_safe {randbool : Nat → Nat → Bool} (enough : nTargetValue ≤ total vValue) :
    Safe (fun best => best.Sound vValue nTargetValue)
      (approximateBestSubset vValue nTargetValue (total vValue) randbool) :=
  repetitions_safe positive fits ⟨enough, by rw [included_all]⟩

end Searches

/-! The set that is returned. -/

lemma amount_ok (fits : InRange value) : amount value = .ok value := if_pos fits

lemma insertCoin_fresh {coins : List CInputCoin} {coin : CInputCoin}
    (fresh : ∀ other ∈ coins, other.outpoint ≠ coin.outpoint) : insertCoin coins coin = coins ++ [coin] := by
  rw [insertCoin, if_neg]
  simpa [any_eq_true] using fresh

lemma foldlM_add {coins : List CInputCoin} (distinct : ((done ++ coins).map CInputCoin.outpoint).Nodup)
    (positive : Positive (done ++ coins)) (fits : InRange (total (done ++ coins))) :
    coins.foldlM Selected.add ⟨done, total done⟩ = .ok ⟨done ++ coins, total (done ++ coins)⟩ := by
  induction coins generalizing done with
  | nil =>
    rw [append_nil]
    rfl
  | cons coin rest ih =>
    have shape : done ++ coin :: rest = done ++ [coin] ++ rest := by simp
    rw [shape] at distinct positive fits ⊢
    have fresh : ∀ other ∈ done, other.outpoint ≠ coin.outpoint := by
      intro other member same
      rw [map_append, map_append] at distinct
      have apart := (nodup_append.mp distinct.of_append_left).2.2
      exact apart _ (mem_map_of_mem member) _ mem_cons_self same
    have range : InRange (total (done ++ [coin])) := inRange_sublist positive (sublist_append_left ..) fits
    have sum : total done + coin.nValue = total (done ++ [coin]) := by simp
    rw [foldlM_cons, Selected.add]
    rw [sum, amount_ok range, insertCoin_fresh fresh]
    exact ih distinct positive fits

lemma foldlM_add_nil {coins : List CInputCoin} (distinct : (coins.map CInputCoin.outpoint).Nodup)
    (positive : Positive coins) (fits : InRange (total coins)) :
    coins.foldlM Selected.add {} = .ok ⟨coins, total coins⟩ :=
  foldlM_add (show (([] ++ coins).map _).Nodup from distinct) positive fits

/-- What is asked of a selection from the eligible coins. -/
structure Right (coins : List CInputCoin) (nTargetValue : Int) (ret : Bool) (selected : Selected) : Prop where
  found : ret = true ↔ nTargetValue ≤ total coins
  chosen : ret = true → selected.setCoinsRet ⊆ coins ∧ (selected.setCoinsRet.map CInputCoin.outpoint).Nodup
  exactly : ret = true → selected.nValueRet = total selected.setCoinsRet
  reaches : ret = true → nTargetValue ≤ selected.nValueRet
  change : ret = true → nTargetValue + MIN_CHANGE ≤ total coins →
    selected.nValueRet = nTargetValue ∨ nTargetValue + MIN_CHANGE ≤ selected.nValueRet

lemma Right.perm {coins : List CInputCoin} {selected : Selected} {nTargetValue : Int}
    (perm : coins.Perm coins') (right : Right coins nTargetValue ret selected) :
    Right coins' nTargetValue ret selected where
  found := total_perm perm ▸ right.found
  chosen done := ⟨fun _ member => perm.subset ((right.chosen done).1 member), (right.chosen done).2⟩
  exactly := right.exactly
  reaches := right.reaches
  change := total_perm perm ▸ right.change

section Selections
variable {coins : List CInputCoin} {nTargetValue : Int}

lemma right_subset (positive : Positive coins) (sublist : part.Subperm coins)
    (distinct : (coins.map CInputCoin.outpoint).Nodup) (reaches : nTargetValue ≤ total part)
    (change : nTargetValue + MIN_CHANGE ≤ total coins →
      total part = nTargetValue ∨ nTargetValue + MIN_CHANGE ≤ total part) :
    Right coins nTargetValue true ⟨part, total part⟩ := by
  obtain ⟨same, perm, inside⟩ := sublist
  have below := positive.total_le inside
  rw [total_perm perm] at below
  refine ⟨iff_of_true rfl (le_trans reaches below), fun _ => ⟨?_, ?_⟩, fun _ => rfl, fun _ => reaches,
    fun _ => change⟩
  · exact fun _ member => inside.subset (perm.symm.subset member)
  · exact ((perm.map _).nodup_iff).mp (distinct.sublist (inside.map _))

lemma right_single {coin : CInputCoin} (positive : Positive coins) (member : coin ∈ coins)
    (distinct : (coins.map CInputCoin.outpoint).Nodup)
    (value : coin.nValue = nTargetValue ∨ nTargetValue + MIN_CHANGE ≤ coin.nValue) :
    Right coins nTargetValue true ⟨[coin], coin.nValue⟩ := by
  have whole : total [coin] = coin.nValue := by simp
  have positiveChange : 0 ≤ MIN_CHANGE := by decide
  rw [← whole]
  refine right_subset positive (singleton_sublist.mpr member).subperm distinct ?_ ?_
  · rw [whole]
    omega
  · intro _
    rw [whole]
    exact value

lemma add_single (coin : CInputCoin) : Selected.add {} coin = .ok ⟨[coin], coin.nValue⟩ := by
  have range : InRange (0 + coin.nValue) := by
    have lower := coin.txout.nValue.le_toInt
    have upper := coin.txout.nValue.toInt_lt
    unfold InRange CInputCoin.nValue
    omega
  rw [Selected.add]
  rw [amount_ok range, Int.zero_add]
  rfl

/-- The second search runs when the first one missed the target and there is enough for a
change output. -/
lemma bestSubset_safe {vValue : List CInputCoin} (choices : Choices) (positive : Positive vValue)
    (fits : InRange (total vValue)) (bound : InRange (nTargetValue + MIN_CHANGE))
    (enough : nTargetValue ≤ total vValue) : Safe (fun best => best.Sound vValue nTargetValue ∧
        (nTargetValue + MIN_CHANGE ≤ total vValue →
          best.nBest = nTargetValue ∨ nTargetValue + MIN_CHANGE ≤ best.nBest))
      (bestSubset choices nTargetValue vValue (total vValue)) := by
  have positiveChange : 0 ≤ MIN_CHANGE := by decide
  refine (approximateBestSubset_safe positive fits enough).bind fun best sound => ?_
  split
  · exact ⟨sound, fun _ => .inl ‹_›⟩
  · rw [amount_ok bound]
    change Safe _ (if total vValue ≥ nTargetValue + MIN_CHANGE then approximateBestSubset vValue
      (nTargetValue + MIN_CHANGE) (total vValue) (choices.randbool true) else pure best)
    split_ifs with room
    · refine (approximateBestSubset_safe positive fits room).mono fun second found => ?_
      refine ⟨⟨?_, found.sum⟩, fun _ => .inr found.reaches⟩
      have reached := found.reaches
      omega
    · exact ⟨sound, fun room => absurd room ‹_›⟩

lemma prefersLarger_ok {coin : CInputCoin} (bound : InRange (nTargetValue + MIN_CHANGE)) :
    prefersLarger nTargetValue coin nBest =
      .ok (decide ((nBest ≠ nTargetValue ∧ nBest < nTargetValue + MIN_CHANGE) ∨ coin.nValue ≤ nBest)) := by
  rw [prefersLarger, amount_ok bound]
  by_cases same : nBest = nTargetValue
  · simp only [same, if_true, ne_eq, not_true, false_and, false_or]
    rfl
  · simp only [same, if_false, ne_eq, not_false_eq_true, true_and, Bool.decide_or]
    rfl

/-- What the loop over the outputs has gathered from the eligible coins, none of which is
exactly the target. -/
structure Tally.Counts (coins : List CInputCoin) (nTargetValue : Int) (tally : Tally) : Prop where
  free : ∀ coin ∈ coins, coin.nValue ≠ nTargetValue
  lower : tally.vValue = coins.filter fun coin => coin.nValue < nTargetValue + MIN_CHANGE
  sum : tally.nTotalLower = total tally.vValue
  none : tally.coinLowestLarger = none → ∀ coin ∈ coins, coin.nValue < nTargetValue + MIN_CHANGE
  some : ∀ coin, tally.coinLowestLarger = some coin → coin ∈ coins ∧ nTargetValue + MIN_CHANGE ≤ coin.nValue

lemma settleTally_safe {tally : Tally} {choices : Choices} (counts : tally.Counts coins nTargetValue)
    (positive : Positive coins) (distinct : (coins.map CInputCoin.outpoint).Nodup)
    (fits : InRange (total tally.vValue)) (bound : coins ≠ [] → InRange (nTargetValue + MIN_CHANGE))
    (target : 0 < nTargetValue) : Safe (fun result => Right coins nTargetValue result.1 result.2)
      (settleTally choices nTargetValue tally) := by
  have inside : tally.vValue.Sublist coins := by
    rw [counts.lower]
    exact filter_sublist
  have lowPositive : Positive tally.vValue := fun coin member => positive coin (inside.subset member)
  have lowDistinct := distinct.sublist (inside.map CInputCoin.outpoint)
  have whole (absent : tally.coinLowestLarger = none) : tally.vValue = coins := by
    rw [counts.lower, filter_eq_self]
    exact fun coin member => decide_eq_true (counts.none absent coin member)
  have larger {coin : CInputCoin} (lowest : tally.coinLowestLarger = some coin) :
      Right coins nTargetValue true ⟨[coin], coin.nValue⟩ :=
    right_single positive (counts.some coin lowest).1 distinct (.inr (counts.some coin lowest).2)
  rw [settleTally]
  split_ifs with exact short
  · rw [counts.sum] at exact
    rw [foldlM_add_nil lowDistinct lowPositive fits]
    exact right_subset positive inside.subperm distinct exact.ge fun _ => .inl exact
  · split
    · rename_i absent
      rw [counts.sum, whole absent] at short
      exact ⟨iff_of_false Bool.false_ne_true (not_le.mpr short), nofun, nofun, nofun, nofun⟩
    · rw [add_single]
      exact larger ‹_›
  · rw [counts.sum] at short
    have enough : nTargetValue ≤ total tally.vValue := not_lt.mp short
    have some : coins ≠ [] := by
      rintro rfl
      rw [counts.lower] at enough
      exact absurd enough (not_le.mpr target)
    obtain ⟨perm, _⟩ := choices.sorted tally.vValue
    have same := total_perm perm
    have sortedPositive : Positive (choices.sort tally.vValue) := fun coin member =>
      lowPositive coin (perm.subset member)
    have found := bestSubset_safe choices sortedPositive (same ▸ fits) (bound some) (same ▸ enough)
    rw [counts.sum]
    rw [← same]
    refine found.bind fun best ⟨sound, change⟩ => ?_
    have part := included_sublist (choices.sort tally.vValue) best.vfBest
    have subset : (included (choices.sort tally.vValue) best.vfBest).foldlM Selected.add {} =
        .ok ⟨included (choices.sort tally.vValue) best.vfBest, best.nBest⟩ := by
      rw [sound.sum]
      refine foldlM_add_nil ?_ (fun coin member => sortedPositive coin (part.subset member))
        (inRange_included sortedPositive (same ▸ fits))
      exact ((perm.map _).nodup_iff.mpr lowDistinct).sublist (part.map _)
    have chosen (enoughChange : nTargetValue + MIN_CHANGE ≤ total coins →
        best.nBest = nTargetValue ∨ nTargetValue + MIN_CHANGE ≤ best.nBest) :
        Right coins nTargetValue true ⟨included (choices.sort tally.vValue) best.vfBest, best.nBest⟩ := by
      have reaches := sound.reaches
      rw [sound.sum] at reaches enoughChange ⊢
      exact right_subset positive ((part.subperm.trans perm.subperm).trans inside.subperm) distinct reaches
        enoughChange
    split
    · rename_i absent
      rw [subset]
      refine chosen fun room => change ?_
      rwa [same, whole absent]
    · rename_i coin lowest
      rw [prefersLarger_ok (bound some)]
      change Safe _ (if decide _ = true then _ else _)
      split
      · rw [add_single]
        exact larger lowest
      · rename_i refused
        rw [subset]
        refine chosen fun _ => ?_
        rw [decide_eq_true_iff] at refused
        by_contra missed
        exact refused (.inl ⟨fun hit => missed (.inl hit), not_le.mp fun high => missed (.inr high)⟩)

end Selections

/-! The loop over the outputs. -/

/-- The coins of the outputs that pass the tests. -/
def Filter.coins (filter : Filter) (vCoins : List COutput) : List CInputCoin :=
  (vCoins.filter filter.eligible).map COutput.coin

variable (nTargetValue : Int)

def lowerCoins (coins : List CInputCoin) : List CInputCoin :=
  coins.filter fun coin => coin.nValue ≠ nTargetValue ∧ coin.nValue < nTargetValue + MIN_CHANGE

/-- The sums that the loop computes over the coins fit into int64_t. -/
def Fits (coins : List CInputCoin) : Prop :=
  (∃ coin ∈ coins, coin.nValue ≠ nTargetValue) →
    InRange (nTargetValue + MIN_CHANGE) ∧ InRange (total (lowerCoins nTargetValue coins))

section Loop
variable {filter : Filter} {nTargetValue : Int} {output : COutput} {vCoins rest : List COutput}

lemma coins_cons_skipped (skipped : filter.eligible output = false) :
    filter.coins (output :: rest) = filter.coins rest := by
  rw [Filter.coins, filter_cons_of_neg (by rw [skipped]; exact Bool.false_ne_true)]
  rfl

lemma coins_cons (eligible : filter.eligible output = true) :
    filter.coins (output :: rest) = output.coin :: filter.coins rest := by
  rw [Filter.coins, filter_cons_of_pos eligible]
  rfl

variable {vCoins' front back : List COutput}

lemma coins_perm (filter : Filter) (perm : vCoins.Perm vCoins') :
    (filter.coins vCoins).Perm (filter.coins vCoins') := (perm.filter _).map _

lemma larger_spec (tally : Tally) (coin : CInputCoin) :
    (tally.larger coin).vValue = tally.vValue ∧ (tally.larger coin).nTotalLower = tally.nTotalLower ∧
    ∃ lowest, (tally.larger coin).coinLowestLarger = some lowest ∧
      (lowest = coin ∨ tally.coinLowestLarger = some lowest) := by
  cases known : tally.coinLowestLarger with
  | none =>
    rw [Tally.larger, known]
    exact ⟨rfl, rfl, coin, rfl, .inl rfl⟩
  | some lowest =>
    rw [Tally.larger, known]
    dsimp only
    split
    · exact ⟨rfl, rfl, coin, rfl, .inl rfl⟩
    · exact ⟨rfl, rfl, lowest, known, .inr rfl⟩

variable {tally : Tally} {coins : List CInputCoin} {coin : CInputCoin}

variable (counts : tally.Counts coins nTargetValue)
include counts

lemma counts_lower (differs : coin.nValue ≠ nTargetValue)
    (below : coin.nValue < nTargetValue + MIN_CHANGE) : Tally.Counts (coins ++ [coin]) nTargetValue
      ⟨tally.coinLowestLarger, tally.vValue ++ [coin], tally.nTotalLower + coin.nValue⟩ where
  free := forall_mem_append.mpr ⟨counts.free, forall_mem_singleton.mpr differs⟩
  lower := by
    rw [filter_append, ← counts.lower, filter_singleton, decide_eq_true below]
    rfl
  sum := by
    rw [total_append, ← counts.sum]
    simp
  none absent := forall_mem_append.mpr ⟨counts.none absent, forall_mem_singleton.mpr below⟩
  some other lowest := ⟨mem_append_left _ (counts.some other lowest).1, (counts.some other lowest).2⟩

lemma Tally.Counts.lowerCoins : tally.vValue = lowerCoins nTargetValue coins := by
  rw [counts.lower]
  refine filter_congr fun coin member => ?_
  simp [counts.free coin member]

lemma counts_larger (differs : coin.nValue ≠ nTargetValue) (above : ¬ coin.nValue < nTargetValue + MIN_CHANGE) :
    (tally.larger coin).Counts (coins ++ [coin]) nTargetValue := by
  obtain ⟨values, lower, lowest, found, origin⟩ := larger_spec tally coin
  refine ⟨forall_mem_append.mpr ⟨counts.free, forall_mem_singleton.mpr differs⟩, ?_, ?_, ?_, ?_⟩
  · rw [values, filter_append, ← counts.lower, filter_singleton, decide_eq_false above]
    exact (append_nil _).symm
  · rw [values, lower, counts.sum]
  · intro absent
    rw [found] at absent
    cases absent
  · intro other same
    rw [found] at same
    cases same
    rcases origin with rfl | known
    · exact ⟨mem_append_right _ mem_cons_self, not_lt.mp above⟩
    · exact ⟨mem_append_left _ (counts.some lowest known).1, (counts.some lowest known).2⟩

lemma tallyCoins_safe (positive : Positive (coins ++ filter.coins vCoins))
    (fits : Fits nTargetValue (coins ++ filter.coins vCoins)) : Safe (fun
        | .inl coin => coin ∈ filter.coins vCoins ∧ coin.nValue = nTargetValue
        | .inr after => after.Counts (coins ++ filter.coins vCoins) nTargetValue)
      (tallyCoins filter nTargetValue vCoins tally) := by
  induction vCoins generalizing tally coins with
  | nil =>
    change tally.Counts (coins ++ []) nTargetValue
    rwa [append_nil]
  | cons output rest ih =>
    rw [tallyCoins]
    cases eligible : filter.eligible output with
    | false =>
      rw [coins_cons_skipped eligible] at positive fits ⊢
      exact ih counts positive fits
    | true =>
      rw [coins_cons eligible] at positive fits ⊢
      simp only [Bool.not_true, Bool.false_eq_true, if_false]
      have shape : coins ++ output.coin :: filter.coins rest =
          coins ++ [output.coin] ++ filter.coins rest := by simp
      split
      · exact ⟨mem_cons_self, ‹_›⟩
      · rename_i differs
        obtain ⟨bound, lowFits⟩ := fits ⟨output.coin, mem_append_right _ mem_cons_self, differs⟩
        have onward {after : Tally} (next : after.Counts (coins ++ [output.coin]) nTargetValue) :
            Safe (fun
                | .inl coin => coin ∈ output.coin :: filter.coins rest ∧ coin.nValue = nTargetValue
                | .inr after => after.Counts (coins ++ output.coin :: filter.coins rest) nTargetValue)
              (tallyCoins filter nTargetValue rest after) := by
          rw [shape] at positive fits ⊢
          refine (ih next positive fits).mono fun result holds => ?_
          cases result with
          | inl coin => exact ⟨mem_cons_of_mem _ holds.1, holds.2⟩
          | inr after => exact holds
        rw [amount_ok bound]
        change Safe _ (if output.coin.nValue < nTargetValue + MIN_CHANGE then _ else _)
        split_ifs with below
        · have next := counts_lower counts differs below
          have range : InRange (tally.nTotalLower + output.coin.nValue) := by
            have sum : tally.nTotalLower + output.coin.nValue =
                total (lowerCoins nTargetValue (coins ++ [output.coin])) :=
              next.sum.trans (congrArg total next.lowerCoins)
            rw [shape] at positive lowFits
            rw [sum]
            refine inRange_sublist (fun coin member => positive coin (mem_of_mem_filter member)) ?_ lowFits
            exact (sublist_append_left _ _).filter _
          rw [amount_ok range]
          exact onward next
        · exact onward (counts_larger counts differs ‹_›)

omit counts

lemma amount_eq_ok : amount value = .ok result ↔ InRange value ∧ value = result := by
  rw [amount]
  split
  · rw [pure_eq_ok, and_iff_right ‹_›]
  · exact iff_of_false (nomatch ·) fun both => absurd both.1 ‹_›

/-- A loop that comes through its first outputs has added up their lower coins. -/
lemma tallyCoins_front {result : CInputCoin ⊕ Tally}
    (free : ∀ coin ∈ filter.coins front, coin.nValue ≠ nTargetValue) (range : InRange tally.nTotalLower)
    (done : tallyCoins filter nTargetValue (front ++ back) tally = .ok result) :
    (filter.coins front ≠ [] → InRange (nTargetValue + MIN_CHANGE)) ∧
      InRange (tally.nTotalLower + total (lowerCoins nTargetValue (filter.coins front))) := by
  induction front generalizing tally with
  | nil =>
    refine ⟨fun some => absurd rfl some, ?_⟩
    change InRange (tally.nTotalLower + 0)
    rwa [Int.add_zero]
  | cons output front ih =>
    rw [cons_append, tallyCoins] at done
    cases eligible : filter.eligible output with
    | false =>
      rw [eligible] at done
      rw [coins_cons_skipped eligible] at free ⊢
      exact ih free range done
    | true =>
      rw [coins_cons eligible] at free ⊢
      obtain ⟨differs, others⟩ := forall_mem_cons.mp free
      simp only [eligible, Bool.not_true, Bool.false_eq_true, if_false, differs] at done
      obtain ⟨bound, computed, done⟩ := bind_eq_ok.mp done
      obtain ⟨fits, rfl⟩ := amount_eq_ok.mp computed
      refine ⟨fun _ => fits, ?_⟩
      split_ifs at done with below
      · obtain ⟨nTotalLower, added, done⟩ := bind_eq_ok.mp done
        obtain ⟨room, rfl⟩ := amount_eq_ok.mp added
        have lower : lowerCoins nTargetValue (output.coin :: filter.coins front) =
            output.coin :: lowerCoins nTargetValue (filter.coins front) :=
          filter_cons_of_pos (decide_eq_true ⟨differs, below⟩)
        rw [lower, total_cons, ← Int.add_assoc]
        exact (ih others room done).2
      · have lower : lowerCoins nTargetValue (output.coin :: filter.coins front) =
            lowerCoins nTargetValue (filter.coins front) :=
          filter_cons_of_neg fun low => below (of_decide_eq_true low).2
        have same := (larger_spec tally output.coin).2.1
        rw [lower, ← same]
        exact (ih others (same ▸ range) done).2

lemma coins_filter (filter : Filter) (chosen : CInputCoin → Bool) (vCoins : List COutput) :
    filter.coins (vCoins.filter fun output => chosen output.coin) = (filter.coins vCoins).filter chosen := by
  rw [Filter.coins, Filter.coins, filter_map, filter_comm]
  rfl

end Loop

/-- The choices under which coins of exactly the target come last. -/
def Choices.exactLast : Choices where
  shuffle vCoins := (vCoins.filter fun output => output.coin.nValue ≠ nTargetValue) ++
    vCoins.filter fun output => !decide (output.coin.nValue ≠ nTargetValue)
  shuffled vCoins := filter_append_perm _ vCoins
  sort vValue := vValue.mergeSort fun first second => second.nValue ≤ first.nValue
  sorted vValue := by
    refine ⟨mergeSort_perm .., ?_⟩
    have ordered : (vValue.mergeSort fun first second => decide (second.nValue ≤ first.nValue)).Pairwise
        fun first second => decide (second.nValue ≤ first.nValue) = true :=
      pairwise_mergeSort (by simp; omega) (by simp; omega) vValue
    simpa using ordered
  randbool _ _ _ := false

section Outcomes
variable {filter : Filter} {vCoins : List COutput} {nTargetValue : Int}

lemma coins_distinct (distinct : (vCoins.map fun output => output.coin.outpoint).Nodup) :
    ((filter.coins vCoins).map CInputCoin.outpoint).Nodup := by
  rw [Filter.coins, map_map]
  exact distinct.sublist (filter_sublist.map _)

lemma coins_positive (positive : ∀ output ∈ vCoins, 0 < output.txout.nValue.toInt) :
    Positive (filter.coins vCoins) := by
  intro coin member
  obtain ⟨output, inside, rfl⟩ := mem_map.mp member
  exact positive output (mem_of_mem_filter inside)

lemma Fits.perm {coins : List CInputCoin} (perm : coins.Perm coins') (fits : Fits nTargetValue coins) :
    Fits nTargetValue coins' := by
  rintro ⟨coin, member, differs⟩
  obtain ⟨bound, sum⟩ := fits ⟨coin, perm.symm.subset member, differs⟩
  exact ⟨bound, total_perm (perm.filter _) ▸ sum⟩

lemma selectCoinsMinConf_safe {choices : Choices} (distinct : (vCoins.map fun output => output.coin.outpoint).Nodup)
    (positive : ∀ output ∈ vCoins, 0 < output.txout.nValue.toInt) (target : 0 < nTargetValue)
    (fits : Fits nTargetValue (filter.coins vCoins)) :
    Safe (fun result => Right (filter.coins vCoins) nTargetValue result.1 result.2)
      (selectCoinsMinConf choices nTargetValue filter vCoins) := by
  have perm := coins_perm filter (choices.shuffled vCoins)
  have positiveCoins : Positive (filter.coins (choices.shuffle vCoins)) := fun coin member =>
    coins_positive positive coin (perm.subset member)
  have distinctCoins := (perm.map CInputCoin.outpoint).nodup_iff.mpr (coins_distinct distinct)
  have shuffledFits := fits.perm perm.symm
  have start : Tally.Counts [] nTargetValue {} := ⟨nofun, rfl, rfl, fun _ => nofun, nofun⟩
  have looped : Safe (fun
      | .inl coin => coin ∈ filter.coins (choices.shuffle vCoins) ∧ coin.nValue = nTargetValue
      | .inr after => after.Counts (filter.coins (choices.shuffle vCoins)) nTargetValue)
      (tallyCoins filter nTargetValue (choices.shuffle vCoins) {}) :=
    tallyCoins_safe start positiveCoins shuffledFits
  refine looped.bind fun result holds => ?_
  cases result with
  | inl coin =>
    dsimp only
    rw [add_single]
    exact (right_single positiveCoins holds.1 distinctCoins (.inl holds.2)).perm perm
  | inr tally =>
    have some (coins : filter.coins (choices.shuffle vCoins) ≠ []) :
        ∃ coin ∈ filter.coins (choices.shuffle vCoins), coin.nValue ≠ nTargetValue := by
      obtain ⟨coin, member⟩ := exists_mem_of_ne_nil _ coins
      exact ⟨coin, member, holds.free coin member⟩
    have sum : InRange (total tally.vValue) := by
      rw [holds.lowerCoins]
      by_cases empty : filter.coins (choices.shuffle vCoins) = []
      · rw [empty]
        exact (by decide : InRange 0)
      · exact (shuffledFits (some empty)).2
    exact (settleTally_safe holds positiveCoins distinctCoins sum
      (fun coins => (shuffledFits (some coins)).1) target).mono fun _ right => right.perm perm

/-- With coins of exactly the target last, every other eligible coin goes through the loop. -/
lemma fits_of_exactLast {result : Bool × Selected}
    (run : selectCoinsMinConf (Choices.exactLast nTargetValue) nTargetValue filter vCoins = .ok result) :
    Fits nTargetValue (filter.coins vCoins) := by
  rintro ⟨coin, member, differs⟩
  obtain ⟨_, looped, _⟩ := bind_eq_ok.mp run
  have front := coins_filter filter (fun coin => decide (coin.nValue ≠ nTargetValue)) vCoins
  have free : ∀ coin ∈ filter.coins (vCoins.filter fun output => output.coin.nValue ≠ nTargetValue),
      coin.nValue ≠ nTargetValue := by
    intro coin member
    rw [front] at member
    simpa using (mem_filter.mp member).2
  obtain ⟨bound, sum⟩ := tallyCoins_front free (by decide) looped
  rw [front] at bound sum
  have lower : lowerCoins nTargetValue
      ((filter.coins vCoins).filter fun coin => decide (coin.nValue ≠ nTargetValue)) =
        lowerCoins nTargetValue (filter.coins vCoins) := by
    rw [lowerCoins, filter_filter]
    refine filter_congr fun coin _ => ?_
    simp only [← Bool.decide_and]
    exact decide_eq_decide.mpr ⟨fun both => both.1, fun both => ⟨both, both.1⟩⟩
  rw [lower] at sum
  refine ⟨bound (ne_nil_of_mem (mem_filter.mpr ⟨member, decide_eq_true differs⟩)), ?_⟩
  simpa using sum

end Outcomes

/-- For distinct coins of positive value and every outcome of the shuffle, the sort and the
draws, SelectCoinsMinConf selects as it should, exactly when the sums that it computes over
the eligible coins stay within int64_t. -/
theorem selectCoinsMinConf_iff (filter : Filter) (vCoins : List COutput)
    (distinct : (vCoins.map fun output => output.coin.outpoint).Nodup)
    (positive : ∀ output ∈ vCoins, 0 < output.txout.nValue.toInt) (nTargetValue : Int64)
    (target : 0 < nTargetValue.toInt) : (∀ choices : Choices, ∃ ret selected,
      selectCoinsMinConf choices nTargetValue.toInt filter vCoins = .ok (ret, selected) ∧
      Right (filter.coins vCoins) nTargetValue.toInt ret selected) ↔
    Fits nTargetValue.toInt (filter.coins vCoins) := by
  constructor
  · intro right
    obtain ⟨_, _, run, _⟩ := right (Choices.exactLast nTargetValue.toInt)
    exact fits_of_exactLast run
  · intro fits choices
    obtain ⟨⟨ret, selected⟩, run, holds⟩ := exists_ok (selectCoinsMinConf_safe distinct positive target fits)
    exact ⟨ret, selected, run, holds⟩

namespace ClosedCoins

/-- The first call of SelectCoins, with no transaction in the mempool. -/
def filter : Filter := ⟨fun _ => none, 1, 6, 0⟩

def output (i : UInt32) (nValue : Int64) : COutput := ⟨Uint256.null, i, ⟨nValue, []⟩, true, 10, true⟩

def vCoins : List COutput := [output 0 2000000, output 1 3000000, output 2 9000000]

theorem three_coins_selected : ∃ ret selected,
    selectCoinsMinConf (Choices.exactLast 4000000) 4000000 filter vCoins = .ok (ret, selected) ∧
      Right (filter.coins vCoins) 4000000 ret selected :=
  (selectCoinsMinConf_iff filter vCoins (by decide) (by decide) 4000000 (by decide)).mpr
    (fun _ => by decide) (Choices.exactLast 4000000)

/-- The largest target and one coin: the bound for a lower coin is out of range. -/
theorem largest_target_overflows : ([output 0 1000].map fun output => output.coin.outpoint).Nodup ∧
    selectCoinsMinConf (Choices.exactLast 9223372036854775807) (9223372036854775807 : Int64).toInt filter
      [output 0 1000] = crash .overflow := by
  constructor
  · decide
  · rfl

end ClosedCoins

end Dragonchain.Wallet
