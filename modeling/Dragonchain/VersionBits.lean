import Dragonchain.TxVerify
import Dragonchain.Median

/-!
The threshold states of versionbits.cpp. A pointer to a block index is the chain
that ends in the block, and nullptr is the empty chain. GetStateFor walks back in
steps of a period until the cache or the start time answers, then forward again; it
is compared with the recursion of BIP9 over all periods from the genesis block.
-/

namespace Dragonchain

open List Function Nat

variable {count number fuel : Nat} {pindex : IndexEntry}

inductive ThresholdState where
  | DEFINED
  | STARTED
  | LOCKED_IN
  | ACTIVE
  | FAILED
  deriving DecidableEq

structure BIP9Deployment where
  bit : Nat
  nStartTime : Int
  nTimeout : Int

def BIP9Deployment.NO_TIMEOUT : Int := 2 ^ 63 - 1
def BIP9Deployment.ALWAYS_ACTIVE : Int := -1

/-- AbstractThresholdConditionChecker with the values of its virtual functions. The
heights are divided by the period, which is never zero. -/
structure AbstractThresholdConditionChecker where
  condition : IndexEntry → Bool
  beginTime : Int
  endTime : Int
  period : Nat
  threshold : Int
  positive : 0 < period

def VERSIONBITS_TOP_MASK : UInt32 := 0xE0000000

variable (deployment : BIP9Deployment)

def versionBitsMask : UInt32 := 1 <<< UInt32.ofNat deployment.bit

def versionBitsCondition (pindex : IndexEntry) : Bool :=
  let nVersion := pindex.header.nVersion.toUInt32
  nVersion &&& VERSIONBITS_TOP_MASK == 0x20000000 && nVersion &&& versionBitsMask deployment != 0

def versionBitsConditionChecker (nMinerConfirmationWindow : Nat)
    (nRuleChangeActivationThreshold : Int) (positive : 0 < nMinerConfirmationWindow) :
    AbstractThresholdConditionChecker where
  condition := versionBitsCondition deployment
  beginTime := deployment.nStartTime
  endTime := deployment.nTimeout
  period := nMinerConfirmationWindow
  threshold := nRuleChangeActivationThreshold
  positive := positive

abbrev ThresholdConditionCache := Ancestry → Option ThresholdState

namespace AbstractThresholdConditionChecker

variable (checker : AbstractThresholdConditionChecker)

/-- The loop that counts signalling blocks along pprev; none is a null pointer. -/
def countBlocks : Nat → Ancestry → Option Int
  | 0, _ => some 0
  | _ + 1, [] => none
  | left + 1, pindexCount :: pprev => do
    let count ← countBlocks left pprev
    pure (if checker.condition pindexCount then count + 1 else count)

variable (state : ThresholdState) (pindexPrev : Ancestry)

/-- The switch of the loop that walks forward. -/
def stateNext : Option ThresholdState :=
  match state with
  | .DEFINED =>
    if pindexPrev.getMedianTimePast ≥ checker.endTime then some .FAILED
    else if pindexPrev.getMedianTimePast ≥ checker.beginTime then some .STARTED
    else some .DEFINED
  | .STARTED =>
    if pindexPrev.getMedianTimePast ≥ checker.endTime then some .FAILED
    else do
      let count ← checker.countBlocks checker.period pindexPrev
      pure (if count ≥ checker.threshold then .LOCKED_IN else .STARTED)
  | .LOCKED_IN => some .ACTIVE
  | .FAILED => some .FAILED
  | .ACTIVE => some .ACTIVE

/-- The walk back; the head of `vToCompute` is its back. -/
def walkBack : Nat → ThresholdConditionCache → Ancestry → List Ancestry →
    ThresholdConditionCache × Ancestry × List Ancestry
  | 0, cache, pindexPrev, vToCompute => (cache, pindexPrev, vToCompute)
  | fuel + 1, cache, pindexPrev, vToCompute =>
    if (cache pindexPrev).isSome then (cache, pindexPrev, vToCompute)
    else if pindexPrev.isEmpty then
      (Function.update cache pindexPrev (some .DEFINED), pindexPrev, vToCompute)
    else if pindexPrev.getMedianTimePast < checker.beginTime then
      (Function.update cache pindexPrev (some .DEFINED), pindexPrev, vToCompute)
    else
      walkBack fuel cache ((pindexPrev.getAncestor (pindexPrev.nHeight - checker.period)).getD [])
        (pindexPrev :: vToCompute)

def walkForward : List Ancestry → ThresholdState → ThresholdConditionCache →
    Option (ThresholdState × ThresholdConditionCache)
  | [], state, cache => some (state, cache)
  | pindexPrev :: vToCompute, state, cache => do
    let state ← checker.stateNext state pindexPrev
    walkForward vToCompute state (Function.update cache pindexPrev (some state))

/-- GetStateFor; none is a failed assertion or a null pointer. -/
def getStateFor (cache : ThresholdConditionCache) : Option (ThresholdState × ThresholdConditionCache) :=
  if checker.beginTime = BIP9Deployment.ALWAYS_ACTIVE then some (.ACTIVE, cache)
  else
    let pindexPrev :=
      if pindexPrev.isEmpty then []
      else
        (pindexPrev.getAncestor (pindexPrev.nHeight - (pindexPrev.nHeight + 1) % checker.period)).getD []
    let (cache, pindexPrev, vToCompute) := checker.walkBack (pindexPrev.length + 1) cache pindexPrev []
    match cache pindexPrev with
    | none => none
    | some state => checker.walkForward vToCompute state cache

variable (history : List Ancestry)

def queries : Option ThresholdConditionCache :=
  history.foldlM (fun cache pindexPrev => (checker.getStateFor pindexPrev cache).map Prod.snd) fun _ => none

def stateAfter (pindexPrev : Ancestry) : Option ThresholdState := do
  let cache ← checker.queries history
  let (state, _) ← checker.getStateFor pindexPrev cache
  pure state

/-! BIP9, over the periods from the genesis block. -/

/-- The state of the next period, by the median time and the signals at the end of
this one. -/
def nextPeriod (lastBlock : Ancestry) : ThresholdState :=
  let expired := checker.endTime ≤ lastBlock.getMedianTimePast
  match state with
  | .DEFINED =>
    if expired then .FAILED
    else if checker.beginTime ≤ lastBlock.getMedianTimePast then .STARTED
    else .DEFINED
  | .STARTED =>
    if expired then .FAILED
    else if checker.threshold ≤ ((lastBlock.take checker.period).countP checker.condition : Nat)
    then .LOCKED_IN
    else .STARTED
  | .LOCKED_IN => .ACTIVE
  | .ACTIVE => .ACTIVE
  | .FAILED => .FAILED

variable (chain : Ancestry)

def firstBlocks (count : Nat) : Ancestry := chain.drop (chain.length - count)

def periodState (chain : Ancestry) : Nat → ThresholdState
  | 0 => .DEFINED
  | number + 1 => checker.nextPeriod (periodState chain number) (firstBlocks chain ((number + 1) * checker.period))

def bip9State : ThresholdState := checker.periodState chain (chain.length / checker.period)

end AbstractThresholdConditionChecker

/-- The moves that BIP9 allows. -/
inductive ThresholdState.Moves : ThresholdState → ThresholdState → Prop
  | start : Moves .DEFINED .STARTED
  | expire : Moves .DEFINED .FAILED
  | lockIn : Moves .STARTED .LOCKED_IN
  | fail : Moves .STARTED .FAILED
  | activate : Moves .LOCKED_IN .ACTIVE

/-- The `time-too-old` rule of ContextualCheckBlockHeader, for each block but the first. -/
def Ancestry.AfterMedianTime : Ancestry → Prop
  | [] => True
  | pindex :: chain =>
    (chain ≠ [] → ¬ ((pindex.header.nTime.toNat : Int) ≤ Ancestry.getMedianTimePast chain)) ∧ AfterMedianTime chain

instance Ancestry.decidableAfterMedianTime : (chain : Ancestry) → Decidable chain.AfterMedianTime
  | [] => .isTrue trivial
  | _ :: chain =>
    have := decidableAfterMedianTime chain
    inferInstanceAs (Decidable (_ ∧ _))

namespace Ancestry

/-- The median time is at least a bound when at least half of the last blocks are. -/
lemma le_getMedianTimePast {chain : Ancestry} (present : chain ≠ []) {bound : Int} :
    bound ≤ chain.getMedianTimePast ↔ min nMedianTimeSpan chain.length - min nMedianTimeSpan chain.length / 2 ≤
        (chain.take nMedianTimeSpan).countP fun entry => bound ≤ (entry.header.nTime.toNat : Int) := by
  have positive := length_pos_of_ne_nil present
  have size : ((chain.take nMedianTimeSpan).map fun entry => (entry.header.nTime.toNat : Int)).length =
      min nMedianTimeSpan chain.length := by
    rw [length_map, length_take]
  have inside : min nMedianTimeSpan chain.length / 2 < min nMedianTimeSpan chain.length := by
    unfold nMedianTimeSpan
    omega
  rw [getMedianTimePast, size, Median.le_getD_insertionSort (by rwa [size]), size, countP_map]
  rfl

/-- A block no earlier than the median time before it does not lower the median. -/
lemma getMedianTimePast_cons {chain : Ancestry} (present : chain ≠ [])
    (later : chain.getMedianTimePast ≤ pindex.header.nTime.toNat) :
    chain.getMedianTimePast ≤ getMedianTimePast (pindex :: chain) := by
  have before := (le_getMedianTimePast present).mp le_rfl
  rw [le_getMedianTimePast (cons_ne_nil _ _)]
  -- The window moves: the new block reaches the median and one old block may drop out.
  set reaches : IndexEntry → Bool := fun entry =>
    decide (chain.getMedianTimePast ≤ (entry.header.nTime.toNat : Int))
  have dropped : (chain.take 11).countP reaches ≤ (chain.take 10).countP reaches + min 1 (chain.length - 10) := by
    have oldest : (chain[10]?.toList.countP reaches) ≤ min 1 (chain.length - 10) := by
      refine countP_le_length.trans ?_
      by_cases full : 10 < chain.length
      · rw [getElem?_eq_getElem full]
        exact Nat.le_min.mpr ⟨le_rfl, Nat.sub_pos_of_lt full⟩
      · rw [getElem?_eq_none_iff.mpr (by omega)]
        exact zero_le _
    rw [take_add_one, countP_append]
    omega
  have joined : (List.take 11 (pindex :: chain)).countP reaches = (chain.take 10).countP reaches + 1 := by
    rw [take_succ_cons, countP_cons, if_pos (decide_eq_true later)]
  rw [nMedianTimeSpan] at before ⊢
  rw [joined, length_cons]
  omega

variable {front chain : Ancestry}

lemma AfterMedianTime.getMedianTimePast_le (present : chain ≠ []) (rule : AfterMedianTime (front ++ chain)) :
    chain.getMedianTimePast ≤ getMedianTimePast (front ++ chain) := by
  induction front with
  | nil => exact le_rfl
  | cons pindex front ih =>
    have nonempty : front ++ chain ≠ [] := append_ne_nil_of_right_ne_nil front present
    have later := Int.not_le.mp (rule.1 nonempty)
    exact (ih rule.2).trans (getMedianTimePast_cons nonempty later.le)

lemma AfterMedianTime.tail (rule : AfterMedianTime (front ++ chain)) : AfterMedianTime chain := by
  induction front with
  | nil => exact rule
  | cons pindex front ih => exact ih rule.2

end Ancestry

namespace AbstractThresholdConditionChecker

variable {front base : Ancestry}

lemma firstBlocks_append {chain : Ancestry} (inside : count ≤ chain.length) :
    firstBlocks (front ++ chain) count = firstBlocks chain count := by
  rw [firstBlocks, firstBlocks, length_append, Nat.add_sub_assoc inside, drop_append,
    drop_of_length_le (Nat.le_add_right _ _), Nat.add_sub_cancel_left, nil_append]

lemma length_firstBlocks {chain : Ancestry} (inside : count ≤ chain.length) :
    (firstBlocks chain count).length = count := by
  rw [firstBlocks, length_drop, Nat.sub_sub_self inside]

lemma firstBlocks_eq_self {chain : Ancestry} (whole : chain.length = count) : firstBlocks chain count = chain := by
  rw [firstBlocks, whole, Nat.sub_self, drop_zero]

lemma exists_append_firstBlocks (chain : Ancestry) (count : Nat) :
    ∃ front, front ++ firstBlocks chain count = chain :=
  ⟨chain.take (chain.length - count), take_append_drop _ _⟩

lemma getAncestor_getD (chain : Ancestry) (inside : count ≤ chain.length) :
    (chain.getAncestor ((count : Int) - 1)).getD [] = firstBlocks chain count := by
  rw [Ancestry.getAncestor, Ancestry.nHeight, firstBlocks]
  cases count with
  | zero => simp
  | succ count =>
    rw [if_neg (by omega), Option.getD_some]
    congr 1
    omega

variable {checker : AbstractThresholdConditionChecker}

lemma countBlocks_eq {chain : Ancestry} (inside : count ≤ chain.length) :
    checker.countBlocks count chain = some ((chain.take count).countP checker.condition : Nat) := by
  induction count generalizing chain with
  | zero => rfl
  | succ count ih =>
    cases chain with
    | nil => cases inside
    | cons pindexCount pprev =>
      rw [countBlocks, ih (le_of_succ_le_succ inside), take_succ_cons, countP_cons]
      by_cases signals : checker.condition pindexCount = true
      · simp [signals]
      · simp [signals]

variable {state : ThresholdState}

lemma stateNext_eq {chain : Ancestry} (inside : checker.period ≤ chain.length) :
    checker.stateNext state chain = some (checker.nextPeriod state chain) := by
  cases state with
  | DEFINED =>
    simp only [stateNext, nextPeriod, ge_iff_le]
    split_ifs <;> rfl
  | STARTED =>
    simp only [stateNext, nextPeriod, ge_iff_le, countBlocks_eq inside]
    split_ifs <;> simp_all
  | LOCKED_IN => rfl
  | ACTIVE => rfl
  | FAILED => rfl

lemma periodState_append {checker : AbstractThresholdConditionChecker} (front chain : Ancestry)
    (inside : number * checker.period ≤ chain.length) :
    checker.periodState (front ++ chain) number = checker.periodState chain number := by
  induction number with
  | zero => rfl
  | succ number ih =>
    have shorter : number * checker.period ≤ chain.length := (Nat.mul_le_mul_right _ (le_succ number)).trans inside
    rw [periodState, ih shorter, firstBlocks_append inside, periodState]

lemma bip9State_firstBlocks (chain : Ancestry) :
    checker.bip9State (firstBlocks chain (chain.length / checker.period * checker.period)) =
      checker.bip9State chain := by
  have inside := div_mul_le_self chain.length checker.period
  obtain ⟨front, joined⟩ := exists_append_firstBlocks chain (chain.length / checker.period * checker.period)
  have size := length_firstBlocks inside
  have same := periodState_append front _ size.ge
  rw [joined] at same
  rw [bip9State, bip9State, size, Nat.mul_div_cancel _ checker.positive, same]

lemma bip9State_step {chain : Ancestry} (inside : checker.period ≤ chain.length)
    (aligned : checker.period ∣ chain.length) : checker.bip9State chain =
      checker.nextPeriod (checker.bip9State (chain.drop checker.period)) chain := by
  obtain ⟨number, size⟩ := aligned
  have positive := checker.positive
  have before : (chain.drop checker.period).length = (number - 1) * checker.period := by
    rw [length_drop, size, Nat.sub_mul, one_mul, mul_comm]
  obtain ⟨last, rfl⟩ : ∃ last, number = last + 1 := by
    cases number with
    | zero => omega
    | succ last => exact ⟨last, rfl⟩
  rw [Nat.add_sub_cancel] at before
  have same := periodState_append (chain.take checker.period) _ before.ge
  rw [take_append_drop] at same
  rw [bip9State, bip9State, size, before, Nat.mul_div_cancel_left _ positive,
    Nat.mul_div_cancel _ positive, periodState, same,
    firstBlocks_eq_self (by rw [size, mul_comm])]

/-- Before the start time every period is DEFINED, since the median time does not
decrease. -/
lemma bip9State_before_start {chain : Ancestry} (ordered : checker.beginTime ≤ checker.endTime)
    (rule : chain.AfterMedianTime) (early : chain.getMedianTimePast < checker.beginTime) :
    checker.bip9State chain = .DEFINED := by
  have periods : ∀ number, number * checker.period ≤ chain.length →
      checker.periodState chain number = .DEFINED := by
    intro number
    induction number with
    | zero => exact fun _ => rfl
    | succ number ih =>
      intro inside
      have shorter : number * checker.period ≤ chain.length :=
        (Nat.mul_le_mul_right _ (le_succ number)).trans inside
      obtain ⟨front, joined⟩ := exists_append_firstBlocks chain ((number + 1) * checker.period)
      have size := length_firstBlocks inside
      have present : firstBlocks chain ((number + 1) * checker.period) ≠ [] := by
        apply ne_nil_of_length_pos
        rw [size]
        exact Nat.mul_pos (succ_pos number) checker.positive
      have before : Ancestry.getMedianTimePast
          (firstBlocks chain ((number + 1) * checker.period)) < checker.beginTime := by
        have below := Ancestry.AfterMedianTime.getMedianTimePast_le present
          (show Ancestry.AfterMedianTime (front ++ _) by rwa [joined])
        rw [joined] at below
        exact lt_of_le_of_lt below early
      rw [periodState, ih shorter, nextPeriod]
      rw [if_neg (not_le.mpr (before.trans_le ordered)), if_neg (not_le.mpr before)]
  exact periods _ (div_mul_le_self _ _)

/-- What the cache holds is right, whatever branch it was computed on. -/
def Sound (checker : AbstractThresholdConditionChecker) (cache : ThresholdConditionCache) : Prop :=
  ∀ chain state, cache chain = some state → state = checker.bip9State chain

variable {cache : ThresholdConditionCache}

lemma Sound.update {chain : Ancestry} (sound : checker.Sound cache) (right : state = checker.bip9State chain) :
    checker.Sound (Function.update cache chain (some state)) := by
  intro other found known
  by_cases same : other = chain
  · subst same
    rw [update_self] at known
    rw [← Option.some.inj known, right]
  · rw [update_of_ne same] at known
    exact sound other found known

/-- The ends of the periods after `base` that are still to be computed. -/
def Linked (checker : AbstractThresholdConditionChecker) : Ancestry → List Ancestry → Prop
  | _, [] => True
  | base, next :: rest =>
    checker.period ≤ next.length ∧ checker.period ∣ next.length ∧
      next.drop checker.period = base ∧ Linked checker next rest

def lastEnd : Ancestry → List Ancestry → Ancestry
  | base, [] => base
  | _, next :: rest => lastEnd next rest

variable {vToCompute : List Ancestry}

lemma walkForward_spec (linked : checker.Linked base vToCompute)
    (sound : checker.Sound cache) : ∃ cache', checker.Sound cache' ∧
      checker.walkForward vToCompute (checker.bip9State base) cache =
        some (checker.bip9State (lastEnd base vToCompute), cache') := by
  induction vToCompute generalizing base cache with
  | nil => exact ⟨cache, sound, rfl⟩
  | cons next rest ih =>
    obtain ⟨inside, aligned, rfl, onward⟩ := linked
    rw [walkForward, stateNext_eq inside, ← bip9State_step inside aligned]
    exact ih onward (sound.update rfl)

lemma walkBack_spec (ordered : checker.beginTime ≤ checker.endTime)
    (enough : base.length < fuel) (aligned : checker.period ∣ base.length)
    (rule : base.AfterMedianTime) (sound : checker.Sound cache) (linked : checker.Linked base vToCompute) :
    ∃ cache' base' vToCompute', checker.walkBack fuel cache base vToCompute = (cache', base', vToCompute') ∧
      checker.Sound cache' ∧ cache' base' = some (checker.bip9State base') ∧
      checker.Linked base' vToCompute' ∧ lastEnd base' vToCompute' = lastEnd base vToCompute := by
  induction fuel generalizing base vToCompute with
  | zero => cases enough
  | succ fuel ih =>
    rw [walkBack]
    cases known : cache base with
    | some state =>
      refine ⟨cache, base, vToCompute, rfl, sound, ?_, linked, rfl⟩
      rw [known, sound base state known]
    | none =>
      rw [if_neg (by simp)]
      by_cases start : base = []
      · have right : ThresholdState.DEFINED = checker.bip9State base := by
          rw [start, bip9State, length_nil, Nat.zero_div]
          rfl
        rw [if_pos (by simp [start])]
        refine ⟨_, base, vToCompute, rfl, sound.update right, ?_, linked, rfl⟩
        rw [update_self, right]
      · rw [if_neg (by simpa using start)]
        by_cases early : base.getMedianTimePast < checker.beginTime
        · have right := (bip9State_before_start ordered rule early).symm
          rw [if_pos early]
          refine ⟨_, base, vToCompute, rfl, sound.update right, ?_, linked, rfl⟩
          rw [update_self, right]
        · rw [if_neg early]
          have positive := checker.positive
          have inside : checker.period ≤ base.length := le_of_dvd (length_pos_of_ne_nil start) aligned
          have parent : (base.getAncestor (base.nHeight - checker.period)).getD [] = base.drop checker.period := by
            rw [show base.nHeight - checker.period = ((base.length - checker.period : Nat) : Int) - 1 by
              rw [Ancestry.nHeight]; omega,
              getAncestor_getD base (sub_le _ _), firstBlocks, Nat.sub_sub_self inside]
          rw [parent]
          have later : Ancestry.AfterMedianTime (base.take checker.period ++ base.drop checker.period) := by
            rwa [take_append_drop]
          apply ih
          · rw [length_drop]
            omega
          · rw [length_drop]
            exact Nat.dvd_sub aligned dvd_rfl
          · exact later.tail
          · exact ⟨inside, aligned, rfl, linked⟩

/-- One query: the answer is that of BIP9, and the cache stays right. -/
lemma getStateFor_spec {chain : Ancestry} (waits : checker.beginTime ≠ BIP9Deployment.ALWAYS_ACTIVE)
    (ordered : checker.beginTime ≤ checker.endTime) (rule : chain.AfterMedianTime)
    (sound : checker.Sound cache) : ∃ cache', checker.Sound cache' ∧
      checker.getStateFor chain cache = some (checker.bip9State chain, cache') := by
  have inside := div_mul_le_self chain.length checker.period
  have start : (if chain.isEmpty then []
      else (chain.getAncestor (chain.nHeight - (chain.nHeight + 1) % checker.period)).getD []) =
      firstBlocks chain (chain.length / checker.period * checker.period) := by
    have height : chain.nHeight - (chain.nHeight + 1) % checker.period =
        ((chain.length / checker.period * checker.period : Nat) : Int) - 1 := by
      have divided := Int.emod_add_mul_ediv chain.length checker.period
      rw [Ancestry.nHeight, Int.sub_add_cancel]
      push_cast
      rw [Int.mul_comm (_ / _)]
      omega
    rw [height, getAncestor_getD chain inside]
    cases chain with
    | nil => simp [firstBlocks]
    | cons pindex pprev => rfl
  obtain ⟨front, joined⟩ := exists_append_firstBlocks chain (chain.length / checker.period * checker.period)
  have aligned : checker.period ∣ (firstBlocks chain (chain.length / checker.period * checker.period)).length := by
    rw [length_firstBlocks inside]
    exact Nat.dvd_mul_left _ _
  have earlier : Ancestry.AfterMedianTime (front ++ _) := joined.symm ▸ rule
  have nothing : checker.Linked (firstBlocks chain (chain.length / checker.period * checker.period)) [] := trivial
  obtain ⟨cache', base, vToCompute, walked, sound', known, linked, last⟩ :=
    walkBack_spec ordered (Nat.lt_add_one _) aligned earlier.tail sound nothing
  obtain ⟨cache'', sound'', forward⟩ := walkForward_spec linked sound'
  refine ⟨cache'', sound'', ?_⟩
  rw [getStateFor, if_neg waits, start]
  dsimp only
  rw [walked]
  dsimp only
  rw [known]
  rwa [last, lastEnd, bip9State_firstBlocks] at forward

variable {history : List Ancestry}

lemma queries_sound (waits : checker.beginTime ≠ BIP9Deployment.ALWAYS_ACTIVE)
    (ordered : checker.beginTime ≤ checker.endTime) (rules : ∀ chain ∈ history, chain.AfterMedianTime) :
    ∃ cache, checker.Sound cache ∧ checker.queries history = some cache := by
  have run : ∀ cache, checker.Sound cache → ∃ cache', checker.Sound cache' ∧
      history.foldlM (fun cache pindexPrev => (checker.getStateFor pindexPrev cache).map Prod.snd)
        cache = some cache' := by
    induction history with
    | nil => exact fun cache sound => ⟨cache, sound, rfl⟩
    | cons chain rest ih =>
      intro cache sound
      obtain ⟨next, right, answer⟩ := getStateFor_spec waits ordered (rules chain mem_cons_self) sound
      rw [foldlM_cons, answer]
      exact ih (fun other later => rules other (mem_cons_of_mem _ later)) next right
  exact run _ fun _ _ known => nomatch known

lemma nextPeriod_moves {chain : Ancestry} :
    checker.nextPeriod state chain = state ∨ state.Moves (checker.nextPeriod state chain) := by
  cases state with
  | DEFINED =>
    simp only [nextPeriod]
    split_ifs
    · exact .inr .expire
    · exact .inr .start
    · exact .inl rfl
  | STARTED =>
    simp only [nextPeriod]
    split_ifs
    · exact .inr .fail
    · exact .inr .lockIn
    · exact .inl rfl
  | LOCKED_IN => exact .inr .activate
  | ACTIVE => exact .inl rfl
  | FAILED => exact .inl rfl

lemma stateAfter_eq {chain : Ancestry} (waits : checker.beginTime ≠ BIP9Deployment.ALWAYS_ACTIVE)
    (ordered : checker.beginTime ≤ checker.endTime)
    (rules : ∀ chain ∈ history, chain.AfterMedianTime) (rule : chain.AfterMedianTime) :
    checker.stateAfter history chain = some (checker.bip9State chain) := by
  obtain ⟨cache, sound, filled⟩ := queries_sound waits ordered rules
  obtain ⟨_, _, answer⟩ := getStateFor_spec waits ordered rule sound
  rw [stateAfter, filled, Option.bind_eq_bind, Option.bind_some, answer]
  rfl

lemma bip9State_same_period {chain : Ancestry} (front : Ancestry)
    (same : (front ++ chain).length / checker.period = chain.length / checker.period) :
    checker.bip9State (front ++ chain) = checker.bip9State chain := by
  rw [bip9State, bip9State, same]
  exact periodState_append front chain (div_mul_le_self _ _)

lemma bip9State_moves {chain : Ancestry} :
    checker.bip9State (pindex :: chain) = checker.bip9State chain ∨
      (checker.bip9State chain).Moves (checker.bip9State (pindex :: chain)) := by
  by_cases aligned : checker.period ∣ chain.length + 1
  · -- The block ends a period.
    have inside : checker.period ≤ (pindex :: chain).length := le_of_dvd (succ_pos _) aligned
    have before : checker.bip9State ((pindex :: chain).drop checker.period) = checker.bip9State chain := by
      obtain ⟨rest, period⟩ := Nat.exists_eq_add_of_lt checker.positive
      obtain ⟨number, size⟩ := aligned
      rw [period, zero_add, drop_succ_cons]
      conv_rhs => rw [← take_append_drop rest chain]
      apply Eq.symm
      apply bip9State_same_period
      rw [take_append_drop, length_drop]
      cases number with
      | zero => omega
      | succ number =>
        rw [mul_succ] at size
        rw [show chain.length = rest + checker.period * number by omega,
          add_mul_div_left _ _ checker.positive, Nat.add_sub_cancel_left,
          Nat.mul_div_cancel_left _ checker.positive, div_eq_of_lt (by omega), zero_add]
    rw [bip9State_step inside aligned, before]
    exact nextPeriod_moves
  · left
    apply bip9State_same_period [pindex]
    show (chain.length + 1) / checker.period = chain.length / checker.period
    rw [Nat.succ_div, if_neg aligned, add_zero]

/-- After any queries GetStateFor answers as BIP9 does. -/
theorem getStateFor_bip9 (checker : AbstractThresholdConditionChecker)
    (waits : checker.beginTime ≠ BIP9Deployment.ALWAYS_ACTIVE)
    (ordered : checker.beginTime ≤ checker.endTime) (history : List Ancestry)
    (rules : ∀ chain ∈ history, chain.AfterMedianTime) (chain : Ancestry) (rule : chain.AfterMedianTime) :
    checker.stateAfter history chain = some (checker.bip9State chain) ∧
      (∀ front, Ancestry.AfterMedianTime (front ++ chain) →
        (front ++ chain).length / checker.period = chain.length / checker.period →
        checker.stateAfter history (front ++ chain) = checker.stateAfter history chain) ∧
      ∀ pindex, Ancestry.AfterMedianTime (pindex :: chain) →
        ∃ state state', checker.stateAfter history chain = some state ∧
          checker.stateAfter history (pindex :: chain) = some state' ∧
          (state' = state ∨ state.Moves state') := by
  have answer := stateAfter_eq waits ordered rules rule
  refine ⟨answer, ?_, ?_⟩
  · intro front rule' same
    rw [stateAfter_eq waits ordered rules rule', answer, bip9State_same_period front same]
  · intro pindex rule'
    exact ⟨_, _, answer, stateAfter_eq waits ordered rules rule', bip9State_moves⟩

namespace SmallWindow

/-- The regtest deployment on bit 28, with a window of two blocks. -/
def deployed : AbstractThresholdConditionChecker :=
  versionBitsConditionChecker ⟨28, 0, BIP9Deployment.NO_TIMEOUT⟩ 2 2 (by decide)

def block (number nTime : UInt32) (nVersion : Int32) : IndexEntry :=
  ⟨Uint256.filled number.toUInt8, ⟨nVersion, Uint256.null, Uint256.null, nTime, 0, number⟩⟩

/-- Six blocks, of which the third and fourth signal. -/
def chain : Ancestry :=
  [block 5 60 0x20000000, block 4 50 0x20000000, block 3 40 0x30000000, block 2 30 0x30000000,
    block 1 20 0x20000000, block 0 10 1]

/-- A branch from the second block that does not signal. -/
def branch : Ancestry := [block 7 35 0x20000000, block 6 33 0x20000000, block 1 20 0x20000000, block 0 10 1]

theorem active_after_branch : deployed.stateAfter [branch] chain = some (deployed.bip9State chain) ∧
      deployed.bip9State chain = .ACTIVE ∧ deployed.bip9State branch = .STARTED :=
  ⟨(getStateFor_bip9 deployed (by decide) (by decide) [branch]
      (forall_mem_singleton.mpr (by decide)) chain (by decide)).1,
    by decide +kernel, by decide +kernel⟩

end SmallWindow

end AbstractThresholdConditionChecker

end Dragonchain
