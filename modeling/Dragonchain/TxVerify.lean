import Mathlib.Data.List.Sort
import Dragonchain.Script
import Dragonchain.Serialization

/-!
The context-free and chain-dependent transaction checks of consensus/tx_verify.cpp,
and the part of chain.h they read. A block index entry is known by its ancestry: the
list of entries from it back to the genesis block, itself first.
-/

namespace Dragonchain

open Script Serialization

def REJECT_INVALID : UInt8 := 0x10

structure Reject where
  nDoS : Nat
  chRejectCode : UInt8
  strRejectReason : String
  corruptionPossible : Bool := false
  deriving DecidableEq

/-- state.DoS(level, false, REJECT_INVALID, reason). -/
def dos (level : Nat) (reason : String) : Reject := ⟨level, REJECT_INVALID, reason, false⟩

/-- state.DoS with corruptionIn set. -/
def corrupt (level : Nat) (reason : String) : Reject := ⟨level, REJECT_INVALID, reason, true⟩

abbrev Check := Except Reject Unit

def check (condition : Bool) (reject : Reject) : Check := if condition then .ok () else .error reject

lemma check_ok {condition : Bool} {reject : Reject} (passed : check condition reject = .ok ()) :
    condition = true := by
  cases condition with
  | true => rfl
  | false => cases passed

variable {ε α β : Type} {action : Except ε α}

lemma ok_bind (value : α) (next : α → Except ε β) : (Except.ok value >>= next) = next value := rfl

variable {items : List α} {after : α → β} {result : β}

lemma ok_of_bind {next : α → Except ε β}
    (done : action >>= next = .ok result) : ∃ value, action = .ok value ∧ next value = .ok result := by
  cases action with
  | error failure => cases done
  | ok value => exact ⟨value, rfl, done⟩

lemma ok_of_map
    (finished : action.map after = .ok result) : ∃ value, action = .ok value ∧ after value = result := by
  cases action with
  | error fault => cases finished
  | ok value => exact ⟨value, rfl, Except.ok.inj finished⟩

lemma ok_map (finishes : ∃ value, action = .ok value) : ∃ result, action.map after = .ok result := by
  obtain ⟨value, rfl⟩ := finishes
  exact ⟨_, rfl⟩

instance decidableOk {holds : α → Prop} [DecidablePred holds] :
    Decidable (∃ value, action = .ok value ∧ holds value) :=
  match action with
  | .error _ => isFalse (by simp)
  | .ok value => decidable_of_iff (holds value) (by simp)

lemma forM_ok {action : α → Check}
    (passed : items.forM action = .ok ()) : ∀ item ∈ items, action item = .ok () := by
  induction items with
  | nil => simp
  | cons first rest ih =>
    have steps : (action first >>= fun _ => rest.forM action) = .ok () := passed
    obtain ⟨_, here, onward⟩ := ok_of_bind steps
    rintro item (_ | ⟨_, later⟩)
    · exact here
    · exact ih onward item later

lemma forM_of_ok {action : α → Check}
    (each : ∀ item ∈ items, action item = .ok ()) : items.forM action = .ok () := by
  induction items with
  | nil => rfl
  | cons first rest ih =>
    show (action first >>= fun _ => rest.forM action) = .ok ()
    rw [each first List.mem_cons_self, ok_bind]
    exact ih fun item member => each item (List.mem_cons_of_mem _ member)

structure IndexEntry where
  hash : Uint256
  header : CBlockHeader
  deriving DecidableEq

abbrev Ancestry := List IndexEntry

namespace Ancestry

variable (chain : Ancestry)

def nHeight : Int := (chain.length : Int) - 1

def getAncestor (height : Int) : Option Ancestry :=
  if height < 0 ∨ height > chain.nHeight then none
  else some (chain.drop (chain.nHeight - height).toNat)

def nMedianTimeSpan : Nat := 11

def getMedianTimePast : Int :=
  let times := (chain.take nMedianTimeSpan).map fun entry => (entry.header.nTime.toNat : Int)
  (times.insertionSort (· ≤ ·)).getD (times.length / 2) 0

end Ancestry

def SEQUENCE_FINAL : UInt32 := 0xffffffff
def SEQUENCE_LOCKTIME_MASK : UInt32 := 0x0000ffff
def SEQUENCE_LOCKTIME_GRANULARITY : Nat := 9

variable (tx : CTransaction)

def isFinalTx (nBlockHeight nBlockTime : Int) : Bool :=
  if tx.nLockTime = 0 then true
  else if (tx.nLockTime.toNat : Int) <
      (if tx.nLockTime.toNat < LOCKTIME_THRESHOLD then nBlockHeight else nBlockTime) then true
  else tx.vin.all fun txin => txin.nSequence == SEQUENCE_FINAL

/-- One input of CalculateSequenceLocks; `none` is a null CBlockIndex. -/
def sequenceLock (block : Ancestry) (lock : Int × Int) (input : CTxIn × Int) : Option (Int × Int) :=
  let (nMinHeight, nMinTime) := lock
  let (txin, nCoinHeight) := input
  let masked := (txin.nSequence &&& SEQUENCE_LOCKTIME_MASK).toNat
  if txin.nSequence.toNat.testBit 31 then some lock
  else if txin.nSequence.toNat.testBit 22 then do
    let ancestor ← block.getAncestor (max (nCoinHeight - 1) 0)
    let nCoinTime := ancestor.getMedianTimePast
    some (nMinHeight, max nMinTime (nCoinTime + (masked <<< SEQUENCE_LOCKTIME_GRANULARITY : Nat) - 1))
  else some (max nMinHeight (nCoinHeight + masked - 1), nMinTime)

variable (verifySequence : Bool) (prevHeights : List Int) (block : Ancestry)

def calculateSequenceLocks
 : Option (Int × Int) :=
  let fEnforceBIP68 := tx.nVersion.toUInt32 ≥ 2 && verifySequence
  if !fEnforceBIP68 then some (-1, -1)
  else (tx.vin.zip prevHeights).foldlM (sequenceLock block) (-1, -1)

def evaluateSequenceLocks (lockPair : Int × Int) : Bool :=
  let nBlockTime := Ancestry.getMedianTimePast block.tail
  !(lockPair.1 ≥ block.nHeight || lockPair.2 ≥ nBlockTime)

def sequenceLocks
 : Option Bool := (calculateSequenceLocks tx verifySequence prevHeights block).map (evaluateSequenceLocks block)

def getLegacySigOpCount : UInt32 :=
  let nSigOps := tx.vin.foldl (fun nSigOps txin => nSigOps + getSigOpCount false txin.scriptSig) 0
  tx.vout.foldl (fun nSigOps txout => nSigOps + getSigOpCount false txout.scriptPubKey) nSigOps

/-- The loop of CheckTransaction over the outputs, from the sum of those before. -/
def checkOutputs (nValueOut : CAmount) : List CTxOut → Check
  | [] => .ok ()
  | txout :: rest => do
    check (!(txout.nValue.toInt < 0)) (dos 100 "bad-txns-vout-negative")
    check (!(txout.nValue.toInt > MAX_MONEY)) (dos 100 "bad-txns-vout-toolarge")
    let nValueOut := nValueOut + txout.nValue.toInt
    check (moneyRange nValueOut) (dos 100 "bad-txns-txouttotal-toolarge")
    checkOutputs nValueOut rest

def checkInputShape : Check :=
  if tx.isCoinBase then
    let size := ((tx.vin.map CTxIn.scriptSig).headD []).length
    check (!(size < 2 || size > 100)) (dos 100 "bad-cb-length")
  else check (tx.vin.all fun txin => !txin.prevout.isNull) (dos 10 "bad-txns-prevout-null")

def checkTransaction (fCheckDuplicateInputs : Bool) : Check := do
  check (!tx.vin.isEmpty) (dos 10 "bad-txns-vin-empty")
  check (!tx.vout.isEmpty) (dos 10 "bad-txns-vout-empty")
  check (!((serializeTransaction false tx).length * WITNESS_SCALE_FACTOR > MAX_BLOCK_WEIGHT))
    (dos 100 "bad-txns-oversize")
  checkOutputs 0 tx.vout
  check (!fCheckDuplicateInputs || decide (tx.vin.map CTxIn.prevout).Nodup) (dos 100 "bad-txns-inputs-duplicate")
  checkInputShape tx

def valueOut (vout : List CTxOut) : CAmount := (vout.map fun txout => txout.nValue.toInt).sum

lemma checkOutputs_passed {nValueOut : CAmount} {vout : List CTxOut} (passed : checkOutputs nValueOut vout = .ok ()) :
    ∀ txout ∈ vout, 0 ≤ txout.nValue.toInt ∧ txout.nValue.toInt ≤ MAX_MONEY := by
  induction vout generalizing nValueOut with
  | nil => simp
  | cons first rest ih =>
    obtain ⟨_, positive, passed⟩ := ok_of_bind passed
    obtain ⟨_, small, passed⟩ := ok_of_bind passed
    obtain ⟨_, _, onward⟩ := ok_of_bind passed
    have low := check_ok positive
    have high := check_ok small
    rintro txout (_ | ⟨_, later⟩)
    · simp only [Bool.not_eq_true', decide_eq_false_iff_not, not_lt] at low high
      exact ⟨low, high⟩
    · exact ih onward txout later

structure CheckedTransaction (tx : CTransaction) : Prop where
  size : (serializeTransaction false tx).length * WITNESS_SCALE_FACTOR ≤ MAX_BLOCK_WEIGHT
  values : ∀ txout ∈ tx.vout, 0 ≤ txout.nValue.toInt ∧ txout.nValue.toInt ≤ MAX_MONEY
  distinct : (tx.vin.map CTxIn.prevout).Nodup

lemma checkTransaction_passed {tx : CTransaction} (passed : checkTransaction tx true = .ok ()) :
    CheckedTransaction tx := by
  obtain ⟨_, _, passed⟩ := ok_of_bind passed
  obtain ⟨_, _, passed⟩ := ok_of_bind passed
  obtain ⟨_, size, passed⟩ := ok_of_bind passed
  obtain ⟨_, outputs, passed⟩ := ok_of_bind passed
  obtain ⟨_, distinct, _⟩ := ok_of_bind passed
  exact
    { size := by simpa using check_ok size
      values := checkOutputs_passed outputs
      distinct := by simpa using check_ok distinct }

end Dragonchain
