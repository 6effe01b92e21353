import Dragonchain.Standard
import Dragonchain.TxVerify

/-!
The dust threshold of policy/policy.cpp and the fee rates of policy/feerate.cpp. A fee is an
integer; where the int64 product of GetFee overflows, which C++ leaves undefined, the model
has a fault.
-/

namespace Dragonchain.Policy

open Script Serialization

def MAX_STANDARD_TX_WEIGHT : Nat := 128000000
def DUST_RELAY_TX_FEE : Int64 := 3000

structure CFeeRate where
  nSatoshisPerK : Int64
  deriving DecidableEq

inductive FeeFault where
  | assertion
  | overflow
  deriving DecidableEq

/-- The fee of GetFee in exact integers; the division of C++ rounds towards zero. -/
def exactFee (nSatoshisPerK : Int) (nSize : Nat) : Int :=
  let nFee := (nSatoshisPerK * nSize).tdiv 1000
  if nFee = 0 ∧ nSize ≠ 0 then
    if nSatoshisPerK > 0 then 1 else if nSatoshisPerK < 0 then -1 else nFee
  else nFee

def CFeeRate.getFee (rate : CFeeRate) (nBytes : Nat) : Except FeeFault Int :=
  let product := rate.nSatoshisPerK.toInt * nBytes
  if 2 ^ 63 ≤ nBytes then .error .assertion
  else if product < -2 ^ 63 ∨ 2 ^ 63 ≤ product then .error .overflow
  else .ok (exactFee rate.nSatoshisPerK.toInt nBytes)

def getDustThreshold (txout : CTxOut) (dustRelayFeeIn : CFeeRate) : Except FeeFault Int :=
  if isUnspendable txout.scriptPubKey then .ok 0
  else
    let nSize := (serializeTxOut txout).length
    if (isWitnessProgram txout.scriptPubKey).isSome then
      dustRelayFeeIn.getFee (nSize + (32 + 4 + 1 + 107 / WITNESS_SCALE_FACTOR + 4))
    else dustRelayFeeIn.getFee (nSize + (32 + 4 + 1 + 107 + 4))

def isDust (txout : CTxOut) (dustRelayFeeIn : CFeeRate) : Except FeeFault Bool :=
  (getDustThreshold txout dustRelayFeeIn).map fun threshold => txout.nValue.toInt < threshold

end Dragonchain.Policy
