import Dragonchain.FalconVerify
import Dragonchain.Interpreter
import Dragonchain.SignatureHash

/-!
TransactionSignatureChecker of script/interpreter.cpp: the checks that CHECKSIG,
CHECKLOCKTIMEVERIFY and CHECKSEQUENCEVERIFY make against one input of a transaction.
-/

namespace Dragonchain.Script

def SEQUENCE_LOCKTIME_DISABLE_FLAG : Nat := 0x80000000
def SEQUENCE_LOCKTIME_TYPE_FLAG : Nat := 0x00400000

structure TransactionSignatureChecker where
  txTo : CTransaction
  nIn : Fin txTo.vin.length
  amount : Int64
  txdata : Option PrecomputedTransactionData

namespace TransactionSignatureChecker
variable (checker : TransactionSignatureChecker)

def txin : CTxIn := checker.txTo.vin.get checker.nIn

def checkSig (crypto : Crypto) (arithmetic : Falcon.Arithmetic) (vchSigIn vchPubKey scriptCode : Bytes)
    (sigversion : SigVersion) : Bool :=
  let pubkey := CPubKey.ofBytes vchPubKey
  if !pubkey.isValid then false
  else
    match vchSigIn.getLast? with
    | none => false
    | some back =>
      let nHashType := Int32.ofNat back.toNat
      let sighash := signatureHash crypto scriptCode checker.txTo checker.nIn nHashType checker.amount
        sigversion checker.txdata
      pubkey.verify arithmetic sighash vchSigIn.dropLast

def checkLockTime (nLockTime : Int) : Bool :=
  let txLockTime : Int := checker.txTo.nLockTime.toNat
  if !((decide (txLockTime < LOCKTIME_THRESHOLD) && decide (nLockTime < LOCKTIME_THRESHOLD))
      || (decide (txLockTime ≥ LOCKTIME_THRESHOLD) && decide (nLockTime ≥ LOCKTIME_THRESHOLD))) then
    false
  else if nLockTime > txLockTime then false
  else checker.txin.nSequence != 0xffffffff

def sequenceMask : Nat := SEQUENCE_LOCKTIME_TYPE_FLAG ||| 0xffff

/-- The operand is not negative: EvalScript has checked that. -/
def checkSequence (nSequence : Int) : Bool :=
  let txToSequence := checker.txin.nSequence.toNat
  let txToSequenceMasked := txToSequence &&& sequenceMask
  let nSequenceMasked := nSequence.toNat &&& sequenceMask
  if checker.txTo.nVersion.toUInt32 < 2 then false
  else if txToSequence &&& SEQUENCE_LOCKTIME_DISABLE_FLAG ≠ 0 then false
  else if !((decide (txToSequenceMasked < SEQUENCE_LOCKTIME_TYPE_FLAG)
        && decide (nSequenceMasked < SEQUENCE_LOCKTIME_TYPE_FLAG))
      || (decide (txToSequenceMasked ≥ SEQUENCE_LOCKTIME_TYPE_FLAG)
        && decide (nSequenceMasked ≥ SEQUENCE_LOCKTIME_TYPE_FLAG))) then false
  else decide (nSequenceMasked ≤ txToSequenceMasked)

def toBase (crypto : Crypto) (arithmetic : Falcon.Arithmetic) : BaseSignatureChecker where
  checkSig := checker.checkSig crypto arithmetic
  checkLockTime := checker.checkLockTime
  checkSequence := checker.checkSequence

end TransactionSignatureChecker

end Dragonchain.Script
