import Dragonchain.Policy

/-!
The weight of a transaction: its stripped size counted four times, and what the witness adds.
-/

namespace Dragonchain.Policy

open Script Serialization ByteCodec List

lemma length_writeCompactSize (nSize : Nat) : (writeCompactSize nSize).length = getSizeOfCompactSize nSize := by
  unfold writeCompactSize getSizeOfCompactSize
  split_ifs <;> simp

lemma length_serializeBytes (data : Bytes) :
    (serializeBytes data).length = getSizeOfCompactSize data.length + data.length := by
  rw [serializeBytes, length_append, length_writeCompactSize]

variable (witness : List Bytes)

def stackBytes : Nat :=
  getSizeOfCompactSize witness.length + (witness.map fun item => getSizeOfCompactSize item.length + item.length).sum

/-- What the witness adds to the serialized size: the marker, the flag and the stack of
every input. -/
def witnessBytes (tx : CTransaction) : Nat :=
  if tx.hasWitness then 2 + (tx.vin.map fun txin => stackBytes txin.scriptWitness).sum else 0

lemma length_stack : (serializeVector serializeBytes witness).length = stackBytes witness := by
  simp [serializeVector, stackBytes, length_writeCompactSize, length_serializeBytes]

lemma length_serializeTransaction (tx : CTransaction) :
    (serializeTransaction true tx).length = (serializeTransaction false tx).length + witnessBytes tx := by
  have stacked : (serializeWitness tx).length = (tx.vin.map fun txin => stackBytes txin.scriptWitness).sum := by
    simp [serializeWitness, length_stack]
  cases carries : tx.hasWitness with
  | false => simp [serializeTransaction, witnessBytes, carries]
  | true =>
    simp only [serializeTransaction, witnessBytes, carries, Bool.true_and, Bool.false_and,
      if_true, Bool.false_eq_true, if_false, length_append, length_nil, stacked]
    simp only [serializeVector, flatMap_nil, length_append, length_writeCompactSize, length_nil, length_singleton]
    have empty : getSizeOfCompactSize 0 = 1 := rfl
    omega

lemma getTransactionWeight_eq (tx : CTransaction) : getTransactionWeight tx =
      (serializeTransaction false tx).length * WITNESS_SCALE_FACTOR + witnessBytes tx := by
  simp only [getTransactionWeight, length_serializeTransaction, WITNESS_SCALE_FACTOR]
  omega

namespace Stuffed

lemma length_keyID : (replicate 20 0 : Bytes).length = 20 := rfl

def payment : CTxOut := ⟨546, getScriptForPubKeyHash ⟨replicate 20 0, length_keyID⟩⟩

/-- One input with one witness item, and a number of payments above the dust threshold. -/
def tx (count size : Nat) : CTransaction where
  vin := [⟨⟨Uint256.one, 0⟩, [], 0xffffffff, [replicate size 0]⟩]
  vout := replicate count payment
  nVersion := 2
  nLockTime := 0

lemma length_payment : (serializeTxOut payment).length = 34 := by decide

lemma length_tx (count size : Nat) :
    (serializeTransaction false (tx count size)).length = 50 + getSizeOfCompactSize count + count * 34 := by
  have input : (serializeVector serializeTxIn (tx count size).vin).length = 42 := by
    simp [tx, serializeVector, serializeTxIn, serializeOutPoint, serializeUInt32, length_serializeBytes,
      length_writeCompactSize, getSizeOfCompactSize, Uint256.size]
  have outputs : (serializeVector serializeTxOut (tx count size).vout).length =
      getSizeOfCompactSize count + count * 34 := by
    simp [tx, serializeVector, length_writeCompactSize, length_payment]
  simp only [serializeTransaction, Bool.false_and, Bool.false_eq_true, if_false, length_append,
    length_nil, input, outputs, serializeInt32, serializeUInt32, length_leBytes]
  omega

lemma witnessBytes_tx (count size : Nat) :
    witnessBytes (tx count size) = 3 + (getSizeOfCompactSize size + size) := by
  simp [witnessBytes, tx, CTransaction.hasWitness, stackBytes, getSizeOfCompactSize]
  omega

end Stuffed

end Dragonchain.Policy
