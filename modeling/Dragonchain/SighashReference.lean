import Dragonchain.ScriptRuns
import Dragonchain.SignatureHash

/-!
The signature hash as test/sighash_tests.cpp states it: a copy of the transaction is changed
and serialized. The serializer of script/interpreter.cpp writes the same bytes in one pass.
-/

namespace Dragonchain.Script

open Serialization List

variable {script kept scriptCode : Bytes} {count fuel nIn : Nat} {nHashType : Int32}

/-- Blanks the scriptSigs; the signed input gets the script code. -/
def blankSignature (scriptCode : Bytes) (nIn i : Nat) (txin : CTxIn) : CTxIn :=
  { txin with scriptSig := if i = nIn then scriptCode else [] }

def letUpdate (nIn i : Nat) (txin : CTxIn) : CTxIn := if i ≠ nIn then { txin with nSequence := 0 } else txin

def blankOutput (nIn i : Nat) (txout : CTxOut) : CTxOut := if i < nIn then CTxOut.null else txout

/-- SignatureHashOld. Its test of nIn is the type of `nIn`. -/
def signatureHashOld (crypto : Crypto) (scriptCode : Bytes) (txTo : CTransaction)
    (nIn : Fin txTo.vin.length) (nHashType : Int32) : Uint256 :=
  let scriptCode := (findAndDelete scriptCode [OP_CODESEPARATOR]).2
  let vin := txTo.vin.mapIdx (blankSignature scriptCode nIn)
  let hash (vin : List CTxIn) (vout : List CTxOut) : Uint256 :=
    -- the signed input takes the place of the first, and the inputs are resized to one
    let vin := if anyoneCanPay nHashType then vin[nIn.val]?.toList else vin
    crypto.hash256 (serializeTransaction false ⟨vin, vout, txTo.nVersion, txTo.nLockTime⟩
      ++ serializeInt32 nHashType)
  if hashNone nHashType then hash (vin.mapIdx (letUpdate nIn)) []
  else if hashSingle nHashType then
    if nIn.val ≥ txTo.vout.length then Uint256.one
    else hash (vin.mapIdx (letUpdate nIn)) ((txTo.vout.take (nIn + 1)).mapIdx (blankOutput nIn))
  else hash vin txTo.vout

/-! The script code. -/

/-- How many separators a completely parsed script has, and what is left without them. -/
inductive Separated : Bytes → Nat → Bytes → Prop where
  | nil : Separated [] 0 []
  | separator {rest kept : Bytes} {count : Nat} (later : Separated rest count kept) :
    Separated (OP_CODESEPARATOR :: rest) (count + 1) kept
  | other {opcode : UInt8} {vch front rest kept : Bytes} {count : Nat}
    (parsed : getOp (opcode :: (front ++ rest)) = some (opcode, vch, rest))
    (other : opcode ≠ OP_CODESEPARATOR) (later : Separated rest count kept) :
    Separated (opcode :: (front ++ rest)) count (opcode :: (front ++ kept))

lemma exists_separated (complete : (ops script).2 = true) : ∃ count kept, Separated script count kept := by
  induction size : script.length using Nat.strongRecOn generalizing script with
  | ind size ih =>
    cases parsed : getOp script with
    | none =>
      cases script with
      | nil => exact ⟨0, [], .nil⟩
      | cons first pc =>
        rw [ops, length_cons, parseOps, parsed] at complete
        cases complete
    | some op =>
      obtain ⟨opcode, vch, rest⟩ := op
      have shorter := getOp_length parsed
      rw [ops_next parsed] at complete
      obtain ⟨count, kept, later⟩ := ih rest.length (by omega) complete rfl
      obtain ⟨front, rfl, -, plain⟩ := getOp_inv parsed
      by_cases separator : opcode = OP_CODESEPARATOR
      · subst separator
        obtain ⟨rfl, rfl⟩ := plain (by decide)
        exact ⟨count + 1, kept, .separator later⟩
      · rw [← append_assoc] at parsed ⊢
        exact ⟨count, _, .other parsed separator later⟩

lemma deleteFrom_separator (fuel : Nat) (rest : Bytes) :
    deleteFrom [OP_CODESEPARATOR] (fuel + 1) (OP_CODESEPARATOR :: rest) =
      ((deleteFrom [OP_CODESEPARATOR] (fuel + 1) rest).1 + 1,
        (deleteFrom [OP_CODESEPARATOR] (fuel + 1) rest).2) := by
  have skipped : skipCopies [OP_CODESEPARATOR] (rest.length + 1) (OP_CODESEPARATOR :: rest) =
      ((skipCopies [OP_CODESEPARATOR] rest.length rest).1 + 1,
        (skipCopies [OP_CODESEPARATOR] rest.length rest).2) := rfl
  rw [deleteFrom, deleteFrom, length_cons, skipped]
  dsimp only
  cases getOp (skipCopies [OP_CODESEPARATOR] rest.length rest).2 with
  | none => rfl
  | some op => exact Prod.ext (add_right_comm ..) rfl

namespace Separated
variable (separated : Separated script count kept)
include separated

lemma length : count + kept.length = script.length := by
  induction separated with
  | nil => rfl
  | separator later ih => rw [length_cons]; omega
  | other parsed other later ih => simp only [length_cons, length_append]; omega

lemma kept_eq (absent : count = 0) : kept = script := by
  induction separated with
  | nil => rfl
  | separator later ih => cases absent
  | other parsed other later ih => rw [ih absent]

/-- The two passes of the serializer and the loop of FindAndDelete. -/
lemma passes (enough : script.length ≤ fuel) :
    countSeparators fuel script = count ∧ skipSeparators (fuel + 1) script = kept ∧
      deleteFrom [OP_CODESEPARATOR] (fuel + 1) script = (count, kept) := by
  induction separated generalizing fuel with
  | nil => cases fuel <;> exact ⟨rfl, rfl, rfl⟩
  | @separator rest kept count later ih =>
    cases fuel with
    | zero => cases enough
    | succ fuel =>
      obtain ⟨counted, skipped, _⟩ := ih (Nat.le_of_succ_le_succ enough)
      refine ⟨?_, ?_, ?_⟩
      · rw [countSeparators, getOp_plain _ (by decide), ← counted, add_comm]
        rfl
      · rw [skipSeparators, getOp_plain _ (by decide), ← skipped]
        rfl
      · rw [deleteFrom_separator, (ih ((Nat.le_succ _).trans enough)).2.2]
  | @other opcode vch front rest kept count parsed other later ih =>
    cases fuel with
    | zero => cases enough
    | succ fuel =>
      have shorter := getOp_length parsed
      obtain ⟨counted, skipped, deleted⟩ := @ih fuel (by omega)
      have taken : (opcode :: (front ++ rest)).take ((opcode :: (front ++ rest)).length - rest.length) =
          opcode :: front := by
        rw [← cons_append]
        exact take_left' (by rw [length_append]; omega)
      refine ⟨?_, ?_, ?_⟩
      · simp [countSeparators, parsed, if_neg other, counted]
      · rw [skipSeparators, parsed]
        simp only [if_neg other, taken, skipped, cons_append]
      · have stays : skipCopies [OP_CODESEPARATOR] (opcode :: (front ++ rest)).length
            (opcode :: (front ++ rest)) = (0, opcode :: (front ++ rest)) := by
          rw [length_cons, skipCopies, if_neg (by simpa [List.isPrefixOf] using other.symm)]
        rw [deleteFrom, stays]
        simp only [parsed, taken, deleted, zero_add, cons_append]

lemma serializeScriptCode_eq :
    serializeScriptCode script = serializeBytes kept ∧ (findAndDelete script [OP_CODESEPARATOR]).2 = kept := by
  obtain ⟨counted, skipped, deleted⟩ := separated.passes le_rfl
  constructor
  · rw [serializeScriptCode, counted, skipped, serializeBytes, ← separated.length, Nat.add_sub_cancel_left]
  · rw [findAndDelete, deleted]
    dsimp only
    split_ifs with empty present
    · cases empty
    · rfl
    · exact (separated.kept_eq (Nat.eq_zero_of_not_pos present)).symm

end Separated

/-! The transaction. -/

section Copy
variable (written : serializeScriptCode scriptCode = serializeBytes kept)
include written

lemma serializeTxIn_blank (fixed : (hashSingle nHashType || hashNone nHashType) = false) (i : Nat) (txin : CTxIn) :
    serializeTxIn (blankSignature kept nIn i txin) = serializeInput scriptCode nIn nHashType i txin := by
  rw [serializeInput, written, fixed]
  by_cases signed : i = nIn <;> simp [signed, serializeTxIn, blankSignature]

lemma serializeTxIn_updated (free : (hashSingle nHashType || hashNone nHashType) = true) (i : Nat) (txin : CTxIn) :
    serializeTxIn (letUpdate nIn i (blankSignature kept nIn i txin)) =
      serializeInput scriptCode nIn nHashType i txin := by
  rw [serializeInput, written, free]
  by_cases signed : i = nIn <;> simp [signed, serializeTxIn, blankSignature, letUpdate]
  rfl

omit written

lemma serializeVector_mapIdx {α : Type} {encode : α → Bytes} {change : Nat → α → α} {write : Nat → α → Bytes}
    {items : List α} (each : ∀ i < items.length, ∀ item, encode (change i item) = write i item) :
    serializeVector encode (items.mapIdx change) =
      writeCompactSize items.length ++ items.zipIdx.flatMap fun item => write item.2 item.1 := by
  rw [serializeVector, length_mapIdx, mapIdx_eq_zipIdx_map, flatMap_map]
  congr 1
  refine flatMap_congr fun item member => each item.2 ?_ item.1
  exact snd_lt_of_mem_zipIdx member

end Copy

lemma legacyPreimage_eq {txTo : CTransaction} {nIn : Fin txTo.vin.length}
    {change : Nat → CTxIn → CTxIn} (blank : Nat → CTxOut → CTxOut)
    (inputs : ∀ i txin, serializeTxIn (change i txin) = serializeInput scriptCode nIn nHashType i txin)
    (outputs : ∀ i < (signedOutputs nIn nHashType txTo.vout).length, ∀ txout,
      serializeTxOut (blank i txout) = serializeOutput nIn nHashType i txout) :
    serializeTransaction false ⟨if anyoneCanPay nHashType then (txTo.vin.mapIdx change)[nIn.val]?.toList
        else txTo.vin.mapIdx change, (signedOutputs nIn nHashType txTo.vout).mapIdx blank, txTo.nVersion,
        txTo.nLockTime⟩ ++ serializeInt32 nHashType = legacyPreimage scriptCode txTo nIn nHashType := by
  have vin : serializeVector serializeTxIn (if anyoneCanPay nHashType then
      (txTo.vin.mapIdx change)[nIn.val]?.toList else txTo.vin.mapIdx change) =
      serializeInputs scriptCode txTo nIn nHashType := by
    rw [serializeInputs]
    split_ifs
    · simp [serializeVector, inputs]
    · exact serializeVector_mapIdx fun i _ => inputs i
  rw [legacyPreimage, append_assoc _ (writeCompactSize _), ← serializeVector_mapIdx outputs, ← vin]
  simp [serializeTransaction]

/-- Without SIGHASH_FORKID, on a script code that parses completely, SignatureHash is the hash
of the changed copy. -/
theorem signatureHash_eq_old (crypto : Crypto) (scriptCode : Bytes) (complete : (ops scriptCode).2 = true)
    (txTo : CTransaction) (nIn : Fin txTo.vin.length) (nHashType : Int32)
    (plain : hasForkId nHashType = false) (amount : Int64) (cache : Option PrecomputedTransactionData) :
    signatureHash crypto scriptCode txTo nIn nHashType amount .BASE cache =
      signatureHashOld crypto scriptCode txTo nIn nHashType := by
  obtain ⟨count, kept, separated⟩ := exists_separated complete
  obtain ⟨written, deleted⟩ := separated.serializeScriptCode_eq
  rw [signatureHash, if_neg (by decide), forkIdHash, plain, if_neg Bool.false_ne_true, signatureHashOld, deleted,
    outOfRange]
  cases none : hashNone nHashType with
  | true =>
    have single : hashSingle nHashType = false := by
      rw [hashSingle, eq_of_beq none]
      rfl
    rw [← legacyPreimage_eq (blankOutput nIn) (serializeTxIn_updated written (by rw [none, Bool.or_true]))]
    · simp [signedOutputs, none, single, Function.comp_def]
    · simp [signedOutputs, none]
  | false =>
    cases single : hashSingle nHashType with
    | true =>
      rw [← legacyPreimage_eq (blankOutput nIn) (serializeTxIn_updated written (by rw [single, Bool.true_or]))]
      · simp [signedOutputs, none, single, Function.comp_def]
      · intro i inside txout
        -- the outputs end with the one at nIn
        have last : i < nIn ↔ i ≠ nIn := by
          simp only [signedOutputs, none, single, length_take, if_true, Bool.false_eq_true, if_false] at inside
          omega
        simp [blankOutput, serializeOutput, single, last, apply_ite serializeTxOut]
    | false =>
      rw [← legacyPreimage_eq (fun _ => id) (serializeTxIn_blank written (by rw [single, none]; rfl))]
      · have same : txTo.vout.mapIdx (fun _ => id) = txTo.vout := by
          rw [mapIdx_eq_zipIdx_map]
          exact zipIdx_map_fst ..
        simp [signedOutputs, none, single, same]
      · simp [serializeOutput, single]

namespace CrossChain

/-- An input signed with its output, from a script code with a separator. -/
theorem single_eq_old : signatureHash Crypto.suffixes [OP_CODESEPARATOR, OP_CHECKSIG] tx ⟨0, by decide⟩
    SIGHASH_SINGLE 0 .BASE none =
      signatureHashOld Crypto.suffixes [OP_CODESEPARATOR, OP_CHECKSIG] tx ⟨0, by decide⟩ SIGHASH_SINGLE :=
  signatureHash_eq_old Crypto.suffixes _ (by decide) tx ⟨0, by decide⟩ SIGHASH_SINGLE (by decide) 0 none

end CrossChain

end Dragonchain.Script
