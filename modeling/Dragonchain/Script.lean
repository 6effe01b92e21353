import Dragonchain.Primitives
import Dragonchain.ByteCodec

/-!
Script encoding of script/script.h and script/script.cpp: opcodes, GetOp, the
shape tests that validation uses, FindAndDelete, signature-operation counts and
CScriptNum. A script position is the rest of the script from there on. Every
GetOp consumes a byte, so the script's length is fuel enough for a pass over it.
-/

namespace Dragonchain.Script

open ByteCodec List

variable {pc vch rest b : Bytes}

def MAX_SCRIPT_ELEMENT_SIZE : Nat := 2048
def MAX_OPS_PER_SCRIPT : Nat := 201
def MAX_PUBKEYS_PER_MULTISIG : Nat := 20
def MAX_SCRIPT_SIZE : Nat := 10000
def MAX_STACK_SIZE : Nat := 1000
def LOCKTIME_THRESHOLD : Nat := 500000000

def OP_0 : UInt8 := 0x00
def OP_PUSHDATA1 : UInt8 := 0x4c
def OP_PUSHDATA2 : UInt8 := 0x4d
def OP_PUSHDATA4 : UInt8 := 0x4e
def OP_1NEGATE : UInt8 := 0x4f
def OP_1 : UInt8 := 0x51
def OP_16 : UInt8 := 0x60
def OP_RETURN : UInt8 := 0x6a
def OP_DUP : UInt8 := 0x76
def OP_EQUAL : UInt8 := 0x87
def OP_EQUALVERIFY : UInt8 := 0x88
def OP_HASH160 : UInt8 := 0xa9
def OP_CHECKSIG : UInt8 := 0xac
def OP_CHECKSIGVERIFY : UInt8 := 0xad
def OP_CHECKMULTISIG : UInt8 := 0xae
def OP_CHECKMULTISIGVERIFY : UInt8 := 0xaf
def OP_INVALIDOPCODE : UInt8 := 0xff

/-- The nSize part of GetOp2, for an opcode up to OP_PUSHDATA4. -/
def pushSize (opcode : UInt8) (pc : Bytes) : Option (Nat × Bytes) :=
  if opcode < OP_PUSHDATA1 then some (opcode.toNat, pc)
  else
    let width := if opcode = OP_PUSHDATA1 then 1 else if opcode = OP_PUSHDATA2 then 2 else 4
    if pc.length < width then none else some (leValue (pc.take width), pc.drop width)

def getOp : Bytes → Option (UInt8 × Bytes × Bytes)
  | [] => none
  | opcode :: pc =>
    if opcode ≤ OP_PUSHDATA4 then
      match pushSize opcode pc with
      | none => none
      | some (nSize, pc) => if pc.length < nSize then none else some (opcode, pc.take nSize, pc.drop nSize)
    else some (opcode, [], pc)

/-- The operations that repeated GetOp calls return, and whether they reach the end. -/
def parseOps : Nat → Bytes → List (UInt8 × Bytes) × Bool
  | 0, pc => ([], pc.isEmpty)
  | fuel + 1, pc =>
    if pc.isEmpty then ([], true)
    else
      match getOp pc with
      | none => ([], false)
      | some (opcode, vch, pc) =>
        let (ops, atEnd) := parseOps fuel pc
        ((opcode, vch) :: ops, atEnd)

variable (script : Bytes)

def ops : List (UInt8 × Bytes) × Bool := parseOps script.length script

def decodeOP_N (opcode : UInt8) : Nat := if opcode = OP_0 then 0 else opcode.toNat - (OP_1.toNat - 1)

def isPayToScriptHash : Bool :=
  script.length == 23 && script.getD 0 0 == OP_HASH160 && script.getD 1 0 == 0x14 && script.getD 22 0 == OP_EQUAL

def isWitnessProgram : Option (Nat × Bytes) :=
  let first := script.getD 0 0
  if script.length < 4 || script.length > 42 then none
  else if first != OP_0 && (first < OP_1 || first > OP_16) then none
  else if (script.getD 1 0).toNat + 2 = script.length then some (decodeOP_N first, script.drop 2)
  else none

def isPushOnly : Bool := (ops script).2 && (ops script).1.all fun op => op.1 ≤ OP_16

def isUnspendable : Bool := script.head? == some OP_RETURN || decide (script.length > MAX_SCRIPT_SIZE)

variable (fAccurate : Bool)

def countSigOp (state : UInt32 × UInt8) (op : UInt8 × Bytes) : UInt32 × UInt8 :=
  let (n, lastOpcode) := state
  let opcode := op.1
  if opcode = OP_CHECKSIG ∨ opcode = OP_CHECKSIGVERIFY then (n + 1, opcode)
  else if opcode = OP_CHECKMULTISIG ∨ opcode = OP_CHECKMULTISIGVERIFY then
    if fAccurate ∧ lastOpcode ≥ OP_1 ∧ lastOpcode ≤ OP_16 then
      (n + UInt32.ofNat (decodeOP_N lastOpcode), opcode)
    else (n + UInt32.ofNat MAX_PUBKEYS_PER_MULTISIG, opcode)
  else (n, opcode)

def getSigOpCount (script : Bytes) : UInt32 := ((ops script).1.foldl (countSigOp fAccurate) (0, OP_INVALIDOPCODE)).1

/-- GetSigOpCount(scriptSig): the redeem script is the last push of the scriptSig. -/
def getSigOpCountP2SH (scriptPubKey scriptSig : Bytes) : UInt32 :=
  if !isPayToScriptHash scriptPubKey then getSigOpCount true scriptPubKey
  else if !isPushOnly scriptSig then 0
  else getSigOpCount true (((ops scriptSig).1.getLast?.map Prod.snd).getD [])

/-- The inner loop of FindAndDelete: skips copies of `b`, counting them. -/
def skipCopies (b : Bytes) : Nat → Bytes → Nat × Bytes
  | 0, pc => (0, pc)
  | fuel + 1, pc =>
    if b.isPrefixOf pc then
      let (nFound, pc) := skipCopies b fuel (pc.drop b.length)
      (nFound + 1, pc)
    else (0, pc)

def deleteFrom (b : Bytes) : Nat → Bytes → Nat × Bytes
  | 0, pc => (0, pc)
  | fuel + 1, pc =>
    let (found, pc2) := skipCopies b pc.length pc
    match getOp pc2 with
    | none => (found, pc2)
    | some (_, _, pc) =>
      let (more, result) := deleteFrom b fuel pc
      (found + more, pc2.take (pc2.length - pc.length) ++ result)

/-- CScript::FindAndDelete: the number of copies found and the script without them. -/
def findAndDelete (b : Bytes) : Nat × Bytes :=
  if b.isEmpty then (0, script)
  else
    let (nFound, result) := deleteFrom b (script.length + 1) script
    if nFound > 0 then (nFound, result) else (0, script)

/-! CScriptNum. The value is an unbounded integer here; the interpreter faults
where the C++ int64_t arithmetic on it would overflow. -/

inductive ScriptNumError where
  | overflow
  | nonMinimal
  deriving DecidableEq

def isMinimalNum (vch : Bytes) : Bool :=
  match vch.getLast? with
  | none => true
  | some back => back &&& 0x7f != 0 || (vch.length > 1 && vch.getD (vch.length - 2) 0 &&& 0x80 != 0)

def setVch (vch : Bytes) : Int :=
  match vch.getLast? with
  | none => 0
  | some back =>
    if back &&& 0x80 != 0 then -((leValue vch : Int) - 0x80 * 256 ^ (vch.length - 1))
    else leValue vch

def scriptNum (vch : Bytes) (fRequireMinimal : Bool) (nMaxNumSize : Nat := 4) : Except ScriptNumError Int :=
  if vch.length > nMaxNumSize then .error .overflow
  else if fRequireMinimal && !isMinimalNum vch then .error .nonMinimal
  else .ok (setVch vch)

def getint (value : Int) : Int :=
  if value > 2147483647 then 2147483647 else if value < -2147483648 then -2147483648 else value

def absBytes : Nat → Nat → Bytes
  | 0, _ => []
  | fuel + 1, absvalue => if absvalue = 0 then [] else UInt8.ofNat absvalue :: absBytes fuel (absvalue / 256)

def serializeNum (value : Int) : Bytes :=
  let result := absBytes 8 value.natAbs
  match result.getLast? with
  | none => []
  | some back =>
    if back &&& 0x80 != 0 then result ++ [if value < 0 then 0x80 else 0]
    else if value < 0 then result.dropLast ++ [back ||| 0x80]
    else result

/-- operator<< with a byte vector: the shortest push opcode for its size. -/
def pushData (b : Bytes) : Bytes :=
  if b.length < OP_PUSHDATA1.toNat then UInt8.ofNat b.length :: b
  else if b.length ≤ 0xff then OP_PUSHDATA1 :: UInt8.ofNat b.length :: b
  else if b.length ≤ 0xffff then OP_PUSHDATA2 :: (leBytes 2 b.length ++ b)
  else OP_PUSHDATA4 :: (leBytes 4 b.length ++ b)

def pushInt64 (n : Int) : Bytes :=
  if n = -1 ∨ (1 ≤ n ∧ n ≤ 16) then [UInt8.ofNat (n + (OP_1.toNat - 1)).toNat]
  else if n = 0 then [OP_0]
  else pushData (serializeNum n)

/-! Reading pushes back. -/

/-- The opcode that operator<< chooses for data of the given size. -/
def pushOpcode (size : Nat) : UInt8 :=
  if size < OP_PUSHDATA1.toNat then UInt8.ofNat size
  else if size ≤ 0xff then OP_PUSHDATA1
  else if size ≤ 0xffff then OP_PUSHDATA2
  else OP_PUSHDATA4

lemma pushSize_leBytes (opcode : UInt8) (width size : Nat) (rest : Bytes)
    (long : ¬ opcode < OP_PUSHDATA1) (fits : size < 256 ^ width)
    (chosen : (if opcode = OP_PUSHDATA1 then 1 else if opcode = OP_PUSHDATA2 then 2 else 4) = width) :
    pushSize opcode (leBytes width size ++ rest) = some (size, rest) := by
  have enough : ¬ (leBytes width size ++ rest).length < width := by simp
  rw [pushSize, if_neg long]
  simp only [chosen, if_neg enough]
  rw [take_left' (length_leBytes ..), drop_left' (length_leBytes ..), leValue_leBytes_of_lt width size fits]

variable {opcode : UInt8}

lemma getOp_of_pushSize (size rest : Bytes) (push : opcode ≤ OP_PUSHDATA4)
    (read : pushSize opcode (size ++ (b ++ rest)) = some (b.length, b ++ rest)) :
    getOp (opcode :: (size ++ (b ++ rest))) = some (opcode, b, rest) := by
  rw [getOp, if_pos push, read]
  simp

lemma getOp_pushData (b rest : Bytes) (fits : b.length < 256 ^ 4) :
    getOp (pushData b ++ rest) = some (pushOpcode b.length, b, rest) := by
  unfold pushData pushOpcode
  split_ifs with tiny short medium
  · have small : b.length < 76 := tiny
    have value : (UInt8.ofNat b.length).toNat = b.length := by rw [UInt8.toNat_ofNat', Nat.mod_eq_of_lt (by omega)]
    refine getOp_of_pushSize [] rest ?_ ?_
    · rw [UInt8.le_iff_toNat_le, value, show OP_PUSHDATA4.toNat = 78 from rfl]
      omega
    · have below : UInt8.ofNat b.length < OP_PUSHDATA1 := by
        rw [UInt8.lt_iff_toNat_lt, value]
        exact tiny
      rw [pushSize, if_pos below, value, nil_append]
  · refine getOp_of_pushSize [UInt8.ofNat b.length] rest (by decide) ?_
    exact pushSize_leBytes OP_PUSHDATA1 1 b.length (b ++ rest) (by decide) (by omega) rfl
  · rw [cons_append, append_assoc]
    refine getOp_of_pushSize (leBytes 2 b.length) rest (by decide) ?_
    exact pushSize_leBytes OP_PUSHDATA2 2 b.length (b ++ rest) (by decide) (by omega) rfl
  · rw [cons_append, append_assoc]
    refine getOp_of_pushSize (leBytes 4 b.length) rest (by decide) ?_
    exact pushSize_leBytes OP_PUSHDATA4 4 b.length (b ++ rest) (by decide) fits rfl

lemma getOp_plain (rest : Bytes) (plain : ¬ opcode ≤ OP_PUSHDATA4) :
    getOp (opcode :: rest) = some (opcode, [], rest) := by
  rw [getOp, if_neg plain]

lemma pushSize_inv {nSize : Nat} (read : pushSize opcode pc = some (nSize, rest)) :
    ∃ size, pc = size ++ rest ∧ (opcode < OP_PUSHDATA1 → size = [] ∧ nSize = opcode.toNat) := by
  unfold pushSize at read
  by_cases direct : opcode < OP_PUSHDATA1
  · rw [if_pos direct] at read
    cases read
    exact ⟨[], rfl, fun _ => ⟨rfl, rfl⟩⟩
  · rw [if_neg direct] at read
    generalize (if opcode = OP_PUSHDATA1 then 1 else if opcode = OP_PUSHDATA2 then 2 else 4) = width at read
    simp only [Option.ite_none_left_eq_some, Option.some.injEq, Prod.mk.injEq] at read
    obtain ⟨_, _, rfl⟩ := read
    exact ⟨pc.take width, (take_append_drop ..).symm, fun low => absurd low direct⟩

variable (read : getOp pc = some (opcode, vch, rest))
include read

/-- What GetOp reads stands in the script: the opcode, the size if one follows, the data. -/
lemma getOp_inv : ∃ size, pc = opcode :: (size ++ (vch ++ rest)) ∧
      (opcode < OP_PUSHDATA1 → size = [] ∧ vch.length = opcode.toNat) ∧
      (¬ opcode ≤ OP_PUSHDATA4 → size = [] ∧ vch = []) := by
  cases pc with
  | nil => cases read
  | cons first pc =>
    rw [getOp] at read
    split_ifs at read with push
    · split at read
      · cases read
      · rename_i nSize left sized
        split_ifs at read with short
        cases read
        obtain ⟨size, rfl, direct⟩ := pushSize_inv sized
        refine ⟨size, by rw [take_append_drop], fun low => ?_, fun plain => absurd push plain⟩
        rw [length_take, ← (direct low).2]
        exact ⟨(direct low).1, by omega⟩
    · cases read
      refine ⟨[], rfl, fun low => absurd ?_ push, fun _ => ⟨rfl, rfl⟩⟩
      exact UInt8.le_of_lt (UInt8.lt_of_lt_of_le low (by decide))

lemma getOp_length : vch.length + rest.length < pc.length := by
  obtain ⟨size, rfl, _⟩ := getOp_inv read
  simp only [length_cons, length_append]
  omega

end Dragonchain.Script
