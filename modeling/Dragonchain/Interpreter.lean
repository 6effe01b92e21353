import Dragonchain.SignatureEncoding

/-!
EvalScript and VerifyScript of script/interpreter.cpp. A stack is a list whose
head is the top element. Reading or popping below it, arithmetic that leaves its
C++ type and a failed assertion are faults, distinct from the script errors. The
exceptions of CScriptNum end in the catch clause of EvalScript, as UNKNOWN_ERROR.
-/

namespace Dragonchain.Script

open Outcome

structure BaseSignatureChecker where
  checkSig : Bytes → Bytes → Bytes → SigVersion → Bool
  checkLockTime : Int → Bool
  checkSequence : Int → Bool

def acceptingChecker : BaseSignatureChecker := ⟨fun _ _ _ _ => true, fun _ => true, fun _ => true⟩

inductive UnaryOp where
  | OP_1ADD | OP_1SUB | OP_NEGATE | OP_ABS | OP_NOT | OP_0NOTEQUAL

inductive BinaryOp where
  | OP_ADD | OP_SUB | OP_BOOLAND | OP_BOOLOR | OP_NUMEQUAL | OP_NUMEQUALVERIFY | OP_NUMNOTEQUAL
  | OP_LESSTHAN | OP_GREATERTHAN | OP_LESSTHANOREQUAL | OP_GREATERTHANOREQUAL | OP_MIN | OP_MAX
  deriving DecidableEq

inductive HashOp where
  | OP_RIPEMD160 | OP_SHA1 | OP_SHA256 | OP_HASH160 | OP_HASH256

inductive StackOp where
  | OP_TOALTSTACK | OP_FROMALTSTACK | OP_2DROP | OP_2DUP | OP_3DUP | OP_2OVER | OP_2ROT | OP_2SWAP
  | OP_IFDUP | OP_DEPTH | OP_DROP | OP_DUP | OP_NIP | OP_OVER | OP_ROT | OP_SWAP | OP_TUCK | OP_SIZE

/-- The cases of the switch in EvalScript; `other` is its default. -/
inductive Opcode where
  | number (value : Int)
  | OP_NOP
  | OP_CHECKLOCKTIMEVERIFY
  | OP_CHECKSEQUENCEVERIFY
  | upgradableNop
  | OP_IF (negated : Bool)
  | OP_ELSE
  | OP_ENDIF
  | OP_VERIFY
  | OP_RETURN
  | stack (op : StackOp)
  | OP_PICK (roll : Bool)
  | OP_EQUAL (verify : Bool)
  | unary (op : UnaryOp)
  | binary (op : BinaryOp)
  | OP_WITHIN
  | hash (op : HashOp)
  | OP_CODESEPARATOR
  | OP_CHECKSIG (verify : Bool)
  | OP_CHECKMULTISIG (verify : Bool)
  | other

def decode (opcode : UInt8) : Opcode :=
  match opcode.toNat with
  | 0x61 => .OP_NOP
  | 0x63 => .OP_IF false
  | 0x64 => .OP_IF true
  | 0x67 => .OP_ELSE
  | 0x68 => .OP_ENDIF
  | 0x69 => .OP_VERIFY
  | 0x6a => .OP_RETURN
  | 0x6b => .stack .OP_TOALTSTACK
  | 0x6c => .stack .OP_FROMALTSTACK
  | 0x6d => .stack .OP_2DROP
  | 0x6e => .stack .OP_2DUP
  | 0x6f => .stack .OP_3DUP
  | 0x70 => .stack .OP_2OVER
  | 0x71 => .stack .OP_2ROT
  | 0x72 => .stack .OP_2SWAP
  | 0x73 => .stack .OP_IFDUP
  | 0x74 => .stack .OP_DEPTH
  | 0x75 => .stack .OP_DROP
  | 0x76 => .stack .OP_DUP
  | 0x77 => .stack .OP_NIP
  | 0x78 => .stack .OP_OVER
  | 0x79 => .OP_PICK false
  | 0x7a => .OP_PICK true
  | 0x7b => .stack .OP_ROT
  | 0x7c => .stack .OP_SWAP
  | 0x7d => .stack .OP_TUCK
  | 0x82 => .stack .OP_SIZE
  | 0x87 => .OP_EQUAL false
  | 0x88 => .OP_EQUAL true
  | 0x8b => .unary .OP_1ADD
  | 0x8c => .unary .OP_1SUB
  | 0x8f => .unary .OP_NEGATE
  | 0x90 => .unary .OP_ABS
  | 0x91 => .unary .OP_NOT
  | 0x92 => .unary .OP_0NOTEQUAL
  | 0x93 => .binary .OP_ADD
  | 0x94 => .binary .OP_SUB
  | 0x9a => .binary .OP_BOOLAND
  | 0x9b => .binary .OP_BOOLOR
  | 0x9c => .binary .OP_NUMEQUAL
  | 0x9d => .binary .OP_NUMEQUALVERIFY
  | 0x9e => .binary .OP_NUMNOTEQUAL
  | 0x9f => .binary .OP_LESSTHAN
  | 0xa0 => .binary .OP_GREATERTHAN
  | 0xa1 => .binary .OP_LESSTHANOREQUAL
  | 0xa2 => .binary .OP_GREATERTHANOREQUAL
  | 0xa3 => .binary .OP_MIN
  | 0xa4 => .binary .OP_MAX
  | 0xa5 => .OP_WITHIN
  | 0xa6 => .hash .OP_RIPEMD160
  | 0xa7 => .hash .OP_SHA1
  | 0xa8 => .hash .OP_SHA256
  | 0xa9 => .hash .OP_HASH160
  | 0xaa => .hash .OP_HASH256
  | 0xab => .OP_CODESEPARATOR
  | 0xac => .OP_CHECKSIG false
  | 0xad => .OP_CHECKSIG true
  | 0xae => .OP_CHECKMULTISIG false
  | 0xaf => .OP_CHECKMULTISIG true
  | 0xb1 => .OP_CHECKLOCKTIMEVERIFY
  | 0xb2 => .OP_CHECKSEQUENCEVERIFY
  | value =>
    if value = 0xb0 ∨ (0xb3 ≤ value ∧ value ≤ 0xb9) then .upgradableNop
    else if value = 0x4f ∨ (0x51 ≤ value ∧ value ≤ 0x60) then .number ((value : Int) - 0x50)
    else .other

/-- The disabled opcodes, which fail even in an unexecuted branch. -/
def isDisabled (opcode : UInt8) : Bool :=
  opcode ∈ ([0x7e, 0x7f, 0x80, 0x81, 0x83, 0x84, 0x85, 0x86, 0x8d, 0x8e, 0x95, 0x96, 0x97, 0x98, 0x99] : List UInt8)

def castToBool (vch : Bytes) : Bool :=
  match vch with
  | [] => false
  | [byte] => byte != 0 && byte != 0x80
  | byte :: rest => byte != 0 || castToBool rest

def checkMinimalPush (data : Bytes) (opcode : UInt8) : Bool :=
  let first := data.getD 0 0
  if data.length = 0 then opcode == OP_0
  else if data.length = 1 ∧ first ≥ 1 ∧ first ≤ 16 then opcode.toNat == OP_1.toNat + (first.toNat - 1)
  else if data.length = 1 ∧ first = 0x81 then opcode == OP_1NEGATE
  else if data.length ≤ 75 then opcode.toNat == data.length
  else if data.length ≤ 255 then opcode == OP_PUSHDATA1
  else if data.length ≤ 65535 then opcode == OP_PUSHDATA2
  else true

/-! Stack access and C++ integer arithmetic, with their faults. -/

abbrev Stack := List Bytes

def vchFalse : Bytes := []
def vchTrue : Bytes := [1]
def vchBool (value : Bool) : Bytes := if value then vchTrue else vchFalse

variable (stack : Stack)

/-- stacktop(i), where -1 is the top element. -/
def stacktop (i : Int) : Eval Bytes :=
  if i < 0 then
    match stack[(-i - 1).toNat]? with
    | some vch => pure vch
    | none => crash .stackOutOfRange
  else crash .stackOutOfRange

def popstack : Stack → Eval Stack
  | [] => crash .stackOutOfRange
  | _ :: stack => pure stack

def eraseAt (depth count : Nat) : Eval Stack :=
  if count ≤ depth ∧ depth ≤ stack.length then
    pure (stack.take (depth - count) ++ stack.drop depth)
  else crash .stackOutOfRange

def insertAt (depth : Nat) (vch : Bytes) : Eval Stack :=
  if depth ≤ stack.length then pure (stack.take depth ++ vch :: stack.drop depth)
  else crash .stackOutOfRange

def swapTop (i j : Int) : Eval Stack := do
  let first ← stacktop stack i
  let second ← stacktop stack j
  pure ((stack.set (-i - 1).toNat second).set (-j - 1).toNat first)

variable (value : Int)

def int32 : Eval Int := if -2147483648 ≤ value ∧ value ≤ 2147483647 then pure value else crash .signedOverflow

/-- An int that is changed only in one branch. -/
def int32If (changes : Bool) (value change : Int) : Eval Int :=
  if changes then int32 (value + change) else pure value

def int64 : Eval Int :=
  if -9223372036854775808 ≤ value ∧ value ≤ 9223372036854775807 then pure value
  else crash .signedOverflow

/-- The CScriptNum constructor: its bytes are collected in an int64_t, and a set
top bit negates what is left. -/
def toScriptNum (vch : Bytes) (fRequireMinimal : Bool) (nMaxNumSize : Nat := 4) : Eval Int :=
  match scriptNum vch fRequireMinimal nMaxNumSize with
  | .error _ => fail .UNKNOWN_ERROR
  | .ok value => do
    let _ ← int64 (ByteCodec.leValue vch)
    int64 value

/-- CScriptNum::getvch; serialize negates a negative value as an int64_t. -/
def getvch : Eval Bytes :=
  if value < 0 then do
    let _ ← int64 (-value)
    pure (serializeNum value)
  else pure (serializeNum value)

/-! One function for each group of the switch. -/

def stackOp (op : StackOp) (stack altstack : Stack) : Eval (Stack × Stack) :=
  match op with
  | .OP_TOALTSTACK => do
    require (stack.length ≥ 1) .INVALID_STACK_OPERATION
    let vch ← stacktop stack (-1)
    let stack ← popstack stack
    pure (stack, vch :: altstack)
  | .OP_FROMALTSTACK => do
    require (altstack.length ≥ 1) .INVALID_ALTSTACK_OPERATION
    let vch ← stacktop altstack (-1)
    let altstack ← popstack altstack
    pure (vch :: stack, altstack)
  | .OP_2DROP => do
    require (stack.length ≥ 2) .INVALID_STACK_OPERATION
    let stack ← popstack stack
    let stack ← popstack stack
    pure (stack, altstack)
  | .OP_2DUP => do
    require (stack.length ≥ 2) .INVALID_STACK_OPERATION
    let vch1 ← stacktop stack (-2)
    let vch2 ← stacktop stack (-1)
    pure (vch2 :: vch1 :: stack, altstack)
  | .OP_3DUP => do
    require (stack.length ≥ 3) .INVALID_STACK_OPERATION
    let vch1 ← stacktop stack (-3)
    let vch2 ← stacktop stack (-2)
    let vch3 ← stacktop stack (-1)
    pure (vch3 :: vch2 :: vch1 :: stack, altstack)
  | .OP_2OVER => do
    require (stack.length ≥ 4) .INVALID_STACK_OPERATION
    let vch1 ← stacktop stack (-4)
    let vch2 ← stacktop stack (-3)
    pure (vch2 :: vch1 :: stack, altstack)
  | .OP_2ROT => do
    require (stack.length ≥ 6) .INVALID_STACK_OPERATION
    let vch1 ← stacktop stack (-6)
    let vch2 ← stacktop stack (-5)
    let stack ← eraseAt stack 6 2
    pure (vch2 :: vch1 :: stack, altstack)
  | .OP_2SWAP => do
    require (stack.length ≥ 4) .INVALID_STACK_OPERATION
    let stack ← swapTop stack (-4) (-2)
    let stack ← swapTop stack (-3) (-1)
    pure (stack, altstack)
  | .OP_IFDUP => do
    require (stack.length ≥ 1) .INVALID_STACK_OPERATION
    let vch ← stacktop stack (-1)
    pure (if castToBool vch then vch :: stack else stack, altstack)
  | .OP_DEPTH => do
    let vch ← getvch stack.length
    pure (vch :: stack, altstack)
  | .OP_DROP => do
    require (stack.length ≥ 1) .INVALID_STACK_OPERATION
    let stack ← popstack stack
    pure (stack, altstack)
  | .OP_DUP => do
    require (stack.length ≥ 1) .INVALID_STACK_OPERATION
    let vch ← stacktop stack (-1)
    pure (vch :: stack, altstack)
  | .OP_NIP => do
    require (stack.length ≥ 2) .INVALID_STACK_OPERATION
    let stack ← eraseAt stack 2 1
    pure (stack, altstack)
  | .OP_OVER => do
    require (stack.length ≥ 2) .INVALID_STACK_OPERATION
    let vch ← stacktop stack (-2)
    pure (vch :: stack, altstack)
  | .OP_ROT => do
    require (stack.length ≥ 3) .INVALID_STACK_OPERATION
    let stack ← swapTop stack (-3) (-2)
    let stack ← swapTop stack (-2) (-1)
    pure (stack, altstack)
  | .OP_SWAP => do
    require (stack.length ≥ 2) .INVALID_STACK_OPERATION
    let stack ← swapTop stack (-2) (-1)
    pure (stack, altstack)
  | .OP_TUCK => do
    require (stack.length ≥ 2) .INVALID_STACK_OPERATION
    let vch ← stacktop stack (-1)
    let stack ← insertAt stack 2 vch
    pure (stack, altstack)
  | .OP_SIZE => do
    require (stack.length ≥ 1) .INVALID_STACK_OPERATION
    let vch ← stacktop stack (-1)
    let size ← getvch vch.length
    pure (size :: stack, altstack)

variable (fRequireMinimal : Bool)

def pickOp (roll : Bool) (stack : Stack) : Eval Stack := do
  require (stack.length ≥ 2) .INVALID_STACK_OPERATION
  let vch ← stacktop stack (-1)
  let bn ← toScriptNum vch fRequireMinimal
  let n := getint bn
  let stack ← popstack stack
  require (!(n < 0 || n ≥ stack.length)) .INVALID_STACK_OPERATION
  let below ← int32 (-n)
  let index ← int32 (below - 1)
  let vch ← stacktop stack index
  let stack ← (if roll then eraseAt stack (n + 1).toNat 1 else pure stack)
  pure (vch :: stack)

def equalOp (verify : Bool) (stack : Stack) : Eval Stack := do
  require (stack.length ≥ 2) .INVALID_STACK_OPERATION
  let vch1 ← stacktop stack (-2)
  let vch2 ← stacktop stack (-1)
  let fEqual := vch1 == vch2
  let stack ← popstack stack
  let stack ← popstack stack
  let stack := vchBool fEqual :: stack
  if verify then do
    require fEqual .EQUALVERIFY
    popstack stack
  else pure stack

def intBool (value : Bool) : Int := if value then 1 else 0

def unaryValue (op : UnaryOp) (bn : Int) : Eval Int :=
  match op with
  | .OP_1ADD => int64 (bn + 1)
  | .OP_1SUB => int64 (bn - 1)
  | .OP_NEGATE => int64 (-bn)
  | .OP_ABS => if bn < 0 then int64 (-bn) else pure bn
  | .OP_NOT => pure (intBool (bn == 0))
  | .OP_0NOTEQUAL => pure (intBool (bn != 0))

def unaryOp (op : UnaryOp) (stack : Stack) : Eval Stack := do
  require (stack.length ≥ 1) .INVALID_STACK_OPERATION
  let vch ← stacktop stack (-1)
  let bn ← toScriptNum vch fRequireMinimal
  let bn ← unaryValue op bn
  let stack ← popstack stack
  let vch ← getvch bn
  pure (vch :: stack)

def binaryValue (op : BinaryOp) (bn1 bn2 : Int) : Eval Int :=
  match op with
  | .OP_ADD => int64 (bn1 + bn2)
  | .OP_SUB => int64 (bn1 - bn2)
  | .OP_BOOLAND => pure (intBool (bn1 != 0 && bn2 != 0))
  | .OP_BOOLOR => pure (intBool (bn1 != 0 || bn2 != 0))
  | .OP_NUMEQUAL => pure (intBool (bn1 == bn2))
  | .OP_NUMEQUALVERIFY => pure (intBool (bn1 == bn2))
  | .OP_NUMNOTEQUAL => pure (intBool (bn1 != bn2))
  | .OP_LESSTHAN => pure (intBool (bn1 < bn2))
  | .OP_GREATERTHAN => pure (intBool (bn1 > bn2))
  | .OP_LESSTHANOREQUAL => pure (intBool (bn1 ≤ bn2))
  | .OP_GREATERTHANOREQUAL => pure (intBool (bn1 ≥ bn2))
  | .OP_MIN => pure (if bn1 < bn2 then bn1 else bn2)
  | .OP_MAX => pure (if bn1 > bn2 then bn1 else bn2)

def binaryOp (op : BinaryOp) (stack : Stack) : Eval Stack := do
  require (stack.length ≥ 2) .INVALID_STACK_OPERATION
  let vch1 ← stacktop stack (-2)
  let bn1 ← toScriptNum vch1 fRequireMinimal
  let vch2 ← stacktop stack (-1)
  let bn2 ← toScriptNum vch2 fRequireMinimal
  let bn ← binaryValue op bn1 bn2
  let stack ← popstack stack
  let stack ← popstack stack
  let vch ← getvch bn
  let stack := vch :: stack
  if op = .OP_NUMEQUALVERIFY then do
    let vch ← stacktop stack (-1)
    require (castToBool vch) .NUMEQUALVERIFY
    popstack stack
  else pure stack

def withinOp (stack : Stack) : Eval Stack := do
  require (stack.length ≥ 3) .INVALID_STACK_OPERATION
  let vch1 ← stacktop stack (-3)
  let bn1 ← toScriptNum vch1 fRequireMinimal
  let vch2 ← stacktop stack (-2)
  let bn2 ← toScriptNum vch2 fRequireMinimal
  let vch3 ← stacktop stack (-1)
  let bn3 ← toScriptNum vch3 fRequireMinimal
  let fValue := decide (bn2 ≤ bn1) && decide (bn1 < bn3)
  let stack ← popstack stack
  let stack ← popstack stack
  let stack ← popstack stack
  pure (vchBool fValue :: stack)

def hashValue (crypto : Crypto) (op : HashOp) (vch : Bytes) : Bytes :=
  match op with
  | .OP_RIPEMD160 => (crypto.ripemd160 vch).bytes
  | .OP_SHA1 => (crypto.sha1 vch).bytes
  | .OP_SHA256 => (crypto.sha256 vch).bytes
  | .OP_HASH160 => (crypto.hash160 vch).bytes
  | .OP_HASH256 => (crypto.hash256 vch).bytes

def hashOp (crypto : Crypto) (op : HashOp) (stack : Stack) : Eval Stack := do
  require (stack.length ≥ 1) .INVALID_STACK_OPERATION
  let vch ← stacktop stack (-1)
  let stack ← popstack stack
  pure (hashValue crypto op vch :: stack)

section Machine
variable (crypto : Crypto) (flags : ScriptFlags) (checker : BaseSignatureChecker)
  (sigversion : SigVersion)

def checkLockTimeVerify (stack : Stack) : Eval Unit :=
  if !flags .CHECKLOCKTIMEVERIFY then pure ()
  else do
    require (stack.length ≥ 1) .INVALID_STACK_OPERATION
    let vch ← stacktop stack (-1)
    let nLockTime ← toScriptNum vch (flags .MINIMALDATA) 5
    require (!(nLockTime < 0)) .NEGATIVE_LOCKTIME
    require (checker.checkLockTime nLockTime) .UNSATISFIED_LOCKTIME

/-- SEQUENCE_LOCKTIME_DISABLE_FLAG is bit 31 of the operand. -/
def checkSequenceVerify (stack : Stack) : Eval Unit :=
  if !flags .CHECKSEQUENCEVERIFY then pure ()
  else do
    require (stack.length ≥ 1) .INVALID_STACK_OPERATION
    let vch ← stacktop stack (-1)
    let nSequence ← toScriptNum vch (flags .MINIMALDATA) 5
    require (!(nSequence < 0)) .NEGATIVE_LOCKTIME
    if nSequence.toNat.testBit 31 then pure ()
    else require (checker.checkSequence nSequence) .UNSATISFIED_LOCKTIME

/-- OP_IF and OP_NOTIF in a branch that is executed: the value and the stack left. -/
def ifOp (negated : Bool) (stack : Stack) : Eval (Bool × Stack) := do
  require (stack.length ≥ 1) .UNBALANCED_CONDITIONAL
  let vch ← stacktop stack (-1)
  require (!(sigversion == .WITNESS_V0 && flags .MINIMALIF && vch.length > 1)) .MINIMALIF
  require (!(sigversion == .WITNESS_V0 && flags .MINIMALIF && vch.length == 1 && vch.getD 0 0 != 1)) .MINIMALIF
  let fValue := castToBool vch
  let fValue := if negated then !fValue else fValue
  let stack ← popstack stack
  pure (fValue, stack)

/-- Dropping one signature from the scriptCode of a pre-segwit script. -/
def dropSignature (scriptCode vchSig : Bytes) : Eval Bytes :=
  if sigversion = .BASE then do
    let (nFound, scriptCode) := findAndDelete scriptCode (pushData vchSig)
    let found ← int32 nFound
    require (!(found > 0 && flags .CONST_SCRIPTCODE)) .SIG_FINDANDDELETE
    pure scriptCode
  else pure scriptCode

def checkSigOp (verify : Bool) (scriptCode : Bytes) (stack : Stack) : Eval Stack := do
  require (stack.length ≥ 2) .INVALID_STACK_OPERATION
  let vchSig ← stacktop stack (-2)
  let vchPubKey ← stacktop stack (-1)
  let scriptCode ← dropSignature flags sigversion scriptCode vchSig
  checkSignatureEncoding crypto flags vchSig
  checkPubKeyEncoding flags sigversion vchPubKey
  let fSuccess := checker.checkSig vchSig vchPubKey scriptCode sigversion
  require (!(!fSuccess && flags .NULLFAIL && vchSig.length != 0)) .SIG_NULLFAIL
  let stack ← popstack stack
  let stack ← popstack stack
  let stack := vchBool fSuccess :: stack
  if verify then do
    require fSuccess .CHECKSIGVERIFY
    popstack stack
  else pure stack

/-- The loop of CHECKMULTISIG over the signatures to drop from the scriptCode. -/
def dropSignatures (stack : Stack) (isig : Int) : Nat → Int → Bytes → Eval Bytes
  | 0, _, scriptCode => pure scriptCode
  | remaining + 1, k, scriptCode => do
    let below ← int32 (-isig)
    let index ← int32 (below - k)
    let vchSig ← stacktop stack index
    let scriptCode ← dropSignature flags sigversion scriptCode vchSig
    let k ← int32 (k + 1)
    dropSignatures stack isig remaining k scriptCode

/-- The loop of CHECKMULTISIG that matches signatures to keys; every turn uses up a key. -/
def matchSignatures (stack : Stack) (scriptCode : Bytes) : Nat → (isig ikey nSigsCount nKeysCount : Int) → Eval Bool
  | 0, _, _, nSigsCount, _ => if nSigsCount > 0 then crash .loopBound else pure true
  | fuel + 1, isig, ikey, nSigsCount, nKeysCount =>
    if nSigsCount > 0 then do
      let vchSig ← stacktop stack (-isig)
      let vchPubKey ← stacktop stack (-ikey)
      checkSignatureEncoding crypto flags vchSig
      checkPubKeyEncoding flags sigversion vchPubKey
      let fOk := checker.checkSig vchSig vchPubKey scriptCode sigversion
      let isig ← int32If fOk isig 1
      let nSigsCount ← int32If fOk nSigsCount (-1)
      let ikey ← int32 (ikey + 1)
      let nKeysCount ← int32 (nKeysCount - 1)
      if nSigsCount > nKeysCount then pure false
      else matchSignatures stack scriptCode fuel isig ikey nSigsCount nKeysCount
    else pure true

def popArguments (fSuccess : Bool) : Nat → Int → Stack → Eval Stack
  | 0, _, stack => pure stack
  | remaining + 1, ikey2, stack => do
    let vch ← stacktop stack (-1)
    require (!(!fSuccess && flags .NULLFAIL && ikey2 == 0 && vch.length != 0)) .SIG_NULLFAIL
    let ikey2 := if ikey2 > 0 then ikey2 - 1 else ikey2
    let stack ← popstack stack
    popArguments fSuccess remaining ikey2 stack

/-- The arguments CHECKMULTISIG reads before any signature: nOpCount, the key and
signature counts, and how many elements belong to the call, the dummy excepted. -/
def multiSigCounts (nOpCount : Int) (stack : Stack) : Eval (Int × Int × Int × Int) := do
  require (stack.length ≥ 1) .INVALID_STACK_OPERATION
  let vch ← stacktop stack (-1)
  let bn ← toScriptNum vch (flags .MINIMALDATA)
  let nKeysCount := getint bn
  require (!(nKeysCount < 0 || nKeysCount > MAX_PUBKEYS_PER_MULTISIG)) .PUBKEY_COUNT
  let nOpCount ← int32 (nOpCount + nKeysCount)
  require (!(nOpCount > MAX_OPS_PER_SCRIPT)) .OP_COUNT
  let i ← int32 (2 + nKeysCount)
  require (!((stack.length : Int) < i)) .INVALID_STACK_OPERATION
  let vch ← stacktop stack (-i)
  let bn ← toScriptNum vch (flags .MINIMALDATA)
  let nSigsCount := getint bn
  require (!(nSigsCount < 0 || nSigsCount > nKeysCount)) .SIG_COUNT
  let i ← int32 (i + 1 + nSigsCount)
  require (!((stack.length : Int) < i)) .INVALID_STACK_OPERATION
  pure (nOpCount, nKeysCount, nSigsCount, i)

def checkMultiSigOp (verify : Bool) (scriptCode : Bytes) (nOpCount : Int) (stack : Stack) : Eval (Int × Stack) := do
  let (nOpCount, nKeysCount, nSigsCount, i) ← multiSigCounts flags nOpCount stack
  let ikey2 ← int32 (nKeysCount + 2)
  let isig ← int32 (nKeysCount + 3)
  let scriptCode ← dropSignatures flags sigversion stack isig nSigsCount.toNat 0 scriptCode
  let fSuccess ← matchSignatures crypto flags checker sigversion stack scriptCode
    (nKeysCount.toNat + 1) isig 2 nSigsCount nKeysCount
  let stack ← popArguments flags fSuccess (i - 1).toNat ikey2 stack
  -- one extra argument is consumed
  require (stack.length ≥ 1) .INVALID_STACK_OPERATION
  let vch ← stacktop stack (-1)
  require (!(flags .NULLDUMMY && vch.length != 0)) .SIG_NULLDUMMY
  let stack ← popstack stack
  let stack := vchBool fSuccess :: stack
  if verify then do
    require fSuccess .CHECKMULTISIGVERIFY
    let stack ← popstack stack
    pure (nOpCount, stack)
  else pure (nOpCount, stack)

structure EvalState where
  stack : Stack
  altstack : Stack := []
  vfExec : List Bool := []
  nOpCount : Int := 0
  pbegincodehash : Bytes

/-- The switch of EvalScript; `pc` is the position after the opcode. -/
def execOpcode (fExec : Bool) (pc : Bytes) (state : EvalState) (opcode : Opcode) : Eval EvalState :=
  let fRequireMinimal := flags .MINIMALDATA
  match opcode with
  | .number value => do
    let vch ← getvch value
    pure { state with stack := vch :: state.stack }
  | .OP_NOP => pure state
  | .OP_CHECKLOCKTIMEVERIFY => do
    checkLockTimeVerify flags checker state.stack
    pure state
  | .OP_CHECKSEQUENCEVERIFY => do
    checkSequenceVerify flags checker state.stack
    pure state
  | .upgradableNop => do
    require (!flags .DISCOURAGE_UPGRADABLE_NOPS) .DISCOURAGE_UPGRADABLE_NOPS
    pure state
  | .OP_IF negated =>
    if fExec then do
      let (fValue, stack) ← ifOp flags sigversion negated state.stack
      pure { state with stack, vfExec := fValue :: state.vfExec }
    else pure { state with vfExec := false :: state.vfExec }
  | .OP_ELSE =>
    match state.vfExec with
    | [] => fail .UNBALANCED_CONDITIONAL
    | back :: rest => pure { state with vfExec := (!back) :: rest }
  | .OP_ENDIF =>
    match state.vfExec with
    | [] => fail .UNBALANCED_CONDITIONAL
    | _ :: rest => pure { state with vfExec := rest }
  | .OP_VERIFY => do
    require (state.stack.length ≥ 1) .INVALID_STACK_OPERATION
    let vch ← stacktop state.stack (-1)
    require (castToBool vch) .VERIFY
    let stack ← popstack state.stack
    pure { state with stack }
  | .OP_RETURN => fail .OP_RETURN
  | .stack op => do
    let (stack, altstack) ← stackOp op state.stack state.altstack
    pure { state with stack, altstack }
  | .OP_PICK roll => do
    let stack ← pickOp fRequireMinimal roll state.stack
    pure { state with stack }
  | .OP_EQUAL verify => do
    let stack ← equalOp verify state.stack
    pure { state with stack }
  | .unary op => do
    let stack ← unaryOp fRequireMinimal op state.stack
    pure { state with stack }
  | .binary op => do
    let stack ← binaryOp fRequireMinimal op state.stack
    pure { state with stack }
  | .OP_WITHIN => do
    let stack ← withinOp fRequireMinimal state.stack
    pure { state with stack }
  | .hash op => do
    let stack ← hashOp crypto op state.stack
    pure { state with stack }
  | .OP_CODESEPARATOR => pure { state with pbegincodehash := pc }
  | .OP_CHECKSIG verify => do
    let stack ← checkSigOp crypto flags checker sigversion verify state.pbegincodehash state.stack
    pure { state with stack }
  | .OP_CHECKMULTISIG verify => do
    let (nOpCount, stack) ← checkMultiSigOp crypto flags checker sigversion verify
      state.pbegincodehash state.nOpCount state.stack
    pure { state with nOpCount, stack }
  | .other => fail .BAD_OPCODE

/-- The checks that EvalScript makes on every opcode, executed or not. -/
def checkOpcode (nOpCount : Int) (opcode : UInt8) (vchPushValue : Bytes) : Eval Int := do
  require (vchPushValue.length ≤ MAX_SCRIPT_ELEMENT_SIZE) .PUSH_SIZE
  let nOpCount ← int32If (opcode > OP_16) nOpCount 1
  require (!(opcode > OP_16 && nOpCount > MAX_OPS_PER_SCRIPT)) .OP_COUNT
  require (!isDisabled opcode) .DISABLED_OPCODE
  require (!(opcode == 0xab && sigversion == .BASE && flags .CONST_SCRIPTCODE)) .OP_CODESEPARATOR
  pure nOpCount

/-- What a turn of the loop does with its opcode: a push, the switch, or nothing in a
branch that is not executed. -/
def runOpcode (fExec : Bool) (state : EvalState) (opcode : UInt8) (vchPushValue pc : Bytes) : Eval EvalState :=
  if fExec && opcode ≤ OP_PUSHDATA4 then do
    require (!(flags .MINIMALDATA && !checkMinimalPush vchPushValue opcode)) .MINIMALDATA
    pure { state with stack := vchPushValue :: state.stack }
  else if fExec || (0x63 ≤ opcode && opcode ≤ 0x68) then
    execOpcode crypto flags checker sigversion fExec pc state (decode opcode)
  else pure state

def evalStep (state : EvalState) (opcode : UInt8) (vchPushValue pc : Bytes) : Eval EvalState := do
  let fExec := state.vfExec.all id
  let nOpCount ← checkOpcode flags sigversion state.nOpCount opcode vchPushValue
  let state ← runOpcode crypto flags checker sigversion fExec { state with nOpCount } opcode vchPushValue pc
  require (state.stack.length + state.altstack.length ≤ MAX_STACK_SIZE) .STACK_SIZE
  pure state

def evalLoop : Nat → Bytes → EvalState → Eval EvalState
  | 0, pc, state => if pc.isEmpty then pure state else crash .loopBound
  | fuel + 1, pc, state =>
    if pc.isEmpty then pure state
    else
      match getOp pc with
      | none => fail .BAD_OPCODE
      | some (opcode, vchPushValue, pc) => do
        let state ← evalStep crypto flags checker sigversion state opcode vchPushValue pc
        evalLoop fuel pc state

/-- EvalScript, with its altstack at the end beside the stack. -/
def evalScript (stack : Stack) (script : Bytes) : Eval EvalState := do
  require (script.length ≤ MAX_SCRIPT_SIZE) .SCRIPT_SIZE
  let state ← evalLoop crypto flags checker sigversion script.length script { stack, pbegincodehash := script }
  require state.vfExec.isEmpty .UNBALANCED_CONDITIONAL
  pure state

end Machine

section Verify
variable (crypto : Crypto) (flags : ScriptFlags) (checker : BaseSignatureChecker) (witness : List Bytes)

def witnessScript (program : Bytes) : Eval (Bytes × Stack) :=
  if program.length = 32 then
    match witness.getLast? with
    | none => fail .WITNESS_PROGRAM_WITNESS_EMPTY
    | some scriptPubKey => do
      require ((crypto.sha256 scriptPubKey).bytes == program) .WITNESS_PROGRAM_MISMATCH
      pure (scriptPubKey, witness.dropLast.reverse)
  else if program.length = 20 then do
    require (witness.length == 2) .WITNESS_PROGRAM_MISMATCH
    pure ([OP_DUP, OP_HASH160] ++ pushData program ++ [OP_EQUALVERIFY, OP_CHECKSIG], witness.reverse)
  else fail .WITNESS_PROGRAM_WRONG_LENGTH

def verifyWitnessProgram (witversion : Nat) (program : Bytes) : Eval Unit :=
  if witversion = 0 then do
    let (scriptPubKey, stack) ← witnessScript crypto witness program
    require (stack.all fun vch => vch.length ≤ MAX_SCRIPT_ELEMENT_SIZE) .PUSH_SIZE
    let state ← evalScript crypto flags checker .WITNESS_V0 stack scriptPubKey
    require (state.stack.length == 1) .EVAL_FALSE
    let vch ← stacktop state.stack (-1)
    require (castToBool vch) .EVAL_FALSE
  else require (!flags .DISCOURAGE_UPGRADABLE_WITNESS_PROGRAM) .DISCOURAGE_UPGRADABLE_WITNESS_PROGRAM

def requireTrue (stack : Stack) : Eval Unit := do
  require (!stack.isEmpty) .EVAL_FALSE
  let vch ← stacktop stack (-1)
  require (castToBool vch) .EVAL_FALSE

/-- stack.resize(1), which keeps the bottom element. -/
def resizeOne (stack : Stack) : Stack := [stack.getLast?.getD []]

/-- A witness program found in `script`: hadWitness and the stack afterwards. -/
def verifyWitness (script : Bytes) (malleated : Bool)
    (malleatedError : ScriptError) (stack : Stack) : Eval (Bool × Stack) :=
  match isWitnessProgram script with
  | none => pure (false, stack)
  | some (witnessversion, witnessprogram) => do
    require (!malleated) malleatedError
    verifyWitnessProgram crypto flags checker witness witnessversion witnessprogram
    pure (true, resizeOne stack)

variable (scriptSig : Bytes) (hadWitness : Bool)

/-- The P2SH part of VerifyScript, on the stack that the scriptSig left. -/
def verifyP2SH (stackCopy : Stack) : Eval (Bool × Stack) := do
  require (isPushOnly scriptSig) .SIG_PUSHONLY
  match stackCopy with
  | [] => crash .p2shStackEmpty
  | pubKey2 :: stack => do
    let state ← evalScript crypto flags checker .BASE stack pubKey2
    requireTrue state.stack
    if flags .WITNESS then do
      let (found, stack) ← verifyWitness crypto flags checker witness pubKey2
        (scriptSig != pushData pubKey2) .WITNESS_MALLEATED_P2SH state.stack
      pure (hadWitness || found, stack)
    else pure (hadWitness, state.stack)

def checkCleanStack (stack : Stack) : Eval Unit :=
  if !flags .CLEANSTACK then pure ()
  else if !(flags .P2SH && flags .WITNESS) then crash .flagCombination
  else require (stack.length == 1) .CLEANSTACK

def checkUnexpectedWitness : Eval Unit :=
  if !flags .WITNESS then pure ()
  else if !flags .P2SH then crash .flagCombination
  else require (!(!hadWitness && !witness.isEmpty)) .WITNESS_UNEXPECTED

variable (scriptPubKey : Bytes)

/-- VerifyScript up to its last checks: hadWitness and the stack these look at. -/
def verifyStacks (witness : List Bytes) : Eval (Bool × Stack) := do
  require (!(flags .SIGPUSHONLY && !isPushOnly scriptSig)) .SIG_PUSHONLY
  let sigState ← evalScript crypto flags checker .BASE [] scriptSig
  let state ← evalScript crypto flags checker .BASE sigState.stack scriptPubKey
  requireTrue state.stack
  let (hadWitness, stack) ←
    (if flags .WITNESS then
      verifyWitness crypto flags checker witness scriptPubKey (scriptSig.length != 0) .WITNESS_MALLEATED state.stack
    else pure (false, state.stack))
  if flags .P2SH && isPayToScriptHash scriptPubKey then
    verifyP2SH crypto flags checker witness scriptSig hadWitness sigState.stack
  else pure (hadWitness, stack)

def verifyScript (witness : List Bytes) : Eval Unit := do
  let (hadWitness, stack) ← verifyStacks crypto flags checker scriptSig scriptPubKey witness
  checkCleanStack flags stack
  checkUnexpectedWitness flags witness hadWitness

end Verify

def witnessSigOps (witversion : Nat) (witprogram : Bytes) (witness : List Bytes) : Nat :=
  if witversion = 0 then
    if witprogram.length = 20 then 1
    else if witprogram.length = 32 then
      match witness.getLast? with
      | some subscript => (getSigOpCount true subscript).toNat
      | none => 0
    else 0
  else 0

/-- CountWitnessSigOps, whose caller has P2SH set wherever WITNESS is. -/
def countWitnessSigOps (flags : ScriptFlags) (scriptSig scriptPubKey : Bytes) (witness : List Bytes) : Eval Nat :=
  if !flags .WITNESS then pure 0
  else if !flags .P2SH then crash .flagCombination
  else
    match isWitnessProgram scriptPubKey with
    | some (witnessversion, witnessprogram) => pure (witnessSigOps witnessversion witnessprogram witness)
    | none =>
      if isPayToScriptHash scriptPubKey && isPushOnly scriptSig then
        let subscript := ((ops scriptSig).1.getLast?.map Prod.snd).getD []
        match isWitnessProgram subscript with
        | some (witnessversion, witnessprogram) => pure (witnessSigOps witnessversion witnessprogram witness)
        | none => pure 0
      else pure 0

end Dragonchain.Script
