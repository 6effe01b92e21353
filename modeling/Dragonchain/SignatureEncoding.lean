import Dragonchain.Outcome
import Dragonchain.Script

/-!
Script verification flags and errors of script/interpreter.h and script_error.h,
and the encoding checks that CHECKSIG and CHECKMULTISIG make on signatures and
public keys. Signatures starting with 0x39 are Falcon-512 ones and skip the DER
rules. A flag set is its membership test.
-/

namespace Dragonchain.Script

inductive ScriptFlag where
  | P2SH | STRICTENC | DERSIG | LOW_S | NULLDUMMY | SIGPUSHONLY | MINIMALDATA
  | DISCOURAGE_UPGRADABLE_NOPS | CLEANSTACK | CHECKLOCKTIMEVERIFY | CHECKSEQUENCEVERIFY | WITNESS
  | DISCOURAGE_UPGRADABLE_WITNESS_PROGRAM | MINIMALIF | NULLFAIL | WITNESS_PUBKEYTYPE
  | CONST_SCRIPTCODE
  deriving DecidableEq

abbrev ScriptFlags := ScriptFlag → Bool

def MANDATORY_SCRIPT_VERIFY_FLAGS : ScriptFlags := fun flag => flag = .P2SH

def STANDARD_SCRIPT_VERIFY_FLAGS : ScriptFlags := fun flag =>
  MANDATORY_SCRIPT_VERIFY_FLAGS flag ||
    flag ∈ [.DERSIG, .STRICTENC, .MINIMALDATA, .NULLDUMMY, .DISCOURAGE_UPGRADABLE_NOPS, .CLEANSTACK,
      .MINIMALIF, .NULLFAIL, .CHECKLOCKTIMEVERIFY, .CHECKSEQUENCEVERIFY, .LOW_S, .WITNESS,
      .DISCOURAGE_UPGRADABLE_WITNESS_PROGRAM, .WITNESS_PUBKEYTYPE, .CONST_SCRIPTCODE]

inductive ScriptError where
  | UNKNOWN_ERROR | EVAL_FALSE | OP_RETURN
  | SCRIPT_SIZE | PUSH_SIZE | OP_COUNT | STACK_SIZE | SIG_COUNT | PUBKEY_COUNT
  | VERIFY | EQUALVERIFY | CHECKMULTISIGVERIFY | CHECKSIGVERIFY | NUMEQUALVERIFY
  | BAD_OPCODE | DISABLED_OPCODE | INVALID_STACK_OPERATION | INVALID_ALTSTACK_OPERATION
  | UNBALANCED_CONDITIONAL | NEGATIVE_LOCKTIME | UNSATISFIED_LOCKTIME
  | SIG_HASHTYPE | SIG_DER | MINIMALDATA | SIG_PUSHONLY | SIG_HIGH_S | SIG_NULLDUMMY | PUBKEYTYPE
  | CLEANSTACK | MINIMALIF | SIG_NULLFAIL
  | DISCOURAGE_UPGRADABLE_NOPS | DISCOURAGE_UPGRADABLE_WITNESS_PROGRAM
  | WITNESS_PROGRAM_WRONG_LENGTH | WITNESS_PROGRAM_WITNESS_EMPTY | WITNESS_PROGRAM_MISMATCH
  | WITNESS_MALLEATED | WITNESS_MALLEATED_P2SH | WITNESS_UNEXPECTED | WITNESS_PUBKEYTYPE
  | OP_CODESEPARATOR | SIG_FINDANDDELETE
  deriving DecidableEq

/-- What the interpreter must never do. -/
inductive ScriptFault where
  | stackOutOfRange
  | signedOverflow
  | loopBound
  | p2shStackEmpty
  | flagCombination
  deriving DecidableEq

inductive SigVersion where
  | BASE
  | WITNESS_V0
  deriving DecidableEq

abbrev Eval := Outcome ScriptError ScriptFault

open Outcome

def isFalconSignature (vchSig : Bytes) : Bool :=
  decide (1 ≤ vchSig.length) && decide (vchSig.length ≤ 691) && vchSig.getD 0 0 == 0x39

variable (vchPubKey : Bytes)

def isFalconPubKey : Bool := vchPubKey.length == 898 && vchPubKey.getD 0 0 == 0x07

def isCompressedOrUncompressedPubKey : Bool :=
  if isFalconPubKey vchPubKey then true
  else if vchPubKey.length < 33 then false
  else if vchPubKey.getD 0 0 = 0x04 then vchPubKey.length == 65
  else if vchPubKey.getD 0 0 = 0x02 ∨ vchPubKey.getD 0 0 = 0x03 then vchPubKey.length == 33
  else false

def isCompressedPubKey : Bool :=
  if isFalconPubKey vchPubKey then true
  else vchPubKey.length == 33 && (vchPubKey.getD 0 0 == 0x02 || vchPubKey.getD 0 0 == 0x03)

def isValidSignatureEncoding (sig : Bytes) : Bool :=
  let lenR := (sig.getD 3 0).toNat
  let lenS := (sig.getD (5 + lenR) 0).toNat
  if isFalconSignature sig then true
  else if sig.length < 9 then false
  else if sig.length > 73 then false
  else if sig.getD 0 0 ≠ 0x30 then false
  else if (sig.getD 1 0).toNat ≠ sig.length - 3 then false
  else if 5 + lenR ≥ sig.length then false
  else if lenR + lenS + 7 ≠ sig.length then false
  else if sig.getD 2 0 ≠ 0x02 then false
  else if lenR = 0 then false
  else if sig.getD 4 0 &&& 0x80 ≠ 0 then false
  else if lenR > 1 ∧ sig.getD 4 0 = 0 ∧ sig.getD 5 0 &&& 0x80 = 0 then false
  else if sig.getD (lenR + 4) 0 ≠ 0x02 then false
  else if lenS = 0 then false
  else if sig.getD (lenR + 6) 0 &&& 0x80 ≠ 0 then false
  else if lenS > 1 ∧ sig.getD (lenR + 6) 0 = 0 ∧ sig.getD (lenR + 7) 0 &&& 0x80 = 0 then false
  else true

variable (crypto : Crypto) (vchSig : Bytes)

/-- CPubKey::CheckLowS; the secp256k1 test is reached for other sizes only. -/
def checkLowS : Bool := if 1 ≤ vchSig.length ∧ vchSig.length ≤ 691 then true else crypto.secp256k1LowS vchSig

def isLowDERSignature : Eval Unit :=
  if isFalconSignature vchSig then pure ()
  else do
    require (isValidSignatureEncoding vchSig) .SIG_DER
    require (checkLowS crypto vchSig.dropLast) .SIG_HIGH_S

def isDefinedHashtypeSignature : Bool :=
  match vchSig.getLast? with
  | none => false
  | some back =>
    let nHashType := back &&& 0x7f
    decide (1 ≤ nHashType) && decide (nHashType ≤ 3)

variable (flags : ScriptFlags)

def checkSignatureEncoding (vchSig : Bytes) : Eval Unit :=
  if vchSig.length = 0 then pure ()
  else if isFalconSignature vchSig then
    require (!flags .STRICTENC || isDefinedHashtypeSignature vchSig) .SIG_HASHTYPE
  else do
    require (!(flags .DERSIG || flags .LOW_S || flags .STRICTENC)
      || isValidSignatureEncoding vchSig) .SIG_DER
    (if flags .LOW_S then isLowDERSignature crypto vchSig else pure ())
    require (!flags .STRICTENC || isDefinedHashtypeSignature vchSig) .SIG_HASHTYPE

def checkPubKeyEncoding (sigversion : SigVersion) (vchPubKey : Bytes) : Eval Unit := do
  require (!flags .STRICTENC || isCompressedOrUncompressedPubKey vchPubKey) .PUBKEYTYPE
  require (!(flags .WITNESS_PUBKEYTYPE && sigversion == .WITNESS_V0)
    || isCompressedPubKey vchPubKey) .WITNESS_PUBKEYTYPE

end Dragonchain.Script
