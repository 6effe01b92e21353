import Dragonchain.PubKey

/-!
Solver and the script builders of script/standard.cpp. A template consists of opcodes
without data, so it is the list of them; OP_PUBKEYS stands for the pushes of any number
of keys. Solver returns its verdict together with what it leaves in its two out
parameters; `typeRet` is `none` on the one path that leaves it unset.
-/

namespace Dragonchain.Script

inductive TxnOutType where
  | TX_NONSTANDARD
  | TX_PUBKEY
  | TX_PUBKEYHASH
  | TX_SCRIPTHASH
  | TX_MULTISIG
  | TX_NULL_DATA
  | TX_WITNESS_V0_SCRIPTHASH
  | TX_WITNESS_V0_KEYHASH
  | TX_WITNESS_UNKNOWN
  deriving DecidableEq

def OP_SMALLINTEGER : UInt8 := 0xfa
def OP_PUBKEYS : UInt8 := 0xfb
def OP_PUBKEYHASH : UInt8 := 0xfd
def OP_PUBKEY : UInt8 := 0xfe

/-- CScript::EncodeOP_N, which asserts that n is at most 16. -/
def encodeOP_N (n : Nat) : UInt8 := if n = 0 then OP_0 else UInt8.ofNat (OP_1.toNat + n - 1)

structure Solution where
  solved : Bool
  typeRet : Option TxnOutType
  vSolutionsRet : List Bytes
  deriving DecidableEq

def mTemplates : List (TxnOutType × List UInt8) :=
  [(.TX_PUBKEY, [OP_PUBKEY, OP_CHECKSIG]),
   (.TX_PUBKEYHASH, [OP_DUP, OP_HASH160, OP_PUBKEYHASH, OP_EQUALVERIFY, OP_CHECKSIG]),
   (.TX_MULTISIG, [OP_SMALLINTEGER, OP_PUBKEYS, OP_SMALLINTEGER, OP_CHECKMULTISIG])]

/-- The sizes that a template takes for a public key. -/
def isKeySized (vch : Bytes) : Bool := decide (33 ≤ vch.length) && decide (vch.length ≤ 65)

/-- The loop at OP_PUBKEYS: the keys found, and the operation it stopped at. -/
def collectPubKeys : Nat → UInt8 → Bytes → Bytes → List Bytes → List Bytes × UInt8 × Bytes × Bytes
  | 0, opcode1, vch1, pc1, vSolutions => (vSolutions, opcode1, vch1, pc1)
  | fuel + 1, opcode1, vch1, pc1, vSolutions =>
    if isKeySized vch1 then
      match getOp pc1 with
      | none => (vSolutions ++ [vch1], OP_INVALIDOPCODE, [], pc1)
      | some (opcode1, next, pc1) => collectPubKeys fuel opcode1 next pc1 (vSolutions ++ [vch1])
    else (vSolutions, opcode1, vch1, pc1)

def matchOp (opcode2 opcode1 : UInt8) (vch1 : Bytes) (vSolutions : List Bytes) : Option (List Bytes) :=
  if opcode2 = OP_PUBKEY then if isKeySized vch1 then some (vSolutions ++ [vch1]) else none
  else if opcode2 = OP_PUBKEYHASH then
    if vch1.length ≠ 20 then none else some (vSolutions ++ [vch1])
  else if opcode2 = OP_SMALLINTEGER then
    if opcode1 = OP_0 ∨ (OP_1 ≤ opcode1 ∧ opcode1 ≤ OP_16) then
      some (vSolutions ++ [[UInt8.ofNat (decodeOP_N opcode1)]])
    else none
  else if opcode1 ≠ opcode2 ∨ vch1 ≠ [] then none
  else some vSolutions

def matchTemplate : List UInt8 → Bytes → List Bytes → Option (List Bytes)
  | [], pc1, vSolutions => if pc1.isEmpty then some vSolutions else none
  | opcode2 :: pc2, pc1, vSolutions =>
    match getOp pc1 with
    | none => none
    | some (opcode1, vch1, pc1) =>
      if opcode2 = OP_PUBKEYS then
        let (vSolutions, opcode1, vch1, pc1) := collectPubKeys (pc1.length + 1) opcode1 vch1 pc1 vSolutions
        match pc2 with
        | [] => none
        | opcode2 :: pc2 => (matchOp opcode2 opcode1 vch1 vSolutions).bind (matchTemplate pc2 pc1)
      else (matchOp opcode2 opcode1 vch1 vSolutions).bind (matchTemplate pc2 pc1)

def checkMultiSig (vSolutions : List Bytes) : Bool :=
  let m := (vSolutions.head?.getD []).getD 0 0
  let n := (vSolutions.getLast?.getD []).getD 0 0
  !(m < 1 || n < 1 || m > n || vSolutions.length - 2 != n.toNat)

def scanTemplates (scriptPubKey : Bytes) : List (TxnOutType × List UInt8) → Solution
  | [] => ⟨false, some .TX_NONSTANDARD, []⟩
  | (type, script2) :: rest =>
    match matchTemplate script2 scriptPubKey [] with
    | none => scanTemplates scriptPubKey rest
    | some vSolutions => ⟨type != .TX_MULTISIG || checkMultiSig vSolutions, some type, vSolutions⟩

def solveWitness (witnessversion : Nat) (witnessprogram : Bytes) : Solution :=
  if witnessversion = 0 ∧ witnessprogram.length = 20 then
    ⟨true, some .TX_WITNESS_V0_KEYHASH, [witnessprogram]⟩
  else if witnessversion = 0 ∧ witnessprogram.length = 32 then
    ⟨true, some .TX_WITNESS_V0_SCRIPTHASH, [witnessprogram]⟩
  else if witnessversion ≠ 0 then
    ⟨true, some .TX_WITNESS_UNKNOWN, [[UInt8.ofNat witnessversion], witnessprogram]⟩
  else ⟨false, none, []⟩

def solver (scriptPubKey : Bytes) : Solution :=
  if isPayToScriptHash scriptPubKey then
    ⟨true, some .TX_SCRIPTHASH, [(scriptPubKey.drop 2).take 20]⟩
  else
    match isWitnessProgram scriptPubKey with
    | some (witnessversion, witnessprogram) => solveWitness witnessversion witnessprogram
    | none =>
      if scriptPubKey.head? = some OP_RETURN ∧ isPushOnly (scriptPubKey.drop 1) then
        ⟨true, some .TX_NULL_DATA, []⟩
      else scanTemplates scriptPubKey mTemplates

/-! The builders. -/

def getScriptForPubKeyHash (keyID : Uint160) : Bytes :=
  [OP_DUP, OP_HASH160] ++ pushData keyID.bytes ++ [OP_EQUALVERIFY, OP_CHECKSIG]

def getScriptForScriptHash (scriptID : Uint160) : Bytes := [OP_HASH160] ++ pushData scriptID.bytes ++ [OP_EQUAL]

def getScriptForWitnessKeyHash (id : Uint160) : Bytes := [OP_0] ++ pushData id.bytes

def getScriptForWitnessScriptHash (id : Uint256) : Bytes := [OP_0] ++ pushData id.bytes

/-- A pay-to-pubkey script for any bytes in the place of the key. -/
def payToPubKey (vch : Bytes) : Bytes := pushData vch ++ [OP_CHECKSIG]

def getScriptForRawPubKey (pubKey : CPubKey) : Bytes := payToPubKey pubKey.bytes

/-- A multisig script for any bytes in the places of the keys. -/
def payToMultisig (nRequired : Nat) (keys : List Bytes) : Bytes :=
  encodeOP_N nRequired :: (keys.flatMap pushData ++ [encodeOP_N keys.length, OP_CHECKMULTISIG])

def getScriptForMultisig (nRequired : Nat) (keys : List CPubKey) : Bytes :=
  payToMultisig nRequired (keys.map CPubKey.bytes)

end Dragonchain.Script
