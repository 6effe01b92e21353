import Dragonchain.Key
import Dragonchain.Standard
import Dragonchain.TransactionChecker

/-!
ProduceSignature and IsSolvable of script/sign.cpp. A signature creator is its key store,
its checker and CreateSig; the calls of CreateSig for one script are numbered, as they draw
random bytes. At most one of the up to three calls of SignStep in ProduceSignature makes
signatures. `SignStep` keeps what its out parameters hold when it fails, since the
partial scriptSig is returned as well.
-/

namespace Dragonchain.Script

open Outcome

def toUint160 (vch : Bytes) : Uint160 :=
  if sized : vch.length = 20 then ⟨vch, sized⟩ else ⟨List.replicate 20 0, by simp⟩

structure BaseSignatureCreator where
  keystore : CKeyStore
  checker : BaseSignatureChecker
  createSig : Uint160 → Bytes → SigVersion → Nat → Option Bytes
  /-- Whether the creator is a DummySignatureCreator. -/
  isDummy : Bool

def transactionSignatureCreator (crypto : Crypto) (scheme : Falcon.Scheme) (keystore : CKeyStore)
    (txTo : CTransaction) (nIn : Fin txTo.vin.length) (amount : Int64) (nHashType : Int32) :
    BaseSignatureCreator where
  keystore := keystore
  checker := TransactionSignatureChecker.toBase ⟨txTo, nIn, amount, none⟩ crypto scheme.toArithmetic
  createSig address scriptCode sigversion draw :=
    match keystore.getKey address with
    | none => none
    | some key =>
      if sigversion = .WITNESS_V0 ∧ !key.isCompressed then none
      else
        let hash := signatureHash crypto scriptCode txTo nIn nHashType amount sigversion none
        (key.sign scheme hash draw).map (· ++ [nHashType.toUInt32.toUInt8])
  isDummy := false

def dummyChecker : BaseSignatureChecker := ⟨fun _ _ _ _ => true, fun _ => false, fun _ => false⟩

/-- 691 bytes, zero but for the hash type SIGHASH_ALL at the end. -/
def dummySignature : Bytes := List.replicate 690 0 ++ [1]

def dummySignatureCreator (keystore : CKeyStore) : BaseSignatureCreator where
  keystore := keystore
  checker := dummyChecker
  createSig _ _ _ _ := some dummySignature
  isDummy := true

section Sign
variable (crypto : Crypto) (creator : BaseSignatureCreator)

def signKeys (scriptCode : Bytes) (sigversion : SigVersion) (nRequired : Nat) :
    List Bytes → Nat → Nat → List Bytes → Nat × List Bytes
  | [], _, nSigned, ret => (nSigned, ret)
  | pubkey :: rest, draw, nSigned, ret =>
    if nSigned < nRequired then
      let keyID := (CPubKey.ofBytes pubkey).getID crypto
      match creator.createSig keyID scriptCode sigversion draw with
      | none => signKeys scriptCode sigversion nRequired rest (draw + 1) nSigned ret
      | some vchSig => signKeys scriptCode sigversion nRequired rest (draw + 1) (nSigned + 1) (ret ++ [vchSig])
    else (nSigned, ret)

/-- SignN, on the solutions of a multisig script: the number required, the keys, their number. -/
def signN (multisigdata : List Bytes) (scriptCode : Bytes) (ret : List Bytes) (sigversion : SigVersion) :
    Bool × List Bytes :=
  let nRequired := ((multisigdata.headD []).getD 0 0).toNat
  let keys := (multisigdata.drop 1).dropLast
  let (nSigned, ret) := signKeys crypto creator scriptCode sigversion nRequired keys 0 0 ret
  (nSigned == nRequired, ret)

structure StepResult where
  solved : Bool
  ret : List Bytes
  whichTypeRet : Option TxnOutType

def signStep (scriptPubKey : Bytes) (sigversion : SigVersion) : StepResult :=
  let solution := solver scriptPubKey
  let first := solution.vSolutionsRet.headD []
  if !solution.solved then ⟨false, [], solution.typeRet⟩
  else
    match solution.typeRet with
    | some .TX_PUBKEY =>
      let keyID := (CPubKey.ofBytes first).getID crypto
      match creator.createSig keyID scriptPubKey sigversion 0 with
      | none => ⟨false, [], solution.typeRet⟩
      | some vchSig => ⟨true, [vchSig], solution.typeRet⟩
    | some .TX_PUBKEYHASH =>
      let keyID := toUint160 first
      match creator.createSig keyID scriptPubKey sigversion 0 with
      | none => ⟨false, [], solution.typeRet⟩
      | some vchSig =>
        let vch := (creator.keystore.getPubKey keyID).getD CPubKey.invalid
        ⟨true, [vchSig, vch.bytes], solution.typeRet⟩
    | some .TX_SCRIPTHASH =>
      match creator.keystore.getCScript (toUint160 first) with
      | none => ⟨false, [], solution.typeRet⟩
      | some scriptRet => ⟨true, [scriptRet], solution.typeRet⟩
    | some .TX_MULTISIG =>
      -- the empty element is the one that CHECKMULTISIG pops in excess
      let (signed, ret) := signN crypto creator solution.vSolutionsRet scriptPubKey [[]] sigversion
      ⟨signed, ret, solution.typeRet⟩
    | some .TX_WITNESS_V0_KEYHASH => ⟨true, [first], solution.typeRet⟩
    | some .TX_WITNESS_V0_SCRIPTHASH =>
      match creator.keystore.getCScript (crypto.ripemd160 first) with
      | none => ⟨false, [], solution.typeRet⟩
      | some scriptRet => ⟨true, [scriptRet], solution.typeRet⟩
    | _ => ⟨false, [], solution.typeRet⟩

def pushAll (values : List Bytes) : Bytes :=
  values.flatMap fun v =>
    if v.length = 0 then [OP_0]
    else if v.length = 1 ∧ 1 ≤ v.getD 0 0 ∧ v.getD 0 0 ≤ 16 then [encodeOP_N (v.getD 0 0).toNat]
    else pushData v

structure SignatureData where
  scriptSig : Bytes
  scriptWitness : List Bytes
  deriving DecidableEq

/-- The witness part of ProduceSignature: solved, the witness stack and what is left for
the scriptSig. -/
def signWitness (step : StepResult) : Bool × List Bytes × List Bytes :=
  if step.solved && step.whichTypeRet == some .TX_WITNESS_V0_KEYHASH then
    let witnessscript := [OP_DUP, OP_HASH160] ++ pushData (step.ret.headD []) ++ [OP_EQUALVERIFY, OP_CHECKSIG]
    let inner := signStep crypto creator witnessscript .WITNESS_V0
    (inner.solved, inner.ret, [])
  else if step.solved && step.whichTypeRet == some .TX_WITNESS_V0_SCRIPTHASH then
    let witnessscript := step.ret.headD []
    let inner := signStep crypto creator witnessscript .WITNESS_V0
    (inner.solved && inner.whichTypeRet != some .TX_SCRIPTHASH
      && inner.whichTypeRet != some .TX_WITNESS_V0_SCRIPTHASH
      && inner.whichTypeRet != some .TX_WITNESS_V0_KEYHASH, inner.ret ++ [witnessscript], [])
  else (step.solved, [], step.ret)

variable (fromPubKey : Bytes)

def assembleSignature : Bool × SignatureData :=
  let step := signStep crypto creator fromPubKey .BASE
  if step.solved && step.whichTypeRet == some .TX_SCRIPTHASH then
    let subscript := step.ret.headD []
    let inner := signStep crypto creator subscript .BASE
    let inner := { inner with solved := inner.solved && inner.whichTypeRet != some .TX_SCRIPTHASH }
    let (solved, witness, result) := signWitness crypto creator inner
    (solved, ⟨pushAll (result ++ [subscript]), witness⟩)
  else
    let (solved, witness, result) := signWitness crypto creator step
    (solved, ⟨pushAll result, witness⟩)

def produceSignature : Bool × SignatureData :=
  let (solved, sigdata) := assembleSignature crypto creator fromPubKey
  if creator.isDummy then (solved, sigdata)
  else
    (solved && (verifyScript crypto STANDARD_SCRIPT_VERIFY_FLAGS creator.checker sigdata.scriptSig
      fromPubKey sigdata.scriptWitness).isOk, sigdata)

end Sign

/-- IsSolvable, where `none` is its failed assertion. -/
def isSolvable (crypto : Crypto) (store : CKeyStore) (script : Bytes) : Option Bool :=
  let creator := dummySignatureCreator store
  let (produced, sigs) := produceSignature crypto creator script
  if produced then
    if (verifyScript crypto STANDARD_SCRIPT_VERIFY_FLAGS creator.checker sigs.scriptSig script
      sigs.scriptWitness).isOk then some true else none
  else some false

end Dragonchain.Script
