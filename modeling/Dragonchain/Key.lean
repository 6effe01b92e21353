import Dragonchain.FalconVerify

/-!
CKey of key.h and key.cpp, and the interface of a key store. Signing draws random bytes,
so a signature depends on the number of the draw as well; two signatures of one hash by
one key may differ.
-/

namespace Dragonchain

namespace Falcon

/-- The parts of the scheme that hold the private key. -/
structure Scheme extends Arithmetic where
  /-- crypto_sign_signature on a private key, a message and a draw. -/
  signSignature : Bytes → Bytes → Nat → Option Bytes
  /-- The part of CKey::DerivePubKey after the header of the private key is checked. -/
  derivePubKey : Bytes → Option Bytes

end Falcon

structure CKey where
  fValid : Bool
  fCompressed : Bool
  keydata : Bytes
  pubkeydata : Bytes
  sized : keydata.length = 1281
  pubSized : pubkeydata.length = 897
  deriving DecidableEq

namespace CKey

def SIGN_SIZE : Nat := 690

variable (key : CKey)

def isValid : Bool := key.fValid
def isCompressed : Bool := key.fCompressed

def empty : CKey where
  fValid := false
  fCompressed := false
  keydata := List.replicate 1281 0
  pubkeydata := List.replicate 897 0
  sized := List.length_replicate
  pubSized := List.length_replicate

/-- CKey::Set with the public key given, on secret bytes of any length. -/
def set (secret : Bytes) (pk : CPubKey) (fCompressedIn : Bool) : CKey :=
  if sized : secret.length = 1281 then
    if secret.getD 0 0 = 0x50 + 9 then
      { fValid := true, fCompressed := fCompressedIn, keydata := secret, pubkeydata := pk.vch.drop 1
        sized, pubSized := pk.length_drop }
    else { key with fValid := false }
  else { key with fValid := false }

def size : Nat := if key.fValid then key.keydata.length else 0

def bytes : Bytes := key.keydata.take key.size

variable (scheme : Falcon.Scheme)

/-- CKey::DerivePubKey: the public key bytes, or `none` where it makes the key invalid. -/
def derivePubKey (key : CKey) : Option Bytes :=
  if key.keydata.getD 0 0 ≠ 0x50 + 9 then none else scheme.derivePubKey key.keydata

/-- CKey::Set without a public key, which is derived. -/
def setDeriving (key : CKey) (secret : Bytes) (fCompressedIn : Bool) : CKey :=
  if sized : secret.length = 1281 then
    if secret.getD 0 0 = 0x50 + 9 then
      let given : CKey := { key with fValid := true, fCompressed := fCompressedIn, keydata := secret, sized }
      match given.derivePubKey scheme with
      | none => { given with fValid := false }
      | some pubkeydata =>
        -- modq_encode must fill the buffer
        if pubSized : pubkeydata.length = 897 then { given with pubkeydata, pubSized }
        else { given with fValid := false }
    else { key with fValid := false }
  else { key with fValid := false }

/-- CKey::GetPubKey, whose first byte is the header 7. -/
def getPubKey : CPubKey :=
  if key.fValid then ⟨7 :: key.pubkeydata, by rw [List.length_cons, key.pubSized]⟩
  else CPubKey.invalid

def sign (key : CKey) (hash : Uint256) (draw : Nat) : Option Bytes :=
  if !key.fValid then none
  else
    match scheme.signSignature key.keydata hash.bytes draw with
    | none => none
    | some vchSig => if vchSig.length = 0 ∨ vchSig.length > SIGN_SIZE then none else some vchSig

/-- What VerifyPubKey draws: the eight bytes it signs and the draw of the signature. -/
structure Draw where
  rnd : Bytes
  signature : Nat
  deriving DecidableEq

def verificationHash (crypto : Crypto) (rnd : Bytes) : Uint256 :=
  crypto.hash256 ("Bitcoin key verification\n".toUTF8.toList ++ rnd)

def verifyPubKey (crypto : Crypto) (scheme : Falcon.Scheme) (key : CKey) (pubkey : CPubKey) (draw : Draw) : Bool :=
  let hash := verificationHash crypto draw.rnd
  match key.sign scheme hash draw.signature with
  | none => false
  | some vchSig => pubkey.verify scheme.toArithmetic hash vchSig

lemma bytes_of_valid {key : CKey} (valid : key.isValid = true) : key.bytes = key.keydata := by
  have flag : key.fValid = true := valid
  rw [bytes, size, if_pos flag, List.take_length]

lemma getPubKey_valid {key : CKey} (valid : key.isValid = true) : key.getPubKey.isValid = true := by
  have flag : key.fValid = true := valid
  simp [getPubKey, flag, CPubKey.isValid, CPubKey.size, CPubKey.getLen, CPubKey.PUBLIC_KEY_SIZE]

end CKey

/-- The virtual functions of CKeyStore that signing uses. -/
structure CKeyStore where
  getKey : Uint160 → Option CKey
  getPubKey : Uint160 → Option CPubKey
  getCScript : Uint160 → Option Bytes

end Dragonchain
