import Dragonchain.Key

/-!
CExtPubKey and CExtKey of pubkey.h and key.h, and their BIP32 form. Encode fills a buffer
of its caller byte by byte; a write that leaves the buffer is a fault, as is a failed
assertion. Decode reads BIP32_EXTKEY_SIZE bytes, whatever Encode has written.
-/

namespace Dragonchain

open Outcome List Nat

variable {bytes secret : Bytes}

def BIP32_EXTKEY_SIZE : Nat := 74

inductive ExtKeyFault where
  | outOfRange
  | assertion
  deriving DecidableEq

/-- std::runtime_error("CExtKey::Encode: key size too small"). -/
inductive ExtKeyError where
  | keySizeTooSmall
  deriving DecidableEq

abbrev ExtKeyOutcome := Outcome ExtKeyError ExtKeyFault

def copyInto (offset : Nat) (data code : Bytes) : ExtKeyOutcome Bytes :=
  if offset + data.length ≤ code.length then
    .ok (code.take offset ++ data ++ code.drop (offset + data.length))
  else crash .outOfRange

/-- The fields that both kinds of extended keys begin with. -/
structure ExtKeyPath where
  nDepth : UInt8
  vchFingerprint : Bytes
  nChild : UInt32
  chaincode : Uint256
  sized : vchFingerprint.length = 4
  deriving DecidableEq

structure CExtPubKey extends ExtKeyPath where
  pubkey : CPubKey
  deriving DecidableEq

structure CExtKey extends ExtKeyPath where
  key : CKey
  deriving DecidableEq

def nChildBytes (nChild : UInt32) : Bytes :=
  [(nChild >>> 24).toUInt8, (nChild >>> 16).toUInt8, (nChild >>> 8).toUInt8, nChild.toUInt8]

variable (code : Bytes)

/-- The four bytes from the most significant one, as Decode puts them together. -/
def nChildOf : UInt32 :=
  (code.getD 5 0).toUInt32 <<< 24 ||| (code.getD 6 0).toUInt32 <<< 16 ||| (code.getD 7 0).toUInt32 <<< 8
    ||| (code.getD 8 0).toUInt32

def ExtKeyPath.encode (path : ExtKeyPath) (code : Bytes) : ExtKeyOutcome Bytes := do
  let code ← copyInto 0 [path.nDepth] code
  let code ← copyInto 1 path.vchFingerprint code
  let code ← copyInto 5 (nChildBytes path.nChild) code
  copyInto 9 path.chaincode.bytes code

namespace CExtPubKey

def encode (ext : CExtPubKey) (code : Bytes) : ExtKeyOutcome Bytes := do
  let code ← ext.toExtKeyPath.encode code
  if ext.pubkey.size ≠ CPubKey.COMPRESSED_PUBLIC_KEY_SIZE then crash .assertion
  else copyInto 41 (ext.pubkey.vch.take CPubKey.COMPRESSED_PUBLIC_KEY_SIZE) code

end CExtPubKey

def ExtKeyPath.decode (long : BIP32_EXTKEY_SIZE ≤ code.length) : ExtKeyPath where
  nDepth := code.getD 0 0
  vchFingerprint := (code.drop 1).take 4
  nChild := nChildOf code
  chaincode := ⟨(code.drop 9).take 32, by rw [length_take, length_drop]; rw [BIP32_EXTKEY_SIZE] at long; omega⟩
  sized := by rw [length_take, length_drop]; rw [BIP32_EXTKEY_SIZE] at long; omega

def CExtPubKey.decode (long : BIP32_EXTKEY_SIZE ≤ code.length) : CExtPubKey where
  toExtKeyPath := ExtKeyPath.decode code long
  pubkey := CPubKey.ofBytes ((code.take BIP32_EXTKEY_SIZE).drop 41)

namespace CExtKey

def encode (ext : CExtKey) (code : Bytes) : ExtKeyOutcome Bytes := do
  let code ← ext.toExtKeyPath.encode code
  let code ← copyInto 41 [0] code
  if ext.key.size < 32 then fail .keySizeTooSmall
  else copyInto 42 (ext.key.keydata.take 32) code

def decode (scheme : Falcon.Scheme) (previous : CKey) (code : Bytes)
    (long : BIP32_EXTKEY_SIZE ≤ code.length) : CExtKey where
  toExtKeyPath := ExtKeyPath.decode code long
  key := previous.setDeriving scheme ((code.take BIP32_EXTKEY_SIZE).drop 42) true

end CExtKey

def CPubKey.equal (a b : CPubKey) : Bool :=
  a.vch.getD 0 0 == b.vch.getD 0 0 && a.vch.take a.size == b.vch.take a.size

def CKey.equal (a b : CKey) : Bool :=
  a.fCompressed == b.fCompressed && a.size == b.size && a.keydata.take a.size == b.keydata.take a.size

variable (ext : CExtPubKey)

/-- Encode stays inside the buffer and Decode of the result gives the extended key back. -/
def CExtPubKey.EncodesBack (code : Bytes) : Prop :=
  ∃ written, ext.encode code = .ok written ∧ ∃ long : BIP32_EXTKEY_SIZE ≤ written.length,
    (CExtPubKey.decode written long).toExtKeyPath = ext.toExtKeyPath ∧
      (CExtPubKey.decode written long).pubkey.equal ext.pubkey = true

def CExtKey.EncodesBack (scheme : Falcon.Scheme) (previous : CKey) (ext : CExtKey) (code : Bytes) : Prop :=
  ∃ written, ext.encode code = .ok written ∧ ∃ long : BIP32_EXTKEY_SIZE ≤ written.length,
    (CExtKey.decode scheme previous written long).toExtKeyPath = ext.toExtKeyPath ∧
      (CExtKey.decode scheme previous written long).key.equal ext.key = true

lemma CPubKey.size_of_equal {a b : CPubKey} (same : a.equal b = true) : a.size = b.size := by
  simp only [CPubKey.equal, Bool.and_eq_true, beq_iff_eq] at same
  rw [CPubKey.size, CPubKey.size, same.1]

lemma CPubKey.size_ofBytes (wrong : bytes.length ≠ 898) : (CPubKey.ofBytes bytes).size = 0 := by
  rw [CPubKey.ofBytes, dif_neg wrong]
  rfl

/-- Decode looks for a public key in the 33 bytes that a secp256k1 key would take. -/
lemma CExtPubKey.not_encodesBack (code : Bytes) : ¬ ext.EncodesBack code := by
  rintro ⟨written, encoded, long, _, same⟩
  obtain ⟨_, _, rest⟩ := bind_eq_ok.mp encoded
  have short : ((written.take BIP32_EXTKEY_SIZE).drop 41).length ≠ 898 := by
    rw [length_drop, length_take, Nat.min_eq_left long]
    decide
  split at rest
  · cases rest
  · rename_i full
    have sizes := CPubKey.size_of_equal same
    rw [not_not.mp full, CExtPubKey.decode, CPubKey.size_ofBytes short] at sizes
    cases sizes

lemma CKey.size_setDeriving {scheme : Falcon.Scheme} {key : CKey}
    {fCompressedIn : Bool} (wrong : secret.length ≠ 1281) :
    (key.setDeriving scheme secret fCompressedIn).size = 0 := by
  rw [CKey.setDeriving, dif_neg wrong]
  rfl

/-- Thirty-two bytes of a private key are no private key. -/
lemma CExtKey.not_encodesBack (scheme : Falcon.Scheme) (previous : CKey) (ext : CExtKey) (code : Bytes) :
    ¬ ext.EncodesBack scheme previous code := by
  rintro ⟨written, encoded, long, _, same⟩
  obtain ⟨_, _, encoded⟩ := bind_eq_ok.mp encoded
  obtain ⟨_, _, rest⟩ := bind_eq_ok.mp encoded
  have short : ((written.take BIP32_EXTKEY_SIZE).drop 42).length ≠ 1281 := by
    rw [length_drop, length_take, Nat.min_eq_left long]
    decide
  split at rest
  · cases rest
  · rename_i enough
    simp only [CKey.equal, Bool.and_eq_true, beq_iff_eq] at same
    have sizes := same.1.2
    rw [CExtKey.decode, CKey.size_setDeriving short] at sizes
    omega

/-- The law of the BIP32 form holds for no key: whatever the buffer and whatever the key object
that Decode fills held before, neither kind of Falcon key comes back. -/
theorem extKeys_never_encode_back (scheme : Falcon.Scheme) (previous : CKey) (ext : CExtPubKey)
    (extKey : CExtKey) (code : Bytes) :
    ¬ ext.EncodesBack code ∧ ¬ extKey.EncodesBack scheme previous code :=
  ⟨ext.not_encodesBack code, extKey.not_encodesBack scheme previous code⟩

namespace RootKey

def scheme : Falcon.Scheme where
  hashToPoint _ _ := []
  mulPoly _ _ := []
  signSignature _ _ _ := none
  derivePubKey _ := some (9 :: replicate 896 0)

def path : ExtKeyPath := ⟨0, [0, 0, 0, 0], 0, Uint256.null, rfl⟩

def key : CKey where
  fValid := true
  fCompressed := true
  keydata := (0x50 + 9) :: replicate 1280 0
  pubkeydata := 9 :: replicate 896 0
  sized := by rw [length_cons, length_replicate]
  pubSized := by rw [length_cons, length_replicate]

def extPubKey : CExtPubKey := ⟨path, key.getPubKey⟩
def extKey : CExtKey := ⟨path, key⟩

def buffer : Bytes := replicate BIP32_EXTKEY_SIZE 0

/-- The public key leaves the buffer; the private key stays inside and comes back invalid. -/
theorem valid_keys_lost : (extPubKey.pubkey.isValid = true ∧ extPubKey.encode buffer = crash .outOfRange) ∧
      (extKey.key.isValid = true ∧ ∃ written, extKey.encode buffer = .ok written ∧
        ∃ long : BIP32_EXTKEY_SIZE ≤ written.length,
          (CExtKey.decode scheme CKey.empty written long).key.isValid = false) := by
  refine ⟨⟨by decide +kernel, by decide +kernel⟩, rfl,
    replicate 42 0 ++ (0x50 + 9) :: replicate 31 0, by decide +kernel, by decide +kernel,
    by decide +kernel⟩

end RootKey

end Dragonchain
