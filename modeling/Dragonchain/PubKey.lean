import Dragonchain.SignatureEncoding

/-!
CPubKey of pubkey.h. The key is a buffer of fixed size whose first byte says how much
of it counts: all of it after the header 0x07 of a Falcon-512 key, nothing otherwise.
-/

namespace Dragonchain

structure CPubKey where
  vch : Bytes
  sized : vch.length = 898
  deriving DecidableEq

namespace CPubKey

lemma length_drop (pubkey : CPubKey) : (pubkey.vch.drop 1).length = 897 := by rw [List.length_drop, pubkey.sized]

def PUBLIC_KEY_SIZE : Nat := 898
def COMPRESSED_PUBLIC_KEY_SIZE : Nat := 898

def getLen (chHeader : UInt8) : Nat := if chHeader = 7 then PUBLIC_KEY_SIZE else 0

/-- A key after Invalidate; what is left in the buffer behind its header is never read. -/
def invalid : CPubKey := ⟨0xff :: List.replicate 897 0, by rw [List.length_cons, List.length_replicate]⟩

/-- CPubKey::Set, where a range that is not a key leaves an invalid one. -/
def ofBytes (bytes : Bytes) : CPubKey :=
  if sized : bytes.length = 898 then
    if getLen (bytes.getD 0 0) ≠ 0 then ⟨bytes, sized⟩ else invalid
  else invalid

def size (key : CPubKey) : Nat := getLen (key.vch.getD 0 0)

def bytes (key : CPubKey) : Bytes := key.vch.take key.size

def isValid (key : CPubKey) : Bool := decide (key.size > 0)

def isCompressed (key : CPubKey) : Bool := key.size == COMPRESSED_PUBLIC_KEY_SIZE

def getID (crypto : Crypto) (key : CPubKey) : Uint160 := crypto.hash160 key.bytes

def getHash (crypto : Crypto) (key : CPubKey) : Uint256 := crypto.hash256 key.bytes

variable {key : CPubKey}

variable (valid : key.isValid = true)
include valid

lemma header_of_valid : key.vch.getD 0 0 = 7 := by
  by_contra other
  rw [isValid, size, getLen, if_neg other] at valid
  cases valid

lemma size_of_valid : key.size = 898 := by
  rw [size, header_of_valid valid]
  rfl

lemma bytes_of_valid : key.bytes = key.vch := by
  rw [bytes, size_of_valid valid]
  exact List.take_of_length_le (le_of_eq key.sized)

lemma length_bytes : key.bytes.length = 898 := by rw [bytes_of_valid valid, key.sized]

lemma ofBytes_bytes : ofBytes key.bytes = key := by
  have header : getLen (key.bytes.getD 0 0) ≠ 0 := by
    rw [bytes_of_valid valid, header_of_valid valid]
    decide
  rw [ofBytes, dif_pos (length_bytes valid), if_pos header]
  simp [bytes_of_valid valid]

lemma isFalconPubKey_bytes : Script.isFalconPubKey key.bytes = true := by
  rw [Script.isFalconPubKey, length_bytes valid, bytes_of_valid valid, header_of_valid valid]
  rfl

end CPubKey

end Dragonchain
