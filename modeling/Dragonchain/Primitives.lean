import Mathlib.Data.List.Basic

/-!
Data model of uint256.h, amount.h, primitives/transaction.h and primitives/block.h.
Bytes are `UInt8` lists and fixed-width integers keep their source width, so a
value that the C++ type cannot hold cannot be written here either. The hash and
proof-of-work primitives are fields of `Crypto`: nothing below depends on which
functions they are.
-/

namespace Dragonchain

open List

abbrev Bytes := List UInt8

structure Uint256 where
  bytes : Bytes
  size : bytes.length = 32
  deriving DecidableEq

structure Uint160 where
  bytes : Bytes
  size : bytes.length = 20
  deriving DecidableEq

namespace Uint256

def null : Uint256 := ⟨replicate 32 0, by simp⟩

/-- uint256S("1"): the bytes are little-endian. -/
def one : Uint256 := ⟨1 :: replicate 31 0, by simp⟩

def isNull (hash : Uint256) : Bool := hash.bytes.all (· == 0)

end Uint256

/-- The primitives of src/crypto and of the yespower code, with their output sizes. -/
structure Crypto where
  sha256 : Bytes → Uint256
  ripemd160 : Bytes → Uint160
  sha1 : Bytes → Uint160
  yespower : Bytes → Uint256
  sipHashUint256 : UInt64 → UInt64 → Uint256 → UInt64
  secp256k1LowS : Bytes → Bool

def Crypto.hash256 (crypto : Crypto) (data : Bytes) : Uint256 := crypto.sha256 (crypto.sha256 data).bytes

def Crypto.hash160 (crypto : Crypto) (data : Bytes) : Uint160 := crypto.ripemd160 (crypto.sha256 data).bytes

/-- A hash of equal bytes, for closed examples. -/
def Uint256.filled (byte : UInt8) : Uint256 := ⟨replicate 32 byte, rfl⟩

/-- Hashes that are all zero, for closed examples. -/
def Crypto.zeros : Crypto where
  sha256 _ := Uint256.null
  ripemd160 _ := ⟨replicate 20 0, rfl⟩
  sha1 _ := ⟨replicate 20 0, rfl⟩
  yespower _ := Uint256.null
  sipHashUint256 _ _ _ := 0
  secp256k1LowS _ := true

/-- Hashes that are the last bytes of the data, for closed examples. -/
def Crypto.suffixes : Crypto where
  sha256 data := ⟨(replicate 32 0 ++ data).drop data.length, by
    rw [length_drop, length_append, length_replicate, Nat.add_sub_cancel]⟩
  ripemd160 _ := ⟨replicate 20 0, rfl⟩
  sha1 _ := ⟨replicate 20 0, rfl⟩
  yespower _ := Uint256.null
  sipHashUint256 _ _ _ := 0
  secp256k1LowS _ := true

lemma Crypto.suffixes_sha256 (front : Bytes) (last : Uint256) : suffixes.sha256 (front ++ last.bytes) = last := by
  obtain ⟨bytes, size⟩ := last
  have shape : (replicate 32 0 ++ (front ++ bytes)).drop (front ++ bytes).length = bytes := by
    rw [← append_assoc, length_append, size, Nat.add_comm]
    exact drop_left' (by rw [length_append, length_replicate])
  exact Uint256.mk.injEq .. ▸ shape

lemma Crypto.suffixes_hash256 (front : Bytes) (last : Uint256) : suffixes.hash256 (front ++ last.bytes) = last := by
  rw [hash256, suffixes_sha256]
  exact suffixes_sha256 [] last

abbrev CAmount := Int

def COIN : CAmount := 100000000
def MAX_MONEY : CAmount := 21000000 * COIN
def moneyRange (nValue : CAmount) : Bool := 0 ≤ nValue && nValue ≤ MAX_MONEY

lemma moneyRange_iff {nValue : CAmount} : moneyRange nValue = true ↔ 0 ≤ nValue ∧ nValue ≤ MAX_MONEY := by
  simp [moneyRange]

def MAX_BLOCK_WEIGHT : Nat := 64000000
def MAX_BLOCK_SIGOPS_COST : Nat := 80000
def COINBASE_MATURITY : Nat := 100
def WITNESS_SCALE_FACTOR : Nat := 4
def MIN_SERIALIZABLE_TRANSACTION_WEIGHT : Nat := WITNESS_SCALE_FACTOR * 10

structure COutPoint where
  hash : Uint256
  n : UInt32
  deriving DecidableEq

/-- The default constructor's n, (uint32_t) -1. -/
def COutPoint.isNull (prevout : COutPoint) : Bool := prevout.hash.isNull && prevout.n == 0xffffffff

structure CTxIn where
  prevout : COutPoint
  scriptSig : Bytes
  nSequence : UInt32
  scriptWitness : List Bytes := []
  deriving DecidableEq

structure CTxOut where
  nValue : Int64
  scriptPubKey : Bytes
  deriving DecidableEq

def CTxOut.null : CTxOut := ⟨-1, []⟩
def CTxOut.isNull (out : CTxOut) : Bool := out.nValue == -1

structure CTransaction where
  vin : List CTxIn
  vout : List CTxOut
  nVersion : Int32
  nLockTime : UInt32
  deriving DecidableEq

namespace CTransaction

variable (tx : CTransaction)

def isNull : Bool := tx.vin.isEmpty && tx.vout.isEmpty

def isCoinBase : Bool :=
  match tx.vin with
  | [txin] => txin.prevout.isNull
  | _ => false

def hasWitness : Bool := tx.vin.any fun txin => !txin.scriptWitness.isEmpty

/-- CTransaction::GetValueOut, where `none` is the thrown "value out of range". -/
def getValueOut : Option CAmount :=
  tx.vout.foldlM (fun nValueOut out =>
    let next := nValueOut + out.nValue.toInt
    if !moneyRange out.nValue.toInt || !moneyRange next then none else some next) 0

end CTransaction

structure CBlockHeader where
  nVersion : Int32
  hashPrevBlock : Uint256
  hashMerkleRoot : Uint256
  nTime : UInt32
  nBits : UInt32
  nNonce : UInt32
  deriving DecidableEq

def CBlockHeader.isNull (header : CBlockHeader) : Bool := header.nBits == 0

structure CBlock extends CBlockHeader where
  vtx : List CTransaction
  deriving DecidableEq

end Dragonchain
