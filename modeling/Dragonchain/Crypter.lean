import Dragonchain.BlockChaining
import Dragonchain.Key

/-!
AES-256-CBC of crypto/aes.cpp and the secrets of wallet/crypter.cpp. The block cipher
itself is a parameter. A function that fills a buffer and returns how much of it counts
is modelled by that front part; where the code rejects it, by `none`.
-/

namespace Dragonchain.Wallet

open BlockChaining List Nat

variable {data iv vMasterKey vchPlaintext vchCiphertext : Bytes} {enc dec undo : Bytes → Bytes}
  {nIV : Uint256}

def AES_BLOCKSIZE : Nat := 16
def WALLET_CRYPTO_KEY_SIZE : Nat := 32
def WALLET_CRYPTO_IV_SIZE : Nat := 16

/-- AES256Encrypt and AES256Decrypt on one block, the key first. -/
structure AES256 where
  encrypt : Bytes → Bytes → Bytes
  decrypt : Bytes → Bytes → Bytes
  encryptSized : ∀ key block, (encrypt key block).length = 16
  decryptSized : ∀ key block, (decrypt key block).length = 16

variable (aes : AES256)

/-- Under every key the cipher permutes the blocks. -/
def AES256.Permutes : Prop :=
  ∀ key block, key.length = WALLET_CRYPTO_KEY_SIZE → block.length = AES_BLOCKSIZE →
    aes.decrypt key (aes.encrypt key block) = block

def cbcEncrypt (enc : Bytes → Bytes) (iv data : Bytes) (pad : Bool) : Bytes :=
  let padsize := data.length % AES_BLOCKSIZE
  if data.isEmpty then []
  else if !pad && padsize != 0 then []
  else
    let full := data.length / AES_BLOCKSIZE
    let written := chain enc iv (blocks AES_BLOCKSIZE full data)
    if pad then
      -- the rest of the data and the padding are mixed with the last block written
      written.flatten ++ enc (mix (written.getLastD iv)
        (data.drop (full * AES_BLOCKSIZE) ++ padding AES_BLOCKSIZE data.length))
    else written.flatten

def stripPadding (out : Bytes) : Bytes :=
  let last := out.getLastD 0
  let malformed := last == 0 || decide (last.toNat > AES_BLOCKSIZE)
  let padsize := if malformed then 0 else last.toNat
  let fail := malformed || (out.reverse.take padsize).any (· != last)
  if fail then [] else out.take (out.length - padsize)

def cbcDecrypt (dec : Bytes → Bytes) (iv data : Bytes) (pad : Bool) : Bytes :=
  if data.isEmpty then []
  else if data.length % AES_BLOCKSIZE ≠ 0 then []
  else
    let out := (unchain dec iv (blocks AES_BLOCKSIZE (data.length / AES_BLOCKSIZE) data)).flatten
    if pad then stripPadding out else out

def CCrypter.encrypt (chNewKey chNewIV vchPlaintext : Bytes) : Option Bytes :=
  if chNewKey.length ≠ WALLET_CRYPTO_KEY_SIZE ∨ chNewIV.length ≠ WALLET_CRYPTO_IV_SIZE then none
  else
    let vchCiphertext := cbcEncrypt (aes.encrypt chNewKey) chNewIV vchPlaintext true
    if vchCiphertext.length < vchPlaintext.length then none else some vchCiphertext

def CCrypter.decrypt (chNewKey chNewIV vchCiphertext : Bytes) : Option Bytes :=
  if chNewKey.length ≠ WALLET_CRYPTO_KEY_SIZE ∨ chNewIV.length ≠ WALLET_CRYPTO_IV_SIZE then none
  else
    let vchPlaintext := cbcDecrypt (aes.decrypt chNewKey) chNewIV vchCiphertext true
    if vchPlaintext.length = 0 then none else some vchPlaintext

/-- The first bytes of nIV are the initialisation vector. -/
def encryptSecret (vMasterKey vchPlaintext : Bytes) (nIV : Uint256) : Option Bytes :=
  CCrypter.encrypt aes vMasterKey (nIV.bytes.take WALLET_CRYPTO_IV_SIZE) vchPlaintext

def decryptSecret (vMasterKey vchCiphertext : Bytes) (nIV : Uint256) : Option Bytes :=
  CCrypter.decrypt aes vMasterKey (nIV.bytes.take WALLET_CRYPTO_IV_SIZE) vchCiphertext

/-! What is encrypted decrypts to itself. -/

lemma length_iv : (nIV.bytes.take WALLET_CRYPTO_IV_SIZE).length = WALLET_CRYPTO_IV_SIZE := by
  rw [length_take, nIV.size]
  rfl

def paddedBlocks (data : Bytes) : List Bytes :=
  blocks AES_BLOCKSIZE (data.length / AES_BLOCKSIZE) data ++
    [data.drop (data.length / AES_BLOCKSIZE * AES_BLOCKSIZE) ++ padding AES_BLOCKSIZE data.length]

lemma length_paddedBlocks : ∀ block ∈ paddedBlocks data, block.length = AES_BLOCKSIZE := by
  have split := div_add_mod' data.length AES_BLOCKSIZE
  have rest := mod_lt data.length (show 0 < AES_BLOCKSIZE by decide)
  intro block member
  rcases mem_append.mp member with full | last
  · exact length_of_mem_blocks (by omega) full
  · rw [mem_singleton.mp last, length_append, length_drop, length_padding]
    omega

lemma flatten_paddedBlocks (data : Bytes) :
    (paddedBlocks data).flatten = data ++ padding AES_BLOCKSIZE data.length := by
  rw [paddedBlocks, flatten_append, flatten_blocks, flatten_singleton, ← append_assoc, take_append_drop]

lemma cbcEncrypt_padded (some : data ≠ []) :
    cbcEncrypt enc iv data true = (chain enc iv (paddedBlocks data)).flatten := by
  have filled : data.isEmpty = false := by rw [isEmpty_eq_false_iff]; exact some
  simp [cbcEncrypt, filled, paddedBlocks, chain_concat]

lemma stripPadding_padding (data : Bytes) : stripPadding (data ++ padding AES_BLOCKSIZE data.length) = data := by
  have rest := mod_lt data.length (show 0 < AES_BLOCKSIZE by decide)
  -- the padding is a number of bytes from 1 to 16, each of them this number
  obtain ⟨count, value⟩ : ∃ count, AES_BLOCKSIZE - data.length % AES_BLOCKSIZE = count + 1 :=
    ⟨_, (succ_pred_eq_of_pos (by omega)).symm⟩
  have small : count + 1 ≤ 16 := by rw [← value]; exact sub_le _ _
  have byte : (UInt8.ofNat (count + 1)).toNat = count + 1 := by rw [UInt8.toNat_ofNat', mod_eq_of_lt (by omega)]
  have filled : (UInt8.ofNat (count + 1) == 0) = false := by
    rw [beq_eq_false_iff_ne]
    intro zero
    rw [zero] at byte
    cases byte
  have last : (data ++ replicate (count + 1) (UInt8.ofNat (count + 1))).getLastD 0 = UInt8.ofNat (count + 1) := by
    rw [replicate_succ', ← append_assoc, getLastD_concat]
  have fits : decide (count + 1 > AES_BLOCKSIZE) = false := decide_eq_false (not_lt.mpr small)
  have tail : (data ++ replicate (count + 1) (UInt8.ofNat (count + 1))).reverse.take (count + 1) =
      replicate (count + 1) (UInt8.ofNat (count + 1)) := by
    rw [reverse_append, reverse_replicate, take_left' length_replicate]
  have equal : (replicate (count + 1) (UInt8.ofNat (count + 1))).any (· != UInt8.ofNat (count + 1)) = false := by
    rw [any_eq_false]
    intro other member
    rw [eq_of_mem_replicate member, bne_self_eq_false]
    exact Bool.false_ne_true
  have front : (data ++ replicate (count + 1) (UInt8.ofNat (count + 1))).length - (count + 1) = data.length := by
    rw [length_append, length_replicate, Nat.add_sub_cancel]
  simp only [stripPadding, padding, value, last, filled, byte, fits, Bool.or_false, Bool.false_eq_true,
    ↓reduceIte, tail, equal, front, take_left]

section RoundTrip
variable (sized : ∀ block, (enc block).length = AES_BLOCKSIZE)

include sized

lemma length_cbcEncrypt (iv : Bytes) (some : data ≠ []) :
    (cbcEncrypt enc iv data true).length = (data.length / AES_BLOCKSIZE + 1) * AES_BLOCKSIZE := by
  have parts : (paddedBlocks data).length = data.length / AES_BLOCKSIZE + 1 := by
    rw [paddedBlocks, length_append, length_blocks, length_singleton]
  rw [cbcEncrypt_padded some, length_flatten fun _ => length_of_mem_chain sized, length_chain, parts]

/-- Decryption of a ciphertext whose blocks are undone one by one, up to the padding. -/
lemma cbcDecrypt_undone
    (undone : ∀ mixed block, mixed.length = AES_BLOCKSIZE → block.length = AES_BLOCKSIZE →
      mix (dec (enc (mix mixed block))) mixed = undo block)
    (start : iv.length = AES_BLOCKSIZE) (some : data ≠ []) :
    cbcDecrypt dec iv (cbcEncrypt enc iv data true) true = stripPadding ((paddedBlocks data).map undo).flatten := by
  have length := length_cbcEncrypt sized iv some
  have filled : (cbcEncrypt enc iv data true).isEmpty = false := by
    rw [isEmpty_eq_false_iff, ← length_pos_iff, length]
    exact Nat.mul_pos (succ_pos _) (by decide)
  have whole : (cbcEncrypt enc iv data true).length % AES_BLOCKSIZE = 0 := by rw [length, mul_mod_left]
  have cut : blocks AES_BLOCKSIZE ((cbcEncrypt enc iv data true).length / AES_BLOCKSIZE)
      (cbcEncrypt enc iv data true) = chain enc iv (paddedBlocks data) := by
    have each : ∀ block ∈ chain enc iv (paddedBlocks data), block.length = AES_BLOCKSIZE :=
      fun _ => length_of_mem_chain sized
    rw [cbcEncrypt_padded some, length_flatten each, Nat.mul_div_cancel _ (by decide), blocks_flatten each]
  simp [cbcDecrypt, filled, whole, cut, unchain_chain sized undone start length_paddedBlocks]

lemma cbcDecrypt_cbcEncrypt (inverse : ∀ block, block.length = AES_BLOCKSIZE → dec (enc block) = block)
    (start : iv.length = AES_BLOCKSIZE) (some : data ≠ []) :
    cbcDecrypt dec iv (cbcEncrypt enc iv data true) true = data := by
  have undone : ∀ mixed block, mixed.length = AES_BLOCKSIZE → block.length = AES_BLOCKSIZE →
      mix (dec (enc (mix mixed block))) mixed = block := by
    intro mixed block left right
    rw [inverse _ (length_mix left right), mix_mix (left.trans right.symm)]
  rw [cbcDecrypt_undone sized undone start some, map_id', flatten_paddedBlocks, stripPadding_padding]

end RoundTrip

/-- Encryption of a secret fails on a master key of another size only. -/
lemma encryptSecret_isSome (vMasterKey vchPlaintext : Bytes) (nIV : Uint256) :
    (encryptSecret aes vMasterKey vchPlaintext nIV).isSome = true ↔ vMasterKey.length = WALLET_CRYPTO_KEY_SIZE := by
  have written : ¬ (cbcEncrypt (aes.encrypt vMasterKey) (nIV.bytes.take WALLET_CRYPTO_IV_SIZE)
      vchPlaintext true).length < vchPlaintext.length := by
    by_cases some : vchPlaintext = []
    · rw [some]
      exact Nat.not_lt_zero _
    · rw [length_cbcEncrypt (aes.encryptSized vMasterKey) _ some]
      have split := div_add_mod' vchPlaintext.length AES_BLOCKSIZE
      have rest := mod_lt vchPlaintext.length (show 0 < AES_BLOCKSIZE by decide)
      rw [succ_mul]
      omega
  rw [encryptSecret, CCrypter.encrypt]
  by_cases size : vMasterKey.length = WALLET_CRYPTO_KEY_SIZE
  · simp only [size, length_iv, written, ne_eq, not_true_eq_false, or_self, ↓reduceIte, Option.isSome_some]
  · simp [size]

lemma decryptSecret_encryptSecret {aes : AES256} (permutes : aes.Permutes) (some : vchPlaintext ≠ [])
    (done : encryptSecret aes vMasterKey vchPlaintext nIV = .some vchCiphertext) :
    decryptSecret aes vMasterKey vchCiphertext nIV = .some vchPlaintext := by
  have size : vMasterKey.length = WALLET_CRYPTO_KEY_SIZE := by
    rw [← encryptSecret_isSome aes vMasterKey vchPlaintext nIV, done]
    rfl
  have guard : ¬ (vMasterKey.length ≠ WALLET_CRYPTO_KEY_SIZE ∨
      (nIV.bytes.take WALLET_CRYPTO_IV_SIZE).length ≠ WALLET_CRYPTO_IV_SIZE) := by
    rw [size, length_iv]
    simp
  rw [encryptSecret, CCrypter.encrypt, if_neg guard] at done
  rw [decryptSecret, CCrypter.decrypt, if_neg guard]
  dsimp only at done ⊢
  split at done
  · cases done
  · rw [← Option.some.inj done, cbcDecrypt_cbcEncrypt (aes.encryptSized vMasterKey)
      (fun block sized => permutes vMasterKey block size sized) length_iv some,
      if_neg fun empty => some (length_eq_zero_iff.mp empty)]

end Dragonchain.Wallet
