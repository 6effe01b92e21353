import Dragonchain.IsMine
import Dragonchain.KeyOperations

/-!
Compact signatures, which carry the public key behind the signature. RecoverCompact
writes the key it finds into its object before it verifies the signature.
-/

namespace Dragonchain

open Falcon List Script.ToySigner

/-- CKey::SignCompact. -/
def CKey.signCompact (scheme : Scheme) (key : CKey) (hash : Uint256) (draw : Nat) : Option Bytes :=
  if !key.fValid then none
  else
    match scheme.signSignature key.keydata hash.bytes draw with
    | none => none
    | some sig => if sig.length = 0 ∨ sig.length > SIGN_SIZE then none else some (sig ++ key.pubkeydata)

namespace CPubKey

/-- The unsigned int mlen: the size of what stands before the key. -/
def compactLength (vchSig : Bytes) : Nat := (vchSig.length - (PUBLIC_KEY_SIZE - 1)) % 2 ^ 32

def compactKey (vchSig : Bytes) : Bytes := (vchSig.drop (compactLength vchSig)).take (PUBLIC_KEY_SIZE - 1)

variable {vchSig sig pk : Bytes}

lemma length_compactKey (long : ¬ vchSig.length < PUBLIC_KEY_SIZE - 1) :
    (7 :: compactKey vchSig).length = PUBLIC_KEY_SIZE := by
  have before : compactLength vchSig ≤ vchSig.length - (PUBLIC_KEY_SIZE - 1) := Nat.mod_le _ _
  rw [length_cons, compactKey, length_take, List.length_drop, PUBLIC_KEY_SIZE] at *
  omega

/-- CPubKey::RecoverCompact: what it returns, and what it leaves in the object. -/
def recoverCompact (arithmetic : Arithmetic) (key : CPubKey) (hash : Uint256) (vchSig : Bytes) : Bool × CPubKey :=
  if long : vchSig.length < PUBLIC_KEY_SIZE - 1 then (false, key)
  else
    (cryptoSignVerify arithmetic (vchSig.take (compactLength vchSig)) hash.bytes (compactKey vchSig),
      ⟨7 :: compactKey vchSig, length_compactKey long⟩)

/-- A signature of up to SIGN_SIZE bytes and the key behind it are split where they were joined. -/
lemma compact_append (size : pk.length = 897) (short : sig.length ≤ CKey.SIGN_SIZE) :
    compactLength (sig ++ pk) = sig.length ∧ compactKey (sig ++ pk) = pk := by
  have length : compactLength (sig ++ pk) = sig.length := by
    rw [compactLength, length_append, size, PUBLIC_KEY_SIZE, Nat.add_sub_cancel]
    exact Nat.mod_eq_of_lt (short.trans_lt (by decide))
  rw [compactKey, length, drop_left, PUBLIC_KEY_SIZE]
  exact ⟨rfl, take_of_length_le size.le⟩

lemma recoverCompact_signCompact {scheme : Scheme} (correct : scheme.Correct) {signer : CKey}
    (valid : signer.isValid = true) (matched : signer.Matched scheme) {hash : Uint256} {draw : Nat}
    {key : CPubKey} : ∃ vchSig, signer.signCompact scheme hash draw = some vchSig ∧
      key.recoverCompact scheme.toArithmetic hash vchSig = (true, signer.getPubKey) := by
  obtain ⟨sig, signed, verified⟩ := correct signer valid (matched valid) hash draw
  have flag : signer.fValid = true := valid
  have pubkey : signer.getPubKey = ⟨7 :: signer.pubkeydata, by rw [length_cons, signer.pubSized]⟩ := if_pos flag
  rw [CKey.sign, flag, Bool.not_true, if_neg Bool.false_ne_true] at signed
  split at signed
  · cases signed
  rename_i made
  split_ifs at signed with range
  cases signed
  obtain ⟨length, split⟩ := compact_append signer.pubSized (Nat.le_of_not_lt (not_or.mp range).2)
  refine ⟨sig ++ signer.pubkeydata, ?_, ?_⟩
  · rw [CKey.signCompact, flag, made]
    simp only [Bool.not_true, Bool.false_eq_true, ↓reduceIte, if_neg range]
  · have long : ¬ (sig ++ signer.pubkeydata).length < PUBLIC_KEY_SIZE - 1 := by
      rw [length_append, signer.pubSized, PUBLIC_KEY_SIZE]
      omega
    rw [verify, bytes_of_valid (CKey.getPubKey_valid valid), pubkey, Bool.and_eq_true] at verified
    simp only [recoverCompact, dif_neg long, length, split, take_left, pubkey]
    exact Prod.ext verified.2 rfl

/-- The key of a valid signer comes back; a failure leaves the object as it was exactly where the
vector is shorter than a key, or the object holds the key in it already. -/
theorem recoverCompact_iff (scheme : Scheme) (correct : scheme.Correct) (key : CPubKey) (hash : Uint256)
    (vchSig : Bytes) : (∀ signer : CKey, signer.isValid = true → signer.Matched scheme → ∀ draw,
      ∃ signed, signer.signCompact scheme hash draw = some signed ∧
        key.recoverCompact scheme.toArithmetic hash signed = (true, signer.getPubKey)) ∧
    ((key.recoverCompact scheme.toArithmetic hash vchSig).1 = false →
      ((key.recoverCompact scheme.toArithmetic hash vchSig).2 = key ↔
        vchSig.length < PUBLIC_KEY_SIZE - 1 ∨ key.vch = 7 :: compactKey vchSig)) := by
  refine ⟨fun signer valid matched draw => recoverCompact_signCompact correct valid matched, fun _ => ?_⟩
  unfold recoverCompact
  split_ifs with short
  · exact iff_of_true rfl (Or.inl short)
  · obtain ⟨vch, sized⟩ := key
    simp only [short, false_or]
    constructor
    · exact fun same => (congrArg CPubKey.vch same).symm
    · rintro rfl
      rfl

namespace Overwritten

/-- A key's worth of zeros. -/
def zeros : Bytes := List.replicate 897 0

/-- The object holds the key of the vector already. -/
def held : CPubKey := ofBytes (7 :: zeros)

theorem same_key_left : (∃ signed, (key true).signCompact scheme Uint256.null 0 = some signed ∧
      held.recoverCompact scheme.toArithmetic Uint256.null signed = (true, (key true).getPubKey)) ∧
    (held.recoverCompact scheme.toArithmetic Uint256.null zeros).1 = false ∧
    (held.recoverCompact scheme.toArithmetic Uint256.null zeros).2 = held := by
  obtain ⟨recovers, leaves⟩ := recoverCompact_iff scheme
    Wallet.CCryptoKeyStore.ClosedStore.scheme_correct held Uint256.null zeros
  have failed : (held.recoverCompact scheme.toArithmetic Uint256.null zeros).1 = false := by decide +kernel
  have matched : (key true).Matched scheme := fun _ => by decide +kernel
  exact ⟨recovers (key true) rfl matched 0, failed, (leaves failed).mpr (.inr (by decide +kernel))⟩

/-- An invalid object becomes a valid key although nothing was recovered. -/
theorem failure_overwrites_key : (invalid.recoverCompact scheme.toArithmetic Uint256.null zeros).1 = false ∧
      (invalid.recoverCompact scheme.toArithmetic Uint256.null zeros).2 ≠ invalid ∧
      (invalid.recoverCompact scheme.toArithmetic Uint256.null zeros).2.isValid = true := by
  decide +kernel

end Overwritten

end CPubKey

end Dragonchain
