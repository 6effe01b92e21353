import Dragonchain.KeyStoreRuns

/-!
The operations that change a CKey: its constructors, both Set overloads, Load, MakeNewKey
and assignment, on any number of variables. The secret and the public bytes of a key are
set by entry points with different checks; a key keeps its promise to sign for its own
public key as long as the pairs handed to it match.
-/

namespace Dragonchain

open List

variable {key : CKey} {fCompressedIn fSkipCheck : Bool} {name target : Nat}
  {pubkeydata privkey : Bytes} {pk vchPubKey : CPubKey}

structure KeyPair where
  sk : Bytes
  pk : Bytes
  sized : sk.length = 1281
  pubSized : pk.length = 897

namespace CKey

def given (privkey : Bytes) (vchPubKey : CPubKey) (sized : privkey.length = 1281) : CKey where
  fValid := true
  fCompressed := true
  keydata := privkey
  pubkeydata := vchPubKey.vch.drop 1
  sized := sized
  pubSized := vchPubKey.length_drop

/-- CKey::Load: what it returns and the key it leaves. The header of the private key is not read. -/
def load (crypto : Crypto) (scheme : Falcon.Scheme) (key : CKey) (privkey : Bytes)
    (vchPubKey : CPubKey) (fSkipCheck : Bool) (draw : Draw) : Bool × CKey :=
  if sized : privkey.length = 1281 then
    if !vchPubKey.isValid then (false, { key with fValid := false })
    else if fSkipCheck then (true, given privkey vchPubKey sized)
    else
      let fValid := (given privkey vchPubKey sized).verifyPubKey crypto scheme vchPubKey draw
      (fValid, { given privkey vchPubKey sized with fValid })
  else (false, { key with fValid := false })

/-- CKey::MakeNewKey on the outcome of crypto_sign_keypair; its argument is not read. -/
def makeNewKey (key : CKey) (_fCompressedIn : Bool) : Option KeyPair → CKey
  | none => { key with fValid := false }
  | some pair => ⟨true, true, pair.sk, pair.pk, pair.sized, pair.pubSized⟩

variable (scheme : Falcon.Scheme)

/-- What fValid stands for: the signatures of a valid key verify under its public key. -/
def SignsForItself (key : CKey) : Prop :=
  key.isValid = true → ∀ hash draw vchSig, key.sign scheme hash draw = some vchSig →
    key.getPubKey.verify scheme.toArithmetic hash vchSig = true

/-- The public bytes of a valid key are those derived from its secret. -/
def Matched (key : CKey) : Prop := key.isValid = true → key.derivePubKey scheme = some key.pubkeydata

end CKey

inductive KeyOperation where
  | construct (target : Nat)
  | set (target : Nat) (secret : Bytes) (fCompressedIn : Bool)
  | setPubKey (target : Nat) (secret : Bytes) (pk : CPubKey) (fCompressedIn : Bool)
  | load (target : Nat) (privkey : Bytes) (vchPubKey : CPubKey) (fSkipCheck : Bool) (draw : CKey.Draw)
  | makeNewKey (target : Nat) (fCompressedIn : Bool) (draw : Nat)
  | copy (source target : Nat)

section Operations
variable (crypto : Crypto) (scheme : Falcon.Scheme) (keypair : Nat → Option KeyPair)

def operate (keys : Nat → CKey) : KeyOperation → Nat → CKey
  | .construct target => Function.update keys target CKey.empty
  | .set target secret fCompressedIn =>
    Function.update keys target ((keys target).setDeriving scheme secret fCompressedIn)
  | .setPubKey target secret pk fCompressedIn =>
    Function.update keys target ((keys target).set secret pk fCompressedIn)
  | .load target privkey vchPubKey fSkipCheck draw =>
    Function.update keys target ((keys target).load crypto scheme privkey vchPubKey fSkipCheck draw).2
  | .makeNewKey target fCompressedIn draw =>
    Function.update keys target ((keys target).makeNewKey fCompressedIn (keypair draw))
  | .copy source target => Function.update keys target (keys source)

def runOperations (operations : List KeyOperation) (keys : Nat → CKey) : Nat → CKey :=
  operations.foldl (operate crypto scheme keypair) keys

/-- The public key handed over with a secret is the one derived from it. -/
def PairMatches (secret : Bytes) (pk : CPubKey) : Prop :=
  secret.getD 0 0 = 0x50 + 9 ∧ scheme.derivePubKey secret = some (pk.vch.drop 1)

/-- The pairs of bytes handed to Set and Load match. A Load that checks may also be given a
pair that fails the check on every draw. -/
def KeyOperation.Matching : KeyOperation → Prop
  | .setPubKey _ secret pk _ => secret.length = 1281 → secret.getD 0 0 = 0x50 + 9 → PairMatches scheme secret pk
  | .load _ privkey vchPubKey fSkipCheck _ =>
    ∀ sized : privkey.length = 1281, vchPubKey.isValid = true →
      PairMatches scheme privkey vchPubKey ∨
        fSkipCheck = false ∧ ∀ draw,
          (CKey.given privkey vchPubKey sized).verifyPubKey crypto scheme vchPubKey draw = false
  | _ => True

/-- crypto_sign_keypair makes matching pairs. -/
def PairsMatch : Prop :=
  ∀ draw pair, keypair draw = some pair → pair.sk.getD 0 0 = 0x50 + 9 ∧ scheme.derivePubKey pair.sk = some pair.pk

end Operations

namespace CKey
variable {crypto : Crypto} {scheme : Falcon.Scheme} {secret : Bytes}

lemma Matched.signsForItself (correct : scheme.Correct) (matched : key.Matched scheme) :
    key.SignsForItself scheme := by
  intro valid hash draw vchSig signed
  obtain ⟨own, found, verifies⟩ := correct key valid (matched valid) hash draw
  rw [signed] at found
  cases found
  exact verifies

lemma matched_of_invalid (invalid : key.fValid = false) : key.Matched scheme :=
  fun valid => absurd (invalid.symm.trans valid) Bool.false_ne_true

lemma derivePubKey_eq (header : key.keydata.getD 0 0 = 0x50 + 9)
    (derived : scheme.derivePubKey key.keydata = some pubkeydata) :
    key.derivePubKey scheme = some pubkeydata := by
  rw [derivePubKey, if_neg (not_not.mpr header), derived]

lemma matched_setDeriving : (key.setDeriving scheme secret fCompressedIn).Matched scheme := by
  unfold setDeriving
  split
  · split
    · dsimp only
      split
      · exact matched_of_invalid rfl
      · rename_i derived
        split
        · exact fun _ => derived
        · exact matched_of_invalid rfl
    · exact matched_of_invalid rfl
  · exact matched_of_invalid rfl

lemma matched_set (matching : secret.length = 1281 → secret.getD 0 0 = 0x50 + 9 → PairMatches scheme secret pk) :
    (key.set secret pk fCompressedIn).Matched scheme := by
  unfold set
  split
  · rename_i sized
    split_ifs with header
    · exact fun _ => derivePubKey_eq header (matching sized header).2
    · exact matched_of_invalid rfl
  · exact matched_of_invalid rfl

lemma matched_load {draw : Draw}
    (matching : ∀ sized : privkey.length = 1281, vchPubKey.isValid = true →
      PairMatches scheme privkey vchPubKey ∨ fSkipCheck = false ∧ ∀ draw,
        (given privkey vchPubKey sized).verifyPubKey crypto scheme vchPubKey draw = false) :
    (key.load crypto scheme privkey vchPubKey fSkipCheck draw).2.Matched scheme := by
  unfold load
  split
  · rename_i sized
    split
    · exact matched_of_invalid rfl
    · rename_i pubValid
      cases matching sized (by simpa using pubValid) with
      | inl pair =>
        -- whatever the check says, the bytes that were copied match
        split
        · exact fun _ => derivePubKey_eq pair.1 pair.2
        · exact fun _ => derivePubKey_eq pair.1 pair.2
      | inr fails =>
        rw [fails.1]
        exact matched_of_invalid (fails.2 draw)
  · exact matched_of_invalid rfl

lemma matched_makeNewKey {keypair : Nat → Option KeyPair} (pairs : PairsMatch scheme keypair) {draw : Nat} :
    (key.makeNewKey fCompressedIn (keypair draw)).Matched scheme := by
  cases made : keypair draw with
  | none => exact matched_of_invalid rfl
  | some pair =>
    have facts := pairs draw pair made
    exact fun _ => derivePubKey_eq facts.1 facts.2

end CKey

section Runs
variable {crypto : Crypto} {scheme : Falcon.Scheme} {keypair : Nat → Option KeyPair}
  {keys : Nat → CKey}

lemma matched_update (matched : ∀ name, (keys name).Matched scheme)
    (own : key.Matched scheme) : (Function.update keys target key name).Matched scheme := by
  by_cases same : name = target
  · simpa [same] using own
  · simpa [Function.update_of_ne same] using matched name

lemma matched_operate {operation : KeyOperation} (pairs : PairsMatch scheme keypair)
    (matched : ∀ name, (keys name).Matched scheme) (matching : operation.Matching crypto scheme) (name : Nat) :
    (operate crypto scheme keypair keys operation name).Matched scheme := by
  cases operation with
  | construct target => exact matched_update matched (CKey.matched_of_invalid rfl)
  | set target secret fCompressedIn => exact matched_update matched CKey.matched_setDeriving
  | setPubKey target secret pk fCompressedIn => exact matched_update matched (CKey.matched_set matching)
  | load target privkey vchPubKey fSkipCheck draw => exact matched_update matched (CKey.matched_load matching)
  | makeNewKey target fCompressedIn draw => exact matched_update matched (CKey.matched_makeNewKey pairs)
  | copy source target => exact matched_update matched (matched source)

lemma matched_runOperations {operations : List KeyOperation} (pairs : PairsMatch scheme keypair)
    (matching : ∀ operation ∈ operations, operation.Matching crypto scheme)
    (matched : ∀ name, (keys name).Matched scheme) :
    (runOperations crypto scheme keypair operations keys name).Matched scheme := by
  induction operations generalizing keys with
  | nil => exact matched name
  | cons first rest ih =>
    apply ih (fun operation member => matching operation (mem_cons_of_mem first member))
    exact matched_operate pairs matched (matching first mem_cons_self)

end Runs

/-- In every run whose Set and Load calls are handed matching pairs, every valid key signs for
its own public key. The variables begin as default constructed keys. -/
theorem valid_keys_sign_for_themselves (crypto : Crypto) (scheme : Falcon.Scheme) (keypair : Nat → Option KeyPair)
    (correct : scheme.Correct) (pairs : PairsMatch scheme keypair) (operations : List KeyOperation)
    (matching : ∀ operation ∈ operations, operation.Matching crypto scheme) (name : Nat) :
    (runOperations crypto scheme keypair operations (fun _ => CKey.empty) name).SignsForItself scheme :=
  (matched_runOperations pairs matching (fun _ => CKey.matched_of_invalid rfl)).signsForItself correct

namespace MixedPair

open Script

def secret : Bytes := 0x59 :: replicate 1280 0

/-- A well-formed public key that is not the one derived from any secret. -/
def other : CPubKey := ⟨7 :: replicate 897 0, by rw [length_cons, length_replicate]⟩

def keypair (_ : Nat) : Option KeyPair :=
  some ⟨secret, 9 :: replicate 896 0, by rw [secret, length_cons, length_replicate], ToySigner.length_pubkeydata⟩

lemma keypair_matches : PairsMatch ToySigner.scheme keypair := by
  rintro draw pair ⟨⟩
  exact ⟨rfl, rfl⟩

def run (operation : KeyOperation) : CKey :=
  runOperations Crypto.zeros ToySigner.scheme keypair [operation] (fun _ => CKey.empty) 0

/-- Set with the public key of another secret, and Load without the check, each leave a valid
key whose signatures its own public key rejects. -/
theorem mixed_pair_valid : ToySigner.scheme.Correct ∧ PairsMatch ToySigner.scheme keypair ∧
      ∀ operation ∈ [KeyOperation.setPubKey 0 secret other true, .load 0 secret other true ⟨[], 0⟩],
        (run operation).isValid = true ∧
          (run operation).sign ToySigner.scheme Uint256.null 0 = some Resigned.ones ∧
          (run operation).getPubKey.verify ToySigner.scheme.toArithmetic Uint256.null Resigned.ones = false := by
  refine ⟨Wallet.CCryptoKeyStore.ClosedStore.scheme_correct, keypair_matches, ?_⟩
  decide +kernel

theorem matching_run_signs : (runOperations Crypto.zeros ToySigner.scheme keypair
      [.makeNewKey 0 true 0, .setPubKey 1 secret Resigned.zeroKey true, .copy 1 2]
      (fun _ => CKey.empty) 2).SignsForItself ToySigner.scheme := by
  apply valid_keys_sign_for_themselves _ _ _ Wallet.CCryptoKeyStore.ClosedStore.scheme_correct keypair_matches
  simp only [forall_mem_cons, not_mem_nil, false_imp_iff, implies_true, and_true, KeyOperation.Matching, true_and]
  exact fun _ header => ⟨header, rfl⟩

end MixedPair

end Dragonchain
