import Dragonchain.Crypter
import Dragonchain.KeyStore

/-!
CCryptoKeyStore of wallet/crypter.cpp over CBasicKeyStore. A loop over a map takes the
entries in the order of the list.
-/

namespace Dragonchain.Wallet

open Script

abbrev CryptedKeyMap := AList fun _ : Uint160 => CPubKey × Bytes

/-- The key store. A master key and encrypted keys are there only once it is encrypted. -/
structure CCryptoKeyStore extends CBasicKeyStore where
  vMasterKey : Bytes := []
  fUseCrypto : Bool := false
  fDecryptionThoroughlyChecked : Bool := false
  mapCryptedKeys : CryptedKeyMap := ∅
  masterless : fUseCrypto = false → vMasterKey = [] := by exact fun _ => rfl
  plain : fUseCrypto = false → mapCryptedKeys = ∅ := by exact fun _ => rfl

/-- DecryptKey, which accepts a secret only if it signs for the public key. -/
def decryptKey (crypto : Crypto) (scheme : Falcon.Scheme) (aes : AES256)
    (vMasterKey vchCryptedSecret : Bytes) (vchPubKey : CPubKey) (draw : CKey.Draw) : Option CKey :=
  match decryptSecret aes vMasterKey vchCryptedSecret (vchPubKey.getHash crypto) with
  | none => none
  | some vchSecret =>
    let key := CKey.empty.set vchSecret vchPubKey vchPubKey.isCompressed
    if key.verifyPubKey crypto scheme vchPubKey draw then some key else none

namespace CCryptoKeyStore

def isCrypted (store : CCryptoKeyStore) : Bool := store.fUseCrypto

def isLocked (store : CCryptoKeyStore) : Bool := if !store.isCrypted then false else store.vMasterKey.isEmpty

def useCrypto (store : CCryptoKeyStore) : CCryptoKeyStore :=
  { store with
    fUseCrypto := true
    masterless := fun plain => nomatch plain
    plain := fun plain => nomatch plain }

/-- SetCrypted; `none` is its false, which leaves the store as it is. -/
def setCrypted (store : CCryptoKeyStore) : Option { store : CCryptoKeyStore // store.fUseCrypto = true } :=
  if crypted : store.fUseCrypto = true then some ⟨store, crypted⟩
  else if !store.mapKeys.entries.isEmpty then none
  else some ⟨store.useCrypto, rfl⟩

def haveKey (store : CCryptoKeyStore) (address : Uint160) : Bool :=
  if !store.isCrypted then store.toCBasicKeyStore.haveKey address
  else (store.mapCryptedKeys.lookup address).isSome

def addCryptedKey (crypto : Crypto) (store : CCryptoKeyStore) (vchPubKey : CPubKey)
    (vchCryptedSecret : Bytes) : Bool × CCryptoKeyStore :=
  match store.setCrypted with
  | none => (false, store)
  | some ⟨store, crypted⟩ =>
    if !vchPubKey.isValid then (false, store)
    else
      (true, { store with
        mapCryptedKeys := store.mapCryptedKeys.insert (vchPubKey.getID crypto) (vchPubKey, vchCryptedSecret)
        plain := fun plain => nomatch crypted.symm.trans plain
        toCBasicKeyStore := store.implicitlyLearnRelatedKeyScripts crypto vchPubKey })

def addKeyPubKey (crypto : Crypto) (aes : AES256) (store : CCryptoKeyStore) (key : CKey)
    (pubkey : CPubKey) : Bool × CCryptoKeyStore :=
  if !store.isCrypted then
    let (added, basic) := store.toCBasicKeyStore.addKeyPubKey crypto key pubkey
    (added, { store with toCBasicKeyStore := basic })
  else if store.isLocked then (false, store)
  else
    match encryptSecret aes store.vMasterKey key.bytes (pubkey.getHash crypto) with
    | none => (false, store)
    | some vchCryptedSecret => store.addCryptedKey crypto pubkey vchCryptedSecret

def lock (store : CCryptoKeyStore) : Bool × CCryptoKeyStore :=
  match store.setCrypted with
  | none => (false, store)
  | some ⟨store, _⟩ => (true, { store with vMasterKey := [], masterless := fun _ => rfl })

section Secrets
variable (crypto : Crypto) (scheme : Falcon.Scheme) (aes : AES256)

/-- The loop of Unlock: whether a key decrypts. After a first thorough check it stops there. -/
def keyPass (vMasterKeyIn : Bytes) (fDecryptionThoroughlyChecked : Bool) (draws : Uint160 → CKey.Draw) :
    List (Sigma fun _ : Uint160 => CPubKey × Bytes) → Bool → Bool
  | [], pass => pass
  | ⟨address, vchPubKey, vchCryptedSecret⟩ :: rest, pass =>
    match decryptKey crypto scheme aes vMasterKeyIn vchCryptedSecret vchPubKey (draws address) with
    | none => keyPass vMasterKeyIn fDecryptionThoroughlyChecked draws rest pass
    | some _ =>
      if fDecryptionThoroughlyChecked then true
      else keyPass vMasterKeyIn fDecryptionThoroughlyChecked draws rest true

def unlock (store : CCryptoKeyStore) (vMasterKeyIn : Bytes) (draws : Uint160 → CKey.Draw) :
    Bool × CCryptoKeyStore :=
  match store.setCrypted with
  | none => (false, store)
  | some ⟨store, crypted⟩ =>
    if !keyPass crypto scheme aes vMasterKeyIn store.fDecryptionThoroughlyChecked draws
        store.mapCryptedKeys.entries false then (false, store)
    else
      (true, { store with
        vMasterKey := vMasterKeyIn
        fDecryptionThoroughlyChecked := true
        masterless := fun plain => nomatch crypted.symm.trans plain })

def getKey (store : CCryptoKeyStore) (address : Uint160) (draw : CKey.Draw) : Option CKey :=
  if !store.isCrypted then store.toCBasicKeyStore.getKey address
  else
    match store.mapCryptedKeys.lookup address with
    | some (vchPubKey, vchCryptedSecret) =>
      decryptKey crypto scheme aes store.vMasterKey vchCryptedSecret vchPubKey draw
    | none => none

end Secrets

structure Adds (crypto : Crypto) (store : CCryptoKeyStore) (vchPubKey : CPubKey)
    (vchCryptedSecret : Bytes) (after : CCryptoKeyStore) : Prop where
  mapKeys : after.mapKeys = store.mapKeys
  vMasterKey : after.vMasterKey = store.vMasterKey
  crypted : after.fUseCrypto = true
  inserted : after.mapCryptedKeys =
    store.mapCryptedKeys.insert (vchPubKey.getID crypto) (vchPubKey, vchCryptedSecret)

variable (crypto : Crypto) {store : CCryptoKeyStore} {vchPubKey : CPubKey}

lemma setCrypted_of_crypted (crypted : store.fUseCrypto = true) : store.setCrypted = some ⟨store, crypted⟩ := by
  rw [setCrypted, dif_pos crypted]

lemma addCryptedKey_valid (crypted : store.fUseCrypto = true) (valid : vchPubKey.isValid = true)
    (vchCryptedSecret : Bytes) :
    ∃ after, store.addCryptedKey crypto vchPubKey vchCryptedSecret = (true, after) ∧
      Adds crypto store vchPubKey vchCryptedSecret after := by
  simp only [addCryptedKey, setCrypted_of_crypted crypted, valid, Bool.not_true, Bool.false_eq_true, ↓reduceIte]
  exact ⟨_, rfl, store.mapKeys_learn crypto vchPubKey, rfl, crypted, rfl⟩

def encryptEach (crypto : Crypto) (aes : AES256) (vMasterKeyIn : Bytes) :
    List (Sigma fun _ : Uint160 => CKey) → CCryptoKeyStore → Bool × CCryptoKeyStore
  | [], store => (true, store)
  | ⟨_, key⟩ :: rest, store =>
    if !key.isValid then encryptEach crypto aes vMasterKeyIn rest store
    else if !key.getPubKey.isValid then encryptEach crypto aes vMasterKeyIn rest store
    else
      match encryptSecret aes vMasterKeyIn key.bytes (key.getPubKey.getHash crypto) with
      | none => (false, store)
      | some vchCryptedSecret =>
        match store.addCryptedKey crypto key.getPubKey vchCryptedSecret with
        | (false, store) => (false, store)
        | (true, store) => encryptEach crypto aes vMasterKeyIn rest store

def encryptKeys (crypto : Crypto) (aes : AES256) (store : CCryptoKeyStore) (vMasterKeyIn : Bytes) :
    Bool × CCryptoKeyStore :=
  if !store.mapCryptedKeys.entries.isEmpty || store.isCrypted then (false, store)
  else
    match encryptEach crypto aes vMasterKeyIn store.mapKeys.entries store.useCrypto with
    | (false, store) => (false, store)
    | (true, store) => (true, { store with mapKeys := ∅ })

end CCryptoKeyStore

end Dragonchain.Wallet
