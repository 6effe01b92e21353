import Dragonchain.CryptoKeyStore

/-!
EncryptKeys. With a master key of the right size the loop seals every valid key of the
plaintext map under the id of its public key; with any other master key it stops at the
first valid key. What the map of encrypted keys holds is compared with the record of the
keys that were added, by id.
-/

namespace Dragonchain.Wallet

open List

variable {vMasterKey vchCryptedSecret vMasterKeyIn : Bytes} {store : CCryptoKeyStore}

/-- The last key added under an id, with the public key it was added with. -/
abbrev Added := Uint160 → Option (CKey × CPubKey)

/-- The map holds exactly the recorded keys, each encrypted under the master key. -/
def Sealed (crypto : Crypto) (aes : AES256) (vMasterKey : Bytes) (added : Added)
    (mapCryptedKeys : CryptedKeyMap) : Prop :=
  ∀ address, Option.Rel
    (fun entry crypted => crypted.1 = entry.2 ∧
      encryptSecret aes vMasterKey entry.1.bytes (entry.2.getHash crypto) = some crypted.2)
    (added address) (mapCryptedKeys.lookup address)

def recordKey (crypto : Crypto) (added : Added) (key : CKey) (pubkey : CPubKey) : Added :=
  Function.update added (pubkey.getID crypto) (some (key, pubkey))

def recordEach (crypto : Crypto) (added : Added) (entries : List (Sigma fun _ : Uint160 => CKey)) : Added :=
  entries.foldl (fun added entry =>
    if entry.2.isValid then recordKey crypto added entry.2 entry.2.getPubKey else added) added

variable {added : Added}

section Sealing
variable {crypto : Crypto} {aes : AES256} {mapCryptedKeys : CryptedKeyMap}

lemma sealed_empty : Sealed crypto aes vMasterKey (fun _ => none) ∅ := by
  intro address
  exact .none

variable («sealed» : Sealed crypto aes vMasterKey added mapCryptedKeys)
include «sealed»

lemma Sealed.insert {key : CKey} {pubkey : CPubKey}
    (done : encryptSecret aes vMasterKey key.bytes (pubkey.getHash crypto) = some vchCryptedSecret) :
    Sealed crypto aes vMasterKey (recordKey crypto added key pubkey)
      (mapCryptedKeys.insert (pubkey.getID crypto) (pubkey, vchCryptedSecret)) := by
  intro address
  by_cases same : address = pubkey.getID crypto
  · rw [same, recordKey, Function.update_self, AList.lookup_insert]
    exact .some ⟨rfl, done⟩
  · rw [recordKey, Function.update_of_ne same, AList.lookup_insert_ne same]
    exact «sealed» address

lemma Sealed.isSome (address : Uint160) : (mapCryptedKeys.lookup address).isSome = (added address).isSome := by
  have related := «sealed» address
  generalize added address = entry at related
  generalize mapCryptedKeys.lookup address = crypted at related
  cases related <;> rfl

omit «sealed»

lemma Sealed.encrypts {entry : (_ : Uint160) × CPubKey × Bytes}
    («sealed» : Sealed crypto aes vMasterKey added mapCryptedKeys) (member : entry ∈ mapCryptedKeys.entries) :
    ∃ secret, encryptSecret aes vMasterKey secret (entry.2.1.getHash crypto) = some entry.2.2 := by
  have found : mapCryptedKeys.lookup entry.1 = some entry.2 := AList.mem_lookup_iff.mpr member
  have related := «sealed» entry.1
  rw [found] at related
  generalize added entry.1 = recorded at related
  cases related with
  | @some key _ same =>
    rw [same.1]
    exact ⟨key.1.bytes, same.2⟩

end Sealing

lemma recordEach_isSome (crypto : Crypto) (added : Added)
    (entries : List (Sigma fun _ : Uint160 => CKey)) (address : Uint160) :
    (recordEach crypto added entries address).isSome = true ↔ (added address).isSome = true ∨
        ∃ entry ∈ entries, entry.2.isValid = true ∧ entry.2.getPubKey.getID crypto = address := by
  induction entries generalizing added with
  | nil => simp [recordEach]
  | cons entry rest ih =>
    change (recordEach crypto (if entry.2.isValid then _ else added) rest address).isSome = true ↔ _
    rw [ih, exists_mem_cons_iff]
    by_cases valid : entry.2.isValid = true
    · by_cases same : address = entry.2.getPubKey.getID crypto
      · subst same
        simp [valid, recordKey]
      · simp [valid, recordKey, Function.update_of_ne same, Ne.symm same]
    · simp [valid]

namespace CCryptoKeyStore

/-- What the loop of EncryptKeys leaves behind when it comes to its end. -/
structure Encrypted (crypto : Crypto) (aes : AES256) (vMasterKeyIn : Bytes) (added : Added)
    (store after : CCryptoKeyStore) : Prop where
  vMasterKey : after.vMasterKey = store.vMasterKey
  crypted : after.fUseCrypto = true
  keys : Sealed crypto aes vMasterKeyIn added after.mapCryptedKeys

section Loop
variable {crypto : Crypto} {aes : AES256}

lemma encryptEach_sealed {entries : List ((_ : Uint160) × CKey)}
    (size : vMasterKeyIn.length = WALLET_CRYPTO_KEY_SIZE)
    (crypted : store.fUseCrypto = true) («sealed» : Sealed crypto aes vMasterKeyIn added store.mapCryptedKeys) :
    ∃ after, encryptEach crypto aes vMasterKeyIn entries store = (true, after) ∧
      Encrypted crypto aes vMasterKeyIn (recordEach crypto added entries) store after := by
  induction entries generalizing added store with
  | nil => exact ⟨store, rfl, rfl, crypted, «sealed»⟩
  | cons entry rest ih =>
    by_cases valid : entry.2.isValid = true
    · have sound := CKey.getPubKey_valid valid
      obtain ⟨vchCryptedSecret, done⟩ := Option.isSome_iff_exists.mp
        ((encryptSecret_isSome aes vMasterKeyIn entry.2.bytes (entry.2.getPubKey.getHash crypto)).mpr size)
      obtain ⟨next, added', adds⟩ := addCryptedKey_valid crypto crypted sound vchCryptedSecret
      obtain ⟨after, run, encrypted⟩ := ih adds.crypted (adds.inserted ▸ «sealed».insert done)
      refine ⟨after, ?_, encrypted.vMasterKey.trans adds.vMasterKey, encrypted.crypted, ?_⟩
      · simp [encryptEach, valid, sound, done, added', run]
      · simpa only [recordEach, foldl_cons, valid, ↓reduceIte] using encrypted.keys
    · -- an invalid key is skipped
      obtain ⟨after, run, encrypted⟩ := ih crypted «sealed»
      refine ⟨after, ?_, encrypted.vMasterKey, encrypted.crypted, ?_⟩
      · simpa only [encryptEach, valid, Bool.not_false, ↓reduceIte] using run
      · simpa only [recordEach, foldl_cons, valid, Bool.false_eq_true, ↓reduceIte] using encrypted.keys

lemma encryptEach_wrongSize (size : vMasterKeyIn.length ≠ WALLET_CRYPTO_KEY_SIZE)
    (entries : List (Sigma fun _ : Uint160 => CKey)) (store : CCryptoKeyStore) :
    encryptEach crypto aes vMasterKeyIn entries store = (!entries.any (fun entry => entry.2.isValid), store) := by
  induction entries with
  | nil => rfl
  | cons entry rest ih =>
    by_cases valid : entry.2.isValid = true
    · have sound := CKey.getPubKey_valid valid
      have fails : encryptSecret aes vMasterKeyIn entry.2.bytes (entry.2.getPubKey.getHash crypto) = none := by
        rw [← Option.not_isSome_iff_eq_none, encryptSecret_isSome]
        exact size
      simp [encryptEach, valid, sound, fails]
    · rw [Bool.not_eq_true] at valid
      simp [encryptEach, valid, ih]

end Loop

/-- EncryptKeys leaves the store alone when it fails and loses no key when it succeeds. -/
def EncryptsAtomically (crypto : Crypto) (aes : AES256) (store : CCryptoKeyStore) (vMasterKeyIn : Bytes) : Prop :=
  ((store.encryptKeys crypto aes vMasterKeyIn).1 = false → (store.encryptKeys crypto aes vMasterKeyIn).2 = store) ∧
  ((store.encryptKeys crypto aes vMasterKeyIn).1 = true →
    ∀ address, store.haveKey address = true → (store.encryptKeys crypto aes vMasterKeyIn).2.haveKey address = true)

section Encryption
variable (crypto : Crypto) (aes : AES256) (plain : store.isCrypted = false)

include plain

lemma encryptKeys_plain :
    store.encryptKeys crypto aes vMasterKeyIn =
      match encryptEach crypto aes vMasterKeyIn store.mapKeys.entries store.useCrypto with
      | (false, store) => (false, store)
      | (true, store) => (true, { store with mapKeys := ∅ }) := by
  have keyless : (!store.mapCryptedKeys.entries.isEmpty || store.isCrypted) = false := by
    rw [store.plain plain, plain]
    rfl
  rw [encryptKeys, keyless]
  exact if_neg Bool.false_ne_true

lemma encryptKeys_sealed (size : vMasterKeyIn.length = WALLET_CRYPTO_KEY_SIZE) :
    ∃ after, store.encryptKeys crypto aes vMasterKeyIn = (true, after) ∧ after.mapKeys = ∅ ∧
      Encrypted crypto aes vMasterKeyIn (recordEach crypto (fun _ => none) store.mapKeys.entries) store
        after := by
  have start : Sealed crypto aes vMasterKeyIn (fun _ => none) store.useCrypto.mapCryptedKeys := by
    have keyless : store.useCrypto.mapCryptedKeys = ∅ := store.plain plain
    rw [keyless]
    exact sealed_empty
  obtain ⟨after, run, encrypted⟩ := encryptEach_sealed size rfl start
  refine ⟨{ after with mapKeys := ∅ }, ?_, rfl, encrypted.vMasterKey, encrypted.crypted, encrypted.keys⟩
  rw [encryptKeys_plain crypto aes plain, run]

lemma encryptKeys_wrongSize (size : vMasterKeyIn.length ≠ WALLET_CRYPTO_KEY_SIZE) :
    store.encryptKeys crypto aes vMasterKeyIn =
      if store.mapKeys.entries.any (fun entry => entry.2.isValid) then (false, store.useCrypto)
      else (true, { store.useCrypto with mapKeys := ∅ }) := by
  rw [encryptKeys_plain crypto aes plain, encryptEach_wrongSize size]
  cases store.mapKeys.entries.any (fun entry => entry.2.isValid) <;> rfl

end Encryption

/-- EncryptKeys is atomic on an unencrypted store exactly if the master key has the size of
an AES key, unless there is no key at all, and every id in the store is the id of the public
key of a valid key in it. -/
theorem encryptKeys_atomic_iff (crypto : Crypto) (aes : AES256) (store : CCryptoKeyStore)
    (vMasterKeyIn : Bytes) (plain : store.isCrypted = false) :
    EncryptsAtomically crypto aes store vMasterKeyIn ↔
      (vMasterKeyIn.length = WALLET_CRYPTO_KEY_SIZE ∨ store.mapKeys.entries = []) ∧
      ∀ address, store.haveKey address = true → ∃ entry ∈ store.mapKeys.entries,
          entry.2.isValid = true ∧ entry.2.getPubKey.getID crypto = address := by
  by_cases size : vMasterKeyIn.length = WALLET_CRYPTO_KEY_SIZE
  · obtain ⟨after, done, _, encrypted⟩ := encryptKeys_sealed crypto aes plain size
    have kept : ∀ address, after.haveKey address = true ↔ ∃ entry ∈ store.mapKeys.entries,
          entry.2.isValid = true ∧ entry.2.getPubKey.getID crypto = address := by
      intro address
      simp [haveKey, isCrypted, encrypted.crypted, encrypted.keys.isSome, recordEach_isSome]
    simp [EncryptsAtomically, done, size, kept]
  · have lost : ∀ address, ({ store.useCrypto with mapKeys := ∅ } : CCryptoKeyStore).haveKey address = false := by
      intro address
      have keyless : store.mapCryptedKeys = ∅ := store.plain plain
      simp [haveKey, isCrypted, useCrypto, keyless]
    simp only [EncryptsAtomically, encryptKeys_wrongSize crypto aes plain size, size, false_or]
    by_cases valid : store.mapKeys.entries.any (fun entry => entry.2.isValid) = true
    · -- the flag is set although nothing was encrypted
      have flagged : store.useCrypto ≠ store := fun same =>
        Bool.false_ne_true (plain.symm.trans (congrArg fUseCrypto same).symm)
      have some : store.mapKeys.entries ≠ [] := by
        intro none
        rw [none] at valid
        cases valid
      simp [valid, flagged, some]
    · simp only [valid, Bool.false_eq_true, ↓reduceIte, Bool.true_eq_false, false_implies, true_and,
        true_implies, lost]
      constructor
      · intro keyless
        refine ⟨?_, fun address held => absurd held (keyless address)⟩
        -- every entry of the map is found under its id
        rw [eq_nil_iff_forall_not_mem]
        intro entry member
        apply keyless entry.1
        simp [haveKey, CBasicKeyStore.haveKey, plain, AList.lookup_isSome, AList.mem_keys, AList.keys,
          mem_keys_of_mem member]
      · rintro ⟨empty, _⟩ address held
        simp [haveKey, CBasicKeyStore.haveKey, plain, AList.lookup, empty] at held

/-! Closed stores: one valid key under its own id, and one invalid key. -/

namespace ClosedStore

def crypto : Crypto := Crypto.zeros

def flip (value : UInt8) (block : Bytes) : Bytes := (block.map (value ^^^ ·) ++ replicate 16 0).take 16

lemma length_flip (value : UInt8) (block : Bytes) : (flip value block).length = 16 := by simp [flip]

/-- A cipher that flips all bits of a block under the key of zeros and none under any other. -/
def aes : AES256 where
  encrypt key := flip (if key = replicate 32 0 then 0xff else 0)
  decrypt key := flip (if key = replicate 32 0 then 0xff else 0)
  encryptSized _ := length_flip _
  decryptSized _ := length_flip _

def key : CKey := CKey.empty.set (0x59 :: replicate 1280 0) Resigned.zeroKey true

def address : Uint160 := key.getPubKey.getID crypto

def holding (key : CKey) : CCryptoKeyStore where
  mapKeys := (∅ : KeyMap).insert address key

/-- A master key of 16 bytes: EncryptKeys fails and leaves a store that says it is encrypted
and no longer has its key. A master key of the right size: EncryptKeys succeeds and has
dropped an invalid key. -/
theorem encryptKeys_not_atomic : ((holding key).isCrypted = false ∧ (holding key).haveKey address = true ∧
      ((holding key).encryptKeys crypto aes (replicate 16 0)).1 = false ∧
      ((holding key).encryptKeys crypto aes (replicate 16 0)).2.isCrypted = true ∧
      ((holding key).encryptKeys crypto aes (replicate 16 0)).2.haveKey address = false ∧
      ¬ EncryptsAtomically crypto aes (holding key) (replicate 16 0)) ∧
    ((holding CKey.empty).isCrypted = false ∧ (holding CKey.empty).haveKey address = true ∧
      ((holding CKey.empty).encryptKeys crypto aes (replicate 32 0)).1 = true ∧
      ((holding CKey.empty).encryptKeys crypto aes (replicate 32 0)).2.haveKey address = false ∧
      ¬ EncryptsAtomically crypto aes (holding CKey.empty) (replicate 32 0)) := by
  refine ⟨⟨rfl, by decide +kernel, by decide +kernel, by decide +kernel, by decide +kernel, fun atomic => ?_⟩,
    rfl, by decide +kernel, by decide +kernel, by decide +kernel, fun atomic => ?_⟩
  · exact absurd (congrArg isCrypted (atomic.1 (by decide +kernel))) (by decide +kernel)
  · exact absurd (atomic.2 (by decide +kernel) address (by decide +kernel)) (by decide +kernel)

theorem encryptKeys_atomic_holding : (holding key).isCrypted = false ∧
      EncryptsAtomically crypto aes (holding key) (replicate 32 0) := by
  refine ⟨rfl, (encryptKeys_atomic_iff crypto aes (holding key) (replicate 32 0) rfl).mpr
    ⟨.inl length_replicate, ?_⟩⟩
  intro other held
  have entries : (holding key).mapKeys.entries = [⟨address, key⟩] := by decide +kernel
  have same : other = address := by
    by_contra differs
    have found : (((∅ : KeyMap).insert address key).lookup other).isSome = true := held
    rw [AList.lookup_insert_ne differs] at found
    cases found
  have own : key.getPubKey.getID crypto = address := by decide +kernel
  have valid : key.isValid = true := by decide +kernel
  simp only [entries, mem_singleton, exists_eq_left]
  exact ⟨valid, own.trans same.symm⟩

end ClosedStore

end CCryptoKeyStore

end Dragonchain.Wallet
