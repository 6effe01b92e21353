import Dragonchain.KeyEncryption
import Dragonchain.KeySigning

/-!
Runs of an encrypted key store. After EncryptKeys a store is locked, unlocked and given
further keys in any order. Through all of that its plaintext map stays empty, the master
key in memory is either none or the one of EncryptKeys, and the encrypted map holds the
keys that were added last, sealed under that master key.
-/

namespace Dragonchain

open List Bool

variable {vMasterKey vMasterKeyIn vchCryptedSecret mixed : Bytes} {added : Wallet.Added}
  {thorough pass : Bool}

/-- What a Falcon signature is for: a key signs every hash for the public key derived from it. -/
def Falcon.Scheme.Correct (scheme : Falcon.Scheme) : Prop :=
  ∀ key : CKey, key.isValid = true → key.derivePubKey scheme = some key.pubkeydata →
    ∀ hash draw, ∃ vchSig, key.sign scheme hash draw = some vchSig ∧
      key.getPubKey.verify scheme.toArithmetic hash vchSig = true

namespace Wallet

/-- No secret encrypted under the master key decrypts to a key under another one. -/
def Exclusive (crypto : Crypto) (scheme : Falcon.Scheme) (aes : AES256) (vMasterKey : Bytes) : Prop :=
  ∀ other, other ≠ vMasterKey → ∀ (secret vchCryptedSecret : Bytes) (pubkey : CPubKey) (draw : CKey.Draw),
    encryptSecret aes vMasterKey secret (pubkey.getHash crypto) = some vchCryptedSecret →
      decryptKey crypto scheme aes other vchCryptedSecret pubkey draw = none

inductive Call where
  | lock
  | unlock (vMasterKeyIn : Bytes) (draws : Uint160 → CKey.Draw)
  | addKeyPubKey (key : CKey) (pubkey : CPubKey)

namespace CCryptoKeyStore

def plainRecord (store : CCryptoKeyStore) : Added := fun address =>
  (store.mapKeys.lookup address).bind fun key => if key.isValid then some (key, key.getPubKey) else none

section Calls
variable (crypto : Crypto) (scheme : Falcon.Scheme) (aes : AES256)

def call (store : CCryptoKeyStore) : Call → Bool × CCryptoKeyStore
  | .lock => store.lock
  | .unlock vMasterKeyIn draws => store.unlock crypto scheme aes vMasterKeyIn draws
  | .addKeyPubKey key pubkey => store.addKeyPubKey crypto aes key pubkey

/-- A key is recorded when AddKeyPubKey returns true. -/
def recordCall (added : Added) (returned : Bool) : Call → Added
  | .addKeyPubKey key pubkey => if returned then recordKey crypto added key pubkey else added
  | _ => added

def runCalls : List Call → CCryptoKeyStore → Added → CCryptoKeyStore × Added
  | [], store, added => (store, added)
  | next :: rest, store, added =>
    runCalls rest (store.call crypto scheme aes next).2
      (recordCall crypto added (store.call crypto scheme aes next).1 next)

end Calls

/-- The state of a store encrypted under a master key, with the keys added to it. -/
structure Holding (crypto : Crypto) (aes : AES256) (vMasterKey : Bytes) (store : CCryptoKeyStore)
    (added : Added) : Prop where
  empty : store.mapKeys = ∅
  crypted : store.fUseCrypto = true
  master : store.vMasterKey = [] ∨ store.vMasterKey = vMasterKey
  keys : Sealed crypto aes vMasterKey added store.mapCryptedKeys

section Steps
variable {crypto : Crypto} {scheme : Falcon.Scheme} {aes : AES256} {store : CCryptoKeyStore}

lemma Holding.lock (holding : Holding crypto aes vMasterKey store added) :
    Holding crypto aes vMasterKey store.lock.2 added := by
  rw [CCryptoKeyStore.lock, setCrypted_of_crypted holding.crypted]
  exact ⟨holding.empty, holding.crypted, .inl rfl, holding.keys⟩

lemma exists_of_keyPass {draws : Uint160 → CKey.Draw} {entries : List (Sigma fun _ : Uint160 => CPubKey × Bytes)}
    (passed : keyPass crypto scheme aes vMasterKeyIn thorough draws entries pass = true) :
    pass = true ∨ ∃ entry ∈ entries,
      decryptKey crypto scheme aes vMasterKeyIn entry.2.2 entry.2.1 (draws entry.1) ≠ none := by
  induction entries generalizing pass with
  | nil => exact .inl passed
  | cons entry rest ih =>
    rw [exists_mem_cons_iff]
    cases found : decryptKey crypto scheme aes vMasterKeyIn entry.2.2 entry.2.1 (draws entry.1) with
    | some key => exact .inr (.inl (Option.some_ne_none key))
    | none =>
      simp only [keyPass, found] at passed
      rcases ih passed with before | later
      · exact .inl before
      · exact .inr (.inr later)

lemma Holding.unlock (exclusive : Exclusive crypto scheme aes vMasterKey)
    (holding : Holding crypto aes vMasterKey store added) (vMasterKeyIn : Bytes) (draws : Uint160 → CKey.Draw) :
    Holding crypto aes vMasterKey (store.unlock crypto scheme aes vMasterKeyIn draws).2 added := by
  rw [CCryptoKeyStore.unlock, setCrypted_of_crypted holding.crypted]
  dsimp only
  split
  · exact holding
  · rename_i passed
    rw [not_eq_true, not_eq_false'] at passed
    rcases exists_of_keyPass passed with impossible | ⟨entry, member, decrypts⟩
    · cases impossible
    · obtain ⟨secret, encrypted⟩ := holding.keys.encrypts member
      have same : vMasterKeyIn = vMasterKey := by
        by_contra other
        exact decrypts (exclusive vMasterKeyIn other _ _ _ _ encrypted)
      exact ⟨holding.empty, holding.crypted, .inr same, holding.keys⟩

lemma Holding.addKeyPubKey (holding : Holding crypto aes vMasterKey store added) (key : CKey)
    (pubkey : CPubKey) : Holding crypto aes vMasterKey (store.addKeyPubKey crypto aes key pubkey).2
      (recordCall crypto added (store.addKeyPubKey crypto aes key pubkey).1 (.addKeyPubKey key pubkey)) := by
  have flag : store.isCrypted = true := holding.crypted
  rw [CCryptoKeyStore.addKeyPubKey, flag, if_neg (by decide)]
  split
  · exact holding
  · rename_i unlocked
    cases done : encryptSecret aes store.vMasterKey key.bytes (pubkey.getHash crypto) with
    | none => exact holding
    | some vchCryptedSecret =>
      -- a store that is not locked has the master key of EncryptKeys
      have master : store.vMasterKey = vMasterKey := by
        rcases holding.master with none | same
        · simp [isLocked, flag, none] at unlocked
        · exact same
      by_cases valid : pubkey.isValid = true
      · obtain ⟨after, added', adds⟩ := addCryptedKey_valid crypto holding.crypted valid vchCryptedSecret
        dsimp only
        rw [added']
        refine ⟨adds.mapKeys.trans holding.empty, adds.crypted, ?_, ?_⟩
        · rw [adds.vMasterKey]
          exact holding.master
        · rw [adds.inserted]
          exact holding.keys.insert (master ▸ done)
      · rw [not_eq_true] at valid
        simp only [addCryptedKey, setCrypted_of_crypted holding.crypted, valid, Bool.not_false, ↓reduceIte]
        exact holding

variable (exclusive : Exclusive crypto scheme aes vMasterKey)
include exclusive

lemma Holding.call (holding : Holding crypto aes vMasterKey store added) (next : Call) :
    Holding crypto aes vMasterKey (store.call crypto scheme aes next).2
      (recordCall crypto added (store.call crypto scheme aes next).1 next) := by
  cases next with
  | lock => exact holding.lock
  | unlock vMasterKeyIn draws => exact holding.unlock exclusive vMasterKeyIn draws
  | addKeyPubKey key pubkey => exact holding.addKeyPubKey key pubkey

lemma Holding.runCalls (calls : List Call) (holding : Holding crypto aes vMasterKey store added) :
    Holding crypto aes vMasterKey (CCryptoKeyStore.runCalls crypto scheme aes calls store added).1
      (CCryptoKeyStore.runCalls crypto scheme aes calls store added).2 := by
  induction calls generalizing store added with
  | nil => exact holding
  | cons next rest ih => exact ih (holding.call exclusive next)

end Steps

/-! Before the first call. -/

lemma recordEach_own {entries : List ((_ : Uint160) × CKey)} {crypto : Crypto} (nodup : entries.NodupKeys)
    (own : ∀ entry ∈ entries, entry.2.isValid = true → entry.2.getPubKey.getID crypto = entry.1) (added : Added)
    (address : Uint160) :
    recordEach crypto added entries address =
      ((entries.dlookup address).bind fun key =>
        if key.isValid then some (key, key.getPubKey) else none).or (added address) := by
  induction entries generalizing added with
  | nil => simp [recordEach]
  | cons entry rest ih =>
    obtain ⟨id, key⟩ := entry
    rw [nodupKeys_cons] at nodup
    have later := ih nodup.2 fun entry member => own entry (mem_cons_of_mem _ member)
    change recordEach crypto (if key.isValid then _ else added) rest address = _
    rw [later]
    by_cases same : address = id
    · subst same
      have missing := dlookup_eq_none.mpr nodup.1
      rw [missing, dlookup_cons_eq]
      by_cases valid : key.isValid = true
      · have here : key.getPubKey.getID crypto = address := own _ mem_cons_self valid
        simp [valid, recordKey, here]
      · simp [valid]
    · rw [dlookup_cons_ne _ _ same]
      by_cases valid : key.isValid = true
      · have here := own _ mem_cons_self valid
        simp only [valid, recordKey, ↓reduceIte]
        rw [Function.update_of_ne fun equal => same (equal.trans here)]
      · simp [valid]

lemma encryptKeys_holding {crypto : Crypto} {aes : AES256} {store : CCryptoKeyStore}
    (own : ∀ address key, store.mapKeys.lookup address = some key → key.isValid = true →
      key.getPubKey.getID crypto = address) (done : (store.encryptKeys crypto aes vMasterKey).1 = true) :
    Holding crypto aes vMasterKey (store.encryptKeys crypto aes vMasterKey).2 store.plainRecord := by
  have plain : store.isCrypted = false := by
    by_contra crypted
    rw [not_eq_false] at crypted
    simp [encryptKeys, crypted] at done
  have recorded : recordEach crypto (fun _ => none) store.mapKeys.entries = store.plainRecord := by
    funext address
    rw [recordEach_own store.mapKeys.nodupKeys, Option.or_none]
    · rfl
    · intro entry member valid
      exact own entry.1 entry.2 (AList.mem_lookup_iff.mpr member) valid
  have master : store.vMasterKey = [] := store.masterless plain
  by_cases size : vMasterKey.length = WALLET_CRYPTO_KEY_SIZE
  · obtain ⟨after, run, empty, encrypted⟩ := encryptKeys_sealed crypto aes plain size
    rw [run]
    exact ⟨empty, encrypted.crypted, .inl (encrypted.vMasterKey.trans master), recorded ▸ encrypted.keys⟩
  · -- there was nothing to encrypt
    rw [encryptKeys_wrongSize crypto aes plain size] at done ⊢
    split at done
    · cases done
    · rename_i invalid
      have none : store.plainRecord = fun _ => none := by
        funext address
        rw [← recorded, ← Option.not_isSome_iff_eq_none, recordEach_isSome]
        rintro (impossible | ⟨entry, member, valid, _⟩)
        · cases impossible
        · exact invalid (any_eq_true.mpr ⟨entry, member, valid⟩)
      have keyless : store.useCrypto.mapCryptedKeys = ∅ := store.plain plain
      rw [if_neg invalid, none]
      exact ⟨rfl, rfl, .inl master, keyless ▸ sealed_empty⟩

/-! Reading a key. -/

section Reading
variable {crypto : Crypto} {scheme : Falcon.Scheme} {aes : AES256} {store : CCryptoKeyStore}
  {key : CKey}

lemma decryptKey_own {draw : CKey.Draw} (permutes : aes.Permutes) (correct : scheme.Correct)
    (valid : key.isValid = true) (own : key.derivePubKey scheme = some key.pubkeydata)
    (done : encryptSecret aes vMasterKey key.bytes (key.getPubKey.getHash crypto) = some vchCryptedSecret) :
    ∃ found, decryptKey crypto scheme aes vMasterKey vchCryptedSecret key.getPubKey draw = some found ∧
      found.isValid = true ∧ found.keydata = key.keydata := by
  have flag : key.fValid = true := valid
  have header : key.keydata.getD 0 0 = 0x50 + 9 := by
    by_contra other
    rw [CKey.derivePubKey, if_pos other] at own
    cases own
  have filled : key.keydata ≠ [] := by
    intro empty
    have size := key.sized
    rw [empty] at size
    cases size
  rw [CKey.bytes_of_valid valid] at done
  have secret := decryptSecret_encryptSecret permutes filled done
  have made : CKey.empty.set key.keydata key.getPubKey key.getPubKey.isCompressed =
      { key with fCompressed := key.getPubKey.isCompressed } := by
    rw [CKey.set, dif_pos key.sized, if_pos header]
    simp [CKey.getPubKey, flag]
  obtain ⟨vchSig, signed, verifies⟩ := correct key valid own (CKey.verificationHash crypto draw.rnd) draw.signature
  have signed' : ({ key with fCompressed := key.getPubKey.isCompressed } : CKey).sign scheme
      (CKey.verificationHash crypto draw.rnd) draw.signature = some vchSig := signed
  refine ⟨{ key with fCompressed := key.getPubKey.isCompressed }, ?_, valid, rfl⟩
  simp [decryptKey, secret, made, CKey.verifyPubKey, signed', verifies]

lemma Holding.getKey_locked (holding : Holding crypto aes vMasterKey store added) (locked : store.isLocked = true)
    (address : Uint160) (draw : CKey.Draw) : store.getKey crypto scheme aes address draw = none := by
  have flag : store.isCrypted = true := holding.crypted
  have none : store.vMasterKey = [] := by simpa [isLocked, flag] using locked
  rw [getKey, flag, none]
  cases store.mapCryptedKeys.lookup address <;> rfl

lemma Holding.getKey_unlocked {address : Uint160} {draw : CKey.Draw} (permutes : aes.Permutes)
    (correct : scheme.Correct) (holding : Holding crypto aes vMasterKey store added)
    (unlocked : store.isLocked = false) (last : added address = some (key, key.getPubKey))
    (valid : key.isValid = true) (own : key.derivePubKey scheme = some key.pubkeydata) :
    ∃ found, store.getKey crypto scheme aes address draw = some found ∧ found.isValid = true ∧
      found.keydata = key.keydata := by
  have flag : store.isCrypted = true := holding.crypted
  have master : store.vMasterKey = vMasterKey := by
    rcases holding.master with none | same
    · simp [isLocked, flag, none] at unlocked
    · exact same
  have related := holding.keys address
  rw [last] at related
  cases stored : store.mapCryptedKeys.lookup address with
  | none =>
    rw [stored] at related
    cases related
  | some crypted =>
    rw [stored] at related
    obtain ⟨pubkey, vchCryptedSecret⟩ := crypted
    cases related with
    | some same =>
      obtain ⟨rfl, done⟩ := same
      rw [getKey, flag, stored, master]
      exact decryptKey_own permutes correct valid own done

end Reading

section Runs
variable (crypto : Crypto) (scheme : Falcon.Scheme) (aes : AES256)

/-- An encrypted store through any calls. Its plaintext map is empty; no key is read while it
is locked; and while it is not, the id under which a valid key was added last with its own
public key gives back exactly its secret. -/
theorem encrypted_store_runs (permutes : aes.Permutes) (correct : scheme.Correct) (vMasterKey : Bytes)
    (exclusive : Exclusive crypto scheme aes vMasterKey) (store : CCryptoKeyStore)
    (own : ∀ address key, store.mapKeys.lookup address = some key → key.isValid = true →
      key.getPubKey.getID crypto = address)
    (done : (store.encryptKeys crypto aes vMasterKey).1 = true) (calls : List Call)
    (after : CCryptoKeyStore) (added : Added)
    (run : runCalls crypto scheme aes calls (store.encryptKeys crypto aes vMasterKey).2
      store.plainRecord = (after, added)) : after.mapKeys = ∅ ∧
    (after.isLocked = true → ∀ address draw, after.getKey crypto scheme aes address draw = none) ∧
    (after.isLocked = false → ∀ address key draw, added address = some (key, key.getPubKey) →
      key.isValid = true → key.derivePubKey scheme = some key.pubkeydata →
        ∃ found, after.getKey crypto scheme aes address draw = some found ∧ found.isValid = true ∧
          found.keydata = key.keydata) := by
  have holding := (encryptKeys_holding own done).runCalls exclusive calls
  rw [run] at holding
  refine ⟨holding.empty, holding.getKey_locked, ?_⟩
  intro unlocked address key draw last valid paired
  exact holding.getKey_unlocked permutes correct unlocked last valid paired

end Runs

/-! The closed store, encrypted under the key of zeros. -/

namespace ClosedStore

open BlockChaining Script

lemma flip_of_block {value : UInt8} {block : Bytes} (sized : block.length = 16) :
    flip value block = block.map (value ^^^ ·) := by
  rw [flip, take_left' (by rw [length_map, sized])]

lemma map_xor_map_xor (value : UInt8) (block : Bytes) : (block.map (value ^^^ ·)).map (value ^^^ ·) = block := by
  have twice : (value ^^^ ·) ∘ (value ^^^ ·) = (id : UInt8 → UInt8) := by
    funext byte
    change value ^^^ (value ^^^ byte) = byte
    rw [← UInt8.xor_assoc, UInt8.xor_self, UInt8.zero_xor]
  rw [map_map, twice, map_id]

lemma aes_permutes : aes.Permutes := by
  intro key block _ sized
  change flip _ (flip _ block) = block
  rw [flip_of_block (length_flip _ _), flip_of_block sized, map_xor_map_xor]

lemma mix_map_mix {value : UInt8} {block : Bytes} (same : mixed.length = block.length) :
    mix ((mix mixed block).map (value ^^^ ·)) mixed = block.map (value ^^^ ·) := by
  induction mixed generalizing block with
  | nil =>
    rw [length_eq_zero_iff.mp same.symm]
    rfl
  | cons byte rest ih =>
    cases block with
    | nil => cases same
    | cons byte' rest' =>
      have here : value ^^^ (byte ^^^ byte') ^^^ byte = value ^^^ byte' := by
        rw [UInt8.xor_assoc, UInt8.xor_comm byte, UInt8.xor_assoc, UInt8.xor_self, UInt8.xor_zero]
      have later := ih (Nat.succ.inj same)
      simp only [mix, zipWith_cons_cons, map_cons, List.cons.injEq] at later ⊢
      exact ⟨here, later⟩

/-- The padding of a flipped plaintext is longer than a block. -/
lemma stripPadding_flipped (data : Bytes) :
    stripPadding ((data ++ padding AES_BLOCKSIZE data.length).map (0xff ^^^ ·)) = [] := by
  have rest := Nat.mod_lt data.length (show 0 < AES_BLOCKSIZE by decide)
  obtain ⟨count, value⟩ : ∃ count, AES_BLOCKSIZE - data.length % AES_BLOCKSIZE = count + 1 :=
    ⟨_, (Nat.succ_pred_eq_of_pos (by omega)).symm⟩
  have small : count < 16 := by
    have := Nat.sub_le AES_BLOCKSIZE (data.length % AES_BLOCKSIZE)
    change _ ≤ 16 at this
    omega
  have last : ((data ++ padding AES_BLOCKSIZE data.length).map (0xff ^^^ ·)).getLastD 0 =
      0xff ^^^ UInt8.ofNat (count + 1) := by
    rw [padding, value, replicate_succ', ← append_assoc, map_append, map_singleton, getLastD_concat]
  have long : ∀ count : Fin 16, (0xff ^^^ UInt8.ofNat (count.val + 1)).toNat > AES_BLOCKSIZE := by decide
  simp only [stripPadding, last, decide_eq_true (long ⟨count, small⟩), Bool.or_true, Bool.true_or, ↓reduceIte]

lemma aes_exclusive {scheme : Falcon.Scheme} : Exclusive crypto scheme aes (replicate 32 0) := by
  intro other differs secret vchCryptedSecret pubkey draw done
  have fails : decryptSecret aes other vchCryptedSecret (pubkey.getHash crypto) = none := by
    rw [decryptSecret, CCrypter.decrypt]
    split
    · rfl
    · rename_i sizes
      rw [encryptSecret, CCrypter.encrypt, if_neg (by rw [length_iv]; decide)] at done
      dsimp only at done
      split at done
      · cases done
      · rw [← Option.some.inj done]
        by_cases some : secret = []
        · rw [some]
          rfl
        · have undone : ∀ mixed block : Bytes, mixed.length = AES_BLOCKSIZE → block.length = AES_BLOCKSIZE →
              mix (aes.decrypt other (aes.encrypt (replicate 32 0) (mix mixed block))) mixed =
                block.map (0xff ^^^ ·) := by
            intro mixed block left right
            have zero : (0 ^^^ · : UInt8 → UInt8) = id := funext fun byte => UInt8.zero_xor
            change mix (flip (if other = _ then _ else _) (flip (if _ = _ then _ else _) _)) mixed = _
            rw [if_neg differs, if_pos rfl, flip_of_block (length_flip _ _),
              flip_of_block (length_mix left right), zero, map_id,
              mix_map_mix (left.trans right.symm)]
          rw [cbcDecrypt_undone (aes.encryptSized _) undone length_iv some, ← map_flatten,
            flatten_paddedBlocks, stripPadding_flipped]
          rfl
  rw [decryptKey, fails]

lemma scheme_correct : ToySigner.scheme.Correct := by
  intro key valid own hash draw
  have flag : key.fValid = true := valid
  have bytes : key.pubkeydata = 9 :: replicate 896 0 := by
    rw [CKey.derivePubKey] at own
    split at own
    · cases own
    · exact (Option.some.inj own).symm
  have pubkey : key.getPubKey = Resigned.zeroKey := by
    simp only [CKey.getPubKey, flag, ↓reduceIte, bytes]
    rfl
  refine ⟨Resigned.ones, ?_, pubkey ▸ ToySigner.verifies hash⟩
  have short : ¬ (Resigned.ones.length = 0 ∨ Resigned.ones.length > CKey.SIGN_SIZE) := by decide +kernel
  have signed : ToySigner.scheme.signSignature key.keydata hash.bytes draw = some Resigned.ones := rfl
  simp only [CKey.sign, flag, signed, short, Bool.not_true, false_eq_true, ↓reduceIte]

lemma own_holding {other : Uint160} {stored : CKey}
    (held : (holding key).mapKeys.lookup other = some stored) : stored.getPubKey.getID crypto = other := by
  have found : ((∅ : KeyMap).insert address key).lookup other = some stored := held
  by_cases same : other = address
  · rw [same, AList.lookup_insert] at found
    rw [← Option.some.inj found, same]
    rfl
  · rw [AList.lookup_insert_ne same, AList.lookup_empty] at found
    cases found

def draw : CKey.Draw := ⟨[], 0⟩

/-- An unlock with another master key, one with the right one, and the key is there. -/
def calls : List Call := [.unlock (replicate 32 1) fun _ => draw, .unlock (replicate 32 0) fun _ => draw]

def afterCalls : CCryptoKeyStore × Added :=
  runCalls crypto ToySigner.scheme aes calls ((holding key).encryptKeys crypto aes (replicate 32 0)).2
    (holding key).plainRecord

theorem key_read_when_unlocked : ((holding key).encryptKeys crypto aes (replicate 32 0)).1 = true ∧
    afterCalls.1.isLocked = false ∧
    ∃ found, afterCalls.1.getKey crypto ToySigner.scheme aes address draw = some found ∧
      found.isValid = true ∧ found.keydata = key.keydata := by
  have done : ((holding key).encryptKeys crypto aes (replicate 32 0)).1 = true := by decide +kernel
  have unlocked : afterCalls.1.isLocked = false := by decide +kernel
  -- an unlock leaves the record of the added keys as it is
  have kept : afterCalls.2 = (holding key).plainRecord := by simp [afterCalls, calls, runCalls, recordCall]
  have valid : key.isValid = true := by decide +kernel
  have held : (holding key).mapKeys.lookup address = some key := AList.lookup_insert ∅
  have last : afterCalls.2 address = some (key, key.getPubKey) := by
    rw [kept, plainRecord, held]
    simp [valid]
  have paired : key.derivePubKey ToySigner.scheme = some key.pubkeydata := by decide +kernel
  have run : runCalls crypto ToySigner.scheme aes calls
      ((holding key).encryptKeys crypto aes (replicate 32 0)).2 (holding key).plainRecord =
        (afterCalls.1, afterCalls.2) :=
    (Prod.mk.eta : (afterCalls.1, afterCalls.2) = afterCalls).symm
  have runs := encrypted_store_runs crypto ToySigner.scheme aes aes_permutes scheme_correct
    (replicate 32 0) aes_exclusive (holding key)
    (fun other stored held _ => own_holding held) done calls afterCalls.1 afterCalls.2 run
  exact ⟨done, unlocked, runs.2.2 unlocked address key draw last valid paired⟩

end ClosedStore

end CCryptoKeyStore

end Wallet

end Dragonchain
