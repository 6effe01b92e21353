import Mathlib.Data.List.AList
import Dragonchain.Key
import Dragonchain.Standard

/-!
CBasicKeyStore of keystore.cpp. The maps are lists of entries without duplicate keys. A call
returns its boolean and the store it leaves behind; reading returns `none` for false.
-/

namespace Dragonchain.Wallet

open Script

abbrev KeyMap := AList fun _ : Uint160 => CKey

/-- CPubKey::IsFullyValid. A valid key has the header 0x07 and its full size, so that the
source never gets to its call of secp256k1. -/
def isFullyValid (key : CPubKey) : Bool :=
  key.isValid && (key.vch.getD 0 0 == 7 && key.size == CPubKey.PUBLIC_KEY_SIZE)

structure CBasicKeyStore where
  mapKeys : KeyMap := ∅
  mapWatchKeys : AList fun _ : Uint160 => CPubKey := ∅
  mapScripts : AList fun _ : Uint160 => Bytes := ∅
  setWatchOnly : List Bytes := []

namespace CBasicKeyStore
variable (crypto : Crypto) (store : CBasicKeyStore) (address : Uint160)

def haveKey : Bool := (store.mapKeys.lookup address).isSome

def getKey : Option CKey := store.mapKeys.lookup address

def getPubKey : Option CPubKey :=
  match store.getKey address with
  | none => store.mapWatchKeys.lookup address
  | some key => some key.getPubKey

def haveCScript (hash : Uint160) : Bool := (store.mapScripts.lookup hash).isSome

def getCScript (hash : Uint160) : Option Bytes := store.mapScripts.lookup hash

variable (dest : Bytes)

def haveWatchOnly : Bool := store.setWatchOnly.contains dest

variable (pubkey : CPubKey)

/-- It asserts that the key is known, as it is at every call. -/
def implicitlyLearnRelatedKeyScripts : CBasicKeyStore :=
  if pubkey.isCompressed then
    let script := getScriptForWitnessKeyHash (pubkey.getID crypto)
    { store with mapScripts := store.mapScripts.insert (crypto.hash160 script) script }
  else store

lemma mapKeys_learn : (store.implicitlyLearnRelatedKeyScripts crypto pubkey).mapKeys = store.mapKeys := by
  rw [implicitlyLearnRelatedKeyScripts]
  split <;> rfl

def addKeyPubKey (key : CKey) (pubkey : CPubKey) : Bool × CBasicKeyStore :=
  let stored := { store with mapKeys := store.mapKeys.insert (pubkey.getID crypto) key }
  (true, stored.implicitlyLearnRelatedKeyScripts crypto pubkey)

def addKey (key : CKey) : Bool × CBasicKeyStore := store.addKeyPubKey crypto key key.getPubKey

def addCScript (redeemScript : Bytes) : Bool × CBasicKeyStore :=
  if redeemScript.length > MAX_SCRIPT_ELEMENT_SIZE then (false, store)
  else (true, { store with
    mapScripts := store.mapScripts.insert (crypto.hash160 redeemScript) redeemScript })

def extractPubKey : Option CPubKey :=
  match getOp dest with
  | none => none
  | some (_, vch, pc) =>
    if vch.length < 33 ∨ vch.length > 65 then none
    else
      let pubKey := CPubKey.ofBytes vch
      if !isFullyValid pubKey then none
      else
        match getOp pc with
        | none => none
        | some (opcode, _, pc) => if opcode ≠ OP_CHECKSIG ∨ (getOp pc).isSome then none else some pubKey

def addWatchOnly : Bool × CBasicKeyStore :=
  let watched := { store with setWatchOnly := store.setWatchOnly.insert dest }
  match extractPubKey dest with
  | none => (true, watched)
  | some pubKey =>
    let known := { watched with mapWatchKeys := watched.mapWatchKeys.insert (pubKey.getID crypto) pubKey }
    (true, known.implicitlyLearnRelatedKeyScripts crypto pubKey)

def removeWatchOnly : Bool × CBasicKeyStore :=
  let left := { store with setWatchOnly := store.setWatchOnly.erase dest }
  match extractPubKey dest with
  | none => (true, left)
  | some pubKey => (true, { left with mapWatchKeys := left.mapWatchKeys.erase (pubKey.getID crypto) })

def toKeyStore : CKeyStore := ⟨store.getKey, store.getPubKey, store.getCScript⟩

end CBasicKeyStore

end Dragonchain.Wallet
