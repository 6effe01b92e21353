import Dragonchain.KeyStore
import Dragonchain.Solvable

/-!
IsMine of script/ismine.cpp. It calls itself on the scripts that the store knows; the model
bounds the depth of these calls, and `none` is a call that goes deeper.
-/

namespace Dragonchain.Wallet

open Script List Option

variable {script program vch subscript : Bytes} {isInvalid : Bool}

inductive IsMineType where
  | NO
  | WATCH_UNSOLVABLE
  | WATCH_SOLVABLE
  | SPENDABLE
  deriving DecidableEq

section IsMine
variable (crypto : Crypto) (store : CBasicKeyStore)

def haveKeys (pubkeys : List Bytes) : Nat :=
  (pubkeys.filter fun pubkey => store.haveKey ((CPubKey.ofBytes pubkey).getID crypto)).length

/-- The inner verdicts that are returned at once. -/
def settles (ret : IsMineType) (isInvalid : Bool) : Bool :=
  ret == .SPENDABLE || ret == .WATCH_SOLVABLE || (ret == .NO && isInvalid)

variable (scriptPubKey : Bytes)

def watchOnlyMine : IsMineType :=
  if store.haveWatchOnly scriptPubKey then
    if (produceSignature crypto (dummySignatureCreator store.toKeyStore) scriptPubKey).1 then
      .WATCH_SOLVABLE
    else .WATCH_UNSOLVABLE
  else .NO

/-- The verdict together with isInvalid. -/
def isMine : Nat → Bytes → SigVersion → Option (IsMineType × Bool)
  | 0, _, _ => none
  | depth + 1, scriptPubKey, sigversion =>
    let solution := solver scriptPubKey
    let first := solution.vSolutionsRet.headD []
    let unsettled (isInvalid : Bool) := (watchOnlyMine crypto store scriptPubKey, isInvalid)
    let inner (subscript : Bytes) (sigversion : SigVersion) :=
      (isMine depth subscript sigversion).map fun verdict =>
        if settles verdict.1 verdict.2 then verdict else unsettled verdict.2
    if !solution.solved then
      some (if store.haveWatchOnly scriptPubKey then .WATCH_UNSOLVABLE else .NO, false)
    else
      match solution.typeRet with
      | some .TX_PUBKEY =>
        if sigversion ≠ .BASE ∧ first.length ≠ 33 then some (.NO, true)
        else if store.haveKey ((CPubKey.ofBytes first).getID crypto) then some (.SPENDABLE, false)
        else some (unsettled false)
      | some .TX_WITNESS_V0_KEYHASH =>
        if !store.haveCScript (crypto.hash160 ([OP_0] ++ pushData first)) then some (unsettled false)
        else inner (getScriptForPubKeyHash (toUint160 first)) .WITNESS_V0
      | some .TX_PUBKEYHASH =>
        let keyID := toUint160 first
        if sigversion ≠ .BASE ∧ (store.getPubKey keyID).any (!·.isCompressed) then some (.NO, true)
        else if store.haveKey keyID then some (.SPENDABLE, false)
        else some (unsettled false)
      | some .TX_SCRIPTHASH =>
        match store.getCScript (toUint160 first) with
        | some subscript => inner subscript .BASE
        | none => some (unsettled false)
      | some .TX_WITNESS_V0_SCRIPTHASH =>
        if !store.haveCScript (crypto.hash160 ([OP_0] ++ pushData first)) then some (unsettled false)
        else
          match store.getCScript (crypto.ripemd160 first) with
          | some subscript => inner subscript .WITNESS_V0
          | none => some (unsettled false)
      | some .TX_MULTISIG =>
        let keys := (solution.vSolutionsRet.drop 1).dropLast
        if sigversion ≠ .BASE ∧ keys.any (·.length != 33) then some (.NO, true)
        else if haveKeys crypto store keys = keys.length then some (.SPENDABLE, false)
        else some (unsettled false)
      | _ => some (unsettled false)

def Spendable (sigversion : SigVersion) : Prop :=
  ∃ depth isInvalid, isMine crypto store depth scriptPubKey sigversion = some (.SPENDABLE, isInvalid)

end IsMine

/-! What Solver's types say about the script. -/

lemma isPayToScriptHash_inv (hash : isPayToScriptHash script = true) :
    script = getScriptForScriptHash (toUint160 ((script.drop 2).take 20)) := by
  simp only [isPayToScriptHash, Bool.and_eq_true, beq_iff_eq] at hash
  obtain ⟨⟨⟨length, first⟩, size⟩, last⟩ := hash
  obtain ⟨code, push, rest, rfl⟩ : ∃ code push rest, script = code :: push :: rest := by
    rcases script with _ | ⟨code, _ | ⟨push, rest⟩⟩
    · cases length
    · cases length
    · exact ⟨code, push, rest, rfl⟩
  simp only [getD_cons_zero, getD_cons_succ, length_cons] at first size last length
  have sized : (rest.take 20).length = 20 := by
    rw [length_take]
    omega
  have final : rest.drop 20 = [OP_EQUAL] := by
    rw [drop_eq_getElem_cons (by omega), drop_of_length_le (by omega)]
    rw [getD_eq_getElem?_getD, getElem?_eq_getElem (by omega), getD_some] at last
    rw [last]
  rw [first, size, getScriptForScriptHash, pushData_hash, drop_succ_cons, drop_succ_cons,
    drop_zero, toUint160, dif_pos sized]
  change OP_HASH160 :: 20 :: rest = OP_HASH160 :: 20 :: (rest.take 20 ++ [OP_EQUAL])
  rw [← final, take_append_drop]

lemma eq_scriptHash_of_solver (typed : (solver script).typeRet = some .TX_SCRIPTHASH) :
    ∃ scriptID, script = getScriptForScriptHash scriptID := by
  exact ⟨_, isPayToScriptHash_inv (solver_scriptHash_inv typed).1⟩

lemma isWitnessProgram_inv
    (shape : isWitnessProgram script = some (0, program)) : script = OP_0 :: pushData program := by
  rw [isWitnessProgram] at shape
  split_ifs at shape with range opcode size
  obtain ⟨version, rest⟩ := Prod.mk.inj (Option.some.inj shape)
  simp only [Bool.or_eq_true, decide_eq_true_eq, not_or, not_lt] at range
  obtain ⟨code, push, data, rfl⟩ : ∃ code push data, script = code :: push :: data := by
    rcases script with _ | ⟨code, _ | ⟨push, data⟩⟩
    · exact absurd range.1 (by decide)
    · exact absurd range.1 (not_le.mpr (by simp))
    · exact ⟨code, push, data, rfl⟩
  obtain rfl : data = program := rest
  simp only [getD_cons_zero, getD_cons_succ, length_cons] at version size opcode range
  have first : code = OP_0 := by
    by_contra other
    have low : OP_1 ≤ code := by
      simp only [bne_iff_ne, ne_eq, other, not_false_eq_true, Bool.and_eq_true, Bool.or_eq_true,
        decide_eq_true_eq, true_and, not_or] at opcode
      exact UInt8.not_lt.mp opcode.1
    have value : OP_1.toNat ≤ code.toNat := UInt8.le_iff_toNat_le.mp low
    rw [decodeOP_N, if_neg other] at version
    have one : OP_1.toNat = 81 := rfl
    omega
  have tiny : data.length < OP_PUSHDATA1.toNat := lt_of_le_of_lt (by omega : data.length ≤ 40) (by decide)
  have count : push = UInt8.ofNat data.length := by rw [show data.length = push.toNat by omega, UInt8.ofNat_toNat]
  rw [first, count, pushData, if_pos tiny]

/-- Bytes that are not of the size of a key have the id of the empty string. -/
lemma getID_ofBytes {crypto : Crypto} (sized : isKeySized vch = true) :
    (CPubKey.ofBytes vch).getID crypto = crypto.hash160 [] := by
  have other : ¬ vch.length = 898 := by
    intro same
    rw [isKeySized, same] at sized
    cases sized
  rw [CPubKey.ofBytes, dif_neg other]
  rfl

lemma solver_pubKey_inv (typed : (solver script).typeRet = some .TX_PUBKEY) :
    isKeySized ((solver script).vSolutionsRet.headD []) = true := by
  obtain ⟨template, member, matched, -⟩ := solver_inv rfl typed
  obtain rfl : template = [OP_PUBKEY, OP_CHECKSIG] := by simpa [mTemplates] using member
  obtain ⟨opcode, vch, rest, middle, -, sized, onward⟩ := matchTemplate_inv (by decide) matched
  rw [matchOp_pubkey] at sized
  split_ifs at sized with keySized
  cases sized
  obtain ⟨last, -, ended⟩ := matchTemplate_plain (by decide) onward
  rw [← (matchTemplate_end ended).2]
  exact keySized

lemma solver_multisig_inv (typed : (solver script).typeRet = some .TX_MULTISIG)
    (solved : (solver script).solved = true) :
    ∃ key keys, ((solver script).vSolutionsRet.drop 1).dropLast = key :: keys ∧
      ∀ key' ∈ key :: keys, isKeySized key' = true := by
  obtain ⟨template, member, matched, verdict⟩ := solver_inv rfl typed
  obtain rfl : template = [OP_SMALLINTEGER, OP_PUBKEYS, OP_SMALLINTEGER, OP_CHECKMULTISIG] := by
    simpa [mTemplates] using member
  have checked : checkMultiSig (solver script).vSolutionsRet = true := verdict.symm.trans solved
  obtain ⟨m, _, _, _, mSmall, _, _, _, _, _, readKeys, n, _, _, _, nSmall, collected, _, shape⟩ :=
    matchTemplate_multisig matched
  obtain ⟨⟨keys, rfl, sized⟩, _⟩ := collectPubKeys_inv collected (getOp_push readKeys)
  rw [shape] at checked ⊢
  obtain ⟨positive, fewer, count⟩ : 1 ≤ m ∧ m ≤ n ∧ keys.length = n := checkMultiSig_inv mSmall nSmall checked
  cases keys with
  | nil =>
    rw [length_nil] at count
    omega
  | cons key keys =>
    refine ⟨key, keys, ?_, sized⟩
    rw [append_assoc, singleton_append, drop_succ_cons, drop_zero, dropLast_concat]

/-! What makes a script spendable. -/

section Inversion
variable {crypto : Crypto} {store : CBasicKeyStore} {sigversion : SigVersion}

lemma watchOnlyMine_ne : watchOnlyMine crypto store script ≠ .SPENDABLE := by
  rw [watchOnlyMine]
  split_ifs <;> decide

lemma haveKeys_lt {key : Bytes} (keys : List Bytes)
    (absent : store.haveKey ((CPubKey.ofBytes key).getID crypto) = false) :
    haveKeys crypto store (key :: keys) ≠ (key :: keys).length := by
  intro all
  have every := length_filter_eq_length_iff.mp all key mem_cons_self
  rw [absent] at every
  cases every

lemma not_spendable {invalid : Bool} :
    some (watchOnlyMine crypto store script, isInvalid) ≠ some (IsMineType.SPENDABLE, invalid) :=
  fun same => watchOnlyMine_ne (congrArg Prod.fst (Option.some.inj same))

lemma spendable_inner {depth : Nat}
    (verdict : ((isMine crypto store depth subscript sigversion).map fun verdict =>
      if settles verdict.1 verdict.2 then verdict
      else (watchOnlyMine crypto store script, verdict.2)) = some (.SPENDABLE, isInvalid)) :
    Spendable crypto store subscript sigversion := by
  obtain ⟨⟨ret, invalid⟩, inner, same⟩ := map_eq_some_iff.mp verdict
  split_ifs at same
  · cases same
    exact ⟨depth, isInvalid, inner⟩
  · exact absurd (congrArg Prod.fst same) watchOnlyMine_ne

/-- What a script of each type is spendable for, where no key has the id of no bytes. -/
def Grounds (crypto : Crypto) (store : CBasicKeyStore) (first : Bytes) : TxnOutType → Prop
  | .TX_PUBKEYHASH => store.haveKey (toUint160 first) = true
  | .TX_SCRIPTHASH => ∃ subscript, store.getCScript (toUint160 first) = some subscript ∧
      Spendable crypto store subscript .BASE
  | .TX_WITNESS_V0_KEYHASH => Spendable crypto store (getScriptForPubKeyHash (toUint160 first)) .WITNESS_V0
  | .TX_WITNESS_V0_SCRIPTHASH => ∃ subscript, store.getCScript (crypto.ripemd160 first) = some subscript ∧
      Spendable crypto store subscript .WITNESS_V0
  | _ => False

lemma spendable_grounds (apart : store.getKey (crypto.hash160 []) = none)
    (mine : Spendable crypto store script sigversion) :
    (solver script).solved = true ∧ ∃ type, (solver script).typeRet = some type ∧
      Grounds crypto store ((solver script).vSolutionsRet.headD []) type := by
  have absent {vch : Bytes} (sized : isKeySized vch = true) :
      store.haveKey ((CPubKey.ofBytes vch).getID crypto) = false := by
    rw [getID_ofBytes sized, CBasicKeyStore.haveKey]
    exact isSome_eq_false_iff.mpr (isNone_iff_eq_none.mpr apart)
  obtain ⟨depth, isInvalid, verdict⟩ := mine
  cases depth with
  | zero => cases verdict
  | succ depth =>
    rw [isMine] at verdict
    cases solved : (solver script).solved with
    | false =>
      simp only [solved, Bool.not_false, if_true] at verdict
      have ret := congrArg Prod.fst (Option.some.inj verdict)
      split_ifs at ret
    | true =>
      refine ⟨rfl, ?_⟩
      simp only [solved, Bool.not_true, Bool.false_eq_true, if_false] at verdict
      cases typed : (solver script).typeRet with
      | none =>
        rw [typed] at verdict
        exact absurd verdict not_spendable
      | some type =>
        refine ⟨type, rfl, ?_⟩
        rw [typed] at verdict
        cases type with
        | TX_PUBKEY =>
          simp only [absent (solver_pubKey_inv typed), Bool.false_eq_true, if_false] at verdict
          split_ifs at verdict
          · cases verdict
          · exact absurd verdict not_spendable
        | TX_PUBKEYHASH =>
          dsimp only at verdict
          split_ifs at verdict with _ held
          · cases verdict
          · exact held
          · exact absurd verdict not_spendable
        | TX_SCRIPTHASH =>
          dsimp only at verdict
          split at verdict
          · exact ⟨_, ‹_›, spendable_inner verdict⟩
          · exact absurd verdict not_spendable
        | TX_MULTISIG =>
          obtain ⟨key, keys, shape, sized⟩ := solver_multisig_inv typed solved
          have some' := haveKeys_lt keys (absent (sized key mem_cons_self))
          dsimp only at verdict
          rw [shape, if_neg some'] at verdict
          split_ifs at verdict
          · cases verdict
          · exact absurd verdict not_spendable
        | TX_WITNESS_V0_KEYHASH =>
          dsimp only at verdict
          split_ifs at verdict
          · exact absurd verdict not_spendable
          · exact spendable_inner verdict
        | TX_WITNESS_V0_SCRIPTHASH =>
          dsimp only at verdict
          split_ifs at verdict
          · exact absurd verdict not_spendable
          · split at verdict
            · exact ⟨_, ‹_›, spendable_inner verdict⟩
            · exact absurd verdict not_spendable
        | TX_NONSTANDARD | TX_NULL_DATA | TX_WITNESS_UNKNOWN => exact absurd verdict not_spendable

end Inversion

end Dragonchain.Wallet
