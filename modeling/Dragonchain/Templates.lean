import Dragonchain.Serialization
import Dragonchain.Standard

/-!
What Solver makes of the scripts that standard.cpp builds. Scripts that pay to a hash come
back as their type and hash. Scripts that pay to keys come back only when every key has
between 33 and 65 bytes, and no valid CPubKey has.
-/

namespace Dragonchain.Script

open List Nat UInt8

/-! Pushes and small integers as the templates see them. -/

variable (size : Nat) (b : Bytes) {n fuel nRequired : Nat} {rest vch1 pc1 pc bad : Bytes}
  {opcode opcode1 opcode2 stop : UInt8} {vSolutions found good more keys : List Bytes}

lemma pushOpcode_lt : pushOpcode size < OP_1NEGATE := by
  unfold pushOpcode
  split_ifs with tiny
  · have small : size < 76 := tiny
    rw [lt_iff_toNat_lt, toNat_ofNat', mod_eq_of_lt (by omega), show OP_1NEGATE.toNat = 79 from rfl]
    omega
  all_goals decide

lemma pushOpcode_le : (pushOpcode size).toNat ≤ size := by
  unfold pushOpcode
  split_ifs with tiny short medium
  · exact le_trans (le_of_eq toNat_ofNat') (mod_le size _)
  · exact Nat.le_of_not_lt tiny
  · exact le_trans (by decide) (Nat.le_of_not_le short)
  · exact le_trans (by decide) (Nat.le_of_not_le medium)

lemma pushOpcode_ne {size : Nat} (plain : OP_1NEGATE ≤ opcode) : pushOpcode size ≠ opcode := by
  intro same
  have below := pushOpcode_lt size
  rw [same, lt_iff_toNat_lt] at below
  rw [le_iff_toNat_le] at plain
  omega

lemma pushOpcode_eq_zero {size : Nat} (empty : pushOpcode size = OP_0) : size = 0 := by
  unfold pushOpcode at empty
  split_ifs at empty with tiny short medium
  · have small : size < 76 := tiny
    have value := congrArg UInt8.toNat empty
    rwa [toNat_ofNat', mod_eq_of_lt (by omega)] at value
  all_goals cases empty

lemma pushOpcode_data {vch : Bytes} (full : vch ≠ []) :
    pushOpcode vch.length ≠ OP_0 ∧ pushOpcode vch.length < OP_1 :=
  ⟨fun empty => full (length_eq_zero_iff.mp (pushOpcode_eq_zero empty)),
    UInt8.lt_trans (pushOpcode_lt vch.length) (by decide)⟩

lemma encodeOP_N_spec (positive : 1 ≤ n) (small : n ≤ 16) :
    OP_1 ≤ encodeOP_N n ∧ encodeOP_N n ≤ OP_16 ∧ decodeOP_N (encodeOP_N n) = n := by
  have each : ∀ n ≤ 16, 1 ≤ n →
      OP_1 ≤ encodeOP_N n ∧ encodeOP_N n ≤ OP_16 ∧ decodeOP_N (encodeOP_N n) = n := by decide
  exact each n small positive

lemma pushData_cons : ∃ size, pushData b = pushOpcode b.length :: size ++ b := by
  unfold pushData pushOpcode
  split_ifs
  · exact ⟨[], rfl⟩
  · exact ⟨[UInt8.ofNat b.length], rfl⟩
  · exact ⟨ByteCodec.leBytes 2 b.length, rfl⟩
  · exact ⟨ByteCodec.leBytes 4 b.length, rfl⟩

/-! Scripts that are left to the templates. -/

lemma solver_eq_scan (hash : opcode ≠ OP_HASH160)
    (data : opcode ≠ OP_RETURN) (witness : isWitnessProgram (opcode :: rest) = none) :
    solver (opcode :: rest) = scanTemplates (opcode :: rest) mTemplates := by
  have plain : isPayToScriptHash (opcode :: rest) = false := by
    rw [isPayToScriptHash, getD_cons_zero, beq_false_of_ne hash]
    simp
  rw [solver, plain, witness]
  simp [data]

lemma isWitnessProgram_of_opcode (zero : opcode ≠ OP_0)
    (range : opcode < OP_1 ∨ OP_16 < opcode) : isWitnessProgram (opcode :: rest) = none := by
  have outside : (opcode != OP_0 && (opcode < OP_1 || opcode > OP_16)) = true := by simp [zero, range]
  unfold isWitnessProgram
  simp only [getD_cons_zero, outside, if_true]
  split_ifs <;> rfl

/-! One step of a template. -/

section Step
variable (read : getOp pc1 = some (opcode1, vch1, rest))
include read

variable {pc2 : List UInt8}

lemma matchTemplate_step (single : opcode2 ≠ OP_PUBKEYS) :
    matchTemplate (opcode2 :: pc2) pc1 vSolutions =
      (matchOp opcode2 opcode1 vch1 vSolutions).bind (matchTemplate pc2 rest) := by
  rw [matchTemplate, read]
  simp [if_neg single]

variable {vch : Bytes}

lemma matchTemplate_pubkeys
    (collected : collectPubKeys (rest.length + 1) opcode1 vch1 rest vSolutions = (found, stop, vch, pc)) :
    matchTemplate (OP_PUBKEYS :: opcode2 :: pc2) pc1 vSolutions =
      (matchOp opcode2 stop vch found).bind (matchTemplate pc2 pc) := by
  rw [matchTemplate, read]
  simp [collected]

end Step

variable (vch : Bytes)

lemma matchOp_pubkey : matchOp OP_PUBKEY opcode1 vch1 vSolutions =
      if isKeySized vch1 then some (vSolutions ++ [vch1]) else none := rfl

lemma matchOp_pubkeyhash (sized : vch1.length = 20) :
    matchOp OP_PUBKEYHASH opcode1 vch1 vSolutions = some (vSolutions ++ [vch1]) := by
  rw [matchOp, if_neg (by decide), if_pos rfl, if_neg (not_not.mpr sized)]

lemma matchOp_smallInteger (positive : 1 ≤ n) (small : n ≤ 16) (vch1 : Bytes) (vSolutions : List Bytes) :
    matchOp OP_SMALLINTEGER (encodeOP_N n) vch1 vSolutions = some (vSolutions ++ [[UInt8.ofNat n]]) := by
  obtain ⟨low, high, decoded⟩ := encodeOP_N_spec positive small
  rw [matchOp, if_neg (by decide), if_neg (by decide), if_pos rfl, if_pos (.inr ⟨low, high⟩), decoded]

lemma matchOp_smallInteger_none (zero : opcode1 ≠ OP_0) (range : opcode1 < OP_1 ∨ OP_16 < opcode1) :
    matchOp OP_SMALLINTEGER opcode1 vch1 vSolutions = none := by
  have outside : ¬ (opcode1 = OP_0 ∨ (OP_1 ≤ opcode1 ∧ opcode1 ≤ OP_16)) := by
    rintro (empty | ⟨low, high⟩)
    · exact zero empty
    · rcases range with below | above
      · exact absurd low (UInt8.not_le.mpr below)
      · exact absurd high (UInt8.not_le.mpr above)
  rw [matchOp, if_neg (by decide), if_neg (by decide), if_pos rfl, if_neg outside]

lemma matchOp_plain (plain : opcode2 < OP_SMALLINTEGER) :
    matchOp opcode2 opcode1 vch1 vSolutions = if opcode1 ≠ opcode2 ∨ vch1 ≠ [] then none else some vSolutions := by
  have other : ∀ special, OP_SMALLINTEGER ≤ special → opcode2 ≠ special := by
    rintro special least rfl
    exact absurd least (UInt8.not_le.mpr plain)
  rw [matchOp, if_neg (other OP_PUBKEY (by decide)), if_neg (other OP_PUBKEYHASH (by decide)),
    if_neg (other OP_SMALLINTEGER (by decide))]

lemma matchTemplate_other (read : getOp pc1 = some (opcode1, vch1, rest)) (different : opcode1 ≠ opcode2)
    (plain : opcode2 < OP_SMALLINTEGER) (pc2 : List UInt8) (vSolutions : List Bytes) :
    matchTemplate (opcode2 :: pc2) pc1 vSolutions = none := by
  have single : opcode2 ≠ OP_PUBKEYS := by
    rintro rfl
    exact absurd plain (by decide)
  rw [matchTemplate_step read single, matchOp_plain plain, if_pos (.inl different)]
  rfl

/-! Pay to pubkey. -/

lemma matchTemplate_payToPubKey (fits : vch.length < 256 ^ 4) :
    matchTemplate [OP_PUBKEY, OP_CHECKSIG] (payToPubKey vch) [] = if isKeySized vch then some [vch] else none := by
  rw [payToPubKey, matchTemplate_step (getOp_pushData vch _ fits) (by decide), matchOp_pubkey]
  cases isKeySized vch with
  | false => rfl
  | true => rfl

lemma matchTemplate_push {vch : Bytes} (rest : Bytes) (full : vch ≠ []) (fits : vch.length < 256 ^ 4) :
    matchTemplate [OP_DUP, OP_HASH160, OP_PUBKEYHASH, OP_EQUALVERIFY, OP_CHECKSIG]
      (pushData vch ++ rest) [] = none ∧
    matchTemplate [OP_SMALLINTEGER, OP_PUBKEYS, OP_SMALLINTEGER, OP_CHECKMULTISIG]
      (pushData vch ++ rest) [] = none := by
  have read := getOp_pushData vch rest fits
  have different : pushOpcode vch.length ≠ OP_DUP := pushOpcode_ne (by decide)
  obtain ⟨nonzero, below⟩ := pushOpcode_data full
  constructor
  · exact matchTemplate_other read different (by decide) _ []
  · rw [matchTemplate_step read (by decide), matchOp_smallInteger_none nonzero (.inl below)]
    rfl

lemma solver_payToPubKey (fits : vch.length < 256 ^ 4) : solver (payToPubKey vch) =
      if isKeySized vch then ⟨true, some .TX_PUBKEY, [vch]⟩
      else ⟨false, some .TX_NONSTANDARD, []⟩ := by
  by_cases full : vch = []
  · subst full
    decide
  · obtain ⟨nonzero, below⟩ := pushOpcode_data full
    have scanned : solver (payToPubKey vch) = scanTemplates (payToPubKey vch) mTemplates := by
      obtain ⟨size, pushed⟩ := pushData_cons vch
      rw [payToPubKey, pushed]
      exact solver_eq_scan (pushOpcode_ne (by decide)) (pushOpcode_ne (by decide))
        (isWitnessProgram_of_opcode nonzero (.inl below))
    obtain ⟨notHash, notMulti⟩ := matchTemplate_push [OP_CHECKSIG] full fits
    rw [scanned, mTemplates, scanTemplates, matchTemplate_payToPubKey vch fits]
    cases isKeySized vch with
    | true => rfl
    | false =>
      rw [payToPubKey, if_neg Bool.false_ne_true]
      simp [scanTemplates, notHash, notMulti]

/-! Multisig. The loop at OP_PUBKEYS takes keys for as long as they have the right size
and hands the operation it stops at to the rest of the template. -/

lemma length_pushData_pos : 0 < (pushData b).length := by
  obtain ⟨size, pushed⟩ := pushData_cons b
  rw [pushed]
  simp

section Keys
variable {vch : Bytes} (read : getOp pc = some (stop, vch, rest))
include read

lemma getOp_keys (fits : ∀ key ∈ good, key.length < 256 ^ 4) :
    ∃ op, getOp (good.flatMap pushData ++ pc) = some op := by
  cases good with
  | nil => exact ⟨_, read⟩
  | cons key later =>
    rw [flatMap_cons, append_assoc]
    exact ⟨_, getOp_pushData key _ (fits key mem_cons_self)⟩

variable (other : isKeySized vch = false) (sized : ∀ key ∈ good, isKeySized key = true)
  (fits : ∀ key ∈ good, key.length < 256 ^ 4)
include other sized fits

lemma collectPubKeys_spec (first : getOp (good.flatMap pushData ++ pc) = some (opcode1, vch1, pc1))
    (vSolutions : List Bytes) (enough : good.length < fuel) :
    collectPubKeys fuel opcode1 vch1 pc1 vSolutions = (vSolutions ++ good, stop, vch, rest) := by
  induction good generalizing opcode1 vch1 pc1 vSolutions fuel with
  | nil =>
    rw [flatMap_nil, nil_append, read] at first
    cases first
    cases fuel with
    | zero => rw [collectPubKeys, append_nil]
    | succ fuel => rw [collectPubKeys, other, if_neg Bool.false_ne_true, append_nil]
  | cons key later ih =>
    have laterFits : ∀ key ∈ later, key.length < 256 ^ 4 := fun key member => fits key (mem_cons_of_mem _ member)
    rw [flatMap_cons, append_assoc, getOp_pushData key _ (fits key mem_cons_self)] at first
    cases first
    obtain ⟨⟨opcode, next, after⟩, following⟩ := getOp_keys read laterFits
    cases fuel with
    | zero => cases enough
    | succ fuel =>
      rw [collectPubKeys, sized key mem_cons_self, if_pos rfl, following]
      have tail := ih (fun key member => sized key (mem_cons_of_mem _ member)) laterFits
        following (vSolutions ++ [key]) (lt_of_succ_lt_succ enough)
      rwa [append_assoc, singleton_append] at tail

lemma matchTemplate_keys (pc2 : List UInt8) (vSolutions : List Bytes) :
    matchTemplate (OP_PUBKEYS :: opcode2 :: pc2) (good.flatMap pushData ++ pc) vSolutions =
      (matchOp opcode2 stop vch (vSolutions ++ good)).bind (matchTemplate pc2 rest) := by
  obtain ⟨⟨opcode1, vch1, pc1⟩, first⟩ := getOp_keys read fits
  have enough : good.length < pc1.length + 1 := by
    cases good with
    | nil => exact succ_pos _
    | cons key later =>
      have each : ∀ key ∈ later, 1 ≤ (pushData key).length := fun key _ => length_pushData_pos key
      have pushes := Serialization.length_flatMap_ge each
      have more : 0 < pc.length := length_pos_of_ne_nil fun empty => by
        rw [empty] at read
        cases read
      rw [flatMap_cons, append_assoc, getOp_pushData key _ (fits key mem_cons_self)] at first
      cases first
      rw [length_append, length_cons]
      omega
  exact matchTemplate_pubkeys first (collectPubKeys_spec read other sized fits first vSolutions enough)

end Keys

lemma encodeOP_N_plain (positive : 1 ≤ n) (small : n ≤ 16) (rest : Bytes) :
    getOp (encodeOP_N n :: rest) = some (encodeOP_N n, [], rest) := by
  obtain ⟨low, _, _⟩ := encodeOP_N_spec positive small
  refine getOp_plain rest fun push => ?_
  exact absurd (UInt8.le_trans low push) (by decide)

/-- A key of the wrong size ends the loop, and no small integer stands in its place. -/
lemma matchTemplate_wrongKey (positive : 1 ≤ n)
    (small : n ≤ 16) (sized : ∀ key ∈ good, isKeySized key = true) (wrong : isKeySized bad = false)
    (fits : ∀ key ∈ good ++ bad :: more, key.length < 256 ^ 4) (vSolutions : List Bytes) :
    matchTemplate [OP_PUBKEYS, OP_SMALLINTEGER, OP_CHECKMULTISIG]
      ((good ++ bad :: more).flatMap pushData ++ [encodeOP_N n, OP_CHECKMULTISIG]) vSolutions = none := by
  have read := getOp_pushData bad (more.flatMap pushData ++ [encodeOP_N n, OP_CHECKMULTISIG])
    (fits bad (mem_append_right _ mem_cons_self))
  rw [flatMap_append, flatMap_cons, append_assoc, append_assoc,
    matchTemplate_keys read wrong sized (fun key member => fits key (mem_append_left _ member))]
  by_cases empty : bad = []
  · -- the push of an empty key is OP_0, a small integer, but what follows is not the last opcode
    subst empty
    refine Option.bind_eq_none_iff.mpr fun found _ => ?_
    cases more with
    | nil =>
      have different : encodeOP_N n ≠ OP_CHECKMULTISIG := by
        intro same
        have high := (encodeOP_N_spec positive small).2.1
        rw [same] at high
        exact absurd high (by decide)
      exact matchTemplate_other (encodeOP_N_plain positive small _) different (by decide) [] found
    | cons key later =>
      have bound := fits key (mem_append_right _ (mem_cons_of_mem _ mem_cons_self))
      have next := getOp_pushData key (later.flatMap pushData ++ [encodeOP_N n, OP_CHECKMULTISIG]) bound
      rw [flatMap_cons, append_assoc]
      exact matchTemplate_other next (pushOpcode_ne (by decide)) (by decide) [] found
  · obtain ⟨nonzero, below⟩ := pushOpcode_data empty
    rw [matchOp_smallInteger_none nonzero (.inl below)]
    rfl

lemma matchTemplate_payToMultisig (positive : 1 ≤ nRequired) (enough : nRequired ≤ keys.length)
    (small : keys.length ≤ 16) (fits : ∀ key ∈ keys, key.length < 256 ^ 4) :
    matchTemplate [OP_SMALLINTEGER, OP_PUBKEYS, OP_SMALLINTEGER, OP_CHECKMULTISIG]
      (payToMultisig nRequired keys) [] =
      if keys.all isKeySized then
        some ([UInt8.ofNat nRequired] :: (keys ++ [[UInt8.ofNat keys.length]]))
      else none := by
  have counted : 1 ≤ keys.length := le_trans positive enough
  have first := encodeOP_N_plain positive (le_trans enough small)
    (keys.flatMap pushData ++ [encodeOP_N keys.length, OP_CHECKMULTISIG])
  rw [payToMultisig, matchTemplate_step first (by decide),
    matchOp_smallInteger positive (le_trans enough small), Option.bind_some, nil_append]
  cases wrong : keys.find? fun key => !isKeySized key with
  | none =>
    have sized : ∀ key ∈ keys, isKeySized key = true := by simpa using wrong
    have last := encodeOP_N_plain counted small [OP_CHECKMULTISIG]
    rw [matchTemplate_keys last rfl sized fits, matchOp_smallInteger counted small, if_pos (all_eq_true.mpr sized)]
    rfl
  | some bad =>
    obtain ⟨unsized, good, more, split, before⟩ := find?_eq_some_iff_append.mp wrong
    have notAll : ¬ keys.all isKeySized = true := by
      intro all
      rw [all_eq_true.mp all bad (mem_of_find?_eq_some wrong)] at unsized
      cases unsized
    rw [if_neg notAll]
    rw [split] at fits
    have stopped := matchTemplate_wrongKey counted small
      (fun key member => by simpa using before key member) (by simpa using unsized) fits
      [[UInt8.ofNat nRequired]]
    rwa [← split] at stopped

/-- A multisig script is longer than the witness program its second byte would announce. -/
lemma isWitnessProgram_payToMultisig
    (counted : 1 ≤ keys.length) : isWitnessProgram (payToMultisig nRequired keys) = none := by
  cases keys with
  | nil => cases counted
  | cons key later =>
    obtain ⟨size, pushed⟩ := pushData_cons key
    have announced := pushOpcode_le key.length
    have different : ((payToMultisig nRequired (key :: later)).getD 1 0).toNat + 2 ≠
        (payToMultisig nRequired (key :: later)).length := by
      rw [payToMultisig, flatMap_cons, pushed]
      simp only [cons_append, getD_cons_succ, getD_cons_zero, length_cons, length_append]
      omega
    unfold isWitnessProgram
    simp only [if_neg different]
    split_ifs <;> rfl

variable (positive : 1 ≤ nRequired) (enough : nRequired ≤ keys.length) (small : keys.length ≤ 16)
include positive enough small

lemma checkMultiSig_counts :
    checkMultiSig ([UInt8.ofNat nRequired] :: (keys ++ [[UInt8.ofNat keys.length]])) = true := by
  have m : (UInt8.ofNat nRequired).toNat = nRequired := by rw [toNat_ofNat', mod_eq_of_lt (by omega)]
  have n : (UInt8.ofNat keys.length).toNat = keys.length := by rw [toNat_ofNat', mod_eq_of_lt (by omega)]
  have last : ([UInt8.ofNat nRequired] :: (keys ++ [[UInt8.ofNat keys.length]])).getLast?.getD [] =
      [UInt8.ofNat keys.length] := by
    rw [← cons_append, getLast?_concat]
    rfl
  unfold checkMultiSig
  simp only [last, head?_cons, Option.getD_some, getD_cons_zero, length_cons, length_append, n]
  simp only [lt_iff_toNat_lt, m, n]
  have full : keys ≠ [] := ne_nil_of_length_pos (le_trans positive enough)
  simp [enough, full]
  omega

lemma solver_payToMultisig (fits : ∀ key ∈ keys, key.length < 256 ^ 4) : solver (payToMultisig nRequired keys) =
      if keys.all isKeySized then
        ⟨true, some .TX_MULTISIG, [UInt8.ofNat nRequired] :: (keys ++ [[UInt8.ofNat keys.length]])⟩
      else ⟨false, some .TX_NONSTANDARD, []⟩ := by
  have counted : 1 ≤ keys.length := le_trans positive enough
  have required := encodeOP_N_spec positive (le_trans enough small)
  have differs : ∀ opcode, OP_16 < opcode → encodeOP_N nRequired ≠ opcode := by
    rintro opcode above rfl
    exact absurd required.2.1 (UInt8.not_le.mpr above)
  have first := encodeOP_N_plain positive (le_trans enough small)
    (keys.flatMap pushData ++ [encodeOP_N keys.length, OP_CHECKMULTISIG])
  have notPubKey : matchTemplate [OP_PUBKEY, OP_CHECKSIG] (payToMultisig nRequired keys) [] = none := by
    rw [payToMultisig, matchTemplate_step first (by decide)]
    rfl
  have notHash : matchTemplate [OP_DUP, OP_HASH160, OP_PUBKEYHASH, OP_EQUALVERIFY, OP_CHECKSIG]
      (payToMultisig nRequired keys) [] = none :=
    matchTemplate_other first (differs OP_DUP (by decide)) (by decide) _ []
  rw [payToMultisig, solver_eq_scan (differs OP_HASH160 (by decide)) (differs OP_RETURN (by decide))
    (isWitnessProgram_payToMultisig counted), ← payToMultisig]
  simp only [mTemplates, scanTemplates, notPubKey, notHash, matchTemplate_payToMultisig positive enough small fits]
  cases keys.all isKeySized with
  | false => rfl
  | true => simp [checkMultiSig_counts positive enough small]

/-! Keys. -/

omit positive enough small

lemma isKeySized_bytes {key : CPubKey} (valid : key.isValid = true) : isKeySized key.bytes = false := by
  rw [isKeySized, CPubKey.length_bytes valid]
  rfl

lemma solver_rawPubKey {key : CPubKey} (valid : key.isValid = true) :
    solver (getScriptForRawPubKey key) = ⟨false, some .TX_NONSTANDARD, []⟩ := by
  have fits : key.bytes.length < 256 ^ 4 := by
    rw [CPubKey.length_bytes valid]
    decide
  rw [getScriptForRawPubKey, solver_payToPubKey _ fits, isKeySized_bytes valid, if_neg Bool.false_ne_true]

lemma solver_multisig {keys : List CPubKey} (positive : 1 ≤ nRequired)
    (enough : nRequired ≤ keys.length) (small : keys.length ≤ 16) (valid : ∀ key ∈ keys, key.isValid = true) :
    solver (getScriptForMultisig nRequired keys) = ⟨false, some .TX_NONSTANDARD, []⟩ := by
  have fits : ∀ vch ∈ keys.map CPubKey.bytes, vch.length < 256 ^ 4 := by
    intro vch member
    obtain ⟨key, listed, rfl⟩ := mem_map.mp member
    rw [CPubKey.length_bytes (valid key listed)]
    decide
  have wrong : ¬ (keys.map CPubKey.bytes).all isKeySized = true := by
    intro all
    obtain ⟨key, listed⟩ := exists_mem_of_length_pos (le_trans positive enough)
    have sized := all_eq_true.mp all key.bytes (mem_map_of_mem listed)
    rw [isKeySized_bytes (valid key listed)] at sized
    cases sized
  rw [← length_map CPubKey.bytes] at enough small
  rw [getScriptForMultisig, solver_payToMultisig positive enough small fits, if_neg wrong]

/-- Solver recognises a script that pays to keys exactly when each key has between 33 and
65 bytes. Every valid CPubKey has 898, so it recognises none of the scripts built for them. -/
theorem solver_recognises_keys (vch : Bytes) (fits : vch.length < 256 ^ 4) :
    (solver (payToPubKey vch) = ⟨true, some .TX_PUBKEY, [vch]⟩ ↔ isKeySized vch = true) ∧
    (∀ (nRequired : Nat) (keys : List Bytes), 1 ≤ nRequired → nRequired ≤ keys.length →
      keys.length ≤ 16 → (∀ key ∈ keys, key.length < 256 ^ 4) → (solver (payToMultisig nRequired keys) =
          ⟨true, some .TX_MULTISIG, [UInt8.ofNat nRequired] :: (keys ++ [[UInt8.ofNat keys.length]])⟩ ↔
        keys.all isKeySized = true)) ∧ (∀ key : CPubKey, key.isValid = true →
      solver (getScriptForRawPubKey key) = ⟨false, some .TX_NONSTANDARD, []⟩) ∧
    (∀ (nRequired : Nat) (keys : List CPubKey), 1 ≤ nRequired → nRequired ≤ keys.length →
      keys.length ≤ 16 → (∀ key ∈ keys, key.isValid = true) →
      solver (getScriptForMultisig nRequired keys) = ⟨false, some .TX_NONSTANDARD, []⟩) := by
  refine ⟨?_, fun nRequired keys positive enough small fits => ?_,
    fun key valid => solver_rawPubKey valid,
    fun nRequired keys positive enough small valid => solver_multisig positive enough small valid⟩
  · rw [solver_payToPubKey vch fits]
    cases isKeySized vch with
    | false => simp
    | true => simp
  · rw [solver_payToMultisig positive enough small fits]
    cases keys.all isKeySized with
    | false => simp
    | true => simp

namespace Mined

lemma length_vch : (7 :: 9 :: replicate 896 0 : Bytes).length = 898 := by
  rw [length_cons, length_cons, length_replicate]

def key : CPubKey := ⟨7 :: 9 :: replicate 896 0, length_vch⟩

lemma key_valid : key.isValid = true := by decide

/-- A 33-byte key of the old kind, which the templates still take. -/
def compressed : Bytes := 2 :: replicate 32 0

theorem compressed_recognised : solver (payToPubKey compressed) = ⟨true, some .TX_PUBKEY, [compressed]⟩ ∧
    solver (payToMultisig 1 [compressed]) = ⟨true, some .TX_MULTISIG, [[1], compressed, [1]]⟩ ∧
    solver (getScriptForRawPubKey key) = ⟨false, some .TX_NONSTANDARD, []⟩ ∧
    solver (getScriptForMultisig 1 [key]) = ⟨false, some .TX_NONSTANDARD, []⟩ := by
  obtain ⟨single, multi, raw, several⟩ := solver_recognises_keys compressed (by decide)
  refine ⟨single.mpr (by decide), ?_, raw key key_valid, ?_⟩
  · exact (multi 1 [compressed] (by decide) (by decide) (by decide) (by decide)).mpr (by decide)
  · exact several 1 [key] (by decide) (by decide) (by decide) (by simp [key_valid])

theorem falcon_key_unrecognised : key.isValid = true ∧
    solver (getScriptForRawPubKey key) ≠ ⟨true, some .TX_PUBKEY, [key.bytes]⟩ ∧
    solver (getScriptForMultisig 1 [key]) ≠ ⟨true, some .TX_MULTISIG, [[1], key.bytes, [1]]⟩ := by
  decide +kernel

end Mined

end Dragonchain.Script
