import Dragonchain.MultiSig
import Dragonchain.WitnessSigning

/-!
IsSolvable signs with a dummy signature and then asserts that VerifyScript accepts it. The
dummy signature is longer than a DER signature and does not start with the byte of a
Falcon-512 one, so CHECKSIG and CHECKMULTISIG refuse its encoding before any key is
tried. Every script that the dummy creator solves runs one of the two on it.
-/

namespace Dragonchain.Script

open Outcome List Option

variable {pc2 : List UInt8} {type : TxnOutType} {crypto : Crypto} {store : CKeyStore}
  {opcode2 opcode stop : UInt8}
  {script pc1 pc vch rest subscript scriptCode vchPubKey top pc3 pc4 vchSig witnessScript' : Bytes}
  {before after values vSolutions keys found witness ret : List Bytes}
  {version n m fuel nRequired : Nat} {checker : BaseSignatureChecker} {sigversion : SigVersion}
  {nOpCount : Int} {below stack : Stack} {final next : EvalState} {creator : BaseSignatureCreator}

lemma checkSignatureEncoding_dummy {result : Unit} :
    checkSignatureEncoding crypto standard dummySignature ≠ .ok result := by
  have full : dummySignature.length ≠ 0 := by decide +kernel
  have other : isFalconSignature dummySignature = false := by decide +kernel
  have invalid : isValidSignatureEncoding dummySignature = false := by decide +kernel
  have strict : (standard .DERSIG || standard .LOW_S
    || standard .STRICTENC) = true := rfl
  rw [checkSignatureEncoding, if_neg full, other, invalid, strict]
  rintro ⟨⟩

/-! What a template match says about the script. -/

lemma matchTemplate_inv
    (single : opcode2 ≠ OP_PUBKEYS) (matched : matchTemplate (opcode2 :: pc2) pc1 before = some after) :
    ∃ opcode1 vch rest middle, getOp pc1 = some (opcode1, vch, rest) ∧
      matchOp opcode2 opcode1 vch before = some middle ∧ matchTemplate pc2 rest middle = some after := by
  cases parsed : getOp pc1 with
  | none =>
    rw [matchTemplate, parsed] at matched
    cases matched
  | some op =>
    obtain ⟨opcode1, vch, rest⟩ := op
    rw [matchTemplate_step parsed single, bind_eq_some_iff] at matched
    obtain ⟨middle, found, onward⟩ := matched
    exact ⟨opcode1, vch, rest, middle, rfl, found, onward⟩

lemma matchTemplate_plain
    (plain : opcode2 < OP_SMALLINTEGER) (matched : matchTemplate (opcode2 :: pc2) pc1 before = some after) :
    ∃ rest, getOp pc1 = some (opcode2, [], rest) ∧ matchTemplate pc2 rest before = some after := by
  have others : opcode2 ≠ OP_PUBKEYS ∧ opcode2 ≠ OP_PUBKEY ∧ opcode2 ≠ OP_PUBKEYHASH ∧
      opcode2 ≠ OP_SMALLINTEGER := by
    refine ⟨?_, ?_, ?_, ?_⟩ <;> (rintro rfl; revert plain; decide)
  obtain ⟨opcode1, vch, rest, middle, parsed, found, onward⟩ := matchTemplate_inv others.1 matched
  rw [matchOp, if_neg others.2.1, if_neg others.2.2.1, if_neg others.2.2.2] at found
  split_ifs at found with differs
  obtain ⟨same, empty⟩ := not_or.mp differs
  cases found
  rw [not_not] at same empty
  exact ⟨rest, by rw [parsed, same, empty], onward⟩

lemma matchTemplate_end (matched : matchTemplate [] pc1 before = some after) : pc1 = [] ∧ before = after := by
  rw [matchTemplate] at matched
  split_ifs at matched with atEnd
  exact ⟨List.isEmpty_iff.mp atEnd, Option.some.inj matched⟩

lemma getOp_push (parsed : getOp pc = some (opcode, vch, rest)) (full : vch ≠ []) : opcode ≤ OP_PUSHDATA4 := by
  by_contra high
  obtain ⟨_, _, _, plain⟩ := getOp_inv parsed
  exact full (plain high).2

lemma isKeySized_full (sized : isKeySized vch = true) : vch ≠ [] := by
  rintro rfl
  cases sized

/-! Runs on the dummy signature. -/

section Runs
lemma checkSigOp_dummy (left : Stack) :
    checkSigOp crypto standard checker sigversion false scriptCode [vchPubKey, dummySignature] ≠ .ok left := by
  intro ran
  rw [checkSigOp_pair, bind_eq_ok] at ran
  obtain ⟨_, _, ran⟩ := ran
  obtain ⟨result, encoded, _⟩ := bind_eq_ok.mp ran
  exact checkSignatureEncoding_dummy encoded

lemma evalFrom_checkSig_dummy (read : getOp pc = some (OP_CHECKSIG, [], []))
    (few : 0 ≤ nOpCount ∧ nOpCount ≤ MAX_OPS_PER_SCRIPT) : evalFrom crypto standard checker sigversion pc
      (running script [vchPubKey, dummySignature] nOpCount) ≠ .ok final := by
  intro ran
  obtain ⟨_, next, executed, _⟩ := (evalFrom_exec read (by decide) few).mp ran
  obtain ⟨left, checked, _⟩ := (exec_checkSig ..).mp executed
  exact checkSigOp_dummy left checked

lemma evalScript_pubKey_dummy
    (matched : matchTemplate [OP_PUBKEY, OP_CHECKSIG] script [] = some vSolutions) (final : EvalState) :
    evalScript crypto standard checker sigversion [dummySignature] script ≠ .ok final := by
  intro ran
  obtain ⟨_, ran, _⟩ := evalScript_ok.mp ran
  obtain ⟨opcode, vch, rest, middle, read, sized, matched⟩ := matchTemplate_inv (by decide) matched
  rw [matchOp_pubkey] at sized
  split_ifs at sized with keySized
  obtain ⟨last, readSig, matched⟩ := matchTemplate_plain (by decide) matched
  obtain ⟨rfl, _⟩ := matchTemplate_end matched
  obtain ⟨next, step, ran⟩ := (evalFrom_next read).mp ran
  obtain ⟨_, _, _, rfl⟩ := (evalStep_push (getOp_push read (isKeySized_full keySized))).mp step
  exact evalFrom_checkSig_dummy readSig (by decide) ran

/-- The operations that GetOp reads from a P2PKH script, with any push of the hash. -/
inductive ReadsPubKeyHash (script : Bytes) (keyID : Uint160) (opcode : UInt8) : Prop
  | mk {pc1 pc2 pc3 pc4 : Bytes} (dup : getOp script = some (OP_DUP, [], pc1))
      (hash : getOp pc1 = some (OP_HASH160, [], pc2)) (push : getOp pc2 = some (opcode, keyID.bytes, pc3))
      (equal : getOp pc3 = some (OP_EQUALVERIFY, [], pc4)) (sig : getOp pc4 = some (OP_CHECKSIG, [], []))

lemma matchTemplate_pubKeyHash
    (matched : matchTemplate [OP_DUP, OP_HASH160, OP_PUBKEYHASH, OP_EQUALVERIFY, OP_CHECKSIG] script [] =
      some vSolutions) : ∃ keyID opcode, vSolutions = [keyID.bytes] ∧ ReadsPubKeyHash script keyID opcode := by
  obtain ⟨pc1, readDup, matched⟩ := matchTemplate_plain (by decide) matched
  obtain ⟨pc2, readHash, matched⟩ := matchTemplate_plain (by decide) matched
  obtain ⟨opcode, vch, pc3, middle, readPush, sized, matched⟩ := matchTemplate_inv (by decide) matched
  obtain ⟨pc4, readEqual, matched⟩ := matchTemplate_plain (by decide) matched
  obtain ⟨pc5, readSig, matched⟩ := matchTemplate_plain (by decide) matched
  obtain ⟨rfl, rfl⟩ := matchTemplate_end matched
  rw [matchOp, if_neg (by decide), if_pos rfl] at sized
  split_ifs at sized with length
  cases sized
  exact ⟨⟨vch, not_not.mp length⟩, opcode, rfl, readDup, readHash, readPush, readEqual, readSig⟩

/-- A run of P2PKH that succeeds has checked the push of the hash and comes to OP_CHECKSIG. -/
lemma evalScript_template {keyID : Uint160} (reads : ReadsPubKeyHash script keyID opcode)
    (ran : evalScript crypto standard checker sigversion [vchPubKey, vchSig] script = .ok final) :
    checkMinimalPush keyID.bytes opcode = true ∧ ∃ pc, getOp pc = some (OP_CHECKSIG, [], []) ∧
      evalFrom crypto standard checker sigversion pc (running script [vchPubKey, vchSig] 3) = .ok final := by
  obtain ⟨readDup, readHash, readPush, readEqual, readSig⟩ := reads
  obtain ⟨_, ran, _⟩ := evalScript_ok.mp ran
  obtain ⟨_, _, executed, _, ran⟩ := (evalFrom_exec readDup (by decide) (by decide)).mp ran
  rw [exec_dup] at executed
  cases executed
  obtain ⟨_, _, executed, _, ran⟩ := (evalFrom_exec readHash (by decide) (by decide)).mp ran
  rw [exec_hash160] at executed
  cases executed
  obtain ⟨_, step, ran⟩ := (evalFrom_next readPush).mp ran
  have full : keyID.bytes ≠ [] := ne_nil_of_length_pos (by rw [keyID.size]; decide)
  obtain ⟨_, minimal, _, rfl⟩ := (evalStep_push (getOp_push readPush full)).mp step
  obtain ⟨_, _, executed, _, ran⟩ := (evalFrom_exec readEqual (by decide) (by decide)).mp ran
  obtain ⟨_, rfl⟩ := (exec_equalVerify ..).mp executed
  exact ⟨minimal rfl, _, readSig, ran⟩

lemma evalScript_pubKeyHash_dummy
    (matched : matchTemplate [OP_DUP, OP_HASH160, OP_PUBKEYHASH, OP_EQUALVERIFY, OP_CHECKSIG] script [] =
      some vSolutions) (final : EvalState) :
    evalScript crypto standard checker sigversion [vchPubKey, dummySignature] script ≠ .ok final := by
  intro ran
  obtain ⟨keyID, opcode, _, reads⟩ := matchTemplate_pubKeyHash matched
  obtain ⟨_, pc, readSig, ran⟩ := evalScript_template reads ran
  exact evalFrom_checkSig_dummy readSig (by decide) ran

/-! Multisig. -/

variable {last : Bytes}

/-- The loop of Solver over the keys and the loop of EvalScript over their pushes. -/
lemma collectPubKeys_run (collected : collectPubKeys fuel opcode vch pc before = (found, stop, last, rest))
    (valid : stop ≠ OP_INVALIDOPCODE) (push : vch ≠ [] → opcode ≤ OP_PUSHDATA4)
    (stack : Stack) (ran : ∃ next, evalStep crypto standard checker sigversion
      (running script stack nOpCount) opcode vch pc = .ok next ∧
      evalFrom crypto standard checker sigversion pc next = .ok final) :
    ∃ keys, found = before ++ keys ∧ ∃ next, evalStep crypto standard checker sigversion
      (running script (keys.reverse ++ stack) nOpCount) stop last rest = .ok next ∧
      evalFrom crypto standard checker sigversion rest next = .ok final := by
  induction fuel generalizing opcode vch pc before stack with
  | zero =>
    cases collected
    exact ⟨[], (append_nil _).symm, ran⟩
  | succ fuel ih =>
    rw [collectPubKeys] at collected
    split_ifs at collected with sized
    · cases parsed : getOp pc with
      | none =>
        rw [parsed] at collected
        cases collected
        exact absurd rfl valid
      | some op =>
        obtain ⟨opcode', vch', pc'⟩ := op
        rw [parsed] at collected
        obtain ⟨next, step, ran⟩ := ran
        obtain ⟨_, _, _, rfl⟩ := (evalStep_push (push (isKeySized_full sized))).mp step
        obtain ⟨keys, all, ran⟩ := ih collected (getOp_push parsed) (vch :: stack) ((evalFrom_next parsed).mp ran)
        refine ⟨vch :: keys, by rw [all, append_assoc]; rfl, ?_⟩
        rw [reverse_cons, append_assoc]
        exact ran
    · cases collected
      exact ⟨[], (append_nil _).symm, ran⟩

lemma getElem?_below (count : keys.length = n) (k : Nat) : (top :: (keys ++ below))[n + 1 + k]? = below[k]? := by
  rw [show n + 1 + k = (n + k) + 1 by omega, getElem?_cons_succ, getElem?_append_right (by omega)]
  congr 1
  omega

lemma multiSigCounts_inv (positive : 1 ≤ m) (fewer : m ≤ n) (small : n ≤ 16) (count : keys.length = n)
    {result : Int × Int × Int × Int} (ran : multiSigCounts standard nOpCount
      ([UInt8.ofNat n] :: (keys ++ [UInt8.ofNat m] :: below)) = .ok result) :
    result.2.1 = n ∧ result.2.2.1 = m := by
  have numKeys := (smallInteger_spec (le_trans positive fewer) small).2.2.2.2
  have numSigs := (smallInteger_spec positive (le_trans fewer small)).2.2.2.2
  have asInt {k : Nat} (low : k ≤ 16) : getint k = k := by rw [getint, if_neg (by omega), if_neg (by omega)]
  obtain ⟨ops, nKeys, nSigs, i⟩ := result
  obtain ⟨⟨⟨vch, bn, top, number, keysCount⟩, sigs, _⟩, _⟩ := multiSigCounts_eq_ok.mp ran
  cases top
  cases numKeys.symm.trans number
  rw [asInt small] at keysCount
  obtain ⟨vch, bn, found, number, sigsCount⟩ := sigs
  have second : stacktop ([UInt8.ofNat n] :: (keys ++ [UInt8.ofNat m] :: below)) (-(2 + nKeys)) =
      .ok [UInt8.ofNat m] := stacktop_at (getElem?_below count 0) (by omega)
  cases second.symm.trans found
  cases numSigs.symm.trans number
  rw [asInt (le_trans fewer small)] at sigsCount
  exact ⟨keysCount, sigsCount⟩

lemma checkMultiSigOp_dummy (positive : 1 ≤ m) (fewer : m ≤ n) (small : n ≤ 16)
    (count : keys.length = n) {result : Int × Stack} :
    checkMultiSigOp crypto standard checker sigversion false scriptCode nOpCount
      ([UInt8.ofNat n] :: (keys ++ [UInt8.ofNat m] :: dummySignature :: below)) ≠ .ok result := by
  intro ran
  rw [checkMultiSigOp, bind_eq_ok] at ran
  obtain ⟨⟨ops, nKeys, nSigs, i⟩, counted, ran⟩ := ran
  obtain ⟨rfl, rfl⟩ : nKeys = n ∧ nSigs = m := multiSigCounts_inv positive fewer small count counted
  obtain ⟨_, _, ran⟩ := bind_eq_ok.mp ran
  obtain ⟨isig, index, ran⟩ := bind_eq_ok.mp ran
  obtain ⟨rfl, _⟩ := int32_eq_ok.mp index
  obtain ⟨_, _, ran⟩ := bind_eq_ok.mp ran
  obtain ⟨_, matched, _⟩ := bind_eq_ok.mp ran
  have some : (m : Int) > 0 := by omega
  rw [matchSignatures, if_pos some] at matched
  obtain ⟨vchSig, found, matched⟩ := bind_eq_ok.mp matched
  have first : stacktop ([UInt8.ofNat n] :: (keys ++ [UInt8.ofNat m] :: dummySignature :: below))
      (-((n : Int) + 3)) = .ok dummySignature := stacktop_at (getElem?_below count 1) (by omega)
  cases first.symm.trans found
  obtain ⟨_, _, matched⟩ := bind_eq_ok.mp matched
  obtain ⟨encoded, passed, _⟩ := bind_eq_ok.mp matched
  exact checkSignatureEncoding_dummy passed

lemma exec_checkMultiSig (ran : execOpcode crypto standard checker sigversion true pc
      (running script stack nOpCount) (decode OP_CHECKMULTISIG) = .ok next) :
    ∃ result, checkMultiSigOp crypto standard checker sigversion false script nOpCount stack = .ok result := by
  obtain ⟨result, checked, _⟩ := bind_eq_ok.mp ran
  exact ⟨result, checked⟩

lemma matchOp_smallInteger_inv (found : matchOp OP_SMALLINTEGER opcode vch before = some after) :
    ∃ n ≤ 16, opcode = encodeOP_N n ∧ after = before ++ [[UInt8.ofNat n]] := by
  rw [matchOp, if_neg (by decide), if_neg (by decide), if_pos rfl] at found
  split_ifs at found with small
  cases found
  cases small with
  | inl zero => exact ⟨0, by decide, zero, by rw [zero]; rfl⟩
  | inr range =>
    obtain ⟨low, high⟩ := range
    have bounds : 0x51 ≤ opcode.toNat ∧ opcode.toNat ≤ 0x60 := ⟨low, high⟩
    have other : opcode ≠ OP_0 := by
      rintro rfl
      exact absurd low (by decide)
    have value : decodeOP_N opcode = opcode.toNat - 0x50 := by
      rw [decodeOP_N, if_neg other]
      rfl
    refine ⟨opcode.toNat - 0x50, by omega, ?_, by rw [value]⟩
    rw [encodeOP_N, if_neg (by omega), show OP_1.toNat = 0x51 from rfl,
      show 0x51 + (opcode.toNat - 0x50) - 1 = opcode.toNat by omega]
    exact (UInt8.ofNat_toNat).symm

lemma matchTemplate_multisig
    (matched : matchTemplate [OP_SMALLINTEGER, OP_PUBKEYS, OP_SMALLINTEGER, OP_CHECKMULTISIG] script [] =
      some vSolutions) :
    ∃ m opcode1 vch1 rest1, m ≤ 16 ∧ opcode1 = encodeOP_N m ∧ getOp script = some (opcode1, vch1, rest1) ∧
    ∃ opcode vch rest, getOp rest1 = some (opcode, vch, rest) ∧ ∃ n found last pc, n ≤ 16 ∧
      collectPubKeys (rest.length + 1) opcode vch rest [[UInt8.ofNat m]] = (found, encodeOP_N n, last, pc) ∧
      getOp pc = some (OP_CHECKMULTISIG, [], []) ∧ vSolutions = found ++ [[UInt8.ofNat n]] := by
  obtain ⟨opcode1, vch1, rest1, middle, read1, small, matched⟩ := matchTemplate_inv (by decide) matched
  obtain ⟨m, mSmall, first, rfl⟩ := matchOp_smallInteger_inv small
  rw [nil_append] at matched
  refine ⟨m, opcode1, vch1, rest1, mSmall, first, read1, ?_⟩
  cases readKeys : getOp rest1 with
  | none =>
    rw [matchTemplate, readKeys] at matched
    cases matched
  | some op =>
    obtain ⟨opcode, vch, rest⟩ := op
    refine ⟨opcode, vch, rest, rfl, ?_⟩
    cases collected : collectPubKeys (rest.length + 1) opcode vch rest [[UInt8.ofNat m]] with
    | mk found stopped =>
      obtain ⟨stop, last, pc⟩ := stopped
      rw [matchTemplate_pubkeys readKeys collected, bind_eq_some_iff] at matched
      obtain ⟨middle, small, matched⟩ := matched
      obtain ⟨n, nSmall, rfl, rfl⟩ := matchOp_smallInteger_inv small
      obtain ⟨last', readCheck, matched⟩ := matchTemplate_plain (by decide) matched
      obtain ⟨rfl, rfl⟩ := matchTemplate_end matched
      exact ⟨n, found, last, pc, nSmall, rfl, readCheck, rfl⟩

lemma getOp_smallInteger (positive : 1 ≤ n) (small : n ≤ 16)
    (read : getOp pc = some (encodeOP_N n, vch, rest)) : vch = [] := by
  by_contra full
  exact (smallInteger_spec positive small).2.2.1 (getOp_push read full)

lemma checkMultiSig_inv (mSmall : m ≤ 16) (nSmall : n ≤ 16)
    (checked : checkMultiSig ([UInt8.ofNat m] :: keys ++ [[UInt8.ofNat n]]) = true) :
    1 ≤ m ∧ m ≤ n ∧ keys.length = n := by
  have byte {k : Nat} (small : k ≤ 16) : (UInt8.ofNat k).toNat = k := by
    rw [UInt8.toNat_ofNat', Nat.mod_eq_of_lt (by omega)]
  have head : ([UInt8.ofNat m] :: keys ++ [[UInt8.ofNat n]]).head? = some [UInt8.ofNat m] := rfl
  simp only [checkMultiSig, head, getD_some, getD_cons_zero, getLast?_concat,
    length_append, length_cons, length_nil, Bool.not_eq_true', Bool.or_eq_false_iff,
    decide_eq_false_iff_not, bne_eq_false_iff_eq, UInt8.lt_iff_toNat_lt, byte mSmall, byte nSmall,
    gt_iff_lt] at checked
  obtain ⟨⟨⟨first, _⟩, order⟩, count⟩ := checked
  have one : (1 : UInt8).toNat = 1 := rfl
  omega

lemma collectPubKeys_inv (collected : collectPubKeys fuel opcode vch pc before = (found, stop, last, rest))
    (push : vch ≠ [] → opcode ≤ OP_PUSHDATA4) :
    (∃ keys, found = before ++ keys ∧ ∀ key ∈ keys, isKeySized key = true) ∧ (last ≠ [] → stop ≤ OP_PUSHDATA4) := by
  induction fuel generalizing opcode vch pc before with
  | zero =>
    cases collected
    exact ⟨⟨[], (append_nil _).symm, nofun⟩, push⟩
  | succ fuel ih =>
    rw [collectPubKeys] at collected
    split_ifs at collected with sized
    · cases parsed : getOp pc with
      | none =>
        rw [parsed] at collected
        cases collected
        exact ⟨⟨[vch], rfl, forall_mem_singleton.mpr sized⟩, fun full => absurd rfl full⟩
      | some op =>
        rw [parsed] at collected
        obtain ⟨⟨keys, all, others⟩, stopped⟩ := ih collected (getOp_push parsed)
        exact ⟨⟨vch :: keys, by rw [all, append_assoc]; rfl, forall_mem_cons.mpr ⟨sized, others⟩⟩, stopped⟩
    · cases collected
      exact ⟨⟨[], (append_nil _).symm, nofun⟩, push⟩

lemma evalScript_multisig_dummy
    (matched : matchTemplate [OP_SMALLINTEGER, OP_PUBKEYS, OP_SMALLINTEGER, OP_CHECKMULTISIG] script [] =
      some vSolutions) (checked : checkMultiSig vSolutions = true) (final : EvalState) :
    evalScript crypto standard checker sigversion (dummySignature :: below) script ≠ .ok final := by
  intro ran
  obtain ⟨_, ran, _⟩ := evalScript_ok.mp ran
  obtain ⟨m, opcode1, vch1, rest1, mSmall, rfl, read1, opcode, vch, rest, readKeys, n, found, last, pc,
    nSmall, collected, readCheck, rfl⟩ := matchTemplate_multisig matched
  have valid : encodeOP_N n ≠ OP_INVALIDOPCODE := by interval_cases n <;> decide
  obtain ⟨⟨keys, rfl, _⟩, stopped⟩ := collectPubKeys_inv collected (getOp_push readKeys)
  obtain ⟨positive, fewer, count⟩ := checkMultiSig_inv mSmall nSmall checked
  -- the number of signatures, the keys and their number are pushed in turn
  obtain ⟨_, step, ran⟩ := (evalFrom_next read1).mp ran
  cases getOp_smallInteger positive mSmall read1
  obtain ⟨_, rfl⟩ := (evalStep_smallInteger positive mSmall ..).mp step
  obtain ⟨keys', same, _, step, ran⟩ := collectPubKeys_run collected valid (getOp_push readKeys) _
    ((evalFrom_next readKeys).mp ran)
  cases append_cancel_left same
  obtain rfl : last = [] := by
    by_contra full
    exact (smallInteger_spec (le_trans positive fewer) nSmall).2.2.1 (stopped full)
  obtain ⟨_, rfl⟩ := (evalStep_smallInteger (le_trans positive fewer) nSmall ..).mp step
  obtain ⟨_, _, executed, _⟩ := (evalFrom_exec readCheck (by decide) (by decide)).mp ran
  obtain ⟨result, ran⟩ := exec_checkMultiSig executed
  exact checkMultiSigOp_dummy positive fewer nSmall ((length_reverse ..).trans count) ran

end Runs

/-! What the dummy creator does with the scripts that pay to keys. -/

/-- The types whose scripts run CHECKSIG or CHECKMULTISIG themselves. -/
def isKeyType : TxnOutType → Bool
  | .TX_PUBKEY | .TX_PUBKEYHASH | .TX_MULTISIG => true
  | _ => false

def paysKeys (script : Bytes) : Bool := (solver script).solved && (solver script).typeRet.any isKeyType

/-- A witness program that the store can look into. -/
def paysWitness (crypto : Crypto) (store : CKeyStore) (script : Bytes) : Bool :=
  (solver script).solved &&
    match (solver script).typeRet with
    | some .TX_WITNESS_V0_KEYHASH => true
    | some .TX_WITNESS_V0_SCRIPTHASH =>
      (store.getCScript (crypto.ripemd160 ((solver script).vSolutionsRet.headD []))).any paysKeys
    | _ => false

/-- A script that pays to keys, directly, by a witness program or by a redeem script that
the store knows. -/
def paysToKeys (crypto : Crypto) (store : CKeyStore) (script : Bytes) : Bool :=
  match (solver script).typeRet with
  | some .TX_SCRIPTHASH =>
    (store.getCScript (toUint160 ((solver script).vSolutionsRet.headD []))).any fun subscript =>
      paysKeys subscript || paysWitness crypto store subscript
  | _ => paysKeys script || paysWitness crypto store script

/-- The ways in which Solver comes to its answer. -/
inductive SolverCase (script : Bytes) : Solution → Prop
  | scriptHash (hash : isPayToScriptHash script = true) :
      SolverCase script ⟨true, some .TX_SCRIPTHASH, [(script.drop 2).take 20]⟩
  | witness {version : Nat} {program : Bytes} (shape : isWitnessProgram script = some (version, program)) :
      SolverCase script (solveWitness version program)
  | nullData : SolverCase script ⟨true, some .TX_NULL_DATA, []⟩
  | template : SolverCase script (scanTemplates script mTemplates)

lemma solver_cases (script : Bytes) : SolverCase script (solver script) := by
  unfold solver
  split
  · next hash => exact .scriptHash hash
  split
  · next shape => exact .witness shape
  split
  · exact .nullData
  · exact .template

lemma solveWitness_type {program : Bytes} (typed : (solveWitness version program).typeRet = some type) :
    isKeyType type = false ∧ type ≠ .TX_SCRIPTHASH := by
  unfold solveWitness at typed
  split_ifs at typed <;> cases typed <;> exact ⟨rfl, by decide⟩

lemma scanTemplates_inv {templates : List (TxnOutType × List UInt8)} (isKey : isKeyType type = true)
    (typed : (scanTemplates script templates).typeRet = some type) :
    ∃ template, (type, template) ∈ templates ∧
      matchTemplate template script [] = some (scanTemplates script templates).vSolutionsRet ∧
      (scanTemplates script templates).solved =
        (type != .TX_MULTISIG || checkMultiSig (scanTemplates script templates).vSolutionsRet) := by
  induction templates with
  | nil =>
    cases typed
    cases isKey
  | cons entry rest ih =>
    obtain ⟨entryType, entryTemplate⟩ := entry
    rw [scanTemplates] at typed ⊢
    cases first : matchTemplate entryTemplate script [] with
    | none =>
      rw [first] at typed
      obtain ⟨template, member, found⟩ := ih typed
      exact ⟨template, mem_cons_of_mem _ member, found⟩
    | some vSolutions =>
      rw [first] at typed
      cases typed
      exact ⟨entryTemplate, mem_cons_self, first, rfl⟩

lemma solver_inv (isKey : isKeyType type = true) (typed : (solver script).typeRet = some type) :
    ∃ template, (type, template) ∈ mTemplates ∧
      matchTemplate template script [] = some (solver script).vSolutionsRet ∧
      (solver script).solved = (type != .TX_MULTISIG || checkMultiSig (solver script).vSolutionsRet) := by
  have found := solver_cases script
  generalize solver script = solution at typed found ⊢
  cases found with
  | template => exact scanTemplates_inv isKey typed
  | witness => cases isKey.symm.trans (solveWitness_type typed).1
  | scriptHash | nullData =>
    cases typed
    cases isKey

lemma signKeys_dummy (draw nSigned : Nat) (ret : List Bytes) (fewer : nSigned ≤ nRequired)
    (enough : nRequired ≤ nSigned + keys.length) :
    signKeys crypto (dummySignatureCreator store) scriptCode sigversion nRequired keys draw nSigned ret =
      (nRequired, ret ++ replicate (nRequired - nSigned) dummySignature) := by
  induction keys generalizing draw nSigned ret with
  | nil =>
    obtain rfl : nSigned = nRequired := by
      rw [length_nil] at enough
      omega
    rw [signKeys, Nat.sub_self, replicate_zero, append_nil]
  | cons key keys ih =>
    rw [length_cons] at enough
    rw [signKeys]
    split_ifs with more
    · show signKeys crypto (dummySignatureCreator store) scriptCode sigversion nRequired keys (draw + 1)
        (nSigned + 1) (ret ++ [dummySignature]) = _
      have left : nRequired - nSigned = (nRequired - (nSigned + 1)) + 1 := by omega
      rw [ih (draw + 1) (nSigned + 1) (ret ++ [dummySignature]) more (by omega), left, replicate_succ, append_assoc]
      rfl
    · obtain rfl : nSigned = nRequired := by omega
      rw [Nat.sub_self, replicate_zero, append_nil]

/-- A key script: the dummy creator solves it, and what it produces does not pass. -/
lemma signStep_dummy
    (pays : paysKeys script = true) : ∃ ret, signStep crypto (dummySignatureCreator store) script sigversion =
        ⟨true, ret, (solver script).typeRet⟩ ∧
      ∀ final, evalScript crypto standard dummyChecker sigversion ret.reverse script ≠ .ok final := by
  rw [paysKeys, Bool.and_eq_true, Option.any_eq_true] at pays
  obtain ⟨solved, type, typed, isKey⟩ := pays
  obtain ⟨template, member, matched, verdict⟩ := solver_inv isKey typed
  cases type with
  | TX_PUBKEY =>
    obtain rfl : template = [OP_PUBKEY, OP_CHECKSIG] := by simpa [mTemplates] using member
    refine ⟨[dummySignature], ?_, evalScript_pubKey_dummy matched⟩
    simp only [signStep, solved, typed, Bool.not_true, Bool.false_eq_true, if_false]
    rfl
  | TX_PUBKEYHASH =>
    obtain rfl : template = [OP_DUP, OP_HASH160, OP_PUBKEYHASH, OP_EQUALVERIFY, OP_CHECKSIG] := by
      simpa [mTemplates] using member
    refine ⟨[dummySignature, ((store.getPubKey (toUint160 ((solver script).vSolutionsRet.headD []))).getD
      CPubKey.invalid).bytes], ?_, evalScript_pubKeyHash_dummy matched⟩
    simp only [signStep, solved, typed, Bool.not_true, Bool.false_eq_true, if_false]
    rfl
  | TX_MULTISIG =>
    obtain rfl : template = [OP_SMALLINTEGER, OP_PUBKEYS, OP_SMALLINTEGER, OP_CHECKMULTISIG] := by
      simpa [mTemplates] using member
    have checked : checkMultiSig (solver script).vSolutionsRet = true := verdict.symm.trans solved
    obtain ⟨m, opcode1, vch1, rest1, mSmall, _, _, opcode, vch, rest, readKeys, n, found, last, pc,
      nSmall, collected, _, shape⟩ := matchTemplate_multisig matched
    obtain ⟨⟨keys, rfl, _⟩, _⟩ := collectPubKeys_inv collected (getOp_push readKeys)
    have counts := checked
    rw [shape] at counts
    obtain ⟨positive, fewer, count⟩ : 1 ≤ m ∧ m ≤ n ∧ keys.length = n := checkMultiSig_inv mSmall nSmall counts
    have byte : (UInt8.ofNat m).toNat = m := by rw [UInt8.toNat_ofNat', Nat.mod_eq_of_lt (by omega)]
    have signed : signN crypto (dummySignatureCreator store) (solver script).vSolutionsRet script [[]]
        sigversion = (true, [[]] ++ replicate m dummySignature) := by
      have inner : (([[UInt8.ofNat m]] ++ keys ++ [[UInt8.ofNat n]]).drop 1).dropLast = keys := by simp
      rw [shape, signN, inner]
      simp only [cons_append, headD_cons, getD_cons_zero, byte]
      rw [signKeys_dummy 0 0 [[]] (Nat.zero_le _) (by omega)]
      simp
    refine ⟨[[]] ++ replicate m dummySignature, ?_, ?_⟩
    · simp [signStep, solved, typed, signed]
    · obtain ⟨more, rfl⟩ : ∃ more, m = more + 1 := ⟨m - 1, by omega⟩
      rw [reverse_append, reverse_replicate, replicate_succ]
      exact evalScript_multisig_dummy matched checked
  | TX_NONSTANDARD | TX_SCRIPTHASH | TX_NULL_DATA | TX_WITNESS_V0_SCRIPTHASH | TX_WITNESS_V0_KEYHASH
  | TX_WITNESS_UNKNOWN => cases isKey

/-! What VerifyScript has run when it accepts. -/

lemma verifyWitness_accepted {malleated : Bool} {error : ScriptError} {program : Bytes} {found : Bool × Stack}
    (accepted : verifyWitness crypto standard checker witness script malleated error stack = .ok found)
    (shape : isWitnessProgram script = some (0, program)) :
    verifyWitnessProgram crypto standard checker witness 0 program = .ok () := by
  rw [verifyWitness, shape] at accepted
  obtain ⟨_, _, accepted⟩ := bind_eq_ok.mp accepted
  obtain ⟨_, verified, _⟩ := bind_eq_ok.mp accepted
  exact verified

lemma verifyScript_accepted
    (accepted : verifyScript crypto standard checker (pushAll values) script witness =
      .ok ()) : (∃ state, evalScript crypto standard checker .BASE values.reverse script =
      .ok state) ∧ ∀ program, isWitnessProgram script = some (0, program) →
      verifyWitnessProgram crypto standard checker witness 0 program = .ok () := by
  obtain ⟨_, _, both, _⟩ := verifyScript_standard.mp accepted
  obtain ⟨_, state, ranSig, ran, _, _, verified, _⟩ := verifyStacks_standard.mp both
  obtain ⟨_, _, _, _, rfl⟩ := evalScript_pushAll.mp ranSig
  exact ⟨⟨state, ran⟩, fun program shape => verifyWitness_accepted verified shape⟩

lemma verifyScript_acceptedP2SH (hash : isPayToScriptHash script = true)
    (accepted : verifyScript crypto standard checker (pushAll (values ++ [subscript])) script witness = .ok ()) :
    (∃ state, evalScript crypto standard checker .BASE values.reverse subscript =
      .ok state) ∧ ∀ program, isWitnessProgram subscript = some (0, program) →
      verifyWitnessProgram crypto standard checker witness 0 program = .ok () := by
  obtain ⟨_, _, both, _⟩ := verifyScript_standard.mp accepted
  obtain ⟨_, _, ranSig, _, _, _, _, nested⟩ := verifyStacks_standard.mp both
  obtain ⟨_, _, _, _, rfl⟩ := evalScript_pushAll.mp ranSig
  rw [hash, if_pos rfl, running, reverse_append] at nested
  obtain ⟨_, state, ran, _, _, verified, _⟩ := verifyP2SH_standard.mp nested
  exact ⟨⟨state, ran⟩, fun program shape => verifyWitness_accepted verified shape⟩

/-! The verdict of ProduceSignature for the dummy creator. -/

lemma signStep_solved (solved : (signStep crypto creator script sigversion).solved = true) :
    (solver script).solved = true ∧ ((solver script).typeRet.any isKeyType = true ∨
      (solver script).typeRet = some .TX_SCRIPTHASH ∨ (solver script).typeRet = some .TX_WITNESS_V0_KEYHASH ∨
      (solver script).typeRet = some .TX_WITNESS_V0_SCRIPTHASH) := by
  unfold signStep at solved
  dsimp only at solved
  cases verdict : (solver script).solved with
  | false =>
    rw [verdict] at solved
    cases solved
  | true =>
    refine ⟨rfl, ?_⟩
    rw [verdict] at solved
    cases typed : (solver script).typeRet with
    | none =>
      rw [typed] at solved
      cases solved
    | some type =>
      rw [typed] at solved
      cases type <;> first | exact .inl rfl | exact .inr (by decide) | cases solved

/-- The templates give no witness types. -/
lemma scanTemplates_type (script : Bytes) : (scanTemplates script mTemplates).typeRet = some .TX_NONSTANDARD ∨
      (scanTemplates script mTemplates).typeRet.any isKeyType = true := by
  simp only [mTemplates, scanTemplates]
  repeat' split
  · exact .inl rfl
  all_goals exact .inr rfl

def witnessSize : TxnOutType → Option Nat
  | .TX_WITNESS_V0_KEYHASH => some 20
  | .TX_WITNESS_V0_SCRIPTHASH => some 32
  | _ => none

/-- A script of a witness type is a witness program of version 0, of the size of its hash. -/
lemma solver_witness_inv {size : Nat}
    (sized : witnessSize type = some size) (typed : (solver script).typeRet = some type) :
    ∃ program, isWitnessProgram script = some (0, program) ∧ program.length = size ∧
      solver script = ⟨true, some type, [program]⟩ := by
  have found := solver_cases script
  generalize solver script = solution at typed found ⊢
  cases found with
  | @witness version program shape =>
    unfold solveWitness at typed ⊢
    split_ifs at typed ⊢ with keyHash scriptHash
    · cases typed
      cases sized
      exact ⟨program, by rw [shape, keyHash.1], keyHash.2, rfl⟩
    · cases typed
      cases sized
      exact ⟨program, by rw [shape, scriptHash.1], scriptHash.2, rfl⟩
    · cases typed
      cases sized
  | template =>
    have scanned := scanTemplates_type script
    rw [typed] at scanned
    cases scanned with
    | inl other =>
      cases other
      cases sized
    | inr other => cases type <;> first | (cases other; done) | cases sized
  | scriptHash | nullData =>
    cases typed
    cases sized

section Dummy
/-- What is wrong with a scriptSig and a witness: the script does not run on the values, or it
is a witness program that does not run on the witness. -/
def Refused (crypto : Crypto) (script : Bytes) (values witness : List Bytes) : Prop :=
  (∀ final, evalScript crypto STANDARD_SCRIPT_VERIFY_FLAGS dummyChecker .BASE values.reverse script ≠ .ok final) ∨
  ∃ program, isWitnessProgram script = some (0, program) ∧
    verifyWitnessProgram crypto STANDARD_SCRIPT_VERIFY_FLAGS dummyChecker witness 0 program ≠ .ok ()

lemma Refused.not_accepted (refused : Refused crypto script values witness)
    (accepted : (∃ state, evalScript crypto standard dummyChecker .BASE values.reverse
        script = .ok state) ∧ ∀ program, isWitnessProgram script = some (0, program) →
        verifyWitnessProgram crypto standard dummyChecker witness 0 program = .ok ()) :
    False := by
  obtain ⟨⟨state, ran⟩, verified⟩ := accepted
  cases refused with
  | inl stuck => exact stuck state ran
  | inr witnessed =>
    obtain ⟨program, shape, unverified⟩ := witnessed
    exact unverified (verified program shape)

variable {keyID : Uint160}

lemma refused_keyHash (shape : isWitnessProgram script = some (0, keyID.bytes))
    (stuck : ∀ final, evalScript crypto standard dummyChecker .WITNESS_V0 ret.reverse
      (getScriptForPubKeyHash keyID) ≠ .ok final) : Refused crypto script [] ret := by
  refine .inr ⟨keyID.bytes, shape, fun verified => ?_⟩
  obtain ⟨_, _, selected, _, state, _, ran, _⟩ := verifyWitnessProgram_ok.mp verified
  have other : ¬ keyID.bytes.length = 32 := by
    rw [keyID.size]
    decide
  rw [witnessScript, if_neg other, if_pos keyID.size, require_bind_eq_ok] at selected
  cases selected.2
  exact stuck state ran

lemma refused_scriptHash {program : Bytes} (shape : isWitnessProgram script = some (0, program))
    (size : program.length = 32)
    (stuck : ∀ final, evalScript crypto standard dummyChecker .WITNESS_V0 ret.reverse
      witnessScript' ≠ .ok final) : Refused crypto script [] (ret ++ [witnessScript']) := by
  refine .inr ⟨program, shape, fun verified => ?_⟩
  obtain ⟨_, _, selected, _, state, _, ran, _⟩ := verifyWitnessProgram_ok.mp verified
  rw [witnessScript, if_pos size, getLast?_concat] at selected
  obtain ⟨_, selected⟩ := require_bind_eq_ok.mp selected
  rw [dropLast_concat] at selected
  cases selected
  exact stuck state ran

lemma signWitness_plain {type : Option TxnOutType} (isKey : type.any isKeyType = true) :
    signWitness crypto creator ⟨true, ret, type⟩ = (true, [], ret) := by
  cases type with
  | none => cases isKey
  | some type => cases type <;> first | rfl | cases isKey

lemma signWitness_unsolved {step : StepResult}
    (unsolved : step.solved = false) : (signWitness crypto creator step).1 = false := by
  rw [signWitness, unsolved]
  rfl

lemma paysKeys_pubKeyHash : paysKeys (getScriptForPubKeyHash keyID) = true := by
  rw [paysKeys, solver_pubKeyHash]
  rfl

lemma signStep_dummy_verdict (script : Bytes) (sigversion : SigVersion) :
    ((signStep crypto (dummySignatureCreator store) script sigversion).solved
      && (solver script).typeRet != some .TX_SCRIPTHASH
      && (solver script).typeRet != some .TX_WITNESS_V0_SCRIPTHASH
      && (solver script).typeRet != some .TX_WITNESS_V0_KEYHASH) = paysKeys script := by
  rw [Bool.eq_iff_iff]
  simp only [Bool.and_eq_true, bne_iff_ne]
  constructor
  · rintro ⟨⟨⟨solved, hash⟩, other⟩, key⟩
    obtain ⟨verdict, types⟩ := signStep_solved solved
    rw [paysKeys, verdict]
    rcases types with isKey | same | same | same
    · exact isKey
    · exact absurd same hash
    · exact absurd same key
    · exact absurd same other
  · intro pays
    obtain ⟨ret, step, _⟩ := signStep_dummy pays
    have isKey := (Bool.and_eq_true_iff.mp pays).2
    rw [step]
    refine ⟨⟨⟨rfl, ?_⟩, ?_⟩, ?_⟩ <;> (intro same; rw [same] at isKey; cases isKey)

lemma signWitness_dummy (plain : (solver script).typeRet ≠ some .TX_SCRIPTHASH) :
    let signed := signWitness crypto (dummySignatureCreator store)
      (signStep crypto (dummySignatureCreator store) script .BASE)
    signed.1 = (paysKeys script || paysWitness crypto store script) ∧
      (signed.1 = true → Refused crypto script signed.2.2 signed.2.1) := by
  intro signed
  by_cases pays : paysKeys script = true
  · obtain ⟨ret, step, stuck⟩ := signStep_dummy pays
    have isKey := (Bool.and_eq_true_iff.mp pays).2
    have outcome : signed = (true, [], ret) := by rw [← signWitness_plain isKey, ← step]
    rw [outcome, pays]
    exact ⟨rfl, fun _ => .inl stuck⟩
  · rw [Bool.not_eq_true] at pays
    rw [pays, Bool.false_or]
    by_cases keyHash : (solver script).typeRet = some .TX_WITNESS_V0_KEYHASH
    · obtain ⟨program, shape, size, whole⟩ := solver_witness_inv rfl keyHash
      obtain ⟨ret, inner, stuck⟩ := signStep_dummy paysKeys_pubKeyHash
      have outcome : signed = (true, ret, []) := by
        have step : signStep crypto (dummySignatureCreator store) script .BASE =
            ⟨true, [program], some .TX_WITNESS_V0_KEYHASH⟩ := by
          rw [signStep, whole]
          rfl
        have steps : signed = _ := congrArg (signWitness crypto (dummySignatureCreator store)) step
        rw [steps, signWitness_keyHash ⟨program, size⟩, inner]
      have known : paysWitness crypto store script = true := by
        rw [paysWitness, whole]
        rfl
      rw [outcome, known]
      exact ⟨rfl, fun _ => refused_keyHash shape stuck⟩
    · by_cases scriptHash : (solver script).typeRet = some .TX_WITNESS_V0_SCRIPTHASH
      · obtain ⟨program, shape, size, whole⟩ := solver_witness_inv rfl scriptHash
        cases known : store.getCScript (crypto.ripemd160 program) with
        | none =>
          have unsolved : (signStep crypto (dummySignatureCreator store) script .BASE).solved = false := by
            simp [signStep, whole, dummySignatureCreator, known]
          have none : signed.1 = false := signWitness_unsolved unsolved
          have unknown : paysWitness crypto store script = false := by simp [paysWitness, whole, known]
          simp [none, unknown]
        | some witnessScript' =>
          have step : signStep crypto (dummySignatureCreator store) script .BASE =
              ⟨true, [witnessScript'], some .TX_WITNESS_V0_SCRIPTHASH⟩ := by
            simp [signStep, whole, dummySignatureCreator, known]
          have steps : signed = _ := congrArg (signWitness crypto (dummySignatureCreator store)) step
          have verdict : paysWitness crypto store script = paysKeys witnessScript' := by
            simp [paysWitness, whole, known]
          rw [steps, signWitness_scriptHash, signStep_dummy_verdict, verdict]
          refine ⟨rfl, fun pays => ?_⟩
          obtain ⟨ret, inner, stuck⟩ := signStep_dummy pays
          rw [inner]
          exact refused_scriptHash shape size stuck
      · have unsolved : (signStep crypto (dummySignatureCreator store) script .BASE).solved = false := by
          rw [Bool.eq_false_iff]
          intro solved
          obtain ⟨verdict, types⟩ := signStep_solved solved
          rw [paysKeys, verdict, Bool.true_and] at pays
          rcases types with isKey | hash | key | other
          · rw [pays] at isKey
            cases isKey
          · exact plain hash
          · exact keyHash key
          · exact scriptHash other
        have none : signed.1 = false := signWitness_unsolved unsolved
        have unknown : paysWitness crypto store script = false := by
          rw [paysWitness]
          split <;> first | contradiction | exact Bool.and_false _
        simp [none, unknown]

end Dummy

lemma solver_scriptHash_inv (typed : (solver script).typeRet = some .TX_SCRIPTHASH) :
    isPayToScriptHash script = true ∧ (solver script).solved = true := by
  have found := solver_cases script
  generalize solver script = solution at typed found ⊢
  cases found with
  | scriptHash hash => exact ⟨hash, rfl⟩
  | witness => exact absurd rfl (solveWitness_type typed).2
  | nullData => cases typed
  | template =>
    have scanned := scanTemplates_type script
    rw [typed] at scanned
    rcases scanned with other | other <;> cases other

lemma paysToKeys_plain (plain : (solver script).typeRet ≠ some .TX_SCRIPTHASH) :
    paysToKeys crypto store script = (paysKeys script || paysWitness crypto store script) := by
  unfold paysToKeys
  split
  · contradiction
  · rfl

section Redeem
variable (typed : (solver script).typeRet = some .TX_SCRIPTHASH)

include typed

lemma signStep_unknown
    (unknown : creator.keystore.getCScript (toUint160 ((solver script).vSolutionsRet.headD [])) = none) :
    signStep crypto creator script .BASE = ⟨false, [], some .TX_SCRIPTHASH⟩ := by
  simp only [signStep, (solver_scriptHash_inv typed).2, typed, Bool.not_true, Bool.false_eq_true, if_false, unknown]

lemma signStep_known
    (known : creator.keystore.getCScript (toUint160 ((solver script).vSolutionsRet.headD [])) =
      some subscript) : signStep crypto creator script .BASE = ⟨true, [subscript], some .TX_SCRIPTHASH⟩ := by
  simp only [signStep, (solver_scriptHash_inv typed).2, typed, Bool.not_true, Bool.false_eq_true, if_false, known]

lemma not_pays_scriptHash (store : CKeyStore) : (paysKeys script || paysWitness crypto store script) = false := by
  rw [paysKeys, paysWitness, typed]
  simp [isKeyType]

end Redeem

/-- ProduceSignature with the dummy creator: its verdict, and that VerifyScript refuses what
it has made. -/
lemma assembleSignature_dummy :
    let produced := assembleSignature crypto (dummySignatureCreator store) script
    produced.1 = paysToKeys crypto store script ∧
      (produced.1 = true → verifyScript crypto standard dummyChecker
        produced.2.scriptSig script produced.2.scriptWitness ≠ .ok ()) := by
  intro produced
  by_cases plain : (solver script).typeRet = some .TX_SCRIPTHASH
  · cases known : store.getCScript (toUint160 ((solver script).vSolutionsRet.headD [])) with
    | none =>
      have step : signStep crypto (dummySignatureCreator store) script .BASE = _ := signStep_unknown plain known
      have unsolved : produced.1 = false := by
        simp only [produced, assembleSignature, step, Bool.false_and, Bool.false_eq_true, if_false]
        exact signWitness_unsolved rfl
      have verdict : paysToKeys crypto store script = false := by simp only [paysToKeys, plain, known, any_none]
      simp [unsolved, verdict]
    | some subscript =>
      have step : signStep crypto (dummySignatureCreator store) script .BASE = _ := signStep_known plain known
      have verdict : paysToKeys crypto store script =
          (paysKeys subscript || paysWitness crypto store subscript) := by
        simp only [paysToKeys, plain, known, any_some]
      by_cases again : (solver subscript).typeRet = some .TX_SCRIPTHASH
      · -- a redeem script that is a P2SH script itself
        have unsolved : produced.1 = false := by
          simp only [produced, assembleSignature, step, headD_cons, Bool.true_and, beq_self_eq_true,
            if_true, signStep_type, again, bne_self_eq_false, Bool.and_false]
          exact signWitness_unsolved rfl
        simp [unsolved, verdict, not_pays_scriptHash again]
      · obtain ⟨pays, refused⟩ := signWitness_dummy again
        have nested : produced = _ := assembleSignature_nested step again
        rw [nested, verdict]
        refine ⟨pays, fun solved accepted => ?_⟩
        exact (refused solved).not_accepted (verifyScript_acceptedP2SH (solver_scriptHash_inv plain).1 accepted)
  · obtain ⟨verdict, refused⟩ := signWitness_dummy plain
    have direct : produced = _ := assembleSignature_direct plain
    rw [direct, paysToKeys_plain plain]
    refine ⟨verdict, fun solved accepted => ?_⟩
    exact (refused solved).not_accepted (verifyScript_accepted accepted)

/-- The assertion of IsSolvable fails for every script that pays to keys, and for no other. -/
theorem isSolvable_returns_iff (crypto : Crypto) (store : CKeyStore) (script : Bytes) :
    (isSolvable crypto store script).isSome = true ↔ paysToKeys crypto store script = false := by
  obtain ⟨verdict, refused⟩ := assembleSignature_dummy
  have produced : produceSignature crypto (dummySignatureCreator store) script =
    assembleSignature crypto (dummySignatureCreator store) script := rfl
  rw [isSolvable, produced, ← verdict]
  cases solved : (assembleSignature crypto (dummySignatureCreator store) script).1 with
  | false => simp [solved]
  | true =>
    have failed : (verifyScript crypto STANDARD_SCRIPT_VERIFY_FLAGS dummyChecker
        (assembleSignature crypto (dummySignatureCreator store) script).2.scriptSig script
        (assembleSignature crypto (dummySignatureCreator store) script).2.scriptWitness).isOk = false := by
      rw [Bool.eq_false_iff]
      exact fun passed => refused solved (isOk_unit.mp passed)
    have same : (dummySignatureCreator store).checker = dummyChecker := rfl
    simp [solved, same, failed]

theorem isSolvable_asserts_pubKeyHash : isSolvable Crypto.zeros ⟨fun _ => none, fun _ => none, fun _ => none⟩
      (getScriptForPubKeyHash ⟨replicate 20 0, rfl⟩) = none := by
  decide +kernel

end Dragonchain.Script
