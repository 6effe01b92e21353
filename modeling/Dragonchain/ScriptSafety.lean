import Dragonchain.Interpreter

/-!
EvalScript runs into no fault: no access below a stack, no signed overflow, no loop
without end. One invariant carries the whole interpreter. Stack elements stay within
MAX_SCRIPT_ELEMENT_SIZE, nOpCount within MAX_OPS_PER_SCRIPT, and the code that
signatures cover within MAX_SCRIPT_SIZE. The length checks of each opcode cover its
own accesses, so the number of elements matters only for the final bound.
-/

namespace Dragonchain.Script

open Outcome ByteCodec List Safe Bool

/-! Reading a script. -/

variable {α : Type} {post : α → Prop} {next : Bytes → Eval α} {crypto : Crypto}
  {vch b vchPushValue vchSig vchPubKey scriptCode pc scriptPubKey scriptSig : Bytes}
  {value i change bn bn1 bn2 j nOpCount isig k ikey nSigsCount nKeysCount ikey2 : Int}
  {stack rest altstack stackCopy : Stack} {nMaxNumSize depth count remaining fuel : Nat}
  {changes fRequireMinimal roll verify condition negated fSuccess fExec hadWitness malleated : Bool}
  {flags : ScriptFlags} {checker : BaseSignatureChecker} {state : EvalState} {opcode : UInt8}
  {witness : List Bytes} {error malleatedError : ScriptError}

lemma skipCopies_length (some_byte : b ≠ []) (fuel : Nat) (pc : Bytes) :
    (skipCopies b fuel pc).1 + (skipCopies b fuel pc).2.length ≤ pc.length := by
  induction fuel generalizing pc with
  | zero => simp [skipCopies]
  | succ fuel ih =>
    unfold skipCopies
    split_ifs with isCopy
    · have positive := length_pos_iff.mpr some_byte
      have covered := (List.isPrefixOf_iff_prefix.mp isCopy).length_le
      have rest := ih (pc.drop b.length)
      rw [length_drop] at rest
      dsimp only
      omega
    · simp

lemma deleteFrom_length (some_byte : b ≠ []) (fuel : Nat) (pc : Bytes) :
    (deleteFrom b fuel pc).1 + (deleteFrom b fuel pc).2.length ≤ pc.length := by
  induction fuel generalizing pc with
  | zero => simp [deleteFrom]
  | succ fuel ih =>
    have skipped := skipCopies_length some_byte pc.length pc
    unfold deleteFrom
    dsimp only
    split
    · exact skipped
    · rename_i rest read
      have shorter := getOp_length read
      have deleted := ih rest
      simp only [length_append, length_take]
      omega

lemma findAndDelete_length (script b : Bytes) :
    (findAndDelete script b).1 + (findAndDelete script b).2.length ≤ script.length := by
  unfold findAndDelete
  split
  · simp
  · rename_i some_byte
    have deleted := deleteFrom_length (b := b) (by simpa using some_byte) (script.length + 1) script
    dsimp only
    split
    · exact deleted
    · simp

/-! Integers. -/

lemma int32_safe (low : -2147483648 ≤ value) (high : value ≤ 2147483647) : Safe (· = value) (int32 value) := by
  rw [int32, if_pos ⟨low, high⟩]
  exact safe_pure rfl

lemma after_int32 {next : Int → Eval α}
    (inside : -2147483648 ≤ value ∧ value ≤ 2147483647) (onward : Safe post (next value)) :
    Safe post (int32 value >>= next) := by
  apply (int32_safe inside.1 inside.2).bind
  rintro _ rfl
  exact onward

lemma int64_safe (low : -9223372036854775808 ≤ value)
    (high : value ≤ 9223372036854775807) : Safe (· = value) (int64 value) := by
  rw [int64, if_pos ⟨low, high⟩]
  exact safe_pure rfl

lemma int32If_safe (low : -2147483648 ≤ value + change) (high : value + change ≤ 2147483647) :
    Safe (· = if changes then value + change else value) (int32If changes value change) := by
  cases changes with
  | true => exact int32_safe low high
  | false => exact safe_pure rfl

lemma setVch_bound (vch : Bytes) (short : vch.length ≤ 5) :
    -1099511627776 < setVch vch ∧ setVch vch < 1099511627776 := by
  have value := leValue_lt vch
  have wide : 256 ^ vch.length ≤ 256 ^ 5 := Nat.pow_le_pow_right (by decide) short
  have top : 256 ^ (vch.length - 1) ≤ 256 ^ 4 := Nat.pow_le_pow_right (by decide) (by omega)
  unfold setVch
  split
  · decide
  split
  · have sign : ((256 : Int) ^ (vch.length - 1)) = ((256 ^ (vch.length - 1) : Nat) : Int) := by rfl
    rw [sign]
    generalize 256 ^ (vch.length - 1) = half at top
    omega
  · omega

lemma toScriptNum_safe (few : nMaxNumSize ≤ 5) :
    Safe (fun value => -1099511627776 < value ∧ value < 1099511627776)
      (toScriptNum vch fRequireMinimal nMaxNumSize) := by
  unfold toScriptNum scriptNum
  by_cases long : vch.length > nMaxNumSize
  · rw [if_pos long]
    exact safe_fail
  rw [if_neg long]
  by_cases padded : (fRequireMinimal && !isMinimalNum vch) = true
  · rw [if_pos padded]
    exact safe_fail
  rw [if_neg padded]
  have bound := setVch_bound vch (by omega)
  have value := leValue_lt vch
  have wide : 256 ^ vch.length ≤ 256 ^ 5 := Nat.pow_le_pow_right (by decide) (by omega)
  apply (int64_safe (by omega) (by omega)).bind; intro _ _
  apply (int64_safe (by omega) (by omega)).mono
  rintro _ rfl
  exact bound

lemma getint_bound (value : Int) : -2147483648 ≤ getint value ∧ getint value ≤ 2147483647 := by
  unfold getint
  split
  · omega
  split <;> omega

lemma length_absBytes (fuel absvalue : Nat) : (absBytes fuel absvalue).length ≤ fuel := by
  induction fuel generalizing absvalue with
  | zero => exact le_rfl
  | succ fuel ih =>
    unfold absBytes
    split
    · exact Nat.zero_le _
    · exact Nat.succ_le_succ (ih _)

lemma length_serializeNum (value : Int) : (serializeNum value).length ≤ 9 := by
  have digits := length_absBytes 8 value.natAbs
  unfold serializeNum
  dsimp only
  split
  · exact Nat.zero_le _
  split
  · rw [length_append]
    exact Nat.succ_le_succ digits
  split
  · rw [length_append, length_dropLast, length_singleton]
    omega
  · omega

/-! The stack. -/

def Small (stack : Stack) : Prop := ∀ vch ∈ stack, vch.length ≤ MAX_SCRIPT_ELEMENT_SIZE

lemma small_nil : Small [] := by
  rintro vch ⟨⟩

lemma Small.cons (small : Small stack) (element : vch.length ≤ MAX_SCRIPT_ELEMENT_SIZE) : Small (vch :: stack) := by
  intro other member
  rcases mem_cons.mp member with rfl | member
  · exact element
  · exact small other member

lemma Small.sub (small : Small stack) (included : rest ⊆ stack) :
    Small rest := fun vch member => small vch (included member)

lemma serializeNum_small : (serializeNum value).length ≤ MAX_SCRIPT_ELEMENT_SIZE :=
  le_trans (length_serializeNum value) (by decide)

lemma vchBool_small {value : Bool} : (vchBool value).length ≤ MAX_SCRIPT_ELEMENT_SIZE := by cases value <;> decide

lemma after_stacktop (inside : i < 0 ∧ -i ≤ stack.length) (onward : ∀ vch ∈ stack, Safe post (next vch)) :
    Safe post (stacktop stack i >>= next) := by
  have within : (-i - 1).toNat < stack.length := by omega
  have top : stacktop stack i = .ok (stack.get ⟨_, within⟩) := by
    rw [stacktop, if_pos inside.1, getElem?_eq_getElem within]
    rfl
  rw [top]
  exact onward _ (getElem_mem within)

/-- The check of the stack's size that each opcode starts with, and its first access. -/
lemma after_top {size : Nat}
    (inside : i < 0 ∧ -i ≤ size) (onward : size ≤ stack.length → ∀ vch ∈ stack, Safe post (next vch)) :
    Safe post (do require (stack.length ≥ size) error; next (← stacktop stack i)) := by
  apply after_check; intro enough
  exact after_stacktop ⟨inside.1, inside.2.trans (Int.ofNat_le.mpr enough)⟩ (onward enough)

lemma popstack_safe (enough : 1 ≤ stack.length) :
    Safe (fun rest => rest.length + 1 = stack.length ∧ rest ⊆ stack) (popstack stack) := by
  cases stack with
  | nil => cases enough
  | cons top rest => exact safe_pure ⟨rfl, subset_cons_self top rest⟩

lemma Small.after_pop {next : Stack → Eval α} (small : Small stack) (enough : 1 ≤ stack.length)
    (onward : ∀ rest, rest.length + 1 = stack.length → Small rest → Safe post (next rest)) :
    Safe post (popstack stack >>= next) :=
  (popstack_safe enough).bind fun rest popped => onward rest popped.1 (small.sub popped.2)

lemma eraseAt_safe (inside : count ≤ depth)
    (enough : depth ≤ stack.length) : Safe (· ⊆ stack) (eraseAt stack depth count) := by
  rw [eraseAt, if_pos ⟨inside, enough⟩]
  apply safe_pure
  exact append_subset.mpr ⟨take_subset _ _, drop_subset _ _⟩

lemma insertAt_safe (enough : depth ≤ stack.length)
    (member : vch ∈ stack) : Safe (· ⊆ stack) (insertAt stack depth vch) := by
  rw [insertAt, if_pos enough]
  apply safe_pure
  apply append_subset.mpr
  exact ⟨take_subset _ _, cons_subset.mpr ⟨member, drop_subset _ _⟩⟩

lemma swapTop_safe (insideI : i < 0 ∧ -i ≤ stack.length) (insideJ : j < 0 ∧ -j ≤ stack.length) :
    Safe (fun swapped => swapped.length = stack.length ∧ swapped ⊆ stack) (swapTop stack i j) := by
  apply after_stacktop insideI; intro first firstMember
  apply after_stacktop insideJ; intro second secondMember
  apply safe_pure
  refine ⟨by simp, ?_⟩
  intro vch member
  rcases mem_or_eq_of_mem_set member with member | rfl
  · rcases mem_or_eq_of_mem_set member with member | rfl
    · exact member
    · exact secondMember
  · exact firstMember

lemma getvch_safe (bounded : -9223372036854775808 < value) :
    Safe (fun vch => vch.length ≤ MAX_SCRIPT_ELEMENT_SIZE) (getvch value) := by
  unfold getvch
  split
  · apply (int64_safe (by omega) (by omega)).bind; intro _ _
    exact safe_pure serializeNum_small
  · exact safe_pure serializeNum_small

lemma stackOp_safe {op : StackOp} (small : Small stack) (smallAlt : Small altstack) :
    Safe (fun result => Small result.1 ∧ Small result.2) (stackOp op stack altstack) := by
  cases op with
  | OP_TOALTSTACK =>
    apply after_top (by decide); intro enough vch member
    apply small.after_pop enough; intro rest _ kept
    exact safe_pure ⟨kept, smallAlt.cons (small vch member)⟩
  | OP_FROMALTSTACK =>
    apply after_top (by decide); intro enough vch member
    apply smallAlt.after_pop enough; intro rest _ kept
    exact safe_pure ⟨small.cons (smallAlt vch member), kept⟩
  | OP_2DROP =>
    apply after_check; intro enough
    apply small.after_pop (by omega); intro first _ small
    apply small.after_pop (by omega); intro second _ small
    exact safe_pure ⟨small, smallAlt⟩
  | OP_2DUP =>
    apply after_top (by decide); intro enough vch1 member1
    apply after_stacktop (by omega); intro vch2 member2
    exact safe_pure ⟨(small.cons (small vch1 member1)).cons (small vch2 member2), smallAlt⟩
  | OP_3DUP =>
    apply after_top (by decide); intro enough vch1 member1
    apply after_stacktop (by omega); intro vch2 member2
    apply after_stacktop (by omega); intro vch3 member3
    have two := (small.cons (small vch1 member1)).cons (small vch2 member2)
    exact safe_pure ⟨two.cons (small vch3 member3), smallAlt⟩
  | OP_2OVER =>
    apply after_top (by decide); intro enough vch1 member1
    apply after_stacktop (by omega); intro vch2 member2
    exact safe_pure ⟨(small.cons (small vch1 member1)).cons (small vch2 member2), smallAlt⟩
  | OP_2ROT =>
    apply after_top (by decide); intro enough vch1 member1
    apply after_stacktop (by omega); intro vch2 member2
    apply (eraseAt_safe (by omega) enough).bind; intro rest erased
    have kept := (small.sub erased).cons (small vch1 member1)
    exact safe_pure ⟨kept.cons (small vch2 member2), smallAlt⟩
  | OP_2SWAP =>
    apply after_check; intro enough
    apply (swapTop_safe (by omega) (by omega)).bind; intro first swapped
    apply (swapTop_safe (by omega) (by omega)).bind; intro second swappedTwice
    exact safe_pure ⟨(small.sub swapped.2).sub swappedTwice.2, smallAlt⟩
  | OP_IFDUP =>
    apply after_top (by decide); intro enough vch member
    refine safe_pure ⟨?_, smallAlt⟩
    split
    · exact small.cons (small vch member)
    · exact small
  | OP_DEPTH =>
    apply (getvch_safe (by omega)).bind; intro vch short
    exact safe_pure ⟨small.cons short, smallAlt⟩
  | OP_DROP =>
    apply after_check; intro enough
    apply small.after_pop enough; intro rest _ small
    exact safe_pure ⟨small, smallAlt⟩
  | OP_DUP =>
    apply after_top (by decide); intro enough vch member
    exact safe_pure ⟨small.cons (small vch member), smallAlt⟩
  | OP_NIP =>
    apply after_check; intro enough
    apply (eraseAt_safe (by omega) enough).bind; intro rest erased
    exact safe_pure ⟨small.sub erased, smallAlt⟩
  | OP_OVER =>
    apply after_top (by decide); intro enough vch member
    exact safe_pure ⟨small.cons (small vch member), smallAlt⟩
  | OP_ROT =>
    apply after_check; intro enough
    apply (swapTop_safe (by omega) (by omega)).bind; intro first swapped
    apply (swapTop_safe (by omega) (by omega)).bind; intro second swappedTwice
    exact safe_pure ⟨(small.sub swapped.2).sub swappedTwice.2, smallAlt⟩
  | OP_SWAP =>
    apply after_check; intro enough
    apply (swapTop_safe (by omega) (by omega)).bind; intro rest swapped
    exact safe_pure ⟨small.sub swapped.2, smallAlt⟩
  | OP_TUCK =>
    apply after_top (by decide); intro enough vch member
    apply (insertAt_safe enough member).bind; intro rest inserted
    exact safe_pure ⟨small.sub inserted, smallAlt⟩
  | OP_SIZE =>
    apply after_top (by decide); intro enough vch member
    apply (getvch_safe (by omega)).bind; intro size short
    exact safe_pure ⟨small.cons short, smallAlt⟩

variable {op : BinaryOp}

lemma pickOp_safe (small : Small stack) : Safe Small (pickOp fRequireMinimal roll stack) := by
  apply after_top (by decide); intro enough vch _
  apply (toScriptNum_safe (by omega)).bind; intro bn _
  have bound := getint_bound bn
  apply small.after_pop (by omega); intro rest _ kept
  apply after_require; intro inside
  simp only [not_eq_true', or_eq_false_iff, decide_eq_false_iff_not] at inside
  apply after_int32 (by omega)
  apply after_int32 (by omega)
  apply after_stacktop (by omega); intro picked member
  have element := kept picked member
  cases roll with
  | false => exact safe_pure (kept.cons element)
  | true =>
    apply (eraseAt_safe (by omega) (by omega)).bind; intro rest erased
    exact safe_pure ((kept.sub erased).cons element)

lemma equalOp_safe (small : Small stack) : Safe Small (equalOp verify stack) := by
  apply after_top (by decide); intro enough vch1 _
  apply after_stacktop (by omega); intro vch2 _
  apply small.after_pop (by omega); intro first _ small
  apply small.after_pop (by omega); intro second _ small
  cases verify with
  | false => exact safe_pure (small.cons vchBool_small)
  | true =>
    apply after_require; intro _
    exact safe_pure small

lemma unaryValue_safe {op : UnaryOp} (low : -1099511627776 < bn) (high : bn < 1099511627776) :
    Safe (fun value => -9223372036854775808 < value) (unaryValue op bn) := by
  have truth : ∀ value : Bool, -9223372036854775808 < intBool value := by decide
  cases op with
  | OP_1ADD => exact (int64_safe (by omega) (by omega)).mono (by rintro _ rfl; omega)
  | OP_1SUB => exact (int64_safe (by omega) (by omega)).mono (by rintro _ rfl; omega)
  | OP_NEGATE => exact (int64_safe (by omega) (by omega)).mono (by rintro _ rfl; omega)
  | OP_ABS =>
    unfold unaryValue
    dsimp only
    split
    · exact (int64_safe (by omega) (by omega)).mono (by rintro _ rfl; omega)
    · exact safe_pure (by omega)
  | OP_NOT => exact safe_pure (truth _)
  | OP_0NOTEQUAL => exact safe_pure (truth _)

lemma unaryOp_safe {op : UnaryOp} (small : Small stack) : Safe Small (unaryOp fRequireMinimal op stack) := by
  apply after_top (by decide); intro enough vch _
  apply (toScriptNum_safe (by omega)).bind; intro bn bound
  apply (unaryValue_safe bound.1 bound.2).bind; intro value inRange
  apply small.after_pop enough; intro rest _ small
  apply (getvch_safe inRange).bind; intro vch short
  exact safe_pure (small.cons short)

lemma binaryValue_safe (bound1 : -1099511627776 < bn1 ∧ bn1 < 1099511627776)
    (bound2 : -1099511627776 < bn2 ∧ bn2 < 1099511627776) :
    Safe (fun value => -9223372036854775808 < value) (binaryValue op bn1 bn2) := by
  have truth : ∀ value : Bool, -9223372036854775808 < intBool value := by decide
  cases op with
  | OP_ADD => exact (int64_safe (by omega) (by omega)).mono (by rintro _ rfl; omega)
  | OP_SUB => exact (int64_safe (by omega) (by omega)).mono (by rintro _ rfl; omega)
  | OP_MIN => exact safe_pure (by split <;> omega)
  | OP_MAX => exact safe_pure (by split <;> omega)
  | OP_BOOLAND | OP_BOOLOR | OP_NUMEQUAL | OP_NUMEQUALVERIFY | OP_NUMNOTEQUAL | OP_LESSTHAN
  | OP_GREATERTHAN | OP_LESSTHANOREQUAL | OP_GREATERTHANOREQUAL => exact safe_pure (truth _)

lemma binaryOp_safe (small : Small stack) : Safe Small (binaryOp fRequireMinimal op stack) := by
  apply after_top (by decide); intro enough vch1 _
  apply (toScriptNum_safe (by omega)).bind; intro bn1 bound1
  apply after_stacktop (by omega); intro vch2 _
  apply (toScriptNum_safe (by omega)).bind; intro bn2 bound2
  apply (binaryValue_safe bound1 bound2).bind; intro bn inRange
  apply small.after_pop (by omega); intro first _ small
  apply small.after_pop (by omega); intro second _ small
  apply (getvch_safe inRange).bind; intro vch short
  split
  · apply after_stacktop (by simp); intro _ _
    apply after_require; intro _
    exact safe_pure small
  · exact safe_pure (small.cons short)

lemma withinOp_safe (small : Small stack) : Safe Small (withinOp fRequireMinimal stack) := by
  apply after_top (by decide); intro enough vch1 _
  apply (toScriptNum_safe (by omega)).bind; intro bn1 _
  apply after_stacktop (by omega); intro vch2 _
  apply (toScriptNum_safe (by omega)).bind; intro bn2 _
  apply after_stacktop (by omega); intro vch3 _
  apply (toScriptNum_safe (by omega)).bind; intro bn3 _
  apply small.after_pop (by omega); intro first _ small
  apply small.after_pop (by omega); intro second _ small
  apply small.after_pop (by omega); intro third _ small
  exact safe_pure (small.cons vchBool_small)

lemma hashValue_small {op : HashOp} : (hashValue crypto op vch).length ≤ MAX_SCRIPT_ELEMENT_SIZE := by
  cases op <;> simp [hashValue, Uint160.size, Uint256.size, MAX_SCRIPT_ELEMENT_SIZE]

lemma hashOp_safe {op : HashOp} (small : Small stack) : Safe Small (hashOp crypto op stack) := by
  apply after_top (by decide); intro enough vch _
  apply small.after_pop enough; intro rest _ small
  exact safe_pure (small.cons hashValue_small)

/-! Signature opcodes. -/

section Machine
variable {sigversion : SigVersion}

lemma require_safe : Safe (fun _ => True) (require condition error : Eval Unit) :=
  safe_require.mono fun _ _ => trivial

lemma checkSignatureEncoding_safe : Safe (fun _ => True) (checkSignatureEncoding crypto flags vchSig) := by
  unfold checkSignatureEncoding
  split
  · exact safe_pure trivial
  split
  · exact require_safe
  apply after_require; intro _
  apply bind (?_ : Safe (fun _ => True) _)
  · intro _ _
    exact require_safe
  split
  · unfold isLowDERSignature
    split
    · exact safe_pure trivial
    · apply after_require; intro _
      exact require_safe
  · exact safe_pure trivial

lemma checkPubKeyEncoding_safe : Safe (fun _ => True) (checkPubKeyEncoding flags sigversion vchPubKey) := by
  apply after_require; intro _
  exact require_safe

lemma checkLockTimeVerify_safe : Safe (fun _ => True) (checkLockTimeVerify flags checker stack) := by
  unfold checkLockTimeVerify
  split
  · exact safe_pure trivial
  apply after_top (by decide); intro enough vch _
  apply (toScriptNum_safe (by omega)).bind; intro nLockTime _
  apply after_require; intro _
  exact require_safe

lemma checkSequenceVerify_safe : Safe (fun _ => True) (checkSequenceVerify flags checker stack) := by
  unfold checkSequenceVerify
  split
  · exact safe_pure trivial
  apply after_top (by decide); intro enough vch _
  apply (toScriptNum_safe (by omega)).bind; intro nSequence _
  apply after_require; intro _
  split
  · exact safe_pure trivial
  · exact require_safe

lemma ifOp_safe (small : Small stack) :
    Safe (fun result => Small result.2) (ifOp flags sigversion negated stack) := by
  apply after_top (by decide); intro enough vch _
  apply after_require; intro _
  apply after_require; intro _
  apply small.after_pop enough; intro rest _ small
  exact safe_pure small

lemma dropSignature_safe (short : scriptCode.length ≤ MAX_SCRIPT_SIZE) :
    Safe (fun code => code.length ≤ MAX_SCRIPT_SIZE) (dropSignature flags sigversion scriptCode vchSig) := by
  have bound := findAndDelete_length scriptCode (pushData vchSig)
  unfold MAX_SCRIPT_SIZE at *
  unfold dropSignature
  split
  · generalize findAndDelete scriptCode (pushData vchSig) = deleted at bound
    apply (int32_safe (by omega) (by omega)).bind; intro _ _
    apply after_require; intro _
    exact safe_pure (by omega)
  · exact safe_pure short

lemma checkSigOp_safe (short : scriptCode.length ≤ MAX_SCRIPT_SIZE) (small : Small stack) :
    Safe Small (checkSigOp crypto flags checker sigversion verify scriptCode stack) := by
  apply after_top (by decide); intro enough vchSig _
  apply after_stacktop (by omega); intro vchPubKey _
  apply (dropSignature_safe short).bind; intro code _
  apply checkSignatureEncoding_safe.bind; intro _ _
  apply checkPubKeyEncoding_safe.bind; intro _ _
  apply after_require; intro _
  apply small.after_pop (by omega); intro first _ small
  apply small.after_pop (by omega); intro second _ small
  cases verify with
  | false => exact safe_pure (small.cons vchBool_small)
  | true =>
    apply after_require; intro _
    exact safe_pure small

def Counted (nOpCount : Int) : Prop := 0 ≤ nOpCount ∧ nOpCount ≤ MAX_OPS_PER_SCRIPT

/-- What CHECKMULTISIG knows once its counts have passed the checks. -/
structure MultiSigCounts (stack : Stack) (nOpCount nKeysCount nSigsCount i : Int) : Prop where
  counted : Counted nOpCount
  keys : 0 ≤ nKeysCount ∧ nKeysCount ≤ MAX_PUBKEYS_PER_MULTISIG
  sigs : 0 ≤ nSigsCount ∧ nSigsCount ≤ nKeysCount
  covered : i = 3 + nKeysCount + nSigsCount
  present : i ≤ stack.length

lemma multiSigCounts_safe (counted : Counted nOpCount) :
    Safe (fun (nOpCount, nKeysCount, nSigsCount, i) =>
        MultiSigCounts stack nOpCount nKeysCount nSigsCount i) (multiSigCounts flags nOpCount stack) := by
  have opsLimit : (MAX_OPS_PER_SCRIPT : Int) = 201 := rfl
  unfold Counted at *
  have keysLimit : (MAX_PUBKEYS_PER_MULTISIG : Int) = 20 := rfl
  apply after_top (by decide); intro enough vch _
  apply (toScriptNum_safe (by omega)).bind; intro keys _
  apply after_require; intro keysInside
  simp only [not_eq_true', or_eq_false_iff, decide_eq_false_iff_not] at keysInside
  apply after_int32 (by omega)
  apply after_require; intro opsInside
  simp only [not_eq_true', decide_eq_false_iff_not] at opsInside
  apply after_int32 (by omega)
  apply after_require; intro keysPresent
  simp only [not_eq_true', decide_eq_false_iff_not] at keysPresent
  apply after_stacktop (by omega); intro vch _
  apply (toScriptNum_safe (by omega)).bind; intro sigs _
  apply after_require; intro sigsInside
  simp only [not_eq_true', or_eq_false_iff, decide_eq_false_iff_not] at sigsInside
  apply after_int32 (by omega)
  apply after_require; intro sigsPresent
  simp only [not_eq_true', decide_eq_false_iff_not] at sigsPresent
  apply safe_pure
  exact ⟨⟨by omega, by omega⟩, by omega, by omega, by omega, by omega⟩

lemma dropSignatures_safe (position : 3 ≤ isig ∧ isig ≤ 23) (start : 0 ≤ k)
    (few : k + remaining ≤ 20) (present : isig + k + remaining ≤ stack.length)
    (short : scriptCode.length ≤ MAX_SCRIPT_SIZE) : Safe (fun code => code.length ≤ MAX_SCRIPT_SIZE)
      (dropSignatures flags sigversion stack isig remaining k scriptCode) := by
  induction remaining generalizing k scriptCode with
  | zero => exact safe_pure short
  | succ remaining ih =>
    apply after_int32 (by omega)
    apply after_int32 (by omega)
    apply after_stacktop (by omega); intro vchSig _
    apply (dropSignature_safe short).bind; intro code shorter
    apply after_int32 (by omega)
    exact ih (by omega) (by omega) (by omega) shorter

lemma matchSignatures_safe (fuelled : nKeysCount < fuel) (sigs : 0 ≤ nSigsCount ∧ nSigsCount ≤ nKeysCount)
    (few : nKeysCount ≤ 20) (firstSig : 1 ≤ isig ∧ isig + nSigsCount ≤ 43)
    (sigsPresent : isig + nSigsCount ≤ stack.length) (firstKey : 1 ≤ ikey ∧ ikey + nKeysCount ≤ 22)
    (keysPresent : ikey + nKeysCount ≤ stack.length) :
    Safe (fun _ => True) (matchSignatures crypto flags checker sigversion stack scriptCode fuel isig
      ikey nSigsCount nKeysCount) := by
  induction fuel generalizing isig ikey nSigsCount nKeysCount with
  | zero =>
    unfold matchSignatures
    rw [if_neg (by omega)]
    exact safe_pure trivial
  | succ fuel ih =>
    unfold matchSignatures
    split
    · apply after_stacktop (by omega); intro vchSig _
      apply after_stacktop (by omega); intro vchPubKey _
      apply checkSignatureEncoding_safe.bind; intro _ _
      apply checkPubKeyEncoding_safe.bind; intro _ _
      apply (int32If_safe (by omega) (by omega)).bind; intro isig nextSig
      apply (int32If_safe (by omega) (by omega)).bind; intro nSigsCount sigsLeft
      apply after_int32 (by omega)
      apply after_int32 (by omega)
      split
      · exact safe_pure trivial
      -- a match moves isig and nSigsCount together, so their sum never changes
      · split at nextSig <;> split at sigsLeft <;>
          exact ih (by omega) (by omega) (by omega) (by omega) (by omega) (by omega) (by omega)
    · exact safe_pure trivial

lemma popArguments_safe (enough : remaining ≤ stack.length) :
    Safe (· ⊆ stack) (popArguments flags fSuccess remaining ikey2 stack) := by
  induction remaining generalizing ikey2 stack with
  | zero => exact safe_pure (List.Subset.refl stack)
  | succ remaining ih =>
    apply after_stacktop (by omega); intro vch _
    apply after_require; intro _
    apply (popstack_safe (by omega)).bind; intro rest popped
    exact (ih (by omega)).mono fun _ included => List.Subset.trans included popped.2

lemma checkMultiSigOp_safe (short : scriptCode.length ≤ MAX_SCRIPT_SIZE)
    (counted : Counted nOpCount) (small : Small stack) : Safe (fun result => Counted result.1 ∧ Small result.2)
      (checkMultiSigOp crypto flags checker sigversion verify scriptCode nOpCount stack) := by
  apply (multiSigCounts_safe counted).bind
  rintro ⟨nOpCount, nKeysCount, nSigsCount, i⟩ ⟨counted, keys, sigs, covered, present⟩
  have keysLimit : (MAX_PUBKEYS_PER_MULTISIG : Int) = 20 := rfl
  apply after_int32 (by omega)
  apply after_int32 (by omega)
  apply (dropSignatures_safe (by omega) le_rfl (by omega) (by omega) short).bind
  intro code _
  apply (matchSignatures_safe (by omega) (by omega) (by omega) (by omega) (by omega) (by omega) (by omega)).bind
  intro fSuccess _
  apply (popArguments_safe (by omega)).bind; intro rest included
  apply after_top (by decide); intro enough vch _
  apply after_require; intro _
  apply (small.sub included).after_pop enough; intro last _ kept
  cases verify with
  | false => exact safe_pure ⟨counted, kept.cons vchBool_small⟩
  | true =>
    apply after_require; intro _
    exact safe_pure ⟨counted, kept⟩

/-! The whole interpreter. -/

structure SafeState (state : EvalState) : Prop where
  small : Small state.stack
  smallAlt : Small state.altstack
  counted : Counted state.nOpCount
  short : state.pbegincodehash.length ≤ MAX_SCRIPT_SIZE

lemma SafeState.withStack (safe : SafeState state) (small : Small stack) : SafeState { state with stack } :=
  ⟨small, safe.smallAlt, safe.counted, safe.short⟩

lemma SafeState.withExec (safe : SafeState state) (vfExec : List Bool) : SafeState { state with vfExec } :=
  ⟨safe.small, safe.smallAlt, safe.counted, safe.short⟩

lemma SafeState.after_stack {next : Eval Stack} (safe : SafeState state) (small : Safe Small next) :
    Safe SafeState (do let stack ← next; pure { state with stack }) :=
  small.bind fun _ small => safe_pure (safe.withStack small)

lemma decode_number (number : decode opcode = .number value) : -0x50 ≤ value := by
  unfold decode at number
  split at number <;> try cases number
  split at number
  · cases number
  split at number
  · cases number
    omega
  · cases number

lemma execOpcode_safe (safe : SafeState state) (short : pc.length ≤ MAX_SCRIPT_SIZE) :
    Safe SafeState (execOpcode crypto flags checker sigversion fExec pc state (decode opcode)) := by
  generalize decoded : decode opcode = op
  cases op with
  | number value =>
    have bound := decode_number decoded
    apply (getvch_safe (by omega)).bind; intro vch element
    exact safe_pure (safe.withStack (safe.small.cons element))
  | OP_NOP => exact safe_pure safe
  | OP_CHECKLOCKTIMEVERIFY =>
    apply checkLockTimeVerify_safe.bind; intro _ _
    exact safe_pure safe
  | OP_CHECKSEQUENCEVERIFY =>
    apply checkSequenceVerify_safe.bind; intro _ _
    exact safe_pure safe
  | upgradableNop =>
    apply after_require; intro _
    exact safe_pure safe
  | OP_IF negated =>
    cases fExec with
    | true =>
      apply (ifOp_safe safe.small).bind
      rintro ⟨fValue, stack⟩ small
      exact safe_pure ((safe.withStack small).withExec _)
    | false => exact safe_pure (safe.withExec _)
  | OP_ELSE =>
    unfold execOpcode
    dsimp only
    split
    · exact safe_fail
    · exact safe_pure (safe.withExec _)
  | OP_ENDIF =>
    unfold execOpcode
    dsimp only
    split
    · exact safe_fail
    · exact safe_pure (safe.withExec _)
  | OP_VERIFY =>
    apply after_top (by decide); intro enough vch _
    apply after_require; intro _
    apply safe.small.after_pop enough; intro rest _ small
    exact safe_pure (safe.withStack small)
  | OP_RETURN => exact safe_fail
  | stack op =>
    apply (stackOp_safe safe.small safe.smallAlt).bind
    rintro ⟨stack, altstack⟩ ⟨small, smallAlt⟩
    exact safe_pure ⟨small, smallAlt, safe.counted, safe.short⟩
  | OP_PICK roll => exact safe.after_stack (pickOp_safe safe.small)
  | OP_EQUAL verify => exact safe.after_stack (equalOp_safe safe.small)
  | unary op => exact safe.after_stack (unaryOp_safe safe.small)
  | binary op => exact safe.after_stack (binaryOp_safe safe.small)
  | OP_WITHIN => exact safe.after_stack (withinOp_safe safe.small)
  | hash op => exact safe.after_stack (hashOp_safe safe.small)
  | OP_CODESEPARATOR => exact safe_pure ⟨safe.small, safe.smallAlt, safe.counted, short⟩
  | OP_CHECKSIG verify => exact safe.after_stack (checkSigOp_safe safe.short safe.small)
  | OP_CHECKMULTISIG verify =>
    apply (checkMultiSigOp_safe safe.short safe.counted safe.small).bind
    rintro ⟨nOpCount, stack⟩ ⟨counted, small⟩
    exact safe_pure ⟨small, safe.smallAlt, counted, safe.short⟩
  | other => exact safe_fail

lemma checkOpcode_safe (counted : Counted nOpCount) :
    Safe (fun nOpCount => Counted nOpCount ∧ vchPushValue.length ≤ MAX_SCRIPT_ELEMENT_SIZE)
      (checkOpcode flags sigversion nOpCount opcode vchPushValue) := by
  have opsLimit : (MAX_OPS_PER_SCRIPT : Int) = 201 := rfl
  unfold Counted at *
  apply after_check; intro small
  apply (int32If_safe (by omega) (by omega)).bind; intro nOpCount next
  apply after_require; intro inside
  apply after_require; intro _
  apply after_require; intro _
  refine safe_pure ⟨?_, small⟩
  by_cases counts : opcode > OP_16
  · simp only [counts, decide_true, Bool.true_and, not_eq_true', decide_eq_false_iff_not] at inside
    omega
  · simp only [counts, decide_false, false_eq_true, if_false] at next
    omega

lemma runOpcode_safe (safe : SafeState state) (small : vchPushValue.length ≤ MAX_SCRIPT_ELEMENT_SIZE)
    (short : pc.length ≤ MAX_SCRIPT_SIZE) : Safe SafeState
      (runOpcode crypto flags checker sigversion fExec state opcode vchPushValue pc) := by
  unfold runOpcode
  split
  · apply after_require; intro _
    exact safe_pure (safe.withStack (safe.small.cons small))
  split
  · exact execOpcode_safe safe short
  · exact safe_pure safe

def withinStackSize (state : EvalState) : Prop := state.stack.length + state.altstack.length ≤ MAX_STACK_SIZE

lemma evalStep_safe (safe : SafeState state) (short : pc.length ≤ MAX_SCRIPT_SIZE) :
    Safe (fun state => SafeState state ∧ withinStackSize state)
      (evalStep crypto flags checker sigversion state opcode vchPushValue pc) := by
  apply (checkOpcode_safe safe.counted).bind
  rintro nOpCount ⟨counted, small⟩
  have start : SafeState { state with nOpCount } := ⟨safe.small, safe.smallAlt, counted, safe.short⟩
  apply (runOpcode_safe start small short).bind
  intro state safe
  apply after_check; intro within
  exact safe_pure ⟨safe, within⟩

/-- The loop ends within its fuel and keeps the invariant; the stack limit holds after it
if it held before. -/
lemma evalLoop_safe (fuelled : pc.length ≤ fuel) (short : pc.length ≤ MAX_SCRIPT_SIZE) (safe : SafeState state) :
    Safe (fun final => SafeState final ∧ (withinStackSize state → withinStackSize final))
      (evalLoop crypto flags checker sigversion fuel pc state) := by
  induction fuel generalizing pc state with
  | zero =>
    have atEnd : pc.isEmpty = true := by
      rw [isEmpty_iff_length_eq_zero]
      omega
    unfold evalLoop
    rw [if_pos atEnd]
    exact safe_pure ⟨safe, id⟩
  | succ fuel ih =>
    unfold evalLoop
    split
    · exact safe_pure ⟨safe, id⟩
    split
    · exact safe_fail
    next opcode vchPushValue rest read =>
      have shorter := getOp_length read
      apply (evalStep_safe safe (by omega)).bind
      rintro next ⟨safe, within⟩
      apply (ih (by omega) (by omega) safe).mono
      rintro final ⟨safe, kept⟩
      exact ⟨safe, fun _ => kept within⟩

lemma evalScript_invariant {script : Bytes} (small : Small stack) :
    Safe (fun final => SafeState final ∧ (stack.length ≤ MAX_STACK_SIZE → withinStackSize final))
      (evalScript crypto flags checker sigversion stack script) := by
  apply after_check; intro short
  have start : SafeState { stack, pbegincodehash := script } :=
    ⟨small, small_nil, ⟨Int.le_refl 0, Int.natCast_nonneg _⟩, short⟩
  apply (evalLoop_safe le_rfl short start).bind
  rintro final ⟨safe, kept⟩
  apply after_require; intro _
  exact safe_pure ⟨safe, kept⟩

end Machine

/-! VerifyScript. -/

section Verify
lemma requireTrue_safe : Safe (fun _ => True) (requireTrue stack) := by
  apply after_require; intro some_element
  have enough : 0 < stack.length := length_pos_iff.mpr (by simpa using some_element)
  apply after_stacktop (by omega); intro _ _
  exact require_safe

lemma witnessScript_safe {program : Bytes} : Safe (fun _ => True) (witnessScript crypto witness program) := by
  unfold witnessScript
  split
  · split
    · exact safe_fail
    · apply after_require; intro _
      exact safe_pure trivial
  split
  · apply after_require; intro _
    exact safe_pure trivial
  · exact safe_fail

lemma verifyWitness_safe {script : Bytes}
    : Safe (fun _ => True) (verifyWitness crypto flags checker witness script malleated malleatedError stack) := by
  unfold verifyWitness
  split
  · exact safe_pure trivial
  next witversion program _ =>
    apply after_require; intro _
    refine bind (?_ : Safe (fun _ => True) _) fun _ _ => safe_pure trivial
    unfold verifyWitnessProgram
    split
    · apply witnessScript_safe.bind
      rintro ⟨scriptPubKey, stack⟩ _
      apply after_require; intro bounded
      have small : Small stack := by simpa [all_eq_true, Small] using bounded
      apply (evalScript_invariant small).bind
      intro state _
      apply after_require; intro single
      rw [beq_iff_eq] at single
      apply after_stacktop (by omega); intro _ _
      exact require_safe
    · exact require_safe

/-- A P2SH output script starts with HASH160, which needs an argument. -/
lemma payToScriptHash_needs_argument (p2sh : isPayToScriptHash scriptPubKey = true)
    (done : evalScript crypto flags checker .BASE stack scriptPubKey = .ok state) : stack ≠ [] := by
  rintro rfl
  cases scriptPubKey with
  | nil => cases p2sh
  | cons opcode rest =>
    have first : opcode = OP_HASH160 := by
      simp only [isPayToScriptHash, and_eq_true, beq_iff_eq] at p2sh
      exact p2sh.1.1.2
    subst first
    have fails : evalLoop crypto flags checker .BASE (OP_HASH160 :: rest).length
        (OP_HASH160 :: rest) { stack := [], pbegincodehash := OP_HASH160 :: rest }
        = fail .INVALID_STACK_OPERATION := rfl
    unfold evalScript at done
    rw [fails] at done
    cases sized : decide ((OP_HASH160 :: rest).length ≤ MAX_SCRIPT_SIZE) <;> rw [sized] at done <;> cases done

lemma verifyP2SH_safe (some_element : stackCopy ≠ []) (small : Small stackCopy) : Safe (fun _ => True)
      (verifyP2SH crypto flags checker witness scriptSig hadWitness stackCopy) := by
  apply after_require; intro _
  cases stackCopy with
  | nil => exact absurd rfl some_element
  | cons pubKey2 stack =>
    have rest := small.sub (subset_cons_self pubKey2 stack)
    apply (evalScript_invariant rest).bind; intro state _
    apply requireTrue_safe.bind; intro _ _
    split
    · apply verifyWitness_safe.bind
      intro _ _
      exact safe_pure trivial
    · exact safe_pure trivial

lemma verifyStacks_safe :
    Safe (fun _ => True) (verifyStacks crypto flags checker scriptSig scriptPubKey witness) := by
  apply after_require; intro _
  apply (evalScript_invariant small_nil).bind
  rintro sigState ⟨sigSafe, _⟩
  apply (evalScript_invariant sigSafe.small).bind_ok
  intro state done _
  apply requireTrue_safe.bind; intro _ _
  apply bind (?_ : Safe (fun _ => True) _)
  · rintro ⟨hadWitness, stack⟩ _
    dsimp only
    split
    next p2sh =>
      rw [and_eq_true] at p2sh
      have argument := payToScriptHash_needs_argument p2sh.2 done
      exact verifyP2SH_safe argument sigSafe.small
    next => exact safe_pure trivial
  split
  · exact verifyWitness_safe
  · exact safe_pure trivial

variable {fault : ScriptFault}

lemma checkCleanStack_fault
    (faults : checkCleanStack flags stack = .error (.fault fault)) : fault = .flagCombination := by
  unfold checkCleanStack at faults
  split at faults
  · cases faults
  split at faults
  · cases faults
    rfl
  · exact absurd faults (require_safe.not_fault fault)

lemma checkUnexpectedWitness_fault
    (faults : checkUnexpectedWitness flags witness hadWitness = .error (.fault fault)) :
    fault = .flagCombination := by
  unfold checkUnexpectedWitness at faults
  split at faults
  · cases faults
  split at faults
  · cases faults
    rfl
  · exact absurd faults (require_safe.not_fault fault)

/-- The only assertions VerifyScript can run into are those on flag combinations. -/
lemma verifyScript_fault (faults : verifyScript crypto flags checker scriptSig scriptPubKey witness
      = .error (.fault fault)) : fault = .flagCombination := by
  rcases fault_of_bind faults with early | ⟨⟨hadWitness, stack⟩, later⟩
  · exact absurd early (verifyStacks_safe.not_fault fault)
  rcases fault_of_bind later with clean | ⟨_, expected⟩
  · exact checkCleanStack_fault clean
  · exact checkUnexpectedWitness_fault expected

end Verify

/-- EvalScript never faults, a successful run respects the stack limits, and the
assertion of the P2SH branch of VerifyScript cannot fail. -/
theorem evalScript_never_faults (crypto : Crypto) (checker : BaseSignatureChecker) :
    (∀ (flags : ScriptFlags) (sigversion : SigVersion) (stack : Stack) (script : Bytes),
      stack.length ≤ 1000 → (∀ vch ∈ stack, vch.length ≤ 2048) →
      (∀ fault, evalScript crypto flags checker sigversion stack script ≠ .error (.fault fault)) ∧
      (∀ final, evalScript crypto flags checker sigversion stack script = .ok final →
        final.stack.length + final.altstack.length ≤ 1000 ∧
        ∀ vch ∈ final.stack ++ final.altstack, vch.length ≤ 2048)) ∧
    (∀ (flags : ScriptFlags) (scriptSig scriptPubKey : Bytes) (witness : List Bytes),
      verifyScript crypto flags checker scriptSig scriptPubKey witness ≠ .error (.fault .p2shStackEmpty)) := by
  constructor
  · intro flags sigversion stack script few small
    refine ⟨(evalScript_invariant small).not_fault, ?_⟩
    intro final done
    obtain ⟨kept, within⟩ := (evalScript_invariant small).of_ok done
    refine ⟨within few, ?_⟩
    intro vch member
    rcases mem_append.mp member with member | member
    · exact kept.small vch member
    · exact kept.smallAlt vch member
  · intro flags scriptSig scriptPubKey witness faults
    cases verifyScript_fault faults

theorem evalScript_never_faults_add : ([[3], [2]] : Stack).length ≤ 1000 ∧
    ∀ fault, evalScript Crypto.zeros STANDARD_SCRIPT_VERIFY_FLAGS acceptingChecker .BASE [[3], [2]]
      [0x93] ≠ .error (.fault fault) :=
  ⟨by decide, ((evalScript_never_faults Crypto.zeros acceptingChecker).1
    STANDARD_SCRIPT_VERIFY_FLAGS .BASE [[3], [2]] [0x93] (by decide) (by decide)).1⟩

end Dragonchain.Script
