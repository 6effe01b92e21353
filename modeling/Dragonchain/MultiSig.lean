import Dragonchain.ScriptRuns

/-!
What OP_CHECKMULTISIG decides. Its loop gives every signature the first key left that
verifies it; the first key left is as good a choice as any, so the loop succeeds exactly
when the signatures can be given keys in strictly increasing positions.
-/

namespace Dragonchain.Script

open Outcome Nat

variable {m n k fuel s remaining : Nat} {stack rest : Stack}
  {nOpCount i nKeys nSigs value change result ikey2 isig ikey : Int} {code vch scriptCode : Bytes}
  {fOk fSuccess : Bool}

/-- Each of `m` signatures verifies under its own of `n` keys, in the order of the keys. -/
def Assigned (verifies : Nat → Nat → Prop) (m n : Nat) : Prop :=
  ∃ key : Nat → Nat, StrictMonoOn key (Set.Iio m) ∧ ∀ sig < m, key sig < n ∧ verifies sig (key sig)

section Assignment
variable {verifies : Nat → Nat → Prop}

lemma Assigned.le (assigned : Assigned verifies m n) : m ≤ n := by
  obtain ⟨key, increasing, valid⟩ := assigned
  have late (sig : Nat) (inside : sig < m) : sig ≤ key sig := by
    induction sig with
    | zero => exact zero_le _
    | succ sig ih =>
      have next := increasing (Set.mem_Iio.mpr (lt_of_succ_lt inside)) (Set.mem_Iio.mpr inside) (lt_succ_self sig)
      omega
  by_contra more
  have last := late n (by omega)
  have bound := (valid n (by omega)).1
  omega

lemma assigned_succ : Assigned (fun sig key => verifies sig (key + 1)) m n ↔
    ∃ key : Nat → Nat, StrictMonoOn key (Set.Iio m) ∧
      ∀ sig < m, 0 < key sig ∧ key sig < n + 1 ∧ verifies sig (key sig) := by
  constructor
  · rintro ⟨key, increasing, valid⟩
    refine ⟨fun sig => key sig + 1, fun _ a _ b less => succ_lt_succ (increasing a b less), ?_⟩
    intro sig inside
    exact ⟨succ_pos _, succ_lt_succ (valid sig inside).1, (valid sig inside).2⟩
  · rintro ⟨key, increasing, valid⟩
    refine ⟨fun sig => key sig - 1, fun a aIn b bIn less => ?_, fun sig inside => ?_⟩
    · exact Nat.sub_lt_sub_right (valid a aIn).1 (increasing aIn bIn less)
    · obtain ⟨positive, bound, found⟩ := valid sig inside
      rw [← Nat.sub_add_cancel positive] at found
      exact ⟨Nat.sub_lt_right_of_lt_add positive bound, found⟩

/-- The exchange argument: a signature the first key verifies may as well have that key. -/
lemma assigned_first (first : verifies 0 0) : Assigned verifies (m + 1) (n + 1) ↔
    Assigned (fun sig key => verifies (sig + 1) (key + 1)) m n := by
  rw [assigned_succ]
  constructor
  · rintro ⟨key, increasing, valid⟩
    refine ⟨fun sig => key (sig + 1), fun a aIn b bIn less => ?_, fun sig inside => ⟨?_, ?_⟩⟩
    · exact increasing (succ_lt_succ aIn) (succ_lt_succ bIn) (succ_lt_succ less)
    · exact zero_lt_of_lt (increasing (succ_pos m) (succ_lt_succ inside) (succ_pos sig))
    · exact valid (sig + 1) (succ_lt_succ inside)
  · rintro ⟨key, increasing, valid⟩
    refine ⟨fun sig => if sig = 0 then 0 else key (sig - 1), ?_, ?_⟩
    · rintro (_ | a) aIn (_ | b) bIn less
      · exact absurd less (lt_irrefl 0)
      · exact (valid b (lt_of_succ_lt_succ bIn)).1
      · exact absurd less (Nat.not_lt_zero _)
      · exact increasing (lt_of_succ_lt_succ aIn) (lt_of_succ_lt_succ bIn) (lt_of_succ_lt_succ less)
    · rintro (_ | sig) inside
      · exact ⟨succ_pos n, first⟩
      · exact (valid sig (lt_of_succ_lt_succ inside)).2

lemma assigned_skip (first : ¬ verifies 0 0) : Assigned verifies (m + 1) (n + 1) ↔
    Assigned (fun sig key => verifies sig (key + 1)) (m + 1) n := by
  rw [assigned_succ]
  constructor
  · rintro ⟨key, increasing, valid⟩
    have start : 0 < key 0 := by
      refine Nat.pos_of_ne_zero fun zero => first ?_
      have found := (valid 0 (succ_pos m)).2
      rwa [zero] at found
    refine ⟨key, increasing, fun sig inside => ⟨?_, valid sig inside⟩⟩
    exact lt_of_lt_of_le start (increasing.monotoneOn (succ_pos m) inside (zero_le sig))
  · rintro ⟨key, increasing, valid⟩
    exact ⟨key, increasing, fun sig inside => (valid sig inside).2⟩

end Assignment

variable {crypto : Crypto} {flags : ScriptFlags} {checker : BaseSignatureChecker}
  {sigversion : SigVersion}

lemma int32_eq_ok : int32 value = .ok result ↔ value = result ∧ -2147483648 ≤ value ∧ value ≤ 2147483647 := by
  rw [int32]
  split_ifs with fits
  · rw [pure_eq_ok, and_iff_left fits]
  · exact iff_of_false (by rintro ⟨⟩) fun found => fits found.2

lemma stacktop_at (found : stack[k]? = some vch) (index : i = -((k : Int) + 1)) : stacktop stack i = .ok vch := by
  have negative : i < 0 := by omega
  have position : (-i - 1).toNat = k := by omega
  rw [stacktop, if_pos negative, position, found]
  rfl

/-- The arguments CHECKMULTISIG accepts: the count of the keys on top, and below the keys the
count of the signatures, with all of them and one more element on the stack. -/
structure MultiSigArguments (flags : ScriptFlags) (stack : Stack) (nKeys nSigs : Int) : Prop where
  keys : ∃ vch bn, stacktop stack (-1) = .ok vch ∧ toScriptNum vch (flags .MINIMALDATA) = .ok bn ∧ nKeys = getint bn
  sigs : ∃ vch bn, stacktop stack (-(2 + nKeys)) = .ok vch ∧
    toScriptNum vch (flags .MINIMALDATA) = .ok bn ∧ nSigs = getint bn
  keysRange : 0 ≤ nKeys ∧ nKeys ≤ MAX_PUBKEYS_PER_MULTISIG
  sigsRange : 0 ≤ nSigs ∧ nSigs ≤ nKeys
  present : nKeys + nSigs + 3 ≤ stack.length

lemma multiSigCounts_eq_ok {ops : Int} : multiSigCounts flags nOpCount stack = .ok (ops, nKeys, nSigs, i) ↔
    MultiSigArguments flags stack nKeys nSigs ∧ i = nKeys + nSigs + 3 ∧ ops = nOpCount + nKeys ∧
      -2147483648 ≤ ops ∧ ops ≤ MAX_OPS_PER_SCRIPT := by
  have most : MAX_PUBKEYS_PER_MULTISIG = 20 := rfl
  have limit : MAX_OPS_PER_SCRIPT = 201 := rfl
  simp only [multiSigCounts, bind_eq_ok, require_eq_ok, exists_const, int32_eq_ok, pure_eq_ok, Prod.mk.injEq,
    Bool.not_eq_true', Bool.or_eq_false_iff, decide_eq_false_iff_not, decide_eq_true_eq]
  constructor
  · rintro ⟨_, vchKeys, topKeys, bnKeys, readKeys, keysRange, _, ⟨rfl, opsRange⟩, opsLimit, _, ⟨rfl, _⟩, _,
      vchSigs, topSigs, bnSigs, readSigs, sigsRange, _, ⟨rfl, _⟩, present, rfl, rfl, rfl, rfl⟩
    exact ⟨⟨⟨vchKeys, bnKeys, topKeys, readKeys, rfl⟩, ⟨vchSigs, bnSigs, topSigs, readSigs, rfl⟩,
      by omega, by omega, by omega⟩, by omega, rfl, by omega, by omega⟩
  · rintro ⟨⟨⟨vchKeys, bnKeys, topKeys, readKeys, rfl⟩, ⟨vchSigs, bnSigs, topSigs, readSigs, rfl⟩,
      keysRange, sigsRange, present⟩, rfl, rfl, low, high⟩
    exact ⟨by omega, vchKeys, topKeys, bnKeys, readKeys, by omega, _, ⟨rfl, by omega⟩, by omega, _,
      ⟨rfl, by omega⟩, by omega, vchSigs, topSigs, bnSigs, readSigs, by omega, _, ⟨rfl, by omega⟩, by omega,
      rfl, rfl, rfl, by omega⟩

/-- A turn uses up the first key left, and with it the first signature left if they match. -/
lemma matchSignatures_turn (few : m ≤ n) (inside : s < stack.length ∧ k < stack.length)
    (near : s < 100 ∧ k < 100 ∧ n < 100) :
    matchSignatures crypto flags checker sigversion stack code (fuel + 1) ↑(s + 1) ↑(k + 1) ↑(m + 1) ↑(n + 1) = (do
      checkSignatureEncoding crypto flags (stack.getD s [])
      checkPubKeyEncoding flags sigversion (stack.getD k [])
      if checker.checkSig (stack.getD s []) (stack.getD k []) code sigversion then
        matchSignatures crypto flags checker sigversion stack code fuel ↑(s + 1 + 1) ↑(k + 1 + 1) m n
      else if n < m + 1 then pure false
      else matchSignatures crypto flags checker sigversion stack code fuel ↑(s + 1) ↑(k + 1 + 1) ↑(m + 1) n) := by
  have top {k : Nat} (inside : k < stack.length) : stacktop stack (-↑(k + 1)) = pure (stack.getD k []) :=
    stacktop_at (k := k) (by simp [inside]) (by omega)
  have fits {value result : Int} (same : value = result) (low : -1 ≤ value) (high : value ≤ 200) :
      int32 value = pure result := int32_eq_ok.mpr ⟨same, by omega, by omega⟩
  rw [matchSignatures, if_pos (by omega), top inside.1, top inside.2]
  simp only [pure_bind, int32If, fits (by omega : (↑(k + 1) + 1 : Int) = ↑(k + 1 + 1)) (by omega) (by omega),
    fits (by omega : (↑(s + 1) + 1 : Int) = ↑(s + 1 + 1)) (by omega) (by omega),
    fits (by omega : (↑(m + 1) + -1 : Int) = m) (by omega) (by omega),
    fits (by omega : (↑(n + 1) - 1 : Int) = n) (by omega) (by omega)]
  cases checker.checkSig (stack.getD s []) (stack.getD k []) code sigversion with
  | false => simp only [Bool.false_eq_true, if_false, pure_bind, gt_iff_lt, Nat.cast_lt]
  | true => simp [not_lt.mpr few]

/-- The verdict of the loop, and that it gives one where the encodings are accepted. -/
lemma matchSignatures_spec (turns : n < fuel) (few : m ≤ n) (near : s + m < 100 ∧ k + n < 100)
    (inside : s + m ≤ stack.length ∧ k + n ≤ stack.length) :
    (∀ fSuccess, matchSignatures crypto flags checker sigversion stack code fuel ↑(s + 1) ↑(k + 1) m n =
        .ok fSuccess → (fSuccess = true ↔ Assigned (fun sig key => checker.checkSig (stack.getD (s + sig) [])
          (stack.getD (k + key) []) code sigversion = true) m n)) ∧
      ((∀ sig, s ≤ sig → sig < s + m → checkSignatureEncoding crypto flags (stack.getD sig []) = .ok ()) →
        (∀ key, k ≤ key → key < k + n → checkPubKeyEncoding flags sigversion (stack.getD key []) = .ok ()) →
        ∃ fSuccess, matchSignatures crypto flags checker sigversion stack code fuel ↑(s + 1) ↑(k + 1) m n =
          .ok fSuccess) := by
  induction fuel generalizing s k m n with
  | zero => omega
  | succ fuel ih =>
    cases m with
    | zero =>
      have none : matchSignatures crypto flags checker sigversion stack code (fuel + 1) ↑(s + 1) ↑(k + 1) 0 n =
        .ok true := rfl
      refine ⟨fun fSuccess ran => ?_, fun _ _ => ⟨true, none⟩⟩
      cases none.symm.trans ran
      exact iff_of_true rfl ⟨id, fun _ _ _ _ less => less, fun _ below => absurd below (Nat.not_lt_zero _)⟩
    | succ m =>
      obtain ⟨n, rfl⟩ := Nat.exists_eq_succ_of_ne_zero (by omega : n ≠ 0)
      rw [matchSignatures_turn (by omega) (by omega) (by omega)]
      have matched := ih (s := s + 1) (k := k + 1) (m := m) (n := n) (by omega) (by omega) (by omega) (by omega)
      have onward (kept : ¬ n < m + 1) :=
        ih (s := s) (k := k + 1) (m := m + 1) (n := n) (by omega) (by omega) (by omega) (by omega)
      simp only [add_right_comm _ 1, add_assoc _ _ 1] at matched onward
      refine ⟨fun fSuccess ran => ?_, fun signatures keys => ?_⟩
      · obtain ⟨_, _, ran⟩ := bind_eq_ok.mp ran
        obtain ⟨_, _, ran⟩ := bind_eq_ok.mp ran
        split_ifs at ran with first lost
        · rw [assigned_first first]
          exact matched.1 fSuccess ran
        · cases ran
          exact iff_of_false Bool.false_ne_true fun assigned => by
            have := ((assigned_skip first).mp assigned).le
            omega
        · rw [assigned_skip first]
          exact (onward lost).1 fSuccess ran
      · rw [signatures s le_rfl (by omega), keys k le_rfl (by omega)]
        have later (key : Nat) (low : k + 1 ≤ key) (high : key < k + (n + 1)) := keys key (by omega) high
        show ∃ fSuccess, ite _ _ _ = _
        split_ifs with first lost
        · exact matched.2 (fun sig low high => signatures sig (by omega) (by omega))
            fun key low high => later key (by omega) (by omega)
        · exact ⟨false, rfl⟩
        · exact (onward lost).2 signatures fun key low high => later key (by omega) (by omega)

lemma popArguments_ok
    (ran : popArguments flags fSuccess remaining ikey2 stack = .ok rest) : rest = stack.drop remaining := by
  induction remaining generalizing ikey2 stack with
  | zero =>
    cases ran
    rfl
  | succ remaining ih =>
    obtain ⟨vch, _, ran⟩ := bind_eq_ok.mp ran
    obtain ⟨_, ran⟩ := require_bind_eq_ok.mp ran
    obtain ⟨left, popped, ran⟩ := bind_eq_ok.mp ran
    cases stack with
    | nil => cases popped
    | cons top below =>
      cases popped
      exact ih ran

lemma popArguments_accepts (places : ikey2 = n)
    (enough : remaining ≤ stack.length) (nullfail : flags .NULLFAIL = true → fSuccess = false →
      ∀ sig, n ≤ sig → sig < remaining → stack.getD sig [] = []) :
    popArguments flags fSuccess remaining ikey2 stack = .ok (stack.drop remaining) := by
  induction remaining generalizing n ikey2 stack with
  | zero => rfl
  | succ remaining ih =>
    cases stack with
    | nil => cases enough
    | cons top below =>
      refine bind_eq_ok.mpr ⟨top, rfl, require_bind_eq_ok.mpr ⟨?_, ih (n := n - 1) ?_ (le_of_succ_le_succ enough) ?_⟩⟩
      · rw [Bool.not_eq_true', Bool.eq_false_iff]
        intro violated
        simp only [Bool.and_eq_true, Bool.not_eq_true', beq_iff_eq, bne_iff_ne, ne_eq,
          List.length_eq_zero_iff] at violated
        obtain ⟨⟨⟨failed, strict⟩, start⟩, full⟩ := violated
        exact full (nullfail strict failed 0 (by omega) (succ_pos remaining))
      · split_ifs <;> omega
      · intro strict failed sig low high
        exact nullfail strict failed (sig + 1) (by omega) (by omega)

/-- What CHECKMULTISIG asks of the elements it takes, once it has their numbers. -/
structure MultiSigAccepted (crypto : Crypto) (flags : ScriptFlags) (checker : BaseSignatureChecker)
    (sigversion : SigVersion) (stack : Stack) (code : Bytes) (n m : Nat) : Prop where
  signatures : ∀ i, n + 2 ≤ i → i < n + 2 + m → checkSignatureEncoding crypto flags (stack.getD i []) = .ok ()
  keys : ∀ i, 1 ≤ i → i < 1 + n → checkPubKeyEncoding flags sigversion (stack.getD i []) = .ok ()
  nulldummy : flags .NULLDUMMY = true → stack.getD (n + m + 2) [] = []
  nullfail : flags .NULLFAIL = true → (∀ i, n + 2 ≤ i → i < n + 2 + m → stack.getD i [] = []) ∨
    Assigned (fun sig key => checker.checkSig (stack.getD (n + 2 + sig) []) (stack.getD (1 + key) []) code
      sigversion = true) m n

lemma checkMultiSigOp_accepts (arguments : MultiSigArguments flags stack n m)
    (started : 0 ≤ nOpCount) (room : nOpCount + n ≤ MAX_OPS_PER_SCRIPT)
    (dropped : dropSignatures flags sigversion stack (n + 3) m 0 scriptCode = .ok code)
    (accepted : MultiSigAccepted crypto flags checker sigversion stack code n m) :
    ∃ result, checkMultiSigOp crypto flags checker sigversion false scriptCode nOpCount stack = .ok result := by
  have most : MAX_PUBKEYS_PER_MULTISIG = 20 := rfl
  have keysRange := arguments.keysRange
  have sigsRange := arguments.sigsRange
  have present := arguments.present
  have few : m ≤ n := by omega
  have near : n + 2 + m < 100 ∧ 1 + n < 100 := by omega
  have inside : n + 2 + m ≤ stack.length ∧ 1 + n ≤ stack.length := by omega
  obtain ⟨fSuccess, matched⟩ : ∃ fSuccess, matchSignatures crypto flags checker sigversion stack code
      (n + 1) (n + 3) 2 m n = .ok fSuccess :=
    (matchSignatures_spec (lt_succ_self n) few near inside).2 accepted.signatures accepted.keys
  have popped : popArguments flags fSuccess (n + m + 3 - 1 : Int).toNat (n + 2) stack =
      .ok (stack.drop (n + m + 2)) := by
    rw [show (n + m + 3 - 1 : Int).toNat = n + m + 2 by omega]
    refine popArguments_accepts (n := n + 2) rfl (by omega) fun strict failed => ?_
    rcases accepted.nullfail strict with empty | assigned
    · exact fun i low high => empty i low (by omega)
    · rw [((matchSignatures_spec (lt_succ_self n) few near inside).1 fSuccess matched).mpr assigned] at failed
      cases failed
  obtain ⟨dummy, rest, left⟩ : ∃ dummy rest, stack.drop (n + m + 2) = dummy :: rest :=
    List.exists_cons_of_ne_nil (by rw [ne_eq, List.drop_eq_nil_iff]; omega)
  have element : stack.getD (n + m + 2) [] = dummy := by
    rw [List.getD_eq_getElem?_getD, ← List.head?_drop, left]
    rfl
  refine ⟨(nOpCount + n, vchBool fSuccess :: rest),
    bind_eq_ok.mpr ⟨_, multiSigCounts_eq_ok.mpr ⟨arguments, rfl, rfl, by omega, room⟩, ?_⟩⟩
  refine bind_eq_ok.mpr ⟨_, int32_eq_ok.mpr ⟨rfl, by omega⟩, bind_eq_ok.mpr ⟨_, int32_eq_ok.mpr ⟨rfl, by omega⟩, ?_⟩⟩
  refine bind_eq_ok.mpr ⟨_, dropped, bind_eq_ok.mpr ⟨_, matched, bind_eq_ok.mpr ⟨_, popped, ?_⟩⟩⟩
  rw [left]
  refine require_bind_eq_ok.mpr ⟨by simp, bind_eq_ok.mpr ⟨dummy, rfl, require_bind_eq_ok.mpr ⟨?_, rfl⟩⟩⟩
  cases strict : flags .NULLDUMMY with
  | false => rfl
  | true =>
    rw [← element, accepted.nulldummy strict]
    rfl

/-- CHECKMULTISIG gives the verdict on an assignment of the signatures to the keys, and gives one
whenever its arguments are accepted. -/
theorem execOpcode_checkMultiSig {fExec : Bool} {pc : Bytes} {state : EvalState} :
    (∀ next, execOpcode crypto flags checker sigversion fExec pc state (.OP_CHECKMULTISIG false) = .ok next →
      ∃ (m n : Nat) (code : Bytes) (fSuccess : Bool), MultiSigArguments flags state.stack n m ∧
        dropSignatures flags sigversion state.stack (n + 3) m 0 state.pbegincodehash = .ok code ∧
        next.stack = vchBool fSuccess :: state.stack.drop (n + m + 3) ∧
        (fSuccess = true ↔ ∃ key : Nat → Nat, StrictMonoOn key (Set.Iio m) ∧
          ∀ sig < m, key sig < n ∧ checker.checkSig (state.stack.getD (n + 2 + sig) [])
            (state.stack.getD (1 + key sig) []) code sigversion = true)) ∧
    ∀ (m n : Nat) (code : Bytes), MultiSigArguments flags state.stack n m →
      0 ≤ state.nOpCount → state.nOpCount + n ≤ MAX_OPS_PER_SCRIPT →
      dropSignatures flags sigversion state.stack (n + 3) m 0 state.pbegincodehash = .ok code →
      MultiSigAccepted crypto flags checker sigversion state.stack code n m →
      ∃ next, execOpcode crypto flags checker sigversion fExec pc state (.OP_CHECKMULTISIG false) = .ok next := by
  constructor
  · intro next ran
    obtain ⟨⟨ops, left⟩, called, done⟩ := bind_eq_ok.mp ran
    cases done
    obtain ⟨⟨_, nKeys, nSigs, i⟩, counts, ran⟩ := bind_eq_ok.mp called
    obtain ⟨arguments, covered, _⟩ := multiSigCounts_eq_ok.mp counts
    obtain ⟨n, rfl⟩ := Int.eq_ofNat_of_zero_le arguments.keysRange.1
    obtain ⟨m, rfl⟩ := Int.eq_ofNat_of_zero_le arguments.sigsRange.1
    obtain ⟨ikey2, _, ran⟩ := bind_eq_ok.mp ran
    obtain ⟨isig, index, ran⟩ := bind_eq_ok.mp ran
    obtain ⟨rfl, _⟩ := int32_eq_ok.mp index
    obtain ⟨code, dropped, ran⟩ := bind_eq_ok.mp ran
    obtain ⟨fSuccess, matched, ran⟩ := bind_eq_ok.mp ran
    obtain ⟨rest, popped, ran⟩ := bind_eq_ok.mp ran
    obtain ⟨_, ran⟩ := require_bind_eq_ok.mp ran
    obtain ⟨dummy, _, ran⟩ := bind_eq_ok.mp ran
    obtain ⟨_, ran⟩ := require_bind_eq_ok.mp ran
    obtain ⟨last, poppedDummy, ran⟩ := bind_eq_ok.mp ran
    cases ran
    refine ⟨m, n, code, fSuccess, arguments, dropped, ?_, ?_⟩
    · have whole := popArguments_ok popped
      cases rest with
      | nil => cases poppedDummy
      | cons top below =>
        cases poppedDummy
        have below_eq := congrArg List.tail whole
        rw [List.tail_drop] at below_eq
        rw [show n + m + 3 = (i - 1).toNat + 1 by omega]
        exact congrArg (vchBool fSuccess :: ·) below_eq
    · have most : MAX_PUBKEYS_PER_MULTISIG = 20 := rfl
      obtain ⟨_, _, keysRange, sigsRange, present⟩ := arguments
      exact (matchSignatures_spec (s := n + 2) (k := 1) (by omega) (by omega) (by omega) (by omega)).1
        fSuccess matched
  · intro m n code arguments started room dropped accepted
    obtain ⟨result, done⟩ := checkMultiSigOp_accepts arguments started room dropped accepted
    exact ⟨_, bind_eq_ok.mpr ⟨result, done, rfl⟩⟩

theorem execOpcode_checkMultiSig_twoOfTwo : (∃ (m n : Nat) (fSuccess : Bool), ([[1]] : Stack) =
      vchBool fSuccess :: [[2], [7], [8], [2], [5], [6], []].drop (n + m + 3)) ∧
    ∃ next, execOpcode Crypto.zeros (fun _ => false) acceptingChecker .BASE true []
      ⟨[[2], [7], [8], [2], [5], [6], []], [], [], 0, []⟩ (.OP_CHECKMULTISIG false) = .ok next := by
  have ran : execOpcode Crypto.zeros (fun _ => false) acceptingChecker .BASE true []
      ⟨[[2], [7], [8], [2], [5], [6], []], [], [], 0, []⟩ (.OP_CHECKMULTISIG false) =
      .ok ⟨[[1]], [], [], 2, []⟩ := rfl
  obtain ⟨m, n, _, fSuccess, _, _, left, _⟩ := execOpcode_checkMultiSig.1 _ ran
  refine ⟨⟨m, n, fSuccess, left⟩, execOpcode_checkMultiSig.2 2 2 [] ?_ le_rfl (by decide) rfl ?_⟩
  · exact ⟨⟨[2], 2, rfl, rfl, rfl⟩, ⟨[2], 2, rfl, rfl, rfl⟩, by decide, by decide, by decide⟩
  · refine ⟨fun i low high => ?_, fun i low high => ?_, fun strict => absurd strict Bool.false_ne_true,
      fun strict => absurd strict Bool.false_ne_true⟩
    · obtain rfl | rfl : i = 4 ∨ i = 5 := by omega
      all_goals rfl
    · obtain rfl | rfl : i = 1 ∨ i = 2 := by omega
      all_goals rfl

end Dragonchain.Script
