import Dragonchain.FalconCodes
import Dragonchain.PubKey

/-!
Signature verification: crypto_sign_verify and do_verify of pqclean.cpp, verify_raw of
vrfy.cpp, is_short of common.cpp and CPubKey::Verify. The hash to a point and the product
of polynomials modulo q are the parameters of `Arithmetic`. The signature enters the check
through the salt and the polynomial it carries.
-/

namespace Dragonchain

open List

variable {x : List Int}

namespace Falcon

def NONCELEN : Nat := 40
def PUBLICKEYBYTES : Nat := 897

structure Arithmetic where
  /-- hash_to_point_ct over SHAKE256 of the nonce and the message. -/
  hashToPoint : Bytes → Bytes → List Nat
  /-- The product modulo x^n + 1 and q, which the code takes through the NTT. -/
  mulPoly : List Nat → List Nat → List Nat

def reduce (c : Int) : Nat := if c < 0 then (c + Q).toNat else c.toNat

def mqSub (x y : Nat) : Nat := if x < y then x + Q - y else x - y

def normalize (w : Nat) : Int := if w > Q / 2 then (w : Int) - Q else w

def square (z : Int) : UInt32 := UInt32.ofNat (z.natAbs * z.natAbs)

/-- The squared norm as is_short adds it up: s, and ng that keeps the bits s ever had. -/
def addNorm (state : UInt32 × UInt32) (z : Int × Int) : UInt32 × UInt32 :=
  let (s, ng) := state
  let s1 := s + square z.1
  let s2 := s1 + square z.2
  (s2, ng ||| s1 ||| s2)

def isShort (s1 s2 : List Int) (logn : Nat) : Bool :=
  let (s, ng) := (s1.zip s2).foldl addNorm (0, 0)
  let s := s ||| ((0 : UInt32) - (ng >>> 31))
  decide (s < (7085 * 12289 : UInt32) >>> UInt32.ofNat (10 - logn))

section Verify
variable (arithmetic : Arithmetic)

def verifyRaw (c0 : List Nat) (s2 : List Int) (h : List Nat) (logn : Nat) : Bool :=
  let tt := arithmetic.mulPoly (s2.map reduce) h
  let tt := tt.zipWith mqSub c0
  isShort (tt.map normalize) s2 logn

def doVerify (nonce sigbuf m pk : Bytes) : Bool :=
  if pk.getD 0 0 ≠ 9 then false
  else
    match modqDecode 9 ((pk.drop 1).take (PUBLICKEYBYTES - 1)) with
    | none => false
    | some (h, used) =>
      if used ≠ PUBLICKEYBYTES - 1 then false
      else if sigbuf.length = 0 then false
      else
        match compDecode 9 sigbuf with
        | none => false
        | some (sig, used) =>
          if used ≠ sigbuf.length then false
          else verifyRaw arithmetic (arithmetic.hashToPoint nonce m) sig h 9

def cryptoSignVerify (sig m pk : Bytes) : Bool :=
  if sig.length < 1 + NONCELEN then false
  else if sig.getD 0 0 ≠ 0x39 then false
  else doVerify arithmetic ((sig.drop 1).take NONCELEN) (sig.drop (1 + NONCELEN)) m pk

end Verify

/-! What a signature carries. -/

def salt (sig : Bytes) : Bytes := (sig.drop 1).take NONCELEN

def polynomial (sig : Bytes) : Option (List Int) := (compDecode 9 (sig.drop (1 + NONCELEN))).map Prod.fst

end Falcon

open Falcon

def CPubKey.verify (arithmetic : Arithmetic) (key : CPubKey) (hash : Uint256) (vchSig : Bytes) : Bool :=
  key.isValid && cryptoSignVerify arithmetic vchSig hash.bytes (key.bytes.drop 1)

namespace Falcon

variable (arithmetic : Arithmetic)

/-- The check on what the signature carries, without the signature. -/
def accepts (nonce : Bytes) (s2 : List Int) (m pk : Bytes) : Bool :=
  pk.getD 0 0 == 9 &&
    match modqDecode 9 ((pk.drop 1).take (PUBLICKEYBYTES - 1)) with
    | none => false
    | some (h, used) => used == PUBLICKEYBYTES - 1 && verifyRaw arithmetic (arithmetic.hashToPoint nonce m) s2 h 9

lemma compDecode_nil {logn : Nat} : compDecode logn [] ≠ some (x, 0) := by
  intro decoded
  obtain ⟨words, padding, count, _, _, stream⟩ := compDecode_iff.mp decoded
  have some := length_words_pos words (by rw [count]; exact Nat.two_pow_pos logn)
  have empty := congrArg List.length stream
  rw [BitStream.bits_nil, length_append, length_nil] at empty
  omega

lemma doVerify_iff (nonce sigbuf m pk : Bytes) :
    doVerify arithmetic nonce sigbuf m pk = true ↔
      ∃ x, compDecode 9 sigbuf = some (x, sigbuf.length) ∧ accepts arithmetic nonce x m pk = true := by
  unfold doVerify accepts
  cases modqDecode 9 ((pk.drop 1).take (PUBLICKEYBYTES - 1)) with
  | none => simp
  | some key =>
    obtain ⟨h, used⟩ := key
    cases sig : compDecode 9 sigbuf with
    | none => simp
    | some answer =>
      obtain ⟨x, length⟩ := answer
      dsimp only
      constructor
      · intro passed
        split_ifs at passed with header whole empty all
        rw [not_not] at header whole all
        refine ⟨x, by rw [all], ?_⟩
        rw [header, whole, passed]
        rfl
      · rintro ⟨x', same, passed⟩
        obtain ⟨rfl, rfl⟩ := Prod.mk.inj (Option.some.inj same)
        have full : sigbuf.length ≠ 0 := by
          intro empty
          rw [length_eq_zero_iff.mp empty] at sig
          exact compDecode_nil sig
        simp only [Bool.and_eq_true, beq_iff_eq] at passed
        obtain ⟨header, whole, verified⟩ := passed
        rw [if_neg (not_not.mpr header), if_neg (not_not.mpr whole), if_neg full,
          if_neg (not_not.mpr rfl), verified]

lemma cryptoSignVerify_iff (sig m pk : Bytes) :
    cryptoSignVerify arithmetic sig m pk = true ↔
      ∃ nonce buf x, sig = 0x39 :: (nonce ++ buf) ∧ nonce.length = NONCELEN ∧
        compDecode 9 buf = some (x, buf.length) ∧ accepts arithmetic nonce x m pk = true := by
  unfold cryptoSignVerify
  constructor
  · intro passed
    split_ifs at passed with short header
    obtain ⟨x, decoded, accepted⟩ := (doVerify_iff ..).mp passed
    refine ⟨(sig.drop 1).take NONCELEN, sig.drop (1 + NONCELEN), x, ?_, ?_, decoded, accepted⟩
    · cases sig with
      | nil => exact absurd (by decide) short
      | cons first rest =>
        rw [not_not, getD_cons_zero] at header
        rw [header, add_comm, drop_succ_cons, drop_succ_cons, drop_zero, take_append_drop]
    · rw [length_take, length_drop]
      omega
  · rintro ⟨nonce, buf, x, rfl, length, decoded, accepted⟩
    have long : ¬ (0x39 :: (nonce ++ buf)).length < 1 + NONCELEN := by
      rw [length_cons, length_append]
      omega
    rw [if_neg long, getD_cons_zero, if_neg (not_not.mpr rfl), add_comm,
      drop_succ_cons, drop_succ_cons, drop_zero, take_left' length,
      drop_left' length]
    exact (doVerify_iff ..).mpr ⟨x, decoded, accepted⟩

/-- What a signature of the right shape carries. -/
lemma carried {nonce buf : Bytes} (length : nonce.length = NONCELEN)
    (decoded : compDecode 9 buf = some (x, buf.length)) :
    salt (0x39 :: (nonce ++ buf)) = nonce ∧ polynomial (0x39 :: (nonce ++ buf)) = some x := by
  constructor
  · rw [salt, drop_succ_cons, drop_zero, take_left' length]
  · rw [polynomial, add_comm, drop_succ_cons, drop_left' length, decoded]
    rfl

end Falcon

lemma CPubKey.verify_iff (arithmetic : Arithmetic) (key : CPubKey) (hash : Uint256) (sig : Bytes) :
    key.verify arithmetic hash sig = true ↔ key.isValid = true ∧
      ∃ nonce buf x, sig = 0x39 :: (nonce ++ buf) ∧ nonce.length = NONCELEN ∧
        compDecode 9 buf = some (x, buf.length) ∧
        accepts arithmetic nonce x hash.bytes (key.bytes.drop 1) = true := by
  rw [verify, Bool.and_eq_true, cryptoSignVerify_iff]

/-- An accepted signature is the only accepted one with its salt and its polynomial exactly
when the polynomial has one code. -/
theorem CPubKey.verify_unique_iff (arithmetic : Arithmetic) (key : CPubKey) (hash : Uint256) (sig : Bytes)
    (x : List Int) (accepted : key.verify arithmetic hash sig = true) (carries : polynomial sig = some x) :
    (∀ other : Bytes, key.verify arithmetic hash other = true → salt other = salt sig →
      polynomial other = polynomial sig → other = sig) ↔ HasOneCode x := by
  obtain ⟨valid, nonce, buf, x', rfl, length, decoded, passed⟩ := (verify_iff ..).mp accepted
  obtain ⟨sameSalt, same⟩ := carried length decoded
  obtain rfl : x' = x := Option.some.inj (same.symm.trans carries)
  rw [← compDecode_unique_iff decoded, sameSalt, same]
  constructor
  · intro unique other alike
    obtain ⟨otherSalt, otherPolynomial⟩ := carried length alike
    have equal := unique (0x39 :: (nonce ++ other))
      ((verify_iff ..).mpr ⟨valid, nonce, other, x', rfl, length, alike, passed⟩) otherSalt
      otherPolynomial
    exact append_cancel_left (List.cons.inj equal).2
  · intro unique other verified otherSalt otherPolynomial
    obtain ⟨_, nonce', buf', y, rfl, length', decoded', _⟩ := (verify_iff ..).mp verified
    obtain ⟨salted, coefficients⟩ := carried length' decoded'
    obtain rfl : nonce' = nonce := salted.symm.trans otherSalt
    obtain rfl : y = x' := Option.some.inj (coefficients.symm.trans otherPolynomial)
    rw [unique buf' decoded']

/-! Closed signatures over the schoolbook product. -/

namespace Resigned

def rotate (i : Nat) (p : List Nat) : List Nat := (p.drop (p.length - i)).map (mqSub 0) ++ p.take (p.length - i)

def product (a b : List Nat) : List Nat :=
  (a.zipIdx.filter fun term => term.1 != 0).foldl
    (fun sum term => sum.zipWith (fun s c => (s + term.1 * c) % Q) (rotate term.2 b))
    (replicate b.length 0)

/-- Every message is hashed to the same point. -/
def arithmetic (coefficient : Nat) : Arithmetic := ⟨fun _ _ => replicate 512 coefficient, fun s2 h => product h s2⟩

def zeroKey : CPubKey := ⟨7 :: 9 :: replicate 896 0, by decide +kernel⟩

def ones : Bytes := 0x39 :: (replicate 40 0 ++ (replicate 64 [1, 0x80, 0xc0, 0x60, 0x30, 0x18, 0x0c, 6, 3]).flatten)

/-- A byte behind it does not give a second signature. -/
theorem ones_unique : zeroKey.verify (arithmetic 0) Uint256.null ones = true ∧
      ¬(zeroKey.verify (arithmetic 0) Uint256.null (ones ++ [0]) = true ∧
        salt (ones ++ [0]) = salt ones ∧ polynomial (ones ++ [0]) = polynomial ones) := by
  have verified : zeroKey.verify (arithmetic 0) Uint256.null ones = true := by decide +kernel
  refine ⟨verified, ?_⟩
  rintro ⟨other, salted, same⟩
  have unique := (CPubKey.verify_unique_iff (arithmetic 0) zeroKey Uint256.null ones
    (replicate 512 1) verified (by decide +kernel)).mpr (by decide +kernel) _ other salted same
  exact cons_ne_nil _ _ (append_right_eq_self.mp unique)

/-- A key made for the point that the message is hashed to: its polynomial is that point. -/
def key : CPubKey := ⟨7 :: 9 :: (replicate 128 [0, 4, 0, 0x10, 0, 0x40, 1]).flatten, by decide +kernel⟩

/-- The polynomial one, as a signature; the sign of its last coefficient is in `tail`. -/
def signature (tail : UInt8) : Bytes :=
  0x39 :: (replicate 40 0 ++ ([1, 0x80, 0x40, 0x20, 0x10, 8, 4, 2, 1] ++
    (replicate 62 [0, 0x80, 0x40, 0x20, 0x10, 8, 4, 2, 1]).flatten ++
    [0, 0x80, 0x40, 0x20, 0x10, 8, 4, tail, 1]))

def schoolbook : Arithmetic := ⟨fun _ _ => replicate 512 1, product⟩

/-- A negative zero in the place of a zero gives another accepted signature. -/
theorem negative_zero_accepted : key.verify schoolbook Uint256.null (signature 2) = true ∧
    key.verify schoolbook Uint256.null (signature 3) = true ∧ salt (signature 3) = salt (signature 2) ∧
    polynomial (signature 3) = polynomial (signature 2) ∧ signature 3 ≠ signature 2 := by
  decide +kernel

end Resigned

end Dragonchain
