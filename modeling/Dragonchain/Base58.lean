import Dragonchain.Outcome
import Dragonchain.Primitives
import Dragonchain.Radix

/-!
EncodeBase58, DecodeBase58 and their checked variants of base58.cpp. Strings are the
bytes of their characters. The buffers b58 and b256 are those of `Radix`, which holds
their digits in the order of the reverse iterators. The assertion on the carry is a fault,
and so are a counter of type int that overflows and a vector of a negative size.
-/

namespace Dragonchain.Base58

open Radix List Outcome

variable {digit start value zeroes : Nat}

def pszBase58 : Bytes := "123456789ABCDEFGHJKLMNPQRSTUVWXYZabcdefghijkmnopqrstuvwxyz".toUTF8.toList

def character (digit : Nat) : UInt8 := pszBase58.getD digit 0

def one : UInt8 := 0x31

/-- The white space of the C locale. -/
def isspace (c : UInt8) : Bool := c == 0x20 || (0x09 ≤ c && c ≤ 0x0d)

inductive Base58Error where
  | refused
  deriving DecidableEq

inductive Base58Fault where
  | carryLeft
  | signedOverflow
  | lengthError
  deriving DecidableEq

abbrev Base58Outcome := Outcome Base58Error Base58Fault

/-- The int that counts the leading zeroes. -/
def countZeroes (zeroes : Nat) : Base58Outcome Nat := if zeroes < 2 ^ 31 then pure zeroes else crash .signedOverflow

/-- The vector of `int size` elements: the size is narrowed, and a negative one is converted
to more than any vector may have. -/
def allocate (size : Nat) : Base58Outcome Buffer :=
  if size % 2 ^ 32 < 2 ^ 31 then pure (Buffer.empty (size % 2 ^ 32)) else crash .lengthError

/-- The loop over the characters: the number read and the characters it stopped before. -/
def decodeCharacters : Bytes → Buffer → Base58Outcome (Buffer × Bytes)
  | [], b256 => pure (b256, [])
  | c :: psz, b256 =>
    if isspace c then pure (b256, c :: psz)
    else
      match pszBase58.idxOf? c with
      | none => fail .refused
      | some carry =>
        match b256.push 58 256 carry with
        | none => crash .carryLeft
        | some b256 => decodeCharacters psz b256

def decodeBase58 (str : Bytes) : Base58Outcome Bytes := do
  -- c_str: the characters up to the first NUL
  let psz := (str.takeWhile (· != 0)).dropWhile isspace
  let zeroes ← countZeroes (psz.takeWhile (· == one)).length
  let psz := psz.dropWhile (· == one)
  -- strlen is a size_t
  let b256 ← allocate (psz.length * 733 % 2 ^ 64 / 1000 + 1)
  let (b256, psz) ← decodeCharacters psz b256
  require (psz.dropWhile isspace).isEmpty .refused
  pure (replicate zeroes 0 ++ b256.significant.map UInt8.ofNat)

def encodeBase58 (vch : Bytes) : Base58Outcome Bytes := do
  let zeroes ← countZeroes (vch.takeWhile (· == 0)).length
  let bytes := vch.dropWhile (· == 0)
  let b58 ← allocate (bytes.length * 138 / 100 + 1)
  match b58.pushAll 256 58 (bytes.map UInt8.toNat) with
  | none => crash .carryLeft
  | some b58 => pure (replicate zeroes one ++ b58.significant.map character)

def encodeBase58Check (crypto : Crypto) (vchIn : Bytes) : Base58Outcome Bytes :=
  encodeBase58 (vchIn ++ (crypto.hash256 vchIn).bytes.take 4)

def decodeBase58Check (crypto : Crypto) (str : Bytes) : Base58Outcome Bytes := do
  let vchRet ← decodeBase58 str
  require (decide (4 ≤ vchRet.length)) .refused
  let size := vchRet.length - 4
  require ((crypto.hash256 (vchRet.take size)).bytes.take 4 == vchRet.drop size) .refused
  pure (vchRet.take size)

/-! The alphabet, and the room that is allocated. -/

lemma length_pszBase58 : pszBase58.length = 58 := by decide +kernel

lemma idxOf_character : ∀ digit < 58, pszBase58.idxOf? (character digit) = some digit := by decide +kernel

lemma character_plain : ∀ digit < 58, (character digit != 0) = true ∧
    isspace (character digit) = false ∧ (character digit == one) = (digit == 0) := by
  decide +kernel

variable {c first : UInt8} {buffer b256 : Buffer} {vchIn vch : Bytes}

lemma character_idxOf (found : pszBase58.idxOf? c = some digit) : digit < 58 ∧ character digit = c := by
  obtain ⟨inside, same, -⟩ := findIdx?_eq_some_iff_getElem.mp found
  constructor
  · exact lt_of_lt_of_eq inside length_pszBase58
  · rw [character, getD_eq_getElem?_getD, getElem?_eq_getElem inside]
    exact beq_iff_eq.mp same

variable {crypto : Crypto} (count : Nat)

lemma encode_capacity : 256 ^ count ≤ 58 ^ (count * 138 / 100 + 1) :=
  capacity (by decide) (by decide +kernel) (by decide +kernel) count

variable {size : Nat} {values : List Nat} {rest str bytes : Bytes}

lemma countZeroes_ok {count : Nat} :
    countZeroes zeroes = .ok count ↔ zeroes < 2 ^ 31 ∧ zeroes = count := guard_eq_ok

lemma allocate_ok : allocate size = .ok buffer ↔ size % 2 ^ 32 < 2 ^ 31 ∧ Buffer.empty (size % 2 ^ 32) = buffer :=
  guard_eq_ok

lemma decode_capacity : 58 ^ count ≤ 256 ^ (count * 733 / 1000 + 1) :=
  capacity (by decide) (by decide +kernel) (by decide +kernel) count

/-! Reading characters. -/

lemma decodeCharacters_characters (small : ∀ value ∈ values, value < 58)
    (b256 : Buffer) : decodeCharacters (values.map character) b256 =
      match b256.pushAll 58 256 values with
      | none => crash .carryLeft
      | some b256 => pure (b256, []) := by
  induction values generalizing b256 with
  | nil => rfl
  | cons value rest ih =>
    have digit := small value mem_cons_self
    rw [map_cons, decodeCharacters, (character_plain value digit).2.1, idxOf_character value digit, Buffer.pushAll]
    dsimp
    cases b256.push 58 256 value with
    | none => rfl
    | some b256 => exact ih (fun other member => small other (mem_cons_of_mem _ member)) b256

lemma decodeCharacters_safe {psz : Bytes}
    (holds : b256.Holds 256 size start) (fits : (start + 1) * 58 ^ psz.length ≤ 256 ^ size) :
    Outcome.Safe (fun _ => True) (decodeCharacters psz b256) := by
  induction psz generalizing b256 start with
  | nil => exact safe_pure trivial
  | cons c psz ih =>
    rw [decodeCharacters]
    split
    · exact safe_pure trivial
    · split
      · exact safe_fail
      · rename_i carry found
        obtain ⟨digit, same⟩ := character_idxOf found
        obtain ⟨next, pushed, held⟩ := holds.push (by decide) (push_fits (by decide) digit fits)
        rw [pushed]
        exact ih held (push_room digit fits)

lemma decodeCharacters_ok {psz : Bytes} {b256 last : Buffer}
    (holds : b256.Holds 256 size start) (ran : decodeCharacters psz b256 = .ok (last, rest)) :
    ∃ values : List Nat, psz = values.map character ++ rest ∧ (∀ value ∈ values, value < 58) ∧
      last.Holds 256 size (horner 58 start values) := by
  induction psz generalizing b256 start with
  | nil =>
    cases ran
    exact ⟨[], rfl, by simp, holds⟩
  | cons c psz ih =>
    rw [decodeCharacters] at ran
    split at ran
    · cases ran
      exact ⟨[], rfl, by simp, holds⟩
    · split at ran
      · cases ran
      · rename_i carry found
        obtain ⟨digit, same⟩ := character_idxOf found
        split at ran
        · cases ran
        · rename_i next pushed
          obtain ⟨values, rfl, small, final⟩ := ih (holds.of_push (by decide) pushed) ran
          refine ⟨carry :: values, ?_, forall_mem_cons.mpr ⟨digit, small⟩, final⟩
          rw [map_cons, same, cons_append]

/-! Reading a string of characters back. -/

/-- A string that is its own C string and has no white space. -/
def Plain (str : Bytes) : Prop := ∀ c ∈ str, (c != 0) = true ∧ isspace c = false

lemma Plain.psz (plain : Plain str) : (str.takeWhile (· != 0)).dropWhile isspace = str := by
  have whole : str.takeWhile (· != 0) = str := takeWhile_eq_self_iff.mpr fun c member => (plain c member).1
  rw [whole]
  cases str with
  | nil => rfl
  | cons c rest => exact dropWhile_cons_of_neg (by rw [(plain c mem_cons_self).2]; decide)

lemma plain_characters (small : ∀ value ∈ values, value < 58) :
    Plain (replicate zeroes one ++ values.map character) := by
  intro c member
  rcases mem_append.mp member with first | later
  · rw [eq_of_mem_replicate first]
    decide
  · obtain ⟨value, inside, rfl⟩ := mem_map.mp later
    exact ⟨(character_plain value (small value inside)).1, (character_plain value (small value inside)).2.1⟩

lemma head_characters (small : ∀ value ∈ values, value < 58)
    (head : values.head? ≠ some 0) : (values.map character).head? ≠ some one := by
  cases values with
  | nil => exact nofun
  | cons value rest =>
    intro same
    have equal := (character_plain value (small value mem_cons_self)).2.2
    rw [beq_iff_eq.mpr (Option.some.inj same)] at equal
    exact head (congrArg some (beq_iff_eq.mp equal.symm))

lemma decodeBase58_eq (split : (str.takeWhile (· != 0)).dropWhile isspace = replicate zeroes one ++ rest)
    (head : rest.head? ≠ some one) (few : zeroes < 2 ^ 31) (short : rest.length < 2 ^ 31) :
    decodeBase58 str = (do
      let (b256, psz) ← decodeCharacters rest (Buffer.empty (rest.length * 733 / 1000 + 1))
      require (psz.dropWhile isspace).isEmpty .refused
      pure (replicate zeroes 0 ++ b256.significant.map UInt8.ofNat)) := by
  have run := leading_run head zeroes
  have counted : rest.length * 733 % 2 ^ 64 = rest.length * 733 := Nat.mod_eq_of_lt (by omega)
  have narrowed : (rest.length * 733 / 1000 + 1) % 2 ^ 32 = rest.length * 733 / 1000 + 1 :=
    Nat.mod_eq_of_lt (by omega)
  have room : allocate (rest.length * 733 / 1000 + 1) =
      .ok (Buffer.empty (rest.length * 733 / 1000 + 1)) := allocate_ok.mpr ⟨by omega, by rw [narrowed]⟩
  simp only [decodeBase58, split, run.1, run.2, length_replicate, countZeroes_ok.mpr ⟨few, rfl⟩, counted, room]
  rfl

lemma decodeBase58_characters (few : zeroes < 2 ^ 31)
    (short : values.length < 2 ^ 31) (small : ∀ value ∈ values, value < 58) (head : values.head? ≠ some 0) :
    decodeBase58 (replicate zeroes one ++ values.map character) =
      .ok (replicate zeroes 0 ++ (toRadix 256 (horner 58 0 values)).map UInt8.ofNat) := by
  obtain ⟨last, pushed, digits⟩ := pushAll_significant (by decide) (by decide) small (decode_capacity values.length)
  rw [decodeBase58_eq (plain_characters small).psz (head_characters small head) few
    (by rwa [length_map]), length_map, decodeCharacters_characters small, pushed]
  change Except.ok (replicate zeroes 0 ++ last.significant.map UInt8.ofNat) = _
  rw [digits]

lemma toNat_small (bytes : Bytes) : ∀ value ∈ bytes.map UInt8.toNat, value < 256 := by
  intro value member
  obtain ⟨byte, -, rfl⟩ := mem_map.mp member
  exact byte.toNat_lt

lemma toNat_toRadix : ((toRadix 256 value).map UInt8.ofNat).map UInt8.toNat = toRadix 256 value := by
  rw [map_map]
  refine (map_congr_left fun digit member => ?_).trans (map_id _)
  exact UInt8.toNat_ofNat_of_lt' (toRadix_lt (by decide) digit member)

variable (head : bytes.head? ≠ some 0)
include head

lemma head_toNat : (bytes.map UInt8.toNat).head? ≠ some 0 := by
  cases bytes with
  | nil => exact nofun
  | cons byte rest =>
    intro same
    exact head (congrArg some (UInt8.toNat_inj.mp (Option.some.inj same)))

/-- A size that does not fit in an int is narrowed to one that leaves a carry, or to none. -/
lemma pushAll_narrowed {last : Buffer} (room : (bytes.length * 138 / 100 + 1) % 2 ^ 32 < 2 ^ 31)
    (pushed : (Buffer.empty ((bytes.length * 138 / 100 + 1) % 2 ^ 32)).pushAll 256 58
      (bytes.map UInt8.toNat) = some last) : bytes.length * 138 / 100 + 1 < 2 ^ 31 := by
  by_contra large
  have held := (Buffer.empty_holds (by decide)).of_pushAll (by decide) pushed
  have nonempty : bytes.map UInt8.toNat ≠ [] := by
    intro empty
    rw [map_eq_nil_iff.mp empty] at large
    exact large (by decide)
  have low := le_horner (by decide) (toNat_small bytes) (head_toNat head) nonempty
  rw [length_map] at low
  have wrapped : 2 ^ 32 ≤ bytes.length * 138 / 100 + 1 := by
    by_contra fits
    rw [Nat.mod_eq_of_lt (Nat.lt_of_not_le fits)] at room
    exact large room
  refine absurd (held.lt (by decide)) (Nat.not_lt_of_le (le_trans ?_ low))
  calc 58 ^ ((bytes.length * 138 / 100 + 1) % 2 ^ 32)
    _ ≤ 256 ^ ((bytes.length * 138 / 100 + 1) % 2 ^ 32) := Nat.pow_le_pow_left (by decide) _
    _ ≤ 256 ^ (bytes.length - 1) := Nat.pow_le_pow_right (by decide) (by omega)

lemma encodeBase58_ok : encodeBase58 (replicate zeroes 0 ++ bytes) = .ok str ↔
      zeroes < 2 ^ 31 ∧ bytes.length * 138 / 100 + 1 < 2 ^ 31 ∧
      replicate zeroes one ++ (toRadix 58 (horner 256 0 (bytes.map UInt8.toNat))).map character = str := by
  have fits := encode_capacity (bytes.map UInt8.toNat).length
  obtain ⟨last, pushed, digits⟩ := pushAll_significant (by decide) (by decide) (toNat_small bytes) fits
  rw [length_map] at pushed
  have run := leading_run head zeroes
  rw [encodeBase58, run.1, run.2, length_replicate, bind_eq_ok]
  constructor
  · rintro ⟨_, counted, ran⟩
    obtain ⟨few, rfl⟩ := countZeroes_ok.mp counted
    obtain ⟨_, allocated, ran⟩ := bind_eq_ok.mp ran
    obtain ⟨room, rfl⟩ := allocate_ok.mp allocated
    split at ran
    · cases ran
    · rename_i found
      have size := pushAll_narrowed head room found
      rw [Nat.mod_eq_of_lt (by omega), pushed] at found
      cases found
      rw [← digits]
      exact ⟨few, size, (pure_eq_ok ..).mp ran⟩
  · rintro ⟨few, size, rfl⟩
    refine ⟨zeroes, countZeroes_ok.mpr ⟨few, rfl⟩, bind_eq_ok.mpr ⟨_, allocate_ok.mpr ⟨?_, rfl⟩, ?_⟩⟩
    · rwa [Nat.mod_eq_of_lt (by omega)]
    · rw [Nat.mod_eq_of_lt (by omega), pushed, ← digits]
      rfl

lemma toRadix_bytes : (toRadix 256 (horner 256 0 (bytes.map UInt8.toNat))).map UInt8.ofNat = bytes := by
  rw [toRadix_horner (by decide) (toNat_small bytes) (head_toNat head), map_map]
  exact (map_congr_left fun byte _ => UInt8.ofNat_toNat).trans (map_id bytes)

omit head

lemma length_toRadix_le :
    (toRadix 58 (horner 256 0 (bytes.map UInt8.toNat))).length ≤ bytes.length * 138 / 100 + 1 := by
  have bounds := horner_bounds 0 (by decide) (toNat_small bytes)
  rw [zero_add, one_mul, length_map] at bounds
  rw [toRadix, length_reverse, Nat.digits_length_le_iff (by decide)]
  exact lt_of_lt_of_le bounds.2 (encode_capacity bytes.length)

lemma decodeBase58_encoded (head : bytes.head? ≠ some 0)
    (few : zeroes < 2 ^ 31) (size : bytes.length * 138 / 100 + 1 < 2 ^ 31) :
    decodeBase58 (replicate zeroes one ++ (toRadix 58 (horner 256 0 (bytes.map UInt8.toNat))).map character) =
        .ok (replicate zeroes 0 ++ bytes) := by
  rw [decodeBase58_characters few (lt_of_le_of_lt length_toRadix_le size) (toRadix_lt (by decide))
    head_toRadix, horner_toRadix, toRadix_bytes head]

/-- A byte string is read back from its Base58 string as long as both of its counters fit in
an int. -/
theorem decodeBase58_encodeBase58_iff (vch : Bytes) :
    (∃ str, encodeBase58 vch = .ok str ∧ decodeBase58 str = .ok vch) ↔
      (vch.takeWhile (· == 0)).length < 2 ^ 31 ∧ (vch.dropWhile (· == 0)).length * 138 / 100 + 1 < 2 ^ 31 := by
  obtain ⟨zeroes, bytes, rfl, head⟩ := exists_leading_run 0 vch
  have run := leading_run head zeroes
  rw [run.1, run.2, length_replicate]
  constructor
  · rintro ⟨str, encoded, _⟩
    obtain ⟨few, size, _⟩ := (encodeBase58_ok head).mp encoded
    exact ⟨few, size⟩
  · rintro ⟨few, size⟩
    exact ⟨_, (encodeBase58_ok head).mpr ⟨few, size, rfl⟩, decodeBase58_encoded head few size⟩

/-- The least number of nonzero bytes whose Base58 size is no int any more. -/
theorem encodeBase58_throws : encodeBase58 (replicate 1556147571 1) = .error (.fault .lengthError) := by
  have head : (replicate 1556147571 (1 : UInt8)).head? ≠ some 0 := by decide
  have run := leading_run head 0
  rw [replicate_zero, nil_append] at run
  have room : allocate (1556147571 * 138 / 100 + 1) = .error (.fault .lengthError) := rfl
  simp only [encodeBase58, run.1, run.2, length_replicate, room]
  rfl

lemma decodeBase58Check_encodeBase58Check (short : vchIn.length < 2 ^ 30) :
    ∃ str, encodeBase58Check crypto vchIn = .ok str ∧ decodeBase58Check crypto str = .ok vchIn := by
  have four : ((crypto.hash256 vchIn).bytes.take 4).length = 4 := by
    rw [length_take, (crypto.hash256 vchIn).size]
    rfl
  have parts := congrArg List.length (takeWhile_append_dropWhile (p := (· == 0))
    (l := vchIn ++ (crypto.hash256 vchIn).bytes.take 4))
  rw [length_append, length_append, four] at parts
  obtain ⟨str, encoded, decoded⟩ :=
    (decodeBase58_encodeBase58_iff (vchIn ++ (crypto.hash256 vchIn).bytes.take 4)).mpr ⟨by omega, by omega⟩
  refine ⟨str, encoded, ?_⟩
  have size : (vchIn ++ (crypto.hash256 vchIn).bytes.take 4).length - 4 = vchIn.length := by
    rw [length_append, four, Nat.add_sub_cancel]
  have long : 4 ≤ (vchIn ++ (crypto.hash256 vchIn).bytes.take 4).length := by
    rw [length_append, four]
    exact Nat.le_add_left 4 _
  rw [decodeBase58Check, decoded]
  simp only [bind, Except.bind, size, take_left, drop_left, decide_eq_true long, require, BEq.rfl, if_true]
  rfl

/-! What any other string can be read as. -/

lemma decodeBase58_ok (solid : ∀ c ∈ str, isspace c = false)
    (ran : decodeBase58 str = .ok vch) : ∃ (zeroes : Nat) (values : List Nat),
      str.takeWhile (· != 0) = replicate zeroes one ++ values.map character ∧
      (∀ value ∈ values, value < 58) ∧ values.head? ≠ some 0 ∧ zeroes < 2 ^ 31 ∧
      vch = replicate zeroes 0 ++ (toRadix 256 (horner 58 0 values)).map UInt8.ofNat := by
  have plain : Plain (str.takeWhile (· != 0)) := fun c member =>
    ⟨mem_takeWhile_imp (p := (· != 0)) member, solid c ((takeWhile_sublist _).subset member)⟩
  have whole := plain.psz
  rw [takeWhile_idem] at whole
  obtain ⟨zeroes, rest, split, head⟩ := exists_leading_run one (str.takeWhile (· != 0))
  have run := leading_run head zeroes
  rw [decodeBase58, whole, split, run.1, run.2, length_replicate] at ran
  obtain ⟨_, counted, ran⟩ := bind_eq_ok.mp ran
  obtain ⟨few, rfl⟩ := countZeroes_ok.mp counted
  obtain ⟨_, allocated, ran⟩ := bind_eq_ok.mp ran
  obtain ⟨_, rfl⟩ := allocate_ok.mp allocated
  obtain ⟨⟨last, left⟩, read, ran⟩ := bind_eq_ok.mp ran
  obtain ⟨stopped, done⟩ := require_bind_eq_ok.mp ran
  cases done
  obtain ⟨values, rfl, small, holds⟩ := decodeCharacters_ok (Buffer.empty_holds (by decide)) read
  -- Only white space may be left over, and there is none.
  obtain rfl : left = [] := by
    cases left with
    | nil => rfl
    | cons c left =>
      have member : c ∈ str.takeWhile (· != 0) := by simp [split]
      have solid : ¬ isspace c = true := by simp [(plain c member).2]
      rw [dropWhile_cons_of_neg solid] at stopped
      cases stopped
  rw [append_nil] at split head
  refine ⟨zeroes, values, split, small, ?_, few, by rw [holds.significant (by decide)]⟩
  intro zero
  rw [head?_map, zero] at head
  exact head (by decide +kernel)

lemma decodeBase58_safe (plain : Plain str) (head : str.head? ≠ some one) (short : str.length < 2 ^ 31) :
    Outcome.Safe (fun vch => ∃ values : List Nat, str = values.map character ∧
      (∀ value ∈ values, value < 58) ∧ vch = (toRadix 256 (horner 58 0 values)).map UInt8.ofNat)
      (decodeBase58 str) := by
  refine Outcome.Safe.with_ok ?_ fun vch ran => ?_
  · have fits := decode_capacity str.length
    have whole : (str.takeWhile (· != 0)).dropWhile isspace = replicate 0 one ++ str := plain.psz
    rw [decodeBase58_eq whole head (by decide) short]
    refine (decodeCharacters_safe (Buffer.empty_holds (by decide)) (by rwa [zero_add, one_mul])).bind fun _ _ => ?_
    exact Outcome.Safe.after_require fun _ => safe_pure trivial
  · obtain ⟨zeroes, values, split, small, _, _, rfl⟩ := decodeBase58_ok (fun c member => (plain c member).2) ran
    have all : str.takeWhile (· != 0) = str := takeWhile_eq_self_iff.mpr fun c member => (plain c member).1
    rw [all] at split
    obtain rfl : zeroes = 0 := by
      cases zeroes with
      | zero => rfl
      | succ zeroes =>
        rw [split, replicate_succ] at head
        exact absurd rfl head
    exact ⟨values, split, small, rfl⟩

/-- An accepted string without white space is the string of what it is read as, unless it
goes on after a NUL or the size of that string is no int. -/
theorem encodeBase58_decodeBase58_iff {str vch : Bytes} (solid : ∀ c ∈ str, isspace c = false)
    (ran : decodeBase58 str = .ok vch) : encodeBase58 vch = .ok str ↔
      0 ∉ str ∧ (vch.dropWhile (· == 0)).length * 138 / 100 + 1 < 2 ^ 31 := by
  obtain ⟨zeroes, values, split, small, head, few, rfl⟩ := decodeBase58_ok solid ran
  have back : ((toRadix 256 (horner 58 0 values)).map UInt8.ofNat).map UInt8.toNat =
      toRadix 256 (horner 58 0 values) := toNat_toRadix
  have first : ((toRadix 256 (horner 58 0 values)).map UInt8.ofNat).head? ≠ some 0 := by
    intro zero
    have := congrArg (Option.map UInt8.toNat) zero
    rw [← head?_map, back] at this
    exact head_toRadix this
  rw [encodeBase58_ok first, (leading_run first zeroes).2, back, horner_toRadix,
    toRadix_horner (by decide) small head, ← split]
  constructor
  · rintro ⟨_, size, whole⟩
    refine ⟨fun nul => ?_, size⟩
    have := takeWhile_eq_self_iff.mp whole 0 nul
    cases this
  · rintro ⟨clean, size⟩
    refine ⟨few, size, takeWhile_eq_self_iff.mpr fun c member => ?_⟩
    exact bne_iff_ne.mpr fun zero => clean (zero ▸ member)

theorem encodeBase58_decodeBase58_two : encodeBase58 [0, 1] = .ok [0x31, 0x32] :=
  (@encodeBase58_decodeBase58_iff [0x31, 0x32] [0, 1] (by simp [isspace]) (by decide +kernel)).mpr (by simp)

theorem decodeBase58_nul : decodeBase58 [0x32, 0] = .ok [1] ∧ encodeBase58 [1] = .ok [0x32] := by decide +kernel

lemma decodeBase58Check_safe (plain : Plain str) (head : str.head? ≠ some one) (short : str.length < 2 ^ 31) :
    Outcome.Safe (fun vch => ∃ values : List Nat, str = values.map character ∧
      (∀ value ∈ values, value < 58) ∧ ∃ check : Bytes, check.length = 4 ∧
        vch ++ check = (toRadix 256 (horner 58 0 values)).map UInt8.ofNat) (decodeBase58Check crypto str) := by
  refine (decodeBase58_safe plain head short).bind ?_
  rintro vch ⟨values, same, small, digits⟩
  refine Outcome.Safe.after_check fun long => Outcome.Safe.after_require fun _ =>
    safe_pure ⟨values, same, small, vch.drop (vch.length - 4), ?_, ?_⟩
  · rw [length_drop]
    omega
  · rw [take_append_drop, digits]

lemma characters_injective {first second : List Nat} (firstSmall : ∀ value ∈ first, value < 58)
    (secondSmall : ∀ value ∈ second, value < 58)
    (same : first.map character = second.map character) : first = second := by
  have indices {values : List Nat} (small : ∀ value ∈ values, value < 58) :
      (values.map character).map pszBase58.idxOf? = values.map some := by
    rw [map_map]
    exact map_congr_left fun value member => idxOf_character value (small value member)
  have equal := congrArg (List.map pszBase58.idxOf?) same
  rw [indices firstSmall, indices secondSmall] at equal
  exact map_injective_iff.mpr (Option.some_injective Nat) equal

lemma toRadix_range (digits : first :: rest = (toRadix 256 value).map UInt8.ofNat) :
    first.toNat * 256 ^ rest.length ≤ value ∧ value < (first.toNat + 1) * 256 ^ rest.length := by
  have split : horner 256 first.toNat (rest.map UInt8.toNat) = value := by
    rw [← horner_toRadix value, ← toNat_toRadix, ← digits]
    exact congrArg (horner 256 · (rest.map UInt8.toNat)) (zero_add _).symm
  have bounds := horner_bounds first.toNat (by decide) (toNat_small rest)
  rwa [split, length_map] at bounds

end Dragonchain.Base58
