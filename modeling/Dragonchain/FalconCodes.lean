import Dragonchain.FalconCodec

/-!
Signature coefficients as words over bits. The reader of comp_decode refines a decoder on
the list of bits it still has to read, and that decoder accepts exactly the concatenations
of code words: a sign, the low seven bits of the absolute value, the rest in unary.
-/

namespace Dragonchain.Falcon

open BitStream List Option

/-! The decoder on bits. -/

variable {fuel count i accLen logn : Nat} {buf : Bytes} {reader : BitReader}

def takeTail : Nat → List Bool → Nat → Option (Nat × List Bool)
  | 0, _, _ => none
  | _ + 1, [], _ => none
  | fuel + 1, bit :: stream, m =>
    if bit then some (m, stream)
    else if m + 128 > 2047 then none
    else takeTail fuel stream (m + 128)

def signed (negative : Bool) (m : Nat) : Int := if negative then -(m : Int) else m

def takeCoefficient (stream : List Bool) : Option (Int × List Bool) :=
  if stream.length < 8 then none
  else
    (takeTail 16 (stream.drop 8) (ofBits ((stream.take 8).drop 1))).map fun (m, rest) =>
      (signed (stream.headD false) m, rest)

def takeCoefficients : Nat → List Bool → Option (List Int × List Bool)
  | 0, stream => some ([], stream)
  | count + 1, stream =>
    (takeCoefficient stream).bind fun (x, stream) =>
      (takeCoefficients count stream).map fun (rest, stream) => (x :: rest, stream)

/-! Code words. -/

/-- A coefficient as it is written: its sign and its absolute value. -/
structure Word where
  negative : Bool
  m : Nat
  small : m ≤ 2047

def Word.value (word : Word) : Int := signed word.negative word.m

def Word.code (word : Word) : List Bool :=
  word.negative :: natBits 7 word.m ++ (replicate (word.m / 128) false ++ [true])

variable (acc : UInt32) (byte : UInt8)

lemma takeTail_iff (stream rest : List Bool) (m result : Nat) :
    takeTail fuel stream m = some (result, rest) ↔
      ∃ count < fuel, (count = 0 ∨ result ≤ 2047) ∧ result = m + 128 * count ∧
        stream = replicate count false ++ true :: rest := by
  induction fuel generalizing stream m with
  | zero => simp [takeTail]
  | succ fuel ih =>
    cases stream with
    | nil =>
      constructor
      · rintro ⟨⟩
      · rintro ⟨count, _, _, _, empty⟩
        cases count <;> cases empty
    | cons bit stream =>
      cases bit with
      | true =>
        constructor
        · rintro ⟨⟩
          exact ⟨0, Nat.succ_pos fuel, .inl rfl, rfl, rfl⟩
        · rintro ⟨count, _, _, rfl, same⟩
          cases count with
          | zero => cases same; rfl
          | succ count => cases same
      | false =>
        by_cases large : m + 128 > 2047
        · -- the loop gives up, and no word of this shape has a value in range
          constructor
          · intro read
            simp [takeTail, large] at read
          · rintro ⟨count, _, bound, rfl, same⟩
            cases count with
            | zero => cases same
            | succ count => omega
        · have step : takeTail (fuel + 1) (false :: stream) m = takeTail fuel stream (m + 128) := by
            simp [takeTail, large]
          rw [step, ih]
          constructor
          · rintro ⟨count, below, bound, rfl, rfl⟩
            exact ⟨count + 1, by omega, .inr (by omega), by omega, rfl⟩
          · rintro ⟨count, below, bound, rfl, same⟩
            cases count with
            | zero => cases same
            | succ count => exact ⟨count, by omega, .inr (by omega), by omega, (List.cons.inj same).2⟩

variable {rest low : List Bool}

lemma Word.code_head (word : Word) :
    (word.code ++ rest).take 8 = word.negative :: natBits 7 word.m ∧
      (word.code ++ rest).drop 8 = replicate (word.m / 128) false ++ true :: rest := by
  have length : (word.negative :: natBits 7 word.m).length = 8 := by simp
  rw [code, append_assoc]
  constructor
  · exact take_left' length
  · rw [drop_left' length, append_assoc, singleton_append]

/-- Seven bits and a count of the unary part make up one absolute value. -/
lemma natBits_low (seven : low.length = 7) :
    natBits 7 (ofBits low + 128 * count) = low ∧ (ofBits low + 128 * count) / 128 = count := by
  have bound := ofBits_lt low
  have packed := natBits_ofBits low
  rw [seven] at bound packed
  constructor
  · rw [← packed]
    refine natBits_congr fun i below => ?_
    rw [packed, add_comm, show 128 = 2 ^ 7 from rfl, Nat.testBit_two_pow_mul_add _ bound, if_pos below]
  · omega

lemma takeCoefficient_iff (stream rest : List Bool) (x : Int) : takeCoefficient stream = some (x, rest) ↔
      ∃ word : Word, x = word.value ∧ stream = word.code ++ rest := by
  constructor
  · intro read
    unfold takeCoefficient at read
    by_cases short : stream.length < 8
    · simp [short] at read
    · rw [if_neg short] at read
      obtain ⟨⟨m, left⟩, tail, same⟩ := map_eq_some_iff.mp read
      obtain ⟨count, below, bound, rfl, unary⟩ := (takeTail_iff ..).mp tail
      cases same
      cases stream with
      | nil => exact absurd (Nat.zero_lt_succ 7) short
      | cons negative stream =>
        have seven : (stream.take 7).length = 7 := by
          rw [length_cons] at short
          rw [length_take]
          omega
        obtain ⟨lowBits, high⟩ := natBits_low seven
        have fits := ofBits_lt (stream.take 7)
        refine ⟨⟨negative, ofBits (stream.take 7) + 128 * count, ?_⟩, rfl, ?_⟩
        · have range : count = 0 ∨ ofBits (stream.take 7) + 128 * count ≤ 2047 := bound
          omega
        · have rejoined := take_append_drop 7 stream
          rw [drop_succ_cons] at unary
          rw [Word.code, lowBits, high, append_assoc, append_assoc,
            singleton_append, ← unary, cons_append, rejoined]
  · rintro ⟨word, rfl, rfl⟩
    obtain ⟨head, tail⟩ := word.code_head
    have long : ¬ (word.code ++ rest).length < 8 := by simp [Word.code]
    have read : takeTail 16 (replicate (word.m / 128) false ++ true :: rest) (word.m % 2 ^ 7) =
        some (word.m, rest) :=
      (takeTail_iff ..).mpr ⟨word.m / 128, by have := word.small; omega, .inr word.small, by omega, rfl⟩
    rw [takeCoefficient, if_neg long, head, tail, drop_succ_cons, drop_zero, ofBits_natBits, read]
    rfl

lemma takeCoefficients_iff (stream rest : List Bool) (x : List Int) :
    takeCoefficients count stream = some (x, rest) ↔
      ∃ words : List Word, words.length = count ∧ x = words.map Word.value ∧
        stream = words.flatMap Word.code ++ rest := by
  induction count generalizing stream x with
  | zero =>
    constructor
    · rintro ⟨⟩
      exact ⟨[], rfl, rfl, rfl⟩
    · rintro ⟨words, length, rfl, rfl⟩
      rw [length_eq_zero_iff.mp length]
      rfl
  | succ count ih =>
    constructor
    · intro read
      obtain ⟨⟨first, middle⟩, head, more⟩ := bind_eq_some_iff.mp read
      obtain ⟨⟨later, left⟩, tail, same⟩ := map_eq_some_iff.mp more
      cases same
      obtain ⟨word, rfl, rfl⟩ := (takeCoefficient_iff ..).mp head
      obtain ⟨words, length, rfl, rfl⟩ := (ih ..).mp tail
      refine ⟨word :: words, by rw [length_cons, length], rfl, ?_⟩
      rw [flatMap_cons, append_assoc]
    · rintro ⟨words, length, rfl, rfl⟩
      cases words with
      | nil => cases length
      | cons word words =>
        have head : takeCoefficient (word.code ++ (words.flatMap Word.code ++ rest)) =
            some (word.value, words.flatMap Word.code ++ rest) :=
          (takeCoefficient_iff ..).mpr ⟨word, rfl, rfl⟩
        have tail : takeCoefficients count (words.flatMap Word.code ++ rest) = some (words.map Word.value, rest) :=
          (ih ..).mpr ⟨words, Nat.succ.inj length, rfl, rfl⟩
        rw [flatMap_cons, append_assoc, takeCoefficients, head]
        simp [tail]

/-! The reader. -/

def BitReader.stream (reader : BitReader) : List Bool := natBits reader.accLen reader.acc.toNat ++ bits reader.buf

lemma testBit_pull (below : i < 32) :
    ((acc <<< 8) ||| byte.toUInt32).toNat.testBit i =
      if i < 8 then byte.toNat.testBit i else acc.toNat.testBit (i - 8) := by
  rw [UInt32.toNat_or, Nat.testBit_or, UInt32.toNat_shiftLeft, Nat.testBit_mod_two_pow,
    Nat.testBit_shiftLeft, UInt8.toNat_toUInt32]
  by_cases low : i < 8
  · simp [low]
  · have high : byte.toNat.testBit i = false := by
      apply Nat.testBit_lt_two_pow
      exact lt_of_lt_of_le byte.toNat_lt (Nat.pow_le_pow_right (by decide) (Nat.le_of_not_lt low))
    simp [low, below, high, Nat.le_of_not_lt low]

lemma natBits_pull (small : accLen ≤ 24) : natBits (accLen + 8) ((acc <<< 8) ||| byte.toUInt32).toNat =
      natBits accLen acc.toNat ++ natBits 8 byte.toNat := by
  rw [natBits_add]
  congr 1
  · refine natBits_congr fun i below => ?_
    rw [Nat.testBit_shiftRight, testBit_pull acc byte (by omega), if_neg (by omega), Nat.add_sub_cancel_left]
  · refine natBits_congr fun i below => ?_
    rw [testBit_pull acc byte (by omega), if_pos below]

lemma mask_ne_zero (value mask : UInt32) (i : Nat) (single : mask.toNat = 2 ^ i) :
    (value &&& mask != 0) = value.toNat.testBit i := by
  have masked : (value &&& mask).toNat = (value.toNat.testBit i).toNat * 2 ^ i := by
    rw [UInt32.toNat_and, single, Nat.and_two_pow]
  cases bit : value.toNat.testBit i with
  | false =>
    rw [bit, Bool.toNat_false, zero_mul] at masked
    have zero : value &&& mask = 0 := UInt32.toNat_inj.mp masked
    rw [zero]
    rfl
  | true =>
    rw [bit, Bool.toNat_true, one_mul] at masked
    refine bne_iff_ne.mpr fun zero => ?_
    rw [zero] at masked
    exact absurd masked.symm (Nat.two_pow_pos i).ne'

lemma toNat_shifted (small : accLen < 32) : (acc >>> UInt32.ofNat accLen).toNat = acc.toNat >>> accLen := by
  have index : (UInt32.ofNat accLen).toNat = accLen := by rw [UInt32.toNat_ofNat', Nat.mod_eq_of_lt (by omega)]
  rw [UInt32.toNat_shiftRight, index, Nat.mod_eq_of_lt small]

/-- A read from the accumulator and the same read from the bits, with fewer than eight bits
kept in the accumulator afterwards. -/
def Agrees {α : Type} (read : Option (α × BitReader)) (taken : Option (α × List Bool)) : Prop :=
  taken = read.map (fun answer => (answer.1, answer.2.stream)) ∧ ∀ answer ∈ read, answer.2.accLen < 8

section Agreement
variable {α β : Type}

lemma agrees_none : Agrees (none : Option (α × BitReader)) none := ⟨rfl, fun _ absent => nomatch absent⟩

lemma agrees_some {value : α} (small : reader.accLen < 8) :
    Agrees (some (value, reader)) (some (value, reader.stream)) := by
  constructor
  · rfl
  · rintro answer ⟨⟩
    exact small

variable {read : Option (α × BitReader)} {taken : Option (α × List Bool)}

lemma Agrees.bind {f : α × BitReader → Option (β × BitReader)} {g : α × List Bool → Option (β × List Bool)}
    (first : Agrees read taken)
    (onward : ∀ value reader, reader.accLen < 8 → Agrees (f (value, reader)) (g (value, reader.stream))) :
    Agrees (read.bind f) (taken.bind g) := by
  obtain ⟨rfl, small⟩ := first
  cases read with
  | none => exact agrees_none
  | some answer => exact onward answer.1 answer.2 (small answer rfl)

lemma Agrees.map (first : Agrees read taken) (f : α → β) : Agrees (read.map fun answer => (f answer.1, answer.2))
      (taken.map fun answer => (f answer.1, answer.2)) := by
  obtain ⟨rfl, small⟩ := first
  cases read with
  | none => exact agrees_none
  | some answer => exact agrees_some (small answer rfl)

end Agreement

def uncons : List Bool → Option (Bool × List Bool)
  | [] => none
  | bit :: stream => some (bit, stream)

lemma takeTail_succ (stream : List Bool) (m : Nat) :
    takeTail (fuel + 1) stream m = (uncons stream).bind fun answer =>
      if answer.1 then some (m, answer.2)
      else if m + 128 > 2047 then none
      else takeTail fuel answer.2 (m + 128) := by
  cases stream <;> rfl

lemma readTail_succ (reader : BitReader) (m : Nat) :
    readTail (fuel + 1) reader m = reader.readBit.bind fun answer =>
      if answer.1 then some (m, answer.2)
      else if m + 128 > 2047 then none
      else readTail fuel answer.2 (m + 128) := rfl

variable {x : List Int} (word : Word) (words : List Word)

lemma readBit_window (small : accLen < 8) (buf : Bytes) :
    uncons (natBits (accLen + 1) acc.toNat ++ bits buf) =
      some ((acc >>> UInt32.ofNat accLen) &&& 1 != 0, BitReader.stream ⟨acc, accLen, buf⟩) := by
  have bit : ((acc >>> UInt32.ofNat accLen) &&& 1 != 0) = acc.toNat.testBit accLen := by
    rw [mask_ne_zero _ 1 0 rfl, toNat_shifted acc (by omega), Nat.testBit_shiftRight, add_zero]
  rw [bit]
  rfl

lemma readBit_agrees (small : reader.accLen < 8) : Agrees reader.readBit (uncons reader.stream) := by
  obtain ⟨acc, accLen, buf⟩ := reader
  cases accLen with
  | zero =>
    cases buf with
    | nil => exact agrees_none
    | cons byte buf =>
      have window := natBits_pull acc byte (Nat.zero_le 24)
      have read := readBit_window ((acc <<< 8) ||| byte.toUInt32) (Nat.lt_succ_self 7) buf
      rw [zero_add, natBits, nil_append] at window
      rw [window] at read
      have stream : BitReader.stream ⟨acc, 0, byte :: buf⟩ = natBits 8 byte.toNat ++ bits buf := rfl
      rw [stream, read]
      exact agrees_some (Nat.lt_succ_self 7)
  | succ accLen =>
    have less : accLen < 8 := Nat.lt_of_succ_lt small
    have read := readBit_window acc less buf
    have stream : BitReader.stream ⟨acc, accLen + 1, buf⟩ = natBits (accLen + 1) acc.toNat ++ bits buf := rfl
    rw [stream, read]
    exact agrees_some less

lemma readTail_agrees (small : reader.accLen < 8) (m : Nat) :
    Agrees (readTail fuel reader m) (takeTail fuel reader.stream m) := by
  induction fuel generalizing reader m with
  | zero => exact agrees_none
  | succ fuel ih =>
    rw [takeTail_succ, readTail_succ]
    refine (readBit_agrees small).bind fun bit next less => ?_
    cases bit with
    | true => exact agrees_some less
    | false =>
      by_cases large : m + 128 > 2047
      · simp only [if_neg Bool.false_ne_true, if_pos large]
        exact agrees_none
      · simp only [if_neg Bool.false_ne_true, if_neg large]
        exact ih less (m + 128)

lemma stream_pull (small : accLen < 8) (byte : UInt8) (buf : Bytes) :
    BitReader.stream ⟨acc, accLen, byte :: buf⟩ =
      natBits 8 (((acc <<< 8) ||| byte.toUInt32).toNat >>> accLen) ++
        BitReader.stream ⟨(acc <<< 8) ||| byte.toUInt32, accLen, buf⟩ := by
  have window := natBits_pull acc byte (show accLen ≤ 24 by omega)
  rw [add_comm, natBits_add] at window
  rw [BitReader.stream, BitReader.stream, bits_cons, ← append_assoc, ← window, append_assoc]

lemma takeCoefficient_natBits (value : Nat) (stream : List Bool) :
    takeCoefficient (natBits 8 value ++ stream) =
      (takeTail 16 stream (value % 128)).map fun answer => (signed (value.testBit 7) answer.1, answer.2) := by
  have long : ¬ (natBits 8 value ++ stream).length < 8 := by simp
  have first : (natBits 8 value ++ stream).take 8 = value.testBit 7 :: natBits 7 value :=
    take_left' (length_natBits 8 value)
  have later : (natBits 8 value ++ stream).drop 8 = stream := drop_left' (length_natBits 8 value)
  rw [takeCoefficient, if_neg long, first, later, drop_succ_cons, drop_zero, ofBits_natBits]
  rfl

lemma readCoefficient_cons (small : accLen < 8) (byte : UInt8) (buf : Bytes) :
    readCoefficient ⟨acc, accLen, byte :: buf⟩ = (readTail 16 ⟨(acc <<< 8) ||| byte.toUInt32, accLen, buf⟩
        ((((acc <<< 8) ||| byte.toUInt32).toNat >>> accLen) % 128)).map fun answer =>
          (signed ((((acc <<< 8) ||| byte.toUInt32).toNat >>> accLen).testBit 7) answer.1, answer.2) := by
  have shifted := toNat_shifted ((acc <<< 8) ||| byte.toUInt32) (show accLen < 32 by omega)
  have sign := mask_ne_zero (((acc <<< 8) ||| byte.toUInt32) >>> UInt32.ofNat accLen) 128 7 rfl
  have low : ((((acc <<< 8) ||| byte.toUInt32) >>> UInt32.ofNat accLen) &&& 127).toNat =
      (((acc <<< 8) ||| byte.toUInt32).toNat >>> accLen) % 128 := by
    rw [UInt32.toNat_and, shifted]
    exact Nat.and_two_pow_sub_one_eq_mod _ 7
  rw [shifted] at sign
  rw [← low, ← sign, map_eq_bind]
  rfl

lemma readCoefficient_agrees (small : reader.accLen < 8) :
    Agrees (readCoefficient reader) (takeCoefficient reader.stream) := by
  obtain ⟨acc, accLen, buf⟩ := reader
  cases buf with
  | nil =>
    have short : (BitReader.stream ⟨acc, accLen, []⟩).length < 8 := by simpa [BitReader.stream] using small
    rw [takeCoefficient, if_pos short]
    exact agrees_none
  | cons byte buf =>
    have next : BitReader.accLen ⟨(acc <<< 8) ||| byte.toUInt32, accLen, buf⟩ < 8 := small
    rw [stream_pull acc small, takeCoefficient_natBits, readCoefficient_cons acc small]
    exact (readTail_agrees next _).map _

lemma readCoefficients_agrees (small : reader.accLen < 8) :
    Agrees (readCoefficients count reader) (takeCoefficients count reader.stream) := by
  induction count generalizing reader with
  | zero => exact agrees_some small
  | succ count ih =>
    refine (readCoefficient_agrees small).bind fun x next less => ?_
    have rest := (ih less).map (x :: ·)
    rwa [map_eq_bind (x := readCoefficients count next)] at rest

/-! Whole buffers. -/

lemma length_stream (reader : BitReader) : reader.stream.length = reader.accLen + 8 * reader.buf.length := by
  rw [BitReader.stream, length_append, length_natBits, length_bits]

lemma Word.length_code : word.code.length = 9 + word.m / 128 := by
  simp [code]
  omega

lemma length_words_pos (some : 0 < words.length) : 0 < (words.flatMap Word.code).length := by
  cases words with
  | nil => cases some
  | cons word words =>
    rw [flatMap_cons, length_append, Word.length_code]
    omega

/-- comp_decode uses the whole buffer exactly when code words fill it up to its last byte. -/
lemma compDecode_iff {x : List Int} : compDecode logn buf = some (x, buf.length) ↔
      ∃ (words : List Word) (padding : List Bool), words.length = 2 ^ logn ∧
        x = words.map Word.value ∧ padding.length < 8 ∧ bits buf = words.flatMap Word.code ++ padding := by
  have start : BitReader.stream ⟨0, 0, buf⟩ = bits buf := rfl
  have initial : BitReader.accLen ⟨0, 0, buf⟩ < 8 := Nat.zero_lt_succ 7
  obtain ⟨taken, small⟩ := readCoefficients_agrees initial
  rw [start] at taken
  constructor
  · intro decoded
    obtain ⟨⟨coefficients, reader⟩, read, same⟩ := bind_eq_some_iff.mp decoded
    obtain ⟨rfl, used⟩ := Prod.mk.inj (Option.some.inj same)
    rw [read] at taken
    obtain ⟨words, count, values, stream⟩ := (takeCoefficients_iff ..).mp taken
    refine ⟨words, reader.stream, count, values, ?_, stream⟩
    have less := small _ read
    have total := congrArg List.length stream
    have nonempty := length_words_pos words (by rw [count]; exact Nat.two_pow_pos logn)
    rw [length_bits, length_append] at total
    rw [length_stream] at total ⊢
    change reader.accLen < 8 at less
    omega
  · rintro ⟨words, padding, count, rfl, short, stream⟩
    have read := (takeCoefficients_iff ..).mpr ⟨words, count, rfl, stream⟩
    rw [taken] at read
    obtain ⟨⟨x, reader⟩, found, same⟩ := map_eq_some_iff.mp read
    obtain ⟨rfl, rfl⟩ := Prod.mk.inj same
    have empty : reader.buf.length = 0 := by
      change reader.stream.length < 8 at short
      rw [length_stream] at short
      omega
    rw [compDecode, found]
    exact congrArg (fun used => some (_, used)) (by omega)

/-! Two buffers with the same coefficients. A zero has two signs, and the bits behind the
last word are free; there is no other choice. -/

/-- The number of bits that the words of the given coefficients take. -/
def codeLength (x : List Int) : Nat := (x.map fun c => 9 + c.natAbs / 128).sum

lemma Word.natAbs_value : word.value.natAbs = word.m := by
  unfold value signed
  split_ifs <;> simp

lemma length_words : (words.flatMap Word.code).length = codeLength (words.map Word.value) := by
  induction words with
  | nil => rfl
  | cons word words ih =>
    rw [flatMap_cons, length_append, ih, Word.length_code]
    simp [codeLength, Word.natAbs_value]

lemma Word.eq_of_value {word other : Word} (nonzero : word.value ≠ 0)
    (same : word.value = other.value) : word = other := by
  obtain ⟨negative, m, small⟩ := word
  obtain ⟨negative', m', small'⟩ := other
  cases negative <;> cases negative' <;> simp_all [value, signed] <;> omega

lemma words_of_values {words others : List Word} (nonzero : ∀ word ∈ words, word.value ≠ 0)
    (same : words.map Word.value = others.map Word.value) : words = others := by
  induction words generalizing others with
  | nil => exact (map_eq_nil_iff.mp same.symm).symm
  | cons word words ih =>
    cases others with
    | nil => cases same
    | cons other others =>
      obtain ⟨head, tail⟩ := List.cons.inj same
      rw [Word.eq_of_value (nonzero word mem_cons_self) head,
        ih (fun later member => nonzero later (mem_cons_of_mem _ member)) tail]

def Word.flip (word : Word) : Word := { word with negative := !word.negative }

lemma Word.flip_value {word : Word} (zero : word.value = 0) : word.flip.value = word.value := by
  have size := word.natAbs_value
  rw [zero, Int.natAbs_zero] at size
  simp [value, flip, signed, ← size]

lemma Word.flip_code_ne : word.flip.code ++ rest ≠ word.code ++ rest := by
  intro same
  have head := (List.cons.inj same).1
  cases sign : word.negative <;> simp [flip, sign] at head

/-- Another stream of the same length, behind words of the same values, is decoded alike. -/
lemma exists_other (padding : List Bool) (count : words.length = 2 ^ logn) (short : padding.length < 8)
    (length : (words.flatMap Word.code ++ padding).length = (bits buf).length)
    (different : words.flatMap Word.code ++ padding ≠ bits buf) :
    ∃ other : Bytes, compDecode logn other = some (words.map Word.value, other.length) ∧
      other.length = buf.length ∧ other ≠ buf := by
  obtain ⟨other, packed⟩ := exists_bits (length.trans length_bits)
  refine ⟨other, ?_, ?_, ?_⟩
  · exact (compDecode_iff ..).mpr ⟨words, padding, count, rfl, short, packed⟩
  · rw [← packed, length_bits, length_bits] at length
    omega
  · rintro rfl
    exact different packed.symm

/-- What leaves no choice to an encoder. -/
def HasOneCode (x : List Int) : Prop := (∀ c ∈ x, c ≠ 0) ∧ codeLength x % 8 = 0

instance (x : List Int) : Decidable (HasOneCode x) :=
  inferInstanceAs (Decidable ((∀ c ∈ x, c ≠ 0) ∧ codeLength x % 8 = 0))

lemma padding_length {padding : List Bool} {words : List Word}
    (stream : bits buf = words.flatMap Word.code ++ padding) :
    codeLength (words.map Word.value) + padding.length = 8 * buf.length := by
  rw [← length_words, ← length_append, ← stream, length_bits]

variable (decoded : compDecode logn buf = some (x, buf.length))
include decoded

lemma other_of_zero (zero : 0 ∈ x) : ∃ other : Bytes, compDecode logn other = some (x, other.length) ∧
      other.length = buf.length ∧ other ≠ buf := by
  obtain ⟨words, padding, count, rfl, short, stream⟩ := (compDecode_iff ..).mp decoded
  obtain ⟨word, member, value⟩ := mem_map.mp zero
  obtain ⟨front, back, rfl⟩ := append_of_mem member
  have values : (front ++ word.flip :: back).map Word.value = (front ++ word :: back).map Word.value := by
    simp [Word.flip_value value]
  have codes : word.flip.code.length = word.code.length := by rfl
  rw [← values]
  refine exists_other _ padding ?_ short ?_ ?_
  · rw [← count]
    simp
  · rw [stream]
    simp [codes]
  · rw [stream]
    intro same
    simp only [flatMap_append, flatMap_cons, append_assoc] at same
    exact Word.flip_code_ne word (append_cancel_left same)

lemma other_of_padding (free : codeLength x % 8 ≠ 0) :
    ∃ other : Bytes, compDecode logn other = some (x, other.length) ∧ other.length = buf.length ∧ other ≠ buf := by
  obtain ⟨words, padding, count, rfl, short, stream⟩ := (compDecode_iff ..).mp decoded
  have total := padding_length stream
  cases padding with
  | nil =>
    rw [length_nil] at total
    omega
  | cons bit rest =>
    refine exists_other words ((!bit) :: rest) count short ?_ ?_
    · rw [stream]
      simp
    · rw [stream]
      intro same
      have head := (List.cons.inj (append_cancel_left same)).1
      cases bit <;> cases head

/-- A buffer is the only one with its coefficients exactly when none of them is zero and
their words end with a byte. -/
lemma compDecode_unique_iff :
    (∀ other : Bytes, compDecode logn other = some (x, other.length) → other = buf) ↔ HasOneCode x := by
  constructor
  · intro unique
    constructor
    · intro c member zero
      obtain ⟨other, alike, _, different⟩ := other_of_zero decoded (zero ▸ member)
      exact different (unique other alike)
    · by_contra free
      obtain ⟨other, alike, _, different⟩ := other_of_padding decoded free
      exact different (unique other alike)
  · rintro ⟨nonzero, whole⟩ other alike
    obtain ⟨words, padding, _, rfl, short, stream⟩ := (compDecode_iff ..).mp decoded
    obtain ⟨others, padding', _, values, short', stream'⟩ := (compDecode_iff ..).mp alike
    have same : words = others := words_of_values (fun word member => nonzero _ (mem_map_of_mem member)) values
    subst same
    -- both paddings are shorter than a byte and complete one, so both are empty
    have total := padding_length stream
    have total' := padding_length stream'
    have none : padding = [] := length_eq_zero_iff.mp (by omega)
    have none' : padding' = [] := length_eq_zero_iff.mp (by omega)
    apply bits_injective
    rw [stream, stream', none, none']

end Dragonchain.Falcon
