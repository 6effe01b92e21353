import Mathlib.Data.List.Basic
import Mathlib.Tactic.Ring

/-!
Little-endian integers and stream readers over byte lists. A reader consumes a
front part of its input and fails as a thrown stream error would; `Reads` says
that it reads one value from exactly the given bytes, whatever follows them.
-/

namespace Dragonchain.ByteCodec

open List

variable {second bytes front back : List UInt8}

def leBytes : Nat → Nat → List UInt8
  | 0, _ => []
  | width + 1, value => UInt8.ofNat value :: leBytes width (value / 256)

def leValue : List UInt8 → Nat
  | [] => 0
  | byte :: rest => byte.toNat + 256 * leValue rest

variable (width value : Nat)

@[simp] lemma length_leBytes : (leBytes width value).length = width := by
  induction width generalizing value with
  | zero => rfl
  | succ width ih => simp [leBytes, ih]

lemma leValue_leBytes : leValue (leBytes width value) = value % 256 ^ width := by
  induction width generalizing value with
  | zero => simp [leBytes, leValue, Nat.mod_one]
  | succ width ih =>
    have digit : (UInt8.ofNat value).toNat = value % 256 := UInt8.toNat_ofNat'
    rw [leBytes, leValue, ih, digit, pow_succ', Nat.mod_mul (a := 256)]

lemma leValue_leBytes_of_lt (fits : value < 256 ^ width) : leValue (leBytes width value) = value := by
  rw [leValue_leBytes, Nat.mod_eq_of_lt fits]

lemma leBytes_mod : leBytes width (value % 256 ^ width) = leBytes width value := by
  induction width generalizing value with
  | zero => rfl
  | succ width ih =>
    have digit : UInt8.ofNat (value % 256 ^ (width + 1)) = UInt8.ofNat value := by
      apply UInt8.toNat_inj.mp
      exact Nat.mod_mod_of_dvd value (Dvd.intro_left _ (pow_succ ..).symm)
    rw [leBytes, leBytes, digit, pow_succ', Nat.mod_mul_right_div_self, ih]

lemma leValue_lt (bytes : List UInt8) : leValue bytes < 256 ^ bytes.length := by
  induction bytes with
  | nil => simp [leValue]
  | cons byte rest ih =>
    have digit := byte.toNat_lt
    simp only [leValue, length_cons, pow_succ']
    omega

lemma leValue_injective {first : List UInt8} (length : first.length = second.length)
    (same : leValue first = leValue second) : first = second := by
  induction first generalizing second with
  | nil => exact (length_eq_zero_iff.mp length.symm).symm
  | cons byte rest ih =>
    cases second with
    | nil => cases length
    | cons byte' rest' =>
      simp only [leValue] at same
      have digit := byte.toNat_lt
      have digit' := byte'.toNat_lt
      have head : byte = byte' := UInt8.toNat_inj.mp (by omega)
      have tail : rest = rest' := ih (Nat.succ.inj length) (by omega)
      rw [head, tail]

abbrev Reader (α : Type) := StateT (List UInt8) Option α

def Reads {α : Type} (reader : Reader α) (bytes : List UInt8) (value : α) : Prop :=
  ∀ rest, reader (bytes ++ rest) = some (value, rest)

section Readers
variable {α β : Type} {item : Reader α} {post : α → List UInt8 → Prop} {count : Nat} {value : α}

lemma reads_pure : Reads (pure value : Reader α) [] value := fun _ => rfl

variable {reader : Reader α} {value : α} {first : α → List UInt8 → Prop} {k : α → Reader β}
  (f : α → β)

lemma Reads.bind {result : β} (first : Reads reader front value)
    (second : Reads (k value) back result) : Reads (reader >>= k) (front ++ back) result := by
  intro rest
  show (reader (front ++ back ++ rest)).bind (fun answer => k answer.1 answer.2) = _
  rw [append_assoc, first (back ++ rest)]
  exact second rest

lemma Reads.last {f : α → β} (first : Reads reader bytes value) :
    Reads (reader >>= fun answer => pure (f answer)) bytes (f value) := by
  have step := first.bind (k := fun answer => pure (f answer)) reads_pure
  rwa [append_nil] at step

lemma Reads.map (first : Reads reader bytes value) : Reads (f <$> reader) bytes (f value) := by
  intro rest
  rw [← first.last rest]
  rfl

def readBytes (count : Nat) : Reader (List UInt8) := fun input =>
  if count ≤ input.length then some (input.take count, input.drop count) else none

lemma reads_bytes (bytes : List UInt8) : Reads (readBytes bytes.length) bytes bytes := by
  intro rest
  simp [readBytes]

def readNat (width : Nat) : Reader Nat := leValue <$> readBytes width

lemma reads_nat (width value : Nat) (fits : value < 256 ^ width) :
    Reads (readNat width) (leBytes width value) value := by
  have raw := reads_bytes (leBytes width value)
  rw [length_leBytes] at raw
  have decoded := raw.map leValue
  rwa [leValue_leBytes_of_lt width value fits] at decoded

def readMany (item : Reader α) : Nat → Reader (List α)
  | 0 => pure []
  | count + 1 => do
    let value ← item
    (value :: ·) <$> readMany item count

lemma reads_many {values : List α} {encode : α → List UInt8}
    (each : ∀ value ∈ values, Reads item (encode value) value) :
    Reads (readMany item values.length) (values.flatMap encode) values := by
  induction values with
  | nil => exact reads_pure
  | cons value rest ih =>
    have tail := ih fun other member => each other (mem_cons_of_mem value member)
    refine (each value mem_cons_self).bind ?_
    exact tail.map (value :: ·)

/-! The other direction: what a reader that succeeds has taken. -/

/-- Whenever the reader returns a value, it took bytes that stand in `post` to it. -/
def Takes (reader : Reader α) (post : α → List UInt8 → Prop) : Prop :=
  ∀ input value rest, reader input = some (value, rest) → ∃ bytes, input = bytes ++ rest ∧ post value bytes

lemma takes_pure : Takes (pure value : Reader α) fun answer bytes => answer = value ∧ bytes = [] := by
  rintro input answer rest ⟨⟩
  exact ⟨[], rfl, rfl, rfl⟩

lemma Takes.bind {second : α → β → List UInt8 → Prop} (head : Takes reader first)
    (onward : ∀ value, Takes (k value) (second value)) :
    Takes (reader >>= k) fun result bytes => ∃ value front back,
      bytes = front ++ back ∧ first value front ∧ second value result back := by
  intro input result rest done
  obtain ⟨⟨value, middle⟩, read, followed⟩ := Option.bind_eq_some_iff.mp done
  obtain ⟨front, split, here⟩ := head input value middle read
  obtain ⟨back, split', later⟩ := onward value middle result rest followed
  refine ⟨front ++ back, ?_, value, front, back, rfl, here, later⟩
  rw [split, split', append_assoc]

variable (takes : Takes reader first)
include takes

lemma Takes.guarded {bad : α → Prop} [DecidablePred bad] :
    Takes (do let value ← reader; if bad value then failure else pure value)
      fun value bytes => first value bytes ∧ ¬ bad value := by
  intro input value rest done
  obtain ⟨⟨answer, left⟩, read, checked⟩ := Option.bind_eq_some_iff.mp done
  dsimp only at checked
  split at checked
  · cases checked
  · next good =>
    cases checked
    obtain ⟨bytes, split, holds⟩ := takes input value rest read
    exact ⟨bytes, split, holds, good⟩

lemma Takes.mono {second : α → List UInt8 → Prop}
    (weaker : ∀ value bytes, first value bytes → second value bytes) : Takes reader second := by
  intro input value rest done
  obtain ⟨bytes, split, holds⟩ := takes input value rest done
  exact ⟨bytes, split, weaker value bytes holds⟩

lemma Takes.map : Takes (f <$> reader) fun result bytes => ∃ value, result = f value ∧ first value bytes := by
  intro input result rest done
  obtain ⟨⟨value, left⟩, read, same⟩ := Option.bind_eq_some_iff.mp done
  cases same
  obtain ⟨bytes, split, holds⟩ := takes input value rest read
  exact ⟨bytes, split, value, rfl, holds⟩

omit takes

lemma takes_bytes : Takes
    (readBytes count) fun value bytes =>
    value = bytes ∧ bytes.length = count := by
  intro input value rest done
  rw [readBytes] at done
  split at done
  · rename_i enough
    cases done
    exact ⟨input.take count, (take_append_drop count input).symm, rfl, length_take_of_le enough⟩
  · cases done

lemma takes_nat {width : Nat} :
    Takes (readNat width) fun value bytes => value < 256 ^ width ∧ bytes = leBytes width value := by
  refine (takes_bytes.map leValue).mono ?_
  rintro value bytes ⟨raw, rfl, same, length⟩
  rw [same]
  have bound := leValue_lt bytes
  rw [length] at bound
  refine ⟨bound, leValue_injective (by rw [length, length_leBytes]) ?_⟩
  rw [leValue_leBytes_of_lt width _ bound]

lemma takes_many (each : Takes item post) :
    Takes (readMany item count) fun values bytes => values.length = count ∧
      ∃ parts : List (List UInt8), bytes = parts.flatten ∧ List.Forall₂ post values parts := by
  induction count with
  | zero =>
    refine takes_pure.mono ?_
    rintro values bytes ⟨rfl, rfl⟩
    exact ⟨rfl, [], rfl, .nil⟩
  | succ count ih =>
    refine (each.bind fun value => ih.map (value :: ·)).mono ?_
    rintro values bytes ⟨value, front, back, rfl, here, rest, rfl, length, parts, rfl, later⟩
    exact ⟨congrArg Nat.succ length, front :: parts, rfl, .cons here later⟩

end Readers

end Dragonchain.ByteCodec
