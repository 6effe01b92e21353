import Mathlib.Algebra.Group.Nat.Defs
import Dragonchain.Primitives

/-!
Encode and Decode of bech32.cpp. Strings are the bytes of their characters. The state of
PolyMod is a 32-bit word; Decode returns the pair of empty vectors where the source
returns an empty pair.
-/

namespace Dragonchain.Bech32

open List UInt8

variable {mod d c : BitVec 32}

def CHARSET : Bytes := "qpzry9x8gf2tvdw0s3jn54khce6mua7l".toUTF8.toList

def CHARSET_REV : List Int := [
  -1, -1, -1, -1, -1, -1, -1, -1, -1, -1, -1, -1, -1, -1, -1, -1,
  -1, -1, -1, -1, -1, -1, -1, -1, -1, -1, -1, -1, -1, -1, -1, -1,
  -1, -1, -1, -1, -1, -1, -1, -1, -1, -1, -1, -1, -1, -1, -1, -1,
  15, -1, 10, 17, 21, 20, 26, 30,  7,  5, -1, -1, -1, -1, -1, -1,
  -1, 29, -1, 24, 13, 25,  9,  8, 23, -1, 18, 22, 31, 27, 19, -1,
   1,  0,  3, 16, 11, 28, 12, 14,  6,  4,  2, -1, -1, -1, -1, -1,
  -1, 29, -1, 24, 13, 25,  9,  8, 23, -1, 18, 22, 31, 27, 19, -1,
   1,  0,  3, 16, 11, 28, 12, 14,  6,  4,  2, -1, -1, -1, -1, -1]

/-- The multiples of k(x) that the bits of c0 add. -/
def generator : List (UInt8 × BitVec 32) :=
  [(1, 0x3b6a57b2#32), (2, 0x26508e6d#32), (4, 0x1ea119fa#32), (8, 0x3d4233dd#32), (16, 0x2a1462b3#32)]

def addMultiples (c0 : UInt8) : List (UInt8 × BitVec 32) → BitVec 32 → BitVec 32 :=
  fun multiples c => multiples.foldl (fun c term => if c0 &&& term.1 ≠ 0 then c ^^^ term.2 else c) c

/-- One iteration of the loop of PolyMod. -/
def polyStep (c : BitVec 32) (value : UInt8) : BitVec 32 :=
  let c0 := UInt8.ofNat (c >>> 25).toNat
  addMultiples c0 generator (((c &&& 0x1ffffff#32) <<< 5) ^^^ value.toBitVec.setWidth 32)

def polyMod (v : Bytes) : BitVec 32 := v.foldl polyStep 1#32

def lowerCase (c : UInt8) : UInt8 := if 0x41 ≤ c ∧ c ≤ 0x5a then c - 0x41 + 0x61 else c

def expandHRP (hrp : Bytes) : Bytes := hrp.map (fun c : UInt8 => c >>> 5) ++ [0] ++ hrp.map fun c => c &&& 0x1f

def verifyChecksum (hrp values : Bytes) : Bool := polyMod (expandHRP hrp ++ values) == 1#32

def groupAt (mod : BitVec 32) (bit : Nat) : UInt8 := UInt8.ofNat ((mod >>> bit) &&& 31#32).toNat

def createChecksum (hrp values : Bytes) : Bytes :=
  let enc := expandHRP hrp ++ values ++ replicate 6 0
  let mod := polyMod enc ^^^ 1#32
  (range 6).map fun i => groupAt mod (5 * (5 - i))

/-- The character '1' between the human-readable part and the data. -/
def separator : UInt8 := 0x31

def charOf (c : UInt8) : UInt8 := CHARSET.getD c.toNat 0

def encode (hrp values : Bytes) : Bytes :=
  let combined := values ++ createChecksum hrp values
  hrp ++ [separator] ++ combined.map charOf

def rfind (str : Bytes) (c : UInt8) : Option Nat := (str.reverse.idxOf? c).map fun back => str.length - 1 - back

def rev (c : UInt8) : Option UInt8 :=
  let rev := if c < 33 ∨ c > 126 then -1 else CHARSET_REV.getD c.toNat (-1)
  if rev = -1 then none else some (UInt8.ofNat rev.toNat)

def decode (str : Bytes) : Bytes × Bytes :=
  if str.any fun c => decide (c < 33 ∨ c > 126) then ([], [])
  else
    let lower := str.any fun c => decide (0x61 ≤ c ∧ c ≤ 0x7a)
    let upper := str.any fun c => decide (0x41 ≤ c ∧ c ≤ 0x5a)
    if lower && upper then ([], [])
    else
      match rfind str separator with
      | none => ([], [])
      | some pos =>
        if str.length > 90 ∨ pos = 0 ∨ pos + 7 > str.length then ([], [])
        else
          match (str.drop (pos + 1)).mapM rev with
          | none => ([], [])
          | some values =>
            let hrp := (str.take pos).map lowerCase
            if verifyChecksum hrp values then (hrp, values.take (values.length - 6))
            else ([], [])

/-! The checksum. -/

variable {values : Bytes} {front : Bytes} (c0 : UInt8)

lemma addMultiples_xor (multiples : List (UInt8 × BitVec 32)) (c d : BitVec 32) :
    addMultiples c0 multiples (c ^^^ d) = addMultiples c0 multiples c ^^^ d := by
  induction multiples generalizing c with
  | nil => rfl
  | cons term rest ih =>
    simp only [addMultiples, foldl_cons] at ih ⊢
    split
    · rw [BitVec.xor_assoc, BitVec.xor_comm d, ← BitVec.xor_assoc, ih]
    · exact ih c

variable {hrp data : Bytes}

lemma and_mask (low : d >>> 25 = 0#32) : d &&& 0x1ffffff#32 = d := by
  apply BitVec.eq_of_toNat_eq
  have small : d.toNat < 2 ^ 25 := by
    have upper := congrArg BitVec.toNat low
    rw [BitVec.toNat_ushiftRight, Nat.shiftRight_eq_div_pow] at upper
    exact Nat.lt_of_div_eq_zero (by decide) upper
  have mask : (0x1ffffff#32).toNat = 2 ^ 25 - 1 := rfl
  rw [BitVec.toNat_and, mask, Nat.and_two_pow_sub_one_eq_mod, Nat.mod_eq_of_lt small]

/-- The step is linear in what the state has below its upper group. -/
lemma polyStep_xor (low : d >>> 25 = 0#32) (c : BitVec 32) (value : UInt8) :
    polyStep (c ^^^ d) value = polyStep c 0 ^^^ ((d <<< 5) ^^^ value.toBitVec.setWidth 32) := by
  have upper : (c ^^^ d) >>> 25 = c >>> 25 := by rw [BitVec.ushiftRight_xor_distrib, low, BitVec.xor_zero]
  have kept : ((c ^^^ d) &&& 0x1ffffff#32) <<< 5 = ((c &&& 0x1ffffff#32) <<< 5) ^^^ (d <<< 5) := by
    have parts : (c ^^^ d) &&& 0x1ffffff#32 = (c &&& 0x1ffffff#32) ^^^ (d &&& 0x1ffffff#32) := by
      ext i
      simp [Bool.and_xor_distrib_right]
    rw [parts, and_mask low, BitVec.shiftLeft_xor_distrib]
  rw [polyStep, upper, kept, BitVec.xor_assoc, addMultiples_xor]
  simp [polyStep]

lemma groupAt_toBitVec (mod : BitVec 32) (bit : Nat) :
    (groupAt mod bit).toBitVec.setWidth 32 = (mod >>> bit) &&& 31#32 := by
  apply BitVec.eq_of_toNat_eq
  have small : ((mod >>> bit) &&& 31#32).toNat < 2 ^ 5 := by exact Nat.and_lt_two_pow _ (by decide)
  rw [BitVec.toNat_setWidth, groupAt, toNat_toBitVec, toNat_ofNat']
  omega

lemma join_group (x : BitVec 32) : ((x >>> 5) <<< 5) ^^^ (x &&& 31#32) = x := by
  apply BitVec.eq_of_getLsbD_eq
  intro i inside
  have mask : (31#32).getLsbD i = decide (i < 5) := by exact Nat.testBit_two_pow_sub_one 5 i
  rw [BitVec.getLsbD_xor, BitVec.getLsbD_and, mask, BitVec.getLsbD_shiftLeft, BitVec.getLsbD_ushiftRight]
  rcases Nat.lt_or_ge i 5 with low | high
  · simp [low]
  · simp [Nat.not_lt_of_le high, inside, Nat.add_sub_cancel' high]

lemma polyStep_group (fits : mod >>> 30 = 0#32) (c : BitVec 32) (bit : Nat) :
    polyStep (c ^^^ (mod >>> (bit + 5))) (groupAt mod bit) = polyStep c 0 ^^^ (mod >>> bit) := by
  have low : (mod >>> (bit + 5)) >>> 25 = 0#32 := by
    rw [← BitVec.shiftRight_add, Nat.add_assoc, Nat.add_comm bit, BitVec.shiftRight_add, fits,
      BitVec.zero_ushiftRight]
  have joined : ((mod >>> (bit + 5)) <<< 5) ^^^ (groupAt mod bit).toBitVec.setWidth 32 = mod >>> bit := by
    rw [groupAt_toBitVec, BitVec.shiftRight_add, join_group]
  rw [polyStep_xor low, joined]

/-- Feeding the groups of `mod` from the top leaves what zeros leave, changed by `mod`. -/
lemma foldl_groups (fits : mod >>> 30 = 0#32) (c : BitVec 32) (count : Nat) :
    ((range count).map fun i => groupAt mod (5 * (count - 1 - i))).foldl polyStep
        (c ^^^ (mod >>> (5 * count))) = (replicate count 0).foldl polyStep c ^^^ mod := by
  induction count generalizing c with
  | zero => rw [Nat.mul_zero, BitVec.ushiftRight_zero]; rfl
  | succ count ih =>
    have tail : (range count).map ((fun i => groupAt mod (5 * (count + 1 - 1 - i))) ∘ Nat.succ) =
        (range count).map fun i => groupAt mod (5 * (count - 1 - i)) := by
      refine map_congr_left fun i _ => ?_
      simp only [Function.comp_apply, Nat.add_sub_cancel, Nat.sub_sub, Nat.succ_eq_one_add]
    rw [range_succ_eq_map, map_cons, map_map, tail, foldl_cons,
      replicate_succ, foldl_cons, ← ih, Nat.sub_zero, Nat.add_sub_cancel, Nat.mul_succ,
      polyStep_group fits]

lemma addMultiples_fits {multiples : List (UInt8 × BitVec 32)}
    (small : ∀ term ∈ multiples, term.2 >>> 30 = 0#32) (fits : c >>> 30 = 0#32) :
    addMultiples c0 multiples c >>> 30 = 0#32 := by
  induction multiples generalizing c with
  | nil => exact fits
  | cons term rest ih =>
    have onward := fun other member => small other (mem_cons_of_mem _ member)
    rw [addMultiples, foldl_cons]
    apply ih onward
    split
    · rw [BitVec.ushiftRight_xor_distrib, fits, small term mem_cons_self, BitVec.xor_zero]
    · exact fits

lemma ushiftRight_thirty (small : c.toNat < 2 ^ 30) : c >>> 30 = 0#32 := by
  apply BitVec.eq_of_toNat_eq
  rw [BitVec.toNat_ushiftRight, Nat.shiftRight_eq_div_pow, Nat.div_eq_of_lt small]
  rfl

lemma polyStep_fits {value : UInt8} : polyStep c value >>> 30 = 0#32 := by
  apply addMultiples_fits
  · have small : generator.all (fun term => term.2 >>> 30 == 0#32) = true := by decide
    exact fun term member => eq_of_beq (all_eq_true.mp small term member)
  · have shifted : ((c &&& 0x1ffffff#32) <<< 5).toNat < 2 ^ 30 := by
      have low : (c &&& 0x1ffffff#32).toNat < 2 ^ 25 := by exact Nat.and_lt_two_pow _ (by decide)
      rw [BitVec.toNat_shiftLeft, Nat.shiftLeft_eq]
      omega
    have byte : (value.toBitVec.setWidth 32).toNat < 2 ^ 30 := by
      have := value.toNat_lt
      rw [BitVec.toNat_setWidth, toNat_toBitVec]
      omega
    rw [BitVec.ushiftRight_xor_distrib, ushiftRight_thirty shifted, ushiftRight_thirty byte, BitVec.xor_zero]

lemma polyMod_fits (value : UInt8) : polyMod (front ++ [value]) >>> 30 = 0#32 := by
  rw [polyMod, foldl_append]
  exact polyStep_fits

lemma verifyChecksum_createChecksum : verifyChecksum hrp (values ++ createChecksum hrp values) = true := by
  have fits : (polyMod (expandHRP hrp ++ values ++ replicate 6 0) ^^^ 1#32) >>> 30 = 0#32 := by
    have zeros : (replicate 6 0 : Bytes) = replicate 5 0 ++ [0] := rfl
    rw [zeros, ← append_assoc, BitVec.ushiftRight_xor_distrib, polyMod_fits, BitVec.zero_xor]
    rfl
  have fed := foldl_groups fits (polyMod (expandHRP hrp ++ values)) 6
  rw [fits, BitVec.xor_zero] at fed
  rw [verifyChecksum, beq_iff_eq, ← append_assoc, polyMod, foldl_append]
  refine fed.trans ?_
  rw [polyMod, ← foldl_append, ← polyMod, ← BitVec.xor_assoc, BitVec.xor_self, BitVec.zero_xor]

/-! Detecting a wrong value. -/

lemma polyStep_eq (c : BitVec 32) (value : UInt8) :
    polyStep c value = addMultiples (UInt8.ofNat (c >>> 25).toNat) generator 0#32 ^^^
      (((c &&& 0x1ffffff#32) <<< 5) ^^^ value.toBitVec.setWidth 32) := by
  rw [polyStep, ← addMultiples_xor, BitVec.zero_xor]

/-- The low group of a multiple of k(x) tells which multiple it is. -/
lemma multiples_inj : ∀ first < 32, ∀ second < 32, addMultiples (UInt8.ofNat first) generator 0#32 <<< 27 =
      addMultiples (UInt8.ofNat second) generator 0#32 <<< 27 → first = second := by
  decide +kernel

lemma upper_lt (fits : c >>> 30 = 0#32) : c.toNat < 2 ^ 30 := by
  have upper := congrArg BitVec.toNat fits
  rw [BitVec.toNat_ushiftRight, Nat.shiftRight_eq_div_pow] at upper
  exact Nat.lt_of_div_eq_zero (by decide) upper

lemma polyStep_inj {value : UInt8} (cFits : c >>> 30 = 0#32) (dFits : d >>> 30 = 0#32)
    (same : polyStep c value = polyStep d value) : c = d := by
  have cSmall := upper_lt cFits
  have dSmall := upper_lt dFits
  rw [polyStep_eq, polyStep_eq, ← BitVec.xor_assoc, ← BitVec.xor_assoc, BitVec.xor_left_inj] at same
  have shifted (x : BitVec 32) : (x <<< 5) <<< 27 = 0#32 := by
    rw [← BitVec.shiftLeft_add]
    exact BitVec.shiftLeft_eq_zero (by decide)
  have upper : (c >>> 25).toNat = (d >>> 25).toNat := by
    have low := congrArg (fun x : BitVec 32 => x <<< 27) same
    simp only [BitVec.shiftLeft_xor_distrib, shifted, BitVec.xor_zero] at low
    refine multiples_inj _ ?_ _ ?_ low
    · rw [BitVec.toNat_ushiftRight, Nat.shiftRight_eq_div_pow]
      omega
    · rw [BitVec.toNat_ushiftRight, Nat.shiftRight_eq_div_pow]
      omega
  rw [upper, BitVec.xor_right_inj] at same
  have lower := congrArg BitVec.toNat same
  have mask : (0x1ffffff#32).toNat = 2 ^ 25 - 1 := rfl
  simp only [BitVec.toNat_shiftLeft, BitVec.toNat_and, mask, Nat.and_two_pow_sub_one_eq_mod,
    Nat.shiftLeft_eq] at lower
  simp only [BitVec.toNat_ushiftRight, Nat.shiftRight_eq_div_pow] at upper
  apply BitVec.eq_of_toNat_eq
  omega

lemma foldl_polyStep_inj (cFits : c >>> 30 = 0#32)
    (dFits : d >>> 30 = 0#32) (same : values.foldl polyStep c = values.foldl polyStep d) : c = d := by
  induction values generalizing c d with
  | nil => exact same
  | cons value rest ih => exact polyStep_inj cFits dFits (ih polyStep_fits polyStep_fits same)

variable {i : Nat}

lemma verifyChecksum_set {value : UInt8} (inside : i < data.length)
    (valid : verifyChecksum hrp data = true) (differs : data[i] ≠ value) :
    verifyChecksum hrp (data.set i value) = false := by
  rw [verifyChecksum, beq_iff_eq, ← take_append_drop i data, drop_eq_getElem_cons inside,
    ← append_assoc, polyMod, foldl_append, foldl_cons] at valid
  rw [verifyChecksum, beq_eq_false_iff_ne, set_eq_take_append_cons_drop, if_pos inside,
    ← append_assoc, polyMod, foldl_append, foldl_cons]
  intro passed
  have step := foldl_polyStep_inj polyStep_fits polyStep_fits (valid.trans passed.symm)
  rw [polyStep_eq, polyStep_eq, BitVec.xor_right_inj, BitVec.xor_right_inj] at step
  refine differs (UInt8.toNat_inj.mp ?_)
  simpa using congrArg BitVec.toNat step

/-! Reading a string back. -/

/-- A character that Decode takes as it is. -/
def Printed (c : UInt8) : Prop := ¬ (c < 33 ∨ c > 126) ∧ ¬ (0x41 ≤ c ∧ c ≤ 0x5a)

instance (c : UInt8) : Decidable (Printed c) := by
  unfold Printed
  infer_instance

lemma charOf_spec : ∀ value < 32, rev (charOf (UInt8.ofNat value)) = some (UInt8.ofNat value) ∧
    Printed (charOf (UInt8.ofNat value)) ∧ charOf (UInt8.ofNat value) ≠ separator := by
  decide +kernel

lemma rev_charOf (small : ∀ value ∈ values, value.toNat < 2 ^ 5) : (values.map charOf).mapM rev = some values := by
  induction values with
  | nil => rfl
  | cons value rest ih =>
    have head := (charOf_spec value.toNat (small value mem_cons_self)).1
    rw [UInt8.ofNat_toNat] at head
    rw [map_cons, mapM_cons, head, ih fun other member => small other (mem_cons_of_mem _ member)]
    rfl

lemma createChecksum_small : ∀ value ∈ createChecksum hrp values, value.toNat < 2 ^ 5 := by
  intro value member
  obtain ⟨i, -, rfl⟩ := mem_map.mp member
  exact Nat.lt_of_le_of_lt (Nat.mod_le _ _) (Nat.and_lt_two_pow _ (by decide))

lemma rfind_separator {back : Bytes} (absent : separator ∉ back) :
    rfind (front ++ [separator] ++ back) separator = some front.length := by
  have found : (front ++ [separator] ++ back).reverse.idxOf? separator = some back.length := by
    have unseen : back.reverse.findIdx? (· == separator) = none := by
      rw [findIdx?_eq_none_iff]
      intro c member
      exact beq_eq_false_iff_ne.mpr fun same => absent (same ▸ mem_reverse.mp member)
    rw [reverse_append, reverse_append, List.idxOf?, findIdx?_append, unseen]
    simp [findIdx?_cons]
  rw [rfind, found, Option.map_some, length_append, length_append, length_singleton]
  congr 1
  omega

lemma lowerCase_printed (printed : ∀ c ∈ hrp, Printed c) : hrp.map lowerCase = hrp :=
  (map_congr_left fun c member => if_neg (printed c member).2).trans (map_id hrp)

lemma charOf_printed (small : ∀ value ∈ data, value.toNat < 2 ^ 5) :
    ∀ c ∈ data.map charOf, Printed c ∧ c ≠ separator := by
  intro c member
  obtain ⟨value, inside, rfl⟩ := mem_map.mp member
  have spec := (charOf_spec value.toNat (small value inside)).2
  rwa [UInt8.ofNat_toNat] at spec

lemma string_printed (printed : ∀ c ∈ hrp, Printed c) (small : ∀ value ∈ data, value.toNat < 2 ^ 5) :
    ∀ c ∈ hrp ++ [separator] ++ data.map charOf, Printed c := by
  refine forall_mem_append.mpr ⟨forall_mem_append.mpr ⟨printed, ?_⟩, ?_⟩
  · exact forall_mem_singleton.mpr (by decide)
  · exact fun c member => (charOf_printed small c member).1

lemma length_createChecksum (hrp values : Bytes) : (createChecksum hrp values).length = 6 := by
  rw [createChecksum, length_map, length_range]

lemma length_encode (hrp values : Bytes) : (encode hrp values).length = hrp.length + values.length + 7 := by
  rw [encode, length_append, length_append, length_map, length_append, length_createChecksum, length_singleton]
  omega

lemma combined_small (small : ∀ value ∈ values, value.toNat < 2 ^ 5) :
    ∀ value ∈ values ++ createChecksum hrp values, value.toNat < 2 ^ 5 :=
  forall_mem_append.mpr ⟨small, createChecksum_small⟩

/-- Decode on any characters of the charset: the checksum decides. -/
lemma decode_data (nonempty : hrp ≠ []) (printed : ∀ c ∈ hrp, Printed c)
    (small : ∀ value ∈ data, value.toNat < 2 ^ 5) (long : 6 ≤ data.length)
    (short : hrp.length + data.length ≤ 89) : decode (hrp ++ [separator] ++ data.map charOf) =
      if verifyChecksum hrp data then (hrp, data.take (data.length - 6)) else ([], []) := by
  have all := string_printed printed small
  have range : (hrp ++ [separator] ++ data.map charOf).any (fun c => decide (c < 33 ∨ c > 126)) = false :=
    any_eq_false.mpr fun c member => by simpa using (all c member).1
  have upper : (hrp ++ [separator] ++ data.map charOf).any (fun c => decide (0x41 ≤ c ∧ c ≤ 0x5a)) = false :=
    any_eq_false.mpr fun c member => by simpa using (all c member).2
  have pos : rfind (hrp ++ [separator] ++ data.map charOf) separator = some hrp.length :=
    rfind_separator fun member => (charOf_printed small separator member).2 rfl
  have bounds : ¬ ((hrp ++ [separator] ++ data.map charOf).length > 90 ∨ hrp.length = 0 ∨
      hrp.length + 7 > (hrp ++ [separator] ++ data.map charOf).length) := by
    have := length_pos_of_ne_nil nonempty
    rw [length_append, length_append, length_singleton, length_map]
    omega
  have back : (hrp ++ [separator] ++ data.map charOf).drop (hrp.length + 1) = data.map charOf :=
    drop_left' (by rw [length_append, length_singleton])
  have front : (hrp ++ [separator] ++ data.map charOf).take hrp.length = hrp := by rw [append_assoc, take_left]
  rw [decode, range, upper, pos]
  dsimp only
  rw [Bool.and_false, if_neg Bool.false_ne_true, if_neg Bool.false_ne_true, if_neg bounds, back,
    rev_charOf small, front]
  rw [lowerCase_printed printed]

section Encoded
variable {hrp values : Bytes} (nonempty : hrp ≠ []) (printed : ∀ c ∈ hrp, Printed c)
  (small : ∀ value ∈ values, value.toNat < 2 ^ 5) (short : hrp.length + values.length ≤ 83)

include nonempty printed small short

lemma decode_encode : decode (encode hrp values) = (hrp, values) := by
  have size : (values ++ createChecksum hrp values).length = values.length + 6 := by
    rw [length_append, length_createChecksum]
  rw [encode, decode_data nonempty printed (combined_small small) (by omega) (by omega),
    verifyChecksum_createChecksum, if_pos rfl, size, Nat.add_sub_cancel, take_left]

lemma decode_replaced {c : UInt8} (data : hrp.length < i)
    (inside : i < (encode hrp values).length) (symbol : c ∈ CHARSET)
    (differs : (encode hrp values)[i] ≠ c) : decode ((encode hrp values).set i c) = ([], []) := by
  obtain ⟨n, bound, rfl⟩ := mem_iff_getElem.mp symbol
  obtain ⟨j, rfl⟩ := Nat.exists_eq_add_of_lt data
  have size : (values ++ createChecksum hrp values).length = values.length + 6 := by
    rw [length_append, length_createChecksum]
  have within : j < (values ++ createChecksum hrp values).length := by
    rw [length_encode] at inside
    omega
  have symbols : CHARSET.length = 32 := by decide +kernel
  have value : (UInt8.ofNat n).toNat = n := by rw [toNat_ofNat', Nat.mod_eq_of_lt (by omega)]
  have character : charOf (UInt8.ofNat n) = CHARSET[n] := by
    rw [charOf, value, getD_eq_getElem?_getD, getElem?_eq_getElem bound, Option.getD_some]
  have start : (hrp ++ [separator]).length = hrp.length + 1 := by rw [length_append, length_singleton]
  have position : hrp.length + j + 1 - (hrp ++ [separator]).length = j := by omega
  have replaced : (encode hrp values).set (hrp.length + j + 1) CHARSET[n] =
      hrp ++ [separator] ++ ((values ++ createChecksum hrp values).set j (UInt8.ofNat n)).map charOf := by
    rw [encode, set_append_right _ _ (by omega), position, map_set, character]
  have wrong : (values ++ createChecksum hrp values)[j] ≠ UInt8.ofNat n := by
    intro same
    apply differs
    rw [← character, ← same]
    simp only [encode]
    rw [getElem_append_right (by omega)]
    simp only [position, getElem_map]
  have fits : ∀ value ∈ (values ++ createChecksum hrp values).set j (UInt8.ofNat n), value.toNat < 2 ^ 5 := by
    intro other member
    rcases mem_or_eq_of_mem_set member with old | rfl
    · exact combined_small small other old
    · omega
  rw [replaced, decode_data nonempty printed fits (by rw [length_set]; omega)
    (by rw [length_set]; omega),
    verifyChecksum_set within verifyChecksum_createChecksum wrong]
  rfl

/-- A string of Encode is read back, and with one character of its data replaced it is refused. -/
theorem decode_detects_replacement : decode (encode hrp values) = (hrp, values) ∧
    ∀ (i : Nat) (c : UInt8), hrp.length < i → ∀ inside : i < (encode hrp values).length, c ∈ CHARSET →
      (encode hrp values)[i] ≠ c → decode ((encode hrp values).set i c) = ([], []) :=
  ⟨decode_encode nonempty printed small short,
    fun _ _ data inside symbol differs => decode_replaced nonempty printed small short data inside symbol differs⟩

end Encoded

theorem decode_detects_replacement_q : decode (encode [0x62, 0x63] [1, 2]) = ([0x62, 0x63], [1, 2]) ∧
    decode ((encode [0x62, 0x63] [1, 2]).set 3 0x71) = ([], []) := by
  obtain ⟨back, detects⟩ := @decode_detects_replacement [0x62, 0x63] [1, 2] (by decide) (by simp [Printed])
    (by simp) (by decide)
  exact ⟨back, detects 3 0x71 (by decide) (by decide +kernel) (by decide +kernel) (by decide +kernel)⟩

end Dragonchain.Bech32
