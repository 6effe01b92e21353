import Mathlib.Data.List.Basic

/-!
Cipher block chaining over byte strings. A block cipher is a pair of functions on
blocks of one size; `chain` runs it over a list of blocks, each mixed with the
ciphertext of the one before, and `unchain` undoes that. `blocks` cuts the front of
a byte string into blocks and `padding` fills up the last one.
-/

namespace Dragonchain.BlockChaining

open List

variable {first second mixed : List UInt8} {size count : Nat}

/-- The exclusive or of two blocks. -/
def mix (first second : List UInt8) : List UInt8 := List.zipWith (· ^^^ ·) first second

variable {parts : List (List UInt8)}

lemma length_mix (left : first.length = size)
    (right : second.length = size) : (mix first second).length = size := by
  rw [mix, length_zipWith, left, right, Nat.min_self]

lemma mix_mix (same : first.length = second.length) : mix (mix first second) first = second := by
  induction first generalizing second with
  | nil => exact (length_eq_zero_iff.mp same.symm).symm
  | cons byte rest ih =>
    cases second with
    | nil => cases same
    | cons byte' rest' =>
      have here : byte ^^^ byte' ^^^ byte = byte' := by
        rw [UInt8.xor_comm byte, UInt8.xor_assoc, UInt8.xor_self, UInt8.xor_zero]
      have later := ih (Nat.succ.inj same)
      simp only [mix, zipWith_cons_cons, List.cons.injEq] at later ⊢
      exact ⟨here, later⟩

section Chain
variable (encrypt decrypt : List UInt8 → List UInt8)

def chain : List UInt8 → List (List UInt8) → List (List UInt8)
  | _, [] => []
  | mixed, block :: rest => encrypt (mix mixed block) :: chain (encrypt (mix mixed block)) rest

def unchain : List UInt8 → List (List UInt8) → List (List UInt8)
  | _, [] => []
  | previous, block :: rest => mix (decrypt block) previous :: unchain block rest

lemma length_chain (mixed : List UInt8) (blocks : List (List UInt8)) :
    (chain encrypt mixed blocks).length = blocks.length := by
  induction blocks generalizing mixed with
  | nil => rfl
  | cons block rest ih => rw [chain, length_cons, length_cons, ih]

lemma chain_concat (mixed block : List UInt8) (blocks : List (List UInt8)) :
    chain encrypt mixed (blocks ++ [block]) = chain encrypt mixed blocks ++
        [encrypt (mix ((chain encrypt mixed blocks).getLastD mixed) block)] := by
  induction blocks generalizing mixed with
  | nil => rfl
  | cons first rest ih =>
    simp only [cons_append, chain, ih]
    cases chain encrypt (encrypt (mix mixed first)) rest <;> rfl

variable {encrypt decrypt}

variable (sized : ∀ block, (encrypt block).length = size)
include sized

lemma length_of_mem_chain {blocks : List (List UInt8)} {block : List UInt8}
    (member : block ∈ chain encrypt mixed blocks) : block.length = size := by
  induction blocks generalizing mixed with
  | nil => cases member
  | cons first rest ih =>
    cases member with
    | head => exact sized _
    | tail _ later => exact ih later

/-- If undoing one block gives a function of its plaintext, undoing a chain gives its values. -/
lemma unchain_chain {undo : List UInt8 → List UInt8} {blocks : List (List UInt8)}
    (undone : ∀ mixed block, mixed.length = size → block.length = size →
      mix (decrypt (encrypt (mix mixed block))) mixed = undo block) (start : mixed.length = size)
    (each : ∀ block ∈ blocks, block.length = size) :
    unchain decrypt mixed (chain encrypt mixed blocks) = blocks.map undo := by
  induction blocks generalizing mixed with
  | nil => rfl
  | cons block rest ih =>
    have here := each block mem_cons_self
    rw [chain, unchain, map_cons, undone mixed block start here,
      ih (sized _) fun other member => each other (mem_cons_of_mem block member)]

end Chain

/-! Cutting into blocks. -/

def blocks (size : Nat) : Nat → List UInt8 → List (List UInt8)
  | 0, _ => []
  | count + 1, bytes => bytes.take size :: blocks size count (bytes.drop size)

lemma length_blocks (size count : Nat) (bytes : List UInt8) : (blocks size count bytes).length = count := by
  induction count generalizing bytes with
  | zero => rfl
  | succ count ih => rw [blocks, length_cons, ih]

lemma flatten_blocks (size count : Nat) (bytes : List UInt8) :
    (blocks size count bytes).flatten = bytes.take (count * size) := by
  induction count generalizing bytes with
  | zero => rw [Nat.zero_mul, take_zero]; rfl
  | succ count ih => rw [blocks, flatten_cons, ih, Nat.succ_mul, Nat.add_comm, take_add]

lemma length_of_mem_blocks {bytes block : List UInt8}
    (enough : count * size ≤ bytes.length) (member : block ∈ blocks size count bytes) :
    block.length = size := by
  induction count generalizing bytes with
  | zero => cases member
  | succ count ih =>
    rw [Nat.succ_mul] at enough
    cases member with
    | head => rw [length_take]; omega
    | tail _ later => exact ih (by rw [length_drop]; omega) later

lemma blocks_flatten
    (each : ∀ block ∈ parts, block.length = size) : blocks size parts.length parts.flatten = parts := by
  induction parts with
  | nil => rfl
  | cons block rest ih =>
    have here := each block mem_cons_self
    rw [length_cons, blocks, flatten_cons, take_left' here, drop_left' here,
      ih fun other member => each other (mem_cons_of_mem block member)]

lemma length_flatten
    (each : ∀ block ∈ parts, block.length = size) : parts.flatten.length = parts.length * size := by
  induction parts with
  | nil => rw [length_nil, Nat.zero_mul]; rfl
  | cons block rest ih =>
    rw [flatten_cons, length_append, each block mem_cons_self,
      ih fun other member => each other (mem_cons_of_mem block member), length_cons,
      Nat.succ_mul, Nat.add_comm]

/-! Padding, whose bytes all give its length. -/

def padding (size length : Nat) : List UInt8 :=
  replicate (size - length % size) (UInt8.ofNat (size - length % size))

lemma length_padding (size length : Nat) : (padding size length).length = size - length % size := length_replicate

end Dragonchain.BlockChaining
