import Mathlib.Data.List.Basic

/-!
Streams of frames. A frame is a header of a fixed size, which says how long the body
is, and the body. A frame whose body is longer than the limit ends the stream as soon
as its header is complete. `push` takes one element at a time, so how the elements
were grouped on their way cannot matter.
-/

namespace Dragonchain.Framing

open List

structure Format (α : Type) where
  headerSize : Nat
  bodySize : List α → Nat
  limit : Nat

/-- The frames that are complete and the part of the next one that has arrived. -/
structure Stream (α : Type) where
  done : List (List α)
  pending : List α

section Frames
variable {α : Type} (format : Format α)

def size (raw : List α) : Nat := format.bodySize (raw.take format.headerSize)

def settle (done : List (List α)) (raw : List α) : Option (Stream α) :=
  if raw.length < format.headerSize then some ⟨done, raw⟩
  else if size format raw > format.limit then none
  else if raw.length = format.headerSize + size format raw then some ⟨done ++ [raw], []⟩
  else some ⟨done, raw⟩

variable (stream : Stream α)

def push (element : α) : Option (Stream α) := settle format stream.done (stream.pending ++ [element])

def feed (elements : List α) : Option (Stream α) := elements.foldlM (push format) stream

variable {format} {done : List (List α)} {raw chunk : List α}

lemma feed_append (first second : List α) : feed format stream (first ++ second) =
      (feed format stream first).bind fun stream => feed format stream second :=
  foldlM_append ..

lemma size_append (long : format.headerSize ≤ raw.length) (more : List α) :
    size format (raw ++ more) = size format raw := by
  rw [size, take_append_of_le_length long]
  rfl

/-- A chunk that stays within the header or within the body is judged by its end. -/
lemma feed_chunk (arrived : chunk ≠ []) (fits : raw.length + chunk.length ≤ format.headerSize ∨
      format.headerSize ≤ raw.length ∧ size format raw ≤ format.limit ∧
        raw.length + chunk.length ≤ format.headerSize + size format raw) :
    feed format ⟨done, raw⟩ chunk = settle format done (raw ++ chunk) := by
  induction chunk generalizing raw with
  | nil => exact absurd rfl arrived
  | cons element rest ih =>
    have step : feed format ⟨done, raw⟩ (element :: rest) =
        (settle format done (raw ++ [element])).bind fun stream => feed format stream rest := rfl
    rw [step]
    cases rest with
    | nil => cases settle format done (raw ++ [element]) <;> rfl
    | cons next rest =>
      have length : (raw ++ [element]).length = raw.length + 1 := length_append
      simp only [length_cons] at fits
      -- before its end the chunk completes nothing
      have unfinished : settle format done (raw ++ [element]) = some ⟨done, raw ++ [element]⟩ := by
        rw [settle, length]
        rcases fits with header | ⟨long, small, body⟩
        · rw [if_pos (by omega)]
        · rw [size_append long, if_neg (by omega), if_neg (by omega), if_neg (by omega)]
      rw [unfinished, Option.bind_some, ih (cons_ne_nil _ _), append_assoc]
      · rfl
      · rw [length, length_cons]
        rcases fits with header | ⟨long, small, body⟩
        · left
          omega
        · right
          rw [size_append long]
          omega

end Frames

end Dragonchain.Framing
