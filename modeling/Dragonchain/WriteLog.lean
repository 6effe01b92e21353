import Mathlib.Data.List.Basic

/-!
Sequences of writes to a keyed store. The last write to a key wins, so a key that
the sequence writes ends with a value that does not depend on the store it began
from, and a key that it does not write keeps its value. Replaying an interrupted
sequence of writes rests on these two facts.
-/

namespace Dragonchain.WriteLog

open List Function

variable {Key Value : Type} [DecidableEq Key]

def replay (store : Key → Value) : List (Key × Value) → Key → Value
  | [] => store
  | (key, value) :: rest => replay (Function.update store key value) rest

lemma replay_append (store : Key → Value) (front back : List (Key × Value)) :
    replay store (front ++ back) = replay (replay store front) back := by
  induction front generalizing store with
  | nil => rfl
  | cons write rest ih => exact ih _

variable {log : List (Key × Value)} {key : Key} {store first second last mixed : Key → Value}

lemma replay_untouched (absent : key ∉ log.map Prod.fst) : replay store log key = store key := by
  induction log generalizing store with
  | nil => rfl
  | cons write rest ih =>
    rw [map_cons, mem_cons, not_or] at absent
    rw [replay, ih absent.2, update_of_ne absent.1]

-- the value of a written key comes from the log alone
lemma replay_touched (member : key ∈ log.map Prod.fst) : replay first log key = replay second log key := by
  induction log generalizing first second with
  | nil => cases member
  | cons write rest ih =>
    by_cases later : key ∈ rest.map Prod.fst
    · exact ih later
    · have same : key = write.1 := by
        rw [map_cons, mem_cons] at member
        exact member.resolve_right later
      subst same
      rw [replay, replay, replay_untouched later, replay_untouched later, update_self, update_self]

/-- A log that only writes what `target` has for a key. -/
lemma replay_toward (store target : Key → Value) (values : ∀ write ∈ log, write.2 = target write.1) (key : Key) :
    replay store log key = store key ∨ replay store log key = target key := by
  induction log generalizing store with
  | nil => exact .inl rfl
  | cons write rest ih =>
    have here := values write mem_cons_self
    rcases ih (Function.update store write.1 write.2)
      (fun other member => values other (mem_cons_of_mem _ member)) with kept | moved
    · by_cases same : key = write.1
      · subst same
        right
        rw [replay, kept, update_self, here]
      · left
        rw [replay, kept, update_of_ne same]
    · exact .inr moved

/-- A log that leads from one store to another leads there from every mixture of the two. -/
lemma replay_converges (leads : replay first log = last)
    (between : ∀ key, mixed key = first key ∨ mixed key = last key) : replay mixed log = last := by
  funext key
  by_cases member : key ∈ log.map Prod.fst
  · rw [replay_touched member, leads]
  · have same : last key = first key := by rw [← leads, replay_untouched member]
    rw [replay_untouched member]
    rcases between key with here | here
    · rw [here, same]
    · exact here

end Dragonchain.WriteLog
