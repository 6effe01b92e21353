import Mathlib.Data.Sum.Basic

/-!
Loops of the form `do { ... } while (true)` whose body either returns or goes on, run
for a number of turns. A loop that has not returned by then is reported as endless.
`runLoop_ends` turns an invariant and a measure into a result that every large enough
number of turns gives; `runLoop_post` says what holds of a result however it came about.
-/

namespace Dragonchain

variable {State Result Fault : Type} {turns more : Nat}

def runLoop (endless : Fault) (turn : State → Except Fault (Result ⊕ State)) : Nat → State → Except Fault Result
  | 0, _ => .error endless
  | turns + 1, state =>
    match turn state with
    | .error fault => .error fault
    | .ok (.inl result) => .ok result
    | .ok (.inr next) => runLoop endless turn turns next

variable {result first second : Result}

section Rules
variable {endless : Fault} {turn : State → Except Fault (Result ⊕ State)} {state : State}

lemma runLoop_return (returned : turn state = .ok (.inl result))
    : runLoop endless turn (turns + 1) state = .ok result := by
  simp [runLoop, returned]

lemma runLoop_next {next : State} (goes : turn state = .ok (.inr next)) (turns : Nat) :
    runLoop endless turn (turns + 1) state = runLoop endless turn turns next := by
  simp [runLoop, goes]

variable (invariant : State → Prop) (post : Result → Prop)

lemma runLoop_mono (returned : runLoop endless turn turns state = .ok result) (enough : turns ≤ more) :
    runLoop endless turn more state = .ok result := by
  induction turns generalizing state more with
  | zero => cases returned
  | succ turns ih =>
    obtain ⟨more, rfl⟩ := Nat.exists_eq_add_of_le' enough
    have rest : turns ≤ more + turns := Nat.le_add_left _ _
    unfold runLoop at returned ⊢
    split at returned
    · cases returned
    · exact returned
    · exact ih returned rest

lemma runLoop_unique (one : runLoop endless turn turns state = .ok first)
    (other : runLoop endless turn more state = .ok second) : first = second := by
  have one := runLoop_mono one (Nat.le_max_left turns more)
  have other := runLoop_mono other (Nat.le_max_right turns more)
  exact Except.ok.inj (one.symm.trans other)

lemma runLoop_ends {measure : State → Nat}
    (body : ∀ state, invariant state → (∃ result, turn state = .ok (.inl result) ∧ post result) ∨
      (∃ next, turn state = .ok (.inr next) ∧ invariant next ∧ measure next < measure state))
    (holds : invariant state) :
    ∃ result, post result ∧ ∀ turns, measure state < turns → runLoop endless turn turns state = .ok result := by
  induction size : measure state using Nat.strongRecOn generalizing state with
  | ind size ih =>
    subst size
    rcases body state holds with ⟨result, returned, good⟩ | ⟨next, goes, kept, smaller⟩
    · refine ⟨result, good, fun turns enough => ?_⟩
      obtain ⟨turns, rfl⟩ := Nat.exists_eq_add_one_of_ne_zero (Nat.ne_of_gt (Nat.zero_lt_of_lt enough))
      exact runLoop_return returned
    · obtain ⟨result, good, ends⟩ := ih (measure next) smaller kept rfl
      refine ⟨result, good, fun turns enough => ?_⟩
      obtain ⟨turns, rfl⟩ := Nat.exists_eq_add_one_of_ne_zero (Nat.ne_of_gt (Nat.zero_lt_of_lt enough))
      rw [runLoop_next goes]
      exact ends turns (by omega)

lemma runLoop_post (returns : ∀ state result, invariant state → turn state = .ok (.inl result) → post result)
    (goes : ∀ state next, invariant state → turn state = .ok (.inr next) → invariant next) (holds : invariant state)
    (returned : runLoop endless turn turns state = .ok result) : post result := by
  induction turns generalizing state with
  | zero => cases returned
  | succ turns ih =>
    unfold runLoop at returned
    split at returned
    · cases returned
    · rename_i value here
      obtain rfl := Except.ok.inj returned
      exact returns state value holds here
    · rename_i next here
      exact ih (goes state next holds here) returned

end Rules

end Dragonchain
