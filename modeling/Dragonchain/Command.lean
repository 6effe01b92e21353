import Mathlib.Data.List.Basic

/-!
Programs that work on a store only through the calls of an interface. A handler
gives the calls a meaning on some type of states, and one program can be run by
several handlers. `Only` is a condition on every call a program can make, `Along` one on
every call a run makes, and `run_simulates` compares the runs of two handlers: call
by call where the program is permitted to make the call. Two answers count as the
same when the program goes on the same way after them.
-/

namespace Dragonchain.Command

variable {Call Failure α β γ State State' : Type}

inductive Program (Call : Type) (Answer : Call → Type) (Failure α : Type) : Type where
  | done (value : α)
  | stop (failure : Failure)
  | call (request : Call) (next : Answer request → Program Call Answer Failure α)

variable {Answer : Call → Type}

namespace Program

def bind (program : Program Call Answer Failure α) (next : α → Program Call Answer Failure β) :
    Program Call Answer Failure β :=
  match program with
  | .done value => next value
  | .stop failure => .stop failure
  | .call request onward => .call request fun answer => (onward answer).bind next

instance : Monad (Program Call Answer Failure) where
  pure := .done
  bind := bind

def request (call : Call) : Program Call Answer Failure (Answer call) := .call call .done

def ofExcept : Except Failure α → Program Call Answer Failure α
  | .ok value => .done value
  | .error failure => .stop failure

end Program

abbrev Handler (Call : Type) (Answer : Call → Type) (Failure State : Type) :=
  (call : Call) → State → Except Failure (Answer call × State)

variable {action : Except Failure α} {program : Program Call Answer Failure α}
  {state final middle : State} {next : α → Program Call Answer Failure β}

section Runs
variable (handler : Handler Call Answer Failure State)
  (handler' : Handler Call Answer Failure State')

def run (program : Program Call Answer Failure α) (state : State) : Except Failure (α × State) :=
  match program with
  | .done value => .ok (value, state)
  | .stop failure => .error failure
  | .call request next =>
    match handler request state with
    | .error failure => .error failure
    | .ok (answer, state) => run (next answer) state

variable {handler}

lemma run_bind (program : Program Call Answer Failure α)
    (next : α → Program Call Answer Failure β) (state : State) :
    run handler (program >>= next) state =
      match run handler program state with
      | .error failure => .error failure
      | .ok (value, state) => run handler (next value) state := by
  induction program generalizing state with
  | done value => rfl
  | stop failure => rfl
  | call request onward ih =>
    show run handler (.call request fun answer => onward answer >>= next) state = _
    simp only [run]
    cases handler request state with
    | error failure => rfl
    | ok result => exact ih result.1 result.2

lemma run_request (call : Call) (state : State) :
    run handler (Program.request call : Program Call Answer Failure _) state = handler call state := by
  simp only [Program.request, run]
  cases handler call state <;> rfl

variable {value : α}

lemma run_bind_of_ok (ran : run handler program state = .ok (value, middle)) :
    run handler (program >>= next) state = run handler (next value) middle := by
  rw [run_bind, ran]

lemma run_bind_ok {result : β} (ran : run handler (program >>= next) state = .ok (result, final)) :
    ∃ value middle, run handler program state = .ok (value, middle) ∧
      run handler (next value) middle = .ok (result, final) := by
  rw [run_bind] at ran
  cases first : run handler program state with
  | error failure =>
    rw [first] at ran
    cases ran
  | ok pair =>
    rw [first] at ran
    exact ⟨pair.1, pair.2, rfl, ran⟩

lemma run_ofExcept_ok
    (ran : run handler (Program.ofExcept action) state = .ok (value, final)) : action = .ok value := by
  cases action with
  | error failure => cases ran
  | ok result =>
    cases ran
    rfl

lemma ofExcept_then {result : β × State} (ran : run handler (Program.ofExcept action >>= next) state = .ok result) :
    ∃ value, action = .ok value ∧ run handler (next value) state = .ok result := by
  cases action with
  | error failure => cases ran
  | ok value => exact ⟨value, rfl, ran⟩

end Runs

variable {permitted : Call → Prop} {handler : Handler Call Answer Failure State} {value : α}

lemma run_invariant (invariant : State → Prop) (steps : ∀ call state answer after, invariant state →
      handler call state = .ok (answer, after) → invariant after)
    (start : invariant state) (ran : run handler program state = .ok (value, final)) : invariant final := by
  induction program generalizing state with
  | done result =>
    cases ran
    exact start
  | stop failure => cases ran
  | call request next ih =>
    simp only [run] at ran
    cases answered : handler request state with
    | error failure =>
      rw [answered] at ran
      cases ran
    | ok pair =>
      rw [answered] at ran
      exact ih pair.1 (steps request state pair.1 pair.2 start answered) ran

/-! A condition on every call a program can make, whatever the answers are. -/

def Only (permitted : Call → Prop) : Program Call Answer Failure α → Prop
  | .done _ => True
  | .stop _ => True
  | .call request next => permitted request ∧ ∀ answer, Only permitted (next answer)

lemma only_pure : Only permitted (pure value : Program Call Answer Failure α) := trivial

lemma only_request {call : Call} (allowed : permitted call) :
    Only permitted (Program.request call : Program Call Answer Failure (Answer call)) :=
  ⟨allowed, fun _ => trivial⟩

lemma only_ofExcept : Only permitted (Program.ofExcept action : Program Call Answer Failure α) := by
  cases action <;> trivial

lemma Only.bind (first : Only permitted program)
    (onward : ∀ value, Only permitted (next value)) : Only permitted (program >>= next) := by
  induction program with
  | done value => exact onward value
  | stop failure => trivial
  | call request after ih => exact ⟨first.1, fun answer => ih answer (first.2 answer)⟩

/-- What every permitted call does to the state, a run of such calls does. -/
lemma Only.run
    (only : Only permitted program) (moves : State → State → Prop) (stays : ∀ state, moves state state)
    (joins : ∀ first second third, moves first second → moves second third → moves first third)
    (steps : ∀ call state answer after, permitted call →
      handler call state = .ok (answer, after) → moves state after)
    (ran : Command.run handler program state = .ok (value, final)) : moves state final := by
  induction program generalizing state with
  | done result =>
    cases ran
    exact stays _
  | stop failure => cases ran
  | call request next ih =>
    simp only [Command.run] at ran
    cases answered : handler request state with
    | error failure =>
      rw [answered] at ran
      cases ran
    | ok pair =>
      rw [answered] at ran
      exact joins _ _ _ (steps request state pair.1 pair.2 only.1 answered) (ih pair.1 (only.2 pair.1) ran)

section Simulation
variable {handler : Handler Call Answer Failure State}
  {handler' : Handler Call Answer Failure State'}

/-- Every call of a run satisfies a condition on the state, the call and what the
program does after it. -/
def Along (handler : Handler Call Answer Failure State)
    (permitted : State → (call : Call) → (Answer call → Program Call Answer Failure α) → Prop) :
    Program Call Answer Failure α → State → Prop
  | .done _, _ => True
  | .stop _, _ => True
  | .call request next, state =>
    permitted state request next ∧
      ∀ answer after, handler request state = .ok (answer, after) → Along handler permitted (next answer) after

variable {permitted : State → (call : Call) → (Answer call → Program Call Answer Failure α) → Prop}
  {related : State → State' → Prop} {first : Except Failure (α × State)}
  {second : Except Failure (α × State')} {value : α}

lemma along_bind {permitted' : State → (call : Call) → (Answer call → Program Call Answer Failure β) → Prop}
    (program : Program Call Answer Failure α) (state : State)
    (carries : ∀ state call onward, permitted state call onward →
      permitted' state call fun answer => onward answer >>= next)
    (first : Along handler permitted program state)
    (rest : ∀ value final, run handler program state = .ok (value, final) →
      Along handler permitted' (next value) final) : Along handler permitted' (program >>= next) state := by
  induction program generalizing state with
  | done value => exact rest value state rfl
  | stop failure => exact trivial
  | call request onward ih =>
    refine ⟨carries _ _ _ first.1, ?_⟩
    intro answer after answered
    apply ih answer after (first.2 answer after answered)
    intro value final ran
    apply rest value final
    simp only [run, answered]
    exact ran

lemma Along.of_bind {permitted : State → Call → Prop}
    (along : Along handler (fun state call _ => permitted state call) (program >>= next) state) :
    Along handler (fun state call _ => permitted state call) program state ∧
      ∀ value final, run handler program state = .ok (value, final) →
        Along handler (fun state call _ => permitted state call) (next value) final := by
  induction program generalizing state with
  | done value =>
    refine ⟨trivial, fun result final ran => ?_⟩
    cases ran
    exact along
  | stop failure => exact ⟨trivial, fun _ _ ran => by cases ran⟩
  | call request onward ih =>
    refine ⟨⟨along.1, fun answer after answered => (ih answer (along.2 answer after answered)).1⟩, ?_⟩
    intro value final ran
    simp only [run] at ran
    cases answered : handler request state with
    | error failure =>
      rw [answered] at ran
      cases ran
    | ok pair =>
      rw [answered] at ran
      exact (ih pair.1 (along.2 pair.1 pair.2 answered)).2 value final ran

lemma Only.along {allowed : Call → Prop} (only : Only allowed program)
    (enough : ∀ state call next, allowed call → permitted state call next) (state : State) :
    Along handler permitted program state := by
  induction program generalizing state with
  | done value => trivial
  | stop failure => trivial
  | call request next ih => exact ⟨enough _ _ _ only.1, fun answer after _ => ih answer (only.2 answer) after⟩

lemma Along.mono {permitted' : State → (call : Call) → (Answer call → Program Call Answer Failure α) → Prop}
    (along : Along handler permitted program state)
    (weaker : ∀ state call next, permitted state call next → permitted' state call next) :
    Along handler permitted' program state := by
  induction program generalizing state with
  | done value => trivial
  | stop failure => trivial
  | call request next ih =>
    exact ⟨weaker _ _ _ along.1, fun answer after answered => ih answer (along.2 answer after answered)⟩

def alongTest (handler : Handler Call Answer Failure State) (test : State → Call → Bool) :
    Program Call Answer Failure α → State → Bool
  | .done _, _ => true
  | .stop _, _ => true
  | .call request next, state =>
    test state request &&
      match handler request state with
      | .ok (answer, after) => alongTest handler test (next answer) after
      | .error _ => true

lemma along_of_test {test : State → Call → Bool}
    (enough : ∀ state call next, test state call = true → permitted state call next)
    (program : Program Call Answer Failure α) (state : State)
    (tested : alongTest handler test program state = true) : Along handler permitted program state := by
  induction program generalizing state with
  | done value => trivial
  | stop failure => trivial
  | call request next ih =>
    rw [alongTest, Bool.and_eq_true] at tested
    refine ⟨enough _ _ _ tested.1, fun answer after answered => ih answer after ?_⟩
    have onward := tested.2
    rwa [answered] at onward

/-- Two outcomes: the same failure, or the same result in related states. -/
def SameOutcome (related : State → State' → Prop) (first : Except Failure (α × State))
    (second : Except Failure (α × State')) : Prop :=
  (∃ failure, first = .error failure ∧ second = .error failure) ∨
    ∃ value state state', first = .ok (value, state) ∧ second = .ok (value, state') ∧ related state state'

lemma SameOutcome.ok_right (same : SameOutcome related first second) (done : first = .ok (value, state)) :
    ∃ state', second = .ok (value, state') ∧ related state state' := by
  rcases same with ⟨failure, failed, _⟩ | ⟨value', final, final', ran, ran', kept⟩
  · rw [done] at failed
    cases failed
  · rw [done] at ran
    cases ran
    exact ⟨final', ran', kept⟩

lemma SameOutcome.ok_left {state' : State'} (same : SameOutcome related first second)
    (done : second = .ok (value, state')) :
    ∃ state, first = .ok (value, state) ∧ related state state' := by
  rcases same with ⟨failure, _, failed⟩ | ⟨value', final, final', ran, ran', kept⟩
  · rw [done] at failed
    cases failed
  · rw [done] at ran'
    cases ran'
    exact ⟨final, ran, kept⟩

/-- Two conditions, one on each of two related runs, make up the condition under which
they stay related. -/
lemma along_transfer {known allowed : State' → (call : Call) → (Answer call → Program Call Answer Failure α) → Prop}
    (related : State → State' → Prop)
    (combine : ∀ state state' call next, related state state' → permitted state call next →
      known state' call next → allowed state' call next)
    (steps : ∀ state state' call next, related state state' → allowed state' call next →
      (∃ failure, handler call state = .error failure ∧ handler' call state' = .error failure) ∨
      ∃ answer answer' after after', handler call state = .ok (answer, after) ∧
        handler' call state' = .ok (answer', after') ∧ related after after' ∧ next answer = next answer')
    (program : Program Call Answer Failure α) (state : State) (state' : State')
    (start : related state state') (along : Along handler permitted program state)
    (along' : Along handler' known program state') : Along handler' allowed program state' := by
  induction program generalizing state state' with
  | done value => trivial
  | stop failure => trivial
  | call request next ih =>
    have here := combine _ _ _ _ start along.1 along'.1
    refine ⟨here, fun answer' after' answered' => ?_⟩
    rcases steps state state' request next start here with
      ⟨failure, _, failed'⟩ | ⟨answer, given, after, final, ran, ran', kept, same⟩
    · rw [failed'] at answered'
      cases answered'
    · rw [ran'] at answered'
      cases answered'
      apply ih _ after _ kept _ (along'.2 _ _ ran')
      rw [← same]
      exact along.2 answer after ran

lemma run_simulates
    {permitted : State' → (call : Call) → (Answer call → Program Call Answer Failure α) → Prop}
    (steps : ∀ state state' call next, related state state' → permitted state' call next →
      (∃ failure, handler call state = .error failure ∧ handler' call state' = .error failure) ∨
      ∃ answer answer' after after', handler call state = .ok (answer, after) ∧
        handler' call state' = .ok (answer', after') ∧ related after after' ∧ next answer = next answer')
    (state : State) (state' : State')
    (start : related state state') (along : Along handler' permitted program state') :
    SameOutcome related (run handler program state) (run handler' program state') := by
  induction program generalizing state state' with
  | done value => exact .inr ⟨value, state, state', rfl, rfl, start⟩
  | stop failure => exact .inl ⟨failure, rfl, rfl⟩
  | call request next ih =>
    obtain ⟨allowed, onward⟩ := along
    rcases steps state state' request next start allowed with
      ⟨failure, failed, failed'⟩ | ⟨answer, answer', after, after', ran, ran', kept, same⟩
    · left
      exact ⟨failure, by simp [run, failed], by simp [run, failed']⟩
    · have rest := ih answer' after after' kept (onward answer' after' ran')
      simp only [run, ran, ran', same]
      exact rest

end Simulation

end Dragonchain.Command
