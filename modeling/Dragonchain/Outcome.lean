import Mathlib.Data.List.Basic

/-!
Results of programs that can stop in two ways: with an error, which the program
reports, and with a fault, which it must never run into (an access out of range,
an overflow, a failed assertion). `Safe` rules faults out and states what holds of
a result; `Simulates` says that wherever the first program succeeds the second one
succeeds with a related result, and `Implies` with the same one. All three compose
along `>>=`.
-/

namespace Dragonchain

variable {Error Fault α β γ δ : Type} {condition strict lax : Bool}

inductive Stop (Error Fault : Type) where
  | error (error : Error)
  | fault (fault : Fault)
  deriving DecidableEq

abbrev Outcome (Error Fault α : Type) := Except (Stop Error Fault) α

variable {error error' : Error} {second first action : Outcome Error Fault α}

namespace Outcome

def fail (error : Error) : Outcome Error Fault α := .error (.error error)

def crash (fault : Fault) : Outcome Error Fault α := .error (.fault fault)

/-- The check `if (!condition) return set_error(error)`. -/
def require (condition : Bool) (error : Error) : Outcome Error Fault Unit :=
  if condition then .ok () else fail error

def Safe (post : α → Prop) : Outcome Error Fault α → Prop
  | .ok value => post value
  | .error (.error _) => True
  | .error (.fault _) => False

variable {next' : α → Outcome Error Fault β} {related : α → β → Prop} {middle : α → Prop}
  {fault : Fault} {result : β} {value : α} {post : α → Prop}

lemma safe_pure (holds : post value) : Safe post (pure value : Outcome Error Fault α) := holds

lemma safe_fail : Safe post (fail error : Outcome Error Fault α) := trivial

lemma safe_require : Safe (fun _ => condition = true) (require condition error : Outcome Error Fault Unit) := by
  cases condition <;> trivial

variable {post : β → Prop} {next : α → Outcome Error Fault β}

lemma Safe.bind (safe : Safe middle first)
    (onward : ∀ value, middle value → Safe post (next value)) : Safe post (first >>= next) := by
  match first, safe with
  | .ok value, holds => exact onward value holds
  | .error (.error _), _ => trivial

lemma Safe.mono {first second : α → Prop}
    (safe : Safe first action) (weaker : ∀ value, first value → second value) : Safe second action := by
  match action, safe with
  | .ok value, holds => exact weaker value holds
  | .error (.error _), _ => trivial

lemma Safe.after_require {next : Unit → Outcome Error Fault β}
    (onward : condition = true → Safe post (next ())) : Safe post (require condition error >>= next) :=
  safe_require.bind fun _ => onward

lemma Safe.after_check {condition : Prop} [Decidable condition] {next : Unit → Outcome Error Fault β}
    (onward : condition → Safe post (next ())) : Safe post (require (decide condition) error >>= next) :=
  Safe.after_require fun holds => onward (of_decide_eq_true holds)

/-- `Safe.bind` for a continuation that also needs to know how its value arose. -/
lemma Safe.bind_ok (safe : Safe middle first)
    (onward : ∀ value, first = .ok value → middle value → Safe post (next value)) :
    Safe post (first >>= next) := by
  match first, safe with
  | .ok value, holds => exact onward value rfl holds
  | .error (.error _), _ => trivial

lemma fault_of_bind (faults : (first >>= next) = .error (.fault fault)) :
    first = .error (.fault fault) ∨ ∃ value, next value = .error (.fault fault) := by
  match first with
  | .ok value => exact .inr ⟨value, faults⟩
  | .error stop =>
    cases faults
    exact .inl rfl

lemma Safe.of_ok {post : α → Prop} (safe : Safe post action) (done : action = .ok value) : post value := by
  rwa [done] at safe

lemma Safe.not_fault {post : α → Prop}
    (safe : Safe post action) (fault : Fault) : action ≠ .error (.fault fault) := by
  intro same
  rwa [same] at safe

lemma Safe.with_ok {post : α → Prop} (safe : Safe (fun _ => True) action)
    (holds : ∀ value, action = .ok value → post value) : Safe post action := by
  match action, safe with
  | .ok value, _ => exact holds value rfl
  | .error (.error _), _ => trivial

/-! When a program succeeds. -/

@[simp] lemma pure_eq_ok (value result : α) : (pure value : Outcome Error Fault α) = .ok result ↔ value = result :=
  ⟨Except.ok.inj, congrArg _⟩

@[simp] lemma require_eq_ok {result : Unit} :
    (require condition error : Outcome Error Fault Unit) = .ok result ↔ condition = true := by
  cases condition with
  | false => exact ⟨(nomatch ·), (nomatch ·)⟩
  | true => exact ⟨fun _ => rfl, fun _ => rfl⟩

lemma guard_eq_ok {holds : Prop} [Decidable holds] {value result : α} :
    (if holds then pure value else crash fault : Outcome Error Fault α) = .ok result ↔ holds ∧ value = result := by
  split_ifs with held
  · rw [pure_eq_ok, and_iff_right held]
  · constructor
    · rintro ⟨⟩
    · exact fun both => absurd both.1 held

lemma bind_eq_ok : (first >>= next) = .ok result ↔ ∃ value, first = .ok value ∧ next value = .ok result := by
  cases first with
  | ok value =>
    constructor
    · intro done
      exact ⟨value, rfl, done⟩
    · rintro ⟨_, ⟨⟩, done⟩
      exact done
  | error stop =>
    constructor
    · rintro ⟨⟩
    · rintro ⟨_, ⟨⟩, _⟩

lemma require_bind_eq_ok {next : Unit → Outcome Error Fault β} :
    (require condition error >>= next) = .ok result ↔ condition = true ∧ next () = .ok result := by
  rw [bind_eq_ok]
  constructor
  · rintro ⟨_, passed, done⟩
    exact ⟨require_eq_ok.mp passed, done⟩
  · rintro ⟨holds, done⟩
    exact ⟨(), require_eq_ok.mpr holds, done⟩

def Implies (first second : Outcome Error Fault α) : Prop := ∀ value, first = .ok value → second = .ok value

lemma Implies.refl (action : Outcome Error Fault α) : Implies action action := fun _ => id

/-- Any program without a result to report implies the one that does nothing. -/
lemma implies_skip {first : Outcome Error Fault Unit} : Implies first (pure ()) := fun _ _ => rfl

lemma Implies.bind (head : Implies first second)
    (onward : ∀ value, Implies (next value) (next' value)) : Implies (first >>= next) (second >>= next') := by
  intro value done
  match first, head with
  | .ok middle, head =>
    rw [head middle rfl]
    exact onward middle value done
  | .error _, _ => cases done

lemma Implies.onward
    (rest : ∀ value, Implies (next value) (next' value)) : Implies (first >>= next) (first >>= next') :=
  (Implies.refl first).bind rest

lemma implies_require (weaker : strict = true → lax = true) :
    Implies (require strict error : Outcome Error Fault Unit) (require lax error') := by
  intro value done
  cases strict with
  | false => cases done
  | true => rw [weaker rfl]; exact done

def Simulates (related : α → β → Prop) (first : Outcome Error Fault α) (second : Outcome Error Fault β) : Prop :=
  ∀ value, first = .ok value → ∃ value', second = .ok value' ∧ related value value'

lemma simulates_pure {value' : β} (first : Outcome Error Fault α)
    (holds : ∀ value, first = .ok value → related value value') :
    Simulates related first (pure value') := fun value done => ⟨value', rfl, holds value done⟩

lemma Implies.simulates (head : Implies first second)
    {related : α → α → Prop} (same : ∀ value, related value value) :
    Simulates related first second := fun value done => ⟨value, head value done, same value⟩

lemma Simulates.bind {related' : γ → δ → Prop} {second : Outcome Error Fault β} {next : α → Outcome Error Fault γ}
    {next' : β → Outcome Error Fault δ} (head : Simulates related first second)
    (onward : ∀ value value', related value value' → Simulates related' (next value) (next' value')) :
    Simulates related' (first >>= next) (second >>= next') := by
  intro value done
  match first, head with
  | .ok middle, head =>
    obtain ⟨middle', done', holds⟩ := head middle rfl
    rw [done']
    exact onward middle middle' holds value done
  | .error _, _ => cases done

end Outcome

end Dragonchain
