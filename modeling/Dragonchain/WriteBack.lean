import Mathlib.Data.Option.Basic

/-!
One key of a write-back cache whose slots carry a dirty and a fresh flag. A dirty
slot may differ from the store below; a fresh slot promises that the store below
has no value, so that deleting it needs no tombstone. `Sound` is that promise
kept. The second part counts values: a fresh flag set wrongly hides a value that
reappears later, so the count keeps hidden values beside the visible one and is
exact whether or not the promise is kept.
-/

namespace Dragonchain.WriteBack

open Option

variable {overwrite : Bool}

structure Slot (Value : Type) where
  value : Option Value
  dirty : Bool
  fresh : Bool

variable {Value : Type}

def seen (slot : Option (Slot Value)) (below : Option Value) : Option Value :=
  match slot with
  | some held => held.value
  | none => below

def fill (below : Option Value) (slot : Option (Slot Value)) : Option (Slot Value) :=
  match slot with
  | some held => some held
  | none => below.map fun value => ⟨some value, false, false⟩

/-- Storing a value; `none` is the refusal to replace one. -/
def put (value : Value) (overwrite : Bool) (slot : Option (Slot Value)) : Option (Slot Value) :=
  let held := slot.getD ⟨none, false, false⟩
  if !overwrite && held.value.isSome then none
  else some ⟨some value, true, held.fresh || (!overwrite && !held.dirty)⟩

def take (held : Slot Value) : Option (Slot Value) := if held.fresh then none else some ⟨none, true, false⟩

def release (slot : Option (Slot Value)) : Option (Slot Value) := slot.filter fun held => held.dirty || held.fresh

/-- Writing a child's slot back into the parent's; `none` is the detected misuse
of a fresh flag. -/
def merge (child : Slot Value) (ours : Option (Slot Value)) : Option (Option (Slot Value)) :=
  if !child.dirty then some ours
  else
    match ours with
    | none =>
      if child.fresh && child.value.isNone then some none
      else some (some ⟨child.value, true, child.fresh⟩)
    | some held =>
      if child.fresh && held.value.isSome then none
      else if held.fresh && child.value.isNone then some none
      else some (some ⟨child.value, true, held.fresh⟩)

def Sound (slot : Option (Slot Value)) (below : Option Value) : Prop :=
  ∀ held, slot = some held → (held.dirty = false → held.value = below) ∧ (held.fresh = true → below = none)

variable {below : Option Value}

@[simp] lemma seen_none : seen none below = below := rfl

variable {held : Slot Value} (slot : Option (Slot Value))

@[simp] lemma seen_some : seen (some held) below = held.value := rfl

lemma sound_none : Sound none below := by
  rintro held ⟨⟩

@[simp] lemma seen_fill : seen (fill below slot) below = seen slot below := by
  cases slot with
  | some held => rfl
  | none => cases below <;> rfl

lemma fill_fill : fill below (fill below slot) = fill below slot := by
  cases slot with
  | some held => rfl
  | none => cases below <;> rfl

lemma fill_sound (sound : Sound slot below) : Sound (fill below slot) below := by
  cases slot with
  | some held => exact sound
  | none =>
    rintro held present
    obtain ⟨value, below_value, rfl⟩ := map_eq_some_iff.mp present
    exact ⟨fun _ => below_value.symm, fun promised => by cases promised⟩

lemma put_accepted {value : Value} {slot : Option (Slot Value)}
    {below : Option Value} (sound : Sound slot below) (vacant : overwrite = false → seen slot below = none) :
    ∃ held, put value overwrite slot = some held ∧ held.value = some value ∧ Sound (some held) below := by
  -- without permission to overwrite the slot is a tombstone or absent
  have refused : (!overwrite && (slot.getD ⟨none, false, false⟩).value.isSome) = false := by
    cases overwrite with
    | true => rfl
    | false =>
      have empty := vacant rfl
      cases slot with
      | none => rfl
      | some held =>
        rw [seen_some] at empty
        simp [empty]
  refine ⟨_, by simp only [put, refused]; rfl, rfl, ?_⟩
  rintro held ⟨⟩
  refine ⟨fun clean => (by cases clean), fun promised => ?_⟩
  cases slot with
  | none =>
    cases overwrite with
    | true => cases promised
    | false => exact vacant rfl
  | some held =>
    have kept := sound held rfl
    by_cases already : held.fresh = true
    · exact kept.2 already
    · cases overwrite with
      | true => simp [already] at promised
      | false =>
        have clean : held.dirty = false := by simpa [already] using promised
        rw [← kept.1 clean]
        exact vacant rfl

lemma seen_take (sound : Sound (some held) below) : seen (take held) below = none := by
  unfold take
  by_cases fresh : held.fresh = true
  · rw [if_pos fresh]
    exact (sound held rfl).2 fresh
  · rw [if_neg fresh, seen_some]

lemma take_sound : Sound (take held) below := by
  unfold take
  by_cases fresh : held.fresh = true
  · rw [if_pos fresh]
    exact sound_none
  · rw [if_neg fresh]
    rintro _ ⟨⟩
    exact ⟨fun clean => (by cases clean), fun promised => (by cases promised)⟩

lemma seen_release (sound : Sound slot below) : seen (release slot) below = seen slot below := by
  cases slot with
  | none => rfl
  | some held =>
    by_cases own : (held.dirty || held.fresh) = true
    · simp [release, Option.filter, own]
    · have clean : held.dirty = false := by
        cases dirty : held.dirty with
        | false => rfl
        | true => simp [dirty] at own
      simp only [release, Option.filter, own]
      exact ((sound held rfl).1 clean).symm

lemma release_sound (sound : Sound slot below) : Sound (release slot) below := by
  intro held present
  exact sound held (eq_some_of_filter_eq_some present)

variable {ours merged : Option (Slot Value)} {child : Slot Value}

/-- A sound child slot always merges, and the parent then shows the child's value. -/
lemma merge_accepted (dirty : child.dirty = true) (promise : child.fresh = true → seen ours below = none)
    (sound : Sound ours below) : ∃ merged, merge child ours = some merged ∧ seen merged below = child.value ∧
      Sound merged below := by
  cases ours with
  | none =>
    rw [seen_none] at promise
    by_cases gone : (child.fresh && child.value.isNone) = true
    · simp only [Bool.and_eq_true, isNone_iff_eq_none] at gone
      refine ⟨none, by simp [merge, dirty, gone], ?_, sound_none⟩
      rw [seen_none, promise gone.1, gone.2]
    · refine ⟨some ⟨child.value, true, child.fresh⟩, by simp [merge, dirty, gone], rfl, ?_⟩
      rintro _ ⟨⟩
      exact ⟨fun clean => (by cases clean), promise⟩
  | some held =>
    rw [seen_some] at promise
    have kept := sound held rfl
    have applied : (child.fresh && held.value.isSome) = false := by
      cases fresh : child.fresh with
      | false => rfl
      | true => simp [promise fresh]
    by_cases gone : (held.fresh && child.value.isNone) = true
    · refine ⟨none, by simp [merge, dirty, applied, gone], ?_, sound_none⟩
      simp only [Bool.and_eq_true, isNone_iff_eq_none] at gone
      rw [seen_none, kept.2 gone.1, gone.2]
    · refine ⟨some ⟨child.value, true, held.fresh⟩, by simp [merge, dirty, applied, gone], rfl, ?_⟩
      rintro _ ⟨⟩
      exact ⟨fun clean => (by cases clean), kept.2⟩

/-! Counting. `below` is the value visible below together with the weight hidden
there; a layer of the cache adds its own slot on top. -/

section Counting
variable (weigh : Value → Nat)

def weight (value : Option Value) : Nat := (value.map weigh).getD 0

def total (state : Option Value × Nat) : Nat := weight weigh state.1 + state.2

def atop (slot : Option (Slot Value)) (below : Option Value × Nat) : Option Value × Nat :=
  match slot with
  | some held => (held.value, if held.fresh then total weigh below else below.2)
  | none => below

variable {weigh}

/-- A slot that is not dirty repeats what is below and promises nothing. -/
def Repeats (slot : Option (Slot Value)) (below : Option Value) : Prop :=
  ∀ held, slot = some held → held.dirty = false → held.fresh = false ∧ held.value = below

variable {below : Option Value} {held : Slot Value}

lemma repeats_none : Repeats none below := by
  rintro held ⟨⟩

@[simp] lemma atop_value (below : Option Value × Nat) : (atop weigh slot below).1 = seen slot below.1 := by
  cases slot <;> rfl

lemma atop_fill (below : Option Value × Nat) : atop weigh (fill below.1 slot) below = atop weigh slot below := by
  obtain ⟨value, hidden⟩ := below
  cases slot with
  | some held => rfl
  | none => cases value <;> rfl

lemma fill_repeats (repeats : Repeats slot below) : Repeats (fill below slot) below := by
  cases slot with
  | some held => exact repeats
  | none =>
    rintro held present _
    obtain ⟨value, below_value, rfl⟩ := map_eq_some_iff.mp present
    exact ⟨rfl, below_value.symm⟩

lemma put_total {value : Value} {slot : Option (Slot Value)}
    {below : Option Value × Nat} (repeats : Repeats slot below.1)
    (stored : put value overwrite slot = some held) : total weigh (atop weigh (some held) below) ≤
      total weigh (atop weigh slot below) + weigh value := by
  dsimp only [put] at stored
  split at stored
  · cases stored
  · rename_i allowed
    cases stored
    cases slot with
    | none => cases overwrite <;> simp [atop, total, weight] <;> omega
    | some old =>
      cases fresh : old.fresh with
      | true => simp [atop, total, weight, fresh]; omega
      | false =>
        by_cases promised : (!overwrite && !old.dirty) = true
        · -- a clean tombstone says that nothing is visible below
          have clean : old.dirty = false := by simp_all
          have vacant : old.value = none := by simp_all
          have gone : below.1 = none := by rw [← (repeats old rfl clean).2, vacant]
          simp [atop, total, weight, fresh, promised, gone, vacant]; omega
        · simp [atop, total, weight, fresh, promised]; omega

lemma take_total {below : Option Value × Nat} :
    total weigh (atop weigh (take held) below) + weight weigh held.value =
      total weigh (atop weigh (some held) below) := by
  cases fresh : held.fresh with
  | true => simp [take, atop, total, fresh]; omega
  | false => simp [take, atop, total, weight, fresh]; omega

lemma merge_total
    {below : Option Value × Nat} (dirty : child.dirty = true) (accepted : merge child ours = some merged) :
    total weigh (atop weigh merged below) = total weigh (atop weigh (some child) (atop weigh ours below)) := by
  cases ours with
  | none =>
    by_cases gone : (child.fresh && child.value.isNone) = true
    · have same : merged = none := by simpa [merge, dirty, gone, eq_comm] using accepted
      simp only [Bool.and_eq_true, isNone_iff_eq_none] at gone
      simp [same, atop, total, weight, gone.1, gone.2]
    · have same : merged = some ⟨child.value, true, child.fresh⟩ := by
        simpa [merge, dirty, gone, eq_comm] using accepted
      simp [same, atop]
  | some held =>
    by_cases misused : (child.fresh && held.value.isSome) = true
    · simp [merge, dirty, misused] at accepted
    · -- a fresh child meets a tombstone only, so it hides nothing of the parent's
      have hides : child.fresh = true → held.value = none := by
        intro fresh
        simpa [fresh] using misused
      by_cases gone : (held.fresh && child.value.isNone) = true
      · have same : merged = none := by simpa [merge, dirty, misused, gone, eq_comm] using accepted
        simp only [Bool.and_eq_true, isNone_iff_eq_none] at gone
        cases fresh : child.fresh with
        | true => simp [same, atop, total, weight, gone.1, gone.2, fresh, hides fresh]
        | false => simp [same, atop, total, weight, gone.1, gone.2, fresh]
      · have same : merged = some ⟨child.value, true, held.fresh⟩ := by
          simpa [merge, dirty, misused, gone, eq_comm] using accepted
        cases fresh : child.fresh with
        | true => simp [same, atop, total, weight, fresh, hides fresh]
        | false => simp [same, atop, total, fresh]

lemma clean_total {below : Option Value × Nat}
    (clean : child.dirty = false) (repeats : Repeats (some child) below.1) :
    total weigh (atop weigh (some child) below) = total weigh below := by
  obtain ⟨settled, same⟩ := repeats child rfl clean
  simp [atop, total, settled, same]

end Counting

end Dragonchain.WriteBack
