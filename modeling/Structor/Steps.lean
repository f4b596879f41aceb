import Mathlib.Tactic.Common

/-!
# Properties of every step of a run

A run feeds a list of inputs to a step function. `EachStep` states a property of
every step, given the state before it and its input; two such properties that
agree on the states of an invariant agree on whole runs.
-/
namespace Structor
variable {σ ι : Type} {step : σ → ι → σ} {P Q : σ → ι → Prop}

/-- `P` relates the state before each step of the run to the input of the step. -/
def EachStep (step : σ → ι → σ) (P : σ → ι → Prop) (s : σ) (inputs : List ι) : Prop :=
  ∀ earlier i later, inputs = earlier ++ i :: later → P (earlier.foldl step s) i

@[simp] theorem eachStep_nil (s : σ) : EachStep step P s [] := by
  intro earlier i later h
  simp at h

theorem eachStep_cons (s : σ) (i : ι) (is : List ι) :
    EachStep step P s (i :: is) ↔ P s i ∧ EachStep step P (step s i) is := by
  constructor
  · intro h
    refine ⟨h [] i is rfl, ?_⟩
    intro earlier j later hj
    exact h (i :: earlier) j later (by simp [hj])
  · rintro ⟨hi, hrest⟩ earlier j later hj
    cases earlier with
    | nil =>
        obtain ⟨rfl, rfl⟩ : i = j ∧ is = later := by simpa using hj
        exact hi
    | cons k earlier =>
        obtain ⟨rfl, htail⟩ : i = k ∧ is = earlier ++ j :: later := by simpa using hj
        exact hrest earlier j later htail

/-- Two step properties that agree under an invariant, which either of them
carries to the next state, hold of the same runs. -/
theorem eachStep_iff (Inv : σ → Prop) (hiff : ∀ s i, Inv s → (P s i ↔ Q s i))
    (hstep : ∀ s i, Inv s → P s i → Inv (step s i)) {s : σ} (hs : Inv s) (inputs : List ι) :
    EachStep step P s inputs ↔ EachStep step Q s inputs := by
  induction inputs generalizing s with
  | nil => simp
  | cons i is ih =>
      rw [eachStep_cons, eachStep_cons, ← hiff s i hs]
      refine and_congr_right fun hP => ?_
      exact ih (hstep s i hs hP)

/-- The steps of a later part of a run, taken from the state that it starts in. -/
theorem EachStep.split {s : σ} {earlier later : List ι} (h : EachStep step P s (earlier ++ later)) :
    EachStep step P s earlier ∧ EachStep step P (earlier.foldl step s) later := by
  constructor
  · intro front i back hi
    exact h front i (back ++ later) (by simp [hi])
  · intro front i back hi
    simpa using h (earlier ++ front) i back (by simp [hi])

/-- A property of states that each step keeps holds at the end of the run. -/
theorem EachStep.foldl_keeps {R : σ → Prop} {s : σ} {inputs : List ι}
    (h : EachStep step P s inputs) (hkeep : ∀ s i, P s i → R s → R (step s i)) (hs : R s) :
    R (inputs.foldl step s) := by
  induction inputs generalizing s with
  | nil => exact hs
  | cons i is ih =>
      obtain ⟨hi, hrest⟩ := (eachStep_cons s i is).mp h
      exact ih hrest (hkeep s i hi hs)

end Structor
