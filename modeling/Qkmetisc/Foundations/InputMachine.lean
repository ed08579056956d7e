import Mathlib.Data.List.Basic

/-!
# Deterministic machines driven by a list of inputs

A machine is a step function `step : S → I → S`. An input stands for one call of an operation
together with everything the environment answers during that call, so that nondeterminism is
a choice of inputs.

* `run`: the state after a list of inputs.
* `Always P s is`: `P` holds in every state the run from `s` passes through.
* `Meets ok s is`: every input of the run satisfies `ok` in the state it meets.

The two rules are `always_of_invariant` (an invariant preserved by the steps that meet `ok`
holds throughout every run whose steps all meet it) and `always_iff_meets` (it holds throughout
exactly those runs, when a step that misses `ok` breaks it).
-/

namespace InputMachine

variable {S I : Type*} (step : S → I → S)

/-- The state after the inputs `is`. -/
def run (s : S) (is : List I) : S := is.foldl step s

/-- `P` holds in every state of the run, the first and the last included. -/
def Always (P : S → Prop) : S → List I → Prop
  | s, [] => P s
  | s, i :: is => P s ∧ Always P (step s i) is

/-- Every input of the run satisfies `ok` in the state it meets. -/
def Meets (ok : S → I → Prop) : S → List I → Prop
  | _, [] => True
  | s, i :: is => ok s i ∧ Meets ok (step s i) is

@[simp]
theorem run_nil (s : S) : run step s [] = s := rfl

@[simp]
theorem run_cons (s : S) (i : I) (is : List I) :
    run step s (i :: is) = run step (step s i) is := rfl

/-- A run over two lists meets `ok` iff its two parts do. -/
theorem meets_append {ok : S → I → Prop} (s : S) (is js : List I) :
    Meets step ok s (is ++ js) ↔ Meets step ok s is ∧ Meets step ok (run step s is) js := by
  induction is generalizing s with
  | nil => simp [Meets]
  | cons i is ih => simp [Meets, ih, and_assoc]

/-- Every run meets a condition that always holds. -/
theorem meets_true (s : S) (is : List I) : Meets step (fun _ _ => True) s is := by
  induction is generalizing s with
  | nil => trivial
  | cons i is ih => exact ⟨trivial, ih _⟩

/-- What holds throughout a run holds at its end. -/
theorem Always.last {P : S → Prop} {s : S} {is : List I} (h : Always step P s is) :
    P (run step s is) := by
  induction is generalizing s with
  | nil => exact h
  | cons i is ih => exact ih h.2

/-- What holds throughout a run may be weakened. -/
theorem Always.mono {P Q : S → Prop} (hPQ : ∀ s, P s → Q s) {s : S} {is : List I}
    (h : Always step P s is) : Always step Q s is := by
  induction is generalizing s with
  | nil => exact hPQ s h
  | cons i is ih => exact ⟨hPQ s h.1, ih h.2⟩

/-- Two properties that hold throughout a run hold together throughout it. -/
theorem Always.and {P Q : S → Prop} {s : S} {is : List I} (hP : Always step P s is)
    (hQ : Always step Q s is) : Always step (fun s => P s ∧ Q s) s is := by
  induction is generalizing s with
  | nil => exact ⟨hP, hQ⟩
  | cons i is ih => exact ⟨⟨hP.1, hQ.1⟩, ih hP.2 hQ.2⟩

section Invariant

variable {step} {P : S → Prop} {ok : S → I → Prop}

/-- An invariant preserved by the steps that meet `ok` holds at the end of every run whose
steps all meet it. -/
theorem invariant_run (hstep : ∀ s i, P s → ok s i → P (step s i)) {s : S} {is : List I}
    (hs : P s) (hok : Meets step ok s is) : P (run step s is) := by
  induction is generalizing s with
  | nil => exact hs
  | cons i is ih => exact ih (hstep s i hs hok.1) hok.2

/-- An invariant preserved by every step holds at the end of every run. -/
theorem invariant_run_of_step (hstep : ∀ s i, P s → P (step s i)) {s : S} (is : List I)
    (hs : P s) : P (run step s is) :=
  invariant_run (fun s i h _ => hstep s i h) hs (meets_true step s is)

/-- An invariant preserved by the steps that meet `ok` holds throughout every run whose
steps all meet it. -/
theorem always_of_invariant (hstep : ∀ s i, P s → ok s i → P (step s i)) {s : S} {is : List I}
    (hs : P s) (hok : Meets step ok s is) : Always step P s is := by
  induction is generalizing s with
  | nil => exact hs
  | cons i is ih => exact ⟨hs, ih (hstep s i hs hok.1) hok.2⟩

/-- What an invariant says about each step holds of every step of such a run. -/
theorem meets_of_invariant {does : S → I → Prop} (hstep : ∀ s i, P s → ok s i → P (step s i))
    (hdoes : ∀ s i, P s → ok s i → does s i) {s : S} {is : List I} (hs : P s)
    (hok : Meets step ok s is) : Meets step does s is := by
  induction is generalizing s with
  | nil => trivial
  | cons i is ih => exact ⟨hdoes s i hs hok.1, ih (hstep s i hs hok.1) hok.2⟩

/-- An invariant preserved by every step holds throughout every run. -/
theorem always_of_step (hstep : ∀ s i, P s → P (step s i)) {s : S} (is : List I) (hs : P s) :
    Always step P s is :=
  always_of_invariant (fun s i h _ => hstep s i h) hs (meets_true step s is)

/-- When a step keeps the invariant exactly if it meets `ok`, the invariant holds throughout
exactly the runs whose steps all meet `ok`. -/
theorem always_iff_meets (hstep : ∀ s i, P s → (P (step s i) ↔ ok s i)) {s : S}
    (is : List I) (hs : P s) : Always step P s is ↔ Meets step ok s is := by
  induction is generalizing s with
  | nil => simpa [Always, Meets] using hs
  | cons i is ih =>
    constructor
    · rintro ⟨-, hrest⟩
      -- the invariant after the first step is part of what holds throughout
      have hnext : P (step s i) := by
        cases is with
        | nil => exact hrest
        | cons j js => exact hrest.1
      exact ⟨(hstep s i hs).1 hnext, (ih hnext).1 hrest⟩
    · rintro ⟨hok, hrest⟩
      exact ⟨hs, (ih ((hstep s i hs).2 hok)).2 hrest⟩

/-- When a step that misses `ok` breaks what an invariant implies, that holds throughout exactly the
runs whose steps all meet `ok`. -/
theorem always_iff_meets_of_breaks {Q : S → Prop} {proper : S → I → Prop} (hPQ : ∀ s, P s → Q s)
    (hkeep : ∀ s i, P s → proper s i → ok s i → P (step s i))
    (hbreak : ∀ s i, P s → proper s i → Q (step s i) → ok s i) {s : S} {is : List I} (hs : P s)
    (hproper : Meets step proper s is) : Always step Q s is ↔ Meets step ok s is := by
  induction is generalizing s with
  | nil => exact iff_of_true (hPQ s hs) trivial
  | cons i is ih =>
    obtain ⟨hi, hrest⟩ := hproper
    constructor
    · rintro ⟨-, halways⟩
      have hnext : Q (step s i) := by
        cases is with
        | nil => exact halways
        | cons j js => exact halways.1
      have hok := hbreak s i hs hi hnext
      exact ⟨hok, (ih (hkeep s i hs hi hok) hrest).1 halways⟩
    · rintro ⟨hok, hmeets⟩
      exact ⟨hPQ s hs, (ih (hkeep s i hs hi hok) hrest).2 hmeets⟩

end Invariant

end InputMachine
