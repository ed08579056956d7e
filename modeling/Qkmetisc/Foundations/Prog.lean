import Mathlib.Logic.Basic

/-!
# Programs as trees of operations

A program performs operations one after the other and may look at each answer before it goes
on. Keeping the operations as data gives one definition of a function two readings: run to its
end by itself (`run`), or one operation at a time between the operations of other threads
(`step`).

## Main definitions

* `Prog`: programs, with their monad structure.
* `Prog.run`, `Prog.step`: the two readings.
* `Prog.wp`: the weakest precondition of a program that runs by itself.
* `Prog.wpAlong`: the same, with a property of all states the program passes through.
* `Prog.Every`: what all operations of a program satisfy.
* `Prog.Until`: what the operations before a stopping operation satisfy.
* `Prog.Follows`: a program keeps to a discipline, which says in which order operations may be
  performed.

## Main results

* `run_bind`: a run of a sequence is a run after a run.
* `wp_call`, `wp_seq`, `wp_mono`: the rules for an operation, a sequence and consequence.
* `Every.wp`, `Every.wpAlong`: a property kept by the operations is kept by a run.
* `wpAlong_seq`, `wpAlong_mono`: the rules for passing through states.
-/

/-- A program over operations `Op`, the answer to `o` having type `Ans o`. -/
inductive Prog (Op : Type) (Ans : Op → Type) (α : Type) where
  /-- The program has returned. -/
  | ret (a : α)
  /-- The program performs `o` and goes on with the answer. -/
  | call (o : Op) (k : Ans o → Prog Op Ans α)

namespace Prog

variable {Op : Type} {Ans : Op → Type} {α β σ : Type}

/-- Sequential composition. -/
protected def bind : Prog Op Ans α → (α → Prog Op Ans β) → Prog Op Ans β
  | ret a, f => f a
  | call o k, f => call o fun a => (k a).bind f

instance : Monad (Prog Op Ans) where
  pure := ret
  bind := Prog.bind

/-- The program that performs one operation and returns its answer. -/
def perform (o : Op) : Prog Op Ans (Ans o) := call o ret

@[simp]
theorem pure_eq_ret (a : α) : (pure a : Prog Op Ans α) = ret a := rfl

@[simp]
theorem ret_bind (a : α) (f : α → Prog Op Ans β) : (ret a >>= f : Prog Op Ans β) = f a := rfl

@[simp]
theorem call_bind (o : Op) (k : Ans o → Prog Op Ans α) (f : α → Prog Op Ans β) :
    (call o k >>= f : Prog Op Ans β) = call o fun a => k a >>= f := rfl

@[simp]
theorem perform_bind (o : Op) (f : Ans o → Prog Op Ans β) :
    (perform o >>= f : Prog Op Ans β) = call o f := rfl

/-! ## Execution -/

section Run

variable (exec : (o : Op) → σ → Ans o × σ)

/-- Run a program to its end: its result and the last state. -/
def run : Prog Op Ans α → σ → α × σ
  | ret a, s => (a, s)
  | call o k, s => (k (exec o s).1).run (exec o s).2

/-- Perform one operation of a program. A program that has returned stays as it is. -/
def step : Prog Op Ans α → σ → Prog Op Ans α × σ
  | ret a, s => (ret a, s)
  | call o k, s => (k (exec o s).1, (exec o s).2)

@[simp]
theorem run_ret (a : α) (s : σ) : (ret a : Prog Op Ans α).run exec s = (a, s) := rfl

@[simp]
theorem run_call (o : Op) (k : Ans o → Prog Op Ans α) (s : σ) :
    (call o k).run exec s = (k (exec o s).1).run exec (exec o s).2 := rfl

@[simp]
theorem run_perform (o : Op) (s : σ) :
    (perform o : Prog Op Ans (Ans o)).run exec s = exec o s := rfl

/-- A run of a sequence is a run of its second part after a run of its first. -/
theorem run_bind (p : Prog Op Ans α) (f : α → Prog Op Ans β) (s : σ) :
    (p >>= f).run exec s = (f (p.run exec s).1).run exec (p.run exec s).2 := by
  induction p generalizing s with
  | ret a => rfl
  | call o k ih => exact ih (exec o s).1 (exec o s).2

end Run

/-! ## Preconditions and postconditions -/

section Wp

variable {exec : (o : Op) → σ → Ans o × σ} {s : σ}

/-- The weakest precondition: `p` started in `s` ends with a result and a state in `Q`. -/
def wp (exec : (o : Op) → σ → Ans o × σ) (p : Prog Op Ans α) (Q : α → σ → Prop) (s : σ) : Prop :=
  Q (p.run exec s).1 (p.run exec s).2

@[simp]
theorem wp_ret (a : α) (Q : α → σ → Prop) :
    (ret a : Prog Op Ans α).wp exec Q s ↔ Q a s := Iff.rfl

/-- The rule for a sequence. -/
theorem wp_bind {p : Prog Op Ans α} {f : α → Prog Op Ans β} {Q : β → σ → Prop} :
    (p >>= f).wp exec Q s ↔ p.wp exec (fun a => (f a).wp exec Q) s := by
  rw [wp, run_bind]
  rfl

/-- The rule of consequence. -/
theorem wp_mono {p : Prog Op Ans α} {Q R : α → σ → Prop} (hp : p.wp exec R s)
    (h : ∀ a s', R a s' → Q a s') : p.wp exec Q s := h _ _ hp

@[simp]
theorem wp_perform (o : Op) (Q : Ans o → σ → Prop) :
    (perform o : Prog Op Ans (Ans o)).wp exec Q s ↔ Q (exec o s).1 (exec o s).2 := Iff.rfl

/-- The rule for an operation: what it leaves is what the rest starts with. -/
theorem wp_call {o : Op} {f : Ans o → Prog Op Ans α} {Q : α → σ → Prop} {R : Ans o → σ → Prop}
    (ho : R (exec o s).1 (exec o s).2) (hf : ∀ a s', R a s' → (f a).wp exec Q s') :
    (perform o >>= f : Prog Op Ans α).wp exec Q s := hf _ _ ho

/-- The rule for a subprogram: what it leaves is what the rest starts with. -/
theorem wp_seq {p : Prog Op Ans α} {f : α → Prog Op Ans β} {Q : β → σ → Prop}
    {R : α → σ → Prop} (hp : p.wp exec R s) (hf : ∀ a s', R a s' → (f a).wp exec Q s') :
    (p >>= f).wp exec Q s := wp_bind.2 (wp_mono hp hf)

/-- The rule for a subprogram whose effect does not matter. -/
theorem wp_skip {p : Prog Op Ans α} {f : α → Prog Op Ans β} {Q : β → σ → Prop}
    (hf : ∀ a s', (f a).wp exec Q s') : (p >>= f).wp exec Q s := wp_bind.2 (hf _ _)

/-- The rule of conjunction. -/
theorem wp_and {p : Prog Op Ans α} {Q R : α → σ → Prop} (hQ : p.wp exec Q s)
    (hR : p.wp exec R s) : p.wp exec (fun a s' => Q a s' ∧ R a s') s := ⟨hQ, hR⟩

end Wp

/-! ## What the operations of a program satisfy -/

/-- Every operation the program can perform satisfies `P`. -/
def Every (P : Op → Prop) : Prog Op Ans α → Prop
  | ret _ => True
  | call o k => P o ∧ ∀ a, (k a).Every P

/-- Every operation the program can perform before one that satisfies `stop` satisfies `P`. -/
def Until (stop P : Op → Prop) : Prog Op Ans α → Prop
  | ret _ => True
  | call o k => stop o ∨ P o ∧ ∀ a, (k a).Until stop P

section Predicates

variable {stop P Q : Op → Prop} {p : Prog Op Ans α} {f : α → Prog Op Ans β}

@[simp]
theorem every_ret (a : α) : (ret a : Prog Op Ans α).Every P := trivial

@[simp]
theorem every_call {o : Op} {k : Ans o → Prog Op Ans α} :
    (call o k).Every P ↔ P o ∧ ∀ a, (k a).Every P := Iff.rfl

@[simp]
theorem every_perform {o : Op} : (perform o : Prog Op Ans (Ans o)).Every P ↔ P o :=
  and_iff_left fun _ => trivial

theorem Every.bind (hp : p.Every P) (hf : ∀ a, (f a).Every P) : (p >>= f).Every P := by
  induction p with
  | ret a => exact hf a
  | call o k ih => exact ⟨hp.1, fun a => ih a (hp.2 a)⟩

theorem Every.mono (hp : p.Every P) (h : ∀ o, P o → Q o) : p.Every Q := by
  induction p with
  | ret a => trivial
  | call o k ih => exact ⟨h o hp.1, fun a => ih a (hp.2 a)⟩

/-- The invariant rule: a property of the state kept by the operations of a program is kept by
its run. -/
theorem Every.wp {exec : (o : Op) → σ → Ans o × σ} {I : σ → Prop} {s : σ} (hp : p.Every P)
    (h : ∀ o s, P o → I s → I (exec o s).2) (hs : I s) : p.wp exec (fun _ => I) s := by
  -- the invariant holds after the first operation, and from there on
  induction p generalizing s with
  | ret a => exact hs
  | call o k ih => exact ih _ (hp.2 _) (h o s hp.1 hs)

@[simp]
theorem until_ret (a : α) : (ret a : Prog Op Ans α).Until stop P := trivial

@[simp]
theorem until_call {o : Op} {k : Ans o → Prog Op Ans α} :
    (call o k).Until stop P ↔ stop o ∨ P o ∧ ∀ a, (k a).Until stop P := Iff.rfl

theorem Until.bind (hp : p.Until stop P) (hf : ∀ a, (f a).Until stop P) :
    (p >>= f).Until stop P := by
  induction p with
  | ret a => exact hf a
  | call o k ih => exact hp.imp_right fun h => ⟨h.1, fun a => ih a (h.2 a)⟩

theorem Until.mono (hp : p.Until stop P) (h : ∀ o, P o → Q o) : p.Until stop Q := by
  induction p with
  | ret a => trivial
  | call o k ih => exact hp.imp_right fun hgo => ⟨h o hgo.1, fun a => ih a (hgo.2 a)⟩

/-- What all operations satisfy, those before a stop do. -/
theorem Every.until (hp : p.Every P) : p.Until stop P := by
  induction p with
  | ret a => trivial
  | call o k ih => exact .inr ⟨hp.1, fun a => ih a (hp.2 a)⟩

end Predicates

/-! ## All states on the way -/

section Along

variable {exec : (o : Op) → σ → Ans o × σ} {P : σ → Prop} {s : σ}

/-- `p` started in `s` passes through states in `P` only, the first and the last included, and
ends with a result and a state in `Q`. -/
def wpAlong (exec : (o : Op) → σ → Ans o × σ) (P : σ → Prop) :
    Prog Op Ans α → (α → σ → Prop) → σ → Prop
  | ret a, Q, s => P s ∧ Q a s
  | call o k, Q, s => P s ∧ (k (exec o s).1).wpAlong exec P Q (exec o s).2

/-- Without a property of the states on the way, it is the weakest precondition. -/
theorem wpAlong_true {p : Prog Op Ans α} {Q : α → σ → Prop} :
    p.wpAlong exec (fun _ => True) Q s ↔ p.wp exec Q s := by
  induction p generalizing s with
  | ret a => exact and_iff_right trivial
  | call o k ih => exact (and_iff_right trivial).trans (ih _)

/-- The rule of consequence. -/
theorem wpAlong_mono {p : Prog Op Ans α} {Q R : α → σ → Prop} (hp : p.wpAlong exec P R s)
    (h : ∀ a s', P s' → R a s' → Q a s') : p.wpAlong exec P Q s := by
  induction p generalizing s with
  | ret a => exact ⟨hp.1, h a s hp.1 hp.2⟩
  | call o k ih => exact ⟨hp.1, ih _ hp.2⟩

/-- What holds at the end may be added. -/
theorem wpAlong_and {p : Prog Op Ans α} {Q R : α → σ → Prop} (hp : p.wpAlong exec P Q s)
    (hR : p.wp exec R s) : p.wpAlong exec P (fun a s' => Q a s' ∧ R a s') s := by
  induction p generalizing s with
  | ret a => exact ⟨hp.1, hp.2, hR⟩
  | call o k ih => exact ⟨hp.1, ih _ hp.2 hR⟩

/-- The end of the way. -/
theorem wp_of_wpAlong {p : Prog Op Ans α} {Q : α → σ → Prop} (hp : p.wpAlong exec P Q s) :
    p.wp exec (fun a s' => P s' ∧ Q a s') s := by
  induction p generalizing s with
  | ret a => exact hp
  | call o k ih => exact ih _ hp.2

/-- The rule for a subprogram. -/
theorem wpAlong_seq {p : Prog Op Ans α} {f : α → Prog Op Ans β} {Q : β → σ → Prop}
    {R : α → σ → Prop} (hp : p.wpAlong exec P R s)
    (hf : ∀ a s', P s' → R a s' → (f a).wpAlong exec P Q s') : (p >>= f).wpAlong exec P Q s := by
  induction p generalizing s with
  | ret a => exact hf a s hp.1 hp.2
  | call o k ih => exact ⟨hp.1, ih _ hp.2⟩

/-- The rule for an operation. -/
theorem wpAlong_call {o : Op} {f : Ans o → Prog Op Ans α} {Q : α → σ → Prop}
    {R : Ans o → σ → Prop} (hs : P s) (ho : R (exec o s).1 (exec o s).2)
    (hf : ∀ a s', R a s' → (f a).wpAlong exec P Q s') :
    (perform o >>= f : Prog Op Ans α).wpAlong exec P Q s := ⟨hs, hf _ _ ho⟩

/-- The rule for a last operation. -/
theorem wpAlong_perform {o : Op} {Q : Ans o → σ → Prop} (hs : P s) (hs' : P (exec o s).2)
    (ho : Q (exec o s).1 (exec o s).2) :
    (perform o : Prog Op Ans (Ans o)).wpAlong exec P Q s := ⟨hs, hs', ho⟩

/-- The invariant rule: an invariant that is kept by the operations holds on the whole way. -/
theorem Every.wpAlong {A : Op → Prop} {I : σ → Prop} {p : Prog Op Ans α} (hp : p.Every A)
    (h : ∀ o s, A o → I s → I (exec o s).2) (hI : ∀ s, I s → P s) (hs : I s) :
    p.wpAlong exec P (fun _ => I) s := by
  induction p generalizing s with
  | ret a => exact ⟨hI s hs, hs⟩
  | call o k ih => exact ⟨hI s hs, ih _ (hp.2 _) (h o s hp.1 hs)⟩

end Along

/-! ## Disciplines

A discipline says in which order a program may perform its operations: in each phase, which
operations are allowed, and the phase an operation leads to, depending on its answer. -/

/-- A discipline with phases `Φ`. -/
structure Discipline (Op : Type) (Ans : Op → Type) (Φ : Type) where
  /-- The operation may be performed in the phase. -/
  Allowed : Φ → Op → Prop
  /-- The phase after the operation. -/
  next : Φ → (o : Op) → Ans o → Φ

/-- The next operation of a program. -/
def next? : Prog Op Ans α → Option Op
  | ret _ => none
  | call o _ => some o

/-- The program has returned. -/
def Returned (p : Prog Op Ans α) : Prop := p.next? = none

instance (p : Prog Op Ans α) : Decidable p.Returned :=
  match p with
  | ret _ => .isTrue rfl
  | call _ _ => .isFalse nofun

section Follows

variable {Φ : Type} {d : Discipline Op Ans Φ} {φ : Φ}

/-- From phase `φ` on the program keeps to the discipline, and where it returns the result and
the phase are in `Q`. -/
def Follows (d : Discipline Op Ans Φ) (Q : α → Φ → Prop) : Φ → Prog Op Ans α → Prop
  | φ, ret a => Q a φ
  | φ, call o k => d.Allowed φ o ∧ ∀ a, (k a).Follows d Q (d.next φ o a)

/-- The rule of consequence. -/
theorem Follows.mono {p : Prog Op Ans α} {Q R : α → Φ → Prop} (hp : p.Follows d R φ)
    (h : ∀ a φ, R a φ → Q a φ) : p.Follows d Q φ := by
  induction p generalizing φ with
  | ret a => exact h a φ hp
  | call o k ih => exact ⟨hp.1, fun a => ih a (hp.2 a)⟩

/-- The rule for a sequence. -/
theorem Follows.bind {p : Prog Op Ans α} {f : α → Prog Op Ans β} {R : α → Φ → Prop}
    {Q : β → Φ → Prop} (hp : p.Follows d R φ) (hf : ∀ a φ, R a φ → (f a).Follows d Q φ) :
    (p >>= f).Follows d Q φ := by
  induction p generalizing φ with
  | ret a => exact hf a φ hp
  | call o k ih => exact ⟨hp.1, fun a => ih a (hp.2 a)⟩

/-- A program all of whose operations are allowed in a phase they do not leave keeps to the
discipline. -/
theorem Every.follows {P : Op → Prop} {p : Prog Op Ans α} (hp : p.Every P)
    (h : ∀ o, P o → d.Allowed φ o ∧ ∀ a, d.next φ o a = φ) :
    p.Follows d (fun _ ψ => ψ = φ) φ := by
  induction p with
  | ret a => rfl
  | call o k ih =>
    obtain ⟨hallowed, hnext⟩ := h o hp.1
    refine ⟨hallowed, fun a => ?_⟩
    rw [hnext a]
    exact ih a (hp.2 a)

end Follows

end Prog
