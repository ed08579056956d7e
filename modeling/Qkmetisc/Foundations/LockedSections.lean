import Qkmetisc.Foundations.Prog

/-!
# Programs with locked sections

Threads that share a lock and otherwise keep to objects of their own can be taken to run from one
locked section through the next: what they do in between, the others cannot see. A thread is
judged by what it leaves at each such pause, whatever the others do to its objects until it goes
on.

## Main definitions

* `Prog.advance`: a program runs through its next locked section.
* `Prog.Terms`: what a thread owes the others, and what they owe it.
* `Prog.Upheld`: a program keeps to the terms and ends in a postcondition.

## Main results

* `Upheld.bind`, `Upheld.mono`, `Every.upheld`: the rules for a sequence, for consequence and for
  an invariant.
* `Upheld.advance`: what a thread leaves in a larger state in which it is one of several.
-/

namespace Prog

variable {Op : Type} {Ans : Op → Type} {α β σ τ : Type}

/-- Run a program until it has performed an operation that is a locked section, or to its end. -/
def advance (exec : (o : Op) → τ → Ans o × τ) (locked : Op → Bool) :
    Prog Op Ans α → τ → Prog Op Ans α × τ
  | ret a, w => (ret a, w)
  | call o k, w =>
    if locked o then (k (exec o w).1, (exec o w).2)
    else (k (exec o w).1).advance exec locked (exec o w).2

/-- The terms a thread runs under. -/
structure Terms (Op σ : Type) where
  /-- The operation is a locked section. -/
  locked : Op → Bool
  /-- The thread may perform the operation in the state. -/
  Permitted : Op → σ → Prop
  /-- What the thread leaves when it pauses after a locked section. -/
  Pause : σ → Prop
  /-- What the other threads may do to the state until it goes on. -/
  Rely : σ → σ → Prop

section Upheld

variable {exec : (o : Op) → σ → Ans o × σ} {t : Terms Op σ} {s : σ}

/-- `p` started in `s` performs only what is permitted, leaves at each pause what it owes, and
ends with a result and a state in `Q`, whatever the others do while it pauses. -/
def Upheld (exec : (o : Op) → σ → Ans o × σ) (t : Terms Op σ) :
    Prog Op Ans α → (α → σ → Prop) → σ → Prop
  | ret a, Q, s => Q a s
  | call o k, Q, s => t.Permitted o s ∧
    if t.locked o then
      t.Pause (exec o s).2 ∧ ∀ s', t.Rely (exec o s).2 s' → (k (exec o s).1).Upheld exec t Q s'
    else (k (exec o s).1).Upheld exec t Q (exec o s).2

/-- The rule of consequence. -/
theorem Upheld.mono {p : Prog Op Ans α} {Q R : α → σ → Prop} (hp : p.Upheld exec t R s)
    (h : ∀ a s', R a s' → Q a s') : p.Upheld exec t Q s := by
  -- on the program; after a locked section for every state the others leave
  induction p generalizing s with
  | ret a => exact h a s hp
  | call o k ih =>
    refine ⟨hp.1, ?_⟩
    have hrest := hp.2
    split at hrest
    next hlocked =>
      rw [if_pos hlocked]
      exact ⟨hrest.1, fun s' hs' => ih _ (hrest.2 s' hs')⟩
    next hlocked =>
      rw [if_neg hlocked]
      exact ih _ hrest

/-- The rule for a subprogram. -/
theorem Upheld.bind {p : Prog Op Ans α} {f : α → Prog Op Ans β} {Q : β → σ → Prop}
    {R : α → σ → Prop} (hp : p.Upheld exec t R s)
    (hf : ∀ a s', R a s' → (f a).Upheld exec t Q s') : (p >>= f).Upheld exec t Q s := by
  induction p generalizing s with
  | ret a => exact hf a s hp
  | call o k ih =>
    refine ⟨hp.1, ?_⟩
    have hrest := hp.2
    split at hrest
    next hlocked =>
      rw [if_pos hlocked]
      exact ⟨hrest.1, fun s' hs' => ih _ (hrest.2 s' hs')⟩
    next hlocked =>
      rw [if_neg hlocked]
      exact ih _ hrest

/-- The rule for an operation that is not a locked section. -/
theorem upheld_call {o : Op} {f : Ans o → Prog Op Ans α} {Q : α → σ → Prop}
    {R : Ans o → σ → Prop} (hunlocked : t.locked o = false) (hpermitted : t.Permitted o s)
    (ho : R (exec o s).1 (exec o s).2) (hf : ∀ a s', R a s' → (f a).Upheld exec t Q s') :
    (perform o >>= f : Prog Op Ans α).Upheld exec t Q s := by
  refine ⟨hpermitted, ?_⟩
  rw [if_neg (by simp [hunlocked])]
  exact hf _ _ ho

/-- The rule for a locked section. -/
theorem upheld_locked {o : Op} {f : Ans o → Prog Op Ans α} {Q : α → σ → Prop}
    {R : Ans o → σ → Prop} (hlocked : t.locked o = true) (hpermitted : t.Permitted o s)
    (hpause : t.Pause (exec o s).2) (ho : ∀ s', t.Rely (exec o s).2 s' → R (exec o s).1 s')
    (hf : ∀ a s', R a s' → (f a).Upheld exec t Q s') :
    (perform o >>= f : Prog Op Ans α).Upheld exec t Q s := by
  refine ⟨hpermitted, ?_⟩
  rw [if_pos hlocked]
  exact ⟨hpause, fun s' hs' => hf _ _ (ho s' hs')⟩

/-- The invariant rule: between two locked sections, an invariant that is kept by the operations
and permits them is kept by a program. -/
theorem Every.upheld {A : Op → Prop} {I : σ → Prop} {p : Prog Op Ans α} (hp : p.Every A)
    (h : ∀ o s, A o → I s → t.locked o = false ∧ t.Permitted o s ∧ I (exec o s).2) (hs : I s) :
    p.Upheld exec t (fun _ => I) s := by
  -- the invariant permits the first operation, and holds again after it
  induction p generalizing s with
  | ret a => exact hs
  | call o k ih =>
    obtain ⟨hunlocked, hpermitted, hnext⟩ := h o s hp.1 hs
    refine ⟨hpermitted, ?_⟩
    rw [if_neg (by simp [hunlocked])]
    exact ih _ (hp.2 _) hnext

/-- Between two locked sections a program does what it does by itself. -/
theorem Upheld.and_wp {p : Prog Op Ans α} {Q R : α → σ → Prop}
    (hunlocked : p.Every fun o => t.locked o = false) (hp : p.Upheld exec t Q s)
    (hR : p.wp exec R s) : p.Upheld exec t (fun a s' => Q a s' ∧ R a s') s := by
  induction p generalizing s with
  | ret a => exact ⟨hp, hR⟩
  | call o k ih =>
    refine ⟨hp.1, ?_⟩
    have hrest := hp.2
    rw [if_neg (by simp [hunlocked.1])] at hrest ⊢
    exact ih _ (hunlocked.2 _) hrest hR

/-- Where a thread stands when it does not run: it has returned with a result in `Q`, or it
pauses and will keep to the terms from wherever the others leave it. -/
def Stands (exec : (o : Op) → σ → Ans o × σ) (t : Terms Op σ) (p : Prog Op Ans α)
    (Q : α → σ → Prop) (s : σ) : Prop :=
  (∃ a, p = ret a ∧ Q a s) ∨ t.Pause s ∧ ∀ s', t.Rely s s' → p.Upheld exec t Q s'

/-- A thread works on the part `view w` of a larger state. If each operation it is permitted keeps
an invariant of the whole and does to the part what `exec` says, then so does the program up to
its next pause. -/
theorem Upheld.advance {step : (o : Op) → τ → Ans o × τ} (view : τ → σ) {I : τ → Prop}
    (hstep : ∀ o w, I w → t.Permitted o (view w) →
      I (step o w).2 ∧ (step o w).1 = (exec o (view w)).1 ∧
        view (step o w).2 = (exec o (view w)).2)
    {p : Prog Op Ans α} {Q : α → σ → Prop} {w : τ} (hI : I w)
    (hp : p.Upheld exec t Q (view w)) :
    I (p.advance step t.locked w).2 ∧
      (p.advance step t.locked w).1.Stands exec t Q (view (p.advance step t.locked w).2) := by
  -- on the program, which stops at the first locked section
  induction p generalizing w with
  | ret a => exact ⟨hI, .inl ⟨a, rfl, hp⟩⟩
  | call o k ih =>
    obtain ⟨hnext, hanswer, hview⟩ := hstep o w hI hp.1
    have hrest := hp.2
    rw [← hanswer, ← hview] at hrest
    unfold Prog.advance
    split
    next hlocked =>
      rw [if_pos hlocked] at hrest
      exact ⟨hnext, .inr hrest⟩
    next hlocked =>
      rw [if_neg hlocked] at hrest
      exact ih _ hnext hrest

/-- A program that has returned stands where it ended. -/
theorem Stands.of_returned {p : Prog Op Ans α} {Q : α → σ → Prop} (hp : p.Returned)
    (h : p.Stands exec t Q s) (hrefl : t.Rely s s) : ∃ a, p = ret a ∧ Q a s := by
  rcases h with hdone | ⟨-, hrest⟩
  · exact hdone
  · -- a pause right before the end, if nothing happens in it
    cases p with
    | ret a => exact ⟨a, rfl, hrest s hrefl⟩
    | call o k => simp [Returned, next?] at hp

/-- A program that has not returned pauses. -/
theorem Stands.of_not_returned {p : Prog Op Ans α} {Q : α → σ → Prop} (hp : ¬ p.Returned)
    (h : p.Stands exec t Q s) : t.Pause s ∧ ∀ s', t.Rely s s' → p.Upheld exec t Q s' := by
  rcases h with ⟨a, rfl, -⟩ | hpause
  · exact absurd rfl hp
  · exact hpause

end Upheld

end Prog
