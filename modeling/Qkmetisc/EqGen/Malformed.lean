import Qkmetisc.EqGen.InPlace

/-!
# Equations that are none (`eq_solve` on malformed lists)

Where the evaluator stops on a list that is no sentence of the grammar. It reports `EILSEQ` at a
token that cannot stand where it is, with two exceptions: a left bracket after an operand fails an
assertion, and a right bracket after an expression that no bracket opened ends the evaluation with
success.

## Main definitions

* `Stuck`: the scan cannot go on, and the evaluator says so.
* `Outcome`: where a call of the evaluator ends.
* `Rejects`: `eq_solve` reports a list as malformed.

## Main results

* `eqGetExpression_outcome`: every call ends as `Outcome` says.
* `eqSolve_rejects_iff`: which malformed lists are reported.
-/

open Arith

namespace Qkmetisc.EqGen

/-- No token follows that can stand where the scan is, nor is the list a sentence. Brackets after
an operand are another matter. -/
def Stuck : Bool × ℕ → List EqElem → Prop
  | (true, _), [] | (true, _), .op _ :: _ | (true, _), .br .r :: _ => True
  | (false, d), [] => 0 < d
  | (false, _), .nr _ :: _ => True
  | _, _ => False

/-- Where a call ends that starts on `chain` with the scan in `s`: a call that succeeds after an
operand at the depth `d`, with elements `E` left, a call that fails where the scan is stuck or at a
left bracket after an operand. -/
def Outcome (E : List EqElem → Prop) (d : ℕ) (s : Bool × ℕ) (chain : List EqElem) :
    Except SolveFault (List EqElem) → Prop
  | .ok rest => ∃ p, chain = p ++ rest ∧ p.foldlM scanToken s = some (false, d) ∧ E rest
  | .error .eilseq => ∃ p u rest, chain = p ++ rest ∧ p.foldlM scanToken s = some u ∧ Stuck u rest
  | .error .assertFailed =>
    ∃ p depth rest, chain = p ++ .br .l :: rest ∧ p.foldlM scanToken s = some (false, depth)

/-- The elements a call leaves, without its value. -/
def leaves {P : List EqElem → Prop} (call : Except SolveFault (ℤ × {rest // P rest})) :
    Except SolveFault (List EqElem) :=
  call.map fun x => x.2.1

section Outcomes

variable {E F : List EqElem → Prop} {d : ℕ} {s u : Bool × ℕ} {chain p rest : List EqElem}
variable {call : Except SolveFault (List EqElem)}

/-- A call that goes over `p` first ends where the call on the rest does. -/
theorem Outcome.prepend (h : Outcome E d u rest call) (hp : p.foldlM scanToken s = some u) :
    Outcome E d s (p ++ rest) call := by
  have hscan {q : List EqElem} {v : Bool × ℕ} (hq : q.foldlM scanToken u = some v) :
      (p ++ q).foldlM scanToken s = some v := by
    rw [List.foldlM_append, hp]
    exact hq
  match call, h with
  | .ok _, ⟨q, hrest, hq, hE⟩ => exact ⟨p ++ q, by simp [hrest], hscan hq, hE⟩
  | .error .eilseq, ⟨q, v, left, hrest, hq, hstuck⟩ =>
    exact ⟨p ++ q, v, left, by simp [hrest], hscan hq, hstuck⟩
  | .error .assertFailed, ⟨q, depth, left, hrest, hq⟩ =>
    exact ⟨p ++ q, depth, left, by simp [hrest], hscan hq⟩

/-- The same for one token. -/
theorem Outcome.cons {t : EqElem} (h : Outcome E d u rest call) (ht : scanToken s t = some u) :
    Outcome E d s (t :: rest) call := by
  have hp : [t].foldlM scanToken s = some u := by simp [ht]
  exact h.prepend hp

/-- A call that fails ends where the call it made has failed. -/
theorem Outcome.error {d' : ℕ} {e : SolveFault} (h : Outcome E d s chain (.error e)) :
    Outcome F d' s chain (.error e) := by
  cases e with
  | eilseq => exact h
  | assertFailed => exact h

/-- What a call that succeeds has taken. -/
theorem Outcome.exists_taken {P : List EqElem → Prop} {v : ℤ} {h : P rest}
    (houtcome : Outcome E d s chain (leaves (.ok (v, ⟨rest, h⟩)))) :
    ∃ p, chain = p ++ rest ∧ p.foldlM scanToken s = some (false, d) ∧ E rest := houtcome

/-- A call that takes nothing. -/
theorem outcome_ok (h : E chain) : Outcome E d (false, d) chain (.ok chain) := ⟨[], rfl, rfl, h⟩

theorem outcome_eilseq (h : Stuck s chain) : Outcome E d s chain (.error .eilseq) :=
  ⟨[], s, chain, rfl, rfl, h⟩

theorem outcome_assertFailed : Outcome E d (false, d) (.br .l :: rest) (.error .assertFailed) :=
  ⟨[], d, rest, rfl, rfl⟩

end Outcomes

mutual

theorem eqGetPrimary_outcome (d : ℕ) (chain : List EqElem) :
    Outcome (fun _ => True) d (true, d) chain (leaves (eqGetPrimary chain)) := by
  match chain with
  | [] | .br .r :: _ | .op _ :: _ =>
    rw [eqGetPrimary]
    exact outcome_eilseq trivial
  | .nr n :: rest =>
    rw [eqGetPrimary]
    exact ⟨[.nr n], rfl, rfl, trivial⟩
  | .br .l :: rest =>
    have hinner := eqGetExpression_outcome (d + 1) rest
    rw [eqGetPrimary]
    rcases hcall : eqGetExpression rest with e | ⟨v, rest', hlt⟩
    · rw [hcall] at hinner
      exact hinner.error.cons rfl
    · rw [hcall] at hinner
      obtain ⟨p, hrest, hp, hends⟩ := hinner.exists_taken
      -- the bracket has to be closed after the expression
      match rest', hlt, hrest, hends with
      | [], _, hrest, _ =>
        exact ⟨.br .l :: p, (false, d + 1), [], by simp [hrest], hp, Nat.succ_pos d⟩
      | .br .r :: rest'', _, hrest, _ =>
        refine ⟨.br .l :: (p ++ [.br .r]), by simp [hrest], ?_, trivial⟩
        have hclosed : (p ++ [(.br .r : EqElem)]).foldlM scanToken (true, d + 1) =
            some (false, d) := by
          rw [List.foldlM_append, hp]
          rfl
        exact hclosed
termination_by 3 * chain.length

theorem eqGetTerm_outcome (d : ℕ) (chain : List EqElem) :
    Outcome EndsTerm d (true, d) chain (leaves (eqGetTerm chain)) := by
  have hprimary := eqGetPrimary_outcome d chain
  rw [eqGetTerm]
  rcases hcall : eqGetPrimary chain with e | ⟨left, rest, hlt⟩
  · rw [hcall] at hprimary
    exact hprimary.error
  · rw [hcall] at hprimary
    obtain ⟨p, hchain, hp, -⟩ := hprimary.exists_taken
    have hloop := (eqGetTermLoop_outcome d left rest).prepend hp
    rw [← hchain] at hloop
    dsimp only
    rcases hvalue : eqGetTermLoop left rest with e | ⟨v, rest', hle⟩
    · rw [hvalue] at hloop
      exact hloop
    · rw [hvalue] at hloop
      exact hloop
termination_by 3 * chain.length + 1

theorem eqGetTermLoop_outcome (d : ℕ) (left : ℤ) (chain : List EqElem) :
    Outcome EndsTerm d (false, d) chain (leaves (eqGetTermLoop left chain)) := by
  match chain with
  | [] | .op .sum :: rest | .op .sub :: rest | .br .r :: rest =>
    rw [eqGetTermLoop]
    exact outcome_ok trivial
  | .br .l :: rest =>
    rw [eqGetTermLoop]
    exact outcome_assertFailed
  | .nr n :: rest =>
    rw [eqGetTermLoop]
    exact outcome_eilseq trivial
  | .op .mul :: rest =>
    have hprimary := eqGetPrimary_outcome d rest
    rw [eqGetTermLoop]
    rcases hcall : eqGetPrimary rest with e | ⟨w, rest', hlt⟩
    · rw [hcall] at hprimary
      exact hprimary.error.cons rfl
    · rw [hcall] at hprimary
      obtain ⟨p, hchain, hp, -⟩ := hprimary.exists_taken
      have hloop := (eqGetTermLoop_outcome d (left * w) rest').prepend hp
      rw [← hchain] at hloop
      have hmul : Outcome EndsTerm d (false, d) (.op .mul :: rest) _ := hloop.cons rfl
      dsimp only
      rcases hvalue : eqGetTermLoop (left * w) rest' with e | ⟨v, rest'', hle⟩
      · rw [hvalue] at hmul
        exact hmul
      · rw [hvalue] at hmul
        exact hmul
termination_by 3 * chain.length

theorem eqGetExpression_outcome (d : ℕ) (chain : List EqElem) :
    Outcome EndsExpression d (true, d) chain (leaves (eqGetExpression chain)) := by
  have hterm := eqGetTerm_outcome d chain
  rw [eqGetExpression]
  rcases hcall : eqGetTerm chain with e | ⟨left, rest, hlt⟩
  · rw [hcall] at hterm
    exact hterm.error
  · rw [hcall] at hterm
    obtain ⟨p, hchain, hp, hends⟩ := hterm.exists_taken
    have hloop := (eqGetExpressionLoop_outcome d left rest hends).prepend hp
    rw [← hchain] at hloop
    dsimp only
    rcases hvalue : eqGetExpressionLoop left rest with e | ⟨v, rest', hle⟩
    · rw [hvalue] at hloop
      exact hloop
    · rw [hvalue] at hloop
      exact hloop
termination_by 3 * chain.length + 2

theorem eqGetExpressionLoop_outcome (d : ℕ) (left : ℤ) (chain : List EqElem)
    (hends : EndsTerm chain) :
    Outcome EndsExpression d (false, d) chain (leaves (eqGetExpressionLoop left chain)) := by
  match chain, hends with
  | [], _ | .br .r :: rest, _ =>
    rw [eqGetExpressionLoop]
    exact outcome_ok trivial
  | .op .sum :: rest, _ =>
    have hterm := eqGetTerm_outcome d rest
    rw [eqGetExpressionLoop]
    rcases hcall : eqGetTerm rest with e | ⟨w, rest', hlt⟩
    · rw [hcall] at hterm
      exact hterm.error.cons rfl
    · rw [hcall] at hterm
      obtain ⟨p, hchain, hp, hends⟩ := hterm.exists_taken
      have hloop := (eqGetExpressionLoop_outcome d (left + w) rest' hends).prepend hp
      rw [← hchain] at hloop
      have hsum : Outcome EndsExpression d (false, d) (.op .sum :: rest) _ :=
        hloop.cons rfl
      dsimp only
      rcases hvalue : eqGetExpressionLoop (left + w) rest' with e | ⟨v, rest'', hle⟩
      · rw [hvalue] at hsum
        exact hsum
      · rw [hvalue] at hsum
        exact hsum
  | .op .sub :: rest, _ =>
    have hterm := eqGetTerm_outcome d rest
    rw [eqGetExpressionLoop]
    rcases hcall : eqGetTerm rest with e | ⟨w, rest', hlt⟩
    · rw [hcall] at hterm
      exact hterm.error.cons rfl
    · rw [hcall] at hterm
      obtain ⟨p, hchain, hp, hends⟩ := hterm.exists_taken
      have hloop := (eqGetExpressionLoop_outcome d (left - w) rest' hends).prepend hp
      rw [← hchain] at hloop
      have hsub : Outcome EndsExpression d (false, d) (.op .sub :: rest) _ :=
        hloop.cons rfl
      dsimp only
      rcases hvalue : eqGetExpressionLoop (left - w) rest' with e | ⟨v, rest'', hle⟩
      · rw [hvalue] at hsub
        exact hsub
      · rw [hvalue] at hsub
        exact hsub
termination_by 3 * chain.length

end

/-! ## Which malformed lists are reported -/

/-- Read from left to right, operands and operators alternate up to some operand, and directly
after it stands a left bracket, or a right bracket although none is open. -/
def BreaksAtBracket (e : List EqElem) : Prop :=
  ∃ d q rest, Scan false d q ∧ (e = q ++ .br .l :: rest ∨ d = 0 ∧ e = q ++ .br .r :: rest)

/-- `eq_solve` reports the list as malformed: it returns `false` with `errno` set to `EILSEQ`, and
the number is left as it was. -/
def Rejects (e : List EqElem) : Prop :=
  ∀ out errno, ∃ call, InPlace.eqSolve e out errno = some call ∧ call.ok = false ∧
    call.out = out ∧ call.errno = EILSEQ

/-- `eq_solve` reports `EILSEQ` exactly where the evaluator does. -/
theorem rejects_iff {e : List EqElem} (hne : e ≠ []) :
    Rejects e ↔ eqGetExpression e = .error .eilseq := by
  constructor
  · intro hrejects
    obtain ⟨call, hcall, hfalse, -⟩ := hrejects 0 0
    rw [InPlace.eqSolve, if_neg hne] at hcall
    have hagrees := eqGetExpression_agrees e 0 0
    rcases hvalue : eqGetExpression e with fault | ⟨v, rest⟩
    · cases fault with
      | eilseq => rfl
      | assertFailed =>
        rw [hvalue] at hagrees
        simp [hagrees.of_assertFailed] at hcall
    · rw [hvalue] at hagrees
      rw [hagrees.of_ok] at hcall
      simp [← Option.some.inj hcall] at hfalse
  · intro hvalue out errno
    have hagrees := eqGetExpression_agrees e out errno
    rw [hvalue] at hagrees
    obtain ⟨chain, hcall⟩ := hagrees.of_eilseq
    rw [InPlace.eqSolve, if_neg hne, hcall]
    exact ⟨_, rfl, rfl, rfl, rfl⟩

/-- Where the scan is stuck, it is not at a bracket after an operand. -/
theorem not_breaksAtBracket {e p rest : List EqElem} {u : Bool × ℕ} (he : e = p ++ rest)
    (hp : p.foldlM scanToken (true, 0) = some u) (hstuck : Stuck u rest) :
    ¬ BreaksAtBracket e := by
  rintro ⟨d, q, rest', hscan, hbracket⟩
  have hq := scan_iff.1 hscan
  -- both brackets are refused by the scan
  obtain ⟨b, heq, hb⟩ : ∃ b, e = q ++ .br b :: rest' ∧
      scanToken (false, d) (.br b : EqElem) = none ∧ ¬ Stuck (false, d) (.br b :: rest') := by
    rcases hbracket with hleft | ⟨rfl, hright⟩
    · exact ⟨.l, hleft, rfl, fun h => h⟩
    · exact ⟨.r, hright, rfl, fun h => h⟩
  obtain ⟨hrefused, hnot⟩ := hb
  cases rest with
  | nil =>
    -- the whole list has been scanned
    rw [List.append_nil] at he
    rw [← he, heq, List.foldlM_append, hq] at hp
    simp [hrefused] at hp
  | cons t rest =>
    have ht : scanToken u t = none := by
      match u, t, hstuck with
      | (true, _), .op _, _ | (true, _), .br .r, _ | (false, _), .nr _, _ => rfl
    obtain rfl := refused_unique (he.symm.trans heq) hp ht hq hrefused
    obtain rfl : u = (false, d) := Option.some.inj (hp.symm.trans hq)
    rw [List.append_cancel_left (he.symm.trans heq)] at hstuck
    exact hnot hstuck

/-- Of the lists that are no sentences, `eq_solve` reports exactly those that do not break at a
bracket directly after an operand. -/
theorem eqSolve_rejects_iff {e : List EqElem} (hne : e ≠ []) (hnot : ¬ IsExpression e) :
    Rejects e ↔ ¬ BreaksAtBracket e := by
  rw [rejects_iff hne]
  have houtcome := eqGetExpression_outcome 0 e
  rcases hvalue : eqGetExpression e with fault | ⟨v, rest, hlt⟩
  · rw [hvalue] at houtcome
    cases fault with
    | eilseq =>
      obtain ⟨p, u, rest, he, hp, hstuck⟩ := houtcome
      simpa using not_breaksAtBracket he hp hstuck
    | assertFailed =>
      obtain ⟨p, depth, rest, he, hp⟩ := houtcome
      have hbreaks : BreaksAtBracket e := ⟨depth, p, rest, scan_iff.2 hp, .inl he⟩
      simpa using hbreaks
  · rw [hvalue] at houtcome
    obtain ⟨p, he, hp, hends⟩ := houtcome.exists_taken
    have hscan := scan_iff.2 hp
    match rest, hlt, he, hends with
    | [], _, he, _ =>
      -- all of the list has been taken, so it is a sentence
      rw [List.append_nil] at he
      exact absurd (he ▸ hscan.derives) hnot
    | .br .r :: rest, _, he, _ =>
      have hbreaks : BreaksAtBracket e := ⟨0, p, rest, hscan, .inr ⟨rfl, he⟩⟩
      simpa using hbreaks

/-- What the evaluator does not take is no sentence. -/
theorem not_isExpression_of_error {e : List EqElem} {fault : SolveFault}
    (h : eqSolve e = .error fault) : ¬ IsExpression e := by
  rintro ⟨v, hv⟩
  rw [eqSolve_of_derives hv] at h
  cases h

/-- Two numbers side by side are reported. -/
theorem eqSolve_rejects_adjacent : Rejects [.nr 1, .nr 2] := by
  have hfault : eqSolve [.nr 1, .nr 2] = .error .eilseq := by decide +kernel
  have hstuck : ¬ BreaksAtBracket [.nr 1, .nr 2] :=
    not_breaksAtBracket (p := [.nr 1]) (u := (false, 0)) rfl rfl trivial
  exact (eqSolve_rejects_iff (List.cons_ne_nil _ _) (not_isExpression_of_error hfault)).2 hstuck

/-- A bracket opened right after an operand fails an assertion instead. -/
theorem not_rejects_opened_bracket :
    ¬ ∀ e : List EqElem, e ≠ [] → ¬ IsExpression e → Rejects e := by
  intro hall
  have hfault : eqSolve [.nr 1, .br .l] = .error .assertFailed := by decide +kernel
  have hnone : (InPlace.eqSolve [.nr 1, .br .l] 0 0).isNone := by decide +kernel
  obtain ⟨call, hcall, -⟩ :=
    hall [.nr 1, .br .l] (List.cons_ne_nil _ _) (not_isExpression_of_error hfault) 0 0
  simp [hcall] at hnone

end Qkmetisc.EqGen
