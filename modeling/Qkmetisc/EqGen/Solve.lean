import Qkmetisc.EqGen.Generate

/-!
# Evaluation of equations (`eq_solve`)

The recursive-descent evaluator of `eq.c`. The `chain` argument of the source is a pointer that
the functions advance; here each returns the elements that are left, with the proof that it went
forward, which is why the recursion ends.

## Main definitions

* `eqGetPrimary`, `eqGetTerm`, `eqGetExpression`: the functions of the source, with
  `eqGetTermLoop` and `eqGetExpressionLoop` for the `while` loops of the last two.
* `eqSolve`: `eq_solve`.
* `Yields`: a call returned a value and left certain elements.

## Main results

* `eqGetExpression_complete`: on a sentence of the grammar followed by anything that ends it, the
  evaluator goes exactly over the sentence and computes its value.
* `eqSolve_of_derives`, `derives_unique`: `eq_solve` finds the value of every equation, which
  therefore has only one.
-/

open Arith

namespace Qkmetisc.EqGen

/-- How an evaluation fails: `errno = EILSEQ`, or a failed assertion. -/
inductive SolveFault where
  | eilseq
  | assertFailed
  deriving Repr, DecidableEq

/-- The elements left after a call that takes at least one. -/
abbrev After (chain : List EqElem) := {rest : List EqElem // rest.length < chain.length}

/-- The elements left after a loop. -/
abbrev Within (chain : List EqElem) := {rest : List EqElem // rest.length ≤ chain.length}

mutual

/-- `eq_get_primary`. -/
def eqGetPrimary (chain : List EqElem) : Except SolveFault (ℤ × After chain) :=
  match chain with
  | [] => .error .eilseq
  | .nr n :: rest => .ok (n, ⟨rest, Nat.lt_succ_self _⟩)
  | .br .l :: rest =>
    match eqGetExpression rest with
    | .error e => .error e
    | .ok (_, ⟨[], _⟩) => .error .eilseq
    | .ok (res, ⟨.br .r :: rest', h⟩) => .ok (res, ⟨rest', by simp at h ⊢; omega⟩)
    | .ok _ => .error .eilseq
  | .br .r :: _ => .error .eilseq
  | .op _ :: _ => .error .eilseq
termination_by 3 * chain.length

/-- `eq_get_term`. -/
def eqGetTerm (chain : List EqElem) : Except SolveFault (ℤ × After chain) :=
  match eqGetPrimary chain with
  | .error e => .error e
  | .ok (left, ⟨rest, h⟩) =>
    match eqGetTermLoop left rest with
    | .error e => .error e
    | .ok (out, ⟨rest', h'⟩) => .ok (out, ⟨rest', Nat.lt_of_le_of_lt h' h⟩)
termination_by 3 * chain.length + 1

/-- The loop of `eq_get_term`: products with the primaries that follow. -/
def eqGetTermLoop (left : ℤ) (chain : List EqElem) : Except SolveFault (ℤ × Within chain) :=
  match chain with
  | [] => .ok (left, ⟨[], Nat.le_refl _⟩)
  | .op .mul :: rest =>
    match eqGetPrimary rest with
    | .error e => .error e
    | .ok (right, ⟨rest', h⟩) =>
      match eqGetTermLoop (left * right) rest' with
      | .error e => .error e
      | .ok (out, ⟨rest'', h'⟩) => .ok (out, ⟨rest'', by simp; omega⟩)
  | .op .sum :: rest => .ok (left, ⟨.op .sum :: rest, Nat.le_refl _⟩)
  | .op .sub :: rest => .ok (left, ⟨.op .sub :: rest, Nat.le_refl _⟩)
  | .br .r :: rest => .ok (left, ⟨.br .r :: rest, Nat.le_refl _⟩)
  | .br .l :: _ => .error .assertFailed
  | .nr _ :: _ => .error .eilseq
termination_by 3 * chain.length

/-- `eq_get_expression`. -/
def eqGetExpression (chain : List EqElem) : Except SolveFault (ℤ × After chain) :=
  match eqGetTerm chain with
  | .error e => .error e
  | .ok (left, ⟨rest, h⟩) =>
    match eqGetExpressionLoop left rest with
    | .error e => .error e
    | .ok (out, ⟨rest', h'⟩) => .ok (out, ⟨rest', Nat.lt_of_le_of_lt h' h⟩)
termination_by 3 * chain.length + 2

/-- The loop of `eq_get_expression`: sums and differences with the terms that follow. -/
def eqGetExpressionLoop (left : ℤ) (chain : List EqElem) :
    Except SolveFault (ℤ × Within chain) :=
  match chain with
  | [] => .ok (left, ⟨[], Nat.le_refl _⟩)
  | .op .sum :: rest =>
    match eqGetTerm rest with
    | .error e => .error e
    | .ok (right, ⟨rest', h⟩) =>
      match eqGetExpressionLoop (left + right) rest' with
      | .error e => .error e
      | .ok (out, ⟨rest'', h'⟩) => .ok (out, ⟨rest'', by simp; omega⟩)
  | .op .sub :: rest =>
    match eqGetTerm rest with
    | .error e => .error e
    | .ok (right, ⟨rest', h⟩) =>
      match eqGetExpressionLoop (left - right) rest' with
      | .error e => .error e
      | .ok (out, ⟨rest'', h'⟩) => .ok (out, ⟨rest'', by simp; omega⟩)
  | .op .mul :: rest => .ok (left, ⟨.op .mul :: rest, Nat.le_refl _⟩)
  | .br .r :: rest => .ok (left, ⟨.br .r :: rest, Nat.le_refl _⟩)
  | .br .l :: _ => .error .assertFailed
  | .nr _ :: _ => .error .eilseq
termination_by 3 * chain.length

end

/-- `eq_solve`: the value of the expression the chain starts with. -/
def eqSolve (eq : List EqElem) : Except SolveFault ℤ :=
  match eqGetExpression eq with
  | .error e => .error e
  | .ok (out, _) => .ok out

/-- The call returned `v` and left the elements `rest`. -/
def Yields {P : List EqElem → Prop} (call : Except SolveFault (ℤ × {rest : List EqElem // P rest}))
    (v : ℤ) (rest : List EqElem) : Prop :=
  ∃ h, call = .ok (v, ⟨rest, h⟩)

section Calls

variable {chain rest rest' : List EqElem} {left v w : ℤ}

theorem eqGetPrimary_number (n : ℤ) : Yields (eqGetPrimary (.nr n :: rest)) n rest := by
  refine ⟨Nat.lt_succ_self _, ?_⟩
  rw [eqGetPrimary]

theorem eqGetPrimary_parens (h : Yields (eqGetExpression chain) v (.br .r :: rest)) :
    Yields (eqGetPrimary (.br .l :: chain)) v rest := by
  -- the expression ended at the right bracket, which is taken
  obtain ⟨hlt, h⟩ := h
  refine ⟨by simp at hlt ⊢; omega, ?_⟩
  rw [eqGetPrimary, h]

theorem eqGetTerm_primary (hp : Yields (eqGetPrimary chain) left rest)
    (hloop : Yields (eqGetTermLoop left rest) v rest') : Yields (eqGetTerm chain) v rest' := by
  obtain ⟨hlt, hp⟩ := hp
  obtain ⟨hle, hloop⟩ := hloop
  refine ⟨Nat.lt_of_le_of_lt hle hlt, ?_⟩
  rw [eqGetTerm, hp]
  simp only [hloop]

theorem eqGetTermLoop_mul (hp : Yields (eqGetPrimary chain) w rest)
    (hloop : Yields (eqGetTermLoop (left * w) rest) v rest') :
    Yields (eqGetTermLoop left (.op .mul :: chain)) v rest' := by
  obtain ⟨hlt, hp⟩ := hp
  obtain ⟨hle, hloop⟩ := hloop
  refine ⟨by simp; omega, ?_⟩
  rw [eqGetTermLoop, hp]
  simp only [hloop]

theorem eqGetExpression_term (ht : Yields (eqGetTerm chain) left rest)
    (hloop : Yields (eqGetExpressionLoop left rest) v rest') :
    Yields (eqGetExpression chain) v rest' := by
  obtain ⟨hlt, ht⟩ := ht
  obtain ⟨hle, hloop⟩ := hloop
  refine ⟨Nat.lt_of_le_of_lt hle hlt, ?_⟩
  rw [eqGetExpression, ht]
  simp only [hloop]

theorem eqGetExpressionLoop_sum (ht : Yields (eqGetTerm chain) w rest)
    (hloop : Yields (eqGetExpressionLoop (left + w) rest) v rest') :
    Yields (eqGetExpressionLoop left (.op .sum :: chain)) v rest' := by
  obtain ⟨hlt, ht⟩ := ht
  obtain ⟨hle, hloop⟩ := hloop
  refine ⟨by simp; omega, ?_⟩
  rw [eqGetExpressionLoop, ht]
  simp only [hloop]

theorem eqGetExpressionLoop_sub (ht : Yields (eqGetTerm chain) w rest)
    (hloop : Yields (eqGetExpressionLoop (left - w) rest) v rest') :
    Yields (eqGetExpressionLoop left (.op .sub :: chain)) v rest' := by
  obtain ⟨hlt, ht⟩ := ht
  obtain ⟨hle, hloop⟩ := hloop
  refine ⟨by simp; omega, ?_⟩
  rw [eqGetExpressionLoop, ht]
  simp only [hloop]

/-- The elements after which a term is complete: the end, a right bracket, `+` and `-`. -/
def EndsTerm : List EqElem → Prop
  | [] | .br .r :: _ | .op .sum :: _ | .op .sub :: _ => True
  | _ => False

/-- The elements after which an expression is complete: the end and a right bracket. -/
def EndsExpression : List EqElem → Prop
  | [] | .br .r :: _ => True
  | _ => False

theorem EndsExpression.endsTerm (h : EndsExpression rest) : EndsTerm rest := by
  match rest with
  | [] | .br .r :: _ => trivial

theorem eqGetTermLoop_end (h : EndsTerm rest) : Yields (eqGetTermLoop left rest) left rest := by
  refine ⟨Nat.le_refl _, ?_⟩
  match rest with
  | [] | .br .r :: _ | .op .sum :: _ | .op .sub :: _ => rw [eqGetTermLoop]

theorem eqGetExpressionLoop_end (h : EndsExpression rest) :
    Yields (eqGetExpressionLoop left rest) left rest := by
  refine ⟨Nat.le_refl _, ?_⟩
  match rest with
  | [] | .br .r :: _ => rw [eqGetExpressionLoop]

end Calls

/-- What the evaluator does on the tokens of each nonterminal. A term and an expression are
followed by the loop that goes on from their value, since their derivations recurse on the left. -/
def Evaluates : Level → List EqElem → ℤ → Prop
  | .primary, p, v => ∀ rest, Yields (eqGetPrimary (p ++ rest)) v rest
  | .term, t, v => ∀ rest w rest', Yields (eqGetTermLoop v rest) w rest' →
      Yields (eqGetTerm (t ++ rest)) w rest'
  | .expression, e, v => ∀ rest w rest', EndsTerm rest →
      Yields (eqGetExpressionLoop v rest) w rest' → Yields (eqGetExpression (e ++ rest)) w rest'

/-- The evaluator follows every derivation and computes its value. -/
theorem evaluates_of_derives {l : Level} {ts : List EqElem} {v : ℤ} (h : Derives l ts v) :
    Evaluates l ts v := by
  -- by induction on the derivation; the loops carry what follows the sentence
  induction h with
  | number n => exact fun rest => eqGetPrimary_number n
  | @parens e v _ ih =>
    intro rest
    have hrest : (Token.br .l :: (e ++ [Token.br .r])) ++ rest =
        Token.br .l :: (e ++ Token.br .r :: rest) := by simp
    rw [hrest]
    apply eqGetPrimary_parens
    exact ih _ _ _ trivial (eqGetExpressionLoop_end trivial)
  | @primary p v _ ih =>
    intro rest w rest' hloop
    exact eqGetTerm_primary (ih rest) hloop
  | @mul t p v w _ _ iht ihp =>
    intro rest u rest' hloop
    rw [List.append_assoc]
    -- the loop of the term left of `*` goes on with the primary
    apply iht
    exact eqGetTermLoop_mul (ihp rest) hloop
  | @term t v _ ih =>
    intro rest w rest' hends hloop
    exact eqGetExpression_term (ih _ _ _ (eqGetTermLoop_end hends)) hloop
  | @sum e t v w _ _ ihe iht =>
    intro rest u rest' hends hloop
    rw [List.append_assoc]
    -- the loop of the expression left of `+` goes on with the term
    apply ihe (.op .sum :: (t ++ rest)) _ _ trivial
    exact eqGetExpressionLoop_sum (iht _ _ _ (eqGetTermLoop_end hends)) hloop
  | @sub e t v w _ _ ihe iht =>
    intro rest u rest' hends hloop
    rw [List.append_assoc]
    apply ihe (.op .sub :: (t ++ rest)) _ _ trivial
    exact eqGetExpressionLoop_sub (iht _ _ _ (eqGetTermLoop_end hends)) hloop

/-- On a sentence followed by the end or a right bracket the evaluator goes exactly over the
sentence and returns its value. -/
theorem eqGetExpression_complete {e rest : List EqElem} {v : ℤ} (h : Derives .expression e v)
    (hrest : EndsExpression rest) : Yields (eqGetExpression (e ++ rest)) v rest :=
  evaluates_of_derives h rest v rest hrest.endsTerm (eqGetExpressionLoop_end hrest)

/-- `eq_solve` finds the value of every sentence. -/
theorem eqSolve_of_derives {e : List EqElem} {v : ℤ} (h : Derives .expression e v) :
    eqSolve e = .ok v := by
  have hyields : Yields (eqGetExpression (e ++ [])) v [] := eqGetExpression_complete h trivial
  rw [List.append_nil] at hyields
  obtain ⟨hlt, hcall⟩ := hyields
  rw [eqSolve, hcall]

/-- The grammar is unambiguous as far as values go: the evaluator would find both. -/
theorem derives_unique {e : List EqElem} {v w : ℤ} (hv : Derives .expression e v)
    (hw : Derives .expression e w) : v = w := by
  have h := eqSolve_of_derives hv
  rw [eqSolve_of_derives hw] at h
  exact (Except.ok.inj h).symm

/-- A text denotes at most one value. -/
theorem denotes_unique {text : List Char} {v w : ℤ} (hv : Denotes text v)
    (hw : Denotes text w) : v = w := by
  obtain ⟨ts, hts, hv⟩ := hv
  obtain ⟨us, hus, hw⟩ := hw
  obtain rfl : ts = us := by rw [hts] at hus; exact Option.some.inj hus
  exact derives_unique hv hw

example : eqSolve [.nr 2, .op .mul, .br .l, .nr 3, .op .sub, .nr 5, .op .sub, .nr 1, .br .r] =
    .ok (-6) := by
  decide +kernel

end Qkmetisc.EqGen
