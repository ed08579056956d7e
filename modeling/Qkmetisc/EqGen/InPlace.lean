import Qkmetisc.EqGen.Solve

/-!
# The evaluator with what it writes to

The functions of `eq.c` advance the pointer `chain`, store the value in `out`, set `errno` and
return whether they succeeded. Here each is given what the three hold and returns what they hold
afterwards. The functions of `Solve.lean`, which return values, are what they come down to.

## Main definitions

* `InPlace.Call`: what a call has left.
* `InPlace.eqGetPrimary`, `InPlace.eqGetTerm`, `InPlace.eqGetExpression`, `InPlace.eqSolve`: the
  functions of the source.
* `Agrees`: a call by value and a call in place say the same.

## Main results

* `eqGetExpression_agrees`: both evaluators agree on every list.
* `eqSolve_sentence`: `eq_solve` on a sentence of the grammar.
-/

open Arith

namespace Qkmetisc.EqGen

/-- `EILSEQ`. -/
def EILSEQ : ℤ := 84

namespace InPlace

/-- What a call has left, `P` being what is known about the elements left when it succeeds. -/
structure Call (P : List EqElem → Prop) where
  /-- The call has returned `true`. -/
  ok : Bool
  /-- The elements from `*chain` on. -/
  chain : List EqElem
  out : ℤ
  errno : ℤ
  forward : ok = true → P chain

/-- What is known about the elements may be weakened. -/
def Call.mono {P Q : List EqElem → Prop} (call : Call P) (h : ∀ rest, P rest → Q rest) : Call Q :=
  { call with forward := fun hok => h _ (call.forward hok) }

/-- `errno = EILSEQ; return false`. -/
def Call.eilseq {P : List EqElem → Prop} (chain : List EqElem) (out : ℤ) : Call P where
  ok := false
  chain := chain
  out := out
  errno := EILSEQ
  forward := by simp

mutual

/-- `eq_get_primary`; none where an assertion fails. -/
def eqGetPrimary (chain : List EqElem) (out errno : ℤ) :
    Option (Call (·.length < chain.length)) :=
  match chain with
  | [] => some (.eilseq [] out)
  | .nr n :: rest => some { ok := true, chain := rest, out := n, errno, forward := by simp }
  | .br .r :: rest => some (.eilseq (.br .r :: rest) out)
  | .br .l :: rest =>
    -- `res` is a number of its own, so that a failure inside leaves `out` alone
    match eqGetExpression rest 0 errno with
    | none => none
    | some ⟨false, chain, _, errno, _⟩ =>
      some { ok := false, chain, out, errno, forward := by simp }
    | some ⟨true, [], _, _, _⟩ => some (.eilseq [] out)
    | some ⟨true, .br .r :: rest', res, errno, h⟩ =>
      some { ok := true, chain := rest', out := res, errno,
             forward := fun _ => by have := h rfl; simp at this ⊢; omega }
    | some ⟨true, elem :: rest', _, _, _⟩ => some (.eilseq (elem :: rest') out)
  | .op o :: rest => some (.eilseq (.op o :: rest) out)
termination_by 3 * chain.length

/-- `eq_get_term`. -/
def eqGetTerm (chain : List EqElem) (out errno : ℤ) : Option (Call (·.length < chain.length)) :=
  match eqGetPrimary chain 0 errno with
  | none => none
  | some ⟨false, chain, _, errno, _⟩ => some { ok := false, chain, out, errno, forward := by simp }
  | some ⟨true, chain, left, errno, h⟩ =>
    (eqGetTermLoop chain out left 0 errno).map fun call =>
      call.mono fun _ hle => Nat.lt_of_le_of_lt hle (h rfl)
termination_by 3 * chain.length + 1
decreasing_by
  · omega
  · have := h rfl
    omega

/-- The loop of `eq_get_term`, with both exits. -/
def eqGetTermLoop (chain : List EqElem) (out left right errno : ℤ) :
    Option (Call (·.length ≤ chain.length)) :=
  match chain with
  | [] => some { ok := true, chain := [], out := left, errno, forward := by simp }
  | .op .mul :: rest =>
    match eqGetPrimary rest right errno with
    | none => none
    | some ⟨false, chain, _, errno, _⟩ =>
      some { ok := false, chain, out, errno, forward := by simp }
    | some ⟨true, chain, right, errno, h⟩ =>
      (eqGetTermLoop chain out (left * right) right errno).map fun call =>
        call.mono fun _ hle => Nat.le_succ_of_le (Nat.le_trans hle (Nat.le_of_lt (h rfl)))
  | .op .sum :: rest =>
    some { ok := true, chain := .op .sum :: rest, out := left, errno, forward := by simp }
  | .op .sub :: rest =>
    some { ok := true, chain := .op .sub :: rest, out := left, errno, forward := by simp }
  | .br .r :: rest =>
    some { ok := true, chain := .br .r :: rest, out := left, errno, forward := by simp }
  | .br .l :: _ => none
  | .nr n :: rest => some (.eilseq (.nr n :: rest) out)
termination_by 3 * chain.length
decreasing_by
  · simp
  · have := h rfl
    simp
    omega

/-- `eq_get_expression`. -/
def eqGetExpression (chain : List EqElem) (out errno : ℤ) :
    Option (Call (·.length < chain.length)) :=
  match eqGetTerm chain 0 errno with
  | none => none
  | some ⟨false, chain, _, errno, _⟩ => some { ok := false, chain, out, errno, forward := by simp }
  | some ⟨true, chain, left, errno, h⟩ =>
    (eqGetExpressionLoop chain out left 0 errno).map fun call =>
      call.mono fun _ hle => Nat.lt_of_le_of_lt hle (h rfl)
termination_by 3 * chain.length + 2
decreasing_by
  · omega
  · have := h rfl
    omega

/-- The loop of `eq_get_expression`, with both exits. -/
def eqGetExpressionLoop (chain : List EqElem) (out left right errno : ℤ) :
    Option (Call (·.length ≤ chain.length)) :=
  match chain with
  | [] => some { ok := true, chain := [], out := left, errno, forward := by simp }
  | .op .sum :: rest =>
    match eqGetTerm rest right errno with
    | none => none
    | some ⟨false, chain, _, errno, _⟩ =>
      some { ok := false, chain, out, errno, forward := by simp }
    | some ⟨true, chain, right, errno, h⟩ =>
      (eqGetExpressionLoop chain out (left + right) right errno).map fun call =>
        call.mono fun _ hle => Nat.le_succ_of_le (Nat.le_trans hle (Nat.le_of_lt (h rfl)))
  | .op .sub :: rest =>
    match eqGetTerm rest right errno with
    | none => none
    | some ⟨false, chain, _, errno, _⟩ =>
      some { ok := false, chain, out, errno, forward := by simp }
    | some ⟨true, chain, right, errno, h⟩ =>
      (eqGetExpressionLoop chain out (left - right) right errno).map fun call =>
        call.mono fun _ hle => Nat.le_succ_of_le (Nat.le_trans hle (Nat.le_of_lt (h rfl)))
  | .op .mul :: rest =>
    some { ok := true, chain := .op .mul :: rest, out := left, errno, forward := by simp }
  | .br .r :: rest =>
    some { ok := true, chain := .br .r :: rest, out := left, errno, forward := by simp }
  | .br .l :: _ => none
  | .nr n :: rest => some (.eilseq (.nr n :: rest) out)
termination_by 3 * chain.length
decreasing_by
  · simp
    omega
  · have := h rfl
    simp
    omega
  · simp
    omega
  · have := h rfl
    simp
    omega

end

/-- `eq_solve`; an equation without elements fails an assertion. -/
def eqSolve (eq : List EqElem) (out errno : ℤ) : Option (Call (·.length < eq.length)) :=
  if eq = [] then none else eqGetExpression eq out errno

end InPlace

/-! ## Both evaluators -/

/-- A call in place does what the call by value says: it stores the value and goes on to what is
left, or sets `errno` to `EILSEQ` and leaves `out` as it was, or fails an assertion. -/
def Agrees {P : List EqElem → Prop} (out errno : ℤ) :
    Except SolveFault (ℤ × {rest // P rest}) → Option (InPlace.Call P) → Prop
  | .ok (v, rest), some call =>
    call.ok = true ∧ call.chain = rest ∧ call.out = v ∧ call.errno = errno
  | .error .eilseq, some call => call.ok = false ∧ call.out = out ∧ call.errno = EILSEQ
  | .error .assertFailed, none => True
  | _, _ => False

section Agreement

variable {P Q : List EqElem → Prop} {out errno : ℤ}

@[simp]
theorem agrees_eilseq {chain : List EqElem} :
    Agrees (P := P) out errno (.error .eilseq) (some (.eilseq chain out)) :=
  ⟨rfl, rfl, rfl⟩

/-- A value is stored where the call succeeds. -/
theorem Agrees.of_ok {v : ℤ} {rest : {rest // P rest}} {call : Option (InPlace.Call P)}
    (h : Agrees out errno (.ok (v, rest)) call) :
    call = some { ok := true, chain := rest, out := v, errno, forward := fun _ => rest.2 } := by
  match call, h with
  | some ⟨true, _, _, _, _⟩, ⟨_, rfl, rfl, rfl⟩ => rfl

/-- A call that reports `EILSEQ` leaves the number as it was. -/
theorem Agrees.of_eilseq {call : Option (InPlace.Call P)}
    (h : Agrees out errno (.error .eilseq) call) :
    ∃ chain, call = some
      { ok := false, chain, out, errno := EILSEQ, forward := by simp } := by
  match call, h with
  | some ⟨false, chain, _, _, _⟩, ⟨_, rfl, rfl⟩ => exact ⟨chain, rfl⟩

theorem Agrees.of_assertFailed {call : Option (InPlace.Call P)}
    (h : Agrees out errno (.error .assertFailed) call) : call = none := by
  match call, h with
  | none, _ => rfl

/-- Where a first call fails, so does the function that made it, and `out` is left alone. -/
theorem Agrees.fail {inner : ℤ} {e : SolveFault} {call : Option (InPlace.Call P)}
    {result : Option (InPlace.Call Q)} (h : Agrees inner errno (.error e) call)
    (hnone : call = none → result = none)
    (hfalse : ∀ chain,
      call = some { ok := false, chain, out := inner, errno := EILSEQ, forward := by simp } →
      result = some { ok := false, chain, out, errno := EILSEQ, forward := by simp }) :
    Agrees out errno (.error e) result := by
  cases e with
  | eilseq =>
    obtain ⟨chain, hcall⟩ := h.of_eilseq
    rw [hfalse chain hcall]
    exact ⟨rfl, rfl, rfl⟩
  | assertFailed =>
    rw [hnone h.of_assertFailed]
    trivial

/-- Where a first call succeeds, the function does what its loop does. -/
theorem Agrees.loop {value : Except SolveFault (ℤ × {rest // P rest})}
    {result : Except SolveFault (ℤ × {rest // Q rest})} {call : Option (InPlace.Call P)}
    (h : Agrees out errno value call) (hle : ∀ rest, P rest → Q rest)
    (hresult : result = value.map fun x => (x.1, ⟨x.2.1, hle _ x.2.2⟩)) :
    Agrees out errno result (call.map fun call => call.mono hle) := by
  rw [hresult]
  match value, call, h with
  | .ok (v, rest), some call, ⟨hok, hchain, hout, herrno⟩ => exact ⟨hok, hchain, hout, herrno⟩
  | .error .eilseq, some call, ⟨hok, hout, herrno⟩ => exact ⟨hok, hout, herrno⟩
  | .error .assertFailed, none, _ => trivial

end Agreement

mutual

theorem eqGetPrimary_agrees (chain : List EqElem) (out errno : ℤ) :
    Agrees out errno (eqGetPrimary chain) (InPlace.eqGetPrimary chain out errno) := by
  -- by the cases of both functions, and by their common measure
  match chain with
  | [] => simp [eqGetPrimary, InPlace.eqGetPrimary]
  | .nr n :: rest =>
    rw [eqGetPrimary, InPlace.eqGetPrimary]
    exact ⟨rfl, rfl, rfl, rfl⟩
  | .br .r :: rest => simp [eqGetPrimary, InPlace.eqGetPrimary]
  | .op o :: rest => simp [eqGetPrimary, InPlace.eqGetPrimary]
  | .br .l :: rest =>
    have hinner := eqGetExpression_agrees rest 0 errno
    rw [eqGetPrimary, InPlace.eqGetPrimary]
    -- what stands in the brackets decides, and then the element after it
    rcases hcall : eqGetExpression rest with e | ⟨v, rest', hlt⟩
    · rw [hcall] at hinner
      cases e with
      | eilseq =>
        obtain ⟨chain', hcall'⟩ := hinner.of_eilseq
        rw [hcall']
        exact ⟨rfl, rfl, rfl⟩
      | assertFailed =>
        rw [hinner.of_assertFailed]
        trivial
    · rw [hcall] at hinner
      rw [hinner.of_ok]
      match rest', hlt with
      | [], _ => exact agrees_eilseq
      | .br .r :: rest'', _ => exact ⟨rfl, rfl, rfl, rfl⟩
      | .br .l :: rest'', _ => exact agrees_eilseq
      | .nr n :: rest'', _ => exact agrees_eilseq
      | .op o :: rest'', _ => exact agrees_eilseq
termination_by 3 * chain.length

theorem eqGetTerm_agrees (chain : List EqElem) (out errno : ℤ) :
    Agrees out errno (eqGetTerm chain) (InPlace.eqGetTerm chain out errno) := by
  -- `left` is a number of its own, which the loop is given
  have hprimary := eqGetPrimary_agrees chain 0 errno
  rw [eqGetTerm, InPlace.eqGetTerm]
  rcases hcall : eqGetPrimary chain with e | ⟨left, rest, hlt⟩
  · rw [hcall] at hprimary
    exact hprimary.fail (fun h => by rw [h]) fun chain h => by rw [h]
  · rw [hcall] at hprimary
    rw [hprimary.of_ok]
    have hloop := eqGetTermLoop_agrees rest out left 0 errno
    refine hloop.loop _ ?_
    dsimp only
    rcases eqGetTermLoop left rest with e | ⟨v, left', hle⟩ <;> rfl
termination_by 3 * chain.length + 1

theorem eqGetTermLoop_agrees (chain : List EqElem) (out left right errno : ℤ) :
    Agrees out errno (eqGetTermLoop left chain)
      (InPlace.eqGetTermLoop chain out left right errno) := by
  match chain with
  -- what the loop leaves to its caller
  | [] | .op .sum :: rest | .op .sub :: rest | .br .r :: rest =>
    rw [eqGetTermLoop, InPlace.eqGetTermLoop]
    exact ⟨rfl, rfl, rfl, rfl⟩
  | .br .l :: rest =>
    rw [eqGetTermLoop, InPlace.eqGetTermLoop]
    trivial
  | .nr n :: rest => simp [eqGetTermLoop, InPlace.eqGetTermLoop]
  | .op .mul :: rest =>
    have hprimary := eqGetPrimary_agrees rest right errno
    rw [eqGetTermLoop, InPlace.eqGetTermLoop]
    rcases hcall : eqGetPrimary rest with e | ⟨w, rest', hlt⟩
    · rw [hcall] at hprimary
      exact hprimary.fail (fun h => by rw [h]) fun chain h => by rw [h]
    · rw [hcall] at hprimary
      rw [hprimary.of_ok]
      have hloop := eqGetTermLoop_agrees rest' out (left * w) w errno
      refine hloop.loop _ ?_
      dsimp only
      rcases eqGetTermLoop (left * w) rest' with e | ⟨v, left', hle⟩ <;> rfl
termination_by 3 * chain.length

theorem eqGetExpression_agrees (chain : List EqElem) (out errno : ℤ) :
    Agrees out errno (eqGetExpression chain) (InPlace.eqGetExpression chain out errno) := by
  have hterm := eqGetTerm_agrees chain 0 errno
  rw [eqGetExpression, InPlace.eqGetExpression]
  rcases hcall : eqGetTerm chain with e | ⟨left, rest, hlt⟩
  · rw [hcall] at hterm
    exact hterm.fail (fun h => by rw [h]) fun chain h => by rw [h]
  · rw [hcall] at hterm
    rw [hterm.of_ok]
    have hloop := eqGetExpressionLoop_agrees rest out left 0 errno
    refine hloop.loop _ ?_
    dsimp only
    rcases eqGetExpressionLoop left rest with e | ⟨v, left', hle⟩ <;> rfl
termination_by 3 * chain.length + 2

theorem eqGetExpressionLoop_agrees (chain : List EqElem) (out left right errno : ℤ) :
    Agrees out errno (eqGetExpressionLoop left chain)
      (InPlace.eqGetExpressionLoop chain out left right errno) := by
  match chain with
  -- what the loop leaves to its caller; `*` does not come here, but the source would leave it too
  | [] | .op .mul :: rest | .br .r :: rest =>
    rw [eqGetExpressionLoop, InPlace.eqGetExpressionLoop]
    exact ⟨rfl, rfl, rfl, rfl⟩
  | .br .l :: rest =>
    rw [eqGetExpressionLoop, InPlace.eqGetExpressionLoop]
    trivial
  | .nr n :: rest => simp [eqGetExpressionLoop, InPlace.eqGetExpressionLoop]
  | .op .sum :: rest =>
    have hterm := eqGetTerm_agrees rest right errno
    rw [eqGetExpressionLoop, InPlace.eqGetExpressionLoop]
    rcases hcall : eqGetTerm rest with e | ⟨w, rest', hlt⟩
    · rw [hcall] at hterm
      exact hterm.fail (fun h => by rw [h]) fun chain h => by rw [h]
    · rw [hcall] at hterm
      rw [hterm.of_ok]
      have hloop := eqGetExpressionLoop_agrees rest' out (left + w) w errno
      refine hloop.loop _ ?_
      dsimp only
      rcases eqGetExpressionLoop (left + w) rest' with e | ⟨v, left', hle⟩ <;> rfl
  | .op .sub :: rest =>
    have hterm := eqGetTerm_agrees rest right errno
    rw [eqGetExpressionLoop, InPlace.eqGetExpressionLoop]
    rcases hcall : eqGetTerm rest with e | ⟨w, rest', hlt⟩
    · rw [hcall] at hterm
      exact hterm.fail (fun h => by rw [h]) fun chain h => by rw [h]
    · rw [hcall] at hterm
      rw [hterm.of_ok]
      have hloop := eqGetExpressionLoop_agrees rest' out (left - w) w errno
      refine hloop.loop _ ?_
      dsimp only
      rcases eqGetExpressionLoop (left - w) rest' with e | ⟨v, left', hle⟩ <;> rfl
termination_by 3 * chain.length

end

/-- On a sentence of the grammar `eq_solve` returns `true` with the whole list taken, and stores
the value of the sentence. -/
theorem eqSolve_sentence {e : List EqElem} {v : ℤ} (h : Derives .expression e v) (out errno : ℤ) :
    ∃ call, InPlace.eqSolve e out errno = some call ∧ call.ok = true ∧ call.chain = [] ∧
      call.out = v ∧ call.errno = errno := by
  have hyields : Yields (eqGetExpression (e ++ [])) v [] := eqGetExpression_complete h trivial
  rw [List.append_nil] at hyields
  obtain ⟨hlt, hvalue⟩ := hyields
  have hagrees := eqGetExpression_agrees e out errno
  rw [hvalue] at hagrees
  rw [InPlace.eqSolve, if_neg h.ne_nil, hagrees.of_ok]
  exact ⟨_, rfl, rfl, rfl, rfl, rfl⟩

/-- The tokens of `2*(3-5-1)`. -/
def productOfDifferences : List EqElem :=
  [.nr 2, .op .mul, .br .l, .nr 3, .op .sub, .nr 5, .op .sub, .nr 1, .br .r]

theorem eqSolve_sentence_product :
    ∃ call, InPlace.eqSolve productOfDifferences 7 0 = some call ∧ call.ok = true ∧
      call.chain = [] ∧ call.out = 2 * (3 - 5 - 1) ∧ call.errno = 0 := by
  have hsub : Derives .expression [.nr 3, .op .sub, .nr 5, .op .sub, .nr 1] ((3 : ℤ) - 5 - 1) := by
    have hthree : Derives .expression [.nr 3] (3 : ℤ) := .term (.primary (.number 3))
    exact .sub (.sub hthree (.primary (.number 5))) (.primary (.number 1))
  have hproduct : Derives .expression productOfDifferences (2 * (3 - 5 - 1) : ℤ) :=
    .term (.mul (.primary (.number 2)) (.parens hsub))
  exact eqSolve_sentence hproduct 7 0

end Qkmetisc.EqGen
