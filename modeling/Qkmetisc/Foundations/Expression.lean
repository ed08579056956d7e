import Mathlib.Algebra.Ring.Int.Defs
import Mathlib.Data.List.Chain

/-!
# Arithmetic expressions as token lists

The usual grammar of sums, differences and products with parentheses, over token lists and over
any type of numbers.

* `Derives`: the grammar, each derivation carrying the value it denotes.
* `Scan`: a left-to-right reading that only tracks whether an operand is expected next and how
  many parentheses are open; `scanToken` is the same as a machine.
* `spell`, `render`, `tokenise`: tokens as text over the integers.

Main results: `Scan.derives` (what the scan accepts is derivable) and `tokenise_render` (a text
is cut back into the tokens it was written from).
-/

namespace Arith

/-- The binary operators. -/
inductive BinOp where
  | sum
  | sub
  | mul
  deriving Repr, DecidableEq

/-- The left and the right parenthesis. -/
inductive Bracket where
  | l
  | r
  deriving Repr, DecidableEq

/-- The tokens of an expression with numbers in `α`. -/
inductive Token (α : Type*) where
  | op (o : BinOp)
  | nr (n : α)
  | br (b : Bracket)
  deriving Repr, DecidableEq

/-- Whether a token is a number. -/
def Token.isNr {α : Type*} : Token α → Bool
  | .nr _ => true
  | _ => false

/-- Whether a token is a parenthesis. -/
def Token.isBr {α : Type*} : Token α → Bool
  | .br _ => true
  | _ => false

/-- The three nonterminals of the grammar. -/
inductive Level where
  | expression
  | term
  | primary
  deriving DecidableEq

section Grammar

variable {α : Type*} [Add α] [Sub α] [Mul α]

/-- `Derives level ts v`: the nonterminal `level` derives the tokens `ts`, with value `v`. The
left recursion makes the operators associate to the left, and the levels make `*` bind
tighter. -/
inductive Derives : Level → List (Token α) → α → Prop
  | sum {e t v w} : Derives .expression e v → Derives .term t w →
      Derives .expression (e ++ .op .sum :: t) (v + w)
  | sub {e t v w} : Derives .expression e v → Derives .term t w →
      Derives .expression (e ++ .op .sub :: t) (v - w)
  | term {t v} : Derives .term t v → Derives .expression t v
  | mul {t p v w} : Derives .term t v → Derives .primary p w →
      Derives .term (t ++ .op .mul :: p) (v * w)
  | primary {p v} : Derives .primary p v → Derives .term p v
  | number (n) : Derives .primary [.nr n] n
  | parens {e v} : Derives .expression e v →
      Derives .primary (.br .l :: (e ++ [.br .r])) v

/-- A sentence of the grammar, whatever its value. -/
def IsExpression (ts : List (Token α)) : Prop := ∃ v, Derives .expression ts v

theorem IsExpression.of_primary {p : List (Token α)} {v : α} (hp : Derives .primary p v) :
    IsExpression p :=
  ⟨v, .term (.primary hp)⟩

/-- A sentence may be continued by any operator and a primary. -/
theorem IsExpression.operator {e p : List (Token α)} {w : α} (he : IsExpression e) (o : BinOp)
    (hp : Derives .primary p w) : IsExpression (e ++ .op o :: p) := by
  obtain ⟨v, hv⟩ := he
  cases o with
  | sum => exact ⟨_, .sum hv (.primary hp)⟩
  | sub => exact ⟨_, .sub hv (.primary hp)⟩
  | mul =>
    -- `*` takes the last term of the sentence as its left operand
    cases hv with
    | @sum e' t v' w' he' ht =>
      rw [List.append_assoc]
      exact ⟨_, .sum he' (.mul ht hp)⟩
    | @sub e' t v' w' he' ht =>
      rw [List.append_assoc]
      exact ⟨_, .sub he' (.mul ht hp)⟩
    | term ht => exact ⟨_, .term (.mul ht hp)⟩

end Grammar

section Scan

variable {α : Type*}

/-- `Scan expecting depth ts`: read from left to right, `ts` alternates operands and operators,
`depth` of its parentheses are still open, and `expecting` says whether an operand has to come
next. -/
inductive Scan : Bool → ℕ → List (Token α) → Prop
  | start : Scan true 0 []
  | number {d ts} (n : α) : Scan true d ts → Scan false d (ts ++ [.nr n])
  | bracketL {d ts} : Scan true d ts → Scan true (d + 1) (ts ++ [.br .l])
  | operator {d ts} (o : BinOp) : Scan false d ts → Scan true d (ts ++ [.op o])
  | bracketR {d ts} : Scan false (d + 1) ts → Scan false d (ts ++ [.br .r])

variable [Add α] [Sub α] [Mul α]

/-- Where an operand is expected: nothing at this depth yet, or a sentence and an operator. -/
inductive Pending : List (Token α) → Prop
  | empty : Pending []
  | operator {e} (o : BinOp) : IsExpression e → Pending (e ++ [.op o])

/-- What stands to the left of `d` open parentheses, the last of them included. -/
inductive Enclosing : ℕ → List (Token α) → Prop
  | none : Enclosing 0 []
  | bracketL {d outer part} : Enclosing d outer → Pending part →
      Enclosing (d + 1) (outer ++ part ++ [.br .l])

/-- A primary completes what was pending. -/
theorem Pending.primary {part p : List (Token α)} {v : α} (h : Pending part)
    (hp : Derives .primary p v) : IsExpression (part ++ p) := by
  cases h with
  | empty => exact .of_primary hp
  | operator o he =>
    rw [List.append_assoc]
    exact he.operator o hp

/-- The shape of a list that has been scanned: the open parentheses and what surrounds them, then
at the current depth a pending part or a whole sentence. -/
theorem Scan.decompose {expecting : Bool} {d : ℕ} {ts : List (Token α)}
    (h : Scan expecting d ts) :
    ∃ outer rest, ts = outer ++ rest ∧ Enclosing d outer ∧
      if expecting then Pending rest else IsExpression rest := by
  -- on the scan, whose last token decides what happens at the current depth
  induction h with
  | start => exact ⟨[], [], rfl, .none, .empty⟩
  | number n _ ih =>
    obtain ⟨outer, part, rfl, ho, hp⟩ := ih
    refine ⟨outer, part ++ [.nr n], by simp, ho, ?_⟩
    exact hp.primary (.number n)
  | bracketL _ ih =>
    obtain ⟨outer, part, rfl, ho, hp⟩ := ih
    exact ⟨outer ++ part ++ [.br .l], [], by simp, .bracketL ho hp, .empty⟩
  | operator o _ ih =>
    obtain ⟨outer, e, rfl, ho, he⟩ := ih
    refine ⟨outer, e ++ [.op o], by simp, ho, ?_⟩
    exact Pending.operator o he
  | bracketR _ ih =>
    -- the sentence at this depth, in its parentheses, is a primary one level out
    obtain ⟨outer, e, rfl, ho, he⟩ := ih
    obtain ⟨v, hv⟩ := he
    cases ho with
    | @bracketL _ outer' part ho' hpart =>
      refine ⟨outer', part ++ (.br .l :: (e ++ [.br .r])), by simp, ho', ?_⟩
      exact hpart.primary (.parens hv)

/-- A scan that ends after an operand with no open parenthesis has read a sentence. -/
theorem Scan.derives {ts : List (Token α)} (h : Scan false 0 ts) : IsExpression ts := by
  obtain ⟨outer, rest, rfl, ho, he⟩ := h.decompose
  cases ho with
  | none => exact he

omit [Add α] [Sub α] [Mul α]

/-- The scan as a machine: what it makes of one more token, if the token can stand there. -/
def scanToken : Bool × ℕ → Token α → Option (Bool × ℕ)
  | (true, d), .nr _ => some (false, d)
  | (true, d), .br .l => some (true, d + 1)
  | (false, d), .op _ => some (true, d)
  | (false, d + 1), .br .r => some (false, d)
  | _, _ => none

/-- A list has been scanned exactly if the machine takes all of its tokens. -/
theorem scan_iff {expecting : Bool} {d : ℕ} {ts : List (Token α)} :
    Scan expecting d ts ↔ ts.foldlM scanToken (true, 0) = some (expecting, d) := by
  constructor
  · intro h
    induction h with
    | start => rfl
    | number n _ ih => simp [List.foldlM_append, ih, scanToken]
    | bracketL _ ih => simp [List.foldlM_append, ih, scanToken]
    | operator o _ ih => simp [List.foldlM_append, ih, scanToken]
    | bracketR _ ih => simp [List.foldlM_append, ih, scanToken]
  · -- the last token was taken where the tokens before it had led
    induction ts using List.reverseRecOn generalizing expecting d with
    | nil =>
      intro h
      obtain ⟨rfl, rfl⟩ := Prod.mk.inj (Option.some.inj h)
      exact .start
    | append_singleton ts t ih =>
      intro h
      rw [List.foldlM_append] at h
      obtain ⟨⟨before, depth⟩, hbefore, hlast⟩ := Option.bind_eq_some_iff.1 h
      have hscan := ih hbefore
      have hlast : scanToken (before, depth) t = some (expecting, d) := by simpa using hlast
      match before, depth, t, hlast with
      | true, _, .nr n, rfl => exact .number n hscan
      | true, _, .br .l, rfl => exact .bracketL hscan
      | false, _, .op o, rfl => exact .operator o hscan
      | false, _ + 1, .br .r, rfl => exact .bracketR hscan

/-- A machine refuses a list at one place only. -/
theorem refused_unique {σ τ : Type*} {f : σ → τ → Option σ} {s u v : σ} {p q r r' : List τ}
    {t t' : τ} (h : p ++ t :: r = q ++ t' :: r') (hp : p.foldlM f s = some u) (ht : f u t = none)
    (hq : q.foldlM f s = some v) (ht' : f v t' = none) : p = q := by
  induction p generalizing q s with
  | nil =>
    obtain rfl := Option.some.inj hp
    cases q with
    | nil => rfl
    | cons a q =>
      obtain ⟨rfl, -⟩ := List.cons.inj h
      simp [ht] at hq
  | cons a p ih =>
    cases q with
    | nil =>
      obtain rfl := Option.some.inj hq
      obtain ⟨rfl, -⟩ := List.cons.inj h
      simp [ht'] at hp
    | cons b q =>
      obtain ⟨rfl, htail⟩ := List.cons.inj h
      rw [List.foldlM_cons] at hp hq
      obtain ⟨next, hnext, hp⟩ := Option.bind_eq_some_iff.1 hp
      obtain ⟨next', hnext', hq⟩ := Option.bind_eq_some_iff.1 hq
      obtain rfl : next = next' := Option.some.inj (hnext.symm.trans hnext')
      rw [ih htail hp hq]

end Scan

section Separated

variable {α : Type*}

/-- No number directly follows another one. -/
def Separated (ts : List (Token α)) : Prop :=
  ts.IsChain fun a b => ¬(a.isNr = true ∧ b.isNr = true)

theorem Separated.tail {t : Token α} {ts : List (Token α)} (h : Separated (t :: ts)) :
    Separated ts :=
  List.IsChain.tail h

/-- A token that is no number separates what stands on its two sides. -/
theorem Separated.append {a b : List (Token α)} {s : Token α} (ha : Separated a)
    (hb : Separated b) (hs : s.isNr = false) : Separated (a ++ s :: b) := by
  unfold Separated at *
  rw [List.isChain_append]
  -- the two boundaries are next to the separating token
  refine ⟨ha, ?_, ?_⟩
  · rw [List.isChain_cons]
    exact ⟨fun y _ => by simp [hs], hb⟩
  · intro x _ y hy
    have : y = s := by simpa using hy.symm
    simp [this, hs]

variable [Add α] [Sub α] [Mul α]

/-- In a derivable list every number stands alone. -/
theorem Derives.separated {l : Level} {ts : List (Token α)} {v : α} (h : Derives l ts v) :
    Separated ts := by
  induction h with
  | sum _ _ ihe iht => exact ihe.append iht rfl
  | sub _ _ ihe iht => exact ihe.append iht rfl
  | mul _ _ iht ihp => exact iht.append ihp rfl
  | term _ ih => exact ih
  | primary _ ih => exact ih
  | number n => exact List.isChain_singleton _
  | parens _ ih =>
    have hnil : Separated ([] : List (Token α)) := List.isChain_nil
    exact hnil.append (ih.append hnil rfl) rfl

/-- Nothing is derived from the empty list. -/
theorem Derives.ne_nil {l : Level} {ts : List (Token α)} {v : α} (h : Derives l ts v) :
    ts ≠ [] := by
  induction h with
  | sum => simp
  | sub => simp
  | mul => simp
  | term _ ih => exact ih
  | primary _ ih => exact ih
  | number => simp
  | parens => simp

end Separated

section Text

/-- The text of a token: a sign if needed and decimal digits for a number, one character for
everything else. -/
def spell : Token ℤ → List Char
  | .op .sum => ['+']
  | .op .sub => ['-']
  | .op .mul => ['*']
  | .br .l => ['(']
  | .br .r => [')']
  | .nr n => if n < 0 then '-' :: Nat.toDigits 10 n.natAbs else Nat.toDigits 10 n.natAbs

/-- The text of a token list. -/
def render (ts : List (Token ℤ)) : List Char := ts.flatMap spell

@[simp]
theorem render_nil : render [] = [] := rfl

@[simp]
theorem render_cons (t : Token ℤ) (ts : List (Token ℤ)) :
    render (t :: ts) = spell t ++ render ts := rfl

/-- No token has an empty text. -/
theorem length_spell_pos (t : Token ℤ) : 0 < (spell t).length := by
  cases t with
  | op o => cases o <;> decide
  | br b => cases b <;> decide
  | nr n =>
    have hdigits : 0 < (Nat.toDigits 10 n.natAbs).length := Nat.length_toDigits_pos
    by_cases hn : n < 0
    · rw [spell, if_pos hn]
      exact Nat.succ_pos _
    · rw [spell, if_neg hn]
      exact hdigits

/-- Texts consist of digits, operators and parentheses only. -/
theorem mem_spell {t : Token ℤ} {c : Char} (h : c ∈ spell t) :
    c.isDigit = true ∨ c ∈ ['+', '-', '*', '(', ')'] := by
  cases t with
  | op o => cases o <;> simp_all [spell]
  | br b => cases b <;> simp_all [spell]
  | nr n =>
    have hdigit (h : c ∈ Nat.toDigits 10 n.natAbs) : c.isDigit = true :=
      Nat.isDigit_of_mem_toDigits (by decide) (by decide) h
    by_cases hn : n < 0
    · rw [spell, if_pos hn, List.mem_cons] at h
      rcases h with rfl | h
      · simp
      · exact .inl (hdigit h)
    · rw [spell, if_neg hn] at h
      exact .inl (hdigit h)

/-- The token a single character stands for. -/
def symbol : Char → Option (Token ℤ)
  | '+' => some (.op .sum)
  | '-' => some (.op .sub)
  | '*' => some (.op .mul)
  | '(' => some (.br .l)
  | ')' => some (.br .r)
  | _ => none

/-- The number read so far, if any, and then `ts`. -/
def flush : Option ℕ → List (Token ℤ) → List (Token ℤ)
  | none, ts => ts
  | some n, ts => .nr n :: ts

/-- Cut a text into tokens, `acc` being the value of the digits just read. -/
def tokeniseFrom : Option ℕ → List Char → Option (List (Token ℤ))
  | acc, [] => some (flush acc [])
  | acc, c :: cs =>
    if c.isDigit then
      tokeniseFrom (some (10 * acc.getD 0 + (c.toNat - '0'.toNat))) cs
    else do
      let t ← symbol c
      let ts ← tokeniseFrom none cs
      return flush acc (t :: ts)

/-- Cut a text into maximal runs of digits and single characters `+`, `-`, `*`, `(`, `)`; none if
it has any other character. -/
def tokenise (text : List Char) : Option (List (Token ℤ)) := tokeniseFrom none text

/-- The digits that follow digits extend the same number. -/
theorem tokeniseFrom_digits {ds : List Char} (hds : ∀ c ∈ ds, c.isDigit = true) (n : ℕ)
    (cs : List Char) :
    tokeniseFrom (some n) (ds ++ cs) = tokeniseFrom (some (Nat.ofDigitChars 10 ds n)) cs := by
  induction ds generalizing n with
  | nil => rw [Nat.ofDigitChars_nil]; rfl
  | cons d ds ih =>
    have hd : d.isDigit = true := hds d List.mem_cons_self
    rw [List.cons_append, tokeniseFrom, if_pos hd, Nat.ofDigitChars_cons]
    exact ih (fun c hc => hds c (List.mem_cons_of_mem d hc)) _

/-- Reading the decimal digits of `n` from the start gives `n`. -/
theorem tokeniseFrom_toDigits (n : ℕ) (cs : List Char) :
    tokeniseFrom none (Nat.toDigits 10 n ++ cs) = tokeniseFrom (some n) cs := by
  have hds : ∀ c ∈ Nat.toDigits 10 n, c.isDigit = true := fun c hc =>
    Nat.isDigit_of_mem_toDigits (by decide) (by decide) hc
  have hzero : tokeniseFrom none (Nat.toDigits 10 n ++ cs) =
      tokeniseFrom (some 0) (Nat.toDigits 10 n ++ cs) := by
    -- a first digit counts the same after no number and after the number 0
    cases h : Nat.toDigits 10 n with
    | nil => exact absurd h Nat.toDigits_ne_nil
    | cons d ds =>
      have hd : d.isDigit = true := hds d (h ▸ List.mem_cons_self)
      rw [List.cons_append, tokeniseFrom, tokeniseFrom, if_pos hd, if_pos hd]
      rfl
  rw [hzero, tokeniseFrom_digits hds, Nat.ofDigitChars_ten_toDigits]

/-- A token that is no number ends the number before it. -/
theorem tokeniseFrom_spell {t : Token ℤ} (ht : t.isNr = false) (acc : Option ℕ)
    (cs : List Char) :
    tokeniseFrom acc (spell t ++ cs) =
      (tokeniseFrom none cs).map fun ts => flush acc (t :: ts) := by
  have key {c : Char} (hc : c.isDigit = false) (hs : symbol c = some t) :
      tokeniseFrom acc ([c] ++ cs) = (tokeniseFrom none cs).map fun ts => flush acc (t :: ts) := by
    rw [List.cons_append, tokeniseFrom, if_neg (by simp [hc]), hs, List.nil_append]
    cases h : tokeniseFrom none cs <;> simp
  cases t with
  | nr n => cases ht
  | op o => cases o <;> exact key (by decide) rfl
  | br b => cases b <;> exact key (by decide) rfl

/-- Text and tokens: a list in which every number is non-negative and stands alone is read back
from its text. -/
theorem tokenise_render {ts : List (Token ℤ)} (hsep : Separated ts)
    (hnn : ∀ n, Token.nr n ∈ ts → 0 ≤ n) : tokenise (render ts) = some ts := by
  unfold tokenise
  induction ts with
  | nil => rfl
  | cons t ts ih =>
    have ih := ih hsep.tail fun n hn => hnn n (List.mem_cons_of_mem t hn)
    -- a number is read digit by digit, everything else at once
    by_cases ht : t.isNr = true
    · obtain ⟨n, rfl⟩ : ∃ n, t = .nr n := by cases t <;> simp_all [Token.isNr]
      have hn : 0 ≤ n := hnn n List.mem_cons_self
      rw [render_cons, spell, if_neg (by omega), tokeniseFrom_toDigits]
      -- the text goes on with a token that is no number, so the run of digits is over
      cases ts with
      | nil => simp [tokeniseFrom, flush, Int.natAbs_of_nonneg hn]
      | cons u us =>
        have hu : u.isNr = false := by
          have := List.isChain_cons_cons.1 hsep
          simpa [Token.isNr] using this.1
        rw [render_cons, tokeniseFrom_spell hu] at ih ⊢
        cases h : tokeniseFrom none (render us) with
        | none => simp [h] at ih
        | some vs =>
          have : vs = us := by simpa [h, flush] using ih
          simp [flush, this, Int.natAbs_of_nonneg hn]
    · rw [render_cons, tokeniseFrom_spell (by simpa using ht), ih]
      rfl

/-- `text` is the text of an expression with value `v`: cut into tokens it is a sentence, with
that value. -/
def Denotes (text : List Char) (v : ℤ) : Prop :=
  ∃ ts, tokenise text = some ts ∧ Derives .expression ts v

/-- The text of a sentence without negative numbers denotes the sentence's value. -/
theorem Derives.denotes {ts : List (Token ℤ)} {v : ℤ} (h : Derives .expression ts v)
    (hnn : ∀ n, Token.nr n ∈ ts → 0 ≤ n) : Denotes (render ts) v :=
  ⟨ts, tokenise_render h.separated hnn, h⟩

example : tokenise "12+3*(4-05)".toList =
    some [.nr 12, .op .sum, .nr 3, .op .mul, .br .l, .nr 4, .op .sub, .nr 5, .br .r] := by
  decide

end Text

end Arith
