import Mathlib.Data.Int.Notation
import Mathlib.Data.List.TakeWhile

/-!
# Decimal numerals

White space, a sign and decimal digits, as the C library's functions that read integers accept
them at the start of a text.

## Main definitions

* `Numeral`: a numeral, with its text and its value.
* `scan`: the numeral at the start of a text, with as many digits as there are.

## Main results

* `scan_append`, `eq_append_of_scan`: what `scan` finds is the numeral that is there.
-/

namespace Decimal

/-- `isspace` in the C locale. -/
def isSpace (c : Char) : Bool := [' ', '\t', '\n', '\x0b', '\x0c', '\r'].contains c

/-- The sign of a numeral. -/
inductive Sign where
  | none
  | minus
  | plus
  deriving DecidableEq, Repr

/-- The characters of a sign. -/
def Sign.text : Sign → List Char
  | none => []
  | minus => ['-']
  | plus => ['+']

/-- A numeral: white space, a sign and at least one digit. -/
structure Numeral where
  spaces : List Char
  sign : Sign
  digits : List Char
  isSpace_of_mem : ∀ c ∈ spaces, isSpace c
  isDigit_of_mem : ∀ c ∈ digits, c.isDigit
  digits_ne_nil : digits ≠ []

/-- The text does not go on with a digit. -/
def NoDigitHead (text : List Char) : Prop := ∀ c, text.head? = some c → c.isDigit = false

theorem noDigitHead_nil : NoDigitHead [] := by simp [NoDigitHead]

theorem noDigitHead_dropWhile (text : List Char) :
    NoDigitHead (text.dropWhile Char.isDigit) := by
  intro c hc
  have hhead := List.head?_dropWhile_not Char.isDigit text
  rw [hc] at hhead
  simpa using hhead

namespace Numeral

/-- The characters of a numeral. -/
def text (n : Numeral) : List Char := n.spaces ++ n.sign.text ++ n.digits

/-- The number a numeral stands for. -/
def value (n : Numeral) : ℤ :=
  match n.sign with
  | .minus => -(Nat.ofDigitChars 10 n.digits 0 : ℤ)
  | _ => Nat.ofDigitChars 10 n.digits 0

theorem text_ne_nil (n : Numeral) : n.text ≠ [] := by
  simp [text, n.digits_ne_nil]

/-- More digits after a numeral make another one. -/
def extend (n : Numeral) (more : List Char) (h : ∀ c ∈ more, c.isDigit) : Numeral where
  spaces := n.spaces
  sign := n.sign
  digits := n.digits ++ more
  isSpace_of_mem := n.isSpace_of_mem
  isDigit_of_mem c hc := (List.mem_append.1 hc).elim (n.isDigit_of_mem c) (h c)
  digits_ne_nil := by simp [n.digits_ne_nil]

@[simp]
theorem text_extend (n : Numeral) (more : List Char) (h : ∀ c ∈ more, c.isDigit) :
    (n.extend more h).text = n.text ++ more := by
  simp [text, extend]

end Numeral

theorem isSpace_eq_false_of_isDigit {c : Char} (h : c.isDigit) : isSpace c = false := by
  by_contra hspace
  simp only [isSpace, List.contains_eq_mem, decide_eq_true_eq, Bool.not_eq_false,
    List.mem_cons, List.not_mem_nil, or_false] at hspace
  rcases hspace with rfl | rfl | rfl | rfl | rfl | rfl <;> exact absurd h (by decide)

/-- Without white space at its head a text is not shortened by skipping it. -/
theorem spaces_append {spaces rest : List Char} (h : ∀ c ∈ spaces, isSpace c)
    (hrest : ∀ c, rest.head? = some c → isSpace c = false) :
    (spaces ++ rest).takeWhile isSpace = spaces ∧ (spaces ++ rest).dropWhile isSpace = rest := by
  rw [List.takeWhile_append_of_pos h, List.dropWhile_append_of_pos h]
  cases rest with
  | nil => simp
  | cons c rest =>
    have hc := hrest c rfl
    simp [hc]

theorem digits_append {digits rest : List Char} (h : ∀ c ∈ digits, c.isDigit)
    (hrest : NoDigitHead rest) : (digits ++ rest).takeWhile Char.isDigit = digits := by
  rw [List.takeWhile_append_of_pos h]
  cases rest with
  | nil => simp
  | cons c rest =>
    have hc := hrest c rfl
    simp [hc]

section Scan

/-- The sign at the head of a text; a plus only counts if it is asked for. -/
def scanSign (plus : Bool) : List Char → Sign
  | '-' :: _ => .minus
  | '+' :: _ => if plus then .plus else .none
  | _ => .none

/-- The numeral at the start of a text, if there is one. -/
def scan (plus : Bool) (text : List Char) : Option Numeral :=
  let rest := text.dropWhile isSpace
  let sign := scanSign plus rest
  let digits := (rest.drop sign.text.length).takeWhile Char.isDigit
  if h : digits = [] then none
  else
    some {
      spaces := text.takeWhile isSpace
      sign
      digits
      isSpace_of_mem := fun _ => List.mem_takeWhile_imp
      isDigit_of_mem := fun _ => List.mem_takeWhile_imp
      digits_ne_nil := h }

variable {plus : Bool}

/-- A sign before a digit is found. -/
theorem scanSign_append {sign : Sign} (hsign : sign = .plus → plus = true) {text : List Char}
    (htext : ∀ c, text.head? = some c → c.isDigit = true) :
    scanSign plus (sign.text ++ text) = sign := by
  cases sign with
  | minus => rfl
  | plus => simp [Sign.text, scanSign, hsign rfl]
  | none =>
    cases text with
    | nil => rfl
    | cons c text =>
      have hc := htext c rfl
      rw [Sign.text, List.nil_append, scanSign]
      · rintro rest ⟨rfl, -⟩
        exact absurd hc (by decide)
      · rintro rest ⟨rfl, -⟩
        exact absurd hc (by decide)

/-- The numeral at the start of a text is found when its digits end there. -/
theorem scan_append (n : Numeral) (hsign : n.sign = .plus → plus = true) {rest : List Char}
    (hrest : NoDigitHead rest) : scan plus (n.text ++ rest) = some n := by
  obtain ⟨d, ds, hds⟩ := List.exists_cons_of_ne_nil n.digits_ne_nil
  have hd : d.isDigit = true := n.isDigit_of_mem d (hds ▸ List.mem_cons_self)
  have hhead : ∀ c, (n.sign.text ++ (n.digits ++ rest)).head? = some c → isSpace c = false := by
    intro c hc
    cases hs : n.sign with
    | none =>
      rw [hs, hds] at hc
      obtain rfl : d = c := by simpa [Sign.text] using hc
      exact isSpace_eq_false_of_isDigit hd
    | minus | plus =>
      rw [hs] at hc
      obtain rfl := Option.some.inj hc
      decide
  have hdigit : ∀ c, (n.digits ++ rest).head? = some c → c.isDigit = true := by
    intro c hc
    rw [hds] at hc
    obtain rfl := Option.some.inj hc
    exact hd
  -- the three parts come off one after the other
  obtain ⟨hspaces, hskip⟩ := spaces_append n.isSpace_of_mem hhead
  have hassoc : n.text ++ rest = n.spaces ++ (n.sign.text ++ (n.digits ++ rest)) := by
    simp [Numeral.text]
  simp only [scan, hassoc, hspaces, hskip, scanSign_append hsign hdigit, List.drop_left,
    digits_append n.isDigit_of_mem hrest]
  rw [dif_neg n.digits_ne_nil]

theorem eq_append_of_scanSign (plus : Bool) (text : List Char) :
    text = (scanSign plus text).text ++ text.drop (scanSign plus text).text.length := by
  have hprefix : (scanSign plus text).text <+: text := by
    unfold scanSign
    split
    · exact ⟨_, rfl⟩
    · cases plus with
      | true => exact ⟨_, rfl⟩
      | false => exact List.nil_prefix
    · exact List.nil_prefix
  exact (List.prefix_iff_eq_append.1 hprefix).symm

theorem scanSign_eq_plus {text : List Char} (h : scanSign plus text = .plus) : plus = true := by
  unfold scanSign at h
  split at h
  · cases h
  · by_contra hplus
    rw [if_neg hplus] at h
    cases h
  · cases h

/-- What is found is at the start of the text, and its digits end there. -/
theorem eq_append_of_scan {text : List Char} {n : Numeral} (h : scan plus text = some n) :
    (n.sign = .plus → plus = true) ∧ ∃ rest, text = n.text ++ rest ∧ NoDigitHead rest := by
  unfold scan at h
  simp only [Option.dite_none_left_eq_some, Option.some.injEq] at h
  obtain ⟨-, rfl⟩ := h
  have hrest := eq_append_of_scanSign plus (text.dropWhile isSpace)
  refine ⟨scanSign_eq_plus, _, ?_, noDigitHead_dropWhile
    ((text.dropWhile isSpace).drop (scanSign plus (text.dropWhile isSpace)).text.length)⟩
  simp only [Numeral.text, List.append_assoc, List.takeWhile_append_dropWhile]
  rw [← hrest, List.takeWhile_append_dropWhile]

/-- If a numeral starts a text, one is found that is at least as long. -/
theorem exists_scan_of_prefix {n : Numeral} (hsign : n.sign = .plus → plus = true)
    {text : List Char} (h : n.text <+: text) : ∃ m, scan plus text = some m := by
  obtain ⟨rest, rfl⟩ := h
  have hdigits : ∀ c ∈ rest.takeWhile Char.isDigit, c.isDigit := fun _ => List.mem_takeWhile_imp
  refine ⟨n.extend _ hdigits, ?_⟩
  rw [show n.text ++ rest = (n.extend _ hdigits).text ++ rest.dropWhile Char.isDigit by
    rw [Numeral.text_extend, List.append_assoc, List.takeWhile_append_dropWhile]]
  exact scan_append (n.extend _ hdigits) hsign (noDigitHead_dropWhile rest)

end Scan

example : (scan false " -12+".toList).map Numeral.value = some (-12) := by decide

end Decimal
