import Qkmetisc.Foundations.Numeral
import Mathlib.Data.BitVec

/-!
# The `strtol` family

The functions of the C library that read an integer in base 10 at the start of a text, for signed
and unsigned results of any width: what they return, where they stop, and whether they set `errno`
to `ERANGE`.

## Main definitions

* `Strto`: what such a function gives.
* `strtoSigned`, `strtoUnsigned`: the functions.
* `StartsWith`: the numeral that is read.

## Main results

* `scan_eq_some`, `startsWith_unique`: at most one numeral is read.
* `strtoSigned_of_fits`, `strtoUnsigned_of_fits`: a numeral that fits gives its value, for an
  unsigned result modulo the power of two.
-/

namespace Decimal

/-- What a function of the family gives. -/
structure Strto (w : ℕ) where
  value : BitVec w
  /-- The text from the end pointer on. -/
  rest : List Char
  /-- `errno` is `ERANGE`. -/
  erange : Bool

/-- `strtol`: a value that does not fit gives the nearest one that does. -/
def strtoSigned (w : ℕ) (text : List Char) : Strto w :=
  match scan true text with
  | none => { value := 0, rest := text, erange := false }
  | some n =>
    let rest := text.drop n.text.length
    if 2 ^ (w - 1) ≤ n.value then { value := BitVec.intMax w, rest, erange := true }
    else if n.value < -2 ^ (w - 1) then { value := BitVec.intMin w, rest, erange := true }
    else { value := BitVec.ofInt w n.value, rest, erange := false }

/-- `strtoul`: the value of the digits has to fit, and is negated in the result type if there is a
minus sign. -/
def strtoUnsigned (w : ℕ) (text : List Char) : Strto w :=
  match scan true text with
  | none => { value := 0, rest := text, erange := false }
  | some n =>
    let rest := text.drop n.text.length
    let magnitude := n.value.natAbs
    if 2 ^ w ≤ magnitude then { value := BitVec.allOnes w, rest, erange := true }
    else if n.sign = .minus then { value := -BitVec.ofNat w magnitude, rest, erange := false }
    else { value := BitVec.ofNat w magnitude, rest, erange := false }

/-- The text starts with the numeral, and goes on with no digit. -/
def StartsWith (text : List Char) (n : Numeral) : Prop :=
  ∃ rest, text = n.text ++ rest ∧ NoDigitHead rest

variable {w : ℕ} {text : List Char} {n m : Numeral}

theorem scan_eq_some : scan true text = some n ↔ StartsWith text n := by
  constructor
  · exact fun h => (eq_append_of_scan h).2
  · rintro ⟨rest, rfl, hrest⟩
    exact scan_append n (fun _ => rfl) hrest

theorem scan_eq_none : scan true text = none ↔ ∀ n, ¬StartsWith text n := by
  rw [Option.eq_none_iff_forall_ne_some]
  exact forall_congr' fun n => not_congr scan_eq_some

/-- A text starts with one numeral. -/
theorem startsWith_unique (hn : StartsWith text n) (hm : StartsWith text m) : n = m := by
  rw [← scan_eq_some] at hn hm
  exact Option.some.inj (hn.symm.trans hm)

/-- A numeral with nothing behind it starts its own text. -/
theorem startsWith_text (n : Numeral) : StartsWith n.text n :=
  ⟨[], (List.append_nil _).symm, noDigitHead_nil⟩

/-- The text behind the numeral. -/
theorem StartsWith.drop_eq_nil (h : StartsWith text n) :
    text.drop n.text.length = [] ↔ text = n.text := by
  obtain ⟨rest, rfl, -⟩ := h
  rw [List.drop_left]
  constructor
  · rintro rfl
    rw [List.append_nil]
  · intro heq
    simpa using heq

theorem Numeral.value_of_minus (h : n.sign = .minus) : n.value ≤ 0 := by
  rw [Numeral.value, h]
  show -(Nat.ofDigitChars 10 n.digits 0 : ℤ) ≤ 0
  omega

theorem Numeral.value_of_ne_minus (h : n.sign ≠ .minus) : 0 ≤ n.value := by
  unfold Numeral.value
  split
  · next hsign => exact absurd hsign h
  · exact Int.natCast_nonneg _

/-- Without a numeral nothing is read. -/
theorem strtoSigned_of_none (h : ∀ n, ¬StartsWith text n) :
    strtoSigned w text = { value := 0, rest := text, erange := false } := by
  rw [strtoSigned, scan_eq_none.2 h]

theorem strtoUnsigned_of_none (h : ∀ n, ¬StartsWith text n) :
    strtoUnsigned w text = { value := 0, rest := text, erange := false } := by
  rw [strtoUnsigned, scan_eq_none.2 h]

/-- A numeral that fits into a signed result. -/
theorem strtoSigned_of_fits (h : StartsWith text n)
    (hfits : -2 ^ (w - 1) ≤ n.value ∧ n.value < 2 ^ (w - 1)) : strtoSigned w text =
      { value := BitVec.ofInt w n.value, rest := text.drop n.text.length, erange := false } := by
  rw [strtoSigned, scan_eq_some.2 h]
  dsimp only
  rw [if_neg (not_le.2 hfits.2), if_neg (not_lt.2 hfits.1)]

theorem strtoSigned_of_not_fits (h : StartsWith text n)
    (hfits : ¬(-2 ^ (w - 1) ≤ n.value ∧ n.value < 2 ^ (w - 1))) :
    (strtoSigned w text).erange = true := by
  rw [strtoSigned, scan_eq_some.2 h]
  dsimp only
  split
  · rfl
  · next hle =>
    rw [if_pos (not_le.1 fun hge => hfits ⟨hge, not_le.1 hle⟩)]

/-- A numeral whose digits fit into an unsigned result gives its value modulo the power of two. -/
theorem strtoUnsigned_of_fits (h : StartsWith text n) (hfits : n.value.natAbs < 2 ^ w) :
    strtoUnsigned w text =
      { value := BitVec.ofInt w n.value, rest := text.drop n.text.length, erange := false } := by
  rw [strtoUnsigned, scan_eq_some.2 h]
  dsimp only
  rw [if_neg (not_le.2 hfits)]
  by_cases hsign : n.sign = .minus
  · have hvalue : n.value = -(n.value.natAbs : ℤ) := by
      have := Numeral.value_of_minus hsign
      omega
    rw [if_pos hsign, ← BitVec.ofInt_natCast, ← BitVec.ofInt_neg, ← hvalue]
  · have hvalue : n.value = n.value.natAbs := by
      have := Numeral.value_of_ne_minus hsign
      omega
    rw [if_neg hsign, ← BitVec.ofInt_natCast, ← hvalue]

theorem strtoUnsigned_of_not_fits (h : StartsWith text n) (hfits : ¬n.value.natAbs < 2 ^ w) :
    (strtoUnsigned w text).erange = true := by
  rw [strtoUnsigned, scan_eq_some.2 h]
  dsimp only
  rw [if_pos (not_lt.1 hfits)]

end Decimal
