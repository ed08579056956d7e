import Qkmetisc.Bstream.Defs
import Qkmetisc.EqGen.Generate

/-!
# Printing of equations (`eq_print`)

The text of an equation, written by `eq.c` into a buffer whose size it has computed before.
A buffer is the list of its characters; GMP's `%Zd` writes the decimal digits, with a sign if
needed, and a NUL after them.

## Main definitions

* `intLen`, `eqCalcStrSize`, `eqElemPrint`, `eqPrint`: the functions of the source.
* `cString`: the string a reader of the buffer sees.

## Main results

* `eqCalcStrSize_eq`: the size, when it can be computed, is that of the text and one NUL.
* `eqPrint_spec`: in a buffer of that size that ends in NUL, `eq_print` leaves the text and that
  NUL, and nothing else.
-/

open Arith

namespace Qkmetisc.EqGen

/-- The character that ends a string. -/
def NUL : Char := '\x00'

/-- `ckd_add` on `size_t`: the sum, none if it overflows. -/
def ckdAdd (a b : ℕ) : Option ℕ := if a + b < SIZE_T_RANGE then some (a + b) else none

/-- The loop of `int_len`: `len` and the digits of `t`, 0 if that overflows. -/
def intLenLoop (t len : ℕ) : ℕ :=
  if t = 0 then len
  else
    match ckdAdd len 1 with
    | none => 0
    | some len => intLenLoop (t / 10) len
termination_by t
decreasing_by omega

/-- `int_len`: the length of a number as text. -/
def intLen (val : ℤ) : ℕ :=
  if val = 0 then 1
  else intLenLoop val.natAbs (if val < 0 then 1 else 0)

/-- The loop of `eq_calc_str_size`. -/
def eqCalcStrSizeLoop : ℕ → List EqElem → ℕ
  | res, [] => res
  | res, .br _ :: rest =>
    match ckdAdd res 1 with
    | none => 0
    | some res => eqCalcStrSizeLoop res rest
  | res, .op _ :: rest =>
    match ckdAdd res 1 with
    | none => 0
    | some res => eqCalcStrSizeLoop res rest
  | res, .nr n :: rest =>
    if intLen n = 0 then 0
    else
      match ckdAdd res (intLen n) with
      | none => 0
      | some res => eqCalcStrSizeLoop res rest

/-- `eq_calc_str_size`, which is all of `eq_print_buffer_size`; 0 for failure. -/
def eqCalcStrSize (eq : List EqElem) : ℕ :=
  eqCalcStrSizeLoop 1 eq  -- 1 for zero byte

/-- `eq_elem_print` at position `index` of `buf`: the buffer afterwards and the number of
characters. -/
def eqElemPrint (elem : EqElem) (buf : List Char) (index : ℕ) : List Char × ℕ :=
  match elem with
  | .br .l => (storeAt buf index ['('], 1)
  | .br .r => (storeAt buf index [')'], 1)
  | .nr n => (storeAt buf index (spell (.nr n) ++ [NUL]), (spell (.nr n)).length)
  | .op .sum => (storeAt buf index ['+'], 1)
  | .op .sub => (storeAt buf index ['-'], 1)
  | .op .mul => (storeAt buf index ['*'], 1)

/-- The loop of `eq_print` from position `index` on: the buffer and whether all was printed. -/
def eqPrintLoop : List EqElem → List Char → ℕ → List Char × Bool
  | [], buffer, _ => (buffer, true)
  | elem :: rest, buffer, index =>
    let out := eqElemPrint elem buffer index
    if out.2 = 0 then (out.1, false)
    else eqPrintLoop rest out.1 (index + out.2)

/-- `eq_print`. -/
def eqPrint (eq : List EqElem) (buffer : List Char) : List Char × Bool :=
  eqPrintLoop eq buffer 0

/-- The string at the start of a buffer. -/
def cString (buffer : List Char) : List Char := buffer.takeWhile (· != NUL)

section Size

theorem ckdAdd_eq_some {a b c : ℕ} (h : ckdAdd a b = some c) : c = a + b := by
  unfold ckdAdd at h
  split at h
  · exact (Option.some.inj h).symm
  · cases h

/-- The loop counts the digits that are left. -/
theorem intLenLoop_eq {t len : ℕ} (ht : 0 < t) (h : intLenLoop t len ≠ 0) :
    intLenLoop t len = len + (Nat.toDigits 10 t).length := by
  -- on the number, which each round divides by ten
  induction t using Nat.strong_induction_on generalizing len with
  | _ t ih =>
    rw [intLenLoop, if_neg (Nat.ne_of_gt ht)] at h ⊢
    cases hadd : ckdAdd len 1 with
    | none => simp [hadd] at h
    | some next =>
      obtain rfl := ckdAdd_eq_some hadd
      simp only [hadd] at h ⊢
      by_cases hlt : t < 10
      · -- the last digit
        have hzero : t / 10 = 0 := by omega
        rw [hzero, intLenLoop, if_pos rfl, Nat.toDigits_of_lt_base hlt]
        rfl
      · have hpos : 0 < t / 10 := by omega
        have hdigits : Nat.toDigits 10 t = Nat.toDigits 10 (t / 10) ++ [(t % 10).digitChar] :=
          Nat.toDigits_of_base_le (by decide) (by omega)
        have hdecr : t / 10 < t := by omega
        rw [ih (t / 10) hdecr hpos h, hdigits, List.length_append, List.length_singleton,
          Nat.add_right_comm, Nat.add_assoc]

/-- A length that can be computed is that of the number's text. -/
theorem intLen_eq {n : ℤ} (h : intLen n ≠ 0) : intLen n = (spell (.nr n)).length := by
  unfold intLen at h ⊢
  by_cases hzero : n = 0
  · subst hzero
    rfl
  · rw [if_neg hzero] at h ⊢
    rw [intLenLoop_eq (by omega) h]
    -- the loop starts at 1 for the sign of a negative number
    by_cases hn : n < 0
    · rw [spell, if_pos hn, if_pos hn, List.length_cons, Nat.add_comm]
    · rw [spell, if_neg hn, if_neg hn, Nat.zero_add]

theorem eqCalcStrSizeLoop_eq {eq : List EqElem} {res : ℕ} (h : eqCalcStrSizeLoop res eq ≠ 0) :
    eqCalcStrSizeLoop res eq = res + (render eq).length := by
  induction eq generalizing res with
  | nil => rfl
  | cons t rest ih =>
    -- every element adds the length of its text to the running sum
    have step {len : ℕ} (hlen : len = (spell t).length)
        (hloop : eqCalcStrSizeLoop res (t :: rest) = match ckdAdd res len with
          | none => 0
          | some res => eqCalcStrSizeLoop res rest) :
        eqCalcStrSizeLoop res (t :: rest) = res + (render (t :: rest)).length := by
      rw [hloop] at h ⊢
      cases hadd : ckdAdd res len with
      | none => simp [hadd] at h
      | some next =>
        obtain rfl := ckdAdd_eq_some hadd
        simp only [hadd] at h ⊢
        rw [ih h, render_cons, List.length_append, hlen, Nat.add_assoc]
    cases t with
    | br b => exact step (by cases b <;> rfl) rfl
    | op o => exact step (by cases o <;> rfl) rfl
    -- a number whose length is 0 has made the loop give up
    | nr n =>
      have hlen : intLen n ≠ 0 := by
        intro hzero
        rw [eqCalcStrSizeLoop, if_pos hzero] at h
        exact h rfl
      refine step (intLen_eq hlen) ?_
      rw [eqCalcStrSizeLoop, if_neg hlen]

/-- The size, when it can be computed, has room for the text and one NUL. -/
theorem eqCalcStrSize_eq {eq : List EqElem} (h : eqCalcStrSize eq ≠ 0) :
    eqCalcStrSize eq = (render eq).length + 1 := by
  rw [eqCalcStrSize, eqCalcStrSizeLoop_eq h, Nat.add_comm]

end Size

section Printing

/-- What an element stores: its text, and a NUL after a number. -/
theorem eqElemPrint_eq (elem : EqElem) (buf : List Char) (index : ℕ) :
    eqElemPrint elem buf index =
      (storeAt buf index (spell elem ++ if elem.isNr then [NUL] else []), (spell elem).length) := by
  match elem with
  | .br .l | .br .r | .nr _ | .op .sum | .op .sub | .op .mul => rfl

/-- Storing after a known beginning. -/
theorem storeAt_append (pre mid data : List Char) :
    storeAt (pre ++ mid) pre.length data = pre ++ data ++ mid.drop data.length := by
  rw [storeAt, List.take_left, List.drop_append]
  simp

/-- Printing after `pre`, into the rest of the buffer, which has room for the text and ends in
NUL. -/
theorem eqPrintLoop_spec (eq : List EqElem) (pre mid : List Char)
    (hlen : mid.length = (render eq).length + 1) (hlast : mid.getLast? = some NUL) :
    eqPrintLoop eq (pre ++ mid) pre.length = (pre ++ render eq ++ [NUL], true) := by
  induction eq generalizing pre mid with
  | nil =>
    -- one character is left, and it is the NUL at the end
    obtain ⟨c, rfl⟩ := List.length_eq_one_iff.1 hlen
    obtain rfl : c = NUL := by simpa using hlast
    rw [eqPrintLoop, render_nil, List.append_nil]
  | cons t rest ih =>
    have hpos := length_spell_pos t
    rw [render_cons, List.length_append] at hlen
    rw [eqPrintLoop, eqElemPrint_eq, storeAt_append]
    simp only [if_neg (Nat.ne_of_gt hpos)]
    generalize hext : (if t.isNr then [NUL] else []) = ext
    -- what follows the text of the element: its NUL, if it is a number, and the untouched rest
    have hextlen : ext.length ≤ 1 := by subst hext; split <;> decide
    have hrest := ih (pre ++ spell t) (ext ++ mid.drop (spell t ++ ext).length)
      (by simp only [List.length_append, List.length_drop]; omega) ?_
    · simpa only [render_cons, List.append_assoc, List.length_append] using hrest
    · rw [List.getLast?_append, List.getLast?_drop, List.length_append, hlast]
      by_cases hfull : mid.length ≤ (spell t).length + ext.length
      · -- the buffer ends right after the NUL of a number
        have : ext ≠ [] := by
          intro hnil
          simp only [hnil, List.length_nil] at hfull
          omega
        rw [if_pos hfull]
        cases hnr : t.isNr with
        | true => simp [← hext, hnr]
        | false => simp [← hext, hnr] at this
      · rw [if_neg hfull]
        rfl

/-- In a buffer of the computed size that ends in NUL, `eq_print` succeeds and leaves the text and
one NUL; it stores nothing outside the buffer. -/
theorem eqPrint_spec {eq : List EqElem} {buffer : List Char} (hsize : eqCalcStrSize eq ≠ 0)
    (hlen : buffer.length = eqCalcStrSize eq) (hlast : buffer.getLast? = some NUL) :
    eqPrint eq buffer = (render eq ++ [NUL], true) := by
  rw [eqCalcStrSize_eq hsize] at hlen
  exact eqPrintLoop_spec eq [] buffer hlen hlast

/-- The text of an equation has no NUL in it. -/
theorem nul_notMem_render (eq : List EqElem) : NUL ∉ render eq := by
  intro h
  obtain ⟨t, -, ht⟩ := List.mem_flatMap.1 h
  -- neither a digit nor a symbol is NUL
  rcases mem_spell ht with hdigit | hsymbol
  · exact absurd hdigit (by decide)
  · exact absurd hsymbol (by decide)

/-- The string in the buffer is the text of the equation. -/
theorem cString_render (eq : List EqElem) : cString (render eq ++ [NUL]) = render eq := by
  unfold cString
  rw [List.takeWhile_append_of_pos]
  · simp
  · intro c hc
    have hne : c ≠ NUL := fun h => nul_notMem_render eq (h ▸ hc)
    simpa using hne

end Printing

end Qkmetisc.EqGen
