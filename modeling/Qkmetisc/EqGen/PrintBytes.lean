import Qkmetisc.EqGen.Print
import Qkmetisc.Foundations.CheckedStore

/-!
# Printing byte by byte

`eq_print` again, with each character a store of its own that faults outside the buffer. A number
is followed by the NUL of `%Zd`, which the next element overwrites; only the last one stays.

## Main definitions

* `eqElemPrintBytes`, `eqPrintBytes`: the functions of the source.
* `Prints`: the text that some call prints.

## Main results

* `eqPrintBytes_eq`: without a fault this is `eqPrint`.
* `eqPrintBytesLoop_spec`: what a call that returns has left.
* `eqPrintBytes_inBuffer`: a buffer of the computed size is large enough, and filled exactly.
* `tokenise_printed`: what was printed can be read back.
-/

open Arith CheckedStore

namespace Qkmetisc.EqGen

/-- How printing can end without returning. -/
inductive PrintFault where
  | assertFailed
  | outOfBounds
  deriving Repr, DecidableEq

/-- `eq_elem_print` at position `index` of `buf`: the buffer afterwards and the number of
characters, which does not count the NUL after a number. None for a store outside the buffer. -/
def eqElemPrintBytes (elem : EqElem) (buf : List Char) (index : ℕ) : Option (List Char × ℕ) :=
  match elem with
  | .br .l => (store buf index '(').map fun buf => (buf, 1)
  | .br .r => (store buf index ')').map fun buf => (buf, 1)
  | .nr n =>
    -- the next element overwrites the NUL
    (storeAll buf index (spell (.nr n) ++ [NUL])).map fun buf => (buf, (spell (.nr n)).length)
  | .op .sum => (store buf index '+').map fun buf => (buf, 1)
  | .op .sub => (store buf index '-').map fun buf => (buf, 1)
  | .op .mul => (store buf index '*').map fun buf => (buf, 1)

/-- The loop of `eq_print` from position `index` on: the buffer, whether all was printed, and the
position after the last character. -/
def eqPrintBytesLoop : List EqElem → List Char → ℕ → Except PrintFault (List Char × Bool × ℕ)
  | [], buffer, index => .ok (buffer, true, index)
  | elem :: rest, buffer, index =>
    match eqElemPrintBytes elem buffer index with
    | none => .error .outOfBounds
    | some (buffer, incr) =>
      if incr = 0 then .ok (buffer, false, index)
      else eqPrintBytesLoop rest buffer (index + incr)

/-- `eq_print`: the buffer, whether all was printed, and how many characters were. -/
def eqPrintBytes (eq : List EqElem) (buffer : List Char) :
    Except PrintFault (List Char × Bool × ℕ) :=
  if eq = [] then .error .assertFailed else eqPrintBytesLoop eq buffer 0

/-- Some call of `eq_print` returns and has printed `text`. -/
def Prints (eq : List EqElem) (text : List Char) : Prop :=
  ∃ buffer left ok n, eqPrintBytes eq buffer = .ok (left, ok, n) ∧ left.take n = text

/-! ## Stores -/

section Stores

variable {buf : List Char} {i : ℕ}

/-- An element is stored as a piece: its text, and a NUL after a number. -/
theorem eqElemPrintBytes_eq (elem : EqElem) (buf : List Char) (i : ℕ) :
    eqElemPrintBytes elem buf i =
      (storeAll buf i (spell elem ++ if elem.isNr then [NUL] else [])).map fun buf =>
        (buf, (spell elem).length) := by
  match elem with
  | .br .l | .br .r | .op .sum | .op .sub | .op .mul =>
    rw [eqElemPrintBytes, ← storeAll_singleton]
    rfl
  | .nr n => rfl

/-- What an element that was printed has stored, all of it inside the buffer. -/
theorem eqElemPrintBytes_some {elem : EqElem} {out : List Char × ℕ}
    (h : eqElemPrintBytes elem buf i = some out) :
    out = eqElemPrint elem buf i ∧
      i + (spell elem ++ if elem.isNr then [NUL] else []).length ≤ buf.length := by
  rw [eqElemPrintBytes_eq] at h
  obtain ⟨next, hstore, rfl⟩ := Option.map_eq_some_iff.1 h
  -- something is stored, so that the store would have failed outside
  have hne : spell elem ++ (if elem.isNr then [NUL] else []) ≠ [] := by
    have hpos := length_spell_pos elem
    intro hnil
    simp [(List.append_eq_nil_iff.1 hnil).1] at hpos
  have hle := le_of_storeAll hne hstore
  rw [storeAll_of_le hle] at hstore
  obtain rfl := Option.some.inj hstore
  exact ⟨(eqElemPrint_eq elem buf i).symm, hle⟩

/-- The text of an element stands after what was there before it. -/
theorem take_storeAt {text ext : List Char} (h : i ≤ buf.length) :
    (storeAt buf i (text ++ ext)).take (i + text.length) = buf.take i ++ text := by
  have hlen : (buf.take i ++ text).length = i + text.length := by
    simp only [List.length_append, List.length_take]
    omega
  have hsplit : storeAt buf i (text ++ ext) =
      (buf.take i ++ text) ++ (ext ++ buf.drop (i + (text ++ ext).length)) := by
    simp [storeAt]
  rw [hsplit, ← hlen, List.take_left]

/-- After the text of an element the buffer is as it was, but for one NUL. -/
theorem getElem?_storeAt {text : List Char} {elem : EqElem} {j : ℕ}
    (h : i + (text ++ if elem.isNr then [NUL] else []).length ≤ buf.length)
    (hj : i + text.length ≤ j) :
    (storeAt buf i (text ++ if elem.isNr then [NUL] else []))[j]? = buf[j]? ∨
      (storeAt buf i (text ++ if elem.isNr then [NUL] else []))[j]? = some NUL := by
  have hlen : (buf.take i ++ text).length = i + text.length := by
    simp only [List.length_append, List.length_take] at h ⊢
    omega
  -- what stands in the untouched end of the buffer
  have hafter {k : ℕ} (hk : i + text.length ≤ k) :
      (buf.drop k)[j - k]? = buf[j]? ∨ j < k := by
    by_cases hjk : j < k
    · exact .inr hjk
    · refine .inl ?_
      rw [List.getElem?_drop]
      congr 1
      omega
  cases elem.isNr with
  | false =>
    refine .inl ?_
    simp only [storeAt, Bool.false_eq_true, ↓reduceIte, List.append_nil]
    rw [List.getElem?_append_right (hlen ▸ hj), hlen]
    exact (hafter (le_refl _)).resolve_right (by omega)
  | true =>
    have hsplit : storeAt buf i (text ++ [NUL]) =
        (buf.take i ++ text) ++ ([NUL] ++ buf.drop (i + text.length + 1)) := by
      simp [storeAt, Nat.add_assoc]
    simp only [↓reduceIte]
    rw [hsplit, List.getElem?_append_right (hlen ▸ hj), hlen]
    -- either the NUL itself, or what comes after it
    rcases Nat.eq_or_lt_of_le hj with heq | hlt
    · rw [← heq, Nat.sub_self]
      exact .inr rfl
    · refine .inl ?_
      rw [List.getElem?_append_right (by simp; omega), List.length_singleton, Nat.sub_sub]
      exact (hafter (Nat.le_succ _)).resolve_right (by omega)

end Stores

/-! ## The whole list -/

section Lists

variable {eq : List EqElem} {buffer left : List Char} {ok : Bool} {i n : ℕ}

/-- What the loop has left when it returns: everything is printed, after what stood there before;
and behind the text the buffer is as it was, but for NULs. -/
structure Printed (eq : List EqElem) (buffer : List Char) (i : ℕ) (left : List Char) (ok : Bool)
    (n : ℕ) : Prop where
  all : ok = true
  count : n = i + (render eq).length
  length : left.length = buffer.length
  text : left.take n = buffer.take i ++ render eq
  behind : ∀ j, n ≤ j → left[j]? = buffer[j]? ∨ left[j]? = some NUL

/-- A loop that returns has stored its first element inside the buffer, as a piece, and has gone on
behind the text of the element. -/
theorem eqPrintBytesLoop_cons {elem : EqElem} {rest : List EqElem}
    (h : eqPrintBytesLoop (elem :: rest) buffer i = .ok (left, ok, n)) :
    i + (spell elem ++ if elem.isNr then [NUL] else []).length ≤ buffer.length ∧
      eqPrintBytesLoop rest (storeAt buffer i (spell elem ++ if elem.isNr then [NUL] else []))
        (i + (spell elem).length) = .ok (left, ok, n) := by
  rw [eqPrintBytesLoop] at h
  rcases hcall : eqElemPrintBytes elem buffer i with none | ⟨buf, incr⟩
  · rw [hcall] at h
    cases h
  · rw [hcall] at h
    obtain ⟨hout, hfits⟩ := eqElemPrintBytes_some hcall
    rw [eqElemPrint_eq] at hout
    obtain ⟨rfl, rfl⟩ := Prod.mk.inj hout
    -- no element is empty, so the loop does not stop here
    have hpos := length_spell_pos elem
    dsimp only at h
    rw [if_neg hpos.ne'] at h
    exact ⟨hfits, h⟩

/-- A call that returns has printed everything. -/
theorem eqPrintBytesLoop_spec (h : eqPrintBytesLoop eq buffer i = .ok (left, ok, n))
    (hi : i ≤ buffer.length) : Printed eq buffer i left ok n := by
  -- on the elements, with the buffer and the position general, since every element moves both
  induction eq generalizing buffer i with
  | nil =>
    cases h
    exact ⟨rfl, rfl, rfl, by simp, fun j _ => .inl rfl⟩
  | cons elem rest ih =>
    obtain ⟨hfits, hloop⟩ := eqPrintBytesLoop_cons h
    have hlen := length_storeAt hfits
    have hroom := hfits
    rw [List.length_append] at hroom
    have hrest := ih hloop (by rw [hlen]; omega)
    refine ⟨hrest.all, ?_, hrest.length.trans hlen, ?_, fun j hj => ?_⟩
    · rw [hrest.count, render_cons, List.length_append, Nat.add_assoc]
    · rw [hrest.text, take_storeAt hi, render_cons, List.append_assoc]
    · -- behind the text of all elements is behind that of the first one
      have hcount := hrest.count
      have hbehind : i + (spell elem).length ≤ j := by omega
      have hafter := getElem?_storeAt hfits hbehind
      rcases hrest.behind j hj with hsame | hnul
      · rw [hsame]
        exact hafter
      · exact .inr hnul

/-- With room for the text and one more character no store is outside the buffer. -/
theorem exists_eqPrintBytesLoop (h : i + (render eq).length < buffer.length) :
    ∃ left ok n, eqPrintBytesLoop eq buffer i = .ok (left, ok, n) := by
  induction eq generalizing buffer i with
  | nil => exact ⟨buffer, true, i, rfl⟩
  | cons elem rest ih =>
    rw [render_cons, List.length_append] at h
    -- the one more character is for the NUL of the last number
    have hext : (if elem.isNr then [NUL] else []).length ≤ 1 := by
      split <;> simp
    have hfits : i + (spell elem ++ if elem.isNr then [NUL] else []).length ≤ buffer.length := by
      rw [List.length_append]
      omega
    have hpos := length_spell_pos elem
    rw [eqPrintBytesLoop, eqElemPrintBytes_eq, storeAll_of_le hfits]
    simp only [Option.map_some, if_neg hpos.ne']
    refine ih ?_
    have hlen := length_storeAt hfits
    rw [storeAt] at hlen
    rw [hlen]
    omega

/-- Without a fault, the loop byte by byte is the loop by pieces. -/
theorem eqPrintBytesLoop_eq (h : eqPrintBytesLoop eq buffer i = .ok (left, ok, n)) :
    eqPrintLoop eq buffer i = (left, ok) := by
  induction eq generalizing buffer i with
  | nil =>
    cases h
    rfl
  | cons elem rest ih =>
    obtain ⟨-, hloop⟩ := eqPrintBytesLoop_cons h
    rw [eqPrintLoop, eqElemPrint_eq]
    dsimp only
    rw [if_neg (length_spell_pos elem).ne']
    exact ih hloop

/-- Without a fault, printing byte by byte is printing by pieces. -/
theorem eqPrintBytes_eq (h : eqPrintBytes eq buffer = .ok (left, ok, n)) :
    eqPrint eq buffer = (left, ok) := by
  rw [eqPrintBytes] at h
  split at h
  · cases h
  · exact eqPrintBytesLoop_eq h

/-- A call that returns has printed the text from the start of the buffer. -/
theorem eqPrintBytes_spec (h : eqPrintBytes eq buffer = .ok (left, ok, n)) :
    Printed eq buffer 0 left ok n := by
  rw [eqPrintBytes] at h
  split at h
  · cases h
  · exact eqPrintBytesLoop_spec h (Nat.zero_le _)

/-- With room for the text and one more character, everything is printed. -/
theorem exists_eqPrintBytes (hne : eq ≠ []) (h : (render eq).length < buffer.length) :
    ∃ left, eqPrintBytes eq buffer = .ok (left, true, (render eq).length) ∧
      Printed eq buffer 0 left true (render eq).length := by
  obtain ⟨left, ok, n, hcall⟩ : ∃ left ok n, eqPrintBytesLoop eq buffer 0 = .ok (left, ok, n) :=
    exists_eqPrintBytesLoop (by omega)
  have hprinted := eqPrintBytesLoop_spec hcall (Nat.zero_le _)
  obtain rfl := hprinted.all
  obtain rfl : n = (render eq).length := hprinted.count.trans (Nat.zero_add _)
  exact ⟨left, by rw [eqPrintBytes, if_neg hne, hcall], hprinted⟩

/-- In a buffer with one byte more than the text, which is NUL before, the text is a string. -/
theorem Printed.eq_append_nul (h : Printed eq buffer 0 left ok n) (hlen : buffer.length = n + 1)
    (hlast : buffer[n]? = some NUL) : left = render eq ++ [NUL] := by
  have htext : left.take n = render eq := by simpa using h.text
  have hlength : left.length = n + 1 := h.length.trans hlen
  have hnul : left[n]? = some NUL := by
    rcases h.behind n (le_refl _) with hsame | hnul
    · exact hsame.trans hlast
    · exact hnul
  -- one byte is left behind the text
  rw [← List.take_append_drop n left, htext]
  congr 1
  refine List.ext_getElem? fun j => ?_
  rw [List.getElem?_drop]
  cases j with
  | zero => exact hnul
  | succ j =>
    simp only [List.getElem?_cons_succ, List.getElem?_nil, List.getElem?_eq_none_iff, hlength]
    omega

/-- A buffer of the size that was computed is filled exactly, without a store outside it. With its
last byte set to NUL beforehand it holds the text as a string. -/
theorem eqPrintBytes_inBuffer (hne : eq ≠ []) (hsize : eqCalcStrSize eq ≠ 0)
    (hlen : buffer.length = eqCalcStrSize eq) :
    (∃ left, eqPrintBytes eq buffer = .ok (left, true, eqCalcStrSize eq - 1) ∧
      left.length = eqCalcStrSize eq ∧ left.take (eqCalcStrSize eq - 1) = render eq) ∧
    ∃ text, eqPrintBytes eq (buffer.set (eqCalcStrSize eq - 1) NUL) =
        .ok (text ++ [NUL], true, eqCalcStrSize eq - 1) ∧
      text.length = eqCalcStrSize eq - 1 ∧ NUL ∉ text ∧ cString (text ++ [NUL]) = text := by
  rw [eqCalcStrSize_eq hsize] at hlen ⊢
  rw [Nat.add_sub_cancel]
  refine ⟨?_, ?_⟩
  · have hroom : (render eq).length < buffer.length := by omega
    obtain ⟨left, hcall, hprinted⟩ := exists_eqPrintBytes hne hroom
    exact ⟨left, hcall, hprinted.length.trans hlen, by simpa using hprinted.text⟩
  · -- the last byte is NUL before, and no element reaches it but with its own NUL
    have hset : (buffer.set (render eq).length NUL).length = (render eq).length + 1 :=
      List.length_set.trans hlen
    have hlast : (buffer.set (render eq).length NUL)[(render eq).length]? = some NUL :=
      List.getElem?_set_self (by omega)
    have hroom : (render eq).length < (buffer.set (render eq).length NUL).length := by omega
    obtain ⟨left, hcall, hprinted⟩ := exists_eqPrintBytes hne hroom
    obtain rfl := hprinted.eq_append_nul hset hlast
    exact ⟨render eq, hcall, rfl, nul_notMem_render eq, cString_render eq⟩

theorem eqPrintBytes_inBuffer_negative :
    (∃ left, eqPrintBytes [.nr 5, .op .sum, .nr (-12)] (List.replicate 6 'x') =
        .ok (left, true, 5) ∧ left.length = 6 ∧ left.take 5 = "5+-12".toList) ∧
      ∃ text, eqPrintBytes [.nr 5, .op .sum, .nr (-12)] ((List.replicate 6 'x').set 5 NUL) =
          .ok (text ++ [NUL], true, 5) ∧
        text.length = 5 ∧ NUL ∉ text ∧ cString (text ++ [NUL]) = text := by
  have hsize : eqCalcStrSize [.nr 5, .op .sum, .nr (-12)] = 6 := by decide +kernel
  have h := @eqPrintBytes_inBuffer [.nr 5, .op .sum, .nr (-12)] (List.replicate 6 'x')
    (List.cons_ne_nil _ _) (by rw [hsize]; decide) (by rw [hsize]; rfl)
  rw [hsize] at h
  exact h

/-- The only text of an equation is its rendering. -/
theorem Prints.eq_render {text : List Char} (h : Prints eq text) : text = render eq := by
  obtain ⟨buffer, left, ok, n, hcall, rfl⟩ := h
  simpa using (eqPrintBytes_spec hcall).text

/-- Every equation is printed, given a buffer that is large enough. -/
theorem prints_render (hne : eq ≠ []) : Prints eq (render eq) := by
  have hroom : (render eq).length < (List.replicate ((render eq).length + 1) NUL).length := by
    rw [List.length_replicate]
    exact Nat.lt_succ_self _
  obtain ⟨left, hcall, hprinted⟩ := exists_eqPrintBytes hne hroom
  exact ⟨_, left, true, _, hcall, by simpa using hprinted.text⟩

/-- A sentence without negative numbers is printed, what was printed is cut back into that
sentence, and no other one has the same text. -/
theorem tokenise_printed {v : ℤ} (hderives : Derives .expression eq v)
    (hnn : ∀ m, .nr m ∈ eq → 0 ≤ m) :
    (∃ text, Prints eq text) ∧ (∀ text, Prints eq text → tokenise text = some eq) ∧
      ∀ eq' v' text, Derives .expression eq' v' → (∀ m, .nr m ∈ eq' → 0 ≤ m) →
        Prints eq text → Prints eq' text → eq' = eq := by
  have hread {e : List EqElem} {v : ℤ} {text : List Char} (he : Derives .expression e v)
      (hnn : ∀ m, .nr m ∈ e → 0 ≤ m) (h : Prints e text) : tokenise text = some e := by
    rw [h.eq_render]
    exact tokenise_render he.separated hnn
  refine ⟨⟨_, prints_render hderives.ne_nil⟩, fun text h => hread hderives hnn h, ?_⟩
  intro eq' v' text hderives' hnn' h h'
  -- both are what the one text is cut into
  have hsame : some eq' = some eq := (hread hderives' hnn' h').symm.trans (hread hderives hnn h)
  exact Option.some.inj hsame

theorem tokenise_printed_parens :
    (∃ text, Prints [.br .l, .nr 10, .br .r] text) ∧
      (∀ text, Prints [.br .l, .nr 10, .br .r] text →
        tokenise text = some [.br .l, .nr 10, .br .r]) ∧
      ∀ eq' v' text, Derives .expression eq' v' → (∀ m, .nr m ∈ eq' → 0 ≤ m) →
        Prints [.br .l, .nr 10, .br .r] text → Prints eq' text →
          eq' = [.br .l, .nr 10, .br .r] := by
  have hten : Derives .expression [.nr 10] (10 : ℤ) := .term (.primary (.number 10))
  have hderives : Derives .expression [.br .l, .nr 10, .br .r] (10 : ℤ) :=
    .term (.primary (.parens hten))
  exact tokenise_printed hderives (by simp)

end Lists

end Qkmetisc.EqGen
