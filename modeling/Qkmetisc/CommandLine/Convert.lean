import Qkmetisc.Foundations.Strtol
import Qkmetisc.CommandLine.Match

/-!
# The integer converters (`cli_convert.c`)

The thirteen parsers of integer arguments. The source makes them from three macros around `strtol`
and its relatives, always in base 10; integers are those of LP64, with a signed `char`.

## Main definitions

* `strtoXStrict`, `strtoXStrict2Int`, `strtoXStrict2Uint`: the macros, and their instances.
* `Converter`, `cliConvert`: the converters.
* `Converter.Takes`: the values that a converter lets through.

## Main results

* `Converter.strictSpec`: what a converter makes of a text.
* `onlyNumerals_iff`: a converter accepts numerals only exactly where the text is not empty and
  nothing follows a value that is taken.
* `storesValue_iff`: what is stored is the value of the numeral exactly if that did not wrap.
-/

namespace Qkmetisc.CommandLine

open Decimal

/-! ## The macros -/

/-- The characters of a string. -/
def chars (s : Str) : List Char := s.map fun b => Char.ofNat b.toNat

/-- `DEFINE_strtoX_strict`: none for -1. -/
def strtoXStrict {w : ℕ} (strtoX : List Char → Strto w) (s : List Char) : Option (BitVec w) :=
  let res := strtoX s
  if res.erange then none
  else if res.value = 0 ∧ res.rest ≠ [] then none
  else some res.value

/-- `DEFINE_strtoX_strict2_int`, for the type with `w` bits. -/
def strtoXStrict2Int (convFunc : List Char → Strto 64) (w : ℕ) (min max : ℤ) (s : List Char) :
    Option (BitVec w) :=
  let res := convFunc s
  if res.erange then none
  else if max < res.value.toInt ∨ res.value.toInt < min then none
  else if res.value = 0 ∧ res.rest ≠ [] then none
  else some (res.value.setWidth w)

/-- `DEFINE_strtoX_strict2_uint`; `srcType` reads the bits of the result as the type of the variable
that they are assigned to. -/
def strtoXStrict2Uint (convFunc : List Char → Strto 64) (srcType : BitVec 64 → ℤ) (w : ℕ) (max : ℤ)
    (s : List Char) : Option (BitVec w) :=
  let res := convFunc s
  if res.erange then none
  else if max < srcType res.value then none
  else if res.value = 0 ∧ res.rest ≠ [] then none
  else some (res.value.setWidth w)

/-- `long int`. -/
def longInt (v : BitVec 64) : ℤ := v.toInt

/-- `unsigned long int`. -/
def unsignedLongInt (v : BitVec 64) : ℤ := v.toNat

/-- `strtol`. -/
def strtol : List Char → Strto 64 := strtoSigned 64

/-- `strtoll`. -/
def strtoll : List Char → Strto 64 := strtoSigned 64

/-- `strtoimax`. -/
def strtoimax : List Char → Strto 64 := strtoSigned 64

/-- `strtoul`. -/
def strtoul : List Char → Strto 64 := strtoUnsigned 64

/-- `strtoull`. -/
def strtoull : List Char → Strto 64 := strtoUnsigned 64

/-- `strtoumax`. -/
def strtoumax : List Char → Strto 64 := strtoUnsigned 64

/-- `strtoimax_strict`. -/
def strtoimaxStrict : List Char → Option (BitVec 64) := strtoXStrict strtoimax

/-- `strtoumax_strict`. -/
def strtoumaxStrict : List Char → Option (BitVec 64) := strtoXStrict strtoumax

/-- `strtol_strict`. -/
def strtolStrict : List Char → Option (BitVec 64) := strtoXStrict strtol

/-- `strtoll_strict`. -/
def strtollStrict : List Char → Option (BitVec 64) := strtoXStrict strtoll

/-- `strtoul_strict`. -/
def strtoulStrict : List Char → Option (BitVec 64) := strtoXStrict strtoul

/-- `strtoull_strict`. -/
def strtoullStrict : List Char → Option (BitVec 64) := strtoXStrict strtoull

/-- `strtoi_strict`, with `INT_MIN` and `INT_MAX`. -/
def strtoiStrict : List Char → Option (BitVec 32) :=
  strtoXStrict2Int strtol 32 (-2147483648) 2147483647

/-- `strtosi_strict`, with `SHRT_MIN` and `SHRT_MAX`. -/
def strtosiStrict : List Char → Option (BitVec 16) := strtoXStrict2Int strtol 16 (-32768) 32767

/-- `strtou_strict`, with `UINT_MAX`. -/
def strtouStrict : List Char → Option (BitVec 32) :=
  strtoXStrict2Uint strtoul unsignedLongInt 32 4294967295

/-- `strtosu_strict`, with `USHRT_MAX`. -/
def strtosuStrict : List Char → Option (BitVec 16) :=
  strtoXStrict2Uint strtoul unsignedLongInt 16 65535

/-- `strtosc_strict`, with `SCHAR_MIN` and `SCHAR_MAX`. -/
def strtoscStrict : List Char → Option (BitVec 8) := strtoXStrict2Int strtol 8 (-128) 127

/-- `strtouc_strict`, with `UCHAR_MAX`; the result of `strtoul` is kept in a `long int`. -/
def strtoucStrict : List Char → Option (BitVec 8) := strtoXStrict2Uint strtoul longInt 8 255

/-- `strtoc_strict`, with `CHAR_MIN` and `CHAR_MAX`. -/
def strtocStrict : List Char → Option (BitVec 8) := strtoXStrict2Int strtol 8 (-128) 127

/-! ## The converters -/

/-- The members of `union cli_opt_arg_data` for integers. -/
inductive CliOptArgData where
  | imax (v : BitVec 64)
  | umax (v : BitVec 64)
  | su (v : BitVec 16)
  | u (v : BitVec 32)
  | ul (v : BitVec 64)
  | ull (v : BitVec 64)
  | si (v : BitVec 16)
  | i (v : BitVec 32)
  | l (v : BitVec 64)
  | ll (v : BitVec 64)
  | sc (v : BitVec 8)
  | uc (v : BitVec 8)
  | c (v : BitVec 8)
  deriving DecidableEq

/-- The integer that a member holds. -/
def CliOptArgData.toInt : CliOptArgData → ℤ
  | .imax v | .l v | .ll v => v.toInt
  | .umax v | .ul v | .ull v => v.toNat
  | .i v => v.toInt
  | .u v => v.toNat
  | .si v => v.toInt
  | .su v => v.toNat
  | .sc v | .c v => v.toInt
  | .uc v => v.toNat

/-- The arguments of `DEFINE_cli_conver_X`. -/
inductive Converter where
  | imax
  | umax
  | su
  | u
  | ul
  | ull
  | si
  | i
  | l
  | ll
  | sc
  | uc
  | c
  deriving DecidableEq, Repr

namespace Converter

/-- The bits of the type. -/
def width : Converter → ℕ
  | .imax | .umax | .ul | .ull | .l | .ll => 64
  | .u | .i => 32
  | .su | .si => 16
  | .sc | .uc | .c => 8

/-- The function `strtoX_strict` of a converter. -/
def strict : (X : Converter) → List Char → Option (BitVec X.width)
  | .imax => strtoimaxStrict
  | .umax => strtoumaxStrict
  | .su => strtosuStrict
  | .u => strtouStrict
  | .ul => strtoulStrict
  | .ull => strtoullStrict
  | .si => strtosiStrict
  | .i => strtoiStrict
  | .l => strtolStrict
  | .ll => strtollStrict
  | .sc => strtoscStrict
  | .uc => strtoucStrict
  | .c => strtocStrict

/-- The member `X` of the union. -/
def member : (X : Converter) → BitVec X.width → CliOptArgData
  | .imax => .imax
  | .umax => .umax
  | .su => .su
  | .u => .u
  | .ul => .ul
  | .ull => .ull
  | .si => .si
  | .i => .i
  | .l => .l
  | .ll => .ll
  | .sc => .sc
  | .uc => .uc
  | .c => .c

/-- The least value of the type. -/
def min : Converter → ℤ
  | .imax | .l | .ll => -9223372036854775808
  | .i => -2147483648
  | .si => -32768
  | .sc | .c => -128
  | .umax | .ul | .ull | .u | .su | .uc => 0

/-- The greatest value of the type. -/
def max : Converter → ℤ
  | .imax | .l | .ll => 9223372036854775807
  | .umax | .ul | .ull => 18446744073709551615
  | .i => 2147483647
  | .u => 4294967295
  | .si => 32767
  | .su => 65535
  | .sc | .c => 127
  | .uc => 255

/-- The value is one of the type. -/
def InRange (X : Converter) (v : ℤ) : Prop := X.min ≤ v ∧ v ≤ X.max

/-- The values that are none of the type and are let through all the same. -/
def Wraps : Converter → ℤ → Prop
  -- negative numerals, which `strtoul` negates in its own type
  | .umax, v | .ul, v | .ull, v => -2 ^ 64 < v ∧ v < 0
  | .u, v => -2 ^ 64 < v ∧ v ≤ 4294967295 - 2 ^ 64
  | .su, v => -2 ^ 64 < v ∧ v ≤ 65535 - 2 ^ 64
  -- and whatever is negative as a `long int`
  | .uc, v => (-2 ^ 64 < v ∧ v ≤ 255 - 2 ^ 64) ∨ (-2 ^ 63 ≤ v ∧ v < 0) ∨ (2 ^ 63 ≤ v ∧ v < 2 ^ 64)
  | _, _ => False

/-- The values that are let through. -/
def Takes (X : Converter) (v : ℤ) : Prop := X.InRange v ∨ X.Wraps v

end Converter

/-- `cli_convert_X`: the argument, none for a result that is not 0. -/
def cliConvert (X : Converter) (s : Str) : Option (OptArg CliOptArgData) :=
  (X.strict (chars s)).map fun v => { data := X.member v, dataFree := false }

/-- The string is a numeral in base 10: white space, a sign, both or none of them, and digits. -/
def IsNumeral (s : Str) (n : Numeral) : Prop := chars s = n.text

/-- The converter accepts numerals and nothing else, and all those whose value is one of its
type. -/
structure OnlyNumerals (X : Converter) (s : Str) : Prop where
  only : ∀ arg, cliConvert X s = some arg → ∃ n, IsNumeral s n
  every : ∀ n, IsNumeral s n → X.InRange n.value → ∃ arg, cliConvert X s = some arg

/-- What the converter stores is the value of the numeral that was read, or zero for none. -/
structure StoresValue (X : Converter) (s : Str) : Prop where
  value : ∀ arg, cliConvert X s = some arg → ∀ n, StartsWith (chars s) n → arg.data.toInt = n.value
  zero : ∀ arg, cliConvert X s = some arg → (∀ n, ¬StartsWith (chars s) n) → arg.data.toInt = 0

section Macros

variable {w : ℕ} {f : List Char → Option (BitVec w)} {takes takes' : ℤ → Prop}

/-- What such a function makes of a text, if it lets through the values in `takes`. -/
structure StrictSpec (f : List Char → Option (BitVec w)) (takes : ℤ → Prop) : Prop where
  none : ∀ {text}, (∀ n, ¬StartsWith text n) → f text = if text = [] then some 0 else none
  taken : ∀ {text n}, StartsWith text n → takes n.value → (n.value = 0 → text = n.text) →
    f text = some (BitVec.ofInt w n.value)
  refused : ∀ {text n}, StartsWith text n → ¬(takes n.value ∧ (n.value = 0 → text = n.text)) →
    f text = Option.none

theorem StrictSpec.congr (h : StrictSpec f takes) (htakes : ∀ v, takes v ↔ takes' v) :
    StrictSpec f takes' := by
  obtain rfl : takes = takes' := funext fun v => propext (htakes v)
  exact h

theorem setWidth_ofInt (hw : w ≤ 64) (v : ℤ) :
    (BitVec.ofInt 64 v).setWidth w = BitVec.ofInt w v := by
  apply BitVec.eq_of_toNat_eq
  have hdvd : ((2 ^ w : ℕ) : ℤ) ∣ ((2 ^ 64 : ℕ) : ℤ) := by
    exact_mod_cast Nat.pow_dvd_pow 2 hw
  have hpos : 0 ≤ v % ((2 ^ 64 : ℕ) : ℤ) := Int.emod_nonneg v (by decide)
  rw [BitVec.toNat_setWidth, BitVec.toNat_ofInt, BitVec.toNat_ofInt, ← Int.emod_emod_of_dvd v hdvd,
    Int.toNat_emod hpos (Int.natCast_nonneg _), Int.toNat_natCast]

/-- The result is zero only for a value that is. -/
theorem ofInt_eq_zero {v : ℤ} (hv : v.natAbs < 2 ^ 64) : BitVec.ofInt 64 v = 0 ↔ v = 0 := by
  constructor
  · intro h
    have hmod := congrArg BitVec.toNat h
    rw [BitVec.toNat_ofInt] at hmod
    simp only [BitVec.ofNat_eq_ofNat, BitVec.toNat_ofNat] at hmod
    omega
  · rintro rfl
    rfl

/-- What a function of the library makes of a text, if the values in `fits` are those of its
type. -/
structure Reads (convFunc : List Char → Strto 64) (fits : ℤ → Prop) : Prop where
  none : ∀ {text}, (∀ n, ¬StartsWith text n) → convFunc text = ⟨0, text, false⟩
  read : ∀ {text n}, StartsWith text n → fits n.value →
    convFunc text = ⟨BitVec.ofInt 64 n.value, text.drop n.text.length, false⟩
  erange : ∀ {text n}, StartsWith text n → ¬fits n.value → (convFunc text).erange = true
  bound : ∀ {v}, fits v → v.natAbs < 2 ^ 64

theorem reads_strtol :
    Reads (strtoSigned 64) fun v => -9223372036854775808 ≤ v ∧ v ≤ 9223372036854775807 where
  none := strtoSigned_of_none
  read := fun h hfits => strtoSigned_of_fits h (by omega)
  erange := fun h hfits => strtoSigned_of_not_fits h (by omega)
  bound := by omega

theorem reads_strtoul : Reads (strtoUnsigned 64) fun v => v.natAbs < 2 ^ 64 where
  none := strtoUnsigned_of_none
  read := strtoUnsigned_of_fits
  erange := strtoUnsigned_of_not_fits
  bound := id

/-- The macros, by what they refuse after the conversion. -/
theorem strictSpec_of_reads {convFunc : List Char → Strto 64} {fits : ℤ → Prop}
    (hconv : Reads convFunc fits) (refuses : BitVec 64 → Prop) [DecidablePred refuses]
    (hzero : ¬refuses 0) (hw : w ≤ 64) (hf : ∀ text, f text =
      if (convFunc text).erange then none
      else if refuses (convFunc text).value then none
      else if (convFunc text).value = 0 ∧ (convFunc text).rest ≠ [] then none
      else some ((convFunc text).value.setWidth w)) :
    StrictSpec f fun v => fits v ∧ ¬refuses (BitVec.ofInt 64 v) where
  none := by
    intro text h
    rw [hf, hconv.none h]
    simp only [Bool.false_eq_true, if_false, if_neg hzero, true_and, ite_not]
    rw [show (0 : BitVec 64).setWidth w = 0 from BitVec.setWidth_zero w 64]
  taken := by
    intro text n h ⟨hfits, hrefuses⟩ hrest
    have hzero : ¬(BitVec.ofInt 64 n.value = 0 ∧ text.drop n.text.length ≠ []) := by
      rw [ofInt_eq_zero (hconv.bound hfits), ne_eq, h.drop_eq_nil, not_and_not_right]
      exact hrest
    rw [hf, hconv.read h hfits]
    simp only [Bool.false_eq_true, if_false, if_neg hrefuses, if_neg hzero, setWidth_ofInt hw]
  refused := by
    intro text n h hnot
    rw [hf]
    by_cases hfits : fits n.value
    swap
    · rw [if_pos (hconv.erange h hfits)]
    rw [hconv.read h hfits]
    by_cases hrefuses : refuses (BitVec.ofInt 64 n.value)
    · simp only [Bool.false_eq_true, if_false, if_pos hrefuses]
    · -- a zero with something behind it
      have hzero : BitVec.ofInt 64 n.value = 0 ∧ text.drop n.text.length ≠ [] := by
        rw [ofInt_eq_zero (hconv.bound hfits), ne_eq, h.drop_eq_nil, ← Classical.not_imp]
        exact fun hrest => hnot ⟨⟨hfits, hrefuses⟩, hrest⟩
      simp only [Bool.false_eq_true, if_false, if_neg hrefuses, if_pos hzero]

theorem strictSpec_strtoXStrict {strtoX : List Char → Strto 64} {fits : ℤ → Prop}
    (hconv : Reads strtoX fits) : StrictSpec (strtoXStrict strtoX) fits := by
  refine (strictSpec_of_reads hconv (fun _ => False) id (Nat.le_refl _) fun _ => ?_).congr
    fun _ => and_iff_left id
  rw [BitVec.setWidth_eq]
  rfl

theorem strictSpec_strtoXStrict2Int (hw : w ≤ 64) {min max : ℤ} (hmin : min ≤ 0) (hmax : 0 ≤ max)
    (hlow : -9223372036854775808 ≤ min) (hhigh : max ≤ 9223372036854775807) :
    StrictSpec (strtoXStrict2Int strtol w min max) fun v => min ≤ v ∧ v ≤ max := by
  refine (strictSpec_of_reads reads_strtol (fun v => max < v.toInt ∨ v.toInt < min)
    (by simp [hmin, hmax]) hw fun _ => rfl).congr fun v => ?_
  constructor
  · rintro ⟨hfits, hrefuses⟩
    rw [BitVec.toInt_ofInt_eq_self (by decide) (by omega) (by omega)] at hrefuses
    omega
  · intro hv
    rw [BitVec.toInt_ofInt_eq_self (by decide) (by omega) (by omega)]
    omega

theorem strictSpec_strtoXStrict2Uint (hw : w ≤ 64) (srcType : BitVec 64 → ℤ) {max : ℤ}
    (hzero : srcType 0 ≤ max) : StrictSpec (strtoXStrict2Uint strtoul srcType w max)
      fun v => v.natAbs < 2 ^ 64 ∧ srcType (BitVec.ofInt 64 v) ≤ max :=
  (strictSpec_of_reads reads_strtoul (fun v => max < srcType v) (not_lt.2 hzero) hw
    fun _ => rfl).congr fun _ => and_congr_right fun _ => not_lt

/-- Negative values are large after the conversion. -/
theorem unsignedLongInt_le {v : ℤ} (hv : v.natAbs < 2 ^ 64) {max : ℤ} (hmax : max < 2 ^ 64) :
    unsignedLongInt (BitVec.ofInt 64 v) ≤ max ↔ (0 ≤ v ∧ v ≤ max) ∨ (v < 0 ∧ v ≤ max - 2 ^ 64) := by
  rw [unsignedLongInt, BitVec.toNat_ofInt]
  omega

theorem longInt_le {v : ℤ} (hv : v.natAbs < 2 ^ 64) : longInt (BitVec.ofInt 64 v) ≤ 255 ↔
    v ≤ 255 - 2 ^ 64 ∨ (-2 ^ 63 ≤ v ∧ v ≤ 255) ∨ 2 ^ 63 ≤ v := by
  rw [longInt, BitVec.toInt_ofInt, Int.bmod_def]
  split <;> omega

end Macros

section Converters

variable {X : Converter} {s : Str} {n : Numeral}

/-- What a converter makes of a text. -/
theorem Converter.strictSpec (X : Converter) : StrictSpec X.strict X.Takes := by
  have hsigned : StrictSpec (strtoXStrict (strtoSigned 64)) Converter.imax.Takes :=
    (strictSpec_strtoXStrict reads_strtol).congr fun _ => (or_iff_left id).symm
  have hunsigned : StrictSpec (strtoXStrict (strtoUnsigned 64)) Converter.umax.Takes := by
    refine (strictSpec_strtoXStrict reads_strtoul).congr fun v => ?_
    show v.natAbs < 2 ^ 64 ↔ (0 ≤ v ∧ v ≤ 18446744073709551615) ∨ (-2 ^ 64 < v ∧ v < 0)
    omega
  cases X with
  | imax | l | ll => exact hsigned
  | umax | ul | ull => exact hunsigned
  | i | si | sc | c =>
    refine (strictSpec_strtoXStrict2Int (by decide) (by decide) (by decide) (by decide)
      (by decide)).congr fun _ => (or_iff_left id).symm
  | u =>
    refine (strictSpec_strtoXStrict2Uint (by decide) _ (by decide)).congr fun v => ?_
    show _ ↔ (0 ≤ v ∧ v ≤ 4294967295) ∨ (-2 ^ 64 < v ∧ v ≤ 4294967295 - 2 ^ 64)
    by_cases hv : v.natAbs < 2 ^ 64
    · rw [unsignedLongInt_le hv (by decide)]
      omega
    · omega
  | su =>
    refine (strictSpec_strtoXStrict2Uint (by decide) _ (by decide)).congr fun v => ?_
    show _ ↔ (0 ≤ v ∧ v ≤ 65535) ∨ (-2 ^ 64 < v ∧ v ≤ 65535 - 2 ^ 64)
    by_cases hv : v.natAbs < 2 ^ 64
    · rw [unsignedLongInt_le hv (by decide)]
      omega
    · omega
  | uc =>
    refine (strictSpec_strtoXStrict2Uint (by decide) _ (by decide)).congr fun v => ?_
    show _ ↔ (0 ≤ v ∧ v ≤ 255) ∨ ((-2 ^ 64 < v ∧ v ≤ 255 - 2 ^ 64) ∨ (-2 ^ 63 ≤ v ∧ v < 0) ∨
      (2 ^ 63 ≤ v ∧ v < 2 ^ 64))
    by_cases hv : v.natAbs < 2 ^ 64
    · rw [longInt_le hv]
      omega
    · omega

/-- The value of a type is stored as it is, and no other value is. -/
theorem Converter.toInt_member (X : Converter) (v : ℤ) :
    (X.member (BitVec.ofInt X.width v)).toInt = v ↔ X.InRange v := by
  have hsigned {w : ℕ} : (BitVec.ofInt w v).toInt = v ↔ v.bmod (2 ^ w) = v := by
    rw [BitVec.toInt_ofInt]
  have hunsigned {w : ℕ} :
      ((BitVec.ofInt w v).toNat : ℤ) = v ↔ v % ((2 ^ w : ℕ) : ℤ) = v := by
    have hpos : ((2 ^ w : ℕ) : ℤ) ≠ 0 := by exact_mod_cast (Nat.two_pow_pos w).ne'
    rw [BitVec.toNat_ofInt, Int.toNat_of_nonneg (Int.emod_nonneg v hpos)]
  cases X with
  | imax | l | ll | i | si | sc | c =>
    apply hsigned.trans
    simp only [Int.bmod_def, Converter.InRange, Converter.min, Converter.max]
    split <;> omega
  | umax | ul | ull | u | su | uc =>
    apply hunsigned.trans
    simp only [Converter.InRange, Converter.min, Converter.max]
    omega

/-- The empty string is taken for zero, and no other string without a numeral is accepted. -/
theorem cliConvert_of_none (h : ∀ n, ¬StartsWith (chars s) n) : cliConvert X s =
    if s = [] then some { data := X.member 0, dataFree := false } else none := by
  rw [cliConvert, X.strictSpec.none h]
  by_cases hs : s = []
  · rw [if_pos hs, if_pos (by simp [chars, hs])]
    rfl
  · rw [if_neg hs, if_neg (by simp [chars, hs])]
    rfl

/-- A string with a numeral at its start is accepted for a value that is let through, and if that
is zero, only with nothing behind the numeral. -/
theorem cliConvert_of_startsWith (h : StartsWith (chars s) n) :
    (X.Takes n.value ∧ (n.value = 0 → IsNumeral s n) ∧ cliConvert X s =
      some { data := X.member (BitVec.ofInt X.width n.value), dataFree := false }) ∨
    (¬(X.Takes n.value ∧ (n.value = 0 → IsNumeral s n)) ∧ cliConvert X s = none) := by
  by_cases htaken : X.Takes n.value ∧ (n.value = 0 → IsNumeral s n)
  · refine .inl ⟨htaken.1, htaken.2, ?_⟩
    rw [cliConvert, X.strictSpec.taken h htaken.1 htaken.2]
    rfl
  · refine .inr ⟨htaken, ?_⟩
    rw [cliConvert, X.strictSpec.refused h htaken]
    rfl

end Converters

section Conversion

/-- For every converter and every string: only numerals are accepted, and all of them that fit,
exactly if the string is not empty and has nothing behind a numeral whose value is let through and
is not zero. -/
theorem onlyNumerals_iff (X : Converter) (s : Str) : OnlyNumerals X s ↔
    s ≠ [] ∧ ∀ n, StartsWith (chars s) n → ¬IsNumeral s n → n.value = 0 ∨ ¬X.Takes n.value := by
  have hnil : s = [] → ∀ n, ¬StartsWith (chars s) n := by
    rintro rfl n ⟨rest, htext, -⟩
    exact n.text_ne_nil (List.append_eq_nil_iff.1 htext.symm).1
  constructor
  · intro h
    constructor
    · intro hs
      obtain ⟨n, hn⟩ := h.only _ ((cliConvert_of_none (hnil hs)).trans (if_pos hs))
      exact hnil hs n (hn ▸ startsWith_text n)
    · intro n hn hrest
      rcases cliConvert_of_startsWith (X := X) hn with ⟨-, -, haccept⟩ | ⟨hrefused, -⟩
      · -- the numeral that it would have to be is the one at its start
        obtain ⟨m, hm⟩ := h.only _ haccept
        obtain rfl := startsWith_unique hn (hm ▸ startsWith_text m)
        exact absurd hm hrest
      · by_contra hneither
        rw [not_or, not_not] at hneither
        exact hrefused ⟨hneither.2, fun hzero => absurd hzero hneither.1⟩
  · rintro ⟨hs, hclean⟩
    constructor
    · intro arg haccept
      by_cases hnone : ∀ n, ¬StartsWith (chars s) n
      · rw [cliConvert_of_none hnone, if_neg hs] at haccept
        cases haccept
      · obtain ⟨n, hn⟩ := not_forall_not.1 hnone
        refine ⟨n, ?_⟩
        by_contra hrest
        rcases cliConvert_of_startsWith (X := X) hn with ⟨htakes, hzero, -⟩ | ⟨-, hrefused⟩
        · rcases hclean n hn hrest with hvalue | hnot
          · exact hrest (hzero hvalue)
          · exact hnot htakes
        · rw [hrefused] at haccept
          cases haccept
    · intro n hn hrange
      rcases cliConvert_of_startsWith (X := X) (hn ▸ startsWith_text n) with
        ⟨-, -, haccept⟩ | ⟨hrefused, -⟩
      · exact ⟨_, haccept⟩
      · exact absurd ⟨.inl hrange, fun _ => hn⟩ hrefused

/-- The parser of the option for the port takes a number with a letter behind it. -/
theorem not_onlyNumerals_trailing : ¬∀ (X : Converter) (s : Str), OnlyNumerals X s := by
  intro h
  have haccept : (cliConvert .su (str "8080x")).isSome = true := by decide
  obtain ⟨arg, harg⟩ := Option.isSome_iff_exists.1 haccept
  obtain ⟨n, hn⟩ := (h .su (str "8080x")).only arg harg
  -- the numeral at the start of the string ends before the letter
  have hscan : (Decimal.scan true (chars (str "8080x"))).map Numeral.text =
      some "8080".toList := by decide
  rw [scan_eq_some.2 (hn ▸ startsWith_text n), Option.map_some, ← show chars _ = n.text from hn]
    at hscan
  exact absurd hscan (by decide)

/-- For every converter and every string: what is stored is the value of the numeral that was read
exactly if that is no value that wraps. -/
theorem storesValue_iff (X : Converter) (s : Str) :
    StoresValue X s ↔ ∀ n, StartsWith (chars s) n → ¬X.Wraps n.value := by
  have hrange {v : ℤ} (hwraps : X.Wraps v) : v ≠ 0 ∧ ¬X.InRange v := by
    cases X with
    | imax | l | ll | i | si | sc | c => exact hwraps.elim
    | umax | ul | ull | u | su | uc =>
      simp only [Converter.Wraps] at hwraps
      simp only [Converter.InRange, Converter.min, Converter.max]
      omega
  constructor
  · intro h n hn hwraps
    obtain ⟨hne, hnot⟩ := hrange hwraps
    rcases cliConvert_of_startsWith (X := X) hn with ⟨-, -, haccept⟩ | ⟨hrefused, -⟩
    · exact hnot ((X.toInt_member _).1 (h.value _ haccept n hn))
    · exact hrefused ⟨.inr hwraps, fun hzero => absurd hzero hne⟩
  · intro hclean
    constructor
    · intro arg haccept n hn
      rcases cliConvert_of_startsWith (X := X) hn with ⟨htakes, -, hcall⟩ | ⟨-, hcall⟩
      · obtain rfl := Option.some.inj (hcall.symm.trans haccept)
        exact (X.toInt_member _).2 (htakes.resolve_right (hclean n hn))
      · cases hcall.symm.trans haccept
    · intro arg haccept hnone
      rw [cliConvert_of_none hnone] at haccept
      split at haccept
      · obtain rfl := Option.some.inj haccept
        cases X <;> rfl
      · cases haccept

/-- The converter for an `unsigned char` takes a negative number. -/
theorem not_storesValue_negative : ¬∀ (X : Converter) (s : Str), StoresValue X s := by
  intro h
  have hstored : (cliConvert .uc (str "-5")).map (·.data.toInt) = some 251 := by decide
  have hscan : (Decimal.scan true (chars (str "-5"))).map Numeral.value = some (-5) := by decide
  obtain ⟨arg, harg, hvalue⟩ := Option.map_eq_some_iff.1 hstored
  obtain ⟨n, hn, hfive⟩ := Option.map_eq_some_iff.1 hscan
  have heq := (h .uc (str "-5")).value arg harg n (scan_eq_some.1 hn)
  rw [hvalue, hfive] at heq
  exact absurd heq (by decide)

end Conversion

end Qkmetisc.CommandLine
