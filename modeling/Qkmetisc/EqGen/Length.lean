import Mathlib.Algebra.Group.Nat.Defs
import Qkmetisc.EqGen.Generate

/-!
# The length of a generated equation (`rand_eq_len`)

The length is drawn at random from a range and then made odd. All arithmetic is on `int`, which
must not overflow. The correction goes one down from any even length but the upper bound, and one
up from the upper bound, so that it leaves the range at either end.

## Main definitions

* `randEqLenInt`: `rand_eq_len` with every result of an operation checked to be an `int`.
* `LengthsInRange`: what is asked of a length.

## Main results

* `randEqLenInt_eq`: nothing overflows.
* `lengthsInRange_iff`: when the length is in the range.
-/

namespace Qkmetisc.EqGen

/-- The result of an operation on `int`; none where it overflows. -/
def toInt? (x : ℤ) : Option ℤ := if -2 ^ 31 ≤ x ∧ x < 2 ^ 31 then some x else none

/-- `%` on `int`, for the remainder with the sign of the dividend; none where it divides by zero or
overflows. -/
def tmod? (x y : ℤ) : Option ℤ :=
  if y = 0 ∨ x = -2 ^ 31 ∧ y = -1 then none else some (x.tmod y)

/-- `rand_eq_len` on `int`; none where an operation overflows or divides by zero. -/
def randEqLenInt (minlen maxlen : BitVec 32) (rand : Fin (2 ^ 31)) : Option ℤ :=
  let minlen := if minlen.toInt ≤ 0 then 1 else minlen.toInt
  let maxlen := if maxlen.toInt ≤ 0 then randMax else maxlen.toInt
  if minlen > maxlen then some 0
  else do
    let span ← toInt? (maxlen - minlen)
    let span ← toInt? (span + 1)
    let offset ← tmod? rand.val span
    let chainLen ← toInt? (offset + minlen)
    -- chain_len can be only odd
    if (← tmod? chainLen 2) = 0 then
      if chainLen ≠ maxlen then toInt? (chainLen - 1)
      else if chainLen ≠ minlen then toInt? (chainLen + 1)
      else return 0
    else return chainLen

/-- The lower bound `rand_eq_len` works with. -/
def lowerBound (minlen : BitVec 32) : ℤ := if minlen.toInt ≤ 0 then 1 else minlen.toInt

/-- The upper bound `rand_eq_len` works with. -/
def upperBound (maxlen : BitVec 32) : ℤ := if maxlen.toInt ≤ 0 then randMax else maxlen.toInt

/-- For these arguments and this result of `rand()`, `rand_eq_len` computes without overflow and
returns an odd length in the range, or 0 if no length in the range is odd; and an equation
returned by `eq_generate` has a length in the range. -/
structure LengthsInRange (minlen maxlen : BitVec 32) (rand : Fin (2 ^ 31)) : Prop where
  returns : ∃ n, randEqLenInt minlen maxlen rand = some n ∧
    (n % 2 = 1 ∧ lowerBound minlen ≤ n ∧ n ≤ upperBound maxlen ∨
      n = 0 ∧ ∀ m, lowerBound minlen ≤ m → m ≤ upperBound maxlen → m % 2 = 0)
  generates : ∀ max flags env eq, env.rand 0 = rand.val →
    eqGenerate minlen.toInt maxlen.toInt max flags env = .ok (some eq) →
    lowerBound minlen ≤ eq.length ∧ eq.length ≤ upperBound maxlen

variable {minlen maxlen : BitVec 32} {rand : Fin (2 ^ 31)} {lo hi : ℤ}

/-- The bounds are positive and are `int`s. -/
theorem lowerBound_pos (minlen : BitVec 32) : 1 ≤ lowerBound minlen := by
  unfold lowerBound
  split <;> omega

theorem upperBound_lt (maxlen : BitVec 32) : upperBound maxlen < 2 ^ 31 := by
  unfold upperBound
  split
  · decide
  · have hlt := BitVec.toInt_lt (x := maxlen)
    simpa using hlt

/-- Where neither bound is too large, no operation overflows. -/
theorem toInt?_eq {x : ℤ} (hlo : -2 ^ 31 ≤ x) (hhi : x < 2 ^ 31) : toInt? x = some x :=
  if_pos ⟨hlo, hhi⟩

theorem tmod?_eq {x y : ℤ} (hx : 0 ≤ x) (hy : 0 < y) : tmod? x y = some (x % y) := by
  have hy' : ¬ (y = 0 ∨ x = -2 ^ 31 ∧ y = -1) := by omega
  rw [tmod?, if_neg hy', Int.tmod_eq_emod_of_nonneg hx]

/-- The length before it is made odd. -/
theorem offset_lt (h : lo ≤ hi) (r : ℕ) :
    0 ≤ (r : ℤ) % (hi - lo + 1) ∧ (r : ℤ) % (hi - lo + 1) ≤ hi - lo := by
  have hpos : 0 < hi - lo + 1 := by omega
  have hlt := Int.emod_lt_of_pos (r : ℤ) hpos
  exact ⟨Int.emod_nonneg _ (by omega), by omega⟩

/-- `rand_eq_len` over the integers, in terms of its bounds. -/
theorem randEqLen_eq (minlen maxlen : BitVec 32) (r : ℕ) :
    randEqLen minlen.toInt maxlen.toInt r =
      if lowerBound minlen > upperBound maxlen then 0
      else
        let chainLen := r % (upperBound maxlen - lowerBound minlen + 1) + lowerBound minlen
        if chainLen % 2 = 0 then
          if chainLen ≠ upperBound maxlen then chainLen - 1
          else if chainLen ≠ lowerBound minlen then chainLen + 1
          else 0
        else chainLen := rfl

/-- Nothing overflows, and what is computed is what the same operations give over the integers. -/
theorem randEqLenInt_eq (minlen maxlen : BitVec 32) (rand : Fin (2 ^ 31)) :
    randEqLenInt minlen maxlen rand = some (randEqLen minlen.toInt maxlen.toInt rand) := by
  have hint : randEqLenInt minlen maxlen rand =
      if lowerBound minlen > upperBound maxlen then some 0
      else do
        let span ← toInt? (upperBound maxlen - lowerBound minlen)
        let span ← toInt? (span + 1)
        let offset ← tmod? rand.val span
        let chainLen ← toInt? (offset + lowerBound minlen)
        if (← tmod? chainLen 2) = 0 then
          if chainLen ≠ upperBound maxlen then toInt? (chainLen - 1)
          else if chainLen ≠ lowerBound minlen then toInt? (chainLen + 1)
          else return 0
        else return chainLen := rfl
  rw [hint, randEqLen_eq]
  have hlo := lowerBound_pos minlen
  have hhi := upperBound_lt maxlen
  generalize lowerBound minlen = lo at hlo ⊢
  generalize upperBound maxlen = hi at hhi ⊢
  by_cases hle : lo > hi
  · rw [if_pos hle, if_pos hle]
  · rw [if_neg hle, if_neg hle]
    obtain ⟨hnn, hoffset⟩ := offset_lt (Int.not_lt.1 hle) rand.val
    have hspan : toInt? (hi - lo) = some (hi - lo) := toInt?_eq (by omega) (by omega)
    have hspan1 : toInt? (hi - lo + 1) = some (hi - lo + 1) := toInt?_eq (by omega) (by omega)
    have hmod : tmod? (rand.val : ℤ) (hi - lo + 1) = some (rand.val % (hi - lo + 1)) :=
      tmod?_eq (by omega) (by omega)
    -- the length drawn is between the bounds
    simp only [hspan, hspan1, hmod, Option.bind_eq_bind, Option.bind_some]
    generalize (rand.val : ℤ) % (hi - lo + 1) = offset at hnn hoffset ⊢
    have hlen : toInt? (offset + lo) = some (offset + lo) := toInt?_eq (by omega) (by omega)
    have hparity : tmod? (offset + lo) 2 = some ((offset + lo) % 2) :=
      tmod?_eq (by omega) (by omega)
    have hdown : toInt? (offset + lo - 1) = some (offset + lo - 1) :=
      toInt?_eq (by omega) (by omega)
    simp only [hlen, hparity, hdown, Option.bind_some]
    split
    · split
      · rfl
      · -- an even upper bound is not the largest `int`
        have hup : toInt? (offset + lo + 1) = some (offset + lo + 1) :=
          toInt?_eq (by omega) (by omega)
        rw [hup]
        split <;> rfl
    · rfl

/-- The remainder is the largest one where the divisor divides the next number. -/
theorem dvd_succ_iff {m : ℤ} (hm : 0 < m) (r : ℤ) : m ∣ r + 1 ↔ r % m = m - 1 := by
  have hnn : 0 ≤ r % m := Int.emod_nonneg r (by omega)
  have hlt := Int.emod_lt_of_pos r hm
  rw [Int.dvd_iff_emod_eq_zero, ← Int.emod_add_emod]
  by_cases h : r % m + 1 = m
  · rw [h, Int.emod_self]
    omega
  · rw [Int.emod_eq_of_lt (by omega) (by omega)]
    omega

/-- The length drawn is an even end of a range with two ends. -/
def DrawsEvenEnd (lo hi : ℤ) (rand : Fin (2 ^ 31)) : Prop :=
  lo < hi ∧ (lo % 2 = 0 ∧ hi - lo + 1 ∣ (rand.val : ℤ) ∨
    hi % 2 = 0 ∧ hi - lo + 1 ∣ (rand.val : ℤ) + 1)

/-- The length that is returned is right unless an even end was drawn. -/
theorem randEqLen_inRange_iff (minlen maxlen : BitVec 32) (rand : Fin (2 ^ 31)) :
    (randEqLen minlen.toInt maxlen.toInt rand.val % 2 = 1 ∧
        lowerBound minlen ≤ randEqLen minlen.toInt maxlen.toInt rand.val ∧
        randEqLen minlen.toInt maxlen.toInt rand.val ≤ upperBound maxlen ∨
      randEqLen minlen.toInt maxlen.toInt rand.val = 0 ∧
        ∀ m, lowerBound minlen ≤ m → m ≤ upperBound maxlen → m % 2 = 0) ↔
      ¬ DrawsEvenEnd (lowerBound minlen) (upperBound maxlen) rand := by
  rw [randEqLen_eq, DrawsEvenEnd]
  have hlo := lowerBound_pos minlen
  generalize lowerBound minlen = lo at hlo ⊢
  generalize upperBound maxlen = hi
  by_cases hle : lo > hi
  · -- the range is empty
    rw [if_pos hle]
    refine iff_of_true (.inr ⟨rfl, fun m hm hm' => ?_⟩) fun hend => ?_
    · omega
    · omega
  · rw [if_neg hle]
    obtain ⟨hnn, hoffset⟩ := offset_lt (Int.not_lt.1 hle) rand.val
    rw [Int.dvd_iff_emod_eq_zero, dvd_succ_iff (by omega)]
    generalize (rand.val : ℤ) % (hi - lo + 1) = offset at hnn hoffset ⊢
    dsimp only
    by_cases heven : (offset + lo) % 2 = 0
    · rw [if_pos heven]
      by_cases hmax : offset + lo ≠ hi
      · -- one down, which is too low from the lower bound
        rw [if_pos hmax]
        constructor
        · rintro (hin | ⟨hzero, -⟩)
          · omega
          · omega
        · intro hend
          exact .inl (by omega)
      · rw [if_neg hmax]
        by_cases hmin : offset + lo ≠ lo
        · -- one up, which is too high from the upper bound
          rw [if_pos hmin]
          constructor
          · rintro (hin | ⟨hzero, -⟩)
            · omega
            · omega
          · intro hend
            omega
        · -- the only length in the range is even
          rw [if_neg hmin]
          refine iff_of_true (.inr ⟨rfl, fun m hm hm' => ?_⟩) fun hend => ?_
          · obtain rfl : m = offset + lo := by omega
            exact heven
          · omega
    · rw [if_neg heven]
      refine iff_of_true (.inl ?_) fun hend => ?_
      · omega
      · omega

/-- The length is an odd one in the range, or 0 for a range without odd lengths, exactly if an
even end of the range is not drawn while the range has another end. -/
theorem lengthsInRange_iff (minlen maxlen : BitVec 32) (rand : Fin (2 ^ 31)) :
    LengthsInRange minlen maxlen rand ↔
      ¬ DrawsEvenEnd (lowerBound minlen) (upperBound maxlen) rand := by
  rw [← randEqLen_inRange_iff]
  constructor
  · rintro ⟨⟨n, hn, hrange⟩, -⟩
    rw [randEqLenInt_eq] at hn
    obtain rfl := Option.some.inj hn
    exact hrange
  · intro hrange
    refine ⟨⟨_, randEqLenInt_eq minlen maxlen rand, hrange⟩, fun max flags env eq hrand heq => ?_⟩
    obtain ⟨hne, hlength, -⟩ := eqGenerate_spec heq
    rw [hrand] at hne hlength
    -- an equation is only returned for a length that is not 0
    rcases hrange with ⟨-, hlo, hhi⟩ | ⟨hzero, -⟩
    · have hpos := lowerBound_pos minlen
      rw [hlength, Int.toNat_of_nonneg (by omega)]
      exact ⟨hlo, hhi⟩
    · exact absurd hzero hne

/-- A range from 2 to 3 gives a single element where the lower end is drawn. -/
theorem not_lengthsInRange_two_three :
    ¬ ∀ minlen maxlen rand, LengthsInRange minlen maxlen rand := by
  intro hall
  obtain ⟨⟨n, hn, hrange⟩, -⟩ := hall 2 3 0
  have hone : randEqLenInt 2 3 0 = some 1 := by decide
  obtain rfl : n = 1 := Option.some.inj (hn.symm.trans hone)
  have hlow : lowerBound 2 = 2 := by decide
  omega

end Qkmetisc.EqGen
