import Qkmetisc.Plots.Linear
import Mathlib.Algebra.Group.Nat.Defs

/-!
# The timeout of a task (`linear_plot_template.c`)

`linear_plot_get_task` computes the timeout of a task as
`timeout_base - task_count * timeout_dec` in `unsigned long` and then asserts that the result is at
least `timeout_base`, as an overflow check. Both operations wrap, and the assertion only sees what
is left.

## Main results

* `le_sub_self_iff`: a wrapping difference is at least its minuend exactly if nothing was taken
  away or the subtraction wrapped.
* `linearPlotGetTask_assert_iff`: when the assertion fails, for every member.
* `timeoutAssert_exact_iff`: for which members this is the overflow check it means to be.
-/

namespace Qkmetisc.Plots

section Wrapping

variable {w : ℕ}

/-- A wrapping difference does not get smaller exactly if nothing was taken away or the subtraction
wrapped. -/
theorem le_sub_self_iff (x y : BitVec w) : x ≤ x - y ↔ y.toNat = 0 ∨ x.toNat < y.toNat := by
  have hx := x.isLt
  have hy := y.isLt
  rw [BitVec.le_def, BitVec.toNat_sub]
  by_cases hle : y.toNat ≤ x.toNat
  · -- no wrap: the difference is the exact one
    have hsplit : 2 ^ w - y.toNat + x.toNat = 2 ^ w + (x.toNat - y.toNat) := by omega
    rw [hsplit, Nat.add_mod_left, Nat.mod_eq_of_lt (by omega)]
    omega
  · rw [Nat.mod_eq_of_lt (by omega)]
    omega

end Wrapping

variable {γ : Type*}

/-- `cur_member->task_count * cur_member->timeout_dec`, as an exact number. -/
def LinearPlotMember.decrement (m : LinearPlotMember γ) : ℕ :=
  m.taskCount.toNat * m.timeoutDec.toNat

/-- What the source computes for it wraps modulo `2 ^ 64`. -/
theorem toNat_taskCount_mul (m : LinearPlotMember γ) :
    (m.taskCount.setWidth 64 * m.timeoutDec).toNat = m.decrement % 2 ^ 64 := by
  have hlt := m.taskCount.isLt
  have hcount : m.taskCount.toNat < 2 ^ 64 := by omega
  rw [BitVec.toNat_mul, BitVec.toNat_setWidth, Nat.mod_eq_of_lt hcount]
  rfl

/-- The call has made a task of the member `m`, with the assertion on its timeout next. -/
structure ReachesTimeout (s : PlotState γ) (m : LinearPlotMember γ) (generate malloc : Bool) :
    Prop where
  member : s.priv.members[s.priv.curMemberIndex]? = some m
  tasksLeft : s.priv.curTaskNr < m.taskCount
  live : m.gen ∉ s.destroyed
  generated : generate = true
  allocated : malloc = true

variable [DecidableEq γ] {s : PlotState γ} {m : LinearPlotMember γ} {generate malloc : Bool}

/-- The assertion fails exactly if the wrapped product is positive and at most the base. -/
theorem linearPlotGetTask_assert_iff (h : ReachesTimeout s m generate malloc) :
    linearPlotGetTask false s generate malloc = .error .assertFailed ↔
      0 < m.decrement % 2 ^ 64 ∧ m.decrement % 2 ^ 64 ≤ m.timeoutBase.toNat := by
  obtain ⟨hm, hnr, hlive, rfl, rfl⟩ := h
  have hindex := curMemberIndex_ne_length hm
  have hcheck : ¬m.timeoutBase ≤ m.timeoutBase - m.taskCount.setWidth 64 * m.timeoutDec ↔
      0 < m.decrement % 2 ^ 64 ∧ m.decrement % 2 ^ 64 ≤ m.timeoutBase.toNat := by
    rw [le_sub_self_iff, toNat_taskCount_mul]
    omega
  rw [← hcheck]
  -- everything before the assertion lets the call pass
  simp only [linearPlotGetTask, if_neg hindex, hm, hnr, not_true_eq_false, and_false, if_false,
    if_neg hlive, Bool.true_eq_false, true_and]
  by_cases hpasses : m.timeoutBase ≤ m.timeoutBase - m.taskCount.setWidth 64 * m.timeoutDec
  · -- the call goes on and returns, whether or not the member is done
    rw [if_neg (not_not_intro hpasses)]
    constructor
    · intro hfault
      split at hfault <;> cases hfault
    · intro hfails
      exact absurd hpasses hfails
  · rw [if_pos hpasses]
    exact iff_of_true rfl hpasses

/-- The assertion on the timeout fails exactly when `task_count * timeout_dec` exceeds
`timeout_base`, as it is meant to, only for two kinds of members: those whose product is zero, and
those whose product overflows `unsigned long` and wraps to a positive number that is at most the
base. It stops every other product up to the base and lets every other one above it pass. -/
theorem timeoutAssert_exact_iff (h : ReachesTimeout s m generate malloc) :
    (linearPlotGetTask false s generate malloc = .error .assertFailed ↔
        m.timeoutBase.toNat < m.taskCount.toNat * m.timeoutDec.toNat) ↔
      m.taskCount.toNat * m.timeoutDec.toNat = 0 ∨
        2 ^ 64 ≤ m.taskCount.toNat * m.timeoutDec.toNat ∧
          0 < m.taskCount.toNat * m.timeoutDec.toNat % 2 ^ 64 ∧
          m.taskCount.toNat * m.timeoutDec.toNat % 2 ^ 64 ≤ m.timeoutBase.toNat := by
  have hbase := m.timeoutBase.isLt
  rw [linearPlotGetTask_assert_iff h, LinearPlotMember.decrement]
  generalize m.taskCount.toNat * m.timeoutDec.toNat = product
  by_cases hwrap : 2 ^ 64 ≤ product
  · -- the product exceeds every base, so the assertion has to fail
    have hexceeds : m.timeoutBase.toNat < product := by omega
    simp only [hexceeds, iff_true, hwrap, true_and]
    omega
  · rw [Nat.mod_eq_of_lt (by omega)]
    omega

/-- A member whose product, 4 times `2 ^ 62 + 1`, is 4 modulo `2 ^ 64`. -/
def wrappingMember : LinearPlotMember ℕ where
  gen := 0
  taskCount := 4
  timeoutBase := 7
  timeoutDec := 0x4000000000000001

/-- It is stopped, as it has to be, and a member without a decrement is served. -/
theorem timeoutAssert_exact_wraps :
    (linearPlotGetTask false (⟨⟨[wrappingMember], 0, 0⟩, []⟩ : PlotState ℕ) true true =
        .error .assertFailed ↔
      wrappingMember.timeoutBase.toNat <
        wrappingMember.taskCount.toNat * wrappingMember.timeoutDec.toNat) ∧
    (linearPlotGetTask false (⟨⟨[⟨7, 3, 10000, 0⟩], 0, 0⟩, []⟩ : PlotState ℕ) true true =
        .error .assertFailed ↔
      10000 < 3 * 0) :=
  ⟨(timeoutAssert_exact_iff (m := wrappingMember) ⟨rfl, by decide, by decide, rfl, rfl⟩).2
      (Or.inr (by decide +kernel)),
    (timeoutAssert_exact_iff (m := ⟨7, 3, 10000, 0⟩) ⟨rfl, by decide, by decide, rfl, rfl⟩).2
      (Or.inl rfl)⟩

/-- The first member of the plot of the repository, whose timeout is `10000 - 20 * 100`, is stopped
by the assertion. -/
theorem not_timeoutAssert_exact :
    ¬∀ (s : PlotState ℕ) (m : LinearPlotMember ℕ), ReachesTimeout s m true true →
      (linearPlotGetTask false s true true = .error .assertFailed ↔
        m.timeoutBase.toNat < m.taskCount.toNat * m.timeoutDec.toNat) := by
  intro hall
  have hexact := hall ⟨⟨copyMembers (trollEqPlotMembers 0 1 2), 0, 0⟩, []⟩ ⟨0, 20, 10000, 100⟩
    ⟨rfl, by decide, by decide, rfl, rfl⟩
  exact absurd (hexact.1 (by rfl)) (by decide)

end Qkmetisc.Plots
