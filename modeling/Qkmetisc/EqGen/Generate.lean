import Qkmetisc.Foundations.Bitmask
import Qkmetisc.Foundations.Expression

/-!
# Generation of equations (`eq_generate`)

The random generator of `eq.c`. An equation is a list of elements; the generator appends one
element at a time, of a kind chosen at random among those the budget counters leave possible.

## Main definitions

* `Env`: what the C library and GMP answer during one call.
* `bitmaskChoose`, `eqElemGen`, `randEqLen`, `eqFlagsToGenFlags`, `eqGenerate`: the functions of
  the source, the loop of the last one being `eqGenerateLoop` over `GenState`.
* `Budget`: the invariant of the loop.

## Main results

* `eqElemGen_spec`: an element is of one of the kinds in the flags it was asked for.
* `Budget.step`: one round of the loop keeps the invariant.
* `eqGenerateLoop_derivable`: the loop never runs out of kinds and returns a sentence of the
  grammar, of the length asked for and within the flags.
-/

open Arith

namespace Qkmetisc.EqGen

/-- `struct eq_elem`: an operator, a number or a bracket. -/
abbrev EqElem := Token ℤ

/-- `eq_flags_t`, an `unsigned`. -/
abbrev EqFlags := BitVec 32

/-- `EQ_ELEM_SUM`. -/
def eqElemSum : EqFlags := 1 <<< 0

/-- `EQ_ELEM_SUB`. -/
def eqElemSub : EqFlags := 1 <<< 1

/-- `EQ_ELEM_MUL`. -/
def eqElemMul : EqFlags := 1 <<< 2

/-- `EQ_ELEM_OPS`: all three operators. -/
def eqElemOps : EqFlags := (eqElemMul <<< 1) - eqElemSum

/-- `EQ_ELEM_BRACES`. -/
def eqElemBraces : EqFlags := 1 <<< 3

/-- `eq_elem_gen_flags_t`, an `unsigned`. -/
abbrev GenFlags := BitVec 32

/-- `EQ_GEN_OP_SUM`. -/
def eqGenOpSum : GenFlags := 1 <<< 0

/-- `EQ_GEN_OP_SUB`. -/
def eqGenOpSub : GenFlags := 1 <<< 1

/-- `EQ_GEN_OP_MUL`. -/
def eqGenOpMul : GenFlags := 1 <<< 2

/-- `EQ_GEN_OP_ALL`. -/
def eqGenOpAll : GenFlags := (eqGenOpMul <<< 1) - eqGenOpSum

/-- `EQ_GEN_BR_L`. -/
def eqGenBrL : GenFlags := 1 <<< 3

/-- `EQ_GEN_BR_R`. -/
def eqGenBrR : GenFlags := 1 <<< 4

/-- `EQ_GEN_NR`. -/
def eqGenNr : GenFlags := 1 <<< 5

/-- How a call can end without returning: a failed assertion, or `mpz_urandomm` dividing by a
bound of zero. -/
inductive GenFault where
  | assertFailed
  | divideByZero
  deriving Repr, DecidableEq

/-- What the C library and GMP answer during one call of `eq_generate`. -/
structure Env where
  /-- The results of the calls of `rand()`, in order. -/
  rand : ℕ → ℕ
  /-- The numbers `mpz_urandomm` draws before it reduces them below its bound, in order. -/
  urandom : ℕ → ℕ
  /-- Which calls of `malloc` succeed, in order. -/
  malloc : ℕ → Bool

/-- `bitmask_choose`: one of the bits set in `bitmask`, `rand` being the result of the call of
`rand()`. -/
def bitmaskChoose (bitmask : GenFlags) (rand : ℕ) : Except GenFault GenFlags :=
  if Bitmask.popcount bitmask = 0 then
    .error .assertFailed  -- flags shouldn't be zero
  else
    let index := rand % Bitmask.popcount bitmask
    let mask := Bitmask.clearLowest^[index] bitmask
    .ok (1#32 <<< (Bitmask.ffs mask - 1))

/-- `eq_elem_gen`: an element of a kind chosen among `flags`, none if `malloc` fails. -/
def eqElemGen (flags : GenFlags) (max : ℕ) (rand urandom : ℕ) (malloc : Bool) :
    Except GenFault (Option EqElem) :=
  match bitmaskChoose flags rand with
  | .error e => .error e
  | .ok chosen =>
    if malloc = false then .ok none
    else if chosen = eqGenOpSum then .ok (some (.op .sum))
    else if chosen = eqGenOpSub then .ok (some (.op .sub))
    else if chosen = eqGenOpMul then .ok (some (.op .mul))
    else if chosen = eqGenBrL then .ok (some (.br .l))
    else if chosen = eqGenBrR then .ok (some (.br .r))
    else if chosen = eqGenNr then
      if max = 0 then .error .divideByZero
      else .ok (some (.nr (urandom % max : ℕ)))
    else .error .assertFailed

/-- `RAND_MAX` of the GNU C library. -/
def randMax : ℤ := 2147483647

/-- `rand_eq_len`. -/
def randEqLen (minlen maxlen : ℤ) (rand : ℕ) : ℤ :=
  let minlen := if minlen ≤ 0 then 1 else minlen
  let maxlen := if maxlen ≤ 0 then randMax else maxlen
  if minlen > maxlen then 0
  else
    let chainLen := rand % (maxlen - minlen + 1) + minlen
    -- chain_len can be only odd
    if chainLen % 2 = 0 then
      if chainLen ≠ maxlen then chainLen - 1
      else if chainLen ≠ minlen then chainLen + 1
      else 0
    else chainLen

/-- `eq_flags_to_gen_flags`. -/
def eqFlagsToGenFlags (flags : EqFlags) : GenFlags :=
  if flags &&& eqElemOps = 0 then 0  -- no ops specified
  else
    (if flags &&& eqElemSum ≠ 0 then eqGenOpSum else 0) |||
    (if flags &&& eqElemSub ≠ 0 then eqGenOpSub else 0) |||
    (if flags &&& eqElemMul ≠ 0 then eqGenOpMul else 0) |||
    (if flags &&& eqElemBraces ≠ 0 then eqGenBrL ||| eqGenBrR else 0)

/-- The local variables of `eq_generate` that its loop updates: what is left of each kind, and
which kinds may come next. -/
structure GenState where
  /-- `br_l_avail`. -/
  brLAvail : ℤ
  /-- `br_r_avail`. -/
  brRAvail : ℤ
  /-- `op_avail`. -/
  opAvail : ℤ
  /-- `nr_avail`. -/
  nrAvail : ℤ
  /-- `br_l_possible`. -/
  brLPossible : Bool
  /-- `br_r_possible`. -/
  brRPossible : Bool
  /-- `op_possible`. -/
  opPossible : Bool
  /-- `nr_possible`. -/
  nrPossible : Bool

/-- The variables before the loop. -/
def GenState.init (chainLen : ℕ) : GenState where
  brLAvail := (chainLen / 2 : ℕ)
  brRAvail := 0
  opAvail := (chainLen / 2 : ℕ)
  nrAvail := (chainLen / 2 : ℕ) + 1
  brLPossible := decide (0 < chainLen / 2)
  brRPossible := false
  opPossible := false
  nrPossible := true

/-- The kinds the loop asks for in a round. -/
def GenState.flags (s : GenState) (allowed : GenFlags) : GenFlags :=
  let flags := (if s.brLPossible then eqGenBrL else 0) |||
    (if s.brRPossible then eqGenBrR else 0) ||| (if s.opPossible then eqGenOpAll else 0)
  -- nr is always allowed
  (flags &&& allowed) ||| (if s.nrPossible then eqGenNr else 0)

/-- The bookkeeping of a round, after the element `new`. -/
def GenState.account (s : GenState) : EqElem → GenState
  | .op _ =>
    { s with
      opAvail := s.opAvail - 1
      brLPossible := decide (0 < s.brLAvail)
      brRPossible := false
      opPossible := false
      nrPossible := decide (0 < s.nrAvail) }
  | .br .l =>
    { brLAvail := s.brLAvail - 1
      brRAvail := s.brRAvail + 1
      nrAvail := s.nrAvail - 1
      opAvail := s.opAvail - 1  -- reserve space for right brace
      brLPossible := decide (0 < s.brLAvail - 1)
      brRPossible := false
      opPossible := false
      nrPossible := decide (0 < s.nrAvail - 1) }
  | .br .r =>
    { s with
      brRAvail := s.brRAvail - 1
      brLPossible := false
      brRPossible := decide (0 < s.brRAvail - 1)
      opPossible := decide (0 < s.opAvail)
      nrPossible := false }
  | .nr _ =>
    { s with
      nrAvail := s.nrAvail - 1
      brLAvail := s.brLAvail - 1
      brLPossible := false
      brRPossible := decide (0 < s.brRAvail)
      opPossible := decide (0 < s.opAvail)
      nrPossible := false }

/-- The loop of `eq_generate`: `k` rounds to go, `i` being the current one and `chain` the
elements so far. The call that fails to allocate an element ends in `fallback`, which destroys
the chain. -/
def eqGenerateLoop (allowed : GenFlags) (max : ℕ) (env : Env) :
    ℕ → ℕ → GenState → List EqElem → Except GenFault (Option (List EqElem))
  | 0, _, _, chain => .ok (some chain)
  | k + 1, i, s, chain =>
    match eqElemGen (s.flags allowed) max (env.rand (i + 1)) (env.urandom i)
        (env.malloc (i + 1)) with
    | .error e => .error e
    | .ok none => .ok none
    | .ok (some new) =>
      eqGenerateLoop allowed max env k (i + 1) (s.account new) (chain ++ [new])

/-- `eq_generate`: a random equation, none for `NULL`. -/
def eqGenerate (minlen maxlen : ℤ) (max : ℕ) (allowedOps : EqFlags) (env : Env) :
    Except GenFault (Option (List EqElem)) :=
  let allowed := eqFlagsToGenFlags allowedOps
  if allowed = 0 then .ok none
  else
    let chainLen := randEqLen minlen maxlen (env.rand 0)
    if chainLen = 0 then .ok none
    else if env.malloc 0 = false then .ok none
    else eqGenerateLoop allowed max env chainLen.toNat 0 (.init chainLen.toNat) []

section Kinds

/-- The bit that stands for the kind of an element in `GenFlags`. -/
def genBit : EqElem → ℕ
  | .op .sum => 0
  | .op .sub => 1
  | .op .mul => 2
  | .br .l => 3
  | .br .r => 4
  | .nr _ => 5

/-- `elem` is of a kind that `flags` allows; numbers always are. -/
def AllowedBy (flags : EqFlags) : EqElem → Prop
  | .op .sum => flags &&& eqElemSum ≠ 0
  | .op .sub => flags &&& eqElemSub ≠ 0
  | .op .mul => flags &&& eqElemMul ≠ 0
  | .br _ => flags &&& eqElemBraces ≠ 0
  | .nr _ => True

/-- A non-empty mask always has a bit to choose. -/
theorem bitmaskChoose_spec {bitmask : GenFlags} (h : bitmask ≠ 0) (rand : ℕ) :
    ∃ i, bitmask.getLsbD i = true ∧ bitmaskChoose bitmask rand = .ok (1#32 <<< i) := by
  have hpos := Bitmask.popcount_pos h
  obtain ⟨i, -, hset, hffs⟩ :=
    Bitmask.ffs_clearLowest_iterate (Nat.mod_lt rand hpos)
  -- the rounds before leave the bit with the index drawn as the lowest one
  refine ⟨i, hset, ?_⟩
  rw [bitmaskChoose, if_neg (Nat.ne_of_gt hpos)]
  simp only [hffs, Nat.add_sub_cancel]

/-- With at least one kind to choose from, and no bit set but those of the kinds, `eq_elem_gen`
gives an element of one of them. -/
theorem eqElemGen_spec {flags : GenFlags} (h : flags ≠ 0)
    (hkinds : ∀ {i}, 6 ≤ i → flags.getLsbD i = false) (max rand urandom : ℕ) :
    (∃ new, eqElemGen flags max rand urandom true = .ok (some new) ∧
      flags.getLsbD (genBit new) = true ∧ ∀ n, new = .nr n → 0 ≤ n) ∨
    (max = 0 ∧ eqElemGen flags max rand urandom true = .error .divideByZero) := by
  obtain ⟨i, hset, hchoose⟩ := bitmaskChoose_spec h rand
  have hi : i < 6 := by
    by_contra hge
    simp [hkinds (show 6 ≤ i by omega)] at hset
  unfold eqElemGen
  rw [hchoose]
  -- the chosen bit is the flag of exactly one kind
  obtain rfl | rfl | rfl | rfl | rfl | rfl :
      i = 0 ∨ i = 1 ∨ i = 2 ∨ i = 3 ∨ i = 4 ∨ i = 5 := by omega
  · exact .inl ⟨.op .sum, rfl, hset, by simp⟩
  · exact .inl ⟨.op .sub, rfl, hset, by simp⟩
  · exact .inl ⟨.op .mul, rfl, hset, by simp⟩
  · exact .inl ⟨.br .l, rfl, hset, by simp⟩
  · exact .inl ⟨.br .r, rfl, hset, by simp⟩
  · -- only a number needs the bound
    by_cases hmax : max = 0
    · exact .inr ⟨hmax, by subst hmax; rfl⟩
    · refine .inl ⟨.nr (urandom % max : ℕ), ?_, hset, ?_⟩
      · show (if max = 0 then _ else _) = _
        rw [if_neg hmax]
      · intro n hn
        cases hn
        omega

/-- Without memory there is no element. -/
theorem eqElemGen_of_malloc_eq_false {flags : GenFlags} (h : flags ≠ 0) (max rand urandom : ℕ) :
    eqElemGen flags max rand urandom false = .ok none := by
  obtain ⟨i, -, hchoose⟩ := bitmaskChoose_spec h rand
  rw [eqElemGen, hchoose]
  rfl

end Kinds

section Flags

/-- A flag that is set under a condition. -/
theorem getLsbD_ite (p : Prop) [Decidable p] (x : GenFlags) (i : ℕ) :
    (if p then x else 0).getLsbD i = (decide p && x.getLsbD i) := by
  split <;> simp [*]

/-- Where the flags of the kinds lie. -/
theorem getLsbD_kinds {i : ℕ} : eqGenBrL.getLsbD i = decide (i = 3) ∧
    eqGenBrR.getLsbD i = decide (i = 4) ∧ eqGenOpAll.getLsbD i = decide (i < 3) ∧
      eqGenNr.getLsbD i = decide (i = 5) := by
  by_cases hi : i < 6
  · revert i
    decide
  · -- no flag lies above bit 5
    have hlt (x : GenFlags) (hx : x.toNat < 2 ^ 6) : x.getLsbD i = false :=
      Nat.testBit_lt_two_pow (hx.trans_le (Nat.pow_le_pow_right (by decide) (by omega)))
    rw [hlt eqGenBrL (by decide), hlt eqGenBrR (by decide), hlt eqGenOpAll (by decide),
      hlt eqGenNr (by decide)]
    simp
    omega

/-- The kinds the loop asks for, bit by bit. -/
theorem GenState.getLsbD_flags (s : GenState) (allowed : GenFlags) (i : ℕ) :
    (s.flags allowed).getLsbD i =
      ((s.brLPossible && decide (i = 3) || s.brRPossible && decide (i = 4) ||
        s.opPossible && decide (i < 3)) && allowed.getLsbD i ||
          s.nrPossible && decide (i = 5)) := by
  obtain ⟨hl, hr, hop, hnr⟩ := getLsbD_kinds (i := i)
  simp only [GenState.flags, BitVec.getLsbD_or, BitVec.getLsbD_and, getLsbD_ite, hl, hr, hop, hnr,
    Bool.decide_eq_true]

/-- The loop asks for nothing but kinds. -/
theorem GenState.flags_kinds (s : GenState) (allowed : GenFlags) {i : ℕ} (hi : 6 ≤ i) :
    (s.flags allowed).getLsbD i = false := by
  rw [GenState.getLsbD_flags, decide_eq_false (show ¬i = 3 by omega),
    decide_eq_false (show ¬i = 4 by omega), decide_eq_false (show ¬i < 3 by omega),
    decide_eq_false (show ¬i = 5 by omega)]
  simp

/-- A kind the loop asks for is possible in the state, and a number or allowed. -/
theorem GenState.possible {s : GenState} {allowed : GenFlags} {new : EqElem}
    (h : (s.flags allowed).getLsbD (genBit new) = true) :
    match new with
    | .op _ => s.opPossible = true ∧ allowed.getLsbD (genBit new) = true
    | .br .l => s.brLPossible = true ∧ allowed.getLsbD (genBit new) = true
    | .br .r => s.brRPossible = true ∧ allowed.getLsbD (genBit new) = true
    | .nr _ => s.nrPossible = true := by
  rw [GenState.getLsbD_flags] at h
  match new with
  | .op .sum | .op .sub | .op .mul | .br .l | .br .r | .nr _ => simpa [genBit] using h

/-- With at least one operator given, the flags of the generator are those of the kinds the caller
allowed, numbers apart. -/
theorem eqFlagsToGenFlags_bit {flags : EqFlags} (hops : flags &&& eqElemOps ≠ 0) (new : EqElem) :
    (eqFlagsToGenFlags flags).getLsbD (genBit new) = true ↔
      AllowedBy flags new ∧ new.isNr = false := by
  have hbits : ∀ i < 6, eqGenOpSum.getLsbD i = decide (i = 0) ∧
      eqGenOpSub.getLsbD i = decide (i = 1) ∧ eqGenOpMul.getLsbD i = decide (i = 2) := by decide
  have hlt : genBit new < 6 := by
    match new with
    | .op .sum | .op .sub | .op .mul | .br .l | .br .r | .nr _ => simp [genBit]
  obtain ⟨hsum, hsub, hmul⟩ := hbits _ hlt
  obtain ⟨hl, hr, -⟩ := getLsbD_kinds (i := genBit new)
  unfold eqFlagsToGenFlags
  rw [if_neg hops]
  simp only [BitVec.getLsbD_or, getLsbD_ite, hsum, hsub, hmul, hl, hr]
  match new with
  | .op .sum | .op .sub | .op .mul | .br .l | .br .r | .nr _ =>
    simp [genBit, AllowedBy, Token.isNr]

/-- A mask that shares a bit with another one meets it. -/
theorem and_ne_zero_of_getLsbD {x y : GenFlags} {i : ℕ} (hx : x.getLsbD i = true)
    (hy : y.getLsbD i = true) : x &&& y ≠ 0 := by
  intro hzero
  have hbit : (x &&& y).getLsbD i = true := by rw [BitVec.getLsbD_and, hx, hy]; rfl
  rw [hzero] at hbit
  simp at hbit

/-- One of the three operators is allowed when the caller gave at least one. -/
theorem exists_operator {flags : EqFlags} (h : flags &&& eqElemOps ≠ 0) :
    ∃ o, AllowedBy flags (.op o) := by
  by_contra hnone
  -- none of the three is set, so neither is their union
  apply h
  have hsum : flags &&& eqElemSum = 0 := by_contra fun hs => hnone ⟨.sum, hs⟩
  have hsub : flags &&& eqElemSub = 0 := by_contra fun hs => hnone ⟨.sub, hs⟩
  have hmul : flags &&& eqElemMul = 0 := by_contra fun hs => hnone ⟨.mul, hs⟩
  calc flags &&& eqElemOps
      = flags &&& (eqElemSum ||| eqElemSub ||| eqElemMul) := rfl
    _ = 0 := by rw [BitVec.and_or_distrib_left, BitVec.and_or_distrib_left, hsum, hsub, hmul]; rfl

/-- Where operators are possible, the loop has a kind to ask for. -/
theorem eqFlagsToGenFlags_ops {flags : EqFlags} (h : flags &&& eqElemOps ≠ 0) :
    eqGenOpAll &&& eqFlagsToGenFlags flags ≠ 0 := by
  obtain ⟨o, ho⟩ := exists_operator h
  have hbit := (eqFlagsToGenFlags_bit h (.op o)).2 ⟨ho, rfl⟩
  exact and_ne_zero_of_getLsbD (by cases o <;> decide) hbit

/-- Where right brackets are possible, the loop has a kind to ask for. -/
theorem eqFlagsToGenFlags_brR {flags : EqFlags} (hops : flags &&& eqElemOps ≠ 0)
    (h : flags &&& eqElemBraces ≠ 0) : eqGenBrR &&& eqFlagsToGenFlags flags ≠ 0 :=
  and_ne_zero_of_getLsbD (by decide) ((eqFlagsToGenFlags_bit hops (.br .r)).2 ⟨h, rfl⟩)

end Flags

section Loop

/-- The invariant of the loop, with `k` rounds to go: `chain` is a well-formed beginning of an
equation with `d` open brackets, and the counters leave `m` more operators. Every operator brings
a number or a pair of brackets with it, so that `k` is known too. -/
structure Budget (flags : EqFlags) (expecting : Bool) (d m k : ℕ) (s : GenState)
    (chain : List EqElem) : Prop where
  scan : Scan expecting d chain
  allowed : ∀ e ∈ chain, AllowedBy flags e
  nonneg : ∀ n, Token.nr n ∈ chain → 0 ≤ n
  braces : 0 < d → flags &&& eqElemBraces ≠ 0
  rounds : k = if expecting then 2 * m + 1 + d else 2 * m + d
  brR : s.brRAvail = d
  op : s.opAvail = m
  nr : s.nrAvail = if expecting then (m : ℤ) + 1 else m
  brL : s.brLAvail = if expecting then (m : ℤ) else m - 1
  brLPossible : s.brLPossible = (expecting && decide (0 < m))
  brRPossible : s.brRPossible = (!expecting && decide (0 < d))
  opPossible : s.opPossible = (!expecting && decide (0 < m))
  nrPossible : s.nrPossible = expecting

/-- The invariant holds before the loop. -/
theorem Budget.init (flags : EqFlags) {n : ℕ} (hn : n % 2 = 1) :
    Budget flags true 0 (n / 2) n (.init n) [] where
  scan := .start
  allowed := by simp
  nonneg := by simp
  braces := by simp
  rounds := by simp; omega
  brR := rfl
  op := rfl
  nr := rfl
  brL := rfl
  brLPossible := rfl
  brRPossible := rfl
  opPossible := rfl
  nrPossible := rfl

variable {flags : EqFlags} {expecting : Bool} {d m k : ℕ} {s : GenState} {chain : List EqElem}

/-- With a round to go there is a kind to ask for. -/
theorem Budget.flags_ne_zero (h : Budget flags expecting d m (k + 1) s chain)
    (hops : flags &&& eqElemOps ≠ 0) : s.flags (eqFlagsToGenFlags flags) ≠ 0 := by
  intro hzero
  have hor {x y : GenFlags} (hxy : x ||| y = 0) : x = 0 ∧ y = 0 := BitVec.or_eq_zero_iff.1 hxy
  simp only [GenState.flags] at hzero
  obtain ⟨hrest, hnr⟩ := hor hzero
  rw [BitVec.and_or_distrib_right, BitVec.and_or_distrib_right] at hrest
  obtain ⟨hrest, hop⟩ := hor hrest
  obtain ⟨-, hbr⟩ := hor hrest
  have hrounds := h.rounds
  cases expecting with
  | true =>
    -- an operand may always be a number
    rw [h.nrPossible] at hnr
    exact absurd hnr (by decide)
  | false =>
    -- what is left is spent on operators and on closing the open brackets
    simp only [Bool.false_eq_true, if_false] at hrounds
    by_cases hm : 0 < m
    · rw [h.opPossible, decide_eq_true hm] at hop
      exact eqFlagsToGenFlags_ops hops hop
    · have hd : 0 < d := by omega
      rw [h.brRPossible, decide_eq_true hd] at hbr
      exact eqFlagsToGenFlags_brR hops (h.braces hd) hbr

/-- What the invariant says about the prefix and the kinds is kept by an element of a kind the
loop asked for. -/
theorem Budget.allowed_append (h : Budget flags expecting d m k s chain)
    (hops : flags &&& eqElemOps ≠ 0) {new : EqElem}
    (hnew : (s.flags (eqFlagsToGenFlags flags)).getLsbD (genBit new) = true) :
    ∀ e ∈ chain ++ [new], AllowedBy flags e := by
  intro e he
  rcases List.mem_append.1 he with he | he
  · exact h.allowed e he
  · obtain rfl := List.mem_singleton.1 he
    have hposs := GenState.possible hnew
    match e with
    | .op _ => exact ((eqFlagsToGenFlags_bit hops _).1 hposs.2).1
    | .br .l => exact ((eqFlagsToGenFlags_bit hops _).1 hposs.2).1
    | .br .r => exact ((eqFlagsToGenFlags_bit hops _).1 hposs.2).1
    | .nr _ => trivial

/-- Only numbers can bring in a negative one. -/
theorem Budget.nonneg_append (h : Budget flags expecting d m k s chain) {new : EqElem}
    (hnn : ∀ n, new = .nr n → 0 ≤ n) : ∀ n, Token.nr n ∈ chain ++ [new] → 0 ≤ n := by
  intro n hn
  rcases List.mem_append.1 hn with hn | hn
  · exact h.nonneg n hn
  · exact hnn n (List.mem_singleton.1 hn).symm

/-- One round of the loop keeps the invariant. -/
theorem Budget.step (h : Budget flags expecting d m (k + 1) s chain)
    (hops : flags &&& eqElemOps ≠ 0) {new : EqElem}
    (hnew : (s.flags (eqFlagsToGenFlags flags)).getLsbD (genBit new) = true)
    (hnn : ∀ n, new = .nr n → 0 ≤ n) :
    ∃ expecting' d' m', Budget flags expecting' d' m' k (s.account new) (chain ++ [new]) := by
  have hallowed := h.allowed_append hops hnew
  have hnonneg := h.nonneg_append hnn
  have hposs := GenState.possible hnew
  obtain ⟨hscan, -, -, hbraces, hrounds, hbrR, hop, hnr, hbrL, hpl, hpr, hpo, hpn⟩ := h
  match new with
  | .nr n =>
    -- an operand: the brackets around it and the operators left may follow
    obtain rfl : expecting = true := by rw [← hpn]; exact hposs
    simp only [if_true] at hrounds hnr hbrL
    exact ⟨false, d, m, .number n hscan, hallowed, hnonneg, hbraces,
      by simp; omega, hbrR, hop, by simp [GenState.account, hnr],
      by simp [GenState.account, hbrL], rfl, by simp [GenState.account, hbrR],
      by simp [GenState.account, hop], rfl⟩
  | .br .l =>
    -- one operator fewer pays for the right bracket
    obtain ⟨hl, hbit⟩ := hposs
    rw [hpl, Bool.and_eq_true, decide_eq_true_iff] at hl
    obtain ⟨rfl, hm⟩ := hl
    simp only [if_true] at hrounds hnr hbrL
    have hmore : decide (0 < s.brLAvail - 1) = decide (0 < m - 1) :=
      decide_eq_decide.2 (by omega)
    exact ⟨true, d + 1, m - 1, .bracketL hscan, hallowed, hnonneg,
      fun _ => ((eqFlagsToGenFlags_bit hops (.br .l)).1 hbit).1,
      by simp; omega, by simp [GenState.account, hbrR], by simp [GenState.account, hop]; omega,
      by simp [GenState.account, hnr]; omega, by simp [GenState.account, hbrL]; omega,
      hmore, rfl, rfl, by simp [GenState.account, hnr]; omega⟩
  | .op o =>
    -- an operator: an operand has to follow, one operator fewer is left
    obtain ⟨hl, -⟩ := hposs
    rw [hpo, Bool.and_eq_true, decide_eq_true_iff, Bool.not_eq_true'] at hl
    obtain ⟨rfl, hm⟩ := hl
    simp only [Bool.false_eq_true, if_false] at hrounds hnr hbrL
    have hmore : decide (0 < s.brLAvail) = decide (0 < m - 1) :=
      decide_eq_decide.2 (by omega)
    exact ⟨true, d, m - 1, .operator o hscan, hallowed, hnonneg, hbraces,
      by simp; omega, hbrR, by simp [GenState.account, hop]; omega,
      by simp [GenState.account, hnr]; omega, by simp [GenState.account, hbrL]; omega,
      hmore, rfl, rfl, by simp [GenState.account, hnr]; omega⟩
  | .br .r =>
    -- a right bracket: the number of open ones was positive
    obtain ⟨hl, -⟩ := hposs
    rw [hpr, Bool.and_eq_true, decide_eq_true_iff, Bool.not_eq_true'] at hl
    obtain ⟨rfl, hd⟩ := hl
    simp only [Bool.false_eq_true, if_false] at hrounds hnr hbrL
    obtain ⟨d, rfl⟩ : ∃ d', d = d' + 1 := ⟨d - 1, by omega⟩
    exact ⟨false, d, m, .bracketR hscan, hallowed, hnonneg, fun _ => hbraces hd,
      by simp; omega, by simp [GenState.account, hbrR], hop, by simpa [GenState.account] using hnr,
      by simpa [GenState.account] using hbrL, rfl, by simp [GenState.account, hbrR],
      by simp [GenState.account, hop], rfl⟩

/-- When the rounds are over the chain is a whole equation. -/
theorem Budget.finished (h : Budget flags expecting d m 0 s chain) : IsExpression chain := by
  have hrounds := h.rounds
  have hscan := h.scan
  cases expecting with
  | true =>
    -- an operand would need another round
    simp only [if_true] at hrounds
    omega
  | false =>
    simp only [Bool.false_eq_true, if_false] at hrounds
    obtain rfl : d = 0 := by omega
    exact hscan.derives

/-- An equation as the generator makes it: a sentence of the grammar, with the kinds of elements
the caller allowed and without negative numbers. -/
structure Generated (flags : EqFlags) (chain : List EqElem) : Prop where
  derivable : IsExpression chain
  allowed : ∀ e ∈ chain, AllowedBy flags e
  nonneg : ∀ n, Token.nr n ∈ chain → 0 ≤ n

/-- From any state that meets the invariant the loop returns an equation, of the length so far and
the rounds to go, if every allocation succeeds; a bound of 0 for the numbers makes `mpz_urandomm`
divide by zero. A failed allocation only ever makes it return none. -/
theorem eqGenerateLoop_spec (max : ℕ) (env : Env) (hops : flags &&& eqElemOps ≠ 0) {i : ℕ}
    (h : Budget flags expecting d m k s chain) :
    match eqGenerateLoop (eqFlagsToGenFlags flags) max env k i s chain with
    | .ok (some eq) => eq.length = chain.length + k ∧ Generated flags eq
    | .ok none => ∃ j, env.malloc j = false
    | .error e => e = .divideByZero ∧ max = 0 := by
  induction k generalizing expecting d m i s chain with
  | zero => exact ⟨rfl, h.finished, h.allowed, h.nonneg⟩
  | succ k ih =>
    rw [eqGenerateLoop]
    -- the set of kinds is not empty in either case
    cases hmalloc : env.malloc (i + 1) with
    | false =>
      rw [eqElemGen_of_malloc_eq_false (h.flags_ne_zero hops)]
      exact ⟨_, hmalloc⟩
    | true =>
      rcases eqElemGen_spec (h.flags_ne_zero hops) (s.flags_kinds _) max (env.rand (i + 1))
        (env.urandom i) with ⟨new, hgen, hnew, hnn⟩ | ⟨hmax, hgen⟩
      · rw [hgen]
        obtain ⟨expecting', d', m', hstep⟩ := h.step hops hnew hnn
        have := ih (i := i + 1) hstep
        simp only [List.length_append, List.length_singleton] at this
        rwa [Nat.add_assoc, Nat.add_comm 1 k] at this
      · rw [hgen]
        exact ⟨rfl, hmax⟩

/-- The loop of `eq_generate`, started on an odd length with at least one operator allowed and
with every allocation succeeding: in no round is the set of possible kinds empty, which would fail
the assertion of `bitmask_choose`, and the list returned has the length asked for, is derivable
from the grammar, and holds only kinds the caller allowed, so no bracket unless it allowed
brackets. A bound of 0 for the numbers is the one thing that stops the loop, in `mpz_urandomm`. -/
theorem eqGenerateLoop_derivable (hops : flags &&& eqElemOps ≠ 0) {n : ℕ} (hn : n % 2 = 1)
    (max : ℕ) {env : Env} (hmalloc : ∀ i, env.malloc i = true) :
    match eqGenerateLoop (eqFlagsToGenFlags flags) max env n 0 (.init n) [] with
    | .ok (some eq) => eq.length = n ∧ IsExpression eq ∧ (∀ e ∈ eq, AllowedBy flags e) ∧
        (flags &&& eqElemBraces = 0 → ∀ e ∈ eq, e.isBr = false)
    | .ok none => False
    | .error e => e = .divideByZero ∧ max = 0 := by
  have hspec := eqGenerateLoop_spec max env hops (i := 0)
    (Budget.init flags hn)
  match hloop : eqGenerateLoop (eqFlagsToGenFlags flags) max env n 0 (.init n) [] with
  | .ok (some eq) =>
    rw [hloop] at hspec
    obtain ⟨hlen, heq⟩ := hspec
    refine ⟨by simpa using hlen, heq.derivable, heq.allowed, ?_⟩
    -- a bracket in the list would be one the caller allowed
    intro hnone e he
    have hallowed := heq.allowed e he
    cases e with
    | br b => exact absurd hnone hallowed
    | op o => rfl
    | nr n => rfl
  | .ok none =>
    rw [hloop] at hspec
    obtain ⟨j, hj⟩ := hspec
    simp [hmalloc j] at hj
  | .error e =>
    rw [hloop] at hspec
    exact hspec

/-- Three elements, products and brackets allowed. -/
theorem eqGenerateLoop_derivable_three :
    match eqGenerateLoop (eqFlagsToGenFlags (eqElemMul ||| eqElemBraces)) 10
        ⟨fun i => 7 * i, fun i => 5 * i, fun _ => true⟩ 3 0 (.init 3) [] with
    | .ok (some eq) => eq.length = 3 ∧ IsExpression eq ∧
        (∀ e ∈ eq, AllowedBy (eqElemMul ||| eqElemBraces) e) ∧
        ((eqElemMul ||| eqElemBraces) &&& eqElemBraces = 0 → ∀ e ∈ eq, e.isBr = false)
    | .ok none => False
    | .error e => e = .divideByZero ∧ (10 : ℕ) = 0 :=
  @eqGenerateLoop_derivable (eqElemMul ||| eqElemBraces) (by decide) 3 (by decide) 10
    ⟨fun i => 7 * i, fun i => 5 * i, fun _ => true⟩ (fun _ => rfl)

end Loop

section Whole

/-- A length that is not 0 is odd and positive. -/
theorem randEqLen_odd {minlen maxlen : ℤ} {rand : ℕ} (h : randEqLen minlen maxlen rand ≠ 0) :
    0 < randEqLen minlen maxlen rand ∧ (randEqLen minlen maxlen rand).toNat % 2 = 1 := by
  simp only [randEqLen] at h ⊢
  have hlo : (1 : ℤ) ≤ if minlen ≤ 0 then 1 else minlen := by split <;> omega
  generalize (if minlen ≤ 0 then (1 : ℤ) else minlen) = lo at h hlo ⊢
  generalize (if maxlen ≤ 0 then randMax else maxlen) = hi at h ⊢
  by_cases hle : lo > hi
  · rw [if_pos hle] at h
    exact absurd rfl h
  · rw [if_neg hle] at h ⊢
    -- the remainder is not negative, so the length is at least the lower bound
    have hnn : 0 ≤ (rand : ℤ) % (hi - lo + 1) := Int.emod_nonneg _ (by omega)
    generalize (rand : ℤ) % (hi - lo + 1) = offset at h hnn ⊢
    by_cases heven : (offset + lo) % 2 = 0
    · -- an even length is moved by one, and it was at least 2
      rw [if_pos heven] at h ⊢
      by_cases hmax : offset + lo ≠ hi
      · rw [if_pos hmax]
        omega
      · rw [if_neg hmax] at h ⊢
        by_cases hmin : offset + lo ≠ lo
        · rw [if_pos hmin]
          omega
        · rw [if_neg hmin] at h
          exact absurd rfl h
    · rw [if_neg heven]
      omega

/-- Whatever `eq_generate` returns is an equation of the kinds asked for, and has the length that
`rand_eq_len` has drawn. -/
theorem eqGenerate_spec {minlen maxlen : ℤ} {max : ℕ} {flags : EqFlags} {env : Env}
    {eq : List EqElem} (h : eqGenerate minlen maxlen max flags env = .ok (some eq)) :
    randEqLen minlen maxlen (env.rand 0) ≠ 0 ∧
      eq.length = (randEqLen minlen maxlen (env.rand 0)).toNat ∧ Generated flags eq := by
  -- without an operator there is no call of the loop
  have hops : flags &&& eqElemOps ≠ 0 := by
    intro hnone
    have : eqFlagsToGenFlags flags = 0 := by rw [eqFlagsToGenFlags, if_pos hnone]
    simp [eqGenerate, this] at h
  simp only [eqGenerate] at h
  -- the three early returns give `NULL`
  by_cases hallowed : eqFlagsToGenFlags flags = 0
  · rw [if_pos hallowed] at h
    cases h
  · rw [if_neg hallowed] at h
    by_cases hlen : randEqLen minlen maxlen (env.rand 0) = 0
    · rw [if_pos hlen] at h
      cases h
    · rw [if_neg hlen] at h
      by_cases hmalloc : env.malloc 0 = false
      · rw [if_pos hmalloc] at h
        cases h
      · rw [if_neg hmalloc] at h
        have hspec := eqGenerateLoop_spec max env hops (i := 0)
          (Budget.init flags (randEqLen_odd hlen).2)
        rw [h] at hspec
        exact ⟨hlen, by simpa using hspec.1, hspec.2⟩

theorem eqGenerate_generated {minlen maxlen : ℤ} {max : ℕ} {flags : EqFlags} {env : Env}
    {eq : List EqElem} (h : eqGenerate minlen maxlen max flags env = .ok (some eq)) :
    Generated flags eq :=
  (eqGenerate_spec h).2.2

end Whole

end Qkmetisc.EqGen
