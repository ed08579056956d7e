import Qkmetisc.EqGen.Print
import Qkmetisc.EqGen.Solve
import Qkmetisc.Foundations.InputMachine
import Qkmetisc.Server.Client

/-!
# Equation tasks (`eq_gen.c`)

A task made of an equation: questions that show its text and checks that compare an answer with
its value. The text and the value are computed when they are first needed and kept.

## Main definitions

* `EqTaskPriv`, `eqGenGenerate`, `eqGetQuestion`, `eqCheck`: the task and its functions.
* `TaskOp`, `exec`: one call on a task, as the step of a machine that records what the calls
  gave.
* `TaskRight`: what the record has to be.
* `NotTruncated`: the condition on the calls under which it is.

## Main results

* `TaskInv.exec`: the caches hold what the equation says.
* `taskRight_throughout_iff`: the record is right in every state of a run exactly if no check
  reads the right number from a positive multiple of `2 ^ 32` bytes.
-/

open Arith
open Qkmetisc.Server (AnswerState)

namespace Qkmetisc.EqGen

/-- `struct rcmem`: a block of characters with its reference counter. -/
structure RcMem where
  /-- `hdr.counter`, an `unsigned`. -/
  counter : ℕ
  /-- The memory after the header. -/
  mem : List Char

/-- The number of values of `unsigned`. -/
def UNSIGNED_RANGE : ℕ := 2 ^ 32

/-- `rcmem_alloc`: `malloc` answers with nothing or with whatever was left in the block. -/
def rcmemAlloc (size : ℕ) (malloc : Option (ℕ → Char)) : Option RcMem :=
  match ckdAdd size 4 with
  | none => none
  | some _ => malloc.map fun garbage => { counter := 1, mem := (List.range size).map garbage }

/-- `rcmem_take`: one holder more, none if the assertion on the counter fails. -/
def rcmemTake (m : RcMem) : Option RcMem :=
  if m.counter + 1 < UNSIGNED_RANGE then some { m with counter := m.counter + 1 } else none

/-- `struct eq_gen_priv`. -/
structure EqGenPriv where
  minlen : ℤ
  maxlen : ℤ
  maxnr : ℕ
  allowed : EqFlags

/-- `struct eq_task_priv`. -/
structure EqTaskPriv where
  /-- The equation. -/
  eq : List EqElem
  /-- Its text, once printed. -/
  textRc : Option RcMem
  /-- Whether `textRc` is there. -/
  textCached : Bool
  /-- The value of the equation, once computed. -/
  answer : ℤ
  /-- Whether `answer` is there. -/
  answerCached : Bool

/-- `eq_gen_generate`: the task is its private part, since its functions are always the ones
below. `mallocTask` and `mallocPriv` tell whether the two structures could be allocated. -/
def eqGenGenerate (priv : EqGenPriv) (env : Env) (mallocTask mallocPriv : Bool) :
    Except GenFault (Option EqTaskPriv) :=
  if mallocTask = false then .ok none
  else if mallocPriv = false then .ok none
  else
    match eqGenerate priv.minlen priv.maxlen priv.maxnr priv.allowed env with
    | .error e => .error e
    | .ok none => .ok none
    | .ok (some eq) =>
      .ok (some { eq, textRc := none, textCached := false, answer := 0, answerCached := false })

/-- How a call on a task can end without returning: a failed assertion, or an access through
`NULL`. -/
inductive TaskFault where
  | assertFailed
  | nullAccess
  deriving Repr, DecidableEq

/-- The first half of `eq_get_question`, which prints the text unless it is there already: the
task with the text, or without it if that fails. -/
def eqCacheText (priv : EqTaskPriv) (mallocText : Option (ℕ → Char)) :
    Except TaskFault (EqTaskPriv × Bool) :=
  if priv.textCached then .ok (priv, true)
  else if priv.textRc.isSome then .error .assertFailed
  else
    let size := eqCalcStrSize priv.eq
    if size = 0 then .ok (priv, false)
    else
      match rcmemAlloc size mallocText with
      | none => .error .nullAccess  -- the last byte is set before the pointer is tested
      | some text =>
        let out := eqPrint priv.eq (storeAt text.mem (size - 1) [NUL])
        if out.2 = false then .ok (priv, false)
        else .ok ({ priv with textRc := some { text with mem := out.1 }, textCached := true }, true)

/-- `eq_get_question`: the task and the buffer of the question, none for `NULL`. -/
def eqGetQuestion (priv : EqTaskPriv) (mallocText : Option (ℕ → Char)) (mallocQuestion : Bool) :
    Except TaskFault (EqTaskPriv × Option (List Char)) :=
  match eqCacheText priv mallocText with
  | .error e => .error e
  | .ok (priv, false) => .ok (priv, none)
  | .ok (priv, true) =>
    if mallocQuestion = false then .ok (priv, none)  -- at least the text is cached
    else
      match priv.textRc with
      | none => .error .nullAccess
      | some text =>
        match rcmemTake text with
        | none => .error .assertFailed
        | some text => .ok ({ priv with textRc := some text }, some text.mem)

/-- What `mpz_inp_str` answers: the number of bytes it read, 0 for failure, and the number it
found in them. -/
structure InpStr where
  /-- The result of the call, a `size_t`. -/
  nread : ℕ
  /-- The integer read. -/
  value : ℤ

/-- A `size_t` stored in an `int`. -/
def toInt (n : ℕ) : ℤ := (BitVec.ofNat 32 n).toInt

/-- `eq_check`. -/
def eqCheck (priv : EqTaskPriv) (read : InpStr) : Except TaskFault (EqTaskPriv × AnswerState) :=
  let solved : Except SolveFault EqTaskPriv :=
    if priv.answerCached then .ok priv
    else (eqSolve priv.eq).map fun v => { priv with answer := v, answerCached := true }
  match solved with
  | .error .assertFailed => .error .assertFailed
  | .error .eilseq => .ok (priv, .wrong)
  | .ok priv =>
    let r := toInt read.nread
    if r = 0 then .ok (priv, .wrong)
    else if read.value = priv.answer then .ok (priv, .right)
    else .ok (priv, .wrong)

/-- A call on a task, with what it meets. -/
inductive TaskOp where
  | getQuestion (mallocText : Option (ℕ → Char)) (mallocQuestion : Bool)
  | check (read : InpStr)

/-- A task and the record of the calls on it. -/
structure TaskRun where
  /-- The task, none after a call that did not return. -/
  priv : Option EqTaskPriv
  /-- The buffers of the questions returned. -/
  questions : List (List Char)
  /-- The checks, each with what it read and its verdict. -/
  checks : List (InpStr × AnswerState)

/-- A new task. -/
def TaskRun.start (priv : EqTaskPriv) : TaskRun :=
  { priv := some priv, questions := [], checks := [] }

/-- One call on a task. -/
def exec (s : TaskRun) (op : TaskOp) : TaskRun :=
  match s.priv with
  | none => s
  | some priv =>
    match op with
    | .getQuestion mallocText mallocQuestion =>
      match eqGetQuestion priv mallocText mallocQuestion with
      | .error _ => { s with priv := none }
      | .ok (priv, none) => { s with priv := some priv }
      | .ok (priv, some text) =>
        { s with priv := some priv, questions := s.questions ++ [text] }
    | .check read =>
      match eqCheck priv read with
      | .error _ => { s with priv := none }
      | .ok (priv, verdict) =>
        { s with priv := some priv, checks := s.checks ++ [(read, verdict)] }

/-- The verdict on an answer when the value asked for is `v`. -/
def verdict (v : ℤ) (read : InpStr) : AnswerState :=
  if 0 < read.nread ∧ read.value = v then .right else .wrong

/-- What the record of a task with equation `eq` has to be: every question shows the text of the
equation, that text denotes a value, and every check compares the answer with that value. -/
def TaskRight (eq : List EqElem) (s : TaskRun) : Prop :=
  ∃ v, Denotes (render eq) v ∧ (∀ q ∈ s.questions, cString q = render eq) ∧
    ∀ c ∈ s.checks, c.2 = verdict v c.1

/-- The call is no check of a live task that reads the value of the task's text from a positive
multiple of `2 ^ 32` bytes. -/
def NotTruncated (s : TaskRun) : TaskOp → Prop
  | .getQuestion _ _ => True
  | .check read => ∀ priv, s.priv = some priv →
      ¬(Denotes (render priv.eq) read.value ∧ 0 < read.nread ∧ read.nread % 2 ^ 32 = 0)

section Calls

variable {eq : List EqElem} {v : ℤ}

/-- What holds of a task while calls are made on it: the equation stays, and what is cached is its
text and its value. -/
structure TaskInv (eq : List EqElem) (v : ℤ) (priv : EqTaskPriv) : Prop where
  eq_eq : priv.eq = eq
  text : if priv.textCached then ∃ text, priv.textRc = some text ∧ text.mem = render eq ++ [NUL]
    else priv.textRc = none
  answer : priv.answerCached = true → priv.answer = v

/-- A block with its last character set ends in that character. -/
theorem storeAt_last {block : List Char} (h : 0 < block.length) (c : Char) :
    (storeAt block (block.length - 1) [c]).length = block.length ∧
      (storeAt block (block.length - 1) [c]).getLast? = some c := by
  have hdrop : block.drop (block.length - 1 + [c].length) = [] := by
    apply List.drop_eq_nil_of_le
    simp only [List.length_singleton]
    omega
  rw [storeAt, hdrop, List.append_nil]
  constructor
  · rw [List.length_append, List.length_take, List.length_singleton]
    omega
  · exact List.getLast?_concat

/-- A block from `rcmem_alloc` has the size asked for. -/
theorem rcmemAlloc_length {size : ℕ} {malloc : Option (ℕ → Char)} {m : RcMem}
    (h : rcmemAlloc size malloc = some m) : m.mem.length = size := by
  unfold rcmemAlloc at h
  cases hadd : ckdAdd size 4 with
  | none => simp [hadd] at h
  | some total =>
    rw [hadd] at h
    obtain ⟨garbage, -, rfl⟩ := Option.map_eq_some_iff.1 h
    simp

/-- The text printed into a fresh block is that of the equation. -/
theorem eqPrint_fresh {size : ℕ} {malloc : Option (ℕ → Char)} {m : RcMem}
    (hsize : size = eqCalcStrSize eq) (hpos : size ≠ 0) (h : rcmemAlloc size malloc = some m) :
    eqPrint eq (storeAt m.mem (size - 1) [NUL]) = (render eq ++ [NUL], true) := by
  have hlen := rcmemAlloc_length h
  obtain ⟨hstored, hlast⟩ := storeAt_last (show 0 < m.mem.length by omega) NUL
  rw [hlen] at hstored hlast
  exact eqPrint_spec (hsize ▸ hpos) (by rw [hstored, hsize]) hlast

/-- Printing the text, or finding it there, keeps the invariant; on success the text is there. -/
theorem eqCacheText_spec {priv : EqTaskPriv} (h : TaskInv eq v priv)
    (mallocText : Option (ℕ → Char)) {priv' : EqTaskPriv} {ok : Bool}
    (hcall : eqCacheText priv mallocText = .ok (priv', ok)) :
    TaskInv eq v priv' ∧ (ok = true → priv'.textCached = true) := by
  unfold eqCacheText at hcall
  by_cases hcached : priv.textCached = true
  · rw [if_pos hcached] at hcall
    cases hcall
    exact ⟨h, fun _ => hcached⟩
  · have hnone : priv.textRc = none := by simpa [hcached] using h.text
    rw [if_neg hcached, hnone] at hcall
    simp only [Option.isSome_none, Bool.false_eq_true, if_false, h.eq_eq] at hcall
    -- a size of 0 is a failure that leaves the task alone
    by_cases hsize : eqCalcStrSize eq = 0
    · rw [if_pos hsize] at hcall
      cases hcall
      exact ⟨h, by simp⟩
    · rw [if_neg hsize] at hcall
      cases halloc : rcmemAlloc (eqCalcStrSize eq) mallocText with
      | none => simp [halloc] at hcall
      | some text =>
        simp only [halloc, eqPrint_fresh rfl hsize halloc, Bool.true_eq_false, if_false] at hcall
        cases hcall
        exact ⟨⟨rfl, ⟨_, rfl, rfl⟩, h.answer⟩, fun _ => rfl⟩

/-- `eq_get_question` keeps the invariant, and the question it returns, if any, shows the text of
the equation. -/
theorem eqGetQuestion_spec {priv : EqTaskPriv} (h : TaskInv eq v priv)
    (mallocText : Option (ℕ → Char)) (mallocQuestion : Bool) {priv' : EqTaskPriv}
    {question : Option (List Char)}
    (hcall : eqGetQuestion priv mallocText mallocQuestion = .ok (priv', question)) :
    TaskInv eq v priv' ∧ ∀ q, question = some q → cString q = render eq := by
  unfold eqGetQuestion at hcall
  match htext : eqCacheText priv mallocText with
  | .error e => simp [htext] at hcall
  | .ok (mid, false) =>
    rw [htext] at hcall
    cases hcall
    exact ⟨(eqCacheText_spec h mallocText htext).1, by simp⟩
  | .ok (mid, true) =>
    obtain ⟨hmid, hcached⟩ := eqCacheText_spec h mallocText htext
    rw [htext] at hcall
    by_cases hmalloc : mallocQuestion = false
    · simp only [if_pos hmalloc] at hcall
      cases hcall
      exact ⟨hmid, by simp⟩
    · simp only [if_neg hmalloc] at hcall
      -- the text is cached now, so that the question gets it
      have htextRc := hmid.text
      rw [if_pos (hcached rfl)] at htextRc
      obtain ⟨text, hrc, hmem⟩ := htextRc
      simp only [hrc, rcmemTake] at hcall
      -- the question is one holder more of the same memory
      by_cases hcount : text.counter + 1 < UNSIGNED_RANGE
      · rw [if_pos hcount] at hcall
        cases hcall
        refine ⟨⟨hmid.eq_eq, ?_, hmid.answer⟩, ?_⟩
        · simp only [hcached, if_true]
          exact ⟨_, rfl, hmem⟩
        · intro q hq
          obtain rfl := Option.some.inj hq
          rw [hmem, cString_render]
      · rw [if_neg hcount] at hcall
        cases hcall

/-- Stored in an `int`, a count of bytes reads as 0 exactly when it is a multiple of `2 ^ 32`. -/
theorem toInt_eq_zero {n : ℕ} : toInt n = 0 ↔ n % 2 ^ 32 = 0 := by
  have hzero : (BitVec.ofNat 32 n).toInt = (0#32).toInt ↔ BitVec.ofNat 32 n = 0#32 :=
    BitVec.toInt_inj
  -- the conversion keeps the 32 lowest bits
  rw [toInt, ← BitVec.toInt_zero (w := 32), hzero, ← BitVec.toNat_inj, BitVec.toNat_ofNat]
  rfl

/-- `eq_check` on an equation with value `v` keeps the invariant and returns a verdict: it is right
if the number read is `v` and the count of its bytes does not read as 0. -/
theorem eqCheck_eq {priv : EqTaskPriv} (h : TaskInv eq v priv)
    (hv : Derives .expression eq v) (read : InpStr) :
    ∃ priv', eqCheck priv read =
        .ok (priv', if read.nread % 2 ^ 32 ≠ 0 ∧ read.value = v then .right else .wrong) ∧
      TaskInv eq v priv' := by
  -- whether it was there before or is computed now, the value is cached when it is compared
  obtain ⟨mid, hsolved, hmid, hanswer⟩ : ∃ mid, (if priv.answerCached then Except.ok priv
      else (eqSolve priv.eq).map fun v => { priv with answer := v, answerCached := true }) =
        Except.ok mid ∧ TaskInv eq v mid ∧ mid.answer = v := by
    by_cases hcached : priv.answerCached = true
    · exact ⟨priv, by rw [if_pos hcached], h, h.answer hcached⟩
    · refine ⟨{ priv with answer := v, answerCached := true }, ?_, ?_, rfl⟩
      · rw [if_neg hcached, h.eq_eq, eqSolve_of_derives hv]
        rfl
      · exact ⟨h.eq_eq, h.text, fun _ => rfl⟩
  refine ⟨mid, ?_, hmid⟩
  unfold eqCheck
  simp only [hsolved, hanswer, toInt_eq_zero]
  -- a count that reads as 0 is taken for a failure
  by_cases hzero : read.nread % 2 ^ 32 = 0
  · rw [if_pos hzero, if_neg (fun hright => hright.1 hzero)]
  · by_cases hvalue : read.value = v
    · rw [if_neg hzero, if_pos hvalue, if_pos ⟨hzero, hvalue⟩]
    · rw [if_neg hzero, if_neg hvalue, if_neg (fun hright => hvalue hright.2)]

/-- The verdict is the one asked for unless the number was right and the count of its bytes reads
as 0. -/
theorem eqCheck_spec {priv : EqTaskPriv} (h : TaskInv eq v priv)
    (hv : Derives .expression eq v) (read : InpStr) :
    ∃ priv' answer, eqCheck priv read = .ok (priv', answer) ∧ TaskInv eq v priv' ∧
      (answer = verdict v read ↔
        ¬(read.value = v ∧ 0 < read.nread ∧ read.nread % 2 ^ 32 = 0)) := by
  obtain ⟨priv', hcheck, hinv⟩ := eqCheck_eq h hv read
  refine ⟨priv', _, hcheck, hinv, ?_⟩
  by_cases hvalue : read.value = v
  · by_cases hzero : read.nread % 2 ^ 32 = 0
    · rw [if_neg (fun hright => hright.1 hzero)]
      simp only [verdict, hvalue, hzero, and_true, true_and]
      by_cases hpos : 0 < read.nread <;> simp [hpos]
    · have hpos : 0 < read.nread := by omega
      rw [if_pos ⟨hzero, hvalue⟩, verdict, if_pos ⟨hpos, hvalue⟩]
      exact iff_of_true rfl fun hbad => hzero hbad.2.2
  · rw [if_neg (fun hright => hvalue hright.2)]
    simp [verdict, hvalue]

end Calls

section Runs

/-- The invariant of a run: a task that is still there meets its own. -/
def RunInv (eq : List EqElem) (v : ℤ) (s : TaskRun) : Prop :=
  ∀ priv, s.priv = some priv → TaskInv eq v priv

/-- The record is right for the value `v`. -/
def RecordRight (eq : List EqElem) (v : ℤ) (s : TaskRun) : Prop :=
  (∀ q ∈ s.questions, cString q = render eq) ∧ ∀ c ∈ s.checks, c.2 = verdict v c.1

variable {eq : List EqElem} {v : ℤ} {s : TaskRun}

theorem RunInv.start {task : EqTaskPriv} (h : TaskInv eq v task) :
    RunInv eq v (.start task) := by
  intro priv hpriv
  obtain rfl := Option.some.inj hpriv
  exact h

theorem RecordRight.start (eq : List EqElem) (v : ℤ) (task : EqTaskPriv) :
    RecordRight eq v (.start task) := by
  simp [RecordRight, TaskRun.start]

/-- Every call keeps the invariant. -/
theorem RunInv.exec (h : RunInv eq v s) (hv : Derives .expression eq v) (op : TaskOp) :
    RunInv eq v (exec s op) := by
  unfold EqGen.exec
  cases hpriv : s.priv with
  -- a task whose call did not return is not called again
  | none => exact fun p hp => by simp [hpriv] at hp
  | some priv =>
    have hinv := h priv hpriv
    cases op with
    | getQuestion mallocText mallocQuestion =>
      match hcall : eqGetQuestion priv mallocText mallocQuestion with
      | .error e => simp [hcall, RunInv]
      | .ok (priv', none) =>
        simpa [hcall, RunInv] using (eqGetQuestion_spec hinv _ _ hcall).1
      | .ok (priv', some text) =>
        simpa [hcall, RunInv] using (eqGetQuestion_spec hinv _ _ hcall).1
    | check read =>
      obtain ⟨priv', answer, hcall, hinv', -⟩ := eqCheck_spec hinv hv read
      simpa [hcall, RunInv] using hinv'

/-- A call leaves a right record right exactly if it is no check with a truncated count. -/
theorem RecordRight.exec_iff (hright : RecordRight eq v s) (h : RunInv eq v s)
    (hv : Derives .expression eq v) (hnn : ∀ n, Token.nr n ∈ eq → 0 ≤ n) (op : TaskOp) :
    RecordRight eq v (exec s op) ↔ NotTruncated s op := by
  unfold EqGen.exec
  cases hpriv : s.priv with
  | none =>
    cases op with
    | getQuestion _ _ => simpa [NotTruncated] using hright
    | check read => simpa [NotTruncated, hpriv] using hright
  | some priv =>
    have hinv := h priv hpriv
    cases op with
    | getQuestion mallocText mallocQuestion =>
      -- a question adds the text of the equation to the record, or nothing
      refine iff_of_true ?_ trivial
      match hcall : eqGetQuestion priv mallocText mallocQuestion with
      | .error e => simpa [hcall, RecordRight] using hright
      | .ok (priv', none) => simpa [hcall, RecordRight] using hright
      | .ok (priv', some text) =>
        refine ⟨?_, by simpa [hcall] using hright.2⟩
        intro q hq
        simp only [hcall, List.mem_append, List.mem_singleton] at hq
        rcases hq with hq | rfl
        · exact hright.1 q hq
        · exact (eqGetQuestion_spec hinv _ _ hcall).2 q rfl
    | check read =>
      obtain ⟨priv', answer, hcall, -, hanswer⟩ := eqCheck_spec hinv hv read
      -- the text denotes one value only, that of the equation
      have hdenotes : Denotes (render priv.eq) read.value ↔ read.value = v := by
        rw [hinv.eq_eq]
        exact ⟨fun hd => denotes_unique hd (hv.denotes hnn), fun hd => hd ▸ hv.denotes hnn⟩
      have hok : NotTruncated s (.check read) ↔ answer = verdict v read := by
        rw [hanswer]
        simp [NotTruncated, hpriv, hdenotes]
      rw [hok]
      simp only [hcall, RecordRight, List.mem_append, List.mem_singleton]
      constructor
      · -- the new entry decides, as the older ones stay
        exact fun hnew => hnew.2 (read, answer) (.inr rfl)
      · intro hnew
        refine ⟨hright.1, ?_⟩
        rintro c (hc | rfl)
        · exact hright.2 c hc
        · exact hnew

/-- The record of a task is right exactly if it is right for the value of the task's equation. -/
theorem taskRight_iff (hv : Derives .expression eq v) (hnn : ∀ n, Token.nr n ∈ eq → 0 ≤ n) :
    TaskRight eq s ↔ RecordRight eq v s := by
  constructor
  · rintro ⟨w, hw, hrecord⟩
    obtain rfl := denotes_unique hw (hv.denotes hnn)
    exact hrecord
  · exact fun hrecord => ⟨v, hv.denotes hnn, hrecord⟩

/-- A new task meets the invariant, with nothing cached. -/
theorem eqGenGenerate_spec {gen : EqGenPriv} {env : Env} {mallocTask mallocPriv : Bool}
    {task : EqTaskPriv} (h : eqGenGenerate gen env mallocTask mallocPriv = .ok (some task)) :
    Generated gen.allowed task.eq ∧ ∀ v, TaskInv task.eq v task := by
  unfold eqGenGenerate at h
  by_cases htask : mallocTask = false
  · simp [htask] at h
  · by_cases hpriv : mallocPriv = false
    · simp [hpriv] at h
    · rw [if_neg htask, if_neg hpriv] at h
      match hgen : eqGenerate gen.minlen gen.maxlen gen.maxnr gen.allowed env with
      | .error e => simp [hgen] at h
      | .ok none => simp [hgen] at h
      | .ok (some eq) =>
        simp only [hgen, Except.ok.injEq, Option.some.injEq] at h
        subst h
        exact ⟨eqGenerate_generated hgen, fun v => ⟨rfl, rfl, by simp⟩⟩

/-- For every task that the generator creates and every run of calls on it: every question shows
the same text, that text denotes a value, and every check returns `ANSWER_RIGHT` if
`mpz_inp_str` read that value and `ANSWER_WRONG` otherwise, in every state of the run, exactly if
no check of the run reads the value from a positive multiple of `2 ^ 32` bytes. -/
theorem taskRight_throughout_iff {gen : EqGenPriv} {env : Env} {mallocTask mallocPriv : Bool}
    {task : EqTaskPriv} (h : eqGenGenerate gen env mallocTask mallocPriv = .ok (some task))
    (ops : List TaskOp) :
    InputMachine.Always exec (TaskRight task.eq) (.start task) ops ↔
      InputMachine.Meets exec NotTruncated (.start task) ops := by
  obtain ⟨⟨⟨v, hv⟩, -, hnn⟩, hinv⟩ := eqGenGenerate_spec h
  have hstart := RunInv.start (hinv v)
  -- together with the invariant, a right record is kept by exactly the good calls
  have hiff := InputMachine.always_iff_meets
    (P := fun s => RunInv task.eq v s ∧ RecordRight task.eq v s)
    (fun s op hs => ⟨fun hs' => (hs.2.exec_iff hs.1 hv hnn op).1 hs'.2,
      fun hok => ⟨hs.1.exec hv op, (hs.2.exec_iff hs.1 hv hnn op).2 hok⟩⟩) ops
    ⟨hstart, .start _ _ _⟩
  rw [← hiff]
  constructor
  · intro hright
    have hrun := InputMachine.always_of_step
      (fun (s : TaskRun) op (hs : RunInv task.eq v s) => hs.exec hv op) ops hstart
    exact hrun.and _ (hright.mono _ fun s => (taskRight_iff hv hnn).1)
  · exact fun hboth => hboth.mono _ fun s hs => (taskRight_iff hv hnn).2 hs.2

/-- The task of the equation `3+5`. -/
def sumTask : EqTaskPriv where
  eq := [.nr 3, .op .sum, .nr 5]
  textRc := none
  textCached := false
  answer := 0
  answerCached := false

theorem eqGenGenerate_sumTask :
    eqGenGenerate ⟨3, 3, 9, eqElemSum⟩ ⟨fun _ => 0, fun i => i + 3, fun _ => true⟩ true true =
      .ok (some sumTask) :=
  rfl

/-- A question between a right and a wrong answer. -/
theorem taskRight_question_between_checks :
    InputMachine.Always exec (TaskRight sumTask.eq) (.start sumTask)
      [.check ⟨1, 8⟩, .getQuestion (some fun _ => 'x') true, .check ⟨2, 35⟩] := by
  rw [taskRight_throughout_iff eqGenGenerate_sumTask]
  refine ⟨?_, trivial, ?_, trivial⟩
  · rintro priv - ⟨-, -, hcount⟩
    exact absurd hcount (by decide)
  · rintro priv - ⟨-, -, hcount⟩
    exact absurd hcount (by decide)

/-- The number 8 after `2 ^ 32 - 1` blanks is refused: the count of bytes is 0 as an `int`. -/
theorem not_taskRight_long_answer :
    ¬∀ (gen : EqGenPriv) (env : Env) (mallocTask mallocPriv : Bool) (task : EqTaskPriv),
      eqGenGenerate gen env mallocTask mallocPriv = .ok (some task) →
      ∀ ops, InputMachine.Always exec (TaskRight task.eq) (.start task) ops := by
  intro hall
  have hright := (hall _ _ _ _ _ eqGenGenerate_sumTask [.check ⟨2 ^ 32, 8⟩]).last
  have hv : Derives .expression sumTask.eq 8 :=
    .sum (.term (.primary (.number 3))) (.primary (.number 5))
  have hnn : ∀ n, Token.nr n ∈ sumTask.eq → 0 ≤ n := by simp [sumTask]
  have hstart := RunInv.start ((eqGenGenerate_spec eqGenGenerate_sumTask).2 8)
  -- if the record were right, the check would not have been truncated
  rw [taskRight_iff hv hnn] at hright
  have hok := ((RecordRight.start _ _ sumTask).exec_iff hstart hv hnn (.check ⟨2 ^ 32, 8⟩)).1
    hright
  exact hok sumTask rfl ⟨hv.denotes hnn, Nat.two_pow_pos 32, Nat.mod_self _⟩

end Runs

end Qkmetisc.EqGen
