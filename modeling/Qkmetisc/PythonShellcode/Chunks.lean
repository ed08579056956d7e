import Qkmetisc.Foundations.CheckedStore
import Qkmetisc.PythonShellcode.Task

/-!
# Answers in chunks

The memory of a shellcode task, of which nothing is known beforehand: a check computes in `size_t`,
each byte it reads is a store of its own, and what is outside an array ends the program. From a
task that has been generated, checks of streams with any bytes in them never do that, and their
verdicts depend on the bytes but not on how they were spread over the checks.

## Main definitions

* `TaskMemory`: the fields of the struct.
* `sizeSub`, `memcmpEq`, `checkMemory`: a check, as far as it can go wrong.
* `checkAll`: one check after the other.
* `Judges`: the next answer is judged by its bytes.

## Main results

* `checkMemory_eq`: on the memory of a task this is `pythonShellcodeCheck`.
* `checkAll_memory`: after any checks there is a task again.
* `checkAll_more`, `checkAll_complete`: one answer, in any number of chunks.
* `checkAll_chunks`: every answer to a generated task.
-/

open BufferedFile (File)
open CheckedStore (storeAll storeAll_of_le)
open Qkmetisc.EqGen (RcMem)
open Qkmetisc.Server (AnswerState)

namespace Qkmetisc.PythonShellcode

/-- `struct python_shellcode_task_priv`, its arrays of whatever length and its count any number. -/
structure TaskMemory where
  text : Option RcMem
  textCached : Bool
  answer : List Char
  userAnswer : List Char
  userAnswerLen : ℕ

/-- What a task is in memory. -/
def PythonShellcodeTaskPriv.memory (priv : PythonShellcodeTaskPriv) : TaskMemory :=
  { text := priv.text
    textCached := priv.textCached
    answer := priv.answer
    userAnswer := priv.userAnswer
    userAnswerLen := priv.userAnswerLen }

/-- A difference of two `size_t`. -/
def sizeSub (a b : ℕ) : ℕ := (a + SIZE_T_RANGE - b) % SIZE_T_RANGE

/-- Whether `memcmp` finds the first `n` bytes equal, none if they are not all there. -/
def memcmpEq (a b : List Char) (n : ℕ) : Option Bool :=
  if n ≤ a.length ∧ n ≤ b.length then some (a.take n = b.take n) else none

/-- `python_shellcode_check`, none for an access outside an array. -/
def checkMemory (size : ℕ) (priv : TaskMemory) (fp : File Char) :
    Option ((TaskMemory × AnswerState) × File Char) :=
  let needed := sizeSub ANSWER_LEN priv.userAnswerLen
  let read := fp.fread size needed
  match storeAll priv.userAnswer priv.userAnswerLen read.1 with
  | none => none
  | some userAnswer =>
    if read.1.length < needed then
      -- what has come so far is kept for the next check
      let userAnswerLen := (priv.userAnswerLen + read.1.length) % SIZE_T_RANGE
      some (({ priv with userAnswer, userAnswerLen }, .more), read.2)
    else
      -- with the length 0 the bytes count as none, wherever the comparison ends
      let priv := { priv with userAnswer, userAnswerLen := 0 }
      match memcmpEq priv.userAnswer priv.answer ANSWER_LEN with
      | none => none
      | some true => some ((priv, .right), read.2)
      | some false => some ((priv, .wrong), read.2)

/-- One check after the other, each with a stream of its own: the verdicts, and what is left of
the task. -/
def checkAll (size : ℕ) : TaskMemory → List (File Char) → Option (TaskMemory × List AnswerState)
  | task, [] => some (task, [])
  | task, fp :: fps =>
    match checkMemory size task fp with
    | none => none
    | some ((task, res), _) => (checkAll size task fps).map fun out => (out.1, res :: out.2)

/-- The bytes of all streams, in order. -/
def delivered (fps : List (File Char)) : List Char := fps.flatMap File.content

/-- How checks deal with the next answer to a task that has got nothing of it: they ask for more
while bytes are missing, the one that has enough compares the first ones with the answer, and then
the task is what it was before, but for the bytes in `user_answer`. -/
structure Judges (size : ℕ) (task : TaskMemory) : Prop where
  more : ∀ chunks, (delivered chunks).length < ANSWER_LEN →
    ∃ next, checkAll size task chunks = some (next, List.replicate chunks.length .more)
  complete : ∀ chunks last, (delivered chunks).length < ANSWER_LEN →
    ANSWER_LEN ≤ (delivered (chunks ++ [last])).length →
    ∃ next, checkAll size task (chunks ++ [last]) =
        some (next, List.replicate chunks.length .more ++
          [if (delivered (chunks ++ [last])).take ANSWER_LEN = task.answer then .right
            else .wrong]) ∧
      next = { task with userAnswer := next.userAnswer }

@[simp]
theorem delivered_nil : delivered [] = [] := rfl

@[simp]
theorem delivered_cons (fp : File Char) (fps : List (File Char)) :
    delivered (fp :: fps) = fp.content ++ delivered fps := rfl

@[simp]
theorem delivered_append (fps fps' : List (File Char)) :
    delivered (fps ++ fps') = delivered fps ++ delivered fps' := List.flatMap_append

section Memory

variable {size : ℕ}

/-- While the count is in range the difference is what it is for natural numbers. -/
theorem sizeSub_userAnswerLen (priv : PythonShellcodeTaskPriv) :
    sizeSub ANSWER_LEN priv.memory.userAnswerLen = priv.needed := by
  have hlt : priv.userAnswerLen < ANSWER_LEN := priv.userAnswerLen_lt
  have hrange : ANSWER_LEN < SIZE_T_RANGE := by decide
  have hsum : ANSWER_LEN + SIZE_T_RANGE - priv.userAnswerLen = priv.needed + SIZE_T_RANGE := by
    rw [PythonShellcodeTaskPriv.needed]
    omega
  have hneeded : priv.needed < SIZE_T_RANGE := lt_of_le_of_lt (Nat.sub_le _ _) hrange
  show (ANSWER_LEN + SIZE_T_RANGE - priv.userAnswerLen) % SIZE_T_RANGE = priv.needed
  rw [hsum, Nat.add_mod_right, Nat.mod_eq_of_lt hneeded]

/-- On two arrays of the length of an answer all bytes are compared. -/
theorem memcmpEq_answer {a b : List Char} (ha : a.length = ANSWER_LEN)
    (hb : b.length = ANSWER_LEN) : memcmpEq a b ANSWER_LEN = some (decide (a = b)) := by
  have ha' : a.take ANSWER_LEN = a := List.take_of_length_le ha.le
  have hb' : b.take ANSWER_LEN = b := List.take_of_length_le hb.le
  rw [memcmpEq, if_pos ⟨ha.ge, hb.ge⟩, ha', hb']

/-- On the memory of a task a check touches nothing outside the arrays, and leaves the memory of
a task. -/
theorem checkMemory_eq (priv : PythonShellcodeTaskPriv) (fp : File Char) :
    checkMemory size priv.memory fp =
      some (((pythonShellcodeCheck size priv fp).1.1.memory,
        (pythonShellcodeCheck size priv fp).1.2), (pythonShellcodeCheck size priv fp).2) := by
  have hlt := priv.userAnswerLen_lt
  -- no more is read than is missing, so that all of it fits
  have hread : (fp.fread size priv.needed).1.length ≤ priv.needed := fp.length_fread_le size _
  have hfits : priv.memory.userAnswerLen + (fp.fread size priv.needed).1.length ≤
      priv.memory.userAnswer.length := by
    have huserAnswer : priv.memory.userAnswer.length = ANSWER_LEN := priv.length_userAnswer
    have hsum : priv.memory.userAnswerLen + priv.needed = ANSWER_LEN := Nat.add_sub_of_le hlt.le
    omega
  have hneeded : ANSWER_LEN - priv.userAnswerLen = priv.needed := rfl
  rw [checkMemory, sizeSub_userAnswerLen]
  by_cases hmore : (fp.fread size priv.needed).1.length < priv.needed
  · -- the count stays in range, so it does not wrap
    have hrange : priv.memory.userAnswerLen + (fp.fread size priv.needed).1.length <
        SIZE_T_RANGE := by
      have hlong : ANSWER_LEN < SIZE_T_RANGE := by decide
      exact lt_of_le_of_lt (hfits.trans_eq priv.length_userAnswer) hlong
    simp only [storeAll_of_le hfits, if_pos hmore, Nat.mod_eq_of_lt hrange, pythonShellcodeCheck,
      hneeded, dif_pos hmore]
    rfl
  · simp only [storeAll_of_le hfits, if_neg hmore, pythonShellcodeCheck, hneeded, dif_neg hmore]
    rw [← storeAt]
    have hstored := (length_storeAt hfits).trans priv.length_userAnswer
    have hmemcmp := memcmpEq_answer hstored priv.length_answer
    -- the two verdicts
    by_cases hequal : storeAt priv.memory.userAnswer priv.memory.userAnswerLen
        (fp.fread size priv.needed).1 = priv.answer
    · rw [decide_eq_true hequal] at hmemcmp
      have hverdict : priv.verdict (storeAt priv.userAnswer priv.userAnswerLen
          (fp.fread size priv.needed).1) = .right := if_pos hequal
      rw [hverdict]
      exact hmemcmp ▸ rfl
    · rw [decide_eq_false hequal] at hmemcmp
      have hverdict : priv.verdict (storeAt priv.userAnswer priv.userAnswerLen
          (fp.fread size priv.needed).1) = .wrong := if_neg hequal
      rw [hverdict]
      exact hmemcmp ▸ rfl

/-- A check changes nothing but what there is of an answer. -/
theorem checkMemory_frame {task next : TaskMemory} {res : AnswerState} {fp fp' : File Char}
    (h : checkMemory size task fp = some ((next, res), fp')) :
    next = { task with userAnswer := next.userAnswer, userAnswerLen := next.userAnswerLen } := by
  rw [checkMemory] at h
  dsimp only at h
  split at h
  next => cases h
  next userAnswer hstore =>
    split at h
    next hmore =>
      cases h
      rfl
    next hcomplete =>
      split at h
      next => cases h
      next hright =>
        cases h
        rfl
      next hwrong =>
        cases h
        rfl

end Memory

/-! ## Sequences of checks -/

section Sequences

variable {size : ℕ} {priv : PythonShellcodeTaskPriv}

theorem checkAll_cons {task next : TaskMemory} {res : AnswerState} {fp fp' : File Char}
    (h : checkMemory size task fp = some ((next, res), fp')) (fps : List (File Char)) :
    checkAll size task (fp :: fps) =
      (checkAll size next fps).map fun out => (out.1, res :: out.2) := by
  rw [checkAll, h]

/-- Checks that all returned: the first one, and the others on what it left. -/
theorem exists_of_checkAll_cons {task next : TaskMemory} {fp : File Char} {fps : List (File Char)}
    {verdicts : List AnswerState} (h : checkAll size task (fp :: fps) = some (next, verdicts)) :
    ∃ mid res fp' rest, checkMemory size task fp = some ((mid, res), fp') ∧
      checkAll size mid fps = some (next, rest) ∧ verdicts = res :: rest := by
  rcases hcheck : checkMemory size task fp with none | ⟨⟨mid, res⟩, fp'⟩
  · rw [checkAll, hcheck] at h
    cases h
  · rw [checkAll_cons hcheck] at h
    obtain ⟨⟨left, rest⟩, hrest, hout⟩ := Option.map_eq_some_iff.1 h
    obtain ⟨rfl, rfl⟩ := Prod.mk.inj hout
    exact ⟨mid, res, fp', rest, rfl, hrest, rfl⟩

/-- Checks of two lists of streams. -/
theorem checkAll_append {task next : TaskMemory} {fps : List (File Char)}
    {verdicts : List AnswerState} (h : checkAll size task fps = some (next, verdicts))
    (fps' : List (File Char)) :
    checkAll size task (fps ++ fps') =
      (checkAll size next fps').map fun out => (out.1, verdicts ++ out.2) := by
  induction fps generalizing task verdicts with
  | nil =>
    cases h
    simp
  | cons fp fps ih =>
    obtain ⟨mid, res, fp', rest, hcheck, hrest, rfl⟩ := exists_of_checkAll_cons h
    rw [List.cons_append, checkAll_cons hcheck, ih hrest, Option.map_map]
    rfl

/-- Checks change nothing but what there is of an answer. -/
theorem checkAll_frame {task next : TaskMemory} {fps : List (File Char)}
    {verdicts : List AnswerState} (h : checkAll size task fps = some (next, verdicts)) :
    next = { task with userAnswer := next.userAnswer, userAnswerLen := next.userAnswerLen } := by
  induction fps generalizing task verdicts with
  | nil =>
    cases h
    rfl
  | cons fp fps ih =>
    obtain ⟨mid, res, fp', rest, hcheck, hrest, rfl⟩ := exists_of_checkAll_cons h
    rw [ih hrest, checkMemory_frame hcheck]

/-- Any checks of a task stay inside its memory, and leave a task. -/
theorem checkAll_memory (size : ℕ) (priv : PythonShellcodeTaskPriv) (fps : List (File Char)) :
    ∃ next : PythonShellcodeTaskPriv, ∃ verdicts,
      checkAll size priv.memory fps = some (next.memory, verdicts) := by
  induction fps generalizing priv with
  | nil => exact ⟨priv, [], rfl⟩
  | cons fp fps ih =>
    obtain ⟨next, verdicts, hrest⟩ := ih (pythonShellcodeCheck size priv fp).1.1
    refine ⟨next, (pythonShellcodeCheck size priv fp).1.2 :: verdicts, ?_⟩
    rw [checkAll_cons (checkMemory_eq priv fp), hrest]
    rfl

/-- While bytes of the answer are missing, all checks ask for more and keep what they got. -/
theorem checkAll_more (hsize : 0 < size) {chunks : List (File Char)}
    (h : (priv.received ++ delivered chunks).length < ANSWER_LEN) :
    ∃ next : PythonShellcodeTaskPriv,
      checkAll size priv.memory chunks =
        some (next.memory, List.replicate chunks.length .more) ∧
      next.received = priv.received ++ delivered chunks := by
  induction chunks generalizing priv with
  | nil => exact ⟨priv, rfl, by simp⟩
  | cons fp fps ih =>
    rw [delivered_cons, ← List.append_assoc] at h
    have hmissing : fp.content.length < priv.needed := by
      have hsum := priv.length_received_add_needed
      simp only [List.length_append] at h
      omega
    -- the first chunk counts as received when the others come
    obtain ⟨mid, hcheck, -, hreceived⟩ := pythonShellcodeCheck_more hsize fp hmissing
    have hfirst : checkMemory size priv.memory fp = _ := checkMemory_eq priv fp
    rw [hcheck] at hfirst
    rw [← hreceived] at h
    obtain ⟨next, hrest, hnext⟩ := ih h
    refine ⟨next, ?_, by rw [hnext, hreceived, delivered_cons, List.append_assoc]⟩
    rw [checkAll_cons hfirst, hrest]
    rfl

/-- The check that gets the last missing byte compares the answer, and leaves none of it. -/
theorem checkAll_complete (hsize : 0 < size) {chunks : List (File Char)} {last : File Char}
    (hmore : (priv.received ++ delivered chunks).length < ANSWER_LEN)
    (hall : ANSWER_LEN ≤ (priv.received ++ delivered (chunks ++ [last])).length) :
    ∃ next : PythonShellcodeTaskPriv,
      checkAll size priv.memory (chunks ++ [last]) =
        some (next.memory, List.replicate chunks.length .more ++
          [priv.verdict ((priv.received ++ delivered (chunks ++ [last])).take ANSWER_LEN)]) ∧
      next.userAnswerLen = 0 := by
  obtain ⟨mid, hchunks, hreceived⟩ := checkAll_more hsize hmore
  have hframe := checkAll_frame hchunks
  -- the answer to compare with is still the one of the start
  have hanswer : mid.answer = priv.answer := congrArg TaskMemory.answer hframe
  have hbytes : priv.received ++ delivered (chunks ++ [last]) = mid.received ++ last.content := by
    rw [hreceived, delivered_append, delivered_cons, delivered_nil, List.append_nil,
      List.append_assoc]
  have hsum := mid.length_received_add_needed
  have henough : mid.needed ≤ last.content.length := by
    rw [hbytes, List.length_append] at hall
    omega
  obtain ⟨next, hcheck, -, hempty⟩ := pythonShellcodeCheck_complete hsize last henough
  have hlast : checkMemory size mid.memory last = _ := checkMemory_eq mid last
  rw [hcheck] at hlast
  -- the bytes that are compared are the first ones of all
  have htake : (priv.received ++ delivered (chunks ++ [last])).take ANSWER_LEN =
      mid.received ++ last.content.take mid.needed := by
    rw [hbytes, ← hsum, List.take_length_add_append]
  refine ⟨next, ?_, ?_⟩
  · rw [checkAll_append hchunks, checkAll_cons hlast, htake]
    simp [checkAll, PythonShellcodeTaskPriv.verdict, hanswer]
  · rw [← next.length_received, hempty, List.length_nil]

/-- A task that has got nothing of an answer judges the next one by its bytes. -/
theorem judges_of_fresh (hsize : 0 < size) (h : priv.userAnswerLen = 0) :
    Judges size priv.memory := by
  have hreceived : priv.received = [] := by
    rw [PythonShellcodeTaskPriv.received, h, List.take_zero]
  have hbytes (fps : List (File Char)) : priv.received ++ delivered fps = delivered fps := by
    rw [hreceived, List.nil_append]
  refine ⟨fun chunks hshort => ?_, fun chunks last hshort hlong => ?_⟩
  · rw [← hbytes] at hshort
    obtain ⟨next, hchunks, -⟩ := checkAll_more hsize hshort
    exact ⟨next.memory, hchunks⟩
  · rw [← hbytes] at hshort hlong
    obtain ⟨next, hall, hnext⟩ := checkAll_complete hsize hshort hlong
    rw [hbytes] at hall
    -- the count is what it was, so only the bytes in `user_answer` can differ
    have hframe := checkAll_frame hall
    have hlen : next.memory.userAnswerLen = priv.memory.userAnswerLen := hnext.trans h.symm
    rw [hlen] at hframe
    exact ⟨next.memory, hall, hframe⟩

/-- Between any checks of any task its count is below the length of an answer, and whenever it has
got nothing of an answer, as after it has been generated, the next answer is judged by its bytes. -/
theorem checkAll_chunks (hsize : 0 < size) (priv : PythonShellcodeTaskPriv)
    (earlier : List (File Char)) :
    (∀ rand garbage mallocTask mallocPriv,
      pythonShellcodeGenerate rand garbage mallocTask mallocPriv = some priv →
        priv.memory.userAnswerLen = 0) ∧
    ∃ task verdicts, checkAll size priv.memory earlier = some (task, verdicts) ∧
      task.userAnswerLen < ANSWER_LEN ∧ task.answer = priv.answer ∧
      (task.userAnswerLen = 0 → Judges size task) := by
  refine ⟨fun rand garbage mallocTask mallocPriv hgenerate => ?_, ?_⟩
  · rw [pythonShellcodeGenerate] at hgenerate
    split at hgenerate
    · cases hgenerate
    · split at hgenerate
      · cases hgenerate
      · obtain rfl := Option.some.inj hgenerate
        rfl
  · obtain ⟨next, verdicts, hearlier⟩ := checkAll_memory size priv earlier
    have hanswer := congrArg TaskMemory.answer (checkAll_frame hearlier)
    exact ⟨next.memory, verdicts, hearlier, next.userAnswerLen_lt, hanswer,
      fun hfresh => judges_of_fresh hsize hfresh⟩

theorem ANSWER_LEN_pos : 0 < ANSWER_LEN := by decide

/-- A task whose answer is a row of exclamation marks. -/
def marksTask : PythonShellcodeTaskPriv :=
  { text := none
    textCached := false
    answer := List.replicate ANSWER_LEN '!'
    userAnswer := List.replicate ANSWER_LEN 'x'
    userAnswerLen := 0
    length_answer := List.length_replicate
    length_userAnswer := List.length_replicate
    userAnswerLen_lt := ANSWER_LEN_pos }

theorem checkAll_chunks_marks :
    (∀ rand garbage mallocTask mallocPriv,
      pythonShellcodeGenerate rand garbage mallocTask mallocPriv = some marksTask →
        marksTask.memory.userAnswerLen = 0) ∧
    ∃ task verdicts,
      checkAll 4096 marksTask.memory [.fopen ['!', '!'], .fopen (List.replicate 40 '!')] =
        some (task, verdicts) ∧
      task.userAnswerLen < ANSWER_LEN ∧ task.answer = marksTask.answer ∧
      (task.userAnswerLen = 0 → Judges 4096 task) :=
  checkAll_chunks (by decide) marksTask [.fopen ['!', '!'], .fopen (List.replicate 40 '!')]

end Sequences

end Qkmetisc.PythonShellcode
