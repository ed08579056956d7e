import Qkmetisc.EqGen.Task
import Qkmetisc.Foundations.BufferedFile

/-!
# Shellcode tasks (`python_shellcode_gen.c`)

A task whose answer is a row of random characters, shown at the end of a piece of shellcode. A
check asks for the bytes of the answer that are still missing and keeps those it gets until the
answer is complete.

## Main definitions

* `PythonShellcodeTaskPriv`: the task; the lengths of its arrays are part of it.
* `pythonShellcodeGenerate`, `pythonShellcodeGetQuestion`, `pythonShellcodeCheck`: its functions.
* `PythonShellcodeTaskPriv.received`: the part of the answer that is there.

## Main results

* `pythonShellcodeCheck_more`, `pythonShellcodeCheck_complete`: what a check does with the bytes
  it finds.
-/

open BufferedFile (File)
open Qkmetisc.EqGen (RcMem rcmemAlloc rcmemTake TaskFault NUL)
open Qkmetisc.Server (AnswerState)

namespace Qkmetisc.PythonShellcode

def ANSWER_LEN : ℕ := 32

/-- `python_shellcode`, of length `python_shellcode_len`. -/
def pythonShellcode : List Char :=
  "__import__(\"os\").system(\"shutdown\")#Hehehe, answer: ".toList

/-- `fill_rand_chars` of `len` characters, given what `rand` answers. -/
def fillRandChars (rand : ℕ → ℕ) (len : ℕ) : List Char :=
  (List.range len).map fun i =>
    Char.ofNat (rand i % ('~'.toNat - '!'.toNat + 1) + '!'.toNat)

/-- `struct python_shellcode_task_priv`. -/
structure PythonShellcodeTaskPriv where
  /-- The text of the question, once written. -/
  text : Option RcMem
  /-- Whether `text` is there. -/
  textCached : Bool
  answer : List Char
  /-- `user_answer`, with whatever was in the memory after its first `userAnswerLen` bytes. -/
  userAnswer : List Char
  userAnswerLen : ℕ
  length_answer : answer.length = ANSWER_LEN
  length_userAnswer : userAnswer.length = ANSWER_LEN
  userAnswerLen_lt : userAnswerLen < ANSWER_LEN

/-- `python_shellcode_genenerate`, given what was in the memory of the task. -/
def pythonShellcodeGenerate (rand : ℕ → ℕ) (garbage : ℕ → Char) (mallocTask mallocPriv : Bool) :
    Option PythonShellcodeTaskPriv :=
  if mallocTask = false then none
  else if mallocPriv = false then none
  else
    some {
      text := none
      textCached := false
      answer := fillRandChars rand ANSWER_LEN
      userAnswer := (List.range ANSWER_LEN).map garbage
      userAnswerLen := 0
      length_answer := by simp [fillRandChars]
      length_userAnswer := by simp
      userAnswerLen_lt := by decide }

/-- The first half of `python_shellcode_get_question`, which writes the text unless it is there
already: the task with the text, or without it if that fails. -/
def pythonShellcodeCacheText (priv : PythonShellcodeTaskPriv) (mallocText : Option (ℕ → Char)) :
    Except TaskFault (PythonShellcodeTaskPriv × Bool) :=
  if priv.textCached then .ok (priv, true)
  else if priv.text.isSome then .error .assertFailed
  else
    let totalSize := pythonShellcode.length + ANSWER_LEN + 1
    match rcmemAlloc totalSize mallocText with
    | none => .ok (priv, false)
    | some text =>
      let mem := storeAt text.mem 0 pythonShellcode
      let mem := storeAt mem pythonShellcode.length priv.answer
      let mem := storeAt mem (totalSize - 1) [NUL]
      .ok ({ priv with text := some { text with mem }, textCached := true }, true)

/-- `python_shellcode_get_question`: the task and the buffer of the question, none for `NULL`. -/
def pythonShellcodeGetQuestion (priv : PythonShellcodeTaskPriv) (mallocText : Option (ℕ → Char))
    (mallocQuestion : Bool) : Except TaskFault (PythonShellcodeTaskPriv × Option (List Char)) :=
  match pythonShellcodeCacheText priv mallocText with
  | .error e => .error e
  | .ok (priv, false) => .ok (priv, none)
  | .ok (priv, true) =>
    if mallocQuestion = false then .ok (priv, none)  -- at least the text is cached
    else
      match priv.text with
      | none => .error .nullAccess
      | some text =>
        match rcmemTake text with
        | none => .error .assertFailed
        | some text => .ok ({ priv with text := some text }, some text.mem)

namespace PythonShellcodeTaskPriv

/-- How many bytes of the answer are missing. -/
def needed (priv : PythonShellcodeTaskPriv) : ℕ := ANSWER_LEN - priv.userAnswerLen

/-- The bytes of the answer that are there. -/
def received (priv : PythonShellcodeTaskPriv) : List Char :=
  priv.userAnswer.take priv.userAnswerLen

theorem length_received (priv : PythonShellcodeTaskPriv) :
    priv.received.length = priv.userAnswerLen := by
  have := priv.length_userAnswer
  have := priv.userAnswerLen_lt
  rw [received, List.length_take]
  omega

theorem length_received_add_needed (priv : PythonShellcodeTaskPriv) :
    priv.received.length + priv.needed = ANSWER_LEN := by
  have := priv.userAnswerLen_lt
  rw [length_received, needed]
  omega

/-- `memcmp` with the answer. -/
def verdict (priv : PythonShellcodeTaskPriv) (userAnswer : List Char) : AnswerState :=
  if userAnswer = priv.answer then .right else .wrong

end PythonShellcodeTaskPriv

/-- `python_shellcode_check` of a stream whose buffer has the given size: the task afterwards,
the verdict and the stream. -/
def pythonShellcodeCheck (size : ℕ) (priv : PythonShellcodeTaskPriv) (fp : File Char) :
    (PythonShellcodeTaskPriv × AnswerState) × File Char :=
  let needed := ANSWER_LEN - priv.userAnswerLen
  let read := fp.fread size needed
  let userAnswer := storeAt priv.userAnswer priv.userAnswerLen read.1
  have hstored : userAnswer.length = ANSWER_LEN := by
    have := priv.length_userAnswer
    have := priv.userAnswerLen_lt
    have : read.1.length ≤ ANSWER_LEN - priv.userAnswerLen := fp.length_fread_le size _
    rw [length_storeAt (by omega), priv.length_userAnswer]
  if h : read.1.length < needed then
    (({ priv with
        userAnswer
        userAnswerLen := priv.userAnswerLen + read.1.length
        length_userAnswer := hstored
        userAnswerLen_lt := by omega }, .more), read.2)
  else
    -- the answer is complete; with the length 0 the next check starts another one
    (({ priv with
        userAnswer
        userAnswerLen := 0
        length_userAnswer := hstored
        userAnswerLen_lt := by decide }, priv.verdict userAnswer), read.2)

section Check

variable {size : ℕ} {priv : PythonShellcodeTaskPriv}

/-- What has been stored after the bytes that were there. -/
theorem take_storeAt_userAnswer (priv : PythonShellcodeTaskPriv) (data : List Char) :
    (storeAt priv.userAnswer priv.userAnswerLen data).take (priv.userAnswerLen + data.length) =
      priv.received ++ data := by
  have h := priv.length_received
  rw [storeAt, ← PythonShellcodeTaskPriv.received, List.take_append_of_le_length]
  · rw [List.take_of_length_le]
    rw [List.length_append, h]
  · rw [List.length_append, h]

/-- Fewer bytes than are missing: all of them are kept, and nothing is left in the stream. -/
theorem pythonShellcodeCheck_more (hsize : 0 < size) (fp : File Char)
    (h : fp.content.length < priv.needed) :
    ∃ priv', pythonShellcodeCheck size priv fp =
        ((priv', .more), (fp.fread size priv.needed).2) ∧
      priv'.answer = priv.answer ∧ priv'.received = priv.received ++ fp.content := by
  have hread : (fp.fread size (ANSWER_LEN - priv.userAnswerLen)).1 = fp.content := by
    rw [(File.fread_eq hsize _ fp).1]
    exact List.take_of_length_le (le_of_lt h)
  unfold pythonShellcodeCheck
  simp only [hread]
  rw [dif_pos (show fp.content.length < ANSWER_LEN - priv.userAnswerLen from h)]
  exact ⟨_, rfl, rfl, take_storeAt_userAnswer _ _⟩

/-- As many bytes as are missing, or more: the answer is complete and compared, and the next check
starts from nothing. -/
theorem pythonShellcodeCheck_complete (hsize : 0 < size) (fp : File Char)
    (h : priv.needed ≤ fp.content.length) :
    ∃ priv', pythonShellcodeCheck size priv fp =
        ((priv', priv.verdict (priv.received ++ fp.content.take priv.needed)),
          (fp.fread size priv.needed).2) ∧
      priv'.answer = priv.answer ∧ priv'.received = [] := by
  have hlength : (fp.content.take priv.needed).length = priv.needed := List.length_take_of_le h
  have hread : (fp.fread size (ANSWER_LEN - priv.userAnswerLen)).1 =
      fp.content.take priv.needed := (File.fread_eq hsize _ fp).1
  have hstored : storeAt priv.userAnswer priv.userAnswerLen (fp.content.take priv.needed) =
      priv.received ++ fp.content.take priv.needed := by
    -- the array is filled to its end
    have hall := take_storeAt_userAnswer priv (fp.content.take priv.needed)
    rwa [List.take_of_length_le] at hall
    have := priv.length_received
    have := priv.length_received_add_needed
    have := priv.length_userAnswer
    rw [length_storeAt] <;> omega
  unfold pythonShellcodeCheck
  simp only [hread, hstored]
  rw [dif_neg (show ¬(fp.content.take priv.needed).length < ANSWER_LEN - priv.userAnswerLen from
    Nat.not_lt_of_ge hlength.ge)]
  exact ⟨_, rfl, rfl, rfl⟩

end Check

end Qkmetisc.PythonShellcode
