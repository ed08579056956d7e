import Qkmetisc.Foundations.Numeral
import Qkmetisc.PythonShellcode.Task

/-!
# Checks of an answer on a socket

`plot_task_check_fd` opens a stream on a copy of the client's descriptor, lets the task's own
function check the answer on it, and closes it. A socket is the list of the bytes that can be
read from it now, since the descriptor does not block.

## Main definitions

* `CheckTask`, `CheckTask.Current`: a task as the generators make it and calls leave it.
* `ReadsNumbers`: what is known of `mpz_inp_str`, which is not part of the repository;
  `readNumber` is a function of which it is true.
* `plotTaskCheckFd`: the check, with what it leaves in the socket and what it did not read.

## Main results

* `plotTaskCheckFd_python_more`, `plotTaskCheckFd_python_complete`, `plotTaskCheckFd_numeral`,
  `plotTaskCheckFd_noNumeral`: what a check of either task answers and leaves.
-/

open Arith BufferedFile Decimal
open Qkmetisc.Server (AnswerState)

namespace Qkmetisc.Checks

open EqGen PythonShellcode

/-! ## Tasks -/

/-- `struct task`: the private part, since that says which functions it has. -/
inductive CheckTask where
  | eq (priv : EqTaskPriv)
  | python (priv : PythonShellcodeTaskPriv)
  /-- The private part is the text of the question. -/
  | echo

/-- `mpz_inp_str` to base 10 on a stream: what it answers and the stream afterwards. -/
abbrev MpzInpStr := File Char → InpStr × File Char

/-- What `mpz_inp_str` does: it reads the numeral the stream starts with, with as many digits as
there are, and answers the number of its bytes; for that it looks at the byte after the last
digit. Without a numeral there, it answers 0. A plus is no sign for it. -/
structure ReadsNumbers (size : ℕ) (mpzInpStr : MpzInpStr) : Prop where
  numeral : ∀ (fp : File Char) (n : Numeral) (rest : List Char), n.sign ≠ .plus →
    fp.content = n.text ++ rest → NoDigitHead rest →
    mpzInpStr fp =
      (⟨n.text.length, n.value⟩, ((fp.fread size n.text.length).2.peek size).2)
  failure : ∀ fp : File Char, (∀ n : Numeral, n.sign ≠ .plus → ¬n.text <+: fp.content) →
    (mpzInpStr fp).1.nread = 0

/-- A function that does so: where it finds no digit it has read the white space, the sign and the
character after them. -/
def readNumber (size : ℕ) : MpzInpStr := fun fp =>
  match scan false fp.content with
  | some n => (⟨n.text.length, n.value⟩, ((fp.fread size n.text.length).2.peek size).2)
  | none =>
    let spaces := fp.content.takeWhile isSpace
    let sign := scanSign false (fp.content.dropWhile isSpace)
    (⟨0, 0⟩, (fp.fread size (spaces.length + sign.text.length + 1)).2)

theorem readNumber_readsNumbers (size : ℕ) : ReadsNumbers size (readNumber size) where
  numeral fp n rest hsign hcontent hrest := by
    have hscan : scan false fp.content = some n := by
      rw [hcontent]
      exact scan_append n (fun hplus => absurd hplus hsign) hrest
    rw [readNumber, hscan]
  failure fp h := by
    cases hscan : scan false fp.content with
    | none => rw [readNumber, hscan]
    | some n =>
      obtain ⟨hplus, rest, hcontent, -⟩ := eq_append_of_scan hscan
      exact absurd ⟨rest, hcontent.symm⟩ (h n fun hsign => Bool.false_ne_true (hplus hsign))

/-- Whether `eq_check` comes to read: it does not if it has to solve the equation and fails. -/
def eqReads (priv : EqTaskPriv) : Bool :=
  priv.answerCached || match eqSolve priv.eq with
    | .ok _ => true
    | .error _ => false

/-- `task_check`, which is all of `plot_task_check`. -/
def taskCheck (size : ℕ) (mpzInpStr : MpzInpStr) (task : CheckTask) (fp : File Char) :
    Except TaskFault ((CheckTask × AnswerState) × File Char) :=
  match task with
  | .eq priv =>
    let out := mpzInpStr fp
    (eqCheck priv out.1).map fun (priv', res) =>
      ((.eq priv', res), if eqReads priv then out.2 else fp)
  | .python priv =>
    let out := pythonShellcodeCheck size priv fp
    .ok ((.python out.1.1, out.1.2), out.2)
  -- `echo_gen_check` looks at nothing
  | .echo => .ok ((.echo, .right), fp)

/-- The tasks that clients can have: one that a generator made, after questions and checks. -/
inductive CheckTask.Current (size : ℕ) (mpzInpStr : MpzInpStr) : CheckTask → Prop
  | eqGenerated {gen : EqGenPriv} {env : Env} {mallocTask mallocPriv : Bool} {priv : EqTaskPriv}
    (h : eqGenGenerate gen env mallocTask mallocPriv = .ok (some priv)) :
    Current size mpzInpStr (.eq priv)
  | pythonGenerated {rand : ℕ → ℕ} {garbage : ℕ → Char} {mallocTask mallocPriv : Bool}
    {priv : PythonShellcodeTaskPriv}
    (h : pythonShellcodeGenerate rand garbage mallocTask mallocPriv = some priv) :
    Current size mpzInpStr (.python priv)
  | echoGenerated : Current size mpzInpStr .echo
  | eqAsked {priv priv' : EqTaskPriv} {mallocText : Option (ℕ → Char)} {mallocQuestion : Bool}
    {question : Option (List Char)} (h : Current size mpzInpStr (.eq priv))
    (hquestion : eqGetQuestion priv mallocText mallocQuestion = .ok (priv', question)) :
    Current size mpzInpStr (.eq priv')
  | pythonAsked {priv priv' : PythonShellcodeTaskPriv} {mallocText : Option (ℕ → Char)}
    {mallocQuestion : Bool} {question : Option (List Char)}
    (h : Current size mpzInpStr (.python priv))
    (hquestion :
      pythonShellcodeGetQuestion priv mallocText mallocQuestion = .ok (priv', question)) :
    Current size mpzInpStr (.python priv')
  | checked {task task' : CheckTask} {res : AnswerState} {fp fp' : File Char}
    (h : Current size mpzInpStr task)
    (hcheck : taskCheck size mpzInpStr task fp = .ok ((task', res), fp')) :
    Current size mpzInpStr task'

/-! ## The check on a socket -/

/-- What a check leaves. -/
structure Checked where
  /-- The task afterwards. -/
  task : CheckTask
  /-- The verdict. -/
  res : AnswerState
  /-- The bytes that the task's function did not read. The source does not keep them. -/
  unread : List Char
  /-- The bytes that can still be read from the socket. -/
  socket : List Char

/-- `plot_task_check_fd`. -/
def plotTaskCheckFd (size : ℕ) (mpzInpStr : MpzInpStr) (dup fdopen : Bool) (task : CheckTask)
    (socket : List Char) : Except TaskFault Checked :=
  if dup = false then .ok { task, res := .wrong, unread := socket, socket }
  else if fdopen = false then .ok { task, res := .wrong, unread := socket, socket }
  else
    (taskCheck size mpzInpStr task (.fopen socket)).map fun ((task, res), fp) =>
      { task, res, unread := fp.content, socket := fp.fclose }

section Sound

variable {size : ℕ} {mpzInpStr : MpzInpStr}

/-- The equation of a task has a value, and what the task has cached agrees with it. -/
def EqSound (priv : EqTaskPriv) : Prop :=
  ∃ v, Derives .expression priv.eq v ∧ (∀ n, Token.nr n ∈ priv.eq → 0 ≤ n) ∧
    TaskInv priv.eq v priv

/-- What holds of every task of a client; a shellcode task carries its own invariant. -/
def CheckTask.Sound : CheckTask → Prop
  | .eq priv => EqSound priv
  | .python _ | .echo => True

/-- A call that keeps the equation keeps what is known of it. -/
theorem EqSound.of_taskInv {eq : List EqElem} {v : ℤ} {priv : EqTaskPriv}
    (hv : Derives .expression eq v) (hnn : ∀ n, Token.nr n ∈ eq → 0 ≤ n)
    (h : TaskInv eq v priv) : EqSound priv := by
  obtain rfl := h.eq_eq
  exact ⟨v, hv, hnn, h⟩

theorem CheckTask.Sound.checked {task task' : CheckTask} {res : AnswerState} {fp fp' : File Char}
    (h : task.Sound) (hcheck : taskCheck size mpzInpStr task fp = .ok ((task', res), fp')) :
    task'.Sound := by
  cases task with
  | python priv =>
    cases hcheck
    trivial
  | echo =>
    cases hcheck
    trivial
  | eq priv =>
    obtain ⟨v, hv, hnn, hinv⟩ := h
    obtain ⟨next, hnext, hinv'⟩ := eqCheck_eq hinv hv (mpzInpStr fp).1
    simp only [taskCheck, hnext, Except.map, Except.ok.injEq, Prod.mk.injEq] at hcheck
    obtain ⟨⟨rfl, -⟩, -⟩ := hcheck
    exact .of_taskInv hv hnn hinv'

theorem CheckTask.Current.sound {task : CheckTask} (h : task.Current size mpzInpStr) :
    task.Sound := by
  induction h with
  | eqGenerated h =>
    obtain ⟨⟨⟨v, hv⟩, -, hnn⟩, hinv⟩ := eqGenGenerate_spec h
    exact ⟨v, hv, hnn, hinv v⟩
  | pythonGenerated | echoGenerated | pythonAsked => trivial
  | eqAsked _ hquestion ih =>
    obtain ⟨v, hv, hnn, hinv⟩ := ih
    exact .of_taskInv hv hnn (eqGetQuestion_spec hinv _ _ hquestion).1
  | checked _ hcheck ih => exact ih.checked hcheck

end Sound

section Verdicts

variable {size : ℕ} {mpzInpStr : MpzInpStr}

/-- The numeral is the answer to the task: it stands for the value of the equation, and the count
of its bytes does not read as 0 in an `int`. -/
def IsAnswer (priv : EqTaskPriv) (n : Numeral) : Prop :=
  Denotes (render priv.eq) n.value ∧ n.text.length % 2 ^ 32 ≠ 0

theorem eqReads_of_sound {priv : EqTaskPriv} (h : EqSound priv) : eqReads priv = true := by
  obtain ⟨v, hv, -, -⟩ := h
  rw [eqReads, eqSolve_of_derives hv, Bool.or_true]

/-- The verdict of `eq_check` on what `mpz_inp_str` answers, and the stream it leaves. -/
theorem taskCheck_eq (size : ℕ) (mpzInpStr : MpzInpStr) {priv : EqTaskPriv} (h : EqSound priv)
    (fp : File Char) :
    ∃ next res, taskCheck size mpzInpStr (.eq priv) fp = .ok ((.eq next, res), (mpzInpStr fp).2) ∧
      res ≠ .more ∧ (res = .right ↔ (mpzInpStr fp).1.nread % 2 ^ 32 ≠ 0 ∧
        Denotes (render priv.eq) (mpzInpStr fp).1.value) := by
  have hreads := eqReads_of_sound h
  obtain ⟨v, hv, hnn, hinv⟩ := h
  obtain ⟨next, hcheck, -⟩ := eqCheck_eq hinv hv (mpzInpStr fp).1
  have hvalue : Denotes (render priv.eq) (mpzInpStr fp).1.value ↔ (mpzInpStr fp).1.value = v :=
    ⟨fun hd => denotes_unique hd (hv.denotes hnn), fun hd => hd ▸ hv.denotes hnn⟩
  have htask {res : AnswerState} (hres : eqCheck priv (mpzInpStr fp).1 = .ok (next, res)) :
      taskCheck size mpzInpStr (.eq priv) fp = .ok ((.eq next, res), (mpzInpStr fp).2) := by
    simp only [taskCheck, hres, hreads, if_true]
    rfl
  rw [hvalue]
  by_cases hright : (mpzInpStr fp).1.nread % 2 ^ 32 ≠ 0 ∧ (mpzInpStr fp).1.value = v
  · rw [if_pos hright] at hcheck
    exact ⟨next, .right, htask hcheck, by decide, iff_of_true rfl hright⟩
  · rw [if_neg hright] at hcheck
    exact ⟨next, .wrong, htask hcheck, by decide, iff_of_false (by decide) hright⟩

/-- An equation's answer that starts with a numeral: the verdict is that on the numeral, and
nothing is lost exactly if nothing follows it. -/
theorem plotTaskCheckFd_numeral (hsize : 0 < size) (hinp : ReadsNumbers size mpzInpStr)
    {priv : EqTaskPriv} (h : EqSound priv) {socket : List Char} {n : Numeral}
    (hscan : scan false socket = some n) :
    ∃ c, plotTaskCheckFd size mpzInpStr true true (.eq priv) socket = .ok c ∧ c.res ≠ .more ∧
      (c.res = .right ↔ IsAnswer priv n) ∧ (c.socket = c.unread ↔ socket = n.text) := by
  obtain ⟨hplus, rest, rfl, hrest⟩ := eq_append_of_scan hscan
  have hread := hinp.numeral (.fopen (n.text ++ rest)) n rest
    (fun hsign => Bool.false_ne_true (hplus hsign)) rfl hrest
  obtain ⟨next, res, hcheck, hmore, hright⟩ :=
    taskCheck_eq size mpzInpStr h (.fopen (n.text ++ rest))
  rw [hread] at hcheck hright
  let fp := (((File.fopen (n.text ++ rest)).fread size n.text.length).2.peek size).2
  refine ⟨{ task := .eq next, res, unread := fp.content, socket := fp.fclose }, ?_, hmore,
    hright.trans and_comm, ?_⟩
  · rw [plotTaskCheckFd, if_neg (by decide), if_neg (by decide), hcheck]
    rfl
  · -- the byte after the numeral has been looked at, so it is in the buffer
    have hlost := File.fclose_peek_fread_iff (n := n.text.length) hsize (n.text ++ rest)
    have hcontent : fp.content = (n.text ++ rest).drop n.text.length := by
      rw [show fp.content = _ from File.content_refill size _]
      exact (File.fread_eq hsize _ _).2
    rw [hcontent, hlost]
    constructor
    · intro hle
      rw [List.length_append] at hle
      rw [List.eq_nil_of_length_eq_zero (show rest.length = 0 by omega), List.append_nil]
    · intro heq
      exact le_of_eq (congrArg List.length heq)

/-- Without a numeral at its start the answer to an equation is wrong. -/
theorem plotTaskCheckFd_noNumeral (hinp : ReadsNumbers size mpzInpStr)
    {priv : EqTaskPriv} (h : EqSound priv) {socket : List Char}
    (hscan : scan false socket = none) :
    ∃ c, plotTaskCheckFd size mpzInpStr true true (.eq priv) socket = .ok c ∧ c.res = .wrong := by
  have hzero : (mpzInpStr (.fopen socket)).1.nread = 0 := by
    refine hinp.failure _ fun n hsign hprefix => ?_
    obtain ⟨m, hm⟩ := exists_scan_of_prefix (fun hplus => absurd hplus hsign) hprefix
    rw [File.content_fopen, hscan] at hm
    cases hm
  obtain ⟨next, res, hcheck, hmore, hright⟩ := taskCheck_eq size mpzInpStr h (.fopen socket)
  let fp := (mpzInpStr (.fopen socket)).2
  refine ⟨{ task := .eq next, res, unread := fp.content, socket := fp.fclose }, ?_, ?_⟩
  · rw [plotTaskCheckFd, if_neg (by decide), if_neg (by decide), hcheck]
    rfl
  · cases res with
    | wrong => rfl
    | more => exact absurd rfl hmore
    | right =>
      have hcount := (hright.1 rfl).1
      rw [hzero] at hcount
      exact absurd rfl hcount

variable {priv : PythonShellcodeTaskPriv} {socket : List Char} (mpzInpStr : MpzInpStr)

/-- Too few bytes for a shellcode task: they are kept, and the check answers that more are
needed. -/
theorem plotTaskCheckFd_python_more (hsize : 0 < size) (h : socket.length < priv.needed) :
    ∃ next, plotTaskCheckFd size mpzInpStr true true (.python priv) socket =
        .ok { task := .python next, res := .more, unread := [], socket := [] } ∧
      next.answer = priv.answer ∧ next.received = priv.received ++ socket := by
  obtain ⟨next, hcheck, hanswer, hreceived⟩ :=
    pythonShellcodeCheck_more hsize (.fopen socket) h
  refine ⟨next, ?_, hanswer, hreceived⟩
  have hcontent : (((File.fopen socket).fread size priv.needed).2).content = [] := by
    rw [(File.fread_eq hsize _ _).2]
    exact List.drop_eq_nil_of_le (le_of_lt h)
  rw [plotTaskCheckFd, if_neg (by decide), if_neg (by decide), taskCheck, hcheck]
  simp only [Except.map, hcontent]
  rw [File.fclose, (List.append_eq_nil_iff.1 hcontent).2]

/-- Enough bytes for a shellcode task: the verdict is that on the first ones, and nothing is lost
exactly if there are no others or the buffer is used up. -/
theorem plotTaskCheckFd_python_complete (hsize : 0 < size) (h : priv.needed ≤ socket.length) :
    ∃ c, plotTaskCheckFd size mpzInpStr true true (.python priv) socket = .ok c ∧
      c.res = priv.verdict (priv.received ++ socket.take priv.needed) ∧
      (c.socket = c.unread ↔ socket.length ≤ priv.needed ∨ size ∣ priv.needed) := by
  obtain ⟨next, hcheck, -, -⟩ := pythonShellcodeCheck_complete hsize (.fopen socket) h
  let fp := ((File.fopen socket).fread size priv.needed).2
  refine ⟨{ task := .python next, res := _, unread := fp.content, socket := fp.fclose },
    ?_, rfl, ?_⟩
  · rw [plotTaskCheckFd, if_neg (by decide), if_neg (by decide), taskCheck, hcheck]
    rfl
  · rw [← File.fclose_fread_iff hsize socket, show fp.content = _ from (File.fread_eq hsize _ _).2]
    rfl

end Verdicts

/-- The task of the equation `12`. -/
def twelveTask : EqTaskPriv :=
  { eq := [.nr 12], textRc := none, textCached := false, answer := 0, answerCached := false }

theorem twelveTask_current (size : ℕ) (mpzInpStr : MpzInpStr) :
    CheckTask.Current size mpzInpStr (.eq twelveTask) :=
  have h : eqGenGenerate ⟨1, 1, 100, eqElemSum⟩ ⟨fun _ => 0, fun _ => 12, fun _ => true⟩ true true =
    .ok (some twelveTask) := rfl
  .eqGenerated h

theorem denotes_twelveTask {v : ℤ} : Denotes (render twelveTask.eq) v ↔ v = 12 := by
  have hv : Derives .expression twelveTask.eq 12 := .term (.primary (.number 12))
  have hdenotes := hv.denotes (by simp [twelveTask])
  exact ⟨fun h => denotes_unique h hdenotes, fun h => h ▸ hdenotes⟩

end Qkmetisc.Checks
