import Qkmetisc.Checks.Task

/-!
# Answers that arrive in segments

A socket can deliver an answer in pieces, each of which wakes the worker and is checked by
itself. The worker acts on the first verdict that does not ask for more.

The check of a shellcode task keeps what it has got, so that only the bytes count. The check of an
equation judges the first piece alone: its verdict is the same for all pieces only if every first
piece is wrong, or every one is right.

## Main definitions

* `Cutting`: a way to cut an answer into segments.
* `finalVerdict`: the verdict the worker acts on.
* `SameVerdict`: the cut does not matter.
* `Unambiguous`: the condition on the task and the answer under which it does not.

## Main results

* `finalVerdict_python`, `finalVerdict_eq`: the verdicts on an answer in segments.
* `sameVerdict_iff`: the condition is exact.
-/

open Arith BufferedFile Decimal
open Qkmetisc.Server (AnswerState)

namespace Qkmetisc.Checks

open EqGen PythonShellcode

/-- The segments make up the answer. An empty one wakes nobody. -/
structure Cutting (answer : List Char) (segs : List (List Char)) : Prop where
  flatten : segs.flatten = answer
  ne_nil : ∀ seg ∈ segs, seg ≠ []

/-- The verdict the worker acts on while `segs` arrive one after the other, none if it still waits
for more after the last. -/
def finalVerdict (size : ℕ) (mpzInpStr : MpzInpStr) :
    CheckTask → List Char → List (List Char) → Except TaskFault (Option AnswerState)
  | _, _, [] => .ok none
  | task, socket, seg :: segs =>
    match plotTaskCheckFd size mpzInpStr true true task (socket ++ seg) with
    | .error e => .error e
    | .ok c =>
      match c.res with
      | .more => finalVerdict size mpzInpStr c.task c.socket segs
      | res => .ok (some res)

/-- However the answer is cut, the verdict is the same. -/
def SameVerdict (size : ℕ) (mpzInpStr : MpzInpStr) (task : CheckTask) (answer : List Char) : Prop :=
  ∀ segs segs', Cutting answer segs → Cutting answer segs' →
    finalVerdict size mpzInpStr task [] segs = finalVerdict size mpzInpStr task [] segs'

/-- A condition on the answer to an equation: either no beginning of it is a numeral that answers
the task, or its first byte alone is one and so is every other beginning that is a numeral. -/
def Unambiguous : CheckTask → List Char → Prop
  | .eq priv, answer =>
    (∀ n : Numeral, n.sign ≠ .plus → n.text <+: answer → ¬IsAnswer priv n) ∨
      (∃ n : Numeral, n.sign ≠ .plus ∧ n.text = answer.take 1) ∧
        ∀ n : Numeral, n.sign ≠ .plus → n.text <+: answer → IsAnswer priv n
  | .python _, _ => True
  | .echo, _ => True

/-- A beginning of an answer can be its first segment. -/
theorem Cutting.exists_of_prefix {first answer : List Char} (h : first <+: answer)
    (hne : first ≠ []) : ∃ segs, Cutting answer (first :: segs) := by
  obtain ⟨rest, rfl⟩ := h
  by_cases hrest : rest = []
  · exact ⟨[], by simp [hrest], by simpa using hne⟩
  · exact ⟨[rest], by simp, by simp [hne, hrest]⟩

/-- The first segment is a beginning of the answer. -/
theorem Cutting.prefix {first answer : List Char} {segs : List (List Char)}
    (h : Cutting answer (first :: segs)) : first <+: answer :=
  ⟨segs.flatten, by rw [← h.flatten, List.flatten_cons]⟩

/-- Only an empty answer has no first segment. -/
theorem Cutting.eq_nil_iff {answer : List Char} {segs : List (List Char)}
    (h : Cutting answer segs) : segs = [] ↔ answer = [] := by
  rw [← h.flatten, List.flatten_eq_nil_iff]
  constructor
  · rintro rfl
    simp
  · intro hall
    exact List.eq_nil_iff_forall_not_mem.2 fun seg hseg => h.ne_nil seg hseg (hall seg hseg)

section Verdicts

variable {size : ℕ} {mpzInpStr : MpzInpStr}

/-- Only cuts that have a first segment need to be compared. -/
theorem sameVerdict_of_cons {task : CheckTask} {answer : List Char}
    (h : ∀ first rest first' rest', Cutting answer (first :: rest) →
      Cutting answer (first' :: rest') →
      finalVerdict size mpzInpStr task [] (first :: rest) =
        finalVerdict size mpzInpStr task [] (first' :: rest')) :
    SameVerdict size mpzInpStr task answer := by
  intro segs segs' hsegs hsegs'
  have hnil : segs = [] ↔ segs' = [] := hsegs.eq_nil_iff.trans hsegs'.eq_nil_iff.symm
  match segs, segs' with
  | [], [] => rfl
  | [], _ :: _ => exact absurd (hnil.1 rfl) (List.cons_ne_nil _ _)
  | _ :: _, [] => exact absurd (hnil.2 rfl) (List.cons_ne_nil _ _)
  | first :: rest, first' :: rest' => exact h _ _ _ _ hsegs hsegs'

/-- A verdict that does not ask for more is final. -/
theorem finalVerdict_of_res {task : CheckTask} {socket seg : List Char} {segs : List (List Char)}
    {c : Checked}
    (h : plotTaskCheckFd size mpzInpStr true true task (socket ++ seg) = .ok c)
    (hres : c.res ≠ .more) :
    finalVerdict size mpzInpStr task socket (seg :: segs) = .ok (some c.res) := by
  rw [finalVerdict, h]
  cases hc : c.res with
  | more => exact absurd hc hres
  | wrong | right => simp [hc]

/-- What a shellcode task says of the bytes it has got, however they came. -/
def pythonVerdict (priv : PythonShellcodeTaskPriv) (answer : List Char) : Option AnswerState :=
  if answer.length < priv.needed then none
  else some (priv.verdict (priv.received ++ answer.take priv.needed))

/-- The verdict on a shellcode task depends on the bytes only. -/
theorem finalVerdict_python (hsize : 0 < size) (priv : PythonShellcodeTaskPriv)
    (segs : List (List Char)) :
    finalVerdict size mpzInpStr (.python priv) [] segs = .ok (pythonVerdict priv segs.flatten) := by
  induction segs generalizing priv with
  | nil =>
    have hneeded : 0 < priv.needed := by
      have := priv.userAnswerLen_lt
      rw [PythonShellcodeTaskPriv.needed]
      omega
    rw [finalVerdict, List.flatten_nil, pythonVerdict, if_pos (by simpa using hneeded)]
  | cons seg segs ih =>
    by_cases hmore : seg.length < priv.needed
    · -- the bytes of the segment count as received when the others come
      obtain ⟨next, hcheck, hanswer, hreceived⟩ :=
        plotTaskCheckFd_python_more mpzInpStr hsize hmore
      have hneeded : next.needed = priv.needed - seg.length := by
        have h := priv.length_received_add_needed
        have h' := next.length_received_add_needed
        rw [hreceived, List.length_append] at h'
        omega
      have hverdict : next.verdict = priv.verdict := by
        ext userAnswer
        rw [PythonShellcodeTaskPriv.verdict, PythonShellcodeTaskPriv.verdict, hanswer]
      rw [finalVerdict, List.nil_append, hcheck]
      show finalVerdict size mpzInpStr (.python next) [] segs = _
      rw [ih, pythonVerdict, pythonVerdict, hverdict, hreceived, hneeded, List.flatten_cons,
        List.length_append, List.take_append, List.take_of_length_le (le_of_lt hmore),
        List.append_assoc]
      congr 1
      exact if_congr (by omega) rfl rfl
    · obtain ⟨c, hcheck, hres, -⟩ :=
        plotTaskCheckFd_python_complete mpzInpStr hsize (Nat.not_lt.1 hmore)
      have hfinal : c.res ≠ .more := by
        rw [hres, PythonShellcodeTaskPriv.verdict]
        split <;> simp
      rw [finalVerdict_of_res (by rwa [List.nil_append]) hfinal, hres, List.flatten_cons,
        pythonVerdict, if_neg (by rw [List.length_append]; omega),
        List.take_append_of_le_length (Nat.not_lt.1 hmore)]

/-- The verdict on the answer to an equation is that on its first segment. -/
theorem finalVerdict_eq (hsize : 0 < size) (hinp : ReadsNumbers size mpzInpStr)
    {priv : EqTaskPriv} (h : EqSound priv) (seg : List Char) (segs : List (List Char)) :
    ∃ res, finalVerdict size mpzInpStr (.eq priv) [] (seg :: segs) = .ok (some res) ∧
      res ≠ .more ∧ (res = .right ↔ ∃ n, scan false seg = some n ∧ IsAnswer priv n) := by
  cases hscan : scan false seg with
  | none =>
    obtain ⟨c, hcheck, hres⟩ := plotTaskCheckFd_noNumeral hinp h hscan
    refine ⟨c.res, finalVerdict_of_res hcheck (by simp [hres]), by simp [hres], ?_⟩
    simp [hres]
  | some n =>
    obtain ⟨c, hcheck, hmore, hright, -⟩ := plotTaskCheckFd_numeral hsize hinp h hscan
    refine ⟨c.res, finalVerdict_of_res hcheck hmore, hmore, ?_⟩
    rw [hright]
    simp

/-- A first segment is judged right. -/
def JudgedRight (priv : EqTaskPriv) (first : List Char) : Prop :=
  ∃ n, scan false first = some n ∧ IsAnswer priv n

/-- A numeral by itself is judged by whether it answers the task. -/
theorem judgedRight_text {priv : EqTaskPriv} {n : Numeral} (hsign : n.sign ≠ .plus) :
    JudgedRight priv n.text ↔ IsAnswer priv n := by
  have hscan : scan false (n.text ++ []) = some n :=
    scan_append n (fun hplus => absurd hplus hsign) noDigitHead_nil
  rw [List.append_nil] at hscan
  rw [JudgedRight, hscan]
  simp

/-- The cut of an answer to an equation does not matter exactly if all its beginnings are judged
alike. -/
theorem sameVerdict_eq_iff (hsize : 0 < size) (hinp : ReadsNumbers size mpzInpStr)
    {priv : EqTaskPriv} (h : EqSound priv) (answer : List Char) :
    SameVerdict size mpzInpStr (.eq priv) answer ↔
      ∀ first first', first <+: answer → first' <+: answer → first ≠ [] → first' ≠ [] →
        (JudgedRight priv first ↔ JudgedRight priv first') := by
  constructor
  · intro hsame first first' hprefix hprefix' hne hne'
    obtain ⟨segs, hsegs⟩ := Cutting.exists_of_prefix hprefix hne
    obtain ⟨segs', hsegs'⟩ := Cutting.exists_of_prefix hprefix' hne'
    obtain ⟨res, hres, -, hright⟩ := finalVerdict_eq hsize hinp h first segs
    obtain ⟨res', hres', -, hright'⟩ := finalVerdict_eq hsize hinp h first' segs'
    have heq := hsame _ _ hsegs hsegs'
    rw [hres, hres', Except.ok.injEq, Option.some.injEq] at heq
    rw [JudgedRight, ← hright, JudgedRight, ← hright', heq]
  · intro halike
    refine sameVerdict_of_cons fun first rest first' rest' hsegs hsegs' => ?_
    obtain ⟨res, hres, hmore, hright⟩ := finalVerdict_eq hsize hinp h first rest
    obtain ⟨res', hres', hmore', hright'⟩ := finalVerdict_eq hsize hinp h first' rest'
    have hiff : res = .right ↔ res' = .right := by
      rw [hright, hright']
      exact halike _ _ hsegs.prefix hsegs'.prefix (hsegs.ne_nil _ List.mem_cons_self)
        (hsegs'.ne_nil _ List.mem_cons_self)
    rw [hres, hres']
    -- neither verdict asks for more
    cases res <;> cases res' <;> simp_all

/-- A beginning of an answer is judged by the numeral it starts with. -/
theorem unambiguous_eq_iff (priv : EqTaskPriv) (answer : List Char) :
    Unambiguous (.eq priv) answer ↔
      ∀ first first', first <+: answer → first' <+: answer → first ≠ [] → first' ≠ [] →
        (JudgedRight priv first ↔ JudgedRight priv first') := by
  constructor
  · rintro (hnone | ⟨⟨n, hsign, hone⟩, hall⟩) first first' hprefix hprefix' hne hne'
    · have hwrong : ∀ p, p <+: answer → ¬JudgedRight priv p := by
        rintro p hp ⟨m, hm, hanswer⟩
        obtain ⟨hplus, rest, rfl, -⟩ := eq_append_of_scan hm
        exact hnone m (fun hs => Bool.false_ne_true (hplus hs)) ((List.prefix_append _ _).trans hp)
          hanswer
      exact iff_of_false (hwrong first hprefix) (hwrong first' hprefix')
    · have hright : ∀ p, p <+: answer → p ≠ [] → JudgedRight priv p := by
        intro p hp hpne
        -- the one-digit numeral starts every beginning, so there is a numeral to judge
        have hstart : n.text <+: p := by
          rw [hone]
          refine List.prefix_of_prefix_length_le (List.take_prefix 1 answer) hp ?_
          have := List.length_pos_iff.2 hpne
          rw [List.length_take]
          omega
        obtain ⟨m, hm⟩ := exists_scan_of_prefix (fun hs => absurd hs hsign) hstart
        obtain ⟨hplus, rest, hrest, -⟩ := eq_append_of_scan hm
        exact ⟨m, hm, hall m (fun hs => Bool.false_ne_true (hplus hs))
          (.trans ⟨rest, hrest.symm⟩ hp)⟩
      exact iff_of_true (hright first hprefix hne) (hright first' hprefix' hne')
  · intro halike
    by_cases hexists : ∃ n : Numeral, n.sign ≠ .plus ∧ n.text <+: answer ∧ IsAnswer priv n
    · obtain ⟨n, hsign, hprefix, hanswer⟩ := hexists
      have hright : ∀ p, p <+: answer → p ≠ [] → JudgedRight priv p := fun p hp hpne =>
        (halike p n.text hp hprefix hpne n.text_ne_nil).2 ((judgedRight_text hsign).2 hanswer)
      refine .inr ⟨?_, fun m hm hmprefix =>
        (judgedRight_text hm).1 (hright m.text hmprefix m.text_ne_nil)⟩
      -- the first byte alone is judged right, so it is a numeral
      have hpos : 0 < answer.length :=
        lt_of_lt_of_le (List.length_pos_iff.2 n.text_ne_nil) hprefix.length_le
      have hone : (answer.take 1).length = 1 := by
        rw [List.length_take]
        omega
      obtain ⟨m, hm, -⟩ := hright (answer.take 1) (List.take_prefix 1 answer)
        (List.length_pos_iff.1 (by omega))
      obtain ⟨hplus, rest, hrest, -⟩ := eq_append_of_scan hm
      refine ⟨m, fun hs => Bool.false_ne_true (hplus hs), ?_⟩
      have hlength := congrArg List.length hrest
      have hmpos := List.length_pos_iff.2 m.text_ne_nil
      rw [hone, List.length_append] at hlength
      rw [hrest, List.eq_nil_of_length_eq_zero (show rest.length = 0 by omega), List.append_nil]
    · exact .inl fun n hsign hprefix hanswer => hexists ⟨n, hsign, hprefix, hanswer⟩

/-- For every task a client can have and every answer: all cuts of the answer lead to the same
verdict exactly if the answer is unambiguous, which the answers to shellcode tasks all are. -/
theorem sameVerdict_iff (hsize : 0 < size) (hinp : ReadsNumbers size mpzInpStr)
    {task : CheckTask} (htask : task.Current size mpzInpStr) (answer : List Char) :
    SameVerdict size mpzInpStr task answer ↔ Unambiguous task answer := by
  cases task with
  | eq priv =>
    have hsound : EqSound priv := htask.sound
    rw [sameVerdict_eq_iff hsize hinp hsound, unambiguous_eq_iff]
  | python priv =>
    refine iff_of_true ?_ trivial
    intro segs segs' hsegs hsegs'
    rw [finalVerdict_python hsize, finalVerdict_python hsize, hsegs.flatten, hsegs'.flatten]
  | echo => exact iff_of_true (sameVerdict_of_cons fun _ _ _ _ _ _ => rfl) trivial

/-- An answer that is wrong in every way it can be cut. -/
theorem sameVerdict_wrong_answer :
    SameVerdict 4096 (readNumber 4096) (.eq twelveTask) ['1', '3', '\n'] := by
  refine (sameVerdict_iff (by decide) (readNumber_readsNumbers _)
    (twelveTask_current _ _) _).2
    (.inl fun n hsign hprefix hanswer => ?_)
  have hscan : scan false (n.text ++ []) = some n :=
    scan_append n (fun hplus => absurd hplus hsign) noDigitHead_nil
  have hall : ∀ k ≤ 3, (scan false (['1', '3', '\n'].take k)).map Numeral.value ≠ some 12 := by
    decide
  rw [List.append_nil, List.prefix_iff_eq_take.1 hprefix] at hscan
  refine hall _ hprefix.length_le ?_
  rw [hscan, Option.map_some, denotes_twelveTask.1 hanswer.1]

/-- The number 12 in one piece is right, and in two pieces it is taken for 1. -/
theorem not_sameVerdict_two_segments :
    ¬∀ (size : ℕ) (mpzInpStr : MpzInpStr), 0 < size → ReadsNumbers size mpzInpStr →
      ∀ task, CheckTask.Current size mpzInpStr task →
        ∀ answer, SameVerdict size mpzInpStr task answer := by
  intro hall
  have htask := twelveTask_current 4096 (readNumber 4096)
  have hsame := hall 4096 _ (by decide) (readNumber_readsNumbers _) _ htask ['1', '2', '\n']
    [['1', '2', '\n']] [['1'], ['2', '\n']] ⟨rfl, by decide⟩ ⟨rfl, by decide⟩
  have hfinal := finalVerdict_eq (show 0 < 4096 by decide) (readNumber_readsNumbers 4096)
    (show EqSound twelveTask from htask.sound)
  obtain ⟨res, hres, -, hright⟩ := hfinal ['1', '2', '\n'] []
  obtain ⟨res', hres', -, hright'⟩ := hfinal ['1'] [['2', '\n']]
  rw [hres, hres', Except.ok.injEq, Option.some.injEq] at hsame
  -- the whole answer is the numeral 12, and its first byte the numeral 1
  have hwhole : (scan false ['1', '2', '\n']).map (fun n => (n.value, n.text.length)) =
      some (12, 2) := by decide
  obtain ⟨n, hn, hn12⟩ := Option.map_eq_some_iff.1 hwhole
  rw [Prod.mk.injEq] at hn12
  have hanswer : IsAnswer twelveTask n := ⟨denotes_twelveTask.2 hn12.1, by rw [hn12.2]; decide⟩
  have hfirst : (scan false ['1']).map Numeral.value = some 1 := by decide
  obtain ⟨m, hm, hmanswer⟩ := hright'.1 (hsame ▸ hright.2 ⟨n, hn, hanswer⟩)
  rw [hm, Option.map_some, denotes_twelveTask.1 hmanswer.1] at hfirst
  exact absurd hfirst (by decide)

end Verdicts

end Qkmetisc.Checks
