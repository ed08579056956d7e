import Qkmetisc.Gens.Texts

/-!
# The texts that one call leaves

What a call of one of the generators or their tasks does to the blocks that are there, and which
text a question of a task has.

## Main definitions

* `textAt`, `asked`: the text of a block, and that of the question of a task.
* `Keeps`, `Stay`: the blocks of before have kept their bytes.
* `TextRight`: what a task has cached is its own text.
* `SameTask`: two tasks are one, but for what is cached.

## Main results

* `take_cases`, `eqCacheText_cases`, `pythonShellcodeCacheText_cases`, `questionOf_cases`: what a
  call that returns has done.
* `taskGetQuestion_text`, `genGenerate_text`: a call keeps the texts.
* `asked_eq`: what a task shows when the allocations succeed.
* `spared_of_returned`, `spare_of_generated`: what a call that returns has got.
-/

open Qkmetisc.EqGen (EqElem GenFault RcMem rcmemAlloc rcmemTake eqCalcStrSize NUL
  UNSIGNED_RANGE cString ckdAdd)
open Arith (render)
open Qkmetisc.PythonShellcode (pythonShellcode ANSWER_LEN)
open RefCount (Heap)

namespace Qkmetisc.Gens

/-- The string in a block. -/
def textAt (h : Heap RcMem) (b : ℕ) : Option (List Char) := (h.blocks b).map fun m => cString m.mem

/-- The text of the question that a call of `task_get_question` returns, none if it returns `NULL`
or does not return. -/
def asked (h : Heap RcMem) (task : Task) (mallocText : Option (ℕ → Char)) (mallocQuestion : Bool) :
    Option (List Char) :=
  match taskGetQuestion h task mallocText mallocQuestion with
  | .ok (h, _, some text) => textAt h text
  | _ => none

section Results

variable {ε α β : Type*} {x : Except ε α} {f : α → β}

/-- A mapped computation succeeds exactly if the computation does. -/
theorem map_eq_ok {y : β} : x.map f = .ok y ↔ ∃ a, x = .ok a ∧ f a = y := by
  rcases x with e | a
  · simp [Except.map]
  · simp [Except.map]

theorem map_eq_error {e : ε} : x.map f = .error e ↔ x = .error e := by
  rcases x with e | a
  · simp [Except.map]
  · simp [Except.map]

end Results

section Blocks

variable {h h' : Heap RcMem} {b : ℕ} {holders : List ℕ}

/-- No counter is larger than an `unsigned` can be. -/
def Small (h : Heap RcMem) : Prop := ∀ b m, h.blocks b = some m → m.counter < UNSIGNED_RANGE

/-- What is still allocated has kept its bytes, and the counters are still `unsigned`. -/
structure Keeps (h h' : Heap RcMem) : Prop extends Heap.Extends RcMem.mem h h' where
  small : Small h → Small h'

theorem Keeps.refl (h : Heap RcMem) : Keeps h h := ⟨.refl h, id⟩

theorem Keeps.trans {h'' : Heap RcMem} (hkeeps : Keeps h h') (hkeeps' : Keeps h' h'') :
    Keeps h h'' :=
  ⟨hkeeps.toExtends.trans hkeeps'.toExtends, fun hsmall => hkeeps'.small (hkeeps.small hsmall)⟩

theorem Small.set (hsmall : Small h) {m : RcMem} (hm : m.counter < UNSIGNED_RANGE) :
    Small (h.set b m) := by
  intro c other hother
  by_cases heq : c = b
  · subst heq
    obtain rfl : m = other := by simpa [Heap.set] using hother
    exact hm
  · exact hsmall c other (by simpa [Heap.set, heq] using hother)

/-- A new block from `rcmem_alloc`, whatever is written to it. -/
theorem allocate_keeps {size : ℕ} {mallocText : Option (ℕ → Char)} {m : RcMem}
    (hm : rcmemAlloc size mallocText = some m) (mem : List Char) :
    Keeps h (h.allocate { m with mem }) := by
  refine ⟨.allocate h _, fun hsmall c other hother => ?_⟩
  by_cases heq : c = h.made
  · obtain rfl : { m with mem } = other := by simpa [Heap.allocate, heq] using hother
    show m.counter < UNSIGNED_RANGE
    rw [rcmemAlloc_counter hm]
    decide
  · exact hsmall c other (by simpa [Heap.allocate, heq] using hother)

/-- A call of `rcmem_take` that returns has counted one holder more. -/
theorem take_cases (hcall : take h b = .ok h') : ∃ m, h.blocks b = some m ∧
    m.counter + 1 < UNSIGNED_RANGE ∧ h' = h.set b { m with counter := m.counter + 1 } := by
  unfold take at hcall
  split at hcall
  · cases hcall
  · next m hm =>
    unfold rcmemTake at hcall
    split at hcall
    · cases hcall
    · next m' hm' =>
      cases hcall
      split at hm'
      · next hlt =>
        cases hm'
        exact ⟨m, hm, hlt, rfl⟩
      · cases hm'

theorem take_keeps (hcall : take h b = .ok h') : Keeps h h' := by
  obtain ⟨m, hm, hlt, rfl⟩ := take_cases hcall
  exact ⟨.set hm rfl, fun hsmall => hsmall.set hlt⟩

/-- What a holder has taken could be counted. -/
theorem spare_of_take (hc : HeapRight h holders) (hcall : take h b = .ok h') :
    Spare holders b := by
  obtain ⟨m, hm, hlt, -⟩ := take_cases hcall
  have hcount := (hc.counter b m hm).2
  unfold Spare
  omega

theorem put_keeps (hcall : put h b = .ok h') : Keeps h h' := by
  unfold put at hcall
  split at hcall
  · cases hcall
  · next m hm =>
    unfold rcmemPut at hcall
    split at hcall
    · cases hcall
      refine ⟨.free h b, fun hsmall c other hother => ?_⟩
      by_cases heq : c = b
      · simp [Heap.free, heq] at hother
      · exact hsmall c other (by simpa [Heap.free, heq] using hother)
    · next m' hm' =>
      cases hcall
      split at hm'
      · cases hm'
      · obtain rfl := Option.some.inj hm'
        exact ⟨.set hm rfl, fun hsmall => hsmall.set (Nat.mod_lt _ (by decide))⟩

/-- A block that is held before and after has the same text. -/
theorem textAt_keeps (hkeeps : Keeps h h') (hb : b < h.made) {m : RcMem}
    (hheld : h'.blocks b = some m) : textAt h' b = textAt h b := by
  obtain ⟨m', hm', hmem⟩ := hkeeps.block b hb m hheld
  rw [textAt, textAt, hheld, hm', Option.map_some, Option.map_some, hmem]

/-- Whoever holds a block finds it among those that have been allocated. -/
theorem lt_made (hc : HeapRight h holders) (hb : b ∈ holders) : b < h.made := by
  obtain ⟨m, hm⟩ := hc.held b hb
  exact hc.made b m hm

/-- The blocks are allocated in both heaps, with the same bytes. -/
def Stay (h h' : Heap RcMem) (blocks : List ℕ) : Prop :=
  ∀ b ∈ blocks, ∀ m, h.blocks b = some m → ∃ m', h'.blocks b = some m' ∧ m'.mem = m.mem

/-- Blocks that are held before and after stay. -/
theorem stay_of_keeps (hkeeps : Keeps h h') {blocks : List ℕ} (hc : HeapRight h holders)
    (hsub : blocks ⊆ holders) (hheld : ∀ b ∈ blocks, ∃ m, h'.blocks b = some m) :
    Stay h h' blocks := by
  intro b hb m hm
  obtain ⟨m', hm'⟩ := hheld b hb
  obtain ⟨other, hother, hsame⟩ := hkeeps.block b (lt_made hc (hsub hb)) m' hm'
  obtain rfl : m = other := Option.some.inj (hm.symm.trans hother)
  exact ⟨m', hm', hsame⟩

/-- Taking a block frees none, and writes to no more than its counter. -/
theorem take_stay (hcall : take h b = .ok h') (blocks : List ℕ) : Stay h h' blocks := by
  obtain ⟨old, hold, -, rfl⟩ := take_cases hcall
  intro c _ m hm
  by_cases heq : c = b
  · subst heq
    obtain rfl : m = old := Option.some.inj (hm.symm.trans hold)
    exact ⟨_, Function.update_self .., rfl⟩
  · exact ⟨m, (Function.update_of_ne heq ..).trans hm, rfl⟩

end Blocks

section Texts

variable {h h' : Heap RcMem} {holders : List ℕ} {cache cache' : TextCache} {eq : List EqElem}
  {answer : List Char} {mallocText : Option (ℕ → Char)}

/-- The text of an equation can be measured and allocated. -/
def Printable (eq : List EqElem) : Prop :=
  eqCalcStrSize eq ≠ 0 ∧ (ckdAdd (eqCalcStrSize eq) 4).isSome = true

instance (eq : List EqElem) : Decidable (Printable eq) := inferInstanceAs (Decidable (_ ∧ _))

/-- The buffer of a question of `python_shellcode_gen`. -/
def shellcodeBuffer (answer : List Char) : List Char := pythonShellcode ++ answer ++ [NUL]

/-- What the questions of a task show when the allocations succeed. -/
def Task.shows (h : Heap RcMem) (task : Task) : Option (List Char) :=
  match task with
  | .echo text => textAt h text
  | .eq elems _ => if Printable elems then some (render elems) else none
  | .pythonShellcode answer _ => some (cString (shellcodeBuffer answer))

/-- The text that a task has cached is its own. -/
def TextRight (h : Heap RcMem) (task : Task) : Prop :=
  match task with
  | .echo _ => True
  | .eq elems cache => ∀ b, cache.text = some b → Printable elems ∧
      ∃ m, h.blocks b = some m ∧ m.mem = render elems ++ [NUL]
  | .pythonShellcode answer cache => answer.length = ANSWER_LEN ∧ ∀ b, cache.text = some b →
      ∃ m, h.blocks b = some m ∧ m.mem = shellcodeBuffer answer

/-- The tasks are one, but for what is cached. -/
def SameTask : Task → Task → Prop
  | .echo text, .echo text' => text' = text
  | .eq eq _, .eq eq' _ => eq' = eq
  | .pythonShellcode answer _, .pythonShellcode answer' _ => answer' = answer
  | _, _ => False

theorem SameTask.refl (task : Task) : SameTask task task := by
  cases task <;> exact rfl

theorem SameTask.trans {task task' task'' : Task} (h : SameTask task task')
    (h' : SameTask task' task'') : SameTask task task'' := by
  cases task <;> cases task' <;> first | exact h.elim | skip
  all_goals cases task'' <;> first | exact h'.elim | exact Eq.trans h' h

/-- The text of a task stays its own with its block. -/
theorem TextRight.stay {task : Task} (htext : TextRight h task) (hstay : Stay h h' task.texts) :
    TextRight h' task := by
  have hblock {b : ℕ} (hb : b ∈ task.texts) {mem : List Char}
      (hmem : ∃ m, h.blocks b = some m ∧ m.mem = mem) :
      ∃ m, h'.blocks b = some m ∧ m.mem = mem := by
    obtain ⟨m, hm, rfl⟩ := hmem
    exact hstay b hb m hm
  cases task with
  | echo text => trivial
  | eq elems cache =>
    intro b hb
    obtain ⟨hprintable, hmem⟩ := htext b hb
    exact ⟨hprintable, hblock (by simp [Task.texts, hb]) hmem⟩
  | pythonShellcode answer cache =>
    exact ⟨htext.1, fun b hb => hblock (by simp [Task.texts, hb]) (htext.2 b hb)⟩

theorem rcmemAlloc_isSome {size : ℕ} (garbage : ℕ → Char) :
    (rcmemAlloc size (some garbage)).isSome = (ckdAdd size 4).isSome := by
  rw [rcmemAlloc]
  rcases ckdAdd size 4 with _ | total <;> rfl

theorem ckdAdd_isSome_of_alloc {size : ℕ} {m : RcMem} (h : rcmemAlloc size mallocText = some m) :
    (ckdAdd size 4).isSome = true := by
  unfold rcmemAlloc at h
  split at h
  · cases h
  · next total hadd => rw [hadd, Option.isSome_some]

/-- The first half of `eq_get_question` changes nothing, or caches the text of the equation. -/
theorem eqCacheText_cases (hcall : eqCacheText h eq cache mallocText = .ok (h', cache')) :
    (h' = h ∧ cache' = cache ∧ (cache.textCached = true ∨ eqCalcStrSize eq = 0)) ∨
    cache.text = none ∧ eqCalcStrSize eq ≠ 0 ∧
      ∃ m, rcmemAlloc (eqCalcStrSize eq) mallocText = some m ∧
        h' = h.allocate { m with mem := render eq ++ [NUL] } ∧ cache' = .full h.made := by
  unfold eqCacheText at hcall
  split at hcall
  · next hcached =>
    cases hcall
    exact .inl ⟨rfl, rfl, .inl hcached⟩
  · next hcached =>
    split at hcall
    · cases hcall
    · dsimp only at hcall
      split at hcall
      · next hsize =>
        cases hcall
        exact .inl ⟨rfl, rfl, .inr hsize⟩
      · next hsize =>
        split at hcall
        · cases hcall
        · next m hm =>
          -- the buffer is of the size of the text, so that all of it is printed
          rw [EqGen.eqPrint_fresh rfl hsize hm, if_neg (by simp)] at hcall
          cases hcall
          exact .inr ⟨TextCache.text_eq_none hcached, hsize, m, hm, rfl, rfl⟩

theorem eqCacheText_text (htext : TextRight h (.eq eq cache))
    (hcall : eqCacheText h eq cache mallocText = .ok (h', cache')) :
    TextRight h' (.eq eq cache') ∧ Keeps h h' := by
  rcases eqCacheText_cases hcall with ⟨rfl, rfl, -⟩ | ⟨-, hsize, m, hm, rfl, rfl⟩
  · exact ⟨htext, .refl h'⟩
  · refine ⟨fun b hb => ?_, allocate_keeps hm _⟩
    obtain rfl : h.made = b := Option.some.inj hb
    exact ⟨⟨hsize, ckdAdd_isSome_of_alloc hm⟩, _, Function.update_self .., rfl⟩

/-- The buffer of `python_shellcode_get_question` after its three stores. -/
theorem shellcode_stores {mem : List Char} (hlen : answer.length = ANSWER_LEN)
    (hmem : mem.length = pythonShellcode.length + ANSWER_LEN + 1) :
    storeAt (storeAt (storeAt mem 0 pythonShellcode) pythonShellcode.length answer)
      (pythonShellcode.length + ANSWER_LEN + 1 - 1) [NUL] = shellcodeBuffer answer := by
  have hfirst : storeAt mem 0 pythonShellcode =
      pythonShellcode ++ mem.drop pythonShellcode.length := by
    simp [storeAt]
  have hlast :
      pythonShellcode.length + ANSWER_LEN + 1 - 1 = (pythonShellcode ++ answer).length := by
    rw [List.length_append, hlen, Nat.add_sub_cancel]
  have hrest : (mem.drop pythonShellcode.length).drop (answer.length + 1) = [] := by
    rw [List.drop_drop, List.drop_eq_nil_iff, hmem, hlen, Nat.add_assoc]
  rw [hfirst, EqGen.storeAt_append, hlast, EqGen.storeAt_append, List.drop_drop,
    List.length_singleton, hrest, List.append_nil, shellcodeBuffer]

/-- The first half of `python_shellcode_get_question` changes nothing, or caches the text of the
task. -/
theorem pythonShellcodeCacheText_cases (hlen : answer.length = ANSWER_LEN)
    (hcall : pythonShellcodeCacheText h answer cache mallocText = .ok (h', cache')) :
    (h' = h ∧ cache' = cache ∧ (cache.textCached = true ∨
      rcmemAlloc (pythonShellcode.length + ANSWER_LEN + 1) mallocText = none)) ∨
    cache.text = none ∧
      ∃ m, rcmemAlloc (pythonShellcode.length + ANSWER_LEN + 1) mallocText = some m ∧
        h' = h.allocate { m with mem := shellcodeBuffer answer } ∧ cache' = .full h.made := by
  unfold pythonShellcodeCacheText at hcall
  split at hcall
  · next hcached =>
    cases hcall
    exact .inl ⟨rfl, rfl, .inl hcached⟩
  · next hcached =>
    split at hcall
    · cases hcall
    · dsimp only at hcall
      split at hcall
      · next hnone =>
        cases hcall
        exact .inl ⟨rfl, rfl, .inr hnone⟩
      · next m hm =>
        rw [shellcode_stores hlen (EqGen.rcmemAlloc_length hm)] at hcall
        cases hcall
        exact .inr ⟨TextCache.text_eq_none hcached, m, hm, rfl, rfl⟩

theorem pythonShellcodeCacheText_text (htext : TextRight h (.pythonShellcode answer cache))
    (hcall : pythonShellcodeCacheText h answer cache mallocText = .ok (h', cache')) :
    TextRight h' (.pythonShellcode answer cache') ∧ Keeps h h' := by
  rcases pythonShellcodeCacheText_cases htext.1 hcall with ⟨rfl, rfl, -⟩ | ⟨-, m, hm, rfl, rfl⟩
  · exact ⟨htext, .refl h'⟩
  · refine ⟨⟨htext.1, fun b hb => ?_⟩, allocate_keeps hm _⟩
    obtain rfl : h.made = b := Option.some.inj hb
    exact ⟨_, Function.update_self .., rfl⟩

/-- The second half of both functions makes no question, or takes the cached text for it. -/
theorem questionOf_cases {cached : Except Fault (Heap RcMem × TextCache)} {mallocQuestion : Bool}
    {question : Option ℕ} (hcall : questionOf cached mallocQuestion = .ok (h', cache', question)) :
    ∃ h, cached = .ok (h, cache') ∧
      ((question = none ∧ h' = h ∧ (cache'.textCached = false ∨ mallocQuestion = false)) ∨
      ∃ text, question = some text ∧ cache'.text = some text ∧ mallocQuestion = true ∧
        take h text = .ok h') := by
  unfold questionOf at hcall
  split at hcall
  · cases hcall
  · next h cache =>
    split at hcall
    · next hcached =>
      cases hcall
      exact ⟨h', rfl, .inl ⟨rfl, rfl, .inl hcached⟩⟩
    · split at hcall
      · next hmalloc =>
        cases hcall
        exact ⟨h', rfl, .inl ⟨rfl, rfl, .inr hmalloc⟩⟩
      · next hmalloc =>
        split at hcall
        · cases hcall
        · next text htext =>
          obtain ⟨h₁, htake, heq⟩ := map_eq_ok.1 hcall
          cases heq
          exact ⟨h, rfl, .inr ⟨text, rfl, htext, by simpa using hmalloc, htake⟩⟩

theorem questionOf_text {cached : Except Fault (Heap RcMem × TextCache)} {mallocQuestion : Bool}
    {question : Option ℕ} (hcall : questionOf cached mallocQuestion = .ok (h', cache', question)) :
    ∃ h, cached = .ok (h, cache') ∧ Keeps h h' ∧ (∀ blocks, Stay h h' blocks) ∧
      (mallocQuestion = false → question = none) ∧
      ∀ b, question = some b → cache'.text = some b := by
  obtain ⟨h, hcached, ⟨rfl, rfl, -⟩ | ⟨text, rfl, htext, rfl, htake⟩⟩ := questionOf_cases hcall
  · exact ⟨h', hcached, .refl h', fun _ _ _ m hm => ⟨m, hm, rfl⟩, fun _ => rfl, by simp⟩
  · refine ⟨h, hcached, take_keeps htake, take_stay htake, by simp, ?_⟩
    rintro b ⟨⟩
    exact htext

end Texts

section Calls

variable {h h' : Heap RcMem} {holders : List ℕ}

/-- `echo_gen_get_question` makes no question, or takes the text for it. -/
theorem taskGetQuestion_echo {text : ℕ} {task' : Task} {mallocText : Option (ℕ → Char)}
    {mallocQuestion : Bool} {question : Option ℕ}
    (hcall : taskGetQuestion h (.echo text) mallocText mallocQuestion = .ok (h', task', question)) :
    task' = .echo text ∧ (mallocQuestion = false ∧ question = none ∧ h' = h ∨
      mallocQuestion = true ∧ question = some text ∧ take h text = .ok h') := by
  obtain ⟨out, hasked, heq⟩ := map_eq_ok.1 hcall
  cases heq
  unfold echoGenGetQuestion at hasked
  by_cases hmalloc : mallocQuestion = false
  · rw [if_pos hmalloc] at hasked
    cases hasked
    exact ⟨rfl, .inl ⟨hmalloc, rfl, rfl⟩⟩
  · rw [if_neg hmalloc] at hasked
    obtain ⟨h₁, htake, rfl⟩ := map_eq_ok.1 hasked
    exact ⟨rfl, .inr ⟨by simpa using hmalloc, rfl, htake⟩⟩

/-- The other two cache their text, or find it cached, and make a question of it. -/
theorem taskGetQuestion_eq {elems : List EqElem} {cache : TextCache} {task' : Task}
    {mallocText : Option (ℕ → Char)} {mallocQuestion : Bool} {question : Option ℕ}
    (hcall : taskGetQuestion h (.eq elems cache) mallocText mallocQuestion =
      .ok (h', task', question)) :
    ∃ cache', task' = .eq elems cache' ∧
      questionOf (eqCacheText h elems cache mallocText) mallocQuestion =
        .ok (h', cache', question) := by
  obtain ⟨out, hasked, heq⟩ := map_eq_ok.1 hcall
  cases heq
  exact ⟨out.2.1, rfl, hasked⟩

theorem taskGetQuestion_pythonShellcode {answer : List Char} {cache : TextCache} {task' : Task}
    {mallocText : Option (ℕ → Char)} {mallocQuestion : Bool} {question : Option ℕ}
    (hcall : taskGetQuestion h (.pythonShellcode answer cache) mallocText mallocQuestion =
      .ok (h', task', question)) :
    ∃ cache', task' = .pythonShellcode answer cache' ∧
      questionOf (pythonShellcodeCacheText h answer cache mallocText) mallocQuestion =
        .ok (h', cache', question) := by
  obtain ⟨out, hasked, heq⟩ := map_eq_ok.1 hcall
  cases heq
  exact ⟨out.2.1, rfl, hasked⟩

/-- `task_get_question`: the task is the one it was, with its own text or none. -/
theorem taskGetQuestion_text {task task' : Task} {mallocText : Option (ℕ → Char)}
    {mallocQuestion : Bool} {question : Option ℕ} (htext : TextRight h task)
    (hcall : taskGetQuestion h task mallocText mallocQuestion = .ok (h', task', question)) :
    TextRight h' task' ∧ SameTask task task' ∧ Keeps h h' ∧
      (mallocQuestion = false → question = none) ∧ ∀ b, question = some b → b ∈ task'.texts := by
  cases task with
  | echo text =>
    obtain ⟨rfl, ⟨-, rfl, rfl⟩ | ⟨rfl, rfl, htake⟩⟩ := taskGetQuestion_echo hcall
    · exact ⟨trivial, rfl, .refl h', fun _ => rfl, by simp⟩
    · exact ⟨trivial, rfl, take_keeps htake, by simp, by simp [Task.texts]⟩
  | eq elems cache =>
    obtain ⟨cache', rfl, hasked⟩ := taskGetQuestion_eq hcall
    obtain ⟨h₀, hcached, hkeeps, hstay, hnone, hsome⟩ := questionOf_text hasked
    obtain ⟨htext', hkeeps'⟩ := eqCacheText_text htext hcached
    refine ⟨htext'.stay (hstay _), rfl, hkeeps'.trans hkeeps, hnone, fun b hb => ?_⟩
    simp [Task.texts, hsome b hb]
  | pythonShellcode answer cache =>
    obtain ⟨cache', rfl, hasked⟩ := taskGetQuestion_pythonShellcode hcall
    obtain ⟨h₀, hcached, hkeeps, hstay, hnone, hsome⟩ := questionOf_text hasked
    obtain ⟨htext', hkeeps'⟩ := pythonShellcodeCacheText_text htext hcached
    refine ⟨htext'.stay (hstay _), rfl, hkeeps'.trans hkeeps, hnone, fun b hb => ?_⟩
    simp [Task.texts, hsome b hb]

/-- A call of `gen_generate` makes a task that has no text of its own yet. -/
theorem genGenerate_text {gen : Gen} {g : Generating} {task : Option Task}
    (hcall : genGenerate h gen g = .ok (h', task)) :
    Keeps h h' ∧ ∀ t, task = some t → TextRight h' t := by
  cases gen with
  | echo text =>
    unfold genGenerate echoGenGenerate at hcall
    dsimp only at hcall
    by_cases hmalloc : g.mallocTask = false
    · rw [if_pos hmalloc] at hcall
      cases hcall
      exact ⟨.refl h, by simp⟩
    · rw [if_neg hmalloc] at hcall
      rcases htake : take h text with e | h₁
      · rw [htake] at hcall
        cases hcall
      · rw [htake] at hcall
        cases hcall
        refine ⟨take_keeps htake, ?_⟩
        rintro t ⟨⟩
        trivial
  | eq priv =>
    unfold genGenerate at hcall
    dsimp only at hcall
    split at hcall
    · cases hcall
    · cases hcall
      exact ⟨.refl h, by simp⟩
    · cases hcall
      refine ⟨.refl h, ?_⟩
      rintro t ⟨⟩
      simp [TextRight, TextCache.empty]
  | pythonShellcode =>
    unfold genGenerate at hcall
    dsimp only at hcall
    split at hcall
    · cases hcall
      exact ⟨.refl h, by simp⟩
    · next priv _ =>
      cases hcall
      refine ⟨.refl h, ?_⟩
      rintro t ⟨⟩
      exact ⟨priv.length_answer, by simp [TextCache.empty]⟩

theorem freeCache_keeps {cache : TextCache} (hcall : freeCache h cache = .ok h') : Keeps h h' := by
  unfold freeCache at hcall
  split at hcall
  · split at hcall
    · cases hcall
    · exact put_keeps hcall
  · cases hcall
    exact .refl h

theorem taskDestroy_keeps {task : Task} (hcall : taskDestroy h task = .ok h') : Keeps h h' := by
  cases task with
  | echo text => exact put_keeps hcall
  | eq elems cache => exact freeCache_keeps hcall
  | pythonShellcode answer cache => exact freeCache_keeps hcall

theorem genDestroy_keeps {gen : Gen} (hcall : genDestroy h gen = .ok h') : Keeps h h' := by
  cases gen with
  | echo text => exact put_keeps hcall
  | eq priv =>
    cases hcall
    exact .refl h
  | pythonShellcode =>
    cases hcall
    exact .refl h

theorem echoGenCreate_keeps {text : List Char} {mallocGen : Bool} {mallocText : Option (ℕ → Char)}
    {gen : Option Gen} (hcall : echoGenCreate h text mallocGen mallocText = (h', gen)) :
    Keeps h h' := by
  unfold echoGenCreate at hcall
  split at hcall
  · cases hcall
    exact .refl h
  · split at hcall
    · cases hcall
      exact .refl h
    · next m hm =>
      cases hcall
      exact allocate_keeps hm _

end Calls

section Shown

variable {h : Heap RcMem} {holders : List ℕ}

theorem Printable.alloc {eq : List EqElem} (hprintable : Printable eq) (garbage : ℕ → Char) :
    (rcmemAlloc (eqCalcStrSize eq) (some garbage)).isSome = true := by
  rw [rcmemAlloc_isSome]
  exact hprintable.2

/-- An equation that can be printed is, where there is memory. -/
theorem eqCacheText_cached {eq : List EqElem} {cache cache' : TextCache} {h' : Heap RcMem}
    (hprintable : Printable eq) (garbage : ℕ → Char)
    (hcall : eqCacheText h eq cache (some garbage) = .ok (h', cache')) :
    cache'.textCached = true := by
  rcases eqCacheText_cases hcall with ⟨-, rfl, hcached | hsize⟩ | ⟨-, -, m, -, -, rfl⟩
  · exact hcached
  · exact absurd hsize hprintable.1
  · rfl

theorem pythonShellcodeCacheText_cached {answer : List Char} {cache cache' : TextCache}
    {h' : Heap RcMem} (hlen : answer.length = ANSWER_LEN) (garbage : ℕ → Char)
    (hcall : pythonShellcodeCacheText h answer cache (some garbage) = .ok (h', cache')) :
    cache'.textCached = true := by
  rcases pythonShellcodeCacheText_cases hlen hcall with
    ⟨-, rfl, hcached | hnone⟩ | ⟨-, m, -, -, rfl⟩
  · exact hcached
  · -- the size of the text fits, header and all
    have hfits : (ckdAdd (pythonShellcode.length + ANSWER_LEN + 1) 4).isSome = true := by decide
    rw [← rcmemAlloc_isSome garbage, hnone] at hfits
    cases hfits
  · rfl

/-- With a text there is a question, where there is memory. -/
theorem questionOf_isSome {h' : Heap RcMem} {cached : Except Fault (Heap RcMem × TextCache)}
    {cache' : TextCache} {question : Option ℕ}
    (hfull : ∀ h cache, cached = .ok (h, cache) → cache.textCached = true)
    (hcall : questionOf cached true = .ok (h', cache', question)) : ∃ b, question = some b := by
  obtain ⟨h, hcached, ⟨-, -, hempty | hmalloc⟩ | ⟨text, rfl, -⟩⟩ := questionOf_cases hcall
  · rw [hfull h cache' hcached] at hempty
    cases hempty
  · cases hmalloc
  · exact ⟨text, rfl⟩

/-- The text of a question that a task of its own kind has cached. -/
theorem textAt_of_textRight {task : Task} {b : ℕ} (htext : TextRight h task) (hb : b ∈ task.texts)
    (hkind : ∀ text, task ≠ .echo text) : textAt h b = task.shows h := by
  cases task with
  | echo text => exact absurd rfl (hkind text)
  | eq elems cache =>
    obtain ⟨hprintable, m, hm, hmem⟩ := htext b (by simpa [Task.texts] using hb)
    simp [textAt, hm, hmem, EqGen.cString_render, Task.shows, hprintable]
  | pythonShellcode answer cache =>
    obtain ⟨m, hm, hmem⟩ := htext.2 b (by simpa [Task.texts] using hb)
    simp [textAt, hm, hmem, Task.shows]

/-- What a task other than one of `echo_gen` shows depends on nothing in the memory. -/
theorem SameTask.shows_eq {task task' : Task} (hsame : SameTask task task')
    (hkind : ∀ text, task ≠ .echo text) (h h' : Heap RcMem) : task'.shows h' = task.shows h := by
  cases task with
  | echo text => exact absurd rfl (hkind text)
  | eq elems cache =>
    cases task' with
    | eq elems' cache' =>
      obtain rfl : elems' = elems := hsame
      rfl
    | _ => exact hsame.elim
  | pythonShellcode answer cache =>
    cases task' with
    | pythonShellcode answer' cache' =>
      obtain rfl : answer' = answer := hsame
      rfl
    | _ => exact hsame.elim

/-- A question shows what its task does. -/
theorem taskGetQuestion_shows {task task' : Task} {h' : Heap RcMem} {b : ℕ}
    {mallocText : Option (ℕ → Char)} {mallocQuestion : Bool}
    (hc : HeapRight h (task.texts ++ holders)) (htext : TextRight h task)
    (hcall : taskGetQuestion h task mallocText mallocQuestion = .ok (h', task', some b)) :
    textAt h' b = task.shows h := by
  obtain ⟨htext', hsame, hkeeps, -, hmem⟩ := taskGetQuestion_text htext hcall
  by_cases hkind : ∃ text, task = .echo text
  · obtain ⟨text, rfl⟩ := hkind
    obtain ⟨-, ⟨-, hnone, -⟩ | ⟨-, hsome, htake⟩⟩ := taskGetQuestion_echo hcall
    · cases hnone
    · cases hsome
      obtain ⟨m, hm⟩ := hc.held b List.mem_cons_self
      obtain ⟨m', hm', -⟩ := take_stay htake [b] b List.mem_cons_self m hm
      exact textAt_keeps hkeeps (lt_made hc List.mem_cons_self) hm'
  · have hkind' : ∀ text, task' ≠ .echo text := by
      rintro text rfl
      cases task with
      | echo other => exact hkind ⟨other, rfl⟩
      | _ => exact hsame.elim
    have hown := textAt_of_textRight htext' (hmem b rfl) hkind'
    exact hown.trans (hsame.shows_eq (fun text heq => hkind ⟨text, heq⟩) h h')

theorem asked_of_question {task task' : Task} {h' : Heap RcMem} {b : ℕ}
    {mallocText : Option (ℕ → Char)} (hc : HeapRight h (task.texts ++ holders))
    (htext : TextRight h task)
    (hcall : taskGetQuestion h task mallocText true = .ok (h', task', some b)) :
    asked h task mallocText true = task.shows h := by
  rw [asked, hcall]
  exact taskGetQuestion_shows hc htext hcall

/-- An equation that cannot be printed has no text and gets none. -/
theorem asked_of_not_printable {eq : List EqElem} {cache : TextCache}
    (htext : TextRight h (.eq eq cache)) (hnot : ¬Printable eq) (garbage : ℕ → Char) :
    asked h (.eq eq cache) (some garbage) true = none := by
  have hnone : cache.text = none := by
    rcases hcache : cache.text with _ | b
    · rfl
    · exact absurd (htext b hcache).1 hnot
  have hcached : cache.textCached = false := by rw [cache.textCached_eq, hnone, Option.isSome_none]
  by_cases hsize : eqCalcStrSize eq = 0
  -- without a size the call returns `NULL`, and with one that is too large it does not return
  · have hcall : taskGetQuestion h (.eq eq cache) (some garbage) true =
        .ok (h, .eq eq cache, none) := by
      simp [taskGetQuestion, eqGetQuestion, eqCacheText, questionOf, hcached, hnone, hsize,
        Except.map]
    rw [asked, hcall]
  · have halloc : rcmemAlloc (eqCalcStrSize eq) (some garbage) = none := by
      rw [← Option.not_isSome_iff_eq_none, rcmemAlloc_isSome]
      exact fun hfits => hnot ⟨hsize, hfits⟩
    have hcall : taskGetQuestion h (.eq eq cache) (some garbage) true = .error .nullAccess := by
      simp [taskGetQuestion, eqGetQuestion, eqCacheText, questionOf, hcached, hnone, hsize, halloc,
        Except.map]
    rw [asked, hcall]

/-- What a task shows when the allocations succeed. -/
theorem asked_eq {task : Task} (hc : HeapRight h (task.texts ++ holders))
    (hspare : ∀ b ∈ task.texts, Spare (task.texts ++ holders) b) (htext : TextRight h task)
    (garbage : ℕ → Char) : asked h task (some garbage) true = task.shows h := by
  cases task with
  | echo text =>
    -- the task holds its text, so that it can be taken
    obtain ⟨h', htake, -⟩ := take_spec hc List.mem_cons_self (hspare text List.mem_cons_self)
    have hcall : taskGetQuestion h (.echo text) (some garbage) true =
        .ok (h', .echo text, some text) := by
      simp [taskGetQuestion, echoGenGetQuestion, htake, Except.map]
    exact asked_of_question hc htext hcall
  | eq elems cache =>
    by_cases hprintable : Printable elems
    · have hgranted : (Task.eq elems cache).TextGranted (some garbage) :=
        .inr (.inr (hprintable.alloc garbage))
      obtain ⟨h', task', question, hcall, -⟩ :=
        taskGetQuestion_spec hc true (fun _ => hspare) hgranted
      obtain ⟨cache', rfl, hasked⟩ := taskGetQuestion_eq hcall
      obtain ⟨b, rfl⟩ := questionOf_isSome
        (fun _ _ hcached => eqCacheText_cached hprintable garbage hcached) hasked
      exact asked_of_question hc htext hcall
    · rw [asked_of_not_printable htext hprintable garbage, Task.shows, if_neg hprintable]
  | pythonShellcode answer cache =>
    have hgranted : (Task.pythonShellcode answer cache).TextGranted (some garbage) := trivial
    obtain ⟨h', task', question, hcall, -⟩ :=
      taskGetQuestion_spec hc true (fun _ => hspare) hgranted
    obtain ⟨cache', rfl, hasked⟩ := taskGetQuestion_pythonShellcode hcall
    obtain ⟨b, rfl⟩ := questionOf_isSome
      (fun _ _ hcached => pythonShellcodeCacheText_cached htext.1 garbage hcached) hasked
    exact asked_of_question hc htext hcall

end Shown

section Returned

variable {h h' : Heap RcMem} {holders : List ℕ} {cache cache' : TextCache}
  {mallocText : Option (ℕ → Char)} {mallocQuestion : Bool} {question : Option ℕ}

theorem take_ne_generation (h : Heap RcMem) (b : ℕ) (e : GenFault) :
    take h b ≠ .error (.generation e) := by
  unfold take
  split
  · simp
  · split
    · simp
    · simp

theorem put_ne_generation (h : Heap RcMem) (b : ℕ) (e : GenFault) :
    put h b ≠ .error (.generation e) := by
  unfold put
  split
  · simp
  · split
    · simp
    · simp

theorem eqCacheText_ne_generation (h : Heap RcMem) (eq : List EqElem) (cache : TextCache)
    (mallocText : Option (ℕ → Char)) (e : GenFault) :
    eqCacheText h eq cache mallocText ≠ .error (.generation e) := by
  unfold eqCacheText
  split
  · simp
  · split
    · simp
    · dsimp only
      split
      · simp
      · split
        · simp
        · next m _ =>
          split
          · -- a text that could not be printed is put
            rw [Ne, map_eq_error]
            exact put_ne_generation _ _ _
          · simp

theorem pythonShellcodeCacheText_ne_generation (h : Heap RcMem) (answer : List Char)
    (cache : TextCache) (mallocText : Option (ℕ → Char)) (e : GenFault) :
    pythonShellcodeCacheText h answer cache mallocText ≠ .error (.generation e) := by
  unfold pythonShellcodeCacheText
  split
  · simp
  · split
    · simp
    · dsimp only
      split
      · simp
      · simp

theorem questionOf_ne_generation {cached : Except Fault (Heap RcMem × TextCache)} {e : GenFault}
    (hcached : cached ≠ .error (.generation e)) (mallocQuestion : Bool) :
    questionOf cached mallocQuestion ≠ .error (.generation e) := by
  unfold questionOf
  split
  · intro hcall
    cases hcall
    exact hcached rfl
  · next h cache =>
    split
    · simp
    · split
      · simp
      · split
        · simp
        · rw [Ne, map_eq_error]
          exact take_ne_generation _ _ _

/-- `task_get_question` does not call `eq_generate`. -/
theorem taskGetQuestion_ne_generation (h : Heap RcMem) (task : Task)
    (mallocText : Option (ℕ → Char)) (mallocQuestion : Bool) (e : GenFault) :
    taskGetQuestion h task mallocText mallocQuestion ≠ .error (.generation e) := by
  cases task with
  | echo text =>
    rw [taskGetQuestion, Ne, map_eq_error, echoGenGetQuestion]
    split
    · simp
    · rw [map_eq_error]
      exact take_ne_generation _ _ _
  | eq elems cache =>
    rw [taskGetQuestion, Ne, map_eq_error]
    exact questionOf_ne_generation (eqCacheText_ne_generation h elems cache mallocText e) _
  | pythonShellcode answer cache =>
    rw [taskGetQuestion, Ne, map_eq_error]
    exact questionOf_ne_generation
      (pythonShellcodeCacheText_ne_generation h answer cache mallocText e) _

/-- Where a call with memory for a question returns, a text that was cached could have one more
holder. -/
theorem spare_of_questionOf {cached : Except Fault (Heap RcMem × TextCache)}
    (hc : HeapRight h (cache.text.toList ++ holders))
    (hcached : ∀ h₁ cache₁, cached = .ok (h₁, cache₁) →
      (h₁ = h ∧ cache₁ = cache) ∨ cache.text = none)
    (hcall : questionOf cached true = .ok (h', cache', question)) : cache.Spare holders := by
  intro b hb
  have htext : cache.text = some b := by simpa using hb
  obtain ⟨h₁, rfl, hquestion⟩ := questionOf_cases hcall
  rcases hcached h₁ cache' rfl with ⟨rfl, rfl⟩ | hnone
  · rcases hquestion with ⟨-, -, hempty | hno⟩ | ⟨text, -, htext', -, htake⟩
    · rw [cache'.textCached_eq, htext] at hempty
      cases hempty
    · cases hno
    · obtain rfl : text = b := Option.some.inj (htext'.symm.trans htext)
      exact spare_of_take hc htake
  · rw [hnone] at htext
    cases htext

/-- A call of `task_get_question` that returns has got what it needs. -/
theorem spared_of_returned {task task' : Task} (hc : HeapRight h (task.texts ++ holders))
    (htext : TextRight h task)
    (hcall : taskGetQuestion h task mallocText mallocQuestion = .ok (h', task', question)) :
    task.TextGranted mallocText ∧
      (mallocQuestion = true → ∀ b ∈ task.texts, Spare (task.texts ++ holders) b) := by
  cases task with
  | echo text =>
    refine ⟨trivial, fun hmalloc b hb => ?_⟩
    obtain rfl : b = text := List.mem_singleton.1 hb
    obtain ⟨-, ⟨hno, -⟩ | ⟨-, -, htake⟩⟩ := taskGetQuestion_echo hcall
    · rw [hmalloc] at hno
      cases hno
    · exact spare_of_take hc htake
  | eq elems cache =>
    obtain ⟨cache', rfl, hasked⟩ := taskGetQuestion_eq hcall
    obtain ⟨h₁, hcached, -⟩ := questionOf_cases hasked
    constructor
    · rcases eqCacheText_cases hcached with ⟨-, -, hold⟩ | ⟨-, -, m, hm, -⟩
      · exact hold.imp_right .inl
      · exact .inr (.inr (by rw [hm, Option.isSome_some]))
    · rintro rfl
      refine spare_of_questionOf hc (fun h₁ cache₁ hcached => ?_) hasked
      rcases eqCacheText_cases hcached with ⟨hheap, hcache, -⟩ | ⟨hnone, -⟩
      · exact .inl ⟨hheap, hcache⟩
      · exact .inr hnone
  | pythonShellcode answer cache =>
    obtain ⟨cache', rfl, hasked⟩ := taskGetQuestion_pythonShellcode hcall
    refine ⟨trivial, ?_⟩
    rintro rfl
    refine spare_of_questionOf hc (fun h₁ cache₁ hcached => ?_) hasked
    rcases pythonShellcodeCacheText_cases htext.1 hcached with ⟨hheap, hcache, -⟩ | ⟨hnone, -⟩
    · exact .inl ⟨hheap, hcache⟩
    · exact .inr hnone

/-- A call of `gen_generate` that returns, or that ends in `eq_generate`, has got the room it
needs. -/
theorem spare_of_generated (hc : HeapRight h holders) {gen : Gen} {g : Generating}
    (hcall : ∀ e, genGenerate h gen g = .error e → ∃ f, e = .generation f)
    (hmalloc : g.mallocTask = true) : ∀ b ∈ gen.texts, Spare holders b := by
  intro b hb
  cases gen with
  | echo text =>
    obtain rfl : b = text := List.mem_singleton.1 hb
    rcases htake : take h b with e | h'
    · have hfault : genGenerate h (.echo b) g = .error e := by
        simp [genGenerate, echoGenGenerate, hmalloc, htake, Except.map]
      obtain ⟨f, rfl⟩ := hcall e hfault
      exact absurd htake (take_ne_generation h b f)
    · exact spare_of_take hc htake
  | eq priv => cases hb
  | pythonShellcode => cases hb

end Returned

end Qkmetisc.Gens
