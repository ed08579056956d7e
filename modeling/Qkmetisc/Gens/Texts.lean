import Qkmetisc.Foundations.RefCount
import Qkmetisc.PythonShellcode.Task

/-!
# The texts of generators, tasks and questions (`rcmem.c`)

The three generators of the repository keep their texts in reference-counted memory. The text of
an `echo_gen` is held by the generator, by each of its tasks and by each of their questions; the
text of a task of `eq_gen` or `python_shellcode_gen` is made when a question is first asked, and
held by the task and its questions.

## Main definitions

* `rcmemPut`, `take`, `put`: the functions of `rcmem.c` on a heap of blocks, with `rcmemAlloc` and
  `rcmemTake`.
* `echoGenCreate`, `eqGetQuestion`, `pythonShellcodeGetQuestion` and the other functions of the
  generators that use them.
* `SameOutcome`, `RepresentsEq`, `RepresentsPythonShellcode`: a task in the heap is one of
  `Qkmetisc.EqGen` or of `Qkmetisc.PythonShellcode`, and a call on it ends as it does there.
* `World`, `Input`, `step`: any number of generators, tasks and questions, and the calls on them.

## Main results

* `take_spec`, `put_spec`: what the two functions do to the number of holders.
* `taskGetQuestion_representsEq`, `taskGetQuestion_representsPythonShellcode`: among other objects
  a task makes the questions that it makes by itself.
* `counters_right`: in every run the counters are the numbers of live holders, and a block is freed
  with its last holder.
-/

open Qkmetisc.EqGen (EqElem EqGenPriv EqTaskPriv TaskFault Env GenFault RcMem rcmemAlloc rcmemTake
  eqCalcStrSize eqPrint eqGenGenerate NUL UNSIGNED_RANGE)
open Qkmetisc.PythonShellcode (PythonShellcodeTaskPriv pythonShellcode pythonShellcodeGenerate
  ANSWER_LEN)
open RefCount (Heap Counts)

namespace Qkmetisc.Gens

/-- How a call can end without returning. -/
inductive Fault where
  /-- A block was used that is not allocated. -/
  | useAfterFree
  | assertFailed
  /-- An access through `NULL`. -/
  | nullAccess
  /-- In `eq_generate`. -/
  | generation (e : GenFault)
  deriving DecidableEq, Repr

/-! ## Reference-counted memory -/

/-- `rcmem_put`: what is left of the block, none if it is freed. -/
def rcmemPut (m : RcMem) : Option RcMem :=
  if m.counter = 1 then none
  else some { m with counter := (m.counter + (UNSIGNED_RANGE - 1)) % UNSIGNED_RANGE }

/-- `rcmem_take` of the block `b`. -/
def take (h : Heap RcMem) (b : ℕ) : Except Fault (Heap RcMem) :=
  match h.blocks b with
  | none => .error .useAfterFree
  | some m =>
    match rcmemTake m with
    | none => .error .assertFailed
    | some m => .ok (h.set b m)

/-- `rcmem_put` of the block `b`. -/
def put (h : Heap RcMem) (b : ℕ) : Except Fault (Heap RcMem) :=
  match h.blocks b with
  | none => .error .useAfterFree
  | some m =>
    match rcmemPut m with
    | none => .ok (h.free b)
    | some m => .ok (h.set b m)

/-! ## The generators -/

/-- The fields `text` and `text_cached` that the tasks of `eq_gen` and of `python_shellcode_gen`
have. -/
structure TextCache where
  text : Option ℕ
  textCached : Bool
  textCached_eq : textCached = text.isSome

/-- No text yet. -/
def TextCache.empty : TextCache := { text := none, textCached := false, textCached_eq := rfl }

/-- The text is `b`. -/
def TextCache.full (b : ℕ) : TextCache :=
  { text := some b, textCached := true, textCached_eq := rfl }

/-- `struct gen`, known by its functions, with its private part. -/
inductive Gen where
  | echo (text : ℕ)
  | eq (priv : EqGenPriv)
  | pythonShellcode

/-- `struct task`, known by its functions, with what its private part has to do with its text. -/
inductive Task where
  | echo (text : ℕ)
  | eq (eq : List EqElem) (cache : TextCache)
  | pythonShellcode (answer : List Char) (cache : TextCache)

/-- `echo_gen_create`. -/
def echoGenCreate (h : Heap RcMem) (text : List Char) (mallocGen : Bool)
    (mallocText : Option (ℕ → Char)) : Heap RcMem × Option Gen :=
  if mallocGen = false then (h, none)
  else
    match rcmemAlloc (text.length + 1) mallocText with
    | none => (h, none)
    | some m => (h.allocate { m with mem := storeAt m.mem 0 (text ++ [NUL]) }, some (.echo h.made))

/-- `echo_gen_generate`. -/
def echoGenGenerate (h : Heap RcMem) (text : ℕ) (mallocTask : Bool) :
    Except Fault (Heap RcMem × Option Task) :=
  if mallocTask = false then .ok (h, none)
  else (take h text).map fun h => (h, some (.echo text))

/-- `echo_gen_get_question`: the text of the question, none for `NULL`. -/
def echoGenGetQuestion (h : Heap RcMem) (text : ℕ) (mallocQuestion : Bool) :
    Except Fault (Heap RcMem × Option ℕ) :=
  if mallocQuestion = false then .ok (h, none)
  else (take h text).map fun h => (h, some text)

/-- The first half of `eq_get_question`. -/
def eqCacheText (h : Heap RcMem) (eq : List EqElem) (cache : TextCache)
    (mallocText : Option (ℕ → Char)) : Except Fault (Heap RcMem × TextCache) :=
  if cache.textCached then .ok (h, cache)
  else if cache.text.isSome then .error .assertFailed
  else
    let size := eqCalcStrSize eq
    if size = 0 then .ok (h, cache)
    else
      match rcmemAlloc size mallocText with
      | none => .error .nullAccess  -- the last byte is set before the pointer is tested
      | some m =>
        let out := eqPrint eq (storeAt m.mem (size - 1) [NUL])
        let text := h.made
        let h := h.allocate { m with mem := out.1 }
        if out.2 = false then (put h text).map fun h => (h, cache)
        else .ok (h, .full text)

/-- The first half of `python_shellcode_get_question`. -/
def pythonShellcodeCacheText (h : Heap RcMem) (answer : List Char) (cache : TextCache)
    (mallocText : Option (ℕ → Char)) : Except Fault (Heap RcMem × TextCache) :=
  if cache.textCached then .ok (h, cache)
  else if cache.text.isSome then .error .assertFailed
  else
    let totalSize := pythonShellcode.length + ANSWER_LEN + 1
    match rcmemAlloc totalSize mallocText with
    | none => .ok (h, cache)
    | some m =>
      let mem := storeAt m.mem 0 pythonShellcode
      let mem := storeAt mem pythonShellcode.length answer
      let mem := storeAt mem (totalSize - 1) [NUL]
      .ok (h.allocate { m with mem }, .full h.made)

/-- The second half of both functions: a question with the text, if there is one. -/
def questionOf (cached : Except Fault (Heap RcMem × TextCache)) (mallocQuestion : Bool) :
    Except Fault (Heap RcMem × TextCache × Option ℕ) :=
  match cached with
  | .error e => .error e
  | .ok (h, cache) =>
    if cache.textCached = false then .ok (h, cache, none)
    else if mallocQuestion = false then .ok (h, cache, none)  -- at least the text is cached
    else
      match cache.text with
      | none => .error .nullAccess
      | some text => (take h text).map fun h => (h, cache, some text)

/-- `eq_get_question`. -/
def eqGetQuestion (h : Heap RcMem) (eq : List EqElem) (cache : TextCache)
    (mallocText : Option (ℕ → Char)) (mallocQuestion : Bool) :
    Except Fault (Heap RcMem × TextCache × Option ℕ) :=
  questionOf (eqCacheText h eq cache mallocText) mallocQuestion

/-- `python_shellcode_get_question`. -/
def pythonShellcodeGetQuestion (h : Heap RcMem) (answer : List Char) (cache : TextCache)
    (mallocText : Option (ℕ → Char)) (mallocQuestion : Bool) :
    Except Fault (Heap RcMem × TextCache × Option ℕ) :=
  questionOf (pythonShellcodeCacheText h answer cache mallocText) mallocQuestion

/-- The text of a task is put if it is there: `eq_free` and `python_shellcode_free_task_priv`. -/
def freeCache (h : Heap RcMem) (cache : TextCache) : Except Fault (Heap RcMem) :=
  if cache.textCached then
    match cache.text with
    | none => .error .nullAccess
    | some text => put h text
  else .ok h

/-! ## The functions of `gen.c` -/

/-- What a call of `gen_generate` meets. -/
structure Generating where
  /-- The answers in `eq_generate`. -/
  env : Env
  /-- The results of `rand` in `fill_rand_chars`. -/
  rand : ℕ → ℕ
  /-- What is left in a new task of `python_shellcode_gen`. -/
  garbage : ℕ → Char
  mallocTask : Bool
  mallocPriv : Bool

/-- `gen_generate`. -/
def genGenerate (h : Heap RcMem) (gen : Gen) (g : Generating) :
    Except Fault (Heap RcMem × Option Task) :=
  match gen with
  | .echo text => echoGenGenerate h text g.mallocTask
  | .eq priv =>
    match eqGenGenerate priv g.env g.mallocTask g.mallocPriv with
    | .error e => .error (.generation e)
    | .ok none => .ok (h, none)
    | .ok (some task) => .ok (h, some (.eq task.eq .empty))
  | .pythonShellcode =>
    match pythonShellcodeGenerate g.rand g.garbage g.mallocTask g.mallocPriv with
    | none => .ok (h, none)
    | some priv => .ok (h, some (.pythonShellcode priv.answer .empty))

/-- `task_get_question`: the task afterwards and the text of the question. -/
def taskGetQuestion (h : Heap RcMem) (task : Task) (mallocText : Option (ℕ → Char))
    (mallocQuestion : Bool) : Except Fault (Heap RcMem × Task × Option ℕ) :=
  match task with
  | .echo text =>
    (echoGenGetQuestion h text mallocQuestion).map fun out => (out.1, .echo text, out.2)
  | .eq eq cache =>
    (eqGetQuestion h eq cache mallocText mallocQuestion).map fun out =>
      (out.1, .eq eq out.2.1, out.2.2)
  | .pythonShellcode answer cache =>
    (pythonShellcodeGetQuestion h answer cache mallocText mallocQuestion).map fun out =>
      (out.1, .pythonShellcode answer out.2.1, out.2.2)

/-- `gen_destroy`. -/
def genDestroy (h : Heap RcMem) : Gen → Except Fault (Heap RcMem)
  | .echo text => put h text
  | .eq _ => .ok h
  | .pythonShellcode => .ok h

/-- `task_destroy`. -/
def taskDestroy (h : Heap RcMem) : Task → Except Fault (Heap RcMem)
  | .echo text => put h text
  | .eq _ cache => freeCache h cache
  | .pythonShellcode _ cache => freeCache h cache

/-- `question_destroy`; every question puts its text. -/
def questionDestroy (h : Heap RcMem) (text : ℕ) : Except Fault (Heap RcMem) := put h text

/-! ## Runs -/

/-- The live objects, each with a number of its own, and the blocks. -/
structure World where
  heap : Heap RcMem
  /-- How many objects there have been so far. -/
  made : ℕ
  gens : List (ℕ × Gen)
  tasks : List (ℕ × Task)
  /-- The questions with their texts. -/
  questions : List (ℕ × ℕ)
  /-- How a call has ended that did not return. -/
  fault : Option Fault

/-- Nothing. -/
def World.empty : World where
  heap := .empty
  made := 0
  gens := []
  tasks := []
  questions := []
  fault := none

/-- A call, with what it meets. -/
inductive Input where
  | echoGenCreate (text : List Char) (mallocGen : Bool) (mallocText : Option (ℕ → Char))
  | eqGenCreate (priv : EqGenPriv) (mallocGen mallocPriv : Bool)
  | pythonShellcodeGenCreate (mallocGen : Bool)
  | generate (gen : ℕ) (g : Generating)
  | getQuestion (task : ℕ) (mallocText : Option (ℕ → Char)) (mallocQuestion : Bool)
  | destroyGen (gen : ℕ)
  | destroyTask (task : ℕ)
  | destroyQuestion (question : ℕ)

/-- The objects other than the one with this number. -/
def without {α : Type} (objects : List (ℕ × α)) (no : ℕ) : List (ℕ × α) :=
  objects.eraseP fun object => object.1 == no

namespace World

variable (w : World)

/-- A new generator. -/
def addGen (gen : Gen) : World := { w with made := w.made + 1, gens := (w.made, gen) :: w.gens }

/-- The world after a call that changed only the heap, or did not return. -/
def afterHeap (call : Except Fault (Heap RcMem)) (k : World → World) : World :=
  match call with
  | .error e => { w with fault := some e }
  | .ok heap => k { w with heap }

/-- The world after a call of `gen_generate`. -/
def afterGenerate (call : Except Fault (Heap RcMem × Option Task)) : World :=
  match call with
  | .error e => { w with fault := some e }
  | .ok (heap, none) => { w with heap }
  | .ok (heap, some task) =>
    { w with heap, made := w.made + 1, tasks := (w.made, task) :: w.tasks }

/-- The world after a call of `task_get_question` of the task `no`. -/
def afterQuestion (no : ℕ) (call : Except Fault (Heap RcMem × Task × Option ℕ)) : World :=
  match call with
  | .error e => { w with fault := some e }
  | .ok (heap, task, question) =>
    let w := { w with heap, tasks := (no, task) :: without w.tasks no }
    match question with
    | none => w
    | some text => { w with made := w.made + 1, questions := (w.made, text) :: w.questions }

end World

/-- One call. A number that no live object has changes nothing, and neither does any call after one
that did not return. -/
def step (w : World) (i : Input) : World :=
  if w.fault.isSome then w
  else
    match i with
    | .echoGenCreate text mallocGen mallocText =>
      match echoGenCreate w.heap text mallocGen mallocText with
      | (heap, none) => { w with heap }
      | (heap, some gen) => { w with heap }.addGen gen
    | .eqGenCreate priv mallocGen mallocPriv =>
      if mallocGen = false then w else if mallocPriv = false then w else w.addGen (.eq priv)
    | .pythonShellcodeGenCreate mallocGen =>
      if mallocGen = false then w else w.addGen .pythonShellcode
    | .generate no g =>
      match w.gens.lookup no with
      | none => w
      | some gen => w.afterGenerate (genGenerate w.heap gen g)
    | .getQuestion no mallocText mallocQuestion =>
      match w.tasks.lookup no with
      | none => w
      | some task => w.afterQuestion no (taskGetQuestion w.heap task mallocText mallocQuestion)
    | .destroyGen no =>
      match w.gens.lookup no with
      | none => w
      | some gen =>
        w.afterHeap (genDestroy w.heap gen) fun w => { w with gens := without w.gens no }
    | .destroyTask no =>
      match w.tasks.lookup no with
      | none => w
      | some task =>
        w.afterHeap (taskDestroy w.heap task) fun w => { w with tasks := without w.tasks no }
    | .destroyQuestion no =>
      match w.questions.lookup no with
      | none => w
      | some text =>
        w.afterHeap (questionDestroy w.heap text) fun w =>
          { w with questions := without w.questions no }

/-- The block a generator holds, if it holds one. -/
def Gen.texts : Gen → List ℕ
  | .echo text => [text]
  | .eq _ | .pythonShellcode => []

/-- The block a task holds, if it holds one. -/
def Task.texts : Task → List ℕ
  | .echo text => [text]
  | .eq _ cache | .pythonShellcode _ cache => cache.text.toList

/-- The live holders: for each live generator, task and question the block it holds. -/
def World.holders (w : World) : List ℕ :=
  w.gens.flatMap (fun gen => gen.2.texts) ++ w.tasks.flatMap (fun task => task.2.texts) ++
    w.questions.map Prod.snd

/-- Every counter is the number of live holders of the block, which is allocated as long as it has
one, and has been freed, once, when it has none. -/
def CountersRight (w : World) : Prop :=
  ∀ b < w.heap.made,
    (b ∈ w.holders → (∃ m, w.heap.blocks b = some m ∧ m.counter = w.holders.count b) ∧
      b ∉ w.heap.freed) ∧
    (b ∉ w.holders → w.heap.blocks b = none ∧ w.heap.freed.count b = 1)

/-- The call's allocations succeed. -/
def Input.Succeeds (w : World) : Input → Prop
  | .echoGenCreate text mallocGen mallocText =>
    mallocGen = true ∧ (rcmemAlloc (text.length + 1) mallocText).isSome
  | .eqGenCreate _ mallocGen mallocPriv => mallocGen = true ∧ mallocPriv = true
  | .pythonShellcodeGenCreate mallocGen => mallocGen = true
  | .generate _ g => g.mallocTask = true ∧ g.mallocPriv = true ∧ ∀ i, g.env.malloc i = true
  | .getQuestion no mallocText mallocQuestion =>
    mallocQuestion = true ∧
      match w.tasks.lookup no with
      | none | some (.echo _) => True
      | some (.eq eq _) => (rcmemAlloc (eqCalcStrSize eq) mallocText).isSome
      | some (.pythonShellcode _ _) =>
        (rcmemAlloc (pythonShellcode.length + ANSWER_LEN + 1) mallocText).isSome
  | .destroyGen _ | .destroyTask _ | .destroyQuestion _ => True

/-- Every block has fewer than `UINT_MAX` holders. -/
def Few (holders : List ℕ) : Prop := ∀ b, holders.count b < UNSIGNED_RANGE - 1

/-- The counter of the block has room for one more holder. -/
def Spare (holders : List ℕ) (b : ℕ) : Prop := holders.count b < UNSIGNED_RANGE - 1

/-- The counters have room for all holders. -/
def Bounded (holders : List ℕ) : Prop := ∀ b, holders.count b < UNSIGNED_RANGE

/-- The call's allocations succeed, and every block has fewer than `UINT_MAX` live holders. -/
def Allowed (w : World) (i : Input) : Prop := i.Succeeds w ∧ Few w.holders

/-- A task of `eq_gen` that has no text yet and can measure it gets the memory for it. -/
def Task.TextGranted (task : Task) (mallocText : Option (ℕ → Char)) : Prop :=
  match task with
  | .eq elems cache => cache.textCached = true ∨ eqCalcStrSize elems = 0 ∨
      (rcmemAlloc (eqCalcStrSize elems) mallocText).isSome = true
  | .echo _ | .pythonShellcode _ _ => True

/-- A call of `task_get_question` of a task of `eq_gen` gets the memory for the text. -/
def TextGranted (w : World) : Input → Prop
  | .getQuestion no mallocText _ =>
    ∀ task, w.tasks.lookup no = some task → task.TextGranted mallocText
  | _ => True

instance (task : Task) (mallocText : Option (ℕ → Char)) : Decidable (task.TextGranted mallocText) :=
  match task with
  | .eq _ _ => inferInstanceAs (Decidable (_ ∨ _ ∨ _))
  | .echo _ | .pythonShellcode _ _ => instDecidableTrue

instance (w : World) (i : Input) : Decidable (TextGranted w i) :=
  match i with
  | .getQuestion no mallocText _ =>
    inferInstanceAs (Decidable (∀ task ∈ w.tasks.lookup no, task.TextGranted mallocText))
  | .echoGenCreate .. | .eqGenCreate .. | .pythonShellcodeGenCreate _ | .generate .. |
    .destroyGen _ | .destroyTask _ | .destroyQuestion _ => instDecidableTrue

/-- A text that the call takes may have one more holder: that of the generator for a new task, or
that of the task for a question. -/
def Roomy (w : World) : Input → Prop
  | .generate no g => g.mallocTask = true →
    ∀ gen, w.gens.lookup no = some gen → ∀ b ∈ gen.texts, Spare w.holders b
  | .getQuestion no _ mallocQuestion => mallocQuestion = true →
    ∀ task, w.tasks.lookup no = some task → ∀ b ∈ task.texts, Spare w.holders b
  | _ => True

section Blocks

variable {h : Heap RcMem} {holders : List ℕ} {b : ℕ}

/-- The counters of a heap are right for these holders. -/
abbrev HeapRight (h : Heap RcMem) (holders : List ℕ) : Prop := Counts RcMem.counter h holders

/-- A block from `rcmem_alloc` has one holder. -/
theorem rcmemAlloc_counter {size : ℕ} {malloc : Option (ℕ → Char)} {m : RcMem}
    (h : rcmemAlloc size malloc = some m) : m.counter = 1 := by
  unfold rcmemAlloc at h
  split at h
  · cases h
  · obtain ⟨garbage, -, rfl⟩ := Option.map_eq_some_iff.1 h
    rfl

/-- A block from `rcmem_alloc`, whatever is written to it, has its first holder. -/
theorem alloc_spec (hc : HeapRight h holders) {size : ℕ} {malloc : Option (ℕ → Char)} {m : RcMem}
    (hm : rcmemAlloc size malloc = some m) (mem : List Char) :
    HeapRight (h.allocate { m with mem }) (h.made :: holders) := by
  have hone : m.counter = 1 := rcmemAlloc_counter hm
  exact hc.allocate (show ({ m with mem } : RcMem).counter = 1 from hone)

/-- `rcmem_take` of a block that has holders, and may have one more. -/
theorem take_spec (hc : HeapRight h holders) (hb : b ∈ holders) (hspare : Spare holders b) :
    ∃ h', take h b = .ok h' ∧ HeapRight h' (b :: holders) := by
  obtain ⟨m, hm⟩ := hc.held b hb
  have hcount := (hc.counter b m hm).2
  unfold Spare at hspare
  have htake : rcmemTake m = some { m with counter := m.counter + 1 } := if_pos (by omega)
  refine ⟨h.set b { m with counter := m.counter + 1 }, ?_, hc.take hm rfl⟩
  simp only [take, hm, htake]

/-- `rcmem_put` by a holder of the block. -/
theorem put_spec (hc : HeapRight h (b :: holders))
    (hlt : (b :: holders).count b < UNSIGNED_RANGE) :
    ∃ h', put h b = .ok h' ∧ HeapRight h' holders := by
  obtain ⟨m, hm⟩ := hc.held b List.mem_cons_self
  have hcount := (hc.counter b m hm).2
  rw [List.count_cons_self] at hcount hlt
  by_cases hlast : m.counter = 1
  · refine ⟨h.free b, ?_, hc.free hm hlast⟩
    simp only [put, hm, rcmemPut, if_pos hlast]
  · -- the decrement does not wrap around, as the counter is positive
    have hwrap : (m.counter + (UNSIGNED_RANGE - 1)) % UNSIGNED_RANGE = m.counter - 1 := by
      have hsum : m.counter + (UNSIGNED_RANGE - 1) = m.counter - 1 + UNSIGNED_RANGE := by omega
      rw [hsum, Nat.add_mod_right, Nat.mod_eq_of_lt (by omega)]
    refine ⟨h.set b { m with counter := m.counter - 1 }, ?_, hc.drop hm hlast rfl⟩
    simp only [put, hm, rcmemPut, if_neg hlast, hwrap]

/-- A new block has one holder. -/
theorem count_made (hc : HeapRight h holders) : (h.made :: holders).count h.made = 1 := by
  have hnone : holders.count h.made = 0 :=
    List.count_eq_zero.2 (hc.notMem_of_le (Nat.le_refl _))
  rw [List.count_cons_self, hnone]

theorem Few.bounded (hfew : Few holders) : Bounded holders := by
  intro b
  have hlt := hfew b
  omega

end Blocks

section Calls

variable {h : Heap RcMem} {holders : List ℕ}

/-- `echo_gen_create`: the generator is the first holder of its text. -/
theorem echoGenCreate_spec (hc : HeapRight h holders) (text : List Char) (mallocGen : Bool)
    (mallocText : Option (ℕ → Char)) :
    ∃ h' gen, echoGenCreate h text mallocGen mallocText = (h', gen) ∧
      HeapRight h' (gen.elim [] Gen.texts ++ holders) := by
  unfold echoGenCreate
  by_cases hmalloc : mallocGen = false
  · exact ⟨h, none, if_pos hmalloc, hc⟩
  · rw [if_neg hmalloc]
    cases halloc : rcmemAlloc (text.length + 1) mallocText with
    | none => exact ⟨h, none, rfl, hc⟩
    | some m => exact ⟨_, _, rfl, alloc_spec hc halloc _⟩

/-- `echo_gen_generate`: the task is a holder more. -/
theorem echoGenGenerate_spec (hc : HeapRight h holders) {text : ℕ} (htext : text ∈ holders)
    (mallocTask : Bool) (hspare : mallocTask = true → Spare holders text) :
    ∃ h' task, echoGenGenerate h text mallocTask = .ok (h', task) ∧
      HeapRight h' (task.elim [] Task.texts ++ holders) := by
  -- the generator holds the text, so that it can be taken
  unfold echoGenGenerate
  by_cases hmalloc : mallocTask = false
  · exact ⟨h, none, if_pos hmalloc, hc⟩
  · obtain ⟨h', htake, hc'⟩ := take_spec hc htext (hspare (by simpa using hmalloc))
    rw [if_neg hmalloc, htake]
    exact ⟨h', some (.echo text), rfl, hc'⟩

/-- `gen_generate`; it can only fail to return in `eq_generate`. -/
theorem genGenerate_spec (hc : HeapRight h holders) {gen : Gen} (hgen : gen.texts ⊆ holders)
    (g : Generating) (hspare : g.mallocTask = true → ∀ b ∈ gen.texts, Spare holders b) :
    (∃ e, genGenerate h gen g = .error (.generation e)) ∨
      ∃ h' task, genGenerate h gen g = .ok (h', task) ∧
        HeapRight h' (task.elim [] Task.texts ++ holders) := by
  cases gen with
  | echo text =>
    exact .inr (echoGenGenerate_spec hc (hgen List.mem_cons_self) _
      fun hmalloc => hspare hmalloc text List.mem_cons_self)
  | eq priv =>
    -- a new task has no text yet
    cases hcall : eqGenGenerate priv g.env g.mallocTask g.mallocPriv with
    | error e => exact .inl ⟨e, by simp only [genGenerate, hcall]⟩
    | ok task =>
      cases task with
      | none => exact .inr ⟨h, none, by simp only [genGenerate, hcall], hc⟩
      | some task =>
        exact .inr ⟨h, some (.eq task.eq .empty), by simp only [genGenerate, hcall], hc⟩
  | pythonShellcode =>
    cases hcall : pythonShellcodeGenerate g.rand g.garbage g.mallocTask g.mallocPriv with
    | none => exact .inr ⟨h, none, by simp only [genGenerate, hcall], hc⟩
    | some priv =>
      exact .inr ⟨h, some (.pythonShellcode priv.answer .empty), by simp only [genGenerate, hcall],
        hc⟩

/-- A cache that has not been filled has no text. -/
theorem TextCache.text_eq_none {cache : TextCache} (h : ¬cache.textCached = true) :
    cache.text = none := by
  have heq := cache.textCached_eq
  simpa [h] using heq

/-- The text of a cache, if there is one, may have one more holder. -/
def TextCache.Spare (cache : TextCache) (holders : List ℕ) : Prop :=
  ∀ b ∈ cache.text.toList, Gens.Spare (cache.text.toList ++ holders) b

/-- A text that has just been made may have more holders. -/
theorem spare_full (hc : HeapRight h holders) : (TextCache.full h.made).Spare holders := by
  intro b hb
  obtain rfl : b = h.made := by simpa [TextCache.full] using hb
  show (h.made :: holders).count h.made < UNSIGNED_RANGE - 1
  rw [count_made hc]
  decide

/-- The first half of `eq_get_question`: the text, if it is there afterwards, has the task as its
holder. -/
theorem eqCacheText_spec {cache : TextCache} (hc : HeapRight h (cache.text.toList ++ holders))
    {eq : List EqElem} {mallocText : Option (ℕ → Char)}
    (hmalloc : (Task.eq eq cache).TextGranted mallocText) :
    ∃ h' cache', eqCacheText h eq cache mallocText = .ok (h', cache') ∧
      HeapRight h' (cache'.text.toList ++ holders) ∧
      (cache.Spare holders → cache'.Spare holders) := by
  unfold eqCacheText
  by_cases hcached : cache.textCached = true
  · exact ⟨h, cache, if_pos hcached, hc, id⟩
  · have hnone := TextCache.text_eq_none hcached
    rw [if_neg hcached, hnone]
    simp only [Option.isSome_none, Bool.false_eq_true, if_false]
    by_cases hsize : eqCalcStrSize eq = 0
    · exact ⟨h, cache, if_pos hsize, hc, id⟩
    · rw [hnone, Option.toList_none, List.nil_append] at hc
      obtain ⟨m, hm⟩ := Option.isSome_iff_exists.1
        ((hmalloc.resolve_left hcached).resolve_left hsize)
      rw [if_neg hsize, hm]
      dsimp only
      split
      · -- a text that could not be printed is given up at once
        have hone : (h.made :: holders).count h.made < UNSIGNED_RANGE := by
          rw [count_made hc]
          decide
        obtain ⟨h', hput, hc'⟩ := put_spec (alloc_spec hc hm _) hone
        rw [hput]
        exact ⟨h', cache, rfl, by simpa [hnone] using hc', id⟩
      · exact ⟨_, .full h.made, rfl, alloc_spec hc hm _, fun _ => spare_full hc⟩

/-- The first half of `python_shellcode_get_question`. -/
theorem pythonShellcodeCacheText_spec {cache : TextCache}
    (hc : HeapRight h (cache.text.toList ++ holders)) (answer : List Char)
    (mallocText : Option (ℕ → Char)) :
    ∃ h' cache', pythonShellcodeCacheText h answer cache mallocText = .ok (h', cache') ∧
      HeapRight h' (cache'.text.toList ++ holders) ∧
      (cache.Spare holders → cache'.Spare holders) := by
  unfold pythonShellcodeCacheText
  by_cases hcached : cache.textCached = true
  · exact ⟨h, cache, if_pos hcached, hc, id⟩
  · have hnone := TextCache.text_eq_none hcached
    rw [if_neg hcached, hnone]
    simp only [Option.isSome_none, Bool.false_eq_true, if_false]
    cases hm : rcmemAlloc (pythonShellcode.length + ANSWER_LEN + 1) mallocText with
    | none => exact ⟨h, cache, rfl, hc, id⟩
    | some m =>
      rw [hnone, Option.toList_none, List.nil_append] at hc
      exact ⟨_, .full h.made, rfl, alloc_spec hc hm _, fun _ => spare_full hc⟩

/-- The second half of both functions: the question is a holder more. -/
theorem questionOf_spec {cache : TextCache} (hc : HeapRight h (cache.text.toList ++ holders))
    (mallocQuestion : Bool) (hspare : mallocQuestion = true → cache.Spare holders) :
    ∃ h' question, questionOf (.ok (h, cache)) mallocQuestion = .ok (h', cache, question) ∧
      HeapRight h' (question.toList ++ (cache.text.toList ++ holders)) := by
  unfold questionOf
  by_cases hcached : cache.textCached = false
  · exact ⟨h, none, if_pos hcached, hc⟩
  · by_cases hmalloc : mallocQuestion = false
    · exact ⟨h, none, by simp only [if_neg hcached, if_pos hmalloc], hc⟩
    · -- the task holds the text, so that it can be taken
      obtain ⟨text, htext⟩ : ∃ text, cache.text = some text := by
        rw [← Option.isSome_iff_exists, ← cache.textCached_eq]
        simpa using hcached
      have hmem : text ∈ cache.text.toList := by simp [htext]
      obtain ⟨h', htake, hc'⟩ := take_spec hc (List.mem_append_left _ hmem)
        (hspare (by simpa using hmalloc) text hmem)
      refine ⟨h', some text, ?_, hc'⟩
      simp only [if_neg hcached, if_neg hmalloc, htext, htake, Except.map]

/-- `task_get_question`. -/
theorem taskGetQuestion_spec {task : Task} (hc : HeapRight h (task.texts ++ holders))
    {mallocText : Option (ℕ → Char)} (mallocQuestion : Bool)
    (hspare : mallocQuestion = true → ∀ b ∈ task.texts, Spare (task.texts ++ holders) b)
    (hmalloc : task.TextGranted mallocText) :
    ∃ h' task' question, taskGetQuestion h task mallocText mallocQuestion =
        .ok (h', task', question) ∧
      HeapRight h' (question.toList ++ (task'.texts ++ holders)) := by
  cases task with
  | echo text =>
    unfold taskGetQuestion echoGenGetQuestion
    by_cases hquestion : mallocQuestion = false
    · exact ⟨h, .echo text, none, by simp only [if_pos hquestion, Except.map], hc⟩
    · obtain ⟨h', htake, hc'⟩ := take_spec hc (b := text) List.mem_cons_self
        (hspare (by simpa using hquestion) text List.mem_cons_self)
      exact ⟨h', .echo text, some text, by simp only [if_neg hquestion, htake, Except.map], hc'⟩
  | eq eq cache =>
    obtain ⟨h₁, cache', hcached, hc₁, hkept⟩ := eqCacheText_spec hc hmalloc
    obtain ⟨h', question, hcall, hc'⟩ :=
      questionOf_spec hc₁ mallocQuestion fun hquestion => hkept (hspare hquestion)
    exact ⟨h', .eq eq cache', question,
      by simp only [taskGetQuestion, eqGetQuestion, hcached, hcall, Except.map], hc'⟩
  | pythonShellcode answer cache =>
    obtain ⟨h₁, cache', hcached, hc₁, hkept⟩ :=
      pythonShellcodeCacheText_spec hc answer mallocText
    obtain ⟨h', question, hcall, hc'⟩ :=
      questionOf_spec hc₁ mallocQuestion fun hquestion => hkept (hspare hquestion)
    exact ⟨h', .pythonShellcode answer cache', question,
      by simp only [taskGetQuestion, pythonShellcodeGetQuestion, hcached, hcall, Except.map], hc'⟩

/-- A task that is destroyed puts the text it holds. -/
theorem taskDestroy_spec {task : Task} (hc : HeapRight h (task.texts ++ holders))
    (hbound : Bounded (task.texts ++ holders)) :
    ∃ h', taskDestroy h task = .ok h' ∧ HeapRight h' holders := by
  -- both kinds of task with a cache put its text if it is there
  have hcache {cache : TextCache} (hc : HeapRight h (cache.text.toList ++ holders))
      (hbound : Bounded (cache.text.toList ++ holders)) :
      ∃ h', freeCache h cache = .ok h' ∧ HeapRight h' holders := by
    unfold freeCache
    rw [cache.textCached_eq]
    cases htext : cache.text with
    | none => exact ⟨h, rfl, by simpa [htext] using hc⟩
    | some text =>
      rw [htext] at hc hbound
      exact put_spec hc (hbound text)
  cases task with
  | echo text => exact put_spec hc (hbound text)
  | eq eq cache => exact hcache hc hbound
  | pythonShellcode answer cache => exact hcache hc hbound

/-- A generator that is destroyed puts the text it holds. -/
theorem genDestroy_spec {gen : Gen} (hc : HeapRight h (gen.texts ++ holders))
    (hbound : Bounded (gen.texts ++ holders)) :
    ∃ h', genDestroy h gen = .ok h' ∧ HeapRight h' holders := by
  cases gen with
  | echo text => exact put_spec hc (hbound text)
  | eq priv => exact ⟨h, rfl, hc⟩
  | pythonShellcode => exact ⟨h, rfl, hc⟩

end Calls

section OneTask

variable {h : Heap RcMem} {cache : TextCache} {text : Option RcMem} {textCached : Bool}

/-- How a call on a task by itself can end without returning, among other objects. -/
def Fault.ofTask : TaskFault → Fault
  | .assertFailed => .assertFailed
  | .nullAccess => .nullAccess

/-- A call among other objects, `among`, ends as the call on the task by itself does, `alone`, with
results that `R` relates. -/
def SameOutcome {α β : Type} (R : α → β → Prop) (alone : Except TaskFault α)
    (among : Except Fault β) : Prop :=
  match alone with
  | .error e => among = .error (.ofTask e)
  | .ok a => ∃ b, among = .ok b ∧ R a b

/-- A call after another one, among other objects and on the task by itself. -/
theorem SameOutcome.bind {α β γ δ : Type} {R : α → β → Prop} {S : γ → δ → Prop}
    {alone : Except TaskFault α} {among : Except Fault β} (hsame : SameOutcome R alone among)
    {f : α → Except TaskFault γ} {g : β → Except Fault δ}
    (hfg : ∀ a b, R a b → SameOutcome S (f a) (g b)) :
    SameOutcome S (alone.bind f) (among.bind g) := by
  cases alone with
  | error e =>
    rw [show among = .error (.ofTask e) from hsame]
    exact rfl
  | ok a =>
    obtain ⟨b, rfl, hab⟩ := hsame
    exact hfg a b hab

/-- Outcomes that are the same remain so under functions that keep the results related. -/
theorem SameOutcome.map {α β γ δ : Type} {R : α → β → Prop} {S : γ → δ → Prop}
    {alone : Except TaskFault α} {among : Except Fault β} (hsame : SameOutcome R alone among)
    {f : α → γ} {g : β → δ} (hfg : ∀ a b, R a b → S (f a) (g b)) :
    SameOutcome S (alone.map f) (among.map g) := by
  have hbind := hsame.bind (S := S) (f := fun a => .ok (f a)) (g := fun b => .ok (g b))
    fun a b hab => ⟨g b, rfl, hfg a b hab⟩
  cases alone <;> cases among <;> exact hbind

/-- The cache stands for the two fields of a task by itself: its block is allocated and is the
text. -/
structure TextCache.Represents (cache : TextCache) (h : Heap RcMem) (text : Option RcMem)
    (textCached : Bool) : Prop where
  textCached_eq : cache.textCached = textCached
  text : cache.text.map h.blocks = text.map some

/-- The task is this task of `eq_gen`. -/
def RepresentsEq (h : Heap RcMem) (priv : EqTaskPriv) (task : Task) : Prop :=
  ∃ cache, task = .eq priv.eq cache ∧ cache.Represents h priv.textRc priv.textCached

/-- The task is this task of `python_shellcode_gen`. -/
def RepresentsPythonShellcode (h : Heap RcMem) (priv : PythonShellcodeTaskPriv) (task : Task) :
    Prop :=
  ∃ cache, task = .pythonShellcode priv.answer cache ∧ cache.Represents h priv.text priv.textCached

/-- The text of the question, if there is one, is this buffer. -/
def RepresentsQuestion (h : Heap RcMem) (buffer : Option (List Char)) (text : Option ℕ) : Prop :=
  text.map (fun b => (h.blocks b).map RcMem.mem) = buffer.map some

/-- A task without a text. -/
theorem represents_empty (h : Heap RcMem) : TextCache.empty.Represents h none false :=
  ⟨rfl, rfl⟩

/-- A task whose text has just been made. -/
theorem represents_full (h : Heap RcMem) (m : RcMem) :
    (TextCache.full h.made).Represents (h.allocate m) (some m) true where
  textCached_eq := rfl
  text := by simp [TextCache.full, Heap.allocate]

/-- What is not there yet is there neither in the heap nor in the task by itself. -/
theorem TextCache.Represents.eq_none (hrep : cache.Represents h text textCached)
    (hcached : ¬textCached = true) : cache.text = none ∧ text = none := by
  have hnone : cache.text = none := cache.text_eq_none (hrep.textCached_eq ▸ hcached)
  have htext := hrep.text
  rw [hnone, Option.map_none, eq_comm, Option.map_eq_none_iff] at htext
  exact ⟨hnone, htext⟩

/-- A text that is there is an allocated block. -/
theorem TextCache.Represents.exists_block (hrep : cache.Represents h text true) :
    ∃ b m, cache.text = some b ∧ text = some m ∧ h.blocks b = some m := by
  obtain ⟨b, hb⟩ : ∃ b, cache.text = some b := by
    rw [← Option.isSome_iff_exists, ← cache.textCached_eq]
    exact hrep.textCached_eq
  have htext := hrep.text
  rw [hb, Option.map_some, eq_comm, Option.map_eq_some_iff] at htext
  obtain ⟨m, hm, hblock⟩ := htext
  exact ⟨b, m, hb, hm, hblock.symm⟩

/-- A text that has just been made and is given up at once leaves no block. -/
theorem put_made {size : ℕ} {malloc : Option (ℕ → Char)} {m : RcMem}
    (hm : rcmemAlloc size malloc = some m) (mem : List Char) :
    put (h.allocate { m with mem }) h.made =
      .ok ((h.allocate { m with mem }).free h.made) := by
  have hone : m.counter = 1 := rcmemAlloc_counter hm
  have hblock : (h.allocate { m with mem }).blocks h.made = some { m with mem } := by
    simp [Heap.allocate]
  simp only [put, hblock, rcmemPut, if_pos hone]

/-- The first half of `eq_get_question`. -/
theorem eqCacheText_represents {priv : EqTaskPriv}
    (hrep : cache.Represents h priv.textRc priv.textCached) (mallocText : Option (ℕ → Char)) :
    SameOutcome
      (fun alone among => alone.1.eq = priv.eq ∧ alone.1.textCached = alone.2 ∧
        among.2.Represents among.1 alone.1.textRc alone.1.textCached)
      (EqGen.eqCacheText priv mallocText) (eqCacheText h priv.eq cache mallocText) := by
  unfold EqGen.eqCacheText eqCacheText
  rw [hrep.textCached_eq]
  by_cases hcached : priv.textCached = true
  · rw [if_pos hcached, if_pos hcached]
    exact ⟨_, rfl, rfl, hcached, hrep⟩
  · obtain ⟨hnone, hnone'⟩ := hrep.eq_none hcached
    have hfalse : priv.textCached = false := by simpa using hcached
    rw [if_neg hcached, if_neg hcached, hnone, hnone']
    simp only [Option.isSome_none, Bool.false_eq_true, if_false]
    by_cases hsize : eqCalcStrSize priv.eq = 0
    · rw [if_pos hsize, if_pos hsize]
      exact ⟨_, rfl, rfl, hfalse, hrep⟩
    · rw [if_neg hsize, if_neg hsize]
      cases hm : rcmemAlloc (eqCalcStrSize priv.eq) mallocText with
      | none => exact rfl
      | some m =>
        dsimp only
        split
        · -- the text could not be printed, and the task is as before
          rw [put_made hm]
          exact ⟨_, rfl, rfl, hfalse, hrep.textCached_eq, by rw [hnone, hnone']; rfl⟩
        · exact ⟨_, rfl, rfl, rfl, represents_full h _⟩

/-- The first half of `python_shellcode_get_question`. -/
theorem pythonShellcodeCacheText_represents {priv : PythonShellcodeTaskPriv}
    (hrep : cache.Represents h priv.text priv.textCached) (mallocText : Option (ℕ → Char)) :
    SameOutcome
      (fun alone among => alone.1.answer = priv.answer ∧ alone.1.textCached = alone.2 ∧
        among.2.Represents among.1 alone.1.text alone.1.textCached)
      (PythonShellcode.pythonShellcodeCacheText priv mallocText)
      (pythonShellcodeCacheText h priv.answer cache mallocText) := by
  unfold PythonShellcode.pythonShellcodeCacheText pythonShellcodeCacheText
  rw [hrep.textCached_eq]
  by_cases hcached : priv.textCached = true
  · rw [if_pos hcached, if_pos hcached]
    exact ⟨_, rfl, rfl, hcached, hrep⟩
  · obtain ⟨hnone, hnone'⟩ := hrep.eq_none hcached
    have hfalse : priv.textCached = false := by simpa using hcached
    rw [if_neg hcached, if_neg hcached, hnone, hnone']
    simp only [Option.isSome_none, Bool.false_eq_true, if_false]
    cases hm : rcmemAlloc (pythonShellcode.length + ANSWER_LEN + 1) mallocText with
    | none => exact ⟨_, rfl, rfl, hfalse, hrep⟩
    | some m => exact ⟨_, rfl, rfl, rfl, represents_full h _⟩

/-- The second half of both functions, of a task by itself: its text afterwards, and the buffer of
the question. -/
def questionAlone (text : Option RcMem) (textCached mallocQuestion : Bool) :
    Except TaskFault (Option RcMem × Option (List Char)) :=
  if textCached = false then .ok (text, none)
  else if mallocQuestion = false then .ok (text, none)
  else
    match text with
    | none => .error .nullAccess
    | some m =>
      match rcmemTake m with
      | none => .error .assertFailed
      | some m => .ok (some m, some m.mem)

/-- The second half of both functions: the task's text gets a holder more, the question. -/
theorem questionOf_represents (hrep : cache.Represents h text textCached) (mallocQuestion : Bool) :
    SameOutcome
      (fun alone among => among.2.1.Represents among.1 alone.1 textCached ∧
        RepresentsQuestion among.1 alone.2 among.2.2)
      (questionAlone text textCached mallocQuestion)
      (questionOf (.ok (h, cache)) mallocQuestion) := by
  unfold questionAlone questionOf
  simp only [hrep.textCached_eq]
  cases textCached with
  | false => exact ⟨_, rfl, hrep, rfl⟩
  | true =>
    by_cases hmalloc : mallocQuestion = false
    · simp only [if_pos hmalloc, Bool.true_eq_false, if_false]
      exact ⟨_, rfl, hrep, rfl⟩
    · -- both take the same block, so that its counter decides in the same way
      obtain ⟨b, m, hb, hm, hblock⟩ := hrep.exists_block
      simp only [if_neg hmalloc, Bool.true_eq_false, if_false, hb, hm, take, hblock]
      cases rcmemTake m with
      | none => exact rfl
      | some m' =>
        have hset : (h.set b m').blocks b = some m' := by simp [Heap.set]
        exact ⟨(h.set b m', cache, some b), rfl, ⟨hrep.textCached_eq, by simp [hb, hset]⟩,
          by simp [RepresentsQuestion, hset]⟩

/-- `eq_get_question` of a task by itself, by its two halves. -/
theorem eqGetQuestion_alone (priv : EqTaskPriv) (mallocText : Option (ℕ → Char))
    (mallocQuestion : Bool) :
    EqGen.eqGetQuestion priv mallocText mallocQuestion =
      (EqGen.eqCacheText priv mallocText).bind fun cached =>
        (questionAlone cached.1.textRc cached.2 mallocQuestion).map fun out =>
          ({ cached.1 with textRc := out.1 }, out.2) := by
  unfold EqGen.eqGetQuestion questionAlone
  cases EqGen.eqCacheText priv mallocText with
  | error e => rfl
  | ok cached =>
    -- a task whose fields are written out is itself again when its text is put back
    obtain ⟨⟨eq, textRc, textCached, answer, answerCached⟩, ok⟩ := cached
    simp only [Except.bind]
    cases ok with
    | false => rfl
    | true =>
      cases mallocQuestion with
      | false => rfl
      | true =>
        cases textRc with
        | none => rfl
        | some m =>
          simp only [Bool.true_eq_false, if_false]
          cases rcmemTake m <;> rfl

/-- `python_shellcode_get_question` of a task by itself, by its two halves. -/
theorem pythonShellcodeGetQuestion_alone (priv : PythonShellcodeTaskPriv)
    (mallocText : Option (ℕ → Char)) (mallocQuestion : Bool) :
    PythonShellcode.pythonShellcodeGetQuestion priv mallocText mallocQuestion =
      (PythonShellcode.pythonShellcodeCacheText priv mallocText).bind fun cached =>
        (questionAlone cached.1.text cached.2 mallocQuestion).map fun out =>
          ({ cached.1 with text := out.1 }, out.2) := by
  unfold PythonShellcode.pythonShellcodeGetQuestion questionAlone
  cases PythonShellcode.pythonShellcodeCacheText priv mallocText with
  | error e => rfl
  | ok cached =>
    -- a task whose fields are written out is itself again when its text is put back
    obtain ⟨⟨text, textCached, answer, userAnswer, userAnswerLen, _, _, _⟩, ok⟩ := cached
    simp only [Except.bind]
    cases ok with
    | false => rfl
    | true =>
      cases mallocQuestion with
      | false => rfl
      | true =>
        cases text with
        | none => rfl
        | some m =>
          simp only [Bool.true_eq_false, if_false]
          cases rcmemTake m <;> rfl

/-- The second half of both functions comes after the first. -/
theorem questionOf_bind {α : Type} (cached : Except Fault (Heap RcMem × TextCache))
    (mallocQuestion : Bool) (f : Heap RcMem × TextCache × Option ℕ → α) :
    (questionOf cached mallocQuestion).map f =
      cached.bind fun cached => (questionOf (.ok cached) mallocQuestion).map f := by
  cases cached <;> rfl

/-- `task_get_question` of a task of `eq_gen` among other objects does to it what `eq_get_question`
does to the task by itself, and makes the same question. -/
theorem taskGetQuestion_representsEq {priv : EqTaskPriv} {task : Task}
    (hrep : RepresentsEq h priv task) (mallocText : Option (ℕ → Char)) (mallocQuestion : Bool) :
    SameOutcome
      (fun alone among => RepresentsEq among.1 alone.1 among.2.1 ∧
        RepresentsQuestion among.1 alone.2 among.2.2)
      (EqGen.eqGetQuestion priv mallocText mallocQuestion)
      (taskGetQuestion h task mallocText mallocQuestion) := by
  obtain ⟨cache, rfl, hrep⟩ := hrep
  simp only [taskGetQuestion, eqGetQuestion]
  rw [eqGetQuestion_alone, questionOf_bind]
  -- the second halves go on from what the first halves have left
  refine (eqCacheText_represents hrep mallocText).bind ?_
  rintro ⟨priv', ok⟩ ⟨h₁, cache'⟩ ⟨heq, hok, hrep'⟩
  dsimp only at heq hok hrep'
  subst hok
  exact (questionOf_represents hrep' mallocQuestion).map fun alone among hout =>
    ⟨⟨among.2.1, by rw [heq], hout.1⟩, hout.2⟩

/-- `task_get_question` of a task of `python_shellcode_gen` among other objects does to it what
`python_shellcode_get_question` does to the task by itself, and makes the same question. -/
theorem taskGetQuestion_representsPythonShellcode {priv : PythonShellcodeTaskPriv} {task : Task}
    (hrep : RepresentsPythonShellcode h priv task) (mallocText : Option (ℕ → Char))
    (mallocQuestion : Bool) :
    SameOutcome
      (fun alone among => RepresentsPythonShellcode among.1 alone.1 among.2.1 ∧
        RepresentsQuestion among.1 alone.2 among.2.2)
      (PythonShellcode.pythonShellcodeGetQuestion priv mallocText mallocQuestion)
      (taskGetQuestion h task mallocText mallocQuestion) := by
  obtain ⟨cache, rfl, hrep⟩ := hrep
  simp only [taskGetQuestion, pythonShellcodeGetQuestion]
  rw [pythonShellcodeGetQuestion_alone, questionOf_bind]
  refine (pythonShellcodeCacheText_represents hrep mallocText).bind ?_
  rintro ⟨priv', ok⟩ ⟨h₁, cache'⟩ ⟨hanswer, hok, hrep'⟩
  dsimp only at hanswer hok hrep'
  subst hok
  exact (questionOf_represents hrep' mallocQuestion).map fun alone among hout =>
    ⟨⟨among.2.1, by rw [hanswer], hout.1⟩, hout.2⟩

/-- The task that `gen_generate` of `eq_gen` makes is the one of `eq_gen_generate`. -/
theorem genGenerate_representsEq {priv : EqGenPriv} {g : Generating} {alone : EqTaskPriv}
    (hcall : eqGenGenerate priv g.env g.mallocTask g.mallocPriv = .ok (some alone)) :
    ∃ task, genGenerate h (.eq priv) g = .ok (h, some task) ∧ RepresentsEq h alone task := by
  have hnew : alone.textRc = none ∧ alone.textCached = false := by
    unfold eqGenGenerate at hcall
    split at hcall
    · cases hcall
    · split at hcall
      · cases hcall
      · split at hcall <;> cases hcall
        exact ⟨rfl, rfl⟩
  exact ⟨.eq alone.eq .empty, by simp only [genGenerate, hcall],
    .empty, rfl, by rw [hnew.1, hnew.2]; exact represents_empty h⟩

/-- The task that `gen_generate` of `python_shellcode_gen` makes is the one of
`python_shellcode_genenerate`. -/
theorem genGenerate_representsPythonShellcode {g : Generating} {alone : PythonShellcodeTaskPriv}
    (hcall : pythonShellcodeGenerate g.rand g.garbage g.mallocTask g.mallocPriv = some alone) :
    ∃ task, genGenerate h .pythonShellcode g = .ok (h, some task) ∧
      RepresentsPythonShellcode h alone task := by
  have hnew : alone.text = none ∧ alone.textCached = false := by
    unfold pythonShellcodeGenerate at hcall
    split at hcall
    · cases hcall
    · split at hcall <;> cases hcall
      exact ⟨rfl, rfl⟩
  exact ⟨.pythonShellcode alone.answer .empty, by simp only [genGenerate, hcall],
    .empty, rfl, by rw [hnew.1, hnew.2]; exact represents_empty h⟩

end OneTask

section Runs

variable {w : World}

/-- The invariant of a run: the counters are right for the live holders, and calls return unless
they end in `eq_generate`. -/
structure RunInv (w : World) : Prop where
  heap : HeapRight w.heap w.holders
  fault : ∀ f, w.fault = some f → ∃ e, f = .generation e

/-- Looking up a number finds the object that `without` leaves out. -/
theorem perm_without {α : Type} {objects : List (ℕ × α)} {no : ℕ} {object : α}
    (h : objects.lookup no = some object) :
    objects.Perm ((no, object) :: without objects no) := by
  induction objects with
  | nil => simp at h
  | cons other rest ih =>
    obtain ⟨no', object'⟩ := other
    rw [List.lookup_cons] at h
    unfold without
    by_cases hno : no == no'
    · obtain rfl : no = no' := by simpa using hno
      obtain rfl : object' = object := by simpa using h
      simp
    · have hne : no' ≠ no := fun heq => hno (by simp [heq])
      rw [List.eraseP_cons_of_neg (by simpa using hne)]
      have hrest := ih (by simpa [hno] using h)
      exact (hrest.cons _).trans (List.Perm.swap _ _ _)

/-- The holders with one generator taken apart. -/
theorem holders_gen {no : ℕ} {gen : Gen} (h : w.gens.lookup no = some gen) :
    w.holders.Perm (gen.texts ++ World.holders { w with gens := without w.gens no }) := by
  have hperm := (perm_without h).flatMap_right fun gen => gen.2.texts
  rw [List.perm_iff_count]
  intro b
  have hcount := hperm.count_eq b
  simp only [List.flatMap_cons, List.count_append] at hcount
  simp only [World.holders, List.count_append]
  omega

/-- The holders with one task taken apart. -/
theorem holders_task {no : ℕ} {task : Task} (h : w.tasks.lookup no = some task) :
    w.holders.Perm (task.texts ++ World.holders { w with tasks := without w.tasks no }) := by
  have hperm := (perm_without h).flatMap_right fun task => task.2.texts
  rw [List.perm_iff_count]
  intro b
  have hcount := hperm.count_eq b
  simp only [List.flatMap_cons, List.count_append] at hcount
  simp only [World.holders, List.count_append]
  omega

/-- The holders with one question taken apart. -/
theorem holders_question {no text : ℕ} (h : w.questions.lookup no = some text) :
    w.holders.Perm (text :: World.holders { w with questions := without w.questions no }) := by
  have hperm := (perm_without h).map Prod.snd
  rw [List.perm_iff_count]
  intro b
  have hcount := hperm.count_eq b
  simp only [List.map_cons, List.count_cons] at hcount
  simp only [World.holders, List.count_append, List.count_cons]
  omega

theorem Bounded.perm {holders holders' : List ℕ} (h : Bounded holders)
    (hperm : holders.Perm holders') : Bounded holders' := fun b => hperm.count_eq b ▸ h b

theorem Spare.perm {holders holders' : List ℕ} {b : ℕ} (h : Spare holders b)
    (hperm : holders.Perm holders') : Spare holders' b := by
  unfold Spare
  rw [← hperm.count_eq b]
  exact h

/-- A call that puts what one object holds and takes the object away. -/
theorem RunInv.afterHeap (h : RunInv w) (texts : List ℕ) {w' : World}
    (hbound : Bounded w.holders) (hperm : w.holders.Perm (texts ++ w'.holders))
    {call : Except Fault (Heap RcMem)}
    (hcall : HeapRight w.heap (texts ++ w'.holders) → Bounded (texts ++ w'.holders) →
      ∃ heap, call = .ok heap ∧ HeapRight heap w'.holders)
    {k : World → World} (hk : ∀ heap, k { w with heap } = { w' with heap })
    (hfault : w'.fault = w.fault) : RunInv (w.afterHeap call k) := by
  obtain ⟨heap, rfl, hheap⟩ := hcall (h.heap.perm hperm) (hbound.perm hperm)
  rw [World.afterHeap, hk]
  exact ⟨hheap, fun f hf => h.fault f (hfault ▸ hf)⟩

/-- A call of `gen_generate`, which returns unless it ends in `eq_generate`. -/
theorem RunInv.afterGenerate (h : RunInv w) {call : Except Fault (Heap RcMem × Option Task)}
    (hcall : (∃ e, call = .error (.generation e)) ∨
      ∃ heap task, call = .ok (heap, task) ∧
        HeapRight heap (task.elim [] Task.texts ++ w.holders)) :
    RunInv (w.afterGenerate call) := by
  rcases hcall with ⟨e, rfl⟩ | ⟨heap, task, rfl, hheap⟩
  -- nothing of the world has changed but that the run is over
  · exact ⟨h.heap, fun f hf => ⟨e, (Option.some.inj hf).symm⟩⟩
  · cases task with
    | none => exact ⟨hheap, h.fault⟩
    | some task =>
      refine ⟨hheap.perm ?_, h.fault⟩
      rw [List.perm_iff_count]
      intro b
      simp only [World.afterGenerate, World.holders, Option.elim_some, List.flatMap_cons,
        List.count_append]
      omega

/-- A call of `task_get_question`: the task comes back with its text, and the question is a new
holder. -/
theorem RunInv.afterQuestion (h : RunInv w) {no : ℕ}
    {call : Except Fault (Heap RcMem × Task × Option ℕ)}
    (hcall : ∃ heap task question, call = .ok (heap, task, question) ∧
      HeapRight heap (question.toList ++
        (task.texts ++ World.holders { w with tasks := without w.tasks no }))) :
    RunInv (w.afterQuestion no call) := by
  obtain ⟨heap, task, question, rfl, hheap⟩ := hcall
  cases question with
  | none =>
    refine ⟨hheap.perm ?_, h.fault⟩
    rw [List.perm_iff_count]
    intro b
    simp only [World.afterQuestion, World.holders, List.flatMap_cons, List.count_append,
      Option.toList_none, List.count_nil]
    omega
  | some text =>
    refine ⟨hheap.perm ?_, h.fault⟩
    rw [List.perm_iff_count]
    intro b
    simp only [World.afterQuestion, World.holders, List.flatMap_cons, List.count_append,
      Option.toList_some, List.map_cons, List.count_cons, List.count_nil]
    omega

/-- Every call keeps the invariant that gets the memory for the text of an equation and counts no
holder too many, whatever other allocations fail. -/
theorem RunInv.step (h : RunInv w) {i : Input} (hi : TextGranted w i) (hroom : Roomy w i)
    (hbound : Bounded w.holders) : RunInv (step w i) := by
  unfold Gens.step
  split
  · exact h
  · cases i with
    | echoGenCreate text mallocGen mallocText =>
      obtain ⟨heap, gen, hcall, hheap⟩ :=
        echoGenCreate_spec h.heap text mallocGen mallocText
      simp only [hcall]
      cases gen with
      | none => exact ⟨hheap, h.fault⟩
      | some gen => exact ⟨by simpa [World.holders, World.addGen] using hheap, h.fault⟩
    | eqGenCreate priv mallocGen mallocPriv =>
      dsimp only
      split
      · exact h
      · split
        · exact h
        · exact ⟨h.heap, h.fault⟩
    | pythonShellcodeGenCreate mallocGen =>
      dsimp only
      split
      · exact h
      · exact ⟨h.heap, h.fault⟩
    | generate no g =>
      dsimp only
      cases hgen : w.gens.lookup no with
      | none => exact h
      | some gen =>
        -- what the generator holds is held, so that a task can take it
        have hsub : gen.texts ⊆ w.holders := fun b hb =>
          (holders_gen hgen).mem_iff.2 (List.mem_append_left _ hb)
        exact h.afterGenerate (genGenerate_spec h.heap hsub g fun hmalloc => hroom hmalloc gen hgen)
    | getQuestion no mallocText mallocQuestion =>
      dsimp only
      cases htask : w.tasks.lookup no with
      | none => exact h
      | some task =>
        have hperm := holders_task htask
        have hspare (hquestion : mallocQuestion = true) (b : ℕ) (hb : b ∈ task.texts) :=
          (hroom hquestion task htask b hb).perm hperm
        exact h.afterQuestion
          (taskGetQuestion_spec (h.heap.perm hperm) mallocQuestion hspare (hi task htask))
    | destroyGen no =>
      dsimp only
      cases hgen : w.gens.lookup no with
      | none => exact h
      | some gen =>
        exact h.afterHeap gen.texts hbound (holders_gen hgen) genDestroy_spec (fun _ => rfl) rfl
    | destroyTask no =>
      dsimp only
      cases htask : w.tasks.lookup no with
      | none => exact h
      | some task =>
        exact h.afterHeap task.texts hbound (holders_task htask) taskDestroy_spec (fun _ => rfl) rfl
    | destroyQuestion no =>
      dsimp only
      cases hquestion : w.questions.lookup no with
      | none => exact h
      | some text =>
        exact h.afterHeap [text] hbound (holders_question hquestion)
          (fun hc hbound => put_spec hc (hbound text)) (fun _ => rfl) rfl

/-- Where all allocations succeed, that for a text does. -/
theorem Input.Succeeds.textGranted {i : Input} (h : i.Succeeds w) : TextGranted w i := by
  cases i with
  | getQuestion no mallocText mallocQuestion =>
    intro task htask
    cases task with
    | eq eq cache =>
      have hmalloc := h.2
      simp only [htask] at hmalloc
      exact .inr (.inr hmalloc)
    | echo text => trivial
    | pythonShellcode answer cache => trivial
  | _ => trivial

/-- Where every block has fewer than `UINT_MAX` holders, any of them may have one more. -/
theorem Few.roomy (hfew : Few w.holders) (i : Input) : Roomy w i := by
  cases i with
  | generate no g => exact fun _ _ _ b _ => hfew b
  | getQuestion no mallocText mallocQuestion => exact fun _ _ _ b _ => hfew b
  | _ => trivial

/-- The invariant says that the counters are right. -/
theorem RunInv.right (h : RunInv w) : CountersRight w := by
  intro b hb
  obtain ⟨hblock, hfreed⟩ := h.heap.freed_iff hb
  refine ⟨fun hmem => ⟨?_, fun hbad => ?_⟩, fun hmem => ⟨hblock.1 hmem, hfreed.1 hmem⟩⟩
  · obtain ⟨m, hm⟩ := h.heap.held b hmem
    exact ⟨m, hm, (h.heap.counter b m hm).2⟩
  · -- what has been freed is not allocated
    have hcount := h.heap.freed b
    obtain ⟨m, hm⟩ := h.heap.held b hmem
    rw [if_neg (by simp [hm])] at hcount
    exact List.count_eq_zero.1 hcount hbad

/-- In every run of calls whose allocations succeed, with fewer than `UINT_MAX` live holders of
each block, every state has the right counters, and no call fails in reference-counted memory. -/
theorem counters_right (inputs : List Input)
    (hallowed : InputMachine.Meets step Allowed World.empty inputs) :
    InputMachine.Always step
      (fun w => CountersRight w ∧ ∀ f, w.fault = some f → ∃ e, f = .generation e)
      World.empty inputs := by
  have hstart : RunInv World.empty := ⟨Counts.empty _, by simp [World.empty]⟩
  have hrun := InputMachine.always_of_invariant (P := RunInv) (fun _ _ h hi =>
    h.step hi.1.textGranted (hi.2.roomy _) hi.2.bounded) hstart
    hallowed
  exact hrun.mono step fun w h => ⟨h.right, h.fault⟩

/-- A short list of holders has no block too often. -/
theorem few_of_length {holders : List ℕ} (h : holders.length < UNSIGNED_RANGE - 1) :
    Few holders := fun _ => List.count_le_length.trans_lt h

/-- A question that outlives its task and its generator. -/
def lastQuestion : List Input :=
  [.echoGenCreate ['h', 'i'] true (some fun _ => 'x'),
    .generate 0 ⟨⟨fun _ => 0, fun _ => 0, fun _ => true⟩, fun _ => 0, fun _ => 'x', true, true⟩,
    .getQuestion 1 none true, .destroyGen 0, .destroyTask 1, .destroyQuestion 2]

/-- Its text is freed with the question. -/
theorem counters_right_lastQuestion :
    (InputMachine.run step World.empty lastQuestion).heap.freed = [0] ∧
      InputMachine.Always step
        (fun w => CountersRight w ∧ ∀ f, w.fault = some f → ∃ e, f = .generation e)
        World.empty lastQuestion := by
  refine ⟨by decide +kernel, counters_right lastQuestion ?_⟩
  -- never more than three holders
  refine ⟨⟨⟨rfl, rfl⟩, few_of_length ?_⟩, ⟨⟨rfl, rfl, fun _ => rfl⟩, few_of_length ?_⟩,
    ⟨⟨rfl, trivial⟩, few_of_length ?_⟩, ⟨trivial, few_of_length ?_⟩, ⟨trivial, few_of_length ?_⟩,
    ⟨trivial, few_of_length ?_⟩, trivial⟩
  all_goals decide +kernel

end Runs

end Qkmetisc.Gens
