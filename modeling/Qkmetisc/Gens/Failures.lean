import Qkmetisc.Gens.Calls

/-!
# Failing allocations

The generators make a task, and a task its text and a question, with several allocations. When one
of them fails, the call returns `NULL` and what there was before stays as it was, so that a later
call gives what it would have given at once. The one exception is the text of an equation: its last
byte is set before the pointer is tested.

## Main definitions

* `Spared`: the condition on a call.
* `Withstands`: what holds of a state in which any allocation of a call may fail.
* `SameTexts`: a task shows in a later state what it shows in an earlier one.

## Main results

* `genGenerate_granted`: a call of `gen_generate` returns `NULL` or does what it would do otherwise.
* `Inv.step`: one call.
* `Inv.spared`: a call after which all is well has met the condition.
* `failures_withstood_iff`: the runs that withstand all failures.
-/

open Qkmetisc.EqGen (EqElem Env RcMem eqGenGenerate eqGenerate eqGenerateLoop eqElemGen GenState
  GenFlags)
open Qkmetisc.PythonShellcode (pythonShellcodeGenerate)
open RefCount (Heap Counts)

namespace Qkmetisc.Gens

/-- The same call of `gen_generate` where no allocation fails. -/
def Generating.granted (g : Generating) : Generating :=
  { g with env := { g.env with malloc := fun _ => true }, mallocTask := true, mallocPriv := true }

/-- The call gets the memory for the text of an equation, and room for one more holder of the text
that it takes; unless no call is made any more. -/
def Spared (w : World) (i : Input) : Prop := w.fault = none → TextGranted w i ∧ Roomy w i

/-- What holds of a state of a run, whatever allocations have failed. -/
structure Withstands (w : World) : Prop where
  counters : CountersRight w
  /-- No call has ended at `NULL` or in reference-counted memory. -/
  returns : ∀ f, w.fault = some f → ∃ e, f = .generation e
  /-- `gen_generate` returns `NULL`, or does what it would do if no allocation failed. -/
  generates : ∀ e ∈ w.gens, ∀ g, genGenerate w.heap e.2 g = .ok (w.heap, none) ∨
    genGenerate w.heap e.2 g = genGenerate w.heap e.2 g.granted
  /-- `task_get_question` returns `NULL`, or a question with the text it would have if no allocation
  failed, and `NULL` if there is no memory for a question. -/
  asks : ∀ e ∈ w.tasks, ∀ mallocText mallocQuestion h task question,
    taskGetQuestion w.heap e.2 mallocText mallocQuestion = .ok (h, task, question) →
      (mallocQuestion = false → question = none) ∧
        ∀ b, question = some b → ∀ garbage, textAt h b = asked w.heap e.2 (some garbage) true
  /-- Destroying a task releases what it holds, once. -/
  destroys : w.fault = none → ∀ no,
    (step w (.destroyTask no)).fault = none ∧ CountersRight (step w (.destroyTask no))

/-- A task that is there in both states shows the same text, where the allocations of the call
succeed and its text may have one more holder. -/
def SameTexts (w w' : World) : Prop :=
  ∀ no task task', (no, task) ∈ w.tasks → (no, task') ∈ w'.tasks →
    (∀ b ∈ task.texts, Spare w.holders b) → (∀ b ∈ task'.texts, Spare w'.holders b) →
      ∀ garbage garbage' : ℕ → Char,
        asked w'.heap task' (some garbage') true = asked w.heap task (some garbage) true

section Generating

/-- The loop of `eq_generate` runs as it would if no allocation failed, up to the first that
fails. -/
theorem eqGenerateLoop_granted (allowed : GenFlags) (max : ℕ) (env : Env) (k i : ℕ) (s : GenState)
    (chain : List EqElem) : eqGenerateLoop allowed max env k i s chain = .ok none ∨
      eqGenerateLoop allowed max env k i s chain =
        eqGenerateLoop allowed max { env with malloc := fun _ => true } k i s chain := by
  induction k generalizing i s chain with
  | zero => exact .inr rfl
  | succ k ih =>
    rw [eqGenerateLoop, eqGenerateLoop]
    rcases hmalloc : env.malloc (i + 1) with _ | _
    · -- the kind of the element is chosen before the allocation
      rw [eqElemGen, eqElemGen]
      rcases EqGen.bitmaskChoose (s.flags allowed) (env.rand (i + 1)) with e | chosen
      · exact .inr rfl
      · exact .inl rfl
    · rcases eqElemGen (s.flags allowed) max (env.rand (i + 1)) (env.urandom i) true with
        e | _ | new
      · exact .inr rfl
      · exact .inr rfl
      · exact ih (i + 1) (s.account new) (chain ++ [new])

theorem eqGenerate_granted (minlen maxlen : ℤ) (max : ℕ) (allowedOps : EqGen.EqFlags) (env : Env) :
    eqGenerate minlen maxlen max allowedOps env = .ok none ∨
      eqGenerate minlen maxlen max allowedOps env =
        eqGenerate minlen maxlen max allowedOps { env with malloc := fun _ => true } := by
  rw [eqGenerate, eqGenerate]
  dsimp only
  split
  · exact .inl rfl
  · split
    · exact .inl rfl
    · rcases env.malloc 0 with _ | _
      · exact .inl rfl
      · exact eqGenerateLoop_granted _ _ _ _ _ _ _

/-- A call of `gen_generate` returns `NULL` and leaves the memory alone, or does what it would do if
no allocation failed. -/
theorem genGenerate_granted (h : Heap RcMem) (gen : Gen) (g : Generating) :
    genGenerate h gen g = .ok (h, none) ∨ genGenerate h gen g = genGenerate h gen g.granted := by
  -- `echo_gen_generate` allocates the task only, the other two its private part as well
  rcases htask : g.mallocTask with _ | _
  · left
    cases gen with
    | echo text => simp only [genGenerate, echoGenGenerate, htask, if_true]
    | eq priv => simp only [genGenerate, eqGenGenerate, htask, if_true]
    | pythonShellcode => simp only [genGenerate, pythonShellcodeGenerate, htask, if_true]
  · rcases hpriv : g.mallocPriv with _ | _
    · cases gen with
      | echo text =>
        right
        simp only [genGenerate, Generating.granted, htask]
      | eq priv =>
        left
        simp [genGenerate, eqGenGenerate, htask, hpriv]
      | pythonShellcode =>
        left
        simp [genGenerate, pythonShellcodeGenerate, htask, hpriv]
    · cases gen with
      | echo text =>
        right
        simp only [genGenerate, Generating.granted, htask]
      | eq priv =>
        rcases eqGenerate_granted priv.minlen priv.maxlen priv.maxnr priv.allowed g.env with
          hnone | hsame
        · left
          simp [genGenerate, eqGenGenerate, htask, hpriv, hnone]
        · right
          simp [genGenerate, eqGenGenerate, Generating.granted, htask, hpriv, hsame]
      | pythonShellcode =>
        right
        simp [genGenerate, pythonShellcodeGenerate, Generating.granted, htask, hpriv]

end Generating

section Runs

variable {w w' w'' : World}

/-- What holds in every state of a run: the counters are right and `unsigned`, every task has a
number of its own that has been given out, and what it has cached is its own text. -/
structure Inv (w : World) : Prop where
  run : RunInv w
  small : Small w.heap
  numbers : (w.tasks.map Prod.fst).Nodup
  below : ∀ e ∈ w.tasks, e.1 < w.made
  texts : ∀ e ∈ w.tasks, TextRight w.heap e.2

/-- A later state: the tasks that are left are those they were. -/
structure Follows (w w' : World) : Prop where
  made : w.made ≤ w'.made
  keeps : Keeps w.heap w'.heap
  tasks : ∀ e' ∈ w'.tasks, w.made ≤ e'.1 ∨ ∃ e ∈ w.tasks, e.1 = e'.1 ∧ SameTask e.2 e'.2

theorem Follows.refl (w : World) : Follows w w where
  made := Nat.le_refl _
  keeps := .refl _
  tasks := fun e he => .inr ⟨e, he, rfl, .refl _⟩

theorem Follows.trans (h : Follows w w') (h' : Follows w' w'') : Follows w w'' where
  made := Nat.le_trans h.made h'.made
  keeps := h.keeps.trans h'.keeps
  tasks := by
    intro e'' he''
    rcases h'.tasks e'' he'' with hnew | ⟨e', he', hno', hsame'⟩
    · exact .inl (Nat.le_trans h.made hnew)
    · rcases h.tasks e' he' with hnew | ⟨e, he, hno, hsame⟩
      · exact .inl (hno' ▸ hnew)
      · exact .inr ⟨e, he, hno.trans hno', hsame.trans hsame'⟩

theorem Inv.empty : Inv World.empty where
  run := ⟨Counts.empty _, by simp [World.empty]⟩
  small := by simp [World.empty, Small, Heap.empty]
  numbers := by simp [World.empty]
  below := by simp [World.empty]
  texts := by simp [World.empty]

/-- As the counters are `unsigned`, no block has more holders than can be counted. -/
theorem Inv.bounded (h : Inv w) : Bounded w.holders := by
  intro b
  by_cases hb : b ∈ w.holders
  · obtain ⟨m, hm⟩ := h.run.heap.held b hb
    rw [← (h.run.heap.counter b m hm).2]
    exact h.small b m hm
  · rw [List.count_eq_zero.2 hb]
    decide

/-- What a task holds is held. -/
theorem texts_subset {e : ℕ × Task} (he : e ∈ w.tasks) : e.2.texts ⊆ w.holders := by
  intro b hb
  exact List.mem_append_left _ (List.mem_append_right _ (List.mem_flatMap.2 ⟨e, he, hb⟩))

/-- A call after which every task is one that was there before, or has its own text. -/
theorem Inv.next (h : Inv w) (hrun : RunInv w') (hkeeps : Keeps w.heap w'.heap)
    (hmade : w.made ≤ w'.made) (hnumbers : (w'.tasks.map Prod.fst).Nodup)
    (htasks : ∀ e' ∈ w'.tasks, e' ∈ w.tasks ∨ e'.1 < w'.made ∧ TextRight w'.heap e'.2 ∧
      (w.made ≤ e'.1 ∨ ∃ e ∈ w.tasks, e.1 = e'.1 ∧ SameTask e.2 e'.2)) :
    Inv w' ∧ Follows w w' := by
  refine ⟨⟨hrun, hkeeps.small h.small, hnumbers, fun e' he' => ?_, fun e' he' => ?_⟩, hmade, hkeeps,
    fun e' he' => ?_⟩
  · rcases htasks e' he' with hold | ⟨hbelow, -⟩
    · exact Nat.lt_of_lt_of_le (h.below e' hold) hmade
    · exact hbelow
  · rcases htasks e' he' with hold | ⟨-, htext, -⟩
    · -- its block is held before and after the call
      have hheld : ∀ b ∈ e'.2.texts, ∃ m, w'.heap.blocks b = some m :=
        fun b hb => hrun.heap.held b (texts_subset he' hb)
      exact (h.texts e' hold).stay (stay_of_keeps hkeeps h.run.heap (texts_subset hold) hheld)
    · exact htext
  · rcases htasks e' he' with hold | ⟨-, -, hfollows⟩
    · exact .inr ⟨e', hold, rfl, .refl _⟩
    · exact hfollows

/-- A call that leaves the tasks alone. -/
theorem Inv.next_of_tasks (h : Inv w) (hrun : RunInv w') (hkeeps : Keeps w.heap w'.heap)
    (hmade : w.made ≤ w'.made) (htasks : w'.tasks = w.tasks) : Inv w' ∧ Follows w w' := by
  refine h.next hrun hkeeps hmade (by rw [htasks]; exact h.numbers) fun e he => .inl ?_
  rwa [← htasks]

/-- A call that puts what an object holds. -/
theorem Inv.afterHeap (h : Inv w) {call : Except Fault (Heap RcMem)} {k : World → World}
    (hrun : RunInv (w.afterHeap call k)) (hcall : ∀ heap, call = .ok heap → Keeps w.heap heap)
    (hheap : ∀ heap, (k { w with heap }).heap = heap)
    (hmade : ∀ heap, (k { w with heap }).made = w.made)
    (htasks : ∀ heap, (k { w with heap }).tasks.Sublist w.tasks) :
    Inv (w.afterHeap call k) ∧ Follows w (w.afterHeap call k) := by
  rcases call with e | heap
  · exact h.next_of_tasks hrun (.refl _) (Nat.le_refl _) rfl
  · refine h.next hrun ?_ (hmade heap).ge (h.numbers.sublist ((htasks heap).map _))
      fun e he => .inl ((htasks heap).subset he)
    show Keeps w.heap (k { w with heap }).heap
    rw [hheap]
    exact hcall heap rfl

theorem Inv.afterGenerate (h : Inv w) {gen : Gen} {g : Generating}
    (hrun : RunInv (w.afterGenerate (genGenerate w.heap gen g))) :
    Inv (w.afterGenerate (genGenerate w.heap gen g)) ∧
      Follows w (w.afterGenerate (genGenerate w.heap gen g)) := by
  rcases hcall : genGenerate w.heap gen g with e | ⟨heap, _ | task⟩
  · rw [hcall] at hrun
    exact h.next_of_tasks hrun (.refl _) (Nat.le_refl _) rfl
  · rw [hcall] at hrun
    exact h.next_of_tasks hrun (genGenerate_text hcall).1 (Nat.le_refl _) rfl
  · rw [hcall] at hrun
    obtain ⟨hkeeps, htext⟩ := genGenerate_text hcall
    refine h.next hrun hkeeps (Nat.le_succ _) ?_ fun e he => ?_
    · -- the number of the new task has not been given out
      refine List.nodup_cons.2 ⟨fun hmem => ?_, h.numbers⟩
      obtain ⟨e, he, hno⟩ := List.mem_map.1 hmem
      exact absurd hno (Nat.ne_of_lt (h.below e he))
    · rcases List.mem_cons.1 he with rfl | hold
      · exact .inr ⟨Nat.lt_succ_self _, htext task rfl, .inl (Nat.le_refl _)⟩
      · exact .inl hold

theorem Inv.afterQuestion (h : Inv w) {no : ℕ} {task : Task} (htask : w.tasks.lookup no = some task)
    {mallocText : Option (ℕ → Char)} {mallocQuestion : Bool}
    (hrun : RunInv (w.afterQuestion no (taskGetQuestion w.heap task mallocText mallocQuestion))) :
    Inv (w.afterQuestion no (taskGetQuestion w.heap task mallocText mallocQuestion)) ∧
      Follows w (w.afterQuestion no (taskGetQuestion w.heap task mallocText mallocQuestion)) := by
  have hperm := perm_without htask
  have hmem : (no, task) ∈ w.tasks := hperm.mem_iff.2 List.mem_cons_self
  rcases hcall : taskGetQuestion w.heap task mallocText mallocQuestion with
    e | ⟨heap, task', question⟩
  · rw [hcall] at hrun
    exact h.next_of_tasks hrun (.refl _) (Nat.le_refl _) rfl
  · rw [hcall] at hrun
    obtain ⟨htext, hsame, hkeeps, -⟩ := taskGetQuestion_text (h.texts _ hmem) hcall
    -- the task is there again under its number
    have hnumbers : (((no, task') :: without w.tasks no).map Prod.fst).Nodup :=
      (hperm.map Prod.fst).nodup_iff.1 h.numbers
    have htasks {made : ℕ} (hmade : w.made ≤ made) (e' : ℕ × Task)
        (he' : e' ∈ (no, task') :: without w.tasks no) :
        e' ∈ w.tasks ∨ e'.1 < made ∧ TextRight heap e'.2 ∧
          (w.made ≤ e'.1 ∨ ∃ e ∈ w.tasks, e.1 = e'.1 ∧ SameTask e.2 e'.2) := by
      rcases List.mem_cons.1 he' with rfl | hrest
      · have hbelow : no < made := Nat.lt_of_lt_of_le (h.below (no, task) hmem) hmade
        exact .inr ⟨hbelow, htext, .inr ⟨_, hmem, rfl, hsame⟩⟩
      · exact .inl (hperm.mem_iff.2 (List.mem_cons_of_mem _ hrest))
    cases question with
    | none => exact h.next hrun hkeeps (Nat.le_refl _) hnumbers (htasks (Nat.le_refl _))
    | some text => exact h.next hrun hkeeps (Nat.le_succ _) hnumbers (htasks (Nat.le_succ _))

/-- One call, with whatever allocations of it failing, but that for the text of an equation. -/
theorem Inv.step (h : Inv w) {i : Input} (hi : Spared w i) :
    Inv (step w i) ∧ Follows w (step w i) := by
  by_cases hfault : w.fault.isSome = true
  · unfold Gens.step
    rw [if_pos hfault]
    exact ⟨h, .refl w⟩
  · -- that the counters are right is known, and what is left are the texts
    obtain ⟨hgranted, hroom⟩ := hi (by simpa using hfault)
    have hrun := h.run.step hgranted hroom h.bounded
    unfold Gens.step at hrun ⊢
    rw [if_neg hfault] at hrun ⊢
    cases i with
    | echoGenCreate text mallocGen mallocText =>
      dsimp only at hrun ⊢
      rcases hcall : echoGenCreate w.heap text mallocGen mallocText with ⟨heap, _ | gen⟩
      · rw [hcall] at hrun
        exact h.next_of_tasks hrun (echoGenCreate_keeps hcall) (Nat.le_refl _) rfl
      · rw [hcall] at hrun
        exact h.next_of_tasks hrun (echoGenCreate_keeps hcall) (Nat.le_succ _) rfl
    | eqGenCreate priv mallocGen mallocPriv =>
      dsimp only at hrun ⊢
      by_cases hgen : mallocGen = false
      · rw [if_pos hgen] at hrun ⊢
        exact ⟨h, .refl w⟩
      · by_cases hpriv : mallocPriv = false
        · rw [if_neg hgen, if_pos hpriv] at hrun ⊢
          exact ⟨h, .refl w⟩
        · rw [if_neg hgen, if_neg hpriv] at hrun ⊢
          exact h.next_of_tasks hrun (.refl _) (Nat.le_succ _) rfl
    | pythonShellcodeGenCreate mallocGen =>
      dsimp only at hrun ⊢
      by_cases hgen : mallocGen = false
      · rw [if_pos hgen] at hrun ⊢
        exact ⟨h, .refl w⟩
      · rw [if_neg hgen] at hrun ⊢
        exact h.next_of_tasks hrun (.refl _) (Nat.le_succ _) rfl
    | generate no g =>
      dsimp only at hrun ⊢
      rcases hgen : w.gens.lookup no with _ | gen
      · exact ⟨h, .refl w⟩
      · rw [hgen] at hrun
        exact h.afterGenerate hrun
    | getQuestion no mallocText mallocQuestion =>
      dsimp only at hrun ⊢
      rcases htask : w.tasks.lookup no with _ | task
      · exact ⟨h, .refl w⟩
      · rw [htask] at hrun
        exact h.afterQuestion htask hrun
    | destroyGen no =>
      dsimp only at hrun ⊢
      rcases hgen : w.gens.lookup no with _ | gen
      · exact ⟨h, .refl w⟩
      · rw [hgen] at hrun
        exact h.afterHeap hrun (fun _ => genDestroy_keeps) (fun _ => rfl) (fun _ => rfl)
          fun _ => .refl _
    | destroyTask no =>
      dsimp only at hrun ⊢
      rcases htask : w.tasks.lookup no with _ | task
      · exact ⟨h, .refl w⟩
      · rw [htask] at hrun
        exact h.afterHeap hrun (fun _ => taskDestroy_keeps) (fun _ => rfl) (fun _ => rfl)
          fun _ => List.eraseP_sublist
    | destroyQuestion no =>
      dsimp only at hrun ⊢
      rcases hquestion : w.questions.lookup no with _ | text
      · exact ⟨h, .refl w⟩
      · rw [hquestion] at hrun
        exact h.afterHeap hrun (fun _ => put_keeps) (fun _ => rfl) (fun _ => rfl) fun _ => .refl _

/-- A run. -/
theorem Inv.runs (h : Inv w) {inputs : List Input}
    (hspared : InputMachine.Meets Gens.step Spared w inputs) :
    Inv (InputMachine.run Gens.step w inputs) ∧
      Follows w (InputMachine.run Gens.step w inputs) := by
  induction inputs generalizing w with
  | nil => exact ⟨h, .refl w⟩
  | cons i inputs ih =>
    obtain ⟨hnext, hfollows⟩ := h.step hspared.1
    obtain ⟨hlast, hfollows'⟩ := ih hnext hspared.2
    exact ⟨hlast, hfollows.trans hfollows'⟩

/-- A task is found under its number. -/
theorem Inv.lookup (h : Inv w) {no : ℕ} {task : Task} (hmem : (no, task) ∈ w.tasks) :
    w.tasks.lookup no = some task := by
  obtain ⟨other, hother⟩ : ∃ other, w.tasks.lookup no = some other := by
    rw [← Option.isSome_iff_exists, List.lookup_isSome_iff]
    exact ⟨(no, task), hmem, by simp⟩
  have hmem' : (no, other) ∈ w.tasks := (perm_without hother).mem_iff.2 List.mem_cons_self
  have heq := List.inj_on_of_nodup_map h.numbers hmem hmem' rfl
  rw [hother, (Prod.mk.inj heq).2]

/-- What a task of a state shows when the allocations succeed. -/
theorem Inv.asked_eq (h : Inv w) {no : ℕ} {task : Task} (hmem : (no, task) ∈ w.tasks)
    (hspare : ∀ b ∈ task.texts, Spare w.holders b) (garbage : ℕ → Char) :
    asked w.heap task (some garbage) true = task.shows w.heap := by
  have hperm := holders_task (h.lookup hmem)
  exact Gens.asked_eq (h.run.heap.perm hperm) (fun b hb => (hspare b hb).perm hperm)
    (h.texts _ hmem) garbage

theorem Inv.withstands (h : Inv w) : Withstands w where
  counters := h.run.right
  returns := h.run.fault
  generates := fun e _ g => genGenerate_granted w.heap e.2 g
  asks := by
    intro e he mallocText mallocQuestion heap task' question hcall
    have hheap := h.run.heap.perm (holders_task (h.lookup he))
    obtain ⟨-, -, -, hnone, -⟩ := taskGetQuestion_text (h.texts e he) hcall
    refine ⟨hnone, ?_⟩
    rintro b rfl garbage
    -- as the text could be taken in this call, it could be in the other one
    have hmalloc : mallocQuestion = true := by
      by_contra hno
      cases hnone (by simpa using hno)
    have hspare := (spared_of_returned hheap (h.texts e he) hcall).2 hmalloc
    rw [Gens.asked_eq hheap hspare (h.texts e he)]
    exact taskGetQuestion_shows hheap (h.texts e he) hcall
  destroys := by
    intro hfault no
    have hspared : Spared w (.destroyTask no) := fun _ => ⟨trivial, trivial⟩
    refine ⟨?_, (h.step hspared).1.run.right⟩
    unfold Gens.step
    rw [if_neg (by simp [hfault])]
    dsimp only
    rcases htask : w.tasks.lookup no with _ | task
    · exact hfault
    · have hperm := holders_task htask
      obtain ⟨heap, hcall, -⟩ := taskDestroy_spec (h.run.heap.perm hperm) (h.bounded.perm hperm)
      dsimp only
      rw [hcall]
      exact hfault

/-- A call after which all is well has got what it needs. -/
theorem Inv.spared (h : Inv w) {i : Input} (hafter : Withstands (Gens.step w i)) : Spared w i := by
  intro hfault
  have hgo : ¬w.fault.isSome = true := by simp [hfault]
  cases i with
  | generate no g =>
    refine ⟨trivial, fun hmalloc gen hgen b hb => ?_⟩
    have hstep : Gens.step w (.generate no g) = w.afterGenerate (genGenerate w.heap gen g) := by
      unfold Gens.step
      rw [if_neg hgo]
      simp only [hgen]
    refine spare_of_generated h.run.heap (fun e hcall => ?_) hmalloc b hb
    apply hafter.returns e
    rw [hstep, hcall]
    rfl
  | getQuestion no mallocText mallocQuestion =>
    rcases htask : w.tasks.lookup no with _ | task
    · simp [TextGranted, Roomy, htask]
    · have hperm := holders_task htask
      have hstep : Gens.step w (.getQuestion no mallocText mallocQuestion) =
          w.afterQuestion no (taskGetQuestion w.heap task mallocText mallocQuestion) := by
        unfold Gens.step
        rw [if_neg hgo]
        simp only [htask]
      rcases hcall : taskGetQuestion w.heap task mallocText mallocQuestion with
        e | ⟨heap, task', question⟩
      · have hend : (Gens.step w (.getQuestion no mallocText mallocQuestion)).fault = some e := by
          rw [hstep, hcall]
          rfl
        obtain ⟨f, rfl⟩ := hafter.returns e hend
        exact absurd hcall (taskGetQuestion_ne_generation _ _ _ _ f)
      · have hmem : (no, task) ∈ w.tasks := (perm_without htask).mem_iff.2 List.mem_cons_self
        obtain ⟨hgranted, hspare⟩ :=
          spared_of_returned (h.run.heap.perm hperm) (h.texts _ hmem) hcall
        refine ⟨fun other hother => ?_, fun hmalloc other hother b hb => ?_⟩
        · obtain rfl : task = other := Option.some.inj (htask.symm.trans hother)
          exact hgranted
        · obtain rfl : task = other := Option.some.inj (htask.symm.trans hother)
          exact (hspare hmalloc b hb).perm hperm.symm
  | _ => exact ⟨trivial, trivial⟩

/-- Between two states of a run a task keeps what it shows. -/
theorem Follows.sameTexts (hfollows : Follows w w') (h : Inv w) (h' : Inv w') :
    SameTexts w w' := by
  intro no task task' hmem hmem' hspare hspare' garbage garbage'
  rw [h.asked_eq hmem hspare, h'.asked_eq hmem' hspare']
  -- the later task comes from the earlier one of its number
  have hsame : SameTask task task' := by
    rcases hfollows.tasks _ hmem' with hnew | ⟨e, he, hno, hsame⟩
    · exact absurd hnew (Nat.not_le.2 (h.below (no, task) hmem))
    · have heq := List.inj_on_of_nodup_map h.numbers he hmem hno
      rwa [heq] at hsame
  by_cases hkind : ∃ text, task = .echo text
  · obtain ⟨text, rfl⟩ := hkind
    cases task' with
    | echo text' =>
      obtain rfl : text' = text := hsame
      have hheld : text' ∈ w.holders := texts_subset hmem List.mem_cons_self
      have hheld' : text' ∈ w'.holders := texts_subset hmem' List.mem_cons_self
      obtain ⟨m, hm⟩ := h'.run.heap.held text' hheld'
      exact textAt_keeps hfollows.keeps (lt_made h.run.heap hheld) hm
    | _ => exact hsame.elim
  · exact hsame.shows_eq (fun text heq => hkind ⟨text, heq⟩) _ _

/-- In a run of any of the calls with any of their allocations failing, every call returns `NULL`
or does what it would do otherwise, the counters are right, and the tasks show what they would show
at any time before, exactly if every call gets the memory for the text of an equation, should it
need it, and room for one more holder. -/
theorem failures_withstood_iff (inputs : List Input) :
    (InputMachine.Always Gens.step Withstands World.empty inputs ∧
      ∀ before after, before ++ after = inputs →
        SameTexts (InputMachine.run Gens.step World.empty before)
          (InputMachine.run Gens.step World.empty inputs)) ↔
      InputMachine.Meets Gens.step Spared World.empty inputs := by
  have halways : InputMachine.Always Gens.step Withstands World.empty inputs ↔
      InputMachine.Meets Gens.step Spared World.empty inputs :=
    InputMachine.always_iff_meets_of_breaks (fun _ (h : Inv _) => h.withstands)
      (fun _ _ h _ hi => (h.step hi).1) (fun _ _ h _ hafter => h.spared hafter) .empty
      (InputMachine.meets_true _ _ inputs)
  rw [← halways]
  refine and_iff_left_of_imp fun hwithstands => ?_
  have hspared := halways.1 hwithstands
  rintro before after rfl
  rw [InputMachine.meets_append] at hspared
  obtain ⟨hbefore, -⟩ := Inv.empty.runs hspared.1
  obtain ⟨hafter, hfollows⟩ := hbefore.runs hspared.2
  have hruns : InputMachine.run Gens.step World.empty (before ++ after) =
      InputMachine.run Gens.step (InputMachine.run Gens.step World.empty before) after :=
    List.foldl_append
  rw [hruns]
  exact hfollows.sameTexts hbefore hafter

/-- A call of `gen_generate` with everything it asks for. -/
def allGranted : Generating :=
  ⟨⟨fun _ => 0, fun _ => 1, fun _ => true⟩, fun _ => 0, fun _ => 'x', true, true⟩

/-- Tasks of `eq_gen` and `python_shellcode_gen` whose first questions fail, the first for want of a
question, the second for want of a text and then of a question. -/
def retries : List Input :=
  [.eqGenCreate ⟨1, 1, 9, EqGen.eqElemSum⟩ true true, .generate 0 allGranted,
    .getQuestion 1 (some fun _ => 'x') false, .getQuestion 1 none true,
    .pythonShellcodeGenCreate true, .generate 3 allGranted, .getQuestion 4 none true,
    .getQuestion 4 (some fun _ => 'x') false, .getQuestion 4 none true, .destroyTask 1,
    .destroyTask 4]

example : (InputMachine.run Gens.step World.empty retries).questions = [(5, 1), (2, 0)] := by
  decide +kernel

/-- A task of `eq_gen` is asked, and there is no memory for its text. -/
def unprintedTask : List Input :=
  [.eqGenCreate ⟨1, 1, 9, EqGen.eqElemSum⟩ true true, .generate 0 allGranted,
    .getQuestion 1 none true]

/-- The last byte of the text is set all the same, through `NULL`. -/
theorem not_failures_withstood :
    ¬∀ inputs, InputMachine.Meets Gens.step (fun w _ => Few w.holders) World.empty inputs →
      InputMachine.Always Gens.step Withstands World.empty inputs ∧
        ∀ before after, before ++ after = inputs →
          SameTexts (InputMachine.run Gens.step World.empty before)
            (InputMachine.run Gens.step World.empty inputs) := by
  intro hall
  have hfew :
      InputMachine.Meets Gens.step (fun w _ => Few w.holders) World.empty unprintedTask := by
    refine ⟨few_of_length ?_, few_of_length ?_, few_of_length ?_, trivial⟩
    all_goals decide +kernel
  have hfault :
      (InputMachine.run Gens.step World.empty unprintedTask).fault = some .nullAccess := by
    decide +kernel
  obtain ⟨e, he⟩ := (hall unprintedTask hfew).1.last.returns _ hfault
  cases he

end Runs

end Qkmetisc.Gens
