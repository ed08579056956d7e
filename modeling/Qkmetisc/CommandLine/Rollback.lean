import Qkmetisc.CommandLine.Held

/-!
# Undoing a failed addition

`cli_add_opts` adds the options of an array one after another. When one is refused, those before it
are removed again with `cli_remove_opt`, which leaves the array of short names alone. So a failed
call leaves the registry as it was unless one of the options added before the failure has a short
name.

## Main definitions

* `Unchanged`: what a caller can observe of a registry is as it was.
* `Taken`: an element of the array is added.
* `LeavesShortName`: the failure undoes the addition of an option with a short name.

## Main results

* `addNewNode_ring`, `cliRemoveOpt_ring`: what becomes of the rings.
* `rollback_added`: the options added so far are removed from the rings and the tables.
* `unchanged_iff`: a failed call leaves the registry unchanged exactly if it undoes no short name.
-/

namespace Qkmetisc.CommandLine

variable {φ : Type*} {cli cli' : Cli φ} {node : OptNode φ} {a : OptAlloc} {ok : Bool} {ref : ℕ}

section Rings

/-- The ring of the required options, or that of the others. -/
def Cli.ring (cli : Cli φ) (required : Bool) : List ℕ :=
  if required then cli.requiredOpts else cli.optionalOpts

theorem SameRings.ring (h : SameRings cli cli') (required : Bool) :
    cli'.ring required = cli.ring required := by
  rw [Cli.ring, Cli.ring, h.2.1, h.2.2]

theorem SameRings.trans {cli'' : Cli φ} (h : SameRings cli cli') (h' : SameRings cli' cli'') :
    SameRings cli cli'' :=
  ⟨h'.1.trans h.1, h'.2.1.trans h.2.1, h'.2.2.trans h.2.2⟩

theorem setShortName_rings {c : BitVec 8} {entry : Option ℕ}
    (h : setShortName cli c entry = .ok cli') : SameRings cli cli' := by
  unfold setShortName at h
  split at h
  · cases h
    exact ⟨rfl, rfl, rfl⟩
  · cases h

theorem addShortName_rings (h : addShortName cli ref node = .ok (some cli')) :
    SameRings cli cli' := by
  unfold addShortName at h
  split at h
  · cases h
    exact ⟨rfl, rfl, rfl⟩
  · split at h
    · cases h
    · cases h
    · rcases hset : setShortName cli node.shortName (some ref) with e | mid
      · rw [hset] at h
        cases h
      · rw [hset] at h
        cases h
        exact setShortName_rings hset

theorem addLongName_rings (h : addLongName cli ref node a = some cli') : SameRings cli cli' := by
  unfold addLongName at h
  split at h
  · cases h
    exact ⟨rfl, rfl, rfl⟩
  · obtain ⟨ht, -, rfl⟩ := Option.map_eq_some_iff.1 h
    exact ⟨rfl, rfl, rfl⟩

theorem removeId_rings (cli : Cli φ) (id : HashStr) : SameRings cli (removeId cli id) := by
  unfold removeId
  split <;> exact ⟨rfl, rfl, rfl⟩

theorem removeLongName_rings (cli : Cli φ) (longName : Option HashStr) :
    SameRings cli (removeLongName cli longName) := by
  unfold removeLongName
  split
  · exact ⟨rfl, rfl, rfl⟩
  · split <;> exact ⟨rfl, rfl, rfl⟩

/-- A failure that empties the place of the short name leaves the rings alone. -/
theorem rings_of_failed {c : BitVec 8} {entry : Option ℕ} {mid : Cli φ}
    (h : (setShortName mid c entry).map (·, false) = .ok (cli', ok)) :
    ok = false ∧ SameRings mid cli' := by
  rcases hset : setShortName mid c entry with e | mid'
  · rw [hset] at h
    cases h
  · rw [hset] at h
    cases h
    exact ⟨rfl, setShortName_rings hset⟩

theorem addEntries_ring (h : addEntries cli ref node a = .ok (cli', ok)) (required : Bool) :
    cli'.ring required =
      cli.ring required ++ if ok = true ∧ node.required = required then [ref] else [] := by
  unfold addEntries at h
  split at h
  · obtain ⟨rfl, hrings⟩ := rings_of_failed h
    simp [hrings.ring]
  · next ht hinsert =>
    dsimp only at h
    split at h
    · obtain ⟨rfl, hrings⟩ := rings_of_failed h
      have hrings := (removeId_rings { cli with optsByIdHt := ht } node.id).trans hrings
      rw [hrings.ring]
      simp [Cli.ring]
    · next mid hlong =>
      have hrings := addLongName_rings hlong
      split at h
      · next hrequired =>
        cases h
        rcases required with _ | _
        · simpa [Cli.ring, hrequired] using hrings.2.2
        · simpa [Cli.ring, hrequired] using hrings.2.1
      · next hrequired =>
        cases h
        rcases required with _ | _
        · simpa [Cli.ring, hrequired] using hrings.2.2
        · simpa [Cli.ring, hrequired] using hrings.2.1

/-- The rings after a call that adds a node. -/
theorem addNewNode_ring (h : addNewNode cli node a = .ok (cli', ok)) (required : Bool) :
    cli'.ring required = cli.ring required ++
      if ok = true ∧ node.required = required then [cli.heap.length] else [] := by
  unfold addNewNode at h
  dsimp only at h
  rcases hadd : cliAddOptNode { cli with heap := cli.heap ++ [some node] } cli.heap.length node a
    with e | ⟨mid, added⟩
  · rw [hadd] at h
    cases h
  have hring : mid.ring required = cli.ring required ++
      if added = true ∧ node.required = required then [cli.heap.length] else [] := by
    unfold cliAddOptNode at hadd
    split at hadd
    · cases hadd
    · cases hadd
      simp [Cli.ring]
    · next mid' hname =>
      rw [addEntries_ring hadd, (addShortName_rings hname).ring]
      rfl
  rw [hadd] at h
  rcases added with _ | _
  · cases h
    exact hring
  · cases h
    exact hring

/-- The rings after a node was removed. -/
theorem cliRemoveOpt_ring (h : Registry cli) {id : Str} (hlive : Live cli ref node)
    (hid : node.id.str = id) (hcall : cliRemoveOpt cli id = .ok (cli', true)) (required : Bool) :
    cli'.ring required = if node.required = required then (cli.ring required).erase ref
      else cli.ring required := by
  have hget : cli.optsByIdHt.get (.fromStr id) (HashStr.fromStr id).key = some ref := by
    rw [h.byId]
    exact ⟨node, hlive, HashStr.ext_str hid⟩
  have hnode : cli.heap[ref]? = some (some node) := hlive
  unfold cliRemoveOpt at hcall
  simp only [hget, hnode] at hcall
  split at hcall
  · cases hcall
  · injection hcall with hcall
    injection hcall with hcall
    have hrings := (removeId_rings (removeFromRing cli ref node) node.id).trans
      (removeLongName_rings _ node.longName)
    rw [← hcall]
    show (removeLongName _ _).ring required = _
    rw [hrings.ring, removeFromRing]
    rcases hrequired : node.required with _ | _
    · rcases required with _ | _ <;> simp [Cli.ring]
    · rcases required with _ | _ <;> simp [Cli.ring]

end Rings

section Added

variable {cli₀ : Cli φ} {es : List (ℕ × OptNode φ)}

/-- The registry `cli` is `cli₀` with the nodes `es` added behind the others. -/
structure Added (cli₀ cli : Cli φ) (es : List (ℕ × OptNode φ)) : Prop where
  registry : Registry cli
  heap : cli₀.heap.length ≤ cli.heap.length
  live : ∀ ref node, Live cli ref node ↔ Live cli₀ ref node ∨ (ref, node) ∈ es
  fresh : ∀ e ∈ es, cli₀.heap.length ≤ e.1
  nodup : (es.map Prod.fst).Nodup
  ring : ∀ required, cli.ring required =
    cli₀.ring required ++ (es.filter fun e => e.2.required = required).map Prod.fst

theorem added_nil (h : Registry cli) : Added cli cli [] where
  registry := h
  heap := Nat.le_refl _
  live := by simp
  fresh := by simp
  nodup := List.nodup_nil
  ring := by simp

theorem Registry.ring_lt (h : Registry cli) {required : Bool} (href : ref ∈ cli.ring required) :
    ref < cli.heap.length := by
  rcases required with _ | _
  · obtain ⟨node, hlive, -⟩ := (h.optional ref).1 href
    exact hlive.lt
  · obtain ⟨node, hlive, -⟩ := (h.required ref).1 href
    exact hlive.lt

/-- The nodes and the rings after a failed addition. -/
theorem Added.failed (h : Added cli₀ cli es) (hregistry : Registry cli')
    (hheap : cli'.heap = cli.heap ++ [none])
    (hring : ∀ required, cli'.ring required = cli.ring required) : Added cli₀ cli' es where
  registry := hregistry
  heap := by
    rw [hheap, List.length_append]
    exact Nat.le_add_right_of_le h.heap
  live := fun ref node => (live_append_none hheap).trans (h.live ref node)
  fresh := h.fresh
  nodup := h.nodup
  ring := fun required => (hring required).trans (h.ring required)

/-- One more node is added behind the others. -/
theorem Added.concat (h : Added cli₀ cli es) (hregistry : Registry cli')
    (hheap : cli'.heap = cli.heap ++ [some node])
    (hring : ∀ required, cli'.ring required =
      cli.ring required ++ if node.required = required then [cli.heap.length] else []) :
    Added cli₀ cli' (es ++ [(cli.heap.length, node)]) where
  registry := hregistry
  heap := by
    rw [hheap, List.length_append]
    exact Nat.le_add_right_of_le h.heap
  live := by
    intro ref n
    rw [live_append hheap, h.live, List.mem_append, List.mem_singleton, Prod.mk.injEq, or_assoc]
  fresh := by
    intro e he
    rcases List.mem_append.1 he with he | he
    · exact h.fresh e he
    · obtain rfl := List.mem_singleton.1 he
      exact h.heap
  nodup := by
    rw [List.map_append, List.map_singleton, List.nodup_append]
    refine ⟨h.nodup, List.nodup_singleton _, ?_⟩
    intro ref href ref' href' heq
    obtain ⟨e, he, rfl⟩ := List.mem_map.1 href
    obtain rfl := List.mem_singleton.1 href'
    -- the place of the new node was none of a node before
    have hlt := ((h.live e.1 e.2).2 (.inr he)).lt
    exact absurd heq (Nat.ne_of_lt hlt)
  ring := by
    intro required
    rw [hring, h.ring, List.append_assoc, List.filter_append, List.map_append]
    by_cases hrequired : node.required = required <;> simp [hrequired]

/-- The first of the nodes is removed again. -/
theorem Added.removed {e : ℕ × OptNode φ} (h : Added cli₀ cli (e :: es)) (h₀ : Registry cli₀)
    (hregistry : Registry cli') (hheap : cli'.heap = cli.heap.set e.1 none)
    (hring : ∀ required, cli'.ring required =
      if e.2.required = required then (cli.ring required).erase e.1 else cli.ring required) :
    Added cli₀ cli' es := by
  have hfresh := h.fresh e List.mem_cons_self
  obtain ⟨hnew, hnodup⟩ := List.nodup_cons.1 h.nodup
  refine ⟨hregistry, ?_, ?_, fun e' he' => h.fresh e' (List.mem_cons_of_mem e he'), hnodup, ?_⟩
  · rw [hheap, List.length_set]
    exact h.heap
  · intro ref n
    rw [live_set_none hheap, h.live, List.mem_cons]
    constructor
    · rintro ⟨hne, hold | rfl | hmem⟩
      · exact .inl hold
      · exact absurd rfl hne
      · exact .inr hmem
    · rintro (hold | hmem)
      · exact ⟨Nat.ne_of_lt (Nat.lt_of_lt_of_le hold.lt hfresh), .inl hold⟩
      · refine ⟨?_, .inr (.inr hmem)⟩
        rintro rfl
        exact hnew (List.mem_map.2 ⟨_, hmem, rfl⟩)
  · intro required
    rw [hring, h.ring]
    by_cases hrequired : e.2.required = required
    · -- the place is not in the ring of before, so the first one behind it goes
      have hold : e.1 ∉ cli₀.ring required := fun hmem =>
        Nat.not_le_of_lt (h₀.ring_lt hmem) hfresh
      rw [if_pos hrequired, List.erase_append_right _ hold]
      simp [hrequired]
    · simp [hrequired]

/-- The options `done` of the caller's array are the nodes `es`. -/
def NodesOf (done : List (CliOpt φ)) (es : List (ℕ × OptNode φ)) : Prop :=
  List.Forall₂ (fun opt e => opt.id.isSome = true ∧ e.2.names = opt.names ∧
    e.2.flags &&& cliOptInternal = 0) done es

/-- The options added so far are removed from the rings and the tables. -/
theorem rollback_added (h₀ : Registry cli₀) {done : List (CliOpt φ)} (hdone : NodesOf done es)
    (h : Added cli₀ cli es) : ∃ cli', rollback cli done = .ok cli' ∧ Added cli₀ cli' [] ∧
      cli'.optsByShortNameArr = cli.optsByShortNameArr := by
  induction hdone generalizing cli with
  | nil => exact ⟨cli, rfl, h, rfl⟩
  | @cons opt e done es hopt hdone ih =>
    obtain ⟨hsome, hnames, hinternal⟩ := hopt
    obtain ⟨id, hid⟩ := Option.isSome_iff_exists.1 hsome
    have hlive := (h.live e.1 e.2).2 (.inr List.mem_cons_self)
    have hidStr : e.2.id.str = id := by
      have hnames := congrArg Names.id hnames
      simpa [OptNode.names, CliOpt.names, hid] using hnames
    rcases cliRemoveOpt_spec h.registry id with
      ⟨-, hnone⟩ | ⟨ref, node, mid, hlive', hid', -, hcall, hmid, hheap, harr⟩
    · exact absurd hinternal (hnone _ _ hlive hidStr)
    · obtain ⟨rfl, rfl⟩ := h.registry.id_inj hlive' hlive (hid'.trans hidStr.symm)
      have hremoved := h.removed h₀ hmid hheap
        (cliRemoveOpt_ring h.registry hlive' hid' hcall)
      obtain ⟨cli', hrollback, hadded, harr'⟩ := ih hremoved
      refine ⟨cli', ?_, hadded, harr'.trans harr⟩
      simp only [rollback, hid, hcall, hrollback]

end Added

section Failure

variable {cli₀ : Cli φ} {es : List (ℕ × OptNode φ)} {done : List (CliOpt φ)}

/-- The array of short names has what it had before, but in the places of the nodes `es`. -/
def KeepsOthers (cli₀ cli : Cli φ) (es : List (ℕ × OptNode φ)) : Prop :=
  ∀ c, (∀ e ∈ es, e.2.shortName ≠ cliOptNoShortName → e.2.shortName.toNat ≠ c) →
    cli.optsByShortNameArr[c]? = cli₀.optsByShortNameArr[c]?

/-- An element of the array is added after those in `done`: it passes the checks, there is memory
for it, nobody has its names, and the place of its short name was empty before the call. -/
def Taken (cli₀ : Cli φ) (done : List (CliOpt φ)) (opt : CliOpt φ) (a : OptAlloc) : Prop :=
  Accepted (fun n => InUse cli₀ n ∨ ∃ o ∈ done, o.names = n) opt a ∧
    (opt.shortName ≠ cliOptNoShortName →
      cli₀.optsByShortNameArr[opt.shortName.toNat]? = some none)

/-- Of the elements still to be added after `done`, the first that is not taken comes after one with
a short name. -/
def LeavesShortName (cli₀ : Cli φ) (allocs : ℕ → OptAlloc) (done : List (CliOpt φ)) :
    List (CliOpt φ) → Prop
  | [] => False
  | opt :: opts =>
    (Taken cli₀ done opt (allocs done.length) ∧
      LeavesShortName cli₀ allocs (done ++ [opt]) opts) ∨
    (¬Taken cli₀ done opt (allocs done.length) ∧ ∃ o ∈ done, o.shortName ≠ cliOptNoShortName)

theorem NodesOf.exists_names (h : NodesOf done es) (n : Names) :
    (∃ e ∈ es, e.2.names = n) ↔ ∃ o ∈ done, o.names = n := by
  induction h with
  | nil => simp
  | @cons opt e done es hopt hdone ih => simp [ih, hopt.2.1]

/-- The names in use after the options `done` were added. -/
theorem Added.inUse (h : Added cli₀ cli es) (hdone : NodesOf done es) :
    InUse cli = fun n => InUse cli₀ n ∨ ∃ o ∈ done, o.names = n := by
  funext n
  apply propext
  rw [← hdone.exists_names]
  constructor
  · rintro ⟨ref, node, hlive, hn⟩
    rcases (h.live ref node).1 hlive with hold | hmem
    · exact .inl ⟨ref, node, hold, hn⟩
    · exact .inr ⟨_, hmem, hn⟩
  · rintro (⟨ref, node, hlive, hn⟩ | ⟨e, he, hn⟩)
    · exact ⟨ref, node, (h.live ref node).2 (.inl hlive), hn⟩
    · exact ⟨e.1, e.2, (h.live e.1 e.2).2 (.inr he), hn⟩

/-- The node of an element is free to be added exactly if the element is taken. -/
theorem Added.free_iff_taken (h : Added cli₀ cli es) (hdone : NodesOf done es)
    (hkeeps : KeepsOthers cli₀ cli es) {opt : CliOpt φ} (hreach : Reaches opt a)
    (hdesc : opt.description.isSome = true ∧ a.description = true)
    (hnames : node.names = opt.names) : Free cli node a ↔ Taken cli₀ done opt a := by
  have hshort : node.shortName = opt.shortName := congrArg Names.shortName hnames
  have hlong : node.longName.isSome = opt.longName.isSome := by
    have hlong : node.longName.map (·.str) = opt.longName := congrArg Names.longName hnames
    rw [← hlong, Option.isSome_map]
  rw [free_iff_clash h.registry, Taken, ← h.inUse hdone, Accepted, Fits, hnames, hlong]
  have hplace (hclash : ∀ n, InUse cli n → ¬n.Clash opt.names)
      (hne : opt.shortName ≠ cliOptNoShortName) :
      cli.optsByShortNameArr[node.shortName.toNat]? =
        cli₀.optsByShortNameArr[opt.shortName.toNat]? := by
    rw [hshort]
    refine hkeeps _ fun e he hname heq => ?_
    have hused : InUse cli e.2.names := ⟨e.1, e.2, (h.live e.1 e.2).2 (.inr he), rfl⟩
    exact hclash _ hused (.inr (.inr ⟨hname, BitVec.eq_of_toNat_eq heq⟩))
  constructor
  · rintro ⟨hclash, hentry, hmemory⟩
    refine ⟨⟨hreach, hdesc.1, hdesc.2, hclash, hmemory⟩, fun hne => ?_⟩
    rw [← hplace hclash hne]
    exact hentry (hshort ▸ hne)
  · rintro ⟨⟨-, -, -, hclash, hmemory⟩, hentry⟩
    refine ⟨hclash, fun hne => ?_, hmemory⟩
    rw [hshort] at hne
    rw [hplace hclash hne]
    exact hentry hne

/-- The array of short names after one more node was added. -/
theorem KeepsOthers.concat (h : KeepsOthers cli₀ cli es) (ref : ℕ)
    (harr : cli'.optsByShortNameArr =
      if node.shortName = cliOptNoShortName then cli.optsByShortNameArr
      else cli.optsByShortNameArr.set node.shortName.toNat (some ref)) :
    KeepsOthers cli₀ cli' (es ++ [(ref, node)]) := by
  intro c hc
  rw [← h c fun e he => hc e (List.mem_append_left _ he), harr]
  split
  · rfl
  · next hne =>
    have hplace := hc (ref, node) (List.mem_append_right _ (List.mem_singleton_self _)) hne
    rw [List.getElem?_set_ne hplace]

/-- What becomes of one element of the array. -/
theorem Added.addUserOpt (h : Added cli₀ cli es) (hdone : NodesOf done es)
    (hkeeps : KeepsOthers cli₀ cli es) {opt : CliOpt φ}
    (hcall : addUserOpt cli opt a = .ok (cli', ok)) :
    (ok = true ∧ Taken cli₀ done opt a ∧ ∃ node, NodesOf (done ++ [opt]) (es ++
      [(cli.heap.length, node)]) ∧ Added cli₀ cli' (es ++ [(cli.heap.length, node)]) ∧
        KeepsOthers cli₀ cli' (es ++ [(cli.heap.length, node)])) ∨
    (ok = false ∧ ¬Taken cli₀ done opt a ∧ Added cli₀ cli' es ∧
      cli'.optsByShortNameArr = cli.optsByShortNameArr) := by
  by_cases hreach : Reaches opt a
  swap
  · rw [addUserOpt_of_not_reaches hreach] at hcall
    cases hcall
    exact .inr ⟨rfl, fun htaken => hreach htaken.1.1, h, rfl⟩
  obtain ⟨⟨id, hid⟩, hshort⟩ := cliOptCheck_spec hreach.2.1
  rw [addUserOpt_of_reaches cli hreach] at hcall
  rcases cliOptNodeFromOpt_spec hreach with
    ⟨-, hcopy⟩ | ⟨-, hfail, hcopy⟩ | ⟨hdesc, hok, node, hcopy, hnames, hflags, hname, -⟩
  · rw [hcopy] at hcall
    cases hcall
  · rw [hcopy] at hcall
    cases hcall
    refine .inr ⟨rfl, fun htaken => ?_, h, rfl⟩
    rw [htaken.1.2.2.1] at hfail
    cases hfail
  · rw [hcopy] at hcall
    have hfree := h.free_iff_taken hdone hkeeps hreach ⟨hdesc, hok⟩ hnames
    have hinternal : node.flags &&& cliOptInternal = 0 := by
      rw [hflags]
      exact of_decide_eq_true hreach.1
    rw [← hname] at hshort
    have hring := addNewNode_ring hcall
    rcases addNewNode_spec h.registry hshort a with
      ⟨htaken, mid, hmid, hregistry, hheap, harr⟩ | ⟨hnot, mid, hmid, hregistry, hheap, harr⟩
    · cases hmid.symm.trans hcall
      refine .inl ⟨rfl, hfree.1 htaken, node, ?_, ?_, ?_⟩
      · exact List.rel_append hdone (.cons ⟨by simp [hid], hnames, hinternal⟩ .nil)
      · exact h.concat hregistry hheap fun required => by simpa using hring required
      · exact hkeeps.concat _ harr
    · cases hmid.symm.trans hcall
      refine .inr ⟨rfl, fun htaken => hnot (hfree.2 htaken), ?_, harr⟩
      exact h.failed hregistry hheap fun required => by simpa using hring required

/-- The array of short names is as it was exactly if none of the nodes added has a short name. -/
theorem Added.shortNames_iff (h : Added cli₀ cli es) (h₀ : Registry cli₀)
    (hdone : NodesOf done es) (hkeeps : KeepsOthers cli₀ cli es) :
    cli.optsByShortNameArr = cli₀.optsByShortNameArr ↔
      ¬∃ o ∈ done, o.shortName ≠ cliOptNoShortName := by
  have hnames : (∃ e ∈ es, e.2.shortName ≠ cliOptNoShortName) ↔
      ∃ o ∈ done, o.shortName ≠ cliOptNoShortName := by
    have hexists (P : Names → Prop) : (∃ e ∈ es, P e.2.names) ↔ ∃ o ∈ done, P o.names := by
      constructor
      · rintro ⟨e, he, hp⟩
        obtain ⟨o, ho, heq⟩ := (hdone.exists_names _).1 ⟨e, he, rfl⟩
        exact ⟨o, ho, heq ▸ hp⟩
      · rintro ⟨o, ho, hp⟩
        obtain ⟨e, he, heq⟩ := (hdone.exists_names _).2 ⟨o, ho, rfl⟩
        exact ⟨e, he, heq ▸ hp⟩
    exact hexists fun n => n.shortName ≠ cliOptNoShortName
  rw [← hnames]
  constructor
  · rintro hsame ⟨e, he, hne⟩
    -- the entry of the node refers to a place that there was not before
    have hentry := h.registry.byShortName e.1 e.2 ((h.live _ _).2 (.inr he)) hne
    rw [hsame] at hentry
    exact Nat.not_lt_of_le (h.fresh e he) (h₀.shortName _ _ hentry).2.1
  · intro hnone
    refine List.ext_getElem? fun c => hkeeps c fun e he hne => ?_
    exact absurd ⟨e, he, hne⟩ hnone

/-- A call of `cli_add_opts` that fails, some of its options already added. -/
theorem cliAddOptsLoop_failed (h₀ : Registry cli₀) (allocs : ℕ → OptAlloc) (opts : List (CliOpt φ))
    (h : Added cli₀ cli es) (hdone : NodesOf done es) (hkeeps : KeepsOthers cli₀ cli es)
    (hcall : cliAddOptsLoop allocs cli done opts = .ok (cli', false)) :
    Added cli₀ cli' [] ∧ (cli'.optsByShortNameArr = cli₀.optsByShortNameArr ↔
      ¬LeavesShortName cli₀ allocs done opts) := by
  induction opts generalizing cli done es with
  | nil => cases hcall
  | cons opt opts ih =>
    rw [cliAddOptsLoop] at hcall
    rw [LeavesShortName]
    rcases hadd : addUserOpt cli opt (allocs done.length) with e | ⟨mid, ok⟩
    · rw [hadd] at hcall
      cases hcall
    · rcases h.addUserOpt hdone hkeeps hadd with
        ⟨rfl, htaken, node, hdone', hadded, hkeeps'⟩ | ⟨rfl, hnot, hadded, harr⟩
      · rw [hadd] at hcall
        simpa [htaken] using ih hadded hdone' hkeeps' hcall
      · rw [hadd] at hcall
        obtain ⟨back, hrollback, hback, harr'⟩ := rollback_added h₀ hdone hadded
        simp only [hrollback] at hcall
        cases hcall
        refine ⟨hback, ?_⟩
        rw [harr'.trans harr, h.shortNames_iff h₀ hdone hkeeps]
        simp [hnot]

end Failure

section Unchanged

/-- What a caller can observe of a registry is as it was: the rings with their nodes, every lookup,
and whether an option can be added. -/
structure Unchanged (cli cli' : Cli φ) : Prop where
  rings : cli'.requiredOpts = cli.requiredOpts ∧ cli'.optionalOpts = cli.optionalOpts
  nodes : ∀ ref node, Live cli' ref node ↔ Live cli ref node
  byId : ∀ id : HashStr, cli'.optsByIdHt.get id id.key = cli.optsByIdHt.get id id.key
  byLongName : ∀ name : HashStr,
    cli'.optsByLongNameHt.get name name.key = cli.optsByLongNameHt.get name name.key
  byShortName : cli'.optsByShortNameArr = cli.optsByShortNameArr
  readd : ∀ opt allocs,
    (cliAddOpts cli' [opt] allocs).map Prod.snd = (cliAddOpts cli [opt] allocs).map Prod.snd

theorem cliAddOpts_single (cli : Cli φ) (opt : CliOpt φ) (allocs : ℕ → OptAlloc) :
    (cliAddOpts cli [opt] allocs).map Prod.snd = (addUserOpt cli opt (allocs 0)).map Prod.snd := by
  rw [cliAddOpts, cliAddOptsLoop, List.length_nil]
  rcases addUserOpt cli opt (allocs 0) with e | ⟨mid, _ | _⟩ <;> rfl

/-- Where the same nodes are free, the same elements are added. -/
theorem addUserOpt_congr (h : Registry cli) (h' : Registry cli')
    (hfree : ∀ node a, Free cli' node a ↔ Free cli node a) (opt : CliOpt φ) (a : OptAlloc) :
    (addUserOpt cli' opt a).map Prod.snd = (addUserOpt cli opt a).map Prod.snd := by
  by_cases hreach : Reaches opt a
  · rw [addUserOpt_of_reaches cli hreach, addUserOpt_of_reaches cli' hreach]
    have hshort := (cliOptCheck_spec hreach.2.1).2
    rcases cliOptNodeFromOpt_spec hreach with
      ⟨-, hcopy⟩ | ⟨-, -, hcopy⟩ | ⟨-, -, node, hcopy, -, -, hname, -⟩
    · rw [hcopy]
    · rw [hcopy]
      rfl
    · rw [hcopy]
      rw [← hname] at hshort
      dsimp only
      rcases addNewNode_spec h hshort a with ⟨htaken, mid, hmid, -⟩ | ⟨hnot, mid, hmid, -⟩
      · rcases addNewNode_spec h' hshort a with ⟨-, mid', hmid', -⟩ | ⟨hnot, -⟩
        · rw [hmid, hmid']
          rfl
        · exact absurd ((hfree node a).2 htaken) hnot
      · rcases addNewNode_spec h' hshort a with ⟨htaken, -⟩ | ⟨-, mid', hmid', -⟩
        · exact absurd ((hfree node a).1 htaken) hnot
        · rw [hmid, hmid']
          rfl
  · rw [addUserOpt_of_not_reaches hreach, addUserOpt_of_not_reaches hreach]
    rfl

/-- Once the additions are undone, only the array of short names can be another one. -/
theorem Added.unchanged_iff_shortNames (h : Added cli cli' []) (hregistry : Registry cli) :
    Unchanged cli cli' ↔ cli'.optsByShortNameArr = cli.optsByShortNameArr := by
  refine ⟨fun hsame => hsame.byShortName, fun harr => ?_⟩
  have hlive : ∀ ref node, Live cli' ref node ↔ Live cli ref node := by simpa using h.live
  have hbyId (id : HashStr) : cli'.optsByIdHt.get id id.key = cli.optsByIdHt.get id id.key := by
    refine Option.ext fun ref => ?_
    rw [h.registry.byId, hregistry.byId]
    simp only [hlive]
  have hbyLongName (name : HashStr) :
      cli'.optsByLongNameHt.get name name.key = cli.optsByLongNameHt.get name name.key := by
    refine Option.ext fun ref => ?_
    rw [h.registry.byLongName, hregistry.byLongName]
    simp only [hlive]
  refine ⟨⟨?_, ?_⟩, hlive, hbyId, hbyLongName, harr, fun opt allocs => ?_⟩
  · simpa [Cli.ring] using h.ring true
  · simpa [Cli.ring] using h.ring false
  · rw [cliAddOpts_single, cliAddOpts_single]
    refine addUserOpt_congr hregistry h.registry (fun node a => ?_) opt _
    simp only [free_iff, TablesFree, harr, hbyId, hbyLongName]

/-- For every registry that can be made and every array of options: a call of `cli_add_opts` that
fails leaves the registry as it was exactly if no option with a short name was added before the
failure. -/
theorem unchanged_iff (h : Made cli) {opts : List (CliOpt φ)} {allocs : ℕ → OptAlloc}
    (hcall : cliAddOpts cli opts allocs = .ok (cli', false)) :
    Unchanged cli cli' ↔ ¬LeavesShortName cli allocs [] opts := by
  have hadded := added_nil h.registry
  obtain ⟨hundone, harr⟩ := cliAddOptsLoop_failed h.registry allocs opts hadded .nil
    (fun _ _ => rfl) hcall
  rw [hundone.unchanged_iff_shortNames h.registry, harr]

/-- The second of two options with one id is refused, and the first has no short name. -/
theorem unchanged_long_names : ∃ cli',
    cliAddOpts (.empty cliStrict) [longNameOpt, longNameOpt] (fun _ => .ok) = .ok (cli', false) ∧
      Unchanged (.empty cliStrict) cli' := by
  have hfailed : (cliAddOpts (.empty cliStrict) [longNameOpt, longNameOpt] fun _ => .ok).map
      Prod.snd = .ok false := by
    decide +kernel
  rcases hcall : cliAddOpts (.empty cliStrict) [longNameOpt, longNameOpt] (fun _ => .ok) with
    e | ⟨cli', ok⟩
  · rw [hcall] at hfailed
    cases hfailed
  · rw [hcall] at hfailed
    obtain rfl : ok = false := by simpa [Except.map] using hfailed
    refine ⟨cli', rfl, (unchanged_iff (made_empty (.inr rfl)) hcall).2 ?_⟩
    simp [LeavesShortName, longNameOpt]

/-- The second of two options with one id is refused, and the first keeps its place in the array of
short names. -/
theorem not_unchanged_short_name : ¬∀ cli : Cli Unit, Made cli →
    ∀ (opts : List (CliOpt Unit)) (allocs : ℕ → OptAlloc) (cli' : Cli Unit),
      cliAddOpts cli opts allocs = .ok (cli', false) → Unchanged cli cli' := by
  intro h
  have hfailed : (cliAddOpts (.empty cliStrict) [mainOpt "port" "port" 'p' "Port listen to",
      mainOpt "port" "listen" 'l' "Port listen to"] fun _ => .ok).map
        (fun r => (r.2, r.1.optsByShortNameArr['p'.toNat]?)) = .ok (false, some (some 0)) := by
    decide +kernel
  rcases hcall : cliAddOpts (.empty cliStrict) [mainOpt "port" "port" 'p' "Port listen to",
      mainOpt "port" "listen" 'l' "Port listen to"] (fun _ => .ok) with e | ⟨cli', ok⟩
  · rw [hcall] at hfailed
    cases hfailed
  · rw [hcall, Except.map, Except.ok.injEq, Prod.mk.injEq] at hfailed
    obtain ⟨rfl, hentry⟩ := hfailed
    have hsame := (h _ (made_empty (.inr rfl)) _ _ cli' hcall).byShortName
    rw [hsame] at hentry
    have hempty : (Cli.empty cliStrict : Cli Unit).optsByShortNameArr['p'.toNat]? = some none := by
      decide
    rw [hempty] at hentry
    cases hentry

end Unchanged

end Qkmetisc.CommandLine
