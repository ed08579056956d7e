import Qkmetisc.CommandLine.Coherence

/-!
# Stale short names

`cli_remove_opt` leaves the short name of the option it removes in the array of short names. This
module says which runs of public calls keep the registry coherent: those that remove no option
with a short name, neither directly nor while a failed `cli_add_opts` undoes its first part.

## Main definitions

* `Names`, `Accepted`, `Rejected`: what becomes of one element of an array of options, given the
  names in use.
* `UndoesShortName`: the array is rejected after an element with a short name.
* `KeepsShortNames`: the condition on a public call.

## Main results

* `stale_removed`, `rollback_spec`, `cliAddOptsLoop_spec`: what one removal, an undoing and a call
  of `cli_add_opts` do to the array of short names.
* `RunRegistry.exec`: everything else stays in order in every run.
* `coherent_throughout_iff`: a run keeps the registry coherent exactly if its calls all meet
  `KeepsShortNames`.
-/

namespace Qkmetisc.CommandLine

variable {φ : Type*}

/-- The names of an option. -/
structure Names where
  id : Str
  longName : Option Str
  shortName : BitVec 8

/-- Two options may not have these names at once. -/
def Names.Clash (m n : Names) : Prop :=
  m.id = n.id ∨ (∃ name, m.longName = some name ∧ n.longName = some name) ∨
    (m.shortName ≠ cliOptNoShortName ∧ m.shortName = n.shortName)

/-- The names of a node. -/
def OptNode.names (node : OptNode φ) : Names :=
  ⟨node.id.str, node.longName.map (·.str), node.shortName⟩

/-- The names of an option record that has an id. -/
def CliOpt.names (opt : CliOpt φ) : Names := ⟨opt.id.getD [], opt.longName, opt.shortName⟩

/-- The names are those of an option in the registry. -/
def InUse (cli : Cli φ) (n : Names) : Prop := ∃ ref node, Live cli ref node ∧ node.names = n

/-- The record passes the checks, and its id and its long name can be copied. -/
def Reaches (opt : CliOpt φ) (a : OptAlloc) : Prop :=
  cliOptUserCheck opt = true ∧ cliOptCheck opt = true ∧ a.node = true ∧ a.id = true ∧
    (opt.longName.isSome = true → a.longName = true)

/-- The description can be copied, and the names are free and can be entered into the tables. -/
def Fits (used : Names → Prop) (opt : CliOpt φ) (a : OptAlloc) : Prop :=
  a.description = true ∧ (∀ n, used n → ¬n.Clash opt.names) ∧ a.idEntry = true ∧
    (opt.longName.isSome = true → a.longNameEntry = true)

/-- The record can be added where the names `used` are in use. -/
def Accepted (used : Names → Prop) (opt : CliOpt φ) (a : OptAlloc) : Prop :=
  Reaches opt a ∧ opt.description.isSome = true ∧ Fits used opt a

/-- The record cannot be added. What is neither accepted nor rejected has a `NULL` description,
which `cli_strdup` is called with. -/
def Rejected (used : Names → Prop) (opt : CliOpt φ) (a : OptAlloc) : Prop :=
  ¬Reaches opt a ∨ (opt.description.isSome = true ∧ ¬Fits used opt a)

/-- Of the options still to be added after `done`, one is rejected after all before it were
accepted, and one of those before it has a short name. -/
def UndoesShortName (used : Names → Prop) (allocs : ℕ → OptAlloc) (done : List (CliOpt φ)) :
    List (CliOpt φ) → Prop
  | [] => False
  | opt :: opts =>
    let used' := fun n => used n ∨ ∃ o ∈ done, o.names = n
    (Accepted used' opt (allocs done.length) ∧ UndoesShortName used allocs (done ++ [opt]) opts) ∨
    (Rejected used' opt (allocs done.length) ∧ ∃ o ∈ done, o.shortName ≠ cliOptNoShortName)

/-- The call removes no option with a short name. -/
def KeepsShortNames (s : Option (Cli φ)) (op : Op φ) : Prop :=
  ∀ cli, s = some cli →
    match op with
    | .addOpts opts allocs => ¬UndoesShortName (InUse cli) allocs [] opts
    | .removeOpt id => ∀ ref node, Live cli ref node → node.id.str = id →
        node.flags &&& cliOptInternal = 0 → node.shortName = cliOptNoShortName

section Stale

variable {cli cli' : Cli φ} {ref : ℕ} {node : OptNode φ}

/-- Removing a node leaves its short name behind. -/
theorem stale_removed (h : Registry cli) (hlive : Live cli ref node)
    (hheap : cli'.heap = cli.heap.set ref none)
    (harr : cli'.optsByShortNameArr = cli.optsByShortNameArr) :
    Stale cli' ↔ Stale cli ∨ node.shortName ≠ cliOptNoShortName := by
  constructor
  · rintro ⟨c, r, hc, hdead⟩
    rw [harr] at hc
    by_cases hr : r = ref
    · subst hr
      -- the entry of the node that is destroyed now, so it had this short name
      obtain ⟨hne, -, hname⟩ := h.shortName c r hc
      right
      intro hnone
      exact hne (by rw [← hname node hlive, hnone]; rfl)
    · exact .inl ⟨c, r, hc, fun n hn => hdead n ((live_set_none hheap).2 ⟨hr, hn⟩)⟩
  · -- what was stale stays stale, and a short name of the node becomes so
    rintro (⟨c, r, hc, hdead⟩ | hname)
    · exact ⟨c, r, harr ▸ hc, fun n hn => hdead n ((live_set_none hheap).1 hn).2⟩
    · refine ⟨node.shortName.toNat, ref, harr ▸ h.byShortName ref node hlive hname, ?_⟩
      exact fun n hn => ((live_set_none hheap).1 hn).1 rfl

/-- A failed addition makes no short name stale. -/
theorem stale_failed (hheap : cli'.heap = cli.heap ++ [none])
    (harr : cli'.optsByShortNameArr = cli.optsByShortNameArr) : Stale cli' ↔ Stale cli := by
  unfold Stale
  simp only [harr, live_append_none hheap]

/-- A successful addition makes no short name stale. -/
theorem stale_added (hstale : ¬Stale cli)
    (hheap : cli'.heap = cli.heap ++ [some node])
    (harr : cli'.optsByShortNameArr =
      if node.shortName = cliOptNoShortName then cli.optsByShortNameArr
      else cli.optsByShortNameArr.set node.shortName.toNat (some cli.heap.length)) :
    ¬Stale cli' := by
  rintro ⟨c, r, hc, hdead⟩
  have hold (hc : cli.optsByShortNameArr[c]? = some (some r)) : False :=
    hstale ⟨c, r, hc, fun n hn => hdead n ((live_append hheap).2 (.inl hn))⟩
  rw [harr] at hc
  split at hc
  · exact hold hc
  · rw [List.getElem?_set] at hc
    split at hc
    · split at hc
      · obtain rfl : cli.heap.length = r := by simpa using hc
        exact hdead node ((live_append hheap).2 (.inr ⟨rfl, rfl⟩))
      · cases hc
    · exact hold hc

end Stale

section Element

variable {cli : Cli φ} {node : OptNode φ} {a : OptAlloc}

/-- The names that are free are those that no option has, and of the short names those whose place
is empty. -/
theorem free_iff_clash (h : Registry cli) : Free cli node a ↔
    (∀ n, InUse cli n → ¬n.Clash node.names) ∧
      (node.shortName ≠ cliOptNoShortName →
        cli.optsByShortNameArr[node.shortName.toNat]? = some none) ∧
      a.idEntry = true ∧ (node.longName.isSome = true → a.longNameEntry = true) := by
  constructor
  · intro hfree
    refine ⟨?_, hfree.shortName, hfree.idEntry, ?_⟩
    · -- each kind of clash would be found in its index
      rintro _ ⟨ref, n, hlive, rfl⟩ (hid | ⟨name, hname, hname'⟩ | ⟨hne, hname⟩)
      · have hget := (h.byId _ _).2 ⟨n, hlive, HashStr.ext_str hid⟩
        rw [hfree.id] at hget
        cases hget
      · obtain ⟨ln, hln, rfl⟩ := Option.map_eq_some_iff.1 hname
        obtain ⟨ln', hln', hstr⟩ := Option.map_eq_some_iff.1 hname'
        obtain rfl := HashStr.ext_str hstr
        have hget := (h.byLongName _ _).2 ⟨n, hlive, hln⟩
        rw [(hfree.longName _ hln').1] at hget
        cases hget
      · have hentry := h.byShortName ref n hlive hne
        have hname : n.shortName = node.shortName := hname
        rw [hname, hfree.shortName (hname ▸ hne)] at hentry
        simp at hentry
    · intro hsome
      obtain ⟨name, hname⟩ := Option.isSome_iff_exists.1 hsome
      exact (hfree.longName name hname).2
  · rintro ⟨hclash, hshort, hentry, hlongEntry⟩
    refine ⟨hshort, ?_, hentry, ?_⟩
    · cases hget : cli.optsByIdHt.get node.id node.id.key with
      | none => rfl
      | some ref =>
        obtain ⟨n, hlive, hid⟩ := (h.byId _ _).1 hget
        exact absurd (.inl (congrArg HashStr.str hid)) (hclash _ ⟨ref, n, hlive, rfl⟩)
    · intro name hname
      refine ⟨?_, hlongEntry (by rw [hname]; rfl)⟩
      cases hget : cli.optsByLongNameHt.get name name.key with
      | none => rfl
      | some ref =>
        obtain ⟨n, hlive, hname'⟩ := (h.byLongName _ _).1 hget
        refine absurd (.inr (.inl ⟨name.str, ?_, ?_⟩)) (hclash _ ⟨ref, n, hlive, rfl⟩)
        · rw [OptNode.names, hname']
          rfl
        · rw [OptNode.names, hname]
          rfl

/-- In a coherent registry the names that are free are those that no option has. -/
theorem free_iff_names (h : Registry cli) (hstale : ¬Stale cli)
    (hshort : node.shortName.toNat < UCHAR_MAX) : Free cli node a ↔
      (∀ n, InUse cli n → ¬n.Clash node.names) ∧ a.idEntry = true ∧
        (node.longName.isSome = true → a.longNameEntry = true) := by
  rw [free_iff_clash h]
  refine and_congr_right fun hclash => and_iff_right fun hne => ?_
  have hlt : node.shortName.toNat < cli.optsByShortNameArr.length := by rwa [h.shortNames]
  rw [List.getElem?_eq_getElem hlt]
  cases hc : cli.optsByShortNameArr[node.shortName.toNat] with
  | none => rfl
  | some ref =>
    -- the entry would belong to an option with the same short name
    have hget : cli.optsByShortNameArr[node.shortName.toNat]? = some (some ref) := by
      rw [List.getElem?_eq_getElem hlt, hc]
    obtain ⟨n, hlive⟩ : ∃ n, Live cli ref n := by
      by_contra hdead
      exact hstale ⟨_, ref, hget, fun n hn => hdead ⟨n, hn⟩⟩
    have hname : n.shortName = node.shortName :=
      BitVec.eq_of_toNat_eq ((h.shortName _ _ hget).2.2 n hlive)
    have hne' : n.shortName ≠ cliOptNoShortName := by rwa [hname]
    exact absurd (.inr (.inr ⟨hne', hname⟩)) (hclash _ ⟨ref, n, hlive, rfl⟩)

/-- A record that passes the check has an id, and the array has a place for its short name. -/
theorem cliOptCheck_spec {opt : CliOpt φ} (h : cliOptCheck opt = true) :
    (∃ id, opt.id = some id) ∧ opt.shortName.toNat < UCHAR_MAX := by
  unfold cliOptCheck at h
  split at h
  · cases h
  · split at h
    · cases h
    · next hid =>
      split at h
      · cases h
      · next hshort =>
        refine ⟨Option.ne_none_iff_exists'.1 (by simpa using hid), ?_⟩
        by_cases hnone : opt.shortName = cliOptNoShortName
        · rw [hnone]
          decide
        · have hgraph : isgraph opt.shortName = true := by simpa [hnone] using hshort
          have := of_decide_eq_true hgraph
          unfold UCHAR_MAX
          omega

/-- A record that gets as far as its description becomes a node with the same names and flags. -/
theorem cliOptNodeFromOpt_spec {opt : CliOpt φ} (h : Reaches opt a) :
    (opt.description = none ∧ cliOptNodeFromOpt opt a = .error .nullAccess) ∨
    (opt.description.isSome = true ∧ a.description = false ∧ cliOptNodeFromOpt opt a = .ok none) ∨
    (opt.description.isSome = true ∧ a.description = true ∧
      ∃ node, cliOptNodeFromOpt opt a = .ok (some node) ∧ node.names = opt.names ∧
        node.flags = opt.flags ∧ node.shortName = opt.shortName ∧
        node.longName.isSome = opt.longName.isSome) := by
  obtain ⟨-, hcheck, hnode, hid, hlong⟩ := h
  obtain ⟨⟨id, hsome⟩, -⟩ := cliOptCheck_spec hcheck
  have hlong' : ¬(opt.longName.isSome = true ∧ a.longName = false) := by
    rintro ⟨hname, hfail⟩
    rw [hlong hname] at hfail
    cases hfail
  unfold cliOptNodeFromOpt
  simp only [hnode, hsome, hid, Bool.true_eq_false, if_false, if_neg hlong']
  cases hdesc : opt.description with
  | none => exact .inl ⟨rfl, rfl⟩
  | some description =>
    cases hcopy : a.description with
    | false => exact .inr (.inl ⟨rfl, rfl, rfl⟩)
    | true =>
      refine .inr (.inr ⟨rfl, rfl, _, rfl, ?_, rfl, rfl, by simp⟩)
      simp [OptNode.names, CliOpt.names, hsome, HashStr.fromStr, Function.comp_def]

/-- A record that does not get as far as its description is refused. -/
theorem addUserOpt_of_not_reaches {opt : CliOpt φ} (h : ¬Reaches opt a) :
    addUserOpt cli opt a = .ok (cli, false) := by
  unfold addUserOpt cliAddOpt
  split
  · rfl
  · next huser =>
    split
    · rfl
    · next hcheck =>
      obtain ⟨⟨id, hsome⟩, -⟩ := cliOptCheck_spec (by simpa using hcheck)
      have hnone : cliOptNodeFromOpt opt a = .ok none := by
        unfold cliOptNodeFromOpt
        simp only [hsome]
        split
        · rfl
        · next hnode =>
          split
          · rfl
          · next hid =>
            rw [if_pos]
            by_contra hlong
            refine h ⟨by simpa using huser, by simpa using hcheck, by simpa using hnode,
              by simpa using hid, ?_⟩
            intro hname
            by_contra hfail
            exact hlong ⟨hname, by simpa using hfail⟩
      rw [hnone]

/-- A record that gets as far as its description is copied and added. -/
theorem addUserOpt_of_reaches (cli : Cli φ) {opt : CliOpt φ} (h : Reaches opt a) :
    addUserOpt cli opt a = match cliOptNodeFromOpt opt a with
      | .error e => .error e
      | .ok none => .ok (cli, false)
      | .ok (some node) => addNewNode cli node a := by
  have huser : addUserOpt cli opt a = cliAddOpt cli opt a := if_neg (by simp [h.1])
  exact huser.trans (if_neg (by simp [h.2.1]))

/-- What becomes of one element of an array of options. -/
theorem addUserOpt_spec (h : Registry cli) (hstale : ¬Stale cli) (opt : CliOpt φ) (a : OptAlloc) :
    (Accepted (InUse cli) opt a ∧ ∃ cli' node, addUserOpt cli opt a = .ok (cli', true) ∧
      Registry cli' ∧ ¬Stale cli' ∧ cli'.heap = cli.heap ++ [some node] ∧
      node.names = opt.names ∧ node.flags = opt.flags) ∨
    (Rejected (InUse cli) opt a ∧ ∃ cli', addUserOpt cli opt a = .ok (cli', false) ∧
      Registry cli' ∧ ¬Stale cli' ∧ ∀ ref n, Live cli' ref n ↔ Live cli ref n) ∨
    (¬Accepted (InUse cli) opt a ∧ ¬Rejected (InUse cli) opt a ∧
      ∃ e, addUserOpt cli opt a = .error e) := by
  -- a record that fails the checks or cannot be copied changes nothing
  by_cases hreach : Reaches opt a
  swap
  · exact .inr (.inl ⟨.inl hreach, cli, addUserOpt_of_not_reaches hreach, h, hstale,
      fun _ _ => Iff.rfl⟩)
  have hshort := (cliOptCheck_spec hreach.2.1).2
  have hadd := addUserOpt_of_reaches cli hreach
  rcases cliOptNodeFromOpt_spec hreach with
    ⟨hdesc, hcopy⟩ | ⟨hdesc, hfail, hcopy⟩ | ⟨hdesc, hok, node, hcopy, hnames, hflags, hname, hlong⟩
  · refine .inr (.inr ⟨?_, ?_, .nullAccess, by rw [hadd, hcopy]⟩)
    · rintro ⟨-, hsome, -⟩
      simp [hdesc] at hsome
    · rintro (hnot | ⟨hsome, -⟩)
      · exact hnot hreach
      · simp [hdesc] at hsome
  · refine .inr (.inl ⟨.inr ⟨hdesc, ?_⟩, cli, by rw [hadd, hcopy], h, hstale,
      fun _ _ => Iff.rfl⟩)
    rintro ⟨hdesc', -⟩
    simp [hfail] at hdesc'
  · rw [← hname] at hshort
    -- for a copied node, free places are names that nobody has
    have hfits : Free cli node a ↔ Fits (InUse cli) opt a := by
      rw [free_iff_names h hstale hshort, hnames, hlong, Fits, hok]
      simp
    rcases addNewNode_spec h hshort a with
      ⟨hfree, cli', hcall, h', hheap, harr⟩ | ⟨hfree, cli', hcall, h', hheap, harr⟩
    · exact .inl ⟨⟨hreach, hdesc, hfits.1 hfree⟩, cli', node, by rw [hadd, hcopy]; exact hcall, h',
        stale_added hstale hheap harr, hheap, hnames, hflags⟩
    · exact .inr (.inl ⟨.inr ⟨hdesc, fun hf => hfree (hfits.2 hf)⟩, cli',
        by rw [hadd, hcopy]; exact hcall, h', fun hs => hstale ((stale_failed hheap harr).1 hs),
        fun ref n => live_append_none hheap⟩)

end Element

section AddOpts

variable {cli cli' : Cli φ} {done : List (CliOpt φ)}

/-- The options `done` were added to the registry by the caller, under different ids. -/
structure DoneIn (cli : Cli φ) (done : List (CliOpt φ)) : Prop where
  nodup : (done.map fun o => o.names.id).Nodup
  live : ∀ o ∈ done, o.id.isSome = true ∧
    ∃ ref node, Live cli ref node ∧ node.names = o.names ∧ node.flags &&& cliOptInternal = 0

/-- Undoing additions leaves the short names of the options behind. -/
theorem rollback_spec (h : Registry cli) (hdone : DoneIn cli done) :
    ∃ cli', rollback cli done = .ok cli' ∧ Registry cli' ∧
      (Stale cli' ↔ Stale cli ∨ ∃ o ∈ done, o.shortName ≠ cliOptNoShortName) := by
  induction done generalizing cli with
  | nil => exact ⟨cli, rfl, h, by simp⟩
  | cons o rest ih =>
    obtain ⟨hsome, ref, node, hlive, hnames, hinternal⟩ := hdone.live o List.mem_cons_self
    obtain ⟨id, hid⟩ := Option.isSome_iff_exists.1 hsome
    have hidStr : node.id.str = id := by
      have := congrArg Names.id hnames
      simpa [OptNode.names, CliOpt.names, hid] using this
    have hshort : node.shortName = o.shortName := congrArg Names.shortName hnames
    rcases cliRemoveOpt_spec h id with
      ⟨-, hnone⟩ | ⟨ref', node', mid, hlive', hid', -, hcall, hmid, hheap, harr⟩
    · exact absurd hinternal (hnone ref node hlive hidStr)
    · obtain ⟨rfl, rfl⟩ := h.id_inj hlive' hlive (hid'.trans hidStr.symm)
      have hnodup := List.nodup_cons.1 hdone.nodup
      -- the others have other ids, so they are still there
      have hrest : DoneIn mid rest := by
        refine ⟨hnodup.2, ?_⟩
        intro o' ho'
        obtain ⟨hsome', r, n, hn, hnames', hint'⟩ := hdone.live o' (List.mem_cons_of_mem o ho')
        refine ⟨hsome', r, n, (live_set_none hheap).2 ⟨?_, hn⟩, hnames', hint'⟩
        rintro rfl
        obtain rfl := hn.unique hlive'
        have heq : o.names.id = o'.names.id := by rw [← hnames, hnames']
        exact hnodup.1 (List.mem_map.2 ⟨o', ho', heq.symm⟩)
      obtain ⟨cli', hrollback, h', hstale⟩ := ih hmid hrest
      refine ⟨cli', by simp only [rollback, hid, hcall, hrollback], h', ?_⟩
      rw [hstale, stale_removed h hlive' hheap harr, hshort, or_assoc]
      simp

/-- The options added so far, after one more. -/
theorem DoneIn.concat (h : DoneIn cli done) {opt : CliOpt φ} {a : OptAlloc} {node : OptNode φ}
    (hacc : Accepted (InUse cli) opt a) (hheap : cli'.heap = cli.heap ++ [some node])
    (hnames : node.names = opt.names) (hflags : node.flags = opt.flags) :
    DoneIn cli' (done ++ [opt]) := by
  obtain ⟨⟨huser, hcheck, -⟩, -, -, hclash, -⟩ := hacc
  constructor
  · -- the new option has another id than those before it
    rw [List.map_append, List.map_singleton, List.nodup_append]
    refine ⟨h.nodup, List.nodup_singleton _, ?_⟩
    intro x hx y hy heq
    obtain ⟨o, ho, rfl⟩ := List.mem_map.1 hx
    obtain ⟨-, ref, n, hlive, hn, -⟩ := h.live o ho
    obtain rfl := List.mem_singleton.1 hy
    exact hclash o.names ⟨ref, n, hlive, hn⟩ (.inl heq)
  · intro o ho
    rcases List.mem_append.1 ho with ho | ho
    · obtain ⟨hsome, ref, n, hlive, hn, hint⟩ := h.live o ho
      exact ⟨hsome, ref, n, (live_append hheap).2 (.inl hlive), hn, hint⟩
    · obtain rfl := List.mem_singleton.1 ho
      obtain ⟨⟨id, hid⟩, -⟩ := cliOptCheck_spec hcheck
      refine ⟨by simp [hid], cli.heap.length, node, (live_append hheap).2 (.inr ⟨rfl, rfl⟩), hnames,
        ?_⟩
      rw [hflags]
      exact of_decide_eq_true huser

/-- The names in use after a node was added. -/
theorem inUse_append {node : OptNode φ} (hheap : cli'.heap = cli.heap ++ [some node]) (n : Names) :
    InUse cli' n = (InUse cli n ∨ node.names = n) := by
  apply propext
  constructor
  · rintro ⟨ref, node', hlive, hn⟩
    rcases (live_append hheap).1 hlive with hold | ⟨-, rfl⟩
    · exact .inl ⟨ref, node', hold, hn⟩
    · exact .inr hn
  · rintro (⟨ref, node', hlive, hn⟩ | hn)
    · exact ⟨ref, node', (live_append hheap).2 (.inl hlive), hn⟩
    · exact ⟨_, node, (live_append hheap).2 (.inr ⟨rfl, rfl⟩), hn⟩

/-- A call of `cli_add_opts`, some of its options already added: the registry stays in order, and
a short name becomes stale exactly if an addition is undone. -/
theorem cliAddOptsLoop_spec (allocs : ℕ → OptAlloc) (used : Names → Prop) (opts : List (CliOpt φ))
    (h : Registry cli) (hstale : ¬Stale cli) (hdone : DoneIn cli done)
    (hused : InUse cli = fun n => used n ∨ ∃ o ∈ done, o.names = n) :
    match cliAddOptsLoop allocs cli done opts with
    | .error _ => ¬UndoesShortName used allocs done opts
    | .ok (cli', _) => Registry cli' ∧ (Stale cli' ↔ UndoesShortName used allocs done opts) := by
  induction opts generalizing cli done with
  | nil => exact ⟨h, by simp [hstale, UndoesShortName]⟩
  | cons opt opts ih =>
    -- an element is not both accepted and rejected
    have hexcl {used : Names → Prop} {a : OptAlloc} (hacc : Accepted used opt a) :
        ¬Rejected used opt a := by
      rintro (hnot | ⟨-, hnot⟩)
      · exact hnot hacc.1
      · exact hnot hacc.2.2
    rw [cliAddOptsLoop]
    simp only [UndoesShortName, ← hused]
    rcases addUserOpt_spec h hstale opt (allocs done.length) with
      ⟨hacc, mid, node, hcall, hmid, hstale', hheap, hnames, hflags⟩ |
      ⟨hrej, mid, hcall, hmid, hstale', hlive⟩ | ⟨hacc, hrej, e, hcall⟩
    · -- one more is added
      have hused' : InUse mid = fun n => used n ∨ ∃ o ∈ done ++ [opt], o.names = n := by
        funext n
        rw [inUse_append hheap, hused, hnames]
        simp [or_assoc, or_and_right, exists_or]
      have hnext := ih hmid hstale' (hdone.concat hacc hheap hnames hflags) hused'
      rw [hcall]
      simpa only [hacc, hexcl hacc, true_and, false_and, or_false] using hnext
    · -- a rejection undoes the additions
      have hdone' : DoneIn mid done := by
        refine ⟨hdone.nodup, ?_⟩
        intro o ho
        obtain ⟨hsome, ref, n, hn, hrest⟩ := hdone.live o ho
        exact ⟨hsome, ref, n, (hlive ref n).2 hn, hrest⟩
      obtain ⟨cli', hrollback, h', hstale''⟩ := rollback_spec hmid hdone'
      rw [hcall]
      simp only [hrollback, Except.map]
      refine ⟨h', ?_⟩
      rw [hstale'']
      have hacc : ¬Accepted (InUse cli) opt (allocs done.length) := fun hacc => hexcl hacc hrej
      simp only [hstale', hacc, hrej, false_and, true_and, false_or]
    · rw [hcall]
      simp [hacc, hrej]

end AddOpts

section Runs

/-- A new registry is in order, with no stale short name. -/
theorem registry_empty (flags : BitVec 64) :
    Registry (Cli.empty flags : Cli φ) ∧ ¬Stale (Cli.empty flags : Cli φ) := by
  have hdead : ∀ ref (node : OptNode φ), ¬Live (Cli.empty flags) ref node := by
    intro ref node hlive
    simp [Live, Cli.empty] at hlive
  have hnone (ref : ℕ) (P : OptNode φ → Prop) : ¬∃ node, Live (Cli.empty flags) ref node ∧ P node :=
    fun ⟨node, hlive, _⟩ => hdead ref node hlive
  have hvalid : (HashTable.create cliHashStrCmp 256 : HashTable HashStr ℕ).Valid HashStr.key :=
    HashTable.valid_create cliHashStrCmp_eq_zero (by decide)
  have hget (key : HashStr) (ref : ℕ) :
      (HashTable.create cliHashStrCmp 256 : HashTable HashStr ℕ).get key key.key ≠ some ref := by
    rw [HashTable.get_create]
    exact nofun
  have hshort (c ref : ℕ) : (Cli.empty flags : Cli φ).optsByShortNameArr[c]? ≠ some (some ref) := by
    intro hc
    have hmem := List.mem_of_getElem? hc
    simp [Cli.empty] at hmem
  refine ⟨⟨?_, ?_, ⟨List.nodup_nil, List.nodup_nil⟩, hvalid, ?_, hvalid, ?_, ?_, ?_, ?_⟩, ?_⟩
  · exact fun ref => iff_of_false List.not_mem_nil (hnone ref _)
  · exact fun ref => iff_of_false List.not_mem_nil (hnone ref _)
  · exact fun id ref => iff_of_false (hget id ref) (hnone ref _)
  · exact fun name ref => iff_of_false (hget name ref) (hnone ref _)
  · exact List.length_replicate
  · exact fun ref node hlive => absurd hlive (hdead ref node)
  · exact fun c ref hc => absurd hc (hshort c ref)
  · rintro ⟨c, ref, hc, -⟩
    exact hshort c ref hc

/-- `cli_create` makes a registry without options, or with the one for the help if the flags ask for
it. -/
theorem cliCreate_cases {flags : BitVec 64} {a : CreateAlloc} {cli : Cli φ}
    (h : cliCreate flags a = .ok (some cli)) :
    (flags &&& cliAutoHelp = 0 ∧ cli = .empty flags) ∨
      (flags &&& cliAutoHelp ≠ 0 ∧
        addNewNode (.empty flags) autoHelpNode a.help = .ok (cli, true)) := by
  unfold cliCreate at h
  repeat' split at h
  all_goals first | (simp at h; done) | skip
  · next hhelp _ _ hadd =>
    obtain rfl : _ = cli := Option.some.inj (Except.ok.inj h)
    refine .inr ⟨hhelp, ?_⟩
    unfold cliAddAutoHelp at hadd
    repeat' split at hadd
    · simp at hadd
    · simp at hadd
    · simp at hadd
    · simp at hadd
    · exact hadd
  · next hhelp => exact .inl ⟨not_not.1 hhelp, (Option.some.inj (Except.ok.inj h)).symm⟩

theorem autoHelpNode_shortName : (autoHelpNode : OptNode φ).shortName.toNat < UCHAR_MAX := by
  show (BitVec.ofNat 8 'h'.toNat).toNat < 255
  decide

/-- `cli_create` makes a registry in order, with no stale short name. -/
theorem cliCreate_spec {flags : BitVec 64} {a : CreateAlloc} {cli : Cli φ}
    (h : cliCreate flags a = .ok (some cli)) : Registry cli ∧ ¬Stale cli := by
  obtain ⟨hempty, hstale⟩ := @registry_empty φ flags
  rcases cliCreate_cases h with ⟨-, rfl⟩ | ⟨-, hcall⟩
  · exact ⟨hempty, hstale⟩
  · rcases addNewNode_spec hempty autoHelpNode_shortName a.help with
      ⟨-, mid, hmid, hregistry, hheap, harr⟩ | ⟨-, mid, hmid, -⟩
    · cases hmid.symm.trans hcall
      exact ⟨hregistry, stale_added hstale hheap harr⟩
    · cases hmid.symm.trans hcall

section Preserved

variable {P : Cli φ → Prop} {cli cli' : Cli φ} {ok : Bool}

/-- What removing an option preserves is preserved when additions are undone. -/
theorem rollback_preserves (hremove : ∀ {cli cli' : Cli φ} {id : Str} {ok : Bool},
      P cli → cliRemoveOpt cli id = .ok (cli', ok) → P cli')
    {done : List (CliOpt φ)} (h : P cli) (hcall : rollback cli done = .ok cli') : P cli' := by
  induction done generalizing cli with
  | nil =>
    cases hcall
    exact h
  | cons opt done ih =>
    rw [rollback] at hcall
    repeat' split at hcall
    · cases hcall
    · cases hcall
    · next hcalled => exact ih (hremove h hcalled) hcall

/-- What adding one option and removing one preserve is preserved by `cli_add_opts`. -/
theorem cliAddOptsLoop_preserves (hadd : ∀ {cli cli' : Cli φ} {opt : CliOpt φ} {a : OptAlloc}
      {ok : Bool}, P cli → addUserOpt cli opt a = .ok (cli', ok) → P cli')
    (hremove : ∀ {cli cli' : Cli φ} {id : Str} {ok : Bool},
      P cli → cliRemoveOpt cli id = .ok (cli', ok) → P cli')
    {allocs : ℕ → OptAlloc} {done opts : List (CliOpt φ)} (h : P cli)
    (hcall : cliAddOptsLoop allocs cli done opts = .ok (cli', ok)) : P cli' := by
  induction opts generalizing cli done with
  | nil =>
    cases hcall
    exact h
  | cons opt opts ih =>
    rw [cliAddOptsLoop] at hcall
    split at hcall
    · cases hcall
    · next hadded => exact ih (hadd h hadded) hcall
    · next mid hadded =>
      -- the additions are undone
      cases hback : rollback mid done with
      | error e =>
        rw [hback] at hcall
        cases hcall
      | ok mid' =>
        rw [hback] at hcall
        cases hcall
        exact rollback_preserves hremove (hadd h hadded) hback

/-- What adding one option and removing one preserve is preserved by every public call. -/
theorem exec_preserves (hadd : ∀ {cli cli' : Cli φ} {opt : CliOpt φ} {a : OptAlloc}
      {ok : Bool}, P cli → addUserOpt cli opt a = .ok (cli', ok) → P cli')
    (hremove : ∀ {cli cli' : Cli φ} {id : Str} {ok : Bool},
      P cli → cliRemoveOpt cli id = .ok (cli', ok) → P cli')
    {op : Op φ} (h : P cli) (hcall : exec (some cli) op = some cli') : P cli' := by
  cases op with
  | addOpts opts allocs =>
    cases hadded : cliAddOptsLoop allocs cli [] opts with
    | error e => simp [exec, cliAddOpts, hadded] at hcall
    | ok called =>
      obtain rfl : called.1 = cli' := by simpa [exec, cliAddOpts, hadded] using hcall
      exact cliAddOptsLoop_preserves hadd hremove h hadded
  | removeOpt id =>
    cases hremoved : cliRemoveOpt cli id with
    | error e => simp [exec, hremoved] at hcall
    | ok called =>
      obtain rfl : called.1 = cli' := by simpa [exec, hremoved] using hcall
      exact hremove h hremoved

end Preserved

section Registry

variable {cli cli' : Cli φ} {ok : Bool}

/-- An element of an array is refused, or checked, copied and added. -/
theorem addUserOpt_cases {opt : CliOpt φ} {a : OptAlloc}
    (hcall : addUserOpt cli opt a = .ok (cli', ok)) :
    cli' = cli ∨ ∃ node, cliOptCheck opt = true ∧ node.flags = opt.flags ∧
      node.shortName.toNat < UCHAR_MAX ∧ addNewNode cli node a = .ok (cli', ok) := by
  by_cases hreach : Reaches opt a
  · rw [addUserOpt_of_reaches cli hreach] at hcall
    rcases cliOptNodeFromOpt_spec hreach with
      ⟨-, hcopy⟩ | ⟨-, -, hcopy⟩ | ⟨-, -, node, hcopy, -, hflags, hname, -⟩
    · rw [hcopy] at hcall
      cases hcall
    · rw [hcopy] at hcall
      cases hcall
      exact .inl rfl
    · rw [hcopy] at hcall
      have hshort := (cliOptCheck_spec hreach.2.1).2
      rw [← hname] at hshort
      exact .inr ⟨node, hreach.2.1, hflags, hshort, hcall⟩
  · rw [addUserOpt_of_not_reaches hreach] at hcall
    cases hcall
    exact .inl rfl

/-- Adding one element of an array keeps the registry in order. -/
theorem Registry.addUserOpt (h : Registry cli) {opt : CliOpt φ} {a : OptAlloc}
    (hcall : addUserOpt cli opt a = .ok (cli', ok)) : Registry cli' := by
  rcases addUserOpt_cases hcall with rfl | ⟨node, -, -, hshort, hcall⟩
  · exact h
  · -- added or destroyed again, the rest stays in order
    rcases addNewNode_spec h hshort a with ⟨-, mid, hmid, h', -⟩ | ⟨-, mid, hmid, h', -⟩
    · cases hmid.symm.trans hcall
      exact h'
    · cases hmid.symm.trans hcall
      exact h'

/-- Removing an option keeps the registry in order. -/
theorem Registry.cliRemoveOpt (h : Registry cli) {id : Str}
    (hcall : cliRemoveOpt cli id = .ok (cli', ok)) : Registry cli' := by
  rcases cliRemoveOpt_spec h id with ⟨hmid, -⟩ | ⟨-, -, mid, -, -, -, hmid, h', -⟩
  · cases hmid.symm.trans hcall
    exact h
  · cases hmid.symm.trans hcall
    exact h'

end Registry

/-- The registry is in order, if the calls have returned so far. -/
def RunRegistry (s : Option (Cli φ)) : Prop := ∀ cli, s = some cli → Registry cli

/-- The registry is coherent, if the calls have returned so far. -/
def RunCoherent (s : Option (Cli φ)) : Prop := ∀ cli, s = some cli → Coherent cli

/-- Every public call keeps the registry in order. -/
theorem RunRegistry.exec {s : Option (Cli φ)} (h : RunRegistry s) (op : Op φ) :
    RunRegistry (exec s op) := by
  intro cli' hcli'
  cases s with
  | none => cases hcli'
  | some cli =>
    exact exec_preserves (fun h hcall => h.addUserOpt hcall) (fun h hcall => h.cliRemoveOpt hcall)
      (h cli rfl) hcli'

/-- `cli_add_opts` keeps a coherent registry coherent exactly if it undoes no short name. -/
theorem runCoherent_addOpts {cli : Cli φ} (h : Registry cli) (hstale : ¬Stale cli)
    (opts : List (CliOpt φ)) (allocs : ℕ → OptAlloc) :
    RunCoherent (exec (some cli) (.addOpts opts allocs)) ↔
      ¬UndoesShortName (InUse cli) allocs [] opts := by
  have hdone : DoneIn cli [] := ⟨List.nodup_nil, nofun⟩
  have hspec := cliAddOptsLoop_spec allocs (InUse cli) opts h hstale hdone (by simp)
  cases hcall : cliAddOptsLoop allocs cli [] opts with
  | error e =>
    -- the call ends the run
    rw [hcall] at hspec
    simp only [exec, cliAddOpts, hcall]
    exact iff_of_true (fun _ hc => nomatch hc) hspec
  | ok called =>
    rw [hcall] at hspec
    simp only [exec, cliAddOpts, hcall]
    -- the call returns with a registry in order, so only stale names count
    rw [← hspec.2]
    constructor
    · exact fun hc => (hc called.1 rfl).not_stale
    · rintro hnot _ ⟨⟩
      exact hspec.1.coherent hnot

/-- `cli_remove_opt` keeps a coherent registry coherent exactly if the option it removes has no
short name. -/
theorem runCoherent_removeOpt {cli : Cli φ} (h : Registry cli) (hstale : ¬Stale cli) (id : Str) :
    RunCoherent (exec (some cli) (.removeOpt id)) ↔ ∀ ref node, Live cli ref node →
      node.id.str = id → node.flags &&& cliOptInternal = 0 →
        node.shortName = cliOptNoShortName := by
  rcases cliRemoveOpt_spec h id with
    ⟨hcall, hnone⟩ | ⟨ref, node, cli', hlive, hid, hinternal, hcall, h', hheap, harr⟩
  · -- nothing is removed
    simp only [exec, hcall]
    refine iff_of_true ?_ fun ref node hlive hid hint => absurd hint (hnone ref node hlive hid)
    rintro _ ⟨⟩
    exact h.coherent hstale
  · simp only [exec, hcall]
    have hstale' := stale_removed h hlive hheap harr
    constructor
    · intro hc ref' node' hlive' hid' _
      obtain ⟨-, rfl⟩ := h.id_inj hlive' hlive (hid'.trans hid.symm)
      by_contra hne
      exact (hc cli' rfl).not_stale (hstale'.2 (.inr hne))
    · rintro hkeeps _ ⟨⟩
      apply h'.coherent
      rw [hstale']
      rintro (hold | hne)
      · exact hstale hold
      · exact hne (hkeeps ref node hlive hid hinternal)

/-- A call keeps a coherent registry coherent exactly if it removes no option with a short name. -/
theorem RunCoherent.exec_iff {s : Option (Cli φ)} (hs : RunCoherent s) (h : RunRegistry s)
    (op : Op φ) : RunCoherent (exec s op) ↔ KeepsShortNames s op := by
  cases s with
  | none => exact iff_of_true (fun _ hc => nomatch hc) (fun _ hc => nomatch hc)
  | some cli =>
    have hstale := (hs cli rfl).not_stale
    cases op with
    | addOpts opts allocs =>
      rw [runCoherent_addOpts (h cli rfl) hstale]
      simp [KeepsShortNames]
    | removeOpt id =>
      rw [runCoherent_removeOpt (h cli rfl) hstale]
      simp [KeepsShortNames]

/-- For every registry that `cli_create` makes and every sequence of public calls on it, the
registry is coherent after every call that returns exactly if no call removes an option with a
short name, be it on request or to undo a part of a failed `cli_add_opts`. -/
theorem coherent_throughout_iff {flags : BitVec 64} {a : CreateAlloc} {cli : Cli φ}
    (h : cliCreate flags a = .ok (some cli)) (ops : List (Op φ)) :
    InputMachine.Always exec RunCoherent (some cli) ops ↔
      InputMachine.Meets exec KeepsShortNames (some cli) ops := by
  obtain ⟨hregistry, hstale⟩ := cliCreate_spec h
  have hstart : RunRegistry (some cli) := by
    rintro _ ⟨⟩
    exact hregistry
  have hcoherent : RunCoherent (some cli) := by
    rintro _ ⟨⟩
    exact hregistry.coherent hstale
  -- together with the rest, which every call keeps in order
  have hiff := InputMachine.always_iff_meets
    (P := fun s : Option (Cli φ) => RunRegistry s ∧ RunCoherent s)
    (fun s op hs => ⟨fun hs' => (hs.2.exec_iff hs.1 op).1 hs'.2,
      fun hok => ⟨hs.1.exec op, (hs.2.exec_iff hs.1 op).2 hok⟩⟩) ops ⟨hstart, hcoherent⟩
  rw [← hiff]
  constructor
  · have hrun := InputMachine.always_of_step
      (fun (s : Option (Cli φ)) op (hs : RunRegistry s) => hs.exec op) ops hstart
    exact fun hruns => hrun.and _ hruns
  · exact fun hboth => hboth.mono _ fun s hs => hs.2

/-- All allocations succeed. -/
def OptAlloc.ok : OptAlloc := ⟨true, true, true, true, true, true⟩

/-- All allocations of `cli_create` succeed. -/
def CreateAlloc.ok : CreateAlloc := ⟨true, true, true, true, .ok⟩

/-- An option without a short name. -/
def longNameOpt : CliOpt Unit where
  id := some (str "port")
  longName := some (str "port")
  shortName := cliOptNoShortName
  flags := cliOptHasArg
  parser := some ()
  description := some (str "Port listen to")

/-- An option without a short name is added and removed. -/
theorem coherent_throughout_long_name :
    InputMachine.Always exec RunCoherent (some (Cli.empty 0))
      [.addOpts [longNameOpt] fun _ => .ok, .removeOpt (str "port")] := by
  have hcreate : cliCreate 0 .ok = .ok (some (Cli.empty 0 : Cli Unit)) := rfl
  refine (coherent_throughout_iff hcreate _).2 ⟨?_, ?_, trivial⟩
  · rintro _ ⟨⟩
    simp [UndoesShortName]
  · have hheap : (exec (some (Cli.empty 0)) (.addOpts [longNameOpt] fun _ => .ok)).all
        (fun cli => cli.heap.all fun entry => entry.all (·.shortName = cliOptNoShortName)) =
          true := by
      decide +kernel
    intro cli hcli ref node hlive _ _
    rw [hcli, Option.all_some] at hheap
    exact of_decide_eq_true (Live.of_all hlive hheap)

/-- The registry that `main` creates. -/
def mainCli : Cli Unit :=
  match cliCreate (cliStrict ||| cliAutoHelp) .ok with
  | .ok (some cli) => cli
  | _ => .empty 0

theorem cliCreate_mainCli : cliCreate (cliStrict ||| cliAutoHelp) .ok = .ok (some mainCli) := by
  have hmade : ((cliCreate (cliStrict ||| cliAutoHelp) .ok).map
      fun cli : Option (Cli Unit) => cli.isSome).toOption = some true := by
    decide +kernel
  unfold mainCli
  cases hcreate : cliCreate (cliStrict ||| cliAutoHelp) .ok with
  | error e =>
    rw [hcreate] at hmade
    cases hmade
  | ok made =>
    rw [hcreate] at hmade
    cases made with
    | none => cases hmade
    | some cli => rfl

/-- The option that `main` adds with these names; its parser has no part here. -/
def mainOpt (id longName : String) (shortName : Char) (description : String) : CliOpt Unit where
  id := some (str id)
  longName := some (str longName)
  shortName := BitVec.ofNat 8 shortName.toNat
  flags := cliOptHasArg
  parser := some ()
  description := some (str description)

/-- The calls of `main` on its registry. -/
def mainOps : List (Op Unit) :=
  [.addOpts [mainOpt "log_lvl" "log-lvl" 'l' "Verbosity level",
    mainOpt "port" "port" 'p' "Port listen to",
    mainOpt "workers_nr" "workers-nr" 'w' "Number of worker threads"] fun _ => .ok,
  .removeOpt (str "port")]

/-- After the calls of `main` the array still has the option `port`, the third node created, under
`p`. -/
theorem not_coherent_main : ¬∀ (flags : BitVec 64) (a : CreateAlloc) (cli : Cli Unit),
    cliCreate flags a = .ok (some cli) → ∀ ops : List (Op Unit),
      InputMachine.Always exec RunCoherent (some cli) ops := by
  intro h
  have hlast := (h _ _ mainCli cliCreate_mainCli mainOps).last
  have hentry : (InputMachine.run exec (some mainCli) mainOps).map
      (fun cli => (cli.optsByShortNameArr['p'.toNat]?, cli.heap[2]?.map Option.isSome)) =
        some (some (some 2), some false) := by
    decide +kernel
  cases hrun : InputMachine.run exec (some mainCli) mainOps with
  | none =>
    rw [hrun] at hentry
    cases hentry
  | some cli =>
    rw [hrun, Option.map_some, Option.some.injEq, Prod.mk.injEq] at hentry
    -- coherence would need the third node to be there
    obtain ⟨node, hlive⟩ := (hlast cli hrun).shortNameEntries 2 (List.mem_of_getElem? hentry.1)
    have hheap : cli.heap[2]? = some (some node) := hlive
    simp [hheap] at hentry

end Runs

end Qkmetisc.CommandLine
