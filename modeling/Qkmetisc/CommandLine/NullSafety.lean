import Qkmetisc.CommandLine.Help
import Qkmetisc.CommandLine.Visits

/-!
# `NULL` strings and `NULL` parsers

A record of an option may leave out its long name, its description and its parser. `cli_opt_check`
looks at the id and at the names only. A description that is left out is copied all the same when
the option is added, and a parser that is left out is called when a word of `argv` names the option
and another word stands behind it.

## Main definitions

* `cliPrintOptError`, `cliDestroy`: the functions of the source that are left.
* `NullSafe`: neither adding the records of an array nor any later call copies or prints a `NULL`
  string or calls a `NULL` parser.
* `Provided`: the condition on the array.

## Main results

* `cliMatch_printable`, `cliPrintHelp_safe`, `Registry.cliDestroy`: printing and destroying meet no
  `NULL`.
* `callable_iff`: a `NULL` parser can be called exactly if an option that a word can name has one.
* `nullSafe_iff`: the condition is exact, for every registry and every array.
-/

namespace Qkmetisc.CommandLine

variable {φ δ : Type*} {cli cli' : Cli φ} {node : OptNode φ} {a : OptAlloc} {ref : ℕ}

/-! ## The functions of the source -/

/-- `cli_print_opt_error`, which reports errors where the caller of `cli_create` passes no function
for it. -/
def cliPrintOptError (type : OptErrorType) (val1 val2 : Option Str) : Except PrintFault Str :=
  match type with
  | .unknownOpt => do
    let val1 ← percentS val1
    return str "Unknown option " ++ val1 ++ str "\n"
  | .optNoArg => do
    let val1 ← percentS val1
    return str "Option " ++ val1 ++ str " must have arg, but it doesn't\n"
  | .optFailedToParseArg => do
    let val2 ← percentS val2
    let val1 ← percentS val1
    return str "Failed to parse arg " ++ val2 ++ str " for option " ++ val1 ++ str "\n"
  | .optRepeatNoAppend => do
    let val1 ← percentS val1
    return str "Option " ++ val1 ++ str " mustn't appear more than 1 time\n"
  | .requiredNotPresent =>
    if val1.isNone then do
      let val2 ← percentS val2
      return str "Option " ++ val2 ++ str " is required\n"
    else do
      let val2 ← percentS val2
      let val1 ← percentS val1
      return str "Option " ++ val2 ++ str " ( " ++ val1 ++ str " ) is required\n"

/-- One of the loops of `cli_destroy`, over the rest of its ring. -/
def destroyRing (cli : Cli φ) : List ℕ → Except Fault (Cli φ)
  | [] => .ok cli
  | ref :: refs =>
    match cli.heap[ref]? with
    | some (some _) => destroyRing (cliOptNodeDestroy cli ref) refs
    | _ => .error .useAfterFree

/-- `cli_destroy`: the heap that is left, in the registry that it belonged to. -/
def cliDestroy (cli : Cli φ) : Except Fault (Cli φ) :=
  (destroyRing cli cli.optionalOpts).bind fun left => destroyRing left cli.requiredOpts

/-! ## The property and its condition -/

/-- Adding the records of the array copies no `NULL` string, and on the registry that it leaves no
later call copies or prints one or calls a `NULL` parser, whatever the parsers and the allocator
answer and for every `argv`. -/
structure NullSafe (δ : Type*) (cli : Cli φ) (opts : List (CliOpt φ)) (allocs : ℕ → OptAlloc) :
    Prop where
  adds : cliAddOpts cli opts allocs ≠ .error .nullAccess
  /-- `cli_match`. -/
  scans : ∀ cli' ok, cliAddOpts cli opts allocs = .ok (cli', ok) →
    ∀ (env : MatchEnv φ δ) (argv : List Str),
      (cliMatch cli' env argv).1 ≠ .lost (.fault .nullAccess)
  /-- What `cli_match` reports. -/
  reports : ∀ cli' ok, cliAddOpts cli opts allocs = .ok (cli', ok) →
    ∀ (env : MatchEnv φ δ) (argv : List Str) (type : OptErrorType) (val1 val2 : Option Str),
      .error type val1 val2 ∈ (cliMatch cli' env argv).2 →
        cliPrintOptError type val1 val2 ≠ .error (.fault .nullAccess)
  helps : ∀ cli' ok, cliAddOpts cli opts allocs = .ok (cli', ok) →
    ∀ appName, cliPrintHelp cli' appName ≠ .error (.fault .nullAccess)
  destroys : ∀ cli' ok, cliAddOpts cli opts allocs = .ok (cli', ok) →
    cliDestroy cli' ≠ .error .nullAccess

/-- A word can name an option with these names. Where errors are fatal, the short name `-` is of no
use: two dashes begin a long name. -/
def Names.Nameable (n : Names) (strict : Bool) : Prop :=
  n.longName.isSome = true ∨ n.shortName ≠ dash ∨ strict = false

/-- Every option that takes an argument and can be named has a parser. -/
def Callable (cli : Cli φ) : Prop :=
  ∀ ref node, Live cli ref node → node.hasArg = true → node.names.Nameable cli.strict →
    ∃ p, node.funcs = .parser (some p)

/-- The option of a record has a parser if it takes an argument and can be named. -/
def CliOpt.Callable (opt : CliOpt φ) (strict : Bool) : Prop :=
  opt.flags &&& cliOptHasArg ≠ 0 → opt.names.Nameable strict → opt.parser.isSome = true

/-- Of the records still to be added after `done`, each that gets as far as its description has one;
and if they are all taken, those of the array have parsers. -/
def Provided (cli₀ : Cli φ) (allocs : ℕ → OptAlloc) (done : List (CliOpt φ)) :
    List (CliOpt φ) → Prop
  | [] => ∀ o ∈ done, o.Callable cli₀.strict
  | opt :: opts =>
    (Reaches opt (allocs done.length) → opt.description.isSome = true) ∧
      (Taken cli₀ done opt (allocs done.length) → Provided cli₀ allocs (done ++ [opt]) opts)

section Printing

variable {env : MatchEnv φ δ} {s : Scan δ}

/-- What an event reports can be printed. -/
def MatchEvent.Printable : MatchEvent δ → Prop
  | .error type val1 val2 => ∃ text, cliPrintOptError type val1 val2 = .ok text
  | .destructed _ => True

/-- A part of `cli_match` that starts in the state `s` reports only what can be printed. -/
def Outcome.Reports {α : Type*} (o : Outcome δ α) (s : Scan δ) : Prop :=
  ∀ e ∈ o.state.log, e ∈ s.log ∨ e.Printable

theorem Outcome.Reports.trans {α β : Type*} {o : Outcome δ α} {o' : Outcome δ β} {s s' : Scan δ}
    (h : o.Reports s) (hs : o.state = s') (h' : o'.Reports s') : o'.Reports s := by
  subst hs
  intro e he
  rcases h' e he with he | he
  · exact h e he
  · exact .inr he

/-- An event that can be printed is reported. -/
theorem reports_observe {α : Type*} {o : Outcome δ α} {e : MatchEvent δ}
    (ho : o.state.log = s.log ++ [e]) (he : e.Printable) : o.Reports s := by
  intro e' he'
  rw [ho, List.mem_append, List.mem_singleton] at he'
  rcases he' with he' | rfl
  · exact .inl he'
  · exact .inr he

theorem reports_bind_go {α β : Type*} {o : Outcome δ α} (h : o.Reports s) (b : β) :
    (o.bind fun _ s => Outcome.go b s).Reports s := by
  rw [Outcome.Reports, state_bind_go]
  exact h

theorem cliPrintError_reports {type : OptErrorType} {val1 val2 : Option Str}
    (h : (MatchEvent.error (δ := δ) type val1 val2).Printable) :
    (cliPrintError cli type val1 val2 s).Reports s :=
  reports_observe (by rw [cliPrintError_state, observe_log]) h

theorem storeArg_reports (node : OptNode φ) (opt : Str) (arg : Option (OptArg δ)) :
    (storeArg cli env node opt arg s).Reports s := by
  have hrepeat : (MatchEvent.error (δ := δ) .optRepeatNoAppend opt none).Printable := ⟨_, rfl⟩
  have hdestruct (s' : Scan δ) : ∀ e ∈ (destructArg node arg s').log, e ∈ s'.log ∨ e.Printable := by
    unfold destructArg
    split
    · exact reports_observe (o := .go () (s'.observe (.destructed arg))) rfl trivial
    · exact fun e he => .inl he
  unfold storeArg
  split
  · split
    · split
      · exact fun e he => .inl he
      · exact fun e he => .inl he
    · rw [cliPrintError]
      rcases cli.strict with _ | _
      · exact reports_observe rfl hrepeat
      · intro e he
        rcases hdestruct _ e he with he | he
        · exact reports_observe (o := .go () (s.observe _)) rfl hrepeat e he
        · exact .inr he
  · split
    · exact fun e he => .inl he
    · next found _ => exact hdestruct { s with found }

/-- One word. -/
theorem scanWord_reports (cli : Cli φ) (env : MatchEnv φ δ) (word : Str) (next : Option Str)
    (s : Scan δ) : (scanWord cli env word next s).Reports s := by
  obtain ⟨errs, hreported, hbody⟩ := scanWord_cases cli env word next s
  -- an unknown word is reported as it stands, and so can be printed
  have hafter : (Outcome.go () (s.after word errs)).Reports s := by
    intro e he
    have hlog : (s.after word errs).log = s.log ++ errs := rfl
    rw [Outcome.state_go, hlog, List.mem_append] at he
    rcases he with he | he
    · exact .inl he
    · rw [hreported.unknown e he]
      exact .inr ⟨_, rfl⟩
  cases hbody with
  | fault h ho =>
    rw [ho]
    exact hafter
  | fatal h hstrict ho =>
    rw [ho]
    exact hafter
  | unknown h hlenient ho =>
    rw [ho]
    exact hafter
  | internal h hinternal ho =>
    rw [ho]
    exact hafter
  | flag h hinternal harg ho =>
    rw [ho]
    exact hafter.trans rfl (reports_bind_go (storeArg_reports _ word none) _)
  | lacking h hinternal harg hnext ho =>
    rw [ho]
    exact hafter.trans rfl (reports_bind_go (cliPrintError_reports ⟨_, rfl⟩) _)
  | rejected h hinternal harg hnext hparser hparse ho =>
    rw [ho]
    exact hafter.trans rfl (reports_bind_go (cliPrintError_reports ⟨_, rfl⟩) _)
  | arg h hinternal harg hnext hparser hparse ho =>
    rw [ho]
    exact hafter.trans rfl (reports_bind_go (storeArg_reports _ word _) _)
  | unset h hinternal harg hnext hparser ho =>
    rw [ho]
    exact hafter

/-- A whole scan. -/
theorem Run.reports {vs : List (Visit δ)} {o : Outcome δ Unit} (h : Run cli env s vs o) :
    o.Reports s := by
  induction h with
  | done s => exact fun e he => .inl he
  | @ended v e s' hword =>
    have hreports := scanWord_reports cli env v.word v.next v.state
    rw [hword] at hreports
    exact hreports
  | @beyond v s' hnext hword =>
    have hreports := scanWord_reports cli env v.word v.next v.state
    rw [hword] at hreports
    exact hreports
  | @step v b s' vs o hnext hword hrun ih =>
    have hreports := scanWord_reports cli env v.word v.next v.state
    rw [hword] at hreports
    exact hreports.trans rfl ih

/-- A required option that is missing is reported by the names it has. -/
theorem cliMatchCheckRequired_reports (cli : Cli φ) (refs : List ℕ) (s : Scan δ) :
    (cliMatchCheckRequired cli refs s).Reports s := by
  induction refs with
  | nil => exact fun e he => .inl he
  | cons ref refs ih =>
    rw [cliMatchCheckRequired]
    split
    · next node _ =>
      split
      · exact ih
      · refine reports_observe rfl ?_
        rcases node.longName with _ | longName
        · exact ⟨_, rfl⟩
        · exact ⟨_, rfl⟩
    · exact fun e he => .inl he

/-- What `cli_match` reports can be printed. -/
theorem cliMatch_printable (cli : Cli φ) (env : MatchEnv φ δ) (argv : List Str) :
    ∀ e ∈ (cliMatch cli env argv).2, e.Printable := by
  have hdestroy (m : CliMatch δ) : ∀ e ∈ cliMatchDestroy m, e.Printable := by
    intro e he
    obtain ⟨node, -, he⟩ := List.mem_flatMap.1 he
    obtain ⟨arg, -, rfl⟩ := List.mem_map.1 he
    trivial
  have hreports : ((scan cli env argv .start).bind fun _ s =>
      cliMatchCheckRequired cli cli.requiredOpts s).Reports (.start : Scan δ) := by
    have hrun := (run_scan cli env argv (.start : Scan δ)).reports
    rcases hscan : scan cli env argv (.start : Scan δ) with ⟨u, s⟩ | ⟨e, s⟩
    · rw [hscan] at hrun
      exact hrun.trans rfl (cliMatchCheckRequired_reports cli _ s)
    · rw [hscan] at hrun
      exact hrun
  have hlog {o : Outcome δ Unit} (h : o.Reports .start) : ∀ e ∈ o.state.log, e.Printable :=
    fun e he => (h e he).resolve_left (List.not_mem_nil)
  unfold cliMatch
  split
  · simp
  · split
    · simp
    · split
      · next e s hend =>
        rw [hend] at hreports
        unfold leave
        split
        · intro e' he'
          rcases List.mem_append.1 he' with he' | he'
          · exact hlog hreports e' he'
          · exact hdestroy _ e' he'
        · exact hlog hreports
      · next s hend =>
        rw [hend] at hreports
        exact hlog hreports

/-- A name is printed, or the assertion fails. -/
theorem cliPrintNodeName_safe (node : OptNode φ) {f : Fault} :
    cliPrintNodeName node ≠ .error (.fault f) := by
  rcases hlong : node.shown.longName.isSome with _ | _
  · simp [cliPrintNodeName_assert hlong]
  · simp [cliPrintNodeName_eq hlong]

theorem printRing_safe {body : OptNode φ → Except PrintFault Str} {text : Shown → Str}
    (hprints : Prints body text) (cli : Cli φ) (refs : List ℕ) :
    printRing body cli refs ≠ .error (.fault .nullAccess) := by
  induction refs with
  | nil => simp [printRing]
  | cons ref refs ih =>
    rw [printRing]
    split
    · next node _ =>
      rw [hprints]
      rcases hname : cliPrintNodeName node with f | name
      · intro hnull
        cases hnull
        exact cliPrintNodeName_safe node hname
      · rcases hothers : printRing body cli refs with f | others
        · rw [hothers] at ih
          exact ih
        · intro hnull
          cases hnull
    · simp

/-- The help prints no `NULL`. -/
theorem cliPrintHelp_safe (cli : Cli φ) (appName : Str) :
    cliPrintHelp cli appName ≠ .error (.fault .nullAccess) := by
  have hoptional := printRing_safe prints_optional cli cli.optionalOpts
  have hrequired := printRing_safe prints_required cli cli.requiredOpts
  have hoptionalLong := printRing_safe prints_description cli cli.optionalOpts
  have hrequiredLong := printRing_safe prints_description cli cli.requiredOpts
  rw [cliPrintHelp]
  split
  · simp
  · rcases hopt : printRing printOptional cli cli.optionalOpts with f | optional
    · rwa [hopt] at hoptional
    rcases hreq : printRing printRequired cli cli.requiredOpts with f | required
    · rwa [hreq] at hrequired
    rcases hoptLong : printRing printDescription cli cli.optionalOpts with f | optionalLong
    · rwa [hoptLong] at hoptionalLong
    rcases hreqLong : printRing printDescription cli cli.requiredOpts with f | requiredLong
    · rwa [hreqLong] at hrequiredLong
    intro hnull
    cases hnull

end Printing

section Destroying

/-- A loop over nodes that are there, each once, destroys them and no others. -/
theorem destroyRing_spec {refs : List ℕ} (hnodup : refs.Nodup)
    (hlive : ∀ ref ∈ refs, ∃ node, Live cli ref node) : ∃ left, destroyRing cli refs = .ok left ∧
      ∀ ref node, Live left ref node ↔ ref ∉ refs ∧ Live cli ref node := by
  induction refs generalizing cli with
  | nil => exact ⟨cli, rfl, by simp⟩
  | cons ref refs ih =>
    obtain ⟨hnew, hnodup⟩ := List.nodup_cons.1 hnodup
    obtain ⟨node, hnode⟩ := hlive ref List.mem_cons_self
    have hset (r : ℕ) (n : OptNode φ) :
        Live (cliOptNodeDestroy cli ref) r n ↔ r ≠ ref ∧ Live cli r n := live_set_none rfl
    have hrest : ∀ r ∈ refs, ∃ n, Live (cliOptNodeDestroy cli ref) r n := by
      intro r hr
      obtain ⟨n, hn⟩ := hlive r (List.mem_cons_of_mem _ hr)
      exact ⟨n, (hset r n).2 ⟨fun heq => hnew (heq ▸ hr), hn⟩⟩
    obtain ⟨left, hleft, hiff⟩ := ih hnodup hrest
    have hget : cli.heap[ref]? = some (some node) := hnode
    refine ⟨left, by simpa only [destroyRing, hget] using hleft, fun r n => ?_⟩
    rw [hiff, hset, List.mem_cons, not_or, ← and_assoc, and_comm (a := r ∉ refs)]

/-- Destroying a registry destroys every node once. -/
theorem Registry.cliDestroy (h : Registry cli) :
    ∃ left, cliDestroy cli = .ok left ∧ ∀ ref node, ¬Live left ref node := by
  obtain ⟨left, hleft, hiff⟩ := destroyRing_spec h.ringOnce.2 fun ref href => by
    obtain ⟨node, hlive, -⟩ := (h.optional ref).1 href
    exact ⟨node, hlive⟩
  -- no required option is among those that are destroyed by now
  have hrequired : ∀ ref ∈ cli.requiredOpts, ∃ node, Live left ref node := by
    intro ref href
    obtain ⟨node, hlive, hflag⟩ := (h.required ref).1 href
    refine ⟨node, (hiff ref node).2 ⟨fun hmem => ?_, hlive⟩⟩
    obtain ⟨node', hlive', hflag'⟩ := (h.optional ref).1 hmem
    rw [hlive.unique hlive', hflag'] at hflag
    cases hflag
  obtain ⟨left', hleft', hiff'⟩ := destroyRing_spec h.ringOnce.1 hrequired
  refine ⟨left', by rw [CommandLine.cliDestroy, hleft]; exact hleft', fun ref node hlive => ?_⟩
  obtain ⟨hnot, hlive⟩ := (hiff' ref node).1 hlive
  obtain ⟨hnot', hlive⟩ := (hiff ref node).1 hlive
  rcases hflag : node.required with _ | _
  · exact hnot' ((h.optional ref).2 ⟨node, hlive, hflag⟩)
  · exact hnot ((h.required ref).2 ⟨node, hlive, hflag⟩)

end Destroying

section Flags

variable {ok : Bool}

theorem setShortName_flags {c : BitVec 8} {entry : Option ℕ}
    (h : setShortName cli c entry = .ok cli') : cli'.flags = cli.flags := by
  unfold setShortName at h
  split at h
  · cases h
    rfl
  · cases h

theorem addShortName_flags (h : addShortName cli ref node = .ok (some cli')) :
    cli'.flags = cli.flags := by
  unfold addShortName at h
  repeat' split at h
  · cases h
    rfl
  · cases h
  · cases h
  · rcases hset : setShortName cli node.shortName (some ref) with e | mid
    · rw [hset] at h
      cases h
    · rw [hset] at h
      cases h
      exact setShortName_flags hset

theorem addLongName_flags (h : addLongName cli ref node a = some cli') :
    cli'.flags = cli.flags := by
  unfold addLongName at h
  split at h
  · cases h
    rfl
  · obtain ⟨ht, -, rfl⟩ := Option.map_eq_some_iff.1 h
    rfl

theorem removeId_flags (cli : Cli φ) (id : HashStr) : (removeId cli id).flags = cli.flags := by
  unfold removeId
  split <;> rfl

theorem removeLongName_flags (cli : Cli φ) (longName : Option HashStr) :
    (removeLongName cli longName).flags = cli.flags := by
  unfold removeLongName
  split
  · rfl
  · split <;> rfl

/-- A failure that empties the place of the short name keeps the flags. -/
theorem flags_of_failed {c : BitVec 8} {entry : Option ℕ} {mid : Cli φ}
    (h : (setShortName mid c entry).map (·, false) = .ok (cli', ok)) : cli'.flags = mid.flags := by
  rcases hset : setShortName mid c entry with e | mid'
  · rw [hset] at h
    cases h
  · rw [hset] at h
    cases h
    exact setShortName_flags hset

theorem addEntries_flags (h : addEntries cli ref node a = .ok (cli', ok)) :
    cli'.flags = cli.flags := by
  unfold addEntries at h
  split at h
  · exact flags_of_failed h
  · dsimp only at h
    split at h
    · exact (flags_of_failed h).trans (removeId_flags _ _)
    · next hlong =>
      have hflags := addLongName_flags hlong
      split at h
      · cases h
        exact hflags
      · cases h
        exact hflags

theorem addNewNode_flags (h : addNewNode cli node a = .ok (cli', ok)) :
    cli'.flags = cli.flags := by
  unfold addNewNode at h
  dsimp only at h
  rcases hadd : cliAddOptNode { cli with heap := cli.heap ++ [some node] } cli.heap.length node a
    with e | ⟨mid, added⟩
  · rw [hadd] at h
    cases h
  have hflags : mid.flags = cli.flags := by
    unfold cliAddOptNode at hadd
    split at hadd
    · cases hadd
    · cases hadd
      rfl
    · next hname =>
      have hflags := addShortName_flags hname
      exact (addEntries_flags hadd).trans hflags
  rw [hadd] at h
  rcases added with _ | _
  · cases h
    exact hflags
  · cases h
    exact hflags

theorem addUserOpt_flags {opt : CliOpt φ} (h : addUserOpt cli opt a = .ok (cli', ok)) :
    cli'.flags = cli.flags := by
  rcases addUserOpt_copied h with ⟨rfl, -⟩ | ⟨node, -, -, -, hnode⟩
  · rfl
  · exact addNewNode_flags hnode

theorem cliRemoveOpt_flags {id : Str} (h : cliRemoveOpt cli id = .ok (cli', ok)) :
    cli'.flags = cli.flags := by
  unfold cliRemoveOpt at h
  dsimp only at h
  repeat' split at h
  · cases h
    rfl
  · cases h
    rfl
  · cases h
    rw [cliOptNodeDestroy, removeLongName_flags, removeId_flags, removeFromRing]
    split <;> rfl
  · cases h

end Flags

section Nodes

variable {ok : Bool}

/-- What holds of a node in every registry that can be made: it has a name, and if it is an internal
one, a handler and no argument. -/
structure OptNode.Sound (node : OptNode φ) : Prop where
  named : node.longName.isSome = true ∨ node.shortName ≠ cliOptNoShortName
  handled : node.internal = true → node.funcs = .handler ∧ node.hasArg = false

/-- All nodes are sound. -/
def AllSound (cli : Cli φ) : Prop := ∀ ref node, Live cli ref node → node.Sound

theorem sound_autoHelpNode : (autoHelpNode : OptNode φ).Sound where
  named := .inl rfl
  handled := fun _ => ⟨rfl, show decide (cliOptInternal &&& cliOptHasArg ≠ 0) = false by decide⟩

theorem sound_of_copied {opt : CliOpt φ} (hreach : Reaches opt a)
    (hcopy : cliOptNodeFromOpt opt a = .ok (some node)) : node.Sound := by
  have hshown := cliOptNodeFromOpt_shown hcopy
  have hlong : node.longName.map (·.str) = opt.longName := congrArg Shown.longName hshown
  have hshort : node.shortName = opt.shortName := congrArg Shown.shortName hshown
  have hflags : node.flags = opt.flags := congrArg Shown.flags hshown
  constructor
  · have hcheck := hreach.2.1
    unfold cliOptCheck at hcheck
    split at hcheck
    · cases hcheck
    · next hnames =>
      rw [hshort, ← Option.isSome_map (f := (·.str)), hlong]
      by_contra hnone
      rw [not_or, not_not, Bool.not_eq_true] at hnone
      exact hnames ⟨hnone.2, by simpa using hnone.1⟩
  · intro hinternal
    have huser : opt.flags &&& cliOptInternal = 0 := by simpa [cliOptUserCheck] using hreach.1
    simp [OptNode.internal, hflags, huser] at hinternal

theorem AllSound.addNewNode (h : AllSound cli) (hregistry : Registry cli)
    (hshort : node.shortName.toNat < UCHAR_MAX) (hsound : node.Sound)
    (hcall : addNewNode cli node a = .ok (cli', ok)) : AllSound cli' := by
  intro ref n hlive
  rcases addNewNode_spec hregistry hshort a with
    ⟨-, mid, hmid, -, hheap, -⟩ | ⟨-, mid, hmid, -, hheap, -⟩
  · cases hmid.symm.trans hcall
    rcases (live_append hheap).1 hlive with hold | ⟨-, rfl⟩
    · exact h ref n hold
    · exact hsound
  · cases hmid.symm.trans hcall
    exact h ref n ((live_append_none hheap).1 hlive)

theorem AllSound.addUserOpt (h : AllSound cli) (hregistry : Registry cli) {opt : CliOpt φ}
    (hcall : addUserOpt cli opt a = .ok (cli', ok)) : AllSound cli' := by
  rcases addUserOpt_copied hcall with ⟨rfl, -⟩ | ⟨node, hreach, hshort, hcopy, hnode⟩
  · exact h
  · exact h.addNewNode hregistry hshort (sound_of_copied hreach hcopy) hnode

theorem AllSound.cliRemoveOpt (h : AllSound cli) (hregistry : Registry cli) {id : Str}
    (hcall : cliRemoveOpt cli id = .ok (cli', ok)) : AllSound cli' := by
  rcases cliRemoveOpt_spec hregistry id with
    ⟨hmid, -⟩ | ⟨_, _, mid, -, -, -, hmid, -, hheap, -⟩
  · cases hmid.symm.trans hcall
    exact h
  · cases hmid.symm.trans hcall
    exact fun ref n hlive => h ref n ((live_set_none hheap).1 hlive).2

/-- The nodes of every registry that can be made are sound. -/
theorem Made.allSound (h : Made cli) : AllSound cli := by
  induction h with
  | @create flags c cli h =>
    have hempty : AllSound (.empty flags : Cli φ) := by
      intro ref node hlive
      simp [Live, Cli.empty] at hlive
    rcases cliCreate_cases h with ⟨-, rfl⟩ | ⟨-, hcall⟩
    · exact hempty
    · exact hempty.addNewNode (registry_empty flags).1 autoHelpNode_shortName sound_autoHelpNode
        hcall
  | @call cli cli' op hmade hcall ih =>
    exact (exec_preserves (P := fun cli => Registry cli ∧ AllSound cli)
      (fun h hcall => ⟨h.1.addUserOpt hcall, h.2.addUserOpt h.1 hcall⟩)
      (fun h hcall => ⟨h.1.cliRemoveOpt hcall, h.2.cliRemoveOpt h.1 hcall⟩)
      ⟨hmade.registry, ih⟩ hcall).2

end Nodes

section Calling

variable {word : Str}

/-- An option that a word comes to can be named. -/
theorem Registry.nameable_of_resolve (h : Registry cli)
    (hresolve : resolve cli word = .ok (some node)) : node.names.Nameable cli.strict := by
  obtain ⟨ref, hentry, hlive⟩ := resolve_eq_some.1 hresolve
  by_contra hnot
  obtain ⟨hlong, hshort, hstrict⟩ : node.longName = none ∧ node.shortName = dash ∧
      cli.strict = true := by
    simpa [Names.Nameable, OptNode.names, not_or] using hnot
  unfold entryOf at hentry
  split at hentry
  · -- a long word is looked up in the table
    obtain ⟨node', hlive', hname⟩ := (h.byLongName _ _).1 (Except.ok.inj hentry)
    rw [hlive'.unique hlive, hlong] at hname
    cases hname
  · next hword =>
    split at hentry
    · cases hentry
    · next hlookup =>
      have hdash : charAt word 0 = some dash := by
        by_contra hno
        exact hlookup ⟨hstrict, hno⟩
      unfold shortNameEntry at hentry
      split at hentry
      · cases hentry
      · next c hc =>
        split at hentry
        · cases hentry
        · next entry harr =>
          cases hentry
          have hname := (h.shortName _ _ harr).2.2 node hlive
          rw [hshort] at hname
          obtain rfl : dash = c := BitVec.eq_of_toNat_eq hname
          -- a dash and the short name `-` are the beginning of a long word
          apply hword
          rw [optIsLong_iff]
          rcases word with _ | ⟨c₀, _ | ⟨c₁, word⟩⟩
          · simp [shortNameFromShortOpt, charAt] at hc
          · simp [shortNameFromShortOpt, charAt, dash] at hc
          · refine ⟨word, ?_⟩
            simp only [charAt, List.cons_append, List.getElem?_cons_zero,
              Option.some.injEq] at hdash
            simp only [shortNameFromShortOpt, charAt, List.cons_append, List.getElem?_cons_succ,
              List.getElem?_cons_zero, Option.some.injEq] at hc
            rw [hdash, hc]

/-- A word that names the option, if there is one. -/
theorem Registry.resolve_of_nameable (h : Registry cli) (hlive : Live cli ref node)
    (hsound : node.Sound) (hname : node.names.Nameable cli.strict) :
    ∃ word, resolve cli word = .ok (some node) := by
  rcases hlong : node.longName with _ | longName
  · have hne : node.shortName ≠ cliOptNoShortName := by simpa [hlong] using hsound.named
    -- a dash before the short name, or anything else where errors are not fatal
    obtain ⟨c, hword, hlookup⟩ : ∃ c, optIsLong [c, node.shortName] = false ∧
        ¬(cli.strict = true ∧ charAt [c, node.shortName] 0 ≠ some dash) := by
      by_cases hdash : node.shortName = dash
      · have hstrict : cli.strict = false := by
          simpa [Names.Nameable, OptNode.names, hlong, hdash] using hname
        refine ⟨0, ?_, by simp [hstrict]⟩
        rw [hdash]
        decide
      · refine ⟨dash, ?_, fun hno => hno.2 rfl⟩
        rw [Bool.eq_false_iff, Ne, optIsLong_iff]
        rintro ⟨name, heq⟩
        exact hdash (List.cons.inj (List.cons.inj heq).2).1
    refine ⟨[c, node.shortName], resolve_eq_some.2 ⟨ref, ?_, hlive⟩⟩
    rw [entryOf_short hword hlookup]
    exact shortNameEntry_eq rfl (h.byShortName ref node hlive hne)
  -- a long name is found behind two dashes
  · exact ⟨_, (resolve_long h hlive).2 ⟨longName, hlong, rfl⟩⟩

theorem resolve_ne_nullAccess (cli : Cli φ) (word : Str) :
    resolve cli word ≠ .error .nullAccess := by
  have hnode (entry : Option ℕ) : nodeOf cli entry ≠ .error .nullAccess := by
    unfold nodeOf
    repeat' split
    all_goals simp
  have hentry : entryOf cli word ≠ .error .nullAccess := by
    unfold entryOf shortNameEntry
    repeat' split
    all_goals simp
  rw [resolve]
  rcases hfound : entryOf cli word with f | entry
  · rw [hfound] at hentry
    simpa [Except.bind] using hentry
  · exact hnode entry

/-- A `NULL` parser is called at a visit. -/
theorem lossAt_nullAccess (h : AllSound cli) (v : Visit δ) :
    lossAt cli v = some (.fault .nullAccess) ↔ ∃ node, resolve cli v.word = .ok (some node) ∧
      node.hasArg = true ∧ v.next ≠ none ∧ ∀ p, node.funcs ≠ .parser (some p) := by
  rw [lossAt]
  rcases hresolve : resolve cli v.word with f | _ | node
  · have hne := resolve_ne_nullAccess cli v.word
    rw [hresolve] at hne
    simpa using hne
  · simp
  · obtain ⟨ref, -, hlive⟩ := resolve_eq_some.1 hresolve
    have hsound := h ref node hlive
    -- the cases in the order in which `cli_match` looks at a node
    rcases hinternal : node.internal with _ | _
    · rcases harg : node.hasArg with _ | _
      · simp [hinternal, harg]
      · rcases hnext : v.next with _ | argStr
        · simp only [hinternal, harg]
          split <;> simp_all
        · rcases hfuncs : node.funcs with _ | (_ | p) | _ <;> simp [hinternal, harg, hfuncs]
    · obtain ⟨hfuncs, harg⟩ := hsound.handled hinternal
      simp [hinternal, harg, cliHandleInternal, hfuncs]

/-- For every registry that can be made: a scan of some `argv` calls a `NULL` parser exactly if an
option that takes an argument and can be named has one. -/
theorem callable_iff (h : Made cli) : Callable cli ↔ ∀ (env : MatchEnv φ δ) (argv : List Str),
    (cliMatch cli env argv).1 ≠ .lost (.fault .nullAccess) := by
  constructor
  · intro hcallable env argv hlost
    -- the scan ends at a word it visits, whose node has no parser
    obtain ⟨v, -, hloss⟩ := ((call_cliMatch h env argv).lost_iff (by simp)).1 hlost
    obtain ⟨node, hresolve, harg, -, hnone⟩ := (lossAt_nullAccess h.allSound v).1 hloss
    obtain ⟨ref, -, hlive⟩ := resolve_eq_some.1 hresolve
    obtain ⟨p, hparser⟩ := hcallable ref node hlive harg (h.registry.nameable_of_resolve hresolve)
    exact hnone p hparser
  · intro hsafe ref node hlive harg hname
    by_contra hnone
    have hsound := h.allSound ref node hlive
    obtain ⟨word, hresolve⟩ := h.registry.resolve_of_nameable hlive hsound hname
    -- the word, and any word behind it
    refine hsafe failingParsers [word, []] ?_
    rw [(call_cliMatch h failingParsers [word, []]).lost_iff (by simp)]
    refine ⟨⟨word, some [], .start⟩, ?_, ?_⟩
    · rw [callVisits, if_neg (by simp [failingParsers]), visits]
      exact List.mem_cons_self
    · rw [lossAt_nullAccess h.allSound]
      exact ⟨node, hresolve, harg, by simp, fun p hparser => hnone ⟨p, hparser⟩⟩

end Calling

section Adding

variable {cli₀ : Cli φ} {ns : List (ℕ × OptNode φ)} {done : List (CliOpt φ)}

/-- A node with its record: the one has to have a parser where the other does. -/
theorem callable_of_copied {opt : CliOpt φ} (hcopy : cliOptNodeFromOpt opt a = .ok (some node))
    (strict : Bool) : (node.hasArg = true → node.names.Nameable strict →
      ∃ p, node.funcs = .parser (some p)) ↔ opt.Callable strict := by
  have hshown := cliOptNodeFromOpt_shown hcopy
  have hlong : node.names.longName = opt.longName := congrArg Shown.longName hshown
  have hshort : node.names.shortName = opt.shortName := congrArg Shown.shortName hshown
  have hflags : node.flags = opt.flags := congrArg Shown.flags hshown
  have hnames : node.names.Nameable strict ↔ opt.names.Nameable strict := by
    rw [Names.Nameable, Names.Nameable, hlong, hshort]
    rfl
  have harg : node.hasArg = true ↔ opt.flags &&& cliOptHasArg ≠ 0 := by
    simp [OptNode.hasArg, hflags]
  -- only a node that takes an argument keeps the parser of its record
  have hfuncs (hflag : opt.flags &&& cliOptHasArg ≠ 0) : node.funcs = .parser opt.parser := by
    unfold cliOptNodeFromOpt at hcopy
    repeat' split at hcopy
    all_goals try cases hcopy
    rfl
  rw [CliOpt.Callable, hnames, harg]
  refine forall_congr' fun hflag => forall_congr' fun _ => ?_
  rw [hfuncs hflag]
  simp [Option.isSome_iff_exists]

/-- The records with the nodes that were made of them. -/
def CopiesOf (done : List (CliOpt φ)) (ns : List (ℕ × OptNode φ)) : Prop :=
  List.Forall₂ (fun opt e => ∃ a, cliOptNodeFromOpt opt a = .ok (some e.2)) done ns

/-- With the nodes `ns` added, the options of their records have to have parsers too. -/
theorem Added.callable_iff (h : Added cli₀ cli ns) (hcopies : CopiesOf done ns)
    (hstrict : cli.strict = cli₀.strict) :
    Callable cli ↔ Callable cli₀ ∧ ∀ o ∈ done, o.Callable cli₀.strict := by
  have hnew : (∀ e ∈ ns, e.2.hasArg = true → e.2.names.Nameable cli₀.strict →
      ∃ p, e.2.funcs = .parser (some p)) ↔ ∀ o ∈ done, o.Callable cli₀.strict := by
    clear h
    induction hcopies with
    | nil => simp
    | @cons opt e done ns hcopy hcopies ih =>
      obtain ⟨a, hcopy⟩ := hcopy
      rw [List.forall_mem_cons, List.forall_mem_cons, ih, callable_of_copied hcopy]
  rw [← hnew, Callable, Callable, hstrict]
  constructor
  · intro hall
    exact ⟨fun ref node hlive => hall ref node ((h.live ref node).2 (.inl hlive)),
      fun e he => hall e.1 e.2 ((h.live e.1 e.2).2 (.inr he))⟩
  · rintro ⟨hold, hadded⟩ ref node hlive
    -- a live node was there before or has been added
    rcases (h.live ref node).1 hlive with hlive | hmem
    · exact hold ref node hlive
    · exact hadded _ hmem

/-- A record is copied without its description exactly if it gets as far as that. -/
theorem addUserOpt_error (h : Registry cli) {opt : CliOpt φ} {f : Fault} :
    addUserOpt cli opt a = .error f ↔
      f = .nullAccess ∧ Reaches opt a ∧ opt.description = none := by
  by_cases hreach : Reaches opt a
  · rw [addUserOpt_of_reaches cli hreach]
    have hshort := (cliOptCheck_spec hreach.2.1).2
    rcases cliOptNodeFromOpt_spec hreach with
      ⟨hdesc, hcopy⟩ | ⟨hdesc, -, hcopy⟩ | ⟨hdesc, -, node, hcopy, -, -, hname, -⟩
    · rw [hcopy]
      simp [hreach, hdesc, eq_comm]
    · rw [hcopy]
      simp [Option.ne_none_iff_isSome.2 hdesc]
    · rw [hcopy]
      rw [← hname] at hshort
      dsimp only
      rcases addNewNode_spec h hshort a with ⟨-, mid, hmid, -⟩ | ⟨-, mid, hmid, -⟩
      · rw [hmid]
        simp [Option.ne_none_iff_isSome.2 hdesc]
      · rw [hmid]
        simp [Option.ne_none_iff_isSome.2 hdesc]
  · rw [addUserOpt_of_not_reaches hreach]
    simp [hreach]

/-- The node that is added for a record is its copy. -/
theorem copied_of_added (h : Registry cli) {opt : CliOpt φ}
    (hadd : addUserOpt cli opt a = .ok (cli', true)) (hlive : Live cli' cli.heap.length node) :
    ∃ a, cliOptNodeFromOpt opt a = .ok (some node) := by
  rcases addUserOpt_copied hadd with ⟨-, hfalse⟩ | ⟨node', -, hshort, hcopy, hnode⟩
  · cases hfalse
  · rcases addNewNode_spec h hshort a with ⟨-, mid, hmid, -, hheap, -⟩ | ⟨-, mid, hmid, -⟩
    · cases hmid.symm.trans hnode
      rcases (live_append hheap).1 hlive with hold | ⟨-, rfl⟩
      · exact absurd hold.lt (Nat.lt_irrefl _)
      · exact ⟨a, hcopy⟩
    · cases hmid.symm.trans hnode

/-- What a call of `cli_add_opts` comes to is safe: it has copied no `NULL`, and no parser that can
be called on the registry it leaves is `NULL`. -/
def Settled (called : Except Fault (Cli φ × Bool)) : Prop :=
  called ≠ .error .nullAccess ∧ ∀ cli' ok, called = .ok (cli', ok) → Callable cli'

theorem settled_ok {ok : Bool} : Settled (.ok (cli, ok)) ↔ Callable cli := by
  constructor
  · exact fun h => h.2 cli ok rfl
  · refine fun h => ⟨nofun, ?_⟩
    rintro _ _ ⟨⟩
    exact h

/-- The call, when the records `done` are added. -/
theorem settled_iff (h₀ : Registry cli₀) (allocs : ℕ → OptAlloc) (opts : List (CliOpt φ))
    (h : Added cli₀ cli ns) (hdone : NodesOf done ns) (hkeeps : KeepsOthers cli₀ cli ns)
    (hcopies : CopiesOf done ns) (hstrict : cli.strict = cli₀.strict) :
    Settled (cliAddOptsLoop allocs cli done opts) ↔
      Callable cli₀ ∧ Provided cli₀ allocs done opts := by
  induction opts generalizing cli done ns with
  | nil => rw [cliAddOptsLoop, settled_ok, h.callable_iff hcopies hstrict, Provided]
  | cons opt opts ih =>
    rw [cliAddOptsLoop, Provided]
    have herror (f : Fault) : addUserOpt cli opt (allocs done.length) = .error f ↔ _ :=
      addUserOpt_error h.registry
    rcases hadd : addUserOpt cli opt (allocs done.length) with f | ⟨mid, ok⟩
    · -- the description is copied, and there is none
      obtain ⟨rfl, hreach, hdesc⟩ := (herror f).1 hadd
      simp [Settled, hreach, hdesc]
    · -- a call that returns has copied a description, if it came to that
      have hdesc : Reaches opt (allocs done.length) → opt.description.isSome = true := by
        intro hreach
        by_contra hnone
        rw [(herror _).2 ⟨rfl, hreach, by simpa using hnone⟩] at hadd
        cases hadd
      rw [and_iff_right hdesc]
      have hmid : mid.strict = cli₀.strict := by
        rw [← hstrict, Cli.strict, Cli.strict, addUserOpt_flags hadd]
      rcases h.addUserOpt hdone hkeeps hadd with
        ⟨rfl, htaken, node, hdone', hadded, hkeeps'⟩ | ⟨rfl, hnot, hadded, harr⟩
      · -- the node that was added is the copy
        have hcopies' : CopiesOf (done ++ [opt]) (ns ++ [(cli.heap.length, node)]) := by
          refine List.rel_append hcopies (.cons ?_ .nil)
          exact copied_of_added h.registry hadd
            ((hadded.live _ _).2 (.inr (List.mem_append_right _ (List.mem_singleton_self _))))
        rw [forall_prop_of_true htaken]
        exact ih hadded hdone' hkeeps' hcopies' hmid
      · -- the rollback leaves the registry of before
        obtain ⟨back, hrollback, hback, -⟩ := rollback_added h₀ hdone hadded
        have hkept : back.strict = cli₀.strict := by
          have hflags : back.flags = mid.flags :=
            rollback_preserves (P := fun c => c.flags = mid.flags)
              (fun hc hcall => (cliRemoveOpt_flags hcall).trans hc) rfl hrollback
          rw [← hmid, Cli.strict, Cli.strict, hflags]
        have hnone : Callable back ↔ Callable cli₀ := by
          simpa using hback.callable_iff .nil hkept
        simp only [hrollback, forall_prop_of_false hnot, and_true]
        exact settled_ok.trans hnone

/-- For every registry that can be made and every array of records: neither the call of
`cli_add_opts` nor a later one copies or prints a `NULL` string or calls a `NULL` parser exactly if
the options of before have parsers, where one can be called, and those of the array are provided for
too. -/
theorem nullSafe_iff (h : Made cli) (opts : List (CliOpt φ)) (allocs : ℕ → OptAlloc) :
    NullSafe δ cli opts allocs ↔ Callable cli ∧ Provided cli allocs [] opts := by
  rw [← settled_iff h.registry allocs opts (added_nil h.registry) .nil (fun _ _ => rfl) .nil rfl,
    ← cliAddOpts]
  have hmade {cli' : Cli φ} {ok : Bool} (hcall : cliAddOpts cli opts allocs = .ok (cli', ok)) :
      Made cli' := .call (.addOpts opts allocs) h (by simp [exec, hcall])
  constructor
  · exact fun hsafe => ⟨hsafe.adds, fun cli' ok hcall =>
      (callable_iff (hmade hcall)).2 (hsafe.scans cli' ok hcall)⟩
  · rintro ⟨hadds, hcallable⟩
    refine ⟨hadds, fun cli' ok hcall => ?_, fun cli' ok _ env argv type val1 val2 he => ?_,
      fun cli' ok _ => cliPrintHelp_safe cli', fun cli' ok hcall => ?_⟩
    · exact (callable_iff (hmade hcall)).1 (hcallable cli' ok hcall)
    · obtain ⟨text, htext⟩ := cliMatch_printable cli' env argv _ he
      simp [htext]
    · obtain ⟨left, hleft, -⟩ := (hmade hcall).registry.cliDestroy
      simp [hleft]

/-- An option with a description and a parser is added to an empty registry. -/
theorem nullSafe_long_name :
    NullSafe Unit (.empty cliStrict) [longNameOpt] (fun _ => .ok) := by
  refine (nullSafe_iff (made_empty (.inr rfl)) _ _).2 ⟨fun ref node hlive => ?_, fun _ => rfl, ?_⟩
  · simp [Live, Cli.empty] at hlive
  · rintro - o ho
    obtain rfl := List.mem_singleton.1 ho
    exact fun _ _ => rfl

/-- A record without a description. -/
def undescribedOpt : CliOpt Unit := { longNameOpt with description := none }

/-- A record without a parser. -/
def parserlessOpt : CliOpt Unit := { longNameOpt with parser := none }

/-- The description that is not there is copied, and the words `--port 80` call the parser that is
not there. -/
theorem not_nullSafe : Made (.empty cliStrict : Cli Unit) ∧
    ¬NullSafe Unit (.empty cliStrict) [undescribedOpt] (fun _ => .ok) ∧
    ¬NullSafe Unit (.empty cliStrict) [parserlessOpt] (fun _ => .ok) := by
  refine ⟨made_empty (.inr rfl), ?_, ?_⟩
  · exact fun h => h.adds rfl
  · intro h
    have hlost : (cliAddOpts (.empty cliStrict) [parserlessOpt] fun _ => .ok).map
        (fun r => (r.2, (cliMatch r.1 (failingParsers : MatchEnv Unit Unit)
          [str "--port", str "80"]).1.loss)) = .ok (true, some (.fault .nullAccess)) := by
      decide +kernel
    rcases hcall : cliAddOpts (.empty cliStrict) [parserlessOpt] (fun _ => .ok) with f | ⟨cli, ok⟩
    · rw [hcall] at hlost
      cases hlost
    · rw [hcall, Except.map, Except.ok.injEq, Prod.mk.injEq] at hlost
      exact h.scans cli ok hcall failingParsers _ (MatchResult.loss_eq_some.1 hlost.2)

end Adding

end Qkmetisc.CommandLine
