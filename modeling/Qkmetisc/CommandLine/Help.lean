import Qkmetisc.CommandLine.Rollback
import Qkmetisc.CommandLine.Words

/-!
# The help text

`cli_print_help` prints a usage line and a line for each description, ring by ring. The function
that prints a name has no return for a short name alone: it goes on to an assertion that always
fails. So the help can be printed exactly if every option has a long name, although the registration
check accepts a short name alone.

The numbers of printed characters, which the functions return, are left out, and writing to the file
does not fail.

## Main definitions

* `cliPrintNodeName`, `cliPrintHelp`: the functions of the source.
* `Registered`: the registries that `cli_create` and successful calls of `cli_add_opts` make, with
  what was registered so far.
* `helpText`: the text that lists the options.

## Main results

* `registered_added`: the rings hold the registered options in their order.
* `printsHelp_iff`: the text is printed exactly if an option is registered and all have long names.
-/

namespace Qkmetisc.CommandLine

variable {φ : Type*} {cli cli' : Cli φ} {node : OptNode φ} {a : OptAlloc}

/-! ## The functions of the source -/

/-- How printing can end without returning. -/
inductive PrintFault where
  | assertFailed
  | fault (f : Fault)
  deriving Repr, DecidableEq

/-- What `%s` prints. -/
def percentS (s : Option Str) : Except PrintFault Str :=
  match s with
  | some s => .ok s
  | none => .error (.fault .nullAccess)

/-- `node->long_name.str`. -/
def OptNode.longNameStr (node : OptNode φ) : Option Str := node.longName.map (·.str)

/-- The second half of `cli_print_node_name`: a long name, without a short one before it. -/
def printLongName (node : OptNode φ) : Except PrintFault Str :=
  if node.longName.isSome then (percentS node.longNameStr).map (str "--" ++ ·)
  -- `assert(0)`
  else .error .assertFailed

/-- `cli_print_node_name`. -/
def cliPrintNodeName (node : OptNode φ) : Except PrintFault Str :=
  if node.shortName ≠ cliOptNoShortName then
    let printed : Str := [dash, node.shortName]
    if node.longName.isSome then
      (percentS node.longNameStr).map fun longName => printed ++ str " --" ++ longName
    -- there is no return for a short name alone
    else (printLongName node).map (printed ++ ·)
  else printLongName node

/-- `cli_print_node_short`. -/
def cliPrintNodeShort (node : OptNode φ) : Except PrintFault Str :=
  (cliPrintNodeName node).map fun printed =>
    if node.hasArg then printed ++ str " <ARG>" else printed

/-- `cli_print_node_long`; a node has a description. -/
def cliPrintNodeLong (node : OptNode φ) : Except PrintFault Str :=
  (cliPrintNodeName node).map fun printed => printed ++ str " - " ++ node.description

/-- `LISTC_FOREACH_START .. LISTC_FOREACH_END` over the rest of a ring, with what the body prints
for a node. -/
def printRing (body : OptNode φ → Except PrintFault Str) (cli : Cli φ) :
    List ℕ → Except PrintFault Str
  | [] => .ok []
  | ref :: refs =>
    match cli.heap[ref]? with
    | some (some node) => do
      let printed ← body node
      let others ← printRing body cli refs
      return printed ++ others
    | _ => .error (.fault .useAfterFree)

/-- The short help of an optional option. -/
def printOptional (node : OptNode φ) : Except PrintFault Str :=
  (cliPrintNodeShort node).map fun printed => str "[ " ++ printed ++ str " ] "

/-- The short help of a required option. -/
def printRequired (node : OptNode φ) : Except PrintFault Str :=
  (cliPrintNodeShort node).map fun printed => printed ++ str " "

/-- The long help of an option. -/
def printDescription (node : OptNode φ) : Except PrintFault Str :=
  (cliPrintNodeLong node).map fun printed => printed ++ str "\n\t"

/-- `cli_print_help`: what it prints. -/
def cliPrintHelp (cli : Cli φ) (appName : Str) : Except PrintFault Str :=
  if cli.optionalOpts = [] ∧ cli.requiredOpts = [] then .ok []
  else do
    let optional ← printRing printOptional cli cli.optionalOpts
    let required ← printRing printRequired cli cli.requiredOpts
    let optionalLong ← printRing printDescription cli cli.optionalOpts
    let requiredLong ← printRing printDescription cli cli.requiredOpts
    return str "Usage: " ++ appName ++ str " " ++ optional ++ required ++ str "\n\n\t" ++
      optionalLong ++ requiredLong ++ str "\n"

/-! ## What is to be printed -/

/-- What the help tells of an option. -/
structure Shown where
  shortName : BitVec 8
  longName : Option Str
  flags : OptFlags
  description : Str

/-- What a record tells of its option. -/
def CliOpt.shown (opt : CliOpt φ) : Shown where
  shortName := opt.shortName
  longName := opt.longName
  flags := opt.flags
  description := opt.description.getD []

/-- What a node tells of its option. -/
def OptNode.shown (node : OptNode φ) : Shown where
  shortName := node.shortName
  longName := node.longName.map (·.str)
  flags := node.flags
  description := node.description

/-- The option that `cli_create` registers with `CLI_AUTO_HELP`. -/
def autoHelpShown : Shown where
  shortName := BitVec.ofNat 8 'h'.toNat
  longName := some (str "help")
  flags := cliOptInternal
  description := str "show this text"

/-- The registries that `cli_create` and successful calls of `cli_add_opts` make, with the options
registered so far. -/
inductive Registered : Cli φ → List Shown → Prop
  | create {flags : BitVec 64} {a : CreateAlloc} {cli : Cli φ}
    (h : cliCreate flags a = .ok (some cli)) :
    Registered cli (if flags &&& cliAutoHelp ≠ 0 then [autoHelpShown] else [])
  | addOpts {cli cli' : Cli φ} {es : List Shown} {opts : List (CliOpt φ)} {allocs : ℕ → OptAlloc}
    (h : Registered cli es) (hcall : cliAddOpts cli opts allocs = .ok (cli', true)) :
    Registered cli' (es ++ opts.map CliOpt.shown)

namespace Shown

/-- All the names of an option. -/
def names (e : Shown) : Str :=
  match decide (e.shortName = cliOptNoShortName), e.longName with
  | false, some longName => [dash, e.shortName] ++ str " --" ++ longName
  | false, none => [dash, e.shortName]
  | true, some longName => str "--" ++ longName
  | true, none => []

/-- The names, with a marker if the option takes an argument. -/
def usage (e : Shown) : Str :=
  if e.flags &&& cliOptHasArg ≠ 0 then e.names ++ str " <ARG>" else e.names

/-- Whether the option has to be given. -/
def required (e : Shown) : Bool := e.flags &&& cliOptRequired ≠ 0

/-- The place of an optional option in the usage line. -/
def bracketed (e : Shown) : Str := str "[ " ++ e.usage ++ str " ] "

/-- The place of a required option in the usage line. -/
def plain (e : Shown) : Str := e.usage ++ str " "

/-- The line of an option's description. -/
def line (e : Shown) : Str := e.names ++ str " - " ++ e.description ++ str "\n\t"

end Shown

/-- The options of one group, in their order. -/
def group (es : List Shown) (required : Bool) : List Shown :=
  es.filter fun e => e.required = required

/-- The help text for some options. -/
def helpText (appName : Str) (es : List Shown) : Str :=
  str "Usage: " ++ appName ++ str " " ++ (group es false).flatMap Shown.bracketed ++
    (group es true).flatMap Shown.plain ++ str "\n\n\t" ++ (group es false).flatMap Shown.line ++
    (group es true).flatMap Shown.line ++ str "\n"

section Names

theorem printLongName_eq {longName : HashStr} (h : node.longName = some longName) :
    printLongName node = .ok (str "--" ++ longName.str) := by
  rw [printLongName, OptNode.longNameStr, h]
  rfl

/-- A node with a long name has all its names printed. -/
theorem cliPrintNodeName_eq (h : node.shown.longName.isSome = true) :
    cliPrintNodeName node = .ok node.shown.names := by
  obtain ⟨longName, hlong⟩ : ∃ longName, node.longName = some longName := by
    apply Option.isSome_iff_exists.1
    simpa [OptNode.shown] using h
  rw [cliPrintNodeName, Shown.names]
  by_cases hshort : node.shortName = cliOptNoShortName
  · rw [if_neg (not_not.2 hshort), printLongName_eq hlong]
    simp [OptNode.shown, hshort, hlong]
  · rw [if_pos hshort, OptNode.longNameStr, hlong]
    simp [OptNode.shown, hshort, hlong, percentS, Except.map]

/-- Without a long name the assertion is reached, with a short name or without. -/
theorem cliPrintNodeName_assert (h : node.shown.longName.isSome = false) :
    cliPrintNodeName node = .error .assertFailed := by
  have hlong : node.longName = none := by
    apply Option.not_isSome_iff_eq_none.1
    simpa [OptNode.shown] using h
  rw [cliPrintNodeName, printLongName, hlong]
  split <;> rfl

/-- What is printed for a node whose names can be printed. -/
def Prints (body : OptNode φ → Except PrintFault Str) (text : Shown → Str) : Prop :=
  ∀ node, body node = (cliPrintNodeName node).map fun _ => text node.shown

theorem prints_of_names {body : OptNode φ → Except PrintFault Str} {text : Shown → Str}
    {f : OptNode φ → Str → Str} (hbody : ∀ node, body node = (cliPrintNodeName node).map (f node))
    (htext : ∀ node : OptNode φ, f node node.shown.names = text node.shown) : Prints body text := by
  intro node
  rw [hbody]
  rcases hlong : node.shown.longName.isSome with _ | _
  · rw [cliPrintNodeName_assert hlong]
    rfl
  · rw [cliPrintNodeName_eq hlong]
    exact congrArg Except.ok (htext node)

theorem usage_shown (node : OptNode φ) : node.shown.usage =
    if node.hasArg then node.shown.names ++ str " <ARG>" else node.shown.names := by
  simp only [OptNode.hasArg, decide_eq_true_eq]
  rfl

theorem except_map_map {ε α β γ : Type*} (x : Except ε α) (f : α → β) (g : β → γ) :
    (x.map f).map g = x.map fun v => g (f v) := by
  rcases x with e | v <;> rfl

theorem prints_optional : Prints (φ := φ) printOptional Shown.bracketed := by
  apply prints_of_names
  · intro node
    rw [printOptional, cliPrintNodeShort, except_map_map]
  · intro node
    rw [Shown.bracketed, usage_shown]

theorem prints_required : Prints (φ := φ) printRequired Shown.plain := by
  apply prints_of_names
  · intro node
    rw [printRequired, cliPrintNodeShort, except_map_map]
  · intro node
    rw [Shown.plain, usage_shown]

theorem prints_description : Prints (φ := φ) printDescription Shown.line := by
  apply prints_of_names
  · intro node
    rw [printDescription, cliPrintNodeLong, except_map_map]
  · intro node
    rfl

end Names

section Rings

variable {body : OptNode φ → Except PrintFault Str} {text : Shown → Str} {es : List (ℕ × OptNode φ)}

/-- A ring whose nodes all have long names is printed node by node. -/
theorem printRing_eq (hprints : Prints body text) (hlive : ∀ e ∈ es, Live cli e.1 e.2)
    (hlong : ∀ e ∈ es, e.2.shown.longName.isSome = true) :
    printRing body cli (es.map Prod.fst) = .ok ((es.map fun e => e.2.shown).flatMap text) := by
  induction es with
  | nil => rfl
  | cons e es ih =>
    have hnode : cli.heap[e.1]? = some (some e.2) := hlive e List.mem_cons_self
    have hbody : body e.2 = .ok (text e.2.shown) := by
      rw [hprints, cliPrintNodeName_eq (hlong e List.mem_cons_self)]
      rfl
    have ih := ih (fun e he => hlive e (List.mem_cons_of_mem _ he))
      (fun e he => hlong e (List.mem_cons_of_mem _ he))
    simp only [List.map_cons, List.flatMap_cons, printRing, hnode, hbody, ih]
    rfl

/-- A ring that is printed has long names only. -/
theorem longName_of_printRing (hprints : Prints body text) (hlive : ∀ e ∈ es, Live cli e.1 e.2)
    {printed : Str} (h : printRing body cli (es.map Prod.fst) = .ok printed) :
    ∀ e ∈ es, e.2.shown.longName.isSome = true := by
  induction es generalizing printed with
  | nil => simp
  | cons e es ih =>
    have hnode : cli.heap[e.1]? = some (some e.2) := hlive e List.mem_cons_self
    simp only [List.map_cons, printRing, hnode] at h
    rcases hlong : e.2.shown.longName.isSome with _ | _
    · rw [hprints, cliPrintNodeName_assert hlong] at h
      cases h
    · rw [hprints, cliPrintNodeName_eq hlong] at h
      rcases hothers : printRing body cli (es.map Prod.fst) with f | others
      · rw [hothers] at h
        cases h
      · have ih := ih (fun e he => hlive e (List.mem_cons_of_mem _ he)) hothers
        intro e' he'
        rcases List.mem_cons.1 he' with rfl | he'
        · exact hlong
        · exact ih e' he'

end Rings

section Registered

variable {es : List Shown}

theorem cliOptNodeFromOpt_shown {opt : CliOpt φ} (h : cliOptNodeFromOpt opt a = .ok (some node)) :
    node.shown = opt.shown := by
  unfold cliOptNodeFromOpt at h
  repeat' split at h
  all_goals try cases h
  all_goals simp [OptNode.shown, CliOpt.shown, Function.comp_def, HashStr.fromStr, *]

/-- An element of an array is refused, or its node is made and added. -/
theorem addUserOpt_copied {opt : CliOpt φ} {ok : Bool}
    (hcall : addUserOpt cli opt a = .ok (cli', ok)) :
    (cli' = cli ∧ ok = false) ∨ ∃ node, Reaches opt a ∧ node.shortName.toNat < UCHAR_MAX ∧
      cliOptNodeFromOpt opt a = .ok (some node) ∧ addNewNode cli node a = .ok (cli', ok) := by
  by_cases hreach : Reaches opt a
  · rw [addUserOpt_of_reaches cli hreach] at hcall
    rcases hcopy : cliOptNodeFromOpt opt a with e | _ | node
    · rw [hcopy] at hcall
      cases hcall
    · rw [hcopy] at hcall
      cases hcall
      exact .inl ⟨rfl, rfl⟩
    · rw [hcopy] at hcall
      have hshort := (cliOptCheck_spec hreach.2.1).2
      have hsame : node.shortName = opt.shortName :=
        congrArg Shown.shortName (cliOptNodeFromOpt_shown hcopy)
      rw [← hsame] at hshort
      exact .inr ⟨node, hreach, hshort, rfl, hcall⟩
  · rw [addUserOpt_of_not_reaches hreach] at hcall
    cases hcall
    exact .inl ⟨rfl, rfl⟩

/-- One more option is registered behind the others. -/
theorem Added.addNewNode {cli₀ : Cli φ} {ns : List (ℕ × OptNode φ)} (h : Added cli₀ cli ns)
    (hshort : node.shortName.toNat < UCHAR_MAX) (hcall : addNewNode cli node a = .ok (cli', true)) :
    Added cli₀ cli' (ns ++ [(cli.heap.length, node)]) := by
  rcases addNewNode_spec h.registry hshort a with
    ⟨-, mid, hmid, hregistry, hheap, -⟩ | ⟨-, mid, hmid, -⟩
  · cases hmid.symm.trans hcall
    apply h.concat hregistry hheap
    intro required
    simpa using addNewNode_ring hcall required
  · cases hmid.symm.trans hcall

/-- A call of `cli_add_opts` that succeeds adds its options behind the others. -/
theorem Added.cliAddOptsLoop {cli₀ : Cli φ} {ns : List (ℕ × OptNode φ)} {allocs : ℕ → OptAlloc}
    {done opts : List (CliOpt φ)} (h : Added cli₀ cli ns)
    (hcall : cliAddOptsLoop allocs cli done opts = .ok (cli', true)) :
    ∃ added, Added cli₀ cli' (ns ++ added) ∧
      added.map (fun e => e.2.shown) = opts.map CliOpt.shown := by
  induction opts generalizing cli ns done with
  | nil =>
    cases hcall
    exact ⟨[], by simpa using h, rfl⟩
  | cons opt opts ih =>
    rw [CommandLine.cliAddOptsLoop] at hcall
    rcases hadd : CommandLine.addUserOpt cli opt (allocs done.length) with e | ⟨mid, _ | _⟩
    · rw [hadd] at hcall
      cases hcall
    · rw [hadd] at hcall
      rcases hback : rollback mid done with e | back
      · simp [hback] at hcall
        cases hcall
      · simp [hback, Except.map] at hcall
    · rw [hadd] at hcall
      rcases addUserOpt_copied hadd with ⟨-, hfalse⟩ | ⟨node, -, hshort, hcopy, hnode⟩
      · cases hfalse
      · obtain ⟨added, hadded, hmap⟩ := ih (h.addNewNode hshort hnode) hcall
        refine ⟨(cli.heap.length, node) :: added, ?_, ?_⟩
        · simpa using hadded
        · rw [List.map_cons, List.map_cons, hmap, cliOptNodeFromOpt_shown hcopy]

/-- The rings hold the registered options in their order. -/
theorem registered_added (h : Registered cli es) :
    ∃ (flags : BitVec 64) (ns : List (ℕ × OptNode φ)),
      Added (.empty flags) cli ns ∧ ns.map (fun e => e.2.shown) = es := by
  induction h with
  | @create flags a cli h =>
    have hempty := added_nil (@registry_empty φ flags).1
    rcases cliCreate_cases h with ⟨hhelp, rfl⟩ | ⟨hhelp, hmade⟩
    · refine ⟨flags, [], hempty, ?_⟩
      rw [if_neg (not_not.2 hhelp)]
      rfl
    · refine ⟨flags, _, hempty.addNewNode autoHelpNode_shortName hmade, ?_⟩
      rw [if_pos hhelp]
      rfl
  | @addOpts cli cli' es opts allocs _ hcall ih =>
    obtain ⟨flags, ns, hadded, rfl⟩ := ih
    obtain ⟨added, hadded', hmap⟩ := hadded.cliAddOptsLoop hcall
    exact ⟨flags, ns ++ added, hadded', by rw [List.map_append, hmap]⟩

/-- The registry `cli` has the nodes `ns`, in the order in which they were registered. -/
structure InRings (cli : Cli φ) (ns : List (ℕ × OptNode φ)) : Prop where
  ring : ∀ required, cli.ring required =
    (ns.filter fun e => e.2.required = required).map Prod.fst
  live : ∀ e ∈ ns, Live cli e.1 e.2

namespace InRings

variable {ns : List (ℕ × OptNode φ)} {body : OptNode φ → Except PrintFault Str} {text : Shown → Str}

theorem group_eq (ns : List (ℕ × OptNode φ)) (required : Bool) :
    group (ns.map fun e => e.2.shown) required =
      (ns.filter fun e => e.2.required = required).map fun e => e.2.shown := by
  rw [group, List.filter_map]
  rfl

theorem live_filter (h : InRings cli ns) (required : Bool) :
    ∀ e ∈ ns.filter fun e => e.2.required = required, Live cli e.1 e.2 :=
  fun e he => h.live e (List.mem_filter.1 he).1

/-- A group is printed if all its options have long names. -/
theorem printRing_group (h : InRings cli ns) (hprints : Prints body text)
    (hlong : ∀ e ∈ ns, e.2.shown.longName.isSome = true) (required : Bool) :
    printRing body cli (cli.ring required) =
      .ok ((group (ns.map fun e => e.2.shown) required).flatMap text) := by
  rw [h.ring, group_eq]
  exact printRing_eq hprints (h.live_filter required) fun e he => hlong e (List.mem_filter.1 he).1

/-- A group that is printed has long names only. -/
theorem longName_of_group (h : InRings cli ns) (hprints : Prints body text) {required : Bool}
    {printed : Str} (hprinted : printRing body cli (cli.ring required) = .ok printed) :
    ∀ e ∈ ns, e.2.required = required → e.2.shown.longName.isSome = true := by
  rw [h.ring] at hprinted
  intro e he hrequired
  apply longName_of_printRing hprints (h.live_filter required) hprinted
  simpa [hrequired] using he

/-- Both rings are empty only without options. -/
theorem rings_eq_nil (h : InRings cli ns) :
    cli.ring false = [] ∧ cli.ring true = [] ↔ ns = [] := by
  rw [h.ring, h.ring, List.map_eq_nil_iff, List.map_eq_nil_iff, List.filter_eq_nil_iff,
    List.filter_eq_nil_iff]
  constructor
  · rintro ⟨hoptional, hrequired⟩
    apply List.eq_nil_iff_forall_not_mem.2
    intro e he
    rcases hflag : e.2.required with _ | _
    · exact hoptional e he (by simpa using hflag)
    · exact hrequired e he (by simpa using hflag)
  · rintro rfl
    simp

end InRings

/-- The rings hold the registered options in their order. -/
theorem Registered.inRings (h : Registered cli es) :
    ∃ ns : List (ℕ × OptNode φ), InRings cli ns ∧ ns.map (fun e => e.2.shown) = es := by
  obtain ⟨flags, ns, hadded, hes⟩ := registered_added h
  refine ⟨ns, ⟨fun required => ?_, fun e he => (hadded.live e.1 e.2).2 (.inr he)⟩, hes⟩
  rw [hadded.ring]
  rcases required with _ | _ <;> rfl

/-- For every registry that `cli_create` and successful calls of `cli_add_opts` make: the help text
is printed, and no assertion fails, exactly if an option is registered and every registered option
has a long name. -/
theorem printsHelp_iff (h : Registered cli es) (appName : Str) :
    cliPrintHelp cli appName = .ok (helpText appName es) ↔
      es ≠ [] ∧ ∀ e ∈ es, e.longName.isSome = true := by
  obtain ⟨ns, hrings, rfl⟩ := h.inRings
  have hopt : cli.optionalOpts = cli.ring false := rfl
  have hreq : cli.requiredOpts = cli.ring true := rfl
  rw [cliPrintHelp, hopt, hreq, List.forall_mem_map, Ne, List.map_eq_nil_iff,
    ← hrings.rings_eq_nil]
  split
  · next hnone =>
    -- nothing is registered, and nothing printed
    have hne : str "Usage: " ≠ [] := by decide
    simp [hnone, helpText, hne]
  · next hsome =>
    constructor
    · intro hprinted
      refine ⟨hsome, fun e he => ?_⟩
      rcases hoptional : printRing printOptional cli (cli.ring false) with f | optional
      · rw [hoptional] at hprinted
        cases hprinted
      rcases hrequired : printRing printRequired cli (cli.ring true) with f | required
      · rw [hoptional, hrequired] at hprinted
        cases hprinted
      rcases hflag : e.2.required with _ | _
      · exact hrings.longName_of_group prints_optional hoptional e he hflag
      · exact hrings.longName_of_group prints_required hrequired e he hflag
    · rintro ⟨-, hlong⟩
      rw [hrings.printRing_group prints_optional hlong,
        hrings.printRing_group prints_required hlong,
        hrings.printRing_group prints_description hlong,
        hrings.printRing_group prints_description hlong]
      rfl

/-- Options with and without an argument, optional and required. -/
def helpOpts : List (CliOpt Unit) :=
  [mainOpt "log_lvl" "log-lvl" 'l' "Verbosity level",
    { mainOpt "port" "port" 'p' "Port listen to" with flags := cliOptHasArg ||| cliOptRequired },
    { mainOpt "daemon" "daemon" 'd' "Run in the background" with flags := 0, parser := none },
    { mainOpt "plot" "plot" 't' "Tasks to give" with
      shortName := cliOptNoShortName, flags := cliOptRequired, parser := none }]

/-- What the help tells of them and of the option that `main` has for the help. -/
def helpShown : List Shown := [autoHelpShown] ++ helpOpts.map CliOpt.shown

/-- Four options beside the one for the help. -/
theorem printsHelp_helpOpts : ∃ cli, cliAddOpts mainCli helpOpts (fun _ => .ok) = .ok (cli, true) ∧
    Registered cli helpShown ∧
      cliPrintHelp cli (str "qkmetisc") = .ok (helpText (str "qkmetisc") helpShown) := by
  have hadded : ((cliAddOpts mainCli helpOpts fun _ => .ok).map Prod.snd).toOption = some true := by
    decide +kernel
  rcases hcall : cliAddOpts mainCli helpOpts (fun _ => .ok) with e | ⟨cli, ok⟩
  · rw [hcall] at hadded
    cases hadded
  · rw [hcall] at hadded
    obtain rfl : ok = true := Option.some.inj hadded
    have hregistered : Registered cli helpShown := .addOpts (.create cliCreate_mainCli) hcall
    refine ⟨cli, rfl, hregistered, (printsHelp_iff hregistered _).2 ⟨List.cons_ne_nil _ _, ?_⟩⟩
    decide

example : helpText (str "qkmetisc") helpShown =
    str "Usage: qkmetisc [ -h --help ] [ -l --log-lvl <ARG> ] [ -d --daemon ] " ++
      str "-p --port <ARG> --plot \n\n\t-h --help - show this text\n\t" ++
      str "-l --log-lvl - Verbosity level\n\t-d --daemon - Run in the background\n\t" ++
      str "-p --port - Port listen to\n\t--plot - Tasks to give\n\t\n" := by
  decide +kernel

/-- An option with a short name only. -/
def shortNameOpt : CliOpt Unit where
  id := some (str "port")
  longName := none
  shortName := BitVec.ofNat 8 'p'.toNat
  flags := 0
  parser := none
  description := some (str "Port listen to")

/-- After the option `-p` was registered, printing the help ends in the assertion. -/
theorem not_printsHelp : ¬∀ (cli : Cli Unit) (es : List Shown) (appName : Str), Registered cli es →
    cliPrintHelp cli appName = .ok (helpText appName es) := by
  intro h
  have hfails : ((cliAddOpts (.empty cliStrict) [shortNameOpt] fun _ => .ok).map fun r =>
      (r.2, cliPrintHelp r.1 (str "qkmetisc"))).toOption =
        some (true, .error .assertFailed) := by
    decide +kernel
  rcases hcall : cliAddOpts (.empty cliStrict) [shortNameOpt] (fun _ => .ok) with e | ⟨cli, ok⟩
  · rw [hcall] at hfails
    cases hfails
  · rw [hcall] at hfails
    obtain ⟨rfl, hassert⟩ : ok = true ∧
        cliPrintHelp cli (str "qkmetisc") = .error .assertFailed := by
      simpa [Except.map, Except.toOption] using hfails
    have hcreate : cliCreate cliStrict .ok = .ok (some (Cli.empty cliStrict : Cli Unit)) := rfl
    have hprinted := h cli _ (str "qkmetisc") (.addOpts (.create hcreate) hcall)
    rw [hassert] at hprinted
    cases hprinted

end Registered

end Qkmetisc.CommandLine
