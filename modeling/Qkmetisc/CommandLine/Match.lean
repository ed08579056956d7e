import Qkmetisc.CommandLine.Registry

/-!
# Matching the arguments (`cli_match` of `cli.c`)

`cli_match` goes over the words of `argv`, finds the option that each word in option position
names, has its argument parsed and stores it. `argv` is the list of the words before the
terminating `NULL`. What happens on the way that a caller could observe (the calls of the error
callback and of the destructors of arguments) is kept in a log.

The nodes of a match are known by their place in its ring, as no node ever leaves it. Parsed
values are opaque, in an arbitrary type `δ`. Parsers need not be functions of the word: they are
told how many words the scan has seen before.

## Main definitions

* `CliMatch`, `MatchEnv`, `Scan`: a match, the environment, and the state of the scan.
* `cliMatchAddNode`, `findOpt`, `scanWord`, `cliMatchCheckRequired`, `cliMatch`,
  `cliMatchGetArg`: the functions of the source.
* `Made`: the registries that can be made.
-/

namespace Qkmetisc.CommandLine

/-- `struct cli_opt_arg`. -/
structure OptArg (δ : Type*) where
  data : δ
  /-- `data_free` is not `NULL`. -/
  dataFree : Bool

/-- `struct cli_match_node`. An argument is none where the memory was never written. -/
structure MatchNode (δ : Type*) where
  id : HashStr
  args : List (Option (OptArg δ))
  argsNr : ℕ

/-- `struct cli_match`: the ring of nodes, and the table, which refers to places in it. -/
structure CliMatch (δ : Type*) where
  nodes : List (MatchNode δ)
  nodesByIdHt : HashTable HashStr ℕ

/-- `enum cli_opt_error_type`. -/
inductive OptErrorType where
  | unknownOpt
  | optNoArg
  | optFailedToParseArg
  | optRepeatNoAppend
  | requiredNotPresent
  deriving DecidableEq, Repr

/-- What a caller can observe of a match. -/
inductive MatchEvent (δ : Type*) where
  /-- The error callback was called. -/
  | error (type : OptErrorType) (val1 val2 : Option Str)
  /-- `cli_opt_arg_destruct` was called. -/
  | destructed (arg : Option (OptArg δ))

/-- Which allocations succeed while a node is added for an option: the node, its copy of the id,
its entry in the table, and its argument. -/
structure MatchAlloc where
  node : Bool
  id : Bool
  entry : Bool
  arg : Bool

/-- What the parsers and the allocator answer during one call of `cli_match`. An allocation is
answered by what it is for. -/
structure MatchEnv (φ δ : Type*) where
  /-- `malloc` of the match, and of its table. -/
  mallocMatch : Bool
  mallocTable : Bool
  /-- The allocations for the node of the option with this id. -/
  alloc : Str → MatchAlloc
  /-- `malloc` for one more argument of the option with this id, which has so many. -/
  allocArg : Str → ℕ → Bool
  /-- What a parser makes of a word, when the scan has seen so many words; none if it fails. -/
  parse : ℕ → φ → Str → Option (OptArg δ)

/-- How the scan of `argv` can end before its `NULL`. -/
inductive ScanEnd where
  /-- The label `destroy_match`. -/
  | destroyMatch
  /-- The handler of an internal option has ended the process. -/
  | exited
  /-- A slot of `argv` after the `NULL` is read. -/
  | beyondArgv
  | fault (f : Fault)
  deriving DecidableEq, Repr

/-- The state of the scan. -/
structure Scan (δ : Type*) where
  /-- The match so far. -/
  found : CliMatch δ
  log : List (MatchEvent δ)
  /-- The words that have been in option position. The source does not keep them. -/
  words : List Str

/-- What a part of `cli_match` comes to: it goes on with a result, or leaves the loop. -/
inductive Outcome (δ α : Type*) where
  | go (a : α) (s : Scan δ)
  | stop (e : ScanEnd) (s : Scan δ)

/-- One part after another. -/
def Outcome.bind {δ α β : Type*} (o : Outcome δ α) (f : α → Scan δ → Outcome δ β) : Outcome δ β :=
  match o with
  | .go a s => f a s
  | .stop e s => .stop e s

@[simp]
theorem Outcome.bind_go {δ α β : Type*} (a : α) (s : Scan δ) (f : α → Scan δ → Outcome δ β) :
    (Outcome.go a s).bind f = f a s := rfl

@[simp]
theorem Outcome.bind_stop {δ α β : Type*} (e : ScanEnd) (s : Scan δ)
    (f : α → Scan δ → Outcome δ β) : (Outcome.stop e s : Outcome δ α).bind f = .stop e s := rfl

variable {φ δ : Type*}

/-- The state after an event. -/
def Scan.observe (s : Scan δ) (e : MatchEvent δ) : Scan δ := { s with log := s.log ++ [e] }

/-! ## Storing an argument -/

/-- `CLI_MATCH_NODES_BY_ID_HT_SIZE`. -/
def cliMatchNodesByIdHtSize : ℕ := 256

/-- `cli_match_create`, when its allocations succeed. -/
def cliMatchCreate : CliMatch δ where
  nodes := []
  nodesByIdHt := .create cliHashStrCmp cliMatchNodesByIdHtSize

/-- `cli_match_node_add_arg`: none if `malloc` fails. -/
def cliMatchNodeAddArg (node : MatchNode δ) (arg : Option (OptArg δ)) (malloc : Bool) :
    Option (MatchNode δ) :=
  if malloc = false then none
  else some { node with args := node.args ++ [arg], argsNr := node.argsNr + 1 }

/-- `cli_match_add_node`: the match and whether the call returned 0. -/
def cliMatchAddNode (m : CliMatch δ) (id : HashStr) (arg : Option (OptArg δ)) (a : MatchAlloc) :
    CliMatch δ × Bool :=
  if a.node = false then (m, false)
  else if a.id = false then (m, false)
  else
    match m.nodesByIdHt.insert (some m.nodes.length) id id.key a.entry with
    | none => (m, false)
    | some ht =>
      -- `cli_match` always passes an argument, written or not
      match cliMatchNodeAddArg { id, args := [], argsNr := 0 } arg a.arg with
      | none =>
        match ht.remove id id.key with
        | none => ({ m with nodesByIdHt := ht }, false)
        | some (ht, _) => ({ m with nodesByIdHt := ht }, false)
      | some node => ({ nodes := m.nodes ++ [node], nodesByIdHt := ht }, true)

/-- One more argument for the node at a place of the ring; none if `malloc` fails. -/
def addArgAt (m : CliMatch δ) (place : ℕ) (arg : Option (OptArg δ)) (malloc : ℕ → Bool) :
    Option (CliMatch δ) :=
  match m.nodes[place]? with
  | none => none
  | some node =>
    (cliMatchNodeAddArg node arg (malloc node.argsNr)).map fun node =>
      { m with nodes := m.nodes.set place node }

/-! ## One word -/

/-- Whether errors are fatal. -/
def Cli.strict (cli : Cli φ) : Bool := cli.flags &&& cliStrict ≠ 0

/-- `if ( cli_print_error(..) ) goto destroy_match`. -/
def cliPrintError (cli : Cli φ) (type : OptErrorType) (val1 val2 : Option Str) (s : Scan δ) :
    Outcome δ Unit :=
  let s := s.observe (.error type val1 val2)
  if cli.strict then .stop .destroyMatch s else .go () s

/-- `opt_is_long`. -/
def optIsLong (opt : Str) : Bool := (str "--").isPrefixOf opt

/-- `long_name_from_long_opt`. -/
def longNameFromLongOpt (opt : Str) : Str := opt.drop 2

/-- A character of a string: the NUL after the last one can be read, and nothing after that. -/
def charAt (s : Str) (i : ℕ) : Option (BitVec 8) := (s ++ [0])[i]?

/-- `short_name_from_short_opt`, as an `unsigned char`. -/
def shortNameFromShortOpt (opt : Str) : Option (BitVec 8) := charAt opt 1

/-- The branch of the loop for a long option: the reference to its node. -/
def findLong (cli : Cli φ) (opt : Str) (s : Scan δ) : Outcome δ (Option ℕ) :=
  let hs := HashStr.fromStr (longNameFromLongOpt opt)
  match cli.optsByLongNameHt.get hs hs.key with
  | some ref => .go (some ref) s
  | none => (cliPrintError cli .unknownOpt opt none s).bind fun _ s => .go none s

/-- `cli->opts_by_short_name_arr[short_name]`. -/
def shortNameEntry (cli : Cli φ) (opt : Str) : Except Fault (Option ℕ) :=
  match shortNameFromShortOpt opt with
  | none => .error .outOfBounds
  | some c =>
    match cli.optsByShortNameArr[c.toNat]? with
    | none => .error .outOfBounds
    | some entry => .ok entry

/-- `'-'`. -/
def dash : BitVec 8 := BitVec.ofNat 8 '-'.toNat

/-- The branch of the loop for all other words. -/
def findShort (cli : Cli φ) (opt : Str) (s : Scan δ) : Outcome δ (Option ℕ) :=
  let checked : Outcome δ Unit :=
    if charAt opt 0 ≠ some dash then cliPrintError cli .unknownOpt opt none s
    else .go () s
  -- where errors are not fatal, the word is looked up all the same
  checked.bind fun _ s =>
    match shortNameEntry cli opt with
    | .error f => .stop (.fault f) s
    | .ok entry => .go entry s

/-- The node of the option that a word names, none after an error that is not fatal. -/
def findOpt (cli : Cli φ) (opt : Str) (s : Scan δ) : Outcome δ (Option (OptNode φ)) :=
  (if optIsLong opt then findLong cli opt s else findShort cli opt s).bind fun entry s =>
    match entry with
    | none => (cliPrintError cli .unknownOpt opt none s).bind fun _ s => .go none s
    | some ref =>
      match cli.heap[ref]? with
      | some (some node) => .go (some node) s
      | _ => .stop (.fault .useAfterFree) s

/-- `cli_handle_internal`: the one handler there is prints the help and ends the process. -/
def cliHandleInternal (node : OptNode φ) : ScanEnd :=
  match node.funcs with
  | .handler => .exited
  | _ => .fault .nullAccess

/-- `cli_opt_node_has_arg`. -/
def OptNode.hasArg (node : OptNode φ) : Bool := node.flags &&& cliOptHasArg ≠ 0

/-- `opt_node->flags & CLI_OPT_APPEND`. -/
def OptNode.append (node : OptNode φ) : Bool := node.flags &&& cliOptAppend ≠ 0

/-- `opt_node->flags & CLI_OPT_INTERNAL`. -/
def OptNode.internal (node : OptNode φ) : Bool := node.flags &&& cliOptInternal ≠ 0

/-- The part of the loop that has an argument parsed; `next` is the slot of `argv` after the
option. None after an error that is not fatal. -/
def parseArg (cli : Cli φ) (env : MatchEnv φ δ) (node : OptNode φ) (opt : Str)
    (next : Option Str) (s : Scan δ) : Outcome δ (Option (OptArg δ)) :=
  match next with
  | none => (cliPrintError cli .optNoArg opt none s).bind fun _ s => .go none s
  | some argStr =>
    match node.funcs with
    | .parser (some p) =>
      match env.parse (s.words.length - 1) p argStr with
      | some arg => .go (some arg) s
      | none => (cliPrintError cli .optFailedToParseArg opt argStr s).bind fun _ s => .go none s
    | _ => .stop (.fault .nullAccess) s

/-- `if ( opt_node_has_arg ) cli_opt_arg_destruct(&arg)`. -/
def destructArg (node : OptNode φ) (arg : Option (OptArg δ)) (s : Scan δ) : Scan δ :=
  if node.hasArg then s.observe (.destructed arg) else s

/-- The rest of the loop's body, which stores the argument. -/
def storeArg (cli : Cli φ) (env : MatchEnv φ δ) (node : OptNode φ) (opt : Str)
    (arg : Option (OptArg δ)) (s : Scan δ) : Outcome δ Unit :=
  match s.found.nodesByIdHt.get node.id node.id.key with
  | some place =>
    if node.append then
      match addArgAt s.found place arg (env.allocArg node.id.str) with
      | none => .stop .destroyMatch s
      | some found => .go () { s with found }
    else
      match cliPrintError cli .optRepeatNoAppend opt none s with
      | .stop e s => .stop e (destructArg node arg s)
      -- the argument is not released here
      | .go _ s => .go () s
  | none =>
    match cliMatchAddNode s.found node.id arg (env.alloc node.id.str) with
    | (found, true) => .go () { s with found }
    | (found, false) => .stop .destroyMatch (destructArg node arg { s with found })

/-- The loop's body after the node was found. The result tells whether `argv` was advanced. -/
def scanOpt (cli : Cli φ) (env : MatchEnv φ δ) (node : OptNode φ) (opt : Str)
    (next : Option Str) (s : Scan δ) : Outcome δ Bool :=
  if node.internal then .stop (cliHandleInternal node) s
  else if node.hasArg then
    (parseArg cli env node opt next s).bind fun arg s =>
      match arg with
      | none => .go true s
      | some arg => (storeArg cli env node opt (some arg) s).bind fun _ s => .go true s
  else (storeArg cli env node opt none s).bind fun _ s => .go false s

/-- The body of the loop for the word `opt`, with the slot after it. -/
def scanWord (cli : Cli φ) (env : MatchEnv φ δ) (opt : Str) (next : Option Str) (s : Scan δ) :
    Outcome δ Bool :=
  (findOpt cli opt { s with words := s.words ++ [opt] }).bind fun node s =>
    match node with
    | none => .go false s
    | some node => scanOpt cli env node opt next s

/-! ## The whole call -/

/-- The loop. A body that has advanced `argv` to the `NULL` lets the loop's header advance it over
the `NULL`. -/
def scan (cli : Cli φ) (env : MatchEnv φ δ) : List Str → Scan δ → Outcome δ Unit
  | [], s => .go () s
  | opt :: rest, s =>
    match scanWord cli env opt rest.head? s with
    | .stop e s => .stop e s
    | .go false s => scan cli env rest s
    | .go true s =>
      match rest with
      | [] => .stop .beyondArgv s
      | _ :: rest => scan cli env rest s

/-- `cli_match_check_required`, on the rest of the ring. -/
def cliMatchCheckRequired (cli : Cli φ) : List ℕ → Scan δ → Outcome δ Unit
  | [], s => .go () s
  | ref :: refs, s =>
    match cli.heap[ref]? with
    | some (some node) =>
      match s.found.nodesByIdHt.get node.id node.id.key with
      | some _ => cliMatchCheckRequired cli refs s
      | none =>
        let shortNameStr : Str := if node.shortName = 0 then [] else [node.shortName]
        .stop .destroyMatch
          (s.observe (.error .requiredNotPresent (node.longName.map (·.str)) shortNameStr))
    | _ => .stop (.fault .useAfterFree) s

/-- `cli_match_destroy`: the destructors it calls. -/
def cliMatchDestroy (m : CliMatch δ) : List (MatchEvent δ) :=
  m.nodes.flatMap fun node => node.args.map .destructed

/-- What a call of `cli_match` comes to. -/
inductive MatchResult (δ : Type*) where
  | match (m : CliMatch δ)
  /-- `NULL`. -/
  | null
  /-- The call did not return. -/
  | lost (e : ScanEnd)

/-- The end of `cli_match` after the loop was left: the result and the log. -/
def leave (e : ScanEnd) (s : Scan δ) : MatchResult δ × List (MatchEvent δ) :=
  match e with
  | .destroyMatch => (.null, s.log ++ cliMatchDestroy s.found)
  | e => (.lost e, s.log)

/-- The state before the loop. -/
def Scan.start : Scan δ where
  found := cliMatchCreate
  log := []
  words := []

/-- `cli_match`. -/
def cliMatch (cli : Cli φ) (env : MatchEnv φ δ) (argv : List Str) :
    MatchResult δ × List (MatchEvent δ) :=
  if env.mallocMatch = false then (.null, [])
  else if env.mallocTable = false then (.null, [])
  else
    match (scan cli env argv .start).bind fun _ s =>
        cliMatchCheckRequired cli cli.requiredOpts s with
    | .stop e s => leave e s
    | .go _ s => (.match s.found, s.log)

/-- `cli_match_get_arg`: the argument, none for `NULL`. -/
def cliMatchGetArg (m : CliMatch δ) (id : Str) : Option (Option (OptArg δ)) :=
  let hs := HashStr.fromStr id
  match m.nodesByIdHt.get hs hs.key with
  | none => none
  | some place =>
    match m.nodes[place]? with
    | none => none
    | some node => if node.argsNr ≠ 1 then none else node.args.head?

/-! ## Registries -/

/-- The registries that `cli_create` and the public calls make. -/
inductive Made : Cli φ → Prop
  | create {flags : BitVec 64} {a : CreateAlloc} {cli : Cli φ}
    (h : cliCreate flags a = .ok (some cli)) : Made cli
  | call {cli cli' : Cli φ} (op : Op φ) (h : Made cli) (hcall : exec (some cli) op = some cli') :
    Made cli'

end Qkmetisc.CommandLine
