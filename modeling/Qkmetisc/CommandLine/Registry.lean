import Qkmetisc.CommandLine.HashTable

/-!
# The option registry (`cli.c`)

The registry of command-line options: its nodes, the two rings, the two hash tables and the array
that index them, and the calls that add and remove options.

A node is known by its place in the heap, the list of all nodes ever created; the place of a
destroyed node is empty and never used again. Parsers are opaque, in an arbitrary type `φ`. Where
the source allocates, a record of flags tells which of the allocations succeed. A call that
follows a `NULL` or a dead pointer or leaves an array does not return.

## Main definitions

* `HashStr`, `CliOpt`, `OptNode`, `Cli`: the data.
* `cliAddOptNode`, `cliAddOpt`, `cliRemoveOpt`, `cliAddOpts`, `cliCreate`: the functions of the
  source.
* `Op`, `exec`: one public call, as the step of a machine.
* `Coherent`: what has to hold of the registry between calls.
-/

namespace Qkmetisc.CommandLine

/-- The bytes of a string before its NUL. -/
abbrev Str := List (BitVec 8)

/-- A string literal. -/
def str (s : String) : Str := s.toList.map fun c => BitVec.ofNat 8 c.toNat

/-- The loop of `cli_hash_from_str`; a `char` is converted with its sign. -/
def cliHashLoop : BitVec 64 → BitVec 64 → Str → BitVec 64
  | hash, _, [] => hash
  | hash, pc, c :: s => cliHashLoop (hash + c.signExtend 64 * pc) (pc * 67) s

/-- `cli_hash_from_str`: a polynomial rolling hash. -/
def cliHashFromStr (s : Str) : BitVec 64 := cliHashLoop 0 1 s

/-- `struct cli_hash_str`: a string with its hash. -/
structure HashStr where
  str : Str
  hash : BitVec 64
  hash_eq : hash = cliHashFromStr str

/-- `cli_hash_str_from_str`. -/
def HashStr.fromStr (s : Str) : HashStr := { str := s, hash := cliHashFromStr s, hash_eq := rfl }

/-- `cli_hash_str_cmp`. -/
def cliHashStrCmp (lhs rhs : HashStr) : ℤ :=
  if lhs.hash = rhs.hash then
    if lhs.str = rhs.str then 0 else -1
  else -1

/-- The hash that is passed with a key. -/
def HashStr.key (s : HashStr) : ℕ := s.hash.toNat

/-- `cli_opt_flags_t`. -/
abbrev OptFlags := BitVec 64

/-- `CLI_OPT_REQUIRED`. -/
def cliOptRequired : OptFlags := 0x00000001

/-- `CLI_OPT_HAS_ARG`. -/
def cliOptHasArg : OptFlags := 0x00000002

/-- `CLI_OPT_APPEND`. -/
def cliOptAppend : OptFlags := 0x00000004

/-- `CLI_OPT_INTERNAL`. -/
def cliOptInternal : OptFlags := 0x80000000

/-- `CLI_STRICT`. -/
def cliStrict : BitVec 64 := 0x00000001

/-- `CLI_AUTO_HELP`. -/
def cliAutoHelp : BitVec 64 := 0x00000002

/-- `CLI_OPT_NO_SHORT_NAME`. -/
def cliOptNoShortName : BitVec 8 := 0

/-- `UCHAR_MAX`, the length of the array of short names. -/
def UCHAR_MAX : ℕ := 255

/-- `struct cli_opt`: the record a caller registers an option with. -/
structure CliOpt (φ : Type*) where
  id : Option Str
  longName : Option Str
  shortName : BitVec 8
  flags : OptFlags
  parser : Option φ
  description : Option Str

/-- `funcs` of `struct cli_opt_node`: not set, the parser of an option with an argument, or the
handler of an internal option. -/
inductive OptFuncs (φ : Type*) where
  | unset
  | parser (p : Option φ)
  | handler

/-- `struct cli_opt_node`; an empty long name is none. -/
structure OptNode (φ : Type*) where
  id : HashStr
  longName : Option HashStr
  flags : OptFlags
  shortName : BitVec 8
  funcs : OptFuncs φ
  description : Str

/-- `struct cli`, less the function that reports errors while arguments are matched. -/
structure Cli (φ : Type*) where
  /-- The nodes ever created, none for those destroyed. -/
  heap : List (Option (OptNode φ))
  optionalOpts : List ℕ
  requiredOpts : List ℕ
  optsByIdHt : HashTable HashStr ℕ
  optsByLongNameHt : HashTable HashStr ℕ
  optsByShortNameArr : List (Option ℕ)
  flags : BitVec 64

/-- Which allocations succeed while one option is added: the node, the copies of its three
strings, and the nodes of the two tables. -/
structure OptAlloc where
  node : Bool
  id : Bool
  longName : Bool
  description : Bool
  idEntry : Bool
  longNameEntry : Bool

/-- How a call can end without returning. -/
inductive Fault where
  | nullAccess
  | outOfBounds
  | useAfterFree
  deriving Repr, DecidableEq

variable {φ : Type*}

/-- `cli_opt_check_flags`. -/
def cliOptCheckFlags (flags : OptFlags) : Bool :=
  flags &&& ~~~cliOptHasArg &&& ~~~cliOptRequired = 0

/-- `isgraph`, in the C locale. -/
def isgraph (c : BitVec 8) : Bool := 33 ≤ c.toNat ∧ c.toNat ≤ 126

/-- `cli_opt_check`. -/
def cliOptCheck (opt : CliOpt φ) : Bool :=
  if opt.shortName = cliOptNoShortName ∧ opt.longName.isNone then false
  else if opt.id.isNone then false
  else if isgraph opt.shortName = false ∧ opt.shortName ≠ cliOptNoShortName then false
  else cliOptCheckFlags opt.flags

/-- `cli_opt_user_check`: the caller does not try to use internal stuff. -/
def cliOptUserCheck (opt : CliOpt φ) : Bool := opt.flags &&& cliOptInternal = 0

/-- `cli_opt_node_from_opt`: a node with copies of the strings, none if an allocation fails.
Copying `NULL` does not return. -/
def cliOptNodeFromOpt (src : CliOpt φ) (a : OptAlloc) : Except Fault (Option (OptNode φ)) :=
  if a.node = false then .ok none
  else
    match src.id with
    | none => .error .nullAccess
    | some id =>
      if a.id = false then .ok none
      else if src.longName.isSome ∧ a.longName = false then .ok none
      else
        match src.description with
        | none => .error .nullAccess
        | some description =>
          if a.description = false then .ok none
          else .ok (some
            { id := .fromStr id
              longName := src.longName.map .fromStr
              flags := src.flags
              shortName := src.shortName
              funcs := if src.flags &&& cliOptHasArg ≠ 0 then .parser src.parser else .unset
              description })

/-- `cli_opt_node_destroy`. -/
def cliOptNodeDestroy (cli : Cli φ) (ref : ℕ) : Cli φ := { cli with heap := cli.heap.set ref none }

/-- The assignment `cli->opts_by_short_name_arr[c] = entry`. -/
def setShortName (cli : Cli φ) (c : BitVec 8) (entry : Option ℕ) : Except Fault (Cli φ) :=
  if c.toNat < cli.optsByShortNameArr.length then
    .ok { cli with optsByShortNameArr := cli.optsByShortNameArr.set c.toNat entry }
  else .error .outOfBounds

/-- The first part of `cli_add_opt_node`, which enters a short name into the array; none if there
is one already. -/
def addShortName (cli : Cli φ) (ref : ℕ) (node : OptNode φ) : Except Fault (Option (Cli φ)) :=
  if node.shortName = cliOptNoShortName then .ok (some cli)
  else
    match cli.optsByShortNameArr[node.shortName.toNat]? with
    | none => .error .outOfBounds
    | some (some _) => .ok none
    | some none => (setShortName cli node.shortName (some ref)).map some

/-- The part of `cli_add_opt_node` that enters a long name into its table; none if that fails. -/
def addLongName (cli : Cli φ) (ref : ℕ) (node : OptNode φ) (a : OptAlloc) : Option (Cli φ) :=
  match node.longName with
  | none => some cli
  | some longName =>
    (cli.optsByLongNameHt.insert (some ref) longName longName.key a.longNameEntry).map
      fun ht => { cli with optsByLongNameHt := ht }

/-- `cli_hash_table_remove` on the table of the ids. -/
def removeId (cli : Cli φ) (id : HashStr) : Cli φ :=
  match cli.optsByIdHt.remove id id.key with
  | none => cli
  | some (ht, _) => { cli with optsByIdHt := ht }

/-- `cli_hash_table_remove` on the table of the long names, for a node that has one. -/
def removeLongName (cli : Cli φ) (longName : Option HashStr) : Cli φ :=
  match longName with
  | none => cli
  | some longName =>
    match cli.optsByLongNameHt.remove longName longName.key with
    | none => cli
    | some (ht, _) => { cli with optsByLongNameHt := ht }

/-- Whether the node belongs into the ring of the required options. -/
def OptNode.required (node : OptNode φ) : Bool := node.flags &&& cliOptRequired ≠ 0

/-- The part of `cli_add_opt_node` after the short name: the node is entered into the tables and
into its ring, or what was entered is taken back. -/
def addEntries (cli : Cli φ) (ref : ℕ) (node : OptNode φ) (a : OptAlloc) :
    Except Fault (Cli φ × Bool) :=
  match cli.optsByIdHt.insert (some ref) node.id node.id.key a.idEntry with
  -- the label `remove_from_by_short_name_arr`, reached without a short name too
  | none => (setShortName cli node.shortName none).map (·, false)
  | some ht =>
    let cli := { cli with optsByIdHt := ht }
    match addLongName cli ref node a with
    | none => (setShortName (removeId cli node.id) node.shortName none).map (·, false)
    | some cli =>
      if node.required then .ok ({ cli with requiredOpts := cli.requiredOpts ++ [ref] }, true)
      else .ok ({ cli with optionalOpts := cli.optionalOpts ++ [ref] }, true)

/-- `cli_add_opt_node`: the registry and whether the call returned 0. -/
def cliAddOptNode (cli : Cli φ) (ref : ℕ) (node : OptNode φ) (a : OptAlloc) :
    Except Fault (Cli φ × Bool) :=
  match addShortName cli ref node with
  | .error e => .error e
  | .ok none => .ok (cli, false)
  | .ok (some cli) => addEntries cli ref node a

/-- The end of `cli_add_opt` and `cli_add_opt_internal`: the new node is added, or destroyed if
that fails. -/
def addNewNode (cli : Cli φ) (node : OptNode φ) (a : OptAlloc) : Except Fault (Cli φ × Bool) :=
  let ref := cli.heap.length
  match cliAddOptNode { cli with heap := cli.heap ++ [some node] } ref node a with
  | .error e => .error e
  | .ok (cli, true) => .ok (cli, true)
  | .ok (cli, false) => .ok (cliOptNodeDestroy cli ref, false)

/-- `cli_add_opt`. -/
def cliAddOpt (cli : Cli φ) (opt : CliOpt φ) (a : OptAlloc) : Except Fault (Cli φ × Bool) :=
  if cliOptCheck opt = false then .ok (cli, false)
  else
    match cliOptNodeFromOpt opt a with
    | .error e => .error e
    | .ok none => .ok (cli, false)
    | .ok (some node) => addNewNode cli node a

/-- `listc_remove_item` on the ring of the node. -/
def removeFromRing (cli : Cli φ) (ref : ℕ) (node : OptNode φ) : Cli φ :=
  if node.required then { cli with requiredOpts := cli.requiredOpts.erase ref }
  else { cli with optionalOpts := cli.optionalOpts.erase ref }

/-- `cli_remove_opt`. -/
def cliRemoveOpt (cli : Cli φ) (id : Str) : Except Fault (Cli φ × Bool) :=
  let idHs := HashStr.fromStr id
  match cli.optsByIdHt.get idHs idHs.key with
  | none => .ok (cli, false)
  | some ref =>
    match cli.heap[ref]? with
    | some (some node) =>
      if node.flags &&& cliOptInternal ≠ 0 then .ok (cli, false)
      else
        -- the array of short names is not touched
        let cli := removeLongName (removeId (removeFromRing cli ref node) node.id) node.longName
        .ok (cliOptNodeDestroy cli ref, true)
    | _ => .error .useAfterFree

/-- The inner loop of `cli_add_opts`, which removes the options added before a failure. -/
def rollback (cli : Cli φ) : List (CliOpt φ) → Except Fault (Cli φ)
  | [] => .ok cli
  | opt :: opts =>
    match opt.id with
    | none => .error .nullAccess
    | some id =>
      match cliRemoveOpt cli id with
      | .error e => .error e
      | .ok (cli, _) => rollback cli opts

/-- What the outer loop of `cli_add_opts` does with one option: it is checked and added. -/
def addUserOpt (cli : Cli φ) (opt : CliOpt φ) (a : OptAlloc) : Except Fault (Cli φ × Bool) :=
  if cliOptUserCheck opt = false then .ok (cli, false)
  else cliAddOpt cli opt a

/-- The outer loop of `cli_add_opts`, `done` being the options added so far. -/
def cliAddOptsLoop (allocs : ℕ → OptAlloc) (cli : Cli φ) (done : List (CliOpt φ)) :
    List (CliOpt φ) → Except Fault (Cli φ × Bool)
  | [] => .ok (cli, true)
  | opt :: opts =>
    match addUserOpt cli opt (allocs done.length) with
    | .error e => .error e
    | .ok (cli, true) => cliAddOptsLoop allocs cli (done ++ [opt]) opts
    -- the options added so far are removed again
    | .ok (cli, false) => (rollback cli done).map (·, false)

/-- `cli_add_opts`; `allocs` answers the allocations for each element of the array. -/
def cliAddOpts (cli : Cli φ) (opts : List (CliOpt φ)) (allocs : ℕ → OptAlloc) :
    Except Fault (Cli φ × Bool) :=
  cliAddOptsLoop allocs cli [] opts

/-- Which allocations of `cli_create` succeed. -/
structure CreateAlloc where
  cli : Bool
  optsByIdHt : Bool
  optsByLongNameHt : Bool
  optsByShortNameArr : Bool
  help : OptAlloc

/-- The node of the option that `cli_add_auto_help` adds. -/
def autoHelpNode : OptNode φ where
  id := .fromStr (str "help_id_internal")
  longName := some (.fromStr (str "help"))
  flags := cliOptInternal
  shortName := BitVec.ofNat 8 'h'.toNat
  funcs := .handler
  description := str "show this text"

/-- `cli_add_auto_help`, through `cli_add_opt_internal`. -/
def cliAddAutoHelp (cli : Cli φ) (a : OptAlloc) : Except Fault (Cli φ × Bool) :=
  if a.node = false then .ok (cli, false)
  else if a.id = false then .ok (cli, false)
  else if a.longName = false then .ok (cli, false)
  else if a.description = false then .ok (cli, false)
  else addNewNode cli autoHelpNode a

/-- `CLI_OPTS_BY_ID_HT_SIZE`. -/
def cliOptsByIdHtSize : ℕ := 256

/-- `CLI_OPTS_BY_LONG_NAME_HT_SIZE`. -/
def cliOptsByLongNameHtSize : ℕ := 256

/-- A registry without options. -/
def Cli.empty (flags : BitVec 64) : Cli φ where
  heap := []
  optionalOpts := []
  requiredOpts := []
  optsByIdHt := .create cliHashStrCmp cliOptsByIdHtSize
  optsByLongNameHt := .create cliHashStrCmp cliOptsByLongNameHtSize
  optsByShortNameArr := List.replicate UCHAR_MAX none
  flags := flags

/-- `cli_create`: a registry, none for `NULL`. -/
def cliCreate (flags : BitVec 64) (a : CreateAlloc) : Except Fault (Option (Cli φ)) :=
  if flags &&& ~~~(cliStrict ||| cliAutoHelp) ≠ 0 then .ok none
  else if a.cli = false then .ok none
  else if a.optsByIdHt = false then .ok none
  else if a.optsByLongNameHt = false then .ok none
  else if a.optsByShortNameArr = false then .ok none
  else if flags &&& cliAutoHelp ≠ 0 then
    match cliAddAutoHelp (.empty flags) a.help with
    | .error e => .error e
    | .ok (cli, true) => .ok (some cli)
    | .ok (_, false) => .ok none
  else .ok (some (.empty flags))

/-- A public call on a registry. -/
inductive Op (φ : Type*) where
  | addOpts (opts : List (CliOpt φ)) (allocs : ℕ → OptAlloc)
  | removeOpt (id : Str)

/-- One public call; the registry is none after a call that did not return. -/
def exec (s : Option (Cli φ)) (op : Op φ) : Option (Cli φ) :=
  match s with
  | none => none
  | some cli =>
    let called := match op with
      | .addOpts opts allocs => cliAddOpts cli opts allocs
      | .removeOpt id => cliRemoveOpt cli id
    match called with
    | .error _ => none
    | .ok (cli, _) => some cli

/-- The node at `ref` is there and not destroyed. -/
def Live (cli : Cli φ) (ref : ℕ) (node : OptNode φ) : Prop := cli.heap[ref]? = some (some node)

/-- What has to hold of a registry between calls. -/
structure Coherent (cli : Cli φ) : Prop where
  /-- Every node is in the ring its flag asks for, and not in the other one. -/
  ring : ∀ ref node, Live cli ref node →
    if node.required then ref ∈ cli.requiredOpts ∧ ref ∉ cli.optionalOpts
    else ref ∈ cli.optionalOpts ∧ ref ∉ cli.requiredOpts
  /-- No node is twice in a ring. -/
  ringOnce : cli.requiredOpts.Nodup ∧ cli.optionalOpts.Nodup
  /-- The rings hold no destroyed node. -/
  ringLive : ∀ ref, ref ∈ cli.requiredOpts ∨ ref ∈ cli.optionalOpts → ∃ node, Live cli ref node
  /-- Every node is found under its id. -/
  byId : ∀ ref node, Live cli ref node → cli.optsByIdHt.get node.id node.id.key = some ref
  /-- Every node with a long name is found under it. -/
  byLongName : ∀ ref node, Live cli ref node → ∀ name, node.longName = some name →
    cli.optsByLongNameHt.get name name.key = some ref
  /-- Every node with a short name is found under it. -/
  byShortName : ∀ ref node, Live cli ref node → node.shortName ≠ cliOptNoShortName →
    cli.optsByShortNameArr[node.shortName.toNat]? = some (some ref)
  /-- Ids are unique. -/
  idUnique : ∀ ref node ref' node', Live cli ref node → Live cli ref' node' →
    node.id.str = node'.id.str → ref = ref'
  /-- Long names are unique. -/
  longNameUnique : ∀ ref node ref' node' name name', Live cli ref node → Live cli ref' node' →
    node.longName = some name → node'.longName = some name' → name.str = name'.str → ref = ref'
  /-- Short names are unique. -/
  shortNameUnique : ∀ ref node ref' node', Live cli ref node → Live cli ref' node' →
    node.shortName ≠ cliOptNoShortName → node.shortName = node'.shortName → ref = ref'
  /-- No entry of the table of ids refers to a destroyed node. -/
  idEntries : ∀ entry ∈ cli.optsByIdHt.entries, ∃ node, Live cli entry.2 node
  /-- No entry of the table of long names refers to a destroyed node. -/
  longNameEntries : ∀ entry ∈ cli.optsByLongNameHt.entries, ∃ node, Live cli entry.2 node
  /-- No entry of the array of short names refers to a destroyed node. -/
  shortNameEntries : ∀ ref, some ref ∈ cli.optsByShortNameArr → ∃ node, Live cli ref node

end Qkmetisc.CommandLine
