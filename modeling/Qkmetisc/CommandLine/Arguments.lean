import Qkmetisc.CommandLine.Visits
import Qkmetisc.CommandLine.Permutation

/-!
# What becomes of the arguments

Parsers hand arguments over to `cli_match`, which stores them in the match, releases them, or drops
them. An option without an argument has an argument stored all the same, which was never written.

## Main definitions

* `cliMatchGetArgs`, `cliMatchGetArgsNr`: the functions of the source.
* `parsedIn`: the arguments that the parsers have made in some visits.
* `Faithful`: a match has the arguments that were parsed for its options, and no others.
* `ReleasedOnce`: every argument is released once, by the call or with its match.
* `CollectsAppended`: an appending option has all its arguments.

## Main results

* `faithful_iff`: a match is faithful exactly if nothing unwritten was stored and nothing dropped.
* `releasedOnce_iff`: the same for the releases, in calls that return and calls that do not.
* `not_collectsAppended`: no registry takes an appending option.
* `wellFormed_of_cliMatch`: every match is well formed.
-/

namespace Qkmetisc.CommandLine

variable {φ δ : Type*} {cli : Cli φ} {env : MatchEnv φ δ}

/-- `cli_match_get_args`: the arguments that `out` is made to point to, none for -1. -/
def cliMatchGetArgs (m : CliMatch δ) (id : Str) :
    Except Fault (Option (List (Option (OptArg δ)))) :=
  let hs := HashStr.fromStr id
  match m.nodesByIdHt.get hs hs.key with
  | none => .ok none
  | some place =>
    match m.nodes[place]? with
    | none => .error .useAfterFree
    -- the loop over a ring begins with its head
    | some node => if node.args.isEmpty then .error .nullAccess else .ok (some node.args)

/-- `cli_match_get_args_nr`: the number of arguments, none for -1. -/
def cliMatchGetArgsNr (m : CliMatch δ) (id : Str) : Option ℕ :=
  let hs := HashStr.fromStr id
  match m.nodesByIdHt.get hs hs.key with
  | none => none
  | some place => (m.nodes[place]?).map (·.argsNr)

/-- The arguments that the parsers have made, each with the id of its option. -/
def parsedIn (cli : Cli φ) (env : MatchEnv φ δ) (vs : List (Visit δ)) : List (HashStr × OptArg δ) :=
  vs.filterMap (parsedAt cli env)

/-- An argument that was never written is stored. -/
def StoresUnwritten (cli : Cli φ) (env : MatchEnv φ δ) (v : Visit δ) : Prop :=
  ∃ id, storedAt cli env v = some (id, none)

section Ledger

/-- The argument of an entry, if it was written. -/
def ifWritten (e : HashStr × Option (OptArg δ)) : Option (HashStr × OptArg δ) :=
  e.2.map fun arg => (e.1, arg)

/-- A parsed argument is stored, dropped or released. -/
theorem parsedAt_eq (cli : Cli φ) (env : MatchEnv φ δ) (v : Visit δ) :
    (parsedAt cli env v).toList = ((storedAt cli env v).bind ifWritten).toList ++
      ((droppedAt cli env v).toList ++ (rejectedAt cli env v).toList) := by
  rw [droppedAt, rejectedAt, storedAt, parsedAt]
  rcases received cli env v with _ | ⟨id, _ | arg⟩
  · rfl
  · by_cases hstored : (!v.has id && decide (env.alloc id.str).granted) = true
    · simp [Option.filter, ifWritten, hstored]
    · simp [Option.filter, hstored]
  · rcases hhas : v.has id with _ | _
    · by_cases ha : (env.alloc id.str).granted <;> simp [Option.filter, ifWritten, hhas, ha]
    · rcases hstrict : cli.strict with _ | _ <;> simp [Option.filter, hhas]

theorem perm_flatMap_append {α β : Type*} (l : List α) (f g : α → List β) :
    (l.flatMap fun a => f a ++ g a).Perm (l.flatMap f ++ l.flatMap g) :=
  (List.flatMap_append_perm l f g).symm

/-- What is parsed in some visits is what they store, drop and release. -/
theorem parsedIn_perm (cli : Cli φ) (env : MatchEnv φ δ) (vs : List (Visit δ)) :
    (parsedIn cli env vs).Perm ((vs.filterMap (storedAt cli env)).filterMap ifWritten ++
      (vs.filterMap (droppedAt cli env) ++ vs.filterMap (rejectedAt cli env))) := by
  rw [parsedIn, List.filterMap_filterMap]
  simp only [List.filterMap_eq_flatMap_toList, parsedAt_eq]
  exact (perm_flatMap_append vs _ _).trans ((perm_flatMap_append vs _ _).append_left _)

theorem storesUnwritten_iff {vs : List (Visit δ)} : (∀ v ∈ vs, ¬StoresUnwritten cli env v) ↔
    ∀ e ∈ vs.filterMap (storedAt cli env), e.2 ≠ none := by
  constructor
  · rintro hno ⟨id, _⟩ he rfl
    obtain ⟨v, hv, hstored⟩ := List.mem_filterMap.1 he
    exact hno v hv ⟨id, hstored⟩
  · rintro hall v hv ⟨id, hstored⟩
    exact hall _ (List.mem_filterMap.2 ⟨v, hv, hstored⟩) rfl

end Ledger

section Accessors

variable {m : CliMatch δ} {held : List (HashStr × Option (OptArg δ))} {id : HashStr}
  {arg : Option (OptArg δ)}

theorem Holds.get_of_mem (h : Holds m held) (hmem : (id, arg) ∈ held) :
    ∃ place, m.nodesByIdHt.get id id.key = some place ∧
      m.nodes[place]? = some { id, args := [arg], argsNr := 1 } := by
  obtain ⟨place, hplace⟩ := List.mem_iff_getElem?.1 hmem
  refine ⟨place, ?_, ?_⟩
  · rw [h.get, hplace]
    rfl
  · rw [h.nodes, List.getElem?_map, hplace]
    rfl

theorem fromStr_str (id : HashStr) : HashStr.fromStr id.str = id := HashStr.ext_str rfl

/-- There is one argument for an id that is held, and none for another. -/
theorem Holds.getArgsNr (h : Holds m held) (id : HashStr) :
    (cliMatchGetArgsNr m id.str).getD 0 = (held.map Prod.fst).count id := by
  rw [cliMatchGetArgsNr, fromStr_str, h.nodup.count]
  by_cases hmem : id ∈ held.map Prod.fst
  · obtain ⟨⟨id, arg⟩, he, rfl⟩ := List.mem_map.1 hmem
    obtain ⟨place, hget, hnode⟩ := h.get_of_mem he
    simp only [hget, hnode, Option.map_some, Option.getD_some]
    rw [if_pos hmem]
  · simp only [h.get_eq_none.2 hmem]
    rw [if_neg hmem]
    rfl

theorem Holds.getArgs (h : Holds m held) (hmem : (id, arg) ∈ held) :
    cliMatchGetArgs m id.str = .ok (some [arg]) := by
  obtain ⟨place, hget, hnode⟩ := h.get_of_mem hmem
  rw [cliMatchGetArgs, fromStr_str]
  simp only [hget, hnode]
  rfl

theorem Holds.getArgs_eq_none (h : Holds m held) (hnew : id ∉ held.map Prod.fst) :
    cliMatchGetArgs m id.str = .ok none := by
  rw [cliMatchGetArgs, fromStr_str]
  simp only [h.get_eq_none.2 hnew]

/-- The destructors that run for a match are those of what it holds. -/
theorem Holds.released_destroy (h : Holds m held) :
    released (cliMatchDestroy m) = held.map Prod.snd := by
  rw [released, h.destroy_eq, List.filterMap_map]
  exact congrFun List.filterMap_eq_map' held

end Accessors

section Faithful

/-- A match that a call has made has the arguments that were parsed for its options, and no
others. -/
structure Faithful (cli : Cli φ) (m : CliMatch δ) (log : List (MatchEvent δ))
    (parsed : List (HashStr × OptArg δ)) : Prop where
  argsNr : ∀ ref node, Live cli ref node →
    (cliMatchGetArgsNr m node.id.str).getD 0 = (parsed.map Prod.fst).count node.id
  stored : ∀ node ∈ m.nodes, ∀ arg ∈ node.args, ∃ a, arg = some a ∧ (node.id, a) ∈ parsed
  getArg : ∀ id arg, cliMatchGetArg m id = some arg →
    ∃ a, arg = some a ∧ (HashStr.fromStr id, a) ∈ parsed
  getArgs : ∀ id args, cliMatchGetArgs m id = .ok (some args) → ∀ arg ∈ args,
    ∃ a, arg = some a ∧ (HashStr.fromStr id, a) ∈ parsed
  /-- What the call has released and what the match's end will release. -/
  released : ∀ arg ∈ released (log ++ cliMatchDestroy m), ∃ e ∈ parsed, arg = some e.2

variable {vs : List (Visit δ)} {s : Scan δ} {m : CliMatch δ} {log : List (MatchEvent δ)}

/-- A visit that stores or drops something stands for an option that is registered. -/
theorem live_of_received {v : Visit δ} {e : HashStr × Option (OptArg δ)}
    (h : received cli env v = some e) :
    ∃ node, resolve cli v.word = .ok (some node) ∧ node.id = e.1 ∧ ∃ ref, Live cli ref node := by
  unfold received at h
  split at h
  · next node hresolve =>
    obtain ⟨ref, -, hlive⟩ := resolve_eq_some.1 hresolve
    refine ⟨node, hresolve, ?_, ref, hlive⟩
    split at h
    · cases h
    · split at h
      · split at h
        · obtain ⟨arg, -, rfl⟩ := Option.map_eq_some_iff.1 h
          rfl
        · cases h
      · cases h
        rfl
  · cases h

/-- The visits of a call that returns a match, and what it holds. -/
theorem holds_of_cliMatch (h : Made cli) {argv : List Str}
    (hmatch : cliMatch cli env argv = (.match m, log)) :
    Holds m ((callVisits cli env argv).filterMap (storedAt cli env)) ∧ released log = [] ∧
      (callVisits cli env argv).filterMap (rejectedAt cli env) = [] ∧
      ∀ ref ∈ cli.requiredOpts, ∀ node, Live cli ref node →
        node.id ∈ ((callVisits cli env argv).filterMap (storedAt cli env)).map Prod.fst := by
  have hcall := call_cliMatch h env argv
  rw [hmatch] at hcall
  generalize hvs : callVisits cli env argv = vs at hcall ⊢
  cases hcall with
  | matched hrun hrequired =>
    obtain ⟨hholds, hlog, hgoes⟩ := hrun.settles h.noneAppends holds_create
    have hnone := hgoes _ _ rfl
    rw [hnone] at hlog
    exact ⟨hholds, hlog, hnone, hrequired⟩

/-- Where everything stored was written, its arguments are those that were parsed and not
dropped. -/
theorem map_fst_written {es : List (HashStr × Option (OptArg δ))}
    (h : ∀ e ∈ es, e.2 ≠ none) : (es.filterMap ifWritten).map Prod.fst = es.map Prod.fst := by
  rw [List.map_filterMap]
  refine List.filterMap_eq_map_iff_forall_eq_some.2 ?_
  intro ⟨id, arg⟩ he
  obtain ⟨a, rfl⟩ := Option.ne_none_iff_exists'.1 (h _ he)
  rfl

/-- A faithful match holds no unwritten argument. -/
theorem Faithful.written {parsed : List (HashStr × OptArg δ)} (h : Faithful cli m log parsed)
    {held : List (HashStr × Option (OptArg δ))} (hholds : Holds m held) :
    ∀ e ∈ held, e.2 ≠ none := by
  intro e he hnone
  have hnode : { id := e.1, args := [e.2], argsNr := 1 } ∈ m.nodes := by
    rw [hholds.nodes]
    exact List.mem_map_of_mem he
  obtain ⟨a, ha, -⟩ := h.stored _ hnode e.2 (List.mem_singleton_self _)
  rw [hnone] at ha
  cases ha

/-- A dropped argument would be one more than the match counts. -/
theorem Faithful.dropped_eq_nil {parsed dropped : List (HashStr × OptArg δ)}
    (h : Faithful cli m log parsed) {held : List (HashStr × Option (OptArg δ))}
    (hholds : Holds m held) (hperm : parsed.Perm (held.filterMap ifWritten ++
      dropped)) (hlive : ∀ e ∈ dropped, ∃ ref node, Live cli ref node ∧ node.id = e.1) :
    dropped = [] := by
  refine List.eq_nil_iff_forall_not_mem.2 fun e he => ?_
  obtain ⟨ref, node, hlive, hid⟩ := hlive e he
  have hcount := h.argsNr ref node hlive
  rw [hholds.getArgsNr, (hperm.map Prod.fst).count_eq, List.map_append, List.count_append,
    map_fst_written (h.written hholds), hid] at hcount
  have hpos := List.count_pos_iff.2 (List.mem_map_of_mem (f := Prod.fst) he)
  omega

/-- A match is faithful if all it holds was written and is what was parsed. -/
theorem faithful_of_written {parsed : List (HashStr × OptArg δ)} (hlog : released log = [])
    {held : List (HashStr × Option (OptArg δ))} (hholds : Holds m held)
    (hwritten : ∀ e ∈ held, e.2 ≠ none)
    (hperm : parsed.Perm (held.filterMap ifWritten)) :
    Faithful cli m log parsed := by
  have hmem {id : HashStr} {arg : Option (OptArg δ)} (he : (id, arg) ∈ held) :
      ∃ a, arg = some a ∧ (id, a) ∈ parsed := by
    obtain ⟨a, rfl⟩ := Option.ne_none_iff_exists'.1 (hwritten _ he)
    exact ⟨a, rfl, hperm.mem_iff.2 (List.mem_filterMap.2 ⟨_, he, rfl⟩)⟩
  constructor
  · intro ref node hlive
    rw [hholds.getArgsNr, (hperm.map Prod.fst).count_eq, map_fst_written hwritten]
  · intro node hnode arg harg
    rw [hholds.nodes] at hnode
    obtain ⟨e, he, rfl⟩ := List.mem_map.1 hnode
    obtain rfl := List.mem_singleton.1 harg
    exact hmem he
  · intro id arg hget
    have hget : cliMatchGetArg m (HashStr.fromStr id).str = some arg := hget
    by_cases hid : .fromStr id ∈ held.map Prod.fst
    · obtain ⟨⟨_, a⟩, he, rfl⟩ := List.mem_map.1 hid
      rw [hholds.getArg he] at hget
      obtain rfl := Option.some.inj hget
      exact hmem he
    · rw [hholds.getArg_eq_none hid] at hget
      cases hget
  · intro id args hget arg harg
    have hget : cliMatchGetArgs m (HashStr.fromStr id).str = .ok (some args) := hget
    by_cases hid : .fromStr id ∈ held.map Prod.fst
    · obtain ⟨⟨_, a⟩, he, rfl⟩ := List.mem_map.1 hid
      rw [hholds.getArgs he] at hget
      obtain rfl : [a] = args := by simpa using hget
      obtain rfl := List.mem_singleton.1 harg
      exact hmem he
    · rw [hholds.getArgs_eq_none hid] at hget
      cases hget
  · intro arg harg
    rw [released_append, hlog, List.nil_append, hholds.released_destroy] at harg
    obtain ⟨⟨id, _⟩, he, rfl⟩ := List.mem_map.1 harg
    obtain ⟨a, ha, hparsed⟩ := hmem he
    exact ⟨(id, a), hparsed, ha⟩

/-- What is dropped was parsed for an option that is registered. -/
theorem live_of_dropped {e : HashStr × OptArg δ} (he : e ∈ vs.filterMap (droppedAt cli env)) :
    ∃ ref node, Live cli ref node ∧ node.id = e.1 := by
  obtain ⟨v, -, hdropped⟩ := List.mem_filterMap.1 he
  obtain ⟨hparsed, -⟩ := Option.filter_eq_some_iff.1 hdropped
  obtain ⟨entry, hreceived, hentry⟩ := Option.bind_eq_some_iff.1 hparsed
  obtain ⟨node, -, hid, ref, hlive⟩ := live_of_received hreceived
  obtain ⟨a, -, rfl⟩ := Option.map_eq_some_iff.1 hentry
  exact ⟨ref, node, hlive, hid⟩

/-- For every registry that can be made and every `argv` of which a match is made: the match is
faithful exactly if no word in option position had an unwritten argument stored, and none had a
parsed one dropped. -/
theorem faithful_iff (h : Made cli) {argv : List Str}
    (hmatch : cliMatch cli env argv = (.match m, log)) :
    Faithful cli m log (parsedIn cli env (callVisits cli env argv)) ↔
      ∀ v ∈ callVisits cli env argv,
        ¬StoresUnwritten cli env v ∧ droppedAt cli env v = none := by
  obtain ⟨hholds, hlog, hrejected, -⟩ := holds_of_cliMatch h hmatch
  have hperm := parsedIn_perm cli env (callVisits cli env argv)
  rw [hrejected, List.append_nil] at hperm
  generalize callVisits cli env argv = vs at hholds hperm ⊢
  rw [forall₂_and, storesUnwritten_iff, ← List.filterMap_eq_nil_iff]
  constructor
  · intro hfaithful
    exact ⟨hfaithful.written hholds,
      hfaithful.dropped_eq_nil hholds hperm fun e he => live_of_dropped he⟩
  · rintro ⟨hwritten, hdropped⟩
    rw [hdropped, List.append_nil] at hperm
    exact faithful_of_written hlog hholds hwritten hperm

/-- One option with its argument. -/
theorem faithful_port : ∃ m log,
    cliMatch (portCli cliStrict) copyingParsers [str "-p", str "80"] = (.match m, log) ∧
      Faithful (portCli cliStrict) m log (parsedIn (portCli cliStrict) copyingParsers
        (callVisits (portCli cliStrict) copyingParsers [str "-p", str "80"])) := by
  obtain ⟨m, log, hmatch⟩ := exists_match (by decide +kernel : (cliMatch (portCli cliStrict)
    copyingParsers [str "-p", str "80"]).1.isMatch = true)
  refine ⟨m, log, hmatch, (faithful_iff (made_portCli (.inr rfl)) hmatch).2 ?_⟩
  have hvisits : (callVisits (portCli cliStrict) copyingParsers [str "-p", str "80"]).all
      (fun v => (storedAt (portCli cliStrict) copyingParsers v).all (·.2.isSome) &&
        (droppedAt (portCli cliStrict) copyingParsers v).isNone) = true := by
    decide +kernel
  intro v hv
  have hv := List.all_eq_true.1 hvisits v hv
  rw [Bool.and_eq_true, Option.isNone_iff_eq_none] at hv
  refine ⟨?_, hv.2⟩
  rintro ⟨id, hstored⟩
  simp [hstored] at hv

/-- The registry with an option that has no argument. -/
def flagCli : Cli Unit :=
  (exec (some (.empty cliStrict)) (.addOpts
    [{ mainOpt "quiet" "quiet" 'q' "Less output" with flags := 0, parser := none }]
    fun _ => .ok)).getD (.empty cliStrict)

theorem made_flagCli : Made flagCli := (made_empty (.inr rfl)).getD_exec _

/-- The match of the single word `-q`, which has no argument, has an unwritten argument. -/
theorem not_faithful_flag : ¬∀ cli : Cli Unit, Made cli →
    ∀ (env : MatchEnv Unit Str) (argv : List Str) (m : CliMatch Str) (log : List (MatchEvent Str)),
      cliMatch cli env argv = (.match m, log) →
        Faithful cli m log (parsedIn cli env (callVisits cli env argv)) := by
  intro h
  obtain ⟨m, log, hmatch⟩ := exists_match
    (by decide +kernel : (cliMatch flagCli copyingParsers [str "-q"]).1.isMatch = true)
  have hfaithful := h flagCli made_flagCli copyingParsers [str "-q"] m log hmatch
  obtain ⟨hholds, -⟩ := holds_of_cliMatch made_flagCli hmatch
  have hstored : ((callVisits flagCli copyingParsers [str "-q"]).filterMap
      (storedAt flagCli copyingParsers)).map (fun e => (e.1.str, e.2.isSome)) =
        [(str "quiet", false)] := by
    decide +kernel
  generalize (callVisits flagCli copyingParsers [str "-q"]).filterMap
    (storedAt flagCli copyingParsers) = held at hholds hstored
  obtain ⟨⟨id, arg⟩, he, harg⟩ := List.mem_map.1 (hstored ▸ List.mem_singleton_self _)
  have hnode : { id, args := [arg], argsNr := 1 } ∈ m.nodes := by
    rw [hholds.nodes]
    exact List.mem_map_of_mem he
  obtain ⟨a, rfl, -⟩ := hfaithful.stored _ hnode arg (List.mem_singleton_self _)
  simp at harg

end Faithful

section Releases

/-- Releasing the argument may do something: it has a `data_free`, or it was never written. -/
def mayFree : Option (OptArg δ) → Bool
  | none => true
  | some arg => arg.dataFree

/-- The arguments that a call releases itself, and those that the end of its match will release. -/
def settled (r : MatchResult δ × List (MatchEvent δ)) : List (Option (OptArg δ)) :=
  released r.2 ++
    match r.1 with
    | .match m => released (cliMatchDestroy m)
    | _ => []

/-- The arguments of some entries. -/
def argsOf (es : List (HashStr × OptArg δ)) : List (Option (OptArg δ)) := es.map fun e => some e.2

/-- Every argument that was parsed and has a `data_free` is released once, by the call or with its
match, and nothing else is. -/
def ReleasedOnce (cli : Cli φ) (env : MatchEnv φ δ) (argv : List Str) : Prop :=
  ((settled (cliMatch cli env argv)).filter mayFree).Perm
    ((argsOf (parsedIn cli env (callVisits cli env argv))).filter mayFree)

/-- A condition on the visits of a call: no argument with a `data_free` is dropped, and unless the
call is lost no unwritten one is stored; if it is lost, then without having stored one with a
`data_free`. -/
structure Releases (cli : Cli φ) (env : MatchEnv φ δ) (vs : List (Visit δ)) : Prop where
  dropped : ∀ v ∈ vs, ∀ e, droppedAt cli env v = some e → e.2.dataFree = false
  stored : (∀ v ∈ vs, lossAt cli v = none) → ∀ v ∈ vs, ¬StoresUnwritten cli env v
  lost : (∃ v ∈ vs, lossAt cli v ≠ none) → ∀ v ∈ vs, ∀ id arg,
    storedAt cli env v = some (id, some arg) → arg.dataFree = false

variable {vs : List (Visit δ)} {r : MatchResult δ × List (MatchEvent δ)}

theorem argsOf_append (es es' : List (HashStr × OptArg δ)) :
    argsOf (es ++ es') = argsOf es ++ argsOf es' := List.map_append

/-- Nothing among some arguments has a `data_free`. -/
theorem filter_argsOf_eq_nil {es : List (HashStr × OptArg δ)} :
    (argsOf es).filter mayFree = [] ↔ ∀ e ∈ es, e.2.dataFree = false := by
  rw [argsOf, List.filter_eq_nil_iff, List.forall_mem_map]
  exact forall₂_congr fun e _ => by rw [mayFree, Bool.not_eq_true]

theorem argsOf_written {es : List (HashStr × Option (OptArg δ))} (h : ∀ e ∈ es, e.2 ≠ none) :
    argsOf (es.filterMap ifWritten) = es.map Prod.snd := by
  rw [argsOf, List.map_filterMap]
  refine List.filterMap_eq_map_iff_forall_eq_some.2 ?_
  intro ⟨id, arg⟩ he
  obtain ⟨a, rfl⟩ := Option.ne_none_iff_exists'.1 (h _ he)
  rfl

theorem Run.released {o : Outcome δ Unit} (h : Run cli env .start vs o)
    (happend : NoneAppends cli) :
    released o.state.log = argsOf (vs.filterMap (rejectedAt cli env)) ∧
      released (cliMatchDestroy o.state.found) =
        (vs.filterMap (storedAt cli env)).map Prod.snd := by
  obtain ⟨hholds, hlog, -⟩ := h.settles happend holds_create
  exact ⟨hlog, hholds.released_destroy⟩

/-- What a call settles. -/
theorem Call.settled_eq (h : Call cli env vs r) (happend : NoneAppends cli) :
    ((∀ v ∈ vs, lossAt cli v = none) → settled r = argsOf (vs.filterMap (rejectedAt cli env)) ++
      (vs.filterMap (storedAt cli env)).map Prod.snd) ∧
    ((∃ v ∈ vs, lossAt cli v ≠ none) →
      settled r = argsOf (vs.filterMap (rejectedAt cli env))) := by
  -- a call that is not lost releases what its match holds
  have hreturned (hno : ∀ e, e ≠ .destroyMatch → r.1 ≠ .lost e) :
      ¬∃ v ∈ vs, lossAt cli v ≠ none := by
    rintro ⟨v, hv, hloss⟩
    obtain ⟨e, he⟩ := Option.ne_none_iff_exists'.1 hloss
    have hne : e ≠ .destroyMatch := by
      rintro rfl
      exact lossAt_ne_destroyMatch v he
    exact hno e hne ((h.lost_iff hne).2 ⟨v, hv, he⟩)
  cases h with
  | denied => exact ⟨fun _ => rfl, by simp⟩
  | @matched vs s hrun hrequired =>
    obtain ⟨hlog, hdestroy⟩ : released s.log = _ ∧ released (cliMatchDestroy s.found) = _ :=
      hrun.released happend
    refine ⟨fun _ => ?_, fun hlost => absurd hlost (hreturned (by simp))⟩
    rw [settled, hlog, ← hdestroy]
  | @missing vs s val1 val2 hrun =>
    obtain ⟨hlog, hdestroy⟩ : released s.log = _ ∧ released (cliMatchDestroy s.found) = _ :=
      hrun.released happend
    refine ⟨fun _ => ?_, fun hlost => absurd hlost (hreturned (by simp))⟩
    rw [settled, released_append, released_append, hlog, hdestroy, released_error]
    simp
  | @ended vs s hrun =>
    obtain ⟨hlog, hdestroy⟩ : released s.log = _ ∧ released (cliMatchDestroy s.found) = _ :=
      hrun.released happend
    refine ⟨fun _ => ?_, fun hlost => absurd hlost (hreturned (by simp))⟩
    rw [settled, released_append, hlog, hdestroy]
    simp
  | @lost vs e s he hrun =>
    obtain ⟨hlog, -⟩ : released s.log = _ ∧ _ := hrun.released happend
    constructor
    · intro hnone
      obtain ⟨v, hv, hloss⟩ := (hrun.lost_iff he).1 ⟨s, rfl⟩
      rw [hnone v hv] at hloss
      cases hloss
    · intro _
      rw [settled, hlog]
      simp

section Balance

variable {stored dropped rejected : List (Option (OptArg δ))}

/-- What was stored and what is released outweigh what was parsed only if nothing was dropped. -/
theorem perm_returned_iff :
    (rejected ++ stored).Perm (stored ++ (dropped ++ rejected)) ↔ dropped = [] := by
  constructor
  · intro hperm
    have hlength := hperm.length_eq
    simp only [List.length_append] at hlength
    exact List.eq_nil_of_length_eq_zero (by omega)
  · rintro rfl
    exact List.perm_append_comm

theorem perm_lost_iff :
    rejected.Perm (stored ++ (dropped ++ rejected)) ↔ stored = [] ∧ dropped = [] := by
  constructor
  · intro hperm
    have hlength := hperm.length_eq
    simp only [List.length_append] at hlength
    exact ⟨List.eq_nil_of_length_eq_zero (by omega), List.eq_nil_of_length_eq_zero (by omega)⟩
  · rintro ⟨rfl, rfl⟩
    exact List.Perm.refl _

end Balance

/-- Nothing that can be released was dropped. -/
theorem filter_dropped_eq_nil : (argsOf (vs.filterMap (droppedAt cli env))).filter mayFree = [] ↔
    ∀ v ∈ vs, ∀ e, droppedAt cli env v = some e → e.2.dataFree = false := by
  rw [filter_argsOf_eq_nil]
  constructor
  · exact fun hall v hv e he => hall e (List.mem_filterMap.2 ⟨v, hv, he⟩)
  · intro hall e he
    obtain ⟨v, hv, hdropped⟩ := List.mem_filterMap.1 he
    exact hall v hv e hdropped

/-- Nothing that can be released was stored. -/
theorem filter_stored_eq_nil :
    (argsOf ((vs.filterMap (storedAt cli env)).filterMap ifWritten)).filter mayFree = [] ↔
      ∀ v ∈ vs, ∀ id arg, storedAt cli env v = some (id, some arg) → arg.dataFree = false := by
  rw [filter_argsOf_eq_nil]
  constructor
  · intro hall v hv id arg he
    exact hall (id, arg) (List.mem_filterMap.2 ⟨_, List.mem_filterMap.2 ⟨v, hv, he⟩, rfl⟩)
  · intro hall e he
    obtain ⟨⟨id, _⟩, hentry, hwritten⟩ := List.mem_filterMap.1 he
    obtain ⟨arg, rfl, rfl⟩ := Option.map_eq_some_iff.1 hwritten
    obtain ⟨v, hv, hstored⟩ := List.mem_filterMap.1 hentry
    exact hall v hv id arg hstored

/-- For every registry that can be made, every `argv`, in both modes, whatever the parsers answer
and whatever memory there is: every argument is released once exactly if the condition on the
visits holds. -/
theorem releasedOnce_iff (h : Made cli) (env : MatchEnv φ δ) (argv : List Str) :
    ReleasedOnce cli env argv ↔ Releases cli env (callVisits cli env argv) := by
  obtain ⟨hreturned, hlost⟩ := (call_cliMatch h env argv).settled_eq h.noneAppends
  rw [ReleasedOnce]
  generalize callVisits cli env argv = vs at hreturned hlost ⊢
  have hperm := ((parsedIn_perm cli env vs).map fun e => some e.2).filter mayFree
  change ((argsOf (parsedIn cli env vs)).filter mayFree).Perm ((argsOf _).filter mayFree) at hperm
  rw [argsOf_append, argsOf_append, List.filter_append, List.filter_append] at hperm
  rw [hperm.congr_right]
  by_cases hloss : ∀ v ∈ vs, lossAt cli v = none
  · rw [hreturned hloss, List.filter_append]
    constructor
    · intro hsettled
      -- no unwritten argument is among those that were parsed
      have hwritten : ∀ e ∈ vs.filterMap (storedAt cli env), e.2 ≠ none := by
        intro e he hnone
        have hmem : none ∈ ((vs.filterMap (storedAt cli env)).map Prod.snd).filter mayFree :=
          List.mem_filter.2 ⟨List.mem_map.2 ⟨e, he, hnone⟩, rfl⟩
        have hmem := hsettled.mem_iff.1 (List.mem_append_right _ hmem)
        simp [argsOf] at hmem
      rw [argsOf_written hwritten, perm_returned_iff] at hsettled
      exact ⟨filter_dropped_eq_nil.1 hsettled, fun _ => storesUnwritten_iff.2 hwritten,
        fun ⟨v, hv, hne⟩ => absurd (hloss v hv) hne⟩
    · intro hreleases
      have hwritten := storesUnwritten_iff.1 (hreleases.stored hloss)
      rw [argsOf_written hwritten, perm_returned_iff]
      exact filter_dropped_eq_nil.2 hreleases.dropped
  · have hexists : ∃ v ∈ vs, lossAt cli v ≠ none := by simpa using hloss
    rw [hlost hexists, perm_lost_iff, filter_stored_eq_nil, filter_dropped_eq_nil]
    constructor
    · rintro ⟨hstored, hdropped⟩
      exact ⟨hdropped, fun hall => absurd hall hloss, fun _ => hstored⟩
    · intro hreleases
      exact ⟨hreleases.lost hexists, hreleases.dropped⟩

/-- An environment in which all allocations succeed and every parser makes a copy of the word. -/
def allocatingParsers : MatchEnv Unit Str :=
  { copyingParsers with parse := fun _ _ word => some { data := word, dataFree := true } }

/-- Two options with an argument each. -/
theorem releasedOnce_port :
    ReleasedOnce (portCli 0) allocatingParsers [str "-p", str "80", str "-l", str "debug"] := by
  refine (releasedOnce_iff (made_portCli (.inl rfl)) _ _).2 ?_
  have hvisits : (callVisits (portCli 0) allocatingParsers
      [str "-p", str "80", str "-l", str "debug"]).all (fun v =>
        (droppedAt (portCli 0) allocatingParsers v).isNone && (lossAt (portCli 0) v).isNone &&
          (storedAt (portCli 0) allocatingParsers v).all (·.2.isSome)) = true := by
    decide +kernel
  simp only [List.all_eq_true, Bool.and_eq_true, Option.isNone_iff_eq_none] at hvisits
  constructor
  · intro v hv e he
    rw [(hvisits v hv).1.1] at he
    cases he
  · rintro - v hv ⟨id, hstored⟩
    have hwritten := (hvisits v hv).2
    rw [hstored] at hwritten
    cases hwritten
  · rintro ⟨v, hv, hloss⟩
    exact absurd (hvisits v hv).1.2 hloss

/-- Where errors are not fatal, the argument of the second of two occurrences of an option is
neither stored nor released. -/
theorem not_releasedOnce_repeated : ¬∀ cli : Cli Unit, Made cli →
    ∀ (env : MatchEnv Unit Str) (argv : List Str), ReleasedOnce cli env argv := by
  intro h
  have hperm := h (portCli 0) (made_portCli (.inl rfl)) allocatingParsers
    [str "-p", str "80", str "-p", str "81"]
  have hlength : ((settled (cliMatch (portCli 0) allocatingParsers
        [str "-p", str "80", str "-p", str "81"])).filter mayFree).length = 1 ∧
      ((argsOf (parsedIn (portCli 0) allocatingParsers (callVisits (portCli 0) allocatingParsers
        [str "-p", str "80", str "-p", str "81"]))).filter mayFree).length = 2 := by
    decide +kernel
  have hsame := hperm.length_eq
  omega

end Releases

section Append

/-- What a caller of an appending option relies on: the option is taken, and wherever it occurs in
an `argv` of which a match is made, the match has the arguments that were parsed for it, in their
order. -/
def CollectsAppended (δ : Type*) (cli : Cli φ) (opt : CliOpt φ) : Prop :=
  ∃ cli', cliAddOpts cli [opt] (fun _ => .ok) = .ok (cli', true) ∧
    ∀ (env : MatchEnv φ δ) (argv : List Str) (m : CliMatch δ) (log : List (MatchEvent δ)),
      cliMatch cli' env argv = (.match m, log) → ∀ (id : Str) (args : List (OptArg δ)),
        opt.id = some id → args ≠ [] →
        ((parsedIn cli' env (callVisits cli' env argv)).filter fun e => e.1.str = id).map
          Prod.snd = args →
        cliMatchGetArgsNr m id = some args.length ∧
          cliMatchGetArgs m id = .ok (some (args.map some))

/-- The check of the flags does not let an appending option through. -/
theorem cliAddOpts_append (cli : Cli φ) {opt : CliOpt φ} (happend : opt.flags &&& cliOptAppend ≠ 0)
    (allocs : ℕ → OptAlloc) : cliAddOpts cli [opt] allocs = .ok (cli, false) := by
  have hcheck : cliOptCheck opt = false := by
    by_contra hcheck
    exact happend (append_of_cliOptCheck (by simpa using hcheck))
  have hadd : addUserOpt cli opt (allocs 0) = .ok (cli, false) := by
    rw [addUserOpt, cliAddOpt, if_pos hcheck, ite_self]
  rw [cliAddOpts, cliAddOptsLoop, List.length_nil, hadd]
  rfl

/-- No registry takes an option that is declared with an argument and as an appending one, required
or not. -/
theorem not_collectsAppended (cli : Cli φ) (opt : CliOpt φ)
    (hflags : opt.flags = cliOptHasArg ||| cliOptAppend ∨
      opt.flags = cliOptHasArg ||| cliOptAppend ||| cliOptRequired) :
    ¬CollectsAppended δ cli opt := by
  have happend : opt.flags &&& cliOptAppend ≠ 0 := by
    rcases hflags with hflags | hflags
    · rw [hflags]
      decide
    · rw [hflags]
      decide
  rintro ⟨cli', hadd, -⟩
  cases (cliAddOpts_append cli happend _).symm.trans hadd

/-- The option that `main` has for the port, as an appending one. -/
def appendOpt : CliOpt Unit :=
  { mainOpt "port" "port" 'p' "Port listen to" with flags := cliOptHasArg ||| cliOptAppend }

theorem not_collectsAppended_port : ¬CollectsAppended Str (Cli.empty cliStrict) appendOpt :=
  not_collectsAppended _ _ (.inl rfl)

/-- Not every registry takes every appending option whose id and names are fresh: the empty one
does not take the option for the port. -/
theorem not_forall_collectsAppended : ¬∀ cli : Cli Unit, Made cli → ∀ opt : CliOpt Unit,
    (opt.flags = cliOptHasArg ||| cliOptAppend ∨
      opt.flags = cliOptHasArg ||| cliOptAppend ||| cliOptRequired) →
    Fits (InUse cli) opt .ok → CollectsAppended Str cli opt := by
  intro h
  have hfits : Fits (InUse (.empty cliStrict : Cli Unit)) appendOpt .ok := by
    refine ⟨rfl, ?_, rfl, fun _ => rfl⟩
    rintro n ⟨ref, node, hlive, -⟩
    simp [Live, Cli.empty] at hlive
  obtain ⟨cli', hadd, -⟩ := h (.empty cliStrict) (made_empty (.inr rfl)) appendOpt (.inl rfl) hfits
  have hrefused : (cliAddOpts (.empty cliStrict) [appendOpt] fun _ => .ok).map
      (fun r : Cli Unit × Bool => r.2) = .ok false := by
    decide +kernel
  rw [hadd] at hrefused
  cases hrefused

end Append

section WellFormed

/-- A match of `argv` is well formed. -/
structure WellFormed (cli : Cli φ) (argv : List Str) (m : CliMatch δ) : Prop where
  /-- An id in it is that of a registered option that a word of `argv` is taken for. -/
  ids : ∀ node ∈ m.nodes, ∃ word ∈ argv, ∃ ref opt, Live cli ref opt ∧ opt.id = node.id ∧
    ∀ s : Scan δ, TreatsAs cli word s opt
  nodup : (m.nodes.map (·.id)).Nodup
  /-- The table has the nodes in the ring, each under its id, and no others. -/
  table : ∀ id place, (id, place) ∈ m.nodesByIdHt.entries ↔
    ∃ node, m.nodes[place]? = some node ∧ node.id = id
  argsNr : ∀ node ∈ m.nodes, node.argsNr = node.args.length
  required : ∀ ref ∈ cli.requiredOpts, ∀ opt, Live cli ref opt → ∃ node ∈ m.nodes, node.id = opt.id

/-- The words that come to be in option position are words of `argv`. -/
theorem word_mem_of_visits (cli : Cli φ) (env : MatchEnv φ δ) (argv : List Str) (s : Scan δ) :
    ∀ v ∈ visits cli env argv s, v.word ∈ argv := by
  fun_induction scan cli env argv s with
  | case1 s => simp [visits]
  | case2 word rest s e s' hword => simp [visits, hword]
  | case3 word rest s s' hword ih =>
    rw [visits, hword, List.forall_mem_cons]
    exact ⟨List.mem_cons_self, fun v hv => List.mem_cons_of_mem _ (ih v hv)⟩
  | case4 word s s' hword => simp [visits, show scanWord cli env word none s = _ from hword]
  | case5 word s s' arg rest hword ih =>
    rw [visits, hword, List.forall_mem_cons]
    refine ⟨List.mem_cons_self, fun v hv => ?_⟩
    exact List.mem_cons_of_mem _ (List.mem_cons_of_mem _ (ih v hv))

theorem word_mem_of_callVisits {argv : List Str} {v : Visit δ}
    (hv : v ∈ callVisits cli env argv) : v.word ∈ argv := by
  unfold callVisits at hv
  split at hv
  · cases hv
  · exact word_mem_of_visits cli env argv .start v hv

/-- For every registry that can be made, every `argv`, in both modes, whatever the parsers answer
and whatever memory there is: a match is well formed. -/
theorem wellFormed_of_cliMatch (h : Made cli) {argv : List Str} {m : CliMatch δ}
    {log : List (MatchEvent δ)} (hmatch : cliMatch cli env argv = (.match m, log)) :
    WellFormed cli argv m := by
  obtain ⟨hholds, -, -, hrequired⟩ := holds_of_cliMatch h hmatch
  have hids : m.nodes.map (·.id) =
      ((callVisits cli env argv).filterMap (storedAt cli env)).map Prod.fst := by
    rw [hholds.nodes, List.map_map]
    rfl
  constructor
  · intro node hnode
    rw [hholds.nodes] at hnode
    obtain ⟨e, he, rfl⟩ := List.mem_map.1 hnode
    obtain ⟨v, hv, hstored⟩ := List.mem_filterMap.1 he
    obtain ⟨hreceived, -⟩ := Option.filter_eq_some_iff.1 hstored
    obtain ⟨opt, hresolve, hid, ref, hlive⟩ := live_of_received hreceived
    exact ⟨v.word, word_mem_of_callVisits hv, ref, opt, hlive, hid,
      fun s => (treatsAs_iff s).2 hresolve⟩
  · rw [hids]
    exact hholds.nodup
  · intro id place
    rw [hholds.valid.mem_entries, hholds.get, hholds.nodes, List.getElem?_map]
    rcases ((callVisits cli env argv).filterMap (storedAt cli env))[place]? with _ | e
    · simp
    · simp
  · intro node hnode
    rw [hholds.nodes] at hnode
    obtain ⟨e, -, rfl⟩ := List.mem_map.1 hnode
    rfl
  · intro ref href opt hlive
    have hmem := hrequired ref href opt hlive
    rw [← hids] at hmem
    obtain ⟨node, hnode, hid⟩ := List.mem_map.1 hmem
    exact ⟨node, hnode, hid⟩

/-- A match of one option with its argument. -/
theorem wellFormed_port : ∃ m log,
    cliMatch (portCli cliStrict) copyingParsers [str "-p", str "80"] = (.match m, log) ∧
      WellFormed (portCli cliStrict) [str "-p", str "80"] m := by
  obtain ⟨m, log, hmatch⟩ := exists_match (by decide +kernel : (cliMatch (portCli cliStrict)
    copyingParsers [str "-p", str "80"]).1.isMatch = true)
  exact ⟨m, log, hmatch, wellFormed_of_cliMatch (made_portCli (.inr rfl)) hmatch⟩

end WellFormed

end Qkmetisc.CommandLine
