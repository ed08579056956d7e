import Qkmetisc.CommandLine.Bounds

/-!
# The words in option position

The scan of `argv` visits one word after another. What it does with a word depends on the word, the
slot behind it and the state before: the entry that the word asks to be stored is stored, dropped or
released. From this the whole scan is read off its visits.

## Main definitions

* `Visit`, `visits`: the words in option position, with what the scan knows when it comes to them.
* `received`: the entry that a word asks to be stored.
* `storedAt`, `droppedAt`, `rejectedAt`: what becomes of it.
* `Readable`: the words of which no byte is read that is not there.

## Main results

* `scanWord_visit`, `Run.settles`: what one word and what a whole scan stores and releases.
* `scanWord_met`, `Run.lost_iff`, `Call.lost_iff`: where the call is lost.
* `readsInBounds_iff`: the reads from a word and from the array of short names stay in bounds
  exactly if every word in option position is readable.
-/

namespace Qkmetisc.CommandLine

variable {φ δ : Type*} {cli : Cli φ} {env : MatchEnv φ δ} {s : Scan δ}

/-- A word in option position, the slot behind it, and the state before the scan comes to it. -/
structure Visit (δ : Type*) where
  word : Str
  next : Option Str
  state : Scan δ

/-- The visits of a scan, from any state. -/
def visits (cli : Cli φ) (env : MatchEnv φ δ) : List Str → Scan δ → List (Visit δ)
  | [], _ => []
  | word :: rest, s =>
    { word, next := rest.head?, state := s } ::
      match scanWord cli env word rest.head? s with
      | .stop _ _ => []
      | .go false s => visits cli env rest s
      | .go true s =>
        match rest with
        | [] => []
        | _ :: rest => visits cli env rest s

/-- The visits of a call. -/
def callVisits (cli : Cli φ) (env : MatchEnv φ δ) (argv : List Str) : List (Visit δ) :=
  if env.mallocMatch = false ∨ env.mallocTable = false then [] else visits cli env argv .start

/-! ## What a word asks to be stored -/

/-- The entry that a word asks to be stored, none if it comes to nothing: an option without an
argument passes on an argument that was never written. -/
def received (cli : Cli φ) (env : MatchEnv φ δ) (v : Visit δ) :
    Option (HashStr × Option (OptArg δ)) :=
  match resolve cli v.word with
  | .ok (some node) =>
    if node.internal then none
    else if node.hasArg then
      match v.next, node.funcs with
      | some argStr, .parser (some p) =>
        (env.parse v.state.words.length p argStr).map fun arg => (node.id, some arg)
      | _, _ => none
    else some (node.id, none)
  | _ => none

/-- The argument that a parser has made at a visit, with the id of its option. -/
def parsedAt (cli : Cli φ) (env : MatchEnv φ δ) (v : Visit δ) : Option (HashStr × OptArg δ) :=
  (received cli env v).bind fun e => e.2.map fun arg => (e.1, arg)

/-- The match has a node for the id. -/
def Visit.has (v : Visit δ) (id : HashStr) : Bool :=
  (v.state.found.nodesByIdHt.get id id.key).isSome

instance (a : MatchAlloc) : Decidable a.granted :=
  inferInstanceAs (Decidable (a.node = true ∧ a.id = true ∧ a.entry = true ∧ a.arg = true))

/-- The entry that is stored at a visit. -/
def storedAt (cli : Cli φ) (env : MatchEnv φ δ) (v : Visit δ) :
    Option (HashStr × Option (OptArg δ)) :=
  (received cli env v).filter fun e => !v.has e.1 && decide (env.alloc e.1.str).granted

/-- The argument that is dropped at a visit: its option is there already, which is no fatal
error. -/
def droppedAt (cli : Cli φ) (env : MatchEnv φ δ) (v : Visit δ) : Option (HashStr × OptArg δ) :=
  (parsedAt cli env v).filter fun e => v.has e.1 && !cli.strict

/-- The argument that is released at a visit, which ends the scan: its option is there already, or
there is no memory for it. -/
def rejectedAt (cli : Cli φ) (env : MatchEnv φ δ) (v : Visit δ) : Option (HashStr × OptArg δ) :=
  (parsedAt cli env v).filter fun e =>
    if v.has e.1 then cli.strict else !decide (env.alloc e.1.str).granted

/-- The argument of which an event is the release. -/
def MatchEvent.released : MatchEvent δ → Option (Option (OptArg δ))
  | .error _ _ _ => none
  | .destructed arg => some arg

/-- The arguments that have been released. -/
def released (log : List (MatchEvent δ)) : List (Option (OptArg δ)) := log.filterMap (·.released)

@[simp]
theorem released_append (log log' : List (MatchEvent δ)) :
    released (log ++ log') = released log ++ released log' := List.filterMap_append

section Step

variable {held : List (HashStr × Option (OptArg δ))} {node : OptNode φ} {word : Str}
  {next : Option Str} {errs : List (MatchEvent δ)}

theorem Holds.has_iff (h : Holds s.found held) (id : HashStr) :
    (Visit.mk word next s).has id = true ↔ id ∈ held.map Prod.fst := by
  rw [Visit.has, Option.isSome_iff_ne_none, ne_eq, h.get_eq_none, not_not]

/-- Reports release nothing. -/
theorem Reported.released_eq (h : Reported cli word errs) : released errs = [] := by
  rw [released, List.filterMap_eq_nil_iff]
  intro e he
  rw [h.unknown e he]
  rfl

@[simp]
theorem observe_found (s : Scan δ) (e : MatchEvent δ) : (s.observe e).found = s.found := rfl

@[simp]
theorem observe_log (s : Scan δ) (e : MatchEvent δ) : (s.observe e).log = s.log ++ [e] := rfl

@[simp]
theorem Outcome.state_go {α : Type*} (a : α) (s : Scan δ) : (Outcome.go a s).state = s := rfl

@[simp]
theorem Outcome.state_stop {α : Type*} (e : ScanEnd) (s : Scan δ) :
    (Outcome.stop e s : Outcome δ α).state = s := rfl

@[simp]
theorem released_error (type : OptErrorType) (val1 val2 : Option Str) :
    released [MatchEvent.error (δ := δ) type val1 val2] = [] := rfl

/-- A part of the loop's body leaves a match that holds these entries, and has released these
arguments. -/
structure Outcome.Settles {α : Type*} (o : Outcome δ α) (s : Scan δ)
    (held : List (HashStr × Option (OptArg δ))) (rejected : Option (HashStr × OptArg δ)) :
    Prop where
  holds : Holds o.state.found held
  log : released o.state.log = released s.log ++ rejected.toList.map fun e => some e.2
  /-- What is released is released at the end. -/
  goes : ∀ a s', o = .go a s' → rejected = none

/-- The argument that an option with an argument asks to be stored was parsed. -/
theorem released_destructArg {arg : Option (OptArg δ)} (harg : node.hasArg = arg.isSome)
    (s : Scan δ) : released (destructArg node arg s).log =
      released s.log ++ (arg.map fun a => (node.id, a)).toList.map fun e => some e.2 := by
  rcases arg with _ | arg
  · rw [destructArg, if_neg (by simp [harg])]
    simp
  · rw [destructArg, if_pos (by simp [harg]), observe_log, released_append]
    rfl

theorem destructArg_found (node : OptNode φ) (arg : Option (OptArg δ)) (s : Scan δ) :
    (destructArg node arg s).found = s.found := by
  unfold destructArg
  split <;> rfl

/-- What becomes of an entry, by the state before the visit. -/
theorem storeArg_visit {v : Visit δ} {arg : Option (OptArg δ)}
    (hreceived : received cli env v = some (node.id, arg)) (harg : node.hasArg = arg.isSome)
    (happend : node.append = false) (hholds : Holds v.state.found held) {s : Scan δ}
    (hfound : s.found = v.state.found) (opt : Str) :
    (storeArg cli env node opt arg s).Settles s (held ++ (storedAt cli env v).toList)
      (rejectedAt cli env v) := by
  have hhas : v.has node.id = true ↔ node.id ∈ held.map Prod.fst := hholds.has_iff node.id
  have hparsed : parsedAt cli env v = arg.map fun a => (node.id, a) := by
    rw [parsedAt, hreceived, Option.bind_some]
  rw [← hfound] at hholds
  rw [storedAt, rejectedAt, hreceived, hparsed]
  by_cases hmem : node.id ∈ held.map Prod.fst
  · -- the option is there already
    have hhas := hhas.2 hmem
    rcases hstrict : cli.strict with _ | _
    · rw [(storeArg_repeated hholds happend hmem).2 hstrict]
      refine ⟨by simpa [Option.filter, hhas] using hholds, ?_, fun _ _ _ => ?_⟩
      · rcases arg <;> simp [Option.filter, hhas]
      · rcases arg <;> simp [Option.filter, hhas]
    · rw [(storeArg_repeated hholds happend hmem).1 hstrict]
      constructor
      · rw [Outcome.state_stop, destructArg_found]
        simpa [Option.filter, hhas] using hholds
      · rw [Outcome.state_stop, released_destructArg harg]
        rcases arg <;> simp [Option.filter, hhas]
      · simp
  · -- it is new, and there is memory for it or not
    have hhas : v.has node.id = false := by simpa using fun h => hmem (hhas.1 h)
    by_cases ha : (env.alloc node.id.str).granted
    · obtain ⟨found, hstore, hholds'⟩ := storeArg_new cli opt arg hholds hmem ha
      rw [hstore]
      refine ⟨by simpa [Option.filter, hhas, ha] using hholds', ?_, fun _ _ _ => ?_⟩
      · rcases arg <;> simp [Option.filter, hhas, ha]
      · rcases arg <;> simp [Option.filter, hhas, ha]
    · obtain ⟨found, hstore, hholds'⟩ := storeArg_denied hholds hmem ha
      rw [hstore]
      constructor
      · rw [Outcome.state_stop, destructArg_found]
        simpa [Option.filter, hhas, ha] using hholds'
      · rw [Outcome.state_stop, released_destructArg harg]
        rcases arg <;> simp [Option.filter, hhas, ha]
      · simp

/-- Where nothing is received, nothing is stored and nothing is released. -/
theorem settles_of_received {v : Visit δ} (hreceived : received cli env v = none)
    (hholds : Holds s.found held) {α : Type*} {o : Outcome δ α} (hfound : o.state.found = s.found)
    (hlog : released o.state.log = released s.log) :
    o.Settles s (held ++ (storedAt cli env v).toList) (rejectedAt cli env v) := by
  have hparsed : parsedAt cli env v = none := by rw [parsedAt, hreceived, Option.bind_none]
  rw [storedAt, rejectedAt, hreceived, hparsed]
  constructor
  · simpa [Option.filter, hfound] using hholds
  · simpa [Option.filter] using hlog
  · simp

theorem received_flag {v : Visit δ} (h : resolve cli v.word = .ok (some node))
    (hinternal : node.internal = false) (harg : node.hasArg = false) :
    received cli env v = some (node.id, none) := by
  simp [received, h, hinternal, harg]

theorem received_arg {v : Visit δ} {p : φ} {argStr : Str}
    (h : resolve cli v.word = .ok (some node)) (hinternal : node.internal = false)
    (harg : node.hasArg = true) (hnext : v.next = some argStr)
    (hparser : node.funcs = .parser (some p)) : received cli env v =
      (env.parse v.state.words.length p argStr).map fun arg => (node.id, some arg) := by
  simp [received, h, hinternal, harg, hnext, hparser]

theorem state_bind_go {α β : Type*} (o : Outcome δ α) (b : β) :
    (o.bind fun _ s => .go b s).state = o.state := by
  rcases o with ⟨a, s⟩ | ⟨e, s⟩ <;> rfl

theorem cliPrintError_state (cli : Cli φ) (type : OptErrorType) (val1 val2 : Option Str)
    (s : Scan δ) :
    (cliPrintError cli type val1 val2 s).state = s.observe (.error type val1 val2) := by
  rw [cliPrintError]
  split <;> rfl

/-- What one word stores and releases. -/
theorem scanWord_visit (happend : NoneAppends cli) (env : MatchEnv φ δ)
    (hholds : Holds s.found held) (word : Str) (next : Option Str) :
    (scanWord cli env word next s).Settles s
      (held ++ (storedAt cli env { word, next, state := s }).toList)
      (rejectedAt cli env { word, next, state := s }) := by
  obtain ⟨errs, hreported, hbody⟩ := scanWord_cases cli env word next s
  -- before its body the word is only reported
  have hlog : released (s.after word errs).log = released s.log := by
    simp [Scan.after, hreported.released_eq]
  have hstore {node : OptNode φ} {arg : Option (OptArg δ)} {b : Bool}
      (h : resolve cli word = .ok (some node)) (harg : node.hasArg = arg.isSome)
      (hreceived : received cli env { word, next, state := s } = some (node.id, arg)) :
      ((storeArg cli env node word arg (s.after word errs)).bind fun _ s => .go b s).Settles s
        (held ++ (storedAt cli env { word, next, state := s }).toList)
        (rejectedAt cli env { word, next, state := s }) := by
    have hsettles := storeArg_visit hreceived harg (happend.of_resolve h) hholds
      (show (s.after word errs).found = s.found from rfl) word
    constructor
    · rw [state_bind_go]
      exact hsettles.holds
    · rw [state_bind_go, ← hlog]
      exact hsettles.log
    · rcases hstored : storeArg cli env node word arg (s.after word errs) with ⟨u, s'⟩ | ⟨e, s'⟩
      · exact fun _ _ _ => hsettles.goes u s' hstored
      · simp
  have hprint {type : OptErrorType} {val1 val2 : Option Str}
      (hreceived : received cli env { word, next, state := s } = none) :
      ((cliPrintError cli type val1 val2 (s.after word errs)).bind fun _ s => .go true s).Settles s
        (held ++ (storedAt cli env { word, next, state := s }).toList)
        (rejectedAt cli env { word, next, state := s }) := by
    refine settles_of_received hreceived hholds ?_ ?_
    · rw [state_bind_go, cliPrintError_state]
      rfl
    · rw [state_bind_go, cliPrintError_state]
      simpa using hlog
  cases hbody with
  | fault h ho =>
    rw [ho]
    exact settles_of_received (by simp [received, h]) hholds rfl hlog
  | fatal h hstrict ho =>
    rw [ho]
    exact settles_of_received (by simp [received, h]) hholds rfl hlog
  | unknown h hlenient ho =>
    rw [ho]
    exact settles_of_received (by simp [received, h]) hholds rfl hlog
  | internal h hinternal ho =>
    rw [ho]
    exact settles_of_received (by simp [received, h, hinternal]) hholds rfl hlog
  | flag h hinternal harg ho =>
    rw [ho]
    exact hstore h harg (received_flag h hinternal harg)
  | lacking h hinternal harg hnext ho =>
    rw [ho]
    exact hprint (by simp [received, h, hinternal, harg, hnext])
  | rejected h hinternal harg hnext hparser hparse ho =>
    rw [length_words_after] at hparse
    rw [ho]
    exact hprint (by rw [received_arg h hinternal harg hnext hparser, hparse, Option.map_none])
  | arg h hinternal harg hnext hparser hparse ho =>
    rw [length_words_after] at hparse
    rw [ho]
    exact hstore h harg (by
      rw [received_arg h hinternal harg hnext hparser, hparse, Option.map_some])
  | @unset node argStr h hinternal harg hnext hparser ho =>
    rw [ho]
    refine settles_of_received ?_ hholds rfl hlog
    simp only [received, h, hinternal, harg, hnext]
    rcases hfuncs : node.funcs with _ | (_ | p) | _
    · rfl
    · rfl
    · exact absurd hfuncs (hparser p)
    · rfl

end Step

section Loss

/-- How a call is lost at a visit: a read outside of an array or through a dead pointer, an internal
option, an option without a parser, and where errors are not fatal an option behind which there
is no argument. -/
def lossAt (cli : Cli φ) (v : Visit δ) : Option ScanEnd :=
  match resolve cli v.word with
  | .error f => some (.fault f)
  | .ok none => none
  | .ok (some node) =>
    if node.internal then some (cliHandleInternal node)
    else if node.hasArg then
      match v.next, node.funcs with
      | none, _ => if cli.strict then none else some .beyondArgv
      | some _, .parser (some _) => none
      | some _, _ => some (.fault .nullAccess)
    else none

theorem lossAt_ne_destroyMatch (v : Visit δ) : lossAt cli v ≠ some .destroyMatch := by
  rw [lossAt]
  rcases resolve cli v.word with f | _ | node
  · simp
  · simp
  · dsimp only
    split
    · rw [cliHandleInternal]
      split <;> simp
    · repeat' split
      all_goals simp

/-- What a visit comes to, by the loss at it. -/
inductive Met (v : Visit δ) : Outcome δ Bool → Option ScanEnd → Prop
  | goes {b : Bool} {s : Scan δ} (hnext : b = true → v.next ≠ none) : Met v (.go b s) none
  | ends (s : Scan δ) : Met v (.stop .destroyMatch s) none
  | beyond (s : Scan δ) (hnext : v.next = none) : Met v (.go true s) (some .beyondArgv)
  | lost {e : ScanEnd} (s : Scan δ) (he : e ≠ .destroyMatch) : Met v (.stop e s) (some e)

variable {v : Visit δ} {loss : Option ScanEnd}

theorem Met.of_stop {e : ScanEnd} (h : Met v (.stop e s) loss) :
    (e = .destroyMatch ∧ loss = none) ∨ loss = some e := by
  cases h with
  | ends => exact .inl ⟨rfl, rfl⟩
  | lost => exact .inr rfl

theorem Met.of_go {b : Bool} (h : Met v (.go b s) loss) :
    loss = if b = true ∧ v.next = none then some .beyondArgv else none := by
  cases h with
  | goes hnext => rw [if_neg fun hboth => hnext hboth.1 hboth.2]
  | beyond _ hnext => rw [if_pos ⟨rfl, hnext⟩]

theorem cliPrintError_met (hnext : v.next ≠ none) (b : Bool) (type : OptErrorType)
    (val1 val2 : Option Str) (s : Scan δ) :
    Met v ((cliPrintError cli type val1 val2 s).bind fun _ s => .go b s) none := by
  rw [cliPrintError]
  split
  · exact .ends _
  · exact .goes fun _ => hnext

/-- Storing an argument loses nothing. -/
theorem storeArg_met {b : Bool} (hnext : b = true → v.next ≠ none) (node : OptNode φ) (opt : Str)
    (arg : Option (OptArg δ)) (s : Scan δ) :
    Met v ((storeArg cli env node opt arg s).bind fun _ s => .go b s) none := by
  unfold storeArg
  split
  · split
    · split
      · exact .ends _
      · exact .goes hnext
    · rw [cliPrintError]
      rcases cli.strict with _ | _
      · exact .goes hnext
      · exact .ends _
  · split
    · exact .goes hnext
    · exact .ends _

/-- What a visit comes to. -/
theorem scanWord_met (cli : Cli φ) (env : MatchEnv φ δ) (v : Visit δ) :
    Met v (scanWord cli env v.word v.next v.state) (lossAt cli v) := by
  obtain ⟨errs, -, hbody⟩ := scanWord_cases cli env v.word v.next v.state
  cases hbody with
  | fault h ho =>
    rw [ho, lossAt, h]
    exact .lost _ (by simp)
  | fatal h hstrict ho =>
    rw [ho, lossAt, h]
    exact .ends _
  | unknown h hlenient ho =>
    rw [ho, lossAt, h]
    exact .goes (by simp)
  | internal h hinternal ho =>
    rw [ho, lossAt, h]
    simp only [hinternal, if_true]
    refine .lost _ ?_
    rw [cliHandleInternal]
    split <;> simp
  | flag h hinternal harg ho =>
    rw [ho, lossAt, h]
    simp only [hinternal, harg]
    exact storeArg_met (by simp) _ v.word none _
  | lacking h hinternal harg hnext ho =>
    rw [ho, lossAt, h, hnext, cliPrintError]
    simp only [hinternal, harg, if_true]
    rcases cli.strict with _ | _
    · exact .beyond _ hnext
    · exact .ends _
  | rejected h hinternal harg hnext hparser hparse ho =>
    rw [ho, lossAt, h, hnext]
    simp only [hinternal, harg, hparser, if_true]
    exact cliPrintError_met (by simp [hnext]) true _ _ _ _
  | @arg node argStr p arg h hinternal harg hnext hparser hparse ho =>
    rw [ho, lossAt, h, hnext]
    simp only [hinternal, harg, hparser, if_true]
    exact storeArg_met (fun _ => by simp [hnext]) node v.word (some arg) _
  | @unset node argStr h hinternal harg hnext hparser ho =>
    rw [ho, lossAt, h, hnext]
    simp only [hinternal, harg, if_true]
    rcases hfuncs : node.funcs with _ | (_ | p) | _
    · exact .lost _ (by simp)
    · exact .lost _ (by simp)
    · exact absurd hfuncs (hparser p)
    · exact .lost _ (by simp)

end Loss

section Run

/-- A scan from a state, with its visits: it is at the `NULL`, its first word ends it or leads it
behind the `NULL`, or it goes on after its first word. -/
inductive Run (cli : Cli φ) (env : MatchEnv φ δ) :
    Scan δ → List (Visit δ) → Outcome δ Unit → Prop
  | done (s : Scan δ) : Run cli env s [] (.go () s)
  | ended {v : Visit δ} {e : ScanEnd} {s' : Scan δ}
    (hword : scanWord cli env v.word v.next v.state = .stop e s') :
    Run cli env v.state [v] (.stop e s')
  | beyond {v : Visit δ} {s' : Scan δ} (hnext : v.next = none)
    (hword : scanWord cli env v.word v.next v.state = .go true s') :
    Run cli env v.state [v] (.stop .beyondArgv s')
  | step {v : Visit δ} {b : Bool} {s' : Scan δ} {vs : List (Visit δ)} {o : Outcome δ Unit}
    (hnext : b = true → v.next ≠ none)
    (hword : scanWord cli env v.word v.next v.state = .go b s') (hrun : Run cli env s' vs o) :
    Run cli env v.state (v :: vs) o

/-- Every scan is one. -/
theorem run_scan (cli : Cli φ) (env : MatchEnv φ δ) (argv : List Str) (s : Scan δ) :
    Run cli env s (visits cli env argv s) (scan cli env argv s) := by
  fun_induction scan cli env argv s with
  | case1 s => exact .done s
  | case2 word rest s e s' hword =>
    rw [visits, hword]
    exact .ended (v := ⟨word, rest.head?, s⟩) hword
  | case3 word rest s s' hword ih =>
    rw [visits, hword]
    exact .step (v := ⟨word, rest.head?, s⟩) (by simp) hword ih
  | case4 word s s' hword =>
    rw [visits, hword]
    exact .beyond (v := ⟨word, none, s⟩) rfl hword
  | case5 word s s' arg rest hword ih =>
    rw [visits, hword]
    exact .step (v := ⟨word, some arg, s⟩) (by simp) hword ih

variable {held : List (HashStr × Option (OptArg δ))} {vs : List (Visit δ)} {o : Outcome δ Unit}

theorem filterMap_cons_toList {α β : Type*} (f : α → Option β) (a : α) (l : List α) :
    (a :: l).filterMap f = (f a).toList ++ l.filterMap f := by
  rw [List.filterMap_eq_flatMap_toList, List.filterMap_eq_flatMap_toList, List.flatMap_cons]

/-- What a whole scan stores and releases. -/
theorem Run.settles (h : Run cli env s vs o) (happend : NoneAppends cli)
    (hholds : Holds s.found held) :
    Holds o.state.found (held ++ vs.filterMap (storedAt cli env)) ∧
      released o.state.log = released s.log ++
        ((vs.filterMap (rejectedAt cli env)).map fun e => some e.2) ∧
      ∀ u s', o = .go u s' → vs.filterMap (rejectedAt cli env) = [] := by
  -- on the run, with what the table holds general, since every visit adds to it
  induction h generalizing held with
  | done s => simpa using hholds
  | @ended v e s' hword =>
    obtain ⟨hholds', hlog, -⟩ := scanWord_visit happend env hholds v.word v.next
    rw [hword] at hholds' hlog
    rw [filterMap_cons_toList, filterMap_cons_toList]
    exact ⟨by simpa using hholds', by simpa using hlog, by simp⟩
  | @beyond v s' hnext hword =>
    obtain ⟨hholds', hlog, -⟩ := scanWord_visit happend env hholds v.word v.next
    rw [hword] at hholds' hlog
    rw [filterMap_cons_toList, filterMap_cons_toList]
    exact ⟨by simpa using hholds', by simpa using hlog, by simp⟩
  | @step v b s' vs o hnext hword hrun ih =>
    obtain ⟨hholds', hlog, hgoes⟩ := scanWord_visit happend env hholds v.word v.next
    rw [hword] at hholds' hlog
    obtain ⟨hholds'', hlog', hgoes'⟩ := ih hholds'
    rw [filterMap_cons_toList, filterMap_cons_toList, hgoes b s' hword, ← List.append_assoc]
    rw [hgoes b s' hword] at hlog
    refine ⟨hholds'', ?_, hgoes'⟩
    rw [hlog']
    simpa using hlog

/-- A scan that does not end properly has visited the word at which the call is lost. -/
theorem Run.lost_iff (h : Run cli env s vs o) {e : ScanEnd} (he : e ≠ .destroyMatch) :
    (∃ s', o = .stop e s') ↔ ∃ v ∈ vs, lossAt cli v = some e := by
  -- a run goes on only from visits at which nothing is lost
  induction h with
  | done s => simp
  | @ended v e' s' hword =>
    have hmet := scanWord_met cli env v
    rw [hword] at hmet
    rcases hmet.of_stop with ⟨rfl, hloss⟩ | hloss
    · simp [hloss, he.symm]
    · simp [hloss]
  | @beyond v s' hnext hword =>
    have hmet := scanWord_met cli env v
    rw [hword] at hmet
    simp [hmet.of_go, hnext]
  | @step v b s' vs o hnext hword hrun ih =>
    have hmet := scanWord_met cli env v
    rw [hword] at hmet
    have hnot : ¬(b = true ∧ v.next = none) := fun hboth => hnext hboth.1 hboth.2
    simpa [hmet.of_go, hnot] using ih

/-- The words of the visits are those that have been in option position. -/
theorem Run.words (h : Run cli env s vs o) : o.state.words = s.words ++ vs.map (·.word) := by
  have hword (v : Visit δ) :
      (scanWord cli env v.word v.next v.state).state.words = v.state.words ++ [v.word] :=
    (scanWord_within v.word v.next v.state).words
  induction h with
  | done s => simp
  | @ended v e s' h => simpa [h] using hword v
  | @beyond v s' hnext h => simpa [h] using hword v
  | @step v b s' vs o hnext h hrun ih =>
    have hstep := hword v
    rw [h, Outcome.state_go] at hstep
    rw [ih, hstep, List.map_cons, List.append_assoc]
    rfl

/-- What a call comes to, by its visits. -/
inductive Call (cli : Cli φ) (env : MatchEnv φ δ) :
    List (Visit δ) → MatchResult δ × List (MatchEvent δ) → Prop
  | denied : Call cli env [] (.null, [])
  | matched {vs : List (Visit δ)} {s : Scan δ} (hrun : Run cli env .start vs (.go () s))
    (hrequired : ∀ ref ∈ cli.requiredOpts, ∀ node, Live cli ref node →
      node.id ∈ (vs.filterMap (storedAt cli env)).map Prod.fst) :
    Call cli env vs (.match s.found, s.log)
  | missing {vs : List (Visit δ)} {s : Scan δ} (val1 val2 : Option Str)
    (hrun : Run cli env .start vs (.go () s)) : Call cli env vs
      (.null, s.log ++ [.error .requiredNotPresent val1 val2] ++ cliMatchDestroy s.found)
  | ended {vs : List (Visit δ)} {s : Scan δ}
    (hrun : Run cli env .start vs (.stop .destroyMatch s)) :
    Call cli env vs (.null, s.log ++ cliMatchDestroy s.found)
  | lost {vs : List (Visit δ)} {e : ScanEnd} {s : Scan δ} (he : e ≠ .destroyMatch)
    (hrun : Run cli env .start vs (.stop e s)) : Call cli env vs (.lost e, s.log)

theorem leave_of_ne {e : ScanEnd} (he : e ≠ .destroyMatch) (s : Scan δ) :
    leave e s = (.lost e, s.log) := by
  unfold leave
  split
  · exact absurd rfl he
  · rfl

/-- The required options are in the ring, and a node in the ring is there. -/
theorem Registry.live_required (h : Registry cli) {ref : ℕ} (href : ref ∈ cli.requiredOpts) :
    ∃ node, Live cli ref node := by
  obtain ⟨node, hlive, -⟩ := (h.required ref).1 href
  exact ⟨node, hlive⟩

/-- Every call is one. -/
theorem call_cliMatch (h : Made cli) (env : MatchEnv φ δ) (argv : List Str) :
    Call cli env (callVisits cli env argv) (cliMatch cli env argv) := by
  by_cases hdenied : env.mallocMatch = false ∨ env.mallocTable = false
  · have hnull : cliMatch cli env argv = (.null, []) := by
      rcases hdenied with hdenied | hdenied
      · rw [cliMatch, if_pos hdenied]
      · rw [cliMatch, if_pos hdenied]
        split <;> rfl
    rw [callVisits, if_pos hdenied, hnull]
    exact .denied
  obtain ⟨hmatch, htable⟩ := not_or.1 hdenied
  have hrun := run_scan cli env argv (.start : Scan δ)
  obtain ⟨hholds, -, -⟩ := hrun.settles h.noneAppends holds_create
  rw [callVisits, if_neg hdenied, cliMatch, if_neg hmatch, if_neg htable]
  rcases hscan : scan cli env argv .start with ⟨_, s⟩ | ⟨e, s⟩
  · rw [hscan] at hrun hholds
    rw [Outcome.state_go] at hholds
    obtain ⟨hpassed, hmissing⟩ := cliMatchCheckRequired_spec hholds cli.requiredOpts fun _ =>
      h.registry.live_required
    rw [Outcome.bind_go]
    by_cases hrequired : ∀ ref ∈ cli.requiredOpts, ∀ node, Live cli ref node → node.id ∈
        (([] ++ (visits cli env argv .start).filterMap (storedAt cli env)).map Prod.fst)
    · rw [hpassed hrequired]
      exact .matched hrun hrequired
    · obtain ⟨val1, val2, hnull⟩ := hmissing hrequired
      rw [hnull]
      exact .missing val1 val2 hrun
  · -- the scan has ended before the required options are looked at
    rw [hscan] at hrun
    show Call cli env _ (leave e s)
    by_cases he : e = .destroyMatch
    · subst he
      exact .ended hrun
    · rw [leave_of_ne he]
      exact .lost he hrun

/-- A call is lost exactly if one of its visits is. -/
theorem Call.lost_iff {r : MatchResult δ × List (MatchEvent δ)} (h : Call cli env vs r)
    {e : ScanEnd} (he : e ≠ .destroyMatch) :
    r.1 = .lost e ↔ ∃ v ∈ vs, lossAt cli v = some e := by
  cases h with
  | denied => simp
  | matched hrun hrequired => simp [← hrun.lost_iff he]
  | missing val1 val2 hrun => simp [← hrun.lost_iff he]
  | ended hrun => simp [← hrun.lost_iff he, he.symm]
  | lost he' hrun => simp [← hrun.lost_iff he]

/-- The words of the visits of a call. -/
theorem optionWords_eq (cli : Cli φ) (env : MatchEnv φ δ) (argv : List Str) :
    optionWords cli env argv = (callVisits cli env argv).map (·.word) := by
  unfold optionWords callVisits
  split
  · rfl
  · exact (run_scan cli env argv .start).words

end Run

section Reads

/-- No byte is read behind the end of a word, and nothing outside of the array of short names. -/
def ReadsInBounds (cli : Cli φ) (env : MatchEnv φ δ) (argv : List Str) : Prop :=
  (cliMatch cli env argv).1 ≠ .lost (.fault .outOfBounds)

/-- A word begins with two dashes, or it is not looked up as it begins with none and errors are
fatal, or it has a second byte, which may be its NUL, other than the last one there is. -/
def Readable (cli : Cli φ) (word : Str) : Prop :=
  optIsLong word = true ∨ (cli.strict = true ∧ charAt word 0 ≠ some dash) ∨
    ∃ c, charAt word 1 = some c ∧ c.toNat < UCHAR_MAX

theorem shortNameEntry_outOfBounds (h : Registry cli) (word : Str) :
    shortNameEntry cli word = .error .outOfBounds ↔
      ¬∃ c, charAt word 1 = some c ∧ c.toNat < UCHAR_MAX := by
  rw [shortNameEntry, shortNameFromShortOpt, ← h.shortNames]
  rcases hchar : charAt word 1 with _ | c
  · simp
  · rcases harr : cli.optsByShortNameArr[c.toNat]? with _ | entry
    · simpa [harr] using List.getElem?_eq_none_iff.1 harr
    · simpa [harr] using (List.getElem?_eq_some_iff.1 harr).1

/-- The lookup of a word stays in bounds exactly if the word is readable. -/
theorem resolve_outOfBounds (h : Registry cli) (word : Str) :
    resolve cli word = .error .outOfBounds ↔ ¬Readable cli word := by
  -- what is found in the array is not used to index anything
  have hnode (entry : Option ℕ) : nodeOf cli entry ≠ .error .outOfBounds := by
    rcases entry with _ | ref
    · simp [nodeOf]
    · rw [nodeOf]
      split <;> simp
  have hentry : resolve cli word = .error .outOfBounds ↔
      entryOf cli word = .error .outOfBounds := by
    rw [resolve]
    rcases entryOf cli word with f | entry
    · simp [Except.bind]
    · simpa [Except.bind] using hnode entry
  rw [hentry, entryOf, Readable]
  by_cases hlong : optIsLong word = true
  · simp [hlong]
  · rw [if_neg hlong, or_iff_right hlong]
    by_cases hlookup : cli.strict = true ∧ charAt word 0 ≠ some dash
    · rw [if_pos hlookup]
      simp [hlookup]
    · rw [if_neg hlookup, or_iff_right hlookup]
      exact shortNameEntry_outOfBounds h word

theorem lossAt_outOfBounds (h : Registry cli) (v : Visit δ) :
    lossAt cli v = some (.fault .outOfBounds) ↔ ¬Readable cli v.word := by
  rw [← resolve_outOfBounds h, lossAt]
  rcases resolve cli v.word with f | _ | node
  · simp
  · simp
  · -- a word that is found is lost otherwise
    have hhandler : cliHandleInternal node ≠ .fault .outOfBounds := by
      rw [cliHandleInternal]
      split <;> simp
    refine iff_of_false ?_ (by simp)
    dsimp only
    split
    · simpa using hhandler
    · split
      · split <;> simp
      · simp

/-- How a call was lost. -/
def MatchResult.loss : MatchResult δ → Option ScanEnd
  | .lost e => some e
  | _ => none

theorem MatchResult.loss_eq_some {r : MatchResult δ} {e : ScanEnd} :
    r.loss = some e ↔ r = .lost e := by
  rcases r with _ | _ | e' <;> simp [MatchResult.loss]

/-- For every registry that can be made, every `argv` and in both modes: the reads on behalf of the
words stay in bounds exactly if every word in option position is readable. -/
theorem readsInBounds_iff (h : Made cli) (env : MatchEnv φ δ) (argv : List Str) :
    ReadsInBounds cli env argv ↔ ∀ word ∈ optionWords cli env argv, Readable cli word := by
  rw [ReadsInBounds, ne_eq, (call_cliMatch h env argv).lost_iff (by simp), optionWords_eq,
    List.forall_mem_map]
  simp only [lossAt_outOfBounds h.registry, not_exists, not_and, not_not]

/-- The option that `main` has for the help is read in bounds. -/
theorem readsInBounds_help :
    ReadsInBounds mainCli (failingParsers : MatchEnv Unit Unit) [str "-h"] := by
  have hwords : optionWords mainCli (failingParsers : MatchEnv Unit Unit) [str "-h"] =
      [str "-h"] := by
    decide +kernel
  refine (readsInBounds_iff (.create cliCreate_mainCli) failingParsers _).2 ?_
  rw [hwords]
  intro word hword
  obtain rfl := List.mem_singleton.1 hword
  exact .inr (.inr ⟨BitVec.ofNat 8 'h'.toNat, by decide, by decide⟩)

/-- In the registry that `main` makes, a dash with the byte 255 behind it reads the array of short
names at its length. -/
theorem not_readsInBounds_last_byte : ¬∀ cli : Cli Unit, Made cli →
    ∀ (env : MatchEnv Unit Unit) (argv : List Str), ReadsInBounds cli env argv := by
  intro h
  refine h mainCli (.create cliCreate_mainCli) failingParsers [[dash, 255]] ?_
  rw [← MatchResult.loss_eq_some]
  decide +kernel

end Reads

end Qkmetisc.CommandLine
