import Mathlib.Data.List.Perm.Basic
import Qkmetisc.CommandLine.Held

/-!
# The order of the arguments

Where errors are fatal, what `cli_match` makes of its arguments does not depend on the order of
the groups, an option with its argument being one group. The match holds what the groups store, in
their order; whether there is a match, and what can be looked up in it, depends on the stored
entries only.

## Main definitions

* `groups`: the groups that `argv` falls into.
* `Stores`: what a group stores.
* `Accepts`: the condition for a match, on the entries.

## Main results

* `scan_groups`: the scan of groups, from any state.
* `exists_stores_of_scan`: a scan that reaches the `NULL` has gone over groups.
* `cliMatch_groups`: the whole call.
* `cliMatch_perm`: permutations of the groups.
-/

namespace Qkmetisc.CommandLine

variable {φ δ : Type*} {cli : Cli φ} {env : MatchEnv φ δ} {word : Str} {s : Scan δ}

section Groups

/-- A word stands for an option with an argument. -/
def takesArg (cli : Cli φ) (word : Str) : Bool :=
  match resolve cli word with
  | .ok (some node) => node.hasArg
  | _ => false

/-- The groups of `argv`: a word in option position, together with the word behind it if it takes
an argument. -/
def groups (cli : Cli φ) : List Str → List (List Str)
  | [] => []
  | [word] => [[word]]
  | word :: arg :: rest =>
    if takesArg cli word then [word, arg] :: groups cli rest
    else [word] :: groups cli (arg :: rest)

/-- What a group stores. A parser must not look at anything but the argument. -/
inductive Stores (cli : Cli φ) (env : MatchEnv φ δ) :
    List Str → HashStr × Option (OptArg δ) → Prop
  | flag {word : Str} {node : OptNode φ} (h : resolve cli word = .ok (some node))
    (harg : node.hasArg = false) : Stores cli env [word] (node.id, none)
  | arg {word argStr : Str} {node : OptNode φ} {p : φ} {arg : OptArg δ}
    (h : resolve cli word = .ok (some node)) (harg : node.hasArg = true)
    (hparser : node.funcs = .parser (some p)) (hparse : ∀ i, env.parse i p argStr = some arg) :
    Stores cli env [word, argStr] (node.id, some arg)

theorem groups_of_flag (h : takesArg cli word = false) (rest : List Str) :
    groups cli (word :: rest) = [word] :: groups cli rest := by
  match rest with
  | [] => rfl
  | arg :: rest => rw [groups, if_neg (by simp [h])]

/-- The groups are `argv`, taken apart. -/
theorem flatten_groups (argv : List Str) : (groups cli argv).flatten = argv := by
  fun_induction groups cli argv with
  | case1 => rfl
  | case2 word => rfl
  | case3 word arg rest h ih => rw [List.flatten_cons, ih]; rfl
  | case4 word arg rest h ih => rw [List.flatten_cons, ih]; rfl

end Groups

section Plain

/-- The registry has no internal option. -/
def NoneInternal (cli : Cli φ) : Prop := ∀ ref node, Live cli ref node → node.internal = false

/-- Parsers look at nothing but the argument. -/
def PureParsers (env : MatchEnv φ δ) : Prop :=
  ∀ i j p argStr, env.parse i p argStr = env.parse j p argStr

theorem NoneInternal.of_resolve (h : NoneInternal cli) {node : OptNode φ}
    (hresolve : resolve cli word = .ok (some node)) : node.internal = false := by
  obtain ⟨ref, -, hlive⟩ := resolve_eq_some.1 hresolve
  exact h ref node hlive

end Plain

section Scan

variable {g : List Str} {gs : List (List Str)} {e : HashStr × Option (OptArg δ)}
  {es held : List (HashStr × Option (OptArg δ))}

/-- An entry can be stored: its option is not there, and there is memory for it. -/
def CanStore (env : MatchEnv φ δ) (held : List (HashStr × Option (OptArg δ)))
    (e : HashStr × Option (OptArg δ)) : Prop :=
  e.1 ∉ held.map Prod.fst ∧ (env.alloc e.1.str).granted

/-- Entries can be stored one after another. -/
def CanStoreAll (env : MatchEnv φ δ) (held es : List (HashStr × Option (OptArg δ))) : Prop :=
  ((held ++ es).map Prod.fst).Nodup ∧ ∀ e ∈ es, (env.alloc e.1.str).granted

theorem canStoreAll_cons :
    CanStoreAll env held (e :: es) ↔ CanStore env held e ∧ CanStoreAll env (held ++ [e]) es := by
  unfold CanStoreAll CanStore
  rw [List.append_cons, List.forall_mem_cons]
  constructor
  · rintro ⟨hnodup, ha, has⟩
    refine ⟨⟨fun hmem => ?_, ha⟩, hnodup, has⟩
    have hpart : ((held ++ [e]).map Prod.fst).Nodup :=
      hnodup.sublist ((List.sublist_append_left _ es).map _)
    rw [List.map_append, List.nodup_append] at hpart
    exact hpart.2.2 _ hmem _ (List.mem_singleton_self _) rfl
  · rintro ⟨⟨-, ha⟩, hnodup, has⟩
    exact ⟨hnodup, ha, has⟩

/-- Storing an argument, where a repeated option is a fatal error. -/
theorem storeArg_strict (env : MatchEnv φ δ) (hstrict : cli.strict = true) {node : OptNode φ}
    (happend : node.append = false) (hholds : Holds s.found held) (opt : Str)
    (arg : Option (OptArg δ)) :
    (CanStore env held (node.id, arg) → ∃ s', storeArg cli env node opt arg s = .go () s' ∧
      Holds s'.found (held ++ [(node.id, arg)])) ∧
    (¬CanStore env held (node.id, arg) →
      ∃ s', storeArg cli env node opt arg s = .stop .destroyMatch s') := by
  constructor
  · rintro ⟨hnew, ha⟩
    obtain ⟨found, hstore, hholds'⟩ := storeArg_new cli opt arg hholds hnew ha
    exact ⟨_, hstore, hholds'⟩
  · intro hcan
    by_cases hmem : node.id ∈ held.map Prod.fst
    · exact ⟨_, (storeArg_repeated hholds happend hmem).1 hstrict⟩
    · obtain ⟨found, hstore, -⟩ := storeArg_denied hholds hmem fun ha => hcan ⟨hmem, ha⟩
      exact ⟨_, hstore⟩

/-- The scan of a group comes to storing its entry. -/
theorem scan_of_stores (hinternal : NoneInternal cli) (hstores : Stores cli env g e)
    (s : Scan δ) (rest : List Str) :
    ∃ word node errs, resolve cli word = .ok (some node) ∧ node.id = e.1 ∧
      scan cli env (g ++ rest) s =
        (storeArg cli env node word e.2 (s.after word errs)).bind fun _ s =>
          scan cli env rest s := by
  cases hstores with
  | @flag word node h harg =>
    obtain ⟨errs, -, hword⟩ := scanWord_of_some env (rest.head?) h s
    rw [scanOpt_flag (hinternal.of_resolve h) harg] at hword
    refine ⟨word, node, errs, h, rfl, ?_⟩
    show scan cli env (word :: rest) s = _
    rw [scan, hword]
    match storeArg cli env node word none (s.after word errs) with
    | .go _ s' => rfl
    | .stop e s' => rfl
  | @arg word argStr node p arg h harg hparser hparse =>
    obtain ⟨errs, -, hword⟩ := scanWord_of_some env (some argStr) h s
    rw [scanOpt_arg (hinternal.of_resolve h) harg hparser, hparse] at hword
    refine ⟨word, node, errs, h, rfl, ?_⟩
    show scan cli env (word :: argStr :: rest) s = _
    rw [scan, List.head?_cons, hword]
    dsimp only
    match storeArg cli env node word (some arg) (s.after word errs) with
    | .go _ s' => rfl
    | .stop e s' => rfl

/-- The scan of one group. -/
theorem scan_group (hstrict : cli.strict = true) (happend : NoneAppends cli)
    (hinternal : NoneInternal cli) (hstores : Stores cli env g e) (hholds : Holds s.found held)
    (rest : List Str) :
    (CanStore env held e → ∃ s', scan cli env (g ++ rest) s = scan cli env rest s' ∧
      Holds s'.found (held ++ [e])) ∧
    (¬CanStore env held e → ∃ s', scan cli env (g ++ rest) s = .stop .destroyMatch s') := by
  obtain ⟨word, node, errs, hresolve, hid, hscan⟩ := scan_of_stores hinternal hstores s rest
  obtain ⟨id, arg⟩ := e
  obtain rfl : node.id = id := hid
  have hafter : Holds (s.after word errs).found held := hholds
  obtain ⟨hgo, hstop⟩ := storeArg_strict env hstrict (happend.of_resolve hresolve) hafter
    word arg
  rw [hscan]
  constructor
  · intro hcan
    obtain ⟨s', hstore, hholds'⟩ := hgo hcan
    exact ⟨s', by rw [hstore, Outcome.bind_go], hholds'⟩
  · intro hcan
    obtain ⟨s', hstore⟩ := hstop hcan
    exact ⟨s', by rw [hstore, Outcome.bind_stop]⟩

/-- The scan of groups, from any state. -/
theorem scan_groups (hstrict : cli.strict = true) (happend : NoneAppends cli)
    (hinternal : NoneInternal cli) (hes : List.Forall₂ (Stores cli env) gs es)
    (hholds : Holds s.found held) :
    (CanStoreAll env held es →
      ∃ s', scan cli env gs.flatten s = .go () s' ∧ Holds s'.found (held ++ es)) ∧
    (¬CanStoreAll env held es → ∃ s', scan cli env gs.flatten s = .stop .destroyMatch s') := by
  induction hes generalizing s held with
  | nil =>
    constructor
    · exact fun _ => ⟨s, rfl, by rwa [List.append_nil]⟩
    · exact fun hcan => absurd ⟨by simpa using hholds.nodup, nofun⟩ hcan
  | @cons g e gs es hstores hes ih =>
    obtain ⟨hgo, hstop⟩ := scan_group hstrict happend hinternal hstores hholds gs.flatten
    rw [canStoreAll_cons, List.flatten_cons, List.append_cons held e es]
    by_cases hcan : CanStore env held e
    · obtain ⟨s', hscan, hholds'⟩ := hgo hcan
      rw [hscan, and_iff_right hcan]
      exact ih hholds'
    · obtain ⟨s', hscan⟩ := hstop hcan
      constructor
      · exact fun hall => absurd hall.1 hcan
      · exact fun _ => ⟨s', hscan⟩

/-- A word after which the scan goes on, where errors are fatal, begins a group that stores an
entry. -/
theorem stores_of_scanWord (hstrict : cli.strict = true) (hpure : PureParsers env)
    {next : Option Str} {b : Bool} {s' : Scan δ}
    (hword : scanWord cli env word next s = .go b s') :
    takesArg cli word = b ∧ (b = false → ∃ e, Stores cli env [word] e) ∧
      (b = true → ∀ argStr, next = some argStr → ∃ e, Stores cli env [word, argStr] e) := by
  obtain ⟨errs, -, hbody⟩ := scanWord_cases cli env word next s
  rw [hword] at hbody
  have htakes {node : OptNode φ} (h : resolve cli word = .ok (some node)) :
      takesArg cli word = node.hasArg := by
    rw [takesArg, h]
  cases hbody with
  | fault h ho => cases ho
  | fatal h hfatal ho => cases ho
  | unknown h hlenient ho => cases hlenient.symm.trans hstrict
  | internal h hint ho => cases ho
  | flag h hint harg ho =>
    obtain rfl := Outcome.eq_of_bind_go ho.symm
    exact ⟨(htakes h).trans harg, fun _ => ⟨_, .flag h harg⟩, by simp⟩
  | lacking h hint harg hnext ho =>
    rw [cliPrintError, if_pos hstrict] at ho
    cases ho
  | rejected h hint harg hnext hparser hparse ho =>
    rw [cliPrintError, if_pos hstrict] at ho
    cases ho
  | arg h hint harg hnext hparser hparse ho =>
    obtain rfl := Outcome.eq_of_bind_go ho.symm
    refine ⟨(htakes h).trans harg, by simp, fun _ argStr hnext' => ?_⟩
    obtain rfl := Option.some.inj (hnext.symm.trans hnext')
    exact ⟨_, .arg h harg hparser fun i => (hpure _ _ _ _).trans hparse⟩
  | unset h hint harg hnext hparser ho => cases ho

/-- A scan that reaches the `NULL` has gone over groups. -/
theorem exists_stores_of_scan (hstrict : cli.strict = true) (hpure : PureParsers env)
    (argv : List Str) {s' : Scan δ}
    (hscan : scan cli env argv s = .go () s') :
    ∃ es, List.Forall₂ (Stores cli env) (groups cli argv) es := by
  fun_induction scan cli env argv s with
  | case1 s => exact ⟨[], .nil⟩
  | case2 word rest s e s'' hword => cases hscan
  | case3 word rest s s'' hword ih =>
    obtain ⟨htakes, hflag, -⟩ := stores_of_scanWord hstrict hpure hword
    obtain ⟨e, hstores⟩ := hflag rfl
    obtain ⟨es, hes⟩ := ih hscan
    rw [groups_of_flag htakes]
    exact ⟨e :: es, .cons hstores hes⟩
  | case4 word s s'' hword => cases hscan
  | case5 word s s'' arg rest hword ih =>
    obtain ⟨htakes, -, harg⟩ := stores_of_scanWord hstrict hpure hword
    obtain ⟨e, hstores⟩ := harg rfl arg rfl
    obtain ⟨es, hes⟩ := ih hscan
    rw [groups, if_pos htakes]
    exact ⟨e :: es, .cons hstores hes⟩

end Scan

section Call

variable {gs : List (List Str)} {es es' held : List (HashStr × Option (OptArg δ))}

/-- The condition for a match, on the entries that the groups store. -/
structure Accepts (cli : Cli φ) (env : MatchEnv φ δ) (es : List (HashStr × Option (OptArg δ))) :
    Prop where
  malloc : env.mallocMatch = true ∧ env.mallocTable = true
  /-- No option is repeated, and there is memory for every one. -/
  store : CanStoreAll env [] es
  required : ∀ ref ∈ cli.requiredOpts, ∀ node, Live cli ref node → node.id ∈ es.map Prod.fst

/-- The order of the entries does not matter. -/
theorem Accepts.perm (h : Accepts cli env es) (hperm : es.Perm es') : Accepts cli env es' where
  malloc := h.malloc
  store := by
    obtain ⟨hnodup, ha⟩ := h.store
    exact ⟨(hperm.map Prod.fst).nodup_iff.1 hnodup, fun e he => ha e (hperm.mem_iff.2 he)⟩
  required := fun ref href node hlive =>
    (hperm.map Prod.fst).mem_iff.1 (h.required ref href node hlive)

/-- What the call makes of groups. -/
theorem cliMatch_groups (h : Made cli) (hstrict : cli.strict = true)
    (hinternal : NoneInternal cli) (hes : List.Forall₂ (Stores cli env) gs es) :
    (Accepts cli env es →
      ∃ m log, cliMatch cli env gs.flatten = (.match m, log) ∧ Holds m es) ∧
    (¬Accepts cli env es → (cliMatch cli env gs.flatten).1 = .null) := by
  have hrefs : ∀ ref ∈ cli.requiredOpts, ∃ node, Live cli ref node := by
    intro ref href
    obtain ⟨node, hlive, -⟩ := (h.registry.required ref).1 href
    exact ⟨node, hlive⟩
  obtain ⟨hgo, hstop⟩ := scan_groups (s := .start) hstrict h.noneAppends hinternal hes holds_create
  unfold cliMatch
  by_cases hmatch : env.mallocMatch = false
  · rw [if_pos hmatch]
    exact ⟨fun hacc => absurd (hmatch.symm.trans hacc.malloc.1) nofun, fun _ => rfl⟩
  rw [if_neg hmatch]
  by_cases htable : env.mallocTable = false
  · rw [if_pos htable]
    exact ⟨fun hacc => absurd (htable.symm.trans hacc.malloc.2) nofun, fun _ => rfl⟩
  rw [if_neg htable]
  by_cases hstore : CanStoreAll env [] es
  · -- the loop ends at the `NULL`, and the required options decide
    obtain ⟨s', hscan, hholds⟩ := hgo hstore
    obtain ⟨hpassed, hmissing⟩ := cliMatchCheckRequired_spec hholds cli.requiredOpts hrefs
    rw [hscan, Outcome.bind_go]
    constructor
    · intro hacc
      rw [hpassed hacc.required]
      exact ⟨_, _, rfl, hholds⟩
    · intro hacc
      obtain ⟨val1, val2, hnull⟩ := hmissing fun hrequired =>
        hacc ⟨⟨by simpa using hmatch, by simpa using htable⟩, hstore, hrequired⟩
      rw [hnull]
      rfl
  · obtain ⟨s', hscan⟩ := hstop hstore
    rw [hscan, Outcome.bind_stop]
    exact ⟨fun hacc => absurd hacc.store hstore, fun _ => rfl⟩

/-- Two matches that hold the same entries look up the same. -/
theorem Holds.getArg_perm {m m' : CliMatch δ} (h : Holds m es) (h' : Holds m' es')
    (hperm : es.Perm es') (id : HashStr) : cliMatchGetArg m' id.str = cliMatchGetArg m id.str := by
  by_cases hmem : id ∈ es.map Prod.fst
  · obtain ⟨⟨id, arg⟩, he, rfl⟩ := List.mem_map.1 hmem
    rw [h.getArg he, h'.getArg (hperm.mem_iff.1 he)]
  · rw [h.getArg_eq_none hmem, h'.getArg_eq_none fun hmem' =>
      hmem ((hperm.map Prod.fst).mem_iff.2 hmem')]

/-- A call that makes a match has gone over groups, and the match holds what they store. -/
theorem exists_stores_of_cliMatch (h : Made cli) (hstrict : cli.strict = true)
    (hinternal : NoneInternal cli) (hpure : PureParsers env) {argv : List Str} {m : CliMatch δ}
    {log : List (MatchEvent δ)} (hmatch : cliMatch cli env argv = (.match m, log)) :
    ∃ es, List.Forall₂ (Stores cli env) (groups cli argv) es ∧ Accepts cli env es ∧ Holds m es := by
  have hscan : ∃ s' : Scan δ, scan cli env argv .start = .go () s' := by
    unfold cliMatch at hmatch
    split at hmatch
    · cases hmatch
    · split at hmatch
      · cases hmatch
      · match hscan : scan cli env argv .start with
        | .go _ s' => exact ⟨s', rfl⟩
        | .stop e s' =>
          rw [hscan] at hmatch
          simp only [Outcome.bind_stop, leave] at hmatch
          split at hmatch <;> cases hmatch
  obtain ⟨s', hscan⟩ := hscan
  obtain ⟨es, hes⟩ := exists_stores_of_scan hstrict hpure argv hscan
  obtain ⟨haccepted, hrejected⟩ := cliMatch_groups h hstrict hinternal hes
  rw [flatten_groups, hmatch] at haccepted hrejected
  by_cases hacc : Accepts cli env es
  · obtain ⟨m', log', heq, hholds⟩ := haccepted hacc
    obtain ⟨rfl, rfl⟩ : m = m' ∧ log = log' := by simpa using heq
    exact ⟨es, hes, hacc, hholds⟩
  · cases hrejected hacc

/-- Groups of which each stores something store some entries. -/
theorem exists_stores (hfine : ∀ g ∈ gs, ∃ e, Stores cli env g e) :
    ∃ es, List.Forall₂ (Stores cli env) gs es := by
  induction gs with
  | nil => exact ⟨[], .nil⟩
  | cons g gs ih =>
    rw [List.forall_mem_cons] at hfine
    obtain ⟨⟨e, hstores⟩, hfine⟩ := hfine
    obtain ⟨es, hes⟩ := ih hfine
    exact ⟨e :: es, .cons hstores hes⟩

/-- For every registry that can be made, without internal options and where errors are fatal, and
with parsers that look at nothing but their argument: if a match is made of `argv`, one is made of
every permutation of its groups, and it has the same arguments; and if none is made although every
group is an option with an argument that can be parsed, as an option is missing or repeated, none
is made of any permutation. -/
theorem cliMatch_perm (h : Made cli) (hstrict : cli.strict = true) (hinternal : NoneInternal cli)
    (hpure : PureParsers env) (argv : List Str) {gs : List (List Str)}
    (hperm : (groups cli argv).Perm gs) :
    (∀ m log, cliMatch cli env argv = (.match m, log) →
      ∃ m' log', cliMatch cli env gs.flatten = (.match m', log') ∧
        ∀ ref node, Live cli ref node → node.hasArg = true →
          cliMatchGetArg m' node.id.str = cliMatchGetArg m node.id.str) ∧
    ((∀ g ∈ groups cli argv, ∃ e, Stores cli env g e) → (cliMatch cli env argv).1 = .null →
      (cliMatch cli env gs.flatten).1 = .null) := by
  -- the entries come in the order of the groups
  have hreorder {es : List (HashStr × Option (OptArg δ))}
      (hes : List.Forall₂ (Stores cli env) (groups cli argv) es) :
      ∃ es', List.Forall₂ (Stores cli env) gs es' ∧ es'.Perm es :=
    List.perm_comp_forall₂ hperm.symm hes
  constructor
  · intro m log hmatch
    obtain ⟨es, hes, hacc, hholds⟩ := exists_stores_of_cliMatch h hstrict hinternal hpure hmatch
    obtain ⟨es', hes', hperm'⟩ := hreorder hes
    obtain ⟨m', log', hmatch', hholds'⟩ :=
      (cliMatch_groups h hstrict hinternal hes').1 (hacc.perm hperm'.symm)
    refine ⟨m', log', hmatch', fun ref node _ _ => ?_⟩
    exact hholds.getArg_perm hholds' hperm'.symm node.id
  · intro hfine hnull
    obtain ⟨es, hes⟩ := exists_stores hfine
    obtain ⟨es', hes', hperm'⟩ := hreorder hes
    refine (cliMatch_groups h hstrict hinternal hes').2 fun hacc => ?_
    -- the same entries would have been accepted
    obtain ⟨m, log, hmatch, -⟩ :=
      (cliMatch_groups h hstrict hinternal hes).1 (hacc.perm hperm')
    rw [flatten_groups] at hmatch
    rw [hmatch] at hnull
    cases hnull

/-- The call has returned a match. -/
def MatchResult.isMatch : MatchResult δ → Bool
  | .match _ => true
  | _ => false

theorem exists_match {r : MatchResult δ × List (MatchEvent δ)} (h : r.1.isMatch = true) :
    ∃ m log, r = (.match m, log) := by
  obtain ⟨_ | _ | _, log⟩ := r
  · exact ⟨_, log, rfl⟩
  · cases h
  · cases h

/-- Two options in either order. -/
theorem cliMatch_perm_port : ∃ m log m' log',
    cliMatch (portCli cliStrict) copyingParsers [str "-p", str "80", str "-l", str "debug"] =
      (.match m, log) ∧
    cliMatch (portCli cliStrict) copyingParsers [str "-l", str "debug", str "-p", str "80"] =
      (.match m', log') ∧
    cliMatchGetArg m' (str "port") = cliMatchGetArg m (str "port") := by
  have hinternal : NoneInternal (portCli cliStrict) := by
    have hheap : (portCli cliStrict).heap.all
        (fun entry => entry.all fun node => node.internal = false) = true := by
      decide +kernel
    exact fun ref node hlive => of_decide_eq_true (hlive.of_all hheap)
  have hgroups : groups (portCli cliStrict) [str "-p", str "80", str "-l", str "debug"] =
      [[str "-p", str "80"], [str "-l", str "debug"]] := by
    decide +kernel
  have hpure : PureParsers copyingParsers := fun _ _ _ _ => rfl
  obtain ⟨hsame, -⟩ := cliMatch_perm (made_portCli (.inr rfl)) (by decide +kernel) hinternal hpure
    [str "-p", str "80", str "-l", str "debug"] (hgroups ▸ List.Perm.swap _ _ _)
  -- the option `port` is the second node
  have hport : ((portCli cliStrict).heap[1]?.bind id).map (fun node => (node.id.str, node.hasArg)) =
      some (str "port", true) := by
    decide +kernel
  obtain ⟨node, hlive, hnode⟩ := Option.map_eq_some_iff.1 hport
  obtain ⟨hid, harg⟩ := Prod.mk.inj hnode
  have hlive : Live (portCli cliStrict) 1 node := by
    obtain ⟨entry, hentry, rfl⟩ := Option.bind_eq_some_iff.1 hlive
    exact hentry
  obtain ⟨m, log, hmatch⟩ := exists_match (by decide +kernel : (cliMatch (portCli cliStrict)
    copyingParsers [str "-p", str "80", str "-l", str "debug"]).1.isMatch = true)
  obtain ⟨m', log', hmatch', hget⟩ := hsame m log hmatch
  exact ⟨m, log, m', log', hmatch, hmatch', hid ▸ hget 1 node hlive harg⟩

end Call

end Qkmetisc.CommandLine
