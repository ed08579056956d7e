import Qkmetisc.CommandLine.Items
import Qkmetisc.CommandLine.Visits

/-!
# Going on after errors

Where errors are not fatal, `cli_match` should report each offending item of `argv` and otherwise
behave as if it were not there: a word that names no option, an option with an argument that its
parser rejects, an option that is repeated, and a last option without its argument.

That the condition for this is enough is a simulation: the scan of `argv` is the scan of the other
items, with the errors before everything else. That it is necessary where no allocation fails is an
account of the words: every event stands for the words of one item, and a word that is reported
early is reported once more than that.

## Main definitions

* `cleaned`, `deletedErrors`: `argv` without its offending items, and one error for each of them.
* `BehavesAsCleaned`: a call does what it would do without them, after these errors.
* `Tolerated`: the condition on the offending items.
* `Accounted`: the words that a scan has accounted for.

## Main results

* `scan_items`: the simulation.
* `scan_accounted`: a whole scan accounts for all words.
* `behavesAsCleaned_iff_tolerated`: the condition is enough, and exact where no allocation fails.
-/

namespace Qkmetisc.CommandLine

variable {φ δ : Type*} {cli : Cli φ} {env : MatchEnv φ δ} {word : Str} {node : OptNode φ}
  {s : Scan δ}

section Cleaned

/-- The words of the items that do not offend. -/
def keptWords (its : List (Item δ)) : List Str :=
  (its.filter (·.error.isNone)).flatMap Item.words

/-- `argv` without its offending items. -/
def cleaned (cli : Cli φ) (env : MatchEnv φ δ) (argv : List Str) : List Str :=
  keptWords (items cli env [] argv)

/-- One error for each offending item. -/
def deletedErrors (cli : Cli φ) (env : MatchEnv φ δ) (argv : List Str) : List (MatchEvent δ) :=
  (items cli env [] argv).filterMap Item.error

/-- A call reports each offending item once, and otherwise does what it would do without them. -/
def BehavesAsCleaned (cli : Cli φ) (env : MatchEnv φ δ) (argv : List Str) : Prop :=
  cliMatch cli env argv = ((cliMatch cli env (cleaned cli env argv)).1,
    deletedErrors cli env argv ++ (cliMatch cli env (cleaned cli env argv)).2)

/-- Every offending item does no harm, and the entries before it could all be stored. -/
def Tolerable (cli : Cli φ) (env : MatchEnv φ δ) (its : List (Item δ)) : Prop :=
  ∀ front item rest, its = front ++ item :: rest → item.error ≠ none →
    item.Harmless cli ∧ ∀ e ∈ front.filterMap Item.entry, (env.alloc e.1.str).granted

/-- The condition on the offending items of `argv`: the memory for a match was there, and each of
them does no harm and is come to. -/
def Tolerated (cli : Cli φ) (env : MatchEnv φ δ) (argv : List Str) : Prop :=
  Tolerable cli env (items cli env [] argv) ∧
    (deletedErrors cli env argv ≠ [] → env.mallocMatch = true ∧ env.mallocTable = true)

/-- No allocation fails. -/
structure MatchEnv.Granted (env : MatchEnv φ δ) : Prop where
  mallocMatch : env.mallocMatch = true
  mallocTable : env.mallocTable = true
  alloc : ∀ id, (env.alloc id).granted

end Cleaned

section Simulation

variable {errs : List (MatchEvent δ)} {held : List (HashStr × Option (OptArg δ))}
  {its : List (Item δ)} {t : Scan δ} {o o' : Outcome δ Unit}

/-- An outcome is another one, with these errors before everything else. -/
inductive Follows (errs : List (MatchEvent δ)) : Outcome δ Unit → Outcome δ Unit → Prop
  | go {s t : Scan δ} (hfound : s.found = t.found) (hlog : s.log = errs ++ t.log) :
    Follows errs (.go () s) (.go () t)
  | stop {e : ScanEnd} {s t : Scan δ} (hfound : s.found = t.found) (hlog : s.log = errs ++ t.log) :
    Follows errs (.stop e s) (.stop e t)

/-- The check for the required options looks at what was found only. -/
theorem follows_checkRequired (refs : List ℕ) (hfound : s.found = t.found)
    (hlog : s.log = errs ++ t.log) :
    Follows errs (cliMatchCheckRequired cli refs s) (cliMatchCheckRequired cli refs t) := by
  induction refs with
  | nil => exact .go hfound hlog
  | cons ref refs ih =>
    rw [cliMatchCheckRequired, cliMatchCheckRequired, hfound]
    rcases cli.heap[ref]? with _ | _ | node
    · exact .stop hfound hlog
    · exact .stop hfound hlog
    · dsimp only
      rcases t.found.nodesByIdHt.get node.id node.id.key with _ | place
      · refine .stop hfound ?_
        rw [observe_log, observe_log, hlog, List.append_assoc]
      · exact ih

/-- What `cli_match` makes of the outcome of its loop. -/
def finish (cli : Cli φ) (o : Outcome δ Unit) : MatchResult δ × List (MatchEvent δ) :=
  match o.bind fun _ s => cliMatchCheckRequired cli cli.requiredOpts s with
  | .stop e s => leave e s
  | .go _ s => (.match s.found, s.log)

theorem cliMatch_eq_finish (hmatch : env.mallocMatch = true) (htable : env.mallocTable = true)
    (argv : List Str) : cliMatch cli env argv = finish cli (scan cli env argv .start) := by
  rw [cliMatch, if_neg (by simp [hmatch]), if_neg (by simp [htable])]
  rfl

theorem Follows.finish (h : Follows errs o o') :
    finish cli o = ((finish cli o').1, errs ++ (finish cli o').2) := by
  have hchecked : Follows errs (o.bind fun _ s => cliMatchCheckRequired cli cli.requiredOpts s)
      (o'.bind fun _ s => cliMatchCheckRequired cli cli.requiredOpts s) := by
    cases h with
    | go hfound hlog => exact follows_checkRequired _ hfound hlog
    | stop hfound hlog => exact .stop hfound hlog
  unfold CommandLine.finish
  generalize (o.bind fun _ s => cliMatchCheckRequired cli cli.requiredOpts s) = p at hchecked ⊢
  generalize (o'.bind fun _ s => cliMatchCheckRequired cli cli.requiredOpts s) = p' at hchecked ⊢
  cases hchecked with
  | @go s t hfound hlog =>
    show (MatchResult.match s.found, s.log) = (.match t.found, errs ++ t.log)
    rw [hfound, hlog]
  | @stop e s t hfound hlog =>
    show leave e s = ((leave e t).1, errs ++ (leave e t).2)
    by_cases he : e = .destroyMatch
    · subst he
      rw [leave, leave, hfound, hlog, List.append_assoc]
    · rw [leave_of_ne he, leave_of_ne he, hlog]

theorem Tolerable.tail {item : Item δ} (h : Tolerable cli env (item :: its)) :
    Tolerable cli env its := by
  intro front other rest hits herror
  obtain ⟨hharmless, hgranted⟩ := h (item :: front) other rest (by rw [hits]; rfl) herror
  refine ⟨hharmless, fun e he => hgranted e ?_⟩
  rw [List.filterMap_cons]
  split
  · exact he
  · exact List.mem_cons_of_mem _ he

/-- If the entry of the first item cannot be stored, no item behind it offends. -/
theorem Tolerable.filterMap_error {item : Item δ} (h : Tolerable cli env (item :: its))
    {e : HashStr × Option (OptArg δ)} (hentry : item.entry = some e)
    (ha : ¬(env.alloc e.1.str).granted) : its.filterMap Item.error = [] := by
  rw [List.filterMap_eq_nil_iff]
  intro other hmem
  by_contra herror
  obtain ⟨front, rest, rfl⟩ := List.append_of_mem hmem
  obtain ⟨-, hgranted⟩ := h (item :: front) other rest rfl herror
  exact ha (hgranted e (by simp [hentry]))

theorem keptWords_cons_deleted {item : Item δ} {e : MatchEvent δ} (he : item.error = some e) :
    keptWords (item :: its) = keptWords its := by
  simp [keptWords, he]

theorem keptWords_cons_kept {item : Item δ} (he : item.error = none) :
    keptWords (item :: its) = item.words ++ keptWords its := by
  simp [keptWords, he]

theorem entry_of_deleted {item : Item δ} {e : MatchEvent δ} (he : item.error = some e) :
    item.entry = none := by
  rcases item with ⟨word, arg, fate⟩
  rcases fate with _ | _ | _ | _ | entry
  · rfl
  · rfl
  · rfl
  · rfl
  · cases he

/-- The scan of items of which the offending ones do no harm is the scan of the others, but for
their errors. -/
theorem scan_items (h : Lenient cli env) (hits : Itemized cli env held its)
    (hharmless : Tolerable cli env its) (hholds : Holds s.found held) (hfound : s.found = t.found)
    (hlog : t.log = []) : Follows (s.log ++ its.filterMap Item.error)
      (scan cli env (its.flatMap Item.words) s) (scan cli env (keptWords its) t) := by
  induction hits generalizing s t with
  | nil held => exact .go hfound (by simp [hlog])
  | @cons held item its hitem hrest ih =>
    rw [List.flatMap_cons, List.filterMap_cons]
    rcases herror : item.error with _ | e
    · -- both scans come to the entry
      rw [keptWords_cons_kept herror]
      obtain ⟨node, arg, hentry, hnew, hscan⟩ := hitem.scan_kept h herror
      rw [hscan, hscan]
      have hget : s.found.nodesByIdHt.get node.id node.id.key = none := hholds.get_eq_none.2 hnew
      by_cases ha : (env.alloc node.id.str).granted
      · obtain ⟨found, hadd, hholds'⟩ := hholds.add arg hnew ha
        rw [storeArg_of_add (s := s.after item.word []) cli item.word hget hadd,
          storeArg_of_add (s := t.after item.word []) cli item.word (hfound ▸ hget)
            (hfound ▸ hadd), Outcome.bind_go, Outcome.bind_go]
        rw [hentry] at ih
        have hfollows := ih hharmless.tail
          (show Holds { s.after item.word [] with found }.found _ from hholds')
          (show _ = { t.after item.word [] with found }.found from rfl) (by simp [Scan.after, hlog])
        simpa [Scan.after] using hfollows
      · obtain ⟨found, hadd, -⟩ := hholds.denied arg hnew ha
        rw [storeArg_of_not_add (s := s.after item.word []) cli item.word hget hadd,
          storeArg_of_not_add (s := t.after item.word []) cli item.word (hfound ▸ hget)
            (hfound ▸ hadd), Outcome.bind_stop, Outcome.bind_stop,
          hharmless.filterMap_error hentry ha]
        refine .stop (by rw [destructArg_found, destructArg_found]) ?_
        unfold destructArg
        split
        · simp [Scan.after, hlog]
        · simp [Scan.after, hlog]
    · -- the scan of `argv` reports the item
      rw [keptWords_cons_deleted herror]
      obtain ⟨hitself, -⟩ := hharmless [] item its rfl (by simp [herror])
      rw [hitem.scan_deleted h hholds herror hitself]
      rw [entry_of_deleted herror, Option.toList_none, List.append_nil] at ih
      have hfollows := ih hharmless.tail
        (show Holds (s.after item.word [e]).found held from hholds) hfound hlog
      simpa [Scan.after] using hfollows

/-- The condition is enough. -/
theorem Tolerated.behavesAsCleaned (h : Lenient cli env) {argv : List Str}
    (htolerated : Tolerated cli env argv) : BehavesAsCleaned cli env argv := by
  obtain ⟨hharmless, hmalloc⟩ := htolerated
  unfold BehavesAsCleaned
  by_cases hgranted : env.mallocMatch = true ∧ env.mallocTable = true
  · have hfollows := scan_items h (itemized_items argv) hharmless holds_create
      (show (Scan.start : Scan δ).found = (Scan.start : Scan δ).found from rfl) rfl
    rw [flatMap_items] at hfollows
    rw [cliMatch_eq_finish hgranted.1 hgranted.2, cliMatch_eq_finish hgranted.1 hgranted.2]
    exact hfollows.finish
  · -- nothing is scanned
    have hnull (argv : List Str) : cliMatch cli env argv = (.null, []) := by
      rw [cliMatch]
      split
      · rfl
      · next hmatch =>
        rw [if_pos]
        by_contra htable
        exact hgranted ⟨by simpa using hmatch, by simpa using htable⟩
    rw [hnull, hnull, List.append_nil, not_imp_comm.1 hmalloc hgranted]

end Simulation

section Words

/-- How many words an event accounts for: those of the item that it reports, or those that brought
an argument. -/
def MatchEvent.words (cli : Cli φ) : MatchEvent δ → ℕ
  | .error .unknownOpt _ _ => 1
  | .error .optNoArg _ _ => 1
  | .error .optFailedToParseArg _ _ => 2
  | .error .optRepeatNoAppend (some word) _ => if takesArg cli word then 2 else 1
  | .error .optRepeatNoAppend none _ => 0
  | .error .requiredNotPresent _ _ => 0
  | .destructed arg => if arg.isSome then 2 else 1

/-- How many words the events of a log account for. -/
def wordsOf (cli : Cli φ) : List (MatchEvent δ) → ℕ
  | [] => 0
  | e :: log => e.words cli + wordsOf cli log

@[simp]
theorem wordsOf_singleton (e : MatchEvent δ) : wordsOf cli [e] = e.words cli := rfl

@[simp]
theorem wordsOf_append (log log' : List (MatchEvent δ)) :
    wordsOf cli (log ++ log') = wordsOf cli log + wordsOf cli log' := by
  induction log with
  | nil => rw [List.nil_append, wordsOf, Nat.zero_add]
  | cons e log ih => rw [List.cons_append, wordsOf, ih, wordsOf, Nat.add_assoc]

variable {held : List (HashStr × Option (OptArg δ))} {n : ℕ} {errs : List (MatchEvent δ)}

/-- The words that a result accounts for. -/
def resultWords (cli : Cli φ) (r : MatchResult δ × List (MatchEvent δ)) : ℕ :=
  wordsOf cli r.2 +
    match r.1 with
    | .match m => wordsOf cli (cliMatchDestroy m)
    | _ => 0

theorem resultWords_errors (errs : List (MatchEvent δ))
    (r : MatchResult δ × List (MatchEvent δ)) :
    resultWords cli (r.1, errs ++ r.2) = wordsOf cli errs + resultWords cli r := by
  rw [resultWords, resultWords, wordsOf_append, Nat.add_assoc]

/-- The scan has accounted for so many words, and in addition once more for each word that it has
reported early. -/
structure Accounted (cli : Cli φ) (s : Scan δ) (n : ℕ) : Prop where
  holds : ∃ held, Holds s.found held
  words : wordsOf cli s.log + wordsOf cli (cliMatchDestroy s.found) =
    n + (s.words.flatMap (earlyReports cli) : List (MatchEvent δ)).length
  reported : ∀ word, unknownError word ∈ s.log →
    word ∈ s.words ∧ unknownError word ∈ (reports cli word : List (MatchEvent δ))
  given : ∀ word, MatchEvent.error .optNoArg (some word) none ∉ s.log

/-- The part of the scan goes on with a state like this, or the call is lost. -/
def Outcome.Goes {α : Type*} (o : Outcome δ α) (P : α → Scan δ → Prop) : Prop :=
  match o with
  | .go a s => P a s
  | .stop e _ => e ≠ .destroyMatch

theorem eq_of_mem_reports {e : MatchEvent δ} (h : e ∈ reports cli word) :
    e = unknownError word := by
  unfold reports earlyReports at h
  split at h
  · split at h
    · simpa using h
    · simp at h
  · split at h
    · split at h
      · simpa using h
      · simpa using h
    · split at h
      · simpa using h
      · simp at h

theorem wordsOf_reports (hsub : errs ⊆ reports cli word) : wordsOf cli errs = errs.length := by
  induction errs with
  | nil => rfl
  | cons e errs ih =>
    rw [List.cons_subset] at hsub
    rw [wordsOf, ih hsub.2, eq_of_mem_reports hsub.1, List.length_cons, Nat.add_comm]
    rfl

/-- A word was looked up. -/
theorem Accounted.after (h : Accounted cli s n) {k : ℕ} (hsub : errs ⊆ reports cli word)
    (hlen : errs.length = (earlyReports cli word : List (MatchEvent δ)).length + k) :
    Accounted cli (s.after word errs) (n + k) := by
  constructor
  · exact h.holds
  · have hwords := h.words
    show wordsOf cli (s.log ++ errs) + wordsOf cli (cliMatchDestroy s.found) = n + k +
      ((s.words ++ [word]).flatMap (earlyReports cli) : List (MatchEvent δ)).length
    rw [wordsOf_append, wordsOf_reports hsub, hlen, List.flatMap_append, List.flatMap_singleton,
      List.length_append]
    omega
  · intro other hother
    rcases List.mem_append.1 hother with hlog | herrs
    · obtain ⟨hmem, hreported⟩ := h.reported other hlog
      exact ⟨List.mem_append_left _ hmem, hreported⟩
    · obtain rfl : other = word := by simpa [unknownError] using eq_of_mem_reports (hsub herrs)
      exact ⟨by simp [Scan.after], hsub herrs⟩
  · intro other hother
    rcases List.mem_append.1 hother with hlog | herrs
    · exact h.given other hlog
    · simpa [unknownError] using eq_of_mem_reports (hsub herrs)

/-- An item was reported. -/
theorem Accounted.observe (h : Accounted cli s n) {type : OptErrorType} {val1 val2 : Option Str}
    (hunknown : type ≠ .unknownOpt) (hgiven : type ≠ .optNoArg) :
    Accounted cli (s.observe (.error type val1 val2))
      (n + (MatchEvent.error type val1 val2 : MatchEvent δ).words cli) := by
  constructor
  · exact h.holds
  · have hwords := h.words
    rw [observe_log, wordsOf_append, wordsOf_singleton]
    show _ + wordsOf cli (cliMatchDestroy s.found) = _ + (s.words.flatMap _).length
    omega
  · intro word hword
    rcases List.mem_append.1 hword with hlog | he
    · exact h.reported word hlog
    · simp [unknownError, hunknown.symm] at he
  · intro word hword
    rcases List.mem_append.1 hword with hlog | he
    · exact h.given word hlog
    · simp [hgiven.symm] at he

/-- An entry was stored. -/
theorem Accounted.store (h : Accounted cli s n) {id : HashStr} {arg : Option (OptArg δ)}
    (hholds : Holds s.found held) {found : CliMatch δ}
    (hstored : Holds found (held ++ [(id, arg)])) :
    Accounted cli { s with found } (n + (MatchEvent.destructed arg).words cli) := by
  refine ⟨⟨_, hstored⟩, ?_, h.reported, h.given⟩
  have hwords := h.words
  rw [hholds.destroy_eq] at hwords
  show wordsOf cli s.log + wordsOf cli (cliMatchDestroy found) = _ + (s.words.flatMap _).length
  rw [hstored.destroy_eq, List.map_append, wordsOf_append, List.map_singleton, wordsOf_singleton]
  show _ + (_ + (MatchEvent.destructed arg).words cli) = _
  omega

theorem takesArg_eq (h : resolve cli word = .ok (some node)) : takesArg cli word = node.hasArg := by
  rw [takesArg, h]

/-- Storing an argument accounts for the words that brought it. -/
theorem storeArg_goes (h : Lenient cli env) (hgranted : env.Granted)
    (hresolve : resolve cli word = .ok (some node)) (arg : Option (OptArg δ))
    (harg : node.hasArg = arg.isSome) (hs : Accounted cli s n) :
    (storeArg cli env node word arg s).Goes fun _ s' =>
      Accounted cli s' (n + if node.hasArg then 2 else 1) := by
  obtain ⟨held, hholds⟩ := hs.holds
  have happend := h.made.noneAppends.of_resolve hresolve
  by_cases hmem : node.id ∈ held.map Prod.fst
  · rw [(storeArg_repeated hholds happend hmem).2 h.lenient, ← takesArg_eq hresolve]
    exact hs.observe (by simp) (by simp)
  · obtain ⟨found, hstore, hholds'⟩ := storeArg_new cli word arg hholds hmem
      (hgranted.alloc node.id.str)
    rw [hstore, harg]
    exact hs.store hholds hholds'

theorem Outcome.Goes.bind {α β : Type*} {o : Outcome δ α} {P : α → Scan δ → Prop}
    {Q : β → Scan δ → Prop} {f : α → Scan δ → Outcome δ β} (h : o.Goes P)
    (hf : ∀ a s, P a s → (f a s).Goes Q) : (o.bind f).Goes Q := by
  rcases o with ⟨a, s⟩ | ⟨e, s⟩
  · exact hf a s h
  · exact h

/-- One word, with the one behind it if that is its argument. -/
theorem scanWord_accounted (h : Lenient cli env) (hgranted : env.Granted) (hs : Accounted cli s n)
    (word : Str) (next : Option Str) :
    (scanWord cli env word next s).Goes fun b s' =>
      (b = true → next ≠ none) → Accounted cli s' (n + if b then 2 else 1) := by
  rcases hresolve : resolve cli word with f | _ | node
  · obtain ⟨errs, -, hword⟩ := scanWord_of_error env next hresolve s
    rw [hword]
    simp [Outcome.Goes]
  · rw [scanWord_unknown h.lenient env next hresolve]
    refine fun _ => hs.after (List.Subset.refl _) ?_
    rw [reports, if_pos (unknown_iff.2 hresolve), List.length_append]
    rfl
  · have hinternal := h.internal.of_resolve hresolve
    have hafter : Accounted cli (s.after word (earlyReports cli word)) (n + 0) :=
      hs.after (List.subset_append_left _ _) rfl
    rw [scanWord_known h.lenient env next hresolve]
    rcases harg : node.hasArg with _ | _
    · rw [scanOpt_flag hinternal harg]
      have hstore := storeArg_goes h hgranted hresolve none harg hafter
      refine hstore.bind fun _ s' hs' _ => ?_
      simpa [harg] using hs'
    · rcases next with _ | argStr
      · rw [scanOpt_lacking hinternal harg, cliPrintError_lenient h.lenient]
        exact fun hnext => absurd rfl (hnext rfl)
      · obtain ⟨ref, -, hlive⟩ := resolve_eq_some.1 hresolve
        obtain ⟨p, hparser⟩ := h.parsers ref node hlive harg
        rw [scanOpt_arg hinternal harg hparser]
        rcases env.parse _ p argStr with _ | arg
        · rw [cliPrintError_lenient h.lenient]
          exact fun _ => hafter.observe (by simp) (by simp)
        · have hstore := storeArg_goes h hgranted hresolve (some arg) harg hafter
          refine hstore.bind fun _ s' hs' _ => ?_
          simpa [harg] using hs'

/-- A whole scan accounts for all words. -/
theorem scan_accounted (h : Lenient cli env) (hgranted : env.Granted) (argv : List Str)
    (hs : Accounted cli s n) :
    (scan cli env argv s).Goes fun _ s' => Accounted cli s' (n + argv.length) := by
  fun_induction scan cli env argv s generalizing n with
  | case1 s => exact hs
  | case2 word rest s e s' hword =>
    have hstep := scanWord_accounted h hgranted hs word rest.head?
    rw [hword] at hstep
    exact hstep
  | case3 word rest s s' hword ih =>
    have hstep := scanWord_accounted h hgranted hs word rest.head?
    rw [hword] at hstep
    have hrest := ih (hstep (by simp))
    rw [List.length_cons, Nat.add_comm rest.length, ← Nat.add_assoc]
    exact hrest
  | case4 word s s' hword => simp [Outcome.Goes]
  | case5 word s s' arg rest hword ih =>
    have hstep := scanWord_accounted h hgranted hs word (some arg)
    rw [List.head?_cons] at hword
    rw [hword] at hstep
    have hrest := ih (hstep (by simp))
    rw [List.length_cons, List.length_cons, show n + (rest.length + 1 + 1) = n + 2 + rest.length by
      omega]
    exact hrest

theorem accounted_start : Accounted cli (.start : Scan δ) 0 where
  holds := ⟨[], holds_create⟩
  words := rfl
  reported := by simp [Scan.start]
  given := by simp [Scan.start]

/-- What is left of a call after its loop has come to the `NULL`. -/
theorem finish_go (h : Registry cli) (hholds : Holds s.found held) :
    finish cli (.go () s) = (.match s.found, s.log) ∨
      ∃ val1 val2, finish cli (.go () s) =
        (.null, s.log ++ [.error .requiredNotPresent val1 val2] ++ cliMatchDestroy s.found) := by
  obtain ⟨hpassed, hmissing⟩ := cliMatchCheckRequired_spec hholds cli.requiredOpts fun _ =>
    h.live_required
  unfold finish
  rw [Outcome.bind_go]
  by_cases hrequired : ∀ ref ∈ cli.requiredOpts, ∀ node, Live cli ref node →
      node.id ∈ held.map Prod.fst
  · rw [hpassed hrequired]
    exact .inl rfl
  · obtain ⟨val1, val2, hnull⟩ := hmissing hrequired
    rw [hnull]
    exact .inr ⟨val1, val2, rfl⟩

/-- The result accounts for the same words as the scan. -/
theorem resultWords_finish (h : Registry cli) (hholds : Holds s.found held) :
    resultWords cli (finish cli (.go () s)) =
      wordsOf cli s.log + wordsOf cli (cliMatchDestroy s.found) := by
  rcases finish_go h hholds with hfinish | ⟨val1, val2, hfinish⟩
  · rw [hfinish]
    rfl
  · rw [hfinish, resultWords, wordsOf_append, wordsOf_append]
    rfl

/-- An error in the log of the result is one of the scan, unless a required option is missing. -/
theorem mem_of_mem_finish (h : Registry cli) (hholds : Holds s.found held) {type : OptErrorType}
    {val1 val2 : Option Str} (htype : type ≠ .requiredNotPresent)
    (hmem : MatchEvent.error type val1 val2 ∈ (finish cli (.go () s)).2) :
    MatchEvent.error type val1 val2 ∈ s.log := by
  rcases finish_go h hholds with hfinish | ⟨_, _, hfinish⟩
  · rwa [hfinish] at hmem
  · rw [hfinish, hholds.destroy_eq] at hmem
    simpa [htype] using hmem

/-- The scan of the items that do not offend stores their entries. -/
theorem scan_keptWords (h : Lenient cli env) (hgranted : env.Granted) {its : List (Item δ)}
    (hits : Itemized cli env held its) (hholds : Holds s.found held) :
    ∃ s', scan cli env (keptWords its) s = .go () s' ∧ s'.log = s.log ∧
      Holds s'.found (held ++ its.filterMap Item.entry) := by
  induction hits generalizing s with
  | nil held => exact ⟨s, rfl, rfl, by simpa using hholds⟩
  | @cons held item its hitem hrest ih =>
    rcases herror : item.error with _ | e
    · obtain ⟨node, arg, hentry, hnew, hscan⟩ := hitem.scan_kept h herror
      have hafter : Holds (s.after item.word []).found held := hholds
      obtain ⟨found, hstore, hholds'⟩ := storeArg_new cli item.word arg hafter hnew
        (hgranted.alloc node.id.str)
      have hstored : Holds { s.after item.word [] with found }.found _ := hholds'
      rw [hentry] at ih
      obtain ⟨s', hrest, hlog, hholds''⟩ := ih hstored
      refine ⟨s', ?_, ?_, ?_⟩
      · rw [keptWords_cons_kept herror, hscan, hstore, Outcome.bind_go, hrest]
      · rw [hlog]
        simp [Scan.after]
      · rw [List.filterMap_cons, hentry]
        simpa using hholds''
    · rw [keptWords_cons_deleted herror, List.filterMap_cons, entry_of_deleted herror]
      rw [entry_of_deleted herror, Option.toList_none, List.append_nil] at ih
      exact ih hholds

/-- An item accounts for its words. -/
theorem IsItem.wordsOf_eq {item : Item δ} (hitem : IsItem cli env held item)
    (h : Lenient cli env) : wordsOf cli item.error.toList +
      wordsOf cli (item.entry.toList.map fun e => .destructed e.2) = item.words.length := by
  cases hitem with
  | unknown hnamed => rfl
  | lacking hnamed harg => rfl
  | rejected hnamed harg hparse => rfl
  | @repeated word argStr node arg hoffers happend hmem =>
    obtain ⟨hhas, hsome⟩ := hoffers.hasArg
    have htakes : takesArg cli word = argStr.isSome := by
      rw [takesArg_eq (h.resolve hoffers.named), hhas, hsome]
    rcases argStr with _ | argStr
    · simp [Item.error, Item.entry, Item.words, wordsOf, MatchEvent.words, htakes]
    · simp [Item.error, Item.entry, Item.words, wordsOf, MatchEvent.words, htakes]
  | @kept word argStr node arg hoffers hnew =>
    obtain ⟨-, hsome⟩ := hoffers.hasArg
    rcases argStr with _ | argStr
    · simp [Item.error, Item.entry, Item.words, wordsOf, MatchEvent.words, ← hsome]
    · simp [Item.error, Item.entry, Item.words, wordsOf, MatchEvent.words, ← hsome]

/-- The items account for all words. -/
theorem Itemized.wordsOf_eq {its : List (Item δ)} (hits : Itemized cli env held its)
    (h : Lenient cli env) : wordsOf cli (its.filterMap Item.error) +
      wordsOf cli ((its.filterMap Item.entry).map fun e => .destructed e.2) =
        (its.flatMap Item.words).length := by
  induction hits with
  | nil held => rfl
  | @cons held item its hitem hrest ih =>
    rw [filterMap_cons_toList, filterMap_cons_toList, List.map_append, wordsOf_append,
      wordsOf_append, List.flatMap_cons, List.length_append, ← hitem.wordsOf_eq h, ← ih]
    omega

end Words

section Converse

/-- A word that is reported, but not early, does no harm. -/
theorem Item.harmless_of_reports {item : Item δ} (hlenient : cli.strict = false)
    (hfate : item.fate = .unknown)
    (hearly : (earlyReports cli item.word : List (MatchEvent δ)) = [])
    (hreported : unknownError item.word ∈ (reports cli item.word : List (MatchEvent δ))) :
    item.Harmless cli := by
  have hunknown : unknown cli item.word = true := by
    by_contra hknown
    rw [reports, hearly, if_neg hknown] at hreported
    simp at hreported
  unfold earlyReports at hearly
  have hlong : optIsLong item.word = false := by
    by_contra hlong
    rw [if_pos (by simpa using hlong), if_pos hunknown] at hearly
    cases hearly
  have hdash : charAt item.word 0 = some dash := by
    by_contra hdash
    rw [if_neg (by simp [hlong]), if_pos hdash] at hearly
    cases hearly
  have hentry := resolve_eq_none.1 (unknown_iff.1 hunknown)
  rw [entryOf_short hlong (by simp [hlenient]), shortNameEntry, shortNameFromShortOpt] at hentry
  rw [Item.Harmless, hfate]
  refine ⟨hlong, hdash, ?_⟩
  rcases hchar : charAt item.word 1 with _ | c
  · rw [hchar] at hentry
    cases hentry
  · rw [hchar] at hentry
    rcases harr : cli.optsByShortNameArr[c.toNat]? with _ | entry
    · simp [harr] at hentry
    · simpa [harr] using hentry

/-- Where every error of an offending item comes from a scan that has reported no word early, the
condition holds. -/
theorem Accounted.tolerated {n : ℕ} (hs : Accounted cli s n) (hlenient : cli.strict = false)
    (hgranted : env.Granted) {argv : List Str}
    (hearly : ∀ word ∈ s.words, (earlyReports cli word : List (MatchEvent δ)) = [])
    (hlog : ∀ e ∈ deletedErrors cli env argv, e ∈ s.log) : Tolerated cli env argv := by
  refine ⟨?_, fun _ => ⟨hgranted.mallocMatch, hgranted.mallocTable⟩⟩
  intro front item rest hits herror
  refine ⟨?_, fun e _ => hgranted.alloc e.1.str⟩
  have hreported (e : MatchEvent δ) (he : item.error = some e) : e ∈ s.log := by
    refine hlog e (List.mem_filterMap.2 ⟨item, ?_, he⟩)
    rw [hits]
    simp
  rcases hfate : item.fate with _ | _ | _ | _ | entry
  · obtain ⟨hword, hreported⟩ := hs.reported item.word
      (hreported _ (by rw [Item.error, hfate]))
    exact Item.harmless_of_reports hlenient hfate (hearly _ hword) hreported
  · exact absurd (hreported _ (by rw [Item.error, hfate])) (hs.given item.word)
  · rw [Item.Harmless, hfate]
    trivial
  · rw [Item.Harmless, hfate]
    trivial
  · rw [Item.Harmless, hfate]
    trivial

/-- A scan whose result accounts for no more words than there are has reported none early. -/
theorem Accounted.early_eq_nil {n : ℕ} (hs : Accounted cli s n) (hregistry : Registry cli)
    (htotal : resultWords cli (finish cli (.go () s)) = n) :
    ∀ word ∈ s.words, (earlyReports cli word : List (MatchEvent δ)) = [] := by
  intro word hword
  obtain ⟨held, hholds⟩ := hs.holds
  rw [resultWords_finish hregistry hholds, hs.words] at htotal
  have hearly : (s.words.flatMap (earlyReports cli) : List (MatchEvent δ)).length = 0 := by omega
  exact List.flatMap_eq_nil_iff.1 (List.length_eq_zero_iff.1 hearly) word hword

/-- Together with the errors of the offending items, the call without them accounts for all
words. -/
theorem resultWords_cleaned (h : Lenient cli env) (hgranted : env.Granted) (argv : List Str) :
    ∃ t held, scan cli env (cleaned cli env argv) .start = .go () t ∧ Holds t.found held ∧
      resultWords cli ((finish cli (.go () t)).1,
        deletedErrors cli env argv ++ (finish cli (.go () t)).2) = argv.length := by
  have hits : Itemized cli env [] (items cli env [] argv) := itemized_items argv
  obtain ⟨t, hscan, hlog, hholds⟩ := scan_keptWords h hgranted hits
    (show Holds (Scan.start : Scan δ).found [] from holds_create)
  refine ⟨t, _, hscan, hholds, ?_⟩
  have hall := hits.wordsOf_eq h
  rw [flatMap_items] at hall
  rw [resultWords_errors, resultWords_finish h.made.registry hholds, hlog, hholds.destroy_eq,
    ← hall]
  show _ + (0 + _) = _
  rw [Nat.zero_add]
  rfl

/-- Where no allocation fails the condition is necessary. -/
theorem BehavesAsCleaned.tolerated (h : Lenient cli env) (hgranted : env.Granted) {argv : List Str}
    (hbehaves : BehavesAsCleaned cli env argv) : Tolerated cli env argv := by
  have hregistry := h.made.registry
  obtain ⟨t, held, hcleaned, hholds, htotal⟩ := resultWords_cleaned h hgranted argv
  unfold BehavesAsCleaned at hbehaves
  rw [cliMatch_eq_finish hgranted.mallocMatch hgranted.mallocTable,
    cliMatch_eq_finish hgranted.mallocMatch hgranted.mallocTable, hcleaned] at hbehaves
  rw [← hbehaves] at htotal
  have hstart : Accounted cli (Scan.start : Scan δ) 0 := accounted_start
  have hgoes := scan_accounted h hgranted argv hstart
  rcases hscan : scan cli env argv .start with ⟨_, s⟩ | ⟨e, s⟩
  · rw [hscan] at hgoes hbehaves htotal
    have hs : Accounted cli s (0 + argv.length) := hgoes
    rw [Nat.zero_add] at hs
    refine hs.tolerated h.lenient hgranted (hs.early_eq_nil hregistry htotal) fun e he => ?_
    obtain ⟨held, hheld⟩ := hs.holds
    have hmem : e ∈ (finish cli (.go () s)).2 := by
      rw [hbehaves]
      exact List.mem_append_left _ he
    -- no offending item is a required option that is missing
    obtain ⟨item, -, herror⟩ := List.mem_filterMap.1 he
    unfold Item.error at herror
    split at herror
    all_goals cases herror
    all_goals exact mem_of_mem_finish hregistry hheld (by simp) hmem
  · -- without its offending items the call is not lost
    rw [hscan] at hgoes hbehaves
    have he : e ≠ .destroyMatch := hgoes
    have hlost : finish cli (.stop e s) = (.lost e, s.log) := leave_of_ne he s
    rw [hlost] at hbehaves
    rcases finish_go hregistry hholds with hfinish | ⟨_, _, hfinish⟩
    · rw [hfinish] at hbehaves
      cases hbehaves
    · rw [hfinish] at hbehaves
      cases hbehaves

/-- For every registry that can be made, without internal options and where errors are not fatal,
with parsers that look at nothing but their argument, and for every `argv`: if each offending item
is come to and does no harm, the call behaves as if there were none, but for one error each; and
where no allocation fails, it does so exactly then. -/
theorem behavesAsCleaned_iff_tolerated (h : Lenient cli env) (argv : List Str) :
    (Tolerated cli env argv → BehavesAsCleaned cli env argv) ∧
      (env.Granted → (BehavesAsCleaned cli env argv ↔ Tolerated cli env argv)) :=
  ⟨Tolerated.behavesAsCleaned h, fun hgranted =>
    ⟨BehavesAsCleaned.tolerated h hgranted, Tolerated.behavesAsCleaned h⟩⟩

end Converse

section Ports

theorem lenient_portCli : Lenient (portCli 0) copyingParsers := by
  have hheap : (portCli 0).heap.all (fun entry => entry.all fun node =>
      !node.internal && (node.parsed copyingParsers []).isSome) = true := by
    decide +kernel
  have hlive {ref : ℕ} {node : OptNode Unit} (hlive : Live (portCli 0) ref node) :
      node.internal = false ∧ (node.parsed copyingParsers []).isSome = true := by
    simpa using hlive.of_all hheap
  constructor
  · exact made_portCli (.inl rfl)
  · decide +kernel
  · exact fun ref node h => (hlive h).1
  · intro ref node h _
    have hparsed := (hlive h).2
    unfold OptNode.parsed at hparsed
    split at hparsed
    · next p hfuncs => exact ⟨p, hfuncs⟩
    · cases hparsed
  · exact fun _ _ _ _ => rfl

theorem granted_copyingParsers : copyingParsers.Granted where
  mallocMatch := rfl
  mallocTable := rfl
  alloc := fun _ => ⟨rfl, rfl, rfl, rfl⟩

/-- A word that names no option and an option that is repeated. -/
theorem behavesAsCleaned_port : BehavesAsCleaned (portCli 0) copyingParsers
    [str "-z", str "-p", str "80", str "-p", str "81"] := by
  have hitems : ∀ item ∈ items (portCli 0) copyingParsers []
      [str "-z", str "-p", str "80", str "-p", str "81"], item.Harmless (portCli 0) := by
    decide +kernel
  refine (behavesAsCleaned_iff_tolerated lenient_portCli _).1 ⟨?_, fun _ => ⟨rfl, rfl⟩⟩
  intro front item rest hits _
  rw [hits] at hitems
  exact ⟨hitems item (by simp), fun e _ => granted_copyingParsers.alloc e.1.str⟩

/-- A long name that there is not is reported twice. -/
theorem not_behavesAsCleaned_long_name : ¬∀ (cli : Cli Unit) (env : MatchEnv Unit Str),
    Lenient cli env → env.Granted → ∀ argv, BehavesAsCleaned cli env argv := by
  intro h
  have hbehaves := h (portCli 0) copyingParsers lenient_portCli granted_copyingParsers [str "--x"]
  have hlength := congrArg (fun r => r.2.length) hbehaves
  exact absurd hlength (by decide +kernel)

end Ports

end Qkmetisc.CommandLine
