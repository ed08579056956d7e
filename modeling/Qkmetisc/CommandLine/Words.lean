import Qkmetisc.CommandLine.Match
import Qkmetisc.CommandLine.ShortNames

/-!
# What a word stands for

In option position a word should name an option in one of two ways: a dash and its short name, or
two dashes and its long name. The lookup of long names compares the whole word. That of short names
looks at the second character only, and where errors are not fatal it does so even after it has
reported that there is no dash.

## Main definitions

* `resolve`: the node that the lookup comes to.
* `NamedBy`: the two ways to name an option.
* `TreatedRight`: a word is taken for the option it names, or reported as unknown.
* `Clear`: the words for which that is so.

## Main results

* `findOpt_eq`: the lookup on any state of the scan.
* `treatedRight_iff`: the condition is exact for every word.
* `treatedRight_words_iff`: the same for the words of a whole scan.
-/

namespace Qkmetisc.CommandLine

variable {φ δ : Type*} {cli : Cli φ} {opt : Str}

section Resolve

/-- The reference that is found for a word. -/
def entryOf (cli : Cli φ) (opt : Str) : Except Fault (Option ℕ) :=
  if optIsLong opt then
    .ok (cli.optsByLongNameHt.get (.fromStr (longNameFromLongOpt opt))
      (HashStr.fromStr (longNameFromLongOpt opt)).key)
  else if cli.strict ∧ charAt opt 0 ≠ some dash then .ok none
  else shortNameEntry cli opt

/-- The node behind a reference. -/
def nodeOf (cli : Cli φ) : Option ℕ → Except Fault (Option (OptNode φ))
  | none => .ok none
  | some ref =>
    match cli.heap[ref]? with
    | some (some node) => .ok (some node)
    | _ => .error .useAfterFree

/-- The node of the option that a word is taken for, none if it is unknown. -/
def resolve (cli : Cli φ) (opt : Str) : Except Fault (Option (OptNode φ)) :=
  (entryOf cli opt).bind (nodeOf cli)

/-- The state after some events. -/
def Scan.observes (s : Scan δ) (es : List (MatchEvent δ)) : Scan δ := { s with log := s.log ++ es }

/-- The error reported for an unknown word. -/
def unknownError (opt : Str) : MatchEvent δ := .error .unknownOpt opt none

/-- What the lookup comes to, given what was reported on the way. -/
def lookedUp (cli : Cli φ) (found : Except Fault (Option (OptNode φ))) (s : Scan δ) :
    Outcome δ (Option (OptNode φ)) :=
  match found with
  | .error f => .stop (.fault f) s
  | .ok (some node) => .go (some node) s
  | .ok none => if cli.strict then .stop .destroyMatch s else .go none s

theorem lookedUp_eq_some {found : Except Fault (Option (OptNode φ))} {node : OptNode φ}
    {s s' : Scan δ} :
    lookedUp cli found s = .go (some node) s' ↔ found = .ok (some node) ∧ s = s' := by
  match found with
  | .error f => simp [lookedUp]
  | .ok (some n) => simp [lookedUp]
  | .ok none =>
    rw [lookedUp]
    split <;> simp

/-- Only an unknown word leaves the state as it is without an option. -/
theorem lookedUp_eq_none {found : Except Fault (Option (OptNode φ))} {s s' : Scan δ} :
    lookedUp cli found s = .go none s' ∨ lookedUp cli found s = .stop .destroyMatch s' ↔
      found = .ok none ∧ s = s' := by
  match found with
  | .error f => simp [lookedUp]
  | .ok (some n) => simp [lookedUp]
  | .ok none =>
    rw [lookedUp]
    split <;> simp

/-- What is reported while a word is looked up. -/
structure Reported (cli : Cli φ) (opt : Str) (errs : List (MatchEvent δ)) : Prop where
  unknown : ∀ e ∈ errs, e = unknownError opt
  /-- An unknown word is reported. -/
  ne_nil : resolve cli opt = .ok none → errs ≠ []
  /-- Where errors are fatal, a word that is found has not been reported. -/
  eq_nil : cli.strict = true → resolve cli opt ≠ .ok none → errs = []

theorem nodeOf_eq_none {entry : Option ℕ} : nodeOf cli entry = .ok none ↔ entry = none := by
  cases entry with
  | none => simp [nodeOf]
  | some ref =>
    simp only [nodeOf]
    split <;> simp

/-- The branch of the loop that finds a reference. -/
def findEntry (cli : Cli φ) (opt : Str) (s : Scan δ) : Outcome δ (Option ℕ) :=
  if optIsLong opt then findLong cli opt s else findShort cli opt s

/-- The first half of the lookup, with what it reports: it goes on with a reference, reads outside
of an array, or ends the scan with an error. -/
inductive EntryFound (cli : Cli φ) (opt : Str) (errs : List (MatchEvent δ)) : Prop
  | entry (entry : Option ℕ) (hstrict : cli.strict = true → errs = [])
    (hentry : entryOf cli opt = .ok entry)
    (hfind : ∀ s : Scan δ, findEntry cli opt s = .go entry (s.observes errs))
  | fault (f : Fault) (hstrict : cli.strict = true → errs = [])
    (hentry : entryOf cli opt = .error f)
    (hfind : ∀ s : Scan δ, findEntry cli opt s = .stop (.fault f) (s.observes errs))
  | fatal (hstrict : cli.strict = true) (hne : errs ≠ []) (hentry : entryOf cli opt = .ok none)
    (hfind : ∀ s : Scan δ, findEntry cli opt s = .stop .destroyMatch (s.observes errs))

theorem observes_nil (s : Scan δ) : s.observes [] = s := by
  simp [Scan.observes]

/-- A long option is in the table, or reported. -/
theorem findEntry_long (hlong : optIsLong opt = true) :
    ∃ errs : List (MatchEvent δ), (∀ e ∈ errs, e = unknownError opt) ∧
      EntryFound cli opt errs := by
  match hget : cli.optsByLongNameHt.get (.fromStr (longNameFromLongOpt opt))
      (HashStr.fromStr (longNameFromLongOpt opt)).key with
  | some ref =>
    refine ⟨[], by simp, .entry (some ref) (fun _ => rfl) ?_ fun s => ?_⟩
    · rw [entryOf, if_pos hlong, hget]
    · rw [findEntry, if_pos hlong, findLong, hget, observes_nil]
  | none =>
    have hentry : entryOf cli opt = .ok none := by rw [entryOf, if_pos hlong, hget]
    refine ⟨[unknownError opt], by simp, ?_⟩
    by_cases hstrict : cli.strict = true
    · refine .fatal hstrict (List.cons_ne_nil _ _) hentry fun s => ?_
      rw [findEntry, if_pos hlong, findLong, hget, cliPrintError, if_pos hstrict]
      rfl
    · refine .entry none (fun hs => absurd hs hstrict) hentry fun s => ?_
      rw [findEntry, if_pos hlong, findLong, hget, cliPrintError, if_neg hstrict]
      rfl

/-- The second character decides, whatever has been reported before. -/
theorem entryFound_of_short {errs : List (MatchEvent δ)} (hstrict : cli.strict = true → errs = [])
    (hentry : entryOf cli opt = shortNameEntry cli opt)
    (hfind : ∀ s, findEntry cli opt s =
      match shortNameEntry cli opt with
      | .error f => .stop (.fault f) (s.observes errs)
      | .ok entry => .go entry (s.observes errs)) :
    EntryFound cli opt errs := by
  match hshort : shortNameEntry cli opt with
  | .error f =>
    exact .fault f hstrict (hentry.trans hshort) fun s => by rw [hfind, hshort]
  | .ok entry =>
    exact .entry entry hstrict (hentry.trans hshort) fun s => by rw [hfind, hshort]

theorem findEntry_cases (cli : Cli φ) (opt : Str) :
    ∃ errs : List (MatchEvent δ), (∀ e ∈ errs, e = unknownError opt) ∧
      EntryFound cli opt errs := by
  by_cases hlong : optIsLong opt = true
  · exact findEntry_long hlong
  by_cases hdash : charAt opt 0 = some dash
  · refine ⟨[], by simp, entryFound_of_short (fun _ => rfl) ?_ fun s => ?_⟩
    · rw [entryOf, if_neg hlong, if_neg fun hno => hno.2 hdash]
    · rw [observes_nil, findEntry, if_neg hlong, findShort, if_neg (not_not.2 hdash)]
      rfl
  · refine ⟨[unknownError opt], by simp, ?_⟩
    by_cases hstrict : cli.strict = true
    · refine .fatal hstrict (List.cons_ne_nil _ _) ?_ fun s => ?_
      · rw [entryOf, if_neg hlong, if_pos ⟨hstrict, hdash⟩]
      · rw [findEntry, if_neg hlong, findShort, if_pos hdash, cliPrintError, if_pos hstrict]
        rfl
    · -- the word has been reported, and is looked up nevertheless
      refine entryFound_of_short (fun hs => absurd hs hstrict) ?_ fun s => ?_
      · rw [entryOf, if_neg hlong, if_neg fun hno => hstrict hno.1]
      · rw [findEntry, if_neg hlong, findShort, if_pos hdash, cliPrintError, if_neg hstrict]
        rfl

/-- The lookup: what it comes to does not depend on the state of the scan, and neither does what
it reports. -/
theorem findOpt_eq (cli : Cli φ) (opt : Str) :
    ∃ errs : List (MatchEvent δ), Reported cli opt errs ∧
      ∀ s, findOpt cli opt s = lookedUp cli (resolve cli opt) (s.observes errs) := by
  obtain ⟨errs, hunknown, hfound⟩ := findEntry_cases (δ := δ) cli opt
  cases hfound with
  | fault f hstrict hentry hfind =>
    have hresolve : resolve cli opt = .error f := by rw [resolve, hentry]; rfl
    refine ⟨errs, ⟨hunknown, fun hnone => ?_, fun hs _ => hstrict hs⟩, fun s => ?_⟩
    · rw [hresolve] at hnone
      cases hnone
    · rw [findOpt, ← findEntry, hfind, Outcome.bind_stop, hresolve]
      rfl
  | fatal hstrict hne hentry hfind =>
    have hresolve : resolve cli opt = .ok none := by rw [resolve, hentry]; rfl
    refine ⟨errs, ⟨hunknown, fun _ => hne, fun _ hno => absurd hresolve hno⟩, fun s => ?_⟩
    rw [findOpt, ← findEntry, hfind, Outcome.bind_stop, hresolve, lookedUp, if_pos hstrict]
  | entry entry hstrict hentry hfind =>
    have hresolve : resolve cli opt = nodeOf cli entry := by rw [resolve, hentry]; rfl
    cases entry with
    | none =>
      refine ⟨errs ++ [unknownError opt], ⟨?_, by simp, fun _ hno => absurd hresolve hno⟩,
        fun s => ?_⟩
      · intro e he
        exact (List.mem_append.1 he).elim (hunknown e) List.mem_singleton.1
      · rw [findOpt, ← findEntry, hfind, Outcome.bind_go, hresolve]
        simp only [cliPrintError, nodeOf, lookedUp, Scan.observes, Scan.observe, List.append_assoc]
        split <;> rfl
    | some ref =>
      refine ⟨errs, ⟨hunknown, fun hnone => ?_, fun hs _ => hstrict hs⟩, fun s => ?_⟩
      · rw [hresolve, nodeOf_eq_none] at hnone
        cases hnone
      · rw [findOpt, ← findEntry, hfind, Outcome.bind_go, hresolve]
        rcases hnode : cli.heap[ref]? with _ | _ | node
        · simp [nodeOf, lookedUp, hnode]
        · simp [nodeOf, lookedUp, hnode]
        · simp [nodeOf, lookedUp, hnode]

theorem resolve_eq_some {node : OptNode φ} :
    resolve cli opt = .ok (some node) ↔ ∃ ref, entryOf cli opt = .ok (some ref) ∧
      Live cli ref node := by
  unfold resolve
  constructor
  · intro h
    cases hentry : entryOf cli opt with
    | error f =>
      rw [hentry] at h
      cases h
    | ok entry =>
      rw [hentry] at h
      cases entry with
      | none => cases h
      | some ref =>
        simp only [Except.bind, nodeOf] at h
        split at h
        next hnode =>
          cases h
          exact ⟨ref, rfl, hnode⟩
        next => cases h
  · rintro ⟨ref, hentry, hlive⟩
    rw [hentry]
    simp only [Except.bind, nodeOf]
    rw [hlive]

theorem resolve_eq_none : resolve cli opt = .ok none ↔ entryOf cli opt = .ok none := by
  unfold resolve
  cases hentry : entryOf cli opt with
  | error f => simp [Except.bind]
  | ok entry => simp [Except.bind, nodeOf_eq_none]

end Resolve

section Treatment

/-- The two ways to name an option. -/
def NamedBy (node : OptNode φ) (word : Str) : Prop :=
  (node.shortName ≠ cliOptNoShortName ∧ word = [dash, node.shortName]) ∨
    ∃ name, node.longName = some name ∧ word = dash :: dash :: name.str

/-- The scan takes a word in option position for an occurrence of the option. -/
def TreatsAs (cli : Cli φ) (word : Str) (s : Scan δ) (node : OptNode φ) : Prop :=
  ∃ s', findOpt cli word s = .go (some node) s'

/-- The scan reports a word in option position as unknown, and does nothing else with it. -/
def ReportsUnknown (cli : Cli φ) (word : Str) (s : Scan δ) : Prop :=
  ∃ errs : List (MatchEvent δ), errs ≠ [] ∧ (∀ e ∈ errs, e = unknownError word) ∧
    (findOpt cli word s = .go none (s.observes errs) ∨
      findOpt cli word s = .stop .destroyMatch (s.observes errs))

/-- A word in option position is taken for exactly the options that it names, and reported if it
names none. -/
structure TreatedRight (δ : Type*) (cli : Cli φ) (word : Str) : Prop where
  named : ∀ (s : Scan δ) ref node, Live cli ref node →
    (TreatsAs cli word s node ↔ NamedBy node word)
  unknown : (∀ ref node, Live cli ref node → ¬NamedBy node word) →
    ∀ s : Scan δ, ReportsUnknown cli word s

/-- A condition on a word. With two dashes it is not the name of an option whose short name is a
dash, unless that option has the empty long name too. With one dash, and without a dash where
errors are not fatal, it is not empty, its second character has a place in the array of short
names, and what is there is an option that is still registered and that the word names. -/
def Clear (cli : Cli φ) (word : Str) : Prop :=
  if optIsLong word then
    word = [dash, dash] → ∀ ref node, Live cli ref node → node.shortName = dash →
      ∃ name, node.longName = some name ∧ name.str = []
  else
    (cli.strict = true ∧ charAt word 0 ≠ some dash) ∨
      (word ≠ [] ∧ ∀ c, word[1]? = some c → c.toNat < UCHAR_MAX ∧
        ∀ ref, cli.optsByShortNameArr[c.toNat]? = some (some ref) →
          word = [dash, c] ∧ ∃ node, Live cli ref node)

variable {word : Str}

theorem treatsAs_iff {node : OptNode φ} (s : Scan δ) :
    TreatsAs cli word s node ↔ resolve cli word = .ok (some node) := by
  obtain ⟨errs, -, hfind⟩ := findOpt_eq (δ := δ) cli word
  simp only [TreatsAs, hfind, lookedUp_eq_some, exists_and_left, exists_eq', and_true]

theorem reportsUnknown_iff (s : Scan δ) :
    ReportsUnknown cli word s ↔ resolve cli word = .ok none := by
  obtain ⟨errs, hreported, hfind⟩ := findOpt_eq (δ := δ) cli word
  simp only [ReportsUnknown, hfind, lookedUp_eq_none]
  constructor
  · rintro ⟨_, -, -, h, -⟩
    exact h
  · exact fun h => ⟨errs, hreported.ne_nil h, hreported.unknown, h, rfl⟩

/-- The treatment of a word is that of the lookup. -/
theorem treatedRight_iff_resolve : TreatedRight δ cli word ↔
    (∀ ref node, Live cli ref node → (resolve cli word = .ok (some node) ↔ NamedBy node word)) ∧
      ((∀ ref node, Live cli ref node → ¬NamedBy node word) → resolve cli word = .ok none) := by
  constructor
  · intro h
    constructor
    · intro ref node hlive
      rw [← treatsAs_iff (Scan.start (δ := δ))]
      exact h.named _ ref node hlive
    · intro hnone
      exact (reportsUnknown_iff (Scan.start (δ := δ))).1 (h.unknown hnone _)
  · rintro ⟨hnamed, hunknown⟩
    constructor
    · intro s ref node hlive
      rw [treatsAs_iff]
      exact hnamed ref node hlive
    · intro hnone s
      exact (reportsUnknown_iff s).2 (hunknown hnone)

end Treatment

section Words

variable {word : Str} {ref : ℕ} {node : OptNode φ}

theorem optIsLong_iff : optIsLong word = true ↔ ∃ name, word = dash :: dash :: name := by
  rw [optIsLong, List.isPrefixOf_iff_prefix, show str "--" = [dash, dash] by decide]
  exact ⟨fun ⟨name, h⟩ => ⟨name, h.symm⟩, fun ⟨name, h⟩ => ⟨name, h.symm⟩⟩

/-- Long names are found by the whole name. -/
theorem resolve_long (h : Registry cli) {name : Str} (hlive : Live cli ref node) :
    resolve cli (dash :: dash :: name) = .ok (some node) ↔
      ∃ n, node.longName = some n ∧ n.str = name := by
  have hlong : optIsLong (dash :: dash :: name) = true := optIsLong_iff.2 ⟨name, rfl⟩
  have hentry (r : ℕ) : entryOf cli (dash :: dash :: name) = .ok (some r) ↔
      ∃ n, Live cli r n ∧ n.longName = some (.fromStr name) := by
    rw [entryOf, if_pos hlong, Except.ok.injEq]
    exact h.byLongName _ _
  rw [resolve_eq_some]
  constructor
  · rintro ⟨r, hr, hlive'⟩
    obtain ⟨n, hn, hname⟩ := (hentry r).1 hr
    obtain rfl := hn.unique hlive'
    exact ⟨_, hname, rfl⟩
  · rintro ⟨n, hname, rfl⟩
    refine ⟨ref, (hentry ref).2 ⟨node, hlive, ?_⟩, hlive⟩
    rw [hname, Option.some.injEq]
    exact HashStr.ext_str rfl

/-- A word that is not long names an option by its short name, which is in the array. -/
theorem NamedBy.entry (h : Registry cli) (hlive : Live cli ref node) (hnamed : NamedBy node word)
    (hlong : optIsLong word = false) :
    node.shortName ≠ cliOptNoShortName ∧ word = [dash, node.shortName] ∧
      cli.optsByShortNameArr[node.shortName.toNat]? = some (some ref) := by
  rcases hnamed with ⟨hshort, hword⟩ | ⟨name, -, rfl⟩
  · exact ⟨hshort, hword, h.byShortName ref node hlive hshort⟩
  · rw [optIsLong_iff.2 ⟨_, rfl⟩] at hlong
    cases hlong

/-- The entry of the array for a word that is looked up there. -/
theorem entryOf_short (hlong : optIsLong word = false)
    (hlookup : ¬(cli.strict = true ∧ charAt word 0 ≠ some dash)) :
    entryOf cli word = shortNameEntry cli word := by
  rw [entryOf, if_neg (by simp [hlong]), if_neg hlookup]

theorem shortNameEntry_eq {c : BitVec 8} {entry : Option ℕ}
    (hc : shortNameFromShortOpt word = some c)
    (harr : cli.optsByShortNameArr[c.toNat]? = some entry) :
    shortNameEntry cli word = .ok entry := by
  rw [shortNameEntry, hc]
  simp only [harr]

/-- A long word is treated right unless it is also a short name. -/
theorem treatedRight_long_iff (h : Registry cli) {name : Str} :
    TreatedRight δ cli (dash :: dash :: name) ↔
      (name = [] → ∀ ref node, Live cli ref node → node.shortName = dash →
        ∃ n, node.longName = some n ∧ n.str = []) := by
  have hnamed (node : OptNode φ) : NamedBy node (dash :: dash :: name) ↔
      (node.shortName = dash ∧ name = []) ∨ ∃ n, node.longName = some n ∧ n.str = name := by
    have hdash : dash ≠ cliOptNoShortName := by decide
    simp only [NamedBy, List.cons.injEq, true_and]
    refine or_congr ⟨fun ⟨_, hc, hn⟩ => ⟨hc.symm, hn⟩, fun ⟨hc, hn⟩ => ⟨hc ▸ hdash, hc.symm, hn⟩⟩ ?_
    exact exists_congr fun n => and_congr_right fun _ => eq_comm
  rw [treatedRight_iff_resolve]
  constructor
  · rintro ⟨hright, -⟩ rfl ref node hlive hshort
    rw [← resolve_long h hlive, hright ref node hlive, hnamed]
    exact .inl ⟨hshort, rfl⟩
  · intro hclear
    constructor
    · intro ref node hlive
      rw [resolve_long h hlive, hnamed]
      refine ⟨.inr, ?_⟩
      rintro (⟨hshort, rfl⟩ | hname)
      · exact hclear rfl ref node hlive hshort
      · exact hname
    · -- what the table finds is named by the word
      intro hnone
      rw [resolve_eq_none]
      have hlong : optIsLong (dash :: dash :: name) = true := optIsLong_iff.2 ⟨name, rfl⟩
      rw [entryOf, if_pos hlong]
      cases hget : cli.optsByLongNameHt.get (.fromStr name) (HashStr.fromStr name).key with
      | none => exact congrArg _ hget
      | some ref =>
        obtain ⟨node, hlive, hname⟩ := (h.byLongName _ _).1 hget
        exact absurd ((hnamed node).2 (.inr ⟨_, hname, rfl⟩)) (hnone ref node hlive)

/-- Nothing is done wrong with a word that the lookup knows no option for and that names none. -/
theorem treatedRight_of_unnamed (hnone : ∀ ref node, Live cli ref node → ¬NamedBy node word) :
    TreatedRight δ cli word ↔ resolve cli word = .ok none := by
  rw [treatedRight_iff_resolve]
  constructor
  · exact fun hright => hright.2 hnone
  · intro hresolve
    refine ⟨fun ref node hlive => ?_, fun _ => hresolve⟩
    rw [hresolve]
    exact iff_of_false (by simp) (hnone ref node hlive)

/-- A word whose lookup comes to a node is treated right exactly if the node is there and named by
the word. -/
theorem treatedRight_of_entry {ref : ℕ} (hentry : entryOf cli word = .ok (some ref))
    (hnamed : ∀ r node, Live cli r node → NamedBy node word → r = ref) :
    TreatedRight δ cli word ↔ ∃ node, Live cli ref node ∧ NamedBy node word := by
  have hresolve (node : OptNode φ) :
      resolve cli word = .ok (some node) ↔ Live cli ref node := by
    rw [resolve_eq_some, hentry]
    simp
  rw [treatedRight_iff_resolve]
  constructor
  · rintro ⟨hright, hunknown⟩
    by_contra hnot
    -- nothing is named, and nothing is reported
    have hnone : ∀ r node, Live cli r node → ¬NamedBy node word := by
      intro r node hlive hn
      obtain rfl := hnamed r node hlive hn
      exact hnot ⟨node, hlive, hn⟩
    have hreported := resolve_eq_none.1 (hunknown hnone)
    rw [hentry] at hreported
    injection hreported with hreported
    cases hreported
  · rintro ⟨node, hlive, hn⟩
    refine ⟨fun r n hlive' => ?_, fun hnone => absurd hn (hnone ref node hlive)⟩
    rw [hresolve]
    constructor
    · intro hlive''
      rwa [hlive''.unique hlive]
    · intro hn'
      obtain rfl := hnamed r n hlive' hn'
      exact hlive'

/-- A word that is looked up by its second character is treated right exactly if the array has
nothing there, or the option whose name that is. -/
theorem treatedRight_char_iff (h : Registry cli) {x c : BitVec 8} {rest : Str}
    (hlong : optIsLong (x :: c :: rest) = false)
    (hlookup : ¬(cli.strict = true ∧ charAt (x :: c :: rest) 0 ≠ some dash)) :
    TreatedRight δ cli (x :: c :: rest) ↔ c.toNat < UCHAR_MAX ∧
      ∀ ref, cli.optsByShortNameArr[c.toNat]? = some (some ref) →
        x :: c :: rest = [dash, c] ∧ ∃ node, Live cli ref node := by
  -- an option that the word names is in the array
  have hnamed : ∀ ref node, Live cli ref node → NamedBy node (x :: c :: rest) →
      node.shortName = c ∧ cli.optsByShortNameArr[c.toNat]? = some (some ref) := by
    intro ref node hlive hnamed
    obtain ⟨-, hword, harr⟩ := hnamed.entry h hlive hlong
    obtain rfl : c = node.shortName := by
      simp only [List.cons.injEq] at hword
      exact hword.2.1
    exact ⟨rfl, harr⟩
  have hunnamed (hno : ∀ ref, cli.optsByShortNameArr[c.toNat]? ≠ some (some ref)) :
      ∀ ref node, Live cli ref node → ¬NamedBy node (x :: c :: rest) :=
    fun ref node hlive hn => hno ref (hnamed ref node hlive hn).2
  have hentry := entryOf_short hlong hlookup
  match harr : cli.optsByShortNameArr[c.toNat]? with
  | none =>
    -- the array ends before the character
    have hfault : entryOf cli (x :: c :: rest) = .error .outOfBounds := by
      rw [hentry, shortNameEntry, show shortNameFromShortOpt (x :: c :: rest) = some c from rfl]
      simp only [harr]
    rw [treatedRight_of_unnamed (hunnamed (by simp [harr])), resolve_eq_none, hfault]
    rw [List.getElem?_eq_none_iff, h.shortNames] at harr
    exact iff_of_false (by simp) fun hclear => absurd hclear.1 (Nat.not_lt.2 harr)
  | some none =>
    have hlt := (List.getElem?_eq_some_iff.1 harr).1
    rw [h.shortNames] at hlt
    rw [treatedRight_of_unnamed (hunnamed (by simp [harr])), resolve_eq_none]
    exact iff_of_true (hentry.trans (shortNameEntry_eq rfl harr)) ⟨hlt, by simp⟩
  | some (some ref) =>
    have hlt := (List.getElem?_eq_some_iff.1 harr).1
    rw [h.shortNames] at hlt
    obtain ⟨hc, -, hshort⟩ := h.shortName _ _ harr
    have hsame : ∀ r node, Live cli r node → NamedBy node (x :: c :: rest) → r = ref := by
      intro r node hlive hn
      have hr := harr.symm.trans (hnamed r node hlive hn).2
      exact (Option.some.inj (Option.some.inj hr)).symm
    rw [treatedRight_of_entry (hentry.trans (shortNameEntry_eq rfl harr)) hsame]
    constructor
    · rintro ⟨node, hlive, hn⟩
      refine ⟨hlt, ?_⟩
      rintro _ ⟨⟩
      obtain ⟨-, hword, -⟩ := hn.entry h hlive hlong
      exact ⟨(hnamed ref node hlive hn).1 ▸ hword, node, hlive⟩
    · rintro ⟨-, hclear⟩
      obtain ⟨hword, node, hlive⟩ := hclear ref rfl
      have hcnode : node.shortName = c := BitVec.eq_of_toNat_eq (hshort node hlive)
      refine ⟨node, hlive, .inl ⟨?_, hcnode.symm ▸ hword⟩⟩
      rintro hzero
      rw [← hcnode, hzero] at hc
      exact hc rfl

/-- The condition is exact for every word. -/
theorem treatedRight_iff (h : Registry cli) (word : Str) :
    TreatedRight δ cli word ↔ Clear cli word := by
  by_cases hlong : optIsLong word = true
  · obtain ⟨name, rfl⟩ := optIsLong_iff.1 hlong
    rw [treatedRight_long_iff h, Clear, if_pos hlong]
    simp
  · rw [Clear, if_neg hlong]
    have hlong : optIsLong word = false := by simpa using hlong
    by_cases hlookup : cli.strict = true ∧ charAt word 0 ≠ some dash
    · -- the word is reported and not looked up, and no name begins like it
      refine iff_of_true ?_ (.inl hlookup)
      have hentry : entryOf cli word = .ok none := by
        rw [entryOf, if_neg (by simp [hlong]), if_pos hlookup]
      refine (treatedRight_of_unnamed fun ref node hlive hnamed => ?_).2 (resolve_eq_none.2 hentry)
      obtain ⟨-, rfl, -⟩ := hnamed.entry h hlive hlong
      exact hlookup.2 rfl
    · rw [or_iff_right hlookup]
      match word with
      | [] =>
        -- there is no second character to read
        have hentry : entryOf cli ([] : Str) = .error .outOfBounds := entryOf_short hlong hlookup
        rw [treatedRight_of_unnamed fun ref node hlive hnamed => ?_]
        · rw [resolve_eq_none, hentry]
          simp
        · obtain ⟨-, hword, -⟩ := hnamed.entry h hlive hlong
          cases hword
      | [x] =>
        -- the second character is the NUL, which is no short name
        have hslot : (0 : ℕ) < cli.optsByShortNameArr.length := by
          rw [h.shortNames]
          decide
        have hzero : cli.optsByShortNameArr[(0 : BitVec 8).toNat]? = some none := by
          match harr : cli.optsByShortNameArr[(0 : BitVec 8).toNat]? with
          | none => exact absurd (List.getElem?_eq_none_iff.1 harr) (Nat.not_le.2 hslot)
          | some none => rfl
          | some (some ref) => exact absurd rfl (h.shortName _ _ harr).1
        have hentry : entryOf cli [x] = .ok none :=
          (entryOf_short hlong hlookup).trans (shortNameEntry_eq rfl hzero)
        refine iff_of_true ?_ ⟨List.cons_ne_nil _ _, by simp⟩
        refine (treatedRight_of_unnamed fun ref node hlive hnamed => ?_).2
          (resolve_eq_none.2 hentry)
        obtain ⟨-, hword, -⟩ := hnamed.entry h hlive hlong
        cases hword
      | x :: c :: rest =>
        rw [treatedRight_char_iff h hlong hlookup]
        simp

end Words

section Scans

variable {α : Type*}

/-- The state that a part of the scan leaves. -/
def Outcome.state : Outcome δ α → Scan δ
  | .go _ s => s
  | .stop _ s => s

/-- The words of `argv` that come to be in option position. -/
def optionWords (cli : Cli φ) (env : MatchEnv φ δ) (argv : List Str) : List Str :=
  if env.mallocMatch = false ∨ env.mallocTable = false then []
  else (scan cli env argv .start).state.words

/-- The public calls keep a registry in order. -/
theorem Made.registry (h : Made cli) : Registry cli := by
  induction h with
  | create h => exact (cliCreate_spec h).1
  | @call cli cli' op _ hcall ih =>
    have hrun : RunRegistry (some cli) := by
      rintro _ ⟨⟩
      exact ih
    exact hrun.exec op cli' hcall

/-- For every registry, in both modes, and every `argv`, a word in option position is treated right
exactly if it is clear. -/
theorem treatedRight_words_iff (h : Made cli) (env : MatchEnv φ δ) (argv : List Str) :
    ∀ word ∈ optionWords cli env argv, TreatedRight δ cli word ↔ Clear cli word :=
  fun word _ => treatedRight_iff h.registry word

/-- An environment in which all allocations succeed and every parser fails. -/
def failingParsers : MatchEnv φ δ where
  mallocMatch := true
  mallocTable := true
  alloc := fun _ => ⟨true, true, true, true⟩
  allocArg := fun _ _ => true
  parse := fun _ _ _ => none

/-- An environment in which all allocations succeed and every parser keeps the word. -/
def copyingParsers : MatchEnv Unit Str where
  mallocMatch := true
  mallocTable := true
  alloc := fun _ => ⟨true, true, true, true⟩
  allocArg := fun _ _ => true
  parse := fun _ _ word => some { data := word, dataFree := false }

/-- The first node of `main`'s registry is there. -/
theorem exists_live_mainCli : ∃ node, Live mainCli 0 node := by
  have hnode : mainCli.heap[0]?.map Option.isSome = some true := by decide +kernel
  obtain ⟨entry, hentry, hsome⟩ := Option.map_eq_some_iff.1 hnode
  obtain ⟨node, rfl⟩ := Option.isSome_iff_exists.1 hsome
  exact ⟨node, hentry⟩

/-- The option that `main` has for the help is treated right. -/
theorem treatedRight_words_help : TreatedRight Unit mainCli (str "-h") := by
  refine (treatedRight_words_iff (.create cliCreate_mainCli) failingParsers [str "-h"] _ ?_).2 ?_
  · decide +kernel
  · have hentry : mainCli.optsByShortNameArr['h'.toNat]? = some (some 0) := by decide +kernel
    have hshort : optIsLong (str "-h") = false := by decide
    rw [Clear, if_neg (by simp [hshort])]
    refine .inr ⟨by decide, ?_⟩
    rintro _ ⟨⟩
    refine ⟨by decide, fun ref href => ?_⟩
    cases hentry.symm.trans href
    exact ⟨by decide, exists_live_mainCli⟩

/-- In the registry that `main` makes, which is strict, the word `-hx` is taken for the option for
the help. -/
theorem not_treatedRight_long_short_name : ¬∀ cli : Cli Unit, Made cli →
    ∀ (env : MatchEnv Unit Unit) (argv : List Str),
      ∀ word ∈ optionWords cli env argv, TreatedRight Unit cli word := by
  intro h
  have hright := h mainCli (.create cliCreate_mainCli) failingParsers [str "-hx"] (str "-hx")
    (by decide +kernel)
  have harr : mainCli.optsByShortNameArr['h'.toNat]? = some (some 0) := by decide +kernel
  have hentry : entryOf mainCli (str "-hx") = .ok (some 0) :=
    (entryOf_short (by decide) fun hno => hno.2 (by decide)).trans
      (shortNameEntry_eq (c := BitVec.ofNat 8 'h'.toNat) (by decide) harr)
  obtain ⟨node, hlive⟩ := exists_live_mainCli
  have htreated : TreatsAs mainCli (str "-hx") (Scan.start (δ := Unit)) node := by
    rw [treatsAs_iff, resolve_eq_some]
    exact ⟨0, hentry, hlive⟩
  rcases (hright.named _ 0 _ hlive).1 htreated with ⟨-, hword⟩ | ⟨name, -, hword⟩
  · exact absurd (congrArg List.length hword) (show (str "-hx").length ≠ 2 by decide)
  · exact absurd (congrArg (·[1]?) hword) (show (str "-hx")[1]? ≠ some dash by decide)

end Scans

end Qkmetisc.CommandLine
