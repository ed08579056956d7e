import Qkmetisc.CommandLine.Permutation

/-!
# The items of `argv`

By the names of the options alone, `argv` falls into items: an option with its argument, or a word
that names no option. Some of them are errors. Where errors are not fatal, the scan comes from one
item to the next as long as the offending ones do no harm: each is reported once and passed over.

## Main definitions

* `named`: the option that a word names.
* `earlyReports`, `reports`: what is reported for a word.
* `Item`, `items`: the items of `argv`.
* `Lenient`: the registries and environments for which this is said.
* `Item.Harmless`: the condition on an offending item.

## Main results

* `findOpt_lenient`: the lookup of a word.
* `flatMap_items`: the items are `argv`.
* `IsItem.scan_deleted`, `IsItem.scan_kept`: the scan of one item.
-/

namespace Qkmetisc.CommandLine

variable {φ δ : Type*} {cli : Cli φ} {env : MatchEnv φ δ} {word : Str} {node : OptNode φ}
  {s : Scan δ}

section Names

/-- The word names the option: two dashes and its long name, or else a dash and its short name. -/
def OptNode.isNamed (node : OptNode φ) (word : Str) : Bool :=
  if optIsLong word then node.longName.map (·.str) = some (longNameFromLongOpt word)
  else node.shortName ≠ cliOptNoShortName ∧ word = [dash, node.shortName]

/-- The registered option that a word names. -/
def named (cli : Cli φ) (word : Str) : Option (OptNode φ) :=
  (cli.heap.filterMap id).find? (·.isNamed word)

/-- A word that names an option is taken for it. -/
theorem resolve_of_isNamed (h : Registry cli) {ref : ℕ} (hlive : Live cli ref node)
    (hnamed : node.isNamed word = true) : resolve cli word = .ok (some node) := by
  unfold OptNode.isNamed at hnamed
  split at hnamed
  · next hlong =>
    obtain ⟨name, rfl⟩ := optIsLong_iff.1 hlong
    obtain ⟨n, hn, hname⟩ := Option.map_eq_some_iff.1 (of_decide_eq_true hnamed)
    exact (resolve_long h hlive).2 ⟨n, hn, hname⟩
  · next hlong =>
    obtain ⟨hshort, rfl⟩ := of_decide_eq_true hnamed
    have hlong : optIsLong [dash, node.shortName] = false := by simpa using hlong
    have hlookup : ¬(cli.strict = true ∧ charAt [dash, node.shortName] 0 ≠ some dash) :=
      fun hno => hno.2 rfl
    have hchar : shortNameFromShortOpt [dash, node.shortName] = some node.shortName := rfl
    have hentry := shortNameEntry_eq hchar (h.byShortName ref node hlive hshort)
    exact resolve_eq_some.2 ⟨ref, (entryOf_short hlong hlookup).trans hentry, hlive⟩

theorem live_iff_mem : node ∈ cli.heap.filterMap id ↔ ∃ ref, Live cli ref node := by
  rw [List.mem_filterMap]
  constructor
  · rintro ⟨entry, hmem, rfl⟩
    exact List.mem_iff_getElem?.1 hmem
  · rintro ⟨ref, hlive⟩
    exact ⟨some node, List.mem_of_getElem? hlive, rfl⟩

theorem resolve_of_named (h : Registry cli) (hnamed : named cli word = some node) :
    resolve cli word = .ok (some node) := by
  unfold named at hnamed
  obtain ⟨ref, hlive⟩ := live_iff_mem.1 (List.mem_of_find?_eq_some hnamed)
  have hword := List.find?_some hnamed
  exact resolve_of_isNamed h hlive hword

end Names

section Reports

/-- The lookup finds no option. -/
def unknown (cli : Cli φ) (word : Str) : Bool :=
  match resolve cli word with
  | .ok none => true
  | _ => false

/-- What is reported before the lookup has come to an end: a long name that is not in the table, or
a word that begins with no dash. -/
def earlyReports (cli : Cli φ) (word : Str) : List (MatchEvent δ) :=
  if optIsLong word then if unknown cli word then [unknownError word] else []
  else if charAt word 0 ≠ some dash then [unknownError word] else []

/-- What is reported for a word where errors are not fatal. -/
def reports (cli : Cli φ) (word : Str) : List (MatchEvent δ) :=
  earlyReports cli word ++ if unknown cli word then [unknownError word] else []

theorem unknown_iff : unknown cli word = true ↔ resolve cli word = .ok none := by
  rcases hresolve : resolve cli word with f | _ | node
  · simp [unknown, hresolve]
  · simp [unknown, hresolve]
  · simp [unknown, hresolve]

/-- The second half of the lookup, for a reference. -/
theorem lookedUp_nodeOf (cli : Cli φ) (ref : ℕ) (s : Scan δ) :
    (match cli.heap[ref]? with
      | some (some node) => Outcome.go (some node) s
      | _ => .stop (.fault .useAfterFree) s) = lookedUp cli (nodeOf cli (some ref)) s := by
  rcases hnode : cli.heap[ref]? with _ | _ | node
  · simp [nodeOf, hnode, lookedUp]
  · simp [nodeOf, hnode, lookedUp]
  · simp [nodeOf, hnode, lookedUp]

theorem unknown_of_ref {ref : ℕ} (h : resolve cli word = nodeOf cli (some ref)) :
    unknown cli word = false := by
  rw [Bool.eq_false_iff, ne_eq, unknown_iff, h, nodeOf_eq_none]
  simp

/-- The first half of the lookup, where errors are not fatal. -/
theorem findEntry_lenient (hlenient : cli.strict = false) (word : Str) (s : Scan δ) :
    findEntry cli word s =
      match entryOf cli word with
      | .error f => .stop (.fault f) (s.observes (earlyReports cli word))
      | .ok entry => .go entry (s.observes (earlyReports cli word)) := by
  rw [findEntry, earlyReports]
  by_cases hlong : optIsLong word = true
  · rw [if_pos hlong, if_pos hlong, findLong, entryOf, if_pos hlong]
    rcases hget : cli.optsByLongNameHt.get (.fromStr (longNameFromLongOpt word))
      (HashStr.fromStr (longNameFromLongOpt word)).key with _ | ref
    · have hresolve : resolve cli word = .ok none := by
        rw [resolve_eq_none, entryOf, if_pos hlong, hget]
      rw [if_pos (unknown_iff.2 hresolve), cliPrintError, hlenient]
      rfl
    · have hresolve : resolve cli word = nodeOf cli (some ref) := by
        rw [resolve, entryOf, if_pos hlong, hget]
        rfl
      simp [unknown_of_ref hresolve, observes_nil]
  · have hentry : entryOf cli word = shortNameEntry cli word :=
      entryOf_short (by simpa using hlong) (by simp [hlenient])
    rw [if_neg hlong, if_neg hlong, findShort, hentry]
    -- the word is looked up whether or not it begins with a dash
    by_cases hdash : charAt word 0 = some dash
    · rw [if_neg (not_not.2 hdash), if_neg (not_not.2 hdash), observes_nil]
      rfl
    · rw [if_pos hdash, if_pos hdash, cliPrintError, hlenient]
      rfl

/-- The lookup of a word where errors are not fatal. -/
theorem findOpt_lenient (hlenient : cli.strict = false) (word : Str) (s : Scan δ) :
    findOpt cli word s = lookedUp cli (resolve cli word) (s.observes (reports cli word)) := by
  rw [findOpt, ← findEntry, findEntry_lenient hlenient, reports]
  rcases hentry : entryOf cli word with f | _ | ref
  · have hresolve : resolve cli word = .error f := by
      rw [resolve, hentry]
      rfl
    simp [unknown, hresolve, lookedUp]
  · have hresolve : resolve cli word = .ok none := by rw [resolve_eq_none, hentry]
    simp [unknown, hresolve, lookedUp, hlenient, cliPrintError, Scan.observe, Scan.observes,
      unknownError]
  · have hresolve : resolve cli word = nodeOf cli (some ref) := by
      rw [resolve, hentry]
      rfl
    rw [unknown_of_ref hresolve, hresolve, ← lookedUp_nodeOf, if_neg (by simp), List.append_nil]
    rfl

/-- The body of the loop where errors are not fatal, for a word that is unknown. -/
theorem scanWord_unknown (hlenient : cli.strict = false) (env : MatchEnv φ δ)
    (next : Option Str) (h : resolve cli word = .ok none) (s : Scan δ) :
    scanWord cli env word next s = .go false (s.after word (reports cli word)) := by
  rw [scanWord, findOpt_lenient hlenient, h, lookedUp, hlenient]
  rfl

/-- The body of the loop where errors are not fatal, for a word that is known. -/
theorem scanWord_known (hlenient : cli.strict = false) (env : MatchEnv φ δ)
    (next : Option Str) (h : resolve cli word = .ok (some node)) (s : Scan δ) :
    scanWord cli env word next s =
      scanOpt cli env node word next (s.after word (earlyReports cli word)) := by
  rw [scanWord, findOpt_lenient hlenient, h, lookedUp, reports]
  simp [unknown, h, Scan.after, Scan.observes]

end Reports

section Items

/-- What a word in option position is to the caller. -/
inductive Fate (δ : Type*) where
  /-- No option has this name. -/
  | unknown
  /-- It is the last word, and its option takes an argument. -/
  | lacking
  /-- The parser of the option rejects the argument. -/
  | rejected
  /-- The option has come before. -/
  | repeated
  | kept (entry : HashStr × Option (OptArg δ))

/-- A word in option position, with the argument that belongs to it. -/
structure Item (δ : Type*) where
  word : Str
  arg : Option Str
  fate : Fate δ

/-- The words of an item. -/
def Item.words (item : Item δ) : List Str := item.word :: item.arg.toList

/-- The error of an offending item. -/
def Item.error (item : Item δ) : Option (MatchEvent δ) :=
  match item.fate with
  | .unknown => some (unknownError item.word)
  | .lacking => some (.error .optNoArg item.word none)
  | .rejected => some (.error .optFailedToParseArg item.word item.arg)
  | .repeated => some (.error .optRepeatNoAppend item.word none)
  | .kept _ => none

/-- What an item adds to a match. -/
def Item.entry (item : Item δ) : Option (HashStr × Option (OptArg δ)) :=
  match item.fate with
  | .kept entry => some entry
  | _ => none

/-- What the parser of an option makes of an argument. It looks at nothing else, and so may be told
any place. -/
def OptNode.parsed (node : OptNode φ) (env : MatchEnv φ δ) (argStr : Str) : Option (OptArg δ) :=
  match node.funcs with
  | .parser (some p) => env.parse 0 p argStr
  | _ => none

/-- An option is repeated if it is held already and does not append. -/
def OptNode.fate (node : OptNode φ) (held : List (HashStr × Option (OptArg δ)))
    (arg : Option (OptArg δ)) : Fate δ :=
  if node.append = false ∧ node.id ∈ held.map Prod.fst then .repeated else .kept (node.id, arg)

/-- The item that begins with a word, by the name of an option. -/
def itemAt (cli : Cli φ) (env : MatchEnv φ δ) (held : List (HashStr × Option (OptArg δ)))
    (word : Str) (next : Option Str) : Item δ :=
  match named cli word with
  | none => ⟨word, none, .unknown⟩
  | some node =>
    if node.hasArg then
      match next with
      | none => ⟨word, none, .lacking⟩
      | some argStr =>
        match node.parsed env argStr with
        | none => ⟨word, some argStr, .rejected⟩
        | some arg => ⟨word, some argStr, node.fate held (some arg)⟩
    else ⟨word, none, node.fate held none⟩

/-- The items of `argv`, given what is held before. -/
def items (cli : Cli φ) (env : MatchEnv φ δ) :
    List (HashStr × Option (OptArg δ)) → List Str → List (Item δ)
  | _, [] => []
  | held, [word] => [itemAt cli env held word none]
  | held, word :: argStr :: rest =>
    let item := itemAt cli env held word argStr
    item ::
      if item.arg.isSome then items cli env (held ++ item.entry.toList) rest
      else items cli env (held ++ item.entry.toList) (argStr :: rest)

/-- An option, with the word behind it if that is its argument, and the argument to be stored. -/
inductive Offers (cli : Cli φ) (env : MatchEnv φ δ) :
    Str → Option Str → OptNode φ → Option (OptArg δ) → Prop
  | flag {word : Str} {node : OptNode φ} (h : named cli word = some node)
    (harg : node.hasArg = false) : Offers cli env word none node none
  | arg {word argStr : Str} {node : OptNode φ} {arg : OptArg δ} (h : named cli word = some node)
    (harg : node.hasArg = true) (hparse : node.parsed env argStr = some arg) :
    Offers cli env word (some argStr) node (some arg)

/-- An item, given what is held before. -/
inductive IsItem (cli : Cli φ) (env : MatchEnv φ δ) (held : List (HashStr × Option (OptArg δ))) :
    Item δ → Prop
  | unknown {word : Str} (h : named cli word = none) : IsItem cli env held ⟨word, none, .unknown⟩
  | lacking {word : Str} {node : OptNode φ} (h : named cli word = some node)
    (harg : node.hasArg = true) : IsItem cli env held ⟨word, none, .lacking⟩
  | rejected {word argStr : Str} {node : OptNode φ} (h : named cli word = some node)
    (harg : node.hasArg = true) (hparse : node.parsed env argStr = none) :
    IsItem cli env held ⟨word, some argStr, .rejected⟩
  | repeated {word : Str} {argStr : Option Str} {node : OptNode φ} {arg : Option (OptArg δ)}
    (h : Offers cli env word argStr node arg) (happend : node.append = false)
    (hmem : node.id ∈ held.map Prod.fst) : IsItem cli env held ⟨word, argStr, .repeated⟩
  | kept {word : Str} {argStr : Option Str} {node : OptNode φ} {arg : Option (OptArg δ)}
    (h : Offers cli env word argStr node arg)
    (hnew : node.append = false → node.id ∉ held.map Prod.fst) :
    IsItem cli env held ⟨word, argStr, .kept (node.id, arg)⟩

/-- Items, given what is held before the first one. -/
inductive Itemized (cli : Cli φ) (env : MatchEnv φ δ) :
    List (HashStr × Option (OptArg δ)) → List (Item δ) → Prop
  | nil (held : List (HashStr × Option (OptArg δ))) : Itemized cli env held []
  | cons {held : List (HashStr × Option (OptArg δ))} {item : Item δ} {its : List (Item δ)}
    (hitem : IsItem cli env held item)
    (hrest : Itemized cli env (held ++ item.entry.toList) its) : Itemized cli env held (item :: its)

variable {held : List (HashStr × Option (OptArg δ))}

theorem Offers.named {argStr : Option Str} {arg : Option (OptArg δ)}
    (h : Offers cli env word argStr node arg) : named cli word = some node := by
  cases h with
  | flag hnamed harg => exact hnamed
  | arg hnamed harg hparse => exact hnamed

theorem Offers.hasArg {argStr : Option Str} {arg : Option (OptArg δ)}
    (h : Offers cli env word argStr node arg) :
    node.hasArg = arg.isSome ∧ argStr.isSome = arg.isSome := by
  cases h with
  | flag hnamed harg => exact ⟨harg, rfl⟩
  | arg hnamed harg hparse => exact ⟨harg, rfl⟩

theorem Offers.isItem {argStr : Option Str} {arg : Option (OptArg δ)}
    (h : Offers cli env word argStr node arg) :
    IsItem cli env held ⟨word, argStr, node.fate held arg⟩ := by
  unfold OptNode.fate
  split
  · next hrepeated => exact .repeated h hrepeated.1 hrepeated.2
  · next hnew => exact .kept h fun happend hmem => hnew ⟨happend, hmem⟩

theorem isItem_itemAt (word : Str) (next : Option Str) :
    IsItem cli env held (itemAt cli env held word next) := by
  rw [itemAt]
  split
  · next hnamed => exact .unknown hnamed
  · next node hnamed =>
    split
    · next harg =>
      split
      · exact .lacking hnamed harg
      · split
        · next hparse => exact .rejected hnamed harg hparse
        · next hparse => exact (Offers.arg hnamed harg hparse).isItem
    · next harg => exact (Offers.flag hnamed (by simpa using harg)).isItem

theorem word_itemAt (word : Str) (next : Option Str) :
    (itemAt cli env held word next).word = word := by
  unfold itemAt
  repeat' split
  all_goals rfl

/-- The argument of an item is the word behind it. -/
theorem arg_itemAt (word : Str) (next : Option Str) :
    (itemAt cli env held word next).arg = none ∨ (itemAt cli env held word next).arg = next := by
  unfold itemAt
  repeat' split
  all_goals simp

theorem itemized_items (argv : List Str) : Itemized cli env held (items cli env held argv) := by
  fun_induction items cli env held argv with
  | case1 held => exact .nil held
  | case2 held word => exact .cons (isItem_itemAt word none) (.nil _)
  | case3 held word argStr rest item ih ih' =>
    split
    · exact .cons (isItem_itemAt word argStr) ih
    · exact .cons (isItem_itemAt word argStr) ih'

/-- The items are `argv`, taken apart. -/
theorem flatMap_items (argv : List Str) : (items cli env held argv).flatMap Item.words = argv := by
  fun_induction items cli env held argv with
  | case1 held => rfl
  | case2 held word =>
    have harg : (itemAt cli env held word none).arg = none := (arg_itemAt word none).elim id id
    simp [Item.words, word_itemAt, harg]
  | case3 held word argStr rest item ih ih' =>
    have hword : item.word = word := word_itemAt word argStr
    have harg : item.arg = none ∨ item.arg = some argStr := arg_itemAt word argStr
    rcases harg with harg | harg
    · simp [Item.words, hword, harg, ih']
    · simp [Item.words, hword, harg, ih]

end Items

section Step

/-- Every option that takes an argument has a parser. -/
def HasParsers (cli : Cli φ) : Prop :=
  ∀ ref node, Live cli ref node → node.hasArg = true → ∃ p, node.funcs = .parser (some p)

/-- Errors are not fatal, no option is internal, and every option that takes an argument has a
parser, which looks at nothing else. -/
structure Lenient (cli : Cli φ) (env : MatchEnv φ δ) : Prop where
  made : Made cli
  lenient : cli.strict = false
  internal : NoneInternal cli
  parsers : HasParsers cli
  pure : PureParsers env

/-- An offending item does no harm: it is no last option that lacks its argument, and if it is a
word that names no option, it begins with exactly one dash and the array of short names has an empty
place for its second byte, which may be its NUL. -/
def Item.Harmless (cli : Cli φ) (item : Item δ) : Prop :=
  match item.fate with
  | .unknown => optIsLong item.word = false ∧ charAt item.word 0 = some dash ∧
      (charAt item.word 1).bind (fun c => cli.optsByShortNameArr[c.toNat]?) = some none
  | .lacking => False
  | _ => True

instance (cli : Cli φ) : (item : Item δ) → Decidable (item.Harmless cli)
  | ⟨word, _, .unknown⟩ => inferInstanceAs (Decidable (optIsLong word = false ∧
      charAt word 0 = some dash ∧
        (charAt word 1).bind (fun c => cli.optsByShortNameArr[c.toNat]?) = some none))
  | ⟨_, _, .lacking⟩ => .isFalse id
  | ⟨_, _, .rejected⟩ => .isTrue trivial
  | ⟨_, _, .repeated⟩ => .isTrue trivial
  | ⟨_, _, .kept _⟩ => .isTrue trivial

variable {item : Item δ} {held : List (HashStr × Option (OptArg δ))} {argStr : Str}
  {arg : Option (OptArg δ)}

theorem Lenient.resolve (h : Lenient cli env) (hnamed : named cli word = some node) :
    resolve cli word = .ok (some node) :=
  resolve_of_named h.made.registry hnamed

/-- Nothing is reported for the name of an option. -/
theorem earlyReports_of_named (h : Registry cli) (hnamed : named cli word = some node) :
    (earlyReports cli word : List (MatchEvent δ)) = [] := by
  have hresolve := resolve_of_named h hnamed
  unfold named at hnamed
  have hword := List.find?_some hnamed
  rw [earlyReports]
  by_cases hlong : optIsLong word = true
  · rw [if_pos hlong, if_neg]
    rw [unknown_iff, hresolve]
    simp
  · rw [OptNode.isNamed, if_neg hlong] at hword
    obtain ⟨-, rfl⟩ := of_decide_eq_true hword
    rw [if_neg hlong]
    rfl

/-- A word that does no harm is reported once. -/
theorem reports_of_harmless (hlenient : cli.strict = false)
    (hharmless : (⟨word, none, .unknown⟩ : Item δ).Harmless cli) :
    resolve cli word = .ok none ∧
      (reports cli word : List (MatchEvent δ)) = [unknownError word] := by
  obtain ⟨hlong, hdash, hentry⟩ := hharmless
  obtain ⟨c, hchar, harr⟩ := Option.bind_eq_some_iff.1 hentry
  have hresolve : resolve cli word = .ok none := by
    rw [resolve_eq_none, entryOf_short hlong (by simp [hlenient])]
    exact shortNameEntry_eq hchar harr
  refine ⟨hresolve, ?_⟩
  rw [reports, if_pos (unknown_iff.2 hresolve), earlyReports, if_neg (by simp [hlong]),
    if_neg (not_not.2 hdash)]
  rfl

theorem OptNode.parse_eq (hpure : PureParsers env) {p : φ} (hparser : node.funcs = .parser (some p))
    (i : ℕ) (argStr : Str) : env.parse i p argStr = node.parsed env argStr := by
  rw [OptNode.parsed, hparser]
  exact hpure i 0 p argStr

theorem after_observe (s : Scan δ) (word : Str) (errs : List (MatchEvent δ)) (e : MatchEvent δ) :
    (s.after word errs).observe e = s.after word (errs ++ [e]) := by
  simp [Scan.after, Scan.observe]

/-- An error that is not fatal. -/
theorem cliPrintError_lenient (hlenient : cli.strict = false) (type : OptErrorType)
    (val1 val2 : Option Str) (s : Scan δ) :
    cliPrintError cli type val1 val2 s = .go () (s.observe (.error type val1 val2)) := by
  rw [cliPrintError, hlenient]
  rfl

/-- The scan of an option without an argument comes to storing it. -/
theorem scan_flag (h : Lenient cli env) (hnamed : named cli word = some node)
    (harg : node.hasArg = false) (rest : List Str) (s : Scan δ) :
    scan cli env (word :: rest) s = (storeArg cli env node word none (s.after word [])).bind
      fun _ s => scan cli env rest s := by
  have hresolve := h.resolve hnamed
  rw [scan, scanWord_known h.lenient env _ hresolve, earlyReports_of_named h.made.registry hnamed,
    scanOpt_flag (h.internal.of_resolve hresolve) harg]
  rcases storeArg cli env node word none (s.after word []) with _ | _
  · rfl
  · rfl

/-- The scan of an option with its argument, by what the parser makes of it. -/
theorem scan_arg (h : Lenient cli env) (hnamed : named cli word = some node)
    (harg : node.hasArg = true) (argStr : Str) (rest : List Str) (s : Scan δ) :
    scan cli env (word :: argStr :: rest) s =
      match node.parsed env argStr with
      | some arg => (storeArg cli env node word (some arg) (s.after word [])).bind
          fun _ s => scan cli env rest s
      | none => scan cli env rest (s.after word [.error .optFailedToParseArg word argStr]) := by
  have hresolve := h.resolve hnamed
  obtain ⟨ref, -, hlive⟩ := resolve_eq_some.1 hresolve
  obtain ⟨p, hparser⟩ := h.parsers ref node hlive harg
  rw [scan, List.head?_cons, scanWord_known h.lenient env _ hresolve,
    earlyReports_of_named h.made.registry hnamed,
    scanOpt_arg (h.internal.of_resolve hresolve) harg hparser, OptNode.parse_eq h.pure hparser]
  rcases node.parsed env argStr with _ | arg
  · dsimp only
    rw [cliPrintError_lenient h.lenient, after_observe]
    rfl
  · dsimp only
    rcases storeArg cli env node word (some arg) (s.after word []) with _ | _
    · rfl
    · rfl

/-- The scan of an option that can be parsed comes to storing it. -/
theorem Offers.scan_eq {argStr : Option Str} {arg : Option (OptArg δ)}
    (hoffers : Offers cli env word argStr node arg) (h : Lenient cli env) (rest : List Str)
    (s : Scan δ) : scan cli env (word :: argStr.toList ++ rest) s =
      (storeArg cli env node word arg (s.after word [])).bind fun _ s => scan cli env rest s := by
  cases hoffers with
  | flag hnamed harg => exact scan_flag h hnamed harg rest s
  | arg hnamed harg hparse =>
    show scan cli env (word :: _ :: rest) s = _
    rw [scan_arg h hnamed harg, hparse]

/-- The scan of an offending item that does no harm reports it. -/
theorem IsItem.scan_deleted (hitem : IsItem cli env held item) (h : Lenient cli env)
    (hholds : Holds s.found held) {e : MatchEvent δ} (he : item.error = some e)
    (hharmless : item.Harmless cli) (rest : List Str) :
    scan cli env (item.words ++ rest) s = scan cli env rest (s.after item.word [e]) := by
  cases hitem with
  | @unknown word hnamed =>
    cases he
    obtain ⟨hresolve, hreports⟩ := reports_of_harmless h.lenient hharmless
    show scan cli env (word :: rest) s = _
    rw [scan, scanWord_unknown h.lenient env _ hresolve, hreports]
  | lacking hnamed harg => exact hharmless.elim
  | @rejected word argStr node hnamed harg hparse =>
    cases he
    show scan cli env (word :: argStr :: rest) s = _
    rw [scan_arg h hnamed harg, hparse]
  | repeated hoffers happend hmem =>
    cases he
    rw [Item.words, hoffers.scan_eq h,
      (storeArg_repeated (s := s.after _ []) hholds happend hmem).2 h.lenient, after_observe]
    rfl
  | kept hoffers hnew => cases he

/-- The scan of any other item comes to storing its entry. -/
theorem IsItem.scan_kept (hitem : IsItem cli env held item) (h : Lenient cli env)
    (he : item.error = none) : ∃ node arg, item.entry = some (node.id, arg) ∧
      node.id ∉ held.map Prod.fst ∧ ∀ rest s, scan cli env (item.words ++ rest) s =
        (storeArg cli env node item.word arg (s.after item.word [])).bind
          fun _ s => scan cli env rest s := by
  cases hitem with
  | unknown hnamed => cases he
  | lacking hnamed harg => cases he
  | rejected hnamed harg hparse => cases he
  | repeated hoffers happend hmem => cases he
  | @kept word argStr node arg hoffers hnew =>
    have happend := h.made.noneAppends.of_resolve (h.resolve hoffers.named)
    exact ⟨node, arg, rfl, hnew happend, hoffers.scan_eq h⟩

end Step

end Qkmetisc.CommandLine
