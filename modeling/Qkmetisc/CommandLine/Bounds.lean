import Qkmetisc.CommandLine.Held

/-!
# How far the scan of the arguments goes

The loop of `cli_match` advances `argv` in its header, and in its body before it fetches the
argument of an option. Where errors are fatal, a missing argument ends the scan. Where they are
not, the loop goes on from the `NULL`, and its header steps over it.

## Main definitions

* `InBounds`: the scan reads nothing behind the `NULL`, in at most as many steps as there are words.
* `Goes`: what one word does to the cursor.
* `Lacking`: the scan comes to a last word that lacks its argument.

## Main results

* `scanWord_within`, `scan_words_le`: every step is one word.
* `scanWord_goes`, `scanWord_ends`: one step, where errors are not fatal.
* `scan_beyond_iff`, `inBounds_iff`: the scan leaves the words exactly if it comes to such a word
  and errors are not fatal.
-/

namespace Qkmetisc.CommandLine

variable {φ δ : Type*} {cli : Cli φ} {env : MatchEnv φ δ} {word : Str} {next : Option Str}
  {s : Scan δ}

/-- The scan of `argv` reads no slot behind the `NULL`, and has at most as many iterations as there
are words. -/
def InBounds (cli : Cli φ) (env : MatchEnv φ δ) (argv : List Str) : Prop :=
  (∀ s, scan cli env argv .start ≠ .stop .beyondArgv s) ∧
    (scan cli env argv .start).state.words.length ≤ argv.length

section Steps

variable {α β : Type*} {words : List Str}

/-- A part of the loop's body, which has these words in option position when it is done, and does
not leave `argv`. -/
structure Outcome.Within (o : Outcome δ α) (words : List Str) : Prop where
  words : o.state.words = words
  inside : ∀ s, o ≠ .stop .beyondArgv s

theorem within_go (a : α) (s : Scan δ) : (Outcome.go a s).Within s.words := ⟨rfl, nofun⟩

theorem within_stop {e : ScanEnd} {s : Scan δ} (h : e ≠ .beyondArgv) (hs : s.words = words) :
    (Outcome.stop e s : Outcome δ α).Within words := by
  refine ⟨hs, fun s' heq => h ?_⟩
  injection heq

/-- One part after another. -/
theorem Outcome.Within.bind {o : Outcome δ α} {f : α → Scan δ → Outcome δ β}
    (ho : o.Within words) (hf : ∀ a s, (f a s).Within s.words) : (o.bind f).Within words := by
  match o with
  | .go a s =>
    have hwords : s.words = words := ho.words
    exact hwords ▸ hf a s
  | .stop e s =>
    refine within_stop ?_ ho.words
    rintro rfl
    exact ho.inside s rfl

theorem cliPrintError_within (cli : Cli φ) (type : OptErrorType) (val1 val2 : Option Str)
    (s : Scan δ) :
    (cliPrintError cli type val1 val2 s).Within s.words := by
  unfold cliPrintError
  dsimp only
  split
  · exact within_stop (by simp) rfl
  · exact within_go () _

theorem parseArg_within (node : OptNode φ) (opt : Str) (s : Scan δ) :
    (parseArg cli env node opt next s).Within s.words := by
  unfold parseArg
  split
  · exact (cliPrintError_within cli _ _ _ s).bind fun _ s => within_go none s
  · split
    · split
      · exact within_go _ s
      · exact (cliPrintError_within cli _ _ _ s).bind fun _ s => within_go none s
    · exact within_stop (by simp) rfl

theorem destructArg_words (node : OptNode φ) (arg : Option (OptArg δ)) (s : Scan δ) :
    (destructArg node arg s).words = s.words := by
  unfold destructArg
  split <;> rfl

theorem storeArg_within (node : OptNode φ) (opt : Str) (arg : Option (OptArg δ)) (s : Scan δ) :
    (storeArg cli env node opt arg s).Within s.words := by
  unfold storeArg
  split
  · split
    · split
      · exact within_stop (by simp) rfl
      · exact within_go () _
    · have herror := cliPrintError_within cli .optRepeatNoAppend opt none s
      split
      · next e s' heq =>
        rw [heq] at herror
        refine within_stop ?_ ((destructArg_words node arg s').trans herror.words)
        rintro rfl
        exact herror.inside s' rfl
      · next s' heq =>
        rw [heq] at herror
        have hwords : s'.words = s.words := herror.words
        exact hwords ▸ within_go () s'
  · split
    · exact within_go () _
    · next found _ =>
      exact within_stop (by simp) (destructArg_words node arg { s with found })

theorem scanOpt_within (node : OptNode φ) (opt : Str) (s : Scan δ) :
    (scanOpt cli env node opt next s).Within s.words := by
  unfold scanOpt
  split
  · refine within_stop ?_ rfl
    unfold cliHandleInternal
    split <;> exact nofun
  · split
    · refine (parseArg_within node opt s).bind fun arg s => ?_
      match arg with
      | none => exact within_go true s
      | some arg => exact (storeArg_within node opt (some arg) s).bind fun _ s => within_go true s
    · exact (storeArg_within node opt none s).bind fun _ s => within_go false s

/-- The body of the loop has one word in option position. -/
theorem scanWord_within (word : Str) (next : Option Str) (s : Scan δ) :
    (scanWord cli env word next s).Within (s.words ++ [word]) := by
  obtain ⟨errs, -, heq⟩ := scanWord_eq cli env word next s
  rw [heq]
  have hlookup :
      (lookedUp cli (resolve cli word) (s.after word errs)).Within (s.words ++ [word]) := by
    unfold lookedUp
    split
    · exact within_stop (by simp) rfl
    · exact within_go _ (s.after word errs)
    · split
      · exact within_stop (by simp) rfl
      · exact within_go _ (s.after word errs)
  refine hlookup.bind fun node s => ?_
  match node with
  | none => exact within_go false s
  | some node => exact scanOpt_within node word s

theorem length_words_of_scanWord {word : Str} {next : Option Str} {s : Scan δ} {o : Outcome δ Bool}
    (hword : scanWord cli env word next s = o) :
    o.state.words.length = s.words.length + 1 := by
  rw [← hword, (scanWord_within word next s).words, List.length_append, List.length_singleton]

/-- A scan has no more iterations than there are words left. -/
theorem scan_words_le (cli : Cli φ) (env : MatchEnv φ δ) (argv : List Str) (s : Scan δ) :
    (scan cli env argv s).state.words.length ≤ s.words.length + argv.length := by
  fun_induction scan cli env argv s with
  | case1 s => exact Nat.le_refl _
  | case2 word rest s e s' hword =>
    have hlen : s'.words.length = _ := length_words_of_scanWord hword
    simp only [Outcome.state, hlen, List.length_cons]
    omega
  | case3 word rest s s' hword ih =>
    have hlen : s'.words.length = _ := length_words_of_scanWord hword
    rw [hlen] at ih
    rw [List.length_cons]
    omega
  | case4 word s s' hword =>
    have hlen : s'.words.length = _ := length_words_of_scanWord hword
    simp only [Outcome.state, hlen, List.length_cons]
    omega
  | case5 word s s' arg rest hword ih =>
    have hlen : s'.words.length = _ := length_words_of_scanWord hword
    rw [hlen] at ih
    rw [List.length_cons, List.length_cons]
    omega

end Steps

section Lenient

/-- The match holds only options for which memory was granted. -/
def Scanned (env : MatchEnv φ δ) (s : Scan δ) : Prop :=
  ∃ held, Holds s.found held ∧ ∀ id ∈ held.map Prod.fst, (env.alloc id.str).granted

/-- What a word does to the cursor where errors are not fatal, when the scan has seen `i` words and
`next` is the slot behind the word: the loop goes on, with or without a second advance. An internal
option ends the process, and a lack of memory ends the scan. -/
inductive Goes (cli : Cli φ) (env : MatchEnv φ δ) (i : ℕ) : Str → Option Str → Bool → Prop
  | unknown {word : Str} {next : Option Str} (h : resolve cli word = .ok none) :
    Goes cli env i word next false
  | flag {word : Str} {next : Option Str} {node : OptNode φ}
    (h : resolve cli word = .ok (some node)) (hinternal : node.internal = false)
    (harg : node.hasArg = false) (hgranted : (env.alloc node.id.str).granted) :
    Goes cli env i word next false
  /-- There is no argument, so nothing is parsed and nothing is stored. -/
  | lacking {word : Str} {node : OptNode φ} (h : resolve cli word = .ok (some node))
    (hinternal : node.internal = false) (harg : node.hasArg = true) : Goes cli env i word none true
  | arg {word arg : Str} {node : OptNode φ} {p : φ} (h : resolve cli word = .ok (some node))
    (hinternal : node.internal = false) (harg : node.hasArg = true)
    (hparser : node.funcs = .parser (some p))
    (hstored : env.parse i p arg = none ∨ (env.alloc node.id.str).granted) :
    Goes cli env i word (some arg) true

/-- Where errors are not fatal, the scan of the words comes to a last one that lacks its argument:
the words before it are unknown, options without an argument, or options with theirs. -/
inductive Lacking (cli : Cli φ) (env : MatchEnv φ δ) : ℕ → List Str → Prop
  | last {i : ℕ} {word : Str} (h : Goes cli env i word none true) : Lacking cli env i [word]
  | word {i : ℕ} {word : Str} {rest : List Str} (h : Goes cli env i word rest.head? false)
    (hrest : Lacking cli env (i + 1) rest) : Lacking cli env i (word :: rest)
  | option {i : ℕ} {word arg : Str} {rest : List Str} (h : Goes cli env i word (some arg) true)
    (hrest : Lacking cli env (i + 1) rest) : Lacking cli env i (word :: arg :: rest)

variable {node : OptNode φ} {arg : Option (OptArg δ)} {i : ℕ}

/-- A word that names an option with an argument. -/
def TakesArg (cli : Cli φ) (word : Str) : Prop :=
  ((resolve cli word).toOption.join.map OptNode.hasArg) = some true

instance (cli : Cli φ) (word : Str) : Decidable (TakesArg cli word) :=
  inferInstanceAs (Decidable (_ = _))

/-- The argument of an option is no word in option position. -/
theorem not_lacking_takesArg {word arg : Str} {rest : List Str} (h : TakesArg cli word)
    (hrest : ¬Lacking cli env (i + 1) rest) : ¬Lacking cli env i (word :: arg :: rest) := by
  rintro (_ | ⟨hgoes, -⟩ | ⟨-, hlacking⟩)
  · -- without a second advance, the word would name no option or one without an argument
    cases hgoes with
    | unknown hresolve => simp [TakesArg, hresolve, Except.toOption] at h
    | flag hresolve hinternal harg => simp [TakesArg, hresolve, Except.toOption, harg] at h
  · exact hrest hlacking

theorem scanned_start : Scanned env (.start : Scan δ) :=
  ⟨[], holds_create, nofun⟩

/-- Storing an argument, where a repeated option is no fatal error. -/
theorem storeArg_lenient (hstrict : cli.strict = false) (happend : node.append = false)
    (hs : Scanned env s) (opt : Str) (arg : Option (OptArg δ)) :
    ((env.alloc node.id.str).granted →
      ∃ s', storeArg cli env node opt arg s = .go () s' ∧ Scanned env s') ∧
    (¬(env.alloc node.id.str).granted →
      ∃ s', storeArg cli env node opt arg s = .stop .destroyMatch s') := by
  obtain ⟨held, hholds, hgranted⟩ := hs
  constructor
  · intro ha
    by_cases hmem : node.id ∈ held.map Prod.fst
    · exact ⟨_, (storeArg_repeated hholds happend hmem).2 hstrict, held, hholds, hgranted⟩
    · obtain ⟨found, hstore, hholds'⟩ := storeArg_new cli opt arg hholds hmem ha
      refine ⟨_, hstore, _, hholds', fun id hid => ?_⟩
      rw [List.map_append, List.mem_append] at hid
      rcases hid with hid | hid
      · exact hgranted id hid
      · obtain rfl : id = node.id := by simpa using hid
        exact ha
  · -- what was denied is not held
    intro ha
    obtain ⟨found, hstore, -⟩ := storeArg_denied hholds (fun hmem => ha (hgranted _ hmem)) ha
    exact ⟨_, hstore⟩

theorem length_words_after (s : Scan δ) (word : Str) (errs : List (MatchEvent δ)) :
    (s.after word errs).words.length - 1 = s.words.length := by
  simp [Scan.after]

/-- One step, where errors are not fatal. -/
theorem scanWord_goes (hstrict : cli.strict = false) (happend : NoneAppends cli)
    (hs : Scanned env s) {b : Bool} (h : Goes cli env s.words.length word next b) :
    ∃ s', scanWord cli env word next s = .go b s' ∧ Scanned env s' := by
  have hafter (errs : List (MatchEvent δ)) : Scanned env (s.after word errs) := hs
  cases h with
  | unknown h =>
    obtain ⟨errs, -, hword⟩ := scanWord_of_none env next h s
    rw [hstrict] at hword
    exact ⟨_, hword, hafter errs⟩
  | flag h hinternal harg hgranted =>
    obtain ⟨errs, -, hword⟩ := scanWord_of_some env next h s
    obtain ⟨s', hstore, hs'⟩ := (storeArg_lenient hstrict (happend.of_resolve h)
      (hafter errs) word none).1 hgranted
    refine ⟨s', ?_, hs'⟩
    rw [hword, scanOpt_flag hinternal harg, hstore, Outcome.bind_go]
  | lacking h hinternal harg =>
    obtain ⟨errs, -, hword⟩ := scanWord_of_some env none h s
    refine ⟨(s.after word errs).observe (.error .optNoArg word none), ?_, hafter errs⟩
    rw [hword, scanOpt_lacking hinternal harg, cliPrintError, hstrict]
    rfl
  | arg h hinternal harg hparser hstored =>
    rename_i argStr node p
    obtain ⟨errs, -, hword⟩ := scanWord_of_some env (some argStr) h s
    rw [scanOpt_arg hinternal harg hparser, length_words_after] at hword
    rcases hparse : env.parse s.words.length p argStr with _ | arg
    · rw [hparse, cliPrintError, hstrict] at hword
      exact ⟨(s.after word errs).observe (.error .optFailedToParseArg word argStr), hword,
        hafter errs⟩
    · have hgranted := hstored.resolve_left (by simp [hparse])
      obtain ⟨s', hstore, hs'⟩ := (storeArg_lenient hstrict (happend.of_resolve h)
        (hafter errs) word (some arg)).1 hgranted
      rw [hparse] at hword
      refine ⟨s', hword.trans ?_, hs'⟩
      dsimp only
      rw [hstore, Outcome.bind_go]

/-- A word after which the loop does not go on ends the scan. -/
theorem scanWord_ends (hstrict : cli.strict = false) (happend : NoneAppends cli)
    (hs : Scanned env s) (h : ∀ b, ¬Goes cli env s.words.length word next b) :
    ∃ e s', scanWord cli env word next s = .stop e s' := by
  obtain ⟨errs, -, hbody⟩ := scanWord_cases cli env word next s
  have hstore {node : OptNode φ} (hresolve : resolve cli word = .ok (some node)) :=
    storeArg_lenient hstrict (happend.of_resolve hresolve)
      (show Scanned env (s.after word errs) from hs) word
  cases hbody with
  | fault hresolve ho => exact ⟨_, _, ho⟩
  | fatal hresolve hfatal ho => cases hstrict.symm.trans hfatal
  | unknown hresolve hlenient ho => exact absurd (.unknown hresolve) (h false)
  | internal hresolve hinternal ho => exact ⟨_, _, ho⟩
  | flag hresolve hinternal harg ho =>
    obtain ⟨s', hstop⟩ := (hstore hresolve none).2 fun ha =>
      h false (.flag hresolve hinternal harg ha)
    rw [hstop] at ho
    exact ⟨_, s', ho⟩
  | lacking hresolve hinternal harg hnext ho =>
    rw [hnext] at h
    exact absurd (.lacking hresolve hinternal harg) (h true)
  | rejected hresolve hinternal harg hnext hparser hparse ho =>
    rw [hnext] at h
    rw [length_words_after] at hparse
    exact absurd (.arg hresolve hinternal harg hparser (.inl hparse)) (h true)
  | @arg node argStr p arg hresolve hinternal harg hnext hparser hparse ho =>
    rw [hnext] at h
    obtain ⟨s', hstop⟩ := (hstore hresolve (some arg)).2 fun ha =>
      h true (.arg hresolve hinternal harg hparser (.inr ha))
    rw [hstop] at ho
    exact ⟨_, s', ho⟩
  | unset hresolve hinternal harg hnext hparser ho => exact ⟨_, _, ho⟩

/-- A step that goes on, where errors are not fatal. -/
theorem goes_of_scanWord (hstrict : cli.strict = false) (happend : NoneAppends cli)
    (hs : Scanned env s) {b : Bool} {s' : Scan δ}
    (hword : scanWord cli env word next s = .go b s') :
    Scanned env s' ∧ ∀ b', Goes cli env s.words.length word next b' ↔ b' = b := by
  have hunique {b' : Bool} (h : Goes cli env s.words.length word next b') :
      b' = b ∧ Scanned env s' := by
    obtain ⟨s'', hword', hs''⟩ := scanWord_goes hstrict happend hs h
    rw [hword] at hword'
    injection hword' with hb hs'
    exact ⟨hb.symm, hs' ▸ hs''⟩
  by_cases hgoes : ∃ b, Goes cli env s.words.length word next b
  · obtain ⟨b', hgoes⟩ := hgoes
    obtain ⟨rfl, hs'⟩ := hunique hgoes
    exact ⟨hs', fun b'' => ⟨fun h => (hunique h).1, fun h => h ▸ hgoes⟩⟩
  · obtain ⟨e, s'', hstop⟩ := scanWord_ends hstrict happend hs (not_exists.1 hgoes)
    cases hstop.symm.trans hword

/-- The scan, from any state, where errors are not fatal. -/
theorem scan_beyond_iff (hstrict : cli.strict = false) (happend : NoneAppends cli)
    (argv : List Str) (hs : Scanned env s) :
    (∃ s', scan cli env argv s = .stop .beyondArgv s') ↔
      Lacking cli env s.words.length argv := by
  fun_induction scan cli env argv s with
  | case1 s => exact iff_of_false (fun ⟨_, h⟩ => nomatch h) (fun h => nomatch h)
  | case2 word rest s e s' hword =>
    -- the scan ends at this word, within `argv`
    have hends {b : Bool} (hgoes : Goes cli env s.words.length word rest.head? b) : False := by
      obtain ⟨s'', hword', -⟩ := scanWord_goes hstrict happend hs hgoes
      cases hword'.symm.trans hword
    refine iff_of_false ?_ ?_
    · rintro ⟨_, h⟩
      injection h with he
      exact (scanWord_within word rest.head? s).inside s' (he ▸ hword)
    · rintro (h | ⟨h, -⟩ | ⟨h, -⟩)
      · exact hends h
      · exact hends h
      · exact hends h
  | case3 word rest s s' hword ih =>
    obtain ⟨hs', hgoes⟩ := goes_of_scanWord hstrict happend hs hword
    have hlen : s'.words.length = s.words.length + 1 := length_words_of_scanWord hword
    refine (ih hs').trans ?_
    rw [hlen]
    constructor
    · exact .word ((hgoes false).2 rfl)
    · rintro (h | ⟨h, hrest⟩ | ⟨h, -⟩)
      · exact nomatch (hgoes true).1 h
      · exact hrest
      · exact nomatch (hgoes true).1 h
  | case4 word s s' hword =>
    obtain ⟨-, hgoes⟩ := goes_of_scanWord hstrict happend hs hword
    exact iff_of_true ⟨_, rfl⟩ (.last ((hgoes true).2 rfl))
  | case5 word s s' arg rest hword ih =>
    obtain ⟨hs', hgoes⟩ := goes_of_scanWord hstrict happend hs hword
    have hlen : s'.words.length = s.words.length + 1 := length_words_of_scanWord hword
    refine (ih hs').trans ?_
    rw [hlen]
    constructor
    · exact .option ((hgoes true).2 rfl)
    · rintro (_ | ⟨h, -⟩ | ⟨-, hrest⟩)
      · exact nomatch (hgoes false).1 h
      · exact hrest

end Lenient

section Strict

/-- Where errors are fatal, a missing argument ends the scan. -/
theorem scanWord_strict (hstrict : cli.strict = true) (word : Str) (s s' : Scan δ) :
    scanWord cli env word none s ≠ .go true s' := by
  intro hword
  obtain ⟨errs, -, hbody⟩ := scanWord_cases cli env word none s
  rw [hword] at hbody
  cases hbody with
  | fault h ho => cases ho
  | fatal h hfatal ho => cases ho
  | unknown h hlenient ho => cases ho
  | internal h hinternal ho => cases ho
  -- no second advance without an argument
  | flag h hinternal harg ho => cases Outcome.eq_of_bind_go ho.symm
  | lacking h hinternal harg hnext ho =>
    rw [cliPrintError, if_pos hstrict] at ho
    cases ho
  | rejected h hinternal harg hnext hparser hparse ho => cases hnext
  | arg h hinternal harg hnext hparser hparse ho => cases hnext
  | unset h hinternal harg hnext hparser ho => cases hnext

theorem scan_strict (hstrict : cli.strict = true) (argv : List Str) (s s' : Scan δ) :
    scan cli env argv s ≠ .stop .beyondArgv s' := by
  fun_induction scan cli env argv s with
  | case1 s => exact nofun
  | case2 word rest s e s'' hword =>
    intro h
    injection h with he
    exact (scanWord_within word rest.head? s).inside s'' (he ▸ hword)
  | case3 word rest s s'' hword ih => exact ih
  | case4 word s s'' hword => exact absurd hword (scanWord_strict hstrict word s s'')
  | case5 word s s'' arg rest hword ih => exact ih

end Strict

/-- For every registry that can be made, every `argv`, and whatever the parsers do: the scan stays
within the words exactly if errors are fatal or it comes to no last word that lacks its argument. -/
theorem inBounds_iff (h : Made cli) (env : MatchEnv φ δ) (argv : List Str) :
    InBounds cli env argv ↔ cli.strict = true ∨ ¬Lacking cli env 0 argv := by
  have hwords : (scan cli env argv .start).state.words.length ≤ argv.length := by
    simpa [Scan.start] using scan_words_le cli env argv (.start : Scan δ)
  rw [InBounds, and_iff_left hwords, ← not_exists]
  cases hstrict : cli.strict with
  | true =>
    exact iff_of_true (fun ⟨s', h⟩ => scan_strict hstrict argv .start s' h) (.inl rfl)
  | false =>
    rw [scan_beyond_iff hstrict h.noneAppends argv scanned_start]
    simp [Scan.start]

/-- Where errors are not fatal, two options that both have their argument. -/
theorem inBounds_port : (portCli 0).strict = false ∧
    InBounds (portCli 0) copyingParsers [str "-l", str "debug", str "-p", str "80"] := by
  have hport : TakesArg (portCli 0) (str "-p") := by decide +kernel
  have hlogLvl : TakesArg (portCli 0) (str "-l") := by decide +kernel
  refine ⟨by decide +kernel, (inBounds_iff (made_portCli (.inl rfl)) copyingParsers _).2 (.inr ?_)⟩
  exact not_lacking_takesArg hlogLvl (not_lacking_takesArg hport nofun)

/-- Where errors are not fatal, the single word `-p` leads the scan behind the `NULL`. -/
theorem not_inBounds_lacking : ¬∀ cli : Cli Unit, Made cli →
    ∀ (env : MatchEnv Unit Unit) (argv : List Str), InBounds cli env argv := by
  intro h
  have hinside := (h (portCli 0) (made_portCli (.inl rfl)) failingParsers [str "-p"]).1
  have hbeyond : (match scan (portCli 0) (failingParsers (δ := Unit)) [str "-p"] .start with
      | .stop e _ => some e
      | .go _ _ => none) = some .beyondArgv := by
    decide +kernel
  match hscan : scan (portCli 0) (failingParsers (δ := Unit)) [str "-p"] .start with
  | .go _ _ =>
    rw [hscan] at hbeyond
    cases hbeyond
  | .stop e s =>
    rw [hscan] at hbeyond
    exact hinside s (Option.some.inj hbeyond ▸ hscan)

end Qkmetisc.CommandLine
