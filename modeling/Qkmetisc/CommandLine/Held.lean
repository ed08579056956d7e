import Qkmetisc.CommandLine.Words

/-!
# What a match holds

A match is a list of ids with their arguments: the ring has them in the order in which they were
found, and the table has the places of their nodes. No option that can be registered is an
appending one, so an id comes once and has one argument.

## Main definitions

* `Holds`: what a match holds.
* `MatchAlloc.granted`: the memory for one more node is there.
* `Body`: what the body of the loop comes to.

## Main results

* `Holds.add`, `Holds.denied`, `Holds.getArg`: adding a node, with and without memory, and looking
  an argument up.
* `Made.noneAppends`: no registered option appends.
* `storeArg_repeated`, `storeArg_new`, `storeArg_denied`: storing an argument.
* `scanWord_cases`: the body of the loop.
* `cliMatchCheckRequired_spec`: the check for the required options.
-/

namespace Qkmetisc.CommandLine

variable {φ δ : Type*}

/-- What a match holds: ids with their arguments, in the order of its ring. -/
structure Holds (m : CliMatch δ) (held : List (HashStr × Option (OptArg δ))) : Prop where
  valid : m.nodesByIdHt.Valid HashStr.key
  nodes : m.nodes = held.map fun entry => { id := entry.1, args := [entry.2], argsNr := 1 }
  get : ∀ id place, m.nodesByIdHt.get id id.key = some place ↔
    (held[place]?).map Prod.fst = some id

/-- All allocations for one more node succeed. -/
def MatchAlloc.granted (a : MatchAlloc) : Prop :=
  a.node = true ∧ a.id = true ∧ a.entry = true ∧ a.arg = true

section Holds

variable {m : CliMatch δ} {held : List (HashStr × Option (OptArg δ))} {id : HashStr}
  {arg : Option (OptArg δ)} {a : MatchAlloc}

theorem holds_create : Holds (cliMatchCreate : CliMatch δ) [] where
  valid := HashTable.valid_create cliHashStrCmp_eq_zero (by decide)
  nodes := rfl
  get := by
    intro id place
    rw [cliMatchCreate, HashTable.get_create]
    simp

theorem Holds.get_eq_none (h : Holds m held) :
    m.nodesByIdHt.get id id.key = none ↔ id ∉ held.map Prod.fst := by
  rw [Option.eq_none_iff_forall_ne_some, List.mem_iff_getElem?, not_exists]
  refine forall_congr' fun place => ?_
  rw [ne_eq, h.get, List.getElem?_map]

/-- An id is held once. -/
theorem Holds.nodup (h : Holds m held) : (held.map Prod.fst).Nodup := by
  rw [List.nodup_iff_getElem?_ne_getElem?]
  intro i j hij hj heq
  -- both places would be found for the id
  obtain ⟨id, hid⟩ : ∃ id, (held.map Prod.fst)[j]? = some id := ⟨_, List.getElem?_eq_getElem hj⟩
  have hget {place : ℕ} (hplace : (held.map Prod.fst)[place]? = some id) :
      m.nodesByIdHt.get id id.key = some place := by
    rwa [h.get, ← List.getElem?_map]
  have := (hget (heq.trans hid)).symm.trans (hget hid)
  exact absurd (Option.some.inj this) (Nat.ne_of_lt hij)

/-- A node for a new id is added behind the others. -/
theorem Holds.add (h : Holds m held) (arg : Option (OptArg δ)) (hnew : id ∉ held.map Prod.fst)
    (ha : a.granted) :
    ∃ m', cliMatchAddNode m id arg a = (m', true) ∧ Holds m' (held ++ [(id, arg)]) := by
  obtain ⟨hnode, hid, hentry, harg⟩ := ha
  obtain ⟨ht, hinsert, hvalid, hget⟩ := h.valid.insert (h.get_eq_none.2 hnew) m.nodes.length
  have hlen : m.nodes.length = held.length := by rw [h.nodes, List.length_map]
  refine ⟨{ nodes := m.nodes ++ [{ id, args := [arg], argsNr := 1 }], nodesByIdHt := ht },
    by simp [cliMatchAddNode, cliMatchNodeAddArg, hnode, hid, hentry, harg, hinsert],
    hvalid, ?_, ?_⟩
  · rw [List.map_append, ← h.nodes]
    rfl
  · intro k place
    rw [hget, h.get, hlen]
    -- before the new place, at it, and behind it
    rcases Nat.lt_trichotomy place held.length with hlt | rfl | hgt
    · rw [List.getElem?_append_left hlt, or_iff_right fun hp => Nat.ne_of_lt hlt hp.2]
    · rw [List.getElem?_append_right (Nat.le_refl _), Nat.sub_self,
        List.getElem?_eq_none (Nat.le_refl _)]
      simp [eq_comm]
    · rw [List.getElem?_eq_none (Nat.le_of_lt hgt), List.getElem?_eq_none (by simp; omega)]
      simp [Nat.ne_of_gt hgt]

/-- Without memory no node is added: what was entered into the table is removed again. -/
theorem Holds.denied (h : Holds m held) (arg : Option (OptArg δ)) (hnew : id ∉ held.map Prod.fst)
    (ha : ¬a.granted) : ∃ m', cliMatchAddNode m id arg a = (m', false) ∧ Holds m' held := by
  by_cases hnode : a.node = false
  · exact ⟨m, by rw [cliMatchAddNode, if_pos hnode], h⟩
  by_cases hid : a.id = false
  · exact ⟨m, by rw [cliMatchAddNode, if_neg hnode, if_pos hid], h⟩
  rcases hentry : a.entry with _ | _
  · refine ⟨m, ?_, h⟩
    rw [cliMatchAddNode, if_neg hnode, if_neg hid, hentry, HashTable.insert_eq_none_of_malloc]
  · have harg : a.arg = false := by
      by_contra harg
      exact ha ⟨by simpa using hnode, by simpa using hid, hentry, by simpa using harg⟩
    obtain ⟨ht, hinsert, hvalid, hget⟩ := h.valid.insert (h.get_eq_none.2 hnew) m.nodes.length
    obtain ⟨ht', hremove, hvalid', hget'⟩ := hvalid.remove ((hget id _).2 (.inl ⟨rfl, rfl⟩))
    refine ⟨{ m with nodesByIdHt := ht' }, ?_, hvalid', h.nodes, fun k place => ?_⟩
    · simp [cliMatchAddNode, cliMatchNodeAddArg, hnode, hid, hentry, harg, hinsert, hremove]
    · -- the id that came and went is not among those held
      rw [hget', hget, h.get]
      constructor
      · rintro ⟨hk, ⟨rfl, -⟩ | hplace⟩
        · exact absurd rfl hk
        · exact hplace
      · intro hplace
        refine ⟨?_, .inr hplace⟩
        rintro rfl
        rw [← List.getElem?_map] at hplace
        exact hnew (List.mem_of_getElem? hplace)

/-- The argument of an id that is held. -/
theorem Holds.getArg (h : Holds m held) (hmem : (id, arg) ∈ held) :
    cliMatchGetArg m id.str = some arg := by
  obtain ⟨place, hplace⟩ := List.mem_iff_getElem?.1 hmem
  have hget : m.nodesByIdHt.get id id.key = some place := by
    rw [h.get, hplace]
    rfl
  rw [cliMatchGetArg, show HashStr.fromStr id.str = id from HashStr.ext_str rfl]
  simp only [hget, h.nodes, List.getElem?_map, hplace]
  rfl

/-- There is no argument for an id that is not held. -/
theorem Holds.getArg_eq_none (h : Holds m held) (hnew : id ∉ held.map Prod.fst) :
    cliMatchGetArg m id.str = none := by
  rw [cliMatchGetArg, show HashStr.fromStr id.str = id from HashStr.ext_str rfl]
  simp only [h.get_eq_none.2 hnew]

/-- The arguments that are held are released with the match. -/
theorem Holds.destroy_eq (h : Holds m held) :
    cliMatchDestroy m = held.map fun e => .destructed e.2 := by
  rw [cliMatchDestroy, h.nodes, List.flatMap_map, List.map_eq_flatMap]
  rfl

end Holds

section Flags

/-- No option in the registry appends. -/
def NoneAppends (cli : Cli φ) : Prop := ∀ ref node, Live cli ref node → node.append = false

variable {cli cli' : Cli φ} {ok : Bool}

/-- The check of a record does not let through the flag of an appending option. -/
theorem append_of_cliOptCheck {opt : CliOpt φ} (h : cliOptCheck opt = true) :
    opt.flags &&& cliOptAppend = 0 := by
  have hflags : opt.flags &&& ~~~cliOptHasArg &&& ~~~cliOptRequired = 0 := by
    unfold cliOptCheck at h
    repeat' split at h
    · cases h
    · cases h
    · cases h
    · simpa [cliOptCheckFlags] using h
  -- the flag is in the mask
  have hmask : ~~~cliOptHasArg &&& ~~~cliOptRequired &&& cliOptAppend = cliOptAppend := by decide
  rw [← hmask, ← BitVec.and_assoc, ← BitVec.and_assoc, hflags]
  exact BitVec.zero_and

theorem NoneAppends.addNewNode (h : NoneAppends cli) (hregistry : Registry cli) {node : OptNode φ}
    {a : OptAlloc} (hshort : node.shortName.toNat < UCHAR_MAX) (hnode : node.append = false)
    (hcall : addNewNode cli node a = .ok (cli', ok)) : NoneAppends cli' := by
  rcases addNewNode_spec hregistry hshort a with
    ⟨-, mid, hmid, -, hheap, -⟩ | ⟨-, mid, hmid, -, hheap, -⟩
  · cases hmid.symm.trans hcall
    intro ref n hlive
    rcases (live_append hheap).1 hlive with hlive | ⟨-, rfl⟩
    · exact h ref n hlive
    · exact hnode
  · cases hmid.symm.trans hcall
    exact fun ref n hlive => h ref n ((live_append_none hheap).1 hlive)

theorem NoneAppends.addUserOpt (h : NoneAppends cli) (hregistry : Registry cli) {opt : CliOpt φ}
    {a : OptAlloc} (hcall : addUserOpt cli opt a = .ok (cli', ok)) : NoneAppends cli' := by
  rcases addUserOpt_cases hcall with rfl | ⟨node, hcheck, hflags, hshort, hcall⟩
  · exact h
  · refine h.addNewNode hregistry hshort ?_ hcall
    rw [OptNode.append, hflags, append_of_cliOptCheck hcheck]
    rfl

theorem NoneAppends.cliRemoveOpt (h : NoneAppends cli) (hregistry : Registry cli) {id : Str}
    (hcall : cliRemoveOpt cli id = .ok (cli', ok)) : NoneAppends cli' := by
  rcases cliRemoveOpt_spec hregistry id with
    ⟨hmid, -⟩ | ⟨_, _, mid, -, -, -, hmid, -, hheap, -⟩
  · cases hmid.symm.trans hcall
    exact h
  · cases hmid.symm.trans hcall
    exact fun ref n hlive => h ref n ((live_set_none hheap).1 hlive).2

/-- No registry that can be made has an appending option. -/
theorem Made.noneAppends (h : Made cli) : NoneAppends cli := by
  induction h with
  | @create flags a cli h =>
    have hempty : NoneAppends (.empty flags : Cli φ) := by
      intro ref node hlive
      simp [Live, Cli.empty] at hlive
    rcases cliCreate_cases h with ⟨-, rfl⟩ | ⟨-, hcall⟩
    · exact hempty
    · exact hempty.addNewNode (registry_empty flags).1 autoHelpNode_shortName
        (show decide (cliOptInternal &&& cliOptAppend ≠ 0) = false by decide) hcall
  | @call cli cli' op hmade hcall ih =>
    exact (exec_preserves (P := fun cli => Registry cli ∧ NoneAppends cli)
      (fun h hcall => ⟨h.1.addUserOpt hcall, h.2.addUserOpt h.1 hcall⟩)
      (fun h hcall => ⟨h.1.cliRemoveOpt hcall, h.2.cliRemoveOpt h.1 hcall⟩)
      ⟨hmade.registry, ih⟩ hcall).2

theorem NoneAppends.of_resolve (h : NoneAppends cli) {word : Str} {node : OptNode φ}
    (hresolve : resolve cli word = .ok (some node)) : node.append = false := by
  obtain ⟨ref, -, hlive⟩ := resolve_eq_some.1 hresolve
  exact h ref node hlive

end Flags

section Store

variable {cli : Cli φ} {env : MatchEnv φ δ} {node : OptNode φ} {opt : Str}
  {arg : Option (OptArg δ)} {s : Scan δ} {held : List (HashStr × Option (OptArg δ))}

/-- An option that is repeated is an error, and nothing is stored. -/
theorem storeArg_repeated (hholds : Holds s.found held) (happend : node.append = false)
    (hmem : node.id ∈ held.map Prod.fst) :
    (cli.strict = true → storeArg cli env node opt arg s = .stop .destroyMatch
        (destructArg node arg (s.observe (.error .optRepeatNoAppend opt none)))) ∧
      (cli.strict = false → storeArg cli env node opt arg s =
        .go () (s.observe (.error .optRepeatNoAppend opt none))) := by
  obtain ⟨place, hget⟩ := Option.ne_none_iff_exists'.1 fun hnone =>
    hholds.get_eq_none.1 hnone hmem
  unfold storeArg
  simp only [hget, happend, cliPrintError]
  constructor
  · intro hstrict
    rw [hstrict]
    rfl
  · intro hlenient
    rw [hlenient]
    rfl

/-- An option that is not in the match is added to it. -/
theorem storeArg_of_add {s : Scan δ} {found : CliMatch δ} (cli : Cli φ) (opt : Str)
    (hget : s.found.nodesByIdHt.get node.id node.id.key = none)
    (hadd : cliMatchAddNode s.found node.id arg (env.alloc node.id.str) = (found, true)) :
    storeArg cli env node opt arg s = .go () { s with found } := by
  unfold storeArg
  simp only [hget, hadd]

/-- The scan ends if an option cannot be added to the match. -/
theorem storeArg_of_not_add {s : Scan δ} {found : CliMatch δ} (cli : Cli φ) (opt : Str)
    (hget : s.found.nodesByIdHt.get node.id node.id.key = none)
    (hadd : cliMatchAddNode s.found node.id arg (env.alloc node.id.str) = (found, false)) :
    storeArg cli env node opt arg s =
      .stop .destroyMatch (destructArg node arg { s with found }) := by
  unfold storeArg
  simp only [hget, hadd]

/-- The argument of a new option is stored. -/
theorem storeArg_new (cli : Cli φ) (opt : Str) (arg : Option (OptArg δ))
    (hholds : Holds s.found held) (hnew : node.id ∉ held.map Prod.fst)
    (ha : (env.alloc node.id.str).granted) :
    ∃ found, storeArg cli env node opt arg s = .go () { s with found } ∧
      Holds found (held ++ [(node.id, arg)]) := by
  obtain ⟨found, hadd, hholds'⟩ := hholds.add arg hnew ha
  exact ⟨found, storeArg_of_add cli opt (hholds.get_eq_none.2 hnew) hadd, hholds'⟩

/-- Without memory for a new option the scan ends. -/
theorem storeArg_denied (hholds : Holds s.found held) (hnew : node.id ∉ held.map Prod.fst)
    (ha : ¬(env.alloc node.id.str).granted) :
    ∃ found, storeArg cli env node opt arg s =
      .stop .destroyMatch (destructArg node arg { s with found }) ∧ Holds found held := by
  obtain ⟨found, hadd, hholds'⟩ := hholds.denied arg hnew ha
  exact ⟨found, storeArg_of_not_add cli opt (hholds.get_eq_none.2 hnew) hadd, hholds'⟩

end Store

section Word

theorem Outcome.eq_of_bind_go {α β : Type*} {o : Outcome δ α} {b c : β} {s' : Scan δ}
    (h : (o.bind fun _ s => .go c s) = .go b s') : c = b := by
  rcases o with _ | _
  · injection h
  · cases h

variable {cli : Cli φ} {word : Str} {node : OptNode φ}

/-- The state after a word was looked up. -/
def Scan.after (s : Scan δ) (word : Str) (errs : List (MatchEvent δ)) : Scan δ :=
  { s with words := s.words ++ [word], log := s.log ++ errs }

/-- The body of the loop, by what the word stands for. -/
theorem scanWord_eq (cli : Cli φ) (env : MatchEnv φ δ) (word : Str) (next : Option Str)
    (s : Scan δ) : ∃ errs, Reported cli word errs ∧ scanWord cli env word next s =
    (lookedUp cli (resolve cli word) (s.after word errs)).bind fun node s =>
      match node with
      | none => .go false s
      | some node => scanOpt cli env node word next s := by
  obtain ⟨errs, hreported, hfind⟩ := findOpt_eq (δ := δ) cli word
  refine ⟨errs, hreported, ?_⟩
  rw [scanWord, hfind]
  rfl

theorem scanWord_of_error (env : MatchEnv φ δ) (next : Option Str) {f : Fault}
    (h : resolve cli word = .error f) (s : Scan δ) :
    ∃ errs, Reported cli word errs ∧
      scanWord cli env word next s = .stop (.fault f) (s.after word errs) := by
  obtain ⟨errs, hreported, heq⟩ := scanWord_eq cli env word next s
  rw [h] at heq
  exact ⟨errs, hreported, heq⟩

/-- An unknown word ends the scan, or is passed over where errors are not fatal. -/
theorem scanWord_of_none (env : MatchEnv φ δ) (next : Option Str)
    (h : resolve cli word = .ok none) (s : Scan δ) :
    ∃ errs, Reported cli word errs ∧ scanWord cli env word next s =
      if cli.strict then .stop .destroyMatch (s.after word errs)
      else .go false (s.after word errs) := by
  obtain ⟨errs, hreported, heq⟩ := scanWord_eq cli env word next s
  refine ⟨errs, hreported, heq.trans ?_⟩
  rw [h, lookedUp]
  split <;> rfl

/-- A word that is known is the business of its option. -/
theorem scanWord_of_some (env : MatchEnv φ δ) (next : Option Str)
    (h : resolve cli word = .ok (some node)) (s : Scan δ) :
    ∃ errs, Reported cli word errs ∧ scanWord cli env word next s =
      scanOpt cli env node word next (s.after word errs) := by
  obtain ⟨errs, hreported, heq⟩ := scanWord_eq cli env word next s
  rw [h] at heq
  exact ⟨errs, hreported, heq⟩

variable {env : MatchEnv φ δ}

theorem scanOpt_internal (h : node.internal = true) (next : Option Str) (s : Scan δ) :
    scanOpt cli env node word next s = .stop (cliHandleInternal node) s := by
  rw [scanOpt, if_pos h]

theorem scanOpt_flag (hinternal : node.internal = false) (harg : node.hasArg = false)
    (next : Option Str) (s : Scan δ) : scanOpt cli env node word next s =
      (storeArg cli env node word none s).bind fun _ s => .go false s := by
  rw [scanOpt, if_neg (by simp [hinternal]), if_neg (by simp [harg])]

theorem scanOpt_lacking (hinternal : node.internal = false) (harg : node.hasArg = true)
    (s : Scan δ) : scanOpt cli env node word none s =
      (cliPrintError cli .optNoArg word none s).bind fun _ s => .go true s := by
  rw [scanOpt, if_neg (by simp [hinternal]), if_pos harg, parseArg]
  unfold cliPrintError
  dsimp only
  split <;> rfl

theorem scanOpt_arg (hinternal : node.internal = false) (harg : node.hasArg = true) {p : φ}
    (hparser : node.funcs = .parser (some p)) (argStr : Str) (s : Scan δ) :
    scanOpt cli env node word (some argStr) s =
      match env.parse (s.words.length - 1) p argStr with
      | some arg => (storeArg cli env node word (some arg) s).bind fun _ s => .go true s
      | none => (cliPrintError cli .optFailedToParseArg word argStr s).bind
          fun _ s => .go true s := by
  rw [scanOpt, if_neg (by simp [hinternal]), if_pos harg, parseArg, hparser]
  dsimp only
  match env.parse (s.words.length - 1) p argStr with
  | some arg => rfl
  | none =>
    unfold cliPrintError
    dsimp only
    split <;> rfl

/-- Without a parser the call of it does not return. -/
theorem scanOpt_unset (hinternal : node.internal = false) (harg : node.hasArg = true)
    (hparser : ∀ p, node.funcs ≠ .parser (some p)) (argStr : Str) (s : Scan δ) :
    scanOpt cli env node word (some argStr) s = .stop (.fault .nullAccess) s := by
  rw [scanOpt, if_neg (by simp [hinternal]), if_pos harg, parseArg]
  match hfuncs : node.funcs with
  | .unset => rfl
  | .handler => rfl
  | .parser none => rfl
  | .parser (some p) => exact absurd hfuncs (hparser p)

/-- What the body of the loop comes to in a state in which the word was looked up. -/
inductive Body (cli : Cli φ) (env : MatchEnv φ δ) (word : Str) (next : Option Str) (s : Scan δ)
    (o : Outcome δ Bool) : Prop
  | fault {f : Fault} (h : resolve cli word = .error f) (ho : o = .stop (.fault f) s)
  | fatal (h : resolve cli word = .ok none) (hstrict : cli.strict = true)
    (ho : o = .stop .destroyMatch s)
  | unknown (h : resolve cli word = .ok none) (hlenient : cli.strict = false) (ho : o = .go false s)
  | internal {node : OptNode φ} (h : resolve cli word = .ok (some node))
    (hinternal : node.internal = true) (ho : o = .stop (cliHandleInternal node) s)
  | flag {node : OptNode φ} (h : resolve cli word = .ok (some node))
    (hinternal : node.internal = false) (harg : node.hasArg = false)
    (ho : o = (storeArg cli env node word none s).bind fun _ s => .go false s)
  | lacking {node : OptNode φ} (h : resolve cli word = .ok (some node))
    (hinternal : node.internal = false) (harg : node.hasArg = true) (hnext : next = none)
    (ho : o = (cliPrintError cli .optNoArg word none s).bind fun _ s => .go true s)
  | rejected {node : OptNode φ} {argStr : Str} {p : φ} (h : resolve cli word = .ok (some node))
    (hinternal : node.internal = false) (harg : node.hasArg = true) (hnext : next = some argStr)
    (hparser : node.funcs = .parser (some p))
    (hparse : env.parse (s.words.length - 1) p argStr = none)
    (ho : o = (cliPrintError cli .optFailedToParseArg word argStr s).bind fun _ s => .go true s)
  | arg {node : OptNode φ} {argStr : Str} {p : φ} {arg : OptArg δ}
    (h : resolve cli word = .ok (some node)) (hinternal : node.internal = false)
    (harg : node.hasArg = true) (hnext : next = some argStr)
    (hparser : node.funcs = .parser (some p))
    (hparse : env.parse (s.words.length - 1) p argStr = some arg)
    (ho : o = (storeArg cli env node word (some arg) s).bind fun _ s => .go true s)
  | unset {node : OptNode φ} {argStr : Str} (h : resolve cli word = .ok (some node))
    (hinternal : node.internal = false) (harg : node.hasArg = true) (hnext : next = some argStr)
    (hparser : ∀ p, node.funcs ≠ .parser (some p)) (ho : o = .stop (.fault .nullAccess) s)

/-- The body of the loop, for an option. -/
theorem body_scanOpt (h : resolve cli word = .ok (some node)) (next : Option Str) (s : Scan δ) :
    Body cli env word next s (scanOpt cli env node word next s) := by
  rcases hinternal : node.internal with _ | _
  · rcases harg : node.hasArg with _ | _
    · exact .flag h hinternal harg (scanOpt_flag hinternal harg next s)
    · rcases next with _ | argStr
      · exact .lacking h hinternal harg rfl (scanOpt_lacking hinternal harg s)
      · by_cases hparser : ∃ p, node.funcs = .parser (some p)
        · obtain ⟨p, hparser⟩ := hparser
          have ho : scanOpt cli env node word (some argStr) s = _ :=
            scanOpt_arg hinternal harg hparser argStr s
          rcases hparse : env.parse (s.words.length - 1) p argStr with _ | arg
          · rw [hparse] at ho
            exact .rejected h hinternal harg rfl hparser hparse ho
          · rw [hparse] at ho
            exact .arg h hinternal harg rfl hparser hparse ho
        · have hparser := not_exists.1 hparser
          exact .unset h hinternal harg rfl hparser (scanOpt_unset hinternal harg hparser argStr s)
  · exact .internal h hinternal (scanOpt_internal hinternal next s)

/-- The body of the loop. -/
theorem scanWord_cases (cli : Cli φ) (env : MatchEnv φ δ) (word : Str) (next : Option Str)
    (s : Scan δ) : ∃ errs, Reported cli word errs ∧
      Body cli env word next (s.after word errs) (scanWord cli env word next s) := by
  rcases hresolve : resolve cli word with f | _ | node
  · obtain ⟨errs, hreported, hword⟩ := scanWord_of_error env next hresolve s
    exact ⟨errs, hreported, .fault hresolve hword⟩
  · obtain ⟨errs, hreported, hword⟩ := scanWord_of_none env next hresolve s
    refine ⟨errs, hreported, ?_⟩
    rcases hstrict : cli.strict with _ | _
    · rw [hstrict] at hword
      exact .unknown hresolve hstrict hword
    · rw [hstrict] at hword
      exact .fatal hresolve hstrict hword
  · obtain ⟨errs, hreported, hword⟩ := scanWord_of_some env next hresolve s
    rw [hword]
    exact ⟨errs, hreported, body_scanOpt hresolve next _⟩

end Word

section Required

variable {cli : Cli φ} {s : Scan δ} {held : List (HashStr × Option (OptArg δ))}

/-- The check for the required options, on a part of their ring. -/
theorem cliMatchCheckRequired_spec (hholds : Holds s.found held) (refs : List ℕ)
    (hrefs : ∀ ref ∈ refs, ∃ node, Live cli ref node) :
    ((∀ ref ∈ refs, ∀ node, Live cli ref node → node.id ∈ held.map Prod.fst) →
      cliMatchCheckRequired cli refs s = .go () s) ∧
    (¬(∀ ref ∈ refs, ∀ node, Live cli ref node → node.id ∈ held.map Prod.fst) →
      ∃ val1 val2, cliMatchCheckRequired cli refs s =
        .stop .destroyMatch (s.observe (.error .requiredNotPresent val1 val2))) := by
  induction refs with
  | nil => exact ⟨fun _ => rfl, fun h => absurd (by simp) h⟩
  | cons ref refs ih =>
    rw [List.forall_mem_cons] at hrefs
    obtain ⟨⟨node, hlive⟩, hrefs⟩ := hrefs
    have hnode : cli.heap[ref]? = some (some node) := hlive
    have hall : (∀ n, Live cli ref n → n.id ∈ held.map Prod.fst) ↔
        node.id ∈ held.map Prod.fst :=
      ⟨fun h => h node hlive, fun h n hn => hn.unique hlive ▸ h⟩
    rw [List.forall_mem_cons, hall, cliMatchCheckRequired]
    simp only [hnode]
    match hget : s.found.nodesByIdHt.get node.id node.id.key with
    | some place =>
      have hmem : node.id ∈ held.map Prod.fst := by
        by_contra hnew
        rw [hholds.get_eq_none.2 hnew] at hget
        cases hget
      rw [and_iff_right hmem]
      exact ih hrefs
    | none =>
      have hnew := hholds.get_eq_none.1 hget
      exact ⟨fun h => absurd h.1 hnew, fun _ => ⟨_, _, rfl⟩⟩

end Required

section Ports

/-- The call of `main` that adds its options, less the one for the workers. -/
def addPort : Op Unit :=
  .addOpts [mainOpt "log_lvl" "log-lvl" 'l' "Verbosity level",
    mainOpt "port" "port" 'p' "Port listen to"] fun _ => .ok

/-- The registry with these options and without the one for the help. -/
def portCli (flags : BitVec 64) : Cli Unit :=
  (exec (some (.empty flags)) addPort).getD (.empty flags)

theorem made_empty {flags : BitVec 64} (h : flags = 0 ∨ flags = cliStrict) :
    Made (.empty flags : Cli Unit) := by
  have hcreate : cliCreate flags .ok = .ok (some (Cli.empty flags : Cli Unit)) := by
    rcases h with rfl | rfl <;> rfl
  exact .create hcreate

/-- One more call, if it returns. -/
theorem Made.getD_exec {cli : Cli φ} (h : Made cli) (op : Op φ) :
    Made ((exec (some cli) op).getD cli) := by
  rcases hcall : exec (some cli) op with _ | cli'
  · exact h
  · exact .call op h hcall

theorem made_portCli {flags : BitVec 64} (h : flags = 0 ∨ flags = cliStrict) :
    Made (portCli flags) :=
  (made_empty h).getD_exec addPort

end Ports

end Qkmetisc.CommandLine
