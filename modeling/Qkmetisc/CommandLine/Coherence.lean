import Qkmetisc.CommandLine.Registry
import Qkmetisc.Foundations.InputMachine

/-!
# Coherence of the option registry

## Main definitions

* `Registry`: everything that `Coherent` asks for, except that the array of short names may hold
  nodes that have been destroyed.
* `Stale`: it does.

## Main results

* `Registry.coherent`, `Coherent.not_stale`: a registry is coherent exactly if it is not stale.
* `addNewNode_spec`, `cliRemoveOpt_spec`: what adding and removing a node do to the registry.
-/

namespace Qkmetisc.CommandLine

variable {φ : Type*}

section HashStr

theorem HashStr.ext_str {a b : HashStr} (h : a.str = b.str) : a = b := by
  obtain ⟨s, x, hx⟩ := a
  obtain ⟨s', y, hy⟩ := b
  obtain rfl : s = s' := h
  subst hx hy
  rfl

instance : DecidableEq HashStr := fun a b =>
  decidable_of_iff (a.str = b.str) ⟨HashStr.ext_str, congrArg HashStr.str⟩

theorem cliHashStrCmp_eq_zero (a b : HashStr) : cliHashStrCmp a b = 0 ↔ a = b := by
  unfold cliHashStrCmp
  constructor
  · intro h
    split at h
    · split at h
      · next hs => exact HashStr.ext_str hs
      · simp at h
    · simp at h
  · rintro rfl
    simp

end HashStr

/-- What the functions of the registry keep, whatever they are called with: the rings and the
tables hold exactly the nodes that are there, and every short name that is in use is in the array.
The array may also hold nodes that were destroyed. -/
structure Registry (cli : Cli φ) : Prop where
  required : ∀ ref, ref ∈ cli.requiredOpts ↔ ∃ node, Live cli ref node ∧ node.required = true
  optional : ∀ ref, ref ∈ cli.optionalOpts ↔ ∃ node, Live cli ref node ∧ node.required = false
  ringOnce : cli.requiredOpts.Nodup ∧ cli.optionalOpts.Nodup
  validId : cli.optsByIdHt.Valid HashStr.key
  byId : ∀ id ref, cli.optsByIdHt.get id id.key = some ref ↔
    ∃ node, Live cli ref node ∧ node.id = id
  validLongName : cli.optsByLongNameHt.Valid HashStr.key
  byLongName : ∀ name ref, cli.optsByLongNameHt.get name name.key = some ref ↔
    ∃ node, Live cli ref node ∧ node.longName = some name
  shortNames : cli.optsByShortNameArr.length = UCHAR_MAX
  byShortName : ∀ ref node, Live cli ref node → node.shortName ≠ cliOptNoShortName →
    cli.optsByShortNameArr[node.shortName.toNat]? = some (some ref)
  shortName : ∀ c ref, cli.optsByShortNameArr[c]? = some (some ref) →
    c ≠ 0 ∧ ref < cli.heap.length ∧ ∀ node, Live cli ref node → node.shortName.toNat = c

/-- The array of short names holds a node that was destroyed. -/
def Stale (cli : Cli φ) : Prop :=
  ∃ c ref : ℕ, cli.optsByShortNameArr[c]? = some (some ref) ∧ ∀ node, ¬Live cli ref node

theorem Live.unique {cli : Cli φ} {ref : ℕ} {node node' : OptNode φ} (h : Live cli ref node)
    (h' : Live cli ref node') : node = node' := by
  unfold Live at h h'
  rw [h] at h'
  exact Option.some.inj (Option.some.inj h')

/-- Two nodes with the same id are one. -/
theorem Registry.id_inj {cli : Cli φ} (h : Registry cli) {ref ref' : ℕ} {node node' : OptNode φ}
    (hlive : Live cli ref node) (hlive' : Live cli ref' node') (hid : node.id.str = node'.id.str) :
    ref = ref' ∧ node = node' := by
  have hget := (h.byId _ _).2 ⟨node, hlive, rfl⟩
  rw [HashStr.ext_str hid, (h.byId _ _).2 ⟨node', hlive', rfl⟩] at hget
  obtain rfl := Option.some.inj hget
  exact ⟨rfl, hlive.unique hlive'⟩

/-- A registry is coherent when no short name is stale. -/
theorem Registry.coherent {cli : Cli φ} (h : Registry cli) (hstale : ¬Stale cli) :
    Coherent cli where
  ring := by
    intro ref node hlive
    have hreq : ref ∈ cli.requiredOpts ↔ node.required = true := by
      rw [h.required]
      exact ⟨fun ⟨n, hn, hr⟩ => hlive.unique hn ▸ hr, fun hr => ⟨node, hlive, hr⟩⟩
    have hopt : ref ∈ cli.optionalOpts ↔ node.required = false := by
      rw [h.optional]
      exact ⟨fun ⟨n, hn, hr⟩ => hlive.unique hn ▸ hr, fun hr => ⟨node, hlive, hr⟩⟩
    rw [hreq, hopt]
    -- each ring holds the nodes of its own kind
    cases node.required <;> simp
  ringOnce := h.ringOnce
  ringLive := by
    rintro ref (hreq | hopt)
    · obtain ⟨node, hlive, -⟩ := (h.required ref).1 hreq
      exact ⟨node, hlive⟩
    · obtain ⟨node, hlive, -⟩ := (h.optional ref).1 hopt
      exact ⟨node, hlive⟩
  byId := fun ref node hlive => (h.byId _ _).2 ⟨node, hlive, rfl⟩
  byLongName := fun ref node hlive name hname => (h.byLongName _ _).2 ⟨node, hlive, hname⟩
  byShortName := h.byShortName
  idUnique := fun ref node ref' node' hlive hlive' hid => (h.id_inj hlive hlive' hid).1
  longNameUnique := by
    intro ref node ref' node' name name' hlive hlive' hname hname' hstr
    have hget := (h.byLongName _ _).2 ⟨node, hlive, hname⟩
    rw [HashStr.ext_str hstr, (h.byLongName _ _).2 ⟨node', hlive', hname'⟩] at hget
    exact (Option.some.inj hget).symm
  shortNameUnique := by
    intro ref node ref' node' hlive hlive' hne hshort
    have hentry := h.byShortName ref node hlive hne
    rw [hshort, h.byShortName ref' node' hlive' (hshort ▸ hne)] at hentry
    exact (Option.some.inj (Option.some.inj hentry)).symm
  idEntries := by
    rintro ⟨id, ref⟩ hmem
    obtain ⟨node, hlive, -⟩ := (h.byId id ref).1 (h.validId.mem_entries.1 hmem)
    exact ⟨node, hlive⟩
  longNameEntries := by
    rintro ⟨name, ref⟩ hmem
    obtain ⟨node, hlive, -⟩ := (h.byLongName name ref).1 (h.validLongName.mem_entries.1 hmem)
    exact ⟨node, hlive⟩
  shortNameEntries := by
    intro ref hmem
    obtain ⟨c, hc⟩ := List.getElem?_of_mem hmem
    by_contra hdead
    exact hstale ⟨c, ref, hc, fun node hlive => hdead ⟨node, hlive⟩⟩

/-- A coherent registry has no stale short name. -/
theorem Coherent.not_stale {cli : Cli φ} (h : Coherent cli) : ¬Stale cli := by
  rintro ⟨c, ref, hc, hdead⟩
  obtain ⟨node, hlive⟩ := h.shortNameEntries ref (List.mem_of_getElem? hc)
  exact hdead node hlive

section Live

variable {cli cli' : Cli φ} {ref : ℕ} {n node : OptNode φ}

theorem Live.lt (h : Live cli ref node) : ref < cli.heap.length :=
  (List.getElem?_eq_some_iff.1 h).1

/-- What holds of every entry of the heap holds of a node that is there. -/
theorem Live.of_all (h : Live cli ref node) {p : OptNode φ → Bool}
    (hall : (cli.heap.all fun entry => entry.all p) = true) : p node = true := by
  rw [List.all_eq_true] at hall
  exact hall _ (List.mem_of_getElem? h)

/-- The nodes after a new one was created. -/
theorem live_append (hheap : cli'.heap = cli.heap ++ [some node]) :
    Live cli' ref n ↔ Live cli ref n ∨ (ref = cli.heap.length ∧ n = node) := by
  unfold Live
  rw [hheap]
  -- an old place, the new one, or none at all
  rcases Nat.lt_trichotomy ref cli.heap.length with hlt | rfl | hgt
  · rw [List.getElem?_append_left hlt]
    have hne : ref ≠ cli.heap.length := Nat.ne_of_lt hlt
    simp [hne]
  · rw [List.getElem?_concat_length, List.getElem?_length]
    simp [eq_comm]
  · have hne : ref ≠ cli.heap.length := Nat.ne_of_gt hgt
    rw [List.getElem?_eq_none (by simp; omega), List.getElem?_eq_none (Nat.le_of_lt hgt)]
    simp [hne]

theorem exists_live_append (hheap : cli'.heap = cli.heap ++ [some node])
    {P : OptNode φ → Prop} :
    (∃ n, Live cli' ref n ∧ P n) ↔
      (∃ n, Live cli ref n ∧ P n) ∨ (ref = cli.heap.length ∧ P node) := by
  simp only [live_append hheap, or_and_right, exists_or, and_assoc, exists_and_left,
    exists_eq_left]

/-- A new node that was destroyed again leaves the others. -/
theorem live_append_none (hheap : cli'.heap = cli.heap ++ [none]) :
    Live cli' ref n ↔ Live cli ref n := by
  unfold Live
  rw [hheap]
  rcases Nat.lt_trichotomy ref cli.heap.length with hlt | rfl | hgt
  · rw [List.getElem?_append_left hlt]
  · rw [List.getElem?_concat_length, List.getElem?_length]
    simp
  · rw [List.getElem?_eq_none (by simp; omega), List.getElem?_eq_none (Nat.le_of_lt hgt)]

/-- The nodes after one of them was destroyed. -/
theorem live_set_none {r : ℕ} (hheap : cli'.heap = cli.heap.set r none) :
    Live cli' ref n ↔ ref ≠ r ∧ Live cli ref n := by
  unfold Live
  rw [hheap, List.getElem?_set]
  by_cases hr : r = ref
  · rw [if_pos hr]
    split <;> simp [hr]
  · rw [if_neg hr]
    simp [Ne.symm hr]

end Live

section Add

variable {cli cli' : Cli φ} {node : OptNode φ} {a : OptAlloc}

/-- Two registries that look up the same. -/
structure SameTables (cli cli' : Cli φ) : Prop where
  validId : cli'.optsByIdHt.Valid HashStr.key
  byId : ∀ id ref, cli'.optsByIdHt.get id id.key = some ref ↔
    cli.optsByIdHt.get id id.key = some ref
  validLongName : cli'.optsByLongNameHt.Valid HashStr.key
  byLongName : ∀ name ref, cli'.optsByLongNameHt.get name name.key = some ref ↔
    cli.optsByLongNameHt.get name name.key = some ref

/-- A registry that differs by a node created and destroyed again is one too. -/
theorem Registry.of_failed (h : Registry cli) (hheap : cli'.heap = cli.heap ++ [none])
    (hreq : cli'.requiredOpts = cli.requiredOpts) (hopt : cli'.optionalOpts = cli.optionalOpts)
    (htables : SameTables cli cli') (harr : cli'.optsByShortNameArr = cli.optsByShortNameArr) :
    Registry cli' where
  required := by simp only [hreq, h.required, live_append_none hheap, implies_true]
  optional := by simp only [hopt, h.optional, live_append_none hheap, implies_true]
  ringOnce := by rw [hreq, hopt]; exact h.ringOnce
  validId := htables.validId
  byId := by simp only [htables.byId, h.byId, live_append_none hheap, implies_true]
  validLongName := htables.validLongName
  byLongName := by
    simp only [htables.byLongName, h.byLongName, live_append_none hheap, implies_true]
  shortNames := by rw [harr]; exact h.shortNames
  byShortName := by
    intro ref n hlive hne
    rw [harr]
    exact h.byShortName ref n ((live_append_none hheap).1 hlive) hne
  shortName := by
    intro c ref hc
    rw [harr] at hc
    -- the array is the same, and so are the nodes it can refer to
    obtain ⟨hne, hlt, hname⟩ := h.shortName c ref hc
    refine ⟨hne, by rw [hheap, List.length_append]; omega, ?_⟩
    exact fun n hlive => hname n ((live_append_none hheap).1 hlive)

/-- What `cli_add_opt_node` needs to succeed: the names are free and the tables can grow. -/
structure Free (cli : Cli φ) (node : OptNode φ) (a : OptAlloc) : Prop where
  shortName : node.shortName ≠ cliOptNoShortName →
    cli.optsByShortNameArr[node.shortName.toNat]? = some none
  id : cli.optsByIdHt.get node.id node.id.key = none
  idEntry : a.idEntry = true
  longName : ∀ name, node.longName = some name →
    cli.optsByLongNameHt.get name name.key = none ∧ a.longNameEntry = true

/-- The place of a new node is in no ring. -/
theorem Registry.length_notMem (h : Registry cli) :
    cli.heap.length ∉ cli.requiredOpts ∧ cli.heap.length ∉ cli.optionalOpts := by
  constructor
  · intro hmem
    obtain ⟨n, hlive, -⟩ := (h.required _).1 hmem
    exact Nat.lt_irrefl _ hlive.lt
  · intro hmem
    obtain ⟨n, hlive, -⟩ := (h.optional _).1 hmem
    exact Nat.lt_irrefl _ hlive.lt

/-- With a new node in the array, every short name is still found there. -/
theorem Registry.byShortName_added (h : Registry cli)
    (hheap : cli'.heap = cli.heap ++ [some node]) (hshort : node.shortName.toNat < UCHAR_MAX)
    (harr : cli'.optsByShortNameArr =
      if node.shortName = cliOptNoShortName then cli.optsByShortNameArr
      else cli.optsByShortNameArr.set node.shortName.toNat (some cli.heap.length))
    (hfree : node.shortName ≠ cliOptNoShortName →
      cli.optsByShortNameArr[node.shortName.toNat]? = some none)
    {ref : ℕ} {n : OptNode φ} (hlive : Live cli' ref n) (hne : n.shortName ≠ cliOptNoShortName) :
    cli'.optsByShortNameArr[n.shortName.toNat]? = some (some ref) := by
  rw [harr]
  rcases (live_append hheap).1 hlive with hold | ⟨rfl, rfl⟩
  · have hentry := h.byShortName ref n hold hne
    by_cases hnone : node.shortName = cliOptNoShortName
    · rw [if_pos hnone]
      exact hentry
    · -- the place of the new node was empty, so it is another one
      rw [if_neg hnone, List.getElem?_set_ne]
      · exact hentry
      · intro heq
        have := hfree hnone
        rw [heq, hentry] at this
        simp at this
  · rw [if_neg hne, List.getElem?_set_self (by rw [h.shortNames]; exact hshort)]

/-- With a new node in the array, every entry is still the node of that name, if it is there. -/
theorem Registry.shortName_added (h : Registry cli)
    (hheap : cli'.heap = cli.heap ++ [some node])
    (harr : cli'.optsByShortNameArr =
      if node.shortName = cliOptNoShortName then cli.optsByShortNameArr
      else cli.optsByShortNameArr.set node.shortName.toNat (some cli.heap.length))
    {c ref : ℕ} (hc : cli'.optsByShortNameArr[c]? = some (some ref)) :
    c ≠ 0 ∧ ref < cli'.heap.length ∧ ∀ n, Live cli' ref n → n.shortName.toNat = c := by
  have hlen : cli'.heap.length = cli.heap.length + 1 := by rw [hheap]; simp
  have hold (hc : cli.optsByShortNameArr[c]? = some (some ref)) :
      c ≠ 0 ∧ ref < cli'.heap.length ∧ ∀ n, Live cli' ref n → n.shortName.toNat = c := by
    obtain ⟨hne, hlt, hname⟩ := h.shortName c ref hc
    refine ⟨hne, by omega, ?_⟩
    intro n hlive
    rcases (live_append hheap).1 hlive with hlive | ⟨hnew, -⟩
    · exact hname n hlive
    · omega
  rw [harr] at hc
  by_cases hnone : node.shortName = cliOptNoShortName
  · rw [if_pos hnone] at hc
    exact hold hc
  · rw [if_neg hnone, List.getElem?_set] at hc
    by_cases heq : node.shortName.toNat = c
    · -- the entry of the new node
      rw [if_pos heq] at hc
      split at hc
      · obtain rfl : cli.heap.length = ref := by simpa using hc
        refine ⟨?_, by omega, ?_⟩
        · rintro rfl
          exact hnone (BitVec.eq_of_toNat_eq heq)
        · intro n hlive
          rcases (live_append hheap).1 hlive with hlive | ⟨-, rfl⟩
          · exact absurd hlive.lt (Nat.lt_irrefl _)
          · exact heq
      · cases hc
    · rw [if_neg heq] at hc
      exact hold hc

/-- A registry with a new node in its ring, its tables and the array is one too. -/
theorem Registry.of_added (h : Registry cli) (hheap : cli'.heap = cli.heap ++ [some node])
    (hreq : cli'.requiredOpts =
      if node.required then cli.requiredOpts ++ [cli.heap.length] else cli.requiredOpts)
    (hopt : cli'.optionalOpts =
      if node.required then cli.optionalOpts else cli.optionalOpts ++ [cli.heap.length])
    (hvalidId : cli'.optsByIdHt.Valid HashStr.key)
    (hid : ∀ id ref, cli'.optsByIdHt.get id id.key = some ref ↔
      (id = node.id ∧ ref = cli.heap.length) ∨ cli.optsByIdHt.get id id.key = some ref)
    (hvalidLong : cli'.optsByLongNameHt.Valid HashStr.key)
    (hlong : ∀ name ref, cli'.optsByLongNameHt.get name name.key = some ref ↔
      (node.longName = some name ∧ ref = cli.heap.length) ∨
        cli.optsByLongNameHt.get name name.key = some ref)
    (hshort : node.shortName.toNat < UCHAR_MAX)
    (harr : cli'.optsByShortNameArr =
      if node.shortName = cliOptNoShortName then cli.optsByShortNameArr
      else cli.optsByShortNameArr.set node.shortName.toNat (some cli.heap.length))
    (hfree : node.shortName ≠ cliOptNoShortName →
      cli.optsByShortNameArr[node.shortName.toNat]? = some none) :
    Registry cli' := by
  obtain ⟨hnotRequired, hnotOptional⟩ := h.length_notMem
  refine ⟨?_, ?_, ?_, hvalidId, ?_, hvalidLong, ?_, ?_,
    fun _ _ => h.byShortName_added hheap hshort harr hfree, fun _ _ => h.shortName_added hheap harr⟩
  · intro ref
    rw [hreq, exists_live_append hheap, ← h.required]
    cases node.required <;> simp
  · intro ref
    rw [hopt, exists_live_append hheap, ← h.optional]
    cases node.required <;> simp
  · have happend {l : List ℕ} (hl : l.Nodup) (hnew : cli.heap.length ∉ l) :
        (l ++ [cli.heap.length]).Nodup :=
      List.nodup_append.2 ⟨hl, List.nodup_singleton _, by
        rintro x hx y hy rfl
        exact hnew (List.mem_singleton.1 hy ▸ hx)⟩
    rw [hreq, hopt]
    cases node.required with
    | true => exact ⟨happend h.ringOnce.1 hnotRequired, h.ringOnce.2⟩
    | false => exact ⟨h.ringOnce.1, happend h.ringOnce.2 hnotOptional⟩
  · intro id ref
    rw [hid, exists_live_append hheap, ← h.byId, or_comm, and_comm, eq_comm (a := id)]
  · intro name ref
    rw [hlong, exists_live_append hheap, ← h.byLongName, or_comm, and_comm]
  · rw [harr]
    split
    · exact h.shortNames
    · rw [List.length_set, h.shortNames]

theorem setShortName_eq {c : BitVec 8} (h : c.toNat < cli.optsByShortNameArr.length)
    (entry : Option ℕ) : setShortName cli c entry =
      .ok { cli with optsByShortNameArr := cli.optsByShortNameArr.set c.toNat entry } := by
  rw [setShortName, if_pos h]

/-- The tables take the node. -/
def TablesFree (cli : Cli φ) (node : OptNode φ) (a : OptAlloc) : Prop :=
  (cli.optsByIdHt.get node.id node.id.key = none ∧ a.idEntry = true) ∧
    ∀ name, node.longName = some name →
      cli.optsByLongNameHt.get name name.key = none ∧ a.longNameEntry = true

/-- Two registries with the same nodes and rings. -/
def SameRings (cli cli' : Cli φ) : Prop :=
  cli'.heap = cli.heap ∧ cli'.requiredOpts = cli.requiredOpts ∧ cli'.optionalOpts = cli.optionalOpts

/-- Where the tables do not take the node, they end up as they were, and the place of the short
name is empty. -/
theorem addEntries_failed (htables : SameTables cli cli) (hnot : ¬TablesFree cli node a)
    (hshort : node.shortName.toNat < cli.optsByShortNameArr.length) (ref : ℕ) :
    ∃ cli', addEntries cli ref node a = .ok (cli', false) ∧ SameRings cli cli' ∧
      SameTables cli cli' ∧
      cli'.optsByShortNameArr = cli.optsByShortNameArr.set node.shortName.toNat none := by
  unfold addEntries
  rcases htables.validId.insert_cases node.id ref a.idEntry with
    ⟨hget, hentry, ht, hinsert, hvalid, hlookup⟩ | ⟨-, hinsert⟩
  · rw [hinsert]
    -- the id went in, so it is the long name that does not, and the id is taken out again
    cases hname : node.longName with
    | none => exact absurd ⟨⟨hget, hentry⟩, by simp [hname]⟩ hnot
    | some name =>
      have hlong : ¬(cli.optsByLongNameHt.get name name.key = none ∧ a.longNameEntry = true) := by
        intro hfree
        apply hnot
        refine ⟨⟨hget, hentry⟩, ?_⟩
        intro name' hname'
        obtain rfl : name = name' := by simpa [hname] using hname'
        exact hfree
      rcases htables.validLongName.insert_cases name ref a.longNameEntry with
        ⟨hget', hentry', -⟩ | ⟨-, hinsert'⟩
      · exact absurd ⟨hget', hentry'⟩ hlong
      · obtain ⟨ht', hremove, hvalid', hlookup'⟩ :=
          hvalid.remove ((hlookup node.id ref).2 (.inl ⟨rfl, rfl⟩))
        have hsame : ∀ id r, ht'.get id id.key = some r ↔
            cli.optsByIdHt.get id id.key = some r := by
          intro id r
          rw [hlookup', hlookup]
          constructor
          · rintro ⟨hne, ⟨heq, -⟩ | hold⟩
            · exact absurd heq hne
            · exact hold
          · intro hold
            refine ⟨?_, .inr hold⟩
            rintro rfl
            simp [hget] at hold
        simp only [addLongName, hname, hinsert', Option.map_none, removeId, hremove]
        rw [setShortName_eq (by exact hshort)]
        exact ⟨_, rfl, ⟨rfl, rfl, rfl⟩,
          ⟨hvalid', hsame, htables.validLongName, fun _ _ => Iff.rfl⟩, rfl⟩
  · rw [hinsert]
    simp only
    rw [setShortName_eq hshort]
    -- the id is taken, or there is no memory: nothing was entered
    exact ⟨_, rfl, ⟨rfl, rfl, rfl⟩,
      ⟨htables.validId, htables.byId, htables.validLongName, htables.byLongName⟩, rfl⟩

/-- Where the tables take the node, it is in its ring and in the tables. -/
theorem addEntries_added (htables : SameTables cli cli) (hfree : TablesFree cli node a) (ref : ℕ) :
    ∃ cli', addEntries cli ref node a = .ok (cli', true) ∧ cli'.heap = cli.heap ∧
      cli'.requiredOpts =
        (if node.required then cli.requiredOpts ++ [ref] else cli.requiredOpts) ∧
      cli'.optionalOpts =
        (if node.required then cli.optionalOpts else cli.optionalOpts ++ [ref]) ∧
      cli'.optsByIdHt.Valid HashStr.key ∧
      (∀ id r, cli'.optsByIdHt.get id id.key = some r ↔
        (id = node.id ∧ r = ref) ∨ cli.optsByIdHt.get id id.key = some r) ∧
      cli'.optsByLongNameHt.Valid HashStr.key ∧
      (∀ name r, cli'.optsByLongNameHt.get name name.key = some r ↔
        (node.longName = some name ∧ r = ref) ∨
          cli.optsByLongNameHt.get name name.key = some r) ∧
      cli'.optsByShortNameArr = cli.optsByShortNameArr := by
  obtain ⟨hid, hlong⟩ := hfree
  unfold addEntries
  rcases htables.validId.insert_cases node.id ref a.idEntry with
    ⟨-, -, ht, hinsert, hvalid, hlookup⟩ | ⟨hnot, -⟩
  swap
  · exact absurd hid hnot
  rw [hinsert]
  -- the id is in; the long name, if there is one, goes in too
  cases hname : node.longName with
  | none =>
    simp only [addLongName, hname]
    cases node.required with
    | true =>
      exact ⟨_, rfl, rfl, rfl, rfl, hvalid, hlookup, htables.validLongName, by simp, rfl⟩
    | false =>
      exact ⟨_, rfl, rfl, rfl, rfl, hvalid, hlookup, htables.validLongName, by simp, rfl⟩
  | some name =>
    rcases htables.validLongName.insert_cases name ref a.longNameEntry with
      ⟨-, -, ht', hinsert', hvalid', hlookup'⟩ | ⟨hnot, -⟩
    swap
    · exact absurd (hlong name hname) hnot
    have hlookup'' : ∀ k r, ht'.get k k.key = some r ↔
        (some name = some k ∧ r = ref) ∨ cli.optsByLongNameHt.get k k.key = some r := by
      intro k r
      rw [hlookup', Option.some.injEq, eq_comm (a := name)]
    simp only [addLongName, hname, hinsert', Option.map_some]
    cases node.required with
    | true => exact ⟨_, rfl, rfl, rfl, rfl, hvalid, hlookup, hvalid', hlookup'', rfl⟩
    | false => exact ⟨_, rfl, rfl, rfl, rfl, hvalid, hlookup, hvalid', hlookup'', rfl⟩

theorem free_iff : Free cli node a ↔
    (node.shortName ≠ cliOptNoShortName →
      cli.optsByShortNameArr[node.shortName.toNat]? = some none) ∧ TablesFree cli node a :=
  ⟨fun h => ⟨h.shortName, ⟨h.id, h.idEntry⟩, h.longName⟩,
    fun h => ⟨h.1, h.2.1.1, h.2.1.2, h.2.2⟩⟩

/-- The entry of the array for a short name that was found empty, or that is none. -/
theorem Registry.set_none (h : Registry cli) (hshort : node.shortName.toNat < UCHAR_MAX)
    (hfree : node.shortName ≠ cliOptNoShortName →
      cli.optsByShortNameArr[node.shortName.toNat]? = some none) :
    cli.optsByShortNameArr.set node.shortName.toNat none = cli.optsByShortNameArr := by
  have hnone : cli.optsByShortNameArr[node.shortName.toNat]? = some none := by
    by_cases hname : node.shortName = cliOptNoShortName
    · -- nothing is ever entered for the absent name
      have hlt : node.shortName.toNat < cli.optsByShortNameArr.length := by rwa [h.shortNames]
      rw [List.getElem?_eq_getElem hlt]
      cases hentry : cli.optsByShortNameArr[node.shortName.toNat] with
      | none => rfl
      | some ref =>
        have := h.shortName node.shortName.toNat ref (by rw [List.getElem?_eq_getElem hlt, hentry])
        rw [hname] at this
        exact absurd rfl this.1
    · exact hfree hname
  obtain ⟨hlt, hentry⟩ := List.getElem?_eq_some_iff.1 hnone
  rw [← hentry]
  exact List.set_getElem_self hlt

/-- What a call that adds a node does: it succeeds exactly when the names are free and the tables
can grow, and otherwise leaves the registry as it was, but for the place of the node. -/
def AddOutcome (cli : Cli φ) (node : OptNode φ) (a : OptAlloc) : Prop :=
  (Free cli node a ∧ ∃ cli', addNewNode cli node a = .ok (cli', true) ∧ Registry cli' ∧
    cli'.heap = cli.heap ++ [some node] ∧
    cli'.optsByShortNameArr = if node.shortName = cliOptNoShortName then cli.optsByShortNameArr
      else cli.optsByShortNameArr.set node.shortName.toNat (some cli.heap.length)) ∨
  (¬Free cli node a ∧ ∃ cli', addNewNode cli node a = .ok (cli', false) ∧ Registry cli' ∧
    cli'.heap = cli.heap ++ [none] ∧
    cli'.optsByShortNameArr = cli.optsByShortNameArr)

theorem set_concat_none (heap : List (Option (OptNode φ))) (node : OptNode φ) :
    (heap ++ [some node]).set heap.length none = heap ++ [none] := by
  rw [List.set_append_right _ _ (Nat.le_refl _), Nat.sub_self]
  rfl

/-- Once the short name is entered, which made the array `arr`, the tables decide. -/
theorem addOutcome_of_entered (h : Registry cli) (hshort : node.shortName.toNat < UCHAR_MAX)
    (arr : List (Option ℕ)) (hlen : node.shortName.toNat < arr.length)
    (hback : arr.set node.shortName.toNat none = cli.optsByShortNameArr)
    (hfree : node.shortName ≠ cliOptNoShortName →
      cli.optsByShortNameArr[node.shortName.toNat]? = some none)
    (harr : arr = if node.shortName = cliOptNoShortName then cli.optsByShortNameArr
      else cli.optsByShortNameArr.set node.shortName.toNat (some cli.heap.length))
    (hname : addShortName { cli with heap := cli.heap ++ [some node] } cli.heap.length node =
      .ok (some { cli with heap := cli.heap ++ [some node], optsByShortNameArr := arr })) :
    AddOutcome cli node a := by
  have htables : SameTables
      { cli with heap := cli.heap ++ [some node], optsByShortNameArr := arr }
      { cli with heap := cli.heap ++ [some node], optsByShortNameArr := arr } :=
    ⟨h.validId, fun _ _ => Iff.rfl, h.validLongName, fun _ _ => Iff.rfl⟩
  -- success, or the entry in the array is taken back and the node destroyed
  by_cases htaken : TablesFree cli node a
  · obtain ⟨cli', hcall, hheap, hreq, hopt, hvalid, hid, hvalid', hlong, harr'⟩ :=
      addEntries_added htables htaken cli.heap.length
    refine .inl ⟨free_iff.2 ⟨hfree, htaken⟩, cli', ?_, ?_, hheap, harr'.trans harr⟩
    · rw [addNewNode]
      simp only [cliAddOptNode, hname, hcall]
    · exact h.of_added hheap hreq hopt hvalid hid hvalid' hlong hshort (harr'.trans harr) hfree
  · obtain ⟨cli', hcall, ⟨hheap, hreq, hopt⟩, hsame, harr'⟩ :=
      addEntries_failed htables htaken hlen cli.heap.length
    have hheap' : (cliOptNodeDestroy cli' cli.heap.length).heap = cli.heap ++ [none] := by
      rw [cliOptNodeDestroy, hheap]
      exact set_concat_none _ _
    refine .inr ⟨fun hf => htaken (free_iff.1 hf).2, cliOptNodeDestroy cli' cli.heap.length, ?_,
      ?_, hheap', harr'.trans hback⟩
    · rw [addNewNode]
      simp only [cliAddOptNode, hname, hcall]
    · exact h.of_failed hheap' hreq hopt
        ⟨hsame.validId, hsame.byId, hsame.validLongName, hsame.byLongName⟩ (harr'.trans hback)

/-- Adding a node, with a short name that the array has a place for. -/
theorem addNewNode_spec (h : Registry cli) (hshort : node.shortName.toNat < UCHAR_MAX)
    (a : OptAlloc) : AddOutcome cli node a := by
  have hlt : node.shortName.toNat < cli.optsByShortNameArr.length := by rwa [h.shortNames]
  by_cases hnone : node.shortName = cliOptNoShortName
  · have hfree : node.shortName ≠ cliOptNoShortName →
        cli.optsByShortNameArr[node.shortName.toNat]? = some none := fun hne => absurd hnone hne
    apply addOutcome_of_entered h hshort _ hlt (h.set_none hshort hfree) hfree
    · rw [if_pos hnone]
    · rw [addShortName, if_pos hnone]
  · cases hentry : cli.optsByShortNameArr[node.shortName.toNat] with
    | none =>
      have hget : cli.optsByShortNameArr[node.shortName.toNat]? = some none := by
        rw [List.getElem?_eq_getElem hlt, hentry]
      apply addOutcome_of_entered h hshort
        (cli.optsByShortNameArr.set node.shortName.toNat (some cli.heap.length))
      · rwa [List.length_set]
      · rw [List.set_set]
        exact h.set_none hshort fun _ => hget
      · exact fun _ => hget
      · rw [if_neg hnone]
      · rw [addShortName, if_neg hnone]
        simp only [hget]
        rw [setShortName_eq (by exact hlt)]
        rfl
    | some ref =>
      -- the name is taken, and nothing has been entered yet
      have hget : cli.optsByShortNameArr[node.shortName.toNat]? = some (some ref) := by
        rw [List.getElem?_eq_getElem hlt, hentry]
      refine .inr ⟨?_, cliOptNodeDestroy { cli with heap := cli.heap ++ [some node] }
        cli.heap.length, ?_, ?_, set_concat_none _ _, rfl⟩
      · intro hf
        have := hf.shortName hnone
        simp [hget] at this
      · rw [addNewNode]
        simp only [cliAddOptNode, addShortName, if_neg hnone, hget]
      · exact h.of_failed (set_concat_none _ _) rfl rfl
          ⟨h.validId, fun _ _ => Iff.rfl, h.validLongName, fun _ _ => Iff.rfl⟩ rfl

end Add

section Remove

variable {cli cli' : Cli φ} {ref : ℕ} {node : OptNode φ}

theorem exists_live_set (hheap : cli'.heap = cli.heap.set ref none) {r : ℕ}
    {P : OptNode φ → Prop} :
    (∃ n, Live cli' r n ∧ P n) ↔ r ≠ ref ∧ ∃ n, Live cli r n ∧ P n := by
  simp only [live_set_none hheap, and_assoc, exists_and_left]

/-- A registry that took a node out of its ring and its tables and destroyed it is one too; the
array of short names is left alone. -/
theorem Registry.of_removed (h : Registry cli) (hlive : Live cli ref node)
    (hheap : cli'.heap = cli.heap.set ref none)
    (hreq : cli'.requiredOpts =
      if node.required then cli.requiredOpts.erase ref else cli.requiredOpts)
    (hopt : cli'.optionalOpts =
      if node.required then cli.optionalOpts else cli.optionalOpts.erase ref)
    (hvalidId : cli'.optsByIdHt.Valid HashStr.key)
    (hid : ∀ id r, cli'.optsByIdHt.get id id.key = some r ↔
      id ≠ node.id ∧ cli.optsByIdHt.get id id.key = some r)
    (hvalidLong : cli'.optsByLongNameHt.Valid HashStr.key)
    (hlong : ∀ name r, cli'.optsByLongNameHt.get name name.key = some r ↔
      node.longName ≠ some name ∧ cli.optsByLongNameHt.get name name.key = some r)
    (harr : cli'.optsByShortNameArr = cli.optsByShortNameArr) : Registry cli' := by
  -- the node is in one ring only
  have hnotReq (hflag : node.required = false) : ref ∉ cli.requiredOpts := by
    intro hmem
    obtain ⟨n, hn, hreq⟩ := (h.required ref).1 hmem
    rw [hn.unique hlive, hflag] at hreq
    cases hreq
  have hnotOpt (hflag : node.required = true) : ref ∉ cli.optionalOpts := by
    intro hmem
    obtain ⟨n, hn, hopt⟩ := (h.optional ref).1 hmem
    rw [hn.unique hlive, hflag] at hopt
    cases hopt
  have hother {l : List ℕ} (hnot : ref ∉ l) {r : ℕ} : r ∈ l ↔ r ≠ ref ∧ r ∈ l :=
    ⟨fun hr => ⟨fun heq => hnot (heq ▸ hr), hr⟩, And.right⟩
  refine ⟨?_, ?_, ?_, hvalidId, ?_, hvalidLong, ?_, ?_, ?_, ?_⟩
  · intro r
    rw [hreq, exists_live_set hheap, ← h.required]
    cases hflag : node.required with
    | true => exact h.ringOnce.1.mem_erase_iff
    | false => exact hother (hnotReq hflag)
  · intro r
    rw [hopt, exists_live_set hheap, ← h.optional]
    cases hflag : node.required with
    | true => exact hother (hnotOpt hflag)
    | false => exact h.ringOnce.2.mem_erase_iff
  · rw [hreq, hopt]
    cases node.required with
    | true => exact ⟨h.ringOnce.1.erase ref, h.ringOnce.2⟩
    | false => exact ⟨h.ringOnce.1, h.ringOnce.2.erase ref⟩
  · intro id r
    rw [hid, exists_live_set hheap, ← h.byId]
    -- the id found at `ref` is the node's
    refine and_congr_left fun hget => not_congr ⟨?_, ?_⟩
    · rintro rfl
      rw [(h.byId _ _).2 ⟨node, hlive, rfl⟩] at hget
      exact (Option.some.inj hget).symm
    · rintro rfl
      obtain ⟨n, hn, rfl⟩ := (h.byId _ _).1 hget
      rw [hn.unique hlive]
  · intro name r
    rw [hlong, exists_live_set hheap, ← h.byLongName]
    refine and_congr_left fun hget => not_congr ⟨?_, ?_⟩
    · intro hname
      rw [(h.byLongName _ _).2 ⟨node, hlive, hname⟩] at hget
      exact (Option.some.inj hget).symm
    · rintro rfl
      obtain ⟨n, hn, hname⟩ := (h.byLongName _ _).1 hget
      rwa [← hn.unique hlive]
  · rw [harr, h.shortNames]
  · intro r n hn hne
    rw [harr]
    exact h.byShortName r n ((live_set_none hheap).1 hn).2 hne
  · intro c r hc
    rw [harr] at hc
    obtain ⟨hne, hlt, hname⟩ := h.shortName c r hc
    refine ⟨hne, by rw [hheap, List.length_set]; exact hlt, ?_⟩
    exact fun n hn => hname n ((live_set_none hheap).1 hn).2

/-- Taking the id of a node out of the table. -/
theorem removeId_eq (h : Registry cli) (hlive : Live cli ref node) (cli' : Cli φ)
    (heq : cli'.optsByIdHt = cli.optsByIdHt) :
    ∃ ht, removeId cli' node.id = { cli' with optsByIdHt := ht } ∧ ht.Valid HashStr.key ∧
      ∀ id r, ht.get id id.key = some r ↔ id ≠ node.id ∧ cli.optsByIdHt.get id id.key = some r := by
  obtain ⟨ht, hremove, hvalid, hlookup⟩ :=
    h.validId.remove ((h.byId node.id ref).2 ⟨node, hlive, rfl⟩)
  exact ⟨ht, by simp only [removeId, heq, hremove], hvalid, hlookup⟩

/-- Taking the long name of a node, if it has one, out of the table. -/
theorem removeLongName_eq (h : Registry cli) (hlive : Live cli ref node) (cli' : Cli φ)
    (heq : cli'.optsByLongNameHt = cli.optsByLongNameHt) :
    ∃ ht, removeLongName cli' node.longName = { cli' with optsByLongNameHt := ht } ∧
      ht.Valid HashStr.key ∧ ∀ name r, ht.get name name.key = some r ↔
        node.longName ≠ some name ∧ cli.optsByLongNameHt.get name name.key = some r := by
  cases hname : node.longName with
  | none =>
    refine ⟨cli.optsByLongNameHt, ?_, h.validLongName, by simp⟩
    rw [removeLongName, ← heq]
  | some name =>
    obtain ⟨ht, hremove, hvalid, hlookup⟩ :=
      h.validLongName.remove ((h.byLongName name ref).2 ⟨node, hlive, hname⟩)
    refine ⟨ht, by simp only [removeLongName, heq, hremove], hvalid, ?_⟩
    intro name' r
    rw [hlookup, ne_eq, ne_eq, Option.some.injEq, eq_comm (a := name)]

/-- `cli_remove_opt` fails on an id that no option has or that an internal one has; otherwise it
takes the option out of the rings and the tables and destroys it. -/
theorem cliRemoveOpt_spec (h : Registry cli) (id : Str) :
    (cliRemoveOpt cli id = .ok (cli, false) ∧ ∀ ref node, Live cli ref node → node.id.str = id →
      node.flags &&& cliOptInternal ≠ 0) ∨
    (∃ ref node cli', Live cli ref node ∧ node.id.str = id ∧ node.flags &&& cliOptInternal = 0 ∧
      cliRemoveOpt cli id = .ok (cli', true) ∧ Registry cli' ∧
      cli'.heap = cli.heap.set ref none ∧ cli'.optsByShortNameArr = cli.optsByShortNameArr) := by
  cases hget : cli.optsByIdHt.get (.fromStr id) (HashStr.fromStr id).key with
  | none =>
    refine .inl ⟨by simp only [cliRemoveOpt, hget], ?_⟩
    intro ref node hlive hid
    rw [(h.byId _ ref).2 ⟨node, hlive, HashStr.ext_str hid⟩] at hget
    cases hget
  | some ref =>
    obtain ⟨node, hlive, hid⟩ := (h.byId _ _).1 hget
    have hentry : cli.heap[ref]? = some (some node) := hlive
    -- an internal option is refused after it has been found
    by_cases hinternal : node.flags &&& cliOptInternal ≠ 0
    · refine .inl ⟨by simp only [cliRemoveOpt, hget, hentry, if_pos hinternal], ?_⟩
      intro ref' node' hlive' hid'
      obtain ⟨-, rfl⟩ := h.id_inj hlive hlive' ((congrArg HashStr.str hid).trans hid'.symm)
      exact hinternal
    · -- out of its ring, out of the tables, destroyed
      obtain ⟨byId, hbyId, hvalid, hlookup⟩ := removeId_eq h hlive (removeFromRing cli ref node)
        (by rw [removeFromRing]; split <;> rfl)
      obtain ⟨byLongName, hbyLongName, hvalid', hlookup'⟩ := removeLongName_eq h hlive
        { removeFromRing cli ref node with optsByIdHt := byId }
        (by rw [removeFromRing]; split <;> rfl)
      refine .inr ⟨ref, node, _, hlive, congrArg HashStr.str hid, by simpa using hinternal,
        by simp only [cliRemoveOpt, hget, hentry, if_neg hinternal, hbyId, hbyLongName]; rfl,
        ?_, ?_, ?_⟩
      · apply h.of_removed hlive _ _ _ hvalid hlookup hvalid' hlookup'
        all_goals
          simp only [removeFromRing, cliOptNodeDestroy]
          cases node.required <;> rfl
      · simp only [removeFromRing, cliOptNodeDestroy]
        cases node.required <;> rfl
      · simp only [removeFromRing, cliOptNodeDestroy]
        cases node.required <;> rfl

end Remove

end Qkmetisc.CommandLine
