import Mathlib.Algebra.Ring.Int.Defs
import Mathlib.Data.List.Nodup

/-!
# The hash table (`cli_hash.c`)

A table of `space_size` rings of nodes. Keys are compared by a function of the table, and the
caller passes the hash of a key with it; keys and data are of arbitrary types.

## Main definitions

* `HashTable`, with `create`, `insert`, `get` and `remove`: the functions of the source.
* `HashTable.Valid`: the rings hold what belongs there, no key twice.

## Main results

* `Valid.insert`, `Valid.remove`: the operations of a valid table are those of a finite map, and
  keep it valid.
* `Valid.mem_entries`: the nodes of a valid table are the bindings of that map.
-/

namespace Qkmetisc.CommandLine

/-- `struct cli_hash_table`: the comparison and the rings, each the list of its nodes from the
head on. -/
structure HashTable (κ δ : Type*) where
  /-- `cmp`: zero for equal keys. -/
  cmp : κ → κ → ℤ
  /-- `opts`: the rings; `space_size` is their number. -/
  opts : List (List (κ × δ))

namespace HashTable

variable {κ δ : Type*}

/-- `cli_hash_table_create`, when its allocations succeed. -/
def create (cmp : κ → κ → ℤ) (spaceSize : ℕ) : HashTable κ δ :=
  { cmp, opts := List.replicate spaceSize [] }

/-- `cli_hash_table_get_nodes`: the place of the ring for a hash. -/
def nodesIndex (t : HashTable κ δ) (hash : ℕ) : ℕ := hash % t.opts.length

/-- The ring for a hash. -/
def nodes (t : HashTable κ δ) (hash : ℕ) : List (κ × δ) := (t.opts[t.nodesIndex hash]?).getD []

/-- The table with another ring for a hash. -/
def setNodes (t : HashTable κ δ) (hash : ℕ) (ring : List (κ × δ)) : HashTable κ δ :=
  { t with opts := t.opts.set (t.nodesIndex hash) ring }

/-- Whether the node has the key. -/
def hasKey (t : HashTable κ δ) (key : κ) (node : κ × δ) : Bool := t.cmp node.1 key = 0

/-- `cli_hash_table_insert`: none if it fails, which leaves the table as it was. -/
def insert (t : HashTable κ δ) (data : Option δ) (key : κ) (keyHash : ℕ) (malloc : Bool) :
    Option (HashTable κ δ) :=
  match data with
  | none => none
  | some data =>
    if malloc = false then none
    else if (t.nodes keyHash).any (t.hasKey key) then none
    else some (t.setNodes keyHash (t.nodes keyHash ++ [(key, data)]))

/-- `cli_hash_table_get`: the data under a key, none if it fails. -/
def get (t : HashTable κ δ) (key : κ) (keyHash : ℕ) : Option δ :=
  ((t.nodes keyHash).find? (t.hasKey key)).map (·.2)

/-- `cli_hash_table_remove`: the table without the key and the data that was under it, none if it
fails. -/
def remove (t : HashTable κ δ) (key : κ) (keyHash : ℕ) : Option (HashTable κ δ × δ) :=
  match (t.nodes keyHash).find? (t.hasKey key) with
  | none => none
  | some node =>
    some (t.setNodes keyHash ((t.nodes keyHash).eraseP (t.hasKey key)), node.2)

/-- All the nodes of the table. -/
def entries (t : HashTable κ δ) : List (κ × δ) := t.opts.flatten

/-- What holds of a table whose keys are passed with the hash `hash`: only equal keys compare as
equal, there is at least one ring, every node is in the ring of its key, and no ring has a key
twice. -/
structure Valid (hash : κ → ℕ) (t : HashTable κ δ) : Prop where
  cmp : ∀ a b, t.cmp a b = 0 ↔ a = b
  pos : 0 < t.opts.length
  place : ∀ i ring, t.opts[i]? = some ring → ∀ node ∈ ring, hash node.1 % t.opts.length = i
  distinct : ∀ ring ∈ t.opts, (ring.map (·.1)).Nodup

/-- A new table is valid. -/
theorem valid_create {hash : κ → ℕ} {cmp : κ → κ → ℤ} (hcmp : ∀ a b, cmp a b = 0 ↔ a = b)
    {spaceSize : ℕ} (hpos : 0 < spaceSize) :
    Valid hash (create cmp spaceSize : HashTable κ δ) where
  cmp := hcmp
  pos := by simpa [create] using hpos
  place := by
    intro i ring hring node hnode
    have hmem := List.mem_of_getElem? hring
    rw [create, List.mem_replicate] at hmem
    simp [hmem.2] at hnode
  distinct := by
    intro ring hring
    rw [create, List.mem_replicate] at hring
    rw [hring.2]
    exact List.nodup_nil

theorem get_create (cmp : κ → κ → ℤ) (spaceSize : ℕ) (key : κ) (keyHash : ℕ) :
    (create cmp spaceSize : HashTable κ δ).get key keyHash = none := by
  unfold get nodes create
  simp only [List.getElem?_replicate]
  split <;> rfl

section Rings

variable {hash : κ → ℕ} {t : HashTable κ δ} {key key' : κ} {data : δ}

theorem Valid.hasKey_iff (h : Valid hash t) {node : κ × δ} :
    t.hasKey key node = true ↔ node.1 = key := by
  rw [hasKey, decide_eq_true_iff]
  exact h.cmp _ _

/-- The ring of a key is one of the rings. -/
theorem Valid.getElem?_nodes (h : Valid hash t) (key : κ) :
    t.opts[t.nodesIndex (hash key)]? = some (t.nodes (hash key)) := by
  have hlt : t.nodesIndex (hash key) < t.opts.length := Nat.mod_lt _ h.pos
  rw [nodes, List.getElem?_eq_getElem hlt]
  rfl

theorem Valid.distinct_nodes (h : Valid hash t) (key : κ) :
    ((t.nodes (hash key)).map (·.1)).Nodup :=
  h.distinct _ (List.mem_of_getElem? (h.getElem?_nodes key))

/-- The data under a key is that of the node with this key in its ring. -/
theorem Valid.get_eq_some (h : Valid hash t) :
    t.get key (hash key) = some data ↔ (key, data) ∈ t.nodes (hash key) := by
  unfold get
  constructor
  · intro hget
    obtain ⟨node, hfind, rfl⟩ := Option.map_eq_some_iff.1 hget
    obtain rfl := h.hasKey_iff.1 (List.find?_some hfind)
    exact List.mem_of_find?_eq_some hfind
  · intro hmem
    cases hfind : (t.nodes (hash key)).find? (t.hasKey key) with
    | none =>
      have hno := List.find?_eq_none.1 hfind (key, data) hmem
      exact absurd (h.hasKey_iff.2 rfl) hno
    | some node =>
      -- both nodes have the key, and the ring has it once
      have hkey := h.hasKey_iff.1 (List.find?_some hfind)
      have hnode := List.mem_of_find?_eq_some hfind
      have := List.inj_on_of_nodup_map (h.distinct_nodes key) hnode hmem hkey
      simp [this]

theorem Valid.get_eq_none (h : Valid hash t) :
    t.get key (hash key) = none ↔ ∀ node ∈ t.nodes (hash key), node.1 ≠ key := by
  rw [get, Option.map_eq_none_iff, List.find?_eq_none]
  exact forall₂_congr fun node _ => not_congr h.hasKey_iff

/-- The nodes of a valid table are the bindings of the map. -/
theorem Valid.mem_entries (h : Valid hash t) :
    (key, data) ∈ t.entries ↔ t.get key (hash key) = some data := by
  rw [h.get_eq_some]
  constructor
  · intro hmem
    obtain ⟨ring, hring, hnode⟩ := List.mem_flatten.1 hmem
    obtain ⟨i, hi⟩ := List.getElem?_of_mem hring
    -- a node can only be in the ring that its hash says
    have hplace : t.nodesIndex (hash key) = i := h.place i ring hi _ hnode
    rw [← hplace, h.getElem?_nodes key] at hi
    rwa [Option.some.inj hi]
  · intro hmem
    exact List.mem_flatten.2 ⟨_, List.mem_of_getElem? (h.getElem?_nodes key), hmem⟩

end Rings

section Update

variable {hash : κ → ℕ} {t : HashTable κ δ} {key key' : κ} {data : δ} {ring : List (κ × δ)}

/-- Replacing the ring of a key by one with the right keys keeps the table valid. -/
theorem Valid.setNodes (h : Valid hash t) (hplace : ∀ node ∈ ring, hash node.1 % t.opts.length =
    t.nodesIndex (hash key)) (hdistinct : (ring.map (·.1)).Nodup) :
    Valid hash (t.setNodes (hash key) ring) where
  cmp := h.cmp
  pos := by simpa [HashTable.setNodes] using h.pos
  place := by
    intro i ring' hring' node hnode
    simp only [HashTable.setNodes, List.length_set, List.getElem?_set] at hring' ⊢
    -- the place that was replaced, or another one
    split at hring'
    · next hi =>
      split at hring'
      · obtain rfl := Option.some.inj hring'
        rw [← hi]
        exact hplace node hnode
      · cases hring'
    · exact h.place i ring' hring' node hnode
  distinct := by
    intro ring' hring'
    rcases List.mem_or_eq_of_mem_set hring' with hold | rfl
    · exact h.distinct ring' hold
    · exact hdistinct

/-- The ring of any key after one ring was replaced. -/
theorem Valid.nodes_setNodes (h : Valid hash t) (key key' : κ) (ring : List (κ × δ)) :
    (t.setNodes (hash key) ring).nodes (hash key') =
      if t.nodesIndex (hash key') = t.nodesIndex (hash key) then ring
      else t.nodes (hash key') := by
  have hlt : t.nodesIndex (hash key) < t.opts.length := Nat.mod_lt _ h.pos
  have hindex : (t.setNodes (hash key) ring).nodesIndex (hash key') =
      t.nodesIndex (hash key') := by
    simp [nodesIndex, HashTable.setNodes]
  unfold nodes
  rw [hindex, HashTable.setNodes, List.getElem?_set]
  -- another key may share the ring
  by_cases heq : t.nodesIndex (hash key) = t.nodesIndex (hash key')
  · rw [if_pos heq, if_pos hlt, if_pos heq.symm]
    rfl
  · rw [if_neg heq, if_neg (Ne.symm heq)]

/-- Inserting a new key succeeds and binds it, and nothing else changes. -/
theorem Valid.insert (h : Valid hash t) (hnew : t.get key (hash key) = none) (data : δ) :
    ∃ t', t.insert (some data) key (hash key) true = some t' ∧ Valid hash t' ∧
      ∀ k d, t'.get k (hash k) = some d ↔ (k = key ∧ d = data) ∨ t.get k (hash k) = some d := by
  have hfresh := h.get_eq_none.1 hnew
  have hany : (t.nodes (hash key)).any (t.hasKey key) = false := by
    rw [List.any_eq_false]
    exact fun node hnode hkey => hfresh node hnode (h.hasKey_iff.1 hkey)
  -- the new node goes to the end of its ring
  have hvalid : Valid hash (t.setNodes (hash key) (t.nodes (hash key) ++ [(key, data)])) := by
    apply h.setNodes
    · intro node hnode
      rcases List.mem_append.1 hnode with hnode | hnode
      · exact h.place _ _ (h.getElem?_nodes key) node hnode
      · obtain rfl := List.mem_singleton.1 hnode
        rfl
    · rw [List.map_append, List.map_singleton, List.nodup_append]
      refine ⟨h.distinct_nodes key, List.nodup_singleton _, ?_⟩
      intro k hk k' hk' heq
      obtain ⟨node, hnode, rfl⟩ := List.mem_map.1 hk
      exact hfresh node hnode (heq.trans (List.mem_singleton.1 hk'))
  refine ⟨_, by rw [HashTable.insert, hany]; rfl, hvalid, ?_⟩
  intro k d
  rw [hvalid.get_eq_some, h.get_eq_some, h.nodes_setNodes]
  -- only lookups in this ring can see the new node
  by_cases hk : t.nodesIndex (hash k) = t.nodesIndex (hash key)
  · have hring : t.nodes (hash k) = t.nodes (hash key) := by rw [nodes, nodes, hk]
    rw [if_pos hk, hring, List.mem_append, List.mem_singleton, Prod.mk.injEq, or_comm]
  · rw [if_neg hk]
    have hne : k ≠ key := fun heq => hk (by rw [heq])
    simp [hne]

/-- Inserting fails if the key is there. -/
theorem Valid.insert_eq_none (h : Valid hash t) {old : δ} (hold : t.get key (hash key) = some old)
    (data : Option δ) (malloc : Bool) : t.insert data key (hash key) malloc = none := by
  have hmem := h.get_eq_some.1 hold
  have hany : (t.nodes (hash key)).any (t.hasKey key) = true :=
    List.any_eq_true.2 ⟨_, hmem, h.hasKey_iff.2 rfl⟩
  cases data with
  | none => rfl
  | some data =>
    rw [HashTable.insert, hany]
    cases malloc <;> rfl

/-- Inserting fails without memory. -/
theorem insert_eq_none_of_malloc (t : HashTable κ δ) (data : Option δ) (key : κ) (keyHash : ℕ) :
    t.insert data key keyHash false = none := by
  cases data <;> rfl

/-- An insertion succeeds exactly with a new key and with memory. -/
theorem Valid.insert_cases (h : Valid hash t) (key : κ) (data : δ) (malloc : Bool) :
    (t.get key (hash key) = none ∧ malloc = true ∧
      ∃ t', t.insert (some data) key (hash key) malloc = some t' ∧ Valid hash t' ∧ ∀ k d,
        t'.get k (hash k) = some d ↔ (k = key ∧ d = data) ∨ t.get k (hash k) = some d) ∨
    (¬(t.get key (hash key) = none ∧ malloc = true) ∧
      t.insert (some data) key (hash key) malloc = none) := by
  cases malloc with
  | false => exact .inr ⟨by simp, insert_eq_none_of_malloc t _ key _⟩
  | true =>
    cases hget : t.get key (hash key) with
    | none => exact .inl ⟨rfl, rfl, h.insert hget data⟩
    | some old => exact .inr ⟨by simp, h.insert_eq_none hget _ _⟩

/-- Removing fails if the key is not there. -/
theorem remove_eq_none {keyHash : ℕ} (hnone : t.get key keyHash = none) :
    t.remove key keyHash = none := by
  rw [get, Option.map_eq_none_iff] at hnone
  rw [HashTable.remove, hnone]

/-- Removing a key that is there returns its data and unbinds it, and nothing else changes. -/
theorem Valid.remove (h : Valid hash t) (hget : t.get key (hash key) = some data) :
    ∃ t', t.remove key (hash key) = some (t', data) ∧ Valid hash t' ∧
      ∀ k d, t'.get k (hash k) = some d ↔ k ≠ key ∧ t.get k (hash k) = some d := by
  obtain ⟨node, hfind, rfl⟩ := Option.map_eq_some_iff.1 hget
  -- only the node with the key leaves its ring
  have hmem {n : κ × δ} : n ∈ (t.nodes (hash key)).eraseP (t.hasKey key) ↔
      n ∈ t.nodes (hash key) ∧ n.1 ≠ key := by
    constructor
    · intro hn
      refine ⟨List.mem_of_mem_eraseP hn, ?_⟩
      obtain ⟨a, l₁, l₂, hl₁, ha, hsplit, herase⟩ :=
        List.exists_of_eraseP (List.mem_of_find?_eq_some hfind) (List.find?_some hfind)
      have hnodup := h.distinct_nodes key
      rw [hsplit, List.map_append, List.map_cons, List.nodup_append, List.nodup_cons] at hnodup
      rw [herase] at hn
      have ha := h.hasKey_iff.1 ha
      rcases List.mem_append.1 hn with hn | hn
      · exact fun hkey => hl₁ n hn (h.hasKey_iff.2 hkey)
      · intro hkey
        exact hnodup.2.1.1 (ha.trans hkey.symm ▸ List.mem_map_of_mem hn)
    · rintro ⟨hn, hkey⟩
      exact (List.mem_eraseP_of_neg fun hp => hkey (h.hasKey_iff.1 hp)).2 hn
  have hvalid : Valid hash
      (t.setNodes (hash key) ((t.nodes (hash key)).eraseP (t.hasKey key))) := by
    apply h.setNodes
    · intro n hn
      exact h.place _ _ (h.getElem?_nodes key) n (hmem.1 hn).1
    · exact (h.distinct_nodes key).sublist (List.eraseP_sublist.map _)
  refine ⟨_, by rw [HashTable.remove, hfind], hvalid, ?_⟩
  intro k d
  rw [hvalid.get_eq_some, h.get_eq_some, h.nodes_setNodes]
  -- only lookups in this ring can miss the old node
  by_cases hk : t.nodesIndex (hash k) = t.nodesIndex (hash key)
  · have hring : t.nodes (hash k) = t.nodes (hash key) := by rw [nodes, nodes, hk]
    rw [if_pos hk, hring, hmem, and_comm]
  · rw [if_neg hk]
    have hne : k ≠ key := fun heq => hk (by rw [heq])
    simp [hne]

end Update

end HashTable

end Qkmetisc.CommandLine
