import Qkmetisc.CommandLine.Coherence
import Qkmetisc.Foundations.LinkedRing

/-!
# The rings of the hash table

`cli_hash.c` once more, with the rings as they are in memory: nodes with links to each other
(`listc.h`), and an array of heads. A node is known by its place in the heap, the list of all nodes
ever allocated. A loop that comes to a freed node, or does not come round to the head again, does
not return.

## Main definitions

* `RingTable`, with `create`, `insert`, `get` and `remove`: the functions of the source.
* `RingTable.Represents`: the rings are those of a `HashTable`.
* `HashOp`, `RingTable.replies`: what a sequence of calls returns.
* `mapReplies`: what a finite map returns.

## Main results

* `Represents.insert`, `Represents.get`, `Represents.remove`: the calls on the rings are those on
  the lists.
* `replies_eq_mapReplies`: every sequence of calls returns what a finite map returns.
-/

namespace Qkmetisc.CommandLine

open LinkedRing

/-- `listc_add_item_back`, for nodes that are known by their place: the links and the head. -/
def listcAddItemBack (links : Links ℕ) (listc : Option ℕ) (item : ℕ) : Links ℕ × Option ℕ :=
  match listc with
  | none => (links, some item)
  | some head => (links.insertBefore head item, some head)

/-- `listc_is_empty`. -/
def listcIsEmpty (links : Links ℕ) (listc : ℕ) : Bool := links.prev listc = listc

/-- `listc_remove_item`. -/
def listcRemoveItem (links : Links ℕ) (listc : Option ℕ) (item : ℕ) : Links ℕ × Option ℕ :=
  match listc with
  | none => (links, none)
  | some head =>
    if head = item then
      if listcIsEmpty links item then (links.unlink item, none)
      else (links.unlink item, some (links.next item))
    else (links.unlink item, some head)

section Listc

variable {links : Links ℕ} {ring l₁ l₂ : List ℕ} {item : ℕ}

/-- An item on its own goes behind the last one. -/
theorem listcAddItemBack_spec (hring : IsRing links ring) (hitem : IsRing links [item])
    (hnew : item ∉ ring) : ∃ links', listcAddItemBack links ring.head? item =
      (links', (ring ++ [item]).head?) ∧ IsRing links' (ring ++ [item]) ∧
        ∀ n, n ∉ ring → n ≠ item →
          links'.prev n = links.prev n ∧ links'.next n = links.next n := by
  rcases ring with _ | ⟨h, l⟩
  · exact ⟨links, rfl, hitem, fun _ _ _ => ⟨rfl, rfl⟩⟩
  · exact ⟨_, rfl, hring.insertBefore hnew, fun _ hn hne => hring.insertBefore_frame hnew hn hne⟩

/-- Any item is taken out, the head too. -/
theorem listcRemoveItem_spec (hring : IsRing links (l₁ ++ item :: l₂)) :
    ∃ links', listcRemoveItem links (l₁ ++ item :: l₂).head? item = (links', (l₁ ++ l₂).head?) ∧
      IsRing links' (l₁ ++ l₂) ∧
        ∀ n, n ∉ l₁ ++ item :: l₂ →
          links'.prev n = links.prev n ∧ links'.next n = links.next n := by
  refine ⟨links.unlink item, ?_, hring.unlink, fun n hn => hring.unlink_frame (by simp) hn⟩
  rcases l₁ with _ | ⟨h, l₁⟩
  · -- the head moves on, if there is another node
    rw [List.nil_append] at hring
    simp only [List.nil_append, List.head?_cons, listcRemoveItem, if_pos, listcIsEmpty,
      decide_eq_true_eq, hring.prev_eq_self]
    rcases l₂ with _ | ⟨b, l₂⟩
    · rfl
    · rw [if_neg (List.cons_ne_nil _ _), hring.next_cons]
      rfl
  · have hne : h ≠ item := by
      rintro rfl
      simpa using hring.nodup
    rw [List.cons_append, List.head?_cons, listcRemoveItem, if_neg hne]
    rfl

end Listc

/-- `struct cli_hash_table`. -/
structure RingTable (κ δ : Type*) where
  cmp : κ → κ → ℤ
  /-- The heads; `space_size` is their number. -/
  opts : List (Option ℕ)
  /-- The keys and data of the nodes ever allocated, none for those freed. -/
  heap : List (Option (κ × δ))
  links : Links ℕ

namespace RingTable

variable {κ δ : Type*}

/-- `cli_hash_table_create`, when its allocations succeed. -/
def create (cmp : κ → κ → ℤ) (spaceSize : ℕ) : RingTable κ δ where
  cmp := cmp
  opts := List.replicate spaceSize none
  heap := []
  links := ⟨id, id⟩

/-- `cli_hash_table_get_nodes`: the place of the head for a hash. -/
def nodesIndex (t : RingTable κ δ) (hash : ℕ) : ℕ := hash % t.opts.length

/-- The head for a hash. -/
def nodes (t : RingTable κ δ) (hash : ℕ) : Option ℕ := (t.opts[t.nodesIndex hash]?).join

/-- `!cht->cmp(iter->key, key)`; none for a node that is not there. -/
def hasKey (t : RingTable κ δ) (key : κ) (iter : ℕ) : Option Bool :=
  match t.heap[iter]? with
  | some (some node) => some (t.cmp node.1 key = 0)
  | _ => none

/-- The loop that the three functions have in common: the node with the key, if there is one. The
outer none is for a loop that does not return. -/
def find (t : RingTable κ δ) (key : κ) (keyHash : ℕ) : Option (Option ℕ) :=
  match t.nodes keyHash with
  | none => some none
  | some head => findFrom t.links head (t.hasKey key) t.heap.length head

/-- `cli_hash_table_insert`: the table, and whether the call returned 0. -/
def insert (t : RingTable κ δ) (data : Option δ) (key : κ) (keyHash : ℕ) (malloc : Bool) :
    Option (RingTable κ δ × Bool) :=
  match data with
  | none => some (t, false)
  | some data =>
    if malloc = false then some (t, false)
    else
      let node := t.heap.length
      let t := { t with heap := t.heap ++ [some (key, data)], links := t.links.init node }
      match t.find key keyHash with
      | none => none
      -- the new node is not freed
      | some (some _) => some (t, false)
      | some none =>
        let (links, head) := listcAddItemBack t.links (t.nodes keyHash) node
        some ({ t with links, opts := t.opts.set (t.nodesIndex keyHash) head }, true)

/-- `cli_hash_table_get`: the data under a key, the inner none if the call fails. -/
def get (t : RingTable κ δ) (key : κ) (keyHash : ℕ) : Option (Option δ) :=
  match t.find key keyHash with
  | none => none
  | some none => some none
  | some (some iter) =>
    match t.heap[iter]? with
    | some (some node) => some (some node.2)
    | _ => none

/-- `cli_hash_table_remove`: the table and the data that was under the key. -/
def remove (t : RingTable κ δ) (key : κ) (keyHash : ℕ) : Option (RingTable κ δ × Option δ) :=
  match t.find key keyHash with
  | none => none
  | some none => some (t, none)
  | some (some iter) =>
    let (links, head) := listcRemoveItem t.links (t.nodes keyHash) iter
    match t.heap[iter]? with
    | some (some node) =>
      let opts := t.opts.set (t.nodesIndex keyHash) head
      some ({ t with links, opts, heap := t.heap.set iter none }, some node.2)
    | _ => none

/-- The heads and links are those of rings that hold what a `HashTable` holds: `rings` gives the
nodes of the ring at each place. -/
structure Represents (t : RingTable κ δ) (a : HashTable κ δ) (rings : ℕ → List ℕ) : Prop where
  cmp : t.cmp = a.cmp
  length : t.opts.length = a.opts.length
  head : ∀ i < a.opts.length, t.opts[i]? = some (rings i).head?
  ring : ∀ i, IsRing t.links (rings i)
  disjoint : ∀ i j n, n ∈ rings i → n ∈ rings j → i = j
  content : ∀ i, (rings i).map (t.heap[·]?) = (a.opts[i]?.getD []).map fun node => some (some node)

section Represents

variable {t : RingTable κ δ} {a : HashTable κ δ} {rings : ℕ → List ℕ} {key : κ} {keyHash i n : ℕ}

theorem represents_create (cmp : κ → κ → ℤ) (spaceSize : ℕ) :
    Represents (create cmp spaceSize : RingTable κ δ) (.create cmp spaceSize) fun _ => [] where
  cmp := rfl
  length := by simp [create, HashTable.create]
  head := by
    intro i hi
    rw [HashTable.create, List.length_replicate] at hi
    simp [create, hi]
  ring := fun _ => isRing_nil _
  disjoint := by simp
  content := by
    intro i
    rw [HashTable.create, List.getElem?_replicate]
    split <;> rfl

/-- The nodes in the rings are there. -/
theorem Represents.heap (h : Represents t a rings) (hn : n ∈ rings i) :
    ∃ node ∈ a.opts[i]?.getD [], t.heap[n]? = some (some node) := by
  have hmem : t.heap[n]? ∈ (rings i).map (t.heap[·]?) := List.mem_map_of_mem hn
  rw [h.content, List.mem_map] at hmem
  obtain ⟨node, hnode, heq⟩ := hmem
  exact ⟨node, hnode, heq.symm⟩

theorem Represents.lt (h : Represents t a rings) (hn : n ∈ rings i) : n < t.heap.length := by
  obtain ⟨node, -, hnode⟩ := h.heap hn
  exact (List.getElem?_eq_some_iff.1 hnode).1

/-- The ring for a hash. -/
theorem Represents.nodes (h : Represents t a rings) (hpos : 0 < a.opts.length) (keyHash : ℕ) :
    t.nodes keyHash = (rings (t.nodesIndex keyHash)).head? ∧
      a.nodes keyHash = a.opts[t.nodesIndex keyHash]?.getD [] := by
  have hlt : t.nodesIndex keyHash < a.opts.length := by
    rw [nodesIndex, h.length]
    exact Nat.mod_lt _ hpos
  constructor
  · rw [RingTable.nodes, h.head _ hlt]
    rfl
  · rw [HashTable.nodes, HashTable.nodesIndex, nodesIndex, h.length]

/-- A ring has no more nodes than were ever allocated. -/
theorem Represents.length_le (h : Represents t a rings) (i : ℕ) :
    (rings i).length ≤ t.heap.length := by
  have hsub : rings i ⊆ List.range t.heap.length := fun n hn => List.mem_range.2 (h.lt hn)
  simpa using (h.ring i).nodup.length_le_of_subset hsub

/-- The loop finds the first node with the key. -/
theorem Represents.find (h : Represents t a rings) (hpos : 0 < a.opts.length) (key : κ)
    (keyHash : ℕ) :
    (t.find key keyHash = some none ∧ ∀ node ∈ a.nodes keyHash, a.hasKey key node = false) ∨
    ∃ l₁ n l₂ b₁ node b₂, t.find key keyHash = some (some n) ∧
      rings (t.nodesIndex keyHash) = l₁ ++ n :: l₂ ∧ a.nodes keyHash = b₁ ++ node :: b₂ ∧
      l₁.map (t.heap[·]?) = b₁.map (fun node => some (some node)) ∧
      l₂.map (t.heap[·]?) = b₂.map (fun node => some (some node)) ∧
      t.heap[n]? = some (some node) ∧ a.hasKey key node = true ∧
      ∀ node ∈ b₁, a.hasKey key node = false := by
  obtain ⟨hhead, hbucket⟩ := h.nodes hpos keyHash
  have hcontent := h.content (t.nodesIndex keyHash)
  have hring := h.ring (t.nodesIndex keyHash)
  have hle := h.length_le (t.nodesIndex keyHash)
  have hheap {n : ℕ} (hn : n ∈ rings (t.nodesIndex keyHash)) := h.heap hn
  rw [← hbucket] at hcontent hheap
  let p (n : ℕ) : Bool := (t.heap[n]?.join).any (a.hasKey key)
  have hp {n : ℕ} {node : κ × δ} (hn : t.heap[n]? = some (some node)) :
      p n = a.hasKey key node := by
    show (t.heap[n]?.join).any (a.hasKey key) = _
    rw [hn]
    rfl
  have htest : ∀ n ∈ rings (t.nodesIndex keyHash), t.hasKey key n = some (p n) := by
    intro n hn
    obtain ⟨node, -, hnode⟩ := hheap hn
    rw [hp hnode, RingTable.hasKey, hnode, h.cmp]
    rfl
  have hfind : t.find key keyHash = some ((rings (t.nodesIndex keyHash)).find? p) := by
    rw [RingTable.find, hhead]
    rcases hr : rings (t.nodesIndex keyHash) with _ | ⟨head, l⟩
    · rfl
    · rw [hr] at hring hle htest
      exact hring.findFrom htest hle
  rcases hsearch : (rings (t.nodesIndex keyHash)).find? p with _ | n
  · refine .inl ⟨hfind.trans (congrArg some hsearch), fun node hnode => ?_⟩
    -- every node of the list is one of the ring
    have hmem : some (some node) ∈ (rings (t.nodesIndex keyHash)).map (t.heap[·]?) := by
      rw [hcontent]
      exact List.mem_map_of_mem hnode
    obtain ⟨n, hn, heq⟩ := List.mem_map.1 hmem
    rw [← hp heq]
    simpa using List.find?_eq_none.1 hsearch n hn
  · obtain ⟨hpn, l₁, l₂, hsplit, hbefore⟩ := List.find?_eq_some_iff_append.1 hsearch
    rw [hsplit, List.map_append, List.map_cons, eq_comm, List.map_eq_append_iff] at hcontent
    obtain ⟨b₁, b₃, hnodes, hl₁, hb₃⟩ := hcontent
    obtain ⟨node, b₂, rfl, hnode, hl₂⟩ := List.map_eq_cons_iff.1 hb₃
    refine .inr ⟨l₁, n, l₂, b₁, node, b₂, hfind.trans (congrArg some hsearch), hsplit, hnodes,
      hl₁.symm, hl₂.symm, hnode.symm, hp hnode.symm ▸ hpn, fun node hnode => ?_⟩
    have hmem : some (some node) ∈ l₁.map (t.heap[·]?) := by
      rw [← hl₁]
      exact List.mem_map_of_mem hnode
    obtain ⟨n, hn, heq⟩ := List.mem_map.1 hmem
    rw [← hp heq]
    simpa using hbefore n hn

/-- Looking a key up in the rings is looking it up in the lists. -/
theorem Represents.get (h : Represents t a rings) (hpos : 0 < a.opts.length) (key : κ)
    (keyHash : ℕ) : t.get key keyHash = some (a.get key keyHash) := by
  rw [RingTable.get, HashTable.get]
  rcases h.find hpos key keyHash with
    ⟨hfind, hnone⟩ | ⟨l₁, n, l₂, b₁, node, b₂, hfind, -, hnodes, -, -, hn, hkey, hbefore⟩
  · rw [hfind, List.find?_eq_none.2 (by simpa using hnone)]
    rfl
  · have hfirst : (a.nodes keyHash).find? (a.hasKey key) = some node := by
      rw [List.find?_eq_some_iff_append]
      exact ⟨hkey, b₁, b₂, hnodes, by simpa using hbefore⟩
    rw [hfind, hfirst]
    simp only [hn]
    rfl

end Represents

section Update

variable {t t' : RingTable κ δ} {a : HashTable κ δ} {rings : ℕ → List ℕ} {key : κ} {data : δ}
  {keyHash i : ℕ} {ring : List ℕ} {bucket : List (κ × δ)}

/-- One ring is replaced, and the nodes of the others are left alone. -/
theorem Represents.set (h : Represents t a rings) (hi : i < a.opts.length) (hcmp : t'.cmp = t.cmp)
    (hopts : t'.opts = t.opts.set i ring.head?) (hring : IsRing t'.links ring)
    (hfresh : ∀ n ∈ ring, ∀ j, n ∈ rings j → j = i)
    (hlinks : ∀ j ≠ i, ∀ n ∈ rings j,
      t'.links.prev n = t.links.prev n ∧ t'.links.next n = t.links.next n)
    (hheap : ∀ j ≠ i, ∀ n ∈ rings j, t'.heap[n]? = t.heap[n]?)
    (hcontent : ring.map (t'.heap[·]?) = bucket.map fun node => some (some node)) :
    Represents t' { a with opts := a.opts.set i bucket } (Function.update rings i ring) where
  cmp := hcmp.trans h.cmp
  length := by rw [hopts, List.length_set, List.length_set, h.length]
  head := by
    intro j hj
    rw [List.length_set] at hj
    rw [hopts, List.getElem?_set, Function.update_apply]
    by_cases hij : i = j
    · subst hij
      rw [if_pos rfl, if_pos (h.length ▸ hi), if_pos rfl]
    · rw [if_neg hij, if_neg (Ne.symm hij), h.head j hj]
  ring := by
    intro j
    rw [Function.update_apply]
    split
    · exact hring
    · next hij => exact (h.ring j).congr (hlinks j hij)
  disjoint := by
    intro j k n hj hk
    rw [Function.update_apply] at hj hk
    split at hj
    · next hji =>
      split at hk
      · next hki => exact hji.trans hki.symm
      · exact hji.trans (hfresh n hj k hk).symm
    · split at hk
      · next hki => exact (hfresh n hk j hj).trans hki.symm
      · exact h.disjoint j k n hj hk
  content := by
    intro j
    rw [Function.update_apply, List.getElem?_set]
    by_cases hij : j = i
    · subst hij
      rw [if_pos rfl, if_pos rfl, if_pos hi, hcontent]
      rfl
    · rw [if_neg hij, if_neg (Ne.symm hij), ← h.content j]
      exact List.map_congr_left fun n hn => hheap j hij n hn

/-- A new node that is in no ring yet. -/
theorem Represents.allocate (h : Represents t a rings) (node : κ × δ) :
    Represents { t with heap := t.heap ++ [some node], links := t.links.init t.heap.length } a
      rings where
  cmp := h.cmp
  length := h.length
  head := h.head
  ring := fun i => (h.ring i).congr fun _ hn => init_frame t.links (Nat.ne_of_lt (h.lt hn))
  disjoint := h.disjoint
  content := by
    intro i
    rw [← h.content i]
    exact List.map_congr_left fun n hn => List.getElem?_append_left (h.lt hn)

/-- Inserting into a ring is inserting into its list. -/
theorem Represents.insert (h : Represents t a rings) (hpos : 0 < a.opts.length) (data : Option δ)
    (key : κ) (keyHash : ℕ) (malloc : Bool) :
    (a.insert data key keyHash malloc = none ∧ ∃ t', t.insert data key keyHash malloc =
      some (t', false) ∧ Represents t' a rings) ∨
    ∃ a' t' rings', a.insert data key keyHash malloc = some a' ∧
      t.insert data key keyHash malloc = some (t', true) ∧ Represents t' a' rings' := by
  rcases data with _ | data
  · exact .inl ⟨rfl, t, rfl, h⟩
  rcases malloc with _ | _
  · exact .inl ⟨rfl, t, rfl, h⟩
  have hnew := h.allocate (key, data)
  set t₁ : RingTable κ δ :=
    { t with heap := t.heap ++ [some (key, data)], links := t.links.init t.heap.length } with ht₁
  have hcall : t.insert (some data) key keyHash true =
      match t₁.find key keyHash with
      | none => none
      | some (some _) => some (t₁, false)
      | some none =>
        let (links, head) := listcAddItemBack t₁.links (t₁.nodes keyHash) t.heap.length
        some ({ t₁ with links, opts := t₁.opts.set (t₁.nodesIndex keyHash) head }, true) := rfl
  rcases hnew.find hpos key keyHash with
    ⟨hfind, hnone⟩ | ⟨l₁, n, l₂, b₁, node, b₂, hfind, -, hnodes, -, -, -, hkey, -⟩
  · have hi : t₁.nodesIndex keyHash < a.opts.length := by
      rw [nodesIndex, hnew.length]
      exact Nat.mod_lt _ hpos
    have hfresh (j : ℕ) : t.heap.length ∉ rings j := fun hn => Nat.lt_irrefl _ (h.lt hn)
    obtain ⟨hhead, hbucket⟩ := hnew.nodes hpos keyHash
    obtain ⟨links, hadd, hring, hframe⟩ := listcAddItemBack_spec
      (hnew.ring (t₁.nodesIndex keyHash)) (isRing_init t.links _) (hfresh _)
    rw [← hhead] at hadd
    have hany : (a.nodes keyHash).any (a.hasKey key) = false :=
      List.any_eq_false.2 (by simpa using hnone)
    have hins : a.insert (some data) key keyHash true =
        some ⟨a.cmp, a.opts.set (t₁.nodesIndex keyHash) (a.nodes keyHash ++ [(key, data)])⟩ := by
      rw [HashTable.insert, hany, HashTable.setNodes, HashTable.nodesIndex, nodesIndex, hnew.length]
      rfl
    let rings' := Function.update rings (t₁.nodesIndex keyHash)
      (rings (t₁.nodesIndex keyHash) ++ [t.heap.length])
    refine .inr ⟨_, _, rings', hins, by rw [hcall, hfind, hadd], ?_⟩
    refine hnew.set hi rfl rfl hring ?_ ?_ (fun _ _ _ _ => rfl) ?_
    · intro n hn j hj
      rcases List.mem_append.1 hn with hn | hn
      · exact hnew.disjoint j _ n hj hn
      · rw [List.mem_singleton.1 hn] at hj
        exact absurd hj (hfresh j)
    · intro j hj n hn
      refine hframe n (fun hn' => hj (hnew.disjoint j _ n hn hn')) ?_
      rintro rfl
      exact hfresh j hn
    · rw [List.map_append, hnew.content, ← hbucket, List.map_append, ht₁]
      simp
  · refine .inl ⟨?_, t₁, by rw [hcall, hfind], hnew⟩
    have hany : (a.nodes keyHash).any (a.hasKey key) = true :=
      List.any_eq_true.2 ⟨node, by rw [hnodes]; simp, hkey⟩
    rw [HashTable.insert, hany]
    rfl

/-- Removing from a ring is removing from its list. -/
theorem Represents.remove (h : Represents t a rings) (hpos : 0 < a.opts.length) (key : κ)
    (keyHash : ℕ) :
    (a.remove key keyHash = none ∧ t.remove key keyHash = some (t, none)) ∨
    ∃ a' data t' rings', a.remove key keyHash = some (a', data) ∧
      t.remove key keyHash = some (t', some data) ∧ Represents t' a' rings' := by
  rcases h.find hpos key keyHash with
    ⟨hfind, hnone⟩ | ⟨l₁, n, l₂, b₁, node, b₂, hfind, hsplit, hnodes, hl₁, hl₂, hn, hkey, hbefore⟩
  · refine .inl ⟨?_, by rw [RingTable.remove, hfind]⟩
    rw [HashTable.remove, List.find?_eq_none.2 (by simpa using hnone)]
  · have hi : t.nodesIndex keyHash < a.opts.length := by
      rw [nodesIndex, h.length]
      exact Nat.mod_lt _ hpos
    obtain ⟨hhead, -⟩ := h.nodes hpos keyHash
    have hring := h.ring (t.nodesIndex keyHash)
    rw [hsplit] at hhead hring
    obtain ⟨links, hremove, hring', hframe⟩ := listcRemoveItem_spec hring
    rw [← hhead] at hremove
    have hother : ∀ m ∈ l₁ ++ l₂, m ≠ n := by
      rintro m hm rfl
      have hnodup := List.perm_middle.nodup_iff.1 hring.nodup
      exact (List.nodup_cons.1 hnodup).1 hm
    have hrem : a.remove key keyHash =
        some (⟨a.cmp, a.opts.set (t.nodesIndex keyHash) (b₁ ++ b₂)⟩, node.2) := by
      have hfirst : (a.nodes keyHash).find? (a.hasKey key) = some node := by
        rw [List.find?_eq_some_iff_append]
        exact ⟨hkey, b₁, b₂, hnodes, by simpa using hbefore⟩
      have herase : (a.nodes keyHash).eraseP (a.hasKey key) = b₁ ++ b₂ := by
        rw [hnodes, List.eraseP_append_right _ (by simpa using hbefore),
          List.eraseP_cons_of_pos hkey]
      rw [HashTable.remove, hfirst]
      simp only [herase, HashTable.setNodes, HashTable.nodesIndex, nodesIndex, h.length]
    refine .inr ⟨_, _, _, Function.update rings (t.nodesIndex keyHash) (l₁ ++ l₂), hrem,
      by rw [RingTable.remove, hfind]; simp only [hremove, hn]; rfl, ?_⟩
    refine h.set hi rfl rfl hring' ?_ ?_ ?_ ?_
    · intro m hm j hj
      refine h.disjoint j _ m hj ?_
      rw [hsplit]
      exact List.perm_middle.mem_iff.2 (List.mem_cons_of_mem _ hm)
    · intro j hj m hm
      refine hframe m fun hm' => hj (h.disjoint j _ m hm ?_)
      rwa [hsplit]
    · -- the node that is freed is in no other ring
      intro j hj m hm
      refine List.getElem?_set_ne ?_
      rintro rfl
      exact hj (h.disjoint j _ _ hm (by rw [hsplit]; simp))
    · have hkept : (l₁ ++ l₂).map (t.heap[·]?) =
          (b₁ ++ b₂).map fun node => some (some node) := by
        rw [List.map_append, List.map_append, hl₁, hl₂]
      rw [← hkept]
      exact List.map_congr_left fun m hm => List.getElem?_set_ne (hother m hm).symm

end Update

end RingTable

/-! ## Sequences of calls -/

/-- A call, with what its allocation answers; data may be `NULL`. -/
inductive HashOp (κ δ : Type*) where
  | insert (data : Option δ) (key : κ) (malloc : Bool)
  | get (key : κ)
  | remove (key : κ)

/-- What a call returns. -/
inductive HashReply (δ : Type*) where
  /-- -1. -/
  | failed
  /-- 0, and no data. -/
  | done
  /-- 0, and data. -/
  | data (d : δ)
  deriving DecidableEq

section Runs

variable {κ δ : Type*}

/-- The reply with the data that is there. -/
def HashReply.ofData : Option δ → HashReply δ
  | none => .failed
  | some d => .data d

/-- One call, with the hash of the key. -/
def RingTable.exec (hash : κ → ℕ) (t : RingTable κ δ) :
    HashOp κ δ → Option (RingTable κ δ × HashReply δ)
  | .insert data key malloc =>
    (t.insert data key (hash key) malloc).map fun called =>
      (called.1, if called.2 then .done else .failed)
  | .get key => (t.get key (hash key)).map fun called => (t, .ofData called)
  | .remove key => (t.remove key (hash key)).map fun called => (called.1, .ofData called.2)

/-- What a sequence of calls returns; none if one of them does not return. -/
def RingTable.replies (hash : κ → ℕ) (t : RingTable κ δ) :
    List (HashOp κ δ) → Option (List (HashReply δ))
  | [] => some []
  | op :: ops =>
    match t.exec hash op with
    | none => none
    | some (t, reply) => (RingTable.replies hash t ops).map (reply :: ·)

/-- One call on a finite map. Inserting fails if the key is there or the allocation fails, and
changes nothing then. -/
def mapExec [DecidableEq κ] (m : κ → Option δ) : HashOp κ δ → (κ → Option δ) × HashReply δ
  | .insert none _ _ => (m, .failed)
  | .insert (some data) key malloc =>
    if m key ≠ none ∨ malloc = false then (m, .failed)
    else (Function.update m key (some data), .done)
  | .get key => (m, .ofData (m key))
  | .remove key => (Function.update m key none, .ofData (m key))

/-- What a sequence of calls on a finite map returns. -/
def mapReplies [DecidableEq κ] (m : κ → Option δ) : List (HashOp κ δ) → List (HashReply δ)
  | [] => []
  | op :: ops => (mapExec m op).2 :: mapReplies (mapExec m op).1 ops

/-- The table has the bindings of a map. -/
def RingTable.Refines (hash : κ → ℕ) (t : RingTable κ δ) (m : κ → Option δ) : Prop :=
  ∃ a rings, t.Represents a rings ∧ a.Valid hash ∧ ∀ key, a.get key (hash key) = m key

variable {hash : κ → ℕ} {t : RingTable κ δ} {m : κ → Option δ}

/-- A new table has no bindings. -/
theorem refines_create {cmp : κ → κ → ℤ} (hcmp : ∀ a b, cmp a b = 0 ↔ a = b) {spaceSize : ℕ}
    (hpos : 1 ≤ spaceSize) :
    (RingTable.create cmp spaceSize : RingTable κ δ).Refines hash fun _ => none :=
  ⟨_, _, RingTable.represents_create cmp spaceSize, HashTable.valid_create hcmp hpos,
    fun key => HashTable.get_create cmp spaceSize key (hash key)⟩

/-- Inserting a pair. -/
theorem RingTable.Refines.insert [DecidableEq κ] (h : t.Refines hash m) (data : δ) (key : κ)
    (malloc : Bool) : ∃ t', t.exec hash (.insert (some data) key malloc) =
      some (t', (mapExec m (.insert (some data) key malloc)).2) ∧
        t'.Refines hash (mapExec m (.insert (some data) key malloc)).1 := by
  obtain ⟨a, rings, hrep, hvalid, hget⟩ := h
  have hcall := hrep.insert hvalid.pos (some data) key (hash key) malloc
  rcases hvalid.insert_cases key data malloc with
    ⟨hnew, hmalloc, a', hinsert, hvalid', hget'⟩ | ⟨hnot, hinsert⟩
  · have hfree : ¬(m key ≠ none ∨ malloc = false) := by
      rw [← hget, hnew, hmalloc]
      simp
    rcases hcall with ⟨hfailed, -⟩ | ⟨a'', t', rings', heq, hins, hrep'⟩
    · cases hinsert.symm.trans hfailed
    obtain rfl := Option.some.inj (hinsert.symm.trans heq)
    refine ⟨t', by rw [mapExec, if_neg hfree, RingTable.exec, hins]; rfl, a', rings', hrep',
      hvalid', fun k => ?_⟩
    rw [mapExec, if_neg hfree]
    ext d
    show _ ↔ Function.update m key (some data) k = some d
    rw [hget', Function.update_apply, hget]
    split
    · next hk =>
      -- the new key was not there before
      rw [hk, ← hget, hnew]
      simp [eq_comm]
    · next hk => simp [hk]
  · have htaken : m key ≠ none ∨ malloc = false := by
      rw [← hget]
      by_cases hmalloc : malloc = true
      · exact .inl fun hnone => hnot ⟨hnone, hmalloc⟩
      · exact .inr (by simpa using hmalloc)
    rcases hcall with ⟨-, t', hins, hrep'⟩ | ⟨a', -, -, hins, -⟩
    · refine ⟨t', by rw [mapExec, if_pos htaken, RingTable.exec, hins]; rfl, ?_⟩
      rw [mapExec, if_pos htaken]
      exact ⟨a, rings, hrep', hvalid, hget⟩
    · cases hinsert.symm.trans hins

/-- Removing a key. -/
theorem RingTable.Refines.remove [DecidableEq κ] (h : t.Refines hash m) (key : κ) :
    ∃ t', t.exec hash (.remove key) = some (t', .ofData (m key)) ∧
      t'.Refines hash (Function.update m key none) := by
  obtain ⟨a, rings, hrep, hvalid, hget⟩ := h
  have hcall := hrep.remove hvalid.pos key (hash key)
  rcases hkey : m key with _ | data
  · have hnone : a.remove key (hash key) = none := HashTable.remove_eq_none ((hget key).trans hkey)
    rcases hcall with ⟨-, hrem⟩ | ⟨a', _, -, -, hsome, -⟩
    · refine ⟨t, by rw [RingTable.exec, hrem]; rfl, a, rings, hrep, hvalid, fun k => ?_⟩
      rw [hget, ← hkey, Function.update_eq_self]
    · cases hnone.symm.trans hsome
  · obtain ⟨a', hremove, hvalid', hget'⟩ := hvalid.remove ((hget key).trans hkey)
    rcases hcall with ⟨hnone, -⟩ | ⟨a'', _, t', rings', hsome, hrem, hrep'⟩
    · cases hnone.symm.trans hremove
    obtain ⟨rfl, rfl⟩ := Prod.mk.inj (Option.some.inj (hremove.symm.trans hsome))
    refine ⟨t', by rw [RingTable.exec, hrem]; rfl, a', rings', hrep', hvalid', fun k => ?_⟩
    ext d
    rw [hget', Function.update_apply, hget]
    split
    · next hk => simp [hk]
    · next hk => simp [hk]

/-- One call does to the bindings what it does to the map. -/
theorem RingTable.Refines.exec [DecidableEq κ] (h : t.Refines hash m) (op : HashOp κ δ) :
    ∃ t', t.exec hash op = some (t', (mapExec m op).2) ∧ t'.Refines hash (mapExec m op).1 := by
  rcases op with ⟨_ | data, key, malloc⟩ | key | key
  · exact ⟨t, rfl, h⟩
  · exact h.insert data key malloc
  · refine ⟨t, ?_, h⟩
    obtain ⟨a, rings, hrep, hvalid, hget⟩ := h
    rw [RingTable.exec, hrep.get hvalid.pos, hget]
    rfl
  · exact h.remove key

/-- Calls on the table return what they return on a map with the same bindings. -/
theorem RingTable.Refines.replies [DecidableEq κ] (h : t.Refines hash m)
    (ops : List (HashOp κ δ)) : t.replies hash ops = some (mapReplies m ops) := by
  induction ops generalizing t m with
  | nil => rfl
  | cons op ops ih =>
    obtain ⟨t', hcall, h'⟩ := h.exec op
    rw [RingTable.replies, hcall]
    simp only [ih h']
    rfl

/-- For every size from 1 on, every comparison that is zero exactly on equal keys, and every
sequence of calls that pass each key with its hash, on a table as it is created: all calls return,
and they return what they return on a finite map that is empty at first. -/
theorem replies_eq_mapReplies [DecidableEq κ] (hash : κ → ℕ) {cmp : κ → κ → ℤ}
    (hcmp : ∀ a b, cmp a b = 0 ↔ a = b) {spaceSize : ℕ} (hpos : 1 ≤ spaceSize)
    (ops : List (HashOp κ δ)) :
    (RingTable.create cmp spaceSize).replies hash ops = some (mapReplies (fun _ => none) ops) :=
  (refines_create hcmp hpos).replies ops

/-- Two keys in the one ring there is; the head is removed. -/
theorem replies_one_ring :
    (RingTable.create cliHashStrCmp 1).replies HashStr.key
        [.insert (some 'p') (.fromStr (str "port")) true,
          .insert (some 'w') (.fromStr (str "workers-nr")) true, .remove (.fromStr (str "port")),
          .get (.fromStr (str "workers-nr")), .get (.fromStr (str "port"))] =
      some [.done, .done, .data 'p', .data 'w', .failed] := by
  rw [replies_eq_mapReplies HashStr.key cliHashStrCmp_eq_zero (by decide)]
  decide

end Runs

end Qkmetisc.CommandLine
