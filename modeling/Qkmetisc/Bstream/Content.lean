import Qkmetisc.Bstream.Observed

/-!
# What the buffers of a stream hold

The unread bytes of a buffer, the well-formedness of its offsets, and the effect of one write
and one read on both.

## Main definitions

* `Buffer.unread`, `Bstream.content`: the bytes that can still be read, in order.
* `Buffer.WF`, `Bstream.WF`: the offsets stay inside the memory of the buffer.

## Main results

* `Buffer.write_spec`, `Buffer.read_spec`: a write appends what the reader stored to the unread
  bytes, a read takes what the writer accepted from their front.
-/

namespace Qkmetisc

variable {β σ : Type*}

/-! ## Memory blocks -/

/-- A load inside a block has the length asked for. -/
theorem length_loadAt {block : List β} {pos len : ℕ} (h : pos + len ≤ block.length) :
    (loadAt block pos len).length = len := by
  simp only [loadAt, List.length_take, List.length_drop]
  omega

/-- Loading across the end of the bytes before `pos + len` and what was stored there. -/
theorem loadAt_storeAt {block data : List β} {pos len : ℕ}
    (h : pos + len + data.length ≤ block.length) :
    loadAt (storeAt block (pos + len) data) pos (len + data.length) =
      loadAt block pos len ++ data := by
  have hlen : (block.take (pos + len)).length = pos + len := by
    rw [List.length_take]
    omega
  have hdrop : (block.take (pos + len)).drop pos = (block.drop pos).take len := by
    rw [List.drop_take]
    congr 1
    omega
  -- what the load skips and the old part of it lie before the stored bytes
  rw [loadAt, loadAt, storeAt, List.append_assoc, List.drop_append_of_le_length (by omega), hdrop,
    ← List.append_assoc]
  refine List.take_left' ?_
  simp only [List.length_append, List.length_take, List.length_drop]
  omega

/-- A load splits at any point inside it. -/
theorem loadAt_split {block : List β} {pos len k : ℕ} (h : k ≤ len) :
    loadAt block pos len = loadAt block pos k ++ loadAt block (pos + k) (len - k) := by
  rw [loadAt, loadAt, loadAt, ← List.drop_drop]
  conv_lhs => rw [show len = k + (len - k) by omega]
  exact List.take_add

/-- The front of a load is a shorter load. -/
theorem take_loadAt {block : List β} {pos len k : ℕ} (h : k ≤ len) :
    (loadAt block pos len).take k = loadAt block pos k := by
  rw [loadAt, loadAt, List.take_take, Nat.min_eq_left h]

/-! ## Buffers -/

namespace Buffer

/-- The bytes of a buffer that can still be read. -/
def unread : Buffer β → List β
  | .borrowed bbb => loadAt bbb.borrowedBytes bbb.offset bbb.len
  | .copied bbc => loadAt bbc.bytes bbc.offset bbc.len

/-- The `len` field of a buffer. -/
def len : Buffer β → ℕ
  | .borrowed bbb => bbb.len
  | .copied bbc => bbc.len

/-- The `free_space` field of a buffer; a borrowed one has none. -/
def freeSpace : Buffer β → ℕ
  | .borrowed _ => 0
  | .copied bbc => bbc.freeSpace

end Buffer

/-- The fields of a copied buffer describe its block. -/
structure BufferCopied.WF (bbc : BufferCopied β) : Prop where
  /-- The block has the size it was allocated with. -/
  size : bbc.bytes.length = BSTREAM_BUFFER_COPIED_SIZE
  /-- `offset + len + free_space == BSTREAM_BUFFER_COPIED_SIZE`. -/
  sum : bbc.offset + bbc.len + bbc.freeSpace = BSTREAM_BUFFER_COPIED_SIZE

/-- The fields of a borrowed buffer stay inside the memory it borrows. -/
def BufferBorrowed.WF (bbb : BufferBorrowed β) : Prop :=
  bbb.offset + bbb.len ≤ bbb.borrowedBytes.length

namespace Buffer

/-- The fields of a buffer describe its memory. -/
def WF : Buffer β → Prop
  | .borrowed bbb => bbb.WF
  | .copied bbc => bbc.WF

/-- The length of a well-formed buffer is the number of its unread bytes. -/
theorem WF.length_unread {bb : Buffer β} (h : bb.WF) : bb.unread.length = bb.len := by
  cases bb with
  | borrowed bbb => exact length_loadAt h
  | copied bbc =>
    have hsize := h.size
    have hsum := h.sum
    exact length_loadAt (by omega)

/-- A new copied buffer is well formed, empty and free throughout. -/
theorem wf_create {mem : Malloc β} {bbc : BufferCopied β}
    (h : BufferCopied.create mem = some bbc) :
    bbc.WF ∧ bbc.len = 0 ∧ bbc.freeSpace = BSTREAM_BUFFER_COPIED_SIZE := by
  simp only [BufferCopied.create, Option.map_eq_some_iff] at h
  obtain ⟨block, -, rfl⟩ := h
  exact ⟨⟨block.2, by simp⟩, rfl, rfl⟩

@[simp]
theorem readable_iff (bb : Buffer β) : bb.readable = true ↔ 0 < bb.len := by
  cases bb <;> simp [readable, len, BufferBorrowed.readable, BufferCopied.readable]

@[simp]
theorem writable_iff (bb : Buffer β) : bb.writable = true ↔ 0 < bb.freeSpace := by
  cases bb <;> simp [writable, freeSpace]

end Buffer

/-- A block that has been filled leaves less to write. -/
theorem BufferCopied.remain_lt {mem : Malloc β} {bb : BufferCopied β}
    (h : BufferCopied.create mem = some bb) {r : Reader σ β} {s : σ} {remain : ℕ}
    (hgo : ¬((bb.write r s remain).2.1.writable || decide ((bb.write r s remain).1 = remain)) =
      true) : remain - (bb.write r s remain).1 < remain := by
  obtain ⟨-, -, hfree⟩ := Buffer.wf_create h
  simp only [Bool.or_eq_true, decide_eq_true_eq, not_or, Bool.not_eq_true] at hgo
  have hall := BufferCopied.le_write_of_not_writable hgo.1
  have hle : (bb.write r s remain).1 ≤ remain := BufferCopied.write_le
  have hsize : 0 < BSTREAM_BUFFER_COPIED_SIZE := by decide
  omega

/-- Storing into the free space of a copied buffer appends to its unread bytes. -/
theorem BufferCopied.push_spec {bbc : BufferCopied β} {data : List β} (h : bbc.WF)
    (hfit : data.length ≤ bbc.freeSpace) :
    (bbc.push data).WF ∧
      Buffer.unread (.copied (bbc.push data)) = Buffer.unread (.copied bbc) ++ data := by
  have hsize := h.size
  have hsum := h.sum
  have hroom : bbc.offset + bbc.len + data.length ≤ bbc.bytes.length := by omega
  refine ⟨⟨?_, ?_⟩, loadAt_storeAt hroom⟩
  · exact (length_storeAt hroom).trans hsize
  · simp only [BufferCopied.push]
    omega

namespace Buffer

/-- What `Buffer.write` does: the reader's calls store bytes, at most `len` of them and at most
the free space, and exactly these are appended to the unread bytes. A buffer without free space
makes no call; otherwise there is one, for the smaller of `len` and the free space. -/
structure WriteSpec (bb : Buffer β) (len : ℕ) (calls : List (ReaderCall β)) (res : ℕ)
    (bb' : Buffer β) : Prop where
  wf : bb'.WF
  unread : bb'.unread = bb.unread ++ storedBytes calls
  res_eq : res = (storedBytes calls).length
  freeSpace : bb'.freeSpace + res = bb.freeSpace
  calls_eq : calls = [] ∧ bb.freeSpace = 0 ∨
    0 < bb.freeSpace ∧ ∃ data, calls = [(min len bb.freeSpace, data)] ∧
      data.length ≤ min len bb.freeSpace

/-- A write to a well-formed buffer through an observed reader. -/
theorem write_spec {bb : Buffer β} (h : bb.WF) (r : Reader σ β) (s : σ)
    (log : List (ReaderCall β)) (len : ℕ) :
    ∃ calls, (bb.write r.logged (s, log) len).2.2.2 = log ++ calls ∧
      WriteSpec bb len calls (bb.write r.logged (s, log) len).1
        (bb.write r.logged (s, log) len).2.1 := by
  cases bb with
  | borrowed bbb => exact ⟨[], by simp [write], ⟨h, by simp [write], rfl, rfl, .inl ⟨rfl, rfl⟩⟩⟩
  | copied bbc =>
    -- the reader is called exactly if there is free space
    rcases Nat.eq_zero_or_pos bbc.freeSpace with hfull | hfree
    · refine ⟨[], ?_, ?_⟩
      · simp [write, BufferCopied.write_of_full hfull]
      · refine ⟨?_, ?_, ?_, ?_, .inl ⟨rfl, hfull⟩⟩ <;>
          simp [write, BufferCopied.write_of_full hfull, h, hfull, Buffer.freeSpace]
    · have hlen := r.length_le s (min len bbc.freeSpace)
      have hpush := BufferCopied.push_spec h (hlen.trans (Nat.min_le_right _ _))
      refine ⟨[(min len bbc.freeSpace, (r.call s (min len bbc.freeSpace)).1)], ?_, ?_⟩
      · simp [write, BufferCopied.write_of_free hfree, Reader.logged]
      · simp only [write, BufferCopied.write_of_free hfree, Reader.logged]
        refine ⟨hpush.1, by simpa using hpush.2, by simp, ?_, .inr ⟨hfree, _, rfl, hlen⟩⟩
        simp only [Buffer.freeSpace, BufferCopied.push]
        omega

/-- What a buffer with free space takes is the reader's answer to one call. -/
theorem write_fst {bb : Buffer β} (h : 0 < bb.freeSpace) (r : Reader σ β) (s : σ) (len : ℕ) :
    (bb.write r s len).1 = (r.call s (min len bb.freeSpace)).1.length := by
  cases bb with
  | borrowed bbb => simp [freeSpace] at h
  | copied bbc =>
    simp only [write, BufferCopied.write_of_free h]
    rfl

/-- A buffer never takes more than the write asks for. -/
theorem write_le {bb : Buffer β} {r : Reader σ β} {s : σ} {len : ℕ} :
    (bb.write r s len).1 ≤ len := by
  cases bb with
  | borrowed bbb => exact Nat.zero_le _
  | copied bbc => exact BufferCopied.write_le

/-- What `Buffer.read` does: the writer is called once, with the first `min remain len` unread
bytes, and exactly the bytes it accepts are taken from the front. -/
structure ReadSpec (bb : Buffer β) (remain : ℕ) (res : ℕ) (bb' : Buffer β) : Prop where
  wf : bb'.WF
  unread : bb.unread.take res ++ bb'.unread = bb.unread
  len : bb'.len + res = bb.len
  res_le : res ≤ min remain bb.len

/-- A read from a well-formed buffer. -/
theorem read_spec {bb : Buffer β} (h : bb.WF) (w : Writer σ β) (s : σ) (remain : ℕ) :
    ReadSpec bb remain (bb.read w s remain).1 (bb.read w s remain).2.1 := by
  cases bb with
  | borrowed bbb =>
    have hwf : bbb.offset + bbb.len ≤ bbb.borrowedBytes.length := h
    have hle := w.le_length s (loadAt bbb.borrowedBytes bbb.offset (min remain bbb.len))
    rw [length_loadAt (by omega)] at hle
    -- offset and length move by the same amount
    refine ⟨?_, ?_, ?_, hle⟩
    · simp only [read, BufferBorrowed.read, WF, BufferBorrowed.WF]
      omega
    · simp only [read, BufferBorrowed.read, unread]
      rw [take_loadAt (by omega), ← loadAt_split (by omega)]
    · simp only [read, BufferBorrowed.read, Buffer.len]
      omega
  | copied bbc =>
    have hsize := h.size
    have hsum := h.sum
    have hle := w.le_length s (loadAt bbc.bytes bbc.offset (min remain bbc.len))
    rw [length_loadAt (by omega)] at hle
    refine ⟨⟨hsize, ?_⟩, ?_, ?_, hle⟩
    · simp only [BufferCopied.read]
      omega
    · simp only [read, BufferCopied.read, unread]
      rw [take_loadAt (by omega), ← loadAt_split (by omega)]
    · simp only [read, BufferCopied.read, Buffer.len]
      omega

/-- The call a read makes, as its log shows it. -/
theorem read_log (bb : Buffer β) (w : Writer σ β) (s : σ) (log : List (WriterCall β))
    (remain : ℕ) :
    (bb.read w.logged (s, log) remain).2.2.2 =
      log ++ [(bb.unread.take (min remain bb.len), (bb.read w.logged (s, log) remain).1)] := by
  cases bb with
  | borrowed bbb =>
    simp only [read, BufferBorrowed.read, Writer.logged, unread, Buffer.len]
    rw [take_loadAt (Nat.min_le_right _ _)]
  | copied bbc =>
    simp only [read, BufferCopied.read, Writer.logged, unread, Buffer.len]
    rw [take_loadAt (Nat.min_le_right _ _)]

/-- The answer to that call is the writer's, and so is the next state. -/
theorem read_answer (bb : Buffer β) (w : Writer σ β) (s : σ) (log : List (WriterCall β))
    (remain : ℕ) :
    (bb.read w.logged (s, log) remain).1 =
        (w.call s (bb.unread.take (min remain bb.len))).1 ∧
      (bb.read w.logged (s, log) remain).2.2.1 =
        (w.call s (bb.unread.take (min remain bb.len))).2 := by
  cases bb with
  | borrowed bbb =>
    simp only [read, BufferBorrowed.read, Writer.logged, unread, Buffer.len]
    rw [take_loadAt (Nat.min_le_right _ _)]
    exact ⟨rfl, rfl⟩
  | copied bbc =>
    simp only [read, BufferCopied.read, Writer.logged, unread, Buffer.len]
    rw [take_loadAt (Nat.min_le_right _ _)]
    exact ⟨rfl, rfl⟩

end Buffer

/-! ## Streams -/

namespace Bstream

/-- The bytes of a chain that can still be read. -/
def chainContent (chain : List (Buffer β)) : List β := chain.flatMap Buffer.unread

/-- The bytes of a stream that can still be read, in order. -/
def content (bs : Bstream β) : List β := chainContent bs.chain

/-- Every buffer of the chain is well formed. -/
def WF (bs : Bstream β) : Prop := ∀ bb ∈ bs.chain, bb.WF

@[simp]
theorem chainContent_nil : chainContent ([] : List (Buffer β)) = [] := rfl

@[simp]
theorem chainContent_cons (bb : Buffer β) (chain : List (Buffer β)) :
    chainContent (bb :: chain) = bb.unread ++ chainContent chain := by
  simp [chainContent]

@[simp]
theorem chainContent_append (l l' : List (Buffer β)) :
    chainContent (l ++ l') = chainContent l ++ chainContent l' := by
  simp [chainContent]

/-- The readable bytes are as many as the `len` fields of the chain say. -/
theorem WF.length_content {bs : Bstream β} (h : bs.WF) :
    bs.content.length = (bs.chain.map Buffer.len).sum := by
  obtain ⟨chain, totalLen⟩ := bs
  -- the counter of the stream plays no part
  induction chain with
  | nil => rfl
  | cons bb rest ih =>
    have hbb : bb.WF := h bb List.mem_cons_self
    have hrest : WF ⟨rest, totalLen⟩ := fun b hb => h b (List.mem_cons_of_mem _ hb)
    have hih := ih hrest
    simp only [content] at hih ⊢
    simp [hbb.length_unread, hih]

end Bstream

end Qkmetisc
