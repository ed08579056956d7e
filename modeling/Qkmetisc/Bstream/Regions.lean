import Mathlib.Data.Set.Lattice
import Mathlib.Order.CompletePartialOrder
import Qkmetisc.Bstream.Queue

/-!
# The memory that callbacks are handed

A reader of a stream is handed a region of a buffer to fill, and a writer a region to take bytes
from. The regions are computed from the fields of the buffer, which every partial transfer moves,
and `bstream_buffer_copied_write` and `bstream_buffer_copied_read` assert afterwards that the fields
of a copied buffer still add up.

## Main definitions

* `Region`, `Buffer.readerRegion`, `Buffer.writerRegion`: what a buffer hands over.
* `Handing`, `Bstream.readerHandings`, `Bstream.writerHandings`: the calls of an operation, with the
  chain at each of them.
* `unreadBytes`: the bytes of a chain that can still be read, as places in memory.
* `Bstream.RegionsRight`: what holds of a stream and of every call that an operation makes on it.

## Main results

* `Buffer.readerHanding_right`, `Buffer.writerHanding_right`: the call of one buffer.
* `Bstream.readerHandings_right`, `Bstream.passHandings_right`: the calls of an operation.
* `Bstream.regionsRight_run`: every reachable stream.
-/

namespace Qkmetisc

variable {β σ : Type*}

/-- Some bytes in the memory of a buffer, one behind the other. -/
structure Region where
  start : ℕ
  len : ℕ
  deriving DecidableEq

/-- The positions of the bytes. -/
def Region.positions (r : Region) : Set ℕ := Set.Ico r.start (r.start + r.len)

namespace Buffer

/-- The memory of a buffer: the block that it owns, or what it has borrowed. -/
def memory : Buffer β → List β
  | .borrowed bbb => bbb.borrowedBytes
  | .copied bbc => bbc.bytes

/-- The region of the bytes that can still be read. -/
def unreadRegion : Buffer β → Region
  | .borrowed bbb => { start := bbb.offset, len := bbb.len }
  | .copied bbc => { start := bbc.offset, len := bbc.len }

/-- What `bstream_buffer_write` hands to its reader, none if it does not call it. -/
def readerRegion (bb : Buffer β) (len : ℕ) : Option Region :=
  match bb with
  | .borrowed _ => none
  | .copied bbc =>
    if !bbc.writable then none
    else some { start := bbc.offset + bbc.len, len := min len bbc.freeSpace }

/-- What `bstream_buffer_read` hands to its writer. -/
def writerRegion (bb : Buffer β) (len : ℕ) : Region :=
  match bb with
  | .borrowed bbb => { start := bbb.offset, len := min len bbb.len }
  | .copied bbc => { start := bbc.offset, len := min len bbc.len }

end Buffer

/-- The assertion at the end of `bstream_buffer_copied_write` and `bstream_buffer_copied_read`, with
the sum in a `size_t`. -/
def BufferCopied.asserted (bbc : BufferCopied β) : Bool :=
  (bbc.len + bbc.offset + bbc.freeSpace) % SIZE_T_RANGE = BSTREAM_BUFFER_COPIED_SIZE

/-- A call of a callback. -/
structure Handing (β : Type*) where
  /-- The chain at the call. -/
  chain : List (Buffer β)
  /-- Where in the chain the buffer is that makes the call. -/
  place : ℕ
  /-- What is handed over of its memory. -/
  region : Region
  /-- The buffer when the callback has returned and its fields have been updated. -/
  after : Buffer β

/-- The call that `bstream_buffer_write` makes, if it makes one. -/
def Buffer.readerHanding (bb : Buffer β) (front : List (Buffer β)) (r : Reader σ β) (s : σ)
    (len : ℕ) : List (Handing β) :=
  match bb.readerRegion len with
  | none => []
  | some region =>
    [{ chain := front ++ [bb], place := front.length, region, after := (bb.write r s len).2.1 }]

/-- The call that `bstream_buffer_read` makes for the first buffer of a chain. -/
def Buffer.writerHanding (bb : Buffer β) (rest : List (Buffer β)) (w : Writer σ β) (s : σ)
    (len : ℕ) : Handing β where
  chain := bb :: rest
  place := 0
  region := bb.writerRegion len
  after := (bb.read w s len).2.1

namespace Bstream

/-- The calls of its reader that the loop of `bstream_write` makes, with this chain before it. -/
def loopHandings (chain : List (Buffer β)) (r : Reader σ β) (s : σ) (remain : ℕ)
    (mem : ℕ → Malloc β) (k : ℕ) : List (Handing β) :=
  match h : BufferCopied.create (mem k) with
  | none => []
  | some bb =>
    let out := bb.write r s remain
    Buffer.readerHanding (.copied bb) chain r s remain ++
      if hstop : out.2.1.writable || out.1 = remain then []
      else loopHandings (chain ++ [.copied out.2.1]) r out.2.2 (remain - out.1) mem (k + 1)
  termination_by remain
  decreasing_by exact BufferCopied.remain_lt h hstop

/-- The calls of its reader that `bstream_write` makes. -/
def readerHandings (bs : Bstream β) (r : Reader σ β) (s : σ) (len : ℕ) (mem : ℕ → Malloc β) :
    List (Handing β) :=
  if SIZE_T_RANGE ≤ bs.totalLen + len then []
  else
    match bs.chain.getLast? with
    | none => loopHandings bs.chain r s len mem 0
    | some lbb =>
      let out := lbb.write r s len
      lbb.readerHanding bs.chain.dropLast r s len ++
        if out.2.1.writable || out.1 = len then []
        else loopHandings (bs.chain.dropLast ++ [out.2.1]) r out.2.2 (len - out.1) mem 0

/-- The calls of its writer that the loop of `bstream_read` makes. A buffer that has been passed is
not in the chain any more. -/
def passHandings (w : Writer σ β) (remain : ℕ) : List (Buffer β) → σ → List (Handing β)
  | [], _ => []
  | bb :: rest, s =>
    let out := bb.read w s remain
    bb.writerHanding rest w s remain ::
      if out.2.1.readable then []
      else if out.1 = remain then []
      else passHandings w remain rest out.2.2

/-- The calls of its writer that `bstream_read` makes. -/
def writerHandings (bs : Bstream β) (w : Writer σ β) (s : σ) (len : ℕ) : List (Handing β) :=
  passHandings w len bs.chain s

end Bstream

/-! ## What is right about a call -/

/-- A byte of a chain: the place of a buffer, and a position in its memory. -/
abbrev BytePlace := ℕ × ℕ

/-- The bytes of a chain that can still be read. -/
def unreadBytes (chain : List (Buffer β)) : Set BytePlace :=
  {p | ∃ bb, chain[p.1]? = some bb ∧ p.2 ∈ bb.unreadRegion.positions}

/-- The fields of every copied buffer add up. -/
def SumsRight (chain : List (Buffer β)) : Prop :=
  ∀ bbc, Buffer.copied bbc ∈ chain →
    bbc.offset + bbc.len + bbc.freeSpace = BSTREAM_BUFFER_COPIED_SIZE

namespace Handing

/-- The bytes that are handed over, as bytes of the chain. -/
def bytes (c : Handing β) : Set BytePlace := {c.place} ×ˢ c.region.positions

/-- The bytes that are handed over, by their values. -/
def content (c : Handing β) : List β :=
  loadAt ((c.chain[c.place]?.map Buffer.memory).getD []) c.region.start c.region.len

/-- What is right about a call of a reader. -/
structure ReaderRight (c : Handing β) : Prop where
  sums : SumsRight c.chain
  /-- The region lies inside the block of a copied buffer. -/
  inside : ∃ bbc, c.chain[c.place]? = some (.copied bbc) ∧
    bbc.bytes.length = BSTREAM_BUFFER_COPIED_SIZE ∧
      c.region.start + c.region.len ≤ BSTREAM_BUFFER_COPIED_SIZE
  /-- It overlaps no byte that can still be read. -/
  free : Disjoint c.bytes (unreadBytes c.chain)
  /-- The buffer is the last one. -/
  last : c.place + 1 = c.chain.length
  /-- The reader stores from the start of the region on, and not past its end. -/
  stored : ∃ bb data, c.chain[c.place]? = some bb ∧ data.length ≤ c.region.len ∧
    c.after.memory = storeAt bb.memory c.region.start data
  asserted : ∃ bbc, c.after = .copied bbc ∧ bbc.asserted = true

/-- What is right about a call of a writer. -/
structure WriterRight (c : Handing β) : Prop where
  sums : SumsRight c.chain
  /-- The region consists of bytes that can still be read. -/
  unread : c.bytes ⊆ unreadBytes c.chain
  /-- These are in the memory of the buffer, which is not written to. -/
  kept : ∃ bb, c.chain[c.place]? = some bb ∧ c.after.memory = bb.memory ∧
    c.region.start + c.region.len ≤ bb.memory.length
  asserted : ∀ bbc, c.after = .copied bbc → bbc.asserted = true

end Handing

namespace Bstream

/-- What an operation leaves as it was: a write all buffers but the last, and a read the memory of
the buffers that it does not take out at the front. -/
def Unwritten {β : Type} (bs : Bstream β) : StreamOp β → Prop
  | .writeBorrow buf mem => bs.chain <+: (bs.writeBorrow buf mem).2.chain
  | .write r s len mem => bs.chain.dropLast <+: (bs.write r s len mem).2.1.chain
  | .read w s len =>
    (bs.read w s len).2.1.chain.map Buffer.memory <:+ bs.chain.map Buffer.memory
  | .flush => bs.flush.chain = []

/-- What holds of a stream, and of the calls that an operation on it makes. -/
structure RegionsRight {β : Type} (bs : Bstream β) : Prop where
  sums : SumsRight bs.chain
  reader : ∀ {σ : Type} (r : Reader σ β) (s : σ) (len : ℕ) (mem : ℕ → Malloc β),
    ∀ c ∈ bs.readerHandings r s len mem, c.ReaderRight
  writer : ∀ {σ : Type} (w : Writer σ β) (s : σ) (len : ℕ),
    ∀ c ∈ bs.writerHandings w s len, c.WriterRight
  /-- These are the calls that are made: a reader is asked for as many bytes as there are in the
  region. -/
  asked : ∀ {σ : Type} (r : Reader σ β) (s : σ) (len : ℕ) (mem : ℕ → Malloc β),
    (bs.readerHandings r s len mem).map (·.region.len) =
      (bs.readerCalls r s len mem).map Prod.fst
  /-- And a writer is offered the bytes of the region. -/
  offered : ∀ {σ : Type} (w : Writer σ β) (s : σ) (len : ℕ),
    (bs.writerHandings w s len).map (·.content) = (bs.writerCalls w s len).map Prod.fst
  unwritten : ∀ op, bs.Unwritten op

end Bstream

section Buffers

variable {chain front rest : List (Buffer β)} {bb : Buffer β} {bbc : BufferCopied β}

theorem sumsRight_of_wf (h : ∀ bb ∈ chain, bb.WF) : SumsRight chain := by
  intro bbc hmem
  have hwf : bbc.WF := h (.copied bbc) hmem
  exact hwf.sum

theorem BufferCopied.WF.asserted (h : bbc.WF) : bbc.asserted = true := by
  have hsum : bbc.len + bbc.offset + bbc.freeSpace = BSTREAM_BUFFER_COPIED_SIZE := by
    rw [Nat.add_comm bbc.len]
    exact h.sum
  rw [BufferCopied.asserted, hsum]
  decide

/-- The unread bytes of a buffer are in its memory. -/
theorem Buffer.WF.unreadRegion_le (h : bb.WF) :
    bb.unreadRegion.start + bb.unreadRegion.len ≤ bb.memory.length := by
  cases bb with
  | borrowed bbb => exact h
  | copied bbc =>
    have hsize := BufferCopied.WF.size h
    have hsum := BufferCopied.WF.sum h
    simp only [Buffer.unreadRegion, Buffer.memory]
    omega

theorem Buffer.WF.write (h : bb.WF) (r : Reader σ β) (s : σ) (len : ℕ) :
    (bb.write r s len).2.1.WF := by
  obtain ⟨calls, -, hspec⟩ := Buffer.write_spec h r s [] len
  rw [Buffer.write_behaves r.logged_behaves bb (s, []) len]
  exact hspec.wf

/-- A region behind the unread bytes of the last buffer has none of them, nor of any other
buffer. -/
theorem disjoint_unreadBytes {region : Region}
    (hbehind : bb.unreadRegion.start + bb.unreadRegion.len ≤ region.start) :
    Disjoint ({front.length} ×ˢ region.positions) (unreadBytes (front ++ [bb])) := by
  rw [Set.disjoint_left]
  rintro ⟨place, pos⟩ ⟨hplace, hpos⟩ ⟨bb', hbb', hunread⟩
  obtain rfl : place = front.length := hplace
  rw [List.getElem?_concat_length] at hbb'
  obtain rfl : bb = bb' := Option.some.inj hbb'
  have hstart : region.start ≤ pos := hpos.1
  have hend : pos < bb.unreadRegion.start + bb.unreadRegion.len := hunread.2
  omega

/-- The call that the last buffer of a chain makes. -/
theorem Buffer.readerHanding_right (hfront : ∀ bb ∈ front, bb.WF) (h : bb.WF) (r : Reader σ β)
    (s : σ) (len : ℕ) : ∀ c ∈ bb.readerHanding front r s len, c.ReaderRight := by
  cases bb with
  | borrowed bbb => simp [readerHanding, readerRegion]
  | copied bbc =>
    have hwf : bbc.WF := h
    rcases hw : bbc.writable with _ | _
    · -- a full block does not call the reader
      simp [readerHanding, readerRegion, hw]
    · simp only [readerHanding, readerRegion, hw, Bool.not_true, Bool.false_eq_true, if_false]
      intro c hc
      obtain rfl := List.mem_singleton.1 hc
      have hsum := hwf.sum
      -- the free bytes come right behind the unread ones
      refine ⟨sumsRight_of_wf ?_, ⟨bbc, ?_, hwf.size, ?_⟩, disjoint_unreadBytes (Nat.le_refl _),
        ?_, ⟨.copied bbc, _, ?_, r.length_le s (min len bbc.freeSpace), ?_⟩,
        ⟨_, rfl, (Buffer.WF.write h r s len).asserted⟩⟩
      · intro b hb
        rcases List.mem_append.1 hb with hold | hnew
        · exact hfront b hold
        · rw [List.mem_singleton.1 hnew]
          exact h
      · exact List.getElem?_concat_length
      · dsimp only
        omega
      · simp
      · exact List.getElem?_concat_length
      · have hfree : 0 < bbc.freeSpace := bbc.writable_iff.1 hw
        rw [Buffer.write, BufferCopied.write_of_free hfree]
        rfl

/-- It asks for as many bytes as there are in the region. -/
theorem Buffer.WriteSpec.asked {bb' : Buffer β} {len res : ℕ} {calls : List (ReaderCall β)}
    (h : Buffer.WriteSpec bb len calls res bb') (r : Reader σ β) (s : σ) :
    (bb.readerHanding front r s len).map (·.region.len) = calls.map Prod.fst := by
  -- the region is there exactly if there is free space, as the call is
  rcases h.calls_eq with ⟨rfl, hfull⟩ | ⟨hfree, data, rfl, -⟩
  · cases bb with
    | borrowed bbb => rfl
    | copied bbc =>
      have hw : bbc.writable = false := by
        rw [← Bool.not_eq_true, BufferCopied.writable_iff]
        exact Nat.not_lt.2 (Nat.le_of_eq hfull)
      simp [readerHanding, readerRegion, hw]
  · cases bb with
    | borrowed bbb => exact absurd hfree (Nat.lt_irrefl 0)
    | copied bbc =>
      have hw : bbc.writable = true := bbc.writable_iff.2 hfree
      simp [readerHanding, readerRegion, hw, Buffer.freeSpace]

/-- The call that the first buffer of a chain makes. -/
theorem Buffer.writerHanding_right (h : ∀ b ∈ bb :: rest, b.WF) (w : Writer σ β) (s : σ)
    (len : ℕ) : (bb.writerHanding rest w s len).WriterRight := by
  have hbb : bb.WF := h bb List.mem_cons_self
  have hinside := hbb.unreadRegion_le
  have hafter : (bb.read w s len).2.1.WF := (Buffer.read_spec hbb w s len).wf
  -- the region is the front of the unread bytes
  have hregion : (bb.writerRegion len).start = bb.unreadRegion.start ∧
      (bb.writerRegion len).len ≤ bb.unreadRegion.len := by
    cases bb with
    | borrowed bbb => exact ⟨rfl, Nat.min_le_right _ _⟩
    | copied bbc => exact ⟨rfl, Nat.min_le_right _ _⟩
  obtain ⟨hstart, hlen⟩ := hregion
  refine ⟨sumsRight_of_wf h, ?_, ⟨bb, rfl, ?_, ?_⟩, ?_⟩
  · rintro ⟨place, pos⟩ ⟨hplace, hpos⟩
    obtain rfl : place = 0 := hplace
    refine ⟨bb, rfl, ?_⟩
    obtain ⟨hle, hlt⟩ : (bb.writerRegion len).start ≤ pos ∧
        pos < (bb.writerRegion len).start + (bb.writerRegion len).len := hpos
    exact ⟨by omega, by omega⟩
  · cases bb <;> rfl
  · show (bb.writerRegion len).start + (bb.writerRegion len).len ≤ _
    omega
  · intro bbc heq
    have heq : (bb.read w s len).2.1 = .copied bbc := heq
    rw [heq] at hafter
    exact BufferCopied.WF.asserted hafter

end Buffers

namespace Bstream

section Writing

variable {chain : List (Buffer β)} {r : Reader σ β} {s : σ} {remain k : ℕ} {mem : ℕ → Malloc β}

theorem loopHandings_of_none (h : BufferCopied.create (mem k) = none) :
    loopHandings chain r s remain mem k = [] := by
  rw [loopHandings]
  split
  next => rfl
  next bb hsome => simp [h] at hsome

theorem loopHandings_of_some {bb : BufferCopied β} (h : BufferCopied.create (mem k) = some bb) :
    loopHandings chain r s remain mem k =
      Buffer.readerHanding (.copied bb) chain r s remain ++
        if (bb.write r s remain).2.1.writable || (bb.write r s remain).1 = remain then []
        else loopHandings (chain ++ [.copied (bb.write r s remain).2.1]) r
          (bb.write r s remain).2.2 (remain - (bb.write r s remain).1) mem (k + 1) := by
  rw [loopHandings]
  split
  next hnone => simp [h] at hnone
  next bb' hsome =>
    obtain rfl : bb = bb' := Option.some.inj (h.symm.trans hsome)
    rfl

/-- The calls of the loop of `bstream_write`. The induction is on `remain`, which every buffer that
is filled makes smaller. -/
theorem loopHandings_right (r : Reader σ β) (mem : ℕ → Malloc β) (h : ∀ bb ∈ chain, bb.WF) (s : σ)
    (remain k : ℕ) : ∀ c ∈ loopHandings chain r s remain mem k, c.ReaderRight := by
  induction remain using Nat.strong_induction_on generalizing chain s k with
  | _ remain ih =>
    rcases hcreate : BufferCopied.create (mem k) with _ | bb
    · rw [loopHandings_of_none hcreate]
      simp
    · have hbb : Buffer.WF (.copied bb) := (Buffer.wf_create hcreate).1
      rw [loopHandings_of_some hcreate]
      refine List.forall_mem_append.2 ⟨Buffer.readerHanding_right h hbb r s remain, ?_⟩
      split
      next => simp
      next hgo =>
        -- the next block is put behind this one
        have hchain : ∀ b ∈ chain ++ [.copied (bb.write r s remain).2.1], b.WF :=
          List.forall_mem_append.2 ⟨h, List.forall_mem_singleton.2 (hbb.write r s remain)⟩
        exact ih _ (BufferCopied.remain_lt hcreate hgo) hchain _ _

/-- They are the calls that the reader gets. -/
theorem loopHandings_asked (r : Reader σ β) (mem : ℕ → Malloc β) (bs : Bstream β) (s : σ)
    (log : List (ReaderCall β)) (written remain k : ℕ) :
    ∃ calls, (bs.writeLoop r.logged (s, log) written remain mem k).2.2.2 = log ++ calls ∧
      (loopHandings bs.chain r s remain mem k).map (·.region.len) = calls.map Prod.fst := by
  induction remain using Nat.strong_induction_on generalizing bs s log written k with
  | _ remain ih =>
    rw [writeLoop]
    split
    next hnone =>
      rw [loopHandings_of_none hnone]
      exact ⟨[], by simp, rfl⟩
    next bb hsome =>
      have hbb : Buffer.WF (.copied bb) := (Buffer.wf_create hsome).1
      obtain ⟨calls, hlog, hspec⟩ := Buffer.write_spec hbb r s log remain
      have hasked : (Buffer.readerHanding (.copied bb) bs.chain r s remain).map (·.region.len) =
          calls.map Prod.fst := hspec.asked r s
      simp only [Buffer.write] at hlog
      -- the reader does the same whether it is observed or not
      rw [loopHandings_of_some hsome,
        BufferCopied.write_behaves r.logged_behaves bb (s, log) remain]
      simp only
      split
      next hstop => exact ⟨calls, hlog, by simpa using hasked⟩
      next hgo =>
        obtain ⟨calls', hlog', hasked'⟩ := ih (remain - (bb.write r.logged (s, log) remain).1)
          (BufferCopied.remain_lt hsome hgo) { bs with
            chain := bs.chain ++ [.copied (bb.write r.logged (s, log) remain).2.1] }
          (bb.write r.logged (s, log) remain).2.2.1 (bb.write r.logged (s, log) remain).2.2.2
          (written + (bb.write r.logged (s, log) remain).1) (k + 1)
        refine ⟨calls ++ calls', ?_, ?_⟩
        · rw [hlog', hlog, List.append_assoc]
        · rw [List.map_append, List.map_append, hasked, hasked']

/-- The loop leaves the buffers alone that are there before it. -/
theorem prefix_writeLoop (r : Reader σ β) (mem : ℕ → Malloc β) (bs : Bstream β) (s : σ)
    (written remain k : ℕ) : bs.chain <+: (bs.writeLoop r s written remain mem k).2.1.chain := by
  fun_induction writeLoop bs r s written remain mem k with
  | case1 => exact List.prefix_rfl
  | case2 => exact List.prefix_append _ _
  | case3 bs s written remain k bb hsome out bs' hgo ih =>
    exact (List.prefix_append _ _).trans ih

/-- The calls of `bstream_write`. -/
theorem readerHandings_right {bs : Bstream β} (h : bs.WF) (r : Reader σ β) (s : σ) (len : ℕ)
    (mem : ℕ → Malloc β) : ∀ c ∈ bs.readerHandings r s len mem, c.ReaderRight := by
  rw [readerHandings]
  split
  next => simp
  next =>
    split
    next => exact loopHandings_right r mem h s len 0
    next lbb hlast =>
      have hfront : ∀ bb ∈ bs.chain.dropLast, bb.WF :=
        fun bb hbb => h bb (List.dropLast_subset _ hbb)
      have hlbb : lbb.WF := h lbb (List.mem_of_getLast? hlast)
      refine List.forall_mem_append.2 ⟨Buffer.readerHanding_right hfront hlbb r s len, ?_⟩
      split
      next => simp
      next =>
        -- the loop starts with the last buffer as it is after the first call
        refine loopHandings_right r mem (List.forall_mem_append.2 ⟨hfront, ?_⟩) _ _ 0
        exact List.forall_mem_singleton.2 (hlbb.write r s len)

/-- They are the calls that the reader gets. -/
theorem readerHandings_asked {bs : Bstream β} (h : bs.WF) (r : Reader σ β) (s : σ) (len : ℕ)
    (mem : ℕ → Malloc β) :
    (bs.readerHandings r s len mem).map (·.region.len) =
      (bs.write r.logged (s, []) len mem).2.2.2.map Prod.fst := by
  rw [readerHandings, write]
  split
  next => rfl
  next =>
    rcases hlast : bs.chain.getLast? with _ | lbb
    · obtain ⟨calls, hlog, hasked⟩ := loopHandings_asked r mem bs s [] 0 len 0
      simp only
      rw [hlog, hasked, List.nil_append]
    · have hlbb : lbb.WF := h lbb (List.mem_of_getLast? hlast)
      obtain ⟨calls, hlog, hspec⟩ := Buffer.write_spec hlbb r s [] len
      have hasked : (lbb.readerHanding bs.chain.dropLast r s len).map (·.region.len) =
          calls.map Prod.fst := hspec.asked r s
      simp only
      rw [Buffer.write_behaves r.logged_behaves lbb (s, []) len]
      simp only
      split
      next => rw [hlog, List.append_nil, hasked, List.nil_append]
      next =>
        obtain ⟨calls', hlog', hasked'⟩ := loopHandings_asked r mem
          { bs with chain := bs.chain.dropLast ++ [(lbb.write r.logged (s, []) len).2.1] }
          (lbb.write r.logged (s, []) len).2.2.1 (lbb.write r.logged (s, []) len).2.2.2
          (lbb.write r.logged (s, []) len).1 (len - (lbb.write r.logged (s, []) len).1) 0
        rw [hlog', hlog, List.nil_append, List.map_append, List.map_append, hasked, hasked']

/-- A write leaves all buffers but the last as they are. -/
theorem prefix_write (bs : Bstream β) (r : Reader σ β) (s : σ) (len : ℕ) (mem : ℕ → Malloc β) :
    bs.chain.dropLast <+: (bs.write r s len mem).2.1.chain := by
  rw [write]
  split
  next => exact List.dropLast_prefix _
  next =>
    split
    next => exact (List.dropLast_prefix _).trans (prefix_writeLoop r mem bs s 0 len 0)
    next lbb hlast =>
      simp only
      split
      next => exact List.prefix_append _ _
      next =>
        exact (List.prefix_append _ _).trans (prefix_writeLoop r mem
          { bs with chain := bs.chain.dropLast ++ [(lbb.write r s len).2.1] } _ _ _ _)

end Writing

section Reading

variable {chain : List (Buffer β)}

/-- The calls of `bstream_read`, buffer by buffer. -/
theorem passHandings_right (w : Writer σ β) (remain : ℕ) (h : ∀ bb ∈ chain, bb.WF) (s : σ) :
    ∀ c ∈ passHandings w remain chain s, c.WriterRight := by
  induction chain generalizing s with
  | nil => simp [passHandings]
  | cons bb rest ih =>
    have hrest : ∀ b ∈ rest, b.WF := fun b hb => h b (List.mem_cons_of_mem _ hb)
    rw [passHandings]
    refine List.forall_mem_cons.2 ⟨Buffer.writerHanding_right h w s remain, ?_⟩
    split
    next => simp
    next =>
      split
      next => simp
      next => exact ih hrest _

/-- What is offered in the call of a buffer is the front of its unread bytes. -/
theorem content_writerHanding (bb : Buffer β) (rest : List (Buffer β)) (w : Writer σ β) (s : σ)
    (remain : ℕ) :
    (bb.writerHanding rest w s remain).content = bb.unread.take (min remain bb.len) := by
  cases bb with
  | borrowed bbb => exact (take_loadAt (Nat.min_le_right _ _)).symm
  | copied bbc => exact (take_loadAt (Nat.min_le_right _ _)).symm

/-- They are the calls that the writer gets. -/
theorem passHandings_offered (w : Writer σ β) (remain : ℕ) (s : σ) (log : List (WriterCall β)) :
    ∃ calls, (readLoop w.logged remain chain (s, log)).2.2.2 = log ++ calls ∧
      (passHandings w remain chain s).map (·.content) = calls.map Prod.fst := by
  induction chain generalizing s log with
  | nil => exact ⟨[], by simp [readLoop], rfl⟩
  | cons bb rest ih =>
    have hlog := Buffer.read_log bb w s log remain
    rw [readLoop, passHandings, Buffer.read_behaves w.logged_behaves bb (s, log) remain,
      List.map_cons, content_writerHanding]
    simp only
    split
    next => exact ⟨_, hlog, rfl⟩
    next =>
      split
      next => exact ⟨_, hlog, rfl⟩
      next =>
        obtain ⟨calls, hlog', hoffered⟩ := ih (bb.read w.logged (s, log) remain).2.2.1
          (bb.read w.logged (s, log) remain).2.2.2
        refine ⟨[(bb.unread.take (min remain bb.len), (bb.read w.logged (s, log) remain).1)] ++
          calls, ?_, ?_⟩
        · rw [hlog', hlog, List.append_assoc]
        · rw [List.map_append, hoffered]
          rfl

theorem memory_read (bb : Buffer β) (w : Writer σ β) (s : σ) (len : ℕ) :
    (bb.read w s len).2.1.memory = bb.memory := by
  cases bb <;> rfl

/-- A read takes buffers out at the front, and leaves the memory of the others as it is. -/
theorem suffix_readLoop (w : Writer σ β) (remain : ℕ) (s : σ) :
    (readLoop w remain chain s).2.1.map Buffer.memory <:+ chain.map Buffer.memory := by
  induction chain generalizing s with
  | nil => exact List.suffix_rfl
  | cons bb rest ih =>
    rw [readLoop]
    simp only
    split
    next =>
      -- the buffer stays in the chain, and only its fields have moved
      have hkept : ((bb.read w s remain).2.1 :: rest).map Buffer.memory =
          (bb :: rest).map Buffer.memory := by
        rw [List.map_cons, List.map_cons, memory_read]
      exact ⟨[], hkept⟩
    next =>
      -- the buffer is empty, and is freed
      split
      next => exact List.suffix_cons _ _
      next => exact (ih _).trans (List.suffix_cons _ _)

end Reading

variable {β : Type} {bs : Bstream β}

theorem unwritten (bs : Bstream β) (op : StreamOp β) : bs.Unwritten op := by
  cases op with
  | writeBorrow buf mem =>
    show bs.chain <+: (bs.writeBorrow buf mem).2.chain
    rw [writeBorrow]
    split
    next => exact List.prefix_rfl
    next =>
      split
      next => exact List.prefix_rfl
      next => exact List.prefix_append _ _
  | write r s len mem => exact prefix_write bs r s len mem
  | read w s len => exact suffix_readLoop w len s
  | flush => rfl

/-- The regions of every stream whose buffers are well-formed are right. -/
theorem WF.regionsRight (h : bs.WF) : bs.RegionsRight where
  sums := sumsRight_of_wf h
  reader := readerHandings_right h
  writer w s len := passHandings_right w len h s
  asked := readerHandings_asked h
  offered w s len := by
    obtain ⟨calls, hlog, hoffered⟩ : ∃ calls, bs.writerCalls w s len = [] ++ calls ∧
        (bs.writerHandings w s len).map (·.content) = calls.map Prod.fst :=
      passHandings_offered w len s []
    rw [hlog, hoffered, List.nil_append]
  unwritten := bs.unwritten

/-- In every stream that any operations of `bstream.h` lead to, with any readers and writers that
keep to what they are asked for and offered: the fields of the copied buffers add up, and in any
operation that follows no assertion fails, readers are handed free bytes of the block of the last
buffer, writers are handed unread bytes, and no other buffer is written to. -/
theorem regionsRight_run (ops : List (StreamOp β)) :
    (InputMachine.run exec (create : Bstream β) ops).RegionsRight :=
  (run_valid ops).wf.regionsRight

end Bstream

end Qkmetisc
