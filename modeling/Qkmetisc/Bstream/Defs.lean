import Mathlib.Data.List.Basic
import Mathlib.Data.Vector.Basic

/-!
# The byte stream

`bstream/bstream.c`: a chain of buffers, each either a copied block of
`BSTREAM_BUFFER_COPIED_SIZE` bytes or a borrowed piece of somebody else's memory, and a counter
`total_len` of the bytes that can be read.

The stream moves bytes without looking at them, so the model is generic in the type `β` of a
byte. `size_t` values are natural numbers; the two places where the source can wrap, the sum of
the bytes read and the counter, are reduced modulo `SIZE_T_RANGE`. The chain (`list/list.h`) is
the list of its buffers from `head` to `tail`.

Callbacks are parameters: a `Reader` stores at most what it was asked for and a `Writer`
accepts at most what it was offered, both with a state of their own. Each allocation of a copied
buffer is answered by the caller of an operation, with the old contents of the block or with
nothing.

## Main definitions

* `BufferCopied`, `BufferBorrowed`, `Buffer`: the two kinds of buffer and their operations.
* `Bstream.create`, `Bstream.writeBorrow`, `Bstream.write`, `Bstream.read`, `Bstream.flush`:
  the operations of `bstream.h`.
* `Op`, `exec`: one call of an operation, as the step of a machine.
-/

namespace Qkmetisc

/-- The number of values of `size_t` (LP64). -/
def SIZE_T_RANGE : ℕ := 2 ^ 64

/-- `BSTREAM_BUFFER_COPIED_SIZE`. -/
def BSTREAM_BUFFER_COPIED_SIZE : ℕ := 256

/-- `bstream_reader_t` with its `arg`: asked for `len` bytes in state `s`, it stores some list
of at most `len` bytes and moves to a new state. -/
structure Reader (σ β : Type*) where
  /-- The bytes stored and the next state. -/
  call : σ → ℕ → List β × σ
  /-- A reader stores at most what it was asked for. -/
  length_le : ∀ s len, (call s len).1.length ≤ len

/-- `bstream_writer_t` with its `arg`: offered the bytes `src` in state `s`, it accepts some
number of them, from the front, and moves to a new state. -/
structure Writer (σ β : Type*) where
  /-- The number of bytes accepted and the next state. -/
  call : σ → List β → ℕ × σ
  /-- A writer accepts at most what it was offered. -/
  le_length : ∀ s src, (call s src).1 ≤ src.length

/-- What `malloc` answers when a copied buffer is created: nothing, or a block whose contents
are whatever was left there. -/
abbrev Malloc (β : Type*) := Option {block : List β // block.length = BSTREAM_BUFFER_COPIED_SIZE}

/-! ## Buffers -/

/-- `struct bstream_buffer_borrowed`. -/
structure BufferBorrowed (β : Type*) where
  /-- The memory borrowed by the buffer. -/
  borrowedBytes : List β
  /-- Already read bytes count. -/
  offset : ℕ
  /-- Available to read bytes count. -/
  len : ℕ

/-- `struct bstream_buffer_copied`. -/
structure BufferCopied (β : Type*) where
  /-- The block owned by the buffer. -/
  bytes : List β
  /-- Already read bytes count. -/
  offset : ℕ
  /-- Available to read bytes count. -/
  len : ℕ
  /-- Available to write bytes count. -/
  freeSpace : ℕ

/-- `struct bstream_buffer`: a buffer of one of the two types. -/
inductive Buffer (β : Type*) where
  | borrowed (bbb : BufferBorrowed β)
  | copied (bbc : BufferCopied β)

variable {β σ : Type*}

/-- Store `data` at position `pos` of a block. A store past the end would show as a longer
block. -/
def storeAt (block : List β) (pos : ℕ) (data : List β) : List β :=
  block.take pos ++ data ++ block.drop (pos + data.length)

/-- A store inside a block keeps its length. -/
theorem length_storeAt {block data : List β} {pos : ℕ}
    (h : pos + data.length ≤ block.length) : (storeAt block pos data).length = block.length := by
  simp only [storeAt, List.length_append, List.length_take, List.length_drop]
  omega

/-- The `len` bytes of a block from position `pos` on. -/
def loadAt (block : List β) (pos len : ℕ) : List β :=
  (block.drop pos).take len

namespace BufferCopied

/-- `bstream_buffer_copied_create`. -/
def create (mem : Malloc β) : Option (BufferCopied β) :=
  mem.map fun block =>
    { bytes := block.1, offset := 0, len := 0, freeSpace := BSTREAM_BUFFER_COPIED_SIZE }

/-- `bstream_buffer_copied_writable`. -/
def writable (bbc : BufferCopied β) : Bool := 0 < bbc.freeSpace

/-- `bstream_buffer_copied_readable`. -/
def readable (bbc : BufferCopied β) : Bool := 0 < bbc.len

/-- `bstream_buffer_copied_write`: the bytes written, the buffer and the reader's state. -/
def write (bbc : BufferCopied β) (r : Reader σ β) (s : σ) (len : ℕ) : ℕ × BufferCopied β × σ :=
  if !bbc.writable then (0, bbc, s)
  else
    let bytesToWrite := min len bbc.freeSpace
    let out := r.call s bytesToWrite
    let written := out.1.length
    (written,
      { bbc with
        bytes := storeAt bbc.bytes (bbc.offset + bbc.len) out.1
        freeSpace := bbc.freeSpace - written
        len := bbc.len + written }, out.2)

/-- `bstream_buffer_copied_read`: the bytes read, the buffer and the writer's state. -/
def read (bbc : BufferCopied β) (w : Writer σ β) (s : σ) (len : ℕ) : ℕ × BufferCopied β × σ :=
  let bytesToRead := min len bbc.len
  let out := w.call s (loadAt bbc.bytes bbc.offset bytesToRead)
  (out.1, { bbc with offset := bbc.offset + out.1, len := bbc.len - out.1 }, out.2)

end BufferCopied

namespace BufferBorrowed

/-- `bstream_buffer_borrowed_create`; the allocation succeeds iff `mem`. -/
def create (mem : Bool) (data : List β) (len : ℕ) : Option (BufferBorrowed β) :=
  if mem then some { borrowedBytes := data, offset := 0, len := len } else none

/-- `bstream_buffer_borrowed_readable`. -/
def readable (bbb : BufferBorrowed β) : Bool := 0 < bbb.len

/-- `bstream_buffer_borrowed_read`: the bytes read, the buffer and the writer's state. -/
def read (bbb : BufferBorrowed β) (w : Writer σ β) (s : σ) (len : ℕ) :
    ℕ × BufferBorrowed β × σ :=
  let bytesToRead := min len bbb.len
  let out := w.call s (loadAt bbb.borrowedBytes bbb.offset bytesToRead)
  (out.1, { bbb with offset := bbb.offset + out.1, len := bbb.len - out.1 }, out.2)

end BufferBorrowed

namespace Buffer

/-- `bstream_buffer_write`; a borrowed buffer takes nothing and never calls the reader. -/
def write (bb : Buffer β) (r : Reader σ β) (s : σ) (len : ℕ) : ℕ × Buffer β × σ :=
  match bb with
  | .borrowed bbb => (0, .borrowed bbb, s)
  | .copied bbc =>
    let out := bbc.write r s len
    (out.1, .copied out.2.1, out.2.2)

/-- `bstream_buffer_read`. -/
def read (bb : Buffer β) (w : Writer σ β) (s : σ) (len : ℕ) : ℕ × Buffer β × σ :=
  match bb with
  | .borrowed bbb =>
    let out := bbb.read w s len
    (out.1, .borrowed out.2.1, out.2.2)
  | .copied bbc =>
    let out := bbc.read w s len
    (out.1, .copied out.2.1, out.2.2)

/-- `bstream_buffer_readable`. -/
def readable : Buffer β → Bool
  | .borrowed bbb => bbb.readable
  | .copied bbc => bbc.readable

/-- `bstream_buffer_writable`. -/
def writable : Buffer β → Bool
  | .borrowed _ => false
  | .copied bbc => bbc.writable

end Buffer

namespace BufferCopied

@[simp]
theorem writable_iff (bbc : BufferCopied β) : bbc.writable = true ↔ 0 < bbc.freeSpace := by
  simp [writable]

@[simp]
theorem readable_iff (bbc : BufferCopied β) : bbc.readable = true ↔ 0 < bbc.len := by
  simp [readable]

variable {bbc : BufferCopied β} {r : Reader σ β} {s : σ} {len : ℕ}

/-- A full buffer takes nothing and does not call the reader. -/
theorem write_of_full (h : bbc.freeSpace = 0) : bbc.write r s len = (0, bbc, s) := by
  simp [write, writable, h]

/-- The buffer after `data` has been stored behind its unread bytes. -/
def push (bbc : BufferCopied β) (data : List β) : BufferCopied β :=
  { bbc with
    bytes := storeAt bbc.bytes (bbc.offset + bbc.len) data
    freeSpace := bbc.freeSpace - data.length
    len := bbc.len + data.length }

/-- A buffer with free space calls the reader once, for the smaller of `len` and that space. -/
theorem write_of_free (h : 0 < bbc.freeSpace) :
    bbc.write r s len =
      ((r.call s (min len bbc.freeSpace)).1.length,
        bbc.push (r.call s (min len bbc.freeSpace)).1, (r.call s (min len bbc.freeSpace)).2) := by
  simp [write, push, writable, h]

/-- A write after which there is no free space has taken all there was. -/
theorem le_write_of_not_writable (h : (bbc.write r s len).2.1.writable = false) :
    bbc.freeSpace ≤ (bbc.write r s len).1 := by
  -- a full buffer takes nothing, and there was no space to take
  rcases Nat.eq_zero_or_pos bbc.freeSpace with hfull | hfree
  · omega
  · rw [write_of_free hfree] at h ⊢
    have hleft : ¬ 0 < (bbc.push (r.call s (min len bbc.freeSpace)).1).freeSpace := by
      rw [← writable_iff, Bool.not_eq_true]
      exact h
    exact Nat.le_of_sub_eq_zero (Nat.eq_zero_of_not_pos hleft)

/-- A copied buffer never takes more than the write asks for. -/
theorem write_le : (bbc.write r s len).1 ≤ len := by
  rcases Nat.eq_zero_or_pos bbc.freeSpace with hfull | hfree
  · simp [write_of_full hfull]
  · rw [write_of_free hfree]
    exact (r.length_le s _).trans (Nat.min_le_left _ _)

end BufferCopied

/-! ## The stream -/

/-- `struct bstream`. -/
structure Bstream (β : Type*) where
  /-- The buffers from `head` to `tail`. -/
  chain : List (Buffer β)
  /-- `total_len`. -/
  totalLen : ℕ

namespace Bstream

/-- `bstream_create`, when its allocation succeeds. -/
def create : Bstream β := { chain := [], totalLen := 0 }

/-- `bstream_len`. -/
def len (bs : Bstream β) : ℕ := bs.totalLen

/-- `bstream_empty`. -/
def empty (bs : Bstream β) : Bool := bs.totalLen = 0

/-- `bstream_write_borrow` of all of `buf`; the buffer is allocated iff `mem`. -/
def writeBorrow (bs : Bstream β) (buf : List β) (mem : Bool) : ℕ × Bstream β :=
  if SIZE_T_RANGE ≤ bs.totalLen + buf.length then (0, bs)
  else
    match BufferBorrowed.create mem buf buf.length with
    | none => (0, bs)
    | some bb =>
      (buf.length,
        { chain := bs.chain ++ [.borrowed bb], totalLen := bs.totalLen + buf.length })

/-- `bs->total_len += written`. -/
def addLen (bs : Bstream β) (written : ℕ) : Bstream β :=
  { bs with totalLen := (bs.totalLen + written) % SIZE_T_RANGE }

/-- `bs->total_len -= read`. -/
def subLen (bs : Bstream β) (read : ℕ) : Bstream β :=
  { bs with totalLen := (bs.totalLen + (SIZE_T_RANGE - read)) % SIZE_T_RANGE }

/-- The loop of `bstream_write`: `mem k` answers the allocation of its `k`-th iteration. -/
def writeLoop (bs : Bstream β) (r : Reader σ β) (s : σ) (written remain : ℕ)
    (mem : ℕ → Malloc β) (k : ℕ) : ℕ × Bstream β × σ :=
  match h : BufferCopied.create (mem k) with
  | none => (written, bs.addLen written, s)
  | some bb =>
    let out := bb.write r s remain
    let bs' : Bstream β := { bs with chain := bs.chain ++ [.copied out.2.1] }
    if hstop : out.2.1.writable || out.1 = remain then
      -- all the data was stored there, or the reader gave less than it was asked for
      (written + out.1, bs'.addLen (written + out.1), out.2.2)
    else writeLoop bs' r out.2.2 (written + out.1) (remain - out.1) mem (k + 1)
  termination_by remain
  decreasing_by
    simp only [Bool.or_eq_true, decide_eq_true_eq, not_or, Bool.not_eq_true] at hstop
    -- an iteration that goes on has filled a whole new block, which is not empty
    have hfull : bb.freeSpace ≤ (bb.write r s remain).1 :=
      BufferCopied.le_write_of_not_writable hstop.1
    have hle : (bb.write r s remain).1 ≤ remain := BufferCopied.write_le
    have hfree : bb.freeSpace = BSTREAM_BUFFER_COPIED_SIZE := by
      simp only [BufferCopied.create, Option.map_eq_some_iff] at h
      obtain ⟨block, -, rfl⟩ := h
      rfl
    have hsize : 0 < BSTREAM_BUFFER_COPIED_SIZE := by decide
    omega

/-- `bstream_write`: fill the last buffer, then append copied buffers. The early exit after the
last buffer returns without touching `total_len`. -/
def write (bs : Bstream β) (r : Reader σ β) (s : σ) (len : ℕ) (mem : ℕ → Malloc β) :
    ℕ × Bstream β × σ :=
  if SIZE_T_RANGE ≤ bs.totalLen + len then (0, bs, s)
  else
    match bs.chain.getLast? with
    | none => writeLoop bs r s 0 len mem 0
    | some lbb =>
      -- this return leaves `total_len` as it was
      let out := lbb.write r s len
      let bs' := { bs with chain := bs.chain.dropLast ++ [out.2.1] }
      if out.2.1.writable || out.1 = len then (out.1, bs', out.2.2)
      else writeLoop bs' r out.2.2 out.1 (len - out.1) mem 0

/-- The loop of `bstream_read` over the chain: the sum of the bytes read, the buffers that stay
and the writer's state. Every buffer is read with the same `remain`, as in the source. -/
def readLoop (w : Writer σ β) (remain : ℕ) : List (Buffer β) → σ → ℕ × List (Buffer β) × σ
  | [], s => (0, [], s)
  | bb :: rest, s =>
    -- `remain` is not reduced by what earlier buffers gave
    let out := bb.read w s remain
    if out.2.1.readable then (out.1, out.2.1 :: rest, out.2.2)
    else if out.1 = remain then (out.1, rest, out.2.2)
    else
      let next := readLoop w remain rest out.2.2
      (out.1 + next.1, next.2.1, next.2.2)

/-- `bstream_read`. -/
def read (bs : Bstream β) (w : Writer σ β) (s : σ) (len : ℕ) : ℕ × Bstream β × σ :=
  let out := readLoop w len bs.chain s
  let read := out.1 % SIZE_T_RANGE
  (read, { bs with chain := out.2.1 }.subLen read, out.2.2)

/-- `bstream_flush`. -/
def flush (_ : Bstream β) : Bstream β := { chain := [], totalLen := 0 }

end Bstream

/-! ## The callbacks of `bstream.c` -/

/-- `bstream_memreader`: the state is what `*src` points to. -/
def memreader : Reader (List β) β where
  call src len := (src.take len, src.drop len)
  length_le src len := List.length_take_le len src

/-- `bstream_write_mem`. -/
def Bstream.writeMem (bs : Bstream β) (src : List β) (mem : ℕ → Malloc β) : ℕ × Bstream β :=
  let out := bs.write memreader src src.length mem
  (out.1, out.2.1)

/-- `bstream_memwriter`: the state is what has been stored at the destination so far. -/
def memwriter : Writer (List β) β where
  call dest src := (src.length, dest ++ src)
  le_length _ _ := le_rfl

/-- `bstream_read_mem`: the bytes read, the stream and the bytes stored from `buf` on. -/
def Bstream.readMem (bs : Bstream β) (len : ℕ) : ℕ × Bstream β × List β :=
  bs.read memwriter [] len

/-- `bstream_fdwriter`: the state is the number of calls of `write(2)` so far and the bytes they
wrote. `written k` answers the `k`-th call, `none` standing for the result -1. -/
def fdwriter (written : ℕ → Option ℕ) : Writer (ℕ × List β) β where
  call s src :=
    let n := min ((written s.1).getD 0) src.length
    (n, (s.1 + 1, s.2 ++ src.take n))
  le_length _ _ := Nat.min_le_right _ _

/-- `bstream_read_fd`: the bytes read, the stream and the bytes written to the descriptor. -/
def Bstream.readFd (bs : Bstream β) (written : ℕ → Option ℕ) (len : ℕ) :
    ℕ × Bstream β × List β :=
  let out := bs.read (fdwriter written) (0, []) len
  (out.1, out.2.1, out.2.2.2)

end Qkmetisc
