import Qkmetisc.Bstream.Spec
import Qkmetisc.Foundations.InputMachine

/-!
# Runs of stream operations keep the queue of bytes

A run calls the operations of the stream in any order, with any callbacks, lengths and
allocation failures. Beside the stream, `History` keeps what went in and what came out since the
last flush. The invariant is the one of a queue: what came out, followed by what is held, is
what went in.

## Main results

* `History.exec_inv`: one call keeps the invariant.
* `delivered_append_content`: it holds after every run.
-/

namespace Qkmetisc

variable {β : Type}

/-- One call of an operation of `bstream.h`, with what the environment answers during it: the
callback and its state, and the result of each allocation. -/
inductive StreamOp (β : Type) : Type 1 where
  | writeBorrow (buf : List β) (mem : Bool)
  | write {σ : Type} (r : Reader σ β) (s : σ) (len : ℕ) (mem : ℕ → Malloc β)
  | read {σ : Type} (w : Writer σ β) (s : σ) (len : ℕ)
  | flush

namespace Bstream

/-- The stream after one call. -/
def exec (bs : Bstream β) : StreamOp β → Bstream β
  | .writeBorrow buf mem => (bs.writeBorrow buf mem).2
  | .write r s len mem => (bs.write r s len mem).2.1
  | .read w s len => (bs.read w s len).2.1
  | .flush => bs.flush

/-- The calls made by `bstream_write` to its reader. -/
def readerCalls {σ : Type} (bs : Bstream β) (r : Reader σ β) (s : σ) (len : ℕ)
    (mem : ℕ → Malloc β) : List (ReaderCall β) :=
  (bs.write r.logged (s, []) len mem).2.2.2

/-- The calls made by `bstream_read` to its writer. -/
def writerCalls {σ : Type} (bs : Bstream β) (w : Writer σ β) (s : σ) (len : ℕ) :
    List (WriterCall β) :=
  (bs.read w.logged (s, []) len).2.2.2

/-- `bstream_write`, with the calls it makes. -/
theorem write_calls {σ : Type} {bs : Bstream β} (h : bs.WF) (hlt : bs.totalLen < SIZE_T_RANGE)
    (r : Reader σ β) (s : σ) (len : ℕ) (mem : ℕ → Malloc β) :
    WriteSpec bs (bs.UncountedWrite r s len) (bs.readerCalls r s len mem)
      (bs.write r s len mem).1 (bs.write r s len mem).2.1 := by
  obtain ⟨calls, hlog, hspec⟩ := write_spec h hlt r s [] len mem
  rw [List.nil_append] at hlog
  rw [write_logged r mem bs s [] len, readerCalls, hlog]
  exact hspec

/-- `bstream_read`, with the calls it makes. -/
theorem read_calls {σ : Type} {bs : Bstream β} (h : bs.WF) (w : Writer σ β) (s : σ) (len : ℕ) :
    ReadSpec bs w s len (bs.writerCalls w s len) (bs.read w s len).1 (bs.read w s len).2.1 := by
  obtain ⟨calls, hlog, hspec⟩ := read_spec h w s [] len
  rw [List.nil_append] at hlog
  rw [read_logged w bs s [] len, writerCalls, hlog]
  exact hspec

/-- What every reachable stream satisfies: its buffers are well formed and its counter is a
`size_t`. -/
structure Valid (bs : Bstream β) : Prop where
  wf : bs.WF
  lt : bs.totalLen < SIZE_T_RANGE

theorem valid_create : (create : Bstream β).Valid := ⟨wf_create, sizeT_pos⟩

/-- One call keeps a stream valid. -/
theorem exec_valid (bs : Bstream β) (op : StreamOp β) (h : bs.Valid) : (bs.exec op).Valid := by
  cases op with
  | writeBorrow buf mem =>
    have hspec := writeBorrow_spec h.wf h.lt buf mem
    exact ⟨hspec.wf, hspec.totalLen ▸ Nat.mod_lt _ sizeT_pos⟩
  | write r s len mem =>
    have hspec := write_calls h.wf h.lt r s len mem
    exact ⟨hspec.wf, hspec.totalLen_lt h.lt⟩
  | read w s len =>
    have hspec := read_calls h.wf w s len
    exact ⟨hspec.wf, hspec.totalLen ▸ Nat.mod_lt _ sizeT_pos⟩
  | flush => exact ⟨wf_flush bs, sizeT_pos⟩

/-- Every reachable stream is valid. -/
theorem run_valid (ops : List (StreamOp β)) : (InputMachine.run exec create ops).Valid :=
  InputMachine.invariant_run_of_step exec_valid ops valid_create

end Bstream

/-- A stream with the bytes that entered and left it since the last flush. -/
structure History (β : Type) where
  /-- The stream. -/
  stream : Bstream β
  /-- The bytes borrowed and the bytes stored by readers, in order. -/
  accepted : List β
  /-- The bytes accepted by writers, in order. -/
  delivered : List β

namespace History

/-- The history of a new stream. -/
def init : History β := { stream := Bstream.create, accepted := [], delivered := [] }

/-- The effect of one call. What a reader stored and a writer accepted is read off the calls
they were made. -/
def exec (h : History β) (op : StreamOp β) : History β :=
  let stream := h.stream.exec op
  match op with
  | .writeBorrow buf mem =>
    { h with stream, accepted := h.accepted ++ buf.take (h.stream.writeBorrow buf mem).1 }
  | .write r s len mem =>
    { h with stream, accepted := h.accepted ++ storedBytes (h.stream.readerCalls r s len mem) }
  | .read w s len =>
    { h with stream, delivered := h.delivered ++ deliveredBytes (h.stream.writerCalls w s len) }
  | .flush => { stream, accepted := [], delivered := [] }

@[simp]
theorem stream_exec (h : History β) (op : StreamOp β) :
    (h.exec op).stream = h.stream.exec op := by
  cases op <;> rfl

/-- The invariant of a history: the stream is valid and holds exactly the bytes that entered
and did not leave. -/
structure Inv (h : History β) : Prop where
  valid : h.stream.Valid
  queue : h.delivered ++ h.stream.content = h.accepted

theorem inv_init : (init : History β).Inv := ⟨Bstream.valid_create, rfl⟩

/-- One call keeps the invariant. -/
theorem exec_inv (h : History β) (op : StreamOp β) (hinv : h.Inv) : (h.exec op).Inv := by
  obtain ⟨hvalid, hqueue⟩ := hinv
  refine ⟨by simpa using Bstream.exec_valid _ op hvalid, ?_⟩
  -- writes extend both sides at the end, a read moves bytes from the content to the front
  cases op with
  | writeBorrow buf mem =>
    have hspec := Bstream.writeBorrow_spec hvalid.wf hvalid.lt buf mem
    simp only [exec, Bstream.exec, hspec.content]
    rw [← List.append_assoc, hqueue]
  | write r s len mem =>
    have hspec := Bstream.write_calls hvalid.wf hvalid.lt r s len mem
    simp only [exec, Bstream.exec, hspec.content]
    rw [← List.append_assoc, hqueue]
  | read w s len =>
    have hspec := Bstream.read_calls hvalid.wf w s len
    simp only [exec, Bstream.exec]
    rw [List.append_assoc, hspec.content, hqueue]
  | flush => rfl

/-- The invariant holds after every run. -/
theorem run_inv (ops : List (StreamOp β)) : (InputMachine.run exec init ops).Inv :=
  InputMachine.invariant_run_of_step exec_inv ops inv_init

end History

/-- Over every run of stream operations, the bytes accepted by writers since the last flush
followed by the bytes still held in the chain are exactly the bytes accepted into the stream
since that flush, in order. -/
theorem delivered_append_content (ops : List (StreamOp β)) :
    (InputMachine.run History.exec History.init ops).delivered ++
        (InputMachine.run History.exec History.init ops).stream.content =
      (InputMachine.run History.exec History.init ops).accepted :=
  (History.run_inv ops).queue

end Qkmetisc
