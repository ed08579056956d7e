import Qkmetisc.Bstream.Queue

/-!
# Streams and memory, streams and descriptors

What the callbacks of `bstream.c` make of the general read and write: a write from memory
appends a front part of what it is given, and what a read stores in memory or sends to a
descriptor is what leaves the stream.

## Main results

* `Bstream.writeMem_spec`: `bstream_write_mem`.
* `Bstream.readMem_stored`: `bstream_read_mem`.
* `Bstream.readFd_spec`: `bstream_read_fd`.
-/

namespace Qkmetisc

namespace Bstream

variable {β : Type}

/-- `bstream_write_mem` appends a front part of its source. -/
theorem writeMem_spec {bs : Bstream β} (h : bs.Valid) (src : List β) (mem : ℕ → Malloc β) :
    (bs.writeMem src mem).2.Valid ∧
      ∃ front, front <+: src ∧ (bs.writeMem src mem).2.content = bs.content ++ front := by
  -- the calls so far have stored what the reader's state has moved past
  have hkeep : ∀ (s : List β × List (ReaderCall β)) (len : ℕ), storedBytes s.2 ++ s.1 = src →
      storedBytes (memreader.logged.call s len).2.2 ++ (memreader.logged.call s len).2.1 =
        src := by
    intro s len hs
    simp [Reader.logged, memreader, hs]
  have hcalls : storedBytes (bs.readerCalls memreader src src.length mem) <+: src :=
    ⟨_, write_preserves hkeep bs (src, []) src.length mem rfl⟩
  have hspec := write_calls h.wf h.lt memreader src src.length mem
  exact ⟨⟨hspec.wf, hspec.totalLen_lt h.lt⟩, _, hcalls, hspec.content⟩

/-- What `bstream_read_mem` stores is what its writer accepts. -/
theorem readMem_stored (bs : Bstream β) (len : ℕ) :
    (bs.readMem len).2.2 = deliveredBytes (bs.writerCalls memwriter [] len) := by
  have hkeep : ∀ (s : List β × List (WriterCall β)) (src : List β), s.1 = deliveredBytes s.2 →
      (memwriter.logged.call s src).2.1 = deliveredBytes (memwriter.logged.call s src).2.2 := by
    intro s src hs
    simp [Writer.logged, memwriter, hs]
  rw [readMem, read_logged memwriter bs [] [] len]
  exact readLoop_preserves hkeep len bs.chain ([], []) rfl

/-- What `bstream_read_fd` writes to the descriptor is what its writer accepts. -/
theorem readFd_sent (bs : Bstream β) (written : ℕ → Option ℕ) (len : ℕ) :
    (bs.readFd written len).2.2 =
      deliveredBytes (bs.writerCalls (fdwriter written) (0, []) len) := by
  have hkeep : ∀ (s : (ℕ × List β) × List (WriterCall β)) (src : List β),
      s.1.2 = deliveredBytes s.2 →
        ((fdwriter written).logged.call s src).2.1.2 =
          deliveredBytes ((fdwriter written).logged.call s src).2.2 := by
    intro s src hs
    simp [Writer.logged, fdwriter, hs]
  rw [readFd, read_logged (fdwriter written) bs (0, []) [] len]
  exact readLoop_preserves hkeep len bs.chain ((0, []), []) rfl

/-- `bstream_read_fd` splits the content into what it sends and what it leaves. -/
theorem readFd_spec {bs : Bstream β} (h : bs.Valid) (written : ℕ → Option ℕ) (len : ℕ) :
    (bs.readFd written len).2.1.Valid ∧
      (bs.readFd written len).2.2 ++ (bs.readFd written len).2.1.content = bs.content := by
  have hspec := read_calls h.wf (fdwriter written) (0, []) len
  refine ⟨⟨hspec.wf, hspec.totalLen ▸ Nat.mod_lt _ sizeT_pos⟩, ?_⟩
  rw [readFd_sent]
  exact hspec.content

end Bstream

end Qkmetisc
