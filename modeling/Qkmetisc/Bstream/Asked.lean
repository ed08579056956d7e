import Qkmetisc.Bstream.Callbacks

/-!
# What a write asks of its reader

`bstream_write` fills the last buffer and then new ones, and calls its reader for each of them.
After every call one test, whether the buffer is still writable, has to tell a reader that has run
out from a buffer that is full.

## Main definitions

* `askedLen`: how many bytes a reader was asked for.
* `Bstream.WriteContract`: what the callers of `bstream_write` and `bstream_write_mem` rely on.

## Main results

* `Bstream.readerCalls_orderly`: a write asks for no more than it was given to write, and not again
  after a short answer.
* `Bstream.write_all`: with a reader that gives all it is asked for everything is written.
* `Bstream.write_contract`: the contract holds of every reachable stream.
-/

namespace Qkmetisc

variable {β : Type}

/-- The number of bytes a reader was asked for in the calls. -/
def askedLen (calls : List (ReaderCall β)) : ℕ := (calls.map Prod.fst).sum

@[simp]
theorem askedLen_nil : askedLen ([] : List (ReaderCall β)) = 0 := rfl

@[simp]
theorem askedLen_cons (call : ReaderCall β) (calls : List (ReaderCall β)) :
    askedLen (call :: calls) = call.1 + askedLen calls := by
  simp [askedLen]

/-- At most `len` bytes are asked for, and after an answer that is shorter than what was asked for
there is no further call. -/
structure Orderly (len : ℕ) (calls : List (ReaderCall β)) : Prop where
  asked : askedLen calls ≤ len
  stops : ∀ call ∈ calls.dropLast, call.2.length = call.1

theorem orderly_nil (len : ℕ) : Orderly len ([] : List (ReaderCall β)) := ⟨Nat.zero_le _, by simp⟩

/-- A single call may be answered in any way. -/
theorem orderly_singleton {len : ℕ} {call : ReaderCall β} (h : call.1 ≤ len) :
    Orderly len [call] := ⟨by simpa using h, by simp⟩

/-- Calls behind one that got what it asked for. -/
theorem Orderly.cons {len : ℕ} {call : ReaderCall β} {calls : List (ReaderCall β)}
    (h : Orderly (len - call.1) calls) (hcall : call.1 ≤ len) (hfull : call.2.length = call.1) :
    Orderly len (call :: calls) := by
  constructor
  · have hrest := h.asked
    rw [askedLen_cons]
    omega
  · cases calls with
    | nil => simp
    | cons next rest =>
      intro c hc
      rw [List.dropLast_cons_cons, List.mem_cons] at hc
      rcases hc with rfl | hc
      · exact hfull
      · exact h.stops c hc

namespace Buffer

/-- A buffer that is not writable after a write has got all it asked for, if it asked. -/
theorem WriteSpec.cons_orderly {bb bb' : Buffer β} {len res : ℕ} {calls rest : List (ReaderCall β)}
    (h : WriteSpec bb len calls res bb') (hfull : bb'.freeSpace = 0)
    (hrest : Orderly (len - res) rest) : Orderly len (calls ++ rest) := by
  have hsum := h.freeSpace
  have hres := h.res_eq
  rcases h.calls_eq with ⟨rfl, -⟩ | ⟨-, data, rfl, hdata⟩
  · -- no call, and so nothing stored
    simp only [storedBytes_nil, List.length_nil] at hres
    simpa [hres] using hrest
  · simp only [storedBytes_singleton] at hres
    refine Orderly.cons ?_ (Nat.min_le_left _ _) ?_
    · have hall : min len bb.freeSpace = res := by omega
      simpa [hall] using hrest
    · show data.length = min len bb.freeSpace
      omega

theorem WriteSpec.orderly {bb bb' : Buffer β} {len res : ℕ} {calls : List (ReaderCall β)}
    (h : WriteSpec bb len calls res bb') : Orderly len calls := by
  rcases h.calls_eq with ⟨rfl, -⟩ | ⟨-, data, rfl, -⟩
  · exact orderly_nil len
  · exact orderly_singleton (Nat.min_le_left _ _)

end Buffer

namespace Bstream

variable {σ : Type}

/-- The calls of the loop of `bstream_write` are orderly. -/
theorem writeLoop_orderly (r : Reader σ β) (mem : ℕ → Malloc β) (bs : Bstream β) (s : σ)
    (log : List (ReaderCall β)) (written remain k : ℕ) :
    ∃ calls, (bs.writeLoop r.logged (s, log) written remain mem k).2.2.2 = log ++ calls ∧
      Orderly remain calls := by
  induction remain using Nat.strong_induction_on generalizing bs s log written k with
  | _ remain ih =>
    rw [writeLoop]
    split
    next hnone => exact ⟨[], by simp, orderly_nil remain⟩
    next bb hsome =>
      obtain ⟨hwf, -, hfree⟩ := Buffer.wf_create hsome
      obtain ⟨calls, hlog, hspec⟩ :=
        Buffer.write_spec (show Buffer.WF (.copied bb) from hwf) r s log remain
      simp only [Buffer.write] at hlog hspec
      simp only
      split
      next hstop => exact ⟨calls, hlog, hspec.orderly⟩
      next hgo =>
        obtain ⟨calls', hlog', horderly⟩ := ih (remain - (bb.write r.logged (s, log) remain).1)
          (BufferCopied.remain_lt hsome hgo) { bs with
            chain := bs.chain ++ [.copied (bb.write r.logged (s, log) remain).2.1] }
          (bb.write r.logged (s, log) remain).2.2.1 (bb.write r.logged (s, log) remain).2.2.2
          (written + (bb.write r.logged (s, log) remain).1) (k + 1)
        -- the new block is full, so the reader has given what it was asked for
        have hfull : Buffer.freeSpace (.copied (bb.write r.logged (s, log) remain).2.1) = 0 := by
          simp only [Bool.or_eq_true, decide_eq_true_eq, not_or, Bool.not_eq_true] at hgo
          have hall := BufferCopied.le_write_of_not_writable hgo.1
          have hsum := hspec.freeSpace
          simp only [Buffer.freeSpace] at hsum ⊢
          omega
        refine ⟨calls ++ calls', ?_, hspec.cons_orderly hfull horderly⟩
        rw [hlog', hlog, List.append_assoc]

/-- The calls of `bstream_write` are orderly. -/
theorem readerCalls_orderly {bs : Bstream β} (h : bs.WF) (r : Reader σ β) (s : σ) (len : ℕ)
    (mem : ℕ → Malloc β) : Orderly len (bs.readerCalls r s len mem) := by
  unfold readerCalls write
  split
  · exact orderly_nil len
  · split
    · obtain ⟨calls, hlog, horderly⟩ := writeLoop_orderly r mem bs s [] 0 len 0
      rw [hlog]
      exact horderly
    next lbb hlast =>
      have hlbb : lbb.WF := h lbb (List.mem_of_getLast? hlast)
      obtain ⟨calls, hlog, hspec⟩ := Buffer.write_spec hlbb r s [] len
      simp only
      split
      next hstop =>
        rw [hlog]
        exact hspec.orderly
      next hgo =>
        simp only [Bool.or_eq_true, Buffer.writable_iff, decide_eq_true_eq, not_or] at hgo
        obtain ⟨calls', hlog', horderly⟩ := writeLoop_orderly r mem
          { bs with chain := bs.chain.dropLast ++ [(lbb.write r.logged (s, []) len).2.1] }
          (lbb.write r.logged (s, []) len).2.2.1 (lbb.write r.logged (s, []) len).2.2.2
          (lbb.write r.logged (s, []) len).1 (len - (lbb.write r.logged (s, []) len).1) 0
        rw [hlog', hlog]
        exact hspec.cons_orderly (by omega) horderly

/-! ## Readers that give all -/

end Bstream

/-- From a state that is good for `n` bytes on, the reader gives all it is asked for, up to so
many bytes. -/
def Reader.Supplies {σ : Type} (r : Reader σ β) (Good : ℕ → σ → Prop) : Prop :=
  ∀ n s len, Good n s → len ≤ n → (r.call s len).1.length = len ∧ Good (n - len) (r.call s len).2

/-- A pointer into memory is good for the bytes behind it. -/
theorem memreader_supplies :
    (memreader : Reader (List β) β).Supplies fun n src => n ≤ src.length := by
  intro n src len hgood hle
  simp only [memreader, List.length_take, List.length_drop]
  omega

namespace Bstream

variable {σ : Type} {r : Reader σ β} {Good : ℕ → σ → Prop} {mem : ℕ → Malloc β}

/-- A buffer with free space takes what there is room for. -/
theorem write_supplied (h : r.Supplies Good) {bbc : BufferCopied β} (hfree : 0 < bbc.freeSpace)
    {s : σ} {len : ℕ} (hs : Good len s) :
    (bbc.write r s len).1 = min len bbc.freeSpace ∧
      (bbc.write r s len).2.1.freeSpace = bbc.freeSpace - min len bbc.freeSpace ∧
      Good (len - min len bbc.freeSpace) (bbc.write r s len).2.2 := by
  obtain ⟨hlen, hgood⟩ := h len s (min len bbc.freeSpace) hs (Nat.min_le_left _ _)
  rw [BufferCopied.write_of_free hfree]
  exact ⟨hlen, by simp [BufferCopied.push, hlen], hgood⟩

/-- The loop of `bstream_write` writes all that remains. -/
theorem writeLoop_all (h : r.Supplies Good) (hmem : ∀ k, (mem k).isSome) (bs : Bstream β) {s : σ}
    (written remain k : ℕ) (hs : Good remain s) :
    (bs.writeLoop r s written remain mem k).1 = written + remain := by
  induction remain using Nat.strong_induction_on generalizing bs s written k with
  | _ remain ih =>
    have hsize : 0 < BSTREAM_BUFFER_COPIED_SIZE := by decide
    rw [writeLoop]
    split
    next hnone =>
      -- the allocations do not fail
      have hblock := hmem k
      simp only [BufferCopied.create, Option.map_eq_none_iff] at hnone
      simp [hnone] at hblock
    next bb hsome =>
      obtain ⟨-, -, hfree⟩ := Buffer.wf_create hsome
      obtain ⟨hres, hleft, hgood⟩ := write_supplied h (hfree ▸ hsize) hs
      rw [hfree] at hres hleft hgood
      simp only
      split
      next hstop =>
        simp only [Bool.or_eq_true, decide_eq_true_eq, BufferCopied.writable_iff] at hstop
        omega
      next hgo =>
        simp only [Bool.or_eq_true, decide_eq_true_eq, BufferCopied.writable_iff, not_or] at hgo
        rw [ih _ (by omega) _ _ _ (hres ▸ hgood)]
        omega

/-- `bstream_write` writes all it is given, when the lengths fit and no allocation fails. -/
theorem write_all (h : r.Supplies Good) (hmem : ∀ k, (mem k).isSome) {bs : Bstream β} {s : σ}
    {len : ℕ} (hfits : bs.totalLen + len < SIZE_T_RANGE) (hs : Good len s) :
    (bs.write r s len mem).1 = len := by
  unfold write
  rw [if_neg (Nat.not_le.2 hfits)]
  split
  · rw [writeLoop_all h hmem bs 0 len 0 hs, Nat.zero_add]
  next lbb hlast =>
    -- what the last buffer takes, and what is left for the loop
    have htail : Good (len - (lbb.write r s len).1) (lbb.write r s len).2.2 ∧
        (0 < (lbb.write r s len).2.1.freeSpace → (lbb.write r s len).1 = len) := by
      cases lbb with
      | borrowed bbb => exact ⟨hs, fun hfree => absurd hfree (Nat.lt_irrefl 0)⟩
      | copied bbc =>
        rcases Nat.eq_zero_or_pos bbc.freeSpace with hzero | hpos
        · simp only [Buffer.write, BufferCopied.write_of_full hzero, Buffer.freeSpace, hzero]
          exact ⟨hs, fun hfree => absurd hfree (Nat.lt_irrefl 0)⟩
        · obtain ⟨hres, hleft, hgood⟩ := write_supplied h hpos hs
          simp only [Buffer.write, Buffer.freeSpace, hres, hleft]
          exact ⟨hgood, fun hfree => by omega⟩
    obtain ⟨hgood, hstop⟩ := htail
    have hle : (lbb.write r s len).1 ≤ len := Buffer.write_le
    simp only
    split
    next hdone =>
      simp only [Bool.or_eq_true, Buffer.writable_iff, decide_eq_true_eq] at hdone
      exact hdone.elim hstop id
    next =>
      rw [writeLoop_all h hmem _ _ _ _ hgood]
      omega

/-! ## The contract -/

/-- What the callers of `bstream_write` and `bstream_write_mem` rely on, while the length of the
stream fits its counter: the reader is asked for at most `len` bytes, in all, and not again after a
short answer, and the result is what it has given. If it gives all and no allocation fails, the
result is `len`, and all bytes from memory are appended. If the length does not fit, nothing is
done. -/
structure WriteContract (bs : Bstream β) : Prop where
  asked : ∀ {σ : Type} (r : Reader σ β) (s : σ) (len : ℕ) (mem : ℕ → Malloc β),
    bs.totalLen + len < SIZE_T_RANGE → askedLen (bs.readerCalls r s len mem) ≤ len
  stops : ∀ {σ : Type} (r : Reader σ β) (s : σ) (len : ℕ) (mem : ℕ → Malloc β),
    bs.totalLen + len < SIZE_T_RANGE →
      ∀ call ∈ (bs.readerCalls r s len mem).dropLast, call.2.length = call.1
  result : ∀ {σ : Type} (r : Reader σ β) (s : σ) (len : ℕ) (mem : ℕ → Malloc β),
    bs.totalLen + len < SIZE_T_RANGE →
      (bs.write r s len mem).1 = (storedBytes (bs.readerCalls r s len mem)).length
  all : ∀ {σ : Type} (r : Reader σ β) (s : σ) (len : ℕ) (mem : ℕ → Malloc β),
    bs.totalLen + len < SIZE_T_RANGE → (∀ s n, (r.call s n).1.length = n) →
      (∀ k, (mem k).isSome) → (bs.write r s len mem).1 = len
  memory : ∀ (src : List β) (mem : ℕ → Malloc β), bs.totalLen + src.length < SIZE_T_RANGE →
    (∀ k, (mem k).isSome) →
      (bs.writeMem src mem).1 = src.length ∧
        (bs.writeMem src mem).2.content = bs.content ++ src
  overflow : ∀ {σ : Type} (r : Reader σ β) (s : σ) (len : ℕ) (mem : ℕ → Malloc β),
    SIZE_T_RANGE ≤ bs.totalLen + len → bs.write r s len mem = (0, bs, s)

/-- Every stream that is valid keeps the contract. -/
theorem Valid.writeContract {bs : Bstream β} (h : bs.Valid) : bs.WriteContract where
  asked r s len mem _ := (readerCalls_orderly h.wf r s len mem).asked
  stops r s len mem _ := (readerCalls_orderly h.wf r s len mem).stops
  result r s len mem _ := (write_calls h.wf h.lt r s len mem).res_eq
  all r s len mem hfits hall hmem := by
    have hsupplies : r.Supplies fun _ _ => True := fun _ s n _ _ => ⟨hall s n, trivial⟩
    exact write_all hsupplies hmem hfits trivial
  memory src mem hfits hmem := by
    have hspec := write_calls h.wf h.lt memreader src src.length mem
    have hres : (bs.writeMem src mem).1 = src.length :=
      write_all memreader_supplies hmem hfits (Nat.le_refl _)
    refine ⟨hres, ?_⟩
    obtain ⟨-, front, hfront, hcontent⟩ := writeMem_spec h src mem
    -- the part of the source that is appended is as long as the source
    have hlen : front.length = src.length := by
      have heq : bs.content ++ front =
          bs.content ++ storedBytes (bs.readerCalls memreader src src.length mem) :=
        hcontent.symm.trans hspec.content
      rw [List.append_cancel_left heq, ← hspec.res_eq]
      exact hres
    rw [hcontent, hfront.eq_of_length hlen]
  overflow r s len mem hover := by
    unfold write
    rw [if_pos hover]

/-- The contract holds of every stream that any operations of `bstream.h` lead to, with any readers
and writers, whatever its last buffer is. -/
theorem write_contract (ops : List (StreamOp β)) :
    (InputMachine.run exec (create : Bstream β) ops).WriteContract :=
  (run_valid ops).writeContract

end Bstream

end Qkmetisc
