import Qkmetisc.Bstream.Content

/-!
# What one stream operation does

Each operation of the stream seen as an operation on one queue of bytes, `Bstream.content`:
a write appends what the reader stored, a borrow appends what was borrowed, a read removes what
the writer accepted from the front. The same lemmas say what happens to `total_len`.

A write whose bytes all end up in the last buffer returns before `total_len` is updated;
`Bstream.UncountedWrite` is the condition, on the stream and the reader's first answer, under
which that loses bytes from the count.

## Main results

* `Bstream.writeBorrow_spec`, `Bstream.write_spec`, `Bstream.read_spec`.
-/

namespace Qkmetisc

variable {β σ : Type*}

namespace Bstream

theorem sizeT_pos : 0 < SIZE_T_RANGE := by decide

@[simp]
theorem chain_addLen (bs : Bstream β) (n : ℕ) : (bs.addLen n).chain = bs.chain := rfl

@[simp]
theorem totalLen_addLen (bs : Bstream β) (n : ℕ) :
    (bs.addLen n).totalLen = (bs.totalLen + n) % SIZE_T_RANGE := rfl

@[simp]
theorem content_addLen (bs : Bstream β) (n : ℕ) : (bs.addLen n).content = bs.content := rfl

@[simp]
theorem chain_subLen (bs : Bstream β) (n : ℕ) : (bs.subLen n).chain = bs.chain := rfl

@[simp]
theorem totalLen_subLen (bs : Bstream β) (n : ℕ) :
    (bs.subLen n).totalLen = (bs.totalLen + (SIZE_T_RANGE - n)) % SIZE_T_RANGE := rfl

@[simp]
theorem wf_addLen {bs : Bstream β} {n : ℕ} : (bs.addLen n).WF ↔ bs.WF := Iff.rfl

@[simp]
theorem wf_subLen {bs : Bstream β} {n : ℕ} : (bs.subLen n).WF ↔ bs.WF := Iff.rfl

theorem wf_create : (create : Bstream β).WF := by
  simp [WF, create]

theorem wf_flush (bs : Bstream β) : bs.flush.WF := by
  simp [WF, flush]

/-- Appending a well-formed buffer keeps a stream well formed. -/
theorem WF.append {chain : List (Buffer β)} {total total' : ℕ} {bb : Buffer β}
    (h : WF ⟨chain, total⟩) (hbb : bb.WF) : WF ⟨chain ++ [bb], total'⟩ := by
  intro b hb
  rcases List.mem_append.1 hb with hold | hnew
  · exact h b hold
  · rw [List.mem_singleton.1 hnew]
    exact hbb

/-! ## Writing -/

/-- What the loop of `bstream_write` does from a stream `bs`: its calls store bytes, which are
appended to the content, counted in `total_len` and added to the result. -/
structure LoopSpec (bs : Bstream β) (written remain : ℕ) (calls : List (ReaderCall β)) (res : ℕ)
    (bs' : Bstream β) : Prop where
  wf : bs'.WF
  content : bs'.content = bs.content ++ storedBytes calls
  res_eq : res = written + (storedBytes calls).length
  res_le : res ≤ written + remain
  totalLen : bs'.totalLen = (bs.totalLen + res) % SIZE_T_RANGE

/-- The loop of `bstream_write` through an observed reader. The induction is on `remain`: an
iteration that goes on has filled a whole buffer. -/
theorem writeLoop_spec (r : Reader σ β) (mem : ℕ → Malloc β) {bs : Bstream β} (h : bs.WF) (s : σ)
    (log : List (ReaderCall β)) (written remain k : ℕ) :
    ∃ calls, (bs.writeLoop r.logged (s, log) written remain mem k).2.2.2 = log ++ calls ∧
      LoopSpec bs written remain calls (bs.writeLoop r.logged (s, log) written remain mem k).1
        (bs.writeLoop r.logged (s, log) written remain mem k).2.1 := by
  induction remain using Nat.strong_induction_on generalizing bs s log written k with
  | _ remain ih =>
    rw [writeLoop]
    split
    next hnone => exact ⟨[], by simp, ⟨by simpa using h, by simp, rfl, Nat.le_add_right _ _, rfl⟩⟩
    next bb hsome =>
      obtain ⟨hwf, hlen, -⟩ := Buffer.wf_create hsome
      obtain ⟨calls, hlog, hspec⟩ :=
        Buffer.write_spec (show Buffer.WF (.copied bb) from hwf) r s log remain
      simp only [Buffer.write] at hlog hspec
      -- the new buffer holds nothing, so all its bytes come from the reader
      have hempty : Buffer.unread (.copied bb) = [] := by
        simp [Buffer.unread, loadAt, hlen]
      have hwf' : WF { bs with
          chain := bs.chain ++ [.copied (bb.write r.logged (s, log) remain).2.1] } :=
        h.append hspec.wf
      have hcontent : content { bs with
          chain := bs.chain ++ [.copied (bb.write r.logged (s, log) remain).2.1] } =
          bs.content ++ storedBytes calls := by
        simp [content, hspec.unread, hempty]
      have hle : (bb.write r.logged (s, log) remain).1 ≤ remain := BufferCopied.write_le
      simp only
      split
      next hstop =>
        exact ⟨calls, hlog, by simpa using hwf', by simpa using hcontent,
          by simp [hspec.res_eq], Nat.add_le_add_left hle _, rfl⟩
      next hgo =>
        -- the block is full after this iteration
        obtain ⟨calls', hlog', hspec'⟩ := ih _ (BufferCopied.remain_lt hsome hgo) hwf'
          (bb.write r.logged (s, log) remain).2.2.1 (bb.write r.logged (s, log) remain).2.2.2
          (written + (bb.write r.logged (s, log) remain).1) (k + 1)
        refine ⟨calls ++ calls', ?_, hspec'.wf, ?_, ?_, ?_, hspec'.totalLen⟩
        · rw [hlog']
          simp [hlog]
        · simp [hspec'.content, hcontent]
        · rw [hspec'.res_eq, hspec.res_eq]
          simp [Nat.add_assoc]
        · refine hspec'.res_le.trans ?_
          omega

/-- The free space of the last buffer. -/
def tailFree (bs : Bstream β) : ℕ := (bs.chain.getLast?.map Buffer.freeSpace).getD 0

/-- How many bytes the reader gives for the last buffer, when that has free space. -/
def tailGot (bs : Bstream β) (r : Reader σ β) (s : σ) (len : ℕ) : ℕ :=
  (r.call s (min len bs.tailFree)).1.length

/-- A write that stores something in the last buffer and stops there, either because the buffer
is not full after it or because that was all. `bstream_write` returns there at once. -/
def UncountedWrite (bs : Bstream β) (r : Reader σ β) (s : σ) (len : ℕ) : Prop :=
  bs.totalLen + len < SIZE_T_RANGE ∧ 0 < bs.tailFree ∧ 0 < bs.tailGot r s len ∧
    (bs.tailGot r s len < bs.tailFree ∨ bs.tailGot r s len = len)

instance (bs : Bstream β) (r : Reader σ β) (s : σ) (len : ℕ) :
    Decidable (bs.UncountedWrite r s len) :=
  inferInstanceAs (Decidable (_ ∧ _ ∧ _ ∧ (_ ∨ _)))

/-- What `bstream_write` does. -/
structure WriteSpec (bs : Bstream β) (uncounted : Prop) (calls : List (ReaderCall β)) (res : ℕ)
    (bs' : Bstream β) : Prop where
  wf : bs'.WF
  content : bs'.content = bs.content ++ storedBytes calls
  res_eq : res = (storedBytes calls).length
  fits : bs.totalLen + res < SIZE_T_RANGE
  counted : ¬ uncounted → bs'.totalLen = (bs.totalLen + res) % SIZE_T_RANGE
  not_counted : uncounted → bs'.totalLen = bs.totalLen ∧ 0 < res

theorem WriteSpec.totalLen_lt {bs bs' : Bstream β} {uncounted : Prop}
    {calls : List (ReaderCall β)} {res : ℕ} (h : WriteSpec bs uncounted calls res bs')
    (hlt : bs.totalLen < SIZE_T_RANGE) : bs'.totalLen < SIZE_T_RANGE := by
  by_cases hu : uncounted
  · rw [(h.not_counted hu).1]
    exact hlt
  · rw [h.counted hu]
    exact Nat.mod_lt _ sizeT_pos

/-- `bstream_write` through an observed reader. -/
theorem write_spec {bs : Bstream β} (h : bs.WF) (hlt : bs.totalLen < SIZE_T_RANGE)
    (r : Reader σ β) (s : σ) (log : List (ReaderCall β)) (len : ℕ) (mem : ℕ → Malloc β) :
    ∃ calls, (bs.write r.logged (s, log) len mem).2.2.2 = log ++ calls ∧
      WriteSpec bs (bs.UncountedWrite r s len) calls (bs.write r.logged (s, log) len mem).1
        (bs.write r.logged (s, log) len mem).2.1 := by
  unfold write
  split
  -- the sum does not fit, so nothing is done
  next hover =>
    have hcounted : ¬ bs.UncountedWrite r s len := fun hu => by
      have := hu.1
      omega
    exact ⟨[], by simp, h, by simp, rfl, hlt, fun _ => (Nat.mod_eq_of_lt hlt).symm,
      fun hu => absurd hu hcounted⟩
  next hfits =>
    split
    next hnone =>
      -- an empty chain goes straight into the loop
      obtain ⟨calls, hlog, hspec⟩ := writeLoop_spec r mem h s log 0 len 0
      have hcounted : ¬ bs.UncountedWrite r s len := fun hu => by
        have := hu.2.1
        simp [tailFree, hnone] at this
      have hle := hspec.res_le
      exact ⟨calls, hlog, hspec.wf, hspec.content, by simpa using hspec.res_eq, by omega,
        fun _ => hspec.totalLen, fun hu => absurd hu hcounted⟩
    next lbb hlast =>
      obtain ⟨front, hchain⟩ : ∃ front, bs.chain = front ++ [lbb] :=
        List.getLast?_eq_some_iff.1 hlast
      have hlbb : lbb.WF := h lbb (by simp [hchain])
      have hfront : WF ⟨front, bs.totalLen⟩ := fun b hb => h b (by simp [hchain, hb])
      have htail : bs.tailFree = lbb.freeSpace := by simp [tailFree, hlast]
      obtain ⟨calls, hlog, hspec⟩ := Buffer.write_spec hlbb r s log len
      have hwf' : WF { bs with
          chain := bs.chain.dropLast ++ [(lbb.write r.logged (s, log) len).2.1] } := by
        rw [hchain, List.dropLast_concat]
        exact hfront.append hspec.wf
      have hcontent : content { bs with
          chain := bs.chain.dropLast ++ [(lbb.write r.logged (s, log) len).2.1] } =
          bs.content ++ storedBytes calls := by
        simp [content, hchain, hspec.unread]
      -- with free space, the first call decides how much the last buffer takes
      have hgot : 0 < lbb.freeSpace →
          (lbb.write r.logged (s, log) len).1 = bs.tailGot r s len := by
        intro hfree
        rw [Buffer.write_fst hfree, tailGot, htail]
        rfl
      have hsum := hspec.freeSpace
      have hle : (lbb.write r.logged (s, log) len).1 ≤ len := Buffer.write_le
      simp only
      split
      next hstop =>
        -- the early return: uncounted unless nothing was stored
        simp only [Bool.or_eq_true, Buffer.writable_iff, decide_eq_true_eq] at hstop
        refine ⟨calls, hlog, hwf', hcontent, hspec.res_eq, by omega, fun hcounted => ?_,
          fun hu => ?_⟩
        · have hzero : (lbb.write r.logged (s, log) len).1 = 0 := by
            by_contra hne
            have hfree : 0 < lbb.freeSpace := by omega
            refine hcounted ⟨by omega, by omega, ?_, ?_⟩ <;> rw [← hgot hfree]
            · omega
            · rw [htail]
              omega
          rw [hzero, Nat.add_zero, Nat.mod_eq_of_lt hlt]
        · have hfree : 0 < lbb.freeSpace := htail ▸ hu.2.1
          exact ⟨rfl, (hgot hfree).symm ▸ hu.2.2.1⟩
      next hgo =>
        -- the last buffer is full and more is wanted, so the loop counts everything
        simp only [Bool.or_eq_true, Buffer.writable_iff, decide_eq_true_eq, not_or] at hgo
        have hcounted : ¬ bs.UncountedWrite r s len := fun hu => by
          have hfree : 0 < lbb.freeSpace := htail ▸ hu.2.1
          have hshort := hu.2.2.2
          rw [htail, ← hgot hfree] at hshort
          omega
        obtain ⟨calls', hlog', hspec'⟩ := writeLoop_spec r mem hwf'
          (lbb.write r.logged (s, log) len).2.2.1 (lbb.write r.logged (s, log) len).2.2.2
          (lbb.write r.logged (s, log) len).1 (len - (lbb.write r.logged (s, log) len).1) 0
        refine ⟨calls ++ calls', ?_, hspec'.wf, ?_, ?_,
          (Nat.add_le_add_left hspec'.res_le _).trans_lt (by omega), fun _ => hspec'.totalLen,
          fun hu => absurd hu hcounted⟩
        · rw [hlog', hlog, List.append_assoc]
        · simp [hspec'.content, hcontent]
        · rw [hspec'.res_eq, hspec.res_eq]
          simp

/-- What `bstream_write_borrow` does: it takes all of the buffer or nothing. -/
structure BorrowSpec (bs : Bstream β) (buf : List β) (res : ℕ) (bs' : Bstream β) : Prop where
  wf : bs'.WF
  content : bs'.content = bs.content ++ buf.take res
  res_eq : res = (buf.take res).length
  fits : bs.totalLen + res < SIZE_T_RANGE
  totalLen : bs'.totalLen = (bs.totalLen + res) % SIZE_T_RANGE

/-- `bstream_write_borrow`. -/
theorem writeBorrow_spec {bs : Bstream β} (h : bs.WF) (hlt : bs.totalLen < SIZE_T_RANGE)
    (buf : List β) (mem : Bool) :
    BorrowSpec bs buf (bs.writeBorrow buf mem).1 (bs.writeBorrow buf mem).2 := by
  have hnothing : BorrowSpec bs buf 0 bs :=
    ⟨h, by simp, by simp, hlt, (Nat.mod_eq_of_lt hlt).symm⟩
  unfold writeBorrow
  split
  next hover => exact hnothing
  next hfits =>
    cases mem with
    | false => exact hnothing
    | true =>
      have hlt' : bs.totalLen + buf.length < SIZE_T_RANGE := by omega
      simp only [BufferBorrowed.create, ↓reduceIte]
      refine ⟨?_, ?_, by simp, hlt', (Nat.mod_eq_of_lt hlt').symm⟩
      · refine WF.append (show WF ⟨bs.chain, bs.totalLen⟩ from h) ?_
        simp [Buffer.WF, BufferBorrowed.WF]
      · simp [content, Buffer.unread, loadAt]

/-! ## Reading -/

/-- The calls the loop of `bstream_read` makes to its writer, from a state of the writer on. It
stops at a buffer that still has unread bytes, or whose last bytes were as many as `remain`; a
buffer it passes has been offered and accepted as a whole. -/
inductive LoopCalls (w : Writer σ β) (remain : ℕ) :
    σ → List (Buffer β) → List (WriterCall β) → Prop where
  | nil (s : σ) : LoopCalls w remain s [] []
  | stop {s : σ} {bb : Buffer β} (rest : List (Buffer β)) {n : ℕ}
      (hanswer : n = (w.call s (bb.unread.take (min remain bb.len))).1)
      (hle : n ≤ min remain bb.len) (hstop : n < bb.len ∨ n = remain) :
      LoopCalls w remain s (bb :: rest) [(bb.unread.take (min remain bb.len), n)]
  | pass {s : σ} {bb : Buffer β} {rest : List (Buffer β)} {calls : List (WriterCall β)}
      (hlt : bb.len < remain) (hanswer : (w.call s bb.unread).1 = bb.len)
      (hcalls : LoopCalls w remain (w.call s bb.unread).2 rest calls) :
      LoopCalls w remain s (bb :: rest) ((bb.unread, bb.len) :: calls)

/-- What the loop of `bstream_read` does: the bytes the writer accepts, followed by what stays
in the chain, are what was in the chain, and the result is their number. -/
structure ReadLoopSpec (w : Writer σ β) (remain : ℕ) (s : σ) (chain : List (Buffer β))
    (calls : List (WriterCall β)) (res : ℕ) (chain' : List (Buffer β)) : Prop where
  wf : ∀ bb ∈ chain', bb.WF
  content : deliveredBytes calls ++ chainContent chain' = chainContent chain
  res_eq : res = (deliveredBytes calls).length
  loop : LoopCalls w remain s chain calls

/-- The loop of `bstream_read` through an observed writer. The induction is on the chain. -/
theorem readLoop_spec (w : Writer σ β) (remain : ℕ) {chain : List (Buffer β)}
    (h : ∀ bb ∈ chain, bb.WF) (s : σ) (log : List (WriterCall β)) :
    ∃ calls, (readLoop w.logged remain chain (s, log)).2.2.2 = log ++ calls ∧
      ReadLoopSpec w remain s chain calls (readLoop w.logged remain chain (s, log)).1
        (readLoop w.logged remain chain (s, log)).2.1 := by
  induction chain generalizing s log with
  | nil =>
    exact ⟨[], by simp [readLoop], by simp [readLoop], by simp [readLoop], rfl, .nil s⟩
  | cons bb rest ih =>
    have hbb : bb.WF := h bb List.mem_cons_self
    have hrest : ∀ b ∈ rest, b.WF := fun b hb => h b (List.mem_cons_of_mem _ hb)
    have hspec := Buffer.read_spec hbb w.logged (s, log) remain
    have hlog := Buffer.read_log bb w s log remain
    obtain ⟨hanswer, hnext⟩ := Buffer.read_answer bb w s log remain
    set out := bb.read w.logged (s, log) remain with hout
    -- the accepted part of what was offered is the front of the unread bytes
    have haccepted : deliveredBytes [(bb.unread.take (min remain bb.len), out.1)] =
        bb.unread.take out.1 := by
      rw [deliveredBytes_singleton, List.take_take, Nat.min_eq_left hspec.res_le]
    have hres := hspec.len
    have hlen : out.1 = (bb.unread.take out.1).length := by
      rw [List.length_take, hbb.length_unread]
      omega
    simp only [readLoop, ← hout]
    split
    -- the writer refused some bytes: the buffer stays, and so does all behind it
    next hreadable =>
      rw [Buffer.readable_iff] at hreadable
      refine ⟨_, hlog, ?_, ?_, ?_, .stop rest hanswer hspec.res_le (.inl (by omega))⟩
      · intro b hb
        rcases List.mem_cons.1 hb with rfl | hb
        · exact hspec.wf
        · exact hrest b hb
      · rw [haccepted, chainContent_cons, chainContent_cons, ← List.append_assoc, hspec.unread]
      · rw [haccepted]
        exact hlen
    next hdrained =>
      -- a buffer that is dropped has nothing left
      rw [Buffer.readable_iff] at hdrained
      have hnil : out.2.1.unread = [] := by
        rw [← hspec.wf.length_unread] at hdrained
        exact List.eq_nil_of_length_eq_zero (Nat.eq_zero_of_not_pos hdrained)
      have hall : bb.unread.take out.1 = bb.unread := by
        have hunread := hspec.unread
        rwa [hnil, List.append_nil] at hunread
      split
      -- as many bytes as `remain` from this buffer alone
      next hdone =>
        refine ⟨_, hlog, hrest, ?_, ?_, .stop rest hanswer hspec.res_le (.inr hdone)⟩
        · rw [haccepted, hall, chainContent_cons]
        · rw [haccepted]
          exact hlen
      next hgo =>
        obtain ⟨calls, hlog', hspec'⟩ := ih hrest out.2.2.1 out.2.2.2
        have hle := hspec.res_le
        -- the whole buffer was offered and taken, and the next one is asked for `remain` again
        have hdone : out.1 = bb.len := by omega
        have hoffered : bb.unread.take (min remain bb.len) = bb.unread := by
          refine List.take_of_length_le ?_
          rw [hbb.length_unread]
          omega
        have hcall : (bb.unread.take (min remain bb.len), out.1) = (bb.unread, bb.len) := by
          rw [hoffered, hdone]
        rw [hcall] at hlog haccepted
        rw [hoffered] at hanswer hnext
        refine ⟨(bb.unread, bb.len) :: calls, ?_, hspec'.wf, ?_, ?_,
          .pass (by omega) (hanswer.symm.trans hdone) (hnext ▸ hspec'.loop)⟩
        · rw [hlog', hlog, List.append_assoc, List.singleton_append]
        · rw [← List.singleton_append, deliveredBytes_append, haccepted, hall, List.append_assoc,
            hspec'.content, chainContent_cons]
        · rw [← List.singleton_append, deliveredBytes_append, haccepted, hspec'.res_eq,
            List.length_append, ← hlen]

/-- What `bstream_read` does. The number of bytes read is counted in a `size_t`. -/
structure ReadSpec (bs : Bstream β) (w : Writer σ β) (s : σ) (len : ℕ)
    (calls : List (WriterCall β)) (res : ℕ) (bs' : Bstream β) : Prop where
  wf : bs'.WF
  content : deliveredBytes calls ++ bs'.content = bs.content
  res_eq : res = (deliveredBytes calls).length % SIZE_T_RANGE
  totalLen : bs'.totalLen = (bs.totalLen + (SIZE_T_RANGE - res)) % SIZE_T_RANGE
  loop : LoopCalls w len s bs.chain calls

/-- `bstream_read` through an observed writer. -/
theorem read_spec {bs : Bstream β} (h : bs.WF) (w : Writer σ β) (s : σ)
    (log : List (WriterCall β)) (len : ℕ) :
    ∃ calls, (bs.read w.logged (s, log) len).2.2.2 = log ++ calls ∧
      ReadSpec bs w s len calls (bs.read w.logged (s, log) len).1
        (bs.read w.logged (s, log) len).2.1 := by
  obtain ⟨calls, hlog, hspec⟩ := readLoop_spec w len h s log
  exact ⟨calls, hlog, hspec.wf, hspec.content, by simp [read, hspec.res_eq], rfl, hspec.loop⟩

end Bstream

end Qkmetisc
