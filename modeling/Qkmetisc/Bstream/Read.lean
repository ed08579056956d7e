import Qkmetisc.Bstream.Callbacks

/-!
# The length of a read

`bstream_read` is asked for `len` bytes and offers every buffer it comes to the same `remain`,
which it never reduces. A read keeps to its length exactly when it never has to carry a quota
over a buffer boundary: when the first buffer with unread bytes has at least `len` of them, or
when there are no more than `len` bytes up to and including the first buffer that the writer
does not take whole.

## Main definitions

* `Bstream.ReadExact`: what a read of `len` bytes promises to one writer.
* `Bstream.frontLen`: the unread length of the first buffer that has any.
* `Bstream.untilRefused`: the unread length up to the first buffer that the writer does not take
  whole.
* `Bstream.WithinQuota`: the condition on a stream, a writer and its state.
* `Bstream.WithinFront`: the condition on a stream for all writers.

## Main results

* `readExact_iff`: the exact condition, in every reachable stream.
* `readExact_forall_iff`: that for all writers at once.
* `not_readExact_two_segments`: two segments of one and two bytes, and a read of two.
-/

namespace Qkmetisc

variable {β : Type} {σ : Type}

/-- A writer that accepts everything it is offered. -/
def Writer.Greedy (w : Writer σ β) : Prop := ∀ s src, (w.call s src).1 = src.length

namespace Bstream

/-- A read of `len` bytes keeps to its length. -/
structure ReadExact (bs : Bstream β) (w : Writer σ β) (s : σ) (len : ℕ) : Prop where
  /-- The writer is offered at most `len` bytes in total. -/
  offered : offeredLen (bs.writerCalls w s len) ≤ len
  /-- The result is the number of bytes accepted. -/
  accepted : (bs.read w s len).1 = (deliveredBytes (bs.writerCalls w s len)).length
  /-- The result is at most `len`. -/
  le_len : (bs.read w s len).1 ≤ len
  /-- If the writer accepts everything it is offered, it gets as much as there is, up to `len`. -/
  greedy : (∀ call ∈ bs.writerCalls w s len, call.2 = call.1.length) →
    (bs.read w s len).1 = min len bs.content.length ∧
      deliveredBytes (bs.writerCalls w s len) = bs.content.take len

/-- The unread length of the first buffer of a chain that has any, or zero. -/
def chainFront (chain : List (Buffer β)) : ℕ :=
  ((chain.map Buffer.len).find? (0 < ·)).getD 0

/-- The unread length of the first buffer that has any, or zero. -/
def frontLen (bs : Bstream β) : ℕ := chainFront bs.chain

/-- The unread length up to and including the first buffer that a writer does not take whole,
when it is offered the unread bytes of one buffer after the other. -/
def untilRefused (w : Writer σ β) (s : σ) : List (Buffer β) → ℕ
  | [] => 0
  | bb :: rest =>
    let out := w.call s bb.unread
    bb.len + if out.1 < bb.len then 0 else untilRefused w out.2 rest

/-- The condition under which a read of `len` bytes keeps to its length. -/
def WithinQuota (bs : Bstream β) (w : Writer σ β) (s : σ) (len : ℕ) : Prop :=
  len ≤ bs.frontLen ∨ untilRefused w s bs.chain ≤ len

instance (bs : Bstream β) (w : Writer σ β) (s : σ) (len : ℕ) :
    Decidable (bs.WithinQuota w s len) :=
  inferInstanceAs (Decidable (_ ∨ _))

/-- The condition under which it does so for every writer. -/
def WithinFront (bs : Bstream β) (len : ℕ) : Prop :=
  len ≤ bs.frontLen ∨ bs.content.length ≤ len

end Bstream

/-! ## What the loop offers and delivers -/

/-- What is delivered has been offered. -/
theorem length_deliveredBytes_le (calls : List (WriterCall β)) :
    (deliveredBytes calls).length ≤ offeredLen calls := by
  induction calls with
  | nil => exact Nat.le_refl _
  | cons call calls ih =>
    rw [deliveredBytes_cons, offeredLen_cons, List.length_append]
    exact Nat.add_le_add (List.length_take_le' _ _) ih

/-- What is accepted as a whole is delivered as a whole. -/
theorem length_deliveredBytes_of_accepted {calls : List (WriterCall β)}
    (h : ∀ call ∈ calls, call.2 = call.1.length) :
    (deliveredBytes calls).length = offeredLen calls := by
  induction calls with
  | nil => rfl
  | cons call calls ih =>
    obtain ⟨hcall, hcalls⟩ := List.forall_mem_cons.1 h
    rw [deliveredBytes_cons, offeredLen_cons, List.length_append, ih hcalls, hcall,
      List.take_length]

namespace Bstream

variable {w : Writer σ β} {s : σ} {chain : List (Buffer β)} {remain : ℕ}
  {calls : List (WriterCall β)}

theorem chainFront_of_pos {bb : Buffer β} (h : 0 < bb.len) (rest : List (Buffer β)) :
    chainFront (bb :: rest) = bb.len := by
  simp [chainFront, h]

theorem chainFront_of_zero {bb : Buffer β} (h : bb.len = 0) (rest : List (Buffer β)) :
    chainFront (bb :: rest) = chainFront rest := by
  simp [chainFront, h]

theorem untilRefused_cons (w : Writer σ β) (s : σ) (bb : Buffer β) (rest : List (Buffer β)) :
    untilRefused w s (bb :: rest) =
      bb.len + if (w.call s bb.unread).1 < bb.len then 0
        else untilRefused w (w.call s bb.unread).2 rest := rfl

/-- What the writer is counted up to is part of the content. -/
theorem untilRefused_le (hwf : ∀ bb ∈ chain, bb.WF) (w : Writer σ β) (s : σ) :
    untilRefused w s chain ≤ (chainContent chain).length := by
  induction chain generalizing s with
  | nil => exact Nat.le_refl _
  | cons bb rest ih =>
    obtain ⟨hbb, hrest⟩ := List.forall_mem_cons.1 hwf
    have hnext := ih hrest (w.call s bb.unread).2
    rw [untilRefused_cons, chainContent_cons, List.length_append, hbb.length_unread]
    split <;> omega

section Loop

variable (hwf : ∀ bb ∈ chain, bb.WF) (hcalls : LoopCalls w remain s chain calls)

include hwf hcalls

/-- When the first buffer with unread bytes has enough of them, the loop offers no more than
`remain`. -/
theorem LoopCalls.offeredLen_le_remain (hfront : remain ≤ chainFront chain) :
    offeredLen calls ≤ remain := by
  induction hcalls with
  | nil s => exact Nat.zero_le _
  | stop rest hanswer hle hstop =>
    rw [offeredLen_singleton, List.length_take]
    exact (Nat.min_le_left _ _).trans (Nat.min_le_left _ _)
  | @pass s bb rest calls hlt hanswer hcalls ih =>
    -- only empty buffers are passed before the first one with unread bytes
    rcases Nat.eq_zero_or_pos bb.len with hzero | hpos
    · rw [chainFront_of_zero hzero] at hfront
      have hunread := (hwf bb List.mem_cons_self).length_unread
      rw [offeredLen_cons, hunread, hzero, Nat.zero_add]
      exact ih (List.forall_mem_cons.1 hwf).2 hfront
    · rw [chainFront_of_pos hpos] at hfront
      omega

/-- The loop does not go past the first buffer that the writer does not take whole. -/
theorem LoopCalls.offeredLen_le_untilRefused : offeredLen calls ≤ untilRefused w s chain := by
  induction hcalls with
  | nil s => exact Nat.le_refl _
  | @stop s bb rest n hanswer hle hstop =>
    have hunread := (hwf bb List.mem_cons_self).length_unread
    rw [offeredLen_singleton, List.length_take, hunread, untilRefused_cons]
    omega
  | @pass s bb rest calls hlt hanswer hcalls ih =>
    have hunread := (hwf bb List.mem_cons_self).length_unread
    rw [offeredLen_cons, untilRefused_cons, hunread, hanswer, if_neg (Nat.lt_irrefl _)]
    exact Nat.add_le_add_left (ih (List.forall_mem_cons.1 hwf).2) _

/-- The loop offers at least `remain` bytes, or all up to that buffer. -/
theorem LoopCalls.min_le_offeredLen : min remain (untilRefused w s chain) ≤ offeredLen calls := by
  induction hcalls with
  | nil s => simp [untilRefused]
  | @stop s bb rest n hanswer hle hstop =>
    have hunread := (hwf bb List.mem_cons_self).length_unread
    rw [offeredLen_singleton, List.length_take, hunread]
    rcases Nat.lt_or_ge remain bb.len with hlong | hfits
    · omega
    · -- the buffer was offered as a whole, so the loop stopped because some of it was refused
      rw [Nat.min_eq_right hfits, List.take_of_length_le (Nat.le_of_eq hunread)] at hanswer
      rw [untilRefused_cons]
      split <;> omega
  | @pass s bb rest calls hlt hanswer hcalls ih =>
    have hunread := (hwf bb List.mem_cons_self).length_unread
    have hnext := ih (List.forall_mem_cons.1 hwf).2
    rw [offeredLen_cons, untilRefused_cons, hunread, hanswer, if_neg (Nat.lt_irrefl _)]
    omega

/-- The loop offers more than `remain` bytes when the first buffer with unread bytes has fewer,
and those up to the first one that is not taken whole have more. -/
theorem LoopCalls.remain_lt_offeredLen (hfront : chainFront chain < remain)
    (hlong : remain < untilRefused w s chain) : remain < offeredLen calls := by
  induction hcalls with
  | nil s => simp [untilRefused] at hlong
  | @stop s bb rest n hanswer hle hstop =>
    rcases Nat.eq_zero_or_pos bb.len with hzero | hpos
    · omega
    · have hunread := (hwf bb List.mem_cons_self).length_unread
      rw [chainFront_of_pos hpos] at hfront
      rw [Nat.min_eq_right hfront.le, List.take_of_length_le (Nat.le_of_eq hunread)] at hanswer
      rw [untilRefused_cons] at hlong
      split at hlong <;> omega
  | @pass s bb rest calls hlt hanswer hcalls ih =>
    have hunread := (hwf bb List.mem_cons_self).length_unread
    have hrest : ∀ b ∈ rest, b.WF := (List.forall_mem_cons.1 hwf).2
    rw [untilRefused_cons, hanswer, if_neg (Nat.lt_irrefl _)] at hlong
    rw [offeredLen_cons, hunread]
    rcases Nat.eq_zero_or_pos bb.len with hzero | hpos
    · rw [chainFront_of_zero hzero] at hfront
      have hnext := ih hrest hfront (by omega)
      omega
    · -- from here on the quota starts again at `remain`
      have hnext := hcalls.min_le_offeredLen hrest
      omega

omit hwf in
theorem LoopCalls.accepts_of_greedy (hw : w.Greedy) : ∀ call ∈ calls, call.2 = call.1.length := by
  induction hcalls with
  | nil s => simp
  | stop rest hanswer hle hstop => simpa using hanswer.trans (hw _ _)
  | pass hlt hanswer hcalls ih =>
    exact List.forall_mem_cons.2 ⟨hanswer.symm.trans (hw _ _), ih⟩

/-- A writer that accepts all it is offered, and is not offered more than some part of `remain`,
gets that part of the content. -/
theorem LoopCalls.delivered_take (haccepts : ∀ call ∈ calls, call.2 = call.1.length) {quota : ℕ}
    (hquota : quota ≤ remain) (hoffered : offeredLen calls ≤ quota) :
    deliveredBytes calls = (chainContent chain).take quota := by
  induction hcalls generalizing quota with
  | nil s => simp
  | @stop s bb rest n hanswer hle hstop =>
    have hunread := (hwf bb List.mem_cons_self).length_unread
    have hn := haccepts _ (List.mem_singleton_self _)
    rw [offeredLen_singleton] at hoffered
    simp only [List.length_take, hunread] at hn hoffered
    -- nothing was refused, so the loop stopped because it had `remain` bytes
    have hall : n = remain ∧ remain ≤ bb.len := by omega
    rw [deliveredBytes_singleton, chainContent_cons, List.take_take,
      List.take_append_of_le_length (by omega)]
    congr 1
    omega
  | @pass s bb rest calls hlt hanswer hcalls ih =>
    have hunread := (hwf bb List.mem_cons_self).length_unread
    rw [offeredLen_cons, hunread] at hoffered
    have hnext := ih (List.forall_mem_cons.1 hwf).2 (List.forall_mem_cons.1 haccepts).2
      (Nat.le_trans (Nat.sub_le quota bb.len) hquota) (by omega)
    have hwhole {k : ℕ} (hk : bb.len ≤ k) : bb.unread.take k = bb.unread :=
      List.take_of_length_le (hunread.trans_le hk)
    rw [deliveredBytes_cons, chainContent_cons, hnext, List.take_append, hunread,
      hwhole (Nat.le_refl _), hwhole (by omega)]

end Loop

/-! ## One read -/

variable {bs : Bstream β} {len : ℕ}

/-- The writer is offered no more than `len` bytes exactly within the quota. -/
theorem offeredLen_le_iff (h : bs.WF) (w : Writer σ β) (s : σ) (len : ℕ) :
    offeredLen (bs.writerCalls w s len) ≤ len ↔ bs.WithinQuota w s len := by
  have hloop := (read_calls h w s len).loop
  constructor
  · intro hoffered
    by_contra hquota
    rw [WithinQuota, not_or, Nat.not_le, Nat.not_le] at hquota
    exact Nat.not_lt.2 hoffered (hloop.remain_lt_offeredLen h hquota.1 hquota.2)
  · rintro (hfront | hrefused)
    · exact hloop.offeredLen_le_remain h hfront
    · exact (hloop.offeredLen_le_untilRefused h).trans hrefused

/-- A read that offers no more than `len` bytes keeps to its length in everything. -/
theorem readExact_of_offeredLen_le (h : bs.WF) (hlen : len < SIZE_T_RANGE)
    (hoffered : offeredLen (bs.writerCalls w s len) ≤ len) : bs.ReadExact w s len := by
  have hspec := read_calls h w s len
  have hle := (length_deliveredBytes_le _).trans hoffered
  have haccepted : (bs.read w s len).1 = (deliveredBytes (bs.writerCalls w s len)).length := by
    rw [hspec.res_eq]
    exact Nat.mod_eq_of_lt (by omega)
  refine ⟨hoffered, haccepted, haccepted.trans_le hle, fun haccepts => ?_⟩
  have htake : deliveredBytes (bs.writerCalls w s len) = bs.content.take len :=
    hspec.loop.delivered_take h haccepts (Nat.le_refl len) hoffered
  exact ⟨by rw [haccepted, htake, List.length_take], htake⟩

theorem readExact_iff_withinQuota (h : bs.WF) (hlen : len < SIZE_T_RANGE) :
    bs.ReadExact w s len ↔ bs.WithinQuota w s len :=
  ⟨fun hexact => (offeredLen_le_iff h w s len).1 hexact.offered,
    fun hquota => readExact_of_offeredLen_le h hlen ((offeredLen_le_iff h w s len).2 hquota)⟩

/-! ## Writers that refuse nothing -/

theorem memwriter_greedy : (memwriter : Writer (List β) β).Greedy := fun _ _ => rfl

theorem untilRefused_of_greedy (hwf : ∀ bb ∈ chain, bb.WF) (hw : w.Greedy) (s : σ) :
    untilRefused w s chain = (chainContent chain).length := by
  induction chain generalizing s with
  | nil => rfl
  | cons bb rest ih =>
    obtain ⟨hbb, hrest⟩ := List.forall_mem_cons.1 hwf
    have hall : (w.call s bb.unread).1 = bb.len := (hw s _).trans hbb.length_unread
    rw [untilRefused_cons, hall, if_neg (Nat.lt_irrefl _), ih hrest, chainContent_cons,
      List.length_append, hbb.length_unread]

theorem withinQuota_of_greedy (h : bs.WF) (hw : w.Greedy) (s : σ) :
    bs.WithinQuota w s len ↔ bs.WithinFront len := by
  rw [WithinQuota, untilRefused_of_greedy h hw]
  rfl

/-- What `bstream_read_mem` stores is what its writer is offered. -/
theorem length_readMem (h : bs.WF) (len : ℕ) :
    (bs.readMem len).2.2.length = offeredLen (bs.writerCalls memwriter [] len) := by
  rw [readMem_stored]
  exact length_deliveredBytes_of_accepted
    ((read_calls h memwriter [] len).loop.accepts_of_greedy memwriter_greedy)

/-- `bstream_read_mem` stores no more than `len` bytes exactly within the front buffer, or past
the end of the content. -/
theorem length_readMem_le_iff (h : bs.WF) (len : ℕ) :
    (bs.readMem len).2.2.length ≤ len ↔ bs.WithinFront len := by
  rw [length_readMem h, offeredLen_le_iff h, withinQuota_of_greedy h memwriter_greedy]

end Bstream

/-- In every reachable stream, and for every writer in every state, a read of `len` bytes keeps to
its length exactly when it stays within the first buffer with unread bytes or has no more than
`len` bytes up to the first buffer that the writer does not take whole; a read into memory, exactly
when it stays within that first buffer or reaches the end of the content. -/
theorem readExact_iff (ops : List (StreamOp β)) (len : ℕ) (hlen : len < SIZE_T_RANGE) :
    (∀ {σ : Type} (w : Writer σ β) (s : σ),
      (InputMachine.run Bstream.exec Bstream.create ops).ReadExact w s len ↔
        (InputMachine.run Bstream.exec Bstream.create ops).WithinQuota w s len) ∧
      (((InputMachine.run Bstream.exec Bstream.create ops).readMem len).2.2.length ≤ len ↔
        (InputMachine.run Bstream.exec Bstream.create ops).WithinFront len) := by
  have h := (Bstream.run_valid ops).wf
  exact ⟨fun w s => Bstream.readExact_iff_withinQuota h hlen, Bstream.length_readMem_le_iff h len⟩

/-- Two borrowed segments, of one and of two bytes. -/
def twoSegments : List (StreamOp ℕ) :=
  [.writeBorrow [1] true, .writeBorrow [2, 3] true]

/-- A descriptor that takes nothing is offered one byte of the two segments and no second one, so
that a read of two bytes keeps to its length. -/
theorem readExact_two_segments_again : 2 < SIZE_T_RANGE ∧
    (InputMachine.run Bstream.exec Bstream.create twoSegments).ReadExact
      (fdwriter fun _ => none) (0, []) 2 :=
  ⟨by decide, ((readExact_iff twoSegments 2 (by decide)).1 _ _).2 (by decide)⟩

/-- In memory, the same read stores three bytes. -/
theorem not_readExact_two_segments :
    ¬ (InputMachine.run Bstream.exec Bstream.create twoSegments).ReadExact memwriter [] 2 ∧
      2 < ((InputMachine.run Bstream.exec Bstream.create twoSegments).readMem 2).2.2.length := by
  refine ⟨fun h => ?_, by decide +kernel⟩
  have hoffered := h.offered
  revert hoffered
  decide +kernel

/-- A read of `len` bytes keeps to its length for all writers alike exactly when it stays within
the first buffer with unread bytes or reaches the end of the content. -/
theorem readExact_forall_iff (ops : List (StreamOp β)) (len : ℕ) (hlen : len < SIZE_T_RANGE) :
    (∀ {σ : Type} (w : Writer σ β) (s : σ),
      (InputMachine.run Bstream.exec Bstream.create ops).ReadExact w s len) ↔
        (InputMachine.run Bstream.exec Bstream.create ops).WithinFront len := by
  have h := (Bstream.run_valid ops).wf
  constructor
  · intro hexact
    rw [← Bstream.withinQuota_of_greedy h Bstream.memwriter_greedy []]
    exact (Bstream.readExact_iff_withinQuota h hlen).1 (hexact _ _)
  · intro hfront σ w s
    refine (Bstream.readExact_iff_withinQuota h hlen).2 ?_
    exact hfront.imp_right (Bstream.untilRefused_le h w s).trans

end Qkmetisc
