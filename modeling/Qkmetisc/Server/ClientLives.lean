import Mathlib.Data.Fintype.Card
import Qkmetisc.Server.Sections

/-!
# The clients of a worker over whole runs

Each thread keeps what it owes between its locked sections, and touches only the client it works
on. So the ring, the counter and the clients belong together in every state that any interleaving
of the two threads reaches, and no assertion on a current task fails.

## Main definitions

* `ServerWorker.Linked`: the ring, the counter, the descriptors and the timers.
* `ServerWorker.Apart`: what a thread changes while it works on one client.
* `ServerWorker.Inv`: the invariant.

## Main results

* `exec_linked`: what one operation does to the worker.
* `advance_spec`: what a thread does up to its next pause.
* `consistent_throughout`: every state of every run is consistent.
-/

namespace Qkmetisc.Server

/-! ## More about operations -/

section Operations

variable {ans : Answers} {adds : Bool} {o : Op} {s : State}

/-- A permitted operation is no failed assertion. -/
theorem exec_asserted (ans : Answers) (hp : o.Permitted adds s) (h : .aborted ∉ s.log) :
    .aborted ∉ (exec ans o s).2.log := by
  cases o with
  | abort => exact hp.elim
  | register ev | plotGetTask | plotTaskGetQuestion pt | epollMod ev =>
    simp only [exec]
    split <;> simp_all [State.take, State.observe]
  | deregister | closeSocket | free x | plotTaskCheckFd pt | readFd len | armTimer msec
  | timerDestroy id => simpa [exec, State.observe, State.send, State.arm] using h
  | _ => exact h

/-- A timer that is in the ring after an operation was there before, or is the one the operation
has armed. -/
theorem exec_timers (ans : Answers) (o : Op) (s : State) :
    ∀ timer ∈ (exec ans o s).2.timers,
      timer ∈ s.timers ∨ (∃ msec, o = .armTimer msec) ∧ timer.id = s.timersMade := by
  intro timer hmem
  cases o with
  | armTimer msec =>
    rcases List.mem_append.1 hmem with hold | hnew
    · exact .inl hold
    · exact .inr ⟨⟨msec, rfl⟩, by rw [List.mem_singleton.1 hnew]⟩
  | timerDestroy id => exact .inl (List.mem_filter.1 hmem).1
  | initClient => exact absurd hmem List.not_mem_nil
  | plotGetTask | plotTaskGetQuestion pt | register ev | epollMod ev =>
    simp only [exec] at hmem
    split at hmem <;> exact .inl hmem
  | _ => exact .inl hmem

/-- The numbers of timers are given out in order. -/
theorem exec_timersMade_le (ans : Answers) (o : Op) (s : State) :
    s.timersMade ≤ (exec ans o s).2.timersMade := by
  cases o with
  | armTimer msec => exact Nat.le_succ _
  | plotGetTask | plotTaskGetQuestion pt | register ev | epollMod ev =>
    simp only [exec]
    split <;> exact le_refl _
  | _ => exact le_refl _

end Operations

/-- A job between two locked sections: it has left the client as it should, and will do so again
when it goes on. -/
structure Job.Pending (adds : Bool) (w : ServerWorker) (j : Job) : Prop where
  paused : (w.view j.client).Paused
  upheld : ∀ s, (w.view j.client).Waited s →
    Upholds j.answers adds j.todo (fun _ => State.AtRest) s

namespace ServerWorker

variable {ans : Answers} {adds : Bool} {o : Op} {w w' : ServerWorker} {c d : ℕ} {j : Job}

@[simp]
theorem view_put (w : ServerWorker) (c : ℕ) (s : State) : (w.put c s).view c = s := by
  simp [view, put]

/-! ## The ring, the counter and the timers -/

/-- The ring, the counter, the descriptors and the timers belong together. -/
structure Linked (w : ServerWorker) : Prop where
  counted : w.clientsNr.toNat = w.clients.length
  sockfds : (w.clients.map w.sockfd).Nodup
  ring : ∀ c, (w.client c).interest.isSome ↔ c ∈ w.clients
  owned : ∀ c, ∀ timer ∈ (w.client c).timers,
    w.timerClient timer.id = c ∧ timer.id < w.timersMade
  asserted : ∀ c, .aborted ∉ (w.client c).log

/-- A thread that works on the client `c` has changed neither another client nor its place in the
ring; only a thread that adds clients has added any. -/
structure Apart (adds : Bool) (c : ℕ) (w w' : ServerWorker) : Prop where
  client : ∀ d, d ≠ c → w'.client d = w.client d
  ring : ∀ d, d ≠ c → d ∈ w'.clients → d ∈ w.clients
  added : adds = false → c ∈ w'.clients → c ∈ w.clients
  sockfd : w'.sockfd = w.sockfd
  timersMade : w.timersMade ≤ w'.timersMade
  clientsMade : w'.clientsMade = w.clientsMade
  acceptor : w'.acceptor = w.acceptor
  worker : w'.worker = w.worker

theorem Apart.refl : Apart adds c w w :=
  ⟨fun _ _ => rfl, fun _ _ h => h, fun _ h => h, rfl, le_refl _, rfl, rfl, rfl⟩

theorem Apart.trans {w'' : ServerWorker} (h : Apart adds c w w') (h' : Apart adds c w' w'') :
    Apart adds c w w'' where
  client d hd := (h'.client d hd).trans (h.client d hd)
  ring d hd hmem := h.ring d hd (h'.ring d hd hmem)
  added hadds hmem := h.added hadds (h'.added hadds hmem)
  sockfd := h'.sockfd.trans h.sockfd
  timersMade := h.timersMade.trans h'.timersMade
  clientsMade := h'.clientsMade.trans h.clientsMade
  acceptor := h'.acceptor.trans h.acceptor
  worker := h'.worker.trans h.worker

/-- No other client in the ring has the client's descriptor. -/
def Unshared (w : ServerWorker) (c : ℕ) : Prop :=
  ∀ d ∈ w.clients, d ≠ c → w.sockfd d ≠ w.sockfd c

/-- A thread that works on the client itself does not make it share its descriptor. -/
theorem Unshared.apart (h : w.Unshared c) (hapart : Apart adds c w w') : w'.Unshared c := by
  intro d hmem hd
  rw [hapart.sockfd]
  exact h d (hapart.ring d hd hmem) hd

theorem Linked.nodup (h : w.Linked) : w.clients.Nodup := h.sockfds.of_map _

/-- There are no more clients in the ring than descriptors. -/
theorem length_le_of_nodup (h : (w.clients.map w.sockfd).Nodup) : w.clients.length ≤ 2 ^ 31 := by
  simpa using h.length_le_card

/-- A permitted timer belongs to the client. -/
theorem Linked.target_eq (h : w.Linked) (hp : o.Permitted adds (w.view c)) : w.target c o = c := by
  cases o with
  | timerDestroy id =>
    obtain ⟨timer, hmem, hid⟩ := hp
    exact hid ▸ (h.owned c timer hmem).1
  | _ => rfl

/-! ## One operation -/

section Link

variable {r : o.Ans}

@[simp]
theorem link_client : (w.link c o r).client = w.client := by
  cases o with
  | register ev => simp only [link]; split <;> rfl
  | _ => rfl

@[simp]
theorem link_sockfd : (w.link c o r).sockfd = w.sockfd := by
  cases o with
  | register ev => simp only [link]; split <;> rfl
  | _ => rfl

@[simp]
theorem link_clientsMade : (w.link c o r).clientsMade = w.clientsMade := by
  cases o with
  | register ev => simp only [link]; split <;> rfl
  | _ => rfl

@[simp]
theorem link_acceptor : (w.link c o r).acceptor = w.acceptor := by
  cases o with
  | register ev => simp only [link]; split <;> rfl
  | _ => rfl

@[simp]
theorem link_worker : (w.link c o r).worker = w.worker := by
  cases o with
  | register ev => simp only [link]; split <;> rfl
  | _ => rfl

/-- Only the two locked sections change the ring. -/
theorem link_clients (ho : o.KeepsSocket) : (w.link c o r).clients = w.clients := by
  cases o with
  | register ev | deregister => exact ho.elim
  | _ => rfl

/-- Other clients stay in the ring, or out of it. -/
theorem mem_link_clients (hd : d ≠ c) : d ∈ (w.link c o r).clients ↔ d ∈ w.clients := by
  cases o with
  | register ev =>
    simp only [link]
    split <;> simp [hd]
  | deregister => exact List.mem_erase_of_ne hd
  | _ => exact Iff.rfl

/-- The timers that have been armed keep their clients. -/
theorem link_timerClient {id : ℕ} (hid : id < w.timersMade) :
    (w.link c o r).timerClient id = w.timerClient id := by
  cases o with
  | register ev => simp only [link]; split <;> rfl
  | armTimer msec => exact Function.update_of_ne hid.ne _ _
  | _ => rfl

/-- A client is added to the ring only if its descriptor is not in there. -/
theorem nodup_link_clients (h : w.Linked) (hp : o.Permitted adds (w.view c))
    (hunshared : adds = true → w.Unshared c) :
    ((w.link c o r).clients.map w.sockfd).Nodup := by
  cases o with
  | register ev =>
    obtain ⟨hadds, hout⟩ := hp
    simp only [link]
    split
    · have hmem : c ∉ w.clients := by
        intro hmem
        have hring := (h.ring c).2 hmem
        rw [show (w.client c).interest = none from hout] at hring
        simp at hring
      -- the other clients have other descriptors
      have hne : ∀ d ∈ w.clients, w.sockfd d ≠ w.sockfd c :=
        fun d hd => hunshared hadds d hd fun heq => hmem (heq ▸ hd)
      simpa [List.nodup_append, h.sockfds] using hne
    · exact h.sockfds
  | deregister => exact h.sockfds.sublist (List.erase_sublist.map _)
  | _ => exact h.sockfds

/-- The counter keeps up with the ring. -/
theorem link_counted (h : w.Linked) (hp : o.Permitted adds (w.view c))
    (hunshared : adds = true → w.Unshared c) :
    (w.link c o r).clientsNr.toNat = (w.link c o r).clients.length := by
  have hcounted := h.counted
  have hbound : (w.link c o r).clients.length ≤ 2 ^ 31 := by
    have hnodup := nodup_link_clients (r := r) h hp hunshared
    rw [← link_sockfd (c := c) (o := o) (r := r)] at hnodup
    exact length_le_of_nodup hnodup
  cases o with
  | register ev =>
    simp only [link] at hbound ⊢
    split at hbound
    next hok =>
      simp only [hok, ↓reduceIte, List.length_append, List.length_singleton] at hbound ⊢
      -- there are fewer descriptors than values of the counter
      rw [BitVec.toNat_add, hcounted, Nat.mod_eq_of_lt]
      · rfl
      · simp
        omega
    next hok => simpa [hok] using hcounted
  | deregister =>
    -- the client is in the ring, so the counter is not 0
    have hmem : c ∈ w.clients := (h.ring c).1 hp
    have hpos := List.length_pos_of_mem hmem
    have hlength := List.length_erase_of_mem hmem
    have hle := length_le_of_nodup h.sockfds
    simp only [link]
    rw [hlength, BitVec.toNat_sub_of_le, hcounted]
    · rfl
    · rw [BitVec.le_def, hcounted]
      exact hpos
  | _ => exact hcounted

end Link

/-- The client is in the ring after an operation exactly if it is in the epoll instance. -/
theorem mem_link_clients_self (ans : Answers) (h : w.Linked) (hp : o.Permitted adds (w.view c)) :
    (Server.exec ans o (w.view c)).2.interest.isSome ↔
      c ∈ (w.link c o (Server.exec ans o (w.view c)).1).clients := by
  have hring : (w.view c).interest.isSome ↔ c ∈ w.clients := h.ring c
  by_cases hkeeps : o.KeepsSocket
  · rw [exec_interest ans o hkeeps, link_clients hkeeps]
    exact hring
  · cases o with
    | register ev =>
      simp only [link, Server.exec]
      split
      · simp [State.observe]
      · simpa using hring
    | deregister => simp [link, Server.exec, State.observe, h.nodup.mem_erase_iff]
    | closeSocket => exact hring
    | _ => exact absurd trivial hkeeps

/-- After a permitted operation the ring, the counter and the timers are in order. -/
theorem linked_put (ans : Answers) (h : w.Linked) (hp : o.Permitted adds (w.view c))
    (hunshared : adds = true → w.Unshared c) :
    ((w.link c o (Server.exec ans o (w.view c)).1).put c
      (Server.exec ans o (w.view c)).2).Linked := by
  have hring := mem_link_clients_self ans h hp
  have hcounted := link_counted (r := (Server.exec ans o (w.view c)).1) h hp hunshared
  have hsockfds := nodup_link_clients (r := (Server.exec ans o (w.view c)).1) h hp hunshared
  have hmade := exec_timersMade_le ans o (w.view c)
  constructor
  · exact hcounted
  · simpa [put] using hsockfds
  · intro d
    by_cases hd : d = c
    · subst hd
      simpa [put] using hring
    · simpa [put, hd, mem_link_clients hd] using h.ring d
  · intro d timer hmem
    by_cases hd : d = c
    · subst hd
      have hmem : timer ∈ (Server.exec ans o (w.view d)).2.timers := by
        simpa [put] using hmem
      rcases exec_timers ans o (w.view d) timer hmem with hold | ⟨⟨msec, rfl⟩, hid⟩
      · obtain ⟨howner, hlt⟩ := h.owned d timer hold
        exact ⟨(link_timerClient hlt).trans howner, hlt.trans_le hmade⟩
      · -- the new timer is told its client
        have hid : timer.id = w.timersMade := hid
        rw [hid]
        exact ⟨Function.update_self _ _ _, Nat.lt_succ_self _⟩
    · have hmem : timer ∈ (w.client d).timers := by
        simpa [put, hd] using hmem
      obtain ⟨howner, hlt⟩ := h.owned d timer hmem
      exact ⟨(link_timerClient hlt).trans howner, hlt.trans_le hmade⟩
  · intro d
    by_cases hd : d = c
    · subst hd
      simpa [put] using exec_asserted ans hp (h.asserted d)
    · simpa [put, hd] using h.asserted d

/-- A permitted operation touches no other client. -/
theorem apart_put (ans : Answers) (hp : o.Permitted adds (w.view c)) :
    Apart adds c w ((w.link c o (Server.exec ans o (w.view c)).1).put c
      (Server.exec ans o (w.view c)).2) where
  client d hd := by simp [put, hd]
  ring d hd := (mem_link_clients hd).1
  added hadds hmem := by
    cases o with
    -- a thread that adds no clients is not permitted the section that does
    | register ev => simp [Op.Permitted, hadds] at hp
    | deregister => exact List.mem_of_mem_erase hmem
    | _ => exact hmem
  sockfd := link_sockfd
  timersMade := exec_timersMade_le ans o (w.view c)
  clientsMade := link_clientsMade
  acceptor := link_acceptor
  worker := link_worker

/-- What a permitted operation of a thread does to the client it works on is what it does to a
client by itself, and the ring, the counter and the timers stay in order. -/
theorem exec_linked (ans : Answers) (h : w.Linked) (hp : o.Permitted adds (w.view c))
    (hunshared : adds = true → w.Unshared c) :
    ((exec c ans o w).2.Linked ∧ Apart adds c w (exec c ans o w).2) ∧
      (exec c ans o w).1 = (Server.exec ans o (w.view c)).1 ∧
      (exec c ans o w).2.view c = (Server.exec ans o (w.view c)).2 := by
  simp only [exec, h.target_eq hp, view_put, and_true]
  exact ⟨linked_put ans h hp hunshared, apart_put ans hp⟩

/-! ## One thread -/

/-- A client that no thread works on waits. -/
theorem Apart.waited (h : Apart adds c w w') (hd : d ≠ c) : (w.view d).Waited (w'.view d) where
  timersMade := h.timersMade
  same := by simp [view, h.client d hd]

/-- A job waits while the other thread works on another client. -/
theorem Apart.pending {adds' : Bool} (h : Apart adds c w w') (hj : j.Pending adds' w)
    (hclient : j.client ≠ c) : j.Pending adds' w' where
  paused := hj.paused.waited (h.waited hclient)
  upheld s hs := hj.upheld s ((h.waited hclient).trans hs)

/-- A thread that goes on leaves its client settled, or has more to do with it. -/
theorem advance_spec (h : w.Linked) (hj : j.Pending adds w)
    (hunshared : adds = true → w.Unshared j.client) :
    (w.advance j).2.Linked ∧ Apart adds j.client w (w.advance j).2 ∧
      (∀ j' ∈ (w.advance j).1, j'.client = j.client ∧ j'.Pending adds (w.advance j).2) ∧
      ((w.advance j).1 = none → ((w.advance j).2.view j.client).AtRest) := by
  -- what holds before each operation, and what it has to do with the start
  have hstep : ∀ o w', (w'.Linked ∧ Apart adds j.client w w') →
      (clientTerms adds).Permitted o (w'.view j.client) →
      ((exec j.client j.answers o w').2.Linked ∧
        Apart adds j.client w (exec j.client j.answers o w').2) ∧
      (exec j.client j.answers o w').1 = (Server.exec j.answers o (w'.view j.client)).1 ∧
      (exec j.client j.answers o w').2.view j.client =
        (Server.exec j.answers o (w'.view j.client)).2 := by
    intro o w' hw' hp
    obtain ⟨⟨hlinked, hapart⟩, hrest⟩ := exec_linked j.answers hw'.1 hp fun hadds =>
      (hunshared hadds).apart hw'.2
    exact ⟨⟨hlinked, hw'.2.trans hapart⟩, hrest⟩
  have hupheld := hj.upheld (w.view j.client) (State.Waited.refl _)
  obtain ⟨⟨hlinked, hapart⟩, hstands⟩ :=
    Prog.Upheld.advance (fun w : ServerWorker => w.view j.client) hstep ⟨h, Apart.refl⟩ hupheld
  refine ⟨hlinked, hapart, ?_, ?_⟩
  · intro j' hj'
    simp only [advance] at hj'
    split at hj'
    next => simp at hj'
    next hreturned =>
      obtain rfl := Option.some.inj hj'
      obtain ⟨hpause, hrest⟩ := hstands.of_not_returned hreturned
      exact ⟨rfl, hpause, hrest⟩
  · intro hnone
    simp only [advance] at hnone
    split at hnone
    next hreturned =>
      obtain ⟨-, -, hsettled⟩ := hstands.of_returned hreturned (State.Waited.refl _)
      exact hsettled
    next => simp at hnone

/-! ## Both threads -/

/-- A thread works on the client. -/
def Busy (w : ServerWorker) (c : ℕ) : Prop :=
  (∃ j ∈ w.acceptor, j.client = c) ∨ ∃ j ∈ w.worker, j.client = c

/-- The invariant of all steps. -/
structure Inv (w : ServerWorker) : Prop where
  linked : w.Linked
  fresh : ∀ c, w.clientsMade ≤ c → w.client c = .start
  settled : ∀ c, ¬ w.Busy c → (w.view c).AtRest
  adding : ∀ j ∈ w.acceptor,
    j.client < w.clientsMade ∧ j.Pending true w ∧ w.Unshared j.client
  handling : ∀ j ∈ w.worker, j.client < w.clientsMade ∧ j.Pending false w
  apart : ∀ i ∈ w.acceptor, ∀ j ∈ w.worker, i.client ≠ j.client

theorem inv_start : start.Inv where
  linked := by
    constructor
    · rfl
    · exact List.nodup_nil
    · simp [start, State.start]
    · simp [start, State.start]
    · simp [start, State.start]
  fresh _ _ := rfl
  settled _ _ := ⟨⟨State.numbered_nil rfl, fun hring => nomatch hring⟩, fun _ => rfl⟩
  adding _ hj := nomatch hj
  handling _ hj := nomatch hj
  apart _ hj := nomatch hj

/-- A client that has not been accepted yet is not in the ring. -/
theorem Inv.notMem (h : w.Inv) (hc : w.clientsMade ≤ c) : c ∉ w.clients := by
  rw [← h.linked.ring c, h.fresh c hc]
  simp [State.start]

/-- The acceptor takes a new client on. -/
theorem Inv.accept (h : w.Inv) (sockfd : Sockfd) (answers : Answers) :
    (w.step (.accept sockfd answers)).Inv := by
  simp only [step]
  split
  next hfree =>
    obtain ⟨hidle, hunused⟩ := hfree
    have hidle : w.acceptor = none := Option.isNone_iff_eq_none.1 hidle
    have hold : ∀ d ∈ w.clients, d ≠ w.clientsMade :=
      fun d hd heq => h.notMem (le_refl _) (heq ▸ hd)
    have hsockfds : w.clients.map (Function.update w.sockfd w.clientsMade sockfd) =
        w.clients.map w.sockfd :=
      List.map_congr_left fun d hd => Function.update_of_ne (hold d hd) _ _
    have hview : w.view w.clientsMade = { State.start with timersMade := w.timersMade } := by
      rw [view, h.fresh _ (le_refl _)]
    constructor
    · exact ⟨h.linked.counted, hsockfds ▸ h.linked.sockfds, h.linked.ring, h.linked.owned,
        h.linked.asserted⟩
    · exact fun c hc => h.fresh c (Nat.le_of_succ_le hc)
    · intro c hbusy
      refine h.settled c fun hbefore => hbusy ?_
      rcases hbefore with ⟨j, hj, -⟩ | hworker
      · simp [hidle] at hj
      · exact .inr hworker
    · rintro j hj
      obtain rfl := Option.some.inj hj
      -- nothing has happened to a client that has just been accepted
      have hempty : (w.view w.clientsMade).Empty := by
        rw [hview]
        exact ⟨rfl, rfl⟩
      refine ⟨Nat.lt_succ_self _, ⟨hempty.paused, fun s hs => ?_⟩, ?_⟩
      · refine serverMainThreadLoop_upheld (hempty.waited hs) ?_
        rw [hs.interest]
        exact congrArg State.interest hview
      · intro d hd hne
        simpa [Function.update_of_ne hne] using hunused d hd
    · intro j hj
      obtain ⟨hlt, hpending⟩ := h.handling j hj
      exact ⟨hlt.trans (Nat.lt_succ_self _), hpending.paused, hpending.upheld⟩
    · intro i hi j hj
      obtain rfl := Option.some.inj hi
      exact (h.handling j hj).1.ne'
  next => exact h

/-- The worker takes an event on. -/
theorem Inv.event (h : w.Inv) (e : Event) (answers : Answers) :
    (w.step (.event c e answers)).Inv := by
  simp only [step]
  split
  next hfree =>
    obtain ⟨hidle, hadding, hreportable⟩ := hfree
    have hidle : w.worker = none := Option.isNone_iff_eq_none.1 hidle
    -- the timer of an event belongs to the client the event is registered for
    have hclient : w.handled c e = c := by
      cases e with
      | timer id =>
        obtain ⟨timer, hmem, hid⟩ := hreportable
        exact hid ▸ (h.linked.owned c timer hmem).1
      | client ev => rfl
    have hidleClient : ¬ w.Busy c := by
      rintro (hacceptor | ⟨j, hj, -⟩)
      · exact hadding hacceptor
      · simp [hidle] at hj
    have hsettled := h.settled c hidleClient
    have hreportable : (w.view c).Reportable e := by
      cases e with
      | timer id => exact hreportable
      | client ev => exact hreportable
    have hserving := hsettled.serving hreportable
    -- a client with an event is in the ring, and so it has been accepted
    have hlt : c < w.clientsMade := by
      by_contra hge
      exact h.notMem (Nat.le_of_not_lt hge) ((h.linked.ring c).1 hserving.ring)
    rw [hclient]
    constructor
    · exact ⟨h.linked.counted, h.linked.sockfds, h.linked.ring, h.linked.owned,
        h.linked.asserted⟩
    · exact h.fresh
    · intro d hbusy
      refine h.settled d fun hbefore => hbusy ?_
      rcases hbefore with hacceptor | ⟨j, hj, -⟩
      · exact .inl hacceptor
      · simp [hidle] at hj
    · intro j hj
      obtain ⟨hlt', hpending, hunshared⟩ := h.adding j hj
      exact ⟨hlt', ⟨hpending.paused, hpending.upheld⟩, hunshared⟩
    · rintro j hj
      obtain rfl := Option.some.inj hj
      refine ⟨hlt, hsettled.toPaused, fun s hs => ?_⟩
      exact workerHandler_upheld (hserving.waited hs) (hs.reportable hreportable)
    · intro i hi j hj
      obtain rfl := Option.some.inj hj
      exact fun heq => hadding ⟨i, hi, heq⟩
  next => exact h

/-- A thread works on an accepted client only. -/
theorem Inv.fresh_apart (h : w.Inv) (hapart : Apart adds c w w') (hc : c < w.clientsMade) :
    ∀ d, w'.clientsMade ≤ d → w'.client d = .start := by
  intro d hd
  rw [hapart.clientsMade] at hd
  rw [hapart.client d (hc.trans_le hd).ne']
  exact h.fresh d hd

/-- After a thread has gone on with its client, a client that nobody works on any more is settled:
that client if the thread is done with it, and the others as before. -/
theorem Inv.settled_apart (h : w.Inv) (hapart : Apart adds d w w')
    (hself : c = d → (w'.view d).AtRest) (hother : c ≠ d → ¬ w.Busy c) : (w'.view c).AtRest := by
  by_cases hc : c = d
  · subst hc
    exact hself rfl
  · exact (h.settled c (hother hc)).waited (hapart.waited hc)

/-- The acceptor goes on. -/
theorem Inv.stepAcceptor (h : w.Inv) : (w.step .acceptor).Inv := by
  rcases hjob : w.acceptor with - | j
  · simpa [step, hjob] using h
  · have hmem : j ∈ w.acceptor := hjob
    obtain ⟨hlt, hpending, hunshared⟩ := h.adding j hmem
    obtain ⟨hlinked, hapart, hmore, hdone⟩ := advance_spec h.linked hpending fun _ => hunshared
    have hfresh := h.fresh_apart hapart hlt
    have hstep : w.step .acceptor = { (w.advance j).2 with acceptor := (w.advance j).1 } := by
      simp [step, hjob]
    rw [hstep]
    constructor
    · exact ⟨hlinked.counted, hlinked.sockfds, hlinked.ring, hlinked.owned, hlinked.asserted⟩
    · exact hfresh
    · intro c hbusy
      show ((w.advance j).2.view c).AtRest
      refine h.settled_apart hapart (fun hc => ?_) fun hc => ?_
      · -- with more to do, the acceptor would still work on it
        refine hdone (Option.eq_none_iff_forall_not_mem.2 fun j' hj' => hbusy ?_)
        exact .inl ⟨j', hj', (hmore j' hj').1.trans hc.symm⟩
      · rintro (⟨i, hi, heq⟩ | hworker)
        · obtain rfl : j = i := Option.mem_unique hmem hi
          exact hc heq.symm
        · exact hbusy (.inr (hapart.worker ▸ hworker))
    · intro j' hj'
      obtain ⟨hclient, hpending'⟩ := hmore j' hj'
      refine ⟨?_, ⟨hpending'.paused, hpending'.upheld⟩, ?_⟩
      · rw [hclient]
        exact hapart.clientsMade ▸ hlt
      · have hstill := hunshared.apart hapart
        rw [hclient]
        exact hstill
    · intro i hi
      have hi : i ∈ w.worker := hapart.worker ▸ hi
      obtain ⟨hlt', hpending'⟩ := h.handling i hi
      have hwaits := hapart.pending hpending' (h.apart j hmem i hi).symm
      refine ⟨?_, hwaits.paused, hwaits.upheld⟩
      exact hapart.clientsMade ▸ hlt'
    · intro j' hj' i hi
      rw [(hmore j' hj').1]
      exact h.apart j hmem i (hapart.worker ▸ hi)

/-- The worker goes on. -/
theorem Inv.stepWorker (h : w.Inv) : (w.step .worker).Inv := by
  rcases hjob : w.worker with - | j
  · simpa [step, hjob] using h
  · have hmem : j ∈ w.worker := hjob
    obtain ⟨hlt, hpending⟩ := h.handling j hmem
    have hadds : false = true → w.Unshared j.client := by simp
    obtain ⟨hlinked, hapart, hmore, hdone⟩ := advance_spec h.linked hpending hadds
    have hfresh := h.fresh_apart hapart hlt
    have hstep : w.step .worker = { (w.advance j).2 with worker := (w.advance j).1 } := by
      simp [step, hjob]
    rw [hstep]
    constructor
    · exact ⟨hlinked.counted, hlinked.sockfds, hlinked.ring, hlinked.owned, hlinked.asserted⟩
    · exact hfresh
    · intro c hbusy
      show ((w.advance j).2.view c).AtRest
      refine h.settled_apart hapart (fun hc => ?_) fun hc => ?_
      · -- with more to do, the worker would still work on it
        refine hdone (Option.eq_none_iff_forall_not_mem.2 fun j' hj' => hbusy ?_)
        exact .inr ⟨j', hj', (hmore j' hj').1.trans hc.symm⟩
      · rintro (hacceptor | ⟨i, hi, heq⟩)
        · exact hbusy (.inl (hapart.acceptor ▸ hacceptor))
        · obtain rfl : j = i := Option.mem_unique hmem hi
          exact hc heq.symm
    · intro i hi
      have hi : i ∈ w.acceptor := hapart.acceptor ▸ hi
      obtain ⟨hlt', hpending', hunshared⟩ := h.adding i hi
      have hwaits := hapart.pending hpending' (h.apart i hi j hmem)
      refine ⟨?_, ⟨hwaits.paused, hwaits.upheld⟩, ?_⟩
      · exact hapart.clientsMade ▸ hlt'
      · -- the worker adds no client to the ring
        intro d hd hne
        have hd : d ∈ w.clients := by
          by_cases hdj : d = j.client
          · exact hdj ▸ hapart.added rfl (hdj ▸ hd)
          · exact hapart.ring d hdj hd
        have hdistinct := hunshared d hd hne
        rw [← hapart.sockfd] at hdistinct
        exact hdistinct
    · intro j' hj'
      obtain ⟨hclient, hpending'⟩ := hmore j' hj'
      refine ⟨?_, hpending'.paused, hpending'.upheld⟩
      rw [hclient]
      exact hapart.clientsMade ▸ hlt
    · intro i hi j' hj'
      rw [(hmore j' hj').1]
      exact h.apart i (hapart.acceptor ▸ hi) j hmem

theorem Inv.step (h : w.Inv) (m : Move) : (w.step m).Inv := by
  cases m with
  | accept sockfd answers => exact h.accept sockfd answers
  | acceptor => exact h.stepAcceptor
  | event c e answers => exact h.event e answers
  | worker => exact h.stepWorker

/-- Also a client that a thread works on has the task it needs while it is in the ring. -/
theorem Inv.paused (h : w.Inv) (c : ℕ) : (w.view c).Paused := by
  by_cases hbusy : w.Busy c
  · rcases hbusy with ⟨j, hj, rfl⟩ | ⟨j, hj, rfl⟩
    · exact (h.adding j hj).2.1.paused
    · exact (h.handling j hj).2.paused
  · exact (h.settled c hbusy).toPaused

theorem Inv.consistent (h : w.Inv) : w.Consistent where
  counted := h.linked.counted
  once := h.linked.nodup
  owned c timer hmem := (h.linked.owned c timer hmem).1
  current c hc := (h.paused c).current ((h.linked.ring c).2 hc)
  asserted := h.linked.asserted

/-- However the acceptor adds clients and the worker handles events, and whatever fails on the
way, the ring, the counter and the clients belong together in every state. -/
theorem consistent_throughout (moves : List Move) :
    InputMachine.Always ServerWorker.step Consistent start moves :=
  (InputMachine.always_of_step (fun _ m h => h.step m) moves inv_start).mono ServerWorker.step
    fun _ h => h.consistent

end ServerWorker

end Qkmetisc.Server
