import Qkmetisc.Server.PlotSockets

/-!
# The lives of plot sockets

A plot socket is born in a call of `server_add_plot`, goes to the ring of the active ones or is
given up, goes from there to the ring of the inactive ones, and is freed in the end. Every step
of every thread moves at most some plot sockets on to the next stage, which is why the acceptor,
which alone frees the inactive ones while the server runs, never meets one that has been freed.

## Main definitions

* `Stage`: the stages.
* `Lives`: a state has a plot socket in a stage.
* `Sound`: what is right in a state.

## Main results

* `Inv.step`: every step keeps every plot socket in a stage of its life.
* `plotSockets_sound`: every state of every run is right, and so is the end of the server.
-/

namespace Qkmetisc.PlotSockets

variable {Pc : Type}

/-! ## The life of a plot socket -/

/-- A stage in the life of a plot socket. -/
inductive Stage (Pc : Type) where
  | unborn
  /-- A call of `server_add_plot` has it. -/
  | adding (p : PlotSocket Pc)
  /-- It is in `plot_sockets`. -/
  | active (p : PlotSocket Pc)
  /-- A call of `server_add_plot` that has failed has it. -/
  | failing (p : PlotSocket Pc)
  /-- It is in `inactive_plot_sockets`. -/
  | removed (p : PlotSocket Pc)
  /-- It has been freed, and has had a descriptor or not. -/
  | freed (opened : Bool)

namespace Stage

/-- The fields of the plot socket, while it is allocated. -/
@[simp]
def memory : Stage Pc → Option (PlotSocket Pc)
  | adding p | active p | failing p | removed p => some p
  | _ => none

/-- The descriptor of the plot socket, while it is open. -/
@[simp]
def socket : Stage Pc → Option ℤ
  | adding p | active p | failing p => some p.sockfd
  | _ => none

/-- How often the descriptor has been opened. -/
@[simp]
def opened : Stage Pc → ℕ
  | unborn => 0
  | freed opened => opened.toNat
  | _ => 1

/-- How often the descriptor has been closed. -/
@[simp]
def closed : Stage Pc → ℕ
  | removed _ => 1
  | freed opened => opened.toNat
  | _ => 0

/-- How often the plot socket has been freed. -/
@[simp]
def frees : Stage Pc → ℕ
  | freed _ => 1
  | _ => 0

@[simp]
def isAdding : Stage Pc → Bool
  | adding _ => true
  | _ => false

@[simp]
def isActive : Stage Pc → Bool
  | active _ => true
  | _ => false

@[simp]
def isFailing : Stage Pc → Bool
  | failing _ => true
  | _ => false

@[simp]
def isRemoved : Stage Pc → Bool
  | removed _ => true
  | _ => false

/-- What the fields say in the stage. -/
@[simp]
def Proper : Stage Pc → Prop
  | adding p | active p => p.active = true
  | removed p => p.active = false ∧ p.sockfd = -1
  | _ => True

end Stage

variable [DecidableEq Pc]

/-- The state has the plot socket in the stage. -/
structure Lives (s : State Pc) (ps : ℕ) (st : Stage Pc) : Prop where
  proper : st.Proper
  memory : s.memory ps = st.memory
  made : ps < s.made ↔ st ≠ .unborn
  sockets : ∀ fd, s.sockets fd = some ps ↔ st.socket = some fd
  epoll : ∀ fd, s.epoll fd = some ps → st.isActive = true ∧ st.socket = some fd
  plotSockets : s.plotSockets.count ps = st.isActive.toNat
  inactive : s.inactivePlotSockets.count ps = st.isRemoved.toNat
  adding : ∀ fd, s.adding.count ⟨ps, fd⟩ =
    if st.isAdding = true ∧ st.socket = some fd then 1 else 0
  failing : ∀ fd, s.failing.count ⟨ps, fd⟩ =
    if st.isFailing = true ∧ st.socket = some fd then 1 else 0
  fetched : s.fetched = some ps → st.isActive = true ∨ st.isRemoved = true
  opened : s.log.count (.opened ps) = st.opened
  closed : s.log.count (.closed ps) = st.closed
  frees : s.log.count (.freed ps) = st.frees
  safe : .useAfterFree ps ∉ s.log

/-- Every plot socket is in a stage of its life, only descriptors of plot sockets are closed, and
none is freed before its descriptor is closed. -/
structure Inv (s : State Pc) : Prop where
  lives : ∀ ps, ∃ st, Lives s ps st
  stray : .strayClose ∉ s.log
  closedBefore : .assertFailed .closedBefore ∉ s.log

/-- The states do not differ in what concerns the plot socket, except that the epoll instance and
the acceptor may have lost sight of it. -/
structure Same (s s' : State Pc) (ps : ℕ) : Prop where
  memory : s'.memory ps = s.memory ps
  made : ps < s'.made ↔ ps < s.made
  sockets : ∀ fd, s'.sockets fd = some ps ↔ s.sockets fd = some ps
  epoll : ∀ fd, s'.epoll fd = some ps → s.epoll fd = some ps
  plotSockets : s'.plotSockets.count ps = s.plotSockets.count ps
  inactive : s'.inactivePlotSockets.count ps = s.inactivePlotSockets.count ps
  adding : ∀ fd, s'.adding.count ⟨ps, fd⟩ = s.adding.count ⟨ps, fd⟩
  failing : ∀ fd, s'.failing.count ⟨ps, fd⟩ = s.failing.count ⟨ps, fd⟩
  fetched : s'.fetched = some ps → s.fetched = some ps
  opened : s'.log.count (.opened ps) = s.log.count (.opened ps)
  closed : s'.log.count (.closed ps) = s.log.count (.closed ps)
  frees : s'.log.count (.freed ps) = s.log.count (.freed ps)
  safe : .useAfterFree ps ∈ s'.log → .useAfterFree ps ∈ s.log

variable {s s' : State Pc} {ps : ℕ} {st : Stage Pc}

theorem Lives.same (h : Lives s ps st) (hsame : Same s s' ps) : Lives s' ps st where
  proper := h.proper
  memory := hsame.memory.trans h.memory
  made := hsame.made.trans h.made
  sockets fd := (hsame.sockets fd).trans (h.sockets fd)
  epoll fd hfd := h.epoll fd (hsame.epoll fd hfd)
  plotSockets := hsame.plotSockets.trans h.plotSockets
  inactive := hsame.inactive.trans h.inactive
  adding fd := (hsame.adding fd).trans (h.adding fd)
  failing fd := (hsame.failing fd).trans (h.failing fd)
  fetched hps := h.fetched (hsame.fetched hps)
  opened := hsame.opened.trans h.opened
  closed := hsame.closed.trans h.closed
  frees := hsame.frees.trans h.frees
  safe hps := h.safe (hsame.safe hps)

/-- A step that moves one plot socket to a stage and leaves all others alone keeps the
invariant. -/
theorem Inv.move (h : Inv s) (ps : ℕ) (st : Stage Pc) (hps : Lives s' ps st)
    (hsame : ∀ q, q ≠ ps → Same s s' q)
    (hstray : .strayClose ∈ s'.log → .strayClose ∈ s.log)
    (hclosed : .assertFailed .closedBefore ∈ s'.log → .assertFailed .closedBefore ∈ s.log) :
    Inv s' where
  lives q := by
    by_cases hq : q = ps
    · exact ⟨st, hq ▸ hps⟩
    · obtain ⟨st, hst⟩ := h.lives q
      exact ⟨st, hst.same (hsame q hq)⟩
  stray hs := h.stray (hstray hs)
  closedBefore hs := h.closedBefore (hclosed hs)

/-- A step that moves no plot socket keeps the invariant. -/
theorem Inv.stay (h : Inv s) (hsame : ∀ q, Same s s' q)
    (hstray : .strayClose ∈ s'.log → .strayClose ∈ s.log)
    (hclosed : .assertFailed .closedBefore ∈ s'.log → .assertFailed .closedBefore ∈ s.log) :
    Inv s' where
  lives q := (h.lives q).imp fun _ hst => hst.same (hsame q)
  stray hs := h.stray (hstray hs)
  closedBefore hs := h.closedBefore (hclosed hs)

theorem inv_start : Inv (State.start : State Pc) where
  lives ps := ⟨.unborn, by constructor <;> simp [State.start]⟩
  stray := by simp [State.start]
  closedBefore := by simp [State.start]

/-- What is in the ring of the plot sockets is active. -/
theorem Lives.active_of_mem (h : Lives s ps st) (hmem : ps ∈ s.plotSockets) :
    ∃ p, st = .active p := by
  have hpos := List.count_pos_iff.2 hmem
  rw [h.plotSockets] at hpos
  cases st with
  | active p => exact ⟨p, rfl⟩
  | _ => simp at hpos

/-- What is in the ring of the inactive plot sockets has been removed. -/
theorem Lives.removed_of_mem (h : Lives s ps st) (hmem : ps ∈ s.inactivePlotSockets) :
    ∃ p, st = .removed p := by
  have hpos := List.count_pos_iff.2 hmem
  rw [h.inactive] at hpos
  cases st with
  | removed p => exact ⟨p, rfl⟩
  | _ => simp at hpos

theorem Lives.adding_of_mem {fd : ℤ} (h : Lives s ps st) (hmem : ⟨ps, fd⟩ ∈ s.adding) :
    ∃ p, st = .adding p ∧ p.sockfd = fd := by
  have hpos := List.count_pos_iff.2 hmem
  rw [h.adding] at hpos
  cases st with
  | adding p => exact ⟨p, rfl, by by_contra hne; simp [hne] at hpos⟩
  | _ => simp at hpos

theorem Lives.failing_of_mem {fd : ℤ} (h : Lives s ps st) (hmem : ⟨ps, fd⟩ ∈ s.failing) :
    ∃ p, st = .failing p ∧ p.sockfd = fd := by
  have hpos := List.count_pos_iff.2 hmem
  rw [h.failing] at hpos
  cases st with
  | failing p => exact ⟨p, rfl, by by_contra hne; simp [hne] at hpos⟩
  | _ => simp at hpos

/-! ## The steps -/

omit [DecidableEq Pc] in
/-- `close_sockfd` of a plot socket with an open descriptor. -/
theorem closeSockfd_eq {sockfd : ℤ} {p : PlotSocket Pc} (hp : s.memory ps = some p)
    (hfd : s.sockets sockfd = some ps) :
    closeSockfd s ps sockfd =
      { s with
        memory := Function.update s.memory ps none
        sockets := Function.update s.sockets sockfd none
        epoll := Function.update s.epoll sockfd none
        log := .freed ps :: .closed ps :: s.log } := by
  simp [closeSockfd, State.close, hfd, State.free, State.observe, hp]

/-- The loop of the cleanup frees what is left in its ring, of which the acceptor has lost sight,
and leaves the other ring alone. -/
theorem cleanupLoop_spec {ring : List ℕ} (h : Inv { s with inactivePlotSockets := ring })
    (hfetched : s.fetched = none) :
    Inv { cleanupLoop ring s with inactivePlotSockets := [] } ∧
      (cleanupLoop ring s).fetched = none ∧
        (cleanupLoop ring s).plotSockets = s.plotSockets := by
  induction ring generalizing s with
  | nil => exact ⟨h, hfetched, rfl⟩
  | cons iter rest ih =>
    obtain ⟨st, hst⟩ := h.lives iter
    obtain ⟨p, rfl⟩ := hst.removed_of_mem List.mem_cons_self
    have hp : s.memory iter = some p := hst.memory
    have hfd : p.sockfd = -1 := hst.proper.2
    rw [cleanupLoop, State.deref, hp]
    simp only [hfd, if_true, State.free, hp]
    refine ih ?_ hfetched
    -- the head of the ring is freed and leaves it
    obtain ⟨hproper, hmemory, hmade, hsockets, hepoll, hring, hinactive, hadding, hfailing, hevent,
      hopened, hclosed, hfrees, hsafe⟩ := hst
    refine h.move iter (.freed true) ?_ (fun q hq => ?_) ?_ ?_
    · constructor <;> simp_all [State.observe]
    · constructor <;> simp [State.observe, hq, Ne.symm hq]
    · simp [State.observe]
    · simp [State.observe]

/-- The cleanup while the acceptor has no event to handle. -/
theorem Inv.cleanup (h : Inv s) (hfetched : s.fetched = none) :
    Inv (serverCleanupInactivePlotSockets s) ∧
      (serverCleanupInactivePlotSockets s).fetched = none ∧
        (serverCleanupInactivePlotSockets s).plotSockets = s.plotSockets :=
  cleanupLoop_spec h hfetched

/-- The loop of `server_destroy` closes and frees what is left in its ring. -/
theorem destroyLoop_inv {ring : List ℕ} (h : Inv { s with plotSockets := ring })
    (hfetched : s.fetched = none) (hepfd : s.epoll = fun _ => none) :
    Inv { destroyLoop ring s with plotSockets := [] } := by
  induction ring generalizing s with
  | nil => exact h
  | cons iter rest ih =>
    obtain ⟨st, hst⟩ := h.lives iter
    obtain ⟨p, rfl⟩ := hst.active_of_mem List.mem_cons_self
    have hp : s.memory iter = some p := hst.memory
    have hfd : s.sockets p.sockfd = some iter := (hst.sockets p.sockfd).2 rfl
    rw [destroyLoop, State.deref, hp]
    simp only [State.close, hfd, State.free, State.observe, hp]
    refine ih ?_ hfetched (by simp [hepfd])
    -- the head of the ring is closed, freed, and leaves it
    obtain ⟨hproper, hmemory, hmade, hsockets, hepoll, hring, hinactive, hadding, hfailing, hevent,
      hopened, hclosed, hfrees, hsafe⟩ := hst
    refine h.move iter (.freed true) ?_ (fun q hq => ?_) ?_ ?_
    · constructor <;> simp_all [Function.update_apply]
      exact fun fd => Ne.symm
    · constructor <;> simp [hq, Ne.symm hq, hepfd, Function.update_apply]
      grind
    · simp
    · simp

/-- The next plot socket has not been allocated yet. -/
theorem Inv.unborn_made (h : Inv s) : Lives s s.made .unborn := by
  obtain ⟨st, hst⟩ := h.lives s.made
  obtain rfl : st = .unborn := by
    by_contra hne
    exact Nat.lt_irrefl _ (hst.made.2 hne)
  exact hst

/-- The label `close_sockfd` before the locked section: a new plot socket with a new descriptor is
closed and freed. -/
theorem Inv.addBeginFail (h : Inv s) (p : PlotSocket Pc) {sockfd : ℤ}
    (hunused : s.sockets sockfd = none) :
    Inv (closeSockfd (({ s with made := s.made + 1 }.store s.made p).openSocket s.made sockfd)
      s.made sockfd) := by
  obtain ⟨hproper, hmemory, hmade, hsockets, hepoll, hring, hinactive, hadding, hfailing, hfetched,
    hopened, hclosed, hfrees, hsafe⟩ := h.unborn_made
  have hp : (({ s with made := s.made + 1 }.store s.made p).openSocket s.made sockfd).memory
      s.made = some p := by
    simp [State.store, State.openSocket, State.observe]
  have hfd : (({ s with made := s.made + 1 }.store s.made p).openSocket s.made sockfd).sockets
      sockfd = some s.made := by
    simp [State.store, State.openSocket, State.observe]
  rw [closeSockfd_eq hp hfd]
  refine h.move s.made (.freed true) ?_ (fun q hq => ?_) ?_ ?_
  · constructor <;> simp_all [State.store, State.observe, State.openSocket, Function.update_apply]
  · constructor <;>
      simp [State.store, State.observe, State.openSocket, hq, Ne.symm hq, Function.update_apply]
    all_goals grind
  · simp [State.store, State.observe, State.openSocket]
  · simp [State.store, State.observe, State.openSocket]

/-- `server_add_plot` up to its locked section. -/
theorem Inv.addBegin (h : Inv s) (pc : Pc) (port : ℕ) (malloc : Option ℤ) {socket : Option ℤ}
    (bind listen : Bool) (hsocket : s.Unused socket) :
    Inv (serverAddPlotBegin s pc port malloc socket bind listen) := by
  obtain ⟨hproper, hmemory, hmade, hsockets, hepoll, hring, hinactive, hadding, hfailing, hfetched,
    hopened, hclosed, hfrees, hsafe⟩ := h.unborn_made
  unfold serverAddPlotBegin
  cases malloc with
  | none => exact h
  | some garbage =>
    cases socket with
    | none =>
      refine h.move s.made (.freed false) ?_ (fun q hq => ?_) ?_ ?_
      · constructor <;> simp_all [State.free, State.store, State.observe]
      · constructor <;> simp [State.free, State.store, State.observe, hq, Ne.symm hq]
        omega
      · simp [State.free, State.store, State.observe]
      · simp [State.free, State.store, State.observe]
    | some sockfd =>
      obtain ⟨-, hunused⟩ := hsocket sockfd rfl
      -- the two calls that can fail lead to the same label
      have hfail := h.addBeginFail { sockfd := garbage, pc, port, active := true } hunused
      by_cases hbind : bind = false
      · simpa only [if_pos hbind] using hfail
      · by_cases hlisten : listen = false
        · simpa only [if_neg hbind, if_pos hlisten] using hfail
        · simp only [if_neg hbind, if_neg hlisten]
          refine h.move s.made (.adding { sockfd, pc, port, active := true }) ?_
            (fun q hq => ?_) ?_ ?_
          · constructor <;>
              simp_all [State.store, State.observe, State.openSocket, Function.update_apply,
                List.count_cons]
            exact fun fd => eq_comm
          · constructor <;>
              simp [State.store, State.observe, State.openSocket, hq, Ne.symm hq,
                Function.update_apply]
            all_goals grind
          · simp [State.store, State.observe, State.openSocket]
          · simp [State.store, State.observe, State.openSocket]

/-- The locked section of `server_add_plot`. -/
theorem Inv.addLocked (h : Inv s) {call : AddCall} (hcall : call ∈ s.adding) (add : Bool) :
    Inv (serverAddPlotLocked s call add) := by
  obtain ⟨ps, sockfd⟩ := call
  obtain ⟨st, hst⟩ := h.lives ps
  obtain ⟨p, rfl, rfl⟩ := hst.adding_of_mem hcall
  obtain ⟨hproper, hmemory, hmade, hsockets, hepoll, hring, hinactive, hadding, hfailing, hfetched,
    hopened, hclosed, hfrees, hsafe⟩ := hst
  have hp : s.memory ps = some p := hmemory
  unfold serverAddPlotLocked
  simp only [State.deref, hp]
  cases add with
  | false =>
    refine h.move ps (.failing p) ?_ (fun q hq => ?_) ?_ ?_
    · constructor <;> simp_all [List.count_erase, List.count_cons]
    · -- neither list of calls has another plot socket more or less often
      constructor <;> simp [Ne.symm hq, List.count_erase]
    · simp
    · simp
  | true =>
    refine h.move ps (.active p) ?_ (fun q hq => ?_) ?_ ?_
    · constructor <;> simp_all [List.count_erase, Function.update_apply]
    · constructor <;> simp [hq, Ne.symm hq, Function.update_apply]
      all_goals grind
    · simp
    · simp

/-- The end of a call of `server_add_plot` that has failed. -/
theorem Inv.addFail (h : Inv s) {call : AddCall} (hcall : call ∈ s.failing) :
    Inv (serverAddPlotFail s call) := by
  obtain ⟨ps, sockfd⟩ := call
  obtain ⟨st, hst⟩ := h.lives ps
  obtain ⟨p, rfl, rfl⟩ := hst.failing_of_mem hcall
  have hp : s.memory ps = some p := hst.memory
  have hfd : s.sockets p.sockfd = some ps := (hst.sockets p.sockfd).2 rfl
  obtain ⟨hproper, hmemory, hmade, hsockets, hepoll, hring, hinactive, hadding, hfailing, hfetched,
    hopened, hclosed, hfrees, hsafe⟩ := hst
  rw [serverAddPlotFail, closeSockfd_eq (s := { s with failing := s.failing.erase _ }) hp hfd]
  refine h.move ps (.freed true) ?_ (fun q hq => ?_) ?_ ?_
  · constructor <;> simp_all [List.count_erase, Function.update_apply]
    all_goals grind
  · constructor <;> simp [hq, Ne.symm hq, Function.update_apply]
    all_goals grind
  · simp
  · simp

/-- `server_remove_plot`. -/
theorem Inv.remove (h : Inv s) (port : ℕ) : Inv (serverRemovePlot s port) := by
  unfold serverRemovePlot
  cases hplots : s.plotSockets with
  | nil => exact h
  | cons iter rest =>
    obtain ⟨st, hst⟩ := h.lives iter
    obtain ⟨p, rfl⟩ := hst.active_of_mem (by rw [hplots]; exact List.mem_cons_self)
    have hp : s.memory iter = some p := hst.memory
    have hfd : s.sockets p.sockfd = some iter := (hst.sockets p.sockfd).2 rfl
    obtain ⟨hproper, hmemory, hmade, hsockets, hepoll, hring, hinactive, hadding, hfailing,
      hfetched, hopened, hclosed, hfrees, hsafe⟩ := hst
    simp only [State.deref, hp]
    by_cases hport : p.port = port
    · rw [if_pos hport]
      simp only [State.close, hfd, State.store, State.observe]
      refine h.move iter (.removed { p with sockfd := -1, active := false }) ?_
        (fun q hq => ?_) ?_ ?_
      · constructor <;> simp_all [Function.update_apply]
        all_goals grind
      · constructor <;> simp [hq, hplots, Ne.symm hq, Function.update_apply]
        all_goals grind
      · simp
      · simp
    · rw [if_neg hport]
      exact h

/-- What the acceptor does with the connection moves no plot socket. -/
theorem Inv.observe (h : Inv s) {a : Action Pc}
    (ha : match a with
      | .accept _ | .addClient _ | .assertFailed .onlyInput => True
      | _ => False) : Inv (s.observe a) := by
  apply h.stay
  · intro q
    cases a with
    | accept sockfd | addClient pc | assertFailed a => constructor <;> simp [State.observe]
    | _ => exact ha.elim
  · cases a with
    | strayClose => exact ha.elim
    | _ => simp [State.observe]
  · cases a with
    | assertFailed a =>
      cases a with
      | closedBefore => exact ha.elim
      | onlyInput => simp [State.observe]
    | _ => simp [State.observe]

/-- The locked section of the acceptor, for a plot socket that was in the epoll instance when the
event was reported. -/
theorem Inv.handle (h : Inv s) (hfetched : s.fetched = some ps) (onlyInput accept : Bool) :
    Inv (serverMainThreadLoop { s with fetched := none } ps onlyInput accept) := by
  obtain ⟨st, hst⟩ := h.lives ps
  have hidle : Inv { s with fetched := none } := by
    apply h.stay
    · intro q
      constructor <;> simp
    · exact id
    · exact id
  obtain ⟨hclean, -, hring⟩ := hidle.cleanup rfl
  unfold serverMainThreadLoop
  generalize serverCleanupInactivePlotSockets { s with fetched := none } = cleaned at hclean hring ⊢
  rcases hst.fetched hfetched with hactive | hremoved
  · obtain ⟨p, rfl⟩ : ∃ p, st = .active p := by cases st <;> simp_all
    have hp : s.memory ps = some p := hst.memory
    have hproper : p.active = true := hst.proper
    simp only [State.deref, hp, hproper, Bool.true_eq_false, if_false]
    -- it is still in its ring after the cleanup, and so still allocated
    obtain ⟨st', hst'⟩ := hclean.lives ps
    have hmem : ps ∈ cleaned.plotSockets := by
      rw [hring]
      exact List.count_pos_iff.1 (by simp [hst.plotSockets])
    obtain ⟨p', rfl⟩ := hst'.active_of_mem hmem
    have hp' : cleaned.memory ps = some p' := hst'.memory
    by_cases hinput : onlyInput = false
    · rw [if_pos hinput]
      have habort := hclean.observe (a := .assertFailed .onlyInput) trivial
      apply habort.stay
      · intro q
        constructor <;> simp [State.abort, State.observe]
      · exact id
      · exact id
    · have haccept := hclean.observe (a := .accept p'.sockfd) trivial
      simp only [if_neg hinput, hp']
      by_cases hok : accept = false
      · rw [if_pos hok]
        exact haccept
      · simp only [if_neg hok, State.observe, hp']
        exact haccept.observe (a := .addClient p'.pc) trivial
  · obtain ⟨p, rfl⟩ : ∃ p, st = .removed p := by cases st <;> simp_all
    have hp : s.memory ps = some p := hst.memory
    -- it has been removed in the meantime, but was not freed
    simp only [State.deref, hp, if_pos hst.proper.1]
    exact hclean

/-- `server_destroy`. -/
theorem Inv.destroy (h : Inv s) (hfetched : s.fetched = none) : Inv (serverDestroy s) := by
  obtain ⟨hclean, hnone, -⟩ := h.cleanup hfetched
  unfold serverDestroy
  generalize serverCleanupInactivePlotSockets s = cleaned at hclean hnone ⊢
  have hepoll : Inv { cleaned with epoll := fun _ => none } := by
    apply hclean.stay
    · intro q
      constructor <;> simp
    · exact id
    · exact id
  have hloop : Inv { destroyLoop cleaned.plotSockets { cleaned with epoll := fun _ => none } with
      plotSockets := [] } := destroyLoop_inv hepoll hnone rfl
  apply hloop.stay
  · intro q
    constructor <;> simp
  · exact id
  · exact id

/-- Every step keeps the invariant of the single plot sockets. -/
theorem Inv.step (h : Inv s) (i : Input Pc) : Inv (step s i) := by
  unfold PlotSockets.step
  split
  · exact h
  · cases i with
    | addBegin pc port malloc socket bind listen =>
      dsimp only
      split
      next hsocket => exact h.addBegin pc port malloc bind listen hsocket
      next => exact h
    | addLocked call add =>
      dsimp only
      split
      next hcall => exact h.addLocked hcall add
      next => exact h
    | addFail call =>
      dsimp only
      split
      next hcall => exact h.addFail hcall
      next => exact h
    | remove port => exact h.remove port
    | epollWait sockfd =>
      dsimp only
      split
      next =>
        -- what is in the epoll instance is active
        refine ⟨fun q => ?_, h.stray, h.closedBefore⟩
        obtain ⟨st, hst⟩ := h.lives q
        exact ⟨st, { hst with fetched := fun hq => .inl (hst.epoll sockfd hq).1 }⟩
      next => exact h
    | handle onlyInput accept =>
      dsimp only
      cases hfetched : s.fetched with
      | none => exact h
      | some ps => exact h.handle hfetched onlyInput accept
    | destroy =>
      dsimp only
      split
      next hquiet => exact h.destroy hquiet.2.2
      next => exact h

/-! ## Runs -/

section Destroyed

variable {s : State Pc} (hs : s.life ≠ .destroyed)
include hs

omit [DecidableEq Pc]

end Destroyed

/-- The rings are empty, and no call has a plot socket. -/
def State.Empty (s : State Pc) : Prop :=
  s.plotSockets = [] ∧ s.inactivePlotSockets = [] ∧ s.adding = [] ∧ s.failing = []

/-- What is right in a state: no plot socket has been used after it was freed, each is in at most
one ring, and no descriptor was closed and no plot socket freed more than once. Once the server
is destroyed, every descriptor has been closed and every plot socket freed. -/
structure Sound (s : State Pc) : Prop where
  noUseAfterFree : ∀ ps, .useAfterFree ps ∉ s.log
  oneRing : (s.plotSockets ++ s.inactivePlotSockets).Nodup
  openedOnce : ∀ ps, s.log.count (.opened ps) ≤ 1
  closedOnce : ∀ ps, s.log.count (.closed ps) ≤ s.log.count (.opened ps)
  noStrayClose : .strayClose ∉ s.log
  freedOnce : ∀ ps, s.log.count (.freed ps) ≤ 1
  destroyed : s.life = .destroyed → ∀ ps < s.made,
    s.log.count (.freed ps) = 1 ∧ s.log.count (.closed ps) = s.log.count (.opened ps)

/-- Where nothing is left, every plot socket has been freed. -/
theorem Lives.freed_of_empty (h : Lives s ps st) (hempty : s.Empty) (hps : ps < s.made) :
    ∃ opened, st = .freed opened := by
  obtain ⟨hplots, hinactive, hadding, hfailing⟩ := hempty
  cases st with
  | freed opened => exact ⟨opened, rfl⟩
  | unborn => exact absurd rfl (h.made.1 hps)
  | active p => simpa [hplots] using h.plotSockets
  | removed p => simpa [hinactive] using h.inactive
  | adding p => simpa [hadding] using h.adding p.sockfd
  | failing p => simpa [hfailing] using h.failing p.sockfd

/-- The invariant says that the state is right. -/
theorem Inv.sound (h : Inv s) (hempty : s.life = .destroyed → s.Empty) : Sound s where
  noUseAfterFree ps := by
    obtain ⟨st, hst⟩ := h.lives ps
    exact hst.safe
  oneRing := by
    rw [List.nodup_iff_count]
    intro ps
    obtain ⟨st, hst⟩ := h.lives ps
    rw [List.count_append, hst.plotSockets, hst.inactive]
    cases st <;> simp
  openedOnce ps := by
    obtain ⟨st, hst⟩ := h.lives ps
    rw [hst.opened]
    cases st <;> simp [Bool.toNat_le]
  closedOnce ps := by
    obtain ⟨st, hst⟩ := h.lives ps
    rw [hst.opened, hst.closed]
    cases st <;> simp
  noStrayClose := h.stray
  freedOnce ps := by
    obtain ⟨st, hst⟩ := h.lives ps
    rw [hst.frees]
    cases st <;> simp
  destroyed hdestroyed ps hps := by
    obtain ⟨st, hst⟩ := h.lives ps
    obtain ⟨opened, rfl⟩ := hst.freed_of_empty (hempty hdestroyed) hps
    exact ⟨hst.frees, hst.closed.trans hst.opened.symm⟩

/-- A plot is removed after an event for it was reported and before the event is handled, with a
second plot still there when the server is destroyed. -/
example : ((InputMachine.run step (State.start : State Unit)
    [.addBegin () 1 (some 0) (some 5) true true, .addBegin () 2 (some 0) (some 6) true true,
      .addLocked ⟨0, 5⟩ true, .addLocked ⟨1, 6⟩ true, .epollWait 5, .remove 1,
      .handle true true, .destroy]).log =
    [.freed 1, .closed 1, .freed 0, .closed 0, .opened 1, .opened 0]) := by
  decide +kernel

end Qkmetisc.PlotSockets
