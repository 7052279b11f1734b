import LpNet.Net.EpollManager
import LpNet.Net.SelectManager

/-!
`SelectManager` and `EpollManager` behind the interface of `TaskScheduler`.

Both get the same calls of `updateChannel` and `removeChannel`, and may handle events
in between. `waits` is what the next `handleEvent` of either waits on: for each
descriptor the interest in it and the channel that an event on it goes to. Since
`EpollManager::updateChannel` tells the kernel nothing, the two wait on the same only
when nothing is registered at all; `registry` follows that through the calls.
-/

namespace LpNet

open Transition

variable {Ev Ch : Type}

/-- For each descriptor that is waited on the interest in it, and the channel it stands for. -/
abbrev Waits (Ch : Type) := Sockfd → Option (EventMask × Option Ch)

/-- What the next `handleEvent` waits on. Every descriptor of the three sets is watched. -/
def SelectSets.waits (w : SelectSets Ev Ch) : Except Fault (Waits Ch) := do
  let (polled, _) ← w.handleEvent 0 (.failed true)
  match polled.call with
  | none => .ok fun _ => none
  | some call =>
      .ok fun fd =>
        if fd ∈ call.read ∪ call.write ∪ call.exp then
          some ((if fd ∈ call.read then EVENT_IN else 0) |||
            (if fd ∈ call.write then EVENT_OUT else 0), w.channels.lookup fd)
        else none

/-- What the next `handleEvent` waits on: the interest list, with the channel found under the
data of its entries. -/
def EpollManager.waits (m : EpollManager Ch) : Waits Ch := fun fd =>
  (m.interest.lookup fd).map fun event => (event.events, (m.channels.lookup event.fd).join)

structure Pollers (Ev Ch : Type) where
  select : SelectSets Ev Ch
  epoll : EpollManager Ch

/-- A call through the interface. A channel has any events when `updateChannel` gets it. -/
inductive PollerOp (Ch : Type)
  | updateChannel (ch : Ch) (events : EventMask)
  | removeChannel (fd : Sockfd)
  | handleEvent (msTimeout : ℤ) (selected : SelectOutcome) (waited : WaitOutcome)

namespace Pollers

def new (clock currTimerId : ℕ) (maxFd : Sockfd) (objects : Ch → Channel)
    (wakeup : Ch) : Pollers Ev Ch :=
  ⟨.new Ev clock currTimerId maxFd objects wakeup, .new objects⟩

/-- Perform a call on both. A call that one of them does not return from ends the run. -/
def pollerStep [DecidableEq Ch] (p : Pollers Ev Ch) :
    PollerOp Ch → Except (Fault ⊕ EpollFault) (Unit × Pollers Ev Ch)
  | .updateChannel ch events =>
      let objects :=
        Function.update p.epoll.objects ch ((p.epoll.objects ch).setEvents events)
      .ok ((), ⟨(p.select.assign ch ((p.select.objects ch).setEvents events)).update ch,
        { p.epoll with objects := objects }.updateChannel ch⟩)
  | .removeChannel fd =>
      match p.epoll.removeChannel fd false with
      | .error e => .error (.inr e)
      | .ok m => .ok ((), ⟨p.select.remove fd, m⟩)
  | .handleEvent msTimeout selected waited =>
      match p.select.handleEvent msTimeout selected, p.epoll.handleEvent waited with
      | .ok (_, w), .ok (_, m) => .ok ((), ⟨w, m⟩)
      | .error e, _ => .error (.inl e)
      | _, .error e => .error (.inr e)

/-- The next `handleEvent` of both waits on the same, for the same channels. -/
def Agree (p : Pollers Ev Ch) : Prop := p.select.waits = .ok p.epoll.waits

/-- The descriptors that a list of calls leaves registered. -/
def registry (sockfd : Ch → Sockfd) : Finset Sockfd → List (PollerOp Ch) → Finset Sockfd
  | fds, [] => fds
  | fds, .updateChannel ch events :: ops =>
      registry sockfd
        (if events = EVENT_NONE then fds.erase (sockfd ch) else insert (sockfd ch) fds) ops
  | fds, .removeChannel fd :: ops => registry sockfd (fds.erase fd) ops
  | fds, .handleEvent .. :: ops => registry sockfd fds ops

/-- What the constructor of `SelectManager` registers. -/
def initial (wakeup : Channel) : Finset Sockfd := if wakeup.isNoneEvent then ∅ else {wakeup.sockfd}

/-- The select side has the registered descriptors in its table, and the kernel was told of
none. -/
structure Registers (p : Pollers Ev Ch) (sockfd : Ch → Sockfd) (fds : Finset Sockfd) : Prop where
  cached : p.select.Cached
  mem_iff : ∀ fd, fd ∈ p.select.channels ↔ fd ∈ fds
  select_sockfd : ∀ ch, (p.select.objects ch).sockfd = sockfd ch
  interest_eq : p.epoll.interest = ∅

variable {p p' : Pollers Ev Ch} {sockfd : Ch → Sockfd} {fds : Finset Sockfd}

theorem new_registers (clock currTimerId : ℕ) (maxFd : Sockfd) (objects : Ch → Channel)
    (wakeup : Ch) :
    (new clock currTimerId maxFd objects wakeup : Pollers Ev Ch).Registers
      (fun ch => (objects ch).sockfd) (initial (objects wakeup)) where
  cached := SelectSets.new_cached clock currTimerId maxFd objects wakeup
  mem_iff fd := by
    rw [new, SelectSets.new, SelectSets.mem_update, initial]
    split <;> simp [SelectManager.new]
  select_sockfd ch := rfl
  interest_eq := rfl

theorem isNoneEvent_setEvents (ch : Channel) (events : EventMask) :
    (ch.setEvents events).isNoneEvent = true ↔ events = EVENT_NONE := by
  rw [Channel.isNoneEvent, Channel.setEvents, beq_iff_eq]

/-- A call does to the select side what it does to the registry, and nothing to the interest
list. -/
theorem Registers.step [DecidableEq Ch] (h : p.Registers sockfd fds) {op : PollerOp Ch}
    (hstep : p.pollerStep op = .ok ((), p')) : p'.Registers sockfd (registry sockfd fds [op]) := by
  cases op with
  | updateChannel ch events =>
      cases hstep
      have hself := h.select_sockfd ch
      refine ⟨h.cached.change rfl, fun fd => ?_, fun ch' => ?_, h.interest_eq⟩
      · rw [SelectSets.mem_update, SelectSets.assign_objects, Function.update_self, registry,
          registry]
        simp only [isNoneEvent_setEvents]
        show (if _ then fd ≠ (p.select.objects ch).sockfd ∧ fd ∈ p.select.channels
          else fd = (p.select.objects ch).sockfd ∨ fd ∈ p.select.channels) ↔ _
        rw [hself, h.mem_iff]
        split
        · rw [Finset.mem_erase]
        · rw [Finset.mem_insert]
      · show (Function.update p.select.objects ch _ ch').sockfd = sockfd ch'
        by_cases heq : ch' = ch
        case pos =>
          rw [heq, Function.update_self]
          exact hself
        case neg =>
          rw [Function.update_of_ne heq]
          exact h.select_sockfd ch'
  | removeChannel fd =>
      cases hstep
      refine ⟨h.cached.remove fd, fun fd' => ?_, h.select_sockfd, h.interest_eq⟩
      rw [SelectSets.mem_remove, h.mem_iff, registry, registry, Finset.mem_erase]
  | handleEvent msTimeout selected waited =>
      rw [pollerStep] at hstep
      split at hstep
      case h_1 polled w answer m hselect hepoll =>
        cases hstep
        obtain ⟨hchannels, hobjects⟩ := SelectSets.handleEvent_channels hselect
        have hselected : p.select.selectStep (.handleEvent msTimeout selected) =
            .ok (some polled, w) := by
          rw [SelectSets.selectStep, hselect, ok_bind]
        refine ⟨h.cached.step hselected, fun fd => ?_, fun ch => ?_, ?_⟩
        · rw [hchannels]
          exact h.mem_iff fd
        · rw [hobjects]
          exact h.select_sockfd ch
        · rw [EpollManager.handleEvent_eq_ok hepoll]
          exact h.interest_eq
      case h_2 => cases hstep
      case h_3 => cases hstep

theorem registry_cons (sockfd : Ch → Sockfd) (fds : Finset Sockfd) (op : PollerOp Ch)
    (ops : List (PollerOp Ch)) :
    registry sockfd fds (op :: ops) = registry sockfd (registry sockfd fds [op]) ops := by
  cases op <;> rfl

theorem Registers.run [DecidableEq Ch] (h : p.Registers sockfd fds) {ops : List (PollerOp Ch)}
    {answers : List Unit} (hrun : run pollerStep p ops = .ok (answers, p')) :
    p'.Registers sockfd (registry sockfd fds ops) := by
  induction ops generalizing p fds answers with
  | nil =>
      cases hrun
      exact h
  | cons op ops ih =>
      obtain ⟨answer, answers', p'', hstep, hrest, -⟩ := run_cons_eq_ok hrun
      rw [registry_cons]
      exact ih (h.step hstep) hrest

/-- Nothing is waited on, on either side, when no descriptor is registered; otherwise the select
side waits on the registered ones. -/
theorem Registers.agree_iff (h : p.Registers sockfd fds) : p.Agree ↔ fds = ∅ := by
  have hepoll : p.epoll.waits = fun _ => none := by
    funext fd
    rw [EpollManager.waits, h.interest_eq]
    rfl
  rw [Agree, hepoll, SelectSets.waits]
  cases hempty : p.select.channels.entries.isEmpty with
  | true =>
      rw [SelectSets.handleEvent_of_empty hempty, ok_bind]
      refine iff_of_true rfl (Finset.eq_empty_of_forall_notMem fun fd hfd => ?_)
      have hmem := AList.mem_keys.mp ((h.mem_iff fd).mpr hfd)
      rw [AList.keys, List.isEmpty_iff.mp hempty] at hmem
      cases hmem
  | false =>
      obtain ⟨fd, hfd⟩ : ∃ fd, fd ∈ p.select.channels.keys := by
        obtain ⟨entry, rest, hentries⟩ :=
          List.exists_cons_of_ne_nil (List.isEmpty_eq_false_iff.mp hempty)
        exact ⟨entry.1, by rw [AList.keys, hentries]; simp [List.keys]⟩
      have hregistered : fd ∈ fds := (h.mem_iff fd).mp (AList.mem_keys.mpr hfd)
      refine iff_of_false (fun hagree => ?_) (Finset.ne_empty_of_mem hregistered)
      rw [bind_eq_ok] at hagree
      obtain ⟨⟨polled, w⟩, hhandle, hagree⟩ := hagree
      have hrange := h.cached.inRange_of_handleEvent hempty hhandle
      obtain ⟨_, _, call, hok, -, hsome, -, -, hexp⟩ :=
        h.cached.handleEvent hempty hrange 0 (.failed true)
      rw [hhandle] at hok
      cases hok
      dsimp only at hagree
      rw [hsome] at hagree
      have hwaits := congrFun (Except.ok.inj hagree) fd
      have hin : fd ∈ call.read ∪ call.write ∪ call.exp := by
        rw [hexp]
        refine Finset.mem_union_right _ (SelectSets.mem_watched.mpr ?_)
        have hlookup := AList.lookup_isSome.mpr (AList.mem_keys.mpr hfd)
        obtain ⟨ch, hch⟩ := Option.isSome_iff_exists.mp hlookup
        exact ⟨ch, hch, rfl⟩
      rw [if_pos hin] at hwaits
      cases hwaits

/-- After any calls the two managers wait on the same descriptors, with the same interest and
for the same channels, exactly when the calls leave no descriptor registered, the wakeup pipe
included. -/
theorem pollers_agree_iff [DecidableEq Ch] (clock currTimerId : ℕ) (maxFd : Sockfd)
    (objects : Ch → Channel) (wakeup : Ch) (ops : List (PollerOp Ch)) (answers : List Unit)
    (p : Pollers Ev Ch)
    (hrun : run pollerStep (new clock currTimerId maxFd objects wakeup) ops = .ok (answers, p)) :
    p.Agree ↔ registry (fun ch => (objects ch).sockfd) (initial (objects wakeup)) ops = ∅ :=
  ((new_registers clock currTimerId maxFd objects wakeup).run hrun).agree_iff

/-- A channel is updated, an event of the wakeup pipe is handled, and both channels go. -/
def comeAndGo : List (PollerOp Bool) :=
  [.updateChannel true EVENT_IN, .handleEvent 10 (.ready {3} ∅ ∅) (.ready []),
    .updateChannel true EVENT_NONE, .removeChannel 3]

theorem pollers_agree_iff_gone :
    ∃ (answers : List Unit) (p : Pollers Unit Bool),
      run pollerStep (new 0 1 0 SelectSets.twoChannels false) comeAndGo = .ok (answers, p) ∧
        (p.Agree ↔ registry (fun ch => (SelectSets.twoChannels ch).sockfd)
          (initial (SelectSets.twoChannels false)) comeAndGo = ∅) :=
  ⟨_, _, rfl, pollers_agree_iff 0 1 0 SelectSets.twoChannels false comeAndGo _ _ rfl⟩

/-- A channel that is to read is registered: `select` waits on it, and `epoll_wait` does not. -/
theorem pollers_differ :
    ∃ p : Pollers Unit Bool,
      run pollerStep (new 0 1 0 SelectSets.twoChannels false) [.updateChannel true EVENT_IN] =
          .ok ([()], p) ∧
        ¬ p.Agree := by
  have hrun : run pollerStep (new 0 1 0 SelectSets.twoChannels false : Pollers Unit Bool)
      [.updateChannel true EVENT_IN] = .ok ([()], _) := rfl
  refine ⟨_, hrun, ?_⟩
  rw [((new_registers 0 1 0 SelectSets.twoChannels false).run hrun).agree_iff]
  decide +kernel

end Pollers

end LpNet
