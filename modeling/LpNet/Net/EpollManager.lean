import LpNet.Lib.Transition
import LpNet.Net.TaskScheduler

/-!
The class `EpollManager`, with the interest list that the kernel keeps for it.

`control` hands the kernel an `epoll_event` of which only `events` is filled in: the
data that comes back with every event is 0 (`Zeroed`), and `handleEvent` looks up the
channel of descriptor 0, whatever descriptor the event is on. Looking a channel up in
the table adds a null one when there is none. `dispatches_iff` says which batches of
events reach their channels all the same.
-/

namespace LpNet

open Transition

inductive EpollFault
  /-- A member function of a null channel is called. -/
  | nullChannel
  /-- `mutex_` is locked by the thread that holds it. -/
  | deadlock
  deriving DecidableEq, Repr

inductive EventCTL
  | add
  | mod
  | del
  deriving DecidableEq, Repr

/-- A `struct epoll_event`, with `data.fd`. -/
structure EpollEvent where
  events : EventMask
  fd : Sockfd
  deriving DecidableEq, Repr

namespace EpollEvent

/-- The event after the `memset`. -/
def zero : EpollEvent := ⟨0, 0⟩

end EpollEvent

/-- What the kernel keeps for `epfd_`: an event for every descriptor that is watched. -/
abbrev InterestList := FdMap EpollEvent

namespace InterestList

/-- `epoll_ctl(epfd, op, fd, &event)`, with `none` for -1. Where `granted` is false the kernel
refuses for a reason of its own. -/
def ctl (interest : InterestList) (op : EventCTL) (fd : Sockfd) (event : EpollEvent)
    (granted : Bool) : Option InterestList :=
  match op with
  | .add => if granted ∧ fd ∉ interest then some (interest.insert fd event) else none
  | .mod => if granted ∧ fd ∈ interest then some (interest.insert fd event) else none
  | .del => if granted ∧ fd ∈ interest then some (interest.erase fd) else none

/-- What `epoll_wait` stores for a batch of events on watched descriptors. -/
def wait (interest : InterestList) (batch : List (Sockfd × EventMask)) : List EpollEvent :=
  batch.filterMap fun (fd, events) =>
    (interest.lookup fd).map fun event => { event with events := events }

end InterestList

/-- `channels_[fd]`: the channel, or null, which is also what a new entry holds. -/
def FdMap.index {Ch : Type} (m : FdMap (Option Ch)) (fd : Sockfd) :
    Option Ch × FdMap (Option Ch) :=
  match m.lookup fd with
  | some p => (p, m)
  | none => (none, m.insert fd none)

/-- What `epoll_wait` answers: -1, for an interrupt or something else, or a batch of events. -/
inductive WaitOutcome
  | failed (interrupted : Bool)
  | ready (batch : List (Sockfd × EventMask))

/-- The manager, the channels that the pointers in its table lead to, and its interest list. -/
structure EpollManager (Ch : Type) where
  channels : FdMap (Option Ch)
  interest : InterestList
  objects : Ch → Channel

namespace EpollManager

variable {Ch : Type}

def new (objects : Ch → Channel) : EpollManager Ch := ⟨∅, ∅, objects⟩

def updateChannel (m : EpollManager Ch) (ch : Ch) : EpollManager Ch :=
  { m with channels := m.channels.insert (m.objects ch).sockfd (some ch) }

/-- `removeChannel(sockfd)`, called with or without `mutex_` in the caller's hands. -/
def removeChannel (m : EpollManager Ch) (sockfd : Sockfd) (locked : Bool) :
    Except EpollFault (EpollManager Ch) :=
  if locked then .error .deadlock else .ok { m with channels := m.channels.erase sockfd }

def control [DecidableEq Ch] (m : EpollManager Ch) (sockfd : Sockfd) (op : EventCTL)
    (events : EventMask) (granted : Bool) : Except EpollFault (ℤ × EpollManager Ch) :=
  match m.interest.ctl op sockfd { EpollEvent.zero with events := events } granted with
  | none => .ok (-1, m)
  | some interest =>
      let m := { m with interest := interest }
      if op = .del then do
        let m ← m.removeChannel sockfd true
        .ok (0, m)
      else
        match m.channels.index sockfd with
        | (none, _) => .error .nullChannel
        | (some ch, channels) =>
            .ok (0, { m with channels := channels
                             objects := Function.update m.objects ch
                               ((m.objects ch).setEvents events) })

/-- The loop of `handleEvent`: the channels it calls, with the events it hands them. -/
def dispatch : FdMap (Option Ch) → List EpollEvent →
    Except EpollFault (List (Ch × EventMask) × FdMap (Option Ch))
  | channels, [] => .ok ([], channels)
  | channels, event :: rest =>
      match channels.index event.fd with
      | (none, _) => .error .nullChannel
      | (some ch, channels) => do
          let (calls, channels) ← dispatch channels rest
          .ok ((ch, event.events) :: calls, channels)

/-- `handleEvent(ms_timeout)`: its return value, and the channels it calls. -/
def handleEvent (m : EpollManager Ch) :
    WaitOutcome → Except EpollFault ((Bool × List (Ch × EventMask)) × EpollManager Ch)
  | .failed interrupted => .ok ((interrupted, []), m)
  | .ready batch => do
      let (calls, channels) ← dispatch m.channels (m.interest.wait batch)
      .ok ((true, calls), { m with channels := channels })

inductive EpollOp (Ch : Type)
  | updateChannel (ch : Ch)
  | control (sockfd : Sockfd) (op : EventCTL) (events : EventMask) (granted : Bool)
  | removeChannel (sockfd : Sockfd)
  /-- The descriptor is closed, and the kernel stops watching it. -/
  | close (fd : Sockfd)
  | handleEvent (outcome : WaitOutcome)

/-- Perform a step. It answers the channels that are called. -/
def epollStep [DecidableEq Ch] (m : EpollManager Ch) :
    EpollOp Ch → Except EpollFault (List (Ch × EventMask) × EpollManager Ch)
  | .updateChannel ch => .ok ([], m.updateChannel ch)
  | .control sockfd op events granted => do
      let (_, m) ← m.control sockfd op events granted
      .ok ([], m)
  | .removeChannel sockfd => do
      let m ← m.removeChannel sockfd false
      .ok ([], m)
  | .close fd => .ok ([], { m with interest := m.interest.erase fd })
  | .handleEvent outcome => do
      let ((_, calls), m) ← m.handleEvent outcome
      .ok (calls, m)

/-- `epoll_wait` reports events on watched descriptors only. -/
def Reportable (m : EpollManager Ch) : EpollOp Ch → Prop
  | .handleEvent (.ready batch) => ∀ p ∈ batch, p.1 ∈ m.interest
  | _ => True

/-- Each event of a batch is handed to the channel registered under its descriptor, in order,
and to no other. -/
def Dispatches (m : EpollManager Ch) : EpollOp Ch → Prop
  | .handleEvent (.ready batch) =>
      ∃ calls m', m.handleEvent (.ready batch) = .ok ((true, calls), m') ∧
        List.Forall₂ (fun p call => m.channels.lookup p.1 = some (some call.1) ∧ call.2 = p.2)
          batch calls
  | _ => True

/-- Every event is on descriptor 0, and a channel is registered under it. -/
def OnZero (m : EpollManager Ch) : EpollOp Ch → Prop
  | .handleEvent (.ready batch) =>
      ∀ p ∈ batch, p.1 = 0 ∧ ((m.channels.lookup 0).join).isSome = true
  | _ => True

instance (m : EpollManager Ch) (op : EpollOp Ch) : Decidable (m.Reportable op) :=
  match op with
  | .handleEvent (.ready batch) => inferInstanceAs (Decidable (∀ p ∈ batch, p.1 ∈ m.interest))
  | .handleEvent (.failed _) | .updateChannel _ | .control .. | .removeChannel _ | .close _ =>
      .isTrue trivial

instance (m : EpollManager Ch) (op : EpollOp Ch) : Decidable (m.OnZero op) :=
  match op with
  | .handleEvent (.ready batch) =>
      inferInstanceAs
        (Decidable (∀ p ∈ batch, p.1 = 0 ∧ ((m.channels.lookup 0).join).isSome = true))
  | .handleEvent (.failed _) | .updateChannel _ | .control .. | .removeChannel _ | .close _ =>
      .isTrue trivial

/-! ### What comes back from the kernel -/

variable {m m' : EpollManager Ch}

/-- Every channel is in the table under its own descriptor, and the kernel has data 0 for every
descriptor. -/
structure Zeroed (m : EpollManager Ch) : Prop where
  keyed : ∀ fd ch, m.channels.lookup fd = some (some ch) → (m.objects ch).sockfd = fd
  fd_eq : ∀ fd event, m.interest.lookup fd = some event → event.fd = 0

theorem new_zeroed (objects : Ch → Channel) : (new objects).Zeroed where
  keyed fd ch hlookup := by cases hlookup
  fd_eq fd event hlookup := by cases hlookup

theorem index_of_some {channels : FdMap (Option Ch)} {fd : Sockfd} {ch : Ch}
    (hlookup : channels.lookup fd = some (some ch)) : channels.index fd = (some ch, channels) := by
  rw [FdMap.index, hlookup]

theorem index_eq_some {channels channels' : FdMap (Option Ch)} {fd : Sockfd} {ch : Ch}
    (hindex : channels.index fd = (some ch, channels')) :
    channels.lookup fd = some (some ch) ∧ channels' = channels := by
  rw [FdMap.index] at hindex
  split at hindex
  case h_1 p hlookup =>
    obtain ⟨rfl, rfl⟩ := Prod.mk.inj hindex
    exact ⟨hlookup, rfl⟩
  case h_2 => cases (Prod.mk.inj hindex).1

theorem dispatch_eq_ok {channels channels' : FdMap (Option Ch)} {events : List EpollEvent}
    {calls : List (Ch × EventMask)} (hok : dispatch channels events = .ok (calls, channels')) :
    channels' = channels ∧
      List.Forall₂ (fun event call => channels.lookup event.fd = some (some call.1) ∧
        call.2 = event.events) events calls := by
  induction events generalizing calls channels with
  | nil =>
      cases hok
      exact ⟨rfl, .nil⟩
  | cons event rest ih =>
      rw [dispatch] at hok
      split at hok
      case h_1 => cases hok
      case h_2 ch channels'' hindex =>
        rw [bind_eq_ok] at hok
        obtain ⟨⟨calls', channels₀⟩, hrest, hok⟩ := hok
        cases hok
        obtain ⟨hlookup, rfl⟩ := index_eq_some hindex
        obtain ⟨rfl, hcalls⟩ := ih hrest
        exact ⟨rfl, .cons ⟨hlookup, rfl⟩ hcalls⟩

theorem dispatch_of_registered {channels : FdMap (Option Ch)} {events : List EpollEvent}
    (hall : ∀ event ∈ events, ∃ ch, channels.lookup event.fd = some (some ch)) :
    ∃ calls, dispatch channels events = .ok (calls, channels) := by
  induction events with
  | nil => exact ⟨[], rfl⟩
  | cons event rest ih =>
      obtain ⟨ch, hlookup⟩ := hall event (by simp)
      obtain ⟨calls, hrest⟩ := ih fun event' hevent' => hall event' (by simp [hevent'])
      refine ⟨(ch, event.events) :: calls, ?_⟩
      rw [dispatch, index_of_some hlookup]
      dsimp only
      rw [hrest, ok_bind]

theorem lookup_of_ctl {interest interest' : InterestList} {op : EventCTL} {fd fd' : Sockfd}
    {event event' : EpollEvent} {granted : Bool}
    (hctl : interest.ctl op fd event granted = some interest')
    (hlookup : interest'.lookup fd' = some event') :
    event' = event ∨ interest.lookup fd' = some event' := by
  cases op <;> rw [InterestList.ctl] at hctl <;> split at hctl <;> cases hctl
  · exact (FdMap.lookup_insert_eq_some hlookup).imp_left And.right
  · exact (FdMap.lookup_insert_eq_some hlookup).imp_left And.right
  · exact .inr (FdMap.lookup_erase_eq_some hlookup)

theorem Zeroed.wait_eq (h : m.Zeroed) {batch : List (Sockfd × EventMask)}
    (hwatched : ∀ p ∈ batch, p.1 ∈ m.interest) :
    m.interest.wait batch = batch.map fun p => ⟨p.2, 0⟩ := by
  induction batch with
  | nil => rfl
  | cons p batch ih =>
      obtain ⟨fd, events⟩ := p
      have hmem := hwatched (fd, events) (by simp)
      rw [← AList.lookup_isSome, Option.isSome_iff_exists] at hmem
      obtain ⟨event, hlookup⟩ := hmem
      have hrest := ih fun p' hp' => hwatched p' (by simp [hp'])
      have hzero := h.fd_eq fd event hlookup
      have hfirst : (m.interest.lookup fd).map (fun event => { event with events := events }) =
          some ⟨events, 0⟩ := by
        rw [hlookup, Option.map_some, hzero]
      rw [List.map_cons, ← hrest]
      exact List.filterMap_cons_some hfirst

/-! ### Runs -/

theorem Zeroed.updateChannel (h : m.Zeroed) (ch : Ch) : (m.updateChannel ch).Zeroed where
  keyed fd ch' hlookup := by
    rcases FdMap.lookup_insert_eq_some hlookup with ⟨rfl, heq⟩ | hlookup
    · cases heq
      rfl
    · exact h.keyed fd ch' hlookup
  fd_eq := h.fd_eq

/-- `control` never gives the kernel other data than 0. -/
theorem Zeroed.control [DecidableEq Ch] (h : m.Zeroed) {sockfd : Sockfd} {op : EventCTL}
    {events : EventMask} {granted : Bool} {err : ℤ}
    (hok : m.control sockfd op events granted = .ok (err, m')) : m'.Zeroed := by
  rw [EpollManager.control] at hok
  split at hok
  case h_1 =>
    cases hok
    exact h
  case h_2 interest hctl =>
    have hzero : ∀ fd event, interest.lookup fd = some event → event.fd = 0 := by
      intro fd event hlookup
      rcases lookup_of_ctl hctl hlookup with rfl | hlookup
      · rfl
      · exact h.fd_eq fd event hlookup
    dsimp only at hok
    split at hok
    case isTrue => cases hok
    case isFalse =>
      split at hok
      case h_1 => cases hok
      case h_2 ch channels hindex =>
        cases hok
        obtain ⟨-, rfl⟩ := index_eq_some hindex
        refine ⟨fun fd ch' hlookup => ?_, hzero⟩
        show (Function.update m.objects ch _ ch').sockfd = fd
        by_cases heq : ch' = ch
        case pos =>
          rw [heq] at hlookup ⊢
          rw [Function.update_self]
          exact h.keyed fd ch hlookup
        case neg =>
          rw [Function.update_of_ne heq]
          exact h.keyed fd ch' hlookup

theorem handleEvent_eq_ok {outcome : WaitOutcome} {answer : Bool × List (Ch × EventMask)}
    (hok : m.handleEvent outcome = .ok (answer, m')) : m' = m := by
  cases outcome with
  | failed interrupted =>
      cases hok
      rfl
  | ready batch =>
      rw [EpollManager.handleEvent, bind_eq_ok] at hok
      obtain ⟨⟨calls, channels⟩, hdispatch, hok⟩ := hok
      cases hok
      rw [(dispatch_eq_ok hdispatch).1]

theorem Zeroed.step [DecidableEq Ch] {op : EpollOp Ch} {calls : List (Ch × EventMask)}
    (h : m.Zeroed) (hstep : m.epollStep op = .ok (calls, m')) : m'.Zeroed := by
  cases op with
  | updateChannel ch =>
      cases hstep
      exact h.updateChannel ch
  | control sockfd op events granted =>
      rw [epollStep, bind_eq_ok] at hstep
      obtain ⟨⟨err, m''⟩, hcontrol, hstep⟩ := hstep
      cases hstep
      exact h.control hcontrol
  | removeChannel sockfd =>
      cases hstep
      exact ⟨fun fd ch hlookup => h.keyed fd ch (FdMap.lookup_erase_eq_some hlookup), h.fd_eq⟩
  | close fd =>
      cases hstep
      exact ⟨h.keyed, fun fd event hlookup =>
        h.fd_eq fd event (FdMap.lookup_erase_eq_some hlookup)⟩
  | handleEvent outcome =>
      rw [epollStep, bind_eq_ok] at hstep
      obtain ⟨⟨answer, m''⟩, hhandle, hstep⟩ := hstep
      cases hstep
      exact handleEvent_eq_ok hhandle ▸ h

/-- A batch reaches its channels exactly when all of it is on descriptor 0. -/
theorem Zeroed.onZero_iff (h : m.Zeroed) {op : EpollOp Ch} (hreport : m.Reportable op) :
    m.Dispatches op ↔ m.OnZero op := by
  cases op with
  | updateChannel ch => exact Iff.rfl
  | control sockfd op events granted => exact Iff.rfl
  | removeChannel sockfd => exact Iff.rfl
  | close fd => exact Iff.rfl
  | handleEvent outcome =>
      cases outcome with
      | failed interrupted => exact Iff.rfl
      | ready batch =>
          have hwait := h.wait_eq hreport
          rw [Dispatches, OnZero, EpollManager.handleEvent, hwait]
          constructor
          · rintro ⟨calls, m', hok, hright⟩ p hp
            rw [bind_eq_ok] at hok
            obtain ⟨⟨calls', channels⟩, hdispatch, hok⟩ := hok
            cases hok
            have hzero := (dispatch_eq_ok hdispatch).2
            rw [List.forall₂_map_left_iff] at hzero
            -- the channel that is called is registered under 0 and under the event's descriptor
            have hboth : List.Forall₂ (fun (p : Sockfd × EventMask) (_ : Ch × EventMask) =>
                (p.1 = 0 ∧ ((m.channels.lookup 0).join).isSome = true) ∧ True) batch calls := by
              refine List.Forall₂.mp (fun p call hreg hcall => ⟨⟨?_, ?_⟩, trivial⟩) hright hzero
              · rw [← h.keyed _ _ hreg.1, h.keyed _ _ hcall.1]
              · rw [hcall.1]
                rfl
            exact ((List.forall₂_and_left batch calls).mp hboth).1 p hp
          · intro hall
            have hfd : ∀ event ∈ batch.map fun p => (⟨p.2, 0⟩ : EpollEvent),
                ∃ ch, m.channels.lookup event.fd = some (some ch) := by
              intro event hevent
              obtain ⟨p, hp, rfl⟩ := List.mem_map.mp hevent
              obtain ⟨ch, hch⟩ := Option.isSome_iff_exists.mp (hall p hp).2
              exact ⟨ch, Option.join_eq_some_iff.mp hch⟩
            obtain ⟨calls, hdispatch⟩ := dispatch_of_registered hfd
            have hzero := (dispatch_eq_ok hdispatch).2
            rw [List.forall₂_map_left_iff] at hzero
            refine ⟨calls, m, by rw [hdispatch, ok_bind], ?_⟩
            have hboth := (List.forall₂_and_left batch calls).mpr ⟨fun p hp => (hall p hp).1, hzero⟩
            refine hboth.imp fun p call hcall => ?_
            rw [hcall.1]
            exact hcall.2

variable [DecidableEq Ch]

theorem Zeroed.along_iff (h : m.Zeroed) {ops : List (EpollOp Ch)}
    (hreport : Along epollStep Reportable m ops) :
    Along epollStep Dispatches m ops ↔ Along epollStep OnZero m ops :=
  along_iff_along (fun _ _ _ _ h _ hstep => h.step hstep)
    (fun _ _ h hreport => h.onZero_iff hreport) h hreport

/-- In a run every event reaches the channel registered under its descriptor, and no other,
exactly when all events are on descriptor 0 while a channel is registered under it. -/
theorem dispatches_iff (objects : Ch → Channel) (ops : List (EpollOp Ch))
    (hreport : Along epollStep Reportable (new objects) ops) :
    Along epollStep Dispatches (new objects) ops ↔ Along epollStep OnZero (new objects) ops :=
  (new_zeroed objects).along_iff hreport

/-- The channel of descriptor 0 is registered, watched and called. -/
theorem dispatches_iff_stdin :
    Along epollStep Dispatches (new fun _ : Unit => ⟨0, EVENT_NONE⟩)
        [.updateChannel (), .control 0 .add EVENT_IN true, .handleEvent (.ready [(0, EVENT_IN)])] ↔
      Along epollStep OnZero (new fun _ : Unit => ⟨0, EVENT_NONE⟩)
        [.updateChannel (), .control 0 .add EVENT_IN true, .handleEvent (.ready [(0, EVENT_IN)])] :=
  dispatches_iff (fun _ : Unit => ⟨0, EVENT_NONE⟩)
    [.updateChannel (), .control 0 .add EVENT_IN true, .handleEvent (.ready [(0, EVENT_IN)])]
    (by decide +kernel)

/-- An event on descriptor 5 is looked up under 0. -/
theorem epoll_calls_null :
    Along epollStep Reportable (new fun _ : Unit => ⟨5, EVENT_NONE⟩)
        [.updateChannel (), .control 5 .add EVENT_IN true, .handleEvent (.ready [(5, EVENT_IN)])] ∧
      ¬ Along epollStep Dispatches (new fun _ : Unit => ⟨5, EVENT_NONE⟩)
        [.updateChannel (), .control 5 .add EVENT_IN true,
          .handleEvent (.ready [(5, EVENT_IN)])] := by
  have hreport : Along epollStep Reportable (new fun _ : Unit => ⟨5, EVENT_NONE⟩)
      [.updateChannel (), .control 5 .add EVENT_IN true,
        .handleEvent (.ready [(5, EVENT_IN)])] := by
    decide +kernel
  refine ⟨hreport, ?_⟩
  rw [(new_zeroed _).along_iff hreport]
  decide +kernel

end EpollManager

end LpNet
