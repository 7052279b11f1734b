import LpNet.Lib.Transition
import LpNet.Memory
import LpNet.Net.TaskScheduler

/-!
The listening socket of an `Acceptor`, and `TcpServer::start` and `stop` over it.

`listen` makes a new socket each time and `close` takes the channel out of the scheduler that
was stored last, so the two fit together only where they alternate. `AcceptorWorld` has the
descriptors of the process with it, which other parts of the process open, register and close too:
`acceptor_right_iff` says which runs never lose track of the listening descriptor and never
touch another one, and `server_right_iff` that the flag `running_` keeps a server to them, as
long as it does not listen on descriptor 0, which `isValid` takes for no descriptor.
-/

namespace LpNet

open Transition

/-- Whose a descriptor is, and whether an acceptor listens on it. -/
inductive FdUse
  | acceptor (listening : Bool)
  | other
  deriving DecidableEq, Repr

/-- Whose a registered channel is. -/
inductive ChannelUse
  | acceptor
  | other
  deriving DecidableEq, Repr

/-- An acceptor, the descriptors that the process has open, and the scheduler. -/
structure AcceptorWorld where
  fds : FdMap FdUse
  manager : SelectManager Unit ChannelUse
  /-- `socket_`, by its descriptor. -/
  socket : Option Sockfd := none
  channel : Option Channel := none

/-- What another part of the process does with a descriptor: it opens one, if the kernel answers
with one that is not open, registers a channel for it, or takes the channel out and closes it. -/
inductive OtherCall
  | opens (answer : Sockfd)
  | registers (fd : Sockfd)
  | closes (fd : Sockfd)
  deriving DecidableEq, Repr

/-- A call of `listen`, with the answers of the kernel to `::socket`, `::bind` and `::listen`, or of
`close`, or one of another part of the process. -/
inductive AcceptorCall
  | listen (answer : Sockfd) (binds listens : Bool)
  | close
  | other (call : OtherCall)
  deriving DecidableEq, Repr

namespace AcceptorWorld

def new (clock currTimerId : ℕ) : AcceptorWorld where
  fds := ∅
  manager := .new Unit ChannelUse clock currTimerId

/-- `::socket`, where the kernel answers with a descriptor that is not open, or not at all. -/
def openSocket (fds : FdMap FdUse) (answer : Sockfd) : Sockfd × FdMap FdUse :=
  if answer < 0 ∨ answer ∈ fds then (kInvalidSocket, fds)
  else (answer, fds.insert answer (.acceptor false))

/-- The destructor of a `Socket` with this descriptor. -/
def destroySocket (fds : FdMap FdUse) (fd : Sockfd) : FdMap FdUse :=
  if fd ≠ kInvalidSocket then fds.erase fd else fds

/-- `socket_.reset(new TcpSocket())`, with the descriptor of the new socket. The old one is
destroyed after the new one is made. -/
def resetSocket (w : AcceptorWorld) (answer : Sockfd) : Sockfd × AcceptorWorld :=
  let (fd, fds) := openSocket w.fds answer
  (fd, { w with fds := w.socket.elim fds (destroySocket fds), socket := some fd })

/-- `listen(addr, backlog)`. It answers false where it throws. -/
def listen (w : AcceptorWorld) (answer : Sockfd) (binds listens : Bool) : Bool × AcceptorWorld :=
  let (fd, w) := w.resetSocket answer
  if ¬ binds ∨ fd ∉ w.fds then (false, w)
  else
    let channel := Channel.new fd
    let w := { w with channel := some channel }
    if ¬ listens then (false, w)
    else
      let channel := channel.enableReading
      (true, { w with fds := w.fds.insert fd (.acceptor true)
                      channel := some channel
                      manager := w.manager.updateChannel .acceptor channel })

def close (w : AcceptorWorld) : Except Fault AcceptorWorld :=
  match w.socket with
  | none => .error .useAfterFree
  | some fd =>
      if 0 < fd then
        match w.channel with
        | none => .error .useAfterFree
        | some channel =>
            .ok { w with
              manager := w.manager.removeChannel channel.sockfd
              fds := w.fds.erase fd
              socket := if fd ∈ w.fds then some kInvalidSocket else some fd }
      else .ok w

/-- What another part does, which leaves the descriptors of the acceptor alone. -/
def other (w : AcceptorWorld) : OtherCall → AcceptorWorld
  | .opens answer =>
      if answer < 0 ∨ answer ∈ w.fds then w else { w with fds := w.fds.insert answer .other }
  | .registers fd =>
      if w.fds.lookup fd = some .other then
        { w with manager := w.manager.updateChannel .other (Channel.new fd).enableReading }
      else w
  | .closes fd =>
      if w.fds.lookup fd = some .other then
        { w with fds := w.fds.erase fd, manager := w.manager.removeChannel fd }
      else w

/-- Perform a call, with whether it returns. -/
def step (w : AcceptorWorld) : AcceptorCall → Except Fault (Bool × AcceptorWorld)
  | .listen answer binds listens => .ok (w.listen answer binds listens)
  | .close => do .ok (true, ← w.close)
  | .other call => .ok (true, w.other call)

/-- The acceptor listens on the descriptor. -/
def Listens (w : AcceptorWorld) (fd : Sockfd) : Prop := w.fds.lookup fd = some (.acceptor true)

/-- What is registered for the acceptor is the descriptor it listens on, and it has no other
descriptor than that of its socket. -/
structure Tracked (w : AcceptorWorld) : Prop where
  registered : ∀ fd, w.manager.channels.lookup fd = some .acceptor ↔ w.Listens fd
  owned : ∀ fd listening, w.fds.lookup fd = some (.acceptor listening) → w.socket = some fd

/-- The descriptors and channels of others are the same. -/
def Spares (w w' : AcceptorWorld) : Prop :=
  ∀ fd, (w.fds.lookup fd = some .other ↔ w'.fds.lookup fd = some .other) ∧
    (w.manager.channels.lookup fd = some .other ↔ w'.manager.channels.lookup fd = some .other)

/-- The call does not fault. `listen` and `close` spare what is of others, and after `close` the
acceptor does not listen. -/
def Right (w : AcceptorWorld) (call : AcceptorCall) : Prop :=
  ∃ answer w', w.step call = .ok (answer, w') ∧
    match call with
    | .listen .. => w.Spares w'
    | .close => w.Spares w' ∧ ∀ fd, ¬ w'.Listens fd
    | .other _ => True

/-- The acceptor listens only when it does not listen already. It is closed after a `listen`, not on
descriptor 0, and when the channel that was stored last has not been left for a descriptor that
another part has registered. -/
def Alternates (w : AcceptorWorld) : AcceptorCall → Prop
  | .listen .. => ∀ fd, ¬ w.Listens fd
  | .close => ∃ fd, w.socket = some fd ∧ ¬ w.Listens 0 ∧
      (0 < fd → ∃ channel, w.channel = some channel ∧
        w.manager.channels.lookup channel.sockfd ≠ some .other)
  | .other _ => True

/-! ### The tables -/

section Tables

variable {m : SelectManager Unit ChannelUse} {use : ChannelUse} {fd x : Sockfd}

theorem enableReading_ne_none (fd : Sockfd) :
    (Channel.new fd).enableReading.isNoneEvent = false := by
  show ((EVENT_NONE ||| EVENT_IN) == EVENT_NONE) = false
  decide

/-- A channel for a descriptor that has one changes nothing in the table. -/
theorem lookup_updateChannel (x : Sockfd) :
    (m.updateChannel use (Channel.new fd).enableReading).channels.lookup x =
      if x = fd ∧ fd ∉ m.channels then some use else m.channels.lookup x := by
  rw [SelectManager.updateChannel, enableReading_ne_none]
  have hfd : (Channel.new fd).enableReading.sockfd = fd := rfl
  rw [hfd]
  by_cases hmem : fd ∈ m.channels
  case pos => simp [hmem]
  case neg =>
    simp only [hmem, if_false, Bool.false_eq_true, FdMap.emplace, not_false_eq_true, and_true]
    split
    case isTrue heq =>
      subst heq
      exact AList.lookup_insert _
    case isFalse hne => exact AList.lookup_insert_ne hne

theorem lookup_removeChannel (x : Sockfd) :
    (m.removeChannel fd).channels.lookup x = if x = fd then none else m.channels.lookup x := by
  rw [SelectManager.removeChannel]
  by_cases hmem : fd ∈ m.channels
  case pos =>
    simp only [hmem, if_true]
    split
    case isTrue heq =>
      subst heq
      exact AList.lookup_erase ..
    case isFalse hne => exact AList.lookup_erase_ne hne
  case neg =>
    rw [if_neg hmem]
    split
    case isTrue heq =>
      subst heq
      exact AList.lookup_eq_none.mpr hmem
    case isFalse => rfl

theorem lookup_erase {V : Type} (fds : FdMap V) (fd x : Sockfd) :
    (fds.erase fd).lookup x = if x = fd then none else fds.lookup x := by
  split
  case isTrue heq =>
    subst heq
    exact AList.lookup_erase ..
  case isFalse hne => exact AList.lookup_erase_ne hne

theorem lookup_insert {V : Type} (fds : FdMap V) (fd x : Sockfd) (v : V) :
    (fds.insert fd v).lookup x = if x = fd then some v else fds.lookup x := by
  split
  case isTrue heq =>
    subst heq
    exact AList.lookup_insert _
  case isFalse hne => exact AList.lookup_insert_ne hne

end Tables

/-! ### The invariant -/

/-- Descriptors are not negative, what is registered for others is open and theirs, and the socket
has its descriptor as long as it names one; the channel that was stored last is that of the
descriptor that is listened on. -/
structure Sound (w : AcceptorWorld) : Prop where
  tracked : w.Tracked
  nonneg : ∀ fd use, w.fds.lookup fd = some use → 0 ≤ fd
  others : ∀ fd, w.manager.channels.lookup fd = some .other → w.fds.lookup fd = some .other
  socket : ∀ fd, w.socket = some fd →
    fd = kInvalidSocket ∨ ∃ listening, w.fds.lookup fd = some (.acceptor listening)
  channel : ∀ fd, w.Listens fd → ∃ channel, w.channel = some channel ∧ channel.sockfd = fd

variable {w w' : AcceptorWorld} {call : AcceptorCall}

theorem new_sound (clock currTimerId : ℕ) : (new clock currTimerId).Sound where
  tracked := ⟨fun fd => by simp [new, SelectManager.new, Listens], fun fd listening h => by cases h⟩
  nonneg fd use h := by cases h
  others fd h := by cases h
  socket fd h := by cases h
  channel fd h := by cases h

theorem listens_opens {answer x : Sockfd} (hnone : w.fds.lookup answer = none) :
    w.Listens x ↔ (w.fds.insert answer .other).lookup x = some (.acceptor true) := by
  rw [Listens, lookup_insert]
  split
  case isTrue heq =>
    subst heq
    simp [hnone]
  case isFalse => rfl

theorem listens_closes {fd x : Sockfd} (hfd : w.fds.lookup fd = some .other) :
    w.Listens x ↔ (w.fds.erase fd).lookup x = some (.acceptor true) := by
  rw [Listens, lookup_erase]
  split
  case isTrue heq =>
    subst heq
    simp [hfd]
  case isFalse => rfl

theorem listens_other (other : OtherCall) (x : Sockfd) :
    w.Listens x ↔ (w.other other).Listens x := by
  cases other with
  | opens answer =>
      rw [AcceptorWorld.other]
      split
      case isTrue => exact Iff.rfl
      case isFalse hfree => exact listens_opens (AList.lookup_eq_none.mpr (not_or.mp hfree).2)
  | registers fd =>
      rw [AcceptorWorld.other]
      split <;> exact Iff.rfl
  | closes fd =>
      rw [AcceptorWorld.other]
      split
      case isTrue hfd => exact listens_closes hfd
      case isFalse => exact Iff.rfl

/-- Other parts of the process keep to their own. -/
theorem Sound.other (h : w.Sound) (call : OtherCall) : (w.other call).Sound := by
  obtain ⟨⟨hregistered, howned⟩, hnonneg, hothers, hsocket, hchannel⟩ := h
  cases call with
  | opens answer =>
      rw [AcceptorWorld.other]
      split
      case isTrue => exact ⟨⟨hregistered, howned⟩, hnonneg, hothers, hsocket, hchannel⟩
      case isFalse hfree =>
        rw [not_or, not_lt] at hfree
        have hnone : w.fds.lookup answer = none := AList.lookup_eq_none.mpr hfree.2
        refine ⟨⟨fun fd => (hregistered fd).trans (listens_opens hnone),
            fun fd listening hfd => ?_⟩,
          fun fd use hfd => ?_, fun fd hfd => ?_, fun fd hfd => ?_,
          fun fd hfd => hchannel fd ((listens_opens hnone).mpr hfd)⟩
        all_goals dsimp only at hfd ⊢
        · rw [lookup_insert] at hfd
          split at hfd
          · cases hfd
          · exact howned fd listening hfd
        · rw [lookup_insert] at hfd
          split at hfd
          case isTrue heq => exact heq ▸ hfree.1
          case isFalse => exact hnonneg fd use hfd
        · rw [lookup_insert]
          split
          · rfl
          · exact hothers fd hfd
        · refine (hsocket fd hfd).imp_right fun ⟨listening, hlookup⟩ => ⟨listening, ?_⟩
          rw [lookup_insert]
          split
          case isTrue heq =>
            rw [heq, hnone] at hlookup
            cases hlookup
          case isFalse => exact hlookup
  | registers fd =>
      rw [AcceptorWorld.other]
      split
      case isFalse => exact ⟨⟨hregistered, howned⟩, hnonneg, hothers, hsocket, hchannel⟩
      case isTrue hfd =>
        refine ⟨⟨fun x => ?_, howned⟩, hnonneg, fun x hx => ?_, hsocket, hchannel⟩
        · dsimp only
          rw [lookup_updateChannel]
          split
          case isTrue heq =>
            rw [heq.1, Listens]
            simp [hfd]
          case isFalse => exact hregistered x
        · dsimp only at hx ⊢
          rw [lookup_updateChannel] at hx
          split at hx
          case isTrue heq => exact heq.1 ▸ hfd
          case isFalse => exact hothers x hx
  | closes fd =>
      rw [AcceptorWorld.other]
      split
      case isFalse => exact ⟨⟨hregistered, howned⟩, hnonneg, hothers, hsocket, hchannel⟩
      case isTrue hfd =>
        refine ⟨⟨fun x => ?_, fun x listening hx => ?_⟩, fun x use hx => ?_, fun x hx => ?_,
          fun x hx => ?_, fun x hx => hchannel x ((listens_closes hfd).mpr hx)⟩
        all_goals try dsimp only at hx
        all_goals try dsimp only
        · rw [lookup_removeChannel]
          split
          case isTrue heq =>
            rw [heq, Listens, lookup_erase]
            simp
          case isFalse => exact (hregistered x).trans (listens_closes hfd)
        · rw [lookup_erase] at hx
          split at hx
          · cases hx
          · exact howned x listening hx
        · rw [lookup_erase] at hx
          split at hx
          · cases hx
          · exact hnonneg x use hx
        · rw [lookup_removeChannel] at hx
          rw [lookup_erase]
          split at hx
          · cases hx
          case isFalse hne =>
            rw [if_neg hne]
            exact hothers x hx
        · refine (hsocket x hx).imp_right fun ⟨listening, hlookup⟩ => ⟨listening, ?_⟩
          rw [lookup_erase]
          split
          case isTrue heq =>
            rw [heq, hfd] at hlookup
            cases hlookup
          case isFalse => exact hlookup

/-! ### `listen` -/

theorem openSocket_cases (fds : FdMap FdUse) (answer : Sockfd) :
    openSocket fds answer = (kInvalidSocket, fds) ∨
      0 ≤ answer ∧ fds.lookup answer = none ∧
        openSocket fds answer = (answer, fds.insert answer (.acceptor false)) := by
  unfold openSocket
  split
  case isTrue => exact .inl rfl
  case isFalse hfree =>
    rw [not_or, not_lt] at hfree
    exact .inr ⟨hfree.1, AList.lookup_eq_none.mpr hfree.2, rfl⟩

theorem Sound.lookup_invalid (h : w.Sound) : w.fds.lookup kInvalidSocket = none := by
  cases hlookup : w.fds.lookup kInvalidSocket with
  | none => rfl
  | some use => exact absurd (h.nonneg _ use hlookup) (by decide)

theorem lookup_destroySocket (fds : FdMap FdUse) {fd : Sockfd}
    (hinvalid : fds.lookup kInvalidSocket = none) (x : Sockfd) :
    (destroySocket fds fd).lookup x = if x = fd then none else fds.lookup x := by
  rw [destroySocket]
  split
  case isTrue => exact lookup_erase fds fd x
  case isFalse heq =>
    rw [not_not] at heq
    subst heq
    split
    case isTrue heq => rw [heq, hinvalid]
    case isFalse => rfl

theorem Sound.lookup_of_ne (h : w.Sound) {x : Sockfd} (hx : w.socket ≠ some x) :
    w.fds.lookup x = if w.fds.lookup x = some .other then some .other else none := by
  cases hlookup : w.fds.lookup x with
  | none => rfl
  | some use =>
      cases use with
      | acceptor listening => exact absurd (h.tracked.owned x listening hlookup) hx
      | other => rfl

theorem Sound.lookup_of_socket (h : w.Sound) {x : Sockfd} (hx : w.socket = some x) :
    w.fds.lookup x ≠ some .other := by
  rintro hother
  rcases h.socket x hx with rfl | ⟨listening, hlookup⟩
  · rw [h.lookup_invalid] at hother
    cases hother
  · rw [hlookup] at hother
    cases hother

/-- What `resetSocket` leaves of the descriptors. -/
structure Renewed (w : AcceptorWorld) (fds : FdMap FdUse) (fd : Sockfd) : Prop where
  fresh : w.fds.lookup fd = none
  new : fd = kInvalidSocket ∧ fds.lookup fd = none ∨
    0 ≤ fd ∧ fds.lookup fd = some (.acceptor false)
  rest : ∀ x, x ≠ fd → fds.lookup x = if w.fds.lookup x = some .other then some .other else none

theorem resetSocket_spec (h : w.Sound) (answer : Sockfd) :
    ∃ fd fds, w.resetSocket answer = (fd, { w with fds := fds, socket := some fd }) ∧
      w.Renewed fds fd := by
  -- the old descriptor goes, if there is one, and it is not the new one
  have hdestroyed : ∀ fds : FdMap FdUse, fds.lookup kInvalidSocket = none →
      ∀ x, (w.socket.elim fds (destroySocket fds)).lookup x =
        if w.socket = some x then none else fds.lookup x := by
    intro fds hinvalid x
    cases w.socket with
    | none => rfl
    | some old =>
        rw [Option.elim_some, lookup_destroySocket fds hinvalid]
        exact if_congr (by rw [Option.some.injEq, eq_comm]) rfl rfl
  have hold : ∀ x, (if w.socket = some x then none else w.fds.lookup x) =
      if w.fds.lookup x = some .other then some .other else none := by
    intro x
    split
    case isTrue hx => rw [if_neg (h.lookup_of_socket hx)]
    case isFalse hx => exact h.lookup_of_ne hx
  unfold resetSocket
  rcases openSocket_cases w.fds answer with heq | ⟨hnonneg, hnone, heq⟩
  · rw [heq]
    refine ⟨kInvalidSocket, _, rfl, ⟨h.lookup_invalid, .inl ⟨rfl, ?_⟩, fun x _ => ?_⟩⟩
    · rw [hdestroyed _ h.lookup_invalid, h.lookup_invalid, ite_self]
    · rw [hdestroyed _ h.lookup_invalid, hold]
  · rw [heq]
    have hne : kInvalidSocket ≠ answer := by
      rintro rfl
      exact absurd hnonneg (by decide)
    have hinvalid : (w.fds.insert answer (.acceptor false)).lookup kInvalidSocket = none := by
      rw [lookup_insert, if_neg hne, h.lookup_invalid]
    refine ⟨answer, _, rfl, ⟨hnone, .inr ⟨hnonneg, ?_⟩, fun x hx => ?_⟩⟩
    · rw [hdestroyed _ hinvalid, lookup_insert, if_pos rfl, if_neg]
      rintro hsocket
      rcases h.socket answer hsocket with rfl | ⟨listening, hlookup⟩
      · exact hne rfl
      · rw [hnone] at hlookup
        cases hlookup
    · rw [hdestroyed _ hinvalid, lookup_insert, if_neg hx, hold]

section Renewed

variable {fds : FdMap FdUse} {fd : Sockfd}

theorem Renewed.other_iff (hnew : w.Renewed fds fd) (x : Sockfd) :
    w.fds.lookup x = some .other ↔ fds.lookup x = some .other := by
  by_cases hx : x = fd
  case pos =>
    subst hx
    rw [hnew.fresh]
    rcases hnew.new with ⟨-, hlookup⟩ | ⟨-, hlookup⟩
    · simp [hlookup]
    · simp [hlookup]
  case neg =>
    rw [hnew.rest x hx]
    split
    case isTrue hother => simp [hother]
    case isFalse hother => simp [hother]

theorem Renewed.eq_of_acceptor (hnew : w.Renewed fds fd) {x : Sockfd} {listening : Bool}
    (hx : fds.lookup x = some (.acceptor listening)) : x = fd ∧ listening = false := by
  by_cases heq : x = fd
  case pos =>
    subst heq
    rcases hnew.new with ⟨-, hlookup⟩ | ⟨-, hlookup⟩
    · rw [hlookup] at hx
      cases hx
    · rw [hlookup] at hx
      cases hx
      exact ⟨rfl, rfl⟩
  case neg =>
    rw [hnew.rest x heq] at hx
    split at hx <;> cases hx

theorem Renewed.sound (hnew : w.Renewed fds fd) (h : w.Sound) (hnone : ∀ x, ¬ w.Listens x)
    (channel : Option Channel) :
    ({ w with fds := fds, socket := some fd, channel := channel } : AcceptorWorld).Sound where
  tracked := by
    refine ⟨fun x => ?_, fun x listening hx => ?_⟩
    · refine iff_of_false (fun hx => hnone x ((h.tracked.registered x).mp hx)) fun hx => ?_
      cases (hnew.eq_of_acceptor hx).2
    · rw [(hnew.eq_of_acceptor hx).1]
  nonneg x use hx := by
    cases use with
    | acceptor listening =>
        obtain ⟨rfl, -⟩ := hnew.eq_of_acceptor hx
        rcases hnew.new with ⟨-, hlookup⟩ | ⟨hnonneg, -⟩
        · rw [hlookup] at hx
          cases hx
        · exact hnonneg
    | other => exact h.nonneg x _ ((hnew.other_iff x).mpr hx)
  others x hx := (hnew.other_iff x).mp (h.others x hx)
  socket x hx := by
    cases hx
    exact hnew.new.imp And.left fun hacceptor => ⟨false, hacceptor.2⟩
  channel x hx := by
    cases (hnew.eq_of_acceptor hx).2

theorem Renewed.sound_listening (hnew : w.Renewed fds fd) (h : w.Sound)
    (hnone : ∀ x, ¬ w.Listens x) (hfd : fd ∈ fds) :
    ({ w with fds := fds.insert fd (.acceptor true), socket := some fd
              channel := some (Channel.new fd).enableReading
              manager := w.manager.updateChannel .acceptor (Channel.new fd).enableReading }
      : AcceptorWorld).Sound := by
  have hsound := hnew.sound h hnone none
  have hacceptor : fds.lookup fd = some (.acceptor false) := by
    rcases hnew.new with ⟨-, hlookup⟩ | ⟨-, hlookup⟩
    · exact absurd hfd (AList.lookup_eq_none.mp hlookup)
    · exact hlookup
  have hunregistered : w.manager.channels.lookup fd = none := by
    cases hlookup : w.manager.channels.lookup fd with
    | none => rfl
    | some use =>
        cases use with
        | acceptor => exact absurd ((h.tracked.registered fd).mp hlookup) (hnone fd)
        | other =>
            have hother := h.others fd hlookup
            rw [hnew.fresh] at hother
            cases hother
  have hnonneg : 0 ≤ fd := hsound.nonneg fd _ hacceptor
  refine ⟨⟨fun x => ?_, fun x listening hx => ?_⟩, fun x use hx => ?_, fun x hx => ?_,
    fun x hx => ?_, fun x hx => ?_⟩
  all_goals try dsimp only at hx ⊢
  · rw [lookup_updateChannel, Listens, lookup_insert]
    by_cases heq : x = fd
    case pos => rw [if_pos ⟨heq, AList.lookup_eq_none.mp hunregistered⟩, if_pos heq]; simp
    case neg =>
      rw [if_neg fun hand => heq hand.1, if_neg heq]
      exact hsound.tracked.registered x
  · rw [lookup_insert] at hx
    split at hx
    case isTrue heq => rw [heq]
    case isFalse => exact hsound.tracked.owned x listening hx
  · rw [lookup_insert] at hx
    split at hx
    case isTrue heq => exact heq ▸ hnonneg
    case isFalse => exact hsound.nonneg x use hx
  · rw [lookup_updateChannel] at hx
    split at hx
    · cases hx
    · rw [lookup_insert]
      split
      case isTrue heq =>
        rw [heq, hunregistered] at hx
        cases hx
      case isFalse => exact hsound.others x hx
  · cases hx
    exact .inr ⟨true, by rw [lookup_insert, if_pos rfl]⟩
  · rw [Listens, lookup_insert] at hx
    split at hx
    case isTrue heq => exact ⟨_, rfl, heq.symm⟩
    case isFalse => cases (hnew.eq_of_acceptor hx).2

end Renewed

/-- `listen` makes the socket anew, and then it throws or listens on the new descriptor. -/
theorem listen_cases (h : w.Sound) (answer : Sockfd) (binds listens : Bool) :
    ∃ fd fds, w.Renewed fds fd ∧
      ((∃ channel, w.listen answer binds listens =
          (false, { w with fds := fds, socket := some fd, channel := channel })) ∨
        fd ∈ fds ∧ w.listen answer binds listens =
          (true, { w with
            fds := fds.insert fd (.acceptor true), socket := some fd
            channel := some (Channel.new fd).enableReading
            manager := w.manager.updateChannel .acceptor (Channel.new fd).enableReading })) := by
  obtain ⟨fd, fds, hreset, hnew⟩ := resetSocket_spec h answer
  refine ⟨fd, fds, hnew, ?_⟩
  rw [listen, hreset]
  dsimp only
  split
  case isTrue => exact .inl ⟨w.channel, rfl⟩
  case isFalse hbound =>
    split
    case isTrue => exact .inl ⟨_, rfl⟩
    case isFalse => exact .inr ⟨not_not.mp (not_or.mp hbound).2, rfl⟩

theorem listen_of_not_listens (h : w.Sound) (hnone : ∀ x, ¬ w.Listens x) (answer : Sockfd)
    (binds listens : Bool) :
    (w.listen answer binds listens).2.Sound ∧ w.Spares (w.listen answer binds listens).2 ∧
      ((w.listen answer binds listens).1 = true ↔
        ∃ x, (w.listen answer binds listens).2.Listens x) := by
  obtain ⟨fd, fds, hnew, ⟨channel, heq⟩ | ⟨hfd, heq⟩⟩ := listen_cases h answer binds listens
  · rw [heq]
    refine ⟨hnew.sound h hnone channel, fun x => ⟨hnew.other_iff x, Iff.rfl⟩, ?_⟩
    refine iff_of_false (fun hfalse => by cases hfalse) ?_
    rintro ⟨x, hx⟩
    cases (hnew.eq_of_acceptor hx).2
  · rw [heq]
    have hsound := hnew.sound_listening h hnone hfd
    refine ⟨hsound, fun x => ⟨?_, ?_⟩, iff_of_true rfl ⟨fd, ?_⟩⟩
    · rw [hnew.other_iff x]
      dsimp only
      rw [lookup_insert]
      split
      case isTrue hx =>
        rw [hx, ← hnew.other_iff, hnew.fresh]
        simp
      case isFalse => rfl
    · dsimp only
      rw [lookup_updateChannel]
      split
      case isTrue hx =>
        rw [hx.1, AList.lookup_eq_none.mpr hx.2]
        simp
      case isFalse => rfl
    · exact (lookup_insert fds fd fd _).trans (if_pos rfl)

theorem not_tracked_of_listens (h : w.Sound) {x : Sockfd} (hx : w.Listens x) (answer : Sockfd)
    (binds listens : Bool) : ¬ (w.listen answer binds listens).2.Tracked := by
  have hregistered := (h.tracked.registered x).mpr hx
  intro htracked
  obtain ⟨fd, fds, hnew, ⟨channel, heq⟩ | ⟨hfd, heq⟩⟩ := listen_cases h answer binds listens
  · rw [heq] at htracked
    cases (hnew.eq_of_acceptor ((htracked.registered x).mp hregistered)).2
  · rw [heq] at htracked
    have hne : x ≠ fd := by
      rintro rfl
      rw [Listens, hnew.fresh] at hx
      cases hx
    have hstale := (htracked.registered x).mp (by
      rw [lookup_updateChannel, if_neg fun hand => hne hand.1]
      exact hregistered)
    rw [Listens, lookup_insert, if_neg hne] at hstale
    exact hne (hnew.eq_of_acceptor hstale).1

/-! ### `close` -/

/-- The acceptor is closed where its socket names a positive descriptor, and the channel it stored
last is taken out. -/
theorem close_of_pos (h : w.Sound) {fd : Sockfd} {channel : Channel} (hsocket : w.socket = some fd)
    (hpos : 0 < fd) (hchannel : w.channel = some channel) :
    w.close = .ok { w with manager := w.manager.removeChannel channel.sockfd
                           fds := w.fds.erase fd
                           socket := some kInvalidSocket } := by
  have hmem : fd ∈ w.fds := by
    rcases h.socket fd hsocket with rfl | ⟨listening, hlookup⟩
    · exact absurd hpos (by decide)
    · exact AList.lookup_isSome.mp (by rw [hlookup]; rfl)
  rw [AcceptorWorld.close, hsocket]
  dsimp only
  rw [if_pos hpos, hchannel]
  dsimp only
  rw [if_pos hmem]

theorem close_of_not_pos {fd : Sockfd} (hsocket : w.socket = some fd) (hpos : ¬ 0 < fd) :
    w.close = .ok w := by
  rw [close, hsocket]
  exact if_neg hpos

theorem close_of_alternates (h : w.Sound) (hclose : w.Alternates .close) :
    ∃ w', w.close = .ok w' ∧ w'.Sound ∧ w.Spares w' ∧ ∀ x, ¬ w'.Listens x := by
  obtain ⟨fd, hsocket, hzero, hchannel⟩ := hclose
  have howner : ∀ x listening, w.fds.lookup x = some (.acceptor listening) → x = fd := by
    intro x listening hx
    rw [h.tracked.owned x listening hx] at hsocket
    exact Option.some.inj hsocket
  by_cases hpos : 0 < fd
  case neg =>
    refine ⟨w, close_of_not_pos hsocket hpos, h, fun x => ⟨Iff.rfl, Iff.rfl⟩, fun x hx => ?_⟩
    obtain rfl := howner x true hx
    have hfd : x = 0 := le_antisymm (not_lt.mp hpos) (h.nonneg x _ hx)
    exact hzero (hfd ▸ hx)
  case pos =>
    obtain ⟨channel, hstored, hmine⟩ := hchannel hpos
    have hown : w.fds.lookup fd ≠ some .other := h.lookup_of_socket hsocket
    have hnone : ∀ x, (w.fds.erase fd).lookup x ≠ some (.acceptor true) := by
      intro x hx
      rw [lookup_erase] at hx
      split at hx
      · cases hx
      case isFalse hne => exact hne (howner x true hx)
    refine ⟨_, close_of_pos h hsocket hpos hstored, ?_, fun x => ⟨?_, ?_⟩, hnone⟩
    · refine ⟨⟨fun x => iff_of_false (fun hx => ?_) (hnone x), fun x listening hx => ?_⟩,
        fun x use hx => ?_, fun x hx => ?_, fun x hx => ?_, fun x hx => absurd hx (hnone x)⟩
      all_goals try dsimp only at hx ⊢
      · rw [lookup_removeChannel] at hx
        split at hx
        · cases hx
        case isFalse hne =>
          -- what was listened on has the channel that was stored last
          have hlisten := (h.tracked.registered x).mp hx
          obtain ⟨last, hlast, rfl⟩ := h.channel x hlisten
          rw [hstored] at hlast
          exact hne (by rw [Option.some.inj hlast])
      · rw [lookup_erase] at hx
        split at hx
        · cases hx
        case isFalse hne => exact absurd (howner x listening hx) hne
      · rw [lookup_erase] at hx
        split at hx
        · cases hx
        · exact h.nonneg x use hx
      · rw [lookup_removeChannel] at hx
        split at hx
        · cases hx
        · rw [lookup_erase, if_neg]
          · exact h.others x hx
          · rintro rfl
            exact hown (h.others x hx)
      · cases hx
        exact .inl rfl
    · dsimp only
      rw [lookup_erase]
      split
      case isTrue hx =>
        rw [hx]
        simp [hown]
      case isFalse => rfl
    · dsimp only
      rw [lookup_removeChannel]
      split
      case isTrue hx =>
        rw [hx]
        simp [hmine]
      case isFalse => rfl

/-- Where the condition is not met `close` faults, leaves the acceptor listening or takes the
channel of another out. -/
theorem not_right_of_not_alternates (h : w.Sound) (hclose : ¬ w.Alternates .close) :
    ¬ w.Right .close := by
  rintro ⟨answer, w', hstep, hspares, hnone⟩
  rw [step, bind_eq_ok] at hstep
  obtain ⟨closed, hok, hstep⟩ := hstep
  cases hstep
  apply hclose
  cases hsocket : w.socket with
  | none =>
      rw [close, hsocket] at hok
      cases hok
  | some fd =>
      by_cases hpos : 0 < fd
      case neg =>
        rw [close_of_not_pos hsocket hpos] at hok
        cases hok
        exact ⟨fd, hsocket, hnone 0, fun hlt => absurd hlt hpos⟩
      case pos =>
        have hzero : ¬ w.Listens 0 := by
          intro hlisten
          rw [h.tracked.owned 0 true hlisten] at hsocket
          exact hpos.ne (Option.some.inj hsocket)
        refine ⟨fd, hsocket, hzero, fun _ => ?_⟩
        cases hchannel : w.channel with
        | none =>
            rw [close, hsocket] at hok
            dsimp only at hok
            rw [if_pos hpos, hchannel] at hok
            cases hok
        | some channel =>
            refine ⟨channel, rfl, fun hother => ?_⟩
            rw [close_of_pos h hsocket hpos hchannel] at hok
            cases hok
            have hgone := (hspares channel.sockfd).2.mp hother
            rw [lookup_removeChannel, if_pos rfl] at hgone
            cases hgone

/-! ### Runs -/

theorem step_of_alternates (h : w.Sound) (hcall : w.Alternates call) :
    ∃ answer w', w.step call = .ok (answer, w') ∧ w'.Sound ∧ w.Right call := by
  cases call with
  | listen answer binds listens =>
      obtain ⟨hsound, hspares, -⟩ := listen_of_not_listens h hcall answer binds listens
      exact ⟨_, _, rfl, hsound, _, _, rfl, hspares⟩
  | close =>
      obtain ⟨w', hok, hsound, hspares, hnone⟩ := close_of_alternates h hcall
      have hstep : w.step .close = .ok (true, w') := by rw [step, hok, ok_bind]
      exact ⟨true, w', hstep, hsound, true, w', hstep, hspares, hnone⟩
  | other other => exact ⟨true, _, rfl, h.other other, true, _, rfl, trivial⟩

/-- In a run the acceptor keeps track of the descriptor it listens on, and nothing faults, touches
what is of others or leaves it listening after `close`, exactly when every `listen` finds it not
listening and every `close` a socket and a channel that are its own (`Alternates`). -/
theorem acceptor_right_iff (clock currTimerId : ℕ) (calls : List AcceptorCall) :
    AlongStates step Tracked (new clock currTimerId) calls ∧
        Along step Right (new clock currTimerId) calls ↔
      Along step Alternates (new clock currTimerId) calls := by
  refine right_iff_along (I := Sound) (fun w call answer w' h hcall hstep => ?_)
    (fun w call h hcall => ?_) (fun w call h hcall => ?_) (fun w h => h.tracked)
    (new_sound clock currTimerId)
  · obtain ⟨_, _, hok, hsound, -⟩ := step_of_alternates h hcall
    rw [hok] at hstep
    cases hstep
    exact hsound
  · exact (step_of_alternates h hcall).choose_spec.choose_spec.2.2
  · cases call with
    | listen answer binds listens =>
        obtain ⟨x, hx⟩ := not_forall_not.mp hcall
        exact .inr ⟨_, _, rfl, not_tracked_of_listens h hx answer binds listens⟩
    | close => exact .inl (not_right_of_not_alternates h hcall)
    | other other => exact absurd trivial hcall

end AcceptorWorld

/-- A `TcpServer` that has no connections, with its acceptor. -/
structure ListeningServer where
  acceptor : AcceptorWorld
  running : Bool

/-- A call of `start`, with the answers of the kernel, or of `stop`, or one of another part of the
process. -/
inductive ServerCall
  | start (answer : Sockfd) (binds listens : Bool)
  | stop
  | other (call : OtherCall)
  deriving DecidableEq, Repr

namespace ListeningServer

/-- The constructor. It gives `running_` no value. -/
def new (clock currTimerId : ℕ) (running : Bool) : ListeningServer where
  acceptor := .new clock currTimerId
  running := running

/-- `start(ip, port, max_backlog)`. There is no answer where `listen` throws. -/
def start (s : ListeningServer) (answer : Sockfd) (binds listens : Bool) :
    Option Bool × ListeningServer :=
  if s.running then (some false, s)
  else
    let (returns, acceptor) := s.acceptor.listen answer binds listens
    if returns then (some true, { s with acceptor := acceptor, running := true })
    else (none, { s with acceptor := acceptor })

def stop (s : ListeningServer) : Except Fault (Option Bool × ListeningServer) :=
  if ¬ s.running then .ok (some false, s)
  else do
    let acceptor ← s.acceptor.close
    .ok (some true, { s with acceptor := acceptor, running := false })

def step (s : ListeningServer) : ServerCall → Except Fault (Option Bool × ListeningServer)
  | .start answer binds listens => .ok (s.start answer binds listens)
  | .stop => s.stop
  | .other call => .ok (none, { s with acceptor := s.acceptor.other call })

/-- The acceptor keeps track of the descriptor it listens on, and the server is running exactly when
there is one. -/
structure InStep (s : ListeningServer) : Prop where
  tracked : s.acceptor.Tracked
  running_iff : s.running = true ↔ ∃ fd, s.acceptor.Listens fd

/-- The call does not fault, and those of the server spare what is of others. -/
def Right (s : ListeningServer) (call : ServerCall) : Prop :=
  ∃ answer s', s.step call = .ok (answer, s') ∧
    match call with
    | .other _ => True
    | _ => s.acceptor.Spares s'.acceptor

/-- The server is not stopped while it listens on descriptor 0. -/
def StopsNonzero (s : ListeningServer) (call : ServerCall) : Prop :=
  call = .stop → s.running = true → ¬ s.acceptor.Listens 0

structure Sound (s : ListeningServer) : Prop where
  acceptor : s.acceptor.Sound
  running_iff : s.running = true ↔ ∃ fd, s.acceptor.Listens fd

variable {s : ListeningServer} {call : ServerCall}

theorem Sound.inStep (h : s.Sound) : s.InStep := ⟨h.acceptor.tracked, h.running_iff⟩

theorem Sound.not_listens (h : s.Sound) (hrunning : ¬ s.running = true) (x : Sockfd) :
    ¬ s.acceptor.Listens x :=
  fun hx => hrunning (h.running_iff.mpr ⟨x, hx⟩)

theorem spares_refl (w : AcceptorWorld) : w.Spares w := fun _ => ⟨Iff.rfl, Iff.rfl⟩

/-- A call goes right and keeps the invariant where the server is not stopped on descriptor 0. -/
theorem step_of_stopsNonzero (h : s.Sound) (hcall : s.StopsNonzero call) :
    ∃ answer s', s.step call = .ok (answer, s') ∧ s'.Sound ∧ s.Right call := by
  cases call with
  | start answer binds listens =>
      by_cases hrunning : s.running = true
      case pos =>
        have hstep : s.step (.start answer binds listens) = .ok (some false, s) := by
          rw [step, start, if_pos hrunning]
        exact ⟨_, s, hstep, h, _, s, hstep, spares_refl s.acceptor⟩
      case neg =>
        obtain ⟨hsound, hspares, hiff⟩ :=
          AcceptorWorld.listen_of_not_listens h.acceptor (h.not_listens hrunning) answer binds
            listens
        have hstep : ∃ answer' s', s.step (.start answer binds listens) = .ok (answer', s') ∧
            s'.acceptor = (s.acceptor.listen answer binds listens).2 ∧
            s'.running = (s.acceptor.listen answer binds listens).1 := by
          rw [step, start, if_neg hrunning]
          dsimp only
          split
          case isTrue hreturns => exact ⟨_, _, rfl, rfl, hreturns.symm⟩
          case isFalse hthrows =>
            have hfalse : s.running = (s.acceptor.listen answer binds listens).1 := by
              rw [Bool.eq_false_iff.mpr hrunning, Bool.eq_false_iff.mpr hthrows]
            exact ⟨_, _, rfl, rfl, hfalse⟩
        obtain ⟨answer', s', hok, hacceptor, hflag⟩ := hstep
        refine ⟨answer', s', hok, ⟨hacceptor ▸ hsound, ?_⟩, answer', s', hok, ?_⟩
        · rw [hflag, hacceptor]
          exact hiff
        · rw [hacceptor]
          exact hspares
  | stop =>
      by_cases hrunning : s.running = true
      case neg =>
        have hstep : s.step .stop = .ok (some false, s) := by rw [step, stop, if_pos hrunning]
        exact ⟨_, s, hstep, h, _, s, hstep, spares_refl s.acceptor⟩
      case pos =>
        obtain ⟨fd, hfd⟩ := h.running_iff.mp hrunning
        obtain ⟨channel, hstored, hsockfd⟩ := h.acceptor.channel fd hfd
        have hclose : s.acceptor.Alternates .close := by
          refine ⟨fd, h.acceptor.tracked.owned fd true hfd, hcall rfl hrunning, fun _ => ?_⟩
          refine ⟨channel, hstored, fun hother => ?_⟩
          rw [hsockfd, (h.acceptor.tracked.registered fd).mpr hfd] at hother
          cases hother
        obtain ⟨w', hok, hsound, hspares, hnone⟩ :=
          AcceptorWorld.close_of_alternates h.acceptor hclose
        have hstep : s.step .stop =
            .ok (some true, { s with acceptor := w', running := false }) := by
          rw [step, stop, if_neg (not_not.mpr hrunning), hok, ok_bind]
        refine ⟨_, _, hstep, ⟨hsound, iff_of_false (fun hfalse => by cases hfalse) ?_⟩, _, _, hstep,
          hspares⟩
        rintro ⟨x, hx⟩
        exact hnone x hx
  | other other =>
      refine ⟨none, _, rfl, ⟨h.acceptor.other other, ?_⟩, none, _, rfl, trivial⟩
      rw [h.running_iff]
      exact exists_congr (AcceptorWorld.listens_other other)

/-- A server that is stopped on descriptor 0 goes on listening. -/
theorem not_inStep_of_zero (h : s.Sound) (hrunning : s.running = true)
    (hzero : s.acceptor.Listens 0) :
    ∃ answer s', s.step .stop = .ok (answer, s') ∧ ¬ s'.InStep := by
  have hsocket := h.acceptor.tracked.owned 0 true hzero
  have hclose := AcceptorWorld.close_of_not_pos hsocket (lt_irrefl 0)
  refine ⟨some true, { s with running := false }, ?_, fun hstep => ?_⟩
  · rw [step, stop, if_neg (not_not.mpr hrunning), hclose, ok_bind]
  · cases hstep.running_iff.mpr ⟨0, hzero⟩

/-- A server without connections never faults or touches what is of others, keeps track of the
descriptor it listens on, and is running exactly when there is one, if it was constructed as not
running and is never stopped while it listens on descriptor 0, and only then. -/
theorem server_right_iff (clock currTimerId : ℕ) (running : Bool) (calls : List ServerCall) :
    AlongStates step InStep (new clock currTimerId running) calls ∧
        Along step Right (new clock currTimerId running) calls ↔
      running = false ∧ Along step StopsNonzero (new clock currTimerId running) calls := by
  cases running with
  | true =>
      refine iff_of_false (fun ⟨hstates, _⟩ => ?_) fun hfalse => by cases hfalse.1
      obtain ⟨fd, hfd⟩ := hstates.head.running_iff.mp rfl
      cases hfd
  | false =>
      rw [eq_self_iff_true, true_and]
      refine right_iff_along (I := Sound) (fun s call answer s' h hcall hstep => ?_)
        (fun s call h hcall => ?_) (fun s call h hcall => ?_) (fun s h => h.inStep) ?_
      · obtain ⟨_, _, hok, hsound, -⟩ := step_of_stopsNonzero h hcall
        rw [hok] at hstep
        cases hstep
        exact hsound
      · exact (step_of_stopsNonzero h hcall).choose_spec.choose_spec.2.2
      · right
        rw [StopsNonzero, Classical.not_imp, Classical.not_imp, not_not] at hcall
        obtain ⟨rfl, hrunning, hzero⟩ := hcall
        exact not_inStep_of_zero h hrunning hzero
      · refine ⟨AcceptorWorld.new_sound clock currTimerId,
          iff_of_false (fun hfalse => by cases hfalse) ?_⟩
        rintro ⟨fd, hfd⟩
        cases hfd

end ListeningServer

end LpNet
