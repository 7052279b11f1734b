import LpNet.Net.Tcp.Server

/-!
What a call does to the ledger of a server.

`Wf` holds of every reachable server, whatever its table says. `act_cases` says that a
call accepts a connection, performs the first removal, or is quiet, and
`not_losesRunning` that no call destroys a running connection as long as the
ledger is consistent.
-/

namespace LpNet

open Transition

namespace TcpServer

/-! ### The ledger of a server -/

def ledger (s : TcpServer) : Ledger where
  conns := s.conns.map fun c => (c.channel.sockfd, c.running)
  table := s.connections
  pending := s.scheduler.removals
  removed := s.removed

/-- What holds of every reachable server. -/
structure Wf (s : TcpServer) : Prop where
  sound : s.scheduler.Sound s.conns.length
  callbacks : ∀ c ∈ s.conns, c.disconnectCb = true
  recorded : ∀ c ∈ s.conns, c.channel.sockfd ∈ s.accepted
  entries_lt : ∀ entry ∈ s.connections.entries, entry.2 < s.conns.length
  not_closed : s.closed = []

theorem start_wf (clock currTimerId : ℕ) : (start clock currTimerId).Wf where
  sound := Scheduler.new_sound 0 clock currTimerId
  callbacks := by simp [start]
  recorded := by simp [start]
  entries_lt := by simp [start]
  not_closed := rfl

theorem start_ledger (clock currTimerId : ℕ) : (start clock currTimerId).ledger = .empty := by
  have hremovals := (Scheduler.new_sound 0 clock currTimerId).removals_eq
  rw [SelectManager.new, TaskScheduler.new_queued] at hremovals
  rw [ledger, Ledger.empty]
  simp only [start, List.map_nil, Ledger.mk.injEq, true_and, and_true]
  exact hremovals

variable {s s' : TcpServer} {conn : ConnId}

theorem ledger_conns (s : TcpServer) (conn : ConnId) :
    s.ledger.conns[conn]? = (s.conns[conn]?).map fun c => (c.channel.sockfd, c.running) :=
  List.getElem?_map

theorem Wf.scheduler {scheduler : Scheduler} (h : s.Wf)
    (hsound : scheduler.Sound s.conns.length) :
    ({ s with scheduler := scheduler } : TcpServer).Wf :=
  ⟨hsound, h.callbacks, h.recorded, h.entries_lt, h.not_closed⟩

theorem quiet_of_removals {scheduler : Scheduler}
    (h : scheduler.removals = s.scheduler.removals ∨ scheduler.removals = []) :
    Ledger.Quiet s.ledger { s with scheduler := scheduler }.ledger := by
  rcases h with hsame | hnone
  · have heq : ({ s with scheduler := scheduler } : TcpServer).ledger = s.ledger := by
      rw [ledger, ledger, hsame]
    rw [heq]
  · have heq : ({ s with scheduler := scheduler } : TcpServer).ledger =
        { s.ledger with pending := [] } := by
      rw [ledger, ledger, hnone]
    rw [heq]
    exact .single (.overflow _)

theorem Wf.callback (hwf : s.Wf) {c : TcpConnection} (hc : s.conns[conn]? = some c) :
    c.disconnectCb = true :=
  hwf.callbacks c (List.mem_of_getElem? hc)

theorem Wf.setConn (hwf : s.Wf) {c c' : TcpConnection} {scheduler : Scheduler}
    (hc : s.conns[conn]? = some c)
    (htouches : TcpConnection.Touches s.conns.length conn (c, s.scheduler) (c', scheduler)) :
    Wf { s with conns := s.conns.set conn c', scheduler := scheduler } := by
  refine ⟨?_, ?_, ?_, ?_, hwf.not_closed⟩
  · rw [List.length_set]
    exact htouches.sound
  · intro d hd
    rcases List.mem_or_eq_of_mem_set hd with hold | rfl
    · exact hwf.callbacks d hold
    · exact htouches.disconnectCb_eq.trans (hwf.callback hc)
  · intro d hd
    rcases List.mem_or_eq_of_mem_set hd with hold | rfl
    · exact hwf.recorded d hold
    · rw [htouches.sockfd_eq]
      exact hwf.recorded c (List.mem_of_getElem? hc)
  · intro entry hentry
    rw [List.length_set]
    exact hwf.entries_lt entry hentry

/-- It stays as it was, or closes and posts its removal. -/
theorem quiet_setConn {c c' : TcpConnection} {scheduler : Scheduler}
    (hc : s.conns[conn]? = some c)
    (htouches : TcpConnection.Touches s.conns.length conn (c, s.scheduler) (c', scheduler)) :
    Ledger.Quiet s.ledger
      ({ s with conns := s.conns.set conn c', scheduler := scheduler } : TcpServer).ledger := by
  have hfd : c'.channel.sockfd = c.channel.sockfd := htouches.sockfd_eq
  have hledger : s.ledger.conns[conn]? = some (c.channel.sockfd, c.running) := by
    rw [ledger_conns, hc]
    rfl
  have hconns : ({ s with conns := s.conns.set conn c', scheduler := scheduler } :
      TcpServer).ledger =
        { s.ledger with conns := s.ledger.conns.set conn (c.channel.sockfd, c'.running),
                        pending := scheduler.removals } := by
    simp only [ledger, List.map_set, hfd]
  rw [hconns]
  rcases htouches.effect with ⟨hrun, hsame⟩ | ⟨hopen, hshut, hposted⟩
  · have hset : s.ledger.conns.set conn (c.channel.sockfd, c'.running) = s.ledger.conns := by
      obtain ⟨hlt, hget⟩ := List.getElem?_eq_some_iff.mp hledger
      rw [hrun, ← hget, List.set_getElem_self]
    rw [hset, hsame]
    exact .refl
  · rw [hopen] at hledger
    have hclose := Ledger.Change.close hledger
    rw [hshut]
    rcases hposted with happend | hnone
    · rw [happend]
      exact .single hclose
    · rw [hnone]
      exact .tail (.single hclose) (.overflow _)

theorem withConn_quiet (hwf : s.Wf)
    {f : TcpConnection → Scheduler → Except Fault (TcpConnection × Scheduler)}
    (h : s.withConn conn f = .ok s')
    (hf : ∀ c after, c.disconnectCb = true → f c s.scheduler = .ok after →
      TcpConnection.Touches s.conns.length conn (c, s.scheduler) after) :
    s'.Wf ∧ Ledger.Quiet s.ledger s'.ledger := by
  rw [withConn] at h
  cases hc : s.conns[conn]? with
  | none =>
      rw [hc] at h
      cases h
  | some c =>
      rw [hc] at h
      dsimp only at h
      rw [bind_eq_ok] at h
      obtain ⟨⟨c', scheduler⟩, hrun, h⟩ := h
      injection h with h
      subst h
      have htouches := hf c (c', scheduler) (hwf.callback hc) hrun
      exact ⟨hwf.setConn hc htouches, quiet_setConn hc htouches⟩

/-- The removal that the next round of `handleTriggerEvent` performs, if it performs one. -/
def nextRemoval (s : TcpServer) : Option (Sockfd × ConnId) :=
  s.scheduler.queued.head?.bind removalOf

/-- A round of `handleTriggerEvent` runs a queued close, or performs the first removal. -/
theorem trigger_cases (hwf : s.Wf) (h : s.runPopped s.scheduler.popTrigger = .ok s') :
    s'.Wf ∧ (s.nextRemoval = none ∧ Ledger.Quiet s.ledger s'.ledger ∨
      s.nextRemoval ≠ none ∧ s.ledger.pending.head? = s.nextRemoval ∧
        s'.ledger = s.ledger.remove) := by
  have hready := hwf.sound.ready
  cases hqueued : s.scheduler.queued with
  | nil =>
      have hpop := TaskScheduler.popTrigger_of_nil hready hqueued
      rw [SelectManager.popTrigger, hpop, runPopped] at h
      injection h with h
      subst h
      exact ⟨hwf, .inl ⟨by rw [nextRemoval, hqueued]; rfl, .refl⟩⟩
  | cons cb rest =>
      obtain ⟨ts, hpop, hrest, hready'⟩ := TaskScheduler.popTrigger_of_cons hready hqueued
      obtain ⟨ev, rfl, hclose⟩ := hwf.sound.queued cb (by rw [hqueued]; simp)
      obtain ⟨sched', hsched'⟩ : ∃ sched' : Scheduler,
          sched' = { s.scheduler with toTaskScheduler := ts } := ⟨_, rfl⟩
      have hpop' : s.scheduler.popTrigger = (some (some ev), sched') := by
        rw [SelectManager.popTrigger, hpop, hsched']
      have hqueued' : sched'.queued = rest := by rw [hsched', ← hrest]
      have hsound : Scheduler.Sound s.conns.length sched' := by
        refine ⟨by rw [hsched']; exact hready', fun cb hcb => hwf.sound.queued cb ?_⟩
        rw [hqueued]
        exact List.mem_cons_of_mem _ (hqueued' ▸ hcb)
      -- the popped event takes its removal along, if it is one
      have hremovals : s.scheduler.removals =
          (removalOf (some ev)).toList ++ sched'.removals := by
        rw [hwf.sound.removals_eq, hsound.removals_eq, hqueued, hqueued', List.filterMap_cons]
        cases removalOf (some ev) <;> rfl
      have hnext : s.nextRemoval = removalOf (some ev) := by
        rw [nextRemoval, hqueued]
        rfl
      have hwf' := hwf.scheduler hsound
      rw [hpop', runPopped] at h
      cases ev with
      | close conn =>
          have hclosed : ({ s with scheduler := sched' } : TcpServer).withConn conn
              (fun c scheduler => .ok (c.close conn scheduler)) = .ok s' := h
          obtain ⟨hwf'', hquiet⟩ := withConn_quiet hwf' hclosed fun c after hcb hrun => by
            injection hrun with hrun
            rw [← hrun]
            exact TcpConnection.close_touches hsound hcb
          exact ⟨hwf'', .inl ⟨hnext,
            (quiet_of_removals (.inl hremovals.symm)).trans hquiet⟩⟩
      | removeConnection fd poster =>
          have hpending : s.ledger.pending = (fd, poster) :: sched'.removals := hremovals
          injection h with h
          subst h
          refine ⟨⟨hsound, hwf.callbacks, hwf.recorded, fun entry hentry => ?_, hwf.not_closed⟩,
            .inr ⟨by rw [hnext]; simp [removalOf], ?_, ?_⟩⟩
          · exact hwf.entries_lt entry ((List.kerase_sublist _ _).subset hentry)
          · rw [hpending, hnext]
            rfl
          · rw [Ledger.remove, hpending]
            rfl

/-! ### Accepts -/

def handed : ServerAction → Option Sockfd
  | .accept outcome =>
      if acceptor.onAccept outcome [] 0 = [.newConnection outcome.clientfd] then
        some outcome.clientfd
      else none
  | _ => none

theorem handed_eq_some {a : ServerAction} {fd : Sockfd} (h : handed a = some fd) :
    ∃ outcome, a = .accept outcome ∧ fd = outcome.clientfd ∧ fd ≠ kInvalidSocket ∧
      acceptor.onAccept outcome [] 0 = [.newConnection fd] := by
  cases a with
  | accept outcome =>
      rw [handed] at h
      split at h
      case isFalse => cases h
      case isTrue heffect =>
        injection h with h
        subst h
        refine ⟨outcome, rfl, rfl, fun hinvalid => ?_, heffect⟩
        rw [Acceptor.onAccept, Socket.accept, SocketApi.accept, hinvalid] at heffect
        cases heffect
  | _ => cases h

theorem nonneg_of_handed {a : ServerAction} {fd : Sockfd} (henabled : s.Enabled a)
    (h : handed a = some fd) : 0 ≤ fd := by
  obtain ⟨outcome, rfl, rfl, hvalid, -⟩ := handed_eq_some h
  exact Int.add_one_le_of_lt (lt_of_le_of_ne henabled.2 (Ne.symm hvalid))

theorem onAccept_of_handed_none {outcome : AcceptOutcome}
    (h : handed (.accept outcome) = none) : acceptor.onAccept outcome [] 0 = [] := by
  rw [handed] at h
  split at h
  case isTrue => cases h
  case isFalse hne =>
    rcases lt_or_ge outcome.clientfd 0 with hneg | hfd
    · rw [Acceptor.onAccept, Socket.accept, SocketApi.accept, if_pos hneg] at hne ⊢
      by_cases hinvalid : outcome.clientfd = kInvalidSocket
      · rw [hinvalid]
        rfl
      · simp [acceptor, hinvalid] at hne
    · cases htext : outcome.peer.inetNtop SocketApi.sizeofCharPtr with
      | none => exact Acceptor.onAccept_of_none acceptor [] 0 hfd htext
      | some text =>
          rw [Acceptor.onAccept_of_some acceptor [] 0 hfd htext] at hne
          exact absurd rfl hne

theorem newConnection_wf (junk : ℕ → Byte) (running : Bool) {fd : Sockfd} (hwf : s.Wf)
    (hfd : fd ∈ s.accepted) :
    (s.newConnection junk running fd).Wf ∧
      (s.newConnection junk running fd).ledger = s.ledger.accept fd running := by
  obtain ⟨conn, hconn⟩ : ∃ conn : TcpConnection,
      conn = { TcpConnection.new junk running fd with disconnectCb := true } := ⟨_, rfl⟩
  -- the disconnect callback is set on the last connection
  have hconns : (s.newConnection junk running fd).conns = s.conns ++ [conn] := by
    have hmodify := List.modifyTailIdx_add
      (List.modifyHead fun c : TcpConnection => { c with disconnectCb := true }) 0 s.conns
      [TcpConnection.new junk running fd]
    rw [hconn]
    exact hmodify
  have hsched : (s.newConnection junk running fd).scheduler = s.scheduler.updateChannel
      s.conns.length (TcpConnection.new junk running fd).channel := rfl
  obtain ⟨hsound, hremovals⟩ := (hwf.sound.mono (Nat.le_succ _)).of_eq
    (SelectManager.updateChannel_toTaskScheduler s.scheduler s.conns.length
      (TcpConnection.new junk running fd).channel)
  refine ⟨⟨?_, ?_, ?_, ?_, hwf.not_closed⟩, ?_⟩
  · rw [hsched, hconns, List.length_append]
    exact hsound
  · intro c hc
    rw [hconns] at hc
    rcases List.mem_append.mp hc with hold | hnew
    · exact hwf.callbacks c hold
    · rw [List.mem_singleton.mp hnew, hconn]
  · intro c hc
    rw [hconns] at hc
    rcases List.mem_append.mp hc with hold | hnew
    · exact hwf.recorded c hold
    · rw [List.mem_singleton.mp hnew, hconn]
      exact hfd
  · intro entry hentry
    have hentry' : entry ∈ (s.connections.emplace fd s.conns.length).entries := hentry
    rw [hconns, List.length_append, List.length_singleton]
    rw [FdMap.emplace] at hentry'
    split at hentry'
    · exact Nat.lt_succ_of_lt (hwf.entries_lt entry hentry')
    · rw [AList.entries_insert] at hentry'
      rcases List.mem_cons.mp hentry' with rfl | hold
      · exact Nat.lt_succ_self _
      · exact Nat.lt_succ_of_lt
          (hwf.entries_lt entry ((List.kerase_sublist _ _).subset hold))
  · rw [ledger, hconns, hsched, hremovals, List.map_append, hconn, Ledger.accept]
    simp only [ledger, List.length_map]
    rfl

/-! ### Every call -/

theorem disconnectAll_sound {n : ℕ} {sched : Scheduler} (conns : List ConnId)
    (h : sched.Sound n) (hconns : ∀ conn ∈ conns, conn < n) :
    (disconnectAll sched conns).Sound n ∧
      ((disconnectAll sched conns).removals = sched.removals ∨
        (disconnectAll sched conns).removals = []) := by
  induction conns generalizing sched with
  | nil => exact ⟨h, .inl rfl⟩
  | cons conn conns ih =>
      obtain ⟨hsound, hremovals⟩ := h.disconnect (hconns conn (by simp))
      obtain ⟨hsound', hsame | hnone⟩ := ih hsound fun c hc => hconns c (by simp [hc])
      · exact ⟨hsound', hremovals.imp hsame.trans hsame.trans⟩
      · exact ⟨hsound', .inr hnone⟩

def performed (s : TcpServer) : ServerAction → Option (Sockfd × ConnId)
  | .trigger => s.nextRemoval
  | _ => none

inductive LedgerStep (running : Bool) (s : TcpServer) (a : ServerAction) (l' : Ledger) : Prop
  | quiet (hhanded : handed a = none) (hperformed : s.performed a = none)
      (h : Ledger.Quiet s.ledger l')
  | accept (fd : Sockfd) (hhanded : handed a = some fd) (h : l' = s.ledger.accept fd running)
  | remove (r : Sockfd × ConnId) (hperformed : s.performed a = some r)
      (hfirst : s.ledger.pending.head? = some r) (h : l' = s.ledger.remove)

variable {junk : ℕ → Byte} {running : Bool} {a : ServerAction}

theorem accept_cases {outcome : AcceptOutcome} (hwf : s.Wf)
    (henabled : s.Enabled (.accept outcome))
    (h : s.act junk running (.accept outcome) = .ok s') :
    s'.Wf ∧ LedgerStep running s (.accept outcome) s'.ledger := by
  rw [act] at h
  injection h with h
  cases hhanded : handed (.accept outcome) with
  | none =>
      rw [onAccept_of_handed_none hhanded] at h
      subst h
      split
      case isTrue =>
        have hwf' : ({ s with accepted := s.accepted ++ [outcome.clientfd] } : TcpServer).Wf :=
          ⟨hwf.sound, hwf.callbacks, fun c hc => List.mem_append_left _ (hwf.recorded c hc),
            hwf.entries_lt, hwf.not_closed⟩
        exact ⟨hwf', .quiet hhanded rfl .refl⟩
      case isFalse => exact ⟨hwf, .quiet hhanded rfl .refl⟩
  | some fd =>
      have hnonneg := nonneg_of_handed henabled hhanded
      obtain ⟨_, ⟨⟩, hfd, -, heffect⟩ := handed_eq_some hhanded
      rw [hfd] at hnonneg
      rw [heffect, if_pos hnonneg] at h
      have hwf' : ({ s with accepted := s.accepted ++ [outcome.clientfd] } : TcpServer).Wf :=
        ⟨hwf.sound, hwf.callbacks, fun c hc => List.mem_append_left _ (hwf.recorded c hc),
          hwf.entries_lt, hwf.not_closed⟩
      have hmem : fd ∈ s.accepted ++ [outcome.clientfd] := by simp [hfd]
      obtain ⟨hwf'', hledger⟩ := newConnection_wf junk running hwf' hmem
      subst h
      exact ⟨hwf'', .accept fd hhanded hledger⟩

/-- The new-connection callback owns its connection. -/
theorem accepting_of_handed (s : TcpServer) (junk : ℕ → Byte) (running : Bool) {fd : Sockfd}
    (h : handed a = some fd) :
    ∃ s', s.act junk running a = .ok s' ∧ s'.accepting = some s.conns.length := by
  obtain ⟨outcome, rfl, -, -, heffect⟩ := handed_eq_some h
  refine ⟨_, rfl, ?_⟩
  rw [heffect]
  split <;> rfl

theorem act_of_performed (junk : ℕ → Byte) (running : Bool) {r : Sockfd × ConnId} (hwf : s.Wf)
    (h : s.performed a = some r) :
    ∃ s', s.act junk running a = .ok s' := by
  cases a with
  | trigger =>
      obtain ⟨cb, hhead, hremoval⟩ := Option.bind_eq_some_iff.mp h
      obtain ⟨rest, hqueued⟩ := List.head?_eq_some_iff.mp hhead
      obtain ⟨ts, hpop, -, -⟩ := TaskScheduler.popTrigger_of_cons hwf.sound.ready hqueued
      rw [act, runPopped, SelectManager.popTrigger, hpop]
      match cb, hremoval with
      | some (.removeConnection fd poster), _ => exact ⟨_, rfl⟩
  | _ => cases h

/-- A call accepts a connection, performs the first removal, or is quiet. -/
theorem act_cases (hwf : s.Wf) (henabled : s.Enabled a) (h : s.act junk running a = .ok s') :
    s'.Wf ∧ LedgerStep running s a s'.ledger := by
  cases a with
  | accept outcome => exact accept_cases hwf henabled h
  | acceptReturns =>
      injection h with h
      subst h
      exact ⟨⟨hwf.sound, hwf.callbacks, hwf.recorded, hwf.entries_lt, hwf.not_closed⟩,
        .quiet rfl rfl .refl⟩
  | event conn events io =>
      obtain ⟨hwf', hquiet⟩ := withConn_quiet hwf h fun c after hcb hrun =>
        TcpConnection.runCallbacks_touches junk hwf.sound hcb hrun
      exact ⟨hwf', .quiet rfl rfl hquiet⟩
  | send conn data len outcome =>
      have hsend : s.withConn conn
          (fun c scheduler => c.send junk conn scheduler data len outcome) = .ok s' := h
      obtain ⟨hwf', hquiet⟩ := withConn_quiet hwf hsend fun c after hcb hrun =>
        TcpConnection.send_touches junk hwf.sound hcb hrun
      exact ⟨hwf', .quiet rfl rfl hquiet⟩
  | disconnect conn =>
      obtain ⟨hsound, hremovals⟩ := hwf.sound.disconnect henabled.1
      injection h with h
      subst h
      exact ⟨hwf.scheduler hsound, .quiet rfl rfl (quiet_of_removals hremovals)⟩
  | trigger =>
      obtain ⟨hwf', ⟨hnext, hquiet⟩ | ⟨hnext, hfirst, hledger⟩⟩ := trigger_cases hwf h
      · exact ⟨hwf', .quiet rfl hnext hquiet⟩
      · obtain ⟨r, hr⟩ := Option.ne_none_iff_exists'.mp hnext
        exact ⟨hwf', .remove r hr (hfirst.trans hr) hledger⟩
  | timer =>
      rw [act, SelectManager.popTimer, TaskScheduler.popTimer_of_ready hwf.sound.ready] at h
      injection h with h
      subst h
      exact ⟨hwf, .quiet rfl rfl .refl⟩
  | tick now =>
      injection h with h
      subst h
      have hsound : Scheduler.Sound s.conns.length { s.scheduler with clock := now } :=
        ⟨⟨hwf.sound.ready.ring, hwf.sound.ready.capacity_eq, hwf.sound.ready.timers_eq⟩,
          hwf.sound.queued⟩
      exact ⟨hwf.scheduler hsound, .quiet rfl rfl (quiet_of_removals (.inl rfl))⟩
  | stop =>
      have hconns : ∀ conn ∈ s.connections.entries.map fun entry => entry.2,
          conn < s.conns.length := by
        intro conn hconn
        obtain ⟨entry, hentry, rfl⟩ := List.mem_map.mp hconn
        exact hwf.entries_lt entry hentry
      obtain ⟨hsound, hremovals⟩ := disconnectAll_sound _ hwf.sound hconns
      injection h with h
      subst h
      exact ⟨hwf.scheduler hsound, .quiet rfl rfl (quiet_of_removals hremovals)⟩

theorem LedgerStep.of_handed {fd : Sockfd} {l' : Ledger} (h : LedgerStep running s a l')
    (hhanded : handed a = some fd) : l' = s.ledger.accept fd running := by
  cases h with
  | quiet hnone => rw [hhanded] at hnone; cases hnone
  | accept fd' hhanded' hledger =>
      rw [hhanded] at hhanded'
      injection hhanded' with hfd
      rw [hfd]
      exact hledger
  | remove r hperformed =>
      obtain ⟨outcome, rfl, -⟩ := handed_eq_some hhanded
      cases hperformed

theorem LedgerStep.of_performed {r : Sockfd × ConnId} {l' : Ledger}
    (h : LedgerStep running s a l') (hperformed : s.performed a = some r) :
    s.ledger.pending.head? = some r ∧ l' = s.ledger.remove := by
  cases h with
  | quiet _ hnone => rw [hperformed] at hnone; cases hnone
  | accept fd hhanded =>
      obtain ⟨outcome, rfl, -⟩ := handed_eq_some hhanded
      cases hperformed
  | remove r' hperformed' hfirst hledger =>
      rw [hperformed] at hperformed'
      injection hperformed' with hr
      rw [hr]
      exact ⟨hfirst, hledger⟩

theorem step_eq_ok {r : Unit × TcpServer} :
    s.step junk running a = .ok r ↔ s.act junk running a = .ok r.2 ∧ ¬ r.2.LosesRunning := by
  rw [step, bind_eq_ok]
  constructor
  · rintro ⟨t, hact, hstep⟩
    split at hstep
    · cases hstep
    · injection hstep with hstep
      rw [← hstep]
      exact ⟨hact, ‹_›⟩
  · rintro ⟨hact, hkeeps⟩
    exact ⟨r.2, hact, if_neg hkeeps⟩

theorem alive_of_stored {fd : Sockfd} (h : s.connections.lookup fd = some conn) :
    s.Alive conn :=
  .inl ⟨⟨fd, conn⟩, AList.mem_lookup_iff.mp h, rfl⟩

theorem ledger_running {c : TcpConnection} (hc : s.conns[conn]? = some c)
    (hrun : c.running = true) : s.ledger.conns[conn]? = some (c.channel.sockfd, true) := by
  rw [ledger_conns, hc, Option.map_some, hrun]

theorem not_losesRunning_of_alive
    (h : ∀ conn fd, s.ledger.conns[conn]? = some (fd, true) → s.Alive conn) :
    ¬ s.LosesRunning := by
  rintro ⟨conn, -, hrunning, hdead⟩
  obtain ⟨c, hc, hrun⟩ := (Option.any_eq_true _ _).mp hrunning
  exact hdead (h conn c.channel.sockfd (ledger_running hc hrun))

/-- A consistent table keeps all running connections alive. -/
theorem not_losesRunning (h : s.ledger.Consistent) : ¬ s.LosesRunning :=
  not_losesRunning_of_alive fun conn fd hrun => alive_of_stored (h.stored conn fd hrun)

end TcpServer

end LpNet
