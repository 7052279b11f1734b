import LpNet.Net.Tcp.Calls

/-!
Does `stop()` ever find the table of connections empty?

Its loop disconnects every connection, which queues a `close` for each, and `close` queues the
removal of a connection that is running. But `running_` starts false and no member function
sets it, so `close` does nothing, no removal is ever queued, and the table stays as it
is. `shutdown_drains_iff` says that the loop at the end of `stop()` is left only when
no connection was ever accepted.
-/

namespace LpNet

open Transition

namespace TcpServer

/-- Every queued trigger event and every due timer has been executed. -/
def Drained (s : TcpServer) : Prop :=
  s.scheduler.queued = [] ∧
    ∀ entry ∈ s.scheduler.timers.data, entry.2.isExpired s.scheduler.clock = false

instance (s : TcpServer) : Decidable s.Drained := by
  unfold Drained
  infer_instance

/-- `stop()` runs its loop, and calls that accept nothing lead to a drained scheduler. -/
structure ShutsDown (junk : ℕ → Byte) (running : Bool) (s : TcpServer)
    (later : List ServerAction) (t : TcpServer) : Prop where
  enabled : Along (step junk running) (fun s a => s.Enabled a ∧ handed a = none) s
    (.stop :: later)
  runs : ∃ bs, run (step junk running) s (.stop :: later) = .ok (bs, t)
  drained : t.Drained

variable {s s' : TcpServer} {a : ServerAction} {junk : ℕ → Byte}

/-- A call of a dormant server accepts a connection or leaves the ledger as it is. -/
theorem dormant_cases (hwf : s.Wf) (h : s.ledger.Dormant) (henabled : s.Enabled a)
    (hact : s.act junk false a = .ok s') :
    s'.Wf ∧ s'.ledger.Dormant ∧ (handed a = none → s'.ledger = s.ledger) := by
  obtain ⟨hwf', hstep⟩ := act_cases hwf henabled hact
  refine ⟨hwf', ?_⟩
  cases hstep with
  | quiet _ _ hquiet =>
      have hsame := h.quiet hquiet
      exact ⟨hsame ▸ h, fun _ => hsame⟩
  | accept fd hhanded hledger =>
      rw [hledger]
      refine ⟨h.accept fd, fun hnone => ?_⟩
      rw [hhanded] at hnone
      cases hnone
  | remove r _ hfirst =>
      rw [h.pending_eq] at hfirst
      cases hfirst

theorem dormant_of_run {clock currTimerId : ℕ} {pre : List ServerAction} {bs : List Unit}
    (henabled : Along (step junk false) Enabled (start clock currTimerId) pre)
    (hrun : run (step junk false) (start clock currTimerId) pre = .ok (bs, s)) :
    s.Wf ∧ s.ledger.Dormant := by
  refine inv_of_run (I := fun s => s.Wf ∧ s.ledger.Dormant) (fun s a b s' hI hE hstep => ?_)
    ⟨start_wf clock currTimerId, ?_⟩ henabled hrun
  · obtain ⟨hwf', hdormant', -⟩ := dormant_cases hI.1 hI.2 hE (step_eq_ok.mp hstep).1
    exact ⟨hwf', hdormant'⟩
  · rw [start_ledger]
    exact Ledger.empty_dormant

theorem ledger_of_run {as : List ServerAction} {bs : List Unit} (hwf : s.Wf)
    (h : s.ledger.Dormant)
    (henabled : Along (step junk false) (fun s a => s.Enabled a ∧ handed a = none) s as)
    (hrun : run (step junk false) s as = .ok (bs, s')) : s'.ledger = s.ledger := by
  have hinv := inv_of_run (I := fun t => t.Wf ∧ t.ledger.Dormant ∧ t.ledger = s.ledger)
    (fun t a b t' hI hE hstep => ?_) ⟨hwf, h, rfl⟩ henabled hrun
  · exact hinv.2.2
  · obtain ⟨hwf', hdormant', hsame⟩ := dormant_cases hI.1 hI.2.1 hE.1 (step_eq_ok.mp hstep).1
    exact ⟨hwf', hdormant', (hsame hE.2).trans hI.2.2⟩

theorem not_losesRunning_of_dormant (h : s.ledger.Dormant) : ¬ s.LosesRunning :=
  not_losesRunning_of_alive fun conn fd hrun => absurd hrun (h.shut conn fd)

theorem step_of_dormant (hwf : s.Wf) (h : s.ledger.Dormant) (henabled : s.Enabled a)
    (hact : s.act junk false a = .ok s') :
    s'.Wf ∧ s'.ledger.Dormant ∧ step junk false s a = .ok ((), s') := by
  obtain ⟨hwf', hdormant', -⟩ := dormant_cases hwf h henabled hact
  exact ⟨hwf', hdormant', step_eq_ok.mpr ⟨hact, not_losesRunning_of_dormant hdormant'⟩⟩

/-- A round of `handleTriggerEvent` closes a connection that is not running, in vain. -/
theorem trigger_of_dormant (junk : ℕ → Byte) (hwf : s.Wf) (h : s.ledger.Dormant)
    {cb : TriggerEvent ServerEvent} {rest : List (TriggerEvent ServerEvent)}
    (hqueued : s.scheduler.queued = cb :: rest) :
    ∃ s', s.act junk false .trigger = .ok s' ∧ s'.scheduler.queued = rest ∧
      s'.accepting = s.accepting := by
  obtain ⟨ts, hpop, hrest, -⟩ := TaskScheduler.popTrigger_of_cons hwf.sound.ready hqueued
  obtain ⟨ev, rfl, hclose⟩ := hwf.sound.queued cb (by rw [hqueued]; simp)
  rw [act, runPopped, SelectManager.popTrigger, hpop]
  cases ev with
  | close conn =>
      have hlt := hclose conn rfl
      have hget : s.conns[conn]? = some s.conns[conn] := List.getElem?_eq_getElem hlt
      -- its `close` finds `running_` false
      have hshut : s.conns[conn].running = false := by
        by_contra hrun
        exact h.shut conn _ (ledger_running hget (by simpa using hrun))
      refine ⟨{ s with conns := s.conns.set conn s.conns[conn],
                       scheduler := { s.scheduler with toTaskScheduler := ts } },
        ?_, hrest, rfl⟩
      dsimp only
      rw [runCallback, withConn]
      dsimp only
      rw [hget]
      dsimp only
      rw [TcpConnection.close_of_not_running hshut]
      rfl
  | removeConnection fd poster =>
      -- nobody has posted one
      have hpending : (fd, poster) ∈ s.ledger.pending := by
        rw [ledger, hwf.sound.removals_eq, hqueued]
        exact List.mem_filterMap.mpr ⟨_, List.mem_cons_self, rfl⟩
      rw [h.pending_eq] at hpending
      cases hpending

/-- Calls that accept nothing can drain the scheduler. -/
def CanDrain (junk : ℕ → Byte) (s : TcpServer) : Prop :=
  ∃ later bs t, Along (step junk false) (fun s a => s.Enabled a ∧ handed a = none) s later ∧
    run (step junk false) s later = .ok (bs, t) ∧ t.Drained

theorem CanDrain.of_step (h : CanDrain junk s') (henabled : s.Enabled a)
    (hnone : handed a = none) (hstep : step junk false s a = .ok ((), s')) : CanDrain junk s := by
  obtain ⟨later, bs, t, hlater, hrun, hdrained⟩ := h
  refine ⟨a :: later, () :: bs, t, (along_cons_ok hstep).mpr ⟨⟨henabled, hnone⟩, hlater⟩, ?_,
    hdrained⟩
  rw [run_cons_ok _ hstep, hrun]
  rfl

/-- Rounds of `handleTriggerEvent` empty the trigger queue of a dormant server. -/
theorem canDrain_of_accepting_none (junk : ℕ → Byte) (hwf : s.Wf) (h : s.ledger.Dormant)
    (haccepting : s.accepting = none) : CanDrain junk s := by
  induction hqueued : s.scheduler.queued generalizing s with
  | nil =>
      refine ⟨[], [], s, along_nil _ _, rfl, hqueued, fun entry hentry => ?_⟩
      rw [hwf.sound.ready.timers_eq] at hentry
      cases hentry
  | cons cb rest ih =>
      obtain ⟨s', hact, hrest, haccepting'⟩ := trigger_of_dormant junk hwf h hqueued
      obtain ⟨hwf', hdormant', hstep⟩ := step_of_dormant (a := .trigger) hwf h haccepting hact
      have hrest' := ih hwf' hdormant' (haccepting'.trans haccepting) hrest
      exact hrest'.of_step (a := .trigger) haccepting rfl hstep

theorem canDrain_of_dormant (junk : ℕ → Byte) (hwf : s.Wf) (h : s.ledger.Dormant) :
    CanDrain junk s := by
  cases haccepting : s.accepting with
  | none => exact canDrain_of_accepting_none junk hwf h haccepting
  | some conn =>
      -- the new-connection callback returns first
      have henabled : s.Enabled .acceptReturns := by
        rw [Enabled, haccepting]
        simp
      have hact : s.act junk false .acceptReturns = .ok { s with accepting := none } := rfl
      obtain ⟨hwf', hdormant', hstep⟩ := step_of_dormant hwf h henabled hact
      exact (canDrain_of_accepting_none junk hwf' hdormant' rfl).of_step henabled rfl hstep

/-- The scheduler of a dormant server can be drained after the loop of `stop()`. -/
theorem exists_shutsDown (junk : ℕ → Byte) (hwf : s.Wf) (h : s.ledger.Dormant) :
    ∃ later t, ShutsDown junk false s later t := by
  obtain ⟨s', hact⟩ : ∃ s', s.act junk false .stop = .ok s' := ⟨_, rfl⟩
  obtain ⟨hwf', hdormant', hstep⟩ := step_of_dormant (a := .stop) hwf h trivial hact
  obtain ⟨later, bs, t, hlater, hrun, hdrained⟩ := canDrain_of_dormant junk hwf' hdormant'
  refine ⟨later, t, (along_cons_ok hstep).mpr ⟨⟨trivial, rfl⟩, hlater⟩, ⟨() :: bs, ?_⟩, hdrained⟩
  rw [run_cons_ok _ hstep, hrun]
  rfl

/-- After any run of a server whose connections start as they are constructed, `stop()` can
be followed by calls that drain the scheduler, and however it is drained, the table of
connections is empty exactly when no connection had been accepted. -/
theorem shutdown_drains_iff (junk : ℕ → Byte) (clock currTimerId : ℕ)
    {pre : List ServerAction} {bs : List Unit}
    (henabled : Along (step junk false) Enabled (start clock currTimerId) pre)
    (hrun : run (step junk false) (start clock currTimerId) pre = .ok (bs, s)) :
    (∃ later t, ShutsDown junk false s later t) ∧
      ∀ later t, ShutsDown junk false s later t → (t.connections = ∅ ↔ s.conns = []) := by
  obtain ⟨hwf, hdormant⟩ := dormant_of_run henabled hrun
  refine ⟨exists_shutsDown junk hwf hdormant, fun later t hshuts => ?_⟩
  obtain ⟨cs, hruns⟩ := hshuts.runs
  have htable : t.connections = s.connections :=
    congrArg Ledger.table (ledger_of_run hwf hdormant hshuts.enabled hruns)
  have hconns : s.ledger.conns = [] ↔ s.conns = [] := List.map_eq_nil_iff
  rw [htable, ← hconns]
  exact hdormant.table_empty_iff

def oneClient : List ServerAction :=
  [.accept ⟨7, ⟨1, 2, 3, 4⟩, 80⟩, .acceptReturns]

theorem shutdown_drains_iff_oneClient :
    ∃ bs s, run (step (fun _ => 0) false) (start 0 0) oneClient = .ok (bs, s) ∧
      (∃ later t, ShutsDown (fun _ => 0) false s later t) ∧
      ∀ later t, ShutsDown (fun _ => 0) false s later t → (t.connections = ∅ ↔ s.conns = []) := by
  have hok : (run (step (fun _ => 0) false) (start 0 0) oneClient).toOption.isSome := by
    decide +kernel
  obtain ⟨⟨bs, s⟩, hrun⟩ := Option.isSome_iff_exists.mp hok
  have hrun' := toOption_eq_some.mp hrun
  exact ⟨bs, s, hrun', shutdown_drains_iff (fun _ => 0) 0 0 (by decide +kernel) hrun'⟩

/-- `stop()` disconnects the client, its `close` runs, and it stays in the table. -/
theorem shutdown_strands_client :
    ∃ bs s t, run (step (fun _ => 0) false) (start 0 0) oneClient = .ok (bs, s) ∧
      ShutsDown (fun _ => 0) false s [.trigger] t ∧ t.connections ≠ ∅ := by
  have hkey : (run (step (fun _ => 0) false) (start 0 0) oneClient).toOption.any (fun r =>
      Along (step (fun _ => 0) false) (fun s a => s.Enabled a ∧ handed a = none) r.2
        [.stop, .trigger] ∧
      (run (step (fun _ => 0) false) r.2 [.stop, .trigger]).toOption.any fun r' =>
        r'.2.Drained ∧ r'.2.connections.entries ≠ []) = true := by
    decide +kernel
  obtain ⟨⟨bs, s⟩, hrun, hkey⟩ := (Option.any_eq_true _ _).mp hkey
  obtain ⟨henabled, hkey⟩ := of_decide_eq_true hkey
  obtain ⟨⟨cs, t⟩, hruns, hkey⟩ := (Option.any_eq_true _ _).mp hkey
  obtain ⟨hdrained, hentries⟩ := of_decide_eq_true hkey
  refine ⟨bs, s, t, toOption_eq_some.mp hrun,
    ⟨henabled, ⟨cs, toOption_eq_some.mp hruns⟩, hdrained⟩, fun hempty => ?_⟩
  rw [hempty] at hentries
  exact hentries rfl

end TcpServer

end LpNet
