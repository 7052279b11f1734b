import LpNet.Net.Tcp.Calls

/-!
The table of connections when the kernel hands out a descriptor again.

The table is keyed by bare descriptors, and the entry of a closed connection stays
until its removal has been performed. An accept that is handed the descriptor
before that finds its place taken: `emplace` leaves the old entry, the new
connection is stored nowhere, and once the callback has returned nobody owns it.
`honest_iff_freshKeys` says that this is the only way for the table to go wrong.
-/

namespace LpNet

open Transition

namespace TcpServer

/-- Every open connection is the one stored under its descriptor, and a removal has erased no
connection but its poster's. -/
def Honest (s : TcpServer) : Prop :=
  (∀ conn < s.conns.length, ∀ c ∈ s.conns[conn]?, c.running = true →
    s.connections.lookup c.channel.sockfd = some conn) ∧
  ∀ r ∈ s.removed, r.1 = r.2

instance (s : TcpServer) : Decidable s.Honest := by
  unfold Honest
  infer_instance

/-- The descriptor that an accept hands over is not a key of the table. -/
def FreshKey (s : TcpServer) (a : ServerAction) : Prop :=
  ∀ fd, handed a = some fd → s.connections.lookup fd = none

instance (s : TcpServer) (a : ServerAction) : Decidable (s.FreshKey a) :=
  match h : handed a with
  | none => .isTrue (by rw [FreshKey, h]; simp)
  | some fd => decidable_of_iff (s.connections.lookup fd = none) (by rw [FreshKey, h]; simp)

variable {s s' : TcpServer} {a : ServerAction} {junk : ℕ → Byte}

theorem honest_of_consistent (h : s.ledger.Consistent) : s.Honest := by
  refine ⟨fun conn _ c hc hrun => ?_, fun r hr => h.own r.1 r.2 hr⟩
  exact h.stored conn c.channel.sockfd (ledger_running hc hrun)

theorem consistent_of_freshKey {running : Bool} (hwf : s.Wf) (h : s.ledger.Consistent)
    (henabled : s.Enabled a) (hfresh : s.FreshKey a) (hact : s.act junk running a = .ok s') :
    s'.Wf ∧ s'.ledger.Consistent := by
  obtain ⟨hwf', hstep⟩ := act_cases hwf henabled hact
  refine ⟨hwf', ?_⟩
  cases hstep with
  | quiet _ _ hquiet => exact h.quiet hquiet
  | accept fd hhanded hledger =>
      rw [hledger]
      exact h.accept (hfresh fd hhanded) running
  | remove _ _ _ hledger =>
      rw [hledger]
      exact h.remove

/-- An accept whose descriptor is a key of the table succeeds, and leaves its connection
open and out of the table. -/
theorem not_honest_of_used_key (hwf : s.Wf) (h : s.ledger.Consistent) (henabled : s.Enabled a)
    (hused : ¬ s.FreshKey a) : ∃ s', s.step junk true a = .ok ((), s') ∧ ¬ s'.Honest := by
  simp only [FreshKey, not_forall] at hused
  obtain ⟨fd, hhanded, hused⟩ := hused
  obtain ⟨s', hact, haccepting⟩ := accepting_of_handed s junk true hhanded
  have hledger := (act_cases hwf henabled hact).2.of_handed hhanded
  have htable : s'.connections = s.connections :=
    congrArg Ledger.table (hledger.trans (Ledger.accept_of_old hused true))
  have hlength : s.ledger.conns.length = s.conns.length := List.length_map _
  refine ⟨s', step_eq_ok.mpr ⟨hact, not_losesRunning_of_alive fun conn fd' hrun => ?_⟩, ?_⟩
  · -- the callback owns the new connection, and the table the others
    rw [hledger] at hrun
    rcases Ledger.accept_conns_cases hrun with hold | ⟨rfl, -⟩
    · have hstored : s'.connections.lookup fd' = some conn := by
        rw [htable]
        exact h.stored conn fd' hold
      exact alive_of_stored hstored
    · exact .inr (.inl (by rw [haccepting, hlength]))
  · -- the entry under its descriptor is an older connection
    rintro ⟨hhonest, -⟩
    have hnew : s'.ledger.conns[s.conns.length]? = some (fd, true) := by
      rw [hledger, ← hlength, Ledger.accept, List.getElem?_concat_length]
    rw [ledger_conns] at hnew
    obtain ⟨c, hc, hpair⟩ := Option.map_eq_some_iff.mp hnew
    obtain ⟨rfl, hrun⟩ := Prod.mk.inj hpair
    obtain ⟨hlt', -⟩ := List.getElem?_eq_some_iff.mp hc
    have hstored := hhonest s.conns.length hlt' c hc hrun
    rw [htable] at hstored
    obtain ⟨opened, hold⟩ := h.entries c.channel.sockfd s.conns.length hstored
    obtain ⟨hlt, -⟩ := List.getElem?_eq_some_iff.mp hold
    rw [hlength] at hlt
    exact lt_irrefl _ hlt

/-- In a run of a server whose connections start running, the table is honest in every state
exactly when every accept is handed a descriptor that is not a key of the table. -/
theorem honest_iff_freshKeys (junk : ℕ → Byte) (clock currTimerId : ℕ)
    {as : List ServerAction}
    (henabled : Along (step junk true) Enabled (start clock currTimerId) as) :
    AlongStates (step junk true) Honest (start clock currTimerId) as ↔
      Along (step junk true) FreshKey (start clock currTimerId) as := by
  refine alongStates_iff_along (I := fun s => s.Wf ∧ s.ledger.Consistent)
    (fun s a b s' hI hE hP hstep => ?_) (fun s a hI hE hP => ?_)
    (fun s hI => honest_of_consistent hI.2) ⟨start_wf clock currTimerId, ?_⟩ henabled
  · exact consistent_of_freshKey hI.1 hI.2 hE hP (step_eq_ok.mp hstep).1
  · obtain ⟨s', hstep, hnot⟩ := not_honest_of_used_key hI.1 hI.2 hE hP
    exact ⟨(), s', hstep, hnot⟩
  · rw [start_ledger]
    exact Ledger.empty_consistent

/-! ### A run in which a descriptor is handed out again -/

def client (fd : Sockfd) : AcceptOutcome := ⟨fd, ⟨1, 2, 3, 4⟩, 80⟩

def hangup (conn : ConnId) : ServerAction :=
  .event conn EVENT_HUP ⟨⟨none, none⟩, none⟩

/-- A connection hangs up, and its descriptor comes back before the removal is performed. -/
def reuse : List ServerAction :=
  [.accept (client 7), .acceptReturns, hangup 0, .accept (client 7)]

theorem honest_iff_freshKeys_reuse :
    AlongStates (step (fun _ => 0) true) Honest (start 0 0) reuse ↔
      Along (step (fun _ => 0) true) FreshKey (start 0 0) reuse :=
  honest_iff_freshKeys (fun _ => 0) 0 0 (by decide +kernel)

/-- The second connection is not the one stored under its descriptor, and is destroyed while it
runs when the callback returns. -/
theorem reuse_hides_connection :
    Along (step (fun _ => 0) true) Enabled (start 0 0) reuse ∧
      ¬ AlongStates (step (fun _ => 0) true) Honest (start 0 0) reuse ∧
      (run (step (fun _ => 0) true) (start 0 0) (reuse ++ [.acceptReturns])).map Prod.fst =
        .error .terminated := by
  decide +kernel

end TcpServer

end LpNet
