import LpNet.Net.Tcp.Reuse

/-!
Who answers for the descriptors of a server.

While a connection is in the table its descriptor has an owner. When its removal is
performed the descriptor loses it: neither `close`, nor `removeConnection`, nor the
destructor of the connection or of its channel calls `socket_api::close`.
`accounted_iff_noRemoval` says that descriptors are accounted for exactly as long as no
removal is performed.
-/

namespace LpNet

open Transition

namespace TcpServer

/-- A connection in the table has the descriptor. -/
def Owned (s : TcpServer) (fd : Sockfd) : Prop :=
  ∃ entry ∈ s.connections.entries, ∃ c ∈ s.conns[entry.2]?, c.channel.sockfd = fd

/-- A removal of the descriptor is queued. -/
def AwaitsRemoval (s : TcpServer) (fd : Sockfd) : Prop :=
  ∃ r ∈ s.scheduler.removals, r.1 = fd

/-- Every descriptor given to `onConnect` has an owner, awaits its removal, or has been closed
exactly once, and that of a destroyed connection has been closed. -/
def Accounted (s : TcpServer) : Prop :=
  ∀ conn < s.conns.length, ∀ c ∈ s.conns[conn]?,
    (s.Owned c.channel.sockfd ∨ s.AwaitsRemoval c.channel.sockfd ∨
      s.closed.count c.channel.sockfd = 1) ∧
    (¬ s.Alive conn → c.channel.sockfd ∈ s.closed)

/-- The kernel hands out no descriptor, or one that is not open, since it has been closed as
often as it has been handed out. -/
def HandsOutUnused (s : TcpServer) : ServerAction → Prop
  | .accept outcome =>
      outcome.clientfd < 0 ∨
        s.accepted.count outcome.clientfd ≤ s.closed.count outcome.clientfd
  | _ => True

/-- No removal is performed. -/
def NoRemoval (s : TcpServer) (a : ServerAction) : Prop := s.performed a = none

instance (s : TcpServer) (fd : Sockfd) : Decidable (s.Owned fd) := by
  unfold Owned
  infer_instance

instance (s : TcpServer) (fd : Sockfd) : Decidable (s.AwaitsRemoval fd) := by
  unfold AwaitsRemoval
  infer_instance

instance (s : TcpServer) : Decidable s.Accounted := by
  unfold Accounted
  infer_instance

instance (s : TcpServer) (a : ServerAction) : Decidable (s.HandsOutUnused a) :=
  match a with
  | .accept _ => inferInstanceAs (Decidable (_ ∨ _))
  | .acceptReturns | .event .. | .send .. | .disconnect _ | .trigger | .timer | .tick _ | .stop =>
      .isTrue trivial

instance (s : TcpServer) (a : ServerAction) : Decidable (s.NoRemoval a) :=
  inferInstanceAs (Decidable (s.performed a = none))

/-- Every connection is in the table, and the table says the truth. -/
structure Keeping (s : TcpServer) : Prop where
  wf : s.Wf
  consistent : s.ledger.Consistent
  allStored : s.ledger.AllStored

variable {s s' : TcpServer} {a : ServerAction} {junk : ℕ → Byte}

theorem start_keeping (clock currTimerId : ℕ) : (start clock currTimerId).Keeping := by
  refine ⟨start_wf clock currTimerId, ?_, ?_⟩
  · rw [start_ledger]
    exact Ledger.empty_consistent
  · rw [start_ledger]
    intro c fd opened hc
    cases hc

theorem Keeping.accounted (h : s.Keeping) : s.Accounted := by
  intro conn _ c hc
  have hc' : s.conns[conn]? = some c := hc
  have hstored : s.connections.lookup c.channel.sockfd = some conn := by
    refine h.allStored conn c.channel.sockfd c.running ?_
    rw [ledger_conns, hc', Option.map_some]
  refine ⟨.inl ⟨⟨c.channel.sockfd, conn⟩, AList.mem_lookup_iff.mp hstored, c, hc, rfl⟩, ?_⟩
  exact fun hdead => absurd (alive_of_stored hstored) hdead

/-- The keys of the table are open, so the kernel hands out none of them. -/
theorem Keeping.freshKey (h : s.Keeping) (henabled : s.Enabled a)
    (hunused : s.HandsOutUnused a) : s.FreshKey a := by
  intro fd hhanded
  have hnonneg := nonneg_of_handed henabled hhanded
  obtain ⟨outcome, rfl, rfl, -, -⟩ := handed_eq_some hhanded
  by_contra hused
  obtain ⟨conn, hconn⟩ := Option.ne_none_iff_exists'.mp hused
  obtain ⟨opened, hold⟩ := h.consistent.entries _ conn hconn
  rw [ledger_conns] at hold
  obtain ⟨c, hc, hpair⟩ := Option.map_eq_some_iff.mp hold
  have hrecorded := List.count_pos_iff.mpr (h.wf.recorded c (List.mem_of_getElem? hc))
  rw [(Prod.mk.inj hpair).1] at hrecorded
  rcases hunused with hneg | hcount
  · exact absurd hneg (not_lt.mpr hnonneg)
  · rw [h.wf.not_closed, List.count_nil] at hcount
    omega

/-- Without a removal every connection stays in the table. -/
theorem Keeping.act (h : s.Keeping) (henabled : s.Enabled a) (hunused : s.HandsOutUnused a)
    (hnone : s.NoRemoval a) {running : Bool} (hact : s.act junk running a = .ok s') :
    s'.Keeping := by
  have hfresh := h.freshKey henabled hunused
  obtain ⟨hwf', hconsistent'⟩ := consistent_of_freshKey h.wf h.consistent henabled hfresh hact
  refine ⟨hwf', hconsistent', ?_⟩
  obtain ⟨-, hstep⟩ := act_cases h.wf henabled hact
  cases hstep with
  | quiet _ _ hquiet => exact h.allStored.quiet hquiet
  | accept fd hhanded hledger =>
      rw [hledger]
      exact h.allStored.accept (hfresh fd hhanded) running
  | remove r hperformed =>
      rw [NoRemoval, hperformed] at hnone
      cases hnone

/-- A connection whose descriptor is no key of a consistent table has lost it. -/
theorem not_accounted_of_no_key (hwf : s.Wf) (h : s.ledger.Consistent) {conn : ConnId}
    {fd : Sockfd} {opened : Bool} (hconn : s.ledger.conns[conn]? = some (fd, opened))
    (hkey : s.connections.lookup fd = none) : ¬ s.Accounted := by
  intro haccounted
  rw [ledger_conns] at hconn
  obtain ⟨c, hc, hpair⟩ := Option.map_eq_some_iff.mp hconn
  obtain ⟨rfl, -⟩ := Prod.mk.inj hpair
  obtain ⟨hlt, -⟩ := List.getElem?_eq_some_iff.mp hc
  rcases (haccounted conn hlt c hc).1 with hown | hawaits | hcount
  · obtain ⟨⟨key, stored⟩, hentry, d, hd, hfd⟩ := hown
    have hlookup : s.connections.lookup key = some stored := AList.mem_lookup_iff.mpr hentry
    obtain ⟨opened', hstored⟩ := h.entries key stored hlookup
    have hd' : s.conns[stored]? = some d := hd
    rw [ledger_conns, hd', Option.map_some] at hstored
    injection hstored with hstored
    rw [← (Prod.mk.inj hstored).1, hfd, hkey] at hlookup
    cases hlookup
  · obtain ⟨⟨fd', poster⟩, hr, hfd⟩ := hawaits
    have hwaiting := (h.waiting fd' poster hr).1
    rw [show fd' = c.channel.sockfd from hfd] at hwaiting
    rw [show s.ledger.table = s.connections from rfl, hkey] at hwaiting
    cases hwaiting
  · rw [hwf.not_closed] at hcount
    cases hcount

/-- A removal that is performed leaves the descriptor of its connection with nobody. -/
theorem Keeping.not_accounted (h : s.Keeping) (junk : ℕ → Byte) (henabled : s.Enabled a)
    (hremoval : ¬ s.NoRemoval a) :
    ∃ s', s.step junk true a = .ok ((), s') ∧ ¬ s'.Accounted := by
  obtain ⟨⟨fd, poster⟩, hperformed⟩ := Option.ne_none_iff_exists'.mp hremoval
  obtain ⟨s', hact⟩ := act_of_performed junk true h.wf hperformed
  obtain ⟨hwf', hstep⟩ := act_cases h.wf henabled hact
  obtain ⟨hfirst, hledger⟩ := hstep.of_performed hperformed
  have hconsistent' : s'.ledger.Consistent := by
    rw [hledger]
    exact h.consistent.remove
  obtain ⟨-, hclosed⟩ := h.consistent.waiting fd poster (List.mem_of_head? hfirst)
  obtain ⟨hconns, hkey⟩ := Ledger.remove_of_head hfirst
  rw [← hconns, ← hledger] at hclosed
  rw [← hledger] at hkey
  exact ⟨s', step_eq_ok.mpr ⟨hact, not_losesRunning hconsistent'⟩,
    not_accounted_of_no_key hwf' hconsistent' hclosed hkey⟩

/-- In a run of a server whose connections start running, under a kernel that hands out
descriptors that are not open, every descriptor is accounted for in every state exactly when
no removal is performed. -/
theorem accounted_iff_noRemoval (junk : ℕ → Byte) (clock currTimerId : ℕ)
    {as : List ServerAction}
    (henabled : Along (step junk true) (fun s a => s.Enabled a ∧ s.HandsOutUnused a)
      (start clock currTimerId) as) :
    AlongStates (step junk true) Accounted (start clock currTimerId) as ↔
      Along (step junk true) NoRemoval (start clock currTimerId) as := by
  refine alongStates_iff_along (fun s a b s' hI hE hP hstep => ?_) (fun s a hI hE hP => ?_)
    (fun s hI => hI.accounted) (start_keeping clock currTimerId) henabled
  · exact hI.act hE.1 hE.2 hP (step_eq_ok.mp hstep).1
  · obtain ⟨s', hstep, hnot⟩ := hI.not_accounted junk hE.1 hP
    exact ⟨(), s', hstep, hnot⟩

/-- A connection hangs up and is removed. -/
def removal : List ServerAction :=
  [.accept (client 7), .acceptReturns, hangup 0, .trigger]

theorem accounted_iff_noRemoval_removal :
    AlongStates (step (fun _ => 0) true) Accounted (start 0 0) removal ↔
      Along (step (fun _ => 0) true) NoRemoval (start 0 0) removal :=
  accounted_iff_noRemoval (fun _ => 0) 0 0 (by decide +kernel)

/-- The connection has left the table, no removal is queued, and its descriptor is open. -/
theorem removal_leaks_descriptor :
    Along (step (fun _ => 0) true) (fun s a => s.Enabled a ∧ s.HandsOutUnused a)
      (start 0 0) removal ∧
    ¬ AlongStates (step (fun _ => 0) true) Accounted (start 0 0) removal := by
  decide +kernel

end TcpServer

end LpNet
