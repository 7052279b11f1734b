import LpNet.Net.Delay

/-!
A connector whose attempts fail gives up.

`connect` and the retry that it posts share `retry_times_`: a retry counts it down
whether it attempts or not, and only an attempt posts another. `Budget` bounds the
attempts and the retries that are pending by what is left of the counter; a call of
the user adds one to both bounds, a retry takes one off the second.
-/

namespace LpNet

open Transition

namespace RetryChain

open TaskScheduler

def IsUser : ChainOp → Bool
  | .connect _ => true
  | .event _ | .tick _ => false

def userCalls (ops : List ChainOp) : ℕ := ops.countP IsUser

/-- The kernel refuses the connection, if it is asked. -/
def Fails : ChainOp → Prop
  | .connect outcome | .event outcome => outcome ≠ .connected
  | .tick _ => True

def pending (c : Connector) : ℕ := c.taskScheduler.queued.length

def left (c : Connector) : ℕ := c.retryTimes.toNat

/-- The attempts made and those left stay below `tries`, the retries to be executed below
`work`. -/
structure Budget (tries work : ℕ) (w : RetryChain) : Prop where
  ready : w.taskScheduler.Ready
  only : ∀ cb ∈ w.taskScheduler.queued, cb = some ()
  tried : w.attempts.length + left w.toConnector ≤ tries
  todo : left w.toConnector + pending w.toConnector ≤ work
  /-- The counter is an `int`: below 0 it goes down with the queue. -/
  counter : 0 < w.retryTimes ∨ (pending w.toConnector : ℤ) - w.retryTimes < kMaxTriggetEvents
  low : 1 ≤ w.nextRetryInterval
  high : w.nextRetryInterval ≤ 30000

variable {c : Connector} {w w' : RetryChain} {tries work : ℕ}

/-! ### What one step does -/

theorem retry_refused (h : ¬ Attempts c) (outcome : ConnectOutcome) :
    c.retry outcome = (⟨[], []⟩, { doubled c with retryTimes := c.retryTimes - 1 }) := by
  have hcall : (doubled c).connect outcome = (false, ⟨[], []⟩, doubled c) := connect_refused h
  rw [retry_eq, hcall]
  rfl

theorem retry_failed (h : Attempts c) {code : ℤ} (neg : code < 0) :
    c.retry (.failed code neg) = (⟨attempt (doubled c), []⟩, { doubled c with
      taskScheduler :=
        (c.taskScheduler.addTriggerEventForce (some ()) (doubled c).nextRetryInterval).2,
      retryTimes := c.retryTimes - 1 }) := by
  have hcall : (doubled c).connect (.failed code neg) =
      (false, ⟨attempt (doubled c), []⟩, { doubled c with taskScheduler :=
        (c.taskScheduler.addTriggerEventForce (some ()) (doubled c).nextRetryInterval).2 }) :=
    connect_failed (c := doubled c) h neg
  rw [retry_eq, hcall]
  rfl

/-- The doubled interval is no shorter and stays below the limit. -/
theorem doubled_interval (hlow : 1 ≤ c.nextRetryInterval) (hhigh : c.nextRetryInterval ≤ 30000) :
    c.nextRetryInterval ≤ (doubled c).nextRetryInterval ∧
      (doubled c).nextRetryInterval ≤ 30000 := by
  dsimp only [doubled]
  split <;> omega

theorem queued_force_retry {s : TaskScheduler Retry} (h : s.Ready) (msTimeout : ℤ)
    (honly : ∀ cb ∈ s.queued, cb = some ()) :
    (s.addTriggerEventForce (some ()) msTimeout).2.queued.length ≤ s.queued.length + 1 ∧
      ∀ cb ∈ (s.addTriggerEventForce (some ()) msTimeout).2.queued, cb = some () := by
  rw [queued_force h]
  split
  case isTrue =>
    refine ⟨by simp, fun cb hcb => ?_⟩
    rcases List.mem_append.mp hcb with hcb | hcb
    · exact honly cb hcb
    · exact List.mem_singleton.mp hcb
  case isFalse => exact ⟨by simp, by simp⟩

theorem Budget.mono {tries' work' : ℕ} (h : Budget tries work w) (htries : tries ≤ tries')
    (hwork : work ≤ work') : Budget tries' work' w :=
  ⟨h.ready, h.only, h.tried.trans htries, h.todo.trans hwork, h.counter, h.low, h.high⟩

/-- A failed call of the user costs one attempt and one retry at most. -/
theorem Budget.connect (h : Budget tries work w) {outcome : ConnectOutcome}
    (hfail : outcome ≠ .connected) :
    ∃ w', chainStep w (.connect outcome) = .ok ((), w') ∧ Budget (tries + 1) (work + 1) w' ∧
      w.nextRetryInterval ≤ w'.nextRetryInterval := by
  refine ⟨_, chainStep_connect w outcome, ?_⟩
  by_cases hatt : Attempts w.toConnector
  case neg =>
    rw [connect_refused hatt, attempt, if_neg hatt, List.append_nil]
    exact ⟨h.mono (Nat.le_succ _) (Nat.le_succ _), le_refl _⟩
  case pos =>
    cases outcome with
    | connected => exact absurd rfl hfail
    | failed code neg =>
        obtain ⟨hlen, honly⟩ := queued_force_retry h.ready w.nextRetryInterval h.only
        rw [connect_failed hatt neg, attempt, if_pos hatt]
        refine ⟨⟨h.ready.force _ _, honly, ?_, ?_, ?_, h.low, h.high⟩, le_refl _⟩
        · rw [List.length_append, List.length_singleton, Nat.add_right_comm]
          exact Nat.succ_le_succ h.tried
        · have htodo := h.todo
          dsimp only [left, pending] at htodo ⊢
          omega
        · rw [Attempts, not_or, not_le] at hatt
          exact .inl hatt.2

/-- What a failed retry does: it is taken off the queue and counts down, and either it does not
attempt, or it attempts and posts the next. -/
structure Retried (w w' : RetryChain) : Prop where
  ready : w'.taskScheduler.Ready
  only : ∀ cb ∈ w'.taskScheduler.queued, cb = some ()
  retryTimes_eq : w'.retryTimes = w.retryTimes - 1
  interval_eq : w'.nextRetryInterval = (doubled w.toConnector).nextRetryInterval
  cost : w'.attempts.length = w.attempts.length ∧
      pending w'.toConnector + 1 = pending w.toConnector ∨
    0 < w.retryTimes ∧ w'.attempts.length = w.attempts.length + 1 ∧
      pending w'.toConnector ≤ pending w.toConnector

theorem event_retried (hready : w.taskScheduler.Ready)
    (honly : ∀ cb ∈ w.taskScheduler.queued, cb = some ()) {outcome : ConnectOutcome}
    (hfail : outcome ≠ .connected) (hpending : 0 < pending w.toConnector) :
    ∃ w', chainStep w (.event outcome) = .ok ((), w') ∧ Retried w w' := by
  obtain ⟨cb, rest, hqueue⟩ := List.exists_cons_of_ne_nil (List.ne_nil_of_length_pos hpending)
  have hcb : cb = some () := honly cb (by rw [hqueue]; exact List.mem_cons_self ..)
  subst hcb
  obtain ⟨s, hpop, hrest, hsready⟩ := popTrigger_of_cons hready hqueue
  have hlen : s.queued.length + 1 = pending w.toConnector := by
    rw [pending, hqueue, hrest, List.length_cons]
  have hsonly : ∀ cb ∈ s.queued, cb = some () := by
    intro cb hcb
    rw [hrest] at hcb
    exact honly cb (by rw [hqueue]; exact List.mem_cons_of_mem _ hcb)
  let c : Connector := { w.toConnector with taskScheduler := s }
  refine ⟨⟨(c.retry outcome).2, w.attempts ++ attempt (doubled c)⟩, ?_, ?_⟩
  · exact chainStep_event (by rw [triggerRound, hpop]) outcome
  · by_cases hatt : Attempts c
    case neg =>
      have hnone : attempt (doubled c) = [] := if_neg hatt
      rw [retry_refused hatt, hnone, List.append_nil]
      exact ⟨hsready, hsonly, rfl, rfl, .inl ⟨rfl, hlen⟩⟩
    case pos =>
      cases outcome with
      | connected => exact absurd rfl hfail
      | failed code neg =>
          obtain ⟨hforced, honly'⟩ :=
            queued_force_retry hsready (doubled c).nextRetryInterval hsonly
          have hone : attempt (doubled c) = [⟨s.clock, (doubled c).nextRetryInterval⟩] :=
            if_pos hatt
          rw [retry_failed hatt neg, hone]
          rw [Attempts, not_or, not_le] at hatt
          refine ⟨hsready.force _ _, honly', rfl, rfl, .inr ⟨hatt.2, by simp, ?_⟩⟩
          exact hforced.trans hlen.le

/-- A retry takes itself off the work there is, and costs an attempt only with one less left. -/
theorem Budget.retried (h : Budget tries work w) (hw : Retried w w') :
    Budget tries work w' ∧ w.nextRetryInterval ≤ w'.nextRetryInterval ∧
      left w'.toConnector + pending w'.toConnector <
        left w.toConnector + pending w.toConnector := by
  obtain ⟨hready, honly, htimes, hinterval, hcost⟩ := hw
  have hdoubled := doubled_interval h.low h.high
  have hroom : pending w'.toConnector < kMaxTriggetEvents := hready.queued_lt
  obtain ⟨-, -, htried, htodo, hcounter, hlow, -⟩ := h
  rw [left] at htried htodo
  rw [← hinterval] at hdoubled
  refine ⟨⟨hready, honly, ?_, ?_, ?_, by omega, hdoubled.2⟩, hdoubled.1, ?_⟩
  · rw [left]
    omega
  · rw [left]
    omega
  · omega
  · rw [left, left]
    omega

/-- With no retry in the queue a round does nothing. -/
theorem event_idle (hready : w.taskScheduler.Ready) (hzero : pending w.toConnector = 0)
    (outcome : ConnectOutcome) : chainStep w (.event outcome) = .ok ((), w) := by
  have hqueue : w.taskScheduler.queued = [] := List.length_eq_zero_iff.mp hzero
  rw [chainStep, triggerRound, popTrigger_of_nil hready hqueue, ok_bind]

theorem Budget.step (h : Budget tries work w) {op : ChainOp} (hfail : Fails op) :
    ∃ w', chainStep w op = .ok ((), w') ∧
      Budget (tries + userCalls [op]) (work + userCalls [op]) w' ∧
      w.nextRetryInterval ≤ w'.nextRetryInterval := by
  cases op with
  | connect outcome => exact h.connect hfail
  | event outcome =>
      by_cases hpending : 0 < pending w.toConnector
      case pos =>
        obtain ⟨w', hstep, hw⟩ := event_retried h.ready h.only hfail hpending
        obtain ⟨hbudget, hinterval, -⟩ := h.retried hw
        exact ⟨w', hstep, hbudget, hinterval⟩
      case neg => exact ⟨w, event_idle h.ready (by omega) outcome, h, le_refl _⟩
  | tick ms =>
      refine ⟨_, rfl, ⟨⟨h.ready.ring, h.ready.capacity_eq, h.ready.timers_eq⟩, h.only, h.tried,
        h.todo, h.counter, h.low, h.high⟩, le_refl _⟩

/-! ### Runs -/

/-- The interval stays below its limit, and the counter above the least `int`. -/
def InRange (w : RetryChain) : Prop :=
  w.nextRetryInterval ≤ 30000 ∧ -(kMaxTriggetEvents : ℤ) < w.retryTimes

/-- The step does not shorten the interval. -/
def Slows (w : RetryChain) (op : ChainOp) : Prop :=
  ∀ answer w', chainStep w op = .ok (answer, w') → w.nextRetryInterval ≤ w'.nextRetryInterval

theorem Budget.inRange (h : Budget tries work w) : w.InRange := by
  refine ⟨h.high, ?_⟩
  have hcounter := h.counter
  have hmax : (kMaxTriggetEvents : ℤ) = 50000 := rfl
  omega

theorem userCalls_cons (op : ChainOp) (ops : List ChainOp) :
    userCalls (op :: ops) = userCalls [op] + userCalls ops := by
  rw [userCalls, userCalls, userCalls, ← List.countP_append]
  rfl

theorem Budget.run (h : Budget tries work w) {ops : List ChainOp} (hfail : ∀ op ∈ ops, Fails op) :
    ∃ answers w', Transition.run chainStep w ops = .ok (answers, w') ∧
      Budget (tries + userCalls ops) (work + userCalls ops) w' ∧
      Along chainStep Slows w ops ∧ AlongStates chainStep InRange w ops := by
  induction ops generalizing w tries work with
  | nil => exact ⟨[], w, rfl, h, trivial, h.inRange⟩
  | cons op ops ih =>
      obtain ⟨w₁, hstep, h₁, hslows⟩ := h.step (hfail op (List.mem_cons_self ..))
      obtain ⟨answers, w', hrun, h', halong, hstates⟩ :=
        ih h₁ fun op' hop' => hfail op' (List.mem_cons_of_mem op hop')
      refine ⟨() :: answers, w', ?_, ?_, ?_, ?_⟩
      · rw [run_cons_ok ops hstep, hrun]
        rfl
      · rw [userCalls_cons, ← Nat.add_assoc, ← Nat.add_assoc]
        exact h'
      · rw [along_cons_ok hstep]
        refine ⟨fun answer w'' hw => ?_, halong⟩
        rw [hstep] at hw
        cases hw
        exact hslows
      · rw [alongStates_cons_ok hstep]
        exact ⟨h.inRange, hstates⟩

theorem Budget.drain (h : Budget tries work w) {outcomes : List ConnectOutcome}
    (hfail : ∀ outcome ∈ outcomes, outcome ≠ .connected)
    (hmany : pending w.toConnector = 0 ∨
      left w.toConnector + pending w.toConnector ≤ outcomes.length) :
    ∃ answers w', Transition.run chainStep w (outcomes.map .event) = .ok (answers, w') ∧
      w'.taskScheduler.queued = [] := by
  induction outcomes generalizing w with
  | nil =>
      rw [List.length_nil] at hmany
      have hzero : pending w.toConnector = 0 := by omega
      exact ⟨[], w, rfl, List.length_eq_zero_iff.mp hzero⟩
  | cons outcome outcomes ih =>
      have hfail' : ∀ o ∈ outcomes, o ≠ .connected := fun o ho =>
        hfail o (List.mem_cons_of_mem outcome ho)
      have hnext : ∃ w₁, chainStep w (.event outcome) = .ok ((), w₁) ∧ Budget tries work w₁ ∧
          (pending w₁.toConnector = 0 ∨
            left w₁.toConnector + pending w₁.toConnector ≤ outcomes.length) := by
        by_cases hpending : 0 < pending w.toConnector
        case pos =>
          obtain ⟨w₁, hstep, hw⟩ :=
            event_retried h.ready h.only (hfail outcome (List.mem_cons_self ..)) hpending
          obtain ⟨hbudget, -, hless⟩ := h.retried hw
          rw [List.length_cons] at hmany
          exact ⟨w₁, hstep, hbudget, .inr (by omega)⟩
        case neg =>
          exact ⟨w, event_idle h.ready (by omega) outcome, h, .inl (by omega)⟩
      obtain ⟨w₁, hstep, hbudget, hmany'⟩ := hnext
      obtain ⟨answers, w', hrun, hqueue⟩ := ih hbudget hfail' hmany'
      refine ⟨() :: answers, w', ?_, hqueue⟩
      rw [List.map_cons, run_cons_ok _ hstep, hrun]
      rfl

/-- With `r` retries left, and failing attempts only, a run with `m` calls of the user makes
`r + m` attempts at most; `r + m` retries more, and one for each that was pending at the start,
empty the queue; the interval never gets shorter, nor longer than 30000. -/
theorem retries_bounded (c : Connector) (r : ℕ) (hready : c.taskScheduler.Ready)
    (honly : ∀ cb ∈ c.taskScheduler.queued, cb = some ()) (hr : c.retryTimes = r)
    (hlow : 1 ≤ c.nextRetryInterval) (hhigh : c.nextRetryInterval ≤ 30000)
    (ops : List ChainOp) (hfail : ∀ op ∈ ops, Fails op) :
    ∃ answers w, Transition.run chainStep ⟨c, []⟩ ops = .ok (answers, w) ∧
      w.attempts.length ≤ r + userCalls ops ∧
      (∀ outcomes : List ConnectOutcome, (∀ outcome ∈ outcomes, outcome ≠ .connected) →
        r + userCalls ops + pending c ≤ outcomes.length →
        ∃ answers' w', Transition.run chainStep w (outcomes.map .event) = .ok (answers', w') ∧
          w'.taskScheduler.queued = []) ∧
      Along chainStep Slows ⟨c, []⟩ ops ∧ AlongStates chainStep InRange ⟨c, []⟩ ops := by
  have hlen : pending c < kMaxTriggetEvents := hready.queued_lt
  have hleft : left c = r := by rw [left, hr, Int.toNat_natCast]
  have hstart : Budget r (r + pending c) ⟨c, []⟩ := by
    refine ⟨hready, honly, ?_, ?_, .inr ?_, hlow, hhigh⟩
    · rw [hleft, List.length_nil, Nat.zero_add]
    · rw [hleft]
    · dsimp only
      omega
  obtain ⟨answers, w, hrun, hbudget, hslows, hrange⟩ := hstart.run hfail
  have htried := hbudget.tried
  have htodo := hbudget.todo
  refine ⟨answers, w, hrun, by omega, fun outcomes houtcomes hmany => ?_, hslows, hrange⟩
  exact hbudget.drain houtcomes (.inr (by omega))

theorem retries_bounded_once :
    ∃ answers w, Transition.run chainStep ⟨Connector.new (.new Retry 0 1) 7, []⟩
        [.connect (.failed (-1) (by decide)), .event (.failed (-1) (by decide))] =
          .ok (answers, w) ∧
      w.attempts.length ≤ 5 + userCalls
        [.connect (.failed (-1) (by decide)), .event (.failed (-1) (by decide))] ∧
      (∀ outcomes : List ConnectOutcome, (∀ outcome ∈ outcomes, outcome ≠ .connected) →
        5 + userCalls [.connect (.failed (-1) (by decide)), .event (.failed (-1) (by decide))] +
          pending (Connector.new (.new Retry 0 1) 7) ≤ outcomes.length →
        ∃ answers' w', Transition.run chainStep w (outcomes.map .event) = .ok (answers', w') ∧
          w'.taskScheduler.queued = []) ∧
      Along chainStep Slows ⟨Connector.new (.new Retry 0 1) 7, []⟩
        [.connect (.failed (-1) (by decide)), .event (.failed (-1) (by decide))] ∧
      AlongStates chainStep InRange ⟨Connector.new (.new Retry 0 1) 7, []⟩
        [.connect (.failed (-1) (by decide)), .event (.failed (-1) (by decide))] :=
  retries_bounded (Connector.new (.new Retry 0 1) 7) 5 (new_ready 0 1)
    (fun cb hcb => absurd hcb (by
      show cb ∉ TaskScheduler.queued (.new Retry 0 1)
      rw [new_queued]
      exact List.not_mem_nil))
    rfl (by decide) (by decide)
    [.connect (.failed (-1) (by decide)), .event (.failed (-1) (by decide))]
    (fun op hop => by
      rcases List.mem_cons.mp hop with rfl | hop
      · exact nofun
      · rw [List.mem_singleton.mp hop]
        exact nofun)

end RetryChain

end LpNet
