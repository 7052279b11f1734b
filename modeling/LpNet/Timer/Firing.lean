import LpNet.Timer.Timer

/-!
Which timers fire.

The body of `Timer::run` sleeps until the first task expires, pops it, and then calls
it, which tests once more whether it has expired. `pop` gives a cyclic task its next deadline
before that test, so that it is the next deadline that must have passed. `fires_iff` says
when a popped task is called and leaves the timer as it should.
-/

namespace LpNet

open Transition

/-- A clock that does not go back, on which a sleep takes at least as long as it is to. -/
structure Clock where
  /-- What it says next after it said `now`. -/
  next : ℕ → ℕ
  /-- What it says after a sleep that began when it said `now`. -/
  sleep : ℕ → ℕ → ℕ
  le_next : ∀ now, now ≤ next now
  le_sleep : ∀ now ms, now + ms ≤ sleep now ms

namespace Clock

def infinity : ℕ := 2 ^ 64 - 1

end Clock

namespace Timer

variable {Cb : Type}

def nextTimestamp (s : Timer Cb) (now : ℕ) : ℕ :=
  let expiredTime := s.tasks.top.expiredTime
  if expiredTime = 0 then Clock.infinity
  else if expiredTime ≥ now then expiredTime - now
  else 0

/-- What the clock says when `run()` pops, which began when it said `now`. -/
def popTime (s : Timer Cb) (clock : Clock) (now : ℕ) : ℕ :=
  let timestamp := s.nextTimestamp now
  let timestamp := if timestamp = Clock.infinity then 100 else timestamp
  if timestamp ≠ 0 then clock.sleep now timestamp else clock.next now

/-- What the clock says when the popped task is tested. -/
def testTime (s : Timer Cb) (clock : Clock) (now : ℕ) : ℕ := clock.next (s.popTime clock now)

/-- The body of `run()`: the callback it calls, if any. -/
def run (s : Timer Cb) (clock : Clock) (now : ℕ) : Except Fault (Option Cb × Timer Cb) :=
  if s.running then do
    let (task, tasks) ← s.tasks.popTask (s.popTime clock now)
    .ok (task.bind fun task => task.fire (s.testTime clock now), { s with tasks := tasks })
  else .ok (none, s)

def storedAs (s : Timer Cb) (id : ℕ) : List (TimerTask Cb) :=
  s.stored.filter fun task => task.id == id

/-- `run()` calls the callback of the task it pops, not before that has expired. A task that is
not cyclic is gone afterwards, and a cyclic one is stored once, with a deadline that is its duration
after the pop or later. -/
def Fires (s : Timer Cb) (clock : Clock) (now : ℕ) (cb : Cb) : Prop :=
  ∃ s', s.run clock now = .ok (some cb, s') ∧
    s.tasks.top.expiredTime ≤ s.testTime clock now ∧
    if s.tasks.top.cycled then
      ∃ task, s'.storedAs s.tasks.top.id = [task] ∧
        s.popTime clock now + s.tasks.top.duration ≤ task.expiredTime
    else s'.storedAs s.tasks.top.id = []

/-- The clock reaches the next deadline of a cyclic task between the pop and the test, the map can
order that deadline, and the task at the top is the only one with its id and the one that `pop`
gives up. -/
structure FiresWhen (s : Timer Cb) (clock : Clock) (now : ℕ) : Prop where
  /-- A task that waits for all of the time there is is taken for no task. -/
  waits : now = 0 → s.tasks.top.expiredTime = Clock.infinity →
    Clock.infinity ≤ s.testTime clock now
  rearmed : s.tasks.top.cycled = true →
    s.popTime clock now + s.tasks.top.duration ≤ s.testTime clock now
  rearms : s.tasks.Rearms (s.popTime clock now)
  single : (s.storedAs s.tasks.top.id).length = 1
  gives : s.tasks.GivesUpTop

variable {s : Timer Cb} {clock : Clock} {now : ℕ}

/-- `run()` sleeps past the deadline, unless that is mistaken for no deadline. -/
theorem expired_iff (htime : s.tasks.top.expiredTime < 2 ^ 64) :
    s.tasks.top.expiredTime ≤ s.testTime clock now ↔
      (now = 0 → s.tasks.top.expiredTime = Clock.infinity →
        Clock.infinity ≤ s.testTime clock now) := by
  constructor
  · intro hle _ heq
    rwa [heq] at hle
  · intro hwaits
    have hnext := clock.le_next (s.popTime clock now)
    by_cases hcorner : now = 0 ∧ s.tasks.top.expiredTime = Clock.infinity
    case pos =>
      rw [hcorner.2]
      exact hwaits hcorner.1 hcorner.2
    case neg =>
      refine le_trans ?_ hnext
      have hinf : Clock.infinity = 2 ^ 64 - 1 := rfl
      rw [popTime, nextTimestamp]
      by_cases hzero : s.tasks.top.expiredTime = 0
      case pos =>
        rw [hzero]
        exact Nat.zero_le _
      case neg =>
        rw [if_neg hzero]
        by_cases hlate : s.tasks.top.expiredTime ≥ now
        case pos =>
          have hne : s.tasks.top.expiredTime - now ≠ Clock.infinity := by omega
          rw [if_pos hlate, if_neg hne]
          split
          case isTrue =>
            have hsleep := clock.le_sleep now (s.tasks.top.expiredTime - now)
            omega
          case isFalse =>
            have hle := clock.le_next now
            omega
        case neg =>
          rw [if_neg hlate, if_neg (by decide)]
          have hle := clock.le_next now
          omega

theorem left_eq_nil_iff {dropped : TimerTask Cb} {rest : TaskSet Cb}
    (hperm : s.stored.Perm (dropped :: rest)) (hgives : s.tasks.GivesUpTop → dropped = s.tasks.top)
    (hstays : ¬ s.tasks.GivesUpTop → s.tasks.top ∈ rest) :
    (rest.filter fun task => task.id == s.tasks.top.id) = [] ↔
      (s.storedAs s.tasks.top.id).length = 1 ∧ s.tasks.GivesUpTop := by
  have hlength := (hperm.filter fun task => task.id == s.tasks.top.id).length_eq
  by_cases h : s.tasks.GivesUpTop
  case pos =>
    rw [hgives h, List.filter_cons_of_pos (by simp), List.length_cons] at hlength
    rw [storedAs, hlength, ← List.length_eq_zero_iff]
    simp [h]
  case neg =>
    refine iff_of_false (fun hnil => ?_) fun hboth => h hboth.2
    rw [List.filter_eq_nil_iff] at hnil
    exact hnil _ (hstays h) (by simp)

theorem run_eq (hrunning : s.running = true) {popped : TimerTask Cb} {b : TimerBackend Cb}
    (hpop : s.tasks.popTask (s.popTime clock now) = .ok (some popped, b)) :
    s.run clock now = .ok (popped.fire (s.testTime clock now), { s with tasks := b }) := by
  rw [run, if_pos hrunning, hpop, ok_bind]
  rfl

/-- A re-armed task is the only one with its id exactly when no other is left. -/
theorem storedAs_rearmed_iff {popped : TimerTask Cb} {rest : TaskSet Cb} {s' : Timer Cb}
    (hstored : s'.stored.Perm (popped :: rest)) {P : TimerTask Cb → Prop} :
    (∃ task, s'.storedAs popped.id = [task] ∧ P task) ↔
      (rest.filter fun task => task.id == popped.id) = [] ∧ P popped := by
  have hperm := hstored.filter fun task => task.id == popped.id
  rw [List.filter_cons_of_pos (by simp)] at hperm
  rw [storedAs]
  constructor
  · rintro ⟨task, heq, hP⟩
    rw [heq] at hperm
    obtain ⟨rfl, hnil⟩ := List.cons.inj (List.perm_singleton.mp hperm.symm)
    exact ⟨hnil, hP⟩
  · rintro ⟨hnil, hP⟩
    rw [hnil] at hperm
    exact ⟨popped, List.perm_singleton.mp hperm, hP⟩

/-- The next deadline is reached, and is not before the pop, exactly when the clock goes on for as
long as the duration. -/
theorem rearmed_iff {woken duration test : ℕ} (htest : test < 2 ^ 64) :
    SizeT.add woken duration ≤ test ∧ woken + duration ≤ SizeT.add woken duration ↔
      woken + duration ≤ test := by
  constructor
  · rintro ⟨hreached, hlate⟩
    exact hlate.trans hreached
  · intro hle
    rw [SizeT.add_eq (hle.trans_lt htest)]
    exact ⟨hle, le_refl _⟩

theorem fires_iff_of_run {called : Option Cb} {s' : Timer Cb} {cb : Cb}
    (hrun : s.run clock now = .ok (called, s')) :
    s.Fires clock now cb ↔ called = some cb ∧ s.tasks.top.expiredTime ≤ s.testTime clock now ∧
      if s.tasks.top.cycled then
        ∃ task, s'.storedAs s.tasks.top.id = [task] ∧
          s.popTime clock now + s.tasks.top.duration ≤ task.expiredTime
      else s'.storedAs s.tasks.top.id = [] := by
  constructor
  · rintro ⟨s'', hrun', hrest⟩
    rw [hrun] at hrun'
    obtain ⟨rfl, rfl⟩ := Prod.mk.inj (Except.ok.inj hrun')
    exact ⟨rfl, hrest⟩
  · rintro ⟨rfl, hrest⟩
    exact ⟨s', hrun, hrest⟩

theorem fire_eq_some_iff {task : TimerTask Cb} {cb : Cb} {test : ℕ}
    (hcb : task.callback = some cb) : task.fire test = some cb ↔ task.expiredTime ≤ test := by
  rw [TimerTask.fire, TimerTask.isExpired, hcb]
  simp

/-- Where the map cannot order the next deadline of a cyclic task, nothing can be said. -/
theorem not_fires_of_unordered {cb : Cb} (hw : s.tasks.Wf)
    (hrearms : ¬ s.tasks.Rearms (s.popTime clock now)) : ¬ s.Fires clock now cb := by
  rintro ⟨s', hrun, -⟩
  rw [run] at hrun
  split at hrun
  case isTrue =>
    obtain ⟨⟨popped, b⟩, hpop, -⟩ := bind_eq_ok.mp hrun
    exact hrearms (hw.rearms_of_popTask hpop)
  case isFalse => cases hrun

/-- A task that is popped fires exactly when it is not cyclic, or the clock comes to its next
deadline before the test and the map can order that; and when it is the only one with its id and
the one that is given up. -/
theorem fires_iff (s : Timer Cb) (hreach : s.tasks.Reachable) (hrunning : s.running = true)
    (hsize : s.tasks.size ≠ 0) (cb : Cb) (hcb : s.tasks.top.callback = some cb)
    (htime : s.tasks.top.expiredTime < 2 ^ 64) (clock : Clock) (now : ℕ)
    (hclock : s.testTime clock now < 2 ^ 64) :
    s.Fires clock now cb ↔ s.FiresWhen clock now := by
  by_cases hrearms : s.tasks.Rearms (s.popTime clock now)
  case neg =>
    exact iff_of_false (not_fires_of_unordered hreach.wf hrearms) fun h => hrearms h.rearms
  case pos =>
    obtain ⟨popped, b, dropped, rest, hpop, -, hperm, hgives, hstays, hcases⟩ :=
      hreach.wf.popTask hsize hrearms
    have hleft := left_eq_nil_iff hperm hgives hstays
    rw [fires_iff_of_run (run_eq hrunning hpop), expired_iff htime]
    rcases hcases with ⟨hcycled, rfl, hstored⟩ | ⟨hcycled, rfl, hstored⟩
    · -- the deadline that is tested is the one that was waited for
      have hgone : ({ s with tasks := b } : Timer Cb).storedAs s.tasks.top.id = [] ↔
          (rest.filter fun task => task.id == s.tasks.top.id) = [] := by
        rw [← List.length_eq_zero_iff, ← List.length_eq_zero_iff, ← (hstored.filter _).length_eq]
        rfl
      rw [hcycled, if_neg Bool.false_ne_true, fire_eq_some_iff hcb, expired_iff htime, hgone,
        hleft]
      constructor
      · rintro ⟨hwaits, -, hsingle, hends⟩
        exact ⟨hwaits, fun h => absurd (hcycled.symm.trans h) (by decide), hrearms, hsingle, hends⟩
      · intro h
        exact ⟨h.waits, h.waits, h.single, h.gives⟩
    · -- the deadline that is tested is the next one
      have hstored' : ({ s with tasks := b } : Timer Cb).stored.Perm
          (s.tasks.top.setExpiredTime (s.popTime clock now) s.tasks.top.duration :: rest) := hstored
      have honce : (∃ task, ({ s with tasks := b } : Timer Cb).storedAs s.tasks.top.id = [task] ∧
            s.popTime clock now + s.tasks.top.duration ≤ task.expiredTime) ↔
          (rest.filter fun task => task.id == s.tasks.top.id) = [] ∧ s.popTime clock now +
            s.tasks.top.duration ≤ SizeT.add (s.popTime clock now) s.tasks.top.duration :=
        storedAs_rearmed_iff hstored' (P := fun task =>
          s.popTime clock now + s.tasks.top.duration ≤ task.expiredTime)
      have hcb' : (s.tasks.top.setExpiredTime (s.popTime clock now)
          s.tasks.top.duration).callback = some cb := hcb
      rw [hcycled, if_pos rfl, fire_eq_some_iff hcb', honce, hleft]
      constructor
      · rintro ⟨hreached, hwaits, ⟨hsingle, hends⟩, hlate⟩
        exact ⟨hwaits, fun _ => (rearmed_iff hclock).mp ⟨hreached, hlate⟩, hrearms, hsingle, hends⟩
      · intro h
        obtain ⟨hreached, hlate⟩ := (rearmed_iff hclock).mpr (h.rearmed hcycled)
        exact ⟨hreached, h.waits, ⟨h.single, h.gives⟩, hlate⟩

/-- A clock that stands still but for sleeps, which take as long as they are to. -/
def exactClock : Clock where
  next now := now
  sleep now ms := now + ms
  le_next _ := le_refl _
  le_sleep _ _ := le_refl _

/-- A running timer with two tasks, of which the first waits for 5 from the time 3 on. -/
def twoTimers (cycled : Bool) : Timer Unit :=
  ⟨.map ⟨[((1, 8), ⟨5, 8, cycled, some (), 1⟩), ((2, 12), ⟨9, 12, false, some (), 2⟩)], 4⟩, true⟩

theorem twoTimers_reachable (cycled : Bool) : (twoTimers cycled).tasks.Reachable := by
  refine ⟨4, false, 0, [.add ⟨9, 12, false, some (), 2⟩, .add ⟨5, 8, cycled, some (), 1⟩],
    [.added 2, .added 1], Nat.zero_le 4, ⟨fun _ hu => absurd hu List.not_mem_nil, ?_⟩, rfl⟩
  intro result b hstep
  cases hstep
  refine ⟨fun u hu => ?_, fun _ _ _ => trivial⟩
  obtain rfl := List.mem_singleton.mp hu
  exact (by decide : 2 ≠ 1)

/-- A task that is not cyclic fires, and the other one stays. -/
theorem fires_iff_once : (twoTimers false).Fires exactClock 3 () :=
  (fires_iff (twoTimers false) (twoTimers_reachable false) rfl (by decide) () rfl (by decide)
    exactClock 3 (by decide)).mpr
    ⟨fun h => absurd h (by decide), fun h => absurd h (by decide), fun h => absurd h (by decide),
      rfl, trivial⟩

/-- A cyclic one is popped when it expires, and is not called. -/
theorem cyclic_not_called :
    (twoTimers true).tasks.Reachable ∧
      (∃ s', (twoTimers true).run exactClock 3 = .ok (none, s') ∧
        s'.stored = [⟨9, 12, false, some (), 2⟩, ⟨5, 13, true, some (), 1⟩]) ∧
      ¬ (twoTimers true).Fires exactClock 3 () := by
  have hrun : (twoTimers true).run exactClock 3 =
      .ok (none, ⟨.map ⟨[((2, 12), ⟨9, 12, false, some (), 2⟩),
        ((1, 13), ⟨5, 13, true, some (), 1⟩)], 4⟩, true⟩) := by rfl
  refine ⟨twoTimers_reachable true, ⟨_, hrun, rfl⟩, ?_⟩
  rintro ⟨s', hrun', -⟩
  rw [hrun] at hrun'
  cases hrun'

end Timer

end LpNet
