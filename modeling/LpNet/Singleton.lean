import LpNet.Lib.Transition
import Mathlib.Logic.Function.Basic

/-!
`Singleton<T>::instance()`, which threads call at any time.

The pointer is tested before `std::call_once`, by threads that have not synchronized with the one
that stores it. A constructor that throws leaves the flag as it was, and the next call
constructs again. `instance_once` says what this is worth: one object at most is ever made, every
call that returns has it, and every call can return, but the first test races with the store.
Accesses are done one at a time here, so what a race may lead to is left out. The object is
never deleted, since there is no `Singleton<T>` whose `Deletor` could do it.
-/

namespace LpNet

open Transition

inductive OnceFlag
  | fresh
  /-- The thread is in the function that was passed to `call_once`. -/
  | active (t : ℕ)
  | done
  deriving DecidableEq, Repr

inductive InstancePhase
  /-- Before `!pValue_`. -/
  | test
  | callOnce
  /-- Before `new T()` returns. -/
  | construct
  /-- Before `pValue_` is stored. -/
  | store (object : ℕ)
  /-- Before `call_once` sets the flag. -/
  | leave
  /-- Before `return pValue_`. -/
  | answer
  deriving DecidableEq, Repr

/-- `once_` and `pValue_`, with the number of objects that were made and the threads. -/
structure SharedSingleton where
  once : OnceFlag
  pValue : Option ℕ
  objects : ℕ
  thread : ℕ → Option InstancePhase

inductive InstanceAction
  | call (t : ℕ)
  | step (t : ℕ)
  /-- The constructor throws. -/
  | throw (t : ℕ)
  deriving DecidableEq, Repr

inductive InstanceReply
  | nothing
  | returned (object : Option ℕ)
  | thrown
  deriving DecidableEq, Repr

inductive InstanceRefusal
  | busy
  | idle
  | blocked
  deriving DecidableEq, Repr

namespace SharedSingleton

def new : SharedSingleton := ⟨.fresh, none, 0, fun _ => none⟩

def setThread (s : SharedSingleton) (t : ℕ) (phase : Option InstancePhase) : SharedSingleton :=
  { s with thread := Function.update s.thread t phase }

def phaseStep (s : SharedSingleton) (t : ℕ) :
    InstancePhase → Except InstanceRefusal (InstanceReply × SharedSingleton)
  | .test =>
      match s.pValue with
      | some _ => .ok (.nothing, s.setThread t (some .answer))
      | none => .ok (.nothing, s.setThread t (some .callOnce))
  | .callOnce =>
      match s.once with
      | .fresh => .ok (.nothing, { s.setThread t (some .construct) with once := .active t })
      | .active _ => .error .blocked
      | .done => .ok (.nothing, s.setThread t (some .answer))
  | .construct =>
      .ok (.nothing, { s.setThread t (some (.store s.objects)) with objects := s.objects + 1 })
  | .store object => .ok (.nothing, { s.setThread t (some .leave) with pValue := some object })
  | .leave => .ok (.nothing, { s.setThread t (some .answer) with once := .done })
  | .answer => .ok (.returned s.pValue, s.setThread t none)

def instanceStep (s : SharedSingleton) : InstanceAction →
    Except InstanceRefusal (InstanceReply × SharedSingleton)
  | .call t =>
      match s.thread t with
      | some _ => .error .busy
      | none => .ok (.nothing, s.setThread t (some .test))
  | .step t =>
      match s.thread t with
      | some phase => s.phaseStep t phase
      | none => .error .idle
  | .throw t =>
      match s.thread t with
      | some .construct => .ok (.thrown, { s.setThread t none with once := .fresh })
      | _ => .error .idle

/-- The thread is in the function that was passed to `call_once`. -/
def Works (s : SharedSingleton) (t : ℕ) : Prop :=
  s.thread t = some .construct ∧ s.pValue = none ∧ s.objects = 0 ∨
    s.thread t = some (.store 0) ∧ s.pValue = none ∧ s.objects = 1 ∨
    s.thread t = some .leave ∧ s.pValue = some 0 ∧ s.objects = 1

/-- One thread at most constructs, and the others wait or have seen its object. -/
structure Once (s : SharedSingleton) : Prop where
  fresh : s.once = .fresh → s.pValue = none ∧ s.objects = 0
  active : ∀ t, s.once = .active t → s.Works t
  done : s.once = .done → s.pValue = some 0 ∧ s.objects = 1
  others : ∀ t, s.once ≠ .active t → s.thread t = none ∨ s.thread t = some .test ∨
    s.thread t = some .callOnce ∨ s.thread t = some .answer ∧ s.pValue = some 0

variable {s s' : SharedSingleton} {t t' : ℕ} {action : InstanceAction} {reply : InstanceReply}

theorem new_once : new.Once where
  fresh _ := ⟨rfl, rfl⟩
  active _ h := by cases h
  done h := by cases h
  others _ _ := .inl rfl

theorem Once.eq_active (h : s.Once) {phase : InstancePhase} (hphase : s.thread t = some phase)
    (hworks : phase = .construct ∨ (∃ object, phase = .store object) ∨ phase = .leave) :
    s.once = .active t ∧ s.Works t := by
  by_cases hactive : s.once = .active t
  case pos => exact ⟨hactive, h.active t hactive⟩
  case neg =>
    rcases h.others t hactive with hnone | htest | hcall | ⟨hanswer, -⟩ <;>
      rcases hworks with rfl | ⟨object, rfl⟩ | rfl <;> simp_all

/-- A thread that goes on outside the function leaves the others alone. -/
theorem Once.setThread (h : s.Once) (ht : s.once ≠ .active t) {phase : Option InstancePhase}
    (hphase : phase = none ∨ phase = some .test ∨ phase = some .callOnce ∨
      phase = some .answer ∧ s.pValue = some 0) : (s.setThread t phase).Once where
  fresh := h.fresh
  active t' hactive := by
    have hne : t' ≠ t := by
      rintro rfl
      exact ht hactive
    have hworks := h.active t' hactive
    rwa [Works, ← Function.update_of_ne hne phase s.thread] at hworks
  done := h.done
  others t' hactive := by
    by_cases hne : t' = t
    case pos =>
      subst hne
      simpa [SharedSingleton.setThread] using hphase
    case neg =>
      simp only [SharedSingleton.setThread, Function.update_of_ne hne]
      exact h.others t' hactive

theorem Once.work (h : s.Once) (hactive : ∀ t', t' ≠ t → s.once ≠ .active t')
    {phase : Option InstancePhase} (hother : ∀ t', t' ≠ t → s'.thread t' = s.thread t')
    (hmine : s'.thread t = phase)
    (hvalue : s.pValue = some 0 → s'.pValue = some 0)
    (hnext : s'.once = .active t ∧ s'.Works t ∨
      s'.once = .fresh ∧ phase = none ∧ s'.pValue = none ∧ s'.objects = 0 ∨
      s'.once = .done ∧ phase = some .answer ∧ s'.pValue = some 0 ∧ s'.objects = 1) :
    s'.Once := by
  have hothers : ∀ t', t' ≠ t → s'.thread t' = none ∨ s'.thread t' = some .test ∨
      s'.thread t' = some .callOnce ∨ s'.thread t' = some .answer ∧ s'.pValue = some 0 := by
    intro t' hne
    rw [hother t' hne]
    rcases h.others t' (hactive t' hne) with hnone | htest | hcall | ⟨hanswer, hsome⟩
    · exact .inl hnone
    · exact .inr (.inl htest)
    · exact .inr (.inr (.inl hcall))
    · exact .inr (.inr (.inr ⟨hanswer, hvalue hsome⟩))
  rcases hnext with ⟨honce, hworks⟩ | ⟨honce, hphase, hnone, hobjects⟩ |
    ⟨honce, hphase, hsome, hobjects⟩
  · refine ⟨fun hf => ?_, fun t' hf => ?_, fun hf => ?_, fun t' hf => ?_⟩
    · rw [honce] at hf
      cases hf
    · rw [honce] at hf
      cases hf
      exact hworks
    · rw [honce] at hf
      cases hf
    · exact hothers t' fun heq => hf (heq ▸ honce)
  · refine ⟨fun _ => ⟨hnone, hobjects⟩, fun t' hf => ?_, fun hf => ?_, fun t' _ => ?_⟩
    · rw [honce] at hf
      cases hf
    · rw [honce] at hf
      cases hf
    · by_cases hne : t' = t
      case pos => exact .inl (hne ▸ hmine.trans hphase)
      case neg => exact hothers t' hne
  · refine ⟨fun hf => ?_, fun t' hf => ?_, fun _ => ⟨hsome, hobjects⟩, fun t' _ => ?_⟩
    · rw [honce] at hf
      cases hf
    · rw [honce] at hf
      cases hf
    · by_cases hne : t' = t
      case pos => exact .inr (.inr (.inr ⟨hne ▸ hmine.trans hphase, hsome⟩))
      case neg => exact hothers t' hne

theorem alone (hactive : s.once = .active t) : ∀ t', t' ≠ t → s.once ≠ .active t' := by
  intro t' hne heq
  rw [hactive] at heq
  exact hne (OnceFlag.active.inj heq).symm

theorem Once.phaseStep (h : s.Once) {phase : InstancePhase} (hphase : s.thread t = some phase)
    (hstep : s.phaseStep t phase = .ok (reply, s')) :
    s'.Once ∧ ∀ object, reply = .returned object → object = some 0 := by
  have hwaits : (∀ s, Works s t → s.thread t ≠ some phase) → s.once ≠ .active t :=
    fun hnot hactive => hnot s (h.active t hactive) hphase
  cases phase with
  | test =>
      have hidle := hwaits fun s hworks heq => by simp [Works, heq] at hworks
      rw [SharedSingleton.phaseStep] at hstep
      split at hstep
      case h_1 object hobject =>
        cases hstep
        refine ⟨h.setThread hidle (.inr (.inr (.inr ⟨rfl, ?_⟩))), fun _ hreply => by cases hreply⟩
        -- a pointer that is set is that of the one object
        cases honce : s.once with
        | fresh =>
            rw [(h.fresh honce).1] at hobject
            cases hobject
        | active t' =>
            rcases h.active t' honce with ⟨-, hnone, -⟩ | ⟨-, hnone, -⟩ | ⟨-, hsome, -⟩
            · rw [hnone] at hobject
              cases hobject
            · rw [hnone] at hobject
              cases hobject
            · exact hsome
        | done => exact (h.done honce).1
      case h_2 =>
        cases hstep
        exact ⟨h.setThread hidle (.inr (.inr (.inl rfl))), fun _ hreply => by cases hreply⟩
  | callOnce =>
      have hidle := hwaits fun s hworks heq => by simp [Works, heq] at hworks
      rw [SharedSingleton.phaseStep] at hstep
      split at hstep
      case h_1 hfresh =>
        cases hstep
        refine ⟨h.work (t := t) (fun t' _ heq => ?_) (fun t' hne => Function.update_of_ne hne ..)
          (Function.update_self ..) (fun hsome => hsome) (.inl ⟨rfl, .inl ⟨?_, h.fresh hfresh⟩⟩),
          fun _ hreply => by cases hreply⟩
        · rw [hfresh] at heq
          cases heq
        · exact Function.update_self ..
      case h_2 => cases hstep
      case h_3 hdone =>
        cases hstep
        exact ⟨h.setThread hidle (.inr (.inr (.inr ⟨rfl, (h.done hdone).1⟩))),
          fun _ hreply => by cases hreply⟩
  | construct =>
      obtain ⟨hactive, hworks⟩ := h.eq_active hphase (.inl rfl)
      simp only [Works, hphase, reduceCtorEq, false_and, or_false, true_and, Option.some.injEq]
        at hworks
      cases hstep
      refine ⟨h.work (alone hactive) (fun t' hne => Function.update_of_ne hne ..)
        (Function.update_self ..) (fun hsome => hsome)
        (.inl ⟨hactive, .inr (.inl ⟨?_, hworks.1, ?_⟩)⟩), fun _ hreply => by cases hreply⟩
      · simp [SharedSingleton.setThread, hworks.2]
      · simp [hworks.2]
  | store object =>
      obtain ⟨hactive, hworks⟩ := h.eq_active hphase (.inr (.inl ⟨object, rfl⟩))
      simp only [Works, hphase, reduceCtorEq, false_and, or_false, false_or, Option.some.injEq,
        InstancePhase.store.injEq] at hworks
      obtain ⟨rfl, -, hobjects⟩ := hworks
      cases hstep
      exact ⟨h.work (alone hactive) (fun t' hne => Function.update_of_ne hne ..)
        (Function.update_self ..) (fun _ => rfl)
        (.inl ⟨hactive, .inr (.inr ⟨Function.update_self .., rfl, hobjects⟩)⟩),
        fun _ hreply => by cases hreply⟩
  | leave =>
      obtain ⟨hactive, hworks⟩ := h.eq_active hphase (.inr (.inr rfl))
      simp only [Works, hphase, reduceCtorEq, false_and, false_or, true_and, Option.some.injEq]
        at hworks
      cases hstep
      exact ⟨h.work (alone hactive) (fun t' hne => Function.update_of_ne hne ..)
        (Function.update_self ..) (fun hsome => hsome) (.inr (.inr ⟨rfl, rfl, hworks⟩)),
        fun _ hreply => by cases hreply⟩
  | answer =>
      have hidle := hwaits fun s hworks heq => by simp [Works, heq] at hworks
      have hsome : s.pValue = some 0 := by
        rcases h.others t hidle with hnone | htest | hcall | ⟨-, hsome⟩
        · rw [hphase] at hnone
          cases hnone
        · rw [hphase] at htest
          cases htest
        · rw [hphase] at hcall
          cases hcall
        · exact hsome
      cases hstep
      refine ⟨h.setThread hidle (.inl rfl), fun object hreply => ?_⟩
      exact (InstanceReply.returned.inj hreply).symm.trans hsome

theorem Once.step (h : s.Once) (hstep : s.instanceStep action = .ok (reply, s')) :
    s'.Once ∧ ∀ object, reply = .returned object → object = some 0 := by
  cases action with
  | call t =>
      rw [instanceStep] at hstep
      split at hstep
      case h_1 => cases hstep
      case h_2 hnone =>
        cases hstep
        refine ⟨h.setThread (fun hactive => ?_) (.inr (.inl rfl)), fun _ hreply => by cases hreply⟩
        have hworks := h.active t hactive
        simp [Works, hnone] at hworks
  | step t =>
      rw [instanceStep] at hstep
      split at hstep
      case h_1 phase hphase => exact h.phaseStep hphase hstep
      case h_2 => cases hstep
  | throw t =>
      rw [instanceStep] at hstep
      split at hstep
      case h_2 => cases hstep
      case h_1 hphase =>
        cases hstep
        obtain ⟨hactive, hworks⟩ := h.eq_active hphase (.inl rfl)
        simp only [Works, hphase, reduceCtorEq, false_and, or_false, true_and, Option.some.injEq]
          at hworks
        exact ⟨h.work (alone hactive) (fun t' hne => Function.update_of_ne hne ..)
          (Function.update_self ..) (fun hsome => hsome) (.inr (.inl ⟨rfl, rfl, hworks⟩)),
          fun _ hreply => by cases hreply⟩

theorem Once.run {actions : List InstanceAction} {replies : List InstanceReply} (h : s.Once)
    (hrun : run instanceStep s actions = .ok (replies, s')) :
    s'.Once ∧ ∀ object, .returned object ∈ replies → object = some 0 := by
  induction actions generalizing s replies with
  | nil =>
      cases hrun
      exact ⟨h, fun _ hmem => by cases hmem⟩
  | cons action actions ih =>
      obtain ⟨reply, replies', mid, hstep, hrest, rfl⟩ := run_cons_eq_ok hrun
      obtain ⟨hmid, hreply⟩ := h.step hstep
      obtain ⟨hlast, hreplies⟩ := ih hmid hrest
      refine ⟨hlast, fun object hmem => ?_⟩
      rcases List.mem_cons.mp hmem with heq | hmem
      · exact hreply object heq.symm
      · exact hreplies object hmem

/-- The steps until there is an object and the flag is set. -/
def workLeft (s : SharedSingleton) : ℕ :=
  match s.once with
  | .fresh => 4
  | .done => 0
  | .active t =>
      match s.thread t with
      | some .construct => 3
      | some (.store _) => 2
      | _ => 1

def stepsLeft (s : SharedSingleton) (t : ℕ) : ℕ :=
  match s.thread t with
  | none => 0
  | some .answer => 1
  | some .test => 3
  | some _ => 2

theorem Once.progress (h : s.Once) (hinside : s.thread t ≠ none) :
    ∃ t' reply s', s.instanceStep (.step t') = .ok (reply, s') ∧
      s'.workLeft + s'.stepsLeft t < s.workLeft + s.stepsLeft t := by
  cases honce : s.once with
  | active t' =>
      refine ⟨t', ?_⟩
      rcases h.active t' honce with ⟨hphase, -⟩ | ⟨hphase, -⟩ | ⟨hphase, -⟩
      all_goals
        refine ⟨_, _, by rw [instanceStep, hphase]; rfl, ?_⟩
        by_cases hne : t = t'
        case pos => simp [workLeft, stepsLeft, honce, hphase, hne, SharedSingleton.setThread]
        case neg =>
          simp [workLeft, stepsLeft, honce, hphase, SharedSingleton.setThread,
            Function.update_of_ne hne]
  | fresh =>
      have hnone := (h.fresh honce).1
      have hother : s.once ≠ .active t := by
        rw [honce]
        exact fun heq => by cases heq
      refine ⟨t, .nothing, ?_⟩
      rcases h.others t hother with hidle | hphase | hphase | ⟨-, hsome⟩
      · exact (hinside hidle).elim
      · have hstep : s.instanceStep (.step t) =
            .ok (.nothing, s.setThread t (some .callOnce)) := by
          simp [instanceStep, hphase, SharedSingleton.phaseStep, hnone]
        refine ⟨_, hstep, ?_⟩
        simp [workLeft, stepsLeft, honce, hphase, SharedSingleton.setThread]
      · have hstep : s.instanceStep (.step t) =
            .ok (.nothing, { s.setThread t (some .construct) with once := .active t }) := by
          simp [instanceStep, hphase, SharedSingleton.phaseStep, honce]
        refine ⟨_, hstep, ?_⟩
        simp [workLeft, stepsLeft, honce, hphase, SharedSingleton.setThread]
      · rw [hnone] at hsome
        cases hsome
  | done =>
      have hsome := (h.done honce).1
      have hother : s.once ≠ .active t := by
        rw [honce]
        exact fun heq => by cases heq
      have hanswer : s.thread t = some .test ∨ s.thread t = some .callOnce →
          s.instanceStep (.step t) = .ok (.nothing, s.setThread t (some .answer)) := by
        rintro (hphase | hphase)
        · simp [instanceStep, hphase, SharedSingleton.phaseStep, hsome]
        · simp [instanceStep, hphase, SharedSingleton.phaseStep, honce]
      refine ⟨t, ?_⟩
      rcases h.others t hother with hidle | hphase | hphase | ⟨hphase, -⟩
      · exact (hinside hidle).elim
      · refine ⟨_, _, hanswer (.inl hphase), ?_⟩
        simp [workLeft, stepsLeft, honce, hphase, SharedSingleton.setThread]
      · refine ⟨_, _, hanswer (.inr hphase), ?_⟩
        simp [workLeft, stepsLeft, honce, hphase, SharedSingleton.setThread]
      · refine ⟨_, _, by rw [instanceStep, hphase]; rfl, ?_⟩
        simp [workLeft, stepsLeft, honce, hphase, SharedSingleton.setThread]

theorem reaches_race (hne : t ≠ t') :
    ∃ s object, Reaches instanceStep new s ∧ s.thread t = some (.store object) ∧
      s.thread t' = some .test := by
  have hrun : ∃ replies s, run instanceStep new [.call t', .call t, .step t, .step t, .step t] =
      .ok (replies, s) ∧ s.thread t = some (.store 0) ∧ s.thread t' = some .test := by
    simp [run, instanceStep, SharedSingleton.phaseStep, new, SharedSingleton.setThread, hne,
      hne.symm]
  obtain ⟨replies, s, hrun, hstore, htest⟩ := hrun
  exact ⟨s, 0, ⟨_, replies, hrun⟩, hstore, htest⟩

/-- Whatever the threads do and however often the constructor throws, at most one object is made,
all calls that return have returned it, the pointer that is returned is not being stored, and
every call can return. The pointer that is tested first may be being stored by any other thread. -/
theorem instance_once :
    (∀ actions replies s, run instanceStep new actions = .ok (replies, s) →
      s.objects ≤ 1 ∧ (∀ object, .returned object ∈ replies → object = some 0) ∧
      (∀ t t' object, s.thread t = some (.store object) → s.thread t' ≠ some .answer) ∧
      ∀ t, ∃ s', ReachesBy instanceStep (fun _ action => ∃ t', action = .step t') s s' ∧
        s'.thread t = none) ∧
    ∀ t t', t ≠ t' → ∃ s object, Reaches instanceStep new s ∧
      s.thread t = some (.store object) ∧ s.thread t' = some .test := by
  refine ⟨fun actions replies s hrun => ?_, fun t t' hne => reaches_race hne⟩
  obtain ⟨hs, hreturned⟩ := new_once.run hrun
  refine ⟨?_, hreturned, fun t t' object hstore hanswer => ?_, fun t => ?_⟩
  · cases honce : s.once with
    | fresh => rw [(hs.fresh honce).2]; exact Nat.zero_le 1
    | active t =>
        rcases hs.active t honce with ⟨-, -, hcount⟩ | ⟨-, -, hcount⟩ | ⟨-, -, hcount⟩
        all_goals omega
    | done => exact Nat.le_of_eq (hs.done honce).2
  · -- the thread that stores has found no pointer
    obtain ⟨hactive, hworks⟩ := hs.eq_active hstore (.inr (.inl ⟨object, rfl⟩))
    have hne : t' ≠ t := by
      rintro rfl
      rw [hstore] at hanswer
      cases hanswer
    rcases hs.others t' (alone hactive t' hne) with hphase | hphase | hphase | ⟨-, hsome⟩
    · simp [hanswer] at hphase
    · simp [hanswer] at hphase
    · simp [hanswer] at hphase
    · simp [Works, hstore, hsome] at hworks
  · have hprogress : ∀ s : SharedSingleton, s.Once → ¬ s.thread t = none →
        ∃ action reply s', instanceStep s action = .ok (reply, s') ∧
          (∃ t', action = .step t') ∧ s'.Once ∧
          s'.workLeft + s'.stepsLeft t < s.workLeft + s.stepsLeft t := by
      intro s h hinside
      obtain ⟨t', reply, s', hstep, hless⟩ := h.progress hinside
      exact ⟨_, reply, s', hstep, ⟨t', rfl⟩, (h.step hstep).1, hless⟩
    obtain ⟨s', hreach, -, hgone⟩ := ReachesBy.goal Nat.lt_wfRel.wf hprogress hs
    exact ⟨s', hreach, hgone⟩

end SharedSingleton

end LpNet
