import LpNet.Logger.Objects
import Mathlib.Data.List.Count

/-!
Runs of calls on the loggers of a manager.

`getLogger_stable` says that a name has one logger for good. While no `root_` is set by hand every
logger but the root passes on to the root (`Managed`), and `run_delivers` says where an event
then goes: to the appenders of its logger, or else of the root, to each as often as it was added and
not removed since (`attachedTimes`), if the levels let it through.
-/

namespace LpNet

open LockOrder Relation Transition

inductive LoggerCall
  | getLogger (name : Text)
  | newAppender (kind : AppenderKind)
  | setAppenderLevel (a : ℕ) (level : LogLevel)
  | setAppenderFormatter (a : ℕ) (formatter : Option LogFormatter)
  | setLevel (p : ℕ) (level : LogLevel)
  | setFormatter (p : ℕ) (formatter : Option LogFormatter)
  | setLogger (p : ℕ) (root : Option ℕ)
  | addAppender (p a : ℕ)
  | removeAppender (p a : ℕ)
  | clearAppenders (p : ℕ)
  | log (p : ℕ) (ev : LogEvent)

inductive LoggerAnswer
  | done
  | logger (p : ℕ)
  | appender (a : ℕ)
  | written (lines : Lines)

def LoggerCall.SetsRoot : LoggerCall → Prop
  | .setLogger .. => True
  | _ => False

namespace LogObjects

def callStep (strftime : Text → ℕ → Text) (w : LogObjects) :
    LoggerCall → Except LogFault (LoggerAnswer × LogObjects)
  | .getLogger name => .ok (.logger (w.getLogger name).1, (w.getLogger name).2)
  | .newAppender kind => .ok (.appender (w.newAppender kind).1, (w.newAppender kind).2)
  | .setAppenderLevel a level =>
      if a < w.appenders.length then
        .ok (.done, w.modifyAppender a fun appender => { appender with level := level })
      else .error (.fault .useAfterFree)
  | .setAppenderFormatter a formatter =>
      if a < w.appenders.length then
        .ok (.done, w.modifyAppender a fun appender => appender.setFormatter formatter)
      else .error (.fault .useAfterFree)
  | .setLevel p level =>
      if p < w.loggers.length then .ok (.done, w.setLevel p level)
      else .error (.fault .useAfterFree)
  | .setFormatter p formatter =>
      if p < w.loggers.length then .ok (.done, w.setFormatter p formatter)
      else .error (.fault .useAfterFree)
  | .setLogger p none =>
      if p < w.loggers.length then .ok (.done, w.setLogger p none)
      else .error (.fault .useAfterFree)
  | .setLogger p (some root) =>
      if h : p < w.loggers.length ∧ root < w.loggers.length then
        .ok (.done, w.setLogger p (some ⟨root, h.2⟩))
      else .error (.fault .useAfterFree)
  | .addAppender p a =>
      if h : p < w.loggers.length ∧ a < w.appenders.length then
        .ok (.done, w.addAppender ⟨p, h.1⟩ ⟨a, h.2⟩)
      else .error (.fault .useAfterFree)
  | .removeAppender p a =>
      if p < w.loggers.length then .ok (.done, w.removeAppender p a)
      else .error (.fault .useAfterFree)
  | .clearAppenders p =>
      if p < w.loggers.length then .ok (.done, w.clearAppenders p)
      else .error (.fault .useAfterFree)
  | .log p ev =>
      match w.log strftime p ev with
      | .ok lines => .ok (.written lines, w)
      | .error e => .error e

/-! ### One logger for a name -/

variable {strftime : Text → ℕ → Text} {w w' : LogObjects} {call : LoggerCall}
variable {answer : LoggerAnswer} {name name' : Text} {p q : ℕ}

/-- No two names have the same logger. -/
def Separate (w : LogObjects) : Prop :=
  ∀ name name' p, w.table name = some p → w.table name' = some p → name = name'

theorem new_separate : new.Separate := by
  intro name name' p h h'
  simp only [new] at h h'
  split at h
  case isFalse => cases h
  case isTrue heq =>
    split at h'
    case isFalse => cases h'
    case isTrue heq' => rw [heq, heq']

theorem getLogger_spec (hw : w.Separate) (name : Text) :
    (w.getLogger name).2.table name = some (w.getLogger name).1 ∧
      (∀ name' p, w.table name' = some p → (w.getLogger name).2.table name' = some p) ∧
      (w.getLogger name).2.Separate := by
  rw [getLogger]
  cases hname : w.table name with
  | some p => exact ⟨hname, fun _ _ h => h, hw⟩
  | none =>
      have hold : ∀ name' p, w.table name' = some p → name' ≠ name := by
        rintro name' p h rfl
        rw [hname] at h
        cases h
      refine ⟨Function.update_self .., fun name' p h => ?_, fun name₁ name₂ p h₁ h₂ => ?_⟩
      · exact (Function.update_of_ne (hold name' p h) ..).trans h
      · -- the new logger lies behind all others
        have hsplit : ∀ name', (w.addLogger name).table name' = some p →
            name' = name ∧ p = w.loggers.length ∨
              w.table name' = some p ∧ p < w.loggers.length := by
          intro name' h
          by_cases heq : name' = name
          case pos =>
            subst heq
            simp only [addLogger, Function.update_self] at h
            exact .inl ⟨rfl, (Option.some.inj h).symm⟩
          case neg =>
            simp only [addLogger, Function.update_of_ne heq] at h
            exact .inr ⟨h, w.table_lt name' p h⟩
        rcases hsplit name₁ h₁ with ⟨rfl, hp⟩ | ⟨h₁, hp⟩
        · rcases hsplit name₂ h₂ with ⟨rfl, -⟩ | ⟨-, hlt⟩
          · rfl
          · omega
        · rcases hsplit name₂ h₂ with ⟨-, rfl⟩ | ⟨h₂, -⟩
          · omega
          · exact hw name₁ name₂ p h₁ h₂

theorem of_guard {c : Prop} [Decidable c] {result : LoggerAnswer × LogObjects} {e : LogFault}
    (h : (if c then .ok result else .error e) = Except.ok (answer, w')) :
    c ∧ result = (answer, w') := by
  split at h
  case isTrue hc => exact ⟨hc, Except.ok.inj h⟩
  case isFalse => cases h

theorem table_eq (h : w.callStep strftime call = .ok (answer, w'))
    (hcall : ∀ name, call ≠ .getLogger name) : w'.table = w.table := by
  cases call with
  | getLogger name => exact absurd rfl (hcall name)
  | newAppender kind =>
      cases h
      rfl
  | log p ev =>
      rw [callStep] at h
      split at h
      · cases h
        rfl
      · cases h
  | setLogger p root =>
      cases root with
      | none =>
          rw [callStep] at h
          split at h <;> cases h
          rfl
      | some root =>
          rw [callStep] at h
          split at h <;> cases h
          rfl
  | _ =>
      rw [callStep] at h
      split at h <;> cases h
      rfl

theorem Separate.step (hw : w.Separate) (h : w.callStep strftime call = .ok (answer, w')) :
    w'.Separate ∧ ∀ name p, w.table name = some p → w'.table name = some p := by
  by_cases hcall : ∃ name, call = .getLogger name
  case pos =>
    obtain ⟨name, rfl⟩ := hcall
    cases h
    obtain ⟨-, hold, hw'⟩ := getLogger_spec hw name
    exact ⟨hw', hold⟩
  case neg =>
    have htable := table_eq h fun name heq => hcall ⟨name, heq⟩
    exact ⟨by rw [Separate, htable]; exact hw, fun name p hp => by rw [htable]; exact hp⟩

theorem table_of_answer {calls : List LoggerCall} {answers : List LoggerAnswer} (hw : w.Separate)
    (hrun : run (callStep strftime) w calls = .ok (answers, w')) :
    w'.Separate ∧ (∀ name p, w.table name = some p → w'.table name = some p) ∧
      ∀ (i : ℕ) name p, calls[i]? = some (.getLogger name) → answers[i]? = some (.logger p) →
        w'.table name = some p := by
  induction calls generalizing w answers with
  | nil =>
      cases hrun
      exact ⟨hw, fun _ _ h => h, fun i name p hcall => by simp at hcall⟩
  | cons call calls ih =>
      obtain ⟨answer, answers, mid, hstep, hrest, rfl⟩ := run_cons_eq_ok hrun
      obtain ⟨hmid, hkeep⟩ := hw.step hstep
      obtain ⟨hw', hkept, hanswers⟩ := ih hmid hrest
      refine ⟨hw', fun name p hp => hkept name p (hkeep name p hp),
        fun i name p hcall hanswer => ?_⟩
      cases i with
      | succ i => exact hanswers i name p hcall hanswer
      | zero =>
          simp only [List.getElem?_cons_zero, Option.some.injEq] at hcall hanswer
          subst hcall hanswer
          cases hstep
          exact hkept name _ (getLogger_spec hw name).1

/-- In a run of any calls two calls of `getLogger` return the same logger exactly when they name the
same one. -/
theorem getLogger_stable (strftime : Text → ℕ → Text) (calls : List LoggerCall)
    {answers : List LoggerAnswer} {w : LogObjects}
    (hrun : run (callStep strftime) new calls = .ok (answers, w)) (i j : ℕ) (name name' : Text)
    (p q : ℕ) (hi : calls[i]? = some (.getLogger name)) (hp : answers[i]? = some (.logger p))
    (hj : calls[j]? = some (.getLogger name')) (hq : answers[j]? = some (.logger q)) :
    p = q ↔ name = name' := by
  obtain ⟨hseparate, -, hanswers⟩ := table_of_answer new_separate hrun
  have htable := hanswers i name p hi hp
  have htable' := hanswers j name' q hj hq
  constructor
  · rintro rfl
    exact hseparate name name' p htable htable'
  · rintro rfl
    exact Option.some.inj (htable.symm.trans htable')

/-- A logger that is asked for twice, with another one in between. -/
theorem getLogger_stable_twice : ∃ answers w,
    run (callStep fun _ _ => []) new
      [.getLogger ['a'], .getLogger ['b'], .getLogger ['a']] = .ok (answers, w) ∧
    answers[0]? = some (.logger 1) ∧ answers[2]? = some (.logger 1) ∧
    (1 = 1 ↔ ['a'] = ['a']) :=
  ⟨_, _, rfl, rfl, rfl,
    getLogger_stable (fun _ _ => []) [.getLogger ['a'], .getLogger ['b'], .getLogger ['a']] rfl 0 2
      ['a'] ['a'] 1 1 rfl rfl rfl rfl⟩

/-! ### Where an event goes -/

/-- Every logger but the root passes on to the root. -/
def Managed (w : LogObjects) : Prop :=
  ∀ p o, w.loggers[p]? = some o → o.root = if p = w.root then none else some w.root

def times (w : LogObjects) (p a : ℕ) : ℕ :=
  match w.loggers[p]? with
  | some o => o.appenders.count a
  | none => 0

/-- The logger whose appenders get an event that is logged at `p`. -/
def destination (w : LogObjects) (ev : LogEvent) (p : ℕ) : ℕ :=
  match w.loggers[p]? with
  | some o =>
      if o.level.toNat ≤ ev.level.toNat ∧ o.appenders = [] ∧ p ≠ w.root then w.root else p
  | none => p

/-- The level of an appender lets the event through. -/
def Hears (w : LogObjects) (ev : LogEvent) (a : ℕ) : Prop :=
  ∃ appender, w.appenders[a]? = some appender ∧ appender.level.toNat ≤ ev.level.toNat

instance (w : LogObjects) (ev : LogEvent) (a : ℕ) : Decidable (w.Hears ev a) :=
  decidable_of_iff (∃ appender ∈ w.appenders[a]?, appender.level.toNat ≤ ev.level.toNat)
    (by simp only [Option.mem_def, Hears])

/-- The appenders of a logger that write an event, in order. -/
def writers (w : LogObjects) (ev : LogEvent) (p : ℕ) : List ℕ :=
  match w.loggers[p]? with
  | some o => if o.level.toNat ≤ ev.level.toNat then o.appenders.filter (w.Hears ev) else []
  | none => []

/-- Each appender of a logger that is to write an event has a formatter. -/
def Formats (w : LogObjects) (ev : LogEvent) (p : ℕ) : Prop :=
  ∀ a ∈ w.writers ev p, ∀ appender, w.appenders[a]? = some appender → appender.formatter ≠ none

/-- The level of a logger lets the event through. -/
def Opens (w : LogObjects) (ev : LogEvent) (p : ℕ) : Prop :=
  ∃ o, w.loggers[p]? = some o ∧ o.level.toNat ≤ ev.level.toNat

end LogObjects

/-- How often a logger has an appender after a call, if it had it `n` times before. -/
def LoggerCall.timesAfter (p a n : ℕ) : LoggerCall → ℕ
  | .addAppender p' a' => if p' = p ∧ a' = a then n + 1 else n
  | .removeAppender p' a' => if p' = p ∧ a' = a then n - 1 else n
  | .clearAppenders p' => if p' = p then 0 else n
  | _ => n

/-- How often the calls of a run have left a logger with an appender. The first appender of all is
that of the root. -/
def LoggerCall.attachedTimes (calls : List LoggerCall) (p a : ℕ) : ℕ :=
  calls.foldl (fun n call => call.timesAfter p a n) (if p = 0 ∧ a = 0 then 1 else 0)

namespace LogObjects

variable {strftime : Text → ℕ → Text} {w w' : LogObjects} {call : LoggerCall}
variable {answer : LoggerAnswer} {ev : LogEvent} {p q a : ℕ}

theorem new_managed : new.Managed := by
  intro p o ho
  cases p with
  | zero =>
      cases ho
      rfl
  | succ p => simp [new] at ho

theorem times_new (p a : ℕ) : new.times p a = if p = 0 ∧ a = 0 then 1 else 0 := by
  cases p with
  | zero => cases a <;> simp [times, new]
  | succ p => simp [times, new]

theorem times_modifyLogger {f : LoggerNode → LoggerNode} {h : ∀ o, w.Valid o → w.Valid (f o)}
    {g : ℕ → ℕ} (hg : ∀ o, (f o).appenders.count a = g (o.appenders.count a))
    (hp : p < w.loggers.length) :
    (w.modifyLogger p f h).times q a = if p = q then g (w.times q a) else w.times q a := by
  simp only [times, modifyLogger, List.getElem?_modify]
  by_cases hpq : p = q
  case pos =>
    subst hpq
    simp [hp, hg]
  case neg => cases w.loggers[q]? <;> simp [hpq]

theorem Managed.modifyLogger (hw : w.Managed) {f : LoggerNode → LoggerNode}
    {h : ∀ o, w.Valid o → w.Valid (f o)} (hf : ∀ o, (f o).root = o.root) :
    (w.modifyLogger p f h).Managed := by
  intro q o ho
  simp only [LogObjects.modifyLogger, List.getElem?_modify] at ho
  obtain ⟨o', ho', rfl⟩ := Option.map_eq_some_iff.mp ho
  have hroot := hw q o' ho'
  split
  · rw [hf]
    exact hroot
  · exact hroot

theorem managed_getLogger (hw : w.Managed) (name : Text) : (w.getLogger name).2.Managed := by
  rw [getLogger]
  split
  · exact hw
  · intro q o ho
    simp only [addLogger] at ho
    rw [List.getElem?_append] at ho
    split at ho
    case isTrue hlt => exact hw q o ho
    case isFalse hge =>
      obtain ⟨-, rfl⟩ : q - w.loggers.length = 0 ∧ _ = o := by
        simpa [List.getElem?_singleton] using ho
      have hne : q ≠ w.root := by
        have := w.root_lt
        omega
      simp [addLogger, hne]

theorem times_getLogger (name : Text) : (w.getLogger name).2.times q a = w.times q a := by
  rw [getLogger]
  split
  · rfl
  · by_cases hlt : q < w.loggers.length
    case pos => simp only [times, addLogger, List.getElem?_append_left hlt]
    case neg =>
      have hle : w.loggers.length ≤ q := Nat.not_lt.mp hlt
      simp only [times, addLogger, List.getElem?_append_right hle, List.getElem?_eq_none hle]
      cases q - w.loggers.length with
      | zero => rfl
      | succ d => rfl

/-- What a call does to the appenders of a logger, and that it keeps the order. -/
theorem callStep_spec (hw : w.Managed) (h : w.callStep strftime call = .ok (answer, w'))
    (hcall : ¬ call.SetsRoot) :
    w'.Managed ∧ w'.root = w.root ∧ w'.times q a = call.timesAfter q a (w.times q a) := by
  cases call with
  | getLogger name =>
      cases h
      refine ⟨managed_getLogger hw name, ?_, times_getLogger name⟩
      rw [getLogger]
      split <;> rfl
  | newAppender kind =>
      cases h
      exact ⟨hw, rfl, rfl⟩
  | setAppenderLevel a' level =>
      obtain ⟨-, heq⟩ := of_guard h
      cases heq
      exact ⟨hw, rfl, rfl⟩
  | setAppenderFormatter a' formatter =>
      obtain ⟨-, heq⟩ := of_guard h
      cases heq
      exact ⟨hw, rfl, rfl⟩
  | setLevel p level =>
      obtain ⟨hp, heq⟩ := of_guard h
      cases heq
      have htimes : (w.setLevel p level).times q a = if p = q then _ else _ :=
        times_modifyLogger (g := id) (fun _ => rfl) hp
      exact ⟨hw.modifyLogger fun _ => rfl, rfl, htimes.trans (ite_self _)⟩
  | setFormatter p formatter =>
      obtain ⟨hp, heq⟩ := of_guard h
      cases heq
      have htimes : (w.setFormatter p formatter).times q a = if p = q then _ else _ :=
        times_modifyLogger (g := id) (fun _ => rfl) hp
      exact ⟨hw.modifyLogger fun _ => rfl, rfl, htimes.trans (ite_self _)⟩
  | setLogger p root => exact absurd trivial hcall
  | addAppender p a' =>
      rw [callStep] at h
      split at h
      case isFalse => cases h
      case isTrue hp =>
        cases h
        have hhanded : (w.handFormatter ⟨p, hp.1⟩ a').Managed := hw
        have hcount : ∀ o : LoggerNode, (o.appenders ++ [a']).count a =
            o.appenders.count a + if a' = a then 1 else 0 := fun o => by
          rw [List.count_append, List.count_singleton]
          simp only [beq_iff_eq]
        refine ⟨hhanded.modifyLogger fun _ => rfl, rfl, ?_⟩
        have htimes : (w.addAppender ⟨p, hp.1⟩ ⟨a', hp.2⟩).times q a =
            if p = q then w.times q a + (if a' = a then 1 else 0) else w.times q a :=
          times_modifyLogger (w := w.handFormatter ⟨p, hp.1⟩ a')
            (g := fun n => n + if a' = a then 1 else 0) hcount hp.1
        refine htimes.trans ?_
        rw [LoggerCall.timesAfter]
        by_cases hpq : p = q <;> by_cases ha : a' = a <;> simp [hpq, ha]
  | removeAppender p a' =>
      obtain ⟨hp, heq⟩ := of_guard h
      cases heq
      have hcount : ∀ o : LoggerNode, (o.appenders.erase a').count a =
          o.appenders.count a - if a' = a then 1 else 0 := fun o => by
        rw [List.count_erase]
        simp only [beq_iff_eq]
      refine ⟨hw.modifyLogger fun _ => rfl, rfl, ?_⟩
      refine (times_modifyLogger (g := fun n => n - if a' = a then 1 else 0) hcount hp).trans ?_
      rw [LoggerCall.timesAfter]
      by_cases hpq : p = q <;> by_cases ha : a' = a <;> simp [hpq, ha]
  | clearAppenders p =>
      obtain ⟨hp, heq⟩ := of_guard h
      cases heq
      exact ⟨hw.modifyLogger fun _ => rfl, rfl, times_modifyLogger (g := fun _ => 0)
        (fun _ => rfl) hp⟩
  | log p ev =>
      rw [callStep] at h
      split at h
      · cases h
        exact ⟨hw, rfl, rfl⟩
      · cases h

theorem run_spec {calls : List LoggerCall} {answers : List LoggerAnswer} (hw : w.Managed)
    (hrun : run (callStep strftime) w calls = .ok (answers, w'))
    (hcalls : ∀ call ∈ calls, ¬ call.SetsRoot) :
    w'.Managed ∧ w'.root = w.root ∧
      w'.times q a = calls.foldl (fun n call => call.timesAfter q a n) (w.times q a) := by
  induction calls generalizing w answers with
  | nil =>
      cases hrun
      exact ⟨hw, rfl, rfl⟩
  | cons call calls ih =>
      obtain ⟨answer, answers, mid, hstep, hrest, rfl⟩ := run_cons_eq_ok hrun
      rw [List.forall_mem_cons] at hcalls
      obtain ⟨hmid, hroot, htimes⟩ := callStep_spec (q := q) (a := a) hw hstep hcalls.1
      obtain ⟨hw', hroot', htimes'⟩ := ih hmid hrest hcalls.2
      exact ⟨hw', hroot'.trans hroot, by rw [List.foldl_cons, ← htimes, htimes']⟩

theorem Managed.not_passes_root (hw : w.Managed) : ¬ w.Passes ev w.root q := by
  rintro ⟨o, ho, -, -, hq⟩
  have hroot := hw w.root o ho
  rw [if_pos rfl, hq] at hroot
  cases hroot

/-- No event comes back, and each is written by its destination. -/
theorem Managed.log_eq (hw : w.Managed) (p : Fin w.loggers.length) :
    w.log strftime p ev = w.own strftime (w.destination ev p) ev := by
  have ho : w.loggers[(p : ℕ)]? = some w.loggers[p] := List.getElem?_eq_getElem p.isLt
  have hend : ∀ q, ReflTransGen (w.Passes ev) p q → (∀ r, ¬ w.Passes ev q r) →
      w.log strftime p ev = w.own strftime q ev := fun q => w.log_of_end strftime p
  by_cases hpass : w.loggers[p].level.toNat ≤ ev.level.toNat ∧ w.loggers[p].appenders = [] ∧
      (p : ℕ) ≠ w.root
  case pos =>
    have hdest : w.destination ev p = w.root := by
      rw [destination, ho]
      exact if_pos hpass
    rw [hdest]
    have hroot := hw p _ ho
    rw [if_neg hpass.2.2] at hroot
    exact hend w.root (.single ⟨_, ho, hpass.1, hpass.2.1, hroot⟩) fun r => hw.not_passes_root
  case neg =>
    have hdest : w.destination ev p = p := by
      rw [destination, ho]
      exact if_neg hpass
    rw [hdest]
    refine hend p .refl fun r hr => hpass ?_
    obtain ⟨o, ho', hle, hempty, -⟩ := id hr
    rw [ho] at ho'
    cases ho'
    exact ⟨hle, hempty, fun heq => hw.not_passes_root (heq ▸ hr)⟩

/-- What is written has the classes and files of the appenders that write. -/
theorem own_kinds {lines : Lines} (h : w.own strftime p ev = .ok lines) :
    lines.map Prod.fst = (w.writers ev p).filterMap fun a => w.appenders[a]?.map (·.kind) := by
  rw [own] at h
  rw [writers]
  split at h
  case h_1 => cases h
  case h_2 o ho =>
    rw [ho]
    dsimp only
    split at h
    case isFalse hlow =>
      cases h
      rw [if_neg hlow]
      rfl
    case isTrue hle =>
      rw [if_pos hle]
      rw [write] at h
      split at h
      case h_2 => cases h
      case h_1 result hfold =>
        cases h
        have hformatters := Logger.formatter_of_foldlM hfold
        obtain ⟨out, ev', hout, hkinds⟩ :=
          @Logger.foldlM_logRound strftime o.name ev (w.attached o) [] hformatters
        rw [hfold] at hout
        cases hout
        rw [List.nil_append, hkinds, attached]
        -- the appenders are filtered by their levels before or after they are looked up
        induction o.appenders with
        | nil => rfl
        | cons a as ih =>
            cases hget : w.appenders[a]? with
            | none =>
                have hdeaf : ¬ w.Hears ev a := by
                  rintro ⟨_, hsome, -⟩
                  rw [hget] at hsome
                  cases hsome
                simpa [hget, hdeaf] using ih
            | some appender =>
                by_cases hears : appender.level.toNat ≤ ev.level.toNat
                case pos =>
                  have hhears : w.Hears ev a := ⟨appender, hget, hears⟩
                  simpa [hget, hears, hhears] using ih
                case neg =>
                  have hdeaf : ¬ w.Hears ev a := by
                    rintro ⟨_, hsome, hle⟩
                    rw [hget] at hsome
                    cases hsome
                    exact hears hle
                  simpa [hget, hears, hdeaf] using ih

theorem mem_writers_iff {o : LoggerNode} (ho : w.loggers[p]? = some o)
    (hle : o.level.toNat ≤ ev.level.toNat) :
    a ∈ w.writers ev p ↔ a ∈ o.appenders ∧ w.Hears ev a := by
  rw [writers, ho]
  dsimp only
  rw [if_pos hle, List.mem_filter, decide_eq_true_iff]

/-- A logger gets through with an event exactly if those that are to write it have formatters. -/
theorem own_returns_iff (hp : p < w.loggers.length) :
    (∃ lines, w.own strftime p ev = .ok lines) ↔ w.Formats ev p := by
  have ho : w.loggers[p]? = some w.loggers[p] := List.getElem?_eq_getElem hp
  rw [own, ho]
  dsimp only
  split
  case isFalse hlow =>
    refine iff_of_true ⟨[], rfl⟩ fun a ha => ?_
    rw [writers, ho] at ha
    dsimp only at ha
    rw [if_neg hlow] at ha
    cases ha
  case isTrue hle =>
    have hformats : w.Formats ev p ↔ ∀ appender ∈ w.attached w.loggers[p],
        appender.level.toNat ≤ ev.level.toNat → appender.formatter ≠ none := by
      simp only [Formats, mem_writers_iff ho hle, attached, List.mem_filterMap]
      constructor
      · rintro h appender ⟨a, ha, hget⟩ hears
        exact h a ⟨ha, appender, hget, hears⟩ appender hget
      · rintro h a ⟨ha, appender, hget, hears⟩ appender' hget'
        rw [hget] at hget'
        cases hget'
        exact h appender ⟨a, ha, hget⟩ hears
    rw [hformats, write]
    constructor
    · rintro ⟨lines, h⟩
      split at h
      case h_1 hfold => exact Logger.formatter_of_foldlM hfold
      case h_2 => cases h
    · intro h
      obtain ⟨out, ev', hout, -⟩ :=
        @Logger.foldlM_logRound strftime w.loggers[p].name ev (w.attached w.loggers[p]) [] h
      rw [hout]
      exact ⟨_, rfl⟩

theorem destination_lt (ev : LogEvent) (p : Fin w.loggers.length) :
    w.destination ev p < w.loggers.length := by
  rw [destination, List.getElem?_eq_getElem p.isLt]
  dsimp only
  split
  · exact w.root_lt
  · exact p.isLt

theorem count_writers (p a : ℕ) :
    (w.Opens ev p ∧ w.Hears ev a → (w.writers ev p).count a = w.times p a) ∧
      (¬ (w.Opens ev p ∧ w.Hears ev a) → (w.writers ev p).count a = 0) := by
  rw [writers, times]
  cases ho : w.loggers[p]? with
  | none => exact ⟨fun _ => rfl, fun _ => rfl⟩
  | some o =>
      dsimp only
      split
      case isFalse hlow =>
        refine ⟨fun ⟨⟨o', ho', hle⟩, _⟩ => ?_, fun _ => rfl⟩
        rw [ho] at ho'
        cases ho'
        exact absurd hle hlow
      case isTrue hle =>
        refine ⟨fun ⟨_, hhears⟩ => ?_, fun hnot => ?_⟩
        · exact List.count_filter (by simpa using hhears)
        · rw [List.count_eq_zero, List.mem_filter]
          rintro ⟨-, hhears⟩
          exact hnot ⟨⟨o, ho, hle⟩, by simpa using hhears⟩

/-- In a run of calls that set no `root_`, an event goes to the appenders of its logger, or of the
root if that one has none, and to each as often as it was added and not removed since, if the
levels let the event through. They all write it, and `log` returns, exactly if each of these
has a formatter. -/
theorem run_delivers (strftime : Text → ℕ → Text) (calls : List LoggerCall)
    (hcalls : ∀ call ∈ calls, ¬ call.SetsRoot) {answers : List LoggerAnswer} {w : LogObjects}
    (hrun : run (callStep strftime) new calls = .ok (answers, w)) (p : Fin w.loggers.length)
    (ev : LogEvent) :
    w.log strftime p ev = w.own strftime (w.destination ev p) ev ∧
      ((∃ lines, w.log strftime p ev = .ok lines) ↔ w.Formats ev (w.destination ev p)) ∧
      (∀ lines, w.log strftime p ev = .ok lines → lines.map Prod.fst =
        (w.writers ev (w.destination ev p)).filterMap fun a => w.appenders[a]?.map (·.kind)) ∧
      ∀ q a, (w.Opens ev q ∧ w.Hears ev a →
          (w.writers ev q).count a = LoggerCall.attachedTimes calls q a) ∧
        (¬ (w.Opens ev q ∧ w.Hears ev a) → (w.writers ev q).count a = 0) := by
  obtain ⟨hmanaged, -, -⟩ := run_spec (q := 0) (a := 0) new_managed hrun hcalls
  have hlog : w.log strftime p ev = w.own strftime (w.destination ev p) ev := hmanaged.log_eq p
  refine ⟨hlog, ?_, fun lines hlines => ?_, fun q a => ?_⟩
  · rw [hlog]
    exact own_returns_iff (destination_lt ev p)
  · rw [hlog] at hlines
    exact own_kinds hlines
  · obtain ⟨-, -, htimes⟩ := run_spec (q := q) (a := a) new_managed hrun hcalls
    rw [times_new] at htimes
    rw [LoggerCall.attachedTimes, ← htimes]
    exact count_writers q a

/-- A logger that has an appender once, after it was added twice and removed once. -/
theorem run_delivers_once : ∃ answers w,
    run (callStep fun _ _ => []) new
      [.getLogger ['a'], .newAppender (.fileLogAppender ['f']), .addAppender 1 1, .addAppender 1 1,
        .removeAppender 1 1] = .ok (answers, w) ∧
    w.destination ⟨.LINFO, [], [], 0, 0, 0, [], {}, false⟩ 1 = 1 ∧
    (w.writers ⟨.LINFO, [], [], 0, 0, 0, [], {}, false⟩ 1).count 1 = 1 :=
  ⟨_, _, rfl, rfl, (((run_delivers (fun _ _ => []) [.getLogger ['a'],
    .newAppender (.fileLogAppender ['f']), .addAppender 1 1, .addAppender 1 1, .removeAppender 1 1]
    (by simp [LoggerCall.SetsRoot]) rfl ⟨1, by decide⟩
    ⟨.LINFO, [], [], 0, 0, 0, [], {}, false⟩).2.2.2 1 1).1
    ⟨⟨_, rfl, by decide⟩, ⟨_, rfl, by decide⟩⟩)⟩

end LogObjects

end LpNet
