import LpNet.Lib.LockOrder
import LpNet.Logger.Manager
import Mathlib.Data.Fintype.Fin

/-!
The loggers and appenders of a program as the objects they are, and the way of an event.

A logger without appenders passes an event on to its `root_`, holding its mutex, and
`setLogger` may set any `root_`: an event that comes back to a logger finds the mutex
locked. `log_cases` says which events do, and where the others are written.
`run_delivers` is the law of the loggers that a manager makes as long as no `root_` is set by
hand, and `view_logFrom` leads back to `LogManager`, which keeps appenders by value.
-/

namespace LpNet

open LockOrder Relation Transition

inductive LogFault
  /-- The mutex is held by the thread that locks it. -/
  | deadlock
  | fault (fault : Fault)
  deriving DecidableEq, Repr

/-- A `Logger`. Its appenders and its `root_` are pointers. -/
structure LoggerNode where
  name : Text
  level : LogLevel := .LDEBUG
  appenders : List ℕ := []
  formatter : Option LogFormatter := some (.new LogFormatter.kDefaultFormatPattern)
  root : Option ℕ := none
  deriving DecidableEq, Repr

/-- The loggers and appenders that were made, and the table and the root of the manager. A
pointer is a place in a list. -/
structure LogObjects where
  loggers : List LoggerNode
  appenders : List LogAppender
  table : Text → Option ℕ
  root : ℕ
  table_lt : ∀ name p, table name = some p → p < loggers.length
  root_lt : root < loggers.length
  roots_lt : ∀ o ∈ loggers, ∀ r, o.root = some r → r < loggers.length
  appenders_lt : ∀ o ∈ loggers, ∀ a ∈ o.appenders, a < appenders.length

namespace LogObjects

/-- The constructor of `LogManager`. The formatter of its appender is that of the root. -/
def new : LogObjects where
  loggers := [{ name := "root".toList, appenders := [0] }]
  appenders := [({ kind := .stdoutLogAppender } : LogAppender).setFormatter
    (some (.new LogFormatter.kDefaultFormatPattern))]
  table name := if name = "root".toList then some 0 else none
  root := 0
  table_lt name p h := by
    split at h
    · cases h
      exact Nat.zero_lt_one
    · cases h
  root_lt := Nat.zero_lt_one
  roots_lt o ho r hr := by
    rw [List.mem_singleton] at ho
    subst ho
    cases hr
  appenders_lt o ho a ha := by
    rw [List.mem_singleton] at ho
    subst ho
    rw [List.mem_singleton] at ha
    subst ha
    exact Nat.zero_lt_one

def addLogger (w : LogObjects) (name : Text) : LogObjects where
  loggers := w.loggers ++ [{ name := name, root := some w.root }]
  appenders := w.appenders
  table := Function.update w.table name (some w.loggers.length)
  root := w.root
  table_lt name' p h := by
    rw [List.length_append, List.length_singleton]
    by_cases heq : name' = name
    case pos =>
      subst heq
      rw [Function.update_self] at h
      cases h
      exact Nat.lt_succ_self _
    case neg =>
      rw [Function.update_of_ne heq] at h
      exact Nat.lt_succ_of_lt (w.table_lt name' p h)
  root_lt := by
    rw [List.length_append]
    exact Nat.lt_add_right _ w.root_lt
  roots_lt o ho r hr := by
    rw [List.length_append]
    rcases List.mem_append.mp ho with hold | hnew
    · exact Nat.lt_add_right _ (w.roots_lt o hold r hr)
    · rw [List.mem_singleton] at hnew
      subst hnew
      cases hr
      exact Nat.lt_add_right _ w.root_lt
  appenders_lt o ho a ha := by
    rcases List.mem_append.mp ho with hold | hnew
    · exact w.appenders_lt o hold a ha
    · rw [List.mem_singleton] at hnew
      subst hnew
      cases ha

def getLogger (w : LogObjects) (name : Text) : ℕ × LogObjects :=
  match w.table name with
  | some p => (p, w)
  | none => (w.loggers.length, w.addLogger name)

/-- `make_shared` of an appender of this class. -/
def newAppender (w : LogObjects) (kind : AppenderKind) : ℕ × LogObjects :=
  (w.appenders.length,
    { w with
      appenders := w.appenders ++ [{ kind := kind }]
      appenders_lt := fun o ho a ha => by
        rw [List.length_append]
        exact Nat.lt_add_right _ (w.appenders_lt o ho a ha) })

def modifyAppender (w : LogObjects) (a : ℕ) (f : LogAppender → LogAppender) : LogObjects :=
  { w with
    appenders := w.appenders.modify a f
    appenders_lt := fun o ho a ha => by
      rw [List.length_modify]
      exact w.appenders_lt o ho a ha }

/-- The pointers of a logger lead to objects. -/
structure Valid (w : LogObjects) (o : LoggerNode) : Prop where
  root_lt : ∀ r, o.root = some r → r < w.loggers.length
  appenders_lt : ∀ a ∈ o.appenders, a < w.appenders.length

theorem valid_of_mem (w : LogObjects) {o : LoggerNode} (ho : o ∈ w.loggers) : w.Valid o :=
  ⟨w.roots_lt o ho, w.appenders_lt o ho⟩

theorem valid_of_mem_modify (w : LogObjects) {p : ℕ} {f : LoggerNode → LoggerNode}
    (h : ∀ o, w.Valid o → w.Valid (f o)) {o : LoggerNode} (ho : o ∈ w.loggers.modify p f) :
    w.Valid o := by
  obtain ⟨i, hi, rfl⟩ := List.mem_iff_getElem.mp ho
  rw [List.length_modify] at hi
  rw [List.getElem_modify]
  split
  · exact h _ (w.valid_of_mem (List.getElem_mem hi))
  · exact w.valid_of_mem (List.getElem_mem hi)

def modifyLogger (w : LogObjects) (p : ℕ) (f : LoggerNode → LoggerNode)
    (h : ∀ o, w.Valid o → w.Valid (f o)) : LogObjects :=
  { w with
    loggers := w.loggers.modify p f
    table_lt := fun name p' hp => by
      rw [List.length_modify]
      exact w.table_lt name p' hp
    root_lt := by
      rw [List.length_modify]
      exact w.root_lt
    roots_lt := fun o ho r hr => by
      rw [List.length_modify]
      exact (valid_of_mem_modify w h ho).root_lt r hr
    appenders_lt := fun o ho a ha => (valid_of_mem_modify w h ho).appenders_lt a ha }

def setLevel (w : LogObjects) (p : ℕ) (level : LogLevel) : LogObjects :=
  w.modifyLogger p (fun o => { o with level := level }) fun _ h => ⟨h.root_lt, h.appenders_lt⟩

def setFormatter (w : LogObjects) (p : ℕ) (formatter : Option LogFormatter) : LogObjects :=
  w.modifyLogger p (fun o => { o with formatter := formatter }) fun _ h =>
    ⟨h.root_lt, h.appenders_lt⟩

/-- `setLogger(pLogger)`, which sets `root_`. -/
def setLogger (w : LogObjects) (p : ℕ) (root : Option (Fin w.loggers.length)) : LogObjects :=
  w.modifyLogger p (fun o => { o with root := root.map Fin.val }) fun _ h =>
    ⟨fun r hr => by
      obtain ⟨r, -, rfl⟩ := Option.map_eq_some_iff.mp hr
      exact r.isLt, h.appenders_lt⟩

def clearAppenders (w : LogObjects) (p : ℕ) : LogObjects :=
  w.modifyLogger p (fun o => { o with appenders := [] }) fun _ h =>
    ⟨h.root_lt, fun _ ha => by cases ha⟩

/-- `removeAppender(pAppender)`, which removes the first one. -/
def removeAppender (w : LogObjects) (p a : ℕ) : LogObjects :=
  w.modifyLogger p (fun o => { o with appenders := o.appenders.erase a }) fun _ h =>
    ⟨h.root_lt, fun a ha => h.appenders_lt a (List.mem_of_mem_erase ha)⟩

/-- An appender without a formatter is given that of a logger. -/
def handFormatter (w : LogObjects) (p : Fin w.loggers.length) (a : ℕ) : LogObjects :=
  w.modifyAppender a fun appender =>
    if appender.formatter.isNone then appender.setFormatter w.loggers[p].formatter else appender

def addAppender (w : LogObjects) (p : Fin w.loggers.length) (a : Fin w.appenders.length) :
    LogObjects :=
  (w.handFormatter p a).modifyLogger p (fun o => { o with appenders := o.appenders ++ [a.val] })
    fun _ h => ⟨h.root_lt, fun a' ha' => by
      rcases List.mem_append.mp ha' with hold | hnew
      · exact h.appenders_lt a' hold
      · rw [List.mem_singleton] at hnew
        rw [hnew, handFormatter, modifyAppender, List.length_modify]
        exact a.isLt⟩

def attached (w : LogObjects) (o : LoggerNode) : List LogAppender :=
  o.appenders.filterMap fun a => w.appenders[a]?

def write (w : LogObjects) (strftime : Text → ℕ → Text) (o : LoggerNode) (ev : LogEvent) :
    Except LogFault Lines :=
  match (w.attached o).foldlM (Logger.logRound strftime o.name) ([], ev) with
  | .ok (lines, _) => .ok lines
  | .error e => .error (.fault e)

/-- `log(pEvent)` of the logger at `p`, by a thread that holds the mutexes of the loggers `held`,
with a number of loggers that the event may come to. -/
def logFrom (w : LogObjects) (strftime : Text → ℕ → Text) (ev : LogEvent) :
    ℕ → List ℕ → ℕ → Except LogFault Lines
  | 0, _, _ => .error (.fault .diverges)
  | fuel + 1, held, p =>
      match w.loggers[p]? with
      | none => .error (.fault .useAfterFree)
      | some o =>
          if o.level.toNat ≤ ev.level.toNat then
            if p ∈ held then .error .deadlock
            else if o.appenders.isEmpty then
              match o.root with
              | some root => w.logFrom strftime ev fuel (p :: held) root
              | none => .ok []
            else w.write strftime o ev
          else .ok []

/-- `log(pEvent)`. An event comes to no more loggers than there are before it comes to one again. -/
def log (w : LogObjects) (strftime : Text → ℕ → Text) (p : ℕ) (ev : LogEvent) :
    Except LogFault Lines :=
  w.logFrom strftime ev (w.loggers.length + 1) [] p

/-! ### The way of an event -/

def Passes (w : LogObjects) (ev : LogEvent) (p q : ℕ) : Prop :=
  ∃ o, w.loggers[p]? = some o ∧ o.level.toNat ≤ ev.level.toNat ∧ o.appenders = [] ∧
    o.root = some q

def own (w : LogObjects) (strftime : Text → ℕ → Text) (p : ℕ) (ev : LogEvent) :
    Except LogFault Lines :=
  match w.loggers[p]? with
  | none => .error (.fault .useAfterFree)
  | some o => if o.level.toNat ≤ ev.level.toNat then w.write strftime o ev else .ok []

variable {w : LogObjects} {strftime : Text → ℕ → Text} {ev : LogEvent} {p q : ℕ}

theorem passes_rightUnique : Relator.RightUnique (w.Passes ev) := by
  rintro p q r ⟨o, ho, -, -, hq⟩ ⟨o', ho', -, -, hr⟩
  rw [ho] at ho'
  cases ho'
  exact Option.some.inj (hq.symm.trans hr)

theorem lt_of_passes (h : w.Passes ev p q) : q < w.loggers.length := by
  obtain ⟨o, ho, -, -, hq⟩ := h
  exact w.roots_lt o (List.mem_of_getElem? ho) q hq

theorem write_eq_nil {o : LoggerNode} (h : o.appenders = []) :
    w.write strftime o ev = .ok [] := by
  rw [write, attached, h]
  rfl

theorem cycle_of_reaches (hcycle : TransGen (w.Passes ev) p p)
    (h : ReflTransGen (w.Passes ev) p q) : TransGen (w.Passes ev) q q := by
  induction h with
  | refl => exact hcycle
  | tail _ hqr ih =>
      obtain ⟨s, hqs, hsq⟩ := TransGen.head'_iff.mp ih
      obtain rfl := passes_rightUnique hqr hqs
      exact TransGen.tail' hsq hqr

theorem logFrom_cases {fuel : ℕ} {held : List ℕ} (hp : p < w.loggers.length)
    (hnodup : held.Nodup) (hheld : ∀ h ∈ held, h < w.loggers.length ∧ TransGen (w.Passes ev) h p)
    (hfuel : w.loggers.length < fuel + held.length) :
    (w.logFrom strftime ev fuel held p = .error .deadlock ∧
        ∃ q, ReflTransGen (w.Passes ev) p q ∧ TransGen (w.Passes ev) q q) ∨
      ∃ q, ReflTransGen (w.Passes ev) p q ∧ (∀ r, ¬ w.Passes ev q r) ∧
        w.logFrom strftime ev fuel held p = w.own strftime q ev := by
  induction fuel generalizing p held with
  | zero =>
      have hle : held.length ≤ w.loggers.length := by
        have hsub : held ⊆ List.range w.loggers.length := fun h hh =>
          List.mem_range.mpr (hheld h hh).1
        simpa using (List.subperm_of_subset hnodup hsub).length_le
      omega
  | succ fuel ih =>
      have ho : w.loggers[p]? = some w.loggers[p] := List.getElem?_eq_getElem hp
      rw [logFrom, ho]
      dsimp only
      split
      case isFalse hlow =>
        refine .inr ⟨p, .refl, fun r hr => ?_, by rw [own, ho]; exact (if_neg hlow).symm⟩
        obtain ⟨o, ho', hle, -⟩ := hr
        rw [ho] at ho'
        cases ho'
        exact hlow hle
      case isTrue hle =>
        split
        case isTrue hmem => exact .inl ⟨rfl, p, .refl, (hheld p hmem).2⟩
        case isFalse hnew =>
          split
          case isFalse hne =>
            refine .inr ⟨p, .refl, fun r hr => ?_, by rw [own, ho]; exact (if_pos hle).symm⟩
            obtain ⟨o, ho', -, hempty, -⟩ := hr
            rw [ho] at ho'
            cases ho'
            exact hne (by rw [hempty]; rfl)
          case isTrue hempty =>
            rw [List.isEmpty_iff] at hempty
            cases hroot : w.loggers[p].root with
            | none =>
                dsimp only
                refine .inr ⟨p, .refl, fun r hr => ?_, ?_⟩
                · obtain ⟨o, ho', -, -, hr⟩ := hr
                  rw [ho] at ho'
                  cases ho'
                  rw [hroot] at hr
                  cases hr
                · rw [own, ho]
                  dsimp only
                  rw [if_pos hle, write_eq_nil hempty]
            | some root =>
                have hpass : w.Passes ev p root := ⟨_, ho, hle, hempty, hroot⟩
                have hheld' : ∀ h ∈ p :: held,
                    h < w.loggers.length ∧ TransGen (w.Passes ev) h root := by
                  intro h hh
                  rcases List.mem_cons.mp hh with rfl | hold
                  · exact ⟨hp, .single hpass⟩
                  · exact ⟨(hheld h hold).1, (hheld h hold).2.tail hpass⟩
                have hnext := ih (lt_of_passes hpass) (List.nodup_cons.mpr ⟨hnew, hnodup⟩) hheld'
                  (by rw [List.length_cons]; omega)
                rcases hnext with ⟨heq, q, hq, hcycle⟩ | ⟨q, hq, hend, heq⟩
                · exact .inl ⟨heq, q, .head hpass hq, hcycle⟩
                · exact .inr ⟨q, .head hpass hq, hend, heq⟩

theorem own_ne_deadlock : w.own strftime p ev ≠ .error .deadlock := by
  rw [own]
  split
  · exact fun h => by cases h
  · split
    · rw [write]
      split <;> exact fun h => by cases h
    · exact fun h => by cases h

/-- A cycle and an end exclude each other, since an event is passed on to one logger only. -/
theorem not_end_of_cycle {r : ℕ} (hq : ReflTransGen (w.Passes ev) p q)
    (hcycle : TransGen (w.Passes ev) q q) (hr : ReflTransGen (w.Passes ev) p r)
    (hend : ∀ s, ¬ w.Passes ev r s) : False := by
  rcases hq.total_of_right_unique passes_rightUnique hr with hqr | hrq
  · obtain ⟨s, hs, -⟩ := TransGen.head'_iff.mp (cycle_of_reaches hcycle hqr)
    exact hend s hs
  · rcases hrq.cases_head with rfl | ⟨s, hs, -⟩
    · obtain ⟨s, hs, -⟩ := TransGen.head'_iff.mp hcycle
      exact hend s hs
    · exact hend s hs

theorem end_unique {r : ℕ} (hq : ReflTransGen (w.Passes ev) p q)
    (hend : ∀ s, ¬ w.Passes ev q s) (hr : ReflTransGen (w.Passes ev) p r)
    (hend' : ∀ s, ¬ w.Passes ev r s) : r = q := by
  rcases hq.total_of_right_unique passes_rightUnique hr with hqr | hrq
  · rcases hqr.cases_head with rfl | ⟨s, hs, -⟩
    · rfl
    · exact absurd hs (hend s)
  · rcases hrq.cases_head with rfl | ⟨s, hs, -⟩
    · rfl
    · exact absurd hs (hend' s)

theorem log_result (w : LogObjects) (strftime : Text → ℕ → Text) (p : Fin w.loggers.length)
    (ev : LogEvent) :
    (w.log strftime p ev = .error .deadlock ∧
        ∃ q, ReflTransGen (w.Passes ev) p q ∧ TransGen (w.Passes ev) q q) ∨
      ∃ q, ReflTransGen (w.Passes ev) p q ∧ (∀ r, ¬ w.Passes ev q r) ∧
        w.log strftime p ev = w.own strftime q ev :=
  logFrom_cases p.isLt List.nodup_nil (fun h hh => by cases hh) (by simp)

/-- The last logger that an event comes to writes it. -/
theorem log_of_end (w : LogObjects) (strftime : Text → ℕ → Text) (p : Fin w.loggers.length)
    (hq : ReflTransGen (w.Passes ev) p q) (hend : ∀ r, ¬ w.Passes ev q r) :
    w.log strftime p ev = w.own strftime q ev := by
  rcases w.log_result strftime p ev with ⟨-, r, hr, hcycle⟩ | ⟨r, hr, hend', heq⟩
  · exact (not_end_of_cycle hr hcycle hq hend).elim
  · rw [heq, end_unique hq hend hr hend']

/-- An event that is logged comes back to a logger whose mutex is held exactly when the loggers
that it is passed on by form a cycle, and is written by the last of them otherwise. -/
theorem log_cases (w : LogObjects) (strftime : Text → ℕ → Text) (p : Fin w.loggers.length)
    (ev : LogEvent) :
    (w.log strftime p ev = .error .deadlock ↔
        ∃ q, ReflTransGen (w.Passes ev) p q ∧ TransGen (w.Passes ev) q q) ∧
      ∀ q, ReflTransGen (w.Passes ev) p q → (∀ r, ¬ w.Passes ev q r) →
        w.log strftime p ev = w.own strftime q ev := by
  refine ⟨?_, fun q => w.log_of_end strftime p⟩
  rcases w.log_result strftime p ev with ⟨heq, hcycle⟩ | ⟨q, hq, hend, heq⟩
  · exact iff_of_true heq hcycle
  · refine iff_of_false ?_ fun ⟨r, hr, hcycle⟩ => not_end_of_cycle hr hcycle hq hend
    rw [heq]
    exact own_ne_deadlock

/-! ### The loggers by value -/

/-- The manager with the appenders of each logger in place. -/
def view (w : LogObjects) : LogManager where
  objects := w.loggers.map fun o => ⟨⟨o.name, o.level, w.attached o, o.formatter⟩, o.root⟩
  loggers := w.table
  root := w.root
  valid name p h := by
    rw [List.length_map]
    exact w.table_lt name p h

theorem attached_eq_nil_iff {o : LoggerNode} (h : w.Valid o) :
    w.attached o = [] ↔ o.appenders = [] := by
  rw [attached, List.filterMap_eq_nil_iff, List.eq_nil_iff_forall_not_mem]
  refine forall_congr' fun a => ⟨fun hnone ha => ?_, fun hnot ha => absurd ha hnot⟩
  have hsome := List.getElem?_eq_getElem (h.appenders_lt a ha)
  rw [hnone ha] at hsome
  cases hsome

/-- What is written of an event that is logged, the manager that keeps appenders by value writes
as well. -/
theorem view_logFrom {fuel : ℕ} {held : List ℕ} {lines : Lines}
    (h : w.logFrom strftime ev fuel held p = .ok lines) :
    w.view.log strftime fuel p ev = .ok lines := by
  induction fuel generalizing p held with
  | zero => cases h
  | succ fuel ih =>
      rw [logFrom] at h
      rw [LogManager.log]
      simp only [view, List.getElem?_map]
      cases ho : w.loggers[p]? with
      | none =>
          rw [ho] at h
          cases h
      | some o =>
          rw [ho] at h
          have hvalid := w.valid_of_mem (List.mem_of_getElem? ho)
          dsimp only [Option.map_some] at h ⊢
          split at h
          case isFalse hlow =>
            cases h
            rw [if_neg hlow]
          case isTrue hle =>
            rw [if_pos hle]
            split at h
            case isTrue => cases h
            case isFalse =>
              split at h
              case isTrue hempty =>
                rw [List.isEmpty_iff] at hempty
                rw [if_pos (by rw [List.isEmpty_iff, attached_eq_nil_iff hvalid, hempty])]
                cases hroot : o.root with
                | some root =>
                    rw [hroot] at h
                    exact ih h
                | none =>
                    rw [hroot] at h
                    cases h
                    rfl
              case isFalse hne =>
                rw [List.isEmpty_iff] at hne
                rw [if_neg (by rw [List.isEmpty_iff, attached_eq_nil_iff hvalid]; exact hne)]
                rw [write] at h
                split at h
                case h_1 result hwrite =>
                  cases h
                  rw [hwrite]
                  rfl
                case h_2 => cases h

end LogObjects

end LpNet
