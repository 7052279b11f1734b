import LpNet.Logger.Objects
import Mathlib.Data.Finset.Lattice.Fold

/-!
Loggers that several threads log to, change and list.

A logger has its mutex while it passes an event on to its `root_` and while its appenders
write, an appender has its own, and the manager has one while it lists the loggers.
`logging_deadlock_free_iff` says for which directions of `setLogger` the threads never wait
for each other: what `getLogger` makes passes on to the root, so the root may not pass
anything on, and the others not in a circle. What is written is left out, and so
is the time at which a `FileLogAppender` opens its file again.
-/

namespace LpNet

open LockOrder Relation Transition

inductive LogLock
  | manager
  | logger (p : ℕ)
  | appender (a : ℕ)
  deriving DecidableEq, Repr

/-- A part of a call. Those that are done with a mutex held follow the call that they belong to. -/
inductive LogInstr
  | getLogger (name : Text)
  /-- `loggers_.find(name)`, and what follows if there is none. -/
  | findLogger (name : Text)
  /-- `toYamlString()` of the manager. -/
  | managerYaml
  | listLoggers
  /-- `make_shared` of an appender. -/
  | newAppender (kind : AppenderKind)
  | setAppenderLevel (a : ℕ) (level : LogLevel)
  | setAppenderFormatter (a : ℕ) (formatter : Option LogFormatter)
  | storeAppenderFormatter (a : ℕ) (formatter : Option LogFormatter)
  /-- What is done with the mutex of an appender and changes nothing: `getFormatter()`,
  `toYamlString()`, `reopen()`, and to write an event. -/
  | readAppender (a : ℕ)
  | setLevel (p : ℕ) (level : LogLevel)
  | setLogger (p : ℕ) (root : Option ℕ)
  | setFormatter (p : ℕ) (formatter : Option LogFormatter)
  | storeFormatter (p : ℕ) (formatter : Option LogFormatter)
  | getFormatter (p : ℕ)
  | addAppender (p a : ℕ)
  /-- `getFormatter()` of the appender, and what follows. -/
  | lookFormatter (p a : ℕ)
  | handFormatter (p a : ℕ)
  | pushAppender (p a : ℕ)
  | removeAppender (p a : ℕ)
  | eraseAppender (p a : ℕ)
  | clearAppenders (p : ℕ)
  | eraseAppenders (p : ℕ)
  /-- `toYamlString()` of a logger. -/
  | loggerYaml (p : ℕ)
  | listAppenders (p : ℕ)
  | log (p : ℕ) (ev : LogEvent)
  /-- The loop over the appenders, or `root_->log(pEvent)`. -/
  | passOn (p : ℕ) (ev : LogEvent)
  /-- `log(pEvent, self)` of an appender. -/
  | appenderLog (a : ℕ) (ev : LogEvent)

/-- What is not up to the threads: whether the file is to be opened again, and the order in which
the table lists its loggers. -/
structure LogChoice where
  reopens : Bool
  order : List ℕ

abbrev LogThreads (T : Type) := Threads LogObjects LogLock LogInstr T

namespace LogInstr

/-- Do a part of a call. A pointer that leads nowhere is not called. -/
def exec (choice : LogChoice) (instr : LogInstr) (w : LogObjects) :
    List (LockInstr LogLock LogInstr) × LogObjects :=
  match instr with
  | .getLogger name => (locked .manager (.findLogger name), w)
  | .findLogger name => ([], (w.getLogger name).2)
  | .managerYaml => (locked .manager .listLoggers, w)
  | .listLoggers =>
      ((choice.order.filter (· < w.loggers.length)).map fun p => .call (.loggerYaml p), w)
  | .newAppender kind => ([], (w.newAppender kind).2)
  | .setAppenderLevel a level =>
      ([], w.modifyAppender a fun appender => { appender with level := level })
  | .setAppenderFormatter a formatter =>
      (locked (.appender a) (.storeAppenderFormatter a formatter), w)
  | .storeAppenderFormatter a formatter =>
      ([], w.modifyAppender a fun appender => appender.setFormatter formatter)
  | .readAppender a => ([.acquire (.appender a), .release (.appender a)], w)
  | .setLevel p level => ([], w.setLevel p level)
  | .setLogger p root =>
      match root with
      | none => ([], w.setLogger p none)
      | some q => ([], if hq : q < w.loggers.length then w.setLogger p (some ⟨q, hq⟩) else w)
  | .setFormatter p formatter => (locked (.logger p) (.storeFormatter p formatter), w)
  | .storeFormatter p formatter => ([], w.setFormatter p formatter)
  | .getFormatter p => ([.acquire (.logger p), .release (.logger p)], w)
  | .addAppender p a =>
      ([.acquire (.logger p), .call (.lookFormatter p a), .call (.pushAppender p a),
        .release (.logger p)], w)
  | .lookFormatter p a => ([.call (.readAppender a), .call (.handFormatter p a)], w)
  | .handFormatter p a =>
      match w.loggers[p]?, w.appenders[a]? with
      | some o, some appender =>
          if appender.formatter.isNone then ([.call (.setAppenderFormatter a o.formatter)], w)
          else ([], w)
      | _, _ => ([], w)
  | .pushAppender p a =>
      ([], if h : p < w.loggers.length ∧ a < w.appenders.length then
          w.modifyLogger p (fun o => { o with appenders := o.appenders ++ [a] }) fun _ hvalid =>
            ⟨hvalid.root_lt, fun a' ha' => by
              rcases List.mem_append.mp ha' with hold | hnew
              · exact hvalid.appenders_lt a' hold
              · rw [List.mem_singleton.mp hnew]
                exact h.2⟩
        else w)
  | .removeAppender p a => (locked (.logger p) (.eraseAppender p a), w)
  | .eraseAppender p a => ([], w.removeAppender p a)
  | .clearAppenders p => (locked (.logger p) (.eraseAppenders p), w)
  | .eraseAppenders p => ([], w.clearAppenders p)
  | .loggerYaml p => (locked (.logger p) (.listAppenders p), w)
  | .listAppenders p =>
      match w.loggers[p]? with
      | some o => (o.appenders.map fun a => .call (.readAppender a), w)
      | none => ([], w)
  | .log p ev =>
      match w.loggers[p]? with
      | some o =>
          if o.level.toNat ≤ ev.level.toNat then (locked (.logger p) (.passOn p ev), w) else ([], w)
      | none => ([], w)
  | .passOn p ev =>
      match w.loggers[p]? with
      | some o =>
          if o.appenders.isEmpty then
            match o.root with
            | some root => ([.call (.log root ev)], w)
            | none => ([], w)
          else (o.appenders.map fun a => .call (.appenderLog a ev), w)
      | none => ([], w)
  | .appenderLog a ev =>
      match w.appenders[a]? with
      | some appender =>
          if appender.level.toNat ≤ ev.level.toNat then
            -- `reopen()` locks the mutex as well, and is left before it is locked to write
            if choice.reopens ∧ appender.kind ≠ .stdoutLogAppender then
              ([.call (.readAppender a), .call (.readAppender a)], w)
            else ([.call (.readAppender a)], w)
          else ([], w)
      | none => ([], w)

/-- A `root_` is set in one of these directions. -/
def Keeps (D : ℕ → ℕ → Prop) : LogInstr → Prop
  | .setLogger p (some q) => D p q
  | _ => True

/-- The directions in which events are passed on. What `getLogger` makes passes on to the root. -/
def Directed (D : ℕ → ℕ → Prop) (p q : ℕ) : Prop := D p q ∨ p ≠ 0 ∧ q = 0

def Before (D : ℕ → ℕ → Prop) : LogLock → LogLock → Prop
  | .manager, .logger _ | .manager, .appender _ | .logger _, .appender _ => True
  | .logger p, .logger q => TransGen (Directed D) p q
  | _, _ => False

/-- The mutex that comes first in a part of a call. -/
def place : LogInstr → Option LogLock
  | .getLogger _ | .managerYaml => some .manager
  | .setAppenderFormatter a _ | .readAppender a | .appenderLog a _ => some (.appender a)
  | .setFormatter p _ | .getFormatter p | .addAppender p _ | .removeAppender p _
  | .clearAppenders p | .loggerYaml p | .log p _ => some (.logger p)
  | _ => none

/-- The mutex that a part of a call is done with. -/
def inside : LogInstr → Option LogLock
  | .findLogger _ | .listLoggers => some .manager
  | .storeAppenderFormatter a _ => some (.appender a)
  | .storeFormatter p _ | .lookFormatter p _ | .handFormatter p _ | .pushAppender p _
  | .eraseAppender p _ | .eraseAppenders p | .listAppenders p | .passOn p _ => some (.logger p)
  | _ => none

/-- The mutexes that a part of a call may lock. -/
def May (D : ℕ → ℕ → Prop) (instr : LogInstr) (l : LogLock) : Prop :=
  instr.place = some l ∨ ∃ l', (instr.place = some l' ∨ instr.inside = some l') ∧ Before D l' l

variable {D : ℕ → ℕ → Prop} {l l' : LogLock} {instr : LogInstr} {w : LogObjects} {p q : ℕ}

theorem before_trans {l₁ l₂ l₃ : LogLock} (h : Before D l₁ l₂) (h' : Before D l₂ l₃) :
    Before D l₁ l₃ := by
  cases l₁ <;> cases l₂ <;> cases l₃ <;>
    first | exact trivial | exact h.elim | exact h'.elim | exact TransGen.trans h h'

/-- The order has no cycle if the directions have none. -/
theorem not_transGen_before (hD : ∀ p, ¬ TransGen (Directed D) p p) (l : LogLock) :
    ¬ TransGen (Before D) l l := by
  intro hcycle
  have hbefore : Before D l l := by
    have htrans : IsTrans LogLock (Before D) := ⟨fun _ _ _ => before_trans⟩
    rw [transGen_eq_self] at hcycle
    exact hcycle
  cases l with
  | manager => exact hbefore
  | logger p => exact hD p hbefore
  | appender a => exact hbefore

theorem may_of_place (h : instr.place = some l) (hl : l' = l ∨ Before D l l') :
    May D instr l' := by
  rcases hl with rfl | hl
  · exact .inl h
  · exact .inr ⟨l, .inl h, hl⟩

theorem before_of_may (hplace : instr.place = none) (hinside : instr.inside = some l)
    (h : May D instr l') : Before D l l' := by
  rw [May, hplace, hinside] at h
  rcases h with h | ⟨l₁, h | h, hbefore⟩
  · cases h
  · cases h
  · cases h
    exact hbefore

theorem eq_or_before_of_may (hplace : instr.place = some l) (hinside : instr.inside = none)
    (h : May D instr l') : l' = l ∨ Before D l l' := by
  rw [May, hplace, hinside] at h
  rcases h with h | ⟨l₁, h | h, hbefore⟩
  · cases h
    exact .inl rfl
  · cases h
    exact .inr hbefore
  · cases h

/-- What a part of a call that has a mutex does next locks what comes after it. -/
theorem may_of_inside (h : instr.inside = some l) (hl : Before D l l') : May D instr l' :=
  .inr ⟨l, .inr h, hl⟩

/-- The `root_`s go in the directions. -/
def RootsIn (D : ℕ → ℕ → Prop) (w : LogObjects) : Prop :=
  w.root = 0 ∧ ∀ p o q, w.loggers[p]? = some o → o.root = some q → Directed D p q

theorem RootsIn.modifyLogger (h : RootsIn D w) {f : LoggerNode → LoggerNode}
    {hf : ∀ o, w.Valid o → w.Valid (f o)}
    (hroot : ∀ o q, (f o).root = some q → o.root = some q ∨ Directed D p q) :
    RootsIn D (w.modifyLogger p f hf) := by
  refine ⟨h.1, fun p' o q ho hq => ?_⟩
  simp only [LogObjects.modifyLogger, List.getElem?_modify] at ho
  obtain ⟨o', ho', rfl⟩ := Option.map_eq_some_iff.mp ho
  split at hq
  case isTrue heq =>
    subst heq
    exact (hroot o' q hq).elim (h.2 p o' q ho') id
  case isFalse => exact h.2 p' o' q ho' hq

theorem RootsIn.getLogger (h : RootsIn D w) (name : Text) : RootsIn D (w.getLogger name).2 := by
  rw [LogObjects.getLogger]
  split
  case h_1 => exact h
  case h_2 =>
    refine ⟨h.1, fun p o q ho hq => ?_⟩
    rw [LogObjects.addLogger, List.getElem?_append] at ho
    split at ho
    case isTrue => exact h.2 p o q ho hq
    case isFalse hge =>
      obtain ⟨-, rfl⟩ : p - w.loggers.length = 0 ∧ _ = o := by
        simpa [List.getElem?_singleton] using ho
      cases hq
      have hpos := w.root_lt
      exact .inr ⟨by omega, h.1⟩

/-- Every mutex is locked inside of those that come before it. -/
theorem disciplined (D : ℕ → ℕ → Prop) :
    Disciplined (Before D) (May D) (Keeps D) (RootsIn D) exec where
  nested choice instr w hkeeps hroots := by
    cases instr with
    | getLogger name => exact nested_locked trivial fun _ => before_of_may rfl rfl
    | managerYaml => exact nested_locked trivial fun _ => before_of_may rfl rfl
    | listLoggers => exact nested_calls (fun _ => trivial) _
    | setAppenderFormatter a formatter =>
        exact nested_locked trivial fun _ => before_of_may rfl rfl
    | readAppender a => exact nested_touch _
    | setLogger p root => cases root <;> exact nested_nil
    | setFormatter p formatter => exact nested_locked trivial fun _ => before_of_may rfl rfl
    | getFormatter p => exact nested_touch _
    | addAppender p a =>
        have hlook : ∀ h ∈ [LogLock.logger p], ∀ l, May D (.lookFormatter p a) l → Before D h l :=
          fun h hh l hl => List.mem_singleton.mp hh ▸ before_of_may rfl rfl hl
        have hpush : ∀ h ∈ [LogLock.logger p], ∀ l, May D (.pushAppender p a) l → Before D h l :=
          fun h hh l hl => List.mem_singleton.mp hh ▸ before_of_may rfl rfl hl
        exact ⟨fun _ h => (List.not_mem_nil h).elim, ⟨trivial, hlook⟩, ⟨trivial, hpush⟩, [],
          rfl, rfl⟩
    | lookFormatter p a => exact nested_call trivial (nested_call trivial nested_nil)
    | handFormatter p a =>
        simp only [exec]
        split
        · split
          · exact nested_call trivial nested_nil
          · exact nested_nil
        · exact nested_nil
    | removeAppender p a => exact nested_locked trivial fun _ => before_of_may rfl rfl
    | clearAppenders p => exact nested_locked trivial fun _ => before_of_may rfl rfl
    | loggerYaml p => exact nested_locked trivial fun _ => before_of_may rfl rfl
    | listAppenders p =>
        simp only [exec]
        split
        · exact nested_calls (fun _ => trivial) _
        · exact nested_nil
    | log p ev =>
        simp only [exec]
        split
        · split
          · exact nested_locked trivial fun _ => before_of_may rfl rfl
          · exact nested_nil
        · exact nested_nil
    | passOn p ev =>
        simp only [exec]
        split
        · split
          · split
            · exact nested_call trivial nested_nil
            · exact nested_nil
          · exact nested_calls (fun _ => trivial) _
        · exact nested_nil
    | appenderLog a ev =>
        simp only [exec]
        split
        · split
          · split
            · exact nested_call trivial (nested_call trivial nested_nil)
            · exact nested_call trivial nested_nil
          · exact nested_nil
        · exact nested_nil
    | _ => exact nested_nil
  takes choice instr w l hkeeps hroots htakes := by
    -- a part that holds no mutex yet
    have hlocked : ∀ {l' i}, i.place = none → i.inside = some l' → instr.place = some l' →
        Takes (May D) (locked l' i) l → May D instr l := fun hplace hinside hown h =>
      may_of_place hown ((takes_locked h).imp_right (before_of_may hplace hinside))
    -- one that has a mutex and goes on to another one
    have hnext : ∀ {l₁} l₂ {i}, instr.inside = some l₁ → Before D l₁ l₂ → i.place = some l₂ →
        i.inside = none → May D i l → May D instr l := fun _ _ hown hbefore hplace hinside h => by
      rcases eq_or_before_of_may hplace hinside h with rfl | hl
      · exact may_of_inside hown hbefore
      · exact may_of_inside hown (before_trans hbefore hl)
    have hnone : ¬ Takes (May D) ([] : List (LockInstr LogLock LogInstr)) l := takes_nil
    cases instr with
    | getLogger name => exact hlocked rfl rfl rfl htakes
    | managerYaml => exact hlocked rfl rfl rfl htakes
    | listLoggers =>
        obtain ⟨p, -, hp⟩ := takes_calls htakes
        exact hnext (.logger p) rfl trivial rfl rfl hp
    | setAppenderFormatter a formatter => exact hlocked rfl rfl rfl htakes
    | readAppender a => exact .inl (congrArg some (takes_touch htakes).symm)
    | setLogger p root => cases root <;> exact (hnone htakes).elim
    | setFormatter p formatter => exact hlocked rfl rfl rfl htakes
    | getFormatter p => exact .inl (congrArg some (takes_touch htakes).symm)
    | addAppender p a =>
        rcases takes_acquire htakes with rfl | h
        · exact .inl rfl
        · rcases takes_call h with h | h
          · exact may_of_place rfl (.inr (before_of_may rfl rfl h))
          · rcases takes_call h with h | h
            · exact may_of_place rfl (.inr (before_of_may rfl rfl h))
            · exact (hnone (takes_release h)).elim
    | lookFormatter p a =>
        rcases takes_call htakes with h | h
        · exact hnext (.appender a) rfl trivial rfl rfl h
        · rcases takes_call h with h | h
          · exact may_of_inside rfl (before_of_may rfl rfl h)
          · exact (hnone h).elim
    | handFormatter p a =>
        simp only [exec] at htakes
        split at htakes
        · split at htakes
          · rcases takes_call htakes with h | h
            · exact hnext (.appender a) rfl trivial rfl rfl h
            · exact (hnone h).elim
          · exact (hnone htakes).elim
        · exact (hnone htakes).elim
    | removeAppender p a => exact hlocked rfl rfl rfl htakes
    | clearAppenders p => exact hlocked rfl rfl rfl htakes
    | loggerYaml p => exact hlocked rfl rfl rfl htakes
    | listAppenders p =>
        simp only [exec] at htakes
        split at htakes
        · obtain ⟨a, -, ha⟩ := takes_calls htakes
          exact hnext (.appender a) rfl trivial rfl rfl ha
        · exact (hnone htakes).elim
    | log p ev =>
        simp only [exec] at htakes
        split at htakes
        · split at htakes
          · exact hlocked rfl rfl rfl htakes
          · exact (hnone htakes).elim
        · exact (hnone htakes).elim
    | passOn p ev =>
        simp only [exec] at htakes
        split at htakes
        case h_2 => exact (hnone htakes).elim
        case h_1 o ho =>
          split at htakes
          case isFalse =>
            obtain ⟨a, -, ha⟩ := takes_calls htakes
            exact hnext (.appender a) rfl trivial rfl rfl ha
          case isTrue =>
            split at htakes
            case h_2 => exact (hnone htakes).elim
            case h_1 root hroot =>
              have hpass : Before D (.logger p) (.logger root) :=
                .single (hroots.2 p o root ho hroot)
              rcases takes_call htakes with h | h
              · exact hnext _ rfl hpass rfl rfl h
              · exact (hnone h).elim
    | appenderLog a ev =>
        have hread : May D (.readAppender a) l → May D (.appenderLog a ev) l := fun h =>
          may_of_place rfl (eq_or_before_of_may rfl rfl h)
        simp only [exec] at htakes
        split at htakes
        · split at htakes
          · split at htakes
            · rcases takes_call htakes with h | h
              · exact hread h
              · exact (takes_call h).elim hread fun h => (hnone h).elim
            · exact (takes_call htakes).elim hread fun h => (hnone h).elim
          · exact (hnone htakes).elim
        · exact (hnone htakes).elim
    | _ => exact (hnone htakes).elim
  keeps choice instr w hkeeps hroots := by
    cases instr with
    | findLogger name => exact hroots.getLogger name
    | setLevel p level =>
        have hset : RootsIn D (w.setLevel p level) := hroots.modifyLogger fun _ _ h => .inl h
        exact hset
    | setLogger p root =>
        cases root with
        | none =>
            have hset : RootsIn D (w.setLogger p none) :=
              hroots.modifyLogger fun _ _ h => by cases h
            exact hset
        | some q =>
            simp only [exec]
            split
            · exact hroots.modifyLogger fun _ _ h => by
                cases h
                exact .inr (.inl hkeeps)
            · exact hroots
    | storeFormatter p formatter =>
        have hset : RootsIn D (w.setFormatter p formatter) :=
          hroots.modifyLogger fun _ _ h => .inl h
        exact hset
    | handFormatter p a =>
        simp only [exec]
        split
        · split <;> exact hroots
        · exact hroots
    | pushAppender p a =>
        simp only [exec]
        split
        · exact hroots.modifyLogger fun _ _ h => .inl h
        · exact hroots
    | eraseAppender p a =>
        have herase : RootsIn D (w.removeAppender p a) := hroots.modifyLogger fun _ _ h => .inl h
        exact herase
    | eraseAppenders p =>
        have herase : RootsIn D (w.clearAppenders p) := hroots.modifyLogger fun _ _ h => .inl h
        exact herase
    | listAppenders p =>
        simp only [exec]
        split <;> exact hroots
    | log p ev =>
        simp only [exec]
        split
        · split <;> exact hroots
        · exact hroots
    | passOn p ev =>
        simp only [exec]
        split
        · split
          · split <;> exact hroots
          · exact hroots
        · exact hroots
    | appenderLog a ev =>
        simp only [exec]
        split
        · split
          · split <;> exact hroots
          · exact hroots
        · exact hroots
    | _ => exact hroots

end LogInstr

namespace LogThreads

open LogInstr

variable {T : Type} [DecidableEq T] {D : ℕ → ℕ → Prop} {w w' : LogObjects} {x : LogThreads T}
variable {i : T} {p q : ℕ} {ev : LogEvent}

/-- A thread that logs an event which comes back, while nobody else has a logger, waits for
itself. -/
theorem log_waits {strftime : Text → ℕ → Text} {fuel : ℕ} {held : List ℕ}
    {rest : List (LockInstr LogLock LogInstr)} (h : Threads.Reached exec (Keeps D) w x)
    (htodo : x.todo i = .call (.log p ev) :: rest)
    (howner : ∀ q, x.owner (.logger q) = if q ∈ held then some i else none)
    (hlog : x.data.logFrom strftime ev fuel held p = .error .deadlock) :
    ∃ y : LogThreads T, Threads.Reached exec (Keeps D) w y ∧ y.Waits i i := by
  have hchoice : Nonempty LogChoice := ⟨⟨false, []⟩⟩
  induction fuel generalizing x held p rest with
  | zero => cases hlog
  | succ fuel ih =>
      rw [LogObjects.logFrom] at hlog
      cases ho : x.data.loggers[p]? with
      | none =>
          rw [ho] at hlog
          cases hlog
      | some o =>
          rw [ho] at hlog
          dsimp only at hlog
          split at hlog
          case isFalse => cases hlog
          case isTrue hle =>
            have hexec : exec ⟨false, []⟩ (.log p ev) x.data =
                (locked (.logger p) (.passOn p ev), x.data) := by
              simp only [exec, ho, if_pos hle]
            obtain ⟨x₁, h₁, hdata₁, howner₁, htodo₁⟩ := h.call ⟨false, []⟩ htodo
            rw [hexec] at hdata₁ htodo₁
            have hacquire : x₁.todo i = .acquire (.logger p) ::
                .call (.passOn p ev) :: .release (.logger p) :: rest := by
              rw [htodo₁, Function.update_self]
              rfl
            split at hlog
            case isTrue hmem =>
              refine ⟨x₁, h₁, .logger p, Threads.wants_eq_some.mpr ⟨_, hacquire⟩, ?_⟩
              rw [howner₁, howner, if_pos hmem]
            case isFalse hnew =>
              split at hlog
              case isFalse =>
                rw [LogObjects.write] at hlog
                split at hlog <;> cases hlog
              case isTrue hempty =>
                cases hroot : o.root with
                | none =>
                    rw [hroot] at hlog
                    cases hlog
                | some root =>
                    rw [hroot] at hlog
                    obtain ⟨x₂, h₂, hdata₂, howner₂, htodo₂⟩ := h₁.acquire hacquire
                      (by rw [howner₁, howner, if_neg hnew])
                    obtain ⟨x₃, h₃, hdata₃, howner₃, htodo₃⟩ := h₂.call ⟨false, []⟩
                      (by rw [htodo₂, Function.update_self])
                    have hpass : exec ⟨false, []⟩ (.passOn p ev) x₂.data =
                        ([.call (.log root ev)], x.data) := by
                      simp only [exec, hdata₂, hdata₁, ho, if_pos hempty, hroot]
                    rw [hpass] at hdata₃ htodo₃
                    have hnext : x₃.todo i =
                        .call (.log root ev) :: .release (.logger p) :: rest := by
                      rw [htodo₃, Function.update_self]
                      rfl
                    have hheld : ∀ r, x₃.owner (.logger r) =
                        if r ∈ p :: held then some i else none := by
                      intro r
                      rw [howner₃, howner₂, howner₁]
                      by_cases hr : r = p
                      case pos =>
                        subst hr
                        simp
                      case neg => simp [hr, howner]
                    exact ih h₃ hnext hheld (hdata₃ ▸ hlog)

/-- A thread that has nothing to do, while nobody has a mutex. -/
def Quiet (x : LogThreads T) (i : T) : Prop := x.todo i = [] ∧ ∀ l, x.owner l = none

theorem does_locked (h : Threads.Reached exec (Keeps D) w x) (hquiet : Quiet x i)
    (instr part : LogInstr) {l : LogLock} (hok : Keeps D instr)
    (hinstr : ∀ choice, exec choice instr x.data = (locked l part, x.data))
    (hpart : ∀ choice, exec choice part x.data = ([], w')) :
    ∃ y : LogThreads T, Threads.Reached exec (Keeps D) w y ∧ Quiet y i ∧ y.data = w' := by
  obtain ⟨hidle, hfree⟩ := hquiet
  obtain ⟨x₁, h₁, hdata₁, howner₁, htodo₁⟩ := h.begin hidle hok
  obtain ⟨x₂, h₂, hdata₂, howner₂, htodo₂⟩ :=
    h₁.call ⟨false, []⟩ (by rw [htodo₁, Function.update_self])
  rw [hdata₁, hinstr] at hdata₂ htodo₂
  have hsection : x₂.todo i = locked l part ++ [] := by rw [htodo₂, Function.update_self]
  obtain ⟨y, hy, hdata, howner, htodo⟩ :=
    h₂.locked_call ⟨false, []⟩ hsection (by rw [howner₂, howner₁, hfree]) (by rw [hdata₂, hpart])
  refine ⟨y, hy, ⟨by rw [htodo, Function.update_self], fun l' => ?_⟩, ?_⟩
  · rw [howner, howner₂, howner₁, hfree]
  · rw [hdata, hdata₂, hpart]

theorem does (h : Threads.Reached exec (Keeps D) w x) (hquiet : Quiet x i) (instr : LogInstr)
    (hok : Keeps D instr) (hinstr : ∀ choice, exec choice instr x.data = ([], w')) :
    ∃ y : LogThreads T, Threads.Reached exec (Keeps D) w y ∧ Quiet y i ∧ y.data = w' := by
  obtain ⟨hidle, hfree⟩ := hquiet
  obtain ⟨x₁, h₁, hdata₁, howner₁, htodo₁⟩ := h.begin hidle hok
  obtain ⟨y, hy, hdata, howner, htodo⟩ :=
    h₁.call ⟨false, []⟩ (by rw [htodo₁, Function.update_self])
  rw [hdata₁, hinstr] at hdata htodo
  refine ⟨y, hy, ⟨by rw [htodo, Function.update_self]; rfl, fun l' => ?_⟩, hdata⟩
  rw [howner, howner₁, hfree]

/-- The loggers have no appenders, and their `root_`s are these. -/
structure Plain (w : LogObjects) (n : ℕ) (roots : ℕ → Option ℕ) : Prop where
  length_eq : w.loggers.length = n
  root_eq : w.root = 0
  node : ∀ p < n, ∃ o, w.loggers[p]? = some o ∧ o.level = .LDEBUG ∧ o.appenders = [] ∧
    o.root = roots p

/-- The `root_`s of the loggers that a manager makes. -/
def madeRoots (p : ℕ) : Option ℕ := if p = 0 then none else some 0

theorem makes (D : ℕ → ℕ → Prop) (i : T) (n : ℕ) :
    ∃ y : LogThreads T, Threads.Reached exec (Keeps D) .new y ∧ Quiet y i ∧
      Plain y.data (n + 1) madeRoots ∧
      ∀ k, n ≤ k → y.data.table (List.replicate k 'a') = none := by
  induction n with
  | zero =>
      obtain ⟨y, hy, hquiet, hdata⟩ := does_locked (D := D) (i := i) (w := .new) .start
        ⟨rfl, fun _ => rfl⟩ (.clearAppenders 0) (.eraseAppenders 0) trivial (fun _ => rfl)
        (fun _ => rfl)
      refine ⟨y, hy, hquiet, hdata ▸ ⟨rfl, rfl, fun p hp => ?_⟩, fun k _ => ?_⟩
      · obtain rfl : p = 0 := by omega
        exact ⟨_, rfl, rfl, rfl, rfl⟩
      · rw [hdata]
        refine if_neg fun heq => ?_
        have hr : 'r' ∈ List.replicate k 'a' := heq ▸ by decide
        exact absurd (List.eq_of_mem_replicate hr) (by decide)
  | succ n ih =>
      obtain ⟨x, hx, hquiet, hplain, htable⟩ := ih
      obtain ⟨y, hy, hquiet', hdata⟩ := does_locked hx hquiet
        (.getLogger (List.replicate n 'a')) (.findLogger (List.replicate n 'a')) trivial
        (fun _ => rfl) (fun _ => rfl)
      have hadd : y.data = x.data.addLogger (List.replicate n 'a') := by
        rw [hdata, LogObjects.getLogger, htable n (Nat.le_refl n)]
      refine ⟨y, hy, hquiet', hadd ▸ ⟨?_, hplain.root_eq, fun p hp => ?_⟩, fun k hk => ?_⟩
      · simp [LogObjects.addLogger, hplain.length_eq]
      · by_cases hlt : p < n + 1
        case pos =>
          obtain ⟨o, ho, hnode⟩ := hplain.node p hlt
          refine ⟨o, ?_, hnode⟩
          rw [LogObjects.addLogger, List.getElem?_append_left (by rw [hplain.length_eq]; exact hlt),
            ho]
        case neg =>
          obtain rfl : p = n + 1 := by omega
          refine ⟨{ name := List.replicate n 'a', root := some x.data.root }, ?_, rfl, rfl, ?_⟩
          · simp [LogObjects.addLogger, ← hplain.length_eq]
          · simp [hplain.root_eq, madeRoots]
      · rw [hadd, LogObjects.addLogger]
        have hne : List.replicate k 'a' ≠ List.replicate n 'a' := fun heq => by
          have hlength := congrArg List.length heq
          rw [List.length_replicate, List.length_replicate] at hlength
          omega
        exact (Function.update_of_ne hne ..).trans (htable k (by omega))

theorem sets (h : Threads.Reached exec (Keeps D) w x) (hquiet : Quiet x i) {n : ℕ}
    {roots : ℕ → Option ℕ} (hplain : Plain x.data n roots) (hD : D p q) (hq : q < n) :
    ∃ y : LogThreads T, Threads.Reached exec (Keeps D) w y ∧ Quiet y i ∧
      Plain y.data n (Function.update roots p (some q)) := by
  have hlt : q < x.data.loggers.length := by rw [hplain.length_eq]; exact hq
  have hset : ∀ choice, exec choice (.setLogger p (some q)) x.data =
      ([], x.data.setLogger p (some ⟨q, hlt⟩)) := fun _ => by simp only [exec, dif_pos hlt]
  obtain ⟨y, hy, hquiet', hdata⟩ := does h hquiet (.setLogger p (some q)) hD hset
  refine ⟨y, hy, hquiet', hdata ▸ ⟨?_, hplain.root_eq, fun r hr => ?_⟩⟩
  · simp [LogObjects.setLogger, LogObjects.modifyLogger, hplain.length_eq]
  · obtain ⟨o, ho, hlevel, happenders, hroot⟩ := hplain.node r hr
    rw [LogObjects.setLogger, LogObjects.modifyLogger]
    simp only [List.getElem?_modify, ho, Option.map_eq_map, Option.map_some]
    by_cases hrp : r = p
    case pos =>
      subst hrp
      exact ⟨_, rfl, by simpa using hlevel, by simpa using happenders, by simp⟩
    case neg =>
      rw [if_neg (Ne.symm hrp), Function.update_of_ne hrp]
      exact ⟨o, rfl, hlevel, happenders, hroot⟩

/-- A thread sets the `root_`s of the first loggers of a way, each to the next one. -/
theorem sets_walk {v : ℕ → ℕ} {n m : ℕ} (hsteps : ∀ k < n, Directed D (v k) (v (k + 1)))
    (hapart : ∀ j k, j < n → k < n → v j = v k → j = k) (hlt : ∀ k ≤ n, v k < m + 1) (i : T) :
    ∀ k ≤ n, ∃ (y : LogThreads T) (roots : ℕ → Option ℕ),
      Threads.Reached exec (Keeps D) .new y ∧ Quiet y i ∧ Plain y.data (m + 1) roots ∧
      (∀ j < k, roots (v j) = some (v (j + 1))) ∧
      ∀ j, k ≤ j → j < n → roots (v j) = madeRoots (v j) := by
  intro k hk
  induction k with
  | zero =>
      obtain ⟨y, hy, hquiet, hplain, -⟩ := makes D i m
      exact ⟨y, madeRoots, hy, hquiet, hplain, fun j hj => by omega, fun j _ _ => rfl⟩
  | succ k ih =>
      obtain ⟨x, roots, hx, hquiet, hplain, hdone, hmade⟩ := ih (by omega)
      rcases hsteps k (by omega) with hD | ⟨hne, hroot⟩
      · obtain ⟨y, hy, hquiet', hplain'⟩ := sets hx hquiet hplain hD (hlt (k + 1) hk)
        have hother : ∀ j < n, j ≠ k → v j ≠ v k := fun j hj hjk heq =>
          hjk (hapart j k hj (by omega) heq)
        refine ⟨y, _, hy, hquiet', hplain', fun j hj => ?_, fun j hj hjn => ?_⟩
        · by_cases hjk : j = k
          case pos =>
            subst hjk
            exact Function.update_self ..
          case neg =>
            rw [Function.update_of_ne (hother j (by omega) hjk)]
            exact hdone j (by omega)
        · rw [Function.update_of_ne (hother j hjn (by omega))]
          exact hmade j (by omega) hjn
      · -- the logger was made with this `root_`
        refine ⟨x, roots, hx, hquiet, hplain, fun j hj => ?_, fun j hj => hmade j (by omega)⟩
        by_cases hjk : j = k
        case pos =>
          subst hjk
          rw [hmade j (Nat.le_refl j) (by omega), madeRoots, if_neg hne, hroot]
        case neg => exact hdone j (by omega)

/-- Any number of threads that log to loggers, change them and list them never wait for each other,
and one of them can go on as long as one has something to do, exactly when the directions in which
events are passed on have no cycle. -/
theorem logging_deadlock_free_iff (D : ℕ → ℕ → Prop) :
    (∀ n (x : LogThreads (Fin n)), Threads.Reached exec (Keeps D) .new x → ¬ x.Deadlocked ∧
        ((∃ t, x.todo t ≠ []) →
          ∃ t choice y, Threads.step exec x (.step t choice) = .ok ((), y))) ↔
      ∀ p, ¬ TransGen (Directed D) p p := by
  constructor
  · intro hfree p hcycle
    obtain ⟨n, v, hn, hclosed, hsteps, hapart⟩ := exists_simple_cycle hcycle
    obtain ⟨m, hm⟩ : ∃ m, ∀ k ≤ n, v k < m + 1 := by
      refine ⟨(Finset.range (n + 1)).sup v, fun k hk => Nat.lt_succ_of_le ?_⟩
      exact Finset.le_sup (f := v) (Finset.mem_range.mpr (by omega))
    obtain ⟨x, roots, hx, ⟨hidle, hunlocked⟩, hplain, hroots, -⟩ :=
      sets_walk hsteps hapart hm (0 : Fin 1) n (Nat.le_refl n)
    -- an event that one of the loggers gets comes back to it
    let ev : LogEvent := ⟨.LDEBUG, [], [], 0, 0, 0, [], {}, false⟩
    have hpass : ∀ k < n, x.data.Passes ev (v k) (v (k + 1)) := by
      intro k hk
      obtain ⟨o, ho, hlevel, hempty, hroot⟩ := hplain.node (v k) (hm k hk.le)
      exact ⟨o, ho, by rw [hlevel], hempty, by rw [hroot, hroots k hk]⟩
    have hback : TransGen (x.data.Passes ev) (v 0) (v 0) := by
      simpa only [hclosed] using transGen_of_walk hn hpass
    have hlt : v 0 < x.data.loggers.length := by
      rw [hplain.length_eq]
      exact hm 0 (Nat.zero_le n)
    rcases x.data.log_result (fun _ _ => []) ⟨v 0, hlt⟩ ev with ⟨hlog, -⟩ | ⟨r, hr, hend, -⟩
    · obtain ⟨x₁, h₁, hdata₁, howner₁, htodo₁⟩ := hx.begin hidle (i := .log (v 0) ev) trivial
      have hlog₁ : x₁.data.logFrom (fun _ _ => []) ev (x.data.loggers.length + 1) [] (v 0) =
          .error .deadlock := by
        rw [hdata₁]
        exact hlog
      have hfirst : x₁.todo 0 = [.call (.log (v 0) ev)] := by rw [htodo₁, Function.update_self]
      obtain ⟨y, hy, hwait⟩ :=
        log_waits h₁ hfirst (fun q => by rw [howner₁, hunlocked]; rfl) hlog₁
      exact (hfree 1 y hy).1 ⟨{0}, ⟨0, rfl⟩, fun t ht => ⟨0, rfl, ht ▸ hwait⟩⟩
    · exact LogObjects.not_end_of_cycle .refl hback hr hend
  · intro hacyclic n x hreached
    have hroots : RootsIn D .new := ⟨rfl, fun p o q ho hq => by
      cases p with
      | zero =>
          cases ho
          cases hq
      | succ p => cases ho⟩
    have hbefore := not_transGen_before hacyclic
    have hchoice : Nonempty LogChoice := ⟨⟨false, []⟩⟩
    obtain ⟨held, horderly⟩ := hreached.orderly (disciplined D).ordered hroots
    exact ⟨horderly.not_deadlocked hbefore, horderly.exists_step hbefore⟩

end LogThreads

end LpNet
