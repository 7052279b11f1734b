import LpNet.Logger.Config
import LpNet.Lib.Transition
import Mathlib.Logic.Function.Basic
import Mathlib.Logic.Function.Iterate

/-!
`LogManager`, `LogIniter::getLogger`, and where an event goes.

The manager keeps one logger for each name. `LogIniter::getLogger` gets it and then
configures it, every time: level and formatter are set to what they are, but the appender is
another one, so an event goes once to the destination for each call (`configure_iterate`).
Files are taken to be open; `strftime` is what `std::strftime` makes of a format and a
timestamp.
-/

namespace LpNet

open Transition

/-- What has been written, each text with the appender's class and file. -/
abbrev Lines := List (AppenderKind × Text)

namespace LogAppender

/-- `log(pEvent, pLogger)` of the two classes, for the name of the logger. The event is left
without colors by a `StdoutLogAppender`. -/
def log (a : LogAppender) (strftime : Text → ℕ → Text) (name : Text) (ev : LogEvent) :
    Except Fault (Lines × LogEvent) :=
  if a.level.toNat ≤ ev.level.toNat then
    match a.formatter, a.kind with
    | none, _ => .error .useAfterFree
    | some f, .fileLogAppender filename =>
        .ok ([(.fileLogAppender filename, f.format strftime ev name)], ev)
    | some f, .stdoutLogAppender =>
        .ok ([(.stdoutLogAppender, f.format strftime { ev with colorOn := true } name)],
          { ev with colorOn := false })
  else .ok ([], ev)

end LogAppender

namespace Logger

/-- The loop of `log(pEvent)` over the appenders, at one of them. -/
def logRound (strftime : Text → ℕ → Text) (name : Text) (st : Lines × LogEvent) (a : LogAppender) :
    Except Fault (Lines × LogEvent) := do
  let (lines, ev) ← a.log strftime name st.2
  .ok (st.1 ++ lines, ev)

end Logger

structure LoggerObject where
  logger : Logger
  root : Option ℕ
  deriving DecidableEq, Repr

/-- `LogManager`, with the loggers it has made: a pointer is a place in `objects`. -/
structure LogManager where
  objects : List LoggerObject
  loggers : Text → Option ℕ
  root : ℕ
  valid : ∀ name p, loggers name = some p → p < objects.length

namespace LogManager

def new : LogManager where
  objects := [⟨({ name := "root".toList } : Logger).addAppender { kind := .stdoutLogAppender },
    none⟩]
  loggers name := if name = "root".toList then some 0 else none
  root := 0
  valid name p h := by
    split at h
    · cases h
      exact Nat.zero_lt_one
    · cases h

theorem valid_add (m : LogManager) (o : LoggerObject) (name name' : Text) (p : ℕ)
    (h : Function.update m.loggers name (some m.objects.length) name' = some p) :
    p < (m.objects ++ [o]).length := by
  rw [List.length_append, List.length_singleton]
  by_cases heq : name' = name
  case pos =>
    subst heq
    rw [Function.update_self] at h
    cases h
    exact Nat.lt_succ_self _
  case neg =>
    rw [Function.update_of_ne heq] at h
    exact Nat.lt_succ_of_lt (m.valid name' p h)

def getLogger (m : LogManager) (name : Text) : ℕ × LogManager :=
  match m.loggers name with
  | some p => (p, m)
  | none => (m.objects.length,
      { objects := m.objects ++ [⟨{ name := name }, some m.root⟩]
        loggers := Function.update m.loggers name (some m.objects.length)
        root := m.root
        valid := m.valid_add _ name })

def modify (m : LogManager) (p : ℕ) (f : Logger → Logger) : LogManager :=
  { m with
    objects := m.objects.modify p fun o => { o with logger := f o.logger }
    valid := fun name p h => by
      rw [List.length_modify]
      exact m.valid name p h }

/-- `log(pEvent)` of the logger at `p`, with a number of loggers it may be passed on to. -/
def log (m : LogManager) (strftime : Text → ℕ → Text) : ℕ → ℕ → LogEvent → Except Fault Lines
  | 0, _, _ => .error .diverges
  | depth + 1, p, ev =>
      match m.objects[p]? with
      | none => .error .useAfterFree
      | some o =>
          if o.logger.level.toNat ≤ ev.level.toNat then
            if o.logger.appenders.isEmpty then
              match o.root with
              | some root => m.log strftime depth root ev
              | none => .ok []
            else do
              let (lines, _) ← o.logger.appenders.foldlM
                (Logger.logRound strftime o.logger.name) ([], ev)
              .ok lines
          else .ok []

def find (m : LogManager) (name : Text) : Logger :=
  match (m.loggers name).bind fun p => m.objects[p]? with
  | some o => o.logger
  | none => { name := name }

end LogManager

/-- The arguments of `LogIniter::getLogger`. -/
structure LogArgs where
  logName : Text
  logLevel : LogLevel
  formatPattern : Text := LogFormatter.kDefaultFormatPattern
  write2file : Bool := true
  filename : Text := "x".toList
  deriving DecidableEq, Repr

def LogArgs.kind (args : LogArgs) : AppenderKind :=
  if args.write2file then .fileLogAppender args.filename else .stdoutLogAppender

namespace LogIniter

def configure (args : LogArgs) (l : Logger) : Logger :=
  let l := l.setLevel args.logLevel
  let l :=
    if args.formatPattern ≠ LogFormatter.kDefaultFormatPattern then
      l.setFormatter (some (.new args.formatPattern))
    else l
  l.addAppender { kind := args.kind }

/-- `getLogger(log_name, log_level, format_pattern, write2file, filename)`. -/
def getLogger (m : LogManager) (args : LogArgs) : ℕ × LogManager :=
  match m.getLogger args.logName with
  | (p, m) => (p, m.modify p (configure args))

/-- What the last of a call and `extra` more with the same arguments returns and leaves. -/
def calls (m : LogManager) (args : LogArgs) : ℕ → ℕ × LogManager
  | 0 => getLogger m args
  | extra + 1 => getLogger (calls m args extra).2 args

end LogIniter

/-! ### The law -/

namespace LogManager

def settings (m : LogManager) (p : ℕ) : Option (LogLevel × Option Text × List AppenderKind) :=
  m.objects[p]?.map fun o =>
    (o.logger.level, o.logger.formatter.map LogFormatter.pattern, o.logger.appenders.map (·.kind))

/-- The event is written to this destination, once. -/
def EmitsOnce (m : LogManager) (strftime : Text → ℕ → Text) (p : ℕ) (ev : LogEvent)
    (kind : AppenderKind) : Prop :=
  ∃ lines, (∃ enough, ∀ depth, enough ≤ depth → m.log strftime depth p ev = .ok lines) ∧
    (lines.map Prod.fst).count kind = 1

end LogManager

namespace LogIniter

/-- After `extra` more calls the logger is the one there was after the first call, with the same
settings, and an event of its level or above is written to the chosen destination once. -/
structure Idempotent (strftime : Text → ℕ → Text) (m : LogManager) (args : LogArgs) (extra : ℕ) :
    Prop where
  object : (calls m args extra).1 = (calls m args 0).1
  settings : (calls m args extra).2.settings (calls m args extra).1 =
    (calls m args 0).2.settings (calls m args 0).1
  once : ∀ ev : LogEvent, args.logLevel.toNat ≤ ev.level.toNat →
    (calls m args extra).2.EmitsOnce strftime (calls m args extra).1 ev args.kind

/-- What the logger is to be like before the only call: no appender has the destination, and all
have a formatter, as has the logger unless it gets one; and its level is to be one that the new
appender writes. -/
structure Unused (m : LogManager) (args : LogArgs) : Prop where
  kind : ∀ a ∈ (m.find args.logName).appenders, a.kind ≠ args.kind
  formatters : ∀ a ∈ (m.find args.logName).appenders, a.formatter ≠ none
  formatter : args.formatPattern = LogFormatter.kDefaultFormatPattern →
    (m.find args.logName).formatter ≠ none
  level : args.logLevel ≠ .LUNKNOWN

/-! ### What the calls leave -/

variable {strftime : Text → ℕ → Text} {m : LogManager} {args : LogArgs} {name : Text}

def formatterFor (args : LogArgs) (l : Logger) : Option LogFormatter :=
  if args.formatPattern ≠ LogFormatter.kDefaultFormatPattern then some (.new args.formatPattern)
  else l.formatter

def appenderFor (args : LogArgs) (l : Logger) : LogAppender :=
  ({ kind := args.kind } : LogAppender).setFormatter (formatterFor args l)

theorem configure_eq (args : LogArgs) (l : Logger) : configure args l =
    ⟨l.name, args.logLevel, l.appenders ++ [appenderFor args l], formatterFor args l⟩ := by
  rw [configure, appenderFor, formatterFor]
  split <;> rfl

theorem configure_iterate (args : LogArgs) (l : Logger) (extra : ℕ) :
    (configure args)^[extra + 1] l = ⟨l.name, args.logLevel,
      l.appenders ++ List.replicate (extra + 1) (appenderFor args l), formatterFor args l⟩ := by
  induction extra with
  | zero => exact configure_eq args l
  | succ extra ih =>
      have hformatter : ∀ appenders, formatterFor args
          ⟨l.name, args.logLevel, appenders, formatterFor args l⟩ = formatterFor args l := by
        intro appenders
        rw [formatterFor]
        split
        case isTrue h => rw [formatterFor, if_pos h]
        case isFalse => rfl
      have happender : ∀ appenders, appenderFor args
          ⟨l.name, args.logLevel, appenders, formatterFor args l⟩ = appenderFor args l := by
        intro appenders
        rw [appenderFor, hformatter]
        rfl
      rw [Function.iterate_succ_apply', ih, configure_eq, happender, hformatter,
        List.append_assoc, ← List.replicate_succ']

theorem getLogger_spec (m : LogManager) (args : LogArgs) :
    (getLogger m args).2.loggers args.logName = some (getLogger m args).1 ∧
      ∃ root, (getLogger m args).2.objects[(getLogger m args).1]? =
        some ⟨configure args (m.find args.logName), root⟩ := by
  rw [getLogger, LogManager.getLogger, LogManager.find]
  cases hp : m.loggers args.logName with
  | some p =>
      have hlt := m.valid _ p hp
      refine ⟨hp, m.objects[p].root, ?_⟩
      simp [LogManager.modify, hlt]
  | none =>
      refine ⟨Function.update_self .., some m.root, ?_⟩
      simp [LogManager.modify]

theorem find_of_object {p : ℕ} {o : LoggerObject} (hp : m.loggers name = some p)
    (ho : m.objects[p]? = some o) : m.find name = o.logger := by
  rw [LogManager.find, hp, Option.bind_some, ho]

theorem calls_spec (m : LogManager) (args : LogArgs) (extra : ℕ) :
    (calls m args extra).1 = (calls m args 0).1 ∧
      (calls m args extra).2.loggers args.logName = some (calls m args extra).1 ∧
      ∃ root, (calls m args extra).2.objects[(calls m args extra).1]? =
        some ⟨(configure args)^[extra + 1] (m.find args.logName), root⟩ := by
  induction extra with
  | zero => exact ⟨rfl, getLogger_spec m args⟩
  | succ extra ih =>
      obtain ⟨hsame, hname, root, hobject⟩ := ih
      have hfind := find_of_object hname hobject
      obtain ⟨hname', root', hobject'⟩ := getLogger_spec (calls m args extra).2 args
      have hpointer : (getLogger (calls m args extra).2 args).1 = (calls m args extra).1 := by
        rw [getLogger, LogManager.getLogger, hname]
      refine ⟨hpointer.trans hsame, hname', root', ?_⟩
      rw [calls, hobject', hfind, Function.iterate_succ_apply' _ (extra + 1)]

end LogIniter

/-! ### Where an event goes -/

namespace LogAppender

variable {strftime : Text → ℕ → Text} {name : Text} {ev : LogEvent} {a : LogAppender}

theorem log_eq_ok {result : Lines × LogEvent} (h : a.log strftime name ev = .ok result) :
    (a.level.toNat ≤ ev.level.toNat → a.formatter ≠ none) ∧ result.2.level = ev.level := by
  rw [log] at h
  split at h
  case isTrue =>
    cases hf : a.formatter with
    | none =>
        rw [hf] at h
        cases h
    | some f =>
        rw [hf] at h
        cases hk : a.kind <;> rw [hk] at h <;> cases h <;> exact ⟨fun _ => nofun, rfl⟩
  case isFalse hlow =>
    cases h
    exact ⟨fun hle => absurd hle hlow, rfl⟩

theorem log_ok (h : a.level.toNat ≤ ev.level.toNat → a.formatter ≠ none) :
    ∃ lines ev', a.log strftime name ev = .ok (lines, ev') ∧ ev'.level = ev.level ∧
      lines.map Prod.fst = if a.level.toNat ≤ ev.level.toNat then [a.kind] else [] := by
  rw [log]
  by_cases hle : a.level.toNat ≤ ev.level.toNat
  case pos =>
    obtain ⟨f, hf⟩ := Option.ne_none_iff_exists'.mp (h hle)
    rw [if_pos hle, if_pos hle, hf]
    cases a.kind with
    | stdoutLogAppender => exact ⟨_, _, rfl, rfl, rfl⟩
    | fileLogAppender filename => exact ⟨_, _, rfl, rfl, rfl⟩
  case neg =>
    rw [if_neg hle, if_neg hle]
    exact ⟨[], ev, rfl, rfl, rfl⟩

end LogAppender

namespace Logger

variable {strftime : Text → ℕ → Text} {name : Text} {ev : LogEvent} {as : List LogAppender}
  {lines : Lines}

theorem formatter_of_foldlM {result : Lines × LogEvent}
    (h : as.foldlM (logRound strftime name) (lines, ev) = .ok result) :
    ∀ a ∈ as, a.level.toNat ≤ ev.level.toNat → a.formatter ≠ none := by
  induction as generalizing lines ev with
  | nil => exact fun a ha => by cases ha
  | cons a as ih =>
      rw [List.foldlM_cons, bind_eq_ok] at h
      obtain ⟨st, hround, hrest⟩ := h
      rw [logRound, bind_eq_ok] at hround
      obtain ⟨r, hlog, hst⟩ := hround
      cases hst
      obtain ⟨hformatter, hlevel⟩ := LogAppender.log_eq_ok hlog
      exact List.forall_mem_cons.mpr ⟨hformatter, hlevel ▸ ih hrest⟩

/-- The event goes to the appenders of its level, in their order. -/
theorem foldlM_logRound (h : ∀ a ∈ as, a.level.toNat ≤ ev.level.toNat → a.formatter ≠ none) :
    ∃ out ev', as.foldlM (logRound strftime name) (lines, ev) = .ok (lines ++ out, ev') ∧
      out.map Prod.fst = (as.filter fun a => a.level.toNat ≤ ev.level.toNat).map (·.kind) := by
  induction as generalizing lines ev with
  | nil => exact ⟨[], ev, by rw [List.append_nil]; rfl, rfl⟩
  | cons a as ih =>
      rw [List.forall_mem_cons] at h
      obtain ⟨first, ev', hlog, hlevel, hfirst⟩ :=
        @LogAppender.log_ok strftime name ev a h.1
      obtain ⟨rest, ev'', hrest, hkinds⟩ := @ih ev' (lines ++ first) (by rw [hlevel]; exact h.2)
      refine ⟨first ++ rest, ev'', ?_, ?_⟩
      · rw [List.foldlM_cons, logRound, hlog, ok_bind, ← List.append_assoc]
        exact hrest
      · rw [hlevel] at hkinds
        rw [List.map_append, hfirst, hkinds, List.filter_cons]
        by_cases hle : a.level.toNat ≤ ev.level.toNat <;> simp [hle]

end Logger

namespace LogManager

variable {strftime : Text → ℕ → Text} {m : LogManager} {p : ℕ} {o : LoggerObject} {ev : LogEvent}
  {kind : AppenderKind}

theorem log_succ (ho : m.objects[p]? = some o) (hlevel : o.logger.level.toNat ≤ ev.level.toNat)
    (hne : o.logger.appenders ≠ []) (depth : ℕ) : m.log strftime (depth + 1) p ev =
      (o.logger.appenders.foldlM (Logger.logRound strftime o.logger.name) ([], ev)).map
        Prod.fst := by
  rw [log, ho]
  dsimp only
  rw [if_pos hlevel, if_neg (by simpa using hne)]
  cases o.logger.appenders.foldlM (Logger.logRound strftime o.logger.name) ([], ev) <;> rfl

theorem emitsOnce_iff (ho : m.objects[p]? = some o)
    (hlevel : o.logger.level.toNat ≤ ev.level.toNat) (hne : o.logger.appenders ≠ []) :
    m.EmitsOnce strftime p ev kind ↔
      (∀ a ∈ o.logger.appenders, a.level.toNat ≤ ev.level.toNat → a.formatter ≠ none) ∧
        ((o.logger.appenders.filter fun a => a.level.toNat ≤ ev.level.toNat).map
          (·.kind)).count kind = 1 := by
  constructor
  · rintro ⟨lines, ⟨enough, hall⟩, hcount⟩
    have hok := hall (enough + 1) (Nat.le_succ enough)
    rw [log_succ ho hlevel hne] at hok
    cases hfold : o.logger.appenders.foldlM (Logger.logRound strftime o.logger.name) ([], ev) with
    | error e =>
        rw [hfold] at hok
        cases hok
    | ok result =>
        rw [hfold] at hok
        cases hok
        have hformatters := Logger.formatter_of_foldlM hfold
        obtain ⟨out, ev', hout, hkinds⟩ :=
          @Logger.foldlM_logRound strftime o.logger.name ev o.logger.appenders [] hformatters
        rw [hfold] at hout
        cases hout
        rw [← hkinds]
        exact ⟨hformatters, hcount⟩
  · rintro ⟨hformatters, hcount⟩
    obtain ⟨out, ev', hout, hkinds⟩ :=
      @Logger.foldlM_logRound strftime o.logger.name ev o.logger.appenders [] hformatters
    refine ⟨out, ⟨1, fun depth hdepth => ?_⟩, by rw [hkinds]; exact hcount⟩
    obtain ⟨depth, rfl⟩ : ∃ d, depth = d + 1 := ⟨depth - 1, by omega⟩
    rw [log_succ ho hlevel hne, hout]
    rfl

end LogManager

/-! ### Idempotence -/

theorem LogLevel.toNat_le_fatal (level : LogLevel) : level.toNat ≤ LogLevel.LFATAL.toNat := by
  cases level <;> decide

theorem LogLevel.debug_le_iff (level : LogLevel) :
    LogLevel.LDEBUG.toNat ≤ level.toNat ↔ level ≠ .LUNKNOWN := by
  cases level <;> decide

namespace LogIniter

variable {strftime : Text → ℕ → Text} {m : LogManager} {args : LogArgs} {extra : ℕ}

/-- An event is written once after the calls if the appenders that write it have formatters, and
those of them that were there, together with the new ones, are one of this destination. -/
theorem emitsOnce_calls {ev : LogEvent} (hlevel : args.logLevel.toNat ≤ ev.level.toNat) :
    (calls m args extra).2.EmitsOnce strftime (calls m args extra).1 ev args.kind ↔
      (∀ a ∈ (m.find args.logName).appenders, a.level.toNat ≤ ev.level.toNat →
          a.formatter ≠ none) ∧
        (ev.level ≠ .LUNKNOWN → formatterFor args (m.find args.logName) ≠ none) ∧
        (((m.find args.logName).appenders.filter fun a =>
          a.level.toNat ≤ ev.level.toNat).map (·.kind)).count args.kind +
            (if ev.level ≠ .LUNKNOWN then extra + 1 else 0) = 1 := by
  obtain ⟨-, -, root, hobject⟩ := calls_spec m args extra
  rw [configure_iterate] at hobject
  have hnew : (appenderFor args (m.find args.logName)).level.toNat ≤ ev.level.toNat ↔
      ev.level ≠ .LUNKNOWN := LogLevel.debug_le_iff ev.level
  rw [LogManager.emitsOnce_iff hobject hlevel (by simp)]
  dsimp only
  rw [List.forall_mem_append, List.filter_append, List.map_append, List.count_append, and_assoc]
  refine and_congr_right fun _ => and_congr ?_ ?_
  · rw [List.forall_mem_replicate, hnew]
    exact or_iff_right (Nat.succ_ne_zero extra)
  · by_cases hev : ev.level ≠ .LUNKNOWN
    case pos =>
      rw [List.filter_replicate_of_pos (by simpa using hnew.mpr hev), List.map_replicate, if_pos hev]
      have hkind : (appenderFor args (m.find args.logName)).kind = args.kind := rfl
      rw [hkind, List.count_replicate_self]
    case neg =>
      rw [List.filter_replicate_of_neg (by simpa using fun h => hev (hnew.mp h)), if_neg hev]
      rfl

theorem formatterFor_ne_none {l : Logger} : formatterFor args l ≠ none ↔
    (args.formatPattern = LogFormatter.kDefaultFormatPattern → l.formatter ≠ none) := by
  rw [formatterFor]
  by_cases hpattern : args.formatPattern = LogFormatter.kDefaultFormatPattern <;> simp [hpattern]

theorem count_kind_eq_zero {as : List LogAppender} {kind : AppenderKind}
    (h : ∀ a ∈ as, a.kind ≠ kind) (p : LogAppender → Bool) :
    ((as.filter p).map (·.kind)).count kind = 0 := by
  rw [List.count_eq_zero, List.mem_map]
  rintro ⟨a, ha, hkind⟩
  exact h a (List.mem_of_mem_filter ha) hkind

/-- An event of a level, from nowhere. -/
def eventOf (level : LogLevel) : LogEvent := ⟨level, [], [], 0, 0, 0, [], {}, false⟩

theorem extra_eq_zero (h : Idempotent strftime m args extra) : extra = 0 := by
  obtain ⟨-, -, root, hobject⟩ := calls_spec m args extra
  obtain ⟨-, -, root', hobject'⟩ := calls_spec m args 0
  have hsettings := h.settings
  rw [LogManager.settings, LogManager.settings, hobject, hobject', configure_iterate,
    configure_iterate] at hsettings
  have hlength := congrArg (Option.map fun settings => settings.2.2.length) hsettings
  simpa using hlength

/-- `LogIniter::getLogger` is idempotent as long as it is called once, for a destination that
the logger does not have yet. -/
theorem idempotent_iff (strftime : Text → ℕ → Text) (m : LogManager) (args : LogArgs)
    (extra : ℕ) : Idempotent strftime m args extra ↔ extra = 0 ∧ Unused m args := by
  constructor
  · intro h
    have hextra := extra_eq_zero h
    subst hextra
    -- the most urgent event goes to all appenders
    have hfatal := (emitsOnce_calls (LogLevel.toNat_le_fatal _)).mp
      (h.once (eventOf .LFATAL) (LogLevel.toNat_le_fatal _))
    obtain ⟨hformatters, hformatter, hcount⟩ := hfatal
    have hkind : ∀ a ∈ (m.find args.logName).appenders, a.kind ≠ args.kind := by
      intro a ha heq
      have hnone := List.count_eq_zero.mp (show List.count args.kind _ = 0 by
        rw [if_pos (show (eventOf .LFATAL).level ≠ .LUNKNOWN by decide)] at hcount
        exact Nat.succ.inj hcount)
      refine hnone (List.mem_map.mpr ⟨a, List.mem_filter.mpr ⟨ha, ?_⟩, heq⟩)
      exact decide_eq_true (LogLevel.toNat_le_fatal a.level)
    refine ⟨rfl, hkind, fun a ha => hformatters a ha (LogLevel.toNat_le_fatal _),
      formatterFor_ne_none.mp (hformatter (by decide)), ?_⟩
    intro hunknown
    have hlow : args.logLevel.toNat ≤ (eventOf .LUNKNOWN).level.toNat := hunknown ▸ Nat.le_refl _
    obtain ⟨-, -, hone⟩ := (emitsOnce_calls hlow).mp (h.once (eventOf .LUNKNOWN) hlow)
    rw [if_neg (by decide), count_kind_eq_zero hkind] at hone
    cases hone
  · rintro ⟨rfl, hunused⟩
    refine ⟨rfl, rfl, fun ev hlevel => (emitsOnce_calls hlevel).mpr ⟨?_, ?_, ?_⟩⟩
    · exact fun a ha _ => hunused.formatters a ha
    · exact fun _ => formatterFor_ne_none.mpr hunused.formatter
    · have hev : ev.level ≠ .LUNKNOWN := by
        rw [← LogLevel.debug_le_iff]
        exact Nat.le_trans ((LogLevel.debug_le_iff _).mpr hunused.level) hlevel
      rw [if_pos hev, count_kind_eq_zero hunused.kind]

/-- A second call for the console. -/
theorem not_idempotent_console : ¬ Idempotent (fun _ _ => []) .new
    ⟨"server".toList, .LINFO, LogFormatter.kDefaultFormatPattern, false, []⟩ 1 := fun h =>
  Nat.one_ne_zero (extra_eq_zero h)

end LogIniter

end LpNet
