import LpNet.Logger.Formatter

/-!
Loggers and their appenders, the YAML they are written to, and `LogIniter::init`, which
reads it.

Writing and reading of the text is left to yaml-cpp (`YamlCpp`), of which it is only
assumed, where it is needed, that it loads the tree it has dumped. `reload_eq` says what a
logger is after it has been configured from the text of another; `roundTrips_iff` says when
it is the same.
-/

namespace LpNet

inductive Yaml
  | null
  | scalar (text : Text)
  | seq (nodes : List Yaml)
  | map (entries : List (Text × Yaml))

/-- The exceptions of yaml-cpp. -/
inductive YamlFault
  | badSubscript
  | invalidNode
  | badConversion
  | parserException
  deriving DecidableEq, Repr

/-- yaml-cpp: what it writes for a tree and what it reads from a text. `nullText` is
`as<std::string>()` of a null node, in which its versions differ. -/
structure YamlCpp where
  dump : Yaml → Text
  load : Text → Except YamlFault Yaml
  nullText : Except YamlFault Text

namespace Yaml

/-- `node[key]`. A node that is not defined is `none`. -/
def get : Option Yaml → Text → Except YamlFault (Option Yaml)
  | none, _ => throw .invalidNode
  | some (.scalar _), _ => throw .badSubscript
  | some (.map entries), key =>
      return (entries.find? fun entry => entry.1 = key).map Prod.snd
  | some _, _ => return none

@[simp] theorem get_map (entries : List (Text × Yaml)) (key : Text) :
    get (some (.map entries)) key =
      .ok ((entries.find? fun entry => entry.1 = key).map Prod.snd) := rfl

/-- What a loop over a node runs through. The element of a map is a pair, and no node. -/
def elements : Yaml → List (Option Yaml)
  | .seq nodes => nodes.map some
  | .map entries => entries.map fun _ => none
  | _ => []

end Yaml

namespace YamlCpp

def asString (yaml : YamlCpp) : Option Yaml → Except YamlFault Text
  | none => throw .invalidNode
  | some .null => yaml.nullText
  | some (.scalar text) => return text
  | some _ => throw .badConversion

@[simp] theorem asString_scalar (yaml : YamlCpp) (text : Text) :
    yaml.asString (some (.scalar text)) = .ok text := rfl

/-- What is dumped for a tree is loaded as that tree. -/
def Reloads (yaml : YamlCpp) (node : Yaml) : Prop := yaml.load (yaml.dump node) = .ok node

mutual

/-- The lines of a node in block style, where no scalar needs quotes. -/
def blockLines : Yaml → List Text
  | .null => [['~']]
  | .scalar text => [text]
  | .seq nodes => seqLines nodes
  | .map entries => mapLines entries

def seqLines : List Yaml → List Text
  | [] => []
  | node :: nodes =>
      (match blockLines node with
        | [] => []
        | line :: lines => ("- ".toList ++ line) :: lines.map fun line => "  ".toList ++ line) ++
      seqLines nodes

def mapLines : List (Text × Yaml) → List Text
  | [] => []
  | entry :: entries => entryLines entry ++ mapLines entries

def entryLines : Text × Yaml → List Text
  | (key, .scalar text) => [key ++ ": ".toList ++ text]
  | (key, node) => (key ++ [':']) :: (blockLines node).map fun line => "  ".toList ++ line

end

def blockText (node : Yaml) : Text := List.intercalate ['\n'] (blockLines node)

/-- Block style, where what is loaded is one of `nodes`. -/
def block (nodes : List Yaml) : YamlCpp where
  dump := blockText
  load text :=
    match nodes.find? fun node => blockText node = text with
    | some node => .ok node
    | none => .error .parserException
  nullText := .ok "null".toList

theorem block_reloads {nodes : List Yaml} (hnodes : (nodes.map blockText).Nodup) {node : Yaml}
    (hnode : node ∈ nodes) : (block nodes).Reloads node := by
  have hfind : (nodes.find? fun other => blockText other = blockText node) = some node := by
    induction nodes with
    | nil => cases hnode
    | cons other nodes ih =>
        rw [List.map_cons, List.nodup_cons] at hnodes
        rcases List.mem_cons.1 hnode with rfl | hmem
        · simp
        · have hne : blockText other ≠ blockText node :=
            fun heq => hnodes.1 (heq ▸ List.mem_map_of_mem hmem)
          simpa [hne] using ih hnodes.2 hmem
  simp only [Reloads, block, hfind]

end YamlCpp

namespace LogFormatter

def kDefaultFormatPattern : Text :=
  "$DATETIME\x7b%Y-%m-%d %H:%M:%S\x7d".toList ++
  "$CHAR:\t$LOG_NAME$CHAR:[$LOG_LEVEL$CHAR:]".toList ++
  "$CHAR:\t$FILENAME$CHAR::$LINE".toList ++
  "$CHAR:\t$FUNCTION_NAME".toList ++
  "$CHAR:\t$TOTAL_MS".toList ++
  "$CHAR:\n$MESSAGE$CHAR:\n".toList

theorem pattern_addItem (f : LogFormatter) (token : PatArgs) :
    (f.addItem token).pattern = f.pattern := by
  rw [addItem]
  split
  · rfl
  · split <;> rfl

@[simp] theorem pattern_new (pattern : Text) : (new pattern).pattern = pattern := by
  have hloop : ∀ (tokens : List PatArgs) (f : LogFormatter),
      (tokens.foldl addItem f).pattern = f.pattern := by
    intro tokens
    induction tokens with
    | nil => exact fun _ => rfl
    | cons token tokens ih =>
        intro f
        rw [List.foldl_cons, ih, pattern_addItem]
  rw [new, init, hloop]

end LogFormatter

namespace YamlKey

/-! The keys of a configuration, and the two values of `type`. -/

def name : Text := "name".toList
def level : Text := "level".toList
def formatter : Text := "formatter".toList
def appenders : Text := "appenders".toList
def type : Text := "type".toList
def file : Text := "file".toList
def stdoutLogAppender : Text := "StdoutLogAppender".toList
def fileLogAppender : Text := "FileLogAppender".toList

@[simp] theorem logger_ne : name ≠ level ∧ name ≠ formatter ∧ name ≠ appenders ∧
    level ≠ formatter ∧ level ≠ appenders ∧ formatter ≠ appenders := by decide

@[simp] theorem appender_ne : type ≠ file ∧ type ≠ level ∧ file ≠ level := by decide

@[simp] theorem fileLogAppender_ne : fileLogAppender ≠ stdoutLogAppender := by decide

end YamlKey

/-- The class of an appender, with the file of a `FileLogAppender`. -/
inductive AppenderKind
  | stdoutLogAppender
  | fileLogAppender (filename : Text)
  deriving DecidableEq, Repr

structure LogAppender where
  kind : AppenderKind
  level : LogLevel := .LDEBUG
  hasFormatter : Bool := false
  formatter : Option LogFormatter := none
  deriving DecidableEq, Repr

structure Logger where
  name : Text
  level : LogLevel := .LDEBUG
  appenders : List LogAppender := []
  formatter : Option LogFormatter := some (.new LogFormatter.kDefaultFormatPattern)
  deriving DecidableEq, Repr

def levelEntry (level : LogLevel) : List (Text × Yaml) :=
  if level ≠ .LUNKNOWN then [(YamlKey.level, .scalar level.toString)] else []

def formatterEntry (formatter : Option LogFormatter) : List (Text × Yaml) :=
  match formatter with
  | some f => [(YamlKey.formatter, .scalar f.pattern)]
  | none => []

namespace LogAppender

def setFormatter (a : LogAppender) (formatter : Option LogFormatter) : LogAppender :=
  { a with formatter := formatter, hasFormatter := formatter.isSome }

/-- The node that `toYamlString()` of each of the two classes builds. -/
def node (a : LogAppender) : Yaml :=
  .map <|
    (match a.kind with
      | .fileLogAppender filename =>
          [(YamlKey.type, .scalar YamlKey.fileLogAppender), (YamlKey.file, .scalar filename)]
      | .stdoutLogAppender => [(YamlKey.type, .scalar YamlKey.stdoutLogAppender)]) ++
    levelEntry a.level ++ if a.hasFormatter then formatterEntry a.formatter else []

def toYamlString (yaml : YamlCpp) (a : LogAppender) : Text := yaml.dump a.node

end LogAppender

namespace Logger

def setLevel (l : Logger) (level : LogLevel) : Logger := { l with level := level }

def setFormatter (l : Logger) (formatter : Option LogFormatter) : Logger :=
  { l with formatter := formatter }

def addAppender (l : Logger) (a : LogAppender) : Logger :=
  { l with
    appenders := l.appenders ++ [if a.formatter.isNone then a.setFormatter l.formatter else a] }

def nodeWith (l : Logger) (nodes : List Yaml) : Yaml :=
  .map <| [(YamlKey.name, .scalar l.name)] ++ levelEntry l.level ++ formatterEntry l.formatter ++
    if nodes.isEmpty then [] else [(YamlKey.appenders, .seq nodes)]

/-- `toYamlString()`, which loads the text of each appender again. -/
def toYamlString (yaml : YamlCpp) (l : Logger) : Except YamlFault Text := do
  let nodes ← l.appenders.mapM fun a => yaml.load (a.toYamlString yaml)
  return yaml.dump (l.nodeWith nodes)

end Logger

namespace LogIniter

/-- The level for `node`, which is read from `conf` if `node` has one. -/
def level (yaml : YamlCpp) (conf node : Option Yaml) : Except YamlFault LogLevel := do
  if (← Yaml.get node YamlKey.level).isSome then
    return .fromString (← yaml.asString (← Yaml.get conf YamlKey.level))
  else return .LDEBUG

/-- The loop of `init(pLogger, conf)` over the appenders, at one node. -/
def initAppender (yaml : YamlCpp) (conf : Option Yaml) (formatter : LogFormatter) (l : Logger)
    (node : Option Yaml) : Except YamlFault Logger := do
  let typeStr ← yaml.asString (← Yaml.get node YamlKey.type)
  if typeStr = YamlKey.stdoutLogAppender then
    let a : LogAppender := { kind := .stdoutLogAppender, level := ← level yaml conf node }
    return l.addAppender (a.setFormatter (some formatter))
  else if typeStr = YamlKey.fileLogAppender then
    let file ← Yaml.get node YamlKey.file
    if file.isNone then return l
    let filename ← yaml.asString file
    let a : LogAppender := { kind := .fileLogAppender filename, level := ← level yaml conf node }
    return l.addAppender (a.setFormatter (some formatter))
  else return l

def init (yaml : YamlCpp) (l : Logger) (conf : Yaml) : Except YamlFault Logger := do
  if let .null := conf then return l
  let name ← yaml.asString (← Yaml.get conf YamlKey.name)
  if l.name ≠ name then return l
  let l := l.setLevel (← level yaml conf conf)
  let node ← Yaml.get conf YamlKey.formatter
  let pattern ←
    if node.isSome then yaml.asString node else pure LogFormatter.kDefaultFormatPattern
  let formatter := LogFormatter.new pattern
  let l := l.setFormatter (some formatter)
  match ← Yaml.get conf YamlKey.appenders with
  | some nodes => nodes.elements.foldlM (initAppender yaml conf formatter) l
  | none => return l

end LogIniter

/-! ### What is read from a text -/

namespace LogAppender

/-- The appender has a level, and a formatter that was made from a pattern. -/
structure Configured (a : LogAppender) : Prop where
  level : a.level ≠ .LUNKNOWN
  hasFormatter : a.hasFormatter = true
  formatter : ∃ pattern, a.formatter = some (.new pattern)

end LogAppender

section Reading

variable {yaml : YamlCpp} {conf : Option Yaml} {level : LogLevel}

theorem initAppender_node
    (hlevel : Yaml.get conf YamlKey.level = .ok (some (.scalar level.toString)))
    (formatter : LogFormatter) (l : Logger) {a : LogAppender} (ha : a.Configured) :
    LogIniter.initAppender yaml conf formatter l (some a.node) =
      .ok { l with appenders := l.appenders ++ [⟨a.kind, level, true, some formatter⟩] } := by
  obtain ⟨pattern, hpattern⟩ := ha.formatter
  have hnode := ha.level
  cases hkind : a.kind
  all_goals
    simp [LogIniter.initAppender, LogIniter.level, LogAppender.node, levelEntry, formatterEntry,
      hpattern, hkind, ha.hasFormatter, hlevel, hnode,
      LogLevel.fromString_toString, Logger.addAppender, LogAppender.setFormatter, pure, Except.pure]

theorem foldlM_initAppender
    (hlevel : Yaml.get conf YamlKey.level = .ok (some (.scalar level.toString)))
    (formatter : LogFormatter) {appenders : List LogAppender}
    (happenders : ∀ a ∈ appenders, a.Configured) (l : Logger) :
    (appenders.map fun a => some a.node).foldlM (LogIniter.initAppender yaml conf formatter) l =
      .ok { l with
        appenders := l.appenders ++
          appenders.map fun a => ⟨a.kind, level, true, some formatter⟩ } := by
  induction appenders generalizing l with
  | nil => simp [pure, Except.pure]
  | cons a appenders ih =>
      have hrest := fun l => ih (fun b hb => happenders b (List.mem_cons_of_mem a hb)) l
      rw [List.map_cons, List.foldlM_cons, initAppender_node hlevel _ _ (happenders a (by simp))]
      exact (hrest _).trans (by simp)

end Reading

namespace Logger

/-- The logger has a level, its formatter was made from a pattern, and so are its appenders. -/
structure Configured (l : Logger) : Prop where
  level : l.level ≠ .LUNKNOWN
  formatter : ∃ pattern, l.formatter = some (.new pattern)
  appenders : ∀ a ∈ l.appenders, a.Configured

def nodes (l : Logger) : List Yaml :=
  l.appenders.map LogAppender.node ++ [l.nodeWith (l.appenders.map LogAppender.node)]

/-- What is said of a logger in its text: its name, level and pattern, and the class, the file, the
level and the pattern of each of its appenders. -/
def settings (l : Logger) :
    Text × LogLevel × Option Text × List (AppenderKind × LogLevel × Option Text) :=
  (l.name, l.level, l.formatter.map LogFormatter.pattern, l.appenders.map fun a =>
    (a.kind, a.level, a.formatter.map LogFormatter.pattern))

/-- `fresh` after `LogIniter::init` with what is loaded from the text of `l`. -/
def reload (yaml : YamlCpp) (l fresh : Logger) : Except YamlFault Logger := do
  let conf ← yaml.load (← l.toYamlString yaml)
  LogIniter.init yaml fresh conf

/-- The text of `l` configures `fresh` to a logger with that text and the same settings. -/
def RoundTrips (yaml : YamlCpp) (l fresh : Logger) : Prop :=
  ∃ l', reload yaml l fresh = .ok l' ∧
    l'.toYamlString yaml = l.toYamlString yaml ∧ l'.settings = l.settings

section Reload

variable {yaml : YamlCpp} {l : Logger}

theorem toYamlString_eq (hyaml : ∀ node ∈ l.nodes, yaml.Reloads node) :
    l.toYamlString yaml = .ok (yaml.dump (l.nodeWith (l.appenders.map LogAppender.node))) := by
  have hload : ∀ appenders : List LogAppender, (∀ a ∈ appenders, yaml.Reloads a.node) →
      (appenders.mapM fun a => yaml.load (a.toYamlString yaml)) =
        .ok (appenders.map LogAppender.node) := by
    intro appenders happenders
    induction appenders with
    | nil => rfl
    | cons a appenders ih =>
        have ha : yaml.load (a.toYamlString yaml) = .ok a.node := happenders a (by simp)
        have hrest := ih fun b hb => happenders b (List.mem_cons_of_mem a hb)
        rw [List.mapM_cons, ha, hrest]
        rfl
  rw [toYamlString, hload l.appenders fun a ha =>
    hyaml a.node (List.mem_append_left _ (List.mem_map_of_mem ha))]
  rfl

theorem reload_eq (hl : l.Configured) (hyaml : ∀ node ∈ l.nodes, yaml.Reloads node)
    (fresh : Logger) (hname : fresh.name = l.name) (happenders : fresh.appenders = []) :
    reload yaml l fresh = .ok { l with
      appenders := l.appenders.map fun a => ⟨a.kind, l.level, true, l.formatter⟩ } := by
  obtain ⟨pattern, hpattern⟩ := hl.formatter
  obtain ⟨entries, hentries⟩ : ∃ entries,
      l.nodeWith (l.appenders.map LogAppender.node) = .map entries := ⟨_, rfl⟩
  have hload : yaml.load (yaml.dump (.map entries)) = .ok (.map entries) :=
    hyaml _ (by simp [nodes, hentries])
  have hget : Yaml.get (some (.map entries)) YamlKey.name = .ok (some (.scalar l.name)) ∧
      Yaml.get (some (.map entries)) YamlKey.level = .ok (some (.scalar l.level.toString)) ∧
      Yaml.get (some (.map entries)) YamlKey.formatter = .ok (some (.scalar pattern)) ∧
      Yaml.get (some (.map entries)) YamlKey.appenders =
        .ok (if l.appenders = [] then none
          else some (.seq (l.appenders.map LogAppender.node))) := by
    rw [← hentries]
    by_cases hnil : l.appenders = [] <;>
      simp [nodeWith, levelEntry, formatterEntry, hl.level, hpattern, hnil]
  obtain ⟨hgetName, hgetLevel, hgetFormatter, hgetAppenders⟩ := hget
  have hloop := @foldlM_initAppender yaml _ _ hgetLevel (.new pattern) _ hl.appenders
    ((fresh.setLevel l.level).setFormatter (some (.new pattern)))
  rw [reload, toYamlString_eq hyaml, hentries]
  simp only [bind, Except.bind, hload, LogIniter.init, LogIniter.level, hgetName, hgetLevel,
    hgetFormatter, hgetAppenders]
  simp only [YamlCpp.asString_scalar, hname, ne_eq, not_true, if_false, Option.isSome_some, if_true,
    pure, Except.pure, LogLevel.fromString_toString]
  by_cases hnil : l.appenders = []
  case pos => simp [hnil, hname, happenders, hpattern, setLevel, setFormatter]
  case neg =>
    rw [if_neg hnil]
    refine Eq.trans (by simp [Yaml.elements, Function.comp_def]) (hloop.trans ?_)
    simp [hname, happenders, hpattern, setLevel, setFormatter]

theorem eq_of_settings (hl : l.Configured) {a : LogAppender} (ha : a ∈ l.appenders)
    (hlevel : a.level = l.level)
    (hpattern : a.formatter.map LogFormatter.pattern = l.formatter.map LogFormatter.pattern) :
    (⟨a.kind, l.level, true, l.formatter⟩ : LogAppender) = a := by
  have hconf := hl.appenders a ha
  obtain ⟨pattern, hl'⟩ := hl.formatter
  obtain ⟨pattern', ha'⟩ := hconf.formatter
  have heq : pattern' = pattern := by simpa [hl', ha'] using hpattern
  rw [← hlevel, ← hconf.hasFormatter, hl', ← heq, ← ha']

/-- A logger round-trips exactly if all its appenders have its own level and pattern. -/
theorem roundTrips_iff (hl : l.Configured) (hyaml : ∀ node ∈ l.nodes, yaml.Reloads node)
    (fresh : Logger) (hname : fresh.name = l.name) (happenders : fresh.appenders = []) :
    RoundTrips yaml l fresh ↔ ∀ a ∈ l.appenders, a.level = l.level ∧
      a.formatter.map LogFormatter.pattern = l.formatter.map LogFormatter.pattern := by
  have hreload := reload_eq hl hyaml fresh hname happenders
  constructor
  · rintro ⟨l', hl', -, hsettings⟩ a ha
    rw [hreload] at hl'
    obtain rfl := Except.ok.inj hl'
    simp only [settings, Prod.mk.injEq, List.map_map, List.map_inj_left] at hsettings
    have hread := hsettings.2.2.2 a ha
    simp only [Function.comp_apply, Prod.mk.injEq] at hread
    exact ⟨hread.2.1.symm, hread.2.2.symm⟩
  · intro hsame
    have hkept : l.appenders.map
        (fun a => (⟨a.kind, l.level, true, l.formatter⟩ : LogAppender)) = l.appenders := by
      refine (List.map_congr_left fun a ha => ?_).trans (List.map_id _)
      exact eq_of_settings hl ha (hsame a ha).1 (hsame a ha).2
    exact ⟨l, by rw [hreload, hkept], rfl, rfl⟩

end Reload

/-! ### Two loggers -/

/-- A logger for `INFO` with a console for `level` and a file for `INFO`. -/
def console (level : LogLevel) : Logger where
  name := "server".toList
  level := .LINFO
  appenders :=
    [⟨.stdoutLogAppender, level, true, some (.new "$MESSAGE".toList)⟩,
     ⟨.fileLogAppender "server".toList, .LINFO, true, some (.new "$MESSAGE".toList)⟩]
  formatter := some (.new "$MESSAGE".toList)

theorem console_configured {level : LogLevel} (hlevel : level ≠ .LUNKNOWN) :
    (console level).Configured := by
  refine ⟨LogLevel.noConfusion, ⟨_, rfl⟩, ?_⟩
  intro a ha
  simp only [console, List.mem_cons, List.not_mem_nil, or_false] at ha
  rcases ha with rfl | rfl
  · exact ⟨hlevel, rfl, _, rfl⟩
  · exact ⟨by decide, rfl, _, rfl⟩

theorem console_reloads (level : LogLevel) :
    ∀ node ∈ (console level).nodes, (YamlCpp.block (console level).nodes).Reloads node := by
  have htexts : ((console level).nodes.map YamlCpp.blockText).Nodup := by
    cases level <;> decide
  exact fun node hnode => YamlCpp.block_reloads htexts hnode

theorem roundTrips_iff_console :
    RoundTrips (YamlCpp.block (console .LINFO).nodes) (console .LINFO)
      { name := "server".toList } := by
  have hconf : (console .LINFO).Configured := console_configured (by decide)
  have hiff := roundTrips_iff hconf (console_reloads .LINFO) { name := "server".toList } rfl rfl
  exact hiff.2 (by decide)

/-- A console for errors becomes one for `INFO`. -/
theorem console_level_lost : ¬ ∀ (yaml : YamlCpp) (l fresh : Logger), l.Configured →
    (∀ node ∈ l.nodes, yaml.Reloads node) → fresh.name = l.name → fresh.appenders = [] →
    RoundTrips yaml l fresh := by
  intro hall
  have hconf : (console .LERROR).Configured := console_configured (by decide)
  have hyaml := console_reloads .LERROR
  let fresh : Logger := { name := "server".toList }
  obtain ⟨l', hl', -, hsettings⟩ := hall _ _ fresh hconf hyaml rfl rfl
  obtain rfl := Except.ok.inj (hl'.symm.trans (reload_eq hconf hyaml fresh rfl rfl))
  have hlevels := congrArg (fun s => s.2.2.2.map fun a => a.2.1) hsettings
  exact absurd hlevels (by decide)

end Logger

end LpNet
