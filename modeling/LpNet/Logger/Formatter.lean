import LpNet.Logger.Event
import Mathlib.Data.List.Basic

/-!
The class `LogFormatter`: how a pattern is compiled to items, and what they print.

`init` cuts the pattern at every `$` in one loop over its characters and looks at what
was cut in a second one. `initLoop_tokens` is the invariant of the first loop, and
`items_of_segments` compares the items with the segments of the pattern.
-/

namespace LpNet

/-- What has been parsed of a token: `PARSE_OK` or `PARSE_ERROR`. -/
inductive ParseStatus
  | PARSE_OK
  | PARSE_ERROR
  deriving DecidableEq, Repr

/-- `PatArgsWrapper`. -/
structure PatArgs where
  id : Text
  arg : Text
  status : ParseStatus
  deriving DecidableEq, Repr

/-- `LogFormatterItem`, with one case for each of its classes. -/
inductive LogFormatterItem
  | message
  | logLevel
  | elapse
  | logName
  | dateTime (timefmt : Text)
  | filename
  | line
  | string (str : Text)
  | char (str : Text)
  | functionName (str : Text)
  deriving DecidableEq, Repr

namespace StringApi

def startWith (s matchStr : Text) : Bool :=
  if matchStr.length > s.length then false else s.take matchStr.length = matchStr

def substr (s : Text) (pos n : ℕ) : Text := (s.drop pos).take n

def npos : ℕ := 2 ^ 64 - 1

def rfind (s : Text) (c : Char) : ℕ :=
  match s.reverse.findIdx? fun x => x = c with
  | some k => s.length - 1 - k
  | none => npos

end StringApi

namespace LogFormatter

open StringApi

def ID_TOKEN : Char := '$'

/-- The format of a date and time without an argument of its own. -/
def defaultTimefmt : Text := "%Y-%m-%d %H:%M:%S".toList

def parsePatToken (patToken : Text) : PatArgs :=
  if startWith patToken "CHAR:".toList then
    if patToken.length ≤ 5 then ⟨"CHAR".toList, [], .PARSE_ERROR⟩
    else ⟨"CHAR".toList, patToken.drop 5, .PARSE_OK⟩
  else if startWith patToken "DATETIME".toList then
    if patToken[8]? = some '\x7b' then
      let timefmtLen := rfind patToken '\x7d'
      if timefmtLen ≥ 9 then ⟨"DATETIME".toList, substr patToken 9 (timefmtLen - 9), .PARSE_OK⟩
      else ⟨patToken, [], .PARSE_ERROR⟩
    else ⟨"DATETIME".toList, defaultTimefmt, .PARSE_OK⟩
  else ⟨patToken, [], .PARSE_OK⟩

/-- The constructor of a `DateTimeFormatterItem`. -/
def dateTimeItem (str : Text) : LogFormatterItem :=
  .dateTime (if str.isEmpty then defaultTimefmt else str)

def formatItems : List (Text × (Text → LogFormatterItem)) :=
  [("MESSAGE".toList, fun _ => .message),
   ("LOG_LEVEL".toList, fun _ => .logLevel),
   ("TOTAL_MS".toList, fun _ => .elapse),
   ("LOG_NAME".toList, fun _ => .logName),
   ("DATETIME".toList, dateTimeItem),
   ("FILENAME".toList, fun _ => .filename),
   ("LINE".toList, fun _ => .line),
   ("CHAR".toList, fun str => .char str),
   ("FUNCTION_NAME".toList, fun str => .functionName str)]

/-- The first loop of `init()`, at the index `i` with `rest` from there on. -/
def initLoop (pattern : Text) :
    Text → (i startPos len : ℕ) → List PatArgs → ℕ × ℕ × List PatArgs
  | [], _, startPos, len, vec => (startPos, len, vec)
  | c :: rest, i, startPos, len, vec =>
      if c = ID_TOKEN then
        initLoop pattern rest (i + 1) (i + 1) 0
          (if len ≠ 0 then vec ++ [parsePatToken (substr pattern startPos len)] else vec)
      else initLoop pattern rest (i + 1) startPos (len + 1) vec

/-- What `init()` does after its first loop, which has left `start_pos`, `len` and `vec`. -/
def finish (pattern : Text) : ℕ × ℕ × List PatArgs → List PatArgs
  | (startPos, len, vec) =>
      if len ≠ 0 then vec ++ [parsePatToken (substr pattern startPos len)]
      else vec ++ [⟨[], [], .PARSE_ERROR⟩]

/-- The tokens that `init()` has before its second loop. -/
def initTokens (pattern : Text) : List PatArgs :=
  finish pattern (initLoop pattern pattern 0 0 0 [])

end LogFormatter

structure LogFormatter where
  pattern : Text
  items : List LogFormatterItem
  error : Text
  hasError : Bool
  deriving DecidableEq, Repr

namespace LogFormatter

/-- The message for a token that names no item. -/
def unsupported (id : Text) : Text :=
  "<<PATTERN ERROR: UNSUPPORTED FORMAT $".toList ++ id ++ ">>".toList

/-- The second loop of `init()`, at one token. -/
def addItem (f : LogFormatter) (token : PatArgs) : LogFormatter :=
  if token.status ≠ .PARSE_OK then { f with items := f.items ++ [.string token.id] }
  else
    match formatItems.find? fun entry => entry.1 = token.id with
    | none =>
        { f with items := f.items ++ [.string (unsupported token.id)]
                 error := unsupported token.id
                 hasError := true }
    | some (_, make) => { f with items := f.items ++ [make token.arg] }

def init (f : LogFormatter) : LogFormatter :=
  (initTokens f.pattern).foldl addItem { f with hasError := false }

def new (pattern : Text) : LogFormatter := init ⟨pattern, [], [], false⟩

end LogFormatter

namespace LogFormatterItem

def levelColor (conf : LogColorConfig) : LogLevel → Text
  | .LDEBUG => conf.LOG_LEVEL_DEBUG.getColor
  | .LINFO => conf.LOG_LEVEL_INFO.getColor
  | .LWARN => conf.LOG_LEVEL_WARN.getColor
  | .LERROR => conf.LOG_LEVEL_ERROR.getColor
  | .LFATAL => conf.LOG_LEVEL_FATAL.getColor
  | .LUNKNOWN => []

def format (strftime : Text → ℕ → Text) (ev : LogEvent) (name : Text) : LogFormatterItem → Text
  | .message => ev.content
  | .logLevel =>
      if ev.colorOn then
        levelColor ev.colorConfig ev.level ++ ev.level.toString ++
          if ev.level ≠ .LUNKNOWN then ev.colorConfig.LOG_END.getColor else []
      else ev.level.toString
  | .elapse => decimal ev.getElapse
  | .logName => name
  | .dateTime timefmt => strftime timefmt ev.timestamp
  | .filename => ev.filename
  | .line => decimal ev.line
  | .string str => str
  | .char str => str
  | .functionName _ => ev.functionName

end LogFormatterItem

namespace LogFormatter

def format (f : LogFormatter) (strftime : Text → ℕ → Text) (ev : LogEvent) (name : Text) : Text :=
  f.items.foldl (fun ss item => ss ++ item.format strftime ev name) []

/-! ### What the loops compute -/

def itemOf (token : PatArgs) : LogFormatterItem :=
  if token.status ≠ .PARSE_OK then .string token.id
  else
    match formatItems.find? fun entry => entry.1 = token.id with
    | none => .string (unsupported token.id)
    | some (_, make) => make token.arg

/-- The segments of a pattern: what is between its `$`, if it is not empty. -/
def segments (pattern : Text) : List Text :=
  (pattern.splitOn ID_TOKEN).filter fun segment => segment ≠ []

/-- The pattern is empty or ends with a `$`. -/
def EndsOpen (pattern : Text) : Prop := pattern = [] ∨ pattern.getLast? = some ID_TOKEN

instance (pattern : Text) : Decidable (EndsOpen pattern) := inferInstanceAs (Decidable (_ ∨ _))

/-- The tokens of a pattern, as they should be. -/
def tokens (pattern : Text) : List PatArgs :=
  (segments pattern).map parsePatToken ++
    if EndsOpen pattern then [⟨[], [], .PARSE_ERROR⟩] else []

theorem segments_of_not_mem {segment : Text} (h : ID_TOKEN ∉ segment) :
    segments segment = if segment = [] then [] else [segment] := by
  rw [segments, List.splitOn_eq_singleton h]
  by_cases hnil : segment = [] <;> simp [hnil]

theorem segments_append {segment : Text} (h : ID_TOKEN ∉ segment) (rest : Text) :
    segments (segment ++ ID_TOKEN :: rest) =
      (if segment = [] then [] else [segment]) ++ segments rest := by
  rw [segments, List.splitOn_append_cons_self_of_not_mem h, List.filter_cons, ← segments]
  by_cases hnil : segment = [] <;> simp [hnil]

theorem endsOpen_append (segment rest : Text) :
    EndsOpen (segment ++ ID_TOKEN :: rest) ↔ EndsOpen rest := by
  cases rest with
  | nil => simp [EndsOpen]
  | cons c rest => simp [EndsOpen, List.getLast?_cons_cons]

theorem endsOpen_of_not_mem {segment : Text} (h : ID_TOKEN ∉ segment) :
    EndsOpen segment ↔ segment = [] := by
  refine or_iff_left_of_imp fun hlast => ?_
  exact absurd (List.mem_of_getLast? hlast) h

theorem substr_middle (before segment rest : Text) :
    StringApi.substr (before ++ (segment ++ rest)) before.length segment.length = segment := by
  rw [StringApi.substr, List.drop_left, List.take_left]

/-- The loop with `segment` behind it, which began at `start_pos` and has no `$`: what it
pushes are the tokens of the segment and of the rest. -/
theorem initLoop_tokens {pattern before segment rest : Text} {vec : List PatArgs}
    (hpattern : pattern = before ++ (segment ++ rest)) (hsegment : ID_TOKEN ∉ segment) :
    finish pattern (initLoop pattern rest (before.length + segment.length) before.length
      segment.length vec) = vec ++ tokens (segment ++ rest) := by
  have hlen : ∀ s : Text, s.length ≠ 0 ↔ s ≠ [] := fun s => not_congr List.length_eq_zero_iff
  induction rest generalizing before segment vec with
  | nil =>
      have hsubstr := substr_middle before segment []
      rw [← hpattern] at hsubstr
      rw [initLoop, finish, List.append_nil, tokens, segments_of_not_mem hsegment]
      simp only [endsOpen_of_not_mem hsegment, hlen, hsubstr]
      by_cases hnil : segment = [] <;> simp [hnil]
  | cons c rest ih =>
      rw [initLoop]
      by_cases hc : c = ID_TOKEN
      case pos =>
        subst hc
        have hsubstr := substr_middle before segment (ID_TOKEN :: rest)
        rw [← hpattern] at hsubstr
        have hafter : pattern = (before ++ segment ++ [ID_TOKEN]) ++ ([] ++ rest) := by
          rw [hpattern]
          simp
        have hrest := @ih (before ++ segment ++ [ID_TOKEN]) []
          (if segment.length ≠ 0 then vec ++ [parsePatToken segment] else vec) hafter (by simp)
        simp only [List.length_append, List.length_nil, Nat.add_zero, List.length_singleton,
          List.nil_append] at hrest
        rw [if_pos rfl, hsubstr, hrest, tokens, tokens, segments_append hsegment]
        simp only [hlen, endsOpen_append]
        by_cases hnil : segment = [] <;> simp [hnil]
      case neg =>
        have hafter : pattern = before ++ ((segment ++ [c]) ++ rest) := by
          rw [hpattern]
          simp
        have hnot : ID_TOKEN ∉ segment ++ [c] := by
          simp [hsegment, Ne.symm hc]
        have hrest := @ih before (segment ++ [c]) vec hafter hnot
        rw [List.length_append, List.length_singleton, ← Nat.add_assoc, List.append_assoc] at hrest
        rw [if_neg hc]
        exact hrest

theorem initTokens_eq (pattern : Text) : initTokens pattern = tokens pattern :=
  @initLoop_tokens pattern [] [] pattern [] rfl (by simp)

theorem foldl_addItem (f : LogFormatter) (tokens : List PatArgs) :
    (tokens.foldl addItem f).items = f.items ++ tokens.map itemOf := by
  induction tokens generalizing f with
  | nil => exact (List.append_nil _).symm
  | cons token tokens ih =>
      have hitem : (f.addItem token).items = f.items ++ [itemOf token] := by
        rw [addItem, itemOf]
        split
        · rfl
        · split <;> rfl
      rw [List.foldl_cons, ih, hitem, List.append_assoc]
      rfl

theorem format_eq (f : LogFormatter) (strftime : Text → ℕ → Text) (ev : LogEvent) (name : Text) :
    f.format strftime ev name = f.items.flatMap fun item => item.format strftime ev name := by
  have hloop : ∀ (items : List LogFormatterItem) (ss : Text),
      items.foldl (fun ss item => ss ++ item.format strftime ev name) ss =
        ss ++ items.flatMap fun item => item.format strftime ev name := by
    intro items
    induction items with
    | nil => exact fun ss => (List.append_nil ss).symm
    | cons item items ih =>
        intro ss
        rw [List.foldl_cons, ih, List.flatMap_cons, List.append_assoc]
  exact hloop f.items []

/-- The items of a pattern are those of its segments, in order, and an empty text at the end
where the pattern is empty or ends with a `$`; and they are what is printed. -/
theorem items_of_segments (pattern : Text) :
    (new pattern).items = (segments pattern).map (fun segment => itemOf (parsePatToken segment)) ++
        (if EndsOpen pattern then [.string []] else []) ∧
      ∀ (strftime : Text → ℕ → Text) (ev : LogEvent) (name : Text),
        (new pattern).format strftime ev name =
          (segments pattern).flatMap fun segment =>
            (itemOf (parsePatToken segment)).format strftime ev name := by
  have hitems : (new pattern).items =
      (segments pattern).map (fun segment => itemOf (parsePatToken segment)) ++
        (if EndsOpen pattern then [.string []] else []) := by
    rw [new, init, foldl_addItem, initTokens_eq, tokens, List.map_append, List.map_map]
    split <;> rfl
  refine ⟨hitems, fun strftime ev name => ?_⟩
  rw [format_eq, hitems, List.flatMap_append, List.flatMap_map]
  split
  · simp [LogFormatterItem.format]
  · simp

end LogFormatter

end LpNet
