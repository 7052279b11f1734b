import LpNet.Memory

/-!
Log levels, log events, and the text of their fields.

A text is its list of characters.
-/

namespace LpNet

abbrev Text := List Char

inductive LogLevel
  | LUNKNOWN
  | LDEBUG
  | LINFO
  | LWARN
  | LERROR
  | LFATAL
  deriving DecidableEq, Repr

namespace LogLevel

def toNat : LogLevel → ℕ
  | LUNKNOWN => 0
  | LDEBUG => 1
  | LINFO => 2
  | LWARN => 3
  | LERROR => 4
  | LFATAL => 5

def toString : LogLevel → Text
  | LDEBUG => ['D', 'E', 'B', 'U', 'G']
  | LINFO => ['I', 'N', 'F', 'O']
  | LWARN => ['W', 'A', 'R', 'N']
  | LERROR => ['E', 'R', 'R', 'O', 'R']
  | LFATAL => ['F', 'A', 'T', 'A', 'L']
  | LUNKNOWN => ['N', 'O', 'N', 'E']

def fromString (str : Text) : LogLevel :=
  if str = LDEBUG.toString then LDEBUG
  else if str = LINFO.toString then LINFO
  else if str = LWARN.toString then LWARN
  else if str = LERROR.toString then LERROR
  else if str = LFATAL.toString then LFATAL
  else LUNKNOWN

theorem fromString_toString (level : LogLevel) : fromString level.toString = level := by
  cases level <;> decide

end LogLevel

inductive LogColor
  | END
  | RED
  | GREEN
  | YELLOW
  | BLUE
  | DEEP_RED
  deriving DecidableEq, Repr

def LogColor.getColor (color : LogColor) : Text :=
  match color with
  | END => ['\x1b', '[', '0', 'm']
  | RED => ['\x1b', '[', '3', '1', 'm']
  | GREEN => ['\x1b', '[', '3', '2', 'm']
  | YELLOW => ['\x1b', '[', '3', '3', 'm']
  | BLUE => ['\x1b', '[', '3', '4', 'm']
  | DEEP_RED => ['\x1b', '[', '3', '5', 'm']

structure LogColorConfig where
  LOG_END : LogColor := .END
  LOG_LEVEL_DEBUG : LogColor := .BLUE
  LOG_LEVEL_INFO : LogColor := .GREEN
  LOG_LEVEL_WARN : LogColor := .YELLOW
  LOG_LEVEL_ERROR : LogColor := .RED
  LOG_LEVEL_FATAL : LogColor := .DEEP_RED
  deriving DecidableEq, Repr

/-- `LogEvent`. The stream of the event is its content. -/
structure LogEvent where
  level : LogLevel
  filename : Text
  functionName : Text
  line : ℤ
  msElapse : ℤ
  timestamp : ℕ
  content : Text
  colorConfig : LogColorConfig := {}
  colorOn : Bool := false
  deriving DecidableEq, Repr

/-- `getElapse()`, which converts to `uint32_t`. -/
def LogEvent.getElapse (ev : LogEvent) : ℕ := (ev.msElapse % 2 ^ 32).toNat

def decimal (n : ℤ) : Text :=
  if n < 0 then '-' :: Nat.toDigits 10 n.natAbs else Nat.toDigits 10 n.natAbs

end LpNet
