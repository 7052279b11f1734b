import LpNet.Lib.Transition
import LpNet.Logger.Clock
import LpNet.Memory
import Mathlib.Data.List.TakeWhile
import Mathlib.Logic.Function.Basic

/-!
The class `FileLogAppender`: which file a line goes to.

`lines_` and `cnt_` count lines and files, but only a reopening looks at them, and it is
held back for three ticks of the timestamps. `RotationLog` is the appender with the number of
lines of each file and the files it has rotated from; a line is what `lines_` counts, the text of
one event. `Kept` is the invariant of the runs that respect the limit: how many lines the open
file has, from `lines_` and its value when the file was opened. `respects_iff` says which
runs these are.
-/

namespace LpNet

open Transition

/-- What names a file: a text without NUL. -/
abbrev FileName := { name : Text // '\x00' ∉ name }

/-- `c_str()`, which ends at the first NUL. -/
def cString (s : Text) : Text := s.takeWhile (· ≠ '\x00')

theorem cString_eq {s : Text} (h : '\x00' ∉ s) : cString s = s :=
  List.takeWhile_eq_self_iff.mpr fun _ hc => decide_eq_true fun heq => h (heq ▸ hc)

/-- A `std::ofstream`: the file that is open, and whether the stream is in a good state. -/
@[ext] structure FileStream where
  file : Option Text
  good : Bool
  deriving DecidableEq, Repr

namespace FileStream

/-- `close()`, which fails if no file is open. -/
def close (fs : FileStream) : FileStream := ⟨none, fs.good && fs.file.isSome⟩

/-- `open(name, std::ios::app)`, which fails if a file is open, or if `opens` does not hold. -/
def «open» (fs : FileStream) (name : Text) (opens : Bool) : FileStream :=
  match fs.file with
  | some file => ⟨some file, false⟩
  | none => if opens then ⟨some (cString name), true⟩ else ⟨none, false⟩

end FileStream

structure FileLogAppender where
  filename : FileName
  level : LogLevel
  stream : FileStream
  lastAccessTime : ℕ
  lines : ℕ
  cnt : ℕ
  today : ℤ
  deriving DecidableEq, Repr

/-- A call of `log`: the level and the timestamp of the event, the day `tm_yday` on which it is
made, and whether a file can be opened and written. -/
structure LogCall where
  level : LogLevel
  timestamp : ℕ
  today : ℤ
  opens : Bool
  writes : Bool
  deriving DecidableEq, Repr

namespace FileLogAppender

def kMaxLines : ℕ := 100000

/-- The name that `getWholeFilename()` puts together. -/
def wholeFilename (filename todayStr : Text) (cnt : ℕ) : Text :=
  filename ++ '_' :: (todayStr ++ '_' :: (padded cnt ++ ".log".toList))

/-- `getWholeFilename()`, where `Clock::currentDay` returns `day`. -/
def getWholeFilename (a : FileLogAppender) (day : ℤ × Text) : Text × FileLogAppender :=
  let a := if day.1 ≠ a.today then { a with today := day.1, cnt := 0 } else a
  (wholeFilename a.filename day.2 a.cnt, a)

def reopen (a : FileLogAppender) (day : ℤ × Text) (opens : Bool) : FileLogAppender :=
  let fs := if a.stream.good then a.stream.close else a.stream
  let (name, a) := a.getWholeFilename day
  { a with stream := fs.open name opens }

def new (filename : FileName) (today : ℤ) (day : ℤ × Text) (opens : Bool) : FileLogAppender :=
  reopen ⟨filename, .LDEBUG, ⟨none, true⟩, 0, 0, 0, today⟩ day opens

def Due (a : FileLogAppender) (now : ℕ) : Prop := (a.lastAccessTime + 3) % 2 ^ 64 ≤ now

instance (a : FileLogAppender) (now : ℕ) : Decidable (a.Due now) :=
  inferInstanceAs (Decidable (_ ≤ _))

def countLine (a : FileLogAppender) : FileLogAppender :=
  let lines := (a.lines + 1) % 2 ^ 64
  if lines ≥ kMaxLines then { a with lines := 0, cnt := (a.cnt + 1) % 2 ^ 8 }
  else { a with lines := lines }

/-- What `log` does in the lock, with the file that has received a line. -/
def writeLine (a : FileLogAppender) (writes : Bool) : Option Text × FileLogAppender :=
  if a.stream.good then
    match a.stream.file with
    | some name =>
        if writes then (some name, a.countLine)
        else (none, { a with stream := ⟨some name, false⟩ })
    | none => (none, { a with stream := ⟨none, false⟩ })
  else (none, a)

/-- `log(pEvent, pLogger)` in the year `year`. -/
def log (year : ℕ) (a : FileLogAppender) (c : LogCall) : Option Text × FileLogAppender :=
  if c.level.toNat ≥ a.level.toNat then
    let a :=
      if a.Due c.timestamp then
        { a.reopen (Clock.currentDay year c.today) c.opens with lastAccessTime := c.timestamp }
      else a
    a.writeLine c.writes
  else (none, a)

/-! ### Names and reopening -/

theorem wholeFilename_inj {filename s t : Text} {m n : ℕ}
    (h : wholeFilename filename s m = wholeFilename filename t n) : s = t ∧ m = n := by
  have hrest : ∀ n, '_' ∉ padded n ++ ".log".toList := by
    intro n
    rw [List.mem_append, not_or]
    exact ⟨not_mem_padded (by decide) n, by decide⟩
  have hafter := List.append_cancel_left h
  rw [List.cons.injEq] at hafter
  obtain ⟨hday, hcnt⟩ := append_cons_inj (hrest m) (hrest n) hafter.2
  exact ⟨hday, padded_injective (List.append_cancel_right hcnt)⟩

def cntOn (a : FileLogAppender) (today : ℤ) : ℕ := if today ≠ a.today then 0 else a.cnt

theorem getWholeFilename_eq (a : FileLogAppender) (day : ℤ × Text) :
    a.getWholeFilename day = (wholeFilename a.filename day.2 (a.cntOn day.1),
      { a with today := day.1, cnt := a.cntOn day.1 }) := by
  by_cases h : day.1 = a.today <;> simp [getWholeFilename, cntOn, h]

theorem cString_wholeFilename (filename : FileName) (year : ℕ) (yday : ℤ) (cnt : ℕ) :
    cString (wholeFilename filename (Clock.currentDay year yday).2 cnt) =
      wholeFilename filename (Clock.currentDay year yday).2 cnt := by
  refine cString_eq ?_
  simp only [wholeFilename, List.mem_append, List.mem_cons, not_or]
  exact ⟨filename.2, by decide, Clock.not_mem_currentDay (by decide) (by decide) year yday,
    by decide, not_mem_padded (by decide) cnt, by decide⟩

theorem reopen_eq {a : FileLogAppender} (h : a.stream.good = true ∨ a.stream.file = none)
    (year : ℕ) (yday : ℤ) (opens : Bool) :
    a.reopen (Clock.currentDay year yday) opens = { a with
      today := yday
      cnt := a.cntOn yday
      stream :=
        if opens then
          ⟨some (wholeFilename a.filename (Clock.currentDay year yday).2 (a.cntOn yday)), true⟩
        else ⟨none, false⟩ } := by
  rw [reopen, getWholeFilename_eq]
  by_cases hgood : a.stream.good = true
  case pos => simp [hgood, FileStream.close, FileStream.open, cString_wholeFilename]
  case neg =>
    have hnone : a.stream.file = none := h.resolve_left hgood
    simp [hgood, hnone, FileStream.open, cString_wholeFilename]

theorem countLine_eq {a : FileLogAppender} (h : a.lines < kMaxLines) :
    a.countLine =
      if a.lines + 1 = kMaxLines then { a with lines := 0, cnt := (a.cnt + 1) % 2 ^ 8 }
      else { a with lines := a.lines + 1 } := by
  have hmod : (a.lines + 1) % 2 ^ 64 = a.lines + 1 := by
    rw [kMaxLines] at h
    omega
  rw [countLine, hmod]
  by_cases hlast : a.lines + 1 = kMaxLines
  case pos => simp [hlast]
  case neg =>
    have hlt : ¬ a.lines + 1 ≥ kMaxLines := by omega
    simp [hlast, hlt]

theorem countLine_lines_lt {a : FileLogAppender} (h : a.lines < kMaxLines) :
    a.countLine.lines < kMaxLines := by
  rw [countLine_eq h]
  split
  case isTrue => exact Nat.zero_lt_of_lt h
  case isFalse hlast =>
    change a.lines + 1 < kMaxLines
    omega

theorem countLine_frame (a : FileLogAppender) :
    a.countLine.stream = a.stream ∧ a.countLine.level = a.level ∧
      a.countLine.lastAccessTime = a.lastAccessTime ∧ a.countLine.today = a.today := by
  rw [countLine]
  split <;> exact ⟨rfl, rfl, rfl, rfl⟩

end FileLogAppender

/-- The appender with a log of its files: how many lines each has received, which ones it has
rotated from within a day, and how many lines these have received after that (`late`).
`openedName` is the file that was opened last, on `openedDay` and after `openedCount` rotations
of that day, when `lines_` was `carried`; `count` is the number of rotations that have become
due on the day of `today_`. -/
structure RotationLog where
  appender : FileLogAppender
  received : Text → ℕ
  rotated : List Text
  late : ℕ
  openedName : Text
  openedDay : ℤ
  openedCount : ℕ
  carried : ℕ
  count : ℕ

namespace RotationLog

open FileLogAppender

variable (year : ℕ)

def new (filename : FileName) (level : LogLevel) (today day : ℤ) (opens : Bool) : RotationLog where
  appender := { FileLogAppender.new filename today (Clock.currentDay year day) opens with level }
  received _ := 0
  rotated := []
  late := 0
  openedName := wholeFilename filename (Clock.currentDay year day).2 0
  openedDay := day
  openedCount := 0
  carried := 0
  count := 0

/-- How many rotations have become due on the day `today`. -/
def countOn (r : RotationLog) (today : ℤ) : ℕ := if today ≠ r.appender.today then 0 else r.count

def reopen (r : RotationLog) (c : LogCall) : RotationLog :=
  let a := { r.appender.reopen (Clock.currentDay year c.today) c.opens with
    lastAccessTime := c.timestamp }
  let name := (r.appender.getWholeFilename (Clock.currentDay year c.today)).1
  if a.stream.good ∧ name ≠ r.openedName then
    { r with
      appender := a
      rotated := if c.today = r.openedDay then r.openedName :: r.rotated else r.rotated
      openedName := name
      openedDay := c.today
      openedCount := r.countOn c.today
      carried := a.lines
      count := r.countOn c.today }
  else { r with appender := a, count := r.countOn c.today }

/-- The writing in `log`. -/
def writeLine (r : RotationLog) (writes : Bool) : RotationLog :=
  let (file, a) := r.appender.writeLine writes
  { r with
    appender := a
    received := fun name => if file = some name then r.received name + 1 else r.received name
    late := if ∃ name ∈ r.rotated, file = some name then r.late + 1 else r.late
    count := if a.cnt ≠ r.appender.cnt then r.count + 1 else r.count }

def log (r : RotationLog) (c : LogCall) : RotationLog :=
  if c.level.toNat ≥ r.appender.level.toNat then
    (if r.appender.Due c.timestamp then r.reopen year c else r).writeLine c.writes
  else r

/-- `log` as the step of a machine, which never faults. -/
def step (r : RotationLog) (c : LogCall) : Except Empty (Unit × RotationLog) :=
  .ok ((), r.log year c)

theorem reopen_appender (r : RotationLog) (c : LogCall) :
    (r.reopen year c).appender =
      { r.appender.reopen (Clock.currentDay year c.today) c.opens with
        lastAccessTime := c.timestamp } := by
  rw [reopen]
  split <;> rfl

theorem log_appender (r : RotationLog) (c : LogCall) :
    (r.log year c).appender = (r.appender.log year c).2 := by
  rw [log, FileLogAppender.log]
  split
  · split
    · rw [← reopen_appender]
      rfl
    · rfl
  · rfl

/-! ### The limit -/

/-- No file has received more lines than `kMaxLines`, and none any after it was rotated from. -/
def Respects (r : RotationLog) : Prop :=
  (∀ name, r.received name ≤ kMaxLines) ∧ r.late = 0

/-- The line of a call reaches a file: it is not filtered, and the file can be opened, where it
has to be, and written. -/
def Lands (a : FileLogAppender) (c : LogCall) : Prop :=
  c.level.toNat ≥ a.level.toNat ∧ c.writes = true ∧
    if a.Due c.timestamp then c.opens = true ∧ (a.stream.good = true ∨ a.stream.file = none)
    else a.stream.good = true

instance (a : FileLogAppender) (c : LogCall) : Decidable (Lands a c) :=
  inferInstanceAs (Decidable (_ ∧ _ ∧ ite _ _ _))

/-- Where the line of a call reaches a file, the file is opened again after less than 256 rotations
of its day, or it is not, and no rotation is due, or `lines_` is below what it was when the file
was opened. -/
def Ready (r : RotationLog) (c : LogCall) : Prop :=
  Lands r.appender c →
    if r.appender.Due c.timestamp then c.today ≠ r.appender.today ∨ r.count < 2 ^ 8
    else r.count = r.openedCount ∨ r.appender.lines < r.carried

instance (r : RotationLog) (c : LogCall) : Decidable (r.Ready c) :=
  inferInstanceAs (Decidable (_ → ite _ _ _))

/-- The file of the `count`-th rotation of a day. -/
def file (r : RotationLog) (day : ℤ) (count : ℕ) : Text :=
  wholeFilename r.appender.filename (Clock.currentDay year day).2 count

/-- The invariant: `received` and `rotated` for the files of each day and rotation, where
`openedName` is the last one that has been used. -/
structure Kept (r : RotationLog) : Prop where
  cnt : r.appender.cnt = r.count % 2 ^ 8
  lines : r.appender.lines < kMaxLines
  carried : r.carried < kMaxLines
  openedCount : r.openedCount < 2 ^ 8
  openedDay : 0 ≤ r.openedDay ∧ r.openedDay ≤ r.appender.today
  openedName : r.openedName = r.file year r.openedDay r.openedCount
  stream : r.appender.stream.good = true →
    r.appender.stream.file = some r.openedName ∧ r.openedDay = r.appender.today
  later : r.openedDay < r.appender.today → r.count = 0
  filled : r.openedDay = r.appender.today →
    (r.count = r.openedCount ∧ r.received r.openedName + r.carried = r.appender.lines) ∨
    (r.count = r.openedCount + 1 ∧ r.appender.lines ≤ r.carried ∧
      r.received r.openedName + r.carried = kMaxLines + r.appender.lines)
  le : ∀ name, r.received name ≤ kMaxLines
  late : r.late = 0
  fresh : ∀ day count, (r.openedDay < day ∨ r.openedDay = day ∧ r.openedCount < count) →
    r.received (r.file year day count) = 0 ∧ r.file year day count ∉ r.rotated
  current : r.openedName ∉ r.rotated
  past : ∀ count < r.openedCount, r.file year r.openedDay count ∈ r.rotated

/-- The stream has failed with a file open. It is never reopened. -/
def Stuck (r : RotationLog) : Prop :=
  r.appender.stream.good = false ∧ r.appender.stream.file ≠ none

/-- What holds in all states of a run that respects the limit. -/
def Fine (r : RotationLog) : Prop := r.Respects ∧ (r.Stuck ∨ r.Kept year)

section Steps

variable {year} {r : RotationLog} {c : LogCall}

theorem file_inj {d e : ℤ} {m n : ℕ} (hd : 0 ≤ d) (he : 0 ≤ e)
    (h : r.file year d m = r.file year e n) : d = e ∧ m = n := by
  obtain ⟨hday, hcount⟩ := wholeFilename_inj h
  exact ⟨Clock.currentDay_inj hd he hday, hcount⟩

theorem reopen_fails (h : r.appender.stream.good = true ∨ r.appender.stream.file = none)
    (hopens : c.opens = false) :
    r.reopen year c = { r with
      appender := { r.appender with
        today := c.today
        cnt := r.appender.cntOn c.today
        stream := ⟨none, false⟩
        lastAccessTime := c.timestamp }
      count := r.countOn c.today } := by
  simp [reopen, reopen_eq h, hopens]

theorem reopen_opens (h : r.appender.stream.good = true ∨ r.appender.stream.file = none)
    (hopens : c.opens = true) :
    r.reopen year c =
      let name := r.file year c.today (r.appender.cntOn c.today)
      let a := { r.appender with
        today := c.today
        cnt := r.appender.cntOn c.today
        stream := ⟨some name, true⟩
        lastAccessTime := c.timestamp }
      if name ≠ r.openedName then { r with
        appender := a
        rotated := if c.today = r.openedDay then r.openedName :: r.rotated else r.rotated
        openedName := name
        openedDay := c.today
        openedCount := r.countOn c.today
        carried := r.appender.lines
        count := r.countOn c.today }
      else { r with appender := a, count := r.countOn c.today } := by
  simp only [reopen, reopen_eq h, hopens, getWholeFilename_eq, Clock.currentDay_fst, file,
    if_true, true_and]
  congr

theorem Kept.cntOn (h : r.Kept year) (today : ℤ) :
    r.appender.cntOn today = r.countOn today % 2 ^ 8 := by
  rw [FileLogAppender.cntOn, countOn]
  split
  · rfl
  · exact h.cnt

/-- The day and the number of rotations with which a reopening goes on. -/
theorem Kept.next (h : r.Kept year) (htoday : r.appender.today ≤ c.today) :
    (r.openedDay < c.today ∧ r.countOn c.today = 0) ∨
      (r.openedDay = c.today ∧ r.appender.today = c.today ∧ r.countOn c.today = r.count) := by
  have hday := h.openedDay
  rcases Int.lt_or_eq_of_le (Int.le_trans hday.2 htoday) with hlt | heq
  · refine .inl ⟨hlt, ?_⟩
    rw [countOn]
    split
    · rfl
    · exact h.later (by omega)
  · have hsame : r.appender.today = c.today := by omega
    exact .inr ⟨heq, hsame, by rw [countOn, if_neg (by simp [hsame])]⟩

theorem Kept.reopen_fails (h : r.Kept year) (htoday : r.appender.today ≤ c.today)
    (hfree : r.appender.stream.good = true ∨ r.appender.stream.file = none)
    (hopens : c.opens = false) :
    (r.reopen year c).Kept year ∧ (r.reopen year c).appender.stream = ⟨none, false⟩ := by
  have hnext := h.next htoday
  rw [RotationLog.reopen_fails hfree hopens]
  refine ⟨?_, rfl⟩
  exact
    { h with
      cnt := h.cntOn c.today
      openedDay := ⟨h.openedDay.1, Int.le_trans h.openedDay.2 htoday⟩
      stream := fun hgood => by cases hgood
      later := fun hlt => by
        rcases hnext with ⟨-, hzero⟩ | ⟨hsame, -, -⟩
        · exact hzero
        · exact absurd hlt (by simp [hsame])
      filled := fun hsame => by
        rcases hnext with ⟨hlt, -⟩ | ⟨heq, htoday', hcount⟩
        · exact absurd hsame (by simpa using Int.ne_of_lt hlt)
        · rw [hcount]
          exact h.filled (heq.trans htoday'.symm) }

theorem Kept.openedName_ne (h : r.Kept year) {day : ℤ} {count : ℕ}
    (hlater : r.openedDay < day ∨ r.openedDay = day ∧ r.openedCount < count) :
    r.openedName ≠ r.file year day count := by
  have hopened := h.openedDay.1
  rw [h.openedName]
  intro heq
  obtain ⟨hday, hcount⟩ := file_inj hopened (by omega) heq
  omega

theorem Kept.count_le (h : r.Kept year) (hday : r.openedDay = r.appender.today) :
    r.count ≤ r.openedCount + 1 := by
  rcases h.filled hday with ⟨hcur, -⟩ | ⟨hcur, -⟩
  · omega
  · omega

theorem Kept.opens_beyond (h : r.Kept year) (htoday : r.appender.today ≤ c.today)
    (hname : r.file year c.today (r.countOn c.today) ≠ r.openedName) :
    r.openedDay < c.today ∨ r.openedDay = c.today ∧ r.openedCount < r.countOn c.today := by
  rcases h.next htoday with ⟨hlt, -⟩ | ⟨heq, htoday', hsame⟩
  · exact .inl hlt
  · refine .inr ⟨heq, ?_⟩
    rcases h.filled (heq.trans htoday'.symm) with ⟨hcur, -⟩ | ⟨hcur, -⟩
    · rw [hsame, hcur, ← heq] at hname
      exact absurd h.openedName.symm hname
    · omega

/-- A reopening that succeeds goes on with the file that was opened last, or with a fresh one. -/
theorem Kept.reopen_opens (h : r.Kept year) (htoday : r.appender.today ≤ c.today)
    (hfree : r.appender.stream.good = true ∨ r.appender.stream.file = none)
    (hopens : c.opens = true) (hcount : r.countOn c.today < 2 ^ 8) :
    (r.reopen year c).Kept year ∧ (r.reopen year c).appender.stream.good = true ∧
      (r.reopen year c).count = (r.reopen year c).openedCount := by
  have hnext := h.next htoday
  have hday : 0 ≤ c.today := Int.le_trans h.openedDay.1 (Int.le_trans h.openedDay.2 htoday)
  rw [RotationLog.reopen_opens hfree hopens, h.cntOn c.today, Nat.mod_eq_of_lt hcount]
  dsimp only
  by_cases hname : r.file year c.today (r.countOn c.today) = r.openedName
  case pos =>
    obtain ⟨heq, hopened⟩ := file_inj hday h.openedDay.1 (hname.trans h.openedName)
    rw [if_neg (not_not_intro hname)]
    refine ⟨?_, rfl, hopened⟩
    have hsame : r.appender.today = c.today ∧ r.countOn c.today = r.count := by
      rcases hnext with ⟨hlt, -⟩ | ⟨-, hrest⟩
      · omega
      · exact hrest
    exact
      { h with
        cnt := (Nat.mod_eq_of_lt hcount).symm
        openedDay := ⟨h.openedDay.1, by simp [heq]⟩
        stream := fun _ => ⟨congrArg some hname, heq.symm⟩
        later := fun hlt => absurd hlt (by simp [heq])
        filled := fun _ => by
          rw [hsame.2]
          exact h.filled (heq.symm.trans hsame.1.symm) }
  case neg =>
    rw [if_pos hname]
    refine ⟨?_, rfl, rfl⟩
    have hbeyond := h.opens_beyond htoday hname
    have hfresh := h.fresh c.today (r.countOn c.today) hbeyond
    have hrotated : ∀ name, name ≠ r.openedName → name ∉ r.rotated →
        name ∉ (if c.today = r.openedDay then r.openedName :: r.rotated else r.rotated) := by
      intro name hne hmem
      split
      · simp [hne, hmem]
      · exact hmem
    exact
      { h with
        cnt := (Nat.mod_eq_of_lt hcount).symm
        carried := h.lines
        openedCount := hcount
        openedDay := ⟨hday, Int.le_refl _⟩
        openedName := rfl
        stream := fun _ => ⟨rfl, rfl⟩
        later := fun hlt => absurd hlt (Int.lt_irrefl _)
        filled := fun _ => .inl ⟨rfl, by simp [hfresh.1]⟩
        fresh := fun day count
            (hlater : c.today < day ∨ c.today = day ∧ r.countOn c.today < count) => by
          have hlater' : r.openedDay < day ∨ r.openedDay = day ∧ r.openedCount < count := by
            omega
          have hunused := h.fresh day count hlater'
          exact ⟨hunused.1, hrotated _ (h.openedName_ne hlater').symm hunused.2⟩
        current := hrotated _ hname hfresh.2
        past := fun count (hlt : count < r.countOn c.today) => by
          rcases hnext with ⟨-, hzero⟩ | ⟨heq, htoday', hsame⟩
          · omega
          · rw [if_pos heq.symm, List.mem_cons, ← heq]
            have hdue := h.count_le (heq.trans htoday'.symm)
            rcases Nat.lt_or_eq_of_le (Nat.le_of_lt_succ (by omega : count < r.openedCount + 1))
              with hbefore | rfl
            · exact .inr (h.past count hbefore)
            · exact .inl h.openedName.symm }

theorem writeLine_eq {name : Text} (hstream : r.appender.stream = ⟨some name, true⟩)
    (hlines : r.appender.lines < kMaxLines) :
    r.writeLine true = { r with
      appender := r.appender.countLine
      received := fun other => if name = other then r.received other + 1 else r.received other
      late := if name ∈ r.rotated then r.late + 1 else r.late
      count := if r.appender.lines + 1 = kMaxLines then r.count + 1 else r.count } := by
  have hcnt : r.appender.countLine.cnt ≠ r.appender.cnt ↔ r.appender.lines + 1 = kMaxLines := by
    rw [countLine_eq hlines]
    split
    · simp [*]
      omega
    · simp [*]
  simp only [writeLine, FileLogAppender.writeLine, hstream, if_true, Option.some.injEq, hcnt]
  simp

/-- A line that reaches the file opened last, where no rotation is due or there is still room. -/
theorem Kept.writeLine (h : r.Kept year) (hgood : r.appender.stream.good = true)
    (hroom : r.count = r.openedCount ∨ r.appender.lines < r.carried) :
    (r.writeLine true).Kept year := by
  obtain ⟨hfile, hday⟩ := h.stream hgood
  have hfilled := h.filled hday
  have hcarried := h.carried
  have hlines := h.lines
  have hle := h.le r.openedName
  rw [writeLine_eq (FileStream.ext hfile hgood) h.lines, if_neg h.current, countLine_eq h.lines]
  have hle' : ∀ name,
      (if r.openedName = name then r.received name + 1 else r.received name) ≤ kMaxLines := by
    intro name
    split
    case isTrue heq =>
      subst heq
      omega
    case isFalse => exact h.le name
  have hfresh : ∀ day count, (r.openedDay < day ∨ r.openedDay = day ∧ r.openedCount < count) →
      (if r.openedName = r.file year day count then r.received (r.file year day count) + 1
        else r.received (r.file year day count)) = 0 ∧ r.file year day count ∉ r.rotated := by
    intro day count hlater
    rw [if_neg (h.openedName_ne hlater)]
    exact h.fresh day count hlater
  by_cases hlast : r.appender.lines + 1 = kMaxLines
  case pos =>
    have hdue : r.count = r.openedCount := by omega
    rw [if_pos hlast, if_pos hlast]
    exact
      { h with
        cnt := by
          change (r.appender.cnt + 1) % 2 ^ 8 = (r.count + 1) % 2 ^ 8
          rw [h.cnt, Nat.mod_add_mod]
        lines := Nat.zero_lt_of_lt hcarried
        stream := fun _ => ⟨hfile, hday⟩
        later := fun hlt => absurd hlt (by simp [hday])
        filled := fun _ => by
          refine .inr ⟨congrArg (· + 1) hdue, Nat.zero_le _, ?_⟩
          simp only [if_true]
          omega
        le := hle'
        fresh := hfresh }
  case neg =>
    rw [if_neg hlast, if_neg hlast]
    exact
      { h with
        lines := by
          change r.appender.lines + 1 < kMaxLines
          omega
        stream := fun _ => ⟨hfile, hday⟩
        filled := fun _ => by
          simp only [if_true]
          omega
        le := hle'
        fresh := hfresh }

theorem writeLine_of_bad (hgood : r.appender.stream.good = false) (writes : Bool) :
    r.writeLine writes = r := by
  simp [RotationLog.writeLine, FileLogAppender.writeLine, hgood]

theorem writeLine_fails {name : Text} (hstream : r.appender.stream = ⟨some name, true⟩) :
    r.writeLine false =
      { r with appender := { r.appender with stream := ⟨some name, false⟩ } } := by
  simp [RotationLog.writeLine, FileLogAppender.writeLine, hstream]

theorem reopen_respects (h : r.Respects) : (r.reopen year c).Respects := by
  rw [Respects, reopen]
  split <;> exact h

theorem Stuck.reopen (h : r.Stuck) : (r.reopen year c).Stuck := by
  rw [Stuck, reopen_appender, FileLogAppender.reopen]
  obtain ⟨hgood, hfile⟩ := h
  cases hname : r.appender.stream.file with
  | none => exact absurd hname hfile
  | some name => simp [hgood, hname, FileStream.open]

theorem Kept.respects (h : r.Kept year) : r.Respects := ⟨h.le, h.late⟩

theorem Respects.fails {name : Text} (h : r.Respects)
    (hstream : r.appender.stream = ⟨some name, true⟩) : (r.writeLine false).Fine year := by
  rw [writeLine_fails hstream]
  exact ⟨h, .inl ⟨rfl, Option.some_ne_none name⟩⟩

theorem Kept.log_due (h : r.Kept year) (htoday : r.appender.today ≤ c.today)
    (hfree : r.appender.stream.good = true ∨ r.appender.stream.file = none)
    (hroom : c.opens = true → c.writes = true →
      c.today ≠ r.appender.today ∨ r.count < 2 ^ 8) :
    ((r.reopen year c).writeLine c.writes).Fine year := by
  cases hopens : c.opens with
  | false =>
      obtain ⟨hkept, hstream⟩ := h.reopen_fails htoday hfree hopens
      rw [writeLine_of_bad (by rw [hstream])]
      exact ⟨hkept.respects, .inr hkept⟩
  | true =>
      cases hwrites : c.writes with
      | false =>
          have hstream : (r.reopen year c).appender.stream =
              ⟨some (r.file year c.today (r.appender.cntOn c.today)), true⟩ := by
            rw [reopen_appender, reopen_eq hfree, hopens]
            rfl
          exact (reopen_respects h.respects).fails hstream
      | true =>
          have hcount : r.countOn c.today < 2 ^ 8 := by
            rw [countOn]
            split
            · decide
            · exact (hroom hopens hwrites).resolve_left ‹_›
          obtain ⟨hkept, hgood, hcur⟩ := h.reopen_opens htoday hfree hopens hcount
          have hwritten := hkept.writeLine hgood (.inl hcur)
          exact ⟨hwritten.respects, .inr hwritten⟩

theorem Kept.log_open (h : r.Kept year)
    (hroom : r.appender.stream.good = true → c.writes = true →
      r.count = r.openedCount ∨ r.appender.lines < r.carried) :
    (r.writeLine c.writes).Fine year := by
  cases hgood : r.appender.stream.good with
  | false =>
      rw [writeLine_of_bad hgood]
      exact ⟨h.respects, .inr h⟩
  | true =>
      cases hwrites : c.writes with
      | false => exact h.respects.fails (FileStream.ext (h.stream hgood).1 hgood)
      | true =>
          have hwritten := h.writeLine hgood (hroom hgood hwrites)
          exact ⟨hwritten.respects, .inr hwritten⟩

/-- The step lemma: a call that finds room keeps the invariant. -/
theorem Fine.log (h : r.Fine year) (htoday : r.appender.today ≤ c.today) (hready : r.Ready c) :
    (r.log year c).Fine year := by
  rw [RotationLog.log]
  by_cases hlevel : c.level.toNat ≥ r.appender.level.toNat
  case neg => rwa [if_neg hlevel]
  rw [if_pos hlevel]
  by_cases hstuck : r.Stuck
  case pos =>
    by_cases hdue : r.appender.Due c.timestamp
    case pos =>
      rw [if_pos hdue, writeLine_of_bad hstuck.reopen.1]
      exact ⟨reopen_respects h.1, .inl hstuck.reopen⟩
    case neg =>
      rw [if_neg hdue, writeLine_of_bad hstuck.1]
      exact h
  case neg =>
    have hkept : r.Kept year := h.2.resolve_left hstuck
    have hfree : r.appender.stream.good = true ∨ r.appender.stream.file = none := by
      rw [Stuck, not_and_or, not_not, Bool.not_eq_false] at hstuck
      exact hstuck
    by_cases hdue : r.appender.Due c.timestamp
    case pos =>
      rw [if_pos hdue]
      refine hkept.log_due htoday hfree fun hopens hwrites => ?_
      have hroom := hready ⟨hlevel, hwrites, by rw [if_pos hdue]; exact ⟨hopens, hfree⟩⟩
      rwa [if_pos hdue] at hroom
    case neg =>
      rw [if_neg hdue]
      refine hkept.log_open fun hgood hwrites => ?_
      have hroom := hready ⟨hlevel, hwrites, by rw [if_neg hdue]; exact hgood⟩
      rwa [if_neg hdue] at hroom

/-- A file that is opened again on its day receives a line after it was rotated from. -/
theorem Kept.reopen_wraps (h : r.Kept year)
    (hfree : r.appender.stream.good = true ∨ r.appender.stream.file = none)
    (hopens : c.opens = true) (hsame : c.today = r.appender.today) (hcount : ¬ r.count < 2 ^ 8) :
    ¬ ((r.reopen year c).writeLine true).Respects := by
  have hopened := h.openedCount
  have hday : r.openedDay = r.appender.today := by
    refine Int.le_antisymm h.openedDay.2 (Int.not_lt.1 fun hlt => hcount ?_)
    rw [h.later hlt]
    decide
  have hlast : r.openedCount = 255 ∧ r.countOn c.today = 256 := by
    have hle := h.count_le hday
    rw [countOn, if_neg (by simp [hsame])]
    omega
  have hzero : r.appender.cntOn c.today = 0 := by
    rw [h.cntOn, hlast.2]
    decide
  have hpast : r.file year c.today 0 ∈ r.rotated := by
    rw [hsame, ← hday]
    exact h.past 0 (by omega)
  have hname : r.file year c.today 0 ≠ r.openedName := fun heq => h.current (heq ▸ hpast)
  have hreopen := @RotationLog.reopen_opens year r c hfree hopens
  dsimp only at hreopen
  rw [hzero, if_pos hname] at hreopen
  have hrotated : r.file year c.today 0 ∈ (r.reopen year c).rotated := by
    rw [hreopen]
    dsimp only
    split
    · exact List.mem_cons_of_mem _ hpast
    · exact hpast
  have hstream : (r.reopen year c).appender.stream = ⟨some (r.file year c.today 0), true⟩ := by
    rw [hreopen]
  have hlines : (r.reopen year c).appender.lines < kMaxLines := by
    rw [hreopen]
    exact h.lines
  intro hrespects
  rw [writeLine_eq hstream hlines, if_pos hrotated] at hrespects
  exact Nat.succ_ne_zero _ hrespects.2

/-- A file whose rotation is due and that has no room left receives a line more. -/
theorem Kept.writeLine_full (h : r.Kept year) (hgood : r.appender.stream.good = true)
    (hroom : ¬ (r.count = r.openedCount ∨ r.appender.lines < r.carried)) :
    ¬ (r.writeLine true).Respects := by
  obtain ⟨hfile, hday⟩ := h.stream hgood
  rw [writeLine_eq (FileStream.ext hfile hgood) h.lines]
  intro hrespects
  have hle := hrespects.1 r.openedName
  have hfilled := h.filled hday
  simp only [if_true] at hle
  omega

/-- A call that finds no room breaks the limit. -/
theorem Fine.log_bad (h : r.Fine year) (hready : ¬ r.Ready c) : ¬ (r.log year c).Respects := by
  rw [Ready, Classical.not_imp] at hready
  obtain ⟨⟨hlevel, hwrites, hlands⟩, hroom⟩ := hready
  rw [RotationLog.log, if_pos hlevel, hwrites]
  by_cases hdue : r.appender.Due c.timestamp
  case pos =>
    rw [if_pos hdue] at hlands hroom ⊢
    rw [not_or, not_not] at hroom
    have hstuck : ¬ r.Stuck := fun hstuck => by
      rcases hlands.2 with hgood | hnone
      · exact Bool.false_ne_true (hstuck.1.symm.trans hgood)
      · exact hstuck.2 hnone
    exact (h.2.resolve_left hstuck).reopen_wraps hlands.2 hlands.1 hroom.1 hroom.2
  case neg =>
    rw [if_neg hdue] at hlands hroom ⊢
    have hstuck : ¬ r.Stuck := fun hstuck =>
      Bool.false_ne_true (hstuck.1.symm.trans hlands)
    exact (h.2.resolve_left hstuck).writeLine_full hlands hroom

end Steps

/-! ### Runs -/

/-- Whatever `today_` is at first, the constructor opens the first file of the day. -/
theorem new_appender (filename : FileName) (level : LogLevel) (today day : ℤ) (opens : Bool) :
    (new year filename level today day opens).appender =
      ⟨filename, level,
        if opens then ⟨some (wholeFilename filename (Clock.currentDay year day).2 0), true⟩
        else ⟨none, false⟩, 0, 0, 0, day⟩ := by
  have hcnt : (FileLogAppender.mk filename .LDEBUG ⟨none, true⟩ 0 0 0 today).cntOn day = 0 := by
    rw [cntOn]
    split <;> rfl
  have hopened : FileLogAppender.new filename today (Clock.currentDay year day) opens =
      ⟨filename, .LDEBUG,
        if opens then ⟨some (wholeFilename filename (Clock.currentDay year day).2 0), true⟩
        else ⟨none, false⟩, 0, 0, 0, day⟩ := by
    rw [FileLogAppender.new, reopen_eq (.inl rfl), hcnt]
  rw [new, hopened]

theorem new_kept (filename : FileName) (level : LogLevel) (today : ℤ) {day : ℤ} (hday : 0 ≤ day)
    (opens : Bool) : (new year filename level today day opens).Kept year := by
  have hnew := new_appender year filename level today day opens
  have hlines : 0 < kMaxLines := by decide
  exact
    { cnt := by rw [hnew]; rfl
      lines := by rw [hnew]; exact hlines
      carried := hlines
      openedCount := Nat.two_pow_pos 8
      openedDay := ⟨hday, by rw [hnew]; exact Int.le_refl day⟩
      openedName := by rw [file, hnew]; rfl
      stream := fun hgood => by
        rw [hnew] at hgood ⊢
        cases opens with
        | false => cases hgood
        | true => exact ⟨rfl, rfl⟩
      later := fun _ => rfl
      filled := fun _ => by rw [hnew]; exact .inl ⟨rfl, rfl⟩
      le := fun _ => Nat.zero_le _
      late := rfl
      fresh := fun _ _ _ => ⟨rfl, List.not_mem_nil⟩
      current := List.not_mem_nil
      past := fun _ hlt => absurd hlt (Nat.not_lt_zero _) }

theorem log_today (r : RotationLog) (c : LogCall) :
    (r.log year c).appender.today = r.appender.today ∨
      (r.log year c).appender.today = c.today := by
  have hwrite : ∀ (a : FileLogAppender) (writes : Bool),
      (a.writeLine writes).2.today = a.today := by
    intro a writes
    rw [FileLogAppender.writeLine]
    split
    · split
      · split
        · exact (countLine_frame a).2.2.2
        · rfl
      · rfl
    · rfl
  rw [log_appender, FileLogAppender.log]
  split
  · split
    · right
      rw [hwrite, FileLogAppender.reopen, getWholeFilename_eq]
      rfl
    · exact .inl (hwrite _ _)
  · exact .inl rfl

theorem along_today {r : RotationLog} {calls : List LogCall}
    (hdates : (r.appender.today :: calls.map LogCall.today).Pairwise (· ≤ ·)) :
    Along (step year) (fun r c => r.appender.today ≤ c.today) r calls := by
  induction calls generalizing r with
  | nil => trivial
  | cons c calls ih =>
      rw [List.map_cons, List.pairwise_cons, List.pairwise_cons] at hdates
      obtain ⟨hfirst, hnext, hrest⟩ := hdates
      refine ⟨hfirst c.today (by simp), fun _ r' hstep => ih ?_⟩
      obtain ⟨-, rfl⟩ := Prod.mk.inj (Except.ok.inj hstep)
      refine List.pairwise_cons.2 ⟨fun day hday => ?_, hrest⟩
      rcases log_today year r c with heq | heq
      · rw [heq]
        exact hfirst day (List.mem_cons_of_mem _ hday)
      · rw [heq]
        exact hnext day hday

/-- On days of one year that do not decrease, a run respects the limit exactly if every call finds
room. -/
theorem respects_iff (filename : FileName) (level : LogLevel) (today : ℤ) {day : ℤ} (hday : 0 ≤ day)
    (opens : Bool) {calls : List LogCall}
    (hdates : (day :: calls.map LogCall.today).Pairwise (· ≤ ·)) :
    AlongStates (step year) Respects (new year filename level today day opens) calls ↔
      Along (step year) Ready (new year filename level today day opens) calls := by
  have hkept := new_kept year filename level today hday opens
  have htoday : (new year filename level today day opens).appender.today = day := by
    rw [new_appender]
  refine alongStates_iff_along (I := Fine year) ?_ ?_ (fun r h => h.1)
    ⟨hkept.respects, .inr hkept⟩ (along_today year (by rwa [htoday]))
  · intro r c _ r' hfine hV hready hstep
    obtain ⟨-, rfl⟩ := Prod.mk.inj (Except.ok.inj hstep)
    exact hfine.log hV hready
  · intro r c hfine _ hready
    exact ⟨(), r.log year c, rfl, hfine.log_bad hready⟩

/-- An event on the last day of a leap year. -/
def lastDay (timestamp : ℕ) : LogCall := ⟨.LINFO, timestamp, 365, true, true⟩

theorem respects_iff_two :
    AlongStates (step 2024) Respects (new 2024 ⟨"server".toList, by decide⟩ .LDEBUG 0 365 true)
      [lastDay 1735603200, lastDay 1735603201] := by
  refine (respects_iff 2024 _ _ _ (by decide) true (by decide)).2 ?_
  decide

theorem received_burst {r : RotationLog} {c : LogCall} {name : Text} (n : ℕ)
    (hstream : r.appender.stream = ⟨some name, true⟩) (hlines : r.appender.lines < kMaxLines)
    (hlevel : c.level.toNat ≥ r.appender.level.toNat) (hdue : ¬ r.appender.Due c.timestamp)
    (hwrites : c.writes = true)
    (h : AlongStates (step year) Respects r (List.replicate n c)) :
    r.received name + n ≤ kMaxLines := by
  induction n generalizing r with
  | zero => exact h.1 name
  | succ n ih =>
      have hlog : r.log year c = r.writeLine true := by
        rw [RotationLog.log, if_pos hlevel, if_neg hdue, hwrites]
      have hrest := h.2 () _ rfl
      rw [hlog] at hrest
      obtain ⟨hstream', hlevel', haccess, -⟩ := countLine_frame r.appender
      have hwritten := writeLine_eq hstream hlines
      have happender : (r.writeLine true).appender = r.appender.countLine := by rw [hwritten]
      have hreceived : (r.writeLine true).received name = r.received name + 1 := by
        rw [hwritten]
        exact if_pos rfl
      have hrun := ih (by rw [happender, hstream', hstream])
        (by rw [happender]; exact countLine_lines_lt hlines)
        (by rw [happender, hlevel']; exact hlevel)
        (by rw [happender, Due, haccess]; exact hdue) hrest
      rw [hreceived] at hrun
      omega

/-- A second in which more than `kMaxLines` events are logged. -/
theorem limit_exceeded : ¬ ∀ (year : ℕ) (filename : FileName) (level : LogLevel)
    (today day : ℤ) (opens : Bool) (calls : List LogCall), 0 ≤ day →
    (day :: calls.map LogCall.today).Pairwise (· ≤ ·) →
    (calls.map LogCall.timestamp).Pairwise (· ≤ ·) →
    AlongStates (step year) Respects (new year filename level today day opens) calls := by
  intro hall
  have hburst := fun n => hall 2024 ⟨"server".toList, by decide⟩ .LDEBUG 0 365 true
    (List.replicate (n + 1) (lastDay 1735603200)) (by decide)
    (by simp [List.pairwise_cons, List.pairwise_replicate, lastDay])
    (by simp [List.pairwise_replicate])
  -- the first event has reopened the file, and the others come too soon to do so
  obtain ⟨r, hr⟩ : ∃ r, r =
      (new 2024 ⟨"server".toList, by decide⟩ .LDEBUG 0 365 true).log 2024 (lastDay 1735603200) :=
    ⟨_, rfl⟩
  have hrest : AlongStates (step 2024) Respects r
      (List.replicate kMaxLines (lastDay 1735603200)) := by
    rw [hr]
    exact (hburst kMaxLines).2 () _ rfl
  have hstream : r.appender.stream = ⟨some "server_2024-12-31_00.log".toList, true⟩ := by
    rw [hr]
    decide
  have hreceived : r.received "server_2024-12-31_00.log".toList = 1 := by
    rw [hr]
    decide
  have hmany := received_burst 2024 kMaxLines hstream (by rw [hr]; decide) (by rw [hr]; decide)
    (by rw [hr]; decide) rfl hrest
  omega

end RotationLog

end LpNet
