import LpNet.Logger.Rotation

/-!
The files of several `FileLogAppender`s.

The name of a file says which appender it belongs to and on which day it was opened: it is cut at
its last two underscores, and neither a date nor a number has one. `files_apart` says for every
order of the calls that appenders of different names never write to a file of one name, and that a
line goes to the file of its day, or to one that was opened less than three ticks of the
timestamps before.
-/

namespace LpNet

open FileLogAppender Transition

namespace FileLogAppender

theorem wholeFilename_cut {filename filename' s t : Text} {m n : ℕ} (hs : '_' ∉ s) (ht : '_' ∉ t)
    (h : wholeFilename filename s m = wholeFilename filename' t n) :
    filename = filename' ∧ s = t ∧ m = n := by
  have hrest : ∀ n, '_' ∉ padded n ++ ".log".toList := by
    intro n
    rw [List.mem_append, not_or]
    exact ⟨not_mem_padded (by decide) n, by decide⟩
  have hlast : (filename ++ '_' :: s) ++ '_' :: (padded m ++ ".log".toList) =
      (filename' ++ '_' :: t) ++ '_' :: (padded n ++ ".log".toList) := by
    simpa only [wholeFilename, List.append_assoc, List.cons_append] using h
  obtain ⟨hfirst, hcnt⟩ := append_cons_inj (hrest m) (hrest n) hlast
  obtain ⟨hname, hdate⟩ := append_cons_inj hs ht hfirst
  exact ⟨hname, hdate, padded_injective (List.append_cancel_right hcnt)⟩

theorem reopen_stream {a : FileLogAppender} {year : ℕ} {yday : ℤ} {opens : Bool}
    (h : (a.reopen (Clock.currentDay year yday) opens).stream.good = true) :
    (a.reopen (Clock.currentDay year yday) opens).stream.file =
      some (wholeFilename a.filename (Clock.currentDay year yday).2 (a.cntOn yday)) := by
  rw [reopen, getWholeFilename_eq] at h ⊢
  dsimp only at h ⊢
  rw [FileStream.open] at h ⊢
  split at h
  case h_1 => cases h
  case h_2 hnone =>
    split at h
    case isTrue hopens => simp [hopens, cString_wholeFilename]
    case isFalse => cases h

theorem reopen_frame (a : FileLogAppender) (day : ℤ × Text) (opens : Bool) :
    (a.reopen day opens).filename = a.filename ∧
      (a.reopen day opens).lastAccessTime = a.lastAccessTime ∧
      (a.reopen day opens).cnt = a.cntOn day.1 := by
  rw [reopen, getWholeFilename_eq]
  exact ⟨rfl, rfl, rfl⟩

theorem cntOn_lt {a : FileLogAppender} (h : a.cnt < 2 ^ 8) (today : ℤ) : a.cntOn today < 2 ^ 8 := by
  rw [cntOn]
  split
  · exact Nat.two_pow_pos 8
  · exact h

theorem countLine_cnt_lt {a : FileLogAppender} (h : a.cnt < 2 ^ 8) : a.countLine.cnt < 2 ^ 8 := by
  rw [countLine]
  split
  · exact Nat.mod_lt _ (Nat.two_pow_pos 8)
  · exact h

theorem countLine_filename (a : FileLogAppender) : a.countLine.filename = a.filename := by
  rw [countLine]
  split <;> rfl

end FileLogAppender

/-- A call of `log` of one of several appenders, in the year `year`. -/
structure AppenderCall (ι : Type) where
  appender : ι
  year : ℕ
  call : LogCall

namespace FileAppenders

variable {ι : Type} [DecidableEq ι]

/-- Perform a call, with the file that has received a line. -/
def step (s : ι → FileLogAppender) (c : AppenderCall ι) :
    Except Empty (Option Text × (ι → FileLogAppender)) :=
  .ok (((s c.appender).log c.year c.call).1,
    Function.update s c.appender ((s c.appender).log c.year c.call).2)

/-- How an appender is made: its file name, level, the value of `today_`, the day, and whether the
first file can be opened. -/
structure Made where
  filename : FileName
  level : LogLevel
  today : ℤ
  year : ℕ
  day : ℤ
  opens : Bool

def start (made : ι → Made) (i : ι) : FileLogAppender :=
  { FileLogAppender.new (made i).filename (made i).today
      (Clock.currentDay (made i).year (made i).day) (made i).opens with level := (made i).level }

variable {made : ι → Made} {past calls : List (AppenderCall ι)} {s s' : ι → FileLogAppender}

/-- The day on which an appender opened its file, and when: one of a call, or of its
constructor. -/
def OpenedOn (made : ι → Made) (past : List (AppenderCall ι)) (i : ι) (year : ℕ) (day : ℤ)
    (time : ℕ) : Prop :=
  (∃ c ∈ past, c.appender = i ∧ c.year = year ∧ c.call.today = day ∧ c.call.timestamp = time) ∨
    (made i).year = year ∧ (made i).day = day ∧ time = 0

/-- The appender `i` has its name, and its open file says when it was opened. -/
structure Named (made : ι → Made) (past : List (AppenderCall ι)) (i : ι) (a : FileLogAppender) :
    Prop where
  filename : a.filename = (made i).filename
  cnt_lt : a.cnt < 2 ^ 8
  opened : a.stream.good = true → ∃ year day cnt, cnt < 2 ^ 8 ∧
    a.stream.file =
      some (wholeFilename (made i).filename (Clock.currentDay year day).2 cnt) ∧
    OpenedOn made past i year day a.lastAccessTime

omit [DecidableEq ι] in
theorem start_named (made : ι → Made) (i : ι) : Named made [] i (start made i) := by
  obtain ⟨hname, htime, hcnt⟩ := reopen_frame
    ⟨(made i).filename, .LDEBUG, ⟨none, true⟩, 0, 0, 0, (made i).today⟩
    (Clock.currentDay (made i).year (made i).day) (made i).opens
  refine ⟨hname, ?_, fun hgood => ⟨(made i).year, (made i).day, _, ?_, reopen_stream hgood,
    .inr ⟨rfl, rfl, htime⟩⟩⟩
  · exact lt_of_eq_of_lt hcnt (cntOn_lt (Nat.two_pow_pos 8) _)
  · exact cntOn_lt (Nat.two_pow_pos 8) _

omit [DecidableEq ι] in
theorem OpenedOn.mono {i : ι} {year time : ℕ} {day : ℤ} (h : OpenedOn made past i year day time)
    (c : AppenderCall ι) : OpenedOn made (past ++ [c]) i year day time := by
  rcases h with ⟨c', hc', h⟩ | h
  · exact .inl ⟨c', List.mem_append_left _ hc', h⟩
  · exact .inr h

omit [DecidableEq ι] in
theorem Named.mono {i : ι} {a : FileLogAppender} (h : Named made past i a) (c : AppenderCall ι) :
    Named made (past ++ [c]) i a := by
  refine ⟨h.filename, h.cnt_lt, fun hgood => ?_⟩
  obtain ⟨year, day, cnt, hcnt, hfile, hopened⟩ := h.opened hgood
  exact ⟨year, day, cnt, hcnt, hfile, hopened.mono c⟩

omit [DecidableEq ι] in
theorem Named.reopen {c : AppenderCall ι} {a : FileLogAppender}
    (h : Named made past c.appender a) :
    Named made (past ++ [c]) c.appender
      { a.reopen (Clock.currentDay c.year c.call.today) c.call.opens with
        lastAccessTime := c.call.timestamp } := by
  obtain ⟨hname, -, hcnt⟩ := reopen_frame a (Clock.currentDay c.year c.call.today) c.call.opens
  refine ⟨hname.trans h.filename, ?_, fun hgood => ?_⟩
  · exact lt_of_eq_of_lt hcnt (cntOn_lt h.cnt_lt _)
  · refine ⟨c.year, c.call.today, _, cntOn_lt h.cnt_lt c.call.today, ?_,
      .inl ⟨c, List.mem_append_right _ (List.mem_singleton_self c), rfl, rfl, rfl, rfl⟩⟩
    rw [← h.filename]
    exact reopen_stream hgood

omit [DecidableEq ι] in
/-- A line goes to the open file, and leaves it open. -/
theorem Named.writeLine {i : ι} {a : FileLogAppender} (h : Named made past i a) (writes : Bool) :
    Named made past i (a.writeLine writes).2 ∧
      ∀ file, (a.writeLine writes).1 = some file →
        a.stream.good = true ∧ a.stream.file = some file := by
  rw [FileLogAppender.writeLine]
  split
  case isFalse hbad => exact ⟨h, fun file hfile => by cases hfile⟩
  case isTrue hgood =>
    split
    case h_2 =>
      exact ⟨⟨h.filename, h.cnt_lt, fun hgood => by cases hgood⟩, fun _ hfile => by cases hfile⟩
    case h_1 name hname =>
      split
      case isFalse =>
        exact ⟨⟨h.filename, h.cnt_lt, fun hgood => by cases hgood⟩, fun _ hfile => by cases hfile⟩
      case isTrue =>
        obtain ⟨hstream, -, htime, -⟩ := countLine_frame a
        refine ⟨⟨(countLine_filename a).trans h.filename, countLine_cnt_lt h.cnt_lt, ?_⟩, ?_⟩
        · rw [hstream, htime]
          exact h.opened
        · intro file hfile
          cases hfile
          exact ⟨hgood, hname⟩

/-- The file that a line of the call may go to, where the appender was last reopened in `past`. -/
def Fits (made : ι → Made) (past : List (AppenderCall ι)) (c : AppenderCall ι) (file : Text) :
    Prop :=
  ∃ year day cnt, cnt < 2 ^ 8 ∧
    file = wholeFilename (made c.appender).filename (Clock.currentDay year day).2 cnt ∧
    (year = c.year ∧ day = c.call.today ∨
      ∃ time, OpenedOn made past c.appender year day time ∧
        c.call.timestamp < (time + 3) % 2 ^ 64)

omit [DecidableEq ι] in
theorem Named.log {c : AppenderCall ι} {a : FileLogAppender} (h : Named made past c.appender a) :
    Named made (past ++ [c]) c.appender (a.log c.year c.call).2 ∧
      ∀ file, (a.log c.year c.call).1 = some file → Fits made past c file := by
  rw [FileLogAppender.log]
  split
  case isFalse => exact ⟨h.mono c, fun file hfile => by cases hfile⟩
  case isTrue =>
    dsimp only
    split
    case isTrue hdue =>
      obtain ⟨hnamed, hwritten⟩ := h.reopen.writeLine c.call.writes
      refine ⟨hnamed, fun file hfile => ?_⟩
      obtain ⟨hgood, hopen⟩ := hwritten file hfile
      refine ⟨c.year, c.call.today, _, cntOn_lt h.cnt_lt c.call.today, ?_, .inl ⟨rfl, rfl⟩⟩
      have hstream := reopen_stream hgood
      rw [h.filename] at hstream
      exact Option.some.inj (hopen.symm.trans hstream)
    case isFalse hrecent =>
      obtain ⟨hnamed, hwritten⟩ := h.writeLine c.call.writes
      refine ⟨hnamed.mono c, fun file hfile => ?_⟩
      obtain ⟨hgood, hopen⟩ := hwritten file hfile
      obtain ⟨year, day, cnt, hcnt, hname, hopened⟩ := h.opened hgood
      refine ⟨year, day, cnt, hcnt, Option.some.inj (hopen.symm.trans hname),
        .inr ⟨_, hopened, ?_⟩⟩
      exact Nat.lt_of_not_le hrecent

theorem run_fits {files : List (Option Text)} (hs : ∀ i, Named made past i (s i))
    (hrun : run step s calls = .ok (files, s')) (k : ℕ) (c : AppenderCall ι) (file : Text)
    (hc : calls[k]? = some c) (hfile : files[k]? = some (some file)) :
    Fits made (past ++ calls.take k) c file := by
  induction calls generalizing s past files k with
  | nil => cases hc
  | cons call calls ih =>
      obtain ⟨reply, files', mid, hstep, hrest, rfl⟩ := run_cons_eq_ok hrun
      cases hstep
      obtain ⟨hnamed, hfits⟩ := (hs call.appender).log
      cases k with
      | zero =>
          cases hc
          rw [List.take_zero, List.append_nil]
          exact hfits file (Option.some.inj hfile)
      | succ k =>
          have hmid : ∀ i, Named made (past ++ [call]) i
              (Function.update s call.appender ((s call.appender).log call.year call.call).2
                i) := by
            intro i
            by_cases hi : i = call.appender
            case pos =>
              subst hi
              rw [Function.update_self]
              exact hnamed
            case neg =>
              rw [Function.update_of_ne hi]
              exact (hs i).mono call
          have htail := ih hmid hrest k hc hfile
          rwa [List.append_assoc, List.singleton_append] at htail

/-- In every order of the calls of any number of appenders, a line goes to a file with the name of
its appender and the date of its call, or of a reopening less than three ticks before, and
appenders of different names never write to files of one name. -/
theorem files_apart (made : ι → Made) (calls : List (AppenderCall ι))
    {files : List (Option Text)} (hrun : run step (start made) calls = .ok (files, s)) (k : ℕ)
    (c : AppenderCall ι) (file : Text) (hc : calls[k]? = some c)
    (hfile : files[k]? = some (some file)) :
    Fits made (calls.take k) c file ∧
      ∀ (l : ℕ) (c' : AppenderCall ι), calls[l]? = some c' → files[l]? = some (some file) →
        (made c'.appender).filename = (made c.appender).filename := by
  have hfits := run_fits (start_named made) hrun
  refine ⟨hfits k c file hc hfile, fun l c' hc' hfile' => ?_⟩
  obtain ⟨year, day, cnt, -, hname, -⟩ := hfits k c file hc hfile
  obtain ⟨year', day', cnt', -, hname', -⟩ := hfits l c' file hc' hfile'
  have hdate := Clock.not_mem_currentDay (c := '_') (by decide) (by decide)
  exact Subtype.ext
    (wholeFilename_cut (hdate year' day') (hdate year day) (hname'.symm.trans hname)).1

/-- Two appenders, and a line of each. -/
theorem files_apart_two : ∃ files s file,
    run step (start fun b : Bool =>
        ⟨⟨[if b then 'a' else 'b'], by cases b <;> decide⟩, .LDEBUG, 0, 2024, 0, true⟩)
      [⟨true, 2024, .LINFO, 100, 1, true, true⟩, ⟨false, 2024, .LINFO, 101, 1, true, true⟩] =
        .ok (files, s) ∧
    files[1]? = some (some file) ∧
    Fits (fun b : Bool =>
        ⟨⟨[if b then 'a' else 'b'], by cases b <;> decide⟩, .LDEBUG, 0, 2024, 0, true⟩)
      [⟨true, 2024, .LINFO, 100, 1, true, true⟩]
      ⟨false, 2024, .LINFO, 101, 1, true, true⟩ file :=
  ⟨_, _, _, rfl, rfl, (files_apart (fun b : Bool =>
    ⟨⟨[if b then 'a' else 'b'], by cases b <;> decide⟩, .LDEBUG, 0, 2024, 0, true⟩)
    [⟨true, 2024, .LINFO, 100, 1, true, true⟩, ⟨false, 2024, .LINFO, 101, 1, true, true⟩] rfl 1
    ⟨false, 2024, .LINFO, 101, 1, true, true⟩ _ rfl rfl).1⟩

end FileAppenders

end LpNet
