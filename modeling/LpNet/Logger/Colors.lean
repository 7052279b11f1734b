import LpNet.Lib.Escapes
import LpNet.Logger.Objects

/-!
The colors of a `StdoutLogAppender`.

It switches the colors of the event on, and off again when it has written, so the appenders that
come behind it write no colors into their files. A level is printed between two sequences:
`inserted_format` says that the colors are put into the text without colors, and nothing else is
changed. What a terminal makes of that is a parameter, a `Terminal` to which the sequences of
`LogColor` change nothing but colors.
-/

namespace LpNet

open Escapes LockOrder Relation Transition

/-- What selects a color. -/
def IsColor (sequence : Text) : Prop := ∃ color : LogColor, sequence = color.getColor

namespace LogFormatterItem

variable {strftime : Text → ℕ → Text} {ev : LogEvent} {name : Text}

theorem isColor_levelColor {level : LogLevel} (conf : LogColorConfig) (h : level ≠ .LUNKNOWN) :
    IsColor (levelColor conf level) := by
  cases level with
  | LUNKNOWN => exact absurd rfl h
  | LDEBUG => exact ⟨_, rfl⟩
  | LINFO => exact ⟨_, rfl⟩
  | LWARN => exact ⟨_, rfl⟩
  | LERROR => exact ⟨_, rfl⟩
  | LFATAL => exact ⟨_, rfl⟩

/-- With colors an item prints what it prints without, with sequences put in. -/
theorem inserted_format (hoff : ev.colorOn = false) (item : LogFormatterItem) :
    Inserted IsColor (item.format strftime ev name)
      (item.format strftime { ev with colorOn := true } name) := by
  cases item with
  | logLevel =>
      have hcolored : format strftime { ev with colorOn := true } name .logLevel =
          levelColor ev.colorConfig ev.level ++ ev.level.toString ++
            if ev.level ≠ .LUNKNOWN then ev.colorConfig.LOG_END.getColor else [] := by
        rw [format, if_pos rfl]
      have hplain : format strftime ev name .logLevel = ev.level.toString := by
        rw [format, hoff, if_neg Bool.false_ne_true]
      rw [hcolored, hplain]
      by_cases hlevel : ev.level = .LUNKNOWN
      case pos =>
        -- no color is selected, and none is ended
        rw [hlevel, if_neg (not_not_intro rfl), levelColor, List.nil_append, List.append_nil]
        exact .refl _
      case neg =>
        rw [if_pos hlevel]
        exact .between (isColor_levelColor ev.colorConfig hlevel) ⟨_, rfl⟩ _
  | _ => exact .refl _

end LogFormatterItem

theorem LogFormatter.inserted_format {strftime : Text → ℕ → Text} {ev : LogEvent} {name : Text}
    (hoff : ev.colorOn = false) (f : LogFormatter) :
    Inserted IsColor (f.format strftime ev name)
      (f.format strftime { ev with colorOn := true } name) := by
  rw [LogFormatter.format_eq, LogFormatter.format_eq]
  induction f.items with
  | nil => exact .nil
  | cons item items ih =>
      rw [List.flatMap_cons, List.flatMap_cons]
      exact (item.inserted_format hoff).append ih

/-- What has been written to the appenders of a class and file. -/
def textOf (kind : AppenderKind) (lines : Lines) : Text :=
  (lines.filter fun line => line.1 = kind).flatMap Prod.snd

/-- The files have the texts of `plain`, and what is printed has colors put into it. -/
structure ReadAs (lines plain : Lines) : Prop where
  file : ∀ filename, textOf (.fileLogAppender filename) lines =
    textOf (.fileLogAppender filename) plain
  printed : Inserted IsColor (textOf .stdoutLogAppender plain) (textOf .stdoutLogAppender lines)

namespace ReadAs

variable {lines lines' plain plain' : Lines}

theorem refl (lines : Lines) : ReadAs lines lines := ⟨fun _ => rfl, .refl _⟩

theorem textOf_append (kind : AppenderKind) (lines lines' : Lines) :
    textOf kind (lines ++ lines') = textOf kind lines ++ textOf kind lines' := by
  rw [textOf, List.filter_append, List.flatMap_append]
  rfl

theorem append (h : ReadAs lines plain) (h' : ReadAs lines' plain') :
    ReadAs (lines ++ lines') (plain ++ plain') where
  file filename := by rw [textOf_append, textOf_append, h.file, h'.file]
  printed := by
    rw [textOf_append, textOf_append]
    exact h.printed.append h'.printed

end ReadAs

def LogAppender.plain (a : LogAppender) (strftime : Text → ℕ → Text) (name : Text)
    (ev : LogEvent) : Lines :=
  if a.level.toNat ≤ ev.level.toNat then
    match a.formatter with
    | some f => [(a.kind, f.format strftime ev name)]
    | none => []
  else []

/-- What the appenders of a logger write without colors. -/
def LogObjects.plain (w : LogObjects) (strftime : Text → ℕ → Text) (p : ℕ) (ev : LogEvent) :
    Lines :=
  match w.loggers[p]? with
  | some o =>
      if o.level.toNat ≤ ev.level.toNat then
        (w.attached o).flatMap fun a => a.plain strftime o.name ev
      else []
  | none => []

section Rounds

variable {strftime : Text → ℕ → Text} {ev ev' : LogEvent} {name : Text} {lines lines' : Lines}

theorem LogAppender.log_plain {a : LogAppender} (hoff : ev.colorOn = false)
    (h : a.log strftime name ev = .ok (lines, ev')) :
    ev' = ev ∧ ReadAs lines (a.plain strftime name ev) := by
  rw [LogAppender.log] at h
  rw [LogAppender.plain]
  split at h
  case isFalse hlow =>
    cases h
    rw [if_neg hlow]
    exact ⟨rfl, .refl []⟩
  case isTrue hle =>
    rw [if_pos hle]
    cases hf : a.formatter with
    | none =>
        rw [hf] at h
        cases h
    | some f =>
        rw [hf] at h
        cases hkind : a.kind with
        | fileLogAppender filename =>
            rw [hkind] at h
            cases h
            exact ⟨rfl, .refl _⟩
        | stdoutLogAppender =>
            rw [hkind] at h
            cases h
            refine ⟨?_, fun filename => rfl, ?_⟩
            · rw [← hoff]
            · simpa [textOf] using f.inserted_format hoff

theorem Logger.foldlM_plain {as : List LogAppender} (hoff : ev.colorOn = false)
    (h : as.foldlM (logRound strftime name) (lines, ev) = .ok (lines', ev')) :
    ∃ out, lines' = lines ++ out ∧
      ReadAs out (as.flatMap fun a => a.plain strftime name ev) := by
  induction as generalizing lines with
  | nil =>
      cases h
      exact ⟨[], (List.append_nil _).symm, .refl []⟩
  | cons a as ih =>
      rw [List.foldlM_cons, bind_eq_ok] at h
      obtain ⟨st, hround, hrest⟩ := h
      rw [logRound, bind_eq_ok] at hround
      obtain ⟨⟨first, ev₁⟩, hlog, hst⟩ := hround
      cases hst
      obtain ⟨rfl, hfirst⟩ := LogAppender.log_plain hoff hlog
      obtain ⟨out, rfl, hout⟩ := ih hrest
      exact ⟨first ++ out, List.append_assoc .., hfirst.append hout⟩

end Rounds

namespace LogObjects

variable {w : LogObjects} {ev : LogEvent} {lines : Lines} {p : ℕ}

theorem own_plain {strftime : Text → ℕ → Text} (hoff : ev.colorOn = false)
    (h : w.own strftime p ev = .ok lines) : ReadAs lines (w.plain strftime p ev) := by
  rw [own] at h
  rw [plain]
  split at h
  case h_1 => cases h
  case h_2 o ho =>
    rw [ho]
    dsimp only
    split at h
    case isFalse hlow =>
      cases h
      rw [if_neg hlow]
      exact .refl []
    case isTrue hle =>
      rw [if_pos hle]
      rw [write] at h
      split at h
      case h_2 => cases h
      case h_1 result hfold =>
        cases h
        obtain ⟨out, rfl, hout⟩ := Logger.foldlM_plain hoff hfold
        exact hout

/-- Of an event that is logged the files get the text without colors, whatever appenders come
before theirs, and what is printed is that text with colors put in. A terminal on which these
select colors only shows the text as it is without them, if nothing in it begins a sequence. -/
theorem log_reads_plain (w : LogObjects) (strftime : Text → ℕ → Text) (p : Fin w.loggers.length)
    (ev : LogEvent) (hoff : ev.colorOn = false) (lines : Lines)
    (h : w.log strftime p ev = .ok lines) :
    ∃ q, ReflTransGen (w.Passes ev) p q ∧ (∀ r, ¬ w.Passes ev q r) ∧
      (∀ filename, textOf (.fileLogAppender filename) lines =
        textOf (.fileLogAppender filename) (w.plain strftime q ev)) ∧
      Inserted IsColor (textOf .stdoutLogAppender (w.plain strftime q ev))
        (textOf .stdoutLogAppender lines) ∧
      ∀ (σ : Type) (T : Terminal σ IsColor) (s : σ), T.Ground s → T.Alike s s →
        (∀ c ∈ textOf .stdoutLogAppender (w.plain strftime q ev), T.Inert c) →
        T.Alike ((textOf .stdoutLogAppender lines).foldl T.feed s)
          ((textOf .stdoutLogAppender (w.plain strftime q ev)).foldl T.feed s) := by
  rcases w.log_result strftime p ev with ⟨hdeadlock, -⟩ | ⟨q, hq, hend, heq⟩
  · rw [hdeadlock] at h
    cases h
  · rw [heq] at h
    obtain ⟨hfile, hprinted⟩ := own_plain hoff h
    exact ⟨q, hq, hend, hfile, hprinted, fun σ T s hs hself hinert =>
      hprinted.alike T hinert hs hs hself⟩

/-- A terminal that shows a text and knows sequences that end with an `m`. -/
def plainTerminal : Terminal (Text × Bool) IsColor where
  feed s c :=
    if s.2 then (s.1, c ≠ 'm') else if c = '\x1b' then (s.1, true) else (s.1 ++ [c], false)
  Ground s := s.2 = false
  Inert c := c ≠ '\x1b'
  Alike s t := s.1 = t.1
  ground_feed hs hc := by simp [hs, hc]
  alike_feed hs ht hc hst := by simp [hs, ht, hc, hst]
  ground_sequence {s sequence} hs hcolor := by
    obtain ⟨shown, reading⟩ := s
    obtain ⟨color, rfl⟩ := hcolor
    cases hs
    cases color <;> rfl
  alike_sequence {s t sequence} hs hcolor hst := by
    obtain ⟨shown, reading⟩ := s
    obtain ⟨color, rfl⟩ := hcolor
    cases hs
    cases color <;> exact hst

/-- A warning that the root prints in yellow. -/
def warning : LogEvent := ⟨.LWARN, [], [], 7, 0, 0, ['h', 'i'], {}, false⟩

theorem log_reads_plain_root : ∃ lines, new.log (fun _ _ => []) 0 warning = .ok lines ∧
    ((textOf .stdoutLogAppender lines).foldl plainTerminal.feed ([], false)).1 =
      ((textOf .stdoutLogAppender (new.plain (fun _ _ => []) 0 warning)).foldl
        plainTerminal.feed ([], false)).1 := by
  obtain ⟨q, hq, -, -, -, hterminal⟩ :=
    log_reads_plain new (fun _ _ => []) ⟨0, by decide⟩ warning rfl _ rfl
  have hroot : ∀ r, ¬ new.Passes warning 0 r := by
    rintro r ⟨o, ho, -, hempty, -⟩
    cases ho
    cases hempty
  have hall : (textOf .stdoutLogAppender (new.plain (fun _ _ => []) 0 warning)).all
      (· ≠ '\x1b') = true := by decide
  have hinert : ∀ c ∈ textOf .stdoutLogAppender (new.plain (fun _ _ => []) 0 warning),
      c ≠ '\x1b' := fun c hc => of_decide_eq_true (List.all_eq_true.mp hall c hc)
  rcases hq.cases_head with rfl | ⟨r, hr, -⟩
  · exact ⟨_, rfl, hterminal _ plainTerminal ([], false) rfl rfl hinert⟩
  · exact absurd hr (hroot r)

end LogObjects

end LpNet
