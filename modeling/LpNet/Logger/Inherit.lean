import LpNet.Logger.Config
import LpNet.Lib.Transition
import Mathlib.Logic.Function.Basic

/-!
Whose formatter an appender uses.

Appenders are objects that the user keeps, so `SharedLogger` has them beside the list of the
ones that are attached, with a record of the formatters the user gave them. An appender
without one is to use that of its logger. `addAppender` hands it over through the setter
that marks it as the appender's own, and `Logger::setFormatter` hands over nothing:
`follows_iff` says that an appender follows only as long as there is no formatter to follow.
-/

namespace LpNet

open Transition

/-- A logger, all appender objects, and the formatters that the user gave them: `own i` is `none`
if there was no call of `setFormatter` on appender `i`. -/
structure SharedLogger (ι : Type) where
  name : Text
  level : LogLevel
  formatter : Option LogFormatter
  attached : List ι
  appender : ι → LogAppender
  own : ι → Option (Option LogFormatter)

namespace SharedLogger

variable {ι : Type}

def start (name : Text) (level : LogLevel) (pattern : Text) (kind : ι → AppenderKind) :
    SharedLogger ι where
  name := name
  level := level
  formatter := some (.new pattern)
  attached := []
  appender i := { kind := kind i }
  own _ := none

inductive Call (ι : Type)
  | addAppender (i : ι)
  | setFormatter (f : Option LogFormatter)
  /-- `setFormatter(pattern)`. -/
  | setPattern (pattern : Text)
  /-- `LogAppender::setFormatter` by the user. -/
  | setOwn (i : ι) (f : Option LogFormatter)

def setFormatter (s : SharedLogger ι) (f : Option LogFormatter) : SharedLogger ι :=
  { s with formatter := f }

variable [DecidableEq ι]

def addAppender (s : SharedLogger ι) (i : ι) : SharedLogger ι :=
  { s with
    appender :=
      if (s.appender i).formatter.isNone then
        Function.update s.appender i ((s.appender i).setFormatter s.formatter)
      else s.appender
    attached := s.attached ++ [i] }

/-- `setFormatter(pFormatter)` of an appender, called by the user. -/
def setOwn (s : SharedLogger ι) (i : ι) (f : Option LogFormatter) : SharedLogger ι :=
  { s with
    appender := Function.update s.appender i ((s.appender i).setFormatter f)
    own := Function.update s.own i (some f) }

def step (s : SharedLogger ι) : Call ι → Except Fault (Unit × SharedLogger ι)
  | .addAppender i => .ok ((), s.addAppender i)
  | .setFormatter f => .ok ((), s.setFormatter f)
  | .setPattern pattern => .ok ((), s.setFormatter (some (.new pattern)))
  | .setOwn i f => .ok ((), s.setOwn i f)

omit [DecidableEq ι] in
/-- An attached appender that was given no formatter has that of the logger and none of its own,
in its YAML neither, and one that was given a formatter keeps it. -/
structure Follows (s : SharedLogger ι) : Prop where
  formatter : ∀ i ∈ s.attached, s.own i = none → (s.appender i).formatter = s.formatter
  unmarked : ∀ i ∈ s.attached, s.own i = none → (s.appender i).hasFormatter = false ∧
    Yaml.get (some (s.appender i).node) YamlKey.formatter = .ok none
  keeps : ∀ i f, s.own i = some (some f) → (s.appender i).formatter = some f

omit [DecidableEq ι] in
/-- The calls that leave nothing to follow: no appender without a formatter is added to a logger
with one, and a logger with such an appender is given none. -/
def Harmless (s : SharedLogger ι) : Call ι → Prop
  | .addAppender i => s.own i = none → s.formatter = none
  | .setFormatter f => f = none ∨ ∀ i ∈ s.attached, s.own i ≠ none
  | .setPattern _ => ∀ i ∈ s.attached, s.own i ≠ none
  | .setOwn _ _ => True

/-! ### The loggers of the other modules -/

omit [DecidableEq ι] in
def toLogger (s : SharedLogger ι) : Logger :=
  ⟨s.name, s.level, s.attached.map s.appender, s.formatter⟩

theorem toLogger_addAppender {s : SharedLogger ι} {i : ι} (hnew : i ∉ s.attached) :
    (s.addAppender i).toLogger = s.toLogger.addAppender (s.appender i) := by
  have hothers : ∀ a : LogAppender,
      s.attached.map (Function.update s.appender i a) = s.attached.map s.appender := by
    intro a
    refine List.map_congr_left fun j hj => Function.update_of_ne ?_ _ _
    rintro rfl
    exact hnew hj
  rw [addAppender, toLogger, toLogger, Logger.addAppender]
  split
  · simp [hothers]
  · simp

/-! ### Nothing to follow -/

variable {s : SharedLogger ι} {i : ι} {f : Option LogFormatter}

omit [DecidableEq ι] in
/-- The formatters that the user gave are there, and no appender has another. -/
structure Given (s : SharedLogger ι) : Prop where
  untouched : ∀ i, s.own i = none →
    (s.appender i).formatter = none ∧ (s.appender i).hasFormatter = false
  keeps : ∀ i f, s.own i = some (some f) → (s.appender i).formatter = some f
  nothing : ∀ i ∈ s.attached, s.own i = none → s.formatter = none

theorem node_unmarked {a : LogAppender} (h : a.hasFormatter = false) :
    Yaml.get (some a.node) YamlKey.formatter = .ok none := by
  have hkeys : YamlKey.type ≠ YamlKey.formatter ∧ YamlKey.file ≠ YamlKey.formatter := by decide
  rw [LogAppender.node, h, Yaml.get_map, levelEntry]
  cases a.kind <;> by_cases hlevel : a.level = .LUNKNOWN <;> simp [hlevel, hkeys]

omit [DecidableEq ι] in
theorem Given.follows (h : s.Given) : s.Follows where
  formatter i hi hown := (h.untouched i hown).1.trans (h.nothing i hi hown).symm
  unmarked i _ hown := ⟨(h.untouched i hown).2, node_unmarked (h.untouched i hown).2⟩
  keeps := h.keeps

omit [DecidableEq ι] in
theorem given_start (name : Text) (level : LogLevel) (pattern : Text) (kind : ι → AppenderKind) :
    (start name level pattern kind).Given where
  untouched _ _ := ⟨rfl, rfl⟩
  keeps _ _ hown := by cases hown
  nothing _ hi := by cases hi

theorem appender_addAppender (s : SharedLogger ι) (i j : ι) : (s.addAppender i).appender j =
    if j = i ∧ (s.appender i).formatter = none then (s.appender i).setFormatter s.formatter
    else s.appender j := by
  rw [addAppender]
  dsimp only
  by_cases hnone : (s.appender i).formatter = none
  case pos =>
    rw [if_pos (by simp [hnone]), Function.update_apply]
    simp [hnone]
  case neg =>
    rw [if_neg (by simpa using hnone)]
    simp [hnone]

theorem Given.addAppender (h : s.Given) (hharmless : s.own i = none → s.formatter = none) :
    (s.addAppender i).Given where
  untouched j hown := by
    rw [appender_addAppender]
    split
    case isTrue hj =>
      obtain ⟨rfl, -⟩ := hj
      rw [LogAppender.setFormatter, hharmless hown]
      exact ⟨rfl, rfl⟩
    case isFalse => exact h.untouched j hown
  keeps j f hown := by
    have hf := h.keeps j f hown
    rw [appender_addAppender, if_neg]
    · exact hf
    · rintro ⟨rfl, hnone⟩
      rw [hf] at hnone
      cases hnone
  nothing j hj hown := by
    rcases List.mem_append.mp hj with hj | hj
    · exact h.nothing j hj hown
    · rw [List.mem_singleton.mp hj] at hown
      exact hharmless hown

omit [DecidableEq ι] in
theorem Given.setFormatter (h : s.Given) (hharmless : f = none ∨ ∀ i ∈ s.attached, s.own i ≠ none) :
    (s.setFormatter f).Given where
  untouched := h.untouched
  keeps := h.keeps
  nothing i hi hown := hharmless.resolve_right fun hall => hall i hi hown

@[simp] theorem own_setOwn : (s.setOwn i f).own = Function.update s.own i (some f) := rfl

@[simp] theorem appender_setOwn : (s.setOwn i f).appender =
    Function.update s.appender i ((s.appender i).setFormatter f) := rfl

theorem untouched_of_setOwn {j : ι} (hown : (s.setOwn i f).own j = none) :
    j ≠ i ∧ s.own j = none := by
  have hj : j ≠ i := by
    rintro rfl
    simp at hown
  rw [own_setOwn, Function.update_of_ne hj] at hown
  exact ⟨hj, hown⟩

theorem Given.setOwn (h : s.Given) : (s.setOwn i f).Given where
  untouched j hown := by
    obtain ⟨hj, hown⟩ := untouched_of_setOwn hown
    rw [appender_setOwn, Function.update_of_ne hj]
    exact h.untouched j hown
  keeps j g hown := by
    by_cases hj : j = i
    case pos =>
      subst hj
      rw [own_setOwn, Function.update_self, Option.some.injEq] at hown
      rw [appender_setOwn, Function.update_self]
      exact hown
    case neg =>
      rw [own_setOwn, Function.update_of_ne hj] at hown
      rw [appender_setOwn, Function.update_of_ne hj]
      exact h.keeps j g hown
  nothing j hj hown := h.nothing j hj (untouched_of_setOwn hown).2

/-! ### Something to follow -/

theorem Given.not_follows_addAppender (h : s.Given) (hown : s.own i = none)
    (hformatter : s.formatter ≠ none) : ¬ (s.addAppender i).Follows := by
  intro hfollows
  have hmarked := (hfollows.unmarked i (List.mem_append_right _ (List.mem_singleton_self i)) hown).1
  rw [appender_addAppender, if_pos ⟨rfl, (h.untouched i hown).1⟩] at hmarked
  obtain ⟨f, hf⟩ := Option.ne_none_iff_exists'.mp hformatter
  rw [LogAppender.setFormatter, hf] at hmarked
  cases hmarked

omit [DecidableEq ι] in
/-- An appender without a formatter still has none when its logger gets one. -/
theorem Given.not_follows_setFormatter (h : s.Given) (hi : i ∈ s.attached) (hown : s.own i = none)
    (hf : f ≠ none) : ¬ (s.setFormatter f).Follows := by
  intro hfollows
  have hsame : (s.appender i).formatter = f := hfollows.formatter i hi hown
  rw [(h.untouched i hown).1] at hsame
  exact hf hsame.symm

theorem Given.step (h : s.Given) {call : Call ι} (hharmless : s.Harmless call)
    {s' : SharedLogger ι} (hok : s.step call = .ok ((), s')) : s'.Given := by
  cases call with
  | addAppender i =>
      cases hok
      exact h.addAppender hharmless
  | setFormatter f =>
      cases hok
      exact h.setFormatter hharmless
  | setPattern pattern =>
      cases hok
      exact h.setFormatter (.inr hharmless)
  | setOwn i f =>
      cases hok
      exact h.setOwn

theorem Given.not_follows (h : s.Given) {call : Call ι} (hharmful : ¬ s.Harmless call) :
    ∃ s', s.step call = .ok ((), s') ∧ ¬ s'.Follows := by
  cases call with
  | addAppender i =>
      obtain ⟨hown, hformatter⟩ := Classical.not_imp.mp hharmful
      exact ⟨_, rfl, h.not_follows_addAppender hown hformatter⟩
  | setFormatter f =>
      obtain ⟨hf, hall⟩ := not_or.mp hharmful
      push Not at hall
      obtain ⟨i, hi, hown⟩ := hall
      exact ⟨_, rfl, h.not_follows_setFormatter hi hown hf⟩
  | setPattern pattern =>
      rw [Harmless] at hharmful
      push Not at hharmful
      obtain ⟨i, hi, hown⟩ := hharmful
      exact ⟨_, rfl, h.not_follows_setFormatter hi hown (Option.some_ne_none _)⟩
  | setOwn i f => exact absurd trivial hharmful

/-- The appenders follow their logger in every state of a run exactly as long as its calls leave
nothing to follow. -/
theorem follows_iff (name : Text) (level : LogLevel) (pattern : Text) (kind : ι → AppenderKind)
    (calls : List (Call ι)) :
    AlongStates step Follows (start name level pattern kind) calls ↔
      Along step Harmless (start name level pattern kind) calls := by
  have hfree : Along step (fun _ _ => True) (start name level pattern kind) calls :=
    along_of_forall_mem fun _ _ => trivial
  refine alongStates_iff_along (I := Given) ?_ ?_ (fun s h => h.follows)
    (given_start name level pattern kind) hfree
  · exact fun s call _ s' h _ hharmless hok => h.step hharmless hok
  · intro s call h _ hharmful
    obtain ⟨s', hok, hnot⟩ := h.not_follows hharmful
    exact ⟨(), s', hok, hnot⟩

/-- An appender that is added to a new logger. -/
theorem not_follows_added : ¬ AlongStates step Follows
    (start "server".toList .LDEBUG "$MESSAGE".toList fun _ : ℕ => .stdoutLogAppender)
    [.addAppender 0] := by
  rintro ⟨-, hrest⟩
  have hstart := given_start "server".toList .LDEBUG "$MESSAGE".toList
    fun _ : ℕ => AppenderKind.stdoutLogAppender
  exact hstart.not_follows_addAppender rfl (Option.some_ne_none _) (hrest _ _ rfl).head

end SharedLogger

end LpNet
