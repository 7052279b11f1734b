import LpNet.Logger.Delivery

/-!
The order in which appenders get the events that several threads log.

A logger holds its mutex until its last appender has written, so what comes to it is written as
a whole and one after the other. Another logger does not wait for that mutex, and an appender
of both is only held while it writes. `appenders_agree_iff` says that two appenders get
their events in one order exactly when no two loggers have both of them. Every appender has a
formatter and a stream that does not fail, and the loggers are not changed meanwhile.
-/

namespace LpNet

open Transition

/-- What an appender has written: for which logger, and which of the events. -/
structure LogLine where
  logger : ℕ
  appender : ℕ
  event : ℕ
  deriving DecidableEq, Repr

inductive LogPlace
  /-- Before the test of the level of a logger. -/
  | enter (p : ℕ) (ev : LogEvent)
  /-- In the loop over its appenders, with those that are left. -/
  | loop (p event : ℕ) (rest : List ℕ) (ev : LogEvent)
  /-- On the way back. -/
  | leave
  deriving DecidableEq, Repr

/-- A thread that logs, with the loggers whose mutexes it holds, the last one first. -/
structure LogTurn where
  held : List ℕ
  place : LogPlace
  deriving DecidableEq, Repr

structure Logging where
  /-- The holder of the mutex of each logger. -/
  busy : ℕ → Option ℕ
  turn : ℕ → Option LogTurn
  lines : List LogLine
  /-- The events that came to the appenders of a logger, in this order. -/
  taken : List (ℕ × LogEvent)

inductive LoggingAction
  | log (t p : ℕ) (ev : LogEvent)
  | step (t : ℕ)
  deriving DecidableEq, Repr

inductive LoggingRefusal
  | busy
  | idle
  | blocked
  | dangling
  deriving DecidableEq, Repr

namespace Logging

def start : Logging := ⟨fun _ => none, fun _ => none, [], []⟩

def setTurn (s : Logging) (t : ℕ) (turn : Option LogTurn) : Logging :=
  { s with turn := Function.update s.turn t turn }

def setBusy (s : Logging) (p : ℕ) (holder : Option ℕ) : Logging :=
  { s with busy := Function.update s.busy p holder }

/-- What a thread does next. The mutex of an appender is held while it writes, which is one step. -/
def turnStep (w : LogObjects) (s : Logging) (t : ℕ) (turn : LogTurn) :
    Except LoggingRefusal Logging :=
  match turn.place with
  | .enter p ev =>
      match w.loggers[p]? with
      | none => .error .dangling
      | some o =>
          if o.level.toNat ≤ ev.level.toNat then
            match s.busy p with
            | some _ => .error .blocked
            | none =>
                let s := s.setBusy p (some t)
                if o.appenders.isEmpty then
                  match o.root with
                  | some root => .ok (s.setTurn t (some ⟨p :: turn.held, .enter root ev⟩))
                  | none => .ok (s.setTurn t (some ⟨p :: turn.held, .leave⟩))
                else
                  .ok { s.setTurn t
                      (some ⟨p :: turn.held, .loop p s.taken.length o.appenders ev⟩) with
                    taken := s.taken ++ [(p, ev)] }
          else .ok (s.setTurn t (some ⟨turn.held, .leave⟩))
  | .loop p event (a :: rest) ev =>
      let s := s.setTurn t (some ⟨turn.held, .loop p event rest ev⟩)
      if w.Hears ev a then .ok { s with lines := s.lines ++ [⟨p, a, event⟩] } else .ok s
  | .loop _ _ [] _ => .ok (s.setTurn t (some ⟨turn.held, .leave⟩))
  | .leave =>
      match turn.held with
      | h :: held => .ok ((s.setBusy h none).setTurn t (some ⟨held, .leave⟩))
      | [] => .ok (s.setTurn t none)

/-- A thread calls `log(pEvent)` of a logger, or goes on. -/
def logStep (w : LogObjects) (s : Logging) :
    LoggingAction → Except LoggingRefusal (Unit × Logging)
  | .log t p ev =>
      match s.turn t with
      | some _ => .error .busy
      | none => .ok ((), s.setTurn t (some ⟨[], .enter p ev⟩))
  | .step t =>
      match s.turn t with
      | none => .error .idle
      | some turn => do
          let s ← s.turnStep w t turn
          .ok ((), s)

def linesOf (s : Logging) (event : ℕ) : List LogLine := s.lines.filter (·.event = event)

/-- The events of an appender, as often as it has written them. -/
def eventsOf (s : Logging) (a : ℕ) : List ℕ := (s.lines.filter (·.appender = a)).map (·.event)

/-- The thread is in a loop over appenders. -/
def Writes (s : Logging) (t p event : ℕ) (rest : List ℕ) (ev : LogEvent) : Prop :=
  ∃ held, s.turn t = some ⟨held, .loop p event rest ev⟩

/-- No two events come to the two appenders in different orders. -/
def Agree (s : Logging) (a b : ℕ) : Prop :=
  ∀ e f, e ≠ f → ¬ ([e, f].Sublist (s.eventsOf a) ∧ [f, e].Sublist (s.eventsOf b))

def asLines (p event : ℕ) (as : List ℕ) : List LogLine := as.map fun a => ⟨p, a, event⟩

end Logging

def LogObjects.Lists (w : LogObjects) (p a : ℕ) : Prop :=
  ∃ o, w.loggers[p]? = some o ∧ a ∈ o.appenders

namespace LogPlace

/-- The thread is not in a loop over appenders. -/
def Outside : LogPlace → Prop
  | .loop .. => False
  | _ => True

def Quiet : LogPlace → Prop
  | .loop _ _ rest _ => rest = []
  | _ => True

end LogPlace

namespace Logging

variable {w : LogObjects} {s s' : Logging} {t t' p q a b e e' : ℕ} {ev ev' : LogEvent}
variable {rest held : List ℕ} {turn : LogTurn}

/-! ### Steps -/

/-- The thread has the mutexes of its loggers, each of them once. -/
structure Holding (busy : ℕ → Option ℕ) (t : ℕ) (turn : LogTurn) : Prop where
  nodup : turn.held.Nodup
  busy : ∀ p ∈ turn.held, busy p = some t

/-- Nothing is written, and the thread is in no loop afterwards. -/
structure Moves (s : Logging) (t : ℕ) (s' : Logging) : Prop where
  turn : ∀ t', t' ≠ t → s'.turn t' = s.turn t'
  lines : s'.lines = s.lines
  taken : s'.taken = s.taken
  busy : ∀ p t', t' ≠ t → s.busy p = some t' → s'.busy p = some t'
  outside : ∀ turn, s'.turn t = some turn → Holding s'.busy t turn ∧ turn.place.Outside

def take (s : Logging) (t p : ℕ) (held as : List ℕ) (ev : LogEvent) : Logging :=
  { (s.setBusy p (some t)).setTurn t (some ⟨p :: held, .loop p s.taken.length as ev⟩) with
    taken := s.taken ++ [(p, ev)] }

def put (w : LogObjects) (s : Logging) (t p e a : ℕ) (held rest : List ℕ) (ev : LogEvent) :
    Logging :=
  { s.setTurn t (some ⟨held, .loop p e rest ev⟩) with
    lines := s.lines ++ asLines p e ([a].filter (w.Hears ev)) }

theorem Moves.go (place : LogPlace) (h : Holding s.busy t ⟨held, place⟩) (hout : place.Outside) :
    s.Moves t (s.setTurn t (some ⟨held, place⟩)) where
  turn t' hne := Function.update_of_ne hne ..
  lines := rfl
  taken := rfl
  busy _ _ _ hbusy := hbusy
  outside turn hturn := by
    simp only [setTurn, Function.update_self, Option.some.injEq] at hturn
    subst hturn
    exact ⟨h, hout⟩

theorem Holding.lock {place place' : LogPlace} (h : Holding s.busy t ⟨held, place⟩)
    (hfree : s.busy p = none) : Holding (s.setBusy p (some t)).busy t ⟨p :: held, place'⟩ where
  nodup := List.nodup_cons.mpr ⟨fun hmem => by simpa [hfree] using h.busy p hmem, h.nodup⟩
  busy q hq := by
    rcases List.mem_cons.mp hq with rfl | hold
    · exact Function.update_self ..
    · have hne : q ≠ p := by
        rintro rfl
        simpa [hfree] using h.busy q hold
      exact (Function.update_of_ne hne ..).trans (h.busy q hold)

/-- A mutex that was free is nobody else's. -/
theorem busy_lock (hfree : s.busy p = none) (hq : s.busy q = some t') :
    (s.setBusy p (some t)).busy q = some t' := by
  have hne : q ≠ p := by
    rintro rfl
    simp [hfree] at hq
  exact (Function.update_of_ne hne ..).trans hq

/-- A thread that unlocks the mutex that it locked last. -/
theorem Holding.unlock {place place' : LogPlace} (h : Holding s.busy t ⟨p :: held, place⟩) :
    Holding (s.setBusy p none).busy t ⟨held, place'⟩ where
  nodup := (List.nodup_cons.mp h.nodup).2
  busy q hq := by
    have hne : q ≠ p := by
      rintro rfl
      exact (List.nodup_cons.mp h.nodup).1 hq
    exact (Function.update_of_ne hne ..).trans (h.busy q (List.mem_cons_of_mem p hq))

theorem turnStep_cases (h : s.turnStep w t turn = .ok s') (hholds : Holding s.busy t turn) :
    turn.place.Quiet ∧ s.Moves t s' ∨
    (∃ p ev o, turn.place = .enter p ev ∧ w.loggers[p]? = some o ∧
      o.level.toNat ≤ ev.level.toNat ∧ s.busy p = none ∧
      s' = s.take t p turn.held o.appenders ev) ∨
    ∃ p e a rest ev, turn.place = .loop p e (a :: rest) ev ∧
      s' = s.put w t p e a turn.held rest ev := by
  obtain ⟨held, place⟩ := turn
  unfold turnStep at h
  cases place with
  | enter p ev =>
      dsimp only at h
      split at h
      case h_1 => cases h
      case h_2 o ho =>
        split at h
        case isFalse =>
          cases h
          exact .inl ⟨trivial, .go _ ⟨hholds.nodup, hholds.busy⟩ trivial⟩
        case isTrue hlevel =>
          split at h
          case h_1 => cases h
          case h_2 hfree =>
            split at h
            case isFalse =>
              cases h
              exact .inr (.inl ⟨p, ev, o, rfl, ho, hlevel, hfree, rfl⟩)
            case isTrue =>
              have hmoves : ∀ place' : LogPlace, place'.Outside →
                  s.Moves t ((s.setBusy p (some t)).setTurn t (some ⟨p :: held, place'⟩)) := by
                intro place' hout
                have hgo := Moves.go (s := s.setBusy p (some t)) place' (hholds.lock hfree) hout
                exact ⟨hgo.turn, hgo.lines, hgo.taken, fun q t' _ hq => busy_lock hfree hq,
                  hgo.outside⟩
              split at h
              case h_1 =>
                cases h
                exact .inl ⟨trivial, hmoves _ trivial⟩
              case h_2 =>
                cases h
                exact .inl ⟨trivial, hmoves _ trivial⟩
  | loop p e rest ev =>
      cases rest with
      | nil =>
          cases h
          exact .inl ⟨rfl, .go _ ⟨hholds.nodup, hholds.busy⟩ trivial⟩
      | cons a rest =>
          refine .inr (.inr ⟨p, e, a, rest, ev, rfl, ?_⟩)
          dsimp only at h
          split at h
          case isTrue hears =>
            cases h
            simp [put, asLines, hears, setTurn]
          case isFalse hdeaf =>
            cases h
            simp [put, asLines, hdeaf, setTurn]
  | leave =>
      refine .inl ⟨trivial, ?_⟩
      cases held with
      | nil =>
          cases h
          refine ⟨fun t' hne => Function.update_of_ne hne .., rfl, rfl, fun _ _ _ hq => hq, ?_⟩
          intro turn hturn
          simp [setTurn] at hturn
      | cons p held =>
          cases h
          have hgo := Moves.go (s := s.setBusy p none) .leave hholds.unlock trivial
          refine ⟨hgo.turn, hgo.lines, hgo.taken, fun q t' hne hq => ?_, hgo.outside⟩
          have hqp : q ≠ p := by
            rintro rfl
            have hmine := hholds.busy q (List.mem_cons_self ..)
            rw [hq] at hmine
            exact hne (Option.some.inj hmine)
          exact (Function.update_of_ne hqp ..).trans hq

/-! ### What holds in every run -/

/-- A thread in a loop has the mutex of the logger, and what is written of its event is what the
appenders before those that are left have written. No event came to the logger after it. -/
structure Inside (w : LogObjects) (s : Logging) (held : List ℕ) (p e : ℕ) (rest : List ℕ)
    (ev : LogEvent) : Prop where
  mem : p ∈ held
  taken : s.taken[e]? = some (p, ev)
  lines : s.linesOf e ++ asLines p e (rest.filter (w.Hears ev)) = asLines p e (w.writers ev p)
  last : ∀ l ∈ s.lines, l.logger = p → l.event ≤ e

structure Kept (w : LogObjects) (s : Logging) : Prop where
  holds : ∀ t turn, s.turn t = some turn → Holding s.busy t turn
  inside : ∀ t held p e rest ev, s.turn t = some ⟨held, .loop p e rest ev⟩ →
    Inside w s held p e rest ev
  done : ∀ e p ev, s.taken[e]? = some (p, ev) →
    (∃ t rest, s.Writes t p e rest ev) ∨ s.linesOf e = asLines p e (w.writers ev p)
  named : ∀ l ∈ s.lines, ∃ ev, s.taken[l.event]? = some (l.logger, ev)
  sorted : s.lines.Pairwise fun l l' => l.logger = l'.logger → l.event ≤ l'.event

theorem start_kept (w : LogObjects) : Kept w start where
  holds _ _ h := by cases h
  inside _ _ _ _ _ _ h := by cases h
  done _ _ _ h := by cases h
  named _ h := by cases h
  sorted := .nil

theorem Kept.inside_unique (h : Kept w s) {held' rest' : List ℕ}
    (hturn : s.turn t = some ⟨held, .loop p e rest ev⟩)
    (hturn' : s.turn t' = some ⟨held', .loop p e' rest' ev'⟩) : t = t' := by
  have hbusy := (h.holds t _ hturn).busy p (h.inside t held p e rest ev hturn).mem
  have hbusy' := (h.holds t' _ hturn').busy p (h.inside t' held' p e' rest' ev' hturn').mem
  rw [hbusy] at hbusy'
  exact Option.some.inj hbusy'

theorem Kept.move (h : Kept w s) (hquiet : ∀ turn, s.turn t = some turn → turn.place.Quiet)
    (hmoves : s.Moves t s') : Kept w s' where
  holds t' turn hturn := by
    by_cases hne : t' = t
    case pos =>
      subst hne
      exact (hmoves.outside turn hturn).1
    case neg =>
      rw [hmoves.turn t' hne] at hturn
      have hholds := h.holds t' turn hturn
      exact ⟨hholds.nodup, fun p hp => hmoves.busy p t' hne (hholds.busy p hp)⟩
  inside t' held p e rest ev hturn := by
    have hne : t' ≠ t := by
      rintro rfl
      exact (hmoves.outside _ hturn).2
    rw [hmoves.turn t' hne] at hturn
    obtain ⟨hmem, htaken, hlines, hlast⟩ := h.inside t' held p e rest ev hturn
    refine ⟨hmem, by rw [hmoves.taken]; exact htaken, ?_, by rw [hmoves.lines]; exact hlast⟩
    rw [linesOf, hmoves.lines]
    exact hlines
  done e p ev htaken := by
    rw [hmoves.taken] at htaken
    rw [linesOf, hmoves.lines]
    rcases h.done e p ev htaken with ⟨t', rest, held, hturn⟩ | hdone
    · by_cases hne : t' = t
      case pos =>
        -- the loop that the thread leaves has no appender left
        subst hne
        have hempty : rest = [] := hquiet _ hturn
        subst hempty
        have hlines := (h.inside t' held p e [] ev hturn).lines
        rw [List.filter_nil, asLines, List.map_nil, List.append_nil] at hlines
        exact .inr hlines
      case neg => exact .inl ⟨t', rest, held, (hmoves.turn t' hne).trans hturn⟩
    · exact .inr hdone
  named := by
    rw [hmoves.lines, hmoves.taken]
    exact h.named
  sorted := by
    rw [hmoves.lines]
    exact h.sorted

theorem Kept.take {place : LogPlace} {o : LoggerNode} (h : Kept w s)
    (hturn : s.turn t = some ⟨held, place⟩) (hout : place.Outside) (ho : w.loggers[p]? = some o)
    (hlevel : o.level.toNat ≤ ev.level.toNat) (hfree : s.busy p = none) :
    Kept w (s.take t p held o.appenders ev) := by
  have hother : ∀ t', t' ≠ t → (s.take t p held o.appenders ev).turn t' = s.turn t' :=
    fun t' hne => Function.update_of_ne hne ..
  have hmine : (s.take t p held o.appenders ev).turn t =
      some ⟨p :: held, .loop p s.taken.length o.appenders ev⟩ := Function.update_self ..
  have hlt : ∀ l ∈ s.lines, l.event < s.taken.length := by
    intro l hl
    obtain ⟨ev', htaken⟩ := h.named l hl
    exact (List.getElem?_eq_some_iff.mp htaken).1
  have hold : ∀ (e : ℕ) (pair : ℕ × LogEvent), s.taken[e]? = some pair →
      (s.taken ++ [(p, ev)])[e]? = some pair := by
    intro e pair htaken
    rw [List.getElem?_append_left (List.getElem?_eq_some_iff.mp htaken).1]
    exact htaken
  refine ⟨fun t' turn hturn' => ?_, fun t' held' q e rest ev' hturn' => ?_,
    fun e q ev' htaken => ?_, fun l hl => ?_, h.sorted⟩
  · by_cases hne : t' = t
    case pos =>
      subst hne
      rw [hmine] at hturn'
      cases hturn'
      exact (h.holds t' _ hturn).lock hfree
    case neg =>
      rw [hother t' hne] at hturn'
      have hholds := h.holds t' turn hturn'
      exact ⟨hholds.nodup, fun q hq => busy_lock hfree (hholds.busy q hq)⟩
  · by_cases hne : t' = t
    case pos =>
      subst hne
      rw [hmine] at hturn'
      cases hturn'
      have hnone : s.linesOf s.taken.length = [] :=
        List.filter_eq_nil_iff.mpr fun l hl => by simpa using (hlt l hl).ne
      refine ⟨List.mem_cons_self .., List.getElem?_concat_length, ?_, fun l hl _ => (hlt l hl).le⟩
      rw [LogObjects.writers, ho]
      dsimp only
      rw [if_pos hlevel]
      exact congrArg (· ++ _) hnone
    case neg =>
      rw [hother t' hne] at hturn'
      obtain ⟨hmem, htaken, hlines, hlast⟩ := h.inside t' held' q e rest ev' hturn'
      exact ⟨hmem, hold _ _ htaken, hlines, hlast⟩
  · by_cases hnew : e < s.taken.length
    case pos =>
      have hwas : s.taken[e]? = some (q, ev') :=
        (List.getElem?_append_left hnew).symm.trans htaken
      rcases h.done e q ev' hwas with ⟨t', rest, held', hturn'⟩ | hdone
      · have hne : t' ≠ t := by
          rintro rfl
          rw [hturn] at hturn'
          cases hturn'
          exact hout
        exact .inl ⟨t', rest, held', (hother t' hne).trans hturn'⟩
      · exact .inr hdone
    case neg =>
      have heq : e = s.taken.length := by
        have hbound := (List.getElem?_eq_some_iff.mp htaken).1
        simp only [Logging.take, List.length_append, List.length_singleton] at hbound
        omega
      subst heq
      have hpair := List.getElem?_concat_length.symm.trans htaken
      cases hpair
      exact .inl ⟨t, o.appenders, p :: held, hmine⟩
  · obtain ⟨ev', htaken⟩ := h.named l hl
    exact ⟨ev', hold _ _ htaken⟩

theorem Kept.put (h : Kept w s) (hturn : s.turn t = some ⟨held, .loop p e (a :: rest) ev⟩) :
    Kept w (s.put w t p e a held rest ev) := by
  have hin := h.inside t held p e (a :: rest) ev hturn
  have hother : ∀ t', t' ≠ t → (s.put w t p e a held rest ev).turn t' = s.turn t' :=
    fun t' hne => Function.update_of_ne hne ..
  have hmine : (s.put w t p e a held rest ev).turn t = some ⟨held, .loop p e rest ev⟩ :=
    Function.update_self ..
  have hnew : ∀ l ∈ asLines p e ([a].filter (w.Hears ev)), l.logger = p ∧ l.event = e := by
    intro l hl
    obtain ⟨a', -, rfl⟩ := List.mem_map.mp hl
    exact ⟨rfl, rfl⟩
  have hsame : (s.put w t p e a held rest ev).linesOf e =
      s.linesOf e ++ asLines p e ([a].filter (w.Hears ev)) := by
    rw [linesOf, Logging.put, List.filter_append]
    exact congrArg _ (List.filter_eq_self.mpr fun l hl => by simpa using (hnew l hl).2)
  have hkept : ∀ e', e' ≠ e → (s.put w t p e a held rest ev).linesOf e' = s.linesOf e' := by
    intro e' hne
    rw [linesOf, Logging.put, List.filter_append]
    have hnone : (asLines p e ([a].filter (w.Hears ev))).filter (·.event = e') = [] :=
      List.filter_eq_nil_iff.mpr fun l hl => by simpa [(hnew l hl).2] using hne.symm
    rw [hnone, List.append_nil]
    rfl
  refine ⟨fun t' turn hturn' => ?_, fun t' held' q e' rest' ev' hturn' => ?_,
    fun e' q ev' htaken => ?_, fun l hl => ?_, ?_⟩
  · by_cases hne : t' = t
    case pos =>
      subst hne
      rw [hmine] at hturn'
      cases hturn'
      exact ⟨(h.holds t' _ hturn).nodup, (h.holds t' _ hturn).busy⟩
    case neg => exact h.holds t' turn ((hother t' hne).symm.trans hturn')
  · by_cases hne : t' = t
    case pos =>
      subst hne
      rw [hmine] at hturn'
      cases hturn'
      refine ⟨hin.mem, hin.taken, ?_, fun l hl hlogger => ?_⟩
      · have hsplit : (a :: rest).filter (w.Hears ev) =
            [a].filter (w.Hears ev) ++ rest.filter (w.Hears ev) := List.filter_append [a] rest
        rw [hsame, List.append_assoc, ← hin.lines, hsplit, asLines, asLines, asLines,
          List.map_append]
      · rcases List.mem_append.mp hl with hold | hl
        · exact hin.last l hold hlogger
        · exact (hnew l hl).2.le
    case neg =>
      rw [hother t' hne] at hturn'
      have hin' := h.inside t' held' q e' rest' ev' hturn'
      have hq : q ≠ p := by
        rintro rfl
        exact hne (h.inside_unique hturn' hturn)
      have he : e' ≠ e := by
        rintro rfl
        have hpair := hin'.taken.symm.trans hin.taken
        cases hpair
        exact hq rfl
      refine ⟨hin'.mem, hin'.taken, (hkept e' he).symm ▸ hin'.lines, fun l hl hlogger => ?_⟩
      rcases List.mem_append.mp hl with hold | hl
      · exact hin'.last l hold hlogger
      · exact absurd (hlogger.symm.trans (hnew l hl).1) hq
  · by_cases he : e' = e
    case pos =>
      subst he
      have hpair := hin.taken.symm.trans htaken
      cases hpair
      exact .inl ⟨t, rest, held, hmine⟩
    case neg =>
      rw [hkept e' he]
      rcases h.done e' q ev' htaken with ⟨t', rest', held', hturn'⟩ | hdone
      · have hne : t' ≠ t := by
          rintro rfl
          rw [hturn] at hturn'
          cases hturn'
          exact he rfl
        exact .inl ⟨t', rest', held', (hother t' hne).trans hturn'⟩
      · exact .inr hdone
  · rcases List.mem_append.mp hl with hold | hl
    · exact h.named l hold
    · rw [(hnew l hl).1, (hnew l hl).2]
      exact ⟨ev, hin.taken⟩
  · refine List.pairwise_append.mpr ⟨h.sorted, ?_, fun l hl l' hl' hlogger => ?_⟩
    · refine List.pairwise_of_forall_mem_list fun l hl l' hl' _ => ?_
      rw [(hnew l hl).2, (hnew l' hl').2]
    · rw [(hnew l' hl').2]
      exact hin.last l hl (hlogger.trans (hnew l' hl').1)

theorem Kept.step {action : LoggingAction} (h : Kept w s)
    (hstep : s.logStep w action = .ok ((), s')) : Kept w s' := by
  cases action with
  | log t p ev =>
      rw [logStep] at hstep
      split at hstep
      case h_1 => cases hstep
      case h_2 hidle =>
        cases hstep
        refine h.move (t := t) (fun turn hturn => by rw [hidle] at hturn; cases hturn) ?_
        exact .go _ ⟨.nil, fun _ hmem => by cases hmem⟩ trivial
  | step t =>
      rw [logStep] at hstep
      split at hstep
      case h_1 => cases hstep
      case h_2 turn hturn =>
        obtain ⟨s₁, hmove, hok⟩ := bind_eq_ok.mp hstep
        cases hok
        obtain ⟨held, place⟩ := turn
        rcases turnStep_cases hmove (h.holds t _ hturn) with ⟨hquiet, hmoves⟩ |
          ⟨p, ev, o, hplace, ho, hlevel, hfree, rfl⟩ | ⟨p, e, a, rest, ev, hplace, rfl⟩
        · refine h.move (fun turn hturn' => ?_) hmoves
          rw [hturn] at hturn'
          cases hturn'
          exact hquiet
        · have hout : place.Outside := by
            dsimp only at hplace
            rw [hplace]
            trivial
          exact h.take hturn hout ho hlevel hfree
        · dsimp only at hplace
          subst hplace
          exact h.put hturn

theorem Kept.lists (h : Kept w s) {l : LogLine} (hl : l ∈ s.lines) :
    w.Lists l.logger l.appender := by
  obtain ⟨ev, htaken⟩ := h.named l hl
  have hmem : l ∈ s.linesOf l.event := List.mem_filter.mpr ⟨hl, by simp⟩
  have hwrites : l ∈ asLines l.logger l.event (w.writers ev l.logger) := by
    rcases h.done l.event l.logger ev htaken with ⟨t, rest, held, hturn⟩ | hdone
    · rw [← (h.inside t held l.logger l.event rest ev hturn).lines]
      exact List.mem_append_left _ hmem
    · exact hdone ▸ hmem
  obtain ⟨a, ha, heq⟩ := List.mem_map.mp hwrites
  rw [← heq]
  rw [LogObjects.writers] at ha
  split at ha
  case h_1 o ho =>
    split at ha
    case isTrue => exact ⟨o, ho, List.mem_of_mem_filter ha⟩
    case isFalse => cases ha
  case h_2 => cases ha

/-- Two events that an appender gets one after the other are two lines in this order. -/
theorem lines_of_events (h : [e, e'].Sublist (s.eventsOf a)) :
    ∃ l l', [l, l'].Sublist s.lines ∧ l.event = e ∧ l'.event = e' ∧
      l.appender = a ∧ l'.appender = a := by
  obtain ⟨ls, hsub, heq⟩ := List.sublist_map_iff.mp h
  match ls, heq with
  | [l, l'], heq =>
      have hof : ∀ l ∈ s.lines.filter (·.appender = a), l.appender = a :=
        fun l hl => by simpa using (List.mem_filter.mp hl).2
      simp only [List.map_cons, List.map_nil, List.cons.injEq, and_true] at heq
      exact ⟨l, l', hsub.trans List.filter_sublist, heq.1.symm, heq.2.symm,
        hof l (hsub.subset (by simp)), hof l' (hsub.subset (by simp))⟩

/-- Appenders that share one logger at most get the events in one order. -/
theorem Kept.agree (h : Kept w s) (hab : a ≠ b)
    (hshared : ∀ p q, p ≠ q → ¬ (w.Lists p a ∧ w.Lists p b ∧ w.Lists q a ∧ w.Lists q b)) :
    s.Agree a b := by
  rintro e f hef ⟨ha, hb⟩
  obtain ⟨l, l', hl, rfl, rfl, rfl, hl'a⟩ := lines_of_events ha
  obtain ⟨m, m', hm, hmf, hme, rfl, hm'b⟩ := lines_of_events hb
  have hmem : l ∈ s.lines ∧ l' ∈ s.lines := ⟨hl.subset (by simp), hl.subset (by simp)⟩
  have hmem' : m ∈ s.lines ∧ m' ∈ s.lines := ⟨hm.subset (by simp), hm.subset (by simp)⟩
  -- both lines of an event are of its logger
  have hlogger : ∀ x ∈ s.lines, ∀ y ∈ s.lines, x.event = y.event → x.logger = y.logger := by
    intro x hx y hy heq
    obtain ⟨ev, htaken⟩ := h.named x hx
    obtain ⟨ev', htaken'⟩ := h.named y hy
    rw [heq] at htaken
    have hpair := htaken.symm.trans htaken'
    simp only [Option.some.injEq, Prod.mk.injEq] at hpair
    exact hpair.1
  have he : m'.logger = l.logger := hlogger m' hmem'.2 l hmem.1 hme
  have hf : m.logger = l'.logger := hlogger m hmem'.1 l' hmem.2 hmf
  have hone : l.logger = l'.logger := by
    by_contra hne
    refine hshared l.logger l'.logger hne ⟨h.lists hmem.1, ?_, ?_, ?_⟩
    · exact he ▸ hm'b ▸ h.lists hmem'.2
    · exact hl'a ▸ h.lists hmem.2
    · exact hf ▸ h.lists hmem'.1
  have hle : l.event ≤ l'.event :=
    List.rel_of_pairwise_cons (h.sorted.sublist hl) (by simp) hone
  have hge : m.event ≤ m'.event :=
    List.rel_of_pairwise_cons (h.sorted.sublist hm) (by simp) (hf.trans (hone.symm.trans he.symm))
  omega

/-! ### Two loggers that have both appenders -/

/-- The appenders of a logger write while no other thread goes on. -/
theorem reaches_put (as : List ℕ) (hturn : s.turn t = some ⟨held, .loop p e (as ++ rest) ev⟩) :
    ∃ s', Reaches (logStep w) s s' ∧ s'.turn t = some ⟨held, .loop p e rest ev⟩ ∧
      (∀ t', t' ≠ t → s'.turn t' = s.turn t') ∧ s'.busy = s.busy ∧ s'.taken = s.taken ∧
      s'.lines = s.lines ++ asLines p e (as.filter (w.Hears ev)) := by
  induction as generalizing s with
  | nil => exact ⟨s, .refl s, hturn, fun _ _ => rfl, rfl, rfl, (List.append_nil _).symm⟩
  | cons a as ih =>
      have hstep : logStep w s (.step t) = .ok ((), s.put w t p e a held (as ++ rest) ev) := by
        by_cases hears : w.Hears ev a
        case pos => simp [logStep, hturn, turnStep, hears, put, asLines, setTurn]
        case neg => simp [logStep, hturn, turnStep, hears, put, asLines, setTurn]
      obtain ⟨s', hreach, hturn', hother, hbusy, htaken, hlines⟩ :=
        ih (s := s.put w t p e a held (as ++ rest) ev) (Function.update_self ..)
      refine ⟨s', .head hstep hreach, hturn', fun t' hne => ?_, hbusy, htaken, ?_⟩
      · exact (hother t' hne).trans (Function.update_of_ne hne ..)
      · have hsplit : (a :: as).filter (w.Hears ev) =
            [a].filter (w.Hears ev) ++ as.filter (w.Hears ev) := List.filter_append [a] as
        rw [hlines, hsplit, asLines, asLines, List.map_append, ← List.append_assoc]
        rfl

/-- An event comes to the appenders of a logger whose mutex is free. -/
theorem reaches_take {o : LoggerNode} (hidle : s.turn t = none) (hfree : s.busy p = none)
    (ho : w.loggers[p]? = some o) (hlevel : o.level.toNat ≤ ev.level.toNat)
    (hsome : o.appenders ≠ []) : Reaches (logStep w) s (s.take t p [] o.appenders ev) := by
  have hlog : logStep w s (.log t p ev) = .ok ((), s.setTurn t (some ⟨[], .enter p ev⟩)) := by
    simp [logStep, hidle]
  have hstep : logStep w (s.setTurn t (some ⟨[], .enter p ev⟩)) (.step t) =
      .ok ((), s.take t p [] o.appenders ev) := by
    simp [logStep, turnStep, setTurn, setBusy, take, ho, hlevel, hfree, hsome]
  exact .head hlog (.single hstep)

theorem reaches_all {o : LoggerNode} (hidle : s.turn t = none) (hfree : s.busy p = none)
    (ho : w.loggers[p]? = some o) (hlevel : o.level.toNat ≤ ev.level.toNat)
    (hsome : o.appenders ≠ []) :
    ∃ s', Reaches (logStep w) s s' ∧ (∀ t', t' ≠ t → s'.turn t' = s.turn t') ∧
      s'.lines = s.lines ++ asLines p s.taken.length (o.appenders.filter (w.Hears ev)) := by
  have hturn : (s.take t p [] o.appenders ev).turn t =
      some ⟨[p], .loop p s.taken.length (o.appenders ++ []) ev⟩ := by
    rw [List.append_nil]
    exact Function.update_self ..
  obtain ⟨s', hreach, -, hother, -, -, hlines⟩ := reaches_put (w := w) o.appenders hturn
  refine ⟨s', (reaches_take hidle hfree ho hlevel hsome).trans hreach, fun t' hne => ?_, hlines⟩
  exact (hother t' hne).trans (Function.update_of_ne hne ..)

/-- An event that is written before and after another one comes to one appender first and to another
one last. -/
theorem sublist_eventsOf {as bs cs : List ℕ}
    (hlines : s.lines = asLines p e as ++ asLines q e' bs ++ asLines p e cs) (ha : a ∈ as)
    (ha' : a ∈ bs) (hb' : b ∈ bs) (hb : b ∈ cs) :
    [e, e'].Sublist (s.eventsOf a) ∧ [e', e].Sublist (s.eventsOf b) := by
  have hmem : ∀ (p e a : ℕ) (as : List ℕ), a ∈ as →
      [e].Sublist (((asLines p e as).filter (·.appender = a)).map (·.event)) := by
    intro p e a as ha
    refine List.singleton_sublist.mpr (List.mem_map.mpr ⟨⟨p, a, e⟩, ?_, rfl⟩)
    exact List.mem_filter.mpr ⟨List.mem_map.mpr ⟨a, ha, rfl⟩, by simp⟩
  simp only [eventsOf, hlines, List.filter_append, List.map_append]
  constructor
  · exact ((hmem p e a as ha).append (hmem q e' a bs ha')).trans (List.sublist_append_left ..)
  · exact ((hmem q e' b bs hb').trans (List.sublist_append_right ..)).append (hmem p e b cs hb)

/-- One of two elements of a list comes first. -/
theorem split_of_mem {as : List ℕ} (hab : a ≠ b) (ha : a ∈ as) (hb : b ∈ as) :
    ∃ x y pre post, as = pre ++ post ∧ x ∈ pre ∧ y ∈ post ∧ (x = a ∧ y = b ∨ x = b ∧ y = a) := by
  induction as with
  | nil => cases ha
  | cons c as ih =>
      by_cases hac : a = c
      case pos =>
        subst hac
        exact ⟨a, b, [a], as, rfl, List.mem_singleton.mpr rfl,
          (List.mem_cons.mp hb).resolve_left hab.symm, .inl ⟨rfl, rfl⟩⟩
      case neg =>
        by_cases hbc : b = c
        case pos =>
          subst hbc
          exact ⟨b, a, [b], as, rfl, List.mem_singleton.mpr rfl,
            (List.mem_cons.mp ha).resolve_left hab, .inr ⟨rfl, rfl⟩⟩
        case neg =>
          obtain ⟨x, y, pre, post, rfl, hx, hy, hxy⟩ :=
            ih ((List.mem_cons.mp ha).resolve_left hac) ((List.mem_cons.mp hb).resolve_left hbc)
          exact ⟨x, y, c :: pre, post, rfl, List.mem_cons_of_mem c hx, hy, hxy⟩

theorem hears_fatal {o : LoggerNode} (hlevel : ev.level = .LFATAL) (ho : w.loggers[p]? = some o)
    (ha : a ∈ o.appenders) : w.Hears ev a := by
  have hlt := w.appenders_lt o (List.mem_of_getElem? ho) a ha
  refine ⟨w.appenders[a], List.getElem?_eq_getElem hlt, ?_⟩
  rw [hlevel]
  cases (w.appenders[a]).level <;> decide

theorem opens_fatal (hlevel : ev.level = .LFATAL) (level : LogLevel) :
    level.toNat ≤ ev.level.toNat := by
  rw [hlevel]
  cases level <;> decide

/-- One thread stops between two appenders that another logger has as well. -/
theorem reaches_disagree {o : LoggerNode} {x y : ℕ} {pre post : List ℕ} (hpq : p ≠ q)
    (ho : w.loggers[p]? = some o) (happ : o.appenders = pre ++ post) (hx : x ∈ pre) (hy : y ∈ post)
    (hqx : w.Lists q x) (hqy : w.Lists q y) :
    ∃ s, Reaches (logStep w) start s ∧ ¬ s.Agree x y := by
  obtain ⟨o', ho', hx'⟩ := hqx
  have hy' : y ∈ o'.appenders := by
    obtain ⟨o'', ho'', hy''⟩ := hqy
    rw [ho'] at ho''
    cases ho''
    exact hy''
  let ev : LogEvent := ⟨.LFATAL, [], [], 0, 0, 0, [], {}, false⟩
  have hne : o.appenders ≠ [] := by
    rw [happ]
    exact List.append_ne_nil_of_left_ne_nil (List.ne_nil_of_mem hx) _
  -- the first event comes to the logger, and the first appenders write it
  have htake : Reaches (logStep w) start (start.take 0 p [] o.appenders ev) :=
    reaches_take rfl rfl ho (opens_fatal rfl _) hne
  rw [happ] at htake
  obtain ⟨s₁, hreach₁, hturn₁, hother₁, hbusy₁, htaken₁, hlines₁⟩ :=
    reaches_put (w := w) (s := start.take 0 p [] (pre ++ post) ev) pre (Function.update_self ..)
  have hidle : s₁.turn 1 = none := hother₁ 1 Nat.one_ne_zero
  have hfree : s₁.busy q = none := by
    rw [hbusy₁]
    exact Function.update_of_ne hpq.symm ..
  -- the second one is written by all appenders of the other logger
  have hopen : o'.level.toNat ≤ ev.level.toNat := opens_fatal rfl _
  obtain ⟨s₂, hreach₂, hother₂, hlines₂⟩ :=
    reaches_all hidle hfree ho' hopen (List.ne_nil_of_mem hx')
  have hturn₂ : s₂.turn 0 = some ⟨[p], .loop p 0 (post ++ []) ev⟩ := by
    rw [hother₂ 0 Nat.zero_ne_one, hturn₁, List.append_nil]
    rfl
  -- and then the first thread goes on
  obtain ⟨s₃, hreach₃, -, -, -, -, hlines₃⟩ := reaches_put (w := w) post hturn₂
  refine ⟨s₃, (htake.trans hreach₁).trans (hreach₂.trans hreach₃), fun hagree => ?_⟩
  have hheard : ∀ {r : ℕ} {o : LoggerNode} {as : List ℕ} {c : ℕ}, w.loggers[r]? = some o →
      c ∈ o.appenders → c ∈ as → c ∈ as.filter (w.Hears ev) := fun hr hc has =>
    List.mem_filter.mpr ⟨has, decide_eq_true (hears_fatal rfl hr hc)⟩
  have hpx : x ∈ o.appenders := happ ▸ List.mem_append_left _ hx
  have hpy : y ∈ o.appenders := happ ▸ List.mem_append_right _ hy
  rw [hlines₂, hlines₁, htaken₁] at hlines₃
  exact hagree 0 1 Nat.zero_ne_one (sublist_eventsOf hlines₃ (hheard ho hpx hx)
    (hheard ho' hx' hx') (hheard ho' hy' hy') (hheard ho hpy hy))

/-- In every run a logger has its events written one after the other, each as a whole by the
appenders that let it through, and two appenders get the events in one order in every run exactly
if no two loggers have both of them. -/
theorem appenders_agree_iff (w : LogObjects) :
    (∀ s, Reaches (logStep w) start s →
      s.lines.Pairwise (fun l l' => l.logger = l'.logger → l.event ≤ l'.event) ∧
      ∀ e p ev, s.taken[e]? = some (p, ev) → (∀ t rest, ¬ s.Writes t p e rest ev) →
        s.linesOf e = asLines p e (w.writers ev p)) ∧
    ((∀ s, Reaches (logStep w) start s → ∀ a b, a ≠ b → s.Agree a b) ↔
      ∀ p q a b, p ≠ q → a ≠ b →
        ¬ (w.Lists p a ∧ w.Lists p b ∧ w.Lists q a ∧ w.Lists q b)) := by
  have hkept : ∀ s, Reaches (logStep w) start s → Kept w s := fun s hreach =>
    Reaches.inv (fun _ _ _ _ hs hstep => hs.step hstep) (start_kept w) hreach
  refine ⟨fun s hreach => ⟨(hkept s hreach).sorted, fun e p ev htaken hidle => ?_⟩, ?_⟩
  · rcases (hkept s hreach).done e p ev htaken with ⟨t, rest, hwrites⟩ | hdone
    · exact (hidle t rest hwrites).elim
    · exact hdone
  constructor
  · rintro hagree p q a b hpq hab ⟨⟨o, ho, hpa⟩, ⟨o', ho', hpb⟩, hqa, hqb⟩
    rw [ho] at ho'
    cases ho'
    obtain ⟨x, y, pre, post, happ, hx, hy, hxy⟩ := split_of_mem hab hpa hpb
    obtain ⟨rfl, rfl⟩ | ⟨rfl, rfl⟩ := hxy
    · obtain ⟨s, hreach, hnot⟩ := reaches_disagree hpq ho happ hx hy hqa hqb
      exact hnot (hagree s hreach x y hab)
    · obtain ⟨s, hreach, hnot⟩ := reaches_disagree hpq ho happ hx hy hqb hqa
      exact hnot (hagree s hreach x y hab.symm)
  · intro hshared s hreach a b hab
    exact (hkept s hreach).agree hab fun p q hpq => hshared p q a b hpq hab

end Logging

end LpNet
