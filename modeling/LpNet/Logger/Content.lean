import LpNet.Logger.Event

/-!
What `LogEvent::format` and the stream of the event make of its content.

`vsnprintf` stores what fits in the buffer and answers how long the whole text is;
`std::string(buf, len)` reads that many characters. The two agree on texts that fit
(`format_fits`). One more character, and the terminator is appended with the rest; from the
next one on, the string is read from behind the buffer. Texts that are too long for an `int`
are answered with a negative number, and dropped.
-/

namespace LpNet

open Transition

def NUL : Char := '\x00'

/-- A buffer of zeros in which as much of the text is stored as leaves room for a terminator. -/
def stored (size : ℕ) (text : Text) : Text :=
  text.take (size - 1) ++ List.replicate (size - min (size - 1) text.length) NUL

/-- `vsnprintf(buf, size, …)`, for arguments that are rendered as this text: the answer, and the
buffer. -/
def vsnprintf (size : ℕ) (text : Text) : ℤ × Text :=
  (if text.length < 2 ^ 31 then text.length else -1, stored size text)

/-- `std::string(buf, len)`. -/
def stringOf (buf : Text) (len : ℕ) : Except Fault Text :=
  if len ≤ buf.length then .ok (buf.take len) else .error .outOfBounds

namespace LogEvent

def append (ev : LogEvent) (str : Text) : LogEvent := { ev with content := ev.content ++ str }

/-- `format(fmt, …)`, for arguments that are rendered as this text. -/
def format (ev : LogEvent) (text : Text) : Except Fault LogEvent :=
  match vsnprintf 256 text with
  | (len, buf) =>
      if len < 0 then .ok ev
      else do
        let str ← stringOf buf len.toNat
        .ok (ev.append str)

inductive Op
  | format (text : Text)
  /-- `getSS() << text`. -/
  | insert (text : Text)
  deriving DecidableEq, Repr

def Op.text : Op → Text
  | .format text | .insert text => text

def step (ev : LogEvent) : Op → Except Fault (Unit × LogEvent)
  | .format text => do
      let ev ← ev.format text
      .ok ((), ev)
  | .insert text => .ok ((), ev.append text)

/-- The text, or a first part of it, comes behind the content. -/
def Appends (ev : LogEvent) (op : Op) : Prop :=
  ∃ part, part <+: op.text ∧ ev.step op = .ok ((), ev.append part)

/-- Every call appends its text or a first part of it, reading no character that is not in the
buffer, and in the end these parts are the content. -/
def Collects (ev : LogEvent) (ops : List Op) : Prop :=
  Along step Appends ev ops ∧ ∃ answers ev' parts, run step ev ops = .ok (answers, ev') ∧
    List.Forall₂ (fun part op => part <+: Op.text op) parts ops ∧
    ev'.content = ev.content ++ parts.flatten

/-- The texts that `format` gets right: the ones that fit in the buffer, with the terminator as
the last character or behind it, and the ones it drops. -/
def Op.Fits : Op → Prop
  | .format text => text.length ≤ 255 ∨ text.length = 256 ∧ text.getLast? = some NUL ∨
      2 ^ 31 ≤ text.length
  | .insert _ => True

variable {ev : LogEvent} {text : Text}

/-! ### One call -/

theorem append_inj {a b : Text} : ev.append a = ev.append b ↔ a = b := by
  simp [append]

theorem format_eq (hlen : text.length < 2 ^ 31) :
    ev.format text = (stringOf (stored 256 text) text.length).map ev.append := by
  rw [format, vsnprintf, if_pos hlen]
  dsimp only
  rw [if_neg (Int.not_lt.mpr (Int.natCast_nonneg _)), Int.toNat_natCast]
  cases stringOf (stored 256 text) text.length <;> rfl

theorem length_stored (text : Text) : (stored 256 text).length = 256 := by
  simp [stored]

theorem format_fits (hlen : text.length ≤ 255) : ev.format text = .ok (ev.append text) := by
  have hread : stringOf (stored 256 text) text.length = .ok text := by
    rw [stringOf, length_stored, if_pos (by omega), stored, List.take_of_length_le hlen,
      List.take_left]
  rw [format_eq (by omega), hread]
  rfl

theorem format_edge {front : Text} {c : Char} (hlen : front.length = 255) :
    ev.format (front ++ [c]) = .ok (ev.append (front ++ [NUL])) := by
  have hlength : (front ++ [c]).length = 256 := by simp [hlen]
  have hstored : stored 256 (front ++ [c]) = front ++ [NUL] := by
    rw [stored, List.take_append_of_le_length hlen.ge, List.take_of_length_le hlen.le, hlength]
    rfl
  have hread : stringOf (stored 256 (front ++ [c])) (front ++ [c]).length =
      .ok (front ++ [NUL]) := by
    rw [stringOf, length_stored, hlength, if_pos (Nat.le_refl 256), hstored,
      List.take_of_length_le (by simp [hlen])]
  rw [format_eq (by omega), hread]
  rfl

theorem format_overruns (hlong : 256 < text.length) (hlen : text.length < 2 ^ 31) :
    ev.format text = .error .outOfBounds := by
  have hread : stringOf (stored 256 text) text.length = .error .outOfBounds := by
    rw [stringOf, length_stored, if_neg (by omega)]
  rw [format_eq hlen, hread]
  rfl

theorem format_dropped (hlen : 2 ^ 31 ≤ text.length) : ev.format text = .ok (ev.append []) := by
  rw [format, vsnprintf, if_neg (Nat.not_lt_of_le hlen), append, List.append_nil]
  rfl

theorem step_format {result : Except Fault LogEvent} (h : ev.format text = result) :
    ev.step (.format text) = result.map fun ev => ((), ev) := by
  rw [step, h]
  cases result <;> rfl

theorem appends_edge_iff {front : Text} {c : Char} (hlen : front.length = 255) :
    Appends ev (.format (front ++ [c])) ↔ c = NUL := by
  rw [Appends, step_format (format_edge hlen)]
  constructor
  · rintro ⟨part, hpart, hok⟩
    injection hok with hok
    obtain rfl := append_inj.mp (Prod.mk.inj hok).2
    rw [Op.text, List.prefix_append_right_inj] at hpart
    exact (List.cons_prefix_cons.mp hpart).1.symm
  · rintro rfl
    exact ⟨_, List.prefix_refl _, rfl⟩

theorem appends_iff (op : Op) : Appends ev op ↔ op.Fits := by
  cases op with
  | insert text => exact iff_of_true ⟨text, List.prefix_refl _, rfl⟩ trivial
  | format text =>
      rw [Op.Fits]
      by_cases hfits : text.length ≤ 255
      case pos =>
        refine iff_of_true ⟨text, List.prefix_refl _, ?_⟩ (.inl hfits)
        rw [step_format (format_fits hfits)]
        rfl
      case neg =>
        by_cases hdropped : 2 ^ 31 ≤ text.length
        case pos =>
          refine iff_of_true ⟨[], List.nil_prefix, ?_⟩ (.inr (.inr hdropped))
          rw [step_format (format_dropped hdropped)]
          rfl
        case neg =>
          by_cases hedge : text.length = 256
          case neg =>
            refine iff_of_false ?_ (by omega)
            rintro ⟨part, -, hok⟩
            rw [step_format (format_overruns (by omega) (by omega))] at hok
            cases hok
          case pos =>
            obtain ⟨front, c, rfl⟩ : ∃ front c, text = front ++ [c] := by
              refine (List.eq_nil_or_concat' text).resolve_left ?_
              rintro rfl
              cases hedge
            have hfront : front.length = 255 := by simpa using hedge
            rw [appends_edge_iff hfront, List.getLast?_concat, Option.some.injEq]
            constructor
            · exact fun hc => .inr (.inl ⟨hedge, hc⟩)
            · rintro (hle | ⟨-, hc⟩ | hge)
              · exact absurd hle hfits
              · exact hc
              · exact absurd hge hdropped

/-! ### All calls -/

theorem fits_of_along {ops : List Op} (h : Along step Appends ev ops) : ∀ op ∈ ops, op.Fits := by
  induction ops generalizing ev with
  | nil => exact fun op hop => by cases hop
  | cons op ops ih =>
      obtain ⟨part, -, hok⟩ := h.1
      exact List.forall_mem_cons.mpr ⟨(appends_iff op).mp h.1, ih (h.2 _ _ hok)⟩

theorem collects_of_fits {ops : List Op} (h : ∀ op ∈ ops, op.Fits) : ev.Collects ops := by
  induction ops generalizing ev with
  | nil => exact ⟨trivial, [], ev, [], rfl, .nil, (List.append_nil _).symm⟩
  | cons op ops ih =>
      rw [List.forall_mem_cons] at h
      obtain ⟨part, hpart, hok⟩ := (@appends_iff ev op).mpr h.1
      obtain ⟨halong, answers, ev', parts, hrun, hparts, hcontent⟩ := @ih (ev.append part) h.2
      refine ⟨(along_cons_ok hok).mpr ⟨⟨part, hpart, hok⟩, halong⟩, () :: answers, ev',
        part :: parts, ?_, .cons hpart hparts, ?_⟩
      · rw [run_cons_ok ops hok, hrun]
        rfl
      · rw [hcontent, append, List.flatten_cons, List.append_assoc]

/-- The content is what was formatted exactly as long as every text fits. -/
theorem collects_iff (ev : LogEvent) (ops : List Op) :
    ev.Collects ops ↔ ∀ op ∈ ops, op.Fits :=
  ⟨fun h => fits_of_along h.1, collects_of_fits⟩

/-- A text of 300 characters is read from behind the buffer. -/
theorem not_collects_long :
    ¬ Collects ⟨.LINFO, "main.cpp".toList, "main".toList, 7, 0, 0, [], {}, false⟩
      [.format (List.replicate 300 'x')] := by
  intro h
  have hfits := fits_of_along h.1 _ (List.mem_singleton_self _)
  rw [Op.Fits, List.length_replicate] at hfits
  omega

end LogEvent

end LpNet
