import LpNet.Strings.Match

/-!
Which patterns `LogFormatter` takes.

`parsePatToken` refuses one segment, `CHAR:` without a character
(`status_eq_error_iff`): a segment that begins with `DATETIME` is taken whatever follows,
because the place of a missing brace is `npos`, which is past every brace there can be. And
`hasError()` tells of the tokens that were taken and name no item, but not of the ones
that were refused.
-/

namespace LpNet.LogFormatter

open StringApi

variable {segment fmt str : Text}

/-! ### Segments -/

/-- A date and time with a format of its own. -/
def Braced (segment fmt : Text) : Prop := segment = "DATETIME\x7b".toList ++ fmt ++ ['\x7d']

/-- The segments that there are specifiers for. -/
def Accepted (segment : Text) : Prop :=
  (∃ str, str ≠ [] ∧ segment = "CHAR:".toList ++ str) ∨ segment = "DATETIME".toList ∨
    (∃ fmt, Braced segment fmt) ∨
    ¬ "CHAR:".toList <+: segment ∧ ¬ "DATETIME".toList <+: segment

/-- The parser takes these segments, with the format that is between the braces, and no other,
above all none whose brace is not closed. -/
structure ParsesExactly (segment : Text) : Prop where
  ok_iff : (parsePatToken segment).status = .PARSE_OK ↔ Accepted segment
  braced : ∀ fmt, Braced segment fmt →
    parsePatToken segment = ⟨"DATETIME".toList, fmt, .PARSE_OK⟩
  unclosed : "DATETIME\x7b".toList <+: segment → '\x7d' ∉ segment →
    (parsePatToken segment).status = .PARSE_ERROR

theorem startWith_append (a b : Text) : startWith (a ++ b) a = true :=
  startWith_iff.mpr (List.prefix_append a b)

theorem startWith_false {a b : Text} (h : ¬ b <+: a) : startWith a b = false := by
  rw [Bool.eq_false_iff, ne_eq, startWith_iff]
  exact h

theorem not_char_datetime (rest : Text) : ¬ "CHAR:".toList <+: "DATETIME".toList ++ rest := by
  intro h
  have hhead := List.cons_prefix_cons.mp h
  exact absurd hhead.1 (by decide)

theorem parsePatToken_char (str : Text) : parsePatToken ("CHAR:".toList ++ str) =
    if str = [] then ⟨"CHAR".toList, [], .PARSE_ERROR⟩ else ⟨"CHAR".toList, str, .PARSE_OK⟩ := by
  rw [parsePatToken, if_pos (startWith_append _ _)]
  cases str with
  | nil => rfl
  | cons c str => rfl

theorem parsePatToken_datetime (rest : Text) :
    ∃ arg, parsePatToken ("DATETIME".toList ++ rest) =
      ⟨"DATETIME".toList, arg, .PARSE_OK⟩ := by
  rw [parsePatToken, startWith_false (not_char_datetime rest), if_neg Bool.false_ne_true,
    if_pos (startWith_append _ _)]
  split
  case isTrue hbrace =>
    have hplace : 9 ≤ rfind ("DATETIME".toList ++ rest) '\x7d' := by
      cases rest with
      | nil => cases hbrace
      | cons c rest =>
          have hc : c = '\x7b' := Option.some.inj hbrace
          subst hc
          have hle := @le_rfind_append ("DATETIME\x7b".toList) rest '\x7d' (by decide) (by decide)
          exact hle
    exact ⟨_, if_pos hplace⟩
  case isFalse => exact ⟨_, rfl⟩

theorem parsePatToken_braced (h : Braced segment fmt) :
    parsePatToken segment = ⟨"DATETIME".toList, fmt, .PARSE_OK⟩ := by
  have hplace : rfind segment '\x7d' = 9 + fmt.length := by
    rw [h, rfind_append List.not_mem_nil, List.length_append]
    rfl
  have hdatetime : segment = "DATETIME".toList ++ ('\x7b' :: (fmt ++ ['\x7d'])) := by
    rw [h]
    rfl
  have hbrace : segment[8]? = some '\x7b' := by
    rw [hdatetime]
    rfl
  have hsubstr : substr segment 9 fmt.length = fmt := by
    rw [h, List.append_assoc]
    change (fmt ++ ['\x7d']).take fmt.length = fmt
    exact List.take_left
  rw [parsePatToken, if_neg, if_pos, if_pos hbrace, hplace]
  · dsimp only
    rw [if_pos (Nat.le_add_right 9 _), Nat.add_sub_cancel_left, hsubstr]
  · rw [hdatetime]
    exact startWith_append _ _
  · rw [hdatetime, startWith_false (not_char_datetime _)]
    exact Bool.false_ne_true

theorem parsePatToken_other (hchar : ¬ "CHAR:".toList <+: segment)
    (hdatetime : ¬ "DATETIME".toList <+: segment) :
    parsePatToken segment = ⟨segment, [], .PARSE_OK⟩ := by
  rw [parsePatToken, startWith_false hchar, startWith_false hdatetime]
  rfl

theorem segment_cases (segment : Text) : (∃ str, segment = "CHAR:".toList ++ str) ∨
    (∃ rest, segment = "DATETIME".toList ++ rest) ∨
      ¬ "CHAR:".toList <+: segment ∧ ¬ "DATETIME".toList <+: segment := by
  by_cases hchar : "CHAR:".toList <+: segment
  · obtain ⟨str, rfl⟩ := hchar
    exact .inl ⟨str, rfl⟩
  · by_cases hdatetime : "DATETIME".toList <+: segment
    · obtain ⟨rest, rfl⟩ := hdatetime
      exact .inr (.inl ⟨rest, rfl⟩)
    · exact .inr (.inr ⟨hchar, hdatetime⟩)

theorem status_eq_error_iff :
    (parsePatToken segment).status = .PARSE_ERROR ↔ segment = "CHAR:".toList := by
  rcases segment_cases segment with ⟨str, rfl⟩ | ⟨rest, rfl⟩ | ⟨hchar, hdatetime⟩
  · rw [parsePatToken_char]
    split
    case isTrue hnil => simp [hnil]
    case isFalse hne => simp [hne]
  · obtain ⟨arg, hparse⟩ := parsePatToken_datetime rest
    rw [hparse]
    refine iff_of_false nofun fun heq => ?_
    exact not_char_datetime rest (heq ▸ List.prefix_refl _)
  · rw [parsePatToken_other hchar hdatetime]
    exact iff_of_false nofun fun heq => hchar (heq ▸ List.prefix_refl _)

theorem status_eq_ok_iff :
    (parsePatToken segment).status = .PARSE_OK ↔ segment ≠ "CHAR:".toList := by
  rw [ne_eq, ← status_eq_error_iff]
  cases (parsePatToken segment).status <;> simp

/-- Where a segment begins with `DATETIME`, it is to end there, or behind the braces. -/
def Proper (segment : Text) : Prop :=
  "DATETIME".toList <+: segment → segment = "DATETIME".toList ∨ ∃ fmt, Braced segment fmt

theorem accepted_iff (h : Proper segment) : Accepted segment ↔ segment ≠ "CHAR:".toList := by
  rcases segment_cases segment with ⟨str, rfl⟩ | ⟨rest, rfl⟩ | ⟨hchar, hdatetime⟩
  · have hdatetime : ¬ "DATETIME".toList <+: "CHAR:".toList ++ str := fun hpre =>
      absurd (List.cons_prefix_cons.mp hpre).1 (by decide)
    constructor
    · rintro (⟨str', hne, heq⟩ | heq | ⟨fmt, heq⟩ | ⟨hnot, -⟩)
      · rw [List.append_cancel_left heq]
        simpa using hne
      · exact absurd (heq ▸ List.prefix_refl _) hdatetime
      · exact absurd (heq ▸ ⟨'\x7b' :: (fmt ++ ['\x7d']), rfl⟩) hdatetime
      · exact absurd (List.prefix_append _ _) hnot
    · intro hne
      exact .inl ⟨str, by simpa using hne, rfl⟩
  · refine iff_of_true ?_ fun heq => not_char_datetime rest (heq ▸ List.prefix_refl _)
    rcases h (List.prefix_append _ _) with heq | hfmt
    · exact .inr (.inl heq)
    · exact .inr (.inr (.inl hfmt))
  · refine iff_of_true (.inr (.inr (.inr ⟨hchar, hdatetime⟩))) ?_
    rintro rfl
    exact hchar (List.prefix_refl _)

theorem parsesExactly_iff : ParsesExactly segment ↔ Proper segment := by
  constructor
  · rintro ⟨hok, -, -⟩ ⟨rest, rfl⟩
    obtain ⟨arg, hparse⟩ := parsePatToken_datetime rest
    rw [hparse] at hok
    rcases hok.mp rfl with ⟨str, -, heq⟩ | heq | hfmt | ⟨-, hnot⟩
    · exact absurd ⟨str, heq.symm⟩ (not_char_datetime rest)
    · exact .inl heq
    · exact .inr hfmt
    · exact absurd (List.prefix_append _ _) hnot
  · intro hproper
    refine ⟨?_, fun fmt => parsePatToken_braced, fun hopen hclose => ?_⟩
    · rw [status_eq_ok_iff, accepted_iff hproper]
    · have hdatetime : "DATETIME".toList <+: segment :=
        List.IsPrefix.trans (by decide) hopen
      rcases hproper hdatetime with rfl | ⟨fmt, rfl⟩
      · exact absurd hopen (by decide)
      · exact absurd (List.mem_append_right _ (List.mem_singleton_self _)) hclose

/-! ### Patterns -/

def Known (id : Text) : Prop := id ∈ formatItems.map Prod.fst

instance (id : Text) : Decidable (Known id) := inferInstanceAs (Decidable (id ∈ _))

theorem known_char : Known "CHAR".toList := by decide

theorem known_datetime : Known "DATETIME".toList := by decide

/-- `hasError()` tells whether a token was refused or names no item. -/
def FlagsErrors (pattern : Text) : Prop :=
  (new pattern).hasError = true ↔
    ∃ token ∈ initTokens pattern, token.status = .PARSE_ERROR ∨ ¬ Known token.id

/-- A segment that is taken and names no item. -/
def Unknown (segment : Text) : Prop :=
  ¬ "CHAR:".toList <+: segment ∧ ¬ "DATETIME".toList <+: segment ∧ ¬ Known segment

instance (segment : Text) : Decidable (Unknown segment) :=
  inferInstanceAs (Decidable (_ ∧ _ ∧ _))

theorem find_eq_none_iff {id : Text} :
    (formatItems.find? fun entry => entry.1 = id) = none ↔ ¬ Known id := by
  rw [List.find?_eq_none, Known, List.mem_map, not_exists]
  refine forall_congr' fun entry => ?_
  rw [decide_eq_true_eq, not_and]

theorem hasError_addItem (f : LogFormatter) (token : PatArgs) :
    (f.addItem token).hasError = true ↔
      f.hasError = true ∨ token.status = .PARSE_OK ∧ ¬ Known token.id := by
  rw [← find_eq_none_iff, addItem]
  by_cases hok : token.status = .PARSE_OK
  case neg => simp [hok]
  case pos =>
    rw [if_neg (not_not.mpr hok)]
    cases formatItems.find? fun entry => entry.1 = token.id with
    | none => simp [hok]
    | some entry => simp

theorem hasError_foldl (f : LogFormatter) (tokens : List PatArgs) :
    (tokens.foldl addItem f).hasError = true ↔
      f.hasError = true ∨ ∃ token ∈ tokens, token.status = .PARSE_OK ∧ ¬ Known token.id := by
  induction tokens generalizing f with
  | nil => simp
  | cons token tokens ih =>
      rw [List.foldl_cons, ih, hasError_addItem, List.exists_mem_cons_iff, or_assoc]

theorem unknown_iff : (parsePatToken segment).status = .PARSE_OK ∧
    ¬ Known (parsePatToken segment).id ↔ Unknown segment := by
  rcases segment_cases segment with ⟨str, rfl⟩ | ⟨rest, rfl⟩ | ⟨hchar, hdatetime⟩
  · refine iff_of_false ?_ fun h => h.1 (List.prefix_append _ _)
    rintro ⟨-, hnot⟩
    rw [parsePatToken_char] at hnot
    split at hnot
    · exact hnot known_char
    · exact hnot known_char
  · obtain ⟨arg, hparse⟩ := parsePatToken_datetime rest
    rw [hparse]
    exact iff_of_false (fun h => h.2 known_datetime) fun h => h.2.1 (List.prefix_append _ _)
  · rw [parsePatToken_other hchar hdatetime]
    exact ⟨fun h => ⟨hchar, hdatetime, h.2⟩, fun h => ⟨rfl, h.2.2⟩⟩

theorem exists_unknown_iff {pattern : Text} :
    (∃ token ∈ initTokens pattern, token.status = .PARSE_OK ∧ ¬ Known token.id) ↔
      ∃ segment ∈ segments pattern, Unknown segment := by
  rw [initTokens_eq, tokens]
  constructor
  · rintro ⟨token, htoken, hok, hnot⟩
    rcases List.mem_append.mp htoken with hmem | hmem
    · obtain ⟨segment, hsegment, rfl⟩ := List.mem_map.mp hmem
      exact ⟨segment, hsegment, unknown_iff.mp ⟨hok, hnot⟩⟩
    · split at hmem
      · rw [List.mem_singleton.mp hmem] at hok
        cases hok
      · cases hmem
  · rintro ⟨segment, hsegment, hunknown⟩
    exact ⟨_, List.mem_append_left _ (List.mem_map_of_mem hsegment), unknown_iff.mpr hunknown⟩

theorem exists_error_iff {pattern : Text} :
    (∃ token ∈ initTokens pattern, token.status = .PARSE_ERROR) ↔
      "CHAR:".toList ∈ segments pattern ∨ EndsOpen pattern := by
  rw [initTokens_eq, tokens]
  constructor
  · rintro ⟨token, htoken, herror⟩
    rcases List.mem_append.mp htoken with hmem | hmem
    · obtain ⟨segment, hsegment, rfl⟩ := List.mem_map.mp hmem
      exact .inl (status_eq_error_iff.mp herror ▸ hsegment)
    · split at hmem
      case isTrue hopen => exact .inr hopen
      case isFalse => cases hmem
  · rintro (hmem | hopen)
    · exact ⟨_, List.mem_append_left _ (List.mem_map_of_mem hmem), status_eq_error_iff.mpr rfl⟩
    · refine ⟨⟨[], [], .PARSE_ERROR⟩, List.mem_append_right _ ?_, rfl⟩
      rw [if_pos hopen]
      exact List.mem_singleton_self _

theorem flagsErrors_iff (pattern : Text) : FlagsErrors pattern ↔
    (∃ segment ∈ segments pattern, Unknown segment) ∨
      "CHAR:".toList ∉ segments pattern ∧ ¬ EndsOpen pattern := by
  have hflag : (new pattern).hasError = true ↔
      ∃ token ∈ initTokens pattern, token.status = .PARSE_OK ∧ ¬ Known token.id := by
    rw [new, init, hasError_foldl]
    simp
  rw [FlagsErrors, hflag, ← not_or, ← exists_error_iff, ← exists_unknown_iff]
  constructor
  · intro h
    by_cases herror : ∃ token ∈ initTokens pattern, token.status = .PARSE_ERROR
    case neg => exact .inr herror
    case pos =>
      obtain ⟨token, htoken, hstatus⟩ := herror
      exact .inl (h.mpr ⟨token, htoken, .inl hstatus⟩)
  · intro h
    constructor
    · rintro ⟨token, htoken, -, hnot⟩
      exact ⟨token, htoken, .inr hnot⟩
    · rintro ⟨token, htoken, hbad⟩
      rcases h with hunknown | hnone
      · exact hunknown
      · have hnot : ¬ token.status = .PARSE_ERROR := fun herror =>
          hnone ⟨token, htoken, herror⟩
        have hok : token.status = .PARSE_OK := by
          cases hstatus : token.status with
          | PARSE_OK => rfl
          | PARSE_ERROR => exact absurd hstatus hnot
        exact ⟨token, htoken, hok, hbad.resolve_left hnot⟩

/-- A segment is taken as it should be unless something else than an argument in braces follows
its `DATETIME`; and the flag is right where a segment that is taken names no item, and where
none is refused. -/
theorem pattern_parser_exact (segment pattern : Text) :
    (ParsesExactly segment ↔ Proper segment) ∧
      (FlagsErrors pattern ↔ (∃ segment ∈ segments pattern, Unknown segment) ∨
        "CHAR:".toList ∉ segments pattern ∧ ¬ EndsOpen pattern) :=
  ⟨parsesExactly_iff, flagsErrors_iff pattern⟩

/-- A format whose brace is not closed is taken, and the refused `CHAR:` is not told of. -/
theorem not_pattern_parser_exact :
    ¬ ParsesExactly "DATETIME\x7b%Y".toList ∧ ¬ FlagsErrors "$MESSAGE$CHAR:".toList := by
  constructor
  · intro h
    exact absurd (h.unclosed (by decide) (by decide)) (by decide)
  · rw [flagsErrors_iff]
    decide

end LpNet.LogFormatter
