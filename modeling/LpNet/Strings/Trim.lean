import LpNet.Strings.FindCase
import LpNet.Strings.Split
import Mathlib.Data.List.DropRight

/-!
`string_api::trim_left`, `trim_right` and `trim`, with `tolower` and `toupper`.

`trim` looks for both ends in the whole text and cuts once, where the other two look again in
what the first has left. `trims_agree` says that this makes no difference: a text is blanks
around a text that neither starts nor ends with one in one way only (`trimmed_unique`), and
that is where all of them end.
-/

namespace LpNet.StringApi

def findFirstNotOf (s : Text) (c : Char) : Option ℕ := s.findIdx? fun x => x ≠ c

def findLastNotOf (s : Text) (c : Char) : Option ℕ :=
  (s.reverse.findIdx? fun x => x ≠ c).map fun k => s.length - 1 - k

/-- `trim_left(s)`, with what `s` is afterwards. -/
def trimLeft (s : Text) : Except Fault Text :=
  if s.isEmpty then .ok s
  else
    match findFirstNotOf s ' ' with
    | none => .ok []
    | some i => substrFrom s i

def trimRight (s : Text) : Except Fault Text :=
  if s.isEmpty then .ok s
  else
    match findLastNotOf s ' ' with
    | none => .ok []
    | some i => substrAt s 0 (i + 1)

def trim (s : Text) : Except Fault Text :=
  if s.isEmpty then .ok s
  else
    match findFirstNotOf s ' ' with
    | none => .ok []
    | some l =>
        let r := (findLastNotOf s ' ').getD npos
        if l ≤ r then substrAt s l (r - l + 1) else .ok s

def toupper (s : Text) : Text := s.map Char.toUpper

def Trimmed (t : Text) : Prop := t.head? ≠ some ' ' ∧ t.getLast? ≠ some ' '

/-- `t` with blanks on both sides. -/
def padded (l : ℕ) (t : Text) (r : ℕ) : Text := List.replicate l ' ' ++ t ++ List.replicate r ' '

variable {s t : Text} {c : Char} {l r : ℕ}

/-! ### Texts and their ends -/

theorem blanks_or (s : Text) : (∃ n, s = List.replicate n ' ') ∨
    ∃ l c rest, c ≠ ' ' ∧ s = List.replicate l ' ' ++ c :: rest := by
  induction s with
  | nil => exact .inl ⟨0, rfl⟩
  | cons c s ih =>
      by_cases hc : c = ' '
      · subst c
        obtain ⟨n, rfl⟩ | ⟨l, d, rest, hd, rfl⟩ := ih
        · exact .inl ⟨n + 1, rfl⟩
        · exact .inr ⟨l + 1, d, rest, hd, rfl⟩
      · exact .inr ⟨0, c, s, hc, rfl⟩

/-- A text is nothing but blanks, or blanks around a text that neither starts nor ends with one. -/
theorem padded_or (s : Text) : (∃ n, s = List.replicate n ' ') ∨
    ∃ l t r, t ≠ [] ∧ Trimmed t ∧ s = padded l t r := by
  obtain h | ⟨l, c, rest, hc, rfl⟩ := blanks_or s
  · exact .inl h
  · refine .inr ?_
    obtain ⟨n, hn⟩ | ⟨r, d, front, hd, hfront⟩ := blanks_or (c :: rest).reverse
    · have hmem : c ∈ List.replicate n ' ' := hn ▸ by simp
      exact absurd (List.eq_of_mem_replicate hmem) hc
    · have hback : c :: rest = (d :: front).reverse ++ List.replicate r ' ' := by
        rw [← List.reverse_reverse (c :: rest), hfront, List.reverse_append,
          List.reverse_replicate]
      refine ⟨l, (d :: front).reverse, r, by simp, ⟨?_, by simpa using hd⟩, ?_⟩
      · have hhead := congrArg List.head? hback
        rw [List.head?_append_of_ne_nil _ (by simp)] at hhead
        rw [← hhead]
        simpa using hc
      · rw [hback, padded, List.append_assoc]

theorem Trimmed.eq_cons (h : Trimmed t) (hne : t ≠ []) : ∃ c rest, c ≠ ' ' ∧ t = c :: rest := by
  cases t with
  | nil => exact absurd rfl hne
  | cons c rest => exact ⟨c, rest, by simpa using h.1, rfl⟩

theorem Trimmed.reverse (h : Trimmed t) : Trimmed t.reverse := by
  rw [Trimmed, List.head?_reverse, List.getLast?_reverse]
  exact ⟨h.2, h.1⟩

theorem reverse_padded (l : ℕ) (t : Text) (r : ℕ) :
    (padded l t r).reverse = padded r t.reverse l := by
  simp [padded]

theorem length_padded (l : ℕ) (t : Text) (r : ℕ) : (padded l t r).length = l + t.length + r := by
  simp [padded, Nat.add_assoc]

/-! ### The three functions on such texts -/

theorem findFirstNotOf_padded (h : Trimmed t) (hne : t ≠ []) :
    findFirstNotOf (padded l t r) ' ' = some l := by
  obtain ⟨c, rest, hc, rfl⟩ := h.eq_cons hne
  simp [findFirstNotOf, padded, List.findIdx?_append, List.findIdx?_cons, hc]

theorem findLastNotOf_padded (h : Trimmed t) (hne : t ≠ []) :
    findLastNotOf (padded l t r) ' ' = some (l + t.length - 1) := by
  have hfirst := findFirstNotOf_padded (l := r) (r := l) h.reverse (by simpa using hne)
  rw [findFirstNotOf] at hfirst
  rw [findLastNotOf, reverse_padded, hfirst, Option.map_some, length_padded]
  congr 1
  omega

theorem find_blanks (n : ℕ) : findFirstNotOf (List.replicate n ' ') ' ' = none ∧
    findLastNotOf (List.replicate n ' ') ' ' = none := by
  simp [findFirstNotOf, findLastNotOf]

theorem trimLeft_padded (h : Trimmed t) (hne : t ≠ []) :
    trimLeft (padded l t r) = .ok (padded 0 t r) := by
  have hempty : (padded l t r).isEmpty = false := by simp [padded, hne]
  rw [trimLeft, hempty, findFirstNotOf_padded h hne]
  simp only [Bool.false_eq_true, if_false]
  rw [substrFrom, if_pos (by rw [length_padded]; omega)]
  simp [padded]

theorem trimRight_padded (h : Trimmed t) (hne : t ≠ []) :
    trimRight (padded l t r) = .ok (padded l t 0) := by
  have hempty : (padded l t r).isEmpty = false := by simp [padded, hne]
  have hpos := List.length_pos_of_ne_nil hne
  have hlast : l + t.length - 1 + 1 = (List.replicate l ' ' ++ t).length := by simp; omega
  rw [trimRight, hempty, findLastNotOf_padded h hne]
  simp only [Bool.false_eq_true, if_false]
  rw [substrAt, if_pos (Nat.zero_le _), substr, List.drop_zero, hlast, padded, List.take_left]
  simp [padded]

/-- Both ends are found in the whole text, and one cut takes what lies between them. -/
theorem trim_padded (h : Trimmed t) (hne : t ≠ []) : trim (padded l t r) = .ok t := by
  have hempty : (padded l t r).isEmpty = false := by simp [padded, hne]
  have hpos := List.length_pos_of_ne_nil hne
  have hlen : l + t.length - 1 - l + 1 = t.length := by omega
  rw [trim, hempty, findFirstNotOf_padded h hne, findLastNotOf_padded h hne]
  simp only [Bool.false_eq_true, if_false, Option.getD_some]
  rw [if_pos (by omega), hlen, substrAt, if_pos (by rw [length_padded]; omega), substr, padded,
    List.append_assoc, List.drop_left' (by simp), List.take_left]

theorem trim_blanks (n : ℕ) : trimLeft (List.replicate n ' ') = .ok [] ∧
    trimRight (List.replicate n ' ') = .ok [] ∧ trim (List.replicate n ' ') = .ok [] := by
  cases n with
  | zero => exact ⟨rfl, rfl, rfl⟩
  | succ n =>
      obtain ⟨hfirst, hlast⟩ := find_blanks (n + 1)
      have hempty : (List.replicate (n + 1) ' ').isEmpty = false := by simp
      refine ⟨?_, ?_, ?_⟩
      · rw [trimLeft, hempty, hfirst]
        rfl
      · rw [trimRight, hempty, hlast]
        rfl
      · rw [trim, hempty, hfirst]
        rfl

theorem trimmed_nil : Trimmed [] := ⟨by simp, by simp⟩

theorem padded_nil (l r : ℕ) : padded l [] r = List.replicate (l + r) ' ' := by
  simp [padded, List.replicate_append_replicate]

/-- What `trim` leaves is the one text without a blank at its ends that `s` pads. -/
theorem trim_eq_ok_iff : trim s = .ok t ↔ Trimmed t ∧ ∃ l r, s = padded l t r := by
  constructor
  · intro h
    obtain ⟨n, rfl⟩ | ⟨l, t', r, hne, htrimmed, rfl⟩ := padded_or s
    · rw [(trim_blanks n).2.2] at h
      cases h
      exact ⟨trimmed_nil, n, 0, by simp [padded]⟩
    · rw [trim_padded htrimmed hne] at h
      cases h
      exact ⟨htrimmed, l, r, rfl⟩
  · rintro ⟨htrimmed, l, r, rfl⟩
    by_cases hne : t = []
    · subst t
      rw [padded_nil]
      exact (trim_blanks _).2.2
    · exact trim_padded htrimmed hne

/-! ### The case of letters -/

/-- A character between two bounds that becomes a blank when it is moved. -/
theorem moved_blank {lo hi d : UInt32} (hrange : lo ≤ c.val ∧ c.val ≤ hi)
    (h : c.val + d = ' '.val) :
    ∃ n, lo.toNat ≤ n ∧ n ≤ hi.toNat ∧ (n + d.toNat) % 4294967296 = 32 := by
  have hlow := UInt32.le_iff_toNat_le.mp hrange.1
  have hhigh := UInt32.le_iff_toNat_le.mp hrange.2
  refine ⟨c.val.toNat, hlow, hhigh, ?_⟩
  exact (UInt32.toNat_add c.val d).symm.trans (congrArg UInt32.toNat h)

theorem toLower_eq_blank : c.toLower = ' ' ↔ c = ' ' := by
  constructor
  · intro h
    by_cases hrange : 'A'.val ≤ c.val ∧ c.val ≤ 'Z'.val
    case pos =>
      obtain ⟨_, hmoved⟩ : ∃ h, c.toLower = ⟨c.val + ('a'.val - 'A'.val), h⟩ := ⟨_, dif_pos hrange⟩
      obtain ⟨n, hlow, hhigh, hval⟩ := moved_blank hrange (congrArg Char.val (hmoved.symm.trans h))
      simp at hlow hhigh hval
      omega
    case neg => exact (dif_neg hrange).symm.trans h
  · rintro rfl
    rfl

theorem toUpper_eq_blank : c.toUpper = ' ' ↔ c = ' ' := by
  constructor
  · intro h
    by_cases hrange : 'a'.val ≤ c.val ∧ c.val ≤ 'z'.val
    case pos =>
      obtain ⟨_, hmoved⟩ : ∃ h, c.toUpper = ⟨c.val + ('A'.val - 'a'.val), h⟩ := ⟨_, dif_pos hrange⟩
      obtain ⟨n, hlow, hhigh, hval⟩ := moved_blank hrange (congrArg Char.val (hmoved.symm.trans h))
      simp at hlow hhigh hval
      omega
    case neg => exact (dif_neg hrange).symm.trans h
  · rintro rfl
    rfl

/-- Letters that become other letters change nothing in which characters are blanks. -/
theorem trim_map {f : Char → Char} (hf : ∀ c, f c = ' ' ↔ c = ' ') (h : trim s = .ok t) :
    trim (s.map f) = .ok (t.map f) := by
  obtain ⟨⟨hhead, hlast⟩, l, r, rfl⟩ := trim_eq_ok_iff.mp h
  have hblank : f ' ' = ' ' := (hf ' ').mpr rfl
  refine trim_eq_ok_iff.mpr ⟨⟨?_, ?_⟩, l, r, by simp [padded, hblank]⟩
  · simpa [List.head?_map, hf] using hhead
  · simpa [List.getLast?_map, hf] using hlast

/-- The three functions never throw, on any text. `trim` leaves the one text without a blank at
its ends that `s` pads, which is what the other two leave in either order, a second time changes
nothing, and it does not matter whether the letters become small or capital before or after. -/
theorem trims_agree (s : Text) :
    (∀ t, trim s = .ok t ↔ Trimmed t ∧ ∃ l r, s = padded l t r) ∧
    ∃ t, trim s = .ok t ∧ trimLeft s >>= trimRight = .ok t ∧ trimRight s >>= trimLeft = .ok t ∧
      trim t = .ok t ∧ trim (tolower s) = .ok (tolower t) ∧
      trim (toupper s) = .ok (toupper t) := by
  refine ⟨fun t => trim_eq_ok_iff, ?_⟩
  obtain ⟨t, htrim, hleft, hright⟩ : ∃ t, trim s = .ok t ∧
      trimLeft s >>= trimRight = .ok t ∧ trimRight s >>= trimLeft = .ok t := by
    obtain ⟨n, rfl⟩ | ⟨l, t, r, hne, htrimmed, rfl⟩ := padded_or s
    · obtain ⟨hleft, hright, htrim⟩ := trim_blanks n
      exact ⟨[], htrim, by rw [hleft]; rfl, by rw [hright]; rfl⟩
    · have hbare : padded 0 t 0 = t := by simp [padded]
      have hright := trimRight_padded (l := 0) (r := r) htrimmed hne
      have hleft := trimLeft_padded (l := l) (r := 0) htrimmed hne
      rw [hbare] at hright hleft
      exact ⟨t, trim_padded htrimmed hne, by rw [trimLeft_padded htrimmed hne]; exact hright,
        by rw [trimRight_padded htrimmed hne]; exact hleft⟩
  have htrimmed := (trim_eq_ok_iff.mp htrim).1
  exact ⟨t, htrim, hleft, hright, trim_eq_ok_iff.mpr ⟨htrimmed, 0, 0, by simp [padded]⟩,
    trim_map (fun _ => toLower_eq_blank) htrim, trim_map (fun _ => toUpper_eq_blank) htrim⟩

end LpNet.StringApi
