import Mathlib.Data.List.Infix
import Mathlib.Data.Nat.Find
import Mathlib.Tactic.Common

/-!
First occurrences of a word in a text, and the search that goes from left to
right and gives up where the text ends inside an attempt.

Giving up is right because what is left of the text is then shorter than the
word (`attempt_ended`). `search` is therefore the first occurrence
(`search_eq_some_iff`), and `locate` finds the empty word as well. `Pieces` cuts
a text behind the first occurrence again and again, and `Cut` takes the words out.
-/

namespace LpNet.Search

variable {α : Type*} {word text : List α}

/-! ### Occurrences -/

/-- The word stands in the text at offset `j`. -/
def OccursAt (word text : List α) (j : ℕ) : Prop := j ≤ text.length ∧ word <+: text.drop j

/-- The word stands in the text at offset `j` and at none before. -/
structure First (word text : List α) (j : ℕ) : Prop where
  here : OccursAt word text j
  least : ∀ k < j, ¬ OccursAt word text k

theorem occursAt_zero : OccursAt word text 0 ↔ word <+: text := by simp [OccursAt]

theorem occursAt_succ {x : α} {j : ℕ} :
    OccursAt word (x :: text) (j + 1) ↔ OccursAt word text j := by simp [OccursAt]

theorem OccursAt.length_le {j : ℕ} (h : OccursAt word text j) :
    j + word.length ≤ text.length := by
  have hle := h.2.length_le
  have hj := h.1
  rw [List.length_drop] at hle
  omega

theorem exists_occursAt : (∃ j, OccursAt word text j) ↔ word <:+: text := by
  constructor
  · rintro ⟨j, -, hpre⟩
    exact hpre.isInfix.trans (List.drop_suffix j text).isInfix
  · rintro ⟨before, after, rfl⟩
    exact ⟨before.length, by simp, after, by simp⟩

theorem First.occurs {j : ℕ} (h : First word text j) : word <:+: text :=
  exists_occursAt.mp ⟨j, h.here⟩

theorem exists_first (h : word <:+: text) : ∃ j, First word text j := by
  classical
  have hex := exists_occursAt.mpr h
  exact ⟨Nat.find hex, Nat.find_spec hex, fun k hk => Nat.find_min hex hk⟩

theorem First.unique {i j : ℕ} (hi : First word text i) (hj : First word text j) : i = j := by
  have hij : ¬ i < j := fun hlt => hj.least i hlt hi.here
  have hji : ¬ j < i := fun hlt => hi.least j hlt hj.here
  omega

theorem first_zero : First word text 0 ↔ word <+: text :=
  ⟨fun h => occursAt_zero.mp h.here,
    fun h => ⟨occursAt_zero.mpr h, fun k hk => absurd hk (Nat.not_lt_zero k)⟩⟩

/-- Behind a start where the word does not stand, its first occurrence is that of the rest. -/
theorem first_succ {x : α} {j : ℕ} (h : ¬ word <+: x :: text) :
    First word (x :: text) (j + 1) ↔ First word text j := by
  constructor
  · rintro ⟨hhere, hleast⟩
    refine ⟨occursAt_succ.mp hhere, fun k hk hocc => ?_⟩
    exact hleast (k + 1) (by omega) (occursAt_succ.mpr hocc)
  · rintro ⟨hhere, hleast⟩
    refine ⟨occursAt_succ.mpr hhere, fun k hk hocc => ?_⟩
    cases k with
    | zero => exact h (occursAt_zero.mp hocc)
    | succ k => exact hleast k (by omega) (occursAt_succ.mp hocc)

theorem OccursAt.of_prefix {short : List α} {j : ℕ} (hpre : short <+: word)
    (h : OccursAt word text j) : OccursAt short text j := ⟨h.1, hpre.trans h.2⟩

theorem not_infix_of_length_lt (h : text.length < word.length) : ¬ word <:+: text := by
  intro hocc
  have := hocc.length_le
  omega

/-! ### The search -/

/-- How an attempt to match a word at the start of a text ends. -/
inductive Attempt
  | matched
  /-- The text ends inside the word. -/
  | ended
  | differed
  deriving DecidableEq, Repr

variable [DecidableEq α]

def attempt : List α → List α → Attempt
  | [], _ => .matched
  | _ :: _, [] => .ended
  | a :: word, x :: text => if x = a then attempt word text else .differed

theorem attempt_matched : attempt word text = .matched ↔ word <+: text := by
  induction word generalizing text with
  | nil => simp [attempt]
  | cons a word ih =>
      cases text with
      | nil => simp [attempt]
      | cons x text =>
          rw [attempt, List.cons_prefix_cons]
          split
          case isTrue heq => simp [ih, heq]
          case isFalse hne => simp [Ne.symm hne]

theorem attempt_ended (h : attempt word text = .ended) : text.length < word.length := by
  induction word generalizing text with
  | nil => simp [attempt] at h
  | cons a word ih =>
      cases text with
      | nil => simp
      | cons x text =>
          rw [attempt] at h
          split at h
          · simpa using ih h
          · cases h

/-- Try the word at each offset in turn, until it matches or the text ends in an attempt. -/
def search (word : List α) : List α → Option ℕ
  | [] => none
  | x :: text =>
      match attempt word (x :: text) with
      | .matched => some 0
      | .ended => none
      | .differed => (search word text).map (· + 1)

/-- The search finds the first occurrence; giving up early hides none. -/
theorem search_eq_some_iff {j : ℕ} :
    search word text = some j ↔ j < text.length ∧ First word text j := by
  induction text generalizing j with
  | nil => simp [search]
  | cons x text ih =>
      rw [search]
      cases hatt : attempt word (x :: text) with
      | matched =>
          have hfirst : First word (x :: text) 0 := first_zero.mpr (attempt_matched.mp hatt)
          simp only [Option.some.injEq]
          constructor
          · rintro rfl
            exact ⟨by simp, hfirst⟩
          · rintro ⟨-, hj⟩
            exact hfirst.unique hj
      | ended =>
          have hnone := not_infix_of_length_lt (attempt_ended hatt)
          simp only [reduceCtorEq, false_iff]
          rintro ⟨-, hj⟩
          exact hnone hj.occurs
      | differed =>
          have hnot : ¬ word <+: x :: text := by
            rw [← attempt_matched, hatt]
            exact nofun
          cases j with
          | zero => simp [first_zero, hnot]
          | succ j => simp [ih, first_succ hnot]

theorem search_eq_none_iff : search word text = none ↔ text = [] ∨ ¬ word <:+: text := by
  constructor
  · intro hnone
    by_contra hboth
    rw [not_or, not_not] at hboth
    obtain ⟨hne, hocc⟩ := hboth
    obtain ⟨j, hj⟩ := exists_first hocc
    have hlen := hj.here.length_le
    have hpos := List.length_pos_of_ne_nil hne
    have hlt : j < text.length := by
      by_contra hge
      -- only the empty word stands at the end of a text, and it stands at its start too
      have hword : word = [] := List.eq_nil_of_length_eq_zero (by omega)
      have hzero : First word text 0 := first_zero.mpr (by simp [hword])
      have := hj.unique hzero
      omega
    have hsome := search_eq_some_iff.mpr ⟨hlt, hj⟩
    rw [hnone] at hsome
    cases hsome
  · intro hcase
    cases hres : search word text with
    | none => rfl
    | some j =>
        obtain ⟨hlt, hj⟩ := search_eq_some_iff.mp hres
        rcases hcase with rfl | hocc
        · exact absurd hlt (Nat.not_lt_zero j)
        · exact absurd hj.occurs hocc

def locate (word text : List α) : Option ℕ := if word = [] then some 0 else search word text

theorem locate_eq_some_iff {j : ℕ} : locate word text = some j ↔ First word text j := by
  rw [locate]
  split
  case isTrue hnil =>
    have hzero : First word text 0 := first_zero.mpr (by simp [hnil])
    rw [Option.some.injEq]
    exact ⟨fun h => h ▸ hzero, fun h => hzero.unique h⟩
  case isFalse hne =>
    rw [search_eq_some_iff]
    refine ⟨And.right, fun h => ⟨?_, h⟩⟩
    have hlen := h.here.length_le
    have hpos := List.length_pos_of_ne_nil hne
    omega

theorem locate_eq_none_iff : locate word text = none ↔ ¬ word <:+: text := by
  constructor
  · intro hnone hocc
    obtain ⟨j, hj⟩ := exists_first hocc
    rw [locate_eq_some_iff.mpr hj] at hnone
    cases hnone
  · intro hocc
    cases hres : locate word text with
    | none => rfl
    | some j => exact absurd (locate_eq_some_iff.mp hres).occurs hocc

/-! ### Cutting at the occurrences -/

omit [DecidableEq α] in
/-- Cut the text behind the first occurrence of the word, and what is left in the same way:
the lengths of the pieces, and the text in which the word does not occur any more. -/
inductive Pieces (word : List α) : List α → List ℕ → List α → Prop
  | done {text : List α} (h : ¬ word <:+: text) : Pieces word text [] text
  | cut {text rest : List α} {j : ℕ} {lengths : List ℕ} (h : First word text j)
      (tail : Pieces word (text.drop (j + word.length)) lengths rest) :
      Pieces word text ((j + word.length) :: lengths) rest

omit [DecidableEq α] in
theorem Pieces.unique {lengths lengths' : List ℕ} {rest rest' : List α}
    (h : Pieces word text lengths rest) (h' : Pieces word text lengths' rest') :
    lengths = lengths' ∧ rest = rest' := by
  induction h generalizing lengths' with
  | done hnot =>
      cases h' with
      | done => exact ⟨rfl, rfl⟩
      | cut hfirst => exact absurd hfirst.occurs hnot
  | cut hfirst _ ih =>
      cases h' with
      | done hnot => exact absurd hfirst.occurs hnot
      | cut hfirst' htail =>
          obtain rfl := hfirst.unique hfirst'
          obtain ⟨rfl, rfl⟩ := ih htail
          exact ⟨rfl, rfl⟩

omit [DecidableEq α] in
/-- What stands before, between and behind the occurrences of the word. -/
inductive Cut (word : List α) : List α → List (List α) → Prop
  | last {text : List α} (h : ¬ word <:+: text) : Cut word text [text]
  | cut {text : List α} {pieces : List (List α)} {j : ℕ} (h : First word text j)
      (tail : Cut word (text.drop (j + word.length)) pieces) :
      Cut word text (text.take j :: pieces)

namespace Cut

omit [DecidableEq α]

variable {pieces : List (List α)}

theorem ne_nil (h : Cut word text pieces) : pieces ≠ [] := by
  cases h with
  | last => exact List.cons_ne_nil _ _
  | cut => exact List.cons_ne_nil _ _

theorem exists_of_ne_nil (hword : word ≠ []) (text : List α) : ∃ pieces, Cut word text pieces := by
  induction hn : text.length using Nat.strong_induction_on generalizing text with
  | _ n ih =>
      by_cases hocc : word <:+: text
      case neg => exact ⟨_, .last hocc⟩
      case pos =>
        obtain ⟨j, hj⟩ := exists_first hocc
        have hlen := hj.here.length_le
        have hpos := List.length_pos_of_ne_nil hword
        obtain ⟨pieces, htail⟩ := ih (text.drop (j + word.length)).length
          (by rw [List.length_drop]; omega) _ rfl
        exact ⟨_, .cut hj htail⟩

theorem intercalate_eq (h : Cut word text pieces) : word.intercalate pieces = text := by
  induction h with
  | last => exact List.intercalate_singleton
  | @cut text _ j hj tail ih =>
      obtain ⟨after, hafter⟩ := hj.here.2
      rw [List.intercalate_cons_of_ne_nil tail.ne_nil, ih, ← List.drop_drop, ← hafter,
        List.drop_left, List.append_assoc, hafter, List.take_append_drop]

theorem not_infix (h : Cut word text pieces) (hword : word ≠ []) :
    ∀ piece ∈ pieces, ¬ word <:+: piece := by
  induction h with
  | last hnot => simpa using hnot
  | @cut text _ j hj _ ih =>
      rw [List.forall_mem_cons]
      refine ⟨fun hocc => ?_, ih⟩
      -- an occurrence before the first one
      obtain ⟨k, hk⟩ := exists_occursAt.mpr hocc
      have hlen := hk.length_le
      have hpos := List.length_pos_of_ne_nil hword
      rw [List.length_take] at hlen
      refine hj.least k (by omega) ⟨by omega, hk.2.trans ?_⟩
      exact (List.take_prefix j text).drop k

theorem exists_pieces (h : Cut word text pieces) : ∃ lengths rest,
    Pieces word text lengths rest ∧ pieces.length = lengths.length + 1 := by
  induction h with
  | last hnot => exact ⟨[], _, .done hnot, rfl⟩
  | cut hj _ ih =>
      obtain ⟨lengths, rest, hpieces, hlen⟩ := ih
      exact ⟨_, rest, .cut hj hpieces, by simp [hlen]⟩

theorem length_le (h : Cut word text pieces) (hword : word ≠ []) :
    pieces.length ≤ text.length + 1 := by
  induction h with
  | last => simp
  | cut hj _ ih =>
      have hlen := hj.here.length_le
      have hpos := List.length_pos_of_ne_nil hword
      rw [List.length_drop] at ih
      rw [List.length_cons]
      omega

end Cut

end LpNet.Search
