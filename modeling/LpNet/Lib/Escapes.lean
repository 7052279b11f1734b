import Mathlib.Data.List.Basic

/-!
Escape sequences in a text.

`Inserted` is a text into which sequences are put. What a `Terminal` does with it is a parameter: of
the sequences it is only known that they begin and end where no other one is being read, and that
they change nothing but what `Alike` does not see, such as colors. `Inserted.alike` says that
the text is then shown as it is without them.
-/

namespace LpNet.Escapes

variable {α σ : Type} {IsSequence : List α → Prop}

/-- The second text is the first one with sequences put in. -/
inductive Inserted (IsSequence : List α → Prop) : List α → List α → Prop
  | nil : Inserted IsSequence [] []
  | cons (c : α) {plain text : List α} (h : Inserted IsSequence plain text) :
      Inserted IsSequence (c :: plain) (c :: text)
  | insert {sequence plain text : List α} (hsequence : IsSequence sequence)
      (h : Inserted IsSequence plain text) : Inserted IsSequence plain (sequence ++ text)

namespace Inserted

variable {plain plain' text text' : List α}

theorem refl (text : List α) : Inserted IsSequence text text := by
  induction text with
  | nil => exact .nil
  | cons c text ih => exact .cons c ih

theorem append (h : Inserted IsSequence plain text) (h' : Inserted IsSequence plain' text') :
    Inserted IsSequence (plain ++ plain') (text ++ text') := by
  induction h with
  | nil => exact h'
  | cons c _ ih => exact .cons c ih
  | insert hsequence _ ih =>
      rw [List.append_assoc]
      exact .insert hsequence ih

theorem between {sequence sequence' : List α} (h : IsSequence sequence) (h' : IsSequence sequence')
    (text : List α) : Inserted IsSequence text (sequence ++ text ++ sequence') := by
  have hend : Inserted IsSequence [] (sequence' ++ []) := .insert h' .nil
  have htext := (@refl α IsSequence text).append hend
  rw [List.append_nil, List.append_nil] at htext
  rw [List.append_assoc]
  exact .insert h htext

end Inserted

/-- A machine that reads characters and sequences. -/
structure Terminal (σ : Type) (IsSequence : List α → Prop) where
  feed : σ → α → σ
  /-- No sequence is being read. -/
  Ground : σ → Prop
  /-- The character begins no sequence. -/
  Inert : α → Prop
  /-- The two differ at most in what the sequences select. -/
  Alike : σ → σ → Prop
  ground_feed : ∀ {s c}, Ground s → Inert c → Ground (feed s c)
  alike_feed : ∀ {s t c}, Ground s → Ground t → Inert c → Alike s t → Alike (feed s c) (feed t c)
  ground_sequence : ∀ {s sequence}, Ground s → IsSequence sequence →
    Ground (sequence.foldl feed s)
  alike_sequence : ∀ {s t sequence}, Ground s → IsSequence sequence → Alike s t →
    Alike (sequence.foldl feed s) t

/-- With its sequences a text is shown as it is without them, if nothing else in it is one. -/
theorem Inserted.alike {plain text : List α} (h : Inserted IsSequence plain text)
    (T : Terminal σ IsSequence) (hplain : ∀ c ∈ plain, T.Inert c) {s t : σ} (hs : T.Ground s)
    (ht : T.Ground t) (hst : T.Alike s t) :
    T.Alike (text.foldl T.feed s) (plain.foldl T.feed t) := by
  induction h generalizing s t with
  | nil => exact hst
  | cons c _ ih =>
      rw [List.forall_mem_cons] at hplain
      obtain ⟨hc, hplain⟩ := hplain
      exact ih hplain (T.ground_feed hs hc) (T.ground_feed ht hc) (T.alike_feed hs ht hc hst)
  | insert hsequence _ ih =>
      rw [List.foldl_append]
      exact ih hplain (T.ground_sequence hs hsequence) ht (T.alike_sequence hs hsequence hst)

end LpNet.Escapes
