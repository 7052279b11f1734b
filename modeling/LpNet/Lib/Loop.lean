import LpNet.Lib.Transition
import Mathlib.Logic.Relation

/-!
Loops that need not end.

The body of a loop takes a state to the next one, or leaves the loop with a result, or
faults. `loop` runs it for a number of rounds and faults with `out` when they are used up.
A loop returns a result when all numbers of rounds from some on give it (`Returns`), which
does not change from one state of the loop to the next (`returns_next`); a loop that never
leaves returns nothing (`not_returns`).
-/

namespace LpNet.Loop

open Transition

universe u v

variable {σ β : Type u} {ε : Type v}

/-- Run the body until it leaves the loop, for so many rounds. -/
def loop (out : ε) (body : σ → Except ε (σ ⊕ β)) : ℕ → σ → Except ε β
  | 0, _ => .error out
  | rounds + 1, s => do
      match ← body s with
      | .inl next => loop out body rounds next
      | .inr result => .ok result

/-- The states from which the loop goes on are its rounds. -/
def Next (body : σ → Except ε (σ ⊕ β)) (s next : σ) : Prop := body s = .ok (.inl next)

/-- The states of the loop that is entered in `s`. -/
def Reached (body : σ → Except ε (σ ⊕ β)) : σ → σ → Prop := Relation.ReflTransGen (Next body)

/-- With enough rounds the loop gives this result. -/
def Returns (out : ε) (body : σ → Except ε (σ ⊕ β)) (s : σ) (result : β) : Prop :=
  ∃ enough, ∀ rounds, enough ≤ rounds → loop out body rounds s = .ok result

variable {out : ε} {body : σ → Except ε (σ ⊕ β)} {s next : σ} {result : β}

theorem loop_next (h : Next body s next) (rounds : ℕ) :
    loop out body (rounds + 1) s = loop out body rounds next := by
  rw [loop, h, ok_bind]

theorem loop_done (h : body s = .ok (.inr result)) (rounds : ℕ) :
    loop out body (rounds + 1) s = .ok result := by
  rw [loop, h, ok_bind]

theorem returns_done (h : body s = .ok (.inr result)) : Returns out body s result := by
  refine ⟨1, fun rounds hle => ?_⟩
  obtain ⟨rounds, rfl⟩ : ∃ r, rounds = r + 1 := ⟨rounds - 1, by omega⟩
  exact loop_done h rounds

theorem returns_next (h : Next body s next) :
    Returns out body s result ↔ Returns out body next result := by
  constructor
  · rintro ⟨enough, hall⟩
    exact ⟨enough, fun rounds hle => loop_next h rounds ▸ hall (rounds + 1) (by omega)⟩
  · rintro ⟨enough, hall⟩
    refine ⟨enough + 1, fun rounds hle => ?_⟩
    obtain ⟨rounds, rfl⟩ : ∃ r, rounds = r + 1 := ⟨rounds - 1, by omega⟩
    rw [loop_next h]
    exact hall rounds (by omega)

theorem loop_eq_out {I : σ → Prop} (hstep : ∀ s, I s → ∃ next, Next body s next ∧ I next)
    (hs : I s) (rounds : ℕ) : loop out body rounds s = .error out := by
  induction rounds generalizing s with
  | zero => rfl
  | succ rounds ih =>
      obtain ⟨next, hnext, hI⟩ := hstep s hs
      rw [loop_next hnext]
      exact ih hI

theorem not_returns {I : σ → Prop} (hstep : ∀ s, I s → ∃ next, Next body s next ∧ I next)
    (hs : I s) (result : β) : ¬ Returns out body s result := by
  rintro ⟨enough, hall⟩
  have hok := hall enough (Nat.le_refl enough)
  rw [loop_eq_out hstep hs] at hok
  cases hok

end LpNet.Loop
