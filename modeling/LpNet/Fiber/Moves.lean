import LpNet.Fiber.Scheduler
import LpNet.Lib.LockOrder
import Mathlib.Data.Fintype.Fin

/-!
Fibers that several threads hand from one scheduler to another.

`move2otherScheduler` submits the fiber to the other scheduler while it holds the mutex of its
own, so two mutexes are taken one inside the other, and which one comes first is up to
the caller. `moves_deadlock_free_iff` says for which directions of moves that is safe. The
mutexes are those of the threads; the flags `locked` of the schedulers stay down. `resume`
and `yield`, with which a thread locks a mutex twice, are not called.
-/

namespace LpNet

open LockOrder Relation

/-- A part of a call. A fiber is known by its index. -/
inductive FiberInstr (S : Type)
  | submit (s : S) (pFiber : Option ℕ)
  /-- `fibers_[pFiber->id()] = pFiber`. -/
  | store (s : S) (f : ℕ)
  | remove (s : S) (fid : UInt32)
  /-- `fibers_.erase(it)`, if there is an entry. -/
  | erase (s : S) (fid : UInt32)
  | move2otherScheduler (s : S) (fid : UInt32) (pFS : Option S)
  /-- What a move does while it holds the mutex. -/
  | moveFound (s : S) (fid : UInt32) (t : S)
  | currFiberId (s : S)

abbrev FiberThreads (S T : Type) := Threads (FiberWorld S) S (FiberInstr S) T

namespace FiberInstr

variable {S : Type} [DecidableEq S]

def exec (_ : Unit) (instr : FiberInstr S) (w : FiberWorld S) :
    List (LockInstr S (FiberInstr S)) × FiberWorld S :=
  match instr with
  | .submit s none => (locked s (.store s (w.fiberNew s).1), (w.fiberNew s).2)
  | .submit s (some f) => (locked s (.store s f), w)
  | .store s f =>
      match w.objects[f]? with
      | some fiber => ([], w.setEntry s fiber.fid (some f))
      | none => ([], w)
  | .remove s fid => (locked s (.erase s fid), w)
  | .erase s fid => ([], w.setEntry s fid none)
  | .move2otherScheduler s fid pFS =>
      match pFS with
      | none => ([], w)
      | some t =>
          if s = t then ([], w)
          else (locked s (.moveFound s fid t), w)
  | .moveFound s fid t =>
      match (w.schedulers s).fibers fid with
      | some f => ([.call (.submit t (some f)), .call (.erase s fid)], w)
      | none => ([], w)
  | .currFiberId s => ([.acquire s, .release s], w)

/-- The mutexes that a part of a call may lock. -/
def May : FiberInstr S → S → Prop
  | .submit s _, l | .remove s _, l | .currFiberId s, l => l = s
  | .store .., _ | .erase .., _ => False
  | .move2otherScheduler s _ pFS, l => l = s ∨ pFS = some l
  | .moveFound _ _ t, l => l = t

/-- A move goes in one of these directions, if it is not refused. -/
def Keeps (D : S → S → Prop) : FiberInstr S → Prop
  | .move2otherScheduler s _ (some t) | .moveFound s _ t => s = t ∨ D s t
  | _ => True

/-- The directions between two schedulers. -/
def Directed (D : S → S → Prop) (s t : S) : Prop := s ≠ t ∧ D s t

variable {D : S → S → Prop}

/-- The second mutex of a move is locked inside of the first one. -/
theorem disciplined (D : S → S → Prop) :
    Disciplined (C := Unit) (Directed D) May (fun i => Keeps D i) (fun _ : FiberWorld S => True)
      exec where
  keeps _ _ _ _ _ := trivial
  nested _ instr w hkeeps _ := by
    cases instr with
    | submit s pFiber =>
        cases pFiber <;> exact nested_locked trivial fun _ hmay => hmay.elim
    | store s f =>
        simp only [exec]
        split <;> exact nested_nil
    | remove s fid => exact nested_locked trivial fun _ hmay => hmay.elim
    | erase s fid => exact nested_nil
    | move2otherScheduler s fid pFS =>
        cases pFS with
        | none => exact nested_nil
        | some t =>
            simp only [exec]
            split
            case isTrue => exact nested_nil
            case isFalse hne =>
              have hdirected : Directed D s t := ⟨hne, hkeeps.resolve_left hne⟩
              refine nested_locked hkeeps fun l hmay => ?_
              obtain rfl : l = t := hmay
              exact hdirected
    | moveFound s fid t =>
        simp only [exec]
        split
        · exact nested_call trivial (nested_call trivial nested_nil)
        · exact nested_nil
    | currFiberId s => exact nested_touch s
  takes _ instr w l hkeeps _ htakes := by
    cases instr with
    | submit s pFiber =>
        cases pFiber <;> exact (takes_locked htakes).resolve_right id
    | store s f =>
        simp only [exec] at htakes
        split at htakes <;> exact (takes_nil htakes).elim
    | remove s fid => exact (takes_locked htakes).resolve_right id
    | erase s fid => exact (takes_nil htakes).elim
    | move2otherScheduler s fid pFS =>
        cases pFS with
        | none => exact (takes_nil htakes).elim
        | some t =>
            simp only [exec] at htakes
            split at htakes
            case isTrue => exact (takes_nil htakes).elim
            case isFalse =>
              exact (takes_locked htakes).imp_right fun hmay => congrArg some (Eq.symm hmay)
    | moveFound s fid t =>
        simp only [exec] at htakes
        split at htakes
        · exact (takes_call htakes).resolve_right fun h =>
            (takes_call h).elim id (takes_nil ·)
        · exact (takes_nil htakes).elim
    | currFiberId s => exact takes_touch htakes

end FiberInstr

namespace FiberThreads

open FiberInstr

variable {S T : Type} [DecidableEq S] [DecidableEq T] {D : S → S → Prop} {w : FiberWorld S}
variable {x y : FiberThreads S T} {s t : S} {i : T}

theorem submits (h : Threads.Reached exec (Keeps D) w x) (hidle : x.todo i = [])
    (hfree : x.owner s = none) :
    ∃ y : FiberThreads S T, Threads.Reached exec (Keeps D) w y ∧ y.owner = x.owner ∧
      y.todo = x.todo ∧ ∃ fid f, y.data.Stores s fid f := by
  obtain ⟨y₁, h₁, hdata₁, howner₁, htodo₁⟩ := h.begin hidle (i := .submit s none) trivial
  obtain ⟨y₂, h₂, hdata₂, howner₂, htodo₂⟩ := h₁.call () (by rw [htodo₁, Function.update_self])
  have hnew : y₂.data = (x.data.fiberNew s).2 := by rw [hdata₂, hdata₁]; rfl
  have hfiber : y₂.data.objects[(x.data.fiberNew s).1]? =
      some (.new x.data.nextFid (some s)) := by
    rw [hnew]
    simp [FiberWorld.fiberNew]
  have hstore : exec () (.store s (x.data.fiberNew s).1) y₂.data =
      ([], y₂.data.setEntry s x.data.nextFid (some (x.data.fiberNew s).1)) := by
    simp only [exec, hfiber]
    rfl
  have htodo : y₂.todo i = locked s (.store s (x.data.fiberNew s).1) ++ [] := by
    rw [htodo₂, Function.update_self, hdata₁]
    rfl
  obtain ⟨y₃, h₃, hdata₃, howner₃, htodo₃⟩ :=
    h₂.locked_call () htodo (by rw [howner₂, howner₁, hfree]) (by rw [hstore])
  refine ⟨y₃, h₃, by rw [howner₃, howner₂, howner₁], ?_, x.data.nextFid,
    (x.data.fiberNew s).1, ?_⟩
  · rw [htodo₃, htodo₂, htodo₁, Function.update_idem, Function.update_idem, ← hidle,
      Function.update_eq_self]
  · rw [hdata₃, hstore]
    exact FiberWorld.stores_setEntry ..

theorem finds (h : Threads.Reached exec (Keeps D) w x) (hidle : x.todo i = [])
    (hfree : x.owner s = none) (hdirected : Directed D s t) {fid : UInt32} {f : ℕ}
    (hstored : x.data.Stores s fid f) :
    ∃ y : FiberThreads S T, Threads.Reached exec (Keeps D) w y ∧ y.data = x.data ∧
      y.owner = Function.update x.owner s (some i) ∧
      y.todo = Function.update x.todo i
        [.call (.submit t (some f)), .call (.erase s fid), .release s] := by
  obtain ⟨hne, hD⟩ := hdirected
  obtain ⟨y₁, h₁, hdata₁, howner₁, htodo₁⟩ :=
    h.begin hidle (i := .move2otherScheduler s fid (some t)) (.inr hD)
  obtain ⟨y₂, h₂, hdata₂, howner₂, htodo₂⟩ := h₁.call () (by rw [htodo₁, Function.update_self])
  have hlock : exec () (.move2otherScheduler s fid (some t)) y₁.data =
      (locked s (.moveFound s fid t), y₁.data) := if_neg hne
  rw [hlock] at hdata₂ htodo₂
  obtain ⟨y₃, h₃, hdata₃, howner₃, htodo₃⟩ :=
    h₂.acquire (l := s) (by rw [htodo₂, Function.update_self]; rfl)
      (by rw [howner₂, howner₁, hfree])
  obtain ⟨y₄, h₄, hdata₄, howner₄, htodo₄⟩ :=
    h₃.call () (by rw [htodo₃, Function.update_self]; rfl)
  have hfound : exec () (.moveFound s fid t) y₃.data =
      ([.call (.submit t (some f)), .call (.erase s fid)], y₃.data) := by
    rw [FiberWorld.Stores] at hstored
    simp only [exec, hdata₃, hdata₂, hdata₁, hstored]
  rw [hfound] at hdata₄ htodo₄
  refine ⟨y₄, h₄, by rw [hdata₄, hdata₃, hdata₂, hdata₁],
    by rw [howner₄, howner₃, howner₂, howner₁], ?_⟩
  rw [htodo₄, htodo₃, htodo₂, htodo₁]
  simp only [Function.update_idem]
  rfl

theorem moves (h : Threads.Reached exec (Keeps D) w x) (hidle : x.todo i = [])
    (hfree : x.owner s = none) (hdirected : Directed D s t) {fid : UInt32} {f : ℕ}
    (hstored : x.data.Stores s fid f) :
    ∃ y : FiberThreads S T, Threads.Reached exec (Keeps D) w y ∧ y.data = x.data ∧
      y.owner = Function.update x.owner s (some i) ∧
      y.todo = Function.update x.todo i
        [.acquire t, .call (.store t f), .release t, .call (.erase s fid), .release s] := by
  obtain ⟨y₁, h₁, hdata₁, howner₁, htodo₁⟩ := finds h hidle hfree hdirected hstored
  obtain ⟨y₂, h₂, hdata₂, howner₂, htodo₂⟩ := h₁.call () (by rw [htodo₁, Function.update_self])
  refine ⟨y₂, h₂, by rw [hdata₂, ← hdata₁]; rfl, by rw [howner₂, howner₁], ?_⟩
  rw [htodo₂, htodo₁, Function.update_idem]
  rfl

theorem moves_alone (h : Threads.Reached exec (Keeps D) w x) (hidle : x.todo i = [])
    (hunlocked : ∀ s, x.owner s = none) (hflags : ∀ s, (x.data.schedulers s).locked = false)
    (hdirected : Directed D s t) {fid : UInt32} {f : ℕ} {fiber : Fiber S}
    (hstored : x.data.Stores s fid f) (hf : x.data.objects[f]? = some fiber) :
    ∃ y : FiberThreads S T, Threads.Reached exec (Keeps D) w y ∧ y.owner = x.owner ∧
      y.todo = x.todo ∧
      x.data.move2otherScheduler s fid (some t) = .ok (true, y.data) := by
  obtain ⟨y₁, h₁, hdata₁, howner₁, htodo₁⟩ := moves h hidle (hunlocked s) hdirected hstored
  have hstore : exec () (.store t f) y₁.data =
      ([], x.data.setEntry t fiber.fid (some f)) := by
    rw [hdata₁]
    simp only [exec, hf]
  obtain ⟨y₂, h₂, hdata₂, howner₂, htodo₂⟩ :=
    h₁.locked_call () (by rw [htodo₁, Function.update_self]; rfl)
      (by rw [howner₁, Function.update_of_ne hdirected.1.symm, hunlocked]) (by rw [hstore])
  obtain ⟨y₃, h₃, hdata₃, howner₃, htodo₃⟩ := h₂.call () (by rw [htodo₂, Function.update_self])
  have hlast : y₃.todo i = [.release s] := by
    rw [htodo₃, Function.update_self]
    rfl
  obtain ⟨y₄, h₄, hdata₄, howner₄, htodo₄⟩ := h₃.release hlast
  refine ⟨y₄, h₄, ?_, ?_, ?_⟩
  · rw [howner₄, howner₃, howner₂, howner₁, Function.update_idem, ← hunlocked s,
      Function.update_eq_self]
  · rw [htodo₄, htodo₃, htodo₂, htodo₁]
    simp only [Function.update_idem]
    rw [← hidle, Function.update_eq_self]
  · rw [FiberWorld.move_ok (hflags s) (hflags t) hdirected.1 hstored hf, hdata₄, hdata₃, hdata₂,
      hstore]
    rfl

/-- Any number of threads that submit, remove and move fibers never deadlock exactly when the
directions in which fibers are moved have no cycle. -/
theorem moves_deadlock_free_iff (D : S → S → Prop) (made : List (UInt32 × Option S))
    (nextFid : UInt32) :
    (∀ n (x : FiberThreads S (Fin n)),
        Threads.Reached exec (Keeps D) (FiberWorld.new made nextFid) x → ¬ x.Deadlocked) ↔
      ∀ s, ¬ TransGen (Directed D) s s := by
  constructor
  · intro hfree s hcycle
    obtain ⟨n, v, hn, hclosed, hsteps, hapart⟩ := exists_simple_cycle hcycle
    -- the threads before `k` have come to the second mutex of their moves, the others are idle
    have hstuck : ∀ k ≤ n, ∃ x : FiberThreads S (Fin n),
        Threads.Reached exec (Keeps D) (FiberWorld.new made nextFid) x ∧
          (∀ j : Fin n, j < k → x.owner (v j) = some j ∧
            ∃ rest, x.todo j = .acquire (v (j + 1)) :: rest) ∧
          ∀ j : Fin n, k ≤ j → x.owner (v j) = none ∧ x.todo j = [] := by
      intro k hk
      induction k with
      | zero => exact ⟨_, .start, fun j hj => absurd hj (by omega), fun j _ => ⟨rfl, rfl⟩⟩
      | succ k ih =>
          obtain ⟨x, hreached, hbefore, hafter⟩ := ih (by omega)
          obtain ⟨hunlocked, hidle⟩ := hafter ⟨k, hk⟩ (Nat.le_refl k)
          obtain ⟨y, hy, howner, htodo, fid, f, hstored⟩ := submits hreached hidle hunlocked
          obtain ⟨z, hz, -, howner', htodo'⟩ :=
            moves hy (htodo ▸ hidle) (howner ▸ hunlocked) (hsteps k hk) hstored
          rw [howner] at howner'
          rw [htodo] at htodo'
          have hne : ∀ j : Fin n, (j : ℕ) ≠ k → v j ≠ v k := fun j hj heq =>
            hj (hapart j k j.isLt hk heq)
          refine ⟨z, hz, fun j hj => ?_, fun j hj => ?_⟩
          · rw [howner', htodo']
            by_cases hjk : (j : ℕ) = k
            case pos =>
              obtain rfl : j = ⟨k, hk⟩ := Fin.ext hjk
              exact ⟨by simp, _, by rw [Function.update_self]⟩
            case neg =>
              rw [Function.update_of_ne (hne j hjk), Function.update_of_ne (Fin.ne_of_val_ne hjk)]
              exact hbefore j (by omega)
          · rw [howner', htodo', Function.update_of_ne (hne j (by omega)),
              Function.update_of_ne (Fin.ne_of_val_ne (by dsimp only; omega))]
            exact hafter j (by omega)
    obtain ⟨x, hreached, hall, -⟩ := hstuck n (Nat.le_refl n)
    refine hfree n x hreached ⟨Set.univ, ⟨⟨0, hn⟩, trivial⟩, fun j _ => ?_⟩
    obtain ⟨-, rest, htodo⟩ := hall j j.isLt
    by_cases hlast : (j : ℕ) + 1 < n
    case pos =>
      exact ⟨⟨j + 1, hlast⟩, trivial, v (j + 1), Threads.wants_eq_some.mpr ⟨rest, htodo⟩,
        (hall ⟨j + 1, hlast⟩ hlast).1⟩
    case neg =>
      have hend : v (j + 1) = v 0 := by
        rw [show (j : ℕ) + 1 = n by omega, hclosed]
      exact ⟨⟨0, hn⟩, trivial, v (j + 1), Threads.wants_eq_some.mpr ⟨rest, htodo⟩,
        hend ▸ (hall ⟨0, hn⟩ hn).1⟩
  · intro hacyclic n x hreached
    exact hreached.not_deadlocked (disciplined D).ordered (fun _ _ => hacyclic) trivial

end FiberThreads

end LpNet
