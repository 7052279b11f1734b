import LpNet.Lib.Transition
import Mathlib.Data.Fintype.Card
import Mathlib.Logic.Function.Basic
import Mathlib.Logic.Relation
import Mathlib.Order.WellFounded

/-!
Threads that take locks inside each other.

A thread has a list of instructions left to do: to take a lock, to give one up, or a call,
which changes the data and may put further instructions in front. A lock is not
re-entrant: whoever finds it taken waits, its holder too. `Deadlocked` says that some
threads wait for each other, which for finitely many threads is a cycle
(`deadlocked_iff_cycle`).

`Leads` is the discipline: the locks that a thread takes are given up in the opposite
order, and each is taken only inside of locks that `R` puts before it. `Ordered` says that all
calls keep to it; `R` may grow with the data. When it has no cycle no state is deadlocked
(`not_deadlocked`), and some thread can go on as long as one has anything left to do
(`exists_step`). For an order that is fixed `Disciplined` is enough, with the locks that each
call may take. Conversely a cycle of a relation has one through different points
(`exists_simple_cycle`), with which a deadlock is built.
-/

namespace LpNet.LockOrder

open Transition Relation

inductive LockInstr (L I : Type)
  | acquire (lock : L)
  | release (lock : L)
  | call (instr : I)
  deriving DecidableEq, Repr

def locked {L I : Type} (lock : L) (instr : I) : List (LockInstr L I) :=
  [.acquire lock, .call instr, .release lock]

/-- The data, the holder of each lock, and what each thread has left to do. -/
structure Threads (σ L I T : Type) where
  data : σ
  owner : L → Option T
  todo : T → List (LockInstr L I)

/-- A thread that has nothing to do begins a call, or one goes on. -/
inductive ThreadAction (I C T : Type)
  | begin (t : T) (instr : I)
  | step (t : T) (choice : C)

inductive Refusal
  | busy
  | idle
  | blocked
  deriving DecidableEq, Repr

namespace Threads

variable {σ L I C T : Type} [DecidableEq L] [DecidableEq T]

def start (data : σ) : Threads σ L I T := ⟨data, fun _ => none, fun _ => []⟩

/-- Perform an action. A call is done by `exec`, for something that is not up to the threads. -/
def step (exec : C → I → σ → List (LockInstr L I) × σ) (s : Threads σ L I T) :
    ThreadAction I C T → Except Refusal (Unit × Threads σ L I T)
  | .begin t instr =>
      match s.todo t with
      | [] => .ok ((), { s with todo := Function.update s.todo t [.call instr] })
      | _ :: _ => .error .busy
  | .step t choice =>
      match s.todo t with
      | [] => .error .idle
      | .acquire l :: rest =>
          match s.owner l with
          | some _ => .error .blocked
          | none => .ok ((), { s with owner := Function.update s.owner l (some t)
                                      todo := Function.update s.todo t rest })
      | .release l :: rest =>
          .ok ((), { s with owner := Function.update s.owner l none
                            todo := Function.update s.todo t rest })
      | .call i :: rest =>
          .ok ((), { s with data := (exec choice i s.data).2
                            todo := Function.update s.todo t
                              ((exec choice i s.data).1 ++ rest) })

section Step

variable {exec : C → I → σ → List (LockInstr L I) × σ} {s : Threads σ L I T} {t : T} {l : L}
variable {rest : List (LockInstr L I)} {choice : C}

theorem step_begin {i : I} (h : s.todo t = []) :
    s.step exec (.begin t i : ThreadAction I C T) =
      .ok ((), { s with todo := Function.update s.todo t [.call i] }) := by
  rw [step, h]

theorem step_acquire (h : s.todo t = .acquire l :: rest) (hfree : s.owner l = none) :
    s.step exec (.step t choice) =
      .ok ((), { s with owner := Function.update s.owner l (some t)
                        todo := Function.update s.todo t rest }) := by
  rw [step, h]
  dsimp only
  rw [hfree]

theorem step_release (h : s.todo t = .release l :: rest) :
    s.step exec (.step t choice) =
      .ok ((), { s with owner := Function.update s.owner l none
                        todo := Function.update s.todo t rest }) := by
  rw [step, h]

theorem step_call {i : I} (h : s.todo t = .call i :: rest) :
    s.step exec (.step t choice) =
      .ok ((), { s with data := (exec choice i s.data).2
                        todo := Function.update s.todo t
                          ((exec choice i s.data).1 ++ rest) }) := by
  rw [step, h]

end Step

def wants (s : Threads σ L I T) (t : T) : Option L :=
  match s.todo t with
  | .acquire l :: _ => some l
  | _ => none

/-- The first thread is about to take a lock that the second one has. -/
def Waits (s : Threads σ L I T) (t u : T) : Prop := ∃ l, s.wants t = some l ∧ s.owner l = some u

/-- Some threads wait for each other. -/
def Deadlocked (s : Threads σ L I T) : Prop :=
  ∃ D : Set T, D.Nonempty ∧ ∀ t ∈ D, ∃ u ∈ D, s.Waits t u

end Threads

/-! ### Cycles -/

section Cycle

variable {α : Type*} {r : α → α → Prop} {a b : α}

theorem exists_walk (h : ReflTransGen r a b) :
    ∃ n, ∃ v : ℕ → α, v 0 = a ∧ v n = b ∧ ∀ i < n, r (v i) (v (i + 1)) := by
  induction h with
  | refl => exact ⟨0, fun _ => a, rfl, rfl, fun i hi => by omega⟩
  | @tail b c _ hbc ih =>
      obtain ⟨n, v, h0, hend, hsteps⟩ := ih
      refine ⟨n + 1, fun i => if i ≤ n then v i else c, by simp [h0], by simp, fun i hi => ?_⟩
      by_cases hlt : i < n
      case pos =>
        simp only [hlt.le, if_true, Nat.succ_le_of_lt hlt]
        exact hsteps i hlt
      case neg =>
        obtain rfl : i = n := by omega
        simp only [le_refl, if_true, hend, Nat.not_succ_le_self, if_false]
        exact hbc

theorem transGen_of_walk {v : ℕ → α} {n : ℕ} (hn : 0 < n) (h : ∀ i < n, r (v i) (v (i + 1))) :
    TransGen r (v 0) (v n) := by
  induction n with
  | zero => omega
  | succ n ih =>
      rcases Nat.eq_zero_or_pos n with rfl | hpos
      · exact .single (h 0 Nat.one_pos)
      · exact (ih hpos fun i hi => h i (by omega)).tail (h n (by omega))

/-- A way has one that comes to no point twice. -/
theorem exists_simple_walk (h : ReflTransGen r a b) :
    ∃ n, ∃ v : ℕ → α, v 0 = a ∧ v n = b ∧ (∀ i < n, r (v i) (v (i + 1))) ∧
      ∀ i j, i ≤ n → j ≤ n → v i = v j → i = j := by
  classical
  have hwalk : ∃ n, ∃ v : ℕ → α, v 0 = a ∧ v n = b ∧ ∀ i < n, r (v i) (v (i + 1)) :=
    exists_walk h
  -- the shortest one has no part that comes back to where it began
  obtain ⟨v, h0, hend, hsteps⟩ := Nat.find_spec hwalk
  have hapart : ∀ i j, i < j → j ≤ Nat.find hwalk → v i ≠ v j := by
    intro i j hij hj heq
    refine Nat.find_min hwalk (m := Nat.find hwalk - (j - i)) (by omega)
      ⟨fun k => if k ≤ i then v k else v (k + (j - i)), by simp [h0], ?_, fun k hk => ?_⟩
    · dsimp only
      by_cases hlast : Nat.find hwalk - (j - i) ≤ i
      case pos =>
        have hji : Nat.find hwalk = j := by omega
        have hi : Nat.find hwalk - (j - i) = i := by omega
        rw [if_pos hlast, hi, heq, ← hji, hend]
      case neg =>
        rw [if_neg hlast, Nat.sub_add_cancel (by omega), hend]
    · dsimp only
      by_cases hki : k < i
      case pos =>
        rw [if_pos hki.le, if_pos (Nat.succ_le_of_lt hki)]
        exact hsteps k (by omega)
      case neg =>
        rw [if_neg (by omega : ¬ k + 1 ≤ i)]
        by_cases hik : k ≤ i
        case pos =>
          obtain rfl : k = i := by omega
          have hnext : k + 1 + (j - k) = j + 1 := by omega
          rw [if_pos hik, heq, hnext]
          exact hsteps j (by omega)
        case neg =>
          have hnext : k + 1 + (j - i) = k + (j - i) + 1 := by omega
          rw [if_neg hik, hnext]
          exact hsteps (k + (j - i)) (by omega)
  refine ⟨Nat.find hwalk, v, h0, hend, hsteps, fun i j hi hj heq => ?_⟩
  rcases lt_trichotomy i j with hij | rfl | hji
  · exact absurd heq (hapart i j hij hj)
  · rfl
  · exact absurd heq.symm (hapart j i hji hi)

theorem exists_simple_cycle (h : TransGen r a a) :
    ∃ n, ∃ v : ℕ → α, 0 < n ∧ v n = v 0 ∧ (∀ i < n, r (v i) (v (i + 1))) ∧
      ∀ i j, i < n → j < n → v i = v j → i = j := by
  obtain ⟨b, hback, hclose⟩ := TransGen.tail'_iff.mp h
  obtain ⟨n, v, h0, hend, hsteps, hapart⟩ := exists_simple_walk hback
  refine ⟨n + 1, fun i => if i ≤ n then v i else a, Nat.succ_pos n, by simp [h0], fun i hi => ?_,
    fun i j hi hj heq => ?_⟩
  · by_cases hlt : i < n
    case pos =>
      simp only [hlt.le, if_true, Nat.succ_le_of_lt hlt]
      exact hsteps i hlt
    case neg =>
      obtain rfl : i = n := by omega
      simp only [le_refl, if_true, hend, Nat.not_succ_le_self, if_false]
      exact hclose
  · simp only [Nat.le_of_lt_succ hi, Nat.le_of_lt_succ hj, if_true] at heq
    exact hapart i j (by omega) (by omega) heq

theorem exists_cycle_of_total [Finite α] {D : Set α} (hD : D.Nonempty)
    (htotal : ∀ a ∈ D, ∃ b ∈ D, r a b) : ∃ a, TransGen r a a := by
  by_contra hfree
  have hirrefl : Std.Irrefl (TransGen (Function.swap r)) :=
    ⟨fun a h => hfree ⟨a, transGen_swap.mp h⟩⟩
  have hwf : WellFounded (TransGen (Function.swap r)) := Finite.wellFounded_of_trans_of_irrefl _
  obtain ⟨a, ha, hmin⟩ := hwf.has_min D hD
  obtain ⟨b, hb, hab⟩ := htotal a ha
  exact hmin b hb (.single hab)

end Cycle

/-! ### The discipline -/

section Discipline

variable {σ L I C : Type}

/-- The instructions take each lock inside of locks that come before it, give up the last one first,
and make calls that fit what is held. `held` and `last` are the locks that are held before and after
them, the last one first. -/
def Leads (R : L → L → Prop) (fits : I → List L → Prop) :
    List (LockInstr L I) → List L → List L → Prop
  | [], held, last => held = last
  | .acquire l :: rest, held, last => (∀ h ∈ held, R h l) ∧ Leads R fits rest (l :: held) last
  | .release l :: rest, held, last => ∃ below, held = l :: below ∧ Leads R fits rest below last
  | .call i :: rest, held, last => fits i held ∧ Leads R fits rest held last

section Leads

variable {R R' : L → L → Prop} {fits fits' : I → List L → Prop}
variable {instrs rest : List (LockInstr L I)} {held mid last : List L}

theorem Leads.append (h : Leads R fits instrs held mid) (hrest : Leads R fits rest mid last) :
    Leads R fits (instrs ++ rest) held last := by
  induction instrs generalizing held with
  | nil =>
      rw [Leads] at h
      subst h
      exact hrest
  | cons instr instrs ih =>
      cases instr with
      | acquire l => exact ⟨h.1, ih h.2⟩
      | release l =>
          obtain ⟨below, rfl, hbelow⟩ := h
          exact ⟨below, rfl, ih hbelow⟩
      | call i => exact ⟨h.1, ih h.2⟩

theorem Leads.mono (h : Leads R fits instrs held last) (hR : ∀ a b, R a b → R' a b)
    (hfits : ∀ i held, fits i held → fits' i held) : Leads R' fits' instrs held last := by
  induction instrs generalizing held with
  | nil => exact h
  | cons instr instrs ih =>
      cases instr with
      | acquire l => exact ⟨fun h' hh' => hR h' l (h.1 h' hh'), ih h.2⟩
      | release l =>
          obtain ⟨below, rfl, hbelow⟩ := h
          exact ⟨below, rfl, ih hbelow⟩
      | call i => exact ⟨hfits i held h.1, ih h.2⟩

theorem Leads.exists_fits (h : Leads R fits instrs held last) {i : I} (hi : .call i ∈ instrs) :
    ∃ held, fits i held := by
  induction instrs generalizing held with
  | nil => cases hi
  | cons instr instrs ih =>
      rcases List.mem_cons.mp hi with rfl | hrest
      · exact ⟨held, h.1⟩
      · cases instr with
        | acquire l => exact ih h.2 hrest
        | release l =>
            obtain ⟨below, rfl, hbelow⟩ := h
            exact ih hbelow hrest
        | call i' => exact ih h.2 hrest

/-- A lock that is taken for nothing else. -/
theorem leads_touch {l : L} (h : ∀ h ∈ held, R h l) (hrest : Leads R fits rest held last) :
    Leads R fits (.acquire l :: .release l :: rest) held last := ⟨h, held, rfl, hrest⟩

theorem leads_locked {l : L} {i : I} (h : ∀ h ∈ held, R h l) (hfits : fits i (l :: held)) :
    Leads R fits (locked l i) held held := ⟨h, hfits, held, rfl, rfl⟩

theorem leads_calls {α : Type} {f : α → I} {as : List α} (h : ∀ a ∈ as, fits (f a) held)
    (hrest : Leads R fits rest held last) :
    Leads R fits (as.map (fun a => .call (f a)) ++ rest) held last := by
  induction as with
  | nil => exact hrest
  | cons a as ih =>
      rw [List.forall_mem_cons] at h
      exact ⟨h.1, ih h.2⟩

end Leads

/-- What the calls are to keep to, where the data meets `J`. Which lock comes before which, and
which call fits what is held, may depend on the data, as long as no call makes it less. -/
structure Ordered (R : σ → L → L → Prop) (fits : σ → I → List L → Prop) (ok : I → Prop)
    (J : σ → Prop) (exec : C → I → σ → List (LockInstr L I) × σ) : Prop where
  begins : ∀ i data, ok i → J data → fits data i []
  leads : ∀ choice i data held, J data → fits data i held →
    Leads (R (exec choice i data).2) (fits (exec choice i data).2) (exec choice i data).1 held held
  keeps : ∀ choice i data held, J data → fits data i held → J (exec choice i data).2
  order_mono : ∀ choice i data a b, R data a b → R (exec choice i data).2 a b
  fits_mono : ∀ choice i data j held, fits data j held → fits (exec choice i data).2 j held

end Discipline

/-! ### An order that is fixed -/

section Static

variable {σ L I C : Type}

/-- A call is one of those that are made, and the locks it may take come after those that are
held. -/
def Fits (R : L → L → Prop) (may : I → L → Prop) (ok : I → Prop) (i : I) (held : List L) : Prop :=
  ok i ∧ ∀ h ∈ held, ∀ l, may i l → R h l

/-- The instructions take each lock inside of locks that come before it, and give up the last one
first. `may i l` says that the call `i` may take the lock `l`, and `ok i` that the call is one of
those that are made. `held` are the locks that are held, the last one first. -/
abbrev Nested (R : L → L → Prop) (may : I → L → Prop) (ok : I → Prop)
    (instrs : List (LockInstr L I)) (held : List L) : Prop :=
  Leads R (Fits R may ok) instrs held []

def Takes (may : I → L → Prop) (instrs : List (LockInstr L I)) (l : L) : Prop :=
  ∃ instr ∈ instrs, match instr with
    | .acquire l' => l' = l
    | .release _ => False
    | .call i => may i l

variable {R : L → L → Prop} {may : I → L → Prop} {ok : I → Prop}
variable {instrs rest : List (LockInstr L I)} {inner held : List L}

theorem Takes.cons {instr : LockInstr L I} {l : L} (h : Takes may instrs l) :
    Takes may (instr :: instrs) l := by
  obtain ⟨instr', hmem, htakes⟩ := h
  exact ⟨instr', List.mem_cons_of_mem _ hmem, htakes⟩

theorem Nested.inside (h : Nested R may ok instrs inner)
    (hout : ∀ l, Takes may instrs l → ∀ h ∈ held, R h l) :
    Leads R (Fits R may ok) instrs (inner ++ held) held := by
  induction instrs generalizing inner with
  | nil =>
      rw [Nested, Leads] at h
      subst h
      rfl
  | cons instr instrs ih =>
      have hout' : ∀ l, Takes may instrs l → ∀ h ∈ held, R h l := fun l hl => hout l hl.cons
      cases instr with
      | acquire l =>
          refine ⟨fun l' hl' => ?_, ih h.2 hout'⟩
          rcases List.mem_append.mp hl' with hin | hheld
          · exact h.1 l' hin
          · exact hout l ⟨.acquire l, List.mem_cons_self, rfl⟩ l' hheld
      | release l =>
          obtain ⟨below, rfl, hbelow⟩ := h
          exact ⟨below ++ held, rfl, ih hbelow hout'⟩
      | call i =>
          refine ⟨⟨h.1.1, fun l' hl' l hmay => ?_⟩, ih h.2 hout'⟩
          rcases List.mem_append.mp hl' with hin | hheld
          · exact h.1.2 l' hin l hmay
          · exact hout l ⟨.call i, List.mem_cons_self, hmay⟩ l' hheld

theorem nested_nil : Nested R may ok ([] : List (LockInstr L I)) [] := rfl

/-- A lock that is taken for nothing else. -/
theorem nested_touch (l : L) : Nested R may ok [.acquire l, .release l] [] :=
  ⟨fun _ h => (List.not_mem_nil h).elim, [], rfl, rfl⟩

theorem nested_call {i : I} (hok : ok i) (h : Nested R may ok rest []) :
    Nested R may ok (.call i :: rest) [] :=
  ⟨⟨hok, fun _ h => (List.not_mem_nil h).elim⟩, h⟩

theorem nested_calls {α : Type} {f : α → I} (hok : ∀ a, ok (f a)) (as : List α) :
    Nested R may ok (as.map fun a => .call (f a)) [] := by
  induction as with
  | nil => exact nested_nil
  | cons a as ih => exact nested_call (hok a) ih

theorem nested_locked {l : L} {i : I} (hok : ok i) (hmay : ∀ l', may i l' → R l l') :
    Nested R may ok (locked l i) [] := by
  refine ⟨fun _ h => (List.not_mem_nil h).elim, ⟨hok, fun h hh => ?_⟩, [], rfl, rfl⟩
  rw [List.mem_singleton.mp hh]
  exact hmay

theorem takes_nil {l : L} : ¬ Takes may ([] : List (LockInstr L I)) l := by
  rintro ⟨_, h, -⟩
  cases h

theorem takes_acquire {l l' : L} (h : Takes may (.acquire l :: rest) l') :
    l' = l ∨ Takes may rest l' := by
  obtain ⟨instr, hmem, htakes⟩ := h
  rcases List.mem_cons.mp hmem with rfl | hmem
  · exact .inl (Eq.symm htakes)
  · exact .inr ⟨instr, hmem, htakes⟩

theorem takes_release {l l' : L} (h : Takes may (.release l :: rest) l') : Takes may rest l' := by
  obtain ⟨instr, hmem, htakes⟩ := h
  rcases List.mem_cons.mp hmem with rfl | hmem
  · exact htakes.elim
  · exact ⟨instr, hmem, htakes⟩

theorem takes_call {i : I} {l : L} (h : Takes may (.call i :: rest) l) :
    may i l ∨ Takes may rest l := by
  obtain ⟨instr, hmem, htakes⟩ := h
  rcases List.mem_cons.mp hmem with rfl | hmem
  · exact .inl htakes
  · exact .inr ⟨instr, hmem, htakes⟩

theorem takes_calls {α : Type} {f : α → I} {as : List α} {l : L}
    (h : Takes may (as.map fun a => .call (f a)) l) : ∃ a ∈ as, may (f a) l := by
  obtain ⟨instr, hmem, htakes⟩ := h
  obtain ⟨a, ha, rfl⟩ := List.mem_map.mp hmem
  exact ⟨a, ha, htakes⟩

theorem takes_touch {l l' : L} (h : Takes may [.acquire l, .release l] l') : l' = l :=
  (takes_acquire h).resolve_right fun h => takes_nil (takes_release h)

theorem takes_locked {l l' : L} {i : I} (h : Takes may (locked l i) l') : l' = l ∨ may i l' :=
  (takes_acquire h).imp_right fun h =>
    (takes_call h).resolve_right fun h => takes_nil (takes_release h)

/-- What the calls are to keep to where the order is fixed and the data meets `J`. -/
structure Disciplined (R : L → L → Prop) (may : I → L → Prop) (ok : I → Prop) (J : σ → Prop)
    (exec : C → I → σ → List (LockInstr L I) × σ) : Prop where
  nested : ∀ choice i data, ok i → J data → Nested R may ok (exec choice i data).1 []
  takes : ∀ choice i data l, ok i → J data → Takes may (exec choice i data).1 l → may i l
  keeps : ∀ choice i data, ok i → J data → J (exec choice i data).2

theorem Disciplined.ordered {J : σ → Prop} {exec : C → I → σ → List (LockInstr L I) × σ}
    (h : Disciplined R may ok J exec) :
    Ordered (fun _ => R) (fun _ => Fits R may ok) ok J exec where
  begins _ _ hok _ := ⟨hok, fun _ hh => (List.not_mem_nil hh).elim⟩
  leads choice i data _ hdata hfits :=
    (h.nested choice i data hfits.1 hdata).inside fun l hl h' hh' =>
      hfits.2 h' hh' l (h.takes choice i data l hfits.1 hdata hl)
  keeps choice i data _ hdata hfits := h.keeps choice i data hfits.1 hdata
  order_mono _ _ _ _ _ := id
  fits_mono _ _ _ _ _ := id

end Static

namespace Threads

variable {σ L I C T : Type} [DecidableEq L] [DecidableEq T]
variable {R : σ → L → L → Prop} {fits : σ → I → List L → Prop} {ok : I → Prop} {J : σ → Prop}
variable {exec : C → I → σ → List (LockInstr L I) × σ}
variable {s s' : Threads σ L I T}

/-- The calls that are begun are among those that are made. -/
def Begins (ok : I → Prop) : ThreadAction I C T → Prop
  | .begin _ instr => ok instr
  | .step .. => True

/-- The holder of a lock has it among those that it is to give up, in order. -/
structure Orderly (R : σ → L → L → Prop) (fits : σ → I → List L → Prop) (J : σ → Prop)
    (s : Threads σ L I T) (held : T → List L) : Prop where
  leads : ∀ t, Leads (R s.data) (fits s.data) (s.todo t) (held t) []
  nodup : ∀ t, (held t).Nodup
  owner_iff : ∀ t l, s.owner l = some t ↔ l ∈ held t
  data : J s.data

omit [DecidableEq L] [DecidableEq T] in
theorem start_orderly {data : σ} (hdata : J data) :
    Orderly R fits J (start data : Threads σ L I T) fun _ => [] where
  leads _ := rfl
  nodup _ := List.nodup_nil
  owner_iff t l := by simp [start]
  data := hdata

omit [DecidableEq L] in
/-- A thread that keeps its locks goes on with other instructions, where the data grants no less. -/
theorem Orderly.resumed {held : T → List L} (h : Orderly R fits J s held) {t : T}
    {instrs : List (LockInstr L I)} {data : σ} (hdata : J data)
    (hR : ∀ a b, R s.data a b → R data a b)
    (hfits : ∀ i held, fits s.data i held → fits data i held)
    (hleads : Leads (R data) (fits data) instrs (held t) []) :
    Orderly R fits J { s with data := data, todo := Function.update s.todo t instrs } held := by
  refine ⟨fun u => ?_, h.nodup, h.owner_iff, hdata⟩
  by_cases hu : u = t
  case pos =>
    subst hu
    simpa using hleads
  case neg => simpa [hu] using (h.leads u).mono hR hfits

theorem Orderly.acquired {held : T → List L} (h : Orderly R fits J s held) {t : T} {l : L}
    {rest : List (LockInstr L I)} (hfree : s.owner l = none)
    (hleads : Leads (R s.data) (fits s.data) rest (l :: held t) []) :
    Orderly R fits J { s with owner := Function.update s.owner l (some t)
                              todo := Function.update s.todo t rest }
      (Function.update held t (l :: held t)) := by
  have hnew : ∀ u, l ∉ held u := fun u hmem => by
    have howner := (h.owner_iff u l).mpr hmem
    rw [hfree] at howner
    cases howner
  refine ⟨fun u => ?_, fun u => ?_, fun u l' => ?_, h.data⟩
  · by_cases hu : u = t
    case pos =>
      subst hu
      simpa using hleads
    case neg => simpa [hu] using h.leads u
  · by_cases hu : u = t
    case pos =>
      subst hu
      simpa using ⟨hnew u, h.nodup u⟩
    case neg => simpa [hu] using h.nodup u
  · have hold := h.owner_iff u l'
    by_cases hl : l' = l
    case pos =>
      subst hl
      by_cases hu : u = t
      case pos =>
        subst hu
        simp
      case neg =>
        simp only [Function.update_self, Function.update_of_ne hu, Option.some.injEq]
        exact iff_of_false (Ne.symm hu) (hnew u)
    case neg =>
      by_cases hu : u = t
      case pos =>
        subst hu
        simpa [hl] using hold
      case neg => simpa [hl, hu] using hold

/-- A thread gives up the lock that it took last. -/
theorem Orderly.released {held : T → List L} (h : Orderly R fits J s held) {t : T} {l : L}
    {below : List L} (hheld : held t = l :: below) {rest : List (LockInstr L I)}
    (hleads : Leads (R s.data) (fits s.data) rest below []) :
    Orderly R fits J { s with owner := Function.update s.owner l none
                              todo := Function.update s.todo t rest }
      (Function.update held t below) := by
  have hnodup := h.nodup t
  rw [hheld, List.nodup_cons] at hnodup
  refine ⟨fun u => ?_, fun u => ?_, fun u l' => ?_, h.data⟩
  · by_cases hu : u = t
    case pos =>
      subst hu
      simpa using hleads
    case neg => simpa [hu] using h.leads u
  · by_cases hu : u = t
    case pos =>
      subst hu
      simpa using hnodup.2
    case neg => simpa [hu] using h.nodup u
  · have hold := h.owner_iff u l'
    by_cases hl : l' = l
    case pos =>
      subst hl
      have hmine : s.owner l' = some t := (h.owner_iff t l').mpr (by simp [hheld])
      by_cases hu : u = t
      case pos =>
        subst hu
        simpa using hnodup.1
      case neg =>
        rw [hmine] at hold
        simpa [hu, Ne.symm hu] using hold
    case neg =>
      by_cases hu : u = t
      case pos =>
        subst hu
        simpa [hl, hheld] using hold
      case neg => simpa [hl, hu] using hold

theorem Orderly.step (hexec : Ordered R fits ok J exec) {held : T → List L}
    (h : Orderly R fits J s held) {a : ThreadAction I C T} (ha : Begins ok a)
    (hstep : s.step exec a = .ok ((), s')) : ∃ held', Orderly R fits J s' held' := by
  cases a with
  | begin t instr =>
      have hleads := h.leads t
      rw [Threads.step] at hstep
      split at hstep
      case h_2 => cases hstep
      case h_1 hidle =>
        cases hstep
        rw [hidle, Leads] at hleads
        refine ⟨held, h.resumed h.data (fun _ _ => id) (fun _ _ => id) ⟨?_, hleads⟩⟩
        rw [hleads]
        exact hexec.begins instr s.data ha h.data
  | step t choice =>
      have hleads := h.leads t
      rw [Threads.step] at hstep
      split at hstep
      case h_1 => cases hstep
      case h_2 l rest htodo =>
        rw [htodo] at hleads
        split at hstep
        case h_1 => cases hstep
        case h_2 hfree =>
          cases hstep
          exact ⟨_, h.acquired hfree hleads.2⟩
      case h_3 l rest htodo =>
        cases hstep
        rw [htodo] at hleads
        obtain ⟨below, hheld, hrest⟩ := hleads
        exact ⟨_, h.released hheld hrest⟩
      case h_4 i rest htodo =>
        cases hstep
        rw [htodo] at hleads
        obtain ⟨hfits, hrest⟩ := hleads
        have hR := hexec.order_mono choice i s.data
        have hmono := hexec.fits_mono choice i s.data
        have hin := hexec.leads choice i s.data (held t) h.data hfits
        exact ⟨held, h.resumed (hexec.keeps choice i s.data (held t) h.data hfits) hR hmono
          (hin.append (hrest.mono hR hmono))⟩

inductive Reached (exec : C → I → σ → List (LockInstr L I) × σ) (ok : I → Prop) (data : σ) :
    Threads σ L I T → Prop
  | start : Reached exec ok data (start data)
  | step {s s' : Threads σ L I T} {a : ThreadAction I C T} (h : Reached exec ok data s)
      (ha : Begins ok a) (hstep : s.step exec a = .ok ((), s')) : Reached exec ok data s'

theorem Reached.orderly (hexec : Ordered R fits ok J exec) {data : σ} (hdata : J data)
    (h : Reached exec ok data s) : ∃ held, Orderly R fits J s held := by
  induction h with
  | start => exact ⟨_, start_orderly hdata⟩
  | step _ ha hstep ih =>
      obtain ⟨held, horderly⟩ := ih
      exact horderly.step hexec ha hstep

section Step

variable {data : σ} {t : T} {l : L} {rest : List (LockInstr L I)}

theorem Reached.begin (h : Reached exec ok data s) (hidle : s.todo t = []) {i : I} (hok : ok i) :
    ∃ s', Reached exec ok data s' ∧ s'.data = s.data ∧ s'.owner = s.owner ∧
      s'.todo = Function.update s.todo t [.call i] :=
  ⟨_, .step h (a := .begin t i) hok (step_begin hidle), rfl, rfl, rfl⟩

theorem Reached.acquire [Nonempty C] (h : Reached exec ok data s)
    (htodo : s.todo t = .acquire l :: rest) (hfree : s.owner l = none) :
    ∃ s', Reached exec ok data s' ∧ s'.data = s.data ∧
      s'.owner = Function.update s.owner l (some t) ∧
      s'.todo = Function.update s.todo t rest := by
  obtain ⟨choice⟩ := ‹Nonempty C›
  exact ⟨_, .step h (a := .step t choice) trivial (step_acquire htodo hfree), rfl, rfl, rfl⟩

theorem Reached.release [Nonempty C] (h : Reached exec ok data s)
    (htodo : s.todo t = .release l :: rest) :
    ∃ s', Reached exec ok data s' ∧ s'.data = s.data ∧
      s'.owner = Function.update s.owner l none ∧
      s'.todo = Function.update s.todo t rest := by
  obtain ⟨choice⟩ := ‹Nonempty C›
  exact ⟨_, .step h (a := .step t choice) trivial (step_release htodo), rfl, rfl, rfl⟩

theorem Reached.call (choice : C) (h : Reached exec ok data s) {i : I}
    (htodo : s.todo t = .call i :: rest) :
    ∃ s', Reached exec ok data s' ∧ s'.data = (exec choice i s.data).2 ∧ s'.owner = s.owner ∧
      s'.todo = Function.update s.todo t ((exec choice i s.data).1 ++ rest) :=
  ⟨_, .step h (a := .step t choice) trivial (step_call htodo), rfl, rfl, rfl⟩

/-- A thread comes to the end of a critical section in which only data is touched. -/
theorem Reached.locked_call (choice : C) (h : Reached exec ok data s) {i : I}
    (htodo : s.todo t = locked l i ++ rest) (hfree : s.owner l = none)
    (hdata : (exec choice i s.data).1 = []) :
    ∃ s', Reached exec ok data s' ∧ s'.data = (exec choice i s.data).2 ∧ s'.owner = s.owner ∧
      s'.todo = Function.update s.todo t rest := by
  have : Nonempty C := ⟨choice⟩
  obtain ⟨s₁, h₁, hdata₁, howner₁, htodo₁⟩ := h.acquire htodo hfree
  obtain ⟨s₂, h₂, hdata₂, howner₂, htodo₂⟩ :=
    h₁.call choice (by rw [htodo₁, Function.update_self]; rfl)
  rw [hdata₁, hdata, List.nil_append, htodo₁, Function.update_idem] at htodo₂
  obtain ⟨s₃, h₃, hdata₃, howner₃, htodo₃⟩ :=
    h₂.release (by rw [htodo₂, Function.update_self]; rfl)
  refine ⟨s₃, h₃, by rw [hdata₃, hdata₂, hdata₁], ?_, ?_⟩
  · rw [howner₃, howner₂, howner₁, Function.update_idem, ← hfree, Function.update_eq_self]
  · rw [htodo₃, htodo₂, Function.update_idem]
    rfl

end Step

/-! ### Deadlocks -/

omit [DecidableEq L] [DecidableEq T] in
theorem wants_eq_some {t : T} {l : L} :
    s.wants t = some l ↔ ∃ rest, s.todo t = .acquire l :: rest := by
  rw [wants]
  split
  case h_1 l' rest heq => simp [heq]
  case h_2 hnot => simpa using fun rest heq => hnot l rest heq

omit [DecidableEq L] [DecidableEq T] in
/-- Finitely many threads are deadlocked exactly when a thread waits for itself, directly or through
others. -/
theorem deadlocked_iff_cycle [Finite T] : s.Deadlocked ↔ ∃ t, TransGen s.Waits t t := by
  constructor
  · rintro ⟨D, hD, htotal⟩
    exact exists_cycle_of_total hD htotal
  · rintro ⟨t, hcycle⟩
    refine ⟨{u | TransGen s.Waits u u}, ⟨t, hcycle⟩, fun u hu => ?_⟩
    obtain ⟨w, huw, hwu⟩ := TransGen.head'_iff.mp hu
    refine ⟨w, ?_, huw⟩
    exact TransGen.tail' hwu huw

omit [DecidableEq L] [DecidableEq T] in
theorem Orderly.lt_of_waits {held : T → List L} (h : Orderly R fits J s held) {t u : T}
    (hwaits : TransGen s.Waits t u) {l' : L} (hwants : s.wants u = some l') :
    ∃ l, s.wants t = some l ∧ TransGen (R s.data) l l' := by
  have hbefore : ∀ {t u : T} {l l' : L}, s.wants t = some l → s.owner l = some u →
      s.wants u = some l' → R s.data l l' := by
    intro t u l l' _ howner hwants
    obtain ⟨rest, htodo⟩ := wants_eq_some.mp hwants
    have hleads := h.leads u
    rw [htodo] at hleads
    exact hleads.1 l ((h.owner_iff u l).mp howner)
  induction hwaits generalizing l' with
  | single hwait =>
      obtain ⟨l, hl, howner⟩ := hwait
      exact ⟨l, hl, .single (hbefore hl howner hwants)⟩
  | tail _ hwait ih =>
      obtain ⟨m, hm, howner⟩ := hwait
      obtain ⟨l, hl, hlm⟩ := ih hm
      exact ⟨l, hl, hlm.tail (hbefore hm howner hwants)⟩

omit [DecidableEq L] [DecidableEq T] in
theorem Orderly.not_deadlocked [Finite T] (hR : ∀ l, ¬ TransGen (R s.data) l l)
    {held : T → List L} (h : Orderly R fits J s held) : ¬ s.Deadlocked := by
  rw [deadlocked_iff_cycle]
  rintro ⟨t, hcycle⟩
  obtain ⟨u, ⟨l, hl, -⟩, -⟩ := TransGen.head'_iff.mp hcycle
  obtain ⟨l', hl', hlt⟩ := h.lt_of_waits hcycle hl
  rw [hl] at hl'
  cases hl'
  exact hR l hlt

theorem Reached.not_deadlocked [Finite T] (hexec : Ordered R fits ok J exec)
    (hR : ∀ data, J data → ∀ l, ¬ TransGen (R data) l l) {data : σ} (hdata : J data)
    (h : Reached exec ok data s) : ¬ s.Deadlocked := by
  obtain ⟨held, horderly⟩ := h.orderly hexec hdata
  exact horderly.not_deadlocked (hR s.data horderly.data)

/-- Where nobody is deadlocked someone can go on, unless all threads are idle. -/
theorem Orderly.exists_step [Finite T] [Nonempty C] (hR : ∀ l, ¬ TransGen (R s.data) l l)
    {held : T → List L} (h : Orderly R fits J s held) (hbusy : ∃ t, s.todo t ≠ []) :
    ∃ t choice s', s.step exec (.step t choice) = .ok ((), s') := by
  by_contra hstuck
  have hwait : ∀ t, s.todo t ≠ [] → ∃ u, s.todo u ≠ [] ∧ s.Waits t u := by
    intro t ht
    have hno : ∀ choice s', s.step exec (.step t choice) ≠ .ok ((), s') :=
      fun choice s' hok => hstuck ⟨t, choice, s', hok⟩
    obtain ⟨choice⟩ := ‹Nonempty C›
    cases htodo : s.todo t with
    | nil => exact absurd htodo ht
    | cons instr rest =>
        cases instr with
        | release l => exact absurd (step_release htodo) (hno choice _)
        | call i => exact absurd (step_call htodo) (hno choice _)
        | acquire l =>
            cases howner : s.owner l with
            | none => exact absurd (step_acquire htodo howner) (hno choice _)
            | some u =>
                refine ⟨u, fun hidle => ?_, l, wants_eq_some.mpr ⟨rest, htodo⟩, howner⟩
                have hleads := h.leads u
                rw [hidle, Leads] at hleads
                have hmem := (h.owner_iff u l).mp howner
                rw [hleads] at hmem
                cases hmem
  exact h.not_deadlocked hR ⟨{t | s.todo t ≠ []}, hbusy, hwait⟩

end Threads

end LpNet.LockOrder
