import Mathlib.Data.List.Forall2

/-!
Runs of a machine that may fault.

A machine is a step function `σ → α → Except ε (β × σ)`: on an action it
answers an observation and a new state, or it faults. `run` performs a list of
actions and collects the observations, stopping at the first fault. `Along` says
that every action of a run meets a condition in the state it is taken from.

`foldl_of_foldlM` is the rule for a loop over a list that may fault.

`Reaches` and `ReachesBy` say that some run leads from a state to another one, the second with
actions that meet a condition; `Reaches.goal` and `ReachesBy.goal` are the rules for progress.

The rules for runs: `inv_of_run` is the invariant rule, for a step condition as well as
for an invariant, and `run_total` the one for a machine that never faults on the
way; `run_related_of_simulation` and `run_eq_of_simulation` compare two machines;
`AlongStates` is the safety property of all states of a run, and `along_iff_along`
exchanges a condition for another. Seven rules
characterize the runs on which a property holds: `run_ne_error_iff` and
`answers_agree_iff`, where a bad action faults, `answers_eq_iff`, where it is answered differently,
`alongStates_iff_along`, where it leads to a bad state, `right_iff_along`, where it
goes wrong or leads to a bad state, `holds_iff_along`, where it loses something
for good, and `alongForks_iff_along`, where something bad can follow.
-/

namespace LpNet.Transition

universe u v w

/-! ### Binding a computation that may fault -/

section Bind

variable {ε : Type v} {α β : Type u}

@[simp] theorem ok_bind (a : α) (f : α → Except ε β) : (Except.ok a >>= f) = f a := rfl

@[simp] theorem error_bind (e : ε) (f : α → Except ε β) :
    ((Except.error e : Except ε α) >>= f) = Except.error e := rfl

theorem bind_eq_ok {x : Except ε α} {f : α → Except ε β} {b : β} :
    (x >>= f) = Except.ok b ↔ ∃ a, x = Except.ok a ∧ f a = Except.ok b := by
  cases x with
  | ok a => simp
  | error e => simp

theorem bind_ne_error {x : Except ε α} {f : α → Except ε β} {e : ε} (hx : x ≠ .error e)
    (hf : ∀ a, x = .ok a → f a ≠ .error e) : (x >>= f) ≠ .error e := by
  cases x with
  | ok a => exact hf a rfl
  | error e' => exact fun heq => hx (Except.error.inj heq ▸ rfl)

theorem toOption_eq_some {x : Except ε α} {a : α} : x.toOption = some a ↔ x = .ok a := by
  cases x with
  | ok a' => simp [Except.toOption]
  | error e => simp [Except.toOption]

end Bind

variable {σ τ β : Type u} {ε : Type v} {α : Type w}

/-! ### A fold that may fault -/

section Fold

variable {γ : Type*} {f : σ → α → Except ε σ} {s t : σ} {as : List α}

/-- What every round tells of its element holds of all elements. -/
theorem forall_of_foldlM {P : α → Prop} (hround : ∀ s a t, f s a = .ok t → P a)
    (hok : as.foldlM f s = .ok t) : ∀ a ∈ as, P a := by
  induction as generalizing s with
  | nil => exact fun a ha => by cases ha
  | cons a as ih =>
      rw [List.foldlM_cons, bind_eq_ok] at hok
      obtain ⟨mid, hfirst, hrest⟩ := hok
      exact List.forall_mem_cons.mpr ⟨hround s a mid hfirst, ih hrest⟩

/-- A part of the state that every round changes by `k` is folded by `k`. -/
theorem foldl_of_foldlM {g : σ → γ} {k : γ → α → γ}
    (hround : ∀ s a t, f s a = .ok t → g t = k (g s) a) (hok : as.foldlM f s = .ok t) :
    g t = as.foldl k (g s) := by
  induction as generalizing s with
  | nil =>
      cases hok
      rfl
  | cons a as ih =>
      rw [List.foldlM_cons, bind_eq_ok] at hok
      obtain ⟨mid, hfirst, hrest⟩ := hok
      rw [ih hrest, hround s a mid hfirst, List.foldl_cons]

end Fold

/-! ### Runs -/

/-- Perform the actions in order, collecting what they answer. -/
def run (step : σ → α → Except ε (β × σ)) : σ → List α → Except ε (List β × σ)
  | s, [] => .ok ([], s)
  | s, a :: as => do
      let (b, s') ← step s a
      let (bs, t) ← run step s' as
      .ok (b :: bs, t)

/-- Every action of the run meets `P` in the state it is taken from. -/
def Along (step : σ → α → Except ε (β × σ)) (P : σ → α → Prop) : σ → List α → Prop
  | _, [] => True
  | s, a :: as => P s a ∧ ∀ b s', step s a = .ok (b, s') → Along step P s' as

/-- Every state of the run, the first one included, meets `Q`. -/
def AlongStates (step : σ → α → Except ε (β × σ)) (Q : σ → Prop) : σ → List α → Prop
  | s, [] => Q s
  | s, a :: as => Q s ∧ ∀ b s', step s a = .ok (b, s') → AlongStates step Q s' as

variable {step : σ → α → Except ε (β × σ)}

@[simp] theorem run_nil (s : σ) : run step s [] = .ok ([], s) := rfl

theorem run_cons_ok {s s' : σ} {a : α} {b : β} (as : List α) (h : step s a = .ok (b, s')) :
    run step s (a :: as) = (run step s' as).map fun r => (b :: r.1, r.2) := by
  rw [run, h, ok_bind]
  dsimp only
  cases run step s' as <;> rfl

theorem run_cons_error {s : σ} {a : α} {e : ε} (as : List α) (h : step s a = .error e) :
    run step s (a :: as) = .error e := by
  rw [run, h, error_bind]

theorem run_cons_eq_ok {s t : σ} {a : α} {as : List α} {bs : List β}
    (h : run step s (a :: as) = .ok (bs, t)) :
    ∃ b bs' s', step s a = .ok (b, s') ∧ run step s' as = .ok (bs', t) ∧ bs = b :: bs' := by
  rw [run, bind_eq_ok] at h
  obtain ⟨⟨b, s'⟩, hstep, h⟩ := h
  rw [bind_eq_ok] at h
  obtain ⟨⟨bs', t'⟩, hrun, h⟩ := h
  injection h with h
  obtain ⟨rfl, rfl⟩ := Prod.mk.inj h
  exact ⟨b, bs', s', hstep, hrun, rfl⟩

/-- A run in two parts that succeeds is a run of the first that succeeds and then one of the
other. -/
theorem run_append_eq_ok {s t : σ} {as as' : List α} {bs : List β}
    (h : run step s (as ++ as') = .ok (bs, t)) :
    ∃ bs₁ bs₂ mid, run step s as = .ok (bs₁, mid) ∧ run step mid as' = .ok (bs₂, t) := by
  induction as generalizing s bs with
  | nil => exact ⟨[], bs, s, rfl, h⟩
  | cons a as ih =>
      obtain ⟨b, bs', s', hstep, hrest, -⟩ := run_cons_eq_ok h
      obtain ⟨bs₁, bs₂, mid, hrun₁, hrun₂⟩ := ih hrest
      refine ⟨b :: bs₁, bs₂, mid, ?_, hrun₂⟩
      rw [run_cons_ok as hstep, hrun₁]
      rfl

def Reaches (step : σ → α → Except ε (β × σ)) (s t : σ) : Prop :=
  ∃ as bs, run step s as = .ok (bs, t)

theorem Reaches.refl (s : σ) : Reaches step s s := ⟨[], [], rfl⟩

theorem Reaches.head {s s' t : σ} {a : α} {b : β} (h : step s a = .ok (b, s'))
    (hrest : Reaches step s' t) : Reaches step s t := by
  obtain ⟨as, bs, hrun⟩ := hrest
  refine ⟨a :: as, b :: bs, ?_⟩
  rw [run_cons_ok as h, hrun]
  rfl

theorem Reaches.single {s t : σ} {a : α} {b : β} (h : step s a = .ok (b, t)) : Reaches step s t :=
  .head h (.refl t)

theorem Reaches.trans {s t u : σ} (hst : Reaches step s t) (htu : Reaches step t u) :
    Reaches step s u := by
  obtain ⟨as, bs, hrun⟩ := hst
  induction as generalizing s bs with
  | nil =>
      injection hrun with hrun
      obtain ⟨-, rfl⟩ := Prod.mk.inj hrun
      exact htu
  | cons a as ih =>
      obtain ⟨b, bs', s', ha, hrest, -⟩ := run_cons_eq_ok hrun
      exact .head ha (ih bs' hrest)

@[simp] theorem along_nil (P : σ → α → Prop) (s : σ) : Along step P s [] := trivial

theorem along_cons_ok {P : σ → α → Prop} {s s' : σ} {a : α} {b : β} {as : List α}
    (h : step s a = .ok (b, s')) :
    Along step P s (a :: as) ↔ P s a ∧ Along step P s' as := by
  constructor
  · rintro ⟨hP, hrest⟩
    exact ⟨hP, hrest b s' h⟩
  · rintro ⟨hP, hrest⟩
    refine ⟨hP, fun b' t ht => ?_⟩
    rw [h] at ht
    injection ht with ht
    obtain ⟨rfl, rfl⟩ := Prod.mk.inj ht
    exact hrest

instance decidableAlong (P : σ → α → Prop) [∀ s a, Decidable (P s a)] (s : σ) (as : List α) :
    Decidable (Along step P s as) :=
  match as with
  | [] => .isTrue trivial
  | a :: as =>
      match h : step s a with
      | .ok (_, s') =>
          have := decidableAlong P s' as
          decidable_of_iff _ (along_cons_ok h).symm
      | .error _ =>
          decidable_of_iff (P s a)
            ⟨fun hP => ⟨hP, fun _ _ hok => by rw [h] at hok; cases hok⟩, fun hA => hA.1⟩

/-- A condition on the actions alone is met along every run of them. -/
theorem along_of_forall_mem {P : α → Prop} {s : σ} {as : List α} (h : ∀ a ∈ as, P a) :
    Along step (fun _ a => P a) s as := by
  induction as generalizing s with
  | nil => trivial
  | cons a as ih =>
      refine ⟨h a (by simp), fun b s' _ => ?_⟩
      exact ih fun a' ha' => h a' (by simp [ha'])

/-- Two conditions that agree where an invariant holds are met along the same runs, if the
invariant is kept as long as they are met. -/
theorem along_iff_of_good {I : σ → Prop} {V P Q : σ → α → Prop} {s : σ} {as : List α}
    (hkeep : ∀ s a b s', I s → V s a → Q s a → step s a = .ok (b, s') → I s')
    (hiff : ∀ s a, I s → V s a → (P s a ↔ Q s a)) (hs : I s) (hV : Along step V s as) :
    Along step P s as ↔ Along step Q s as := by
  induction as generalizing s with
  | nil => exact Iff.rfl
  | cons a as ih =>
      have hrest : Q s a → ∀ b s', step s a = .ok (b, s') →
          (Along step P s' as ↔ Along step Q s' as) := fun hQ b s' ha =>
        ih (hkeep s a b s' hs hV.1 hQ ha) (hV.2 b s' ha)
      rw [Along, Along, hiff s a hs hV.1]
      exact and_congr_right fun hQ =>
        forall_congr' fun b => forall_congr' fun s' => forall_congr' fun ha => hrest hQ b s' ha

/-- Two conditions that agree where an invariant holds are met along the same runs. -/
theorem along_iff_along {I : σ → Prop} {V P Q : σ → α → Prop} {s : σ} {as : List α}
    (hkeep : ∀ s a b s', I s → V s a → step s a = .ok (b, s') → I s')
    (hiff : ∀ s a, I s → V s a → (P s a ↔ Q s a)) (hs : I s) (hV : Along step V s as) :
    Along step P s as ↔ Along step Q s as :=
  along_iff_of_good (fun s a b s' hs hV _ => hkeep s a b s' hs hV) hiff hs hV

theorem alongStates_cons_ok {Q : σ → Prop} {s s' : σ} {a : α} {b : β} {as : List α}
    (h : step s a = .ok (b, s')) :
    AlongStates step Q s (a :: as) ↔ Q s ∧ AlongStates step Q s' as := by
  constructor
  · rintro ⟨hQ, hrest⟩
    exact ⟨hQ, hrest b s' h⟩
  · rintro ⟨hQ, hrest⟩
    refine ⟨hQ, fun b' t ht => ?_⟩
    rw [h] at ht
    injection ht with ht
    obtain ⟨rfl, rfl⟩ := Prod.mk.inj ht
    exact hrest

instance decidableAlongStates (Q : σ → Prop) [∀ s, Decidable (Q s)] (s : σ) (as : List α) :
    Decidable (AlongStates step Q s as) :=
  match as with
  | [] => inferInstanceAs (Decidable (Q s))
  | a :: as =>
      match h : step s a with
      | .ok (_, s') =>
          have := decidableAlongStates Q s' as
          decidable_of_iff _ (alongStates_cons_ok h).symm
      | .error _ =>
          decidable_of_iff (Q s)
            ⟨fun hQ => ⟨hQ, fun _ _ hok => by rw [h] at hok; cases hok⟩, fun hA => hA.1⟩

theorem AlongStates.head {Q : σ → Prop} {s : σ} {as : List α} (h : AlongStates step Q s as) :
    Q s := by
  cases as with
  | nil => exact h
  | cons a as => exact h.1

theorem AlongStates.mono {Q R : σ → Prop} {s : σ} {as : List α} (h : AlongStates step Q s as)
    (hQR : ∀ s, Q s → R s) : AlongStates step R s as := by
  induction as generalizing s with
  | nil => exact hQR s h
  | cons a as ih => exact ⟨hQR s h.1, fun b s' ha => ih (h.2 b s' ha)⟩

theorem AlongStates.last {Q : σ → Prop} {s t : σ} {as : List α} {bs : List β}
    (h : AlongStates step Q s as) (hrun : run step s as = .ok (bs, t)) : Q t := by
  induction as generalizing s bs with
  | nil =>
      cases hrun
      exact h
  | cons a as ih =>
      obtain ⟨b, bs', s', ha, hrest, -⟩ := run_cons_eq_ok hrun
      exact ih (h.2 b s' ha) hrest

/-- The invariant rule: what every allowed step keeps holds at the end of a run. -/
theorem inv_of_run {I : σ → Prop} {P : σ → α → Prop} {s t : σ} {as : List α} {bs : List β}
    (hstep : ∀ s a b s', I s → P s a → step s a = .ok (b, s') → I s')
    (hs : I s) (hP : Along step P s as) (hrun : run step s as = .ok (bs, t)) : I t := by
  induction as generalizing s bs with
  | nil =>
      injection hrun with hrun
      obtain ⟨-, rfl⟩ := Prod.mk.inj hrun
      exact hs
  | cons a as ih =>
      obtain ⟨b, bs', s', ha, hrest, -⟩ := run_cons_eq_ok hrun
      rw [along_cons_ok ha] at hP
      exact ih (hstep s a b s' hs hP.1 ha) hP.2 hrest

theorem Reaches.inv {I : σ → Prop} {s t : σ}
    (hstep : ∀ s a b s', I s → step s a = .ok (b, s') → I s') (hs : I s)
    (h : Reaches step s t) : I t := by
  obtain ⟨as, bs, hrun⟩ := h
  have hfree : Along step (fun _ _ => True) s as := along_of_forall_mem fun _ _ => trivial
  exact inv_of_run (fun s a b s' hI _ ha => hstep s a b s' hI ha) hs hfree hrun

/-- The progress rule: a goal is reached where every state with the invariant that is none has
a step that keeps the invariant and decreases. -/
theorem Reaches.goal {I G : σ → Prop} {ω : Type*} {r : ω → ω → Prop} {μ : σ → ω}
    (hwf : WellFounded r)
    (hstep : ∀ s, I s → ¬ G s → ∃ a b s', step s a = .ok (b, s') ∧ I s' ∧ r (μ s') (μ s))
    {s : σ} (hs : I s) : ∃ t, Reaches step s t ∧ I t ∧ G t := by
  induction hm : μ s using hwf.induction generalizing s with
  | _ m ih =>
      by_cases hG : G s
      case pos => exact ⟨s, .refl s, hs, hG⟩
      case neg =>
        obtain ⟨a, b, s', ha, hs', hlt⟩ := hstep s hs hG
        obtain ⟨t, hreach, ht⟩ := ih (μ s') (hm ▸ hlt) hs' rfl
        exact ⟨t, .head ha hreach, ht⟩

/-- Some run leads from one state to the other, with actions that meet `P` where they are taken. -/
def ReachesBy (step : σ → α → Except ε (β × σ)) (P : σ → α → Prop) (s t : σ) : Prop :=
  ∃ as bs, Along step P s as ∧ run step s as = .ok (bs, t)

section ReachesBy

variable {P : σ → α → Prop}

theorem ReachesBy.refl (s : σ) : ReachesBy step P s s := ⟨[], [], trivial, rfl⟩

theorem ReachesBy.head {s s' t : σ} {a : α} {b : β} (h : step s a = .ok (b, s')) (hP : P s a)
    (hrest : ReachesBy step P s' t) : ReachesBy step P s t := by
  obtain ⟨as, bs, halong, hrun⟩ := hrest
  refine ⟨a :: as, b :: bs, (along_cons_ok h).mpr ⟨hP, halong⟩, ?_⟩
  rw [run_cons_ok as h, hrun]
  rfl

theorem ReachesBy.trans {s t u : σ} (hst : ReachesBy step P s t) (htu : ReachesBy step P t u) :
    ReachesBy step P s u := by
  obtain ⟨as, bs, halong, hrun⟩ := hst
  induction as generalizing s bs with
  | nil =>
      cases hrun
      exact htu
  | cons a as ih =>
      obtain ⟨b, bs', s', ha, hrest, -⟩ := run_cons_eq_ok hrun
      rw [along_cons_ok ha] at halong
      exact .head ha halong.1 (ih bs' halong.2 hrest)

theorem ReachesBy.inv {I : σ → Prop} {s t : σ}
    (hstep : ∀ s a b s', I s → P s a → step s a = .ok (b, s') → I s') (hs : I s)
    (h : ReachesBy step P s t) : I t := by
  obtain ⟨as, bs, halong, hrun⟩ := h
  exact inv_of_run hstep hs halong hrun

/-- The progress rule for actions that meet `P`. -/
theorem ReachesBy.goal {I G : σ → Prop} {ω : Type*} {r : ω → ω → Prop} {μ : σ → ω}
    (hwf : WellFounded r)
    (hstep : ∀ s, I s → ¬ G s →
      ∃ a b s', step s a = .ok (b, s') ∧ P s a ∧ I s' ∧ r (μ s') (μ s))
    {s : σ} (hs : I s) : ∃ t, ReachesBy step P s t ∧ I t ∧ G t := by
  induction hm : μ s using hwf.induction generalizing s with
  | _ m ih =>
      by_cases hG : G s
      case pos => exact ⟨s, .refl s, hs, hG⟩
      case neg =>
        obtain ⟨a, b, s', ha, hP, hs', hlt⟩ := hstep s hs hG
        obtain ⟨t, hreach, ht⟩ := ih (μ s') (hm ▸ hlt) hs' rfl
        exact ⟨t, .head ha hP hreach, ht⟩

end ReachesBy

/-- What every allowed step keeps holds in all states of a run. -/
theorem alongStates_of_along {I Q : σ → Prop} {P : σ → α → Prop} {s : σ} {as : List α}
    (hstep : ∀ s a b s', I s → P s a → step s a = .ok (b, s') → I s')
    (hQ : ∀ s, I s → Q s) (hs : I s) (hP : Along step P s as) : AlongStates step Q s as := by
  induction as generalizing s with
  | nil => exact hQ s hs
  | cons a as ih =>
      exact ⟨hQ s hs, fun b s' ha => ih (hstep s a b s' hs hP.1 ha) (hP.2 b s' ha)⟩

/-- Good actions keep the invariant, which implies `Q`, and a bad one leads to a state without
`Q`: all states of a run meet `Q` exactly when all its actions are good. -/
theorem alongStates_iff_along {I Q : σ → Prop} {V P : σ → α → Prop} {s : σ} {as : List α}
    (hgood : ∀ s a b s', I s → V s a → P s a → step s a = .ok (b, s') → I s')
    (hbad : ∀ s a, I s → V s a → ¬ P s a → ∃ b s', step s a = .ok (b, s') ∧ ¬ Q s')
    (hQ : ∀ s, I s → Q s) (hs : I s) (hV : Along step V s as) :
    AlongStates step Q s as ↔ Along step P s as := by
  induction as generalizing s with
  | nil => exact iff_of_true (hQ s hs) trivial
  | cons a as ih =>
      by_cases hP : P s a
      case pos =>
        have hrest : ∀ b s', step s a = .ok (b, s') →
            (AlongStates step Q s' as ↔ Along step P s' as) := fun b s' ha =>
          ih (hgood s a b s' hs hV.1 hP ha) (hV.2 b s' ha)
        constructor
        · rintro ⟨-, hstates⟩
          exact ⟨hP, fun b s' ha => (hrest b s' ha).mp (hstates b s' ha)⟩
        · rintro ⟨-, halong⟩
          exact ⟨hQ s hs, fun b s' ha => (hrest b s' ha).mpr (halong b s' ha)⟩
      case neg =>
        obtain ⟨b, s', ha, hnot⟩ := hbad s a hs hV.1 hP
        exact iff_of_false (fun hstates => hnot (hstates.2 b s' ha).head) fun halong => hP halong.1

/-- Good actions go right and keep the invariant, which implies `Q`, and a bad one goes wrong or
leads to a state without `Q`: a run is right in all its states and steps exactly when all its
actions are good. -/
theorem right_iff_along {I Q : σ → Prop} {P R : σ → α → Prop} {s : σ} {as : List α}
    (hgood : ∀ s a b s', I s → P s a → step s a = .ok (b, s') → I s')
    (hright : ∀ s a, I s → P s a → R s a)
    (hbad : ∀ s a, I s → ¬ P s a → ¬ R s a ∨ ∃ b s', step s a = .ok (b, s') ∧ ¬ Q s')
    (hQ : ∀ s, I s → Q s) (hs : I s) :
    AlongStates step Q s as ∧ Along step R s as ↔ Along step P s as := by
  induction as generalizing s with
  | nil => exact iff_of_true ⟨hQ s hs, trivial⟩ trivial
  | cons a as ih =>
      constructor
      · rintro ⟨hstates, hsteps⟩
        have hP : P s a := by
          by_contra hP
          rcases hbad s a hs hP with hwrong | ⟨b, s', ha, hnot⟩
          · exact hwrong hsteps.1
          · exact hnot (hstates.2 b s' ha).head
        refine ⟨hP, fun b s' ha => (ih (hgood s a b s' hs hP ha)).mp ?_⟩
        exact ⟨hstates.2 b s' ha, hsteps.2 b s' ha⟩
      · rintro ⟨hP, halong⟩
        have hrest : ∀ b s', step s a = .ok (b, s') →
            AlongStates step Q s' as ∧ Along step R s' as := fun b s' ha =>
          (ih (hgood s a b s' hs hP ha)).mpr (halong b s' ha)
        exact ⟨⟨hQ s hs, fun b s' ha => (hrest b s' ha).1⟩, hright s a hs hP,
          fun b s' ha => (hrest b s' ha).2⟩

/-- Two machines related by `R`, whose steps answer what `A` relates and keep `R` where the
actions meet the condition of each, have runs with related answers that end related. -/
theorem run_related_of_simulation {γ : Type u} {stepB : τ → α → Except ε (γ × τ)}
    {R : σ → τ → Prop} {A : β → γ → Prop} {P : σ → α → Prop} {V : τ → α → Prop}
    {s : σ} {t : τ} {as : List α}
    (hstep : ∀ s t a, R s t → P s a → V t a →
      ∃ b c s' t', step s a = .ok (b, s') ∧ stepB t a = .ok (c, t') ∧ A b c ∧ R s' t')
    (hR : R s t) (hP : Along step P s as) (hV : Along stepB V t as) :
    ∃ bs cs s' t', run step s as = .ok (bs, s') ∧ run stepB t as = .ok (cs, t') ∧
      List.Forall₂ A bs cs ∧ R s' t' := by
  induction as generalizing s t with
  | nil => exact ⟨[], [], s, t, rfl, rfl, .nil, hR⟩
  | cons a as ih =>
      obtain ⟨b, c, s', t', ha, hb, hA, hR'⟩ := hstep s t a hR hP.1 hV.1
      obtain ⟨bs, cs, s'', t'', hs, ht, hAs, hR''⟩ := ih hR' (hP.2 b s' ha) (hV.2 c t' hb)
      refine ⟨b :: bs, c :: cs, s'', t'', ?_, ?_, .cons hA hAs, hR''⟩
      · rw [run_cons_ok _ ha, hs]
        rfl
      · rw [run_cons_ok _ hb, ht]
        rfl

theorem run_eq_of_simulation {stepB : τ → α → Except ε (β × τ)} {R : σ → τ → Prop}
    {P : σ → α → Prop} {V : τ → α → Prop} {s : σ} {t : τ} {as : List α}
    (hstep : ∀ s t a, R s t → P s a → V t a →
      ∃ b s' t', step s a = .ok (b, s') ∧ stepB t a = .ok (b, t') ∧ R s' t')
    (hR : R s t) (hP : Along step P s as) (hV : Along stepB V t as) :
    ∃ bs s' t', run step s as = .ok (bs, s') ∧ run stepB t as = .ok (bs, t') ∧ R s' t' := by
  have hstep' : ∀ s t a, R s t → P s a → V t a →
      ∃ b c s' t', step s a = .ok (b, s') ∧ stepB t a = .ok (c, t') ∧ b = c ∧ R s' t' := by
    intro s t a hR hP hV
    obtain ⟨b, s', t', hs, ht, hR'⟩ := hstep s t a hR hP hV
    exact ⟨b, b, s', t', hs, ht, rfl, hR'⟩
  obtain ⟨bs, cs, s', t', hs, ht, hAs, hR'⟩ := run_related_of_simulation hstep' hR hP hV
  rw [List.forall₂_eq_eq_eq] at hAs
  subst hAs
  exact ⟨bs, s', t', hs, ht, hR'⟩

/-- Two machines related by `R` that answer alike on a good action, faults included, and of
which the first faults with `bad` on any other: they agree on a run, and the first does not
fault with `bad`, exactly when every action of the run is good. -/
theorem answers_agree_iff {stepB : τ → α → Except ε (β × τ)} {R : σ → τ → Prop}
    {V : α → Prop} {P : σ → α → Prop} {bad : ε} {s : σ} {t : τ} {as : List α}
    (hgood : ∀ s t a, R s t → V a → P s a →
      (∃ b s' t', step s a = .ok (b, s') ∧ stepB t a = .ok (b, t') ∧ R s' t') ∨
        ∃ e, step s a = .error e ∧ stepB t a = .error e ∧ e ≠ bad)
    (hbad : ∀ s t a, R s t → V a → ¬ P s a → step s a = .error bad)
    (hR : R s t) (hV : ∀ a ∈ as, V a) :
    ((run step s as).map Prod.fst = (run stepB t as).map Prod.fst ∧
      run step s as ≠ .error bad) ↔ Along step P s as := by
  induction as generalizing s t with
  | nil => simp [Except.map]
  | cons a as ih =>
      have hVa : V a := hV a (by simp)
      have hVas : ∀ a' ∈ as, V a' := fun a' ha' => hV a' (by simp [ha'])
      by_cases hP : P s a
      case neg =>
        have hfault := run_cons_error as (hbad s t a hR hVa hP)
        constructor
        · rintro ⟨-, hne⟩
          exact absurd hfault hne
        · rintro ⟨hP', -⟩
          exact absurd hP' hP
      case pos =>
        rcases hgood s t a hR hVa hP with ⟨b, s', t', hs, ht, hR'⟩ | ⟨e, hs, ht, hne⟩
        · rw [along_cons_ok hs, ← ih hR' hVas, run_cons_ok as hs, run_cons_ok as ht]
          cases run step s' as <;> cases run stepB t' as <;> simp [Except.map, hP]
        · rw [run_cons_error as hs, run_cons_error as ht]
          refine iff_of_true ⟨rfl, by simpa using hne⟩ ⟨hP, fun b s' hok => ?_⟩
          rw [hs] at hok
          cases hok

/-- A machine that never faults from a state with the invariant runs to the end. -/
theorem run_total {I : σ → Prop} {P : σ → α → Prop} {s : σ} {as : List α}
    (hstep : ∀ s a, I s → P s a → ∃ b s', step s a = .ok (b, s') ∧ I s')
    (hs : I s) (hP : Along step P s as) : ∃ bs t, run step s as = .ok (bs, t) ∧ I t := by
  induction as generalizing s with
  | nil => exact ⟨[], s, rfl, hs⟩
  | cons a as ih =>
      obtain ⟨b, s', ha, hs'⟩ := hstep s a hs hP.1
      obtain ⟨bs, t, hrun, ht⟩ := ih hs' (hP.2 b s' ha)
      refine ⟨b :: bs, t, ?_, ht⟩
      rw [run_cons_ok as ha, hrun]
      rfl

/-- Two machines related by `R`, of which the second never faults: they answer a good action
alike and a bad one differently, so that they answer a run alike exactly when every action of
it is good. -/
theorem answers_eq_iff {stepB : τ → α → Except ε (β × τ)} {R : σ → τ → Prop}
    {P : τ → α → Prop} {s : σ} {t : τ} {as : List α}
    (htotal : ∀ t a, ∃ b t', stepB t a = .ok (b, t'))
    (hgood : ∀ s t a, R s t → P t a →
      ∃ b s' t', step s a = .ok (b, s') ∧ stepB t a = .ok (b, t') ∧ R s' t')
    (hbad : ∀ s t a, R s t → ¬ P t a →
      (step s a).map Prod.fst ≠ (stepB t a).map Prod.fst) (hR : R s t) :
    (run step s as).map Prod.fst = (run stepB t as).map Prod.fst ↔ Along stepB P t as := by
  induction as generalizing s t with
  | nil => exact iff_of_true rfl trivial
  | cons a as ih =>
      by_cases hP : P t a
      case pos =>
        obtain ⟨b, s', t', hs, ht, hR'⟩ := hgood s t a hR hP
        rw [along_cons_ok ht, ← ih hR', run_cons_ok as hs, run_cons_ok as ht]
        cases run step s' as <;> cases run stepB t' as <;> simp [Except.map, hP]
      case neg =>
        refine iff_of_false (fun heq => hbad s t a hR hP ?_) fun halong => hP halong.1
        obtain ⟨b, t', ht⟩ := htotal t a
        have hends : ∃ bs u, run stepB t' as = .ok (bs, u) ∧ True :=
          run_total (I := fun _ => True) (P := fun _ _ => True)
            (fun t a _ _ => (htotal t a).imp fun b h => h.imp fun u hu => ⟨hu, trivial⟩)
            trivial (along_of_forall_mem fun _ _ => trivial)
        obtain ⟨bs, u, hrest, -⟩ := hends
        rw [run_cons_ok as ht, hrest] at heq
        -- the second run ends, so the first did, and the answers to `a` head both lists
        cases hs : step s a with
        | error e =>
            rw [run_cons_error as hs] at heq
            cases heq
        | ok r =>
            rw [run_cons_ok as hs] at heq
            rw [ht]
            cases hr : run step r.2 as with
            | error e =>
                rw [hr] at heq
                cases heq
            | ok r' =>
                rw [hr] at heq
                simp only [Except.map, Except.ok.injEq, List.cons.injEq] at heq ⊢
                exact heq.1

theorem run_ne_error {I : σ → Prop} {e : ε} {s : σ}
    (hstep : ∀ s a, I s → step s a ≠ .error e)
    (hkeep : ∀ s a b s', I s → step s a = .ok (b, s') → I s') (hs : I s) (as : List α) :
    run step s as ≠ .error e := by
  induction as generalizing s with
  | nil => exact fun h => by cases h
  | cons a as ih =>
      rw [run]
      refine bind_ne_error (hstep s a hs) fun r hr => ?_
      refine bind_ne_error (ih (hkeep s a r.1 r.2 hs hr)) fun r' _ => ?_
      exact fun h => by cases h

/-- The actions that fault with `e` are the bad ones: a run does not fault with `e` exactly when
all its actions are good. -/
theorem run_ne_error_iff {P : σ → α → Prop} {e : ε}
    (hbad : ∀ s a, step s a = .error e ↔ ¬ P s a) (s : σ) (as : List α) :
    run step s as ≠ .error e ↔ Along step P s as := by
  induction as generalizing s with
  | nil => simp
  | cons a as ih =>
      cases hstep : step s a with
      | error e' =>
          rw [run_cons_error as hstep]
          have hP : ¬ P s a ↔ e' = e := by
            rw [← hbad, hstep]
            exact ⟨fun h => Except.error.inj h, fun h => by rw [h]⟩
          constructor
          · intro hne
            refine ⟨not_not.mp fun hnot => hne (by rw [hP.mp hnot]), fun b s' hok => ?_⟩
            rw [hstep] at hok
            cases hok
          · rintro ⟨hgood, -⟩ heq
            exact hP.mpr (Except.error.inj heq) hgood
      | ok r =>
          obtain ⟨b, s'⟩ := r
          have hP : P s a := not_not.mp fun hnot => by
            have herr := (hbad s a).mpr hnot
            rw [hstep] at herr
            cases herr
          rw [along_cons_ok hstep, ← ih, run_cons_ok as hstep]
          cases run step s' as <;> simp [Except.map, hP]

/-- Good actions keep `E`, a bad one leads to `L`, and `L` is never left: `Q`, which `E`
implies and `L` excludes, holds at the end exactly when every action was good. -/
theorem holds_iff_along {E L Q : σ → Prop} {V P : σ → α → Prop} {s t : σ} {as : List α}
    {bs : List β}
    (hgood : ∀ s a b s', E s → V s a → P s a → step s a = .ok (b, s') → E s')
    (hbad : ∀ s a b s', E s → V s a → ¬ P s a → step s a = .ok (b, s') → L s')
    (hlost : ∀ s a b s', L s → V s a → step s a = .ok (b, s') → L s')
    (hE : ∀ s, E s → Q s) (hL : ∀ s, L s → ¬ Q s)
    (hs : E s) (hV : Along step V s as) (hrun : run step s as = .ok (bs, t)) :
    Q t ↔ Along step P s as := by
  induction as generalizing s bs with
  | nil =>
      injection hrun with hrun
      obtain ⟨-, rfl⟩ := Prod.mk.inj hrun
      exact iff_of_true (hE _ hs) trivial
  | cons a as ih =>
      obtain ⟨b, bs', s', ha, hrest, -⟩ := run_cons_eq_ok hrun
      have hV' : Along step V s' as := hV.2 b s' ha
      rw [along_cons_ok ha]
      by_cases hP : P s a
      case pos =>
        rw [ih (hgood s a b s' hs hV.1 hP ha) hV' hrest]
        exact ⟨fun h => ⟨hP, h⟩, fun h => h.2⟩
      case neg =>
        have ht : L t := inv_of_run hlost (hbad s a b s' hs hV.1 hP ha) hV' hrest
        exact iff_of_false (hL t ht) fun h => hP h.1

/-- `Q` holds in all states of the run, and of every run that leaves it at some point and goes on
with actions of the kind `L`. -/
def AlongForks (step : σ → α → Except ε (β × σ)) (L : α → Prop) (Q : σ → Prop) (s : σ)
    (as : List α) : Prop :=
  ∀ before after, before <+: as → (∀ a ∈ after, L a) → AlongStates step Q s (before ++ after)

theorem AlongForks.tail {L : α → Prop} {Q : σ → Prop} {s s' : σ} {a : α} {b : β} {as : List α}
    (h : AlongForks step L Q s (a :: as)) (ha : step s a = .ok (b, s')) :
    AlongForks step L Q s' as := by
  intro before after hbefore hafter
  exact (h (a :: before) after (List.prefix_cons_inj a |>.mpr hbefore) hafter).2 b s' ha

/-- What the actions of a kind keep holds in all states of a run of them. -/
theorem alongStates_of_kind {I Q : σ → Prop} {L : α → Prop} {s : σ} {as : List α}
    (hstep : ∀ s a b s', I s → L a → step s a = .ok (b, s') → I s')
    (hQ : ∀ s, I s → Q s) (hs : I s) (hkind : ∀ a ∈ as, L a) : AlongStates step Q s as :=
  alongStates_of_along (P := fun _ a => L a) hstep hQ hs (along_of_forall_mem hkind)

/-- Good actions keep the invariant, which implies `Q` and is kept by the actions of the kind `L`,
and after a bad one actions of that kind can lead to a state without `Q`: no fork of a run
leads to such a state exactly when all actions of the run are good. -/
theorem alongForks_iff_along {I Q : σ → Prop} {P : σ → α → Prop} {L : α → Prop} {s : σ}
    {as : List α}
    (hgood : ∀ s a b s', I s → P s a → step s a = .ok (b, s') → I s')
    (hkind : ∀ s a, L a → P s a)
    (hbad : ∀ s a, I s → ¬ P s a → ∃ b s' after, step s a = .ok (b, s') ∧
      (∀ a' ∈ after, L a') ∧ ¬ AlongStates step Q s' after)
    (hQ : ∀ s, I s → Q s) (hs : I s) :
    AlongForks step L Q s as ↔ Along step P s as := by
  have hkeep : ∀ s a b s', I s → L a → step s a = .ok (b, s') → I s' :=
    fun s a b s' hI hL ha => hgood s a b s' hI (hkind s a hL) ha
  induction as generalizing s with
  | nil =>
      refine iff_of_true (fun before after hbefore hafter => ?_) trivial
      rw [List.prefix_nil] at hbefore
      subst hbefore
      exact alongStates_of_kind hkeep hQ hs hafter
  | cons a as ih =>
      constructor
      · intro hforks
        have hP : P s a := by
          by_contra hP
          obtain ⟨b, s', after, ha, hafter, hnot⟩ := hbad s a hs hP
          have hfork := hforks [a] after (by simp) hafter
          exact hnot (hfork.2 b s' ha)
        exact ⟨hP, fun b s' ha => (ih (hgood s a b s' hs hP ha)).mp (hforks.tail ha)⟩
      · rintro ⟨hP, halong⟩ before after hbefore hafter
        cases before with
        | nil => exact alongStates_of_kind hkeep hQ hs hafter
        | cons a' before =>
            obtain ⟨rfl, hrest⟩ := List.cons_prefix_cons.mp hbefore
            refine ⟨hQ s hs, fun b s' ha => ?_⟩
            exact (ih (hgood s a' b s' hs hP ha)).mpr (halong b s' ha) before after hrest hafter

end LpNet.Transition
