import LpNet.Fiber.Scheduler
import Mathlib.Data.List.GetD

/-!
`FiberScheduler::getNextFiber`, and the `fiber_queue_` it takes its fibers from.

The queue is apart from `fibers_`, and no function puts an id into it. So `getNextFiber` answers
null in every state that is reached, and `round_robin_iff` says that it goes round just where
there is nothing to go round. The world has one field more than the source: the ids of the
fibers of each scheduler in the order of their submissions.
-/

namespace LpNet

open Transition

structure QueuedWorld (S : Type) extends FiberWorld S where
  queues : S → List UInt32
  /-- The ids of the fibers that were submitted and are still there, the latest one last. -/
  order : S → List UInt32

inductive QueueOp (S : Type)
  | call (op : FiberOp S)
  | getNextFiber (s : S)

/-- What a call answers: a `bool`, if it returns one, or a fiber, if it is not null. -/
inductive QueueAnswer
  | called (ok : Option Bool)
  | next (f : Option ℕ)
  deriving DecidableEq, Repr

namespace QueuedWorld

open FiberScheduler (kInvalidFiberId)

variable {S : Type} [DecidableEq S]

/-- Constructed schedulers, and fibers that were constructed with these arguments. -/
def new (made : List (UInt32 × Option S)) (nextFid : UInt32) : QueuedWorld S where
  toFiberWorld := .new made nextFid
  queues _ := []
  order _ := []

/-- `getNextFiber()`. The null pointer that `operator[]` stores under an id that is gone is left
out. -/
def getNextFiber (w : QueuedWorld S) (s : S) : Except FiberFault (Option ℕ × QueuedWorld S) := do
  let locked ← w.lock s
  match w.queues s with
  | [] => .ok (none, { w with toFiberWorld := locked.unlock s })
  | fid :: rest =>
      .ok ((locked.schedulers s).fibers fid,
        { w with toFiberWorld := locked.unlock s, queues := Function.update w.queues s rest })

def without (ids : List UInt32) (fid : UInt32) : List UInt32 := ids.filter (· ≠ fid)

def orderAfter (w : QueuedWorld S) : FiberOp S → S → List UInt32
  | .submit s none => Function.update w.order s (without (w.order s) w.nextFid ++ [w.nextFid])
  | .submit s (some f) =>
      match w.objects[f]? with
      | none => w.order
      | some fiber => Function.update w.order s (without (w.order s) fiber.fid ++ [fiber.fid])
  | .remove s fid => Function.update w.order s (without (w.order s) fid)
  | .move2otherScheduler s fid (some t) =>
      if s = t ∨ fid ∉ w.order s then w.order
      else Function.update (Function.update w.order t (without (w.order t) fid ++ [fid])) s
        (without (w.order s) fid)
  | .move2otherScheduler _ _ none | .resume .. | .yield _ => w.order

def queueStep (w : QueuedWorld S) : QueueOp S → Except FiberFault (QueueAnswer × QueuedWorld S)
  | .call op => do
      let (ok, world) ← w.toFiberWorld.fiberStep op
      .ok (.called ok, { w with toFiberWorld := world, order := w.orderAfter op })
  | .getNextFiber s => do
      let (f, w) ← w.getNextFiber s
      .ok (.next f, w)

/-- From here on `getNextFiber` answers the fibers of a scheduler in the order of their
submissions, from one of them on and over and over, and never one that is not there. -/
structure RoundRobin (w : QueuedWorld S) (s : S) : Prop where
  cycle : w.order s ≠ [] → ∃ offset, ∀ n,
    (run queueStep w (List.replicate n (.getNextFiber s))).map Prod.fst =
      .ok ((List.range n).map fun k => .next ((w.schedulers s).fibers
        ((w.order s).getD ((offset + k) % (w.order s).length) kInvalidFiberId)))
  present : ∀ n answers w', run queueStep w (List.replicate n (.getNextFiber s)) =
    .ok (answers, w') → ∀ f, .next (some f) ∈ answers → ∃ fid, w.Stores s fid f

/-- The call submits nothing: it is no `submit`, or one of a pointer without a fiber. -/
def SubmitsNothing (w : QueuedWorld S) : QueueOp S → Prop
  | .call (.submit _ none) => False
  | .call (.submit _ (some f)) => w.objects[f]? = none
  | .call _ | .getNextFiber _ => True

/-! ### What the calls store -/

variable {w w' : QueuedWorld S} {s t : S} {fid : UInt32} {f : ℕ} {op : QueueOp S}
  {answer : QueueAnswer}

theorem stores_setEntry_iff {v : FiberWorld S} {entry : Option ℕ} {x : UInt32} :
    (v.setEntry s fid entry).Stores t x f ↔
      if t = s ∧ x = fid then entry = some f else v.Stores t x f := by
  rw [FiberWorld.Stores, FiberWorld.setEntry, FiberWorld.schedulers_setScheduler]
  by_cases hts : t = s
  case pos =>
    subst hts
    by_cases hx : x = fid
    case pos => simp [hx]
    case neg => simp [hx, Function.update_of_ne, FiberWorld.Stores]
  case neg => simp [hts, FiberWorld.Stores]

omit [DecidableEq S] in
theorem mem_without {ids : List UInt32} {x : UInt32} :
    x ∈ without ids fid ↔ x ∈ ids ∧ x ≠ fid := by
  simp [without]

theorem nodup_without {ids : List UInt32} (h : ids.Nodup) : (without ids fid).Nodup := h.filter _

theorem nodup_toEnd {ids : List UInt32} (h : ids.Nodup) : (without ids fid ++ [fid]).Nodup := by
  refine List.nodup_append.mpr ⟨nodup_without h, by simp, fun x hx y hy => ?_⟩
  rw [List.mem_singleton.mp hy]
  exact (mem_without.mp hx).2

/-- No call is going on and no fiber ever ran, each fiber is stored under its id, and the order is
that of the stored ones. -/
structure Wf (w : QueuedWorld S) : Prop where
  unlocked : ∀ s, (w.schedulers s).locked = false
  current : ∀ s, (w.schedulers s).currFid = kInvalidFiberId
  own : ∀ s fid f, w.Stores s fid f → ∃ fiber, w.objects[f]? = some fiber ∧ fiber.fid = fid
  queues_nil : ∀ s, w.queues s = []
  nodup : ∀ s, (w.order s).Nodup
  mem_order : ∀ s fid, fid ∈ w.order s ↔ ∃ f, w.Stores s fid f

variable {fiber : Fiber S}

omit [DecidableEq S] in
theorem new_wf (made : List (UInt32 × Option S)) (nextFid : UInt32) : Wf (new made nextFid) where
  unlocked _ := rfl
  current _ := rfl
  own _ _ _ hstored := by cases hstored
  queues_nil _ := rfl
  nodup _ := List.nodup_nil
  mem_order s fid := by
    refine iff_of_false (List.not_mem_nil) ?_
    rintro ⟨f, hstored⟩
    cases hstored

/-- Storing a fiber under its id, or erasing an id. -/
theorem Wf.setEntry (h : Wf w) {entry : Option ℕ} {ids : List UInt32} (hnodup : ids.Nodup)
    (hmem : ∀ x, x ∈ ids ↔ x = fid ∧ entry ≠ none ∨ x ≠ fid ∧ x ∈ w.order s)
    (hentry : ∀ f, entry = some f → ∃ fiber, w.objects[f]? = some fiber ∧ fiber.fid = fid) :
    Wf ⟨w.toFiberWorld.setEntry s fid entry, w.queues, Function.update w.order s ids⟩ where
  unlocked t := by
    rw [FiberWorld.setEntry, FiberWorld.schedulers_setScheduler]
    split <;> exact h.unlocked _
  current t := by
    rw [FiberWorld.setEntry, FiberWorld.schedulers_setScheduler]
    split <;> exact h.current _
  own t x f hstored := by
    rw [stores_setEntry_iff] at hstored
    split at hstored
    case isTrue heq =>
      rw [heq.2]
      exact hentry f hstored
    case isFalse => exact h.own t x f hstored
  queues_nil := h.queues_nil
  nodup t := by
    dsimp only
    rw [Function.update_apply]
    split
    case isTrue => exact hnodup
    case isFalse => exact h.nodup t
  mem_order t x := by
    simp only [stores_setEntry_iff]
    rw [Function.update_apply]
    by_cases hts : t = s
    case neg =>
      rw [if_neg hts, h.mem_order]
      simp [hts]
    case pos =>
      subst hts
      rw [if_pos rfl, hmem, h.mem_order]
      by_cases hx : x = fid
      case pos => simp [hx, Option.ne_none_iff_exists']
      case neg => simp [hx]

theorem Wf.store (h : Wf w) (hf : w.objects[f]? = some fiber) (s : S) :
    Wf ⟨w.toFiberWorld.setEntry s fiber.fid (some f), w.queues,
      Function.update w.order s (without (w.order s) fiber.fid ++ [fiber.fid])⟩ := by
  refine h.setEntry (nodup_toEnd (h.nodup s)) (fun x => ?_) fun f' hf' => ?_
  · rw [List.mem_append, mem_without, List.mem_singleton]
    by_cases hx : x = fiber.fid <;> simp [hx]
  · cases hf'
    exact ⟨fiber, hf, rfl⟩

theorem Wf.erase (h : Wf w) (s : S) (fid : UInt32) :
    Wf ⟨w.toFiberWorld.setEntry s fid none, w.queues,
      Function.update w.order s (without (w.order s) fid)⟩ := by
  refine h.setEntry (nodup_without (h.nodup s)) (fun x => ?_) fun f' hf' => ?_
  · rw [mem_without]
    by_cases hx : x = fid <;> simp [hx]
  · cases hf'

omit [DecidableEq S] in
theorem Wf.fiberNew (h : Wf w) (s : S) :
    Wf ⟨(w.toFiberWorld.fiberNew s).2, w.queues, w.order⟩ where
  unlocked := h.unlocked
  current := h.current
  own t x f hstored := by
    obtain ⟨fiber, hf, hfid⟩ := h.own t x f hstored
    obtain ⟨hlt, -⟩ := List.getElem?_eq_some_iff.mp hf
    exact ⟨fiber, (List.getElem?_append_left hlt).trans hf, hfid⟩
  queues_nil := h.queues_nil
  nodup := h.nodup
  mem_order := h.mem_order

theorem Wf.submit (h : Wf w) {pFiber : Option ℕ} {world : FiberWorld S}
    (hsubmit : w.toFiberWorld.submit s pFiber = .ok world) :
    Wf ⟨world, w.queues, w.orderAfter (.submit s pFiber)⟩ := by
  cases pFiber with
  | none =>
      have hf : (w.toFiberWorld.fiberNew s).2.objects[(w.toFiberWorld.fiberNew s).1]? =
          some (.new w.nextFid (some s)) := List.getElem?_concat_length
      have hstore := (h.fiberNew s).store hf s
      have hworld := (FiberWorld.submitFiber_ok ((h.fiberNew s).unlocked s) hf).symm.trans hsubmit
      cases hworld
      exact hstore
  | some f =>
      cases hf : w.objects[f]? with
      | none =>
          rw [FiberWorld.submit, FiberWorld.submitFiber, hf] at hsubmit
          cases hsubmit
      | some fiber =>
          rw [FiberWorld.submit, FiberWorld.submitFiber_ok (h.unlocked s) hf] at hsubmit
          cases hsubmit
          rw [orderAfter, hf]
          exact h.store hf s

theorem Wf.move (h : Wf w) {pFS : Option S} {ok : Bool} {world : FiberWorld S}
    (hmove : w.toFiberWorld.move2otherScheduler s fid pFS = .ok (ok, world)) :
    Wf ⟨world, w.queues, w.orderAfter (.move2otherScheduler s fid pFS)⟩ := by
  cases pFS with
  | none =>
      cases hmove
      exact h
  | some t =>
      rw [orderAfter]
      by_cases hst : s = t
      case pos =>
        rw [FiberWorld.move_refused (h.unlocked s) (.inr (.inl (by rw [hst])))] at hmove
        cases hmove
        rw [if_pos (.inl hst)]
        exact h
      case neg =>
        by_cases hstored : ∃ f, w.Stores s fid f
        case pos =>
          obtain ⟨f, hf⟩ := hstored
          obtain ⟨fiber, hfiber, rfl⟩ := h.own s fid f hf
          rw [FiberWorld.move_ok (h.unlocked s) (h.unlocked t) hst hf hfiber] at hmove
          cases hmove
          have hmem := (h.mem_order s fiber.fid).mpr ⟨f, hf⟩
          rw [if_neg (not_or.mpr ⟨hst, not_not.mpr hmem⟩)]
          have hmoved := (h.store hfiber t).erase s fiber.fid
          simp only [Function.update_of_ne hst] at hmoved
          exact hmoved
        case neg =>
          have hnone := not_exists.mp hstored
          rw [FiberWorld.move_refused (h.unlocked s) (.inr (.inr hnone))] at hmove
          cases hmove
          rw [if_pos (.inr fun hmem => hstored ((h.mem_order s fid).mp hmem))]
          exact h

theorem Wf.getNextFiber (h : Wf w) (s : S) : w.getNextFiber s = .ok (none, w) := by
  rw [QueuedWorld.getNextFiber, FiberWorld.lock_ok (h.unlocked s), ok_bind, h.queues_nil s,
    FiberWorld.unlock_locked (h.unlocked s)]

theorem Wf.step (h : Wf w) (hstep : w.queueStep op = .ok (answer, w')) : Wf w' := by
  cases op with
  | getNextFiber s =>
      rw [queueStep, h.getNextFiber s, ok_bind] at hstep
      cases hstep
      exact h
  | call op =>
      obtain ⟨⟨ok, world⟩, hworld, hw'⟩ := bind_eq_ok.mp hstep
      cases hw'
      cases op with
      | submit s pFiber =>
          obtain ⟨world', hsubmit, hok⟩ := bind_eq_ok.mp hworld
          cases hok
          exact h.submit hsubmit
      | resume s fid =>
          obtain ⟨world', hresume, hok⟩ := bind_eq_ok.mp hworld
          cases hok
          by_cases hsame : fid = (w.schedulers s).currFid ∨ ∀ f, ¬ w.Stores s fid f
          case pos =>
            rw [FiberWorld.resume_ok (h.unlocked s) hsame] at hresume
            cases hresume
            exact h
          case neg =>
            obtain ⟨hne, hstored⟩ := not_or.mp hsame
            obtain ⟨f, hf⟩ := not_forall.mp hstored
            rw [FiberWorld.resume_deadlock (h.unlocked s) hne (not_not.mp hf)] at hresume
            cases hresume
      | yield s =>
          obtain ⟨world', hyield, hok⟩ := bind_eq_ok.mp hworld
          cases hok
          rw [FiberWorld.yield_ok (h.unlocked s) (h.current s)] at hyield
          cases hyield
          exact h
      | remove s fid =>
          obtain ⟨⟨ok', world'⟩, hremove, hok⟩ := bind_eq_ok.mp hworld
          cases hok
          obtain ⟨ok'', hremove'⟩ := FiberWorld.remove_ok (h.unlocked s) fid
          rw [hremove'] at hremove
          cases hremove
          exact h.erase s fid
      | move2otherScheduler s fid pFS =>
          obtain ⟨⟨ok', world'⟩, hmove, hok⟩ := bind_eq_ok.mp hworld
          cases hok
          exact h.move hmove

/-! ### Going round -/

theorem Wf.run_getNextFiber (h : Wf w) (s : S) (n : ℕ) :
    run queueStep w (List.replicate n (.getNextFiber s)) =
      .ok (List.replicate n (.next none), w) := by
  have hstep : queueStep w (.getNextFiber s) = .ok (.next none, w) := by
    rw [queueStep, h.getNextFiber s, ok_bind]
  induction n with
  | zero => rfl
  | succ n ih =>
      rw [List.replicate_succ, run_cons_ok _ hstep, ih]
      rfl

theorem Wf.roundRobin_iff (h : Wf w) (s : S) : w.RoundRobin s ↔ w.order s = [] := by
  constructor
  · intro hround
    by_contra hne
    obtain ⟨offset, hcycle⟩ := hround.cycle hne
    have hfirst := hcycle 1
    rw [h.run_getNextFiber s 1] at hfirst
    have hlt : (offset + 0) % (w.order s).length < (w.order s).length :=
      Nat.mod_lt _ (List.length_pos_of_ne_nil hne)
    obtain ⟨f, hf⟩ := (h.mem_order s _).mp (List.getElem_mem hlt)
    rw [← List.getD_eq_getElem _ kInvalidFiberId hlt, FiberWorld.Stores] at hf
    rw [List.range_one, List.map_singleton, hf] at hfirst
    cases hfirst
  · intro hnil
    refine ⟨fun hne => absurd hnil hne, fun n answers w' hrun f hmem => ?_⟩
    rw [h.run_getNextFiber s n] at hrun
    cases hrun
    cases List.eq_of_mem_replicate hmem

/-- The order of the fibers stays empty unless one is submitted. -/
theorem orderAfter_nil {op : FiberOp S} (hnil : ∀ s, w.order s = [])
    (hop : w.SubmitsNothing (.call op)) (t : S) : w.orderAfter op t = [] := by
  cases op with
  | submit s pFiber =>
      cases pFiber with
      | none => exact absurd hop id
      | some f =>
          have hf : w.objects[f]? = none := hop
          rw [orderAfter, hf]
          exact hnil t
  | resume s fid => exact hnil t
  | yield s => exact hnil t
  | remove s fid =>
      rw [orderAfter, Function.update_apply, hnil s]
      split
      case isTrue => rfl
      case isFalse => exact hnil t
  | move2otherScheduler s fid pFS =>
      cases pFS with
      | none => exact hnil t
      | some t' =>
          rw [orderAfter, if_pos (.inr (by simp [hnil s]))]
          exact hnil t

theorem Wf.submit_returns (h : Wf w) {pFiber : Option ℕ}
    (hop : ¬ w.SubmitsNothing (.call (.submit s pFiber))) :
    ∃ world, w.toFiberWorld.submit s pFiber = .ok world := by
  cases pFiber with
  | none =>
      have hf : (w.toFiberWorld.fiberNew s).2.objects[(w.toFiberWorld.fiberNew s).1]? =
          some (.new w.nextFid (some s)) := List.getElem?_concat_length
      exact ⟨_, FiberWorld.submitFiber_ok ((h.fiberNew s).unlocked s) hf⟩
  | some f =>
      obtain ⟨fiber, hf⟩ := Option.ne_none_iff_exists'.mp hop
      exact ⟨_, FiberWorld.submitFiber_ok (h.unlocked s) hf⟩

theorem orderAfter_submit_ne_nil {pFiber : Option ℕ}
    (hop : ¬ w.SubmitsNothing (.call (.submit s pFiber))) :
    w.orderAfter (.submit s pFiber) s ≠ [] := by
  cases pFiber with
  | none => simp [orderAfter]
  | some f =>
      obtain ⟨fiber, hf⟩ := Option.ne_none_iff_exists'.mp hop
      simp [orderAfter, hf]

theorem Wf.submit_order (h : Wf w) (hop : ¬ w.SubmitsNothing op) :
    ∃ answer w' s, w.queueStep op = .ok (answer, w') ∧ w'.order s ≠ [] := by
  cases op with
  | getNextFiber s => exact absurd trivial hop
  | call op =>
      cases op with
      | submit s pFiber =>
          obtain ⟨world, hsubmit⟩ := h.submit_returns hop
          refine ⟨.called none, ⟨world, w.queues, w.orderAfter (.submit s pFiber)⟩, s, ?_,
            orderAfter_submit_ne_nil hop⟩
          rw [queueStep, FiberWorld.fiberStep, hsubmit, ok_bind, ok_bind]
      | resume s fid => exact absurd trivial hop
      | yield s => exact absurd trivial hop
      | remove s fid => exact absurd trivial hop
      | move2otherScheduler s fid pFS => exact absurd trivial hop

/-- In every state that is reached the fibers of a scheduler, in their order, are gone round exactly
when there are none; and they are in all states of a run exactly when it submits none. -/
theorem round_robin_iff (made : List (UInt32 × Option S)) (nextFid : UInt32)
    (ops : List (QueueOp S)) :
    AlongStates queueStep (fun w => ∀ s, (w.order s).Nodup ∧
        (∀ fid, fid ∈ w.order s ↔ ∃ f, w.Stores s fid f) ∧ (w.RoundRobin s ↔ w.order s = []))
      (new made nextFid) ops ∧
    (AlongStates queueStep (fun w => ∀ s, w.RoundRobin s) (new made nextFid) ops ↔
      Along queueStep SubmitsNothing (new made nextFid) ops) := by
  constructor
  · exact alongStates_of_along (I := Wf) (P := fun _ _ => True)
      (fun _ _ _ _ h _ hstep => h.step hstep)
      (fun _ h s => ⟨h.nodup s, h.mem_order s, h.roundRobin_iff s⟩) (new_wf made nextFid)
      (along_of_forall_mem fun _ _ => trivial)
  · refine alongStates_iff_along (I := fun w => Wf w ∧ ∀ s, w.order s = [])
      (V := fun _ _ => True) (fun w op answer w' hI _ hop hstep => ?_) (fun w op hI _ hop => ?_)
      (fun w hI s => (hI.1.roundRobin_iff s).mpr (hI.2 s)) ⟨new_wf made nextFid, fun _ => rfl⟩
      (along_of_forall_mem fun _ _ => trivial)
    · obtain ⟨h, hnil⟩ := hI
      refine ⟨h.step hstep, fun t => ?_⟩
      cases op with
      | getNextFiber s =>
          rw [queueStep, h.getNextFiber s, ok_bind] at hstep
          cases hstep
          exact hnil t
      | call op =>
          obtain ⟨⟨ok, world⟩, -, hw'⟩ := bind_eq_ok.mp hstep
          cases hw'
          exact orderAfter_nil hnil hop t
    · obtain ⟨answer, w', s, hstep, hne⟩ := hI.1.submit_order hop
      have hw' : Wf w' := hI.1.step hstep
      exact ⟨answer, w', hstep, fun hround => hne ((hw'.roundRobin_iff s).mp (hround s))⟩

/-- One fiber is submitted, and `getNextFiber` answers null. -/
theorem fiber_never_next :
    ¬ AlongStates queueStep (fun w => ∀ s, w.RoundRobin s) (new [] 0 : QueuedWorld Unit)
      [.call (.submit () none), .getNextFiber ()] := by
  intro hstates
  have hop : ¬ SubmitsNothing (new [] 0 : QueuedWorld Unit) (.call (.submit () none)) := id
  obtain ⟨answer, w', s, hstep, hne⟩ := (new_wf [] 0).submit_order hop
  have hround := (hstates.2 answer w' hstep).head s
  exact hne ((((new_wf [] 0).step hstep).roundRobin_iff s).mp hround)

end QueuedWorld

end LpNet
