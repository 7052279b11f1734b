import LpNet.Net.SelectManager
import Mathlib.Order.Bounds.Basic

/-!
The first argument of `select`: one more than the largest registered descriptor.

`max_fd_` is recomputed when the flag of the exception set is up, and kept otherwise. The
flag goes up with every change of the table, and stays up as long as `handleEvent` finds the
table empty. `Bounded` says what a flag that is down promises, and
`bounds_registered_iff` that a run goes right exactly when the descriptors that are
registered at a call have a bit in an `fd_set`, which no code checks.
-/

namespace LpNet

open Transition

/-- A step of the poller, or a new mask of a channel that the poller is not told of. -/
inductive SelectMove (Ch : Type)
  | call (op : SelectOp Ch)
  | setEvents (ch : Ch) (events : EventMask)

namespace SelectSets

variable {Ev Ch : Type}

def moveStep [DecidableEq Ch] (w : SelectSets Ev Ch) :
    SelectMove Ch → Except Fault (Option (Polled Ch) × SelectSets Ev Ch)
  | .call op => w.selectStep op
  | .setEvents ch events => .ok (none, w.assign ch ((w.objects ch).setEvents events))

def members (w : SelectSets Ev Ch) : FdSet := w.channels.keys.toFinset

/-- A call of `select` is given the largest registered descriptor plus one, the registered
descriptors as the exception set, and nothing that lies beyond the first argument. -/
def BoundsRegistered (w : SelectSets Ev Ch) : SelectMove Ch → Prop
  | .call (.handleEvent msTimeout outcome) =>
      ∃ polled w', w.handleEvent msTimeout outcome = .ok (polled, w') ∧
        ∀ call ∈ polled.call, IsGreatest {fd | fd ∈ w.members} w'.maxFd ∧
          call.nfds = w'.maxFd + 1 ∧ call.exp = w.members ∧
          ∀ fd ∈ call.read ∪ call.write ∪ call.exp, fd < call.nfds
  | _ => True

/-- Unless the table is empty, the registered descriptors have a bit. -/
def Representable (w : SelectSets Ev Ch) : SelectMove Ch → Prop
  | .call (.handleEvent _ _) =>
      w.channels.entries.isEmpty = true ∨ ∀ fd ∈ w.channels.keys, FdSet.InRange fd
  | _ => True

instance (w : SelectSets Ev Ch) (move : SelectMove Ch) : Decidable (w.Representable move) :=
  match move with
  | .call (.handleEvent _ _) => inferInstanceAs (Decidable (_ ∨ _))
  | .call (.updateChannel _) | .call (.change _ _) | .call (.removeChannel _)
  | .setEvents _ _ => .isTrue trivial

/-- What a flag that is down promises: the read set and the write set hold registered
descriptors only, the exception set holds all of them, and `max_fd_` is the largest. -/
structure Bounded (w : SelectSets Ev Ch) : Prop where
  keyed : w.Keyed
  read_subset : w.isFdReadReset = false → w.fdReadBackup ⊆ w.members
  write_subset : w.isFdWriteReset = false → w.fdWriteBackup ⊆ w.members
  exp_eq : w.isFdExpReset = false → w.fdExpBackup = w.members
  in_range : w.isFdExpReset = false → ∀ fd ∈ w.channels.keys, FdSet.InRange fd
  greatest : w.isFdExpReset = false → w.channels.entries.isEmpty = false →
    IsGreatest {fd | fd ∈ w.members} w.maxFd

/-! ### The operations on the table -/

variable {w w' : SelectSets Ev Ch} {ch : Ch} {fd : Sockfd}

theorem bounded_of_raised (hkeyed : w.Keyed) (hread : w.isFdReadReset = true)
    (hwrite : w.isFdWriteReset = true) (hexp : w.isFdExpReset = true) : w.Bounded where
  keyed := hkeyed
  read_subset hflag := absurd (hread.symm.trans hflag) (by decide)
  write_subset hflag := absurd (hwrite.symm.trans hflag) (by decide)
  exp_eq hflag := absurd (hexp.symm.trans hflag) (by decide)
  in_range hflag := absurd (hexp.symm.trans hflag) (by decide)
  greatest hflag := absurd (hexp.symm.trans hflag) (by decide)

theorem Bounded.settle (h : w.Bounded) : w.settle.Bounded where
  keyed := h.keyed
  read_subset := h.read_subset
  write_subset := h.write_subset
  exp_eq := h.exp_eq
  in_range := h.in_range
  greatest := h.greatest

theorem Bounded.update (h : w.Bounded) (ch : Ch) : (w.update ch).Bounded := by
  rw [SelectSets.update, SelectManager.updateChannel]
  apply Bounded.settle
  split
  case isTrue =>
    split
    case isTrue => exact bounded_of_raised (h.keyed.erase _ rfl rfl) rfl rfl rfl
    case isFalse =>
      -- the table is as it was, and the flag of the write set goes up
      exact ⟨h.keyed, h.read_subset, fun hflag => absurd hflag (by simp), h.exp_eq, h.in_range,
        h.greatest⟩
  case isFalse =>
    split
    case isTrue => exact h
    case isFalse => exact bounded_of_raised (h.keyed.emplace ch rfl rfl) rfl rfl rfl

theorem Bounded.remove (h : w.Bounded) (fd : Sockfd) : (w.remove fd).Bounded := by
  rw [SelectSets.remove, SelectManager.removeChannel]
  apply Bounded.settle
  split
  case isTrue => exact bounded_of_raised (h.keyed.erase _ rfl rfl) rfl rfl rfl
  case isFalse => exact h

theorem Bounded.assign [DecidableEq Ch] (h : w.Bounded) {new : Channel}
    (hsockfd : new.sockfd = (w.objects ch).sockfd) : (w.assign ch new).Bounded where
  keyed := h.keyed.assign hsockfd
  read_subset := h.read_subset
  write_subset := h.write_subset
  exp_eq := h.exp_eq
  in_range := h.in_range
  greatest := h.greatest

theorem new_bounded (clock currTimerId : ℕ) (maxFd : Sockfd) (objects : Ch → Channel)
    (wakeup : Ch) : (new Ev clock currTimerId maxFd objects wakeup).Bounded :=
  Bounded.update
    { keyed := fun fd ch hlookup => by cases hlookup
      read_subset := fun _ => Finset.empty_subset _
      write_subset := fun _ => Finset.empty_subset _
      exp_eq := fun _ => rfl
      in_range := fun _ fd hfd => by cases hfd
      greatest := fun _ hne => by cases hne } wakeup

/-! ### The call of `select` -/

theorem watched_subset (w : SelectSets Ev Ch) (p : Channel → Bool) : w.watched p ⊆ w.members := by
  intro fd hfd
  obtain ⟨ch, hlookup, -⟩ := mem_watched.mp hfd
  rw [members, List.mem_toFinset, ← AList.mem_keys, ← AList.lookup_isSome, hlookup]
  rfl

theorem watched_true (w : SelectSets Ev Ch) : (w.watched fun _ => true) = w.members := by
  apply Finset.Subset.antisymm (w.watched_subset _)
  intro fd hfd
  rw [members, List.mem_toFinset, ← AList.mem_keys, ← AList.lookup_isSome,
    Option.isSome_iff_exists] at hfd
  obtain ⟨ch, hlookup⟩ := hfd
  exact mem_watched.mpr ⟨ch, hlookup, rfl⟩

section Rebuild

variable {l : List Channel} {sets sets' : FdSets}

theorem maxFd_collect {ch : Channel} (hok : w.collect sets ch = .ok sets') :
    sets'.maxFd = if w.isFdExpReset then max sets.maxFd ch.sockfd else sets.maxFd := by
  rw [collect, bind_eq_ok] at hok
  obtain ⟨read, -, hok⟩ := hok
  rw [bind_eq_ok] at hok
  obtain ⟨write, -, hok⟩ := hok
  rw [bind_eq_ok] at hok
  obtain ⟨exp, -, hok⟩ := hok
  cases hok
  cases w.isFdExpReset with
  | false => rfl
  | true =>
      simp only [Bool.true_and, decide_eq_true_eq, if_true]
      split
      case isTrue hlt => exact (max_eq_right (le_of_lt hlt)).symm
      case isFalse hle => exact (max_eq_left (not_lt.mp hle)).symm

/-- The loop leaves the largest descriptor it has seen in `max_fd_`. -/
theorem maxFd_foldlM (hok : l.foldlM w.collect sets = .ok sets') :
    sets'.maxFd =
      if w.isFdExpReset then (l.map Channel.sockfd).foldl max sets.maxFd else sets.maxFd := by
  have hfold := foldl_of_foldlM (g := FdSets.maxFd)
    (k := fun top ch => if w.isFdExpReset then max top ch.sockfd else top)
    (fun _ _ _ => maxFd_collect) hok
  rw [hfold]
  cases w.isFdExpReset with
  | false => exact List.foldl_fixed l
  | true =>
      rw [List.foldl_map]
      rfl

/-- Descriptors that have a bit are not negative, so that counting up from 0 finds the largest. -/
theorem isGreatest_foldl (hne : l ≠ []) (hrange : ∀ ch ∈ l, FdSet.InRange ch.sockfd) :
    IsGreatest {fd | ∃ ch ∈ l, ch.sockfd = fd} ((l.map Channel.sockfd).foldl max 0) := by
  have hne' : l.map Channel.sockfd ≠ [] := by simpa using hne
  have hmem := List.max_mem hne'
  obtain ⟨top, htop, heq⟩ := List.mem_map.mp hmem
  rw [List.foldl_max_eq_max hne', max_eq_right (heq ▸ (hrange top htop).1)]
  refine ⟨⟨top, htop, heq⟩, ?_⟩
  rintro fd ⟨ch, hch, rfl⟩
  exact List.le_max_of_mem (List.mem_map_of_mem hch)

theorem maxFd_rebuild (hok : w.rebuild = .ok sets) :
    sets.maxFd =
      if w.isFdExpReset then (w.registered.map Channel.sockfd).foldl max 0 else w.maxFd := by
  rw [rebuild] at hok
  split at hok
  case isTrue =>
    rw [maxFd_foldlM hok]
    cases w.isFdExpReset <;> rfl
  case isFalse hdown =>
    simp only [Bool.or_eq_true, not_or, Bool.not_eq_true] at hdown
    cases hok
    rw [hdown.2]
    rfl

/-- What is found by counting up is the largest registered descriptor. -/
theorem Keyed.isGreatest_members (h : w.Keyed) (hne : w.channels.entries.isEmpty = false)
    (hchannels : ∀ ch ∈ w.registered, FdSet.InRange ch.sockfd) :
    IsGreatest {fd | fd ∈ w.members} ((w.registered.map Channel.sockfd).foldl max 0) := by
  have hregistered : w.registered ≠ [] := by
    rw [registered, ne_eq, List.map_eq_nil_iff]
    intro hnil
    rw [hnil] at hne
    cases hne
  have hset : {fd | fd ∈ w.members} = {fd | ∃ ch ∈ w.registered, ch.sockfd = fd} := by
    ext fd
    rw [Set.mem_ofPred_eq, Set.mem_ofPred_eq, h.mem_registered, members, List.mem_toFinset]
  rw [hset]
  exact isGreatest_foldl hregistered hchannels

/-- The call of `select` finds all flags down. -/
theorem Bounded.refresh (h : w.Bounded) (hne : w.channels.entries.isEmpty = false)
    (hrange : ∀ fd ∈ w.channels.keys, FdSet.InRange fd) :
    ∃ sets, w.rebuild = .ok sets ∧ (w.refresh sets).Bounded := by
  have hchannels : ∀ ch ∈ w.registered, FdSet.InRange ch.sockfd := fun ch hch =>
    hrange _ (h.keyed.mem_registered.mp ⟨ch, hch, rfl⟩)
  obtain ⟨sets, hrebuild, hread, hwrite, hexp⟩ := h.keyed.rebuild hchannels
  refine ⟨sets, hrebuild,
    { keyed := h.keyed
      read_subset := fun _ => ?_
      write_subset := fun _ => ?_
      exp_eq := fun _ => ?_
      in_range := fun _ => hrange
      greatest := fun _ _ => ?_ }⟩
  · rw [fdReadBackup_refresh]
    split
    case isTrue hflag =>
      rw [hread hflag]
      exact w.watched_subset _
    case isFalse hflag => exact h.read_subset (Bool.eq_false_iff.mpr hflag)
  · rw [fdWriteBackup_refresh]
    split
    case isTrue hflag =>
      rw [hwrite hflag]
      exact w.watched_subset _
    case isFalse hflag => exact h.write_subset (Bool.eq_false_iff.mpr hflag)
  · rw [fdExpBackup_refresh]
    split
    case isTrue hflag => exact (hexp hflag).trans w.watched_true
    case isFalse hflag => exact h.exp_eq (Bool.eq_false_iff.mpr hflag)
  · show IsGreatest {fd | fd ∈ w.members} sets.maxFd
    rw [maxFd_rebuild hrebuild]
    split
    case isTrue => exact h.keyed.isGreatest_members hne hchannels
    case isFalse hflag => exact h.greatest (Bool.eq_false_iff.mpr hflag) hne

theorem Bounded.handleEvent (h : w.Bounded) (hne : w.channels.entries.isEmpty = false)
    (hrange : ∀ fd ∈ w.channels.keys, FdSet.InRange fd) (msTimeout : ℤ)
    (outcome : SelectOutcome) :
    ∃ polled w' call, w.handleEvent msTimeout outcome = .ok (polled, w') ∧ w'.Bounded ∧
      polled.call = some call ∧ IsGreatest {fd | fd ∈ w.members} w'.maxFd ∧
      call.nfds = w'.maxFd + 1 ∧ call.exp = w.members ∧
      ∀ fd ∈ call.read ∪ call.write ∪ call.exp, fd < call.nfds := by
  obtain ⟨sets, hrebuild, hbounded⟩ := h.refresh hne hrange
  have hgreatest : IsGreatest {fd | fd ∈ w.members} (w.refresh sets).maxFd :=
    hbounded.greatest rfl hne
  have hexp : (w.refresh sets).fdExpBackup = w.members := hbounded.exp_eq rfl
  have hbelow : ∀ fd ∈ (w.refresh sets).fdReadBackup ∪ (w.refresh sets).fdWriteBackup ∪
      (w.refresh sets).fdExpBackup, fd < (w.refresh sets).maxFd + 1 := by
    intro fd hfd
    apply Int.lt_add_one_of_le
    apply hgreatest.2
    rcases Finset.mem_union.mp hfd with hfd | hfd
    · rcases Finset.mem_union.mp hfd with hfd | hfd
      · exact hbounded.read_subset rfl hfd
      · exact hbounded.write_subset rfl hfd
    · rwa [hexp] at hfd
  rw [SelectSets.handleEvent, if_neg (by simp [hne]), hrebuild, ok_bind]
  cases outcome with
  | failed interrupted => exact ⟨_, _, _, rfl, hbounded, rfl, hgreatest, rfl, hexp, hbelow⟩
  | ready read write exp => exact ⟨_, _, _, rfl, hbounded, rfl, hgreatest, rfl, hexp, hbelow⟩

/-- `handleEvent` returns only when the registered descriptors have a bit: with the flag of the
exception set down they had one when it went down. -/
theorem Bounded.inRange_of_handleEvent (h : w.Bounded) {msTimeout : ℤ} {outcome : SelectOutcome}
    {polled : Polled Ch} (hne : w.channels.entries.isEmpty = false)
    (hok : w.handleEvent msTimeout outcome = .ok (polled, w')) :
    ∀ fd ∈ w.channels.keys, FdSet.InRange fd := by
  obtain ⟨sets, hrebuild⟩ := rebuild_of_handleEvent hne hok
  cases hflag : w.isFdExpReset with
  | false => exact h.in_range hflag
  | true => exact h.keyed.inRange_of_rebuild hflag hrebuild

end Rebuild

/-! ### Runs -/

/-- A call of `select` is given the right bound exactly when the registered descriptors have a
bit. -/
theorem Bounded.boundsRegistered_iff (h : w.Bounded) (move : SelectMove Ch) :
    w.BoundsRegistered move ↔ w.Representable move := by
  cases move with
  | setEvents ch events => exact Iff.rfl
  | call op =>
      cases op with
      | updateChannel ch => exact Iff.rfl
      | change interest ch => exact Iff.rfl
      | removeChannel fd => exact Iff.rfl
      | handleEvent msTimeout outcome =>
          rw [BoundsRegistered, Representable]
          cases hempty : w.channels.entries.isEmpty with
          | true =>
              exact iff_of_true
                ⟨_, w, handleEvent_of_empty hempty _ _, fun call hcall => by cases hcall⟩ (.inl rfl)
          | false =>
              constructor
              · rintro ⟨polled, w', hhandle, -⟩
                exact .inr (h.inRange_of_handleEvent hempty hhandle)
              · rintro (hempty' | hrange)
                · cases hempty'
                · obtain ⟨polled, w', call, hok, -, hsome, hbounds⟩ :=
                    h.handleEvent hempty hrange msTimeout outcome
                  refine ⟨polled, w', hok, fun call' hcall' => ?_⟩
                  rw [hsome] at hcall'
                  cases hcall'
                  exact hbounds

section Runs

variable [DecidableEq Ch]

theorem Bounded.step {move : SelectMove Ch} {answer : Option (Polled Ch)} (h : w.Bounded)
    (hstep : w.moveStep move = .ok (answer, w')) : w'.Bounded := by
  cases move with
  | setEvents ch events =>
      cases hstep
      exact h.assign rfl
  | call op =>
      cases op with
      | updateChannel ch =>
          cases hstep
          exact h.update ch
      | change interest ch =>
          cases hstep
          exact (h.assign (interest.apply_sockfd _)).update ch
      | removeChannel fd =>
          cases hstep
          exact h.remove fd
      | handleEvent msTimeout outcome =>
          rw [moveStep, selectStep, bind_eq_ok] at hstep
          obtain ⟨⟨polled, w''⟩, hhandle, hstep⟩ := hstep
          cases hstep
          cases hempty : w.channels.entries.isEmpty with
          | true =>
              -- the flags stay as they are
              rw [handleEvent_of_empty hempty] at hhandle
              cases hhandle
              exact h
          | false =>
              obtain ⟨_, _, _, hok, hbounded, -⟩ := h.handleEvent hempty
                (h.inRange_of_handleEvent hempty hhandle) msTimeout outcome
              rw [hhandle] at hok
              cases hok
              exact hbounded

theorem Bounded.along_iff (h : w.Bounded) (moves : List (SelectMove Ch)) :
    Along moveStep BoundsRegistered w moves ↔ Along moveStep Representable w moves :=
  along_iff_along (V := fun _ _ => True) (fun _ _ _ _ h _ hstep => h.step hstep)
    (fun _ move h _ => h.boundsRegistered_iff move) h (along_of_forall_mem fun _ _ => trivial)

/-- In a run every call of `select` is given the right bound exactly when, at each call, the
registered descriptors have a bit. -/
theorem bounds_registered_iff (clock currTimerId : ℕ) (maxFd : Sockfd) (objects : Ch → Channel)
    (wakeup : Ch) (moves : List (SelectMove Ch)) :
    Along moveStep BoundsRegistered (new Ev clock currTimerId maxFd objects wakeup) moves ↔
      Along moveStep Representable (new Ev clock currTimerId maxFd objects wakeup) moves :=
  (new_bounded clock currTimerId maxFd objects wakeup).along_iff moves

end Runs

/-- A wakeup channel, and one with the first descriptor that has no bit. -/
def highChannel : Bool → Channel
  | false => ⟨3, EVENT_IN⟩
  | true => ⟨1024, EVENT_IN⟩

/-- The descriptor 1024 is registered, and the sets are filled with it. -/
theorem select_exceeds_set :
    ¬ Along moveStep BoundsRegistered (new Unit 0 1 0 highChannel false)
      [.call (.updateChannel true), .call (.handleEvent 0 (.ready ∅ ∅ ∅))] := by
  rw [(new_bounded 0 1 0 highChannel false).along_iff]
  decide +kernel

end SelectSets

end LpNet
