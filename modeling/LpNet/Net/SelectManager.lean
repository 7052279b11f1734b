import LpNet.Lib.Transition
import LpNet.Net.TaskScheduler
import Mathlib.Data.Finset.SymmDiff

/-!
The descriptor sets that `SelectManager` keeps and passes to `select`.

An `fd_set` is the set of the descriptors whose bit is set. The sets are rebuilt from
the channel table when their reset flag is up, and else copied from a backup. Since
`updateChannel` raises only the flag of the write set for a channel that is registered,
the backup of the read set goes stale: `flipped` keeps the registered descriptors whose
interest in reading was turned over since the read set was rebuilt, and `Cached` says
that nothing else is wrong with the backups. `watches_registered_iff` draws the
conclusion for whole runs.
-/

namespace LpNet

open Transition

abbrev FdSet := Finset Sockfd

namespace FdSet

def size : ℤ := 1024

/-- The descriptors that have a bit. -/
def InRange (fd : Sockfd) : Prop := 0 ≤ fd ∧ fd < size

instance (fd : Sockfd) : Decidable (InRange fd) := inferInstanceAs (Decidable (_ ∧ _))

/-- `FD_SET(fd, &set)`. -/
def set (s : FdSet) (fd : Sockfd) : Except Fault FdSet :=
  if InRange fd then .ok (insert fd s) else .error .outOfBounds

/-- `if (cond) FD_SET(fd, &set)`. -/
def setIf (cond : Bool) (s : FdSet) (fd : Sockfd) : Except Fault FdSet :=
  if cond then set s fd else .ok s

theorem setIf_of_inRange (cond : Bool) (s : FdSet) {fd : Sockfd} (h : InRange fd) :
    setIf cond s fd = .ok (s ∪ if cond then {fd} else ∅) := by
  rw [setIf]
  split
  case isTrue => rw [set, if_pos h, Finset.insert_eq, Finset.union_comm]
  case isFalse => rw [Finset.union_empty]

theorem inRange_of_setIf {s s' : FdSet} {fd : Sockfd} (h : setIf true s fd = .ok s') :
    InRange fd := by
  by_contra hrange
  rw [setIf, if_pos rfl, set, if_neg hrange] at h
  cases h

end FdSet

structure SelectCall where
  nfds : ℤ
  read : FdSet
  write : FdSet
  exp : FdSet
  timeout : ℤ
  deriving DecidableEq

/-- What `select` does: it fails, for an interrupt or something else, or it leaves the
descriptors that are ready in the sets. -/
inductive SelectOutcome
  | failed (interrupted : Bool)
  | ready (read write exp : FdSet)

/-- The sets that the loop of `handleEvent` fills, and `max_fd_`. -/
structure FdSets where
  read : FdSet
  write : FdSet
  exp : FdSet
  maxFd : Sockfd
  deriving DecidableEq

/-- What is observed of `handleEvent`: its call of `select`, if any, its return value, and the
channels it hands an event to. -/
structure Polled (Ch : Type) where
  call : Option SelectCall
  returned : Bool
  events : List (Ch × EventMask)
  deriving DecidableEq

/-- `SelectManager` with its sets, and the channels that the pointers in its table lead to. -/
structure SelectSets (Ev Ch : Type) extends SelectManager Ev Ch where
  maxFd : Sockfd
  fdReadBackup : FdSet
  fdWriteBackup : FdSet
  fdExpBackup : FdSet
  objects : Ch → Channel
  /-- The registered descriptors whose interest in reading is not what it was when the read set
  was last rebuilt. No code reads it. -/
  flipped : FdSet

namespace SelectSets

variable {Ev Ch : Type}

def registered (w : SelectSets Ev Ch) : List Channel :=
  w.channels.entries.map fun entry => w.objects entry.2

/-- The registered descriptors whose channel has a property. -/
def watched (w : SelectSets Ev Ch) (p : Channel → Bool) : FdSet :=
  ((w.channels.entries.filter fun entry => p (w.objects entry.2)).map fun entry =>
    entry.1).toFinset

/-- One round of the loop that fills the sets. -/
def collect (w : SelectSets Ev Ch) (sets : FdSets) (ch : Channel) : Except Fault FdSets := do
  let read ← FdSet.setIf (w.isFdReadReset && ch.isReading) sets.read ch.sockfd
  let write ← FdSet.setIf (w.isFdWriteReset && ch.isWriting) sets.write ch.sockfd
  let exp ← FdSet.setIf w.isFdExpReset sets.exp ch.sockfd
  .ok ⟨read, write, exp,
    if w.isFdExpReset && ch.sockfd > sets.maxFd then ch.sockfd else sets.maxFd⟩

/-- The sets that are rebuilt, when one of the flags is up. -/
def rebuild (w : SelectSets Ev Ch) : Except Fault FdSets :=
  if w.isFdReadReset || w.isFdWriteReset || w.isFdExpReset then
    w.registered.foldlM w.collect ⟨∅, ∅, ∅, if w.isFdExpReset then 0 else w.maxFd⟩
  else .ok ⟨∅, ∅, ∅, w.maxFd⟩

/-- The state at the call of `select`: the rebuilt sets are backed up, and the flags are down. -/
def refresh (w : SelectSets Ev Ch) (sets : FdSets) : SelectSets Ev Ch :=
  { w with maxFd := sets.maxFd
           fdReadBackup := if w.isFdReadReset then sets.read else w.fdReadBackup
           fdWriteBackup := if w.isFdWriteReset then sets.write else w.fdWriteBackup
           fdExpBackup := if w.isFdExpReset then sets.exp else w.fdExpBackup
           isFdReadReset := false
           isFdWriteReset := false
           isFdExpReset := false }

/-- A wait of no length takes 10 milliseconds. -/
def waitTime (msTimeout : ℤ) : ℤ := if msTimeout ≤ 0 then 10 else msTimeout

/-- The events that the sets left by `select` make for the channels in the table. They are put
in front of each other. -/
def reported (w : SelectSets Ev Ch) (read write exp : FdSet) : List (Ch × EventMask) :=
  (w.channels.entries.filterMap fun entry =>
    let fd := (w.objects entry.2).sockfd
    let events := (if fd ∈ read then EVENT_IN else 0) ||| (if fd ∈ write then EVENT_OUT else 0) |||
      (if fd ∈ exp then EVENT_HUP else 0)
    if events = 0 then none else some (entry.2, events)).reverse

/-- `handleEvent(ms_timeout)`. The backups are what is passed to `select`. -/
def handleEvent (w : SelectSets Ev Ch) (msTimeout : ℤ) (outcome : SelectOutcome) :
    Except Fault (Polled Ch × SelectSets Ev Ch) :=
  if w.channels.entries.isEmpty then .ok (⟨none, true, []⟩, w)
  else do
    let sets ← w.rebuild
    let w := w.refresh sets
    let call : SelectCall :=
      ⟨w.maxFd + 1, w.fdReadBackup, w.fdWriteBackup, w.fdExpBackup, waitTime msTimeout⟩
    match outcome with
    | .failed interrupted => .ok (⟨some call, interrupted, []⟩, w)
    | .ready read write exp =>
        .ok (⟨some call, true,
          w.reported (call.read ∩ read) (call.write ∩ write) (call.exp ∩ exp)⟩, w)

/-- A read set that is to be rebuilt has nothing to be turned over. -/
def settle (w : SelectSets Ev Ch) : SelectSets Ev Ch :=
  { w with flipped := if w.isFdReadReset then ∅ else w.flipped }

/-- `updateChannel(ch)`. -/
def update (w : SelectSets Ev Ch) (ch : Ch) : SelectSets Ev Ch :=
  settle { w with toSelectManager := w.toSelectManager.updateChannel ch (w.objects ch) }

/-- `removeChannel(fd)`. -/
def remove (w : SelectSets Ev Ch) (fd : Sockfd) : SelectSets Ev Ch :=
  settle { w with toSelectManager := w.toSelectManager.removeChannel fd }

def assign [DecidableEq Ch] (w : SelectSets Ev Ch) (ch : Ch) (new : Channel) : SelectSets Ev Ch :=
  { w with objects := Function.update w.objects ch new
           flipped :=
             if w.channels.lookup new.sockfd = some ch ∧
                 (w.objects ch).isReading ≠ new.isReading then
               symmDiff w.flipped {new.sockfd}
             else w.flipped }

/-- The constructor, for given channels, of which one is the wakeup channel. `max_fd_` is left
uninitialized. -/
def new (Ev : Type) (clock currTimerId : ℕ) (maxFd : Sockfd) (objects : Ch → Channel)
    (wakeup : Ch) : SelectSets Ev Ch :=
  update { SelectManager.new Ev Ch clock currTimerId with
             maxFd := maxFd, fdReadBackup := ∅, fdWriteBackup := ∅, fdExpBackup := ∅,
             objects := objects, flipped := ∅ } wakeup

end SelectSets

/-- A change of the interest of a channel. -/
inductive Interest
  | enableReading
  | disableReading
  | enableWriting
  | disableWriting
  deriving DecidableEq, Repr

def Interest.apply : Interest → Channel → Channel
  | .enableReading => Channel.enableReading
  | .disableReading => Channel.disableReading
  | .enableWriting => Channel.enableWriting
  | .disableWriting => Channel.disableWriting

theorem Interest.apply_sockfd (interest : Interest) (ch : Channel) :
    (interest.apply ch).sockfd = ch.sockfd := by
  cases interest <;> rfl

inductive SelectOp (Ch : Type)
  | updateChannel (ch : Ch)
  /-- A change of the interest of a channel, followed by `updateChannel`. -/
  | change (interest : Interest) (ch : Ch)
  | removeChannel (fd : Sockfd)
  | handleEvent (msTimeout : ℤ) (outcome : SelectOutcome)

namespace SelectSets

variable {Ev Ch : Type}

/-- Perform a step. `handleEvent` answers what is observed of it. -/
def selectStep [DecidableEq Ch] (w : SelectSets Ev Ch) :
    SelectOp Ch → Except Fault (Option (Polled Ch) × SelectSets Ev Ch)
  | .updateChannel ch => .ok (none, w.update ch)
  | .change interest ch => .ok (none, (w.assign ch (interest.apply (w.objects ch))).update ch)
  | .removeChannel fd => .ok (none, w.remove fd)
  | .handleEvent msTimeout outcome => do
      let (polled, w) ← w.handleEvent msTimeout outcome
      .ok (some polled, w)

/-- A call of `select` is given the registered descriptors whose channel has `EVENT_IN`, and
those whose channel has `EVENT_OUT`. -/
def WatchesRegistered (w : SelectSets Ev Ch) : SelectOp Ch → Prop
  | .handleEvent msTimeout outcome =>
      ∃ polled w', w.handleEvent msTimeout outcome = .ok (polled, w') ∧
        ∀ call ∈ polled.call, call.read = w.watched Channel.isReading ∧
          call.write = w.watched Channel.isWriting
  | _ => True

/-- Unless the table is empty, no interest in reading is turned over since the read set was
rebuilt, and the registered descriptors have a bit. -/
def UpToDate (w : SelectSets Ev Ch) : SelectOp Ch → Prop
  | .handleEvent _ _ =>
      w.channels.entries.isEmpty = true ∨
        w.flipped = ∅ ∧ ∀ fd ∈ w.channels.keys, FdSet.InRange fd
  | _ => True

instance (w : SelectSets Ev Ch) (op : SelectOp Ch) : Decidable (w.UpToDate op) :=
  match op with
  | .handleEvent _ _ => inferInstanceAs (Decidable (_ ∨ _ ∧ _))
  | .updateChannel _ | .change _ _ | .removeChannel _ => .isTrue trivial

/-! ### The table and the sets -/

variable {w w' : SelectSets Ev Ch} {p : Channel → Bool} {fd : Sockfd} {ch : Ch}

theorem mem_watched :
    fd ∈ w.watched p ↔ ∃ ch, w.channels.lookup fd = some ch ∧ p (w.objects ch) = true := by
  simp only [watched, List.mem_toFinset, List.mem_map, List.mem_filter]
  constructor
  · rintro ⟨⟨fd', ch⟩, ⟨hmem, hp⟩, rfl⟩
    exact ⟨ch, AList.mem_lookup_iff.mpr hmem, hp⟩
  · rintro ⟨ch, hlookup, hp⟩
    exact ⟨⟨fd, ch⟩, ⟨AList.mem_lookup_iff.mp hlookup, hp⟩, rfl⟩

theorem mem_update (w : SelectSets Ev Ch) (ch : Ch) (fd : Sockfd) :
    fd ∈ (w.update ch).channels ↔
      if (w.objects ch).isNoneEvent then fd ≠ (w.objects ch).sockfd ∧ fd ∈ w.channels
      else fd = (w.objects ch).sockfd ∨ fd ∈ w.channels := by
  show fd ∈ (w.toSelectManager.updateChannel ch (w.objects ch)).channels ↔ _
  generalize w.objects ch = view
  rw [SelectManager.updateChannel]
  split
  case isTrue hmem =>
    split
    case isTrue => exact AList.mem_erase
    case isFalse =>
      refine ⟨.inr, ?_⟩
      rintro (rfl | hfd)
      · exact hmem
      · exact hfd
  case isFalse hmem =>
    split
    case isTrue =>
      refine ⟨fun hfd => ⟨?_, hfd⟩, And.right⟩
      rintro rfl
      exact hmem hfd
    case isFalse =>
      show fd ∈ w.channels.emplace view.sockfd ch ↔ _
      rw [FdMap.emplace, if_neg hmem]
      exact AList.mem_insert w.channels

theorem mem_remove (w : SelectSets Ev Ch) (fd fd' : Sockfd) :
    fd' ∈ (w.remove fd).channels ↔ fd' ≠ fd ∧ fd' ∈ w.channels := by
  show fd' ∈ (w.toSelectManager.removeChannel fd).channels ↔ _
  rw [SelectManager.removeChannel]
  split
  case isTrue => exact AList.mem_erase
  case isFalse hmem =>
    refine ⟨fun hfd => ⟨?_, hfd⟩, And.right⟩
    rintro rfl
    exact hmem hfd

/-- `handleEvent` changes neither the table nor the channels. -/
theorem handleEvent_channels {w w' : SelectSets Ev Ch} {msTimeout : ℤ} {outcome : SelectOutcome}
    {polled : Polled Ch} (hok : w.handleEvent msTimeout outcome = .ok (polled, w')) :
    w'.channels = w.channels ∧ w'.objects = w.objects := by
  rw [SelectSets.handleEvent] at hok
  split at hok
  case isTrue =>
    cases hok
    exact ⟨rfl, rfl⟩
  case isFalse =>
    rw [bind_eq_ok] at hok
    obtain ⟨sets, -, hok⟩ := hok
    cases outcome <;> cases hok <;> exact ⟨rfl, rfl⟩

/-- Every channel is in the table under its own descriptor. -/
def Keyed (w : SelectSets Ev Ch) : Prop :=
  ∀ fd ch, w.channels.lookup fd = some ch → (w.objects ch).sockfd = fd

/-- What the flags leave of the read set and the exception set: where a flag is down, the backup
is right, but for the descriptors that were turned over. -/
structure ReadCached (w : SelectSets Ev Ch) : Prop where
  keyed : w.Keyed
  exp_eq : w.isFdExpReset = w.isFdReadReset
  rebuilt : w.isFdReadReset = true → w.isFdWriteReset = true
  read_eq : w.isFdReadReset = false →
    w.fdReadBackup = symmDiff (w.watched Channel.isReading) w.flipped
  exp_backup_eq : w.isFdReadReset = false → w.fdExpBackup = w.watched fun _ => true
  in_range : w.isFdReadReset = false → ∀ fd ∈ w.channels.keys, FdSet.InRange fd

/-- What the flags leave of all three. -/
structure Cached (w : SelectSets Ev Ch) : Prop extends ReadCached w where
  settled : w.isFdReadReset = true → w.flipped = ∅
  write_eq : w.isFdWriteReset = false → w.fdWriteBackup = w.watched Channel.isWriting

section Assign

variable [DecidableEq Ch]

@[simp] theorem assign_objects (w : SelectSets Ev Ch) (ch : Ch) (new : Channel) :
    (w.assign ch new).objects = Function.update w.objects ch new := rfl

/-- A new state of a channel turns over the property of its descriptor, if it is registered. -/
theorem watched_assign (hkeyed : w.Keyed) {new : Channel}
    (hsockfd : new.sockfd = (w.objects ch).sockfd) (p : Channel → Bool) :
    (w.assign ch new).watched p =
      if w.channels.lookup new.sockfd = some ch ∧ p (w.objects ch) ≠ p new then
        symmDiff (w.watched p) {new.sockfd}
      else w.watched p := by
  ext fd
  by_cases hlookup : w.channels.lookup fd = some ch
  case pos =>
    obtain rfl : new.sockfd = fd := hsockfd.trans (hkeyed fd ch hlookup)
    have hleft : new.sockfd ∈ (w.assign ch new).watched p ↔ p new = true := by
      rw [mem_watched]
      simp [assign, hlookup]
    have hright : new.sockfd ∈ w.watched p ↔ p (w.objects ch) = true := by
      rw [mem_watched]
      simp [hlookup]
    rw [hleft]
    cases hnew : p new <;> cases hold : p (w.objects ch) <;>
      simp [hlookup, Finset.mem_symmDiff, hright, hold]
  case neg =>
    have hsame : fd ∈ (w.assign ch new).watched p ↔ fd ∈ w.watched p := by
      rw [mem_watched, mem_watched]
      refine exists_congr fun ch' => and_congr_right fun hlookup' => ?_
      have hne : ch' ≠ ch := by
        rintro rfl
        exact hlookup hlookup'
      rw [assign_objects, Function.update_of_ne hne]
    rw [hsame]
    split
    case isFalse => rfl
    case isTrue hturned =>
      have hne : fd ≠ new.sockfd := by
        rintro rfl
        exact hlookup hturned.1
      simp [Finset.mem_symmDiff, hne]

theorem Keyed.assign (h : w.Keyed) {new : Channel} (hsockfd : new.sockfd = (w.objects ch).sockfd) :
    (w.assign ch new).Keyed := by
  intro fd ch' hlookup
  rw [assign_objects]
  by_cases heq : ch' = ch
  case pos =>
    subst heq
    rw [Function.update_self, hsockfd]
    exact h fd ch' hlookup
  case neg =>
    rw [Function.update_of_ne heq]
    exact h fd ch' hlookup

theorem ReadCached.assign (h : w.ReadCached) {new : Channel}
    (hsockfd : new.sockfd = (w.objects ch).sockfd) : (w.assign ch new).ReadCached where
  keyed := h.keyed.assign hsockfd
  exp_eq := h.exp_eq
  rebuilt := h.rebuilt
  read_eq hflag := by
    rw [watched_assign h.keyed hsockfd]
    show w.fdReadBackup = symmDiff _ (if _ then _ else _)
    rw [h.read_eq hflag]
    split
    case isTrue => rw [symmDiff_symmDiff_symmDiff_comm, symmDiff_self, symmDiff_bot]
    case isFalse => rfl
  exp_backup_eq hflag := by
    rw [watched_assign h.keyed hsockfd, if_neg (by simp)]
    exact h.exp_backup_eq hflag
  in_range := h.in_range

end Assign

/-- When all flags are up nothing is said of the backups. -/
theorem cached_of_raised (hkeyed : w.Keyed) (hread : w.isFdReadReset = true)
    (hwrite : w.isFdWriteReset = true) (hexp : w.isFdExpReset = true) : w.settle.Cached where
  keyed := hkeyed
  exp_eq := hexp.trans hread.symm
  rebuilt _ := hwrite
  read_eq hflag := absurd (hread.symm.trans hflag) (by decide)
  exp_backup_eq hflag := absurd (hread.symm.trans hflag) (by decide)
  in_range hflag := absurd (hread.symm.trans hflag) (by decide)
  settled _ := if_pos hread
  write_eq hflag := absurd (hwrite.symm.trans hflag) (by decide)

/-- When the flag of the write set is up nothing is said of its backup. -/
theorem ReadCached.settle (h : w.ReadCached)
    (hwrite : w.isFdWriteReset = false → w.fdWriteBackup = w.watched Channel.isWriting) :
    w.settle.Cached where
  keyed := h.keyed
  exp_eq := h.exp_eq
  rebuilt := h.rebuilt
  read_eq hflag := by
    have hdown : w.isFdReadReset = false := hflag
    rw [SelectSets.settle, if_neg (by simp [hdown])]
    exact h.read_eq hdown
  exp_backup_eq := h.exp_backup_eq
  in_range := h.in_range
  settled hflag := if_pos hflag
  write_eq := hwrite

theorem Keyed.erase (h : w.Keyed) (fd : Sockfd) {w' : SelectSets Ev Ch}
    (hobjects : w'.objects = w.objects) (hchannels : w'.channels = w.channels.erase fd) :
    w'.Keyed := by
  intro fd' ch' hlookup
  rw [hchannels] at hlookup
  rw [hobjects]
  exact h fd' ch' (FdMap.lookup_erase_eq_some hlookup)

theorem Keyed.emplace (h : w.Keyed) (ch : Ch) {w' : SelectSets Ev Ch}
    (hobjects : w'.objects = w.objects)
    (hchannels : w'.channels = w.channels.emplace (w.objects ch).sockfd ch) : w'.Keyed := by
  intro fd' ch' hlookup
  rw [hchannels, FdMap.emplace] at hlookup
  rw [hobjects]
  split at hlookup
  case isTrue => exact h fd' ch' hlookup
  case isFalse =>
    rcases FdMap.lookup_insert_eq_some hlookup with ⟨rfl, rfl⟩ | hlookup
    · rfl
    · exact h fd' ch' hlookup

/-- `updateChannel` brings the write set up to date, and not the read set. -/
theorem ReadCached.update (h : w.ReadCached)
    (hwrite : w.isFdWriteReset = false → (w.objects ch).sockfd ∉ w.channels →
      w.fdWriteBackup = w.watched Channel.isWriting) : (w.update ch).Cached := by
  rw [SelectSets.update, SelectManager.updateChannel]
  split
  case isTrue hmem =>
    split
    case isTrue => exact cached_of_raised (h.keyed.erase _ rfl rfl) rfl rfl rfl
    case isFalse =>
      refine ReadCached.settle ⟨h.keyed, h.exp_eq, fun _ => rfl, h.read_eq, h.exp_backup_eq,
        h.in_range⟩ fun hflag => ?_
      exact absurd hflag (by simp)
  case isFalse hmem =>
    split
    case isTrue => exact h.settle fun hflag => hwrite hflag hmem
    case isFalse => exact cached_of_raised (h.keyed.emplace ch rfl rfl) rfl rfl rfl

theorem Cached.update (h : w.Cached) (ch : Ch) : (w.update ch).Cached :=
  h.toReadCached.update fun hflag _ => h.write_eq hflag

theorem Cached.change [DecidableEq Ch] (h : w.Cached) {new : Channel}
    (hsockfd : new.sockfd = (w.objects ch).sockfd) : ((w.assign ch new).update ch).Cached := by
  refine (h.toReadCached.assign hsockfd).update fun hflag habsent => ?_
  rw [watched_assign h.keyed hsockfd, if_neg]
  · exact h.write_eq hflag
  · rintro ⟨hlookup, -⟩
    rw [assign_objects, Function.update_self] at habsent
    have hnone : w.channels.lookup _ = none := AList.lookup_eq_none.mpr habsent
    rw [hlookup] at hnone
    cases hnone

theorem Cached.remove (h : w.Cached) (fd : Sockfd) : (w.remove fd).Cached := by
  rw [SelectSets.remove, SelectManager.removeChannel]
  split
  case isTrue => exact cached_of_raised (h.keyed.erase _ rfl rfl) rfl rfl rfl
  case isFalse => exact h.toReadCached.settle h.write_eq

theorem new_cached (clock currTimerId : ℕ) (maxFd : Sockfd) (objects : Ch → Channel)
    (wakeup : Ch) : (new Ev clock currTimerId maxFd objects wakeup).Cached :=
  Cached.update
    { keyed := fun fd ch hlookup => by cases hlookup
      exp_eq := rfl
      rebuilt := fun hflag => by cases hflag
      read_eq := fun _ => rfl
      exp_backup_eq := fun _ => rfl
      in_range := fun _ fd hfd => by cases hfd
      settled := fun _ => rfl
      write_eq := fun _ => rfl } wakeup

/-! ### The call of `select` -/

section Rebuild

variable {l : List Channel} {sets sets' : FdSets}

/-- The descriptors of the channels in a list that have a property. -/
def having (l : List Channel) (p : Channel → Bool) : FdSet :=
  ((l.filter p).map Channel.sockfd).toFinset

theorem having_cons (ch : Channel) (l : List Channel) (p : Channel → Bool) :
    having (ch :: l) p = (if p ch then {ch.sockfd} else ∅) ∪ having l p := by
  rw [having, List.filter_cons]
  split
  case isTrue => rw [List.map_cons, List.toFinset_cons, Finset.insert_eq, having]
  case isFalse => rw [Finset.empty_union, having]

/-- One round adds the descriptor of a channel to the sets that are rebuilt. -/
theorem collect_of_inRange (w : SelectSets Ev Ch) (sets : FdSets) {ch : Channel}
    (hrange : FdSet.InRange ch.sockfd) :
    ∃ sets', w.collect sets ch = .ok sets' ∧
      sets'.read = sets.read ∪ (if w.isFdReadReset && ch.isReading then {ch.sockfd} else ∅) ∧
      sets'.write = sets.write ∪ (if w.isFdWriteReset && ch.isWriting then {ch.sockfd} else ∅) ∧
      sets'.exp = sets.exp ∪ (if w.isFdExpReset then {ch.sockfd} else ∅) := by
  rw [collect]
  simp only [FdSet.setIf_of_inRange _ _ hrange, ok_bind]
  exact ⟨_, rfl, rfl, rfl, rfl⟩

/-- A round that fills the exception set needs a bit for the descriptor. -/
theorem inRange_of_collect {ch : Channel} (hexp : w.isFdExpReset = true)
    (hok : w.collect sets ch = .ok sets') : FdSet.InRange ch.sockfd := by
  rw [collect, bind_eq_ok] at hok
  obtain ⟨read, -, hok⟩ := hok
  rw [bind_eq_ok] at hok
  obtain ⟨write, -, hok⟩ := hok
  rw [bind_eq_ok, hexp] at hok
  obtain ⟨exp, hset, -⟩ := hok
  exact FdSet.inRange_of_setIf hset

theorem foldlM_collect (w : SelectSets Ev Ch) (sets : FdSets)
    (hrange : ∀ ch ∈ l, FdSet.InRange ch.sockfd) :
    ∃ sets', l.foldlM w.collect sets = .ok sets' ∧
      sets'.read = sets.read ∪ (if w.isFdReadReset then having l Channel.isReading else ∅) ∧
      sets'.write = sets.write ∪ (if w.isFdWriteReset then having l Channel.isWriting else ∅) ∧
      sets'.exp = sets.exp ∪ (if w.isFdExpReset then having l fun _ => true else ∅) := by
  induction l generalizing sets with
  | nil => exact ⟨sets, rfl, by simp [having]⟩
  | cons ch l ih =>
      obtain ⟨mid, hround, hread, hwrite, hexp⟩ :=
        collect_of_inRange w sets (hrange ch (by simp))
      obtain ⟨sets', hloop, hread', hwrite', hexp'⟩ :=
        ih mid fun ch' hch' => hrange ch' (by simp [hch'])
      refine ⟨sets', ?_, ?_, ?_, ?_⟩
      · rw [List.foldlM_cons, hround, ok_bind, hloop]
      · rw [hread', hread, having_cons, Finset.union_assoc]
        cases w.isFdReadReset <;> simp
      · rw [hwrite', hwrite, having_cons, Finset.union_assoc]
        cases w.isFdWriteReset <;> simp
      · rw [hexp', hexp, having_cons, Finset.union_assoc]
        cases w.isFdExpReset <;> simp

theorem inRange_of_foldlM (hexp : w.isFdExpReset = true)
    (hok : l.foldlM w.collect sets = .ok sets') : ∀ ch ∈ l, FdSet.InRange ch.sockfd :=
  forall_of_foldlM (fun _ _ _ => inRange_of_collect hexp) hok

theorem Keyed.having_registered (h : w.Keyed) (p : Channel → Bool) :
    having w.registered p = w.watched p := by
  ext fd
  rw [mem_watched]
  simp only [having, registered, List.mem_toFinset, List.mem_map, List.mem_filter]
  constructor
  · rintro ⟨_, ⟨⟨⟨fd', ch⟩, hmem, rfl⟩, hp⟩, rfl⟩
    have hlookup := AList.mem_lookup_iff.mpr hmem
    rw [h fd' ch hlookup]
    exact ⟨ch, hlookup, hp⟩
  · rintro ⟨ch, hlookup, hp⟩
    exact ⟨w.objects ch, ⟨⟨⟨fd, ch⟩, AList.mem_lookup_iff.mp hlookup, rfl⟩, hp⟩, h fd ch hlookup⟩

theorem Keyed.mem_registered (h : w.Keyed) {fd : Sockfd} :
    (∃ ch ∈ w.registered, ch.sockfd = fd) ↔ fd ∈ w.channels.keys := by
  rw [← AList.mem_keys, ← AList.lookup_isSome, Option.isSome_iff_exists]
  simp only [registered, List.mem_map]
  constructor
  · rintro ⟨_, ⟨⟨fd', ch⟩, hmem, rfl⟩, rfl⟩
    have hlookup := AList.mem_lookup_iff.mpr hmem
    rw [h fd' ch hlookup]
    exact ⟨ch, hlookup⟩
  · rintro ⟨ch, hlookup⟩
    exact ⟨w.objects ch, ⟨⟨fd, ch⟩, AList.mem_lookup_iff.mp hlookup, rfl⟩, h fd ch hlookup⟩

theorem fdReadBackup_refresh (w : SelectSets Ev Ch) (sets : FdSets) :
    (w.refresh sets).fdReadBackup = if w.isFdReadReset then sets.read else w.fdReadBackup := rfl

theorem fdWriteBackup_refresh (w : SelectSets Ev Ch) (sets : FdSets) :
    (w.refresh sets).fdWriteBackup = if w.isFdWriteReset then sets.write else w.fdWriteBackup :=
  rfl

theorem fdExpBackup_refresh (w : SelectSets Ev Ch) (sets : FdSets) :
    (w.refresh sets).fdExpBackup = if w.isFdExpReset then sets.exp else w.fdExpBackup := rfl

/-- The sets that are rebuilt hold the registered descriptors that are interested. -/
theorem Keyed.rebuild (h : w.Keyed)
    (hchannels : ∀ ch ∈ w.registered, FdSet.InRange ch.sockfd) :
    ∃ sets, w.rebuild = .ok sets ∧
      (w.isFdReadReset = true → sets.read = w.watched Channel.isReading) ∧
      (w.isFdWriteReset = true → sets.write = w.watched Channel.isWriting) ∧
      (w.isFdExpReset = true → sets.exp = w.watched fun _ => true) := by
  rw [SelectSets.rebuild]
  split
  case isTrue =>
    obtain ⟨sets, hloop, hread, hwrite, hexp⟩ := foldlM_collect w
      ⟨∅, ∅, ∅, if w.isFdExpReset then 0 else w.maxFd⟩ hchannels
    simp only [h.having_registered, Finset.empty_union] at hread hwrite hexp
    exact ⟨sets, hloop, fun hflag => by rw [hread, if_pos hflag],
      fun hflag => by rw [hwrite, if_pos hflag], fun hflag => by rw [hexp, if_pos hflag]⟩
  case isFalse hdown =>
    simp only [Bool.or_eq_true, not_or, Bool.not_eq_true] at hdown
    obtain ⟨⟨hread, hwrite⟩, hexp⟩ := hdown
    exact ⟨_, rfl, fun hflag => absurd (hread.symm.trans hflag) (by decide),
      fun hflag => absurd (hwrite.symm.trans hflag) (by decide),
      fun hflag => absurd (hexp.symm.trans hflag) (by decide)⟩

/-- What is passed to `select`: the read set is off by what was turned over. -/
theorem Cached.refresh (h : w.Cached) (hrange : ∀ fd ∈ w.channels.keys, FdSet.InRange fd) :
    ∃ sets, w.rebuild = .ok sets ∧ (w.refresh sets).Cached ∧
      (w.refresh sets).fdReadBackup = symmDiff (w.watched Channel.isReading) w.flipped ∧
      (w.refresh sets).fdWriteBackup = w.watched Channel.isWriting ∧
      (w.refresh sets).fdExpBackup = w.watched fun _ => true := by
  have hchannels : ∀ ch ∈ w.registered, FdSet.InRange ch.sockfd := fun ch hch =>
    hrange _ (h.keyed.mem_registered.mp ⟨ch, hch, rfl⟩)
  obtain ⟨sets, hrebuild, hread, hwrite, hexp⟩ := h.keyed.rebuild hchannels
  have hread' : (w.refresh sets).fdReadBackup =
      symmDiff (w.watched Channel.isReading) w.flipped := by
    rw [fdReadBackup_refresh]
    split
    case isTrue hflag =>
      rw [hread hflag, h.settled hflag]
      exact (symmDiff_bot _).symm
    case isFalse hflag => exact h.read_eq (Bool.eq_false_iff.mpr hflag)
  have hwrite' : (w.refresh sets).fdWriteBackup = w.watched Channel.isWriting := by
    rw [fdWriteBackup_refresh]
    split
    case isTrue hflag => exact hwrite hflag
    case isFalse hflag => exact h.write_eq (Bool.eq_false_iff.mpr hflag)
  have hexp' : (w.refresh sets).fdExpBackup = w.watched fun _ => true := by
    rw [fdExpBackup_refresh]
    split
    case isTrue hflag => exact hexp hflag
    case isFalse hflag => exact h.exp_backup_eq (h.exp_eq ▸ Bool.eq_false_iff.mpr hflag)
  exact ⟨sets, hrebuild,
    { keyed := h.keyed
      exp_eq := rfl
      rebuilt := fun hflag => by cases hflag
      read_eq := fun _ => hread'
      exp_backup_eq := fun _ => hexp'
      in_range := fun _ => hrange
      settled := fun hflag => by cases hflag
      write_eq := fun _ => hwrite' }, hread', hwrite', hexp'⟩

theorem handleEvent_of_empty (hempty : w.channels.entries.isEmpty = true) (msTimeout : ℤ)
    (outcome : SelectOutcome) : w.handleEvent msTimeout outcome = .ok (⟨none, true, []⟩, w) :=
  if_pos hempty

theorem rebuild_of_handleEvent {msTimeout : ℤ} {outcome : SelectOutcome} {polled : Polled Ch}
    (hne : w.channels.entries.isEmpty = false)
    (hok : w.handleEvent msTimeout outcome = .ok (polled, w')) :
    ∃ sets, w.rebuild = .ok sets := by
  rw [SelectSets.handleEvent, if_neg (by simp [hne]), bind_eq_ok] at hok
  obtain ⟨sets, hrebuild, -⟩ := hok
  exact ⟨sets, hrebuild⟩

/-- The exception set can be rebuilt only when all registered descriptors have a bit. -/
theorem Keyed.inRange_of_rebuild (h : w.Keyed) {sets : FdSets} (hexp : w.isFdExpReset = true)
    (hok : w.rebuild = .ok sets) : ∀ fd ∈ w.channels.keys, FdSet.InRange fd := by
  rw [SelectSets.rebuild, if_pos (by simp [hexp])] at hok
  intro fd hfd
  obtain ⟨ch, hch, rfl⟩ := h.mem_registered.mpr hfd
  exact inRange_of_foldlM hexp hok ch hch

/-- `handleEvent` returns only when all registered descriptors have a bit. -/
theorem Cached.inRange_of_handleEvent (h : w.Cached) {msTimeout : ℤ} {outcome : SelectOutcome}
    {polled : Polled Ch} (hne : w.channels.entries.isEmpty = false)
    (hok : w.handleEvent msTimeout outcome = .ok (polled, w')) :
    ∀ fd ∈ w.channels.keys, FdSet.InRange fd := by
  obtain ⟨sets, hrebuild⟩ := rebuild_of_handleEvent hne hok
  cases hflag : w.isFdReadReset with
  | false => exact h.in_range hflag
  | true => exact h.keyed.inRange_of_rebuild (h.exp_eq.trans hflag) hrebuild

theorem Cached.handleEvent (h : w.Cached) (hne : w.channels.entries.isEmpty = false)
    (hrange : ∀ fd ∈ w.channels.keys, FdSet.InRange fd) (msTimeout : ℤ)
    (outcome : SelectOutcome) :
    ∃ polled w' call, w.handleEvent msTimeout outcome = .ok (polled, w') ∧ w'.Cached ∧
      polled.call = some call ∧
      call.read = symmDiff (w.watched Channel.isReading) w.flipped ∧
      call.write = w.watched Channel.isWriting ∧ call.exp = w.watched fun _ => true := by
  obtain ⟨sets, hrebuild, hcached, hread, hwrite, hexp⟩ := h.refresh hrange
  rw [SelectSets.handleEvent, if_neg (by simp [hne]), hrebuild, ok_bind]
  cases outcome with
  | failed interrupted => exact ⟨_, _, _, rfl, hcached, rfl, hread, hwrite, hexp⟩
  | ready read write exp => exact ⟨_, _, _, rfl, hcached, rfl, hread, hwrite, hexp⟩

end Rebuild

/-! ### Runs -/

theorem Cached.step [DecidableEq Ch] {op : SelectOp Ch} {answer : Option (Polled Ch)} (h : w.Cached)
    (hstep : w.selectStep op = .ok (answer, w')) : w'.Cached := by
  cases op with
  | updateChannel ch =>
      cases hstep
      exact h.update ch
  | change interest ch =>
      cases hstep
      exact h.change (interest.apply_sockfd _)
  | removeChannel fd =>
      cases hstep
      exact h.remove fd
  | handleEvent msTimeout outcome =>
      rw [selectStep, bind_eq_ok] at hstep
      obtain ⟨⟨polled, w''⟩, hhandle, hstep⟩ := hstep
      cases hstep
      cases hempty : w.channels.entries.isEmpty with
      | true =>
          rw [handleEvent_of_empty hempty] at hhandle
          cases hhandle
          exact h
      | false =>
          obtain ⟨_, _, _, hok, hcached, -⟩ :=
            h.handleEvent hempty (h.inRange_of_handleEvent hempty hhandle) msTimeout outcome
          rw [hhandle] at hok
          cases hok
          exact hcached

/-- A call of `select` is given the right sets exactly when no interest in reading is turned
over. -/
theorem Cached.watchesRegistered_iff (h : w.Cached) (op : SelectOp Ch) :
    w.WatchesRegistered op ↔ w.UpToDate op := by
  cases op with
  | updateChannel ch => exact Iff.rfl
  | change interest ch => exact Iff.rfl
  | removeChannel fd => exact Iff.rfl
  | handleEvent msTimeout outcome =>
      rw [WatchesRegistered, UpToDate]
      cases hempty : w.channels.entries.isEmpty with
      | true =>
          exact iff_of_true
            ⟨_, w, handleEvent_of_empty hempty _ _, fun call hcall => by cases hcall⟩ (.inl rfl)
      | false =>
          constructor
          · rintro ⟨polled, w', hhandle, hcall⟩
            have hrange := h.inRange_of_handleEvent hempty hhandle
            obtain ⟨polled', _, call, hok, -, hsome, hread, -⟩ :=
              h.handleEvent hempty hrange msTimeout outcome
            rw [hhandle] at hok
            cases hok
            refine .inr ⟨?_, hrange⟩
            have hright := (hcall call hsome).1
            rw [hread] at hright
            exact symmDiff_eq_left.mp hright
          · rintro (hempty' | ⟨hflipped, hrange⟩)
            · cases hempty'
            · obtain ⟨polled, w', call, hok, -, hsome, hread, hwrite, -⟩ :=
                h.handleEvent hempty hrange msTimeout outcome
              refine ⟨polled, w', hok, fun call' hcall' => ?_⟩
              rw [hsome] at hcall'
              cases hcall'
              rw [hread, hflipped]
              exact ⟨symmDiff_bot _, hwrite⟩

variable [DecidableEq Ch]

theorem Cached.along_iff (h : w.Cached) (ops : List (SelectOp Ch)) :
    Along selectStep WatchesRegistered w ops ↔ Along selectStep UpToDate w ops :=
  along_iff_along (V := fun _ _ => True) (fun _ _ _ _ h _ hstep => h.step hstep)
    (fun _ op h _ => h.watchesRegistered_iff op) h (along_of_forall_mem fun _ _ => trivial)

/-- In a run every call of `select` is given the registered descriptors that are interested
exactly when, at each call, no registered descriptor had its interest in reading turned over
since the read set was rebuilt, and all of them have a bit. -/
theorem watches_registered_iff (clock currTimerId : ℕ) (maxFd : Sockfd) (objects : Ch → Channel)
    (wakeup : Ch) (ops : List (SelectOp Ch)) :
    Along selectStep WatchesRegistered (new Ev clock currTimerId maxFd objects wakeup) ops ↔
      Along selectStep UpToDate (new Ev clock currTimerId maxFd objects wakeup) ops :=
  (new_cached clock currTimerId maxFd objects wakeup).along_iff ops

/-- A wakeup channel for reading, and a channel that is to write. -/
def twoChannels : Bool → Channel
  | false => ⟨3, EVENT_IN⟩
  | true => ⟨4, EVENT_OUT⟩

/-- The second channel is enabled for reading after the sets were built: `select` is not told. -/
theorem select_misses_reading :
    ¬ Along selectStep WatchesRegistered (new Unit 0 1 0 twoChannels false)
      [.updateChannel true, .handleEvent 0 (.ready ∅ ∅ ∅), .change .enableReading true,
        .handleEvent 0 (.ready ∅ ∅ ∅)] := by
  rw [(new_cached 0 1 0 twoChannels false).along_iff]
  decide +kernel

end SelectSets

end LpNet
