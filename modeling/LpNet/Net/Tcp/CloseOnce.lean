import LpNet.Net.Tcp.Reentry

/-!
How often a connection is closed, over the runs of its threads.

`close()` tests `running_` and stores false into it in two steps, and the trigger event of
`disconnect()` takes them without `mutex_`. The frames of all threads are counted by what they
are still to do: `Booked` is what holds in every run, and `closings`, the removals that are
done or are to come, is what two closes that overlap make too large for good.
-/

namespace LpNet

open Transition

namespace Frame

/-- The frame removes the channel, or goes on to do so. -/
@[simp] def removes : Frame → Bool
  | closeStore _ | removeChannel _ => true
  | _ => false

@[simp] def isRemoval : Frame → Bool
  | removeChannel _ => true
  | _ => false

@[simp] def callsClose : Frame → Bool
  | closeCb _ => true
  | _ => false

/-- The frame calls `disconnect_cb_`, or goes on to do so. -/
@[simp] def callsDisconnect : Frame → Bool
  | closeCb _ | disconnectCb _ => true
  | _ => false

end Frame

namespace ConnThreads

def frames (s : ConnThreads) (p : Frame → Bool) : ℕ := s.threads.flatten.countP p

/-- The removals of the channel, and those to come. -/
def closings (s : ConnThreads) : ℕ := s.removals + s.frames Frame.removes

/-- The channel is removed at most once, and each callback is called at most once. -/
def ClosedOnce (s : ConnThreads) : Prop :=
  s.removals ≤ 1 ∧ s.closeCalls ≤ 1 ∧ s.disconnectCalls ≤ 1

instance (s : ConnThreads) : Decidable s.ClosedOnce := inferInstanceAs (Decidable (_ ∧ _))

/-- The step is a test of `running_` in `close`, and finds true. -/
def Passes (s : ConnThreads) : ConnOp → Prop
  | .run thread _ =>
      s.running = true ∧ ∃ entry rest, s.threads[thread]? = some (.closeTest entry :: rest)
  | _ => False

/-- No `close` finds `running_` true while another one is between its test and its store. -/
def Alone (s : ConnThreads) (op : ConnOp) : Prop :=
  s.Passes op → ∀ stack ∈ s.threads, ∀ entry, Frame.closeStore entry ∉ stack

def Returned (s : ConnThreads) : Prop := ∀ stack ∈ s.threads, stack = []

instance (s : ConnThreads) : Decidable s.Returned :=
  inferInstanceAs (Decidable (∀ stack ∈ s.threads, stack = []))

/-- While the connection runs the channel is not removed, and each callback was called, or is to
be called, once for each removal at most. -/
structure Booked (s : ConnThreads) : Prop where
  fresh : s.running = true → s.removals + s.frames Frame.isRemoval = 0
  close : s.closeCalls + s.frames Frame.callsClose ≤ s.removals
  disconnect : s.disconnectCalls + s.frames Frame.callsDisconnect ≤ s.removals

/-- What a step books that replaces frames by others. `new` is how many closes it begins. -/
structure Books (s s' : ConnThreads) (old frames : List Frame) (new : ℕ) : Prop where
  running : s'.running = true → s.running = true ∧
    s'.removals + frames.countP Frame.isRemoval = s.removals + old.countP Frame.isRemoval
  removals : s'.removals + frames.countP Frame.removes =
    s.removals + old.countP Frame.removes + new
  close : s'.closeCalls + frames.countP Frame.callsClose + s.removals ≤
    s.closeCalls + old.countP Frame.callsClose + s'.removals
  disconnect : s'.disconnectCalls + frames.countP Frame.callsDisconnect + s.removals ≤
    s.disconnectCalls + old.countP Frame.callsDisconnect + s'.removals

/-- A step of one thread, with what it books. -/
def Stepped (s s' : ConnThreads) (new : ℕ) : Prop :=
  ∃ thread old frames rest, s.threads[thread]? = some (old ++ rest) ∧
    s'.threads = s.threads.set thread (frames ++ rest) ∧ Books s s' old frames new

section Steps

variable {junk : ℕ → Byte} {s s' : ConnThreads} {thread : ℕ}

theorem exec_books_pass {entry : Entry} {frames : List Frame} {io : ChannelIo}
    (hrun : s.running = true)
    (hexec : s.exec junk thread io (.closeTest entry) = .ok (frames, s')) :
    Books s s' [.closeTest entry] frames 1 := by
  cases hexec
  rw [if_pos hrun]
  constructor <;> simp

theorem exec_books {frame : Frame} {frames : List Frame} {io : ChannelIo}
    (hpass : ∀ entry, frame = .closeTest entry → s.running = false)
    (hexec : s.exec junk thread io frame = .ok (frames, s')) : Books s s' [frame] frames 0 := by
  cases frame with
  | closeTest entry =>
      cases hexec
      simp only [hpass entry rfl]
      constructor <;> simp
  | lock | closeCb entry | disconnectCb entry =>
    all_goals
      rw [exec] at hexec
      split at hexec <;> cases hexec
      all_goals constructor <;> simp
  | sendTest caller data len | readTest | writeTest =>
    all_goals
      cases hexec
      split_ifs
      all_goals constructor <;> simp [sendBody, eventBody]
  | append data len =>
      obtain ⟨answer, -, heq⟩ := bind_eq_ok.mp hexec
      cases heq
      constructor <;> simp
  | read | write =>
    all_goals
      obtain ⟨answer, -, heq⟩ := bind_eq_ok.mp hexec
      cases heq
      split_ifs
      all_goals constructor <;> simp
  | user cb entry => cases hexec
  | post | unlock | closeStore entry | removeChannel entry =>
    all_goals
      cases hexec
      constructor <;> simp +arith

theorem replyFrames_books (cb : UserCallback) (entry : Entry) (act : UserAct) :
    Books s s [.user cb entry] (replyFrames cb entry act) 0 := by
  cases act with
  | send data len | disconnect => constructor <;> simp [replyFrames, disconnectBody]
  | «return» result =>
      rw [replyFrames]
      split_ifs
      all_goals constructor <;> simp

theorem Books.threads {old frames : List Frame} {new : ℕ} (h : Books s s' old frames new)
    (threads : List (List Frame)) : Books s { s' with threads := threads } old frames new :=
  ⟨h.running, h.removals, h.close, h.disconnect⟩

theorem Call.books {frames : List Frame} (h : Call frames) : Books s s [] frames 0 := by
  cases h with
  | send | close => constructor <;> simp
  | disconnect => constructor <;> simp [disconnectBody]
  | event entry => cases entry <;> constructor <;> simp [eventBody]

/-- A test of `running_` in `close` that finds true. -/
theorem step_pass {op : ConnOp} {u : Unit} (hpass : s.Passes op)
    (hstep : s.step junk op = .ok (u, s')) : Stepped s s' 1 := by
  cases op with
  | run thread io =>
      obtain ⟨hrun, entry, rest, hhead⟩ := hpass
      simp only [step, hhead, bind_eq_ok] at hstep
      obtain ⟨⟨frames, s₁⟩, hexec, hset⟩ := hstep
      cases hset
      refine ⟨thread, [.closeTest entry], frames, rest, hhead, rfl, ?_⟩
      exact (exec_books_pass hrun hexec).threads _
  | send thread data len | disconnect thread | event thread entry | trigger | reply thread act =>
    exact hpass.elim

theorem step_stepped {op : ConnOp} {u : Unit} (hpass : ¬ s.Passes op)
    (hstep : s.step junk op = .ok (u, s')) : Stepped s s' 0 := by
  obtain ⟨thread, frames, posted, hcall, hidle, rfl⟩ |
    ⟨thread, io, frame, rest, frames, s₁, rfl, hhead, hexec, rfl⟩ |
    ⟨thread, act, cb, entry, rest, rfl, hhead, rfl⟩ := step_cases hstep
  · obtain ⟨hrunning, hremovals, hclose, hdisconnect⟩ := @Call.books s frames hcall
    refine ⟨thread, [], frames, [], hidle, ?_, ⟨hrunning, hremovals, hclose, hdisconnect⟩⟩
    rw [List.append_nil]
  · have hclose : ∀ entry, frame = .closeTest entry → s.running = false := by
      rintro entry rfl
      rw [← Bool.not_eq_true]
      exact fun hrun => hpass ⟨hrun, entry, rest, hhead⟩
    exact ⟨thread, [frame], frames, rest, hhead, rfl, (exec_books hclose hexec).threads _⟩
  · exact ⟨thread, [.user cb entry], replyFrames cb entry act, rest, hhead, rfl,
      (replyFrames_books cb entry act).threads _⟩

theorem count_set {threads : List (List Frame)} {stack : List Frame} (p : Frame → Bool)
    (h : threads[thread]? = some stack) (stack' : List Frame) :
    (threads.set thread stack').flatten.countP p + stack.countP p =
      threads.flatten.countP p + stack'.countP p := by
  induction threads generalizing thread with
  | nil => cases h
  | cons head threads ih =>
      cases thread with
      | zero =>
          cases h
          simp only [List.set_cons_zero, List.flatten_cons, List.countP_append]
          omega
      | succ thread =>
          have hrest := ih h
          simp only [List.set_cons_succ, List.flatten_cons, List.countP_append]
          omega

theorem frames_set {old new rest : List Frame} (p : Frame → Bool)
    (h : s.threads[thread]? = some (old ++ rest))
    (hthreads : s'.threads = s.threads.set thread (new ++ rest)) :
    s'.frames p + old.countP p = s.frames p + new.countP p := by
  have hset := count_set p h (new ++ rest)
  rw [List.countP_append, List.countP_append] at hset
  rw [frames, frames, hthreads]
  omega

theorem Stepped.booked {new : ℕ} (h : Stepped s s' new) (hbooked : Booked s) : Booked s' := by
  obtain ⟨thread, old, frames, rest, hold, hthreads, hbooks⟩ := h
  have hcount := fun p => frames_set p hold hthreads
  have hclose := hcount Frame.callsClose
  have hdisconnect := hcount Frame.callsDisconnect
  have hremoval := hcount Frame.isRemoval
  refine ⟨fun hrun => ?_, ?_, ?_⟩
  · obtain ⟨hrun', heq⟩ := hbooks.running hrun
    have hfresh := hbooked.fresh hrun'
    omega
  · have := hbooks.close
    have := hbooked.close
    omega
  · have := hbooks.disconnect
    have := hbooked.disconnect
    omega

theorem Stepped.closings {new : ℕ} (h : Stepped s s' new) : s'.closings = s.closings + new := by
  obtain ⟨thread, old, frames, rest, hold, hthreads, hbooks⟩ := h
  have hcount := frames_set Frame.removes hold hthreads
  have hremovals := hbooks.removals
  rw [ConnThreads.closings, ConnThreads.closings]
  omega

theorem closings_of_alone {op : ConnOp} (hbooked : Booked s) (hpass : s.Passes op)
    (halone : s.Alone op) : s.closings = 0 := by
  have hrun : s.running = true := by
    cases op with
    | run thread io => exact hpass.1
    | send thread | disconnect thread | event thread entry | trigger | reply thread act =>
      exact hpass.elim
  have hfresh := hbooked.fresh hrun
  have hremovals : s.frames Frame.removes = 0 := by
    rw [frames, List.countP_eq_zero]
    intro frame hframe hremoves
    cases frame with
    | closeStore entry =>
        obtain ⟨stack, hstack, hmem⟩ := List.mem_flatten.mp hframe
        exact halone hpass stack hstack entry hmem
    | removeChannel entry =>
        have hpos : 0 < s.frames Frame.isRemoval := List.countP_pos_iff.mpr ⟨_, hframe, rfl⟩
        omega
    | _ => cases hremoves
  rw [closings]
  omega

theorem closings_of_not_alone {op : ConnOp} (hop : ¬ s.Alone op) :
    s.Passes op ∧ 0 < s.closings := by
  rw [Alone, Classical.not_imp] at hop
  obtain ⟨hpass, hstore⟩ := hop
  push Not at hstore
  obtain ⟨stack, hstack, entry, hmem⟩ := hstore
  have hpos : 0 < s.frames Frame.removes :=
    List.countP_pos_iff.mpr ⟨_, List.mem_flatten.mpr ⟨stack, hstack, hmem⟩, rfl⟩
  exact ⟨hpass, Nat.add_pos_right _ hpos⟩

theorem step_booked {op : ConnOp} {u : Unit} (hbooked : Booked s)
    (hstep : s.step junk op = .ok (u, s')) : Booked s' := by
  by_cases hpass : s.Passes op
  case pos => exact (step_pass hpass hstep).booked hbooked
  case neg => exact (step_stepped hpass hstep).booked hbooked

theorem step_closings_le {op : ConnOp} {u : Unit} (hbooked : Booked s) (halone : s.Alone op)
    (hle : s.closings ≤ 1) (hstep : s.step junk op = .ok (u, s')) : s'.closings ≤ 1 := by
  by_cases hpass : s.Passes op
  case pos =>
    have hzero := closings_of_alone hbooked hpass halone
    have hone := (step_pass hpass hstep).closings
    omega
  case neg =>
    have hsame := (step_stepped hpass hstep).closings
    omega

theorem closings_le_step {op : ConnOp} {u : Unit} (hstep : s.step junk op = .ok (u, s')) :
    s.closings ≤ s'.closings := by
  by_cases hpass : s.Passes op
  case pos =>
    have hone := (step_pass hpass hstep).closings
    omega
  case neg =>
    have hsame := (step_stepped hpass hstep).closings
    omega

theorem Booked.closedOnce (hbooked : Booked s) (hle : s.closings ≤ 1) : s.ClosedOnce := by
  have hclose := hbooked.close
  have hdisconnect := hbooked.disconnect
  rw [closings] at hle
  refine ⟨?_, ?_, ?_⟩ <;> omega

theorem Returned.closings (h : s.Returned) : s.closings = s.removals := by
  have hnone : s.frames Frame.removes = 0 := by
    rw [frames, List.countP_eq_zero]
    intro frame hframe
    obtain ⟨stack, hstack, hmem⟩ := List.mem_flatten.mp hframe
    rw [h stack hstack] at hmem
    cases hmem
  rw [ConnThreads.closings, hnone, Nat.add_zero]

end Steps

/-! ### Whole runs -/

theorem start_frames (junk : ℕ → Byte) (writeBuffer : BufferWriter) (n posted : ℕ)
    (readCb closeCb disconnectCb : Bool) (p : Frame → Bool) :
    (start junk writeBuffer n posted readCb closeCb disconnectCb).frames p = 0 := by
  simp [frames, start]

theorem booked_start (junk : ℕ → Byte) (writeBuffer : BufferWriter) (n posted : ℕ)
    (readCb closeCb disconnectCb : Bool) :
    (start junk writeBuffer n posted readCb closeCb disconnectCb).Booked := by
  constructor <;> simp [start_frames] <;> simp [start]

/-- A connection of which no two closes overlap is closed once at most in every state of the run,
and of a run after which all calls have returned this is the only way. -/
theorem closedOnce_of_alone (junk : ℕ → Byte) (writeBuffer : BufferWriter) (n posted : ℕ)
    (readCb closeCb disconnectCb : Bool) (ops : List ConnOp) :
    (Along (step junk) Alone (start junk writeBuffer n posted readCb closeCb disconnectCb) ops →
      AlongStates (step junk) ClosedOnce
        (start junk writeBuffer n posted readCb closeCb disconnectCb) ops) ∧
    ∀ us t,
      run (step junk) (start junk writeBuffer n posted readCb closeCb disconnectCb) ops =
        .ok (us, t) →
      t.Returned →
      (AlongStates (step junk) ClosedOnce
          (start junk writeBuffer n posted readCb closeCb disconnectCb) ops ↔
        Along (step junk) Alone
          (start junk writeBuffer n posted readCb closeCb disconnectCb) ops) := by
  have hbooked := booked_start junk writeBuffer n posted readCb closeCb disconnectCb
  have hle : (start junk writeBuffer n posted readCb closeCb disconnectCb).closings ≤ 1 := by
    rw [closings, start_frames]
    exact Nat.zero_le 1
  generalize start junk writeBuffer n posted readCb closeCb disconnectCb = s₀ at hbooked hle ⊢
  have hkeep : ∀ s op u s', Booked s ∧ s.closings ≤ 1 → s.Alone op →
      s.step junk op = .ok (u, s') → Booked s' ∧ s'.closings ≤ 1 := fun s op u s' h halone hstep =>
    ⟨step_booked h.1 hstep, step_closings_le h.1 halone h.2 hstep⟩
  have hsafe : Along (step junk) Alone s₀ ops → AlongStates (step junk) ClosedOnce s₀ ops :=
    alongStates_of_along hkeep (fun s h => h.1.closedOnce h.2) ⟨hbooked, hle⟩
  refine ⟨hsafe, fun us t hrun hreturned => ⟨fun honce => ?_, hsafe⟩⟩
  have hany : Along (step junk) (fun _ _ => True) s₀ ops := along_of_forall_mem fun _ _ => trivial
  have hexact : t.closings ≤ 1 ↔ Along (step junk) Alone s₀ ops := by
    refine holds_iff_along (E := fun s => Booked s ∧ s.closings ≤ 1) (L := fun s => 1 < s.closings)
      ?_ ?_ ?_ (fun s h => h.2) (fun s h => Nat.not_le.mpr h) ⟨hbooked, hle⟩ hany hrun
    · exact fun s op u s' h _ halone hstep => hkeep s op u s' h halone hstep
    · intro s op u s' h _ hop hstep
      obtain ⟨hpass, hpos⟩ := closings_of_not_alone hop
      rw [(step_pass hpass hstep).closings]
      exact Nat.succ_lt_succ hpos
    · exact fun s op u s' h _ hstep => Nat.lt_of_lt_of_le h (closings_le_step hstep)
  refine hexact.mp ?_
  rw [hreturned.closings]
  exact (honce.last hrun).1

/-- `onClose`, and nothing else. -/
theorem closedOnce_of_alone_single :
    Along (step fun _ => 0) Alone (start (fun _ => 0) (.new 2) 1 0 false true true)
      (.event 0 .onClose :: List.replicate 5 (.run 0 ⟨⟨none, none⟩, none⟩) ++
        [.reply 0 (.return true), .run 0 ⟨⟨none, none⟩, none⟩, .reply 0 (.return true),
          .run 0 ⟨⟨none, none⟩, none⟩]) :=
  ((closedOnce_of_alone (fun _ => 0) (.new 2) 1 0 false true true _).2 _ _ rfl (by decide)).mp
    (by decide)

/-- Two threads send. The first one's `onWrite` and that of an `EVENT_OUT` take both messages, so
that the second thread finds the queue empty and closes, while the scheduler closes for a
`disconnect`: both test `running_` before either stores into it. -/
theorem closed_twice : ∃ us t,
    run (step fun _ => 0) (start (fun _ => 0) (.new 2) 3 0 false true true)
      (.send 1 [7] 1 :: List.replicate 4 (.run 1 ⟨⟨none, none⟩, some 1⟩) ++
        .send 2 [8] 1 :: List.replicate 4 (.run 2 ⟨⟨none, none⟩, some 1⟩) ++
        List.replicate 4 (.run 1 ⟨⟨none, none⟩, some 1⟩) ++
        .disconnect 1 :: List.replicate 3 (.run 1 ⟨⟨none, none⟩, some 1⟩) ++
        .event 0 .onWrite :: List.replicate 4 (.run 0 ⟨⟨none, none⟩, some 1⟩) ++
        List.replicate 4 (.run 2 ⟨⟨none, none⟩, some 1⟩) ++
        .trigger :: List.replicate 4 (.run 0 ⟨⟨none, none⟩, some 1⟩) ++
        .reply 0 (.return true) :: .run 0 ⟨⟨none, none⟩, some 1⟩ :: .reply 0 (.return true) ::
        List.replicate 3 (.run 2 ⟨⟨none, none⟩, some 1⟩) ++
        .reply 2 (.return true) :: .run 2 ⟨⟨none, none⟩, some 1⟩ :: .reply 2 (.return true) ::
        [.run 2 ⟨⟨none, none⟩, some 1⟩]) = .ok (us, t) ∧
    t.Returned ∧ t.removals = 2 ∧ t.closeCalls = 2 ∧ t.disconnectCalls = 2 :=
  ⟨_, _, rfl, by decide, rfl, rfl, rfl⟩

end ConnThreads

end LpNet
