import LpNet.Mm.Arena

/-!
`allocateAligned` near the largest `size_t`.

The fit test compares `nbytes + slop` with what is left of the current block, and the sum
wraps for the last few sizes when `alloc_ptr_` is not aligned. `ArenaM` has the functions of
the class statement by statement, so that an exception keeps what was assigned before it, and
`allocateAligned_does` says that one that throws has assigned nothing. The requests before
the call are of any size, with 0, and `Room` is what they keep. `aligned_safe_iff` says that
a run goes right exactly as long as no sum wraps, and `aligned_placed_iff` when a sum that
wraps does harm.
-/

namespace LpNet

open Transition

/-! ### Exceptions -/

/-- A function of the class. One that throws leaves the arena as it was at that point. -/
abbrev ArenaM := ExceptT Fault (StateM Arena)

namespace ArenaM

open Arena

def newChars : Option ℕ → ArenaM ℕ
  | none => throw .badAlloc
  | some res => pure res

def allocateNewBlock (blockBytes : ℕ) (answer : Option ℕ) : ArenaM ℕ := do
  let res ← newChars answer
  modify fun a => { a with blocks := a.blocks ++ [⟨res, blockBytes⟩] }
  modify fun a => { a with memoryUsage := SizeT.add a.memoryUsage (SizeT.add blockBytes 8) }
  return res

def allocateFallBack (nbytes : ℕ) (answer : Option ℕ) : ArenaM ℕ :=
  if nbytes > kBlockSize / 4 then allocateNewBlock nbytes answer
  else do
    let block ← allocateNewBlock kBlockSize answer
    modify fun a => { a with allocPtr := block, current := some ⟨block, kBlockSize⟩ }
    modify fun a => { a with allocBytesRemaining := kBlockSize }
    let res := (← get).allocPtr
    modify fun a => { a with allocPtr := a.allocPtr + nbytes }
    modify fun a => { a with allocBytesRemaining := SizeT.sub a.allocBytesRemaining nbytes }
    return res

/-- `allocateAligned(nbytes)` up to its assertion. -/
def cutOrFallBack (nbytes : ℕ) (answer : Option ℕ) : ArenaM ℕ := do
  let slop := (← get).slop
  let needed := SizeT.add nbytes slop
  if needed ≤ (← get).allocBytesRemaining then
    let res := (← get).allocPtr + slop
    modify fun a => { a with allocPtr := a.allocPtr + needed }
    modify fun a => { a with allocBytesRemaining := SizeT.sub a.allocBytesRemaining needed }
    return res
  else allocateFallBack nbytes answer

def allocateAligned (nbytes : ℕ) (answer : Option ℕ) : ArenaM ℕ := do
  let res ← cutOrFallBack nbytes answer
  if res &&& (align - 1) = 0 then return res else throw .terminated

variable {a a' : Arena} {nbytes res : ℕ} {answer : Option ℕ}

/-- What a call that starts in `a` does, as long as it is not ended by a failed assertion. -/
structure Does (f : ArenaM ℕ) (a : Arena) (outcome : Except Fault (ℕ × Arena)) : Prop where
  returns : ∀ res a', outcome = .ok (res, a') → f.run.run a = (.ok res, a')
  throws : outcome = .error .badAlloc → f.run.run a = (.error .badAlloc, a)

theorem does_badAlloc {f : ArenaM ℕ} (h : f.run.run a = (.error .badAlloc, a)) :
    Does f a (.error .badAlloc) where
  returns res a' hok := by cases hok
  throws _ := h

theorem does_ok {f : ArenaM ℕ} (h : f.run.run a = (.ok res, a')) : Does f a (.ok (res, a')) where
  returns res a' hok := by
    cases hok
    exact h
  throws hbad := by cases hbad

theorem does_other {f : ArenaM ℕ} {fault : Fault} (h : fault ≠ .badAlloc) :
    Does f a (.error fault) where
  returns res a' hok := by cases hok
  throws hbad := absurd (Except.error.inj hbad) h

theorem Does.congr {f g : ArenaM ℕ} {outcome : Except Fault (ℕ × Arena)}
    (hrun : f.run.run a = g.run.run a) (h : Does g a outcome) : Does f a outcome where
  returns res a' hok := hrun.trans (h.returns res a' hok)
  throws hbad := hrun.trans (h.throws hbad)

theorem allocateNewBlock_does (blockBytes : ℕ) (answer : Option ℕ) :
    Does (allocateNewBlock blockBytes answer) a (a.allocateNewBlock blockBytes answer) := by
  cases answer with
  | none => exact does_badAlloc rfl
  | some ptr => exact does_ok rfl

theorem allocateFallBack_does (nbytes : ℕ) (answer : Option ℕ) :
    Does (allocateFallBack nbytes answer) a (a.allocateFallBack nbytes answer) := by
  rw [allocateFallBack, Arena.allocateFallBack]
  split
  case isTrue => exact allocateNewBlock_does nbytes answer
  case isFalse =>
    cases answer with
    | none => exact does_badAlloc rfl
    | some ptr => exact does_ok rfl

theorem run_get_bind (f : Arena → ArenaM ℕ) : (get >>= f).run.run a = (f a).run.run a := rfl

theorem run_bind_ok {f : ArenaM ℕ} (h : f.run.run a = (.ok res, a')) (next : ℕ → ArenaM ℕ) :
    (f >>= next).run.run a = (next res).run.run a' := by
  rw [ExceptT.run_bind, StateT.run_bind, h]
  rfl

theorem run_bind_error {f : ArenaM ℕ} {fault : Fault} (h : f.run.run a = (.error fault, a'))
    (next : ℕ → ArenaM ℕ) : (f >>= next).run.run a = (.error fault, a') := by
  rw [ExceptT.run_bind, StateT.run_bind, h]
  rfl

theorem cutOrFallBack_does (nbytes : ℕ) (answer : Option ℕ) :
    Does (cutOrFallBack nbytes answer) a
      (if SizeT.add nbytes a.slop ≤ a.allocBytesRemaining then
        .ok (a.allocPtr + a.slop,
          { a with allocPtr := a.allocPtr + SizeT.add nbytes a.slop
                   allocBytesRemaining :=
                     SizeT.sub a.allocBytesRemaining (SizeT.add nbytes a.slop) })
      else a.allocateFallBack nbytes answer) := by
  have hrun : (cutOrFallBack nbytes answer).run.run a =
      (if SizeT.add nbytes a.slop ≤ a.allocBytesRemaining then do
        modify fun a' => { a' with allocPtr := a'.allocPtr + SizeT.add nbytes a.slop }
        modify fun a' => { a' with
          allocBytesRemaining := SizeT.sub a'.allocBytesRemaining (SizeT.add nbytes a.slop) }
        return a.allocPtr + a.slop
      else allocateFallBack nbytes answer : ArenaM ℕ).run.run a := by
    rw [cutOrFallBack, run_get_bind]
    dsimp only
    rw [run_get_bind]
    split <;> rfl
  apply Does.congr hrun
  split
  case isTrue => exact does_ok rfl
  case isFalse => exact allocateFallBack_does nbytes answer

theorem Does.check {f : ArenaM ℕ} {outcome : Except Fault (ℕ × Arena)} (h : Does f a outcome) :
    Does (do
        let res ← f
        if res &&& (align - 1) = 0 then return res else throw .terminated) a
      (do
        let (res, a) ← outcome
        if res &&& (align - 1) = 0 then .ok (res, a) else .error .terminated) := by
  cases outcome with
  | error fault =>
      rw [error_bind]
      by_cases hbad : fault = .badAlloc
      case pos =>
        subst hbad
        exact does_badAlloc (run_bind_error (h.throws rfl) _)
      case neg => exact does_other hbad
  | ok out =>
      rw [ok_bind]
      dsimp only
      split
      case isTrue haligned =>
        apply does_ok
        rw [run_bind_ok (h.returns _ _ rfl), if_pos haligned]
        rfl
      case isFalse => exact does_other (by decide)

theorem allocateAligned_does (nbytes : ℕ) (answer : Option ℕ) :
    Does (allocateAligned nbytes answer) a (a.allocateAligned nbytes answer) := by
  have hdoes := (cutOrFallBack_does nbytes answer (a := a)).check
  rw [Arena.allocateAligned]
  dsimp only
  split
  case isTrue hroom => rwa [if_pos hroom] at hdoes
  case isFalse hroom => rwa [if_neg hroom] at hdoes

end ArenaM

namespace ArenaLog

open Arena

/-- A request of any `size_t`. What `new char[]` returns is aligned, apart from the blocks there
are, and in the address space. -/
def Provided (s : ArenaLog) : ArenaOp → Prop
  | .allocate nbytes answer | .allocateAligned nbytes answer =>
      nbytes < 2 ^ 64 ∧ s.Fresh (asked nbytes) answer ∧
        ∀ ptr ∈ answer, ptr + asked nbytes ≤ 2 ^ 64

instance (s : ArenaLog) (size : ℕ) (answer : Option ℕ) : Decidable (s.Fresh size answer) :=
  inferInstanceAs (Decidable (∀ ptr ∈ answer, ptr % 8 = 0 ∧ ∀ block ∈ s.arena.blocks, _))

instance (s : ArenaLog) (op : ArenaOp) : Decidable (s.Provided op) :=
  match op with
  | .allocate _ _ | .allocateAligned _ _ => inferInstanceAs (Decidable (_ ∧ _ ∧ _))

/-- A call of `allocateAligned` for at least one byte throws and leaves `alloc_ptr_`,
`alloc_bytes_remaining_` and `memoryUsage()` unchanged, or it returns as many bytes as it is asked
for, in one block, of which none was granted before. -/
def Placed (s : ArenaLog) : ArenaOp → Prop
  | .allocateAligned nbytes answer =>
      1 ≤ nbytes →
        match (ArenaM.allocateAligned nbytes answer).run.run s.arena with
        | (.error .badAlloc, a) =>
            a.allocPtr = s.arena.allocPtr ∧
              a.allocBytesRemaining = s.arena.allocBytesRemaining ∧
              a.memoryUsage = s.arena.memoryUsage
        | (.ok res, a) =>
            (∃ block ∈ a.blocks, Region.Inside ⟨res, nbytes⟩ block) ∧
              Disjoint (Finset.Ico res (res + nbytes))
                (Region.addresses (s.grants.map Grant.region))
        | (.error _, _) => False
  | .allocate _ _ => True

/-- The call goes right, and the sum that is compared with the rest of the block is not smaller
than the request. -/
def Safe (s : ArenaLog) : ArenaOp → Prop
  | .allocateAligned nbytes answer =>
      s.Placed (.allocateAligned nbytes answer) ∧ nbytes ≤ SizeT.add nbytes s.arena.slop
  | .allocate _ _ => True

def Unwrapped (s : ArenaLog) : ArenaOp → Prop
  | .allocateAligned nbytes _ => nbytes + s.arena.slop < 2 ^ 64
  | .allocate _ _ => True

/-- The sum does not wrap, or what it wraps to is more than is left. -/
def Harmless (s : ArenaLog) : ArenaOp → Prop
  | .allocateAligned nbytes _ =>
      nbytes + s.arena.slop < 2 ^ 64 ∨
        s.arena.allocBytesRemaining < nbytes + s.arena.slop - 2 ^ 64
  | .allocate _ _ => True

instance (s : ArenaLog) (op : ArenaOp) : Decidable (s.Unwrapped op) :=
  match op with
  | .allocateAligned _ _ => inferInstanceAs (Decidable (_ < _))
  | .allocate _ _ => .isTrue trivial

instance (s : ArenaLog) (op : ArenaOp) : Decidable (s.Harmless op) :=
  match op with
  | .allocateAligned _ _ => inferInstanceAs (Decidable (_ ∨ _))
  | .allocate _ _ => .isTrue trivial

/-! ### Requests of no bytes -/

variable {s s' : ArenaLog} {nbytes : ℕ} {answer : Option ℕ}

/-- The log without the grants of no bytes. -/
def handed (s : ArenaLog) : ArenaLog := ⟨s.arena, s.grants.filter fun g => 0 < g.region.size⟩

/-- The free part is free of what was granted, and the blocks are in the address space. -/
structure Room (s : ArenaLog) : Prop where
  free : s.handed.Free
  stop_le : ∀ block ∈ s.arena.blocks, block.stop ≤ 2 ^ 64

theorem start_room : start.Room := ⟨start_free, fun block hblock => by cases hblock⟩

theorem Free.drop {a : Arena} {grants : List Grant} {g : Grant} (h : Free ⟨a, grants ++ [g]⟩) :
    Free ⟨a, grants⟩ where
  blocks_apart := h.blocks_apart
  large := h.large
  inside g' hg' := h.inside g' (List.mem_append_left _ hg')
  apart := by
    have happart := h.apart
    rw [List.map_append] at happart
    exact (List.pairwise_append.mp happart).1
  aligned g' hg' := h.aligned g' (List.mem_append_left _ hg')
  rest g' hg' := h.rest g' (List.mem_append_left _ hg')
  current := h.current
  remaining_le := h.remaining_le
  usage := h.usage

theorem Free.last {a : Arena} {grants : List Grant} {g : Grant} (h : Free ⟨a, grants ++ [g]⟩) :
    (∃ block ∈ a.blocks, g.region.Inside block) ∧ ∀ g' ∈ grants, g'.region.Apart g.region := by
  refine ⟨h.inside g (List.mem_append_right _ (List.mem_singleton_self g)), fun g' hg' => ?_⟩
  have happart := h.apart
  rw [List.map_append, List.pairwise_append] at happart
  exact happart.2.2 _ (List.mem_map_of_mem hg') _ (by simp)

theorem handed_append (a : Arena) (grants : List Grant) (g : Grant) :
    handed ⟨a, grants ++ [g]⟩ =
      ⟨a, (handed ⟨a, grants⟩).grants ++ if 0 < g.region.size then [g] else []⟩ := by
  rw [handed, handed, List.filter_append, List.filter_singleton]
  by_cases hsize : 0 < g.region.size
  case pos => rw [decide_eq_true hsize, if_pos hsize, cond_true]
  case neg => rw [decide_eq_false hsize, if_neg hsize, cond_false]

theorem free_record {a : Arena} {g : Grant} (h : Free ⟨a, s.handed.grants ++ [g]⟩) :
    (handed ⟨a, s.grants ++ [g]⟩).Free := by
  rw [handed_append]
  split
  case isTrue => exact h
  case isFalse =>
    rw [List.append_nil]
    exact h.drop

theorem Free.skip (h : s.Free) {skip : ℕ} (hroom : skip ≤ s.arena.allocBytesRemaining) :
    Free ⟨{ s.arena with allocPtr := s.arena.allocPtr + skip
                         allocBytesRemaining := SizeT.sub s.arena.allocBytesRemaining skip },
      s.grants⟩ := by
  have hle := h.remaining_le
  have hleft := inside_rest (s := s) (Nat.add_sub_of_le hroom).le
  rw [h.sub_remaining hroom]
  refine ⟨h.blocks_apart, h.large, h.inside, h.apart, h.aligned,
    fun g hg => (h.rest g hg).mono (.refl _) hleft, ?_, ?_, h.usage⟩
  · rcases h.current with ⟨hnone, hptr, hzero⟩ | ⟨block, hblock, hsome, hptr, hstop⟩
    · exact .inl ⟨hnone, by dsimp only; omega, by dsimp only; omega⟩
    · exact .inr ⟨block, hblock, hsome, by dsimp only; omega, by dsimp only; omega⟩
  · dsimp only
    omega

/-- A request of any size that the current block has room for. -/
theorem Room.cut (h : s.Room) (skip : ℕ) (hroom : nbytes + skip ≤ s.arena.allocBytesRemaining)
    {aligned : Bool} (haligned : aligned = true → (s.arena.allocPtr + skip) % 8 = 0) :
    Room ⟨{ s.arena with allocPtr := s.arena.allocPtr + (nbytes + skip)
                         allocBytesRemaining :=
                           SizeT.sub s.arena.allocBytesRemaining (nbytes + skip) },
      s.grants ++ [⟨aligned, s.arena.allocPtr + skip, nbytes⟩]⟩ := by
  refine ⟨?_, h.stop_le⟩
  by_cases hn : 1 ≤ nbytes
  case pos => exact free_record (h.free.cut skip hroom hn aligned haligned)
  case neg =>
    obtain rfl : nbytes = 0 := by omega
    rw [handed_append, if_neg (Nat.lt_irrefl 0), List.append_nil, Nat.zero_add]
    exact h.free.skip (by rwa [Nat.zero_add] at hroom)

theorem blocks_of_fallBack {a a' : Arena} {ptr : ℕ}
    (hok : a.allocateFallBack nbytes answer = .ok (ptr, a')) :
    ptr ∈ answer ∧ a'.blocks = a.blocks ++ [⟨ptr, asked nbytes⟩] := by
  rw [Arena.allocateFallBack] at hok
  cases answer with
  | none => split at hok <;> cases hok
  | some ptr' =>
      rw [asked]
      split at hok
      case isTrue hlarge =>
        cases hok
        rw [if_pos hlarge]
        exact ⟨rfl, rfl⟩
      case isFalse hsmall =>
        cases hok
        rw [if_neg hsmall]
        exact ⟨rfl, rfl⟩

theorem Room.fallBack (h : s.Room) (hfresh : s.Fresh (asked nbytes) answer)
    (hstop : ∀ ptr ∈ answer, ptr + asked nbytes ≤ 2 ^ 64) :
    s.arena.allocateFallBack nbytes answer = .error .badAlloc ∨
      ∃ ptr a, s.arena.allocateFallBack nbytes answer = .ok (ptr, a) ∧ ptr % 8 = 0 ∧
        ∀ aligned, Room ⟨a, s.grants ++ [⟨aligned, ptr, nbytes⟩]⟩ := by
  rcases Free.fallBack h.free hfresh with hthrow | ⟨ptr, a, hcall, hptr, hfree⟩
  · exact .inl hthrow
  · obtain ⟨hanswer, hblocks⟩ := blocks_of_fallBack hcall
    refine .inr ⟨ptr, a, hcall, hptr, fun aligned => ⟨free_record (hfree aligned), ?_⟩⟩
    show ∀ block ∈ a.blocks, block.stop ≤ 2 ^ 64
    rw [hblocks]
    exact List.forall_mem_append.mpr
      ⟨h.stop_le, List.forall_mem_singleton.mpr (hstop ptr hanswer)⟩

/-! ### One request -/

/-- A request that is not harmful throws, or its grant is recorded with room to spare. -/
theorem Room.allocateAligned (h : s.Room) (hprovided : s.Provided (.allocateAligned nbytes answer))
    (hharmless : s.Harmless (.allocateAligned nbytes answer)) :
    s.arena.allocateAligned nbytes answer = .error .badAlloc ∨
      ∃ res a, s.arena.allocateAligned nbytes answer = .ok (res, a) ∧
        Room ⟨a, s.grants ++ [⟨true, res, nbytes⟩]⟩ := by
  obtain ⟨hlt, hfresh, hstop⟩ := hprovided
  obtain ⟨hslop, hmultiple⟩ := slop_spec s.arena
  rw [Arena.allocateAligned]
  dsimp only
  split
  case isTrue hroom =>
    have hneeded : SizeT.add nbytes s.arena.slop = nbytes + s.arena.slop := by
      rcases hharmless with hsum | hless
      · exact SizeT.add_eq hsum
      · -- a sum that wraps and is more than what is left fails the test
        rw [SizeT.add] at hroom
        omega
    rw [hneeded] at hroom ⊢
    rw [ok_bind]
    dsimp only
    rw [mask_align, if_pos hmultiple]
    exact .inr ⟨_, _, rfl, h.cut _ hroom fun _ => hmultiple⟩
  case isFalse =>
    rcases h.fallBack hfresh hstop with hthrow | ⟨ptr, a, hcall, hptr, hroom⟩
    · rw [hthrow]
      exact .inl rfl
    · rw [hcall, ok_bind]
      dsimp only
      rw [mask_align, if_pos hptr]
      exact .inr ⟨_, _, rfl, hroom true⟩

theorem Room.allocate (h : s.Room) (hprovided : s.Provided (.allocate nbytes answer)) :
    s.arena.allocate nbytes answer = .error .badAlloc ∨
      ∃ res a, s.arena.allocate nbytes answer = .ok (res, a) ∧
        Room ⟨a, s.grants ++ [⟨false, res, nbytes⟩]⟩ := by
  obtain ⟨-, hfresh, hstop⟩ := hprovided
  rw [Arena.allocate]
  split
  case isTrue hroom =>
    exact .inr ⟨_, _, rfl, h.cut 0 hroom fun hflag => absurd hflag Bool.false_ne_true⟩
  case isFalse =>
    rcases h.fallBack hfresh hstop with hthrow | ⟨ptr, a, hcall, -, hroom⟩
    · exact .inl hthrow
    · exact .inr ⟨_, _, hcall, hroom false⟩

/-- A request that is not harmful keeps the free part free. -/
theorem Room.step (h : s.Room) {op : ArenaOp} {out : Option ℕ} (hprovided : s.Provided op)
    (hharmless : s.Harmless op) (hstep : s.arenaStep op = .ok (out, s')) : s'.Room := by
  cases op with
  | allocate nbytes answer =>
      rw [arenaStep] at hstep
      rcases h.allocate hprovided with hthrow | ⟨res, a, hcall, hroom⟩
      · rw [hthrow] at hstep
        cases hstep
        exact h
      · rw [hcall] at hstep
        cases hstep
        exact hroom
  | allocateAligned nbytes answer =>
      rw [arenaStep] at hstep
      rcases h.allocateAligned hprovided hharmless with hthrow | ⟨res, a, hcall, hroom⟩
      · rw [hthrow] at hstep
        cases hstep
        exact h
      · rw [hcall] at hstep
        cases hstep
        exact hroom

theorem Room.last {a : Arena} {res : ℕ} {aligned : Bool}
    (h : Room ⟨a, s.grants ++ [⟨aligned, res, nbytes⟩]⟩) (hn : 1 ≤ nbytes) :
    (∃ block ∈ a.blocks, Region.Inside ⟨res, nbytes⟩ block) ∧
      Disjoint (Finset.Ico res (res + nbytes))
        (Region.addresses (s.grants.map Grant.region)) := by
  have hfree := h.free
  rw [handed_append, if_pos (show 0 < nbytes from hn)] at hfree
  obtain ⟨hinside, hapart⟩ := hfree.last
  refine ⟨hinside, Finset.disjoint_left.mpr fun byte hbyte hold => ?_⟩
  rw [Finset.mem_Ico] at hbyte
  obtain ⟨region, hregion, hlow, hhigh⟩ := Region.mem_addresses.mp hold
  obtain ⟨g, hg, rfl⟩ := List.mem_map.mp hregion
  rw [Region.stop] at hhigh
  have hsize : 0 < g.region.size := by omega
  rcases hapart g (List.mem_filter.mpr ⟨hg, decide_eq_true hsize⟩) with hbefore | hafter
  · simp only [Region.stop] at hbefore
    omega
  · simp only [Region.stop] at hafter
    omega

theorem slop_pos {a : Arena} (h : 0 < a.slop) : 0 < a.allocPtr := by
  apply Nat.pos_of_ne_zero
  intro hzero
  rw [slop, hzero] at h
  exact absurd h (by decide)

/-- A sum that wraps to no more than what is left makes the call return a pointer with too few
bytes behind it. -/
theorem Room.not_placed (h : s.Room) (hprovided : s.Provided (.allocateAligned nbytes answer))
    (hharm : ¬ s.Harmless (.allocateAligned nbytes answer)) :
    ¬ s.Placed (.allocateAligned nbytes answer) := by
  obtain ⟨hlt, -, -⟩ := hprovided
  obtain ⟨hslop, hmultiple⟩ := slop_spec s.arena
  obtain ⟨hwrap, hleft⟩ := not_or.mp hharm
  have hneeded : SizeT.add nbytes s.arena.slop = nbytes + s.arena.slop - 2 ^ 64 := by
    rw [SizeT.add]
    omega
  have hcall : ∃ a, s.arena.allocateAligned nbytes answer =
      .ok (s.arena.allocPtr + s.arena.slop, a) ∧ a.blocks = s.arena.blocks := by
    rw [Arena.allocateAligned]
    dsimp only
    rw [hneeded, if_pos (by omega), ok_bind]
    dsimp only
    rw [mask_align, if_pos hmultiple]
    exact ⟨_, rfl, rfl⟩
  obtain ⟨a, hcall, hblocks⟩ := hcall
  intro hplaced
  have hplaced := hplaced (by omega)
  rw [(ArenaM.allocateAligned_does nbytes answer).returns _ _ hcall] at hplaced
  obtain ⟨⟨block, hblock, -, hinside⟩, -⟩ := hplaced
  rw [hblocks] at hblock
  have hstop := h.stop_le block hblock
  have hptr := slop_pos (a := s.arena) (by omega)
  simp only [Region.stop] at hinside hstop
  omega

/-- A call of `allocateAligned` goes right exactly when it is not harmful. -/
theorem Room.placed_iff (h : s.Room) {op : ArenaOp} (hprovided : s.Provided op) :
    s.Placed op ↔ s.Harmless op := by
  cases op with
  | allocate nbytes answer => exact Iff.rfl
  | allocateAligned nbytes answer =>
      constructor
      · intro hplaced
        by_contra hharm
        exact h.not_placed hprovided hharm hplaced
      · intro hharmless hn
        rcases h.allocateAligned hprovided hharmless with hthrow | ⟨res, a, hcall, hroom⟩
        · rw [(ArenaM.allocateAligned_does nbytes answer).throws hthrow]
          exact ⟨rfl, rfl, rfl⟩
        · rw [(ArenaM.allocateAligned_does nbytes answer).returns _ _ hcall]
          exact hroom.last hn

theorem Unwrapped.harmless {op : ArenaOp} (h : s.Unwrapped op) : s.Harmless op := by
  cases op with
  | allocate nbytes answer => trivial
  | allocateAligned nbytes answer => exact .inl h

/-- The sum is at least the request exactly when it does not wrap. -/
theorem le_add_slop_iff {a : Arena} (hlt : nbytes < 2 ^ 64) :
    nbytes ≤ SizeT.add nbytes a.slop ↔ nbytes + a.slop < 2 ^ 64 := by
  have hslop := (slop_spec a).1
  rw [SizeT.add]
  omega

theorem Room.safe_iff (h : s.Room) {op : ArenaOp} (hprovided : s.Provided op) :
    s.Safe op ↔ s.Unwrapped op := by
  cases op with
  | allocate nbytes answer => exact Iff.rfl
  | allocateAligned nbytes answer =>
      constructor
      · rintro ⟨-, hle⟩
        exact (le_add_slop_iff hprovided.1).mp hle
      · intro hsum
        exact ⟨(h.placed_iff hprovided).mpr (.inl hsum), (le_add_slop_iff hprovided.1).mpr hsum⟩

/-! ### All requests -/

variable {ops : List ArenaOp}

theorem Room.along_placed_iff (h : s.Room) (hops : Along arenaStep Provided s ops) :
    Along arenaStep Placed s ops ↔ Along arenaStep Harmless s ops :=
  along_iff_of_good (fun _ _ _ _ h hprovided hharmless hstep => h.step hprovided hharmless hstep)
    (fun _ _ h hprovided => h.placed_iff hprovided) h hops

theorem Room.along_safe_iff (h : s.Room) (hops : Along arenaStep Provided s ops) :
    Along arenaStep Safe s ops ↔ Along arenaStep Unwrapped s ops :=
  along_iff_of_good
    (fun _ _ _ _ h hprovided hsum hstep => h.step hprovided hsum.harmless hstep)
    (fun _ _ h hprovided => h.safe_iff hprovided) h hops

/-- In a run the calls of `allocateAligned` place what they return exactly when no sum wraps to no
more than what is left of the current block. -/
theorem aligned_placed_iff (hops : Along arenaStep Provided start ops) :
    Along arenaStep Placed start ops ↔ Along arenaStep Harmless start ops :=
  start_room.along_placed_iff hops

/-- In a run the calls of `allocateAligned` are safe exactly when no sum wraps. -/
theorem aligned_safe_iff (hops : Along arenaStep Provided start ops) :
    Along arenaStep Safe start ops ↔ Along arenaStep Unwrapped start ops :=
  start_room.along_safe_iff hops

/-- One byte, and an aligned hundred from the same block. -/
theorem aligned_safe_iff_byte :
    Along arenaStep Safe start [.allocate 1 (some 4096), .allocateAligned 100 none] ↔
      Along arenaStep Unwrapped start [.allocate 1 (some 4096), .allocateAligned 100 none] :=
  aligned_safe_iff (by decide)

/-- After one byte an aligned request of the largest size is taken for one of 6 bytes. -/
theorem aligned_largest_granted :
    Along arenaStep Provided start
        [.allocate 1 (some 4096), .allocateAligned (2 ^ 64 - 1) none] ∧
      ¬ Along arenaStep Placed start
        [.allocate 1 (some 4096), .allocateAligned (2 ^ 64 - 1) none] ∧
      ¬ Along arenaStep Safe start
        [.allocate 1 (some 4096), .allocateAligned (2 ^ 64 - 1) none] := by
  have hops : Along arenaStep Provided start
      [.allocate 1 (some 4096), .allocateAligned (2 ^ 64 - 1) none] := by decide
  refine ⟨hops, ?_, ?_⟩
  · rw [start_room.along_placed_iff hops]
    decide
  · rw [start_room.along_safe_iff hops]
    decide

end ArenaLog

end LpNet
