import LpNet.Lib.Region
import LpNet.Memory

/-!
The class `Arena`: an allocator that cuts small requests off a block and gives large ones a
block of their own.

Pointers are addresses. What `new char[]` returns is an input of a request. `ArenaLog` is
the arena with the regions it has granted. `Free` is the invariant: what is left of the
current block is apart from everything granted, and blocks are apart from each other, so
that nothing is granted twice; `regions_apart` draws the conclusion for every sequence of
requests.
-/

namespace LpNet

open Transition

structure Arena where
  allocPtr : ℕ
  allocBytesRemaining : ℕ
  /-- `blocks_`, with the sizes that `new` was asked for. -/
  blocks : List Region
  memoryUsage : ℕ
  /-- The block that small requests are cut off from. No code reads it. -/
  current : Option Region
  deriving DecidableEq, Repr

namespace Arena

def kBlockSize : ℕ := 4096

def new : Arena := ⟨0, 0, [], 0, none⟩

/-- `allocateNewBlock(block_bytes)`, for what `new char[block_bytes]` returns, or `none` where
it throws. -/
def allocateNewBlock (a : Arena) (blockBytes : ℕ) (answer : Option ℕ) :
    Except Fault (ℕ × Arena) :=
  match answer with
  | none => .error .badAlloc
  | some res =>
      .ok (res, { a with blocks := a.blocks ++ [⟨res, blockBytes⟩]
                         memoryUsage := SizeT.add a.memoryUsage (SizeT.add blockBytes 8) })

def allocateFallBack (a : Arena) (nbytes : ℕ) (answer : Option ℕ) : Except Fault (ℕ × Arena) :=
  if nbytes > kBlockSize / 4 then a.allocateNewBlock nbytes answer
  else do
    let (block, a) ← a.allocateNewBlock kBlockSize answer
    .ok (block, { a with allocPtr := block + nbytes
                         allocBytesRemaining := SizeT.sub kBlockSize nbytes
                         current := some ⟨block, kBlockSize⟩ })

def allocate (a : Arena) (nbytes : ℕ) (answer : Option ℕ) : Except Fault (ℕ × Arena) :=
  if nbytes ≤ a.allocBytesRemaining then
    .ok (a.allocPtr, { a with allocPtr := a.allocPtr + nbytes
                              allocBytesRemaining := SizeT.sub a.allocBytesRemaining nbytes })
  else a.allocateFallBack nbytes answer

/-- `align`, where pointers have 8 bytes. -/
def align : ℕ := 8

/-- The bytes to skip from `alloc_ptr_` to the next multiple of `align`. -/
def slop (a : Arena) : ℕ :=
  let currentMod := a.allocPtr &&& (align - 1)
  if currentMod = 0 then 0 else align - currentMod

/-- `allocateAligned(nbytes)`. A failed assertion ends the program. -/
def allocateAligned (a : Arena) (nbytes : ℕ) (answer : Option ℕ) : Except Fault (ℕ × Arena) := do
  let needed := SizeT.add nbytes a.slop
  let (res, a) ←
    if needed ≤ a.allocBytesRemaining then
      .ok (a.allocPtr + a.slop,
        { a with allocPtr := a.allocPtr + needed
                 allocBytesRemaining := SizeT.sub a.allocBytesRemaining needed })
    else a.allocateFallBack nbytes answer
  if res &&& (align - 1) = 0 then .ok (res, a) else .error .terminated

end Arena

/-- A request, with what `new char[]` returns if it is called. -/
inductive ArenaOp
  | allocate (nbytes : ℕ) (answer : Option ℕ)
  | allocateAligned (nbytes : ℕ) (answer : Option ℕ)
  deriving DecidableEq, Repr

/-- A region that a request was answered with. -/
structure Grant where
  aligned : Bool
  region : Region
  deriving DecidableEq, Repr

structure ArenaLog where
  arena : Arena
  grants : List Grant
  deriving DecidableEq, Repr

namespace ArenaLog

open Arena

def start : ArenaLog := ⟨.new, []⟩

/-- The end of a request. One that throws `std::bad_alloc` has changed nothing. -/
def record (s : ArenaLog) (aligned : Bool) (nbytes : ℕ) :
    Except Fault (ℕ × Arena) → Except Fault (Option ℕ × ArenaLog)
  | .ok (res, arena) => .ok (some res, ⟨arena, s.grants ++ [⟨aligned, res, nbytes⟩]⟩)
  | .error .badAlloc => .ok (none, s)
  | .error fault => .error fault

def arenaStep (s : ArenaLog) : ArenaOp → Except Fault (Option ℕ × ArenaLog)
  | .allocate nbytes answer => s.record false nbytes (s.arena.allocate nbytes answer)
  | .allocateAligned nbytes answer => s.record true nbytes (s.arena.allocateAligned nbytes answer)

/-- What `new char[size]` returns is aligned, and apart from the blocks there are. -/
def Fresh (s : ArenaLog) (size : ℕ) (answer : Option ℕ) : Prop :=
  ∀ ptr ∈ answer, ptr % 8 = 0 ∧ ∀ block ∈ s.arena.blocks, block.Apart ⟨ptr, size⟩

/-- The size that a request which falls back asks of `new`. -/
def asked (nbytes : ℕ) : ℕ := if nbytes > kBlockSize / 4 then nbytes else kBlockSize

/-- A request of at least one byte, not close to the end of `size_t`, with a fresh block. -/
def Valid (s : ArenaLog) : ArenaOp → Prop
  | .allocate nbytes answer | .allocateAligned nbytes answer =>
      1 ≤ nbytes ∧ nbytes + 7 < 2 ^ 64 ∧ s.Fresh (asked nbytes) answer

instance (s : ArenaLog) (op : ArenaOp) : Decidable (s.Valid op) :=
  match op with
  | .allocate _ none | .allocateAligned _ none =>
      decidable_of_iff (1 ≤ _ ∧ _ + 7 < 2 ^ 64)
        ⟨fun h => ⟨h.1, h.2, fun ptr hptr => by cases hptr⟩, fun h => ⟨h.1, h.2.1⟩⟩
  | .allocate _ (some _) | .allocateAligned _ (some _) =>
      decidable_of_iff (1 ≤ _ ∧ _ + 7 < 2 ^ 64 ∧ _ % 8 = 0 ∧
          ∀ block ∈ s.arena.blocks, block.Apart ⟨_, asked _⟩)
        ⟨fun h => ⟨h.1, h.2.1, fun ptr hptr => by
            cases hptr
            exact h.2.2⟩,
          fun h => ⟨h.1, h.2.1, h.2.2 _ rfl⟩⟩

/-- What the blocks cost: their sizes, and a pointer for each. -/
def cost : List Region → ℕ
  | [] => 0
  | block :: blocks => block.size + 8 + cost blocks

/-- Every region lies in a block, no two overlap, the aligned ones are aligned, the rest of the
current block ends with it, and the memory usage is what the blocks cost, in `size_t`, and as
it is where all blocks lie in the lower half of the address space. -/
structure Sound (s : ArenaLog) : Prop where
  inside : ∀ g ∈ s.grants, ∃ block ∈ s.arena.blocks, g.region.Inside block
  apart : (s.grants.map Grant.region).Pairwise Region.Apart
  aligned : ∀ g ∈ s.grants, g.aligned = true → g.region.ptr % 8 = 0
  current : ∀ block ∈ s.arena.current, block ∈ s.arena.blocks ∧
    s.arena.allocPtr + s.arena.allocBytesRemaining = block.stop
  usage : s.arena.memoryUsage = cost s.arena.blocks % 2 ^ 64
  usage_eq : (∀ block ∈ s.arena.blocks, block.stop ≤ 2 ^ 63) →
    s.arena.memoryUsage = cost s.arena.blocks

/-! ### The free part of the current block -/

/-- Blocks are apart, what is granted lies in them, and what is left of the current block is
apart from all of it. -/
structure Free (s : ArenaLog) : Prop where
  blocks_apart : s.arena.blocks.Pairwise Region.Apart
  large : ∀ block ∈ s.arena.blocks, 8 < block.size
  inside : ∀ g ∈ s.grants, ∃ block ∈ s.arena.blocks, g.region.Inside block
  apart : (s.grants.map Grant.region).Pairwise Region.Apart
  aligned : ∀ g ∈ s.grants, g.aligned = true → g.region.ptr % 8 = 0
  rest : ∀ g ∈ s.grants, g.region.Apart ⟨s.arena.allocPtr, s.arena.allocBytesRemaining⟩
  current : s.arena.current = none ∧ s.arena.allocPtr = 0 ∧ s.arena.allocBytesRemaining = 0 ∨
    ∃ block ∈ s.arena.blocks, s.arena.current = some block ∧ block.ptr ≤ s.arena.allocPtr ∧
      s.arena.allocPtr + s.arena.allocBytesRemaining = block.stop
  remaining_le : s.arena.allocBytesRemaining ≤ kBlockSize
  usage : s.arena.memoryUsage = cost s.arena.blocks % 2 ^ 64

variable {s s' : ArenaLog} {nbytes : ℕ} {answer : Option ℕ}

theorem start_free : start.Free where
  blocks_apart := List.Pairwise.nil
  large := fun block hblock => by cases hblock
  inside := fun g hg => by cases hg
  apart := List.Pairwise.nil
  aligned := fun g hg => by cases hg
  rest := fun g hg => by cases hg
  current := .inl ⟨rfl, rfl, rfl⟩
  remaining_le := Nat.zero_le _
  usage := rfl

theorem cost_le {blocks : List Region} (h : ∀ block ∈ blocks, 8 < block.size) :
    cost blocks ≤ 2 * Region.total blocks ∧
      (blocks ≠ [] → cost blocks < 2 * Region.total blocks) := by
  induction blocks with
  | nil => exact ⟨Nat.le_refl 0, fun hne => absurd rfl hne⟩
  | cons block blocks ih =>
      have hsize := h block List.mem_cons_self
      have hrest := (ih fun b hb => h b (List.mem_cons_of_mem block hb)).1
      rw [cost, Region.total]
      exact ⟨by omega, fun _ => by omega⟩

theorem Free.sound (h : s.Free) : s.Sound where
  inside := h.inside
  apart := h.apart
  aligned := h.aligned
  current := by
    intro block hblock
    rcases h.current with ⟨hnone, -⟩ | ⟨b, hb, hsome, -, hstop⟩
    · rw [hnone] at hblock
      cases hblock
    · rw [hsome, Option.mem_some_iff] at hblock
      subst hblock
      exact ⟨hb, hstop⟩
  usage := h.usage
  usage_eq := by
    intro hbound
    have htotal := Region.total_le h.blocks_apart hbound
    have hcost := cost_le h.large
    rw [h.usage, Nat.mod_eq_of_lt]
    by_cases hnil : s.arena.blocks = []
    case pos =>
      rw [hnil]
      exact Nat.two_pow_pos 64
    case neg =>
      have hlt := hcost.2 hnil
      omega

theorem mask_align (ptr : ℕ) : ptr &&& (align - 1) = ptr % 8 :=
  Nat.and_two_pow_sub_one_eq_mod ptr 3

theorem slop_spec (a : Arena) : a.slop ≤ 7 ∧ (a.allocPtr + a.slop) % 8 = 0 := by
  rw [Arena.slop, mask_align, align]
  split <;> omega

theorem Free.grant (h : s.Free) {a : Arena} {g : Grant} {left : Region}
    (hblocks : ∀ b ∈ s.arena.blocks, b ∈ a.blocks)
    (hin : ∃ block ∈ a.blocks, g.region.Inside block)
    (hapart : ∀ g' ∈ s.grants, g'.region.Apart g.region)
    (haligned : g.aligned = true → g.region.ptr % 8 = 0)
    (hold : ∀ g' ∈ s.grants, g'.region.Apart left) (hleft : g.region.Apart left) :
    (∀ g' ∈ s.grants ++ [g], ∃ block ∈ a.blocks, g'.region.Inside block) ∧
      ((s.grants ++ [g]).map Grant.region).Pairwise Region.Apart ∧
      (∀ g' ∈ s.grants ++ [g], g'.aligned = true → g'.region.ptr % 8 = 0) ∧
      ∀ g' ∈ s.grants ++ [g], g'.region.Apart left := by
  refine ⟨?_, ?_, ?_, ?_⟩
  · refine List.forall_mem_append.mpr ⟨fun g' hg' => ?_, List.forall_mem_singleton.mpr hin⟩
    obtain ⟨block, hblock, hinside⟩ := h.inside g' hg'
    exact ⟨block, hblocks block hblock, hinside⟩
  · rw [List.map_append]
    refine Region.pairwise_append_singleton h.apart fun r hr => ?_
    obtain ⟨g', hg', rfl⟩ := List.mem_map.mp hr
    exact hapart g' hg'
  · exact List.forall_mem_append.mpr ⟨h.aligned, List.forall_mem_singleton.mpr haligned⟩
  · exact List.forall_mem_append.mpr ⟨hold, List.forall_mem_singleton.mpr hleft⟩

/-- What is left of the current block after the first `n` bytes of the rest. -/
theorem Free.sub_remaining (h : s.Free) {n : ℕ} (hroom : n ≤ s.arena.allocBytesRemaining) :
    SizeT.sub s.arena.allocBytesRemaining n = s.arena.allocBytesRemaining - n := by
  have hle := h.remaining_le
  rw [kBlockSize] at hle
  exact SizeT.sub_eq hroom (by omega)

/-- A part of what is left of the current block. -/
theorem inside_rest {n size : ℕ} (hroom : n + size ≤ s.arena.allocBytesRemaining) :
    Region.Inside ⟨s.arena.allocPtr + n, size⟩
      ⟨s.arena.allocPtr, s.arena.allocBytesRemaining⟩ :=
  ⟨Nat.le_add_right _ _, by simp only [Region.stop]; omega⟩

/-- A request that the current block has room for, after what it skips. -/
theorem Free.cut (h : s.Free) (skip : ℕ) (hroom : nbytes + skip ≤ s.arena.allocBytesRemaining)
    (hn : 1 ≤ nbytes) (aligned : Bool)
    (haligned : aligned = true → (s.arena.allocPtr + skip) % 8 = 0) :
    Free ⟨{ s.arena with allocPtr := s.arena.allocPtr + (nbytes + skip)
                         allocBytesRemaining :=
                           SizeT.sub s.arena.allocBytesRemaining (nbytes + skip) },
      s.grants ++ [⟨aligned, s.arena.allocPtr + skip, nbytes⟩]⟩ := by
  have hle := h.remaining_le
  have hpart : Region.Inside ⟨s.arena.allocPtr + skip, nbytes⟩
      ⟨s.arena.allocPtr, s.arena.allocBytesRemaining⟩ := inside_rest (by omega)
  have hleft := inside_rest (s := s) (Nat.add_sub_of_le hroom).le
  rw [h.sub_remaining hroom]
  rcases h.current with ⟨-, -, hzero⟩ | ⟨block, hblock, hsome, hptr, hstop⟩
  · omega
  · obtain ⟨hinside, hgrants, hmultiple, hrest⟩ :=
      h.grant (a := s.arena) (g := ⟨aligned, s.arena.allocPtr + skip, nbytes⟩)
        (fun b hb => hb)
        ⟨block, hblock, by dsimp only; omega, by simp only [Region.stop] at hstop ⊢; omega⟩
        (fun g hg => (h.rest g hg).mono (.refl _) hpart) haligned
        (fun g hg => (h.rest g hg).mono (.refl _) hleft)
        (.inl (by simp only [Region.stop]; omega))
    refine ⟨h.blocks_apart, h.large, hinside, hgrants, hmultiple, hrest,
      .inr ⟨block, hblock, hsome, ?_, ?_⟩, ?_, h.usage⟩
    all_goals
      dsimp only
      omega

theorem Free.apart_fresh (h : s.Free) {block : Region}
    (hfresh : ∀ b ∈ s.arena.blocks, b.Apart block) :
    (∀ g ∈ s.grants, g.region.Apart block) ∧
      Region.Apart ⟨s.arena.allocPtr, s.arena.allocBytesRemaining⟩ block := by
  have hsymm : ∀ b ∈ s.arena.blocks, block.Apart b := fun b hb => (hfresh b hb).symm
  refine ⟨fun g hg => Region.apart_of_inside (h.inside g hg) hsymm, ?_⟩
  rcases h.current with ⟨-, hptr, hzero⟩ | ⟨b, hb, -, hptr, hstop⟩
  · rw [hptr, hzero]
    exact .inl (Nat.zero_le _)
  · exact Region.apart_of_inside ⟨b, hb, hptr, Nat.le_of_eq hstop⟩ hsymm

theorem cost_append (blocks : List Region) (block : Region) :
    cost (blocks ++ [block]) = cost blocks + (block.size + 8) := by
  induction blocks with
  | nil => simp [cost]
  | cons b blocks ih =>
      rw [List.cons_append, cost, cost, ih]
      omega

theorem usage_append {a : Arena} (husage : a.memoryUsage = cost a.blocks % 2 ^ 64)
    (block : Region) :
    SizeT.add a.memoryUsage (SizeT.add block.size 8) = cost (a.blocks ++ [block]) % 2 ^ 64 := by
  rw [SizeT.add, SizeT.add, husage, cost_append, ← Nat.add_mod]

theorem Free.dedicated (h : s.Free) {ptr : ℕ} (hlarge : nbytes > kBlockSize / 4) (aligned : Bool)
    (haligned : ptr % 8 = 0)
    (hfresh : ∀ b ∈ s.arena.blocks, b.Apart ⟨ptr, nbytes⟩) :
    Free ⟨{ s.arena with blocks := s.arena.blocks ++ [⟨ptr, nbytes⟩]
                         memoryUsage := SizeT.add s.arena.memoryUsage (SizeT.add nbytes 8) },
      s.grants ++ [⟨aligned, ptr, nbytes⟩]⟩ := by
  obtain ⟨hapart, hfree⟩ := h.apart_fresh hfresh
  have hsize : 8 < nbytes := Nat.lt_of_le_of_lt (by decide) hlarge
  obtain ⟨hinside, hgrants, hmultiple, hrest⟩ :=
    h.grant (a := { s.arena with blocks := s.arena.blocks ++ [⟨ptr, nbytes⟩] })
      (g := ⟨aligned, ptr, nbytes⟩) (fun b hb => List.mem_append_left _ hb)
      ⟨⟨ptr, nbytes⟩, List.mem_append_right _ (List.mem_singleton_self _), .refl _⟩
      hapart (fun _ => haligned) h.rest hfree.symm
  refine ⟨Region.pairwise_append_singleton h.blocks_apart hfresh,
    List.forall_mem_append.mpr ⟨h.large, List.forall_mem_singleton.mpr hsize⟩, hinside, hgrants,
    hmultiple, hrest, h.current.imp_right ?_, h.remaining_le, usage_append h.usage ⟨ptr, nbytes⟩⟩
  rintro ⟨b, hb, hcurrent⟩
  exact ⟨b, List.mem_append_left _ hb, hcurrent⟩

/-- A fresh block that becomes the current one, and is cut. -/
theorem Free.renew (h : s.Free) {ptr : ℕ} (hsmall : nbytes ≤ kBlockSize / 4) (aligned : Bool)
    (haligned : ptr % 8 = 0) (hfresh : ∀ b ∈ s.arena.blocks, b.Apart ⟨ptr, kBlockSize⟩) :
    Free ⟨{ s.arena with blocks := s.arena.blocks ++ [⟨ptr, kBlockSize⟩]
                         memoryUsage := SizeT.add s.arena.memoryUsage (SizeT.add kBlockSize 8)
                         allocPtr := ptr + nbytes
                         allocBytesRemaining := SizeT.sub kBlockSize nbytes
                         current := some ⟨ptr, kBlockSize⟩ },
      s.grants ++ [⟨aligned, ptr, nbytes⟩]⟩ := by
  obtain ⟨hapart, -⟩ := h.apart_fresh hfresh
  have hsub : SizeT.sub kBlockSize nbytes = kBlockSize - nbytes :=
    SizeT.sub_eq (Nat.le_trans hsmall (by decide)) (by decide)
  have hle : nbytes ≤ kBlockSize := Nat.le_trans hsmall (by decide)
  have hpart : Region.Inside ⟨ptr, nbytes⟩ ⟨ptr, kBlockSize⟩ :=
    ⟨Nat.le_refl _, Nat.add_le_add_left hle ptr⟩
  have hleft : Region.Inside ⟨ptr + nbytes, kBlockSize - nbytes⟩ ⟨ptr, kBlockSize⟩ :=
    ⟨Nat.le_add_right _ _, by simp only [Region.stop]; omega⟩
  have hlarge : 8 < kBlockSize := by decide
  have hblock : (⟨ptr, kBlockSize⟩ : Region) ∈ s.arena.blocks ++ [⟨ptr, kBlockSize⟩] :=
    List.mem_append_right _ (List.mem_singleton_self _)
  rw [hsub]
  obtain ⟨hinside, hgrants, hmultiple, hrest⟩ :=
    h.grant (a := { s.arena with blocks := s.arena.blocks ++ [⟨ptr, kBlockSize⟩] })
      (g := ⟨aligned, ptr, nbytes⟩) (fun b hb => List.mem_append_left _ hb)
      ⟨⟨ptr, kBlockSize⟩, hblock, hpart⟩ (fun g hg => (hapart g hg).mono (.refl _) hpart)
      (fun _ => haligned) (fun g hg => (hapart g hg).mono (.refl _) hleft)
      (.inl (Nat.le_refl _))
  refine ⟨Region.pairwise_append_singleton h.blocks_apart hfresh,
    List.forall_mem_append.mpr ⟨h.large, List.forall_mem_singleton.mpr hlarge⟩, hinside, hgrants,
    hmultiple, hrest, .inr ⟨⟨ptr, kBlockSize⟩, hblock, rfl, Nat.le_add_right _ _, ?_⟩,
    Nat.sub_le _ _, usage_append h.usage ⟨ptr, kBlockSize⟩⟩
  simp only [Region.stop]
  omega

theorem Free.fallBack (h : s.Free) (hfresh : s.Fresh (asked nbytes) answer) :
    s.arena.allocateFallBack nbytes answer = .error .badAlloc ∨
      ∃ ptr a, s.arena.allocateFallBack nbytes answer = .ok (ptr, a) ∧ ptr % 8 = 0 ∧
        ∀ aligned, Free ⟨a, s.grants ++ [⟨aligned, ptr, nbytes⟩]⟩ := by
  rw [allocateFallBack]
  cases answer with
  | none =>
      left
      split <;> rfl
  | some ptr =>
      obtain ⟨haligned, happart⟩ := hfresh ptr rfl
      right
      split
      case isTrue hlarge =>
        rw [asked, if_pos hlarge] at happart
        exact ⟨ptr, _, rfl, haligned, fun aligned => h.dedicated hlarge aligned haligned happart⟩
      case isFalse hsmall =>
        rw [asked, if_neg hsmall] at happart
        exact ⟨ptr, _, rfl, haligned,
          fun aligned => h.renew (Nat.not_lt.mp hsmall) aligned haligned happart⟩

/-! ### One request and all of them -/

theorem Free.allocate (h : s.Free) (hvalid : s.Valid (.allocate nbytes answer)) :
    ∃ out s', s.arenaStep (.allocate nbytes answer) = .ok (out, s') ∧ s'.Free := by
  obtain ⟨hn, -, hfresh⟩ := hvalid
  rw [arenaStep, Arena.allocate]
  split
  case isTrue hroom =>
    exact ⟨_, _, rfl, h.cut 0 hroom hn false fun hflag => absurd hflag Bool.false_ne_true⟩
  case isFalse =>
    rcases h.fallBack hfresh with hthrow | ⟨ptr, a, hcall, -, hfree⟩
    · rw [hthrow]
      exact ⟨_, _, rfl, h⟩
    · rw [hcall]
      exact ⟨_, _, rfl, hfree false⟩

theorem Free.allocateAligned (h : s.Free) (hvalid : s.Valid (.allocateAligned nbytes answer)) :
    ∃ out s', s.arenaStep (.allocateAligned nbytes answer) = .ok (out, s') ∧ s'.Free := by
  obtain ⟨hn, hlt, hfresh⟩ := hvalid
  obtain ⟨hslop, hmultiple⟩ := slop_spec s.arena
  have hneeded : SizeT.add nbytes s.arena.slop = nbytes + s.arena.slop :=
    SizeT.add_eq (by omega)
  rw [arenaStep, Arena.allocateAligned, hneeded]
  dsimp only
  split
  case isTrue hroom =>
    rw [ok_bind]
    dsimp only
    rw [mask_align, if_pos hmultiple]
    exact ⟨_, _, rfl, h.cut _ hroom hn true fun _ => hmultiple⟩
  case isFalse =>
    rcases h.fallBack hfresh with hthrow | ⟨ptr, a, hcall, haligned, hfree⟩
    · rw [hthrow]
      exact ⟨_, _, rfl, h⟩
    · rw [hcall, ok_bind]
      dsimp only
      rw [mask_align, if_pos haligned]
      exact ⟨_, _, rfl, hfree true⟩

/-- A valid request is answered, or throws, and keeps the free part free. -/
theorem Free.step (h : s.Free) {op : ArenaOp} (hvalid : s.Valid op) :
    ∃ out s', s.arenaStep op = .ok (out, s') ∧ s'.Free := by
  cases op with
  | allocate nbytes answer => exact h.allocate hvalid
  | allocateAligned nbytes answer => exact h.allocateAligned hvalid

/-- Along every sequence of valid requests, the regions granted lie in the blocks and apart from
each other, and the rest of `Sound` holds. -/
theorem regions_apart {ops : List ArenaOp} (hops : Along arenaStep Valid start ops) :
    ∃ outs s, run arenaStep start ops = .ok (outs, s) ∧ s.Sound := by
  obtain ⟨outs, s, hrun, hfree⟩ :=
    run_total (fun s op hs hvalid => Free.step hs hvalid) start_free hops
  exact ⟨outs, s, hrun, hfree.sound⟩

/-- Ten bytes, then an aligned hundred from the same block, then a block for two thousand. -/
theorem regions_apart_three :
    ∃ outs s, run arenaStep start [.allocate 10 (some 4096), .allocateAligned 100 none,
      .allocate 2000 (some 16384)] = .ok (outs, s) ∧ s.Sound :=
  regions_apart (by decide)

end ArenaLog

end LpNet
