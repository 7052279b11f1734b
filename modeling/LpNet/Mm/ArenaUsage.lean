import LpNet.Mm.Arena

/-!
What an arena costs, against what was asked of it.

A block is given up when a small request does not fit in what is left of it, and what is left is
lost. That is at most a quarter of a block and the bytes that an aligned request skips, so every
block that is given up has been used to three quarters: `usage_le_requests` pays for what
is lost with what was asked for (`Paid`).
-/

namespace LpNet

open Transition

namespace ArenaLog

open Arena

/-- The bytes that were asked for, and seven more for each aligned request. -/
def requested : List Grant → ℕ
  | [] => 0
  | g :: grants => g.region.size + (if g.aligned then 7 else 0) + requested grants

def granted (grants : List Grant) : ℕ := Region.total (grants.map Grant.region)

theorem requested_append (grants : List Grant) (g : Grant) :
    requested (grants ++ [g]) =
      requested grants + (g.region.size + if g.aligned then 7 else 0) := by
  induction grants with
  | nil => simp [requested]
  | cons g' grants ih =>
      rw [List.cons_append, requested, requested, ih]
      omega

theorem total_append (regions : List Region) (r : Region) :
    Region.total (regions ++ [r]) = Region.total regions + r.size := by
  induction regions with
  | nil => simp [Region.total]
  | cons s regions ih =>
      rw [List.cons_append, Region.total, Region.total, ih]
      omega

theorem granted_append (grants : List Grant) (g : Grant) :
    granted (grants ++ [g]) = granted grants + g.region.size := by
  rw [granted, List.map_append]
  exact total_append _ _

theorem cost_eq (blocks : List Region) :
    cost blocks = Region.total blocks + 8 * blocks.length := by
  induction blocks with
  | nil => rfl
  | cons block blocks ih =>
      rw [cost, ih, Region.total, List.length_cons]
      omega

/-! ### What a request does -/

/-- How a request is answered: it throws, the current block has room for it, it gets a block of its
own, or a new block becomes the current one. -/
inductive Served (s s' : ArenaLog) : Prop
  | thrown (h : s' = s)
  | cut (g : Grant) (skip : ℕ) (hskip : skip ≤ if g.aligned then 7 else 0)
      (hroom : g.region.size + skip ≤ s.arena.allocBytesRemaining)
      (hblocks : s'.arena.blocks = s.arena.blocks)
      (hleft : s'.arena.allocBytesRemaining =
        s.arena.allocBytesRemaining - (g.region.size + skip))
      (hgrants : s'.grants = s.grants ++ [g])
  | dedicated (g : Grant) (hlarge : kBlockSize / 4 < g.region.size)
      (hblocks : s'.arena.blocks = s.arena.blocks ++ [g.region])
      (hleft : s'.arena.allocBytesRemaining = s.arena.allocBytesRemaining)
      (hgrants : s'.grants = s.grants ++ [g])
  | renewed (g : Grant) (block : Region) (hsize : block.size = kBlockSize)
      (hsmall : g.region.size ≤ kBlockSize / 4)
      (hlost : s.arena.allocBytesRemaining < kBlockSize / 4 + if g.aligned then 7 else 0)
      (hblocks : s'.arena.blocks = s.arena.blocks ++ [block])
      (hleft : s'.arena.allocBytesRemaining = kBlockSize - g.region.size)
      (hgrants : s'.grants = s.grants ++ [g])

variable {s s' : ArenaLog} {nbytes : ℕ} {answer out : Option ℕ} {aligned : Bool}

/-- A request that falls back, of bytes that the current block has no room for. -/
theorem served_fallBack
    (hroom : s.arena.allocBytesRemaining < nbytes + if aligned then 7 else 0)
    {res : Except Fault (ℕ × Arena)} (hres : res = s.arena.allocateFallBack nbytes answer)
    (hstep : s.record aligned nbytes res = .ok (out, s')) : Served s s' := by
  subst hres
  rw [allocateFallBack] at hstep
  cases answer with
  | none =>
      refine .thrown ?_
      split at hstep <;> (cases hstep; rfl)
  | some ptr =>
      split at hstep
      case isTrue hlarge =>
        cases hstep
        exact .dedicated ⟨aligned, ptr, nbytes⟩ hlarge rfl rfl rfl
      case isFalse hsmall =>
        cases hstep
        have hle : nbytes ≤ kBlockSize / 4 := Nat.not_lt.mp hsmall
        have hsub : SizeT.sub kBlockSize nbytes = kBlockSize - nbytes :=
          SizeT.sub_eq (Nat.le_trans hle (by decide)) (by decide)
        exact .renewed ⟨aligned, ptr, nbytes⟩ ⟨ptr, kBlockSize⟩ rfl hle
          (Nat.lt_of_lt_of_le hroom (Nat.add_le_add_right hle _)) rfl hsub rfl

theorem Free.served (h : s.Free) {op : ArenaOp} (hvalid : s.Valid op)
    (hstep : s.arenaStep op = .ok (out, s')) : Served s s' := by
  cases op with
  | allocate nbytes answer =>
      rw [arenaStep, Arena.allocate] at hstep
      split at hstep
      case isTrue hroom =>
        cases hstep
        exact .cut ⟨false, s.arena.allocPtr, nbytes⟩ 0 (Nat.zero_le _) hroom rfl
          (h.sub_remaining hroom) rfl
      case isFalse hfull => exact served_fallBack (Nat.not_le.mp hfull) rfl hstep
  | allocateAligned nbytes answer =>
      obtain ⟨hn, hlt, hfresh⟩ := hvalid
      obtain ⟨hslop, hmultiple⟩ := slop_spec s.arena
      have hneeded : SizeT.add nbytes s.arena.slop = nbytes + s.arena.slop :=
        SizeT.add_eq (by omega)
      rw [arenaStep, Arena.allocateAligned, hneeded] at hstep
      dsimp only at hstep
      split at hstep
      case isTrue hroom =>
        rw [ok_bind] at hstep
        dsimp only at hstep
        rw [mask_align, if_pos hmultiple] at hstep
        cases hstep
        exact .cut ⟨true, s.arena.allocPtr + s.arena.slop, nbytes⟩ s.arena.slop hslop hroom rfl
          (h.sub_remaining hroom) rfl
      case isFalse hfull =>
        have hrecord : s.record true nbytes (s.arena.allocateFallBack nbytes answer) =
            .ok (out, s') := by
          rcases h.fallBack hfresh with hthrow | ⟨ptr, a, hcall, haligned, -⟩
          · rw [hthrow] at hstep ⊢
            exact hstep
          · rw [hcall, ok_bind] at hstep
            dsimp only at hstep
            rw [mask_align, if_pos haligned] at hstep
            rw [hcall]
            exact hstep
        have hroom : s.arena.allocBytesRemaining < nbytes + 7 := by omega
        exact served_fallBack hroom rfl hrecord

/-! ### What is lost is paid for -/

/-- The blocks hold what was granted, what is left of the current one, and what was lost, and three
quarters of each block that was given up have been asked for. `current` is what was asked for of the
current block. -/
structure Paid (s : ArenaLog) (current : ℕ) : Prop where
  granted_le : granted s.grants + s.arena.allocBytesRemaining ≤ Region.total s.arena.blocks
  current_le : current ≤ requested s.grants
  current_eq : current + s.arena.allocBytesRemaining = kBlockSize ∨
    current = 0 ∧ s.arena.allocBytesRemaining = 0
  lost : 3073 * Region.total s.arena.blocks + 4096 * current ≤
    3073 * (s.arena.allocBytesRemaining + current) + 4096 * requested s.grants
  length_le : 1025 * s.arena.blocks.length ≤ Region.total s.arena.blocks

theorem start_paid : start.Paid 0 where
  granted_le := Nat.le_refl 0
  current_le := Nat.le_refl 0
  current_eq := .inr ⟨rfl, rfl⟩
  lost := Nat.le_refl 0
  length_le := Nat.le_refl 0

/-- A request pays for the block that it gives up. -/
theorem Paid.served {current : ℕ} (h : s.Paid current) (hserved : Served s s') :
    ∃ current', s'.Paid current' := by
  obtain ⟨hgranted, hcurrent, heq, hlost, hlength⟩ := h
  have hsize : kBlockSize = 4096 := rfl
  cases hserved with
  | thrown h =>
      subst h
      exact ⟨current, hgranted, hcurrent, heq, hlost, hlength⟩
  | cut g skip hskip hroom hblocks hleft hgrants =>
      have hgranted' : granted s'.grants = granted s.grants + g.region.size := by
        rw [hgrants, granted_append]
      have hrequested : requested s.grants + (g.region.size + skip) ≤ requested s'.grants := by
        rw [hgrants, requested_append]
        omega
      rw [← hblocks] at hgranted hlost hlength
      exact ⟨current + (g.region.size + skip), by omega, by omega, by omega, by omega, hlength⟩
  | dedicated g hlarge hblocks hleft hgrants =>
      have hgranted' : granted s'.grants = granted s.grants + g.region.size := by
        rw [hgrants, granted_append]
      have hrequested : requested s.grants + g.region.size ≤ requested s'.grants := by
        rw [hgrants, requested_append]
        omega
      have htotal : Region.total s'.arena.blocks =
          Region.total s.arena.blocks + g.region.size := by
        rw [hblocks, total_append]
      have hcount : s'.arena.blocks.length = s.arena.blocks.length + 1 := by
        rw [hblocks, List.length_append, List.length_singleton]
      exact ⟨current, by omega, by omega, by omega, by omega, by omega⟩
  | renewed g block hblock hsmall hgiven hblocks hleft hgrants =>
      have hgranted' : granted s'.grants = granted s.grants + g.region.size := by
        rw [hgrants, granted_append]
      have hrequested : requested s'.grants =
          requested s.grants + (g.region.size + if g.aligned then 7 else 0) := by
        rw [hgrants, requested_append]
      have htotal : Region.total s'.arena.blocks = Region.total s.arena.blocks + kBlockSize := by
        rw [hblocks, total_append, hblock]
      have hcount : s'.arena.blocks.length = s.arena.blocks.length + 1 := by
        rw [hblocks, List.length_append, List.length_singleton]
      -- the block that is given up was used to three quarters, where the seven bytes of the
      -- request that does not fit are counted, or there was none
      exact ⟨g.region.size, by omega, by omega, by omega, by omega, by omega⟩

/-- In a run of valid requests the blocks hold what was granted and are at most a third larger than
what was asked for, with seven bytes for each aligned request, and one block; the memory usage is
their size and a pointer for each, where all of them lie in the lower half of the address
space. -/
theorem usage_le_requests {ops : List ArenaOp} {outs : List (Option ℕ)}
    (hops : Along arenaStep Valid start ops) (hrun : run arenaStep start ops = .ok (outs, s)) :
    granted s.grants ≤ Region.total s.arena.blocks ∧
      3073 * Region.total s.arena.blocks ≤ 4096 * requested s.grants + 3073 * kBlockSize ∧
      1025 * s.arena.blocks.length ≤ Region.total s.arena.blocks ∧
      ((∀ block ∈ s.arena.blocks, block.stop ≤ 2 ^ 63) →
        s.arena.memoryUsage = Region.total s.arena.blocks + 8 * s.arena.blocks.length) := by
  have hinv : s.Free ∧ ∃ current, s.Paid current := by
    refine inv_of_run (I := fun s => s.Free ∧ ∃ current, s.Paid current) ?_
      ⟨start_free, 0, start_paid⟩ hops hrun
    rintro t op out t' ⟨hfree, current, hpaid⟩ hvalid hstep
    obtain ⟨out', t'', hstep', hfree'⟩ := hfree.step hvalid
    rw [hstep] at hstep'
    cases hstep'
    exact ⟨hfree', hpaid.served (hfree.served hvalid hstep)⟩
  obtain ⟨hfree, current, hpaid⟩ := hinv
  obtain ⟨hgranted, hcurrent, heq, hlost, hlength⟩ := hpaid
  have hsize : kBlockSize = 4096 := rfl
  refine ⟨by omega, by omega, hlength, fun hbound => ?_⟩
  rw [hfree.sound.usage_eq hbound, cost_eq]

/-- A block that is given up with a thousand bytes left, and one of its own for two thousand. -/
theorem usage_le_requests_four : ∃ outs s,
    run arenaStep start [.allocate 1000 (some 4096), .allocateAligned 1000 none,
      .allocate 1024 none, .allocate 1000 (some 8192), .allocate 2000 (some 16384)] =
        .ok (outs, s) ∧
    granted s.grants ≤ Region.total s.arena.blocks ∧
    3073 * Region.total s.arena.blocks ≤ 4096 * requested s.grants + 3073 * kBlockSize := by
  refine ⟨_, _, rfl, ?_⟩
  have husage := @usage_le_requests _ [.allocate 1000 (some 4096), .allocateAligned 1000 none,
    .allocate 1024 none, .allocate 1000 (some 8192), .allocate 2000 (some 16384)] _ (by decide) rfl
  exact ⟨husage.1, husage.2.1⟩

end ArenaLog

end LpNet
