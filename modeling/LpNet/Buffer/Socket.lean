import LpNet.Buffer.Queue

/-!
The socket paths of `Buffer` against its memory paths.

`read(fd)` hands `recv` one linear region from `put_pos_` on and `write(fd, size)`
hands `send` one linear region from `get_pos_` on, while the memory paths index
modulo `capacity_ + 1`. The two agree exactly as long as the region does not run
over the end of the array, and for `send` as long as its length is a positive
`int`.
-/

namespace LpNet

open Cyclic Transition

namespace Buffer

/-- `read(fd)` agrees with `write(s, n)`: the region handed to `recv` lies inside the
array, and bytes delivered to it end up where `write` would have put them. -/
def RecvAgrees (b : Buffer) : Prop :=
  b.recvRegion.1 + b.recvRegion.2 ≤ b.data.length ∧
    ∀ bs : List Byte, 0 < bs.length → bs.length ≤ b.recvRegion.2 →
      ∃ b₁ b₂, b.readFd (some bs) = .ok (bs.length, b₁) ∧
        b.write (some bs) bs.length = .ok (bs.length, b₂) ∧ b₁.contents = b₂.contents

/-- The bytes of the region handed to `send`. -/
def handed (b : Buffer) (size : ℕ) : List Byte :=
  (b.data.drop (b.sendRegion size).1).take (toUInt32 (b.sendRegion size).2)

/-- `write(fd, size)` agrees with `read(s, n)`: the region handed to `send` lies inside the
array and holds what `read` would have returned, and bytes sent are dropped as
`read(nullptr, k)` drops them. -/
def SendAgrees (b : Buffer) (size : ℕ) : Prop :=
  let n := min size b.readableBytes
  b.getPos + n ≤ b.data.length ∧
    (∃ b', b.read (some (List.replicate n 0)) n = .ok (n, some (b.handed size), b')) ∧
    ∀ k, 0 < k → k ≤ n → ∃ ret b₁, b.writeFd size (some k) = .ok (ret, (b.handed size).take k, b₁) ∧
      b.read none k = .ok (k, none, b₁)

variable {b : Buffer}

theorem recvRegion_len (b : Buffer) :
    b.recvRegion.2 = min b.writableBytes kMaxBytesPerRead := by
  simp only [recvRegion]
  split <;> omega

theorem sendRegion_len (b : Buffer) (size : ℕ) :
    (b.sendRegion size).2 = min size b.readableBytes := by
  simp only [sendRegion]
  split <;> omega

/-! ### `recv` -/

/-- Bytes received into a region inside the array extend the contents. -/
theorem readFd_eq_extend (h : b.Wf) (hin : b.recvRegion.1 + b.recvRegion.2 ≤ b.data.length)
    {bs : List Byte} (hpos : 0 < bs.length) (hlen : bs.length ≤ b.recvRegion.2) :
    b.readFd (some bs) = .ok (bs.length, b.extend bs) := by
  have hcap := h.cap_lt
  have hput := h.put_le
  have halloc := h.alloc_le
  have hmax : b.recvRegion.2 ≤ 4096 := by
    rw [recvRegion_len]
    exact Nat.min_le_right ..
  have htake : bs.take b.recvRegion.2 = bs := List.take_of_length_le hlen
  have hstart : b.recvRegion.1 = b.putPos := rfl
  have hdata : b.data.take b.putPos ++ bs ++ b.data.drop (b.putPos + bs.length) =
      putCells b.data (b.capacity + 1) b.putPos bs :=
    (putCells_eq_slice (by omega) (by omega)).symm
  rw [readFd, SocketApi.recv_some bs hin (by omega), ok_bind]
  simp only [htake, hstart, hdata]
  rw [toInt_of_lt (by omega), if_pos (by omega), ofInt_natCast (by omega)]
  show Except.ok (_, { b with data := _, putPos := b.indexOf b.putPos bs.length }) = _
  rw [h.indexOf_eq (by omega)]
  rfl

theorem recvAgrees_iff (h : b.Wf) :
    b.RecvAgrees ↔ b.putPos + min b.writableBytes kMaxBytesPerRead ≤ b.data.length := by
  rw [← recvRegion_len]
  constructor
  · rintro ⟨hin, -⟩
    exact hin
  · intro hin
    refine ⟨hin, fun bs hpos hlen => ⟨_, _, readFd_eq_extend h hin hpos hlen, ?_, rfl⟩⟩
    have halloc := h.alloc_le
    have hwritable : bs.length ≤ b.capacity - b.size := by
      rw [recvRegion_len, h.writableBytes_eq] at hlen
      omega
    have hacc : b.accepted bs.length = bs.length := Nat.min_eq_left hwritable
    rw [write_eq h (by omega), hacc, List.take_length]
    intro i hi
    rw [Nat.mod_eq_of_lt (by omega)]
    omega

/-! ### `send` -/

theorem handed_length {size : ℕ} (hin : b.getPos + min size b.readableBytes ≤ b.data.length) :
    (b.handed size).length = toUInt32 (min size b.readableBytes) := by
  have hle : toUInt32 (min size b.readableBytes) ≤ min size b.readableBytes := Nat.mod_le ..
  have hstart : (b.sendRegion size).1 = b.getPos := rfl
  rw [handed, List.length_take, List.length_drop, sendRegion_len, hstart]
  omega

theorem handed_eq (h : b.Wf) {size : ℕ}
    (hin : b.getPos + min size b.readableBytes ≤ b.data.length)
    (hlt : min size b.readableBytes < 2 ^ 32) :
    b.handed size = b.contents.take (min size b.readableBytes) := by
  have halloc := h.alloc_le
  have hle : min size b.readableBytes ≤ b.size := Nat.min_le_right ..
  rw [handed, sendRegion_len, toUInt32_of_lt hlt, contents, cells_take _ _ _ hle,
    cells_eq_slice (by omega) hin]
  rfl

theorem writeFd_eq {size k : ℕ} (hin : b.getPos + min size b.readableBytes ≤ b.data.length)
    (hlt : min size b.readableBytes < 2 ^ 32) (hk : k ≤ min size b.readableBytes) :
    b.writeFd size (some k) = .ok (toInt k, (b.handed size).take k,
      if 0 < toInt k then { b with getPos := b.indexOf b.getPos (ofInt (toInt k)) } else b) := by
  have hhanded : (b.data.drop (b.sendRegion size).1).take (b.sendRegion size).2 =
      b.handed size := by
    rw [handed, sendRegion_len, toUInt32_of_lt hlt]
  have hlen : ((b.handed size).take k).length = k := by
    rw [List.length_take, handed_length hin, toUInt32_of_lt hlt, Nat.min_eq_left hk]
  have hregion : (b.sendRegion size).1 + (b.sendRegion size).2 ≤ b.data.length := by
    rw [sendRegion_len]
    exact hin
  rw [writeFd, SocketApi.send_some hregion (by rw [sendRegion_len]; exact hlt), ok_bind]
  simp only [hhanded, hlen]
  split <;> rfl

theorem advance_ne (h : b.Wf) {k : ℕ} (hpos : 0 < k) (hk : k ≤ b.size) : b.advance k ≠ b := by
  intro heq
  have := advance_size h hk
  rw [heq] at this
  omega

theorem sendAgrees_iff (h : b.Wf) (size : ℕ) :
    b.SendAgrees size ↔
      b.getPos + min size b.readableBytes ≤ b.data.length ∧
        min size b.readableBytes < 2 ^ 31 := by
  have hsize := h.size_le
  have hcap := h.cap_lt
  have hget := h.get_le
  have halloc := h.alloc_le
  have hle : min size b.readableBytes ≤ b.size := Nat.min_le_right ..
  constructor
  · rintro ⟨hin, ⟨b', hread⟩, hsent⟩
    have hlen : toUInt32 (min size b.readableBytes) = min size b.readableBytes := by
      rw [← handed_length hin, read_dest_length hread, List.length_replicate]
    have hlt : min size b.readableBytes < 2 ^ 32 := by
      rw [← hlen]
      exact Nat.mod_lt _ (by norm_num)
    refine ⟨hin, ?_⟩
    by_contra hbig
    -- A count from `2 ^ 31` on is no positive `int`, so the position stays where it was.
    have hint : ¬ 0 < toInt (min size b.readableBytes : ℕ) := by
      rw [toInt_pos_iff hlt]
      omega
    obtain ⟨ret, b₁, hwrite, hskip⟩ := hsent _ (by omega) (le_refl _)
    rw [writeFd_eq hin hlt (le_refl _), if_neg hint] at hwrite
    rw [read_none h, Nat.min_eq_left hle] at hskip
    injection hwrite with hwrite
    injection hskip with hskip
    have hstay : b = b₁ := (Prod.mk.inj (Prod.mk.inj hwrite).2).2
    have hmove : b.advance (min size b.readableBytes) = b₁ :=
      (Prod.mk.inj (Prod.mk.inj hskip).2).2
    exact advance_ne h (by omega) hle (hmove.trans hstay.symm)
  · rintro ⟨hin, hlt⟩
    have hinside : ∀ i < min (min size b.readableBytes) b.size,
        (b.getPos + i) % (b.capacity + 1) < b.data.length := by
      intro i hi
      rw [Nat.mod_eq_of_lt (by omega)]
      omega
    refine ⟨hin, ?_, ?_⟩
    · rw [handed_eq h hin (by omega)]
      refine ⟨b.advance (min size b.readableBytes), ?_⟩
      rw [read_some h hinside (by simp), Nat.min_eq_left hle]
      simp
    · intro k hpos hk
      refine ⟨toInt k, b.advance k, ?_, ?_⟩
      · rw [writeFd_eq hin (by omega) hk, toInt_of_lt (by omega), if_pos (by omega),
          ofInt_natCast (by omega), h.indexOf_eq (by omega)]
        rfl
      · rw [read_none h, Nat.min_eq_left (by omega)]

/-- The socket paths agree with the memory paths exactly when neither linear region runs
over the end of the array and the length to send is an `int`. -/
theorem fd_paths_agree_iff (h : b.Wf) (size : ℕ) :
    (b.RecvAgrees ↔ b.putPos + min b.writableBytes kMaxBytesPerRead ≤ b.data.length) ∧
    (b.SendAgrees size ↔
      b.getPos + min size b.readableBytes ≤ b.data.length ∧
        min size b.readableBytes < 2 ^ 31) :=
  ⟨recvAgrees_iff h, sendAgrees_iff h size⟩

theorem fd_paths_agree_wrapped :
    (wrapped.RecvAgrees ↔
      wrapped.putPos + min wrapped.writableBytes kMaxBytesPerRead ≤ wrapped.data.length) ∧
    (wrapped.SendAgrees 1 ↔
      wrapped.getPos + min 1 wrapped.readableBytes ≤ wrapped.data.length ∧
        min 1 wrapped.readableBytes < 2 ^ 31) :=
  fd_paths_agree_iff wrapped_wf 1

/-- A buffer of capacity 3 after two bytes went in and out: three bytes may be received, with
two cells left up to the end of the array. -/
def drained : Buffer where
  capacity := 3
  putPos := 2
  getPos := 2
  data := [1, 2, 0, 0]

/-- The fresh buffer reaches `drained`, and there `recv` gets a region that runs over the
end of the array. -/
theorem recv_region_overruns :
    run queueStep (new (fun _ => 0) 3) [.write [1, 2] 2, .skip 2] =
      .ok ([.count 2, .count 2], drained) ∧ ¬ drained.RecvAgrees := by
  refine ⟨by decide +kernel, ?_⟩
  rintro ⟨hin, -⟩
  exact absurd hin (by decide +kernel)

end Buffer

end LpNet
