import LpNet.Buffer.Find
import LpNet.Buffer.Reader

/-!
Framing a stream by a delimiter: `findAndSkip` and `advanceTo`.

`findAndSkip` consumes through the first occurrence of its target and tells the
caller when there is none, so that a caller who repeats it cuts the contents
into `Search.Pieces`. `advanceTo` uses the result of `find` as a number of
bytes to drop, the -1 of a target that is not there included.
-/

namespace LpNet

open Transition Search

namespace BufferReader

variable {b : Buffer} {target : List Byte}

/-! ### `findAndSkip` -/

/-- Call `findAndSkip(target)` until it is negative, at most `n` times. Answers the results
before that and the reader. -/
def skipAll (target : List Byte) : ℕ → BufferReader → Except Fault (List ℤ × BufferReader)
  | 0, _ => .error .diverges
  | n + 1, r => do
      let (len, r) ← r.findAndSkip target
      if len < 0 then .ok ([], r)
      else do
        let (lens, r) ← skipAll target n r
        .ok (len :: lens, r)

/-- A negative result and the same contents exactly for a target that does not occur;
otherwise the bytes through the first occurrence are counted and removed. -/
def SkipsFirst (r : BufferReader) (target : List Byte) : Prop :=
  ∃ (len : ℤ) (r' : BufferReader), r.findAndSkip target = .ok (len, r') ∧
    (len < 0 ∧ r'.buffer.contents = r.buffer.contents ↔ ¬ target <:+: r.buffer.contents) ∧
    ∀ j : ℕ, First target r.buffer.contents j →
      len = (j + target.length : ℕ) ∧
        r'.buffer.contents = r.buffer.contents.drop (j + target.length)

/-- Enough calls come to a negative result. The results before it are positive, one for each
piece of the contents that ends with the target, and what follows the last is left. -/
def CutsAll (r : BufferReader) (target : List Byte) : Prop :=
  ∃ (n : ℕ) (lens : List ℕ) (r' : BufferReader),
    skipAll target n r = .ok (lens.map Nat.cast, r') ∧ (∀ len ∈ lens, 0 < len) ∧
      Pieces target r.buffer.contents lens r'.buffer.contents

theorem findAndSkip_none (hfind : b.find target = .ok (-1)) :
    findAndSkip ⟨b⟩ target = .ok (-1, ⟨b⟩) := by
  rw [findAndSkip, hfind]
  rfl

theorem findAndSkip_eq (h : b.Wf) (hsize : b.size < 2 ^ 31) {j : ℕ} (hj : j ≤ b.size)
    (hfind : b.find target = .ok j) :
    findAndSkip ⟨b⟩ target = .ok (toInt (SizeT.add j target.length),
      ⟨b.advance (min (SizeT.add j target.length) b.size)⟩) := by
  have hsum : SizeT.add (ofInt j) target.length = SizeT.add j target.length := by
    rw [ofInt_natCast (by omega)]
  rw [findAndSkip, hfind, ok_bind, if_neg (by omega)]
  dsimp only
  rw [hsum, Buffer.read_none h, ok_bind]

theorem findAndSkip_found (h : b.Wf) (hsize : b.size < 2 ^ 31) {j : ℕ}
    (hfirst : First target b.contents j) (hfind : b.find target = .ok j) :
    findAndSkip ⟨b⟩ target =
      .ok ((j + target.length : ℕ), ⟨b.advance (j + target.length)⟩) := by
  have hend := hfirst.here.length_le
  rw [Buffer.contents_length] at hend
  rw [findAndSkip_eq h hsize (by omega) hfind, SizeT.add_eq (by omega), toInt_of_lt (by omega),
    Nat.min_eq_left hend]

/-- A target that is taken for a shorter one is skipped although it does not occur. -/
theorem findAndSkip_mistaken (h : b.Wf) (hheld : b.Held) (hsize : b.size < 2 ^ 31)
    (hwrong : b.Mistaken target) : ¬ SkipsFirst ⟨b⟩ target := by
  rintro ⟨len, r', hskip, hneg, -⟩
  obtain ⟨hnot, j, hj, hfind⟩ := Buffer.find_mistaken h hheld hsize hwrong
  obtain ⟨hlen, hsame⟩ := hneg.mpr hnot
  rw [findAndSkip_eq h hsize (by omega) hfind] at hskip
  injection hskip with hskip
  injection hskip with hlen' hr'
  subst hlen' hr'
  by_cases hzero : SizeT.add j target.length = 0
  case pos =>
    rw [hzero] at hlen
    exact absurd hlen (by decide)
  case neg =>
    -- something was dropped
    have hcount : (b.advance _).contents.length = b.contents.length := congrArg List.length hsame
    rw [Buffer.contents_length, Buffer.contents_length,
      Buffer.advance_size h (Nat.min_le_right ..)] at hcount
    omega

theorem skipsFirst_of_right (h : b.Wf) (hheld : b.Held) (hsize : b.size < 2 ^ 31)
    (hne : target ≠ []) (hright : ¬ b.Mistaken target) : SkipsFirst ⟨b⟩ target := by
  rcases Buffer.find_right h hheld hsize hne hright with ⟨j, hfirst, hfind⟩ | ⟨hnot, hfind⟩
  · have hend := hfirst.here.length_le
    rw [Buffer.contents_length] at hend
    refine ⟨_, _, findAndSkip_found h hsize hfirst hfind, ?_, ?_⟩
    · have hocc := hfirst.occurs
      constructor
      · rintro ⟨hneg, -⟩
        omega
      · exact fun hno => absurd hocc hno
    · intro k hk
      rw [hfirst.unique hk] at hend ⊢
      exact ⟨rfl, Buffer.advance_contents h hend⟩
  · refine ⟨-1, ⟨b⟩, findAndSkip_none hfind, ?_, fun k hk => absurd hk.occurs hnot⟩
    simp [hnot]

/-- Calls until there is no further occurrence, by induction on the bytes that are left. -/
theorem skipAll_eq (hne : target ≠ []) {n : ℕ} (h : b.Wf) (hheld : b.Held)
    (hsize : b.size < 2 ^ 31) (hright : ¬ b.Mistaken target) (hn : b.size < n) :
    ∃ (lens : List ℕ) (b' : Buffer), skipAll target n ⟨b⟩ = .ok (lens.map Nat.cast, ⟨b'⟩) ∧
      (∀ len ∈ lens, 0 < len) ∧ Pieces target b.contents lens b'.contents := by
  induction n generalizing b with
  | zero => omega
  | succ n ih =>
      have hpos := List.length_pos_of_ne_nil hne
      rw [skipAll]
      rcases Buffer.find_right h hheld hsize hne hright with ⟨j, hfirst, hfind⟩ | ⟨hnot, hfind⟩
      · have hend := hfirst.here.length_le
        rw [Buffer.contents_length] at hend
        have hadv := Buffer.advance_size h hend
        obtain ⟨lens, b', hrun, hlens, hpieces⟩ :=
          ih (h.advance (j + target.length)) (hheld.advance h hend) (by omega)
            (fun hwrong => absurd hwrong.1 (by omega)) (by omega)
        rw [Buffer.advance_contents h hend] at hpieces
        refine ⟨(j + target.length) :: lens, b', ?_, ?_, .cut hfirst hpieces⟩
        · rw [findAndSkip_found h hsize hfirst hfind, ok_bind]
          dsimp only
          rw [if_neg (by omega), hrun]
          rfl
        · intro len hmem
          rcases List.mem_cons.mp hmem with rfl | hmem
          · omega
          · exact hlens len hmem
      · refine ⟨[], b, ?_, by simp, .done hnot⟩
        rw [findAndSkip_none hfind]
        rfl

/-- `findAndSkip` frames the contents by the target exactly when `find` does not take the
target for a shorter one. -/
theorem findAndSkip_frames_iff (r : BufferReader) (h : r.buffer.Wf) (hheld : r.buffer.Held)
    (hsize : r.buffer.size < 2 ^ 31) (target : List Byte) (hne : target ≠ []) :
    r.SkipsFirst target ∧ r.CutsAll target ↔ ¬ r.buffer.Mistaken target := by
  obtain ⟨b⟩ := r
  constructor
  · rintro ⟨hskip, -⟩ hwrong
    exact findAndSkip_mistaken h hheld hsize hwrong hskip
  · intro hright
    refine ⟨skipsFirst_of_right h hheld hsize hne hright, ?_⟩
    obtain ⟨lens, b', hrun, hlens, hpieces⟩ :=
      skipAll_eq hne h hheld hsize hright (Nat.lt_succ_self _)
    exact ⟨_, lens, ⟨b'⟩, hrun, hlens, hpieces⟩

theorem findAndSkip_frames_iff_wrapped :
    SkipsFirst ⟨Buffer.wrapped⟩ [65, 66] ∧ CutsAll ⟨Buffer.wrapped⟩ [65, 66] ↔
      ¬ Buffer.wrapped.Mistaken [65, 66] :=
  findAndSkip_frames_iff ⟨Buffer.wrapped⟩ Buffer.wrapped_wf Buffer.wrapped_held (by decide)
    [65, 66] (by decide)

/-- A delimiter of 2^32 characters that does not occur, and all contents are skipped. -/
theorem findAndSkip_drops_unframed :
    ¬ SkipsFirst ⟨Buffer.oneByte⟩ (List.replicate (2 ^ 32) 65) :=
  findAndSkip_mistaken Buffer.oneByte_wf Buffer.oneByte_held (by decide)
    Buffer.mistaken_replicate

/-! ### `advanceTo` -/

/-- Nothing but the bytes before the first occurrence is dropped, and nothing at all when the
target does not occur. -/
def StopsAt (r : BufferReader) (target : List Byte) : Prop :=
  ∃ r', r.advanceTo target = .ok r' ∧
    (∀ j, First target r.buffer.contents j →
      r'.buffer.contents = r.buffer.contents.drop j ∧ target <+: r'.buffer.contents) ∧
    (¬ target <:+: r.buffer.contents → r'.buffer.contents = r.buffer.contents)

/-- There is nothing to drop, or the characters that `find` compares occur, at the offset of
the target if it is an `int`, or at one that becomes 0 in an `int` if there is no target. -/
def Stoppable (b : Buffer) (target : List Byte) : Prop :=
  b.contents = [] ∨ target.length % 2 ^ 32 < 2 ^ 31 ∧
    ∃ j, First (Buffer.searched target) b.contents j ∧
      (First target b.contents j ∧ j < 2 ^ 31 ∨ ¬ target <:+: b.contents ∧ j % 2 ^ 32 = 0)

theorem advanceTo_eq (h : b.Wf) {n : ℤ} (hfind : b.find target = .ok n) :
    advanceTo ⟨b⟩ target = .ok ⟨b.advance (min (ofInt n) b.size)⟩ := by
  rw [advanceTo, hfind, ok_bind, Buffer.read_none h, ok_bind]

theorem advanceTo_contents (h : b.Wf) (n : ℕ) :
    (b.advance (min n b.size)).contents = b.contents.drop n := by
  rw [Buffer.advance_contents h (Nat.min_le_right ..)]
  by_cases hn : n ≤ b.size
  · rw [Nat.min_eq_left hn]
  · rw [List.drop_of_length_le (by simp; omega), List.drop_of_length_le (by simp; omega)]

/-- `advanceTo` in terms of the number that `find` answers. -/
theorem stopsAt_iff_of_find (h : b.Wf) {n : ℤ} (hfind : b.find target = .ok n) :
    StopsAt ⟨b⟩ target ↔
      (∀ j, First target b.contents j → b.contents.drop (ofInt n) = b.contents.drop j) ∧
        (¬ target <:+: b.contents → b.contents.drop (ofInt n) = b.contents) := by
  constructor
  · rintro ⟨r', hadv, hfirst, hnone⟩
    rw [advanceTo_eq h hfind] at hadv
    injection hadv with hadv
    subst hadv
    dsimp only at hfirst hnone
    rw [advanceTo_contents h] at hfirst hnone
    exact ⟨fun j hj => (hfirst j hj).1, hnone⟩
  · rintro ⟨hfirst, hnone⟩
    refine ⟨_, advanceTo_eq h hfind, ?_⟩
    dsimp only
    rw [advanceTo_contents h]
    refine ⟨fun j hj => ⟨hfirst j hj, ?_⟩, hnone⟩
    rw [hfirst j hj]
    exact hj.here.2

theorem drop_eq_drop {xs : List Byte} {m j : ℕ} (hj : j < xs.length)
    (heq : xs.drop m = xs.drop j) : m = j := by
  have hlen := congrArg List.length heq
  simp only [List.length_drop] at hlen
  omega

theorem not_stopsAt_of_none (h : b.Wf) (hne : b.contents ≠ []) (hfind : b.find target = .ok (-1))
    (hlast : ∀ j, First target b.contents j → j < b.size) : ¬ StopsAt ⟨b⟩ target := by
  have hcap := h.cap_lt
  have hsize := h.size_le
  have hpos := List.length_pos_of_ne_nil hne
  have hall : b.contents.drop (ofInt (-1)) = [] := by
    apply List.drop_of_length_le
    rw [Buffer.contents_length, show ofInt (-1) = 2 ^ 64 - 1 from rfl]
    omega
  rw [stopsAt_iff_of_find h hfind, hall]
  rintro ⟨hfirst, hnone⟩
  by_cases hocc : target <:+: b.contents
  case pos =>
    obtain ⟨j, hj⟩ := exists_first hocc
    have hlen := congrArg List.length (hfirst j hj)
    have hlt := hlast j hj
    rw [List.length_drop, Buffer.contents_length, List.length_nil] at hlen
    omega
  case neg => exact hne (hnone hocc).symm

/-- A first occurrence in contents that are not empty starts inside them. -/
theorem first_lt {j : ℕ} (hne : b.contents ≠ []) (hfirst : First target b.contents j) :
    j < b.size := by
  have hpos := List.length_pos_of_ne_nil hne
  have hend := hfirst.here.length_le
  rw [Buffer.contents_length] at hpos hend
  by_cases hnil : target = []
  case pos =>
    subst hnil
    have hzero : First [] b.contents 0 := first_zero.mpr List.nil_prefix
    rw [hfirst.unique hzero]
    exact hpos
  case neg =>
    have := List.length_pos_of_ne_nil hnil
    omega

theorem stopsAt_of_empty (h : b.Wf) (hnil : b.contents = []) : StopsAt ⟨b⟩ target := by
  have hfind : b.find target = .ok (-1) := by
    have hsize : b.size = 0 := by rw [← Buffer.contents_length, hnil, List.length_nil]
    rw [Buffer.find, hsize]
    rfl
  rw [stopsAt_iff_of_find h hfind, hnil]
  simp

theorem stopsAt_iff_of_found (h : b.Wf) {k : ℕ} (hk : k < b.size)
    (hfirst : First (Buffer.searched target) b.contents k)
    (hfind : b.find target = .ok (toInt k)) :
    StopsAt ⟨b⟩ target ↔
      (First target b.contents k ∧ k < 2 ^ 31 ∨ ¬ target <:+: b.contents ∧ k % 2 ^ 32 = 0) := by
  have hcap := h.cap_lt
  have hsize := h.size_le
  have hne : b.contents ≠ [] := by
    rw [← List.length_pos_iff, Buffer.contents_length]
    omega
  rw [stopsAt_iff_of_find h hfind, ofInt_toInt]
  constructor
  · rintro ⟨hhere, hnone⟩
    by_cases hocc : target <:+: b.contents
    case pos =>
      obtain ⟨j, hj⟩ := exists_first hocc
      have hjlt := first_lt hne hj
      -- the target starts with what was found, so it is not found earlier
      have hkj : k ≤ j := by
        by_contra hlt
        exact hfirst.least j (by omega) (hj.here.of_prefix (Buffer.searched_prefix target))
      have hdrop := drop_eq_drop (by rw [Buffer.contents_length]; exact hjlt) (hhere j hj)
      have hkeq : k = j ∧ k < 2 ^ 31 := by split at hdrop <;> omega
      left
      rw [hkeq.1]
      exact ⟨hj, by omega⟩
    case neg =>
      have hdrop := drop_eq_drop (j := 0) (List.length_pos_of_ne_nil hne) (hnone hocc)
      right
      refine ⟨hocc, ?_⟩
      split at hdrop <;> omega
  · rintro (⟨hj, hlt⟩ | ⟨hocc, hzero⟩)
    · rw [Nat.mod_eq_of_lt (by omega), if_pos hlt]
      refine ⟨fun j hj' => by rw [hj.unique hj'], fun hno => absurd hj.occurs hno⟩
    · rw [hzero, if_pos (by decide)]
      exact ⟨fun j hj => absurd hj.occurs hocc, fun _ => rfl⟩

/-- A length that is negative as an `int` makes every search fail. -/
theorem not_stopsAt_of_long (h : b.Wf) (hheld : b.Held) (hne : b.contents ≠ [])
    (hlen : 2 ^ 31 ≤ target.length % 2 ^ 32) : ¬ StopsAt ⟨b⟩ target := by
  intro hstops
  have ⟨r', hadv, _⟩ := hstops
  rw [advanceTo, bind_eq_ok] at hadv
  obtain ⟨n, hfind, -⟩ := hadv
  have hn := Buffer.find_long h hheld hlen hfind
  subst hn
  exact not_stopsAt_of_none h hne hfind (fun j hj => first_lt hne hj) hstops

theorem stopsAt_iff_of_short (h : b.Wf) (hheld : b.Held) (hne : b.contents ≠ [])
    (hlen : target.length % 2 ^ 32 < 2 ^ 31) :
    StopsAt ⟨b⟩ target ↔ ∃ j, First (Buffer.searched target) b.contents j ∧
      (First target b.contents j ∧ j < 2 ^ 31 ∨ ¬ target <:+: b.contents ∧ j % 2 ^ 32 = 0) := by
  have hfind := Buffer.find_eq h hheld hlen
  cases hres : search (Buffer.searched target) b.contents with
  | none =>
      rw [hres] at hfind
      have hnot := (search_eq_none_iff.mp hres).resolve_left hne
      refine iff_of_false (not_stopsAt_of_none h hne hfind (fun j hj => first_lt hne hj)) ?_
      rintro ⟨k, hk, -⟩
      exact hnot hk.occurs
  | some k =>
      rw [hres, Buffer.answer, Nat.zero_add] at hfind
      obtain ⟨hlt, hfirst⟩ := search_eq_some_iff.mp hres
      rw [Buffer.contents_length] at hlt
      rw [stopsAt_iff_of_found h hlt hfirst hfind]
      constructor
      · exact fun hcase => ⟨k, hfirst, hcase⟩
      · rintro ⟨j, hj, hcase⟩
        rwa [hfirst.unique hj]

/-- `advanceTo` keeps what it does not match exactly when there is nothing to keep or the
target is there. -/
theorem advanceTo_stops_iff (r : BufferReader) (h : r.buffer.Wf) (hheld : r.buffer.Held)
    (target : List Byte) : r.StopsAt target ↔ Stoppable r.buffer target := by
  obtain ⟨b⟩ := r
  change b.Wf at h
  change b.Held at hheld
  show StopsAt ⟨b⟩ target ↔ Stoppable b target
  by_cases hne : b.contents = []
  case pos => exact iff_of_true (stopsAt_of_empty h hne) (.inl hne)
  case neg =>
    rw [Stoppable, or_iff_right hne]
    by_cases hlen : target.length % 2 ^ 32 < 2 ^ 31
    case neg =>
      exact iff_of_false (not_stopsAt_of_long h hheld hne (not_lt.mp hlen)) fun hsafe =>
        hlen hsafe.1
    case pos => rw [stopsAt_iff_of_short h hheld hne hlen, and_iff_right hlen]

theorem advanceTo_stops_iff_wrapped :
    StopsAt ⟨Buffer.wrapped⟩ [65, 66] ↔ Stoppable Buffer.wrapped [65, 66] :=
  advanceTo_stops_iff ⟨Buffer.wrapped⟩ Buffer.wrapped_wf Buffer.wrapped_held [65, 66]

/-- A delimiter that has not arrived yet, and the byte before it is gone. -/
theorem advanceTo_discards_unmatched : ¬ StopsAt ⟨Buffer.oneByte⟩ [13] := by
  rintro ⟨r', hadv, -, hnone⟩
  have hempty : advanceTo ⟨Buffer.oneByte⟩ [13] = .ok ⟨⟨1, 1, 1, [66, 0]⟩⟩ := by decide
  rw [hempty] at hadv
  injection hadv with hadv
  subst hadv
  exact absurd (hnone (by decide)) (by decide)

end BufferReader

end LpNet
