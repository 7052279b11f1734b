import LpNet.Buffer.Reader

/-!
What `BufferReader` takes from a caller and hands back to one.

`append` grows by doubling, once, when there is little room, and then writes
what fits, but answers the length it was given. `read` and `readAll` copy
through a pointer to the characters of a string whose length they do not look
at. Each of the laws below is therefore about a relation between the lengths
on the two sides.
-/

namespace LpNet

open Cyclic Transition

namespace Buffer

variable {b : Buffer}

/-- Copying more bytes than the destination has runs over its end. -/
theorem readLoop_error (h : b.Wf) (hheld : b.Held) {s : List Byte} {i n : ℕ}
    (hi : i + n ≤ b.size) (hs : i ≤ s.length) (hshort : s.length < i + n) :
    b.readLoop s i n = .error .badArgument := by
  have hcap := h.cap_lt
  have hget := h.get_le
  have hsize := h.size_le
  induction n generalizing s i with
  | zero => omega
  | succ n ih =>
      rw [readLoop, h.indexOf_eq (by omega), load_ok (hheld i (by omega)), ok_bind]
      by_cases hend : i < s.length
      case pos =>
        rw [storeArg_ok _ hend, ok_bind]
        exact ih (by omega) (by rw [List.length_set]; omega) (by rw [List.length_set]; omega)
      case neg =>
        have hfail : storeArg s i (b.data.getD ((b.getPos + i) % (b.capacity + 1)) 0) =
            .error .badArgument := if_neg hend
        rw [hfail, error_bind]

theorem read_error (h : b.Wf) (hheld : b.Held) {s : List Byte} {n : ℕ}
    (hshort : s.length < min n b.size) : b.read (some s) n = .error .badArgument := by
  simp only [read, read_count]
  rw [readLoop_error h hheld (by omega) (Nat.zero_le _) (by omega), error_bind]

/-- The array has the cells behind the contents that a write of `n` bytes stores to. -/
def HasCells (b : Buffer) (n : ℕ) : Prop :=
  ∀ i < n, (b.putPos + i) % (b.capacity + 1) < b.data.length

instance (b : Buffer) (n : ℕ) : Decidable (b.HasCells n) := by
  unfold HasCells
  infer_instance

end Buffer

namespace BufferReader

variable {b : Buffer}

/-! ### `append` -/

/-- The contents grow by as many of the bytes as the result says, and these are all. -/
def KeepsAll (junk : ℕ → Byte) (r : BufferReader) (data : List Byte) : Prop :=
  ∃ (len : ℕ) (r' : BufferReader), r.append junk data data.length = .ok ((len : ℤ), r') ∧
    r'.buffer.contents = r.buffer.contents ++ data.take len ∧ len = data.length

/-- The length is an `int`, and it fits: into twice the capacity, if that can be allocated,
when the buffer grows; into the free cells of the array when it does not. -/
def Fits (b : Buffer) (len : ℕ) : Prop :=
  len < 2 ^ 31 ∧
    if toInt b.writableBytes < Buffer.kMaxBytesPerRead then
      b.capacity * 2 < 2 ^ 63 ∧ b.size + len ≤ b.capacity * 2
    else b.size + len ≤ b.capacity ∧ b.HasCells len

/-- A write of a whole string keeps it exactly when there is room for it. -/
theorem write_keeps_iff (h : b.Wf) {data : List Byte} :
    (∃ n b', b.write (some data) data.length = .ok (n, b') ∧
        b'.contents = b.contents ++ data) ↔
      b.size + data.length ≤ b.capacity ∧ b.HasCells data.length := by
  have hsize := h.size_le
  have hacc : b.accepted data.length ≤ data.length := Nat.min_le_left ..
  by_cases hcells : b.HasCells (b.accepted data.length)
  case neg =>
    refine iff_of_false ?_ ?_
    · rintro ⟨n, b', hwrite, -⟩
      simp only [Buffer.HasCells, not_forall, not_lt] at hcells
      obtain ⟨i, hi, hout⟩ := hcells
      rw [Buffer.write_error h hacc ⟨i, hi, hout⟩] at hwrite
      cases hwrite
    · rintro ⟨-, hall⟩
      exact hcells fun i hi => hall i (by omega)
  case pos =>
    have hwrite := Buffer.write_eq h hacc hcells
    have htaken : (data.take (b.accepted data.length)).length = b.accepted data.length := by
      rw [List.length_take, Nat.min_eq_left hacc]
    have hcontents : (b.extend (data.take (b.accepted data.length))).contents =
        b.contents ++ data.take (b.accepted data.length) :=
      Buffer.extend_contents h (by rw [htaken, Buffer.accepted]; omega)
        (by rw [htaken]; exact hcells)
    constructor
    · rintro ⟨n, b', hwrite', hkept⟩
      rw [hwrite] at hwrite'
      injection hwrite' with hres
      injection hres with hn hb
      rw [← hb, hcontents, List.append_cancel_left_eq] at hkept
      have hlen := congrArg List.length hkept
      rw [htaken] at hlen
      rw [hlen] at hcells
      exact ⟨by rw [Buffer.accepted] at hlen; omega, hcells⟩
    · rintro ⟨hroom, -⟩
      refine ⟨_, _, hwrite, ?_⟩
      rw [hcontents, List.take_of_length_le (by rw [Buffer.accepted]; omega)]

/-- Growing doubles the capacity and keeps the contents, when the array can be allocated. -/
theorem grow_eq (junk : ℕ → Byte) (h : b.Wf) (hheld : b.Held) :
    grow junk ⟨b⟩ =
      if toInt b.writableBytes < Buffer.kMaxBytesPerRead then
        if b.capacity * 2 < 2 ^ 63 then
          .ok (Buffer.resized junk b.contents (b.capacity * 2))
        else .error .badAlloc
      else .ok b := by
  have hcap := h.cap_lt
  have hsize := h.size_le
  rw [grow, writableBytes]
  dsimp only
  split
  case isFalse => rfl
  case isTrue =>
    rw [SizeT.mul_eq (by omega)]
    split
    case isTrue hfits =>
      rw [Buffer.reset_eq junk h hfits (hheld.keepsHeld _),
        List.take_of_length_le (by rw [Buffer.contents_length]; omega)]
    case isFalse hbig =>
      rw [Buffer.reset, if_neg (by simpa [allocatable] using hbig)]

/-- The array of a grown buffer has all the cells behind the contents. -/
theorem resized_hasCells (junk : ℕ → Byte) {xs : List Byte} {newCapacity n : ℕ}
    (hroom : xs.length + n ≤ newCapacity) :
    (Buffer.resized junk xs newCapacity).HasCells n := by
  intro i hi
  rw [Buffer.resized_alloc junk (by omega)]
  simp only [Buffer.resized]
  rw [Nat.mod_eq_of_lt (by omega)]
  omega

theorem toInt_eq_iff (n : ℕ) : toInt n = n ↔ n < 2 ^ 31 := by
  constructor
  · intro heq
    have hlt := Int.bmod_lt (x := n) (show 0 < 2 ^ 32 by decide)
    rw [toInt] at heq
    omega
  · exact toInt_of_lt

/-- `append` in terms of the write to the grown buffer. -/
theorem keepsAll_iff_of_grow (junk : ℕ → Byte) {g : Buffer} {data : List Byte}
    (hgrow : grow junk ⟨b⟩ = .ok g) (hg : g.Wf) (hsame : g.contents = b.contents) :
    KeepsAll junk ⟨b⟩ data ↔ data.length < 2 ^ 31 ∧
      (g.size + data.length ≤ g.capacity ∧ g.HasCells data.length) := by
  rw [← write_keeps_iff hg, hsame]
  constructor
  · rintro ⟨len, r', happend, hkept, rfl⟩
    rw [append, hgrow, ok_bind, bind_eq_ok] at happend
    obtain ⟨⟨n, b'⟩, hwrite, happend⟩ := happend
    injection happend with happend
    injection happend with hlen hr
    rw [List.take_length, ← hr] at hkept
    exact ⟨(toInt_eq_iff _).mp hlen, n, b', hwrite, hkept⟩
  · rintro ⟨hlen, n, b', hwrite, hkept⟩
    refine ⟨data.length, ⟨b'⟩, ?_, by rw [List.take_length]; exact hkept, rfl⟩
    rw [append, hgrow, ok_bind, hwrite, ok_bind, toInt_of_lt hlen]

theorem not_keepsAll_of_fault (junk : ℕ → Byte) {data : List Byte} {fault : Fault}
    (hgrow : grow junk ⟨b⟩ = .error fault) : ¬ KeepsAll junk ⟨b⟩ data := by
  rintro ⟨len, r', happend, -⟩
  rw [append, hgrow, error_bind] at happend
  cases happend

theorem keepsAll_iff_of_doubled (junk : ℕ → Byte) (h : b.Wf) {data : List Byte}
    (hfits : b.capacity * 2 < 2 ^ 63)
    (hgrow : grow junk ⟨b⟩ = .ok (Buffer.resized junk b.contents (b.capacity * 2))) :
    KeepsAll junk ⟨b⟩ data ↔
      data.length < 2 ^ 31 ∧ b.size + data.length ≤ b.capacity * 2 := by
  have hsize := h.size_le
  have hlen : b.contents.length ≤ b.capacity * 2 := by
    rw [Buffer.contents_length]
    omega
  have hsame := Buffer.resized_contents junk hlen hfits
  have hcount : (Buffer.resized junk b.contents (b.capacity * 2)).size = b.size := by
    rw [← Buffer.contents_length, hsame, Buffer.contents_length]
  rw [keepsAll_iff_of_grow junk hgrow (Buffer.resized_wf junk hlen hfits) hsame, hcount]
  refine and_congr_right fun _ => ⟨And.left, fun hroom => ⟨hroom, resized_hasCells junk ?_⟩⟩
  rw [Buffer.contents_length]
  exact hroom

/-- `append` keeps every byte exactly when the bytes fit. -/
theorem append_keeps_iff (junk : ℕ → Byte) (r : BufferReader) (h : r.buffer.Wf)
    (hheld : r.buffer.Held) (data : List Byte) :
    r.KeepsAll junk data ↔ Fits r.buffer data.length := by
  obtain ⟨b⟩ := r
  change b.Wf at h
  change b.Held at hheld
  have hgrow := grow_eq junk h hheld
  rw [Fits]
  dsimp only
  by_cases hsmall : toInt b.writableBytes < Buffer.kMaxBytesPerRead
  case neg =>
    rw [if_neg hsmall] at hgrow ⊢
    rw [keepsAll_iff_of_grow junk hgrow h rfl]
  case pos =>
    rw [if_pos hsmall] at hgrow ⊢
    by_cases hfits : b.capacity * 2 < 2 ^ 63
    case neg =>
      rw [if_neg hfits] at hgrow
      exact iff_of_false (not_keepsAll_of_fault junk hgrow) fun hcond => hfits hcond.2.1
    case pos =>
      rw [if_pos hfits] at hgrow
      rw [keepsAll_iff_of_doubled junk h hfits hgrow, and_iff_right hfits]

theorem append_keeps_iff_wrapped :
    KeepsAll (fun _ => 0) ⟨Buffer.wrapped⟩ [67, 68] ↔ Fits Buffer.wrapped 2 :=
  append_keeps_iff (fun _ => 0) ⟨Buffer.wrapped⟩ Buffer.wrapped_wf Buffer.wrapped_held [67, 68]

/-- Two bytes for a reader with one free cell after it has grown: one of them is lost. -/
theorem append_loses_byte :
    ¬ KeepsAll (fun _ => 0) ⟨⟨1, 1, 0, [66, 0]⟩⟩ [67, 68] := by
  rintro ⟨len, r', happend, hkept, rfl⟩
  have hlost : append (fun _ => 0) ⟨⟨1, 1, 0, [66, 0]⟩⟩ [67, 68] 2 =
      .ok (2, ⟨⟨2, 2, 0, [66, 67]⟩⟩) := by decide
  rw [List.length_cons, List.length_singleton, hlost] at happend
  injection happend with happend
  injection happend with hlen hr
  subst hr
  exact absurd hkept (by decide)

/-! ### `read` and `readAll` -/

/-- Nothing happens for a request of no bytes or of more than there are; otherwise the string
holds the bytes that were removed. -/
def DeliversFirst (r : BufferReader) (n : ℕ) (data : List Byte) : Prop :=
  ∃ (len : ℤ) (s : List Byte) (r' : BufferReader), r.read n data = .ok (len, s, r') ∧
    (n = 0 ∨ r.buffer.size < n → len = 0 ∧ s = data ∧ r' = r) ∧
    (0 < n ∧ n ≤ r.buffer.size →
      len = n ∧ r'.buffer.contents = r.buffer.contents.drop n ∧ s = r.buffer.contents.take n)

/-- The string holds the contents, the reader nothing, and the result is `len`. -/
def DeliversAll (r : BufferReader) (data : List Byte) (len : ℤ) : Prop :=
  ∃ r', r.readAll data = .ok (len, r.buffer.contents, r') ∧ r'.buffer.contents = []

/-- The number of readable bytes with all but its low 32 bits lost, the last of them taken
for a sign. -/
def seen (b : Buffer) : ℕ :=
  if b.size % 2 ^ 32 < 2 ^ 31 then b.size % 2 ^ 32 else 2 ^ 64 - 2 ^ 32 + b.size % 2 ^ 32

/-- This is what the two functions compare with and copy, for the number of bytes goes through
an `int`. -/
theorem ofInt_readableBytes : ofInt (toInt (BufferReader.mk b).readableBytes) = seen b :=
  ofInt_toInt b.size

theorem seen_of_lt (h : b.size < 2 ^ 31) : seen b = b.size := by
  rw [seen, Nat.mod_eq_of_lt (by omega), if_pos h]

theorem copy_eq (h : b.Wf) (hheld : b.Held) {data : List Byte} {n : ℕ} (f : ℕ → ℤ)
    (hlen : min n b.size ≤ data.length) :
    (do
      let (len, data, buffer) ← b.read (some data) n
      .ok (f len, data.getD [], (⟨buffer⟩ : BufferReader))) =
    (.ok (f (min n b.size), b.contents.take n ++ data.drop (min n b.size),
      ⟨b.advance (min n b.size)⟩) : Except Fault (ℤ × List Byte × BufferReader)) := by
  rw [Buffer.read_of_held h hheld hlen]
  rfl

theorem copy_error (h : b.Wf) (hheld : b.Held) {data : List Byte} {n : ℕ} (f : ℕ → ℤ)
    (hshort : data.length < min n b.size) :
    (do
      let (len, data, buffer) ← b.read (some data) n
      .ok (f len, data.getD [], (⟨buffer⟩ : BufferReader))) =
    (.error .badArgument : Except Fault (ℤ × List Byte × BufferReader)) := by
  rw [Buffer.read_error h hheld hshort]
  rfl

theorem read_refused (data : List Byte) {n : ℕ} (hn : ¬ (0 < n ∧ n ≤ seen b)) :
    read ⟨b⟩ n data = .ok (0, data, ⟨b⟩) := by
  rw [← ofInt_readableBytes] at hn
  exact if_neg hn

theorem read_eq (h : b.Wf) (hheld : b.Held) {data : List Byte} {n : ℕ}
    (hn : 0 < n ∧ n ≤ seen b) (hlen : min n b.size ≤ data.length) :
    read ⟨b⟩ n data = .ok (toInt (min n b.size : ℕ),
      b.contents.take n ++ data.drop (min n b.size), ⟨b.advance (min n b.size)⟩) := by
  rw [← ofInt_readableBytes] at hn
  exact (if_pos hn).trans (copy_eq h hheld (fun len => toInt len) hlen)

theorem read_overrun (h : b.Wf) (hheld : b.Held) {data : List Byte} {n : ℕ}
    (hn : 0 < n ∧ n ≤ seen b) (hshort : data.length < min n b.size) :
    read ⟨b⟩ n data = .error .badArgument := by
  rw [← ofInt_readableBytes] at hn
  exact (if_pos hn).trans (copy_error h hheld (fun len => toInt len) hshort)

theorem deliversFirst_of_refused (data : List Byte) {n : ℕ} (hn : ¬ (0 < n ∧ n ≤ seen b)) :
    DeliversFirst ⟨b⟩ n data ↔ n = 0 ∨ b.size < n := by
  have hread := read_refused data hn
  constructor
  · rintro ⟨len, s, r', hread', -, hdeliver⟩
    rw [hread] at hread'
    injection hread' with hres
    injection hres with hlen
    by_contra hdue
    have := (hdeliver ⟨by omega, by dsimp only; omega⟩).1
    omega
  · intro hnone
    refine ⟨0, data, ⟨b⟩, hread, fun _ => ⟨rfl, rfl, rfl⟩, fun hdue => ?_⟩
    dsimp only at hdue
    omega

theorem not_deliversFirst_of_many (h : b.Wf) (hheld : b.Held) (data : List Byte) {n : ℕ}
    (hn : 0 < n ∧ n ≤ seen b) (hmany : b.size < n) : ¬ DeliversFirst ⟨b⟩ n data := by
  rintro ⟨len, s, r', hread, hrefused, -⟩
  have hsame := (hrefused (.inr hmany)).2.2
  by_cases hlen : min n b.size ≤ data.length
  case neg =>
    rw [read_overrun h hheld hn (by omega)] at hread
    cases hread
  case pos =>
    rw [read_eq h hheld hn hlen] at hread
    injection hread with hres
    injection hres with hret hres
    injection hres with hs hr
    rw [← hr] at hsame
    injection hsame with hsame
    have hcount := Buffer.advance_size h (Nat.min_le_right n b.size)
    rw [hsame] at hcount
    have hseen := seen_of_lt (b := b)
    omega

/-- The bytes that are there are delivered when the string is as long, and the `int` shows it. -/
theorem deliversFirst_of_available (h : b.Wf) (hheld : b.Held) (data : List Byte) {n : ℕ}
    (hn : 0 < n ∧ n ≤ seen b) (hle : n ≤ b.size) :
    DeliversFirst ⟨b⟩ n data ↔ n < 2 ^ 31 ∧ data.length = n := by
  by_cases hlen : min n b.size ≤ data.length
  case neg =>
    refine iff_of_false ?_ (by omega)
    rintro ⟨len, s, r', hread, -⟩
    rw [read_overrun h hheld hn (by omega)] at hread
    cases hread
  case pos =>
    have hread := read_eq h hheld hn hlen
    rw [Nat.min_eq_left hle] at hread
    constructor
    · rintro ⟨len, s, r', hread', -, hdeliver⟩
      rw [hread] at hread'
      injection hread' with hres
      injection hres with hret hres
      injection hres with hs hr
      obtain ⟨hret', -, hs'⟩ := hdeliver ⟨hn.1, hle⟩
      rw [← hret] at hret'
      rw [← hs] at hs'
      have hcount := congrArg List.length hs'
      simp only [List.length_append, List.length_take, List.length_drop,
        Buffer.contents_length] at hcount
      exact ⟨(toInt_eq_iff n).mp hret', by omega⟩
    · rintro ⟨hint, hdata⟩
      rw [List.drop_of_length_le (by omega), List.append_nil, toInt_of_lt hint] at hread
      refine ⟨_, _, _, hread, fun hrefused => ?_, fun _ => ⟨rfl, ?_, rfl⟩⟩
      · dsimp only at hrefused
        omega
      · exact Buffer.advance_contents h hle

theorem deliversFirst_iff (h : b.Wf) (hheld : b.Held) (n : ℕ) (data : List Byte) :
    DeliversFirst ⟨b⟩ n data ↔
      n = 0 ∨ b.size < n ∧ seen b < n ∨
        n ≤ b.size ∧ n ≤ seen b ∧ n < 2 ^ 31 ∧ data.length = n := by
  by_cases hn : 0 < n ∧ n ≤ seen b
  case neg =>
    rw [deliversFirst_of_refused data hn]
    omega
  case pos =>
    by_cases hmany : b.size < n
    case pos => exact iff_of_false (not_deliversFirst_of_many h hheld data hn hmany) (by omega)
    case neg =>
      rw [deliversFirst_of_available h hheld data hn (not_lt.mp hmany)]
      omega

theorem readAll_seen (data : List Byte) :
    readAll ⟨b⟩ data = (do
      let (_, data, buffer) ← b.read (some data) (seen b)
      .ok (toInt b.size, data.getD [], ⟨buffer⟩)) := by
  rw [← ofInt_readableBytes]
  rfl

theorem readAll_eq (h : b.Wf) (hheld : b.Held) {data : List Byte}
    (hlen : min (seen b) b.size ≤ data.length) :
    readAll ⟨b⟩ data = .ok (toInt b.size,
      b.contents.take (seen b) ++ data.drop (min (seen b) b.size),
      ⟨b.advance (min (seen b) b.size)⟩) :=
  (readAll_seen data).trans (copy_eq h hheld (fun _ => toInt b.size) hlen)

theorem readAll_overrun (h : b.Wf) (hheld : b.Held) {data : List Byte}
    (hshort : data.length < min (seen b) b.size) :
    readAll ⟨b⟩ data = .error .badArgument :=
  (readAll_seen data).trans (copy_error h hheld (fun _ => toInt b.size) hshort)

theorem deliversAll_iff (h : b.Wf) (hheld : b.Held) (data : List Byte) (len : ℤ) :
    DeliversAll ⟨b⟩ data len ↔ b.size ≤ seen b ∧ data.length = b.size ∧ len = toInt b.size := by
  by_cases hlen : min (seen b) b.size ≤ data.length
  case neg =>
    refine iff_of_false ?_ (by omega)
    rintro ⟨r', hread, -⟩
    rw [readAll_overrun h hheld (by omega)] at hread
    cases hread
  case pos =>
    have hread := readAll_eq h hheld hlen
    constructor
    · rintro ⟨r', hread', hempty⟩
      rw [hread] at hread'
      injection hread' with hres
      injection hres with hret hres
      injection hres with hs hr
      have hleft := Buffer.advance_size h (Nat.min_le_right (seen b) b.size)
      have hcount := congrArg List.length hs
      simp only [List.length_append, List.length_take, List.length_drop,
        Buffer.contents_length] at hcount
      rw [← hr] at hempty
      have hzero := congrArg List.length hempty
      rw [Buffer.contents_length, hleft, List.length_nil] at hzero
      exact ⟨by omega, by omega, hret.symm⟩
    · rintro ⟨hseen, hdata, hret⟩
      rw [hret]
      rw [Nat.min_eq_right hseen, List.drop_of_length_le (by omega), List.append_nil,
        List.take_of_length_le (by rw [Buffer.contents_length]; exact hseen)] at hread
      refine ⟨_, hread, ?_⟩
      have hleft := Buffer.advance_contents h (le_refl b.size)
      rw [hleft, List.drop_of_length_le (by rw [Buffer.contents_length])]

/-- `read` and `readAll` deliver what they consume exactly when the string has the length of
what they copy, and the lengths survive the `int`. -/
theorem reader_delivers_iff (r : BufferReader) (h : r.buffer.Wf) (hheld : r.buffer.Held)
    (n : ℕ) (data : List Byte) :
    (r.DeliversFirst n data ↔
      n = 0 ∨ r.buffer.size < n ∧ seen r.buffer < n ∨
        n ≤ r.buffer.size ∧ n ≤ seen r.buffer ∧ n < 2 ^ 31 ∧ data.length = n) ∧
    ((∃ len, r.DeliversAll data len) ↔
      r.buffer.size ≤ seen r.buffer ∧ data.length = r.buffer.size) ∧
    (r.DeliversAll data r.buffer.size ↔
      r.buffer.size < 2 ^ 31 ∧ data.length = r.buffer.size) := by
  obtain ⟨b⟩ := r
  refine ⟨deliversFirst_iff h hheld n data, ?_, ?_⟩
  · simp only [deliversAll_iff h hheld]
    constructor
    · rintro ⟨len, hseen, hdata, -⟩
      exact ⟨hseen, hdata⟩
    · rintro ⟨hseen, hdata⟩
      exact ⟨_, hseen, hdata, rfl⟩
  · rw [deliversAll_iff h hheld, eq_comm (a := (b.size : ℤ)), toInt_eq_iff]
    constructor
    · rintro ⟨-, hdata, hint⟩
      exact ⟨hint, hdata⟩
    · rintro ⟨hint, hdata⟩
      exact ⟨(seen_of_lt hint).ge, hdata, hint⟩

theorem reader_delivers_iff_wrapped :
    (DeliversFirst ⟨Buffer.wrapped⟩ 3 [0, 0, 0] ↔
      3 = 0 ∨ Buffer.wrapped.size < 3 ∧ seen Buffer.wrapped < 3 ∨
        3 ≤ Buffer.wrapped.size ∧ 3 ≤ seen Buffer.wrapped ∧ 3 < 2 ^ 31 ∧
          [(0 : Byte), 0, 0].length = 3) ∧
    ((∃ len, DeliversAll ⟨Buffer.wrapped⟩ [0, 0, 0] len) ↔
      Buffer.wrapped.size ≤ seen Buffer.wrapped ∧
        [(0 : Byte), 0, 0].length = Buffer.wrapped.size) ∧
    (DeliversAll ⟨Buffer.wrapped⟩ [0, 0, 0] Buffer.wrapped.size ↔
      Buffer.wrapped.size < 2 ^ 31 ∧ [(0 : Byte), 0, 0].length = Buffer.wrapped.size) :=
  reader_delivers_iff ⟨Buffer.wrapped⟩ Buffer.wrapped_wf Buffer.wrapped_held 3 [0, 0, 0]

/-- One byte is read into an empty string, which has no room for it. -/
theorem read_overruns_string : ¬ DeliversFirst ⟨⟨1, 1, 0, [66, 0]⟩⟩ 1 [] := by
  rintro ⟨len, s, r', hread, -⟩
  have hfault : read ⟨⟨1, 1, 0, [66, 0]⟩⟩ 1 [] = .error .badArgument := by decide
  rw [hfault] at hread
  cases hread

end BufferReader

end LpNet
