import LpNet.Lib.SignedBytes
import LpNet.Memory

/-!
The integer fields of `BufferWriter.cpp` and `BufferReader.cpp`: the functions
`writeU16Forward` to `writeU32Reverse` and their readers.

The writers store the bytes of the value. The readers take each `char` as the signed
number it is, so a byte from 0x80 on sets every bit above its place.
`fields_read_back_iff` says which lists of fields come back as they were written.
-/

namespace LpNet

open SignedBytes Transition

/-! ### The writers -/

def writeU16Forward (mem : List Byte) (p : ℕ) (value : UInt16) : Except Fault (List Byte) := do
  let mem ← storeArg mem p (value >>> 8).toUInt8
  storeArg mem (p + 1) (value &&& 0xFF).toUInt8

def writeU16Reverse (mem : List Byte) (p : ℕ) (value : UInt16) : Except Fault (List Byte) := do
  let mem ← storeArg mem (p + 1) (value >>> 8).toUInt8
  storeArg mem p (value &&& 0xFF).toUInt8

def writeU24Forward (mem : List Byte) (p : ℕ) (value : UInt32) : Except Fault (List Byte) := do
  let mem ← storeArg mem p (value >>> 16).toUInt8
  let mem ← storeArg mem (p + 1) (value >>> 8).toUInt8
  storeArg mem (p + 2) (value &&& 0xFF).toUInt8

def writeU24Reverse (mem : List Byte) (p : ℕ) (value : UInt32) : Except Fault (List Byte) := do
  let mem ← storeArg mem (p + 2) (value >>> 16).toUInt8
  let mem ← storeArg mem (p + 1) (value >>> 8).toUInt8
  storeArg mem p (value &&& 0xFF).toUInt8

def writeU32Forward (mem : List Byte) (p : ℕ) (value : UInt32) : Except Fault (List Byte) := do
  let mem ← storeArg mem p (value >>> 24).toUInt8
  let mem ← storeArg mem (p + 1) (value >>> 16).toUInt8
  let mem ← storeArg mem (p + 2) (value >>> 8).toUInt8
  storeArg mem (p + 3) (value &&& 0xFF).toUInt8

def writeU32Reverse (mem : List Byte) (p : ℕ) (value : UInt32) : Except Fault (List Byte) := do
  let mem ← storeArg mem (p + 3) (value >>> 24).toUInt8
  let mem ← storeArg mem (p + 2) (value >>> 16).toUInt8
  let mem ← storeArg mem (p + 1) (value >>> 8).toUInt8
  storeArg mem p (value &&& 0xFF).toUInt8

/-! ### The readers -/

/-- `p[i] << n`: the `char` is signed and promoted to `int` before the shift. The bits
of the `int`. -/
def promoteShl (c : Byte) (n : ℕ) : UInt32 := ⟨c.toBitVec.signExtend 32⟩ <<< UInt32.ofNat n

/-- `res |= x` for a `uint16_t` and an `int`. -/
def orUInt16 (res : UInt16) (x : UInt32) : UInt16 := (res.toUInt32 ||| x).toUInt16

def readU16Forward (mem : List Byte) (p : ℕ) : Except Fault UInt16 := do
  let res : UInt16 := 0
  let res := orUInt16 res (promoteShl (← loadArg mem p) 8)
  let res := orUInt16 res (promoteShl (← loadArg mem (p + 1)) 0)
  .ok res

def readU16Reverse (mem : List Byte) (p : ℕ) : Except Fault UInt16 := do
  let res : UInt16 := 0
  let res := orUInt16 res (promoteShl (← loadArg mem (p + 1)) 8)
  let res := orUInt16 res (promoteShl (← loadArg mem p) 0)
  .ok res

def readU24Forward (mem : List Byte) (p : ℕ) : Except Fault UInt32 := do
  let res : UInt32 := 0
  let res := res ||| promoteShl (← loadArg mem p) 16
  let res := res ||| promoteShl (← loadArg mem (p + 1)) 8
  let res := res ||| promoteShl (← loadArg mem (p + 2)) 0
  .ok res

def readU24Reverse (mem : List Byte) (p : ℕ) : Except Fault UInt32 := do
  let res : UInt32 := 0
  let res := res ||| promoteShl (← loadArg mem (p + 2)) 16
  let res := res ||| promoteShl (← loadArg mem (p + 1)) 8
  let res := res ||| promoteShl (← loadArg mem p) 0
  .ok res

def readU32Forward (mem : List Byte) (p : ℕ) : Except Fault UInt32 := do
  let res : UInt32 := 0
  let res := res ||| promoteShl (← loadArg mem p) 24
  let res := res ||| promoteShl (← loadArg mem (p + 1)) 16
  let res := res ||| promoteShl (← loadArg mem (p + 2)) 8
  let res := res ||| promoteShl (← loadArg mem (p + 3)) 0
  .ok res

def readU32Reverse (mem : List Byte) (p : ℕ) : Except Fault UInt32 := do
  let res : UInt32 := 0
  let res := res ||| promoteShl (← loadArg mem (p + 3)) 24
  let res := res ||| promoteShl (← loadArg mem (p + 2)) 16
  let res := res ||| promoteShl (← loadArg mem (p + 1)) 8
  let res := res ||| promoteShl (← loadArg mem p) 0
  .ok res

/-! ### Fields -/

inductive FieldWidth
  | bits16
  | bits24
  | bits32
  deriving DecidableEq, Repr

inductive ByteOrder
  | forward
  | reverse
  deriving DecidableEq, Repr

namespace FieldWidth

def bits : FieldWidth → ℕ
  | bits16 => 16
  | bits24 => 24
  | bits32 => 32

def bytes : FieldWidth → ℕ
  | bits16 => 2
  | bits24 => 3
  | bits32 => 4

/-- The bits of the type its reader answers. -/
def resultBits : FieldWidth → ℕ
  | bits16 => 16
  | bits24 => 32
  | bits32 => 32

end FieldWidth

structure FieldLayout where
  width : FieldWidth
  order : ByteOrder
  deriving DecidableEq, Repr

/-- A field with a value that its width can hold. -/
structure Field extends FieldLayout where
  value : ℕ
  below : value < 2 ^ width.bits

def FieldLayout.read (l : FieldLayout) (mem : List Byte) (p : ℕ) : Except Fault ℕ :=
  match l.width, l.order with
  | .bits16, .forward => UInt16.toNat <$> readU16Forward mem p
  | .bits16, .reverse => UInt16.toNat <$> readU16Reverse mem p
  | .bits24, .forward => UInt32.toNat <$> readU24Forward mem p
  | .bits24, .reverse => UInt32.toNat <$> readU24Reverse mem p
  | .bits32, .forward => UInt32.toNat <$> readU32Forward mem p
  | .bits32, .reverse => UInt32.toNat <$> readU32Reverse mem p

def Field.write (f : Field) (mem : List Byte) (p : ℕ) : Except Fault (List Byte) :=
  match f.width, f.order with
  | .bits16, .forward => writeU16Forward mem p (UInt16.ofNat f.value)
  | .bits16, .reverse => writeU16Reverse mem p (UInt16.ofNat f.value)
  | .bits24, .forward => writeU24Forward mem p (UInt32.ofNat f.value)
  | .bits24, .reverse => writeU24Reverse mem p (UInt32.ofNat f.value)
  | .bits32, .forward => writeU32Forward mem p (UInt32.ofNat f.value)
  | .bits32, .reverse => writeU32Reverse mem p (UInt32.ofNat f.value)

def totalBytes : List Field → ℕ
  | [] => 0
  | f :: fs => f.width.bytes + totalBytes fs

def writeFields (mem : List Byte) (p : ℕ) : List Field → Except Fault (List Byte)
  | [] => .ok mem
  | f :: fs => do
      let mem ← f.write mem p
      writeFields mem (p + f.width.bytes) fs

def readFields (mem : List Byte) (p : ℕ) : List FieldLayout → Except Fault (List ℕ)
  | [] => .ok []
  | l :: ls => do
      let value ← l.read mem p
      let values ← readFields mem (p + l.width.bytes) ls
      .ok (value :: values)

/-- The bytes in the order of the array, from their order in the number. -/
def ByteOrder.arrange : ByteOrder → List Byte → List Byte
  | forward, bs => bs.reverse
  | reverse, bs => bs

def Field.image (f : Field) : List Byte := f.order.arrange (bytes f.width.bytes f.value)

@[simp] theorem Field.image_length (f : Field) : f.image.length = f.width.bytes := by
  rw [image]
  cases f.order <;> simp [ByteOrder.arrange]

/-! ### What the writers store -/

@[simp] theorem toUInt8_shift16 (v : ℕ) :
    (UInt16.ofNat v >>> 8).toUInt8 = UInt8.ofNat (v >>> 8) := by
  apply UInt8.toNat_inj.mp
  simp [Nat.shiftRight_eq_div_pow]
  omega

theorem toUInt8_shift32 (v : ℕ) (n : UInt32) (hn : n.toNat ≤ 24) :
    (UInt32.ofNat v >>> n).toUInt8 = UInt8.ofNat (v >>> n.toNat) := by
  have hmod : n.toNat % 32 = n.toNat := Nat.mod_eq_of_lt (by omega)
  apply UInt8.toNat_inj.mp
  simp only [UInt32.toNat_toUInt8, UInt32.toNat_shiftRight, hmod, UInt32.toNat_ofNat',
    UInt8.toNat_ofNat', Nat.shiftRight_eq_div_pow]
  rw [← Nat.mod_mul_right_div_self, ← Nat.mod_mul_right_div_self, ← pow_add]
  congr 1
  exact Nat.mod_mod_of_dvd v (pow_dvd_pow 2 (by omega))

/-- `& 0xFF` on a value already cut to a `char`. -/
@[simp] theorem and_255 (c : Byte) : c &&& 255 = c := by
  apply UInt8.toNat_inj.mp
  rw [UInt8.toNat_and]
  exact Nat.and_two_pow_sub_one_of_lt_two_pow c.toNat_lt

/-- A field is stored in the cells from `p` on, as many as it has bytes, and no other
cell changes. -/
theorem Field.write_eq (f : Field) {pre old post : List Byte}
    (hold : old.length = f.width.bytes) :
    f.write (pre ++ old ++ post) pre.length = .ok (pre ++ f.image ++ post) := by
  obtain ⟨⟨width, order⟩, v, hv⟩ := f
  cases width with
  | bits16 =>
      obtain ⟨a, b, rfl⟩ := List.length_eq_two.mp hold
      cases order <;>
        simp [Field.write, Field.image, ByteOrder.arrange, FieldWidth.bytes, bytes,
          storeArg, ok_bind, writeU16Forward, writeU16Reverse]
  | bits24 =>
      obtain ⟨a, b, c, rfl⟩ := List.length_eq_three.mp hold
      cases order <;>
        simp [Field.write, Field.image, ByteOrder.arrange, FieldWidth.bytes, bytes,
          storeArg, ok_bind, writeU24Forward, writeU24Reverse, toUInt8_shift32,
          ← Nat.shiftRight_add]
  | bits32 =>
      obtain ⟨a, b, c, d, rfl⟩ := List.length_eq_four.mp hold
      cases order <;>
        simp [Field.write, Field.image, ByteOrder.arrange, FieldWidth.bytes, bytes,
          storeArg, ok_bind, writeU32Forward, writeU32Reverse, toUInt8_shift32,
          ← Nat.shiftRight_add]

theorem Field.write_without_room (f : Field) {mem : List Byte} {p : ℕ}
    (hroom : mem.length < p + f.width.bytes) : f.write mem p = .error .badArgument := by
  obtain ⟨⟨width, order⟩, v, hv⟩ := f
  cases width with
  | bits16 =>
      change mem.length < p + 2 at hroom
      cases order <;> simp only [Field.write, writeU16Forward, writeU16Reverse, storeArg] <;>
        grind [List.length_set, Transition.ok_bind, Transition.error_bind]
  | bits24 =>
      change mem.length < p + 3 at hroom
      cases order <;> simp only [Field.write, writeU24Forward, writeU24Reverse, storeArg] <;>
        grind [List.length_set, Transition.ok_bind, Transition.error_bind]
  | bits32 =>
      change mem.length < p + 4 at hroom
      cases order <;> simp only [Field.write, writeU32Forward, writeU32Reverse, storeArg] <;>
        grind [List.length_set, Transition.ok_bind, Transition.error_bind]

theorem writeFields_eq (fs : List Field) {pre old post : List Byte}
    (hold : old.length = totalBytes fs) :
    writeFields (pre ++ old ++ post) pre.length fs =
      .ok (pre ++ fs.flatMap Field.image ++ post) := by
  induction fs generalizing pre old with
  | nil =>
      have hnil : old = [] := List.length_eq_zero_iff.mp hold
      subst hnil
      simp [writeFields]
  | cons f fs ih =>
      obtain ⟨first, rest, rfl, hfirst⟩ :
          ∃ first rest, old = first ++ rest ∧ first.length = f.width.bytes := by
        refine ⟨old.take f.width.bytes, old.drop f.width.bytes, by simp, ?_⟩
        rw [List.length_take, hold, totalBytes]
        omega
      have hrest : rest.length = totalBytes fs := by
        simpa [hfirst, totalBytes] using hold
      have hnext : writeFields (pre ++ f.image ++ rest ++ post) (pre ++ f.image).length fs =
          .ok (pre ++ f.image ++ fs.flatMap Field.image ++ post) := ih hrest
      rw [List.length_append, f.image_length] at hnext
      rw [writeFields, show pre ++ (first ++ rest) ++ post = pre ++ first ++ (rest ++ post) by simp,
        f.write_eq hfirst, ok_bind, show pre ++ f.image ++ (rest ++ post)
          = pre ++ f.image ++ rest ++ post by simp, hnext]
      simp

/-! ### What the readers answer -/

theorem testBit_promoteShl (c : Byte) (n k : ℕ) (hn : n < 32) :
    (promoteShl c n).toNat.testBit k =
      (decide (k < 32) && (decide (n ≤ k) && extendedBit c (k - n))) := by
  have hbit (j : ℕ) : (UInt32.ofBitVec (c.toBitVec.signExtend 32)).toNat.testBit j =
      (decide (j < 32) && extendedBit c j) := by
    change (c.toBitVec.signExtend 32).getLsbD j = _
    rw [BitVec.getLsbD_signExtend, extendedBit]
    by_cases hj : j < 8
    · rw [if_pos hj, show min j 7 = j by omega]
      rfl
    · rw [if_neg hj, show min j 7 = 7 by omega]
      rfl
  have hn' : (UInt32.ofNat n).toNat % 32 = n := by
    rw [UInt32.toNat_ofNat_of_lt' (by simp [UInt32.size]; omega), Nat.mod_eq_of_lt hn]
  rw [promoteShl, UInt32.toNat_shiftLeft, Nat.testBit_mod_two_pow, Nat.testBit_shiftLeft, hn',
    hbit]
  by_cases hk : k < 32
  · simp [hk, show k - n < 32 by omega]
  · simp [hk]

theorem testBit_orUInt16 (res : UInt16) (x : UInt32) (k : ℕ) :
    (orUInt16 res x).toNat.testBit k =
      (decide (k < 16) && (res.toNat.testBit k || x.toNat.testBit k)) := by
  simp only [orUInt16, UInt32.toNat_toUInt16, Nat.testBit_mod_two_pow, UInt32.toNat_or,
    UInt16.toNat_toUInt32, Nat.testBit_lor]

/-- A reader answers the OR of the signed bytes in its cells, cut to its type. -/
theorem FieldLayout.read_eq (l : FieldLayout) (pre post : List Byte) {bs : List Byte}
    (hlen : bs.length = l.width.bytes) :
    ∃ r, l.read (pre ++ l.order.arrange bs ++ post) pre.length = .ok r ∧
      ∀ k, r.testBit k = (decide (k < l.width.resultBits) && gluedBit bs k) := by
  obtain ⟨width, order⟩ := l
  cases width with
  | bits16 =>
      obtain ⟨a, b, rfl⟩ := List.length_eq_two.mp hlen
      refine ⟨(orUInt16 (orUInt16 0 (promoteShl b 8)) (promoteShl a 0)).toNat, ?_, fun k => ?_⟩
      · cases order <;>
          simp [FieldLayout.read, ByteOrder.arrange, loadArg, ok_bind, readU16Forward,
            readU16Reverse, Functor.map, Except.map]
      · simp (disch := decide) only [testBit_orUInt16, testBit_promoteShl, gluedBit,
          FieldWidth.resultBits]
        simp
        grind
  | bits24 =>
      obtain ⟨a, b, c, rfl⟩ := List.length_eq_three.mp hlen
      refine ⟨(0 ||| promoteShl c 16 ||| promoteShl b 8 ||| promoteShl a 0).toNat, ?_,
        fun k => ?_⟩
      · cases order <;>
          simp [FieldLayout.read, ByteOrder.arrange, loadArg, ok_bind, readU24Forward,
            readU24Reverse, Functor.map, Except.map]
      · simp (disch := decide) only [UInt32.toNat_or, Nat.testBit_lor, testBit_promoteShl,
          gluedBit, FieldWidth.resultBits]
        simp
        grind
  | bits32 =>
      obtain ⟨a, b, c, d, rfl⟩ := List.length_eq_four.mp hlen
      refine ⟨(0 ||| promoteShl d 24 ||| promoteShl c 16 ||| promoteShl b 8
        ||| promoteShl a 0).toNat, ?_, fun k => ?_⟩
      · cases order <;>
          simp [FieldLayout.read, ByteOrder.arrange, loadArg, ok_bind, readU32Forward,
            readU32Reverse, Functor.map, Except.map]
      · simp (disch := decide) only [UInt32.toNat_or, Nat.testBit_lor, testBit_promoteShl,
          gluedBit, FieldWidth.resultBits]
        simp
        grind

/-! ### The round trip -/

/-- The field comes back: where a byte of the value has its top bit set, so has every
higher bit of the type its reader answers. -/
def Field.Plain (f : Field) : Prop :=
  SignedBytes.Plain f.width.bytes f.width.resultBits f.value

instance (f : Field) : Decidable f.Plain :=
  inferInstanceAs (Decidable (SignedBytes.Plain _ _ _))

theorem FieldWidth.bits_eq (w : FieldWidth) : w.bits = 8 * w.bytes := by
  cases w <;> rfl

theorem FieldWidth.bits_le (w : FieldWidth) : w.bits ≤ w.resultBits := by
  cases w <;> decide

/-- The reader of a field's layout answers its value exactly when it is plain. -/
theorem Field.read_image (f : Field) (pre post : List Byte) :
    ∃ r, f.read (pre ++ f.image ++ post) pre.length = .ok r ∧ (r = f.value ↔ f.Plain) := by
  obtain ⟨r, hr, hbits⟩ := f.read_eq pre post
    (bytes_length f.width.bytes f.value)
  have hbelow := f.below
  refine ⟨r, hr, ?_⟩
  rw [Field.Plain, ← gluedBit_bytes_iff (by rw [← FieldWidth.bits_eq]; exact hbelow)]
  constructor
  · intro heq k hk
    have h := hbits k
    rw [heq] at h
    simpa [hk] using h.symm
  · intro h
    apply Nat.eq_of_testBit_eq
    intro k
    rw [hbits]
    by_cases hk : k < f.width.resultBits
    case pos => simp [hk, h k hk]
    case neg =>
      -- the value has no bits past the type either
      have hzero : f.value.testBit k = false := Nat.testBit_lt_two_pow (Nat.lt_of_lt_of_le hbelow
        (Nat.pow_le_pow_right (by omega) (Nat.le_trans f.width.bits_le (Nat.le_of_not_lt hk))))
      simp [hk, hzero]

theorem bind_cons_eq_ok {α : Type} {r v : α} {x : Except Fault (List α)} {vs : List α} :
    (do let values ← x; .ok (r :: values)) = Except.ok (ε := Fault) (v :: vs) ↔
      r = v ∧ x = .ok vs := by
  cases x with
  | error e => simp [Bind.bind, Except.bind]
  | ok values => simp [ok_bind]

theorem readFields_iff (fs : List Field) (pre post : List Byte) :
    readFields (pre ++ fs.flatMap Field.image ++ post) pre.length
        (fs.map Field.toFieldLayout) = .ok (fs.map Field.value) ↔
      ∀ f ∈ fs, f.Plain := by
  induction fs generalizing pre with
  | nil => simp [readFields]
  | cons f fs ih =>
      obtain ⟨r, hr, hplain⟩ := f.read_image pre (fs.flatMap Field.image ++ post)
      have hrest := ih (pre ++ f.image)
      rw [List.length_append, f.image_length] at hrest
      rw [List.map_cons, List.map_cons, List.flatMap_cons, readFields,
        show pre ++ (f.image ++ fs.flatMap Field.image) ++ post
          = pre ++ f.image ++ (fs.flatMap Field.image ++ post) by simp, hr, ok_bind,
        bind_cons_eq_ok, hplain,
        show pre ++ f.image ++ (fs.flatMap Field.image ++ post)
          = pre ++ f.image ++ fs.flatMap Field.image ++ post by simp, hrest,
        List.forall_mem_cons]

/-- The fields, written one after another over the cells `old` of an array, take as many
cells as their widths say, leave the others, and are read back with their values. -/
structure ReadBack (fs : List Field) (pre old post : List Byte) : Prop where
  sizes : ∀ f ∈ fs, f.image.length = f.width.bits / 8
  writes : writeFields (pre ++ old ++ post) pre.length fs =
    .ok (pre ++ fs.flatMap Field.image ++ post)
  reads : readFields (pre ++ fs.flatMap Field.image ++ post) pre.length
    (fs.map Field.toFieldLayout) = .ok (fs.map Field.value)

/-- A list of fields is read back exactly when each of them is plain. -/
theorem fields_read_back_iff (fs : List Field) (pre old post : List Byte)
    (hold : old.length = totalBytes fs) :
    ReadBack fs pre old post ↔ ∀ f ∈ fs, f.Plain := by
  rw [← readFields_iff fs pre post]
  constructor
  · intro h
    exact h.reads
  · intro h
    refine ⟨fun f _ => ?_, writeFields_eq fs hold, h⟩
    rw [f.image_length, f.width.bits_eq, Nat.mul_div_cancel_left _ (by omega)]

/-- `0xFF85` and `0x00007F` are read back. -/
theorem fields_read_back_iff_two : ReadBack
    [⟨⟨.bits16, .forward⟩, 0xFF85, by decide⟩, ⟨⟨.bits24, .reverse⟩, 0x7F, by decide⟩]
    [1] [0, 0, 0, 0, 0] [2] :=
  (fields_read_back_iff _ [1] [0, 0, 0, 0, 0] [2] (by decide)).mpr (by decide)

/-- `0x0080` is read back as `0xFF80`. -/
theorem field_0080_not_read_back :
    ¬ ReadBack [⟨⟨.bits16, .forward⟩, 0x0080, by decide⟩] [] [0, 0] [] := by
  intro h
  have hread := h.reads
  rw [show readFields ([] ++ List.flatMap Field.image
      [⟨⟨.bits16, .forward⟩, 0x0080, by decide⟩] ++ []) ([] : List Byte).length
      (List.map Field.toFieldLayout [⟨⟨.bits16, .forward⟩, 0x0080, by decide⟩])
      = .ok [0xFF80] by decide] at hread
  simp at hread

end LpNet
