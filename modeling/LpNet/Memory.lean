import LpNet.Lib.Transition
import Mathlib.Algebra.Order.Ring.Int
import Mathlib.Tactic.Common

/-!
The machine under the C++ code: `char` arrays with checked accesses, the wrapping
arithmetic of `size_t`, the conversions between integer types, and the answers
of the kernel to `recv` and `send`.

An access past the end of an array is undefined behaviour in C++; here it is a
fault, so that a result that is not a fault says that every index touched lies
inside the array. Accesses to an array the class allocated and to one the caller
passed fault differently.
-/

namespace LpNet

abbrev Byte := UInt8

inductive Fault
  /-- An index at or past the end of an array the object allocated. -/
  | outOfBounds
  /-- An index at or past the end of an array the caller passed. -/
  | badArgument
  /-- `new` throws `std::bad_alloc`. -/
  | badAlloc
  /-- A call of an empty `std::function` throws `std::bad_function_call`. -/
  | badFunctionCall
  /-- A loop is still running after as many rounds as it was given. -/
  | diverges
  /-- A member function of an object that does not exist is called. -/
  | useAfterFree
  /-- An exception leaves a destructor, which calls `std::terminate`. -/
  | terminated
  /-- The comparison of a sorted container does not order its keys. -/
  | unordered
  deriving DecidableEq, Repr

/-! ### Arithmetic of `size_t` -/

namespace SizeT

def add (a b : ℕ) : ℕ := (a + b) % 2 ^ 64

def sub (a b : ℕ) : ℕ := (2 ^ 64 + a - b) % 2 ^ 64

def mul (a b : ℕ) : ℕ := a * b % 2 ^ 64

theorem add_eq {a b : ℕ} (h : a + b < 2 ^ 64) : add a b = a + b := Nat.mod_eq_of_lt h

theorem sub_eq {a b : ℕ} (hle : b ≤ a) (ha : a < 2 ^ 64) : sub a b = a - b := by
  rw [sub, show 2 ^ 64 + a - b = (a - b) + 2 ^ 64 by omega, Nat.add_mod_right,
    Nat.mod_eq_of_lt (by omega)]

theorem mul_eq {a b : ℕ} (h : a * b < 2 ^ 64) : mul a b = a * b := Nat.mod_eq_of_lt h

end SizeT

def toInt (n : ℤ) : ℤ := n.bmod (2 ^ 32)

def ofInt (n : ℤ) : ℕ := (n % 2 ^ 64).toNat

def toUInt32 (n : ℕ) : ℕ := n % 2 ^ 32

theorem toInt_of_lt {n : ℕ} (h : n < 2 ^ 31) : toInt n = n :=
  Int.bmod_eq_of_le (by omega) (by omega)

theorem toInt_pos_iff {n : ℕ} (h : n < 2 ^ 32) : 0 < toInt n ↔ 0 < n ∧ n < 2 ^ 31 := by
  rw [toInt, Int.bmod]
  have hmod : (n : ℤ) % (2 ^ 32 : ℕ) = n := Int.emod_eq_of_lt (by omega) (by exact_mod_cast h)
  simp only [hmod]
  split <;> omega

theorem toInt_neg_iff {n : ℕ} (h : n < 2 ^ 32) : toInt n < 0 ↔ 2 ^ 31 ≤ n := by
  rw [toInt, Int.bmod]
  have hmod : (n : ℤ) % (2 ^ 32 : ℕ) = n := Int.emod_eq_of_lt (by omega) (by exact_mod_cast h)
  simp only [hmod]
  split <;> omega

@[simp] theorem ofInt_natCast {n : ℕ} (h : n < 2 ^ 64) : ofInt n = n := by
  rw [ofInt, Int.emod_eq_of_lt (by omega) (by exact_mod_cast h)]
  exact Int.toNat_natCast n

/-- A `size_t` that goes through an `int` keeps its low 32 bits, with their sign. -/
theorem ofInt_toInt (n : ℕ) : ofInt (toInt n) =
    if n % 2 ^ 32 < 2 ^ 31 then n % 2 ^ 32 else 2 ^ 64 - 2 ^ 32 + n % 2 ^ 32 := by
  rw [toInt, Int.bmod, ofInt]
  have hmod : (n : ℤ) % (2 ^ 32 : ℕ) = (n % 2 ^ 32 : ℕ) := by norm_cast
  rw [hmod]
  have hlt := Nat.mod_lt n (show 0 < 2 ^ 32 by decide)
  split
  case isTrue hlow =>
    rw [if_pos (by omega)]
    omega
  case isFalse hhigh =>
    rw [if_neg (by omega)]
    omega

theorem toUInt32_of_lt {n : ℕ} (h : n < 2 ^ 32) : toUInt32 n = n := Nat.mod_eq_of_lt h

/-! ### Arrays -/

/-- `new char[n]`: the fresh array holds whatever `junk` says, since C++ leaves it
uninitialized. -/
def newChars (junk : ℕ → Byte) (n : ℕ) : List Byte := (List.range n).map junk

@[simp] theorem newChars_length (junk : ℕ → Byte) (n : ℕ) : (newChars junk n).length = n := by
  simp [newChars]

/-- Sizes from `2 ^ 63` on are refused by every `new char[n]`. -/
def allocatable (n : ℕ) : Bool := n < 2 ^ 63

def load (mem : List Byte) (i : ℕ) : Except Fault Byte :=
  if i < mem.length then .ok (mem.getD i 0) else .error .outOfBounds

def store (mem : List Byte) (i : ℕ) (c : Byte) : Except Fault (List Byte) :=
  if i < mem.length then .ok (mem.set i c) else .error .outOfBounds

def loadArg (s : List Byte) (i : ℕ) : Except Fault Byte :=
  if i < s.length then .ok (s.getD i 0) else .error .badArgument

def storeArg (s : List Byte) (i : ℕ) (c : Byte) : Except Fault (List Byte) :=
  if i < s.length then .ok (s.set i c) else .error .badArgument

theorem load_ok {mem : List Byte} {i : ℕ} (h : i < mem.length) :
    load mem i = .ok (mem.getD i 0) := by simp [load, h]

theorem load_error {mem : List Byte} {i : ℕ} (h : mem.length ≤ i) :
    load mem i = .error .outOfBounds := by simp [load, h]

theorem store_ok {mem : List Byte} {i : ℕ} (c : Byte) (h : i < mem.length) :
    store mem i c = .ok (mem.set i c) := by simp [store, h]

theorem store_error {mem : List Byte} {i : ℕ} (c : Byte) (h : mem.length ≤ i) :
    store mem i c = .error .outOfBounds := by simp [store, h]

theorem loadArg_ok {s : List Byte} {i : ℕ} (h : i < s.length) :
    loadArg s i = .ok (s.getD i 0) := by simp [loadArg, h]

theorem storeArg_ok {s : List Byte} {i : ℕ} (c : Byte) (h : i < s.length) :
    storeArg s i c = .ok (s.set i c) := by simp [storeArg, h]

/-! ### `recv` and `send`

Both get a linear region of an array, given by its first index and its length.
The length parameter of the wrappers is a `uint32_t` and their result an `int`. -/

/-- The kernel's answer to a `recv`: the bytes waiting, or `none` for -1. -/
abbrev RecvOutcome := Option (List Byte)

/-- The kernel's answer to a `send`: the number of bytes it can take, or `none` for -1. -/
abbrev SendOutcome := Option ℕ

namespace SocketApi

/-- `socket_api::recv`: the kernel stores at most `len` of the waiting bytes at the
start of the region. -/
def recv (mem : List Byte) (start len : ℕ) (outcome : RecvOutcome) :
    Except Fault (ℤ × List Byte) :=
  if start + toUInt32 len ≤ mem.length then
    match outcome with
    | none => .ok (-1, mem)
    | some waiting =>
        let got := waiting.take (toUInt32 len)
        .ok (toInt got.length, mem.take start ++ got ++ mem.drop (start + got.length))
  else .error .outOfBounds

/-- `socket_api::send`: the kernel accepts a first part of the region, answered
next to the return value. -/
def send (mem : List Byte) (start len : ℕ) (outcome : SendOutcome) :
    Except Fault (ℤ × List Byte) :=
  if start + toUInt32 len ≤ mem.length then
    match outcome with
    | none => .ok (-1, [])
    | some room =>
        let accepted := ((mem.drop start).take (toUInt32 len)).take room
        .ok (toInt accepted.length, accepted)
  else .error .outOfBounds

theorem recv_some {mem : List Byte} {start len : ℕ} (waiting : List Byte)
    (hin : start + len ≤ mem.length) (hlen : len < 2 ^ 32) :
    recv mem start len (some waiting) = .ok (toInt (waiting.take len).length,
      mem.take start ++ waiting.take len ++ mem.drop (start + (waiting.take len).length)) := by
  rw [recv, toUInt32_of_lt hlen, if_pos hin]

theorem send_none {mem : List Byte} {start len : ℕ} (hin : start + len ≤ mem.length)
    (hlen : len < 2 ^ 32) : send mem start len none = .ok (-1, []) := by
  rw [send, toUInt32_of_lt hlen, if_pos hin]

theorem send_some {mem : List Byte} {start len room : ℕ} (hin : start + len ≤ mem.length)
    (hlen : len < 2 ^ 32) :
    send mem start len (some room) = .ok (toInt (((mem.drop start).take len).take room).length,
      ((mem.drop start).take len).take room) := by
  rw [send, toUInt32_of_lt hlen, if_pos hin]

end SocketApi

end LpNet
