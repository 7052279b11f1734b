import LpNet.Lib.Copy
import LpNet.Lib.Transition
import LpNet.Memory
import LpNet.Net.Address
import Mathlib.Data.Finset.Basic

/-!
`MulticastAddress`, which hands out the texts of random addresses.

`inet_ntop` is given the address of the whole `sockaddr_in`, where it finds the family and the
port, and it writes behind the back of the `std::string`, whose length stays 0. So the address
that is drawn (`drawn_inRange`) goes nowhere, and every call answers the empty string:
`getAddr_empty`.
-/

namespace LpNet

open Copy Transition

/-- A `std::string`: its storage, and how many characters of it count. -/
structure StdString where
  storage : List Char
  length : ℕ
  deriving DecidableEq, Repr

namespace StdString

def new : StdString := ⟨[Char.ofNat 0], 0⟩

/-- What a comparison sees. -/
def value (s : StdString) : List Char := s.storage.take s.length

def reserve (s : StdString) (n : ℕ) : StdString :=
  { s with storage := s.storage ++ List.replicate (n + 1 - s.storage.length) (Char.ofNat 0) }

def clear (s : StdString) : StdString := ⟨overwrite s.storage 0 [Char.ofNat 0], 0⟩

/-- Write a text and its terminator to where `data()` points. -/
def writeData (s : StdString) (text : List Char) : StdString :=
  { s with storage := overwrite s.storage 0 (text ++ [Char.ofNat 0]) }

end StdString

/-- A `struct sockaddr_in` as it lies in memory, without its padding. -/
structure SockaddrIn where
  sinFamily : UInt8 × UInt8
  sinPort : UInt8 × UInt8
  sinAddr : InAddr
  deriving DecidableEq, Repr

namespace SockaddrIn

def zero : SockaddrIn := ⟨(0, 0), (0, 0), ⟨0, 0, 0, 0⟩⟩

/-- The octets at the address of the structure, where `inet_ntop` looks for an `in_addr`. -/
def head (addr : SockaddrIn) : InAddr :=
  ⟨addr.sinFamily.1, addr.sinFamily.2, addr.sinPort.1, addr.sinPort.2⟩

/-- `inet_ntop` from the structure to the characters of the string. -/
def ntopInto (addr : SockaddrIn) (s : StdString) : StdString :=
  match addr.head.inetNtop inetAddrstrlen with
  | some text => s.writeData text
  | none => s

theorem ntopInto_length (addr : SockaddrIn) (s : StdString) :
    (addr.ntopInto s).length = s.length := by
  rw [ntopInto]
  split <;> rfl

end SockaddrIn

namespace InAddr

/-- The address with these bits, the first octet in the highest: `htonl`. -/
def htonl (n : UInt32) : InAddr :=
  ⟨(n >>> 24).toUInt8, (n >>> 16).toUInt8, (n >>> 8).toUInt8, n.toUInt8⟩

def toNat (addr : InAddr) : ℕ :=
  addr.a.toNat * 2 ^ 24 + addr.b.toNat * 2 ^ 16 + addr.c.toNat * 2 ^ 8 + addr.d.toNat

/-- The address is one of 232.0.1.0 to 232.255.255.255. -/
def InRange (addr : InAddr) : Prop :=
  toNat ⟨232, 0, 1, 0⟩ ≤ addr.toNat ∧ addr.toNat ≤ toNat ⟨232, 255, 255, 255⟩

theorem toNat_htonl (n : UInt32) : (htonl n).toNat = n.toNat := by
  have hlt := n.toNat_lt
  simp only [htonl, toNat, UInt32.toNat_toUInt8, UInt32.toNat_shiftRight, UInt32.reduceToNat,
    Nat.shiftRight_eq_div_pow, Nat.reduceMod, Nat.reducePow]
  omega

end InAddr

structure MulticastAddress where
  addrs : Finset (List Char)
  /-- The answers of `getAddr` that were not released. The source keeps no such list. -/
  outstanding : List (List Char)

/-- A call, with what the random device gives in each round. -/
inductive MulticastOp
  | getAddr (draws : ℕ → UInt32)
  | release (addr : List Char)

namespace MulticastAddress

def new : MulticastAddress := ⟨∅, []⟩

/-- The address of a round, from what the random device gives. -/
def drawn (draw : UInt32) : InAddr := .htonl (0xE8000100 + draw % (0xE8FFFFFF - 0xE8000100))

def getAddrFrom (addrs : Finset (List Char)) :
    List UInt32 → SockaddrIn → StdString → StdString × Finset (List Char)
  | [], _, addrStr => (addrStr, addrs)
  | draw :: draws, addr, addrStr =>
      let addr := { addr with sinAddr := drawn draw }
      let addrStr := addr.ntopInto (addrStr.reserve inetAddrstrlen)
      if addrStr.value ∈ addrs then getAddrFrom addrs draws addr addrStr.clear
      else (addrStr, insert addrStr.value addrs)

def getAddr (w : MulticastAddress) (draws : ℕ → UInt32) : List Char × MulticastAddress :=
  let (addrStr, addrs) := getAddrFrom w.addrs ((List.range 10).map draws) .zero .new
  (addrStr.value, ⟨addrs, addrStr.value :: w.outstanding⟩)

def release (w : MulticastAddress) (addr : List Char) : MulticastAddress :=
  ⟨w.addrs.erase addr, w.outstanding.erase addr⟩

def multicastStep (w : MulticastAddress) :
    MulticastOp → Except Fault (Option (List Char) × MulticastAddress)
  | .getAddr draws => .ok (some (w.getAddr draws).1, (w.getAddr draws).2)
  | .release addr => .ok (none, w.release addr)

/-- No two texts that are out are the same, and each that is not empty is recorded and is the text
of an address in the range. -/
structure Distinct (w : MulticastAddress) : Prop where
  nodup : w.outstanding.Nodup
  recorded : ∀ text ∈ w.outstanding, text ≠ [] →
    text ∈ w.addrs ∧ ∃ addr : InAddr, addr.InRange ∧ addr.text = text

/-- An address is asked for only when none is out. -/
def OneAtATime (w : MulticastAddress) : MulticastOp → Prop
  | .getAddr _ => w.outstanding = []
  | .release _ => True

/-! ### What `getAddr` answers -/

variable {w w' : MulticastAddress} {op : MulticastOp} {answer : Option (List Char)}

theorem drawn_inRange (draw : UInt32) : (drawn draw).InRange := by
  rw [InAddr.InRange, drawn, InAddr.toNat_htonl]
  have hmod : draw.toNat % 16776959 < 16776959 := Nat.mod_lt _ (by decide)
  simp only [InAddr.toNat, UInt32.toNat_add, UInt32.toNat_mod, UInt32.toNat_sub]
  simp
  omega

theorem getAddrFrom_length (addrs : Finset (List Char)) (draws : List UInt32) (addr : SockaddrIn)
    {addrStr : StdString} (hlength : addrStr.length = 0) :
    (getAddrFrom addrs draws addr addrStr).1.length = 0 := by
  induction draws generalizing addr addrStr with
  | nil => exact hlength
  | cons draw draws ih =>
      rw [getAddrFrom]
      split
      case isTrue => exact ih _ rfl
      case isFalse => exact (SockaddrIn.ntopInto_length ..).trans hlength

theorem getAddr_empty (w : MulticastAddress) (draws : ℕ → UInt32) : (w.getAddr draws).1 = [] := by
  have hlength := getAddrFrom_length w.addrs ((List.range 10).map draws) .zero
    (rfl : StdString.new.length = 0)
  rw [getAddr]
  dsimp only
  rw [StdString.value, hlength, List.take_zero]

theorem getAddr_outstanding (w : MulticastAddress) (draws : ℕ → UInt32) :
    (w.getAddr draws).2.outstanding = [] :: w.outstanding := by
  have hempty := getAddr_empty w draws
  rw [getAddr] at hempty ⊢
  exact congrArg (· :: w.outstanding) hempty

/-! ### Runs -/

theorem distinct_of_le (hle : w.outstanding = [] ∨ w.outstanding = [[]]) : w.Distinct where
  nodup := by rcases hle with h | h <;> simp [h]
  recorded text htext hne := by
    rcases hle with h | h
    · rw [h] at htext
      cases htext
    · rw [h, List.mem_singleton] at htext
      exact absurd htext hne

theorem step_outstanding (hle : w.outstanding = [] ∨ w.outstanding = [[]])
    (hop : w.OneAtATime op) (hstep : w.multicastStep op = .ok (answer, w')) :
    w'.outstanding = [] ∨ w'.outstanding = [[]] := by
  cases op with
  | getAddr draws =>
      cases hstep
      have hnil : w.outstanding = [] := hop
      rw [getAddr_outstanding, hnil]
      exact .inr rfl
  | release addr =>
      cases hstep
      rw [release]
      dsimp only
      rcases hle with h | h
      · rw [h]
        exact .inl rfl
      · rw [h, List.erase_cons]
        split
        case isTrue => exact .inl rfl
        case isFalse => exact .inr rfl

/-- The texts that are out differ from each other in all states of a run exactly when it asks for
each when no other is out. -/
theorem distinct_iff (ops : List MulticastOp) :
    AlongStates multicastStep Distinct new ops ↔ Along multicastStep OneAtATime new ops := by
  refine alongStates_iff_along (I := fun w => w.outstanding = [] ∨ w.outstanding = [[]])
    (V := fun _ _ => True) (fun w op answer w' hle _ hop hstep => step_outstanding hle hop hstep)
    (fun w op hle _ hop => ?_) (fun w hle => distinct_of_le hle) (.inl rfl)
    (along_of_forall_mem fun _ _ => trivial)
  cases op with
  | release addr => exact absurd trivial hop
  | getAddr draws =>
      refine ⟨some (w.getAddr draws).1, (w.getAddr draws).2, rfl, fun hdistinct => ?_⟩
      have hnodup := hdistinct.nodup
      rw [getAddr_outstanding, hle.resolve_left hop] at hnodup
      exact absurd hnodup (by decide)

/-- Two addresses are asked for. -/
theorem not_distinct_two :
    ¬ AlongStates multicastStep Distinct new [.getAddr fun _ => 0, .getAddr fun _ => 1] := by
  intro hstates
  have hdistinct := ((hstates.2 _ _ rfl).2 _ _ rfl).head.nodup
  rw [getAddr_outstanding, getAddr_outstanding] at hdistinct
  exact absurd hdistinct (by decide)

end MulticastAddress

end LpNet
