import Mathlib.Algebra.Order.Group.Nat
import Mathlib.Data.List.Basic
import Mathlib.Tactic.Common

/-!
IPv4 addresses and their text.

`inet_ntop` prints the four octets in decimal with dots between them, and
refuses a destination that has no room for the text and its terminator. How
long the text is decides which peers an undersized destination can name:
`inetNtop_isSome_iff` for any size, and for the size that the accept path
passes, `inetNtop_pointer_isSome_iff`.
-/

namespace LpNet

/-- A file descriptor; `sockfd_t` is `int`. -/
abbrev Sockfd := ℤ

def kInvalidSocket : Sockfd := -1

/-- The four octets of a `struct in_addr`, in network order. -/
structure InAddr where
  a : UInt8
  b : UInt8
  c : UInt8
  d : UInt8
  deriving DecidableEq, Repr

/-- `struct NetAddress`: the characters of `ip`, and `port`. -/
structure NetAddress where
  ip : List Char
  port : UInt16
  deriving DecidableEq, Repr

def inetAddrstrlen : ℕ := 16

def ntohs (port : UInt16) : UInt16 := port <<< 8 ||| port >>> 8

namespace InAddr

def octets (addr : InAddr) : List UInt8 := [addr.a, addr.b, addr.c, addr.d]

def text (addr : InAddr) : List Char :=
  ['.'].intercalate (addr.octets.map fun octet => Nat.toDigits 10 octet.toNat)

/-- `inet_ntop(AF_INET, &addr, dst, size)`: the text it stores, or `none` for `nullptr`. -/
def inetNtop (addr : InAddr) (size : ℕ) : Option (List Char) :=
  if size < addr.text.length + 1 then none else some addr.text

/-! ### The length of the text -/

def digits (octet : UInt8) : ℕ := (Nat.toDigits 10 octet.toNat).length

theorem digits_pos (octet : UInt8) : 0 < digits octet := Nat.length_toDigits_pos

theorem digits_le_three (octet : UInt8) : digits octet ≤ 3 := by
  have hlt : octet.toNat < 10 ^ 3 := lt_trans octet.toNat_lt (by decide)
  exact (Nat.length_toDigits_le_iff (by decide) (by decide)).mpr hlt

theorem digits_le_one_iff (octet : UInt8) : digits octet ≤ 1 ↔ octet < 10 := by
  rw [digits, Nat.length_toDigits_le_iff (by decide) (by decide), UInt8.lt_iff_toNat_lt]
  rfl

theorem text_length (addr : InAddr) :
    addr.text.length = digits addr.a + digits addr.b + digits addr.c + digits addr.d + 3 := by
  simp only [text, octets, List.map_cons, List.map_nil, List.intercalate, List.intersperse,
    List.flatten_cons, List.flatten_nil, List.length_append, List.length_cons, List.length_nil,
    digits]
  omega

theorem inetNtop_isSome_iff (addr : InAddr) (size : ℕ) :
    (addr.inetNtop size).isSome ↔ addr.text.length < size := by
  rw [inetNtop]
  split
  case isTrue hsmall =>
    simp only [Option.isSome_none, Bool.false_eq_true, false_iff]
    omega
  case isFalse hroom =>
    simp only [Option.isSome_some, true_iff]
    omega

/-- A destination of `INET_ADDRSTRLEN` characters has room for every address. -/
theorem inetNtop_addrstrlen (addr : InAddr) : (addr.inetNtop inetAddrstrlen).isSome := by
  have ha := digits_le_three addr.a
  have hb := digits_le_three addr.b
  have hc := digits_le_three addr.c
  have hd := digits_le_three addr.d
  rw [inetNtop_isSome_iff, text_length, inetAddrstrlen]
  omega

/-- A destination of the size of a pointer has room for four octets of one digit, and for
no more. -/
theorem inetNtop_pointer_isSome_iff (addr : InAddr) :
    (addr.inetNtop 8).isSome ↔ ∀ octet ∈ addr.octets, octet < 10 := by
  have ha := digits_pos addr.a
  have hb := digits_pos addr.b
  have hc := digits_pos addr.c
  have hd := digits_pos addr.d
  rw [inetNtop_isSome_iff, text_length]
  simp only [octets, List.forall_mem_cons, ← digits_le_one_iff]
  constructor
  · intro hroom
    exact ⟨by omega, by omega, by omega, by omega, by simp⟩
  · rintro ⟨ha', hb', hc', hd', -⟩
    omega

end InAddr

end LpNet
