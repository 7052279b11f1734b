import LpNet.Lib.Transition
import LpNet.Net.Acceptor

/-!
The functions of `socket_api` that take a host as text.

`inet_pton` answers 1 for the text of an address, 0 for any other text and a negative number for a
family it does not know. `bind`, `connect` and `sendto` look only for the last, and go on with what
the `sockaddr_in` holds: zeros in `bind`, and whatever was on the stack in the others.
`malformed_iff` says that none of them refuses any text, and when `TcpServer::start` does not get to
listen on the wrong address all the same. The options that are set on a socket are left out.
-/

namespace LpNet

open Transition

namespace InAddr

/-- The octet that is printed so, without leading zeros. -/
def octetOf (chars : List Char) : Option UInt8 :=
  let n := Nat.ofDigitChars 10 chars 0
  if n < 256 ∧ Nat.toDigits 10 n = chars then some (UInt8.ofNat n) else none

def ofText (text : List Char) : Option InAddr :=
  match text.splitOn '.' with
  | [a, b, c, d] => do
      let a ← octetOf a
      let b ← octetOf b
      let c ← octetOf c
      let d ← octetOf d
      some ⟨a, b, c, d⟩
  | _ => none

/-- `inet_pton(AF_INET, text, &addr)`: the result, and what it stores. -/
def inetPton (text : List Char) : ℤ × Option InAddr :=
  match ofText text with
  | some addr => (1, some addr)
  | none => (0, none)

def Valid (text : List Char) : Prop := ∃ addr : InAddr, addr.text = text

/-! ### Texts of addresses -/

theorem octetOf_eq_some {chars : List Char} {octet : UInt8} :
    octetOf chars = some octet ↔ Nat.toDigits 10 octet.toNat = chars := by
  rw [octetOf]
  constructor
  · intro h
    split at h
    case isTrue hdigits =>
      cases h
      obtain ⟨hlt, hback⟩ := hdigits
      have hoctet : (UInt8.ofNat (Nat.ofDigitChars 10 chars 0)).toNat =
          Nat.ofDigitChars 10 chars 0 := UInt8.toNat_ofNat_of_lt' hlt
      rw [hoctet]
      exact hback
    case isFalse => cases h
  · rintro rfl
    rw [Nat.ofDigitChars_ten_toDigits, if_pos ⟨octet.toNat_lt, rfl⟩, UInt8.ofNat_toNat]

theorem splitOn_text (addr : InAddr) :
    addr.text.splitOn '.' = addr.octets.map fun octet => Nat.toDigits 10 octet.toNat := by
  refine List.splitOn_intercalate '.' (fun piece hpiece hdot => ?_) (by simp [octets])
  obtain ⟨octet, -, rfl⟩ := List.mem_map.mp hpiece
  have hdigit := Nat.isDigit_of_mem_toDigits (by decide) (by decide) hdot
  exact absurd hdigit (by decide)

theorem ofText_text (addr : InAddr) : ofText addr.text = some addr := by
  have hoctet : ∀ octet : UInt8, octetOf (Nat.toDigits 10 octet.toNat) = some octet :=
    fun octet => octetOf_eq_some.mpr rfl
  rw [ofText, splitOn_text]
  simp only [octets, List.map_cons, List.map_nil, hoctet, Option.bind_eq_bind, Option.bind_some]

theorem text_of_ofText {text : List Char} {addr : InAddr} (h : ofText text = some addr) :
    addr.text = text := by
  rw [ofText] at h
  split at h
  case h_1 a b c d hsplit =>
    simp only [Option.bind_eq_bind, Option.bind_eq_some_iff, octetOf_eq_some] at h
    obtain ⟨oa, ha, ob, hb, oc, hc, od, hd, haddr⟩ := h
    cases haddr
    rw [InAddr.text, octets]
    simp only [List.map_cons, List.map_nil, ha, hb, hc, hd]
    rw [← hsplit, List.intercalate_splitOn]
  case h_2 => cases h

theorem ofText_eq_none_iff {text : List Char} : ofText text = none ↔ ¬ Valid text := by
  constructor
  · rintro hnone ⟨addr, rfl⟩
    rw [ofText_text] at hnone
    cases hnone
  · intro hinvalid
    refine Option.eq_none_iff_forall_ne_some.mpr fun addr haddr => ?_
    exact hinvalid ⟨addr, text_of_ofText haddr⟩

end InAddr

/-- A call of the kernel that names an address, with the port in host order. -/
inductive AddressCall
  | bind (fd : Sockfd) (addr : InAddr) (port : UInt16)
  | connect (fd : Sockfd) (addr : InAddr) (port : UInt16)
  | sendto (fd : Sockfd) (buf : List UInt8) (flags : ℤ) (addr : InAddr) (port : UInt16)
  deriving DecidableEq, Repr

namespace SocketHost

/-- `socket_api::bind(fd, ip, port)`, where `answer` is the result of `::bind`. -/
def bind (fd : Sockfd) (ip : List Char) (port : UInt16) (answer : ℤ) : ℤ × List AddressCall :=
  let (r, stored) := InAddr.inetPton ip
  if r < 0 then (r, [])
  -- the structure was zeroed
  else (answer, [.bind fd (stored.getD ⟨0, 0, 0, 0⟩) port])

/-- `socket_api::connect(fd, ip, port)`, where `junk` is what `addr.sin_addr` happens to hold. -/
def connect (fd : Sockfd) (ip : List Char) (port : UInt16) (junk : InAddr) (answer : ℤ) :
    ℤ × List AddressCall :=
  let (r, stored) := InAddr.inetPton ip
  if r < 0 then (-1, [])
  else (answer, [.connect fd (stored.getD junk) port])

/-- `socket_api::sendto(fd, buf, len, flags, ip, port)`. The port is not stored, so that the kernel
gets the one in `junk`. -/
def sendto (fd : Sockfd) (buf : List UInt8) (flags : ℤ) (ip : List Char) (_port : UInt16)
    (junk : InAddr × UInt16) (answer : ℤ) : ℤ × List AddressCall :=
  let (r, stored) := InAddr.inetPton ip
  if r < 0 then (r, [])
  else (answer, [.sendto fd buf flags (stored.getD junk.1) junk.2])

end SocketHost

/-- The kernel's answers to the `::bind` and the `::listen` of an acceptor's socket. -/
structure ListenOutcome where
  fd : Sockfd
  bindAnswer : ℤ
  listenAnswer : ℤ
  deriving DecidableEq, Repr

namespace Acceptor

/-- `listen(addr, backlog)`: the address that the new socket listens on, or the text of the
exception. -/
def listen (ip : List Char) (port : UInt16) (outcome : ListenOutcome) :
    Except String (List AddressCall) :=
  let (r, calls) := SocketHost.bind outcome.fd ip port outcome.bindAnswer
  if r < 0 then .error "bind"
  else if outcome.listenAnswer < 0 then .error "listen"
  else .ok calls

end Acceptor

namespace TcpServer

/-- `start(ip, port, max_backlog)`, by what `running_` is before: the result, with the call that
bound the socket which now listens. -/
def startOn (running : Bool) (ip : List Char) (port : UInt16) (outcome : ListenOutcome) :
    Except String (Bool × List AddressCall) :=
  if running then .ok (false, [])
  else do
    let calls ← Acceptor.listen ip port outcome
    .ok (true, calls)

end TcpServer

/-! ### Texts that are no addresses -/

namespace SocketHost

variable {fd : Sockfd} {ip : List Char} {port : UInt16} {junk : InAddr} {answer : ℤ}

/-- A text that is no address is refused: the result is negative, and the kernel is not called. -/
def Refuses (ip : List Char) (result : ℤ × List AddressCall) : Prop :=
  ¬ InAddr.Valid ip → result.1 < 0 ∧ result.2 = []

/-- A started server listens where its host says. -/
def ListensThere (running : Bool) (ip : List Char) (port : UInt16) (outcome : ListenOutcome) :
    Prop :=
  ∀ calls fd addr port', TcpServer.startOn running ip port outcome = .ok (true, calls) →
    .bind fd addr port' ∈ calls → addr.text = ip

/-- `inet_pton` does not answer a negative number for this family. -/
theorem inetPton_eq (ip : List Char) :
    0 ≤ (InAddr.inetPton ip).1 ∧ (InAddr.inetPton ip).2 = InAddr.ofText ip := by
  rw [InAddr.inetPton]
  cases InAddr.ofText ip with
  | none => exact ⟨le_refl _, rfl⟩
  | some addr => exact ⟨Int.one_nonneg, rfl⟩

theorem bind_eq (fd : Sockfd) (ip : List Char) (port : UInt16) (answer : ℤ) :
    bind fd ip port answer =
      (answer, [.bind fd ((InAddr.ofText ip).getD ⟨0, 0, 0, 0⟩) port]) := by
  obtain ⟨hr, hstored⟩ := inetPton_eq ip
  rw [bind, ← hstored]
  exact if_neg (not_lt.mpr hr)

theorem connect_eq (fd : Sockfd) (ip : List Char) (port : UInt16) (junk : InAddr) (answer : ℤ) :
    connect fd ip port junk answer =
      (answer, [.connect fd ((InAddr.ofText ip).getD junk) port]) := by
  obtain ⟨hr, hstored⟩ := inetPton_eq ip
  rw [connect, ← hstored]
  exact if_neg (not_lt.mpr hr)

theorem sendto_eq (fd : Sockfd) (buf : List UInt8) (flags : ℤ) (ip : List Char) (port : UInt16)
    (junk : InAddr × UInt16) (answer : ℤ) :
    sendto fd buf flags ip port junk answer =
      (answer, [.sendto fd buf flags ((InAddr.ofText ip).getD junk.1) junk.2]) := by
  obtain ⟨hr, hstored⟩ := inetPton_eq ip
  rw [sendto, ← hstored]
  exact if_neg (not_lt.mpr hr)

theorem refuses_iff {result : ℤ × List AddressCall} (hcalls : result.2 ≠ []) :
    Refuses ip result ↔ InAddr.Valid ip := by
  constructor
  · intro hrefuses
    by_contra hip
    exact hcalls (hrefuses hip).2
  · intro hvalid hip
    exact absurd hvalid hip

theorem startOn_eq_ok_iff {running : Bool} {outcome : ListenOutcome} {calls : List AddressCall} :
    TcpServer.startOn running ip port outcome = .ok (true, calls) ↔
      running = false ∧ 0 ≤ outcome.bindAnswer ∧ 0 ≤ outcome.listenAnswer ∧
        calls = [.bind outcome.fd ((InAddr.ofText ip).getD ⟨0, 0, 0, 0⟩) port] := by
  rw [TcpServer.startOn, Acceptor.listen, bind_eq]
  dsimp only
  cases running with
  | true => simp
  | false =>
      by_cases hbind : outcome.bindAnswer < 0
      case pos =>
        rw [if_pos hbind]
        simp [not_le.mpr hbind]
      case neg =>
        rw [if_neg hbind]
        by_cases hlisten : outcome.listenAnswer < 0
        case pos =>
          rw [if_pos hlisten]
          simp [not_le.mpr hlisten]
        case neg =>
          rw [if_neg hlisten]
          simp [not_lt.mp hbind, not_lt.mp hlisten, eq_comm]

theorem listensThere_iff (running : Bool) (ip : List Char) (port : UInt16)
    (outcome : ListenOutcome) : ListensThere running ip port outcome ↔
      InAddr.Valid ip ∨ running = true ∨ outcome.bindAnswer < 0 ∨ outcome.listenAnswer < 0 := by
  constructor
  · intro hthere
    by_contra hnot
    obtain ⟨hip, hrest⟩ := not_or.mp hnot
    obtain ⟨hrunning, hrest⟩ := not_or.mp hrest
    obtain ⟨hbind, hlisten⟩ := not_or.mp hrest
    have hstart : TcpServer.startOn running ip port outcome = .ok (true,
        [.bind outcome.fd ((InAddr.ofText ip).getD ⟨0, 0, 0, 0⟩) port]) :=
      startOn_eq_ok_iff.mpr ⟨Bool.eq_false_iff.mpr hrunning, not_lt.mp hbind, not_lt.mp hlisten, rfl⟩
    exact hip ⟨_, hthere _ outcome.fd _ port hstart (List.mem_singleton_self _)⟩
  · intro hcond calls fd addr port' hstart hcall
    obtain ⟨hrunning, hbind, hlisten, rfl⟩ := startOn_eq_ok_iff.mp hstart
    rcases hcond with ⟨addr', rfl⟩ | hrunning' | hbind' | hlisten'
    · rw [InAddr.ofText_text, Option.getD_some, List.mem_singleton] at hcall
      cases hcall
      rfl
    · rw [hrunning] at hrunning'
      cases hrunning'
    · exact absurd hbind' (not_lt.mpr hbind)
    · exact absurd hlisten' (not_lt.mpr hlisten)

/-- No text is refused, and a server that is given one which is no address listens on all addresses
unless it is running or the kernel refuses. -/
theorem malformed_iff (fd : Sockfd) (ip : List Char) (port : UInt16) (buf : List UInt8) (flags : ℤ)
    (junk : InAddr × UInt16) (answer : ℤ) (running : Bool) (outcome : ListenOutcome) :
    (Refuses ip (bind fd ip port answer) ↔ InAddr.Valid ip) ∧
      (Refuses ip (connect fd ip port junk.1 answer) ↔ InAddr.Valid ip) ∧
      (Refuses ip (sendto fd buf flags ip port junk answer) ↔ InAddr.Valid ip) ∧
      (ListensThere running ip port outcome ↔ InAddr.Valid ip ∨ running = true ∨
        outcome.bindAnswer < 0 ∨ outcome.listenAnswer < 0) := by
  rw [bind_eq, connect_eq, sendto_eq]
  exact ⟨refuses_iff (List.cons_ne_nil _ _), refuses_iff (List.cons_ne_nil _ _),
    refuses_iff (List.cons_ne_nil _ _), listensThere_iff running ip port outcome⟩

/-- A host is given by its name. -/
theorem localhost_not_refused :
    ¬ Refuses "localhost".toList (bind 3 "localhost".toList 80 0) ∧
      ¬ Refuses "localhost".toList (connect 3 "localhost".toList 80 ⟨1, 2, 3, 4⟩ 0) ∧
      ¬ Refuses "localhost".toList (sendto 3 [] 0 "localhost".toList 80 (⟨1, 2, 3, 4⟩, 5) 0) ∧
      ¬ ListensThere false "localhost".toList 80 ⟨3, 0, 0⟩ := by
  have hip : ¬ InAddr.Valid "localhost".toList := by
    rw [← InAddr.ofText_eq_none_iff]
    decide
  refine ⟨fun h => ?_, fun h => ?_, fun h => ?_, fun h => ?_⟩
  · exact absurd (h hip).1 (by decide)
  · exact absurd (h hip).1 (by decide)
  · exact absurd (h hip).1 (by decide)
  · rcases (listensThere_iff ..).mp h with h | h | h | h
    · exact hip h
    · exact absurd h (by decide)
    · exact absurd h (by decide)
    · exact absurd h (by decide)

end SocketHost

end LpNet
