import LpNet.Net.Address

/-!
`Acceptor::onAccept` and the accept path under it.

`socket_api::accept` prints the peer's address into the characters of the
`std::string` that `Socket::accept` lends it, and tells `inet_ntop` that they
are `sizeof(ip)` many, which is the size of a pointer. When the address does not
fit, the answer is `kInvalidSocket` and the accepted descriptor is named
nowhere. `onAccept_accountsFor_iff` says for which peers that happens.
-/

namespace LpNet

/-- The kernel's answer to an `::accept`: the descriptor, or a negative number, with the
peer's address and its port in network order. -/
structure AcceptOutcome where
  clientfd : Sockfd
  peer : InAddr
  port : UInt16
  deriving DecidableEq, Repr

namespace SocketApi

def sizeofCharPtr : ℕ := 8

/-- `socket_api::accept(fd, ip, port)`. Answers the result and what the characters at `ip` and
the number at `port` are afterwards. -/
def accept (outcome : AcceptOutcome) (ip : List Char) (port : UInt16) :
    Sockfd × List Char × UInt16 :=
  if outcome.clientfd < 0 then (outcome.clientfd, ip, port)
  else
    let port := ntohs outcome.port
    match outcome.peer.inetNtop sizeofCharPtr with
    -- the descriptor is open and no longer named
    | none => (kInvalidSocket, ip, port)
    | some text =>
        (outcome.clientfd, text ++ Char.ofNat 0 :: ip.drop (text.length + 1), port)

end SocketApi

namespace Socket

/-- `Socket::accept()`. The `std::string` of a fresh `NetAddress` has length 0 and keeps it,
whatever is stored at its `data()`; `storage` and `port` are what the fresh object holds. -/
def accept (outcome : AcceptOutcome) (storage : List Char) (port : UInt16) :
    Sockfd × NetAddress :=
  let (r, chars, port) := SocketApi.accept outcome storage port
  (r, ⟨chars.take 0, port⟩)

end Socket

inductive AcceptEffect
  /-- `new_connection_cb_(fd)`. -/
  | newConnection (fd : Sockfd)
  /-- `socket_api::close(fd)`. -/
  | close (fd : Sockfd)
  deriving DecidableEq, Repr

/-- An acceptor, by whether a callback is stored in `new_connection_cb_`. -/
structure Acceptor where
  newConnectionCb : Bool
  deriving DecidableEq, Repr

namespace Acceptor

def onAccept (acceptor : Acceptor) (outcome : AcceptOutcome) (storage : List Char)
    (port : UInt16) : List AcceptEffect :=
  let (target, _) := Socket.accept outcome storage port
  if target ≠ kInvalidSocket then
    if acceptor.newConnectionCb then [.newConnection target] else [.close target]
  else []

/-- The descriptor is handed over exactly once or closed, and nothing else happens. -/
def AccountsFor (fd : Sockfd) (effects : List AcceptEffect) : Prop :=
  effects = [.newConnection fd] ∨ effects = [.close fd]

variable (acceptor : Acceptor) {outcome : AcceptOutcome} (storage : List Char) (port : UInt16)

theorem onAccept_of_some (hfd : 0 ≤ outcome.clientfd) {text : List Char}
    (htext : outcome.peer.inetNtop SocketApi.sizeofCharPtr = some text) :
    acceptor.onAccept outcome storage port =
      if acceptor.newConnectionCb then [.newConnection outcome.clientfd]
      else [.close outcome.clientfd] := by
  have hvalid : outcome.clientfd ≠ kInvalidSocket := by
    intro heq
    rw [heq] at hfd
    exact absurd hfd (by decide)
  rw [onAccept, Socket.accept, SocketApi.accept, if_neg (not_lt.mpr hfd), htext]
  simp only [ne_eq, hvalid, not_false_eq_true, if_true]

theorem onAccept_of_none (hfd : 0 ≤ outcome.clientfd)
    (htext : outcome.peer.inetNtop SocketApi.sizeofCharPtr = none) :
    acceptor.onAccept outcome storage port = [] := by
  rw [onAccept, Socket.accept, SocketApi.accept, if_neg (not_lt.mpr hfd), htext]
  rfl

/-- The acceptor accounts for the descriptor of a completed accept exactly when every octet of
the peer's address is one digit. -/
theorem onAccept_accountsFor_iff (hfd : 0 ≤ outcome.clientfd) :
    AccountsFor outcome.clientfd (acceptor.onAccept outcome storage port) ↔
      ∀ octet ∈ outcome.peer.octets, octet < 10 := by
  rw [← InAddr.inetNtop_pointer_isSome_iff]
  show _ ↔ (outcome.peer.inetNtop SocketApi.sizeofCharPtr).isSome
  cases htext : outcome.peer.inetNtop SocketApi.sizeofCharPtr with
  | none =>
      rw [onAccept_of_none acceptor storage port hfd htext]
      simp [AccountsFor]
  | some text =>
      rw [onAccept_of_some acceptor storage port hfd htext]
      simp only [Option.isSome_some, iff_true, AccountsFor]
      cases acceptor.newConnectionCb
      · exact .inr rfl
      · exact .inl rfl

theorem onAccept_accountsFor_one_digit :
    AccountsFor 7 ((⟨true⟩ : Acceptor).onAccept ⟨7, ⟨1, 2, 3, 4⟩, 80⟩ [] 0) ↔
      ∀ octet ∈ (⟨1, 2, 3, 4⟩ : InAddr).octets, octet < 10 :=
  have hfd : 0 ≤ (⟨7, ⟨1, 2, 3, 4⟩, 80⟩ : AcceptOutcome).clientfd := by decide
  onAccept_accountsFor_iff ⟨true⟩ [] 0 hfd

/-- A client on the local host is accepted and then dropped with its descriptor open. -/
theorem onAccept_drops_localhost :
    (⟨true⟩ : Acceptor).onAccept ⟨7, ⟨127, 0, 0, 1⟩, 80⟩ [] 0 = [] ∧
      ¬ AccountsFor 7 ((⟨true⟩ : Acceptor).onAccept ⟨7, ⟨127, 0, 0, 1⟩, 80⟩ [] 0) := by
  have hnone : (⟨true⟩ : Acceptor).onAccept ⟨7, ⟨127, 0, 0, 1⟩, 80⟩ [] 0 = [] := by
    decide +kernel
  refine ⟨hnone, ?_⟩
  rw [hnone]
  simp [AccountsFor]

end Acceptor

end LpNet
