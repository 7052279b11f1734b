import LpNet.Memory
import LpNet.Net.Address

/-!
The class `Pipe` on Linux.

`create` makes a pipe, `write` and `read` go through `send` and `recv`, which are for
sockets, and each uses the end that is for the other. What the kernel does is a
parameter, `PipeKernel`, of which only this is known: `pipe2` makes an empty pipe, and
`send` and `recv` fail on a descriptor that is no socket. `write_eq` and `read_eq` say
what follows.
-/

namespace LpNet

/-- The calls of the kernel that a `Pipe` makes. `K` is the state of the kernel. -/
structure PipeKernel (K : Type) where
  isSocket : K → Sockfd → Bool
  /-- How many bytes can be read from a descriptor. -/
  unread : K → Sockfd → ℕ
  /-- `::pipe2`, when it succeeds: the read end and the write end. -/
  pipe2 : K → (Sockfd × Sockfd) × K
  /-- `::send(fd, buf, len, 0)`. -/
  send : K → Sockfd → List Byte → ℤ × K
  /-- `::recv(fd, buf, len, 0)`: the result, and what is stored at `buf`. -/
  recv : K → Sockfd → ℕ → ℤ × List Byte × K
  read_end : ∀ k, isSocket (pipe2 k).2 (pipe2 k).1.1 = false
  write_end : ∀ k, isSocket (pipe2 k).2 (pipe2 k).1.2 = false
  pipe2_empty : ∀ k, unread (pipe2 k).2 (pipe2 k).1.1 = 0
  send_fails : ∀ k fd buf, isSocket k fd = false → send k fd buf = (-1, k)
  recv_fails : ∀ k fd len, isSocket k fd = false → recv k fd len = (-1, [], k)

structure Pipe where
  fds0 : Sockfd
  fds1 : Sockfd
  deriving DecidableEq, Repr

namespace Pipe

variable {K : Type} (kernel : PipeKernel K)

/-- `create()`, when `pipe2` succeeds. -/
def create (k : K) : Pipe × K :=
  let (fds, k) := kernel.pipe2 k
  (⟨fds.1, fds.2⟩, k)

def write (p : Pipe) (k : K) (buf : List Byte) : ℤ × K := kernel.send k p.fds0 buf

def read (p : Pipe) (k : K) (len : ℕ) : ℤ × List Byte × K := kernel.recv k p.fds1 len

def readFd (p : Pipe) : Sockfd := p.fds0

def writeFd (p : Pipe) : Sockfd := p.fds1

structure Idle (p : Pipe) (k : K) : Prop where
  read_end : kernel.isSocket k p.fds0 = false
  write_end : kernel.isSocket k p.fds1 = false
  empty : kernel.unread k p.readFd = 0

variable {kernel} {p : Pipe} {k : K}

theorem create_idle (k : K) : (create kernel k).1.Idle kernel (create kernel k).2 where
  read_end := kernel.read_end k
  write_end := kernel.write_end k
  empty := kernel.pipe2_empty k

theorem Idle.write_eq (h : p.Idle kernel k) (buf : List Byte) :
    p.write kernel k buf = (-1, k) := kernel.send_fails k p.fds0 buf h.read_end

theorem Idle.read_eq (h : p.Idle kernel k) (len : ℕ) : p.read kernel k len = (-1, [], k) :=
  kernel.recv_fails k p.fds1 len h.write_end

end Pipe

/-- A process whose only open descriptors are the ends 3 and 4 of an empty pipe. -/
def PipeKernel.onePipe : PipeKernel Unit where
  isSocket _ _ := false
  unread _ _ := 0
  pipe2 _ := ((3, 4), ())
  send _ _ _ := (-1, ())
  recv _ _ _ := (-1, [], ())
  read_end _ := rfl
  write_end _ := rfl
  pipe2_empty _ := rfl
  send_fails _ _ _ _ := rfl
  recv_fails _ _ _ _ := rfl

end LpNet
