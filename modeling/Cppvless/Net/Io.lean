import Cppvless.Coroutine.Uses
import Mathlib.Data.List.Basic
import Mathlib.Data.Vector.Basic

set_option autoImplicit false

/-! # The operations connections await

The io_uring awaitables of `coro/uring_awaitable.h`, the `TlsStream` members, and the blocking calls
of the connection code, with the type of what each answers. A descriptor is named by the role it
plays in its connection (`Fd`), since the kernel never hands out a number that is open. What one
kind of connection needs beyond these operations is its `Ext`. -/

namespace Cppvless

open Coroutine

abbrev Bytes := List UInt8

/-- The exceptions the code throws. `outOfBounds` is no exception of the source: it stands for an
    access outside a buffer, which the source would make without noticing. -/
inductive Exn
  | runtimeError (what : String)
  | outOfBounds
  deriving DecidableEq

namespace Bytes

/-- `data[i]` -/
def index (data : Bytes) (i : Nat) : Except Exn UInt8 :=
  match data[i]? with
  | some b => .ok b
  | none => .error .outOfBounds

theorem length_range {data : Bytes} {i n : Nat} (h : i + n ≤ data.length) :
    ((data.drop i).take n).length = n := by
  rw [List.length_take, List.length_drop]
  omega

/-- `[data.begin() + i, data.begin() + i + n)` -/
def range (data : Bytes) (i n : Nat) : Except Exn (List.Vector UInt8 n) :=
  if h : i + n ≤ data.length then .ok ⟨(data.drop i).take n, length_range h⟩
  else .error .outOfBounds

/-- `[data.begin() + i, data.end())` -/
def rangeFrom (data : Bytes) (i : Nat) : Except Exn Bytes :=
  if i ≤ data.length then .ok (data.drop i) else .error .outOfBounds

theorem index_eq {data : Bytes} {i : Nat} (h : i < data.length) :
    index data i = .ok (data.getD i 0) := by
  rw [index, List.getD_eq_getElem?_getD, List.getElem?_eq_getElem h]
  rfl

theorem range_eq {data : Bytes} {i n : Nat} (h : i + n ≤ data.length) :
    range data i n = .ok ⟨(data.drop i).take n, length_range h⟩ :=
  dif_pos h

end Bytes

/-- `coro::RecvResult`: `result` is the byte count, `0` at EOF, or a negative errno. -/
structure RecvResult where
  data : Bytes
  result : Int
  wf : result = data.length ∨ (result < 0 ∧ data = [])

namespace RecvResult

def eof (rr : RecvResult) : Bool := rr.result == 0
def error (rr : RecvResult) : Bool := decide (rr.result < 0)
def ok (rr : RecvResult) : Bool := decide (0 < rr.result)

/-- What `AsyncRecv::await_resume` makes of a completion that delivered `bs`. -/
def ofBytes (bs : Bytes) : RecvResult := ⟨bs, bs.length, .inl rfl⟩

theorem not_ok_ofBytes_nil : (ofBytes []).ok = false := rfl

/-- The completion with a negative errno. -/
def failed (errno : Nat) : RecvResult := ⟨[], -(errno + 1), .inr ⟨by omega, rfl⟩⟩

theorem data_eq_nil_of_not_ok {rr : RecvResult} (h : rr.ok = false) : rr.data = [] := by
  rcases rr.wf with hw | ⟨_, hd⟩
  · have : ¬ 0 < rr.result := by simpa [ok] using h
    exact List.eq_nil_of_length_eq_zero (by omega)
  · exact hd

theorem data_ne_nil_of_ok {rr : RecvResult} (h : rr.ok = true) : rr.data ≠ [] := by
  have hpos : 0 < rr.result := by simpa [ok] using h
  rcases rr.wf with hw | ⟨hneg, _⟩
  · intro hd
    simp [hd] at hw
    omega
  · omega

theorem ok_eq (rr : RecvResult) : rr.ok = (!rr.eof && !rr.error) := by
  simp only [ok, eof, error]
  rw [Bool.eq_iff_iff]
  simp only [decide_eq_true_eq, Bool.and_eq_true, Bool.not_eq_true', beq_eq_false_iff_ne,
    decide_eq_false_iff_not]
  omega

theorem eof_of_error (rr : RecvResult) (h : rr.error = true) : rr.eof = false := by
  have hneg : rr.result < 0 := by simpa [error] using h
  have hne : rr.result ≠ 0 := by omega
  simpa [eof] using hne

@[simp] theorem ofBytes_data (bs : Bytes) : (ofBytes bs).data = bs := rfl

@[simp] theorem failed_data (errno : Nat) : (failed errno).data = [] := rfl

end RecvResult

/-- `ai_family` of an address. -/
inductive Family
  | inet
  | inet6
  | other
  deriving DecidableEq

/-- A socket address: family, address bytes, port. -/
structure SockAddr where
  family : Family
  ip : Bytes
  port : UInt16
  deriving DecidableEq

/-- `SOCK_STREAM` or `SOCK_DGRAM`. -/
inductive SockType
  | stream
  | dgram
  deriving DecidableEq

/-- The operations common to the connections, on descriptors `Fd`. -/
inductive NetOp (Fd : Type)
  /-- `AsyncRecv` -/
  | recv (fd : Fd) (bufSize : Nat)
  /-- `AsyncSend` -/
  | send (fd : Fd) (data : Bytes)
  /-- `AsyncConnect` -/
  | connect (fd : Fd) (addr : SockAddr)
  /-- `AsyncShutdown` with `SHUT_WR` -/
  | shutdownWr (fd : Fd)
  /-- `TlsStream::handshake`, over the plain stream on `fd` -/
  | tlsHandshake (fd : Fd)
  /-- `TlsStream::read` -/
  | tlsRead (fd : Fd) (maxBytes : Nat)
  /-- `TlsStream::writeFull` -/
  | tlsWriteFull (fd : Fd) (data : Bytes)
  /-- `TlsStream::shutdownWrite` -/
  | tlsShutdownWrite (fd : Fd)
  /-- `getaddrinfo`: the list it returns, `none` on failure -/
  | getaddrinfo (host : Bytes) (port : UInt16) (type : SockType)
  /-- `socket`, for the role `fd`: whether it returned a descriptor -/
  | socket (fd : Fd) (family : Family) (type : SockType)
  deriving DecidableEq

/-- What an operation answers. A receive delivers at most what its buffer holds, and a send accepts
    at most what it was given. -/
@[reducible] def NetOp.Res {Fd : Type} : NetOp Fd → Type
  | .recv _ bufSize => { rr : RecvResult // rr.data.length ≤ bufSize }
  | .send _ data => { n : Int // n ≤ data.length }
  | .connect _ _ => Int
  | .shutdownWr _ => Int
  | .tlsHandshake _ => Bool
  | .tlsRead _ maxBytes => { rr : RecvResult // rr.data.length ≤ maxBytes }
  | .tlsWriteFull _ data => { n : Int // n ≤ data.length }
  | .tlsShutdownWrite _ => Int
  | .getaddrinfo _ _ _ => Option (List SockAddr)
  | .socket _ _ _ => Bool

/-- What is sent may be accepted as a whole. -/
theorem NetOp.accepts_whole (data : Bytes) : (data.length : Int) ≤ data.length := Int.le_refl _

/-- `getaddrinfo` and `socket` block; everything else goes through the ring. -/
def NetOp.suspends {Fd : Type} : NetOp Fd → Bool
  | .getaddrinfo _ _ _ => false
  | .socket _ _ _ => false
  | _ => true

/-- System calls whose result the code does not read. -/
inductive Syscall (Fd : Type)
  /-- `::shutdown(fd, SHUT_RDWR)` -/
  | shutdownRdWr (fd : Fd)
  /-- `::close(fd)` -/
  | close (fd : Fd)
  deriving DecidableEq

/-- A kind of connection: its members, its descriptors, its coroutines, and what it needs beyond
    `NetOp`. -/
structure Kind where
  Mem : Type
  Fd : Type
  fdEq : DecidableEq Fd
  Task : Type
  Ext : Sig
  extSuspends : Ext.Op → Bool

attribute [instance] Kind.fdEq

@[reducible] def Kind.io (K : Kind) : Sig where
  Op := NetOp K.Fd ⊕ K.Ext.Op
  Res
    | .inl o => o.Res
    | .inr o => K.Ext.Res o

/-- The object whose coroutines a connection of kind `K` runs. -/
@[reducible] def Kind.object (K : Kind) : Object where
  Mem := K.Mem
  Io := K.io
  Exn := Exn
  Sys := Syscall K.Fd
  Task := K.Task
  suspends
    | .inl o => o.suspends
    | .inr o => K.extSuspends o

/-- A coroutine of a connection of kind `K`. -/
abbrev Kind.Prog (K : Kind) (α : Type) := K.object.Prog α

variable {K : Kind}

/-- Await an operation common to the connections. -/
def net (o : NetOp K.Fd) : K.Prog o.Res := Prog.io (O := K.object) (.inl o)

/-- Await an operation of this kind of connection. -/
def ext (o : K.Ext.Op) : K.Prog (K.Ext.Res o) := Prog.io (O := K.object) (.inr o)

end Cppvless
