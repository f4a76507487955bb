import Cppvless.Net.Io

set_option autoImplicit false

/-! # Streams and the copy loop

`net::Stream` has two implementations, `coro::AsyncStream` over a descriptor and `net::TlsStream`
over an `AsyncStream`. The members of the first are modelled down to the ring operations; those of
the second are operations themselves, answered by whatever the TLS library makes of the traffic. -/

namespace Cppvless

open Coroutine

/-- A `net::Stream` on the descriptor `fd`. -/
inductive NetStream (Fd : Type)
  | async (fd : Fd)
  | tls (fd : Fd)
  deriving DecidableEq

variable {K : Kind}

namespace NetStream

def fd {Fd : Type} : NetStream Fd → Fd
  | .async fd => fd
  | .tls fd => fd

/-- The size `Stream::read` asks for when it is given none. -/
def readSize : Nat := 8192

/-- `Stream::read` -/
def read (s : NetStream K.Fd) (maxBytes : Nat := readSize) : K.Prog RecvResult :=
  match s with
  | .async fd => do return (← net (.recv fd maxBytes)).1
  | .tls fd => do return (← net (.tlsRead fd maxBytes)).1

/-- `Stream::writeFull`. The plain stream sends until everything is accepted or a send fails. -/
def writeFull (s : NetStream K.Fd) (data : Bytes) : K.Prog Int :=
  match s with
  | .async fd =>
      Coro.loop 0 fun offset =>
        if offset < data.length then do
          let sent ← net (.send fd (data.drop offset))
          if sent.1 ≤ 0 then
            return .inr (if 0 < offset then (offset : Int) else sent.1)
          else
            return .inl (offset + sent.1.toNat)
        else
          return .inr (data.length : Int)
  | .tls fd => do return (← net (.tlsWriteFull fd data)).1

/-- `Stream::shutdownWrite` -/
def shutdownWrite (s : NetStream K.Fd) : K.Prog Int :=
  match s with
  | .async fd => net (.shutdownWr fd)
  | .tls fd => net (.tlsShutdownWrite fd)

end NetStream

/-- `if (!data.empty())` around a write: whether it went well. -/
def NetStream.writeNonempty (s : NetStream K.Fd) (data : Bytes) : K.Prog Bool :=
  if data = [] then
    return true
  else do
    let written ← s.writeFull data
    return decide (0 < written)

/-- `coro::copyStream` between streams given by their functions, `stop` being the member it polls. -/
def copyBetween (writeFull : Bytes → K.Prog Int) (shutdownWrite : K.Prog Int)
    (read : K.Prog RecvResult) (stop : K.Mem → Bool) : K.Prog Bool :=
  Coro.loop () fun _ => do
    if stop (← Prog.get (O := K.object)) then
      return .inr false
    else do
      let rr ← read
      if rr.eof then do
        let _ ← shutdownWrite
        return .inr true
      else if rr.error then do
        let _ ← shutdownWrite
        return .inr false
      else do
        let written ← writeFull rr.data
        if written ≤ 0 then
          return .inr false
        else
          return .inl ()

/-- `coro::copyStream` into a stream given by its two functions. -/
def copyInto (writeFull : Bytes → K.Prog Int) (shutdownWrite : K.Prog Int) (src : NetStream K.Fd)
    (stop : K.Mem → Bool) : K.Prog Bool :=
  copyBetween writeFull shutdownWrite src.read stop

/-- `coro::copyStream` -/
def copyStream (dst src : NetStream K.Fd) (stop : K.Mem → Bool) : K.Prog Bool :=
  copyInto dst.writeFull dst.shutdownWrite src stop

/-- The relay loops that change the data: `transform` makes of the bytes read those to be written,
    or fails, and once `direct` holds the rest is copied. -/
def relayTransformed (dst src : NetStream K.Fd) (stop : K.Mem → Bool)
    (transform : Bytes → K.Prog (Option Bytes)) (direct : K.Mem → Bool) : K.Prog Bool :=
  Coro.loop () fun _ => do
    if stop (← Prog.get (O := K.object)) then
      return .inr true
    else do
      let rr ← src.read
      if rr.eof then do
        let _ ← dst.shutdownWrite
        return .inr true
      else if rr.error then do
        let _ ← dst.shutdownWrite
        return .inr false
      else do
        match ← transform rr.data with
        | none => return .inr false
        | some data => do
            if !(← dst.writeNonempty data) then
              return .inr false
            else if direct (← Prog.get (O := K.object)) then
              return .inr (← copyStream dst src stop)
            else
              return .inl ()

end Cppvless
