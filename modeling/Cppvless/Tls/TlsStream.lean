import Cppvless.Net.Trace
import Mathlib.Algebra.GroupWithZero.Nat

set_option autoImplicit false

/-! # The TLS stream

`net::TlsStream` over an `AsyncStream`, from `src/net/tls_stream.cpp`. The functions of the TLS
library are operations, answered by anything: how much they consumed, or which error, and the
ciphertext they appended to `wbio`. A memory BIO is the bytes in it. -/

namespace Cppvless

open Coroutine

namespace TlsStream

/-- The descriptor of `inner_`, and that of a stream copied into this one. -/
inductive Fd
  | inner
  | source
  deriving DecidableEq

/-- The coroutines that use a stream: one reads, the other writes. -/
inductive Task
  | reader
  | writer
  deriving DecidableEq

/-- `SSL_get_error` -/
inductive SslError
  | wantRead
  | wantWrite
  | zeroReturn
  | other
  deriving DecidableEq

/-- What a call of the library answers, and what it appended to `wbio`. -/
structure SslResult (α : Type) where
  result : Except SslError α
  appended : Bytes

/-- What the writing coroutine calls. -/
inductive WriteCall
  | writeFull (data : Bytes)
  | shutdownWrite

inductive ExtOp
  | sslRead (maxBytes : Nat)
  /-- `SSL_write` of the first `num` bytes of `data` -/
  | sslWrite (data : Bytes) (num : Int)
  | sslShutdown
  /-- `BIO_write` to `rbio`: whether it succeeds -/
  | bioWrite (data : Bytes)
  /-- the next `read` of the reading coroutine, if there is one -/
  | nextRead
  /-- the next call of the writing coroutine, if there is one -/
  | nextWrite

@[reducible] def ExtOp.Res : ExtOp → Type
  | .sslRead maxBytes => SslResult { data : Bytes // data ≠ [] ∧ data.length ≤ maxBytes }
  | .sslWrite data num => SslResult { n : Nat // 0 < n ∧ n ≤ data.length ∧ n ≤ num }
  | .sslShutdown => Bytes
  | .bioWrite _ => Bool
  | .nextRead => Option Nat
  | .nextWrite => Option WriteCall

/-- Between their calls the coroutines do other things. -/
def ExtOp.suspends : ExtOp → Bool
  | .nextRead => true
  | .nextWrite => true
  | _ => false

/-- Whether `ssl_` is set, and what is in `wbio`. The code does not read the rest: `appended` is all
    that ever was in `wbio`, `flushing` says whose flush is inside `inner_.writeFull`. -/
structure Mem where
  ssl : Bool := true
  wbio : Bytes := []
  appended : Bytes := wbio
  flushing : Task → Bool := fun _ => false

@[reducible] def kind : Kind where
  Mem := Mem
  Fd := Fd
  fdEq := inferInstance
  Task := Task
  Ext := ⟨ExtOp, ExtOp.Res⟩
  extSuspends := ExtOp.suspends

instance : DecidableEq kind.object.Task := inferInstanceAs (DecidableEq Task)

/-- A coroutine, or a function, of the stream. -/
abbrev Code (α : Type) := kind.Prog α

def get : Code Mem := Prog.get (O := kind.object)

def modify (f : Mem → Mem) : Code Unit := Prog.modify (O := kind.object) f

def update {α : Type} (f : Mem → α × Mem) : Code α := Prog.update (O := kind.object) f

def awaitExt (o : ExtOp) : Code o.Res := ext (K := kind) o

def inner : NetStream Fd := .async .inner

/-- `BIO_read` of at most 16384 bytes of `wbio`, to be sent by `t`. -/
def Mem.bioRead (t : Task) (s : Mem) : Bytes × Mem :=
  (s.wbio.take 16384,
    { s with wbio := s.wbio.drop 16384, flushing := Function.update s.flushing t true })

/-- What `t` took has been handed to `inner_`. -/
def Mem.handedOver (t : Task) (s : Mem) : Mem :=
  { s with flushing := Function.update s.flushing t false }

/-- The library appends to `wbio`. -/
def Mem.append (bs : Bytes) (s : Mem) : Mem :=
  { s with wbio := s.wbio ++ bs, appended := s.appended ++ bs }

/-- The conversion of a `size_t` to a 32-bit `int`. -/
def toInt (n : Nat) : Int := Int.bmod n (2 ^ 32)

def sslRead (maxBytes : Nat) :
    Code (Except SslError { data : Bytes // data ≠ [] ∧ data.length ≤ maxBytes }) := do
  let res ← awaitExt (.sslRead maxBytes)
  modify (Mem.append res.appended)
  return res.result

def sslWrite (data : Bytes) (num : Int) :
    Code (Except SslError { n : Nat // 0 < n ∧ n ≤ data.length ∧ n ≤ num }) := do
  let res ← awaitExt (.sslWrite data num)
  modify (Mem.append res.appended)
  return res.result

def sslShutdown : Code Unit := do
  let appended ← awaitExt .sslShutdown
  modify (Mem.append appended)

/-- `fillReadBio` -/
def fillReadBio : Code Bool := do
  let rr ← inner.read (K := kind)
  if rr.eof || rr.error then
    return false
  else
    awaitExt (.bioWrite rr.data)

/-- `flushWriteBio`, called by `t`. -/
def flushWriteBio (t : Task) : Code Bool :=
  Coro.loop () fun _ => do
    let s ← get
    if 0 < s.wbio.length then
      let buf ← update (Mem.bioRead t)
      let sent ← inner.writeFull (K := kind) buf
      modify (Mem.handedOver t)
      if sent ≠ buf.length then
        return .inr false
      else
        return .inl ()
    else
      return .inr true

def read (t : Task) (maxBytes : Nat) : Code RecvResult := do
  let s ← get
  if !s.ssl then
    return .failed 0
  else
    Coro.loop () fun _ => do
      match ← sslRead maxBytes with
      | .ok data => return .inr (.ofBytes data)
      | .error .wantRead =>
          -- what the library wants sent goes first
          if !(← flushWriteBio t) then
            return .inr (.failed 0)
          else if !(← fillReadBio) then
            return .inr (.ofBytes [])
          else
            return .inl ()
      | .error .wantWrite =>
          if !(← flushWriteBio t) then
            return .inr (.failed 0)
          else
            return .inl ()
      | .error .zeroReturn => return .inr (.ofBytes [])
      | .error .other => return .inr (.failed 0)

/-- What `writeFull` answers when it fails after `offset` bytes. -/
def written (offset : Nat) : Int := if 0 < offset then toInt offset else -1

def writeFull (t : Task) (data : Bytes) : Code Int := do
  let s ← get
  if !s.ssl then
    return -1
  else
    Coro.loop 0 fun offset => do
      if offset < data.length then
        match ← sslWrite (data.drop offset) (toInt (data.length - offset)) with
        | .ok n =>
            if !(← flushWriteBio t) then
              return .inr (written (offset + n))
            else
              return .inl (offset + n)
        | .error .wantRead =>
            if !(← flushWriteBio t) then
              return .inr (written offset)
            else if !(← fillReadBio) then
              return .inr (written offset)
            else
              return .inl offset
        | .error .wantWrite =>
            if !(← flushWriteBio t) then
              return .inr (written offset)
            else
              return .inl offset
        | .error _ => return .inr (written offset)
      else
        return .inr (toInt data.length)

def shutdownWrite (t : Task) : Code Int := do
  let s ← get
  if s.ssl then
    sslShutdown
    let _ ← flushWriteBio t
    inner.shutdownWrite (K := kind)
  else
    inner.shutdownWrite (K := kind)

/-! ## Two users of one stream -/

/-- A coroutine that reads, again and again. -/
def reader : Code Unit :=
  Coro.loop () fun _ => do
    match ← awaitExt .nextRead with
    | none => return .inr ()
    | some maxBytes =>
        let _ ← read .reader maxBytes
        return .inl ()

/-- A coroutine that writes and shuts down, in any order. -/
def writer : Code Unit :=
  Coro.loop () fun _ => do
    match ← awaitExt .nextWrite with
    | none => return .inr ()
    | some (.writeFull data) =>
        let _ ← writeFull .writer data
        return .inl ()
    | some .shutdownWrite =>
        let _ ← shutdownWrite .writer
        return .inl ()

/-! ## What a trace says -/

/-- The ciphertext an event appended to `wbio`. -/
def appendedBy : Event kind.object → Bytes
  | .io (.inr (.sslRead _)) res => res.appended
  | .io (.inr (.sslWrite _ _)) res => res.appended
  | .io (.inr .sslShutdown) appended => appended
  | _ => []

/-- All ciphertext, in order. -/
def produced (tr : List (Event kind.object)) : Bytes := tr.flatMap appendedBy

/-- The bytes of plaintext an event consumed. -/
def consumedBy : Event kind.object → Nat
  | .io (.inr (.sslWrite _ _)) ⟨.ok n, _⟩ => n.1
  | _ => 0

def consumed (tr : List (Event kind.object)) : Nat := (tr.map consumedBy).sum

/-- The bytes the inner stream accepted. -/
def accepted (tr : List (Event kind.object)) : Bytes := wroteTo (K := kind) Fd.inner tr

/-- The operation failed: nothing was accepted, nothing could be read, or the library gave up. -/
def Fails : Event kind.object → Bool
  | .io (.inl (.send .inner _)) r => decide (r.1 ≤ 0)
  | .io (.inl (.recv .inner _)) rr => !rr.1.ok
  | .io (.inr (.bioWrite _)) ok => !ok
  | .io (.inr (.sslWrite _ _)) ⟨.error .zeroReturn, _⟩ => true
  | .io (.inr (.sslWrite _ _)) ⟨.error .other, _⟩ => true
  | _ => false

@[simp] theorem produced_append (tr tr' : List (Event kind.object)) :
    produced (tr ++ tr') = produced tr ++ produced tr' := by
  simp [produced]

@[simp] theorem consumed_append (tr tr' : List (Event kind.object)) :
    consumed (tr ++ tr') = consumed tr + consumed tr' := by
  simp [consumed]

@[simp] theorem accepted_append (tr tr' : List (Event kind.object)) :
    accepted (tr ++ tr') = accepted tr ++ accepted tr' := by
  simp [accepted]

end TlsStream

end Cppvless
