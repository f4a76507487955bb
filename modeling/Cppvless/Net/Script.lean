import Cppvless.Coroutine.Replay
import Cppvless.Net.Trace

set_option autoImplicit false

/-! # Scripted peers

An environment for `Coroutine.run`: every peer sends its pieces, one a read, and then nothing more;
everything else succeeds. -/

namespace Cppvless

open Coroutine

variable {K : Kind}

/-- What the peers send, and how the connection's own operations are answered. -/
structure Script (K : Kind) where
  pieces : K.Fd → List Bytes
  ext : (o : K.Ext.Op) → K.Ext.Res o

namespace Script

/-- The next piece of `fd`, or EOF. -/
def next (s : Script K) (w : World K.object) (fd : K.Fd) (bufSize : Nat) :
    { rr : RecvResult // rr.data.length ≤ bufSize } :=
  let piece := (s.pieces fd).getD (answers fd w.trace).length []
  ⟨.ofBytes (piece.take bufSize), List.length_take_le _ _⟩

def env (s : Script K) (w : World K.object) : (o : K.object.Io.Op) → K.object.Io.Res o
  | .inl (.recv fd bufSize) => s.next w fd bufSize
  | .inl (.send _ data) => ⟨data.length, NetOp.accepts_whole data⟩
  | .inl (.connect _ _) => (0 : Int)
  | .inl (.shutdownWr _) => (0 : Int)
  | .inl (.tlsHandshake _) => true
  | .inl (.tlsRead fd maxBytes) => s.next w fd maxBytes
  | .inl (.tlsWriteFull _ data) => ⟨data.length, NetOp.accepts_whole data⟩
  | .inl (.tlsShutdownWrite _) => (0 : Int)
  | .inl (.getaddrinfo _ _ _) => (none : Option (List SockAddr))
  | .inl (.socket _ _ _) => true
  | .inr o => s.ext o

/-- The same with every host name at `addr`. -/
def resolving (s : Script K) (addr : SockAddr) (w : World K.object) :
    (o : K.object.Io.Op) → K.object.Io.Res o
  | .inl (.getaddrinfo _ _ _) => some [addr]
  | o => s.env w o

end Script

/-- A write that failed. -/
def fails : Event K.object → Bool
  | .io (.inl (.send _ _)) r => decide (r.1 ≤ 0)
  | .io (.inl (.tlsWriteFull _ data)) r => decide (r.1 < data.length)
  | _ => false

theorem fails_of_wrote {fd : K.Fd} {e : Event K.object} {x : Bytes × Bool} (h : wrote fd e = some x) :
    x.2 = fails e := by
  match e, h with
  | .io (.inl (.send fd' data)) r, h =>
      by_cases hfd : fd' = fd
      · rw [wrote, if_pos hfd] at h
        rw [← Option.some.inj h]
        rfl
      · simp [wrote, hfd] at h
  | .io (.inl (.tlsWriteFull fd' data)) r, h =>
      by_cases hfd : fd' = fd
      · rw [wrote, if_pos hfd] at h
        rw [← Option.some.inj h]
        rfl
      · simp [wrote, hfd] at h

/-- Where no write has failed, none has succeeded after a failed one. -/
theorem sticky_of_succeeds {tr : List (Event K.object)} (h : ∀ e ∈ tr, fails e = false) (fd : K.Fd) :
    Sticky fd tr := by
  refine List.pairwise_of_forall_mem_list fun x hx y _ hfailed => ?_
  obtain ⟨e, he, hwrote⟩ := List.mem_filterMap.1 hx
  rw [fails_of_wrote hwrote, h e he] at hfailed
  cases hfailed

end Cppvless
