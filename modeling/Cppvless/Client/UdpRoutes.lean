import Cppvless.Client.Handshake
import Cppvless.Client.SessionKey
import Cppvless.Socks5.Datagram

set_option autoImplicit false

/-! # The routes of the datagrams

Where the application's datagrams go. `recvLoop` takes them one at a time, each to the session for its
destination. A list of routes gives every datagram the socket it was for: a socket gets one request and
then the datagrams for its destination, in the order in which they came, and a datagram is lost only
with the connection attempt that was made for it, or after a failed write. Only `recvLoop` makes sessions
and writes to their sockets (`Books`); everybody else goes aside (`Aside`). -/

namespace Cppvless

open Coroutine

namespace Socks5UdpRelay

/-! ## What was asked for -/

/-- A datagram of the application: its destination and its payload. -/
abbrev Datagram := Key × Bytes

/-- What `recvLoop` makes of the result of a `recvfrom`. -/
def accepted (rr : RecvResult) : Option Datagram :=
  if rr.error then none
  else if rr.eof || rr.data = [] then none
  else
    match Socks5.Parser.parseUdpDatagram rr.data with
    | none => none
    | some (dest, port, payload) => if payload = [] then none else some ((dest, port), payload)

/-- It has a payload, and one that fits into a frame. -/
def Sized (d : Datagram) : Prop := d.2 ≠ [] ∧ d.2.length < 65536

/-- The datagram that came with an event. -/
def asks : Event kind.object → Option Datagram
  | .io (.inr (.recvFrom _)) rr => accepted rr.1.1
  | _ => none

/-- The datagrams of the application. -/
def asked (tr : List (Event kind.object)) : List Datagram := tr.filterMap asks

/-- The request for a session. -/
def vlessRequest (key : Key) : Request :=
  toVlessRequest { cmd := .udpAssociate, address := key.1, port := key.2 } .udp

/-- The datagrams for the socket `n`. -/
def routed (n : Nat) (routes : List (Nat × Datagram)) : List Datagram :=
  (routes.filter fun x => x.1 = n).map Prod.snd

/-- They all have the destination `key`. -/
def AllFor (key : Key) (ds : List Datagram) : Prop := ∀ d ∈ ds, d.1 = key

/-- The datagrams behind the request. -/
def line (header : Bytes) (ds : List Datagram) : Bytes := header ++ frames (ds.map Prod.snd)

variable (cfg : VlessClientConfig) (routes : List (Nat × Datagram)) (n : Nat)
  (tr : List (Event kind.object))

/-- The socket `n` got the request for `key` and all its datagrams, unless a write failed. -/
def Served (key : Key) : Prop :=
  AllFor key (routed n routes) ∧ ∃ header,
    Encoder.encodeRequest (cfg.request (vlessRequest key)) = .ok header ∧
      Wrote (K := kind) (Fd.remote n) (line header (routed n routes)) tr

/-- The socket `n` got the beginning of a request, and was for one datagram at most. -/
def Unserved : Prop :=
  (routed n routes).length ≤ 1 ∧ ∃ key, AllFor key (routed n routes) ∧
    VlessClient.Beginning cfg (vlessRequest key) (wroteTo (K := kind) (Fd.remote n) tr)

/-- The socket `n` got nothing, or the beginning of the request for the destination of all its
    datagrams and of these. -/
def Begun : Prop :=
  ∃ key, AllFor key (routed n routes) ∧ (wroteTo (K := kind) (Fd.remote n) tr = [] ∨ ∃ header,
    Encoder.encodeRequest (cfg.request (vlessRequest key)) = .ok header ∧
      wroteTo (K := kind) (Fd.remote n) tr <+: line header (routed n routes))

/-- At all times: `routes` are the datagrams so far, but perhaps for the last one. -/
structure Routes : Prop where
  datagrams : routes.map Prod.snd <+: asked tr
  latest : (asked tr).length ≤ routes.length + 1
  sockets : ∀ n, Begun cfg routes n tr
  sized : ∀ d ∈ asked tr, Sized d

/-- While `recvLoop` waits for a datagram: a session has got its datagrams, and the attempt to make one
    was for one datagram. -/
structure Settled (w : World kind.object) : Prop where
  datagrams : routes.map Prod.snd = asked w.trace
  sessions : ∀ n, (w.mem.session n).stream ≠ none → Served cfg routes n w.trace (w.mem.label n)
  attempts : ∀ n, (w.mem.session n).stream = none → Unserved cfg routes n w.trace

variable {cfg routes n tr} {tr' : List (Event kind.object)} {key : Key} {d : Datagram}
  {header : Bytes} {ds : List Datagram}

/-- A datagram that is accepted is one with a destination and a payload. -/
theorem accepted_eq_some {rr : RecvResult} {dest : Address} {port : UInt16} {payload : Bytes} :
    accepted rr = some ((dest, port), payload) ↔
      rr.ok = true ∧ Socks5.DatagramBytes rr.data dest port payload ∧ payload ≠ [] := by
  rw [← Socks5.Parser.parseUdpDatagram_eq_some, rr.ok_eq]
  unfold accepted
  cases herror : rr.error with
  | true => simp
  | false =>
      cases heof : rr.eof with
      | true => simp
      | false =>
          have hdata : rr.data ≠ [] := rr.data_ne_nil_of_ok (by simp [rr.ok_eq, herror, heof])
          cases hparse : Socks5.Parser.parseUdpDatagram rr.data with
          | none => simp [hdata]
          | some x =>
              obtain ⟨dest', port', payload'⟩ := x
              by_cases hpayload : payload' = []
              · simp +contextual [hdata, hpayload, eq_comm]
              · suffices h : (dest' = dest ∧ port' = port) ∧ payload' = payload ↔
                    (dest' = dest ∧ port' = port ∧ payload' = payload) ∧ payload ≠ [] by
                  simpa [hdata, hpayload] using h
                constructor
                · rintro ⟨⟨rfl, rfl⟩, rfl⟩
                  exact ⟨⟨rfl, rfl, rfl⟩, hpayload⟩
                · rintro ⟨⟨rfl, rfl, rfl⟩, -⟩
                  exact ⟨⟨rfl, rfl⟩, rfl⟩

theorem accepted_sized {rr : RecvResult} (h : accepted rr = some d) (hlength : rr.data.length ≤ 65536) :
    Sized d := by
  obtain ⟨⟨dest, port⟩, payload⟩ := d
  obtain ⟨-, hbytes, hpayload⟩ := accepted_eq_some.1 h
  refine ⟨hpayload, show payload.length < 65536 from ?_⟩
  generalize rr.data = data at hbytes hlength
  cases hbytes with
  | mk rsv₁ rsv₂ p₁ p₂ bs payload address haddr =>
      simp at hlength
      omega

theorem routed_append (n m : Nat) (routes : List (Nat × Datagram)) (d : Datagram) :
    routed n (routes ++ [(m, d)]) = if m = n then routed n routes ++ [d] else routed n routes := by
  unfold routed
  by_cases h : m = n
  · simp [h]
  · simp [h]

theorem routed_self (n : Nat) (routes : List (Nat × Datagram)) (d : Datagram) :
    routed n (routes ++ [(n, d)]) = routed n routes ++ [d] := by
  rw [routed_append, if_pos rfl]

theorem routed_other {m : Nat} (h : m ≠ n) (routes : List (Nat × Datagram)) (d : Datagram) :
    routed n (routes ++ [(m, d)]) = routed n routes := by
  rw [routed_append, if_neg h]

theorem line_append (header : Bytes) (ds : List Datagram) (d : Datagram) :
    line header (ds ++ [d]) = line header ds ++ frame d.2 := by
  simp [line]

theorem allFor_nil (key : Key) : AllFor key [] := fun _ h => nomatch h

theorem AllFor.append (h : AllFor key ds) (hd : d.1 = key) : AllFor key (ds ++ [d]) := by
  intro x hx
  rcases List.mem_append.1 hx with hx | hx
  · exact h x hx
  · rw [List.mem_singleton.1 hx, hd]

theorem Served.begun (h : Served cfg routes n tr key) : Begun cfg routes n tr := by
  obtain ⟨hall, header, hencode, hwrote⟩ := h
  exact ⟨key, hall, .inr ⟨header, hencode, hwrote.written⟩⟩

theorem Unserved.begun (h : Unserved cfg routes n tr) : Begun cfg routes n tr := by
  obtain ⟨-, key, hall, hnil | ⟨header, hencode, hwrote⟩⟩ := h
  · exact ⟨key, hall, .inl hnil⟩
  · exact ⟨key, hall, .inr ⟨header, hencode, hwrote.trans (List.prefix_append _ _)⟩⟩

/-! ## What it depends on -/

theorem Served.route {m : Nat} (hm : m ≠ n)
    (h : Served cfg routes n tr key) : Served cfg (routes ++ [(m, d)]) n tr key := by
  rw [Served, routed_other hm]
  exact h

theorem Unserved.route {m : Nat} (hm : m ≠ n)
    (h : Unserved cfg routes n tr) : Unserved cfg (routes ++ [(m, d)]) n tr := by
  rw [Unserved, routed_other hm]
  exact h

section Congr

variable (hwrites : writes (K := kind) (Fd.remote n) tr' = writes (K := kind) (Fd.remote n) tr)

include hwrites

theorem wroteTo_congr :
    wroteTo (K := kind) (Fd.remote n) tr' = wroteTo (K := kind) (Fd.remote n) tr := by
  rw [wroteTo, hwrites, ← wroteTo]

theorem Served.congr (h : Served cfg routes n tr key) : Served cfg routes n tr' key := by
  obtain ⟨hall, header, hencode, hwrote⟩ := h
  refine ⟨hall, header, hencode, ?_⟩
  rw [Wrote, WriteFailed, wroteTo_congr hwrites, hwrites]
  exact hwrote

theorem Unserved.congr (h : Unserved cfg routes n tr) : Unserved cfg routes n tr' := by
  rw [Unserved, wroteTo_congr hwrites]
  exact h

theorem Begun.congr (h : Begun cfg routes n tr) : Begun cfg routes n tr' := by
  rw [Begun, wroteTo_congr hwrites]
  exact h

end Congr

/-! ## The sessions and their sockets -/

namespace UdpUplink

/-- What the sockets have got agrees with what is known of the sessions, but perhaps for the socket
    `busy`. -/
structure Books (cfg : VlessClientConfig) (routes : List (Nat × Datagram)) (busy : Option Nat)
    (w : World kind.object) : Prop where
  made : ∀ n, busy = some n → n < w.mem.nextRemote
  fresh : ∀ n, w.mem.nextRemote ≤ n → writes (K := kind) (Fd.remote n) w.trace = [] ∧
    routed n routes = [] ∧ (w.mem.session n).stream = none
  served : ∀ n st, busy ≠ some n → (w.mem.session n).stream = some st →
    st.fd = .remote n ∧ Served cfg routes n w.trace (w.mem.label n)
  unserved : ∀ n, busy ≠ some n → (w.mem.session n).stream = none → Unserved cfg routes n w.trace
  found : ∀ key n, (key, n) ∈ w.mem.sessions →
    (w.mem.session n).stream ≠ none ∧ w.mem.label n = key
  sized : ∀ d ∈ asked w.trace, Sized d

/-- What the other coroutines do, and `recvLoop` between two datagrams. To the socket `busy` anything
    may be written. -/
structure Aside (busy : Option Nat) (w w' : World kind.object) : Prop where
  writes : ∀ n, busy ≠ some n →
    writes (K := kind) (Fd.remote n) w'.trace = writes (K := kind) (Fd.remote n) w.trace
  asked : asked w'.trace = asked w.trace
  untouched : Untouched w.mem w'.mem
  stream : ∀ n, (w'.mem.session n).stream = (w.mem.session n).stream

/-- Only `recvLoop` does more than that. -/
def contract (cfg : VlessClientConfig) : Contract kind.object where
  env tr := ∀ n, Sticky (K := kind) (Fd.remote n) tr
  guar
    | .recvLoop, _, w' => ∃ routes, Routes cfg routes w'.trace
    | _, w, w' => Aside none w w'
  parked t o w := t = Task.recvLoop → (∃ size, o = .inr (.recvFrom size)) →
    ∃ routes, Settled cfg routes w
  pre
    | .control, w => w.mem = {} ∧ w.trace = []
    | .recvLoop, w => Books cfg [] none w ∧ asked w.trace = []
    | _, _ => True
  post _ _ := True

variable {cfg : VlessClientConfig} {routes : List (Nat × Datagram)} {busy : Option Nat} {n : Nat}
  {w w' w'' : World kind.object} {m m' : Mem} {key : Key} {d : Datagram} {header : Bytes}

theorem Aside.but (h : Aside none w w') : Aside busy w w' :=
  ⟨fun n _ => h.writes n nofun, h.asked, h.untouched, h.stream⟩

theorem Aside.kept (h : Aside none w w') (hw : Routes cfg routes w.trace) :
    Routes cfg routes w'.trace where
  datagrams := h.asked ▸ hw.datagrams
  latest := h.asked ▸ hw.latest
  sockets n := (hw.sockets n).congr (h.writes n nofun)
  sized := h.asked ▸ hw.sized

theorem Aside.settled (h : Aside none w w') (hw : Settled cfg routes w) : Settled cfg routes w' where
  datagrams := h.asked ▸ hw.datagrams
  sessions n hst := by
    rw [h.stream n] at hst
    exact (h.untouched.label n).symm ▸ (hw.sessions n hst).congr (h.writes n nofun)
  attempts n hst := (hw.attempts n ((h.stream n).symm.trans hst)).congr (h.writes n nofun)

theorem Aside.books (h : Aside busy w w') (hw : Books cfg routes busy w) :
    Books cfg routes busy w' where
  made n hn := h.untouched.nextRemote ▸ hw.made n hn
  fresh n hn := by
    rw [h.untouched.nextRemote] at hn
    obtain ⟨hwrites, hrouted, hstream⟩ := hw.fresh n hn
    have hbusy : busy ≠ some n := fun hbusy => absurd (hw.made n hbusy) (by omega)
    exact ⟨(h.writes n hbusy).trans hwrites, hrouted, (h.stream n).trans hstream⟩
  served n st hbusy hst := by
    obtain ⟨hfd, hserved⟩ := hw.served n st hbusy ((h.stream n).symm.trans hst)
    exact ⟨hfd, (h.untouched.label n).symm ▸ hserved.congr (h.writes n hbusy)⟩
  unserved n hbusy hst :=
    (hw.unserved n hbusy ((h.stream n).symm.trans hst)).congr (h.writes n hbusy)
  found key n hmem := by
    obtain ⟨hstream, hlabel⟩ := hw.found key n (h.untouched.sessions _ hmem)
    exact ⟨(h.stream n).symm ▸ hstream, (h.untouched.label n).trans hlabel⟩
  sized := h.asked ▸ hw.sized

theorem Books.begun (h : Books cfg routes busy w) (n : Nat) (hbusy : busy ≠ some n) :
    Begun cfg routes n w.trace := by
  cases hst : (w.mem.session n).stream with
  | none => exact (h.unserved n hbusy hst).begun
  | some st => exact (h.served n st hbusy hst).2.begun

theorem Books.settled (h : Books cfg routes none w) (hasked : routes.map Prod.snd = asked w.trace) :
    Settled cfg routes w where
  datagrams := hasked
  sessions n hst := by
    obtain ⟨st, hst⟩ := Option.ne_none_iff_exists'.1 hst
    exact (h.served n st nofun hst).2
  attempts n hst := h.unserved n nofun hst

/-! ## Between two datagrams -/

/-- Every datagram has its socket. -/
def Resting (cfg : VlessClientConfig) (w : World kind.object) : Prop :=
  ∃ routes, Books cfg routes none w ∧ routes.map Prod.snd = asked w.trace

/-- Every datagram but `d` has its socket. -/
def Asking (cfg : VlessClientConfig) (d : Datagram) (w : World kind.object) : Prop :=
  ∃ routes, Books cfg routes none w ∧ asked w.trace = routes.map Prod.snd ++ [d]

theorem Resting.aside (hw : Resting cfg w) (h : Aside none w w') : Resting cfg w' := by
  obtain ⟨routes, hbooks, hasked⟩ := hw
  exact ⟨routes, h.books hbooks, hasked.trans h.asked.symm⟩

theorem Resting.guar (hw : Resting cfg w) : ∃ routes, Routes cfg routes w.trace := by
  obtain ⟨routes, hbooks, hasked⟩ := hw
  exact ⟨routes, hasked ▸ List.prefix_rfl, by rw [← hasked, List.length_map]; omega,
    fun n => hbooks.begun n nofun, hbooks.sized⟩

theorem Asking.aside (hw : Asking cfg d w) (h : Aside none w w') : Asking cfg d w' := by
  obtain ⟨routes, hbooks, hasked⟩ := hw
  exact ⟨routes, h.books hbooks, h.asked.trans hasked⟩

theorem Asking.guar (hw : Asking cfg d w) : ∃ routes, Routes cfg routes w.trace := by
  obtain ⟨routes, hbooks, hasked⟩ := hw
  exact ⟨routes, hasked ▸ List.prefix_append _ _, by simp [hasked],
    fun n => hbooks.begun n nofun, hbooks.sized⟩

/-! ## What the others do -/

theorem rely_recvLoop (h : (contract cfg).rely Task.recvLoop w w') : Aside none w w' := by
  obtain ⟨u, hu, hg, -⟩ := h
  cases u with
  | recvLoop => exact absurd rfl hu
  | control => exact hg
  | sendLoop => exact hg
  | outTask n => exact hg

theorem stable : (contract cfg).Stable where
  env_prefix _ _ h n := (h n).of_append
  parked t o w w' hw hr ht ho := by
    subst ht
    obtain ⟨routes, hsettled⟩ := hw rfl ho
    exact ⟨routes, (rely_recvLoop hr).settled hsettled⟩
  post _ _ _ _ _ := trivial

/-- A change of the members only. -/
theorem aside_call {f : Mem → Mem × List (Syscall Fd)} (h : Untouched w.mem (f w.mem).1)
    (hstream : ∀ n, ((f w.mem).1.session n).stream = (w.mem.session n).stream) :
    Aside busy w (w.call f) where
  writes _ _ := writes_call _ w f
  asked := by simp [asked, asks, World.call_trace]
  untouched := h
  stream := hstream

/-- An event that is no write to a session and brings no datagram. -/
theorem aside_push {e : Event kind.object} (hasks : asks e = none)
    (hwrote : ∀ n, busy ≠ some n → wrote (K := kind) (Fd.remote n) e = none) :
    Aside busy w (w.push e) where
  writes n hn := by simp [Cppvless.writes, hwrote n hn]
  asked := by simp [asked, hasks]
  untouched := .of_eq rfl rfl rfl rfl
  stream _ := rfl

/-! ## Code that only goes aside -/

/-- A member function that leaves the sessions what they are. -/
def KeepsSessions (f : Mem → Mem × List (Syscall Fd)) : Prop :=
  ∀ m, Untouched m (f m).1 ∧ ∀ n, ((f m).1.session n).stream = (m.session n).stream

theorem keepsSessions_of_eq {f : Mem → Mem} (hsessions : ∀ m, (f m).sessions = m.sessions)
    (hsession : ∀ m, (f m).session = m.session) (hnext : ∀ m, (f m).nextRemote = m.nextRemote)
    (hconnecting : ∀ m, (f m).connecting = m.connecting) : KeepsSessions fun m => (f m, []) :=
  fun m => ⟨.of_eq (hsessions m) (hsession m) (hnext m) (hconnecting m), fun n => by rw [hsession]⟩

theorem stream_setSession (m : Mem) (n : Nat) (session : Session)
    (h : session.stream = (m.session n).stream) (k : Nat) :
    ((m.setSession n session).session k).stream = (m.session k).stream := by
  unfold Mem.setSession
  by_cases hk : k = n
  · subst hk
    simp [h]
  · simp [hk]

theorem stream_closeSession (n : Nat) (m : Mem) (k : Nat) :
    ((closeSession n m).1.session k).stream = (m.session k).stream := by
  unfold closeSession
  split
  · next fd _ =>
      exact stream_setSession (m.cancelFd fd) n
        { m.session n with alive := false, remoteFd := none } rfl k
  · exact stream_setSession m n { m.session n with alive := false } rfl k

theorem stream_closeSessions (l : List (Key × Nat)) (m : Mem) (k : Nat) :
    ((closeSessions l m).1.session k).stream = (m.session k).stream := by
  induction l generalizing m with
  | nil => rfl
  | cons x rest ih =>
      obtain ⟨key, n⟩ := x
      unfold closeSessions
      split
      · exact (ih _).trans (stream_closeSession n m k)
      · exact ih m

theorem session_cancelAndClose (fd : Option Fd) (m : Mem) :
    (cancelAndClose fd m).1.session = m.session := by
  cases fd with
  | none => rfl
  | some fd => rfl

theorem stream_stop (m : Mem) (k : Nat) :
    ((stop m).1.session k).stream = (m.session k).stream := by
  unfold stop
  split
  · rfl
  · have hsessions := stream_closeSessions m.sessions { m with closed := true } k
    generalize closeSessions m.sessions { m with closed := true } = closed at hsessions ⊢
    have hevent := session_cancelAndClose closed.1.eventFd closed.1
    generalize hcancelled : cancelAndClose closed.1.eventFd closed.1 = cancelled at hevent
    have hudp := session_cancelAndClose cancelled.1.udpFd cancelled.1
    dsimp only
    rw [hcancelled, hudp, hevent]
    exact hsessions

theorem keepsSessions_closeSession (n : Nat) : KeepsSessions (closeSession n) :=
  fun m => ⟨untouched_closeSession n m, stream_closeSession n m⟩

theorem keepsSessions_stop : KeepsSessions stop := fun m => ⟨untouched_stop m, stream_stop m⟩

/-- The operations that write to no session, bring no datagram and start nobody. -/
def Idle : ObjOp kind.object → Prop
  | .get => True
  | .member f => KeepsSessions f
  | .io (.inl o) => ∀ n, ¬ o.Writes (.remote n)
  | .io (.inr o) => ∀ size, o ≠ .recvFrom size
  | .spawn _ => False

theorem asks_eq_none {o : kind.object.Io.Op} (h : ∀ size, o ≠ .inr (.recvFrom size))
    (r : kind.object.Io.Res o) : asks (.io (O := kind.object) o r) = none := by
  cases o with
  | inl o => rfl
  | inr o =>
      cases o with
      | recvFrom size => exact absurd rfl (h size)
      | _ => rfl

theorem aside_io {o : kind.object.Io.Op} (h : Idle (.io o)) (r : kind.object.Io.Res o)
    (w : World kind.object) : Aside none w (w.answer o r) := by
  refine aside_push (asks_eq_none (fun size ho => ?_) r) fun n _ => ?_
  · subst ho
    exact h size rfl
  · cases o with
    | inl o => exact wrote_eq_none (K := kind) (h n) r
    | inr o => rfl

/-- `recvLoop` between two datagrams, or with one. -/
theorem frame_recvLoop {F : World kind.object → Prop} (haside : ∀ w w', F w → Aside none w w' → F w')
    (hguar : ∀ w, F w → ∃ routes, Routes cfg routes w.trace) :
    Frame (contract cfg) Task.recvLoop Idle F where
  rely _ _ hw hr := haside _ _ hw (rely_recvLoop hr)
  parked o _ ho _ _ := by
    rintro - ⟨size, rfl⟩
    exact absurd rfl (ho size)
  member f w hf hw _ := by
    have hnext := haside _ _ hw (aside_call (hf w.mem).1 (hf w.mem).2)
    exact ⟨hguar _ hnext, hnext⟩
  io o r w ho hw _ := by
    have hnext := haside _ _ hw (aside_io ho r w)
    exact ⟨hguar _ hnext, hnext⟩
  spawn _ _ h := h.elim

/-- The other coroutines. -/
theorem frame_other {t : Task} (ht : t ≠ .recvLoop) :
    Frame (contract cfg) t Idle fun _ => True where
  rely _ _ _ _ := trivial
  parked _ _ _ _ _ h := absurd h ht
  member f w hf _ _ := by
    have haside : Aside none w (w.call f) := aside_call (hf w.mem).1 (hf w.mem).2
    refine ⟨?_, trivial⟩
    cases t with
    | recvLoop => exact absurd rfl ht
    | _ => exact haside
  io o r w ho _ _ := by
    have haside : Aside none w (w.answer o r) := aside_io ho r w
    refine ⟨?_, trivial⟩
    cases t with
    | recvLoop => exact absurd rfl ht
    | _ => exact haside
  spawn _ _ h := h.elim

theorem keepsSessions_setPending (s : Fd × Dir) (b : Bool) :
    KeepsSessions fun m => (m.setPending s b, []) :=
  keepsSessions_of_eq (fun _ => rfl) (fun _ => rfl) (fun _ => rfl) fun _ => rfl

theorem only_tracked {α : Type} {c : Code α} (hc : Only Idle c) : Only Idle (tracking.tracked c) :=
  tracking.uses_tracked hc (fun _ h => h) fun _ s _ _ =>
    ⟨keepsSessions_setPending s true, keepsSessions_setPending s false⟩

theorem wp_idle {F : World kind.object → Prop} (haside : ∀ w w', F w → Aside none w w' → F w')
    (hguar : ∀ w, F w → ∃ routes, Routes cfg routes w.trace) {α : Type} {c : Code α}
    (hc : Only Idle c) (hw : F w) :
    wp (contract cfg) .recvLoop (tracking.tracked c) (fun _ => F) w :=
  wp_of_uses (frame_recvLoop haside hguar) (only_tracked hc) hw

theorem wp_other {t : Task} (ht : t ≠ .recvLoop) {α : Type} {c : Code α} (hc : Only Idle c) :
    wp (contract cfg) t (tracking.tracked c) (fun _ _ => True) w :=
  wp_of_uses (frame_other ht) (only_tracked hc) trivial

theorem only_idle_outTask (n : Nat) : Only Idle (sessionOutTask n) :=
  only_sessionOutTask_of_reads n trivial (fun _ _ ho _ => ho.not_writes)
    (fun _ => keepsSessions_of_eq (fun _ => rfl) (fun _ => rfl) (fun _ => rfl) fun _ => rfl)
    (keepsSessions_closeSession n)

theorem only_idle_sendLoop : Only Idle sendLoop := by
  have hmodify : ∀ {f : Mem → Mem}, (∀ m, (f m).sessions = m.sessions) →
      (∀ m, (f m).session = m.session) → (∀ m, (f m).nextRemote = m.nextRemote) →
      (∀ m, (f m).connecting = m.connecting) → Only Idle (modify f) :=
    fun h₁ h₂ h₃ h₄ => .await (keepsSessions_of_eq h₁ h₂ h₃ h₄)
  have hdrain : Only Idle drainQueue := by
    refine .loop fun _ => .bind (.await trivial) fun m => ?_
    cases m.sendQueue with
    | nil => trivial
    | cons item rest =>
        refine .ite (fun _ => trivial) fun _ => ?_
        refine .bind (hmodify (fun _ => rfl) (fun _ => rfl) (fun _ => rfl) fun _ => rfl) fun _ => ?_
        refine .bind (.await ?_) fun sent => .ite (fun _ => trivial) fun _ => trivial
        exact fun _ h => nomatch h
  refine .loop fun _ => .bind (.await trivial) fun m => .ite (fun _ => trivial) fun _ => ?_
  refine .bind (.await ?_) fun rr => .ite (fun _ => trivial) fun _ => ?_
  · exact fun _ h => h
  · refine .bind (hmodify (fun _ => rfl) (fun _ => rfl) (fun _ => rfl) fun _ => rfl) fun _ => ?_
    exact .bind hdrain fun _ => trivial

/-! ## The books of one step -/

/-- A session is made once. -/
theorem Books.made_of_stream (h : Books cfg routes busy w) (hstream : (w.mem.session n).stream ≠ none) :
    n < w.mem.nextRemote := by
  by_contra hn
  exact hstream (h.fresh n (by omega)).2.2

/-- A datagram for the socket `n`. -/
theorem Books.route (h : Books cfg routes busy w) (hbusy : busy = none ∨ busy = some n)
    (hn : n < w.mem.nextRemote) (d : Datagram) : Books cfg (routes ++ [(n, d)]) (some n) w := by
  have hother : ∀ m, some n ≠ some m → busy ≠ some m ∧ n ≠ m := by
    intro m hm
    refine ⟨?_, fun h => hm (h ▸ rfl)⟩
    rcases hbusy with rfl | rfl
    · exact nofun
    · exact hm
  refine ⟨fun m hm => Option.some.inj hm ▸ hn, fun m hm => ?_, fun m st hm hst => ?_, fun m hm hst => ?_,
    h.found, h.sized⟩
  · obtain ⟨hwrites, hrouted, hstream⟩ := h.fresh m hm
    exact ⟨hwrites, (routed_other (by omega) routes d).trans hrouted, hstream⟩
  · obtain ⟨hfd, hserved⟩ := h.served m st (hother m hm).1 hst
    exact ⟨hfd, hserved.route (hother m hm).2⟩
  · exact (h.unserved m (hother m hm).1 hst).route (hother m hm).2

/-- What was done with the socket `n` is in order. -/
theorem Books.settle (h : Books cfg routes (some n) w)
    (hserved : ∀ st, (w.mem.session n).stream = some st →
      st.fd = .remote n ∧ Served cfg routes n w.trace (w.mem.label n))
    (hunserved : (w.mem.session n).stream = none → Unserved cfg routes n w.trace) :
    Books cfg routes none w := by
  refine ⟨nofun, h.fresh, fun m st _ hst => ?_, fun m _ hst => ?_, h.found, h.sized⟩
  · by_cases hm : n = m
    · subst hm
      exact hserved st hst
    · exact h.served m st (fun h => hm (Option.some.inj h)) hst
  · by_cases hm : n = m
    · subst hm
      exact hunserved hst
    · exact h.unserved m (fun h => hm (Option.some.inj h)) hst

/-- A change of members that are not in the books. -/
theorem Books.call (h : Books cfg routes busy w) {f : Mem → Mem × List (Syscall Fd)}
    (hsessions : (f w.mem).1.sessions = w.mem.sessions) (hsession : (f w.mem).1.session = w.mem.session)
    (hnext : (f w.mem).1.nextRemote = w.mem.nextRemote) : Books cfg routes busy (w.call f) := by
  have hwrites : ∀ n, writes (K := kind) (Fd.remote n) (w.call f).trace =
      writes (K := kind) (Fd.remote n) w.trace := fun n => writes_call _ w f
  have hmem : (w.call f).mem = (f w.mem).1 := rfl
  have hlabel : ∀ n, (w.call f).mem.label n = w.mem.label n := by
    intro n
    rw [Mem.label, Mem.label, hmem, hsession]
  refine ⟨fun n hn => ?_, fun n hn => ?_, fun n st hn hst => ?_, fun n hn hst => ?_, fun key n hkey => ?_, ?_⟩
  · exact hnext.symm ▸ h.made n hn
  · rw [hmem, hnext] at hn
    rw [hwrites, hmem, hsession]
    exact h.fresh n hn
  · rw [hmem, hsession] at hst
    obtain ⟨hfd, hserved⟩ := h.served n st hn hst
    exact ⟨hfd, hlabel n ▸ hserved.congr (hwrites n)⟩
  · rw [hmem, hsession] at hst
    exact (h.unserved n hn hst).congr (hwrites n)
  · rw [hmem, hsessions] at hkey
    rw [hlabel, hmem, hsession]
    exact h.found key n hkey
  · have hasked : asked (w.call f).trace = asked w.trace := by simp [asked, asks, World.call_trace]
    rw [hasked]
    exact h.sized

/-- An event that is no write to a session. -/
theorem Books.push (h : Books cfg routes busy w) {e : Event kind.object}
    (hwrote : ∀ n, wrote (K := kind) (Fd.remote n) e = none) (hsized : ∀ d ∈ asks e, Sized d) :
    Books cfg routes busy (w.push e) := by
  have hwrites : ∀ n, writes (K := kind) (Fd.remote n) (w.push e).trace =
      writes (K := kind) (Fd.remote n) w.trace := fun n => by simp [writes, hwrote n]
  refine ⟨h.made, fun n hn => ?_, fun n st hn hst => ?_, fun n hn hst => ?_, h.found, fun d hd => ?_⟩
  · rw [hwrites]
    exact h.fresh n hn
  · obtain ⟨hfd, hserved⟩ := h.served n st hn hst
    exact ⟨hfd, hserved.congr (hwrites n)⟩
  · exact (h.unserved n hn hst).congr (hwrites n)
  · rw [World.push_trace, asked, List.filterMap_append, List.mem_append] at hd
    rcases hd with hd | hd
    · exact h.sized d hd
    · obtain ⟨e', he', hasks⟩ := List.mem_filterMap.1 hd
      exact hsized d (List.mem_singleton.1 he' ▸ hasks)

end UdpUplink

end Socks5UdpRelay

end Cppvless
