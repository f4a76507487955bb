import Cppvless.Client.UdpRoutes
import Cppvless.Coroutine.Alone
import Cppvless.Coroutine.View
import Cppvless.Net.Channel
import Cppvless.Net.Script

set_option autoImplicit false

/-! # Datagrams towards the VLESS server

Every datagram of the application gets its route. What a handshake and the write of a frame come to
is known from code that is alone (`Coroutine.View`), in a world in which only `recvLoop` is there;
meanwhile the coroutines of the other sessions go on. -/

namespace Cppvless

open Coroutine

namespace Socks5UdpRelay

namespace UdpUplink

variable {cfg : VlessClientConfig} {routes : List (Nat × Datagram)} {busy : Option Nat} {n : Nat}
  {w w' w'' : World kind.object} {m m' : Mem} {key : Key} {d : Datagram} {header : Bytes}

/-! ## The start -/

theorem books_start (hmem : w.mem = {}) (htrace : w.trace = []) : Books cfg [] none w := by
  obtain ⟨mem, trace⟩ := w
  subst hmem
  subst htrace
  exact ⟨nofun, fun n _ => ⟨rfl, rfl, rfl⟩, nofun, fun n _ _ => ⟨by simp [routed],
    (.domain [], 0), allFor_nil _, .inl rfl⟩, nofun, nofun⟩

theorem wp_controlEnd :
    wp (contract cfg) .control (tracking.tracked (do awaitExt .controlEnd; member stop))
      (fun _ _ => True) w := by
  have hend : Only Idle (do awaitExt .controlEnd; member stop) :=
    .bind (.await (show Idle (.io (.inr .controlEnd)) from fun _ h => nomatch h)) fun _ =>
      .await keepsSessions_stop
  exact wp_other (t := .control) nofun hend

/-- `recvLoop` finds no session and no datagram. -/
theorem wp_startLoops (hw : Books cfg [] none w) (hasked : asked w.trace = []) :
    wp (contract cfg) .control (tracking.tracked (do
      Prog.spawn (O := kind.object) Task.recvLoop
      Prog.spawn (O := kind.object) Task.sendLoop
      awaitExt .controlEnd
      member stop)) (fun _ _ => True) w := by
  have hstart : ∀ (w : World kind.object) (u : Task), Aside none w (w.start u) :=
    fun w u => aside_push rfl fun _ _ => rfl
  have hrecv := hstart w Task.recvLoop
  rw [Tracking.tracked_bind]
  refine wp_bind (wp_spawn (O := kind.object) fun _ =>
    ⟨hrecv, ⟨hrecv.books hw, hrecv.asked.trans hasked⟩, fun w₁ _ => ?_⟩)
  dsimp only
  rw [Tracking.tracked_bind]
  refine wp_bind (wp_spawn (O := kind.object) fun _ => ⟨hstart w₁ Task.sendLoop, trivial, fun _ _ => ?_⟩)
  exact wp_controlEnd

theorem wp_control (hmem : w.mem = {}) (htrace : w.trace = []) :
    wp (contract cfg) .control (tracking.tracked control) (fun _ _ => True) w := by
  unfold control
  rw [Tracking.tracked_bind]
  have hopen : wp (contract cfg) .control (tracking.tracked (awaitExt .eventfd))
      (Returns fun _ w' => Books cfg [] none w' ∧ asked w'.trace = []) w := by
    refine Tracking.wp_untracked (T := tracking) (o := .inr .eventfd) rfl ?_
    refine wp_call (O := kind.object) (o := .inr .eventfd) rfl fun r _ => ?_
    have hevent : Aside none w (w.answer (.inr .eventfd) r) := aside_push rfl fun _ _ => rfl
    refine ⟨hevent, hevent.books (books_start hmem htrace), hevent.asked.trans ?_⟩
    rw [htrace]
    rfl
  refine wp_then hopen ?_
  intro opened w ⟨hbooks, hasked⟩
  cases opened with
  | false =>
      simp only [Bool.not_false, if_true]
      rw [Tracking.tracked_bind]
      have hclose : KeepsSessions fun m => ({ m with closed := true }, []) :=
        keepsSessions_of_eq (fun _ => rfl) (fun _ => rfl) (fun _ => rfl) fun _ => rfl
      refine wp_member_seq (O := kind.object) fun _ =>
        ⟨aside_call (hclose w.mem).1 (hclose w.mem).2, wp_controlEnd⟩
  | true =>
      simp only [Bool.not_true, Bool.false_eq_true, if_false]
      rw [Tracking.tracked_bind]
      have hopened : KeepsSessions fun m => ({ m with eventFd := some .event }, []) :=
        keepsSessions_of_eq (fun _ => rfl) (fun _ => rfl) (fun _ => rfl) fun _ => rfl
      refine wp_member_seq (O := kind.object) fun _ => ?_
      have haside : Aside none w (w.call fun m => ({ m with eventFd := some .event }, [])) :=
        aside_call (hopened w.mem).1 (hopened w.mem).2
      exact ⟨haside, wp_startLoops (haside.books hbooks) (haside.asked.trans hasked)⟩

/-! ## Writing to one session

The handshake of a session and the write of a frame look at nothing but the answers to their own
operations, so what they do is found in a world where `recvLoop` is alone, from `w₀`. Meanwhile the
others go on, and keep what they do not write to. -/

/-- What `recvLoop` has written to the socket `n` is `Good`, and to the others it has written
    nothing. -/
structure Own (n : Nat) (Good : List (Bytes × Bool) → Prop) (w₀ w : World kind.object) : Prop where
  good : Good (writes (K := kind) (Fd.remote n) w.trace)
  others : ∀ m, m ≠ n →
    writes (K := kind) (Fd.remote m) w.trace = writes (K := kind) (Fd.remote m) w₀.trace

/-- `recvLoop` alone. -/
def own (n : Nat) (Good : List (Bytes × Bool) → Prop) (w₀ : World kind.object) :
    Contract kind.object :=
  lone (Sticky (K := kind) (Fd.remote n)) (Own n Good w₀) Task.recvLoop

/-- The operations on streams, and the end of a socket. -/
def Writing (n : Nat) : ObjOp kind.object → Prop
  | .io (.inl _) => True
  | .member f => f = fun m => (m, [.close (.remote n)])
  | _ => False

/-- In `v` the others are there. -/
structure Among (n : Nat) (Good : List (Bytes × Bool) → Prop) (X : World kind.object → Prop)
    (w₀ w v : World kind.object) : Prop where
  own : Own n Good w₀ w
  kept : X v
  same : writes (K := kind) (Fd.remote n) v.trace = writes (K := kind) (Fd.remote n) w.trace

section Among

variable {Good : List (Bytes × Bool) → Prop} {X : World kind.object → Prop}
  {w₀ v v' : World kind.object}

/-- What the others do, and the table. -/
theorem Among.aside (hX : ∀ v v', X v → Aside (some n) v v' → X v') (h : Among n Good X w₀ w v)
    (haside : Aside none v v') : Among n Good X w₀ w v' :=
  ⟨h.own, hX v v' h.kept haside.but, (haside.writes n nofun).trans h.same⟩

/-- What is `X` meanwhile has to survive what is not written to the socket, and to say enough of
    the others for a route to exist. -/
theorem views_among (hX : ∀ v v', X v → Aside (some n) v v' → X v')
    (hroutes : ∀ v, X v → Good (writes (K := kind) (Fd.remote n) v.trace) →
      ∃ routes, Routes cfg routes v.trace) :
    Views tracking (own n Good w₀) (contract cfg) .recvLoop (Writing n) (Among n Good X w₀) where
  rely w v v' h hr := h.aside hX (rely_recvLoop hr)
  parked o w v ho _ := by
    rintro - ⟨size, rfl⟩
    exact ho.elim
  entry f s w v hf h := by
    have haside : Aside none v (v.call fun m => (f m, [])) := by
      rcases hf with rfl | rfl
      · exact aside_call (keepsSessions_setPending s true _).1 (keepsSessions_setPending s true _).2
      · exact aside_call (keepsSessions_setPending s false _).1 (keepsSessions_setPending s false _).2
    have hnext := h.aside hX haside
    exact ⟨hroutes _ hnext.kept (hnext.same.symm ▸ hnext.own.good), hnext⟩
  member f w v hf h hok := by
    obtain rfl := hf
    have haside : Aside none v (v.call fun m => (m, [.close (.remote n)])) :=
      aside_call (.of_eq rfl rfl rfl rfl) fun _ => rfl
    have hsame := writes_call (K := kind) (Fd.remote n) w fun m => (m, [.close (.remote n)])
    have hnext := h.aside hX haside
    refine ⟨⟨?_, trivial⟩, fun hown => ?_⟩
    · show Sticky _ _
      rw [Sticky, hsame, ← hnext.same]
      exact hok.1 n
    · have hnext : Among n Good X w₀ (w.call fun m => (m, [.close (.remote n)])) _ :=
        ⟨hown.2, hnext.kept, hnext.same.trans hsame.symm⟩
      exact ⟨hroutes _ hnext.kept (hnext.same.symm ▸ hown.2.good), hnext⟩
  io o r w v ho h hok := by
    have hsame : writes (K := kind) (Fd.remote n) (v.answer o r).trace =
        writes (K := kind) (Fd.remote n) (w.answer o r).trace := by
      simp [h.same]
    refine ⟨⟨?_, trivial⟩, fun hown => ?_⟩
    · show Sticky _ _
      rw [Sticky, ← hsame]
      exact hok.1 n
    · have haside : Aside (some n) v (v.answer o r) := by
        refine aside_push (asks_eq_none (fun size ho' => ?_) r) fun m hm => ?_
        · subst ho'
          exact ho.elim
        · -- it is not written in the world of its own
          have hm : m ≠ n := fun h => hm (h ▸ rfl)
          have hothers := (hown.2.others m hm).trans (h.own.others m hm).symm
          simpa [writes] using hothers
      have hnext : Among n Good X w₀ (w.answer o r) (v.answer o r) :=
        ⟨hown.2, hX _ _ h.kept haside, hsame⟩
      exact ⟨hroutes _ hnext.kept (hsame ▸ hown.2.good), hnext⟩
  get h := h
  spawn _ h := h

end Among

/-! ## A new session -/

/-- `createSession` is at work for `d` on the socket `n`. -/
structure Connecting (cfg : VlessClientConfig) (routes : List (Nat × Datagram)) (d : Datagram) (n : Nat)
    (w : World kind.object) : Prop where
  books : Books cfg routes (some n) w
  asked : asked w.trace = routes.map Prod.snd ++ [d]
  unrouted : routed n routes = []
  unmade : (w.mem.session n).stream = none

/-- The session `n` is the one for `d`. -/
structure Found (cfg : VlessClientConfig) (d : Datagram) (n : Nat) (w : World kind.object) : Prop where
  asking : Asking cfg d w
  stream : (w.mem.session n).stream ≠ none
  label : w.mem.label n = d.1

theorem Connecting.aside (h : Connecting cfg routes d n w) (haside : Aside (some n) w w') :
    Connecting cfg routes d n w' where
  books := haside.books h.books
  asked := haside.asked.trans h.asked
  unrouted := h.unrouted
  unmade := (haside.stream n).trans h.unmade

theorem Found.aside (h : Found cfg d n w) (haside : Aside none w w') : Found cfg d n w' where
  asking := h.asking.aside haside
  stream := (haside.stream n).symm ▸ h.stream
  label := (haside.untouched.label n).trans h.label

/-- The connection attempt is all that `n` was for. -/
theorem Connecting.unserved (h : Connecting cfg routes d n w)
    (hwrote : VlessClient.Beginning cfg (vlessRequest d.1) (wroteTo (K := kind) (Fd.remote n) w.trace)) :
    Unserved cfg routes n w.trace := by
  rw [Unserved, h.unrouted]
  exact ⟨Nat.zero_le _, d.1, allFor_nil _, hwrote⟩

theorem Connecting.guar (h : Connecting cfg routes d n w)
    (hwrote : VlessClient.Beginning cfg (vlessRequest d.1) (wroteTo (K := kind) (Fd.remote n) w.trace)) :
    Routes cfg routes w.trace where
  datagrams := h.asked ▸ List.prefix_append _ _
  latest := by simp [h.asked]
  sockets m := by
    by_cases hm : n = m
    · subst hm
      exact (h.unserved hwrote).begun
    · exact h.books.begun m fun h => hm (Option.some.inj h)
  sized := h.books.sized

/-- The attempt failed, and `d` is lost. -/
theorem Connecting.resting (h : Connecting cfg routes d n w)
    (hwrote : VlessClient.Beginning cfg (vlessRequest d.1) (wroteTo (K := kind) (Fd.remote n) w.trace)) :
    Resting cfg w := by
  refine ⟨routes ++ [(n, d)], ?_, by simp [h.asked]⟩
  refine (h.books.route (.inr rfl) (h.books.made n rfl) d).settle (fun st hst => ?_) fun _ => ?_
  · rw [h.unmade] at hst
    cases hst
  · rw [Unserved, routed_self, h.unrouted]
    exact ⟨Nat.le_refl _, d.1, (allFor_nil _).append rfl, hwrote⟩

theorem connecting_nextSocket (hbooks : Books cfg routes none w)
    (hasked : asked w.trace = routes.map Prod.snd ++ [d]) :
    Connecting cfg routes d w.mem.nextRemote (w.call fun m => (m.nextSocket.2, [])) ∧
      writes (K := kind) (Fd.remote w.mem.nextRemote) (w.call fun m => (m.nextSocket.2, [])).trace = [] := by
  obtain ⟨hwrites, hrouted, hstream⟩ := hbooks.fresh _ (Nat.le_refl _)
  have hsame : ∀ n, writes (K := kind) (Fd.remote n) (w.call fun m => (m.nextSocket.2, [])).trace =
      writes (K := kind) (Fd.remote n) w.trace := fun n => writes_call _ w _
  have hsame' : Socks5UdpRelay.asked (w.call fun m => (m.nextSocket.2, [])).trace =
      Socks5UdpRelay.asked w.trace := by simp [Socks5UdpRelay.asked, World.call_trace]
  refine ⟨⟨⟨?_, fun n hn => ?_, fun n st _ hst => ?_, fun n _ hst => ?_, hbooks.found, ?_⟩, ?_, hrouted,
    hstream⟩, (hsame _).trans hwrites⟩
  · intro n hn
    obtain rfl := Option.some.inj hn
    exact Nat.lt_succ_self _
  · obtain ⟨hwrites, hrest⟩ := hbooks.fresh n (Nat.le_of_succ_le hn)
    exact ⟨(hsame n).trans hwrites, hrest⟩
  · obtain ⟨hfd, hserved⟩ := hbooks.served n st (by simp) hst
    exact ⟨hfd, hserved.congr (hsame n)⟩
  · exact (hbooks.unserved n (by simp) hst).congr (hsame n)
  · rw [hsame']
    exact hbooks.sized
  · exact hsame'.trans hasked

/-- The beginnings of the request for `d`. -/
def Beginnings (cfg : VlessClientConfig) (d : Datagram) (ws : List (Bytes × Bool)) : Prop :=
  VlessClient.Beginning cfg (vlessRequest d.1) (ws.flatMap Prod.fst)

theorem opens_own (cfg : VlessClientConfig) (d : Datagram) (n : Nat) (w₀ : World kind.object) :
    VlessClient.Opens (own n (Beginnings cfg d) w₀) Task.recvLoop (Fd.remote n)
      (VlessClient.Beginning cfg (vlessRequest d.1)) (Own n (Beginnings cfg d) w₀) where
  alone _ _ _ := lone_rely
  parked _ _ _ := trivial
  guar _ _ _ h := ⟨rfl, h⟩
  push w e h _ hwrote hgood := by
    refine ⟨hgood, fun m hm => ?_⟩
    have hnone : wrote (K := kind) (Fd.remote m) e = none := by
      refine hwrote _ fun h => hm ?_
      cases h
      rfl
    rw [← h.others m hm]
    simp [writes, hnone]
  close w h := by
    refine ⟨?_, fun m hm => ?_⟩
    · rw [writes_call]
      exact h.good
    · rw [writes_call]
      exact h.others m hm

/-- The handshake of a session, among the others. -/
theorem wp_handshake (hw : Connecting cfg routes d n w)
    (hnone : writes (K := kind) (Fd.remote n) w.trace = []) :
    wp (contract cfg) .recvLoop (tracking.tracked
      (VlessClient.vlessConnectAndHandshake (K := kind) (.remote n) cfg (vlessRequest d.1)))
      (Ends (fun res w' => Connecting cfg routes d n w' ∧
        VlessClient.Beginning cfg (vlessRequest d.1) (wroteTo (K := kind) (Fd.remote n) w'.trace) ∧
        ∀ stream remaining, res = some (stream, remaining) → stream.fd = Fd.remote n ∧ ∃ header,
          Encoder.encodeRequest (cfg.request (vlessRequest d.1)) = .ok header ∧
            Wrote (K := kind) (Fd.remote n) header w'.trace) fun _ => True) w := by
  let w₀ : World kind.object := ⟨{}, []⟩
  have hown : Own n (Beginnings cfg d) w₀ w₀ := ⟨.inl rfl, fun _ _ => rfl⟩
  have halone := VlessClient.wp_vlessConnectAndHandshake cfg (vlessRequest d.1)
    (opens_own cfg d n w₀) ⟨hown, rfl, rfl⟩
  have honly : Only (Writing n)
      (VlessClient.vlessConnectAndHandshake (K := kind) (.remote n) cfg (vlessRequest d.1)) :=
    VlessClient.only_vlessConnectAndHandshake (P := Writing n) _ _ (fun _ _ => trivial) rfl _
  have hviews : Views tracking (own n (Beginnings cfg d) w₀) (contract cfg) .recvLoop (Writing n)
      (Among n (Beginnings cfg d) (Connecting cfg routes d n) w₀) :=
    views_among (fun _ _ h => h.aside) fun _ h hgood => ⟨routes, h.guar hgood⟩
  refine wp_mono (hviews.wp_tracked honly halone ⟨hown, hw, hnone⟩) ?_
  rintro r v ⟨w', hamong, hr⟩
  cases r with
  | error e => trivial
  | ok res =>
      have hbeginning : Beginnings cfg d (writes (K := kind) (Fd.remote n) v.trace) :=
        hamong.same.symm ▸ hamong.own.good
      refine ⟨hamong.kept, hbeginning, fun stream remaining hres => ?_⟩
      obtain ⟨hfd, hexchanged⟩ := hr.2 stream remaining hres
      obtain ⟨header, hencode, hwrote⟩ := hexchanged.sent
      refine ⟨hfd, header, hencode, ?_⟩
      rw [Wrote, WriteFailed, wroteTo, hamong.same]
      exact hwrote

/-- The session is made: it has got the request. -/
theorem Connecting.setSession (h : Connecting cfg routes d n w) {stream : NetStream Fd}
    (hstream : stream.fd = .remote n)
    (hencode : Encoder.encodeRequest (cfg.request (vlessRequest d.1)) = .ok header)
    (hwrote : Wrote (K := kind) (Fd.remote n) header w.trace) :
    Found cfg d n (w.call fun m => (m.setSession n
      { remoteFd := some (.remote n), stream := some stream, dest := d.1.1, port := d.1.2,
        alive := true }, [])) := by
  let session : Session :=
    { remoteFd := some (.remote n), stream := some stream, dest := d.1.1, port := d.1.2, alive := true }
  let w' := w.call fun m => (m.setSession n session, [])
  have hself : w'.mem.session n = session := by simp [w', World.call, Mem.setSession]
  have hother : ∀ m, m ≠ n → w'.mem.session m = w.mem.session m :=
    fun m hm => by simp [w', World.call, Mem.setSession, hm]
  have hlabel : ∀ m, m ≠ n → w'.mem.label m = w.mem.label m :=
    fun m hm => by rw [Mem.label, Mem.label, hother m hm]
  have hwrites : ∀ m, writes (K := kind) (Fd.remote m) w'.trace = writes (K := kind) (Fd.remote m) w.trace :=
    fun m => writes_call _ w _
  have hasked : Socks5UdpRelay.asked w'.trace = Socks5UdpRelay.asked w.trace := by
    simp [w', Socks5UdpRelay.asked, World.call_trace]
  have hbooks : Books cfg routes (some n) w' := by
    refine ⟨h.books.made, fun m hm => ?_, fun m st hm hst => ?_, fun m hm hst => ?_, fun key m hmem => ?_,
      hasked.symm ▸ h.books.sized⟩
    · have hlt := h.books.made n rfl
      have hle : w.mem.nextRemote ≤ m := hm
      rw [hwrites, hother m (by omega)]
      exact h.books.fresh m hm
    · have hne : m ≠ n := fun h => hm (h ▸ rfl)
      rw [hother m hne] at hst
      obtain ⟨hfd, hserved⟩ := h.books.served m st hm hst
      exact ⟨hfd, hlabel m hne ▸ hserved.congr (hwrites m)⟩
    · have hne : m ≠ n := fun h => hm (h ▸ rfl)
      rw [hother m hne] at hst
      exact (h.books.unserved m hm hst).congr (hwrites m)
    · obtain ⟨hmade, hkey⟩ := h.books.found key m hmem
      have hne : m ≠ n := by
        rintro rfl
        exact hmade h.unmade
      rw [hother m hne, hlabel m hne]
      exact ⟨hmade, hkey⟩
  have hd : w'.mem.label n = d.1 := by rw [Mem.label, hself]
  refine ⟨⟨routes, hbooks.settle (fun st hst => ?_) fun hst => ?_, ?_⟩, ?_, hd⟩
  · rw [hself] at hst
    obtain rfl := Option.some.inj hst
    refine ⟨hstream, ?_⟩
    rw [hd, Served, h.unrouted]
    refine ⟨allFor_nil _, header, hencode, ?_⟩
    rw [line, List.map_nil, frames_nil, List.append_nil, Wrote, WriteFailed, wroteTo, hwrites]
    exact hwrote
  · rw [hself] at hst
    cases hst
  · exact hasked.trans h.asked
  · show (w'.mem.session n).stream ≠ none
    rw [hself]
    exact Option.some_ne_none stream

theorem Found.addSession (h : Found cfg d n w) :
    Found cfg d n (w.call fun m => (m.addSession d.1 n, [])) := by
  obtain ⟨⟨routes, hbooks, hasked⟩, hstream, hlabel⟩ := h
  have hwrites : ∀ m, writes (K := kind) (Fd.remote m) (w.call fun m => (m.addSession d.1 n, [])).trace =
      writes (K := kind) (Fd.remote m) w.trace := fun m => writes_call _ w _
  have hsame : Socks5UdpRelay.asked (w.call fun m => (m.addSession d.1 n, [])).trace =
      Socks5UdpRelay.asked w.trace := by simp [Socks5UdpRelay.asked, World.call_trace]
  refine ⟨⟨routes, ⟨by simp, fun m hm => ?_, fun m st hm hst => ?_, fun m hm hst => ?_, fun key m hmem => ?_,
    hsame.symm ▸ hbooks.sized⟩, hsame.trans hasked⟩, hstream, hlabel⟩
  · rw [hwrites]
    exact hbooks.fresh m hm
  · obtain ⟨hfd, hserved⟩ := hbooks.served m st hm hst
    exact ⟨hfd, hserved.congr (hwrites m)⟩
  · exact (hbooks.unserved m hm hst).congr (hwrites m)
  · rcases List.mem_cons.1 hmem with hnew | hold
    · obtain ⟨rfl, rfl⟩ := Prod.mk.inj hnew
      exact ⟨hstream, hlabel⟩
    · exact hbooks.found key m (List.mem_of_mem_filter hold)

/-- The session is made, its task started, and then it is stored. -/
theorem wp_storeSession (hw : Connecting cfg routes d n w) {stream : NetStream Fd}
    (hstream : stream.fd = .remote n)
    (hencode : Encoder.encodeRequest (cfg.request (vlessRequest d.1)) = .ok header)
    (hwrote : Wrote (K := kind) (Fd.remote n) header w.trace) :
    wp (contract cfg) .recvLoop (tracking.tracked (do
      modify (Mem.setSession n
        { remoteFd := some (.remote n), stream := some stream, dest := d.1.1, port := d.1.2,
          alive := true })
      Prog.spawn (O := kind.object) (Task.outTask n)
      modify (Mem.addSession d.1 n)
      return some n)) (Returns fun res w' => res = some n ∧ Found cfg d n w') w := by
  have hmade := hw.setSession hstream hencode hwrote
  rw [Tracking.tracked_bind]
  refine wp_member_seq (O := kind.object) fun _ => ⟨hmade.asking.guar, ?_⟩
  rw [Tracking.tracked_bind]
  refine wp_bind (wp_spawn (O := kind.object) fun _ => ?_)
  have hstarted := hmade.aside (aside_push (e := .spawned (Task.outTask n)) rfl fun _ _ => rfl)
  refine ⟨hstarted.asking.guar, trivial, fun w' hl => ?_⟩
  have hlater : Found cfg d n w' := by
    induction hl with
    | refl => exact hstarted
    | tail _ hr ih => exact ih.aside (rely_recvLoop hr)
  have hadded := hlater.addSession
  show wp (contract cfg) .recvLoop (tracking.tracked (modify (Mem.addSession d.1 n) >>= fun _ =>
    pure (some n))) _ w'
  rw [Tracking.tracked_bind]
  exact wp_member_seq (O := kind.object) fun _ => ⟨hadded.asking.guar, rfl, hadded⟩

/-- What there is after a session was asked for. -/
def Answered (cfg : VlessClientConfig) (d : Datagram) (res : Option Nat) (w : World kind.object) : Prop :=
  (res = none → Resting cfg w) ∧ ∀ n, res = some n → Found cfg d n w

theorem wp_createSession (hw : Asking cfg d w) :
    wp (contract cfg) .recvLoop (tracking.tracked (createSession cfg d.1.1 d.1.2))
      (Ends (Answered cfg d) fun _ => True) w := by
  obtain ⟨routes, hbooks, hasked⟩ := hw
  obtain ⟨hconnecting, hnone⟩ := connecting_nextSocket hbooks hasked
  unfold createSession
  rw [Tracking.tracked_bind]
  refine wp_update_seq (O := kind.object) (f := Mem.nextSocket) fun _ => ⟨?_, ?_⟩
  · refine ⟨routes, hconnecting.guar (.inl ?_)⟩
    rw [wroteTo, hnone]
    rfl
  show wp (contract cfg) .recvLoop (tracking.tracked (VlessClient.vlessConnectAndHandshake (K := kind)
    (.remote w.mem.nextRemote) cfg (vlessRequest d.1) >>= _)) _ _
  rw [Tracking.tracked_bind]
  refine wp_seq (wp_handshake hconnecting hnone) (fun res w' hw' => ?_) fun _ _ _ => trivial
  obtain ⟨hconnecting, hbeginning, hdone⟩ := hw'
  cases res with
  | none =>
      obtain ⟨routes', hbooks', hasked'⟩ := hconnecting.resting hbeginning
      have hresting : Resting cfg (w'.call fun m => ({ m with connecting := none }, [])) := by
        refine ⟨routes', hbooks'.call rfl rfl rfl, hasked'.trans ?_⟩
        simp [asked, World.call_trace]
      exact wp_member_seq (O := kind.object) (f := fun m => ({ m with connecting := none }, []))
        fun _ => ⟨hresting.guar, fun _ => hresting, by simp⟩
  | some made =>
      obtain ⟨stream, remaining⟩ := made
      obtain ⟨hfd, header, hencode, hwrote⟩ := hdone stream remaining rfl
      refine wp_returns (wp_storeSession hconnecting hfd hencode hwrote) ?_
      rintro _ w'' ⟨rfl, hfound⟩
      refine ⟨by simp, fun n hn => ?_⟩
      obtain rfl := Option.some.inj hn
      exact hfound

theorem wp_getOrCreateSession (hw : Asking cfg d w) :
    wp (contract cfg) .recvLoop (tracking.tracked (getOrCreateSession cfg d.1.1 d.1.2))
      (Ends (Answered cfg d) fun _ => True) w := by
  refine Tracking.wp_tracked_get (T := tracking) ?_
  cases hfind : w.mem.findSession (d.1.1, d.1.2) with
  | none => exact wp_createSession hw
  | some n =>
      dsimp only
      split
      · refine ⟨nofun, fun k hk => ?_⟩
        obtain rfl := Option.some.inj hk
        obtain ⟨routes, hbooks, -⟩ := id hw
        obtain ⟨before, after, hsessions, -⟩ := List.lookup_eq_some_iff.1 hfind
        obtain ⟨hstream, hlabel⟩ := hbooks.found (d.1.1, d.1.2) n (by rw [hsessions]; simp)
        exact ⟨hw, hstream, hlabel⟩
      · exact wp_createSession hw

/-! ## A datagram for a session -/

/-- `recvLoop` writes `d` to the session `n`, which has the stream `stream`. -/
structure Forwarding (cfg : VlessClientConfig) (routes : List (Nat × Datagram)) (d : Datagram) (n : Nat)
    (stream : NetStream Fd) (w : World kind.object) : Prop where
  books : Books cfg (routes ++ [(n, d)]) (some n) w
  asked : asked w.trace = (routes ++ [(n, d)]).map Prod.snd
  stream : (w.mem.session n).stream = some stream
  label : w.mem.label n = d.1

theorem Forwarding.aside {stream : NetStream Fd} (h : Forwarding cfg routes d n stream w)
    (haside : Aside (some n) w w') : Forwarding cfg routes d n stream w' where
  books := haside.books h.books
  asked := haside.asked.trans h.asked
  stream := (haside.stream n).trans h.stream
  label := (haside.untouched.label n).trans h.label

/-- What is to be written is known from the session. -/
structure Line (cfg : VlessClientConfig) (routes : List (Nat × Datagram)) (d : Datagram) (n : Nat)
    (header : Bytes) : Prop where
  all : AllFor d.1 (routed n routes)
  encode : Encoder.encodeRequest (cfg.request (vlessRequest d.1)) = .ok header

/-- The bytes for the socket `n`, with those of `d`. -/
def lineWith (routes : List (Nat × Datagram)) (d : Datagram) (n : Nat) (header : Bytes) : Bytes :=
  line header (routed n (routes ++ [(n, d)]))

theorem lineWith_eq (routes : List (Nat × Datagram)) (d : Datagram) (n : Nat) (header : Bytes) :
    lineWith routes d n header = line header (routed n routes) ++ frame d.2 := by
  rw [lineWith, routed_self, line_append]

theorem Line.served (h : Line cfg routes d n header) {tr : List (Event kind.object)}
    (hwrote : Wrote (K := kind) (Fd.remote n) (lineWith routes d n header) tr) :
    Served cfg (routes ++ [(n, d)]) n tr d.1 := by
  refine ⟨?_, header, h.encode, hwrote⟩
  rw [routed_self]
  exact h.all.append rfl

theorem Line.begun (h : Line cfg routes d n header) {tr : List (Event kind.object)}
    (hwrote : wroteTo (K := kind) (Fd.remote n) tr <+: lineWith routes d n header) :
    Begun cfg (routes ++ [(n, d)]) n tr := by
  refine ⟨d.1, ?_, .inr ⟨header, h.encode, hwrote⟩⟩
  rw [routed_self]
  exact h.all.append rfl

theorem Forwarding.guar {stream : NetStream Fd} (h : Forwarding cfg routes d n stream w)
    (hline : Line cfg routes d n header)
    (hwrote : wroteTo (K := kind) (Fd.remote n) w.trace <+: lineWith routes d n header) :
    Routes cfg (routes ++ [(n, d)]) w.trace where
  datagrams := h.asked ▸ List.prefix_rfl
  latest := by
    rw [h.asked, List.length_map]
    omega
  sockets m := by
    by_cases hm : n = m
    · subst hm
      exact hline.begun hwrote
    · exact h.books.begun m fun h => hm (Option.some.inj h)
  sized := h.books.sized

theorem Forwarding.resting {stream : NetStream Fd} (h : Forwarding cfg routes d n stream w)
    (hfd : stream.fd = .remote n) (hline : Line cfg routes d n header)
    (hwrote : Wrote (K := kind) (Fd.remote n) (lineWith routes d n header) w.trace) : Resting cfg w := by
  refine ⟨routes ++ [(n, d)], h.books.settle (fun st hst => ?_) fun hst => ?_, h.asked.symm⟩
  · rw [h.stream] at hst
    obtain rfl := Option.some.inj hst
    exact ⟨hfd, h.label.symm ▸ hline.served hwrote⟩
  · rw [h.stream] at hst
    cases hst

/-- The session of `d` has got the datagrams before it. -/
theorem Found.forwarding (h : Found cfg d n w) : ∃ routes stream header,
    stream.fd = Fd.remote n ∧ (w.mem.session n).stream = some stream ∧ Line cfg routes d n header ∧
      Forwarding cfg routes d n stream w ∧
      Wrote (K := kind) (Fd.remote n) (line header (routed n routes)) w.trace := by
  obtain ⟨⟨routes, hbooks, hasked⟩, hmade, hlabel⟩ := h
  obtain ⟨stream, hstream⟩ := Option.ne_none_iff_exists'.1 hmade
  obtain ⟨hfd, hall, header, hencode, hwrote⟩ := hbooks.served n stream nofun hstream
  rw [hlabel] at hall hencode
  refine ⟨routes, stream, header, hfd, hstream, ⟨hall, hencode⟩, ⟨?_, ?_, hstream, hlabel⟩, hwrote⟩
  · exact hbooks.route (.inl rfl) (hbooks.made_of_stream hmade) d
  · rw [hasked, List.map_append]
    rfl

/-- `rest` is still to be written of `bytes`, unless a write failed. -/
def Pending (n : Nat) (bytes rest : Bytes) (tr : List (Event kind.object)) : Prop :=
  wroteTo (K := kind) (Fd.remote n) tr ++ rest = bytes ∨
    WriteFailed (K := kind) (Fd.remote n) tr ∧ wroteTo (K := kind) (Fd.remote n) tr <+: bytes

theorem Pending.write {bytes out rest : Bytes} {failed : Bool} {tr : List (Event kind.object)}
    {e : Event kind.object} (h : Pending n bytes (out ++ rest) tr)
    (hsticky : Sticky (K := kind) (Fd.remote n) (tr ++ [e]))
    (hwrote : wrote (K := kind) (Fd.remote n) e = some (out, failed)) :
    if failed then Wrote (K := kind) (Fd.remote n) bytes (tr ++ [e])
    else Pending n bytes rest (tr ++ [e]) := by
  rcases h with hout | ⟨hfailed, hout⟩
  · have hnext : wroteTo (K := kind) (Fd.remote n) (tr ++ [e]) ++ rest = bytes := by
      rw [wroteTo_append, wroteTo_single hwrote, List.append_assoc]
      exact hout
    cases failed with
    | false => exact .inl hnext
    | true =>
        refine .inr ⟨?_, rest, hnext⟩
        exact (writeFailed_append _ _ _).2 (.inr ((writeFailed_single hwrote).2 rfl))
  · -- the write fails like the one before
    obtain ⟨rfl, rfl⟩ : out = [] ∧ failed = true := by simpa using hsticky.next hwrote hfailed
    refine .inr ⟨(writeFailed_append _ _ _).2 (.inl hfailed), ?_⟩
    rwa [wroteTo_append, wroteTo_single hwrote, List.append_nil]

theorem Pending.prefix_line {bytes rest : Bytes} {tr : List (Event kind.object)}
    (h : Pending n bytes rest tr) : wroteTo (K := kind) (Fd.remote n) tr <+: bytes := by
  rcases h with hout | ⟨-, hout⟩
  · exact ⟨rest, hout⟩
  · exact hout

/-- What goes out is part of the line. -/
def Within (bytes : Bytes) (ws : List (Bytes × Bool)) : Prop := ws.flatMap Prod.fst <+: bytes

theorem Own.write {bytes : Bytes} {w₀ : World kind.object} {e : Event kind.object} {out : Bytes}
    {failed : Bool} (h : Own n (Within bytes) w₀ w) (he : IsWrite (K := kind) (Fd.remote n) out failed e)
    (hwithin : wroteTo (K := kind) (Fd.remote n) (w.push e).trace <+: bytes) :
    Own n (Within bytes) w₀ (w.push e) where
  good := hwithin
  others m hm := by
    have hnone := he.wrote_other (.remote m) fun h => hm (by cases h; rfl)
    rw [← h.others m hm]
    simp [writes, hnone]

/-- The frame of `d`, written by `recvLoop` alone. -/
theorem wp_writeOwn {stream : NetStream Fd} {bytes : Bytes} {w₀ : World kind.object}
    (hfd : stream.fd = .remote n) (hown : Own n (Within bytes) w₀ w)
    (hpending : Pending n bytes (frame d.2) w.trace) :
    wp (own n (Within bytes) w₀) .recvLoop (stream.writeFull (K := kind) (frame d.2))
      (Returns fun _ w' => Wrote (K := kind) (Fd.remote n) bytes w'.trace) w := by
  have hframe : frame d.2 ≠ [] := by
    intro h
    have hlength := congrArg List.length h
    rw [frame_length] at hlength
    exact absurd hlength (by simp)
  refine wp_returns (stream.wp_writeFull (K := kind)
    (P := fun rest w => Own n (Within bytes) w₀ w ∧ Pending n bytes rest w.trace)
    (F := fun w => Wrote (K := kind) (Fd.remote n) bytes w.trace) (fun _ => ?_) ?_ hframe
    ⟨hown, hpending⟩) ?_
  · exact ⟨fun _ _ _ hr => absurd hr lone_rely, fun _ _ _ _ => trivial⟩
  · intro w e out rest failed ⟨hown, hpending⟩ he henv
    rw [hfd] at he
    have hnext := hpending.write henv he.wrote_self
    have hwithin : wroteTo (K := kind) (Fd.remote n) (w.push e).trace <+: bytes := by
      cases failed with
      | false => exact Pending.prefix_line hnext
      | true => exact Wrote.written hnext
    have hown := hown.write he hwithin
    refine ⟨⟨rfl, hown⟩, ?_⟩
    cases failed with
    | false => exact ⟨hown, hnext⟩
    | true => exact hnext
  · intro written w' hw'
    have hdone : Pending n bytes [] w'.trace → Wrote (K := kind) (Fd.remote n) bytes w'.trace :=
      Or.imp (fun h => by rwa [List.append_nil] at h) id
    rcases hw' with ⟨-, hw' | hw'⟩ | ⟨-, hw'⟩
    · exact hdone hw'.2
    · exact hw'
    · exact hw'

theorem wp_writeFrame {stream : NetStream Fd} (hfd : stream.fd = .remote n)
    (hline : Line cfg routes d n header)
    (hwrote : Wrote (K := kind) (Fd.remote n) (line header (routed n routes)) w.trace)
    (hw : Forwarding cfg routes d n stream w) :
    wp (contract cfg) .recvLoop (tracking.tracked (stream.writeFull (K := kind) (frame d.2)))
      (Returns fun _ => Resting cfg) w := by
  have hpending : Pending n (lineWith routes d n header) (frame d.2) w.trace := by
    rw [lineWith_eq]
    rcases hwrote with hwrote | ⟨hfailed, hwrote⟩
    · exact .inl (by rw [hwrote])
    · exact .inr ⟨hfailed, hwrote.trans (List.prefix_append _ _)⟩
  have hown : Own n (Within (lineWith routes d n header)) w w := ⟨hpending.prefix_line, fun _ _ => rfl⟩
  have honly : Only (Writing n) (stream.writeFull (K := kind) (frame d.2)) :=
    stream.only_writeFull (K := kind) _ fun _ _ => trivial
  have hviews : Views tracking (own n (Within (lineWith routes d n header)) w) (contract cfg) .recvLoop
      (Writing n) (Among n (Within (lineWith routes d n header)) (Forwarding cfg routes d n stream) w) :=
    views_among (fun _ _ h => h.aside) fun _ h hgood => ⟨_, h.guar hline hgood⟩
  refine wp_mono (hviews.wp_tracked honly (wp_writeOwn hfd hown hpending) ⟨hown, hw, rfl⟩) ?_
  rintro r v ⟨w', hamong, hr⟩
  cases r with
  | error e => exact hr.elim
  | ok written =>
      refine hamong.kept.resting hfd hline ?_
      rw [Wrote, WriteFailed, wroteTo, hamong.same]
      exact hr

theorem wp_forward (hw : Found cfg d n w) :
    wp (contract cfg) .recvLoop (tracking.tracked (forward n d.2)) (fun _ => Resting cfg) w := by
  obtain ⟨routes, stream, header, hfd, hstream, hline, hforwarding, hwrote⟩ := hw.forwarding
  let mark : Mem → Option Nat := fun m => if (m.session n).remoteFd.isSome then none else some n
  have hstale : ∀ f : Mem → Option Nat, KeepsSessions fun m => ({ m with stale := f m }, []) :=
    fun f => keepsSessions_of_eq (fun _ => rfl) (fun _ => rfl) (fun _ => rfl) fun _ => rfl
  have haside : Aside none w (w.call fun m => ({ m with stale := mark m }, [])) :=
    aside_call (hstale mark w.mem).1 (hstale mark w.mem).2
  have hsame := writes_call (K := kind) (Fd.remote n) w fun m => ({ m with stale := mark m }, [])
  refine Tracking.wp_tracked_get (T := tracking) ?_
  dsimp only
  rw [hstream]
  dsimp only
  rw [Tracking.tracked_bind]
  refine wp_member_seq (O := kind.object) fun _ => ⟨(hw.aside haside).asking.guar, ?_⟩
  rw [Tracking.tracked_bind]
  refine wp_then (wp_writeFrame hfd hline ?_ (hforwarding.aside haside.but)) ?_
  · show Wrote (K := kind) _ _ (w.call fun m => ({ m with stale := mark m }, [])).trace
    rw [Wrote, WriteFailed, wroteTo, hsame]
    exact hwrote
  · intro written w hw
    refine wp_idle (fun _ _ => Resting.aside) (fun _ => Resting.guar) ?_ hw
    refine .bind (.await (hstale fun _ => none)) fun _ => ?_
    exact .ite (fun _ => .await (keepsSessions_closeSession n)) fun _ => trivial

/-! ## Every round -/

theorem Resting.later (hw : Resting cfg w) (hl : (contract cfg).Later Task.recvLoop w w') :
    Resting cfg w' := by
  induction hl with
  | refl => exact hw
  | tail _ hr ih => exact ih.aside (rely_recvLoop hr)

theorem wp_recvFrom {size : Nat} (hsize : size ≤ 65536) (hw : Resting cfg w) :
    wp (contract cfg) .recvLoop (tracking.tracked (awaitExt (.recvFrom size)))
      (Returns fun rr w' => (accepted rr.1.1 = none → Resting cfg w') ∧
        ∀ d, accepted rr.1.1 = some d → Asking cfg d w') w := by
  have hpending : ∀ (w : World kind.object) (b : Bool),
      Aside none w (w.call fun m => (m.setPending (.udp, .read) b, [])) :=
    fun w b => aside_call (keepsSessions_setPending _ b w.mem).1 (keepsSessions_setPending _ b w.mem).2
  refine Tracking.wp_tracked (T := tracking) (o := .inr (.recvFrom size)) (s := (.udp, .read)) rfl
    fun _ => ⟨(hw.aside (hpending w true)).guar, ?_⟩
  have hw := hw.aside (hpending w true)
  refine wp_await_ok (O := kind.object) (o := .inr (.recvFrom size)) rfl ?_ fun w₁ hl rr _ => ?_
  · obtain ⟨routes, hbooks, hasked⟩ := hw
    exact fun _ _ => ⟨routes, hbooks.settled hasked⟩
  have hw₁ := hw.later hl
  have hdisarm := hpending (w₁.answer (.inr (.recvFrom size)) rr) false
  cases haccepted : accepted rr.1.1 with
  | none =>
      have hnext : Resting cfg (w₁.answer (.inr (.recvFrom size)) rr) :=
        hw₁.aside (aside_push haccepted fun _ _ => rfl)
      refine ⟨hnext.guar, fun _ => ⟨(hnext.aside hdisarm).guar, fun _ => hnext.aside hdisarm, ?_⟩⟩
      exact fun d hd => absurd (hd.symm.trans haccepted) (Option.some_ne_none d)
  | some d =>
      have hnext : Asking cfg d (w₁.answer (.inr (.recvFrom size)) rr) := by
        obtain ⟨routes, hbooks, hasked⟩ := hw₁
        have hd : asks (.io (O := kind.object) (.inr (.recvFrom size)) rr) = some d := haccepted
        refine ⟨routes, hbooks.push (fun _ => rfl) fun d' hd' => ?_, ?_⟩
        · obtain rfl := Option.some.inj (hd.symm.trans hd')
          exact accepted_sized haccepted (rr.1.2.trans hsize)
        · simp [asked, hd, hasked]
      refine ⟨hnext.guar, fun _ => ⟨(hnext.aside hdisarm).guar, fun hd' => ?_, fun d' hd' => ?_⟩⟩
      · exact absurd (haccepted.symm.trans hd') (Option.some_ne_none d)
      · obtain rfl := Option.some.inj (haccepted.symm.trans hd')
        exact hnext.aside hdisarm

theorem wp_recvLoop (hw : Resting cfg w) :
    wp (contract cfg) .recvLoop (tracking.tracked (recvLoop cfg)) (fun _ _ => True) w := by
  have hstop : ∀ w, Resting cfg w → wp (contract cfg) .recvLoop (tracking.tracked (member stop))
      (fun _ _ => True) w := by
    intro w hw
    refine wp_mono (wp_idle (fun _ _ => Resting.aside) (fun _ => Resting.guar) ?_ hw) fun _ _ _ => trivial
    exact .await keepsSessions_stop
  unfold recvLoop
  rw [Tracking.tracked_bind]
  refine wp_seq (R := fun r w' => ∀ a, r = .ok a → Resting cfg w') ?_
    (fun _ w' hw' => hstop w' (hw' _ rfl)) fun _ _ _ => trivial
  rw [Tracking.tracked_loop]
  refine wp_loop (O := kind.object) (fun _ => Resting cfg) hw fun _ w hw => ?_
  show wp (contract cfg) .recvLoop (tracking.tracked (if w.mem.closed then _ else _)) _ w
  split
  · exact fun _ _ => hw
  · rw [Tracking.tracked_bind]
    refine wp_then (wp_recvFrom (Nat.le_refl _) hw) fun (rr, src) w ⟨hrest, hask⟩ => ?_
    dsimp only at hrest hask ⊢
    unfold accepted at hrest hask
    split
    · next herror => exact fun _ _ => hrest (if_pos herror)
    · next herror =>
        rw [if_neg herror] at hrest hask
        split
        · next hempty => exact hrest (if_pos hempty)
        · next hempty =>
            rw [if_neg hempty] at hrest hask
            cases hparse : Socks5.Parser.parseUdpDatagram rr.1.data with
            | none => exact hrest (by rw [hparse])
            | some x =>
                obtain ⟨dest, port, payload⟩ := x
                rw [hparse] at hrest hask
                dsimp only at hrest hask ⊢
                split
                · next hpayload => exact hrest (if_pos hpayload)
                · next hpayload =>
                    rw [if_neg hpayload] at hask
                    have hasking := hask ((dest, port), payload) rfl
                    rw [Tracking.tracked_bind]
                    refine wp_seq (wp_getOrCreateSession hasking) ?_ fun _ _ _ _ h => nomatch h
                    rintro (_ | n) w ⟨hlost, hfound⟩
                    · exact hlost rfl
                    · dsimp only
                      rw [Tracking.tracked_bind]
                      have hsrc : KeepsSessions fun m =>
                          (m.setSession n { m.session n with appSrc := src }, []) := fun m =>
                        ⟨untouched_setSession rfl rfl, stream_setSession m n { m.session n with appSrc := src } rfl⟩
                      have haside : Aside none w (w.call fun m =>
                          (m.setSession n { m.session n with appSrc := src }, [])) :=
                        aside_call (hsrc w.mem).1 (hsrc w.mem).2
                      have hfound := (hfound n rfl).aside haside
                      refine wp_member_seq (O := kind.object) fun _ => ⟨hfound.asking.guar, ?_⟩
                      rw [Tracking.tracked_bind]
                      have hforward := wp_forward (d := ((dest, port), payload)) hfound
                      exact wp_seq hforward (fun _ _ hw => hw) fun _ _ _ _ h => nomatch h

theorem meets (cfg : VlessClientConfig) (t : Task) (w : World kind.object)
    (hpre : (contract cfg).pre t w) (_ : (contract cfg).env w.trace) :
    wp (contract cfg) t (body cfg t) (fun _ => (contract cfg).post t) w := by
  cases t with
  | control => exact wp_control hpre.1 hpre.2
  | recvLoop => exact wp_recvLoop ⟨[], hpre.1, hpre.2.symm⟩
  | sendLoop => exact wp_other (t := .sendLoop) nofun only_idle_sendLoop
  | outTask n => exact wp_other (t := .outTask n) nofun (only_idle_outTask n)

theorem routes_start : Routes cfg [] [] :=
  ⟨List.prefix_rfl, Nat.zero_le _, fun _ => ⟨(.domain [], 0), allFor_nil _, .inl rfl⟩, nofun⟩

theorem guar_routes {t : Task} (hguar : (contract cfg).guar t w w')
    (hw : ∃ routes, Routes cfg routes w.trace) : ∃ routes, Routes cfg routes w'.trace := by
  obtain ⟨routes, hroutes⟩ := hw
  cases t with
  | recvLoop => exact hguar
  | control => exact ⟨routes, Aside.kept hguar hroutes⟩
  | sendLoop => exact ⟨routes, Aside.kept hguar hroutes⟩
  | outTask n => exact ⟨routes, Aside.kept hguar hroutes⟩

end UdpUplink

/-- Wherever a socket may have been written to. -/
theorem routes_of_written (cfg : VlessClientConfig) {p : Pool kind.object}
    (hp : Reachable (O := kind.object) (body cfg) Task.control {} p) {n : Nat} {w : World kind.object}
    (hw : Written (K := kind) (Fd.remote n) p w)
    (hsticky : ∀ m, Sticky (K := kind) (Fd.remote m) w.trace) : ∃ routes, Routes cfg routes w.trace := by
  have hpre : (UdpUplink.contract cfg).pre Task.control ⟨{}, []⟩ := ⟨rfl, rfl⟩
  exact hw.invariant UdpUplink.stable (UdpUplink.meets cfg) hpre
    (fun w => ∃ routes, Routes cfg routes w.trace) ⟨[], UdpUplink.routes_start⟩
    (fun _ _ _ hguar _ => UdpUplink.guar_routes hguar) hp hsticky

/-- A datagram to port 53 of `9.9.9.9`. -/
def sampleDatagram : Datagram := ((.ipv4 (List.Vector.replicate 4 9), 53), [9])

/-- The application sends it twice. -/
def twiceRun : Pool kind.object :=
  run (O := kind.object) (body { remoteHost := [104] }) Task.control {}
    (resolved (application [0, 0, 0, 1, 9, 9, 9, 9, 0, 53, 9] 11 fun _ => [[0, 0]])) 40
    (List.replicate 7 .recvLoop)

theorem twiceRun_reachable :
    Reachable (O := kind.object) (body { remoteHost := [104] }) Task.control {} twiceRun :=
  run_reachable (O := kind.object) _ _ _ _ _ _

theorem twiceRun_sticky (n : Nat) : Sticky (K := kind) (Fd.remote n) twiceRun.world.trace := by
  have hall : ∀ e ∈ twiceRun.world.trace, fails (K := kind) e = false := by decide +kernel
  exact sticky_of_succeeds (K := kind) hall (.remote n)

end Socks5UdpRelay

end Cppvless
