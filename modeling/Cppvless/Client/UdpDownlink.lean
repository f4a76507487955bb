import Cppvless.Client.Socks5UdpRelay
import Cppvless.Coroutine.Alone
import Cppvless.Net.Relay

set_option autoImplicit false

/-! # Datagrams from the VLESS server

`sessionOutTask` takes the frames of each read apart on its own and drops what is behind the last
whole one. Where a read ends within a frame, the rest of that frame is then taken for the start of
another. -/

namespace Cppvless

open Coroutine

namespace Socks5UdpRelay

namespace UdpDownlink

/-- The answer for the application: `header` and the payload, to where its datagrams came from. -/
def datagram (header : Bytes) (src : Option SockAddr) (payload : Bytes) : PendingDatagram :=
  ⟨header ++ payload, src⟩

/-- The datagrams of one read. -/
def payloads (data : Bytes) : List Bytes := (wholeFrames data).filter (· ≠ [])

/-- Nobody else is there. -/
abbrev alone (n : Nat) : Contract kind.object := lone (fun _ => True) (fun _ => True) (Task.outTask n)

/-- After the trace `tr` the datagrams `ds` have been put into the queue; nothing else has changed. -/
structure Queued (m : Mem) (header : Bytes) (n : Nat) (ds : List Bytes)
    (tr : List (Event kind.object)) (w : World kind.object) : Prop where
  trace : w.trace = tr
  closed : w.mem.closed = m.closed
  session : w.mem.session = m.session
  queue : w.mem.sendQueue = m.sendQueue ++ ds.map (datagram header (m.session n).appSrc)

variable {m : Mem} {header : Bytes} {n : Nat} {ds : List Bytes} {tr : List (Event kind.object)}
  {w : World kind.object}

theorem encodeUdpDatagram_append {dest : Address} {port : UInt16}
    (h : Socks5.Parser.encodeUdpDatagram dest port [] = .ok header) (payload : Bytes) :
    Socks5.Parser.encodeUdpDatagram dest port payload = .ok (header ++ payload) := by
  unfold Socks5.Parser.encodeUdpDatagram at h ⊢
  cases hout : Socks5.Parser.writeAddrPort [0, 0, 0] dest port with
  | error e =>
      rw [hout] at h
      cases h
  | ok out =>
      rw [hout] at h
      obtain rfl : out ++ [] = header := Except.ok.inj h
      rw [List.append_nil]
      rfl

theorem datagram_injective (src : Option SockAddr) : Function.Injective (datagram header src) := by
  intro payload payload' h
  exact List.append_cancel_left (PendingDatagram.mk.inj h).1

theorem wp_enqueueDatagram (hclosed : m.closed = false)
    (hdest : Socks5.Parser.encodeUdpDatagram (m.session n).dest (m.session n).port [] = .ok header)
    (payload : Bytes) (hw : Queued m header n ds tr w) :
    wp (alone n) (Task.outTask n) (enqueueDatagram n payload) (Returns fun _ w' =>
      Queued m header n (ds ++ [payload].filter (· ≠ [])) tr w') w := by
  refine wp_get_seq (O := kind.object) ?_
  rw [hw.closed, hclosed]
  by_cases hnil : payload = []
  · subst hnil
    have hsame : ds ++ [[]].filter (· ≠ []) = ds := by simp
    rw [← hsame] at hw
    exact hw
  · simp only [hnil, decide_false, Bool.or_false, Bool.false_eq_true, if_false]
    rw [hw.session, encodeUdpDatagram_append hdest payload]
    refine wp_member (O := kind.object) fun _ => ⟨⟨rfl, trivial⟩, ?_⟩
    refine ⟨?_, hw.closed, hw.session, ?_⟩
    · simpa using hw.trace
    · simp [Mem.enqueue, hw.queue, hnil, datagram]

/-- The loop over the frames of a read. -/
structure Taking (m : Mem) (header : Bytes) (n : Nat) (ds : List Bytes)
    (tr : List (Event kind.object)) (data : Bytes) (pos : Nat) (w : World kind.object) : Prop where
  done : ∃ ds', wholeFrames data = ds' ++ wholeFrames (data.drop pos) ∧
    Queued m header n (ds ++ ds'.filter (· ≠ [])) tr w
  pos : pos ≤ data.length

theorem getD_drop (data : Bytes) (pos i : Nat) : (data.drop pos).getD i 0 = data.getD (pos + i) 0 := by
  simp [List.getD_eq_getElem?_getD]

theorem incomplete_drop {data : Bytes} {pos : Nat} (hpos : pos ≤ data.length) :
    Incomplete (data.drop pos) ↔ data.length < pos + 2 ∨
      data.length < pos + 2 + (beUInt16 (data.getD pos 0) (data.getD (pos + 1) 0)).toNat := by
  unfold Incomplete
  rw [getD_drop, getD_drop, List.length_drop, Nat.add_zero]
  omega

theorem wp_enqueueFrames (hclosed : m.closed = false)
    (hdest : Socks5.Parser.encodeUdpDatagram (m.session n).dest (m.session n).port [] = .ok header)
    (data : Bytes) (hw : Queued m header n ds tr w) :
    wp (alone n) (Task.outTask n) (enqueueFrames n data) (Returns fun _ w' =>
      Queued m header n (ds ++ payloads data) tr w') w := by
  have hstart : Taking m header n ds tr data 0 w := ⟨⟨[], rfl, by simpa using hw⟩, Nat.zero_le _⟩
  refine wp_loop (Taking m header n ds tr data) hstart ?_
  intro pos w ⟨⟨ds', hsplit, hw⟩, hpos⟩
  have hiff := incomplete_drop hpos
  have hlast : Incomplete (data.drop pos) → Queued m header n (ds ++ payloads data) tr w := by
    intro hinc
    rw [wholeFrames_of_incomplete hinc, List.append_nil] at hsplit
    rw [payloads, hsplit]
    exact hw
  by_cases hlt : pos + 2 ≤ data.length
  · rw [if_pos hlt]
    by_cases hshort : data.length < pos + 2 + (beUInt16 (data.getD pos 0) (data.getD (pos + 1) 0)).toNat
    · simp only [hshort, if_true]
      exact hlast (hiff.2 (.inr hshort))
    · simp only [hshort, if_false]
      have hwhole : ¬ Incomplete (data.drop pos) := by
        rw [hiff]
        omega
      refine wp_then (wp_enqueueDatagram hclosed hdest _ hw) ?_
      intro _ w' hw'
      have hnext : wholeFrames (data.drop pos) =
          (data.drop (pos + 2)).take (beUInt16 (data.getD pos 0) (data.getD (pos + 1) 0)).toNat ::
            wholeFrames (data.drop
              (pos + 2 + (beUInt16 (data.getD pos 0) (data.getD (pos + 1) 0)).toNat)) := by
        rw [wholeFrames, if_neg hwhole]
        simp only [getD_drop, Nat.add_zero, List.drop_drop, Nat.add_assoc]
      rw [hnext, List.append_cons] at hsplit
      rw [List.append_assoc, ← List.filter_append] at hw'
      exact ⟨⟨_, hsplit, hw'⟩, by omega⟩
  · rw [if_neg hlt]
    exact hlast (hiff.2 (.inl (by omega)))

theorem payloads_nil : payloads [] = [] := by
  rw [payloads, wholeFrames_of_incomplete (.inl (show ([] : Bytes).length < 2 by decide))]
  rfl

/-- What the reads of `fd` brought. -/
def received (fd : Fd) (tr : List (Event kind.object)) : List Bytes :=
  (chunksFrom (K := kind) fd tr).flatMap payloads

theorem wp_readFrames {st : NetStream Fd} (hopen : openStream n m = some st) (hclosed : m.closed = false)
    (hdest : Socks5.Parser.encodeUdpDatagram (m.session n).dest (m.session n).port [] = .ok header)
    (hw : Queued m header n (received st.fd w.trace) w.trace w) :
    wp (alone n) (Task.outTask n) (readFrames n) (Returns fun _ w' =>
      Queued m header n (received st.fd w'.trace) w'.trace w') w := by
  refine wp_loop (fun _ w => Queued m header n (received st.fd w.trace) w.trace w) hw ?_
  intro _ w hw
  refine wp_get_seq (O := kind.object) ?_
  have hopen' : openStream n w.mem = some st := by
    unfold openStream at hopen ⊢
    rw [hw.closed, hw.session]
    exact hopen
  rw [hopen']
  have hread : wp (alone n) (Task.outTask n) (st.read (K := kind)) (Returns fun rr w' =>
      ∃ tr, w'.trace = tr ∧ received st.fd tr = received st.fd w.trace ++ payloads rr.data ∧
        Queued m header n (received st.fd w.trace) tr w') w := by
    refine st.wp_read (K := kind) _ (I := fun w' => w' = w)
      ⟨fun _ _ _ hr => absurd hr lone_rely, fun _ _ _ _ => trivial⟩ rfl ?_
    rintro _ e rr rfl he _ _
    refine ⟨⟨rfl, trivial⟩, _, rfl, ?_, rfl, hw.closed, hw.session, hw.queue⟩
    rw [World.push_trace, received, chunksFrom_append, List.flatMap_append,
      chunksFrom_single he.heard_self]
    cases hok : rr.ok with
    | true => simp [received]
    | false =>
        simp [received, RecvResult.data_eq_nil_of_not_ok hok, payloads_nil]
  refine wp_then hread ?_
  rintro rr w' ⟨_, rfl, hreceived, hw'⟩
  have hend : rr.data = [] → Queued m header n (received st.fd w'.trace) w'.trace w' := by
    intro hnil
    rw [hreceived, hnil, payloads_nil, List.append_nil]
    exact hw'
  by_cases hnil : rr.data = []
  · split
    · exact hend hnil
    · split
      · exact hend hnil
      · exact hend hnil
  · have hok : rr.ok = true := by
      by_contra hok
      exact hnil (RecvResult.data_eq_nil_of_not_ok (Bool.eq_false_iff.2 hok))
    obtain ⟨heof, herr⟩ : rr.eof = false ∧ rr.error = false := by simpa [rr.ok_eq] using hok
    simp only [heof, herr, hnil, Bool.false_eq_true, if_false]
    refine wp_then (wp_enqueueFrames hclosed hdest rr.data hw') ?_
    intro _ w'' hw''
    have htrace := hw''.trace
    rw [← hreceived, ← htrace] at hw''
    exact hw''

theorem closeSession_sendQueue (n : Nat) (m : Mem) : (closeSession n m).1.sendQueue = m.sendQueue := by
  unfold closeSession
  split
  · rfl
  · rfl

theorem wp_sessionOutTask {st : NetStream Fd} (hopen : openStream n m = some st)
    (hdest : Socks5.Parser.encodeUdpDatagram (m.session n).dest (m.session n).port [] = .ok header) :
    wp (alone n) (Task.outTask n) (sessionOutTask n) (Returns fun _ w' =>
      w'.mem.sendQueue = m.sendQueue ++
        (received st.fd w'.trace).map (datagram header (m.session n).appSrc)) ⟨m, []⟩ := by
  have hclosed : m.closed = false := by
    unfold openStream at hopen
    split at hopen
    · next h =>
        simp only [Bool.and_eq_true, Bool.not_eq_true'] at h
        exact h.1.1
    · cases hopen
  have hstart : Queued m header n (received st.fd []) [] ⟨m, []⟩ := ⟨rfl, rfl, rfl, by simp [received, chunksFrom, answers]⟩
  refine wp_then (wp_readFrames hopen hclosed hdest hstart) ?_
  intro _ w hw
  refine wp_member (O := kind.object) fun _ => ⟨⟨rfl, trivial⟩, ?_⟩
  have hsame : received st.fd (w.call (closeSession n)).trace = received st.fd w.trace := by
    unfold received chunksFrom
    rw [answers_call]
  show (closeSession n w.mem).1.sendQueue = _
  rw [closeSession_sendQueue, hw.queue, hsame]

end UdpDownlink

open UdpDownlink

/-- **The datagrams of a session arrive exactly if no read ends within a frame**: of a stream of framed
    datagrams that is read to its end, each is put into the queue, in order and as it was sent, if and
    only if every read brought whole frames. -/
theorem sessionOutTask_enqueues (n : Nat) (m : Mem) {st : NetStream Fd} {header : Bytes}
    {r : Except Exn Unit} {w' : World kind.object} {ds : List Bytes}
    (hopen : openStream n m = some st)
    (hdest : Socks5.Parser.encodeUdpDatagram (m.session n).dest (m.session n).port [] = .ok header)
    (hrun : Alone (O := kind.object) (sessionOutTask n) ⟨m, []⟩ r w')
    (hds : ∀ d ∈ ds, 1 ≤ d.length ∧ d.length ≤ 65535)
    (hstream : readFrom (K := kind) st.fd w'.trace = frames ds) :
    w'.mem.sendQueue = m.sendQueue ++ ds.map (datagram header (m.session n).appSrc) ↔
      ∀ piece ∈ chunksFrom (K := kind) st.fd w'.trace, leftover piece = [] := by
  have hqueue : w'.mem.sendQueue = m.sendQueue ++
      (received st.fd w'.trace).map (datagram header (m.session n).appSrc) := by
    have hend := hrun.of_wp _ (fun _ _ _ => trivial) (wp_sessionOutTask hopen hdest) trivial
    cases r with
    | ok _ => exact hend
    | error _ => exact hend.elim
  rw [hqueue, List.append_cancel_left_eq]
  rw [(List.map_injective_iff.2 (datagram_injective _)).eq_iff]
  refine flatMap_wholeFrames_eq_iff ?_ hstream
  intro d hd
  obtain ⟨hpos, hle⟩ := hds d hd
  exact ⟨List.length_pos_iff.1 hpos, by omega⟩

/-- A session to port 53 of `1.2.3.4`. -/
def sampleMem : Mem :=
  { session := fun _ => {
      remoteFd := some (.remote 0), stream := some (.async (.remote 0)),
      dest := .ipv4 ⟨[1, 2, 3, 4], rfl⟩, port := 53, alive := true } }

/-- A server that sends these pieces. -/
def pieces (ps : List Bytes) (w : World kind.object) : (o : kind.object.Io.Op) → kind.object.Io.Res o
  | .inl (.recv fd bufSize) =>
      ⟨.ofBytes ((ps.getD (answers (K := kind) fd w.trace).length []).take bufSize), List.length_take_le _ _⟩
  | .inl (.send _ data) => ⟨data.length, NetOp.accepts_whole data⟩
  | .inl (.connect _ _) => (0 : Int)
  | .inl (.shutdownWr _) => (0 : Int)
  | .inl (.tlsHandshake _) => true
  | .inl (.tlsRead _ maxBytes) => ⟨.ofBytes [], Nat.zero_le maxBytes⟩
  | .inl (.tlsWriteFull _ data) => ⟨data.length, NetOp.accepts_whole data⟩
  | .inl (.tlsShutdownWrite _) => (0 : Int)
  | .inl (.getaddrinfo _ _ _) => (none : Option (List SockAddr))
  | .inl (.socket _ _ _) => true
  | .inr .eventfd => true
  | .inr (.recvFrom bufSize) => (⟨.ofBytes [], Nat.zero_le bufSize⟩, none)
  | .inr (.sendTo _ _) => (1 : Int)
  | .inr .controlEnd => ()

/-- The run of the session's task. -/
def sampleRun (ps : List Bytes) : Option (Except Exn Unit × World kind.object) :=
  runAlone (O := kind.object) (pieces ps) 200 (sessionOutTask 0) ⟨sampleMem, []⟩

/-- How it ends. -/
def sampleEnd (ps : List Bytes) : Except Exn Unit × World kind.object :=
  (sampleRun ps).getD (.ok (), ⟨{}, []⟩)

theorem sampleEnd_alone (ps : List Bytes) (h : (sampleRun ps).isSome = true) :
    Alone (O := kind.object) (sessionOutTask 0) ⟨sampleMem, []⟩ (sampleEnd ps).1 (sampleEnd ps).2 :=
  alone_getD h _

/-- Two datagrams in one read and a third in the next. -/
theorem sessionOutTask_enqueues_pieces :
    (sampleEnd [frames [[1, 2], [3]], frame [4]]).2.mem.sendQueue =
      [[1, 2], [3], [4]].map (datagram [0, 0, 0, 1, 1, 2, 3, 4, 0, 53] none) := by
  have hopen : openStream 0 sampleMem = some (.async (.remote 0)) := rfl
  have hds : ∀ d ∈ ([[1, 2], [3], [4]] : List Bytes), 1 ≤ d.length ∧ d.length ≤ 65535 := by decide
  refine (sessionOutTask_enqueues 0 sampleMem hopen rfl (sampleEnd_alone _ (by decide +kernel)) hds
    (by decide +kernel)).2 ?_
  intro piece hpiece
  have hwhole : piece = frames [[1, 2], [3]] ∨ piece = frames [[4]] := by
    have hpieces : chunksFrom (K := kind) (NetStream.async (Fd.remote 0)).fd
        (sampleEnd [frames [[1, 2], [3]], frame [4]]).2.trace = [frames [[1, 2], [3]], frames [[4]]] := by
      decide +kernel
    rw [hpieces] at hpiece
    simpa using hpiece
  rcases hwhole with rfl | rfl
  · exact leftover_eq_nil_iff.2 ⟨_, by decide, rfl⟩
  · exact leftover_eq_nil_iff.2 ⟨_, by decide, rfl⟩

/-- A datagram that comes in two reads is lost. -/
theorem sessionOutTask_cut :
    ¬ ∀ (n : Nat) (m : Mem) (st : NetStream Fd) (header : Bytes) (r : Except Exn Unit)
      (w' : World kind.object) (ds : List Bytes), openStream n m = some st →
      Socks5.Parser.encodeUdpDatagram (m.session n).dest (m.session n).port [] = .ok header →
      Alone (O := kind.object) (sessionOutTask n) ⟨m, []⟩ r w' →
      (∀ d ∈ ds, 1 ≤ d.length ∧ d.length ≤ 65535) →
      readFrom (K := kind) st.fd w'.trace = frames ds →
      w'.mem.sendQueue = m.sendQueue ++ ds.map (datagram header (m.session n).appSrc) := by
  intro h
  have hqueue := h 0 sampleMem (.async (.remote 0)) _ _ _ [[1, 2]] rfl rfl
    (sampleEnd_alone [[0, 2, 1], [2]] (by decide +kernel)) (by decide) (by decide +kernel)
  exact absurd hqueue (by decide +kernel)

end Socks5UdpRelay

end Cppvless
