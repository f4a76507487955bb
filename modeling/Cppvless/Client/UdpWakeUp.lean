import Cppvless.Client.Socks5UdpRelay
import Cppvless.Coroutine.Replay
import Cppvless.Net.Relay

set_option autoImplicit false

/-! # Waking the coroutine that answers

A datagram is queued before the counter of the eventfd is raised, and `sendLoop` resets the counter
before it empties the queue. What it may leave behind is the rest of a queue in which a datagram could
not be sent. -/

namespace Cppvless

open Coroutine

namespace Socks5UdpRelay

/-- The result of a read of the eventfd. -/
def eventRead : Event kind.object → Option RecvResult
  | .io (.inl (.recv .event _)) rr => some rr.1
  | _ => none

/-- The result of a `sendto`. -/
def datagramSent : Event kind.object → Option Int
  | .io (.inr (.sendTo _ _)) sent => some sent
  | _ => none

/-- A read of the eventfd completes only if the counter is positive, and then without error. -/
def Counted (w w' : World kind.object) : Prop :=
  ∀ e ∈ w'.trace.drop w.trace.length, ∀ rr ∈ eventRead e, 0 < w.mem.eventCounter ∧ rr.error = false

/-- A datagram that cannot be sent is the last one, or the counter is positive again. -/
def SendsLast (w w' : World kind.object) : Prop :=
  ∀ e ∈ w'.trace.drop w.trace.length, ∀ sent ∈ datagramSent e, sent ≤ 0 →
    w.mem.sendQueue = [] ∨ 0 < w.mem.eventCounter

instance (w w' : World kind.object) : Decidable (Counted w w') :=
  inferInstanceAs (Decidable (∀ e ∈ w'.trace.drop w.trace.length, ∀ rr ∈ eventRead e,
    0 < w.mem.eventCounter ∧ rr.error = false))

instance (w w' : World kind.object) : Decidable (SendsLast w w') :=
  inferInstanceAs (Decidable (∀ e ∈ w'.trace.drop w.trace.length, ∀ sent ∈ datagramSent e, sent ≤ 0 →
    w.mem.sendQueue = [] ∨ 0 < w.mem.eventCounter))

/-- `sendLoop` comes to the queue: it runs, it is inside `sendto`, or it waits on the eventfd and the
    counter is positive. -/
def Attended (p : Pool kind.object) : Prop :=
  Task.sendLoop ∈ p.stack ∨
    (∃ data addr, p.awaits Task.sendLoop = some (.inr (.sendTo data addr))) ∨
    (∃ bufSize, p.awaits Task.sendLoop = some (.inl (.recv Fd.event bufSize))) ∧
      0 < p.world.mem.eventCounter

namespace WakeUp

/-- There is an eventfd to write to. -/
def Ready (m : Mem) : Prop := m.closed = true ∨ m.eventFd.isSome = true

/-- What is in the queue has raised the counter. -/
def Awake (m : Mem) : Prop := m.closed = true ∨ m.sendQueue = [] ∨ 0 < m.eventCounter

/-- `sendLoop` has been started. -/
def Started (w : World kind.object) : Prop := Event.spawned Task.sendLoop ∈ w.trace

/-- What only `sendLoop` does not keep is that the queue has raised the counter. -/
structure Keeps (m m' : Mem) : Prop where
  closed : m.closed = true → m'.closed = true
  ready : Ready m → Ready m'
  awake : Ready m → Awake m → Awake m'

/-- The changes of `t`, which are those of `sendLoop` only once it is started. -/
structure Changes (t : Task) (w w' : World kind.object) : Prop where
  closed : w.mem.closed = true → w'.mem.closed = true
  ready : Ready w.mem → Ready w'.mem
  awake : t ≠ .sendLoop → Ready w.mem → Awake w.mem → Awake w'.mem
  started : Started w → Started w'
  starts : Started w' → t = .control ∨ Started w
  running : t = .sendLoop → Started w

/-- Where `t` may suspend. -/
def Parked (w : World kind.object) : Task → kind.object.Io.Op → Prop
  | .control, _ => w.mem.closed = true ∨ Started w
  | .sendLoop, .inl (.recv .event _) => Ready w.mem ∧ Awake w.mem ∧ Started w
  | .sendLoop, .inr (.sendTo _ _) => Ready w.mem ∧ Started w
  | .sendLoop, _ => False
  | _, _ => True

def Pre (w : World kind.object) : Task → Prop
  | .control => Awake w.mem ∧ ¬ Started w
  | .sendLoop => Ready w.mem ∧ Awake w.mem ∧ Started w
  | _ => Ready w.mem

def Post (w : World kind.object) : Task → Prop
  | .control => w.mem.closed = true
  | .sendLoop => w.mem.closed = true
  | _ => True

def contract : Contract kind.object where
  env _ := True
  allowed w w' := Counted w w' ∧ SendsLast w w'
  guar := Changes
  parked t o w := Parked w t o
  pre t w := Pre w t
  post t w := Post w t

variable {t : Task} {w w' : World kind.object} {m m' : Mem}

theorem contract_rely (h : contract.rely t w w') :
    (w.mem.closed = true → w'.mem.closed = true) ∧ (Ready w.mem → Ready w'.mem) ∧
      (Started w → Started w') := by
  obtain ⟨u, -, hg, -⟩ := h
  exact ⟨hg.closed, hg.ready, hg.started⟩

theorem rely_sendLoop (h : contract.rely Task.sendLoop w w') :
    Ready w.mem → Awake w.mem → Awake w'.mem := by
  obtain ⟨u, hu, hg, -⟩ := h
  exact hg.awake hu

theorem stable : contract.Stable where
  env_prefix _ _ _ := trivial
  parked t o w w' h hr := by
    obtain ⟨hclosed, hready, hstarted⟩ := contract_rely hr
    cases t with
    | control => exact h.imp hclosed hstarted
    | recvLoop => trivial
    | outTask n => trivial
    | sendLoop =>
        match o, h with
        | .inl (.recv .event _), ⟨hw, hawake, hs⟩ =>
            exact ⟨hready hw, rely_sendLoop hr hw hawake, hstarted hs⟩
        | .inr (.sendTo _ _), ⟨hw, hs⟩ => exact ⟨hready hw, hstarted hs⟩
  post t w w' h hr := by
    obtain ⟨hclosed, -, -⟩ := contract_rely hr
    cases t with
    | control => exact hclosed h
    | recvLoop => trivial
    | outTask n => trivial
    | sendLoop => exact hclosed h

/-! ## What keeps the queue -/

theorem Keeps.of_eq (hclosed : m'.closed = m.closed) (hfd : m'.eventFd = m.eventFd)
    (hqueue : m'.sendQueue = m.sendQueue) (hcounter : m'.eventCounter = m.eventCounter) :
    Keeps m m' := by
  refine ⟨?_, ?_, ?_⟩
  · rw [hclosed]
    exact id
  · unfold Ready
    rw [hclosed, hfd]
    exact id
  · unfold Awake
    rw [hclosed, hqueue, hcounter]
    exact fun _ => id

theorem Keeps.of_closed (h : m'.closed = true) : Keeps m m' :=
  ⟨fun _ => h, fun _ => .inl h, fun _ _ => .inl h⟩

/-- Queueing a datagram raises the counter. -/
theorem keeps_enqueue (item : PendingDatagram) (m : Mem) : Keeps m (m.enqueue item) := by
  refine ⟨id, id, ?_⟩
  intro hready _
  rcases hready with hclosed | hfd
  · exact .inl hclosed
  · refine .inr (.inr ?_)
    simp only [Mem.enqueue, hfd, if_true]
    exact Nat.succ_pos _

theorem keeps_closeSession (n : Nat) (m : Mem) : Keeps m (closeSession n m).1 := by
  unfold closeSession
  split
  · exact .of_eq rfl rfl rfl rfl
  · exact .of_eq rfl rfl rfl rfl

theorem closeSession_closed (n : Nat) (m : Mem) : (closeSession n m).1.closed = m.closed := by
  unfold closeSession
  split
  · rfl
  · rfl

theorem closeSessions_closed (l : List (Key × Nat)) (m : Mem) :
    (closeSessions l m).1.closed = m.closed := by
  induction l generalizing m with
  | nil => rfl
  | cons x rest ih =>
      obtain ⟨key, n⟩ := x
      unfold closeSessions
      split
      · exact (ih _).trans (closeSession_closed n m)
      · exact ih m

theorem cancelAndClose_closed (fd : Option Fd) (m : Mem) :
    (cancelAndClose fd m).1.closed = m.closed := by
  cases fd with
  | none => rfl
  | some fd => rfl

theorem stop_closed (m : Mem) : (stop m).1.closed = true := by
  unfold stop
  split
  · next h => exact h
  · show (cancelAndClose _ (cancelAndClose _ (closeSessions _ _).1).1).1.closed = true
    rw [cancelAndClose_closed, cancelAndClose_closed, closeSessions_closed]

/-- The operations of the coroutines that fill the queue. -/
def Harmless : ObjOp kind.object → Prop
  | .member f => ∀ m, Keeps m (f m).1
  | .spawn u => ∃ n, u = Task.outTask n
  | _ => True

theorem harmless_setSession (n : Nat) (session : Mem → Session) :
    Harmless (.member fun m => (m.setSession n (session m), [])) :=
  fun _ => .of_eq rfl rfl rfl rfl

variable (cfg : VlessClientConfig)

theorem only_createSession (dest : Address) (port : UInt16) : Only Harmless (createSession cfg dest port) := by
  refine .bind (.bind (.await trivial) fun _ => .bind (.await fun _ => .of_eq rfl rfl rfl rfl) fun _ => trivial) fun n => ?_
  refine .bind (VlessClient.only_vlessConnectAndHandshake _ cfg (fun _ _ => trivial)
    (fun _ => .of_eq rfl rfl rfl rfl) _) fun res => ?_
  cases res with
  | none => exact .bind (.await fun _ => .of_eq rfl rfl rfl rfl) fun _ => trivial
  | some res =>
      refine .bind (.await (harmless_setSession n _)) fun _ => .bind (.await ⟨n, rfl⟩) fun _ => ?_
      exact .bind (.await fun _ => .of_eq rfl rfl rfl rfl) fun _ => trivial

theorem only_forward (n : Nat) (payload : Bytes) : Only Harmless (forward n payload) := by
  refine .bind (.await trivial) fun m => ?_
  cases (m.session n).stream with
  | none => exact .await (harmless_setSession n _)
  | some stream =>
      refine .bind (.await fun _ => .of_eq rfl rfl rfl rfl) fun _ => ?_
      refine .bind (stream.only_writeFull (K := kind) _ fun _ _ => trivial) fun written => ?_
      refine .bind (.await fun _ => .of_eq rfl rfl rfl rfl) fun _ => ?_
      exact .ite (fun _ => .await (keeps_closeSession n)) fun _ => trivial

theorem only_recvLoop : Only Harmless (recvLoop cfg) := by
  refine .bind (.loop fun _ => .bind (.await trivial) fun m => .ite (fun _ => trivial) fun _ => ?_)
    fun _ => .await fun m => .of_closed (stop_closed m)
  refine .bind (.await trivial) fun (rr, src) => .ite (fun _ => trivial) fun _ => .ite (fun _ => trivial) fun _ => ?_
  cases Socks5.Parser.parseUdpDatagram rr.1.data with
  | none => trivial
  | some x =>
      obtain ⟨dest, port, payload⟩ := x
      refine .ite (fun _ => trivial) fun _ => .bind ?_ fun found => ?_
      · refine .bind (.await trivial) fun m => ?_
        cases m.findSession (dest, port) with
        | none => exact only_createSession cfg dest port
        | some n => exact .ite (fun _ => trivial) fun _ => only_createSession cfg dest port
      · cases found with
        | none => trivial
        | some n =>
            refine .bind (.await (harmless_setSession n _)) fun _ => ?_
            exact .bind (only_forward n payload) fun _ => trivial

/-! ## The coroutines -/

/-- Entering and removing an operation changes nothing here. -/
theorem keeps_setPending (s : Fd × Dir) (b : Bool) (m : Mem) : Keeps m (m.setPending s b) :=
  .of_eq rfl rfl rfl rfl

theorem only_tracked {α : Type} {c : Code α} (hc : Only Harmless c) :
    Only Harmless (tracking.tracked c) :=
  tracking.uses_tracked hc (fun _ h => h) fun _ _ _ _ =>
    ⟨fun _ => keeps_setPending _ _ _, fun _ => keeps_setPending _ _ _⟩

theorem started_call {f : Mem → Mem × List (Syscall Fd)} : Started (w.call f) ↔ Started w := by
  simp [Started]

theorem started_answer {o : kind.object.Io.Op} {r : kind.object.Io.Res o} :
    Started (w.answer o r) ↔ Started w := by
  simp [Started]

theorem started_start {u : Task} : Started (World.start (O := kind.object) w u) ↔ Started w ∨ u = .sendLoop := by
  unfold Started
  rw [World.start_trace, List.mem_append, List.mem_singleton, Event.spawned.injEq]
  exact or_congr_right eq_comm

/-- Steps that keep the queue. -/
theorem Changes.call {f : Mem → Mem × List (Syscall Fd)} (h : Keeps w.mem (f w.mem).1)
    (ht : t = .sendLoop → Started w) : Changes t w (w.call f) :=
  ⟨h.closed, h.ready, fun _ => h.awake, started_call.2, fun hs => .inr (started_call.1 hs), ht⟩

theorem Changes.answer {o : kind.object.Io.Op} {r : kind.object.Io.Res o}
    (ht : t = .sendLoop → Started w) : Changes t w (w.answer o r) :=
  ⟨id, id, fun _ _ => id, started_answer.2, fun hs => .inr (started_answer.1 hs), ht⟩

theorem frame_harmless (hsend : t ≠ .sendLoop) (hcontrol : t ≠ .control) :
    Frame contract t Harmless fun w => Ready w.mem where
  rely _ _ hw hr := (contract_rely hr).2.1 hw
  parked o w _ _ _ := by
    cases t with
    | control => exact absurd rfl hcontrol
    | sendLoop => exact absurd rfl hsend
    | recvLoop => trivial
    | outTask n => trivial
  member f w hf hw _ := ⟨.call (hf w.mem) fun h => absurd h hsend, (hf w.mem).ready hw⟩
  io _ _ _ _ hw _ := ⟨.answer fun h => absurd h hsend, hw⟩
  spawn u w hu hw _ := by
    obtain ⟨n, rfl⟩ := hu
    have hstart : Started (World.start (O := kind.object) w (Task.outTask n)) ↔ Started w := by
      rw [started_start]
      simp
    exact ⟨⟨id, id, fun _ _ => id, hstart.2, fun hs => .inr (hstart.1 hs), fun h => absurd h hsend⟩, hw, hw⟩

/-- What `sendLoop` knows at any time. -/
structure Loops (w : World kind.object) : Prop where
  ready : Ready w.mem
  started : Started w

theorem Loops.rely (hw : Loops w) (hr : contract.rely Task.sendLoop w w') : Loops w' :=
  ⟨(contract_rely hr).2.1 hw.ready, (contract_rely hr).2.2 hw.started⟩

theorem Loops.later (hw : Loops w) (hl : contract.Later Task.sendLoop w w') : Loops w' := by
  induction hl with
  | refl => exact hw
  | tail _ hr ih => exact ih.rely hr

theorem Loops.call {f : Mem → Mem × List (Syscall Fd)} (hw : Loops w) (h : Keeps w.mem (f w.mem).1) :
    Loops (w.call f) :=
  ⟨h.ready hw.ready, started_call.2 hw.started⟩

/-- `sendLoop` suspends on an operation in the table. -/
theorem wp_sendLoop_await {o : kind.object.Io.Op} {s : Fd × Dir} (hslot : slot o = some s)
    (hs : kind.object.suspends o = true) (hw : Loops w)
    (hparked : Parked (w.call fun m => (m.setPending s true, [])) .sendLoop o) :
    wp contract Task.sendLoop (tracking.tracked (Prog.io o)) (Returns fun r w' => Loops w' ∧
      ∃ w₁, Loops w₁ ∧ contract.Ok w₁ (World.answer (O := kind.object) w₁ o r) ∧
        Keeps w₁.mem w'.mem) w := by
  have hkeeps := fun b m => keeps_setPending s b m
  refine Tracking.wp_tracked (T := tracking) hslot fun _ => ⟨.call (hkeeps _ _) fun _ => hw.started, ?_⟩
  refine wp_await_ok (O := kind.object) hs hparked ?_
  intro w₁ hl r hok
  have hw₁ : Loops w₁ := (hw.call (hkeeps true w.mem)).later hl
  have hanswer : Loops (World.answer (O := kind.object) w₁ o r) :=
    ⟨hw₁.ready, started_answer.2 hw₁.started⟩
  refine ⟨.answer fun _ => hw₁.started, fun _ => ⟨.call (hkeeps _ _) fun _ => hanswer.started, ?_⟩⟩
  exact ⟨hanswer.call (hkeeps _ _), w₁, hw₁, hok, hkeeps false w₁.mem⟩

theorem mem_drop_answer {o : kind.object.Io.Op} {r : kind.object.Io.Res o} :
    Event.io o r ∈ (World.answer (O := kind.object) w o r).trace.drop w.trace.length := by
  simp

theorem wp_readEvent (hw : Loops w) (hawake : Awake w.mem) :
    wp contract Task.sendLoop (tracking.tracked (awaitNet (.recv .event 4096))) (Returns fun rr w' =>
      Loops w' ∧ rr.1.error = false) w := by
  have hkeeps := keeps_setPending (.event, .read) true w.mem
  refine wp_returns (wp_sendLoop_await (o := .inl (.recv .event 4096)) rfl rfl hw
    ⟨hkeeps.ready hw.ready, hkeeps.awake hw.ready hawake, started_call.2 hw.started⟩) ?_
  rintro rr w' ⟨hw', w₁, -, ⟨-, hcounted, -⟩, -⟩
  exact ⟨hw', (hcounted _ mem_drop_answer rr.1 rfl).2⟩

theorem wp_sendTo (data : Bytes) (addr : Option SockAddr) (hw : Loops w) :
    wp contract Task.sendLoop (tracking.tracked (awaitExt (.sendTo data addr))) (Returns fun sent w' =>
      Loops w' ∧ ((sent : Int) ≤ 0 → Awake w'.mem)) w := by
  have hkeeps := keeps_setPending (.udp, .write) true w.mem
  refine wp_returns (wp_sendLoop_await (o := .inr (.sendTo data addr)) rfl rfl hw
    ⟨hkeeps.ready hw.ready, started_call.2 hw.started⟩) ?_
  rintro sent w' ⟨hw', w₁, hw₁, ⟨-, -, hlast⟩, hsame⟩
  refine ⟨hw', fun hsent => hsame.awake hw₁.ready (.inr ?_)⟩
  exact hlast _ mem_drop_answer sent rfl hsent

theorem wp_drainQueue (hw : Loops w) :
    wp contract Task.sendLoop (tracking.tracked drainQueue) (Returns fun _ w' =>
      Loops w' ∧ Awake w'.mem) w := by
  refine wp_loop (fun _ => Loops) hw ?_
  intro _ w hw
  refine Tracking.wp_tracked_get (T := tracking) ?_
  cases hqueue : w.mem.sendQueue with
  | nil => exact ⟨hw, .inr (.inl hqueue)⟩
  | cons item rest =>
      dsimp only
      by_cases hclosed : w.mem.closed = true
      · rw [if_pos hclosed]
        exact ⟨hw, .inl hclosed⟩
      · rw [if_neg hclosed, Tracking.tracked_bind]
        refine wp_member_seq (O := kind.object) fun _ => ⟨⟨id, id, fun h => absurd rfl h, started_call.2,
          fun h => .inr (started_call.1 h), fun _ => hw.started⟩, ?_⟩
        rw [Tracking.tracked_bind]
        refine wp_then (wp_sendTo item.data item.src ⟨hw.ready, started_call.2 hw.started⟩) ?_
        rintro sent w' ⟨hw', hawake⟩
        by_cases hsent : (sent : Int) ≤ 0
        · rw [if_pos hsent]
          exact ⟨hw', hawake hsent⟩
        · rw [if_neg hsent]
          exact hw'

theorem wp_sendLoop (hw : Loops w) (hawake : Awake w.mem) :
    wp contract Task.sendLoop (tracking.tracked sendLoop) (Returns fun _ w' => w'.mem.closed = true) w := by
  refine wp_loop (fun _ w => Loops w ∧ Awake w.mem) ⟨hw, hawake⟩ ?_
  intro _ w ⟨hw, hawake⟩
  show wp contract Task.sendLoop (tracking.tracked (if w.mem.closed then _ else _)) _ w
  by_cases hclosed : w.mem.closed = true
  · rw [if_pos hclosed]
    exact hclosed
  · rw [if_neg hclosed, Tracking.tracked_bind]
    refine wp_then (wp_readEvent hw hawake) ?_
    intro rr w' ⟨hw', herror⟩
    simp only [herror, Bool.false_eq_true, if_false]
    rw [Tracking.tracked_bind]
    refine wp_member_seq (O := kind.object) fun _ => ⟨⟨id, id, fun h => absurd rfl h, started_call.2,
      fun h => .inr (started_call.1 h), fun _ => hw'.started⟩, ?_⟩
    rw [Tracking.tracked_bind]
    refine wp_then (wp_drainQueue ⟨hw'.ready, started_call.2 hw'.started⟩) ?_
    intro _ w'' hw''
    exact hw''

/-- `start` has not come to `sendLoop` yet. -/
structure Starts (w : World kind.object) : Prop where
  ready : Ready w.mem
  awake : Awake w.mem
  started : ¬ Started w

theorem Starts.rely (hw : Starts w) (hr : contract.rely Task.control w w') : Starts w' := by
  obtain ⟨u, hu, hg, -⟩ := hr
  have hsend : u ≠ .sendLoop := fun h => hw.started (hg.running h)
  exact ⟨hg.ready hw.ready, hg.awake hsend hw.ready hw.awake,
    fun h => (hg.starts h).elim (fun h => hu h) hw.started⟩

theorem Starts.later (hw : Starts w) (hl : contract.Later Task.control w w') : Starts w' := by
  induction hl with
  | refl => exact hw
  | tail _ hr ih => exact ih.rely hr

theorem wp_controlEnd (hw : w.mem.closed = true ∨ Started w) :
    wp contract Task.control (tracking.tracked (do awaitExt .controlEnd; member stop))
      (Returns fun _ w' => w'.mem.closed = true) w := by
  rw [Tracking.tracked_bind]
  have hend : wp contract Task.control (tracking.tracked (awaitExt .controlEnd))
      (Returns fun _ _ => True) w := by
    refine Tracking.wp_untracked (T := tracking) (o := .inr .controlEnd) rfl ?_
    exact wp_await (O := kind.object) (o := .inr .controlEnd) rfl hw fun _ _ _ _ => ⟨.answer nofun, trivial⟩
  refine wp_then hend ?_
  intro _ w _
  exact wp_member (O := kind.object) fun _ => ⟨.call (.of_closed (stop_closed _)) nofun, stop_closed _⟩

theorem wp_startLoops (hw : Starts w) :
    wp contract Task.control (tracking.tracked (do
      Prog.spawn (O := kind.object) Task.recvLoop
      Prog.spawn (O := kind.object) Task.sendLoop
      awaitExt .controlEnd
      member stop)) (Returns fun _ w' => w'.mem.closed = true) w := by
  have hnext : Starts (World.start (O := kind.object) w Task.recvLoop) :=
    ⟨hw.ready, hw.awake, by simpa [started_start] using hw.started⟩
  rw [Tracking.tracked_bind]
  refine wp_then (wp_spawn (O := kind.object) (Q := Returns fun _ => Starts) fun _ =>
    ⟨⟨id, id, fun _ _ => id, fun h => started_start.2 (.inl h), fun _ => .inl rfl, nofun⟩, hw.ready,
      fun _ hl => hnext.later hl⟩) ?_
  intro _ w hw
  have hstarted : Started (World.start (O := kind.object) w Task.sendLoop) := started_start.2 (.inr rfl)
  have hlater : ∀ w', contract.Later Task.control (World.start (O := kind.object) w Task.sendLoop) w' →
      Started w' := by
    intro w' hl
    induction hl with
    | refl => exact hstarted
    | tail _ hr ih => exact (contract_rely hr).2.2 ih
  rw [Tracking.tracked_bind]
  refine wp_then (wp_spawn (O := kind.object) (Q := Returns fun _ => Started) fun _ =>
    ⟨⟨id, id, fun _ _ => id, fun _ => hstarted, fun _ => .inl rfl, nofun⟩,
      ⟨hw.ready, hw.awake, hstarted⟩, hlater⟩) ?_
  intro _ w hw
  exact wp_controlEnd (.inr hw)

theorem wp_control (hw : Awake w.mem ∧ ¬ Started w) :
    wp contract Task.control (tracking.tracked control) (Returns fun _ w' => w'.mem.closed = true) w := by
  unfold control
  rw [Tracking.tracked_bind]
  have hopen : wp contract Task.control (tracking.tracked (awaitExt .eventfd))
      (Returns fun _ w' => Awake w'.mem ∧ ¬ Started w') w := by
    refine Tracking.wp_untracked (T := tracking) (o := .inr .eventfd) rfl ?_
    refine wp_call (O := kind.object) (o := .inr .eventfd) rfl fun _ _ => ⟨.answer nofun, hw.1, ?_⟩
    rw [started_answer]
    exact hw.2
  refine wp_then hopen ?_
  intro opened w ⟨hawake, hstarted⟩
  cases opened with
  | false =>
      simp only [Bool.not_false, if_true]
      rw [Tracking.tracked_bind]
      refine wp_member_seq (O := kind.object) fun _ => ⟨Changes.call (t := Task.control) (.of_closed rfl) nofun, ?_⟩
      exact wp_controlEnd (.inl rfl)
  | true =>
      simp only [Bool.not_true, Bool.false_eq_true, if_false]
      rw [Tracking.tracked_bind]
      refine wp_member_seq (O := kind.object) fun _ => ⟨Changes.call (t := Task.control) ?_ nofun, ?_⟩
      · exact ⟨id, fun _ => .inr rfl, fun _ => id⟩
      · refine wp_startLoops ⟨.inr rfl, hawake, ?_⟩
        rw [started_call]
        exact hstarted

theorem wp_body (t : Task) (w : World kind.object) (hpre : Pre w t) :
    wp contract t (body cfg t) (fun _ w' => Post w' t) w := by
  cases t with
  | control => exact wp_returns (wp_control hpre) fun _ _ h => h
  | sendLoop => exact wp_returns (wp_sendLoop ⟨hpre.1, hpre.2.2⟩ hpre.2.1) fun _ _ h => h
  | recvLoop =>
      exact wp_mono (wp_of_uses (frame_harmless (t := Task.recvLoop) nofun nofun) (only_tracked (only_recvLoop cfg)) hpre)
        fun _ _ _ => trivial
  | outTask n =>
      exact wp_mono (wp_of_uses (frame_harmless (t := Task.outTask n) nofun nofun) (only_tracked (only_sessionOutTask n trivial (fun _ => trivial) keeps_enqueue (keeps_closeSession n))) hpre)
        fun _ _ _ => trivial

end WakeUp

open WakeUp

/-- **No datagram waits for a `sendLoop` that sleeps**, in every run in which a datagram that cannot be
    sent is the last one or the counter is positive again: while the relay is open and its queue is not
    empty, `sendLoop` comes to it, or `start` is about to start it. -/
theorem sendLoop_attends (cfg : VlessClientConfig) {p : Pool kind.object}
    (hp : ReachableIn (fun w w' => Counted w w' ∧ SendsLast w w') (body cfg) Task.control {} p)
    (hclosed : p.world.mem.closed = false) (hqueue : p.world.mem.sendQueue ≠ []) :
    Attended p ∨ p.stack ≠ [] ∧ p.frames Task.sendLoop = none := by
  have hpre : contract.pre Task.control ⟨{}, []⟩ := ⟨.inr (.inl rfl), nofun⟩
  have hsound : Sound contract p := contract.sound_in stable (fun t w h _ => wp_body cfg t w h) hpre
    trivial (hp.mono fun _ _ hok => ⟨trivial, hok⟩)
  by_cases hstack : Task.sendLoop ∈ p.stack
  · exact .inl (.inl hstack)
  · cases hframe : p.frames Task.sendLoop with
    | none =>
        refine .inr ⟨fun hempty => ?_, rfl⟩
        have hstarted : ¬ Started p.world := fun h =>
          (frames_ne_none_iff hp.reachable Task.sendLoop).2 (.inr h) hframe
        have hcontrol : p.frames Task.control ≠ none := (frames_ne_none_iff hp.reachable _).2 (.inl rfl)
        rcases hsound.suspended_or_finished hempty hcontrol with ⟨_, o, k, hk, hs⟩ | hend
        · have hparked : p.world.mem.closed = true ∨ Started p.world := hsound.parked hk hs
          exact hparked.elim (by simp [hclosed]) hstarted
        · have hend : p.world.mem.closed = true := hsound.post hend
          exact absurd hend (by simp [hclosed])
    | some c =>
        rcases hsound.resting Task.sendLoop c hframe hstack with ⟨r, rfl⟩ | ⟨o, k, rfl, hs⟩
        · have hend : p.world.mem.closed = true := hsound.post ⟨hstack, r, hframe⟩
          exact absurd hend (by simp [hclosed])
        · have hparked : Parked p.world .sendLoop o := hsound.parked hframe hs
          match o, hparked with
          | .inl (.recv .event bufSize), ⟨_, hawake, _⟩ =>
              refine .inl (.inr (.inr ⟨⟨bufSize, by rw [Pool.awaits, hframe]⟩, ?_⟩))
              rcases hawake with h | h | h
              · exact absurd h (by simp [hclosed])
              · exact absurd h hqueue
              · exact h
          | .inr (.sendTo data addr), _ => exact .inl (.inr (.inl ⟨data, addr, by rw [Pool.awaits, hframe]⟩))

/-- A datagram for port 53 of `1.2.3.4`, and a server that answers with two. -/
def twoAnswers (sent : Int) (w : World kind.object) : (o : kind.object.Io.Op) → kind.object.Io.Res o :=
  resolved (application [0, 0, 0, 1, 1, 2, 3, 4, 0, 53, 9] sent fun _ => [[0, 0], frames [[1], [2]]]) w

/-- The tasks up to where both are in the queue. -/
def twoQueued : List Task := [.recvLoop, .recvLoop, .recvLoop, .recvLoop, .recvLoop, .outTask 0]

/-- A run in which every datagram is sent. -/
def attendedRun (ts : List Task) : Pool kind.object :=
  runIn (fun w w' => Counted w w' ∧ SendsLast w w') (body { remoteHost := [104] }) Task.control {}
    (twoAnswers 11) 40 ts

/-- One of the two is being sent while the other is in the queue. -/
theorem sendLoop_attends_two :
    (attendedRun (twoQueued ++ [.sendLoop])).world.mem.sendQueue.length = 1 ∧
      Attended (attendedRun (twoQueued ++ [.sendLoop])) := by
  have hrun : (attendedRun (twoQueued ++ [.sendLoop])).world.mem.sendQueue.length = 1 ∧
      (attendedRun (twoQueued ++ [.sendLoop])).world.mem.closed = false ∧
      (attendedRun (twoQueued ++ [.sendLoop])).stack = [] := by
    decide +kernel
  obtain ⟨hqueue, hclosed, hstack⟩ := hrun
  have hne : (attendedRun (twoQueued ++ [.sendLoop])).world.mem.sendQueue ≠ [] :=
    List.ne_nil_of_length_pos (by rw [hqueue]; exact Nat.one_pos)
  exact ⟨hqueue, (sendLoop_attends _ (runIn_reachableIn _ _ _) hclosed hne).resolve_right
    fun h => h.1 hstack⟩

/-- A run in which none is. -/
def sleepingRun (ts : List Task) : Pool kind.object :=
  runIn (fun w w' => Delivered w w' ∧ Counted w w') (body { remoteHost := [104] }) Task.control {}
    (twoAnswers (-1)) 40 ts

theorem sleepingRun_reachable (ts : List Task) :
    ReachableIn (fun w w' => Delivered w w' ∧ Counted w w') (body { remoteHost := [104] }) Task.control {}
      (sleepingRun ts) :=
  runIn_reachableIn _ _ _

/-- The second datagram waits when the first could not be sent. -/
theorem sendLoop_sleeps :
    ¬ ∀ (cfg : VlessClientConfig) (p : Pool kind.object),
      ReachableIn (fun w w' => Delivered w w' ∧ Counted w w') (body cfg) Task.control {} p →
      p.world.mem.closed = false → p.world.mem.sendQueue ≠ [] →
      Attended p ∨ p.stack ≠ [] ∧ p.frames Task.sendLoop = none := by
  intro h
  have hrun : (sleepingRun (twoQueued ++ [.sendLoop, .sendLoop])).world.mem.closed = false ∧
      (sleepingRun (twoQueued ++ [.sendLoop, .sendLoop])).world.mem.sendQueue ≠ [] ∧
      (sleepingRun (twoQueued ++ [.sendLoop, .sendLoop])).awaits Task.sendLoop =
        some (.inl (.recv Fd.event 4096)) ∧
      (sleepingRun (twoQueued ++ [.sendLoop, .sendLoop])).stack = [] ∧
      (sleepingRun (twoQueued ++ [.sendLoop, .sendLoop])).world.mem.eventCounter = 0 := by
    decide +kernel
  obtain ⟨hclosed, hqueue, hawaits, hstack, hcounter⟩ := hrun
  have hreach := sleepingRun_reachable (twoQueued ++ [.sendLoop, .sendLoop])
  rcases h _ _ hreach hclosed hqueue with hattended | hstart
  · rcases hattended with hrunning | ⟨data, addr, hsend⟩ | ⟨_, hpos⟩
    · rw [hstack] at hrunning
      cases hrunning
    · rw [hawaits] at hsend
      cases hsend
    · rw [hcounter] at hpos
      exact absurd hpos (Nat.lt_irrefl 0)
  · exact hstart.1 hstack

end Socks5UdpRelay

end Cppvless
