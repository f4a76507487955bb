import Cppvless.Client.SessionTasks

set_option autoImplicit false

/-! # Cancelled operations of the UDP relay

`cancelFd` disarms whatever is in flight on a descriptor. `stop` misses the socket of a handshake, which
no session has yet, and a write to a session that is closed. And while the relay is open, closing a session
disarms the operation of the other coroutine that uses it. -/

namespace Cppvless

open Coroutine

namespace Socks5UdpRelay

open Sessions Ledger

variable (cfg : VlessClientConfig)

/-- The relay with a server that accepts whatever it is sent, for a datagram to port 53 of `1.2.3.4`. -/
def serves : (w : World kind.object) → (o : kind.object.Io.Op) → kind.object.Io.Res o :=
  resolved (application [0, 0, 0, 1, 1, 2, 3, 4, 0, 53, 9] 11 fun _ => [[0, 0]])

/-! ## What `stop` leaves in flight -/

/-- **What `stop` disarms**: everything, unless `recvLoop` is in a handshake or writes to a session that
    was closed before. -/
theorem stop_disarms_iff {p : Pool kind.object} (hp : ReachableIn Delivered (body cfg) Task.control {} p)
    (hstack : p.stack = []) :
    (∀ fd d, (stop p.world.mem).1.pending fd d = false) ↔
      ¬ (p.Suspended Task.recvLoop ∧ (p.world.mem.connecting ≠ none ∨ p.world.mem.stale ≠ none)) := by
  have hruns : ReachableIn (Allowed ⟨False, False, False⟩) (body cfg) Task.control {} p :=
    hp.mono fun _ _ h => ⟨h, False.elim, False.elim⟩
  have hrests : Rests ⟨False, False, True⟩ p := rests (sound hruns) hp.reachable hstack
  have hothers := hrests.others_of_stop
  have hbegun : p.world.mem.connecting ≠ none ∨ p.world.mem.stale ≠ none → (ledger p.world).spawned .recvLoop := by
    rintro (hconn | hstale)
    · obtain ⟨n, hn⟩ := Option.ne_none_iff_exists'.1 hconn
      exact hrests.inv.begun n (.inl hn)
    · exact hrests.inv.writes hstale
  constructor
  · rintro hall ⟨⟨_, _, _, hframe, _⟩, hbusy⟩
    -- what `recvLoop` awaits is on a socket that no session holds
    have hleft : ∀ n d, (ledger p.world).remoteFd n = none → (ledger p.world).pending (.remote n) d ≠ true := by
      intro n d hfd hd
      have hafter : (ledger (p.world.call stop)).pending (.remote n) d = false := hall (.remote n) d
      rw [(hothers.free n hfd).2.2, hd] at hafter
      exact nomatch hafter
    rcases hrests.recvLoop (hbegun hbusy) with ⟨o, _, _, hparked⟩ | ⟨⟨_, r, hend⟩, _⟩
    · rcases hbusy with hconn | hstale
      · obtain ⟨n, hn⟩ := Option.ne_none_iff_exists'.1 hconn
        obtain ⟨⟨hfd, -⟩, d, -, hd⟩ := hparked.waits.1 n hn
        exact hleft n d hfd hd
      · obtain ⟨n, hn⟩ := Option.ne_none_iff_exists'.1 hstale
        obtain ⟨hfd, hd⟩ := hparked.waits.2 n hn
        exact hleft n .write hfd hd
    · exact nomatch hframe.symm.trans hend
  · intro hidle fd d
    by_contra hd
    have hd : (ledger (p.world.call stop)).pending fd d = true := Bool.eq_true_of_not_eq_false hd
    have hinv := hrests.inv_of_stop
    cases fd with
    | udp => exact absurd hd (by simp [(hinv.cancelled hrests.closed_of_stop d).1])
    | event => exact absurd hd (by simp [(hinv.cancelled hrests.closed_of_stop d).2])
    | remote n =>
        -- no session holds it any more, so that it is `recvLoop` that uses it
        have hbusy : p.world.mem.connecting = some n ∨ p.world.mem.stale = some n := by
          rcases hinv.table n d hd with ⟨hconn, -⟩ | hfd | ⟨hstale, -⟩
          · exact .inl (hothers.connecting.symm.trans hconn)
          · exact absurd (hrests.remoteFd_of_stop trivial n) hfd
          · exact .inr (hothers.stale.symm.trans hstale)
        have hne : p.world.mem.connecting ≠ none ∨ p.world.mem.stale ≠ none := by
          rcases hbusy with h | h
          · exact .inl (by simp [h])
          · exact .inr (by simp [h])
        rcases hrests.recvLoop (hbegun hne) with ⟨_, hsus, _⟩ | ⟨_, hpost⟩
        · exact hidle ⟨hsus, hne⟩
        · rcases hbusy with hconn | hstale
          · obtain ⟨⟨hfd, -⟩, hclear⟩ := hpost.2.2 n hconn
            rw [(hothers.free n hfd).2.2, hclear d] at hd
            exact nomatch hd
          · exact nomatch hstale.symm.trans hpost.2.1

/-- A run along `ts` in which operations are only completed. -/
def deliveredRun (ts : List Task) : Pool kind.object :=
  runIn Delivered (body { remoteHost := [104] }) Task.control {} serves 40 ts

theorem deliveredRun_reachable (ts : List Task) :
    ReachableIn Delivered (body { remoteHost := [104] }) Task.control {} (deliveredRun ts) :=
  runIn_reachableIn _ _ _

/-- The read of a session is disarmed. -/
theorem stop_disarms_session :
    (deliveredRun (List.replicate 5 .recvLoop)).world.mem.pending (.remote 0) .read = true ∧
      ∀ fd d, (stop (deliveredRun (List.replicate 5 .recvLoop)).world.mem).1.pending fd d = false := by
  have hrun : (deliveredRun (List.replicate 5 .recvLoop)).world.mem.pending (.remote 0) .read = true ∧
      (deliveredRun (List.replicate 5 .recvLoop)).stack = [] ∧
      (deliveredRun (List.replicate 5 .recvLoop)).world.mem.connecting = none ∧
      (deliveredRun (List.replicate 5 .recvLoop)).world.mem.stale = none := by
    decide +kernel
  obtain ⟨hread, hstack, hconn, hstale⟩ := hrun
  refine ⟨hread, (stop_disarms_iff _ (deliveredRun_reachable _) hstack).2 ?_⟩
  rintro ⟨_, h | h⟩
  · exact h hconn
  · exact h hstale

/-- The `connect` of a handshake is not. -/
theorem stop_misses_handshake :
    ¬ ∀ (cfg : VlessClientConfig) (p : Pool kind.object),
      ReachableIn Delivered (body cfg) Task.control {} p → p.stack = [] →
      ∀ fd d, (stop p.world.mem).1.pending fd d = false := by
  intro h
  have hrun : (deliveredRun [.recvLoop]).stack = [] ∧
      (stop (deliveredRun [.recvLoop]).world.mem).1.pending (.remote 0) .write = true := by
    decide +kernel
  have hnone := h _ _ (deliveredRun_reachable _) hrun.1 (.remote 0) .write
  exact nomatch hrun.2.symm.trans hnone

/-! ## What the others disarm -/

/-- `t` waits for an operation that has its callback. -/
def Waiting (p : Pool kind.object) (t : Task) : Prop :=
  ∃ o fd d, p.awaits t = some o ∧ slot o = some (fd, d) ∧ p.world.mem.pending fd d = true

theorem startsNone_outTask (n : Nat) : Only StartsNone (body cfg (.outTask n)) :=
  Tracking.uses_tracked (P := StartsNone) tracking
    (only_sessionOutTask n trivial (fun _ => trivial) (fun _ => trivial) trivial) (fun _ h => h)
    fun _ _ _ _ => ⟨trivial, trivial⟩

/-- **Nobody is orphaned** in a run in which writes to a session fail only while nobody reads from it and
    reads end only while nobody writes: while the relay is open, every coroutine but the owner's runs, has
    ended or waits for an operation that will be completed, and the task of a session that is dead has
    ended, or is about to. -/
theorem nobody_orphaned {p : Pool kind.object}
    (hp : ReachableIn (fun w w' => Delivered w w' ∧ Undisturbed w w') (body cfg) Task.control {} p)
    (hclosed : p.world.mem.closed = false) :
    (∀ t, t ≠ Task.control → p.frames t ≠ none → t ∈ p.stack ∨ p.Finished t ∨ Waiting p t) ∧
      ∀ key n, (key, n) ∈ p.world.mem.sessions → (p.world.mem.session n).alive = false →
        p.Finished (Task.outTask n) ∨ p.stack.head? = some (Task.outTask n) := by
  have hruns : ReachableIn (Allowed ⟨False, True, False⟩) (body cfg) Task.control {} p :=
    hp.mono fun _ _ h => ⟨h.1, False.elim, fun _ => h.2⟩
  have hsound : Sound (contract ⟨False, True, True⟩) p := sound hruns
  have hinv : Inv ⟨False, True, True⟩ (ledger p.world) := inv_reachable hruns
  refine ⟨fun t ht hstarted => ?_, fun key n hmem hdead => ?_⟩
  · by_cases hstack : t ∈ p.stack
    · exact .inl hstack
    · obtain ⟨c, hframe⟩ := Option.ne_none_iff_exists'.1 hstarted
      rcases hsound.resting t c hframe hstack with ⟨r, rfl⟩ | ⟨o, k, rfl, hs⟩
      · exact .inr (.inl ⟨hstack, r, hframe⟩)
      · have hparked : Parked _ t (slot o) (ledger p.world) := hsound.parked hframe hs
        obtain ⟨fd, d, hslot, hd, _⟩ := hparked.armed ht trivial hclosed
        exact .inr (.inr ⟨o, fd, d, by rw [Pool.awaits, hframe], hslot, hd⟩)
  · have hstarted : p.frames (Task.outTask n) ≠ none :=
      (frames_ne_none_iff hp.reachable _).2 (.inr (hinv.served key n hmem))
    by_cases hstack : Task.outTask n ∈ p.stack
    · have htail : Task.outTask n ∉ p.stack.tail := not_mem_tail_of_startsNone (startsNone_outTask cfg n) hp.reachable
      refine .inr ?_
      cases hp : p.stack with
      | nil => simp [hp] at hstack
      | cons t rest =>
          rw [hp] at hstack htail
          exact congrArg some ((List.mem_cons.1 hstack).resolve_right htail).symm
    · obtain ⟨c, hframe⟩ := Option.ne_none_iff_exists'.1 hstarted
      rcases hsound.resting _ c hframe hstack with ⟨r, rfl⟩ | ⟨o, k, rfl, hs⟩
      · exact .inl ⟨hstack, r, hframe⟩
      · -- it would be waiting for a read, which only a session that is alive has
        have hparked : Parked _ (Task.outTask n) (slot o) (ledger p.world) := hsound.parked hframe hs
        obtain ⟨fd, d, -, hd, howns⟩ := hparked.armed (by simp) trivial hclosed
        have hfd : (ledger p.world).remoteFd n = none := by
          have halive := (hinv.alive n).symm.trans hdead
          simpa using halive
        obtain ⟨rfl, rfl, hspawned⟩ := howns.of_outTask
        rcases hinv.table n .read hd with ⟨-, h⟩ | h | ⟨-, h⟩
        · exact absurd hspawned h
        · exact absurd hfd h
        · cases h

/-- A run in which writes fail and reads end undisturbed. -/
def undisturbedRun (ts : List Task) : Pool kind.object :=
  runIn (fun w w' => Delivered w w' ∧ Undisturbed w w') (body { remoteHost := [104] }) Task.control {} serves 40 ts

theorem undisturbedRun_reachable (ts : List Task) :
    ReachableIn (fun w w' => Delivered w w' ∧ Undisturbed w w') (body { remoteHost := [104] }) Task.control {}
      (undisturbedRun ts) :=
  runIn_reachableIn _ _ _

/-- A session is read from. -/
theorem nobody_orphaned_session :
    Waiting (undisturbedRun (List.replicate 5 .recvLoop)) (.outTask 0) := by
  have hrun : (undisturbedRun (List.replicate 5 .recvLoop)).world.mem.closed = false ∧
      (undisturbedRun (List.replicate 5 .recvLoop)).stack = [] ∧
      (undisturbedRun (List.replicate 5 .recvLoop)).awaits (Task.outTask 0) =
        some (.inl (.recv (Fd.remote 0) NetStream.readSize)) := by
    decide +kernel
  obtain ⟨hclosed, hstack, hawaits⟩ := hrun
  obtain ⟨k, hframe⟩ := Pool.frames_of_awaits hawaits
  have hreach := undisturbedRun_reachable (List.replicate 5 .recvLoop)
  rcases (nobody_orphaned _ hreach hclosed).1 (.outTask 0) nofun (Option.ne_none_iff_exists'.2 ⟨_, hframe⟩) with
    h | ⟨_, r, h⟩ | h
  · rw [hstack] at h
    exact nomatch h
  · exact nomatch hframe.symm.trans h
  · exact h

/-- A server that no longer takes what it is sent. -/
def refuses (w : World kind.object) : (o : kind.object.Io.Op) → kind.object.Io.Res o
  | .inl (.send _ data) => if data.length ≤ 3 then ⟨-1, by omega⟩ else ⟨data.length, NetOp.accepts_whole data⟩
  | o => serves w o

def orphanedRun (ts : List Task) : Pool kind.object :=
  runIn Delivered (body { remoteHost := [104] }) Task.control {} refuses 40 ts

theorem orphanedRun_reachable (ts : List Task) :
    ReachableIn Delivered (body { remoteHost := [104] }) Task.control {} (orphanedRun ts) :=
  runIn_reachableIn _ _ _

/-- When a write fails, the task of the session waits for a read that nobody completes. -/
theorem outTask_orphaned :
    ¬ ∀ (cfg : VlessClientConfig) (p : Pool kind.object),
      ReachableIn Delivered (body cfg) Task.control {} p → p.world.mem.closed = false →
      ∀ t, t ≠ Task.control → p.frames t ≠ none → t ∈ p.stack ∨ p.Finished t ∨ Waiting p t := by
  intro h
  have hrun : (orphanedRun (List.replicate 5 .recvLoop)).world.mem.closed = false ∧
      (orphanedRun (List.replicate 5 .recvLoop)).stack = [] ∧
      (orphanedRun (List.replicate 5 .recvLoop)).awaits (Task.outTask 0) =
        some (.inl (.recv (Fd.remote 0) NetStream.readSize)) ∧
      (orphanedRun (List.replicate 5 .recvLoop)).world.mem.pending (.remote 0) .read = false := by
    decide +kernel
  obtain ⟨hclosed, hstack, hawaits, hread⟩ := hrun
  obtain ⟨k, hframe⟩ := Pool.frames_of_awaits hawaits
  have hreach := orphanedRun_reachable (List.replicate 5 .recvLoop)
  rcases h _ _ hreach hclosed (.outTask 0) nofun (Option.ne_none_iff_exists'.2 ⟨_, hframe⟩) with
    h | ⟨_, r, h⟩ | ⟨o, fd, d, ho, hslot, hd⟩
  · rw [hstack] at h
    exact nomatch h
  · exact nomatch hframe.symm.trans h
  · obtain rfl : o = .inl (.recv (Fd.remote 0) NetStream.readSize) := Option.some.inj (ho.symm.trans hawaits)
    obtain ⟨rfl, rfl⟩ : Fd.remote 0 = fd ∧ Dir.read = d := by simpa [slot] using hslot
    exact nomatch hd.symm.trans hread

end Socks5UdpRelay

end Cppvless
