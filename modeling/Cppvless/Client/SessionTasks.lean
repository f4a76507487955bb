import Cppvless.Client.Sessions

set_option autoImplicit false

/-! # The coroutines of the UDP relay keep what they promise about descriptors

One rule for each kind of operation, one for each function of the relay, and the contract for all runs at
the end. -/

namespace Cppvless

open Coroutine

namespace Socks5UdpRelay

namespace Sessions

open Ledger

variable {a : Assumed} {t : Task} {n : Nat} {w w' : World kind.object} {l l' : Ledger}

/-! ## Single operations -/

/-- A member function that makes no system call. -/
theorem wp_modify {f : Mem → Mem} {Q : Except Exn Unit → World kind.object → Prop}
    (h : (contract a).Ok w (w.call fun m => (f m, [])) →
      Moves a t (ledger w) ((f w.mem).ledger (Opened w.trace) (closes w.trace) fun u => .spawned u ∈ w.trace) ∧
        Q (.ok ()) (w.call fun m => (f m, []))) :
    wp (contract a) t (modify f) Q w :=
  wp_member_ok (O := kind.object) fun hok =>
    ⟨show Moves _ _ _ _ from (ledger_modify w f).symm ▸ (h hok).1, (h hok).2⟩

/-- One that uses what it returns. -/
theorem wp_update {α : Type} {f : Mem → α × Mem} {Q : Except Exn α → World kind.object → Prop}
    (h : (contract a).Ok w (w.call fun m => ((f m).2, [])) →
      Moves a t (ledger w) ((f w.mem).2.ledger (Opened w.trace) (closes w.trace) fun u => .spawned u ∈ w.trace) ∧
        Q (.ok (f w.mem).1) (w.call fun m => ((f m).2, []))) :
    wp (contract a) t (tracking.tracked (update f)) Q w :=
  have hprog : tracking.tracked (update f) = (do
      let m ← get
      modify fun m => (f m).2
      return (f m).1) := rfl
  hprog ▸ wp_get_seq (O := kind.object) (wp_bind (wp_modify h))

/-- An operation in the table: `J` holds from its entry on and `Q` once it is removed. -/
theorem wp_slot {o : kind.object.Io.Op} {fd : Fd} {d : Dir} {J : Ledger → Prop}
    {Q : kind.object.Io.Res o → Ledger → Prop} (hslot : slot o = some (fd, d))
    (hs : kind.object.suspends o = true) (harm : Moves a t (ledger w) ((ledger w).setPending fd d true))
    (hparked : Parked a t (slot o) ((ledger w).setPending fd d true))
    (hJ : J ((ledger w).setPending fd d true)) (hkept : Kept a t J)
    (hdone : ∀ w₁ r, J (ledger w₁) → (ledger w₁).pending fd d = true →
      (contract a).Ok w₁ (World.answer (O := kind.object) w₁ o r) →
      Moves a t (ledger w₁) ((ledger w₁).setPending fd d false) ∧
        Q r ((ledger w₁).setPending fd d false)) :
    wp (contract a) t (tracking.tracked (Prog.io o)) (Returns fun r w' => Q r (ledger w')) w := by
  refine Tracking.wp_tracked (T := tracking) hslot fun _ => ?_
  have hentered : ledger (w.call fun m => (tracking.arm (fd, d) m, [])) = (ledger w).setPending fd d true :=
    ledger_setPending (fd, d) true
  refine ⟨show Moves _ _ _ _ from hentered ▸ harm, ?_⟩
  refine wp_await_ok (O := kind.object) hs (show Parked _ _ _ _ from hentered ▸ hparked) ?_
  intro w₁ hl r hok
  have hanswer : ledger (World.answer (O := kind.object) w₁ o r) = ledger w₁ := by
    have hopening : opening (.io o r) = none := by
      match o, hslot with
      | .inl (.recv _ _), _ => rfl
      | .inl (.send _ _), _ => rfl
      | .inl (.connect _ _), _ => rfl
      | .inl (.shutdownWr _), _ => rfl
      | .inl (.tlsHandshake _), _ => rfl
      | .inl (.tlsRead _ _), _ => rfl
      | .inl (.tlsWriteFull _ _), _ => rfl
      | .inl (.tlsShutdownWrite _), _ => rfl
      | .inr (.recvFrom _), _ => rfl
      | .inr (.sendTo _ _), _ => rfl
    rw [ledger_answer, hopening]
  have hpending : (ledger w₁).pending fd d = true :=
    hok.2.1 (.io o r) (by simp) (fd, d) (show slot o = some (fd, d) from hslot)
  have hJ₁ : J (ledger w₁) := hkept.later (hentered ▸ hJ) hl
  obtain ⟨hmoves, hQ⟩ := hdone w₁ r hJ₁ hpending hok
  have hremoved : ledger ((World.answer (O := kind.object) w₁ o r).call fun m => (tracking.disarm (fd, d) m, [])) =
      (ledger w₁).setPending fd d false := by
    rw [← hanswer]
    exact ledger_setPending (fd, d) false
  refine ⟨show Moves _ _ _ _ from hanswer.symm ▸ .refl a t _, fun _ => ⟨?_, ?_⟩⟩
  · show Moves _ _ _ _
    rw [hremoved, hanswer]
    exact hmoves
  · show Q r _
    rw [hremoved]
    exact hQ

/-- What `recvLoop` and the tasks do besides touches no descriptor. -/
theorem wp_unnoticed {f : Mem → Mem} {Q : Except Exn Unit → World kind.object → Prop}
    (h : ∀ m opened closes spawned, (f m).ledger opened closes spawned = m.ledger opened closes spawned)
    (hQ : ∀ w', ledger w' = ledger w → Q (.ok ()) w') : wp (contract a) t (modify f) Q w := by
  have hsame := h w.mem (Opened w.trace) (closes w.trace) fun u => .spawned u ∈ w.trace
  exact wp_modify fun _ => ⟨hsame.symm ▸ .refl a t _, hQ _ ((ledger_modify w f).trans hsame)⟩

/-- A session is closed, or was so before. -/
theorem wp_closeSession {Q : Ledger → Prop} (hinv : Inv a (ledger w))
    (hfree : (ledger w).remoteFd n ≠ none → a.undisturbed → (ledger w).closed = false →
      ∀ d, (ledger w).pending (.remote n) d = true → Owns (ledger w) t (.remote n) d)
    (hopen : (ledger w).remoteFd n ≠ none → Q ((ledger w).closeAll (· = n)))
    (hgone : (ledger w).remoteFd n = none → Q (ledger w)) :
    wp (contract a) t (member (closeSession n)) (Returns fun _ w' => Q (ledger w')) w := by
  have hledger := ledger_call w (closeSession n)
  by_cases hfd : (w.mem.session n).remoteFd = none
  · have halive : (w.mem.session n).alive = false := (hinv.alive n).trans (by simp [ledger, Mem.ledger, hfd])
    rw [closeSession_of_closed hfd halive] at hledger
    refine wp_member_ok (O := kind.object) fun _ => ⟨show Moves _ _ _ _ from ?_, show Q _ from ?_⟩
    · rw [hledger]
      exact .refl a t _
    · rw [hledger]
      exact hgone hfd
  · obtain ⟨fd, hfd'⟩ := Option.ne_none_iff_exists'.1 hfd
    obtain rfl := (hinv.held n fd hfd').1
    rw [ledger_closeSession hfd'] at hledger
    refine wp_member_ok (O := kind.object) fun _ => ⟨show Moves _ _ _ _ from ?_, show Q _ from ?_⟩
    · rw [hledger]
      exact moves_closeSession hfd (hfree hfd)
    · rw [hledger]
      exact hopen hfd

/-- `stop` of a relay that is open. -/
theorem ledger_call_stop (hinv : Inv a (ledger w)) (hrun : Running (ledger w)) (hc : w.mem.closed = false) :
    ledger (w.call Socks5UdpRelay.stop) = (ledger w).stop := by
  have hevent : w.mem.eventFd = some .event := (hrun.resolve_left (by simp [ledger, Mem.ledger, hc])).1
  rw [ledger_call]
  exact ledger_stop (fun n fd hfd => (hinv.held n fd hfd).1) hc (hinv.relay hc).1 hevent _

theorem ledger_call_stop_of_closed (hc : w.mem.closed = true) :
    ledger (w.call Socks5UdpRelay.stop) = ledger w := by
  have hstop : Socks5UdpRelay.stop w.mem = (w.mem, []) := by
    simp [Socks5UdpRelay.stop, hc]
  rw [ledger_call, hstop]
  rfl

theorem wp_stop {Q : Ledger → Prop} (hinv : Inv a (ledger w)) (hrun : Running (ledger w))
    (hquiet : (ledger w).closed = false → t = .control ∧ (ledger w).spawned .recvLoop ∨ Quiet (ledger w))
    (hopen : (ledger w).closed = false → Q (ledger w).stop) (hclosed : (ledger w).closed = true → Q (ledger w)) :
    wp (contract a) t (member Socks5UdpRelay.stop) (Returns fun _ w' => Q (ledger w')) w := by
  cases hc : w.mem.closed with
  | true =>
      have hledger := ledger_call_stop_of_closed hc
      refine wp_member_ok (O := kind.object) fun _ => ⟨show Moves _ _ _ _ from ?_, show Q _ from ?_⟩
      · rw [hledger]
        exact .refl a t _
      · rw [hledger]
        exact hclosed hc
  | false =>
      have hledger := ledger_call_stop hinv hrun hc
      refine wp_member_ok (O := kind.object) fun _ => ⟨show Moves _ _ _ _ from ?_, show Q _ from ?_⟩
      · rw [hledger]
        exact moves_stop hrun hc (hquiet hc)
      · rw [hledger]
        exact hopen hc

/-! ## The tasks of sessions -/

/-- The end of the loop of a task. -/
structure Leaves (a : Assumed) (n : Nat) (l : Ledger) : Prop where
  inv : Inv a l
  spawned : l.spawned (.outTask n)
  free : a.undisturbed → l.closed = false → l.remoteFd n ≠ none → l.pending (.remote n) .write = false

/-- A read of the session, as its task makes it. -/
theorem wp_readSession {st : NetStream Fd} (hst : st.fd = .remote n) (hinv : Inv a (ledger w))
    (hspawned : (ledger w).spawned (.outTask n)) (hclosed : (ledger w).closed = false)
    (hfd : (ledger w).remoteFd n ≠ none) :
    wp (contract a) (.outTask n) (tracking.tracked (st.read (K := kind))) (Returns fun rr w' =>
      Serves a n (ledger w') ∧ (rr.eof = true ∨ rr.error = true → Leaves a n (ledger w'))) w := by
  have hcloses : (ledger w).closes (.remote n) = 0 := by
    obtain ⟨fd, hfd⟩ := Option.ne_none_iff_exists'.1 hfd
    exact (hinv.held n fd hfd).2.2
  have harm : Moves a (.outTask n) (ledger w) ((ledger w).setPending (.remote n) .read true) := by
    refine moves_arm (fun m hm => ?_) (fun h => by grind) (fun _ => hcloses) (fun _ m hm => ?_)
    · obtain rfl : n = m := by simpa using hm
      exact .inr (.inl hfd)
    · obtain rfl : n = m := by simpa using hm
      exact hfd
  have howns : ∀ l : Ledger, l.spawned (.outTask n) → Owns l (.outTask n) (.remote n) .read := fun _ h => ⟨rfl, h⟩
  have hserves : Serves a n ((ledger w).setPending (.remote n) .read true) :=
    ⟨harm.inv hinv, hspawned, fun _ hc => absurd (hclosed.symm.trans hc) nofun⟩
  have hparked : Parked a (.outTask n) (some (.remote n, .read)) ((ledger w).setPending (.remote n) .read true) :=
    ⟨harm.inv hinv, fun _ _ _ => ⟨_, _, rfl, by simp, howns _ hspawned⟩, hserves.2⟩
  -- both kinds of stream read with one operation
  have hread : ∀ (o : NetOp Fd) (rr : o.Res → RecvResult), slot (.inl o) = some (.remote n, .read) →
      kind.object.suspends (.inl o) = true →
      (∀ r, (rr r).eof = true ∨ (rr r).error = true → readEnded (.io (.inl o) r) = some n) →
      wp (contract a) (.outTask n) (tracking.tracked (awaitNet o)) (Returns fun r w' =>
        Serves a n (ledger w') ∧ ((rr r).eof = true ∨ (rr r).error = true → Leaves a n (ledger w'))) w := by
    intro o rr hslot hs hended
    refine wp_slot (Q := fun r l => Serves a n l ∧ ((rr r).eof = true ∨ (rr r).error = true → Leaves a n l))
      hslot hs harm (hslot.symm ▸ hparked) hserves kept_serves ?_
    intro w₁ r hw₁ hpending hok
    have hmoves := moves_disarm (a := a) hw₁.1 (howns _ hw₁.2.1)
    refine ⟨hmoves, ⟨hmoves.inv hw₁.1, hw₁.2⟩, fun hend => ⟨hmoves.inv hw₁.1, hw₁.2.1, fun ha _ _ => ?_⟩⟩
    have hwrite : (ledger w₁).pending (.remote n) .write = false :=
      (hok.2.2.2.1 ha (.io (.inl o) r) (by simp)).2 n (hended r hend)
    simpa using hwrite
  cases st with
  | async fd =>
      obtain rfl : fd = .remote n := hst
      unfold NetStream.read
      rw [Tracking.tracked_bind]
      refine wp_then (hread (.recv (.remote n) _) Subtype.val rfl rfl fun r hr => ?_) fun r w' h => h
      simp only [readEnded]
      rcases hr with h | h <;> simp [h]
  | tls fd =>
      obtain rfl : fd = .remote n := hst
      unfold NetStream.read
      rw [Tracking.tracked_bind]
      refine wp_then (hread (.tlsRead (.remote n) _) Subtype.val rfl rfl fun r hr => ?_) fun r w' h => h
      simp only [readEnded]
      rcases hr with h | h <;> simp [h]

/-- The operations that touch no descriptor. -/
def Unnoticed : ObjOp kind.object → Prop
  | .get => True
  | .member f => ∀ m, (f m).2 = [] ∧
      ∀ opened closes spawned, (f m).1.ledger opened closes spawned = m.ledger opened closes spawned
  | _ => False

theorem brackets_unnoticed (J : Ledger → Prop) :
    tracking.Brackets (contract a) t Unnoticed fun w => J (ledger w) where
  member f w hf hw _ := by
    have hsame : ledger (w.call f) = ledger w := by
      rw [ledger_call, (hf w.mem).1]
      exact (hf w.mem).2 _ _ _
    exact ⟨show Moves _ _ _ _ from hsame ▸ .refl a t _, hsame ▸ hw⟩
  io _ _ h := h.elim
  spawn _ h := h

theorem only_enqueueFrames (n : Nat) (data : Bytes) : Only Unnoticed (enqueueFrames n data) := by
  refine .loop fun pos => .ite (fun _ => .ite (fun _ => trivial) fun _ => ?_) fun _ => trivial
  refine .bind (.bind (.await trivial) fun m => .ite (fun _ => trivial) fun _ => ?_) fun _ => trivial
  exact .bind (c := Coro.ofExcept _) trivial fun data => .await fun _ => ⟨rfl, fun _ _ _ => rfl⟩

theorem wp_readFrames (hw : Inv a (ledger w)) (hspawned : (ledger w).spawned (.outTask n)) :
    wp (contract a) (.outTask n) (tracking.tracked (readFrames n))
      (Ends (fun _ w' => Leaves a n (ledger w')) fun w' => Serves a n (ledger w')) w := by
  refine wp_loop (fun _ w => Inv a (ledger w) ∧ (ledger w).spawned (.outTask n)) ⟨hw, hspawned⟩ ?_
  rintro _ w ⟨hinv, hspawned⟩
  refine Tracking.wp_tracked_get (T := tracking) ?_
  cases hopen : openStream n w.mem with
  | none =>
      refine ⟨hinv, hspawned, fun _ hclosed hfd => ?_⟩
      -- the session is there, so it has a stream
      have hstream : (w.mem.session n).stream ≠ none := hinv.reads n hfd
      have halive : (w.mem.session n).alive = true :=
        (hinv.alive n).trans (Option.isSome_iff_ne_none.2 hfd)
      have hsome : (w.mem.session n).remoteFd.isSome = true := Option.isSome_iff_ne_none.2 hfd
      have hclosed : w.mem.closed = false := hclosed
      simp only [openStream, hclosed, halive, hsome, Bool.not_false, Bool.and_self, if_true] at hopen
      exact absurd hopen hstream
  | some st =>
      have hguard : w.mem.closed = false ∧ (w.mem.session n).remoteFd.isSome = true ∧
          (w.mem.session n).stream = some st := by
        unfold openStream at hopen
        split at hopen
        · next h =>
            simp only [Bool.and_eq_true, Bool.not_eq_true'] at h
            exact ⟨h.1.1, h.2, hopen⟩
        · cases hopen
      obtain ⟨hclosed, hfd, hstream⟩ := hguard
      dsimp only
      rw [Tracking.tracked_bind]
      refine wp_then (wp_readSession (hinv.stream n st hstream) hinv hspawned hclosed
        (Option.isSome_iff_ne_none.1 hfd)) ?_
      rintro rr w' ⟨hserves, hleaves⟩
      by_cases heof : rr.eof = true
      · rw [if_pos heof]
        exact hleaves (.inl heof)
      · rw [if_neg heof]
        by_cases herror : rr.error = true
        · rw [if_pos herror]
          exact hleaves (.inr herror)
        · rw [if_neg herror]
          by_cases hnil : rr.data = []
          · rw [if_pos hnil]
            exact ⟨hserves.1, hserves.2.1⟩
          · rw [if_neg hnil, Tracking.tracked_bind]
            refine wp_seq (Tracking.wp_tracked_of_uses (T := tracking) (brackets_unnoticed (Serves a n))
              (only_enqueueFrames n rr.data) hserves) ?_ ?_
            · exact fun _ w'' hw'' => ⟨hw''.1, hw''.2.1⟩
            · exact fun _ w'' hw'' => hw''

theorem wp_sessionOutTask (hw : Inv a (ledger w)) (hspawned : (ledger w).spawned (.outTask n)) :
    wp (contract a) (.outTask n) (tracking.tracked (sessionOutTask n)) (fun _ w' => Serves a n (ledger w')) w := by
  unfold sessionOutTask
  rw [Tracking.tracked_bind]
  refine wp_seq (wp_readFrames hw hspawned) (fun _ w' hw' => ?_) fun _ w' hw' => hw'
  refine wp_returns (wp_closeSession (Q := Serves a n) hw'.inv ?_ ?_ ?_) fun _ w'' h => h
  · intro hfd ha hc d hd
    cases d with
    | read => exact ⟨rfl, hw'.spawned⟩
    | write => exact absurd hd (by simp [hw'.free ha hc hfd])
  · intro hfd
    have hmoves := inv_closeAll (S := (· = n)) (fun m hm => hm ▸ hfd) hw'.inv
    exact ⟨hmoves, hw'.spawned, fun _ _ => (closeAll_of (S := (· = n)) rfl).1⟩
  · exact fun hfd => ⟨hw'.inv, hw'.spawned, fun _ _ => hfd⟩

/-! ## The loop that answers -/

/-- `sendLoop` uses descriptors of the relay while it is open. -/
theorem wp_sendLoop_await {o : kind.object.Io.Op} {fd : Fd} {d : Dir} (hslot : slot o = some (fd, d))
    (hs : kind.object.suspends o = true) (howns : ∀ l, Owns l .sendLoop fd d) (hw : Inv a (ledger w))
    (hclosed : (ledger w).closed = false) :
    wp (contract a) .sendLoop (tracking.tracked (Prog.io o)) (Returns fun _ w' => Inv a (ledger w')) w := by
  have hrelay : fd = .udp ∨ fd = .event := by
    have h := howns (ledger w)
    cases fd with
    | udp => exact .inl rfl
    | event => exact .inr rfl
    | remote n => cases d <;> exact h.elim
  have hcloses : (ledger w).closes fd = 0 := by
    rcases hrelay with rfl | rfl
    · exact (hw.relay hclosed).2.1
    · exact (hw.relay hclosed).2.2
  have harm : Moves a .sendLoop (ledger w) ((ledger w).setPending fd d true) := by
    refine moves_arm (fun m hm => ?_) (fun _ => hclosed) (fun _ => hcloses) (fun _ m hm => ?_)
    · subst hm
      exact absurd hrelay (by simp)
    · subst hm
      exact absurd hrelay (by simp)
  refine wp_slot (J := Inv a) (Q := fun _ => Inv a) hslot hs harm ?_ (harm.inv hw) kept_inv ?_
  · exact ⟨harm.inv hw, fun _ _ _ => ⟨fd, d, hslot, by simp, howns _⟩, trivial⟩
  · intro w₁ r hw₁ _ _
    have hmoves := moves_disarm (a := a) hw₁ (howns (ledger w₁))
    exact ⟨hmoves, hmoves.inv hw₁⟩

theorem wp_drainQueue (hw : Inv a (ledger w)) :
    wp (contract a) .sendLoop (tracking.tracked drainQueue) (Returns fun _ w' => Inv a (ledger w')) w := by
  refine wp_loop (fun _ w => Inv a (ledger w)) hw ?_
  intro _ w hw
  refine Tracking.wp_tracked_get (T := tracking) ?_
  cases w.mem.sendQueue with
  | nil => exact hw
  | cons item rest =>
      dsimp only
      by_cases hclosed : w.mem.closed = true
      · rw [if_pos hclosed]
        exact hw
      · rw [if_neg hclosed, Tracking.tracked_bind]
        refine wp_bind (wp_unnoticed (fun _ _ _ _ => rfl) fun w' hsame => ?_)
        rw [Tracking.tracked_bind]
        refine wp_then (wp_sendLoop_await (o := .inr (.sendTo item.data item.src)) rfl rfl (fun _ => trivial)
          (hsame ▸ hw) ?_) ?_
        · rw [hsame]
          exact Bool.eq_false_iff.2 hclosed
        · intro sent w'' hw''
          by_cases hsent : (sent : Int) ≤ 0
          · rw [if_pos hsent]
            exact hw''
          · rw [if_neg hsent]
            exact hw''

theorem wp_sendLoop (hw : Inv a (ledger w)) :
    wp (contract a) .sendLoop (tracking.tracked sendLoop) (Returns fun _ w' => Inv a (ledger w')) w := by
  refine wp_loop (fun _ w => Inv a (ledger w)) hw ?_
  intro _ w hw
  show wp (contract a) .sendLoop (tracking.tracked (if w.mem.closed then _ else _)) _ w
  by_cases hclosed : w.mem.closed = true
  · rw [if_pos hclosed]
    exact hw
  · rw [if_neg hclosed, Tracking.tracked_bind]
    refine wp_then (wp_sendLoop_await (o := .inl (.recv .event 4096)) rfl rfl (fun _ => trivial) hw
      (Bool.eq_false_iff.2 hclosed)) ?_
    intro rr w' hw'
    by_cases herror : rr.1.error = true
    · rw [if_pos herror]
      exact hw'
    · rw [if_neg herror, Tracking.tracked_bind]
      refine wp_bind (wp_unnoticed (fun _ _ _ _ => rfl) fun w'' hsame => ?_)
      rw [Tracking.tracked_bind]
      exact wp_then (wp_drainQueue (hsame ▸ hw')) fun _ _ h => h

/-! ## The handshake -/

/-- Nothing is in flight. -/
abbrev idle : Dir → Bool := fun _ => false

/-- `recvLoop` is setting up the socket `n` for a session under `key`: `b` says whether it was opened,
    `c` how often it was closed, `p` what is in flight on it. -/
structure Setting (a : Assumed) (key : Key) (n : Nat) (b : Prop) (c : Nat) (p : Dir → Bool) (l : Ledger) :
    Prop where
  inv : Inv a l
  running : Running l
  begun : l.spawned .recvLoop
  connecting : l.connecting = some n
  stale : l.stale = none
  task : ¬ l.spawned (.outTask n)
  fd : l.remoteFd n = none ∧ (l.opened (.remote n) ↔ b) ∧ l.closes (.remote n) = c ∧
    l.pending (.remote n) = p
  key : ∀ m, (key, m) ∈ l.sessions → l.remoteFd m = none

theorem kept_task : Kept a .recvLoop fun l => ¬ l.spawned (.outTask n) :=
  fun _ _ h ⟨⟨_, hu, hm⟩, _, _⟩ hs => h ((hm.others hu).spawned n hs)

theorem kept_key (key : Key) : Kept a .recvLoop fun l => ∀ m, (key, m) ∈ l.sessions → l.remoteFd m = none :=
  fun _ _ h ⟨⟨_, hu, hm⟩, _, _⟩ m hmem =>
    ((hm.others hu).free m (h m ((hm.others hu).sessions _ hmem))).1

theorem kept_setting {key : Key} {b : Prop} {c : Nat} {p : Dir → Bool} :
    Kept a .recvLoop (Setting a key n b c p) := fun l l' h hr =>
  ⟨kept_inv l l' h.inv hr, kept_running l l' h.running hr, kept_spawned _ l l' h.begun hr,
    kept_connecting _ l l' h.connecting hr, kept_stale _ l l' h.stale hr, kept_task l l' h.task hr,
    kept_free l l' h.fd hr, kept_key key l l' h.key hr⟩

/-- Operations of the handshake on the open socket. -/
theorem wp_handshakeOp {key : Key} {o : NetOp Fd} {d : Dir} (hslot : slot (.inl o) = some (.remote n, d))
    (hs : kind.object.suspends (.inl o) = true) (hw : Setting a key n True 0 idle (ledger w)) :
    wp (contract a) .recvLoop (tracking.tracked (awaitNet o)) (Returns fun _ w' =>
      Setting a key n True 0 idle (ledger w')) w := by
  obtain ⟨hfd, hb, hc, hp⟩ := hw.fd
  have harm : Moves a .recvLoop (ledger w) ((ledger w).setPending (.remote n) d true) := by
    refine moves_arm (fun m hm => ?_) (fun h => by grind) (fun _ => hc) (absurd rfl)
    obtain rfl : n = m := by simpa using hm
    exact .inl ⟨hw.connecting, hw.task⟩
  have hpending : ((ledger w).setPending (.remote n) d true).pending (.remote n) =
      Function.update idle d true := by
    funext d'
    rw [setPending_pending, hp, Function.update_apply]
    simp
  have howns : ∀ l : Ledger, ¬ l.spawned (.outTask n) → Owns l .recvLoop (.remote n) d := by
    intro l hl
    cases d with
    | read => exact hl
    | write => trivial
  have hwaiting : Setting a key n True 0 (Function.update idle d true)
      ((ledger w).setPending (.remote n) d true) :=
    ⟨harm.inv hw.inv, hw.running, hw.begun, hw.connecting, hw.stale, hw.task, ⟨hfd, hb, hc, hpending⟩, hw.key⟩
  refine wp_slot (Q := fun _ => Setting a key n True 0 idle) hslot hs harm ?_ hwaiting kept_setting ?_
  · refine ⟨harm.inv hw.inv, fun _ _ _ => ⟨_, _, hslot, by simp, howns _ hw.task⟩, fun m hm => ?_, fun m hm => ?_⟩
    · obtain rfl : n = m := Option.some.inj (hw.connecting.symm.trans hm)
      exact ⟨⟨hfd, hb.2 trivial, hc⟩, d, hslot, by simp⟩
    · exact absurd (hw.stale.symm.trans hm) nofun
  · intro w₁ r hw₁ _ _
    obtain ⟨hfd, hb, hc, hp⟩ := hw₁.fd
    have hmoves := moves_disarm (a := a) hw₁.inv (howns _ hw₁.task)
    refine ⟨hmoves, hmoves.inv hw₁.inv, hw₁.running, hw₁.begun, hw₁.connecting, hw₁.stale, hw₁.task,
      ⟨hfd, hb, hc, ?_⟩, hw₁.key⟩
    funext d'
    rw [setPending_pending, hp, Function.update_apply]
    simp

/-- The operations of a stream over the socket. -/
def OnSocket (n : Nat) : ObjOp kind.object → Prop
  | .get => True
  | .io o => ∃ d, slot o = some (.remote n, d) ∧ kind.object.suspends o = true ∧ ∃ o', o = .inl o'
  | _ => False

theorem brackets_onSocket (key : Key) :
    tracking.Brackets (contract a) .recvLoop (OnSocket n) fun w =>
      Setting a key n True 0 idle (ledger w) where
  member _ _ h := h.elim
  io o w h hw := by
    obtain ⟨d, hslot, hs, o', rfl⟩ := h
    exact wp_handshakeOp hslot hs hw
  spawn _ h := h

theorem onSocket_reads {o : NetOp Fd} (h : o.Reads (.remote n)) : OnSocket n (.io (.inl o)) := by
  cases o with
  | recv fd _ =>
      obtain rfl : fd = .remote n := h
      exact ⟨.read, rfl, rfl, _, rfl⟩
  | tlsRead fd _ =>
      obtain rfl : fd = .remote n := h
      exact ⟨.read, rfl, rfl, _, rfl⟩
  | _ => exact h.elim

theorem onSocket_writes {o : NetOp Fd} (h : o.Writes (.remote n)) : OnSocket n (.io (.inl o)) := by
  cases o with
  | send fd _ =>
      obtain rfl : fd = .remote n := h
      exact ⟨.write, rfl, rfl, _, rfl⟩
  | tlsWriteFull fd _ =>
      obtain rfl : fd = .remote n := h
      exact ⟨.write, rfl, rfl, _, rfl⟩
  | _ => exact h.elim

/-- An operation that is answered on the spot. -/
theorem wp_ask {o : kind.object.Io.Op} {Q : Except Exn (kind.object.Io.Res o) → World kind.object → Prop}
    (hslot : slot o = none) (hs : kind.object.suspends o = false)
    (hmoves : ∀ r fd, opening (.io o r) = some fd → Moves a t (ledger w) ((ledger w).openFd fd))
    (hQ : ∀ r w', ledger w' = (match opening (.io o r) with
      | none => ledger w
      | some fd => (ledger w).openFd fd) → Q (.ok r) w') :
    wp (contract a) t (tracking.tracked (Prog.io o)) Q w := by
  refine Tracking.wp_untracked (T := tracking) hslot (wp_call_ok (O := kind.object) hs fun r _ => ⟨?_, hQ r _ (ledger_answer w o r)⟩)
  show Moves _ _ _ _
  rw [ledger_answer]
  cases h : opening (.io o r) with
  | none => exact .refl a t _
  | some fd => exact hmoves r fd h

variable {key : Key}

/-- How the handshake ends. -/
def Handshaken (a : Assumed) (key : Key) (n : Nat) :
    Except Exn (Option (NetStream Fd × Bytes)) → World kind.object → Prop
  | .ok none, w => ∃ b c, Setting a key n b c idle (ledger w) ∧ (b → c = 1)
  | .ok (some x), w => x.1.fd = .remote n ∧ Setting a key n True 0 idle (ledger w)
  | .error _, w => Setting a key n True 0 idle (ledger w)

theorem wp_giveUp (hw : Setting a key n True 0 idle (ledger w)) :
    wp (contract a) .recvLoop (tracking.tracked (VlessClient.giveUp (K := kind) (.remote n)))
      (Handshaken a key n) w := by
  obtain ⟨hfd, hb, hc, hp⟩ := hw.fd
  have hledger : ledger (w.call fun m => (m, [Syscall.close (Fd.remote n)])) = (ledger w).closeFd (.remote n) := by
    rw [ledger_call]
    unfold closeFd
    congr 1
    funext fd
    by_cases h : fd = .remote n
    · subst h
      simp [ledger, Mem.ledger]
    · simp [h, Ne.symm h, ledger, Mem.ledger]
  have hmoves : Moves a .recvLoop (ledger w) ((ledger w).closeFd (.remote n)) :=
    moves_closeFd hw.connecting hfd (hb.2 trivial) hc (congrFun hp)
  unfold VlessClient.giveUp
  rw [Tracking.tracked_bind]
  refine wp_bind (wp_member_ok (O := kind.object) fun _ => ⟨show Moves _ _ _ _ from hledger ▸ hmoves, ?_⟩)
  refine ⟨True, 1, ?_, fun _ => rfl⟩
  rw [hledger]
  refine ⟨hmoves.inv hw.inv, hw.running, hw.begun, hw.connecting, hw.stale, hw.task, ⟨hfd, hb, ?_, hp⟩, hw.key⟩
  simp [closeFd, hc]

variable (cfg : VlessClientConfig)

theorem wp_openStream (hw : Setting a key n True 0 idle (ledger w)) :
    wp (contract a) .recvLoop (tracking.tracked (VlessClient.openStream (K := kind) (.remote n) cfg))
      (Returns fun st w' => (∀ s ∈ st, s.fd = .remote n) ∧ Setting a key n True 0 idle (ledger w')) w := by
  unfold VlessClient.openStream
  by_cases htls : cfg.tlsEnabled = true
  · rw [if_pos htls]
    by_cases hctx : (!cfg.tlsCtx) = true
    · rw [if_pos hctx]
      exact ⟨nofun, hw⟩
    · rw [if_neg hctx, Tracking.tracked_bind]
      refine wp_then (wp_handshakeOp (o := .tlsHandshake (.remote n)) rfl rfl hw) ?_
      intro ok w' hw'
      refine ⟨fun s hs => ?_, hw'⟩
      cases ok with
      | false => exact nomatch hs
      | true =>
          obtain rfl : NetStream.tls (Fd.remote n) = s := by simpa using hs
          rfl
  · rw [if_neg htls]
    refine ⟨fun s hs => ?_, hw⟩
    obtain rfl : NetStream.async (Fd.remote n) = s := by simpa using hs
    rfl

theorem only_exchangeHeaders (req : Request) {st : NetStream Fd} (hst : st.fd = .remote n) :
    Only (OnSocket n) (VlessClient.exchangeHeaders (K := kind) cfg req st) := by
  refine .bind (c := Coro.ofExcept _) trivial fun bytes => ?_
  refine .bind (st.only_writeFull (K := kind) _ fun o ho => onSocket_writes (hst ▸ ho)) fun _ => ?_
  refine .ite (fun _ => trivial) fun _ => .bind ?_ fun (ok, buffered) => ?_
  · exact UringBufferedStream.only_parse (st.only_read (K := kind) _ fun o ho => onSocket_reads (hst ▸ ho)) _ _
  · exact .bind (c := Coro.ofExcept ok) trivial fun _ => trivial

theorem wp_handshake (req : Request) (hw : Setting a key n False 0 idle (ledger w)) :
    wp (contract a) .recvLoop
      (tracking.tracked (VlessClient.vlessConnectAndHandshake (K := kind) (.remote n) cfg req))
      (Handshaken a key n) w := by
  unfold VlessClient.vlessConnectAndHandshake VlessClient.resolveRemote
  rw [Tracking.tracked_bind, Tracking.tracked_bind]
  refine wp_bind (wp_bind (wp_ask (o := .inl (.getaddrinfo _ _ _)) rfl rfl (fun _ _ h => by cases h) fun res w hsame => ?_))
  have hw : Setting a key n False 0 idle (ledger w) := hsame ▸ hw
  dsimp only
  cases (res : Option (List SockAddr)).bind List.head? with
  | none => exact ⟨False, 0, hw, False.elim⟩
  | some remoteAddr =>
      refine Tracking.wp_tracked_pure (T := tracking) ?_
      dsimp only
      rw [Tracking.tracked_bind]
      have hmoves : Moves a .recvLoop (ledger w) ((ledger w).openFd (.remote n)) := moves_openFd hw.connecting
      refine wp_bind (wp_ask (o := .inl (.socket (.remote n) remoteAddr.family .stream)) rfl rfl ?_ ?_)
      · intro r fd h
        have hr : (if (r : Bool) then some (Fd.remote n) else none) = some fd := h
        split at hr
        · obtain rfl := Option.some.inj hr
          exact hmoves
        · cases hr
      intro opened w' hledger
      cases opened with
      | false =>
          have hsame : ledger w' = ledger w := hledger
          simp only [Bool.not_false, if_true]
          exact ⟨False, 0, hsame ▸ hw, False.elim⟩
      | true =>
          have hopened : ledger w' = (ledger w).openFd (.remote n) := hledger
          obtain ⟨hfd, hb, hc, hp⟩ := hw.fd
          have hw' : Setting a key n True 0 idle (ledger w') := by
            rw [hopened]
            exact ⟨hmoves.inv hw.inv, hmoves.running hw.running, hw.begun, hw.connecting, hw.stale, hw.task,
              ⟨hfd, iff_of_true (.inr rfl) trivial, hc, hp⟩, hw.key⟩
          simp only [Bool.not_true, Bool.false_eq_true, if_false]
          rw [Tracking.tracked_bind]
          refine wp_then (wp_handshakeOp (o := .connect (.remote n) remoteAddr) rfl rfl hw') ?_
          intro result w hw
          by_cases hneg : (result : Int) < 0
          · rw [if_pos hneg]
            exact wp_giveUp hw
          · rw [if_neg hneg, Tracking.tracked_bind]
            refine wp_then (wp_openStream cfg hw) ?_
            rintro st w ⟨hst, hw⟩
            cases st with
            | none => exact wp_giveUp hw
            | some st =>
                have hst : st.fd = .remote n := hst st rfl
                dsimp only
                rw [Tracking.tracked_bind]
                refine wp_seq (Tracking.wp_tracked_of_uses (T := tracking) (brackets_onSocket key)
                  (only_exchangeHeaders cfg req hst) hw) (fun remaining w' hw' => ?_) fun _ w' hw' => hw'
                cases remaining with
                | none => exact wp_giveUp hw'
                | some remaining => exact ⟨hst, hw'⟩

/-! ## The loop that receives -/

/-- `recvLoop` is at none of the sockets. -/
structure Idle (a : Assumed) (l : Ledger) : Prop where
  inv : Inv a l
  running : Running l
  begun : l.spawned .recvLoop
  connecting : l.connecting = none
  stale : l.stale = none

theorem kept_idle : Kept a .recvLoop (Idle a) := fun l l' h hr =>
  ⟨kept_inv l l' h.inv hr, kept_running l l' h.running hr, kept_spawned _ l l' h.begun hr,
    kept_connecting _ l l' h.connecting hr, kept_stale _ l l' h.stale hr⟩

theorem setting_nextSocket (hw : Idle a l) (hkey : ∀ m, (key, m) ∈ l.sessions → l.remoteFd m = none) :
    Setting a key l.nextRemote False 0 idle l.nextSocket := by
  obtain ⟨hopened, htask, -⟩ := hw.inv.fresh l.nextRemote (Nat.le_refl _)
  have hfd : l.remoteFd l.nextRemote = none := by
    by_contra hfd
    obtain ⟨fd, hfd⟩ := Option.ne_none_iff_exists'.1 hfd
    exact hopened (hw.inv.held _ fd hfd).2.1
  have hmoves : Moves a .recvLoop l l.nextSocket := moves_nextSocket hw.connecting hw.begun
  refine ⟨hmoves.inv hw.inv, hw.running, hw.begun, rfl, hw.stale, htask, ⟨hfd, iff_of_false hopened id,
    hw.inv.unopened _ hopened, ?_⟩, hkey⟩
  funext d
  by_contra hd
  have hd : l.pending (.remote l.nextRemote) d = true := by
    have hd : ¬ l.pending (.remote l.nextRemote) d = false := hd
    simpa using hd
  have htable := hw.inv.table l.nextRemote d hd
  simp [hw.connecting, hw.stale, hfd] at htable

/-- There is a session, and it is being stored. -/
structure Made (a : Assumed) (key : Key) (n : Nat) (l : Ledger) : Prop where
  inv : Inv a l
  running : Running l
  begun : l.spawned .recvLoop
  connecting : l.connecting = some n
  stale : l.stale = none
  task : l.spawned (.outTask n)
  gone : l.remoteFd n = none → l.closes (.remote n) = 1
  stored : a.stored → l.remoteFd n ≠ none
  key : ∀ m, m ≠ n → (key, m) ∈ l.sessions → l.remoteFd m = none

theorem kept_made : Kept a .recvLoop (Made a key n) := by
  intro l l' h hr
  obtain ⟨u, hu, hm⟩ := hr.moves
  have hothers := hm.others hu
  refine ⟨hm.inv h.inv, hm.running h.running, hm.spawned _ h.begun, kept_connecting _ _ _ h.connecting hr,
    kept_stale _ _ _ h.stale hr, hm.spawned _ h.task, fun hfd' => ?_, fun ha => hr.stored ha n h.connecting (h.stored ha),
    fun m hmn hmem => (hothers.free m (h.key m hmn (hothers.sessions _ hmem))).1⟩
  by_cases hfd : l.remoteFd n = none
  · exact (hothers.free n hfd).2.1.trans (h.gone hfd)
  · obtain ⟨fd, hsome⟩ := Option.ne_none_iff_exists'.1 hfd
    rw [(hothers.shut n hfd hfd').1, (h.inv.held n fd hsome).2.2]

/-- The session `getOrCreateSession` has found or created. -/
def Found (a : Assumed) (r : Option Nat) (l : Ledger) : Prop := ∀ n ∈ r, a.stored → l.remoteFd n ≠ none

/-- How `recvLoop` ends if the handshake throws. -/
def Thrown (a : Assumed) (l : Ledger) : Prop := Post a l .recvLoop

theorem Setting.thrown (h : Setting a key n True 0 idle l) : Thrown a l := by
  refine ⟨h.inv, h.stale, fun m hm => ?_⟩
  obtain rfl : n = m := Option.some.inj (h.connecting.symm.trans hm)
  exact ⟨⟨h.fd.1, h.fd.2.1.2 trivial, h.fd.2.2.1⟩, congrFun h.fd.2.2.2⟩

/-- The session is made, its task started, and then it is stored. -/
theorem wp_insertSession {session : Session} {st : NetStream Fd} (hfd : session.remoteFd = some (.remote n))
    (hstream : session.stream = some st) (halive : session.alive = true) (hst : st.fd = .remote n)
    (hw : Setting a key n True 0 idle (ledger w)) :
    wp (contract a) .recvLoop (tracking.tracked (do
      modify (Mem.setSession n session)
      Prog.spawn (O := kind.object) (Task.outTask n)
      modify (Mem.addSession key n)
      return some n)) (Returns fun r w' => Idle a (ledger w') ∧ Found a r (ledger w')) w := by
  obtain ⟨-, hb, hc, -⟩ := hw.fd
  have hmoves : Moves a .recvLoop (ledger w) ((ledger w).create n st) :=
    moves_create hst hw.connecting (hb.2 trivial) hc hw.task
  have hcreated : (w.mem.setSession n session).ledger (Opened w.trace) (closes w.trace)
      (fun u => .spawned u ∈ w.trace) = (ledger w).create n st := by
    unfold ledger Mem.ledger create Mem.setSession
    congr 1 <;> funext m <;> by_cases hm : m = n <;> simp [hm, hfd, hstream, halive]
  rw [Tracking.tracked_bind]
  refine wp_bind (wp_modify fun _ => ⟨by rw [hcreated]; exact hmoves, ?_⟩)
  have hledger := (ledger_modify w (Mem.setSession n session)).trans hcreated
  generalize w.call (fun m => (m.setSession n session, [])) = w₁ at hledger ⊢
  -- from here on the task may close the session
  have hfd₁ : ((ledger w).create n st).remoteFd n ≠ none := by simp [create]
  have hspawn : Moves a .recvLoop (ledger w₁) ((ledger w₁).spawn (.outTask n)) :=
    moves_spawn_outTask (hledger ▸ hfd₁)
  have hstarted : ledger (World.start (O := kind.object) w₁ (Task.outTask n)) =
      (ledger w₁).spawn (.outTask n) := ledger_start w₁ _
  have hinv : Inv a ((ledger w₁).spawn (.outTask n)) := hspawn.inv (hledger ▸ hmoves.inv hw.inv)
  have hmade : Made a key n ((ledger w₁).spawn (.outTask n)) := by
    rw [hledger] at hinv ⊢
    refine ⟨hinv, hw.running, .inl hw.begun, hw.connecting, hw.stale, .inr rfl, fun h => absurd h hfd₁,
      fun _ => hfd₁, fun m hm hmem => ?_⟩
    simpa [create, spawn, hm] using hw.key m hmem
  rw [Tracking.tracked_bind]
  refine wp_bind (wp_spawn (O := kind.object) fun _ => ⟨?_, ?_, fun w₂ hl => ?_⟩)
  · exact show Moves _ _ _ _ from hstarted ▸ hspawn
  · show Pre a (ledger (World.start (O := kind.object) w₁ (Task.outTask n))) (.outTask n)
    rw [hstarted]
    exact ⟨hinv, .inr rfl⟩
  have hw₂ : Made a key n (ledger w₂) := kept_made.later (hstarted ▸ hmade) hl
  have hstore : Moves a .recvLoop (ledger w₂) ((ledger w₂).store key n) :=
    moves_store hw₂.connecting hw₂.task hw₂.gone hw₂.key
  show wp (contract a) .recvLoop (tracking.tracked (modify (Mem.addSession key n) >>= fun _ => pure (some n))) _ w₂
  rw [Tracking.tracked_bind]
  refine wp_bind (wp_modify fun _ => ⟨hstore, ?_⟩)
  have hend : ledger (w₂.call fun m => (m.addSession key n, [])) = (ledger w₂).store key n := ledger_modify w₂ _
  refine ⟨hend ▸ ⟨hstore.inv hw₂.inv, hw₂.running, hw₂.begun, rfl, hw₂.stale⟩, fun m hm ha => ?_⟩
  obtain rfl : n = m := by simpa using hm
  exact hend ▸ hw₂.stored ha

theorem wp_createSession (dest : Address) (port : UInt16) (hw : Idle a (ledger w))
    (hkey : ∀ m, ((dest, port), m) ∈ (ledger w).sessions → (ledger w).remoteFd m = none) :
    wp (contract a) .recvLoop (tracking.tracked (createSession cfg dest port))
      (Ends (fun r w' => Idle a (ledger w') ∧ Found a r (ledger w')) fun w' => Thrown a (ledger w')) w := by
  unfold createSession
  rw [Tracking.tracked_bind]
  -- the next socket
  have hledger := ledger_modify w fun m => (Mem.nextSocket m).2
  have hsetting := setting_nextSocket hw hkey
  refine wp_bind (wp_update fun _ => ⟨moves_nextSocket hw.connecting hw.begun, ?_⟩)
  show wp (contract a) .recvLoop (tracking.tracked (VlessClient.vlessConnectAndHandshake (K := kind)
    (.remote w.mem.nextRemote) cfg _ >>= _)) _ _
  rw [Tracking.tracked_bind]
  generalize hn : w.mem.nextRemote = n at *
  have hn : (ledger w).nextRemote = n := hn
  rw [hn] at hsetting
  refine wp_bind (wp_mono (wp_handshake cfg _ (show Setting a (dest, port) n False 0 idle _ from ?_)) ?_)
  · rw [hledger]
    exact hsetting
  intro r w hr
  match r, hr with
  | .error _, hw => exact hw.thrown
  | .ok none, ⟨b, c, hw, hgone⟩ =>
      obtain ⟨hfd, hb, hc, hp⟩ := hw.fd
      have hmoves : Moves a .recvLoop (ledger w) (ledger w).drop :=
        moves_drop hw.connecting hfd (fun ho => hc.trans (hgone (hb.1 ho))) (congrFun hp)
      dsimp only
      rw [Tracking.tracked_bind]
      refine wp_bind (wp_modify fun _ => ⟨hmoves, ?_⟩)
      refine ⟨?_, nofun⟩
      rw [ledger_modify]
      exact ⟨hmoves.inv hw.inv, hw.running, hw.begun, rfl, hw.stale⟩
  | .ok (some (st, _)), ⟨hst, hw⟩ =>
      subst hn
      exact wp_returns (wp_insertSession rfl rfl rfl hst hw) fun _ _ h => h

theorem eq_of_lookup {sessions : List (Key × Nat)} (hkeys : (sessions.map Prod.fst).Nodup)
    (hlookup : sessions.lookup key = some n) {m : Nat} (hmem : (key, m) ∈ sessions) : m = n := by
  induction sessions with
  | nil => exact nomatch hmem
  | cons x rest ih =>
      obtain ⟨key', k⟩ := x
      obtain ⟨hfirst, hrest⟩ := List.nodup_cons.1 hkeys
      rw [List.lookup_cons] at hlookup
      rcases List.mem_cons.1 hmem with h | h
      · obtain ⟨rfl, rfl⟩ := Prod.mk.inj h
        simpa using hlookup
      · have hne : key ≠ key' := by
          rintro rfl
          exact hfirst (List.mem_map.2 ⟨(key, m), h, rfl⟩)
        rw [beq_false_of_ne hne] at hlookup
        exact ih hrest hlookup h

theorem wp_getOrCreateSession (dest : Address) (port : UInt16) (hw : Idle a (ledger w)) :
    wp (contract a) .recvLoop (tracking.tracked (getOrCreateSession cfg dest port))
      (Ends (fun r w' => Idle a (ledger w') ∧ Found a r (ledger w')) fun w' => Thrown a (ledger w')) w := by
  refine Tracking.wp_tracked_get (T := tracking) ?_
  cases hfind : w.mem.findSession (dest, port) with
  | none =>
      refine wp_createSession cfg dest port hw fun m hmem => ?_
      have hnone := List.lookup_eq_none_iff.1 hfind _ hmem
      simp at hnone
  | some n =>
      dsimp only
      by_cases halive : (w.mem.session n).alive = true
      · rw [if_pos halive]
        refine ⟨hw, fun m hm _ => ?_⟩
        obtain rfl : n = m := by simpa using hm
        exact Option.isSome_iff_ne_none.1 ((hw.inv.alive n).symm.trans halive)
      · rw [if_neg halive]
        refine wp_createSession cfg dest port hw fun m hmem => ?_
        obtain rfl := eq_of_lookup hw.inv.keys hfind hmem
        have hdead := (hw.inv.alive m).symm.trans (Bool.eq_false_iff.2 halive)
        simpa using hdead

/-- `recvLoop` is writing to session `n`, which may have been closed before. -/
structure Writing (a : Assumed) (n : Nat) (l : Ledger) : Prop where
  inv : Inv a l
  running : Running l
  begun : l.spawned .recvLoop
  connecting : l.connecting = none
  stale : l.stale = none ∨ l.stale = some n ∧ l.remoteFd n = none

theorem kept_writing : Kept a .recvLoop (Writing a n) := by
  intro l l' h hr
  obtain ⟨u, hu, hm⟩ := hr.moves
  refine ⟨hm.inv h.inv, hm.running h.running, hm.spawned _ h.begun, kept_connecting _ _ _ h.connecting hr, ?_⟩
  rw [(hm.others hu).stale]
  exact h.stale.imp_right fun h => ⟨h.1, ((hm.others hu).free n h.2).1⟩

/-- The same between two operations: nothing is written, and the session is open or known to be closed. -/
structure Ready (a : Assumed) (n : Nat) (l : Ledger) : Prop extends Writing a n l where
  free : l.stale = some n → l.pending (.remote n) .write = false
  open' : l.remoteFd n ≠ none ∨ l.stale = some n

theorem wp_sendSession {o : NetOp Fd} (hslot : slot (.inl o) = some (.remote n, .write))
    (hs : kind.object.suspends (.inl o) = true) (hw : Ready a n (ledger w)) (fails : o.Res → Prop)
    (hfails : ∀ r, fails r → writeFailed (.io (.inl o) r) = some n) :
    wp (contract a) .recvLoop (tracking.tracked (awaitNet o)) (Returns fun r w' =>
      Ready a n (ledger w') ∧ (fails r → a.undisturbed → (ledger w').pending (.remote n) .read = false)) w := by
  have harm : Moves a .recvLoop (ledger w) ((ledger w).setPending (.remote n) .write true) := by
    refine moves_arm (fun m hm => ?_) (fun h => by grind) (fun ha => ?_) (absurd rfl)
    · obtain rfl : n = m := by simpa using hm
      exact .inr (hw.open'.imp_right fun h => ⟨h, rfl⟩)
    · have hfd := hw.open'.resolve_right (by simp [(hw.inv.stored ha).1])
      obtain ⟨fd, hfd⟩ := Option.ne_none_iff_exists'.1 hfd
      exact (hw.inv.held n fd hfd).2.2
  refine wp_slot (Q := fun r l => Ready a n l ∧ (fails r → a.undisturbed → l.pending (.remote n) .read = false))
    hslot hs harm ?_ (⟨harm.inv hw.inv, hw.running, hw.begun, hw.connecting, hw.stale⟩ : Writing a n _) kept_writing ?_
  · refine ⟨harm.inv hw.inv, fun _ _ _ => ⟨_, _, hslot, by simp, trivial⟩, fun m hm => ?_, fun m hm => ?_⟩
    · exact absurd (hw.connecting.symm.trans hm) nofun
    · have hm : (ledger w).stale = some m := hm
      rcases hw.stale with h | ⟨h, hfd⟩
      · exact absurd (h.symm.trans hm) nofun
      · obtain rfl : n = m := Option.some.inj (h.symm.trans hm)
        exact ⟨hfd, by simp⟩
  · intro w₁ r hw₁ hpending hok
    have hmoves : Moves a .recvLoop (ledger w₁) ((ledger w₁).setPending (.remote n) .write false) :=
      moves_disarm hw₁.inv trivial
    have htable := hw₁.inv.table n .write hpending
    refine ⟨hmoves, ⟨⟨hmoves.inv hw₁.inv, hw₁.running, hw₁.begun, hw₁.connecting, hw₁.stale⟩, fun _ => by simp, ?_⟩,
      fun hr ha => ?_⟩
    · rcases htable with h | h | h
      · exact absurd (hw₁.connecting.symm.trans h.1) nofun
      · exact .inl h
      · exact .inr h.1
    · have hread : (ledger w₁).pending (.remote n) .read = false :=
        (hok.2.2.2.1 ha (.io (.inl o) r) (by simp)).1 n (hfails r hr)
      simpa using hread

theorem wp_writeSession {st : NetStream Fd} (hst : st.fd = .remote n) (data : Bytes) (hdata : data ≠ [])
    (hw : Ready a n (ledger w)) :
    wp (contract a) .recvLoop (tracking.tracked (st.writeFull (K := kind) data)) (Returns fun written w' =>
      Ready a n (ledger w') ∧ (written ≤ 0 → a.undisturbed → (ledger w').pending (.remote n) .read = false)) w := by
  cases st with
  | async fd =>
      obtain rfl : fd = .remote n := hst
      refine wp_loop (fun _ w => Ready a n (ledger w)) hw ?_
      intro offset w hw
      show wp (contract a) .recvLoop (tracking.tracked (if offset < data.length then _ else _)) _ w
      by_cases hlt : offset < data.length
      · rw [if_pos hlt, Tracking.tracked_bind]
        refine wp_then (wp_sendSession (o := .send (.remote n) (data.drop offset)) rfl rfl hw (fun r => r.1 ≤ 0)
          fun r hr => by simp [writeFailed, hr]) ?_
        intro r w' ⟨hw', hfails⟩
        by_cases hr : r.1 ≤ 0
        · rw [if_pos hr]
          exact ⟨hw', fun _ => hfails hr⟩
        · rw [if_neg hr]
          exact hw'
      · rw [if_neg hlt]
        have hpos := List.length_pos_iff.2 hdata
        exact ⟨hw, fun h => absurd h (by omega)⟩
  | tls fd =>
      obtain rfl : fd = .remote n := hst
      unfold NetStream.writeFull
      rw [Tracking.tracked_bind]
      exact wp_then (wp_sendSession (o := .tlsWriteFull (.remote n) data) rfl rfl hw (fun r => r.1 ≤ 0)
        fun r hr => by simp [writeFailed, hr]) fun r w' h => h

theorem wp_forward (payload : Bytes) (hw : Idle a (ledger w)) (hn : Found a (some n) (ledger w)) :
    wp (contract a) .recvLoop (tracking.tracked (forward n payload)) (Returns fun _ w' => Idle a (ledger w')) w := by
  have hstored := hn n rfl
  refine Tracking.wp_tracked_get (T := tracking) ?_
  cases hstream : (w.mem.session n).stream with
  | none =>
      have hfd : (w.mem.session n).remoteFd = none := by
        by_contra hfd
        exact hw.inv.reads n hfd hstream
      have halive : (w.mem.session n).alive = false := (hw.inv.alive n).trans (by simp [ledger, Mem.ledger, hfd])
      have hsame : w.mem.setSession n { w.mem.session n with alive := false } = w.mem := by
        rw [← halive]
        simp only [Mem.setSession, Function.update_eq_self]
      have hledger : ledger (w.call fun m => (m.setSession n { w.mem.session n with alive := false }, [])) =
          ledger w := by
        rw [ledger_modify, hsame]
        rfl
      refine wp_modify fun _ => ⟨?_, show Idle a _ from hledger ▸ hw⟩
      rw [hsame]
      exact .refl a _ _
  | some st =>
      dsimp only
      rw [Tracking.tracked_bind]
      have hset : Moves a .recvLoop (ledger w)
          ((ledger w).setStale (if (w.mem.session n).remoteFd.isSome then none else some n)) := by
        refine moves_setStale hw.begun (fun m hm => absurd (hw.stale.symm.trans hm) (by simp)) fun ha => ?_
        have hsome : (w.mem.session n).remoteFd.isSome = true := Option.isSome_iff_ne_none.2 (hstored ha)
        rw [if_pos hsome]
      refine wp_bind (wp_modify fun _ => ⟨hset, ?_⟩)
      have hledger : ledger (w.call fun m => ({ m with
          stale := if (m.session n).remoteFd.isSome then none else some n }, [])) =
          (ledger w).setStale (if (w.mem.session n).remoteFd.isSome then none else some n) := ledger_modify w _
      have hready : Ready a n ((ledger w).setStale (if (w.mem.session n).remoteFd.isSome then none else some n)) := by
        have hinv := hset.inv hw.inv
        by_cases hfd : (w.mem.session n).remoteFd = none
        · simp only [hfd, Option.isSome_none, Bool.false_eq_true, if_false] at hinv ⊢
          refine ⟨⟨hinv, hw.running, hw.begun, hw.connecting, .inr ⟨rfl, hfd⟩⟩, fun _ => ?_, .inr rfl⟩
          -- nobody reads from or writes to a session that is closed
          show (ledger w).pending (.remote n) .write = false
          by_contra hd
          have htable := hw.inv.table n .write (by simpa using hd)
          have hfd : (ledger w).remoteFd n = none := hfd
          simp [hw.connecting, hw.stale, hfd] at htable
        · rw [if_pos (Option.isSome_iff_ne_none.2 hfd)] at hinv ⊢
          exact ⟨⟨hinv, hw.running, hw.begun, hw.connecting, .inl rfl⟩, fun h => absurd (show none = some n from h) (by simp), .inl hfd⟩
      rw [← hledger] at hready
      rw [Tracking.tracked_bind]
      refine wp_then (wp_writeSession (hw.inv.stream n st hstream) (frame payload) (by simp [frame, beBytes]) hready) ?_
      rintro written w ⟨hready, hfails⟩
      rw [Tracking.tracked_bind]
      have hclear : Moves a .recvLoop (ledger w) ((ledger w).setStale none) := by
        refine moves_setStale hready.begun (fun m hm => ?_) fun _ => rfl
        rcases hready.stale with h | ⟨h, -⟩
        · exact absurd (h.symm.trans hm) (by simp)
        · obtain rfl : n = m := Option.some.inj (h.symm.trans hm)
          exact hready.free h
      refine wp_bind (wp_modify fun _ => ⟨hclear, ?_⟩)
      have hledger : ledger (w.call fun m => ({ m with stale := none }, [])) = (ledger w).setStale none :=
        ledger_modify w _
      have hidle : Idle a ((ledger w).setStale none) :=
        ⟨hclear.inv hready.inv, hready.running, hready.begun, hready.connecting, rfl⟩
      by_cases hwritten : written ≤ 0
      · simp only [hwritten, if_true]
        refine wp_returns (wp_closeSession (Q := Idle a) (hledger ▸ hidle.inv) ?_ ?_ ?_) fun _ _ h => h
        · rw [hledger]
          intro _ ha _ d hd
          cases d with
          | write => trivial
          | read => exact absurd hd (by simp [setStale, hfails hwritten ha])
        · rw [hledger]
          intro hfd
          exact ⟨inv_closeAll (S := (· = n)) (fun m hm => hm ▸ hfd) hidle.inv, hidle.running, hidle.begun,
            hidle.connecting, rfl⟩
        · exact fun _ => hledger ▸ hidle
      · simp only [hwritten, if_false]
        exact show Idle a _ from hledger ▸ hidle

/-- The receive of `recvLoop`. -/
theorem wp_receive (hw : Idle a (ledger w)) (hclosed : (ledger w).closed = false) :
    wp (contract a) .recvLoop (tracking.tracked (awaitExt (.recvFrom 65536))) (Returns fun _ w' =>
      Idle a (ledger w')) w := by
  have harm : Moves a .recvLoop (ledger w) ((ledger w).setPending .udp .read true) :=
    moves_arm nofun (fun _ => hclosed) (fun _ => (hw.inv.relay hclosed).2.1) (absurd rfl)
  have hidle : Idle a ((ledger w).setPending .udp .read true) :=
    ⟨harm.inv hw.inv, hw.running, hw.begun, hw.connecting, hw.stale⟩
  refine wp_slot (o := .inr (.recvFrom 65536)) (Q := fun _ => Idle a) rfl rfl harm ?_ hidle kept_idle ?_
  · refine ⟨hidle.inv, fun _ _ _ => ⟨_, _, rfl, by simp, trivial⟩, fun m hm => ?_, fun m hm => ?_⟩
    · exact absurd (hidle.connecting.symm.trans hm) nofun
    · exact absurd (hidle.stale.symm.trans hm) nofun
  · intro w₁ r hw₁ _ _
    have hmoves : Moves a .recvLoop (ledger w₁) ((ledger w₁).setPending .udp .read false) :=
      moves_disarm hw₁.inv trivial
    exact ⟨hmoves, hmoves.inv hw₁.inv, hw₁.running, hw₁.begun, hw₁.connecting, hw₁.stale⟩

theorem Idle.quiet (hw : Idle a l) : Quiet l := fun _ hn => absurd (hw.connecting.symm.trans hn) nofun

theorem wp_recvLoop (hw : Idle a (ledger w)) :
    wp (contract a) .recvLoop (tracking.tracked (recvLoop cfg)) (fun _ w' => Post a (ledger w') .recvLoop) w := by
  unfold recvLoop
  rw [Tracking.tracked_bind]
  refine wp_seq (R := Ends (fun _ w' => Idle a (ledger w')) fun w' => Thrown a (ledger w'))
    (wp_loop (fun _ w => Idle a (ledger w)) hw ?_) (fun _ w' hw' => ?_) fun _ w' hw' => hw'
  · intro _ w hw
    show wp (contract a) .recvLoop (tracking.tracked (if w.mem.closed then _ else _)) _ w
    by_cases hclosed : w.mem.closed = true
    · rw [if_pos hclosed]
      exact hw
    · rw [if_neg hclosed, Tracking.tracked_bind]
      refine wp_then (wp_receive hw (Bool.eq_false_iff.2 hclosed)) ?_
      intro (rr, src) w hw
      dsimp only
      by_cases herror : rr.1.error = true
      · rw [if_pos herror]
        exact hw
      · rw [if_neg herror]
        by_cases hempty : (rr.1.eof || decide (rr.1.data = [])) = true
        · rw [if_pos hempty]
          exact hw
        · rw [if_neg hempty]
          cases Socks5.Parser.parseUdpDatagram rr.1.data with
          | none => exact hw
          | some x =>
              obtain ⟨dest, port, payload⟩ := x
              dsimp only
              by_cases hnil : payload = []
              · rw [if_pos hnil]
                exact hw
              · rw [if_neg hnil, Tracking.tracked_bind]
                refine wp_seq (wp_getOrCreateSession cfg dest port hw) ?_ fun _ w' hw' => hw'
                intro found w' ⟨hw', hfound⟩
                cases found with
                | none => exact hw'
                | some n =>
                    dsimp only
                    rw [Tracking.tracked_bind]
                    refine wp_bind (wp_unnoticed (fun m _ _ _ => ?_) fun w'' hsame => ?_)
                    · unfold Mem.ledger Mem.setSession
                      congr 1 <;> funext k <;> by_cases hk : k = n <;> simp [hk]
                    · rw [Tracking.tracked_bind]
                      exact wp_then (wp_forward payload (hsame ▸ hw') (hsame ▸ hfound)) fun _ _ h => h
  · have hnone : ∀ {n : Nat} {l : Ledger}, l.connecting = none → l.connecting ≠ some n := by
      intro n l h hn
      exact absurd (h.symm.trans hn) nofun
    refine wp_returns (wp_stop (Q := fun l => Post a l .recvLoop) hw'.inv hw'.running (fun _ => .inr hw'.quiet) ?_ ?_)
      fun _ _ h => h
    · exact fun hc => ⟨inv_stop hw'.running hc hw'.inv, hw'.stale, fun n hn => absurd hn (hnone hw'.connecting)⟩
    · exact fun _ => ⟨hw'.inv, hw'.stale, fun n hn => absurd hn (hnone hw'.connecting)⟩

/-! ## The owner of the relay -/

theorem wp_controlEnd (hinv : Inv a (ledger w)) (hrun : Running (ledger w))
    (hbegun : (ledger w).closed = true ∨ (ledger w).spawned .recvLoop) :
    wp (contract a) .control (tracking.tracked (do awaitExt .controlEnd; member Socks5UdpRelay.stop))
      (fun _ w' => Post a (ledger w') .control) w := by
  rw [Tracking.tracked_bind]
  have hend : wp (contract a) .control (tracking.tracked (awaitExt .controlEnd)) (Returns fun _ w' =>
      Inv a (ledger w') ∧ Running (ledger w') ∧ ((ledger w').closed = true ∨ (ledger w').spawned .recvLoop)) w := by
    refine Tracking.wp_untracked (T := tracking) (o := .inr .controlEnd) rfl ?_
    refine wp_await_ok (O := kind.object) (o := .inr .controlEnd) rfl ⟨hinv, fun h => absurd rfl h, hrun, hbegun⟩ ?_
    intro w₁ hl r _
    have hsame : ledger (World.answer (O := kind.object) w₁ (.inr .controlEnd) r) = ledger w₁ := by
      rw [ledger_answer]
      rfl
    have hbegun : (ledger w₁).closed = true ∨ (ledger w₁).spawned .recvLoop := by
      rcases hbegun with h | h
      · exact .inl (kept_closed.later h hl)
      · exact .inr ((kept_spawned _).later h hl)
    refine ⟨show Moves _ _ _ _ from hsame ▸ .refl a _ _, ?_⟩
    rw [returns_ok, hsame]
    exact ⟨kept_inv.later hinv hl, kept_running.later hrun hl, hbegun⟩
  refine wp_then hend ?_
  intro _ w ⟨hinv, hrun, hbegun⟩
  refine wp_returns (wp_stop (Q := fun l => Post a l .control) hinv hrun (fun hc => .inl ⟨rfl, ?_⟩) ?_ ?_)
    fun _ _ h => h
  · exact hbegun.resolve_left (by simp [hc])
  · exact fun hc => ⟨inv_stop hrun hc hinv, rfl⟩
  · exact fun hc => ⟨hinv, hc⟩

/-- The two loops are started one after the other. -/
theorem wp_startLoops (hinv : Inv a (ledger w)) (hrun : Running (ledger w)) (hconn : (ledger w).connecting = none)
    (hstale : (ledger w).stale = none) :
    wp (contract a) .control (tracking.tracked (do
      Prog.spawn (O := kind.object) Task.recvLoop
      Prog.spawn (O := kind.object) Task.sendLoop
      awaitExt .controlEnd
      member Socks5UdpRelay.stop)) (fun _ w' => Post a (ledger w') .control) w := by
  have hrecv := moves_spawn (a := a) (u := .recvLoop) nofun hrun
  have hrecv' : ledger (World.start (O := kind.object) w Task.recvLoop) = (ledger w).spawn .recvLoop :=
    ledger_start w _
  rw [Tracking.tracked_bind]
  refine wp_bind (wp_spawn (O := kind.object) fun _ => ⟨show Moves _ _ _ _ from hrecv' ▸ hrecv, ?_, fun w₁ hl => ?_⟩)
  · show Pre a (ledger _) .recvLoop
    rw [hrecv']
    exact ⟨hrecv.inv hinv, hrun, .inr rfl, hconn, hstale⟩
  have hinv₁ : Inv a (ledger w₁) := kept_inv.later (show Inv a _ from hrecv' ▸ hrecv.inv hinv) hl
  have hrun₁ : Running (ledger w₁) := kept_running.later (show Running _ from hrecv' ▸ hrun) hl
  have hbegun₁ : (ledger w₁).spawned .recvLoop :=
    (kept_spawned .recvLoop).later (show Ledger.spawned _ _ from hrecv' ▸ .inr rfl) hl
  have hsend := moves_spawn (a := a) (u := .sendLoop) nofun hrun₁
  have hsend' : ledger (World.start (O := kind.object) w₁ Task.sendLoop) = (ledger w₁).spawn .sendLoop :=
    ledger_start w₁ _
  dsimp only
  rw [Tracking.tracked_bind]
  refine wp_bind (wp_spawn (O := kind.object) fun _ => ⟨show Moves _ _ _ _ from hsend' ▸ hsend, ?_, fun w₂ hl => ?_⟩)
  · exact show Inv a _ from hsend' ▸ hsend.inv hinv₁
  refine wp_controlEnd (kept_inv.later (show Inv a _ from hsend' ▸ hsend.inv hinv₁) hl)
    (kept_running.later (show Running _ from hsend' ▸ hrun₁) hl) (.inr ?_)
  exact (kept_spawned .recvLoop).later (show Ledger.spawned _ _ from hsend' ▸ .inl hbegun₁) hl

theorem wp_control (hw : Pre a (ledger w) .control) :
    wp (contract a) .control (tracking.tracked control) (fun _ w' => Post a (ledger w') .control) w := by
  obtain ⟨hinv, hclosed, hbegun, hevent, hpending⟩ := hw
  have hstale : (ledger w).stale = none := by
    by_contra hstale
    exact hbegun (hinv.writes hstale)
  have hconn : (ledger w).connecting = none := by
    by_contra hconn
    obtain ⟨n, hn⟩ := Option.ne_none_iff_exists'.1 hconn
    exact hbegun (hinv.begun n (.inl hn))
  unfold control
  rw [Tracking.tracked_bind]
  refine wp_bind (wp_ask (o := .inr .eventfd) rfl rfl ?_ ?_)
  · intro r fd h
    have hr : (if (r : Bool) then some Fd.event else none) = some fd := h
    split at hr
    · obtain rfl := Option.some.inj hr
      exact moves_openEvent hclosed hbegun
    · exact nomatch hr
  intro opened w' hledger
  have hledger : ledger w' = match (if (opened : Bool) then some Fd.event else none) with
    | none => ledger w
    | some fd => (ledger w).openFd fd := hledger
  cases opened with
  | false =>
      have hledger : ledger w' = ledger w := hledger
      have hfail : Moves a .control (ledger w') (ledger w').fail := by
        rw [hledger]
        exact moves_fail hbegun hevent hpending hinv
      show wp (contract a) .control (tracking.tracked (do modify _; _)) _ w'
      rw [Tracking.tracked_bind]
      refine wp_bind (wp_modify fun _ => ⟨hfail, ?_⟩)
      have hfailed := ledger_modify w' fun m => { m with closed := true }
      exact wp_controlEnd (show Inv a _ from hfailed ▸ hfail.inv (hledger ▸ hinv))
        (show Running _ from hfailed ▸ .inl rfl) (.inl (show Ledger.closed _ = true from hfailed ▸ rfl))
  | true =>
      have hledger : ledger w' = (ledger w).openFd .event := hledger
      have hopen : Moves a .control (ledger w) ((ledger w).openFd .event) := moves_openEvent hclosed hbegun
      have hset : Moves a .control (ledger w') (ledger w').setEventFd := moves_setEventFd (hledger ▸ .inr rfl)
      show wp (contract a) .control (tracking.tracked (do modify _; _)) _ w'
      rw [Tracking.tracked_bind]
      refine wp_bind (wp_modify fun _ => ⟨hset, ?_⟩)
      have hsetted := ledger_modify w' fun m => { m with eventFd := some .event }
      refine wp_startLoops ?_ ?_ ?_ ?_
      · exact show Inv a _ from hsetted ▸ hset.inv (hledger ▸ hopen.inv hinv)
      · exact show Running _ from hsetted ▸ .inr ⟨rfl, show Ledger.opened (ledger w') .event from hledger ▸ .inr rfl⟩
      · exact (congrArg Ledger.connecting (hsetted.trans (congrArg setEventFd hledger))).trans hconn
      · exact (congrArg Ledger.stale (hsetted.trans (congrArg setEventFd hledger))).trans hstale

theorem wp_body (hw : Pre a (ledger w) t) :
    wp (contract a) t (body cfg t) (fun _ w' => Post a (ledger w') t) w := by
  cases t with
  | control => exact wp_control hw
  | recvLoop => exact wp_recvLoop cfg ⟨hw.1, hw.2.1, hw.2.2.1, hw.2.2.2.1, hw.2.2.2.2⟩
  | sendLoop => exact wp_returns (wp_sendLoop hw) fun _ _ h => h
  | outTask n => exact wp_sessionOutTask hw.1 hw.2

/-! ## All runs -/

theorem pre_control : (contract a).pre Task.control ⟨{}, []⟩ := by
  show Pre a (ledger ⟨{}, []⟩) .control
  have hopened : ∀ fd, ¬ Opened [] fd := fun fd => List.not_mem_nil
  refine ⟨?_, rfl, List.not_mem_nil, hopened _, fun _ => ⟨rfl, rfl⟩⟩
  exact {
    held := nofun
    alive := fun _ => rfl
    stream := nofun
    reads := fun _ h => absurd rfl h
    released := fun n _ ho => absurd ho (hopened _)
    unopened := fun _ _ => rfl
    once := fun _ => ⟨Nat.zero_le 1, fun h => absurd h (Nat.lt_irrefl 0)⟩
    keys := List.nodup_nil
    listed := fun _ h => absurd rfl h
    started := fun _ h => absurd rfl h
    served := nofun
    fresh := fun n _ => ⟨hopened _, List.not_mem_nil, nofun⟩
    table := nofun
    begun := fun n h => absurd rfl (h.resolve_left nofun)
    writes := fun h => absurd rfl h
    relay := fun _ => ⟨rfl, rfl, rfl⟩
    cancelled := nofun
    stopped := nofun
    failed := fun _ => rfl
    running := fun h => absurd h List.not_mem_nil
    stored := fun _ => ⟨rfl, nofun⟩ }

variable {cfg} {p : Pool kind.object}

/-- What `recvLoop` has left true when somebody else runs. -/
theorem quiet_of_rests (hp : Sound (contract a) p) (hstarted : p.frames Task.recvLoop ≠ none)
    (hrests : Task.recvLoop ∉ p.stack) : Quiet (ledger p.world) := by
  obtain ⟨c, hc⟩ := Option.ne_none_iff_exists'.1 hstarted
  intro n hn
  rcases hp.resting _ c hc hrests with ⟨r, rfl⟩ | ⟨o, k, rfl, hs⟩
  · have hpost : Post a (ledger p.world) .recvLoop := hp.post ⟨hrests, r, hc⟩
    exact (hpost.2.2 n hn).1.1
  · have hparked : Parked a .recvLoop (slot o) (ledger p.world) := hp.parked hc hs
    exact (hparked.waits.1 n hn).1.1

/-- The runs an assumption is about. -/
def Allowed (a : Assumed) (w w' : World kind.object) : Prop :=
  Delivered w w' ∧ (a.stored → Stored w w') ∧ (a.undisturbed → Undisturbed w w')

/-- No step of the relay closes it while a session is being stored: `recvLoop` does not run there, and
    `control` finds it suspended. -/
theorem reachableIn_ok (hp : ReachableIn (Allowed a) (body cfg) Task.control {} p) :
    ReachableIn (contract { a with quiet := True }).Ok (body cfg) Task.control {} p := by
  have hruns : ReachableIn (contract { a with quiet := False }).Ok (body cfg) Task.control {} p :=
    hp.mono fun _ _ h => ⟨trivial, h.1, h.2.1, h.2.2, False.elim⟩
  have hquiet : ReachableIn (fun w w' => (contract { a with quiet := False }).Ok w w' ∧ StopsQuiet w w')
      (body cfg) Task.control {} p := by
    refine Contract.reachableIn_and stable (fun t w hw _ => wp_body cfg hw) pre_control trivial ?_ hruns
    intro p p' hreach hsound hstep hok hopen hclosed
    rcases hsound.step_by hstep hok with hsame | ⟨t, hruns, hmoves⟩
    · rw [hsame] at hclosed
      exact absurd (hopen.symm.trans hclosed) nofun
    · have hmoves : Moves _ t (ledger p.world) (ledger p'.world) := hmoves
      rcases hmoves.flips hopen hclosed with ⟨rfl, hspawned⟩ | h
      · refine quiet_of_rests hsound ((frames_ne_none_iff hreach _).2 (.inr hspawned)) ?_
        rcases hruns with h | ⟨rest, h⟩
        · simp [h]
        · have hrest : rest = [] := stack_of_main hreach [] rest h
          simp [h, hrest]
      · exact h
  exact hquiet.mono fun _ _ h => ⟨trivial, h.1.2.1, h.1.2.2.1, h.1.2.2.2.1, fun _ => h.2⟩

theorem sound (hp : ReachableIn (Allowed a) (body cfg) Task.control {} p) :
    Sound (contract { a with quiet := True }) p :=
  Contract.sound_in stable (fun _ _ hw _ => wp_body cfg hw) pre_control trivial (reachableIn_ok hp)

theorem inv_reachable (hp : ReachableIn (Allowed a) (body cfg) Task.control {} p) :
    Inv { a with quiet := True } (ledger p.world) :=
  Contract.invariant_in stable (fun _ _ hw _ => wp_body cfg hw) pre_control trivial
    (fun w => Inv { a with quiet := True } (ledger w)) pre_control.1
    (fun _ _ _ (hmoves : Moves _ _ _ _) _ hinv => hmoves.inv hinv) (reachableIn_ok hp)

/-! ## With the event loop in control -/

section Rest

variable {a : Assumed}

/-- What holds of the relay between two callbacks. -/
structure Rests (a : Assumed) (p : Pool kind.object) : Prop where
  inv : Inv a (ledger p.world)
  running : Running (ledger p.world)
  recvLoop : (ledger p.world).spawned .recvLoop →
    (∃ o, p.Suspended Task.recvLoop ∧ p.awaits Task.recvLoop = some o ∧
      Parked a .recvLoop (slot o) (ledger p.world)) ∨
    p.Finished Task.recvLoop ∧ Post a (ledger p.world) .recvLoop
  outTask : ∀ n, (ledger p.world).spawned (.outTask n) → Serves a n (ledger p.world)

theorem rests (hp : Sound (contract a) p) (hreach : Reachable (O := kind.object) (body cfg) Task.control {} p)
    (hstack : p.stack = []) : Rests a p := by
  have hstarted : ∀ t, (ledger p.world).spawned t → p.frames t ≠ none :=
    fun t ht => (frames_ne_none_iff hreach t).2 (.inr ht)
  have hcontrol : Inv a (ledger p.world) ∧ Running (ledger p.world) := by
    rcases hp.suspended_or_finished hstack ((frames_ne_none_iff hreach Task.control).2 (.inl rfl)) with
      ⟨_, o, k, hframe, hs⟩ | hend
    · have hparked : Parked a .control (slot o) (ledger p.world) := hp.parked hframe hs
      exact ⟨hparked.inv, hparked.waits.1⟩
    · have hpost : Post a (ledger p.world) .control := hp.post hend
      exact ⟨hpost.1, .inl hpost.2⟩
  refine ⟨hcontrol.1, hcontrol.2, fun ht => ?_, fun n ht => ?_⟩
  · rcases hp.suspended_or_finished hstack (hstarted _ ht) with ⟨hnot, o, k, hframe, hs⟩ | hend
    · exact .inl ⟨o, ⟨hnot, o, k, hframe, hs⟩, by rw [Pool.awaits, hframe], hp.parked hframe hs⟩
    · exact .inr ⟨hend, hp.post hend⟩
  · rcases hp.suspended_or_finished hstack (hstarted _ ht) with ⟨_, o, k, hframe, hs⟩ | hend
    · have hparked : Parked a (.outTask n) (slot o) (ledger p.world) := hp.parked hframe hs
      exact ⟨hparked.inv, hparked.waits⟩
    · exact hp.post hend

/-- No session is being stored. -/
theorem Rests.quiet (h : Rests a p) : Quiet (ledger p.world) := by
  intro n hn
  rcases h.recvLoop (h.inv.begun n (.inl hn)) with ⟨o, _, _, hparked⟩ | ⟨_, hpost⟩
  · exact (hparked.waits.1 n hn).1.1
  · exact (hpost.2.2 n hn).1.1

/-- `stop` leaves no session open. -/
theorem Rests.remoteFd_of_stop (h : Rests a p) (ha : a.quiet) (n : Nat) :
    (ledger (p.world.call Socks5UdpRelay.stop)).remoteFd n = none := by
  cases hc : p.world.mem.closed with
  | true =>
      rw [ledger_call_stop_of_closed hc]
      by_contra hfd
      rcases h.inv.started n hfd with hspawned | hconn
      · exact hfd ((h.outTask n hspawned).2.2 ha hc)
      · exact hfd (h.quiet n hconn)
  | false =>
      rw [ledger_call_stop h.inv h.running hc]
      exact (moves_stop h.running hc (.inr h.quiet) : Moves a .control _ _).closes hc rfl h.inv h.quiet n

theorem Rests.inv_of_stop (h : Rests a p) : Inv a (ledger (p.world.call Socks5UdpRelay.stop)) := by
  cases hc : p.world.mem.closed with
  | true => exact ledger_call_stop_of_closed hc ▸ h.inv
  | false => exact ledger_call_stop h.inv h.running hc ▸ inv_stop h.running hc h.inv

/-- What is `recvLoop`'s stays as it is. -/
theorem Rests.others_of_stop (h : Rests a p) :
    Others (ledger p.world) (ledger (p.world.call Socks5UdpRelay.stop)) := by
  cases hc : p.world.mem.closed with
  | true =>
      rw [ledger_call_stop_of_closed hc]
      exact (Moves.refl a .control _).others nofun
  | false =>
      rw [ledger_call_stop h.inv h.running hc]
      have hmoves : Moves a .control (ledger p.world) (ledger p.world).stop := moves_stop h.running hc (.inr h.quiet)
      exact hmoves.others nofun

theorem Rests.closed_of_stop (h : Rests a p) :
    (ledger (p.world.call Socks5UdpRelay.stop)).closed = true := by
  cases hc : p.world.mem.closed with
  | true => exact ledger_call_stop_of_closed hc ▸ hc
  | false => exact ledger_call_stop h.inv h.running hc ▸ rfl

end Rest

end Sessions

end Socks5UdpRelay

end Cppvless
