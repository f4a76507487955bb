import Cppvless.Coroutine.Uses

set_option autoImplicit false

/-! # Closing an object with two coroutines

A pattern for an object that is reclaimed by whoever polls a flag of it: a main coroutine that may
start a peer, and four flags by which the two find out which of them ends last. `Closing.closed_iff`
is what the pattern is for: with the event loop in control the flag is set exactly if nothing is
left to run, so nothing suspended is reclaimed and nothing that has ended is kept. -/

namespace Coroutine

/-- The flags of the two coroutines. -/
structure CloseFlags where
  closed : Bool
  mainDone : Bool
  peerDone : Bool
  peerStarted : Bool

namespace CloseFlags

/-- The main coroutine ends. It leaves closing to a peer that is still running. -/
def finishMain (s : CloseFlags) : CloseFlags :=
  if s.peerStarted && !s.peerDone then { s with mainDone := true }
  else { s with mainDone := true, closed := true }

/-- The peer ends. -/
def finishPeer (s : CloseFlags) : CloseFlags :=
  { s with peerDone := true, closed := s.closed || s.mainDone }

end CloseFlags

/-- Where an object has the pattern. -/
structure Closing (O : Object) where
  flags : O.Mem → CloseFlags
  main : O.Task
  peer : O.Task
  /-- what the end of the main coroutine needs in order to wake the peer -/
  armed : O.Mem → Prop
  main_ne_peer : main ≠ peer
  eq_peer : ∀ t, t ≠ main → t = peer

namespace Closing

variable {O : Object} (P : Closing O)

/-- The main coroutine has not ended. -/
structure MainRuns (w : World O) : Prop where
  mainDone : (P.flags w.mem).mainDone = false
  closed : (P.flags w.mem).closed = false
  started : (P.flags w.mem).peerStarted = true ↔ Event.spawned P.peer ∈ w.trace

/-- The main coroutine has ended. -/
structure MainEnded (w : World O) : Prop where
  mainDone : (P.flags w.mem).mainDone = true
  started : (P.flags w.mem).peerStarted = true ↔ Event.spawned P.peer ∈ w.trace
  closed : (P.flags w.mem).closed = true →
    (P.flags w.mem).peerStarted = false ∨ (P.flags w.mem).peerDone = true
  alone : (P.flags w.mem).peerStarted = false → (P.flags w.mem).closed = true

structure PeerRuns (w : World O) : Prop where
  started : (P.flags w.mem).peerStarted = true
  peerDone : (P.flags w.mem).peerDone = false

structure PeerEnded (w : World O) : Prop where
  started : (P.flags w.mem).peerStarted = true
  peerDone : (P.flags w.mem).peerDone = true
  closed : (P.flags w.mem).mainDone = true → (P.flags w.mem).closed = true

/-- Neither coroutine has done anything yet. -/
structure Fresh (w : World O) : Prop where
  runs : P.MainRuns w
  started : (P.flags w.mem).peerStarted = false
  peerDone : (P.flags w.mem).peerDone = false

/-- While the peer is not started nothing else runs, and afterwards it can be woken. -/
structure Armed (w : World O) : Prop where
  runs : P.MainRuns w
  armed : (P.flags w.mem).peerStarted = true → P.armed w.mem

/-- Each coroutine keeps what the other relies on; the peer does so only once it is started. -/
def contract : Contract O where
  env _ := True
  guar t w w' :=
    (t = P.main → (P.PeerRuns w → P.PeerRuns w') ∧ (P.PeerEnded w → P.PeerEnded w')) ∧
    (t ≠ P.main → (P.flags w.mem).peerStarted = true ∧ (P.MainRuns w → P.MainRuns w') ∧
      (P.MainEnded w → P.MainEnded w') ∧ (P.flags w'.mem).peerStarted = true ∧
      (P.armed w.mem → P.armed w'.mem))
  parked t _ w := (t = P.main → P.MainRuns w) ∧ (t ≠ P.main → P.PeerRuns w)
  pre t w := (t = P.main → P.Fresh w) ∧ (t ≠ P.main → P.PeerRuns w)
  post t w := (t = P.main → P.MainEnded w) ∧ (t ≠ P.main → P.PeerEnded w)

variable {P}

theorem rely_main {w w' : World O} (h : P.contract.rely P.main w w') :
    (P.flags w.mem).peerStarted = true ∧ (P.MainRuns w → P.MainRuns w') ∧
      (P.MainEnded w → P.MainEnded w') ∧ (P.flags w'.mem).peerStarted = true ∧
      (P.armed w.mem → P.armed w'.mem) := by
  obtain ⟨u, hu, hg, -⟩ := h
  exact hg.2 hu

theorem rely_peer {t : O.Task} (ht : t ≠ P.main) {w w' : World O} (h : P.contract.rely t w w') :
    (P.PeerRuns w → P.PeerRuns w') ∧ (P.PeerEnded w → P.PeerEnded w') := by
  obtain ⟨u, hu, hg, -⟩ := h
  refine hg.1 ?_
  by_contra hum
  exact hu ((P.eq_peer u hum).trans (P.eq_peer t ht).symm)

theorem stable : P.contract.Stable where
  env_prefix _ _ _ := trivial
  parked t o w w' h hr := by
    by_cases ht : t = P.main
    · subst ht
      exact ⟨fun _ => (rely_main hr).2.1 (h.1 rfl), fun hne => absurd rfl hne⟩
    · exact ⟨fun he => absurd he ht, fun _ => (rely_peer ht hr).1 (h.2 ht)⟩
  post t w w' h hr := by
    by_cases ht : t = P.main
    · subst ht
      exact ⟨fun _ => (rely_main hr).2.2.1 (h.1 rfl), fun hne => absurd rfl hne⟩
    · exact ⟨fun he => absurd he ht, fun _ => (rely_peer ht hr).2 (h.2 ht)⟩

/-! ## Steps that leave the flags alone -/

/-- An instruction that starts nothing and changes no flag, nor what wakes the peer. -/
def Inert (P : Closing O) : ObjOp O → Prop
  | .member f => ∀ s, P.flags (f s).1 = P.flags s ∧ (P.armed s → P.armed (f s).1)
  | .spawn _ => False
  | _ => True

/-- `w'` is `w` after such an instruction. -/
structure SameFlags (P : Closing O) (w w' : World O) : Prop where
  flags : P.flags w'.mem = P.flags w.mem
  armed : P.armed w.mem → P.armed w'.mem
  spawned : Event.spawned P.peer ∈ w'.trace ↔ Event.spawned P.peer ∈ w.trace

theorem SameFlags.call {w : World O} {f : O.Mem → O.Mem × List O.Sys} (h : P.Inert (.member f)) :
    P.SameFlags w (w.call f) :=
  ⟨(h w.mem).1, (h w.mem).2, by simp⟩

theorem SameFlags.answer (w : World O) (o : O.Io.Op) (r : O.Io.Res o) :
    P.SameFlags w (w.answer o r) :=
  ⟨rfl, id, by simp⟩

theorem SameFlags.mainRuns {w w' : World O} (h : P.SameFlags w w') (hw : P.MainRuns w) :
    P.MainRuns w' :=
  ⟨h.flags ▸ hw.mainDone, h.flags ▸ hw.closed, by rw [h.flags, h.spawned, hw.started]⟩

theorem SameFlags.mainEnded {w w' : World O} (h : P.SameFlags w w') (hw : P.MainEnded w) :
    P.MainEnded w' :=
  ⟨h.flags ▸ hw.mainDone, by rw [h.flags, h.spawned, hw.started], h.flags ▸ hw.closed,
    h.flags ▸ hw.alone⟩

theorem SameFlags.peerRuns {w w' : World O} (h : P.SameFlags w w') (hw : P.PeerRuns w) :
    P.PeerRuns w' := ⟨h.flags ▸ hw.started, h.flags ▸ hw.peerDone⟩

theorem SameFlags.peerEnded {w w' : World O} (h : P.SameFlags w w') (hw : P.PeerEnded w) :
    P.PeerEnded w' := ⟨h.flags ▸ hw.started, h.flags ▸ hw.peerDone, h.flags ▸ hw.closed⟩

theorem SameFlags.guar_main {w w' : World O} (h : P.SameFlags w w') :
    P.contract.guar P.main w w' :=
  ⟨fun _ => ⟨h.peerRuns, h.peerEnded⟩, fun hne => absurd rfl hne⟩

/-- Before the peer is started the main coroutine is alone. -/
theorem frame_fresh : Frame P.contract P.main P.Inert P.Fresh where
  rely _ _ hw hr := absurd (rely_main hr).1 (by simp [hw.started])
  parked _ _ _ _ hw := ⟨fun _ => hw.runs, fun hne => absurd rfl hne⟩
  member f w hf hw _ :=
    have h : P.SameFlags w (w.call f) := .call hf
    ⟨h.guar_main, h.mainRuns hw.runs, h.flags ▸ hw.started, h.flags ▸ hw.peerDone⟩
  io o r w _ hw _ :=
    have h := SameFlags.answer (P := P) w o r
    ⟨h.guar_main, h.mainRuns hw.runs, h.flags ▸ hw.started, h.flags ▸ hw.peerDone⟩
  spawn _ _ h := h.elim

/-- Nor does anything take away what wakes the peer. -/
theorem frame_ready : Frame P.contract P.main P.Inert fun w => P.Fresh w ∧ P.armed w.mem where
  rely w w' hw hr := absurd (rely_main hr).1 (by simp [hw.1.started])
  parked o w ho hs hw := frame_fresh.parked o w ho hs hw.1
  member f w hf hw he :=
    have h := frame_fresh.member f w hf hw.1 he
    ⟨h.1, h.2, (hf w.mem).2 hw.2⟩
  io o r w ho hw he :=
    have h := frame_fresh.io o r w ho hw.1 he
    ⟨h.1, h.2, hw.2⟩
  spawn _ _ h := h.elim

theorem frame_armed : Frame P.contract P.main P.Inert P.Armed where
  rely _ _ hw hr :=
    have h := rely_main hr
    ⟨h.2.1 hw.runs, fun _ => h.2.2.2.2 (hw.armed h.1)⟩
  parked _ _ _ _ hw := ⟨fun _ => hw.runs, fun hne => absurd rfl hne⟩
  member f w hf hw _ :=
    have h : P.SameFlags w (w.call f) := .call hf
    ⟨h.guar_main, h.mainRuns hw.runs, fun hs => h.armed (hw.armed (h.flags ▸ hs))⟩
  io o r w _ hw _ :=
    have h := SameFlags.answer (P := P) w o r
    ⟨h.guar_main, h.mainRuns hw.runs, fun hs => h.armed (hw.armed (h.flags ▸ hs))⟩
  spawn _ _ h := h.elim

theorem Fresh.armed {w : World O} (h : P.Fresh w) : P.Armed w :=
  ⟨h.runs, fun hs => absurd hs (by simp [h.started])⟩

theorem frame_peer : Frame P.contract P.peer P.Inert P.PeerRuns where
  rely _ _ hw hr := (rely_peer P.main_ne_peer.symm hr).1 hw
  parked _ _ _ _ hw := ⟨fun he => absurd he P.main_ne_peer.symm, fun _ => hw⟩
  member f w hf hw _ :=
    have h : P.SameFlags w (w.call f) := .call hf
    ⟨⟨fun he => absurd he P.main_ne_peer.symm, fun _ => ⟨hw.started, h.mainRuns, h.mainEnded,
      (h.peerRuns hw).started, h.armed⟩⟩, h.peerRuns hw⟩
  io o r w _ hw _ :=
    have h := SameFlags.answer (P := P) w o r
    ⟨⟨fun he => absurd he P.main_ne_peer.symm, fun _ => ⟨hw.started, h.mainRuns, h.mainEnded,
      (h.peerRuns hw).started, h.armed⟩⟩, h.peerRuns hw⟩
  spawn _ _ h := h.elim

/-! ## Steps that change them -/

/-- A step of the peer that sets its own flag, and the common one only after the main coroutine. -/
theorem guar_peer {w : World O} {f : O.Mem → O.Mem × List O.Sys}
    (hstarted : (P.flags w.mem).peerStarted = true)
    (hflags : P.flags (f w.mem).1 = { P.flags w.mem with peerDone := true } ∨
      P.flags (f w.mem).1 = (P.flags w.mem).finishPeer)
    (harmed : P.armed w.mem → P.armed (f w.mem).1) :
    P.contract.guar P.peer w (w.call f) := by
  have hspawned : Event.spawned P.peer ∈ (w.call f).trace ↔ Event.spawned P.peer ∈ w.trace := by
    simp
  refine ⟨fun he => absurd he P.main_ne_peer.symm, fun _ => ⟨hstarted, ?_, ?_, ?_, harmed⟩⟩
  · intro hw
    rcases hflags with h | h
    · refine ⟨?_, ?_, ?_⟩ <;> rw [World.call_mem, h]
      · exact hw.mainDone
      · exact hw.closed
      · rw [hspawned]
        exact hw.started
    · refine ⟨?_, ?_, ?_⟩ <;> rw [World.call_mem, h]
      · exact hw.mainDone
      · simp [CloseFlags.finishPeer, hw.closed, hw.mainDone]
      · rw [hspawned]
        exact hw.started
  · intro hw
    rcases hflags with h | h
    · refine ⟨?_, ?_, ?_, ?_⟩ <;> rw [World.call_mem, h]
      · exact hw.mainDone
      · rw [hspawned]
        exact hw.started
      · exact fun _ => .inr rfl
      · exact hw.alone
    · refine ⟨?_, ?_, ?_, ?_⟩ <;> rw [World.call_mem, h]
      · exact hw.mainDone
      · rw [hspawned]
        exact hw.started
      · exact fun _ => .inr rfl
      · intro hs
        exact absurd hstarted (by simpa [CloseFlags.finishPeer] using hs)
  · rcases hflags with h | h <;> rw [World.call_mem, h] <;> exact hstarted

/-- The end of the peer. -/
theorem wp_finishPeer {w : World O} {f : O.Mem → O.Mem × List O.Sys}
    (hstarted : (P.flags w.mem).peerStarted = true)
    (hflags : P.flags (f w.mem).1 = (P.flags w.mem).finishPeer)
    (harmed : P.armed w.mem → P.armed (f w.mem).1) :
    wp P.contract P.peer (Prog.member f) (fun _ => P.contract.post P.peer) w := by
  refine wp_member fun _ => ⟨guar_peer hstarted (.inr hflags) harmed, ?_⟩
  refine ⟨fun he => absurd he P.main_ne_peer.symm, fun _ => ⟨?_, ?_, ?_⟩⟩
  · rw [World.call_mem, hflags]
    exact hstarted
  · rw [World.call_mem, hflags]
    rfl
  · rw [World.call_mem, hflags]
    intro hmain
    simp only [CloseFlags.finishPeer] at hmain ⊢
    rw [hmain, Bool.or_true]

/-- The end of the main coroutine. -/
theorem wp_finishMain {w : World O} {f : O.Mem → O.Mem × List O.Sys} (hw : P.MainRuns w)
    (hflags : P.flags (f w.mem).1 = (P.flags w.mem).finishMain) :
    wp P.contract P.main (Prog.member f) (Returns fun _ => P.contract.post P.main) w := by
  have hspawned : Event.spawned P.peer ∈ (w.call f).trace ↔ Event.spawned P.peer ∈ w.trace := by
    simp
  have hstarted : (P.flags (f w.mem).1).peerStarted = (P.flags w.mem).peerStarted := by
    rw [hflags, CloseFlags.finishMain]
    split <;> rfl
  have hdone : (P.flags (f w.mem).1).peerDone = (P.flags w.mem).peerDone := by
    rw [hflags, CloseFlags.finishMain]
    split <;> rfl
  have hmain : (P.flags (f w.mem).1).mainDone = true := by
    rw [hflags, CloseFlags.finishMain]
    split <;> rfl
  refine wp_member fun _ => ⟨⟨fun _ => ⟨?_, ?_⟩, fun hne => absurd rfl hne⟩, fun _ => ?_,
    fun hne => absurd rfl hne⟩
  · exact fun h => ⟨hstarted.trans h.started, hdone.trans h.peerDone⟩
  · intro h
    refine ⟨hstarted.trans h.started, hdone.trans h.peerDone, fun _ => ?_⟩
    simp [hflags, CloseFlags.finishMain, h.peerDone]
  · refine ⟨hmain, by rw [World.call_mem, hstarted, hspawned, hw.started], ?_, ?_⟩
    · rw [World.call_mem, hflags]
      intro hclosed
      cases hs : (P.flags w.mem).peerStarted with
      | false => exact .inl (by simp [CloseFlags.finishMain, hs])
      | true =>
          cases hd : (P.flags w.mem).peerDone with
          | true => exact .inr (by simp [CloseFlags.finishMain, hd])
          -- a running peer keeps the flag unset
          | false => simp [CloseFlags.finishMain, hs, hd, hw.closed] at hclosed
    · rw [World.call_mem, hstarted]
      intro hs
      simp [hflags, CloseFlags.finishMain, hs]

/-- The main coroutine announces the peer and starts it. -/
theorem wp_startPeer {w : World O} {f : O.Mem → O.Mem × List O.Sys} (hw : P.Fresh w)
    (hflags : P.flags (f w.mem).1 = { P.flags w.mem with peerStarted := true })
    (harmed : P.armed (f w.mem).1) :
    wp P.contract P.main (do Prog.member f; Prog.spawn P.peer) (Returns fun _ => P.Armed) w := by
  have hstart : P.Armed ((w.call f).start P.peer) := by
    refine ⟨⟨?_, ?_, ?_⟩, fun _ => harmed⟩
    · rw [World.start_mem, World.call_mem, hflags]
      exact hw.runs.mainDone
    · rw [World.start_mem, World.call_mem, hflags]
      exact hw.runs.closed
    · rw [World.start_mem, World.call_mem, hflags]
      simp
  refine wp_bind (wp_member fun _ => ⟨⟨fun _ => ⟨fun h => ?_, fun h => ?_⟩,
    fun hne => absurd rfl hne⟩, ?_⟩)
  · exact absurd h.started (by simp [hw.started])
  · exact absurd h.started (by simp [hw.started])
  · refine wp_spawn fun _ => ⟨⟨fun _ => ⟨fun h => ⟨h.started, h.peerDone⟩,
      fun h => ⟨h.started, h.peerDone, h.closed⟩⟩, fun hne => absurd rfl hne⟩,
      ⟨fun he => absurd he P.main_ne_peer.symm, fun _ => ?_⟩, fun w₁ hl => ?_⟩
    · constructor <;> rw [World.start_mem, World.call_mem, hflags]
      exact hw.peerDone
    · exact frame_armed.later hstart hl

/-! ## The pattern works -/

/-- **The flag is set exactly if nothing is left to run**, whenever the event loop has control. -/
theorem closed_iff [DecidableEq O.Task] {body : O.Task → O.Prog Unit} {mem : O.Mem} {p : Pool O}
    (hmain : ∀ w, P.Fresh w →
      wp P.contract P.main (body P.main) (fun _ => P.contract.post P.main) w)
    (hpeer : ∀ w, P.PeerRuns w →
      wp P.contract P.peer (body P.peer) (fun _ => P.contract.post P.peer) w)
    (hinit : P.Fresh ⟨mem, []⟩) (hp : Reachable body P.main mem p) (hstack : p.stack = []) :
    (P.flags p.world.mem).closed = true ↔
      p.Finished P.main ∧ (p.frames P.peer = none ∨ p.Finished P.peer) := by
  have hsound : Sound P.contract p := by
    refine P.contract.sound stable ?_ ⟨fun _ => hinit, fun hne => absurd rfl hne⟩ hp trivial
    intro t w hpre _
    by_cases ht : t = P.main
    · subst ht
      exact hmain w (hpre.1 rfl)
    · obtain rfl := P.eq_peer t ht
      exact hpeer w (hpre.2 ht)
  -- the flag and the frame agree on whether the peer was started
  have hframe : p.frames P.peer ≠ none ↔ Event.spawned P.peer ∈ p.world.trace := by
    rw [frames_ne_none_iff hp P.peer]
    exact or_iff_right P.main_ne_peer.symm
  have hmainframe : p.frames P.main ≠ none := (frames_ne_none_iff hp P.main).2 (.inl rfl)
  rcases hsound.suspended_or_finished hstack hmainframe with hsus | hfin
  · obtain ⟨hnot, o, k, hf, hs⟩ := hsus
    have hruns : P.MainRuns p.world := (hsound.parked hf hs).1 rfl
    refine iff_of_false (by simp [hruns.closed]) ?_
    rintro ⟨⟨_, r, hr⟩, _⟩
    rw [hf] at hr
    cases hr
  · have hended : P.MainEnded p.world := (hsound.post hfin).1 rfl
    refine Iff.trans ?_ (and_iff_right hfin).symm
    by_cases hpeer : p.frames P.peer = none
    · have hs : (P.flags p.world.mem).peerStarted = false := by
        rw [Bool.eq_false_iff, ne_eq, hended.started, ← hframe]
        exact fun h => h hpeer
      exact iff_of_true (hended.alone hs) (.inl hpeer)
    · rw [or_iff_right hpeer]
      rcases hsound.suspended_or_finished hstack hpeer with ⟨hnot, o, k, hf, hs⟩ | hfin'
      · have hruns : P.PeerRuns p.world := (hsound.parked hf hs).2 P.main_ne_peer.symm
        refine iff_of_false (fun hclosed => ?_) ?_
        · rcases hended.closed hclosed with h | h
          · exact absurd hruns.started (by simp [h])
          · exact absurd h (by simp [hruns.peerDone])
        · rintro ⟨_, r, hr⟩
          rw [hf] at hr
          cases hr
      · have hpeerEnded : P.PeerEnded p.world := (hsound.post hfin').2 P.main_ne_peer.symm
        exact iff_of_true (hpeerEnded.closed hended.mainDone) hfin'

end Closing

end Coroutine
