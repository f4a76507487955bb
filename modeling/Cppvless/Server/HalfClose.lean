import Cppvless.Net.HalfClose
import Cppvless.Server.Close
import Cppvless.Server.Handshake

set_option autoImplicit false

/-! # Half-close of a VLESS connection

In a TCP session of the server `clientTask` relays from the client to the target and `targetTask` back:
the pattern of `Net.HalfClose`. Both begin when the target task is started, behind the header of the
request, and with Vision if it asks for it. The request that was decoded never asks for encryption. -/

namespace Cppvless

open Coroutine

namespace VlessConnection

/-- From the client to the target, through the Vision reader if there is one. -/
def up : Direction kind where
  src := .client
  dst := .target
  State := Option VisionReader
  state s := if s.useVision then some s.visionReader else none
  recodes
    | none, data, out, r' => out = data ∧ r' = none
    | some r, data, out, r' =>
        if r.directCopy then out = data ∧ r' = some r
        else ∃ ctx, out = (r.process ctx data).1 ∧ r' = some (r.process ctx data).2.1
  left s := s.handshakeRemaining

/-- From the target to the client, through the Vision writer. -/
def down : Direction kind where
  src := .target
  dst := .client
  State := Option VisionWriter
  state s := if s.useVision then some s.visionWriter else none
  recodes
    | none, data, out, v' => out = data ∧ v' = none
    | some v, data, out, v' =>
        if v.directCopy then out = data ∧ v' = some v
        else ∃ draws ctx, out = (v.process draws ctx data).1 ∧
          v' = some (v.process draws ctx data).2.1
  left _ := []

/-- A relay begins when the target task is started: the header of a request was read, and `rest`
    behind it. -/
def Begins (cfg : Config) {d : Direction kind} (og : d.Origin) (lead : Bytes → List Bytes)
    (start : Request → d.State) : Prop :=
  ∃ tr header req rest, og.before = tr ++ [.spawned Task.targetTask] ∧
    Header cfg.validator header req ∧ readFrom (K := kind) Fd.client og.before = header ++ rest ∧
    og.lead = lead rest ∧ og.start = start req

/-- The TCP sessions. -/
def twoWay (cfg : Config) : TwoWay kind where
  flags := closing.flags
  main := Task.clientTask
  peer := Task.targetTask
  armed s := s.targetFd = some .target ∧ s.useEncryption = false
  main_ne_peer := closing.main_ne_peer
  eq_peer := closing.eq_peer
  init := {}
  dir
    | .up => up
    | .down => down
  origin
    | .up, og => Begins cfg og (fun rest => if rest = [] then [] else [rest]) fun req =>
        if req.flow = flowVision then some (.new req.uuid) else none
    | .down, og => Begins cfg og (fun _ => []) fun req =>
        if req.flow = flowVision then some (.new req.uuid) else none
  about s := s.command = .tcp
  src_apart x := by cases x <;> simp [Side.other, up, down]
  dst_apart x := by cases x <;> simp [Side.other, up, down]

namespace HalfClose

variable (cfg : Config) {α : Type} {w : World kind.object}

abbrev contract : Contract kind.object := (twoWay cfg).contract

/-! ## What the parts of a session do -/

theorem own_clientSide (o : ObjOp kind.object) (h : ClientSide o) : (twoWay cfg).Own .up o := by
  match o, h with
  | .get, _ => trivial
  | .member f, h =>
      intro s
      obtain ⟨_, _, _, hs⟩ := h s
      rw [hs]
      exact ⟨rfl, id, .rfl, rfl, rfl, rfl⟩
  | .io (.inl o), h => exact fun r => Direction.silent_net h.apart r
  | .io (.inr o), _ => exact fun r => Direction.silent_ext (K := kind) o r

theorem own_targetSide (o : ObjOp kind.object) (h : TargetSide o) : (twoWay cfg).Own .down o := by
  match o, h with
  | .get, _ => trivial
  | .member f, h =>
      intro s
      obtain ⟨_, _, hs⟩ := h s
      rw [hs]
      exact ⟨rfl, id, .rfl, rfl, rfl, rfl⟩
  | .io (.inl o), h => exact fun r => Direction.silent_net h.apart r
  | .io (.inr o), _ => exact fun r => Direction.silent_ext (K := kind) o r

theorem prepares_net {o : NetOp Fd} (h : ∀ fd, ¬ o.Shuts fd) :
    (twoWay cfg).Prepares (.io (.inl o)) := fun r fd => shuts_eq_false (h fd) r

/-! ## Towards the target -/

/-- What tells whether the data goes through the Vision reader. -/
theorem up_state (s : Mem) :
    up.state s = none ∧ s.useVision = false ∨
      up.state s = some s.visionReader ∧ s.useVision = true := by
  cases h : s.useVision with
  | true => exact .inr ⟨if_pos h, rfl⟩
  | false => exact .inl ⟨if_neg (by simp [h]), rfl⟩

theorem copies_up {s : Mem} (h : s.useVision = false ∨ s.visionReader.directCopy = true) :
    up.Copies (up.state s) := by
  intro data
  rcases up_state s with ⟨hstate, -⟩ | ⟨hstate, huse⟩
  · rw [hstate]
    exact ⟨rfl, rfl⟩
  · have hdirect : s.visionReader.directCopy = true := h.resolve_left (by simp [huse])
    rw [hstate]
    simp [up, hdirect]

/-- The Vision reader recodes the data. -/
theorem unpad {data : Bytes} {f : Mem → Mem × List (Syscall Fd)} (hf : ClientSide (.member f))
    (hprocess : (f w.mem).1 = { w.mem with
      visionReader := (w.mem.visionReader.process w.mem.visionCtx data).2.1,
      visionCtx := (w.mem.visionReader.process w.mem.visionCtx data).2.2 })
    (hw : (twoWay cfg).Relays .up [data] [] w) (huse : w.mem.useVision = true)
    (hdirect : w.mem.visionReader.directCopy = false) :
    (contract cfg).guar Task.clientTask w (w.call f) ∧
      (twoWay cfg).Relays .up [] (w.mem.visionReader.process w.mem.visionCtx data).1 (w.call f) := by
  refine hw.recode (own_clientSide cfg _ hf) ?_
  show up.recodes (up.state w.mem) data _ (up.state (f w.mem).1)
  rw [hprocess]
  simp only [up, huse, hdirect, Bool.false_eq_true, if_true, if_false]
  exact ⟨w.mem.visionCtx, rfl, rfl⟩

theorem wp_unpadVision (data : Bytes) (hw : (twoWay cfg).Relays .up [data] [] w)
    (hvision : (up.state w.mem).isSome) :
    wp (contract cfg) Task.clientTask (unpadVision data) (Returns fun out w' => ∃ data',
      out = some data' ∧ (twoWay cfg).Relays .up [] data' w' ∧ (up.state w'.mem).isSome) w := by
  have huse : w.mem.useVision = true := by
    rcases up_state w.mem with ⟨hstate, -⟩ | ⟨-, huse⟩
    · simp [hstate] at hvision
    · exact huse
  refine wp_get_seq (O := kind.object) ?_
  cases hdirect : w.mem.visionReader.directCopy with
  | true => exact ⟨data, rfl, hw.copy (copies_up (.inr hdirect)), hvision⟩
  | false =>
      refine wp_update_seq (O := kind.object) fun _ => ?_
      refine (unpad cfg (fun s => ⟨_, _, _, rfl⟩) rfl hw huse hdirect).imp_right fun hw =>
        ⟨_, rfl, hw, ?_⟩
      simp [up, huse]

theorem wp_decodeHandshakeRemaining (s : Mem) (hs : w.mem = s)
    (hw : (twoWay cfg).Relays .up [s.handshakeRemaining] [] w)
    (hdirect : s.useVision = true → s.visionReader.directCopy = false) :
    wp (contract cfg) Task.clientTask (decodeHandshakeRemaining s) (Returns fun out w' => ∃ data',
      out = some data' ∧ (twoWay cfg).Relays .up [] data' w') w := by
  subst hs
  rw [decodeHandshakeRemaining, if_neg (by simp [hw.armed.2])]
  cases huse : w.mem.useVision with
  | true =>
      rw [if_pos rfl]
      refine wp_update_seq (O := kind.object) fun _ => ?_
      exact (unpad cfg (fun s => ⟨_, _, _, rfl⟩) rfl hw huse (hdirect huse)).imp_right fun hw =>
        ⟨_, rfl, hw⟩
  | false =>
      rw [if_neg (by simp)]
      exact ⟨_, rfl, hw.copy (copies_up (.inl huse))⟩

/-- What was read behind the header is the first that is delivered. -/
theorem wp_forwardHandshakeRemaining
    (hw : (twoWay cfg).Relays .up
      (if w.mem.handshakeRemaining = [] then [] else [w.mem.handshakeRemaining]) [] w)
    (hdirect : w.mem.useVision = true → w.mem.visionReader.directCopy = false) :
    wp (contract cfg) Task.clientTask forwardHandshakeRemaining (Returns fun forwarded w' =>
      if forwarded then (twoWay cfg).Relays .up [] [] w' else (twoWay cfg).Ending .up w') w := by
  refine wp_get_seq (O := kind.object) ?_
  by_cases hnil : w.mem.handshakeRemaining = []
  · -- the header ended a piece
    rw [if_pos hnil] at hw ⊢
    exact hw
  · rw [if_neg hnil] at hw ⊢
    refine wp_then (wp_decodeHandshakeRemaining cfg w.mem rfl hw hdirect) ?_
    rintro _ w ⟨data, rfl, hw⟩
    have hdst : targetStream.fd = ((twoWay cfg).dir .up).dst := rfl
    refine wp_then (TwoWay.Relays.wp_writeNonempty (A := fun _ => True) hdst hw trivial) ?_
    intro written w hw
    cases written with
    | false => exact hw
    | true =>
        -- what was left is cleared once it is written
        refine wp_bind (wp_member fun _ => ?_)
        exact hw.1.call (own_clientSide cfg _ fun s => ⟨_, _, _, rfl⟩) fun og hog =>
          hog.idle rfl rfl (by simp)

theorem wp_relayClientToTarget (hw : (twoWay cfg).Relays .up [] [] w) :
    wp (contract cfg) Task.clientTask (relayClientToTarget cfg)
      (Returns fun _ => (twoWay cfg).Ending .up) w := by
  refine wp_get_seq (O := kind.object) ?_
  rw [if_neg (by simp [hw.armed.2])]
  cases huse : w.mem.useVision with
  | true =>
      rw [if_pos rfl]
      refine TwoWay.Relays.wp_relayTransformed (T := twoWay cfg) (x := .up)
        (A := fun st => st.isSome) (fun _ => rfl) rfl (clientStream_fd cfg)
        (fun data w hw hvision => wp_unpadVision cfg data hw hvision) ?_ hw (by simp [twoWay, up, huse])
      exact fun s _ hdirect => copies_up (.inr hdirect)
  | false =>
      rw [if_neg (by simp)]
      exact TwoWay.Relays.wp_copyStream (T := twoWay cfg) (x := .up) (fun _ => rfl) rfl
        (clientStream_fd cfg) hw (copies_up (.inl huse))

/-! ## Towards the client -/

theorem down_state (s : Mem) :
    down.state s = none ∧ s.useVision = false ∨
      down.state s = some s.visionWriter ∧ s.useVision = true := by
  cases h : s.useVision with
  | true => exact .inr ⟨if_pos h, rfl⟩
  | false => exact .inl ⟨if_neg (by simp [h]), rfl⟩

theorem copies_down {s : Mem} (h : s.useVision = false ∨ s.visionWriter.directCopy = true) :
    down.Copies (down.state s) := by
  intro data
  rcases down_state s with ⟨hstate, -⟩ | ⟨hstate, huse⟩
  · rw [hstate]
    exact ⟨rfl, rfl⟩
  · have hdirect : s.visionWriter.directCopy = true := h.resolve_left (by simp [huse])
    rw [hstate]
    simp [down, hdirect]

theorem wp_padVision (data : Bytes) (hw : (twoWay cfg).Relays .down [data] [] w)
    (hvision : (down.state w.mem).isSome) :
    wp (contract cfg) Task.targetTask (padVision data) (Returns fun out w' => ∃ data',
      out = some data' ∧ (twoWay cfg).Relays .down [] data' w' ∧ (down.state w'.mem).isSome) w := by
  have huse : w.mem.useVision = true := by
    rcases down_state w.mem with ⟨hstate, -⟩ | ⟨-, huse⟩
    · simp [hstate] at hvision
    · exact huse
  refine wp_get_seq (O := kind.object) ?_
  cases hdirect : w.mem.visionWriter.directCopy with
  | true => exact ⟨data, rfl, hw.copy (copies_down (.inr hdirect)), hvision⟩
  | false =>
      refine wp_bind (wp_call (O := kind.object) rfl fun draws _ => ?_)
      obtain ⟨hg, hw⟩ := hw.ext .draws draws
      refine ⟨hg, wp_update_seq (O := kind.object) fun _ => ?_⟩
      refine (hw.recode (own_targetSide cfg _ fun s => ⟨_, _, rfl⟩) ?_).imp_right
        fun hw => ⟨_, rfl, hw, ?_⟩
      · show down.recodes (down.state w.mem) data _
          (down.state { w.mem with visionWriter := _, visionCtx := _ })
        simp only [down, huse, hdirect, Bool.false_eq_true, if_true, if_false]
        exact ⟨draws, w.mem.visionCtx, rfl, rfl⟩
      · show (down.state { w.mem with visionWriter := _, visionCtx := _ }).isSome
        simp [down, huse]

/-- A session that is not one of TCP is none of these, and stays so. -/
theorem wp_relayTargetToClient (hw : (twoWay cfg).Relays .down [] [] w) :
    wp (contract cfg) Task.targetTask (relayTargetToClient cfg)
      (Ends (fun _ => (twoWay cfg).Ending .down) ((twoWay cfg).Ending .down)) w := by
  by_cases hudp : w.mem.command = .udp
  · have habout : ¬ (twoWay cfg).about w.mem := fun h => by
      rw [show w.mem.command = .tcp from h] at hudp
      exact nomatch hudp
    refine wp_mono (wp_of_uses (TwoWay.frame_idle (T := twoWay cfg) .down)
      ((only_relayTargetToClient cfg).mono (own_targetSide cfg)) ⟨hw.toRuns, habout⟩) ?_
    intro r w h
    cases r with
    | ok _ => exact h.1.ending h.2
    | error _ => exact h.1.ending h.2
  · refine wp_get_seq (O := kind.object) ?_
    rw [if_neg hudp, if_neg (by simp [hw.armed.2])]
    cases huse : w.mem.useVision with
    | true =>
        rw [if_pos rfl]
        refine wp_then (TwoWay.Relays.wp_relayTransformed (T := twoWay cfg) (x := .down)
          (A := fun st => st.isSome) (fun _ => rfl) (clientStream_fd cfg) rfl
          (fun data w hw hvision => wp_padVision cfg data hw hvision) ?_ hw
          (by simp [twoWay, down, huse])) fun _ _ h => h
        exact fun s _ hdirect => copies_down (.inr hdirect)
    | false =>
        rw [if_neg (by simp)]
        exact wp_then (TwoWay.Relays.wp_copyStream (T := twoWay cfg) (x := .down) (fun _ => rfl)
          (clientStream_fd cfg) rfl hw (copies_down (.inl huse))) fun _ _ h => h

theorem wp_targetTask (hw : (twoWay cfg).Relays .down [] [] w) :
    wp (contract cfg) Task.targetTask (targetTask cfg)
      (fun _ => (contract cfg).post Task.targetTask) w := by
  refine wp_targetTask_of (wp_relayTargetToClient cfg hw) ?_ ?_
  · intro w hw
    exact TwoWay.Ending.mark (T := twoWay cfg) hw rfl id .rfl
      (fun y => by cases y <;> exact ⟨rfl, rfl⟩) rfl
  · intro w hw
    refine TwoWay.Ending.finish (T := twoWay cfg) (x := .down) hw ?_ ?_ ?_ (fun y => ?_) ?_
    · cases hm : w.mem.clientReadDone <;> cases hc : w.mem.closed <;>
        simp [twoWay, closing, finishTargetTask, Side.finish, CloseFlags.finishPeer, hm, hc]
    · cases hm : w.mem.clientReadDone <;> simp [twoWay, finishTargetTask, hm]
    · cases hm : w.mem.clientReadDone <;> simp [twoWay, finishTargetTask, hm]
    · cases hm : w.mem.clientReadDone <;> cases y <;>
        simp [twoWay, up, down, finishTargetTask, hm]
    · cases hm : w.mem.clientReadDone <;>
        simp [twoWay, closing, up, finishTargetTask, Side.other, Side.done, hm]

/-! ## Before the target task is started -/

/-- Nothing has been set up yet. -/
def Waiting (w : World kind.object) : Prop :=
  (twoWay cfg).Fresh w ∧ w.mem.useEncryption = false ∧ w.mem.useVision = false

theorem handshakes : Handshake.Handshakes (contract cfg) (Waiting cfg) where
  alone _ _ hw := hw.1.not_rely
  parked o _ hw _ := hw.1.parked (.inl o)
  guar _ _ hw hw' ht := hw.1.toQuiet.guar hw'.1.toQuiet ht
  push w e hw _ _ _ hserves := by
    obtain ⟨o, r, rfl, ho⟩ := hserves
    refine ⟨(hw.1.answer (prepares_net cfg fun fd => ?_) r).2, hw.2⟩
    rcases ho with ho | rfl
    · exact ho.not_shuts
    · exact id
  modify w f hw hf := by
    have hfresh := hw.1.call (f := fun s => (f s, [])) fun s => by
      obtain ⟨stream, remaining, hs⟩ := hf s
      refine ⟨?_, by simp⟩
      show (twoWay cfg).flags (f s) = _
      rw [hs]
      rfl
    obtain ⟨stream, remaining, hs⟩ := hf w.mem
    refine ⟨hfresh.2, ?_⟩
    rw [World.call_mem, hs]
    exact hw.2

/-- The header of `req` was read, and what it asks for is set up. -/
structure Ready (header : Bytes) (req : Request) (bytes : Bytes) (s : Mem) : Prop where
  bytes_eq : bytes = header ++ s.handshakeRemaining
  encryption : s.useEncryption = false
  reader : up.state s = if req.flow = flowVision then some (.new req.uuid) else none
  writer : down.state s = if req.flow = flowVision then some (.new req.uuid) else none

variable {cfg} {header : Bytes} {req : Request} {B : Bytes → Mem → Prop}

/-- What follows until then: the client is not read. -/
def Between : ObjOp kind.object → Prop
  | .member f => ∀ s, ((f s).1 = s ∨ (f s).1 = { s with targetFd := some .target }) ∧
      ∀ fd, .shutdownRdWr fd ∉ (f s).2
  | .io (.inl o) => ¬ o.Reads .client ∧ ∀ fd, ¬ o.Shuts fd
  | .spawn _ => False
  | _ => True

theorem between_of_connects (o : ObjOp kind.object) (h : Connects o) : Between o := by
  match o, h with
  | .get, _ => trivial
  | .member _, h => exact h
  | .io (.inl _), h => exact ⟨h.1 _, h.2.2⟩
  | .io (.inr _), _ => trivial

theorem prepares_between (o : ObjOp kind.object) (h : Between o) : (twoWay cfg).Prepares o := by
  match o, h with
  | .get, _ => trivial
  | .member f, h =>
      intro s
      obtain ⟨hs | hs, hcalls⟩ := h s
      · exact ⟨by rw [hs], hcalls⟩
      · exact ⟨by rw [hs]; rfl, hcalls⟩
  | .io (.inl o), h => exact prepares_net cfg h.2
  | .io (.inr _), _ => exact fun _ _ => rfl

theorem frame_between (hB : ∀ bytes s, B bytes s → B bytes { s with targetFd := some .target }) :
    Frame (contract cfg) Task.clientTask Between fun w =>
      (twoWay cfg).Fresh w ∧ B (readFrom (K := kind) Fd.client w.trace) w.mem := by
  refine TwoWay.frame_fresh prepares_between ?_ ?_
  · intro f w hf hw
    rw [readFrom, chunksFrom, answers_call, World.call_mem]
    rcases (hf w.mem).1 with hs | hs
    · rw [hs]
      exact hw
    · rw [hs]
      exact hB _ _ hw
  · intro o r w ho hw
    have hnone : heard (K := kind) Fd.client (.io o r) = none := by
      cases o with
      | inl o => exact heard_eq_none ho.1 r
      | inr o => rfl
    rwa [World.answer_trace, readFrom_append, readFrom_other hnone, List.append_nil]

theorem Ready.targetFd (bytes : Bytes) (s : Mem) (h : Ready header req bytes s) :
    Ready header req bytes { s with targetFd := some .target } :=
  ⟨h.bytes_eq, h.encryption, h.reader, h.writer⟩

theorem wp_sendResponseAndKey (version : UInt8)
    (hB : ∀ bytes s, B bytes s → B bytes { s with targetFd := some .target })
    (hw : (twoWay cfg).Fresh w ∧ B (readFrom (K := kind) Fd.client w.trace) w.mem) :
    wp (contract cfg) Task.clientTask (sendResponseAndKey cfg version) (fun _ w' =>
      (twoWay cfg).Fresh w' ∧ B (readFrom (K := kind) Fd.client w'.trace) w'.mem) w :=
  wp_of_uses (frame_between hB) (only_response cfg version trivial
    (fun _ ho => ⟨fun hreads => hreads.not_writes ho, fun _ => ho.not_shuts⟩) fun _ => trivial) hw

theorem wp_connectTarget (req : Request)
    (hB : ∀ bytes s, B bytes s → B bytes { s with targetFd := some .target })
    (hw : (twoWay cfg).Fresh w ∧ B (readFrom (K := kind) Fd.client w.trace) w.mem) :
    wp (contract cfg) Task.clientTask (connectTarget req) (fun r w' =>
      ((twoWay cfg).Fresh w' ∧ B (readFrom (K := kind) Fd.client w'.trace) w'.mem) ∧
        (r = .ok true → w'.mem.targetFd = some .target)) w :=
  wp_connectTarget_of ((frame_between hB).restrict between_of_connects) req hw

/-- Vision is set up if the request asks for it. -/
theorem wp_setupVision (hw : Waiting cfg w)
    (hbytes : readFrom (K := kind) Fd.client w.trace = header ++ w.mem.handshakeRemaining) :
    wp (contract cfg) Task.clientTask (setupVision req) (Ends (fun ok w' =>
      (twoWay cfg).Fresh w' ∧ (ok = true →
        Ready header req (readFrom (K := kind) Fd.client w'.trace) w'.mem)) (twoWay cfg).Fresh) w := by
  obtain ⟨hfresh, hencryption, hvision⟩ := hw
  rw [setupVision]
  by_cases hflow : req.flow = flowVision
  · rw [if_pos hflow]
    obtain ⟨hg, hfresh⟩ := hfresh.call (f := fun s : Mem =>
      ({ s with useVision := true, visionCtx := {}, visionReader := .new req.uuid }, []))
      fun _ => ⟨rfl, by simp⟩
    refine wp_bind (wp_member fun _ => ⟨hg, wp_bind (wp_call (O := kind.object) rfl fun seed _ => ?_)⟩)
    obtain ⟨hg, hfresh⟩ := hfresh.answer (o := .inr ExtOp.randomDevice) (fun _ _ => rfl) seed
    refine ⟨hg, ?_⟩
    cases seed with
    | error e => exact hfresh
    | ok _ =>
        obtain ⟨hg, hfresh⟩ := hfresh.call (f := fun s : Mem => ({ s with visionWriter := .new req.uuid }, []))
          fun _ => ⟨rfl, by simp⟩
        show wp (contract cfg) Task.clientTask (do
          modify fun s => { s with visionWriter := .new req.uuid }
          pure true) _ _
        refine wp_bind (wp_member fun _ => ⟨hg, ?_⟩)
        refine ⟨hfresh, fun _ => ⟨?_, hencryption, ?_, ?_⟩⟩
        · rw [readFrom, chunksFrom, answers_call]
          show readFrom (K := kind) Fd.client ((w.call _).trace ++ [_]) = _
          rw [readFrom_append, readFrom_other rfl, List.append_nil, readFrom, chunksFrom, answers_call]
          exact hbytes
        · rw [if_pos hflow]
          rfl
        · rw [if_pos hflow]
          rfl
  · rw [if_neg hflow]
    refine ⟨hfresh, fun _ => ⟨hbytes, hencryption, ?_, ?_⟩⟩
    · rw [if_neg hflow]
      simp [up, hvision]
    · rw [if_neg hflow]
      simp [down, hvision]

/-! ## The session -/

/-- `startTargetTask`, once there is a socket. -/
theorem wp_startTargetTask (hw : (twoWay cfg).Fresh w) (hencryption : w.mem.useEncryption = false)
    (hfd : w.mem.targetFd = some .target)
    (horigin : w.mem.command = .tcp → ∃ header req, Header cfg.validator header req ∧
      Ready header req (readFrom (K := kind) Fd.client w.trace) w.mem) :
    wp (contract cfg) Task.clientTask startTargetTask (Returns fun _ w' =>
      (twoWay cfg).Relays .up
        (if w.mem.handshakeRemaining = [] then [] else [w.mem.handshakeRemaining]) [] w' ∧
        up.state w'.mem = up.state w.mem ∧
        w'.mem.handshakeRemaining = w.mem.handshakeRemaining ∧
        (w'.mem.command = .tcp ↔ w.mem.command = .tcp)) w := by
  refine TwoWay.wp_startPeer (T := twoWay cfg)
    (f := fun s => ({ s with targetTaskStarted := true }, [])) hw rfl ⟨hfd, hencryption⟩ rfl ?_ rfl
  intro hcommand x
  obtain ⟨header, req, hwf, hready⟩ := horigin hcommand
  have hread : readFrom (K := kind) Fd.client
      ((w.call fun s => ({ s with targetTaskStarted := true }, [])).start Task.targetTask).trace =
        header ++ w.mem.handshakeRemaining := by
    rw [World.start_trace, readFrom_append, readFrom_other rfl, List.append_nil, readFrom, chunksFrom,
      answers_call]
    exact hready.bytes_eq
  cases x with
  | up => exact ⟨_, header, req, w.mem.handshakeRemaining, rfl, hwf, hread, rfl, hready.reader⟩
  | down => exact ⟨_, header, req, w.mem.handshakeRemaining, rfl, hwf, hread, rfl, hready.writer⟩

theorem wp_runTcpSession (hwf : Header cfg.validator header req) (hw : Waiting cfg w)
    (hbytes : readFrom (K := kind) Fd.client w.trace = header ++ w.mem.handshakeRemaining) :
    wp (contract cfg) Task.clientTask (runTcpSession cfg req)
      (fun _ => (twoWay cfg).MainEnds) w := by
  refine wp_seq (wp_setupVision hw hbytes) ?_ fun _ _ h => .inl h
  intro vision w hw
  cases vision with
  | false => exact .inl hw.1
  | true =>
      -- the decoder never sets the encryption of a request
      rw [setupEncryption, if_pos hwf.encryption_eq]
      refine wp_pure_seq ?_
      refine wp_seq (wp_sendResponseAndKey req.version Ready.targetFd ⟨hw.1, hw.2 rfl⟩) ?_
        fun _ _ h => .inl h.1
      intro sent w hw
      cases sent with
      | false => exact .inl hw.1
      | true =>
          refine wp_seq (wp_connectTarget req Ready.targetFd hw) ?_ fun _ _ h => .inl h.1.1
          intro connected w hw
          cases connected with
          | false => exact .inl hw.1.1
          | true =>
              have hready := hw.1.2
              refine wp_then (wp_startTargetTask hw.1.1 hready.encryption (hw.2 rfl) fun _ =>
                ⟨header, req, hwf, hready⟩) ?_
              rintro _ w' ⟨hw', hstate, hremaining, -⟩
              rw [← hremaining] at hw'
              -- the reader is new, and only `clientTask` uses it
              have hdirect : w'.mem.useVision = true → w'.mem.visionReader.directCopy = false := by
                intro huse
                rw [hready.reader, show up.state w'.mem = some w'.mem.visionReader from if_pos huse]
                  at hstate
                split at hstate
                · rw [Option.some.inj hstate]
                  rfl
                · exact nomatch hstate
              refine wp_then (wp_forwardHandshakeRemaining cfg hw' hdirect) ?_
              intro forwarded w hw
              cases forwarded with
              | false => exact .inr hw
              | true =>
                  exact wp_returns (wp_relayClientToTarget cfg hw) fun _ _ h => .inr h

/-- A UDP session is none of those this is about. -/
theorem wp_runUdpSession (hw : Waiting cfg w) (hudp : w.mem.command = .udp) :
    wp (contract cfg) Task.clientTask (runUdpSession cfg req)
      (fun _ => (twoWay cfg).MainEnds) w := by
  have hB : ∀ (bytes : Bytes) (s : Mem), s.useEncryption = false ∧ s.command = .udp →
      ({ s with targetFd := some .target } : Mem).useEncryption = false ∧
        ({ s with targetFd := some .target } : Mem).command = .udp := fun _ _ => id
  rw [runUdpSession]
  split
  · exact .inl hw.1
  · refine wp_seq (wp_sendResponseAndKey req.version hB ⟨hw.1, hw.2.1, hudp⟩) ?_
      fun _ _ h => .inl h.1
    intro sent w hw
    cases sent with
    | false => exact .inl hw.1
    | true =>
        refine wp_seq (wp_connectTarget req hB hw) ?_ fun _ _ h => .inl h.1.1
        intro connected w hw
        cases connected with
        | false => exact .inl hw.1.1
        | true =>
            have hother : w.mem.command ≠ .tcp := by simp [hw.1.2.2]
            refine wp_then (wp_startTargetTask hw.1.1 hw.1.2.1 (hw.2 rfl) fun h => absurd h hother) ?_
            rintro _ w' ⟨hw', -, -, hcommand⟩
            exact wp_mono (wp_of_uses (TwoWay.frame_idle (T := twoWay cfg) .up)
              ((only_relayUdpClientToTarget cfg).mono (own_clientSide cfg))
              ⟨hw'.toRuns, fun h => hother (hcommand.1 h)⟩) fun _ _ h => .inr (h.1.ending h.2)

theorem wp_dispatch (hwf : Header cfg.validator header req) (hw : Waiting cfg w)
    (hbytes : readFrom (K := kind) Fd.client w.trace = header ++ w.mem.handshakeRemaining)
    (hcommand : w.mem.command = req.command) :
    wp (contract cfg) Task.clientTask (dispatch cfg req) (fun _ => (twoWay cfg).MainEnds) w := by
  rw [dispatch]
  split
  · exact wp_runTcpSession hwf hw hbytes
  · next hudp => exact wp_runUdpSession hw (hcommand.trans hudp)
  · exact .inl hw.1
  · exact .inl hw.1

theorem fresh_start : (twoWay cfg).Fresh ⟨{}, []⟩ :=
  ⟨⟨by simp [TwoWay.Started], by simp⟩, rfl, rfl, rfl, rfl⟩

theorem wp_clientTask :
    wp (contract cfg) Task.clientTask (clientTask cfg)
      (fun _ => (contract cfg).post Task.clientTask) ⟨{}, []⟩ := by
  refine Handshake.wp_anyClientTaskAs cfg id (handshakes cfg) trivial rfl rfl
    ⟨fresh_start, rfl, rfl⟩ (D := (twoWay cfg).MainEnds) (fun w hw _ => .inl hw.1) ?_ ?_
  · intro header req w hwf hw _
    obtain ⟨hg, hfresh⟩ := hw.kept.1.call (f := fun s : Mem => ({ s with command := req.command }, []))
      fun _ => ⟨rfl, by simp⟩
    refine ⟨hg, wp_dispatch hwf ⟨hfresh, hw.kept.2⟩ ?_ rfl⟩
    rw [readFrom, chunksFrom, answers_call]
    exact hw.bytes
  · intro w hw
    have harmed : w.mem.targetTaskStarted = true → w.mem.targetFd = some .target := by
      intro hs
      rcases hw with hw | hw
      · exact absurd (hw.flag.symm.trans hs) (by simp)
      · exact hw.armed.1
    refine hw.finish (f := finishClientTask) ?_ ?_ ?_ (fun y => ?_) ?_
    · cases hs : w.mem.targetTaskStarted <;> cases hd : w.mem.targetReadDone <;>
        simp [twoWay, closing, finishClientTask, CloseFlags.finishMain, hs, hd, harmed]
    · cases hs : w.mem.targetTaskStarted <;> cases hd : w.mem.targetReadDone <;>
        simp [twoWay, finishClientTask, hs, hd, harmed]
    · cases hs : w.mem.targetTaskStarted <;> cases hd : w.mem.targetReadDone <;>
        simp [twoWay, finishClientTask, hs, hd, harmed]
    · cases hs : w.mem.targetTaskStarted <;> cases hd : w.mem.targetReadDone <;> cases y <;>
        simp [twoWay, up, down, finishClientTask, hs, hd, harmed]
    · cases hs : w.mem.targetTaskStarted <;> cases hd : w.mem.targetReadDone <;>
        simp [twoWay, closing, down, finishClientTask, hs, hd, harmed]

end HalfClose

/-- **A TCP session of the server keeps half-close if its directions overlap at their ends, and only
    then.** -/
theorem halfCloses_iff (cfg : Config) {p : Pool kind.object} (hp : Reachable cfg p)
    (htcp : p.world.mem.command = .tcp) :
    ((∀ x, (twoWay cfg).Overlaps x p.world.trace) → (twoWay cfg).HalfCloses p) ∧
      (p.stack = [] → (twoWay cfg).HalfCloses p → ∀ x, (twoWay cfg).Overlaps x p.world.trace) :=
  TwoWay.halfCloses_iff (T := twoWay cfg) HalfClose.wp_clientTask
    (fun _ => HalfClose.wp_targetTask cfg) hp htcp

end VlessConnection

end Cppvless
