import Cppvless.Server.Tunnel
import Cppvless.Server.UdpUplink
import Cppvless.Vless.Encryption
import Mathlib.Data.List.Infix

set_option autoImplicit false

/-! # What an Encryption session sends to the target

`Decoder::decode` never fills in `Request::encryption`, so the code for it is only reached from a
request that is given (`bodyAs`). Such a session has three readers of one stream: the decoder and
`setupEncryption` read through `stream_`, the relay reads the stream itself and takes every read for
a ciphertext. What the decoder has read too much of goes to `handshakeRemaining_`, which the second
reader does not look at, and what that one has read too much of stays in `stream_`, which the third
one does not look at. Nothing is lost where no reader reads beyond its part. -/

namespace Cppvless

open Coroutine

namespace VlessConnection

/-- The method that `setupEncryption` makes a session with. -/
def encryptionMethod (encryption : Bytes) : Option EncryptionMethod :=
  if encryption = ascii "aes-256-gcm" ∨ encryption = ascii "aes256gcm" then
    some .x25519Aes256gcm
  else if encryption = ascii "chacha20-poly1305" ∨ encryption = ascii "chacha20" then
    some .x25519Chacha20
  else
    none

/-- A well-formed request of a user of the server, whose `encryption` is filled in. -/
structure EncryptedRequest (validator : Validator) where
  header : Bytes
  req : Request
  wf : Header validator header req
  encryption : Bytes
  method : EncryptionMethod
  named : encryptionMethod encryption = some method

def EncryptedRequest.given {validator : Validator} (r : EncryptedRequest validator)
    (req : Request) : Request :=
  { req with encryption := r.encryption }

/-- The sessions of a client and of the server, with their keys from one secret, and messages of the
    client as plaintext and ciphertext. -/
structure EncryptionPeers (method : EncryptionMethod) where
  evp : Evp
  sharedSecret : Bytes
  session : EncryptionSession
  derived : EncryptionSession.deriveKeys evp sharedSecret { method := method } = .ok session
  pair : SessionPair
  reachable : pair.Reachable evp session
  messages : List (Bytes × Bytes)
  sent : ∀ x ∈ messages, ∃ m ∈ pair.sent, m.sender = .client ∧ m.plaintext = x.1 ∧
    m.sealing.ciphertext = some x.2
  inverts : ∀ x ∈ messages, AeadCipher.Inverts evp method x.1

namespace EncryptionPeers

variable {method : EncryptionMethod} (peers : EncryptionPeers method)

def plaintexts : Bytes := peers.messages.flatMap Prod.fst

def ciphertexts : List Bytes := peers.messages.map Prod.snd

/-- What the session of the server makes of some bytes. -/
def opens (ciphertext : Bytes) : Option Bytes :=
  (peers.pair.session .server).decryptClient peers.evp ciphertext

theorem opens_message {x : Bytes × Bytes} (hx : x ∈ peers.messages) : peers.opens x.2 = some x.1 := by
  obtain ⟨hready, hmethod, -⟩ := EncryptionSession.ready_of_deriveKeys peers.derived
  obtain ⟨m, hm, hsender, hplaintext, hc⟩ := peers.sent x hx
  have hinverts : AeadCipher.Inverts peers.evp peers.session.method m.plaintext := by
    rw [hmethod, hplaintext]
    exact peers.inverts x hx
  have hopened := SessionPair.receivedFrom_sent hready peers.reachable hm hc hinverts
  rw [hsender, hplaintext] at hopened
  exact hopened

theorem opens_nil : peers.opens [] = none := by
  obtain ⟨hready, -⟩ := EncryptionSession.ready_of_deriveKeys peers.derived
  exact SessionPair.receivedFrom_short hready peers.reachable (by decide) .client

end EncryptionPeers

/-- A call of `decryptClient`: its argument and what it answered. -/
def decrypted : Event kind.object → Option (Bytes × Except Exn (Option Bytes))
  | .io (.inr (.decryptClient ciphertext)) r => some (ciphertext, r)
  | _ => none

/-- `computeSharedSecret` has derived the keys of the session from `key`. -/
def derivedFrom (key : Bytes) : Event kind.object → Bool
  | .io (.inr (.computeSharedSecret peerPublicKey)) (.ok true) => decide (peerPublicKey = key)
  | _ => false

/-- Once the keys were derived from `key`, a ciphertext decrypts to what `opens` says. -/
def OpensWith (key : Bytes) (opens : Bytes → Option Bytes) (tr : List (Event kind.object)) : Prop :=
  EachStep (fun before e => (∃ e' ∈ before, derivedFrom key e' = true) →
    ∀ x ∈ decrypted e, x.2 = .ok (opens x.1)) tr

instance (key : Bytes) (opens : Bytes → Option Bytes) (tr : List (Event kind.object)) :
    Decidable (OpensWith key opens tr) :=
  inferInstanceAs (Decidable (EachStep (fun before e =>
    (∃ e' ∈ before, derivedFrom key e' = true) → ∀ x ∈ decrypted e, x.2 = .ok (opens x.1)) tr))

namespace EncryptionUplink

/-- A request, the given name of a method, and the reads of its header, of the key and of the
    ciphertexts: none of them crosses the end of the header or of the key, and each ciphertext is one
    read. -/
structure Cut (validator : Validator) where
  header : List Bytes
  req : Request
  wf : Header validator header.flatten req
  encryption : Bytes
  supported : (encryptionMethod encryption).isSome = true
  key : List Bytes
  key_length : key.flatten.length = 32
  ciphertexts : List Bytes
  opens : Bytes → Option Bytes
  opened : ∀ c ∈ ciphertexts, (opens c).isSome = true
  nonempty : ∀ c ∈ header ++ key ++ ciphertexts, c ≠ []

variable {validator : Validator} (u : Cut validator)

namespace Cut

def given (req : Request) : Request := { req with encryption := u.encryption }

def clientKey : Bytes := u.key.flatten

def reads : List Bytes := u.header ++ u.key ++ u.ciphertexts

def plaintext (c : Bytes) : Bytes := (u.opens c).getD []

def plaintexts (cs : List Bytes) : Bytes := cs.flatMap u.plaintext

end Cut

/-- The keys of the session come from the key of the client. -/
def Shared (tr : List (Event kind.object)) : Prop := ∃ e ∈ tr, derivedFrom u.clientKey e = true

/-- The client sends these reads, and failed writes stay failed. -/
structure Env (tr : List (Event kind.object)) : Prop where
  sticky : Sticky (K := kind) Fd.target tr
  reads : chunksFrom (K := kind) Fd.client tr <+: u.reads
  opens : OpensWith u.clientKey u.opens tr

/-- No other key was taken, and nothing but the plaintexts was written. -/
structure Safe (w : World kind.object) : Prop where
  key : w.mem.clientPublicKey = u.clientKey ∨
    w.mem.clientPublicKey = [] ∧ w.mem.targetTaskStarted = false
  written : wroteTo (K := kind) Fd.target w.trace <+: u.plaintexts u.ciphertexts

/-- What a started session has read behind the key it has written, unless a write failed. -/
def Done (w : World kind.object) : Prop :=
  w.mem.targetTaskStarted = true → ¬ WriteFailed (K := kind) Fd.target w.trace →
    wroteTo (K := kind) Fd.target w.trace = u.plaintexts
      ((chunksFrom (K := kind) Fd.client w.trace).drop (u.header ++ u.key).length)

/-- Nothing that this direction depends on has changed. -/
structure Keeps (w w' : World kind.object) : Prop where
  writes : writes (K := kind) Fd.target w'.trace = writes (K := kind) Fd.target w.trace
  answers : answers (K := kind) Fd.client w'.trace = answers (K := kind) Fd.client w.trace
  trace : w.trace <+: w'.trace
  started : w'.mem.targetTaskStarted = w.mem.targetTaskStarted
  stream : w'.mem.stream = w.mem.stream
  remaining : w'.mem.handshakeRemaining = w.mem.handshakeRemaining
  encryption : w'.mem.useEncryption = w.mem.useEncryption
  key : w'.mem.clientPublicKey = w.mem.clientPublicKey

/-- Until the key is known. -/
structure Waiting (encryption : Bool) (w : World kind.object) : Prop where
  started : w.mem.targetTaskStarted = false
  encryption : w.mem.useEncryption = encryption
  key : w.mem.clientPublicKey = []
  toTarget : wroteTo (K := kind) Fd.target w.trace = []

/-- The pieces read are `chunks`, none of which lies in `handshakeRemaining`, and the stream has not
    ended. -/
structure At (chunks : List Bytes) (w : World kind.object) : Prop where
  pieces : chunksFrom (K := kind) Fd.client w.trace = chunks
  noEof : ¬ EofOn (K := kind) Fd.client w.trace
  remaining : w.mem.handshakeRemaining = []

/-- The header was read, and nothing beyond it. -/
structure Accepted (w : World kind.object) : Prop extends Waiting false w, At u.header w where
  drained : w.mem.stream.unread = []

/-- The key was read, and nothing beyond it. -/
structure Keyed (w : World kind.object) : Prop extends At (u.header ++ u.key) w where
  started : w.mem.targetTaskStarted = false
  encryption : w.mem.useEncryption = true
  key : w.mem.clientPublicKey = u.clientKey
  toTarget : wroteTo (K := kind) Fd.target w.trace = []

/-- The plaintexts of `cs` were written but for `pending`, or a write failed. -/
def Delivers (cs : List Bytes) (pending : Bytes) (tr : List (Event kind.object)) : Prop :=
  wroteTo (K := kind) Fd.target tr ++ pending = u.plaintexts cs ∨
    WriteFailed (K := kind) Fd.target tr ∧ wroteTo (K := kind) Fd.target tr <+: u.plaintexts cs

/-- All that was read behind the key was written but for `pending`, or a write failed. -/
def Relayed (pending : Bytes) (tr : List (Event kind.object)) : Prop :=
  ∃ cs, chunksFrom (K := kind) Fd.client tr = u.header ++ u.key ++ cs ∧ Delivers u cs pending tr

/-- The same but for the last piece, which is to be decrypted. -/
def Received (c : Bytes) (tr : List (Event kind.object)) : Prop :=
  ∃ cs, chunksFrom (K := kind) Fd.client tr = u.header ++ u.key ++ (cs ++ [c]) ∧ Delivers u cs [] tr

/-- With the target task started, `clientTask` relays. -/
structure Running (w : World kind.object) : Prop where
  started : w.mem.targetTaskStarted = true
  encryption : w.mem.useEncryption = true
  key : w.mem.clientPublicKey = u.clientKey
  shared : Shared u w.trace

/-- `clientTask` decrypts and writes; the target task, once it is there, leaves that direction
    alone. -/
def contract : Contract kind.object where
  env := Env u
  guar
    | .clientTask, w, w' => (Safe u w → Safe u w') ∧
        (w.mem.targetTaskStarted = true → w'.mem.targetTaskStarted = true)
    | .targetTask, w, w' => w.mem.targetTaskStarted = true ∧ Keeps w w'
  parked t o w := t = Task.clientTask →
    (∀ o' : NetOp Fd, o = .inl o' → ¬ o'.Writes .target) → Done u w
  pre
    | .clientTask, w => w.mem = {} ∧ w.trace = []
    | .targetTask, w => w.mem.targetTaskStarted = true
  post t w := t = Task.clientTask → Done u w

variable {u} {w w' : World kind.object} {pending : Bytes} {chunks : List Bytes}

/-! ## What stays -/

theorem Keeps.pieces (h : Keeps w w') :
    chunksFrom (K := kind) Fd.client w'.trace = chunksFrom (K := kind) Fd.client w.trace := by
  unfold chunksFrom
  rw [h.answers]

theorem Keeps.wrote (h : Keeps w w') :
    wroteTo (K := kind) Fd.target w'.trace = wroteTo (K := kind) Fd.target w.trace := by
  unfold wroteTo
  rw [h.writes]

theorem Keeps.eofOn (h : Keeps w w') :
    EofOn (K := kind) Fd.client w'.trace ↔ EofOn (K := kind) Fd.client w.trace := by
  simp only [EofOn, h.answers]

theorem Keeps.writeFailed (h : Keeps w w') :
    WriteFailed (K := kind) Fd.target w'.trace ↔ WriteFailed (K := kind) Fd.target w.trace := by
  simp only [WriteFailed, h.writes]

theorem Keeps.safe (h : Keeps w w') (hw : Safe u w) : Safe u w' := by
  refine ⟨?_, ?_⟩
  · rw [h.key, h.started]
    exact hw.key
  · rw [h.wrote]
    exact hw.written

theorem Keeps.done (h : Keeps w w') (hw : Done u w) : Done u w' := by
  unfold Done
  rw [h.started, h.writeFailed, h.wrote, h.pieces]
  exact hw

theorem Keeps.shared (h : Keeps w w') (hw : Shared u w.trace) : Shared u w'.trace := by
  obtain ⟨e, he, hderived⟩ := hw
  exact ⟨e, h.trace.subset he, hderived⟩

theorem Keeps.at (h : Keeps w w') (hw : At chunks w) : At chunks w' :=
  ⟨h.pieces.trans hw.pieces, mt h.eofOn.1 hw.noEof, h.remaining.trans hw.remaining⟩

theorem Keeps.waiting (h : Keeps w w') {b : Bool} (hw : Waiting b w) : Waiting b w' :=
  ⟨h.started.trans hw.started, h.encryption.trans hw.encryption, h.key.trans hw.key,
    h.wrote.trans hw.toTarget⟩

theorem Keeps.accepted (h : Keeps w w') (hw : Accepted u w) : Accepted u w' :=
  ⟨h.waiting hw.toWaiting, h.at hw.toAt, h.stream ▸ hw.drained⟩

theorem Keeps.keyed (h : Keeps w w') (hw : Keyed u w) : Keyed u w' :=
  ⟨h.at hw.toAt, h.started.trans hw.started, h.encryption.trans hw.encryption, h.key.trans hw.key,
    h.wrote.trans hw.toTarget⟩

theorem Keeps.running (h : Keeps w w') (hw : Running u w) : Running u w' :=
  ⟨h.started.trans hw.started, h.encryption.trans hw.encryption, h.key.trans hw.key,
    h.shared hw.shared⟩

theorem Keeps.relayed (h : Keeps w w') (hw : Relayed u pending w.trace) :
    Relayed u pending w'.trace := by
  unfold Relayed Delivers
  rw [h.pieces, h.wrote, h.writeFailed]
  exact hw

theorem keeps_push {e : Event kind.object} (hheard : heard (K := kind) Fd.client e = none)
    (hwrote : wrote (K := kind) Fd.target e = none) : Keeps w (w.push e) where
  writes := by simp [Cppvless.writes, hwrote]
  answers := by simp [Cppvless.answers, hheard]
  trace := List.prefix_append _ _
  started := rfl
  stream := rfl
  remaining := rfl
  encryption := rfl
  key := rfl

theorem keeps_quiet {e : Event kind.object} (he : IsQuiet e) : Keeps w (w.push e) :=
  keeps_push (he.heard_none _) (he.wrote_none _)

theorem keeps_call {f : Mem → Mem × List (Syscall Fd)}
    (hstarted : (f w.mem).1.targetTaskStarted = w.mem.targetTaskStarted)
    (hstream : (f w.mem).1.stream = w.mem.stream)
    (hremaining : (f w.mem).1.handshakeRemaining = w.mem.handshakeRemaining)
    (hencryption : (f w.mem).1.useEncryption = w.mem.useEncryption)
    (hkey : (f w.mem).1.clientPublicKey = w.mem.clientPublicKey) : Keeps w (w.call f) :=
  ⟨writes_call _ _ _, answers_call _ _ _, List.prefix_append _ _, hstarted, hstream, hremaining,
    hencryption, hkey⟩

theorem rely_client (h : (contract u).rely Task.clientTask w w') :
    w.mem.targetTaskStarted = true ∧ Keeps w w' := by
  obtain ⟨t, ht, hg, -⟩ := h
  cases t with
  | clientTask => exact absurd rfl ht
  | targetTask => exact hg

theorem rely_target (h : (contract u).rely Task.targetTask w w')
    (hs : w.mem.targetTaskStarted = true) : w'.mem.targetTaskStarted = true := by
  obtain ⟨t, ht, hg, -⟩ := h
  cases t with
  | clientTask => exact hg.2 hs
  | targetTask => exact absurd rfl ht

theorem stable : (contract u).Stable where
  env_prefix tr tr' h := by
    refine ⟨h.sticky.of_append, List.IsPrefix.trans ?_ h.reads, h.opens.of_append⟩
    rw [chunksFrom_append]
    exact List.prefix_append _ _
  parked t o w w' h hr ht ho := by
    subst ht
    exact (rely_client hr).2.done (h rfl ho)
  post t w w' h hr ht := by
    subst ht
    exact (rely_client hr).2.done (h rfl)

variable (cfg : Config)

theorem targetAside : TargetAside (contract u) fun w => w.mem.targetTaskStarted = true where
  rely _ _ hw hr := rely_target hr hw
  parked _ _ := nofun
  call f w hw hf := by
    obtain ⟨visionWriter, visionCtx, closed, targetReadDone, hmem, -⟩ := hf
    have hkeeps : Keeps w (w.call f) := by
      refine keeps_call ?_ ?_ ?_ ?_ ?_
      all_goals rw [hmem]
    exact ⟨⟨hw, hkeeps⟩, hkeeps.started.trans hw⟩
  push _ _ hw hheard hwrote := ⟨⟨hw, keeps_push hheard hwrote⟩, hw⟩

theorem wp_targetTask (hw : w.mem.targetTaskStarted = true) :
    wp (contract u) Task.targetTask (targetTask cfg)
      (fun _ => (contract u).post Task.targetTask) w :=
  wp_mono (targetAside.wp_targetTask hw) fun _ _ _ => nofun

/-! ## The client task, alone -/

theorem guar_keeps (h : Keeps w w') : (contract u).guar Task.clientTask w w' :=
  ⟨h.safe, fun hs => h.started.trans hs⟩

theorem guar_alone (hs : w.mem.targetTaskStarted = false) (hsafe : Safe u w') :
    (contract u).guar Task.clientTask w w' :=
  ⟨fun _ => hsafe, fun h => absurd h (by simp [hs])⟩

theorem not_rely (hs : w.mem.targetTaskStarted = false) :
    ¬ (contract u).rely Task.clientTask w w' := fun hr =>
  absurd (rely_client hr).1 (by simp [hs])

theorem done_alone (hs : w.mem.targetTaskStarted = false) : Done u w := by
  intro h
  exact absurd h (by simp [hs])

theorem Waiting.safe {b : Bool} (h : Waiting b w) : Safe u w := by
  refine ⟨.inr ⟨h.key, h.started⟩, ?_⟩
  rw [h.toTarget]
  exact List.nil_prefix

theorem Keyed.safe (h : Keyed u w) : Safe u w := by
  refine ⟨.inl h.key, ?_⟩
  rw [h.toTarget]
  exact List.nil_prefix

theorem reads_sent (tr : List (Event kind.object)) (h : (contract u).env tr) :
    readFrom (K := kind) Fd.client tr <+: u.header.flatten ++ (u.key ++ u.ciphertexts).flatten := by
  rw [← List.flatten_append, ← List.append_assoc]
  exact h.reads.flatten

theorem handshakes (b : Bool) : Handshake.Handshakes (contract u) (Waiting b) where
  alone w w' hw := not_rely hw.started
  parked o w hw _ _ _ := done_alone hw.started
  guar w w' hw hw' _ := guar_alone hw.started hw'.safe
  push w e hw _ hwrote _ _ := by
    refine ⟨hw.started, hw.encryption, hw.key, ?_⟩
    rw [World.push_trace, wroteTo_append, wroteTo_other (hwrote _), List.append_nil]
    exact hw.toTarget
  modify w f hw hf := by
    obtain ⟨stream, remaining, hf⟩ := hf w.mem
    refine ⟨?_, ?_, ?_, ?_⟩
    · simpa only [World.call_mem, hf] using hw.started
    · simpa only [World.call_mem, hf] using hw.encryption
    · simpa only [World.call_mem, hf] using hw.key
    · rw [wroteTo, writes_call]
      exact hw.toTarget

/-- Where the header ends with a read, nothing is left in `handshakeRemaining`. -/
theorem accepted_of_shaken (h : Handshake.Shaken u.header.flatten (Waiting false) w)
    (henv : Env u w.trace) : Accepted u w := by
  have hheader : u.header <+: u.reads := by
    rw [Cut.reads, List.append_assoc]
    exact List.prefix_append _ _
  obtain ⟨hpieces, hremaining⟩ := h.within.eq_cut henv.reads hheader h.bytes rfl u.nonempty
  exact ⟨h.kept, ⟨hpieces, h.noEof, hremaining⟩, h.drained⟩

/-- An operation that neither reads the client nor writes to the target keeps what holds before the
    relay. -/
theorem frame_between {F : World kind.object → Prop}
    (hkeeps : ∀ w w', Keeps w w' → F w → F w') (halone : ∀ w, F w → w.mem.targetTaskStarted = false) :
    Frame (contract u) Task.clientTask UdpUplink.Between F where
  rely _ _ hw hr := absurd hr (not_rely (halone _ hw))
  parked _ _ _ _ hw _ _ := done_alone (halone _ hw)
  member f w hf hw _ := by
    have hkeep : Keeps w (w.call f) := by
      rcases hf w.mem with hmem | hmem
      · refine keeps_call ?_ ?_ ?_ ?_ ?_
        all_goals rw [hmem]
      · refine keeps_call ?_ ?_ ?_ ?_ ?_
        all_goals rw [hmem]
    exact ⟨guar_keeps hkeep, hkeeps _ _ hkeep hw⟩
  io o answer w ho hw _ := by
    have hkeep : Keeps w (w.answer o answer) := by
      cases o with
      | inl o => exact keeps_push (heard_eq_none ho.1 answer) (wrote_eq_none ho.2 answer)
      | inr o => exact keeps_quiet (isQuiet_ext (K := kind) o answer)
    exact ⟨guar_keeps hkeep, hkeeps _ _ hkeep hw⟩
  spawn _ _ h := h.elim

section Aside

variable {α : Type} {F : World kind.object → Prop} {Q : Except Exn α → World kind.object → Prop}
  (hF : ∀ w w', Keeps w w' → F w → F w') (hw : F w)

include hF hw

/-- A member change that this direction does not depend on. -/
theorem wp_modify_aside {f : Mem → Mem} {k : Unit → Code α}
    (hf : ∀ w : World kind.object, Keeps w (w.call fun s => (f s, [])))
    (h : ∀ w, F w → wp (contract u) Task.clientTask (k ()) Q w) :
    wp (contract u) Task.clientTask (modify f >>= k) Q w :=
  wp_member_seq (O := kind.object) fun _ => ⟨guar_keeps (hf w), h _ (hF _ _ (hf w) hw)⟩

/-- Neither does it depend on what is called besides the network. -/
theorem wp_ext_aside {o : ExtOp} {k : o.Res → Code α}
    (h : ∀ r, F (w.push (.io (O := kind.object) (.inr o) r)) →
      wp (contract u) Task.clientTask (k r) Q (w.push (.io (O := kind.object) (.inr o) r))) :
    wp (contract u) Task.clientTask (awaitExt o >>= k) Q w := by
  refine wp_bind (wp_call (O := kind.object) rfl fun r _ => ?_)
  have hkeep : Keeps w (w.answer _ r) := keeps_quiet (isQuiet_ext (K := kind) o r)
  exact ⟨guar_keeps hkeep, h r (hF _ _ hkeep hw)⟩

end Aside

/-! ## Setting up -/

/-- Vision, asked for beside Encryption, changes nothing here. -/
theorem wp_setupVision (req : Request) (hw : Accepted u w) :
    wp (contract u) Task.clientTask (setupVision req) (fun _ => Accepted u) w := by
  have hkeeps : ∀ w w', Keeps w w' → Accepted u w → Accepted u w' := fun _ _ h hw => h.accepted hw
  rw [setupVision]
  split
  · refine wp_modify_aside hkeeps hw (fun _ => keeps_call rfl rfl rfl rfl rfl) fun w hw => ?_
    refine wp_ext_aside hkeeps hw fun seed hw => ?_
    cases seed with
    | error e => exact hw
    | ok _ =>
        exact wp_modify_aside hkeeps hw (fun _ => keeps_call rfl rfl rfl rfl rfl) fun w hw => hw
  · exact hw

theorem stopsShort_next (n : Nat) : (Reader.next n : Parser Bytes).StopsShort fun res =>
    ∃ data, res = .ok data ∧ data.length < n :=
  ⟨fun _ _ => trivial, fun bs hlt => ⟨.ok bs, ⟨bs, rfl, hlt⟩, rfl⟩⟩

/-- 32 bytes behind the header are the key, and where it ends with a read nothing more was read. -/
theorem key_of_pieces {got : List Bytes} {rest : Bytes} (hreads : u.header ++ got <+: u.reads)
    (hlen : (got.flatten.take 32).length = 32) (hrest : rest = got.flatten.drop 32)
    (hwithin : UringBufferedStream.Within (u.header ++ got) rest) :
    got.flatten.take 32 = u.clientKey ∧ got = u.key := by
  have hkey : got.flatten.take 32 = u.clientKey := by
    have hgot := hreads
    rw [Cut.reads, List.append_assoc, List.prefix_append_right_inj] at hgot
    have htaken := (List.take_prefix 32 got.flatten).trans hgot.flatten
    rw [List.flatten_append] at htaken
    have hclient : u.clientKey <+: u.key.flatten ++ u.ciphertexts.flatten := List.prefix_append _ _
    refine (List.prefix_of_prefix_length_le htaken hclient ?_).eq_of_length ?_
    · rw [hlen]
      exact u.key_length.ge
    · rw [hlen]
      exact u.key_length.symm
  have hbytes : (u.header ++ got).flatten = (u.header ++ u.key).flatten ++ rest := by
    rw [List.flatten_append, List.flatten_append, List.append_assoc, hrest]
    show _ = _ ++ (u.clientKey ++ _)
    rw [← hkey, List.take_append_drop]
  have hcut := hwithin.eq_cut hreads (List.prefix_append _ _) hbytes rfl u.nonempty
  exact ⟨hkey, List.append_cancel_left hcut.1⟩

theorem wp_readKey (hw : Waiting true w) (hat : At u.header w) (hdrained : w.mem.stream.unread = [])
    (henv : Env u w.trace) :
    wp (contract u) Task.clientTask (onStream cfg (Reader.next 32)) (Returns fun data w' =>
      Waiting true w' ∧
        (data.length = 32 → data = u.clientKey ∧ At (u.header ++ u.key) w')) w := by
  have hshaking : Handshake.Shaking (Waiting true) u.header w := ⟨hw, hat.remaining, hat.pieces⟩
  have hparse := UringBufferedStream.wp_parse_of (C := contract u)
    (Φ := fun chunks w => Handshake.Shaking (Waiting true) chunks w ∧
      ¬ EofOn (K := kind) Fd.client w.trace)
    (Ψ := Handshake.Shaking (Waiting true))
    (fun chunks w hw => Handshake.wp_read_shaking cfg (handshakes true) chunks hw.1 hw.2)
    (stopsShort_next 32) w.mem.stream ⟨hshaking, hat.noEof⟩ (.inl hdrained)
  refine wp_get_seq (O := kind.object) (wp_then (wp_returns_env henv hparse) ?_)
  rintro ⟨res, stream⟩ w' ⟨⟨got, hrun, hwithin, hread⟩, henv⟩
  rw [hdrained, List.nil_append] at hrun
  obtain ⟨rfl, hrest⟩ : res = .ok (got.flatten.take 32) ∧ stream.unread = got.flatten.drop 32 :=
    ⟨(Prod.mk.inj hrun).1.symm, (Prod.mk.inj hrun).2.symm⟩
  have hshaking' := hread.elim (·.1) (·.2)
  have hnext := hshaking'.modify (handshakes (u := u) true) (f := fun s => { s with stream })
    fun s => ⟨stream, rfl⟩
  refine wp_bind (wp_member fun _ => ⟨guar_alone hshaking'.kept.started hnext.kept.safe, ?_⟩)
  refine ⟨hnext.kept, fun hlen => ?_⟩
  -- a whole key was read before the end of the stream
  have hnoEof : ¬ EofOn (K := kind) Fd.client w'.trace := by
    rcases hread with hread | ⟨⟨data, hdata, hlt⟩, -⟩
    · exact hread.2
    · rw [← Except.ok.inj hdata] at hlt
      omega
  have hreads := henv.reads
  rw [hshaking'.pieces] at hreads
  obtain ⟨hkey, rfl⟩ := key_of_pieces hreads hlen hrest hwithin
  refine ⟨hkey, hnext.pieces, ?_, hnext.remaining⟩
  rw [EofOn, answers_call]
  exact hnoEof

/-- The names of `encryptionMethod` are those that `setupEncryption` takes. -/
theorem setupEncryption_supported {req : Request}
    (h : (encryptionMethod req.encryption).isSome = true) :
    setupEncryption cfg req = do
      modify fun s => { s with useEncryption := true }
      let clientPubKeyBytes ← onStream cfg (Reader.next 32)
      if clientPubKeyBytes.length ≠ 32 then
        return false
      else
        modify fun s => { s with clientPublicKey := clientPubKeyBytes }
        let keyPair ← awaitExt .generateKeyPair
        let serverPublicKey ← orThrow keyPair
        modify fun s => { s with serverPublicKey }
        return true := by
  have hname : req.encryption = ascii "aes-256-gcm" ∨ req.encryption = ascii "aes256gcm" ∨
      req.encryption = ascii "chacha20-poly1305" ∨ req.encryption = ascii "chacha20" := by
    unfold encryptionMethod at h
    split at h
    · next haes => exact haes.elim .inl fun haes => .inr (.inl haes)
    · split at h
      · next hchacha => exact .inr (.inr hchacha)
      · exact absurd h nofun
  have hne : req.encryption ≠ [] := by
    rcases hname with hname | hname | hname | hname
    all_goals
      rw [hname]
      decide
  rw [setupEncryption, if_neg hne, if_pos hname]

/-- The key is taken, or the session ends before the target task is started. -/
theorem wp_setupEncryption {req : Request} (hreq : req.encryption = u.encryption)
    (hw : Accepted u w) :
    wp (contract u) Task.clientTask (setupEncryption cfg req)
      (Ends (fun ok w' => if ok then Keyed u w' else w'.mem.targetTaskStarted = false)
        fun w' => w'.mem.targetTaskStarted = false) w := by
  rw [setupEncryption_supported cfg (hreq ▸ u.supported)]
  set w₁ := w.call fun s => ({ s with useEncryption := true }, []) with hw₁
  have hwaiting : Waiting true w₁ := by
    refine ⟨hw.started, rfl, hw.key, ?_⟩
    rw [wroteTo, writes_call]
    exact hw.toTarget
  have hat : At u.header w₁ := by
    refine ⟨?_, ?_, hw.remaining⟩
    · rw [chunksFrom, answers_call]
      exact hw.pieces
    · rw [EofOn, answers_call]
      exact hw.noEof
  refine wp_member_seq (O := kind.object) fun henv => ⟨guar_alone hw.started hwaiting.safe, ?_⟩
  refine wp_then (wp_readKey cfg hwaiting hat hw.drained henv) ?_
  rintro data w ⟨hw, htaken⟩
  by_cases hlen : data.length = 32
  · rw [if_neg (not_not.2 hlen)]
    obtain ⟨rfl, hat⟩ := htaken hlen
    have hkeyed : Keyed u (w.call fun s => ({ s with clientPublicKey := u.clientKey }, [])) := by
      refine ⟨⟨?_, ?_, hat.remaining⟩, hw.started, hw.encryption, rfl, ?_⟩
      · rw [chunksFrom, answers_call]
        exact hat.pieces
      · rw [EofOn, answers_call]
        exact hat.noEof
      · rw [wroteTo, writes_call]
        exact hw.toTarget
    refine wp_member_seq (O := kind.object) fun _ => ⟨guar_alone hw.started hkeyed.safe, ?_⟩
    have hkeeps : ∀ w w', Keeps w w' → Keyed u w → Keyed u w' := fun _ _ h hw => h.keyed hw
    refine wp_ext_aside hkeeps hkeyed fun keyPair hw => ?_
    cases keyPair with
    | error e => exact hw.started
    | ok serverPublicKey =>
        exact wp_modify_aside hkeeps hw (fun _ => keeps_call rfl rfl rfl rfl rfl) fun w hw => hw
  · rw [if_pos hlen]
    exact hw.started

/-! ## The response and the connection -/

theorem only_writeClient (data : Bytes) :
    Only UdpUplink.Between (cfg.clientStream.writeFull (K := kind) data) := by
  refine NetStream.only_writeFull _ _ fun o ho => ?_
  rw [clientStream_fd] at ho
  exact ⟨fun hreads => hreads.not_writes ho, fun h => nomatch ho.unique h⟩

/-- The response is only taken for sent once the keys come from the key of the client. -/
theorem wp_sendResponseAndKey (version : UInt8) (hw : Keyed u w) :
    wp (contract u) Task.clientTask (sendResponseAndKey cfg version)
      (Ends (fun sent w' => Keyed u w' ∧ (sent = true → Shared u w'.trace)) (Keyed u)) w := by
  have hframe := frame_between (u := u) (F := Keyed u) (fun _ _ h hw => h.keyed hw) fun _ hw => hw.started
  refine wp_seq (wp_of_uses hframe (only_writeClient cfg _) hw) ?_ fun _ _ hw => hw
  intro sendResult w hw
  by_cases hsent : sendResult < 0
  · rw [if_pos hsent]
    exact ⟨hw, nofun⟩
  · rw [if_neg hsent]
    refine wp_get_seq (O := kind.object) ?_
    rw [if_pos hw.encryption, hw.key]
    refine wp_seq (wp_of_uses hframe (only_writeClient cfg _) hw) ?_ fun _ _ hw => hw
    intro sendKeyResult w hw
    by_cases hsent : sendKeyResult ≤ 0
    · rw [if_pos hsent]
      exact ⟨hw, nofun⟩
    · rw [if_neg hsent]
      refine wp_ext_aside (fun _ _ h hw => Keeps.keyed h hw) hw fun secret hw => ?_
      cases secret with
      | error e => exact hw
      | ok derived =>
          refine ⟨hw, ?_⟩
          rintro rfl
          exact ⟨_, List.mem_append_right _ (List.mem_singleton.2 rfl), decide_eq_true rfl⟩

theorem wp_connectTarget (req : Request) (hw : Keyed u w ∧ Shared u w.trace) :
    wp (contract u) Task.clientTask (connectTarget req)
      (fun _ w' => Keyed u w' ∧ Shared u w'.trace) w := by
  have hframe := frame_between (u := u) (F := fun w => Keyed u w ∧ Shared u w.trace)
    (fun _ _ h hw => ⟨h.keyed hw.1, h.shared hw.2⟩) fun _ hw => hw.1.started
  exact wp_of_uses hframe ((only_connectTarget req).mono UdpUplink.between_of_connects) hw

/-! ## The relay -/

theorem wp_startTargetTask (hw : Keyed u w) (hshared : Shared u w.trace) :
    wp (contract u) Task.clientTask startTargetTask (Returns fun _ w' =>
      (Relayed u [] w'.trace ∧ Running u w') ∧ w'.mem.handshakeRemaining = []) w := by
  set w₁ := w.call fun s => ({ s with targetTaskStarted := true }, []) with hw₁
  have hwrote : wroteTo (K := kind) Fd.target w₁.trace = [] := by
    rw [wroteTo, writes_call]
    exact hw.toTarget
  have hrunning : Running u w₁ := by
    obtain ⟨e, he, hderived⟩ := hshared
    exact ⟨rfl, hw.encryption, hw.key, e, List.mem_append_left _ he, hderived⟩
  have hrelayed : Relayed u [] w₁.trace := by
    refine ⟨[], ?_, .inl ?_⟩
    · rw [List.append_nil, chunksFrom, answers_call]
      exact hw.pieces
    · rw [hwrote]
      rfl
  have hsafe : Safe u w₁ := ⟨.inl hw.key, hwrote ▸ List.nil_prefix⟩
  have hkeep : Keeps w₁ (w₁.start .targetTask) :=
    keeps_quiet (isQuiet_spawned (K := kind) Task.targetTask)
  refine wp_member_seq (O := kind.object) fun _ => ⟨guar_alone hw.started hsafe, wp_spawn fun _ => ?_⟩
  refine ⟨guar_keeps hkeep, rfl, fun w₂ hl => ?_⟩
  induction hl with
  | refl => exact ⟨⟨hkeep.relayed hrelayed, hkeep.running hrunning⟩, hw.remaining⟩
  | tail _ hr ih =>
      have hkeep := (rely_client hr).2
      exact ⟨⟨hkeep.relayed ih.1.1, hkeep.running ih.1.2⟩, hkeep.remaining.trans ih.2⟩

theorem Cut.plaintexts_concat (cs : List Bytes) (c : Bytes) :
    u.plaintexts (cs ++ [c]) = u.plaintexts cs ++ u.plaintext c := by
  simp [Cut.plaintexts]

/-- What was read behind the key are the first ciphertexts. -/
theorem prefix_ciphertexts {tr : List (Event kind.object)} {cs : List Bytes} (henv : Env u tr)
    (hpieces : chunksFrom (K := kind) Fd.client tr = u.header ++ u.key ++ cs) :
    cs <+: u.ciphertexts := by
  have hreads := henv.reads
  rw [hpieces, Cut.reads] at hreads
  exact (List.prefix_append_right_inj _).1 hreads

theorem Relayed.safe (h : Relayed u pending w.trace) (hkey : w.mem.clientPublicKey = u.clientKey)
    (henv : Env u w.trace) : Safe u w := by
  obtain ⟨cs, hpieces, hdelivers⟩ := h
  have hwritten : wroteTo (K := kind) Fd.target w.trace <+: u.plaintexts cs := by
    rcases hdelivers with hexact | hstuck
    · exact ⟨pending, hexact⟩
    · exact hstuck.2
  exact ⟨.inl hkey, hwritten.trans ((prefix_ciphertexts henv hpieces).flatMap u.plaintext)⟩

theorem Relayed.done (h : Relayed u [] w.trace) : Done u w := by
  intro _ hok
  obtain ⟨cs, hpieces, hdelivers⟩ := h
  rw [hpieces, List.drop_left]
  rcases hdelivers with hexact | hstuck
  · rw [← hexact, List.append_nil]
  · exact absurd hstuck.1 hok

theorem Delivers.other {cs : List Bytes} {tr : List (Event kind.object)} {e : Event kind.object}
    (h : Delivers u cs pending tr) (hwrote : wrote (K := kind) Fd.target e = none) :
    Delivers u cs pending (tr ++ [e]) := by
  unfold Delivers
  rw [wroteTo_append, wroteTo_other hwrote, List.append_nil, writeFailed_append]
  exact h.imp_right fun hstuck => ⟨.inl hstuck.1, hstuck.2⟩

theorem Relayed.read {tr : List (Event kind.object)} {e : Event kind.object} {rr : RecvResult}
    (h : Relayed u [] tr) (he : IsRead Fd.client rr e) :
    if rr.ok then Received u rr.data (tr ++ [e]) else Relayed u [] (tr ++ [e]) := by
  obtain ⟨cs, hpieces, hdelivers⟩ := h
  have hdelivers' := hdelivers.other (he.wrote_none _)
  cases hok : rr.ok with
  | true =>
      refine ⟨cs, ?_, hdelivers'⟩
      rw [chunksFrom_append, chunksFrom_single he.heard_self, hpieces, hok, List.append_assoc]
      rfl
  | false =>
      refine ⟨cs, ?_, hdelivers'⟩
      rw [chunksFrom_append, chunksFrom_single he.heard_self, hpieces, hok]
      exact List.append_nil _

theorem Received.relayed {c : Bytes} {tr : List (Event kind.object)} (h : Received u c tr) :
    Relayed u (u.plaintext c) tr := by
  obtain ⟨cs, hpieces, hdelivers⟩ := h
  refine ⟨cs ++ [c], hpieces, ?_⟩
  unfold Delivers
  rw [Cut.plaintexts_concat]
  rcases hdelivers with hexact | ⟨hfailed, hwritten⟩
  · rw [List.append_nil] at hexact
    exact .inl (congrArg (· ++ _) hexact)
  · exact .inr ⟨hfailed, hwritten.trans (List.prefix_append _ _)⟩

/-- A write takes what it got through off what is pending, or is the last one. -/
theorem Relayed.write {out rest : Bytes} {failed : Bool} {e : Event kind.object}
    {tr : List (Event kind.object)} (h : Relayed u (out ++ rest) tr)
    (hsticky : Sticky (K := kind) Fd.target (tr ++ [e])) (he : IsWrite Fd.target out failed e) :
    if failed then Relayed u [] (tr ++ [e]) else Relayed u rest (tr ++ [e]) := by
  obtain ⟨cs, hpieces, hdelivers⟩ := h
  have hpieces' : chunksFrom (K := kind) Fd.client (tr ++ [e]) = u.header ++ u.key ++ cs := by
    rw [chunksFrom_append, chunksFrom_other (he.heard_none _), List.append_nil, hpieces]
  have hwrote : wroteTo (K := kind) Fd.target (tr ++ [e]) =
      wroteTo (K := kind) Fd.target tr ++ out := by
    rw [wroteTo_append, wroteTo_single he.wrote_self]
  rcases hdelivers with hexact | ⟨hfailed, hwritten⟩
  · rw [← List.append_assoc, ← hwrote] at hexact
    cases failed with
    | false => exact ⟨cs, hpieces', .inl hexact⟩
    | true =>
        refine ⟨cs, hpieces', .inr ⟨?_, rest, hexact⟩⟩
        exact (writeFailed_append _ _ _).2 (.inr ((writeFailed_single he.wrote_self).2 rfl))
  · -- the write fails like the one before
    obtain ⟨rfl, rfl⟩ : out = [] ∧ failed = true := by simpa using hsticky.next he.wrote_self hfailed
    refine ⟨cs, hpieces', .inr ⟨(writeFailed_append _ _ _).2 (.inl hfailed), ?_⟩⟩
    rwa [hwrote, List.append_nil]

/-- With everything written `clientTask` may suspend on anything, else on writes only. -/
theorem stays_running {S : NetOp Fd → Prop} (hS : ∀ o : NetOp Fd, S o → ¬ o.Writes .target → pending = []) :
    Stays (contract u) Task.clientTask S fun w => Relayed u pending w.trace ∧ Running u w := by
  refine ⟨fun w w' hw hr => ?_, fun o w ho hw _ hwrites => ?_⟩
  · have hkeep := (rely_client hr).2
    exact ⟨hkeep.relayed hw.1, hkeep.running hw.2⟩
  · obtain rfl := hS o ho (hwrites o rfl)
    exact hw.1.done

/-- An event in which nothing else happens leaves `clientTask` relaying. -/
theorem Running.push (h : Running u w) (e : Event kind.object) : Running u (w.push e) := by
  obtain ⟨e', he', hderived⟩ := h.shared
  exact ⟨h.started, h.encryption, h.key, e', List.mem_append_left _ he', hderived⟩

/-- What the loop finds after a read. -/
theorem wp_read (hw : Relayed u [] w.trace ∧ Running u w) :
    wp (contract u) Task.clientTask (cfg.clientStream.read (K := kind)) (Returns fun rr w' =>
      if rr.eof then Relayed u [] w'.trace else if rr.error then Relayed u [] w'.trace
      else Received u rr.data w'.trace ∧ Running u w') w := by
  refine NetStream.wp_read _ _ (stays_running fun _ _ _ => rfl) hw ?_
  intro w e rr hw he _ _
  rw [clientStream_fd] at he
  have hnext := hw.1.read he
  have hsafe : Safe u w → Safe u (w.push e) := by
    refine fun h => ⟨h.key, ?_⟩
    rw [World.push_trace, wroteTo_append, wroteTo_other (he.wrote_none _), List.append_nil]
    exact h.written
  refine ⟨⟨hsafe, fun hs => hs⟩, ?_⟩
  show if rr.eof = true then _ else if rr.error = true then _ else _
  cases hok : rr.ok with
  | true =>
      obtain ⟨heof, herr⟩ : rr.eof = false ∧ rr.error = false := by simpa [rr.ok_eq] using hok
      simp only [hok, if_true] at hnext
      simp only [heof, herr, Bool.false_eq_true, if_false]
      exact ⟨hnext, hw.2.push e⟩
  | false =>
      simp only [hok, Bool.false_eq_true, if_false] at hnext
      split
      · exact hnext
      · split
        · exact hnext
        · next heof herr => simp [rr.ok_eq, heof, herr] at hok

/-- A ciphertext of the client decrypts to its plaintext. -/
theorem wp_decryptClient {data : Bytes} (hw : Received u data w.trace ∧ Running u w) :
    wp (contract u) Task.clientTask (decryptClient data) (Returns fun out w' =>
      out = some (u.plaintext data) ∧ Relayed u (u.plaintext data) w'.trace ∧ Running u w') w := by
  refine wp_bind (wp_call (O := kind.object) rfl fun r henv => ?_)
  have hkeep : Keeps w (w.answer _ r) :=
    keeps_quiet (isQuiet_ext (K := kind) (ExtOp.decryptClient data) r)
  refine ⟨guar_keeps hkeep, ?_⟩
  have hanswer : r = .ok (u.opens data) := (eachStep_concat.1 henv.opens).2 hw.2.shared (data, r) rfl
  have hmem : data ∈ u.ciphertexts := by
    obtain ⟨cs, hpieces, -⟩ := hw.1
    refine (prefix_ciphertexts (stable.env_prefix _ _ henv) hpieces).subset ?_
    exact List.mem_append_right _ (List.mem_singleton.2 rfl)
  obtain ⟨p, hp⟩ := Option.isSome_iff_exists.1 (u.opened data hmem)
  obtain rfl : r = .ok (some (u.plaintext data)) := by
    rw [hanswer, Cut.plaintext, hp]
    rfl
  exact ⟨rfl, hkeep.relayed hw.1.relayed, hkeep.running hw.2⟩

theorem write_step {out rest : Bytes} {failed : Bool} {e : Event kind.object}
    (hw : Relayed u (out ++ rest) w.trace ∧ Running u w)
    (he : IsWrite targetStream.fd out failed e) (henv : Env u (w.push e).trace) :
    (contract u).guar Task.clientTask w (w.push e) ∧
      if failed then Relayed u [] (w.push e).trace ∧ Running u (w.push e)
      else Relayed u rest (w.push e).trace ∧ Running u (w.push e) := by
  have hnext := hw.1.write henv.sticky he
  have hrunning := hw.2.push e
  have hguar : ∀ {pending}, Relayed u pending (w.push e).trace →
      (contract u).guar Task.clientTask w (w.push e) := fun hnext =>
    ⟨fun _ => hnext.safe hrunning.key henv, fun hs => hs⟩
  cases failed with
  | true => exact ⟨hguar hnext, hnext, hrunning⟩
  | false => exact ⟨hguar hnext, hnext, hrunning⟩

theorem stays_writes (pending : Bytes) :
    Stays (contract u) Task.clientTask (NetOp.Writes targetStream.fd)
      fun w => Relayed u pending w.trace ∧ Running u w :=
  stays_running fun _ ho hnot => absurd ho hnot

/-- Ending the writing side of the target. -/
theorem wp_shutdownWrite (hw : Relayed u [] w.trace) :
    wp (contract u) Task.clientTask (targetStream.shutdownWrite (K := kind))
      (Returns fun _ => Done u) w := by
  have hstays : Stays (contract u) Task.clientTask (NetOp.Shuts targetStream.fd)
      fun w => Relayed u [] w.trace :=
    ⟨fun _ _ hw hr => (rely_client hr).2.relayed hw, fun _ _ _ hw _ _ => hw.done⟩
  refine NetStream.wp_shutdownWrite _ hstays hw ?_
  intro w o answer n hw ho _
  have hkeep : Keeps w (w.push (.io (O := kind.object) (.inl o) answer)) :=
    keeps_quiet (isQuiet_net (fun _ => ho.not_reads) (fun _ => ho.not_writes) answer)
  exact ⟨guar_keeps hkeep, (hkeep.relayed hw).done⟩

/-- There is nothing to forward. -/
theorem wp_forwardHandshakeRemaining (hw : Relayed u [] w.trace ∧ Running u w)
    (hremaining : w.mem.handshakeRemaining = []) :
    wp (contract u) Task.clientTask forwardHandshakeRemaining (Returns fun ok w' =>
      ok = true ∧ Relayed u [] w'.trace ∧ Running u w') w := by
  refine wp_get_seq (O := kind.object) ?_
  rw [if_pos hremaining]
  exact ⟨rfl, hw⟩

/-- **The relay of an Encryption session**: whatever ends it, everything read was decrypted and
    written, unless a write failed. -/
theorem wp_relayClientToTarget (hw : Relayed u [] w.trace ∧ Running u w) :
    wp (contract u) Task.clientTask (relayClientToTarget cfg) (Returns fun _ => Done u) w := by
  refine wp_get_seq (O := kind.object) ?_
  rw [if_pos hw.2.encryption]
  refine wp_relayTransformed (P := fun pending w => Relayed u pending w.trace ∧ Running u w)
    (D := fun data w => Received u data w.trace ∧ Running u w)
    (E := fun w => Relayed u [] w.trace) (R := fun w => Relayed u [] w.trace) ?_ ?_ ?_ ?_ ?_ ?_ ?_ hw
  · exact fun w hw _ => hw.1.done
  · exact fun w hw => wp_read cfg hw
  · exact fun w hw => wp_shutdownWrite hw
  · exact fun w hw => wp_shutdownWrite hw
  · intro data w _ hw
    refine wp_returns (wp_decryptClient hw) ?_
    rintro _ w' ⟨rfl, hw'⟩
    refine ⟨fun out heq => ?_, nofun, nofun⟩
    obtain rfl : u.plaintext data = out := by simpa using heq
    exact hw'
  · intro data w hw
    refine wp_returns (NetStream.wp_writeNonempty targetStream
      (P := fun pending w => Relayed u pending w.trace ∧ Running u w)
      (F := fun w => Relayed u [] w.trace ∧ Running u w) stays_writes
      (fun w e out rest failed hw he henv => write_step hw he henv) hw) ?_
    intro written w' hw'
    show if written = true then _ else _
    cases written with
    | true => exact hw'.elim id id
    | false => exact Relayed.done (And.left hw')
  · exact fun w _ hdirect => nomatch hdirect

/-! ## The session -/

theorem wp_runTcpSession {req : Request} (hreq : req.encryption = u.encryption)
    (hw : Accepted u w) :
    wp (contract u) Task.clientTask (runTcpSession cfg req) (fun _ => Done u) w := by
  rw [runTcpSession]
  refine wp_seq (wp_setupVision req hw) ?_ fun _ _ hw => done_alone hw.started
  intro accepted w hw
  cases accepted with
  | false => exact done_alone hw.started
  | true =>
      refine wp_seq (wp_setupEncryption cfg hreq hw) ?_ fun _ _ hs => done_alone hs
      intro keyed w hw
      cases keyed with
      | false => exact done_alone hw
      | true =>
          refine wp_seq (wp_sendResponseAndKey cfg _ hw) ?_ fun _ _ hw => done_alone hw.started
          rintro sent w ⟨hw, hshared⟩
          cases sent with
          | false => exact done_alone hw.started
          | true =>
              refine wp_seq (wp_connectTarget req ⟨hw, hshared rfl⟩) ?_
                fun _ _ hw => done_alone hw.1.started
              rintro connected w ⟨hw, hshared⟩
              cases connected with
              | false => exact done_alone hw.started
              | true =>
                  refine wp_then (wp_startTargetTask hw hshared) ?_
                  rintro _ w ⟨hw, hremaining⟩
                  refine wp_then (wp_forwardHandshakeRemaining hw hremaining) ?_
                  rintro _ w ⟨rfl, hw⟩
                  exact wp_returns (wp_relayClientToTarget cfg hw) fun _ _ hw => hw

/-- Only a TCP session takes the key; the others end at once. -/
theorem wp_dispatch {req : Request} (hreq : req.encryption = u.encryption) (hw : Accepted u w) :
    wp (contract u) Task.clientTask (dispatch cfg req) (fun _ => Done u) w := by
  unfold dispatch
  cases req.command with
  | tcp => exact wp_runTcpSession cfg hreq hw
  | udp =>
      have hne : req.encryption ≠ [] := by
        intro hnil
        have hsupported := u.supported
        rw [← hreq, hnil] at hsupported
        exact absurd hsupported (by decide)
      show wp _ _ (runUdpSession cfg req) _ _
      rw [runUdpSession, if_pos (.inr hne)]
      exact done_alone hw.started
  | mux => exact done_alone hw.started
  | rvs => exact done_alone hw.started

theorem keeps_finish : Keeps w (w.call finishClientTask) := by
  refine keeps_call ?_ ?_ ?_ ?_ ?_
  all_goals
    simp only [finishClientTask]
    split
    · rfl
    · split
      · rfl
      · rfl

theorem wp_clientTask (u : Cut cfg.validator) (henv : Env u w.trace) (hmem : w.mem = {})
    (htrace : w.trace = []) :
    wp (contract u) Task.clientTask (clientTaskAs cfg u.given)
      (fun _ => (contract u).post Task.clientTask) w := by
  have hwaiting : Waiting false w := by
    refine ⟨by rw [hmem], by rw [hmem], by rw [hmem], ?_⟩
    rw [htrace]
    rfl
  refine Handshake.wp_clientTaskAs cfg u.given (handshakes false) reads_sent u.wf henv hmem htrace hwaiting
    (D := Done u) ?_ ?_ ?_
  · exact fun w hw _ => done_alone hw.started
  · intro w hw henv
    have hkeep : Keeps w (w.call fun s => ({ s with command := (u.given u.req).command }, [])) :=
      keeps_call rfl rfl rfl rfl rfl
    exact ⟨guar_keeps hkeep, wp_dispatch cfg rfl (hkeep.accepted (accepted_of_shaken hw henv))⟩
  · exact fun w hw => ⟨guar_keeps keeps_finish, fun _ => keeps_finish.done hw⟩

theorem meets (cfg : Config) (u : Cut cfg.validator) (t : Task) (w : World kind.object)
    (hpre : (contract u).pre t w) (henv : Env u w.trace) :
    wp (contract u) t (bodyAs cfg u.given t) (fun _ => (contract u).post t) w := by
  cases t with
  | clientTask => exact wp_clientTask cfg u henv hpre.1 hpre.2
  | targetTask => exact wp_targetTask cfg hpre

/-- The messages of a session, cut where the header and the key end. -/
def Cut.ofPeers (r : EncryptedRequest validator) (peers : EncryptionPeers r.method)
    (header key : List Bytes) (hheader : header.flatten = r.header)
    (hlen : key.flatten.length = 32) (hne : ∀ c ∈ header ++ key, c ≠ []) : Cut validator where
  header := header
  req := r.req
  wf := hheader ▸ r.wf
  encryption := r.encryption
  supported := by
    rw [r.named]
    rfl
  key := key
  key_length := hlen
  ciphertexts := peers.ciphertexts
  opens := peers.opens
  opened c hc := by
    obtain ⟨x, hx, rfl⟩ := List.mem_map.1 hc
    rw [peers.opens_message hx]
    rfl
  nonempty c hc := by
    rcases List.mem_append.1 hc with hc | hc
    · exact hne c hc
    · obtain ⟨x, hx, rfl⟩ := List.mem_map.1 hc
      intro hnil
      have hopened := peers.opens_message hx
      rw [hnil, peers.opens_nil] at hopened
      exact nomatch hopened

theorem Cut.ofPeers_plaintexts (r : EncryptedRequest validator) (peers : EncryptionPeers r.method)
    {header key : List Bytes} (hheader : header.flatten = r.header)
    (hlen : key.flatten.length = 32) (hne : ∀ c ∈ header ++ key, c ≠ []) :
    (Cut.ofPeers r peers header key hheader hlen hne).plaintexts peers.ciphertexts =
      peers.plaintexts := by
  rw [Cut.plaintexts, EncryptionPeers.ciphertexts, List.flatMap_map]
  refine List.flatMap_congr fun x hx => ?_
  show (peers.opens x.2).getD [] = x.1
  rw [peers.opens_message hx]
  rfl

end EncryptionUplink

/-- `plainRequest` with Encryption. -/
def encryptedRequest : EncryptedRequest plainServer.validator where
  header := plainRequest
  req := plainTcp.req
  wf := plainTcp.wf
  encryption := ascii "chacha20"
  method := .x25519Chacha20
  named := by decide

/-- What a client with `sampleSession` has made of two messages. -/
def samplePeers : EncryptionPeers .x25519Chacha20 where
  evp := sampleEvp
  sharedSecret := [1, 2, 3]
  session := sampleSession
  derived := rfl
  pair := ((SessionPair.mk (fun _ => sampleSession) []).send sampleEvp false .client
    [1, 2, 3, 4]).send sampleEvp false .client [5]
  reachable := (Relation.ReflTransGen.refl.tail (.send _ _ _ _)).tail (.send _ _ _ _)
  messages :=
    [([1, 2, 3, 4], EncryptionSession.nonceBytes 0 ++ [1, 2, 3, 4] ++ List.replicate 16 0),
      ([5], EncryptionSession.nonceBytes 1 ++ [5] ++ List.replicate 16 0)]
  sent x hx := by
    rcases List.mem_cons.1 hx with rfl | hx
    · exact ⟨_, .head _, rfl, rfl, rfl⟩
    · obtain rfl := List.mem_singleton.1 hx
      exact ⟨_, .tail _ (.head _), rfl, rfl, rfl⟩
  inverts x hx := by
    refine sampleEvp_lawful.inverts _ ?_
    rcases List.mem_cons.1 hx with rfl | hx
    · decide
    · obtain rfl := List.mem_singleton.1 hx
      decide

/-- A run of a session whose client sends these pieces, along `ts`. -/
def encryptedRun (pieces target : List Bytes) (ts : List Task) : Pool kind.object :=
  run (O := kind.object) (bodyAs plainServer encryptedRequest.given) Task.clientTask {}
    { peers pieces target with
      ext := fun
        | .generateKeyPair => .ok (List.replicate 32 7)
        | .computeSharedSecret _ => .ok true
        | .decryptClient c => .ok (samplePeers.opens c)
        | o => (peers pieces target).ext o : Script kind }.env 300 ts

/-- The header and the key come in two reads each. -/
def encryptedUplinkRun : Pool kind.object :=
  encryptedRun ([plainRequest.take 5, plainRequest.drop 5, [9, 9], List.replicate 30 9] ++
    samplePeers.ciphertexts) [] (List.replicate 13 .clientTask)

theorem samplePeers_plaintexts : samplePeers.plaintexts = [1, 2, 3, 4, 5] :=
  rfl

theorem encryptedUplinkRun_reachable :
    Coroutine.Reachable (O := kind.object) (bodyAs plainServer encryptedRequest.given)
      Task.clientTask {} encryptedUplinkRun :=
  run_reachable _ _ _ _ _ _

theorem encryptedUplinkRun_idle : ¬ UdpUplink.Sending encryptedUplinkRun := by
  rintro ⟨o, k, hframe, -⟩
  have hdone : encryptedUplinkRun.awaits Task.clientTask = none := by decide +kernel
  rw [Pool.awaits, hframe] at hdone
  cases hdone

end VlessConnection

end Cppvless
