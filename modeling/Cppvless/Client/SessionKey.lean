import Cppvless.Client.Socks5UdpRelay
import Cppvless.Common.Config

set_option autoImplicit false

/-! # The keys of the sessions

`Socks5UdpRelay` has its sessions in a map from strings, `makeKey` of the destination; the relay of
`Client.Socks5UdpRelay` has them under the destination itself. The two agree since `makeKey` is
injective: the type is its first character, and the port stands behind the last colon, whatever
colons a domain has (`makeKey_injective`).

What a session is labelled with is what it was created for: only `recvLoop` creates sessions, and it
gives each its destination before it stores it (`Labelled`, `Keeps`).

`inet_ntop` is left open: it writes different IPv6 addresses differently, and does not fail on a
buffer of `INET6_ADDRSTRLEN` bytes. -/

namespace Cppvless

open Coroutine

namespace Address

variable (inetNtop : List.Vector UInt8 16 → Option Bytes)

/-- `Address::type` -/
def type : Address → Socks5.AddressType
  | ipv4 _ => .ipv4
  | ipv6 _ => .ipv6
  | domain _ => .domain

/-- `Address::toString` -/
def toString : Address → Bytes
  | ipv4 ip =>
      decimal (ip.get 0).toNat ++ ascii "." ++ decimal (ip.get 1).toNat ++ ascii "." ++
        decimal (ip.get 2).toNat ++ ascii "." ++ decimal (ip.get 3).toNat
  | ipv6 ip => (inetNtop ip).getD (ascii "invalid-ipv6")
  | domain name => name

end Address

/-! ## What a key can be read back from -/

/-- The last separator is found by what stands behind it. -/
theorem append_cons_inj_of_last {α : Type} {c : α} {xs ys ds es : List α} (hd : c ∉ ds)
    (he : c ∉ es) (h : xs ++ c :: ds = ys ++ c :: es) : xs = ys ∧ ds = es := by
  rcases List.append_eq_append_iff.1 h with ⟨as, hys, hds⟩ | ⟨as, hxs, hes⟩
  · cases as with
    | nil => exact ⟨by simpa using hys.symm, List.tail_eq_of_cons_eq hds⟩
    | cons a as =>
        have hmem : c ∈ ds := by
          rw [List.tail_eq_of_cons_eq hds]
          simp
        exact absurd hmem hd
  · cases as with
    | nil => exact ⟨by simpa using hxs, (List.tail_eq_of_cons_eq hes).symm⟩
    | cons a as =>
        have hmem : c ∈ es := by
          rw [List.tail_eq_of_cons_eq hes]
          simp
        exact absurd hmem he

theorem decimal_natCast (n : Nat) : decimal n = (Nat.toDigits 10 n).map Char.toUInt8 := by
  rw [decimal, if_neg (by omega), Int.natAbs_natCast]

theorem decimal_injective {n m : Nat} (h : decimal n = decimal m) : n = m := by
  have hread : ∀ k : Nat, leadingDigits (decimal k) = k := by
    intro k
    have hdigits : leadingDigits ((Nat.toDigits 10 k).map Char.toUInt8 ++ []) = k :=
      leadingDigits_toDigits k rfl
    rwa [List.append_nil, ← decimal_natCast] at hdigits
  have hvalue : (n : Int) = m := by rw [← hread n, h, hread m]
  exact Int.ofNat.inj hvalue

/-- A number has no separator in it. -/
theorem not_mem_decimal (n : Nat) {c : UInt8} (hc : Json.isDigit c = false) : c ∉ decimal n := by
  intro hmem
  rw [decimal_natCast] at hmem
  have hdigit := JsonParser.isDigit_of_mem_toDigits hmem
  rw [hc] at hdigit
  cases hdigit

/-- Whatever stands before it, a number behind a separator can be read back, and what stands before
    the separator. -/
theorem append_decimal_injective {c : UInt8} (hc : Json.isDigit c = false) {xs ys : Bytes} {n m : Nat}
    (h : xs ++ [c] ++ decimal n = ys ++ [c] ++ decimal m) : xs = ys ∧ n = m := by
  rw [List.append_assoc, List.append_assoc] at h
  obtain ⟨hfront, hnumber⟩ :=
    append_cons_inj_of_last (not_mem_decimal n hc) (not_mem_decimal m hc) h
  exact ⟨hfront, decimal_injective hnumber⟩

theorem ascii_dot : ascii "." = [0x2E] := rfl
theorem ascii_colon : ascii ":" = [0x3A] := rfl

namespace Address

variable {inetNtop : List.Vector UInt8 16 → Option Bytes}

theorem toString_ipv4_injective {ip ip' : List.Vector UInt8 4}
    (h : toString inetNtop (ipv4 ip) = toString inetNtop (ipv4 ip')) : ip = ip' := by
  simp only [toString, ascii_dot] at h
  obtain ⟨h, h₃⟩ := append_decimal_injective (by decide) h
  obtain ⟨h, h₂⟩ := append_decimal_injective (by decide) h
  obtain ⟨h, h₁⟩ := append_decimal_injective (by decide) h
  have h₀ := decimal_injective h
  rw [← List.Vector.ofFn_get ip, ← List.Vector.ofFn_get ip']
  congr 1
  funext i
  match i with
  | 0 => exact UInt8.toNat_inj.1 h₀
  | 1 => exact UInt8.toNat_inj.1 h₁
  | 2 => exact UInt8.toNat_inj.1 h₂
  | 3 => exact UInt8.toNat_inj.1 h₃

/-- Two addresses of one type are written differently. -/
theorem toString_injective (hdefined : ∀ ip, (inetNtop ip).isSome = true)
    (hinjective : Function.Injective inetNtop) {a b : Address} (htype : a.type = b.type)
    (h : toString inetNtop a = toString inetNtop b) : a = b := by
  match a, b, htype with
  | ipv4 ip, ipv4 ip', _ => rw [toString_ipv4_injective h]
  | domain name, domain name', _ => exact congrArg domain h
  | ipv6 ip, ipv6 ip', _ =>
      obtain ⟨text, htext⟩ := Option.isSome_iff_exists.1 (hdefined ip)
      obtain ⟨text', htext'⟩ := Option.isSome_iff_exists.1 (hdefined ip')
      simp only [toString, htext, htext', Option.getD_some] at h
      rw [hinjective (htext.trans (h ▸ htext'.symm))]

end Address

namespace Socks5UdpRelay

def makeKey (inetNtop : List.Vector UInt8 16 → Option Bytes) (addr : Address) (port : UInt16) :
    Bytes :=
  decimal addr.type.toByte.toNat ++ ascii "|" ++ addr.toString inetNtop ++ ascii ":" ++
    decimal port.toNat

/-- The first character of a key. -/
theorem head_makeKey (inetNtop : List.Vector UInt8 16 → Option Bytes) (addr : Address)
    (port : UInt16) :
    makeKey inetNtop addr port = (48 + addr.type.toByte) :: 0x7C ::
      (addr.toString inetNtop ++ ascii ":" ++ decimal port.toNat) := by
  have htype : decimal addr.type.toByte.toNat = [48 + addr.type.toByte] := by
    cases addr.type <;> decide
  rw [makeKey, htype]
  simp only [List.append_assoc]
  rfl

theorem makeKey_injective {inetNtop : List.Vector UInt8 16 → Option Bytes}
    (hdefined : ∀ ip, (inetNtop ip).isSome = true) (hinjective : Function.Injective inetNtop)
    {a b : Address} {p q : UInt16} (h : makeKey inetNtop a p = makeKey inetNtop b q) :
    a = b ∧ p = q := by
  rw [head_makeKey, head_makeKey, List.cons.injEq, List.cons.injEq, ascii_colon] at h
  obtain ⟨hhead, -, htail⟩ := h
  obtain ⟨htext, hport⟩ := append_decimal_injective (by decide) htail
  have htype : a.type = b.type := by
    revert hhead
    cases a.type <;> cases b.type <;> decide
  exact ⟨Address.toString_injective hdefined hinjective htype htext, UInt16.toNat_inj.1 hport⟩

/-! ## The map of the sessions -/

section Map

variable {inetNtop : List.Vector UInt8 16 → Option Bytes}

/-- `sessions_`, under the keys it has in the code. -/
def keyedSessions (inetNtop : List.Vector UInt8 16 → Option Bytes) (m : Mem) : List (Bytes × Nat) :=
  m.sessions.map fun x => (makeKey inetNtop x.1.1 x.1.2, x.2)

variable (hdefined : ∀ ip, (inetNtop ip).isSome = true) (hinjective : Function.Injective inetNtop)
include hdefined hinjective

theorem makeKey_eq_iff (key key' : Key) :
    makeKey inetNtop key.1 key.2 = makeKey inetNtop key'.1 key'.2 ↔ key = key' := by
  constructor
  · intro h
    obtain ⟨haddr, hport⟩ := makeKey_injective hdefined hinjective h
    exact Prod.ext haddr hport
  · rintro rfl
    rfl

/-- `sessions_.find(key)` -/
theorem lookup_keyedSessions (m : Mem) (key : Key) :
    (keyedSessions inetNtop m).lookup (makeKey inetNtop key.1 key.2) = m.findSession key := by
  unfold keyedSessions Mem.findSession
  induction m.sessions with
  | nil => rfl
  | cons x rest ih =>
      obtain ⟨key', n⟩ := x
      rw [List.map_cons, List.lookup_cons, List.lookup_cons, ih]
      by_cases hkey : key = key'
      · rw [hkey, beq_self_eq_true, beq_self_eq_true]
      · have hne := mt (makeKey_eq_iff hdefined hinjective key key').1 hkey
        rw [beq_false_of_ne hne, beq_false_of_ne hkey]

/-- `sessions_[key] = session` -/
theorem keyedSessions_addSession (m : Mem) (key : Key) (n : Nat) :
    keyedSessions inetNtop (m.addSession key n) = (makeKey inetNtop key.1 key.2, n) ::
      (keyedSessions inetNtop m).filter fun x => x.1 ≠ makeKey inetNtop key.1 key.2 := by
  unfold keyedSessions Mem.addSession
  rw [List.map_cons, List.filter_map]
  congr 2
  refine List.filter_congr fun x _ => ?_
  simp only [Function.comp, ne_eq, makeKey_eq_iff hdefined hinjective]

end Map

/-! ## The labels -/

/-- What the replies of a session are labelled with. -/
def Mem.label (m : Mem) (n : Nat) : Key := ((m.session n).dest, (m.session n).port)

/-- The session `n` is made, and will not be made again. -/
def Mem.Settled (m : Mem) (n : Nat) : Prop := n < m.nextRemote ∧ m.connecting ≠ some n

/-- The sessions in the map are labelled with their keys. -/
def Labelled (m : Mem) : Prop := ∀ key n, (key, n) ∈ m.sessions → m.Settled n ∧ m.label n = key

/-- A label stays. -/
def KeepsLabels (m m' : Mem) : Prop := ∀ n, m.Settled n → m'.Settled n ∧ m'.label n = m.label n

/-- What everybody but `recvLoop` does. -/
structure Untouched (m m' : Mem) : Prop where
  sessions : ∀ x ∈ m'.sessions, x ∈ m.sessions
  label : ∀ n, m'.label n = m.label n
  nextRemote : m'.nextRemote = m.nextRemote
  connecting : m'.connecting = m.connecting

section Labels

variable {m m' m'' : Mem} {t : Task} {w w' : World kind.object} {n : Nat} {key : Key}

theorem Untouched.of_eq (hsessions : m'.sessions = m.sessions) (hsession : m'.session = m.session)
    (hnext : m'.nextRemote = m.nextRemote) (hconnecting : m'.connecting = m.connecting) :
    Untouched m m' where
  sessions x hx := hsessions ▸ hx
  label n := by rw [Mem.label, Mem.label, hsession]
  nextRemote := hnext
  connecting := hconnecting

theorem Untouched.trans (h : Untouched m m') (h' : Untouched m' m'') : Untouched m m'' where
  sessions x hx := h.sessions x (h'.sessions x hx)
  label n := (h'.label n).trans (h.label n)
  nextRemote := h'.nextRemote.trans h.nextRemote
  connecting := h'.connecting.trans h.connecting

theorem Untouched.settled (h : Untouched m m') : m'.Settled n ↔ m.Settled n := by
  rw [Mem.Settled, Mem.Settled, h.nextRemote, h.connecting]

theorem Untouched.keepsLabels (h : Untouched m m') : KeepsLabels m m' :=
  fun n hn => ⟨h.settled.2 hn, h.label n⟩

theorem Untouched.labelled (h : Untouched m m') (hm : Labelled m) : Labelled m' := by
  intro key n hmem
  obtain ⟨hsettled, hlabel⟩ := hm key n (h.sessions _ hmem)
  exact ⟨h.settled.2 hsettled, (h.label n).trans hlabel⟩

/-- A session gets other members, and no other destination. -/
theorem untouched_setSession {session : Session} (hdest : session.dest = (m.session n).dest)
    (hport : session.port = (m.session n).port) : Untouched m (m.setSession n session) := by
  refine ⟨fun _ => id, fun k => ?_, rfl, rfl⟩
  unfold Mem.label Mem.setSession
  by_cases hk : k = n
  · subst hk
    simp [hdest, hport]
  · simp [hk]

theorem untouched_closeSession (n : Nat) (m : Mem) : Untouched m (closeSession n m).1 := by
  unfold closeSession
  split
  · next fd _ =>
      have hcancel : Untouched m (m.cancelFd fd) := .of_eq rfl rfl rfl rfl
      exact hcancel.trans (untouched_setSession rfl rfl)
  · exact untouched_setSession rfl rfl

theorem untouched_closeSessions (l : List (Key × Nat)) (m : Mem) :
    Untouched m (closeSessions l m).1 := by
  induction l generalizing m with
  | nil => exact .of_eq rfl rfl rfl rfl
  | cons x rest ih =>
      obtain ⟨key, n⟩ := x
      unfold closeSessions
      split
      · exact (untouched_closeSession n m).trans (ih _)
      · exact ih m

theorem untouched_cancelAndClose (fd : Option Fd) (m : Mem) :
    Untouched m (cancelAndClose fd m).1 := by
  cases fd with
  | none => exact .of_eq rfl rfl rfl rfl
  | some fd => exact .of_eq rfl rfl rfl rfl

theorem untouched_stop (m : Mem) : Untouched m (stop m).1 := by
  unfold stop
  split
  · exact .of_eq rfl rfl rfl rfl
  · have hclosed : Untouched m { m with closed := true } := .of_eq rfl rfl rfl rfl
    have hsessions := hclosed.trans (untouched_closeSessions m.sessions _)
    generalize closeSessions m.sessions { m with closed := true } = closed at hsessions ⊢
    have hevent := hsessions.trans (untouched_cancelAndClose closed.1.eventFd _)
    generalize hcancelled : cancelAndClose closed.1.eventFd closed.1 = cancelled at hevent
    have hudp := hevent.trans (untouched_cancelAndClose cancelled.1.udpFd _)
    dsimp only
    rw [hcancelled]
    exact ⟨nofun, hudp.label, hudp.nextRemote, hudp.connecting⟩

/-- The operations that leave the labels as they are. -/
def Inactive : ObjOp kind.object → Prop
  | .member f => ∀ m, Untouched m (f m).1
  | _ => True

/-- Every step keeps the labels. -/
def labelling : Contract kind.object where
  env _ := True
  guar t w w' := KeepsLabels w.mem w'.mem ∧ (Labelled w.mem → Labelled w'.mem) ∧
    (t ≠ .recvLoop → Untouched w.mem w'.mem)
  parked _ _ _ := True
  pre _ w := Labelled w.mem
  post _ _ := True

theorem labelling_stable : labelling.Stable where
  env_prefix _ _ _ := trivial
  parked _ _ _ _ _ _ := trivial
  post _ _ _ _ _ := trivial

theorem labelling_guar (h : Untouched w.mem w'.mem) : labelling.guar t w w' :=
  ⟨h.keepsLabels, h.labelled, fun _ => h⟩

theorem labelling_rely (h : labelling.rely Task.recvLoop w w') : Untouched w.mem w'.mem := by
  obtain ⟨u, hu, hg, -⟩ := h
  exact hg.2.2 hu

/-- Inactive code keeps what the others keep. -/
theorem frame_inactive {F : Mem → Prop} (hrely : ∀ w w', F w.mem → labelling.rely t w w' → F w'.mem)
    (hkeeps : ∀ m m', F m → Untouched m m' → F m') (hF : ∀ m, F m → Labelled m) :
    Frame labelling t Inactive fun w => F w.mem where
  rely := hrely
  parked _ _ _ _ _ := trivial
  member _ w hf hw _ := ⟨labelling_guar (hf w.mem), hkeeps _ _ hw (hf w.mem)⟩
  io _ _ _ _ hw _ := ⟨labelling_guar (.of_eq rfl rfl rfl rfl), hw⟩
  spawn _ _ _ hw _ := ⟨labelling_guar (.of_eq rfl rfl rfl rfl), hF _ hw, hw⟩

theorem frame_labelled : Frame labelling t Inactive fun w => Labelled w.mem :=
  frame_inactive (fun _ _ hw ⟨_, _, hg, _⟩ => hg.2.1 hw) (fun _ _ hw h => h.labelled hw) fun _ => id

theorem only_tracked_inactive {α : Type} {c : Code α} (hc : Only Inactive c) :
    Only Inactive (tracking.tracked c) :=
  tracking.uses_tracked hc (fun _ h => h) fun _ _ _ _ =>
    ⟨fun _ => .of_eq rfl rfl rfl rfl, fun _ => .of_eq rfl rfl rfl rfl⟩

/-! ## The coroutines -/

theorem only_sendLoop_inactive : Only Inactive sendLoop := by
  have hdrain : Only Inactive drainQueue := by
    refine .loop fun _ => .bind (.await trivial) fun m => ?_
    cases m.sendQueue with
    | nil => trivial
    | cons item rest =>
        refine .ite (fun _ => trivial) fun _ => .bind (.await fun _ => .of_eq rfl rfl rfl rfl) fun _ => ?_
        exact .bind (.await trivial) fun sent => .ite (fun _ => trivial) fun _ => trivial
  refine .loop fun _ => .bind (.await trivial) fun m => .ite (fun _ => trivial) fun _ => ?_
  refine .bind (.await trivial) fun rr => .ite (fun _ => trivial) fun _ => ?_
  exact .bind (.await fun _ => .of_eq rfl rfl rfl rfl) fun _ => .bind hdrain fun _ => trivial

theorem only_control_inactive : Only Inactive control := by
  have hstop : Only Inactive (do awaitExt .controlEnd; member stop) :=
    .bind (.await trivial) fun _ => .await untouched_stop
  refine .bind (.await trivial) fun opened => .ite (fun _ => ?_) fun _ => ?_
  · exact .bind (.await fun _ => .of_eq rfl rfl rfl rfl) fun _ => hstop
  · refine .bind (.await fun _ => .of_eq rfl rfl rfl rfl) fun _ => ?_
    exact .bind (.await trivial) fun _ => .bind (.await trivial) fun _ => hstop

theorem only_outTask_inactive (n : Nat) : Only Inactive (sessionOutTask n) :=
  only_sessionOutTask n trivial (fun _ => trivial) (fun _ _ => .of_eq rfl rfl rfl rfl)
    (untouched_closeSession n)

variable (cfg : VlessClientConfig)

/-- `createSession` is at work on the session `n`. -/
structure Creating (n : Nat) (m : Mem) : Prop where
  labelled : Labelled m
  connecting : m.connecting = some n
  made : n < m.nextRemote

theorem Creating.untouched (h : Creating n m) (hm : Untouched m m') : Creating n m' :=
  ⟨hm.labelled h.labelled, hm.connecting.trans h.connecting, hm.nextRemote ▸ h.made⟩

/-- The session that is made was not in the map. -/
theorem Creating.ne (h : Creating n m) {k : Nat} (hk : m.Settled k) : k ≠ n := by
  rintro rfl
  exact hk.2 h.connecting

theorem creating_nextSocket (h : Labelled m) : Creating m.nextRemote m.nextSocket.2 := by
  refine ⟨fun key n hmem => ?_, rfl, Nat.lt_succ_self _⟩
  obtain ⟨⟨hlt, -⟩, hlabel⟩ := h key n hmem
  exact ⟨⟨Nat.lt_succ_of_lt hlt, fun heq => by
    have := Option.some.inj heq
    omega⟩, hlabel⟩

theorem wp_inactive {α : Type} {c : Code α} (hc : Only Inactive c) (hw : Labelled w.mem) :
    wp labelling t (tracking.tracked c) (fun _ w' => Labelled w'.mem) w :=
  wp_of_uses frame_labelled (only_tracked_inactive hc) hw

theorem wp_creating {α : Type} {c : Code α} (hc : Only Inactive c) (hw : Creating n w.mem) :
    wp labelling .recvLoop (tracking.tracked c) (fun _ w' => Creating n w'.mem) w :=
  wp_of_uses (frame_inactive (fun _ _ hw hr => hw.untouched (labelling_rely hr))
    (fun _ _ hw h => hw.untouched h) fun _ hw => hw.labelled) (only_tracked_inactive hc) hw

/-- `createSession` has made the session `n`, and has it to store. -/
structure MadeSession (n : Nat) (key : Key) (m : Mem) : Prop extends Creating n m where
  label : m.label n = key

theorem MadeSession.later (h : MadeSession n key w.mem) (hl : labelling.Later Task.recvLoop w w') :
    MadeSession n key w'.mem := by
  induction hl with
  | refl => exact h
  | tail _ hr ih =>
      have huntouched := labelling_rely hr
      exact ⟨ih.toCreating.untouched huntouched, (huntouched.label n).trans ih.label⟩

theorem made_setSession (session : Session) (h : Creating n m) :
    KeepsLabels m (m.setSession n session) ∧
      MadeSession n (session.dest, session.port) (m.setSession n session) := by
  have hother : ∀ k, m.Settled k → (m.setSession n session).label k = m.label k := by
    intro k hk
    simp [Mem.label, Mem.setSession, h.ne hk]
  refine ⟨fun k hk => ⟨hk, hother k hk⟩, ⟨fun key k hmem => ?_, h.connecting, h.made⟩, ?_⟩
  · obtain ⟨hk, hlabel⟩ := h.labelled key k hmem
    exact ⟨hk, (hother k hk).trans hlabel⟩
  · simp [Mem.label, Mem.setSession]

theorem MadeSession.addSession (h : MadeSession n key m) :
    KeepsLabels m (m.addSession key n) ∧ Labelled (m.addSession key n) := by
  refine ⟨fun k hk => ⟨⟨hk.1, nofun⟩, rfl⟩, fun key' k hmem => ?_⟩
  rcases List.mem_cons.1 hmem with hnew | hold
  · obtain ⟨rfl, rfl⟩ := Prod.mk.inj hnew
    exact ⟨⟨h.made, nofun⟩, h.label⟩
  · obtain ⟨hk, hlabel⟩ := h.labelled key' k (List.mem_of_mem_filter hold)
    exact ⟨⟨hk.1, nofun⟩, hlabel⟩

/-- The session is made, its task started, and then it is stored under its label. -/
theorem wp_storeSession {session : Session} (hw : Creating n w.mem) :
    wp labelling .recvLoop (tracking.tracked (do
      modify (Mem.setSession n session)
      Prog.spawn (O := kind.object) (Task.outTask n)
      modify (Mem.addSession (session.dest, session.port) n)
      return some n)) (fun _ w' => Labelled w'.mem) w := by
  obtain ⟨hkeeps, hmade⟩ := made_setSession session hw
  rw [Tracking.tracked_bind]
  refine wp_member_seq (O := kind.object) fun _ => ⟨⟨hkeeps, fun _ => hmade.labelled,
    fun h => absurd rfl h⟩, ?_⟩
  rw [Tracking.tracked_bind]
  refine wp_bind (wp_spawn (O := kind.object) fun _ => ⟨labelling_guar (.of_eq rfl rfl rfl rfl),
    hmade.labelled, fun w' hl => ?_⟩)
  have hmade' : MadeSession n (session.dest, session.port) w'.mem := MadeSession.later hmade hl
  obtain ⟨hkeeps', hlabelled⟩ := hmade'.addSession
  show wp labelling .recvLoop (tracking.tracked (modify (Mem.addSession _ n) >>= fun _ =>
    pure (some n))) _ w'
  rw [Tracking.tracked_bind]
  exact wp_member_seq (O := kind.object) fun _ => ⟨⟨hkeeps', fun _ => hlabelled,
    fun h => absurd rfl h⟩, hlabelled⟩

theorem wp_createSession_labelled (dest : Address) (port : UInt16) (hw : Labelled w.mem) :
    wp labelling .recvLoop (tracking.tracked (createSession cfg dest port))
      (fun _ w' => Labelled w'.mem) w := by
  have hcreating := creating_nextSocket hw
  have hnext : KeepsLabels w.mem w.mem.nextSocket.2 := by
    intro k hk
    refine ⟨⟨Nat.lt_succ_of_lt hk.1, fun heq => ?_⟩, rfl⟩
    have hlt := hk.1
    rw [Option.some.inj heq] at hlt
    omega
  unfold createSession
  rw [Tracking.tracked_bind]
  refine wp_update_seq (O := kind.object) (f := Mem.nextSocket) fun _ =>
    ⟨⟨hnext, fun _ => hcreating.labelled, fun h => absurd rfl h⟩, ?_⟩
  show wp labelling .recvLoop (tracking.tracked (VlessClient.vlessConnectAndHandshake (K := kind)
    (.remote w.mem.nextRemote) cfg _ >>= _)) _ _
  rw [Tracking.tracked_bind]
  have hhandshake := VlessClient.only_vlessConnectAndHandshake (K := kind) (P := Inactive)
    (.remote w.mem.nextRemote) cfg (fun _ _ => trivial) (fun _ => .of_eq rfl rfl rfl rfl)
  refine wp_seq (R := fun _ w' => Creating w.mem.nextRemote w'.mem)
    (wp_creating (hhandshake _) hcreating) (fun res w' hw' => ?_) fun _ _ hw' => hw'.labelled
  match res with
  | none =>
      refine wp_member_seq (O := kind.object) (f := fun m => ({ m with connecting := none }, []))
        fun _ => ⟨⟨fun k hk => ⟨⟨hk.1, nofun⟩, rfl⟩, fun h => ?_, fun h => absurd rfl h⟩, ?_⟩
      all_goals
        intro key k hmem
        obtain ⟨hk, hlabel⟩ := hw'.labelled key k hmem
        exact ⟨⟨hk.1, nofun⟩, hlabel⟩
  | some (stream, _) => exact wp_storeSession hw'

theorem wp_getOrCreateSession_labelled (dest : Address) (port : UInt16) (hw : Labelled w.mem) :
    wp labelling .recvLoop (tracking.tracked (getOrCreateSession cfg dest port))
      (fun _ w' => Labelled w'.mem) w := by
  refine Tracking.wp_tracked_get (T := tracking) ?_
  cases w.mem.findSession (dest, port) with
  | none => exact wp_createSession_labelled cfg dest port hw
  | some n =>
      dsimp only
      split
      · exact hw
      · exact wp_createSession_labelled cfg dest port hw

theorem wp_forward_labelled (payload : Bytes) (hw : Labelled w.mem) :
    wp labelling .recvLoop (tracking.tracked (forward n payload))
      (fun _ w' => Labelled w'.mem) w := by
  refine Tracking.wp_tracked_get (T := tracking) ?_
  cases (w.mem.session n).stream with
  | none =>
      -- the write is to the members just read
      have huntouched : Untouched w.mem (w.mem.setSession n { w.mem.session n with alive := false }) :=
        untouched_setSession rfl rfl
      exact wp_member_ok (O := kind.object) fun _ =>
        ⟨labelling_guar huntouched, huntouched.labelled hw⟩
  | some stream =>
      refine wp_inactive ?_ hw
      refine .bind (.await fun _ => .of_eq rfl rfl rfl rfl) fun _ => ?_
      refine .bind (stream.only_writeFull (K := kind) _ fun _ _ => trivial) fun written => ?_
      refine .bind (.await fun _ => .of_eq rfl rfl rfl rfl) fun _ => ?_
      exact .ite (fun _ => .await (untouched_closeSession n)) fun _ => trivial

theorem wp_seq_labelled {α β : Type} {c : Code α} {f : α → Code β}
    (hc : wp labelling t (tracking.tracked c) (fun _ w' => Labelled w'.mem) w)
    (hf : ∀ a w', Labelled w'.mem →
      wp labelling t (tracking.tracked (f a)) (fun _ w'' => Labelled w''.mem) w') :
    wp labelling t (tracking.tracked (c >>= f)) (fun _ w' => Labelled w'.mem) w := by
  rw [Tracking.tracked_bind]
  exact wp_seq hc hf fun _ _ hw' => hw'

theorem wp_loop_labelled {α β : Type} {b : β} {body : β → Code (β ⊕ α)} (hw : Labelled w.mem)
    (hbody : ∀ b w', Labelled w'.mem →
      wp labelling t (tracking.tracked (body b)) (fun _ w'' => Labelled w''.mem) w') :
    wp labelling t (tracking.tracked (Coro.loop (S := kind.object.sig) b body))
      (fun _ w' => Labelled w'.mem) w := by
  refine wp_loop (O := kind.object) (fun _ w' => Labelled w'.mem) hw fun b' w' hw' => ?_
  refine wp_mono (hbody b' w' hw') fun r w'' hr => ?_
  match r with
  | .ok (.inl _) => exact hr
  | .ok (.inr _) => exact hr
  | .error _ => exact hr

theorem wp_recvLoop_labelled (hw : Labelled w.mem) :
    wp labelling .recvLoop (tracking.tracked (recvLoop cfg)) (fun _ w' => Labelled w'.mem) w := by
  refine wp_seq_labelled (wp_loop_labelled hw fun _ w hw => ?_) fun _ _ hw' =>
    wp_inactive (.await untouched_stop) hw'
  show wp labelling .recvLoop (tracking.tracked (if w.mem.closed then _ else _)) _ w
  split
  · exact hw
  · refine wp_seq_labelled (wp_inactive (.await trivial) hw) fun (rr, src) w hw => ?_
    dsimp only
    split
    · exact hw
    · split
      · exact hw
      · cases Socks5.Parser.parseUdpDatagram rr.1.data with
        | none => exact hw
        | some x =>
            obtain ⟨dest, port, payload⟩ := x
            dsimp only
            split
            · exact hw
            · refine wp_seq_labelled (wp_getOrCreateSession_labelled cfg dest port hw) ?_
              intro found w hw
              cases found with
              | none => exact hw
              | some n =>
                  refine wp_seq_labelled (wp_inactive (.await fun m => ?_) hw) fun _ w hw => ?_
                  · exact untouched_setSession rfl rfl
                  · exact wp_seq_labelled (wp_forward_labelled payload hw) fun _ _ hw' => hw'

theorem wp_body_labelled (hw : Labelled w.mem) :
    wp labelling t (body cfg t) (fun _ w' => Labelled w'.mem) w := by
  cases t with
  | control => exact wp_inactive only_control_inactive hw
  | recvLoop => exact wp_recvLoop_labelled cfg hw
  | sendLoop => exact wp_inactive only_sendLoop_inactive hw
  | outTask n => exact wp_inactive (only_outTask_inactive n) hw

/-- No session is in the map at the start. -/
theorem labelled_start : Labelled {} := fun _ _ hmem => nomatch hmem

theorem sound_labelling {p : Pool kind.object}
    (hp : Reachable (O := kind.object) (body cfg) Task.control {} p) : Sound labelling p := by
  refine labelling.sound labelling_stable (fun t w hw _ => ?_) labelled_start hp trivial
  exact wp_mono (wp_body_labelled cfg hw) fun _ _ _ => trivial

/-- What one step keeps. -/
theorem step_labels {p p' : Pool kind.object}
    (hp : Reachable (O := kind.object) (body cfg) Task.control {} p) (hstep : Step (body cfg) p p') :
    KeepsLabels p.world.mem p'.world.mem ∧ (Labelled p.world.mem → Labelled p'.world.mem) := by
  rcases (sound_labelling cfg hp).step_world hstep ⟨trivial, trivial⟩ with hsame | ⟨t, hg⟩
  · rw [hsame]
    exact ⟨fun n hn => ⟨hn, rfl⟩, id⟩
  · exact ⟨hg.1, hg.2.1⟩

/-- In every run the sessions in the map are labelled with their keys. -/
theorem labelled_of_reachable {p : Pool kind.object}
    (hp : Reachable (O := kind.object) (body cfg) Task.control {} p) : Labelled p.world.mem := by
  induction hp with
  | refl => exact labelled_start
  | tail hreach hstep ih => exact (step_labels cfg hreach hstep).2 ih

/-- What is settled in a run is settled from then on. -/
theorem keepsLabels_of_steps {p p' : Pool kind.object}
    (hp : Reachable (O := kind.object) (body cfg) Task.control {} p)
    (hsteps : Relation.ReflTransGen (Step (O := kind.object) (body cfg)) p p') :
    KeepsLabels p.world.mem p'.world.mem := by
  induction hsteps with
  | refl => exact fun n hn => ⟨hn, rfl⟩
  | tail hreach hstep ih =>
      intro n hn
      obtain ⟨hsettled, hlabel⟩ := ih n hn
      obtain ⟨hsettled', hlabel'⟩ := (step_labels cfg (hp.trans hreach) hstep).1 n hsettled
      exact ⟨hsettled', hlabel'.trans hlabel⟩

end Labels

/-- **Two destinations never share a session.** Their keys differ, so the map finds for a key what
    there is for the destination; and what it finds is labelled with that destination, then and ever
    after. -/
theorem destinations_apart (cfg : VlessClientConfig)
    {inetNtop : List.Vector UInt8 16 → Option Bytes} (hdefined : ∀ ip, (inetNtop ip).isSome = true)
    (hinjective : Function.Injective inetNtop) :
    (∀ (a b : Address) (p q : UInt16),
      makeKey inetNtop a p = makeKey inetNtop b q → a = b ∧ p = q) ∧
    (∀ (m : Mem) (a : Address) (p : UInt16) (n : Nat),
      (keyedSessions inetNtop m).lookup (makeKey inetNtop a p) = m.findSession (a, p) ∧
      keyedSessions inetNtop (m.addSession (a, p) n) = (makeKey inetNtop a p, n) ::
        (keyedSessions inetNtop m).filter fun x => x.1 ≠ makeKey inetNtop a p) ∧
    ∀ pool later : Pool kind.object, Reachable (O := kind.object) (body cfg) Task.control {} pool →
      Relation.ReflTransGen (Step (O := kind.object) (body cfg)) pool later →
      ∀ (a : Address) (p : UInt16) (n : Nat),
        (keyedSessions inetNtop pool.world.mem).lookup (makeKey inetNtop a p) = some n →
        (later.world.mem.session n).dest = a ∧ (later.world.mem.session n).port = p := by
  refine ⟨fun a b p q h => makeKey_injective hdefined hinjective h, fun m a p n => ⟨?_, ?_⟩, ?_⟩
  · exact lookup_keyedSessions hdefined hinjective m (a, p)
  · exact keyedSessions_addSession hdefined hinjective m (a, p) n
  · intro pool later hp hsteps a p n hlookup
    rw [lookup_keyedSessions hdefined hinjective pool.world.mem (a, p)] at hlookup
    obtain ⟨before, after, hsessions, -⟩ := List.lookup_eq_some_iff.1 hlookup
    have hmem : ((a, p), n) ∈ pool.world.mem.sessions := by
      rw [hsessions]
      simp
    obtain ⟨hsettled, hlabel⟩ := labelled_of_reachable cfg hp (a, p) n hmem
    obtain ⟨-, hkept⟩ := keepsLabels_of_steps cfg hp hsteps n hsettled
    exact Prod.mk.inj (hkept.trans hlabel)

def loopback : List.Vector UInt8 16 := ⟨List.replicate 15 0 ++ [1], rfl⟩

/-- `inet_ntop` on the loopback address. -/
def sampleNtop (ip : List.Vector UInt8 16) : Option Bytes :=
  some (if ip = loopback then ascii "::1" else 0 :: ip.toList)

theorem sampleNtop_injective : Function.Injective sampleNtop := by
  intro ip ip' h
  have hfirst : ∀ bs : Bytes, ascii "::1" ≠ 0 :: bs := by
    intro bs hbs
    exact absurd (List.cons.inj hbs).1 (by decide)
  simp only [sampleNtop, Option.some.injEq] at h
  split at h <;> split at h
  · next hip hip' => rw [hip, hip']
  · exact absurd h (hfirst _)
  · exact absurd h.symm (hfirst _)
  · exact List.Vector.toList_injective (List.cons.inj h).2

/-- The loopback address, and the domain of that name. -/
theorem destinations_apart_sample : makeKey sampleNtop (.ipv6 loopback) 53 = ascii "4|::1:53" ∧
    makeKey sampleNtop (.ipv6 loopback) 53 ≠ makeKey sampleNtop (.domain (ascii "::1")) 53 := by
  have happart := (destinations_apart { remoteHost := [] } (fun _ => rfl) sampleNtop_injective).1
  refine ⟨by decide, fun h => ?_⟩
  cases (happart _ _ _ _ h).1

end Socks5UdpRelay

end Cppvless
