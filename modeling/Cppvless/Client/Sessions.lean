import Cppvless.Client.Ledger
import Cppvless.Net.Relay

set_option autoImplicit false

/-! # What the coroutines of the UDP relay promise about descriptors

Every coroutine of the relay moves the ledger as `Ledger.Moves` says, and is suspended only where the
others cannot surprise it. Three facts about a run can be assumed at once; without any the contract is
about all runs. -/

namespace Cppvless

open Coroutine

namespace Socks5UdpRelay

namespace Sessions

open Ledger

variable {a : Assumed} {t : Task} {n : Nat} {w w' : World kind.object} {l l' : Ledger}

/-! ## The ledger of a world -/

theorem closes_append (tr tr' : List (Event kind.object)) (fd : Fd) :
    closes (tr ++ tr') fd = closes tr fd + closes tr' fd := by
  simp [closes]

theorem closes_sys (calls : List (Syscall Fd)) (fd : Fd) :
    closes (calls.map .sys) fd = calls.count (.close fd) := by
  induction calls with
  | nil => rfl
  | cons c calls ih =>
      have hcons : closes ((c :: calls).map .sys) fd = closes [.sys (O := kind.object) c] fd + closes (calls.map .sys) fd :=
        closes_append [_] _ fd
      rw [hcons, ih, List.count_cons]
      cases c with
      | shutdownRdWr fd' =>
          have hnone : closes [.sys (O := kind.object) (.shutdownRdWr fd')] fd = 0 := rfl
          simp [hnone]
      | close fd' =>
          by_cases h : fd' = fd
          · subst h
            simp [closes, closing, Nat.add_comm]
          · simp [closes, closing, h]

theorem ledger_call (w : World kind.object) (f : Mem → Mem × List (Syscall Fd)) :
    ledger (w.call f) = (f w.mem).1.ledger (Opened w.trace)
      (fun fd => closes w.trace fd + (f w.mem).2.count (.close fd)) fun t => .spawned t ∈ w.trace := by
  have hopened : Opened (w.call f).trace = Opened w.trace := by
    funext fd
    simp [Opened, opening, List.filterMap_map, Function.comp_def]
  have hcloses : closes (w.call f).trace = fun fd => closes w.trace fd + (f w.mem).2.count (.close fd) := by
    funext fd
    rw [World.call_trace, closes_append]
    exact congrArg _ (closes_sys _ fd)
  have hspawned : (fun t => Event.spawned t ∈ (w.call f).trace) = fun t => .spawned t ∈ w.trace := by
    funext t
    simp
  simp only [ledger, hopened, hcloses, hspawned, World.call_mem]

/-- A member function that makes no system call. -/
theorem ledger_modify (w : World kind.object) (f : Mem → Mem) :
    ledger (w.call fun m => (f m, [])) =
      (f w.mem).ledger (Opened w.trace) (closes w.trace) fun t => .spawned t ∈ w.trace :=
  ledger_call w _

theorem ledger_answer (w : World kind.object) (o : kind.object.Io.Op) (r : kind.object.Io.Res o) :
    ledger (World.answer (O := kind.object) w o r) =
      match opening (.io o r) with
      | none => ledger w
      | some fd => (ledger w).openFd fd := by
  have hcloses : closes (World.answer (O := kind.object) w o r).trace = closes w.trace := by
    funext fd
    rw [World.answer_trace, closes_append]
    rfl
  have hspawned : (fun t => Event.spawned t ∈ (World.answer (O := kind.object) w o r).trace) =
      fun t => .spawned t ∈ w.trace := by
    funext t
    simp
  have hopened : Opened (World.answer (O := kind.object) w o r).trace = fun fd =>
      Opened w.trace fd ∨ opening (.io o r) = some fd := by
    funext fd
    simp [Opened]
  simp only [ledger, hcloses, hspawned, hopened, World.answer_mem]
  cases h : opening (.io o r) with
  | none => simp
  | some fd => simp [openFd, Mem.ledger, eq_comm]

theorem ledger_start (w : World kind.object) (u : Task) :
    ledger (World.start (O := kind.object) w u) = (ledger w).spawn u := by
  have hcloses : closes (World.start (O := kind.object) w u).trace = closes w.trace := by
    funext fd
    rw [World.start_trace, closes_append]
    rfl
  have hopened : Opened (World.start (O := kind.object) w u).trace = Opened w.trace := by
    funext fd
    simp [Opened, opening]
  have hspawned : (fun t => Event.spawned t ∈ (World.start (O := kind.object) w u).trace) =
      fun t => .spawned t ∈ w.trace ∨ t = u := by
    funext t
    simp
  simp only [ledger, hcloses, hopened, hspawned, World.start_mem]
  rfl

theorem ledger_setPending (s : Fd × Dir) (b : Bool) :
    ledger (w.call fun m => (m.setPending s b, [])) = (ledger w).setPending s.1 s.2 b :=
  ledger_modify w _

section Closing

variable {m : Mem} {opened : Fd → Prop} {spawned : Task → Prop}

/-- Sessions have the sockets they were created with. -/
def Own (m : Mem) : Prop := ∀ n fd, (m.session n).remoteFd = some fd → fd = .remote n

theorem ledger_closeSession (hfd : (m.session n).remoteFd = some (.remote n)) (C : Fd → Nat) :
    (closeSession n m).1.ledger opened (fun fd => C fd + (closeSession n m).2.count (.close fd)) spawned =
      (m.ledger opened C spawned).closeAll (· = n) := by
  have hclose : closeSession n m = ((m.cancelFd (.remote n)).setSession n
      { m.session n with alive := false, remoteFd := none }, [Syscall.close (.remote n)]) := by
    unfold closeSession
    rw [hfd]
  rw [hclose]
  unfold Mem.ledger closeAll
  congr 1
  · funext k
    by_cases hk : k = n
    · simp [Mem.setSession, hk]
    · simp [Mem.setSession, Mem.cancelFd, hk]
  · funext k
    by_cases hk : k = n
    · simp [Mem.setSession, hk]
    · simp [Mem.setSession, Mem.cancelFd, hk]
  · funext k
    by_cases hk : k = n
    · simp [Mem.setSession, hk]
    · simp [Mem.setSession, Mem.cancelFd, hk]
  · funext fd
    cases fd with
    | udp => rfl
    | event => rfl
    | remote k =>
        by_cases hk : k = n
        · simp [Mem.setSession, Mem.cancelFd, hk]
        · simp [Mem.setSession, Mem.cancelFd, hk]
  · funext fd
    cases fd with
    | udp => rfl
    | event => rfl
    | remote k =>
        by_cases hk : k = n
        · simp [hk]
        · simp [hk, Ne.symm hk]

/-- One that is closed already stays as it is. -/
theorem closeSession_of_closed (hfd : (m.session n).remoteFd = none) (halive : (m.session n).alive = false) :
    closeSession n m = (m, []) := by
  unfold closeSession
  rw [hfd]
  refine Prod.ext ?_ rfl
  show m.setSession n _ = m
  have hsame : { m.session n with alive := false } = m.session n := by
    rw [← halive]
  rw [hsame, Mem.setSession, Function.update_eq_self]

theorem own_closeSession (hm : Own m) (n : Nat) : Own (closeSession n m).1 := by
  intro k fd hk
  refine hm k fd ?_
  rw [← hk]
  unfold closeSession
  unfold closeSession at hk
  split
  · next h =>
      rw [h] at hk
      by_cases hkn : k = n
      · simp [Mem.setSession, hkn] at hk
      · simp [Mem.setSession, Mem.cancelFd, hkn]
  · by_cases hkn : k = n
    · simp [Mem.setSession, hkn]
    · simp [Mem.setSession, hkn]

theorem ledger_closeSessions (sessions : List (Key × Nat)) (hm : Own m) (C : Fd → Nat) :
    (closeSessions sessions m).1.ledger opened
        (fun fd => C fd + (closeSessions sessions m).2.count (.close fd)) spawned =
      (m.ledger opened C spawned).closeAll fun n =>
        (∃ key, (key, n) ∈ sessions) ∧ (m.session n).remoteFd ≠ none := by
  induction sessions generalizing m C with
  | nil => exact (closeAll_of_empty fun n h => nomatch h.1).symm
  | cons x rest ih =>
      obtain ⟨key, n⟩ := x
      cases hfd : (m.session n).remoteFd with
      | none =>
          have hrest : closeSessions ((key, n) :: rest) m = closeSessions rest m := by
            rw [closeSessions, hfd]
          rw [hrest, ih hm]
          congr 1
          funext k
          have hk : k = n → (m.session k).remoteFd = none := fun h => h ▸ hfd
          grind
      | some fd =>
          obtain rfl := hm n fd hfd
          have hrest : closeSessions ((key, n) :: rest) m =
              ((closeSessions rest (closeSession n m).1).1,
                (closeSession n m).2 ++ (closeSessions rest (closeSession n m).1).2) := by
            rw [closeSessions, hfd]
          have hcount : (fun fd => C fd + (closeSessions ((key, n) :: rest) m).2.count (.close fd)) =
              fun fd => C fd + (closeSession n m).2.count (.close fd) +
                (closeSessions rest (closeSession n m).1).2.count (.close fd) := by
            funext fd
            rw [hrest, List.count_append, Nat.add_assoc]
          rw [hcount, hrest, ih (own_closeSession hm n)
            (fun fd => C fd + (closeSession n m).2.count (.close fd)), ledger_closeSession hfd]
          have hleft : ∀ k, ((closeSession n m).1.session k).remoteFd =
              if k = n then none else (m.session k).remoteFd := by
            intro k
            have h := congrArg (fun l => l.remoteFd k) (@ledger_closeSession n m opened spawned hfd C)
            by_cases hk : k = n
            · simpa [Mem.ledger, closeAll, hk] using h
            · simpa [Mem.ledger, closeAll, hk] using h
          rw [closeAll_closeAll]
          · congr 1
            funext k
            rw [hleft]
            have hk : k = n → (m.session k).remoteFd = some (.remote n) := fun h => h ▸ hfd
            grind
          · intro k hk
            rw [hleft]
            grind

theorem ledger_stop (hm : Own m) (hclosed : m.closed = false) (hudp : m.udpFd = some .udp)
    (hevent : m.eventFd = some .event) (C : Fd → Nat) :
    (Socks5UdpRelay.stop m).1.ledger opened (fun fd => C fd + (Socks5UdpRelay.stop m).2.count (.close fd)) spawned =
      (m.ledger opened C spawned).stop := by
  have hsessions := @ledger_closeSessions { m with closed := true } opened spawned m.sessions hm C
  unfold Socks5UdpRelay.stop
  rw [hclosed]
  simp only [Bool.false_eq_true, if_false]
  generalize closeSessions m.sessions { m with closed := true } = x at hsessions
  obtain ⟨m₁, calls⟩ := x
  have hudp₁ : m₁.udpFd = some .udp := (congrArg Ledger.udpFd hsessions).trans hudp
  have hevent₁ : m₁.eventFd = some .event := (congrArg Ledger.eventFd hsessions).trans hevent
  have hudp₂ : (m₁.cancelFd .event).udpFd = some .udp := hudp₁
  simp only [hevent₁, cancelAndClose, hudp₂]
  have hclosed₁ : m₁.closed = true := congrArg Ledger.closed hsessions
  have hshut : (m.ledger opened C spawned).stop =
      (m₁.ledger opened (fun fd => C fd + calls.count (.close fd)) spawned).shut := by
    have h := congrArg shut hsessions.symm
    exact h
  rw [hshut]
  unfold Mem.ledger shut
  congr 1
  · funext fd
    cases fd <;> simp [Mem.cancelFd]
  · funext fd
    cases fd <;> simp [hudp₁, hevent₁, Nat.add_assoc]

end Closing

/-! ## The contract -/

/-- A write to a session that fails. -/
def writeFailed : Event kind.object → Option Nat
  | .io (.inl (.send (.remote n) _)) sent => if sent.1 ≤ 0 then some n else none
  | .io (.inl (.tlsWriteFull (.remote n) _)) sent => if sent.1 ≤ 0 then some n else none
  | _ => none

/-- A read of a session that brings EOF or an error. -/
def readEnded : Event kind.object → Option Nat
  | .io (.inl (.recv (.remote n) _)) rr => if rr.1.eof || rr.1.error then some n else none
  | .io (.inl (.tlsRead (.remote n) _)) rr => if rr.1.eof || rr.1.error then some n else none
  | _ => none

/-- Nobody closes a session that is being stored. -/
def Stored (w w' : World kind.object) : Prop :=
  ∀ n ∈ w.mem.connecting, (w.mem.session n).remoteFd.isSome = true →
    (w'.mem.session n).remoteFd.isSome = true

/-- Writes to a session fail only while nobody reads from it, and reads end only while nobody writes. -/
def Undisturbed (w w' : World kind.object) : Prop :=
  ∀ e ∈ w'.trace.drop w.trace.length,
    (∀ n ∈ writeFailed e, w.mem.pending (.remote n) .read = false) ∧
      ∀ n ∈ readEnded e, w.mem.pending (.remote n) .write = false

/-- The relay is not closed while a session is being stored. -/
def StopsQuiet (w w' : World kind.object) : Prop :=
  w.mem.closed = false → w'.mem.closed = true → Quiet (ledger w)

instance (w w' : World kind.object) : Decidable (Stored w w') :=
  inferInstanceAs (Decidable (∀ n ∈ w.mem.connecting, (w.mem.session n).remoteFd.isSome = true →
    (w'.mem.session n).remoteFd.isSome = true))

instance (w w' : World kind.object) : Decidable (Undisturbed w w') :=
  inferInstanceAs (Decidable (∀ e ∈ w'.trace.drop w.trace.length,
    (∀ n ∈ writeFailed e, w.mem.pending (.remote n) .read = false) ∧
      ∀ n ∈ readEnded e, w.mem.pending (.remote n) .write = false))

/-- The operation of `t` has its callback. -/
def Armed (a : Assumed) (t : Task) (s : Option (Fd × Dir)) (l : Ledger) : Prop :=
  a.undisturbed → l.closed = false → ∃ fd d, s = some (fd, d) ∧ l.pending fd d = true ∧ Owns l t fd d

/-- Where `t` may be suspended, besides having a callback. -/
def Waits (a : Assumed) : Task → Option (Fd × Dir) → Ledger → Prop
  | .control, _, l => Running l ∧ (l.closed = true ∨ l.spawned .recvLoop)
  | .recvLoop, s, l =>
      (∀ n, l.connecting = some n → (l.remoteFd n = none ∧ l.opened (.remote n) ∧ l.closes (.remote n) = 0) ∧
        ∃ d, s = some (.remote n, d) ∧ l.pending (.remote n) d = true) ∧
      ∀ n, l.stale = some n → l.remoteFd n = none ∧ l.pending (.remote n) .write = true
  | .sendLoop, _, _ => True
  | .outTask n, _, l => l.spawned (.outTask n) ∧ (a.quiet → l.closed = true → l.remoteFd n = none)

structure Parked (a : Assumed) (t : Task) (s : Option (Fd × Dir)) (l : Ledger) : Prop where
  inv : Inv a l
  armed : t ≠ .control → Armed a t s l
  waits : Waits a t s l

def Pre (a : Assumed) (l : Ledger) : Task → Prop
  | .control => Inv a l ∧ l.closed = false ∧ ¬ l.spawned .recvLoop ∧ ¬ l.opened .event ∧
      ∀ d, l.pending .udp d = false ∧ l.pending .event d = false
  | .recvLoop => Inv a l ∧ Running l ∧ l.spawned .recvLoop ∧ l.connecting = none ∧ l.stale = none
  | .sendLoop => Inv a l
  | .outTask n => Inv a l ∧ l.spawned (.outTask n)

def Post (a : Assumed) (l : Ledger) : Task → Prop
  | .control => Inv a l ∧ l.closed = true
  | .recvLoop => Inv a l ∧ l.stale = none ∧ ∀ n, l.connecting = some n →
      (l.remoteFd n = none ∧ l.opened (.remote n) ∧ l.closes (.remote n) = 0) ∧
        ∀ d, l.pending (.remote n) d = false
  | .sendLoop => Inv a l
  | .outTask n => Inv a l ∧ l.spawned (.outTask n) ∧ (a.quiet → l.closed = true → l.remoteFd n = none)

def contract (a : Assumed) : Contract kind.object where
  env _ := True
  allowed w w' := Delivered w w' ∧ (a.stored → Stored w w') ∧ (a.undisturbed → Undisturbed w w') ∧
    (a.quiet → StopsQuiet w w')
  guar t w w' := Moves a t (ledger w) (ledger w')
  parked t o w := Parked a t (slot o) (ledger w)
  pre t w := Pre a (ledger w) t
  post t w := Post a (ledger w) t

/-- What happens to the ledger while `t` is suspended. -/
structure Rely (a : Assumed) (t : Task) (l l' : Ledger) : Prop where
  moves : ∃ u, u ≠ t ∧ Moves a u l l'
  stored : a.stored → ∀ n, l.connecting = some n → l.remoteFd n ≠ none → l'.remoteFd n ≠ none
  quiet : a.quiet → l.closed = false → l'.closed = true → Quiet l

theorem contract_rely (h : (contract a).rely t w w') : Rely a t (ledger w) (ledger w') := by
  obtain ⟨u, hu, hmoves, -, -, hstored, -, hquiet⟩ := h
  refine ⟨⟨u, hu, hmoves⟩, fun ha n hn hfd => ?_, hquiet⟩
  have hsome := hstored ha n hn (Option.isSome_iff_ne_none.2 hfd)
  exact Option.isSome_iff_ne_none.1 hsome

/-- A property of ledgers that the others keep from `t`. -/
def Kept (a : Assumed) (t : Task) (J : Ledger → Prop) : Prop := ∀ l l', J l → Rely a t l l' → J l'

theorem Kept.later {J : Ledger → Prop} (hJ : Kept a t J) (hw : J (ledger w))
    (hl : (contract a).Later t w w') : J (ledger w') := by
  induction hl with
  | refl => exact hw
  | tail _ hr ih => exact hJ _ _ ih (contract_rely hr)

theorem kept_inv : Kept a t (Inv a) := fun _ _ h ⟨⟨_, _, hm⟩, _, _⟩ => hm.inv h

theorem kept_running : Kept a t Running := fun _ _ h ⟨⟨_, _, hm⟩, _, _⟩ => hm.running h

theorem kept_closed : Kept a t fun l => l.closed = true := fun _ _ h ⟨⟨_, _, hm⟩, _, _⟩ => hm.closed h

theorem kept_spawned (u : Task) : Kept a t fun l => l.spawned u :=
  fun _ _ h ⟨⟨_, _, hm⟩, _, _⟩ => hm.spawned u h

theorem owns_unique {u : Task} {fd : Fd} {d : Dir} (h : Owns l t fd d) (hu : Owns l u fd d) : u = t := by
  cases t <;> cases u <;> cases fd <;> cases d <;> grind [Owns]

theorem kept_armed (s : Option (Fd × Dir)) : Kept a t (Armed a t s) := by
  intro l l' h ⟨⟨u, hu, hm⟩, _, _⟩ ha hc
  have hclosed : l.closed = false := by
    by_contra hclosed
    exact absurd (hm.closed (by simpa using hclosed)) (by simp [hc])
  obtain ⟨fd, d, hs, hd, howns⟩ := h ha hclosed
  refine ⟨fd, d, hs, ?_, ?_⟩
  · exact (hm.kept ha hc fd d hd).resolve_right fun hown => hu (owns_unique howns hown)
  · cases t with
    | control => cases fd <;> cases d <;> exact howns
    | sendLoop => cases fd <;> cases d <;> exact howns
    | outTask n =>
        cases fd <;> cases d <;> first
          | exact howns
          | exact ⟨howns.1, hm.spawned _ howns.2⟩
    | recvLoop =>
        have hothers := hm.others hu
        cases fd <;> cases d <;> first
          | exact howns
          | exact fun hs => howns (hothers.spawned _ hs)

/-- What the task of a session knows: `stop` leaves no session open. -/
def Serves (a : Assumed) (n : Nat) (l : Ledger) : Prop :=
  Inv a l ∧ l.spawned (.outTask n) ∧ (a.quiet → l.closed = true → l.remoteFd n = none)

theorem kept_serves : Kept a (.outTask n) (Serves a n) := by
  intro l l' ⟨hinv, hspawned, hfd⟩ hr
  obtain ⟨u, -, hm⟩ := hr.moves
  refine ⟨hm.inv hinv, hm.spawned _ hspawned, fun ha hc => ?_⟩
  cases hclosed : l.closed with
  | true => exact hm.replaces n hspawned (hfd ha hclosed)
  | false => exact hm.closes hclosed hc hinv (hr.quiet ha hclosed hc) n

/-- What the others leave alone while session `n` is not there: it is what `recvLoop` works on. -/
theorem kept_free {p : Dir → Bool} {c : Nat} {b : Prop} : Kept a .recvLoop fun l =>
    l.remoteFd n = none ∧ (l.opened (.remote n) ↔ b) ∧ l.closes (.remote n) = c ∧ l.pending (.remote n) = p := by
  intro l l' ⟨hfd, hb, hc, hp⟩ ⟨⟨u, hu, hm⟩, _, _⟩
  obtain ⟨hfd', hc', hp'⟩ := (hm.others hu).free n hfd
  exact ⟨hfd', ((hm.others hu).opened n).trans hb, hc'.trans hc, hp'.trans hp⟩

theorem kept_connecting (c : Option Nat) : Kept a .recvLoop fun l => l.connecting = c :=
  fun _ _ h ⟨⟨_, hu, hm⟩, _, _⟩ => (hm.others hu).connecting.trans h

theorem kept_stale (c : Option Nat) : Kept a .recvLoop fun l => l.stale = c :=
  fun _ _ h ⟨⟨_, hu, hm⟩, _, _⟩ => (hm.others hu).stale.trans h

theorem stable : (contract a).Stable where
  env_prefix _ _ _ := trivial
  parked t o w w' h hr := by
    have hr := contract_rely hr
    refine ⟨kept_inv _ _ h.inv hr, fun ht => kept_armed _ _ _ (h.armed ht) hr, ?_⟩
    have hwaits := h.waits
    cases t with
    | control => exact ⟨kept_running _ _ hwaits.1 hr, hwaits.2.imp (kept_closed _ _ · hr) (kept_spawned _ _ _ · hr)⟩
    | sendLoop => trivial
    | outTask n => exact (kept_serves _ _ ⟨h.inv, hwaits⟩ hr).2
    | recvLoop =>
        obtain ⟨u, hu, hm⟩ := hr.moves
        have hothers := hm.others hu
        refine ⟨fun n hn => ?_, fun n hn => ?_⟩
        · obtain ⟨⟨hfd, ho, hc⟩, d, hs, hd⟩ := hwaits.1 n (hothers.connecting.symm.trans hn)
          obtain ⟨hfd', ho', hc', hp'⟩ := kept_free (n := n) _ _ ⟨hfd, Iff.rfl, rfl, rfl⟩ hr
          exact ⟨⟨hfd', ho'.2 ho, hc'.trans hc⟩, d, hs, (congrFun hp' d).trans hd⟩
        · obtain ⟨hfd, hd⟩ := hwaits.2 n (hothers.stale.symm.trans hn)
          obtain ⟨hfd', -, -, hp'⟩ := kept_free (n := n) _ _ ⟨hfd, Iff.rfl, rfl, rfl⟩ hr
          exact ⟨hfd', (congrFun hp' _).trans hd⟩
  post t w w' h hr := by
    have hr := contract_rely hr
    cases t with
    | control => exact ⟨kept_inv _ _ h.1 hr, kept_closed _ _ h.2 hr⟩
    | sendLoop => exact kept_inv _ _ h hr
    | outTask n => exact kept_serves _ _ h hr
    | recvLoop =>
        obtain ⟨hinv, hstale, hconn⟩ := h
        obtain ⟨u, hu, hm⟩ := hr.moves
        refine ⟨hm.inv hinv, kept_stale _ _ _ hstale hr, fun n hn => ?_⟩
        obtain ⟨⟨hfd, ho, hc⟩, hd⟩ := hconn n ((hm.others hu).connecting.symm.trans hn)
        obtain ⟨hfd', ho', hc', hp'⟩ := kept_free (n := n) _ _ ⟨hfd, Iff.rfl, rfl, rfl⟩ hr
        exact ⟨⟨hfd', ho'.2 ho, hc'.trans hc⟩, fun d => (congrFun hp' d).trans (hd d)⟩

end Sessions

end Socks5UdpRelay

end Cppvless
