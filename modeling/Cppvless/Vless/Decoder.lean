import Cppvless.Vless.Addons
import Cppvless.Net.BufferedStream

set_option autoImplicit false

/-! # The request decoder

`proxy/vless/decoder.cpp`, and the grammar of a request header. `decode_accepts` says that the
decoder succeeds on exactly the strings with a header in front. -/

namespace Cppvless

open Coroutine

/-- A parser over a `coro::BufferedStream`. -/
abbrev Parser := Reader Exn UInt8

/-- `proxy::vless::AddressType` -/
inductive AddressType
  | ipv4
  | domain
  | ipv6
  deriving DecidableEq

namespace AddressType

def toByte : AddressType → UInt8
  | .ipv4 => 1
  | .domain => 2
  | .ipv6 => 3

def ofByte? (b : UInt8) : Option AddressType :=
  if b = 1 then some .ipv4
  else if b = 2 then some .domain
  else if b = 3 then some .ipv6
  else none

theorem ofByte?_eq_some (b : UInt8) (t : AddressType) : ofByte? b = some t ↔ b = t.toByte := by
  unfold ofByte?
  cases t <;> grind [toByte]

end AddressType

namespace Decoder

/-- Read exactly `n` bytes or throw. -/
def readExact (n : Nat) (err : String) : Parser (List.Vector UInt8 n) :=
  Reader.exact n (.runtimeError err)

/-- `readExact(1, err)[0]` -/
def readByte (err : String) : Parser UInt8 := Reader.byte (.runtimeError err)

def parseAddons (req : Request) : Parser Request := do
  let addonsLen ← readByte "failed to read addons length"
  if addonsLen = 0 then
    return req
  else do
    let addonsData ← readExact addonsLen.toNat "failed to read addons payload"
    Reader.ofExcept (parseFields addonsData.toList req 0)

def readAddress (req : Request) : Parser Request := do
  let addrType ← readByte "failed to read address type"
  match AddressType.ofByte? addrType with
  | some .ipv4 => do
      let ip ← readExact 4 "failed to read ipv4 address"
      return { req with address := .ipv4 ip }
  | some .domain => do
      let domainLen ← readByte "failed to read domain length"
      let domain ← readExact domainLen.toNat "failed to read domain value"
      return { req with address := .domain domain.toList }
  | some .ipv6 => do
      let ip ← readExact 16 "failed to read ipv6 address"
      return { req with address := .ipv6 ip }
  | none => Reader.throw (.runtimeError "invalid address type")

/-- The `switch` over the command. -/
def readDestination (req : Request) (cmd : UInt8) : Parser Request :=
  match Command.ofByte? cmd with
  | some .mux =>
      return { req with command := .mux, address := .domain (ascii "v1.mux.cool"), port := 0 }
  | some .rvs =>
      return { req with command := .rvs, address := .domain (ascii "v1.rvs.cool"), port := 0 }
  | some command => do
      let portBytes ← readExact 2 "failed to read vless port"
      readAddress { req with command, port := beUInt16 (portBytes.get 0) (portBytes.get 1) }
  | none => Reader.throw (.runtimeError "invalid vless command")

def decode (validator : Validator) : Parser Request := do
  let version ← readByte "failed to read vless version"
  if version ≠ 0 then
    Reader.throw (.runtimeError "invalid vless version")
  else do
    let uuid ← readExact 16 "failed to read vless uuid"
    if validator.contains uuid = false then
      Reader.throw (.runtimeError "invalid vless uuid")
    else do
      let req ← parseAddons { version, uuid }
      let cmd ← readByte "failed to read vless command"
      readDestination req cmd

/-- `Decoder::encodeResponse` -/
def encodeResponse (version : UInt8) : Bytes := [version, 0x00]

end Decoder

/-! ## The grammar -/

/-- An address with its type byte. -/
inductive AddressBytes : Bytes → Address → Prop
  | ipv4 (ip : List.Vector UInt8 4) : AddressBytes (1 :: ip.toList) (.ipv4 ip)
  | domain (n : UInt8) (name : Bytes) (hlen : name.length = n.toNat) :
      AddressBytes (2 :: n :: name) (.domain name)
  | ipv6 (ip : List.Vector UInt8 16) : AddressBytes (3 :: ip.toList) (.ipv6 ip)

/-- The addons with their length byte, and the flow and the seed in them. -/
inductive AddonsBytes : Bytes → Bytes → Bytes → Prop
  | mk (n : UInt8) (body : Bytes) (fs : List (Nat × Bytes)) (hlen : body.length = n.toNat)
      (hfs : Fields body fs) :
      AddonsBytes (n :: body) ((fs.reverse.lookup 1).getD []) ((fs.reverse.lookup 2).getD [])

/-- The command and, for those that have one, the destination. -/
inductive CommandBytes : Bytes → Command → UInt16 → Address → Prop
  | tcp (p₁ p₂ : UInt8) (bs : Bytes) (addr : Address) (haddr : AddressBytes bs addr) :
      CommandBytes (1 :: p₁ :: p₂ :: bs) .tcp (beUInt16 p₁ p₂) addr
  | udp (p₁ p₂ : UInt8) (bs : Bytes) (addr : Address) (haddr : AddressBytes bs addr) :
      CommandBytes (2 :: p₁ :: p₂ :: bs) .udp (beUInt16 p₁ p₂) addr
  | mux : CommandBytes [3] .mux 0 (.domain (ascii "v1.mux.cool"))
  | rvs : CommandBytes [4] .rvs 0 (.domain (ascii "v1.rvs.cool"))

/-- A request header of a user of `validator`, and the request it is. -/
inductive Header (validator : Validator) : Bytes → Request → Prop
  | mk (uuid : Uuid) (addons flow seed dest : Bytes) (command : Command) (port : UInt16)
      (address : Address) (huser : uuid ∈ validator.users) (haddons : AddonsBytes addons flow seed)
      (hdest : CommandBytes dest command port address) :
      Header validator (0 :: uuid.toList ++ addons ++ dest)
        { version := 0, uuid, command, port, flow, encryption := [], seed, address }

theorem Header.version_eq {validator : Validator} {header : Bytes} {req : Request}
    (h : Header validator header req) : req.version = 0 := by
  cases h
  rfl

theorem Header.mem_users {validator : Validator} {header : Bytes} {req : Request}
    (h : Header validator header req) : req.uuid ∈ validator.users := by
  cases h
  assumption

theorem Header.ne_nil {validator : Validator} {header : Bytes} {req : Request}
    (h : Header validator header req) : header ≠ [] := by
  cases h
  simp

/-- The user stands at the start, whichever users a validator knows. -/
theorem Header.uuid_eq {validator validator' : Validator} {header header' rest : Bytes}
    {req req' : Request} (h : Header validator header req) (h' : Header validator' header' req')
    (hinit : header <+: header' ++ rest) : req.uuid = req'.uuid := by
  cases h with
  | mk uuid addons flow seed dest command port address huser haddons hdest =>
      cases h' with
      | mk uuid' addons' flow' seed' dest' command' port' address' huser' haddons' hdest' =>
          obtain ⟨more, hmore⟩ := hinit
          simp only [List.cons_append, List.append_assoc, List.cons.injEq, true_and] at hmore
          have hlen : uuid.toList.length = uuid'.toList.length := by simp
          exact List.Vector.toList_injective (List.append_inj hmore hlen).1

theorem Header.encryption_eq {validator : Validator} {header : Bytes} {req : Request}
    (h : Header validator header req) : req.encryption = [] := by
  cases h
  rfl

namespace Decoder

theorem readAddress_accepts (req : Request) :
    (readAddress req).Accepts fun b req' =>
      ∃ address, AddressBytes b address ∧ req' = { req with address } := by
  unfold readAddress readByte readExact
  refine (Reader.Accepts.byte_bind (H := fun x b req' => ∃ address,
    AddressBytes (x :: b) address ∧ req' = { req with address }) fun x => ?_).congr fun b req' => ?_
  · split
    · next h =>
        obtain rfl := (AddressType.ofByte?_eq_some x .ipv4).1 h
        refine (Reader.Accepts.exact_bind fun v => Reader.accepts_pure _).congr fun b req' => ?_
        constructor
        · rintro ⟨ip, b', rfl, rfl, rfl⟩
          exact ⟨.ipv4 ip, by simpa using .ipv4 ip, rfl⟩
        · rintro ⟨_, h, rfl⟩
          cases h with
          | ipv4 ip => exact ⟨ip, [], by simp, rfl, rfl⟩
    · next h =>
        obtain rfl := (AddressType.ofByte?_eq_some x .domain).1 h
        refine (Reader.Accepts.byte_bind fun n => Reader.Accepts.exact_bind fun v =>
          Reader.accepts_pure _).congr fun b req' => ?_
        constructor
        · rintro ⟨n, _, rfl, name, b', rfl, rfl, rfl⟩
          exact ⟨.domain name.toList, by simpa using .domain n name.toList name.toList_length, rfl⟩
        · rintro ⟨_, h, rfl⟩
          cases h with
          | domain n name hlen => exact ⟨n, name, rfl, ⟨name, hlen⟩, [], by simp, rfl, rfl⟩
    · next h =>
        obtain rfl := (AddressType.ofByte?_eq_some x .ipv6).1 h
        refine (Reader.Accepts.exact_bind fun v => Reader.accepts_pure _).congr fun b req' => ?_
        constructor
        · rintro ⟨ip, b', rfl, rfl, rfl⟩
          exact ⟨.ipv6 ip, by simpa using .ipv6 ip, rfl⟩
        · rintro ⟨_, h, rfl⟩
          cases h with
          | ipv6 ip => exact ⟨ip, [], by simp, rfl, rfl⟩
    · next h =>
        refine (Reader.accepts_throw _).congr fun b req' => ⟨False.elim, ?_⟩
        rintro ⟨_, h', rfl⟩
        cases h' <;> simp [AddressType.ofByte?] at h
  · constructor
    · rintro ⟨x, b', rfl, h⟩
      exact h
    · rintro ⟨address, h, rfl⟩
      cases h <;> exact ⟨_, _, rfl, _, by constructor <;> assumption, rfl⟩

theorem parseAddons_accepts (req : Request) (hflow : req.flow = []) (hseed : req.seed = []) :
    (parseAddons req).Accepts fun b req' =>
      ∃ flow seed, AddonsBytes b flow seed ∧ req' = { req with flow, seed } := by
  have hfields : ∀ fs : List (Nat × Bytes), fs.foldl Request.setField req =
      { req with flow := (fs.reverse.lookup 1).getD [], seed := (fs.reverse.lookup 2).getD [] } :=
    fun fs => by rw [foldl_setField, hflow, hseed]
  unfold parseAddons readByte readExact
  refine (Reader.Accepts.byte_bind fun n => Reader.Accepts.ite (c := n = 0)
    (fun _ => Reader.accepts_pure _)
    (fun _ => Reader.Accepts.exact_bind fun v => Reader.accepts_ofExcept _)).congr fun b req' => ?_
  simp only [parseFields_eq_ok (Nat.zero_le _), List.drop_zero]
  constructor
  · rintro ⟨n, b', rfl, ⟨hn, rfl, rfl⟩ | ⟨-, body, _, rfl, rfl, fs, hfs, rfl⟩⟩
    · refine ⟨_, _, .mk n [] [] (by simp [hn]) .nil, ?_⟩
      exact hfields []
    · refine ⟨_, _, ?_, hfields fs⟩
      simpa using AddonsBytes.mk n body.toList fs body.toList_length hfs
  · rintro ⟨_, _, ⟨n, body, fs, hlen, hfs⟩, rfl⟩
    by_cases hn : n = 0
    · obtain rfl : body = [] := List.eq_nil_of_length_eq_zero (by simpa [hn] using hlen)
      obtain rfl := hfs.eq_nil rfl
      exact ⟨n, [], rfl, .inl ⟨hn, rfl, (hfields []).symm⟩⟩
    · exact ⟨n, body, rfl, .inr ⟨hn, ⟨body, hlen⟩, [], by simp, rfl, fs, hfs, (hfields fs).symm⟩⟩

theorem readPort_accepts (req : Request) (command : Command) :
    (Reader.exact 2 (.runtimeError "failed to read vless port") >>= fun portBytes =>
      readAddress { req with command, port := beUInt16 (portBytes.get 0) (portBytes.get 1) } :
        Parser Request).Accepts
      fun b req' => ∃ p₁ p₂ bs address, b = p₁ :: p₂ :: bs ∧ AddressBytes bs address ∧
        req' = { req with command, port := beUInt16 p₁ p₂, address } := by
  refine (Reader.Accepts.exact_bind fun v => readAddress_accepts _).congr fun b req' => ?_
  constructor
  · rintro ⟨⟨l, hl⟩, bs, rfl, address, haddr, rfl⟩
    match l, hl with
    | [p₁, p₂], _ => exact ⟨p₁, p₂, bs, address, rfl, haddr, rfl⟩
  · rintro ⟨p₁, p₂, bs, address, rfl, haddr, rfl⟩
    exact ⟨⟨[p₁, p₂], rfl⟩, bs, rfl, address, haddr, rfl⟩

theorem readDestination_accepts (req : Request) (cmd : UInt8) :
    (readDestination req cmd).Accepts fun b req' =>
      ∃ command port address, CommandBytes (cmd :: b) command port address ∧
        req' = { req with command, port, address } := by
  unfold readDestination readExact
  split
  · next h =>
      obtain rfl := (Command.ofByte?_eq_some cmd .mux).1 h
      refine (Reader.accepts_pure _).congr fun b req' => ?_
      constructor
      · rintro ⟨rfl, rfl⟩
        exact ⟨_, _, _, .mux, rfl⟩
      · rintro ⟨_, _, _, h, rfl⟩
        cases h with
        | mux => exact ⟨rfl, rfl⟩
  · next h =>
      obtain rfl := (Command.ofByte?_eq_some cmd .rvs).1 h
      refine (Reader.accepts_pure _).congr fun b req' => ?_
      constructor
      · rintro ⟨rfl, rfl⟩
        exact ⟨_, _, _, .rvs, rfl⟩
      · rintro ⟨_, _, _, h, rfl⟩
        cases h with
        | rvs => exact ⟨rfl, rfl⟩
  · next command hmux hrvs h =>
      obtain rfl := (Command.ofByte?_eq_some cmd command).1 h
      refine (readPort_accepts req command).congr fun b req' => ?_
      constructor
      · rintro ⟨p₁, p₂, bs, address, rfl, haddr, rfl⟩
        cases command with
        | tcp => exact ⟨_, _, _, .tcp p₁ p₂ bs address haddr, rfl⟩
        | udp => exact ⟨_, _, _, .udp p₁ p₂ bs address haddr, rfl⟩
        | mux => exact absurd rfl hmux
        | rvs => exact absurd rfl hrvs
      · rintro ⟨command', port, address, h', rfl⟩
        cases command with
        | tcp =>
            cases h' with
            | tcp p₁ p₂ bs _ haddr => exact ⟨p₁, p₂, bs, address, rfl, haddr, rfl⟩
        | udp =>
            cases h' with
            | udp p₁ p₂ bs _ haddr => exact ⟨p₁, p₂, bs, address, rfl, haddr, rfl⟩
        | mux => exact absurd rfl hmux
        | rvs => exact absurd rfl hrvs
  · next h =>
      refine (Reader.accepts_throw _).congr fun b req' => ⟨False.elim, ?_⟩
      rintro ⟨_, _, _, h', rfl⟩
      cases h' <;> simp [Command.ofByte?] at h

/-- **The decoder succeeds exactly on the strings with a header in front.** -/
theorem decode_accepts (validator : Validator) : (decode validator).Accepts (Header validator) := by
  unfold decode readByte readExact
  refine (Reader.Accepts.byte_bind fun version => Reader.Accepts.ite (c := version ≠ 0)
    (fun _ => Reader.accepts_throw _)
    (fun _ => Reader.Accepts.exact_bind fun uuid =>
      Reader.Accepts.ite (c := validator.contains uuid = false)
        (fun _ => Reader.accepts_throw _)
        (fun _ => (parseAddons_accepts _ rfl rfl).bind fun req =>
          Reader.Accepts.byte_bind fun cmd => readDestination_accepts req cmd))).congr
    fun b req' => ?_
  constructor
  · rintro ⟨version, b₁, rfl, ⟨-, h⟩ | ⟨hversion, uuid, b₂, rfl, ⟨-, h⟩ | ⟨huser, addons, _, b₃, rfl,
      ⟨flow, seed, haddons, rfl⟩, cmd, b₄, rfl, command, port, address, hdest, rfl⟩⟩⟩
    · exact h.elim
    · exact h.elim
    · obtain rfl : version = 0 := not_not.1 hversion
      have hmem : uuid ∈ validator.users := by simpa [Validator.contains] using huser
      simpa using Header.mk uuid addons flow seed _ command port address hmem haddons hdest
  · rintro ⟨uuid, addons, flow, seed, dest, command, port, address, huser, haddons, hdest⟩
    refine ⟨0, uuid.toList ++ (addons ++ dest), by simp, .inr ⟨by simp, uuid, addons ++ dest, rfl,
      .inr ⟨by simpa [Validator.contains] using huser, addons, _, dest, rfl,
        ⟨flow, seed, haddons, rfl⟩, ?_⟩⟩⟩
    cases hdest <;> exact ⟨_, _, rfl, _, _, _, by constructor <;> assumption, rfl⟩

theorem readAddress_strict (req : Request) : (readAddress req).Strict := by
  refine (Reader.strict_byte _).bind fun addrType => ?_
  cases AddressType.ofByte? addrType with
  | none => trivial
  | some t =>
      cases t with
      | ipv4 => exact (Reader.strict_exact _ _).bind fun _ => trivial
      | domain =>
          exact (Reader.strict_byte _).bind fun _ => (Reader.strict_exact _ _).bind fun _ => trivial
      | ipv6 => exact (Reader.strict_exact _ _).bind fun _ => trivial

theorem readDestination_strict (req : Request) (cmd : UInt8) :
    (readDestination req cmd).Strict := by
  unfold readDestination
  split
  · trivial
  · trivial
  · exact (Reader.strict_exact _ _).bind fun _ => readAddress_strict _
  · trivial

theorem parseAddons_strict (req : Request) : (parseAddons req).Strict :=
  (Reader.strict_byte _).bind fun _ => .ite (Reader.strict_pure _) <|
    (Reader.strict_exact _ _).bind fun _ => Reader.strict_ofExcept _

/-- The decoder gives up at the first short read. -/
theorem decode_strict (validator : Validator) : (decode validator).Strict :=
  (Reader.strict_byte _).bind fun _ => .ite (Reader.strict_throw _) <|
    (Reader.strict_exact _ _).bind fun _ => .ite (Reader.strict_throw _) <|
      (parseAddons_strict _).bind fun _ =>
        (Reader.strict_byte _).bind fun _ => readDestination_strict _ _

theorem readAddress_raises (req : Request) :
    (readAddress req).Raises fun e => ∃ what, e = .runtimeError what := by
  refine (Reader.raises_byte ⟨_, rfl⟩).bind fun addrType => ?_
  cases AddressType.ofByte? addrType with
  | none => exact Reader.raises_throw ⟨_, rfl⟩
  | some t =>
      cases t with
      | ipv4 => exact (Reader.raises_exact _ ⟨_, rfl⟩).bind fun _ => Reader.raises_pure _
      | domain =>
          exact (Reader.raises_byte ⟨_, rfl⟩).bind fun _ =>
            (Reader.raises_exact _ ⟨_, rfl⟩).bind fun _ => Reader.raises_pure _
      | ipv6 => exact (Reader.raises_exact _ ⟨_, rfl⟩).bind fun _ => Reader.raises_pure _

theorem readDestination_raises (req : Request) (cmd : UInt8) :
    (readDestination req cmd).Raises fun e => ∃ what, e = .runtimeError what := by
  unfold readDestination
  split
  · exact Reader.raises_pure _
  · exact Reader.raises_pure _
  · exact (Reader.raises_exact _ ⟨_, rfl⟩).bind fun _ => readAddress_raises _
  · exact Reader.raises_throw ⟨_, rfl⟩

theorem parseAddons_raises (req : Request) :
    (parseAddons req).Raises fun e => ∃ what, e = .runtimeError what := by
  refine (Reader.raises_byte ⟨_, rfl⟩).bind fun _ => .ite (Reader.raises_pure _) ?_
  exact (Reader.raises_exact _ ⟨_, rfl⟩).bind fun _ _ h => parseFields_error h

/-- The decoder only ever throws a `std::runtime_error`: no access of its own leaves a buffer. -/
theorem decode_raises (validator : Validator) :
    (decode validator).Raises fun e => ∃ what, e = .runtimeError what :=
  (Reader.raises_byte ⟨_, rfl⟩).bind fun _ => .ite (Reader.raises_throw ⟨_, rfl⟩) <|
    (Reader.raises_exact _ ⟨_, rfl⟩).bind fun _ => .ite (Reader.raises_throw ⟨_, rfl⟩) <|
      (parseAddons_raises _).bind fun _ =>
        (Reader.raises_byte ⟨_, rfl⟩).bind fun _ => readDestination_raises _ _

end Decoder

/-! ## Decoding a stream -/

/-- The evaluation of `co_await decode(stream)` for a fresh buffered stream over `src`: it ends with
    `res`, and then `rest` is what `drainRemaining()` returns followed by the unread stream. -/
def Decodes (validator : Validator) (src : Source) (res : Except Exn Request) (rest : Bytes) :
    Prop :=
  ∃ bs src', Coro.Eval Source.deliver
      (UringBufferedStream.parse Source.read (Decoder.decode validator) .empty) src
      (.ok (res, bs)) src' ∧
    bs.drainRemaining.1 ++ src'.bytes = rest

/-- An evaluation has one outcome. -/
theorem Decodes.unique {validator : Validator} {src : Source} {res res' : Except Exn Request}
    {rest rest' : Bytes} (h : Decodes validator src res rest)
    (h' : Decodes validator src res' rest') : res = res' ∧ rest = rest' := by
  obtain ⟨bs, src₁, hev, rfl⟩ := h
  obtain ⟨bs', src₁', hev', rfl⟩ := h'
  obtain ⟨heq, rfl⟩ := hev.det hev'
  obtain ⟨rfl, rfl⟩ := Prod.mk.inj (Except.ok.inj heq)
  exact ⟨rfl, rfl⟩

/-- Decoding a stream is running the decoder on the string it delivers. -/
theorem decodes_run (validator : Validator) (src : Source) :
    Decodes validator src ((Decoder.decode validator).run src.bytes).1
      ((Decoder.decode validator).run src.bytes).2 := by
  obtain ⟨bs', src', hev, hleft⟩ :=
    UringBufferedStream.eval_parse (Decoder.decode validator) .empty src
  exact ⟨bs', src', hev, hleft⟩

/-- **The decoder accepts its grammar however the stream is cut.** It always ends; it returns `req`
    and leaves `rest` exactly if the stream is a header of `req` followed by `rest`; and otherwise
    it throws, and never by leaving a buffer. -/
theorem decodes_iff_header (validator : Validator) (src : Source) :
    (∃ res rest, Decodes validator src res rest ∧ res ≠ .error .outOfBounds) ∧
    ∀ req rest, Decodes validator src (.ok req) rest ↔
      ∃ hdr, Header validator hdr req ∧ src.bytes = hdr ++ rest := by
  have hrun := decodes_run validator src
  refine ⟨⟨_, _, hrun, fun h => ?_⟩, fun req rest => ?_⟩
  · obtain ⟨what, hwhat⟩ := (Decoder.decode_raises validator).run (Prod.ext h rfl)
    cases hwhat
  · rw [← Decoder.decode_accepts validator src.bytes req rest]
    constructor
    · intro h
      obtain ⟨hres, hrest⟩ := hrun.unique h
      exact Prod.ext hres hrest
    · intro h
      rw [h] at hrun
      exact hrun

end Cppvless
