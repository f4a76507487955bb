import Cppvless.Vless.Decoder

set_option autoImplicit false

/-! # SOCKS5

`proxy/socks5/socks5.cpp`: the two messages an application sends before its data, the answers, and
the UDP datagrams. The variant of `socks5::Address` is that of a VLESS request. -/

namespace Cppvless

open Coroutine

namespace Socks5

/-- `socks5::Command`, obtained by `static_cast` from any byte. -/
inductive Command
  | connect
  | bind
  | udpAssociate
  | other (byte : UInt8)
  deriving DecidableEq

def Command.ofByte (b : UInt8) : Command :=
  if b = 1 then .connect
  else if b = 2 then .bind
  else if b = 3 then .udpAssociate
  else .other b

/-- `socks5::AddressType`, numbered differently from VLESS. -/
inductive AddressType
  | ipv4
  | domain
  | ipv6
  deriving DecidableEq

namespace AddressType

def toByte : AddressType → UInt8
  | .ipv4 => 1
  | .domain => 3
  | .ipv6 => 4

def ofByte? (b : UInt8) : Option AddressType :=
  if b = 1 then some .ipv4
  else if b = 3 then some .domain
  else if b = 4 then some .ipv6
  else none

theorem ofByte?_eq_some (b : UInt8) (t : AddressType) : ofByte? b = some t ↔ b = t.toByte := by
  unfold ofByte?
  cases t <;> grind [toByte]

end AddressType

/-- The values of `socks5::Reply` that are sent. -/
inductive Reply
  | success
  | generalFailure
  | connectionRefused
  | commandNotSupported
  deriving DecidableEq

def Reply.toByte : Reply → UInt8
  | .success => 0
  | .generalFailure => 1
  | .connectionRefused => 5
  | .commandNotSupported => 7

/-- `socks5::Request` -/
structure Request where
  cmd : Command
  address : Address
  port : UInt16
  deriving DecidableEq

namespace Parser

open Decoder (readExact readByte)

/-- Whether the application accepts no authentication. -/
def readGreeting : Parser Bool := do
  let ver ← readByte "failed to read socks5 version"
  if ver ≠ 5 then
    return false
  else
    let nmethods ← readByte "failed to read socks5 nmethods"
    if nmethods = 0 then
      return false
    else
      let methods ← readExact nmethods.toNat "failed to read socks5 methods"
      return decide ((0 : UInt8) ∈ methods.toList)

def encodeGreetingResponse : Bytes := [5, 0]

/-- The `switch` over the address type. -/
def readAddress (atyp : UInt8) : Parser Address :=
  match AddressType.ofByte? atyp with
  | some .ipv4 => do return .ipv4 (← readExact 4 "failed to read socks5 ipv4")
  | some .domain => do
      let len ← readByte "failed to read socks5 domain length"
      return .domain (← readExact len.toNat "failed to read socks5 domain").toList
  | some .ipv6 => do return .ipv6 (← readExact 16 "failed to read socks5 ipv6")
  | none => Reader.throw (.runtimeError "unsupported socks5 address type")

def readRequest : Parser Request := do
  let ver ← readByte "failed to read socks5 request version"
  if ver ≠ 5 then
    Reader.throw (.runtimeError "invalid socks5 request version")
  else
    let cmd ← readByte "failed to read socks5 command"
    let _rsv ← readByte "failed to read socks5 rsv"
    let atyp ← readByte "failed to read socks5 address type"
    let address ← readAddress atyp
    let portBytes ← readExact 2 "failed to read socks5 port"
    return {
      cmd := .ofByte cmd
      address
      port := beUInt16 (portBytes.get ⟨0, Nat.two_pos⟩) (portBytes.get ⟨1, Nat.one_lt_two⟩) }

def writeAddrPort (out : Bytes) (addr : Address) (port : UInt16) : Except Exn Bytes := do
  let out ← match addr with
    | .ipv4 ip => pure (out ++ [AddressType.ipv4.toByte] ++ ip.toList)
    | .ipv6 ip => pure (out ++ [AddressType.ipv6.toByte] ++ ip.toList)
    | .domain domain =>
        if 255 < domain.length then throw (.runtimeError "domain too long for socks5 address")
        else pure (out ++ [AddressType.domain.toByte] ++ [domain.length.toUInt8] ++ domain)
  return out ++ [(port >>> 8).toUInt8] ++ [port.toUInt8]

/-- `encodeReply`, `bind` being what `Address::fromHost` makes of the address to report. -/
def encodeReply (reply : Reply) (bind : Address) (bindPort : UInt16) : Except Exn Bytes :=
  writeAddrPort ([5] ++ [reply.toByte] ++ [0]) bind bindPort

def encodeUdpDatagram (addr : Address) (port : UInt16) (payload : Bytes) : Except Exn Bytes := do
  let out ← writeAddrPort [0, 0, 0] addr port
  return out ++ payload

/-- The port behind the address, which ends before `pos`, and the payload. -/
def datagramTail (data : Bytes) (addr : Address) (pos : Nat) : Option (Address × UInt16 × Bytes) :=
  if data.length < pos + 2 then
    none
  else
    some (addr, beUInt16 (data.getD pos 0) (data.getD (pos + 1) 0), data.drop (pos + 2))

/-- Destination, port and payload of a datagram; fragments are refused. -/
def parseUdpDatagram (data : Bytes) : Option (Address × UInt16 × Bytes) :=
  if data.length < 4 then
    none
  else if data.getD 2 0 ≠ 0 then
    none
  else
    match AddressType.ofByte? (data.getD 3 0) with
    | some .ipv4 =>
        if h : data.length < 4 + 4 + 2 then none
        else datagramTail data (.ipv4 ⟨(data.drop 4).take 4, by simp; omega⟩) 8
    | some .domain =>
        if data.length < 4 + 1 then none
        else
          let len := (data.getD 4 0).toNat
          if data.length < 5 + len + 2 then none
          else datagramTail data (.domain ((data.drop 5).take len)) (5 + len)
    | some .ipv6 =>
        if h : data.length < 4 + 16 + 2 then none
        else datagramTail data (.ipv6 ⟨(data.drop 4).take 16, by simp; omega⟩) 20
    | none => none

end Parser

/-! ## The grammar -/

/-- What is read as a greeting, and whether it is one that offers no authentication. -/
inductive GreetingBytes : Bytes → Bool → Prop
  | badVersion (ver : UInt8) (h : ver ≠ 5) : GreetingBytes [ver] false
  | noMethods : GreetingBytes [5, 0] false
  | methods (n : UInt8) (ms : Bytes) (hn : n ≠ 0) (hlen : ms.length = n.toNat) :
      GreetingBytes (5 :: n :: ms) (decide (0 ∈ ms))

/-- An address with its type byte. -/
inductive AddressBytes : Bytes → Address → Prop
  | ipv4 (ip : List.Vector UInt8 4) : AddressBytes (1 :: ip.toList) (.ipv4 ip)
  | domain (n : UInt8) (name : Bytes) (hlen : name.length = n.toNat) :
      AddressBytes (3 :: n :: name) (.domain name)
  | ipv6 (ip : List.Vector UInt8 16) : AddressBytes (4 :: ip.toList) (.ipv6 ip)

/-- A request. -/
inductive RequestBytes : Bytes → Request → Prop
  | mk (cmd rsv p₁ p₂ : UInt8) (bs : Bytes) (address : Address) (haddr : AddressBytes bs address) :
      RequestBytes (5 :: cmd :: rsv :: bs ++ [p₁, p₂]) ⟨.ofByte cmd, address, beUInt16 p₁ p₂⟩

namespace Parser

theorem readGreeting_accepts : readGreeting.Accepts GreetingBytes := by
  unfold readGreeting Decoder.readByte Decoder.readExact
  refine (Reader.Accepts.byte_bind fun ver => Reader.Accepts.ite (c := ver ≠ 5)
    (fun _ => Reader.accepts_pure _)
    (fun _ => Reader.Accepts.byte_bind fun n => Reader.Accepts.ite (c := n = 0)
      (fun _ => Reader.accepts_pure _)
      (fun _ => Reader.Accepts.exact_bind fun ms => Reader.accepts_pure _))).congr fun b ok => ?_
  constructor
  · rintro ⟨ver, b, rfl, ⟨hver, rfl, rfl⟩ | ⟨hver, n, b, rfl, ⟨rfl, rfl, rfl⟩ | ⟨hn, ms, _, rfl, rfl, rfl⟩⟩⟩
    · exact .badVersion ver hver
    · obtain rfl := not_not.1 hver
      exact .noMethods
    · obtain rfl := not_not.1 hver
      simpa using .methods n ms.toList hn ms.toList_length
  · intro h
    cases h with
    | badVersion ver hver => exact ⟨ver, [], rfl, .inl ⟨hver, rfl, rfl⟩⟩
    | noMethods => exact ⟨5, [0], rfl, .inr ⟨by simp, 0, [], rfl, .inl ⟨rfl, rfl, rfl⟩⟩⟩
    | methods n ms hn hlen =>
        exact ⟨5, n :: ms, rfl, .inr ⟨by simp, n, ms, rfl, .inr ⟨hn, ⟨ms, hlen⟩, [],
          (List.append_nil _).symm, rfl, rfl⟩⟩⟩

theorem readAddress_accepts (atyp : UInt8) :
    (readAddress atyp).Accepts fun b address => AddressBytes (atyp :: b) address := by
  unfold readAddress Decoder.readByte Decoder.readExact
  split
  · next h =>
      obtain rfl := (AddressType.ofByte?_eq_some atyp .ipv4).1 h
      refine (Reader.Accepts.exact_bind fun v => Reader.accepts_pure _).congr fun b address => ?_
      constructor
      · rintro ⟨ip, _, rfl, rfl, rfl⟩
        simpa using .ipv4 ip
      · intro h
        cases h with
        | ipv4 ip => exact ⟨ip, [], by simp, rfl, rfl⟩
  · next h =>
      obtain rfl := (AddressType.ofByte?_eq_some atyp .domain).1 h
      refine (Reader.Accepts.byte_bind fun n => Reader.Accepts.exact_bind fun v =>
        Reader.accepts_pure _).congr fun b address => ?_
      constructor
      · rintro ⟨n, _, rfl, name, _, rfl, rfl, rfl⟩
        simpa using .domain n name.toList name.toList_length
      · intro h
        cases h with
        | domain n name hlen => exact ⟨n, name, rfl, ⟨name, hlen⟩, [], by simp, rfl, rfl⟩
  · next h =>
      obtain rfl := (AddressType.ofByte?_eq_some atyp .ipv6).1 h
      refine (Reader.Accepts.exact_bind fun v => Reader.accepts_pure _).congr fun b address => ?_
      constructor
      · rintro ⟨ip, _, rfl, rfl, rfl⟩
        simpa using .ipv6 ip
      · intro h
        cases h with
        | ipv6 ip => exact ⟨ip, [], by simp, rfl, rfl⟩
  · next h =>
      refine (Reader.accepts_throw _).congr fun b address => ⟨False.elim, fun h' => ?_⟩
      cases h' <;> simp [AddressType.ofByte?] at h

theorem readRequest_accepts : readRequest.Accepts RequestBytes := by
  unfold readRequest Decoder.readByte Decoder.readExact
  refine (Reader.Accepts.byte_bind fun ver => Reader.Accepts.ite (c := ver ≠ 5)
    (fun _ => Reader.accepts_throw _)
    (fun _ => Reader.Accepts.byte_bind fun cmd => Reader.Accepts.byte_bind fun rsv =>
      Reader.Accepts.byte_bind fun atyp => (readAddress_accepts atyp).bind fun address =>
        Reader.Accepts.exact_bind fun port => Reader.accepts_pure _)).congr fun b req => ?_
  constructor
  · rintro ⟨ver, b, rfl, ⟨-, h⟩ | ⟨hver, cmd, b, rfl, rsv, b, rfl, atyp, b, rfl, bs, address, b, rfl,
      haddr, ⟨port, hport⟩, _, rfl, rfl, rfl⟩⟩
    · exact h.elim
    · obtain rfl := not_not.1 hver
      match port, hport with
      | [p₁, p₂], hport => exact .mk cmd rsv p₁ p₂ (atyp :: bs) address haddr
  · rintro ⟨cmd, rsv, p₁, p₂, bs, address, haddr⟩
    have hbs : ∃ atyp bs', bs = atyp :: bs' := by
      cases haddr <;> exact ⟨_, _, rfl⟩
    obtain ⟨atyp, bs', rfl⟩ := hbs
    exact ⟨5, _, rfl, .inr ⟨by simp, cmd, _, rfl, rsv, _, rfl, atyp, _, rfl, bs', address, [p₁, p₂],
      rfl, haddr, ⟨[p₁, p₂], rfl⟩, [], rfl, rfl, rfl⟩⟩

theorem readGreeting_strict : readGreeting.Strict :=
  (Reader.strict_byte _).bind fun _ => .ite (Reader.strict_pure _) <|
    (Reader.strict_byte _).bind fun _ => .ite (Reader.strict_pure _) <|
      (Reader.strict_exact _ _).bind fun _ => Reader.strict_pure _

theorem readAddress_strict (atyp : UInt8) : (readAddress atyp).Strict := by
  unfold readAddress
  split
  · exact (Reader.strict_exact _ _).bind fun _ => Reader.strict_pure _
  · exact (Reader.strict_byte _).bind fun _ =>
      (Reader.strict_exact _ _).bind fun _ => Reader.strict_pure _
  · exact (Reader.strict_exact _ _).bind fun _ => Reader.strict_pure _
  · exact Reader.strict_throw _

theorem readRequest_strict : readRequest.Strict :=
  (Reader.strict_byte _).bind fun _ => .ite (Reader.strict_throw _) <|
    (Reader.strict_byte _).bind fun _ => (Reader.strict_byte _).bind fun _ =>
      (Reader.strict_byte _).bind fun atyp => (readAddress_strict atyp).bind fun _ =>
        (Reader.strict_exact _ _).bind fun _ => Reader.strict_pure _

end Parser

end Socks5

end Cppvless
