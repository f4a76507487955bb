import Cppvless.Socks5.Protocol

set_option autoImplicit false

/-! # UDP datagrams of SOCKS5

`Parser::parseUdpDatagram` as it is written: it assigns its three output parameters one by one,
the address before the port has been read, and every access to the datagram is one that can miss
its end. `parseUdpDatagramInto_eq` says that it is `parseUdpDatagram`: the checks stand before the
first assignment and cover every access. What the function accepts is the grammar
`DatagramBytes`, and `encodeUdpDatagram` writes that grammar with zeros for the reserved bytes. -/

namespace Cppvless

namespace Socks5

/-! ## The grammar -/

/-- A datagram that is no fragment: reserved bytes, `FRAG`, address, port and payload. -/
inductive DatagramBytes : Bytes → Address → UInt16 → Bytes → Prop
  | mk (rsv₁ rsv₂ p₁ p₂ : UInt8) (bs payload : Bytes) (address : Address)
      (haddr : AddressBytes bs address) :
      DatagramBytes (rsv₁ :: rsv₂ :: 0 :: (bs ++ p₁ :: p₂ :: payload)) address (beUInt16 p₁ p₂)
        payload

theorem DatagramBytes.shape {data payload : Bytes} {addr : Address} {port : UInt16}
    (h : DatagramBytes data addr port payload) :
    ∃ rsv₁ rsv₂ p₁ p₂ bs rest address, AddressBytes bs address ∧
      data = rsv₁ :: rsv₂ :: 0 :: (bs ++ p₁ :: p₂ :: rest) := by
  cases h with
  | mk rsv₁ rsv₂ p₁ p₂ bs payload addr haddr =>
      exact ⟨rsv₁, rsv₂, p₁, p₂, bs, payload, addr, haddr, rfl⟩

namespace Parser

/-! ## The code -/

/-- The output parameters `outAddr`, `outPort` and `outPayload`. -/
structure Outputs where
  addr : Address
  port : UInt16
  payload : Bytes
  deriving DecidableEq

/-- What follows the `switch` over the address type. -/
def parsePortAndPayload (data : Bytes) (pos : Nat) (out : Outputs) :
    Except Exn (Bool × Outputs) :=
  if data.length < pos + 2 then .ok (false, out)
  else do
    let hi ← Bytes.index data pos
    let lo ← Bytes.index data (pos + 1)
    let payload ← Bytes.rangeFrom data (pos + 2)
    return (true, { out with port := beUInt16 hi lo, payload })

/-- `parseUdpDatagram` with its output parameters: what it returns and what it leaves in them. -/
def parseUdpDatagramInto (data : Bytes) (out : Outputs) : Except Exn (Bool × Outputs) :=
  if data.length < 4 then .ok (false, out)
  else do
    let frag ← Bytes.index data 2
    if frag ≠ 0 then return (false, out)
    else
      let atyp ← Bytes.index data 3
      match AddressType.ofByte? atyp with
      | some .ipv4 =>
          if data.length < 4 + 4 + 2 then return (false, out)
          else do
            let v4 ← Bytes.range data 4 4
            parsePortAndPayload data (4 + 4) { out with addr := .ipv4 v4 }
      | some .domain =>
          if data.length < 4 + 1 then return (false, out)
          else do
            let len ← Bytes.index data 4
            if data.length < 5 + len.toNat + 2 then return (false, out)
            else
              let domain ← Bytes.range data 5 len.toNat
              parsePortAndPayload data (5 + len.toNat) { out with addr := .domain domain.toList }
      | some .ipv6 =>
          if data.length < 4 + 16 + 2 then return (false, out)
          else do
            let v6 ← Bytes.range data 4 16
            parsePortAndPayload data (4 + 16) { out with addr := .ipv6 v6 }
      | none => return (false, out)

/-! ## Every access is inside -/

/-- What a parse without output parameters leaves in them. -/
def Outputs.after (out : Outputs) : Option (Address × UInt16 × Bytes) → Bool × Outputs
  | none => (false, out)
  | some (addr, port, payload) => (true, ⟨addr, port, payload⟩)

/-- With room for the port the rest is read, and every output parameter is assigned. -/
theorem parsePortAndPayload_eq {data : Bytes} {pos : Nat} (out out' : Outputs)
    (h : ¬ data.length < pos + 2) :
    parsePortAndPayload data pos out = .ok (out'.after (datagramTail data out.addr pos)) := by
  have hpos : pos + 2 ≤ data.length := by omega
  rw [parsePortAndPayload, if_neg h, datagramTail, if_neg h, Bytes.index_eq (i := pos) (by omega),
    Bytes.index_eq (i := pos + 1) (by omega), Bytes.rangeFrom, if_pos hpos]
  rfl

theorem parseUdpDatagramInto_eq (data : Bytes) (out : Outputs) :
    parseUdpDatagramInto data out = .ok (out.after (parseUdpDatagram data)) := by
  unfold parseUdpDatagramInto parseUdpDatagram
  by_cases hlen : data.length < 4
  · rw [if_pos hlen, if_pos hlen]
    rfl
  rw [if_neg hlen, if_neg hlen, Bytes.index_eq (by omega)]
  simp only [bind, Except.bind]
  by_cases hfrag : data.getD 2 0 ≠ 0
  · rw [if_pos hfrag, if_pos hfrag]
    rfl
  rw [if_neg hfrag, if_neg hfrag, Bytes.index_eq (by omega)]
  simp only
  -- in each shape of the address the one check covers the address and the port
  cases AddressType.ofByte? (data.getD 3 0) with
  | none => rfl
  | some atyp =>
      cases atyp with
      | ipv4 =>
          simp only
          by_cases h : data.length < 4 + 4 + 2
          · rw [if_pos h, dif_pos h]
            rfl
          · rw [if_neg h, dif_neg h, Bytes.range_eq (by omega)]
            exact parsePortAndPayload_eq _ out (by omega)
      | domain =>
          simp only
          by_cases h : data.length < 4 + 1
          · rw [if_pos h, if_pos h]
            rfl
          rw [if_neg h, if_neg h, Bytes.index_eq (by omega)]
          simp only
          by_cases h' : data.length < 5 + (data.getD 4 0).toNat + 2
          · rw [if_pos h', if_pos h']
            rfl
          · rw [if_neg h', if_neg h', Bytes.range_eq (by omega)]
            exact parsePortAndPayload_eq _ out (by omega)
      | ipv6 =>
          simp only
          by_cases h : data.length < 4 + 16 + 2
          · rw [if_pos h, dif_pos h]
            rfl
          · rw [if_neg h, dif_neg h, Bytes.range_eq (by omega)]
            exact parsePortAndPayload_eq _ out (by omega)

/-! ## What is accepted -/

theorem datagramTail_eq_some {data payload : Bytes} {addr addr' : Address} {port : UInt16}
    {pos : Nat} :
    datagramTail data addr pos = some (addr', port, payload) ↔
      ∃ p₁ p₂, data.drop pos = p₁ :: p₂ :: payload ∧ addr' = addr ∧ port = beUInt16 p₁ p₂ := by
  have hget : ∀ i, data.getD (pos + i) 0 = (data.drop pos).getD i 0 := by
    intro i
    rw [List.getD_eq_getElem?_getD, List.getD_eq_getElem?_getD, List.getElem?_drop]
  have hlen : (data.drop pos).length = data.length - pos := List.length_drop
  have hdrop : data.drop (pos + 2) = (data.drop pos).drop 2 := List.drop_drop.symm
  rw [datagramTail, hget 1, hdrop, show data.getD pos 0 = _ from hget 0]
  cases h : data.drop pos with
  | nil =>
      rw [h, List.length_nil] at hlen
      rw [if_pos (by omega)]
      simp
  | cons p₁ rest =>
      cases rest with
      | nil =>
          rw [h, List.length_singleton] at hlen
          rw [if_pos (by omega)]
          simp
      | cons p₂ rest =>
          rw [h, List.length_cons, List.length_cons] at hlen
          rw [if_neg (by omega)]
          constructor
          · intro heq
            cases heq
            exact ⟨p₁, p₂, rfl, rfl, rfl⟩
          · rintro ⟨q₁, q₂, hcons, rfl, rfl⟩
            cases hcons
            rfl

/-- An address of `n` bytes at position 4, as in the cases of the two numeric addresses. -/
theorem fixedAddress_eq_some {data payload : Bytes} {n : Nat} {mk : List.Vector UInt8 n → Address}
    {addr : Address} {port : UInt16}
    (hwf : ¬ data.length < 4 + n + 2 → ((data.drop 4).take n).length = n) :
    (if h : data.length < 4 + n + 2 then none
      else datagramTail data (mk ⟨(data.drop 4).take n, hwf h⟩) (4 + n)) =
        some (addr, port, payload) ↔
      ∃ (ip : List.Vector UInt8 n) (p₁ p₂ : UInt8), data.drop 4 = ip.toList ++ p₁ :: p₂ :: payload ∧
        addr = mk ip ∧ port = beUInt16 p₁ p₂ := by
  constructor
  · intro h
    by_cases hlen : data.length < 4 + n + 2
    · rw [dif_pos hlen] at h
      cases h
    · rw [dif_neg hlen] at h
      obtain ⟨p₁, p₂, hrest, rfl, rfl⟩ := datagramTail_eq_some.1 h
      rw [← List.drop_drop] at hrest
      refine ⟨⟨(data.drop 4).take n, hwf hlen⟩, p₁, p₂, ?_, rfl, rfl⟩
      rw [← hrest]
      exact (List.take_append_drop n _).symm
  · rintro ⟨ip, p₁, p₂, hdata, rfl, rfl⟩
    have hip : ip.toList.length = n := ip.toList_length
    have hlen : ¬ data.length < 4 + n + 2 := by
      have hcount := congrArg List.length hdata
      simp only [List.length_drop, List.length_append, List.length_cons, hip] at hcount
      omega
    have htake : (⟨(data.drop 4).take n, hwf hlen⟩ : List.Vector UInt8 n) = ip :=
      Subtype.ext ((congrArg (List.take n) hdata).trans (List.take_left' hip))
    rw [dif_neg hlen, htake, datagramTail_eq_some]
    refine ⟨p₁, p₂, ?_, rfl, rfl⟩
    rw [← List.drop_drop, hdata, List.drop_left' hip]

theorem parseUdpDatagram_ipv4 {rsv₁ rsv₂ : UInt8} {rest payload : Bytes} {addr : Address}
    {port : UInt16} :
    parseUdpDatagram (rsv₁ :: rsv₂ :: 0 :: 1 :: rest) = some (addr, port, payload) ↔
      ∃ (ip : List.Vector UInt8 4) (p₁ p₂ : UInt8), rest = ip.toList ++ p₁ :: p₂ :: payload ∧
        addr = .ipv4 ip ∧ port = beUInt16 p₁ p₂ := by
  unfold parseUdpDatagram
  rw [if_neg (by simp), if_neg (by simp)]
  exact fixedAddress_eq_some fun h => by simp at h ⊢; omega

theorem parseUdpDatagram_ipv6 {rsv₁ rsv₂ : UInt8} {rest payload : Bytes} {addr : Address}
    {port : UInt16} :
    parseUdpDatagram (rsv₁ :: rsv₂ :: 0 :: 4 :: rest) = some (addr, port, payload) ↔
      ∃ (ip : List.Vector UInt8 16) (p₁ p₂ : UInt8), rest = ip.toList ++ p₁ :: p₂ :: payload ∧
        addr = .ipv6 ip ∧ port = beUInt16 p₁ p₂ := by
  unfold parseUdpDatagram
  rw [if_neg (by simp), if_neg (by simp)]
  exact fixedAddress_eq_some fun h => by simp at h ⊢; omega

theorem parseUdpDatagram_domain {rsv₁ rsv₂ : UInt8} {rest payload : Bytes} {addr : Address}
    {port : UInt16} :
    parseUdpDatagram (rsv₁ :: rsv₂ :: 0 :: 3 :: rest) = some (addr, port, payload) ↔
      ∃ (n : UInt8) (name : Bytes) (p₁ p₂ : UInt8), name.length = n.toNat ∧
        rest = n :: (name ++ p₁ :: p₂ :: payload) ∧ addr = .domain name ∧
        port = beUInt16 p₁ p₂ := by
  unfold parseUdpDatagram
  rw [if_neg (by simp), if_neg (by simp)]
  simp only [List.getD_cons_succ, List.getD_cons_zero,
    show AddressType.ofByte? 3 = some .domain from rfl]
  constructor
  · intro h
    cases rest with
    | nil => simp at h
    | cons n rest =>
        rw [if_neg (by simp)] at h
        simp only [List.getD_cons_zero] at h
        by_cases hlen : (rsv₁ :: rsv₂ :: 0 :: 3 :: n :: rest).length < 5 + n.toNat + 2
        · rw [if_pos hlen] at h
          cases h
        · rw [if_neg hlen] at h
          obtain ⟨p₁, p₂, hrest, rfl, rfl⟩ := datagramTail_eq_some.1 h
          have hdrop : rest.drop n.toNat = p₁ :: p₂ :: payload := by
            rw [← hrest, ← List.drop_drop]
            rfl
          simp only [List.length_cons] at hlen
          exact ⟨n, rest.take n.toNat, p₁, p₂, by simp; omega,
            by rw [← hdrop, List.take_append_drop], rfl, rfl⟩
  · rintro ⟨n, name, p₁, p₂, hlen, rfl, rfl, rfl⟩
    rw [if_neg (by simp)]
    simp only [List.getD_cons_zero]
    rw [if_neg (by simp; omega), datagramTail_eq_some]
    have hname : (name ++ p₁ :: p₂ :: payload).take n.toNat = name := List.take_left' hlen
    have hrest : (name ++ p₁ :: p₂ :: payload).drop n.toNat = p₁ :: p₂ :: payload :=
      List.drop_left' hlen
    refine ⟨p₁, p₂, ?_, congrArg Address.domain hname.symm, rfl⟩
    rw [← List.drop_drop]
    exact hrest

/-- A datagram that is accepted has four bytes in front, of which the third is `FRAG`. -/
theorem parseUdpDatagram_header {data : Bytes} {r : Address × UInt16 × Bytes}
    (h : parseUdpDatagram data = some r) :
    ∃ rsv₁ rsv₂ atyp rest, data = rsv₁ :: rsv₂ :: 0 :: atyp :: rest ∧
      ∃ t, AddressType.ofByte? atyp = some t := by
  unfold parseUdpDatagram at h
  match data with
  | rsv₁ :: rsv₂ :: frag :: atyp :: rest =>
      rw [if_neg (by simp)] at h
      by_cases hfrag : frag = 0
      · subst hfrag
        rw [if_neg (by simp)] at h
        refine ⟨rsv₁, rsv₂, atyp, rest, rfl, ?_⟩
        cases ht : AddressType.ofByte? atyp with
        | some t => exact ⟨t, rfl⟩
        | none =>
            simp only [List.getD_cons_succ, List.getD_cons_zero, ht] at h
            cases h
      · rw [if_pos (by simpa using hfrag)] at h
        cases h
  | [] | [_] | [_, _] | [_, _, _] => simp at h

/-- **What is accepted** is the grammar. -/
theorem parseUdpDatagram_eq_some {data payload : Bytes} {addr : Address} {port : UInt16} :
    parseUdpDatagram data = some (addr, port, payload) ↔ DatagramBytes data addr port payload := by
  constructor
  · intro h
    obtain ⟨rsv₁, rsv₂, atyp, rest, rfl, t, ht⟩ := parseUdpDatagram_header h
    obtain rfl := (AddressType.ofByte?_eq_some atyp t).1 ht
    cases t with
    | ipv4 =>
        obtain ⟨ip, p₁, p₂, rfl, rfl, rfl⟩ := parseUdpDatagram_ipv4.1 h
        exact .mk rsv₁ rsv₂ p₁ p₂ _ payload _ (.ipv4 ip)
    | domain =>
        obtain ⟨n, name, p₁, p₂, hlen, rfl, rfl, rfl⟩ := parseUdpDatagram_domain.1 h
        exact .mk rsv₁ rsv₂ p₁ p₂ _ payload _ (.domain n name hlen)
    | ipv6 =>
        obtain ⟨ip, p₁, p₂, rfl, rfl, rfl⟩ := parseUdpDatagram_ipv6.1 h
        exact .mk rsv₁ rsv₂ p₁ p₂ _ payload _ (.ipv6 ip)
  · intro h
    cases h with
    | mk rsv₁ rsv₂ p₁ p₂ bs payload addr haddr =>
        cases haddr with
        | ipv4 ip => exact parseUdpDatagram_ipv4.2 ⟨ip, p₁, p₂, rfl, rfl, rfl⟩
        | domain n name hlen =>
            exact parseUdpDatagram_domain.2 ⟨n, name, p₁, p₂, hlen, rfl, rfl, rfl⟩
        | ipv6 ip => exact parseUdpDatagram_ipv6.2 ⟨ip, p₁, p₂, rfl, rfl, rfl⟩

/-! ## What is written -/

theorem writeAddrPort_eq {out bs : Bytes} {addr : Address} (port : UInt16)
    (h : AddressBytes bs addr) :
    writeAddrPort out addr port = .ok (out ++ bs ++ [(port >>> 8).toUInt8, port.toUInt8]) := by
  unfold writeAddrPort
  cases h with
  | ipv4 ip => simp [AddressType.toByte, pure, Except.pure, bind, Except.bind]
  | ipv6 ip => simp [AddressType.toByte, pure, Except.pure, bind, Except.bind]
  | domain n name hlen =>
      have hn : name.length.toUInt8 = n := by rw [hlen]; simp
      have hle : ¬ 255 < name.length := by have := n.toNat_lt; omega
      simp [AddressType.toByte, pure, Except.pure, bind, Except.bind, hle, hn]

/-- An address is written unless it is a domain of more than 255 bytes. -/
theorem addressBytes_of_length {addr : Address}
    (h : ∀ name, addr = .domain name → name.length ≤ 255) : ∃ bs, AddressBytes bs addr := by
  cases addr with
  | ipv4 ip => exact ⟨_, .ipv4 ip⟩
  | ipv6 ip => exact ⟨_, .ipv6 ip⟩
  | domain name =>
      have hname := h name rfl
      exact ⟨_, .domain name.length.toUInt8 name (by simp; omega)⟩

/-- **What is written** is the grammar with zeros for the reserved bytes. -/
theorem encodeUdpDatagram_eq {bs : Bytes} {addr : Address} (port : UInt16) (payload : Bytes)
    (h : AddressBytes bs addr) :
    encodeUdpDatagram addr port payload =
      .ok (0 :: 0 :: 0 :: (bs ++ (port >>> 8).toUInt8 :: port.toUInt8 :: payload)) := by
  rw [encodeUdpDatagram, writeAddrPort_eq port h]
  simp [bind, Except.bind, pure, Except.pure]

theorem datagramBytes_of_encode {bs : Bytes} {addr : Address} (port : UInt16) (payload : Bytes)
    (h : AddressBytes bs addr) :
    DatagramBytes (0 :: 0 :: 0 :: (bs ++ (port >>> 8).toUInt8 :: port.toUInt8 :: payload)) addr port
      payload := by
  have hbytes := DatagramBytes.mk 0 0 (port >>> 8).toUInt8 port.toUInt8 bs payload addr h
  rwa [beUInt16_split] at hbytes

theorem beUInt16_bytes (hi lo : UInt8) :
    (beUInt16 hi lo >>> 8).toUInt8 = hi ∧ (beUInt16 hi lo).toUInt8 = lo := by
  have hlo := lo.toNat_lt
  have hhi := hi.toNat_lt
  constructor
  · apply UInt8.toNat_inj.1
    simp only [UInt16.toNat_toUInt8, UInt16.toNat_shiftRight, Nat.shiftRight_eq_div_pow,
      beUInt16_toNat]
    show (hi.toNat * 256 + lo.toNat) / 2 ^ 8 % 2 ^ 8 = hi.toNat
    omega
  · apply UInt8.toNat_inj.1
    rw [UInt16.toNat_toUInt8, beUInt16_toNat]
    omega

/-- Writing again what was read gives the datagram back, but for the reserved bytes. -/
theorem encodeUdpDatagram_of_datagramBytes {data payload : Bytes} {addr : Address} {port : UInt16}
    (h : DatagramBytes data addr port payload) :
    encodeUdpDatagram addr port payload = .ok ((data.set 0 0).set 1 0) := by
  cases h with
  | mk rsv₁ rsv₂ p₁ p₂ bs payload addr haddr =>
      obtain ⟨h₁, h₂⟩ := beUInt16_bytes p₁ p₂
      rw [encodeUdpDatagram_eq _ _ haddr, h₁, h₂]
      rfl

theorem after_eq_true {out out' : Outputs} {r : Option (Address × UInt16 × Bytes)} :
    out.after r = (true, out') ↔ r = some (out'.addr, out'.port, out'.payload) := by
  cases r with
  | none => simp [Outputs.after]
  | some r =>
      obtain ⟨addr, port, payload⟩ := r
      obtain ⟨addr', port', payload'⟩ := out'
      simp [Outputs.after]

theorem after_eq_false {out out' : Outputs} {r : Option (Address × UInt16 × Bytes)}
    (h : out.after r = (false, out')) : out' = out := by
  cases r with
  | none => exact (Prod.mk.inj h).2.symm
  | some r => cases h

/-- A parse returns `true` with what the grammar says, and with nothing else. -/
theorem parseUdpDatagramInto_eq_true {data : Bytes} {out out' : Outputs} :
    parseUdpDatagramInto data out = .ok (true, out') ↔
      DatagramBytes data out'.addr out'.port out'.payload := by
  rw [parseUdpDatagramInto_eq, Except.ok.injEq, after_eq_true, parseUdpDatagram_eq_some]

/-- **The codec of the datagrams.** A datagram that is written is read back; one that is accepted
    is written as it was, with zeros for the reserved bytes; the accepted ones are those of the
    grammar; no access misses the end; and a refused datagram leaves the output parameters. -/
theorem datagram_codec (addr : Address) (port : UInt16) (payload data : Bytes) (out : Outputs) :
    ((∀ name, addr = .domain name → name.length ≤ 255) →
      ∃ bytes, encodeUdpDatagram addr port payload = .ok bytes ∧
        parseUdpDatagramInto bytes out = .ok (true, ⟨addr, port, payload⟩)) ∧
    (∀ out', parseUdpDatagramInto data out = .ok (true, out') →
      encodeUdpDatagram out'.addr out'.port out'.payload = .ok ((data.set 0 0).set 1 0)) ∧
    ((∃ out', parseUdpDatagramInto data out = .ok (true, out')) ↔
      ∃ rsv₁ rsv₂ p₁ p₂ bs address rest, AddressBytes bs address ∧
        data = rsv₁ :: rsv₂ :: 0 :: (bs ++ p₁ :: p₂ :: rest)) ∧
    (∃ result, parseUdpDatagramInto data out = .ok result) ∧
    (∀ out', parseUdpDatagramInto data out = .ok (false, out') → out' = out) := by
  refine ⟨fun hname => ?_, fun out' h => ?_, ?_, ⟨_, parseUdpDatagramInto_eq data out⟩,
    fun out' h => ?_⟩
  · obtain ⟨bs, hbs⟩ := addressBytes_of_length hname
    exact ⟨_, encodeUdpDatagram_eq port payload hbs,
      parseUdpDatagramInto_eq_true.2 (datagramBytes_of_encode port payload hbs)⟩
  · exact encodeUdpDatagram_of_datagramBytes (parseUdpDatagramInto_eq_true.1 h)
  · constructor
    · rintro ⟨out', h⟩
      obtain ⟨rsv₁, rsv₂, p₁, p₂, bs, rest, address, haddr, hdata⟩ :=
        (parseUdpDatagramInto_eq_true.1 h).shape
      exact ⟨rsv₁, rsv₂, p₁, p₂, bs, address, rest, haddr, hdata⟩
    · rintro ⟨rsv₁, rsv₂, p₁, p₂, bs, address, rest, haddr, rfl⟩
      exact ⟨⟨address, beUInt16 p₁ p₂, rest⟩,
        parseUdpDatagramInto_eq_true.2 (.mk rsv₁ rsv₂ p₁ p₂ bs rest address haddr)⟩
  · rw [parseUdpDatagramInto_eq] at h
    exact after_eq_false (Except.ok.inj h)

/-- A name and two bytes of payload; an empty datagram. -/
theorem datagram_codec_sample :
    (∃ bytes, encodeUdpDatagram (.domain [0x61]) 53 [1, 2] = .ok bytes ∧
      parseUdpDatagramInto bytes ⟨.domain [], 0, []⟩ = .ok (true, ⟨.domain [0x61], 53, [1, 2]⟩)) ∧
    parseUdpDatagramInto [] ⟨.domain [], 0, []⟩ = .ok (false, ⟨.domain [], 0, []⟩) :=
  ⟨(datagram_codec (.domain [0x61]) 53 [1, 2] [] ⟨.domain [], 0, []⟩).1
    fun name h => by cases h; decide, rfl⟩

end Parser

end Socks5

end Cppvless
