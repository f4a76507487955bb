import Cppvless.Vless.Decoder

set_option autoImplicit false

/-! # The request encoder

`proxy/vless/encoder.cpp`. What it writes is a header in the grammar of the decoder, so decoding
undoes encoding. -/

namespace Cppvless

open Coroutine

namespace Encoder

def writeAddress (out : Bytes) (req : Request) : Except Exn Bytes :=
  match req.address with
  | .ipv4 ip => .ok (out ++ [AddressType.ipv4.toByte] ++ ip.toList)
  | .ipv6 ip => .ok (out ++ [AddressType.ipv6.toByte] ++ ip.toList)
  | .domain domain =>
      if 255 < domain.length then .error (.runtimeError "domain too long for vless address")
      else .ok (out ++ [AddressType.domain.toByte] ++ [domain.length.toUInt8] ++ domain)

def encodeRequest (req : Request) : Except Exn Bytes :=
  let out := [0x00] ++ req.uuid.toList
  -- no addons
  let out := out ++ [0x00]
  let out := out ++ [req.command.toByte]
  let out := out ++ [(req.port >>> 8).toUInt8] ++ [req.port.toUInt8]
  writeAddress out req

/-- `Encoder::decodeResponse` -/
def decodeResponse : Parser Bool := do
  let data ← Reader.next 2
  match data with
  | [version, addonsLen] =>
      if version ≠ 0 then
        return false
      else if 0 < addonsLen then do
        let addons ← Reader.next addonsLen.toNat
        return addons.length = addonsLen.toNat
      else
        return true
  | _ => return false

/-- A response header: version 0, and the addons it announces. -/
inductive ResponseBytes : Bytes → Prop
  | mk (addonsLen : UInt8) (addons : Bytes) (hlen : addons.length = addonsLen.toNat) :
      ResponseBytes (0 :: addonsLen :: addons)

theorem decodeResponse_stopsShort : decodeResponse.StopsShort fun r => r = .ok false := by
  refine ⟨fun data hdata => ?_, fun data hdata => ?_⟩
  · obtain ⟨version, addonsLen, rfl⟩ := List.length_eq_two.1 hdata
    show Reader.StopsShort _ (if version ≠ 0 then _ else if 0 < addonsLen then _ else _)
    split
    · trivial
    · split
      · refine ⟨fun _ _ => trivial, fun addons haddons => ⟨.ok false, rfl, ?_⟩⟩
        show Reader.done (.ok (decide (addons.length = addonsLen.toNat))) = _
        rw [decide_eq_false (Nat.ne_of_lt haddons)]
      · trivial
  · refine ⟨.ok false, rfl, ?_⟩
    match data, hdata with
    | [], _ => rfl
    | [_], _ => rfl

/-- A response is accepted by its header, and what follows is left. -/
theorem decodeResponse_header {s rest : Bytes} (h : decodeResponse.run s = (.ok true, rest)) :
    ∃ header, ResponseBytes header ∧ s = header ++ rest := by
  match s with
  | [] => cases h
  | [_] => cases h
  | version :: addonsLen :: tail =>
      have hrun : decodeResponse.run (version :: addonsLen :: tail) =
          (if version ≠ 0 then (pure false : Parser Bool) else if 0 < addonsLen then do
            let addons ← Reader.next addonsLen.toNat
            return addons.length = addonsLen.toNat
          else pure true).run tail := rfl
      rw [hrun] at h
      split at h
      · cases h
      · next hversion =>
          obtain rfl := not_not.1 hversion
          split at h
          · obtain ⟨hlen, hrest⟩ := Prod.mk.inj h
            have hlen : (tail.take addonsLen.toNat).length = addonsLen.toNat := by
              simpa using Except.ok.inj hlen
            refine ⟨_, .mk addonsLen (tail.take addonsLen.toNat) hlen, ?_⟩
            have hrest : tail.drop addonsLen.toNat = rest := hrest
            rw [← hrest]
            simp
          · next hzero =>
              obtain rfl : addonsLen = 0 := by
                simpa using hzero
              obtain ⟨-, rfl⟩ := Prod.mk.inj h
              exact ⟨_, .mk 0 [] rfl, rfl⟩

/-- The encoder throws exactly on long domains. -/
theorem encodeRequest_error_iff (req : Request) :
    (∃ e, encodeRequest req = .error e) ↔ ∃ name, req.address = .domain name ∧ 255 < name.length := by
  unfold encodeRequest writeAddress
  cases req.address with
  | ipv4 ip => simp
  | ipv6 ip => simp
  | domain name =>
      by_cases h : 255 < name.length
      · simp [h]
      · simp [h]

/-- What is written for an address is in the decoder's grammar. -/
theorem writeAddress_bytes {out bs : Bytes} {req : Request} (h : writeAddress out req = .ok bs) :
    ∃ abs, AddressBytes abs req.address ∧ bs = out ++ abs := by
  unfold writeAddress at h
  split at h
  · next ip heq =>
      rw [heq]
      exact ⟨_, .ipv4 ip, by simpa [AddressType.toByte] using (Except.ok.inj h).symm⟩
  · next ip heq =>
      rw [heq]
      exact ⟨_, .ipv6 ip, by simpa [AddressType.toByte] using (Except.ok.inj h).symm⟩
  · next name heq =>
      split at h
      · cases h
      · next hlen =>
          rw [heq]
          refine ⟨_, .domain name.length.toUInt8 name ?_, by simpa [AddressType.toByte] using (Except.ok.inj h).symm⟩
          simp only [Nat.toUInt8_eq, UInt8.toNat_ofNat']
          omega

/-- An encoded request is a header of that request, its flow, seed and encryption aside. -/
theorem encodeRequest_header {validator : Validator} {req : Request} {bs : Bytes}
    (hcommand : req.command = .tcp ∨ req.command = .udp) (huser : req.uuid ∈ validator.users)
    (h : encodeRequest req = .ok bs) :
    Header validator bs { uuid := req.uuid, command := req.command, port := req.port,
                          address := req.address } := by
  obtain ⟨abs, haddr, rfl⟩ := writeAddress_bytes h
  have haddons : AddonsBytes [0] [] [] := .mk 0 [] [] rfl .nil
  have hdest : CommandBytes
      (req.command.toByte :: (req.port >>> 8).toUInt8 :: req.port.toUInt8 :: abs)
      req.command req.port req.address := by
    have hport := beUInt16_split req.port
    rcases hcommand with hc | hc
    · have hdest := CommandBytes.tcp (req.port >>> 8).toUInt8 req.port.toUInt8 abs _ haddr
      rw [hport] at hdest
      rw [hc]
      exact hdest
    · have hdest := CommandBytes.udp (req.port >>> 8).toUInt8 req.port.toUInt8 abs _ haddr
      rw [hport] at hdest
      rw [hc]
      exact hdest
  simpa using Header.mk req.uuid [0] [] [] _ req.command req.port req.address huser haddons hdest

end Encoder

/-- **Decoding undoes encoding**, whatever follows the header and however the stream is cut. -/
theorem decodes_encodeRequest (validator : Validator) (req : Request)
    (hcommand : req.command = .tcp ∨ req.command = .udp) (huser : req.uuid ∈ validator.users) :
    ((∃ e, Encoder.encodeRequest req = .error e) ↔
      ∃ name, req.address = .domain name ∧ 255 < name.length) ∧
    ∀ (enc rest : Bytes) (src : Source), Encoder.encodeRequest req = .ok enc →
      src.bytes = enc ++ rest →
      Decodes validator src
        (.ok { version := 0, uuid := req.uuid, command := req.command, port := req.port, flow := [],
               encryption := [], seed := [], address := req.address }) rest := by
  refine ⟨Encoder.encodeRequest_error_iff req, fun enc rest src henc hsrc => ?_⟩
  have haccepts := (Decoder.decode_accepts validator src.bytes _ rest).2
    ⟨enc, Encoder.encodeRequest_header hcommand huser henc, hsrc⟩
  have hrun := decodes_run validator src
  rw [haccepts] at hrun
  exact hrun

/-- A UDP request for the empty domain. -/
def emptyDomainRequest : Request :=
  { uuid := List.Vector.replicate 16 7, command := .udp, port := 53, address := .domain [] }

/-- Its header, cut in the UUID, with one byte behind it. -/
theorem decodes_emptyDomainRequest :
    Decodes ⟨[List.Vector.replicate 16 7], List.nodup_singleton _⟩
      ⟨[⟨0 :: List.replicate 9 7, by decide⟩,
        ⟨List.replicate 7 7 ++ [0, 2, 0, 53, 2, 0, 0xAA], by decide⟩], ⟨.ofBytes [], rfl⟩⟩
      (.ok emptyDomainRequest) [0xAA] :=
  (decodes_encodeRequest _ emptyDomainRequest (.inr rfl) (by decide)).2
    (0 :: List.replicate 16 7 ++ [0, 2, 0, 53, 2, 0]) [0xAA] _ (by decide) (by decide)

end Cppvless
