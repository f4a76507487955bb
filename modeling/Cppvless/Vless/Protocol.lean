import Cppvless.Net.Io
import Mathlib.Data.Vector.Basic

set_option autoImplicit false

/-! # VLESS requests

`proxy/vless/protocol.h` and `proxy/vless/validator.h`. -/

namespace Cppvless

abbrev Uuid := List.Vector UInt8 16

/-- The bytes of an ASCII literal. -/
def ascii (s : String) : Bytes := s.toList.map fun c => UInt8.ofNat c.toNat

/-- `VLESS_FLOW_VISION` -/
def flowVision : Bytes := ascii "xtls-rprx-vision"

/-- `proxy::vless::Command` -/
inductive Command
  | tcp
  | udp
  | mux
  | rvs
  deriving DecidableEq

namespace Command

def toByte : Command → UInt8
  | .tcp => 1
  | .udp => 2
  | .mux => 3
  | .rvs => 4

/-- The enumerator with a value, if there is one. -/
def ofByte? (b : UInt8) : Option Command :=
  if b = 1 then some .tcp
  else if b = 2 then some .udp
  else if b = 3 then some .mux
  else if b = 4 then some .rvs
  else none

theorem ofByte?_eq_some (b : UInt8) (c : Command) : ofByte? b = some c ↔ b = c.toByte := by
  unfold ofByte?
  cases c <;> grind [toByte]

end Command

/-- The alternatives of `Request::address`. -/
inductive Address
  | ipv4 (ip : List.Vector UInt8 4)
  | ipv6 (ip : List.Vector UInt8 16)
  | domain (name : Bytes)
  deriving DecidableEq

/-- `proxy::vless::Request` -/
structure Request where
  version : UInt8 := 0
  uuid : Uuid := List.Vector.replicate 16 0
  command : Command := .tcp
  port : UInt16 := 0
  flow : Bytes := []
  encryption : Bytes := []
  seed : Bytes := []
  address : Address := .ipv4 (List.Vector.replicate 4 0)
  deriving DecidableEq

/-- `proxy::vless::Validator`: the users, each once. -/
structure Validator where
  users : List Uuid
  nodup : users.Nodup

namespace Validator

def empty : Validator := ⟨[], List.nodup_nil⟩

def contains (v : Validator) (uuid : Uuid) : Bool := decide (uuid ∈ v.users)

def add (v : Validator) (uuid : Uuid) : Validator :=
  if h : uuid ∈ v.users then v
  else ⟨v.users ++ [uuid], by
    rw [List.nodup_append]
    exact ⟨v.nodup, List.nodup_singleton _, by rintro a ha b hb rfl; simp_all⟩⟩

theorem contains_add (v : Validator) (uuid other : Uuid) :
    (v.add uuid).contains other = (decide (other = uuid) || v.contains other) := by
  unfold add contains
  split
  · next h =>
      by_cases heq : other = uuid
      · simp [heq, h]
      · simp [heq]
  · simp [Bool.or_comm]

end Validator

/-- A big-endian 16-bit number. -/
def beUInt16 (hi lo : UInt8) : UInt16 := (hi.toUInt16 <<< 8) ||| lo.toUInt16

theorem beUInt16_toNat (hi lo : UInt8) : (beUInt16 hi lo).toNat = hi.toNat * 256 + lo.toNat := by
  have hlo := lo.toNat_lt
  have hhi := hi.toNat_lt
  have h : (hi.toNat <<< 8) % 2 ^ 16 = hi.toNat <<< 8 := by
    rw [Nat.shiftLeft_eq]
    exact Nat.mod_eq_of_lt (by omega)
  simp only [beUInt16, UInt16.toNat_or, UInt16.toNat_shiftLeft, UInt8.toNat_toUInt16]
  show (hi.toNat <<< 8) % 2 ^ 16 ||| lo.toNat = _
  rw [h, ← Nat.shiftLeft_add_eq_or_of_lt (by simpa using hlo), Nat.shiftLeft_eq]

theorem beUInt16_split (port : UInt16) :
    beUInt16 (port >>> 8).toUInt8 port.toUInt8 = port := by
  have h := port.toNat_lt
  apply UInt16.toNat_inj.1
  rw [beUInt16_toNat]
  simp only [UInt16.toNat_toUInt8, UInt16.toNat_shiftRight, Nat.shiftRight_eq_div_pow]
  show port.toNat / 2 ^ 8 % 2 ^ 8 * 256 + port.toNat % 2 ^ 8 = port.toNat
  omega

/-- A number in two bytes, big-endian. -/
def beBytes (n : Nat) : Bytes := [(n / 256).toUInt8, n.toUInt8]

theorem beUInt16_beBytes {n : Nat} (h : n < 65536) :
    (beUInt16 (n / 256).toUInt8 n.toUInt8).toNat = n := by
  rw [beUInt16_toNat]
  simp only [Nat.toUInt8_eq, UInt8.toNat_ofNat']
  omega

theorem beBytes_beUInt16 (hi lo : UInt8) : beBytes (beUInt16 hi lo).toNat = [hi, lo] := by
  have hhi := hi.toNat_lt
  have hlo := lo.toNat_lt
  rw [beUInt16_toNat, beBytes]
  congr 2
  · apply UInt8.toNat_inj.1
    simp only [Nat.toUInt8_eq, UInt8.toNat_ofNat']
    omega
  · apply UInt8.toNat_inj.1
    simp only [Nat.toUInt8_eq, UInt8.toNat_ofNat']
    omega

end Cppvless
