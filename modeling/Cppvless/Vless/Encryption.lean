import Cppvless.Vless.Protocol
import Mathlib.Logic.Relation
import Mathlib.Logic.Function.Basic

set_option autoImplicit false

/-! # Encryption sessions

`proxy/vless/encryption.cpp`. Two sessions with one secret hold the same two keys: the client encrypts
with one, the server with the other, and each decrypts with the other's. A nonce is a counter, and the
counter moves on before the cipher is asked, so a failed encryption uses its nonce up as well. That
keeps the nonces of one key apart; the two directions are kept apart by their keys. -/

namespace Cppvless

open Relation

/-- `proxy::vless::EncryptionMethod` -/
inductive EncryptionMethod
  | none
  | x25519Aes256gcm
  | x25519Chacha20
  deriving DecidableEq

/-- `EVP_aes_256_gcm` and `EVP_chacha20_poly1305` -/
inductive EvpCipher
  | aes256Gcm
  | chacha20Poly1305
  deriving DecidableEq

/-- What the code uses of OpenSSL's EVP. -/
structure Evp where
  /-- the SHA-256 of a message, unless a call fails -/
  sha256 : Bytes → Option Bytes
  /-- ciphertext and tag of the first `inl` bytes, with a key and a nonce -/
  encrypt : EvpCipher → Bytes → Bytes → Bytes → Int → Option (Bytes × Bytes)
  /-- the plaintext of the first `inl` bytes, if the tag is right -/
  decrypt : EvpCipher → Bytes → Bytes → Bytes → Int → Bytes → Option Bytes

/-- `AeadCipher`: `Aes256GcmCipher` and `ChaCha20Cipher` differ in the cipher only. -/
structure AeadCipher where
  cipher : EvpCipher
  key : Bytes
  forEncrypt : Bool
  deriving DecidableEq

namespace AeadCipher

/-- `process`: what it wrote to `out`, if the length it returned is not negative. `fails` is whether
    one of the calls that prepare the context fails. -/
def process (evp : Evp) (fails : Bool) (c : AeadCipher) (nonce input : Bytes) : Option Bytes :=
  if fails then none
  else if c.forEncrypt then
    match evp.encrypt c.cipher c.key nonce input (Int.bmod input.length (2 ^ 32)) with
    | none => none
    | some (body, tag) =>
        -- `ciphertextLen` is an `int`
        if Int.bmod (body.length + 16) (2 ^ 32) < 0 then none else some (body ++ tag)
  else if input.length < 16 then none
  else
    let ciphertextLen := input.length - 16
    evp.decrypt c.cipher c.key nonce (input.take ciphertextLen) (Int.bmod ciphertextLen (2 ^ 32))
      (input.drop ciphertextLen)

def create (method : EncryptionMethod) (key : Bytes) (forEncrypt : Bool) : Option AeadCipher :=
  match method with
  | .x25519Aes256gcm => some ⟨.aes256Gcm, key, forEncrypt⟩
  | .x25519Chacha20 => some ⟨.chacha20Poly1305, key, forEncrypt⟩
  | .none => none

/-- A cipher's decryption inverts its encryption on a plaintext. -/
def Inverts (evp : Evp) (method : EncryptionMethod) (plaintext : Bytes) : Prop :=
  ∀ key nonce body encipher decipher, create method key true = some encipher →
    create method key false = some decipher →
    process evp false encipher nonce plaintext = some body →
    process evp false decipher nonce body = some plaintext

end AeadCipher

/-- EVP encrypts what it is given, and decrypts what it encrypted. -/
structure Evp.Lawful (evp : Evp) : Prop where
  tag_length : ∀ cipher key nonce input inl body tag,
    evp.encrypt cipher key nonce input inl = some (body, tag) → tag.length = 16
  body_length : ∀ cipher key nonce input body tag,
    evp.encrypt cipher key nonce input input.length = some (body, tag) → body.length = input.length
  decrypt : ∀ cipher key nonce input body tag,
    evp.encrypt cipher key nonce input input.length = some (body, tag) →
    evp.decrypt cipher key nonce body body.length tag = some input

theorem bmod_of_lt {n : Nat} (h : n < 2 ^ 31) : Int.bmod n (2 ^ 32) = n := by
  rw [Int.bmod_def]
  omega

/-- A plaintext whose ciphertext has an `int` length is decrypted again. -/
theorem Evp.Lawful.inverts {evp : Evp} (hevp : evp.Lawful) (method : EncryptionMethod)
    {plaintext : Bytes} (hlen : plaintext.length + 16 < 2 ^ 31) :
    AeadCipher.Inverts evp method plaintext := by
  have hprocess : ∀ (cipher : EvpCipher) key nonce body,
      AeadCipher.process evp false ⟨cipher, key, true⟩ nonce plaintext = some body →
      AeadCipher.process evp false ⟨cipher, key, false⟩ nonce body = some plaintext := by
    intro cipher key nonce body hbody
    simp only [AeadCipher.process, Bool.false_eq_true, if_false, if_true] at hbody ⊢
    rw [bmod_of_lt (by omega)] at hbody
    cases hencrypt : evp.encrypt cipher key nonce plaintext plaintext.length with
    | none => simp [hencrypt] at hbody
    | some res =>
        obtain ⟨body', tag⟩ := res
        have htag := hevp.tag_length _ _ _ _ _ _ _ hencrypt
        have hbody' := hevp.body_length _ _ _ _ _ _ hencrypt
        have hout : Int.bmod (body'.length + 16) (2 ^ 32) = body'.length + 16 := by
          exact_mod_cast bmod_of_lt (n := body'.length + 16) (by omega)
        simp only [hencrypt, hout] at hbody
        rw [if_neg (by omega)] at hbody
        obtain rfl : body' ++ tag = body := Option.some.inj hbody
        have hsub : (body' ++ tag).length - 16 = body'.length := by
          rw [List.length_append, htag]
          omega
        rw [if_neg (by rw [List.length_append, htag]; omega), hsub, bmod_of_lt (by omega),
          List.take_left, List.drop_left]
        exact hevp.decrypt _ _ _ _ _ _ hencrypt
  intro key nonce body encipher decipher hencipher hdecipher hbody
  cases method with
  | none => exact absurd hencipher nofun
  | x25519Aes256gcm =>
      cases Option.some.inj hencipher
      cases Option.some.inj hdecipher
      exact hprocess _ _ _ _ hbody
  | x25519Chacha20 =>
      cases Option.some.inj hencipher
      cases Option.some.inj hdecipher
      exact hprocess _ _ _ _ hbody

/-! ## Sessions -/

structure EncryptionSession where
  method : EncryptionMethod
  ready : Bool := false
  clientKey : Bytes := []
  serverKey : Bytes := []
  clientNonce : UInt64 := 0
  serverNonce : UInt64 := 0
  encryptCipher : Option AeadCipher := none
  decryptCipher : Option AeadCipher := none

/-- What a call that encrypts did: the key and the nonce the cipher was asked with, and what the call
    returned, if that was not 0. -/
structure Sealing where
  used : Option (Bytes × Bytes) := none
  ciphertext : Option Bytes := none

namespace EncryptionSession

def deriveKeys (evp : Evp) (sharedSecret : Bytes) (s : EncryptionSession) :
    Except Exn EncryptionSession :=
  match evp.sha256 (ascii "VLESS Encryption: client key" ++ sharedSecret),
      evp.sha256 (ascii "VLESS Encryption: server key" ++ sharedSecret) with
  | some clientKey, some serverKey =>
      .ok { s with
        clientKey, serverKey, ready := true
        encryptCipher := AeadCipher.create s.method clientKey true
        decryptCipher := AeadCipher.create s.method serverKey false }
  | _, _ => .error (.runtimeError "failed to derive session keys")

/-- A counter as a nonce: 8 bytes, little-endian, and 4 zeros. -/
def nonceBytes (nonce : UInt64) : Bytes :=
  [nonce.toUInt8, (nonce >>> 8).toUInt8, (nonce >>> 16).toUInt8, (nonce >>> 24).toUInt8,
    (nonce >>> 32).toUInt8, (nonce >>> 40).toUInt8, (nonce >>> 48).toUInt8, (nonce >>> 56).toUInt8,
    0, 0, 0, 0]

def incrementNonce (nonce : UInt64) : Bytes × UInt64 := (nonceBytes nonce, nonce + 1)

/-- What both `encrypt` and `encryptServer` do with their cipher and their counter. -/
def sealWith (evp : Evp) (fails : Bool) (cipher : AeadCipher) (counter : UInt64) (plaintext : Bytes) :
    Sealing × UInt64 :=
  let (nonce, counter) := incrementNonce counter
  ({ used := some (cipher.key, nonce)
     ciphertext := (cipher.process evp fails nonce plaintext).map (nonce ++ ·) }, counter)

/-- What both `decrypt` and `decryptClient` do with their cipher. -/
def openWith (evp : Evp) (cipher : AeadCipher) (ciphertext : Bytes) : Option Bytes :=
  if ciphertext.length < 12 + 16 then none
  else cipher.process evp false (ciphertext.take 12) (ciphertext.drop 12)

def encrypt (evp : Evp) (fails : Bool) (plaintext : Bytes) (s : EncryptionSession) :
    Sealing × EncryptionSession :=
  if !s.ready then ({}, s)
  else match s.encryptCipher with
    | none => ({}, s)
    | some cipher =>
        let (res, clientNonce) := sealWith evp fails cipher s.clientNonce plaintext
        (res, { s with clientNonce })

def decrypt (evp : Evp) (ciphertext : Bytes) (s : EncryptionSession) : Option Bytes :=
  if !s.ready then none
  else match s.decryptCipher with
    | none => none
    | some cipher => openWith evp cipher ciphertext

def decryptClient (evp : Evp) (ciphertext : Bytes) (s : EncryptionSession) : Option Bytes :=
  if !s.ready then none
  else match AeadCipher.create s.method s.clientKey false with
    | none => none
    | some decipher => openWith evp decipher ciphertext

def encryptServer (evp : Evp) (fails : Bool) (plaintext : Bytes) (s : EncryptionSession) :
    Sealing × EncryptionSession :=
  if !s.ready then ({}, s)
  else match AeadCipher.create s.method s.serverKey true with
    | none => ({}, s)
    | some encipher =>
        let (res, serverNonce) := sealWith evp fails encipher s.serverNonce plaintext
        (res, { s with serverNonce })

end EncryptionSession

/-! ## A client and a server -/

inductive Role
  | client
  | server
  deriving DecidableEq

/-- A message that was to be encrypted. -/
structure Sent where
  sender : Role
  plaintext : Bytes
  sealing : Sealing

/-- The sessions of a client and a server, and what they were asked to encrypt. Decrypting changes
    nothing, so ciphertexts may arrive at any time, in any order, any number of times. -/
structure SessionPair where
  session : Role → EncryptionSession
  sent : List Sent := []

namespace SessionPair

def encryptBy (evp : Evp) (fails : Bool) (plaintext : Bytes) :
    Role → EncryptionSession → Sealing × EncryptionSession
  | .client => EncryptionSession.encrypt evp fails plaintext
  | .server => EncryptionSession.encryptServer evp fails plaintext

/-- What the peer of a sender makes of some bytes. -/
def receivedFrom (evp : Evp) (x : SessionPair) (ciphertext : Bytes) : Role → Option Bytes
  | .client => (x.session .server).decryptClient evp ciphertext
  | .server => (x.session .client).decrypt evp ciphertext

/-- `sender` is asked to encrypt a message. -/
def send (evp : Evp) (fails : Bool) (sender : Role) (plaintext : Bytes) (x : SessionPair) :
    SessionPair :=
  let (res, s) := encryptBy evp fails plaintext sender (x.session sender)
  { session := Function.update x.session sender s, sent := x.sent ++ [⟨sender, plaintext, res⟩] }

/-- The next message, by anybody. -/
inductive Step (evp : Evp) : SessionPair → SessionPair → Prop
  | send (x : SessionPair) (fails : Bool) (sender : Role) (plaintext : Bytes) :
      Step evp x (x.send evp fails sender plaintext)

/-- After any messages, starting from two sessions that derived their keys. -/
def Reachable (evp : Evp) (s : EncryptionSession) (x : SessionPair) : Prop :=
  ReflTransGen (Step evp) { session := fun _ => s } x

/-- The number of messages of a sender. -/
def count (x : SessionPair) (sender : Role) : Nat := x.sent.countP fun m => m.sender = sender

/-- All keys and nonces the ciphers were asked with. -/
def used (x : SessionPair) : List (Bytes × Bytes) := x.sent.filterMap fun m => m.sealing.used

end SessionPair

/-! ## One message -/

namespace EncryptionSession

theorem nonceBytes_length (nonce : UInt64) : (nonceBytes nonce).length = 12 := rfl

theorem nonceBytes_injective : Function.Injective nonceBytes := by
  intro a b h
  have ha := a.toNat_lt
  have hb := b.toNat_lt
  simp only [nonceBytes, List.cons.injEq, and_true] at h
  simp only [← UInt8.toNat_inj, UInt64.toNat_toUInt8, UInt64.toNat_shiftRight,
    Nat.shiftRight_eq_div_pow] at h
  apply UInt64.toNat_inj.1
  simp only [UInt64.reduceToNat, Nat.reduceMod, Nat.reducePow] at h
  omega

/-- The key a role encrypts with. -/
def sendKey (s : EncryptionSession) : Role → Bytes
  | .client => s.clientKey
  | .server => s.serverKey

/-- The counter of a role. -/
def counter (s : EncryptionSession) : Role → UInt64
  | .client => s.clientNonce
  | .server => s.serverNonce

/-- The session with another counter for a role. -/
def setCounter (s : EncryptionSession) (counter : UInt64) : Role → EncryptionSession
  | .client => { s with clientNonce := counter }
  | .server => { s with serverNonce := counter }

/-- The keys have been derived, and the ciphers go with them. -/
structure Ready (s : EncryptionSession) : Prop where
  ready : s.ready = true
  encryptCipher : s.encryptCipher = AeadCipher.create s.method s.clientKey true
  decryptCipher : s.decryptCipher = AeadCipher.create s.method s.serverKey false

/-- The session is `s` but for its counters. -/
def Counted (s s' : EncryptionSession) : Prop :=
  s' = { s with clientNonce := s'.clientNonce, serverNonce := s'.serverNonce }

variable {evp : Evp} {s s' : EncryptionSession}

theorem ready_of_deriveKeys {sharedSecret : Bytes} {method : EncryptionMethod}
    (h : deriveKeys evp sharedSecret { method := method } = .ok s) : Ready s ∧ s.method = method ∧
      s.clientNonce = 0 ∧ s.serverNonce = 0 := by
  unfold deriveKeys at h
  split at h
  · cases Except.ok.inj h
    exact ⟨⟨rfl, rfl, rfl⟩, rfl, rfl, rfl⟩
  · exact absurd h nofun

theorem Ready.of_counted (h : Ready s) (hs : Counted s s') : Ready s' := by
  rw [hs]
  exact ⟨h.ready, h.encryptCipher, h.decryptCipher⟩

theorem Counted.sendKey (hs : Counted s s') (r : Role) : s'.sendKey r = s.sendKey r := by
  rw [hs]
  cases r <;> rfl

theorem Counted.method (hs : Counted s s') : s'.method = s.method := by
  rw [hs]

theorem Counted.setCounter (hs : Counted s s') (n : UInt64) (r : Role) :
    Counted s (s'.setCounter n r) := by
  cases r <;> (rw [hs]; rfl)

@[simp] theorem counter_setCounter (n : UInt64) (r : Role) : (s.setCounter n r).counter r = n := by
  cases r <;> rfl

/-- Both roles encrypt in the same way, each with its own key and counter. -/
theorem Ready.encryptBy (evp : Evp) (h : Ready s) (fails : Bool) (plaintext : Bytes) (r : Role) :
    SessionPair.encryptBy evp fails plaintext r s =
      match AeadCipher.create s.method (s.sendKey r) true with
      | none => ({}, s)
      | some cipher =>
          ((sealWith evp fails cipher (s.counter r) plaintext).1,
            s.setCounter (s.counter r + 1) r) := by
  have hready : ¬ (!s.ready) = true := by simp [h.ready]
  cases r with
  | client =>
      show EncryptionSession.encrypt evp fails plaintext s = _
      have hcipher : AeadCipher.create s.method (s.sendKey .client) true = s.encryptCipher :=
        h.encryptCipher.symm
      rw [hcipher, encrypt, if_neg hready]
      split
      · rfl
      · rfl
  | server =>
      show EncryptionSession.encryptServer evp fails plaintext s = _
      rw [encryptServer, if_neg hready]
      show (match AeadCipher.create s.method s.serverKey true with
        | none => _
        | some encipher => _) = match AeadCipher.create s.method s.serverKey true with
          | none => _
          | some cipher => _
      split
      · rfl
      · rfl

/-- And the peer decrypts with the sender's key. -/
theorem Ready.receivedFrom (evp : Evp) {x : SessionPair} (h : Ready s) (hx : ∀ r, Counted s (x.session r))
    (ciphertext : Bytes) (r : Role) :
    x.receivedFrom evp ciphertext r =
      (AeadCipher.create s.method (s.sendKey r) false).bind (openWith evp · ciphertext) := by
  cases r with
  | client =>
      show (x.session .server).decryptClient evp ciphertext = _
      rw [hx .server, decryptClient]
      simp only [h.ready, sendKey]
      cases AeadCipher.create s.method s.clientKey false <;> rfl
  | server =>
      show (x.session .client).decrypt evp ciphertext = _
      rw [hx .client, decrypt]
      simp only [h.ready, h.decryptCipher, sendKey]
      cases AeadCipher.create s.method s.serverKey false <;> rfl

theorem create_key {method : EncryptionMethod} {key : Bytes} {forEncrypt : Bool} {c : AeadCipher}
    (h : AeadCipher.create method key forEncrypt = some c) : c.key = key := by
  cases method with
  | none => exact absurd h nofun
  | x25519Aes256gcm => rw [← Option.some.inj h]
  | x25519Chacha20 => rw [← Option.some.inj h]

theorem openWith_short (cipher : AeadCipher) {ciphertext : Bytes} (h : ciphertext.length < 28) :
    openWith evp cipher ciphertext = none := if_pos h

theorem length_of_process {method : EncryptionMethod} {key nonce input out : Bytes}
    {cipher : AeadCipher} (hcipher : AeadCipher.create method key false = some cipher)
    (h : cipher.process evp false nonce input = some out) : 16 ≤ input.length := by
  have hdecrypts : cipher.forEncrypt = false := by
    cases method with
    | none => exact absurd hcipher nofun
    | x25519Aes256gcm => rw [← Option.some.inj hcipher]
    | x25519Chacha20 => rw [← Option.some.inj hcipher]
  by_contra hshort
  simp [AeadCipher.process, hdecrypts, hshort] at h

/-- What was returned for a message opens to the message. -/
theorem open_seal {method : EncryptionMethod} {key plaintext ciphertext : Bytes} {fails : Bool}
    {n : UInt64} {encipher : AeadCipher} (hencipher : AeadCipher.create method key true = some encipher)
    (hinverts : AeadCipher.Inverts evp method plaintext)
    (h : (sealWith evp fails encipher n plaintext).1.ciphertext = some ciphertext) :
    (AeadCipher.create method key false).bind (openWith evp · ciphertext) = some plaintext := by
  obtain ⟨body, hbody, rfl⟩ := Option.map_eq_some_iff.1 h
  change encipher.process evp fails (nonceBytes n) plaintext = some body at hbody
  cases fails with
  | true => exact absurd hbody nofun
  | false =>
      obtain ⟨decipher, hdecipher⟩ : ∃ d, AeadCipher.create method key false = some d := by
        cases method with
        | none => exact absurd hencipher nofun
        | x25519Aes256gcm => exact ⟨_, rfl⟩
        | x25519Chacha20 => exact ⟨_, rfl⟩
      have hopened := hinverts key (nonceBytes n) body encipher decipher hencipher hdecipher hbody
      have hlen := length_of_process hdecipher hopened
      rw [hdecipher, Option.bind_some, openWith, if_neg]
      · exact hopened
      · show ¬ (nonceBytes n ++ body).length < 12 + 16
        rw [List.length_append, nonceBytes_length]
        omega

end EncryptionSession

/-! ## Any messages -/

namespace SessionPair

open EncryptionSession

/-- What holds of the sessions, and of what they were asked to encrypt. -/
structure Agrees (evp : Evp) (s : EncryptionSession) (x : SessionPair) : Prop where
  counted : ∀ r, Counted s (x.session r)
  opens : ∀ m ∈ x.sent, ∀ c, m.sealing.ciphertext = some c →
    AeadCipher.Inverts evp s.method m.plaintext →
    (AeadCipher.create s.method (s.sendKey m.sender) false).bind (openWith evp · c) =
      some m.plaintext

/-- As long as no counter has wrapped around: a used nonce lies behind the counter of its sender. -/
structure Fresh (s : EncryptionSession) (x : SessionPair) : Prop where
  counter_le : ∀ r, ((x.session r).counter r).toNat ≤ x.count r
  behind : ∀ m ∈ x.sent, ∀ u, m.sealing.used = some u →
    ∃ n < (x.session m.sender).counter m.sender, u = (s.sendKey m.sender, nonceBytes n)
  nodup : x.used.Nodup

variable {evp : Evp} {s : EncryptionSession} {x : SessionPair}

theorem used_concat (m : Sent) :
    SessionPair.used { x with sent := x.sent ++ [m] } = x.used ++ m.sealing.used.toList := by
  unfold used
  rw [List.filterMap_append]
  cases hused : m.sealing.used with
  | none => rw [List.filterMap_cons_none (f := fun m : Sent => m.sealing.used) hused]; rfl
  | some u => rw [List.filterMap_cons_some (f := fun m : Sent => m.sealing.used) hused]; rfl

theorem count_send (fails : Bool) (sender : Role) (plaintext : Bytes) (r : Role) :
    (x.send evp fails sender plaintext).count r = x.count r + if sender = r then 1 else 0 := by
  simp [count, send, List.countP_append, List.countP_cons]

theorem agrees_start (s : EncryptionSession) : Agrees evp s { session := fun _ => s } where
  counted _ := rfl
  opens m hm := absurd hm (by simp)

/-- One message. -/
theorem Agrees.send (hs : Ready s) (h : Agrees evp s x) (fails : Bool) (sender : Role)
    (plaintext : Bytes) : Agrees evp s (x.send evp fails sender plaintext) := by
  have hready := hs.of_counted (h.counted sender)
  have hencrypt := hready.encryptBy evp fails plaintext sender
  rw [(h.counted sender).method, (h.counted sender).sendKey] at hencrypt
  unfold SessionPair.send
  rw [hencrypt]
  constructor
  · intro r
    show Counted s (Function.update x.session sender _ r)
    by_cases hr : r = sender
    · subst hr
      rw [Function.update_self]
      split
      · exact h.counted r
      · exact (h.counted r).setCounter _ r
    · rw [Function.update_of_ne hr]
      exact h.counted r
  · intro m hm c hc hinverts
    rcases List.mem_append.1 hm with hm | hm
    · exact h.opens m hm c hc hinverts
    · obtain rfl := List.mem_singleton.1 hm
      cases hcreate : AeadCipher.create s.method (s.sendKey sender) true with
      | none =>
          rw [hcreate] at hc
          exact absurd hc nofun
      | some encipher =>
          rw [hcreate] at hc
          exact open_seal hcreate hinverts hc

theorem agrees_of_reachable (hs : Ready s) (hx : Reachable evp s x) : Agrees evp s x := by
  induction hx with
  | refl => exact agrees_start s
  | tail _ hstep ih =>
      cases hstep with
      | send fails sender plaintext => exact ih.send hs fails sender plaintext

/-- What a session returned for a message is opened by its peer. -/
theorem receivedFrom_sent (hs : Ready s) (hx : Reachable evp s x) {m : Sent} (hm : m ∈ x.sent)
    {c : Bytes} (hc : m.sealing.ciphertext = some c)
    (hinverts : AeadCipher.Inverts evp s.method m.plaintext) :
    x.receivedFrom evp c m.sender = some m.plaintext := by
  have hagrees := agrees_of_reachable hs hx
  rw [hs.receivedFrom evp hagrees.counted]
  exact hagrees.opens m hm c hc hinverts

theorem receivedFrom_short (hs : Ready s) (hx : Reachable evp s x) {c : Bytes} (hc : c.length < 28)
    (r : Role) : x.receivedFrom evp c r = none := by
  rw [hs.receivedFrom evp (agrees_of_reachable hs hx).counted,
    funext fun cipher => openWith_short cipher hc]
  exact Option.bind_fun_none _

theorem fresh_start (hclient : s.clientNonce = 0) (hserver : s.serverNonce = 0) :
    Fresh s { session := fun _ => s } where
  counter_le r := by
    cases r with
    | client => simp [counter, hclient]
    | server => simp [counter, hserver]
  behind m hm := absurd hm (by simp)
  nodup := List.nodup_nil

/-- A counter that has not reached its end goes up. -/
theorem lt_succ_counter {n : UInt64} {k : Nat} (hle : n.toNat ≤ k) (hk : k + 1 < 2 ^ 64) :
    (n + 1).toNat = n.toNat + 1 := by
  rw [UInt64.toNat_add]
  exact Nat.mod_eq_of_lt (by show n.toNat + 1 < 2 ^ 64; omega)

theorem sendKey_injective (hkeys : s.clientKey ≠ s.serverKey) : Function.Injective s.sendKey := by
  intro r r' h
  cases r with
  | client =>
      cases r' with
      | client => rfl
      | server => exact absurd h hkeys
  | server =>
      cases r' with
      | client => exact absurd h.symm hkeys
      | server => rfl

/-- A message for which no cipher is asked. -/
theorem Fresh.unused (h : Fresh s x) (sender : Role) (plaintext : Bytes) :
    Fresh s { session := x.session, sent := x.sent ++ [⟨sender, plaintext, {}⟩] } where
  counter_le r := by
    refine (h.counter_le r).trans ?_
    simp [count, List.countP_append]
  behind m hm u hu := by
    rcases List.mem_append.1 hm with hm | hm
    · exact h.behind m hm u hu
    · obtain rfl := List.mem_singleton.1 hm
      exact absurd hu nofun
  nodup := by
    have hused := used_concat (x := x) ⟨sender, plaintext, {}⟩
    have happend : x.used ++ [] = x.used := List.append_nil _
    exact (hused.trans happend) ▸ h.nodup

/-- A message whose nonce is the counter: all nonces before lie behind it. -/
theorem Fresh.used (hkeys : s.clientKey ≠ s.serverKey) (h : Fresh s x) (sender : Role)
    (plaintext : Bytes) (c : Option Bytes) (hcount : x.count sender + 1 < 2 ^ 64) :
    Fresh s
      { session := Function.update x.session sender ((x.session sender).setCounter
          ((x.session sender).counter sender + 1) sender)
        sent := x.sent ++ [⟨sender, plaintext, ⟨some (s.sendKey sender,
          nonceBytes ((x.session sender).counter sender)), c⟩⟩] } := by
  have hsucc := lt_succ_counter (h.counter_le sender) hcount
  have hlt : (x.session sender).counter sender < (x.session sender).counter sender + 1 := by
    rw [UInt64.lt_iff_toNat_lt, hsucc]
    exact Nat.lt_succ_self _
  refine ⟨fun r => ?_, fun m hm u hu => ?_, ?_⟩
  · have hle := h.counter_le r
    by_cases hr : r = sender
    · subst hr
      simp only [Function.update_self, counter_setCounter, hsucc, count, List.countP_append]
      simpa [count] using hle
    · simp only [Function.update_of_ne hr, count, List.countP_append]
      exact hle.trans (Nat.le_add_right _ _)
  · rcases List.mem_append.1 hm with hm | hm
    · obtain ⟨n, hn, hu⟩ := h.behind m hm u hu
      refine ⟨n, ?_, hu⟩
      by_cases hr : m.sender = sender
      · rw [hr] at hn ⊢
        simp only [Function.update_self, counter_setCounter]
        exact UInt64.lt_trans hn hlt
      · simp only [Function.update_of_ne hr]
        exact hn
    · obtain rfl := List.mem_singleton.1 hm
      refine ⟨_, ?_, (Option.some.inj hu).symm⟩
      simp only [Function.update_self, counter_setCounter]
      exact hlt
  · have hnew : (s.sendKey sender, nonceBytes ((x.session sender).counter sender)) ∉ x.used := by
      intro hmem
      obtain ⟨m, hm, hu⟩ := List.mem_filterMap.1 hmem
      obtain ⟨n, hn, heq⟩ := h.behind m hm _ hu
      obtain ⟨hkey, hnonce⟩ := Prod.mk.inj heq
      -- the same key is the same sender's, whose nonces all lie behind the counter
      have hsender := sendKey_injective hkeys hkey
      have hsame := nonceBytes_injective hnonce
      rw [← hsender, hsame] at hn
      exact absurd hn (UInt64.lt_irrefl _)
    exact (used_concat (x := x) ⟨sender, plaintext, ⟨some _, c⟩⟩) ▸
      List.nodup_append.2 ⟨h.nodup, List.nodup_singleton _, by
        rintro u hu v hv rfl
        exact hnew (List.mem_singleton.1 hv ▸ hu)⟩

/-- One message. -/
theorem Fresh.send (hs : Ready s) (hkeys : s.clientKey ≠ s.serverKey) (hagrees : Agrees evp s x)
    (h : Fresh s x) (fails : Bool) (sender : Role) (plaintext : Bytes)
    (hcount : x.count sender + 1 < 2 ^ 64) : Fresh s (x.send evp fails sender plaintext) := by
  have hready := hs.of_counted (hagrees.counted sender)
  have hencrypt := hready.encryptBy evp fails plaintext sender
  rw [(hagrees.counted sender).method, (hagrees.counted sender).sendKey] at hencrypt
  unfold SessionPair.send
  rw [hencrypt]
  cases hcreate : AeadCipher.create s.method (s.sendKey sender) true with
  | none =>
      have hsame := h.unused sender plaintext
      rw [← Function.update_eq_self sender x.session] at hsame
      exact hsame
  | some encipher =>
      have hnext := h.used hkeys sender plaintext
        (sealWith evp fails encipher ((x.session sender).counter sender) plaintext).1.ciphertext hcount
      rw [← create_key hcreate] at hnext
      exact hnext

theorem fresh_of_reachable (hs : Ready s) (hkeys : s.clientKey ≠ s.serverKey)
    (hclient : s.clientNonce = 0) (hserver : s.serverNonce = 0) (hx : Reachable evp s x)
    (hcount : ∀ r, x.count r < 2 ^ 64) : Fresh s x := by
  induction hx with
  | refl => exact fresh_start hclient hserver
  | tail hbefore hstep ih =>
      cases hstep with
      | send fails sender plaintext =>
          have hsent := hcount sender
          rw [count_send, if_pos rfl] at hsent
          refine (ih fun r => ?_).send hs hkeys (agrees_of_reachable hs hbefore) fails sender plaintext
            hsent
          have hr := hcount r
          rw [count_send] at hr
          omega

end SessionPair

open EncryptionSession

/-- **Sessions agree and use no nonce twice**: whatever two sessions with one secret are asked to
    encrypt, what they return is decrypted by the other to what it was, at any later time. Nothing
    shorter than 28 bytes is decrypted, and as long as neither has been asked 2^64 times no cipher was
    asked twice with the same key and nonce. -/
theorem encryption_sessions_agree (evp : Evp) (method : EncryptionMethod) (sharedSecret : Bytes)
    (s : EncryptionSession)
    (hderived : EncryptionSession.deriveKeys evp sharedSecret { method := method } = .ok s)
    (hkeys : s.clientKey ≠ s.serverKey) (x : SessionPair) (hx : x.Reachable evp s) :
    (∀ m ∈ x.sent, ∀ c, m.sealing.ciphertext = some c → AeadCipher.Inverts evp method m.plaintext →
      (m.sender = .client → (x.session .server).decryptClient evp c = some m.plaintext) ∧
      (m.sender = .server → (x.session .client).decrypt evp c = some m.plaintext)) ∧
    (∀ c : Bytes, c.length < 28 → (x.session .server).decryptClient evp c = none ∧
      (x.session .client).decrypt evp c = none) ∧
    ((∀ r, x.count r < 2 ^ 64) → x.used.Nodup) := by
  obtain ⟨hready, hmethod, hclient, hserver⟩ := ready_of_deriveKeys hderived
  refine ⟨fun m hm c hc hinverts => ?_, fun c hc => ⟨?_, ?_⟩, fun hcount => ?_⟩
  · have hopened := SessionPair.receivedFrom_sent hready hx hm hc (hmethod ▸ hinverts)
    constructor
    · intro hsender
      rw [hsender] at hopened
      exact hopened
    · intro hsender
      rw [hsender] at hopened
      exact hopened
  · exact SessionPair.receivedFrom_short hready hx hc .client
  · exact SessionPair.receivedFrom_short hready hx hc .server
  · exact (SessionPair.fresh_of_reachable hready hkeys hclient hserver hx hcount).nodup

/-- A library whose ciphertext is the plaintext. -/
def sampleEvp : Evp where
  sha256 message := some (message.take 32)
  encrypt _ _ _ input inl := some (input.take inl.toNat, List.replicate 16 0)
  decrypt _ _ _ input inl _ := some (input.take inl.toNat)

theorem sampleEvp_lawful : sampleEvp.Lawful where
  tag_length _ _ _ _ _ _ _ h := by
    cases Option.some.inj h
    exact List.length_replicate
  body_length _ _ _ input _ _ h := by
    cases Option.some.inj h
    simp
  decrypt _ _ _ input _ _ h := by
    cases Option.some.inj h
    simp [sampleEvp]

/-- A session whose keys are derived from it. -/
def sampleSession : EncryptionSession where
  method := .x25519Chacha20
  ready := true
  clientKey := (ascii "VLESS Encryption: client key" ++ [1, 2, 3]).take 32
  serverKey := (ascii "VLESS Encryption: server key" ++ [1, 2, 3]).take 32
  encryptCipher := AeadCipher.create .x25519Chacha20
    ((ascii "VLESS Encryption: client key" ++ [1, 2, 3]).take 32) true
  decryptCipher := AeadCipher.create .x25519Chacha20
    ((ascii "VLESS Encryption: server key" ++ [1, 2, 3]).take 32) false

/-- Two messages of the client, the first of which fails, and an empty one of the server. -/
def samplePair : SessionPair :=
  (((SessionPair.mk (fun _ => sampleSession) []).send sampleEvp true .client [7]).send sampleEvp false
    .client [8, 9]).send sampleEvp false .server []

theorem encryption_sessions_agree_sample :
    (samplePair.session .server).decryptClient sampleEvp
        (EncryptionSession.nonceBytes 1 ++ [8, 9] ++ List.replicate 16 0) = some [8, 9] ∧
      (samplePair.session .client).decrypt sampleEvp
        (EncryptionSession.nonceBytes 0 ++ List.replicate 16 0) = some [] ∧
      (samplePair.session .client).decrypt sampleEvp [1, 2, 3] = none ∧ samplePair.used.Nodup := by
  have hx : samplePair.Reachable sampleEvp sampleSession :=
    ((Relation.ReflTransGen.refl.tail (.send _ _ _ _)).tail (.send _ _ _ _)).tail (.send _ _ _ _)
  obtain ⟨hopens, hshort, hnonces⟩ := encryption_sessions_agree sampleEvp .x25519Chacha20 [1, 2, 3]
    sampleSession rfl (by decide +kernel) samplePair hx
  have hinverts : ∀ plaintext : Bytes, plaintext.length + 16 < 2 ^ 31 →
      AeadCipher.Inverts sampleEvp .x25519Chacha20 plaintext :=
    fun _ hlen => sampleEvp_lawful.inverts _ hlen
  refine ⟨?_, ?_, ?_, ?_⟩
  · exact (hopens ⟨.client, [8, 9], _⟩ (.tail _ (.head _)) _ rfl (hinverts _ (by decide))).1 rfl
  · exact (hopens ⟨.server, [], _⟩ (.tail _ (.tail _ (.head _))) _ rfl (hinverts _ (by decide))).2 rfl
  · exact (hshort [1, 2, 3] (by decide)).2
  · refine hnonces fun r => ?_
    cases r with
    | client => decide +kernel
    | server => decide +kernel

end Cppvless
