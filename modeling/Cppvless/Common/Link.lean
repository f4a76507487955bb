import Cppvless.Common.InetPton
import Cppvless.Vless.Validator
import Mathlib.Data.List.TakeWhile

set_option autoImplicit false

/-! # Share links

`buildVlessLink` of `common/link.cpp` puts a link together from a host, a UUID, the configuration
and a remark. It is a URI that says all of it again, but only with a host that needs no brackets
(`isShareLink_iff`): an IPv6 address is not given any. -/

namespace Cppvless

/-- `urlEncode` -/
def urlEncode (s : Bytes) : Bytes :=
  s.flatMap fun c =>
    if Uri.isAlpha c || Uri.isDigit c || c = '-'.toUInt8 || c = '_'.toUInt8 || c = '.'.toUInt8 ||
        c = '~'.toUInt8 then [c]
    else
      let hex := ascii "0123456789ABCDEF"
      ['%'.toUInt8, hex.getD (c >>> 4).toNat 0, hex.getD (c &&& 0x0F).toNat 0]

/-- `s.c_str()` as a C function reads it. -/
def cStr (s : Bytes) : Bytes := s.takeWhile (· ≠ 0)

/-- `isValidIp` -/
def isValidIp (s : Bytes) : Bool := inetPton4 (cStr s) || inetPton6 (cStr s)

/-- `linkTarget`: the port and the security. -/
def linkTarget (cfg : ServerConfig) : UInt16 × Bytes :=
  if cfg.tls.enabled then (cfg.tls.port, ascii "tls") else (cfg.port, ascii "none")

/-- `buildVlessLink` -/
def buildVlessLink (host : Bytes) (cfg : ServerConfig) (user : UserConfig) (remark : Bytes) :
    Bytes :=
  if host = [] ∨ user.uuid = [] then []
  else
    let (port, security) := linkTarget cfg
    let link := ascii "vless://" ++ user.uuid ++ ascii "@" ++ host ++ ascii ":" ++
      decimal port.toNat ++ ascii "?encryption=none&security=" ++ security ++
      ascii "&type=tcp&headerType=none"
    let link :=
      if security = ascii "tls" then
        -- a client falls back on the address where the host is one
        let link := if !isValidIp host then link ++ (ascii "&sni=" ++ urlEncode host) else link
        let link := link ++ ascii "&fp=chrome"
        if cfg.tls.certFile = [] then
          if cfg.tls.certSha256 ≠ [] then
            link ++ (ascii "&pcs=" ++ cfg.tls.certSha256) ++
              (ascii "&pinSHA256=" ++ cfg.tls.certSha256)
          else link ++ ascii "&allowInsecure=1"
        else link
      else link
    if remark ≠ [] then link ++ (ascii "#" ++ urlEncode remark) else link

/-! ## What a link is to say -/

/-- Letters, digits, hyphens, underscores and dots: the texts of DNS names are among these. -/
def IsDnsName (host : Bytes) : Prop :=
  host ≠ [] ∧ ∀ c ∈ host, (Uri.isAlpha c || Uri.isDigit c || c = '-'.toUInt8 || c = '_'.toUInt8 ||
    c = '.'.toUInt8) = true

/-- The host of a URI stands for `host`: an IPv6 address stands in brackets. -/
def Denotes (component host : Bytes) : Prop :=
  component = if inetPton6 host then '['.toUInt8 :: (host ++ [']'.toUInt8]) else host

/-- The parameters for a certificate that is not from a file. -/
def pinParams (cfg : ServerConfig) : List (Bytes × Bytes) :=
  if cfg.tls.certFile = [] then
    if cfg.tls.certSha256 = [] then [(ascii "allowInsecure", ascii "1")]
    else [(ascii "pcs", cfg.tls.certSha256), (ascii "pinSHA256", cfg.tls.certSha256)]
  else []

/-- The server name, if the host is one. -/
def sniParams (host : Bytes) : List (Bytes × Bytes) :=
  if inetPton4 host || inetPton6 host then [] else [(ascii "sni", host)]

/-- The parameters a client is to find behind the first one. -/
def linkParams (host : Bytes) (cfg : ServerConfig) : List (Bytes × Bytes) :=
  [(ascii "security", if cfg.tls.enabled then ascii "tls" else ascii "none"),
    (ascii "type", ascii "tcp"), (ascii "headerType", ascii "none")] ++
  if cfg.tls.enabled then sniParams host ++ [(ascii "fp", ascii "chrome")] ++ pinParams cfg else []

/-- The link is a URI that says what it was made of. -/
def IsShareLink (host : Bytes) (cfg : ServerConfig) (user : UserConfig) (remark link : Bytes) :
    Prop :=
  ∃ component port query fragment,
    Uri.parse inetPton6 link =
      some ⟨ascii "vless", ⟨some user.uuid, component, some port⟩, [], some query, fragment⟩ ∧
    Denotes component host ∧
    leadingDigits port = (if cfg.tls.enabled then cfg.tls.port else cfg.port).toNat ∧
    Uri.parseParams query = some ((ascii "encryption", ascii "none") :: linkParams host cfg) ∧
    Uri.percentDecode (fragment.getD []) = some remark

/-! ## The parts -/

theorem urlEncode_append (a b : Bytes) : urlEncode (a ++ b) = urlEncode a ++ urlEncode b :=
  List.flatMap_append

/-- A byte is left as it is or coded with its two halves. -/
theorem urlEncode_singleton (c : UInt8) :
    let hex (d : UInt8) : UInt8 := (ascii "0123456789ABCDEF").getD d.toNat 0
    (urlEncode [c] = [c] ∧ Uri.isQuery c = true ∧ c ≠ '%'.toUInt8) ∨
    (urlEncode [c] = ['%'.toUInt8, hex (c >>> 4), hex (c &&& 0x0F)] ∧
      Uri.digitValue (hex (c >>> 4)) = some (c >>> 4) ∧
      Uri.digitValue (hex (c &&& 0x0F)) = some (c &&& 0x0F) ∧ (c >>> 4) * 16 + (c &&& 0x0F) = c) :=
  forall_uint8 (p := fun c =>
    let hex (d : UInt8) : UInt8 := (ascii "0123456789ABCDEF").getD d.toNat 0
    (urlEncode [c] = [c] ∧ Uri.isQuery c = true ∧ c ≠ '%'.toUInt8) ∨
    (urlEncode [c] = ['%'.toUInt8, hex (c >>> 4), hex (c &&& 0x0F)] ∧
      Uri.digitValue (hex (c >>> 4)) = some (c >>> 4) ∧
      Uri.digitValue (hex (c &&& 0x0F)) = some (c &&& 0x0F) ∧ (c >>> 4) * 16 + (c &&& 0x0F) = c))
    (by decide +kernel) c

theorem urlEncode_byte (c : UInt8) (rest : Bytes) :
    Uri.percentDecode (urlEncode [c] ++ rest) = (Uri.percentDecode rest).map (c :: ·) ∧
      Uri.WellFormed Uri.isQuery (urlEncode [c]) = true := by
  rcases urlEncode_singleton c with ⟨henc, hquery, hpercent⟩ | ⟨henc, hhi, hlo, hbyte⟩
  · rw [henc, List.singleton_append, Uri.percentDecode_cons hpercent,
      Uri.wellFormed_cons hpercent, hquery]
    exact ⟨rfl, rfl⟩
  · rw [henc]
    constructor
    · exact (Uri.percentDecode_coded hhi hlo rest).trans (by rw [hbyte])
    · rw [Uri.WellFormed, if_pos rfl, hhi, hlo]
      rfl

/-- **What is encoded is well-formed in a query and in a fragment, and is decoded.** -/
theorem urlEncode_decode (s : Bytes) :
    Uri.percentDecode (urlEncode s) = some s ∧ Uri.WellFormed Uri.isQuery (urlEncode s) = true := by
  induction s with
  | nil => exact ⟨rfl, rfl⟩
  | cons c s ih =>
      have hsplit : urlEncode (c :: s) = urlEncode [c] ++ urlEncode s := urlEncode_append [c] s
      obtain ⟨hdecode, hformed⟩ := urlEncode_byte c (urlEncode s)
      rw [hsplit, hdecode, ih.1]
      exact ⟨rfl, Uri.wellFormed_append hformed ih.2⟩

/-- What the bytes of the parts of a link are: an unreserved byte is not encoded, and those of
    names, of hexadecimal digits in either case and of UUIDs are unreserved. -/
theorem unreserved_table (c : UInt8) :
    (Uri.isUnreserved c = true → urlEncode [c] = [c]) ∧
    ((Uri.isAlpha c || Uri.isDigit c || c = '-'.toUInt8 || c = '_'.toUInt8 ||
      c = '.'.toUInt8) = true → Uri.isUnreserved c = true) ∧
    ((Uri.digitValue c).isSome = true → Uri.isUnreserved c = true) ∧
    ((Uri.digitValue (toLower c)).isSome = true → Uri.isUnreserved c = true) ∧
    (hexByte c).all (fun d => (Uri.digitValue d).isSome) = true :=
  forall_uint8 (p := fun c =>
    (Uri.isUnreserved c = true → urlEncode [c] = [c]) ∧
    ((Uri.isAlpha c || Uri.isDigit c || c = '-'.toUInt8 || c = '_'.toUInt8 ||
      c = '.'.toUInt8) = true → Uri.isUnreserved c = true) ∧
    ((Uri.digitValue c).isSome = true → Uri.isUnreserved c = true) ∧
    ((Uri.digitValue (toLower c)).isSome = true → Uri.isUnreserved c = true) ∧
    (hexByte c).all (fun d => (Uri.digitValue d).isSome) = true) (by decide +kernel) c

theorem urlEncode_eq_self {s : Bytes} (h : ∀ c ∈ s, Uri.isUnreserved c = true) :
    urlEncode s = s := by
  induction s with
  | nil => rfl
  | cons c s ih =>
      have hplain := (unreserved_table c).1
      have hsplit : urlEncode (c :: s) = urlEncode [c] ++ urlEncode s := urlEncode_append [c] s
      rw [hsplit, hplain (h c List.mem_cons_self), ih fun x hx => h x (List.mem_cons_of_mem c hx)]
      rfl

theorem unreserved_of_isDnsName {host : Bytes} (h : IsDnsName host) :
    ∀ c ∈ host, Uri.isUnreserved c = true := by
  intro c hc
  exact (unreserved_table c).2.1 (h.2 c hc)

theorem unreserved_of_inetPton4 {host : Bytes} (h : inetPton4 host = true) :
    ∀ c ∈ host, Uri.isUnreserved c = true := by
  intro c hc
  rcases inetPton4_chars h c hc with hdigit | rfl
  · simp [Uri.isUnreserved, hdigit]
  · decide

theorem unreserved_of_hex {s : Bytes} (h : ∀ c ∈ s, (Uri.digitValue c).isSome = true) :
    ∀ c ∈ s, Uri.isUnreserved c = true := by
  intro c hc
  exact (unreserved_table c).2.2.1 (h c hc)

/-- The text of a UUID consists of digits and dashes. -/
theorem unreserved_of_parseUuid {text : Bytes} {uuid : Uuid}
    (h : Validator.parseUuid text = some uuid) : ∀ c ∈ text, Uri.isUnreserved c = true := by
  have hspells := (Validator.parseUuid_eq_some text uuid).1 h
  intro c hc
  by_cases hdash : c = '-'.toUInt8
  · rw [hdash]
    decide
  · have hmem : toLower c ∈ uuid.toList.flatMap hexByte := by
      rw [← hspells]
      exact List.mem_map_of_mem (List.mem_filter.2 ⟨hc, by simpa using hdash⟩)
    obtain ⟨b, -, hb⟩ := List.mem_flatMap.1 hmem
    have hdigit : (Uri.digitValue (toLower c)).isSome = true :=
      List.all_eq_true.1 (unreserved_table b).2.2.2.2 _ hb
    exact (unreserved_table c).2.2.2.1 hdigit

theorem parseUuid_ne_nil {text : Bytes} {uuid : Uuid}
    (h : Validator.parseUuid text = some uuid) : text ≠ [] := by
  rintro rfl
  cases h

theorem decimal_port (port : UInt16) :
    (∀ c ∈ decimal port.toNat, Uri.isDigit c = true) ∧
      leadingDigits (decimal port.toNat) = port.toNat := by
  have hdecimal : decimal port.toNat = (Nat.toDigits 10 port.toNat).map Char.toUInt8 := by
    rw [decimal, if_neg (by omega), Int.natAbs_natCast]
  rw [hdecimal]
  refine ⟨fun c hc => JsonParser.isDigit_of_mem_toDigits hc, ?_⟩
  have hread : leadingDigits ((Nat.toDigits 10 port.toNat).map Char.toUInt8 ++ []) = port.toNat :=
    leadingDigits_toDigits port.toNat rfl
  rwa [List.append_nil] at hread

/-- The literals of the link. -/
theorem link_literals :
    ascii "vless://" = ascii "vless" ++ [':'.toUInt8, '/'.toUInt8, '/'.toUInt8] ∧
    ascii "@" = ['@'.toUInt8] ∧ ascii ":" = [':'.toUInt8] ∧ ascii "#" = ['#'.toUInt8] ∧
    ascii "?encryption=none&security=" = '?'.toUInt8 ::
      (Uri.renderParam (ascii "encryption", ascii "none") ++
        '&'.toUInt8 :: (ascii "security" ++ ['='.toUInt8])) ∧
    ascii "&type=tcp&headerType=none" =
      '&'.toUInt8 :: (Uri.renderParam (ascii "type", ascii "tcp") ++
        '&'.toUInt8 :: Uri.renderParam (ascii "headerType", ascii "none")) ∧
    ascii "&sni=" = '&'.toUInt8 :: (ascii "sni" ++ ['='.toUInt8]) ∧
    ascii "&fp=chrome" = '&'.toUInt8 :: Uri.renderParam (ascii "fp", ascii "chrome") ∧
    ascii "&pcs=" = '&'.toUInt8 :: (ascii "pcs" ++ ['='.toUInt8]) ∧
    ascii "&pinSHA256=" = '&'.toUInt8 :: (ascii "pinSHA256" ++ ['='.toUInt8]) ∧
    ascii "&allowInsecure=1" = '&'.toUInt8 :: Uri.renderParam (ascii "allowInsecure", ascii "1") := by
  decide +kernel

/-- What stands before the query, behind the scheme. -/
def linkAuthority (host : Bytes) (cfg : ServerConfig) (user : UserConfig) : Bytes :=
  user.uuid ++ '@'.toUInt8 :: (host ++
    ':'.toUInt8 :: decimal (if cfg.tls.enabled then cfg.tls.port else cfg.port).toNat)

/-- The link as a URI put together. -/
theorem buildVlessLink_eq {host : Bytes} {user : UserConfig} (hhost : host ≠ [])
    (huuid : user.uuid ≠ []) (hip : isValidIp host = (inetPton4 host || inetPton6 host))
    (hname : isValidIp host = false → urlEncode host = host) (cfg : ServerConfig) (remark : Bytes) :
    buildVlessLink host cfg user remark =
      ascii "vless" ++ ':'.toUInt8 :: '/'.toUInt8 :: '/'.toUInt8 :: (linkAuthority host cfg user ++
        '?'.toUInt8 :: (Uri.renderParams (ascii "encryption", ascii "none") (linkParams host cfg) ++
          (if remark = [] then none else some (urlEncode remark)).elim [] ('#'.toUInt8 :: ·))) := by
  obtain ⟨hscheme, hat, hcolon, hhash, hquery, htype, hsni, hfp, hpcs, hpin, hinsecure⟩ :=
    link_literals
  have hfragment : ∀ link : Bytes,
      (if remark ≠ [] then link ++ (ascii "#" ++ urlEncode remark) else link) =
        link ++ (if remark = [] then none else some (urlEncode remark)).elim [] ('#'.toUInt8 :: ·) := by
    intro link
    by_cases hremark : remark = []
    · simp [hremark]
    · simp [hremark, hhash]
  unfold buildVlessLink linkTarget linkParams sniParams pinParams linkAuthority
  rw [if_neg (by simp [hhost, huuid])]
  dsimp only
  rw [hfragment]
  have hsecurity : ascii "none" ≠ ascii "tls" := by decide
  generalize (if remark = [] then none else some (urlEncode remark)).elim []
    ('#'.toUInt8 :: ·) = tail
  cases htls : cfg.tls.enabled with
  | false =>
      simp [hsecurity, hscheme, hat, hcolon, hquery, htype, Uri.renderParams, Uri.renderParam]
  | true =>
      rw [← hip]
      cases hvalid : isValidIp host with
      | true =>
          by_cases hfile : cfg.tls.certFile = []
          · by_cases hsha : cfg.tls.certSha256 = []
            · simp [hfile, hsha, hscheme, hat, hcolon, hquery, htype, hfp, hinsecure,
                Uri.renderParams, Uri.renderParam]
            · simp [hfile, hsha, hscheme, hat, hcolon, hquery, htype, hfp, hpcs, hpin,
                Uri.renderParams, Uri.renderParam]
          · simp [hfile, hscheme, hat, hcolon, hquery, htype, hfp, Uri.renderParams,
              Uri.renderParam]
      | false =>
          rw [hname hvalid]
          by_cases hfile : cfg.tls.certFile = []
          · by_cases hsha : cfg.tls.certSha256 = []
            · simp [hfile, hsha, hscheme, hat, hcolon, hquery, htype, hsni, hfp, hinsecure,
                Uri.renderParams, Uri.renderParam]
            · simp [hfile, hsha, hscheme, hat, hcolon, hquery, htype, hsni, hfp, hpcs, hpin,
                Uri.renderParams, Uri.renderParam]
          · simp [hfile, hscheme, hat, hcolon, hquery, htype, hsni, hfp, Uri.renderParams,
              Uri.renderParam]

/-! ## The hosts -/

/-- A host: a DNS name, an IPv4 address or an IPv6 address. -/
def IsHost (host : Bytes) : Prop :=
  IsDnsName host ∨ inetPton4 host = true ∨ inetPton6 host = true

theorem IsHost.ne_nil {host : Bytes} (h : IsHost host) : host ≠ [] := by
  rintro rfl
  rcases h with h | h | h
  · exact h.1 rfl
  · cases h
  · cases h

/-- But for an IPv6 address a host consists of unreserved characters. -/
theorem IsHost.unreserved {host : Bytes} (h : IsHost host) (h6 : inetPton6 host ≠ true) :
    ∀ c ∈ host, Uri.isUnreserved c = true := by
  rcases h with h | h | h
  · exact unreserved_of_isDnsName h
  · exact unreserved_of_inetPton4 h
  · exact absurd h h6

/-- The characters of a host. None of them ends an authority. -/
theorem IsHost.chars {host : Bytes} (h : IsHost host) :
    ∀ c ∈ host, Uri.isUnreserved c = true ∨ c = ':'.toUInt8 := by
  intro c hc
  by_cases h6 : inetPton6 host = true
  · rcases inetPton6_chars h6 c hc with hdigit | rfl | rfl
    · exact .inl (unreserved_of_hex (s := [c]) (by simpa using hdigit) c List.mem_cons_self)
    · exact .inr rfl
    · exact .inl (by decide)
  · exact .inl (h.unreserved h6 c hc)

theorem IsHost.not_mem {host : Bytes} (h : IsHost host) {x : UInt8}
    (hx : Uri.isUnreserved x = false) (hcolon : x ≠ ':'.toUInt8) : x ∉ host := by
  intro hmem
  rcases h.chars x hmem with hx' | hx'
  · rw [hx'] at hx
    cases hx
  · exact hcolon hx'

theorem IsHost.isValidIp {host : Bytes} (h : IsHost host) :
    isValidIp host = (inetPton4 host || inetPton6 host) := by
  have hzero : cStr host = host := by
    rw [cStr, List.takeWhile_eq_self_iff]
    intro c hc
    have : c ≠ 0 := by
      rintro rfl
      exact h.not_mem (by decide) (by decide) hc
    simpa using this
  rw [Cppvless.isValidIp, hzero]

/-- An IPv6 address does not begin with a bracket and has a colon. -/
theorem inetPton6_head {host : Bytes} (h : inetPton6 host = true) :
    host.head? ≠ some '['.toUInt8 ∧ ':'.toUInt8 ∈ host := by
  constructor
  · intro hhead
    obtain ⟨rest, hrest⟩ := List.head?_eq_some_iff.1 hhead
    have hmem : '['.toUInt8 ∈ host := by
      rw [hrest]
      exact List.mem_cons_self
    exact IsHost.not_mem (.inr (.inr h)) (by decide) (by decide) hmem
  · have := inetPton6_colons h
    exact List.count_pos_iff.1 (by omega)

theorem unreserved_of_all {s : Bytes} (h : s.all Uri.isUnreserved = true) :
    ∀ c ∈ s, Uri.isUnreserved c = true :=
  List.all_eq_true.1 h

theorem plain_of_all {param : Bytes × Bytes} (hname : param.1.all Uri.isUnreserved = true)
    (hvalue : param.2.all Uri.isUnreserved = true) : Uri.Plain param :=
  ⟨unreserved_of_all hname, unreserved_of_all hvalue⟩

section Plain

variable {host : Bytes} {cfg : ServerConfig}

theorem sniParams_plain (hhost : IsHost host) : ∀ param ∈ sniParams host, Uri.Plain param := by
  have hsni : ∀ c ∈ ascii "sni", Uri.isUnreserved c = true := unreserved_of_all (by decide)
  unfold sniParams
  split
  · exact List.forall_mem_nil _
  · next hip =>
      have h6 : inetPton6 host ≠ true := fun h6 => hip (by simp [h6])
      exact List.forall_mem_singleton.2 ⟨hsni, hhost.unreserved h6⟩

theorem pinParams_plain (hsha : ∀ c ∈ cfg.tls.certSha256, (Uri.digitValue c).isSome = true) :
    ∀ param ∈ pinParams cfg, Uri.Plain param := by
  have hhex := unreserved_of_hex hsha
  have hpcs : ∀ c ∈ ascii "pcs", Uri.isUnreserved c = true := unreserved_of_all (by decide)
  have hpin : ∀ c ∈ ascii "pinSHA256", Uri.isUnreserved c = true := unreserved_of_all (by decide)
  unfold pinParams
  split
  · split
    · exact List.forall_mem_singleton.2 (plain_of_all (by decide) (by decide))
    · exact List.forall_mem_cons.2 ⟨⟨hpcs, hhex⟩, List.forall_mem_singleton.2 ⟨hpin, hhex⟩⟩
  · exact List.forall_mem_nil _

theorem linkParams_plain (hhost : IsHost host)
    (hsha : ∀ c ∈ cfg.tls.certSha256, (Uri.digitValue c).isSome = true) :
    ∀ param ∈ (ascii "encryption", ascii "none") :: linkParams host cfg, Uri.Plain param := by
  have hfront : ∀ security : Bytes, (∀ c ∈ security, Uri.isUnreserved c = true) →
      ∀ param ∈ [(ascii "encryption", ascii "none"), (ascii "security", security),
        (ascii "type", ascii "tcp"), (ascii "headerType", ascii "none")], Uri.Plain param := by
    intro security hsecurity
    have hkey : ∀ c ∈ ascii "security", Uri.isUnreserved c = true := unreserved_of_all (by decide)
    simp only [List.forall_mem_cons]
    exact ⟨plain_of_all (by decide) (by decide), ⟨hkey, hsecurity⟩,
      plain_of_all (by decide) (by decide), plain_of_all (by decide) (by decide),
      List.forall_mem_nil _⟩
  unfold linkParams
  split
  · have htls := hfront (ascii "tls") (unreserved_of_all (by decide))
    have hfp : ∀ param ∈ [(ascii "fp", ascii "chrome")], Uri.Plain param :=
      List.forall_mem_singleton.2 (plain_of_all (by decide) (by decide))
    exact List.forall_mem_append.2 ⟨htls, List.forall_mem_append.2
      ⟨List.forall_mem_append.2 ⟨sniParams_plain hhost, hfp⟩, pinParams_plain hsha⟩⟩
  · exact List.forall_mem_append.2 ⟨hfront _ (unreserved_of_all (by decide)), List.forall_mem_nil _⟩

end Plain

/-- **A share link is a URI that says what it was made of exactly if the host is no IPv6 address.** -/
theorem isShareLink_iff (host : Bytes) (cfg : ServerConfig) (user : UserConfig) (remark : Bytes)
    (uuid : Uuid) (hhost : IsHost host) (huuid : Validator.parseUuid user.uuid = some uuid)
    (hsha : ∀ c ∈ cfg.tls.certSha256, (Uri.digitValue c).isSome = true) :
    IsShareLink host cfg user remark (buildVlessLink host cfg user remark) ↔
      inetPton6 host = false := by
  have huser := unreserved_of_parseUuid huuid
  obtain ⟨hport, hvalue⟩ := decimal_port (if cfg.tls.enabled then cfg.tls.port else cfg.port)
  have hname : isValidIp host = false → urlEncode host = host := by
    intro hvalid
    rw [hhost.isValidIp, Bool.or_eq_false_iff] at hvalid
    exact urlEncode_eq_self (hhost.unreserved (by simp [hvalid.2]))
  have hauthority : ∀ x : UInt8, Uri.isUnreserved x = false → x ≠ ':'.toUInt8 → x ≠ '@'.toUInt8 →
      Uri.isDigit x = false → x ∉ linkAuthority host cfg user := by
    intro x hx hcolon hat hdigit hmem
    simp only [linkAuthority, List.mem_append, List.mem_cons] at hmem
    rcases hmem with hmem | hmem | hmem | hmem | hmem
    · exact Uri.ne_of_isUnreserved (huser x hmem) hx rfl
    · exact hat hmem
    · exact hhost.not_mem hx hcolon hmem
    · exact hcolon hmem
    · rw [hport x hmem] at hdigit
      cases hdigit
  have hplain : ∀ param ∈ (ascii "encryption", ascii "none") :: linkParams host cfg,
      Uri.Plain param := linkParams_plain hhost hsha
  obtain ⟨hparams, hquery⟩ := Uri.parseParams_render _ _ hplain
  obtain ⟨hdecode, hformed⟩ := urlEncode_decode remark
  generalize hfragment : (if remark = [] then none else some (urlEncode remark)) = fragment
  have hfragment' : Uri.WellFormed Uri.isQuery (fragment.getD []) = true ∧
      Uri.percentDecode (fragment.getD []) = some remark := by
    by_cases hremark : remark = []
    · rw [← hfragment, if_pos hremark, hremark]
      exact ⟨rfl, rfl⟩
    · rw [← hfragment, if_neg hremark]
      exact ⟨hformed, hdecode⟩
  have hparse : Uri.parse inetPton6 (buildVlessLink host cfg user remark) =
      (Uri.parseAuthority inetPton6 (linkAuthority host cfg user)).map fun authority =>
        ⟨ascii "vless", authority, [],
          some (Uri.renderParams (ascii "encryption", ascii "none") (linkParams host cfg)),
          fragment⟩ := by
    rw [buildVlessLink_eq hhost.ne_nil (parseUuid_ne_nil huuid) hhost.isValidIp hname, hfragment]
    exact Uri.parse_compose (by decide)
      ⟨hauthority _ (by decide) (by decide) (by decide) (by decide),
        hauthority _ (by decide) (by decide) (by decide) (by decide),
        hauthority _ (by decide) (by decide) (by decide) (by decide)⟩ hquery hfragment'.1
  have huserinfo : Uri.WellFormed Uri.isUserinfo user.uuid = true :=
    Uri.wellFormed_unreserved (fun c hc => by simp [Uri.isUserinfo, Uri.isName, hc]) huser
  rw [linkAuthority, Uri.parseAuthority_userinfo huserinfo] at hparse
  constructor
  · rintro ⟨component, port, query, fragment', hsome, -⟩
    rw [← Bool.not_eq_true]
    intro h6
    obtain ⟨hhead, hcolon⟩ := inetPton6_head h6
    rw [hparse, Uri.parseHostPort_colon hhead hcolon] at hsome
    cases hsome
  · intro h6
    have hwell : Uri.WellFormed Uri.isName host = true :=
      Uri.wellFormed_unreserved (fun c hc => by simp [Uri.isName, hc])
        (hhost.unreserved (by simp [h6]))
    rw [Uri.parseHostPort_name hwell hport] at hparse
    exact ⟨host, _, _, fragment, hparse, by rw [Denotes, h6]; rfl, hvalue, hparams, hfragment'.2⟩

def sampleUser : UserConfig := { uuid := ascii "0d5e0e5e-6a3a-4c1b-9f2d-7e8c5b4a3f21" }

def sampleTls : ServerConfig :=
  { tls := { enabled := true, port := 443, certSha256 := ascii "00ff" } }

theorem isShareLink_sample : IsShareLink (ascii "vpn.example.org") sampleTls sampleUser
    [0x20, 0x23, 0xe4] (buildVlessLink (ascii "vpn.example.org") sampleTls sampleUser
      [0x20, 0x23, 0xe4]) := by
  have hname : IsHost (ascii "vpn.example.org") :=
    .inl ⟨by decide, List.all_eq_true.1 (by decide)⟩
  have hsha : ∀ c ∈ sampleTls.tls.certSha256, (Uri.digitValue c).isSome = true :=
    List.all_eq_true.1 (by decide)
  exact (isShareLink_iff (ascii "vpn.example.org") sampleTls sampleUser [0x20, 0x23, 0xe4]
    ⟨[0x0d, 0x5e, 0x0e, 0x5e, 0x6a, 0x3a, 0x4c, 0x1b, 0x9f, 0x2d, 0x7e, 0x8c, 0x5b, 0x4a, 0x3f,
      0x21], rfl⟩ hname (by decide +kernel) hsha).2 (by decide)

/-- With an IPv6 address there is no URI. -/
theorem ipv6Link_not_isShareLink :
    IsHost (ascii "2001:db8::1") ∧ (Validator.parseUuid sampleUser.uuid).isSome = true ∧
      ¬IsShareLink (ascii "2001:db8::1") sampleTls sampleUser []
        (buildVlessLink (ascii "2001:db8::1") sampleTls sampleUser []) := by
  have hsample : inetPton6 (ascii "2001:db8::1") = true ∧
      (Validator.parseUuid sampleUser.uuid).isSome = true ∧
      Uri.parse inetPton6 (buildVlessLink (ascii "2001:db8::1") sampleTls sampleUser []) =
        none := by
    decide +kernel
  obtain ⟨haddress, huuid, hnone⟩ := hsample
  refine ⟨.inr (.inr haddress), huuid, ?_⟩
  rintro ⟨component, port, query, fragment, hsome, -⟩
  rw [hnone] at hsome
  cases hsome

end Cppvless
