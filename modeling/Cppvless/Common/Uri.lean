import Mathlib.Data.List.Basic

set_option autoImplicit false

/-! # URIs

The generic syntax of RFC 3986 for URIs with an authority, over bytes: what a URI is made of and how
it is taken apart (`parse`), percent-coding, and a query of parameters. `parse_compose` and
`parseParams_render` say that a URI put together from well-formed parts is taken apart into them.

What counts as the text of an IPv6 address is a parameter. -/

namespace Uri

/-! ## Characters -/

def isAlpha (c : UInt8) : Bool :=
  ('a'.toUInt8 ≤ c && c ≤ 'z'.toUInt8) || ('A'.toUInt8 ≤ c && c ≤ 'Z'.toUInt8)

def isDigit (c : UInt8) : Bool := '0'.toUInt8 ≤ c && c ≤ '9'.toUInt8

def isUnreserved (c : UInt8) : Bool :=
  isAlpha c || isDigit c || "-._~".toList.any (·.toUInt8 = c)

def isSubDelim (c : UInt8) : Bool := "!$&'()*+,;=".toList.any (·.toUInt8 = c)

/-- The characters of a registered name. -/
def isName (c : UInt8) : Bool := isUnreserved c || isSubDelim c

def isUserinfo (c : UInt8) : Bool := isName c || c = ':'.toUInt8

def isPchar (c : UInt8) : Bool := isUserinfo c || c = '@'.toUInt8

/-- The characters of a path. -/
def isPath (c : UInt8) : Bool := isPchar c || c = '/'.toUInt8

/-- The characters of a query and of a fragment. -/
def isQuery (c : UInt8) : Bool := isPath c || c = '?'.toUInt8

/-- The value of a hexadecimal digit. -/
def digitValue (c : UInt8) : Option UInt8 :=
  if isDigit c then some (c - '0'.toUInt8)
  else if 'a'.toUInt8 ≤ c ∧ c ≤ 'f'.toUInt8 then some (10 + (c - 'a'.toUInt8))
  else if 'A'.toUInt8 ≤ c ∧ c ≤ 'F'.toUInt8 then some (10 + (c - 'A'.toUInt8))
  else none

/-! ## Percent-coding -/

/-- Every byte is one of the allowed characters or part of a percent-coded one. -/
def WellFormed (allowed : UInt8 → Bool) : List UInt8 → Bool
  | [] => true
  | c :: rest =>
      if c = '%'.toUInt8 then
        match rest with
        | hi :: lo :: rest =>
            (digitValue hi).isSome && (digitValue lo).isSome && WellFormed allowed rest
        | _ => false
      else allowed c && WellFormed allowed rest

def percentDecode : List UInt8 → Option (List UInt8)
  | [] => some []
  | c :: rest =>
      if c = '%'.toUInt8 then
        match rest with
        | hi :: lo :: rest => do
            let hi ← digitValue hi
            let lo ← digitValue lo
            let rest ← percentDecode rest
            some ((hi * 16 + lo) :: rest)
        | _ => none
      else (percentDecode rest).map (c :: ·)

/-! ## Taking a URI apart -/

/-- What stands before the first `c`, and behind it if there is one. -/
def cut (c : UInt8) : List UInt8 → List UInt8 × Option (List UInt8)
  | [] => ([], none)
  | b :: rest => if b = c then ([], some rest) else (b :: (cut c rest).1, (cut c rest).2)

structure Authority where
  userinfo : Option (List UInt8)
  host : List UInt8
  port : Option (List UInt8)
  deriving DecidableEq

structure Components where
  scheme : List UInt8
  authority : Authority
  path : List UInt8
  query : Option (List UInt8)
  fragment : Option (List UInt8)
  deriving DecidableEq

/-- `scheme` -/
def isScheme : List UInt8 → Bool
  | [] => false
  | c :: rest => isAlpha c && rest.all fun c => isAlpha c || isDigit c || "+-.".toList.any (·.toUInt8 = c)

/-- `IPvFuture` -/
def isIpvFuture : List UInt8 → Bool
  | [] => false
  | c :: rest =>
      let version := cut '.'.toUInt8 rest
      let address := version.2.getD []
      (c = 'v'.toUInt8 || c = 'V'.toUInt8) && version.1 ≠ [] &&
        version.1.all (fun c => (digitValue c).isSome) && address ≠ [] && address.all isUserinfo

variable (isIpv6 : List UInt8 → Bool)

/-- `host [ ":" port ]` -/
def parseHostPort (s : List UInt8) : Option (List UInt8 × Option (List UInt8)) :=
  if s.head? = some '['.toUInt8 then
    match cut ']'.toUInt8 s.tail with
    | (address, some rest) =>
        if isIpv6 address || isIpvFuture address then
          let host := '['.toUInt8 :: (address ++ [']'.toUInt8])
          match rest with
          | [] => some (host, none)
          | c :: port => if c = ':'.toUInt8 && port.all isDigit then some (host, some port) else none
        else none
    | (_, none) => none
  else
    let (host, port) := cut ':'.toUInt8 s
    if WellFormed isName host && (port.getD []).all isDigit then some (host, port) else none

/-- `[ userinfo "@" ] host [ ":" port ]` -/
def parseAuthority (s : List UInt8) : Option Authority :=
  match cut '@'.toUInt8 s with
  | (userinfo, some rest) =>
      if WellFormed isUserinfo userinfo then
        (parseHostPort isIpv6 rest).map fun hp => ⟨some userinfo, hp.1, hp.2⟩
      else none
  | (_, none) => (parseHostPort isIpv6 s).map fun hp => ⟨none, hp.1, hp.2⟩

/-- `scheme "://" authority path [ "?" query ] [ "#" fragment ]` -/
def parse (s : List UInt8) : Option Components :=
  let (s, fragment) := cut '#'.toUInt8 s
  let (s, query) := cut '?'.toUInt8 s
  let (scheme, rest) := cut ':'.toUInt8 s
  match rest with
  | some (a :: b :: rest) =>
      let (authority, path) := cut '/'.toUInt8 rest
      let path := path.elim [] ('/'.toUInt8 :: ·)
      if a = '/'.toUInt8 ∧ b = '/'.toUInt8 ∧ isScheme scheme ∧ WellFormed isPath path ∧
          WellFormed isQuery (query.getD []) ∧ WellFormed isQuery (fragment.getD []) then
        (parseAuthority isIpv6 authority).map fun authority =>
          ⟨scheme, authority, path, query, fragment⟩
      else none
  | _ => none

/-- The parameters of a query. -/
def parseParams (query : List UInt8) : Option (List (List UInt8 × List UInt8)) :=
  (query.splitOn '&'.toUInt8).mapM fun param => do
    match cut '='.toUInt8 param with
    | (key, some value) => some (← percentDecode key, ← percentDecode value)
    | (_, none) => none

/-! ## Putting one together -/

section Cut

variable {c : UInt8}

theorem cut_append {a : List UInt8} (h : c ∉ a) (b : List UInt8) :
    cut c (a ++ c :: b) = (a, some b) := by
  induction a with
  | nil => simp [cut]
  | cons x a ih =>
      rw [List.mem_cons, not_or] at h
      rw [List.cons_append, cut, if_neg (Ne.symm h.1), ih h.2]

theorem cut_of_not_mem {a : List UInt8} (h : c ∉ a) : cut c a = (a, none) := by
  induction a with
  | nil => rfl
  | cons x a ih =>
      rw [List.mem_cons, not_or] at h
      rw [cut, if_neg (Ne.symm h.1), ih h.2]

/-- What is cut off begins with the first occurrence. -/
theorem cut_of_mem {s : List UInt8} (h : c ∈ s) :
    ∃ a b, s = a ++ c :: b ∧ c ∉ a ∧ cut c s = (a, some b) := by
  obtain ⟨a, b, rfl, ha⟩ := List.eq_append_cons_of_mem h
  exact ⟨a, b, rfl, ha, cut_append ha b⟩

end Cut

section WellFormed

variable {allowed : UInt8 → Bool}

theorem wellFormed_cons {c : UInt8} (hc : c ≠ '%'.toUInt8) (rest : List UInt8) :
    WellFormed allowed (c :: rest) = (allowed c && WellFormed allowed rest) := by
  rw [WellFormed.eq_def]
  exact if_neg hc

theorem percentDecode_cons {c : UInt8} (hc : c ≠ '%'.toUInt8) (rest : List UInt8) :
    percentDecode (c :: rest) = (percentDecode rest).map (c :: ·) := by
  rw [percentDecode.eq_def]
  exact if_neg hc

theorem wellFormed_append {a b : List UInt8} (ha : WellFormed allowed a = true)
    (hb : WellFormed allowed b = true) : WellFormed allowed (a ++ b) = true := by
  fun_induction WellFormed allowed a with
  | case1 => exact hb
  | case2 hi lo rest ih =>
      simp only [Bool.and_eq_true] at ha
      simp only [List.cons_append, WellFormed, if_true, Bool.and_eq_true]
      exact ⟨ha.1, ih ha.2⟩
  | case3 => cases ha
  | case4 c rest hc ih =>
      simp only [Bool.and_eq_true] at ha
      rw [List.cons_append, wellFormed_cons hc, Bool.and_eq_true]
      exact ⟨ha.1, ih ha.2⟩

/-- A byte that is not allowed, not a percent sign and no digit does not occur. -/
theorem not_mem_of_wellFormed {c : UInt8} (hc : allowed c = false) (hpercent : c ≠ '%'.toUInt8)
    (hdigit : digitValue c = none) {s : List UInt8} (h : WellFormed allowed s = true) : c ∉ s := by
  fun_induction WellFormed allowed s with
  | case1 => exact List.not_mem_nil
  | case2 hi lo rest ih =>
      simp only [Bool.and_eq_true] at h
      have hhi : c ≠ hi := fun heq => by simp [← heq, hdigit] at h
      have hlo : c ≠ lo := fun heq => by simp [← heq, hdigit] at h
      simp only [List.mem_cons, not_or]
      exact ⟨hpercent, hhi, hlo, ih h.2⟩
  | case3 => cases h
  | case4 x rest hx ih =>
      simp only [Bool.and_eq_true] at h
      rw [List.mem_cons, not_or]
      exact ⟨fun heq => by simp [← heq, hc] at h, ih h.2⟩

theorem wellFormed_of_all {s : List UInt8} (h : ∀ c ∈ s, allowed c = true ∧ c ≠ '%'.toUInt8) :
    WellFormed allowed s = true := by
  induction s with
  | nil => rfl
  | cons c s ih =>
      obtain ⟨hc, hpercent⟩ := h c List.mem_cons_self
      rw [wellFormed_cons hpercent, hc, ih fun x hx => h x (List.mem_cons_of_mem c hx)]
      rfl

theorem percentDecode_of_not_mem {s : List UInt8} (h : '%'.toUInt8 ∉ s) :
    percentDecode s = some s := by
  induction s with
  | nil => rfl
  | cons c s ih =>
      rw [List.mem_cons, not_or] at h
      rw [percentDecode_cons (Ne.symm h.1), ih h.2]
      rfl

/-- A percent-coded byte. -/
theorem percentDecode_coded {hi lo x y : UInt8} (hhi : digitValue hi = some x)
    (hlo : digitValue lo = some y) (rest : List UInt8) :
    percentDecode ('%'.toUInt8 :: hi :: lo :: rest) =
      (percentDecode rest).map ((x * 16 + y) :: ·) := by
  rw [percentDecode, if_pos rfl, hhi, hlo]
  cases percentDecode rest <;> rfl

end WellFormed

variable {isIpv6 : List UInt8 → Bool}

/-- The host of an authority without brackets. -/
theorem parseHostPort_name {host port : List UInt8} (hhost : WellFormed isName host = true)
    (hport : ∀ c ∈ port, isDigit c = true) :
    parseHostPort isIpv6 (host ++ ':'.toUInt8 :: port) = some (host, some port) := by
  have hcolon : ':'.toUInt8 ∉ host :=
    not_mem_of_wellFormed (by decide) (by decide) (by decide) hhost
  have hbracket : '['.toUInt8 ∉ host :=
    not_mem_of_wellFormed (by decide) (by decide) (by decide) hhost
  have hhead : (host ++ ':'.toUInt8 :: port).head? ≠ some '['.toUInt8 := by
    cases host with
    | nil => exact fun h => absurd (Option.some.inj h) (by decide)
    | cons c host => exact fun h => hbracket (by rw [← Option.some.inj h]; exact List.mem_cons_self)
  have hdigits : port.all isDigit = true := List.all_eq_true.2 hport
  rw [parseHostPort, if_neg hhead, cut_append hcolon]
  simp [hhost, hdigits]

/-- Without brackets there is one colon at most. -/
theorem parseHostPort_colon {host : List UInt8} (hhead : host.head? ≠ some '['.toUInt8)
    (hcolon : ':'.toUInt8 ∈ host) (port : List UInt8) :
    parseHostPort isIpv6 (host ++ ':'.toUInt8 :: port) = none := by
  obtain ⟨a, b, rfl, ha, -⟩ := cut_of_mem hcolon
  have hhead' : ((a ++ ':'.toUInt8 :: b) ++ ':'.toUInt8 :: port).head? ≠ some '['.toUInt8 := by
    rw [List.head?_append]
    cases hh : (a ++ ':'.toUInt8 :: b).head? with
    | none => simp at hh
    | some c => rwa [hh] at hhead
  have hdigits : (b ++ ':'.toUInt8 :: port).all isDigit = false := by
    rw [List.all_eq_false]
    exact ⟨':'.toUInt8, by simp, by decide⟩
  rw [parseHostPort, if_neg hhead', List.append_assoc, List.cons_append, cut_append ha]
  simp [hdigits]

theorem parseAuthority_userinfo {userinfo : List UInt8}
    (huserinfo : WellFormed isUserinfo userinfo = true) (rest : List UInt8) :
    parseAuthority isIpv6 (userinfo ++ '@'.toUInt8 :: rest) =
      (parseHostPort isIpv6 rest).map fun hp => ⟨some userinfo, hp.1, hp.2⟩ := by
  have hat : '@'.toUInt8 ∉ userinfo :=
    not_mem_of_wellFormed (by decide) (by decide) (by decide) huserinfo
  rw [parseAuthority, cut_append hat]
  exact if_pos huserinfo

theorem not_mem_of_isScheme {scheme : List UInt8} (h : isScheme scheme = true) {c : UInt8}
    (hc : (isAlpha c || isDigit c || "+-.".toList.any (·.toUInt8 = c)) = false) : c ∉ scheme := by
  cases scheme with
  | nil => exact List.not_mem_nil
  | cons x rest =>
      simp only [isScheme, Bool.and_eq_true, List.all_eq_true] at h
      rw [List.mem_cons, not_or]
      constructor
      · rintro rfl
        simp [h.1] at hc
      · intro hmem
        rw [h.2 c hmem] at hc
        cases hc

/-- **A URI put together from an authority, a query and a fragment is taken apart into them.** -/
theorem parse_compose {scheme authority query : List UInt8} {fragment : Option (List UInt8)}
    (hscheme : isScheme scheme = true)
    (hauthority : '/'.toUInt8 ∉ authority ∧ '?'.toUInt8 ∉ authority ∧ '#'.toUInt8 ∉ authority)
    (hquery : WellFormed isQuery query = true)
    (hfragment : WellFormed isQuery (fragment.getD []) = true) :
    parse isIpv6 (scheme ++ ':'.toUInt8 :: '/'.toUInt8 :: '/'.toUInt8 ::
      (authority ++ '?'.toUInt8 :: (query ++ fragment.elim [] ('#'.toUInt8 :: ·)))) =
      (parseAuthority isIpv6 authority).map fun authority =>
        ⟨scheme, authority, [], some query, fragment⟩ := by
  have hhash : '#'.toUInt8 ∉ query :=
    not_mem_of_wellFormed (by decide) (by decide) (by decide) hquery
  have hcolon := not_mem_of_isScheme hscheme (c := ':'.toUInt8) (by decide)
  have hmark := not_mem_of_isScheme hscheme (c := '?'.toUInt8) (by decide)
  have hfence := not_mem_of_isScheme hscheme (c := '#'.toUInt8) (by decide)
  generalize hfront : scheme ++ ':'.toUInt8 :: '/'.toUInt8 :: '/'.toUInt8 :: authority = front
  have htext : scheme ++ ':'.toUInt8 :: '/'.toUInt8 :: '/'.toUInt8 ::
      (authority ++ '?'.toUInt8 :: (query ++ fragment.elim [] ('#'.toUInt8 :: ·))) =
      (front ++ '?'.toUInt8 :: query) ++ fragment.elim [] ('#'.toUInt8 :: ·) := by
    simp [← hfront]
  have hnohash : '#'.toUInt8 ∉ front ++ '?'.toUInt8 :: query := by
    simp only [← hfront, List.mem_append, List.mem_cons, not_or]
    exact ⟨⟨hfence, by decide, by decide, by decide, hauthority.2.2⟩, by decide, hhash⟩
  have hnomark : '?'.toUInt8 ∉ front := by
    simp only [← hfront, List.mem_append, List.mem_cons, not_or]
    exact ⟨hmark, by decide, by decide, by decide, hauthority.2.1⟩
  have hcutfragment : cut '#'.toUInt8 ((front ++ '?'.toUInt8 :: query) ++
      fragment.elim [] ('#'.toUInt8 :: ·)) = (front ++ '?'.toUInt8 :: query, fragment) := by
    cases fragment with
    | none => rw [Option.elim_none, List.append_nil, cut_of_not_mem hnohash]
    | some fragment => exact cut_append hnohash fragment
  rw [htext, parse, hcutfragment]
  dsimp only
  rw [cut_append hnomark]
  dsimp only
  rw [← hfront, cut_append hcolon]
  dsimp only
  rw [cut_of_not_mem hauthority.1]
  dsimp only
  rw [if_pos ⟨rfl, rfl, hscheme, rfl, hquery, hfragment⟩]
  rfl

/-! ## Parameters -/

/-- A parameter whose key and value stand for themselves. -/
def renderParam (param : List UInt8 × List UInt8) : List UInt8 :=
  param.1 ++ '='.toUInt8 :: param.2

/-- Some parameters behind a first one. -/
def renderParams (first : List UInt8 × List UInt8) (params : List (List UInt8 × List UInt8)) :
    List UInt8 :=
  renderParam first ++ params.flatMap fun param => '&'.toUInt8 :: renderParam param

/-- Key and value need no percent-coding. -/
def Plain (param : List UInt8 × List UInt8) : Prop :=
  (∀ c ∈ param.1, isUnreserved c = true) ∧ ∀ c ∈ param.2, isUnreserved c = true

theorem ne_of_isUnreserved {c x : UInt8} (hc : isUnreserved c = true)
    (hx : isUnreserved x = false) : c ≠ x := by
  rintro rfl
  rw [hc] at hx
  cases hx

theorem isQuery_of_isUnreserved {c : UInt8} (hc : isUnreserved c = true) : isQuery c = true := by
  simp [isQuery, isPath, isPchar, isUserinfo, isName, hc]

theorem percentDecode_unreserved {s : List UInt8} (h : ∀ c ∈ s, isUnreserved c = true) :
    percentDecode s = some s :=
  percentDecode_of_not_mem fun hmem => ne_of_isUnreserved (h _ hmem) (by decide) rfl

/-- Unreserved characters may stand wherever they are allowed. -/
theorem wellFormed_unreserved {allowed : UInt8 → Bool}
    (hallowed : ∀ c, isUnreserved c = true → allowed c = true) {s : List UInt8}
    (h : ∀ c ∈ s, isUnreserved c = true) : WellFormed allowed s = true :=
  wellFormed_of_all fun c hc => ⟨hallowed c (h c hc), ne_of_isUnreserved (h c hc) (by decide)⟩

theorem wellFormed_renderParam {param : List UInt8 × List UInt8} (h : Plain param) :
    WellFormed isQuery (renderParam param) = true := by
  refine wellFormed_append (wellFormed_unreserved (fun c => isQuery_of_isUnreserved) h.1) ?_
  rw [wellFormed_cons (by decide), wellFormed_unreserved (fun c => isQuery_of_isUnreserved) h.2]
  decide

theorem renderParams_eq_intercalate (first : List UInt8 × List UInt8)
    (params : List (List UInt8 × List UInt8)) :
    renderParams first params = ['&'.toUInt8].intercalate ((first :: params).map renderParam) := by
  induction params generalizing first with
  | nil => simp [renderParams, List.intercalate]
  | cons param params ih =>
      rw [List.map_cons, List.map_cons, List.intercalate_cons_cons, ← List.map_cons, ← ih param]
      simp [renderParams]

/-- **Parameters that need no percent-coding are read back.** -/
theorem parseParams_render (first : List UInt8 × List UInt8)
    (params : List (List UInt8 × List UInt8)) (h : ∀ param ∈ first :: params, Plain param) :
    parseParams (renderParams first params) = some (first :: params) ∧
      WellFormed isQuery (renderParams first params) = true := by
  have hamp : ∀ param ∈ (first :: params).map renderParam, '&'.toUInt8 ∉ param := by
    intro text htext hmem
    obtain ⟨param, hparam, rfl⟩ := List.mem_map.1 htext
    obtain ⟨hkey, hvalue⟩ := h param hparam
    rcases List.mem_append.1 hmem with hmem | hmem
    · exact ne_of_isUnreserved (hkey _ hmem) (by decide) rfl
    · rcases List.mem_cons.1 hmem with hmem | hmem
      · exact absurd hmem (by decide)
      · exact ne_of_isUnreserved (hvalue _ hmem) (by decide) rfl
  constructor
  · rw [parseParams, renderParams_eq_intercalate, List.splitOn_intercalate _ hamp (by simp)]
    generalize first :: params = params at h
    clear hamp
    induction params with
    | nil => rfl
    | cons param params ih =>
        obtain ⟨hkey, hvalue⟩ := h param List.mem_cons_self
        have heq : '='.toUInt8 ∉ param.1 := fun hmem =>
          ne_of_isUnreserved (hkey _ hmem) (by decide) rfl
        rw [List.map_cons, List.mapM_cons, ih fun p hp => h p (List.mem_cons_of_mem _ hp),
          renderParam, cut_append heq]
        simp [percentDecode_unreserved hkey, percentDecode_unreserved hvalue]
  · refine wellFormed_append (wellFormed_renderParam (h first List.mem_cons_self)) ?_
    have hrest : ∀ param ∈ params, Plain param := fun p hp => h p (List.mem_cons_of_mem first hp)
    clear h hamp
    induction params with
    | nil => rfl
    | cons param params ih =>
        rw [List.flatMap_cons, List.cons_append, wellFormed_cons (by decide),
          wellFormed_append (wellFormed_renderParam (hrest param List.mem_cons_self))
            (ih fun p hp => hrest p (List.mem_cons_of_mem _ hp))]
        decide

end Uri
