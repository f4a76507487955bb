import Cppvless.Common.Json

set_option autoImplicit false

/-! # The server's configuration file

`writeServerConfig` and `loadServerConfig` of `common/config.cpp`. The text that is written is that of
a JSON value with the fields of the configuration as members, so it is read back as it was, whatever
the strings hold. What the file system does is a parameter. -/

namespace Cppvless

open Json JsonParser

structure UserConfig where
  uuid : Bytes := []
  name : Bytes := []
  deriving DecidableEq

structure TlsConfigData where
  enabled : Bool := false
  port : UInt16 := 8848
  certFile : Bytes := []
  keyFile : Bytes := []
  certDir : Bytes := ascii "./certs"
  certDays : Int32 := 365
  /-- filled in while the server runs -/
  certSha256 : Bytes := []
  deriving DecidableEq

structure ServerConfig where
  port : UInt16 := 1080
  logLevel : Bytes := ascii "info"
  workers : Int32 := 0
  host : Bytes := []
  remark : Bytes := ascii "cppvless"
  tls : TlsConfigData := {}
  users : List UserConfig := []
  deriving DecidableEq

/-- The configuration file, whether it can be opened for writing, and after how many bytes writing
    fails, if it does. -/
structure Disk where
  file : Option Bytes
  opens : Bool := true
  fails : Option Nat := none
  deriving DecidableEq

/-! ## Writing -/

/-- A user, and whether another follows. -/
def userLine (u : UserConfig) (more : Bool) : Bytes :=
  line 4 (ascii "\x7b" ++ member "uuid" (quoted u.uuid) ++ ascii ", " ++ member "name" (quoted u.name) ++
    ascii "\x7d" ++ if more then ascii "," else [])

def userLines : List UserConfig → Bytes
  | [] => []
  | u :: us => userLine u (!us.isEmpty) ++ userLines us

/-- What `writeServerConfig` puts into the stream. -/
def serverConfigText (cfg : ServerConfig) : Bytes :=
  line 0 (ascii "\x7b") ++
  line 2 (member "port" (decimal cfg.port.toNat) ++ ascii ",") ++
  line 2 (member "host" (quoted cfg.host) ++ ascii ",") ++
  line 2 (member "log_level" (quoted cfg.logLevel) ++ ascii ",") ++
  line 2 (member "workers" (decimal cfg.workers.toInt) ++ ascii ",") ++
  line 2 (member "remark" (quoted cfg.remark) ++ ascii ",") ++
  line 2 (member "tls" (ascii "\x7b")) ++
  line 4 (member "enabled" (if cfg.tls.enabled then ascii "true" else ascii "false") ++ ascii ",") ++
  line 4 (member "port" (decimal cfg.tls.port.toNat) ++ ascii ",") ++
  line 4 (member "cert_file" (quoted cfg.tls.certFile) ++ ascii ",") ++
  line 4 (member "key_file" (quoted cfg.tls.keyFile) ++ ascii ",") ++
  line 4 (member "cert_dir" (quoted cfg.tls.certDir) ++ ascii ",") ++
  line 4 (member "cert_days" (decimal cfg.tls.certDays.toInt)) ++
  line 2 (ascii "\x7d,") ++
  line 2 (member "users" (ascii "[")) ++
  userLines cfg.users ++
  line 2 (ascii "]") ++
  line 0 (ascii "\x7d")

/-- `writeServerConfig`: the error, if there is one, and what becomes of the file. -/
def writeServerConfig (path : Bytes) (cfg : ServerConfig) (disk : Disk) : Option Bytes × Disk :=
  -- `ensureParentDir` never fails
  if !disk.opens then (some (ascii "cannot open " ++ path ++ ascii " for writing"), disk)
  else match disk.fails with
    | some n =>
        (some (ascii "failed to write " ++ path),
          { disk with file := some ((serverConfigText cfg).take n) })
    | none => (none, { disk with file := some (serverConfigText cfg) })

/-! ## Loading -/

/-- Two hexadecimal digits. -/
def hexByte (b : UInt8) : Bytes :=
  [b >>> 4, b &&& 0x0F].map fun d => if d < 10 then 48 + d else 87 + d

/-- `generateUuid`, from 16 random bytes. -/
def generateUuid (random : List.Vector UInt8 16) : Bytes :=
  let bytes := random.toList.mapIdx fun i b =>
    if i = 6 then (b &&& 0x0F) ||| 0x40 else if i = 8 then (b &&& 0x3F) ||| 0x80 else b
  let hex (i j : Nat) := ((bytes.drop i).take (j - i)).flatMap hexByte
  hex 0 4 ++ ascii "-" ++ hex 4 6 ++ ascii "-" ++ hex 6 8 ++ ascii "-" ++ hex 8 10 ++ ascii "-" ++
    hex 10 16

/-- What `loadServerConfig` leaves behind. -/
structure Loaded where
  error : Option Bytes := none
  cfg : ServerConfig
  created : Bool := false
  disk : Disk

variable (lib : Strtod)

/-- A member that is a number, a string or a boolean. -/
def intMember (key : String) (j : Json lib.Double) : Option Int :=
  match j.get key with
  | some (.number num) => some (lib.toLongLong num)
  | _ => none

def stringMember (key : String) (j : Json lib.Double) : Option Bytes :=
  match j.get key with
  | some (.string str) => some str
  | _ => none

def boolMember (key : String) (j : Json lib.Double) : Option Bool :=
  match j.get key with
  | some (.bool b) => some b
  | _ => none

def loadTls (t : Json lib.Double) (tls : TlsConfigData) : TlsConfigData :=
  { tls with
    enabled := (boolMember lib "enabled" t).getD tls.enabled
    port := ((intMember lib "port" t).map UInt16.ofInt).getD tls.port
    certFile := (stringMember lib "cert_file" t).getD tls.certFile
    keyFile := (stringMember lib "key_file" t).getD tls.keyFile
    certDir := (stringMember lib "cert_dir" t).getD tls.certDir
    certDays := ((intMember lib "cert_days" t).map Int32.ofInt).getD tls.certDays }

/-- The user an element of the list stands for, if it is an object with a UUID. -/
def loadUser : Json lib.Double → Option UserConfig
  | .object obj =>
      let uc : UserConfig :=
        { uuid := (stringMember lib "uuid" (.object obj)).getD []
          name := (stringMember lib "name" (.object obj)).getD [] }
      if uc.uuid = [] then none else some uc
  | _ => none

def loadConfig (root : Json lib.Double) (cfg : ServerConfig) : ServerConfig where
  port := ((intMember lib "port" root).map UInt16.ofInt).getD cfg.port
  host := (stringMember lib "host" root).getD cfg.host
  logLevel := (stringMember lib "log_level" root).getD cfg.logLevel
  workers := ((intMember lib "workers" root).map Int32.ofInt).getD cfg.workers
  remark := (stringMember lib "remark" root).getD cfg.remark
  tls := match root.get "tls" with
    | some (.object obj) => loadTls lib (.object obj) cfg.tls
    | _ => cfg.tls
  users := match root.get "users" with
    | some (.array arr) => cfg.users ++ arr.filterMap (loadUser lib)
    | _ => cfg.users

def loadServerConfig (path : Bytes) (random : List.Vector UInt8 16) (cfg : ServerConfig)
    (disk : Disk) : Loaded :=
  match disk.file with
  | none =>
      -- the first start
      let uc : UserConfig := { uuid := generateUuid random, name := ascii "default" }
      let cfg := { cfg with users := cfg.users ++ [uc] }
      match writeServerConfig path cfg disk with
      | (some writeErr, disk) =>
          { error := some (ascii "config file not found, and failed to create one: " ++ writeErr)
            cfg, disk }
      | (none, disk) => { cfg, created := true, disk }
  | some text =>
      match parseDocument lib text with
      | some (.object obj) => { cfg := loadConfig lib (.object obj) cfg, disk }
      | _ => { error := some (ascii "invalid JSON in " ++ path), cfg, disk }

/-! ## The text is that of a value -/

def userJson (u : UserConfig) : Json lib.Double :=
  .object [(ascii "uuid", .string u.uuid), (ascii "name", .string u.name)]

def tlsJson (tls : TlsConfigData) : Json lib.Double :=
  .object [(ascii "enabled", .bool tls.enabled),
    (ascii "port", .number (lib.ofInt tls.port.toNat)), (ascii "cert_file", .string tls.certFile),
    (ascii "key_file", .string tls.keyFile), (ascii "cert_dir", .string tls.certDir),
    (ascii "cert_days", .number (lib.ofInt tls.certDays.toInt))]

/-- The value of which `serverConfigText` is the text. -/
def configJson (cfg : ServerConfig) : Json lib.Double :=
  .object [(ascii "port", .number (lib.ofInt cfg.port.toNat)), (ascii "host", .string cfg.host),
    (ascii "log_level", .string cfg.logLevel),
    (ascii "workers", .number (lib.ofInt cfg.workers.toInt)), (ascii "remark", .string cfg.remark),
    (ascii "tls", tlsJson lib cfg.tls), (ascii "users", .array (cfg.users.map (userJson lib)))]

variable {lib}

/-- The end of a line and the indentation of the next. -/
def newline (indent : Nat) : Bytes := '\n'.toUInt8 :: List.replicate indent ' '.toUInt8

theorem ws_newline (indent : Nat) : Ws (newline indent) := by
  intro b hb
  rcases List.mem_cons.1 hb with rfl | hb
  · decide
  · rw [List.eq_of_mem_replicate hb]
    decide

theorem fitsInt_port (port : UInt16) : FitsInt port.toNat := by
  have hport := port.toNat_lt
  constructor
  · omega
  · omega

theorem fitsInt_int32 (n : Int32) : FitsInt n.toInt := by
  have hle := n.le_toInt
  have hlt := n.toInt_lt
  constructor
  · omega
  · omega

theorem ascii_brackets : ascii "\x7b" = ['{'.toUInt8] ∧ ascii "\x7d" = ['}'.toUInt8] ∧
    ascii "[" = ['['.toUInt8] ∧ ascii "]" = [']'.toUInt8] ∧ ascii "," = [','.toUInt8] ∧
    ascii "\x7d," = ['}'.toUInt8, ','.toUInt8] ∧ ascii ", " = [','.toUInt8, ' '.toUInt8] := by
  decide

theorem prints_user (u : UserConfig) : Prints (userJson lib u)
    (ascii "\x7b" ++ member "uuid" (quoted u.uuid) ++ ascii ", " ++ member "name" (quoted u.name) ++
      ascii "\x7d") := by
  have huuid : Plain "uuid" := by decide
  have hkey : Plain "name" := by decide
  have hspace : Ws [' '.toUInt8] := by decide
  have hempty : Ws [] := by decide
  have hname : PrintsMembers [(ascii "name", (.string u.name : Json lib.Double))]
      (member "name" (quoted u.name) ++ []) :=
    printsMembers_last hkey (prints_string u.name) hempty
  have hobject := prints_object (printsMembers_cons huuid (prints_string u.uuid) (hname.ws hspace))
  obtain ⟨hopen, hclose, -, -, -, -, hcomma⟩ := ascii_brackets
  rw [hopen, hclose, hcomma]
  simpa [userJson] using hobject

/-- The lines of the users, up to the end of the list. -/
theorem printsElements_users (u : UserConfig) (us : List UserConfig) {w : Bytes} (hw : Ws w) :
    PrintsElements ((u :: us).map (userJson lib)) (userLines (u :: us) ++ w) := by
  obtain ⟨-, -, -, -, hcomma, -, -⟩ := ascii_brackets
  have hindent : Ws (List.replicate 4 ' '.toUInt8) := by decide
  have hnewline : Ws ['\n'.toUInt8] := by decide
  induction us generalizing u with
  | nil =>
      have hend : Ws ('\n'.toUInt8 :: w) := by
        intro b hb
        rcases List.mem_cons.1 hb with rfl | hb
        · decide
        · exact hw b hb
      have hlast : PrintsElements [userJson lib u] _ :=
        printsElements_last ((prints_user u).ws hindent) hend
      simpa [userLines, userLine, line] using hlast
  | cons u' us ih =>
      have hcons := printsElements_cons (w := []) ((prints_user u).ws hindent) nofun ((ih u').ws hnewline)
      have htext : userLines (u :: u' :: us) ++ w = List.replicate 4 ' '.toUInt8 ++
          (ascii "\x7b" ++ member "uuid" (quoted u.uuid) ++ ascii ", " ++
            member "name" (quoted u.name) ++ ascii "\x7d") ++
          ','.toUInt8 :: (['\n'.toUInt8] ++ (userLines (u' :: us) ++ w)) := by
        rw [userLines, userLine, line, hcomma]
        simp
      rw [htext]
      exact hcons

/-- The list of the users. -/
def usersText (us : List UserConfig) : Bytes :=
  '['.toUInt8 :: (['\n'.toUInt8] ++ (userLines us ++ List.replicate 2 ' '.toUInt8) ++ [']'.toUInt8])

theorem prints_users (us : List UserConfig) :
    Prints (.array (us.map (userJson lib))) (usersText us) := by
  have hindent : Ws (List.replicate 2 ' '.toUInt8) := by decide
  have hnewline : Ws ['\n'.toUInt8] := by decide
  cases us with
  | nil => exact prints_emptyArray (w := ['\n'.toUInt8] ++ (userLines [] ++ _)) (by decide)
  | cons u us => exact prints_array ((printsElements_users u us hindent).ws hnewline)

/-- The object of the TLS settings. -/
def tlsText (tls : TlsConfigData) : Bytes :=
  '{'.toUInt8 :: (newline 4 ++ (member "enabled" (if tls.enabled then ascii "true" else ascii "false") ++
    ','.toUInt8 :: (newline 4 ++ (member "port" (decimal tls.port.toNat) ++
    ','.toUInt8 :: (newline 4 ++ (member "cert_file" (quoted tls.certFile) ++
    ','.toUInt8 :: (newline 4 ++ (member "key_file" (quoted tls.keyFile) ++
    ','.toUInt8 :: (newline 4 ++ (member "cert_dir" (quoted tls.certDir) ++
    ','.toUInt8 :: (newline 4 ++ (member "cert_days" (decimal tls.certDays.toInt) ++
    newline 2))))))))))) ++ ['}'.toUInt8])

theorem prints_tls (hexact : lib.Exact) (tls : TlsConfigData) :
    Prints (tlsJson lib tls) (tlsText tls) := by
  have hkeys : Plain "enabled" ∧ Plain "port" ∧ Plain "cert_file" ∧ Plain "key_file" ∧
      Plain "cert_dir" ∧ Plain "cert_days" := by
    decide
  obtain ⟨henabled, hport, hcertFile, hkeyFile, hcertDir, hcertDays⟩ := hkeys
  have hline := ws_newline 4
  -- from the last member to the first
  have hdays := printsMembers_last hcertDays
    (prints_decimal hexact (fitsInt_int32 tls.certDays)) (ws_newline 2)
  have hdir := printsMembers_cons hcertDir (prints_string tls.certDir) (hdays.ws hline)
  have hkey := printsMembers_cons hkeyFile (prints_string tls.keyFile) (hdir.ws hline)
  have hcert := printsMembers_cons hcertFile (prints_string tls.certFile) (hkey.ws hline)
  have hfrom := printsMembers_cons hport (prints_decimal hexact (fitsInt_port tls.port))
    (hcert.ws hline)
  have hall := printsMembers_cons henabled (prints_bool tls.enabled) (hfrom.ws hline)
  exact prints_object (hall.ws hline)

/-- The text, with every line end before the line it ends at. -/
theorem serverConfigText_eq (cfg : ServerConfig) : serverConfigText cfg =
    '{'.toUInt8 :: (newline 2 ++ (member "port" (decimal cfg.port.toNat) ++
      ','.toUInt8 :: (newline 2 ++ (member "host" (quoted cfg.host) ++
      ','.toUInt8 :: (newline 2 ++ (member "log_level" (quoted cfg.logLevel) ++
      ','.toUInt8 :: (newline 2 ++ (member "workers" (decimal cfg.workers.toInt) ++
      ','.toUInt8 :: (newline 2 ++ (member "remark" (quoted cfg.remark) ++
      ','.toUInt8 :: (newline 2 ++ (member "tls" (tlsText cfg.tls) ++
      ','.toUInt8 :: (newline 2 ++ (member "users" (usersText cfg.users) ++
      newline 0))))))))))))) ++ ['}'.toUInt8]) ++ newline 0 := by
  obtain ⟨hopen, hclose, hopenList, hcloseList, hcomma, hcloseComma, -⟩ := ascii_brackets
  simp only [serverConfigText, line, hopen, hclose, hopenList, hcloseList, hcomma, hcloseComma, tlsText,
    usersText, member, newline, List.append_assoc, List.cons_append, List.nil_append, List.replicate_zero]

theorem parseDocument_config (hexact : lib.Exact) (cfg : ServerConfig) :
    parseDocument lib (serverConfigText cfg) = some (configJson lib cfg) := by
  have hkeys : Plain "port" ∧ Plain "host" ∧ Plain "log_level" ∧ Plain "workers" ∧
      Plain "remark" ∧ Plain "tls" ∧ Plain "users" := by
    decide
  obtain ⟨hport, hhost, hlogLevel, hworkers, hremark, htls, husers⟩ := hkeys
  have hline := ws_newline 2
  -- from the last member to the first
  have husersText : PrintsMembers
      [(ascii "users", (.array (cfg.users.map (userJson lib)) : Json lib.Double))] _ :=
    printsMembers_last husers (prints_users cfg.users) (ws_newline 0)
  have htlsText := printsMembers_cons htls (prints_tls hexact cfg.tls) (husersText.ws hline)
  have hremarkText := printsMembers_cons hremark (prints_string cfg.remark) (htlsText.ws hline)
  have hworkersText := printsMembers_cons hworkers
    (prints_decimal hexact (fitsInt_int32 cfg.workers)) (hremarkText.ws hline)
  have hlogText := printsMembers_cons hlogLevel (prints_string cfg.logLevel) (hworkersText.ws hline)
  have hhostText := printsMembers_cons hhost (prints_string cfg.host) (hlogText.ws hline)
  have hportText := printsMembers_cons hport (prints_decimal hexact (fitsInt_port cfg.port))
    (hhostText.ws hline)
  rw [serverConfigText_eq]
  exact (prints_object (hportText.ws hline)).parseDocument (ws_newline 0)

/-! ## The value is read back -/

theorem get_cons_self (key : String) (v : Json lib.Double) (ms : List (Bytes × Json lib.Double)) :
    get key (.object ((ascii key, v) :: ms)) = some v := by
  rw [Json.get, List.find?_cons_of_pos (by simp)]
  rfl

theorem get_cons_ne {key k : String} (h : ascii k ≠ ascii key) (v : Json lib.Double)
    (ms : List (Bytes × Json lib.Double)) :
    get key (.object ((ascii k, v) :: ms)) = get key (.object ms) := by
  rw [Json.get, Json.get, List.find?_cons_of_neg (by simpa using h)]

theorem ofInt_port (port : UInt16) : UInt16.ofInt port.toNat = port := by
  have hport := port.toNat_lt
  apply UInt16.toNat_inj.1
  rw [UInt16.ofInt, UInt16.toNat_ofNat']
  omega

theorem loadUser_userJson {u : UserConfig} (huuid : u.uuid ≠ []) :
    loadUser lib (userJson lib u) = some u := by
  have hget : get "uuid" (userJson lib u) = some (.string u.uuid) := get_cons_self _ _ _
  have hname : get "name" (userJson lib u) = some (.string u.name) := by
    rw [userJson, get_cons_ne (by decide), get_cons_self]
  rw [userJson] at hget hname ⊢
  simp only [loadUser, stringMember, hget, hname, Option.getD_some, huuid, if_false]

theorem filterMap_loadUser {us : List UserConfig} (huuids : ∀ u ∈ us, u.uuid ≠ []) :
    (us.map (userJson lib)).filterMap (loadUser lib) = us := by
  induction us with
  | nil => rfl
  | cons u us ih =>
      rw [List.map_cons, List.filterMap_cons_some (loadUser_userJson (huuids u (by simp))),
        ih fun u' hu' => huuids u' (by simp [hu'])]

theorem loadTls_tlsJson (hexact : lib.Exact) (tls tls' : TlsConfigData) :
    loadTls lib (tlsJson lib tls) tls' = { tls with certSha256 := tls'.certSha256 } := by
  have hport := hexact.toLongLong _ (fitsInt_port tls.port)
  have hdays := hexact.toLongLong _ (fitsInt_int32 tls.certDays)
  unfold loadTls tlsJson boolMember intMember stringMember
  simp (disch := decide) only [get_cons_self, get_cons_ne, hport, hdays, Option.map_some,
    Option.getD_some, ofInt_port, Int32.ofInt_toInt]

/-- Everything is read back but the fingerprint of the certificate. -/
theorem loadConfig_configJson (hexact : lib.Exact) {cfg cfg' : ServerConfig}
    (huuids : ∀ u ∈ cfg.users, u.uuid ≠ []) (husers : cfg'.users = []) :
    loadConfig lib (configJson lib cfg) cfg' =
      { cfg with tls := { cfg.tls with certSha256 := cfg'.tls.certSha256 } } := by
  have hport := hexact.toLongLong _ (fitsInt_port cfg.port)
  have hworkers := hexact.toLongLong _ (fitsInt_int32 cfg.workers)
  have htls := loadTls_tlsJson hexact cfg.tls cfg'.tls
  unfold loadConfig configJson intMember stringMember
  simp (disch := decide) only [get_cons_self, get_cons_ne, hport, hworkers, Option.map_some,
    Option.getD_some, ofInt_port, Int32.ofInt_toInt, husers, List.nil_append,
    filterMap_loadUser huuids]
  rw [tlsJson] at htls ⊢
  simp only [htls]

/-! ## A file that is written is loaded -/

/-- The file can be written. -/
structure Disk.Writable (disk : Disk) : Prop where
  opens : disk.opens = true
  fails : disk.fails = none

theorem writeServerConfig_writable {disk : Disk} (hdisk : disk.Writable) (path : Bytes)
    (cfg : ServerConfig) :
    writeServerConfig path cfg disk = (none, { disk with file := some (serverConfigText cfg) }) := by
  simp only [writeServerConfig, hdisk.opens, hdisk.fails, Bool.not_true, Bool.false_eq_true, if_false]

/-- A file with the text of a configuration, loaded into the default one. -/
theorem loadServerConfig_text (hexact : lib.Exact) {cfg : ServerConfig}
    (huuids : ∀ u ∈ cfg.users, u.uuid ≠ []) (path : Bytes) (random : List.Vector UInt8 16)
    {disk : Disk} (hfile : disk.file = some (serverConfigText cfg)) :
    loadServerConfig lib path random {} disk =
      { cfg := { cfg with tls := { cfg.tls with certSha256 := [] } }, disk } := by
  have hload : loadConfig lib (configJson lib cfg) {} = _ := loadConfig_configJson hexact huuids rfl
  rw [loadServerConfig, hfile]
  simp only [parseDocument_config hexact]
  exact congrArg (fun cfg => Loaded.mk none cfg false disk) hload

theorem generateUuid_ne_nil (random : List.Vector UInt8 16) : generateUuid random ≠ [] := by
  have hdash : ascii "-" ≠ [] := by decide
  simp [generateUuid, hdash]

/-- What the first start makes up. -/
def firstConfig (random : List.Vector UInt8 16) : ServerConfig where
  users := [{ uuid := generateUuid random, name := ascii "default" }]

/-- **What is written is loaded**: whatever the strings of a configuration hold, it is loaded from its
    file as it was, but for the fingerprint. So every start after the first finds the configuration
    that the first one made up. -/
theorem server_config_round_trip (lib : Strtod) (hexact : lib.Exact) (path : Bytes)
    (random random' : List.Vector UInt8 16) (disk : Disk) (hdisk : disk.Writable) :
    (∀ cfg : ServerConfig, (∀ u ∈ cfg.users, u.uuid ≠ []) →
      ∃ disk', writeServerConfig path cfg disk = (none, disk') ∧
        loadServerConfig lib path random {} disk' =
          { cfg := { cfg with tls := { cfg.tls with certSha256 := [] } }, disk := disk' }) ∧
    (disk.file = none → ∃ cfg disk', cfg.users ≠ [] ∧
      loadServerConfig lib path random {} disk = { cfg, created := true, disk := disk' } ∧
      loadServerConfig lib path random' {} disk' = { cfg, disk := disk' }) := by
  refine ⟨fun cfg huuids => ?_, fun hfile => ?_⟩
  · exact ⟨_, writeServerConfig_writable hdisk path cfg, loadServerConfig_text hexact huuids path random rfl⟩
  · have huuids : ∀ u ∈ (firstConfig random).users, u.uuid ≠ [] := by
      simp [firstConfig, generateUuid_ne_nil]
    have hwrite := writeServerConfig_writable hdisk path (firstConfig random)
    refine ⟨firstConfig random,
      { disk with file := some (serverConfigText (firstConfig random)) }, List.cons_ne_nil _ _, ?_,
      loadServerConfig_text hexact huuids path random' rfl⟩
    rw [loadServerConfig, hfile]
    show (match writeServerConfig path (firstConfig random) disk with
      | (some writeErr, disk) => _
      | (none, disk) => _) = _
    rw [hwrite]
    rfl

/-- The digits at the start of a text. -/
def leadingDigits (text : Bytes) : Int :=
  Nat.ofDigitChars 10 ((text.takeWhile isDigit).map fun b => Char.ofNat b.toNat) 0

/-- `strtod` on integers. -/
def intStrtod : Strtod where
  Double := Int
  strtod text :=
    match consume '-'.toUInt8 text with
    | some rest => -leadingDigits rest
    | none => leadingDigits text
  ofInt n := n
  toLongLong n := n

theorem takeWhile_endsNumber {rest : Bytes} (hrest : endsNumber rest = true) :
    rest.takeWhile isDigit = [] := by
  cases rest with
  | nil => rfl
  | cons b rest =>
      refine List.takeWhile_cons_of_neg fun hb => ?_
      simp [endsNumber, numberChar_of_isDigit hb] at hrest

theorem leadingDigits_toDigits (n : Nat) {rest : Bytes} (hrest : endsNumber rest = true) :
    leadingDigits ((Nat.toDigits 10 n).map Char.toUInt8 ++ rest) = n := by
  have hback : ((Nat.toDigits 10 n).map Char.toUInt8).map (fun b => Char.ofNat b.toNat) =
      Nat.toDigits 10 n := by
    rw [List.map_map]
    refine (List.map_congr_left fun c hc => ?_).trans (List.map_id _)
    have hval := (toNat_toUInt8 (Nat.isDigit_of_mem_toDigits (by decide) (by decide) hc)).1
    show Char.ofNat c.toUInt8.toNat = c
    rw [hval, Char.ofNat_toNat]
  unfold leadingDigits
  rw [List.takeWhile_append_of_pos fun b hb => isDigit_of_mem_toDigits hb, takeWhile_endsNumber hrest,
    List.append_nil, hback, Nat.ofDigitChars_ten_toDigits]

theorem intStrtod_exact : intStrtod.Exact where
  strtod n rest _ hrest := by
    have hdigits := leadingDigits_toDigits n.natAbs hrest
    obtain ⟨c, ds, hcons, -, hdigit⟩ := decimal_eq n
    unfold decimal
    by_cases hn : n < 0
    · simp only [hn, if_true]
      show -leadingDigits ((Nat.toDigits 10 n.natAbs).map Char.toUInt8 ++ rest) = n
      rw [hdigits]
      omega
    · simp only [hn, if_false]
      have hconsume : consume '-'.toUInt8 ((Nat.toDigits 10 n.natAbs).map Char.toUInt8 ++ rest) = none := by
        rw [hcons]
        refine consume_ne fun hhead => ?_
        have hc := hdigit c (by simp)
        rw [Option.some.inj hhead] at hc
        exact absurd hc (by decide)
      simp only [intStrtod, hconsume]
      rw [hdigits]
      omega
  toLongLong _ _ := rfl

/-- A user whose name holds a quote, a backslash, a NUL and a byte beyond ASCII. -/
def sampleConfig : ServerConfig where
  workers := -3
  users := [{ uuid := ascii "a", name := [34, 92, 0, 10, 200] }, { uuid := ascii "b" }]

theorem server_config_round_trip_sample : ∃ disk',
    writeServerConfig (ascii "c.json") sampleConfig { file := none } = (none, disk') ∧
      loadServerConfig intStrtod (ascii "c.json") (List.Vector.replicate 16 0) {} disk' =
        { cfg := sampleConfig, disk := disk' } :=
  (server_config_round_trip intStrtod intStrtod_exact (ascii "c.json") (List.Vector.replicate 16 0)
    (List.Vector.replicate 16 0) { file := none } ⟨rfl, rfl⟩).1 sampleConfig (by decide)

end Cppvless
