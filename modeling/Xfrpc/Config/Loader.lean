import Mathlib.Data.List.Infix
import Mathlib.Logic.Function.Basic
import Mathlib.Tactic.SplitIfs

namespace Xfrpc.Config.Loader

inductive Text
  | localIp | bindAddr | customDomains | subdomain | locations | hostHeaderRewrite
  | httpUser | httpPwd | requestHeaders | responseHeaders | group | groupKey
  | plugin | pluginUser | pluginPwd | pluginUnixPath | sRootDir | multiplexer
  | routeByHttpUser | sk | allowUsers | healthCheckType | healthCheckUrl
  deriving DecidableEq, Repr

inductive Number
  | localPort | remotePort | startTime | endTime
  | healthCheckInterval | healthCheckTimeout | healthCheckMaxFailed
  deriving DecidableEq, Repr

inductive Flag
  | useEncryption | useCompression
  deriving DecidableEq, Repr

inductive Key
  | type
  | text (t : Text)
  | number (n : Number)
  | flag (f : Flag)
  | serviceType
  deriving DecidableEq, Repr

def iniName : Key → String
  | .type => "type"
  | .text .localIp => "local_ip"
  | .text .bindAddr => "bind_addr"
  | .text .customDomains => "custom_domains"
  | .text .subdomain => "subdomain"
  | .text .locations => "locations"
  | .text .hostHeaderRewrite => "host_header_rewrite"
  | .text .httpUser => "http_user"
  | .text .httpPwd => "http_pwd"
  | .text .requestHeaders => "request_headers"
  | .text .responseHeaders => "response_headers"
  | .text .group => "group"
  | .text .groupKey => "group_key"
  | .text .plugin => "plugin"
  | .text .pluginUser => "plugin_user"
  | .text .pluginPwd => "plugin_pwd"
  | .text .pluginUnixPath => "plugin_unix_path"
  | .text .sRootDir => "root_dir"
  | .text .multiplexer => "multiplexer"
  | .text .routeByHttpUser => "route_by_http_user"
  | .text .sk => "sk"
  | .text .allowUsers => "allow_users"
  | .text .healthCheckType => "health_check_type"
  | .text .healthCheckUrl => "health_check_url"
  | .number .localPort => "local_port"
  | .number .remotePort => "remote_port"
  | .number .startTime => "start_time"
  | .number .endTime => "end_time"
  | .number .healthCheckInterval => "health_check_interval"
  | .number .healthCheckTimeout => "health_check_timeout"
  | .number .healthCheckMaxFailed => "health_check_max_failed"
  | .flag .useEncryption => "use_encryption"
  | .flag .useCompression => "use_compression"
  | .serviceType => "service_type"

/-- The path of a key in a table of `proxies`. -/
def tomlName : Key → String
  | .type => "type"
  | .text .localIp => "localIP"
  | .text .bindAddr => "bindAddr"
  | .text .customDomains => "customDomains"
  | .text .subdomain => "subdomain"
  | .text .locations => "locations"
  | .text .hostHeaderRewrite => "hostHeaderRewrite"
  | .text .httpUser => "httpUser"
  | .text .httpPwd => "httpPassword"
  | .text .requestHeaders => "requestHeaders.set"
  | .text .responseHeaders => "responseHeaders.set"
  | .text .group => "loadBalancer.group"
  | .text .groupKey => "loadBalancer.groupKey"
  | .text .plugin => "plugin.type"
  | .text .pluginUser => "plugin.httpUser"
  | .text .pluginPwd => "plugin.httpPassword"
  | .text .pluginUnixPath => "plugin.unixPath"
  | .text .sRootDir => "plugin.localPath"
  | .text .multiplexer => "multiplexer"
  | .text .routeByHttpUser => "routeByHTTPUser"
  | .text .sk => "secretKey"
  | .text .allowUsers => "allowUsers"
  | .text .healthCheckType => "healthCheck.type"
  | .text .healthCheckUrl => "healthCheck.path"
  | .number .localPort => "localPort"
  | .number .remotePort => "remotePort"
  | .number .startTime => "startTime"
  | .number .endTime => "endTime"
  | .number .healthCheckInterval => "healthCheck.intervalSeconds"
  | .number .healthCheckTimeout => "healthCheck.timeoutSeconds"
  | .number .healthCheckMaxFailed => "healthCheck.maxFailed"
  | .flag .useEncryption => "transport.useEncryption"
  | .flag .useCompression => "transport.useCompression"
  | .serviceType => "serviceType"

/-- The keys after the type, in the order `load_toml_proxies` asks for them. -/
def tomlKeys : List Key :=
  [.text .localIp, .text .bindAddr, .number .localPort, .number .remotePort, .serviceType,
    .number .startTime, .number .endTime, .flag .useEncryption, .flag .useCompression,
    .text .customDomains, .text .subdomain, .text .locations, .text .hostHeaderRewrite,
    .text .httpUser, .text .httpPwd, .text .requestHeaders, .text .responseHeaders, .text .group,
    .text .groupKey, .text .plugin, .text .pluginUser, .text .pluginPwd, .text .pluginUnixPath,
    .text .sRootDir, .text .multiplexer, .text .routeByHttpUser, .text .sk, .text .allowUsers,
    .text .healthCheckType, .text .healthCheckUrl, .number .healthCheckInterval,
    .number .healthCheckTimeout, .number .healthCheckMaxFailed]

/-- The key `proxy_service_handler` finds for a name. -/
def iniKey (nm : String) : Option Key := (.type :: tomlKeys).find? fun k ↦ iniName k = nm

inductive ServiceType
  | noXdpi | mstsc | rdp | vnc | ssh | telnet | http | https
  deriving DecidableEq, Repr

def convertServiceType (value : String) : ServiceType :=
  if value = "ssh" then .ssh
  else if value = "rdp" then .rdp
  else if value = "vnc" then .vnc
  else if value = "telnet" then .telnet
  else if value = "http" then .http
  else if value = "https" then .https
  else if value = "mstsc" then .mstsc
  else .noXdpi

def isSpace (c : Char) : Bool := c = ' ' || ('\t' ≤ c && c ≤ '\r')

/-- An `int` takes the nearest value it can. -/
def clampInt (n : ℤ) : ℤ := max (-2147483648) (min n 2147483647)

def atoi (value : String) : ℤ :=
  let (neg, s) := match value.toList.dropWhile isSpace with
    | '-' :: t => (true, t)
    | '+' :: t => (false, t)
    | t => (false, t)
  let n : ℕ := Nat.ofDigitChars 10 (s.takeWhile Char.isDigit) 0
  clampInt (if neg then -n else n)

def isTrue (value : String) : Bool :=
  value.toList.map Char.toLower ∈ ["true".toList, "yes".toList, "on".toList] || value = "1"

def flagValue (value : String) : Bool := isTrue value || atoi value != 0

/-- `struct proxy_service`, with its texts, numbers and flags under their keys. -/
structure ProxyService where
  proxyName : String
  proxyType : Option String
  text : Text → Option String
  number : Number → ℤ
  flag : Flag → Bool
  serviceType : ServiceType

def defaultNumber : Number → ℤ
  | .healthCheckInterval => 10
  | .healthCheckTimeout => 3
  | .healthCheckMaxFailed => 1
  | _ => 0

def newProxyService (name : String) : ProxyService :=
  { proxyName := name, proxyType := none, text := fun _ ↦ none, number := defaultNumber
    flag := fun _ ↦ false, serviceType := .noXdpi }

def ProxyService.set (ps : ProxyService) (k : Key) (value : String) : ProxyService :=
  match k with
  | .type => { ps with proxyType := some value }
  | .text t => { ps with text := Function.update ps.text t (some value) }
  | .number n => { ps with number := Function.update ps.number n (atoi value) }
  | .flag f => { ps with flag := Function.update ps.flag f (flagValue value) }
  | .serviceType => { ps with serviceType := convertServiceType value }

def validTypes : List String :=
  ["tcp", "udp", "socks5", "http", "https", "tcpmux", "stcp", "xtcp", "sudp"]

def getValidType (val : Option String) : Option String := val.filter (· ∈ validTypes)

def needsLocalEndpoint (type : String) : Bool :=
  type ∈ ["tcp", "udp", "http", "https", "tcpmux", "stcp", "xtcp", "sudp"]

def validateProxy (ps : ProxyService) : Bool :=
  match ps.proxyType with
  | none => false
  | some type =>
    if needsLocalEndpoint type ∧ (ps.number .localPort = 0 ∨ ps.text .localIp = none) then false
    else if type = "socks5" then ps.number .remotePort != 0
    else if type ∈ ["http", "https", "tcpmux"] then
      (ps.text .customDomains).isSome != (ps.text .subdomain).isSome
    else if type ∈ ["stcp", "xtcp", "sudp"] then (ps.text .sk).isSome
    else type = "tcp" || type = "udp"

/-- The table `all_ps`. -/
abbrev Services := List ProxyService

def getProxyService (all : Services) (name : String) : Option ProxyService :=
  all.find? fun ps ↦ ps.proxyName = name

def updateService (all : Services) (ps : ProxyService) : Services :=
  if (getProxyService all ps.proxyName).isSome then
    all.map fun old ↦ if old.proxyName = ps.proxyName then ps else old
  else all ++ [ps]

def addOrReplaceProxyService (all : Services) (ps : ProxyService) : Services :=
  all.filter (fun old ↦ old.proxyName ≠ ps.proxyName) ++ [ps]

def defaultSocks5Port : ℤ := 1980

def socks5Default (ps : ProxyService) : ProxyService :=
  if ps.proxyType = some "socks5" ∧ ps.number .remotePort = 0 then
    { ps with number := Function.update ps.number .remotePort defaultSocks5Port }
  else ps

def refused (k : Key) (value : String) : Bool :=
  match k with
  | .type => (getValidType (some value)).isNone
  | .number .startTime | .number .endTime => atoi value < 0 || atoi value > 23
  | _ => false

/-- The proxy a section is about; none after a bare `proxy:`. -/
def sectionProxy (sect : String) : Option String :=
  if "proxy:".toList <+: sect.toList then
    if sect.toList.drop 6 = [] then none else some (String.ofList (sect.toList.drop 6))
  else some sect

def isVisitor (sect : String) : Bool := "visitor".toList <:+: sect.toList

/-- `proxy_service_handler`, which inih calls for each key of each section. -/
def proxyServiceHandler (all : Services) (sect nm value : String) : Option Services :=
  if sect = "common" then some all
  else if isVisitor sect then some all
  else do
    let name ← sectionProxy sect
    let ps := (getProxyService all name).getD (newProxyService name)
    let ps ← match iniKey nm with
      | some k => if refused k value then none else some (ps.set k value)
      | none => some ps
    return updateService all (socks5Default ps)

/-- The proxies `validate_loaded_config` lets pass. -/
def validateLoadedConfig (all : Services) : Option Services :=
  if all.all validateProxy then some all else none

structure IniEntry where
  sect : String
  nm : String
  value : String
  deriving DecidableEq, Repr

def loadIni (entries : List IniEntry) : Option Services := do
  let all ← entries.foldlM (fun all e ↦ proxyServiceHandler all e.sect e.nm e.value) []
  validateLoadedConfig all

/-- What tomlc17 finds under a path. Numbers with a fraction are left out, and empty
arrays, for which the code returns what its buffer holds from before. -/
inductive Toml
  | string (s : String)
  | int64 (n : ℤ)
  | boolean (b : Bool)
  | array (first : String ⊕ ℤ) (rest : List (String ⊕ ℤ))
  | table (pairs : List (String × String))
  | other
  deriving DecidableEq, Repr

/-- A table of `proxies`. -/
abbrev TomlSection := String → Option Toml

def tomlGet (sec : TomlSection) (key : String) : Option String :=
  match sec key with
  | some (.string s) => some s
  | some (.int64 n) => some (toString n)
  | some (.boolean b) => some (if b then "1" else "0")
  | some (.array first rest) => some (", ".intercalate ((first :: rest).map (Sum.elim id toString)))
  | _ => none

def tomlGetTablePairs (sec : TomlSection) (path : String) : Option String :=
  match sec path with
  | some (.table []) => none
  | some (.table pairs) => some (",".intercalate (pairs.map fun p ↦ p.1 ++ "=" ++ p.2))
  | _ => none

/-- The text `load_toml_proxies` gets for a key. -/
def tomlText (sec : TomlSection) (k : Key) : Option String :=
  match k with
  | .text .requestHeaders => tomlGetTablePairs sec (tomlName k)
  | .text .responseHeaders => tomlGetTablePairs sec (tomlName k)
  | _ => tomlGet sec (tomlName k)

def setToml (sec : TomlSection) (ps : ProxyService) (k : Key) : ProxyService :=
  match tomlText sec k with
  | some value => ps.set k value
  | none => ps

/-- One turn of the loop of `load_toml_proxies`. -/
def loadTomlProxy (all : Services) (sec : TomlSection) : Option Services := do
  let name ← tomlGet sec "name"
  if (tomlGet sec "enabled").any fun v ↦ !flagValue v then return all
  let ps := setToml sec (newProxyService name) .type
  if (getValidType ps.proxyType).isNone then none
  return addOrReplaceProxyService all (tomlKeys.foldl (setToml sec) ps)

def loadToml (sections : List TomlSection) : Option Services := do
  let all ← sections.foldlM loadTomlProxy []
  validateLoadedConfig all

/-- `xfrpc_tcp_proxy_t`. -/
structure TcpProxy where
  name : Option String
  localIp : Option String
  localPort : UInt16
  remotePort : UInt16
  useEncryption : ℤ
  useCompression : ℤ

/-- `config_add_proxy_service`; `snappy` says that the build has compression. -/
def configAddProxyService (snappy : Bool) (all : Services) (name type localIp : String)
    (localPort remotePort : ℤ) (useEncryption useCompression : ℤ) : Option Services :=
  if (getValidType (some type)).isNone then none
  else
    let ps := newProxyService name
    some (addOrReplaceProxyService all
      { ps with
        proxyType := some type
        text := Function.update ps.text .localIp (some localIp)
        number :=
          Function.update (Function.update ps.number .localPort localPort) .remotePort remotePort
        flag := fun
          | .useEncryption => useEncryption != 0
          | .useCompression => useCompression != 0 && snappy })

/-- The proxies of `xfrpc_start`. -/
def xfrpcStart (snappy : Bool) (proxies : List TcpProxy) : Option Services :=
  proxies.foldlM (fun all p ↦
    match p.name, p.localIp with
    | some name, some localIp =>
      if p.localPort = 0 then none
      else
        configAddProxyService snappy all name "tcp" localIp p.localPort.toNat p.remotePort.toNat
          p.useEncryption p.useCompression
    | _, _ => none) []

end Xfrpc.Config.Loader
