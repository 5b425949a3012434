import Mathlib.Data.List.Nodup
import Xfrpc.Config.TomlArrays
import Xfrpc.Control.Responses

namespace Xfrpc.Control.NewProxy

open Config.Loader Config.TomlArrays Foundations.Tokens Wire Responses

/-- Which allocations of `new_proxy_service_marshal` succeed. `value` and `copy` are the
JSON value and the duplicate of the text under a key. -/
structure Allocs where
  object : Bool
  prefixed : Bool
  value : String → Bool
  copy : String → Bool
  text : Bool

def Allocs.ample : Allocs :=
  { object := true, prefixed := true, value := fun _ ↦ true, copy := fun _ ↦ true, text := true }

/-- `json_object_object_add`: the key is deleted and comes back at the end, unless the
value is NULL. -/
def objectAdd (fields : List (String × Json)) (key : String) (val : Option Json) :
    List (String × Json) :=
  fields.eraseP (fun f ↦ f.1 = key) ++ (val.map fun v ↦ (key, v)).toList

def hasUser (user : Option String) : Bool := user.any (· ≠ "")

/-- The name of a proxy in the message. -/
def wireName (user : Option String) (name : String) : String :=
  match user with
  | some u => if u ≠ "" then u ++ "." ++ name else name
  | none => name

/-- The words of a text that `strtok_r` cuts at its commas. -/
def words (text : String) : List String := (tokens ',' text.toList).map String.ofList

/-- What `dns_unified` leaves of a domain. -/
def unifiedDomain (dname : String) : String :=
  String.ofList ((dname.toList.takeWhile (· ≠ '/')).map Char.toLower)

def trimmedUser (user : String) : String :=
  String.ofList (user.toList.dropWhile fun c ↦ c = ' ' || c = '\t')

def addHeader (fields : List (String × Json)) (pair : String) : List (String × Json) :=
  if '=' ∈ pair.toList then
    objectAdd fields (String.ofList (pair.toList.takeWhile (· ≠ '=')))
      (some (.string (String.ofList (pair.toList.dropWhile (· ≠ '=')).tail)))
  else fields

section Entries

variable (m : Allocs) (ps : ProxyService)

def Allocs.new (key : String) (v : Json) : Option Json := if m.value key then some v else none

def Allocs.marshal (key : String) (v : Json) : String × Option Json := (key, m.new key v)

/-- A text that is sent only when it is there. -/
def optionalEntry (key : String) (t : Text) : List (String × Option Json) :=
  ((ps.text t).map fun s ↦ m.marshal key (.string s)).toList

def groupEntries (wtype : String) : List (String × Option Json) :=
  if wtype ∈ ["tcp", "http", "https", "tcpmux", "stcp", "xtcp", "sudp"] then
    optionalEntry m ps "group" .group ++ optionalEntry m ps "group_key" .groupKey
  else []

def domainEntries : List (String × Option Json) :=
  match ps.text .customDomains with
  | some domains =>
    (if m.value "custom_domains" && m.copy "custom_domains" then
      [("custom_domains", some (.array ((words domains).map fun d ↦ .string (unifiedDomain d))))]
    else []) ++ [("remote_port", none)]
  | none =>
    [("custom_domains", none),
      ("remote_port",
        if ps.number .remotePort ≠ -1 then
          m.new "remote_port"
            (.number (toString (ps.number .remotePort)) (ps.number .remotePort))
        else none)]

def locationsEntry : String × Option Json :=
  ("locations", (ps.text .locations).bind fun text ↦
    m.new "locations" (.array (if m.copy "locations" then (words text).map .string else [])))

def headersEntry (key : String) (t : Text) : String × Option Json :=
  (key, (ps.text t).bind fun text ↦
    if m.copy key then m.new key (.object ((words text).foldl addHeader [])) else none)

/-- A text of the message, empty when the proxy has none. -/
def textEntry (key : String) (t : Text) : String × Option Json :=
  m.marshal key (.string ((ps.text t).getD ""))

def tcpmuxEntries (wtype : String) : List (String × Option Json) :=
  if wtype = "tcpmux" then
    m.marshal "multiplexer" (.string ((ps.text .multiplexer).getD "httpconnect")) ::
      optionalEntry m ps "route_by_http_user" .routeByHttpUser
  else []

def allowUsersEntries : List (String × Option Json) :=
  match ps.text .allowUsers with
  | some users =>
    if m.value "allow_users" then
      [("allow_users", some (.array
        (if m.copy "allow_users" then (words users).map fun u ↦ .string (trimmedUser u) else [])))]
    else []
  | none => []

def secretEntries (wtype : String) : List (String × Option Json) :=
  if wtype ∈ ["stcp", "xtcp", "sudp"] then
    optionalEntry m ps "sk" .sk ++ allowUsersEntries m ps
  else []

/-- What `new_proxy_service_marshal` adds after the name, in its order. -/
def laterEntries (wtype : String) : List (String × Option Json) :=
  [m.marshal "proxy_type" (.string wtype),
    m.marshal "use_encryption" (.bool (ps.flag .useEncryption)),
    m.marshal "use_compression" (.bool (ps.flag .useCompression))] ++
  groupEntries m ps wtype ++ domainEntries m ps ++
  [textEntry m ps "subdomain" .subdomain, locationsEntry m ps,
    textEntry m ps "host_header_rewrite" .hostHeaderRewrite,
    textEntry m ps "http_user" .httpUser, textEntry m ps "http_pwd" .httpPwd,
    headersEntry m ps "headers" .requestHeaders,
    headersEntry m ps "response_headers" .responseHeaders] ++
  tcpmuxEntries m ps wtype ++ secretEntries m ps wtype

def entries (user : Option String) (wtype : String) : List (String × Option Json) :=
  m.marshal "proxy_name" (.string (wireName user ps.proxyName)) :: laterEntries m ps wtype

end Entries

def addAll (fields : List (String × Json)) (es : List (String × Option Json)) :
    List (String × Json) :=
  es.foldl (fun fields e ↦ objectAdd fields e.1 e.2) fields

/-- `new_proxy_service_marshal`: the document, the return of 0, or a proxy without a
type, whose NULL goes to `strcmp`. -/
def newProxyServiceMarshal (m : Allocs) (user : Option String) (ps : ProxyService) :
    Except Fail Json :=
  if !m.object || (hasUser user && !m.prefixed) then .error .null
  else
    match ps.proxyType with
    | none => .error .crash
    | some type =>
      if m.text then .ok (.object (addAll [] (entries m ps user (wireType type))))
      else .error .null

/-- The proxy under the name that a StartWorkConn brings. -/
def startWorkConnProxy (user : Option String) (all : Services) (doc : Json) :
    Option ProxyService :=
  match startWorkConnRespUnmarshal user (some doc) with
  | .ok sr => getProxyService all sr.proxyName
  | .error _ => none

/-- The proxy under the name that a NewProxyResp brings. -/
def newProxyRespProxy (user : Option String) (all : Services) (doc : Json) :
    Option ProxyService :=
  match newProxyRespUnmarshal user (some doc) with
  | .ok npr => getProxyService all npr.proxyName
  | .error _ => none

theorem objectAdd_find_of_ne {key k : String} (hk : key ≠ k) (fields : List (String × Json))
    (val : Option Json) :
    ((objectAdd fields key val).find? fun f ↦ f.1 = k) = fields.find? fun f ↦ f.1 = k := by
  have hnew : ((val.map fun v ↦ (key, v)).toList.find? fun f ↦ f.1 = k) = none := by
    cases val with
    | none => rfl
    | some v => simp [hk]
  rw [objectAdd, List.find?_append, hnew, Option.or_none]
  induction fields with
  | nil => rfl
  | cons f fields ih =>
    by_cases hf : f.1 = key
    · have hfk : f.1 ≠ k := fun h ↦ hk (hf.symm.trans h)
      rw [List.eraseP_cons_of_pos (by simpa using hf), List.find?_cons_of_neg (by simpa using hfk)]
    · rw [List.eraseP_cons_of_neg (by simpa using hf), List.find?_cons, List.find?_cons, ih]

theorem addAll_find_of_ne {k : String} (es : List (String × Option Json))
    (hes : ∀ e ∈ es, e.1 ≠ k) (fields : List (String × Json)) :
    ((addAll fields es).find? fun f ↦ f.1 = k) = fields.find? fun f ↦ f.1 = k := by
  induction es generalizing fields with
  | nil => rfl
  | cons e es ih =>
    obtain ⟨he, hrest⟩ := List.forall_mem_cons.mp hes
    rw [addAll, List.foldl_cons]
    exact (ih hrest _).trans (objectAdd_find_of_ne he _ _)

theorem optionalEntry_keys (m : Allocs) (ps : ProxyService) {key k : String} (hk : key ≠ k)
    (t : Text) : ∀ e ∈ optionalEntry m ps key t, e.1 ≠ k := by
  intro e he
  obtain ⟨s, -, rfl⟩ := Option.map_eq_some_iff.mp (Option.mem_toList.mp he)
  exact hk

theorem laterEntries_keys (m : Allocs) (ps : ProxyService) (wtype : String) :
    ∀ e ∈ laterEntries m ps wtype, e.1 ≠ "proxy_name" := by
  have hgroup : ∀ e ∈ groupEntries m ps wtype, e.1 ≠ "proxy_name" := by
    unfold groupEntries
    split_ifs
    · exact List.forall_mem_append.mpr ⟨optionalEntry_keys m ps (by decide) _,
        optionalEntry_keys m ps (by decide) _⟩
    · exact List.forall_mem_nil _
  have hdomain : ∀ e ∈ domainEntries m ps, e.1 ≠ "proxy_name" := by
    unfold domainEntries
    split
    · split_ifs <;> simp
    · simp
  have hmux : ∀ e ∈ tcpmuxEntries m ps wtype, e.1 ≠ "proxy_name" := by
    unfold tcpmuxEntries
    split_ifs
    · exact List.forall_mem_cons.mpr ⟨by simp [Allocs.marshal],
        optionalEntry_keys m ps (by decide) _⟩
    · exact List.forall_mem_nil _
  have husers : ∀ e ∈ allowUsersEntries m ps, e.1 ≠ "proxy_name" := by
    unfold allowUsersEntries
    split
    · split_ifs <;> simp
    · exact List.forall_mem_nil _
  have hsecret : ∀ e ∈ secretEntries m ps wtype, e.1 ≠ "proxy_name" := by
    unfold secretEntries
    split_ifs
    · exact List.forall_mem_append.mpr ⟨optionalEntry_keys m ps (by decide) _, husers⟩
    · exact List.forall_mem_nil _
  unfold laterEntries
  refine List.forall_mem_append.mpr ⟨List.forall_mem_append.mpr ⟨List.forall_mem_append.mpr
    ⟨List.forall_mem_append.mpr ⟨List.forall_mem_append.mpr ⟨?_, hgroup⟩, hdomain⟩, ?_⟩, hmux⟩,
    hsecret⟩
  · simp [Allocs.marshal]
  · simp [textEntry, locationsEntry, headersEntry, Allocs.marshal]

/-- The name in the message, whatever else it has. -/
theorem newProxyServiceMarshal_name {m : Allocs} {user : Option String} {ps : ProxyService}
    {msg : Json} (h : newProxyServiceMarshal m user ps = .ok msg) :
    msg.getEx "proxy_name" = m.new "proxy_name" (.string (wireName user ps.proxyName)) := by
  unfold newProxyServiceMarshal at h
  cases htype : ps.proxyType with
  | none =>
    rw [htype] at h
    split_ifs at h
  | some type =>
    rw [htype] at h
    dsimp only at h
    split_ifs at h
    obtain rfl := Except.ok.inj h
    have hrest := addAll_find_of_ne (laterEntries m ps (wireType type))
      (laterEntries_keys m ps (wireType type))
      (objectAdd [] "proxy_name" (m.new "proxy_name" (.string (wireName user ps.proxyName))))
    have hall : addAll [] (entries m ps user (wireType type)) =
        addAll (objectAdd [] "proxy_name"
          (m.new "proxy_name" (.string (wireName user ps.proxyName))))
          (laterEntries m ps (wireType type)) := rfl
    rw [Json.getEx, hall, hrest, objectAdd, List.eraseP_nil, List.nil_append]
    cases m.new "proxy_name" (.string (wireName user ps.proxyName)) with
    | none => rfl
    | some v => simp

theorem newProxyServiceMarshal_ample {user : Option String} {ps : ProxyService} {type : String}
    (h : ps.proxyType = some type) :
    newProxyServiceMarshal .ample user ps =
      .ok (.object (addAll [] (entries .ample ps user (wireType type)))) := by
  simp [newProxyServiceMarshal, Allocs.ample, h]

/-- Stripping undoes the naming, also for a name that starts with the user and a dot. -/
theorem stripUserPrefix_wireName (user : Option String) (name : String) :
    stripUserPrefix user (some (wireName user name)) = some name := by
  cases user with
  | none => rfl
  | some u =>
    by_cases hu : u = ""
    · simp [stripUserPrefix, wireName, hu]
    · have hlist : (u ++ "." ++ name).toList = (u.toList ++ ['.']) ++ name.toList := by simp
      have hpre : (u.toList ++ ['.']).isPrefixOf ((u.toList ++ ['.']) ++ name.toList) = true :=
        List.isPrefixOf_iff_prefix.mpr (List.prefix_append _ _)
      have hlen : u.toList.length + 1 = (u.toList ++ ['.']).length := by simp
      simp only [stripUserPrefix, wireName, if_pos hu, Option.map_some, hlist]
      rw [if_pos ⟨hu, hpre⟩, hlen, List.drop_left, String.ofList_toList]

theorem wireName_injective (user : Option String) : Function.Injective (wireName user) := by
  intro a b h
  have hs := stripUserPrefix_wireName user a
  rw [h, stripUserPrefix_wireName] at hs
  exact (Option.some.inj hs).symm

theorem getProxyService_mem {all : Services} (hd : (all.map fun q ↦ q.proxyName).Nodup)
    {p : ProxyService} (hp : p ∈ all) : getProxyService all p.proxyName = some p := by
  unfold getProxyService
  cases hf : all.find? fun q ↦ q.proxyName = p.proxyName with
  | none =>
    have hno := List.find?_eq_none.mp hf p hp
    simp at hno
  | some q =>
    have hname : q.proxyName = p.proxyName := by simpa using List.find?_some hf
    rw [List.inj_on_of_nodup_map hd (List.mem_of_find?_eq_some hf) hp hname]

section Echo

variable {user : Option String} {name : String} {doc : Json}

theorem startWorkConnRespUnmarshal_echo
    (h : doc.getEx "proxy_name" = some (.string (wireName user name))) :
    startWorkConnRespUnmarshal user (some doc) = .ok { proxyName := name } := by
  simp only [startWorkConnRespUnmarshal, orNull, h, Json.getString, bind, Except.bind,
    stripUserPrefix_wireName, strdup]
  rfl

theorem newProxyRespUnmarshal_echo
    (h : doc.getEx "proxy_name" = some (.string (wireName user name))) :
    ∃ npr, newProxyRespUnmarshal user (some doc) = .ok npr ∧ npr.proxyName = name := by
  simp only [newProxyRespUnmarshal, orNull, h, Json.getString, bind, Except.bind,
    stripUserPrefix_wireName, strdup]
  exact ⟨_, rfl, rfl⟩

end Echo

theorem echoed_name_resolves {user : Option String} {all : Services}
    (hd : (all.map fun q ↦ q.proxyName).Nodup) {p : ProxyService} (hp : p ∈ all)
    {m : Allocs} {msg pn : Json} (hm : newProxyServiceMarshal m user p = .ok msg)
    (hw : msg.getEx "proxy_name" = some pn) :
    (∀ doc : Json, doc.getEx "proxy_name" = some pn →
      startWorkConnProxy user all doc = some p ∧ newProxyRespProxy user all doc = some p) ∧
    ∀ q ∈ all, q ≠ p → ∀ (m' : Allocs) (msg' : Json),
      newProxyServiceMarshal m' user q = .ok msg' → msg'.getEx "proxy_name" ≠ some pn := by
  have hname : ∀ {q : ProxyService} {m' : Allocs} {msg' : Json},
      newProxyServiceMarshal m' user q = .ok msg' → msg'.getEx "proxy_name" = some pn →
      pn = .string (wireName user q.proxyName) := by
    intro q m' msg' hq hpn
    rw [newProxyServiceMarshal_name hq, Allocs.new] at hpn
    split_ifs at hpn
    exact (Option.some.inj hpn).symm
  have hpn := hname hm hw
  constructor
  · intro doc hdoc
    rw [hpn] at hdoc
    obtain ⟨npr, hnpr, hnm⟩ := newProxyRespUnmarshal_echo hdoc
    refine ⟨?_, ?_⟩
    · rw [startWorkConnProxy, startWorkConnRespUnmarshal_echo hdoc]
      exact getProxyService_mem hd hp
    · rw [newProxyRespProxy, hnpr]
      dsimp only
      rw [hnm]
      exact getProxyService_mem hd hp
  · intro q hq hne m' msg' hmq hsame
    have heq := hpn.symm.trans (hname hmq hsame)
    have hnames : p.proxyName = q.proxyName := wireName_injective user (Json.string.inj heq)
    exact hne (List.inj_on_of_nodup_map hd hq hp hnames.symm)

def web : ProxyService := { newProxyService "web" with proxyType := some "tcp" }

/-- Its name starts with the user and a dot. -/
def nested : ProxyService := { newProxyService "ann.web" with proxyType := some "tcp" }

theorem echoed_name_resolves_nested :
    let pn := Json.string "ann.ann.web"
    let doc := Json.object [("proxy_name", pn)]
    startWorkConnProxy (some "ann") [web, nested] doc = some nested ∧
      newProxyRespProxy (some "ann") [web, nested] doc = some nested :=
  (echoed_name_resolves (by simp [web, nested, newProxyService]) (by simp)
    (newProxyServiceMarshal_ample rfl) (newProxyServiceMarshal_name
      (newProxyServiceMarshal_ample rfl))).1 _ rfl

end Xfrpc.Control.NewProxy
