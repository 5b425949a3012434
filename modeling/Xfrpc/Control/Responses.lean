import Xfrpc.Config.Loader
import Xfrpc.Wire.Json

namespace Xfrpc.Control.Responses

open Config.Loader Wire

/-- How a parser ends without a record: it returns NULL, or it has passed NULL to
`strdup`. -/
inductive Fail
  | null | crash
  deriving DecidableEq, Repr

def strdup : Option String → Except Fail String
  | some s => .ok s
  | none => .error .crash

/-- A value, or the way out to `return NULL`. -/
def orNull {α : Type} : Option α → Except Fail α
  | some a => .ok a
  | none => .error .null

/-- `xfrpc_strip_user_prefix` under `common.user`. -/
def stripUserPrefix (user : Option String) (wireName : Option String) : Option String :=
  wireName.map fun name ↦
    match user with
    | none => name
    | some u =>
      if u ≠ "" ∧ (u.toList ++ ['.']).isPrefixOf name.toList then
        String.ofList (name.toList.drop (u.toList.length + 1))
      else name

/-- The text of a key that may be missing. -/
def optionalText (j : Json) (key : String) : Option String := (j.getEx key).bind Json.getString

structure LoginResp where
  version : String
  runId : String
  error : Option String
  deriving DecidableEq, Repr

def loginRespUnmarshal (doc : Option Json) : Except Fail LoginResp := do
  let j ← orNull doc
  let version ← orNull (j.getEx "version")
  let version ← strdup version.getString
  let runId ← orNull (j.getEx "run_id")
  let runId ← strdup runId.getString
  return { version, runId, error := optionalText j "error" }

structure NewProxyResponse where
  runId : Option String
  proxyName : String
  error : Option String
  remotePort : ℤ
  deriving DecidableEq, Repr

/-- The number behind the last colon of `remote_addr`, and 0 without one. -/
def remotePortOf (remoteAddr : Option String) : ℤ :=
  match remoteAddr with
  | none => 0
  | some s =>
    if ':' ∈ s.toList then atoi (String.ofList (s.toList.reverse.takeWhile (· ≠ ':')).reverse)
    else 0

def newProxyRespUnmarshal (user : Option String) (doc : Option Json) :
    Except Fail NewProxyResponse := do
  let j ← orNull doc
  let runId := optionalText j "run_id"
  let remotePort := remotePortOf (optionalText j "remote_addr")
  let name ← orNull (j.getEx "proxy_name")
  let proxyName ← strdup (stripUserPrefix user name.getString)
  return { runId, proxyName, error := optionalText j "error", remotePort }

structure StartWorkConnResp where
  proxyName : String
  deriving DecidableEq, Repr

def startWorkConnRespUnmarshal (user : Option String) (doc : Option Json) :
    Except Fail StartWorkConnResp := do
  let j ← orNull doc
  let pn ← orNull (j.getEx "proxy_name")
  let name ← orNull pn.getString
  let proxyName ← strdup (stripUserPrefix user name)
  return { proxyName }

structure UdpAddr where
  addr : String
  zone : String
  port : Option ℤ
  deriving DecidableEq, Repr

/-- `parse_udp_addr` on a value that is there. -/
def parseUdpAddr (j : Json) : Except Fail (Option UdpAddr) :=
  match j.getEx "IP", j.getEx "Port" with
  | some ip, some port => do
    let addr ← strdup ip.getString
    let zone ← strdup (match j.getEx "Zone" with
      | some zone => zone.getString
      | none => some "")
    return some { addr, zone, port := port.getInt }
  | _, _ => return none

structure UdpPacket where
  content : String
  laddr : Option UdpAddr
  raddr : Option UdpAddr
  deriving DecidableEq, Repr

/-- The address under a key that may be missing. -/
def addrAt (j : Json) (key : String) : Except Fail (Option UdpAddr) :=
  match j.getEx key with
  | some v => parseUdpAddr v
  | none => return none

def udpPacketUnmarshal (doc : Option Json) : Except Fail UdpPacket := do
  let j ← orNull doc
  let c ← orNull (j.getEx "c")
  let content ← strdup c.getString
  let laddr ← addrAt j "l"
  let raddr ← addrAt j "r"
  return { content, laddr, raddr }

/-- A parser ends without passing NULL to `strdup`. -/
def Safe {α : Type} (r : Except Fail α) : Prop := r ≠ .error .crash

inductive Parser
  | loginResp | newProxyResp | startWorkConnResp | udpPacket
  deriving DecidableEq, Repr

def Survives (user : Option String) (doc : Option Json) : Parser → Prop
  | .loginResp => Safe (loginRespUnmarshal doc)
  | .newProxyResp => Safe (newProxyRespUnmarshal user doc)
  | .startWorkConnResp => Safe (startWorkConnRespUnmarshal user doc)
  | .udpPacket => Safe (udpPacketUnmarshal doc)

/-- The key is missing, or its value has a text. -/
def textOrAbsent (j : Json) (key : String) : Bool := (j.getEx key).all Json.hasText

/-- An address that is no object with an IP and a port, or has a text for its IP and
none but a text for its zone. -/
def plainAddr (j : Json) : Bool :=
  (j.getEx "IP").isNone || (j.getEx "Port").isNone ||
    (textOrAbsent j "IP" && textOrAbsent j "Zone")

/-- The documents a parser survives. A login without a version is given up before its
run id is looked at, and a packet without content before its addresses are. -/
def Plain (j : Json) : Parser → Bool
  | .loginResp => (j.getEx "version").isNone ||
      (textOrAbsent j "version" && textOrAbsent j "run_id")
  | .newProxyResp => textOrAbsent j "proxy_name"
  | .startWorkConnResp => true
  | .udpPacket => (j.getEx "c").isNone ||
      (textOrAbsent j "c" && (j.getEx "l").all plainAddr && (j.getEx "r").all plainAddr)

section Steps

variable {α β : Type}

@[simp] theorem safe_ok (a : α) : Safe (Except.ok a : Except Fail α) :=
  fun h ↦ by cases h

@[simp] theorem safe_null : Safe (Except.error .null : Except Fail α) :=
  fun h ↦ by cases h

@[simp] theorem not_safe_crash : ¬ Safe (Except.error .crash : Except Fail α) :=
  fun h ↦ h rfl

theorem safe_orNull_bind (o : Option α) (f : α → Except Fail β) :
    Safe (orNull o >>= f) ↔ ∀ a ∈ o, Safe (f a) := by
  cases o with
  | none => exact iff_of_true safe_null (fun a ha ↦ absurd ha (by simp))
  | some a => exact ⟨fun h b hb ↦ by obtain rfl := Option.some.inj hb; exact h, fun h ↦ h a rfl⟩

theorem safe_strdup_bind (o : Option String) (f : String → Except Fail β) :
    Safe (strdup o >>= f) ↔ o.isSome = true ∧ ∀ s ∈ o, Safe (f s) := by
  cases o with
  | none => exact iff_of_false not_safe_crash (fun h ↦ absurd h.1 Bool.false_ne_true)
  | some s =>
    exact ⟨fun h ↦ ⟨rfl, fun b hb ↦ by obtain rfl := Option.some.inj hb; exact h⟩,
      fun h ↦ h.2 s rfl⟩

/-- What comes next is not looked at again: only whether it is reached matters. -/
theorem safe_bind_iff (r : Except Fail α) (f : α → Except Fail β) :
    Safe (r >>= f) ↔ Safe r ∧ ∀ a, r = .ok a → Safe (f a) := by
  cases r with
  | error e =>
    cases e with
    | null => exact iff_of_true safe_null ⟨safe_null, fun a ha ↦ by cases ha⟩
    | crash => exact iff_of_false not_safe_crash (fun h ↦ not_safe_crash h.1)
  | ok a =>
    exact ⟨fun h ↦ ⟨safe_ok a, fun b hb ↦ by obtain rfl := Except.ok.inj hb; exact h⟩,
      fun h ↦ h.2 a rfl⟩

end Steps

theorem stripUserPrefix_isSome (user wireName : Option String) :
    (stripUserPrefix user wireName).isSome = wireName.isSome := by
  rw [stripUserPrefix, Option.isSome_map]

theorem safe_pure {α : Type} (a : α) : Safe (pure a : Except Fail α) := safe_ok a

theorem safe_required {α : Type} (j : Json) (key : String) (f : String → Except Fail α) :
    Safe (orNull (j.getEx key) >>= fun v ↦ strdup v.getString >>= f) ↔
      textOrAbsent j key = true ∧ ∀ s, optionalText j key = some s → Safe (f s) := by
  rw [safe_orNull_bind, textOrAbsent, optionalText]
  cases j.getEx key with
  | none => exact iff_of_true (fun a ha ↦ by cases ha) ⟨rfl, fun s hs ↦ by cases hs⟩
  | some v =>
    constructor
    · intro h
      exact (safe_strdup_bind _ _).mp (h v rfl)
    · intro h a ha
      obtain rfl := Option.some.inj ha
      exact (safe_strdup_bind _ _).mpr h

/-- What is behind a required text matters only where the key is there. -/
theorem required_then_iff (j : Json) (key : String) (Q : Prop) :
    (textOrAbsent j key = true ∧ ∀ s, optionalText j key = some s → Q) ↔
      ((j.getEx key).isNone = true ∨ (textOrAbsent j key = true ∧ Q)) := by
  rw [textOrAbsent, optionalText]
  cases hv : j.getEx key with
  | none => exact iff_of_true ⟨rfl, fun s hs ↦ by cases hs⟩ (.inl rfl)
  | some v =>
    constructor
    · intro h
      obtain ⟨s, hs⟩ := Option.isSome_iff_exists.mp h.1
      exact .inr ⟨h.1, h.2 s hs⟩
    · intro h
      have h' := h.resolve_left Bool.false_ne_true
      exact ⟨h'.1, fun _ _ ↦ h'.2⟩

theorem safe_loginResp (j : Json) :
    Safe (loginRespUnmarshal (some j)) ↔ Plain j .loginResp = true := by
  have hrun : Safe (loginRespUnmarshal (some j)) ↔ textOrAbsent j "version" = true ∧
      ∀ s, optionalText j "version" = some s → textOrAbsent j "run_id" = true := by
    refine (safe_required j "version" _).trans (and_congr_right fun _ ↦ ?_)
    refine forall₂_congr fun s _ ↦ (safe_required j "run_id" _).trans ?_
    exact and_iff_left (fun r _ ↦ safe_pure _)
  rw [hrun, required_then_iff, Plain, Bool.or_eq_true, Bool.and_eq_true]

theorem safe_newProxyResp (user : Option String) (j : Json) :
    Safe (newProxyRespUnmarshal user (some j)) ↔ Plain j .newProxyResp = true := by
  refine (safe_orNull_bind (j.getEx "proxy_name") _).trans ?_
  rw [Plain, textOrAbsent]
  cases j.getEx "proxy_name" with
  | none => exact iff_of_true (fun a ha ↦ by cases ha) rfl
  | some v =>
    have hv : Safe (strdup (stripUserPrefix user v.getString) >>= fun proxyName ↦
        (pure { runId := optionalText j "run_id", proxyName, error := optionalText j "error"
                remotePort := remotePortOf (optionalText j "remote_addr") } :
          Except Fail NewProxyResponse)) ↔ v.hasText = true := by
      rw [safe_strdup_bind, stripUserPrefix_isSome, and_iff_left (fun s _ ↦ safe_pure _)]
      rfl
    constructor
    · intro h
      exact hv.mp (h v rfl)
    · intro h a ha
      obtain rfl := Option.some.inj ha
      exact hv.mpr h

theorem safe_startWorkConnResp (user : Option String) (j : Json) :
    Safe (startWorkConnRespUnmarshal user (some j)) := by
  refine (safe_orNull_bind (j.getEx "proxy_name") _).mpr ?_
  intro pn _
  refine (safe_orNull_bind pn.getString _).mpr ?_
  intro name _
  refine (safe_strdup_bind _ _).mpr ⟨?_, fun s _ ↦ safe_pure _⟩
  rw [stripUserPrefix_isSome]
  rfl

theorem safe_parseUdpAddr (j : Json) : Safe (parseUdpAddr j) ↔ plainAddr j = true := by
  unfold parseUdpAddr plainAddr
  cases hip : j.getEx "IP" with
  | none => exact iff_of_true (safe_pure _) rfl
  | some ip =>
    cases hport : j.getEx "Port" with
    | none => exact iff_of_true (safe_pure _) rfl
    | some port =>
      have hip' : textOrAbsent j "IP" = ip.hasText := by rw [textOrAbsent, hip]; rfl
      have hzone : (match j.getEx "Zone" with
          | some zone => zone.getString
          | none => some "").isSome = textOrAbsent j "Zone" := by
        rw [textOrAbsent]
        cases j.getEx "Zone" with
        | none => rfl
        | some zone => rfl
      rw [safe_strdup_bind, hip', ← hzone]
      simp only [safe_strdup_bind, safe_pure, implies_true, and_true, Option.isNone_some,
        Bool.false_or, Bool.and_eq_true]
      constructor
      · intro h
        obtain ⟨s, hs⟩ := Option.isSome_iff_exists.mp h.1
        exact ⟨h.1, h.2 s hs⟩
      · intro h
        exact ⟨h.1, fun _ _ ↦ h.2⟩

theorem safe_addrAt (j : Json) (key : String) :
    Safe (addrAt j key) ↔ (j.getEx key).all plainAddr = true := by
  unfold addrAt
  cases j.getEx key with
  | none => exact iff_of_true (safe_pure _) rfl
  | some v => exact safe_parseUdpAddr v

/-- An address has no failure but the crash. -/
theorem parseUdpAddr_ok {j : Json} (h : Safe (parseUdpAddr j)) : ∃ a, parseUdpAddr j = .ok a := by
  unfold parseUdpAddr at h ⊢
  cases hip : j.getEx "IP" with
  | none => exact ⟨none, rfl⟩
  | some ip =>
    cases hport : j.getEx "Port" with
    | none => exact ⟨none, rfl⟩
    | some port =>
      rw [hip, hport] at h
      dsimp only at h ⊢
      generalize (match j.getEx "Zone" with
          | some zone => zone.getString
          | none => some "") = zone at h ⊢
      obtain ⟨hs, hz⟩ := (safe_strdup_bind _ _).mp h
      obtain ⟨addr, haddr⟩ := Option.isSome_iff_exists.mp hs
      obtain ⟨hs', -⟩ := (safe_strdup_bind _ _).mp (hz addr haddr)
      obtain ⟨z, rfl⟩ := Option.isSome_iff_exists.mp hs'
      rw [haddr]
      exact ⟨_, rfl⟩

theorem safe_addrAt_bind {α : Type} (j : Json) (key : String)
    (f : Option UdpAddr → Except Fail α) (Q : Prop) (hf : ∀ a, Safe (f a) ↔ Q) :
    Safe (addrAt j key >>= f) ↔ (j.getEx key).all plainAddr = true ∧ Q := by
  rw [safe_bind_iff, safe_addrAt]
  refine and_congr_right fun hall ↦ ?_
  have hok : ∃ a, addrAt j key = .ok a := by
    unfold addrAt
    cases hv : j.getEx key with
    | none => exact ⟨none, rfl⟩
    | some v =>
      rw [hv] at hall
      exact parseUdpAddr_ok ((safe_parseUdpAddr v).mpr hall)
  obtain ⟨a, ha⟩ := hok
  constructor
  · intro h
    exact (hf a).mp (h a ha)
  · intro hq b _
    exact (hf b).mpr hq

theorem safe_udpPacket (j : Json) :
    Safe (udpPacketUnmarshal (some j)) ↔ Plain j .udpPacket = true := by
  have hrun : Safe (udpPacketUnmarshal (some j)) ↔ textOrAbsent j "c" = true ∧
      ∀ s, optionalText j "c" = some s →
        ((j.getEx "l").all plainAddr = true ∧ (j.getEx "r").all plainAddr = true) := by
    refine (safe_required j "c" _).trans (and_congr_right fun _ ↦ ?_)
    refine forall₂_congr fun s _ ↦ safe_addrAt_bind j "l" _ _ fun laddr ↦ ?_
    refine (safe_addrAt_bind j "r" _ True fun raddr ↦ ?_).trans (and_iff_left trivial)
    exact iff_of_true (safe_pure _) trivial
  rw [hrun, required_then_iff, Plain, Bool.or_eq_true, Bool.and_eq_true, Bool.and_eq_true, and_assoc]

/-- A parser survives a document just when the document cannot be parsed, or the keys
whose texts are copied unchecked are missing or have a text. -/
theorem unmarshal_survives_iff (user : Option String) (doc : Option Json) (p : Parser) :
    Survives user doc p ↔ doc.all (Plain · p) = true := by
  cases doc with
  | none =>
    refine iff_of_true ?_ rfl
    cases p <;> exact safe_null
  | some j =>
    cases p with
    | loginResp => exact safe_loginResp j
    | newProxyResp => exact safe_newProxyResp user j
    | startWorkConnResp => exact iff_of_true (safe_startWorkConnResp user j) rfl
    | udpPacket => exact safe_udpPacket j

theorem login_null_version_crashes :
    ¬ Survives none (some (.object [("version", .null), ("run_id", .string "x")])) .loginResp :=
  fun h ↦ h rfl

end Xfrpc.Control.Responses
