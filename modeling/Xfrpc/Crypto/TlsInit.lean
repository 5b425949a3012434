import Mathlib.Data.Int.Notation
import Xfrpc.Foundations.CString

namespace Xfrpc.Crypto.TlsInit

open Foundations.CString

/-- A piece of certificate material as the configuration names it. -/
structure Material where
  pem : Option Bytes
  path : Option Bytes
  deriving DecidableEq, Repr

def given (s : Option Bytes) : Bool := s.any (· ≠ [])

def Material.configured (m : Material) : Bool := given m.pem || given m.path

/-- How the loading of one piece goes: whether `strdup`, `fopen`, `fseek` and `malloc`
succeed, what `ftell` says, what is in the file, and how many bytes `fread` gets. -/
structure Loading where
  strdups : Bool
  opens : Bool
  seeks : Bool
  size : ℤ
  allocates : Bool
  content : Bytes
  rd : ℕ
  deriving DecidableEq, Repr

def maxPemSize : ℤ := 64 * 1024

/-- The text that is configured: the inline one, else that of the file. -/
def Material.text (m : Material) (l : Loading) : Bytes :=
  if given m.pem then m.pem.getD [] else cString l.content

/-- `tls_load_pem`; what it returns is read as a C string. -/
def tlsLoadPem (m : Material) (l : Loading) : Option Bytes :=
  if given m.pem then if l.strdups then m.pem else none
  else if given m.path then
    if l.opens = false then none
    else if l.seeks = false then none
    else if l.size ≤ 0 ∨ l.size > maxPemSize then none
    else if l.allocates = false then none
    else some (cString (l.content.take (min l.rd l.size.toNat)))
  else none

inductive Verify
  | none | required
  deriving DecidableEq, Repr

variable {Chain Key : Type}

/-- What the TLS library does during one `xfrpc_tls_init`. A parser that returns an
error code gives none. -/
structure Library (Chain Key : Type) where
  seeds : Bool
  defaults : Bool
  crtParse : Bytes → Option Chain
  pkParse : Bytes → Option Key
  ownCert : Bool

/-- The part of `g_tls` that decides about verification. -/
structure Tls (Chain Key : Type) where
  initialized : Bool
  ok : Bool
  authmode : Verify
  caChain : Option Chain
  ownCert : Option (Chain × Key)
  deriving DecidableEq, Repr

/-- The zeroed `g_tls` of the start and of `xfrpc_tls_cleanup`. -/
def Tls.zero : Tls Chain Key := ⟨false, false, .none, none, none⟩

structure Setup where
  ca : Material
  cert : Material
  key : Material
  caLoad : Loading
  certLoad : Loading
  keyLoad : Loading
  deriving DecidableEq, Repr

/-- The verification part: none when the chain is refused. -/
def initCa (L : Library Chain Key) (c : Setup) (g : Tls Chain Key) : Option (Tls Chain Key) :=
  match tlsLoadPem c.ca c.caLoad with
  | some ca =>
    match L.crtParse ca with
    | some chain => some { g with caChain := some chain, authmode := .required }
    | none => none
  | none => some g

/-- The client certificate part: none when it fails. -/
def initCert (L : Library Chain Key) (c : Setup) (g : Tls Chain Key) : Option (Tls Chain Key) :=
  match tlsLoadPem c.cert c.certLoad with
  | some cert =>
    match L.crtParse cert with
    | none => none
    | some own =>
      match tlsLoadPem c.key c.keyLoad with
      | none => none
      | some key =>
        match L.pkParse key with
        | none => none
        | some k => if L.ownCert then some { g with ownCert := some (own, k) } else none
  | none => some g

/-- `xfrpc_tls_init`; the configuration may be missing. -/
def xfrpcTlsInit (L : Library Chain Key) (conf : Option Setup) (g : Tls Chain Key) :
    ℤ × Tls Chain Key :=
  if g.initialized then (if g.ok then 0 else -1, g)
  else
    let g₀ : Tls Chain Key := { g with initialized := true, ok := false, authmode := .none }
    match conf with
    | none => (-1, g₀)
    | some c =>
      if L.seeds = false then (-1, g₀)
      else if L.defaults = false then (-1, g₀)
      else
        match initCa L c g₀ with
        | none => (-1, g₀)
        | some g₁ =>
          match initCert L c g₁ with
          | none => (-1, g₁)
          | some g₂ => (0, { g₂ with ok := true })

/-- The chain and key that the configuration asks for are the ones in place. -/
def CaInPlace (L : Library Chain Key) (c : Setup) (g : Tls Chain Key) : Prop :=
  g.authmode = .required ∧ ∃ chain, L.crtParse (c.ca.text c.caLoad) = some chain ∧
    g.caChain = some chain

def CertInPlace (L : Library Chain Key) (c : Setup) (g : Tls Chain Key) : Prop :=
  ∃ own key, L.crtParse (c.cert.text c.certLoad) = some own ∧
    L.pkParse (c.key.text c.keyLoad) = some key ∧ g.ownCert = some (own, key)

/-- Initialisation fails, or what is configured is in place and verification is off only
without a CA. -/
structure FailsClosed (L : Library Chain Key) (c : Setup) (r : ℤ × Tls Chain Key) : Prop where
  ca : c.ca.configured = true → r.1 = -1 ∨ CaInPlace L c r.2
  off : r.1 = 0 → r.2.authmode = .none → c.ca.configured = false
  cert : c.cert.configured = true → r.1 = -1 ∨ CertInPlace L c r.2

/-- Some step makes initialisation fail: the random generator, the defaults, a CA that
is loaded but does not parse, or a client certificate that is loaded and does not parse
or has no key that is loaded and parses. -/
def Refuses (L : Library Chain Key) (c : Setup) : Prop :=
  L.seeds = false ∨ L.defaults = false ∨
    (∃ ca, tlsLoadPem c.ca c.caLoad = some ca ∧ L.crtParse ca = none) ∨
    ∃ cert, tlsLoadPem c.cert c.certLoad = some cert ∧
      (L.crtParse cert = none ∨ (tlsLoadPem c.key c.keyLoad).bind L.pkParse = none ∨
        L.ownCert = false)

/-- What is loaded parses as the configured text does. -/
def Loaded {α : Type} (parse : Bytes → Option α) (m : Material) (l : Loading) : Prop :=
  ∃ t, tlsLoadPem m l = some t ∧ parse t = parse (m.text l)

/-- Every piece that is configured is loaded. -/
def AllLoaded (L : Library Chain Key) (c : Setup) : Prop :=
  (c.ca.configured = true → Loaded L.crtParse c.ca c.caLoad) ∧
    (c.cert.configured = true →
      Loaded L.crtParse c.cert c.certLoad ∧ Loaded L.pkParse c.key c.keyLoad)

/-- The six ways in which a configured piece is taken for one that is not. -/
theorem tlsLoadPem_isSome_iff (m : Material) (l : Loading) :
    (tlsLoadPem m l).isSome = true ↔
      (given m.pem = true ∧ l.strdups = true) ∨
      (given m.pem = false ∧ given m.path = true ∧ l.opens = true ∧ l.seeks = true ∧
        0 < l.size ∧ l.size ≤ maxPemSize ∧ l.allocates = true) := by
  unfold tlsLoadPem
  cases hp : given m.pem with
  | true =>
    have hsome : m.pem.isSome = true := by
      cases hm : m.pem with
      | none =>
        rw [hm] at hp
        cases hp
      | some b => rfl
    cases l.strdups with
    | true => exact iff_of_true hsome (.inl ⟨rfl, rfl⟩)
    | false => simp
  | false =>
    by_cases hs : l.size ≤ 0 ∨ l.size > maxPemSize
    · have hs' : ¬ (0 < l.size ∧ l.size ≤ maxPemSize) := by omega
      refine iff_of_false ?_ (fun h ↦ ?_)
      · rw [if_neg Bool.false_ne_true, if_pos hs]
        split_ifs <;> exact Bool.false_ne_true
      · obtain ⟨hf, -⟩ | ⟨-, -, -, -, hlo, hhi, -⟩ := h
        · cases hf
        · exact hs' ⟨hlo, hhi⟩
    · have hs' : 0 < l.size ∧ l.size ≤ maxPemSize := by omega
      cases given m.path <;> cases l.opens <;> cases l.seeks <;> cases l.allocates <;>
        simp [hs, hs']

section Run

variable {L : Library Chain Key} {c : Setup}

theorem zero_initialized : ¬ (Tls.zero : Tls Chain Key).initialized = true := Bool.false_ne_true

theorem init_refused (h : Refuses L c) : (xfrpcTlsInit L (some c) Tls.zero).1 = -1 := by
  unfold xfrpcTlsInit
  rw [if_neg zero_initialized]
  dsimp only
  obtain h | h | ⟨ca, hca, hp⟩ | ⟨cert, hcert, hp⟩ := h
  · rw [if_pos h]
  · split_ifs <;> rfl
  · have hi : ∀ g : Tls Chain Key, initCa L c g = none := fun g ↦ by
      simp only [initCa, hca, hp]
    split_ifs
    · rfl
    · rfl
    · rw [hi]
  · have hi : ∀ g : Tls Chain Key, initCert L c g = none := fun g ↦ by
      simp only [initCert, hcert]
      cases hx : L.crtParse cert with
      | none => rfl
      | some own =>
        have hp' := hp.resolve_left (by rw [hx]; exact Option.some_ne_none own)
        cases hk : tlsLoadPem c.key c.keyLoad with
        | none => rfl
        | some key =>
          rw [hk, Option.bind_some] at hp'
          dsimp only
          cases hpk : L.pkParse key with
          | none => rfl
          | some k =>
            rw [hpk] at hp'
            have hown := hp'.resolve_left (Option.some_ne_none k)
            simp [hown]
    split_ifs
    · rfl
    · rfl
    · cases initCa L c _ with
      | none => rfl
      | some g₁ =>
        dsimp only
        rw [hi]

theorem initCa_of_accepted {g : Tls Chain Key} (hg : g.caChain = none ∧ g.authmode = .none)
    (h : ¬ ∃ ca, tlsLoadPem c.ca c.caLoad = some ca ∧ L.crtParse ca = none) :
    ∃ g₁, initCa L c g = some g₁ ∧ g₁.ownCert = g.ownCert ∧
      g₁.caChain = (tlsLoadPem c.ca c.caLoad).bind L.crtParse ∧
      (g₁.authmode = .required ↔ (tlsLoadPem c.ca c.caLoad).isSome = true) := by
  unfold initCa
  cases hca : tlsLoadPem c.ca c.caLoad with
  | none =>
    refine ⟨g, rfl, rfl, hg.1, ?_⟩
    rw [hg.2]
    exact iff_of_false (fun hf ↦ by cases hf) Bool.false_ne_true
  | some ca =>
    dsimp only
    cases hp : L.crtParse ca with
    | none => exact absurd ⟨ca, hca, hp⟩ h
    | some chain => exact ⟨_, rfl, rfl, hp.symm, iff_of_true rfl rfl⟩

theorem initCert_of_accepted {g : Tls Chain Key} (hg : g.ownCert = none)
    (h : ¬ ∃ cert, tlsLoadPem c.cert c.certLoad = some cert ∧
      (L.crtParse cert = none ∨ (tlsLoadPem c.key c.keyLoad).bind L.pkParse = none ∨
        L.ownCert = false)) :
    ∃ g₂, initCert L c g = some g₂ ∧ g₂.caChain = g.caChain ∧ g₂.authmode = g.authmode ∧
      ((tlsLoadPem c.cert c.certLoad = none ∧ g₂.ownCert = none) ∨
        ∃ cert key own k, tlsLoadPem c.cert c.certLoad = some cert ∧
          tlsLoadPem c.key c.keyLoad = some key ∧ L.crtParse cert = some own ∧
          L.pkParse key = some k ∧ g₂.ownCert = some (own, k)) := by
  unfold initCert
  cases hcert : tlsLoadPem c.cert c.certLoad with
  | none => exact ⟨g, rfl, rfl, rfl, .inl ⟨rfl, hg⟩⟩
  | some cert =>
    have hno : ∀ hbad : L.crtParse cert = none ∨
        (tlsLoadPem c.key c.keyLoad).bind L.pkParse = none ∨ L.ownCert = false, False :=
      fun hbad ↦ h ⟨cert, hcert, hbad⟩
    dsimp only
    cases hx : L.crtParse cert with
    | none => exact absurd (.inl hx) hno
    | some own =>
      cases hk : tlsLoadPem c.key c.keyLoad with
      | none => exact absurd (.inr (.inl (by rw [hk]; rfl))) hno
      | some key =>
        dsimp only
        cases hpk : L.pkParse key with
        | none => exact absurd (.inr (.inl (by rw [hk]; exact hpk))) hno
        | some k =>
          cases hown : L.ownCert with
          | false => exact absurd (.inr (.inr hown)) hno
          | true =>
            exact ⟨_, rfl, rfl, rfl, .inr ⟨cert, key, own, k, rfl, rfl, hx, hpk, rfl⟩⟩

theorem init_accepted (h : ¬ Refuses L c) :
    ∃ g, xfrpcTlsInit L (some c) Tls.zero = (0, g) ∧
      g.caChain = (tlsLoadPem c.ca c.caLoad).bind L.crtParse ∧
      (g.authmode = .required ↔ (tlsLoadPem c.ca c.caLoad).isSome = true) ∧
      ((tlsLoadPem c.cert c.certLoad = none ∧ g.ownCert = none) ∨
        ∃ cert key own k, tlsLoadPem c.cert c.certLoad = some cert ∧
          tlsLoadPem c.key c.keyLoad = some key ∧ L.crtParse cert = some own ∧
          L.pkParse key = some k ∧ g.ownCert = some (own, k)) := by
  unfold Refuses at h
  simp only [not_or] at h
  obtain ⟨hseed, hdef, hca, hcert⟩ := h
  obtain ⟨g₁, h₁, hown, hchain, hmode⟩ :=
    initCa_of_accepted (g := { (Tls.zero : Tls Chain Key) with initialized := true }) ⟨rfl, rfl⟩ hca
  obtain ⟨g₂, h₂, hchain₂, hmode₂, hown₂⟩ := initCert_of_accepted hown hcert
  refine ⟨{ g₂ with ok := true }, ?_, hchain₂.trans hchain, ?_, hown₂⟩
  · have h₁' : initCa L c ({ (Tls.zero : Tls Chain Key) with
        initialized := true, ok := false, authmode := .none }) = some g₁ := h₁
    rw [xfrpcTlsInit, if_neg zero_initialized]
    dsimp only
    rw [if_neg hseed, if_neg hdef, h₁']
    dsimp only
    rw [h₂]
  · rw [hmode₂]
    exact hmode

theorem caInPlace_iff {g : Tls Chain Key} (h : ¬ Refuses L c)
    (hchain : g.caChain = (tlsLoadPem c.ca c.caLoad).bind L.crtParse)
    (hmode : g.authmode = .required ↔ (tlsLoadPem c.ca c.caLoad).isSome = true) :
    CaInPlace L c g ↔ Loaded L.crtParse c.ca c.caLoad := by
  unfold CaInPlace Loaded
  rw [hmode, hchain]
  cases hca : tlsLoadPem c.ca c.caLoad with
  | none => exact iff_of_false (fun hp ↦ Bool.false_ne_true hp.1) (fun ⟨t, ht, _⟩ ↦ by cases ht)
  | some ca =>
    rw [Option.bind_some]
    constructor
    · rintro ⟨-, chain, htext, hgot⟩
      exact ⟨ca, rfl, by rw [hgot, htext]⟩
    · rintro ⟨t, ht, heq⟩
      obtain rfl := Option.some.inj ht
      cases hp : L.crtParse ca with
      | none => exact absurd (.inr (.inr (.inl ⟨ca, hca, hp⟩))) h
      | some chain => exact ⟨rfl, chain, by rw [← heq, hp], rfl⟩

theorem certInPlace_iff {g : Tls Chain Key}
    (hown : (tlsLoadPem c.cert c.certLoad = none ∧ g.ownCert = none) ∨
      ∃ cert key own k, tlsLoadPem c.cert c.certLoad = some cert ∧
        tlsLoadPem c.key c.keyLoad = some key ∧ L.crtParse cert = some own ∧
        L.pkParse key = some k ∧ g.ownCert = some (own, k)) :
    CertInPlace L c g ↔
      Loaded L.crtParse c.cert c.certLoad ∧ Loaded L.pkParse c.key c.keyLoad := by
  unfold CertInPlace Loaded
  obtain ⟨hnone, hg⟩ | ⟨cert, key, own, k, hcert, hkey, hx, hpk, hg⟩ := hown
  · rw [hnone, hg]
    exact iff_of_false (fun ⟨_, _, _, _, hf⟩ ↦ by cases hf) (fun ⟨⟨t, ht, _⟩, _⟩ ↦ by cases ht)
  · rw [hcert, hkey, hg]
    constructor
    · rintro ⟨own', k', htext, hktext, heq⟩
      obtain ⟨rfl, rfl⟩ := Prod.mk.inj (Option.some.inj heq)
      exact ⟨⟨cert, rfl, by rw [hx, htext]⟩, ⟨key, rfl, by rw [hpk, hktext]⟩⟩
    · rintro ⟨⟨t, ht, hxt⟩, ⟨t', ht', hkt⟩⟩
      obtain rfl := Option.some.inj ht
      obtain rfl := Option.some.inj ht'
      exact ⟨own, k, by rw [← hxt, hx], by rw [← hkt, hpk], rfl⟩

end Run

/-- Initialisation fails closed just when some step makes it fail, or every piece that
is configured is loaded as it stands. -/
theorem tls_fails_closed_iff (L : Library Chain Key) (c : Setup) :
    FailsClosed L c (xfrpcTlsInit L (some c) Tls.zero) ↔ Refuses L c ∨ AllLoaded L c := by
  by_cases hr : Refuses L c
  · have hret := init_refused hr
    refine iff_of_true ⟨fun _ ↦ .inl hret, fun hz ↦ ?_, fun _ ↦ .inl hret⟩ (.inl hr)
    rw [hret] at hz
    cases hz
  · obtain ⟨g, hrun, hchain, hmode, hown⟩ := init_accepted hr
    have hca := caInPlace_iff hr hchain hmode
    have hcert := certInPlace_iff hown
    have hne : (0 : ℤ) ≠ -1 := by decide
    rw [hrun]
    constructor
    · intro h
      refine .inr ⟨fun hc ↦ ?_, fun hc ↦ ?_⟩
      · exact hca.mp ((h.ca hc).resolve_left hne)
      · exact hcert.mp ((h.cert hc).resolve_left hne)
    · intro h
      obtain ⟨hlca, hlcert⟩ := h.resolve_left hr
      refine ⟨fun hc ↦ .inr (hca.mpr (hlca hc)), fun _ hoff ↦ ?_,
        fun hc ↦ .inr (hcert.mpr (hlcert hc))⟩
      cases hconf : c.ca.configured with
      | false => rfl
      | true =>
        obtain ⟨t, ht, -⟩ := hlca hconf
        have hreq := hmode.mpr (by rw [ht]; rfl)
        dsimp only at hoff
        rw [hreq] at hoff
        cases hoff

/-- A CA file that cannot be opened, and no client certificate. -/
def missingCaFile : Setup where
  ca := ⟨none, some [99, 97, 46, 112, 101, 109]⟩
  cert := ⟨none, none⟩
  key := ⟨none, none⟩
  caLoad := ⟨true, false, true, 0, true, [], 0⟩
  certLoad := ⟨true, true, true, 0, true, [], 0⟩
  keyLoad := ⟨true, true, true, 0, true, [], 0⟩

/-- A library that takes every text. -/
def toyLibrary : Library Bytes Bytes := ⟨true, true, some, some, true⟩

theorem missingCaFile_fails_open :
    ¬ FailsClosed toyLibrary missingCaFile
      (xfrpcTlsInit toyLibrary (some missingCaFile) Tls.zero) := by
  intro h
  have hoff := h.off (by decide) (by decide)
  revert hoff
  decide

end Xfrpc.Crypto.TlsInit
