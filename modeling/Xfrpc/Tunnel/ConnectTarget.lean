import Xfrpc.Foundations.CString
import Xfrpc.Tunnel.Service

namespace Xfrpc.Tunnel.ConnectTarget

open Foundations.CString Service

/-- `struct socks5_addr`, its members in the order of their bytes. The port is kept as
the two bytes of the request. -/
structure Socks5Addr where
  addr : Bytes
  portHi : UInt8
  portLo : UInt8
  type : UInt8
  reserve : UInt8
  addr_length : addr.length = socks5AddresLen
  deriving DecidableEq

/-- The bytes of the structure from `addr` on. -/
def Socks5Addr.image (a : Socks5Addr) : Bytes :=
  a.addr ++ [a.portHi, a.portLo, a.type, a.reserve]

/-- `memset`, then the copies of `parse_socks5_addr`. -/
def filled (type : UInt8) (bs : Bytes) (portHi portLo : UInt8) : Socks5Addr where
  addr := (bs ++ List.replicate socks5AddresLen 0).take socks5AddresLen
  portHi := portHi
  portLo := portLo
  type := type
  reserve := 0
  addr_length := by
    rw [List.length_take, List.length_append, List.length_replicate]
    omega

/-- `parse_socks5_addr`: the address, and the number of bytes it and the port take. -/
def parseAddr (b : Bytes) : Option (Socks5Addr × ℕ) :=
  if byteAt b 0 = 0x01 then
    if b.length < 7 then none
    else some (filled 1 ((b.drop 1).take 4) (b.getD 5 0) (b.getD 6 0), 7)
  else if byteAt b 0 = 0x04 then
    if b.length < 19 then none
    else some (filled 4 ((b.drop 1).take 16) (b.getD 17 0) (b.getD 18 0), 19)
  else if byteAt b 0 = 0x03 then
    if b.length < 2 then none
    else
      let len := byteAt b 1
      if len = 0 ∨ len > socks5MaxDomainLen ∨ len > socks5AddresLen then none
      else if b.length < 2 + len + 2 then none
      else some (filled 3 ((b.drop 2).take len) (b.getD (2 + len) 0) (b.getD (2 + len + 1) 0),
        2 + len + 2)
  else none

/-- What a connection is opened to. -/
inductive Target
  | ipv4 (ip : Bytes) (port : ℕ)
  | host (name : Bytes) (port : ℕ)
  | ipv6 (ip : Bytes) (port : ℕ)
  deriving DecidableEq, Repr

def portNumber (hi lo : UInt8) : ℕ := hi.toNat * 256 + lo.toNat

/-- The connect of `socks5_proxy_connect`. A host name is handed on as a C string. -/
def socks5ProxyConnect (a : Socks5Addr) : Option Target :=
  let port := portNumber a.portHi a.portLo
  if a.type = 1 then some (.ipv4 (a.addr.take 4) port)
  else if a.type = 3 then some (.host (cString a.image) port)
  else if a.type = 4 then some (.ipv6 (a.addr.take 16) port)
  else none

/-- An address as RFC 1928 has it, with names of at most 253 bytes. -/
inductive Address
  | ipv4 (ip : Bytes) (h : ip.length = 4)
  | domain (name : Bytes) (h : 1 ≤ name.length ∧ name.length ≤ socks5MaxDomainLen)
  | ipv6 (ip : Bytes) (h : ip.length = 16)

structure Destination where
  address : Address
  portHi : UInt8
  portLo : UInt8

def Address.head : Address → Bytes
  | .ipv4 _ _ => [1]
  | .domain name _ => [3, .ofNat name.length]
  | .ipv6 _ _ => [4]

def Address.body : Address → Bytes
  | .ipv4 ip _ => ip
  | .domain name _ => name
  | .ipv6 ip _ => ip

def Destination.wire (d : Destination) : Bytes :=
  d.address.head ++ (d.address.body ++ [d.portHi, d.portLo])

def Destination.target (d : Destination) : Target :=
  match d.address with
  | .ipv4 ip _ => .ipv4 ip (portNumber d.portHi d.portLo)
  | .domain name _ => .host name (portNumber d.portHi d.portLo)
  | .ipv6 ip _ => .ipv6 ip (portNumber d.portHi d.portLo)

/-- The parser accepts a buffer just when it begins with a whole address and port,
takes these bytes, and the connection goes where they say. -/
def Exact (b : Bytes) : Prop :=
  (∀ d : Destination, d.wire <+: b → ∃ a, parseAddr b = some (a, d.wire.length) ∧
    socks5ProxyConnect a = some d.target) ∧
  ((parseAddr b).isSome = true → ∃ d : Destination, d.wire <+: b)

/-- A name that comes through: no NUL in it, and room for one behind it, which for a
name of twenty bytes is the high byte of the port. -/
def Kept (name : Bytes) (portHi : UInt8) : Prop :=
  0 ∉ name ∧ (name.length < socks5AddresLen ∨ name.length = socks5AddresLen ∧ portHi = 0)

theorem parseAddr_offset (b : Bytes) : (parseAddr b).map Prod.snd = parseSocks5Addr b := by
  unfold parseAddr parseSocks5Addr
  dsimp only
  by_cases h1 : byteAt b 0 = 0x01
  · rw [if_pos h1, if_pos h1]
    by_cases hl : b.length < 7
    · rw [if_pos hl, if_pos hl]
      rfl
    · rw [if_neg hl, if_neg hl]
      rfl
  rw [if_neg h1, if_neg h1]
  by_cases h4 : byteAt b 0 = 0x04
  · rw [if_pos h4, if_pos h4]
    by_cases hl : b.length < 19
    · rw [if_pos hl, if_pos hl]
      rfl
    · rw [if_neg hl, if_neg hl]
      rfl
  rw [if_neg h4, if_neg h4]
  by_cases h3 : byteAt b 0 = 0x03
  · rw [if_pos h3, if_pos h3]
    by_cases hl : b.length < 2
    · rw [if_pos hl, if_pos hl]
      rfl
    rw [if_neg hl, if_neg hl]
    by_cases hbad : byteAt b 1 = 0 ∨ byteAt b 1 > socks5MaxDomainLen ∨ byteAt b 1 > socks5AddresLen
    · rw [if_pos hbad, if_pos hbad]
      rfl
    rw [if_neg hbad, if_neg hbad]
    by_cases hs : b.length < 2 + byteAt b 1 + 2
    · rw [if_pos hs, if_pos hs]
      rfl
    · rw [if_neg hs, if_neg hs]
      rfl
  · rw [if_neg h3, if_neg h3]
    rfl

/-- The three ways to accept a buffer. -/
theorem parseAddr_some {b : Bytes} {a : Socks5Addr} {n : ℕ} (h : parseAddr b = some (a, n)) :
    (byteAt b 0 = 0x01 ∧ n = 7 ∧ n ≤ b.length ∧
      a = filled 1 ((b.drop 1).take 4) (b.getD 5 0) (b.getD 6 0)) ∨
    (byteAt b 0 = 0x04 ∧ n = 19 ∧ n ≤ b.length ∧
      a = filled 4 ((b.drop 1).take 16) (b.getD 17 0) (b.getD 18 0)) ∨
    (byteAt b 0 = 0x03 ∧ 1 ≤ byteAt b 1 ∧ byteAt b 1 ≤ socks5AddresLen ∧
      n = 2 + byteAt b 1 + 2 ∧ n ≤ b.length ∧
      a = filled 3 ((b.drop 2).take (byteAt b 1)) (b.getD (2 + byteAt b 1) 0)
        (b.getD (2 + byteAt b 1 + 1) 0)) := by
  unfold parseAddr at h
  by_cases h1 : byteAt b 0 = 0x01
  · rw [if_pos h1] at h
    split_ifs at h with hl
    obtain ⟨rfl, rfl⟩ := Prod.mk.inj (Option.some.inj h)
    exact .inl ⟨h1, rfl, Nat.le_of_not_lt hl, rfl⟩
  rw [if_neg h1] at h
  by_cases h4 : byteAt b 0 = 0x04
  · rw [if_pos h4] at h
    split_ifs at h with hl
    obtain ⟨rfl, rfl⟩ := Prod.mk.inj (Option.some.inj h)
    exact .inr (.inl ⟨h4, rfl, Nat.le_of_not_lt hl, rfl⟩)
  rw [if_neg h4] at h
  by_cases h3 : byteAt b 0 = 0x03
  · rw [if_pos h3] at h
    dsimp only at h
    split_ifs at h with hl hbad hs
    obtain ⟨rfl, rfl⟩ := Prod.mk.inj (Option.some.inj h)
    exact .inr (.inr ⟨h3, by omega, by omega, rfl, Nat.le_of_not_lt hs, rfl⟩)
  · rw [if_neg h3] at h
    cases h

theorem parseAddr_domain {b : Bytes} (h3 : byteAt b 0 = 0x03) (hlen : 1 ≤ byteAt b 1)
    (hb : 2 + byteAt b 1 + 2 ≤ b.length) :
    parseAddr b = if byteAt b 1 ≤ socks5AddresLen then
        some (filled 3 ((b.drop 2).take (byteAt b 1)) (b.getD (2 + byteAt b 1) 0)
          (b.getD (2 + byteAt b 1 + 1) 0), 2 + byteAt b 1 + 2)
      else none := by
  have hm : socks5MaxDomainLen = 253 := rfl
  have ha : socks5AddresLen = 20 := rfl
  unfold parseAddr
  dsimp only
  rw [if_neg (by rw [h3]; decide), if_neg (by rw [h3]; decide), if_pos h3, if_neg (by omega)]
  by_cases hle : byteAt b 1 ≤ socks5AddresLen
  · rw [if_neg (by omega), if_neg (by omega), if_pos hle]
  · rw [if_pos (by omega), if_neg hle]

/-- Where the parts of an encoded destination stand. -/
theorem fields_at (head body rest : Bytes) (hi lo : UInt8) :
    let b := head ++ (body ++ (hi :: lo :: rest))
    (b.drop head.length).take body.length = body ∧ b.getD (head.length + body.length) 0 = hi ∧
      b.getD (head.length + body.length + 1) 0 = lo ∧
      head.length + body.length + 2 ≤ b.length := by
  intro b
  have hb : b = head ++ (body ++ [hi]) ++ (lo :: rest) := by simp [b]
  have hl : head.length + body.length + 1 = (head ++ (body ++ [hi])).length := by
    simp [Nat.add_assoc]
  refine ⟨by simp [b], by simp [b], by rw [hb, hl]; simp, ?_⟩
  simp only [b, List.length_append, List.length_cons]
  omega

/-- What the parser makes of a whole destination. -/
def Destination.accepted (d : Destination) : Option (Socks5Addr × ℕ) :=
  match d.address with
  | .ipv4 ip _ => some (filled 1 ip d.portHi d.portLo, 7)
  | .domain name _ =>
    if name.length ≤ socks5AddresLen then
      some (filled 3 name d.portHi d.portLo, 2 + name.length + 2)
    else none
  | .ipv6 ip _ => some (filled 4 ip d.portHi d.portLo, 19)

theorem parseAddr_wire (d : Destination) (rest : Bytes) :
    parseAddr (d.wire ++ rest) = d.accepted := by
  obtain ⟨address, hi, lo⟩ := d
  have hb : ∀ a : Address, Destination.wire ⟨a, hi, lo⟩ ++ rest =
      a.head ++ (a.body ++ (hi :: lo :: rest)) := fun a ↦ by simp [Destination.wire]
  rw [hb]
  obtain ⟨hbody, hhi, hlo, hlen⟩ := fields_at address.head address.body rest hi lo
  cases address with
  | ipv4 ip h =>
    have h1 : byteAt ([1] ++ (ip ++ (hi :: lo :: rest))) 0 = 1 := rfl
    simp only [Address.head, Address.body, List.length_singleton, h, Nat.reduceAdd] at *
    rw [parseAddr, if_pos h1, if_neg (by omega), hbody, hhi, hlo]
    rfl
  | domain name h =>
    have h3 : byteAt ([3, .ofNat name.length] ++ (name ++ (hi :: lo :: rest))) 0 = 3 := rfl
    have hn : byteAt ([3, .ofNat name.length] ++ (name ++ (hi :: lo :: rest))) 1 =
        name.length := by
      have hlt : name.length < UInt8.size := Nat.lt_of_le_of_lt h.2 (by decide)
      exact UInt8.toNat_ofNat_of_lt' hlt
    simp only [Address.head, Address.body, List.length_cons, List.length_nil, Nat.reduceAdd,
      Nat.zero_add] at *
    rw [parseAddr_domain h3 (by omega) (by omega), hn, hbody, hhi, hlo]
    rfl
  | ipv6 ip h =>
    have h4 : byteAt ([4] ++ (ip ++ (hi :: lo :: rest))) 0 = 4 := rfl
    simp only [Address.head, Address.body, List.length_singleton, h, Nat.reduceAdd] at *
    rw [parseAddr, if_neg (by rw [h4]; decide), if_pos h4, if_neg (by omega), hbody, hhi, hlo]
    rfl

/-- A buffer cut at the places of a header, a body and a port. -/
theorem split_at {b : Bytes} {j k : ℕ} (h : j + k + 2 ≤ b.length) :
    b.take j ++ ((b.drop j).take k ++ [b.getD (j + k) 0, b.getD (j + k + 1) 0]) <+: b := by
  refine ⟨b.drop (j + k + 2), ?_⟩
  have h₁ : b.drop (j + k) = b.getD (j + k) 0 :: b.drop (j + k + 1) := by
    rw [List.drop_eq_getElem_cons (by omega), List.getD_eq_getElem?_getD, List.getElem?_eq_getElem (by omega)]
    rfl
  have h₂ : b.drop (j + k + 1) = b.getD (j + k + 1) 0 :: b.drop (j + k + 2) := by
    rw [List.drop_eq_getElem_cons (by omega), List.getD_eq_getElem?_getD, List.getElem?_eq_getElem (by omega)]
    rfl
  calc b.take j ++ ((b.drop j).take k ++ [b.getD (j + k) 0, b.getD (j + k + 1) 0]) ++
        b.drop (j + k + 2)
      = b.take j ++ ((b.drop j).take k ++ b.drop (j + k)) := by
        rw [h₁, h₂]
        simp
    _ = b := by rw [← List.drop_drop, List.take_append_drop, List.take_append_drop]

theorem eq_ofNat_byteAt (b : Bytes) (i : ℕ) : b.getD i 0 = .ofNat (byteAt b i) :=
  (UInt8.ofNat_toNat).symm

theorem take_one {b : Bytes} (h : 1 ≤ b.length) : b.take 1 = [.ofNat (byteAt b 0)] := by
  rw [← eq_ofNat_byteAt]
  cases b with
  | nil => simp at h
  | cons x b => rfl

theorem take_two {b : Bytes} (h : 2 ≤ b.length) :
    b.take 2 = [.ofNat (byteAt b 0), .ofNat (byteAt b 1)] := by
  rw [← eq_ofNat_byteAt, ← eq_ofNat_byteAt]
  match b, h with
  | x :: y :: b, _ => rfl

theorem parseAddr_complete {b : Bytes} {a : Socks5Addr} {n : ℕ} (h : parseAddr b = some (a, n)) :
    ∃ d : Destination, d.wire <+: b ∧ d.accepted = some (a, n) := by
  have hm : socks5MaxDomainLen = 253 := rfl
  have ha : socks5AddresLen = 20 := rfl
  have hex : ∃ d : Destination, d.wire <+: b := by
    obtain ⟨h1, hn, hle, -⟩ | ⟨h4, hn, hle, -⟩ | ⟨h3, hpos, hmax, hn, hle, -⟩ := parseAddr_some h
    · have hip : ((b.drop 1).take 4).length = 4 := by
        rw [List.length_take, List.length_drop]
        omega
      refine ⟨⟨.ipv4 _ hip, b.getD 5 0, b.getD 6 0⟩, ?_⟩
      have hsplit := split_at (j := 1) (k := 4) (b := b) (by omega)
      rwa [take_one (by omega), h1] at hsplit
    · have hip : ((b.drop 1).take 16).length = 16 := by
        rw [List.length_take, List.length_drop]
        omega
      refine ⟨⟨.ipv6 _ hip, b.getD 17 0, b.getD 18 0⟩, ?_⟩
      have hsplit := split_at (j := 1) (k := 16) (b := b) (by omega)
      rwa [take_one (by omega), h4] at hsplit
    · have hname : ((b.drop 2).take (byteAt b 1)).length = byteAt b 1 := by
        rw [List.length_take, List.length_drop]
        omega
      refine ⟨⟨.domain _ (by rw [hname]; omega), b.getD (2 + byteAt b 1) 0,
        b.getD (2 + byteAt b 1 + 1) 0⟩, ?_⟩
      have hsplit := split_at (j := 2) (k := byteAt b 1) (b := b) (by omega)
      rw [take_two (by omega), h3] at hsplit
      simp only [Destination.wire, Address.head, Address.body, hname]
      exact hsplit
  obtain ⟨d, rest, rfl⟩ := hex
  rw [parseAddr_wire] at h
  exact ⟨d, List.prefix_append _ _, h⟩

theorem parseAddr_append {b : Bytes} {a : Socks5Addr} {n : ℕ} (h : parseAddr b = some (a, n))
    (c : Bytes) : parseAddr (b ++ c) = some (a, n) := by
  obtain ⟨d, ⟨rest, rfl⟩, hd⟩ := parseAddr_complete h
  rw [List.append_assoc, parseAddr_wire, hd]

theorem filled_addr {type hi lo : UInt8} {bs : Bytes} (h : bs.length ≤ socks5AddresLen) :
    (filled type bs hi lo).addr = bs ++ List.replicate (socks5AddresLen - bs.length) 0 := by
  unfold filled
  dsimp only
  rw [List.take_append, List.take_of_length_le h, List.take_replicate,
    Nat.min_eq_left (Nat.sub_le _ _)]

theorem filled_take {type hi lo : UInt8} {bs : Bytes} {k : ℕ} (hk : bs.length = k)
    (h : k ≤ socks5AddresLen) : (filled type bs hi lo).addr.take k = bs := by
  rw [filled_addr (by omega), List.take_left' hk]

theorem cString_image_iff {name : Bytes} {hi lo : UInt8} (h : name.length ≤ socks5AddresLen) :
    cString (filled 3 name hi lo).image = name ↔ Kept name hi := by
  unfold Socks5Addr.image Kept
  rw [filled_addr h]
  by_cases hz : 0 ∈ name
  · refine iff_of_false (fun he ↦ ?_) (fun hk ↦ hk.1 hz)
    apply zero_notMem_cString ((name ++ List.replicate (socks5AddresLen - name.length) 0) ++
      [(filled 3 name hi lo).portHi, (filled 3 name hi lo).portLo, (filled 3 name hi lo).type,
        (filled 3 name hi lo).reserve])
    rw [he]
    exact hz
  · rw [List.append_assoc, cString_append hz, List.append_right_eq_self, and_iff_right hz]
    by_cases hlt : name.length < socks5AddresLen
    · obtain ⟨k, hk⟩ : ∃ k, socks5AddresLen - name.length = k + 1 :=
        ⟨socks5AddresLen - name.length - 1, by omega⟩
      rw [hk, List.replicate_succ, List.cons_append, cString_eq_nil_iff]
      exact iff_of_true rfl (.inl hlt)
    · have hk : socks5AddresLen - name.length = 0 := by omega
      rw [hk, List.replicate_zero, List.nil_append, cString_eq_nil_iff]
      exact ⟨fun hhi ↦ .inr ⟨by omega, hhi⟩, fun hor ↦ (hor.resolve_left hlt).2⟩

/-- What it takes for a destination to come through. -/
def Destination.Kept (d : Destination) : Prop :=
  match d.address with
  | .domain name _ => ConnectTarget.Kept name d.portHi
  | _ => True

theorem accepted_domain_iff (name : Bytes)
    (h : 1 ≤ name.length ∧ name.length ≤ socks5MaxDomainLen) (hi lo : UInt8) :
    (∃ a, Destination.accepted ⟨.domain name h, hi, lo⟩ =
        some (a, (Destination.wire ⟨.domain name h, hi, lo⟩).length) ∧
      socks5ProxyConnect a = some (Destination.target ⟨.domain name h, hi, lo⟩)) ↔
      Kept name hi := by
  have hwire : (Destination.wire ⟨.domain name h, hi, lo⟩).length = 2 + name.length + 2 := by
    simp only [Destination.wire, Address.head, Address.body, List.length_append,
      List.length_cons, List.length_nil]
    omega
  have hconn : socks5ProxyConnect (filled 3 name hi lo) =
      some (.host (cString (filled 3 name hi lo).image) (portNumber hi lo)) := by
    have h3 : (filled 3 name hi lo).type = 3 := rfl
    rw [socks5ProxyConnect, if_neg (by rw [h3]; decide), if_pos h3]
    rfl
  rw [hwire]
  by_cases hle : name.length ≤ socks5AddresLen
  · have hacc : Destination.accepted ⟨.domain name h, hi, lo⟩ =
        some (filled 3 name hi lo, 2 + name.length + 2) := if_pos hle
    rw [hacc]
    constructor
    · rintro ⟨a, ha, hc⟩
      obtain ⟨rfl, -⟩ := Prod.mk.inj (Option.some.inj ha)
      rw [hconn] at hc
      obtain ⟨hname, -⟩ := Target.host.inj (Option.some.inj hc)
      exact (cString_image_iff hle).mp hname
    · intro hk
      refine ⟨_, rfl, ?_⟩
      rw [hconn, (cString_image_iff hle).mpr hk]
      rfl
  · have hacc : Destination.accepted ⟨.domain name h, hi, lo⟩ = none := if_neg hle
    rw [hacc]
    refine iff_of_false (fun ⟨a, ha, _⟩ ↦ absurd ha.symm (Option.some_ne_none _))
      (fun hk ↦ ?_)
    obtain ⟨-, hlt | ⟨heq, -⟩⟩ := hk
    · omega
    · omega

theorem accepted_iff (d : Destination) :
    (∃ a, d.accepted = some (a, d.wire.length) ∧ socks5ProxyConnect a = some d.target) ↔
      d.Kept := by
  obtain ⟨address, hi, lo⟩ := d
  cases address with
  | ipv4 ip h =>
    refine iff_of_true ⟨filled 1 ip hi lo, ?_, ?_⟩ trivial
    · simp [Destination.accepted, Destination.wire, Address.head, Address.body, h]
    · have ht : (filled 1 ip hi lo).addr.take 4 = ip := filled_take h (by decide)
      have h1 : (filled 1 ip hi lo).type = 1 := rfl
      rw [socks5ProxyConnect, if_pos h1, ht]
      rfl
  | ipv6 ip h =>
    refine iff_of_true ⟨filled 4 ip hi lo, ?_, ?_⟩ trivial
    · simp [Destination.accepted, Destination.wire, Address.head, Address.body, h]
    · have ht : (filled 4 ip hi lo).addr.take 16 = ip := filled_take h (by decide)
      have h4 : (filled 4 ip hi lo).type = 4 := rfl
      rw [socks5ProxyConnect, if_neg (by rw [h4]; decide), if_neg (by rw [h4]; decide),
        if_pos h4, ht]
      rfl
  | domain name h => exact accepted_domain_iff name h hi lo

/-- The parser is exact on a buffer just when the buffer does not begin with a name
that is longer than twenty bytes, holds a NUL, or has twenty bytes and a port from 256
on. -/
theorem parse_exact_iff (b : Bytes) :
    Exact b ↔ ∀ d : Destination, d.wire <+: b → d.Kept := by
  have hparse : ∀ d : Destination, d.wire <+: b → parseAddr b = d.accepted := by
    rintro d ⟨rest, rfl⟩
    exact parseAddr_wire d rest
  constructor
  · intro h d hd
    obtain ⟨a, ha, hc⟩ := h.1 d hd
    rw [hparse d hd] at ha
    exact (accepted_iff d).mp ⟨a, ha, hc⟩
  · intro h
    refine ⟨fun d hd ↦ ?_, fun hsome ↦ ?_⟩
    · rw [hparse d hd]
      exact (accepted_iff d).mpr (h d hd)
    · obtain ⟨⟨a, n⟩, ha⟩ := Option.isSome_iff_exists.mp hsome
      obtain ⟨d, hd, -⟩ := parseAddr_complete ha
      exact ⟨d, hd⟩

/-- The host `www.example-site.org`, of twenty bytes, and port 443. -/
def twentyBytes : Destination where
  address := .domain
    [119, 119, 119, 46, 101, 120, 97, 109, 112, 108, 101, 45, 115, 105, 116, 101, 46, 111, 114, 103]
    (by decide)
  portHi := 1
  portLo := 187

theorem twentyBytes_not_exact : ¬ Exact twentyBytes.wire := by
  intro h
  obtain ⟨a, ha, hc⟩ := h.1 twentyBytes (List.prefix_refl _)
  have hp := parseAddr_wire twentyBytes []
  rw [List.append_nil, ha] at hp
  obtain ⟨rfl, -⟩ := Prod.mk.inj (Option.some.inj hp)
  revert hc
  decide

end Xfrpc.Tunnel.ConnectTarget
