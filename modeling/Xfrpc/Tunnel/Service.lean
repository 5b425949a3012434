import Xfrpc.Crypto.Coder

namespace Xfrpc.Tunnel.Service

open Crypto.Cfb Crypto.Coder

/-- The values `proxy_type` is compared with; every other string is `tcp`. -/
inductive ProxyType
  | tcp | udp | socks5 | xtcp
  deriving DecidableEq, Repr

inductive XdpiServiceType
  | noXdpi | mstsc | rdp | vnc | ssh | telnet | http | https
  deriving DecidableEq, Repr

/-- `struct proxy_service` as far as a tunnel reads it. `localIp` says that an
address is set, `uds` that the Unix socket plugin is. -/
structure ProxyService where
  proxyType : ProxyType
  serviceType : XdpiServiceType
  uds : Bool
  localIp : Bool
  localPort : ℕ
  useEncryption : Bool
  useCompression : Bool
  startTime : ℕ
  endTime : ℕ
  deriving DecidableEq, Repr

def isSocks5Proxy (ps : Option ProxyService) : Bool := ps.any (·.proxyType == .socks5)

def isUdpProxy (ps : Option ProxyService) : Bool := ps.any (·.proxyType == .udp)

def isUdsProxy (ps : Option ProxyService) : Bool := ps.any (·.uds)

def hasServiceType (ps : Option ProxyService) : Bool := ps.any (·.serviceType != .noXdpi)

def isServiceAvailable (ps : ProxyService) (hour : ℕ) : Bool :=
  if ps.startTime = 0 ∧ ps.endTime = 0 then true
  else if ps.endTime < ps.startTime then decide (hour ≥ ps.startTime ∨ hour < ps.endTime)
  else decide (hour ≥ ps.startTime ∧ hour < ps.endTime)

inductive XdpiState
  | init | verified | blocked
  deriving DecidableEq, Repr

def byteAt (b : Bytes) (i : ℕ) : ℕ := (b.getD i 0).toNat

/-- Whether `" HTTP/"` occurs from the fourth byte on. -/
def requestLine (b : Bytes) : Bool :=
  (List.range (b.length - 5)).any fun i ↦
    decide (4 ≤ i ∧ (b.drop i).take 6 = [0x20, 0x48, 0x54, 0x54, 0x50, 0x2f])

/-- The checks of `xdpi_engine` on the bytes collected so far. -/
def xdpiMatches (service : XdpiServiceType) (b : Bytes) : Bool :=
  match service with
  | .ssh => decide (8 ≤ b.length ∧ b.length ≤ 255 ∧
      b.take 8 = [0x53, 0x53, 0x48, 0x2d, 0x32, 0x2e, 0x30, 0x2d])
  | .http => decide (8 ≤ b.length ∧ (b.take 4 = [0x47, 0x45, 0x54, 0x20] ∨
      b.take 4 = [0x50, 0x4f, 0x53, 0x54] ∨ b.take 4 = [0x48, 0x45, 0x41, 0x44] ∨
      b.take 4 = [0x50, 0x55, 0x54, 0x20] ∨ b.take 4 = [0x44, 0x45, 0x4c, 0x45])) && requestLine b
  | .https => decide (3 ≤ b.length ∧ byteAt b 0 = 0x16 ∧ byteAt b 1 = 0x03)
  | .mstsc | .rdp =>
    decide (19 ≤ b.length ∧ byteAt b 0 = 0x03 ∧ byteAt b 1 = 0 ∧ byteAt b 2 = 0)
  | .vnc => decide (4 ≤ b.length ∧ b.take 4 = [0x52, 0x46, 0x42, 0x20])
  | .telnet => decide (3 ≤ b.length ∧ byteAt b 0 = 0xff ∧ byteAt b 1 = 0xfb)
  | .noXdpi => true

/-- `xdpi_engine`: the new state, and whether the bytes may pass. -/
def xdpiEngine (service : XdpiServiceType) (state : XdpiState) (b : Bytes) : XdpiState × Bool :=
  match state with
  | .blocked => (.blocked, false)
  | .verified => (.verified, true)
  | .init => if xdpiMatches service b then (.verified, true) else (.blocked, false)

/-- `client->state`; a broken handshake stores `TMUX_CLOSED` there. -/
inductive Socks5State
  | init | handshake | connect | established | broken
  deriving DecidableEq, Repr

def socks5MaxDomainLen : ℕ := 253
def socks5AddresLen : ℕ := 20

/-- `parse_socks5_addr`: the number of bytes the address and the port take. -/
def parseSocks5Addr (b : Bytes) : Option ℕ :=
  if byteAt b 0 = 0x01 then if b.length < 7 then none else some 7
  else if byteAt b 0 = 0x04 then if b.length < 19 then none else some 19
  else if byteAt b 0 = 0x03 then
    if b.length < 2 then none
    else
      let len := byteAt b 1
      if len = 0 ∨ len > socks5MaxDomainLen ∨ len > socks5AddresLen then none
      else if b.length < 2 + len + 2 then none
      else some (2 + len + 2)
  else none

/-- `struct crypto_ctx`; `ivDone` is `iv_sent` of a writer and `iv_received` of
a reader. -/
structure CryptoCtx where
  key : Bytes
  iv : Bytes
  ivDone : Bool
  cfb : CfbCtx
  deriving DecidableEq, Repr

def cryptoDeriveKey (P : Primitives) (token : Bytes) : Bytes := P.pbkdf2 token defaultSalt

def cryptoCtxNewWriter (key iv : Bytes) : CryptoCtx := ⟨key, iv, false, .init key iv⟩

def cryptoCtxNewReader (key : Bytes) : CryptoCtx := ⟨key, [], false, .init key []⟩

def cryptoSetIv (c : CryptoCtx) (iv : Bytes) : CryptoCtx :=
  { c with ivDone := true, cfb := .init c.key iv }

end Xfrpc.Tunnel.Service
