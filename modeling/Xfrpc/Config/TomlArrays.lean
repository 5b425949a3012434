import Mathlib.Data.List.TakeWhile
import Xfrpc.Foundations.BigEndian
import Xfrpc.Foundations.Tokens

namespace Xfrpc.Config.TomlArrays

open Foundations.Tokens

def comma : UInt8 := 0x2c
def space : UInt8 := 0x20
def tab : UInt8 := 0x09
/-- The keys of a proxy that hold an array. -/
inductive Field
  | customDomains | locations | allowUsers
  deriving DecidableEq, Repr

def bufSize : ℕ := 1024

def toLower (c : UInt8) : UInt8 := if 0x41 ≤ c ∧ c ≤ 0x5a then c + 0x20 else c

def isBlank (c : UInt8) : Bool := c = space || c = tab

/-- The type as `new_proxy_service_marshal` sends it. -/
def wireType (proxyType : String) : String :=
  if proxyType = "socks5" ∨ proxyType = "mstsc" ∨ proxyType = "iod" then "tcp" else proxyType

/-- The types whose message has the allowed users. -/
def isSecret (proxyType : String) : Bool := wireType proxyType ∈ ["stcp", "xtcp", "sudp"]

/-- When an array with at least one string comes through. A domain and a location must
be the only one, since the blank after a comma stays with the next; a second location
of blanks alone can make up for it when the buffer ends one byte too early. -/
def Survives (field : Field) (proxyType : String) (e : Bytes) (es : List Bytes) : Prop :=
  match field with
  | .customDomains => es = [] ∧ e.length < bufSize
  | .locations => (es = [] ∧ e.length < bufSize) ∨
      ∃ e₂, es = [e₂] ∧ (∀ c ∈ e₂, c = space) ∧ e.length + 4 < bufSize ∧
        e.length + e₂.length + 2 = bufSize
  | .allowUsers => isSecret proxyType = true ∧
      (∀ u ∈ e :: es, ∀ c ∈ u.head?, isBlank c = false) ∧ Fits bufSize [comma, space] e es

section Fields

variable {e : Bytes} {es : List Bytes}

end Fields

def ascii (s : String) : Bytes := s.toList.map fun c ↦ UInt8.ofNat c.toNat

end Xfrpc.Config.TomlArrays
