import Mathlib.Data.List.TakeWhile
import Mathlib.Data.List.Perm.Basic
import Xfrpc.Config.TomlArrays

namespace Xfrpc.Config.TomlHeaders

open Foundations.Tokens TomlArrays

def equals : UInt8 := 0x3d

/-- A value of a table; only strings are printed. -/
inductive Datum
  | string (s : Bytes)
  | other
  deriving DecidableEq, Repr

def pairsSize : ℕ := 2048

def entry (p : Bytes × Bytes) : Bytes := p.1 ++ equals :: p.2

/-- The loop of `xfrpc_toml_get_table_pairs`. -/
def printPairs : Block UInt8 → List (Bytes × Datum) → Block UInt8
  | b, [] => b
  | b, (_, .other) :: ps => if b.pos + 4 < pairsSize then printPairs b ps else b
  | b, (key, .string value) :: ps =>
    if b.pos + 4 < pairsSize then
      printPairs ((if 0 < b.pos then b.snprintf pairsSize [comma] else b).snprintf pairsSize
        (entry (key, value))) ps
    else b

/-- `xfrpc_toml_get_table_pairs`, with its static buffer before and after; a table that
is missing is one without entries. -/
def tomlGetTablePairs (buf : Bytes) (table : List (Bytes × Datum)) : Option Bytes × Bytes :=
  let b := printPairs ⟨buf, 0⟩ table
  (if 0 < b.pos then some b.text else none, b.text)

/-- `json_object_object_add`: the key is deleted and comes back at the end. -/
def objectAdd (obj : List (Bytes × Bytes)) (key value : Bytes) : List (Bytes × Bytes) :=
  obj.eraseP (fun p ↦ p.1 = key) ++ [(key, value)]

def addPair (obj : List (Bytes × Bytes)) (pair : Bytes) : List (Bytes × Bytes) :=
  if equals ∈ pair then
    objectAdd obj (pair.takeWhile (· ≠ equals)) (pair.dropWhile (· ≠ equals)).tail
  else obj

/-- The object that `new_proxy_service_marshal` makes of a field with headers. -/
def marshalHeaders : Option Bytes → List (Bytes × Bytes)
  | none => []
  | some text => (tokens comma text).foldl addPair []

/-- The tables of a proxy in the configuration. -/
structure Proxy where
  requestSet : List (Bytes × Datum)
  responseSet : List (Bytes × Datum)

/-- The objects of the message. -/
structure NewProxy where
  headers : List (Bytes × Bytes)
  responseHeaders : List (Bytes × Bytes)

/-- `load_toml_proxies` reads one table after the other through the same buffer. -/
def newProxy (buf : Bytes) (proxy : Proxy) : NewProxy :=
  let request := tomlGetTablePairs buf proxy.requestSet
  let response := tomlGetTablePairs request.2 proxy.responseSet
  { headers := marshalHeaders request.1
    responseHeaders := marshalHeaders response.1 }

inductive Direction
  | request | response
  deriving DecidableEq, Repr

def Direction.table (proxy : Proxy) : Direction → List (Bytes × Datum)
  | .request => proxy.requestSet
  | .response => proxy.responseSet

def Direction.object (msg : NewProxy) : Direction → List (Bytes × Bytes)
  | .request => msg.headers
  | .response => msg.responseHeaders

/-- A table of string-valued headers. -/
structure Headers where
  first : Bytes × Bytes
  rest : List (Bytes × Bytes)
  distinct : ((first :: rest).map Prod.fst).Nodup
  plain : ∀ p ∈ first :: rest, comma ∉ p.1 ∧ equals ∉ p.1

def Headers.pairs (h : Headers) : List (Bytes × Bytes) := h.first :: h.rest

def Headers.data (h : Headers) : List (Bytes × Datum) := h.pairs.map fun p ↦ (p.1, .string p.2)

section Printing

end Printing

section Parsing

end Parsing

section Headers

variable (h : Headers)

end Headers

end Xfrpc.Config.TomlHeaders
