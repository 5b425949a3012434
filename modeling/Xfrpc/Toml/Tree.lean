import Xfrpc.Foundations.RoseTree
import Xfrpc.Toml.Scan

namespace Xfrpc.Toml.Tree

open Foundations.RoseTree Scan

variable {F : Type}

def tableMax : ℕ := 16384
def arrayMax : ℕ := 16384

/-- `toml_datum_t::flag`. -/
structure Flags where
  inlined : Bool
  stdexpr : Bool
  explicit : Bool
  deriving DecidableEq, Repr

def noFlags : Flags := ⟨false, false, false⟩

inductive Scalar (F : Type)
  | string (s : Bytes)
  | int64 (n : ℤ)
  | fp64 (x : F)
  | boolean (b : Bool)
  | timestamp (typ : Toktyp) (t : Timestamp)
  deriving DecidableEq, Repr

/-- What a datum has besides the data in it, which are its children: the elements of an array
and the values of a table, in the order of the keys. -/
inductive Kind (F : Type)
  | scalar (v : Scalar F)
  | array
  | table (keys : List Bytes)
  deriving DecidableEq, Repr

structure Node (F : Type) where
  flag : Flags
  kind : Kind F
  deriving DecidableEq, Repr

abbrev Datum (F : Type) := Rose (Node F)

def mkscalar (v : Scalar F) : Datum F := .node ⟨noFlags, .scalar v⟩ []

def mkarray (elem : List (Datum F)) : Datum F := .node ⟨noFlags, .array⟩ elem

/-- An empty table; a header makes it with `FLAG_STDEXPR`. -/
def mktable (stdexpr : Bool) : Datum F := .node ⟨{ noFlags with stdexpr := stdexpr }, .table []⟩ []

def flagOf (d : Datum F) : Flags := d.label.flag

def isTable (d : Datum F) : Bool :=
  match d.label.kind with
  | .table _ => true
  | _ => false

def isArray (d : Datum F) : Bool :=
  match d.label.kind with
  | .array => true
  | _ => false

/-- The index of a key, from the assertion that the datum is a table. -/
def tabFind (tab : Datum F) (key : Bytes) : Except Failure (Option ℕ) :=
  match tab.label.kind with
  | .table keys => .ok (keys.findIdx? (· = key))
  | _ => .error .assertion

/-- `tab_add`, with the reason where it fails. -/
def tabAdd (tab : Datum F) (key : Bytes) (newvalue : Datum F) :
    Except Failure (Except String (Datum F)) := do
  let j ← tabFind tab key
  match tab.label.kind, j with
  | .table _, some _ => .ok (.error "duplicate key")
  | .table keys, none =>
    if tableMax ≤ keys.length then .ok (.error "table too large")
    else .ok (.ok (.node ⟨tab.label.flag, .table (keys ++ [key])⟩ (tab.children ++ [newvalue])))
  | _, _ => .error .assertion

/-- `arr_emplace`, and the element that the caller then writes. -/
def arrEmplace (arr elem : Datum F) : Except Failure (Except String (Datum F)) :=
  match arr.label.kind with
  | .array =>
    if arrayMax ≤ arr.children.length then .ok (.error "array too large")
    else .ok (.ok (.node arr.label (arr.children ++ [elem])))
  | _ => .error .assertion

/-- The datum that a pointer into the tree points to; a pointer is a position. -/
def deref (top : Datum F) (p : Position) : Except Failure (Datum F) :=
  match top.at? p with
  | some d => .ok d
  | none => .error .assertion

def setExplicit (d : Datum F) : Datum F :=
  .node { d.label with flag := { d.label.flag with explicit := true } } d.children

/-- `set_flag_recursive` with `FLAG_INLINED`. -/
def setInlined (d : Datum F) : Datum F :=
  d.map fun a ↦ { a with flag := { a.flag with inlined := true } }

/-- `tab_add` at a pointer; the value is then the last one of the table. -/
def tabAddAt (lineno : ℕ) (top : Datum F) (p : Position) (key : Bytes) (newvalue : Datum F) :
    Except Failure (Datum F) := do
  let tab ← deref top p
  match ← tabAdd tab key newvalue with
  | .error reason => fail lineno reason
  | .ok tab' => .ok (top.update (fun _ ↦ tab') p)

/-- A message about a key, which `%s` cuts at its first NUL. -/
def failKey {α : Type} (lineno : ℕ) (before : String) (key : Bytes) (after : String) :
    Except Failure α :=
  .error (.error lineno (ascii before ++ key.takeWhile (· ≠ 0) ++ ascii after))

/-- `descend_keypart` from the table at `p`: the tree and the pointer to the last table. -/
def descendKeypart (lineno : ℕ) (stdtabexpr : Bool) :
    List Bytes → Datum F → Position → Except Failure (Datum F × Position)
  | [], top, p => .ok (top, p)
  | key :: keys, top, p => do
    let tab ← deref top p
    match ← tabFind tab key with
    | none => do
      let top ← tabAddAt lineno top p key (mktable stdtabexpr)
      descendKeypart lineno stdtabexpr keys top (p ++ [tab.children.length])
    | some j => do
      let value ← deref top (p ++ [j])
      if isTable value then descendKeypart lineno stdtabexpr keys top (p ++ [j])
      else if isArray value then
        match value.children.getLast? with
        | none => failKey lineno "array " key " has no elements"
        | some last =>
          if isTable last then
            descendKeypart lineno stdtabexpr keys top (p ++ [j, value.children.length - 1])
          else failKey lineno "array " key " must be array of tables"
      else failKey lineno "cannot locate table at key " key ""

/-- The rest of `parse_std_table_expr`, from the parts of its key. -/
def addStdTable (lineno : ℕ) (keys : List Bytes) (last : Bytes) (top : Datum F) :
    Except Failure (Datum F × Position) := do
  let (top, p) ← descendKeypart lineno true keys top []
  let tab ← deref top p
  match ← tabFind tab last with
  | none => do
    if (flagOf tab).inlined then fail lineno "inline table cannot be extended"
    else do
      let top ← tabAddAt lineno top p last (mktable true)
      let q := p ++ [tab.children.length]
      .ok (top.update setExplicit q, q)
  | some j => do
    let q := p ++ [j]
    let value ← deref top q
    if (flagOf value).explicit then fail lineno "table defined more than once"
    else if (flagOf value).stdexpr = false then fail lineno "table defined before"
    else .ok (top.update setExplicit q, q)

/-- The array at the last part of the key of `[[...]]`, which is made where there is none. -/
def findArray (lineno : ℕ) (last : Bytes) (top : Datum F) (p : Position) :
    Except Failure (Datum F × ℕ) := do
  let tab ← deref top p
  match ← tabFind tab last with
  | some j => .ok (top, j)
  | none =>
    if (flagOf tab).inlined then fail lineno "inline table cannot be extended"
    else do
      let top ← tabAddAt lineno top p last (mkarray [])
      let tab ← deref top p
      match ← tabFind tab last with
      | some j => .ok (top, j)
      | none => .error .assertion

/-- The rest of `parse_array_table_expr`, from the parts of its key. -/
def addArrayTable (lineno : ℕ) (keys : List Bytes) (last : Bytes) (top : Datum F) :
    Except Failure (Datum F × Position) := do
  let (top, p) ← descendKeypart lineno true keys top []
  let (top, j) ← findArray lineno last top p
  let arr ← deref top (p ++ [j])
  if isArray arr = false then fail lineno "entry must be an array"
  else if (flagOf arr).inlined then fail lineno "cannot extend a static array"
  else
    match ← arrEmplace arr (mktable false) with
    | .error reason => fail lineno reason
    | .ok arr' => .ok (top.update (fun _ ↦ arr') (p ++ [j]), p ++ [j, arr.children.length])

/-- The loop of `parse_keyvalue_expr` over the parts of its key before the last, of which the
first `i` are done. -/
def locate (lineno : ℕ) : ℕ → List Bytes → Datum F → Position → Except Failure (Datum F × Position)
  | _, [], top, p => .ok (top, p)
  | i, key :: keys, top, p => do
    let tab ← deref top p
    match ← tabFind tab key with
    | none =>
      if 0 < i ∧ (flagOf tab).explicit then
        fail lineno "cannot extend a previously defined table using dotted expression"
      else do
        let top ← tabAddAt lineno top p key (mktable false)
        locate lineno (i + 1) keys top (p ++ [tab.children.length])
    | some j => do
      let value ← deref top (p ++ [j])
      if isTable value then locate lineno (i + 1) keys top (p ++ [j])
      else if isArray value then
        failKey lineno "encountered previously declared array '" key "'"
      else failKey lineno "cannot locate table at '" key "'"

/-- The table of `parse_keyvalue_expr`, with the checks that come before its value. -/
def locateTable (lineno : ℕ) (keys : List Bytes) (top : Datum F) (curtab : Position) :
    Except Failure (Datum F × Position) := do
  let (top, p) ← locate lineno 0 keys top curtab
  let tab ← deref top p
  if (flagOf tab).inlined then fail lineno "inline table cannot be extended"
  else if keys ≠ [] ∧ (flagOf tab).explicit then
    fail lineno "cannot extend a previously defined table using dotted expression"
  else .ok (top, p)

/-- What `parse_inline_table` does to its table before the value of a key, at the line of the
last token. -/
def locateInline (lineno : ℕ) (keys : List Bytes) (tab : Datum F) :
    Except Failure (Datum F × Position) := do
  let (top, p) ← descendKeypart lineno false keys tab []
  let tab ← deref top p
  if (flagOf tab).inlined then fail lineno "inline table cannot be extended"
  else .ok (top.update setExplicit p, p)

end Xfrpc.Toml.Tree
