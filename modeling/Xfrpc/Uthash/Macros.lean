import Xfrpc.Foundations.BigEndian
import Xfrpc.Foundations.DoublyLinked

namespace Xfrpc.Uthash.Macros

open Foundations.DoublyLinked

/-- How a macro can fail to end: `uthash_fatal` exits; a fault is an access outside of an
array or through a null pointer, a division by zero, or a loop that does not end. -/
inductive Stop
  | fatal
  | fault
  deriving DecidableEq, Repr

/-- `UT_hash_bucket`. -/
structure Bucket (α : Type) where
  hhHead : Option α
  count : ℕ
  expandMult : ℕ
  deriving DecidableEq, Repr

/-- `UT_hash_table`. -/
structure Table (α : Type) where
  buckets : List (Bucket α)
  numBuckets : ℕ
  log2NumBuckets : ℕ
  numItems : ℕ
  tail : Option α
  idealChainMaxlen : ℕ
  nonidealItems : ℕ
  ineffExpands : ℕ
  noexpand : ℕ
  deriving DecidableEq, Repr

/-- The elements with the fields of their `UT_hash_handle`: the application order in `app`,
the bucket order (`hh_prev` and `hh_next`) in `bkt`. The table belongs to the element that
`head` points to, and has been freed when there is none. -/
structure Hash (α : Type) where
  head : Option α
  tbl : Table α
  app : Links α
  bkt : Links α
  key : α → Bytes
  keylen : α → ℕ
  hashv : α → ℕ

def hashInitialNumBuckets : ℕ := 32

def hashInitialNumBucketsLog2 : ℕ := 5

def hashBktCapacityThresh : ℕ := 10

/-- `HASH_TO_BKT`. -/
def hashToBkt (hashv numBkts : ℕ) : ℕ := hashv &&& (numBkts - 1)

/-- A bucket after `memset`. -/
def Bucket.zero : Bucket α := ⟨none, 0, 0⟩

section Macros

variable {α : Type} [DecidableEq α]

/-- The new buckets while the items are redistributed. -/
structure Expansion (α : Type) where
  newBuckets : List (Bucket α)
  nonidealItems : ℕ
  bkt : Links α

/-- The body of the inner loop of `HASH_EXPAND_BUCKETS`. -/
def moveItem (h : Hash α) (idealChainMaxlen : ℕ) (thh : α) (e : Expansion α) :
    Except Stop (Expansion α) :=
  let bkt := hashToBkt (h.hashv thh) (h.tbl.numBuckets * 2)
  match e.newBuckets[bkt]? with
  | none => .error .fault
  | some newbkt =>
    let count := newbkt.count + 1
    let links := e.bkt.pushFront newbkt.hhHead thh
    if idealChainMaxlen < count then
      if idealChainMaxlen = 0 then .error .fault
      else
        .ok ⟨e.newBuckets.set bkt ⟨some thh, count, count / idealChainMaxlen⟩,
          e.nonidealItems + 1, links⟩
    else .ok ⟨e.newBuckets.set bkt ⟨some thh, count, newbkt.expandMult⟩, e.nonidealItems, links⟩

/-- The inner loop; the next item is read before this one is moved. -/
def moveChain (h : Hash α) (idealChainMaxlen : ℕ) :
    ℕ → Option α → Expansion α → Except Stop (Expansion α)
  | 0, _, _ => .error .fault
  | _ + 1, none, e => .ok e
  | fuel + 1, some thh, e => do
    let hhNxt := e.bkt.next thh
    let e ← moveItem h idealChainMaxlen thh e
    moveChain h idealChainMaxlen fuel hhNxt e

/-- The outer loop. -/
def moveBuckets (h : Hash α) (idealChainMaxlen : ℕ) :
    List (Bucket α) → Expansion α → Except Stop (Expansion α)
  | [], e => .ok e
  | b :: bs, e => do
    let e ← moveChain h idealChainMaxlen (h.tbl.numItems + 1) b.hhHead e
    moveBuckets h idealChainMaxlen bs e

-- whether there is memory for so many buckets, and the hash function
variable (room : ℕ → Bool) (hashFcn : Bytes → ℕ)

/-- `HASH_EXPAND_BUCKETS`. -/
def hashExpandBuckets (h : Hash α) : Except Stop (Hash α) :=
  let t := h.tbl
  if room (2 * t.numBuckets) = false then .error .fatal
  else do
    let ideal := t.numItems >>> (t.log2NumBuckets + 1) +
      if t.numItems &&& (t.numBuckets * 2 - 1) ≠ 0 then 1 else 0
    let e ← moveBuckets h ideal t.buckets ⟨.replicate (2 * t.numBuckets) .zero, 0, h.bkt⟩
    let ineff := if e.nonidealItems > t.numItems >>> 1 then t.ineffExpands + 1 else 0
    return { h with
      bkt := e.bkt
      tbl := { t with
        buckets := e.newBuckets
        numBuckets := t.numBuckets * 2
        log2NumBuckets := t.log2NumBuckets + 1
        idealChainMaxlen := ideal
        nonidealItems := e.nonidealItems
        ineffExpands := ineff
        noexpand := if ineff > 1 then 1 else t.noexpand } }

/-- The links of `HASH_ADD_TO_BKT`: the item is put in front of the bucket `b`, the one with
the number `i`. -/
def putInBkt (i : ℕ) (b : Bucket α) (add : α) (h : Hash α) : Hash α :=
  { h with
    bkt := h.bkt.pushFront b.hhHead add
    tbl := { h.tbl with
      buckets := h.tbl.buckets.set i ⟨some add, b.count + 1, b.expandMult⟩ } }

/-- `HASH_ADD_TO_BKT`, on the bucket `i`. -/
def hashAddToBkt (i : ℕ) (add : α) (h : Hash α) : Except Stop (Hash α) :=
  match h.tbl.buckets[i]? with
  | none => .error .fault
  | some b =>
    if (b.expandMult + 1) * hashBktCapacityThresh ≤ b.count + 1 ∧ h.tbl.noexpand ≠ 1 then
      hashExpandBuckets room (putInBkt i b add h)
    else .ok (putInBkt i b add h)

/-- The table `HASH_MAKE_TABLE` fills for its first element. -/
def hashMakeTable (head : α) : Table α where
  buckets := .replicate hashInitialNumBuckets .zero
  numBuckets := hashInitialNumBuckets
  log2NumBuckets := hashInitialNumBucketsLog2
  numItems := 0
  tail := some head
  idealChainMaxlen := 0
  nonidealItems := 0
  ineffExpands := 0
  noexpand := 0

/-- The application order in `HASH_ADD_KEYPTR`: the first element makes the table, another
one goes behind the tail. -/
def appendItem (add : α) (h : Hash α) : Except Stop (Hash α) :=
  match h.head with
  | none =>
    if room hashInitialNumBuckets = false then .error .fatal
    else
      .ok { h with
        head := some add
        tbl := hashMakeTable add
        app := (h.app.setNext (some add) none).setPrev (some add) none }
  | some _ =>
    match h.tbl.tail with
    | none => .error .fault
    | some tail =>
      .ok { h with app := h.app.pushBack tail add, tbl := { h.tbl with tail := some add } }

/-- `HASH_ADD_KEYPTR`: `keyptr` is what the pointer leads to, as many bytes as `keylen_in`. -/
def hashAddKeyptr (keyptr : Bytes) (add : α) (h : Hash α) : Except Stop (Hash α) := do
  let h ← appendItem room add { h with
    key := Function.update h.key add keyptr
    keylen := Function.update h.keylen add keyptr.length }
  let hashv := hashFcn keyptr
  hashAddToBkt room (hashToBkt hashv h.tbl.numBuckets) add { h with
    tbl := { h.tbl with numItems := h.tbl.numItems + 1 }
    hashv := Function.update h.hashv add hashv }

/-- `HASH_DEL_IN_BKT`, on the bucket `i`. -/
def hashDelInBkt (i : ℕ) (del : α) (h : Hash α) : Except Stop (Hash α) :=
  match h.tbl.buckets[i]? with
  | none => .error .fault
  | some b =>
    let hhHead := if b.hhHead = some del then h.bkt.next del else b.hhHead
    .ok { h with
      bkt := h.bkt.unlink del
      tbl := { h.tbl with buckets := h.tbl.buckets.set i ⟨hhHead, b.count - 1, b.expandMult⟩ } }

/-- `HASH_DELETE`. An element with neither neighbour is taken for the only one, and the table
is freed. -/
def hashDelete (del : α) (h : Hash α) : Except Stop (Hash α) :=
  if h.head = none then .error .fault
  else if h.app.prev del = none ∧ h.app.next del = none then .ok { h with head := none }
  else
    let tail := if h.tbl.tail = some del then h.app.prev del else h.tbl.tail
    let head := if (h.app.prev del).isSome then h.head else h.app.next del
    if head = none then .error .fault
    else do
      let i := hashToBkt (h.hashv del) h.tbl.numBuckets
      let h ← hashDelInBkt i del
        { h with head := head, app := h.app.unlink del, tbl := { h.tbl with tail := tail } }
      return { h with tbl := { h.tbl with numItems := h.tbl.numItems - 1 } }

/-- `HASH_CLEAR`. -/
def hashClear (h : Hash α) : Hash α := { h with head := none }

/-- The test of `HASH_FIND_IN_BKT`. -/
def sameKey (h : Hash α) (keyptr : Bytes) (a : α) : Bool :=
  h.keylen a == keyptr.length && h.key a == keyptr

/-- `HASH_FIND`. -/
def hashFind (keyptr : Bytes) (h : Hash α) : Except Stop (Option α) :=
  match h.head with
  | none => .ok none
  | some _ =>
    match h.tbl.buckets[hashToBkt (hashFcn keyptr) h.tbl.numBuckets]? with
    | none => .error .fault
    | some b =>
      match h.bkt.scan (sameKey h keyptr) (h.tbl.numItems + 1) b.hhHead with
      | none => .error .fault
      | some out => .ok out

/-- `HASH_CNT`. -/
def hashCnt (h : Hash α) : ℕ :=
  match h.head with
  | none => 0
  | some _ => h.tbl.numItems

/-- The loop of `HASH_ITER` around a body that works on `σ`: `tmp` is the element after `el`
when the body begins. -/
def hashIter {σ : Type} (hash : σ → Hash α) (body : α → σ → Except Stop σ) :
    ℕ → Option α → Option α → σ → Except Stop σ
  | 0, _, _, _ => .error .fault
  | _ + 1, none, _, s => .ok s
  | fuel + 1, some el, tmp, s => do
    let s ← body el s
    hashIter hash body fuel tmp (tmp.bind (hash s).app.next) s

/-- `HASH_ITER` from the head on. -/
def hashIterAll {σ : Type} (hash : σ → Hash α) (body : α → σ → Except Stop σ) (fuel : ℕ)
    (s : σ) : Except Stop σ :=
  hashIter hash body fuel (hash s).head ((hash s).head.bind (hash s).app.next) s

/-- The walk of `HASH_FSCK` over a list: its length, unless a pointer back is wrong. -/
def fsckWalk (L : Links α) : ℕ → Option α → Option α → ℕ → Option ℕ
  | 0, _, _, _ => none
  | _ + 1, none, _, count => some count
  | fuel + 1, some thh, prev, count =>
    if prev ≠ L.prev thh then none else fsckWalk L fuel (L.next thh) (some thh) (count + 1)

/-- `HASH_FSCK`, which checks the whole table when `HASH_DEBUG` is defined. -/
def hashFsck (h : Hash α) : Bool :=
  match h.head with
  | none => true
  | some _ =>
    let fuel := h.tbl.numItems + 1
    h.tbl.buckets.all (fun b ↦ fsckWalk h.bkt fuel b.hhHead none 0 == some b.count) &&
      (h.tbl.buckets.map Bucket.count).sum == h.tbl.numItems &&
      fsckWalk h.app fuel h.head none 0 == some h.tbl.numItems

end Macros

section Jenkins

/-- A byte of the key as an `unsigned`. -/
def keyByte (key : Bytes) (i : ℕ) : UInt32 := (key.getD i 0).toUInt32

/-- Four bytes of the key; those it does not have count for nothing. -/
def keyWord (key : Bytes) (i : ℕ) : UInt32 :=
  keyByte key i + keyByte key (i + 1) <<< 8 + keyByte key (i + 2) <<< 16 +
    keyByte key (i + 3) <<< 24

/-- `HASH_JEN_MIX`. -/
def hashJenMix (a b c : UInt32) : UInt32 × UInt32 × UInt32 :=
  let a := (a - b - c) ^^^ (c >>> 13)
  let b := (b - c - a) ^^^ (a <<< 8)
  let c := (c - a - b) ^^^ (b >>> 13)
  let a := (a - b - c) ^^^ (c >>> 12)
  let b := (b - c - a) ^^^ (a <<< 16)
  let c := (c - a - b) ^^^ (b >>> 5)
  let a := (a - b - c) ^^^ (c >>> 3)
  let b := (b - c - a) ^^^ (a <<< 10)
  let c := (c - a - b) ^^^ (b >>> 15)
  (a, b, c)

/-- The loop of `HASH_JEN` and what it does to the last eleven bytes or fewer: they go to the
three words, the last three of them past the low byte of `hashv`. -/
def hashJenLoop : ℕ → Bytes → ℕ → UInt32 → UInt32 → UInt32 → UInt32
  | 0, _, _, _, _, hashv => hashv
  | fuel + 1, key, keylen, i, j, hashv =>
    if 12 ≤ key.length then
      let (i, j, hashv) :=
        hashJenMix (i + keyWord key 0) (j + keyWord key 4) (hashv + keyWord key 8)
      hashJenLoop fuel (key.drop 12) keylen i j hashv
    else
      (hashJenMix (i + keyWord key 0) (j + keyWord key 4)
        (hashv + .ofNat keylen + keyByte key 8 <<< 8 + keyByte key 9 <<< 16 +
          keyByte key 10 <<< 24)).2.2

/-- `HASH_JEN`, the default hash function. -/
def hashJen (key : Bytes) : ℕ :=
  (hashJenLoop (key.length / 12 + 1) key key.length 0x9e3779b9 0x9e3779b9 0xfeedbeef).toNat

end Jenkins

end Xfrpc.Uthash.Macros
