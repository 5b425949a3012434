import Xfrpc.Event.RawBuffer

namespace Xfrpc.Event.ByteQueue

open Foundations.Block RawBuffer
open Buffer (le_newCap)

/-- `what` stands at the place `i` of a list. -/
def Occurs (what l : Bytes) (i : ℕ) : Prop := ∃ x y, l = x ++ (what ++ y) ∧ x.length = i

/-- The place where `what` first occurs at or after an offset, and -1 without one. -/
def FirstAt (what l : Bytes) (off : ℕ) (r : ℤ) : Prop :=
  (∃ i : ℕ, r = i ∧ off ≤ i ∧ Occurs what l i ∧ ∀ j, off ≤ j → j < i → ¬ Occurs what l j) ∨
    (r = -1 ∧ ∀ j, off ≤ j → ¬ Occurs what l j)

section Search

variable {b : Raw} {what : Bytes}

theorem Occurs.le {l : Bytes} {i : ℕ} (h : Occurs what l i) : i + what.length ≤ l.length := by
  obtain ⟨x, y, rfl, rfl⟩ := h
  simp only [List.length_append]
  omega

theorem occurs_iff {l : Bytes} {i : ℕ} (hi : i + what.length ≤ l.length) :
    Occurs what l i ↔ (l.drop i).take what.length = what := by
  constructor
  · rintro ⟨x, y, rfl, rfl⟩
    rw [List.drop_left, List.take_left]
  · intro h
    have hrest : what ++ (l.drop i).drop what.length = l.drop i :=
      calc what ++ (l.drop i).drop what.length
          = (l.drop i).take what.length ++ (l.drop i).drop what.length := by rw [h]
        _ = l.drop i := List.take_append_drop _ _
    refine ⟨l.take i, (l.drop i).drop what.length, ?_, List.length_take_of_le (by omega)⟩
    rw [hrest, List.take_append_drop]

theorem take_drop_contents {i n : ℕ} (h : i + n ≤ b.len) :
    (b.contents.drop i).take n = (b.mem.drop i).take n := by
  rw [Raw.contents, List.drop_take, List.take_take, Nat.min_eq_left (by omega)]

theorem searchLoop_spec (hb : b.Good) (hwhat : 0 < what.length) {fuel i : ℕ}
    (hfuel : b.len + 2 ≤ fuel + i + what.length) (hi : i + what.length ≤ b.len + 1) :
    ∃ r, searchLoop b what fuel i = some r ∧ FirstAt what b.contents i r := by
  have hmax := hb.len_le
  have hval : maxTotal = 2 ^ 31 := rfl
  have hlen := hb.contents_length
  induction fuel generalizing i with
  | zero => omega
  | succ fuel ih =>
    have hsum : sizeT (i + what.length) = i + what.length := Nat.mod_eq_of_lt (by omega)
    rw [searchLoop, hsum]
    by_cases hin : i + what.length ≤ b.len
    · rw [if_pos hin]
      have hocc := @occurs_iff what b.contents i (by omega)
      rw [take_drop_contents hin] at hocc
      by_cases hmatch : (b.mem.drop i).take what.length = what
      · refine ⟨toSigned i, by rw [if_pos hmatch], .inl ⟨i, toSigned_of_lt (by omega), ?_, ?_, ?_⟩⟩
        · exact Nat.le_refl i
        · exact hocc.mpr hmatch
        · omega
      · have hnext : sizeT (i + 1) = i + 1 := Nat.mod_eq_of_lt (by omega)
        obtain ⟨r, hr, hfirst⟩ := @ih (i + 1) (by omega) (by omega)
        have hnot : ∀ {P : ℕ → Prop}, (∀ j, i + 1 ≤ j → P j → ¬ Occurs what b.contents j) →
            ∀ j, i ≤ j → P j → ¬ Occurs what b.contents j := by
          intro P hP j hj hPj
          rcases Nat.eq_or_lt_of_le hj with rfl | hlt
          · exact fun h ↦ hmatch (hocc.mp h)
          · exact hP j hlt hPj
        refine ⟨r, by rw [if_neg hmatch, hnext, hr], ?_⟩
        rcases hfirst with ⟨k, hk, hik, hat, hbefore⟩ | ⟨hk, hnone⟩
        · exact .inl ⟨k, hk, by omega, hat, hnot hbefore⟩
        · refine .inr ⟨hk, ?_⟩
          intro j hj
          exact hnot (P := fun _ ↦ True) (fun j hj _ ↦ hnone j hj) j hj trivial
    · rw [if_neg hin]
      refine ⟨-1, rfl, .inr ⟨rfl, ?_⟩⟩
      intro j hj hocc
      have hle := hocc.le
      omega

theorem evbufferSearch_spec (hb : b.Good) (hwhat : what ≠ []) (start : Option ℤ) :
    ∃ r, evbufferSearch b (some what) start = some (.code r) ∧
      FirstAt what b.contents (offsetOf start) r := by
  have hpos : 0 < what.length := List.length_pos_of_ne_nil hwhat
  have hlen := hb.contents_length
  rw [evbufferSearch, if_neg (by omega)]
  by_cases hguard : what.length ≤ b.len ∧ offsetOf start ≤ b.len - what.length
  · rw [if_pos hguard]
    obtain ⟨hfit, hoff⟩ := hguard
    obtain ⟨r, hr, hfirst⟩ := searchLoop_spec hb hpos
      (by omega : b.len + 2 ≤ b.len + 1 + offsetOf start + what.length) (by omega)
    exact ⟨r, by rw [hr]; rfl, hfirst⟩
  · rw [if_neg hguard]
    refine ⟨-1, rfl, .inr ⟨rfl, ?_⟩⟩
    intro j hj hocc
    have hle := hocc.le
    exact hguard ⟨by omega, by omega⟩

end Search

/-- The buffers of the program, each under a name of its own. -/
abbrev Heap := ℕ → Raw

abbrev Queues := ℕ → Bytes

def contents (h : Heap) : Queues := fun b ↦ (h b).contents

inductive Op
  | add (b : ℕ) (data : Option Bytes)
  | addBuffer (dst src : ℕ)
  | prepend (b : ℕ) (data : Option Bytes)
  | remove (b : ℕ) (data : Bool) (len : ℕ)
  | removeBuffer (src dst : ℕ) (len : ℕ)
  | drain (b : ℕ) (len : ℕ)
  | search (b : ℕ) (what : Option Bytes) (start : Option ℤ)
  deriving DecidableEq

section Steps

open Function (update)

def Op.step (a : Alloc) (h : Heap) : Op → Option (Out × Heap)
  | .add b data => (evbufferAdd a (h b) data).map fun (out, b') ↦ (out, update h b b')
  | .addBuffer dst src =>
    if dst = src then some (.code (-1), h)
    else
      (evbufferAddBuffer a (h dst) (h src)).map fun (out, dst', src') ↦
        (out, update (update h dst dst') src src')
  | .prepend b data => (evbufferPrepend a (h b) data).map fun (out, b') ↦ (out, update h b b')
  | .remove b data len =>
    let (out, b') := evbufferRemove (h b) data len
    some (out, update h b b')
  | .removeBuffer src dst len =>
    (evbufferRemoveBuffer a (h src) (h dst) len).map fun (out, src', dst') ↦
      (out, update (update h dst dst') src src')
  | .drain b len =>
    let (out, b') := evbufferDrain (h b) len
    some (out, update h b b')
  | .search b what start => (evbufferSearch (h b) what start).map fun out ↦ (out, h)

def run : Heap → List (Op × Alloc) → Option (List Out × Heap)
  | h, [] => some ([], h)
  | h, (op, a) :: ops =>
    (op.step a h).bind fun (out, h') ↦ (run h' ops).map fun (outs, h'') ↦ (out :: outs, h'')

/-- What an operation returns and leaves on lists of bytes, when no allocation fails.
A number of bytes is returned as an `int` by `evbuffer_remove`, and an empty text is
found nowhere. -/
def Op.OnLists (q : Queues) (out : Out) (q' : Queues) : Op → Prop
  | .add _ none | .prepend _ none | .remove _ false _ | .search _ none _ | .search _ (some []) _ =>
    out = .code (-1) ∧ q' = q
  | .add b (some bs) => out = .code 0 ∧ q' = update q b (q b ++ bs)
  | .addBuffer dst src =>
    if dst = src then out = .code (-1) ∧ q' = q
    else out = .code 0 ∧ q' = update (update q dst (q dst ++ q src)) src []
  | .prepend b (some bs) => out = .code 0 ∧ q' = update q b (bs ++ q b)
  | .remove b true len =>
    out = { ret := toSigned (min len (q b).length), bytes := (q b).take len, failed := false } ∧
      q' = update q b ((q b).drop len)
  | .removeBuffer src dst len =>
    out = .code (min len (q src).length : ℕ) ∧
      q' = update (update q dst (q dst ++ (q src).take len)) src ((q src).drop len)
  | .drain b len => out = .code 0 ∧ q' = update q b ((q b).drop len)
  | .search b (some what) start =>
    ∃ r, out = .code r ∧ FirstAt what (q b) (offsetOf start) r ∧ q' = q

/-- What a call returns when an allocation has failed. -/
def Op.failure : Op → ℤ
  | .removeBuffer .. => 0
  | _ => -1

/-- The totals an operation asks for are within bounds, and it moves bytes between
two buffers only. -/
def Op.Sized (q : Queues) : Op → Prop
  | .add b (some bs) | .prepend b (some bs) => (q b).length + bs.length ≤ maxTotal
  | .addBuffer dst src => dst ≠ src → (q dst).length + (q src).length ≤ maxTotal
  | .removeBuffer src dst len =>
    src ≠ dst ∧ (q dst).length + min len (q src).length ≤ maxTotal
  | _ => True

def SizedRun : Heap → List (Op × Alloc) → Prop
  | _, [] => True
  | h, (op, a) :: ops =>
    op.Sized (contents h) ∧ ∀ out h', op.step a h = some (out, h') → SizedRun h' ops

/-- A step as the byte queue has it: with what it says on lists, or refused by
`realloc` with every buffer as it was. -/
def Op.Meets (a : Alloc) (h : Heap) (out : Out) (h' : Heap) (op : Op) : Prop :=
  op.OnLists (contents h) out (contents h') ∨
    (a.granted = false ∧ out = .refusal op.failure ∧ h' = h)

inductive RunMeets : Heap → List (Op × Alloc) → List Out → Heap → Prop
  | nil (h : Heap) : RunMeets h [] [] h
  | cons {h h' h'' : Heap} {op : Op} {a : Alloc} {out : Out} {ops : List (Op × Alloc)}
      {outs : List Out} (hstep : op.Meets a h out h') (hrest : RunMeets h' ops outs h'') :
      RunMeets h ((op, a) :: ops) (out :: outs) h''

def GoodHeap (h : Heap) : Prop := ∀ b, (h b).Good

theorem contents_update (h : Heap) (b : ℕ) (r : Raw) :
    contents (update h b r) = update (contents h) b r.contents := by
  funext c
  by_cases hc : c = b
  · subst hc
    simp [contents]
  · simp [contents, hc]

theorem GoodHeap.update {h : Heap} (hg : GoodHeap h) {b : ℕ} {r : Raw} (hr : r.Good) :
    GoodHeap (update h b r) := by
  intro c
  by_cases hc : c = b
  · subst hc
    rwa [Function.update_self]
  · rw [Function.update_of_ne hc]
    exact hg c

variable {h : Heap} {a : Alloc}

/-- A step that is as a byte queue and keeps the invariant of every buffer. -/
def Op.Safe (a : Alloc) (h : Heap) (op : Op) : Prop :=
  ∃ out h', op.step a h = some (out, h') ∧ op.Meets a h out h' ∧ GoodHeap h'

/-- An operation on one buffer is safe when its function either succeeds with the list
wanted or is refused a block. -/
theorem oneBuffer_safe (hg : GoodHeap h) {op : Op} {b : ℕ} {r : Option (Out × Raw)} {l : Bytes}
    (hstep : op.step a h = r.map fun (out, b') ↦ (out, update h b b')) (hfail : op.failure = -1)
    (hlists : op.OnLists (contents h) (.code 0) (update (contents h) b l))
    (hspec : (a.granted = false ∧ r = some (.refusal (-1), h b)) ∨
      ∃ b', r = some (.code 0, b') ∧ b'.Good ∧ b'.contents = l) : op.Safe a h := by
  rcases hspec with ⟨hno, hr⟩ | ⟨b', hr, hgood, hcon⟩
  · refine ⟨.refusal (-1), h, ?_, .inr ⟨hno, by rw [hfail], rfl⟩, hg⟩
    rw [hstep, hr, Option.map_some]
    dsimp only
    rw [Function.update_eq_self]
  · refine ⟨.code 0, update h b b', ?_, .inl ?_, hg.update hgood⟩
    · rw [hstep, hr, Option.map_some]
    · rw [contents_update, hcon]
      exact hlists

theorem add_safe (hg : GoodHeap h) {b : ℕ} {bs : Bytes}
    (hs : (contents h b).length + bs.length ≤ maxTotal) : (Op.add b (some bs)).Safe a h := by
  have hlen : (h b).len + bs.length ≤ maxTotal := (hg b).contents_length ▸ hs
  exact oneBuffer_safe hg rfl rfl ⟨rfl, rfl⟩ (evbufferAdd_spec a (hg b) hlen)

theorem prepend_safe (hg : GoodHeap h) {b : ℕ} {bs : Bytes}
    (hs : (contents h b).length + bs.length ≤ maxTotal) : (Op.prepend b (some bs)).Safe a h := by
  have hlen : (h b).len + bs.length ≤ maxTotal := (hg b).contents_length ▸ hs
  exact oneBuffer_safe hg rfl rfl ⟨rfl, rfl⟩ (evbufferPrepend_spec a (hg b) hlen)

/-- A call that is refused for its arguments leaves the buffers as they are. -/
theorem refused_safe (hg : GoodHeap h) {op : Op} {b : ℕ}
    (hstep : op.step a h = some (.code (-1), update h b (h b)))
    (hlists : op.OnLists (contents h) (.code (-1)) (contents h)) : op.Safe a h := by
  rw [Function.update_eq_self] at hstep
  exact ⟨.code (-1), h, hstep, .inl hlists, hg⟩

theorem addBuffer_safe (hg : GoodHeap h) {dst src : ℕ}
    (hs : dst ≠ src → (contents h dst).length + (contents h src).length ≤ maxTotal) :
    (Op.addBuffer dst src).Safe a h := by
  by_cases heq : dst = src
  · refine ⟨.code (-1), h, ?_, .inl ?_, hg⟩
    · rw [Op.step, if_pos heq]
    · rw [Op.OnLists, if_pos heq]
      exact ⟨rfl, rfl⟩
  · have hlen : (h dst).len + (h src).len ≤ maxTotal :=
      (hg src).contents_length ▸ (hg dst).contents_length ▸ hs heq
    rcases evbufferAddBuffer_spec a (hg dst) (hg src) hlen with
      ⟨hno, hadd⟩ | ⟨dst', src', hadd, hgd, hgs, hcd, hcs⟩
    · refine ⟨.refusal (-1), h, ?_, .inr ⟨hno, rfl, rfl⟩, hg⟩
      rw [Op.step, if_neg heq, hadd, Option.map_some]
      dsimp only
      rw [Function.update_eq_self, Function.update_eq_self]
    · refine ⟨.code 0, update (update h dst dst') src src', ?_, .inl ?_,
        (hg.update hgd).update hgs⟩
      · rw [Op.step, if_neg heq, hadd, Option.map_some]
      · rw [Op.OnLists, if_neg heq, contents_update, contents_update, hcd, hcs]
        exact ⟨rfl, rfl⟩

theorem removeBuffer_safe (hg : GoodHeap h) {src dst len : ℕ}
    (hs : (contents h dst).length + min len (contents h src).length ≤ maxTotal) :
    (Op.removeBuffer src dst len).Safe a h := by
  have hsrc : (contents h src).length = (h src).len := (hg src).contents_length
  have hlen : (h dst).len + min len (h src).len ≤ maxTotal :=
    hsrc ▸ (hg dst).contents_length ▸ hs
  rcases evbufferRemoveBuffer_spec a (hg src) (hg dst) hlen with
    ⟨hno, hmove⟩ | ⟨src', dst', hmove, hgs, hgd, hcs, hcd⟩
  · refine ⟨.refusal 0, h, ?_, .inr ⟨hno, rfl, rfl⟩, hg⟩
    rw [Op.step, hmove, Option.map_some]
    dsimp only
    rw [Function.update_eq_self, Function.update_eq_self]
  · refine ⟨.code (min len (h src).len : ℕ), update (update h dst dst') src src', ?_,
      .inl ⟨?_, ?_⟩, (hg.update hgd).update hgs⟩
    · rw [Op.step, hmove, Option.map_some]
    · rw [hsrc]
    · rw [contents_update, contents_update, hcs, hcd]
      rfl

theorem remove_safe (hg : GoodHeap h) (b : ℕ) (data : Bool) (len : ℕ) :
    (Op.remove b data len).Safe a h := by
  obtain ⟨hgood, hrest⟩ := (hg b).shift len
  cases data with
  | false => exact refused_safe hg rfl ⟨rfl, rfl⟩
  | true =>
    refine ⟨_, _, rfl, .inl ⟨?_, ?_⟩, hg.update hgood⟩
    · have hlen : (contents h b).length = (h b).len := (hg b).contents_length
      rw [hlen, ← clamp_eq, contents, ← take_clamp]
    · refine (contents_update _ _ _).trans ?_
      exact congrArg (update (contents h) b) hrest

theorem drain_safe (hg : GoodHeap h) (b len : ℕ) : (Op.drain b len).Safe a h := by
  obtain ⟨hgood, hrest⟩ := (hg b).shift len
  refine ⟨_, _, rfl, .inl ⟨rfl, ?_⟩, hg.update hgood⟩
  refine (contents_update _ _ _).trans ?_
  exact congrArg (update (contents h) b) hrest

theorem search_safe (hg : GoodHeap h) (b : ℕ) (what : Option Bytes) (start : Option ℤ) :
    (Op.search b what start).Safe a h := by
  rcases what with _ | _ | ⟨c, what⟩
  · exact ⟨_, _, rfl, .inl ⟨rfl, rfl⟩, hg⟩
  · exact ⟨_, _, rfl, .inl ⟨rfl, rfl⟩, hg⟩
  · obtain ⟨r, hr, hfirst⟩ := evbufferSearch_spec (hg b) (List.cons_ne_nil c what) start
    refine ⟨.code r, h, ?_, .inl ⟨r, rfl, hfirst, rfl⟩, hg⟩
    rw [Op.step, hr, Option.map_some]

theorem Op.step_safe (hg : GoodHeap h) {op : Op} (hs : op.Sized (contents h)) : op.Safe a h := by
  cases op with
  | add b data =>
    cases data with
    | none => exact refused_safe hg rfl ⟨rfl, rfl⟩
    | some bs => exact add_safe hg hs
  | addBuffer dst src => exact addBuffer_safe hg hs
  | prepend b data =>
    cases data with
    | none => exact refused_safe hg rfl ⟨rfl, rfl⟩
    | some bs => exact prepend_safe hg hs
  | remove b data len => exact remove_safe hg b data len
  | removeBuffer src dst len => exact removeBuffer_safe hg hs.2
  | drain b len => exact drain_safe hg b len
  | search b what start => exact search_safe hg b what start

def newHeap : Heap := fun _ ↦ .new

theorem newHeap_good : GoodHeap newHeap := fun _ ↦ Raw.new_good

theorem run_meets {ops : List (Op × Alloc)} (hg : GoodHeap h) (hs : SizedRun h ops) :
    ∃ outs h', run h ops = some (outs, h') ∧ RunMeets h ops outs h' ∧ GoodHeap h' := by
  induction ops generalizing h with
  | nil => exact ⟨[], h, rfl, .nil h, hg⟩
  | cons op ops ih =>
    obtain ⟨op, a⟩ := op
    obtain ⟨hsized, hrest⟩ := hs
    obtain ⟨out, h', hstep, hmeets, hg'⟩ := op.step_safe hg hsized
    obtain ⟨outs, h'', hrun, hmore, hg''⟩ := ih hg' (hrest out h' hstep)
    refine ⟨out :: outs, h'', ?_, .cons hmeets hmore, hg''⟩
    rw [run, hstep, Option.bind_some]
    dsimp only
    rw [hrun, Option.map_some]

/-- A run within bounds comes through, whatever allocations fail. It returns and leaves
what a queue of bytes does, each buffer stays within its block, and the doubling of the
next reservation ends. -/
theorem evbuffer_is_byte_queue {ops : List (Op × Alloc)} (hs : SizedRun newHeap ops) :
    ∃ outs h', run newHeap ops = some (outs, h') ∧ RunMeets newHeap ops outs h' ∧
      (∀ b, (h' b).len ≤ (h' b).cap ∧ (h' b).mem.length = (h' b).cap) ∧
      ∀ b need, (h' b).len + need ≤ maxTotal →
        ∃ ncap, growCap (h' b) need = some ncap ∧ (h' b).len + need ≤ ncap := by
  obtain ⟨outs, h', hrun, hmeets, hg⟩ := run_meets newHeap_good hs
  refine ⟨outs, h', hrun, hmeets, fun b ↦ ⟨(hg b).fits, (hg b).block⟩, ?_⟩
  intro b need hneed
  exact ⟨_, (growCap_eq (hg b) hneed).1, le_newCap _ _⟩

def ample : Alloc := { granted := true, fill := fun _ ↦ 0 }

theorem run_add_remove {bs : Bytes} (hbs : bs.length ≤ maxTotal) :
    ∃ h', run newHeap [(.add 0 (some bs), ample), (.remove 0 true bs.length, ample)] =
      some ([.code 0, { ret := toSigned bs.length, bytes := bs, failed := false }], h') := by
  have hroom : (newHeap 0).len + bs.length ≤ maxTotal := (Nat.zero_add bs.length).symm ▸ hbs
  rcases evbufferAdd_spec ample (newHeap_good 0) hroom with ⟨hno, -⟩ | ⟨b, hadd, hgood, hcon⟩
  · cases hno
  · have hcontents : b.contents = bs := hcon
    have hlen : b.len = bs.length := by rw [← hgood.contents_length, hcontents]
    have hclamp : clamp b bs.length = bs.length := by rw [clamp_eq, hlen, Nat.min_self]
    have htake : b.mem.take bs.length = bs := by rw [← hlen]; exact hcontents
    refine ⟨update (update newHeap 0 b) 0 (b.shift bs.length), ?_⟩
    rw [run, Op.step, hadd, Option.map_some, Option.bind_some]
    dsimp only
    rw [run, Op.step, evbufferRemove]
    simp only [Function.update_self, Bool.not_true, Bool.false_eq_true, if_false, hclamp, htake,
      Option.bind_some, run, Option.map_some]

/-- Half of what a `size_t` can count. -/
def halfSpace : Bytes := List.replicate maxTotal 0

/-- An empty text occurs at the start of every list and is not found, and the number of
bytes that `evbuffer_remove` returns can be a negative `int`. -/
theorem search_empty_remove_half :
    (∃ out, (Op.search 0 (some []) none).step ample newHeap = some (out, newHeap) ∧
      ¬ FirstAt [] (contents newHeap 0) 0 out.ret) ∧
    ∃ out h', SizedRun newHeap
        [(.add 0 (some halfSpace), ample), (.remove 0 true halfSpace.length, ample)] ∧
      run newHeap [(.add 0 (some halfSpace), ample), (.remove 0 true halfSpace.length, ample)] =
        some ([.code 0, out], h') ∧
      out.bytes = halfSpace ∧ out.ret = -2147483648 := by
  have hlen : halfSpace.length = maxTotal := List.length_replicate
  constructor
  · refine ⟨.code (-1), rfl, ?_⟩
    rintro (⟨i, hi, -⟩ | ⟨-, hnone⟩)
    · have hcode : (-1 : ℤ) = i := hi
      omega
    · exact hnone 0 (Nat.le_refl 0) ⟨[], [], rfl, rfl⟩
  · obtain ⟨h', hrun⟩ := run_add_remove (Nat.le_of_eq hlen)
    refine ⟨_, h', ⟨?_, fun _ _ _ ↦ ⟨trivial, fun _ _ _ ↦ trivial⟩⟩, hrun, rfl, ?_⟩
    · have hnew : contents newHeap 0 = [] := rfl
      rw [Op.Sized, hnew, hlen]
      exact Nat.le_refl _
    · dsimp only
      rw [hlen]
      decide

/-- Three bytes, two of them to another buffer, a search and the last byte. -/
def shortRun : List (Op × Alloc) :=
  [(.add 0 (some [1, 2, 3]), ample), (.removeBuffer 0 1 2, ample),
    (.search 0 (some [3]) none, ample), (.remove 0 true 5, ample)]

theorem shortRun_sized : SizedRun newHeap shortRun := by
  have hfirst : (contents newHeap 0).length + [1, 2, 3].length ≤ maxTotal := by decide
  refine ⟨hfirst, ?_⟩
  intro out h' hstep
  rw [Op.step] at hstep
  obtain ⟨⟨out', b⟩, -, heq⟩ := Option.map_eq_some_iff.mp hstep
  obtain ⟨-, rfl⟩ := Prod.mk.inj heq
  have hother : contents (update newHeap 0 b) 1 = [] := rfl
  refine ⟨⟨by decide, ?_⟩, fun _ _ _ ↦ ⟨trivial, fun _ _ _ ↦ ⟨trivial, fun _ _ _ ↦ trivial⟩⟩⟩
  rw [hother, List.length_nil, Nat.zero_add]
  exact Nat.le_trans (Nat.min_le_left _ _) (by decide)

theorem evbuffer_is_byte_queue_short :
    ∃ outs h', run newHeap shortRun = some (outs, h') ∧ RunMeets newHeap shortRun outs h' := by
  obtain ⟨outs, h', hrun, hmeets, -, -⟩ := evbuffer_is_byte_queue shortRun_sized
  exact ⟨outs, h', hrun, hmeets⟩

end Steps

end Xfrpc.Event.ByteQueue
