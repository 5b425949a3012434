import Xfrpc.Snappy.Compress
import Xfrpc.Snappy.Format

namespace Xfrpc.Snappy.Emission

open Foundations.BackReference Foundations.Block Foundations.LittleEndian
open Compress Format

/-- The bytes emitted so far. -/
def code (s : Sink) : Bytes := s.dest.take s.op

/-- `bytes` have been emitted. -/
structure Emitted (s s' : Sink) (bytes : Bytes) : Prop where
  op : s'.op = s.op + bytes.length
  code : code s' = code s ++ bytes
  room : s'.dest.length = s.dest.length

theorem Emitted.trans {s s' s'' : Sink} {bytes bytes' : Bytes} (h : Emitted s s' bytes)
    (h' : Emitted s' s'' bytes') : Emitted s s'' (bytes ++ bytes') := by
  refine ⟨?_, ?_, h'.room.trans h.room⟩
  · rw [h'.op, h.op, List.length_append, Nat.add_assoc]
  · rw [h'.code, h.code, List.append_assoc]

theorem put_spec (s : Sink) (bytes : Bytes) (h : s.op + bytes.length ≤ s.dest.length) :
    ∃ s', s.put bytes = some s' ∧ Emitted s s' bytes := by
  refine ⟨⟨store s.dest s.op bytes, s.op + bytes.length⟩, ?_, rfl, ?_, store_length h⟩
  · rw [Sink.put, store?_eq h, Option.map_some]
  · exact store_take (by omega)

/-- The bytes of a length are its digits, and no more than it has. -/
theorem lengthLoop_spec {fuel n : ℕ} (count : ℕ) (s : Sink) (hn : n < 256 ^ fuel)
    (hroom : s.op + fuel ≤ s.dest.length) :
    ∃ s' bytes, lengthLoop (fuel + 1) n count s = some (count + bytes.length, s') ∧
      Emitted s s' bytes ∧ ofLe bytes = n ∧ bytes.length ≤ fuel ∧
      ∀ k, n < 256 ^ k ↔ bytes.length ≤ k := by
  induction fuel generalizing n count s with
  | zero =>
    rw [Nat.pow_zero] at hn
    obtain rfl : n = 0 := by omega
    refine ⟨s, [], rfl, ⟨rfl, by rw [List.append_nil], rfl⟩, rfl, Nat.le_refl _, fun k ↦ ?_⟩
    exact ⟨fun _ ↦ Nat.zero_le k, fun _ ↦ Nat.pow_pos (by decide)⟩
  | succ fuel ih =>
    rw [lengthLoop]
    by_cases hpos : 0 < n
    · rw [if_pos hpos]
      have hbyte : (UInt8.ofNat (n &&& 0xff)).toNat = n % 256 := by
        rw [show n &&& 0xff = n % 256 from Nat.and_two_pow_sub_one_eq_mod n 8]
        exact UInt8.toNat_ofNat_of_lt (Nat.mod_lt n (by decide))
      obtain ⟨mid, hput, hmid⟩ :=
        put_spec s [.ofNat (n &&& 0xff)] (show s.op + 1 ≤ s.dest.length by omega)
      have hop : mid.op = s.op + 1 := hmid.op
      have hshift : n >>> 8 = n / 256 := Nat.shiftRight_eq_div_pow n 8
      obtain ⟨s', bytes, hloop, hemit, hval, hlen, hmin⟩ := ih (n := n / 256) (count + 1) mid
        (by rw [Nat.pow_succ] at hn; omega) (by rw [hop, hmid.room]; omega)
      refine ⟨s', .ofNat (n &&& 0xff) :: bytes, ?_, hmid.trans hemit, ?_, ?_, fun k ↦ ?_⟩
      · rw [hput, Option.bind_some, hshift, hloop, List.length_cons]
        congr 2
        omega
      · rw [ofLe, hbyte, hval]
        omega
      · rw [List.length_cons]
        omega
      · cases k with
        | zero =>
          rw [Nat.pow_zero, List.length_cons]
          omega
        | succ k =>
          have hk := hmin k
          rw [Nat.pow_succ, List.length_cons]
          omega
    · rw [if_neg hpos]
      obtain rfl : n = 0 := by omega
      refine ⟨s, [], rfl, ⟨rfl, by rw [List.append_nil], rfl⟩, rfl, Nat.zero_le _, fun k ↦ ?_⟩
      exact ⟨fun _ ↦ Nat.zero_le k, fun _ ↦ Nat.pow_pos (by decide)⟩

theorem toNat_ofNat_lt {n : ℕ} (h : n < 256) : (UInt8.ofNat n).toNat = n :=
  UInt8.toNat_ofNat_of_lt h

/-- A literal of at most sixty bytes. -/
theorem packs_short (lit : Bytes) (hpos : 0 < lit.length) (hlen : lit.length ≤ 60) (out : Bytes) :
    Packs out (.ofNat ((lit.length - 1) <<< 2) :: lit) (out ++ lit) := by
  refine .of_parse (t := .literal lit) (fun rest ↦ ?_) rfl
  have hshift : (lit.length - 1) <<< 2 = (lit.length - 1) * 4 := Nat.shiftLeft_eq _ _
  have hc := toNat_ofNat_lt (show (lit.length - 1) <<< 2 < 256 by omega)
  generalize UInt8.ofNat ((lit.length - 1) <<< 2) = c at hc
  have hzero := trailerLength_literal (c := c) (by omega)
  rw [List.cons_append, @parseTag_literal c (lit ++ rest) (by omega) (by omega) lit.length
    (by rw [literalLength, if_pos (by omega)]; omega), show trailerLength c = 0 by omega,
    List.drop_zero, if_neg (by rw [List.length_append]; omega), List.take_left, List.drop_left]

/-- A literal with its length behind the tag. -/
theorem packs_long (lit : Bytes) {len : Bytes} (hlit : 60 < lit.length) (hlt : lit.length < 2 ^ 32)
    (hval : ofLe len = lit.length - 1) (hone : 0 < len.length) (hfour : len.length ≤ 4)
    (out : Bytes) :
    Packs out (.ofNat ((59 + len.length) <<< 2) :: len ++ lit) (out ++ lit) := by
  refine .of_parse (t := .literal lit) (fun rest ↦ ?_) rfl
  have hshift : (59 + len.length) <<< 2 = (59 + len.length) * 4 := Nat.shiftLeft_eq _ _
  have hc := toNat_ofNat_lt (show (59 + len.length) <<< 2 < 256 by omega)
  generalize UInt8.ofNat ((59 + len.length) <<< 2) = c at hc
  have htrailer := trailerLength_literal (c := c) (by omega)
  rw [show c.toNat / 4 - 59 = len.length by omega] at htrailer
  have hlen : literalLength c (ofLe ((len ++ (lit ++ rest)).take (trailerLength c))) =
      lit.length := by
    rw [htrailer, List.take_left, literalLength, if_neg (by omega), hval]
    omega
  rw [List.cons_append, List.cons_append, List.append_assoc, parseTag_literal (by omega)
    (by rw [List.length_append]; omega) hlen, htrailer, List.drop_left,
    if_neg (by rw [List.length_append]; omega), List.take_left, List.drop_left]

/-- Two words copied from the input, of which `len` bytes count. -/
theorem twoWords_spec {input : Bytes} {literal len : ℕ} {s : Sink}
    (hin : literal + 16 ≤ input.length) (hlen : len ≤ 16) (hroom : s.op + 16 ≤ s.dest.length) :
    ∃ s', ((load? input literal 8).bind (store? s.dest s.op)).bind (fun dest ↦
        ((load? input (literal + 8) 8).bind (store? dest (s.op + 8))).map fun dest ↦
          Sink.mk dest (s.op + len)) = some s' ∧
      Emitted s s' ((input.drop literal).take len) := by
  have hone : ((input.drop literal).take 8).length = 8 := length_drop_take (by omega)
  have htwo : ((input.drop (literal + 8)).take 8).length = 8 := length_drop_take (by omega)
  have hbytes : ((input.drop literal).take len).length = len := length_drop_take (by omega)
  have hmid := @store_length _ s.dest ((input.drop literal).take 8) s.op (by omega)
  have hend := @store_length _ (store s.dest s.op ((input.drop literal).take 8))
    ((input.drop (literal + 8)).take 8) (s.op + 8) (by omega)
  refine ⟨_, by rw [load?_eq (by omega), Option.bind_some, store?_eq (by omega), Option.bind_some,
    load?_eq (by omega), Option.bind_some, store?_eq (by omega), Option.map_some], ?_, ?_, ?_⟩
  · rw [hbytes]
  · have hsixteen : (store (store s.dest s.op ((input.drop literal).take 8)) (s.op + 8)
        ((input.drop (literal + 8)).take 8)).take (s.op + 16) =
          s.dest.take s.op ++ (input.drop literal).take 16 := by
      have hfirst := @store_take _ s.dest ((input.drop literal).take 8) s.op (by omega)
      have hsecond := @store_take _ (store s.dest s.op ((input.drop literal).take 8))
        ((input.drop (literal + 8)).take 8) (s.op + 8) (by omega)
      rw [hone] at hfirst
      rw [htwo, hfirst, List.append_assoc] at hsecond
      rw [show s.op + 16 = s.op + 8 + 8 by omega, hsecond, show (16 : ℕ) = 8 + 8 from rfl,
        List.take_add, List.drop_drop]
    have hcut := congrArg (List.take (s.op + len)) hsixteen
    have hop : (s.dest.take s.op).length = s.op := List.length_take_of_le (by omega)
    rw [List.take_take, Nat.min_eq_left (by omega)] at hcut
    rw [code, code, hcut, List.take_append, hop, List.take_of_length_le (by omega),
      Nat.add_sub_cancel_left, List.take_take, Nat.min_eq_left hlen]
  · exact hend.trans hmid

/-- A length of more than sixty bytes goes behind the tag, which is put in its place after
it: one byte, or two for more than 256. -/
theorem longTag_spec {len : ℕ} (s : Sink) (hlong : 60 < len) (hlen : len ≤ 65536)
    (hroom : s.op + 5 ≤ s.dest.length) :
    ∃ mid t digits dest, s.put [0] = some mid ∧
      lengthLoop 5 (len - 1) 0 mid = some (digits.length, t) ∧
      store? t.dest s.op [.ofNat ((59 + digits.length) <<< 2)] = some dest ∧
      Emitted s ⟨dest, t.op⟩ (.ofNat ((59 + digits.length) <<< 2) :: digits) ∧
      ofLe digits = len - 1 ∧ 0 < digits.length ∧ digits.length ≤ 4 ∧
      digits.length ≤ 1 + len / 257 := by
  obtain ⟨mid, hput, hmid⟩ := put_spec s [0] (show s.op + 1 ≤ s.dest.length by omega)
  have hop : mid.op = s.op + 1 := hmid.op
  have hdest := hmid.room
  obtain ⟨t, digits, hloop, hdigits, hval, hfour, hmin⟩ :=
    lengthLoop_spec 0 mid (show len - 1 < 256 ^ 4 by omega) (by omega)
  rw [Nat.zero_add] at hloop
  have htop := hdigits.op
  have htdest := hdigits.room
  have hone : 0 < digits.length := by
    have hzero := hmin 0
    rw [Nat.pow_zero] at hzero
    omega
  have hsmall : digits.length ≤ 1 + len / 257 := by
    have hbyte := hmin 1
    have hword := hmin 2
    rw [Nat.pow_one] at hbyte
    omega
  have hcode : t.dest.take (s.op + (digits.length + 1)) = s.dest.take s.op ++ 0 :: digits := by
    have hall := (hmid.trans hdigits).code
    rw [code, htop, hop] at hall
    rw [show s.op + (digits.length + 1) = s.op + 1 + digits.length by omega]
    exact hall
  have hfit : s.op + 1 ≤ t.dest.length := by omega
  refine ⟨mid, t, digits, _, hput, hloop, store?_eq hfit, ⟨?_, ?_, ?_⟩, hval, hone, hfour, hsmall⟩
  · rw [List.length_cons]
    dsimp only
    omega
  · have hpre : (s.dest.take s.op).length = s.op := List.length_take_of_le (by omega)
    have htag := @store_take_inner _ t.dest (s.dest.take s.op) digits 0
      (.ofNat ((59 + digits.length) <<< 2)) (by rw [hpre]; exact hcode)
    rw [hpre] at htag
    rw [code, show t.op = s.op + (digits.length + 1) by omega]
    exact htag
  · exact (store_length hfit).trans (htdest.trans hdest)

/-- A literal is emitted with a tag of one byte, one more for more than sixty bytes and
another one for more than 256. -/
theorem emitLiteral_spec {input : Bytes} {literal len : ℕ} (s : Sink) (hpos : 0 < len)
    (hlen : len ≤ 65536) (hin : literal + len ≤ input.length) (fast : Bool)
    (hfast : fast = true → literal + 16 ≤ input.length)
    (hroom : s.op + len + 19 ≤ s.dest.length) :
    ∃ s' bytes, emitLiteral input literal len fast s = some s' ∧ Emitted s s' bytes ∧
      (∀ out, Packs out bytes (out ++ (input.drop literal).take len)) ∧
      bytes.length ≤ len + 1 + len / 61 := by
  have hlit : ((input.drop literal).take len).length = len := length_drop_take hin
  rw [emitLiteral, if_neg (by omega)]
  by_cases hshort : len - 1 < 60
  · rw [if_pos hshort]
    obtain ⟨mid, hput, hmid⟩ := put_spec s [.ofNat ((len - 1) <<< 2)]
      (show s.op + 1 ≤ s.dest.length by omega)
    have hop : mid.op = s.op + 1 := hmid.op
    have hdest := hmid.room
    rw [hput, Option.bind_some]
    have hpacks := packs_short ((input.drop literal).take len) (by omega) (by omega)
    rw [hlit] at hpacks
    have hbytes : (UInt8.ofNat ((len - 1) <<< 2) :: (input.drop literal).take len).length ≤
        len + 1 + len / 61 := by
      rw [List.length_cons, hlit]
      omega
    by_cases htwo : fast = true ∧ len ≤ 16
    · obtain ⟨s', hcopy, hemit⟩ := twoWords_spec (s := mid) (hfast htwo.1) htwo.2 (by omega)
      rw [if_pos htwo]
      exact ⟨s', _, hcopy, hmid.trans hemit, hpacks, hbytes⟩
    · obtain ⟨s', hput', hemit⟩ := put_spec mid ((input.drop literal).take len) (by omega)
      rw [if_neg htwo, load?_eq hin, Option.bind_some]
      exact ⟨s', _, hput', hmid.trans hemit, hpacks, hbytes⟩
  · rw [if_neg hshort]
    obtain ⟨mid, t, digits, dest, hput, hloop, htag, hmark, hval, hone, hfour, hsmall⟩ :=
      longTag_spec s (show 60 < len by omega) hlen (by omega)
    have hop : t.op = s.op + (digits.length + 1) := hmark.op
    have hdest : dest.length = s.dest.length := hmark.room
    obtain ⟨s', hput', hemit⟩ := put_spec ⟨dest, t.op⟩ ((input.drop literal).take len)
      (by dsimp only; omega)
    have hpacks := packs_long ((input.drop literal).take len) (by omega) (by omega)
      (show ofLe digits = _ by rw [hlit]; exact hval) hone hfour
    refine ⟨s', _, ?_, hmark.trans hemit, hpacks, ?_⟩
    · rw [hput, Option.bind_some, hloop, Option.bind_some]
      dsimp only
      rw [if_neg (by omega), htag, Option.bind_some, load?_eq hin, Option.bind_some, hput']
    · rw [List.cons_append, List.length_cons, List.length_append, hlit]
      omega

/-- A copy of at most 64 bytes takes two or three. -/
theorem emitCopyLessThan64_spec {offset len : ℕ} (s : Sink) (hpos : 0 < offset)
    (hoff : offset < 65536) (hfour : 4 ≤ len) (hlen : len ≤ 64)
    (hroom : s.op + 3 ≤ s.dest.length) :
    ∃ s' bytes, emitCopyLessThan64 offset len s = some s' ∧ Emitted s s' bytes ∧
      bytes.length ≤ 3 ∧
      ∀ out, offset ≤ out.length → Packs out bytes (selfCopy offset len out) := by
  rw [emitCopyLessThan64, if_neg (by omega)]
  by_cases hnear : len < 12 ∧ offset < 2048
  · rw [if_pos hnear]
    have htag : 1 + (len - 4) <<< 2 + (offset >>> 8) <<< 5 =
        1 + (len - 4) * 4 + offset / 256 * 32 := by
      rw [Nat.shiftLeft_eq, Nat.shiftLeft_eq, Nat.shiftRight_eq_div_pow]
    have hlow : offset &&& 0xff = offset % 256 := Nat.and_two_pow_sub_one_eq_mod offset 8
    rw [htag, hlow]
    obtain ⟨s', hput, hemit⟩ := put_spec s
      [.ofNat (1 + (len - 4) * 4 + offset / 256 * 32), .ofNat (offset % 256)]
      (show s.op + 2 ≤ s.dest.length by omega)
    refine ⟨s', _, hput, hemit, Nat.le_succ 2, fun out hout ↦ ?_⟩
    have hc := toNat_ofNat_lt (show 1 + (len - 4) * 4 + offset / 256 * 32 < 256 by omega)
    have hb := toNat_ofNat_lt (show offset % 256 < 256 by omega)
    generalize UInt8.ofNat (1 + (len - 4) * 4 + offset / 256 * 32) = c at hc
    generalize UInt8.ofNat (offset % 256) = b at hb
    refine .of_parse (t := .copy offset len) (fun rest ↦ ?_) (if_pos ⟨hpos, hout⟩)
    have hone : c.toNat % 4 = 1 := by omega
    rw [List.cons_append, parseTag_copy (by omega), trailerLength_nearCopy hone]
    · have htrailer : ofLe (([b] ++ rest).take 1) = offset % 256 := by
        rw [List.singleton_append, List.take_succ_cons, List.take_zero, ofLe, ofLe, hb]
        omega
      rw [htrailer, copyOffset, if_pos hone, copyLength, if_pos hone]
      congr 3
      · omega
      · omega
    · rw [trailerLength_nearCopy hone]
      simp
  · rw [if_neg hnear]
    have htag : 2 + (len - 1) <<< 2 = 2 + (len - 1) * 4 := by rw [Nat.shiftLeft_eq]
    rw [htag]
    obtain ⟨s', hput, hemit⟩ := put_spec s (.ofNat (2 + (len - 1) * 4) :: toLe 2 offset)
      (by rw [List.length_cons, toLe_length]; exact hroom)
    refine ⟨s', _, hput, hemit, by rw [List.length_cons, toLe_length], fun out hout ↦ ?_⟩
    have hc := toNat_ofNat_lt (show 2 + (len - 1) * 4 < 256 by omega)
    generalize UInt8.ofNat (2 + (len - 1) * 4) = c at hc
    refine .of_parse (t := .copy offset len) (fun rest ↦ ?_) (if_pos ⟨hpos, hout⟩)
    have htwo : c.toNat % 4 = 2 := by omega
    rw [List.cons_append, parseTag_copy (by omega), trailerLength_farCopy htwo]
    · rw [List.take_left' (toLe_length 2 offset), List.drop_left' (toLe_length 2 offset),
        ofLe_toLe hoff, copyOffset, if_neg (by omega), copyLength, if_neg (by omega)]
      congr 3
      omega
    · rw [trailerLength_farCopy htwo, List.length_append, toLe_length]
      omega

theorem copyLoop_spec {fuel offset len : ℕ} {s : Sink} (hpos : 0 < offset) (hoff : offset < 65536)
    (hfour : 4 ≤ len) (hfuel : len ≤ fuel) (hroom : s.op + len ≤ s.dest.length) :
    ∃ s' bytes left, Compress.copyLoop (fuel + 1) offset len s = some (left, s') ∧
      Emitted s s' bytes ∧ 4 ≤ left ∧ left < 68 ∧ bytes.length + left ≤ len ∧
      ∃ done, done + left = len ∧
        ∀ out, offset ≤ out.length → Packs out bytes (selfCopy offset done out) := by
  induction fuel generalizing len s with
  | zero => omega
  | succ fuel ih =>
    rw [Compress.copyLoop]
    by_cases hlong : 68 ≤ len
    · obtain ⟨mid, bytes, hcopy, hmid, hthree, hpacks⟩ :=
        emitCopyLessThan64_spec s hpos hoff (show 4 ≤ 64 by decide) (Nat.le_refl 64) (by omega)
      have hop := hmid.op
      obtain ⟨s', bytes', left, hloop, hemit, hleft, hless, hsum, done, hdone, hpacks'⟩ :=
        ih (show 4 ≤ len - 64 by omega) (by omega)
          (show mid.op + (len - 64) ≤ mid.dest.length by rw [hmid.room]; omega)
      refine ⟨s', bytes ++ bytes', left, ?_, hmid.trans hemit, hleft, hless, ?_, 64 + done, by omega,
        fun out hout ↦ ?_⟩
      · rw [if_pos hlong, hcopy, Option.bind_some, hloop]
      · rw [List.length_append]
        omega
      · rw [selfCopy_add]
        exact (hpacks out hout).trans (hpacks' _ (by rw [selfCopy_length hpos _ hout]; omega))
    · rw [if_neg hlong]
      exact ⟨s, [], len, rfl, ⟨rfl, by rw [List.append_nil], rfl⟩, hfour, by omega, by simp, 0,
        by omega, fun out _ ↦ .refl out⟩

/-- A copy of any length takes fewer bytes than it stands for. -/
theorem emitCopy_spec {offset len : ℕ} {s : Sink} (hpos : 0 < offset) (hoff : offset < 65536)
    (hfour : 4 ≤ len) (hroom : s.op + len ≤ s.dest.length) :
    ∃ s' bytes, emitCopy offset len s = some s' ∧ Emitted s s' bytes ∧ bytes.length < len ∧
      ∀ out, offset ≤ out.length → Packs out bytes (selfCopy offset len out) := by
  obtain ⟨mid, bytes, left, hloop, hmid, hleft, hless, hsum, done, hdone, hpacks⟩ :=
    copyLoop_spec hpos hoff hfour (Nat.le_refl len) hroom
  have hop := hmid.op
  have hdest := hmid.room
  have hrest : ∀ {out : Bytes} {n : ℕ}, offset ≤ out.length → offset ≤ (selfCopy offset n out).length := by
    intro out n hout
    rw [selfCopy_length hpos _ hout]
    omega
  rw [emitCopy, hloop, Option.bind_some]
  dsimp only
  by_cases hmore : 64 < left
  · obtain ⟨mid', bytes', hcopy, hmid', hthree, hpacks'⟩ :=
      emitCopyLessThan64_spec mid hpos hoff (show 4 ≤ 60 by decide) (by decide) (by omega)
    have hop' := hmid'.op
    obtain ⟨s', bytes'', hlast, hemit, hthree', hpacks''⟩ :=
      emitCopyLessThan64_spec mid' hpos hoff (show 4 ≤ left - 60 by omega) (by omega)
        (by rw [hmid'.room]; omega)
    refine ⟨s', bytes ++ bytes' ++ bytes'', ?_, (hmid.trans hmid').trans hemit, ?_, fun out hout ↦ ?_⟩
    · rw [if_pos hmore, hcopy, Option.bind_some, hlast]
    · rw [List.length_append, List.length_append]
      omega
    · rw [show len = done + 60 + (left - 60) by omega, selfCopy_add, selfCopy_add]
      exact ((hpacks out hout).trans (hpacks' _ (hrest hout))).trans (hpacks'' _ (hrest (hrest hout)))
  · obtain ⟨s', bytes', hlast, hemit, hthree, hpacks'⟩ :=
      emitCopyLessThan64_spec mid hpos hoff hleft (by omega) (by omega)
    refine ⟨s', bytes ++ bytes', ?_, hmid.trans hemit, ?_, fun out hout ↦ ?_⟩
    · rw [if_neg hmore, hlast]
    · rw [List.length_append]
      omega
    · rw [← hdone, selfCopy_add]
      exact (hpacks out hout).trans (hpacks' _ (hrest hout))

end Xfrpc.Snappy.Emission
