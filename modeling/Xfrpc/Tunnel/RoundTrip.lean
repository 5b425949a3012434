import Xfrpc.Crypto.Compression
import Xfrpc.Tunnel.StartWork

namespace Xfrpc.Tunnel.RoundTrip

open Client Crypto.Cfb Crypto.Compression Service StartWork

/-- The client in a build with the library `L`. -/
def withLibrary (E : Env) (L : Library) : Env :=
  { E with compress := xfrpcCompress L, decompress := unpack L }

/-- The reader stands where the writer does: at the IV, or behind the same bytes. -/
structure InStep (w r : CryptoCtx) : Prop where
  key : r.key = w.key
  ivDone : r.ivDone = w.ivDone
  begun : w.ivDone = true → r.cfb = w.cfb
  fresh : w.ivDone = false → w.cfb = .init w.key w.iv ∧ w.iv.length = 16

/-- The contexts of `c` for writing and of `r` for reading match. -/
structure Matching (c r : ProxyClient) : Prop where
  useEncryption : r.useEncryption = c.useEncryption
  useCompression : r.useCompression = c.useCompression
  contexts : Option.Rel InStep c.encryptCtx r.decryptCtx

/-- Every chunk is encoded by `c` and decoded by `r`. Beside the plaintext stands
what the decoder leaves in its source. -/
def transfer (E : Env) : ProxyClient → ProxyClient → List Bytes → List (Bytes × Bytes)
  | _, _, [] => []
  | c, r, d :: chunks =>
    let (c', enc) := cryptoEncodeEvbuffer E c d
    let (r', plain, rest) := proxyCryptoDecodeEvbuffer E r enc
    (plain, rest) :: transfer E c' r' chunks

variable {E : Env} {L : Library}

/-- The bytes the encoder encrypts, and what the decoder makes of them. -/
def work (L : Library) (c : ProxyClient) (d : Bytes) : Bytes :=
  if c.useCompression then packed L d else d

def recovered (L : Library) (c : ProxyClient) (d : Bytes) : Bytes :=
  if c.useCompression then unpacked L (packed L d) else d

theorem encode_work {c : ProxyClient} {d : Bytes} :
    cryptoEncodeEvbuffer (withLibrary E L) c d =
      match c.useEncryption, c.encryptCtx with
      | true, some w =>
        ({ c with encryptCtx := some (cryptoEncrypt (withLibrary E L) w (work L c d)).1 },
          (cryptoEncrypt (withLibrary E L) w (work L c d)).2)
      | _, _ => (c, work L c d) := rfl

theorem recovered_work {c r : ProxyClient} (h : r.useCompression = c.useCompression) (d : Bytes) :
    (if r.useCompression then ((withLibrary E L).decompress (work L c d)).getD (work L c d)
      else work L c d) = recovered L c d := by
  rw [h, work, recovered]
  cases c.useCompression <;> rfl

theorem decode_plain {r : ProxyClient}
    (h : r.useEncryption = false ∨ r.decryptCtx = none) (z : Bytes) :
    proxyCryptoDecodeEvbuffer (withLibrary E L) r z =
      (r, if r.useCompression then unpacked L z else z, []) := by
  unfold proxyCryptoDecodeEvbuffer
  by_cases hz : z = []
  · subst hz
    rw [if_pos rfl, unpacked_nil, ite_self]
  · rw [if_neg hz]
    rcases h with h | h
    · simp only [h, cryptoDecode]
      rfl
    · cases hr : r.useEncryption <;> simp only [h, hr, cryptoDecode] <;> rfl

theorem decode_begun {r : ProxyClient} {v : CryptoCtx} (he : r.useEncryption = true)
    (hv : r.decryptCtx = some v) (hiv : v.ivDone = true) (z : Bytes) :
    proxyCryptoDecodeEvbuffer (withLibrary E L) r z =
      ({ r with decryptCtx := some { v with cfb := decryptCtx E.prims.aes v.cfb z } },
        if r.useCompression then unpacked L (decrypt E.prims.aes v.cfb z)
          else decrypt E.prims.aes v.cfb z, []) := by
  unfold proxyCryptoDecodeEvbuffer
  by_cases hz : z = []
  · subst hz
    rw [if_pos rfl, decryptCtx_nil, decrypt_nil, unpacked_nil, ite_self, ← hv]
  · rw [if_neg hz]
    simp only [he, hv, hiv, if_true, cryptoDecode]
    rfl

theorem decode_fresh {r : ProxyClient} {v : CryptoCtx} (he : r.useEncryption = true)
    (hv : r.decryptCtx = some v) (hiv : v.ivDone = false) {iv : Bytes} (hlen : iv.length = 16)
    (z : Bytes) :
    proxyCryptoDecodeEvbuffer (withLibrary E L) r (iv ++ z) =
      ({ r with
          decryptCtx := some
            { cryptoSetIv v iv with cfb := decryptCtx E.prims.aes (.init v.key iv) z } },
        if r.useCompression then unpacked L (decrypt E.prims.aes (.init v.key iv) z)
          else decrypt E.prims.aes (.init v.key iv) z, []) := by
  have hne : iv ++ z ≠ [] := by
    intro h
    have hl := congrArg List.length h
    rw [List.length_append, hlen] at hl
    simp at hl
  have htake : (iv ++ z).take 16 = iv := List.take_left' hlen
  have hdrop : (iv ++ z).drop 16 = z := List.drop_left' hlen
  have hlong : ¬ (iv ++ z).length < 16 := by
    rw [List.length_append, hlen]
    omega
  unfold proxyCryptoDecodeEvbuffer
  rw [if_neg hne]
  simp only [he, hv, hiv, Bool.false_eq_true, if_false, if_neg hlong, htake, hdrop]
  by_cases hz : z = []
  · subst hz
    rw [if_pos (by simp [hlen]), decryptCtx_nil, decrypt_nil, unpacked_nil, ite_self]
    rfl
  · have hpos := List.length_pos_iff.mpr hz
    rw [if_neg (by rw [List.length_append, hlen]; omega)]
    simp only [cryptoDecode]
    rfl

theorem decode_sealed {r : ProxyClient} {w v : CryptoCtx} (h : InStep w v)
    (he : r.useEncryption = true) (hv : r.decryptCtx = some v) (x : Bytes) :
    ∃ v', proxyCryptoDecodeEvbuffer (withLibrary E L) r (cryptoEncrypt (withLibrary E L) w x).2 =
        ({ r with decryptCtx := some v' }, if r.useCompression then unpacked L x else x, []) ∧
      InStep (cryptoEncrypt (withLibrary E L) w x).1 v' := by
  obtain ⟨hkey, hivd, hbegun, hfresh⟩ := h
  cases hiv : w.ivDone with
  | true =>
    have henc : (cryptoEncrypt (withLibrary E L) w x).2 = encrypt E.prims.aes w.cfb x := by
      simp [cryptoEncrypt, hiv, withLibrary]
    refine ⟨{ v with cfb := decryptCtx E.prims.aes w.cfb (encrypt E.prims.aes w.cfb x) }, ?_, ?_⟩
    · rw [henc, decode_begun he hv (hivd.trans hiv), hbegun hiv, decrypt_encrypt]
    · refine ⟨hkey, hivd.trans hiv, fun _ ↦ ?_, fun hno ↦ by cases hno⟩
      exact decryptCtx_encrypt w.cfb x
  | false =>
    obtain ⟨hcfb, hlen⟩ := hfresh hiv
    have henc : (cryptoEncrypt (withLibrary E L) w x).2 =
        w.iv ++ encrypt E.prims.aes (.init v.key w.iv) x := by
      simp [cryptoEncrypt, hiv, withLibrary, hcfb, hkey]
    refine ⟨{ cryptoSetIv v w.iv with
      cfb := decryptCtx E.prims.aes (.init v.key w.iv)
        (encrypt E.prims.aes (.init v.key w.iv) x) }, ?_, ?_⟩
    · rw [henc, decode_fresh he hv (hivd.trans hiv) hlen, decrypt_encrypt]
    · refine ⟨hkey, rfl, fun _ ↦ ?_, fun hno ↦ by cases hno⟩
      show decryptCtx E.prims.aes _ (encrypt E.prims.aes _ x) = encryptCtx E.prims.aes w.cfb x
      rw [decryptCtx_encrypt, hcfb, hkey]

theorem decode_unsealed {c r : ProxyClient} (h : Matching c r)
    (hc : c.useEncryption = false ∨ c.encryptCtx = none) (x : Bytes) :
    proxyCryptoDecodeEvbuffer (withLibrary E L) r x =
      (r, if r.useCompression then unpacked L x else x, []) := by
  apply decode_plain
  rcases hc with hc | hc
  · exact .inl (h.useEncryption.trans hc)
  · have hctx := h.contexts
    rw [hc] at hctx
    cases hr : r.decryptCtx with
    | none => exact .inr rfl
    | some v =>
      rw [hr] at hctx
      cases hctx

theorem transfer_step {c r : ProxyClient} (h : Matching c r) (d : Bytes) :
    ∃ c' r' enc, cryptoEncodeEvbuffer (withLibrary E L) c d = (c', enc) ∧
      proxyCryptoDecodeEvbuffer (withLibrary E L) r enc = (r', recovered L c d, []) ∧
      Matching c' r' ∧ c'.useCompression = c.useCompression := by
  have hrec : (if r.useCompression then unpacked L (work L c d) else work L c d) =
      recovered L c d := recovered_work (E := E) h.useCompression d
  rw [encode_work]
  cases he : c.useEncryption with
  | false =>
    exact ⟨c, r, work L c d, rfl, hrec ▸ decode_unsealed h (.inl he) _, h, rfl⟩
  | true =>
    cases hw : c.encryptCtx with
    | none => exact ⟨c, r, work L c d, rfl, hrec ▸ decode_unsealed h (.inr hw) _, h, rfl⟩
    | some w =>
      obtain ⟨v, hv, hs⟩ : ∃ v, r.decryptCtx = some v ∧ InStep w v := by
        have hctx := h.contexts
        rw [hw] at hctx
        cases hv : r.decryptCtx with
        | none =>
          rw [hv] at hctx
          cases hctx
        | some v =>
          rw [hv] at hctx
          cases hctx with
          | some hs => exact ⟨v, rfl, hs⟩
      obtain ⟨v', hdec, hs'⟩ :=
        decode_sealed (E := E) (L := L) hs (h.useEncryption.trans he) hv (work L c d)
      refine ⟨_, { r with decryptCtx := some v' }, _, rfl, hrec ▸ hdec, ?_, rfl⟩
      exact ⟨h.useEncryption.trans he, h.useCompression, .some hs'⟩

theorem transfer_eq {c r : ProxyClient} (h : Matching c r) (chunks : List Bytes) :
    transfer (withLibrary E L) c r chunks = chunks.map fun d ↦ (recovered L c d, []) := by
  induction chunks generalizing c r with
  | nil => rfl
  | cons d chunks ih =>
    obtain ⟨c', r', enc, henc, hdec, hm, huc⟩ := transfer_step (E := E) (L := L) h d
    have hsame : recovered L c' = recovered L c := by
      funext x
      rw [recovered, recovered, huc]
    simp only [transfer, henc, hdec]
    rw [ih hm, hsame, List.map_cons]

theorem recovered_iff (hL : L.Sound) (c : ProxyClient) {d : Bytes} (hd : d ≠ []) :
    recovered L c d = d ↔ (c.useCompression = true → survives L d = true) := by
  unfold recovered
  cases c.useCompression with
  | false => simp
  | true =>
    rw [if_pos rfl, unpacked_packed_iff hL hd]
    simp

/-- The decoder undoes the encoder on every chunk of a sequence if and only if the
proxy is not compressed, or no chunk is packed into less than a quarter of its
length. -/
theorem chunks_recovered_iff (E : Env) (hL : L.Sound) {c r : ProxyClient} (h : Matching c r)
    {chunks : List Bytes} (hne : ∀ d ∈ chunks, d ≠ []) :
    transfer (withLibrary E L) c r chunks = chunks.map (fun d ↦ (d, [])) ↔
      (c.useCompression = true → ∀ d ∈ chunks, survives L d = true) := by
  rw [transfer_eq h, List.map_inj_left]
  constructor
  · intro hall huc d hd
    have hrec := (Prod.mk.inj (hall d hd)).1
    exact (recovered_iff hL c (hne d hd)).mp hrec huc
  · intro hall d hd
    rw [(recovered_iff hL c (hne d hd)).mpr fun huc ↦ hall huc d hd]

/-- A client that compresses, and one that encrypts too, with the reader on the
other side. -/
def packer : ProxyClient := { ProxyClient.new with useCompression := true }

def sealer : ProxyClient :=
  { packer with
    useEncryption := true
    encryptCtx := some (cryptoCtxNewWriter (List.replicate 16 7) (List.replicate 16 3)) }

def opener : ProxyClient :=
  { packer with
    useEncryption := true, decryptCtx := some (cryptoCtxNewReader (List.replicate 16 7)) }

theorem sealer_matching : Matching sealer opener :=
  ⟨rfl, rfl, .some ⟨rfl, rfl, nofun, fun _ ↦ ⟨rfl, rfl⟩⟩⟩

theorem sampleLibrary_sound : Library.Sound (some sampleSnappy) := by
  rintro S ⟨⟩
  exact sampleSnappy_sound

theorem short_chunks_recovered :
    transfer (withLibrary (sampleEnv samplePs true) (some sampleSnappy)) sealer opener
      [[1, 2, 3], [4]] = [([1, 2, 3], []), ([4], [])] := by
  have hne : ∀ d ∈ [[1, 2, 3], [4]], d ≠ ([] : Bytes) := by simp
  refine (chunks_recovered_iff (sampleEnv samplePs true) sampleLibrary_sound sealer_matching
    hne).mpr fun _ d hd ↦ ?_
  simp only [List.mem_cons, List.not_mem_nil, or_false] at hd
  rcases hd with rfl | rfl <;> decide

/-- A run of zeros is handed on as snappy packed it. -/
theorem zeros_not_recovered :
    Library.Sound (some sampleSnappy) ∧ Matching packer packer ∧
      transfer (withLibrary (sampleEnv samplePs true) (some sampleSnappy)) packer packer [zeros] =
        [(packedZeros, [])] ∧ packedZeros ≠ zeros :=
  ⟨sampleLibrary_sound, ⟨rfl, rfl, .none⟩, by decide, by decide⟩

end Xfrpc.Tunnel.RoundTrip
