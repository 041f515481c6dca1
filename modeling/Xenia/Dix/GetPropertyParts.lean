import Xenia.Dix.GetProperty

/-!
# The part of a property that is read

* `get_cases`: what `ProcGetProperty` does with a request that everything else lets through.
* `get_property_parts`: offset and length are shifted in 32 bits, so the part is the one asked
  for exactly where nothing is lost by that; reading in chunks gives the value exactly where the
  length of a chunk does not come out as zero, and the value has fewer than `2 ^ 32` bytes.
-/

namespace Xenia.Dix

open Xenia.Lib List

/-! ### What is asked for -/

/-- A request that only the property itself decides. -/
structure Answered (e : GetEnv) (a : Grants) (r : GetPropertyReq) : Prop where
  atom : e.validAtom r.property = true
  delete : r.delete = 0 ∨ r.delete = 1
  type : r.type = AnyPropertyType ∨ e.validAtom r.type = true
  filter : ∀ p, e.filter p = .ok p
  window : e.lookupWindow = .ok ()
  access : e.access = Success
  granted : a 0 ≠ none

namespace GetPropertyReq

/-- The offset and the length in bytes. -/
def offset (r : GetPropertyReq) : ℕ := 4 * r.longOffset.toNat

def length (r : GetPropertyReq) : ℕ := 4 * r.longLength.toNat

end GetPropertyReq

/-- The answer to a request for a part of this property: `BadValue` for a part that starts
behind its end, otherwise the bytes and how many come after them. -/
def PartRight (swapped : Bool) (r : GetPropertyReq) (p : PropertyRec) (data : List Byte)
    (result : Option (PropState × Status × Option GetPropertyReply)) : Prop :=
  if p.bytes < r.offset then ∃ s, result = some (s, BadValue, none)
  else
    let L := min (p.bytes - r.offset) r.length
    ∃ s reply, result = some (s, Success, some reply) ∧ reply.bytesAfter = p.bytes - r.offset - L ∧
      reply.payload = wireUnits swapped (p.format / 8) ((data.drop r.offset).take L)

/-- A client that reads a property in chunks of `c` longs, each from where the last one ended,
until nothing is left. -/
def readChunks (e : GetEnv) (a : Grants) (swapped : Bool) (r : GetPropertyReq) (c : CARD32) :
    ℕ → PropState → CARD32 → List Byte → Option (List Byte)
  | 0, _, _, _ => none
  | fuel + 1, s, off, got =>
    match procGetProperty e a swapped { r with longOffset := off, longLength := c } s with
    | some (s, _, some reply) =>
      let got := got ++ reply.payload
      if reply.bytesAfter = 0 then some got
      else readChunks e a swapped r c fuel s (off + BitVec.ofNat 32 (reply.payload.length / 4)) got
    | _ => none

/-! ### One request -/

section Request

variable {e : GetEnv} {a : Grants} {swapped : Bool} {r : GetPropertyReq} {s : PropState} {p : PropertyRec}

theorem checkGet_param (ha : Answered e a r) : checkGet e r = .ok r.param := by
  have hdelete : ¬(r.delete ≠ 1 ∧ r.delete ≠ 0) := by
    have := ha.delete
    omega
  have htype : ¬(r.type ≠ AnyPropertyType ∧ (!e.validAtom r.type) = true) := by
    rintro ⟨hne, hv⟩
    rcases ha.type with h | h
    · exact hne h
    · rw [h] at hv
      exact Bool.false_ne_true hv
  unfold checkGet
  rw [ha.atom, if_neg (by simp), if_neg hdelete, if_neg htype, ha.filter]
  rw [ha.window]

theorem ind_eq (r : GetPropertyReq) : r.param.ind = r.offset % 2 ^ 32 := r.param.ind_eq

theorem len_eq (r : GetPropertyReq) (n : ℕ) : r.param.len n = min (n - r.offset % 2 ^ 32) (r.length % 2 ^ 32) := by
  rw [GetParam.len_eq, ind_eq]
  rfl

/-- **A request for a part**: `BadValue`, or the bytes between the offset and the length as the
request has worked them out. -/
theorem get_cases (swapped : Bool) (h : Stocked s) (ha : Answered e a r) (hl : s.lookup r.property = some p)
    (htype : r.type = p.type ∨ r.type = AnyPropertyType) :
    (p.numBytes < r.param.ind ∧ ∃ s', procGetProperty e a swapped r s = some (s', BadValue, none)) ∨
      (r.param.ind ≤ p.numBytes ∧ ∃ s' reply, procGetProperty e a swapped r s = some (s', Success, some reply) ∧
        reply.bytesAfter = p.numBytes - r.param.ind - r.param.len p.numBytes ∧
        reply.payload = wireUnits swapped (p.format / 8)
          (((s.heap.load p.data).drop r.param.ind).take (r.param.len p.numBytes)) ∧
        (reply.bytesAfter ≠ 0 → s' = { s with errorValue := r.property })) := by
  have hmatch : ¬(r.type ≠ p.type ∧ r.type ≠ AnyPropertyType) := fun ⟨h1, h2⟩ => htype.elim h1 h2
  have hread : procGetProperty e a swapped r s =
      readProperty a swapped r.param p { s with errorValue := r.property } := by
    unfold procGetProperty
    rw [checkGet_param ha]
    exact getProperty_found hl (ha.access ▸ rfl) hmatch
  have h' : Stocked { s with errorValue := r.property } := ⟨h.ok, h.format⟩
  rw [hread]
  rcases readProperty_cases a swapped h' (mem_of_find?_eq_some hl) r.param with
    ⟨hlt, hr⟩ | ⟨hle, ⟨hnone, -, -⟩ | ⟨-, s', reply, hr, hafter, hpay, hstate⟩⟩
  · exact .inl ⟨hlt, _, hr⟩
  · exact absurd hnone ha.granted
  · refine .inr ⟨hle, s', reply, hr, hafter, hpay, fun hne => ?_⟩
    rw [if_neg (fun hlast => hne (hafter.trans hlast.2))] at hstate
    exact hstate

/-- Where the part of a request is right: a part behind the end starts behind it in 32 bits
too; otherwise the end and the offset lose the same multiple of `2 ^ 32` (and the bytes do not show
it), and a length of `2 ^ 32` bytes and more still reaches to the end. -/
def PartFits (r : GetPropertyReq) (p : PropertyRec) (data : List Byte) : Prop :=
  if p.bytes < r.offset then p.bytes % 2 ^ 32 < r.offset % 2 ^ 32
  else
    p.bytes / 2 ^ 32 = r.offset / 2 ^ 32 ∧ (r.length < 2 ^ 32 ∨ p.bytes - r.offset ≤ r.length % 2 ^ 32) ∧
      (data.drop r.offset).take (min (p.bytes - r.offset) r.length) =
        (data.drop (r.offset % 2 ^ 32)).take (min (p.bytes - r.offset) r.length)

/-- The order of the bytes loses nothing. -/
theorem wireUnits_inj {w : ℕ} (hw : 0 < w) {xs ys : List Byte} (hlen : xs.length = ys.length) (hdvd : w ∣ xs.length)
    (h : wireUnits swapped w xs = wireUnits swapped w ys) : xs = ys := by
  obtain ⟨n, hn⟩ := hdvd
  induction n generalizing xs ys with
  | zero =>
    rw [eq_nil_of_length_eq_zero hn, eq_nil_of_length_eq_zero (hlen.symm.trans hn)]
  | succ n ih =>
    rw [Nat.mul_succ] at hn
    have hone : ∀ u : List Byte, u.length = w → wireUnits swapped w u = wireOrder swapped u := by
      intro u hu
      unfold wireUnits
      rw [hu, Nat.div_self hw]
      simp [take_of_length_le hu.le]
    have hxs : (xs.take w).length = w := by rw [length_take]; omega
    have hys : (ys.take w).length = w := by rw [length_take]; omega
    rw [← take_append_drop w xs, ← take_append_drop w ys, wireUnits_append swapped hw (by rw [hxs]),
      wireUnits_append swapped hw (by rw [hys]), hone _ hxs, hone _ hys] at h
    obtain ⟨hfirst, hrest⟩ := append_inj h (by rw [length_wireOrder, length_wireOrder, hxs, hys])
    have htake : xs.take w = ys.take w := by
      unfold wireOrder at hfirst
      split at hfirst
      · exact reverse_injective hfirst
      · exact hfirst
    have hdrop : xs.drop w = ys.drop w :=
      ih (by rw [length_drop, length_drop, hlen]) hrest (by rw [length_drop]; omega)
    rw [← take_append_drop w xs, ← take_append_drop w ys, htake, hdrop]

theorem part_right_iff (swapped : Bool) (h : Stocked s) (ha : Answered e a r) (hl : s.lookup r.property = some p)
    (htype : r.type = p.type ∨ r.type = AnyPropertyType) :
    PartRight swapped r p (s.heap.load p.data) (procGetProperty e a swapped r s) ↔
      PartFits r p (s.heap.load p.data) := by
  have hp := mem_of_find?_eq_some hl
  have hdata : (s.heap.load p.data).length = p.bytes := h.ok.length p hp
  have hunit := h.format p hp
  have hdvd := unit_dvd_len hunit r.param
  have hw : 0 < p.format / 8 := by omega
  have hdvd' : p.format / 8 ∣ min (p.bytes - r.offset) r.length := by
    have hshift : p.format >>> 3 = p.format / 8 := Nat.shiftRight_eq_div_pow ..
    have hunits : p.format / 8 = 1 ∨ p.format / 8 = 2 ∨ p.format / 8 = 4 := by omega
    unfold PropertyRec.bytes GetPropertyReq.offset GetPropertyReq.length
    rw [hshift]
    rcases hunits with hu | hu | hu <;> rw [hu] <;> omega
  have hcases := get_cases swapped h ha hl htype
  rw [p.numBytes_eq, len_eq, ind_eq] at hcases
  rw [p.numBytes_eq, len_eq] at hdvd
  unfold PartRight PartFits
  generalize s.heap.load p.data = data at hcases hdata ⊢
  generalize p.bytes = N at *
  generalize r.offset = o at *
  generalize r.length = l at *
  by_cases hlt : N < o
  · rw [if_pos hlt, if_pos hlt]
    rcases hcases with ⟨hbehind, s', hr⟩ | ⟨hle, s', reply, hr, -⟩
    · exact iff_of_true ⟨s', hr⟩ hbehind
    · rw [hr]
      exact iff_of_false (by simp) (by omega)
  · rw [if_neg hlt, if_neg hlt]
    rcases hcases with ⟨hbehind, s', hr⟩ | ⟨hle, s', reply, hr, hafter, hpay, -⟩
    · rw [hr]
      exact iff_of_false (by simp) (fun hfit => by omega)
    · rw [hr]
      constructor
      · rintro ⟨s'', reply', hsome, hafter', hpay'⟩
        cases hsome
        rw [hpay] at hpay'
        have hL : ((data.drop o).take (min (N - o) l)).length = min (N - o) l := by
          rw [length_take, length_drop]
          omega
        have hL' : ((data.drop (o % 2 ^ 32)).take (min (N % 2 ^ 32 - o % 2 ^ 32) (l % 2 ^ 32))).length =
            min (N % 2 ^ 32 - o % 2 ^ 32) (l % 2 ^ 32) := by
          rw [length_take, length_drop]
          omega
        have hlen := congrArg length hpay'
        rw [length_wireUnits swapped hw (by rw [hL']; exact hdvd), length_wireUnits swapped hw (by rw [hL]; exact hdvd'),
          hL, hL'] at hlen
        refine ⟨by omega, by omega, ?_⟩
        have hsame := wireUnits_inj hw (by rw [hL, hL', hlen]) (by rw [hL']; exact hdvd) hpay'
        rw [← hsame, hlen]
      · rintro ⟨hdiv, hlen, hbytes⟩
        have h1 : N % 2 ^ 32 - o % 2 ^ 32 = N - o := by omega
        have h2 : min (N % 2 ^ 32 - o % 2 ^ 32) (l % 2 ^ 32) = min (N - o) l := by
          rw [h1]
          rcases hlen with hlen | hlen
          · rw [Nat.mod_eq_of_lt hlen]
          · have := Nat.mod_le l (2 ^ 32)
            omega
        refine ⟨s', reply, rfl, ?_, ?_⟩
        · rw [hafter, h2, h1]
        · rw [hpay, h2, hbytes]

end Request

/-! ### Chunks -/

section Chunks

variable {e : GetEnv} {a : Grants} {r : GetPropertyReq} {s : PropState} {p : PropertyRec}

/-- The bytes of a chunk, as a request works them out. -/
def chunkBytes (c : CARD32) : ℕ := 4 * c.toNat % 2 ^ 32

/-- **One chunk**, from an offset inside the property: the last one, or as many bytes as a chunk
has. -/
theorem readChunks_succ (swapped : Bool) (h : Stocked s) (ha : Answered e a r) (hl : s.lookup r.property = some p)
    (htype : r.type = p.type ∨ r.type = AnyPropertyType) (c : CARD32) {off : CARD32} (hoff : 4 * off.toNat ≤ p.numBytes)
    (fuel : ℕ) (got : List Byte) :
    let rest := (s.heap.load p.data).drop (4 * off.toNat)
    readChunks e a swapped r c (fuel + 1) s off got =
      if p.numBytes - 4 * off.toNat ≤ chunkBytes c then
        some (got ++ wireUnits swapped (p.format / 8) (rest.take (p.numBytes - 4 * off.toNat)))
      else readChunks e a swapped r c fuel { s with errorValue := r.property } (off + BitVec.ofNat 32 (chunkBytes c / 4))
        (got ++ wireUnits swapped (p.format / 8) (rest.take (chunkBytes c))) := by
  have hn : p.numBytes < 2 ^ 32 := by
    exact Nat.mod_lt _ (by decide)
  have ha' : Answered e a { r with longOffset := off, longLength := c } :=
    ⟨ha.atom, ha.delete, ha.type, ha.filter, ha.window, ha.access, ha.granted⟩
  have hind : ({ r with longOffset := off, longLength := c } : GetPropertyReq).param.ind = 4 * off.toNat := by
    rw [ind_eq]
    exact Nat.mod_eq_of_lt (lt_of_le_of_lt hoff hn)
  have hlen : ({ r with longOffset := off, longLength := c } : GetPropertyReq).param.len p.numBytes =
      min (p.numBytes - 4 * off.toNat) (chunkBytes c) := by
    rw [GetParam.len_eq, hind]
    rfl
  have hunit := unit_dvd_len (h.format p (mem_of_find?_eq_some hl)) ({ r with longOffset := off, longLength := c } : GetPropertyReq).param
  have hcases := get_cases swapped h ha' hl htype
  rw [hind, hlen] at hcases
  rw [hlen] at hunit
  rcases hcases with ⟨hlt, -⟩ | ⟨-, s', reply, hr, hafter, hpay, hstate⟩
  · omega
  · rw [readChunks, hr]
    dsimp only
    by_cases hlast : p.numBytes - 4 * off.toNat ≤ chunkBytes c
    · rw [min_eq_left hlast] at hafter hpay
      rw [if_pos hlast, if_pos (by omega), hpay]
    · have hmin : min (p.numBytes - 4 * off.toNat) (chunkBytes c) = chunkBytes c := Nat.min_eq_right (by omega)
      rw [hmin] at hafter hpay hunit
      rw [if_neg hlast, if_neg (by omega), hstate (by omega), hpay]
      have hbytes : ((s.heap.load p.data).drop (4 * off.toNat) |>.take (chunkBytes c)).length = chunkBytes c := by
        have hdata := h.ok.length p (mem_of_find?_eq_some hl)
        have hle : p.numBytes ≤ p.size * (p.format >>> 3) := by
          rw [p.numBytes_eq]
          exact Nat.mod_le _ _
        rw [length_take, length_drop]
        omega
      have hformat := h.format p (mem_of_find?_eq_some hl)
      rw [length_wireUnits swapped (by omega) (by rw [hbytes]; exact hunit), hbytes]

theorem chunkBytes_mod (c : CARD32) : chunkBytes c % 4 = 0 := by
  unfold chunkBytes
  omega

/-- Where the next chunk starts. -/
theorem next_offset (off c : CARD32) (h : 4 * off.toNat + chunkBytes c < 2 ^ 32) :
    4 * (off + BitVec.ofNat 32 (chunkBytes c / 4)).toNat = 4 * off.toNat + chunkBytes c := by
  have hmod := chunkBytes_mod c
  rw [BitVec.toNat_add, BitVec.toNat_ofNat]
  omega

/-- Chunks that get on come to the end. -/
theorem readChunks_all (swapped : Bool) (ha : Answered e a r) (htype : r.type = p.type ∨ r.type = AnyPropertyType)
    {c : CARD32} (hsmall : p.bytes < 2 ^ 32) (hc : p.bytes = 0 ∨ chunkBytes c ≠ 0) {data : List Byte} :
    ∀ (fuel : ℕ) (s : PropState) (off : CARD32), Stocked s → s.lookup r.property = some p →
      s.heap.load p.data = data → 4 * off.toNat ≤ p.bytes → p.bytes - 4 * off.toNat < fuel →
      readChunks e a swapped r c fuel s off (wireUnits swapped (p.format / 8) (data.take (4 * off.toNat))) =
        some (wireUnits swapped (p.format / 8) data) := by
  have hn : p.numBytes = p.bytes := by
    rw [p.numBytes_eq]
    exact Nat.mod_eq_of_lt hsmall
  intro fuel
  induction fuel with
  | zero =>
    omega
  | succ fuel ih =>
    intro s off h hl hd hoff hf
    have hp := mem_of_find?_eq_some hl
    have hformat := h.format p hp
    have hdata : data.length = p.bytes := hd ▸ h.ok.length p hp
    have hpre : p.format / 8 ∣ (data.take (4 * off.toNat)).length := by
      have hunits : p.format / 8 = 1 ∨ p.format / 8 = 2 ∨ p.format / 8 = 4 := by omega
      rw [length_take]
      rcases hunits with hu | hu | hu <;> rw [hu] <;> omega
    rw [readChunks_succ swapped h ha hl htype c (by omega), hn, hd]
    by_cases hlast : p.bytes - 4 * off.toNat ≤ chunkBytes c
    · have htail : (data.drop (4 * off.toNat)).take (p.bytes - 4 * off.toNat) = data.drop (4 * off.toNat) :=
        take_of_length_le (by rw [length_drop]; omega)
      rw [if_pos hlast, ← wireUnits_append swapped (by omega) hpre, htail, take_append_drop]
    · have hnext := next_offset off c (by omega)
      rw [if_neg hlast, ← wireUnits_append swapped (by omega) hpre, ← take_add, ← hnext]
      exact ih { s with errorValue := r.property } _ ⟨h.ok, h.format⟩ hl hd (by omega) (by omega)

/-- What a client that comes to the end has read: as many bytes as the request counts; with
chunks that do not get on it was there already. -/
theorem readChunks_length (swapped : Bool) (ha : Answered e a r) (htype : r.type = p.type ∨ r.type = AnyPropertyType)
    {c : CARD32} {res : List Byte} :
    ∀ (fuel : ℕ) (s : PropState) (off : CARD32) (got : List Byte), Stocked s → s.lookup r.property = some p →
      4 * off.toNat ≤ p.numBytes → got.length = 4 * off.toNat →
      readChunks e a swapped r c fuel s off got = some res →
      res.length = p.numBytes ∧ (chunkBytes c = 0 → p.numBytes = 4 * off.toNat) := by
  have hn : p.numBytes < 2 ^ 32 := by
    exact Nat.mod_lt _ (by decide)
  intro fuel
  induction fuel with
  | zero =>
    intro s off got _ _ _ _ hres
    exact absurd hres (by simp [readChunks])
  | succ fuel ih =>
    intro s off got h hl hoff hgot hres
    have hp := mem_of_find?_eq_some hl
    have hformat := h.format p hp
    have hle : p.numBytes ≤ (s.heap.load p.data).length := by
      rw [p.numBytes_eq, h.ok.length p hp]
      exact Nat.mod_le _ _
    -- the length of a piece of the value
    have hpiece : ∀ k, k ≤ p.numBytes - 4 * off.toNat → p.format / 8 ∣ k →
        (wireUnits swapped (p.format / 8) (((s.heap.load p.data).drop (4 * off.toNat)).take k)).length = k := by
      intro k hk hdvd
      have hlen : (((s.heap.load p.data).drop (4 * off.toNat)).take k).length = k := by
        rw [length_take, length_drop]
        omega
      rw [length_wireUnits swapped (by omega) (by rw [hlen]; exact hdvd), hlen]
    have hunits : p.format / 8 = 1 ∨ p.format / 8 = 2 ∨ p.format / 8 = 4 := by omega
    rw [readChunks_succ swapped h ha hl htype c hoff] at hres
    by_cases hlast : p.numBytes - 4 * off.toNat ≤ chunkBytes c
    · rw [if_pos hlast, Option.some.injEq] at hres
      have hdvd : p.format / 8 ∣ p.numBytes - 4 * off.toNat := by
        have hshift : p.format >>> 3 = p.format / 8 := Nat.shiftRight_eq_div_pow ..
        rw [p.numBytes_eq]
        unfold PropertyRec.bytes
        rw [hshift]
        rcases hunits with hu | hu | hu <;> rw [hu] <;> omega
      rw [← hres, length_append, hpiece _ le_rfl hdvd]
      exact ⟨by omega, fun h0 => by omega⟩
    · have hnext := next_offset off c (by omega)
      have hdvd : p.format / 8 ∣ chunkBytes c := by
        rcases hunits with hu | hu | hu <;> rw [hu] <;> omega
      rw [if_neg hlast] at hres
      obtain ⟨hlen, hzero⟩ := ih { s with errorValue := r.property } _ _ ⟨h.ok, h.format⟩ hl (by omega)
        (by rw [length_append, hpiece _ (by omega) hdvd]; omega) hres
      refine ⟨hlen, fun h0 => ?_⟩
      omega

/-- **`ProcGetProperty`** gives the part of a property that is asked for exactly where its 32-bit
offset and length do; a client that reads in chunks gets the value exactly where the value has
fewer than `2 ^ 32` bytes and, unless it has none, a chunk has some in 32 bits. -/
theorem get_property_parts (swapped : Bool) (h : Stocked s) (ha : Answered e a r) (hl : s.lookup r.property = some p)
    (htype : r.type = p.type ∨ r.type = AnyPropertyType) :
    let data := s.heap.load p.data
    (PartRight swapped r p data (procGetProperty e a swapped r s) ↔ PartFits r p data) ∧
      ∀ c, (∃ fuel, readChunks e a swapped r c fuel s 0 [] = some (wireUnits swapped (p.format / 8) data)) ↔
        p.bytes < 2 ^ 32 ∧ (p.bytes = 0 ∨ chunkBytes c ≠ 0) := by
  intro data
  refine ⟨part_right_iff swapped h ha hl htype, fun c => ⟨?_, ?_⟩⟩
  · rintro ⟨fuel, hread⟩
    have hp := mem_of_find?_eq_some hl
    have hformat := h.format p hp
    have hdata : data.length = p.bytes := h.ok.length p hp
    have hn := p.numBytes_eq
    obtain ⟨hlen, hzero⟩ := readChunks_length swapped ha htype fuel s 0 [] h hl (by simp) rfl hread
    have hdvd : p.format / 8 ∣ data.length := by
      rw [hdata]
      unfold PropertyRec.bytes
      rw [Nat.shiftRight_eq_div_pow]
      exact dvd_mul_left ..
    rw [length_wireUnits swapped (by omega) hdvd] at hlen
    have hzero' : chunkBytes c = 0 → p.numBytes = 0 := hzero
    exact ⟨by omega, by omega⟩
  · rintro ⟨hsmall, hc⟩
    have hall := readChunks_all swapped ha htype hsmall hc (p.bytes + 1) s 0 h hl rfl (by simp) (by simp)
    have hnil : wireUnits swapped (p.format / 8) ((s.heap.load p.data).take (4 * (0 : CARD32).toNat)) = [] := by
      simp [wireUnits]
    rw [hnil] at hall
    exact ⟨p.bytes + 1, hall⟩

end Chunks

/-! ### Four bytes -/

def fourBytes : PropertyRec := ⟨39, 31, 8, 4, some 0⟩

/-- A window with that property. -/
def fourState : PropState := ⟨[fourBytes], ⟨fun q => if q = 0 then some [1, 2, 3, 4] else none, 1⟩, 0, []⟩

/-- Nothing stands in the way of a request. -/
def openEnv : GetEnv := ⟨fun _ => true, .ok, .ok (), Success⟩

def askFor (longLength : CARD32) : GetPropertyReq := ⟨0, 39, 31, 0, longLength⟩

def bufferGranted : Grants := fun _ => some fun _ => 0

theorem fourState_stocked : Stocked fourState := by
  refine ⟨⟨by simp [fourState], ?_, ?_, ?_, by simp [fourState, fourBytes], ?_⟩, ?_⟩
  · intro p hp
    obtain rfl := mem_singleton.1 hp
    rfl
  · intro p hp
    obtain rfl := mem_singleton.1 hp
    decide
  · intro p hp q hq
    obtain rfl := mem_singleton.1 hp
    cases hq
    rfl
  · intro q hq
    by_contra hlt
    have h0 : q ≠ 0 := by
      rintro rfl
      exact hlt one_pos
    simp [fourState, h0] at hq
  · intro p hp
    obtain rfl := mem_singleton.1 hp
    exact .inl rfl

theorem askFor_answered (longLength : CARD32) : Answered openEnv bufferGranted (askFor longLength) :=
  ⟨rfl, .inl rfl, .inr rfl, fun _ => rfl, rfl, rfl, by simp [bufferGranted]⟩

theorem get_property_parts_one :
    PartRight false (askFor 1) fourBytes [1, 2, 3, 4] (procGetProperty openEnv bufferGranted false (askFor 1) fourState) := by
  have hfit : PartFits (askFor 1) fourBytes (fourState.heap.load fourBytes.data) := by
    unfold PartFits
    decide
  exact (get_property_parts false fourState_stocked (askFor_answered 1) rfl (.inl rfl)).1.2 hfit

/-- A length of `2 ^ 30` longs comes out as no bytes. -/
theorem get_property_no_bytes :
    Stocked fourState ∧ Answered openEnv bufferGranted (askFor 0x40000000) ∧
      ¬PartRight false (askFor 0x40000000) fourBytes [1, 2, 3, 4]
        (procGetProperty openEnv bufferGranted false (askFor 0x40000000) fourState) := by
  refine ⟨fourState_stocked, askFor_answered _, fun hright => ?_⟩
  have hfit := (part_right_iff false fourState_stocked (askFor_answered _) rfl (.inl rfl)).1 hright
  revert hfit
  unfold PartFits
  decide

end Xenia.Dix
