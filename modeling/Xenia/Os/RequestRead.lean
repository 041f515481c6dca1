import Xenia.Os.RequestInput

/-!
# What ReadRequestFromClient does

* `makeRoom_spec`, `takeIn_spec`: the bytes of a request stay together in the buffer.
* `measure_cases`, `fill_comes`, `finishRead_ok`: where each part gets to.
* `read_from`: from an input in order, a request that is returned is one that was measured and is there.
-/

namespace Xenia.Os

open Xenia.Lib Xenia.Dix List Option

/-! ### Lengths -/

/-- The bytes of the input that have not been read. -/
def pending (oci : ConnectionInput) : List Byte := (oci.buffer.take oci.bufcnt).drop oci.bufptr

/-- The input buffer is in order. -/
structure ConnectionInput.Ok (c : InputConfig) (oci : ConnectionInput) : Prop where
  last : oci.bufptr + oci.lenLastReq ≤ oci.bufcnt
  count : oci.bufcnt ≤ oci.buffer.length
  size : oci.buffer.length ≤ c.maxBigRequestSize <<< 2

/-- The length in a header, and the one behind the header of a big request. -/
def headerLen (c : InputConfig) (bs : List Byte) : ℕ :=
  (if c.swapped then bswap16 (readCard16 (bs.drop 2)) else readCard16 (bs.drop 2)).toNat

def bigLen (c : InputConfig) (bs : List Byte) : ℕ :=
  (if c.swapped then bswap32 (readCard32 (bs.drop 4)) else readCard32 (bs.drop 4)).toNat

/-- The length of the request that the bytes start with. -/
def streamUnits (c : InputConfig) (bs : List Byte) : ℕ × Bool × Bool :=
  if headerLen c bs = 0 ∧ c.bigRequests then
    if bs.length < 8 then (2, true, true) else (bigLen c bs, true, false)
  else (headerLen c bs, false, false)

section Lengths

variable {c : InputConfig} {oci : ConnectionInput} {xs ys : List Byte}

theorem readCard16_congr (h : ∀ i < 2, xs.getD i 0 = ys.getD i 0) : readCard16 xs = readCard16 ys := by
  unfold readCard16
  rw [h 0 (by decide), h 1 (by decide)]

theorem readCard32_congr (h : ∀ i < 4, xs.getD i 0 = ys.getD i 0) : readCard32 xs = readCard32 ys := by
  unfold readCard32
  rw [h 0 (by decide), h 1 (by decide), h 2 (by decide), h 3 (by decide)]

theorem length_pending (h : oci.bufcnt ≤ oci.buffer.length) : (pending oci).length = oci.bufcnt - oci.bufptr := by
  unfold pending
  rw [length_drop, length_take, min_eq_left h]

theorem getD_pending {i : ℕ} (hi : oci.bufptr + i < oci.bufcnt) :
    (pending oci).getD i 0 = oci.buffer.getD (oci.bufptr + i) 0 := by
  unfold pending
  simp only [getD_eq_getElem?_getD, getElem?_drop, getElem?_take_of_lt hi]

theorem getReqLen_eq (h : oci.bufptr + 4 ≤ oci.bufcnt) : getReqLen c oci = headerLen c (pending oci) := by
  have hread : readCard16 (oci.buffer.drop (oci.bufptr + 2)) = readCard16 ((pending oci).drop 2) := by
    apply readCard16_congr
    intro i hi
    have hget : (pending oci).getD (2 + i) 0 = oci.buffer.getD (oci.bufptr + (2 + i)) 0 := getD_pending (by omega)
    simp only [getD_eq_getElem?_getD, getElem?_drop] at hget ⊢
    rw [hget, add_assoc]
  unfold getReqLen headerLen
  rw [hread]

theorem getBigReqLen_eq (h : oci.bufptr + 8 ≤ oci.bufcnt) : getBigReqLen c oci = bigLen c (pending oci) := by
  have hread : readCard32 (oci.buffer.drop (oci.bufptr + 4)) = readCard32 ((pending oci).drop 4) := by
    apply readCard32_congr
    intro i hi
    have hget : (pending oci).getD (4 + i) 0 = oci.buffer.getD (oci.bufptr + (4 + i)) 0 := getD_pending (by omega)
    simp only [getD_eq_getElem?_getD, getElem?_drop] at hget ⊢
    rw [hget, add_assoc]
  unfold getBigReqLen bigLen
  rw [hread]

theorem requestUnits_eq (hcount : oci.bufcnt ≤ oci.buffer.length) (h : oci.bufptr + 4 ≤ oci.bufcnt) :
    requestUnits c oci (oci.bufcnt - oci.bufptr) = streamUnits c (pending oci) := by
  unfold requestUnits streamUnits sizeof_xBigReq
  rw [getReqLen_eq h, length_pending hcount]
  by_cases hbig : oci.bufcnt - oci.bufptr < 8
  · simp only [if_pos hbig]
  · rw [getBigReqLen_eq (by omega)]

/-- More bytes do not change the length. -/
theorem headerLen_append (h : 4 ≤ xs.length) : headerLen c (xs ++ ys) = headerLen c xs := by
  have hread : readCard16 ((xs ++ ys).drop 2) = readCard16 (xs.drop 2) := by
    apply readCard16_congr
    intro i hi
    simp only [getD_eq_getElem?_getD, getElem?_drop]
    rw [getElem?_append_left (by omega)]
  unfold headerLen
  rw [hread]

theorem bigLen_append (h : 8 ≤ xs.length) : bigLen c (xs ++ ys) = bigLen c xs := by
  have hread : readCard32 ((xs ++ ys).drop 4) = readCard32 (xs.drop 4) := by
    apply readCard32_congr
    intro i hi
    simp only [getD_eq_getElem?_getD, getElem?_drop]
    rw [getElem?_append_left (by omega)]
  unfold bigLen
  rw [hread]

theorem streamUnits_append (h : 4 ≤ xs.length) (hheader : (streamUnits c xs).2.2 = false) :
    streamUnits c (xs ++ ys) = streamUnits c xs := by
  unfold streamUnits at *
  rw [headerLen_append h]
  by_cases hbig : headerLen c xs = 0 ∧ c.bigRequests = true
  · rw [if_pos hbig] at hheader ⊢
    by_cases h8 : xs.length < 8
    · rw [if_pos h8] at hheader
      exact absurd hheader (by simp)
    · rw [if_pos hbig, if_neg h8, if_neg (by rw [length_append]; omega), bigLen_append (by omega)]
  · rw [if_neg hbig, if_neg hbig]

/-- Whether a request is a big one shows in its header. -/
theorem streamUnits_move (c : InputConfig) (bs : List Byte) :
    (streamUnits c bs).2.1 = true ↔ headerLen c bs = 0 ∧ c.bigRequests = true := by
  unfold streamUnits
  by_cases hbig : headerLen c bs = 0 ∧ c.bigRequests = true
  · rw [if_pos hbig]
    split <;> exact iff_of_true rfl hbig
  · rw [if_neg hbig]
    exact iff_of_false Bool.false_ne_true hbig

theorem headerLen_lt (c : InputConfig) (bs : List Byte) : headerLen c bs < 65536 := BitVec.isLt _

end Lengths

/-! ### Room and bytes -/

/-- There are `gotnow` bytes from `bufptr` on, in a buffer that is not too large. -/
structure Placed (c : InputConfig) (oci : ConnectionInput) (gotnow : ℕ) : Prop where
  got : oci.bufptr + gotnow = oci.bufcnt
  count : oci.bufcnt ≤ oci.buffer.length
  size : oci.buffer.length ≤ c.maxBigRequestSize <<< 2

section Room

variable {c : InputConfig} {a : InputAnswers} {oci oci' : ConnectionInput} {gotnow : ℕ} {r : Reading}

theorem Placed.length (h : Placed c oci gotnow) : (pending oci).length = gotnow := by
  have := h.got
  rw [length_pending h.count]
  omega

theorem pending_eq (h : Placed c oci gotnow) : pending oci = (oci.buffer.drop oci.bufptr).take gotnow := by
  have := h.got
  unfold pending
  rw [drop_take]
  congr 1
  omega

/-- What there is of the request moved to the front, or left where it is. -/
theorem front_spec (h : Placed c oci gotnow) :
    let buffer := if gotnow > 0 ∧ oci.bufptr ≠ 0 then memWrite oci.buffer 0 ((oci.buffer.drop oci.bufptr).take gotnow)
      else oci.buffer
    buffer.length = oci.buffer.length ∧ buffer.take gotnow = pending oci := by
  have hgot := h.got
  have hcount := h.count
  intro buffer
  rw [pending_eq h]
  by_cases hfar : gotnow > 0 ∧ oci.bufptr ≠ 0
  · have hlen : ((oci.buffer.drop oci.bufptr).take gotnow).length = gotnow := by
      rw [length_take, length_drop]
      omega
    have hbuffer : buffer = memWrite oci.buffer 0 ((oci.buffer.drop oci.bufptr).take gotnow) := if_pos hfar
    have htake : (memWrite oci.buffer 0 ((oci.buffer.drop oci.bufptr).take gotnow)).take
        (0 + ((oci.buffer.drop oci.bufptr).take gotnow).length) = _ := take_memWrite (Nat.zero_le _)
    rw [hlen, zero_add, take_zero] at htake
    rw [hbuffer]
    exact ⟨length_memWrite (by omega), htake⟩
  · have hbuffer : buffer = oci.buffer := if_neg hfar
    rw [hbuffer]
    refine ⟨rfl, ?_⟩
    by_cases h0 : gotnow = 0
    · rw [h0, take_zero, take_zero]
    · have hp : oci.bufptr = 0 := by omega
      rw [hp, drop_zero]

/-- **Room for what is needed** keeps what there is of the request. -/
theorem makeRoom_spec (a : InputAnswers) (h : Placed c r.oci r.gotnow) (hneeded : r.gotnow < r.needed)
    (hmax : r.needed ≤ c.maxBigRequestSize <<< 2) :
    Placed c (makeRoom a r).1 r.gotnow ∧ ((makeRoom a r).2 = true → pending (makeRoom a r).1 = pending r.oci) ∧
      (makeRoom a r).1.ignoreBytes = r.oci.ignoreBytes ∧ (makeRoom a r).1.lenLastReq = r.oci.lenLastReq := by
  have hgot := h.got
  have hcount := h.count
  have hsize := h.size
  unfold makeRoom
  by_cases hmove : r.gotnow = 0 ∨ r.oci.bufptr + r.needed > r.oci.buffer.length
  · rw [if_pos hmove]
    obtain ⟨hlength, hfront⟩ := front_spec h
    generalize (if r.gotnow > 0 ∧ r.oci.bufptr ≠ 0 then memWrite r.oci.buffer 0 ((r.oci.buffer.drop r.oci.bufptr).take r.gotnow)
      else r.oci.buffer) = buffer at hlength hfront ⊢
    by_cases hlarge : r.needed > buffer.length
    · rw [if_pos hlarge]
      cases hgrow : grow a.larger buffer r.needed with
      | none =>
        refine ⟨⟨hgot, ?_, ?_⟩, fun h => absurd h Bool.false_ne_true, rfl, rfl⟩
        · dsimp only
          omega
        · dsimp only
          omega
      | some ibuf =>
        obtain ⟨hlen, htake⟩ := grow_some hgrow
        refine ⟨⟨zero_add _, ?_, ?_⟩, fun _ => ?_, rfl, rfl⟩
        · dsimp only
          omega
        · dsimp only
          omega
        · exact (htake _ (by omega) hneeded.le).trans hfront
    · rw [if_neg hlarge]
      refine ⟨⟨zero_add _, ?_, ?_⟩, fun _ => hfront, rfl, rfl⟩
      · dsimp only
        omega
      · dsimp only
        omega
  · rw [if_neg hmove]
    exact ⟨h, fun _ => rfl, rfl, rfl⟩

/-- **Bytes from the transport** stand behind those there were. -/
theorem takeIn_spec (a : InputAnswers) (needed : ℕ) {bs : List Byte} (h : Placed c oci gotnow)
    (hbs : bs.length ≤ oci.buffer.length - oci.bufcnt) :
    Placed c (takeIn a bs needed (gotnow + bs.length) oci) (gotnow + bs.length) ∧
      pending (takeIn a bs needed (gotnow + bs.length) oci) = pending oci ++ bs ∧
      (takeIn a bs needed (gotnow + bs.length) oci).ignoreBytes = oci.ignoreBytes ∧
      (takeIn a bs needed (gotnow + bs.length) oci).lenLastReq = oci.lenLastReq := by
  have hgot := h.got
  have hcount := h.count
  have hsize := h.size
  have hlen : (memWrite oci.buffer oci.bufcnt bs).length = oci.buffer.length := length_memWrite (by omega)
  have hpend : ((memWrite oci.buffer oci.bufcnt bs).take (oci.bufcnt + bs.length)).drop oci.bufptr = pending oci ++ bs := by
    rw [take_memWrite h.count, drop_append_of_le_length (by rw [length_take]; omega)]
    rfl
  unfold takeIn
  by_cases hshrink : (memWrite oci.buffer oci.bufcnt bs).length > BUFWATERMARK ∧ oci.bufcnt + bs.length < BUFSIZE ∧
      needed < BUFSIZE ∧ a.smaller = true
  · rw [if_pos hshrink]
    have hwater : BUFSIZE ≤ BUFWATERMARK := by decide
    have hptr : oci.bufcnt + bs.length - (gotnow + bs.length) = oci.bufptr := by omega
    have htake : ((memWrite oci.buffer oci.bufcnt bs).take BUFSIZE).length = BUFSIZE := by
      rw [length_take]
      omega
    refine ⟨⟨?_, ?_, ?_⟩, ?_, rfl, rfl⟩
    · dsimp only
      omega
    · dsimp only
      omega
    · dsimp only
      omega
    · unfold pending
      dsimp only
      rw [hptr, take_take, min_eq_left (by omega), hpend]
      rfl
  · rw [if_neg hshrink]
    refine ⟨⟨?_, ?_, ?_⟩, hpend, rfl, rfl⟩
    · dsimp only
      omega
    · dsimp only
      omega
    · dsimp only
      omega

end Room

/-! ### ReadRequestFromClient -/

/-- A request whose header is there, with its length and kind. -/
structure Measured (c : InputConfig) (r : Reading) : Prop where
  placed : Placed c r.oci r.gotnow
  ignored : r.oci.ignoreBytes = 0
  header : 4 ≤ r.gotnow
  units : r.reqLen = (streamUnits c (pending r.oci)).1
  move : r.moveHeader = (streamUnits c (pending r.oci)).2.1
  needed : r.needed = r.reqLen <<< 2
  small : r.reqLen ≤ MAXINT >>> 2

/-- How far the start of `ReadRequestFromClient` can get: there are bytes to ignore, or a header to
wait for, or a request that is measured, perhaps with more of its header to come. -/
inductive Begun (c : InputConfig) (r : Reading) : Prop
  | ignoring (placed : Placed c r.oci r.gotnow) (ignored : r.oci.ignoreBytes > 0) (needed : r.needed ≤ r.oci.buffer.length)
      (header : r.needHeader = false) (move : r.moveHeader = false)
  | waiting (placed : Placed c r.oci r.gotnow) (ignored : r.oci.ignoreBytes = 0) (few : r.gotnow < 4) (needed : r.needed = 4)
      (header : r.needHeader = true) (move : r.moveHeader = false)
  | measured (m : Measured c r) (header : r.needHeader = (streamUnits c (pending r.oci)).2.2)

/-- What the part that reads hands on, with `ignored` bytes to ignore: all that is needed is there. -/
structure Filled (c : InputConfig) (ignored : ℕ) (r : Reading) : Prop where
  placed : Placed c r.oci r.gotnow
  enough : r.needed ≤ r.gotnow
  same : r.oci.ignoreBytes = ignored
  kind : ignored > 0 ∧ r.moveHeader = false ∨ Measured c r

/-- A request that is too big: its length is returned, and its bytes are to be ignored. -/
structure Oversize (c : InputConfig) (oci : ConnectionInput) : Prop where
  ignored : oci.ignoreBytes > 0
  header : oci.bufptr + 4 ≤ oci.bufcnt
  big : getReqLen c oci = 0 ∧ c.bigRequests = true

/-- What a part of `ReadRequestFromClient` may come to, with `ignored` bytes to ignore. -/
def Comes (c : InputConfig) (ignored : ℕ) (P : Reading → Prop) : Progress → Prop
  | .done oci _ rv => oci.Ok c ∧ (rv ≤ 0 ∨ Oversize c oci ∧ ignored = 0)
  | .go r => P r

section Read

variable {c : InputConfig} {a : InputAnswers} {oci : ConnectionInput} {gotnow : ℕ} {r : Reading}

theorem Placed.ok (h : Placed c oci gotnow) (hlast : oci.lenLastReq ≤ gotnow) : oci.Ok c := by
  have := h.got
  exact ⟨by omega, h.count, h.size⟩

theorem requestUnits_placed (h : Placed c oci gotnow) (hheader : 4 ≤ gotnow) :
    requestUnits c oci gotnow = streamUnits c (pending oci) := by
  have hgot := h.got
  have heq := requestUnits_eq (c := c) h.count (by omega)
  rwa [show oci.bufcnt - oci.bufptr = gotnow by omega] at heq

/-- The input with the last request passed over. -/
def nextRequest (oci : ConnectionInput) : ConnectionInput := { oci with bufptr := oci.bufptr + oci.lenLastReq }

/-- A header that is in the buffer does not announce a length that overflows an `int`. -/
def Announces (c : InputConfig) (oci : ConnectionInput) : Prop :=
  oci.ignoreBytes = 0 → 4 ≤ (pending (nextRequest oci)).length →
    (streamUnits c (pending (nextRequest oci))).1 ≤ MAXINT >>> 2

/-- **The start**: where the request stands and what is known of it, unless its header is out of range. -/
theorem measure_cases (h : oci.Ok c) (reqLen : ℕ) :
    (∃ r, measure c reqLen oci = .go r ∧ Begun c r ∧ r.oci = nextRequest oci) ∨
      ¬ Announces c oci ∧ ∃ units, measure c reqLen oci = .done (nextRequest oci) units (-(BadLength : ℤ)) := by
  have hlast := h.last
  have hplaced : Placed c (nextRequest oci) (oci.bufcnt - (oci.bufptr + oci.lenLastReq)) := by
    refine ⟨?_, h.count, h.size⟩
    unfold nextRequest
    dsimp only
    omega
  have hlength := hplaced.length
  unfold Announces measure
  rw [hlength]
  unfold nextRequest at hplaced
  dsimp only
  by_cases hignore : oci.ignoreBytes > 0
  · rw [if_pos hignore]
    refine .inl ⟨_, rfl, .ignoring hplaced hignore ?_ rfl rfl, rfl⟩
    dsimp only
    split
    · exact le_rfl
    · omega
  · rw [if_neg hignore]
    by_cases hfew : oci.bufcnt - (oci.bufptr + oci.lenLastReq) < sizeof_xReq
    · rw [if_pos hfew]
      exact .inl ⟨_, rfl, .waiting hplaced (by dsimp only; omega) hfew rfl rfl rfl, rfl⟩
    · rw [if_neg hfew]
      have h4 : 4 ≤ oci.bufcnt - (oci.bufptr + oci.lenLastReq) := not_lt.1 hfew
      rw [requestUnits_placed hplaced h4]
      by_cases hlarge : (streamUnits c (pending { oci with bufptr := oci.bufptr + oci.lenLastReq })).1 > MAXINT >>> 2
      · rw [if_pos hlarge]
        exact .inr ⟨fun hall => absurd (hall (by omega) h4) (not_le.2 hlarge), _, rfl⟩
      · rw [if_neg hlarge]
        exact .inl ⟨_, rfl, .measured ⟨hplaced, by dsimp only; omega, h4, rfl, rfl, rfl, not_lt.1 hlarge⟩ rfl, rfl⟩

variable {bs : List Byte}

/-- A length that does not come out of a header is that of a big request. -/
theorem streamUnits_large (h : 65536 ≤ (streamUnits c bs).1) : headerLen c bs = 0 ∧ c.bigRequests = true := by
  by_contra hbig
  unfold streamUnits at h
  rw [if_neg hbig] at h
  exact absurd (headerLen_lt c bs) (not_lt.2 h)

/-- A header that is waited for is that of a big request, eight bytes long. -/
theorem streamUnits_header (h : (streamUnits c bs).2.2 = true) :
    (streamUnits c bs).1 = 2 ∧ headerLen c bs = 0 ∧ c.bigRequests = true := by
  unfold streamUnits at h ⊢
  by_cases hbig : headerLen c bs = 0 ∧ c.bigRequests = true
  · rw [if_pos hbig] at h ⊢
    by_cases h8 : bs.length < 8
    · rw [if_pos h8]
      exact ⟨rfl, hbig⟩
    · rw [if_neg h8] at h
      exact absurd h Bool.false_ne_true
  · rw [if_neg hbig] at h
    exact absurd h Bool.false_ne_true

/-- **After a read from the transport**: a header that has come is measured. -/
theorem remeasure_comes (h : Begun c r) (hfew : r.gotnow < r.needed) {oci1 : ConnectionInput}
    (hplaced : Placed c oci1 (r.gotnow + bs.length)) (hpend : pending oci1 = pending r.oci ++ bs)
    (hign : oci1.ignoreBytes = r.oci.ignoreBytes) (hlast : oci1.lenLastReq = 0) :
    Comes c r.oci.ignoreBytes
      (fun r' => Placed c r'.oci r'.gotnow ∧ r'.oci.lenLastReq = 0 ∧ (r'.needed ≤ r'.gotnow → Filled c r.oci.ignoreBytes r'))
      (remeasure c { r with oci := oci1, gotnow := r.gotnow + bs.length }) := by
  have hok : oci1.Ok c := hplaced.ok (by omega)
  unfold remeasure
  dsimp only
  by_cases hcome : r.needHeader = true ∧ r.gotnow + bs.length ≥ r.needed
  · -- the header is there now
    rw [if_pos hcome]
    have hignored : oci1.ignoreBytes = 0 ∧ 4 ≤ r.gotnow + bs.length := by
      cases h with
      | ignoring _ _ _ header _ => exact absurd (header.symm.trans hcome.1) Bool.false_ne_true
      | waiting _ ignored _ needed _ _ => exact ⟨hign.trans ignored, by omega⟩
      | measured m _ => exact ⟨hign.trans m.ignored, by have := m.header; omega⟩
    have hmove : (r.moveHeader || (streamUnits c (pending oci1)).2.1) = (streamUnits c (pending oci1)).2.1 := by
      cases h with
      | ignoring _ _ _ header _ => exact absurd (header.symm.trans hcome.1) Bool.false_ne_true
      | waiting _ _ _ _ _ move => rw [move, Bool.false_or]
      | measured m header =>
        obtain ⟨-, hbig⟩ := streamUnits_header (header.symm.trans hcome.1)
        have hheader : 4 ≤ (pending r.oci).length := by
          rw [m.placed.length]
          exact m.header
        have hbig' : (streamUnits c (pending oci1)).2.1 = true := by
          rw [streamUnits_move, hpend, headerLen_append hheader]
          exact hbig
        rw [hbig', Bool.or_true]
    rw [requestUnits_placed hplaced hignored.2]
    by_cases hsmall : (streamUnits c (pending oci1)).1 > MAXINT >>> 2
    · rw [if_pos hsmall]
      exact ⟨hok, .inl (by decide)⟩
    · rw [if_neg hsmall]
      refine ⟨hplaced, hlast, fun henough => ⟨hplaced, henough, hign, .inr ?_⟩⟩
      exact ⟨hplaced, hignored.1, hignored.2, rfl, hmove, rfl, not_lt.1 hsmall⟩
  · rw [if_neg hcome]
    refine ⟨hplaced, hlast, fun henough => ⟨hplaced, henough, hign, ?_⟩⟩
    cases h with
    | ignoring _ ignored _ _ move => exact .inl ⟨ignored, move⟩
    | waiting _ _ _ _ header _ => exact absurd ⟨header, henough⟩ hcome
    | measured m header =>
      have hheader : r.needHeader = false := by
        by_contra hne
        exact hcome ⟨by simpa using hne, henough⟩
      have hlen : 4 ≤ (pending r.oci).length := by
        rw [m.placed.length]
        exact m.header
      have hunits : streamUnits c (pending oci1) = streamUnits c (pending r.oci) := by
        rw [hpend]
        exact streamUnits_append hlen (header.symm.trans hheader)
      refine .inr ⟨hplaced, hign.trans m.ignored, ?_, ?_, ?_, m.needed, m.small⟩
      · have := m.header
        dsimp only
        omega
      · rw [hunits]
        exact m.units
      · rw [hunits]
        exact m.move

theorem Begun.placed (h : Begun c r) : Placed c r.oci r.gotnow := by
  cases h with
  | ignoring placed _ _ _ _ => exact placed
  | waiting placed _ _ _ _ _ => exact placed
  | measured m _ => exact m.placed

/-- **The part that reads** hands on a request that is there, or returns: nothing yet, an error, or
the length of a request that is too big. -/
theorem fill_comes (a : InputAnswers) (h : Begun c r) :
    Comes c r.oci.ignoreBytes (Filled c r.oci.ignoreBytes) (fill c a r) := by
  unfold fill
  by_cases hfew : r.gotnow < r.needed
  · rw [if_pos hfew]
    by_cases hover : r.needed > c.maxBigRequestSize <<< 2
    · rw [if_pos hover]
      have hmax := c.core_le
      have hgot := h.placed.got
      have hbig : (4 ≤ r.gotnow ∧ r.oci.ignoreBytes = 0) ∧ headerLen c (pending r.oci) = 0 ∧ c.bigRequests = true := by
        cases h with
        | ignoring placed _ needed _ _ =>
          have hsize := placed.size
          omega
        | waiting _ _ _ needed _ _ => omega
        | measured m _ =>
          refine ⟨⟨m.header, m.ignored⟩, streamUnits_large ?_⟩
          rw [← m.units]
          have hneeded := m.needed
          omega
      have hheader : r.oci.bufptr + 4 ≤ r.oci.bufcnt := by omega
      refine ⟨⟨?_, h.placed.count, h.placed.size⟩, .inr ⟨⟨?_, hheader, ?_⟩, hbig.1.2⟩⟩
      · dsimp only
        omega
      · dsimp only
        omega
      · have hlen : getReqLen c r.oci = headerLen c (pending r.oci) := getReqLen_eq hheader
        exact ⟨hlen.trans hbig.2.1, hbig.2.2⟩
    · rw [if_neg hover]
      have hplaced0 : Placed c { r.oci with lenLastReq := 0 } r.gotnow := ⟨h.placed.got, h.placed.count, h.placed.size⟩
      have hroom := makeRoom_spec (r := { r with oci := { r.oci with lenLastReq := 0 } }) a hplaced0 hfew (not_lt.1 hover)
      generalize makeRoom a { r with oci := { r.oci with lenLastReq := 0 } } = room at hroom ⊢
      obtain ⟨oci1, ok⟩ := room
      obtain ⟨hplaced, hpend, hign, hlast⟩ := hroom
      dsimp only at hplaced hpend hign hlast
      have hok : oci1.Ok c := hplaced.ok (by omega)
      cases ok with
      | false => exact ⟨hok, .inl (by decide)⟩
      | true =>
        dsimp only
        by_cases hconn : (!a.connected) = true
        · rw [if_pos hconn]
          exact ⟨hok, .inl (by decide)⟩
        · rw [if_neg hconn]
          cases a.read with
          | error => exact ⟨hok, .inl (by decide)⟩
          | wouldblock => exact ⟨hok, .inl le_rfl⟩
          | data bs =>
            dsimp only
            by_cases hnone : bs.take (oci1.buffer.length - oci1.bufcnt) = []
            · rw [if_pos hnone]
              exact ⟨hok, .inl (by decide)⟩
            · rw [if_neg hnone]
              have hfits : (bs.take (oci1.buffer.length - oci1.bufcnt)).length ≤ oci1.buffer.length - oci1.bufcnt :=
                length_take_le _ _
              obtain ⟨htaken, hpend', hign', hlast'⟩ := takeIn_spec a r.needed hplaced hfits
              have hcomes := remeasure_comes h hfew htaken (hpend'.trans (by rw [hpend rfl]; rfl)) (hign'.trans hign)
                (hlast'.trans hlast)
              revert hcomes
              generalize remeasure c _ = x
              intro hcomes
              cases x with
              | done oci2 n rv => exact hcomes
              | go r2 =>
                obtain ⟨hplaced2, hlast2, hfilled⟩ := hcomes
                dsimp only
                by_cases hfew2 : r2.gotnow < r2.needed
                · rw [if_pos hfew2]
                  exact ⟨hplaced2.ok (by omega), .inl le_rfl⟩
                · rw [if_neg hfew2]
                  exact hfilled (not_lt.1 hfew2)
  · rw [if_neg hfew]
    refine ⟨h.placed, not_lt.1 hfew, rfl, ?_⟩
    cases h with
    | ignoring _ ignored _ _ move => exact .inl ⟨ignored, move⟩
    | waiting _ _ few needed _ _ => omega
    | measured m _ => exact .inr m

theorem fill_enough (h : r.needed ≤ r.gotnow) : fill c a r = .go r := by
  unfold fill
  rw [if_neg (not_lt.2 h)]

/-! ### The end of ReadRequestFromClient -/

/-- The bytes that a request takes, those of its header if it has no length. -/
def wanted (c : InputConfig) (r : Reading) : ℕ :=
  if r.needed = 0 then (if c.bigRequests then sizeof_xBigReq else sizeof_xReq) else r.needed

theorem finishRead_ignoring (h : Placed c r.oci r.gotnow) (hignore : r.oci.ignoreBytes > 0) (hmove : r.moveHeader = false)
    (rb : ℕ) :
    (finishRead c rb r).2 = 0 ∧ ∀ oci, (finishRead c rb r).1.input = some oci → oci.Ok c := by
  have hgot := h.got
  refine ⟨?_, fun oci hoci => ?_⟩
  · unfold finishRead
    simp only [if_pos hignore, hmove, Bool.false_eq_true, if_false, Nat.cast_zero]
  · unfold finishRead at hoci
    simp only [if_pos hignore, hmove] at hoci
    obtain rfl := some.inj hoci
    refine ⟨?_, h.count, h.size⟩
    dsimp only
    generalize (if r.needed = 0 then (if c.bigRequests = true then sizeof_xBigReq else sizeof_xReq) else r.needed) = n
    split <;> omega

theorem finishRead_plain (hignore : r.oci.ignoreBytes = 0) (hmove : r.moveHeader = false) (rb : ℕ) :
    finishRead c rb r =
      ({ input := some { r.oci with lenLastReq := wanted c r }
         reqLen := r.reqLen
         requestBuffer := r.oci.bufptr
         available := if r.gotnow - wanted c r = 0 then AvailableInput.this else .none }, (wanted c r : ℤ)) := by
  have hnone : ¬ r.oci.ignoreBytes > 0 := by omega
  unfold finishRead wanted
  simp only [if_neg hnone, hmove, Bool.false_eq_true, if_false]
  simp only [hignore, and_true]

theorem finishRead_short (hignore : r.oci.ignoreBytes = 0) (hmove : r.moveHeader = true) (hlen : r.reqLen < 1) (rb : ℕ) :
    (finishRead c rb r).2 = -1 ∧ (finishRead c rb r).1.input = some { r.oci with lenLastReq := wanted c r } := by
  have hnone : ¬ r.oci.ignoreBytes > 0 := by omega
  unfold finishRead wanted
  simp only [if_neg hnone, hmove, if_true, if_pos hlen, and_self]

/-- The input after a big request: its header stands right before its body. -/
def moved (c : InputConfig) (r : Reading) : ConnectionInput :=
  { r.oci with
    buffer := memWrite r.oci.buffer (r.oci.bufptr + 4) ((r.oci.buffer.drop r.oci.bufptr).take 4)
    bufptr := r.oci.bufptr + 4
    lenLastReq := wanted c r - 4 }

theorem finishRead_big (hignore : r.oci.ignoreBytes = 0) (hmove : r.moveHeader = true) (hlen : ¬ r.reqLen < 1) (rb : ℕ) :
    (finishRead c rb r).2 = wanted c r ∧ (finishRead c rb r).1.input = some (moved c r) ∧
      (finishRead c rb r).1.reqLen = r.reqLen - 1 := by
  have hnone : ¬ r.oci.ignoreBytes > 0 := by omega
  unfold finishRead moved wanted
  simp only [if_neg hnone, hmove, if_true, if_neg hlen, sizeof_xReq, and_self]

/-- The header of a big request is all there. -/
theorem Measured.big_got (m : Measured c r) (henough : r.needed ≤ r.gotnow) (hmove : r.moveHeader = true) : 8 ≤ r.gotnow := by
  by_contra hfew
  have hbig := (streamUnits_move c (pending r.oci)).1 (m.move.symm.trans hmove)
  have hunits : (streamUnits c (pending r.oci)).1 = 2 := by
    unfold streamUnits
    rw [if_pos hbig, if_pos (by rw [m.placed.length]; omega)]
  have hneeded := m.needed
  rw [m.units] at hneeded
  omega

/-- A request that is returned is all there. -/
theorem Measured.wanted_le (m : Measured c r) (henough : r.needed ≤ r.gotnow) : wanted c r ≤ r.gotnow := by
  unfold wanted
  by_cases hzero : r.needed = 0
  · rw [if_pos hzero]
    have hheader := m.header
    by_cases hbig : c.bigRequests = true
    · rw [if_pos hbig]
      apply m.big_got henough
      rw [m.move, streamUnits_move]
      refine ⟨?_, hbig⟩
      -- a length of no units stands in the header itself, or behind a header without one
      by_contra hne
      have hneeded := m.needed
      rw [m.units] at hneeded
      unfold streamUnits at hneeded
      rw [if_neg (fun h => hne h.1)] at hneeded
      omega
    · rw [if_neg hbig]
      exact hheader
  · rw [if_neg hzero]
    exact henough

theorem Measured.moved_ok (m : Measured c r) (henough : r.needed ≤ r.gotnow) (hmove : r.moveHeader = true) :
    (moved c r).Ok c := by
  have h8 := m.big_got henough hmove
  have hwanted := m.wanted_le henough
  have hgot := m.placed.got
  have hcount := m.placed.count
  have hsize := m.placed.size
  have hlen : ((r.oci.buffer.drop r.oci.bufptr).take 4).length = 4 := by
    rw [length_take, length_drop]
    omega
  have hbuffer : (moved c r).buffer.length = r.oci.buffer.length := length_memWrite (by omega)
  refine ⟨?_, ?_, ?_⟩
  · unfold moved
    dsimp only
    omega
  · rw [hbuffer]
    exact hcount
  · rw [hbuffer]
    exact hsize

/-- **The end** leaves the input in order. -/
theorem finishRead_ok {ignored : ℕ} (h : Filled c ignored r) (rb : ℕ) {oci : ConnectionInput}
    (hoci : (finishRead c rb r).1.input = some oci) : oci.Ok c := by
  rcases h.kind with ⟨hignore, hmove⟩ | m
  · exact (finishRead_ignoring h.placed (h.same ▸ hignore) hmove rb).2 oci hoci
  · have hwanted := m.wanted_le h.enough
    cases hmove : r.moveHeader with
    | false =>
      rw [finishRead_plain m.ignored hmove] at hoci
      obtain rfl := some.inj hoci
      exact ⟨by have := h.placed.got; dsimp only; omega, h.placed.count, h.placed.size⟩
    | true =>
      by_cases hlen : r.reqLen < 1
      · rw [(finishRead_short m.ignored hmove hlen rb).2] at hoci
        obtain rfl := some.inj hoci
        exact ⟨by have := h.placed.got; dsimp only; omega, h.placed.count, h.placed.size⟩
      · rw [(finishRead_big m.ignored hmove hlen rb).2.1] at hoci
        obtain rfl := some.inj hoci
        exact m.moved_ok h.enough hmove

/-- The buffer that is read into. -/
def inputFor (a : InputAnswers) (s : InputState) : Option ConnectionInput := s.input <|> a.fresh.map FreshInput.oci

theorem FreshInput.ok (f : FreshInput) (c : InputConfig) : f.oci.Ok c := by
  have hmax := c.core_le
  have hsmall := f.small
  have hwater : BUFWATERMARK ≤ 65535 * 2 ^ 2 := by decide
  refine ⟨f.used.le, f.fits, ?_⟩
  omega

theorem FreshInput.announces (f : FreshInput) (c : InputConfig) : Announces c f.oci := by
  intro _ hheader
  have hused := f.used
  have hlength : (pending (nextRequest f.oci)).length = f.oci.bufcnt - (f.oci.bufptr + f.oci.lenLastReq) :=
    length_pending f.fits
  omega

variable {s : InputState}

/-- **ReadRequestFromClient**, from an input in order. -/
theorem read_from (hinput : inputFor a s = some oci) (h : oci.Ok c) :
    (Announces c oci → ∀ oci', (readRequestFromClient c a s).1.input = some oci' → oci'.Ok c) ∧
      (0 < (readRequestFromClient c a s).2 → oci.ignoreBytes = 0 ∧
        ((∃ oci', (readRequestFromClient c a s).1.input = some oci' ∧ oci'.Ok c ∧ Oversize c oci') ∨
          ∃ r, Measured c r ∧ r.needed ≤ r.gotnow ∧ readRequestFromClient c a s = finishRead c s.requestBuffer r)) := by
  unfold inputFor at hinput
  unfold readRequestFromClient
  rw [hinput]
  dsimp only
  rcases measure_cases h s.reqLen with ⟨r, hgo, hbegun, hnext⟩ | ⟨hnot, units, hdone⟩
  · have hsame : r.oci.ignoreBytes = oci.ignoreBytes := by rw [hnext, nextRequest]
    have hcomes := fill_comes a hbegun
    rw [hsame] at hcomes
    rw [hgo]
    dsimp only
    cases hfill : fill c a r with
    | done oci1 reqLen rv =>
      rw [hfill] at hcomes
      obtain ⟨hok, hrv⟩ := hcomes
      refine ⟨fun _ oci' hoci' => ?_, fun hpos => ?_⟩
      · obtain rfl := some.inj hoci'
        exact hok
      · obtain ⟨hover, hzero⟩ := hrv.resolve_left (not_le.2 hpos)
        exact ⟨hzero, .inl ⟨_, rfl, hok, hover⟩⟩
    | go r1 =>
      rw [hfill] at hcomes
      refine ⟨fun _ oci' hoci' => finishRead_ok hcomes s.requestBuffer hoci', fun hpos => ?_⟩
      rcases hcomes.kind with ⟨hignore, hmove⟩ | m
      · rw [(finishRead_ignoring hcomes.placed (hcomes.same ▸ hignore) hmove s.requestBuffer).1] at hpos
        exact absurd hpos (lt_irrefl 0)
      · exact ⟨hcomes.same ▸ m.ignored, .inr ⟨r1, m, hcomes.enough, rfl⟩⟩
  · rw [hdone]
    dsimp only
    refine ⟨fun hall => absurd hall hnot, fun hpos => ?_⟩
    exact absurd hpos (by decide)

/-- The input of a client is in order. -/
def InputState.Ok (c : InputConfig) (s : InputState) : Prop := ∀ oci, s.input = some oci → oci.Ok c

theorem InputState.Ok.inputFor (h : s.Ok c) (hinput : inputFor a s = some oci) :
    oci.Ok c ∧ ((∀ oci, s.input = some oci → Announces c oci) → Announces c oci) := by
  unfold Os.inputFor at hinput
  cases hs : s.input with
  | some oci1 =>
    rw [hs] at hinput
    obtain rfl := some.inj hinput
    exact ⟨h _ hs, fun hall => hall _ rfl⟩
  | none =>
    rw [hs] at hinput
    change a.fresh.map FreshInput.oci = some oci at hinput
    obtain ⟨f, -, rfl⟩ := map_eq_some_iff.1 hinput
    exact ⟨f.ok c, fun _ => f.announces c⟩

theorem read_none (hinput : inputFor a s = none) :
    readRequestFromClient c a s = (⟨none, s.reqLen, s.requestBuffer, .none⟩, -1) := by
  unfold inputFor at hinput
  unfold readRequestFromClient
  rw [hinput]

end Read

end Xenia.Os
