import Xenia.Os.RequestRead

/-!
# A request put back

* `Measured.again`: a request that is not a big one is read again.
* `Measured.again_big`: a big request is put back four bytes shorter than it was.
* `reset_request_iff`: in a run, the same request is read again exactly if it is not a big one.
-/

namespace Xenia.Os

open Xenia.Lib Xenia.Dix List Option Bool

/-! ### ResetCurrentRequest -/

section Reset

variable {c : InputConfig} {a : InputAnswers} {s s1 : InputState} {oci : ConnectionInput} {r : Reading}

/-- **A reset** keeps the input in order, and the bytes to ignore. -/
theorem reset_ok (h : s.Ok c) {s' : InputState} (hreset : resetCurrentRequest c s = some s') :
    s'.Ok c ∧ ∃ oci oci', s.input = some oci ∧ s'.input = some oci' ∧ oci'.ignoreBytes = oci.ignoreBytes := by
  unfold resetCurrentRequest at hreset
  cases hs : s.input with
  | none =>
    rw [hs] at hreset
    exact absurd hreset (by simp)
  | some oci =>
    have hok := h oci hs
    have hlast := hok.last
    rw [hs] at hreset
    dsimp only at hreset
    have hsame : ({ oci with lenLastReq := 0 } : ConnectionInput).Ok c := ⟨by dsimp only; omega, hok.count, hok.size⟩
    by_cases hfew : oci.bufcnt - oci.bufptr < sizeof_xReq
    · rw [if_pos hfew] at hreset
      obtain rfl := some.inj hreset
      refine ⟨fun oci' hoci' => ?_, oci, _, rfl, rfl, rfl⟩
      obtain rfl := some.inj hoci'
      exact hsame
    · rw [if_neg hfew] at hreset
      by_cases hbig : getReqLen c { oci with lenLastReq := 0 } = 0 ∧ c.bigRequests = true
      · rw [if_pos hbig] at hreset
        by_cases hbefore : oci.bufptr < 4
        · rw [if_pos hbefore] at hreset
          exact absurd hreset (by simp)
        · rw [if_neg hbefore] at hreset
          obtain rfl := some.inj hreset
          refine ⟨fun oci' hoci' => ?_, oci, _, rfl, rfl, rfl⟩
          obtain rfl := some.inj hoci'
          have hfour : ((oci.buffer.drop oci.bufptr).take sizeof_xReq).length ≤ 4 := length_take_le _ _
          have hcount := hok.count
          have hroom : sizeof_xReq ≤ oci.bufcnt - oci.bufptr := not_lt.1 hfew
          rw [show sizeof_xReq = 4 from rfl] at hroom
          have hlen : ∀ v : CARD32, (memWrite (memWrite oci.buffer (oci.bufptr - 4) ((oci.buffer.drop oci.bufptr).take sizeof_xReq))
              (oci.bufptr - 4 + 4) (leBytes 4 v)).length = oci.buffer.length := by
            intro v
            have hv : (leBytes 4 v).length = 4 := length_leBytes 4 v
            have hfirst : (memWrite oci.buffer (oci.bufptr - 4) ((oci.buffer.drop oci.bufptr).take sizeof_xReq)).length =
                oci.buffer.length := length_memWrite (by omega)
            rw [length_memWrite (by omega), hfirst]
          refine ⟨?_, ?_, ?_⟩
          · dsimp only
            omega
          · dsimp only
            rw [hlen]
            exact hcount
          · dsimp only
            rw [hlen]
            exact hok.size
      · rw [if_neg hbig] at hreset
        obtain rfl := some.inj hreset
        refine ⟨fun oci' hoci' => ?_, oci, _, rfl, rfl, rfl⟩
        obtain rfl := some.inj hoci'
        exact hsame

theorem getReqLen_drop (c : InputConfig) (oci : ConnectionInput) :
    getReqLen c oci = headerLen c (oci.buffer.drop oci.bufptr) := by
  unfold getReqLen headerLen
  rw [drop_drop]

theorem getBigReqLen_drop (c : InputConfig) (oci : ConnectionInput) :
    getBigReqLen c oci = bigLen c (oci.buffer.drop oci.bufptr) := by
  unfold getBigReqLen bigLen
  rw [drop_drop]

/-- The request that the input of a client stands at is a big one. -/
def BigRequest (c : InputConfig) (s : InputState) : Prop :=
  ∃ oci, s.input = some oci ∧ getReqLen c oci = 0 ∧ c.bigRequests = true

theorem Measured.moveHeader_iff (m : Measured c r) : r.moveHeader = true ↔ getReqLen c r.oci = 0 ∧ c.bigRequests = true := by
  have hgot := m.placed.got
  have hheader := m.header
  have hlen : getReqLen c r.oci = headerLen c (pending r.oci) := getReqLen_eq (by omega)
  rw [m.move, streamUnits_move, hlen]

/-- A request that is to be read again. -/
def putBack (r : Reading) : Reading := { r with oci := { r.oci with lenLastReq := 0 }, needHeader := false }

/-- A measured request that is there is measured again from the same place. -/
theorem Measured.measure_eq (m : Measured c r) (henough : r.needed ≤ r.gotnow) (reqLen : ℕ) :
    measure c reqLen (putBack r).oci = .go (putBack r) := by
  have hgot := m.placed.got
  have hheader := m.header
  have hnow : r.oci.bufcnt - r.oci.bufptr = r.gotnow := by omega
  have hsmall := m.small
  have hunits : requestUnits c r.oci r.gotnow = (r.reqLen, r.moveHeader, false) := by
    rw [requestUnits_placed m.placed hheader, m.units, m.move]
    refine Prod.ext rfl (Prod.ext rfl ?_)
    cases hmore : (streamUnits c (pending r.oci)).2.2 with
    | false => rfl
    | true =>
      -- eight bytes would be needed, and there are fewer
      have hbig := (streamUnits_header hmore).2
      have h8 := m.big_got henough (m.move.trans ((streamUnits_move c _).2 hbig))
      unfold streamUnits at hmore
      rw [if_pos hbig, if_neg (by rw [m.placed.length]; omega)] at hmore
      exact absurd hmore false_ne_true
  have hsame : requestUnits c { r.oci with lenLastReq := 0 } r.gotnow = requestUnits c r.oci r.gotnow := rfl
  have hneeded := m.needed
  have hignored := m.ignored
  unfold measure putBack
  dsimp only
  rw [add_zero, if_neg (by omega), hnow, if_neg (by rw [show sizeof_xReq = 4 from rfl]; omega), hsame, hunits]
  rw [if_neg (not_lt.2 hsmall), ← hneeded]

/-- A request that is there is returned without a read from the transport. -/
theorem read_of_measure (hinput : s.input = some oci) (hmeasure : measure c s.reqLen oci = .go r)
    (henough : r.needed ≤ r.gotnow) : readRequestFromClient c a s = finishRead c s.requestBuffer r := by
  have hfor : (s.input <|> a.fresh.map FreshInput.oci) = some oci := by
    rw [hinput]
    rfl
  unfold readRequestFromClient
  rw [hfor]
  dsimp only
  rw [hmeasure]
  dsimp only
  rw [fill_enough henough]

/-- **A request that is not a big one** is read again. -/
theorem Measured.again (m : Measured c r) (henough : r.needed ≤ r.gotnow) (hmove : r.moveHeader = false) (rb : ℕ)
    (a : InputAnswers) :
    ∃ s', resetCurrentRequest c (finishRead c rb r).1 = some s' ∧ readRequestFromClient c a s' = finishRead c rb r := by
  have hgot := m.placed.got
  have hheader := m.header
  have hplain : ¬ (getReqLen c r.oci = 0 ∧ c.bigRequests = true) := by
    rw [← m.moveHeader_iff, hmove]
    exact false_ne_true
  have hsame : getReqLen c { r.oci with lenLastReq := 0 } = getReqLen c r.oci := rfl
  rw [finishRead_plain m.ignored hmove rb]
  unfold resetCurrentRequest
  dsimp only
  rw [if_neg (by rw [show sizeof_xReq = 4 from rfl]; omega), hsame, if_neg hplain]
  refine ⟨_, rfl, ?_⟩
  have hignored : (putBack r).oci.ignoreBytes = 0 := m.ignored
  rw [read_of_measure (r := putBack r) rfl (m.measure_eq henough r.reqLen) henough]
  exact finishRead_plain hignored hmove r.oci.bufptr

/-- The four bytes behind a header replaced, and the header written over them: what moving a header up and down comes to. -/
theorem memWrite_mid {pre x y rest : List Byte} (h : y.length = x.length) :
    memWrite (pre ++ (x ++ rest)) pre.length y = pre ++ (y ++ rest) := by
  unfold memWrite
  rw [take_left, h, ← append_assoc pre x rest, ← length_append, drop_left, append_assoc]

/-- The buffer of a big request, its header and length in their places. -/
theorem Measured.split (m : Measured c r) (h8 : 8 ≤ r.gotnow) :
    ∃ pre hd x rest, r.oci.buffer = pre ++ (hd ++ (x ++ rest)) ∧ pre.length = r.oci.bufptr ∧ hd.length = 4 ∧ x.length = 4 := by
  have hgot := m.placed.got
  have hcount := m.placed.count
  have hcut : r.oci.buffer.drop r.oci.bufptr =
      (r.oci.buffer.drop r.oci.bufptr).take 4 ++
        (((r.oci.buffer.drop r.oci.bufptr).drop 4).take 4 ++ ((r.oci.buffer.drop r.oci.bufptr).drop 4).drop 4) := by
    rw [take_append_drop, take_append_drop]
  refine ⟨r.oci.buffer.take r.oci.bufptr, (r.oci.buffer.drop r.oci.bufptr).take 4,
    ((r.oci.buffer.drop r.oci.bufptr).drop 4).take 4, ((r.oci.buffer.drop r.oci.bufptr).drop 4).drop 4, ?_, ?_, ?_, ?_⟩
  · rw [← hcut, take_append_drop]
  · rw [length_take]
    omega
  · rw [length_take, length_drop]
    omega
  · rw [length_take, length_drop, length_drop]
    omega

/-- **A big request put back** is four bytes shorter. -/
theorem Measured.again_big (m : Measured c r) (henough : r.needed ≤ r.gotnow) (hmove : r.moveHeader = true)
    (hlen : ¬ r.reqLen < 1) (rb : ℕ) (a : InputAnswers) :
    BigRequest c (finishRead c rb r).1 ∧ ∀ s', resetCurrentRequest c (finishRead c rb r).1 = some s' →
      (readRequestFromClient c a s').2 < (finishRead c rb r).2 := by
  have h8 := m.big_got henough hmove
  have hgot := m.placed.got
  have hbig := m.moveHeader_iff.1 hmove
  obtain ⟨pre, hd, x, rest, hbuffer, hpre, hhd, hx⟩ := m.split h8
  obtain ⟨hrv, hinput, hreq⟩ := finishRead_big m.ignored hmove hlen rb
  have hheader : headerLen c (hd ++ (hd ++ rest)) = 0 := by
    have hlong : 4 ≤ hd.length := hhd.ge
    have hread := hbig.1
    rw [getReqLen_drop, hbuffer, ← hpre, drop_left, headerLen_append hlong] at hread
    rw [headerLen_append hlong]
    exact hread
  have hmoved : (moved c r).buffer = pre ++ (hd ++ (hd ++ rest)) := by
    unfold moved
    rw [hbuffer, ← hpre, drop_left, take_left' hhd, ← hhd, ← length_append, ← append_assoc,
      memWrite_mid (hhd.trans hx.symm), append_assoc]
  have hdrop : (moved c r).buffer.drop (moved c r).bufptr = hd ++ rest := by
    rw [hmoved, ← append_assoc]
    exact drop_left' (by rw [length_append, hpre, hhd]; rfl)
  have hzero : getReqLen c (moved c r) = 0 := by
    rw [getReqLen_drop, hdrop, headerLen_append hhd.ge]
    rwa [headerLen_append hhd.ge] at hheader
  refine ⟨⟨_, hinput, hzero, hbig.2⟩, fun s' hreset => ?_⟩
  -- the length that is put back is the one without the header of the big request
  have hneeded := m.needed
  have hsmall := m.small
  have hmax : MAXINT >>> 2 < 2 ^ 32 := by decide
  have hwanted : wanted c r = r.needed := if_neg (by omega)
  set v : CARD32 := if c.swapped then bswap32 (BitVec.ofNat 32 (r.reqLen - 1)) else BitVec.ofNat 32 (r.reqLen - 1) with hv
  let oci2 : ConnectionInput :=
    { (moved c r) with buffer := pre ++ (hd ++ (leBytes 4 v ++ rest)), bufptr := r.oci.bufptr, lenLastReq := 0 }
  have hs' : s'.input = some oci2 := by
    have hfew : ¬ (moved c r).bufcnt - (moved c r).bufptr < sizeof_xReq := by
      unfold moved sizeof_xReq
      dsimp only
      omega
    have hagain : getReqLen c { (moved c r) with lenLastReq := 0 } = 0 ∧ c.bigRequests = true := ⟨hzero, hbig.2⟩
    have hback : (moved c r).bufptr = r.oci.bufptr + 4 := rfl
    have hcopy : ((moved c r).buffer.drop (moved c r).bufptr).take sizeof_xReq = hd := by
      rw [hdrop]
      exact take_left' hhd
    have hwrite : memWrite (memWrite (moved c r).buffer r.oci.bufptr hd) (r.oci.bufptr + 4) (leBytes 4 v) =
        pre ++ (hd ++ (leBytes 4 v ++ rest)) := by
      have hfour : (leBytes 4 v).length = hd.length := (length_leBytes 4 v).trans hhd.symm
      have hplace : r.oci.bufptr + 4 = (pre ++ hd).length := by rw [length_append, hpre, hhd]
      rw [hmoved, hplace, ← hpre, memWrite_mid rfl, ← append_assoc, memWrite_mid hfour, append_assoc]
    unfold resetCurrentRequest at hreset
    rw [hinput, hreq] at hreset
    dsimp only at hreset
    rw [if_neg hfew, if_pos hagain, hcopy, hback, Nat.add_sub_cancel, ← hv, hwrite] at hreset
    obtain rfl := some.inj hreset
    rfl
  have hlength : bigLen c (hd ++ (leBytes 4 v ++ rest)) = r.reqLen - 1 := by
    unfold bigLen
    rw [drop_left' hhd, readCard32_leBytes, hv]
    cases c.swapped with
    | true => rw [if_pos rfl, if_pos rfl, bswap32_bswap32, BitVec.toNat_ofNat, Nat.mod_eq_of_lt (by omega)]
    | false => rw [if_neg Bool.false_ne_true, if_neg Bool.false_ne_true, BitVec.toNat_ofNat, Nat.mod_eq_of_lt (by omega)]
  have hmeasure : measure c s'.reqLen oci2 = .go ⟨oci2, r.reqLen - 1, r.gotnow, (r.reqLen - 1) <<< 2, false, true⟩ := by
    have hdrop2 : oci2.buffer.drop oci2.bufptr = hd ++ (leBytes 4 v ++ rest) := by
      rw [← hpre, drop_left]
    have hnow : oci2.bufcnt - oci2.bufptr = r.gotnow := by
      dsimp only [oci2, moved]
      omega
    have hunits : requestUnits c oci2 r.gotnow = (r.reqLen - 1, true, false) := by
      unfold requestUnits sizeof_xBigReq
      rw [getReqLen_drop, getBigReqLen_drop, hdrop2, hlength, headerLen_append hhd.ge, if_pos, if_neg (by omega)]
      rw [headerLen_append hhd.ge] at hheader
      exact ⟨hheader, hbig.2⟩
    have hignored : ¬ oci2.ignoreBytes > 0 := by
      have := m.ignored
      dsimp only [oci2, moved]
      omega
    have hnext : { oci2 with bufptr := oci2.bufptr + oci2.lenLastReq } = oci2 := rfl
    unfold measure
    rw [hnext]
    rw [if_neg hignored, hnow, if_neg (by rw [show sizeof_xReq = 4 from rfl]; omega), hunits]
    dsimp only
    rw [if_neg (by omega)]
  have hignored : oci2.ignoreBytes = 0 := m.ignored
  rw [read_of_measure hs' hmeasure (by rw [Nat.shiftLeft_eq]; dsimp only; omega), hrv, hwanted]
  by_cases hshort : r.reqLen - 1 < 1
  · have hrv2 := (finishRead_short (r := ⟨oci2, r.reqLen - 1, r.gotnow, (r.reqLen - 1) <<< 2, false, true⟩) (c := c) hignored rfl
      hshort s'.requestBuffer).1
    rw [hrv2]
    omega
  · have hrv2 := (finishRead_big (r := ⟨oci2, r.reqLen - 1, r.gotnow, (r.reqLen - 1) <<< 2, false, true⟩) (c := c) hignored rfl
      hshort s'.requestBuffer).1
    have hwanted2 : wanted c ⟨oci2, r.reqLen - 1, r.gotnow, (r.reqLen - 1) <<< 2, false, true⟩ = (r.reqLen - 1) <<< 2 := by
      apply if_neg
      dsimp only
      omega
    omega

/-- **A request that is too big** is not put back. -/
theorem again_oversize (h : s.Ok c) (hinput : s.input = some oci) (hover : Oversize c oci) :
    BigRequest c s ∧ ∀ s', resetCurrentRequest c s = some s' → (readRequestFromClient c a s').2 ≤ 0 := by
  refine ⟨⟨oci, hinput, hover.big⟩, fun s' hreset => ?_⟩
  obtain ⟨hok, oci1, oci2, h1, h2, hsame⟩ := reset_ok h hreset
  obtain rfl := some.inj (hinput.symm.trans h1)
  have hfor : inputFor a s' = some oci2 := by
    unfold inputFor
    rw [h2]
    rfl
  by_contra hpos
  have hzero := ((read_from hfor (hok oci2 h2)).2 (not_le.1 hpos)).1
  have hignored := hover.ignored
  omega

/-- The bytes of the request that was returned. -/
def requestBytes (s : InputState) : List Byte :=
  match s.input with
  | none => []
  | some oci => (oci.buffer.drop s.requestBuffer).take oci.lenLastReq

/-- What follows the request: bytes to ignore, and the bytes that are framed next. -/
def following (s : InputState) : Option (ℕ × List Byte) :=
  s.input.map fun oci => (oci.ignoreBytes, pending (nextRequest oci))

/-- After a reset the same request is read again, with the same bytes behind it. -/
def ReadAgain (c : InputConfig) (a : InputAnswers) (s : InputState) (rv : ℤ) : Prop :=
  ∃ s', resetCurrentRequest c s = some s' ∧ (readRequestFromClient c a s').2 = rv ∧
    (readRequestFromClient c a s').1.reqLen = s.reqLen ∧ requestBytes (readRequestFromClient c a s').1 = requestBytes s ∧
    following (readRequestFromClient c a s').1 = following s

/-- From an input in order, the request is read again unless it is a big one. -/
theorem readAgain_iff (h : s.Ok c) {rv : ℤ} (hread : readRequestFromClient c a s = (s1, rv)) (hrv : 0 < rv) (a2 : InputAnswers) :
    ReadAgain c a2 s1 rv ↔ ¬ BigRequest c s1 := by
  cases hinput : inputFor a s with
  | none =>
    rw [read_none hinput] at hread
    obtain ⟨-, rfl⟩ := Prod.mk.inj hread
    exact absurd hrv (by decide)
  | some oci =>
    have hspec := (read_from hinput (h.inputFor hinput).1).2
    rw [hread] at hspec
    obtain ⟨-, ⟨oci1, hs1, hok, hover⟩ | ⟨r, m, henough, hfinish⟩⟩ := hspec hrv
    · -- too big: its bytes are ignored
      have hs1ok : s1.Ok c := by
        intro oci' hoci'
        obtain rfl := some.inj (hs1.symm.trans hoci')
        exact hok
      obtain ⟨hbig, hagain⟩ := again_oversize (a := a2) hs1ok hs1 hover
      refine iff_of_false ?_ (not_not.2 hbig)
      rintro ⟨s', hreset, hsame, -⟩
      have hle := hagain s' hreset
      omega
    · have hres : finishRead c s.requestBuffer r = (s1, rv) := hfinish.symm
      cases hmove : r.moveHeader with
      | false =>
        obtain ⟨s', hreset, hagain⟩ := m.again henough hmove s.requestBuffer a2
        rw [hres] at hreset hagain
        have hplain : ¬ BigRequest c s1 := by
          rintro ⟨oci1, hs1, hbig⟩
          have hs1' : s1.input = some { r.oci with lenLastReq := wanted c r } := by
            rw [← (Prod.mk.inj (hres.symm.trans (finishRead_plain m.ignored hmove s.requestBuffer))).1.symm]
          obtain rfl := some.inj (hs1'.symm.trans hs1)
          exact absurd (m.moveHeader_iff.2 hbig) (by rw [hmove]; exact false_ne_true)
        refine iff_of_true ⟨s', hreset, ?_⟩ hplain
        rw [hagain]
        exact ⟨rfl, rfl, rfl, rfl⟩
      | true =>
        by_cases hlen : r.reqLen < 1
        · have hshort := (finishRead_short (c := c) m.ignored hmove hlen s.requestBuffer).1
          rw [hres] at hshort
          omega
        · obtain ⟨hbig, hagain⟩ := m.again_big henough hmove hlen s.requestBuffer a2
          rw [hres] at hbig hagain
          refine iff_of_false ?_ (not_not.2 hbig)
          rintro ⟨s', hreset, hsame, -⟩
          have hlt := hagain s' hreset
          omega

end Reset

/-! ### Runs -/

section Runs

variable {k : InputClient} {op : InputOp} {ops : List InputOp} {s : InputState}

/-- The input of a client is in order, as long as there is one. -/
def InputClient.Ok (k : InputClient) : Prop := ∀ s, k.state = some s → s.Ok k.config

/-- Where a client is read from, a header that its buffer holds does not announce a length that
overflows an `int`. -/
def Orderly (k : InputClient) : InputOp → Prop
  | .read _ => ∀ oci ∈ k.state.bind InputState.input, Announces k.config oci
  | _ => True

instance (c : InputConfig) (oci : ConnectionInput) : Decidable (Announces c oci) :=
  inferInstanceAs (Decidable (_ → _ → _))

instance (k : InputClient) : (op : InputOp) → Decidable (Orderly k op)
  | .read _ => inferInstanceAs (Decidable (∀ oci ∈ k.state.bind InputState.input, Announces k.config oci))
  | .reset | .handle _ _ | .setSwapped _ | .enableBigRequests | .others _ => isTrue trivial

variable {c : InputConfig}

theorem read_ok {a : InputAnswers} (h : s.Ok c) (hall : ∀ oci, s.input = some oci → Announces c oci) :
    (readRequestFromClient c a s).1.Ok c := by
  cases hinput : inputFor a s with
  | none =>
    rw [read_none hinput]
    intro oci hoci
    exact absurd hoci (by simp)
  | some oci =>
    obtain ⟨hok, hannounces⟩ := h.inputFor hinput
    exact (read_from hinput hok).1 (hannounces hall)

theorem handle_ok (off : ℕ) (bs : List Byte) (h : s.Ok c) : (handleRequest off bs s).Ok c := by
  intro oci' hoci'
  obtain ⟨oci, hs, rfl⟩ := map_eq_some_iff.1 hoci'
  have hok := h oci hs
  by_cases hfits : off + bs.length ≤ oci.buffer.length
  · rw [if_pos hfits]
    have hlen : (memWrite oci.buffer off bs).length = oci.buffer.length := length_memWrite hfits
    exact ⟨hok.last, hok.count.trans_eq hlen.symm, hlen.trans_le hok.size⟩
  · rw [if_neg hfits]
    exact hok

theorem others_ok (available : Bool) (h : s.Ok c) : (readOthers available s).Ok c := by
  intro oci hoci
  unfold readOthers at hoci
  by_cases hthis : s.available = .this
  · rw [if_pos hthis] at hoci
    exact absurd hoci (by simp)
  · rw [if_neg hthis] at hoci
    exact h oci hoci

/-- **One step** keeps the input in order. -/
theorem inputStep_ok (h : k.Ok) (horderly : Orderly k op) : (inputStep k op).Ok := by
  intro s' hs'
  cases op with
  | read a =>
    obtain ⟨s, hs, rfl⟩ := map_eq_some_iff.1 hs'
    refine read_ok (h s hs) fun oci hoci => horderly oci ?_
    rw [hs]
    exact hoci
  | reset =>
    obtain ⟨s, hs, hreset⟩ := bind_eq_some_iff.1 hs'
    exact (reset_ok (h s hs) hreset).1
  | handle off bs =>
    obtain ⟨s, hs, rfl⟩ := map_eq_some_iff.1 hs'
    exact handle_ok off bs (h s hs)
  | setSwapped swapped =>
    intro oci hoci
    have hok := h s' hs' oci hoci
    exact ⟨hok.last, hok.count, hok.size⟩
  | enableBigRequests =>
    intro oci hoci
    have hok := h s' hs' oci hoci
    exact ⟨hok.last, hok.count, hok.size⟩
  | others available =>
    obtain ⟨s, hs, rfl⟩ := map_eq_some_iff.1 hs'
    exact others_ok available (h s hs)

/-- A request made up keeps the input in order. -/
theorem insertFakeRequest_ok {fresh : Option FreshInput} {larger : Option (ℕ → Byte)} {data : List Byte}
    {oci : ConnectionInput} (hinput : (s.input <|> fresh.map FreshInput.oci) = some oci) (h : oci.Ok c)
    (hroom : oci.bufcnt - (oci.bufptr + oci.lenLastReq) + data.length ≤ c.maxBigRequestSize <<< 2) :
    (insertFakeRequest fresh larger data s).1.Ok c := by
  have hlast := h.last
  have hcount := h.count
  have hsize := h.size
  unfold insertFakeRequest
  rw [hinput]
  dsimp only
  generalize hgot : oci.bufcnt - (oci.bufptr + oci.lenLastReq) = gotnow at hroom ⊢
  cases hgrow : (if gotnow + data.length > oci.buffer.length then grow larger oci.buffer (gotnow + data.length)
    else some oci.buffer) with
  | none =>
    intro oci' hoci'
    obtain rfl := some.inj hoci'
    exact ⟨hlast, hcount, hsize⟩
  | some ibuf =>
    have hlen : gotnow + data.length ≤ ibuf.length ∧ oci.bufcnt ≤ ibuf.length ∧ ibuf.length ≤ c.maxBigRequestSize <<< 2 := by
      by_cases hlarge : gotnow + data.length > oci.buffer.length
      · rw [if_pos hlarge] at hgrow
        have hibuf := (grow_some hgrow).1
        omega
      · rw [if_neg hlarge] at hgrow
        obtain rfl := some.inj hgrow
        omega
    intro oci' hoci'
    obtain rfl := some.inj hoci'
    generalize hptr : oci.bufptr + oci.lenLastReq = bufptr at *
    have hmove : ∀ buffer : List Byte, (buffer = ibuf ∨ buffer = memWrite ibuf (bufptr + (data.length - bufptr))
        ((ibuf.drop bufptr).take gotnow)) → buffer.length = ibuf.length := by
      rintro buffer (rfl | rfl)
      · rfl
      · apply length_memWrite
        have htake : ((ibuf.drop bufptr).take gotnow).length ≤ gotnow := length_take_le _ _
        omega
    have hbuffer := hmove (if data.length - bufptr > 0 ∧ gotnow > 0 then
        memWrite ibuf (bufptr + (data.length - bufptr)) ((ibuf.drop bufptr).take gotnow) else ibuf)
      (by split <;> simp)
    generalize (if data.length - bufptr > 0 ∧ gotnow > 0 then
        memWrite ibuf (bufptr + (data.length - bufptr)) ((ibuf.drop bufptr).take gotnow) else ibuf) = buffer at hbuffer ⊢
    have hwrite : (memWrite buffer (bufptr + (data.length - bufptr) - data.length) data).length = ibuf.length := by
      rw [length_memWrite (by omega), hbuffer]
    refine ⟨?_, ?_, ?_⟩
    · dsimp only
      omega
    · dsimp only
      omega
    · dsimp only
      omega

/-- **A client** starts with its input in order. -/
theorem nextAvailableClient_ok (c : InputConfig) (fresh : Option FreshInput) (larger : Option (ℕ → Byte)) (data : BitVec 32) :
    (nextAvailableClient c fresh larger data).Ok := by
  intro s hs
  obtain rfl := some.inj hs
  cases fresh with
  | none =>
    intro oci hoci
    exact absurd hoci (by simp [insertFakeRequest])
  | some f =>
    have hmax := c.core_le
    have hused := f.used
    have hfour : (leBytes 4 data).length = 4 := length_leBytes 4 data
    have hfor : ((⟨none, 0, 0, .none⟩ : InputState).input <|> (some f).map FreshInput.oci) = some f.oci := rfl
    apply insertFakeRequest_ok hfor (f.ok c)
    omega

/-- **A request put back.** In every run of a client whose reads meet no header in the buffer that
announces more than an `int` can hold, and for every request that is returned: after
`ResetCurrentRequest` the same request is read again, with the same bytes behind it, exactly if it is
not a big one. -/
theorem reset_request_iff (config : InputConfig) (fresh : Option FreshInput) (larger : Option (ℕ → Byte)) (data : BitVec 32)
    (h : AllSteps inputStep Orderly (nextAvailableClient config fresh larger data) ops)
    (hrun : run inputStep (nextAvailableClient config fresh larger data) ops = k) (hs : k.state = some s)
    (a a2 : InputAnswers) {s1 : InputState} {rv : ℤ} (hread : readRequestFromClient k.config a s = (s1, rv)) (hrv : 0 < rv) :
    ReadAgain k.config a2 s1 rv ↔ ¬ BigRequest k.config s1 := by
  have hok : k.Ok := by
    rw [← hrun]
    apply h.invariant (P := InputClient.Ok)
    · intro k op horderly hk
      exact inputStep_ok hk horderly
    · exact nextAvailableClient_ok config fresh larger data
  exact readAgain_iff (hok s hs) hread hrv a2

/-- `AllocateInputBuffer`, its memory cleared. -/
def allocateInputBuffer : FreshInput where
  oci := ⟨List.replicate BUFSIZE 0, 0, 0, 0, 0⟩
  used := rfl
  fits := Nat.zero_le _
  small := by rw [List.length_replicate]; decide
  none_ignored := rfl

/-- A client that has set up its connection, and the `NoOperation` it sends. -/
theorem reset_request_iff_one : ∃ s s1,
    (run inputStep (nextAvailableClient ⟨false, false, 4194303, by decide⟩ (some allocateInputBuffer) none 0x00040001)
      [.read ⟨none, none, false, true, .data [108, 0, 11, 0, 0, 0, 0, 0, 0, 0, 0, 0]⟩]).state = some s ∧
    readRequestFromClient ⟨false, false, 4194303, by decide⟩ ⟨none, none, false, true, .data [127, 0, 1, 0]⟩ s = (s1, 4) ∧
    (ReadAgain ⟨false, false, 4194303, by decide⟩ ⟨none, none, false, true, .wouldblock⟩ s1 4 ↔
      ¬ BigRequest ⟨false, false, 4194303, by decide⟩ s1) := by
  have hev : ((run inputStep (nextAvailableClient ⟨false, false, 4194303, by decide⟩ (some allocateInputBuffer) none 0x00040001)
      [.read ⟨none, none, false, true, .data [108, 0, 11, 0, 0, 0, 0, 0, 0, 0, 0, 0]⟩]).state.map fun s =>
      (readRequestFromClient ⟨false, false, 4194303, by decide⟩ ⟨none, none, false, true, .data [127, 0, 1, 0]⟩ s).2) = some 4 := by
    decide +kernel
  obtain ⟨s, hs, hrv⟩ := map_eq_some_iff.1 hev
  refine ⟨s, _, hs, Prod.ext rfl hrv, ?_⟩
  have horderly : AllSteps inputStep Orderly
      (nextAvailableClient ⟨false, false, 4194303, by decide⟩ (some allocateInputBuffer) none 0x00040001)
      [.read ⟨none, none, false, true, .data [108, 0, 11, 0, 0, 0, 0, 0, 0, 0, 0, 0]⟩] := ⟨by decide +kernel, trivial⟩
  exact reset_request_iff _ _ _ _ horderly rfl hs _ _ (Prod.ext rfl hrv) (by decide)

/-- **A big request is not put back.** The request of twelve bytes is read again as one of eight. -/
theorem big_request_shortened : ∃ s s1,
    (run inputStep (nextAvailableClient ⟨false, false, 4194303, by decide⟩ (some allocateInputBuffer) none 0x00040001)
      [.read ⟨none, none, false, true, .data [108, 0, 11, 0, 0, 0, 0, 0, 0, 0, 0, 0]⟩,
        .read ⟨none, none, false, true, .data [133, 0, 1, 0]⟩, .enableBigRequests]).state = some s ∧
    readRequestFromClient ⟨false, true, 4194303, by decide⟩
      ⟨none, none, false, true, .data [127, 0, 0, 0, 3, 0, 0, 0, 1, 2, 3, 4]⟩ s = (s1, 12) ∧
    ¬ ReadAgain ⟨false, true, 4194303, by decide⟩ ⟨none, none, false, true, .wouldblock⟩ s1 12 := by
  have hev : ((run inputStep (nextAvailableClient ⟨false, false, 4194303, by decide⟩ (some allocateInputBuffer) none 0x00040001)
      [.read ⟨none, none, false, true, .data [108, 0, 11, 0, 0, 0, 0, 0, 0, 0, 0, 0]⟩,
        .read ⟨none, none, false, true, .data [133, 0, 1, 0]⟩, .enableBigRequests]).state.map fun s =>
      let read := readRequestFromClient ⟨false, true, 4194303, by decide⟩
        ⟨none, none, false, true, .data [127, 0, 0, 0, 3, 0, 0, 0, 1, 2, 3, 4]⟩ s
      (read.2, (resetCurrentRequest ⟨false, true, 4194303, by decide⟩ read.1).map fun s' =>
        (readRequestFromClient ⟨false, true, 4194303, by decide⟩ ⟨none, none, false, true, .wouldblock⟩ s').2)) = some (12, some 8) := by
    decide +kernel
  obtain ⟨s, hs, hread⟩ := map_eq_some_iff.1 hev
  obtain ⟨hrv, hreset⟩ := Prod.mk.inj hread
  refine ⟨s, _, hs, Prod.ext rfl hrv, ?_⟩
  rintro ⟨s', hs', hagain, -⟩
  rw [hs'] at hreset
  have hlen := some.inj hreset
  dsimp only at hlen
  omega

end Runs

end Xenia.Os
