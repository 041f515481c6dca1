import Xenia.Os.Output

/-!
# Output ordering

What the transport of a client has accepted, followed by what its output buffer holds, is
the concatenation of the padded messages written to the client, in call order
(`output_order`). The invariant is `OutInv`: buffers are well formed, recycled buffers are
empty, and a client with bytes left is registered on the pending list. While a call works
on a client that client is exempt from the last two; every operation has one lemma that
says how it keeps the invariant.

The `int` sum in `WriteToClient` is the one place that can go wrong: past `2 ^ 31` it
turns negative and the message is copied over the end of the buffer
(`output_order_fails`), so the result holds for the runs in which it does not.
-/

namespace Xenia.Os

open Xenia.Lib List Function Option

/-! ### Buffers -/

structure BufOk (o : ConnectionOutput) : Prop where
  length : (o.buf.length : ℤ) = o.size
  nonneg : 0 ≤ o.count
  le : o.count ≤ o.size
  small : o.size < 2 ^ 31

/-- The bytes a buffer holds. -/
def ConnectionOutput.held (o : ConnectionOutput) : List Byte := o.buf.take o.count.toNat

def OutClient.held (c : OutClient) : List Byte := c.output.elim [] ConnectionOutput.held

variable {o : ConnectionOutput}

theorem OutClient.held_some {c : OutClient} (h : c.output = some o) :
    c.held = o.held := by rw [OutClient.held, h, elim_some]

theorem OutClient.held_none {c : OutClient} (h : c.output = none) : c.held = [] := by
  rw [OutClient.held, h, elim_none]

theorem bufOk_allocate : BufOk allocateOutputBuffer :=
  ⟨congrArg Nat.cast length_replicate, le_rfl, Int.natCast_nonneg _, by
    unfold allocateOutputBuffer BUFSIZE; norm_num⟩

theorem held_empty (h : o.count = 0) : o.held = [] := by
  simp [ConnectionOutput.held, h]

/-- What fits is appended to what is held. -/
theorem BufOk.put (h : BufOk o) (bs : List Byte) (hfit : o.count + bs.length ≤ o.size) :
    BufOk (o.put bs) ∧ (o.put bs).held = o.held ++ bs ∧ (o.put bs).count = o.count + bs.length ∧
      (o.put bs).size = o.size := by
  have hlen := h.length; have hnn := h.nonneg; have hsm := h.small
  have hcount : (o.put bs).count = o.count + bs.length := wrapInt_eq (by omega) (by omega)
  refine ⟨⟨?_, by omega, by rw [hcount]; exact hfit, hsm⟩, ?_, hcount, rfl⟩
  · show ((memWrite o.buf o.count.toNat bs).length : ℤ) = o.size
    rw [length_memWrite (by omega), hlen]
  · unfold ConnectionOutput.held
    rw [hcount, show (o.count + bs.length).toNat = o.count.toNat + bs.length by omega]
    exact take_memWrite (by omega)

/-- A message and its padding, put one after the other. -/
theorem BufOk.put_padded (h : BufOk o) {bs : List Byte} (hfit : o.count + (bs.length + padLen bs.length : ℕ) ≤ o.size) :
    BufOk ((o.put bs).put (replicate (padLen bs.length) 0)) ∧
      ((o.put bs).put (replicate (padLen bs.length) 0)).held = o.held ++ padded bs := by
  obtain ⟨h1, hh1, hc1, hs1⟩ := h.put bs (by omega)
  obtain ⟨h2, hh2, -, -⟩ := h1.put (replicate (padLen bs.length) 0) (by
    rw [length_replicate]; omega)
  exact ⟨h2, by rw [hh2, hh1, padded, append_assoc]⟩

/-- After a partial write the rest stands at the start of the buffer. -/
theorem BufOk.keepRest (h : BufOk o) {w n : ℕ} (hwn : (w + n : ℕ) = o.count) :
    BufOk (o.keepRest w n) ∧ (o.keepRest w n).held = (o.buf.drop w).take n ∧
      (o.keepRest w n).count = n := by
  have hlen := h.length; have hle := h.le; have hsm := h.small
  have hn : wrapInt (n : ℤ) = n := wrapInt_eq (by omega) (by omega)
  have hsize : toSize (o.count - w) = n := by
    rw [show o.count - w = (n : ℤ) by omega]; exact toSize_natCast (by omega)
  have hrest : ((o.buf.drop w).take n).length = n := by simp; omega
  unfold ConnectionOutput.keepRest ConnectionOutput.held
  by_cases hw : 0 < w
  · simp only [hw, hn, hsize]
    refine ⟨⟨?_, by simp, by simp; omega, hsm⟩, ?_⟩
    · show ((memWrite o.buf 0 _).length : ℤ) = o.size
      rw [length_memWrite (by omega), hlen]
    · have htake : (memWrite o.buf 0 ((o.buf.drop w).take n)).take _ = _ :=
        take_memWrite (Nat.zero_le _)
      simpa [hrest] using htake
  · obtain rfl : w = 0 := by omega
    simp only [hw, if_false, hn, Int.toNat_natCast, drop_zero, and_true]
    exact ⟨hlen, by simp, by simp; omega, hsm⟩

/-! ### The write loop -/

/-- The loop sends a prefix of what it was given and reports how much. -/
theorem writeLoop_spec (buf : List Byte) (rs : List WriteResult) (w n : ℕ) (wire : List Byte) :
    (writeLoop buf rs w n wire).written + (writeLoop buf rs w n wire).notWritten = w + n ∧
    (writeLoop buf rs w n wire).wire ++
        (buf.drop (writeLoop buf rs w n wire).written).take (writeLoop buf rs w n wire).notWritten =
      wire ++ (buf.drop w).take n ∧
    ((writeLoop buf rs w n wire).stop = .done → (writeLoop buf rs w n wire).notWritten = 0) := by
  induction rs generalizing w n wire with
  | nil => refine ⟨rfl, rfl, fun h => ?_⟩; simpa [writeLoop] using h
  | cons r rs ih =>
    unfold writeLoop
    split
    · exact ⟨rfl, rfl, fun _ => ‹_›⟩
    · cases r with
      | wouldBlock => exact ⟨rfl, rfl, by simp⟩
      | error => exact ⟨rfl, rfl, by simp⟩
      | wrote k =>
        obtain ⟨h1, h2, h3⟩ := ih (w + min k n) (n - min k n)
          (wire ++ (buf.drop w).take (min k n))
        refine ⟨h1.trans (by omega), h2.trans ?_, h3⟩
        rw [append_assoc, ← drop_drop, ← take_add]
        congr 2; omega

/-! ### The invariant -/

/-- The state between two calls (`busy = none`), or while a call works on a client, whose
order of bytes and place on the pending list are then not yet restored. -/
structure OutInv (gone : ℕ → Bool) (busy : Option ℕ) (sent : ℕ → List Byte) (s : OutState) :
    Prop where
  free : ∀ o ∈ s.freeOutputs, BufOk o ∧ o.count = 0
  bufs : ∀ c o, (s.clients c).output = some o → BufOk o
  isGone : ∀ c, (s.clients c).clientGone = gone c
  idle : ∀ c, gone c = true → (s.clients c).output = none
  ring : ∃ xs, s.outputPending.Registry none xs
  order : ∀ c, some c ≠ busy → (s.clients c).transConn = true →
    (s.clients c).wire ++ (s.clients c).held = sent c
  pending : ∀ c, some c ≠ busy → (s.clients c).held ≠ [] →
    s.outputPending.isEmpty (some c) = false

namespace OutState

variable (s : OutState) (who : ℕ) (f : OutClient → OutClient)

@[simp] theorem modify_self : (s.modify who f).clients who = f (s.clients who) :=
  update_self ..

@[simp] theorem modify_of_ne {c : ℕ} (h : c ≠ who) : (s.modify who f).clients c = s.clients c :=
  update_of_ne h ..

end OutState

@[simp] theorem outputPendingMark_clients (who : ℕ) (s : OutState) :
    (outputPendingMark who s).clients = s.clients := by
  unfold outputPendingMark; split <;> rfl

section Inv

variable {gone : ℕ → Bool} {who : ℕ} {sent : ℕ → List Byte} {s : OutState}

theorem OutInv.start (isLocal gone : ℕ → Bool) :
    OutInv gone none (fun _ => []) (outStart isLocal gone) where
  free := by simp [outStart]
  bufs := by simp [outStart]
  isGone := by simp [outStart]
  idle := by simp [outStart]
  ring := ⟨[], .congr_nil none (fun _ => rfl) fun _ => rfl⟩
  order := by simp [outStart, OutClient.held]
  pending := by simp [outStart, OutClient.held]

/-- A call begins to work on a client. -/
theorem OutInv.enter (h : OutInv gone none sent s) (who : ℕ) : OutInv gone (some who) sent s :=
  { h with order := fun c _ => h.order c (by simp), pending := fun c _ => h.pending c (by simp) }

/-- The call has restored the client, to which it has sent `m` in all. -/
theorem OutInv.leave (h : OutInv gone (some who) sent s) {m : List Byte}
    (ho : (s.clients who).transConn = true → (s.clients who).wire ++ (s.clients who).held = m)
    (hp : (s.clients who).held ≠ [] → s.outputPending.isEmpty (some who) = false) :
    OutInv gone none (update sent who m) s := by
  refine { h with order := fun c _ hc => ?_, pending := fun c _ hc => ?_ }
  · by_cases hw : c = who
    · subst hw; rw [update_self]; exact ho hc
    · rw [update_of_ne hw]; exact h.order c (by simpa using hw) hc
  · by_cases hw : c = who
    · subst hw; exact hp hc
    · exact h.pending c (by simpa using hw) hc

/-- Nothing is promised about the bytes of an aborted client. -/
theorem OutInv.aborted (h : OutInv gone none sent s) (hc : (s.clients who).transConn = false)
    (m : List Byte) : OutInv gone none (update sent who m) s :=
  (h.enter who).leave (by simp [hc]) fun hh => h.pending who (by simp) hh

section

variable (h : OutInv gone (some who) sent s)
include h

theorem OutInv.modify {f : OutClient → OutClient} (hgone : (f (s.clients who)).clientGone = (s.clients who).clientGone)
    (hbuf : ∀ o, (f (s.clients who)).output = some o → BufOk o ∧ gone who = false) :
    OutInv gone (some who) sent (s.modify who f) := by
  have hne : ∀ c, some c ≠ some who → (s.modify who f).clients c = s.clients c :=
    fun c hc => s.modify_of_ne who f (by simpa using hc)
  refine ⟨h.free, fun c o ho => ?_, fun c => ?_, fun c hg => ?_, h.ring,
    fun c hc => ?_, fun c hc => ?_⟩
  · by_cases hw : c = who
    · subst hw; exact (hbuf o (by simpa using ho)).1
    · exact h.bufs c o (by rwa [s.modify_of_ne who f hw] at ho)
  · by_cases hw : c = who
    · subst hw; rw [s.modify_self, hgone]; exact h.isGone c
    · rw [s.modify_of_ne who f hw]; exact h.isGone c
  · by_cases hw : c = who
    · subst hw
      rw [s.modify_self]
      cases ho : (f (s.clients c)).output with
      | none => rfl
      | some o => have := (hbuf o ho).2; simp [hg] at this
    · rw [s.modify_of_ne who f hw]; exact h.idle c hg
  · rw [hne c hc]; exact h.order c hc
  · rw [hne c hc]; exact h.pending c hc

theorem OutInv.mark :
    OutInv gone (some who) sent (outputPendingMark who s) := by
  unfold outputPendingMark
  split
  · rename_i hcond
    rw [Bool.and_eq_true] at hcond
    obtain ⟨xs, hxs⟩ := h.ring
    have hwho : some who ∉ xs := (hxs.isEmpty_iff (by simp)).1 hcond.2
    have hxs' := hxs.append (e := some who) (by simp [hwho])
    refine { h with ring := ⟨_, hxs'⟩, pending := fun c hc hh => ?_ }
    have hold := h.pending c hc hh
    rw [← Bool.not_eq_true, hxs.isEmpty_iff (by simp), not_not] at hold
    rw [← Bool.not_eq_true, hxs'.isEmpty_iff (by simp), not_not]
    exact mem_append_left _ hold
  · exact h

/-- A client that is not gone is on the list once it is marked. -/
theorem OutInv.marked (hg : gone who = false) :
    (outputPendingMark who s).outputPending.isEmpty (some who) = false := by
  unfold outputPendingMark
  rw [h.isGone who, hg]
  obtain ⟨xs, hxs⟩ := h.ring
  cases hemp : s.outputPending.isEmpty (some who) with
  | false => simp [hemp]
  | true =>
    have hwho : some who ∉ xs := (hxs.isEmpty_iff (by simp)).1 hemp
    have hxs' := hxs.append (e := some who) (by simp [hwho])
    simp only [Bool.not_false, Bool.and_self, if_true]
    rw [← Bool.not_eq_true, hxs'.isEmpty_iff (by simp)]
    simp

theorem OutInv.clear :
    OutInv gone (some who) sent (outputPendingClear who s) := by
  obtain ⟨xs, hxs⟩ := h.ring
  obtain ⟨ys, hys, hmem⟩ := hxs.del (e := some who) (by simp)
  refine { h with ring := ⟨ys, hys⟩, pending := fun c hc hh => ?_ }
  have hold := h.pending c hc hh
  rw [← Bool.not_eq_true, hxs.isEmpty_iff (by simp), not_not] at hold
  show (s.outputPending.del (some who)).isEmpty (some c) = false
  rw [← Bool.not_eq_true, hys.isEmpty_iff (by simp), not_not]
  exact (hmem _).2 ⟨hold, hc⟩

end

/-! ### The operations -/

variable {o : ConnectionOutput}

section

variable (h : OutInv gone (some who) sent s)
include h

theorem OutInv.setOutput (hg : gone who = false) (ho : BufOk o) : OutInv gone (some who) sent (s.setOutput who (some o)) :=
  h.modify rfl fun o' ho' => by cases ho'; exact ⟨ho, hg⟩

theorem OutInv.unsetOutput :
    OutInv gone (some who) sent (s.setOutput who none) := h.modify rfl fun _ ho => nomatch ho

theorem OutInv.abort :
    OutInv gone (some who) sent (dixMarkClientException who (abortClient who s)) ∧
    ((dixMarkClientException who (abortClient who s)).clients who).transConn = false ∧
    ((dixMarkClientException who (abortClient who s)).clients who).output =
      (s.clients who).output := by
  have hout : ∀ o, (s.clients who).output = some o → BufOk o ∧ gone who = false := fun o ho =>
    ⟨h.bufs who o ho, by
      cases hg : gone who with
      | false => rfl
      | true => rw [h.idle who hg] at ho; cases ho⟩
  unfold dixMarkClientException abortClient
  split
  · refine ⟨OutInv.modify (OutInv.modify h rfl hout) rfl ?_, ?_, ?_⟩
    · simpa using hout
    · simp
    · simp
  · rename_i hc
    refine ⟨OutInv.modify h rfl hout, ?_, ?_⟩
    · simpa using hc
    · simp

theorem flushAbort_inv (hg : gone who = false) (ho : BufOk o) (m : List Byte) :
    OutInv gone none (update sent who m) (flushAbort who o s).1 ∧ ((flushAbort who o s).1.clients who).transConn = false ∧
    ((flushAbort who o s).1.clients who).held = [] := by
  obtain ⟨h1, h2, -⟩ := h.abort
  have hok : BufOk { o with count := 0 } := ⟨ho.length, le_rfl, ho.nonneg.trans ho.le, ho.small⟩
  have h3 := h1.setOutput hg hok
  have hheld : ((flushAbort who o s).1.clients who).held = [] := by
    simp [flushAbort, OutState.setOutput, OutClient.held, held_empty]
  have hconn : ((flushAbort who o s).1.clients who).transConn = false := by
    simpa [flushAbort, OutState.setOutput] using h2
  exact ⟨h3.leave (fun hc => absurd (hconn.symm.trans hc) (by simp)) fun hh => absurd hheld hh,
    hconn, hheld⟩

end

/-- The client a call works on, with the buffer it works in: `m` is what was sent to it. -/
structure Working (gone : ℕ → Bool) (who : ℕ) (sent : ℕ → List Byte) (m : List Byte)
    (oco : ConnectionOutput) (s : OutState) : Prop where
  inv : OutInv gone (some who) sent s
  live : gone who = false
  out : (s.clients who).output = some oco
  mine : (s.clients who).transConn = true → (s.clients who).wire ++ oco.held = m

theorem Working.ok {m : List Byte} {oco : ConnectionOutput} (h : Working gone who sent m oco s) :
    BufOk oco := h.inv.bufs who oco h.out

/-- What a flush must establish: the order restored with `m` sent in all, failure only by
aborting the client, and no more than `bound` bytes left in the buffer. -/
def Flushed (gone : ℕ → Bool) (who : ℕ) (sent : ℕ → List Byte) (m : List Byte) (bound : ℤ)
    (r : OutState × ℤ) : Prop :=
  OutInv gone none (Function.update sent who m) r.1 ∧
    (r.2 = -1 → (r.1.clients who).transConn = false) ∧
    ∀ o, (r.1.clients who).output = some o → o.count ≤ bound

variable {m : List Byte} {oco : ConnectionOutput}

section

variable (h : Working gone who sent m oco s)
include h

theorem Working.setWire (w : List Byte) :
    OutInv gone (some who) sent (s.setWire who w) :=
  h.inv.modify rfl fun o ho => by rw [h.out] at ho; cases ho; exact ⟨h.ok, h.live⟩

theorem flushed_abort (w : List Byte) :
    Flushed gone who sent m oco.count (flushAbort who oco (s.setWire who w)) := by
  obtain ⟨h1, h2, -⟩ := flushAbort_inv (h.setWire w) h.live h.ok m
  refine ⟨h1, fun _ => h2, fun o ho => ?_⟩
  simp only [flushAbort, OutState.setOutput, OutState.modify_self, some.injEq] at ho
  rw [← ho]; exact h.ok.nonneg

/-- Nothing to write. -/
theorem flushed_idle (hc : oco.count = 0) :
    Flushed gone who sent m oco.count (s, 0) := by
  have hheld : (s.clients who).held = [] := by simp [OutClient.held, h.out, held_empty hc]
  refine ⟨h.inv.leave (fun hconn => ?_) fun hh => absurd hheld hh, by simp,
    fun o ho => ?_⟩
  · rw [hheld, ← h.mine hconn, held_empty hc]
  · rw [h.out] at ho; cases ho; exact le_rfl

theorem flushed_blocked {w : List Byte} {k n : ℕ} (hkn : (k + n : ℕ) = oco.count) (hw : w ++ (oco.buf.drop k).take n = m) :
    Flushed gone who sent m oco.count
      ((outputPendingMark who (s.setWire who w)).setOutput who (some (oco.keepRest k n)), 0) := by
  obtain ⟨hk, hkheld, hkcount⟩ := h.ok.keepRest hkn
  generalize oco.keepRest k n = o' at hk hkheld hkcount ⊢
  have hmark := ((h.setWire w).mark).setOutput h.live hk
  have hcl : (outputPendingMark who (s.setWire who w)).clients who =
      { s.clients who with wire := w } := by
    rw [outputPendingMark_clients, OutState.setWire, OutState.modify_self]
  refine ⟨hmark.leave (fun _ => ?_) fun _ => (h.setWire w).marked h.live, by simp,
    fun o ho => ?_⟩
  · rw [OutState.setOutput, OutState.modify_self, hcl]
    rw [OutClient.held_some (o := o') rfl, hkheld, hw]
  · simp only [OutState.setOutput, OutState.modify_self, some.injEq] at ho
    rw [← ho]; omega

theorem flushed_done :
    Flushed gone who sent m oco.count
      ((outputPendingClear who (s.setWire who m)).recycle who oco, 0) := by
  have hclear := (h.setWire m).clear
  have hunset : ∀ s' : OutState, OutInv gone (some who) sent s' →
      s'.clients = (s.setWire who m).clients →
      Flushed gone who sent m oco.count (s'.setOutput who none, 0) := by
    intro s' hs' hcl
    have hheld : ((s'.setOutput who none).clients who).held = [] := by
      simp [OutState.setOutput, OutClient.held]
    refine ⟨hs'.unsetOutput.leave (fun _ => ?_) fun hh => absurd hheld hh, by simp,
      fun o ho => ?_⟩
    · rw [hheld]; simp [OutState.setOutput, hcl, OutState.setWire]
    · simp [OutState.setOutput] at ho
  unfold OutState.recycle
  split
  · exact hunset _ hclear rfl
  · refine hunset _ { hclear with free := fun o ho => ?_ } rfl
    rcases mem_cons.1 ho with rfl | ho
    · exact ⟨⟨h.ok.length, le_rfl, h.ok.nonneg.trans h.ok.le, h.ok.small⟩, rfl⟩
    · exact h.inv.free o ho

end

/-- **A flush** keeps the order and ends with the client registered if bytes remain. -/
theorem flushClient_spec (rs : List WriteResult) (h : Working gone who sent m oco s) :
    Flushed gone who sent m oco.count (flushClient rs who s) := by
  have hcount : (toSize oco.count : ℤ) = oco.count :=
    toSize_eq h.ok.nonneg (h.ok.le.trans_lt (h.ok.small.trans (by norm_num)))
  unfold flushClient
  rw [h.out]
  dsimp only
  split
  · -- no transport: the client can only be aborted
    have hs : s.setWire who (s.clients who).wire = s := by
      simp [OutState.setWire, OutState.modify]
    exact hs ▸ flushed_abort h (s.clients who).wire
  split
  · exact flushed_idle h (by omega)
  · rename_i hconn _
    have hmine := h.mine (by simpa using hconn)
    obtain ⟨hsum, hwire, hdone⟩ := writeLoop_spec oco.buf rs 0 (toSize oco.count) (s.clients who).wire
    generalize writeLoop oco.buf rs 0 (toSize oco.count) (s.clients who).wire = r at hsum hwire hdone ⊢
    have hheld : oco.held = oco.buf.take (toSize oco.count) := by
      unfold ConnectionOutput.held; congr 1; omega
    rw [drop_zero, ← hheld, hmine] at hwire
    cases hstop : r.stop with
    | failed => exact flushed_abort h r.wire
    | blocked => exact flushed_blocked h (by omega) hwire
    | done =>
      rw [hdone hstop, take_zero, append_nil] at hwire
      subst hwire
      exact flushed_done h

/-- The client a call begins to work on, with what was sent to it. -/
structure Entered (gone : ℕ → Bool) (who : ℕ) (sent : ℕ → List Byte) (m : List Byte)
    (s : OutState) : Prop where
  inv : OutInv gone (some who) sent s
  live : gone who = false
  mine : (s.clients who).transConn = true → (s.clients who).wire ++ (s.clients who).held = m

theorem OutInv.entered (h : OutInv gone none sent s) (hg : gone who = false) :
    Entered gone who sent (sent who) s := ⟨h.enter who, hg, h.order who (by simp)⟩

theorem Entered.working (h : Entered gone who sent m s) (ho : (s.clients who).output = some oco) :
    Working gone who sent m oco s :=
  ⟨h.inv, h.live, ho, fun hc => by rw [← OutClient.held_some ho]; exact h.mine hc⟩

/-- A flush between two calls changes nothing that was sent. -/
theorem flushClient_inv (rs : List WriteResult) (h : OutInv gone none sent s) :
    OutInv gone none sent (flushClient rs who s).1 := by
  cases hout : (s.clients who).output with
  | none => unfold flushClient; rw [hout]; exact h
  | some o =>
    have hlive : gone who = false := by
      cases hg : gone who with
      | false => rfl
      | true => rw [h.idle who hg] at hout; cases hout
    have := (flushClient_spec rs ((h.entered hlive).working hout)).1
    rwa [update_eq_self] at this

/-- The call has to give up on the client. -/
theorem Entered.leave_aborted (h : Entered gone who sent m s)
    (hc : (s.clients who).transConn = false) (hh : (s.clients who).held = []) (x : List Byte) :
    OutInv gone none (update sent who x) s :=
  h.inv.leave (by simp [hc]) fun hne => absurd hh hne

/-- A buffer is there, with no more in it than there was, or the client is aborted. -/
def Ensured (gone : ℕ → Bool) (who : ℕ) (sent : ℕ → List Byte) (m : List Byte) (s : OutState) :
    OutState × Option ConnectionOutput → Prop
  | (s', none) => Entered gone who sent m s' ∧ (s'.clients who).transConn = false ∧
      (s'.clients who).held = []
  | (s', some oco) => Working gone who sent m oco s' ∧
      (s'.clients who).isLocal = (s.clients who).isLocal ∧
      ((s.clients who).output = some oco ∨ (s.clients who).output = none ∧ oco.count = 0)

theorem outputEnsureBuffer_spec (alloc : Bool) (h : Entered gone who sent m s) :
    Ensured gone who sent m s (outputEnsureBuffer alloc who s) := by
  have hnew : ∀ (s' : OutState) (o : ConnectionOutput), OutInv gone (some who) sent s' →
      s'.clients = s.clients → (s.clients who).output = none → BufOk o → o.count = 0 →
      Working gone who sent m o (s'.setOutput who (some o)) := by
    intro s' o hs' hcl hnone ho hz
    refine ⟨hs'.setOutput h.live ho, h.live, by simp [OutState.setOutput], fun hc => ?_⟩
    simp only [OutState.setOutput, OutState.modify_self, hcl] at hc ⊢
    rw [held_empty hz, ← h.mine hc, OutClient.held_none hnone]
  unfold outputEnsureBuffer
  cases hout : (s.clients who).output with
  | some o => exact ⟨h.working hout, rfl, .inl hout⟩
  | none =>
    cases hfree : s.freeOutputs with
    | cons o next =>
      have ho := h.inv.free o (by simp [hfree])
      have hs' : OutInv gone (some who) sent { s with freeOutputs := next } :=
        { h.inv with free := fun o' ho' => h.inv.free o' (by simp [hfree, ho']) }
      exact ⟨hnew _ o hs' rfl hout ho.1 ho.2, by simp [OutState.setOutput], .inr ⟨hout, ho.2⟩⟩
    | nil =>
      cases alloc with
      | true => exact ⟨hnew s _ h.inv rfl hout bufOk_allocate rfl, by simp [OutState.setOutput],
          .inr ⟨hout, rfl⟩⟩
      | false =>
        obtain ⟨h1, h2, h3⟩ := h.inv.abort
        exact ⟨⟨h1, h.live, by simp [h2]⟩, h2, OutClient.held_none (h3.trans hout)⟩

variable {extra : List Byte}

/-- The message behind what is buffered, and the buffer sent. -/
theorem memcpyAndFlush_inv (rs : List WriteResult) (oco : ConnectionOutput) (h : OutInv gone (some who) sent s)
    (hg : gone who = false) (ho : BufOk oco)
    (hm : (s.clients who).transConn = true → (s.clients who).wire ++ oco.held = m) (hfit : oco.count + (extra.length + padLen extra.length : ℕ) ≤ oco.size) :
    OutInv gone none (update sent who (m ++ padded extra))
      (memcpyAndFlush rs who oco extra (padLen extra.length) s).1 := by
  obtain ⟨hok, hheld⟩ := ho.put_padded hfit
  unfold memcpyAndFlush
  generalize (oco.put extra).put (replicate (padLen extra.length) 0) = o' at hok hheld ⊢
  have hw : Working gone who sent (m ++ padded extra) o' (s.setOutput who (some o')) := by
    refine ⟨h.setOutput hg hok, hg, by simp [OutState.setOutput], fun hc => ?_⟩
    simp only [OutState.setOutput, OutState.modify_self] at hc ⊢
    rw [hheld, ← append_assoc, hm hc]
  exact (flushClient_spec rs hw).1

/-- Room is found after a flush: the buffer has it or is grown, or the client is aborted. -/
theorem outputBufferResizeAndFlush_inv (a : Answers) (h : Entered gone who sent m s) (hroom : ∀ o, (s.clients who).output = some o →
      o.count + (extra.length + padLen extra.length : ℕ) ≤ 2 ^ 31) (hsmall : extra.length + padLen extra.length ≤ 2 ^ 31) :
    OutInv gone none (update sent who (m ++ padded extra))
      (outputBufferResizeAndFlush a who extra (padLen extra.length) s).1 := by
  have hens := outputEnsureBuffer_spec a.allocAfterFlush h
  unfold outputBufferResizeAndFlush
  generalize outputEnsureBuffer a.allocAfterFlush who s = r at hens ⊢
  obtain ⟨s', _ | oco⟩ := r
  · exact hens.1.leave_aborted hens.2.1 hens.2.2 _
  obtain ⟨hw, -, hold⟩ := hens
  have hlen := hw.ok.length; have hnn := hw.ok.nonneg; have hle := hw.ok.le; have hsm := hw.ok.small
  have hneed : oco.count + (extra.length + padLen extra.length : ℕ) ≤ 2 ^ 31 := by
    rcases hold with ho | ⟨-, hz⟩
    · exact hroom oco ho
    · omega
  have hsize1 : (toSize (oco.count + (extra.length + padLen extra.length : ℕ)) : ℤ) = _ :=
    toSize_eq (by omega) (by omega)
  have hsize2 : (toSize oco.size : ℤ) = oco.size := toSize_eq (by omega) (by omega)
  dsimp only
  split
  · exact memcpyAndFlush_inv a.send oco hw.inv hw.live hw.ok hw.mine (by omega)
  generalize hneeded : extra.length + padLen extra.length = needed at *
  have hdiv : needed < (needed / BUFSIZE + 1) * BUFSIZE ∧
      (needed / BUFSIZE + 1) * BUFSIZE ≤ needed + BUFSIZE := by unfold BUFSIZE; omega
  generalize (needed / BUFSIZE + 1) * BUFSIZE = grown at hdiv ⊢
  have hb : BUFSIZE = 16384 := rfl
  split
  · -- the allocator refuses: aborted
    exact (flushAbort_inv hw.inv hw.live hw.ok _).1
  · rename_i newbuf hre
    obtain ⟨hmax, hnewlen, hkeep⟩ := realloc_some hre
    -- a size past `int` converts to one that no allocation can have
    have hlt : oco.count + grown < 2 ^ 31 := by
      by_contra hge
      have hneg : wrapInt (oco.count + grown) < 0 := by unfold wrapInt; rw [Int.bmod_def]; omega
      have := toSize_neg hneg (by have := le_wrapInt (oco.count + grown); omega)
      omega
    have hnew : wrapInt (oco.count + grown) = oco.count + grown := wrapInt_eq (by omega) hlt
    have hnews : (toSize (wrapInt (oco.count + grown)) : ℤ) = oco.count + grown := by
      rw [hnew]; exact toSize_eq (by omega) (by omega)
    refine memcpyAndFlush_inv a.send ⟨newbuf, wrapInt (oco.count + grown), oco.count⟩ hw.inv hw.live
      ⟨by rw [hnewlen, hnews, hnew], hnn, ?_, wrapInt_lt _⟩ (fun hc => ?_) ?_
    · show oco.count ≤ wrapInt _
      omega
    · have hk := hkeep oco.count.toNat (by omega) (by omega)
      rw [← hw.mine hc, ConnectionOutput.held, hk, ConnectionOutput.held]
    · show oco.count + _ ≤ wrapInt _
      omega

theorem outputBufferMakeRoomAndFlush_inv (a : Answers) (h : Working gone who sent m oco s) (hlen : extra.length < 2 ^ 31)
    (hroom : oco.count + (extra.length + padLen extra.length : ℕ) ≤ 2 ^ 31) :
    OutInv gone none (update sent who (m ++ padded extra))
      (outputBufferMakeRoomAndFlush a who extra s).1 := by
  have hnn := h.ok.nonneg; have hle := h.ok.le; have hsm := h.ok.small
  have hpad : paddingForInt32 (wrapInt extra.length) = padLen extra.length := by
    rw [wrapInt_eq (by omega) (by omega), paddingForInt32_natCast]
  have hsize1 : (toSize (oco.count + (extra.length + padLen extra.length : ℕ)) : ℤ) = _ :=
    toSize_eq (by omega) (by omega)
  have hsize2 : (toSize oco.size : ℤ) = oco.size := toSize_eq (by omega) (by omega)
  unfold outputBufferMakeRoomAndFlush
  simp only [hpad, h.out]
  split
  · exact memcpyAndFlush_inv a.send oco h.inv h.live h.ok h.mine (by omega)
  · have hflush := flushClient_spec a.makeRoom h
    generalize flushClient a.makeRoom who s = r at hflush ⊢
    obtain ⟨hinv, habort, hcount⟩ := hflush
    split
    · rename_i hr
      have := hinv.aborted (habort hr) (m ++ padded extra)
      rwa [update_idem] at this
    · have hent := hinv.entered h.live
      rw [update_self] at hent
      have : OutInv gone none _ (outputBufferResizeAndFlush a who extra (padLen extra.length) r.1).1 :=
        outputBufferResizeAndFlush_inv a hent (fun o ho => by have := hcount o ho; omega) (by omega)
      rwa [update_idem] at this

/-- Of a message to the client, the bytes that go out: none when the client is gone or is
the server itself. -/
def delivered (gone : ℕ → Bool) (who : ℕ) (m : Msg) : List Byte :=
  if who = serverClient ∨ gone who = true then [] else padded m.1

/-- The `int` sum of `WriteToClient` is not computed, or does not overflow. -/
def SumFits (c : OutClient) (m : Msg) : Prop :=
  let count := c.output.elim 0 ConnectionOutput.count
  (count = 0 ∧ c.isLocal = true) ∨ count + (m.1.length + padLen m.1.length : ℕ) < 2 ^ 31

/-- A `WriteToClient` that gets as far as its sum computes it without overflow. -/
def NoOverflow (s : OutState) : OutOp → Prop
  | .write who m _ => who = serverClient ∨ (s.clients who).clientGone = true ∨
      SumFits (s.clients who) m
  | .flush _ _ => True

/-- The message stays in the buffer, and the client goes on the pending list. -/
theorem buffered_inv (h : Working gone who sent m oco s) {bs : List Byte}
    (hfit : oco.count + (bs.length + padLen bs.length : ℕ) ≤ oco.size) :
    OutInv gone none (update sent who (m ++ padded bs))
      ((outputPendingMark who { s with newOutputPending := true }).setOutput who
        (some (if padLen bs.length ≠ 0 then (oco.put bs).put (replicate (padLen bs.length) 0)
          else oco.put bs))) := by
  have hinv : OutInv gone (some who) sent { s with newOutputPending := true } := { h.inv with }
  have hput : ∀ o : ConnectionOutput, BufOk o → o.held = oco.held ++ padded bs →
      OutInv gone none (update sent who (m ++ padded bs))
        ((outputPendingMark who { s with newOutputPending := true }).setOutput who (some o)) := by
    intro o ho hheld
    refine (hinv.mark.setOutput h.live ho).leave (fun hc => ?_) fun _ => hinv.marked h.live
    simp only [OutState.setOutput, OutState.modify_self, outputPendingMark_clients] at hc ⊢
    rw [OutClient.held_some (o := o) rfl, hheld, ← append_assoc, h.mine hc]
  split
  · obtain ⟨hok, hheld⟩ := h.ok.put_padded hfit
    exact hput _ hok hheld
  · rename_i hpad
    obtain ⟨hok, hheld, -, -⟩ := h.ok.put bs (by omega)
    refine hput _ hok (hheld.trans ?_)
    rw [padded, not_not.1 hpad, replicate_zero, append_nil]

/-- **One message.** While the sum fits, `WriteToClient` appends the padded message to what
was sent to the client, and keeps the order of every other client. -/
theorem writeToClient_inv (a : Answers) (h : OutInv gone none sent s) (msg : Msg)
    (hfit : NoOverflow s (.write who msg a)) :
    OutInv gone none (Function.update sent who (sent who ++ delivered gone who msg))
      (writeToClient a who msg s).1 := by
  have hlen := msg.2
  unfold writeToClient
  split
  · rename_i hcond
    have hnil : delivered gone who msg = [] := by
      unfold delivered
      rw [h.isGone] at hcond
      split
      · rfl
      · rename_i hlive
        rw [length_eq_zero_iff.1 (hcond.resolve_right hlive)]; rfl
    rw [hnil, append_nil, update_eq_self]
    exact h
  rename_i hcond
  simp only [not_or, h.isGone] at hcond
  have hlive : gone who = false := by simpa using hcond.2.2
  have hsum : SumFits (s.clients who) msg := by
    rcases hfit with hf | hf | hf
    · exact absurd hf hcond.2.1
    · exact absurd (h.isGone who ▸ hf) hcond.2.2
    · exact hf
  have hdel : delivered gone who msg = padded msg.1 := by simp [delivered, hcond.2.1, hlive]
  have hens := outputEnsureBuffer_spec a.alloc (h.entered hlive)
  rw [hdel, paddingForInt32_natCast]
  generalize outputEnsureBuffer a.alloc who s = r at hens ⊢
  obtain ⟨s', _ | oco⟩ := r
  · exact hens.1.leave_aborted hens.2.1 hens.2.2 _
  obtain ⟨hw, hlocal, hold⟩ := hens
  have hcount : (s.clients who).output.elim 0 ConnectionOutput.count = oco.count := by
    rcases hold with ho | ⟨ho, hz⟩
    · rw [ho, elim_some]
    · rw [ho, elim_none, hz]
  have hfit' : oco.count = 0 ∧ (s'.clients who).isLocal = true ∨
      oco.count + (msg.1.length + padLen msg.1.length : ℕ) < 2 ^ 31 := by
    rw [hlocal, ← hcount]; exact hsum
  have hnn := hw.ok.nonneg
  dsimp only
  split
  · -- sent off at once
    have hclear : Working gone who sent (sent who) oco (outputPendingClear who s') :=
      ⟨hw.inv.clear, hlive, hw.out, hw.mine⟩
    have hpad := padLen_dvd msg.1.length
    have hpadlt := padLen_lt msg.1.length
    have hroom : oco.count + (msg.1.length + padLen msg.1.length : ℕ) ≤ 2 ^ 31 := by omega
    refine outputBufferMakeRoomAndFlush_inv a ?_ hlen hroom
    split
    · exact ⟨{ hclear.inv with }, hlive, hclear.out, hclear.mine⟩
    · exact hclear
  · rename_i hmust
    refine buffered_inv hw ?_
    unfold mustFlush at hmust
    simp only [Bool.or_eq_true, Bool.and_eq_true, decide_eq_true_eq, not_or] at hmust
    have hsum' := hfit'.resolve_left hmust.1
    have h2 := hmust.2
    rw [wrapInt_eq (x := oco.count + msg.1.length) (by omega) (by omega),
      wrapInt_eq (by omega) (by omega)] at h2
    omega

end Inv

/-! ### Runs -/

/-- The bytes sent to a client by a list of calls. -/
def sentTo (gone : ℕ → Bool) (c : ℕ) (ops : List OutOp) : List Byte :=
  ops.flatMap fun
    | .write who m _ => if who = c then delivered gone who m else []
    | .flush _ _ => []

/-- What is promised for a client: the bytes its transport has accepted and those still in
its buffer are the bytes sent, the buffer is within its size, and the client is on the list
of clients with output pending while anything is left. -/
structure InOrder (sent : List Byte) (c : ℕ) (s : OutState) : Prop where
  order : (s.clients c).wire ++ (s.clients c).held = sent
  bound : ∀ o, (s.clients c).output = some o → 0 ≤ o.count ∧ o.count ≤ o.size
  pending : (s.clients c).held ≠ [] →
    ∃ xs, s.outputPending.IsRing none xs ∧ some c ∈ xs

variable {gone : ℕ → Bool}

theorem OutInv.inOrder {sent : ℕ → List Byte} {s : OutState}
    (h : OutInv gone none sent s) {c : ℕ} (hc : (s.clients c).transConn = true) :
    InOrder (sent c) c s := by
  refine ⟨h.order c (by simp) hc, fun o ho => ⟨(h.bufs c o ho).nonneg, (h.bufs c o ho).le⟩,
    fun hh => ?_⟩
  obtain ⟨xs, hxs⟩ := h.ring
  have hp := h.pending c (by simp) hh
  rw [← Bool.not_eq_true, hxs.isEmpty_iff (by simp), not_not] at hp
  exact ⟨xs, hxs.ring, hp⟩

theorem outStep_inv {s : OutState} {past : List OutOp} {op : OutOp}
    (hop : NoOverflow s op) (h : OutInv gone none (fun c => sentTo gone c past) s) :
    OutInv gone none (fun c => sentTo gone c (past ++ [op])) (outStep s op) := by
  have hsent : ∀ who bs, (∀ c, sentTo gone c [op] = if who = c then bs else []) →
      (fun c => sentTo gone c (past ++ [op])) =
        update (fun c => sentTo gone c past) who (sentTo gone who past ++ bs) := by
    intro who bs hop
    funext c
    have happ : sentTo gone c (past ++ [op]) = sentTo gone c past ++ sentTo gone c [op] :=
      flatMap_append
    rw [happ, hop]
    by_cases hc : who = c
    · subst hc; rw [update_self, if_pos rfl]
    · rw [update_of_ne (Ne.symm hc), if_neg hc, append_nil]
  cases op with
  | write who m a =>
    rw [hsent who (delivered gone who m) fun c => by simp [sentTo]]
    exact writeToClient_inv a h m hop
  | flush who rs =>
    rw [hsent who [] fun c => by simp [sentTo], append_nil, update_eq_self]
    exact flushClient_inv rs h

theorem run_outInv (isLocal gone : ℕ → Bool) (ops : List OutOp)
    (hops : AllSteps outStep NoOverflow (outStart isLocal gone) ops) :
    OutInv gone none (fun c => sentTo gone c ops) (run outStep (outStart isLocal gone) ops) := by
  let P : List OutOp → OutState → Prop := fun past s => OutInv gone none (fun c => sentTo gone c past) s
  exact AllSteps.history (P := P) (fun _ _ _ hop h => outStep_inv hop h) hops (OutInv.start isLocal gone)

/-- **Output ordering.** In every run in which no sum overflows, every client that is not
aborted has its bytes in order. -/
theorem output_order (isLocal gone : ℕ → Bool) (ops : List OutOp)
    (hops : AllSteps outStep NoOverflow (outStart isLocal gone) ops) (c : ℕ)
    (hc : ((run outStep (outStart isLocal gone) ops).clients c).transConn = true) :
    InOrder (sentTo gone c ops) c (run outStep (outStart isLocal gone) ops) :=
  (run_outInv isLocal gone ops hops).inOrder hc

/-- A client that is written one byte and flushed by parts. -/
theorem output_order_one :
    InOrder (padded [7]) 1 (run outStep (outStart (fun _ => false) fun _ => false)
      [.write 1 ⟨[7], by decide⟩ ⟨true, true, [], [], none⟩, .flush 1 [.wrote 3, .wouldBlock]]) :=
  output_order (fun _ => false) (fun _ => false)
    [.write 1 ⟨[7], by decide⟩ ⟨true, true, [], [], none⟩, .flush 1 [.wrote 3, .wouldBlock]]
    ⟨.inr (.inr (.inr (by decide))), trivial, trivial⟩ 1 (by decide +kernel)

/-- A message so long that the sum of its length and its padding turns negative is copied
over the end of an empty buffer of a remote client, which then counts a negative number of
bytes. -/
theorem longest_lost (m : Msg) (hm : m.1.length = 2 ^ 31 - 1) :
    let s := run outStep (outStart (fun _ => false) fun _ => false)
      [.write 1 m ⟨true, true, [], [], none⟩]
    (s.clients 1).wire = [] ∧ (s.clients 1).held = [] ∧ (s.clients 1).transConn = true := by
  have hpad : padLen (2 ^ 31 - 1) = 1 := by decide
  have hw1 : wrapInt (0 + ((2 ^ 31 - 1 : ℕ) : ℤ)) = 2 ^ 31 - 1 := by decide
  have hw2 : wrapInt (2 ^ 31 - 1 + ((1 : ℕ) : ℤ)) = -2 ^ 31 := by decide
  have hne : m.1.length ≠ 0 := by rw [hm]; norm_num
  have hcount : ((allocateOutputBuffer.put m.1).put (replicate 1 0)).count = -2 ^ 31 := by
    unfold ConnectionOutput.put allocateOutputBuffer
    simp only [length_replicate, hm, hw1, hw2]
  have hmust : mustFlush ⟨some allocateOutputBuffer, true, false, false, 0, []⟩
      allocateOutputBuffer (2 ^ 31 - 1) 1 = false := by
    unfold allocateOutputBuffer
    decide
  have hstep : (writeToClient ⟨true, true, [], [], none⟩ 1 m
      (outStart (fun _ => false) fun _ => false)).1.clients 1 =
      ⟨some ((allocateOutputBuffer.put m.1).put (replicate 1 0)), true, false, false, 0, []⟩ := by
    have hens : outputEnsureBuffer true 1 (outStart (fun _ => false) fun _ => false) =
        ((outStart (fun _ => false) fun _ => false).setOutput 1 (some allocateOutputBuffer),
          some allocateOutputBuffer) := rfl
    have hcl : ((outStart (fun _ => false) fun _ => false).setOutput 1
        (some allocateOutputBuffer)).clients 1 =
        ⟨some allocateOutputBuffer, true, false, false, 0, []⟩ := rfl
    unfold writeToClient
    rw [if_neg (by simp [hne, serverClient, outStart])]
    simp only [hens, hcl, paddingForInt32_natCast, hm, hpad, hmust]
    simp [OutState.setOutput, outStart]
  simp only [run_cons, run_nil, outStep, hstep]
  rw [OutClient.held_some rfl, ConnectionOutput.held, hcount]
  exact ⟨trivial, rfl, trivial⟩

/-- The longest message there is. -/
def longest : Msg := ⟨List.replicate (2 ^ 31 - 1) 0, by rw [List.length_replicate]; norm_num⟩

/-- The order is lost for it, though the client is not aborted. -/
theorem output_order_fails :
    ((run outStep (outStart (fun _ => false) fun _ => false)
      [.write 1 longest ⟨true, true, [], [], none⟩]).clients 1).transConn = true ∧
    ¬ InOrder (sentTo (fun _ => false) 1 [.write 1 longest ⟨true, true, [], [], none⟩]) 1
      (run outStep (outStart (fun _ => false) fun _ => false)
        [.write 1 longest ⟨true, true, [], [], none⟩]) := by
  have hlen : longest.1.length = 2 ^ 31 - 1 := length_replicate
  obtain ⟨hwire, hheld, hconn⟩ := longest_lost longest hlen
  refine ⟨hconn, fun h => ?_⟩
  have hsent : sentTo (fun _ => false) 1 [.write 1 longest ⟨true, true, [], [], none⟩] =
      padded longest.1 := by simp [sentTo, delivered, serverClient]
  have horder := h.order
  rw [hwire, hheld, hsent] at horder
  have := congrArg length horder
  rw [length_padded, append_nil, length_nil] at this
  omega

end Xenia.Os
