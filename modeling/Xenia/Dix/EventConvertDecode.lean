import Xenia.Dix.EventConvert

/-!
# What device and raw events say

A client reads the masks and the packed values of an event back (`decodeDeviceEvent`, `decodeRawEvent`). `device_event_decoded` and
`raw_event_decoded`: it gets what the event had, and the converters have stored only inside the bytes they allocated.
-/

namespace Xenia.Dix.EventConvert

open Xenia.Lib List

/-! ## Reading -/

def readFP3232 (bs : List Byte) : FP3232 := { integral := readCard32 bs, frac := readCard32 (bs.drop 4) }

/-- The bits that are set in a mask. -/
def onBits (mask : List Byte) : List ℕ := (List.range (8 * mask.length)).filter (bitIsOn mask)

/-- The packed values of some axes; none when there are not as many bytes as the axes take. -/
def readAxes : List ℕ → List Byte → Option (List (ℕ × FP3232))
  | [], [] => some []
  | [], _ :: _ => none
  | i :: axes, bs => if bs.length < sizeof_FP3232 then none else (readAxes axes (bs.drop sizeof_FP3232)).map ((i, readFP3232 bs) :: ·)

/-- The buttons and the axes of a device event. -/
def decodeDeviceEvent (e : xXIDeviceEvent) : Option (List ℕ × List (ℕ × FP3232)) :=
  let buttons := e.tail.mem.take (e.buttons_len * 4)
  let rest := e.tail.mem.drop (e.buttons_len * 4)
  let mask := rest.take (e.valuators_len * 4)
  (readAxes (onBits mask) (rest.drop (e.valuators_len * 4))).map fun axes => (onBits buttons, axes)

/-- The axes of a raw event, and their raw values. -/
def decodeRawEvent (e : xXIRawEvent) : Option (List (ℕ × FP3232) × List (ℕ × FP3232)) :=
  let axes := onBits (e.tail.mem.take (e.valuators_len * 4))
  let rest := e.tail.mem.drop (e.valuators_len * 4)
  let size := axes.length * sizeof_FP3232
  (readAxes axes (rest.take size)).bind fun values => (readAxes axes (rest.drop size)).map fun raw => (values, raw)

variable {l : List ℕ} {n : ℕ}

@[simp] theorem FP3232.length_bytes (value : FP3232) : value.bytes.length = sizeof_FP3232 := by
  unfold FP3232.bytes
  rfl

theorem readFP3232_bytes (value : FP3232) (rest : List Byte) : readFP3232 (value.bytes ++ rest) = value := by
  unfold readFP3232 FP3232.bytes
  rw [append_assoc, readCard32_leBytes, drop_left' (length_leBytes _ _), readCard32_leBytes]

/-- Packed values are read back. -/
theorem readAxes_flatMap (v : ℕ → FP3232) (axes : List ℕ) :
    readAxes axes (axes.flatMap fun i => (v i).bytes) = some (axes.map fun i => (i, v i)) := by
  induction axes with
  | nil => rfl
  | cons i rest ih =>
    rw [flatMap_cons, readAxes, if_neg, readFP3232_bytes, drop_left' (FP3232.length_bytes _), ih]
    · rfl
    · rw [length_append, FP3232.length_bytes]
      omega

/-! ## Counting bits -/

theorem countByte_eq {w x : ℕ} (hx : x < 2 ^ w) : countByte x = ((range w).filter x.testBit).length := by
  induction w generalizing x with
  | zero =>
    have : x = 0 := by omega
    subst this
    unfold countByte
    rfl
  | succ w ih =>
    have hhalf : x / 2 < 2 ^ w := by
      omega
    have hrest : ((map Nat.succ (range w)).filter x.testBit).length = countByte (x / 2) := by
      rw [ih hhalf, filter_map, length_map]
      congr 2
      funext i
      exact Nat.testBit_succ x i
    have hzero : countByte 0 = 0 := by
      unfold countByte
      rfl
    rw [range_succ_eq_map, filter_cons]
    have hbit : x.testBit 0 = decide (x % 2 = 1) := Nat.testBit_zero x
    unfold countByte
    by_cases h0 : x = 0
    · subst h0
      rw [if_pos rfl, if_neg (by simp), hrest, hzero]
    · rw [if_neg h0]
      split
      next hodd =>
        rw [hbit, decide_eq_true_eq] at hodd
        rw [length_cons, hrest, hodd, add_comm]
      next heven =>
        rw [hbit, decide_eq_true_eq] at heven
        omega

/-- `count_bits` counts the bits that are on. -/
theorem count_bits_eq (ptr : List Byte) : count_bits ptr = (onBits ptr).length := by
  induction ptr with
  | nil => rfl
  | cons x rest ih =>
    have hfirst : ((range 8).filter (bitIsOn (x :: rest))).length = countByte x.toNat := by
      rw [countByte_eq (w := 8) x.isLt]
      refine congrArg length (filter_congr fun i hi => ?_)
      rw [mem_range] at hi
      unfold bitIsOn
      rw [Nat.div_eq_of_lt hi, Nat.mod_eq_of_lt hi]
      rfl
    have hrest : (((range (8 * rest.length)).map (8 + ·)).filter (bitIsOn (x :: rest))).length = (onBits rest).length := by
      rw [filter_map, length_map]
      congr 2
      funext i
      change bitIsOn (x :: rest) (8 + i) = bitIsOn rest i
      unfold bitIsOn
      have hdiv : (8 + i) / 8 = i / 8 + 1 := by omega
      have hmod : (8 + i) % 8 = i % 8 := by omega
      rw [hdiv, hmod]
      rfl
    unfold onBits
    rw [length_cons, mul_add, add_comm, range_add, filter_append, length_append, hfirst]
    change countByte x.toNat + count_bits rest = _
    rw [ih, hrest]

/-! ## Filling masks and values -/

variable {b : Buffer} {pre post : List Byte} {f g : ℕ → Bool} {mask : List Byte} {ptr axisval axisval_raw m : ℕ} {v w : ℕ → FP3232}

/-- The mask `f` with the bits of the list that are on. -/
def withBits (f on : ℕ → Bool) (l : List ℕ) : ℕ → Bool := fun k => f k || (decide (k ∈ l) && on k)

theorem withBits_nil (f on : ℕ → Bool) : withBits f on [] = f := by
  funext k
  simp [withBits]

variable {on : ℕ → Bool}

theorem withBits_cons_on {i : ℕ} (hi : on i = true) :
    withBits f on (i :: l) = withBits (fun k => f k || k == i) on l := by
  funext k
  unfold withBits
  by_cases heq : k = i
  · subst heq
    simp [hi]
  · simp [heq, beq_eq_false_iff_ne.2 heq]

theorem withBits_cons_off {i : ℕ} (hi : on i = false) : withBits f on (i :: l) = withBits f on l := by
  funext k
  unfold withBits
  by_cases heq : k = i
  · subst heq
    simp [hi]
  · simp [heq]

/-- The loop over the buttons sets their bits. -/
theorem setButtons_loop (hl : ∀ i ∈ l, i < 8 * n) (hptr : ptr = pre.length) (h : b.Holds (pre ++ (maskBytes n f ++ post))) :
    (l.foldl (fun b i => if bitIsOn mask i then b.setBit ptr i else b) b).Holds
      (pre ++ (maskBytes n (withBits f (bitIsOn mask) l) ++ post)) := by
  induction l generalizing b f with
  | nil =>
    rw [withBits_nil]
    exact h
  | cons i rest ih =>
    have hi := hl i mem_cons_self
    have hrest := fun k hk => hl k (mem_cons_of_mem _ hk)
    rw [foldl_cons]
    cases hon : bitIsOn mask i with
    | false =>
      rw [withBits_cons_off hon]
      exact ih hrest h
    | true =>
      rw [withBits_cons_on hon]
      apply ih hrest
      rw [← setBit_maskBytes hi fun k _ => rfl]
      exact Buffer.setBit_mid h hptr (by rwa [length_maskBytes])

/-- Zeros for the values that are still to come. -/
def zeros (count : ℕ) : List Byte := List.replicate (count * sizeof_FP3232) 0

theorem zeros_succ (count : ℕ) : zeros (count + 1) = List.replicate sizeof_FP3232 0 ++ zeros count := by
  unfold zeros
  rw [replicate_append_replicate, Nat.succ_mul, Nat.add_comm]

variable {vals : List Byte}

/-- The bit of an axis is set, and its value goes to the first of the zeros. -/
theorem axis_stored {rest : List Byte} {i : ℕ} (hi : i < 8 * n) (hptr : ptr = pre.length) (haxisval : axisval = pre.length + n + vals.length)
    (h : b.Holds (pre ++ (maskBytes n f ++ (vals ++ (replicate sizeof_FP3232 0 ++ rest))))) :
    ((b.setBit ptr i).store axisval (v i).bytes).Holds
      (pre ++ (maskBytes n (fun k => f k || k == i) ++ ((vals ++ (v i).bytes) ++ rest))) ∧
      axisval + sizeof_FP3232 = pre.length + n + (vals ++ (v i).bytes).length := by
  have hbit := Buffer.setBit_mid h hptr (i := i) (by rwa [length_maskBytes])
  rw [setBit_maskBytes hi fun k _ => rfl] at hbit
  have hsplit : pre ++ (maskBytes n (fun k => f k || k == i) ++ (vals ++ (replicate sizeof_FP3232 0 ++ rest))) =
      (pre ++ maskBytes n (fun k => f k || k == i) ++ vals) ++ (replicate sizeof_FP3232 0 ++ rest) := by simp
  rw [hsplit] at hbit
  have hstore : ((b.setBit ptr i).store axisval (v i).bytes).Holds
      (pre ++ maskBytes n (fun k => f k || k == i) ++ vals ++ ((v i).bytes ++ rest)) := by
    apply Buffer.store_mid hbit
    · rw [length_append, length_append, length_maskBytes, haxisval]
    · simp
  refine ⟨by simpa using hstore, ?_⟩
  rw [length_append, FP3232.length_bytes, haxisval, add_assoc]

/-- The loop over the axes sets their bits and packs their values. -/
theorem setAxes_loop (hl : ∀ i ∈ l, i < 8 * n) (hptr : ptr = pre.length) (haxisval : axisval = pre.length + n + vals.length)
    (h : b.Holds (pre ++ (maskBytes n f ++ (vals ++ (zeros (l.filter (bitIsOn mask)).length ++ post))))) :
    (l.foldl (fun (s : Buffer × ℕ) i =>
      if bitIsOn mask i then ((s.1.setBit ptr i).store s.2 (v i).bytes, s.2 + sizeof_FP3232) else s) (b, axisval)).1.Holds
      (pre ++ (maskBytes n (withBits f (bitIsOn mask) l) ++
        (vals ++ ((l.filter (bitIsOn mask)).flatMap (fun i => (v i).bytes) ++ post)))) := by
  induction l generalizing b f vals axisval with
  | nil =>
    rw [withBits_nil]
    exact h
  | cons i rest ih =>
    have hi := hl i mem_cons_self
    have hrest := fun k hk => hl k (mem_cons_of_mem _ hk)
    rw [foldl_cons]
    cases hon : bitIsOn mask i with
    | false =>
      rw [filter_cons_of_neg (by simp [hon])] at h ⊢
      rw [withBits_cons_off hon]
      exact ih hrest haxisval h
    | true =>
      rw [filter_cons_of_pos hon, length_cons, zeros_succ] at h
      rw [filter_cons_of_pos hon, withBits_cons_on hon]
      obtain ⟨hholds, hpointer⟩ := axis_stored (v := v) hi hptr haxisval h
      have hnext := ih hrest hpointer hholds
      rw [append_assoc vals] at hnext
      exact hnext

/-- The loop over the axes of a raw event packs both kinds of values. -/
theorem setRawAxes_loop {raws : List Byte} (hl : ∀ i ∈ l, i < 8 * n) (hptr : ptr = pre.length)
    (haxisval : axisval = pre.length + n + vals.length)
    (hraw : axisval_raw = axisval + (zeros (l.filter (bitIsOn mask)).length).length + raws.length)
    (h : b.Holds (pre ++ (maskBytes n f ++ (vals ++ (zeros (l.filter (bitIsOn mask)).length ++
      (raws ++ zeros (l.filter (bitIsOn mask)).length)))))) :
    (l.foldl (fun (s : Buffer × ℕ × ℕ) i =>
      if bitIsOn mask i then
        (((s.1.setBit ptr i).store s.2.1 (v i).bytes).store s.2.2 (w i).bytes, s.2.1 + sizeof_FP3232, s.2.2 + sizeof_FP3232)
      else s) (b, axisval, axisval_raw)).1.Holds
      (pre ++ (maskBytes n (withBits f (bitIsOn mask) l) ++
        (vals ++ ((l.filter (bitIsOn mask)).flatMap (fun i => (v i).bytes) ++
          (raws ++ (l.filter (bitIsOn mask)).flatMap fun i => (w i).bytes))))) := by
  induction l generalizing b f vals raws axisval axisval_raw with
  | nil =>
    rw [withBits_nil]
    exact h
  | cons i rest ih =>
    have hi := hl i mem_cons_self
    have hrest := fun k hk => hl k (mem_cons_of_mem _ hk)
    rw [foldl_cons]
    cases hon : bitIsOn mask i with
    | false =>
      rw [filter_cons_of_neg (by simp [hon])] at h hraw ⊢
      rw [withBits_cons_off hon]
      exact ih hrest haxisval hraw h
    | true =>
      rw [filter_cons_of_pos hon, length_cons] at h hraw
      rw [filter_cons_of_pos hon, withBits_cons_on hon]
      generalize (rest.filter (bitIsOn mask)).length = count at *
      have hzeros : (zeros (count + 1)).length = sizeof_FP3232 + (zeros count).length := by
        rw [zeros_succ, length_append, length_replicate]
      rw [zeros_succ, append_assoc (replicate _ _)] at h
      obtain ⟨hstore, hpointer⟩ := axis_stored (v := v) hi hptr haxisval h
      -- the raw value goes to the first of the zeros after the values
      generalize hmask : maskBytes n (fun k => f k || k == i) = bits at *
      have hsplit : pre ++ (bits ++ ((vals ++ (v i).bytes) ++ (zeros count ++ (raws ++ (replicate sizeof_FP3232 0 ++ zeros count))))) =
          (pre ++ bits ++ vals ++ (v i).bytes ++ zeros count ++ raws) ++ (replicate sizeof_FP3232 0 ++ zeros count) := by
        simp
      rw [hsplit] at hstore
      have hstore' : (((b.setBit ptr i).store axisval (v i).bytes).store axisval_raw (w i).bytes).Holds
          (pre ++ bits ++ vals ++ (v i).bytes ++ zeros count ++ raws ++ ((w i).bytes ++ zeros count)) := by
        apply Buffer.store_mid hstore
        · simp only [length_append, FP3232.length_bytes, ← hmask, length_maskBytes]
          omega
        · simp
      have hpointer' : axisval_raw + sizeof_FP3232 =
          axisval + sizeof_FP3232 + (zeros count).length + (raws ++ (w i).bytes).length := by
        rw [length_append, FP3232.length_bytes, hraw]
        omega
      have hholds : (((b.setBit ptr i).store axisval (v i).bytes).store axisval_raw (w i).bytes).Holds
          (pre ++ (bits ++ ((vals ++ (v i).bytes) ++ (zeros count ++ ((raws ++ (w i).bytes) ++ zeros count))))) := by
        simpa using hstore'
      rw [← hmask] at hholds
      have hnext := ih hrest hpointer hpointer' hholds
      rw [append_assoc vals, append_assoc raws] at hnext
      exact hnext

/-! ## Device and raw events -/

/-- Bits past the end are off. -/
theorem filter_range_of_off {k n : ℕ} (hkn : k ≤ n) (hoff : ∀ i, k ≤ i → i < n → on i = false) :
    (range n).filter on = (range k).filter on := by
  obtain ⟨d, rfl⟩ := Nat.exists_eq_add_of_le hkn
  have hnone : ((range d).map (k + ·)).filter on = [] := by
    rw [filter_eq_nil_iff]
    intro i hi
    obtain ⟨j, hj, rfl⟩ := mem_map.1 hi
    rw [mem_range] at hj
    rw [hoff (k + j) (by omega) (by omega)]
    decide
  rw [range_add, filter_append, hnone, append_nil]

/-- The axes of a mask of the size that events have. -/
theorem onBits_axes (hsize : mask.length = (MAX_VALUATORS + 7) / 8) (haxes : ∀ i, MAX_VALUATORS ≤ i → bitIsOn mask i = false) :
    onBits mask = (range MAX_VALUATORS).filter (bitIsOn mask) := by
  unfold onBits
  rw [hsize]
  exact filter_range_of_off (by decide) fun i hi _ => haxes i hi

/-- A mask that was filled bit by bit is read back. -/
theorem onBits_withBits {k : ℕ} (hk : k ≤ 8 * n) :
    onBits (maskBytes n (withBits (fun _ => false) on (range k))) = (range k).filter on := by
  unfold onBits
  rw [length_maskBytes]
  have hbits : (range (8 * n)).filter (bitIsOn (maskBytes n (withBits (fun _ => false) on (range k)))) =
      (range (8 * n)).filter (withBits (fun _ => false) on (range k)) := by
    apply filter_congr
    intro i hi
    exact bitIsOn_maskBytes _ (mem_range.1 hi)
  rw [hbits, filter_range_of_off hk]
  · apply filter_congr
    intro i hi
    simp [withBits, mem_range.1 hi]
  · intro i hi _
    simp [withBits, hi]

/-- The mask of an event is copied bit by bit. -/
theorem maskBytes_withBits (mask : List Byte) :
    maskBytes mask.length (withBits (fun _ => false) (bitIsOn mask) (range (8 * mask.length))) = mask := by
  refine Eq.trans (maskBytes_congr fun k hk => ?_) (maskBytes_bitIsOn mask)
  simp [withBits, hk]

variable {α : Type}

theorem length_values (axes : List ℕ) (v : ℕ → FP3232) :
    (axes.flatMap fun i => (v i).bytes).length = axes.length * sizeof_FP3232 := by
  rw [length_flatMap]
  simp only [FP3232.length_bytes, map_const', sum_replicate, smul_eq_mul]

/-- What a device event is converted to. -/
theorem eventToDeviceEvent_tail (double_to_fp3232 : α → FP3232) (ev : DeviceEvent α) :
    ∃ e, eventToDeviceEvent double_to_fp3232 true ev = some e ∧
      e.tail.Holds (ev.buttons ++ (maskBytes 8 (withBits (fun _ => false) (bitIsOn ev.mask) (range MAX_VALUATORS)) ++
        (onBits ev.mask).flatMap fun i => (double_to_fp3232 (ev.data i)).bytes)) ∧
      e.buttons_len = 8 ∧ e.valuators_len = 2 ∧ e.length = bytes_to_int32 (88 + count_bits ev.mask * 8) := by
  have haxes := onBits_axes ev.mask_size ev.axes
  have hcount : ((range MAX_VALUATORS).filter (bitIsOn ev.mask)).length = count_bits ev.mask := by
    rw [count_bits_eq, haxes]
  have hbuttons : ev.buttons.length = 32 := ev.buttons_size
  have hzero : (Buffer.calloc (32 + count_bits ev.mask * 2 * 4 + 8)).Holds
      ([] ++ (maskBytes 32 (fun _ => false) ++ (maskBytes 8 (fun _ => false) ++ zeros (count_bits ev.mask)))) := by
    have hlen : 32 + count_bits ev.mask * 2 * 4 + 8 = 32 + (8 + count_bits ev.mask * sizeof_FP3232) := by
      unfold sizeof_FP3232
      omega
    rw [hlen, maskBytes_false, maskBytes_false, zeros, replicate_append_replicate,
      replicate_append_replicate]
    exact Buffer.calloc_holds _
  have hset : (setButtons ev.buttons 0 (.calloc (32 + count_bits ev.mask * 2 * 4 + 8))).Holds
      ([] ++ (maskBytes 32 (withBits (fun _ => false) (bitIsOn ev.buttons) (range (8 * ev.buttons.length))) ++
        (maskBytes 8 (fun _ => false) ++ zeros (count_bits ev.mask)))) := by
    apply setButtons_loop
    · intro i hi
      rwa [mem_range, hbuttons] at hi
    · rfl
    · exact hzero
  rw [← hbuttons, maskBytes_withBits] at hset
  have hdone : (setAxes ev.mask 32 (fun i => double_to_fp3232 (ev.data i))
      (setButtons ev.buttons 0 (.calloc (32 + count_bits ev.mask * 2 * 4 + 8))) 40).1.Holds
      (ev.buttons ++ (maskBytes 8 (withBits (fun _ => false) (bitIsOn ev.mask) (range MAX_VALUATORS)) ++
        ([] ++ (((range MAX_VALUATORS).filter (bitIsOn ev.mask)).flatMap (fun i => (double_to_fp3232 (ev.data i)).bytes) ++
          [])))) := by
    apply setAxes_loop
    · intro i hi
      have := mem_range.1 hi
      unfold MAX_VALUATORS at this
      omega
    · exact hbuttons.symm
    · rw [hbuttons]
      rfl
    · rw [hcount, append_nil]
      rwa [hbuttons] at hset
  rw [append_nil, ← haxes] at hdone
  have hlen : sizeof_xXIDeviceEvent + 8 * 4 + count_bits ev.mask * 2 * 4 + 2 * 4 - sizeof_xXIDeviceEvent =
      32 + count_bits ev.mask * 2 * 4 + 8 := by
    omega
  have hbtlen : bytes_to_int32 (bits_to_bytes MAX_BUTTONS) = 8 := rfl
  have hvallen : bytes_to_int32 (bits_to_bytes MAX_VALUATORS) = 2 := rfl
  unfold eventToDeviceEvent
  rw [if_neg (by decide), hbtlen, hvallen, hlen]
  refine ⟨_, rfl, hdone, rfl, rfl, ?_⟩
  apply congrArg bytes_to_int32
  unfold sizeof_xXIDeviceEvent sizeof_xEvent
  omega

/-- **Device events**: the length is that of the bytes that were allocated, and the buttons and axes are read back. -/
theorem device_event_decoded (double_to_fp3232 : α → FP3232) (ev : DeviceEvent α) :
    ∃ e, eventToDeviceEvent double_to_fp3232 true ev = some e ∧ e.tail.inside = true ∧
      sizeof_xXIDeviceEvent + e.tail.mem.length = sizeof_xEvent + 4 * e.length ∧
      decodeDeviceEvent e = some (onBits ev.buttons, (onBits ev.mask).map fun i => (i, double_to_fp3232 (ev.data i))) := by
  obtain ⟨e, he, ⟨hmem, hinside⟩, hbuttons_len, hvaluators_len, hlength⟩ := eventToDeviceEvent_tail double_to_fp3232 ev
  have hbuttons : ev.buttons.length = 32 := ev.buttons_size
  have haxes := onBits_axes ev.mask_size ev.axes
  refine ⟨e, he, hinside, ?_, ?_⟩
  · rw [hmem, hlength, length_append, length_append, length_maskBytes, length_values, count_bits_eq]
    unfold bytes_to_int32 sizeof_xXIDeviceEvent sizeof_xEvent sizeof_FP3232
    omega
  · unfold decodeDeviceEvent
    dsimp only
    rw [hbuttons_len, hvaluators_len, hmem, take_left' hbuttons, drop_left' hbuttons,
      take_left' (length_maskBytes _ _), drop_left' (length_maskBytes _ _), onBits_withBits (by decide), ← haxes,
      readAxes_flatMap]
    rfl

/-- What a raw event is converted to. -/
theorem eventToRawEvent_tail (double_to_fp3232 : α → FP3232) (ev : RawDeviceEvent α) :
    ∃ e, eventToRawEvent double_to_fp3232 true ev = some e ∧
      e.tail.Holds (maskBytes 8 (withBits (fun _ => false) (bitIsOn ev.mask) (range MAX_VALUATORS)) ++
        ((onBits ev.mask).flatMap (fun i => (double_to_fp3232 (ev.data i)).bytes) ++
          (onBits ev.mask).flatMap fun i => (double_to_fp3232 (ev.data_raw i)).bytes)) ∧
      e.valuators_len = 2 ∧ e.length = bytes_to_int32 (8 + count_bits ev.mask * 16) := by
  have haxes := onBits_axes ev.mask_size ev.axes
  have hcount : ((range MAX_VALUATORS).filter (bitIsOn ev.mask)).length = count_bits ev.mask := by
    rw [count_bits_eq, haxes]
  have hzero : (Buffer.calloc (count_bits ev.mask * (sizeof_FP3232 * 2) + 8)).Holds
      ([] ++ (maskBytes 8 (fun _ => false) ++ ([] ++ (zeros (count_bits ev.mask) ++ ([] ++ zeros (count_bits ev.mask)))))) := by
    have hlen : count_bits ev.mask * (sizeof_FP3232 * 2) + 8 =
        8 + (count_bits ev.mask * sizeof_FP3232 + count_bits ev.mask * sizeof_FP3232) := by
      unfold sizeof_FP3232
      omega
    rw [hlen, maskBytes_false, nil_append, nil_append, nil_append, zeros, replicate_append_replicate,
      replicate_append_replicate]
    exact Buffer.calloc_holds _
  have hdone : (setRawAxes ev.mask 0 (fun i => double_to_fp3232 (ev.data i)) (fun i => double_to_fp3232 (ev.data_raw i))
      (.calloc (count_bits ev.mask * (sizeof_FP3232 * 2) + 8)) 8 (8 + count_bits ev.mask * sizeof_FP3232)).1.Holds
      ([] ++ (maskBytes 8 (withBits (fun _ => false) (bitIsOn ev.mask) (range MAX_VALUATORS)) ++
        ([] ++ (((range MAX_VALUATORS).filter (bitIsOn ev.mask)).flatMap (fun i => (double_to_fp3232 (ev.data i)).bytes) ++
          ([] ++ ((range MAX_VALUATORS).filter (bitIsOn ev.mask)).flatMap fun i =>
            (double_to_fp3232 (ev.data_raw i)).bytes))))) := by
    apply setRawAxes_loop
    · intro i hi
      have := mem_range.1 hi
      unfold MAX_VALUATORS at this
      omega
    · rfl
    · rfl
    · rw [hcount, zeros, length_replicate]
      rfl
    · rwa [hcount]
  rw [← haxes] at hdone
  have hlen : sizeof_xXIRawEvent + count_bits ev.mask * (sizeof_FP3232 * 2) + 2 * 4 - sizeof_xXIRawEvent =
      count_bits ev.mask * (sizeof_FP3232 * 2) + 8 := by
    omega
  have hvallen : bytes_to_int32 (bits_to_bytes MAX_VALUATORS) = 2 := rfl
  unfold eventToRawEvent
  rw [if_neg (by decide), hvallen, hlen]
  refine ⟨_, rfl, hdone, rfl, ?_⟩
  apply congrArg bytes_to_int32
  unfold sizeof_xXIRawEvent sizeof_xEvent sizeof_FP3232
  omega

/-- **Raw events**: the length is that of the bytes that were allocated, and the axes are read back with both kinds of values. -/
theorem raw_event_decoded (double_to_fp3232 : α → FP3232) (ev : RawDeviceEvent α) :
    ∃ e, eventToRawEvent double_to_fp3232 true ev = some e ∧ e.tail.inside = true ∧
      sizeof_xXIRawEvent + e.tail.mem.length = sizeof_xEvent + 4 * e.length ∧
      decodeRawEvent e = some ((onBits ev.mask).map fun i => (i, double_to_fp3232 (ev.data i)),
        (onBits ev.mask).map fun i => (i, double_to_fp3232 (ev.data_raw i))) := by
  obtain ⟨e, he, ⟨hmem, hinside⟩, hvaluators_len, hlength⟩ := eventToRawEvent_tail double_to_fp3232 ev
  have haxes := onBits_axes ev.mask_size ev.axes
  refine ⟨e, he, hinside, ?_, ?_⟩
  · rw [hmem, hlength, length_append, length_append, length_maskBytes, length_values, length_values, count_bits_eq]
    unfold bytes_to_int32 sizeof_xXIRawEvent sizeof_xEvent sizeof_FP3232
    omega
  · unfold decodeRawEvent
    dsimp only
    rw [hvaluators_len, hmem, take_left' (length_maskBytes _ _), drop_left' (length_maskBytes _ _),
      onBits_withBits (by decide), ← haxes, take_left' (length_values _ _), drop_left' (length_values _ _),
      readAxes_flatMap, readAxes_flatMap]
    rfl

end Xenia.Dix.EventConvert
