import Xenia.Dix.EventConvertDecode

/-!
# What the other wire events say

A client walks the classes of a device that changed by their length fields (`walk`, `device_changed_walked`) and collects the axes of
XI 1 records (`recordAxes`, `xi1_axes_collected`). `event_encoding_correct` has all four converters.
-/

namespace Xenia.Dix.EventConvert

open Xenia.Lib List

/-! ## Records of a device that changed -/

/-- The records of some bytes, cut by their length fields, as many as are announced; `none` when they do not end where the bytes end. -/
def walk : ℕ → List Byte → Option (List (List Byte))
  | 0, [] => some []
  | 0, _ :: _ => none
  | classes + 1, bs =>
    let size := (readCard16 (bs.drop 2)).toNat * 4
    if bs.length < size then none else (walk classes (bs.drop size)).map (bs.take size :: ·)

/-- The length field of a record counts it in four bytes. -/
def Sized (r : List Byte) : Prop := 4 ≤ r.length ∧ (readCard16 (r.drop 2)).toNat * 4 = r.length

/-- Records with their own lengths are found by walking. -/
theorem walk_flatten {rs : List (List Byte)} (h : ∀ r ∈ rs, Sized r) : walk rs.length rs.flatten = some rs := by
  induction rs with
  | nil => rfl
  | cons r rest ih =>
    obtain ⟨hfour, hsize⟩ := h r mem_cons_self
    have hlen : (readCard16 ((r ++ rest.flatten).drop 2)).toNat * 4 = r.length := by
      rw [drop_append_of_le_length (by omega), ← hsize]
      unfold readCard16
      rw [getD_append _ _ _ _ (by rw [length_drop]; omega), getD_append _ _ _ _ (by rw [length_drop]; omega)]
    rw [flatten_cons, length_cons, walk, hlen, if_neg (by rw [length_append]; omega), drop_left, take_left,
      ih fun x hx => h x (mem_cons_of_mem _ hx)]
    rfl

variable {α : Type} {double_to_fp3232 : α → FP3232} {dce : DeviceChangedEvent α}

theorem length_card16 (x : ℕ) : (card16 x).length = 2 := length_leBytes _ _

theorem length_classHeader (type : CARD16) (length : ℕ) (sourceid : CARD16) (last : ℕ) :
    (classHeader type length sourceid last).length = 8 := by
  unfold classHeader
  rw [length_append, length_append, length_append, length_card16, length_card16, length_leBytes, length_leBytes]

/-- A record with its length in the header. -/
theorem sized_classHeader {type sourceid : CARD16} {length last : ℕ} {rest : List Byte} (hlength : length < 2 ^ 16)
    (hrest : 8 + rest.length = length * 4) : Sized (classHeader type length sourceid last ++ rest) := by
  constructor
  · rw [length_append, length_classHeader]
    omega
  · rw [length_append, length_classHeader, hrest]
    unfold classHeader
    rw [append_assoc, append_assoc, append_assoc, drop_left' (length_leBytes _ _), card16, readCard16_leBytes,
      BitVec.toNat_ofNat, Nat.mod_eq_of_lt hlength]

/-! The records that the appends write. -/

def buttonRecord (dce : DeviceChangedEvent α) : List Byte :=
  classHeader XIButtonClass (2 + dce.names.length + bytes_to_int32 (bits_to_bytes dce.names.length)) dce.sourceid dce.names.length ++
    (List.replicate (bytes_to_int32 (bits_to_bytes dce.names.length) * 4) 0 ++ dce.names.flatMap (leBytes 4))

def keyRecord (dce : DeviceChangedEvent α) : List Byte :=
  classHeader XIKeyClass (2 + nkeys dce) dce.sourceid (nkeys dce) ++
    (List.range (nkeys dce)).flatMap fun i => leBytes 4 (BitVec.ofNat 32 (i + dce.min_keycode))

def valuatorRecord (double_to_fp3232 : α → FP3232) (dce : DeviceChangedEvent α) (v : Valuator α × ℕ) : List Byte :=
  classHeader XIValuatorClass 11 dce.sourceid v.2 ++
    (leBytes 4 v.1.name ++ (FP3232.mk v.1.min 0).bytes ++ (FP3232.mk v.1.max 0).bytes ++ (double_to_fp3232 v.1.value).bytes ++
      leBytes 4 v.1.resolution ++ leBytes 1 v.1.mode ++ [0, 0, 0])

def scrollRecord (double_to_fp3232 : α → FP3232) (dce : DeviceChangedEvent α) (v : Valuator α × ℕ) : List Byte :=
  classHeader XIScrollClass 6 dce.sourceid v.2 ++
    (card16 (scrollType v.1.scroll.type) ++ [0, 0] ++ leBytes 4 (scrollFlags v.1.scroll) ++
      (double_to_fp3232 v.1.scroll.increment).bytes)

def scrolls (v : Valuator α × ℕ) : Bool := v.1.scroll.type ≠ .SCROLL_TYPE_NONE

def classRecords (double_to_fp3232 : α → FP3232) (dce : DeviceChangedEvent α) : List (List Byte) :=
  (if dce.names.length ≠ 0 then [buttonRecord dce] else []) ++ (if nkeys dce ≠ 0 then [keyRecord dce] else []) ++
    dce.valuators.zipIdx.map (valuatorRecord double_to_fp3232 dce) ++
    (dce.valuators.zipIdx.filter scrolls).map (scrollRecord double_to_fp3232 dce)

theorem length_flatMap_leBytes {β : Type} (f : β → CARD32) (l : List β) : (l.flatMap fun x => leBytes 4 (f x)).length = 4 * l.length := by
  rw [length_flatMap]
  simp only [length_leBytes, map_const', sum_replicate, smul_eq_mul]
  rw [Nat.mul_comm]

theorem length_buttonRecord (dce : DeviceChangedEvent α) : (buttonRecord dce).length =
    8 + (bytes_to_int32 (bits_to_bytes dce.names.length) * 4 + 4 * dce.names.length) := by
  unfold buttonRecord
  rw [length_append, length_classHeader, length_append, length_replicate, length_flatMap_leBytes]

theorem length_keyRecord (dce : DeviceChangedEvent α) : (keyRecord dce).length = 8 + 4 * nkeys dce := by
  unfold keyRecord
  rw [length_append, length_classHeader, length_flatMap_leBytes, length_range]

theorem length_valuatorRecord (double_to_fp3232 : α → FP3232) (dce : DeviceChangedEvent α) (v : Valuator α × ℕ) :
    (valuatorRecord double_to_fp3232 dce v).length = 44 := by
  rfl

theorem length_scrollRecord (double_to_fp3232 : α → FP3232) (dce : DeviceChangedEvent α) (v : Valuator α × ℕ) :
    (scrollRecord double_to_fp3232 dce v).length = 24 := by
  rfl

theorem nkeys_le (dce : DeviceChangedEvent α) : nkeys dce ≤ 256 := by
  obtain ⟨hmin, hmax⟩ := dce.keys_ok
  unfold nkeys
  split <;> omega

/-- A mask of at most `MAX_BUTTONS` bits. -/
theorem mask_len_le (dce : DeviceChangedEvent α) : bytes_to_int32 (bits_to_bytes dce.names.length) ≤ 8 := by
  have := dce.buttons_ok
  unfold bytes_to_int32 bits_to_bytes
  unfold MAX_BUTTONS at this
  omega

theorem classRecords_sized : ∀ r ∈ classRecords double_to_fp3232 dce, Sized r := by
  intro r hr
  unfold classRecords at hr
  rw [mem_append, mem_append, mem_append] at hr
  rcases hr with ((hbutton | hkey) | hvaluator) | hscroll
  · split at hbutton
    · rw [mem_singleton.1 hbutton]
      have hlen := length_buttonRecord dce
      have hmask := mask_len_le dce
      have hnames := dce.buttons_ok
      unfold MAX_BUTTONS at hnames
      unfold buttonRecord at hlen
      rw [length_append, length_classHeader] at hlen
      apply sized_classHeader <;> omega
    · exact absurd hbutton not_mem_nil
  · split at hkey
    · rw [mem_singleton.1 hkey]
      have hlen := length_keyRecord dce
      have hkeys := nkeys_le dce
      unfold keyRecord at hlen
      rw [length_append, length_classHeader] at hlen
      apply sized_classHeader <;> omega
    · exact absurd hkey not_mem_nil
  · obtain ⟨v, -, rfl⟩ := mem_map.1 hvaluator
    have hlen := length_valuatorRecord double_to_fp3232 dce v
    unfold valuatorRecord at hlen
    rw [length_append, length_classHeader] at hlen
    apply sized_classHeader <;> omega
  · obtain ⟨v, -, rfl⟩ := mem_map.1 hscroll
    have hlen := length_scrollRecord double_to_fp3232 dce v
    unfold scrollRecord at hlen
    rw [length_append, length_classHeader] at hlen
    apply sized_classHeader <;> omega

/-- The axes that scroll, numbered from any number on. -/
theorem length_scrollRecords (double_to_fp3232 : α → FP3232) (dce : DeviceChangedEvent α) (l : List (Valuator α)) (k : ℕ) :
    (((l.zipIdx k).filter scrolls).map (scrollRecord double_to_fp3232 dce)).flatten.length =
      (l.map fun v => if v.scroll.type ≠ .SCROLL_TYPE_NONE then sizeof_xXIScrollInfo else 0).sum := by
  induction l generalizing k with
  | nil => rfl
  | cons v rest ih =>
    rw [zipIdx_cons, map_cons, sum_cons, ← ih (k + 1)]
    by_cases hscroll : v.scroll.type = .SCROLL_TYPE_NONE
    · rw [filter_cons_of_neg (by simp [scrolls, hscroll]), if_neg (by simp [hscroll]), Nat.zero_add]
    · rw [filter_cons_of_pos (by simp [scrolls, hscroll]), if_pos hscroll, map_cons, flatten_cons, length_append]
      rfl

/-- The records take the bytes that were counted. -/
theorem length_classRecords (double_to_fp3232 : α → FP3232) (dce : DeviceChangedEvent α) :
    sizeof_xXIDeviceChangedEvent + (classRecords double_to_fp3232 dce).flatten.length = deviceChangedLen dce := by
  have hbutton : (if dce.names.length ≠ 0 then [buttonRecord dce] else []).flatten.length =
      if dce.names.length ≠ 0 then
        sizeof_xXIButtonInfo + dce.names.length * sizeof_Atom + pad_to_int32 (bits_to_bytes dce.names.length) else 0 := by
    split
    · rw [flatten_singleton, length_buttonRecord]
      unfold sizeof_xXIButtonInfo sizeof_Atom pad_to_int32 bytes_to_int32
      omega
    · rfl
  have hkey : (if nkeys dce ≠ 0 then [keyRecord dce] else []).flatten.length =
      if nkeys dce > 0 then sizeof_xXIKeyInfo + sizeof_CARD32 * nkeys dce else 0 := by
    by_cases hzero : nkeys dce = 0
    · simp [hzero]
    · rw [if_pos hzero, if_pos (by omega), flatten_singleton, length_keyRecord]
      rfl
  have hvaluator : (dce.valuators.zipIdx.map (valuatorRecord double_to_fp3232 dce)).flatten.length =
      sizeof_xXIValuatorInfo * dce.valuators.length := by
    rw [← flatMap_def, length_flatMap]
    simp only [length_valuatorRecord, map_const', sum_replicate, length_zipIdx]
    exact Nat.mul_comm _ _
  have haxes : (if dce.valuators.length ≠ 0 then
      sizeof_xXIValuatorInfo * dce.valuators.length +
        (dce.valuators.map fun v => if v.scroll.type ≠ .SCROLL_TYPE_NONE then sizeof_xXIScrollInfo else 0).sum else 0) =
      sizeof_xXIValuatorInfo * dce.valuators.length +
        (dce.valuators.map fun v => if v.scroll.type ≠ .SCROLL_TYPE_NONE then sizeof_xXIScrollInfo else 0).sum := by
    cases dce.valuators with
    | nil => rfl
    | cons v rest => exact if_pos (Nat.succ_ne_zero _)
  unfold classRecords deviceChangedLen
  dsimp only
  rw [flatten_append, flatten_append, flatten_append, length_append, length_append, length_append, length_scrollRecords]
  omega

/-! ## Filling them -/

/-- An append that stores a record at its pointer and counts its bytes, whatever is around. -/
def Writes (append : ℕ → Buffer → Buffer × ℕ) (r : List Byte) : Prop :=
  ∀ (b : Buffer) (pre : List Byte) (room : ℕ), b.Holds (pre ++ (List.replicate r.length 0 ++ List.replicate room 0)) →
    (append pre.length b).1.Holds (pre ++ (r ++ List.replicate room 0)) ∧ (append pre.length b).2 = r.length

/-- These records have been appended, and there is room left. -/
structure Filled (s : Filling) (rs : List (List Byte)) (room : ℕ) : Prop where
  holds : s.buffer.Holds (rs.flatten ++ List.replicate room 0)
  ptr : s.ptr = rs.flatten.length
  classes : s.num_classes = rs.length

variable {s : Filling} {rs : List (List Byte)} {room : ℕ}

/-- One more record. -/
theorem Filled.append {append : ℕ → Buffer → Buffer × ℕ} {r : List Byte} (hs : Filled s rs (r.length + room))
    (happend : Writes append r) : Filled (s.append 1 append) (rs ++ [r]) room := by
  have hholds := hs.holds
  rw [← replicate_append_replicate] at hholds
  obtain ⟨hstored, hmoved⟩ := happend _ _ _ hholds
  rw [← hs.ptr] at hstored hmoved
  constructor
  · rw [flatten_append, flatten_singleton, append_assoc]
    exact hstored
  · change s.ptr + (append s.ptr s.buffer).2 = _
    rw [hmoved, hs.ptr, flatten_append, flatten_singleton, length_append]
  · change s.num_classes + 1 = _
    rw [hs.classes, length_append, length_singleton]

/-- A record for each of some items. -/
theorem Filled.foldl {β : Type} {append : β → ℕ → Buffer → Buffer × ℕ} {record : β → List Byte} {l : List β}
    (hl : ∀ x ∈ l, Writes (append x) (record x)) (hs : Filled s rs ((l.map record).flatten.length + room)) :
    Filled (l.foldl (fun s x => s.append 1 (append x)) s) (rs ++ l.map record) room := by
  induction l generalizing s rs with
  | nil =>
    rw [map_nil, append_nil]
    rw [map_nil, flatten_nil, length_nil, Nat.zero_add] at hs
    exact hs
  | cons x rest ih =>
    rw [map_cons, flatten_cons, length_append, Nat.add_assoc] at hs
    rw [foldl_cons, map_cons, ← singleton_append, ← append_assoc]
    apply ih fun y hy => hl y (mem_cons_of_mem _ hy)
    exact hs.append (hl x mem_cons_self)

/-- A record that may be left out. -/
theorem Filled.append_if {append : ℕ → Buffer → Buffer × ℕ} {r : List Byte} {p : Prop} [Decidable p]
    (happend : p → Writes append r) (hs : Filled s rs ((if p then [r] else []).flatten.length + room)) :
    Filled (if p then s.append 1 append else s) (rs ++ if p then [r] else []) room := by
  by_cases hp : p
  · rw [if_pos hp, flatten_singleton] at hs
    rw [if_pos hp, if_pos hp]
    exact hs.append (happend hp)
  · rw [if_neg hp, flatten_nil, length_nil, Nat.zero_add] at hs
    rw [if_neg hp, if_neg hp, append_nil]
    exact hs

/-- One store. -/
theorem writes_store {append : ℕ → Buffer → Buffer × ℕ} {r : List Byte}
    (happend : ∀ ptr b, append ptr b = (b.store ptr r, r.length)) : Writes append r := by
  intro b pre room h
  rw [happend]
  exact ⟨Buffer.store_mid h rfl (by rw [length_replicate]), rfl⟩

theorem appendValuatorInfo_writes (v : Valuator α × ℕ) :
    Writes (appendValuatorInfo double_to_fp3232 dce v.2 v.1) (valuatorRecord double_to_fp3232 dce v) := by
  apply writes_store
  intro ptr b
  rfl

theorem appendScrollInfo_writes {v : Valuator α × ℕ} (hv : scrolls v = true) :
    Writes (appendScrollInfo double_to_fp3232 dce v.2 v.1) (scrollRecord double_to_fp3232 dce v) := by
  have hscroll : v.1.scroll.type ≠ .SCROLL_TYPE_NONE := by simpa [scrolls] using hv
  apply writes_store
  intro ptr b
  unfold appendScrollInfo
  rw [if_neg hscroll]
  rfl

theorem appendButtonInfo_writes (dce : DeviceChangedEvent α) : Writes (appendButtonInfo dce) (buttonRecord dce) := by
  have hmask := mask_len_le dce
  have hnames := dce.buttons_ok
  unfold MAX_BUTTONS at hnames
  have hlength : (bytes_to_int32 sizeof_xXIButtonInfo + dce.names.length + bytes_to_int32 (bits_to_bytes dce.names.length)) % 2 ^ 16 =
      2 + dce.names.length + bytes_to_int32 (bits_to_bytes dce.names.length) := Nat.mod_eq_of_lt (by
    unfold bytes_to_int32 sizeof_xXIButtonInfo
    unfold bytes_to_int32 at hmask
    omega)
  intro b pre room h
  unfold appendButtonInfo
  dsimp only
  rw [hlength]
  refine ⟨?_, by rw [length_buttonRecord]; omega⟩
  unfold buttonRecord at h ⊢
  rw [length_append, length_append] at h
  -- the header, the mask and the names, each to the first of the zeros
  have hheader := Buffer.store_zeros h rfl
  have hbits : pre.length + sizeof_xXIButtonInfo = (pre ++ classHeader XIButtonClass
      (2 + dce.names.length + bytes_to_int32 (bits_to_bytes dce.names.length)) dce.sourceid dce.names.length).length := by
    rw [length_append]
    rfl
  have hmasked := Buffer.store_zeros hheader hbits
  have hnamed : (dce.names.flatMap (leBytes 4)).length = (List.replicate (dce.names.flatMap (leBytes 4)).length (0 : Byte)).length := by
    rw [length_replicate]
  have hdone := Buffer.store_mid hmasked rfl hnamed
  rw [length_append, ← hbits, length_replicate] at hdone
  simpa only [append_assoc] using hdone

/-- The loop over the keycodes. -/
theorem keycodes_loop {b : Buffer} {pre post : List Byte} {ptr : ℕ} (f : ℕ → CARD32) (l : List ℕ) (hptr : ptr = pre.length)
    (h : b.Holds (pre ++ (List.replicate (4 * l.length) 0 ++ post))) :
    (l.foldl (fun (s : Buffer × ℕ) i => (s.1.store s.2 (leBytes 4 (f i)), s.2 + 4)) (b, ptr)).1.Holds
      (pre ++ (l.flatMap (fun i => leBytes 4 (f i)) ++ post)) := by
  induction l generalizing b pre ptr with
  | nil => exact h
  | cons i rest ih =>
    have hroom : 4 * (i :: rest).length = 4 + 4 * rest.length := by
      rw [length_cons]
      omega
    rw [hroom, ← replicate_append_replicate, append_assoc] at h
    have hword : (leBytes 4 (f i)).length = (List.replicate 4 (0 : Byte)).length := by
      rw [length_leBytes, length_replicate]
    have hstore := Buffer.store_mid h hptr hword
    rw [← append_assoc] at hstore
    rw [flatMap_cons, append_assoc, ← append_assoc]
    apply ih _ hstore
    rw [hptr, length_append, length_leBytes]

theorem appendKeyInfo_writes (hkeys : nkeys dce ≠ 0) : Writes (appendKeyInfo dce) (keyRecord dce) := by
  have hle := nkeys_le dce
  have hnum : (dce.max_keycode - dce.min_keycode + 1) % 2 ^ 16 = nkeys dce := by
    unfold nkeys at hkeys hle ⊢
    split at hkeys
    next hmax =>
      rw [if_pos hmax] at hle ⊢
      exact Nat.mod_eq_of_lt (by omega)
    · exact absurd rfl hkeys
  have hlength : (sizeof_xXIKeyInfo / 4 + nkeys dce) % 2 ^ 16 = 2 + nkeys dce := Nat.mod_eq_of_lt (by
    unfold sizeof_xXIKeyInfo
    omega)
  intro b pre room h
  unfold appendKeyInfo
  dsimp only
  rw [hnum, hlength]
  refine ⟨?_, by rw [length_keyRecord]; omega⟩
  have hsize : (keyRecord dce).length =
      (classHeader XIKeyClass (2 + nkeys dce) dce.sourceid (nkeys dce)).length + 4 * (List.range (nkeys dce)).length := by
    rw [length_keyRecord, length_classHeader, length_range]
  rw [hsize] at h
  unfold keyRecord
  rw [append_assoc, ← append_assoc]
  apply keycodes_loop
  · rw [length_append]
    rfl
  · exact Buffer.store_zeros h rfl

/-- The records are filled one after the other. -/
theorem fillClasses_filled (double_to_fp3232 : α → FP3232) (dce : DeviceChangedEvent α) :
    Filled (fillClasses double_to_fp3232 dce
      { buffer := .calloc (classRecords double_to_fp3232 dce).flatten.length, ptr := 0, num_classes := 0 })
      (classRecords double_to_fp3232 dce) 0 := by
  have hscroll : ∀ s : Filling, dce.valuators.zipIdx.foldl (fun s v =>
      if v.1.scroll.type ≠ .SCROLL_TYPE_NONE then s.append 1 (appendScrollInfo double_to_fp3232 dce v.2 v.1) else s) s =
      (dce.valuators.zipIdx.filter scrolls).foldl (fun s v =>
        s.append 1 (appendScrollInfo double_to_fp3232 dce v.2 v.1)) s := by
    intro s
    rw [foldl_filter]
    refine congrArg (fun f => List.foldl f s dce.valuators.zipIdx) ?_
    funext s v
    simp [scrolls]
  unfold fillClasses
  rw [hscroll]
  unfold classRecords
  apply Filled.foldl
  · intro v hv
    exact appendScrollInfo_writes (mem_filter.1 hv).2
  apply Filled.foldl
  · intro v _
    exact appendValuatorInfo_writes v
  apply Filled.append_if
  · exact appendKeyInfo_writes
  rw [← nil_append (if dce.names.length ≠ 0 then _ else _)]
  apply Filled.append_if
  · exact fun _ => appendButtonInfo_writes dce
  constructor
  · rw [nil_append]
    simp only [flatten_append, length_append, Nat.add_assoc]
    exact Buffer.calloc_holds _
  · rfl
  · rfl

theorem length_classRecords_le (double_to_fp3232 : α → FP3232) (dce : DeviceChangedEvent α) :
    (classRecords double_to_fp3232 dce).length < 2 ^ 16 := by
  have haxes := dce.valuators_ok
  have hscrolls := length_filter_le scrolls dce.valuators.zipIdx
  rw [length_zipIdx] at hscrolls
  unfold MAX_VALUATORS at haxes
  unfold classRecords
  rw [length_append, length_append, length_append, length_map, length_map, length_zipIdx]
  have hone : ∀ (p : Prop) [Decidable p] (r : List Byte), (if p then [r] else []).length ≤ 1 := by
    intro p _ r
    split <;> simp
  have hbutton := hone (dce.names.length ≠ 0) (buttonRecord dce)
  have hkey := hone (nkeys dce ≠ 0) (keyRecord dce)
  omega

/-- **Device changed events**: the length is that of the bytes that were allocated, and walking as many classes as are announced finds
the records of the buttons, the keys, the axes and the axes that scroll, and ends where the bytes end. -/
theorem device_changed_walked (double_to_fp3232 : α → FP3232) (dce : DeviceChangedEvent α) :
    ∃ e, eventToDeviceChanged double_to_fp3232 true dce = some e ∧ e.tail.inside = true ∧
      sizeof_xXIDeviceChangedEvent + e.tail.mem.length = sizeof_xEvent + 4 * e.length ∧ e.num_classes < 2 ^ 16 ∧
      walk e.num_classes e.tail.mem = some (classRecords double_to_fp3232 dce) := by
  have hlen := length_classRecords double_to_fp3232 dce
  have hsized : ∀ r ∈ classRecords double_to_fp3232 dce, Sized r := classRecords_sized
  have hfour : ∃ k, (classRecords double_to_fp3232 dce).flatten.length = 4 * k := by
    generalize classRecords double_to_fp3232 dce = rs at hsized
    induction rs with
    | nil => exact ⟨0, rfl⟩
    | cons r rest ih =>
      obtain ⟨k, hk⟩ := ih fun x hx => hsized x (mem_cons_of_mem _ hx)
      obtain ⟨-, hr⟩ := hsized r mem_cons_self
      refine ⟨(readCard16 (r.drop 2)).toNat + k, ?_⟩
      rw [flatten_cons, length_append]
      omega
  obtain ⟨k, hk⟩ := hfour
  obtain ⟨⟨hmem, hinside⟩, -, hclasses⟩ := fillClasses_filled double_to_fp3232 dce
  rw [replicate_zero, append_nil] at hmem
  have hroom : deviceChangedLen dce - sizeof_xXIDeviceChangedEvent = (classRecords double_to_fp3232 dce).flatten.length := by
    omega
  unfold eventToDeviceChanged
  rw [if_neg (by decide), hroom]
  refine ⟨_, rfl, hinside, ?_, ?_, ?_⟩
  · change sizeof_xXIDeviceChangedEvent + (fillClasses _ _ _).buffer.mem.length =
      sizeof_xEvent + 4 * bytes_to_int32 (deviceChangedLen dce - sizeof_xEvent)
    rw [hmem, ← hlen]
    unfold bytes_to_int32 sizeof_xXIDeviceChangedEvent sizeof_xEvent
    omega
  · change (fillClasses _ _ _).num_classes < _
    rw [hclasses]
    exact length_classRecords_le double_to_fp3232 dce
  · change walk (fillClasses _ _ _).num_classes (fillClasses _ _ _).buffer.mem = _
    rw [hclasses, hmem]
    exact walk_flatten hsized

/-! ## XI 1 records -/

/-- The axes that a record has, and their values. -/
def axesOf (r : deviceValuator) : List (ℕ × CARD32) :=
  (List.range r.num_valuators.toNat).map fun j => (r.first_valuator.toNat + j, r.valuators.getD j 0)

def recordAxes (records : List deviceValuator) : List (ℕ × CARD32) := records.flatMap axesOf

/-- The axes from the first to the last that is set. -/
def axisSpan (mask : List Byte) : List ℕ :=
  match (onBits mask).head?, (onBits mask).getLast? with
  | some first, some last => List.range' first (last + 1 - first)
  | _, _ => []

/-- The loop over the axes remembers the first and the last that it has met. -/
theorem firstLast_onBits {mask : List Byte} {first : ℕ} {rest : List ℕ} (h : onBits mask = first :: rest) :
    firstLast mask = some (first, (first :: rest).getLast (List.cons_ne_nil _ _)) := by
  have hmet : ∀ (turn : Option (ℕ × ℕ) → ℕ → Option (ℕ × ℕ)), (∀ last i, turn (some (first, last)) i = some (first, i)) →
      ∀ (l : List ℕ) (last : ℕ), l.foldl turn (some (first, last)) = some (first, (last :: l).getLast (cons_ne_nil _ _)) := by
    intro turn hturn l
    induction l with
    | nil =>
      intro last
      rfl
    | cons i l ih =>
      intro last
      rw [foldl_cons, hturn, ih, getLast_cons (cons_ne_nil _ _)]
  unfold firstLast
  rw [← foldl_filter]
  change (onBits mask).foldl _ none = _
  rw [h]
  exact hmet _ (fun _ _ => rfl) rest first

theorem firstLast_nil {mask : List Byte} (h : onBits mask = []) : firstLast mask = none := by
  unfold firstLast
  rw [← foldl_filter]
  change (onBits mask).foldl _ none = _
  rw [h]
  rfl

/-- What `countValuators` finds. -/
theorem countValuators_spec (mask : List Byte) :
    axisSpan mask = List.range' (countValuators mask).2 (countValuators mask).1 ∧
      ((countValuators mask).1 = 0 ↔ onBits mask = []) ∧
      ∀ n, (∀ i ∈ onBits mask, i < n) → (countValuators mask).2 + (countValuators mask).1 ≤ n := by
  unfold axisSpan countValuators
  cases hon : onBits mask with
  | nil =>
    rw [firstLast_nil hon]
    exact ⟨rfl, ⟨fun _ => rfl, fun _ => rfl⟩, fun n _ => Nat.zero_le n⟩
  | cons first rest =>
    rw [firstLast_onBits hon, List.head?_cons, List.getLast?_eq_some_getLast (cons_ne_nil _ _)]
    have hlast := getLast_mem (cons_ne_nil first rest)
    generalize (first :: rest).getLast (cons_ne_nil _ _) = last at hlast
    have hsorted : (onBits mask).Pairwise (· < ·) := pairwise_lt_range.filter _
    rw [hon, pairwise_cons] at hsorted
    have hle : first ≤ last := by
      rcases mem_cons.1 hlast with rfl | hrest
      · exact Nat.le_refl _
      · exact Nat.le_of_lt (hsorted.1 last hrest)
    dsimp only
    refine ⟨?_, ?_, ?_⟩
    · rw [Nat.sub_add_comm hle]
    · constructor
      · intro hzero
        exact absurd hzero (Nat.succ_ne_zero _)
      · intro hnil
        exact absurd hnil (cons_ne_nil _ _)
    · intro n hn
      have := hn last hlast
      omega

variable {value : ℕ → CARD32} {deviceid : CARD8} {state : CARD16} {first num : ℕ}

/-- The record at the axis `first + i`. -/
theorem axesOf_record {i : ℕ} (value : ℕ → CARD32) (state : CARD16) (id : CARD8) (hnum : first + num ≤ MAX_VALUATORS) (hi : i < num) :
    axesOf
      { first_valuator := BitVec.ofNat 8 (first + i)
        num_valuators := BitVec.ofNat 8 (min 6 (num - i))
        deviceid := id
        device_state := state
        valuators := ((List.range (min 6 (num - i))).map fun j => value ((BitVec.ofNat 8 (first + i)).toNat + j)) ++
          List.replicate (6 - min 6 (num - i)) 0 } =
      (List.range' (first + i) (min 6 (num - i))).map fun k => (k, value k) := by
  unfold MAX_VALUATORS at hnum
  have hfirst : (BitVec.ofNat 8 (first + i)).toNat = first + i := by
    rw [BitVec.toNat_ofNat]
    omega
  have hcount : (BitVec.ofNat 8 (min 6 (num - i))).toNat = min 6 (num - i) := by
    rw [BitVec.toNat_ofNat]
    omega
  unfold axesOf
  rw [hfirst, hcount, List.range'_eq_map_range, map_map]
  apply map_congr_left
  intro j hj
  rw [mem_range] at hj
  rw [getD_append _ _ _ _ (by rwa [length_map, length_range]), getD_eq_getElem _ _ (by rwa [length_map,
    length_range]), getElem_map, getElem_range]
  rfl

/-- **The records of an XI 1 event**: they have the axes once and in order, at most six each, and all but the last are followed. -/
theorem valuatorRecords_spec (value : ℕ → CARD32) (deviceid : CARD8) (state : CARD16) (hnum : first + num ≤ MAX_VALUATORS) (i : ℕ) :
    recordAxes (valuatorRecords value deviceid state first num i) =
        (List.range' (first + i) (num - i)).map (fun k => (k, value k)) ∧
      (valuatorRecords value deviceid state first num i).length = (num - i + 5) / 6 ∧
      (∀ r ∈ valuatorRecords value deviceid state first num i, 0 < r.num_valuators.toNat ∧ r.num_valuators.toNat ≤ 6) ∧
      (i < num → (valuatorRecords value deviceid state first num i).map (·.deviceid) =
        List.replicate ((num - i + 5) / 6 - 1) (deviceid ||| MORE_EVENTS) ++ [deviceid]) := by
  fun_induction valuatorRecords value deviceid state first num i with
  | case1 i hi num_valuators first_valuator ih =>
    obtain ⟨haxes, hlength, hsix, hids⟩ := ih
    have hmin : num_valuators = min 6 (num - i) := by
      have hdef : num_valuators = if num - i > 6 then 6 else num - i := rfl
      rw [hdef]
      split <;> omega
    have hrecord := axesOf_record value state (if i + 6 < num then deviceid ||| MORE_EVENTS else deviceid) hnum hi
    rw [← hmin] at hrecord
    have hsplit : num - i = num_valuators + (num - (i + 6)) := by omega
    refine ⟨?_, ?_, ?_, ?_⟩
    · change axesOf _ ++ recordAxes _ = _
      rw [haxes]
      refine (congrArg (· ++ _) hrecord).trans ?_
      rw [← map_append]
      apply congrArg
      by_cases hmore : i + 6 < num
      · have hsix : num_valuators = 6 := by omega
        rw [hsplit, hsix, ← List.range'_append_1]
        rfl
      · have hnone : num - (i + 6) = 0 := by omega
        rw [hsplit, hnone, List.range'_zero, append_nil, Nat.add_zero]
    · rw [length_cons]
      omega
    · intro r hr
      rcases mem_cons.1 hr with rfl | hr
      · dsimp only
        rw [BitVec.toNat_ofNat]
        omega
      · exact hsix r hr
    · intro _
      rw [map_cons]
      by_cases hmore : i + 6 < num
      · have hcount : (num - i + 5) / 6 - 1 = (num - (i + 6) + 5) / 6 - 1 + 1 := by omega
        rw [hids hmore, if_pos hmore, hcount]
        rfl
      · have hcount : (num - i + 5) / 6 - 1 = 0 := by omega
        have hend : valuatorRecords value deviceid state first num (i + 6) = [] := by
          unfold valuatorRecords
          rw [if_neg hmore]
        rw [hend, if_neg hmore, hcount]
        rfl
  | case2 i hi =>
    have hzero : num - i = 0 := by omega
    rw [hzero]
    exact ⟨rfl, rfl, fun r hr => absurd hr not_mem_nil, fun h => absurd h hi⟩

/-- What XI 1 cannot say: the button or the device has no number there, or an event without axes that only reports axes. -/
def xi1Refused (ev : DeviceEvent α) : Prop :=
  ev.button > 0xFF ∨ ev.deviceid ≥ 0x80 ∨ (onBits ev.mask = [] ∧ withoutAxes ev.type ≠ Success)

theorem withoutMoreEvents {deviceid : ℕ} (h : deviceid < 0x80) : BitVec.ofNat 8 deviceid &&& MORE_EVENTS = 0 := by
  have : ∀ id < 0x80, BitVec.ofNat 8 id &&& MORE_EVENTS = 0 := by decide
  exact this deviceid h

/-- **XI 1 events**: an event is refused, or its records have the axes from the first to the last set one once and in order, at most six
each; the event and its records but the last have `MORE_EVENTS`. -/
theorem xi1_axes_collected (toInt : α → CARD32) (state : CARD16) (ev : DeviceEvent α) :
    ∃ r, eventToKeyButtonPointer toInt state true ev = r ∧
      ((xi1Refused ev ∧ r.count = 0 ∧ r.event = none ∧ r.records = []) ∨
      (¬ xi1Refused ev ∧ r.rc = Success ∧ r.count = 1 + r.records.length ∧
        recordAxes r.records = (axisSpan ev.mask).map (fun i => (i, toInt (ev.data i))) ∧
        (∀ v ∈ r.records, 0 < v.num_valuators.toNat ∧ v.num_valuators.toNat ≤ 6) ∧
        ∃ e, r.event = some e ∧ BitVec.ofNat 8 ev.deviceid &&& MORE_EVENTS = 0 ∧
          e.deviceid :: r.records.map (·.deviceid) =
            List.replicate r.records.length (BitVec.ofNat 8 ev.deviceid ||| MORE_EVENTS) ++ [BitVec.ofNat 8 ev.deviceid])) := by
  refine ⟨_, rfl, ?_⟩
  obtain ⟨hspan, hzero, hbound⟩ := countValuators_spec ev.mask
  have hnum : (countValuators ev.mask).2 + (countValuators ev.mask).1 ≤ MAX_VALUATORS := by
    apply hbound
    intro i hi
    rw [onBits_axes ev.mask_size ev.axes, mem_filter, mem_range] at hi
    exact hi.1
  have hrecords := valuatorRecords_spec (fun i => toInt (ev.data i)) (BitVec.ofNat 8 ev.deviceid) state hnum 0
  rw [Nat.sub_zero, Nat.add_zero, ← hspan] at hrecords
  obtain ⟨haxes, hlength, hsix, hids⟩ := hrecords
  unfold eventToKeyButtonPointer getValuatorEvents
  dsimp only
  by_cases hnumbers : ev.button > 0xFF ∨ ev.deviceid ≥ 0x80
  · rw [if_pos hnumbers]
    left
    refine ⟨?_, rfl, rfl, rfl⟩
    unfold xi1Refused
    rw [← or_assoc]
    exact .inl hnumbers
  rw [if_neg hnumbers]
  have hid : BitVec.ofNat 8 ev.deviceid &&& MORE_EVENTS = 0 := by
    apply withoutMoreEvents
    omega
  by_cases hnone : onBits ev.mask = []
  · have hrest : ((countValuators ev.mask).1 + 5) / 6 = 0 := by
      rw [hzero.2 hnone]
    have hspan : axisSpan ev.mask = [] := by
      unfold axisSpan
      rw [hnone]
      rfl
    rw [hrest]
    by_cases htype : withoutAxes ev.type = Success
    · rw [if_neg (by simp [htype])]
      right
      refine ⟨?_, rfl, rfl, ?_, fun v hv => absurd hv not_mem_nil, _, rfl, hid, rfl⟩
      · rintro (hbutton | hdevice | ⟨-, hother⟩)
        · exact hnumbers (.inl hbutton)
        · exact hnumbers (.inr hdevice)
        · exact hother htype
      · rw [hspan]
        rfl
    · rw [if_pos ⟨rfl, htype⟩]
      left
      exact ⟨.inr (.inr ⟨hnone, htype⟩), rfl, rfl, rfl⟩
  · have hpos : 0 < (countValuators ev.mask).1 := Nat.pos_of_ne_zero fun h => hnone (hzero.1 h)
    rw [if_neg (by omega), if_neg (by decide), if_pos (by omega), if_pos (by omega)]
    right
    refine ⟨?_, rfl, ?_, haxes, hsix, _, rfl, hid, ?_⟩
    · rintro (hbutton | hdevice | ⟨hnil, -⟩)
      · exact hnumbers (.inl hbutton)
      · exact hnumbers (.inr hdevice)
      · exact hnone hnil
    · rw [hlength, Nat.add_comm]
    · rw [hids hpos, hlength]
      have hcount : ((countValuators ev.mask).1 + 5) / 6 = ((countValuators ev.mask).1 + 5) / 6 - 1 + 1 := by omega
      rw [← cons_append, ← replicate_succ, ← hcount]

/-- **Events are encoded faithfully**, for any conversion of axis values. The length of a device, raw or device-changed event is that of
the bytes allocated and all stores are inside; buttons, axes and values are read back; the classes are those announced, and walking them
by their lengths ends at the end; and the records of an XI 1 event have the axes from the first to the last set one, in order. -/
theorem event_encoding_correct (double_to_fp3232 : α → FP3232) (toInt : α → CARD32) (state : CARD16) :
    (∀ ev : DeviceEvent α, ∃ e, eventToDeviceEvent double_to_fp3232 true ev = some e ∧ e.tail.inside = true ∧
      sizeof_xXIDeviceEvent + e.tail.mem.length = sizeof_xEvent + 4 * e.length ∧
      decodeDeviceEvent e = some (onBits ev.buttons, (onBits ev.mask).map fun i => (i, double_to_fp3232 (ev.data i)))) ∧
    (∀ ev : RawDeviceEvent α, ∃ e, eventToRawEvent double_to_fp3232 true ev = some e ∧ e.tail.inside = true ∧
      sizeof_xXIRawEvent + e.tail.mem.length = sizeof_xEvent + 4 * e.length ∧
      decodeRawEvent e = some ((onBits ev.mask).map fun i => (i, double_to_fp3232 (ev.data i)),
        (onBits ev.mask).map fun i => (i, double_to_fp3232 (ev.data_raw i)))) ∧
    (∀ dce : DeviceChangedEvent α, ∃ e, eventToDeviceChanged double_to_fp3232 true dce = some e ∧ e.tail.inside = true ∧
      sizeof_xXIDeviceChangedEvent + e.tail.mem.length = sizeof_xEvent + 4 * e.length ∧ e.num_classes < 2 ^ 16 ∧
      walk e.num_classes e.tail.mem = some (classRecords double_to_fp3232 dce)) ∧
    ∀ ev : DeviceEvent α, ∃ r, eventToKeyButtonPointer toInt state true ev = r ∧
      ((xi1Refused ev ∧ r.count = 0 ∧ r.event = none ∧ r.records = []) ∨
      (¬ xi1Refused ev ∧ r.rc = Success ∧ r.count = 1 + r.records.length ∧
        recordAxes r.records = (axisSpan ev.mask).map (fun i => (i, toInt (ev.data i))) ∧
        (∀ v ∈ r.records, 0 < v.num_valuators.toNat ∧ v.num_valuators.toNat ≤ 6) ∧
        ∃ e, r.event = some e ∧ BitVec.ofNat 8 ev.deviceid &&& MORE_EVENTS = 0 ∧
          e.deviceid :: r.records.map (·.deviceid) =
            List.replicate r.records.length (BitVec.ofNat 8 ev.deviceid ||| MORE_EVENTS) ++ [BitVec.ofNat 8 ev.deviceid])) :=
  ⟨device_event_decoded double_to_fp3232, raw_event_decoded double_to_fp3232, device_changed_walked double_to_fp3232,
    xi1_axes_collected toInt state⟩

end Xenia.Dix.EventConvert
