import Xenia.Dix.StateNotify

/-!
# What is sent of the state of a device

`recordsOf` lists the events in the order in which they are filled in, without `MORE_EVENTS`.

* `fillEvents_filled`: the array holds them, and all but the last one have `MORE_EVENTS`.
* `evcount_eq`: the events sent are these, and one more when the number of axes leaves 3 when
  divided by 6. Nothing was written to that one.
* `sent_carries`: the bits and axes that are sent are those of `recordsOf`, which `keyBytes_eq`,
  `buttonBytes_eq` and `axes_eq` work out.

`state_complete` puts them together.
-/

namespace Xenia.Dix.StateNotify

open List Function

/-! ### The array -/

section Fill

variable {s : Sev} {l : List SevRec} {r : SevRec} {dev : Device} {v : ValuatorClassRec}

/-- The array holds the events `l`, the ones before `ev` with `MORE_EVENTS`, and no others. -/
structure FilledBy (s : Sev) (l : List SevRec) : Prop where
  length : l.length = s.ev + 1
  recs : ∀ i, s.recs i = if i < s.ev then l[i]?.map SevRec.setMore else l[i]?

theorem start_filled (r : SevRec) : FilledBy (.start r) [r] := by
  refine ⟨rfl, fun i => ?_⟩
  cases i with
  | zero => rfl
  | succ i => rfl

theorem FilledBy.next (h : FilledBy s l) (r : SevRec) : FilledBy (s.next r) (l ++ [r]) := by
  have hlen := h.length
  refine ⟨by rw [length_append, hlen]; rfl, fun i => ?_⟩
  unfold Sev.next
  dsimp only
  rcases lt_trichotomy i (s.ev + 1) with hi | rfl | hi
  · rw [if_pos hi, update_of_ne (by omega), getElem?_append_left (by omega)]
    by_cases hev : i = s.ev
    · rw [hev, update_self, h.recs, if_neg (lt_irrefl _)]
    · rw [update_of_ne hev, h.recs, if_pos (by omega)]
  · rw [if_neg (lt_irrefl _), update_self, ← hlen, getElem?_concat_length]
  · rw [if_neg (by omega), update_of_ne (by omega), update_of_ne (by omega), h.recs,
      if_neg (by omega), getElem?_eq_none (by omega), getElem?_eq_none (by simp; omega)]

/-- The events of the axes from `first` on, 6 in each. -/
def valuatorRecs (dev : Device) (v : ValuatorClassRec) (first n : ℕ) : List SevRec :=
  (List.range n).map fun j => fixDeviceValuator dev v (first + 6 * j)

theorem valuatorRecs_succ (first n : ℕ) :
    valuatorRecs dev v first (n + 1) = fixDeviceValuator dev v first :: valuatorRecs dev v (first + 6) n := by
  unfold valuatorRecs
  rw [List.range_succ_eq_map, List.map_cons, List.map_map]
  refine congrArg₂ _ rfl (map_congr_left fun j _ => ?_)
  rw [comp_apply, Nat.mul_succ, Nat.add_comm (6 * j) 6, Nat.add_assoc]

/-- **The loop over the axes** fills in an event for every 6 of them. -/
theorem valuatorLoop_filled (fuel first : ℕ) (nval : ℤ) (hfuel : nval ≤ fuel) (h : FilledBy s l) :
    FilledBy (valuatorLoop dev v fuel nval first s) (l ++ valuatorRecs dev v first ((nval.toNat + 5) / 6)) := by
  have hnone : nval ≤ 0 → valuatorRecs dev v first ((nval.toNat + 5) / 6) = [] := by
    intro hle
    rw [Int.toNat_of_nonpos hle]
    rfl
  induction fuel generalizing s l nval first with
  | zero =>
    rw [hnone (by omega), append_nil]
    exact h
  | succ fuel ih =>
    unfold valuatorLoop
    split
    · rename_i hpos
      have hturns : (nval.toNat + 5) / 6 = ((nval - 6).toNat + 5) / 6 + 1 := by omega
      rw [hturns, valuatorRecs_succ, append_cons]
      refine ih (first + 6) (nval - 6) (by omega) (h.next _) fun hle => ?_
      rw [Int.toNat_of_nonpos hle]
      rfl
    · rename_i hle
      rw [hnone (by omega), append_nil]
      exact h

/-- The other buttons and the other keys, if there are any. -/
def buttonRecs (dev : Device) : List SevRec :=
  dev.button.elim [] fun b =>
    if 32 < b.numButtons then [.buttonState dev.id ((List.range (DOWN_LENGTH - 4)).map fun i => b.down (4 + i))] else []

def keyRecs (dev : Device) : List SevRec :=
  dev.key.elim [] fun k => if 32 < k.nkeys then [.keyState dev.id ((List.range 28).map fun i => k.down (4 + i))] else []

/-- The number of events with axes only. -/
def numValuatorRecs (v : ValuatorClassRec) : ℕ := ((v.numAxes - 3 : ℤ).toNat + 5) / 6

def axisRecs (dev : Device) : List SevRec :=
  dev.valuator.elim [] fun v => valuatorRecs dev v 3 (numValuatorRecs v)

/-- The events for a device, in the order in which they are filled in. -/
def recordsOf (dev : Device) : List SevRec :=
  [fixDeviceStateNotify dev dev.key dev.button dev.valuator 0] ++ buttonRecs dev ++ keyRecs dev ++ axisRecs dev

theorem fillButtons_filled (h : FilledBy s l) : FilledBy (fillButtons dev s) (l ++ buttonRecs dev) := by
  unfold fillButtons buttonRecs
  cases dev.button with
  | none => exact (append_nil _).symm ▸ h
  | some b =>
    dsimp only [Option.elim_some]
    split
    · exact h.next _
    · exact (append_nil _).symm ▸ h

theorem fillKeys_filled (h : FilledBy s l) : FilledBy (fillKeys dev s) (l ++ keyRecs dev) := by
  unfold fillKeys keyRecs
  cases dev.key with
  | none => exact (append_nil _).symm ▸ h
  | some k =>
    dsimp only [Option.elim_some]
    split
    · exact h.next _
    · exact (append_nil _).symm ▸ h

theorem fillAxes_filled (h : FilledBy s l) : FilledBy (fillAxes dev s) (l ++ axisRecs dev) := by
  unfold fillAxes axisRecs
  cases dev.valuator with
  | none => exact (append_nil _).symm ▸ h
  | some v => exact valuatorLoop_filled v.numAxes 3 (v.numAxes - 3) (by omega) h

/-- **The array** holds the events of the device. -/
theorem fillEvents_filled (dev : Device) : FilledBy (fillEvents dev) (recordsOf dev) :=
  fillAxes_filled (fillKeys_filled (fillButtons_filled (start_filled _)))

/-! ### How many are sent -/

/-- The axes that make for an event that is not filled in. -/
def extraRecs (dev : Device) : ℕ := dev.valuator.elim 0 fun v => if v.numAxes % 6 = 3 then 1 else 0

theorem numValuatorRecs_eq (v : ValuatorClassRec) :
    (((v.numAxes : ℤ) - 3) + 6).tdiv 6 = numValuatorRecs v + if v.numAxes % 6 = 3 then 1 else 0 := by
  unfold numValuatorRecs
  rw [Int.tdiv_eq_ediv_of_nonneg (by omega)]
  split
  · push_cast
    omega
  · push_cast
    omega

/-- **The number of events sent** is that of the events filled in, and one more for some
numbers of axes. -/
theorem evcount_eq (dev : Device) : evcount dev = (recordsOf dev).length + extraRecs dev := by
  unfold evcount recordsOf buttonRecs keyRecs axisRecs extraRecs
  rw [length_append, length_append, length_append, length_singleton]
  have hbutton : (dev.button.elim (0 : ℤ) fun b => if 32 < b.numButtons then 1 else 0) =
      ((dev.button.elim [] fun b => if 32 < b.numButtons then
        [SevRec.buttonState dev.id ((range (DOWN_LENGTH - 4)).map fun i => b.down (4 + i))] else []).length : ℕ) := by
    cases dev.button with
    | none => rfl
    | some b =>
      dsimp only [Option.elim_some]
      split <;> rfl
  have hkey : (dev.key.elim (0 : ℤ) fun k => if 32 < k.nkeys then 1 else 0) =
      ((dev.key.elim [] fun k => if 32 < k.nkeys then
        [SevRec.keyState dev.id ((range 28).map fun i => k.down (4 + i))] else []).length : ℕ) := by
    cases dev.key with
    | none => rfl
    | some k =>
      dsimp only [Option.elim_some]
      split <;> rfl
  rw [hbutton, hkey]
  cases dev.valuator with
  | none =>
    simp
  | some v =>
    dsimp only [Option.elim_some]
    rw [numValuatorRecs_eq]
    unfold valuatorRecs
    rw [length_map, length_range]
    push_cast
    ring

/-- **The array is large enough**, for what is filled in and for what is sent. -/
theorem recordsOf_length (dev : Device) : (recordsOf dev).length + extraRecs dev ≤ sevSize := by
  unfold recordsOf buttonRecs keyRecs axisRecs extraRecs sevSize MAX_VALUATORS
  rw [length_append, length_append, length_append, length_singleton]
  have hbutton : (dev.button.elim [] fun b => if 32 < b.numButtons then
      [SevRec.buttonState dev.id ((range (DOWN_LENGTH - 4)).map fun i => b.down (4 + i))] else []).length ≤ 1 := by
    cases dev.button with
    | none => exact Nat.zero_le _
    | some b =>
      dsimp only [Option.elim_some]
      split
      · exact le_rfl
      · exact Nat.zero_le _
  have hkey : (dev.key.elim [] fun k => if 32 < k.nkeys then
      [SevRec.keyState dev.id ((range 28).map fun i => k.down (4 + i))] else []).length ≤ 1 := by
    cases dev.key with
    | none => exact Nat.zero_le _
    | some k =>
      dsimp only [Option.elim_some]
      split
      · exact le_rfl
      · exact Nat.zero_le _
  cases dev.valuator with
  | none =>
    dsimp only [Option.elim_none, length_nil]
    omega
  | some v =>
    have hmax := v.le_max
    unfold MAX_VALUATORS at hmax
    dsimp only [Option.elim_some]
    unfold valuatorRecs numValuatorRecs
    rw [length_map, length_range]
    split <;> omega

end Fill

/-! ### What is sent -/

section Sent

variable {dev : Device} {α : Type} {m n : ℕ} {down : ℕ → UInt8}

/-- The events as they are sent: all but the last have `MORE_EVENTS`. -/
def marked (l : List SevRec) : List SevRec := l.mapIdx fun i r => if i + 1 < l.length then r.setMore else r

/-- **What is sent**: the events of the device, and the extra ones that are not filled in. -/
theorem sent_eq (dev : Device) :
    (range (evcount dev).toNat).map (fillEvents dev).recs =
      (marked (recordsOf dev)).map some ++ replicate (extraRecs dev) none := by
  have hfilled := fillEvents_filled dev
  have hlen := hfilled.length
  have hcount : (evcount dev).toNat = (recordsOf dev).length + extraRecs dev := by
    rw [evcount_eq]
    omega
  rw [hcount]
  refine ext_getElem? fun i => ?_
  have hmarked : (marked (recordsOf dev)).length = (recordsOf dev).length := length_mapIdx
  rw [getElem?_map]
  by_cases hi : i < (recordsOf dev).length
  · rw [getElem?_append_left (by rw [length_map, hmarked]; exact hi), getElem?_map,
      getElem?_range (by omega), Option.map_some, hfilled.recs]
    unfold marked
    rw [getElem?_mapIdx, getElem?_eq_getElem hi]
    dsimp only [Option.map_some]
    by_cases hlast : i < (fillEvents dev).ev
    · rw [if_pos hlast, if_pos (by omega)]
    · rw [if_neg hlast, if_neg (by omega)]
  · rw [getElem?_append_right (by rw [length_map]; omega), length_map,
      getElem?_replicate]
    by_cases hextra : i < (recordsOf dev).length + extraRecs dev
    · rw [if_pos (by omega), getElem?_range hextra, Option.map_some, hfilled.recs, if_neg (by omega),
        getElem?_eq_none (by omega)]
    · rw [if_neg (by omega), getElem?_eq_none (by rw [length_range]; omega)]
      rfl

/-- What the events sent carry, they carry with or without `MORE_EVENTS`. -/
theorem sent_carries (dev : Device) (f : SevRec → List α) (hf : ∀ r, f r.setMore = f r) :
    (((range (evcount dev).toNat).map (fillEvents dev).recs).filterMap id).flatMap f =
      (recordsOf dev).flatMap f := by
  rw [sent_eq, filterMap_append, filterMap_replicate_of_none rfl, append_nil, filterMap_map]
  have hall : ∀ l : List SevRec, l.filterMap (id ∘ some) = l := fun l => filterMap_some
  rw [hall]
  refine congrArg flatten (ext_getElem (by simp [marked]) fun i hi hi' => ?_)
  rw [getElem_map, getElem_map]
  unfold marked
  rw [getElem_mapIdx]
  split
  · exact hf _
  · rfl

/-- All events sent have been filled in when there is no extra one. -/
theorem sent_filled (dev : Device) :
    (∀ e ∈ (range (evcount dev).toNat).map (fillEvents dev).recs, e.isSome) ↔ extraRecs dev = 0 := by
  rw [sent_eq]
  constructor
  · intro h
    by_contra hne
    have hmem : (none : Option SevRec) ∈ replicate (extraRecs dev) none := mem_replicate.2 ⟨hne, rfl⟩
    exact nomatch h none (mem_append_right _ hmem)
  · intro h e he
    rw [h, replicate_zero, append_nil] at he
    obtain ⟨r, -, rfl⟩ := mem_map.1 he
    rfl

theorem setMore_deviceid (r : SevRec) : r.setMore.deviceid &&& MORE_EVENTS ≠ 0 := by
  have hbit : ∀ x : UInt8, (x ||| MORE_EVENTS) &&& MORE_EVENTS ≠ 0 := by
    intro x
    have hx : (x ||| MORE_EVENTS) &&& MORE_EVENTS = MORE_EVENTS := by
      rw [← UInt8.toBitVec_inj, UInt8.toBitVec_and, UInt8.toBitVec_or]
      ext i hi
      simp only [BitVec.getElem_and, BitVec.getElem_or]
      cases MORE_EVENTS.toBitVec[i] <;> simp
    rw [hx]
    decide
  cases r with
  | stateNotify e => exact hbit e.deviceid
  | buttonState deviceid _ => exact hbit deviceid
  | keyState deviceid _ => exact hbit deviceid
  | valuator deviceid _ _ _ => exact hbit deviceid

/-- All but the last event have `MORE_EVENTS` when there is no extra one. -/
theorem sent_more (h : extraRecs dev = 0) :
    ∀ e ∈ ((range (evcount dev).toNat).map (fillEvents dev).recs).dropLast,
      ∃ r, e = some r ∧ r.deviceid &&& MORE_EVENTS ≠ 0 := by
  rw [sent_eq, h, replicate_zero, append_nil, ← map_dropLast]
  intro e he
  obtain ⟨r, hr, rfl⟩ := mem_map.1 he
  obtain ⟨i, hi, rfl⟩ := getElem_of_mem hr
  have hlen : (marked (recordsOf dev)).length = (recordsOf dev).length := length_mapIdx
  rw [length_dropLast] at hi
  refine ⟨_, rfl, ?_⟩
  rw [getElem_dropLast]
  unfold marked
  rw [getElem_mapIdx, if_pos (by omega)]
  exact setMore_deviceid _

/-! ### What the events carry -/

theorem placed_range (first n : ℕ) (f : ℕ → α) :
    placed first ((range n).map f) = (range n).map fun i => (first + i, f i) := by
  unfold placed
  refine ext_getElem (by simp) fun i hi hi' => ?_
  simp

/-- A range of places in two parts. -/
theorem range_parts (m n : ℕ) (f : ℕ → α) :
    ((range m).map fun i => (i, f i)) ++ ((range n).map fun i => (m + i, f (m + i))) =
      (List.range (m + n)).map fun i => (i, f i) := by
  rw [List.range_add, List.map_append, List.map_map]
  rfl

/-- The bytes of the keys that are sent. -/
theorem keyBytes_eq {k : KeyClassRec} (hk : dev.key = some k) :
    (recordsOf dev).flatMap SevRec.keyBytes =
      (range (if 32 < k.nkeys then 32 else 4)).map fun i => (i, k.down i) := by
  have hbutton : (buttonRecs dev).flatMap SevRec.keyBytes = [] := by
    unfold buttonRecs
    cases dev.button with
    | none => rfl
    | some b =>
      dsimp only [Option.elim_some]
      split <;> rfl
  have haxes : (axisRecs dev).flatMap SevRec.keyBytes = [] := by
    unfold axisRecs
    cases dev.valuator with
    | none => rfl
    | some v =>
      rw [flatMap_eq_nil_iff]
      intro r hr
      obtain ⟨j, -, rfl⟩ := mem_map.1 hr
      rfl
  unfold recordsOf
  rw [flatMap_append, flatMap_append, flatMap_append, hbutton, haxes]
  have hfirst : [fixDeviceStateNotify dev dev.key dev.button dev.valuator 0].flatMap SevRec.keyBytes =
      (range 4).map fun i => (i, k.down i) := by
    rw [flatMap_singleton]
    unfold fixDeviceStateNotify SevRec.keyBytes
    rw [hk]
    dsimp only [Option.map_some, Option.getD_some]
    rw [placed_range]
    simp only [zero_add]
  rw [hfirst]
  unfold keyRecs
  rw [hk]
  dsimp only [Option.elim_some]
  split
  · rw [flatMap_singleton]
    unfold SevRec.keyBytes
    dsimp only
    exact range_parts 4 28 k.down
  · exact append_nil _

/-- The bytes of the buttons that are sent. -/
theorem buttonBytes_eq {b : ButtonClassRec} (hb : dev.button = some b) :
    (recordsOf dev).flatMap SevRec.buttonBytes =
      (range (if 32 < b.numButtons then 32 else 4)).map fun i => (i, b.down i) := by
  have hkey : (keyRecs dev).flatMap SevRec.buttonBytes = [] := by
    unfold keyRecs
    cases dev.key with
    | none => rfl
    | some k =>
      dsimp only [Option.elim_some]
      split <;> rfl
  have haxes : (axisRecs dev).flatMap SevRec.buttonBytes = [] := by
    unfold axisRecs
    cases dev.valuator with
    | none => rfl
    | some v =>
      rw [flatMap_eq_nil_iff]
      intro r hr
      obtain ⟨j, -, rfl⟩ := mem_map.1 hr
      rfl
  unfold recordsOf
  rw [flatMap_append, flatMap_append, flatMap_append, hkey, haxes]
  have hfirst : [fixDeviceStateNotify dev dev.key dev.button dev.valuator 0].flatMap SevRec.buttonBytes =
      (range 4).map fun i => (i, b.down i) := by
    rw [flatMap_singleton]
    unfold fixDeviceStateNotify SevRec.buttonBytes
    rw [hb]
    dsimp only [Option.map_some, Option.getD_some]
    rw [placed_range]
    simp only [zero_add]
  rw [hfirst]
  unfold buttonRecs
  rw [hb]
  dsimp only [Option.elim_some]
  split
  · rw [flatMap_singleton]
    unfold SevRec.buttonBytes
    dsimp only
    exact range_parts 4 28 b.down
  · exact append_nil _

variable {v : ValuatorClassRec}

/-- The axes of one event. -/
theorem fixDeviceValuator_axes {first : ℕ} (hfirst : first ≤ v.numAxes) :
    (fixDeviceValuator dev v first).axes =
      (range (min 6 (v.numAxes - first))).map fun i => (first + i, v.axisVal (first + i)) := by
  have hmax := v.le_max
  unfold MAX_VALUATORS at hmax
  have hnum : (UInt8.ofNat (if (v.numAxes : ℤ) - first < 6 then (v.numAxes : ℤ) - first else 6).toNat).toNat =
      min 6 (v.numAxes - first) := by
    rw [UInt8.toNat_ofNat_of_lt' (by show _ < 256; split <;> omega)]
    split <;> omega
  have hplace : (UInt8.ofNat first).toNat = first := UInt8.toNat_ofNat_of_lt' (by show _ < 256; omega)
  unfold fixDeviceValuator SevRec.axes
  dsimp only
  rw [placed_range, hnum, hplace]

/-- The axes of the further events, after the first `first` ones. -/
theorem valuatorRecs_axes (v : ValuatorClassRec) (n first : ℕ) (hfirst : first ≤ v.numAxes)
    (hn : n = (v.numAxes - first + 5) / 6) :
    ((range first).map fun i => (i, v.axisVal i)) ++ (valuatorRecs dev v first n).flatMap SevRec.axes =
      (range v.numAxes).map fun i => (i, v.axisVal i) := by
  induction n generalizing first with
  | zero =>
    have heq : first = v.numAxes := by omega
    rw [heq]
    exact append_nil _
  | succ n ih =>
    rw [valuatorRecs_succ, flatMap_cons, fixDeviceValuator_axes hfirst, ← append_assoc, range_parts]
    by_cases hlast : v.numAxes - first ≤ 6
    · have hzero : n = 0 := by omega
      rw [hzero, min_eq_right hlast, Nat.add_sub_cancel' hfirst]
      exact append_nil _
    · rw [min_eq_left (by omega)]
      exact ih (first + 6) (by omega) (by omega)

/-- **The axes** that are sent are all of them. -/
theorem axes_eq (hv : dev.valuator = some v) :
    (recordsOf dev).flatMap SevRec.axes = (List.range v.numAxes).map fun i => (i, v.axisVal i) := by
  have hbutton : (buttonRecs dev).flatMap SevRec.axes = [] := by
    unfold buttonRecs
    cases dev.button with
    | none => rfl
    | some b =>
      dsimp only [Option.elim_some]
      split <;> rfl
  have hkey : (keyRecs dev).flatMap SevRec.axes = [] := by
    unfold keyRecs
    cases dev.key with
    | none => rfl
    | some k =>
      dsimp only [Option.elim_some]
      split <;> rfl
  have hnum : (UInt8.ofNat (if (v.numAxes : ℤ) - (0 : ℕ) < 3 then (v.numAxes : ℤ) - (0 : ℕ) else 3).toNat).toNat =
      min 3 v.numAxes := by
    have hmax := v.le_max
    rw [UInt8.toNat_ofNat_of_lt' (by show _ < 256; split <;> omega)]
    split <;> omega
  have hfirst : [fixDeviceStateNotify dev dev.key dev.button dev.valuator 0].flatMap SevRec.axes =
      (List.range (min 3 v.numAxes)).map fun i => (i, v.axisVal i) := by
    rw [flatMap_singleton]
    unfold fixDeviceStateNotify SevRec.axes
    rw [hv]
    dsimp only [Option.elim_some]
    rw [placed_range, hnum]
    simp only [Nat.zero_add]
  unfold recordsOf
  rw [flatMap_append, flatMap_append, flatMap_append, hbutton, hkey, List.append_nil, List.append_nil,
    hfirst]
  unfold axisRecs
  rw [hv]
  dsimp only [Option.elim_some]
  unfold numValuatorRecs
  by_cases hfew : v.numAxes < 3
  · rw [min_eq_right hfew.le, show ((v.numAxes - 3 : ℤ).toNat + 5) / 6 = 0 by omega]
    exact List.append_nil _
  · rw [min_eq_left (by omega)]
    exact valuatorRecs_axes v _ 3 (by omega) (by omega)

/-- The first `m` bytes carry the bits in them. -/
theorem carries_range : CarriesBit ((List.range m).map fun i => (i, down i)) down n ↔ n / 8 < m := by
  unfold CarriesBit
  rw [List.filter_map]
  have hfilter : (range m).filter ((fun x : ℕ × UInt8 => decide (x.1 = n / 8)) ∘ fun i => (i, down i)) =
      if n / 8 < m then [n / 8] else [] := by
    change (range m).filter (fun i => decide (i = n / 8)) = _
    split
    · rename_i hlt
      have hbeq : (fun i => decide (i = n / 8)) = fun i : ℕ => i == n / 8 := by
        funext i
        exact (beq_eq_decide i (n / 8)).symm
      rw [hbeq, filter_beq, count_eq_one_of_mem nodup_range (mem_range.2 hlt)]
      exact replicate_one
    · rename_i hge
      rw [filter_eq_nil_iff]
      intro i hi heq
      rw [mem_range] at hi
      rw [decide_eq_true_eq] at heq
      omega
  rw [hfilter]
  split
  · rename_i hlt
    exact iff_of_true rfl hlt
  · rename_i hge
    exact iff_of_false (cons_ne_nil _ _).symm hge

/-- The condition on a device: the axes after the first three do not come in full sixes, no key
is outside the first event unless more than 32 are counted, and there are not just 32 buttons. -/
structure Fits (dev : Device) : Prop where
  axes : ∀ v, dev.valuator = some v → v.numAxes % 6 ≠ 3
  keys : ∀ k, dev.key = some k → k.min_key_code ≤ k.max_key_code → k.max_key_code < 32 ∨ 32 < k.nkeys
  buttons : ∀ b, dev.button = some b → b.numButtons ≠ 32

theorem extraRecs_eq_zero : extraRecs dev = 0 ↔ ∀ v, dev.valuator = some v → v.numAxes % 6 ≠ 3 := by
  unfold extraRecs
  cases dev.valuator with
  | none => exact iff_of_true rfl fun _ h => nomatch h
  | some v =>
    dsimp only [Option.elim_some]
    constructor
    · intro h v' hv'
      obtain rfl := Option.some.inj hv'
      intro heq
      rw [if_pos heq] at h
      exact nomatch h
    · intro h
      rw [if_neg (h v rfl)]

/-- The keys that are carried. -/
theorem keys_carried {k : KeyClassRec} (hk : dev.key = some k) :
    (∀ n, k.min_key_code.toNat ≤ n → n ≤ k.max_key_code.toNat →
        CarriesBit ((recordsOf dev).flatMap SevRec.keyBytes) k.down n) ↔
      (k.min_key_code ≤ k.max_key_code → k.max_key_code < 32 ∨ 32 < k.nkeys) := by
  have hmax := k.max_key_code.toNat_lt
  rw [UInt8.le_iff_toNat_le, keyBytes_eq hk]
  change _ ↔ (_ → k.max_key_code.toNat < 32 ∨ _)
  simp only [carries_range]
  constructor
  · intro h hle
    have hlast := h k.max_key_code.toNat hle le_rfl
    split at hlast
    · rename_i hmany
      exact .inr hmany
    · exact .inl (by omega)
  · intro h n hlow hhigh
    split
    · omega
    · rename_i hfew
      omega

/-- The buttons that are carried. -/
theorem buttons_carried {b : ButtonClassRec} (hb : dev.button = some b) :
    (∀ n, 1 ≤ n → n ≤ b.numButtons.toNat → CarriesBit ((recordsOf dev).flatMap SevRec.buttonBytes) b.down n) ↔
      b.numButtons ≠ 32 := by
  have hmax := b.numButtons.toNat_lt
  have heq : b.numButtons = 32 ↔ b.numButtons.toNat = 32 := UInt8.toNat_inj.symm
  have hlt : 32 < b.numButtons ↔ 32 < b.numButtons.toNat := UInt8.lt_iff_toNat_lt
  rw [buttonBytes_eq hb]
  simp only [carries_range]
  constructor
  · intro h hfull
    have hlast := h 32 (by decide) (heq.1 hfull).ge
    rw [hfull] at hlast
    exact absurd hlast (by decide)
  · intro h n _ hhigh
    split
    · omega
    · rename_i hfew
      rw [hlt] at hfew
      have := mt heq.2 h
      omega

/-- **The state of a device**: the array is never overrun, and the events sent to a window that
asks for them are complete exactly when the device fits. -/
theorem state_complete (dev : Device) :
    (fillEvents dev).ev < sevSize ∧
      ∃ sent, deliverStateNotifyEvent dev true = some sent ∧ (Complete dev sent ↔ Fits dev) := by
  have hlen := (fillEvents_filled dev).length
  have hsize := recordsOf_length dev
  refine ⟨by omega, (range (evcount dev).toNat).map (fillEvents dev).recs, ?_, ?_⟩
  · have hcount := evcount_eq dev
    unfold deliverStateNotifyEvent
    rw [if_neg (by decide), if_neg (by omega)]
  · have haxes := sent_carries dev SevRec.axes fun r => by cases r <;> rfl
    have hkeys := sent_carries dev SevRec.keyBytes fun r => by cases r <;> rfl
    have hbuttons := sent_carries dev SevRec.buttonBytes fun r => by cases r <;> rfl
    constructor
    · intro h
      refine ⟨extraRecs_eq_zero.1 ((sent_filled dev).1 h.filled), fun k hk => (keys_carried hk).1 ?_,
        fun b hb => (buttons_carried hb).1 ?_⟩
      · have hcarried := h.keys k hk
        rwa [hkeys] at hcarried
      · have hcarried := h.buttons b hb
        rwa [hbuttons] at hcarried
    · intro h
      have hextra := extraRecs_eq_zero.2 h.axes
      refine ⟨(sent_filled dev).2 hextra, sent_more hextra, fun v hv => ?_, fun k hk => ?_, fun b hb => ?_⟩
      · rw [haxes, axes_eq hv]
      · rw [hkeys]
        exact (keys_carried hk).2 (h.keys k hk)
      · rw [hbuttons]
        exact (buttons_carried hb).2 (h.buttons b hb)

end Sent

/-- A device with three axes and nothing else. -/
def threeAxes : Device where
  id := 2
  key := none
  button := none
  valuator := some ⟨3, fun _ => 0, 0, by decide, by decide⟩

/-- **An event too many**: for three axes two events are sent, and nothing was written to the
second. -/
theorem threeAxes_sent :
    ∃ sent, deliverStateNotifyEvent threeAxes true = some sent ∧ sent.length = 2 ∧ none ∈ sent ∧
      ¬Complete threeAxes sent := by
  refine ⟨_, rfl, by decide +kernel, ?_, fun h => ?_⟩
  · exact mem_of_getElem? (i := 1) rfl
  · have hfilled := h.filled none (mem_of_getElem? (i := 1) rfl)
    exact nomatch hfilled

end Xenia.Dix.StateNotify
