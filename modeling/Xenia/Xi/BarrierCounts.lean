import Xenia.Xi.BarrierRuns

/-!
# How many events a motion makes

`Regular` is what every operation keeps, also when event ids run over: records are distinct and barriers are lines.
From it follows how many events one motion makes (`motion_count`): at most two hits, as the pointer is stopped at most
once on each axis, and a leave for each barrier it had hit before, passes or hits. A pointer that stays where
it is hits nothing and leaves only what it is away from (`stay_count`).
-/

namespace Xenia.Xi.Barriers

open Xenia.Lib List Option

variable {next screen master : ℕ} {pbds : List PointerBarrierDevice} {p q r : PointerBarrierDevice}
  {barriers before after : List PointerBarrierClient} {c : PointerBarrierClient}
  {blocking : PointerBarrier → ℤ → ℤ → ℤ → ℤ → Option ℚ} {mv : Motion} {m m' : Moving} {s : BarrierState}

/-! ## What every operation keeps -/

def IsLine (barrier : PointerBarrier) : Prop := barrier_is_horizontal barrier = !barrier_is_vertical barrier

structure Regular (s : BarrierState) : Prop where
  apart : Distinct (recordsOf s.barriers) s.nextSerial
  lines : ∀ c ∈ s.barriers, IsLine c.barrier

theorem lines_put (hlines : ∀ c ∈ barriers, IsLine c.barrier) : ∀ c ∈ barriers.map (·.put q), IsLine c.barrier := by
  intro c hc
  obtain ⟨c', hc', rfl⟩ := mem_map.1 hc
  exact hlines c' hc'

theorem Regular.put (hs : Regular s) (hp : p ∈ recordsOf s.barriers) (hserial : q.serial = p.serial)
    (log : List (ℕ × Happening)) : Regular { s with barriers := s.barriers.map (·.put q), log := log } where
  apart := by
    rw [recordsOf_put]
    exact hs.apart.put hp hserial
  lines := lines_put hs.lines

theorem release_regular {client : ℕ} {infos : List ReleaseInfo} (hs : Regular s) :
    Regular (ProcXIBarrierReleasePointer client s infos).1 := by
  induction infos generalizing s with
  | nil => exact hs
  | cons info rest ih =>
    unfold ProcXIBarrierReleasePointer
    split
    · exact hs
    · split
      · exact hs
      next barrier hfind =>
        split
        · exact hs
        · split
          · exact hs
          next pbd hget =>
            by_cases heq : pbd.barrier_event_id.toUInt32 = info.eventid
            · rw [if_pos heq]
              have hp := mem_records (mem_of_find?_eq_some hfind) hget
              exact ih (hs.put (q := { pbd with release_event_id := info.eventid.toInt32 }) hp rfl _)
            · rw [if_neg heq]
              exact ih hs

theorem sort_min_max_eq {a b : ℤ} : (sort_min_max a b).1 = (sort_min_max a b).2 ↔ a = b := by
  unfold sort_min_max
  split
  · exact Iff.rfl
  · simp only
    omega

variable {stuff : CreateRequest}

/-- A barrier made by a request is a line. -/
theorem toBarrier_isLine (hline : stuff.isLine = true) : IsLine stuff.toBarrier := by
  have hx : barrier_is_vertical stuff.toBarrier = (stuff.x1 == stuff.x2) := by
    rw [Bool.eq_iff_iff]
    simp only [barrier_is_vertical, beq_iff_eq]
    exact sort_min_max_eq
  have hy : barrier_is_horizontal stuff.toBarrier = (stuff.y1 == stuff.y2) := by
    rw [Bool.eq_iff_iff]
    simp only [barrier_is_horizontal, beq_iff_eq]
    exact sort_min_max_eq
  unfold IsLine
  rw [hx, hy]
  unfold CreateRequest.isLine at hline
  revert hline
  cases stuff.x1 == stuff.x2 <;> cases stuff.y1 == stuff.y2 <;> simp

theorem create_regular (hs : Regular s) : Regular (XICreatePointerBarrier s stuff).1 := by
  obtain heq | ⟨hline, per_device, halloc, heq | heq⟩ := create_cases s stuff
  · rw [heq]
    exact hs
  · rw [heq]
    exact ⟨hs.apart.mono (Nat.le_add_right _ _), hs.lines⟩
  · rw [heq]
    obtain ⟨hapart, -⟩ := allocDevices_spec Distinct.grows (recordsOf s.barriers) hs.apart (by simp) halloc
    refine ⟨hapart, fun c hc => ?_⟩
    rcases mem_cons.1 hc with rfl | hc
    · exact toBarrier_isLine hline
    · exact hs.lines c hc

variable {deviceid : ℕ} {answers : List Bool}

theorem add_master_func_lines (hlines : ∀ c ∈ barriers, IsLine c.barrier) :
    ∀ c ∈ add_master_func deviceid next answers barriers, IsLine c.barrier := by
  induction barriers generalizing next answers with
  | nil => exact hlines
  | cons c' rest ih =>
    intro c hc
    rcases mem_cons.1 hc with rfl | hc
    · have := hlines c' mem_cons_self
      split
      · exact this
      · exact this
    · exact ih (fun c hc => hlines c (mem_cons_of_mem _ hc)) c hc

theorem addDevice_regular {kind : DeviceKind} (hs : Regular s) :
    Regular (addDevice s deviceid kind answers) := by
  unfold addDevice
  split
  · exact hs
  · split
    · exact ⟨add_master_func_spec Distinct.grows [] deviceid answers hs.apart, add_master_func_lines hs.lines⟩
    · exact ⟨hs.apart, hs.lines⟩

theorem free_regular {id root : ℕ} {ms : UInt32} (hs : Regular s) : Regular (BarrierFreeBarrier s id root ms) := by
  unfold BarrierFreeBarrier
  split
  · exact hs
  next c hfind => exact ⟨hs.apart.drop (free_perm hfind), fun c hc => hs.lines c (mem_of_mem_eraseP hc)⟩

theorem removeMaster_regular {root : ℕ} {ms : UInt32} (hs : Regular s) :
    Regular (removeMaster s deviceid root ms) := by
  unfold removeMaster
  split
  · refine ⟨hs.apart.drop (remove_perm s.barriers deviceid), fun c hc => ?_⟩
    obtain ⟨c', hc', rfl⟩ := mem_map.1 hc
    exact hs.lines c' hc'
  · exact hs

/-! ## Counting barriers -/

/-- The pointer has hit the barrier and not left it. -/
def held (master : ℕ) (c : PointerBarrierClient) : Bool := (GetBarrierDevice c master).any (·.hit)

/-- The pointer has hit the barrier, or it is released. -/
def touched (master : ℕ) (c : PointerBarrierClient) : Bool :=
  (GetBarrierDevice c master).any fun pbd => pbd.hit || pbd.barrier_event_id == pbd.release_event_id

/-- The pointer has hit the barrier, and is not at it. -/
def away (master : ℕ) (x y : ℤ) (c : PointerBarrierClient) : Bool :=
  held master c && !barrier_inside_hit_box c.barrier x y

variable (master) in
theorem held_le_touched (l : List PointerBarrierClient) : l.countP (held master) ≤ l.countP (touched master) := by
  refine countP_mono_left fun c _ hc => ?_
  unfold held at hc
  unfold touched
  cases hget : GetBarrierDevice c master with
  | none => simp [hget] at hc
  | some pbd =>
    rw [hget, any_some] at hc
    simp [hc]

variable (master) in
theorem away_le_held (l : List PointerBarrierClient) (x y : ℤ) :
    l.countP (away master x y) ≤ l.countP (held master) := by
  refine countP_mono_left fun c _ hc => ?_
  unfold away at hc
  rw [Bool.and_eq_true] at hc
  exact hc.1

theorem put_of_unrelated (hne : ∀ r ∈ c.per_device, r.serial ≠ q.serial) : c.put q = c := by
  unfold PointerBarrierClient.put
  have : c.per_device.map q.over = c.per_device := by
    rw [List.map_congr_left fun r hr => over_other (hne r hr), List.map_id']
  rw [this]

/-- Only the barrier whose record it is changes when a record is written back. -/
theorem map_put (hnodup : ((recordsOf (before ++ c :: after)).map (·.serial)).Nodup) (hp : p ∈ c.per_device)
    (hserial : q.serial = p.serial) : (before ++ c :: after).map (·.put q) = before ++ c.put q :: after := by
  unfold recordsOf at hnodup
  rw [flatMap_append, flatMap_cons, map_append, map_append, nodup_append, nodup_append]
    at hnodup
  obtain ⟨-, ⟨-, -, hafter⟩, hbefore⟩ := hnodup
  have hmem : q.serial ∈ c.per_device.map (·.serial) := by
    rw [hserial]
    exact mem_map_of_mem hp
  have hfixed : ∀ l : List PointerBarrierClient, (∀ n ∈ (l.flatMap (·.per_device)).map (·.serial), n ≠ q.serial) →
      l.map (·.put q) = l := by
    intro l hne
    have : ∀ c ∈ l, c.put q = c := fun c hc => put_of_unrelated fun r hr =>
      hne r.serial (mem_map_of_mem (mem_flatMap.2 ⟨c, hc, hr⟩))
    rw [List.map_congr_left this, List.map_id']
  rw [map_append, map_cons, hfixed before, hfixed after]
  · exact fun n hn heq => hafter _ hmem _ hn heq.symm
  · exact fun n hn heq => hbefore _ hn _ (mem_append_left _ hmem) heq

variable (screen) in
/-- The barriers of a screen have distinct records too. -/
theorem Distinct.onScreen_nodup (hw : Distinct (recordsOf barriers) next) :
    ((recordsOf (onScreen screen barriers)).map (·.serial)).Nodup :=
  hw.serials.sublist ((filter_sublist.flatMap _).map _)

/-- Looking up the record that has been written back. -/
theorem GetBarrierDevice_put_self (hnodup : (c.per_device.map (·.serial)).Nodup) (hget : GetBarrierDevice c master = some p)
    (hserial : q.serial = p.serial) (hdev : q.deviceid = p.deviceid) : GetBarrierDevice (c.put q) master = some q := by
  have hp : p ∈ c.per_device := mem_of_find?_eq_some hget
  rw [GetBarrierDevice_put, hget, map_some, over_self hserial.symm]
  intro r hr heq
  have : r = p := inj_on_of_nodup_map hnodup hr hp (heq.trans hserial)
  rw [this, hdev]

/-! ## The hits -/

/-- The geometry knows no distance to a line for a motion along it: in the source that is a division by zero. -/
def Along (blocking : PointerBarrier → ℤ → ℤ → ℤ → ℤ → Option ℚ) : Prop :=
  ∀ barrier x1 y1 x2 y2 distance, blocking barrier x1 y1 x2 y2 = some distance →
    if barrier_is_vertical barrier then x1 ≠ x2 else y1 ≠ y2

/-- The number of axes on which the pointer still moves. -/
def Moving.axes (m : Moving) : ℕ := (if m.current_x = m.x then 0 else 1) + (if m.current_y = m.y then 0 else 1)

theorem Moving.axes_le (m : Moving) : m.axes ≤ 2 := by
  unfold Moving.axes
  split <;> split <;> omega

/-- What holds between the turns of the first loop; `n` barriers were hit or released before the motion. -/
structure HitsOk (mv : Motion) (master next n : ℕ) (m : Moving) : Prop where
  apart : Distinct (recordsOf m.barriers) next
  lines : ∀ c ∈ m.barriers, IsLine c.barrier
  hits : m.barrier_events.length + m.axes ≤ 2
  touched : (onScreen mv.screen m.barriers).countP (touched master) ≤ n + m.barrier_events.length

variable {barrier : PointerBarrier}

theorem clamp_vertical (hline : IsLine barrier) (hvertical : barrier_is_vertical barrier = true)
    (dir : BitVec 32) (x y : ℤ) : (barrier_clamp_to_barrier barrier dir x y).2 = y := by
  unfold barrier_clamp_to_barrier
  rw [hline, hvertical]
  rfl

theorem clamp_horizontal (hvertical : barrier_is_vertical barrier = false)
    (dir : BitVec 32) (x y : ℤ) : (barrier_clamp_to_barrier barrier dir x y).1 = x := by
  unfold barrier_clamp_to_barrier
  rw [hvertical]
  rfl

/-- The barrier that stops the pointer takes an axis. -/
theorem axes_lt {distance : ℚ} (halong : Along blocking) (hline : IsLine c.barrier)
    (hblocking : blocking c.barrier m.current_x m.current_y m.x m.y = some distance)
    (hclamp : (m'.x, m'.y) = barrier_clamp_to_barrier c.barrier m.dir m.x m.y)
    (hx : m'.current_x = if barrier_is_vertical c.barrier then m'.x else m.current_x)
    (hy : m'.current_y = if !barrier_is_vertical c.barrier && barrier_is_horizontal c.barrier then m'.y else m.current_y) :
    m'.axes < m.axes := by
  have hmoves := halong _ _ _ _ _ _ hblocking
  unfold Moving.axes
  cases hvertical : barrier_is_vertical c.barrier with
  | true =>
    have hrow : m'.y = m.y := (congrArg Prod.snd hclamp).trans (clamp_vertical hline hvertical _ _ _)
    rw [hvertical] at hmoves hx hy
    rw [if_neg hmoves, hx, hy, hrow]
    simp
  | false =>
    have hcolumn : m'.x = m.x := (congrArg Prod.fst hclamp).trans (clamp_horizontal hvertical _ _ _)
    have hhorizontal : barrier_is_horizontal c.barrier = true := by rw [hline, hvertical]; rfl
    rw [hvertical] at hmoves hx hy
    rw [hhorizontal] at hy
    simp only [Bool.not_false, Bool.and_true, if_true, Bool.false_eq_true, if_false] at hmoves hx hy
    rw [if_neg hmoves, hx, hy, hcolumn, if_pos (rfl : m'.y = m'.y)]
    omega

/-- A record is written back that was touched before, or one more is touched. -/
theorem touched_put (hw : Distinct (recordsOf barriers) next) (hc : c ∈ onScreen screen barriers)
    (hget : GetBarrierDevice c master = some p) (hserial : q.serial = p.serial) :
    (onScreen screen (barriers.map (·.put q))).countP (touched master) ≤
        (onScreen screen barriers).countP (touched master) + (if touched master c then 0 else 1) := by
  have hnodup := hw.onScreen_nodup screen
  rw [onScreen_put]
  obtain ⟨before, after, hsplit⟩ := append_of_mem hc
  rw [hsplit] at hnodup ⊢
  rw [map_put hnodup (mem_of_find?_eq_some hget) hserial, countP_append, countP_append, countP_cons,
    countP_cons]
  cases touched master c with
  | true => split <;> simp
  | false => split <;> simp; omega

variable {n : ℕ}

theorem hitTurn_count (halong : Along blocking) (hm : HitsOk mv master next n m)
    (hrun : hitTurn blocking mv master m = some m') : HitsOk mv master next n m' := by
  obtain ⟨-, c, pbd, hc, hget, -, ⟨distance, hblocking⟩, hturn⟩ := hitTurn_cases hrun
  have hp := mem_records (mem_onScreen hc) hget
  obtain ⟨heq, rfl⟩ | ⟨heq, hbarriers, ⟨ev, -, -, -, hevents⟩, hclamp, hx, hy⟩ := hturn
  · -- the pointer is released: the barrier was counted before
    have htouched : touched master c = true := by
      unfold touched
      rw [hget]
      simp [heq]
    refine ⟨?_, lines_put hm.lines, hm.hits, ?_⟩
    · unfold Moving.passed
      rw [recordsOf_put]
      exact hm.apart.put hp rfl
    · have hcount := touched_put (q := { pbd with seen := true, hit := true }) hm.apart hc hget rfl
      rw [if_pos htouched] at hcount
      exact hcount.trans hm.touched
  · have hlt := axes_lt halong (hm.lines c (mem_onScreen hc)) hblocking hclamp hx hy
    have hlength : m'.barrier_events.length = m.barrier_events.length + 1 := by rw [hevents]; simp
    refine ⟨?_, ?_, ?_, ?_⟩
    · rw [hbarriers, recordsOf_put]
      exact hm.apart.put hp rfl
    · rw [hbarriers]
      exact lines_put hm.lines
    · have := hm.hits
      omega
    · have hcount := touched_put (q := { pbd with seen := true, hit := true, last_timestamp := mv.ms }) hm.apart hc hget rfl
      rw [hbarriers]
      have := hm.touched
      split at hcount <;> omega

theorem hitLoop_count (halong : Along blocking) (turns : ℕ) (hm : HitsOk mv master next n m) :
    HitsOk mv master next n (hitLoop blocking mv master turns m) := by
  induction turns generalizing m with
  | zero => exact hm
  | succ turns ih =>
    unfold hitLoop
    split
    · exact hm
    next m' hrun => exact ih (hitTurn_count halong hm hrun)

/-! ## The leaves -/

/-- What holds between the turns of the second loop: it is done with the barriers `before`, and those of `after` are
as they were. Each leave takes a barrier away from those that are held. -/
structure LeavesOk (mv : Motion) (master next total outside : ℕ) (before after : List PointerBarrierClient) (m : Moving) :
    Prop where
  apart : Distinct (recordsOf m.barriers) next
  lines : ∀ c ∈ m.barriers, IsLine c.barrier
  screen : onScreen mv.screen m.barriers = before ++ after
  settled : ∀ c ∈ before, away master m.x m.y c = false
  heldCount : m.barrier_events.length + (before ++ after).countP (held master) ≤ total
  awayCount : m.barrier_events.length + (before ++ after).countP (away master m.x m.y) ≤ outside

variable {total outside : ℕ}

section

variable (hm : LeavesOk mv master next total outside before (c :: after) m)
include hm

/-- The record of the next barrier is written back. -/
theorem LeavesOk.put {q : PointerBarrierDevice}
    (hget : GetBarrierDevice c master = some p) (hserial : q.serial = p.serial) (hdev : q.deviceid = p.deviceid)
    (hbarriers : m'.barriers = m.barriers.map (·.put q)) (hx : m'.x = m.x) (hy : m'.y = m.y)
    (hsettled : (q.hit && !barrier_inside_hit_box c.barrier m.x m.y) = false)
    (hevents : (m'.barrier_events.length = m.barrier_events.length ∧ q.hit = p.hit) ∨
      (m'.barrier_events.length = m.barrier_events.length + 1 ∧ q.hit = false ∧ p.hit = true ∧
        barrier_inside_hit_box c.barrier m.x m.y = false)) :
    LeavesOk mv master next total outside (before ++ [c.put q]) after m' := by
  have hnodup := hm.apart.onScreen_nodup mv.screen
  rw [hm.screen] at hnodup
  have hc : c ∈ onScreen mv.screen m.barriers := by
    rw [hm.screen]
    simp
  have hp := mem_records (mem_onScreen hc) hget
  have hown : (c.per_device.map (·.serial)).Nodup := by
    unfold recordsOf at hnodup
    rw [flatMap_append, flatMap_cons, map_append, map_append, nodup_append, nodup_append]
      at hnodup
    exact hnodup.2.1.1
  have hget' := GetBarrierDevice_put_self hown hget hserial hdev
  have hheld : held master c = p.hit := by
    unfold held
    rw [hget, any_some]
  have hheld' : held master (c.put q) = q.hit := by
    unfold held
    rw [hget', any_some]
  have haway : away master m.x m.y c = (p.hit && !barrier_inside_hit_box c.barrier m.x m.y) := by
    unfold away
    rw [hheld]
  have haway' : away master m.x m.y (c.put q) = (q.hit && !barrier_inside_hit_box c.barrier m.x m.y) := by
    unfold away
    rw [hheld']
    rfl
  have hcountHeld := hm.heldCount
  have hcountAway := hm.awayCount
  rw [countP_append, countP_cons, hheld] at hcountHeld
  rw [countP_append, countP_cons, haway] at hcountAway
  refine ⟨?_, ?_, ?_, ?_, ?_, ?_⟩
  · rw [hbarriers, recordsOf_put]
    exact hm.apart.put hp hserial
  · rw [hbarriers]
    exact lines_put hm.lines
  · rw [hbarriers, onScreen_put, hm.screen, map_put hnodup (mem_of_find?_eq_some hget) hserial]
    simp
  · intro c' hc'
    rw [hx, hy]
    rcases mem_append.1 hc' with hc' | hc'
    · exact hm.settled c' hc'
    · rw [mem_singleton.1 hc', haway']
      exact hsettled
  · rw [append_assoc, singleton_append, countP_append, countP_cons, hheld']
    obtain ⟨hlength, hsame⟩ | ⟨hlength, hleft, hhit, -⟩ := hevents
    · rw [hlength, hsame]
      exact hcountHeld
    · rw [hhit, if_pos rfl] at hcountHeld
      rw [hleft, if_neg (by decide)]
      omega
  · rw [hx, hy, append_assoc, singleton_append, countP_append, countP_cons, haway']
    obtain ⟨hlength, hsame⟩ | ⟨hlength, hleft, hhit, houtside⟩ := hevents
    · rw [hlength, hsame]
      exact hcountAway
    · rw [hhit, houtside] at hcountAway
      rw [hleft]
      simp only [Bool.not_false, Bool.and_true, if_true] at hcountAway ⊢
      simp
      omega

theorem leaveTurn_count :
    ∃ c', LeavesOk mv master next total outside (before ++ [c']) after (leaveTurn mv master m c) ∧
      (leaveTurn mv master m c).x = m.x ∧ (leaveTurn mv master m c).y = m.y := by
  unfold leaveTurn
  cases hget : GetBarrierDevice c master with
  | none =>
    have hsplit : before ++ c :: after = before ++ [c] ++ after := by simp
    refine ⟨c, ⟨hm.apart, hm.lines, hsplit ▸ hm.screen, fun c' hc' => ?_, hsplit ▸ hm.heldCount, hsplit ▸ hm.awayCount⟩, rfl, rfl⟩
    rcases mem_append.1 hc' with hc' | hc'
    · exact hm.settled c' hc'
    · rw [mem_singleton.1 hc']
      simp [away, held, hget]
  | some pbd =>
    dsimp only
    by_cases hstay : (!pbd.hit || barrier_inside_hit_box c.barrier m.x m.y) = true
    · rw [if_pos hstay]
      refine ⟨_, hm.put (q := { pbd with seen := false }) hget rfl rfl rfl rfl rfl ?_ (.inl ⟨rfl, rfl⟩), rfl, rfl⟩
      revert hstay
      cases pbd.hit <;> cases barrier_inside_hit_box c.barrier m.x m.y <;> simp
    · rw [if_neg hstay]
      rw [Bool.or_eq_true, not_or] at hstay
      refine ⟨_, hm.put (q := { pbd with
        seen := false, hit := false, last_timestamp := mv.ms, barrier_event_id := pbd.barrier_event_id + 1 })
        hget rfl rfl rfl rfl rfl rfl (.inr ⟨?_, rfl, ?_, ?_⟩), rfl, rfl⟩
      · simp
      · simpa using hstay.1
      · simpa using hstay.2

end

theorem leaveLoop_count (hm : LeavesOk mv master next total outside before after m) :
    let m' := after.foldl (leaveTurn mv master) m
    (∃ all, LeavesOk mv master next total outside all [] m') ∧ m'.x = m.x ∧ m'.y = m.y := by
  induction after generalizing before m with
  | nil => exact ⟨⟨before, hm⟩, rfl, rfl⟩
  | cons c after ih =>
    obtain ⟨c', hturn, hx, hy⟩ := leaveTurn_count hm
    obtain ⟨hall, hx', hy'⟩ := ih hturn
    exact ⟨hall, hx'.trans hx, hy'.trans hy⟩

/-! ## A motion -/

variable (mv master) in
/-- The leaves of a motion that has met its barriers. -/
theorem leaves_count (hapart : Distinct (recordsOf m.barriers) next) (hlines : ∀ c ∈ m.barriers, IsLine c.barrier) :
    let m' := (onScreen mv.screen m.barriers).foldl (leaveTurn mv master) m
    Distinct (recordsOf m'.barriers) next ∧ (∀ c ∈ m'.barriers, IsLine c.barrier) ∧
      m'.barrier_events.length + (onScreen mv.screen m'.barriers).countP (held master) ≤
        m.barrier_events.length + (onScreen mv.screen m.barriers).countP (held master) ∧
      m'.barrier_events.length ≤ m.barrier_events.length + (onScreen mv.screen m.barriers).countP (away master m.x m.y) ∧
      (onScreen mv.screen m'.barriers).countP (away master m.x m.y) = 0 := by
  have hstart : LeavesOk mv master next _ _ [] (onScreen mv.screen m.barriers) m :=
    ⟨hapart, hlines, rfl, by simp, le_rfl, le_rfl⟩
  obtain ⟨⟨all, hend⟩, hx, hy⟩ := leaveLoop_count hstart
  have hscreen := hend.screen
  rw [append_nil] at hscreen
  refine ⟨hend.apart, hend.lines, ?_, ?_, ?_⟩
  · rw [hscreen]
    simpa using hend.heldCount
  · have := hend.awayCount
    rw [nil_append] at this
    omega
  · rw [hscreen, countP_eq_zero]
    intro c hc
    rw [← hx, ← hy, hend.settled c hc]
    decide

variable (mv) in
/-- **The events of a motion**: two hits at the most, and a leave for each barrier that was hit before or is met. -/
theorem motion_count (halong : Along blocking) (hs : Regular s) :
    Regular (input_constrain_cursor blocking s mv).1 ∧
      ∀ master, mv.master = some master →
        (input_constrain_cursor blocking s mv).2.2.length +
            (onScreen mv.screen (input_constrain_cursor blocking s mv).1.barriers).countP (held master) ≤
          (onScreen mv.screen s.barriers).countP (touched master) + 4 := by
  unfold input_constrain_cursor
  split
  next hnone => exact ⟨hs, fun master hmaster => absurd hmaster (by simp [hnone])⟩
  next =>
    refine ⟨hs, fun master _ => ?_⟩
    have := held_le_touched master (onScreen mv.screen s.barriers)
    simp only [length_nil]
    omega
  next master c rest hmaster hscreen =>
    have hstart : HitsOk mv master s.nextSerial ((onScreen mv.screen s.barriers).countP (touched master)) (mv.start s) :=
      ⟨hs.apart, hs.lines, by simpa [Motion.start] using (mv.start s).axes_le, by simp [Motion.start]⟩
    have hhits := hitLoop_count halong (s.barriers.length + 1) hstart
    generalize hitLoop blocking mv master (s.barriers.length + 1) (mv.start s) = hits at hhits
    obtain ⟨hapart, hlines, hheld, -, -⟩ := leaves_count master mv hhits.apart hhits.lines
    refine ⟨⟨hapart, hlines⟩, fun master' hmaster' => ?_⟩
    obtain rfl : master = master' := some.inj (hmaster.symm.trans hmaster')
    have hle := held_le_touched master (onScreen mv.screen hits.barriers)
    have htwo := hhits.hits
    have htouched := hhits.touched
    dsimp only
    omega

variable (blocking) in
/-- A pointer that stays where it is only leaves barriers, and then it is at all that it holds. -/
theorem stay_count (hs : Regular s) (hx : mv.current_x = mv.dest_x) (hy : mv.current_y = mv.dest_y) :
    ∀ master, mv.master = some master →
      (input_constrain_cursor blocking s mv).2.2.length ≤
          (onScreen mv.screen s.barriers).countP (away master mv.dest_x mv.dest_y) ∧
        (onScreen mv.screen (input_constrain_cursor blocking s mv).1.barriers).countP
          (away master mv.dest_x mv.dest_y) = 0 := by
  intro master' hmaster'
  unfold input_constrain_cursor
  split
  next hnone => exact absurd hmaster' (by simp [hnone])
  next heq _ =>
    rw [heq]
    simp
  next master c rest hmaster hscreen =>
    obtain rfl : master = master' := some.inj (hmaster.symm.trans hmaster')
    have hdir : (mv.start s).dir = 0 := by
      simp [Motion.start, barrier_get_direction, hx, hy]
    have hstop : hitTurn blocking mv master (mv.start s) = none := by
      unfold hitTurn
      rw [if_pos hdir]
    rw [hitLoop_stop hstop]
    have hleft := leaves_count (m := mv.start s) master mv hs.apart hs.lines
    obtain ⟨-, -, -, hleaves, haway⟩ := hleft
    refine ⟨?_, haway⟩
    simpa [Motion.start] using hleaves

theorem barrierStep_regular {op : BarrierOp} (halong : Along blocking) (hs : Regular s) :
    Regular (barrierStep blocking s op) := by
  cases op with
  | move mv => exact (motion_count mv halong hs).1
  | release client infos => exact release_regular hs
  | create stuff => exact create_regular hs
  | destroy id root ms => exact free_regular hs
  | addDevice deviceid kind answers => exact addDevice_regular hs
  | removeMaster deviceid root ms => exact removeMaster_regular hs

theorem noBarriers_regular : Regular noBarriers where
  apart := noBarriers_sound.world.toDistinct
  lines := by simp [noBarriers]

end Xenia.Xi.Barriers
