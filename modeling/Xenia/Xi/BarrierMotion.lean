import Xenia.Xi.BarrierEpisodes

/-!
# A motion among pointer barriers

`World` says of all records and the log what the protocol asks: the log of each record conforms to it
(`Conforms`), and a live record stands at the end of its log (`Tracks`). The two loops of a motion keep it
(`hitLoop_ok`, `leaveLoop_ok`), the first one ends (`hitLoop_ends`) and the second takes all marks off.
-/

namespace Xenia.Xi.Barriers

open Xenia.Lib List Option

/-! ## Logs of records -/

/-- What has happened to the record. -/
def logOf (serial : ℕ) (log : List (ℕ × Happening)) : List Happening :=
  log.filterMap fun e => if e.1 = serial then some e.2 else none

variable {n serial next : ℕ} {log : List (ℕ × Happening)} {h : Happening}

@[simp] theorem logOf_nil : logOf n [] = [] := rfl

@[simp] theorem logOf_append (log' : List (ℕ × Happening)) : logOf n (log ++ log') = logOf n log ++ logOf n log' :=
  filterMap_append

theorem logOf_self : logOf n [(n, h)] = [h] := by simp [logOf]

theorem logOf_other (hne : n ≠ serial) : logOf n [(serial, h)] = [] := by simp [logOf, Ne.symm hne]

/-- Nothing is said of the record. -/
theorem logOf_eq_nil (hne : ∀ e ∈ log, e.1 ≠ n) : logOf n log = [] := by
  unfold logOf
  rw [filterMap_eq_nil_iff]
  intro e he
  rw [if_neg (hne e he)]

/-- The records have numbers of their own. -/
structure Distinct (pbds : List PointerBarrierDevice) (next : ℕ) : Prop where
  serials : (pbds.map (·.serial)).Nodup
  low : ∀ p ∈ pbds, p.serial < next

/-- The records, and what is known of them and of the ones that are gone. -/
structure World (pbds : List PointerBarrierDevice) (log : List (ℕ × Happening)) (next : ℕ) : Prop
    extends Distinct pbds next where
  fresh : ∀ n, next ≤ n → logOf n log = []
  tracks : ∀ p ∈ pbds, Tracks p (logOf p.serial log)
  conforms : ∀ n, Conforms (logOf n log)

/-- No event id has run over. -/
def Positive (pbds : List PointerBarrierDevice) : Prop := ∀ p ∈ pbds, 0 < p.barrier_event_id.toInt

variable {pbds pbds' : List PointerBarrierDevice} {p q r : PointerBarrierDevice}

theorem Distinct.eq_of_serial (hw : Distinct pbds next) (hp : p ∈ pbds) (hr : r ∈ pbds) (heq : r.serial = p.serial) :
    r = p := inj_on_of_nodup_map hw.serials hr hp heq

theorem over_self (heq : r.serial = q.serial) : q.over r = q := by
  unfold PointerBarrierDevice.over
  rw [if_pos heq]

theorem over_other (hne : r.serial ≠ q.serial) : q.over r = r := by
  unfold PointerBarrierDevice.over
  rw [if_neg hne]

theorem over_serial : (q.over r).serial = r.serial := by
  by_cases heq : r.serial = q.serial
  · rw [over_self heq, heq]
  · rw [over_other heq]

theorem mem_over (hmem : r ∈ pbds.map q.over) : r = q ∨ (r ∈ pbds ∧ r.serial ≠ q.serial) := by
  obtain ⟨p, hp, rfl⟩ := mem_map.1 hmem
  by_cases heq : p.serial = q.serial
  · exact .inl (over_self heq)
  · rw [over_other heq]
    exact .inr ⟨hp, heq⟩

theorem Distinct.put (hw : Distinct pbds next) (hp : p ∈ pbds) (hserial : q.serial = p.serial) :
    Distinct (pbds.map q.over) next where
  serials := by
    rw [List.map_map]
    have hcomp : (fun r : PointerBarrierDevice => r.serial) ∘ q.over = fun r => r.serial := funext fun r => over_serial
    rw [hcomp]
    exact hw.serials
  low := by
    intro r hr
    rcases mem_over hr with rfl | ⟨hr, -⟩
    · rw [hserial]
      exact hw.low p hp
    · exact hw.low r hr

/-- A record is changed, and what has happened is put in the log. -/
theorem World.put (hw : World pbds log next) (hp : p ∈ pbds) (hserial : q.serial = p.serial)
    (ht : Tracks q (logOf p.serial log ++ [h])) : World (pbds.map q.over) (log ++ [(p.serial, h)]) next where
  toDistinct := hw.toDistinct.put hp hserial
  fresh := by
    intro n hn
    have := hw.low p hp
    rw [logOf_append, hw.fresh n hn, logOf_other (by omega)]
    rfl
  tracks := by
    intro r hr
    rw [logOf_append]
    rcases mem_over hr with rfl | ⟨hr, hne⟩
    · rw [hserial, logOf_self]
      exact ht
    · rw [logOf_other (by rwa [hserial] at hne), append_nil]
      exact hw.tracks r hr
  conforms := by
    intro n
    rw [logOf_append]
    by_cases heq : n = p.serial
    · rw [heq, logOf_self]
      exact ht.conforms
    · rw [logOf_other heq, append_nil]
      exact hw.conforms n

/-- A record is changed in the fields the log says nothing of. -/
theorem World.touch (hw : World pbds log next) (hp : p ∈ pbds) (hserial : q.serial = p.serial)
    (hid : q.barrier_event_id = p.barrier_event_id) (hrel : q.release_event_id = p.release_event_id)
    (hhit : q.hit = p.hit) : World (pbds.map q.over) log next where
  toDistinct := hw.toDistinct.put hp hserial
  fresh := hw.fresh
  tracks := by
    intro r hr
    rcases mem_over hr with rfl | ⟨hr, -⟩
    · rw [hserial]
      exact (hw.tracks p hp).congr hid hrel hhit
    · exact hw.tracks r hr
  conforms := hw.conforms

theorem Positive.put (hpos : Positive pbds) (hq : 0 < q.barrier_event_id.toInt) : Positive (pbds.map q.over) := by
  intro r hr
  rcases mem_over hr with rfl | ⟨hr, -⟩
  · exact hq
  · exact hpos r hr

/-! ## The records of the barriers -/

def recordsOf (barriers : List PointerBarrierClient) : List PointerBarrierDevice := barriers.flatMap (·.per_device)

variable {barriers : List PointerBarrierClient} {c : PointerBarrierClient} {master screen : ℕ}

theorem mem_recordsOf_cons : p ∈ recordsOf (c :: barriers) ↔ p ∈ c.per_device ∨ p ∈ recordsOf barriers := by
  unfold recordsOf
  rw [flatMap_cons, mem_append]

theorem recordsOf_put : recordsOf (barriers.map (·.put q)) = (recordsOf barriers).map q.over := by
  unfold recordsOf
  rw [List.flatMap_map, List.map_flatMap]
  rfl

theorem onScreen_put : onScreen screen (barriers.map (·.put q)) = (onScreen screen barriers).map (·.put q) := by
  unfold onScreen
  rw [List.filter_map]
  rfl

theorem mem_records (hc : c ∈ barriers) (hget : GetBarrierDevice c master = some p) : p ∈ recordsOf barriers :=
  mem_flatMap.2 ⟨c, hc, mem_of_find?_eq_some hget⟩

theorem mem_onScreen (hc : c ∈ onScreen screen barriers) : c ∈ barriers := (mem_filter.1 hc).1

/-- Looking a record up after a record has been written back. -/
theorem GetBarrierDevice_put (hdev : ∀ r ∈ c.per_device, r.serial = q.serial → q.deviceid = r.deviceid) :
    GetBarrierDevice (c.put q) master = (GetBarrierDevice c master).map q.over := by
  unfold GetBarrierDevice PointerBarrierClient.put
  generalize c.per_device = l at hdev
  induction l with
  | nil => rfl
  | cons r l ih =>
    have hr : (q.over r).deviceid = r.deviceid := by
      by_cases heq : r.serial = q.serial
      · rw [over_self heq]
        exact hdev r mem_cons_self heq
      · rw [over_other heq]
    rw [map_cons, List.find?_cons, List.find?_cons, hr]
    cases r.deviceid == master with
    | true => rfl
    | false => exact ih fun r' hr' => hdev r' (mem_cons_of_mem _ hr')

/-! ## The hits of a motion -/

variable {blocking : PointerBarrier → ℤ → ℤ → ℤ → ℤ → Option ℚ} {mv : Motion} {m m' : Moving}

theorem barrier_find_nearest_spec {dir : BitVec 32} {x1 y1 x2 y2 : ℤ}
    (hfind : barrier_find_nearest blocking barriers master dir x1 y1 x2 y2 = some (c, p)) :
    c ∈ barriers ∧ GetBarrierDevice c master = some p ∧ p.seen = false ∧
      ∃ distance, blocking c.barrier x1 y1 x2 y2 = some distance := by
  have key : ∀ (l : List PointerBarrierClient) (a : Option (PointerBarrierClient × PointerBarrierDevice) × ℚ),
      (l.foldl (nearer blocking master dir x1 y1 x2 y2) a).1 = some (c, p) →
      a.1 = some (c, p) ∨ (c ∈ l ∧ GetBarrierDevice c master = some p ∧ p.seen = false ∧
        ∃ distance, blocking c.barrier x1 y1 x2 y2 = some distance) := by
    intro l
    induction l with
    | nil => exact fun a hrun => .inl hrun
    | cons c' l ih =>
      intro a hrun
      rcases ih _ hrun with hnear | ⟨hc, hrest⟩
      · unfold nearer at hnear
        split at hnear
        · exact .inl hnear
        next pbd hget =>
          split at hnear
          · exact .inl hnear
          next hseen =>
            split at hnear
            · exact .inl hnear
            · split at hnear
              · exact .inl hnear
              · split at hnear
                · exact .inl hnear
                next distance hblocking =>
                  split at hnear
                  · -- this barrier is the nearest one so far
                    obtain ⟨rfl, rfl⟩ := hnear
                    exact .inr ⟨mem_cons_self, hget, by simpa using hseen, distance, hblocking⟩
                  · exact .inl hnear
      · exact .inr ⟨mem_cons_of_mem _ hc, hrest⟩
  rcases key barriers (none, INT_MAX) hfind with hnone | hsome
  · exact absurd hnone (by simp)
  · exact hsome

/-- A turn that passes a barrier with a record whose pointer is released. -/
def Moving.passed (m : Moving) (pbd : PointerBarrierDevice) : Moving :=
  { m with
    barriers := m.barriers.map (·.put { pbd with seen := true, hit := true })
    log := m.log ++ [(pbd.serial, .pass pbd.barrier_event_id)] }

/-- What a turn of the first loop does: it finds a barrier in the way, and passes it or is stopped. -/
theorem hitTurn_cases (hrun : hitTurn blocking mv master m = some m') :
    m.dir ≠ 0 ∧ ∃ c pbd, c ∈ onScreen mv.screen m.barriers ∧ GetBarrierDevice c master = some pbd ∧ pbd.seen = false ∧
      (∃ distance, blocking c.barrier m.current_x m.current_y m.x m.y = some distance) ∧
      ((pbd.barrier_event_id = pbd.release_event_id ∧ m' = m.passed pbd) ∨
        (pbd.barrier_event_id ≠ pbd.release_event_id ∧
          m'.barriers = m.barriers.map (·.put { pbd with seen := true, hit := true, last_timestamp := mv.ms }) ∧
          (∃ ev : BarrierEvent, ev.type = .ET_BarrierHit ∧ ev.event_id = pbd.barrier_event_id ∧
            m'.log = m.log ++ [(pbd.serial, .event ev)] ∧ m'.barrier_events = m.barrier_events ++ [ev]) ∧
          (m'.x, m'.y) = barrier_clamp_to_barrier c.barrier m.dir m.x m.y ∧
          m'.current_x = (if barrier_is_vertical c.barrier then m'.x else m.current_x) ∧
          m'.current_y =
            (if !barrier_is_vertical c.barrier && barrier_is_horizontal c.barrier then m'.y else m.current_y))) := by
  unfold hitTurn at hrun
  by_cases hdir : m.dir = 0
  · rw [if_pos hdir] at hrun
    exact absurd hrun (by simp)
  · rw [if_neg hdir] at hrun
    refine ⟨hdir, ?_⟩
    rcases hfind : barrier_find_nearest blocking (onScreen mv.screen m.barriers) master m.dir m.current_x m.current_y
      m.x m.y with _ | ⟨c, pbd⟩
    · rw [hfind] at hrun
      exact absurd hrun (by simp)
    · rw [hfind] at hrun
      obtain ⟨hc, hget, hunseen, hblocking⟩ := barrier_find_nearest_spec hfind
      refine ⟨c, pbd, hc, hget, hunseen, hblocking, ?_⟩
      dsimp only at hrun
      by_cases heq : pbd.barrier_event_id = pbd.release_event_id
      · rw [if_pos heq, some.injEq] at hrun
        exact .inl ⟨heq, hrun.symm⟩
      · rw [if_neg heq, some.injEq] at hrun
        subst hrun
        exact .inr ⟨heq, rfl, ⟨_, rfl, rfl, rfl, rfl⟩, rfl, rfl, rfl⟩

/-- What holds after each turn of the loops of a motion; `left` are the barriers that may have a record that is
marked seen. -/
structure MovingOk (master next : ℕ) (left : List PointerBarrierClient) (m : Moving) : Prop where
  world : World (recordsOf m.barriers) m.log next
  positive : Positive (recordsOf m.barriers)
  seen : ∀ p ∈ recordsOf m.barriers, p.seen = true → ∃ c ∈ left, GetBarrierDevice c master = some p

/-- A record is the one of its serial among all records. -/
theorem Distinct.deviceid (hw : Distinct (recordsOf barriers) next) (hc : c ∈ barriers) (hp : p ∈ recordsOf barriers)
    (hserial : q.serial = p.serial) (hdev : q.deviceid = p.deviceid) :
    ∀ r ∈ c.per_device, r.serial = q.serial → q.deviceid = r.deviceid := by
  intro r hr heq
  have : r = p := hw.eq_of_serial hp (mem_flatMap.2 ⟨c, hc, hr⟩) (heq.trans hserial)
  rw [this, hdev]

theorem MovingOk.seen_put (hm : MovingOk master next (onScreen screen m.barriers) m)
    (hc : c ∈ onScreen screen m.barriers) (hget : GetBarrierDevice c master = some p) (hserial : q.serial = p.serial)
    (hdev : q.deviceid = p.deviceid) :
    ∀ r ∈ recordsOf (m.barriers.map (·.put q)), r.seen = true →
      ∃ c ∈ onScreen screen (m.barriers.map (·.put q)), GetBarrierDevice c master = some r := by
  have hp := mem_records (mem_onScreen hc) hget
  have hlook : ∀ c ∈ onScreen screen m.barriers, ∀ r, GetBarrierDevice c master = some r →
      ∃ c ∈ onScreen screen (m.barriers.map (·.put q)), GetBarrierDevice c master = some (q.over r) := by
    intro c hc r hget
    refine ⟨c.put q, ?_, ?_⟩
    · rw [onScreen_put]
      exact mem_map_of_mem hc
    · rw [GetBarrierDevice_put (hm.world.deviceid (mem_onScreen hc) hp hserial hdev), hget]
      rfl
  intro r hr hseen
  rw [recordsOf_put] at hr
  rcases mem_over hr with rfl | ⟨hr, hne⟩
  · have := hlook c hc p hget
    rwa [over_self hserial.symm] at this
  · obtain ⟨c', hc', hget'⟩ := hm.seen r hr hseen
    have := hlook c' hc' r hget'
    rwa [over_other hne] at this

theorem hitTurn_ok (hm : MovingOk master next (onScreen mv.screen m.barriers) m)
    (hrun : hitTurn blocking mv master m = some m') :
    MovingOk master next (onScreen mv.screen m'.barriers) m' := by
  obtain ⟨-, c, pbd, hc, hget, -, -, hturn⟩ := hitTurn_cases hrun
  have hp := mem_records (mem_onScreen hc) hget
  have ht := hm.world.tracks pbd hp
  have hpos := hm.positive pbd hp
  obtain ⟨heq, rfl⟩ | ⟨heq, hbarriers, ⟨ev, htype, hid, hlog, -⟩, -⟩ := hturn
  · refine ⟨?_, ?_, hm.seen_put hc hget rfl rfl⟩
    · unfold Moving.passed
      rw [recordsOf_put]
      exact hm.world.put hp rfl (ht.pass hpos heq rfl rfl rfl)
    · unfold Moving.passed
      rw [recordsOf_put]
      exact hm.positive.put hpos
  · refine ⟨?_, ?_, ?_⟩
    · rw [hbarriers, hlog, recordsOf_put]
      exact hm.world.put hp rfl (ht.hit hpos heq htype hid rfl rfl rfl)
    · rw [hbarriers, recordsOf_put]
      exact hm.positive.put hpos
    · rw [hbarriers]
      exact hm.seen_put hc hget rfl rfl

variable (blocking) in
theorem hitLoop_ok (turns : ℕ) (hm : MovingOk master next (onScreen mv.screen m.barriers) m) :
    MovingOk master next (onScreen mv.screen (hitLoop blocking mv master turns m).barriers)
      (hitLoop blocking mv master turns m) := by
  induction turns generalizing m with
  | zero => exact hm
  | succ turns ih =>
    unfold hitLoop
    split
    · exact hm
    next m' hrun => exact ih (hitTurn_ok hm hrun)

theorem hitLoop_stop {turns : ℕ} (hstop : hitTurn blocking mv master m = none) :
    hitLoop blocking mv master turns m = m := by
  cases turns with
  | zero => rfl
  | succ turns =>
    unfold hitLoop
    rw [hstop]

/-! ### The loop ends -/

/-- The barrier has an unmarked record of the device. -/
def unmarked (master : ℕ) (c : PointerBarrierClient) : Bool := (GetBarrierDevice c master).any fun p => !p.seen

/-- How many turns the loop can still make. -/
def Moving.turnsLeft (m : Moving) (mv : Motion) (master : ℕ) : ℕ := (onScreen mv.screen m.barriers).countP (unmarked master)

theorem countP_lt {f g : PointerBarrierClient → Bool} {l : List PointerBarrierClient}
    (hle : ∀ c ∈ l, f c = true → g c = true) (hc : c ∈ l) (hf : f c = false) (hg : g c = true) :
    l.countP f < l.countP g := by
  obtain ⟨before, after, rfl⟩ := append_of_mem hc
  rw [countP_append, countP_append, countP_cons_of_neg (by simp [hf]), countP_cons_of_pos hg]
  have h1 : before.countP f ≤ before.countP g := countP_mono_left fun c hc => hle c (by simp [hc])
  have h2 : after.countP f ≤ after.countP g := countP_mono_left fun c hc => hle c (by simp [hc])
  omega

section

variable (hm : MovingOk master next (onScreen mv.screen m.barriers) m)
include hm

/-- Each turn marks one more record. -/
theorem hitTurn_lt (hrun : hitTurn blocking mv master m = some m') : m'.turnsLeft mv master < m.turnsLeft mv master := by
  have key : ∀ c p q, c ∈ onScreen mv.screen m.barriers → GetBarrierDevice c master = some p → p.seen = false →
      q.serial = p.serial → q.deviceid = p.deviceid → q.seen = true → m'.barriers = m.barriers.map (·.put q) →
      m'.turnsLeft mv master < m.turnsLeft mv master := by
    intro c p q hc hget hunseen hserial hdev hseen hbarriers
    have hp := mem_records (mem_onScreen hc) hget
    have hput : ∀ c ∈ onScreen mv.screen m.barriers,
        GetBarrierDevice (c.put q) master = (GetBarrierDevice c master).map q.over := fun c hc =>
      GetBarrierDevice_put (hm.world.deviceid (mem_onScreen hc) hp hserial hdev)
    unfold Moving.turnsLeft
    rw [hbarriers, onScreen_put, countP_map]
    refine countP_lt (fun c' hc' hmark => ?_) hc ?_ ?_
    · dsimp only [Function.comp] at hmark
      unfold unmarked at hmark ⊢
      rw [hput c' hc'] at hmark
      cases hget' : GetBarrierDevice c' master with
      | none =>
        rw [hget'] at hmark
        exact absurd hmark (by simp)
      | some r =>
        rw [hget'] at hmark
        by_cases heq : r.serial = q.serial
        · rw [map_some, over_self heq] at hmark
          simp [hseen] at hmark
        · rwa [map_some, over_other heq] at hmark
    · dsimp only [Function.comp]
      unfold unmarked
      rw [hput c hc, hget, map_some, over_self hserial.symm]
      simp [hseen]
    · unfold unmarked
      rw [hget]
      simp [hunseen]
  obtain ⟨-, c, pbd, hc, hget, hunseen, -, hturn⟩ := hitTurn_cases hrun
  obtain ⟨-, hm'⟩ | ⟨-, hbarriers, -⟩ := hturn
  · exact key c pbd { pbd with seen := true, hit := true } hc hget hunseen rfl rfl rfl (by rw [hm']; rfl)
  · exact key c pbd { pbd with seen := true, hit := true, last_timestamp := mv.ms } hc hget hunseen rfl rfl rfl hbarriers

/-- The loop is run until it ends. -/
theorem hitLoop_ends {turns : ℕ} (hturns : m.turnsLeft mv master < turns) :
    hitTurn blocking mv master (hitLoop blocking mv master turns m) = none := by
  induction turns generalizing m with
  | zero => exact absurd hturns (Nat.not_lt_zero _)
  | succ turns ih =>
    unfold hitLoop
    split
    · assumption
    next m' hrun =>
      have := hitTurn_lt hm hrun
      exact ih (hitTurn_ok hm hrun) (by omega)

end

/-! ## The leaves of a motion -/

/-- What holds between the turns of the second loop; the records of the barriers `left` are still as they were. -/
structure LeavingOk (master next : ℕ) (left : List PointerBarrierClient) (m : Moving) : Prop where
  world : World (recordsOf m.barriers) m.log next
  kept : ∀ p ∈ recordsOf left, p ∈ recordsOf m.barriers ∧ 0 < p.barrier_event_id.toInt
  apart : ((recordsOf left).map (·.serial)).Nodup
  seen : ∀ p ∈ recordsOf m.barriers, p.seen = true → ∃ c ∈ left, GetBarrierDevice c master = some p

variable {left : List PointerBarrierClient}

variable (q) in
/-- The record of a barrier is written back with the mark taken off. -/
theorem LeavingOk.done {log' : List (ℕ × Happening)} (hm : LeavingOk master next (c :: left) m)
    (hget : GetBarrierDevice c master = some p) (hserial : q.serial = p.serial) (hseen : q.seen = false)
    (hworld : World ((recordsOf m.barriers).map q.over) log' next) (hbarriers : m'.barriers = m.barriers.map (·.put q))
    (hlog : m'.log = log') : LeavingOk master next left m' := by
  have hapart := hm.apart
  unfold recordsOf at hapart
  rw [flatMap_cons, map_append, nodup_append] at hapart
  have hp : p ∈ c.per_device := mem_of_find?_eq_some hget
  refine ⟨?_, ?_, hapart.2.1, ?_⟩
  · rw [hbarriers, recordsOf_put, hlog]
    exact hworld
  · intro r hr
    obtain ⟨hold, hpos⟩ := hm.kept r (mem_recordsOf_cons.2 (.inr hr))
    refine ⟨?_, hpos⟩
    have hne : r.serial ≠ q.serial := by
      rw [hserial]
      exact (hapart.2.2 _ (mem_map_of_mem hp) _ (mem_map_of_mem hr)).symm
    rw [hbarriers, recordsOf_put]
    exact mem_map.2 ⟨r, hold, over_other hne⟩
  · intro r hr hmark
    rw [hbarriers, recordsOf_put] at hr
    rcases mem_over hr with rfl | ⟨hr, hne⟩
    · rw [hseen] at hmark
      exact absurd hmark (by decide)
    · obtain ⟨c', hc', hget'⟩ := hm.seen r hr hmark
      rcases mem_cons.1 hc' with rfl | hc'
      · rw [hget, some.injEq] at hget'
        rw [hserial, hget'] at hne
        exact absurd rfl hne
      · exact ⟨c', hc', hget'⟩

theorem leaveTurn_ok (hm : LeavingOk master next (c :: left) m) :
    LeavingOk master next left (leaveTurn mv master m c) := by
  unfold leaveTurn
  cases hget : GetBarrierDevice c master with
  | none =>
    have hapart := hm.apart
    unfold recordsOf at hapart
    rw [flatMap_cons, map_append, nodup_append] at hapart
    refine ⟨hm.world, fun p hp => hm.kept p (mem_recordsOf_cons.2 (.inr hp)), hapart.2.1, fun p hp hseen => ?_⟩
    · obtain ⟨c', hc', hget'⟩ := hm.seen p hp hseen
      rcases mem_cons.1 hc' with rfl | hc'
      · rw [hget] at hget'
        exact absurd hget' (by simp)
      · exact ⟨c', hc', hget'⟩
  | some pbd =>
    obtain ⟨hp, hpos⟩ := hm.kept pbd (mem_records mem_cons_self hget)
    dsimp only
    by_cases hstay : (!pbd.hit || barrier_inside_hit_box c.barrier m.x m.y) = true
    · rw [if_pos hstay]
      exact hm.done { pbd with seen := false } hget rfl rfl (hm.world.touch hp rfl rfl rfl rfl) rfl rfl
    · rw [if_neg hstay]
      have hhit : pbd.hit = true := by
        by_contra hno
        simp [hno] at hstay
      exact hm.done
        { pbd with seen := false, hit := false, last_timestamp := mv.ms, barrier_event_id := pbd.barrier_event_id + 1 }
        hget rfl rfl (hm.world.put hp rfl ((hm.world.tracks pbd hp).leave hpos hhit rfl rfl rfl rfl rfl rfl)) rfl rfl

variable (mv) in
theorem leaveLoop_ok (hm : LeavingOk master next left m) :
    LeavingOk master next [] (left.foldl (leaveTurn mv master) m) := by
  induction left generalizing m with
  | nil => exact hm
  | cons c left ih => exact ih (leaveTurn_ok hm)

end Xenia.Xi.Barriers
