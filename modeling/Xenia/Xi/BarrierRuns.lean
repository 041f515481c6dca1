import Xenia.Xi.BarrierMotion

/-!
# Runs of pointer barriers

`Sound` is what holds in every state of a run: the log of each record conforms to the protocol, a
live record stands at the end of its log, and no barrier is marked seen. `barriers_conform` proves it for the runs in
which no event id has run over; the id after 2147483647 is below zero (`barriers_overflow`).
-/

namespace Xenia.Xi.Barriers

open Xenia.Lib List

variable {n next : ℕ} {log : List (ℕ × Happening)} {pbds pbds' : List PointerBarrierDevice}
  {p q r : PointerBarrierDevice} {barriers : List PointerBarrierClient} {c : PointerBarrierClient}
  {blocking : PointerBarrier → ℤ → ℤ → ℤ → ℤ → Option ℚ} {mv : Motion} {m : Moving}

/-! ## The operations -/

structure Sound (s : BarrierState) : Prop where
  world : World (recordsOf s.barriers) s.log s.nextSerial
  unseen : ∀ p ∈ recordsOf s.barriers, p.seen = false
  devices : (s.devices.map (·.1)).Nodup

variable {s : BarrierState}

variable (mv) in
theorem Sound.start (hs : Sound s) (hpos : Positive (recordsOf s.barriers)) (master : ℕ) :
    MovingOk master s.nextSerial (onScreen mv.screen (mv.start s).barriers) (mv.start s) := by
  refine ⟨hs.world, hpos, fun p hp hseen => ?_⟩
  rw [hs.unseen p hp] at hseen
  exact absurd hseen (by decide)

theorem Sound.motion_ends (hs : Sound s) (hpos : Positive (recordsOf s.barriers)) (master : ℕ) :
    hitTurn blocking mv master (hitLoop blocking mv master (s.barriers.length + 1) (mv.start s)) = none := by
  refine hitLoop_ends (hs.start mv hpos master) ?_
  have hcount : (mv.start s).turnsLeft mv master ≤ (onScreen mv.screen s.barriers).length := countP_le_length
  have hlength : (onScreen mv.screen s.barriers).length ≤ s.barriers.length := length_filter_le _ _
  omega

theorem move_sound (hs : Sound s) (hpos : Positive (recordsOf s.barriers)) :
    Sound (input_constrain_cursor blocking s mv).1 := by
  unfold input_constrain_cursor
  split
  · exact hs
  · exact hs
  next master c rest hmaster hscreen =>
    have hhits := hitLoop_ok blocking (s.barriers.length + 1) (hs.start mv hpos master)
    generalize hitLoop blocking mv master (s.barriers.length + 1) (mv.start s) = hits at hhits
    have hsub : (recordsOf (onScreen mv.screen hits.barriers)).Sublist (recordsOf hits.barriers) :=
      filter_sublist.flatMap _
    have hleft : LeavingOk master s.nextSerial (onScreen mv.screen hits.barriers) hits :=
      ⟨hhits.world, fun p hp => ⟨hsub.subset hp, hhits.positive p (hsub.subset hp)⟩,
        hhits.world.serials.sublist (hsub.map _), hhits.seen⟩
    have hend := leaveLoop_ok mv hleft
    refine ⟨hend.world, fun p hp => ?_, hs.devices⟩
    by_contra hseen
    obtain ⟨c, hc, -⟩ := hend.seen p hp (by simpa using hseen)
    exact absurd hc (by simp)

theorem release_sound {client : ℕ} {infos : List ReleaseInfo} (hs : Sound s) (hpos : Positive (recordsOf s.barriers)) :
    Sound (ProcXIBarrierReleasePointer client s infos).1 := by
  induction infos generalizing s with
  | nil => exact hs
  | cons info rest ih =>
    unfold ProcXIBarrierReleasePointer
    split
    · exact hs
    · split
      · exact hs
      next barrier hfind =>
        split
        · exact hs
        · split
          · exact hs
          next pbd hget =>
            by_cases heq : pbd.barrier_event_id.toUInt32 = info.eventid
            · rw [if_pos heq]
              have hp := mem_records (mem_of_find?_eq_some hfind) hget
              have hid : info.eventid.toInt32 = pbd.barrier_event_id := by
                rw [← heq]
                exact Int32.toInt32_toUInt32 _
              refine ih ⟨?_, ?_, hs.devices⟩ ?_
              · dsimp only
                rw [recordsOf_put, hid]
                exact hs.world.put hp rfl ((hs.world.tracks pbd hp).release (hpos pbd hp) rfl rfl rfl)
              · intro r hr
                rw [recordsOf_put] at hr
                rcases mem_over hr with rfl | ⟨hr, -⟩
                · exact hs.unseen pbd hp
                · exact hs.unseen r hr
              · dsimp only
                rw [recordsOf_put]
                exact hpos.put (hpos pbd hp)
            · rw [if_neg heq]
              exact ih hs hpos

/-! ### Records come -/

theorem Distinct.perm (hw : Distinct pbds next) (hperm : pbds.Perm pbds') : Distinct pbds' next :=
  ⟨(hperm.map _).nodup_iff.1 hw.serials, fun p hp => hw.low p (hperm.mem_iff.2 hp)⟩

theorem Distinct.mono (hw : Distinct pbds next) (hle : next ≤ n) : Distinct pbds n :=
  ⟨hw.serials, fun p hp => (hw.low p hp).trans_le hle⟩

theorem Distinct.alloc (hw : Distinct pbds next) (deviceid : ℕ) :
    Distinct (AllocBarrierDevice next deviceid :: pbds) (next + 1) where
  serials := by
    rw [map_cons, nodup_cons]
    refine ⟨fun hmem => ?_, hw.serials⟩
    obtain ⟨p, hp, heq⟩ := mem_map.1 hmem
    have := hw.low p hp
    rw [heq] at this
    exact absurd this (lt_irrefl _)
  low := by
    intro p hp
    rcases mem_cons.1 hp with rfl | hp
    · exact Nat.lt_succ_self next
    · exact (hw.low p hp).trans (Nat.lt_succ_self next)

variable {gone : List PointerBarrierDevice}

/-- Some of the records go. -/
theorem Distinct.drop (hw : Distinct pbds next) (hperm : pbds.Perm (gone ++ pbds')) :
    Distinct pbds' next := by
  have hserials := hw.serials
  rw [(hperm.map _).nodup_iff, map_append, nodup_append] at hserials
  exact ⟨hserials.2.1, fun p hp => hw.low p (hperm.mem_iff.2 (mem_append_right _ hp))⟩

theorem World.perm (hw : World pbds log next) (hperm : pbds.Perm pbds') : World pbds' log next :=
  ⟨hw.toDistinct.perm hperm, hw.fresh, fun p hp => hw.tracks p (hperm.mem_iff.2 hp), hw.conforms⟩

theorem World.mono (hw : World pbds log next) (hle : next ≤ n) : World pbds log n :=
  ⟨hw.toDistinct.mono hle, fun k hk => hw.fresh k (hle.trans hk), hw.tracks, hw.conforms⟩

theorem World.alloc (hw : World pbds log next) (deviceid : ℕ) :
    World (AllocBarrierDevice next deviceid :: pbds) log (next + 1) where
  toDistinct := hw.toDistinct.alloc deviceid
  fresh := fun n hn => hw.fresh n (by omega)
  tracks := by
    intro p hp
    rcases mem_cons.1 hp with rfl | hp
    · rw [show (AllocBarrierDevice next deviceid).serial = next from rfl, hw.fresh next le_rfl]
      exact Tracks.alloc next deviceid
    · exact hw.tracks p hp
  conforms := hw.conforms

/-- What new records do not harm. -/
structure Grows (P : List PointerBarrierDevice → ℕ → Prop) : Prop where
  alloc : ∀ {pbds n}, P pbds n → ∀ deviceid, P (AllocBarrierDevice n deviceid :: pbds) (n + 1)
  mono : ∀ {pbds n m}, P pbds n → n ≤ m → P pbds m
  perm : ∀ {pbds pbds' n}, P pbds n → pbds.Perm pbds' → P pbds' n

theorem World.grows (log : List (ℕ × Happening)) : Grows fun pbds n => World pbds log n :=
  ⟨World.alloc, World.mono, World.perm⟩

theorem Distinct.grows : Grows Distinct := ⟨Distinct.alloc, Distinct.mono, Distinct.perm⟩

variable {P : List PointerBarrierDevice → ℕ → Prop} {answers : List Bool}

theorem allocDevices_spec (hP : Grows P) (pbds : List PointerBarrierDevice) {masters : List ℕ}
    {per_device out : List PointerBarrierDevice} (hw : P (per_device ++ pbds) next)
    (hunseen : ∀ p ∈ per_device, p.seen = false) (hrun : allocDevices next answers masters per_device = some out) :
    P (out ++ pbds) (next + masters.length) ∧ ∀ p ∈ out, p.seen = false := by
  induction masters generalizing next answers per_device with
  | nil =>
    obtain rfl := Option.some.inj hrun
    exact ⟨hw, hunseen⟩
  | cons deviceid masters ih =>
    unfold allocDevices at hrun
    split at hrun
    · obtain ⟨hworld, hout⟩ := ih (hP.alloc hw deviceid) (fun p hp => by
        rcases mem_cons.1 hp with rfl | hp
        · rfl
        · exact hunseen p hp) hrun
      exact ⟨hP.mono hworld (by simp only [length_cons]; omega), hout⟩
    · exact absurd hrun (by simp)

/-- A new barrier is a line; it may be lost again when it cannot be added to the resources. -/
theorem create_cases (s : BarrierState) (stuff : CreateRequest) :
    (XICreatePointerBarrier s stuff).1 = s ∨
      (stuff.isLine = true ∧ ∃ per_device, allocDevices s.nextSerial stuff.pbdCallocs s.masters [] = some per_device ∧
        ((XICreatePointerBarrier s stuff).1 = { s with nextSerial := s.nextSerial + s.masters.length } ∨
          (XICreatePointerBarrier s stuff).1 =
            { s with
              nextSerial := s.nextSerial + s.masters.length
              barriers :=
                { id := stuff.barrier, pScreen := stuff.screen, window := stuff.window, barrier := stuff.toBarrier,
                  device_ids := stuff.devices, per_device := per_device } :: s.barriers })) := by
  unfold XICreatePointerBarrier CreatePointerBarrierClient
  split
  · exact .inl rfl
  next hline =>
    split
    · exact .inl rfl
    next ret hcreate =>
      split at hcreate
      · exact absurd hcreate (by simp)
      · split at hcreate
        · exact absurd hcreate (by simp)
        · split at hcreate
          · exact absurd hcreate (by simp)
          next per_device halloc =>
            obtain rfl := Except.ok.inj hcreate
            refine .inr ⟨by simpa using hline, per_device, halloc, ?_⟩
            split
            · exact .inr rfl
            · exact .inl rfl

theorem create_sound {stuff : CreateRequest} (hs : Sound s) : Sound (XICreatePointerBarrier s stuff).1 := by
  obtain heq | ⟨-, per_device, halloc, heq | heq⟩ := create_cases s stuff
  · rw [heq]
    exact hs
  · rw [heq]
    exact ⟨hs.world.mono (Nat.le_add_right _ _), hs.unseen, hs.devices⟩
  · rw [heq]
    obtain ⟨hworld, hnew⟩ := allocDevices_spec (World.grows s.log) (recordsOf s.barriers) hs.world (by simp) halloc
    refine ⟨hworld, fun p hp => ?_, hs.devices⟩
    rcases mem_recordsOf_cons.1 hp with hp | hp
    · exact hnew p hp
    · exact hs.unseen p hp

theorem add_master_func_spec (hP : Grows P) (pbds : List PointerBarrierDevice) (deviceid : ℕ) (answers : List Bool)
    (hw : P (pbds ++ recordsOf barriers) next) :
    P (pbds ++ recordsOf (add_master_func deviceid next answers barriers)) (next + barriers.length) := by
  induction barriers generalizing next answers pbds with
  | nil => exact hw
  | cons c rest ih =>
    have hsplit : ∀ c' l, recordsOf (c' :: l) = c'.per_device ++ recordsOf l := fun c' l => flatMap_cons
    unfold add_master_func
    rw [hsplit] at hw
    simp only [length_cons]
    rw [hsplit, ← append_assoc, show next + (rest.length + 1) = next + 1 + rest.length by omega]
    by_cases hanswer : answers.headD true = true
    · simp only [if_pos hanswer]
      refine ih _ answers.tail (hP.perm (hP.alloc hw deviceid) ?_)
      rw [append_assoc]
      exact perm_middle.symm
    · simp only [if_neg hanswer]
      rw [← append_assoc] at hw
      exact ih _ answers.tail (hP.mono hw (Nat.le_succ next))

theorem add_master_func_unseen {deviceid : ℕ} (hunseen : ∀ p ∈ recordsOf barriers, p.seen = false) :
    ∀ p ∈ recordsOf (add_master_func deviceid next answers barriers), p.seen = false := by
  induction barriers generalizing next answers with
  | nil => exact hunseen
  | cons c rest ih =>
    intro p hp
    have hc : ∀ p ∈ c.per_device, p.seen = false := fun p hp => hunseen p (mem_recordsOf_cons.2 (.inl hp))
    rcases mem_recordsOf_cons.1 hp with hp | hp
    · split at hp
      · rcases mem_cons.1 hp with rfl | hp
        · rfl
        · exact hc p hp
      · exact hc p hp
    · exact ih (fun p hp => hunseen p (mem_recordsOf_cons.2 (.inr hp))) p hp

theorem addDevice_sound {deviceid : ℕ} {kind : DeviceKind} (hs : Sound s) :
    Sound (addDevice s deviceid kind answers) := by
  unfold addDevice
  by_cases hknown : s.devices.any (·.1 == deviceid) = true
  · rw [if_pos hknown]
    exact hs
  · rw [if_neg hknown]
    have hdevices : ((s.devices ++ [(deviceid, kind)]).map (·.1)).Nodup := by
      rw [map_append, nodup_append]
      refine ⟨hs.devices, by simp, ?_⟩
      rintro a ha b hb rfl
      obtain ⟨d, hd, rfl⟩ := mem_map.1 ha
      refine hknown (any_eq_true.2 ⟨d, hd, ?_⟩)
      simpa using mem_singleton.1 hb
    split
    · exact ⟨add_master_func_spec (World.grows s.log) [] deviceid answers hs.world, add_master_func_unseen hs.unseen,
        hdevices⟩
    · exact ⟨hs.world, hs.unseen, hdevices⟩

/-! ### Records go -/

variable {entries : List (ℕ × Happening)}

/-- A log with at most one entry for each record. -/
theorem logOf_nodup (hnodup : (entries.map (·.1)).Nodup) (n : ℕ) :
    logOf n entries = [] ∨ ∃ h, (n, h) ∈ entries ∧ logOf n entries = [h] := by
  induction entries with
  | nil => exact .inl rfl
  | cons e entries ih =>
    rw [map_cons, nodup_cons] at hnodup
    rw [← singleton_append, logOf_append]
    by_cases heq : e.1 = n
    · refine .inr ⟨e.2, by rw [← heq]; exact mem_cons_self, ?_⟩
      have hself : logOf n [e] = [e.2] := by
        rw [← heq]
        exact logOf_self
      have hnil : logOf n entries = [] :=
        logOf_eq_nil fun e' he' heq' => hnodup.1 (mem_map.2 ⟨e', he', heq'.trans heq.symm⟩)
      rw [hself, hnil]
      rfl
    · have hnil : logOf n [e] = [] := logOf_other (Ne.symm heq)
      rw [hnil]
      rcases ih hnodup.2 with hrest | ⟨h, hmem, hrest⟩
      · exact .inl hrest
      · exact .inr ⟨h, mem_append_right _ hmem, hrest⟩

/-- Records go, some of them with an event. -/
theorem World.tear (hw : World pbds log next) (hperm : pbds.Perm (gone ++ pbds')) (hnodup : (entries.map (·.1)).Nodup)
    (hentries : ∀ e ∈ entries, ∃ p ∈ gone, e.1 = p.serial ∧ Conforms (logOf p.serial log ++ [e.2])) :
    World pbds' (log ++ entries) next := by
  have hserials := hw.serials
  rw [(hperm.map _).nodup_iff, map_append, nodup_append] at hserials
  have hmem : ∀ p ∈ pbds', p ∈ pbds := fun p hp => hperm.mem_iff.2 (mem_append_right _ hp)
  have hsilent : ∀ p ∈ pbds', logOf p.serial entries = [] := by
    intro p hp
    refine logOf_eq_nil fun e he heq => ?_
    obtain ⟨q, hq, hserial, -⟩ := hentries e he
    exact hserials.2.2 _ (mem_map_of_mem hq) _ (mem_map_of_mem hp) (hserial.symm.trans heq)
  refine ⟨hw.toDistinct.drop hperm, fun n hn => ?_, fun p hp => ?_, fun n => ?_⟩
  · rw [logOf_append, hw.fresh n hn]
    refine logOf_eq_nil fun e he heq => ?_
    obtain ⟨q, hq, hserial, -⟩ := hentries e he
    have := hw.low q (hperm.mem_iff.2 (mem_append_left _ hq))
    omega
  · rw [logOf_append, hsilent p hp, append_nil]
    exact hw.tracks p (hmem p hp)
  · rw [logOf_append]
    rcases logOf_nodup hnodup n with hnil | ⟨h, he, hone⟩
    · rw [hnil, append_nil]
      exact hw.conforms n
    · obtain ⟨q, -, hserial, hconf⟩ := hentries _ he
      rw [hone, show n = q.serial from hserial]
      exact hconf

variable {ms : UInt32} {root deviceid : ℕ} {e : ℕ × Happening}

/-- The entry for a record that goes. -/
theorem torn_spec (he : torn ms root c deviceid = some e) :
    ∃ p, GetBarrierDevice c deviceid = some p ∧ e.1 = p.serial ∧
      ∀ log, Tracks p log → 0 < p.barrier_event_id.toInt → Conforms (log ++ [e.2]) := by
  unfold torn at he
  split at he
  · exact absurd he (by simp)
  next pbd hget =>
    split at he
    · next hhit =>
      rw [← Option.some.inj he]
      exact ⟨pbd, hget, rfl, fun log ht hpos => ht.torn hpos hhit rfl rfl rfl⟩
    · exact absurd he (by simp)

theorem masters_nodup (hs : Sound s) : s.masters.Nodup :=
  hs.devices.sublist (filter_sublist.map _)

/-- The records of a barrier that is freed, and the others. -/
theorem free_perm {id : ℕ} (hfind : barriers.find? (·.id == id) = some c) :
    (recordsOf barriers).Perm (c.per_device ++ recordsOf (barriers.eraseP (·.id == id))) := by
  obtain ⟨hat, before, after, rfl, hbefore⟩ := List.find?_eq_some_iff_append.1 hfind
  rw [eraseP_append_right _ (fun b hb => by simpa using hbefore b hb), eraseP_cons, hat]
  unfold recordsOf
  rw [flatMap_append, flatMap_cons, flatMap_append, ← append_assoc, ← append_assoc]
  exact perm_append_comm.append_right _

theorem free_sound {id : ℕ} (hs : Sound s) (hpos : Positive (recordsOf s.barriers)) :
    Sound (BarrierFreeBarrier s id root ms) := by
  unfold BarrierFreeBarrier
  cases hfind : s.barriers.find? (·.id == id) with
  | none => exact hs
  | some c =>
    have hc := mem_of_find?_eq_some hfind
    have hperm := free_perm hfind
    have hfirst : ∀ {d p}, GetBarrierDevice c d = some p → p.deviceid = d := fun hget => by
      simpa using List.find?_some hget
    refine ⟨hs.world.tear hperm ?_ fun e he => ?_,
      fun p hp => hs.unseen p (hperm.mem_iff.2 (mem_append_right _ hp)), hs.devices⟩
    · -- the records of two masters are different ones
      rw [map_filterMap, List.Nodup, pairwise_filterMap]
      refine (masters_nodup hs).imp fun {d d'} hne => ?_
      rintro n hn n' hn' rfl
      obtain ⟨e, he, rfl⟩ := Option.map_eq_some_iff.1 hn
      obtain ⟨e', he', heq⟩ := Option.map_eq_some_iff.1 hn'
      obtain ⟨p, hget, hserial, -⟩ := torn_spec he
      obtain ⟨p', hget', hserial', -⟩ := torn_spec he'
      have : p' = p := hs.world.eq_of_serial (mem_records hc hget) (mem_records hc hget')
        (by rw [← hserial, ← hserial', heq])
      rw [← hfirst hget, ← hfirst hget', this] at hne
      exact hne rfl
    · obtain ⟨d, -, he⟩ := mem_filterMap.1 he
      obtain ⟨p, hget, hserial, hconf⟩ := torn_spec he
      have hp := mem_records hc hget
      exact ⟨p, mem_of_find?_eq_some hget, hserial, hconf _ (hs.world.tracks p hp) (hpos p hp)⟩

variable (barriers deviceid) in
/-- The records of a master pointer that is removed, and the others. -/
theorem remove_perm : (recordsOf barriers).Perm
    ((barriers.filterMap fun c => GetBarrierDevice c deviceid) ++
      recordsOf (barriers.map (remove_master_func deviceid))) := by
  induction barriers with
  | nil => exact List.Perm.refl _
  | cons c rest ih =>
    have hone : c.per_device.Perm
        ((GetBarrierDevice c deviceid).toList ++ (remove_master_func deviceid c).per_device) := by
      unfold GetBarrierDevice remove_master_func
      generalize c.per_device = l
      induction l with
      | nil => exact List.Perm.refl _
      | cons r l ihl =>
        rw [List.find?_cons, eraseP_cons]
        cases r.deviceid == deviceid with
        | true => exact List.Perm.refl _
        | false => exact (ihl.cons r).trans perm_middle.symm
    have hleft : recordsOf (c :: rest) = c.per_device ++ recordsOf rest := flatMap_cons
    have hright : recordsOf ((c :: rest).map (remove_master_func deviceid)) =
        (remove_master_func deviceid c).per_device ++ recordsOf (rest.map (remove_master_func deviceid)) :=
      flatMap_cons
    have hmiddle : ((c :: rest).filterMap fun c => GetBarrierDevice c deviceid) =
        (GetBarrierDevice c deviceid).toList ++ rest.filterMap fun c => GetBarrierDevice c deviceid := by
      rw [filterMap_cons]
      cases GetBarrierDevice c deviceid <;> rfl
    rw [hright, hmiddle]
    refine (hone.append ih).trans ?_
    rw [append_assoc, append_assoc]
    refine List.Perm.append_left _ ?_
    rw [← append_assoc, ← append_assoc]
    exact perm_append_comm.append_right _

theorem removeMaster_sound (hs : Sound s) (hpos : Positive (recordsOf s.barriers)) :
    Sound (removeMaster s deviceid root ms) := by
  unfold removeMaster
  split
  · have hperm := remove_perm s.barriers deviceid
    refine ⟨hs.world.tear hperm ?_ fun e he => ?_, fun p hp => hs.unseen p ?_, ?_⟩
    · -- the entries are among the records that go, in their order
      have hsub : ((s.barriers.filterMap fun c => torn ms root c deviceid).map (·.1)).Sublist
          ((s.barriers.filterMap fun c => GetBarrierDevice c deviceid).map (·.serial)) := by
        generalize s.barriers = l
        induction l with
        | nil => exact List.Sublist.refl _
        | cons c l ih =>
          rw [filterMap_cons, filterMap_cons]
          cases he : torn ms root c deviceid with
          | none =>
            cases GetBarrierDevice c deviceid with
            | none => exact ih
            | some p => exact ih.cons _
          | some e =>
            obtain ⟨p, hget, hserial, -⟩ := torn_spec he
            rw [hget]
            rw [map_cons, hserial]
            exact ih.cons_cons _
      have hserials := hs.world.serials
      rw [(hperm.map _).nodup_iff, map_append, nodup_append] at hserials
      exact hserials.1.sublist hsub
    · obtain ⟨c, hc, he⟩ := mem_filterMap.1 he
      obtain ⟨p, hget, hserial, hconf⟩ := torn_spec he
      have hp := mem_records hc hget
      exact ⟨p, mem_filterMap.2 ⟨c, hc, hget⟩, hserial, hconf _ (hs.world.tracks p hp) (hpos p hp)⟩
    · exact hperm.mem_iff.2 (mem_append_right _ hp)
    · exact hs.devices.sublist ((eraseP_sublist).map _)
  · exact hs

/-! ## Runs -/

theorem noBarriers_sound : Sound noBarriers where
  world := ⟨⟨by simp [noBarriers, recordsOf], by simp [noBarriers, recordsOf]⟩, by simp [noBarriers],
    by simp [noBarriers, recordsOf], fun n => .running .nil (.held (by simp))⟩
  unseen := by simp [noBarriers, recordsOf]
  devices := by simp [noBarriers]

/-- No event id of a record has run over. -/
def Unwrapped (s : BarrierState) (_ : BarrierOp) : Prop := Positive (recordsOf s.barriers)

instance (s : BarrierState) (op : BarrierOp) : Decidable (Unwrapped s op) :=
  inferInstanceAs (Decidable (∀ p ∈ recordsOf s.barriers, 0 < p.barrier_event_id.toInt))

theorem barrierStep_sound {op : BarrierOp} (hpos : Unwrapped s op) (hs : Sound s) : Sound (barrierStep blocking s op) := by
  cases op with
  | move mv => exact move_sound hs hpos
  | release client infos => exact release_sound hs hpos
  | create stuff => exact create_sound hs
  | destroy id root ms => exact free_sound hs hpos
  | addDevice deviceid kind answers => exact addDevice_sound hs
  | removeMaster deviceid root ms => exact removeMaster_sound hs hpos

/-- **Barrier events come in episodes** in every run in which no event id has run over: the log of
each barrier and master pointer conforms to the protocol, no barrier stays marked seen, and the loop of a motion ends. -/
theorem barriers_conform (blocking : PointerBarrier → ℤ → ℤ → ℤ → ℤ → Option ℚ) (is : List BarrierOp)
    (hrun : AllSteps (barrierStep blocking) Unwrapped noBarriers is) :
    let s := run (barrierStep blocking) noBarriers is
    Sound s ∧ (∀ serial, Conforms (logOf serial s.log)) ∧
      (Positive (recordsOf s.barriers) → ∀ mv master,
        hitTurn blocking mv master (hitLoop blocking mv master (s.barriers.length + 1) (mv.start s)) = none) := by
  have hsound := hrun.invariant (fun _ _ hpos hs => barrierStep_sound hpos hs) noBarriers_sound
  exact ⟨hsound, hsound.world.conforms, fun hpos mv master => hsound.motion_ends hpos master⟩

/-! ### A barrier that is hit again and again -/

/-- `barrier_is_blocking` for a vertical barrier of finite length and a motion along a row. -/
def levelBlocking (barrier : PointerBarrier) (x1 y1 x2 y2 : ℤ) : Option ℚ :=
  if barrier_is_vertical barrier ∧ y1 = y2 ∧ barrier.y1 ≤ y1 ∧ y1 ≤ barrier.y2 ∧
      ((x1 < barrier.x1 ∧ barrier.x1 ≤ x2) ∨ (x2 < x1 ∧ x2 ≤ barrier.x1 ∧ barrier.x1 ≤ x1)) then
    some |(barrier.x1 - x1 : ℤ)|
  else none

/-- The pointer moves to the right and runs into the barrier, and back. -/
def inward : Motion :=
  { dev := 6, master := some 2, screen := 0, root := 1, current_x := 5, current_y := 5, dest_x := 15, dest_y := 5, ms := 0 }

def outward : Motion :=
  { dev := 6, master := some 2, screen := 0, root := 1, current_x := 9, current_y := 5, dest_x := 0, dest_y := 5, ms := 0 }

/-- The barrier's XID; its client is the first one. -/
def theBarrier : ℕ := 2097153

/-- One master pointer and one barrier at the column 10. -/
def oneBarrier : List BarrierOp :=
  [.addDevice 2 .masterPointer [],
   .create { barrier := theBarrier, window := 1, screen := 0, x1 := 10, y1 := 0, x2 := 10, y2 := 20, directions := 0,
             devices := [], calloc := true, pbdCallocs := [], addResource := true }]

/-- The pointer hits the barrier, is released, passes, leaves and hits it again; then the pair is torn apart. -/
theorem barriers_conform_released :
    Sound (run (barrierStep levelBlocking) noBarriers (oneBarrier ++
      [.move inward, .release 1 [⟨2, theBarrier, 7⟩, ⟨2, theBarrier, 1⟩], .move { inward with current_x := 9 },
       .move outward, .move inward, .removeMaster 2 1 0, .destroy theBarrier 1 0])) :=
  (barriers_conform levelBlocking _ (by decide +kernel)).1

variable {id : ℤ}

theorem Running.event_pos {released : Bool} {l : List Happening} (hl : Running id released l) (hid : 1 ≤ id) :
    ∀ ev, .event ev ∈ l → 1 ≤ ev.event_id.toInt := by
  have hhit : ∀ {hits : List Happening}, (∀ h ∈ hits, IsHit id h) → ∀ ev, .event ev ∈ hits → 1 ≤ ev.event_id.toInt := by
    intro hits hall ev hmem
    obtain ⟨ev', heq, -, hev⟩ := hall _ hmem
    rw [Happening.event.inj heq, hev]
    exact hid
  intro ev hmem
  cases hl with
  | held hhits => exact hhit hhits ev hmem
  | released hhits _ hrest =>
    rcases mem_append.1 hmem with hmem | hmem
    · exact hhit hhits ev hmem
    · rcases mem_cons.1 hmem with heq | hmem
      · exact absurd heq (by simp)
      · obtain ⟨i, -, heq | heq⟩ := hrest _ hmem
        · exact absurd heq (by simp)
        · exact absurd heq (by simp)

theorem IsLeave.event_pos {released : Bool} {ev : BarrierEvent} (hh : IsLeave id released (.event ev)) (hid : 1 ≤ id) :
    1 ≤ ev.event_id.toInt := by
  obtain ⟨ev', heq, -, hev, -⟩ := hh
  rw [Happening.event.inj heq, hev]
  exact hid

theorem Episodes.event_pos {past : List Happening} (hpast : Episodes id past) :
    ∀ ev, .event ev ∈ past → 1 ≤ ev.event_id.toInt := by
  induction hpast with
  | nil => simp
  | snoc hpast hl _ hh ih =>
    intro ev hmem
    rw [mem_append, mem_append, mem_singleton] at hmem
    rcases hmem with hmem | hmem | rfl
    · exact ih ev hmem
    · exact hl.event_pos hpast.pos ev hmem
    · exact hh.event_pos hpast.pos

/-- Every id in a conforming log is positive. -/
theorem Conforms.event_pos {log : List Happening} (hlog : Conforms log) :
    ∀ ev, .event ev ∈ log → 1 ≤ ev.event_id.toInt := by
  intro ev hmem
  cases hlog with
  | running hpast hl =>
    rcases mem_append.1 hmem with hmem | hmem
    · exact hpast.event_pos ev hmem
    · exact hl.event_pos hpast.pos ev hmem
  | torn hpast hl _ hh =>
    rw [mem_append, mem_append, mem_singleton] at hmem
    rcases hmem with hmem | hmem | rfl
    · exact hpast.event_pos ev hmem
    · exact hl.event_pos hpast.pos ev hmem
    · exact hh.event_pos hpast.pos

/-- The barrier, with its record of the pointer. -/
def column (p : PointerBarrierDevice) : PointerBarrierClient :=
  { id := theBarrier, pScreen := 0, window := 1, barrier := { x1 := 10, x2 := 10, y1 := 0, y2 := 20, directions := 0 },
    device_ids := [], per_device := [p] }

/-- The state between two motions. -/
def waiting (p : PointerBarrierDevice) (log : List (ℕ × Happening)) : BarrierState :=
  { devices := [(2, .masterPointer)], barriers := [column p], nextSerial := 1, log := log }

/-- The barrier in a motion along its row. -/
def hitting (p : PointerBarrierDevice) (log : List (ℕ × Happening)) (evs : List BarrierEvent) (x : ℤ) (dir : BitVec 32) :
    Moving :=
  { barriers := [column p], log := log, barrier_events := evs, current_x := 9, current_y := 5, x := x, y := 5, dir := dir }

section column

variable {evs : List BarrierEvent} {dir : BitVec 32}

theorem column_device (hdev : p.deviceid = 2) : GetBarrierDevice (column p) 2 = some p := by
  simp [GetBarrierDevice, column, hdev]

variable (p q) in
theorem put_column (hserial : q.serial = p.serial) : [column p].map (·.put q) = [column q] := by
  simp [column, PointerBarrierClient.put, PointerBarrierDevice.over, hserial]

theorem nearest_inward (hdev : p.deviceid = 2) (hseen : p.seen = false) :
    barrier_find_nearest levelBlocking [column p] 2 1 5 5 15 5 = some (column p, p) := by
  have hblock : levelBlocking (column p).barrier 5 5 15 5 = some 5 := by
    show levelBlocking { x1 := 10, x2 := 10, y1 := 0, y2 := 20, directions := 0 } 5 5 15 5 = some 5
    decide +kernel
  have hdir : barrier_is_blocking_direction (column p).barrier 1 = true := by
    show barrier_is_blocking_direction { x1 := 10, x2 := 10, y1 := 0, y2 := 20, directions := 0 } 1 = true
    decide
  have hblocks : barrier_blocks_device (column p) 2 = true := rfl
  unfold barrier_find_nearest
  rw [foldl_cons, foldl_nil, nearer, column_device hdev]
  dsimp only
  rw [hseen, hdir, hblocks, hblock]
  dsimp only
  rw [if_neg (by decide), if_neg (by decide), if_neg (by decide), if_pos (by unfold INT_MAX; norm_num)]

variable (log p) in
/-- The pointer moves away from the barrier, and is not in its way. -/
theorem hitTurn_outward (hdev : p.deviceid = 2) :
    hitTurn levelBlocking outward 2 (outward.start (waiting p log)) = none := by
  have hblock : levelBlocking (column p).barrier 9 5 0 5 = none := by
    show levelBlocking { x1 := 10, x2 := 10, y1 := 0, y2 := 20, directions := 0 } 9 5 0 5 = none
    decide +kernel
  have hfind : ∀ d, barrier_find_nearest levelBlocking [column p] 2 d 9 5 0 5 = none := by
    intro d
    unfold barrier_find_nearest
    rw [foldl_cons, foldl_nil, nearer, column_device hdev]
    dsimp only
    rw [hblock]
    dsimp only
    rw [ite_self, ite_self, ite_self]
  have hnone : barrier_find_nearest levelBlocking (onScreen outward.screen (outward.start (waiting p log)).barriers) 2
      (outward.start (waiting p log)).dir (outward.start (waiting p log)).current_x
      (outward.start (waiting p log)).current_y (outward.start (waiting p log)).x
      (outward.start (waiting p log)).y = none := hfind _
  unfold hitTurn
  split
  · rfl
  · rw [hnone]

/-- The pointer runs into the barrier. -/
theorem hitTurn_inward (hdev : p.deviceid = 2) (hseen : p.seen = false) (hhit : p.hit = false)
    (hid : p.barrier_event_id ≠ p.release_event_id) :
    hitTurn levelBlocking inward 2 (inward.start (waiting p log)) =
      some (hitting { p with seen := true, hit := true, last_timestamp := 0 }
        (log ++ [(p.serial, .event (inward.event (column p) p .ET_BarrierHit 0 0))])
        [inward.event (column p) p .ET_BarrierHit 0 0] 9 0) := by
  have hstart : inward.start (waiting p log) =
      { barriers := [column p], log := log, barrier_events := [], current_x := 5, current_y := 5, x := 15, y := 5,
        dir := 1 } := by
    have hdir : barrier_get_direction 5 5 15 5 = 1 := by decide
    simp only [Motion.start, waiting, inward, hdir]
  have hclamp : barrier_clamp_to_barrier (column p).barrier 1 15 5 = (9, 5) := by
    show barrier_clamp_to_barrier { x1 := 10, x2 := 10, y1 := 0, y2 := 20, directions := 0 } 1 15 5 = (9, 5)
    decide
  have hvertical : barrier_is_vertical (column p).barrier = true := rfl
  unfold hitTurn
  rw [hstart]
  dsimp only
  rw [show onScreen inward.screen [column p] = [column p] from rfl, nearest_inward hdev hseen]
  dsimp only
  rw [if_neg hid, hclamp, put_column p, hhit]
  · dsimp only [hitting]
    rfl
  · rfl

variable (log p mv evs dir) in
/-- The pointer stays at the barrier. -/
theorem leaveTurn_stay (hdev : p.deviceid = 2) :
    leaveTurn mv 2 (hitting p log evs 9 dir) (column p) = hitting { p with seen := false } log evs 9 dir := by
  have hbox : barrier_inside_hit_box (column p).barrier (hitting p log evs 9 dir).x (hitting p log evs 9 dir).y = true := by
    show barrier_inside_hit_box { x1 := 10, x2 := 10, y1 := 0, y2 := 20, directions := 0 } 9 5 = true
    decide
  unfold leaveTurn
  rewrite [column_device hdev]
  dsimp only
  rewrite [hbox, Bool.or_true, if_pos rfl]
  unfold hitting
  dsimp only
  rewrite [put_column p { p with seen := false } rfl]
  rfl

theorem leaveTurn_leave (hdev : p.deviceid = 2) (hhit : p.hit = true) (hid : p.barrier_event_id ≠ p.release_event_id) :
    leaveTurn mv 2 (hitting p log evs 0 dir) (column p) =
      hitting { p with seen := false, hit := false, last_timestamp := mv.ms, barrier_event_id := p.barrier_event_id + 1 }
        (log ++ [(p.serial, .event (mv.event (column p) p .ET_BarrierLeave 0 (since mv.ms p)))])
        (evs ++ [mv.event (column p) p .ET_BarrierLeave 0 (since mv.ms p)]) 0 dir := by
  have hbox : barrier_inside_hit_box (column p).barrier (hitting p log evs 0 dir).x (hitting p log evs 0 dir).y = false := by
    show barrier_inside_hit_box { x1 := 10, x2 := 10, y1 := 0, y2 := 20, directions := 0 } 0 5 = false
    decide
  unfold leaveTurn
  rewrite [column_device hdev]
  dsimp only
  rewrite [hbox, hhit, if_neg (by decide), if_neg hid]
  unfold hitting
  dsimp only
  rewrite [put_column p
    { p with seen := false, hit := false, last_timestamp := mv.ms, barrier_event_id := p.barrier_event_id + 1 } rfl]
  rfl

variable (log) in
theorem step_inward (hdev : p.deviceid = 2) (hseen : p.seen = false) (hhit : p.hit = false)
    (hid : p.barrier_event_id ≠ p.release_event_id) :
    barrierStep levelBlocking (waiting p log) (.move inward) = waiting { p with hit := true, last_timestamp := 0 }
      (log ++ [(p.serial, .event (inward.event (column p) p .ET_BarrierHit 0 0))]) := by
  have hloop : hitLoop levelBlocking inward 2 2 (inward.start (waiting p log)) =
      hitting { p with seen := true, hit := true, last_timestamp := 0 }
        (log ++ [(p.serial, .event (inward.event (column p) p .ET_BarrierHit 0 0))])
        [inward.event (column p) p .ET_BarrierHit 0 0] 9 0 := by
    unfold hitLoop
    rw [hitTurn_inward hdev hseen hhit hid]
    exact hitLoop_stop rfl
  have hrun : input_constrain_cursor levelBlocking (waiting p log) inward =
      (let hits := hitLoop levelBlocking inward 2 2 (inward.start (waiting p log))
       let m := (onScreen 0 hits.barriers).foldl (leaveTurn inward 2) hits
       ({ waiting p log with barriers := m.barriers, log := m.log }, (m.x, m.y), m.barrier_events)) := rfl
  dsimp only [barrierStep]
  rewrite [hrun, hloop]
  show (let m := leaveTurn inward 2 (hitting { p with seen := true, hit := true, last_timestamp := 0 } _ _ 9 0)
          (column { p with seen := true, hit := true, last_timestamp := 0 })
        ({ waiting p log with barriers := m.barriers, log := m.log } : BarrierState)) = _
  rewrite [leaveTurn_stay _ { p with seen := true, hit := true, last_timestamp := 0 } inward _ _ hdev]
  dsimp only [waiting, hitting]
  rw [hseen]

variable (log) in
theorem step_outward (hdev : p.deviceid = 2) (hseen : p.seen = false) (hhit : p.hit = true)
    (hid : p.barrier_event_id ≠ p.release_event_id) :
    barrierStep levelBlocking (waiting p log) (.move outward) =
      waiting { p with hit := false, last_timestamp := 0, barrier_event_id := p.barrier_event_id + 1 }
        (log ++ [(p.serial, .event (outward.event (column p) p .ET_BarrierLeave 0 (since 0 p)))]) := by
  have hloop : hitLoop levelBlocking outward 2 2 (outward.start (waiting p log)) = hitting p log [] 0 4 := by
    have hdir : barrier_get_direction 9 5 0 5 = 4 := by decide
    rw [hitLoop_stop (hitTurn_outward log p hdev)]
    simp only [Motion.start, waiting, outward, hdir, hitting]
  have hrun : input_constrain_cursor levelBlocking (waiting p log) outward =
      (let hits := hitLoop levelBlocking outward 2 2 (outward.start (waiting p log))
       let m := (onScreen 0 hits.barriers).foldl (leaveTurn outward 2) hits
       ({ waiting p log with barriers := m.barriers, log := m.log }, (m.x, m.y), m.barrier_events)) := rfl
  dsimp only [barrierStep]
  rewrite [hrun, hloop]
  show (let m := leaveTurn outward 2 (hitting p _ _ 0 4) (column p)
        ({ waiting p log with barriers := m.barriers, log := m.log } : BarrierState)) = _
  rewrite [leaveTurn_leave hdev hhit hid]
  dsimp only
  rw [hseen]
  rfl

end column

/-- The record after some visits of the pointer. -/
def visited (n : ℕ) : PointerBarrierDevice := { AllocBarrierDevice 0 2 with barrier_event_id := Int32.ofInt (1 + n) }

theorem visited_ne {n : ℕ} (hn : n < 2 ^ 31) : (visited n).barrier_event_id ≠ (visited n).release_event_id := by
  intro heq
  have hzero : Int32.ofInt (1 + n) = 0 := heq
  have := congrArg Int32.toInt hzero
  rw [Int32.toInt_ofInt] at this
  have h0 : (0 : Int32).toInt = 0 := by decide
  rw [Int.bmod_def] at this
  simp only [show Int32.size = 2 ^ 32 from rfl] at this
  split at this <;> omega

/-- The pointer runs into the barrier and moves away, `n` times. -/
theorem run_visits {n : ℕ} (hn : n < 2 ^ 31) :
    ∃ log, run (barrierStep levelBlocking) (waiting (visited 0) []) (List.replicate n [.move inward, .move outward]).flatten =
      waiting (visited n) log := by
  induction n with
  | zero => exact ⟨[], rfl⟩
  | succ n ih =>
    obtain ⟨log, hlog⟩ := ih (by omega)
    have hnext : ({ visited n with barrier_event_id := (visited n).barrier_event_id + 1 } : PointerBarrierDevice) =
        visited (n + 1) := by
      have hid : (visited n).barrier_event_id + 1 = (visited (n + 1)).barrier_event_id := by
        show Int32.ofInt (1 + n) + Int32.ofInt 1 = Int32.ofInt (1 + (n + 1 : ℕ))
        rw [← Int32.ofInt_add]
        congr 1
      rw [hid]
      rfl
    have hin := step_inward log (p := visited n) rfl rfl rfl (visited_ne (by omega))
    have hout := fun log => step_outward log (p := { visited n with hit := true, last_timestamp := 0 })
      rfl rfl rfl (visited_ne (by omega))
    rw [replicate_succ', flatten_append, run_append, hlog]
    show ∃ log', barrierStep levelBlocking (barrierStep levelBlocking (waiting (visited n) log) (.move inward))
      (.move outward) = waiting (visited (n + 1)) log'
    rw [hin, hout]
    exact ⟨_, congrArg (waiting · _) hnext⟩

/-- The id after the greatest one is below zero. -/
theorem barriers_overflow :
    ¬ ∀ (blocking : PointerBarrier → ℤ → ℤ → ℤ → ℤ → Option ℚ) (is : List BarrierOp) (serial : ℕ),
      Conforms (logOf serial (run (barrierStep blocking) noBarriers is).log) := by
  intro h
  obtain ⟨log, hvisits⟩ := run_visits (show 2 ^ 31 - 1 < 2 ^ 31 by omega)
  have hconf := h levelBlocking
    (oneBarrier ++ ((List.replicate (2 ^ 31 - 1) [.move inward, .move outward]).flatten ++ [.move inward])) 0
  have hstart : run (barrierStep levelBlocking) noBarriers oneBarrier = waiting (visited 0) [] := by decide +kernel
  rw [run_append, run_append, hstart, hvisits, run_cons,
    step_inward _ rfl rfl rfl (visited_ne (by omega))] at hconf
  have hpos := hconf.event_pos (inward.event (column (visited (2 ^ 31 - 1))) (visited (2 ^ 31 - 1)) .ET_BarrierHit 0 0) (by
    show _ ∈ logOf 0 (log ++ [_])
    rw [logOf_append]
    exact mem_append_right _ (by simp [logOf, visited, AllocBarrierDevice]))
  have hid : (visited (2 ^ 31 - 1)).barrier_event_id.toInt < 1 := by
    show (Int32.ofInt (1 + (2 ^ 31 - 1 : ℕ))).toInt < 1
    decide
  exact absurd hpos (not_le.2 hid)

end Xenia.Xi.Barriers
