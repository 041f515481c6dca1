import Mathlib.Tactic
import Xenia.Dix.ModifierMap

/-!
# What a change of the modifier map does

* `buildModmapFromModkeymap_iff`: the map that is built is the one the request describes
  (`Requested`), and there is one unless a key is listed twice.
* `checkModmapChange_success`: when a device accepts a map (`ChangeAllowed`). All keys of the
  new map are up, and those of the old map that are before the last key of the keyboard.
* `changeModmap_spec`: on success the device and those that follow it (`Involved`) have the
  new map, and otherwise no map changes.

The last key of a keyboard escapes the check: `modmap_changed` says that this is all that
does.
-/

namespace Xenia.Dix.ModifierMap

open List Function Option

variable {modkeymap : ℕ → KeyCode} {max_keys_per_mod : ℕ} {modmap m₀ : KeyCode → UInt8}

/-! ### The map of the request -/

/-- The modifier of a place in the request. -/
def modifierBit (max_keys_per_mod i : ℕ) : UInt8 := UInt8.ofNat (1 <<< (i / max_keys_per_mod))

/-- The map `modmap` is what the request describes: no key is listed twice, a listed key has
the modifier of its place, and no other key has one. -/
structure Requested (modkeymap : ℕ → KeyCode) (max_keys_per_mod : ℕ) (modmap : KeyCode → UInt8) : Prop where
  distinct : ∀ i j, i < j → j < max_keys_per_mod * 8 → modkeymap i = modkeymap j → modkeymap i = 0
  listed : ∀ i < max_keys_per_mod * 8, modkeymap i ≠ 0 → modmap (modkeymap i) = modifierBit max_keys_per_mod i
  unlisted : ∀ k, (∀ i < max_keys_per_mod * 8, modkeymap i = k → k = 0) → modmap k = 0

theorem modifierBit_ne_zero {i : ℕ} (hi : i < max_keys_per_mod * 8) : modifierBit max_keys_per_mod i ≠ 0 := by
  have hlt : i / max_keys_per_mod < 8 := Nat.div_lt_of_lt_mul hi
  unfold modifierBit
  generalize i / max_keys_per_mod = n at hlt
  interval_cases n <;> decide

/-- The places `is`, in this order, make `modmap` out of `m₀`. -/
structure Built (modkeymap : ℕ → KeyCode) (max_keys_per_mod : ℕ) (is : List ℕ) (m₀ modmap : KeyCode → UInt8) :
    Prop where
  fresh : ∀ i ∈ is, modkeymap i ≠ 0 → m₀ (modkeymap i) = 0
  distinct : is.Pairwise fun i j => modkeymap i = modkeymap j → modkeymap i = 0
  listed : ∀ i ∈ is, modkeymap i ≠ 0 → modmap (modkeymap i) = modifierBit max_keys_per_mod i
  unlisted : ∀ k, (∀ i ∈ is, modkeymap i = k → k = 0) → modmap k = m₀ k

theorem built_nil : Built modkeymap max_keys_per_mod [] m₀ modmap ↔ modmap = m₀ := by
  constructor
  · intro h
    funext k
    exact h.unlisted k fun i hi => absurd hi not_mem_nil
  · rintro rfl
    exact ⟨fun i hi => absurd hi not_mem_nil, .nil, fun i hi => absurd hi not_mem_nil, fun k _ => rfl⟩

variable {is : List ℕ}

/-- A place that lists no key. -/
theorem built_cons_zero {i : ℕ} (hi : modkeymap i = 0) :
    Built modkeymap max_keys_per_mod (i :: is) m₀ modmap ↔ Built modkeymap max_keys_per_mod is m₀ modmap := by
  constructor
  · intro h
    refine ⟨fun j hj => h.fresh j (.tail _ hj), (pairwise_cons.1 h.distinct).2,
      fun j hj => h.listed j (.tail _ hj), fun k hk => h.unlisted k fun j hj hjk => ?_⟩
    rcases mem_cons.1 hj with rfl | hj
    · exact hjk.symm.trans hi
    · exact hk j hj hjk
  · intro h
    refine ⟨fun j hj hne => ?_, pairwise_cons.2 ⟨fun j _ _ => hi, h.distinct⟩, fun j hj hne => ?_,
      fun k hk => h.unlisted k fun j hj => hk j (.tail _ hj)⟩
    · rcases mem_cons.1 hj with rfl | hj
      · exact absurd hi hne
      · exact h.fresh j hj hne
    · rcases mem_cons.1 hj with rfl | hj
      · exact absurd hi hne
      · exact h.listed j hj hne

/-- A place that lists a key which has no modifier yet. -/
theorem built_cons {i : ℕ} (hi : modkeymap i ≠ 0) (hfree : m₀ (modkeymap i) = 0) (hbit : modifierBit max_keys_per_mod i ≠ 0) :
    Built modkeymap max_keys_per_mod (i :: is) m₀ modmap ↔
      Built modkeymap max_keys_per_mod is
        (update m₀ (modkeymap i) (modifierBit max_keys_per_mod i)) modmap := by
  constructor
  · intro h
    obtain ⟨hhead, htail⟩ := pairwise_cons.1 h.distinct
    have hne : ∀ j ∈ is, modkeymap j ≠ modkeymap i := fun j hj heq => hi (hhead j hj heq.symm)
    refine ⟨fun j hj hj0 => ?_, htail, fun j hj => h.listed j (.tail _ hj), fun k hk => ?_⟩
    · rw [update_of_ne (hne j hj)]
      exact h.fresh j (.tail _ hj) hj0
    · by_cases hki : k = modkeymap i
      · rw [hki, update_self]
        exact h.listed i (.head _) hi
      · rw [update_of_ne hki]
        refine h.unlisted k fun j hj hjk => ?_
        rcases mem_cons.1 hj with rfl | hj
        · exact absurd hjk.symm hki
        · exact hk j hj hjk
  · intro h
    -- a later place with the same key would not be fresh
    have hne : ∀ j ∈ is, modkeymap j ≠ modkeymap i := by
      intro j hj heq
      have hfresh := h.fresh j hj (heq ▸ hi)
      rw [heq, update_self] at hfresh
      exact hbit hfresh
    refine ⟨fun j hj hj0 => ?_, pairwise_cons.2 ⟨fun j hj heq => absurd heq.symm (hne j hj), h.distinct⟩,
      fun j hj hj0 => ?_, fun k hk => ?_⟩
    · rcases mem_cons.1 hj with rfl | hj
      · exact hfree
      · have hfresh := h.fresh j hj hj0
        rwa [update_of_ne (hne j hj)] at hfresh
    · rcases mem_cons.1 hj with rfl | hj
      · rw [h.unlisted _ fun l hl heq => absurd heq (hne l hl), update_self]
      · exact h.listed j hj hj0
    · have hki : k ≠ modkeymap i := fun heq => hi (heq ▸ hk i (.head _) heq.symm)
      rw [h.unlisted k fun j hj => hk j (.tail _ hj), update_of_ne hki]

theorem buildModmap_iff (hbits : ∀ i ∈ is, modifierBit max_keys_per_mod i ≠ 0) :
    buildModmap modkeymap max_keys_per_mod is m₀ = some modmap ↔
      Built modkeymap max_keys_per_mod is m₀ modmap := by
  induction is generalizing m₀ with
  | nil =>
    rw [built_nil]
    exact some_inj.trans eq_comm
  | cons i is ih =>
    have htail := fun j hj => hbits j (.tail _ hj)
    unfold buildModmap
    split
    · rename_i hi
      rw [built_cons_zero hi]
      exact ih htail
    · rename_i hi
      split
      · rename_i htaken
        exact ⟨fun h => (nomatch h), fun h => absurd (h.fresh i (.head _) hi) htaken⟩
      · rename_i hfree
        rw [built_cons hi (not_not.1 hfree) (hbits i (.head _))]
        exact ih htail

/-- **The new map** is built when no key is listed twice, and it is the requested one. -/
theorem buildModmapFromModkeymap_iff :
    buildModmapFromModkeymap modkeymap max_keys_per_mod = some modmap ↔
      Requested modkeymap max_keys_per_mod modmap := by
  unfold buildModmapFromModkeymap
  rw [buildModmap_iff fun i hi => modifierBit_ne_zero (mem_range.1 hi)]
  constructor
  · intro h
    refine ⟨fun i j hij hj => ?_, fun i hi => h.listed i (mem_range.2 hi),
      fun k hk => h.unlisted k fun i hi => hk i (mem_range.1 hi)⟩
    have hpair := pairwise_iff_getElem.1 h.distinct i j (by simp; omega) (by simpa using hj) hij
    simpa using hpair
  · intro h
    refine ⟨fun _ _ _ => rfl, ?_, fun i hi => h.listed i (mem_range.1 hi),
      fun k hk => h.unlisted k fun i hi => hk i (mem_range.2 hi)⟩
    rw [pairwise_iff_getElem]
    intro i j hi hj hij
    rw [length_range] at hi hj
    simpa using h.distinct i j hij hj

/-! ### When a device accepts a map -/

/-- What the check asks of the keys: those of the new map are on the keyboard and up, and those
of the old map are up, as far as the loop over it goes. -/
structure KeysAllow (key : KeyClass) (modmap : KeyCode → UInt8) : Prop where
  range : ∀ i, modmap i ≠ 0 → key.min_key_code ≤ i ∧ i ≤ key.max_key_code
  newUp : ∀ i, modmap i ≠ 0 → key.isDown i = false
  oldUp : ∀ i, key.min_key_code ≤ i → i < key.max_key_code → key.modmap i ≠ 0 → key.isDown i = false

/-- A device accepts a map. -/
structure ChangeAllowed (access : Status) (dev : Device) (modmap : KeyCode → UInt8) : Prop where
  granted : access = Success
  keys : ∃ key, dev.key = some key ∧ KeysAllow key modmap

variable {key : KeyClass} {i : KeyCode}

theorem checkNewKey_none :
    checkNewKey key modmap i = none ↔
      (modmap i ≠ 0 → (key.min_key_code ≤ i ∧ i ≤ key.max_key_code) ∧ key.isDown i = false) := by
  unfold checkNewKey busyKey
  split
  · rename_i hzero
    exact ⟨fun _ h => absurd hzero h, fun _ => rfl⟩
  · rename_i hne
    split
    · rename_i hout
      refine ⟨fun h => (nomatch h), fun h => ?_⟩
      obtain ⟨⟨hmin, hmax⟩, -⟩ := h hne
      exact absurd hout (not_or.2 ⟨not_lt.2 hmin, not_lt.2 hmax⟩)
    · rename_i hin
      obtain ⟨hmin, hmax⟩ := not_or.1 hin
      split
      · rename_i hdown
        refine ⟨fun h => (nomatch h), fun h => ?_⟩
        exact absurd (h hne).2 (by rw [hdown]; exact Bool.noConfusion)
      · rename_i hup
        exact ⟨fun _ _ => ⟨⟨not_lt.1 hmin, not_lt.1 hmax⟩, Bool.eq_false_iff.2 hup⟩, fun _ => rfl⟩

theorem checkOldKey_none :
    checkOldKey key i = none ↔ (key.modmap i ≠ 0 → key.isDown i = false) := by
  unfold checkOldKey busyKey
  split
  · rename_i hzero
    exact ⟨fun _ h => absurd hzero h, fun _ => rfl⟩
  · rename_i hne
    split
    · rename_i hdown
      exact ⟨fun h => (nomatch h), fun h => absurd (h hne) (by rw [hdown]; exact Bool.noConfusion)⟩
    · rename_i hup
      exact ⟨fun _ _ => Bool.eq_false_iff.2 hup, fun _ => rfl⟩

/-- The status a loop returns with is not that of success. -/
theorem checkNewKey_status {r : Status × ℕ} (h : checkNewKey key modmap i = some r) :
    r.1 ≠ Success := by
  unfold checkNewKey busyKey at h
  split at h
  · cases h
  · split at h
    · cases h
      exact Nat.noConfusion
    · split at h
      · cases h
        exact Nat.noConfusion
      · cases h

theorem checkOldKey_status {r : Status × ℕ} (h : checkOldKey key i = some r) :
    r.1 ≠ Success := by
  unfold checkOldKey busyKey at h
  split at h
  · cases h
  · split at h
    · cases h
      exact Nat.noConfusion
    · cases h

theorem mem_oldKeys :
    i ∈ key.oldKeys ↔ key.min_key_code ≤ i ∧ i < key.max_key_code := by
  unfold KeyClass.oldKeys
  rw [mem_filter, decide_eq_true_eq]
  exact and_iff_right (mem_finRange i)

/-- The loops over both maps come to their ends. -/
theorem keysAllow_iff :
    KeysAllow key modmap ↔ (finRange MAP_LENGTH).findSome? (checkNewKey key modmap) = none ∧
      key.oldKeys.findSome? (checkOldKey key) = none := by
  rw [findSome?_eq_none_iff, findSome?_eq_none_iff]
  constructor
  · intro h
    refine ⟨fun i _ => checkNewKey_none.2 fun hne => ⟨h.range i hne, h.newUp i hne⟩, fun i hi => ?_⟩
    obtain ⟨hmin, hmax⟩ := mem_oldKeys.1 hi
    exact checkOldKey_none.2 (h.oldUp i hmin hmax)
  · rintro ⟨hnew, hold⟩
    exact ⟨fun i hne => (checkNewKey_none.1 (hnew i (mem_finRange i)) hne).1,
      fun i hne => (checkNewKey_none.1 (hnew i (mem_finRange i)) hne).2,
      fun i hmin hmax => checkOldKey_none.1 (hold i (mem_oldKeys.2 ⟨hmin, hmax⟩))⟩

/-- **The check** succeeds for the maps a device accepts. -/
theorem checkModmapChange_success (access : Status) (errorValue : ℕ) (dev : Device) (modmap : KeyCode → UInt8) :
    (checkModmapChange access errorValue dev modmap).1 = Success ↔ ChangeAllowed access dev modmap := by
  unfold checkModmapChange
  split
  · rename_i hdenied
    exact iff_of_false hdenied fun h => hdenied h.granted
  · rename_i hgranted
    cases hkey : dev.key with
    | none =>
      refine iff_of_false (by decide : BadMatch ≠ Success) fun h => ?_
      obtain ⟨key, hsome, -⟩ := h.keys
      rw [hkey] at hsome
      exact nomatch hsome
    | some key =>
      have hiff : ChangeAllowed access dev modmap ↔ KeysAllow key modmap := by
        constructor
        · intro h
          obtain ⟨key', hsome, hallow⟩ := h.keys
          obtain rfl := some.inj (hkey.symm.trans hsome)
          exact hallow
        · exact fun h => ⟨not_not.1 hgranted, key, hkey, h⟩
      rw [hiff, keysAllow_iff]
      dsimp only
      cases hnew : (finRange MAP_LENGTH).findSome? (checkNewKey key modmap) with
      | some r =>
        obtain ⟨i, -, hi⟩ := exists_of_findSome?_eq_some hnew
        exact iff_of_false (checkNewKey_status hi) fun h => (nomatch h.1)
      | none =>
        cases hold : key.oldKeys.findSome? (checkOldKey key) with
        | some r =>
          obtain ⟨i, -, hi⟩ := exists_of_findSome?_eq_some hold
          exact iff_of_false (checkOldKey_status hi) fun h => (nomatch h.2)
        | none => exact iff_of_true rfl ⟨rfl, rfl⟩

/-- A slave follows its master: both are keyboards with one key range and no other symbols on
the keys of the new map, and the slave accepts the map. -/
structure SlaveFollows (access : Status) (master slave : Device) (modmap : KeyCode → UInt8) : Prop where
  similar : ∃ slaveKey masterKey, slave.key = some slaveKey ∧ master.key = some masterKey ∧
    slaveKey.min_key_code = masterKey.min_key_code ∧ slaveKey.max_key_code = masterKey.max_key_code ∧
    sameSyms slaveKey masterKey modmap = true
  allowed : ChangeAllowed access slave modmap

theorem checkModmapChangeSlave_iff (access : Status) (errorValue : ℕ) (master slave : Device) (modmap : KeyCode → UInt8) :
    (checkModmapChangeSlave access errorValue master slave modmap).1 = true ↔
      SlaveFollows access master slave modmap := by
  unfold checkModmapChangeSlave
  cases hslave : slave.key with
  | none =>
    refine iff_of_false Bool.noConfusion fun h => ?_
    obtain ⟨_, _, hkey, -⟩ := h.similar
    rw [hslave] at hkey
    exact nomatch hkey
  | some slaveKey =>
    cases hmaster : master.key with
    | none =>
      refine iff_of_false Bool.noConfusion fun h => ?_
      obtain ⟨_, _, -, hkey, -⟩ := h.similar
      rw [hmaster] at hkey
      exact nomatch hkey
    | some masterKey =>
      dsimp only
      have hsimilar : SlaveFollows access master slave modmap ↔
          (slaveKey.min_key_code = masterKey.min_key_code ∧ slaveKey.max_key_code = masterKey.max_key_code ∧
            sameSyms slaveKey masterKey modmap = true) ∧ ChangeAllowed access slave modmap := by
        constructor
        · intro h
          obtain ⟨k, k', hk, hk', hsame⟩ := h.similar
          obtain rfl := some.inj (hslave.symm.trans hk)
          obtain rfl := some.inj (hmaster.symm.trans hk')
          exact ⟨hsame, h.allowed⟩
        · rintro ⟨hsame, hallowed⟩
          exact ⟨⟨slaveKey, masterKey, hslave, hmaster, hsame⟩, hallowed⟩
      rw [hsimilar]
      split
      · rename_i hrange
        refine iff_of_false Bool.noConfusion fun h => ?_
        rcases hrange with hmin | hmax
        · exact hmin h.1.1
        · exact hmax h.1.2.1
      · rename_i hrange
        obtain ⟨hmin, hmax⟩ := not_or.1 hrange
        split
        · rename_i hsyms
          refine iff_of_false Bool.noConfusion fun h => ?_
          rw [h.1.2.2] at hsyms
          exact nomatch hsyms
        · rename_i hsyms
          rw [← checkModmapChange_success access errorValue]
          have hsame : sameSyms slaveKey masterKey modmap = true := by
            simpa using hsyms
          rw [and_iff_right ⟨not_not.1 hmin, not_not.1 hmax, hsame⟩]
          exact decide_eq_true_iff

/-! ### Devices with another map -/

section Maps

variable {devs devs' : ℕ → Device} {access : ℕ → Status} {dev d : ℕ}

@[simp] theorem withModmap_twice (d : Device) :
    (d.withModmap modmap).withModmap modmap = d.withModmap modmap := by
  unfold Device.withModmap
  cases d.key <;> rfl

/-- A device that accepts a map accepts it again. -/
theorem ChangeAllowed.again {access : Status} {d : Device} (h : ChangeAllowed access d modmap) :
    ChangeAllowed access (d.withModmap modmap) modmap := by
  obtain ⟨key, hkey, hallow⟩ := h.keys
  refine ⟨h.granted, { key with modmap := modmap }, ?_, hallow.range, hallow.newUp, fun i _ _ => hallow.newUp i⟩
  unfold Device.withModmap
  rw [hkey]
  rfl

theorem SlaveFollows.again {access : Status} {master slave : Device} (h : SlaveFollows access master slave modmap) :
    SlaveFollows access master (slave.withModmap modmap) modmap := by
  obtain ⟨k, k', hk, hk', hsame⟩ := h.similar
  refine ⟨⟨{ k with modmap := modmap }, k', ?_, hk', hsame⟩, h.allowed.again⟩
  unfold Device.withModmap
  rw [hk]
  rfl

/-- The modifier map of the master does not matter for what its slaves do. -/
theorem slaveFollows_master {access : Status} {master slave : Device} :
    SlaveFollows access (master.withModmap modmap) slave modmap ↔ SlaveFollows access master slave modmap := by
  constructor
  · intro h
    obtain ⟨k, k', hk, hk', hsame⟩ := h.similar
    obtain ⟨masterKey, hmaster, rfl⟩ := map_eq_some_iff.1 hk'
    exact ⟨⟨k, masterKey, hk, hmaster, hsame⟩, h.allowed⟩
  · intro h
    obtain ⟨k, k', hk, hk', hsame⟩ := h.similar
    refine ⟨⟨k, { k' with modmap := modmap }, hk, ?_, hsame⟩, h.allowed⟩
    unfold Device.withModmap
    rw [hk']
    rfl

/-- The devices in `P` have the map `modmap` now; nothing else is different. -/
def Gives (modmap : KeyCode → UInt8) (P : ℕ → Prop) (devs devs' : ℕ → Device) : Prop :=
  ∀ d, (P d → devs' d = (devs d).withModmap modmap) ∧ (¬P d → devs' d = devs d)

/-- Some of the devices have the map `modmap` now; nothing else is different. -/
def MapsOf (modmap : KeyCode → UInt8) (devs devs' : ℕ → Device) : Prop :=
  ∀ d, devs' d = devs d ∨ devs' d = (devs d).withModmap modmap

variable {P : ℕ → Prop}

theorem Gives.mapsOf (h : Gives modmap P devs devs') : MapsOf modmap devs devs' := by
  intro d
  by_cases hd : P d
  · exact .inr ((h d).1 hd)
  · exact .inl ((h d).2 hd)

theorem gives_one (modmap : KeyCode → UInt8) (devs : ℕ → Device) (m : ℕ) :
    Gives modmap (· = m) devs (update devs m ((devs m).withModmap modmap)) := by
  intro d
  refine ⟨?_, fun hd => update_of_ne hd _ _⟩
  rintro rfl
  exact update_self ..

theorem gives_none (modmap : KeyCode → UInt8) (devs : ℕ → Device) : Gives modmap (fun _ => False) devs devs :=
  fun _ => ⟨False.elim, fun _ => rfl⟩

/-- The map is given out in two goes. -/
theorem Gives.trans {Q : ℕ → Prop} {devs'' : ℕ → Device} (h : Gives modmap P devs devs')
    (h' : Gives modmap Q devs' devs'') : Gives modmap (fun d => P d ∨ Q d) devs devs'' := by
  intro d
  by_cases hq : Q d
  · refine ⟨fun _ => ?_, fun hno => absurd (.inr hq) hno⟩
    rw [(h' d).1 hq]
    rcases h.mapsOf d with hd | hd <;> rw [hd]
    exact withModmap_twice _
  · rw [(h' d).2 hq]
    exact ⟨fun hor => (h d).1 (hor.resolve_right hq), fun hno => (h d).2 fun hp => hno (.inl hp)⟩

theorem Gives.congr {Q : ℕ → Prop} (h : Gives modmap P devs devs') (hpq : ∀ d, P d ↔ Q d) :
    Gives modmap Q devs devs' :=
  fun d => ⟨fun hq => (h d).1 ((hpq d).2 hq), fun hq => (h d).2 fun hp => hq ((hpq d).1 hp)⟩

section

variable (h : MapsOf modmap devs devs')
include h

theorem MapsOf.isMaster (d : ℕ) : (devs' d).isMaster = (devs d).isMaster := by
  rcases h d with hd | hd <;> rw [hd]
  rfl

theorem MapsOf.getMaster (d : ℕ) : getMaster devs' d = getMaster devs d := by
  have htype : ∀ d, (devs' d).type = (devs d).type := fun d => by rcases h d with hd | hd <;> rw [hd]; rfl
  have hmaster : ∀ d, (devs' d).master = (devs d).master := fun d => by rcases h d with hd | hd <;> rw [hd]; rfl
  have hpaired : ∀ d, (devs' d).paired = (devs d).paired := fun d => by rcases h d with hd | hd <;> rw [hd]; rfl
  unfold ModifierMap.getMaster
  rw [h.isMaster, hmaster]
  split
  · rfl
  · rw [htype, hpaired]

theorem MapsOf.lastSlave (d : ℕ) : (devs' d).lastSlave = (devs d).lastSlave := by
  rcases h d with hd | hd <;> rw [hd]
  rfl

end

/-! ### The devices that follow -/

/-- A slave of the keyboard `dev` that follows it. -/
def SlaveOf (access : ℕ → Status) (devs : ℕ → Device) (dev : ℕ) (modmap : KeyCode → UInt8) (d : ℕ) : Prop :=
  (devs d).isMaster = false ∧ getMaster devs d = some dev ∧ SlaveFollows (access d) (devs dev) (devs d) modmap

/-- One turn of the loop over the slaves. -/
theorem changeSlave_devs (s : State) (tmp : ℕ) :
    Gives modmap (fun d => d = tmp ∧ SlaveOf access s.devs dev modmap d) s.devs
      (changeSlave access dev modmap s tmp).devs := by
  unfold changeSlave
  split
  · rename_i hslave
    have hnot : (s.devs tmp).isMaster = false := by simpa using hslave.1
    have hiff := checkModmapChangeSlave_iff (access tmp) s.errorValue (s.devs dev) (s.devs tmp) modmap
    dsimp only
    split
    · rename_i hfollows
      refine (gives_one modmap s.devs tmp).congr fun d => ⟨?_, And.left⟩
      rintro rfl
      exact ⟨rfl, hnot, hslave.2, hiff.1 hfollows⟩
    · rename_i hstays
      refine (gives_none modmap s.devs).congr fun d => ⟨False.elim, ?_⟩
      rintro ⟨rfl, h⟩
      exact hstays (hiff.2 h.2.2)
  · rename_i hother
    refine (gives_none modmap s.devs).congr fun d => ⟨False.elim, ?_⟩
    rintro ⟨rfl, h⟩
    exact hother ⟨by rw [h.1]; rfl, h.2.1⟩

/-- Whether a slave follows does not depend on the maps given out before. -/
theorem slaveOf_congr (access : ℕ → Status) (dev : ℕ) (h : MapsOf modmap devs devs') (hd : devs' d = devs d ∨ SlaveOf access devs dev modmap d) :
    SlaveOf access devs' dev modmap d ↔ SlaveOf access devs dev modmap d := by
  unfold SlaveOf
  rw [h.isMaster, h.getMaster]
  refine and_congr_right fun hnot => and_congr_right fun hget => ?_
  have hmaster : SlaveFollows (access d) (devs' dev) (devs' d) modmap ↔
      SlaveFollows (access d) (devs dev) (devs' d) modmap := by
    rcases h dev with hdev | hdev <;> rw [hdev]
    exact slaveFollows_master
  rw [hmaster]
  rcases hd with hd | hd
  · rw [hd]
  · rcases h d with hd' | hd' <;> rw [hd']
    exact iff_of_true hd.2.2.again hd.2.2

/-- **The loop over the slaves** gives the map to those that follow. -/
theorem changeSlaves_devs (slaves : List ℕ) (s : State) :
    Gives modmap (fun d => d ∈ slaves ∧ SlaveOf access s.devs dev modmap d) s.devs
      (slaves.foldl (changeSlave access dev modmap) s).devs := by
  induction slaves using reverseRecOn with
  | nil => exact (gives_none modmap s.devs).congr fun d => ⟨False.elim, fun h => absurd h.1 not_mem_nil⟩
  | append_singleton slaves tmp ih =>
    rw [foldl_append, foldl_cons]
    refine (ih.trans (changeSlave_devs _ tmp)).congr fun d => ?_
    -- what the turn finds out about the slave was so before the loop
    have hslave := slaveOf_congr access dev ih.mapsOf (show _ ∨ SlaveOf access s.devs dev modmap d by
      by_cases hd : SlaveOf access s.devs dev modmap d
      · exact .inr hd
      · exact .inl ((ih d).2 fun h => hd h.2))
    rw [hslave, mem_append, mem_singleton, or_and_right]

/-- The master of the device follows it. -/
def MasterOf (access : ℕ → Status) (devs : ℕ → Device) (dev : ℕ) (modmap : KeyCode → UInt8) (d : ℕ) : Prop :=
  (∃ m, getMaster devs dev = some m ∧ (devs m).lastSlave = some dev) ∧ (devs dev).master = some d ∧
    ChangeAllowed (access d) (devs d) modmap

theorem changeMaster_devs (s : State) :
    Gives modmap (MasterOf access s.devs dev modmap) s.devs (changeMaster access dev modmap s).devs := by
  have hcond : (!isFloating s.devs dev ∧ ((getMaster s.devs dev).bind fun m => (s.devs m).lastSlave) = some dev) ↔
      ∃ m, getMaster s.devs dev = some m ∧ (s.devs m).lastSlave = some dev := by
    unfold isFloating
    cases getMaster s.devs dev <;> simp
  unfold changeMaster
  by_cases hlast : ∃ m, getMaster s.devs dev = some m ∧ (s.devs m).lastSlave = some dev
  · rw [if_pos (hcond.2 hlast)]
    cases hmaster : (s.devs dev).master with
    | none =>
      refine (gives_none modmap s.devs).congr fun d => ⟨False.elim, fun h => ?_⟩
      exact nomatch hmaster.symm.trans h.2.1
    | some master =>
      have hiff := checkModmapChange_success (access master) s.errorValue (s.devs master) modmap
      dsimp only
      split
      · rename_i hsuccess
        refine (gives_one modmap s.devs master).congr fun d => ⟨?_, fun h => ?_⟩
        · rintro rfl
          exact ⟨hlast, hmaster, hiff.1 hsuccess⟩
        · exact some.inj (h.2.1.symm.trans hmaster)
      · rename_i hrefused
        refine (gives_none modmap s.devs).congr fun d => ⟨False.elim, fun h => hrefused ?_⟩
        obtain rfl := some.inj (hmaster.symm.trans h.2.1)
        exact hiff.2 h.2.2
  · rw [if_neg fun h => hlast (hcond.1 h)]
    exact (gives_none modmap s.devs).congr fun d => ⟨False.elim, fun h => hlast h.1⟩

/-- The devices that get the map: the one of the request, the slaves that follow a master, and
the master that follows a slave. -/
def Involved (access : ℕ → Status) (s : State) (dev : ℕ) (modmap : KeyCode → UInt8) (d : ℕ) : Prop :=
  d = dev ∨ (s.devs dev).isMaster = true ∧ d ∈ s.devices ∧ SlaveOf access s.devs dev modmap d ∨
    (s.devs dev).isMaster = false ∧ MasterOf access s.devs dev modmap d

/-- What `changeModmap` does after the check of the device, on the devices. -/
theorem involved_spec (access : ℕ → Status) (dev : ℕ) (modmap : KeyCode → UInt8) (s : State) (errorValue : ℕ) :
    let s' := doModmapChange dev modmap { s with errorValue := errorValue }
    Gives modmap (Involved access s dev modmap) s.devs
      (if (s'.devs dev).isMaster then s'.devices.foldl (changeSlave access dev modmap) s'
        else changeMaster access dev modmap s').devs := by
  intro s'
  have hone : Gives modmap (· = dev) s.devs s'.devs := gives_one modmap s.devs dev
  have hmaps := hone.mapsOf
  cases hmaster : (s.devs dev).isMaster with
  | true =>
    rw [if_pos (by rw [hmaps.isMaster, hmaster])]
    refine (hone.trans (changeSlaves_devs s'.devices s')).congr fun d => ?_
    unfold Involved
    simp only [hmaster, Bool.true_eq_false, false_and, or_false, true_and]
    refine or_congr_right' fun hd => and_congr_right fun _ => ?_
    exact slaveOf_congr access dev hmaps (.inl ((hone d).2 hd))
  | false =>
    have hfalse : (s'.devs dev).isMaster = false := by rw [hmaps.isMaster, hmaster]
    rw [if_neg (by rw [hfalse]; exact Bool.noConfusion)]
    refine (hone.trans (changeMaster_devs s')).congr fun d => ?_
    unfold Involved
    simp only [hmaster, Bool.false_eq_true, false_and, false_or, true_and]
    refine or_congr_right' fun hd => ?_
    unfold MasterOf
    rw [hmaps.getMaster, (hone d).2 hd, (hone dev).1 rfl]
    simp only [hmaps.lastSlave]
    rfl

/-! ### The request -/

/-- **A change of the modifier map** succeeds when the request describes a map and the device
accepts it, and then the devices involved have it. Otherwise no map is different. -/
theorem changeModmap_spec (access : ℕ → Status) (dev : ℕ) (modkeymap : ℕ → KeyCode) (max_keys_per_mod : ℕ) (s : State) :
    (∃ modmap, Requested modkeymap max_keys_per_mod modmap ∧ ChangeAllowed (access dev) (s.devs dev) modmap ∧
      (changeModmap access dev modkeymap max_keys_per_mod s).2 = Success ∧
      Gives modmap (Involved access s dev modmap) s.devs
        (changeModmap access dev modkeymap max_keys_per_mod s).1.devs) ∨
    (∀ modmap, Requested modkeymap max_keys_per_mod modmap → ¬ChangeAllowed (access dev) (s.devs dev) modmap) ∧
      (changeModmap access dev modkeymap max_keys_per_mod s).2 ≠ Success ∧
      (changeModmap access dev modkeymap max_keys_per_mod s).1.devs = s.devs := by
  unfold changeModmap
  cases hbuild : buildModmapFromModkeymap modkeymap max_keys_per_mod with
  | none =>
    refine .inr ⟨fun modmap hreq => ?_, (by decide : BadValue ≠ Success), rfl⟩
    exact nomatch hbuild.symm.trans (buildModmapFromModkeymap_iff.2 hreq)
  | some modmap =>
    have hreq := buildModmapFromModkeymap_iff.1 hbuild
    have hiff := checkModmapChange_success (access dev) s.errorValue (s.devs dev) modmap
    dsimp only
    split
    · rename_i hrefused
      refine .inr ⟨fun modmap' hreq' hallowed => hrefused ?_, hrefused, rfl⟩
      obtain rfl := some.inj (hbuild.symm.trans (buildModmapFromModkeymap_iff.2 hreq'))
      exact hiff.2 hallowed
    · rename_i hsuccess
      refine .inl ⟨modmap, hreq, hiff.1 (not_not.1 hsuccess), ?_, ?_⟩
      · split <;> rfl
      · have hspec := involved_spec access dev modmap s
          (checkModmapChange (access dev) s.errorValue (s.devs dev) modmap).2
        dsimp only at hspec
        split at hspec
        · rename_i hmaster
          rw [if_pos hmaster]
          exact hspec
        · rename_i hmaster
          rw [if_neg hmaster]
          exact hspec

/-- No key of the keyboard that has a modifier in its map or in the new one is down. -/
def ModifiersUp (d : Device) (modmap : KeyCode → UInt8) : Prop :=
  ∀ key, d.key = some key → ∀ k, key.min_key_code ≤ k → k ≤ key.max_key_code →
    key.modmap k ≠ 0 ∨ modmap k ≠ 0 → key.isDown k = false

/-- What is asked of a change of the modifier map: on success the modifiers of all devices
involved were up, these devices have the new map and no other device is different; on an
error no device is. -/
structure ChangedSafely (access : ℕ → Status) (s : State) (dev : ℕ) (modkeymap : ℕ → KeyCode)
    (max_keys_per_mod : ℕ) (r : State × Status) : Prop where
  success : r.2 = Success → ∃ modmap, Requested modkeymap max_keys_per_mod modmap ∧
    (∀ d, Involved access s dev modmap d → ModifiersUp (s.devs d) modmap) ∧
    Gives modmap (Involved access s dev modmap) s.devs r.1.devs
  error : r.2 ≠ Success → r.1.devs = s.devs

/-- The last key of the keyboard is down, and it is a modifier in the old map only. -/
def LastKeyHeld (d : Device) (modmap : KeyCode → UInt8) : Prop :=
  ∃ key, d.key = some key ∧ key.min_key_code ≤ key.max_key_code ∧ key.modmap key.max_key_code ≠ 0 ∧
    modmap key.max_key_code = 0 ∧ key.isDown key.max_key_code = true

/-- Among the modifiers of a device that accepts a map, only the last key can be down. -/
theorem ChangeAllowed.modifiersUp_iff {access : Status} {d : Device} (h : ChangeAllowed access d modmap) :
    ModifiersUp d modmap ↔ ¬LastKeyHeld d modmap := by
  obtain ⟨key, hkey, hallow⟩ := h.keys
  constructor
  · rintro hup ⟨key', hkey', hle, hold, -, hdown⟩
    have hlast := hup key' hkey' key'.max_key_code hle le_rfl (.inl hold)
    rw [hdown] at hlast
    exact nomatch hlast
  · intro hlast key' hkey' k hmin hmax hmod
    obtain rfl := some.inj (hkey.symm.trans hkey')
    by_cases hnew : modmap k = 0
    · have hold := hmod.resolve_right fun h => h hnew
      rcases hmax.lt_or_eq with hlt | rfl
      · exact hallow.oldUp k hmin hlt hold
      · exact Bool.eq_false_iff.2 fun hdown => hlast ⟨key, hkey, hmin, hold, hnew, hdown⟩
    · exact hallow.newUp k hnew

/-- A device that is involved accepts the map. -/
theorem Involved.allowed {s : State} (hdev : ChangeAllowed (access dev) (s.devs dev) modmap)
    (h : Involved access s dev modmap d) : ChangeAllowed (access d) (s.devs d) modmap := by
  rcases h with rfl | ⟨-, -, h⟩ | ⟨-, h⟩
  · exact hdev
  · exact h.2.2.allowed
  · exact h.2.2

/-- The request describes a map that the device accepts, and the last key of a keyboard that
gets it is held. -/
def LastKeySlips (access : ℕ → Status) (s : State) (dev : ℕ) (modkeymap : ℕ → KeyCode) (max_keys_per_mod : ℕ) :
    Prop :=
  ∃ modmap, Requested modkeymap max_keys_per_mod modmap ∧ ChangeAllowed (access dev) (s.devs dev) modmap ∧
    ∃ d, Involved access s dev modmap d ∧ LastKeyHeld (s.devs d) modmap

/-- The request describes one map. -/
theorem Requested.unique (h : Requested modkeymap max_keys_per_mod modmap)
    (h' : Requested modkeymap max_keys_per_mod m₀) : modmap = m₀ :=
  some.inj ((buildModmapFromModkeymap_iff.2 h).symm.trans (buildModmapFromModkeymap_iff.2 h'))

/-- **Modifier maps change safely**, from every state and for every request, exactly when no
keyboard that gets the map has its last key held as a modifier of the old map only. -/
theorem modmap_changed (access : ℕ → Status) (s : State) (dev : ℕ) (modkeymap : ℕ → KeyCode)
    (max_keys_per_mod : ℕ) :
    ChangedSafely access s dev modkeymap max_keys_per_mod (changeModmap access dev modkeymap max_keys_per_mod s) ↔
      ¬LastKeySlips access s dev modkeymap max_keys_per_mod := by
  rcases changeModmap_spec access dev modkeymap max_keys_per_mod s with ⟨modmap, hreq, hallowed, hok, hgives⟩ | ⟨hno, herror, hdevs⟩
  · constructor
    · rintro h ⟨modmap', hreq', -, d, hd, hlast⟩
      obtain ⟨modmap'', hreq'', hup, -⟩ := h.success hok
      obtain rfl := hreq'.unique hreq
      obtain rfl := hreq'.unique hreq''
      exact (hd.allowed hallowed).modifiersUp_iff.1 (hup d hd) hlast
    · intro h
      refine ⟨fun _ => ⟨modmap, hreq, fun d hd => ?_, hgives⟩, fun hne => absurd hok hne⟩
      exact (hd.allowed hallowed).modifiersUp_iff.2 fun hlast => h ⟨modmap, hreq, hallowed, d, hd, hlast⟩
  · refine iff_of_true ⟨fun hok => absurd hok herror, fun _ => hdevs⟩ ?_
    rintro ⟨modmap, hreq, hallowed, -⟩
    exact hno modmap hreq hallowed

end Maps

/-! ### The last key -/

/-- A keyboard of two keys, on its own, whose last key is down and has a modifier. -/
def heldKeyboard : KeyClass where
  min_key_code := 8
  max_key_code := 9
  modmap k := if k = 9 then 1 else 0
  syms _ := []
  down k := k = 9
  postdown _ := false

def heldState : State where
  devs _ := ⟨.SLAVE, some heldKeyboard, none, none, none⟩
  devices := [0]
  errorValue := 0

/-- **The last key is missed**: a request that lists no keys takes the modifier from the last
key while it is down. -/
theorem last_key_missed :
    ¬ChangedSafely (fun _ => Success) heldState 0 (fun _ => 0) 0
      (changeModmap (fun _ => Success) 0 (fun _ => 0) 0 heldState) := by
  intro h
  obtain ⟨modmap, -, hup, -⟩ := h.success (by decide +kernel)
  have hlast := hup 0 (.inl rfl) heldKeyboard rfl 9 (by decide) (by decide) (.inl (by decide))
  revert hlast
  decide

end Xenia.Dix.ModifierMap
