import Mathlib.Tactic

/-!
# The idle timer

`ScreenSaverTimeoutExpire` and `SetScreenSaverTimer`: one timer for the screen saver and the
three power levels of DPMS. When it expires the server acts on the thresholds that the idle
time has reached, and asks for the timer to run again when the next one is due. All times are
unsigned 32-bit milliseconds; the idle time is kept as a signed number, and every comparison
converts it back.

* `expire_level`: which power level is set, and `expire_saves` when the screens are saved.
* `expire_next`: the delay is the least distance to a threshold that is ahead (`Ahead`).
* `firstTimeout_spec`: the delay `SetScreenSaverTimer` starts with.

`idle_timer` puts them together. `power_saving_skips` is the case in which a threshold is left
out on purpose.
-/

namespace Xenia.Os.ScreenSaver

open List

/-! ### The settings -/

inductive PowerLevel
  | On
  | Standby
  | Suspend
  | Off
  deriving DecidableEq

/-- The number of a level, `DPMSModeOn` to `DPMSModeOff`. -/
def PowerLevel.mode : PowerLevel → ℕ
  | .On => 0
  | .Standby => 1
  | .Suspend => 2
  | .Off => 3

structure Settings where
  ScreenSaverTime : UInt32
  ScreenSaverInterval : UInt32
  DPMSEnabled : Bool
  DPMSStandbyTime : UInt32
  DPMSSuspendTime : UInt32
  DPMSOffTime : UInt32
  screenSaverSuspended : Bool

/-- What the server does when the timer expires. -/
inductive Action
  | dpmsSet (level : PowerLevel)
  /-- `dixSaveScreens` with `SCREEN_SAVER_ON` and `ScreenSaverActive` -/
  | saveScreens
  deriving DecidableEq

/-! ### The timer expires -/

/-- The macro `min`. -/
def minTime (a b : UInt32) : UInt32 := if a < b then a else b

/-- `DPMS_CHECK_MODE`. -/
def dpmsCheckMode (mode : PowerLevel) (time : UInt32) (timeout : Int32) (st : PowerLevel × List Action) :
    PowerLevel × List Action :=
  if 0 < time ∧ st.1.mode < mode.mode ∧ time ≤ timeout.toUInt32 then (mode, st.2 ++ [.dpmsSet mode]) else st

/-- `DPMS_CHECK_TIMEOUT`, with what comes after it. -/
def dpmsCheckTimeout (time : UInt32) (timeout : Int32) (next : UInt32) : UInt32 :=
  if 0 < time ∧ 0 < time - timeout.toUInt32 then time - timeout.toUInt32 else next

def nextDPMSTimeout (s : Settings) (level : PowerLevel) (timeout : Int32) : UInt32 :=
  match level with
  | .On => dpmsCheckTimeout s.DPMSStandbyTime timeout
      (dpmsCheckTimeout s.DPMSSuspendTime timeout (dpmsCheckTimeout s.DPMSOffTime timeout 0))
  | .Standby => dpmsCheckTimeout s.DPMSSuspendTime timeout (dpmsCheckTimeout s.DPMSOffTime timeout 0)
  | .Suspend => dpmsCheckTimeout s.DPMSOffTime timeout 0
  | .Off => 0

/-- What `ScreenSaverTimeoutExpire` leaves: the power level, what was done, and the delay. -/
structure Expiry where
  level : PowerLevel
  actions : List Action
  next : UInt32

def screenSaverTimeoutExpire (s : Settings) (DPMSPowerLevel : PowerLevel) (now lastEventTime : UInt32) : Expiry :=
  let timeout : Int32 := (now - lastEventTime).toInt32
  let (level, actions) :=
    if s.DPMSEnabled then
      dpmsCheckMode .Standby s.DPMSStandbyTime timeout (dpmsCheckMode .Suspend s.DPMSSuspendTime timeout
        (dpmsCheckMode .Off s.DPMSOffTime timeout (DPMSPowerLevel, [])))
    else (DPMSPowerLevel, [])
  let nextTimeout := if s.DPMSEnabled then nextDPMSTimeout s level timeout else 0
  if level ≠ .On then ⟨level, actions, nextTimeout⟩
  else if s.ScreenSaverTime = 0 then ⟨level, actions, nextTimeout⟩
  else if timeout.toUInt32 < s.ScreenSaverTime then
    ⟨level, actions,
      if 0 < nextTimeout then minTime (s.ScreenSaverTime - timeout.toUInt32) nextTimeout
      else s.ScreenSaverTime - timeout.toUInt32⟩
  else
    ⟨level, actions ++ [.saveScreens],
      if 0 < s.ScreenSaverInterval then
        if 0 < nextTimeout then minTime s.ScreenSaverInterval nextTimeout else s.ScreenSaverInterval
      else nextTimeout⟩

/-! ### Setting the timer -/

/-- The pointer `ScreenSaverTimer`, and whether the timer is in the list. -/
inductive TimerState
  | null
  | stopped
  | pending (delta : UInt32)
  deriving DecidableEq

structure IdleState where
  level : PowerLevel
  actions : List Action
  timer : TimerState
  deriving DecidableEq

/-- `TimerSet` of this timer, `millis` from now; `memory` is the answer of the allocator. A timer
that is due at once runs before `TimerSet` returns, and may set itself again; `fuel` bounds how
often. -/
def timerSet (s : Settings) (memory : Bool) (now lastEventTime : UInt32) : ℕ → UInt32 → IdleState → Option IdleState
  | fuel, millis, st =>
    if st.timer = .null ∧ !memory then some st
    else if millis = 0 then some { st with timer := .stopped }
    else if 0 < millis.toInt32 then some { st with timer := .pending millis }
    else
      match fuel with
      | 0 => none
      | fuel + 1 =>
        let r := screenSaverTimeoutExpire s st.level now lastEventTime
        let st := ⟨r.level, st.actions ++ r.actions, .stopped⟩
        if r.next ≠ 0 then timerSet s memory now lastEventTime fuel r.next st else some st

/-- The delay of `SetScreenSaverTimer`. -/
def Settings.firstTimeout (s : Settings) : UInt32 :=
  let timeout :=
    if s.DPMSEnabled then
      if 0 < s.DPMSStandbyTime then s.DPMSStandbyTime
      else if 0 < s.DPMSSuspendTime then s.DPMSSuspendTime
      else if 0 < s.DPMSOffTime then s.DPMSOffTime
      else 0
    else 0
  if 0 < s.ScreenSaverTime then
    if 0 < timeout then minTime s.ScreenSaverTime timeout else s.ScreenSaverTime
  else timeout

def setScreenSaverTimer (s : Settings) (memory : Bool) (fuel : ℕ) (now lastEventTime : UInt32) (st : IdleState) :
    Option IdleState :=
  let timeout := s.firstTimeout
  if timeout ≠ 0 ∧ !s.screenSaverSuspended then
    if timeout ≠ 0 then timerSet s memory now lastEventTime fuel timeout st
    -- `FreeScreenSaverTimer` stands in the branch that is not reached
    else if st.timer ≠ .null then some { st with timer := .null }
    else some st
  else some st

/-! ### Thresholds -/

/-- The time after which a power level is due. -/
def Settings.time (s : Settings) : PowerLevel → ℕ
  | .On => 0
  | .Standby => s.DPMSStandbyTime.toNat
  | .Suspend => s.DPMSSuspendTime.toNat
  | .Off => s.DPMSOffTime.toNat

/-- A power level with a threshold. -/
def Settings.Enabled (s : Settings) (m : PowerLevel) : Prop := s.DPMSEnabled = true ∧ 0 < s.time m

/-- The thresholds of the power levels that have one do not decrease. -/
def Settings.Ordered (s : Settings) : Prop :=
  ∀ m m' : PowerLevel, m.mode ≤ m'.mode → 0 < s.time m → 0 < s.time m' → s.time m ≤ s.time m'

/-- The distances from the idle time to what is to be done next: the thresholds of the power
levels above the present one and, while the level is `On`, the threshold of the screen saver or,
once it has been reached, the end of the interval. -/
inductive Ahead (s : Settings) (level : PowerLevel) (idle : ℕ) : ℕ → Prop
  | dpms (m : PowerLevel) : s.Enabled m → level.mode < m.mode → idle < s.time m → Ahead s level idle (s.time m - idle)
  | saver : level = .On → idle < s.ScreenSaverTime.toNat → Ahead s level idle (s.ScreenSaverTime.toNat - idle)
  | cycle : level = .On → 0 < s.ScreenSaverTime.toNat → s.ScreenSaverTime.toNat ≤ idle →
      0 < s.ScreenSaverInterval.toNat → Ahead s level idle s.ScreenSaverInterval.toNat

/-- The least of the positive numbers in `P`, and 0 when there are none. -/
def Soonest (P : ℕ → Prop) (d : ℕ) : Prop := (0 < d ∧ P d ∧ ∀ d', P d' → d ≤ d') ∨ d = 0 ∧ ∀ d', ¬P d'

/-- A timeout that is set. -/
def Settings.IsTimeout (s : Settings) (d : ℕ) : Prop :=
  0 < d ∧ (d = s.ScreenSaverTime.toNat ∨ ∃ m, s.Enabled m ∧ d = s.time m)

/-! ### The power level -/

section Level

variable {s : Settings} {level : PowerLevel} {now lastEventTime : UInt32} {st : PowerLevel × List Action}
  {m : PowerLevel} {time : UInt32} {timeout : Int32}

/-- One check: the level rises to `m` when its threshold has been reached, and only then. -/
theorem dpmsCheckMode_level (m : PowerLevel) (time : UInt32) (timeout : Int32) (st : PowerLevel × List Action) :
    (0 < time.toNat → time.toNat ≤ timeout.toUInt32.toNat → m.mode ≤ (dpmsCheckMode m time timeout st).1.mode) ∧
      ((dpmsCheckMode m time timeout st).1 = st.1 ∨ (dpmsCheckMode m time timeout st).1 = m ∧ st.1.mode < m.mode ∧
        0 < time.toNat ∧ time.toNat ≤ timeout.toUInt32.toNat) := by
  have hpos : 0 < time ↔ 0 < time.toNat := UInt32.lt_iff_toNat_lt
  have hle : time ≤ timeout.toUInt32 ↔ time.toNat ≤ timeout.toUInt32.toNat := UInt32.le_iff_toNat_le
  unfold dpmsCheckMode
  split
  · rename_i h
    exact ⟨fun _ _ => le_rfl, .inr ⟨rfl, h.2.1, hpos.1 h.1, hle.1 h.2.2⟩⟩
  · rename_i h
    refine ⟨fun h0 hreached => ?_, .inl rfl⟩
    by_contra hlt
    exact h ⟨hpos.2 h0, by omega, hle.2 hreached⟩

/-- The checks of all levels, from the highest down. -/
def dpmsChecks (s : Settings) (timeout : Int32) (level : PowerLevel) : PowerLevel × List Action :=
  dpmsCheckMode .Standby s.DPMSStandbyTime timeout (dpmsCheckMode .Suspend s.DPMSSuspendTime timeout
    (dpmsCheckMode .Off s.DPMSOffTime timeout (level, [])))

/-- A threshold has been reached. -/
def Settings.Reached (s : Settings) (m : PowerLevel) (idle : ℕ) : Prop := s.Enabled m ∧ s.time m ≤ idle

/-- The level is the old one, or a higher one whose threshold has been reached, and no threshold
above it has been. -/
structure LevelOf (s : Settings) (level : PowerLevel) (idle : ℕ) (level' : PowerLevel) : Prop where
  reached : ∀ m, s.Reached m idle → m.mode ≤ level'.mode
  kept : level' = level ∨ s.Reached level' idle ∧ level.mode < level'.mode

theorem dpmsChecks_level (hon : s.DPMSEnabled = true) (timeout : Int32) (level : PowerLevel) :
    LevelOf s level timeout.toUInt32.toNat (dpmsChecks s timeout level).1 := by
  obtain ⟨h3, h3'⟩ := dpmsCheckMode_level .Off s.DPMSOffTime timeout (level, [])
  obtain ⟨st3, hst3⟩ : ∃ st3, st3 = dpmsCheckMode .Off s.DPMSOffTime timeout (level, []) := ⟨_, rfl⟩
  obtain ⟨h2, h2'⟩ := dpmsCheckMode_level .Suspend s.DPMSSuspendTime timeout st3
  obtain ⟨st2, hst2⟩ : ∃ st2, st2 = dpmsCheckMode .Suspend s.DPMSSuspendTime timeout st3 := ⟨_, rfl⟩
  obtain ⟨h1, h1'⟩ := dpmsCheckMode_level .Standby s.DPMSStandbyTime timeout st2
  unfold dpmsChecks
  rw [← hst3] at h3 h3' ⊢
  rw [← hst2] at h2 h2' ⊢
  obtain ⟨l, hl⟩ : ∃ l, l = (dpmsCheckMode .Standby s.DPMSStandbyTime timeout st2).1 := ⟨_, rfl⟩
  rw [← hl] at h1 h1' ⊢
  -- the checks never take the level down
  have hup : st2.1.mode ≤ l.mode ∧ st3.1.mode ≤ st2.1.mode := by
    constructor
    · rcases h1' with h | ⟨h, hlt, -⟩ <;> rw [h]
      exact hlt.le
    · rcases h2' with h | ⟨h, hlt, -⟩ <;> rw [h]
      exact hlt.le
  refine ⟨fun m hm => ?_, ?_⟩
  · obtain ⟨⟨-, hpos⟩, hle⟩ := hm
    cases m with
    | On => exact Nat.zero_le _
    | Standby => exact h1 hpos hle
    | Suspend => exact (h2 hpos hle).trans hup.1
    | Off => exact (h3 hpos hle).trans (hup.2.trans hup.1)
  · have hdown : level.mode ≤ st3.1.mode := by
      rcases h3' with h | ⟨h, hlt, -⟩ <;> rw [h]
      exact hlt.le
    rcases h1' with h | ⟨h, hlt, hpos, hle⟩
    · rcases h2' with h' | ⟨h', hlt, hpos, hle⟩
      · rcases h3' with h'' | ⟨h'', hlt, hpos, hle⟩
        · exact .inl (by rw [h, h', h''])
        · rw [h, h', h'']
          exact .inr ⟨⟨⟨hon, hpos⟩, hle⟩, hlt⟩
      · rw [h, h']
        exact .inr ⟨⟨⟨hon, hpos⟩, hle⟩, hdown.trans_lt hlt⟩
    · rw [h]
      exact .inr ⟨⟨⟨hon, hpos⟩, hle⟩, (hdown.trans hup.2).trans_lt hlt⟩

end Level

/-! ### The delay -/

section Delay

variable {s : Settings} {level : PowerLevel} {timeout : Int32} {time next : UInt32} {P Q : ℕ → Prop} {d e : ℕ}

/-- What is soonest of two kinds of things. -/
theorem Soonest.or (hp : Soonest P d) (hq : Soonest Q e) :
    Soonest (fun x => P x ∨ Q x) (if 0 < d then if 0 < e then min d e else d else e) := by
  rcases hp with ⟨hd, hpd, hpmin⟩ | ⟨rfl, hpno⟩
  · rw [if_pos hd]
    rcases hq with ⟨he, hqe, hqmin⟩ | ⟨rfl, hqno⟩
    · rw [if_pos he]
      refine .inl ⟨lt_min hd he, ?_, fun x hx => ?_⟩
      · rcases min_choice d e with h | h <;> rw [h]
        · exact .inl hpd
        · exact .inr hqe
      · rcases hx with hx | hx
        · exact (min_le_left _ _).trans (hpmin x hx)
        · exact (min_le_right _ _).trans (hqmin x hx)
    · rw [if_neg (lt_irrefl 0)]
      exact .inl ⟨hd, .inl hpd, fun x hx => hpmin x (hx.resolve_right (hqno x))⟩
  · rw [if_neg (lt_irrefl 0)]
    rcases hq with ⟨he, hqe, hqmin⟩ | ⟨rfl, hqno⟩
    · exact .inl ⟨he, .inr hqe, fun x hx => hqmin x (hx.resolve_left (hpno x))⟩
    · exact .inr ⟨rfl, fun x hx => hx.elim (hpno x) (hqno x)⟩

theorem Soonest.congr (h : Soonest P d) (hpq : ∀ x, P x ↔ Q x) : Soonest Q d := by
  rcases h with ⟨hd, hp, hmin⟩ | ⟨rfl, hno⟩
  · exact .inl ⟨hd, (hpq d).1 hp, fun x hx => hmin x ((hpq x).2 hx)⟩
  · exact .inr ⟨rfl, fun x hx => hno x ((hpq x).2 hx)⟩

theorem soonest_none (h : ∀ x, ¬P x) : Soonest P 0 := .inr ⟨rfl, h⟩

theorem soonest_one (hd : 0 < d) : Soonest (· = d) d := .inl ⟨hd, rfl, fun _ h => h.ge⟩

theorem minTime_toNat (a b : UInt32) : (minTime a b).toNat = min a.toNat b.toNat := by
  unfold minTime
  split
  · rename_i h
    exact (min_eq_left (UInt32.lt_iff_toNat_lt.1 h).le).symm
  · rename_i h
    exact (min_eq_right (not_lt.1 fun hlt => h (UInt32.lt_iff_toNat_lt.2 hlt))).symm

/-- One check of a threshold that has not been reached, before those that are no nearer. -/
theorem dpmsCheckTimeout_soonest (hahead : 0 < time.toNat → timeout.toUInt32.toNat < time.toNat)
    (hq : Soonest Q next.toNat) (hmin : 0 < time.toNat → ∀ d, Q d → time.toNat - timeout.toUInt32.toNat ≤ d) :
    Soonest (fun d => 0 < time.toNat ∧ d = time.toNat - timeout.toUInt32.toNat ∨ Q d)
      (dpmsCheckTimeout time timeout next).toNat := by
  have hiff : 0 < time ↔ 0 < time.toNat := UInt32.lt_iff_toNat_lt
  unfold dpmsCheckTimeout
  by_cases hpos : 0 < time.toNat
  · have hlt := hahead hpos
    have hsub : (time - timeout.toUInt32).toNat = time.toNat - timeout.toUInt32.toNat :=
      UInt32.toNat_sub_of_le _ _ (UInt32.le_iff_toNat_le.2 hlt.le)
    have hdist : 0 < time - timeout.toUInt32 := by
      rw [UInt32.lt_iff_toNat_lt, hsub]
      exact Nat.sub_pos_of_lt hlt
    rw [if_pos ⟨hiff.2 hpos, hdist⟩, hsub]
    refine .inl ⟨Nat.sub_pos_of_lt hlt, .inl ⟨hpos, rfl⟩, fun d hd => ?_⟩
    rcases hd with ⟨-, rfl⟩ | hd
    · exact le_rfl
    · exact hmin hpos d hd
  · rw [if_neg fun h => hpos (hiff.1 h.1)]
    exact hq.congr fun d => (or_iff_right fun h => hpos h.1).symm

/-- The distances to the thresholds of DPMS. -/
def DpmsAhead (s : Settings) (level : PowerLevel) (idle d : ℕ) : Prop :=
  ∃ m, s.Enabled m ∧ level.mode < m.mode ∧ idle < s.time m ∧ d = s.time m - idle

/-- **The delay to the next power level** is the least distance to the threshold of a higher
level, when none of these has been reached. -/
theorem nextDPMSTimeout_soonest (hon : s.DPMSEnabled = true) (hs : s.Ordered)
    (hahead : ∀ m, s.Enabled m → level.mode < m.mode → timeout.toUInt32.toNat < s.time m) :
    Soonest (DpmsAhead s level timeout.toUInt32.toNat) (nextDPMSTimeout s level timeout).toNat := by
  obtain ⟨idle, hidle⟩ : ∃ idle, idle = timeout.toUInt32.toNat := ⟨_, rfl⟩
  have hone : ∀ m, level.mode < m.mode → ∀ d, (0 < s.time m ∧ d = s.time m - idle) ↔
      (s.Enabled m ∧ level.mode < m.mode ∧ idle < s.time m ∧ d = s.time m - idle) := by
    intro m hm d
    constructor
    · rintro ⟨hpos, hd⟩
      exact ⟨⟨hon, hpos⟩, hm, hidle ▸ hahead m ⟨hon, hpos⟩ hm, hd⟩
    · rintro ⟨⟨-, hpos⟩, -, -, hd⟩
      exact ⟨hpos, hd⟩
  have hle : ∀ m m', m.mode ≤ m'.mode → 0 < s.time m → 0 < s.time m' → s.time m - idle ≤ s.time m' - idle :=
    fun m m' hmm hpos hpos' => Nat.sub_le_sub_right (hs m m' hmm hpos hpos') idle
  -- the thresholds of the highest levels first
  have h3 : level.mode < PowerLevel.Off.mode →
      Soonest (fun d => 0 < s.time .Off ∧ d = s.time .Off - idle ∨ False)
        (dpmsCheckTimeout s.DPMSOffTime timeout 0).toNat := by
    intro hlt
    subst hidle
    exact dpmsCheckTimeout_soonest (fun hpos => hahead .Off ⟨hon, hpos⟩ hlt) (soonest_none fun _ h => h)
      fun _ _ h => h.elim
  have h2 : level.mode < PowerLevel.Suspend.mode →
      Soonest (fun d => 0 < s.time .Suspend ∧ d = s.time .Suspend - idle ∨
          0 < s.time .Off ∧ d = s.time .Off - idle ∨ False)
        (dpmsCheckTimeout s.DPMSSuspendTime timeout (dpmsCheckTimeout s.DPMSOffTime timeout 0)).toNat := by
    intro hlt
    have hrest := h3 (hlt.trans (by decide))
    have hnear := hle .Suspend .Off (by decide)
    subst hidle
    refine dpmsCheckTimeout_soonest (fun hpos => hahead .Suspend ⟨hon, hpos⟩ hlt) hrest ?_
    rintro hpos d (⟨hpos', rfl⟩ | h)
    · exact hnear hpos hpos'
    · exact h.elim
  cases level with
  | On =>
    have hnear := hle .Standby .Suspend (by decide)
    have hnear' := hle .Standby .Off (by decide)
    have hrest := h2 (by decide)
    have h1 : Soonest (fun d => 0 < s.time .Standby ∧ d = s.time .Standby - idle ∨
          0 < s.time .Suspend ∧ d = s.time .Suspend - idle ∨ 0 < s.time .Off ∧ d = s.time .Off - idle ∨ False)
        (dpmsCheckTimeout s.DPMSStandbyTime timeout
          (dpmsCheckTimeout s.DPMSSuspendTime timeout (dpmsCheckTimeout s.DPMSOffTime timeout 0))).toNat := by
      subst hidle
      refine dpmsCheckTimeout_soonest (fun hpos => hahead .Standby ⟨hon, hpos⟩ (by decide)) hrest ?_
      rintro hpos d (⟨hpos', rfl⟩ | ⟨hpos', rfl⟩ | h)
      · exact hnear hpos hpos'
      · exact hnear' hpos hpos'
      · exact h.elim
    rw [← hidle]
    refine h1.congr fun d => ?_
    rw [hone .Standby (by decide), hone .Suspend (by decide), hone .Off (by decide)]
    constructor
    · rintro (h | h | h | h)
      exacts [⟨_, h⟩, ⟨_, h⟩, ⟨_, h⟩, h.elim]
    · rintro ⟨m, h⟩
      cases m with
      | On => exact absurd h.2.1 (lt_irrefl _)
      | Standby => exact .inl h
      | Suspend => exact .inr (.inl h)
      | Off => exact .inr (.inr (.inl h))
  | Standby =>
    rw [← hidle]
    refine (h2 (by decide)).congr fun d => ?_
    rw [hone .Suspend (by decide), hone .Off (by decide)]
    constructor
    · rintro (h | h | h)
      exacts [⟨_, h⟩, ⟨_, h⟩, h.elim]
    · rintro ⟨m, h⟩
      cases m with
      | On => exact absurd h.2.1 (by decide)
      | Standby => exact absurd h.2.1 (lt_irrefl _)
      | Suspend => exact .inl h
      | Off => exact .inr (.inl h)
  | Suspend =>
    rw [← hidle]
    refine (h3 (by decide)).congr fun d => ?_
    rw [hone .Off (by decide), or_false]
    constructor
    · exact fun h => ⟨_, h⟩
    · rintro ⟨m, h⟩
      cases m with
      | Off => exact h
      | On => exact absurd h.2.1 (by decide)
      | Standby => exact absurd h.2.1 (by decide)
      | Suspend => exact absurd h.2.1 (by decide)
  | Off =>
    refine soonest_none ?_
    rintro d ⟨m, -, h, -⟩
    cases m <;> exact absurd h (by decide)

/-- A delay of the screen saver beside one of DPMS. -/
theorem minTime_soonest {own : UInt32} (hown : 0 < own.toNat) (hp : Soonest P next.toNat) :
    Soonest (fun d => d = own.toNat ∨ P d) (if 0 < next then minTime own next else own).toNat := by
  have hor := (soonest_one hown).or hp
  rw [if_pos hown] at hor
  have hiff : 0 < next ↔ 0 < next.toNat := UInt32.lt_iff_toNat_lt
  by_cases hnext : 0 < next
  · rw [if_pos (hiff.1 hnext)] at hor
    rw [if_pos hnext, minTime_toNat]
    exact hor
  · rw [if_neg fun h => hnext (hiff.2 h)] at hor
    rw [if_neg hnext]
    exact hor

end Delay

/-! ### The timer expires -/

section Expire

variable {s : Settings} {level : PowerLevel} {now lastEventTime : UInt32}

/-- The level and the actions after the checks of DPMS. -/
def checked (s : Settings) (level : PowerLevel) (timeout : Int32) : PowerLevel × List Action :=
  if s.DPMSEnabled then dpmsChecks s timeout level else (level, [])

/-- The delay to the next power level, if DPMS is enabled. -/
def nextLevel (s : Settings) (level : PowerLevel) (timeout : Int32) : UInt32 :=
  if s.DPMSEnabled then nextDPMSTimeout s level timeout else 0

theorem checked_level (s : Settings) (level : PowerLevel) (timeout : Int32) :
    LevelOf s level timeout.toUInt32.toNat (checked s level timeout).1 := by
  unfold checked
  split
  · rename_i hon
    exact dpmsChecks_level hon timeout level
  · rename_i hoff
    exact ⟨fun m hm => absurd hm.1.1 hoff, .inl rfl⟩

theorem nextLevel_soonest (hs : s.Ordered) (level : PowerLevel) (timeout : Int32) :
    Soonest (DpmsAhead s (checked s level timeout).1 timeout.toUInt32.toNat)
      (nextLevel s (checked s level timeout).1 timeout).toNat := by
  have hlevel := checked_level s level timeout
  unfold nextLevel
  split
  · rename_i hon
    refine nextDPMSTimeout_soonest hon hs fun m hm hlt => ?_
    by_contra hge
    exact absurd (hlevel.reached m ⟨hm, not_lt.1 hge⟩) (not_le.2 hlt)
  · rename_i hoff
    refine soonest_none ?_
    rintro d ⟨m, hm, -⟩
    exact hoff hm.1

theorem expire_eq (s : Settings) (level : PowerLevel) (now lastEventTime : UInt32) :
    screenSaverTimeoutExpire s level now lastEventTime =
      let timeout : Int32 := (now - lastEventTime).toInt32
      let c := checked s level timeout
      let nextTimeout := nextLevel s c.1 timeout
      if c.1 ≠ .On then ⟨c.1, c.2, nextTimeout⟩
      else if s.ScreenSaverTime = 0 then ⟨c.1, c.2, nextTimeout⟩
      else if timeout.toUInt32 < s.ScreenSaverTime then
        ⟨c.1, c.2, if 0 < nextTimeout then minTime (s.ScreenSaverTime - timeout.toUInt32) nextTimeout
          else s.ScreenSaverTime - timeout.toUInt32⟩
      else
        ⟨c.1, c.2 ++ [.saveScreens], if 0 < s.ScreenSaverInterval then
            if 0 < nextTimeout then minTime s.ScreenSaverInterval nextTimeout else s.ScreenSaverInterval
          else nextTimeout⟩ := rfl

/-- **The power level**: the highest one whose threshold the idle time has reached, unless the
old one is higher. -/
theorem expire_level (s : Settings) (level : PowerLevel) (now lastEventTime : UInt32) :
    LevelOf s level (now - lastEventTime).toNat (screenSaverTimeoutExpire s level now lastEventTime).level := by
  have hlevel := checked_level s level (now - lastEventTime).toInt32
  rw [expire_eq]
  dsimp only
  split
  · exact hlevel
  · split
    · exact hlevel
    · split
      · exact hlevel
      · exact hlevel

/-- The checks of DPMS do not save the screens. -/
theorem checked_saves (s : Settings) (level : PowerLevel) (timeout : Int32) :
    .saveScreens ∉ (checked s level timeout).2 := by
  have hmode : ∀ m time (st : PowerLevel × List Action), .saveScreens ∉ st.2 →
      .saveScreens ∉ (dpmsCheckMode m time timeout st).2 := by
    intro m time st hst
    unfold dpmsCheckMode
    split
    · rw [mem_append]
      exact not_or.2 ⟨hst, nofun⟩
    · exact hst
  unfold checked
  split
  · exact hmode _ _ _ (hmode _ _ _ (hmode _ _ _ not_mem_nil))
  · exact not_mem_nil

/-- **The screens are saved** when the threshold of the screen saver has been reached and the
level is `On`. -/
theorem expire_saves (s : Settings) (level : PowerLevel) (now lastEventTime : UInt32) :
    .saveScreens ∈ (screenSaverTimeoutExpire s level now lastEventTime).actions ↔
      (screenSaverTimeoutExpire s level now lastEventTime).level = .On ∧ 0 < s.ScreenSaverTime.toNat ∧
        s.ScreenSaverTime.toNat ≤ (now - lastEventTime).toNat := by
  have hno := checked_saves s level (now - lastEventTime).toInt32
  rw [expire_eq]
  dsimp only
  split
  · rename_i hlevel
    exact iff_of_false hno fun h => hlevel h.1
  · rename_i hlevel
    split
    · rename_i hzero
      refine iff_of_false hno fun h => ?_
      rw [hzero] at h
      exact absurd h.2.1 (lt_irrefl 0)
    · rename_i hpos
      split
      · rename_i hlt
        exact iff_of_false hno fun h => absurd (UInt32.lt_iff_toNat_lt.1 hlt) (not_lt.2 h.2.2)
      · rename_i hge
        refine iff_of_true (mem_append_right _ (mem_singleton_self _)) ⟨not_not.1 hlevel, ?_, ?_⟩
        · exact pos_of_ne_zero fun h => hpos (UInt32.toNat_inj.1 h)
        · exact not_lt.1 fun hlt => hge (UInt32.lt_iff_toNat_lt.2 hlt)

/-- **The delay** is the least distance to what is ahead. -/
theorem expire_next (hs : s.Ordered) (level : PowerLevel) (now lastEventTime : UInt32) :
    Soonest (Ahead s (screenSaverTimeoutExpire s level now lastEventTime).level (now - lastEventTime).toNat)
      (screenSaverTimeoutExpire s level now lastEventTime).next.toNat := by
  have hdpms := nextLevel_soonest hs level (now - lastEventTime).toInt32
  obtain ⟨idle, hidle⟩ : ∃ idle, idle = now - lastEventTime := ⟨_, rfl⟩
  rw [expire_eq]
  dsimp only
  rw [UInt32.toUInt32_toInt32]
  rw [← hidle] at hdpms ⊢
  obtain ⟨l, hl⟩ : ∃ l, l = (checked s level idle.toInt32).1 := ⟨_, rfl⟩
  rw [← hl] at hdpms ⊢
  have hzero : s.ScreenSaverTime = 0 ↔ s.ScreenSaverTime.toNat = 0 := UInt32.toNat_inj.symm
  -- without the screen saver only DPMS is ahead
  have honly : (l = .On → ¬idle.toNat < s.ScreenSaverTime.toNat) →
      (l = .On → 0 < s.ScreenSaverTime.toNat → s.ScreenSaverTime.toNat ≤ idle.toNat →
        ¬0 < s.ScreenSaverInterval.toNat) →
      ∀ d, DpmsAhead s l idle.toNat d ↔ Ahead s l idle.toNat d := by
    intro hsaver hcycle d
    constructor
    · rintro ⟨m, hm, hlt, hidle, rfl⟩
      exact .dpms m hm hlt hidle
    · intro h
      cases h with
      | dpms m hm hlt hidle => exact ⟨m, hm, hlt, hidle, rfl⟩
      | saver hon hlt => exact absurd hlt (hsaver hon)
      | cycle hon hpos hle hint => exact absurd hint (hcycle hon hpos hle)
  split
  · rename_i hlevel
    exact hdpms.congr (honly (fun h => absurd h hlevel) fun h => absurd h hlevel)
  · rename_i hlevel
    have hon : l = .On := not_not.1 hlevel
    split
    · rename_i hno
      have h0 := hzero.1 hno
      exact hdpms.congr (honly (fun _ => by omega) fun _ => by omega)
    · rename_i hpos
      have hpos : s.ScreenSaverTime.toNat ≠ 0 := fun h => hpos (hzero.2 h)
      split
      · rename_i hlt
        have hlt := UInt32.lt_iff_toNat_lt.1 hlt
        have hsub : (s.ScreenSaverTime - idle).toNat = s.ScreenSaverTime.toNat - idle.toNat :=
          UInt32.toNat_sub_of_le _ _ (UInt32.le_iff_toNat_le.2 hlt.le)
        refine (minTime_soonest (by omega) hdpms).congr fun d => ?_
        rw [hsub]
        constructor
        · rintro (rfl | ⟨m, hm, hml, hidle, rfl⟩)
          · exact .saver hon hlt
          · exact .dpms m hm hml hidle
        · intro h
          cases h with
          | dpms m hm hml hidle => exact .inr ⟨m, hm, hml, hidle, rfl⟩
          | saver => exact .inl rfl
          | cycle _ _ hle _ => exact absurd hle (by omega)
      · rename_i hge
        have hge : s.ScreenSaverTime.toNat ≤ idle.toNat := not_lt.1 fun h => hge (UInt32.lt_iff_toNat_lt.2 h)
        split
        · rename_i hint
          refine (minTime_soonest (UInt32.lt_iff_toNat_lt.1 hint) hdpms).congr fun d => ?_
          constructor
          · rintro (rfl | ⟨m, hm, hml, hidle, rfl⟩)
            · exact .cycle hon (by omega) hge (UInt32.lt_iff_toNat_lt.1 hint)
            · exact .dpms m hm hml hidle
          · intro h
            cases h with
            | dpms m hm hml hidle => exact .inr ⟨m, hm, hml, hidle, rfl⟩
            | saver _ hlt => exact absurd hlt (by omega)
            | cycle => exact .inl rfl
        · rename_i hint
          exact hdpms.congr (honly (fun _ => by omega) fun _ _ _ h => hint (UInt32.lt_iff_toNat_lt.2 h))

end Expire

/-! ### Setting the timer -/

section SetTimer

variable {s : Settings} {now lastEventTime : UInt32} {st : IdleState} {memory : Bool} {fuel : ℕ}

/-- The timeouts of DPMS. -/
def Settings.IsLevelTimeout (s : Settings) (d : ℕ) : Prop := 0 < d ∧ ∃ m, s.Enabled m ∧ d = s.time m

/-- The first timeout of DPMS that is set. -/
def Settings.firstLevelTimeout (s : Settings) : UInt32 :=
  if s.DPMSEnabled then
    if 0 < s.DPMSStandbyTime then s.DPMSStandbyTime
    else if 0 < s.DPMSSuspendTime then s.DPMSSuspendTime
    else if 0 < s.DPMSOffTime then s.DPMSOffTime
    else 0
  else 0

theorem firstLevelTimeout_soonest (hs : s.Ordered) : Soonest s.IsLevelTimeout s.firstLevelTimeout.toNat := by
  have hiff : ∀ t : UInt32, 0 < t ↔ 0 < t.toNat := fun t => UInt32.lt_iff_toNat_lt
  -- the first level that has a threshold has the least one
  have hfirst : s.DPMSEnabled = true → ∀ m, 0 < s.time m → (∀ m', m'.mode < m.mode → s.time m' = 0) →
      Soonest s.IsLevelTimeout (s.time m) := by
    intro hon m hpos hlow
    refine .inl ⟨hpos, ⟨hpos, m, ⟨hon, hpos⟩, rfl⟩, ?_⟩
    rintro d ⟨hd, m', -, rfl⟩
    refine hs m m' ?_ hpos hd
    by_contra hlt
    rw [hlow m' (not_le.1 hlt)] at hd
    exact lt_irrefl 0 hd
  unfold Settings.firstLevelTimeout
  split
  · rename_i hon
    have hzero : ∀ t : UInt32, ¬0 < t → t.toNat = 0 := fun t h => Nat.eq_zero_of_not_pos fun hpos => h ((hiff t).2 hpos)
    split
    · rename_i hpos
      refine hfirst hon .Standby ((hiff _).1 hpos) fun m' hm' => ?_
      cases m' with
      | On => rfl
      | Standby => exact absurd hm' (lt_irrefl _)
      | Suspend => exact absurd hm' (by decide)
      | Off => exact absurd hm' (by decide)
    · rename_i hstandby
      split
      · rename_i hpos
        refine hfirst hon .Suspend ((hiff _).1 hpos) fun m' hm' => ?_
        cases m' with
        | On => rfl
        | Standby => exact hzero _ hstandby
        | Suspend => exact absurd hm' (lt_irrefl _)
        | Off => exact absurd hm' (by decide)
      · rename_i hsuspend
        split
        · rename_i hpos
          refine hfirst hon .Off ((hiff _).1 hpos) fun m' hm' => ?_
          cases m' with
          | On => rfl
          | Standby => exact hzero _ hstandby
          | Suspend => exact hzero _ hsuspend
          | Off => exact absurd hm' (lt_irrefl _)
        · rename_i hoff
          refine soonest_none ?_
          rintro d ⟨hd, m, ⟨-, hpos⟩, -⟩
          cases m with
          | On => exact lt_irrefl 0 hpos
          | Standby => exact hstandby ((hiff _).2 hpos)
          | Suspend => exact hsuspend ((hiff _).2 hpos)
          | Off => exact hoff ((hiff _).2 hpos)
  · rename_i hoff
    refine soonest_none ?_
    rintro d ⟨-, m, hm, -⟩
    exact hoff hm.1

/-- **The first timeout** is the least one that is set. -/
theorem firstTimeout_spec (hs : s.Ordered) : Soonest s.IsTimeout s.firstTimeout.toNat := by
  have hlevels := firstLevelTimeout_soonest hs
  have heq : s.firstTimeout = if 0 < s.ScreenSaverTime then
      if 0 < s.firstLevelTimeout then minTime s.ScreenSaverTime s.firstLevelTimeout else s.ScreenSaverTime
      else s.firstLevelTimeout := rfl
  rw [heq]
  by_cases hpos : 0 < s.ScreenSaverTime
  · rw [if_pos hpos]
    refine (minTime_soonest hpos hlevels).congr fun d => ?_
    constructor
    · rintro (rfl | ⟨hd, h⟩)
      · exact ⟨hpos, .inl rfl⟩
      · exact ⟨hd, .inr h⟩
    · rintro ⟨hd, h | h⟩
      · exact .inl h
      · exact .inr ⟨hd, h⟩
  · rw [if_neg hpos]
    refine hlevels.congr fun d => and_congr_right fun hd => (or_iff_right ?_).symm
    rintro rfl
    exact hpos (UInt32.lt_iff_toNat_lt.2 hd)

/-- A timer that is set for less than half the clock waits. -/
theorem timerSet_pending {millis : UInt32} (hpos : millis ≠ 0) (hsmall : millis.toNat < 2 ^ 31)
    (hmemory : st.timer = .null → memory = true) :
    timerSet s memory now lastEventTime fuel millis st = some { st with timer := .pending millis } := by
  have hsigned : 0 < millis.toInt32 := by
    have hne : millis.toNat ≠ 0 := fun h => hpos (UInt32.toNat_inj.1 h)
    rw [Int32.lt_iff_toInt_lt]
    have hint : millis.toInt32.toInt = millis.toNat := by
      have hbv : millis.toInt32.toInt = millis.toBitVec.toInt := rfl
      rw [hbv, BitVec.toInt_eq_toNat_of_lt]
      · rfl
      · show 2 * millis.toNat < 2 ^ 32
        omega
    rw [hint]
    show (0 : ℤ) < millis.toNat
    omega
  unfold timerSet
  rw [if_neg, if_neg hpos, if_pos hsigned]
  rintro ⟨hnull, hno⟩
  rw [hmemory hnull] at hno
  exact nomatch hno

/-- **The idle timer**, for all settings whose thresholds do not decrease.

`SetScreenSaverTimer`: when a timeout below half the clock is set and the saver is not suspended,
a timer is pending after it, for the least timeout; when none is set, or the saver is suspended,
it starts none. `ScreenSaverTimeoutExpire`: the level is that of the highest threshold reached,
the screens are saved when the level is `On` and the threshold of the saver has been reached, and
the delay is the least distance to what is ahead. -/
theorem idle_timer (s : Settings) (hs : s.Ordered) (memory : Bool) (fuel : ℕ) (now lastEventTime : UInt32)
    (st : IdleState) (hmemory : st.timer = .null → memory = true) :
    ((∃ d < 2 ^ 31, s.IsTimeout d) → s.screenSaverSuspended = false →
        ∃ delta : UInt32, setScreenSaverTimer s memory fuel now lastEventTime st =
          some { st with timer := .pending delta } ∧ s.IsTimeout delta.toNat ∧ ∀ d, s.IsTimeout d → delta.toNat ≤ d) ∧
      ((∀ d, ¬s.IsTimeout d) ∨ s.screenSaverSuspended = true → (∀ delta, st.timer ≠ .pending delta) →
        ∃ st', setScreenSaverTimer s memory fuel now lastEventTime st = some st' ∧
          ∀ delta, st'.timer ≠ .pending delta) ∧
      (let idle := (now - lastEventTime).toNat
        let r := screenSaverTimeoutExpire s st.level now lastEventTime
        LevelOf s st.level idle r.level ∧
          (.saveScreens ∈ r.actions ↔
            r.level = .On ∧ 0 < s.ScreenSaverTime.toNat ∧ s.ScreenSaverTime.toNat ≤ idle) ∧
          Soonest (Ahead s r.level idle) r.next.toNat) := by
  have hfirst := firstTimeout_spec hs
  refine ⟨?_, ?_, expire_level .., expire_saves .., expire_next hs ..⟩
  · rintro ⟨d, hsmall, hd⟩ hsuspended
    obtain ⟨hpos, hset, hmin⟩ := hfirst.resolve_right fun h => h.2 d hd
    have hne : s.firstTimeout ≠ 0 := by
      intro h
      rw [h] at hpos
      exact lt_irrefl 0 hpos
    refine ⟨s.firstTimeout, ?_, hset, hmin⟩
    unfold setScreenSaverTimer
    rw [if_pos ⟨hne, by rw [hsuspended]; rfl⟩, if_pos hne]
    exact timerSet_pending hne ((hmin d hd).trans_lt hsmall) hmemory
  · intro hno hstopped
    refine ⟨st, ?_, hstopped⟩
    unfold setScreenSaverTimer
    refine if_neg fun h => ?_
    rcases hno with hno | hsuspended
    · rcases hfirst with ⟨-, hset, -⟩ | ⟨hzero, -⟩
      · exact hno _ hset
      · exact h.1 (UInt32.toNat_inj.1 hzero)
    · rw [hsuspended] at h
      exact nomatch h.2

end SetTimer

/-- The level `Standby` after 10 s, the screen saver after 20 s. -/
def twoThresholds : Settings := ⟨20000, 0, true, 10000, 0, 0, false⟩

theorem twoThresholds_ordered : twoThresholds.Ordered := by
  intro m m' _ hpos hpos'
  cases m <;> cases m' <;> first
    | exact le_rfl
    | exact absurd hpos (by decide)
    | exact absurd hpos' (by decide)

theorem idle_timer_two :
    (∃ delta : UInt32, setScreenSaverTimer twoThresholds true 0 5000 0 ⟨.On, [], .null⟩ =
        some ⟨.On, [], .pending delta⟩ ∧ twoThresholds.IsTimeout delta.toNat ∧
          ∀ d, twoThresholds.IsTimeout d → delta.toNat ≤ d) ∧
      Soonest (Ahead twoThresholds (screenSaverTimeoutExpire twoThresholds .On 5000 0).level 5000)
        (screenSaverTimeoutExpire twoThresholds .On 5000 0).next.toNat :=
  have h := idle_timer twoThresholds twoThresholds_ordered true 0 5000 0 ⟨.On, [], .null⟩ fun _ => rfl
  ⟨h.1 ⟨20000, by decide, by decide, .inl rfl⟩ rfl, h.2.2.2.2⟩

/-- The distances to the thresholds that have not been reached, whatever the power level. -/
def NotReached (s : Settings) (idle d : ℕ) : Prop :=
  (∃ m, s.Enabled m ∧ idle < s.time m ∧ d = s.time m - idle) ∨
    idle < s.ScreenSaverTime.toNat ∧ d = s.ScreenSaverTime.toNat - idle

/-- **Power saving leaves the saver out**: when the level is set to `Standby` after 10 s, the
threshold of the screen saver is 10 s ahead, and the timer is not to run again. And a timeout
of half the clock is taken for one that is over, so no timer is pending. -/
theorem power_saving_skips :
    (screenSaverTimeoutExpire twoThresholds .On 10000 0).next = 0 ∧
      ¬Soonest (NotReached twoThresholds 10000) (screenSaverTimeoutExpire twoThresholds .On 10000 0).next.toNat ∧
      setScreenSaverTimer ⟨0x80000000, 0, false, 0, 0, 0, false⟩ true 1 0x80000000 0 ⟨.On, [], .null⟩ =
        some ⟨.On, [.saveScreens], .stopped⟩ := by
  have hnext : (screenSaverTimeoutExpire twoThresholds .On 10000 0).next = 0 := by decide +kernel
  refine ⟨hnext, ?_, by decide +kernel⟩
  rintro (⟨h, -⟩ | ⟨-, h⟩)
  · exact lt_irrefl 0 h
  · exact h 10000 (.inr ⟨by decide, by decide⟩)

end Xenia.Os.ScreenSaver
