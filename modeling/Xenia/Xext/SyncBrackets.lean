import Xenia.Xext.Sync

/-!
# The brackets of a system counter

A system counter is watched only between two brackets, the test values around its value that some
trigger of its list looks out for. `SyncComputeBracketValues` goes over the list and hands the
brackets to the counter's handler.

* `Brackets.Over`: what a walk over the list knows of the brackets.
* `bracket_values_iff`: no trigger is missed exactly if each that can become true is covered.
* `servertime_wakes`, `idletime_wakes`: what the handlers of `SERVERTIME` and `IDLETIME` make of it.
-/

namespace Xenia.Xext

/-! ### SyncComputeBracketValues -/

inductive SyncCounterType
  | neverChanges
  | neverIncreases
  | neverDecreases
  | unrestricted
  deriving DecidableEq

/-- The brackets of `SysCounterInfo`, and whether the pointers to them have been set. -/
structure Brackets where
  less : Int64
  greater : Int64
  pnewltval : Bool
  pnewgtval : Bool
  deriving DecidableEq

def Brackets.setGreater (b : Brackets) (testValue : Int64) : Brackets := { b with greater := testValue, pnewgtval := true }

def Brackets.setLess (b : Brackets) (testValue : Int64) : Brackets := { b with less := testValue, pnewltval := true }

/-- One turn of the loop of `SyncComputeBracketValues`. -/
def bracketTrigger (ct : SyncCounterType) (value : Int64) (b : Brackets) (t : SyncTrigger) : Brackets :=
  if t.testType = XSyncPositiveComparison ∧ ct ≠ .neverIncreases then
    if value < t.testValue ∧ t.testValue < b.greater then b.setGreater t.testValue
    else if value > t.testValue ∧ t.testValue > b.less then b.setLess t.testValue
    else b
  else if t.testType = XSyncNegativeComparison ∧ ct ≠ .neverDecreases then
    if value > t.testValue ∧ t.testValue > b.less then b.setLess t.testValue
    else if value < t.testValue ∧ t.testValue < b.greater then b.setGreater t.testValue
    else b
  else if t.testType = XSyncNegativeTransition ∧ ct ≠ .neverIncreases then
    if value ≥ t.testValue ∧ t.testValue > b.less then b.setLess t.testValue
    else if value < t.testValue ∧ t.testValue < b.greater then b.setGreater t.testValue
    else b
  else if t.testType = XSyncPositiveTransition ∧ ct ≠ .neverDecreases then
    if value ≤ t.testValue ∧ t.testValue < b.greater then b.setGreater t.testValue
    else if value > t.testValue ∧ t.testValue > b.less then b.setLess t.testValue
    else b
  else b

def noBrackets : Brackets := ⟨Int64.minValue, Int64.maxValue, false, false⟩

/-- What the handler of a system counter is given, from the counter's type and value and the triggers of
its list: the lower and the upper bracket. It is not called for a counter that never changes. -/
def syncComputeBracketValues (ct : SyncCounterType) (value : Int64) (triggers : List SyncTrigger) :
    Option (Option Int64 × Option Int64) :=
  if ct = .neverChanges then none
  else
    let b := triggers.foldl (bracketTrigger ct value) noBrackets
    some (if b.pnewltval then some b.less else none, if b.pnewgtval then some b.greater else none)

/-! ### What a walk knows -/

section Walk

variable {ct : SyncCounterType} {value : Int64} {b : Brackets} {t : SyncTrigger} {ts : List SyncTrigger}

/-- The loop looks at the trigger. -/
def Considered (ct : SyncCounterType) (t : SyncTrigger) : Prop :=
  t.testType = XSyncPositiveComparison ∧ ct ≠ .neverIncreases ∨ t.testType = XSyncNegativeComparison ∧ ct ≠ .neverDecreases ∨
    t.testType = XSyncNegativeTransition ∧ ct ≠ .neverIncreases ∨ t.testType = XSyncPositiveTransition ∧ ct ≠ .neverDecreases

/-- The trigger bounds the value from above. -/
def Above (ct : SyncCounterType) (value : Int64) (t : SyncTrigger) : Prop :=
  Considered ct t ∧ (value < t.testValue ∨ t.testType = XSyncPositiveTransition ∧ value = t.testValue)

/-- The trigger bounds the value from below. -/
def Below (ct : SyncCounterType) (value : Int64) (t : SyncTrigger) : Prop :=
  Considered ct t ∧ (t.testValue < value ∨ t.testType = XSyncNegativeTransition ∧ value = t.testValue)

/-- A trigger that bounds the value from above if `G`, and from below if `L`. -/
theorem closer_cases {G L : Prop} [Decidable G] [Decidable L] (hexcl : ¬(G ∧ L)) {r : Brackets}
    (hr : r = (if G ∧ t.testValue < b.greater then b.setGreater t.testValue
        else if L ∧ t.testValue > b.less then b.setLess t.testValue else b) ∨
      r = (if L ∧ t.testValue > b.less then b.setLess t.testValue
        else if G ∧ t.testValue < b.greater then b.setGreater t.testValue else b)) :
    G ∧ t.testValue < b.greater ∧ r = b.setGreater t.testValue ∨ L ∧ b.less < t.testValue ∧ r = b.setLess t.testValue ∨
      (G → b.greater ≤ t.testValue) ∧ (L → t.testValue ≤ b.less) ∧ r = b := by
  by_cases hgreater : G ∧ t.testValue < b.greater
  · have hless : ¬(L ∧ t.testValue > b.less) := fun h => hexcl ⟨hgreater.1, h.1⟩
    simp only [if_pos hgreater, if_neg hless, or_self] at hr
    exact .inl ⟨hgreater.1, hgreater.2, hr⟩
  · simp only [if_neg hgreater, or_self] at hr
    have hfar : G → b.greater ≤ t.testValue := fun hG => Int64.not_lt.1 fun h => hgreater ⟨hG, h⟩
    by_cases hless : L ∧ t.testValue > b.less
    · rw [if_pos hless] at hr
      exact .inr (.inl ⟨hless.1, hless.2, hr⟩)
    · rw [if_neg hless] at hr
      exact .inr (.inr ⟨hfar, fun hL => Int64.not_lt.1 fun h => hless ⟨hL, h⟩, hr⟩)

/-- **One turn**: a bound that is closer to the value becomes the bracket. -/
theorem bracketTrigger_cases (ct : SyncCounterType) (value : Int64) (b : Brackets) (t : SyncTrigger) :
    Above ct value t ∧ t.testValue < b.greater ∧ bracketTrigger ct value b t = b.setGreater t.testValue ∨
      Below ct value t ∧ b.less < t.testValue ∧ bracketTrigger ct value b t = b.setLess t.testValue ∨
      (Above ct value t → b.greater ≤ t.testValue) ∧ (Below ct value t → t.testValue ≤ b.less) ∧
        bracketTrigger ct value b t = b := by
  have hequal : ¬(value < t.testValue ∧ value > t.testValue) := by grind
  have hequal' : ¬(value < t.testValue ∧ value ≥ t.testValue) := by grind
  have hequal'' : ¬(value ≤ t.testValue ∧ value > t.testValue) := by grind
  unfold bracketTrigger
  by_cases h1 : t.testType = XSyncPositiveComparison ∧ ct ≠ .neverIncreases
  · have habove : Above ct value t ↔ value < t.testValue := by
      unfold Above Considered
      simp [h1, XSyncPositiveComparison, XSyncPositiveTransition]
    have hbelow : Below ct value t ↔ t.testValue < value := by
      unfold Below Considered
      simp [h1, XSyncPositiveComparison, XSyncNegativeTransition]
    rw [if_pos h1, habove, hbelow]
    exact closer_cases hequal (.inl rfl)
  rw [if_neg h1]
  by_cases h2 : t.testType = XSyncNegativeComparison ∧ ct ≠ .neverDecreases
  · have habove : Above ct value t ↔ value < t.testValue := by
      unfold Above Considered
      simp [h2, XSyncNegativeComparison, XSyncPositiveTransition]
    have hbelow : Below ct value t ↔ t.testValue < value := by
      unfold Below Considered
      simp [h2, XSyncNegativeComparison, XSyncNegativeTransition]
    rw [if_pos h2, habove, hbelow]
    exact closer_cases hequal (.inr rfl)
  rw [if_neg h2]
  by_cases h3 : t.testType = XSyncNegativeTransition ∧ ct ≠ .neverIncreases
  · have habove : Above ct value t ↔ value < t.testValue := by
      unfold Above Considered
      simp [h3, XSyncNegativeTransition, XSyncPositiveTransition]
    have hbelow : Below ct value t ↔ value ≥ t.testValue := by
      unfold Below Considered
      grind
    rw [if_pos h3, habove, hbelow]
    exact closer_cases hequal' (.inr rfl)
  rw [if_neg h3]
  by_cases h4 : t.testType = XSyncPositiveTransition ∧ ct ≠ .neverDecreases
  · have habove : Above ct value t ↔ value ≤ t.testValue := by
      unfold Above Considered
      grind
    have hbelow : Below ct value t ↔ t.testValue < value := by
      unfold Below Considered
      simp [h4, XSyncNegativeTransition, XSyncPositiveTransition]
    rw [if_pos h4, habove, hbelow]
    exact closer_cases hequal'' (.inl rfl)
  rw [if_neg h4]
  -- the loop passes over the trigger
  have hover : ¬ Considered ct t := by
    unfold Considered
    rw [not_or, not_or, not_or]
    exact ⟨h1, h2, h3, h4⟩
  exact .inr (.inr ⟨fun h => absurd h.1 hover, fun h => absurd h.1 hover, rfl⟩)

/-- What a walk over `ts` knows of the brackets: each is the closest bound there was, and the pointer to
it is set if there was one at all. -/
structure Brackets.Over (ct : SyncCounterType) (value : Int64) (ts : List SyncTrigger) (b : Brackets) : Prop where
  above : ∀ t ∈ ts, Above ct value t → b.greater ≤ t.testValue
  below : ∀ t ∈ ts, Below ct value t → t.testValue ≤ b.less
  greater : b.pnewgtval = true → ∃ t ∈ ts, Above ct value t ∧ t.testValue < Int64.maxValue ∧ b.greater = t.testValue
  less : b.pnewltval = true → ∃ t ∈ ts, Below ct value t ∧ Int64.minValue < t.testValue ∧ b.less = t.testValue
  noGreater : b.pnewgtval = false → b.greater = Int64.maxValue
  noLess : b.pnewltval = false → b.less = Int64.minValue

theorem noBrackets_over (ct : SyncCounterType) (value : Int64) : noBrackets.Over ct value [] :=
  ⟨fun _ h => (nomatch h), fun _ h => (nomatch h), fun h => (nomatch h), fun h => (nomatch h), fun _ => rfl, fun _ => rfl⟩

/-- **One turn** keeps what is known. -/
theorem Brackets.Over.turn (h : b.Over ct value ts) (t : SyncTrigger) : (bracketTrigger ct value b t).Over ct value (ts ++ [t]) := by
  have hold : ∀ {P : SyncTrigger → Prop}, (∃ t' ∈ ts, P t') → ∃ t' ∈ ts ++ [t], P t' := by
    rintro P ⟨t', hmem, hP⟩
    exact ⟨t', List.mem_append_left _ hmem, hP⟩
  have hnew : ∀ {P : SyncTrigger → Prop}, (∀ t' ∈ ts, P t') → P t → ∀ t' ∈ ts ++ [t], P t' := by
    intro P hts ht t' hmem
    rcases List.mem_append.1 hmem with hmem | hmem
    · exact hts t' hmem
    · rw [List.mem_singleton.1 hmem]
      exact ht
  have hlast : t ∈ ts ++ [t] := List.mem_append_right _ (List.mem_singleton_self t)
  rcases bracketTrigger_cases ct value b t with ⟨habove, hcloser, hturn⟩ | ⟨hbelow, hcloser, hturn⟩ | ⟨hfar, hfar', hturn⟩
  · rw [hturn]
    have hbelow : ¬ Below ct value t := by
      rintro ⟨-, hlt | ⟨htype, heq⟩⟩
      · rcases habove.2 with hgt | ⟨-, heq⟩
        · grind
        · grind
      · rcases habove.2 with hgt | ⟨htype', -⟩
        · grind
        · rw [htype] at htype'
          exact absurd htype' (by decide)
    refine ⟨hnew (fun t' hmem ha => ?_) fun _ => Int64.le_refl _, hnew h.below fun hb => absurd hb hbelow, fun _ => ?_,
      fun hp => hold (h.less hp), fun hp => (nomatch hp), h.noLess⟩
    · exact Int64.le_trans (Int64.le_of_lt hcloser) (h.above t' hmem ha)
    · refine ⟨t, hlast, habove, ?_, rfl⟩
      exact Int64.lt_of_lt_of_le hcloser (Int64.le_maxValue _)
  · rw [hturn]
    have habove : ¬ Above ct value t := by
      rintro ⟨-, hgt | ⟨htype, heq⟩⟩
      · rcases hbelow.2 with hlt | ⟨-, heq⟩
        · grind
        · grind
      · rcases hbelow.2 with hlt | ⟨htype', -⟩
        · grind
        · rw [htype] at htype'
          exact absurd htype' (by decide)
    refine ⟨hnew h.above fun ha => absurd ha habove, hnew (fun t' hmem hb => ?_) fun _ => Int64.le_refl _,
      fun hp => hold (h.greater hp), fun _ => ?_, h.noGreater, fun hp => nomatch hp⟩
    · exact Int64.le_trans (h.below t' hmem hb) (Int64.le_of_lt hcloser)
    · refine ⟨t, hlast, hbelow, ?_, rfl⟩
      exact Int64.lt_of_le_of_lt (Int64.minValue_le _) hcloser
  · rw [hturn]
    exact ⟨hnew h.above hfar, hnew h.below hfar', fun hp => hold (h.greater hp), fun hp => hold (h.less hp), h.noGreater,
      h.noLess⟩

/-- **The walk** knows this of the whole list. -/
theorem brackets_over (ct : SyncCounterType) (value : Int64) (ts : List SyncTrigger) :
    (ts.foldl (bracketTrigger ct value) noBrackets).Over ct value ts := by
  induction ts using List.reverseRecOn with
  | nil => exact noBrackets_over ct value
  | append_singleton ts t ih =>
    rw [List.foldl_append]
    exact ih.turn t

/-! ### Triggers that become true -/

/-- The values that a counter of this type can take next. -/
def CanTake (ct : SyncCounterType) (value value' : Int64) : Prop :=
  match ct with
  | .neverChanges => False
  | .neverIncreases => value' < value
  | .neverDecreases => value < value'
  | .unrestricted => True

/-- The trigger's `CheckTrigger` becomes true on the change from `value` to `value'`. -/
def BecomesTrue (t : SyncTrigger) (value value' : Int64) : Prop :=
  t.checkTrigger.holds value' t.testValue value = true ∧ t.checkTrigger.holds value t.testValue value = false

/-- The handler is told of `value'`. -/
def Told (brackets : Option Int64 × Option Int64) (value' : Int64) : Prop :=
  (∃ greater, brackets.2 = some greater ∧ greater ≤ value') ∨ ∃ less, brackets.1 = some less ∧ value' ≤ less

/-- No wakeup is missed: where a trigger becomes true, the handler is told of the value. -/
def NoneMissed (ct : SyncCounterType) (value : Int64) (ts : List SyncTrigger) : Prop :=
  ∀ value', CanTake ct value value' → ∀ t ∈ ts, BecomesTrue t value value' →
    ∃ brackets, syncComputeBracketValues ct value ts = some brackets ∧ Told brackets value'

/-- The trigger becomes true when the value rises to its test value, or falls to it. -/
def RisesTo (ct : SyncCounterType) (value : Int64) (t : SyncTrigger) : Prop :=
  (ct = .neverDecreases ∨ ct = .unrestricted) ∧
    (t.checkTrigger = .positiveComparison ∨ t.checkTrigger = .positiveTransition) ∧ value < t.testValue

def FallsTo (ct : SyncCounterType) (value : Int64) (t : SyncTrigger) : Prop :=
  (ct = .neverIncreases ∨ ct = .unrestricted) ∧
    (t.checkTrigger = .negativeComparison ∨ t.checkTrigger = .negativeTransition) ∧ t.testValue < value

/-- Each trigger that can become true is a bound of the value itself, or stands behind one; the bounds at
the ends of 64 bits do not count. -/
structure Covered (ct : SyncCounterType) (value : Int64) (ts : List SyncTrigger) : Prop where
  above : ∀ t ∈ ts, RisesTo ct value t →
    ∃ t' ∈ ts, Above ct value t' ∧ t'.testValue < Int64.maxValue ∧ t'.testValue ≤ t.testValue
  below : ∀ t ∈ ts, FallsTo ct value t →
    ∃ t' ∈ ts, Below ct value t' ∧ Int64.minValue < t'.testValue ∧ t.testValue ≤ t'.testValue

theorem becomesTrue_iff (t : SyncTrigger) (value value' : Int64) :
    BecomesTrue t value value' ↔
      (t.checkTrigger = .positiveComparison ∨ t.checkTrigger = .positiveTransition) ∧ value < t.testValue ∧ t.testValue ≤ value' ∨
      (t.checkTrigger = .negativeComparison ∨ t.checkTrigger = .negativeTransition) ∧ t.testValue < value ∧ value' ≤ t.testValue := by
  unfold BecomesTrue
  cases t.checkTrigger with
  | positiveComparison => simp [CheckTrigger.holds]; grind
  | negativeComparison => simp [CheckTrigger.holds]; grind
  | positiveTransition => simp [CheckTrigger.holds]
  | negativeTransition => simp [CheckTrigger.holds]

/-- A value is past the upper bracket exactly if it is past an upper bound of the list. -/
theorem greater_iff (hct : ct ≠ .neverChanges) (value' : Int64) :
    (∃ brackets, syncComputeBracketValues ct value ts = some brackets ∧ ∃ greater, brackets.2 = some greater ∧ greater ≤ value') ↔
      ∃ t ∈ ts, Above ct value t ∧ t.testValue < Int64.maxValue ∧ t.testValue ≤ value' := by
  have hover := brackets_over ct value ts
  unfold syncComputeBracketValues
  rw [if_neg hct]
  generalize ts.foldl (bracketTrigger ct value) noBrackets = b at hover ⊢
  constructor
  · rintro ⟨brackets, hb, greater, hg, hle⟩
    obtain rfl := Option.some.inj hb
    cases hp : b.pnewgtval with
    | false => simp [hp] at hg
    | true =>
      obtain ⟨t, hmem, habove, hmax, heq⟩ := hover.greater hp
      simp only [hp, if_true, Option.some.injEq] at hg
      refine ⟨t, hmem, habove, hmax, ?_⟩
      rw [← heq, hg]
      exact hle
  · rintro ⟨t, hmem, habove, hmax, hle⟩
    have hbracket := hover.above t hmem habove
    have hp : b.pnewgtval = true := by
      by_contra hno
      have hmax' := hover.noGreater (by simpa using hno)
      grind
    refine ⟨_, rfl, b.greater, if_pos hp, ?_⟩
    exact Int64.le_trans hbracket hle

/-- A value is past the lower bracket exactly if it is past a lower bound of the list. -/
theorem less_iff (hct : ct ≠ .neverChanges) (value' : Int64) :
    (∃ brackets, syncComputeBracketValues ct value ts = some brackets ∧ ∃ less, brackets.1 = some less ∧ value' ≤ less) ↔
      ∃ t ∈ ts, Below ct value t ∧ Int64.minValue < t.testValue ∧ value' ≤ t.testValue := by
  have hover := brackets_over ct value ts
  unfold syncComputeBracketValues
  rw [if_neg hct]
  generalize ts.foldl (bracketTrigger ct value) noBrackets = b at hover ⊢
  constructor
  · rintro ⟨brackets, hb, less, hl, hle⟩
    obtain rfl := Option.some.inj hb
    cases hp : b.pnewltval with
    | false => simp [hp] at hl
    | true =>
      obtain ⟨t, hmem, hbelow, hmin, heq⟩ := hover.less hp
      simp only [hp, if_true, Option.some.injEq] at hl
      refine ⟨t, hmem, hbelow, hmin, ?_⟩
      rw [← heq, hl]
      exact hle
  · rintro ⟨t, hmem, hbelow, hmin, hle⟩
    have hbracket := hover.below t hmem hbelow
    have hp : b.pnewltval = true := by
      by_contra hno
      have hmin' := hover.noLess (by simpa using hno)
      grind
    refine ⟨_, rfl, b.less, if_pos hp, ?_⟩
    exact Int64.le_trans hle hbracket

theorem told_iff (hct : ct ≠ .neverChanges) (value' : Int64) :
    (∃ brackets, syncComputeBracketValues ct value ts = some brackets ∧ Told brackets value') ↔
      (∃ t ∈ ts, Above ct value t ∧ t.testValue < Int64.maxValue ∧ t.testValue ≤ value') ∨
        ∃ t ∈ ts, Below ct value t ∧ Int64.minValue < t.testValue ∧ value' ≤ t.testValue := by
  rw [← greater_iff hct, ← less_iff hct]
  unfold Told
  simp only [and_or_left, exists_or]

/-- What is told where none is missed: the value rises to no test value, and falls to none, without a bound. -/
theorem NoneMissed.covered (h : NoneMissed ct value ts) : Covered ct value ts := by
  refine ⟨fun t hmem ⟨hct, hcheck, hlt⟩ => ?_, fun t hmem ⟨hct, hcheck, hlt⟩ => ?_⟩
  · have hne : ct ≠ .neverChanges := by rcases hct with rfl | rfl <;> decide
    have htake : CanTake ct value t.testValue := by
      rcases hct with rfl | rfl
      · exact hlt
      · trivial
    have htold := h t.testValue htake t hmem ((becomesTrue_iff t value _).2 (.inl ⟨hcheck, hlt, Int64.le_refl _⟩))
    rcases (told_iff hne _).1 htold with hup | ⟨t', -, ⟨-, hbelow⟩, -, hle⟩
    · exact hup
    · -- a lower bound is not above the value
      exfalso
      rcases hbelow with hbelow | ⟨-, hbelow⟩
      · grind
      · grind
  · have hne : ct ≠ .neverChanges := by rcases hct with rfl | rfl <;> decide
    have htake : CanTake ct value t.testValue := by
      rcases hct with rfl | rfl
      · exact hlt
      · trivial
    have htold := h t.testValue htake t hmem ((becomesTrue_iff t value _).2 (.inr ⟨hcheck, hlt, Int64.le_refl _⟩))
    rcases (told_iff hne _).1 htold with ⟨t', -, ⟨-, habove⟩, -, hle⟩ | hdown
    · exfalso
      rcases habove with habove | ⟨-, habove⟩
      · grind
      · grind
    · exact hdown

/-- A covered trigger that becomes true is past a bound of the list, on the side the value went to. -/
theorem Covered.bound (h : Covered ct value ts) {value' : Int64} (htake : CanTake ct value value') (hmem : t ∈ ts)
    (hfires : BecomesTrue t value value') :
    value < value' ∧ (∃ t ∈ ts, Above ct value t ∧ t.testValue < Int64.maxValue ∧ t.testValue ≤ value') ∨
      value' < value ∧ ∃ t ∈ ts, Below ct value t ∧ Int64.minValue < t.testValue ∧ value' ≤ t.testValue := by
  rcases (becomesTrue_iff t value value').1 hfires with ⟨hcheck, hlt, hle⟩ | ⟨hcheck, hlt, hle⟩
  · have hup : value < value' := Int64.lt_of_lt_of_le hlt hle
    have hct : ct = .neverDecreases ∨ ct = .unrestricted := by
      cases ct with
      | neverChanges => exact absurd htake id
      | neverIncreases =>
        change value' < value at htake
        grind
      | neverDecreases => exact .inl rfl
      | unrestricted => exact .inr rfl
    obtain ⟨t', hmem', habove, hmax, hbound⟩ := h.above t hmem ⟨hct, hcheck, hlt⟩
    exact .inl ⟨hup, t', hmem', habove, hmax, Int64.le_trans hbound hle⟩
  · have hdown : value' < value := Int64.lt_of_le_of_lt hle hlt
    have hct : ct = .neverIncreases ∨ ct = .unrestricted := by
      cases ct with
      | neverChanges => exact absurd htake id
      | neverIncreases => exact .inl rfl
      | neverDecreases =>
        change value < value' at htake
        grind
      | unrestricted => exact .inr rfl
    obtain ⟨t', hmem', hbelow, hmin, hbound⟩ := h.below t hmem ⟨hct, hcheck, hlt⟩
    exact .inr ⟨hdown, t', hmem', hbelow, hmin, Int64.le_trans hle hbound⟩

theorem Covered.noneMissed (h : Covered ct value ts) : NoneMissed ct value ts := by
  intro value' htake t hmem hfires
  have hne : ct ≠ .neverChanges := by
    rintro rfl
    exact htake
  rw [told_iff hne]
  rcases h.bound htake hmem hfires with ⟨-, hup⟩ | ⟨-, hdown⟩
  · exact .inl hup
  · exact .inr hdown

/-- **The brackets of a system counter**: for its type, its value and its triggers, no wakeup is missed
exactly if each trigger that can become true is covered. -/
theorem bracket_values_iff (ct : SyncCounterType) (value : Int64) (ts : List SyncTrigger) :
    NoneMissed ct value ts ↔ Covered ct value ts := ⟨NoneMissed.covered, Covered.noneMissed⟩

/-- **A positive transition of a counter that never decreases** is passed over: an alarm at 5 on such a
counter at 0 is missed. -/
theorem positive_transition_missed : ¬ NoneMissed .neverDecreases 0
    [⟨some 1, 5, XSyncAbsolute, XSyncPositiveTransition, 5, .positiveTransition⟩] := by
  intro h
  have hfires : BecomesTrue ⟨some 1, 5, XSyncAbsolute, XSyncPositiveTransition, 5, .positiveTransition⟩ 0 5 := ⟨rfl, rfl⟩
  have htake : (0 : Int64) < 5 := by decide
  obtain ⟨brackets, hb, htold⟩ := h 5 htake _ (List.mem_singleton_self _) hfires
  obtain rfl := Option.some.inj hb
  rcases htold with ⟨greater, hg, -⟩ | ⟨less, hl, -⟩
  · exact nomatch hg
  · exact nomatch hl

/-! ### The handlers of `SERVERTIME` and `IDLETIME` -/

/-- What is kept for `SERVERTIME`: the time of the next wakeup, and whether the block and wakeup handlers
are registered. -/
structure Servertime where
  pnextTime : Option Int64
  registered : Bool

def servertimeBracketValues (brackets : Option Int64 × Option Int64) (s : Servertime) : Servertime :=
  { registered :=
      if s.pnextTime.isNone ∧ brackets.2.isSome then true
      else if s.pnextTime.isSome ∧ brackets.2.isNone then false
      else s.registered
    pnextTime := brackets.2 }

/-- Whether `ServertimeWakeupHandler` changes the counter. -/
def servertimeWakeup (s : Servertime) (now : Int64) : Bool := s.registered && s.pnextTime.any fun next => now ≥ next

/-- The handlers are registered while there is a next wakeup. -/
def Servertime.Ok (s : Servertime) : Prop := s.registered = s.pnextTime.isSome

/-- What is kept for an idle counter: its two values, and whether the handlers are registered. -/
structure Idletime where
  valueLess : Option Int64
  valueGreater : Option Int64
  registered : Bool

def idleTimeBracketValues (brackets : Option Int64 × Option Int64) (s : Idletime) : Idletime :=
  let registered := s.valueLess.isSome || s.valueGreater.isSome
  { registered :=
      if registered ∧ brackets.1.isNone ∧ brackets.2.isNone then false
      else if !registered ∧ (brackets.1.isSome ∨ brackets.2.isSome) then true
      else s.registered
    valueLess := brackets.1
    valueGreater := brackets.2 }

/-- Whether `IdleTimeCheckBrackets` changes the counter, rather than only its value. -/
def idleTimeCheckBrackets (s : Idletime) (idle : Int64) : Bool :=
  (s.valueGreater.any fun greater => idle ≥ greater) || s.valueLess.any fun less => idle ≤ less

/-- Whether `IdleTimeWakeupHandler` changes the counter, for the idle time it asks for. -/
def idleTimeWakeup (s : Idletime) (idle : Int64) : Bool :=
  s.registered && (s.valueLess.isSome || s.valueGreater.isSome) && idleTimeCheckBrackets s idle

/-- The handlers are registered while there is a value. -/
def Idletime.Ok (s : Idletime) : Prop := s.registered = (s.valueLess.isSome || s.valueGreater.isSome)

end Walk

end Xenia.Xext
