import Xenia.Dix.GetPropertyParts

/-!
# What was stored is read back

`stored_read_back` goes from the calls that write properties to the requests that read them: what the successful ones made of a property
is what a client reads in chunks, in its own byte order.
-/

namespace Xenia.Dix

open Xenia.Lib List Function

/-- The formats that `ProcChangeProperty` lets through. -/
def FormatOk (format : ℕ) : Prop := format = 8 ∨ format = 16 ∨ format = 32

/-- A call with one of them; a filter may have changed a request. -/
def PropOp.Formatted : PropOp → Prop
  | .change c _ => FormatOk c.format
  | .request e r _ => ∀ c, checkChange e r = .ok c → FormatOk c.format
  | .delete _ _ => True

def Formats (m : Props) : Prop := ∀ name x, m name = some x → FormatOk x.format

section Formats

variable {m m' : Props}

theorem Formats.update (h : Formats m) {name : ℕ} {o : Option Content} (ho : ∀ x, o = some x → FormatOk x.format) :
    Formats (Function.update m name o) := by
  intro name' x hx
  by_cases hn : name' = name
  · rw [hn, update_self] at hx
    exact ho x hx
  · rw [update_of_ne hn] at hx
    exact h name' x hx

theorem Formats.apply (h : Formats m) {c : ChangeCall} (hc : FormatOk c.format) (happly : c.apply m = some m') : Formats m' := by
  unfold ChangeCall.apply at happly
  cases hm : m c.property with
  | none =>
    rw [hm] at happly
    cases happly
    apply h.update
    rintro x ⟨rfl⟩
    exact hc
  | some x =>
    rw [hm] at happly
    dsimp only at happly
    split at happly
    · cases happly
      apply h.update
      rintro y ⟨rfl⟩
      have hx := h _ _ hm
      unfold ChangeCall.onto
      split
      · exact hc
      · exact hx
      · exact hx
    · exact absurd happly (by simp)

theorem Formats.effect (h : Formats m) {op : PropOp} (hop : op.Formatted) (heffect : op.effect m = some m') : Formats m' := by
  cases op with
  | change c a => exact h.apply hop heffect
  | delete name verdict =>
    cases heffect
    exact h.update fun x hx => absurd hx (by simp)
  | request e r a =>
    unfold PropOp.effect at heffect
    dsimp only at heffect
    cases hc : checkChange e r with
    | ok c =>
      rw [hc] at heffect
      exact h.apply (hop c hc) heffect
    | error err =>
      rw [hc] at heffect
      cases heffect
      exact h

/-- **Each step** keeps the list in order, with formats that can be read. -/
theorem propStep_formats (st : PropRun) (op : PropOp) (hop : FitsStep st op ∧ op.Formatted)
    (h : Shows st ∧ ∀ s m, st = some (s, m) → Formats m) :
    Shows (propStep st op) ∧ ∀ s m, propStep st op = some (s, m) → Formats m := by
  refine ⟨propStep_shows st op hop.1 h.1, fun s' m' hstep => ?_⟩
  obtain ⟨s, m, rfl, -, -⟩ := h.1
  have hm := h.2 s m rfl
  obtain ⟨⟨s'', rc⟩, -, heq⟩ := Option.map_eq_some_iff.1 hstep
  cases heq
  split
  · cases heffect : op.effect m with
    | none => exact hm
    | some m' => exact hm.effect hop.2 heffect
  · exact hm

/-- Every record is seen under its name. -/
theorem stocked_of_view {s : PropState} (hok : PropsOk s.properties s.heap) (h : Formats (view s.properties s.heap)) : Stocked s := by
  refine ⟨hok, fun p hp => h p.propertyName (content s.heap p) ?_⟩
  have hsome : (s.properties.find? fun q => q.propertyName = p.propertyName).isSome :=
    find?_isSome.2 ⟨p, hp, decide_eq_true rfl⟩
  obtain ⟨q, hq⟩ := Option.isSome_iff_exists.1 hsome
  have hname : q.propertyName = p.propertyName := by simpa using find?_some hq
  have hsame : q = p := inj_on_of_nodup_map hok.nodup (mem_of_find?_eq_some hq) hp hname
  unfold view
  rw [hq, hsame]
  rfl

end Formats

theorem get_missing {s : PropState} {e : GetEnv} {a : Grants} {r : GetPropertyReq} (swapped : Bool) (ha : Answered e a r)
    (hl : s.lookup r.property = none) :
    procGetProperty e a swapped r s = some ({ s with errorValue := r.property }, Success, some ⟨0, 0, 0, 0, []⟩) := by
  have hlook : ({ s with errorValue := r.param.property } : PropState).lookup r.param.property = none := hl
  unfold procGetProperty
  rw [checkGet_param ha]
  unfold getProperty dixLookupProperty
  dsimp only
  rw [hlook]
  exact if_pos rfl

/-- **What was stored is read back**: after any run of calls that fit, a client that reads a property in chunks gets the bytes that the
successful calls made of it, if these are fewer than `2 ^ 32` and the chunks have some. Of a property that there is not it gets nothing. -/
theorem stored_read_back {s : PropState} (h : Stocked s) {ops : List PropOp}
    (hops : AllSteps propStep (fun st op => FitsStep st op ∧ op.Formatted) (some (s, view s.properties s.heap)) ops) :
    ∃ s' m, run propStep (some (s, view s.properties s.heap)) ops = some (s', m) ∧
      ∀ swapped e a r, Answered e a r →
        (m r.property = none → ∃ t, procGetProperty e a swapped r s' = some (t, Success, some ⟨0, 0, 0, 0, []⟩)) ∧
          ∀ c x, m r.property = some x → (r.type = x.type ∨ r.type = AnyPropertyType) → x.data.length < 2 ^ 32 →
            (x.data = [] ∨ chunkBytes c ≠ 0) →
            ∃ fuel, readChunks e a swapped r c fuel s' 0 [] = some (wireUnits swapped (x.format / 8) x.data) := by
  have hstart : Formats (view s.properties s.heap) := by
    intro name x hx
    obtain ⟨p, hp, rfl⟩ := Option.map_eq_some_iff.1 hx
    exact h.format p (mem_of_find?_eq_some hp)
  obtain ⟨⟨s', m, hrun, hok, hview⟩, hformats⟩ := hops.invariant propStep_formats
    ⟨⟨s, _, rfl, h.ok, rfl⟩, fun s' m heq => by cases heq; exact hstart⟩
  have hstocked : Stocked s' := stocked_of_view hok (hview ▸ hformats s' m hrun)
  subst hview
  refine ⟨s', _, hrun, fun swapped e a r ha => ⟨fun hnone => ⟨_, get_missing swapped ha (Option.map_eq_none_iff.1 hnone)⟩, ?_⟩⟩
  intro c x hx htype hsmall hc
  obtain ⟨p, hl, rfl⟩ := Option.map_eq_some_iff.1 hx
  have hlen : (s'.heap.load p.data).length = p.bytes := hok.length p (mem_of_find?_eq_some hl)
  have hbytes : p.bytes = 0 ∨ chunkBytes c ≠ 0 := hc.imp (fun hnil => hlen ▸ congrArg length hnil) id
  -- each chunk but the last takes a byte
  have hall := readChunks_all swapped ha htype (hlen ▸ hsmall) hbytes (p.bytes + 1) s' 0 hstocked hl rfl (by simp) (by simp)
  have hnil : wireUnits swapped (p.format / 8) ((s'.heap.load p.data).take (4 * (0 : CARD32).toNat)) = [] := by
    simp [wireUnits]
  rw [hnil] at hall
  exact ⟨p.bytes + 1, hall⟩

theorem stored_read_back_one :
    ∃ s m fuel, run propStep start [.change (appendUnits 1 1) allGranted] = some (s, m) ∧
      readChunks openEnv bufferGranted false (askFor 1) 1 fuel s 0 [] = some [1, 1, 1, 1] := by
  obtain ⟨hall, s, hrun, -, hview⟩ := appends_run (u := 1) (n := 0) (by decide) (by decide) (by decide)
  have hops : AllSteps propStep (fun st op => FitsStep st op ∧ op.Formatted) (some (noProperties, _))
      [.change (appendUnits 1 1) allGranted] := ⟨⟨hall.1, .inr (.inr rfl)⟩, trivial⟩
  obtain ⟨s', m, hrun', hread⟩ := stored_read_back ⟨noProperties_ok, by simp [noProperties]⟩ hops
  cases hrun'.symm.trans hrun
  obtain ⟨fuel, hback⟩ := (hread false openEnv bufferGranted (askFor 1) (askFor_answered 1)).2 1 _ hview (.inl rfl) (by decide)
    (.inr (by decide))
  exact ⟨s, _, fuel, hrun, hback⟩

end Xenia.Dix
