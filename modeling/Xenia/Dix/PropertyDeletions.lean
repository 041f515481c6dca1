import Xenia.Dix.GetPropertyParts

/-!
# Announced deletions

`ProcGetProperty` with its delete flag and `DeleteProperty` take a property off the list of a
window and deliver a `PropertyNotify` event. `deletions_announced` says when the two go together:
always but for a read to the end whose reply buffer is refused, which is announced and not done.
-/

namespace Xenia.Dix

open Xenia.Lib List

/-- The two calls that may delete a property. -/
inductive DeletingCall
  | get (e : GetEnv) (a : Grants) (swapped : Bool) (r : GetPropertyReq)
  | delete (name : ℕ) (access : Status)

def DeletingCall.exec (s : PropState) : DeletingCall → Option (PropState × Status)
  | .get e a swapped r => (procGetProperty e a swapped r s).map fun (s, rc, _) => (s, rc)
  | .delete name access => deleteProperty name access s

/-- A call that succeeds takes one property off the list and delivers one event, with its name;
or the list stays as it is, and nothing is delivered. -/
def Announced (s s' : PropState) (rc : Status) : Prop :=
  (rc = Success ∧ ∃ us p vs, s.properties = us ++ p :: vs ∧ s'.properties = us ++ vs ∧
      s'.events = s.events ++ [(.delete, p.propertyName)]) ∨
    s'.properties = s.properties ∧ s'.events = s.events

/-- A read that deletes: of a property that is there, allowed and of the right type, up to its end. -/
structure ReadsToEnd (e : GetEnv) (r : GetPropertyReq) (s : PropState) (q : GetParam) (p : PropertyRec) : Prop where
  check : checkGet e r = .ok q
  found : s.lookup q.property = some p
  access : e.access = Success
  type : q.type = p.type ∨ q.type = AnyPropertyType
  delete : q.delete = true
  start : q.ind ≤ p.numBytes
  finish : p.numBytes - q.ind ≤ (4 * q.longLength).toNat

/-- The buffer for its reply is refused; there is something to reply. -/
def DeletingCall.Refused (s : PropState) : DeletingCall → Prop
  | .get e a _ r => ∃ q p, ReadsToEnd e r s q p ∧ q.ind ≠ p.numBytes ∧ a 0 = none
  | .delete _ _ => False

section Deletions

variable {s s' : PropState} {p : PropertyRec} {rc : Status}

/-- An event without a deletion. -/
theorem not_announced (hprops : s'.properties = s.properties) (hevents : s'.events ≠ s.events) : ¬Announced s s' rc := by
  rintro (⟨-, us, p, vs, hs, hs', -⟩ | ⟨-, he⟩)
  · have hlen := congrArg length (hs.symm.trans (hprops.symm.trans hs'))
    simp at hlen
  · exact hevents he

/-- The record that is found, and the list without it. -/
theorem unlink_split {name : ℕ} (hl : s.lookup name = some p) :
    p.propertyName = name ∧ ∃ us vs, s.properties = us ++ p :: vs ∧ (s.unlink name).properties = us ++ vs := by
  obtain ⟨hname, us, vs, hs, hus⟩ := find?_eq_some_iff_append.1 hl
  have hname : p.propertyName = name := by simpa using hname
  refine ⟨hname, us, vs, hs, ?_⟩
  change s.properties.eraseP _ = _
  rw [hs, eraseP_append_right _ (by simpa using hus), eraseP_cons_of_pos (by simpa using hname)]

theorem delete_announced (h : Stocked s) (name : ℕ) (access : Status) :
    ∃ s' rc, deleteProperty name access s = some (s', rc) ∧ Announced s s' rc := by
  have hlook : ({ s with errorValue := name } : PropState).lookup name = s.lookup name := rfl
  unfold deleteProperty dixLookupProperty
  dsimp only
  rw [hlook]
  cases hl : s.lookup name with
  | none => exact ⟨_, _, if_pos rfl, .inr ⟨rfl, rfl⟩⟩
  | some p =>
    by_cases hmatch : access = BadMatch
    · rw [if_pos hmatch]
      exact ⟨_, _, rfl, .inr ⟨rfl, rfl⟩⟩
    · rw [if_neg hmatch]
      by_cases haccess : access = Success
      · obtain ⟨rfl, us, vs, hs, hunlink⟩ := unlink_split hl
        obtain ⟨h', hfree⟩ := unlink_free h (mem_of_find?_eq_some hl)
        rw [if_pos haccess]
        change ∃ s' rc, Option.map _ (s.heap.free p.data) = _ ∧ _
        rw [hfree]
        exact ⟨_, _, rfl, .inl ⟨haccess, us, p, vs, hs, hunlink, rfl⟩⟩
      · rw [if_neg haccess]
        exact ⟨_, _, rfl, .inr ⟨rfl, rfl⟩⟩

variable {e : GetEnv} {r : GetPropertyReq}

theorem ReadsToEnd.unique {q q' : GetParam} {p' : PropertyRec} (hread : ReadsToEnd e r s q' p')
    (hcheck : checkGet e r = .ok q) (hl : s.lookup q.property = some p) : q' = q ∧ p' = p := by
  obtain rfl : q = q' := by simpa using hcheck.symm.trans hread.check
  exact ⟨rfl, by simpa using hread.found.symm.trans hl⟩

/-- A call that leaves the list and the events alone, and does not read to the end. -/
theorem keep_announced {a : Grants} {swapped : Bool} (hprops : s'.properties = s.properties)
    (hevents : s'.events = s.events) (hnot : ∀ q p, ¬ReadsToEnd e r s q p) :
    Announced s s' rc ↔ ¬(DeletingCall.get e a swapped r).Refused s :=
  iff_of_true (.inr ⟨hprops, hevents⟩) fun ⟨q, p, hread, _⟩ => hnot q p hread

/-- The property is there, allowed and of the type asked for. -/
theorem read_announced (h : Stocked s) {q : GetParam} (a : Grants) (swapped : Bool)
    (hcheck : checkGet e r = .ok q) (hl : s.lookup q.property = some p) (haccess : e.access = Success)
    (htype : q.type = p.type ∨ q.type = AnyPropertyType) :
    ∃ s' rc reply, readProperty a swapped q p { s with errorValue := q.property } = some (s', rc, reply) ∧
      (Announced s s' rc ↔ ¬(DeletingCall.get e a swapped r).Refused s) := by
  have h' : Stocked { s with errorValue := q.property } := ⟨h.ok, h.format⟩
  -- a read that does not come to the end
  have hshort : ¬(q.delete = true ∧ p.numBytes - q.ind - q.len p.numBytes = 0) → ∀ q' p', ¬ReadsToEnd e r s q' p' := by
    intro hlast q' p' hread
    obtain ⟨rfl, rfl⟩ := hread.unique hcheck hl
    have hend := hread.finish
    refine hlast ⟨hread.delete, ?_⟩
    unfold GetParam.len
    omega
  rcases readProperty_cases a swapped h' (mem_of_find?_eq_some hl) q with
    ⟨hlt, hr⟩ | ⟨hle, ⟨hnone, hne, hr⟩ | ⟨hgranted, s', reply, hr, -, -, hstate⟩⟩
  · refine ⟨_, _, _, hr, keep_announced rfl rfl fun q' p' hread => ?_⟩
    obtain ⟨rfl, rfl⟩ := hread.unique hcheck hl
    exact absurd hread.start (not_le.2 hlt)
  · refine ⟨_, _, _, hr, ?_⟩
    by_cases hlast : q.delete = true ∧ p.numBytes - q.ind - q.len p.numBytes = 0
    · rw [if_pos hlast]
      -- announced, and not done
      have hend := hlast.2
      unfold GetParam.len at hend hne
      refine iff_of_false ?_ (not_not.2 ⟨q, p, ⟨hcheck, hl, haccess, htype, hlast.1, hle, by omega⟩, by omega, hnone⟩)
      exact not_announced rfl (by simp [PropState.deliverPropertyNotifyEvent])
    · rw [if_neg hlast]
      exact keep_announced rfl rfl (hshort hlast)
  · refine ⟨_, _, _, hr, ?_⟩
    by_cases hlast : q.delete = true ∧ p.numBytes - q.ind - q.len p.numBytes = 0
    · rw [if_pos hlast] at hstate
      obtain ⟨hp', rfl⟩ := hstate
      obtain ⟨hname, us, vs, hs, hunlink⟩ := unlink_split hl
      rw [← hname] at hunlink
      refine iff_of_true (.inl ⟨rfl, us, p, vs, hs, hunlink, rfl⟩) ?_
      rintro ⟨q', p', hread, hne, hnone⟩
      obtain ⟨rfl, rfl⟩ := hread.unique hcheck hl
      have hlen := hgranted.resolve_left fun h => h hnone
      omega
    · rw [if_neg hlast] at hstate
      subst hstate
      exact keep_announced rfl rfl (hshort hlast)

theorem get_announced (h : Stocked s) (e : GetEnv) (a : Grants) (swapped : Bool) (r : GetPropertyReq) :
    ∃ s' rc reply, procGetProperty e a swapped r s = some (s', rc, reply) ∧
      (Announced s s' rc ↔ ¬(DeletingCall.get e a swapped r).Refused s) := by
  unfold procGetProperty
  cases hcheck : checkGet e r with
  | error err =>
    refine ⟨_, _, _, rfl, keep_announced rfl rfl fun q p hread => ?_⟩
    exact absurd (hcheck.symm.trans hread.check) (by simp)
  | ok q =>
    have hlook : ({ s with errorValue := q.property } : PropState).lookup q.property = s.lookup q.property := rfl
    cases hl : s.lookup q.property with
    | none =>
      unfold getProperty dixLookupProperty
      dsimp only
      rw [hlook, hl]
      refine ⟨_, _, _, if_pos rfl, keep_announced rfl rfl fun q' p hread => ?_⟩
      obtain rfl : q = q' := by simpa using hcheck.symm.trans hread.check
      exact absurd (hl.symm.trans hread.found) (by simp)
    | some p =>
      by_cases haccess : e.access = Success
      · by_cases htype : q.type = p.type ∨ q.type = AnyPropertyType
        · dsimp only
          rw [getProperty_found hl haccess (not_and_or.2 (by tauto))]
          exact read_announced h a swapped hcheck hl haccess htype
        · unfold getProperty dixLookupProperty
          dsimp only
          rw [hlook, hl]
          dsimp only
          rw [haccess, if_neg (by decide), Option.bind_some, if_pos (not_or.1 htype)]
          refine ⟨_, _, _, rfl, keep_announced rfl rfl fun q' p' hread => ?_⟩
          obtain ⟨rfl, rfl⟩ := hread.unique hcheck hl
          exact htype hread.type
      · unfold getProperty dixLookupProperty
        dsimp only
        rw [hlook, hl]
        by_cases hmatch : e.access = BadMatch
        · rw [if_pos hmatch]
          exact ⟨_, _, _, rfl, keep_announced rfl rfl fun q' p' hread => haccess hread.access⟩
        · rw [if_neg hmatch, if_pos haccess]
          exact ⟨_, _, _, rfl, keep_announced rfl rfl fun q' p' hread => haccess hread.access⟩

/-- **Announced deletions**: a call that may delete a property does not fault; it announces a
deletion exactly where it deletes and returns `Success`, unless it reads the property to its end and the
buffer for the reply is refused. -/
theorem deletions_announced (h : Stocked s) (c : DeletingCall) :
    ∃ s' rc, c.exec s = some (s', rc) ∧ (Announced s s' rc ↔ ¬c.Refused s) := by
  cases c with
  | get e a swapped r =>
    obtain ⟨s', rc, reply, hr, hiff⟩ := get_announced h e a swapped r
    exact ⟨s', rc, by simp only [DeletingCall.exec, hr, Option.map_some], hiff⟩
  | delete name access =>
    obtain ⟨s', rc, hr, hann⟩ := delete_announced h name access
    exact ⟨s', rc, hr, iff_of_true hann id⟩

end Deletions

/-! ### Four bytes, read with the delete flag -/

def readAndDelete (a : Grants) : DeletingCall := .get openEnv a false { askFor 1 with delete := 1 }

theorem deletions_announced_one :
    ∃ s' rc, (readAndDelete bufferGranted).exec fourState = some (s', rc) ∧ Announced fourState s' rc := by
  obtain ⟨s', rc, hr, hiff⟩ := deletions_announced fourState_stocked (readAndDelete bufferGranted)
  refine ⟨s', rc, hr, hiff.2 ?_⟩
  rintro ⟨q, p, -, -, hnone⟩
  exact absurd hnone (by simp [bufferGranted])

/-- Where the buffer for the reply is refused, the property stays and its deletion is announced. -/
theorem refused_deletion_announced :
    Stocked fourState ∧ ∃ s', (readAndDelete fun _ => none).exec fourState = some (s', BadAlloc) ∧
      s'.properties = fourState.properties ∧ s'.events = [(.delete, 39)] ∧ ¬Announced fourState s' BadAlloc := by
  refine ⟨fourState_stocked, _, rfl, rfl, rfl, ?_⟩
  exact not_announced rfl (by decide)

end Xenia.Dix
