import Xenia.Os.EpollRuns
import Xenia.Os.Poll

/-!
# Runs of the poll table with poll

The two arrays are looked at as one list of pairs (`entries`). `step_spec` says that each request keeps it sorted and does to the
table what `specStep` says.

`poll_table_correct` is the result for both variants. `retriggered` has a run that breaks it with epoll: a descriptor that is added
again with another trigger, of which the kernel is not told.
-/

namespace Xenia.Os.Ospoll

open Xenia.Lib

namespace Poll

variable {s : Poll} {fd : ℤ}

def entries (s : Poll) : List (PollFd × PollEntry) := s.fds.zip s.osfds

def keyOf (e : PollFd × PollEntry) : ℤ := e.1.fd

def regOf (e : PollFd × PollEntry) : Reg :=
  { callback := e.2.callback, data := e.2.data, trigger := e.2.trigger, xevents := e.1.events }

def table (s : Poll) : Table := fun fd => (lookup keyOf (entries s) fd).map regOf

structure Sound (s : Poll) : Prop where
  paired : s.fds.length = s.osfds.length
  sorted : Sorted PollFd.fd s.fds

theorem Sound.entries (hs : Sound s) : Sorted keyOf (Poll.entries s) := by
  have hmap : (Poll.entries s).map keyOf = s.fds.map PollFd.fd := by
    have hfst : (s.fds.zip s.osfds).map Prod.fst = s.fds := List.map_fst_zip hs.paired.le
    conv_rhs => rw [← hfst, List.map_map]
    rfl
  unfold Sorted
  rw [hmap]
  exact hs.sorted

/-- A search, with the second array cut at the same place. -/
inductive Found (s : Poll) (fd : ℤ) : Prop
  | found (before after : List PollFd) (p : PollFd) (before' after' : List PollEntry) (o : PollEntry)
      (hfds : s.fds = before ++ p :: after) (hosfds : s.osfds = before' ++ o :: after') (hlength : before'.length = before.length)
      (hafter : after'.length = after.length) (hkey : p.fd = fd) (hfind : ospoll_find s fd = before.length)
  | absent (before after : List PollFd) (before' after' : List PollEntry) (hfds : s.fds = before ++ after)
      (hosfds : s.osfds = before' ++ after') (hlength : before'.length = before.length) (hafter : after'.length = after.length)
      (hlow : ∀ p ∈ before, p.fd < fd) (hhigh : ∀ p ∈ after, fd < p.fd) (hfind : ospoll_find s fd = -(before.length + 1))

theorem ospoll_find_cases (hs : Sound s) (fd : ℤ) : Found s fd := by
  cases bsearch_spec hs.sorted fd with
  | found before p after hl hkey hr =>
    have hpaired := hs.paired
    rw [hl, List.length_append, List.length_cons] at hpaired
    apply Found.found before after p (s.osfds.take before.length) (s.osfds.drop (before.length + 1)) s.osfds[before.length] hl
    · rw [List.getElem_cons_drop, List.take_append_drop]
    · rw [List.length_take]
      omega
    · rw [List.length_drop]
      omega
    · exact hkey
    · exact hr
  | absent before after hl hbefore hafter hr =>
    have hpaired := hs.paired
    rw [hl, List.length_append] at hpaired
    apply Found.absent before after (s.osfds.take before.length) (s.osfds.drop before.length) hl
    · exact (List.take_append_drop _ _).symm
    · rw [List.length_take]
      omega
    · rw [List.length_drop]
      omega
    · exact hbefore
    · exact hafter
    · exact hr

/-- What a request does: it keeps the table sound and changes it as specified. -/
structure Does (T : Table) (s' : Poll) : Prop where
  sound : Sound s'
  becomes : table s' = T

variable {before after : List PollFd} {p p' : PollFd} {before' after' : List PollEntry} {o o' : PollEntry} {s' : Poll}

theorem entries_middle (hfds : s.fds = before ++ p :: after) (hosfds : s.osfds = before' ++ o :: after')
    (hlength : before'.length = before.length) : entries s = before.zip before' ++ (p, o) :: after.zip after' := by
  unfold entries
  rw [hfds, hosfds, List.zip_append hlength.symm, List.zip_cons_cons]

theorem table_middle (hs : Sound s) (hfds : s.fds = before ++ p :: after) (hosfds : s.osfds = before' ++ o :: after')
    (hlength : before'.length = before.length) : table s p.fd = some (regOf (p, o)) := by
  have hin : (p, o) ∈ entries s := by
    rw [entries_middle hfds hosfds hlength]
    exact List.mem_append_right _ List.mem_cons_self
  unfold table
  have hlookup := lookup_of_mem hs.entries hin
  change lookup keyOf (entries s) p.fd = some (p, o) at hlookup
  rw [hlookup]
  rfl

variable (p' o' s') in
/-- An entry is written over. -/
theorem replace_does (hs : Sound s) (hfds : s.fds = before ++ p :: after) (hosfds : s.osfds = before' ++ o :: after')
    (hlength : before'.length = before.length) (hkey : p'.fd = p.fd) (hfds' : s'.fds = before ++ p' :: after)
    (hosfds' : s'.osfds = before' ++ o' :: after') : Does (Function.update (table s) p.fd (some (regOf (p', o')))) s' := by
  have hentries := entries_middle hfds hosfds hlength
  have hentries' := entries_middle hfds' hosfds' hlength
  refine ⟨⟨?_, ?_⟩, ?_⟩
  · have hpaired := hs.paired
    rw [hfds, hosfds] at hpaired
    rw [hfds', hosfds']
    simpa using hpaired
  · rw [hfds']
    exact (hfds ▸ hs.sorted).replace hkey
  · funext fd'
    have hsorted := hs.entries
    rw [hentries] at hsorted
    unfold table
    rw [hentries', lookup_replace (p', o') hsorted hkey, ← hentries]
    rcases eq_or_ne fd' p.fd with rfl | hne
    · rw [Function.update_self]
      exact congrArg (Option.map regOf) (if_pos rfl)
    · rw [Function.update_of_ne hne]
      exact congrArg (Option.map regOf) (if_neg hne.symm)

theorem table_eq_none (hfds : s.fds = before ++ after) (hlow : ∀ p ∈ before, p.fd < fd) (hhigh : ∀ p ∈ after, fd < p.fd) :
    table s fd = none := by
  unfold table
  rw [Option.map_eq_none_iff, lookup_eq_none]
  intro e he
  have hin : e.1 ∈ before ++ after := hfds ▸ (List.of_mem_zip he).1
  rcases List.mem_append.1 hin with hin | hin
  · exact (hlow e.1 hin).ne
  · exact (hhigh e.1 hin).ne'

section

variable (hs : Sound s)
include hs

/-- An entry is put in. -/
theorem insert_does (hfds : s.fds = before ++ after) (hosfds : s.osfds = before' ++ after')
    (hlength : before'.length = before.length) (hlow : ∀ q ∈ before, q.fd < p.fd) (hhigh : ∀ q ∈ after, p.fd < q.fd)
    (hfds' : s'.fds = before ++ p :: after) (hosfds' : s'.osfds = before' ++ o :: after') :
    Does (Function.update (table s) p.fd (some (regOf (p, o)))) s' := by
  have hentries : entries s = before.zip before' ++ after.zip after' := by
    unfold entries
    rw [hfds, hosfds, List.zip_append hlength.symm]
  have hentries' := entries_middle hfds' hosfds' hlength
  refine ⟨⟨?_, ?_⟩, ?_⟩
  · have hpaired := hs.paired
    rw [hfds, hosfds, List.length_append, List.length_append] at hpaired
    rw [hfds', hosfds', List.length_append, List.length_append, List.length_cons, List.length_cons]
    omega
  · rw [hfds']
    exact (hfds ▸ hs.sorted).insert hlow hhigh
  · funext fd'
    unfold table
    have hlow' : ∀ e ∈ before.zip before', keyOf e < keyOf (p, o) := fun e he => hlow e.1 (List.of_mem_zip he).1
    rw [hentries', lookup_insert hlow', ← hentries]
    rcases eq_or_ne fd' p.fd with rfl | hne
    · rw [Function.update_self]
      exact congrArg (Option.map regOf) (if_pos rfl)
    · rw [Function.update_of_ne hne]
      exact congrArg (Option.map regOf) (if_neg hne.symm)

/-- An entry is taken out. -/
theorem erase_does (hfds : s.fds = before ++ p :: after) (hosfds : s.osfds = before' ++ o :: after')
    (hlength : before'.length = before.length) (hfds' : s'.fds = before ++ after) (hosfds' : s'.osfds = before' ++ after') :
    Does (Function.update (table s) p.fd none) s' := by
  have hentries := entries_middle hfds hosfds hlength
  have hentries' : entries s' = before.zip before' ++ after.zip after' := by
    unfold entries
    rw [hfds', hosfds', List.zip_append hlength.symm]
  refine ⟨⟨?_, ?_⟩, ?_⟩
  · have hpaired := hs.paired
    rw [hfds, hosfds, List.length_append, List.length_append, List.length_cons, List.length_cons] at hpaired
    rw [hfds', hosfds', List.length_append, List.length_append]
    omega
  · rw [hfds']
    exact (hfds ▸ hs.sorted).erase
  · funext fd'
    have hsorted := hs.entries
    rw [hentries] at hsorted
    unfold table
    rw [hentries', lookup_erase hsorted, ← hentries]
    rcases eq_or_ne fd' p.fd with rfl | hne
    · rw [Function.update_self]
      exact congrArg (Option.map regOf) (if_pos rfl)
    · rw [Function.update_of_ne hne]
      exact congrArg (Option.map regOf) (if_neg hne.symm)

/-! ## Requests -/

theorem ospoll_add_does (fd : ℤ) (trigger : Trigger) (callback data : ℕ) (resources : Resources) :
    let r := ospoll_add s fd trigger callback data resources
    Does (specStep r.2 (table s) (.add fd trigger callback data resources)) r.1 := by
  unfold ospoll_add
  cases ospoll_find_cases hs fd with
  | found before after p before' after' o hfds hosfds hlength hafter hkey hfind =>
    rw [hfind]
    dsimp only
    rw [if_neg (by omega), Int.toNat_natCast, specStep_add, ← hkey, table_middle hs hfds hosfds hlength]
    refine replace_does p { o with trigger := trigger, callback := callback, data := data } _ hs hfds hosfds hlength rfl hfds ?_
    unfold setEntry
    rw [hosfds, ← hlength, modify_append]
  | absent before after before' after' hfds hosfds hlength hafter hlow hhigh hfind =>
    rw [hfind]
    dsimp only
    rw [if_pos (by omega)]
    split
    · exact ⟨hs, rfl⟩
    · have hposition : (-(-((before.length : ℤ) + 1)) - 1).toNat = before.length := by omega
      have hsize : (if s.fds.length = s.size then { s with size := grow s.size } else s) =
          { s with size := if s.fds.length = s.size then grow s.size else s.size } := by
        split <;> rfl
      rw [hposition, hsize, specStep_add, table_eq_none hfds hlow hhigh]
      apply insert_does (p := { fd := fd, events := Events.none, revents := Events.none })
        (o := { trigger := trigger, callback := callback, data := data, revents := Events.none }) hs hfds hosfds hlength hlow hhigh
      · change s.fds.insertIdx before.length _ = _
        rw [hfds, insertIdx_append]
      · change (s.osfds.insertIdx before.length _).modify before.length _ = _
        rw [hosfds, ← hlength, insertIdx_append, modify_append]

theorem ospoll_remove_does (fd : ℤ) : Does (Function.update (table s) fd none) (ospoll_remove s fd) := by
  unfold ospoll_remove
  cases ospoll_find_cases hs fd with
  | found before after p before' after' o hfds hosfds hlength hafter hkey hfind =>
    rw [hfind]
    rw [if_pos (by omega), ← hkey]
    apply erase_does hs hfds hosfds hlength
    · change s.fds.eraseIdx before.length = _
      rw [hfds, eraseIdx_append]
    · change s.osfds.eraseIdx before.length = _
      rw [hosfds, ← hlength, eraseIdx_append]
  | absent before after before' after' hfds hosfds hlength hafter hlow hhigh hfind =>
    rw [if_neg (by omega), ← table_eq_none hfds hlow hhigh, Function.update_eq_self]
    exact ⟨hs, rfl⟩

/-- `ospoll_listen`, `ospoll_mute` and `ospoll_reset_events`: a change of the events of an entry. -/
theorem events_does (fd : ℤ) (f : Events → Events) (g : PollEntry → PollEntry)
    (hg : ∀ o, (g o).callback = o.callback ∧ (g o).data = o.data ∧ (g o).trigger = o.trigger) :
    Does (Function.update (table s) fd ((table s fd).map fun r => { r with xevents := f r.xevents }))
      (if ospoll_find s fd ≥ 0 then
        { s with
          fds := s.fds.modify (ospoll_find s fd).toNat fun p => { p with events := f p.events }
          osfds := s.osfds.modify (ospoll_find s fd).toNat g }
      else s) := by
  cases ospoll_find_cases hs fd with
  | found before after p before' after' o hfds hosfds hlength hafter hkey hfind =>
    rw [hfind, ← hkey, table_middle hs hfds hosfds hlength, Option.map_some]
    obtain ⟨hcallback, hdata, htrigger⟩ := hg o
    have hreg : { regOf (p, o) with xevents := f (regOf (p, o)).xevents } = regOf ({ p with events := f p.events }, g o) := by
      unfold regOf
      rw [hcallback, hdata, htrigger]
    rw [hreg]
    apply replace_does { p with events := f p.events } _ _ hs hfds hosfds hlength rfl
    · change s.fds.modify before.length _ = _
      rw [hfds, modify_append]
    · change s.osfds.modify before.length _ = _
      rw [hosfds, ← hlength, modify_append]
  | absent before after before' after' hfds hosfds hlength hafter hlow hhigh hfind =>
    rw [hfind, table_eq_none hfds hlow hhigh, Option.map_none, ← table_eq_none hfds hlow hhigh,
      Function.update_eq_self]
    exact ⟨hs, rfl⟩

/-! ## Events -/

theorem wait_does (reported : List (ℤ × Events)) : Does (table s) (wait s reported) := by
  unfold wait
  split
  · -- only what is reported changes
    generalize hreport : (fun p : PollFd => { p with revents := ((reported.find? fun r : ℤ × Events => r.1 == p.fd).map fun r : ℤ × Events => r.2).getD Events.none }) = report
    have hfd : ∀ p, (report p).fd = p.fd := fun p => by rw [← hreport]
    have hevents : ∀ p, (report p).events = p.events := fun p => by rw [← hreport]
    refine ⟨⟨?_, ?_⟩, ?_⟩
    · simpa using hs.paired
    · unfold Sorted
      rw [List.map_map]
      have hsame : PollFd.fd ∘ report = PollFd.fd := funext hfd
      rw [hsame]
      exact hs.sorted
    · funext fd
      unfold table entries lookup
      rw [List.zip_map_left, List.find?_map, Option.map_map]
      have hkey : ((fun e => decide (keyOf e = fd)) ∘ Prod.map report id) = fun e : PollFd × PollEntry => decide (keyOf e = fd) := by
        funext e
        change decide ((report e.1).fd = fd) = _
        rw [hfd]
        rfl
      have hreg : regOf ∘ Prod.map report id = regOf := by
        funext e
        unfold regOf
        simp [hevents]
      rw [hkey, hreg]
  · exact ⟨hs, rfl⟩

/-- **A turn of the loop.** What is called is the callback of the registration of the descriptor. -/
theorem turn_does :
    Does (table s) (turn s).1 ∧
      ∀ call, (turn s).2 = some call → ∃ r, table s call.fd = some r ∧ r.callback = call.callback ∧ r.data = call.data := by
  unfold turn
  split
  · exact ⟨⟨hs, rfl⟩, fun call h => absurd h (by simp)⟩
  · exact ⟨⟨⟨hs.paired, hs.sorted⟩, rfl⟩, fun call h => absurd h (by simp)⟩
  next f hplace =>
    split
    next p o hp ho =>
      obtain ⟨hf, rfl⟩ := List.getElem?_eq_some_iff.1 hp
      obtain ⟨hf', rfl⟩ := List.getElem?_eq_some_iff.1 ho
      -- the arrays are cut at the index
      have hfds : s.fds = s.fds.take f ++ s.fds[f] :: s.fds.drop (f + 1) := by
        rw [List.getElem_cons_drop, List.take_append_drop]
      have hosfds : s.osfds = s.osfds.take f ++ s.osfds[f] :: s.osfds.drop (f + 1) := by
        rw [List.getElem_cons_drop, List.take_append_drop]
      have hlength : (s.osfds.take f).length = (s.fds.take f).length := by
        rw [List.length_take, List.length_take]
        omega
      have hreg := table_middle hs hfds hosfds hlength
      have hsame : ∀ place, Does (table s)
          { s with osfds := s.osfds.modify f fun o => { o with revents := s.fds[f].revents.inOut }, place := place } := by
        intro place
        have hreplaced := replace_does s.fds[f] { s.osfds[f] with revents := s.fds[f].revents.inOut }
          { s with osfds := s.osfds.modify f fun o => { o with revents := s.fds[f].revents.inOut }, place := place }
          hs hfds hosfds hlength rfl hfds ?_
        · have hupdate : Function.update (table s) s.fds[f].fd (some (regOf (s.fds[f], { s.osfds[f] with
              revents := s.fds[f].revents.inOut }))) = table s := by
            have hold : regOf (s.fds[f], { s.osfds[f] with revents := s.fds[f].revents.inOut }) = regOf (s.fds[f], s.osfds[f]) := rfl
            rw [hold, ← hreg, Function.update_eq_self]
          exact hupdate ▸ hreplaced
        · have hmodify := modify_append (s.osfds.take f) (s.osfds.drop (f + 1)) s.osfds[f] fun o =>
            { o with revents := s.fds[f].revents.inOut }
          rw [← hosfds, List.length_take, min_eq_left hf'.le] at hmodify
          exact hmodify
      dsimp only
      generalize (if s.osfds[f].trigger = Trigger.edge then s.fds[f].revents.diff s.osfds[f].revents
        else s.fds[f].revents) = revents
      split
      · refine ⟨hsame _, ?_⟩
        rintro call ⟨rfl⟩
        exact ⟨_, hreg, rfl, rfl⟩
      · exact ⟨hsame _, fun call h => absurd h (by simp)⟩
    · exact ⟨⟨⟨hs.paired, hs.sorted⟩, rfl⟩, fun call h => absurd h (by simp)⟩

/-- **A request** keeps the table sound and changes it as specified. -/
theorem step_does (op : Op) : Does (specStep (added s op) (table s) op) (step s op) := by
  -- a request that finds nothing to change in one of the arrays
  have hsame : ∀ (l : List PollFd) (n : ℕ), l.modify n (fun p => { p with events := p.events }) = l := by
    intro l n
    exact List.modify_id n l
  have hid : ∀ (l : List PollEntry) (n : ℕ), l.modify n id = l := fun l n => List.modify_id n l
  cases op with
  | add fd trigger callback data resources => exact ospoll_add_does hs fd trigger callback data resources
  | remove fd => exact ospoll_remove_does hs fd
  | listen fd xevents =>
    exact events_does hs fd (·.union xevents.inOut) (fun o => { o with revents := o.revents.diff xevents.inOut })
      fun _ => ⟨rfl, rfl, rfl⟩
  | mute fd xevents =>
    have hdoes := events_does hs fd (·.diff xevents.inOut) id fun _ => ⟨rfl, rfl, rfl⟩
    simp only [hid] at hdoes
    exact hdoes
  | reset_events fd =>
    have hdoes := events_does hs fd id (fun o => { o with revents := Events.none }) fun _ => ⟨rfl, rfl, rfl⟩
    simp only [id, hsame] at hdoes
    have hunchanged : Function.update (table s) fd ((table s fd).map fun r => { r with xevents := r.xevents }) = table s := by
      have hmap : ((table s fd).map fun r : Reg => { r with xevents := r.xevents }) = table s fd := Option.map_id'
      rw [hmap, Function.update_eq_self]
    rw [hunchanged] at hdoes
    exact hdoes
  | wait reported => exact wait_does hs reported
  | turn => exact (turn_does hs).1

end

theorem created_sound : Sound created := ⟨rfl, List.Pairwise.nil⟩

end Poll

/-! ## Both variants -/

/-- **The poll table.** In every run of either variant the table is sorted and holds what the requests made of it, a callback that is
called is that of the registration of its descriptor, and after `ospoll_remove` none is called until the descriptor is added again.
With epoll no freed entry is used, an entry that an event of the batch points to is not freed, and, when descriptors keep their
trigger while they are added again, the kernel has what is recorded for each descriptor. -/
theorem poll_table_correct (ops : List Op) (hsteady : AllSteps Epoll.step Epoll.Steady Epoll.created ops) :
    (let s := run Epoll.step Epoll.created ops
     Sorted (Epoll.fdOf s.heap) s.fds ∧ (∀ p ∈ s.fds, s.heap p ≠ none) ∧
      Epoll.table s = specRun Epoll.step Epoll.added Epoll.created ops (fun _ => Option.none) ∧
      s.fault = false ∧ (∀ b, s.batch = some b → ∀ ev ∈ b, s.heap ev.1 ≠ none) ∧
      (∀ fd, ((s.kernel fd).isSome = (Epoll.table s fd).isSome) ∧
        ∀ k r, s.kernel fd = some k → Epoll.table s fd = some r → Epoll.EpollEvent.tells k r) ∧
      (∀ call, (Epoll.turn s).2 = some call →
        ∃ r, Epoll.table s call.fd = some r ∧ r.callback = call.callback ∧ r.data = call.data) ∧
      (∀ past fd later, ops = past ++ .remove fd :: later →
        AllSteps Epoll.step (NotAdded Epoll.added fd) (run Epoll.step Epoll.created (past ++ [.remove fd])) later →
        ∀ call, (Epoll.turn s).2 = some call → call.fd ≠ fd)) ∧
    (let s := run Poll.step Poll.created ops
     Sorted PollFd.fd s.fds ∧ s.fds.length = s.osfds.length ∧
      Poll.table s = specRun Poll.step Poll.added Poll.created ops (fun _ => none) ∧
      (∀ call, (Poll.turn s).2 = some call →
        ∃ r, Poll.table s call.fd = some r ∧ r.callback = call.callback ∧ r.data = call.data) ∧
      (∀ past fd later, ops = past ++ .remove fd :: later →
        AllSteps Poll.step (NotAdded Poll.added fd) (run Poll.step Poll.created (past ++ [.remove fd])) later →
        ∀ call, (Poll.turn s).2 = some call → call.fd ≠ fd)) := by
  constructor
  · intro s
    have hkeep : ∀ (s : Epoll) (op : Op), Epoll.Sound s → Epoll.Sound (Epoll.step s op) :=
      fun s op hs => (Epoll.step_does hs op).sound
    have hstep : ∀ (s : Epoll) (op : Op), Epoll.Sound s → Epoll.table (Epoll.step s op) = specStep (Epoll.added s op) (Epoll.table s) op :=
      fun s op hs => (Epoll.step_does hs op).becomes
    have hs : Epoll.Sound s := run_invariant hkeep Epoll.created_sound ops
    have htold : Epoll.Sound s ∧ Epoll.Told s := hsteady.invariant (P := fun s => Epoll.Sound s ∧ Epoll.Told s)
      (fun s op hsteady ⟨hs, htold⟩ => ⟨hkeep s op hs, (Epoll.step_does hs op).told hsteady htold⟩)
      ⟨Epoll.created_sound, fun _ _ _ h => absurd h (by simp [Epoll.created])⟩
    have hcalls := (Epoll.turn_does hs).2
    refine ⟨hs.sorted, ?_, run_eq_specRun hkeep hstep ops Epoll.created_sound, hs.safe, ?_, ?_, hcalls, ?_⟩
    · intro p hp
      obtain ⟨o, ho, -⟩ := hs.live p hp
      simp [ho]
    · intro b hb ev hev
      rcases hs.batch b hb ev hev with hin | hparked
      · obtain ⟨o, ho, -⟩ := hs.live _ hin
        simp [ho]
      · obtain ⟨o, ho, -⟩ := hs.parked _ hparked
        simp [ho]
    · exact fun fd => ⟨Epoll.kernel_isSome hs fd, fun k r => htold.2 fd k r⟩
    · intro past fd later hops hnot call hcall
      obtain ⟨r, hr, -⟩ := hcalls call hcall
      rintro rfl
      have hgone := run_removed hkeep hstep Epoll.created_sound hops hnot
      rw [hgone] at hr
      exact absurd hr (by simp)
  · intro s
    have hkeep : ∀ (s : Poll) (op : Op), Poll.Sound s → Poll.Sound (Poll.step s op) :=
      fun s op hs => (Poll.step_does hs op).sound
    have hstep : ∀ (s : Poll) (op : Op), Poll.Sound s → Poll.table (Poll.step s op) = specStep (Poll.added s op) (Poll.table s) op :=
      fun s op hs => (Poll.step_does hs op).becomes
    have hs : Poll.Sound s := run_invariant hkeep Poll.created_sound ops
    have hcalls := (Poll.turn_does hs).2
    refine ⟨hs.sorted, hs.paired, run_eq_specRun hkeep hstep ops Poll.created_sound, hcalls, ?_⟩
    intro past fd later hops hnot call hcall
    obtain ⟨r, hr, -⟩ := hcalls call hcall
    rintro rfl
    have hgone := run_removed hkeep hstep Poll.created_sound hops hnot
    rw [hgone] at hr
    exact absurd hr (by simp)

section Examples

def memory (p : ℕ) : Resources := { entry := some p, array := true, second := true, ctl := true }

def readable : Events := { read := true, write := false, error := false }

/-- Two descriptors, one of which is removed while its event is in the batch, and added again. -/
def readded : List Op :=
  [.add 5 .level 1 10 (memory 100), .add 3 .level 2 20 (memory 101), .listen 5 readable, .listen 3 readable,
   .wait [(3, readable), (5, readable)], .turn, .remove 5, .add 5 .level 7 70 (memory 102), .turn]

theorem poll_table_example :
    AllSteps Epoll.step Epoll.Steady Epoll.created readded ∧ (run Epoll.step Epoll.created readded).fds = [101, 102] ∧
      (run Epoll.step Epoll.created readded).fault = false :=
  have hsteady : AllSteps Epoll.step Epoll.Steady Epoll.created readded := by decide +kernel
  ⟨hsteady, by decide +kernel, (poll_table_correct readded hsteady).1.2.2.2.1⟩

/-- **The kernel is not told of another trigger.** -/
theorem retriggered :
    let s := run Epoll.step Epoll.created [.add 5 .level 1 10 (memory 100), .add 5 .edge 1 10 (memory 101)]
    (Epoll.table s 5).map (·.trigger) = some .edge ∧ (s.kernel 5).map (·.edge) = some false := by
  decide +kernel

end Examples

end Xenia.Os.Ospoll
