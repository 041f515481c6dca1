import Xenia.Os.Epoll

/-!
# Runs of the poll table with epoll

`Sound`: the table is sorted, its entries are allocated and have callbacks, parked entries are allocated and have none, the kernel
has the entry of each descriptor, and events of the batch point to entries of the table or parked ones. `step_spec` says that each
request keeps it and does to the table what `specStep` says; `Told` is that the kernel knows what is listened for.
-/

namespace Xenia.Os.Ospoll

open Xenia.Lib

namespace Epoll

variable {s : Epoll} {fd fd' : ℤ} {p q : ℕ} {o : Ospollfd} {xevents : Events}

/-- What an entry is a registration of. -/
def regOf (heap : ℕ → Option Ospollfd) (p : ℕ) : Option Reg :=
  (heap p).bind fun o => o.callback.map fun callback =>
    { callback := callback, data := o.data, trigger := o.trigger, xevents := o.xevents.inOut }

/-- The entry of a descriptor. -/
def entryOf (s : Epoll) (fd : ℤ) : Option ℕ := lookup (fdOf s.heap) s.fds fd

def table (s : Epoll) : Table := fun fd => (entryOf s fd).bind (regOf s.heap)

structure Sound (s : Epoll) : Prop where
  sorted : Sorted (fdOf s.heap) s.fds
  live : ∀ p ∈ s.fds, ∃ o, s.heap p = some o ∧ o.callback.isSome = true
  parked : ∀ p ∈ s.deleted, ∃ o, s.heap p = some o ∧ o.callback = none
  kernel : ∀ fd, (s.kernel fd).map (·.ptr) = entryOf s fd
  batch : ∀ b, s.batch = some b → ∀ ev ∈ b, ev.1 ∈ s.fds ∨ ev.1 ∈ s.deleted
  safe : s.fault = false

/-- What the kernel knows of a registration: what is listened for and the trigger. -/
def EpollEvent.tells (k : EpollEvent) (r : Reg) : Prop :=
  k.read = r.xevents.read ∧ k.write = r.xevents.write ∧ k.edge = (r.trigger == .edge)

def Told (s : Epoll) : Prop := ∀ fd k r, s.kernel fd = some k → table s fd = some r → EpollEvent.tells k r

/-- Something changes for one descriptor, which the kernel is told of. -/
theorem Told.update {s' : Epoll} {k : Option EpollEvent} {r : Option Reg} (htold : Told s)
    (hkernel : s'.kernel = Function.update s.kernel fd k) (htable : table s' = Function.update (table s) fd r)
    (hnew : ∀ k', k = some k' → ∀ r', r = some r' → EpollEvent.tells k' r') : Told s' := by
  intro fd' k' r' hk hr
  rw [hkernel] at hk
  rw [htable] at hr
  rcases eq_or_ne fd' fd with rfl | hne
  · rw [Function.update_self] at hk hr
    exact hnew k' hk r' hr
  · rw [Function.update_of_ne hne] at hk hr
    exact htold fd' k' r' hk hr

/-! ## Searches -/

theorem ospoll_find_cases (hs : Sound s) (fd : ℤ) :
    (∃ before osfd after o, s.fds = before ++ osfd :: after ∧ fdOf s.heap osfd = fd ∧ ospoll_find s fd = before.length ∧
      s.heap osfd = some o ∧ o.fd = fd ∧ o.callback.isSome = true ∧ entryOf s fd = some osfd) ∨
    (∃ before after, s.fds = before ++ after ∧ (∀ p ∈ before, fdOf s.heap p < fd) ∧ (∀ p ∈ after, fd < fdOf s.heap p) ∧
      ospoll_find s fd = -(before.length + 1) ∧ entryOf s fd = none) := by
  cases bsearch_spec hs.sorted fd with
  | found before osfd after hl hkey hr =>
    have hin : osfd ∈ s.fds := hl ▸ List.mem_append_right _ List.mem_cons_self
    obtain ⟨o, ho, hcallback⟩ := hs.live osfd hin
    refine .inl ⟨before, osfd, after, o, hl, hkey, hr, ho, ?_, hcallback, ?_⟩
    · rw [← hkey]
      simp [fdOf, ho]
    · unfold entryOf
      rw [← hkey]
      exact lookup_of_mem hs.sorted hin
  | absent before after hl hbefore hafter hr =>
    refine .inr ⟨before, after, hl, hbefore, hafter, hr, lookup_eq_none.2 ?_⟩
    intro p hp
    rw [hl] at hp
    rcases List.mem_append.1 hp with hp | hp
    · exact (hbefore p hp).ne
    · exact (hafter p hp).ne'

theorem entryOf_mem (h : entryOf s fd = some p) : p ∈ s.fds ∧ fdOf s.heap p = fd := lookup_key h

theorem getD_middle {before after : List ℕ} (h : s.fds = before ++ p :: after) : s.fds.getD before.length 0 = p := by
  rw [h, List.getD_eq_getElem?_getD, List.getElem?_append_right le_rfl, Nat.sub_self]
  rfl

/-! ## Writing to an entry -/

/-- What a write keeps: the descriptor, and whether there is a callback. -/
structure Keeps (o o' : Ospollfd) : Prop where
  fd : o'.fd = o.fd
  callback : o'.callback.isSome = o.callback.isSome

variable {f : Ospollfd → Ospollfd}

theorem fdOf_modify (ho : s.heap p = some o) (hf : Keeps o (f o)) :
    fdOf (modify s p f) = fdOf s.heap := by
  funext q
  unfold fdOf modify
  rcases eq_or_ne q p with rfl | hne
  · rw [Function.update_self, ho]
    exact hf.fd
  · rw [Function.update_of_ne hne]

theorem regOf_modify_of_ne (hne : q ≠ p) : regOf (modify s p f) q = regOf s.heap q := by
  unfold regOf modify
  rw [Function.update_of_ne hne]

/-- An entry is written to. -/
theorem Sound.modify (hs : Sound s) (ho : s.heap p = some o) (hf : Keeps o (f o)) :
    Sound { s with heap := modify s p f } := by
  have hfd : fdOf (Epoll.modify s p f) = fdOf s.heap := fdOf_modify ho hf
  have hentry : ∀ q o₁, s.heap q = some o₁ → ∃ o₂, Epoll.modify s p f q = some o₂ ∧ o₂.callback.isSome = o₁.callback.isSome := by
    intro q o₁ ho₁
    unfold Epoll.modify
    rcases eq_or_ne q p with rfl | hne
    · obtain rfl : o = o₁ := Option.some.inj (ho.symm.trans ho₁)
      exact ⟨f o, by rw [Function.update_self, ho, Option.map_some], hf.callback⟩
    · exact ⟨o₁, by rw [Function.update_of_ne hne, ho₁], rfl⟩
  refine ⟨?_, ?_, ?_, ?_, hs.batch, hs.safe⟩
  · exact hfd ▸ hs.sorted
  · intro q hq
    obtain ⟨o, ho, hcallback⟩ := hs.live q hq
    obtain ⟨o', ho', hsame⟩ := hentry q o ho
    exact ⟨o', ho', hsame.trans hcallback⟩
  · intro q hq
    obtain ⟨o, ho, hcallback⟩ := hs.parked q hq
    obtain ⟨o', ho', hsame⟩ := hentry q o ho
    refine ⟨o', ho', ?_⟩
    rw [hcallback] at hsame
    exact Option.not_isSome_iff_eq_none.1 (by rw [hsame]; decide)
  · intro fd
    unfold entryOf
    dsimp only
    rw [hfd]
    exact hs.kernel fd

/-- Only the registration of its descriptor changes. -/
theorem table_modify (ho : s.heap p = some o) (hf : Keeps o (f o)) (hin : entryOf s fd = some p) :
    table { s with heap := modify s p f } = Function.update (table s) fd (regOf (modify s p f) p) := by
  have hfd : fdOf (modify s p f) = fdOf s.heap := fdOf_modify ho hf
  have hentry : ∀ fd, entryOf { s with heap := modify s p f } fd = entryOf s fd := by
    intro fd
    unfold entryOf
    rw [hfd]
  funext fd'
  unfold table
  rw [hentry]
  rcases eq_or_ne fd' fd with rfl | hne
  · rw [Function.update_self, hin]
    rfl
  · rw [Function.update_of_ne hne]
    cases hother : entryOf s fd' with
    | none => rfl
    | some q =>
      -- another descriptor has another entry
      have hneq : q ≠ p := by
        rintro rfl
        exact hne ((entryOf_mem hother).2.symm.trans (entryOf_mem hin).2)
      exact regOf_modify_of_ne hneq

/-- The kernel is told of an entry. -/
theorem epoll_mod_spec (hs : Sound s) (hin : entryOf s fd = some p) :
    Sound (epoll_mod s p) ∧ table (epoll_mod s p) = table s ∧
      (∀ fd', fd' ≠ fd → (epoll_mod s p).kernel fd' = s.kernel fd') ∧
      ∀ k r, (epoll_mod s p).kernel fd = some k → table s fd = some r → EpollEvent.tells k r := by
  obtain ⟨o, ho, -⟩ := hs.live p (entryOf_mem hin).1
  have hfd : o.fd = fd := by
    rw [← (entryOf_mem hin).2]
    simp [fdOf, ho]
  unfold epoll_mod
  rw [ho, Option.getD_some]
  dsimp only
  rw [hfd]
  refine ⟨⟨hs.sorted, hs.live, hs.parked, ?_, hs.batch, hs.safe⟩, rfl, ?_, ?_⟩
  · intro fd'
    dsimp only
    rcases eq_or_ne fd' fd with rfl | hne
    · rw [Function.update_self]
      have hkernel := hs.kernel fd'
      rw [hin] at hkernel
      change _ = entryOf s fd'
      rw [hin]
      cases hk : s.kernel fd' with
      | none => simp [hk] at hkernel
      | some k => rfl
    · rw [Function.update_of_ne hne]
      exact hs.kernel fd'
  · intro fd' hne
    exact Function.update_of_ne hne _ _
  · intro k r hk hr
    rw [Function.update_self] at hk
    obtain ⟨_, -, rfl⟩ := Option.map_eq_some_iff.1 hk
    unfold table at hr
    rw [hin, Option.bind_some] at hr
    unfold regOf at hr
    rw [ho] at hr
    obtain ⟨callback, -, rfl⟩ := Option.map_eq_some_iff.1 hr
    exact ⟨rfl, rfl, rfl⟩

/-- A write to the events of an entry, which the kernel is told of. -/
theorem modify_mod_spec (hs : Sound s) (hin : entryOf s fd = some p) (f g : Events → Events)
    (hg : ∀ xevents, (f xevents).inOut = g xevents.inOut) :
    let s' := epoll_mod { s with heap := modify s p fun o => { o with xevents := f o.xevents } } p
    Sound s' ∧ table s' = Function.update (table s) fd ((table s fd).map fun r => { r with xevents := g r.xevents }) ∧
      (Told s → Told s') := by
  obtain ⟨o, ho, hcallback⟩ := hs.live p (entryOf_mem hin).1
  have hkeeps : Keeps o { o with xevents := f o.xevents } := ⟨rfl, rfl⟩
  have hwritten := hs.modify (f := fun o => { o with xevents := f o.xevents }) ho hkeeps
  have htable := table_modify (f := fun o => { o with xevents := f o.xevents }) ho hkeeps hin
  have hreg : regOf (modify s p fun o => { o with xevents := f o.xevents }) p =
      (table s fd).map fun r => { r with xevents := g r.xevents } := by
    unfold table
    rw [hin, Option.bind_some]
    unfold regOf modify
    rw [Function.update_self, ho, Option.map_some, Option.bind_some, Option.bind_some, Option.map_map]
    cases o.callback with
    | none => rfl
    | some callback =>
      rw [Option.map_some, Option.map_some]
      dsimp only [Function.comp]
      rw [hg]
  have hentry : entryOf { s with heap := modify s p fun o => { o with xevents := f o.xevents } } fd = some p := by
    unfold entryOf
    rw [fdOf_modify ho hkeeps]
    exact hin
  obtain ⟨hsound, hsame, hothers, htells⟩ := epoll_mod_spec hwritten hentry
  rw [hreg] at htable
  refine ⟨hsound, hsame.trans htable, ?_⟩
  intro htold fd' k r hk hr
  rcases eq_or_ne fd' fd with rfl | hne
  · exact htells k r hk (hsame ▸ hr)
  · -- nothing has changed for another descriptor
    rw [hothers fd' hne] at hk
    rw [hsame, htable, Function.update_of_ne hne] at hr
    exact htold fd' k r hk hr

/-! ## Requests -/

/-- What a request does: it keeps the table sound and changes it as specified, and the kernel stays told of it. -/
structure Does (s : Epoll) (T : Table) (told : Prop) (s' : Epoll) : Prop where
  sound : Sound s'
  becomes : table s' = T
  told : told → Told s → Told s'

theorem Does.nothing (hs : Sound s) (told : Prop) : Does s (table s) told s := ⟨hs, rfl, fun _ => id⟩

theorem table_eq_none (h : entryOf s fd = none) : table s fd = none := by
  unfold table
  rw [h]
  rfl

/-- A new entry is put in where the search ended. -/
theorem insert_does (hs : Sound s) {before after : List ℕ} (hl : s.fds = before ++ after)
    (hbefore : ∀ p ∈ before, fdOf s.heap p < fd) (hafter : ∀ p ∈ after, fd < fdOf s.heap p) (hnone : entryOf s fd = none)
    (hfree : s.heap p = none) (trigger : Trigger) (callback data size : ℕ) (told : Prop) :
    Does s (Function.update (table s) fd (some { callback := callback, data := data, trigger := trigger, xevents := Events.none })) told
      { s with
        size := size
        heap := Function.update s.heap p (some
          { fd := fd, xevents := Events.none, trigger := trigger, callback := some callback, data := data })
        kernel := Function.update s.kernel fd (some { read := false, write := false, edge := trigger == .edge, ptr := p })
        fds := before ++ p :: after } := by
  -- the memory was free, so no entry of the table changes
  have hother : ∀ q, (∃ o, s.heap q = some o) → q ≠ p := by
    rintro q ⟨o, ho⟩ rfl
    rw [hfree] at ho
    exact absurd ho (by simp)
  generalize hheap : Function.update s.heap p (some
    { fd := fd, xevents := Events.none, trigger := trigger, callback := some callback, data := data }) = heap
  have hnew : heap p = some { fd := fd, xevents := Events.none, trigger := trigger, callback := some callback, data := data } := by
    rw [← hheap, Function.update_self]
  have hkeep : ∀ q, q ≠ p → heap q = s.heap q := by
    intro q hne
    rw [← hheap, Function.update_of_ne hne]
  have hin : ∀ q, q ∈ before ∨ q ∈ after → q ≠ p := by
    intro q hq
    obtain ⟨o, ho, -⟩ := hs.live q (hl ▸ List.mem_append.2 hq)
    exact hother q ⟨o, ho⟩
  have hfd : ∀ q, q ∈ before ∨ q ∈ after → fdOf heap q = fdOf s.heap q := by
    intro q hq
    unfold fdOf
    rw [hkeep q (hin q hq)]
  have hfdp : fdOf heap p = fd := by
    unfold fdOf
    rw [hnew]
    rfl
  have hlow : ∀ q ∈ before, fdOf heap q < fdOf heap p := by
    intro q hq
    rw [hfd q (.inl hq), hfdp]
    exact hbefore q hq
  have hentry : ∀ fd', lookup (fdOf heap) (before ++ p :: after) fd' = if fd = fd' then some p else entryOf s fd' := by
    intro fd'
    have hsame : ∀ q ∈ before ++ after, fdOf heap q = fdOf s.heap q := fun q hq => hfd q (List.mem_append.1 hq)
    rw [lookup_insert hlow, hfdp, lookup_congr hsame]
    unfold entryOf
    rw [hl]
  have htable : table
      { s with
        size := size
        heap := heap
        kernel := Function.update s.kernel fd (some { read := false, write := false, edge := trigger == .edge, ptr := p })
        fds := before ++ p :: after } = Function.update (table s) fd (some
          { callback := callback, data := data, trigger := trigger, xevents := Events.none }) := by
    funext fd'
    unfold table entryOf
    dsimp only
    rw [hentry]
    rcases eq_or_ne fd' fd with rfl | hne
    · rw [if_pos rfl, Function.update_self, Option.bind_some]
      unfold regOf
      rw [hnew]
      rfl
    · rw [if_neg hne.symm, Function.update_of_ne hne]
      cases hold : entryOf s fd' with
      | none =>
        unfold entryOf at hold
        rw [hold]
        rfl
      | some q =>
        have hne' : q ≠ p := by
          obtain ⟨o, ho, -⟩ := hs.live q (entryOf_mem hold).1
          exact hother q ⟨o, ho⟩
        unfold entryOf at hold
        rw [hold, Option.bind_some, Option.bind_some]
        unfold regOf
        rw [hkeep q hne']
  refine ⟨⟨?_, ?_, ?_, ?_, ?_, hs.safe⟩, ?_, ?_⟩
  · apply Sorted.insert
    · exact (hl ▸ hs.sorted).congr fun q hq => hfd q (List.mem_append.1 hq)
    · exact hlow
    · intro q hq
      rw [hfd q (.inr hq), hfdp]
      exact hafter q hq
  · intro q hq
    rcases eq_or_ne q p with rfl | hne
    · exact ⟨_, hnew, rfl⟩
    · have hold : q ∈ s.fds := by
        rw [hl]
        have := List.mem_append.1 hq
        rw [List.mem_cons] at this
        exact List.mem_append.2 (this.imp_right fun h => h.resolve_left hne)
      obtain ⟨o, ho, hcallback⟩ := hs.live q hold
      exact ⟨o, (hkeep q hne).trans ho, hcallback⟩
  · intro q hq
    obtain ⟨o, ho, hcallback⟩ := hs.parked q hq
    exact ⟨o, (hkeep q (hother q ⟨o, ho⟩)).trans ho, hcallback⟩
  · intro fd'
    unfold entryOf
    dsimp only
    rw [hentry]
    rcases eq_or_ne fd' fd with rfl | hne
    · rw [Function.update_self, if_pos rfl]
      rfl
    · rw [Function.update_of_ne hne, if_neg hne.symm]
      exact hs.kernel fd'
  · intro b hb ev hev
    rcases hs.batch b hb ev hev with hold | hparked
    · left
      rw [hl] at hold
      exact List.mem_append.2 ((List.mem_append.1 hold).imp_right (List.mem_cons_of_mem _))
    · exact .inr hparked
  · exact htable
  · intro _ htold
    apply htold.update rfl htable
    rintro _ ⟨rfl⟩ _ ⟨rfl⟩
    exact ⟨rfl, rfl, rfl⟩

/-- A descriptor that is added again keeps its trigger. -/
def Steady (s : Epoll) : Op → Prop
  | .add fd trigger _ _ _ => ∀ r, table s fd = some r → r.trigger = trigger
  | _ => True

section

variable (hs : Sound s)
include hs

theorem ospoll_add_does (fd : ℤ) (trigger : Trigger) (callback data : ℕ) (resources : Resources) :
    let r := ospoll_add s fd trigger callback data resources
    Does s (specStep r.2 (table s) (.add fd trigger callback data resources))
      (Steady s (.add fd trigger callback data resources)) r.1 := by
  have hfailed : Does s (specStep false (table s) (.add fd trigger callback data resources))
      (Steady s (.add fd trigger callback data resources)) s := .nothing hs _
  unfold ospoll_add
  rcases ospoll_find_cases hs fd with ⟨before, p, after, o, hl, -, hpos, ho, -, hcallback, hin⟩ |
    ⟨before, after, hl, hbefore, hafter, hpos, hnone⟩
  · rw [hpos]
    rw [if_neg (by omega), Int.toNat_natCast, getD_middle hl]
    have hkeeps : Keeps o { o with data := data, callback := some callback, trigger := trigger } := ⟨rfl, hcallback.symm⟩
    generalize hf : (fun o : Ospollfd => { o with data := data, callback := some callback, trigger := trigger }) = f
    have hfo : f o = { o with data := data, callback := some callback, trigger := trigger } := by rw [← hf]
    rw [← hfo] at hkeeps
    -- the entry keeps its events
    obtain ⟨old, hold⟩ := Option.isSome_iff_exists.1 hcallback
    have hreg : table s fd = some { callback := old, data := o.data, trigger := o.trigger, xevents := o.xevents.inOut } := by
      unfold table
      rw [hin, Option.bind_some]
      unfold regOf
      rw [ho, Option.bind_some, hold]
      rfl
    have htable : table { s with heap := modify s p f } =
        specStep true (table s) (.add fd trigger callback data resources) := by
      rw [table_modify ho hkeeps hin]
      rw [specStep_add, hreg]
      congr 1
      unfold regOf modify
      rw [Function.update_self, ho, Option.map_some, hfo]
      rfl
    refine ⟨hs.modify ho hkeeps, htable, ?_⟩
    intro hsteady htold
    have hsame : ({ s with heap := modify s p f } : Epoll).kernel = Function.update s.kernel fd (s.kernel fd) :=
      (Function.update_eq_self fd s.kernel).symm
    apply htold.update hsame htable
    rintro k hk _ ⟨rfl⟩
    obtain ⟨hread, hwrite, hedge⟩ := htold fd k _ hk hreg
    rw [hreg]
    refine ⟨hread, hwrite, ?_⟩
    rw [hedge]
    exact congrArg (· == .edge) (hsteady _ hreg)
  · rw [hpos]
    rw [if_pos (by omega)]
    cases hentry : calloc s resources.entry with
    | none => exact hfailed
    | some p =>
      have hfree : s.heap p = none := by
        have := (Option.filter_eq_some_iff.1 hentry).2
        simpa using this
      have hinsert : s.fds.insertIdx (-(-((before.length : ℤ) + 1)) - 1).toNat p = before ++ p :: after := by
        have hposition : (-(-((before.length : ℤ) + 1)) - 1).toNat = before.length := by omega
        rw [hl, hposition, insertIdx_append]
      have hnew := insert_does hs hl hbefore hafter hnone hfree trigger callback data
        (if s.fds.length ≥ s.size then grow s.size else s.size) (Steady s (.add fd trigger callback data resources))
      have hsize : (if s.fds.length ≥ s.size then { s with size := grow s.size } else s) =
          { s with size := if s.fds.length ≥ s.size then grow s.size else s.size } := by
        split <;> rfl
      have hspec : specStep true (table s) (.add fd trigger callback data resources) =
          Function.update (table s) fd (some { callback := callback, data := data, trigger := trigger, xevents := Events.none }) := by
        rw [specStep_add, table_eq_none hnone]
        rfl
      dsimp only
      split
      · exact hfailed
      · split
        · -- the array stays larger
          rw [hsize]
          exact ⟨⟨hs.sorted, hs.live, hs.parked, hs.kernel, hs.batch, hs.safe⟩, rfl, fun _ => id⟩
        · rw [hsize]
          rw [hinsert, hspec]
          exact hnew

theorem ospoll_remove_does (fd : ℤ) : Does s (specStep false (table s) (.remove fd)) True (ospoll_remove s fd) := by
  change Does s (Function.update (table s) fd none) True (ospoll_remove s fd)
  unfold ospoll_remove
  rcases ospoll_find_cases hs fd with ⟨before, p, after, o, hl, hfd, hpos, ho, -, hcallback, hin⟩ |
    ⟨before, after, hl, hbefore, hafter, hpos, hnone⟩
  · rw [hpos]
    dsimp only
    rw [if_pos (by omega), Int.toNat_natCast, getD_middle hl]
    have herase : s.fds.eraseIdx before.length = before ++ after := by rw [hl, eraseIdx_append]
    rw [herase]
    have hsorted : Sorted (fdOf s.heap) (before ++ p :: after) := hl ▸ hs.sorted
    generalize hheap : modify s p (fun o => { o with callback := none, data := 0 }) = heap
    have hgone : heap p = some { o with callback := none, data := 0 } := by
      rw [← hheap]
      unfold modify
      rw [Function.update_self, ho]
      rfl
    have hkeep : ∀ q, q ≠ p → heap q = s.heap q := by
      intro q hne
      rw [← hheap]
      exact Function.update_of_ne hne _ _
    have hfds : fdOf heap = fdOf s.heap := by
      funext q
      unfold fdOf
      rcases eq_or_ne q p with rfl | hne
      · rw [hgone, ho]
        rfl
      · rw [hkeep q hne]
    have hrest : ∀ q ∈ before ++ after, q ≠ p ∧ q ∈ s.fds := by
      intro q hq
      refine ⟨?_, ?_⟩
      · rintro rfl
        have hlookup := lookup_erase hsorted (fdOf s.heap q)
        rw [if_pos rfl] at hlookup
        exact lookup_eq_none.1 hlookup q hq rfl
      · rw [hl]
        exact List.mem_append.2 ((List.mem_append.1 hq).imp_right (List.mem_cons_of_mem _))
    have hentry : ∀ fd', lookup (fdOf heap) (before ++ after) fd' = if fd = fd' then none else entryOf s fd' := by
      intro fd'
      rw [hfds, lookup_erase hsorted, hfd]
      unfold entryOf
      rw [hl]
    have htable : table
        { s with
          kernel := Function.update s.kernel fd none
          fds := before ++ after
          heap := heap
          deleted := p :: s.deleted } = Function.update (table s) fd none := by
      funext fd'
      unfold table entryOf
      dsimp only
      rw [hentry]
      rcases eq_or_ne fd' fd with rfl | hne
      · rw [if_pos rfl, Function.update_self]
        rfl
      · rw [if_neg hne.symm, Function.update_of_ne hne]
        cases hold : entryOf s fd' with
        | none =>
          unfold entryOf at hold
          rw [hold]
          rfl
        | some q =>
          have hne' : q ≠ p := by
            rintro rfl
            exact hne ((entryOf_mem hold).2.symm.trans hfd)
          unfold entryOf at hold
          rw [hold, Option.bind_some, Option.bind_some]
          unfold regOf
          rw [hkeep q hne']
    refine ⟨⟨?_, ?_, ?_, ?_, ?_, hs.safe⟩, htable, ?_⟩
    · rw [hfds]
      exact hsorted.erase
    · intro q hq
      obtain ⟨hne, hold⟩ := hrest q hq
      obtain ⟨o', ho', hcallback'⟩ := hs.live q hold
      exact ⟨o', (hkeep q hne).trans ho', hcallback'⟩
    · intro q hq
      rcases List.mem_cons.1 hq with rfl | hq
      · exact ⟨_, hgone, rfl⟩
      · obtain ⟨o', ho', hcallback'⟩ := hs.parked q hq
        have hne : q ≠ p := by
          rintro rfl
          rw [ho] at ho'
          rw [Option.some.inj ho', hcallback'] at hcallback
          exact absurd hcallback (by decide)
        exact ⟨o', (hkeep q hne).trans ho', hcallback'⟩
    · intro fd'
      unfold entryOf
      dsimp only
      rw [hentry]
      rcases eq_or_ne fd' fd with rfl | hne
      · rw [Function.update_self, if_pos rfl]
        rfl
      · rw [Function.update_of_ne hne, if_neg hne.symm]
        exact hs.kernel fd'
    · intro b hb ev hev
      rcases hs.batch b hb ev hev with hold | hparked
      · rcases eq_or_ne ev.1 p with heq | hne
        · exact .inr (heq ▸ List.mem_cons_self)
        · left
          rw [hl] at hold
          refine List.mem_append.2 ((List.mem_append.1 hold).imp_right fun h => ?_)
          exact (List.mem_cons.1 h).resolve_left hne
      · exact .inr (List.mem_cons_of_mem _ hparked)
    · intro _ htold
      apply htold.update rfl htable
      intro k hk
      exact absurd hk (by simp)
  · rw [hpos]
    have hsame : Function.update (table s) fd none = table s := by
      rw [← table_eq_none hnone]
      exact Function.update_eq_self fd (table s)
    rw [hsame]
    exact .nothing hs True

/-- `ospoll_listen` and `ospoll_mute`: a change of the events of an entry. -/
theorem events_does (fd : ℤ) (f g : Events → Events) (hg : ∀ xevents, (f xevents).inOut = g xevents.inOut) :
    Does s (Function.update (table s) fd ((table s fd).map fun r => { r with xevents := g r.xevents })) True
      (if ospoll_find s fd ≥ 0 then
        epoll_mod { s with heap := modify s (s.fds.getD (ospoll_find s fd).toNat 0) fun o => { o with xevents := f o.xevents } }
          (s.fds.getD (ospoll_find s fd).toNat 0)
      else s) := by
  rcases ospoll_find_cases hs fd with ⟨before, p, after, o, hl, -, hpos, -, -, -, hin⟩ | ⟨before, after, -, -, -, hpos, hnone⟩
  · rw [hpos, Int.toNat_natCast, getD_middle hl]
    obtain ⟨hsound, htable, htold⟩ := modify_mod_spec hs hin f g hg
    exact ⟨hsound, htable, fun _ => htold⟩
  · rw [hpos, table_eq_none hnone]
    have hsame : Function.update (table s) fd (Option.map (fun r : Reg => { r with xevents := g r.xevents }) none) = table s := by
      rw [Option.map_none, ← table_eq_none hnone]
      exact Function.update_eq_self fd (table s)
    rw [hsame]
    exact .nothing hs True

/-! ## Events -/

theorem wait_does (reported : List (ℤ × Events)) : Does s (table s) True (wait s reported) := by
  unfold wait
  split
  · exact .nothing hs True
  · refine ⟨⟨hs.sorted, hs.live, hs.parked, hs.kernel, ?_, hs.safe⟩, rfl, fun _ => id⟩
    rintro b ⟨rfl⟩ ev hev
    -- the kernel has the entries of the table
    obtain ⟨r, -, hr⟩ := List.mem_filterMap.1 hev
    obtain ⟨k, hk, rfl⟩ := Option.map_eq_some_iff.1 hr
    have hentry := hs.kernel r.1
    rw [hk] at hentry
    exact .inl (entryOf_mem hentry.symm).1

/-- The parked entries are freed after the batch; none of them is in the table. -/
theorem clean_does : Does s (table s) True { ospoll_clean_deleted s with batch := none } := by
  unfold ospoll_clean_deleted
  generalize hheap : (fun p => if p ∈ s.deleted then none else s.heap p) = heap
  have hkeep : ∀ p ∈ s.fds, heap p = s.heap p := by
    intro p hp
    rw [← hheap]
    apply if_neg
    intro hparked
    obtain ⟨o, ho, hcallback⟩ := hs.live p hp
    obtain ⟨o', ho', hnone⟩ := hs.parked p hparked
    rw [ho] at ho'
    rw [Option.some.inj ho', hnone] at hcallback
    exact absurd hcallback (by decide)
  have hfd : ∀ p ∈ s.fds, fdOf heap p = fdOf s.heap p := by
    intro p hp
    unfold fdOf
    rw [hkeep p hp]
  have hentry : ∀ fd, lookup (fdOf heap) s.fds fd = entryOf s fd := fun fd => lookup_congr hfd fd
  have htable : table { s with heap := heap, deleted := [], batch := none } = table s := by
    funext fd
    change (lookup (fdOf heap) s.fds fd).bind (regOf heap) = (entryOf s fd).bind (regOf s.heap)
    rw [hentry]
    cases hold : entryOf s fd with
    | none => rfl
    | some p =>
      rw [Option.bind_some, Option.bind_some]
      unfold regOf
      rw [hkeep p (entryOf_mem hold).1]
  refine ⟨⟨hs.sorted.congr hfd, ?_, ?_, ?_, ?_, hs.safe⟩, htable, ?_⟩
  · intro p hp
    obtain ⟨o, ho, hcallback⟩ := hs.live p hp
    exact ⟨o, (hkeep p hp).trans ho, hcallback⟩
  · intro p hp
    exact absurd hp List.not_mem_nil
  · intro fd
    exact (hs.kernel fd).trans (hentry fd).symm
  · intro b hb
    exact absurd hb (by simp)
  · intro _ htold fd k r hk hr
    rw [htable] at hr
    exact htold fd k r hk hr

/-- **A turn of the loop.** No freed memory is used, and what is called is the callback of the registration of the descriptor. -/
theorem turn_does :
    Does s (table s) True (turn s).1 ∧
      ∀ call, (turn s).2 = some call → ∃ r, table s call.fd = some r ∧ r.callback = call.callback ∧ r.data = call.data := by
  unfold turn
  split
  · exact ⟨.nothing hs True, fun call h => absurd h (by simp)⟩
  · exact ⟨clean_does hs, fun call h => absurd h (by simp)⟩
  next ev rest hbatch =>
    have hev := hs.batch _ hbatch ev List.mem_cons_self
    have hlater : Sound { s with batch := some rest } := by
      refine ⟨hs.sorted, hs.live, hs.parked, hs.kernel, ?_, hs.safe⟩
      rintro b ⟨rfl⟩ ev' hev'
      exact hs.batch _ hbatch ev' (List.mem_cons_of_mem _ hev')
    rcases hev with hin | hparked
    · obtain ⟨o, ho, hcallback⟩ := hs.live ev.1 hin
      rw [ho]
      refine ⟨⟨hlater, rfl, fun _ => id⟩, ?_⟩
      intro call hcall
      obtain ⟨callback, hsome, rfl⟩ := Option.map_eq_some_iff.1 hcall
      have hentry : entryOf s o.fd = some ev.1 := by
        have hkey : fdOf s.heap ev.1 = o.fd := by
          unfold fdOf
          rw [ho]
          rfl
        rw [← hkey]
        exact lookup_of_mem hs.sorted hin
      refine ⟨{ callback := callback, data := o.data, trigger := o.trigger, xevents := o.xevents.inOut }, ?_, rfl, rfl⟩
      unfold table
      rw [hentry, Option.bind_some]
      unfold regOf
      rw [ho, Option.bind_some, hsome]
      rfl
    · obtain ⟨o, ho, hcallback⟩ := hs.parked ev.1 hparked
      rw [ho]
      refine ⟨⟨hlater, rfl, fun _ => id⟩, ?_⟩
      intro call hcall
      dsimp only at hcall
      rw [hcallback] at hcall
      exact absurd hcall (by simp)

/-- **A request** keeps the table sound and changes it as specified. -/
theorem step_does (op : Op) : Does s (specStep (added s op) (table s) op) (Steady s op) (step s op) := by
  have hweak : ∀ {T : Table} {s' : Epoll}, Does s T True s' → Does s T (Steady s op) s' :=
    fun h => ⟨h.sound, h.becomes, fun _ => h.told trivial⟩
  cases op with
  | add fd trigger callback data resources => exact ospoll_add_does hs fd trigger callback data resources
  | remove fd => exact hweak (ospoll_remove_does hs fd)
  | listen fd xevents =>
    exact hweak (events_does hs fd (fun e => e.union xevents) (fun e => e.union xevents.inOut) fun _ => rfl)
  | mute fd xevents =>
    exact hweak (events_does hs fd (fun e => e.diff xevents) (fun e => e.diff xevents.inOut) fun _ => rfl)
  | reset_events fd => exact .nothing hs _
  | wait reported => exact hweak (wait_does hs reported)
  | turn => exact hweak (turn_does hs).1

end

theorem created_sound : Sound created :=
  ⟨List.Pairwise.nil, fun _ h => absurd h List.not_mem_nil, fun _ h => absurd h List.not_mem_nil, fun _ => rfl,
    fun _ h => absurd h (by simp [created]), rfl⟩

/-- The kernel has the descriptors of the table. -/
theorem kernel_isSome (hs : Sound s) (fd : ℤ) : (s.kernel fd).isSome = (table s fd).isSome := by
  rw [← Option.isSome_map (f := (·.ptr)), hs.kernel fd]
  unfold table
  cases hentry : entryOf s fd with
  | none => rfl
  | some p =>
    obtain ⟨o, ho, hcallback⟩ := hs.live p (entryOf_mem hentry).1
    rw [Option.bind_some]
    unfold regOf
    rw [ho, Option.bind_some, Option.isSome_map, hcallback]
    rfl

instance Steady.decidable (s : Epoll) : ∀ op, Decidable (Steady s op)
  | .add fd trigger _ _ _ =>
    match h : table s fd with
    | none => isTrue fun r hr => absurd (h.symm.trans hr) (by simp)
    | some r =>
      decidable_of_iff (r.trigger = trigger)
        ⟨fun heq r' hr => Option.some.inj (h.symm.trans hr) ▸ heq, fun hall => hall r h⟩
  | .remove _ | .listen _ _ | .mute _ _ | .reset_events _ | .wait _ | .turn => isTrue trivial

end Epoll

end Xenia.Os.Ospoll
