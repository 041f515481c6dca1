import Xenia.Dix.ServerGrab

/-!
# The ready list during a server grab

`Lists` is what holds of the two lists, the flags and the polled connections: every client on the ready list is one that
`listen_to_client` lets through, and every client set aside is one that it does not. `Lists.change` says what a change of one
client has to keep; each function that changes one client is an instance.
-/

namespace Xenia.Dix.ServerGrab

open Xenia.Lib List Option Function

variable {s s' : GrabState} {i j h : ℕ} {c c' : Client} {request : Request} {access : Bool}

/-! ## The invariant -/

/-- A client is polled as it should be, and it is on a list when it has to be. -/
structure Polled (s : GrabState) (i : ℕ) (c : Client) : Prop where
  index : i ≠ 0
  nonneg : 0 ≤ c.ignoreCount
  ignored : c.ignored = decide (0 < c.ignoreCount)
  listening : c.listening = listen_to_client s.GrabInProgress i c
  listed : c.ignored = false → i ∈ s.woken ∨ (c.impervious = true ∧ c.input ≠ []) → i ∈ s.ready ∨ i ∈ s.saved

structure Lists (s : GrabState) : Prop where
  progress : s.GrabInProgress = s.grabClient.getD 0
  holder : ∀ h, s.grabClient = some h → (s.clients h).isSome
  nodup : (s.ready ++ s.saved).Nodup
  ready : ∀ i ∈ s.ready, ∃ c, s.clients i = some c ∧ listen_to_client s.GrabInProgress i c = true
  saved : ∀ i ∈ s.saved, ∃ c, s.clients i = some c ∧ c.ignored = false ∧ listen_to_client s.GrabInProgress i c = false
  client : ∀ i c, s.clients i = some c → Polled s i c

theorem linked_iff : s.linked i = true ↔ i ∈ s.ready ∨ i ∈ s.saved := by
  simp [GrabState.linked]

/-- Only the ignored are not listened to when no client has the grab. -/
theorem listen_zero : listen_to_client 0 i c = !c.ignored := by
  unfold listen_to_client
  cases c.ignored <;> simp

variable {GrabInProgress : ℕ}

theorem listen_ignored (hignored : c.ignored = true) :
    listen_to_client GrabInProgress i c = false := by
  unfold listen_to_client
  rw [if_pos hignored]

theorem not_ignored (hlisten : listen_to_client GrabInProgress i c = true) : c.ignored = false := by
  by_contra hignored
  rw [listen_ignored (by simpa using hignored)] at hlisten
  exact absurd hlisten (by decide)

theorem listen_iff (hignored : c.ignored = false) :
    listen_to_client GrabInProgress i c = true ↔ GrabInProgress = 0 ∨ i = GrabInProgress ∨ c.impervious = true := by
  unfold listen_to_client
  split
  · simp_all
  · split
    · simp_all
    · simp_all

/-- A client that is on a list is not ignored. -/
theorem Lists.linked_not_ignored (hs : Lists s) (hi : s.clients i = some c) (hlinked : i ∈ s.ready ∨ i ∈ s.saved) :
    c.ignored = false := by
  rcases hlinked with hready | hsaved
  · obtain ⟨c', hc', hlisten⟩ := hs.ready i hready
    obtain rfl : c = c' := some.inj (hi.symm.trans hc')
    exact not_ignored hlisten
  · obtain ⟨c', hc', hignored, -⟩ := hs.saved i hsaved
    obtain rfl : c = c' := some.inj (hi.symm.trans hc')
    exact hignored

/-- A client that is listened to is not set aside. -/
theorem Lists.not_saved (hs : Lists s) (hi : s.clients i = some c)
    (hlisten : listen_to_client s.GrabInProgress i c = true) : i ∉ s.saved := by
  intro hsaved
  obtain ⟨c', hc', -, hfalse⟩ := hs.saved i hsaved
  obtain rfl : c = c' := some.inj (hi.symm.trans hc')
  rw [hlisten] at hfalse
  exact absurd hfalse (by decide)

/-! ## One client changes -/

/-- What is left as it was when one client changes. -/
structure OneChanged (s s' : GrabState) (i : ℕ) (c' : Client) : Prop where
  clients : s'.clients = Function.update s.clients i (some c')
  progress : s'.GrabInProgress = s.GrabInProgress
  holder : s'.grabClient = s.grabClient
  ready : ∀ j, j ≠ i → (j ∈ s'.ready ↔ j ∈ s.ready)
  saved : ∀ j, j ≠ i → (j ∈ s'.saved ↔ j ∈ s.saved)
  woken : ∀ j, j ≠ i → j ∈ s'.woken → j ∈ s.woken

variable (c') in
theorem Lists.change (hs : Lists s) (hi : s.clients i = some c) (hone : OneChanged s s' i c')
    (hnodup : (s'.ready ++ s'.saved).Nodup)
    (hready : i ∈ s'.ready → listen_to_client s.GrabInProgress i c' = true)
    (hsaved : i ∈ s'.saved → c'.ignored = false ∧ listen_to_client s.GrabInProgress i c' = false)
    (hpolled : Polled s' i c') : Lists s' := by
  have hat : s'.clients i = some c' := by rw [hone.clients, update_self]
  have hother : ∀ j, j ≠ i → s'.clients j = s.clients j := fun j hne => by
    rw [hone.clients, update_of_ne hne]
  refine ⟨?_, fun h hh => ?_, hnodup, fun j hj => ?_, fun j hj => ?_, fun j d hd => ?_⟩
  · rw [hone.progress, hone.holder]
    exact hs.progress
  · rw [hone.holder] at hh
    rcases eq_or_ne h i with rfl | hne
    · rw [hat]
      rfl
    · rw [hother h hne]
      exact hs.holder h hh
  · rw [hone.progress]
    rcases eq_or_ne j i with rfl | hne
    · exact ⟨c', hat, hready hj⟩
    · rw [hother j hne]
      exact hs.ready j ((hone.ready j hne).1 hj)
  · rw [hone.progress]
    rcases eq_or_ne j i with rfl | hne
    · exact ⟨c', hat, hsaved hj⟩
    · rw [hother j hne]
      exact hs.saved j ((hone.saved j hne).1 hj)
  · rcases eq_or_ne j i with rfl | hne
    · obtain rfl : c' = d := some.inj (hat.symm.trans hd)
      exact hpolled
    · rw [hother j hne] at hd
      have hp := hs.client j d hd
      refine ⟨hp.index, hp.nonneg, hp.ignored, ?_, fun hignored hmust => ?_⟩
      · rw [hone.progress]
        exact hp.listening
      · rw [hone.ready j hne, hone.saved j hne]
        exact hp.listed hignored (hmust.imp_left (hone.woken j hne))

variable {f : Client → Client}

/-- A record changes, and the lists stay. -/
theorem OneChanged.modify (hi : s.clients i = some c) : OneChanged s (s.modify i f) i (f c) where
  clients := by
    unfold GrabState.modify
    rw [hi]
    rfl
  progress := rfl
  holder := rfl
  ready := fun _ _ => Iff.rfl
  saved := fun _ _ => Iff.rfl
  woken := fun _ _ hj => hj

theorem modify_clients (hi : s.clients i = some c) (f : Client → Client) :
    (s.modify i f).clients = update s.clients i (some (f c)) := (OneChanged.modify hi).clients

/-- Two changes of one client in a row. -/
theorem modify_modify (hi : s.clients i = some c) (f g : Client → Client) :
    (s.modify i f).modify i g = s.modify i (g ∘ f) := by
  unfold GrabState.modify
  simp [hi]

/-- A change of the record that polls the client and leaves it on the lists where it may be. -/
theorem Lists.modify (hs : Lists s) (hi : s.clients i = some c)
    (hlisten : listen_to_client s.GrabInProgress i (f c) = listen_to_client s.GrabInProgress i c)
    (hignored : (f c).ignored = c.ignored) (hcount : (f c).ignoreCount = c.ignoreCount) (hlistening : (f c).listening = c.listening)
    (hlisted : c.ignored = false → (f c).impervious = true → (f c).input ≠ [] →
      (c.impervious = true ∧ c.input ≠ []) ∨ i ∈ s.ready ∨ i ∈ s.saved) : Lists (s.modify i f) := by
  have hp := hs.client i c hi
  refine hs.change _ hi (OneChanged.modify hi) hs.nodup (fun hready => ?_) (fun hsaved => ?_) ⟨hp.index, ?_, ?_, ?_, ?_⟩
  · obtain ⟨c', hc', htrue⟩ := hs.ready i hready
    obtain rfl : c = c' := some.inj (hi.symm.trans hc')
    rw [hlisten]
    exact htrue
  · obtain ⟨c', hc', hno, hfalse⟩ := hs.saved i hsaved
    obtain rfl : c = c' := some.inj (hi.symm.trans hc')
    rw [hlisten, hignored]
    exact ⟨hno, hfalse⟩
  · rw [hcount]
    exact hp.nonneg
  · rw [hignored, hcount]
    exact hp.ignored
  · rw [hlistening]
    exact hp.listening.trans hlisten.symm
  · intro hno hmust
    rw [hignored] at hno
    rcases hmust with hwoken | ⟨himpervious, hinput⟩
    · exact hp.listed hno (.inl hwoken)
    · rcases hlisted hno himpervious hinput with hmust | hlinked
      · exact hp.listed hno (.inr hmust)
      · exact hlinked

/-! ## Marks -/

theorem mark_client_ready_eq (hnot : ¬(i ∈ s.ready ∨ i ∈ s.saved)) :
    mark_client_ready s i = { s with ready := s.ready ++ [i] } := by
  unfold mark_client_ready
  rw [if_neg (by rwa [linked_iff])]

theorem mark_client_ready_linked (hlinked : i ∈ s.ready ∨ i ∈ s.saved) : mark_client_ready s i = s := by
  unfold mark_client_ready
  rw [if_pos (linked_iff.2 hlinked)]

/-- A client that is listened to is marked ready. -/
theorem Lists.mark_ready (hs : Lists s) (hi : s.clients i = some c)
    (hlisten : listen_to_client s.GrabInProgress i c = true) :
    Lists (mark_client_ready s i) ∧ i ∈ (mark_client_ready s i).ready := by
  by_cases hlinked : i ∈ s.ready ∨ i ∈ s.saved
  · rw [mark_client_ready_linked hlinked]
    exact ⟨hs, hlinked.resolve_right (hs.not_saved hi hlisten)⟩
  · rw [mark_client_ready_eq hlinked]
    have hp := hs.client i c hi
    rw [not_or] at hlinked
    have hone : OneChanged s { s with ready := s.ready ++ [i] } i c :=
      ⟨by simp [← hi], rfl, rfl, fun j hne => by simp [hne], fun _ _ => Iff.rfl, fun _ _ hj => hj⟩
    refine ⟨hs.change _ hi hone ?_ (fun _ => hlisten) (fun hsaved => absurd hsaved hlinked.2)
      ⟨hp.index, hp.nonneg, hp.ignored, hp.listening, fun _ _ => .inl (by simp)⟩, by simp⟩
    have hnodup := hs.nodup
    rw [append_assoc]
    refine (perm_middle.nodup_iff).2 (nodup_cons.2 ⟨?_, hnodup⟩)
    rw [mem_append]
    exact not_or.2 hlinked

theorem Lists.not_ready_nodup (hs : Lists s) (i : ℕ) :
    ((mark_client_not_ready s i).ready ++ (mark_client_not_ready s i).saved).Nodup ∧
      i ∉ (mark_client_not_ready s i).ready ∧ i ∉ (mark_client_not_ready s i).saved := by
  have hnodup := hs.nodup
  have hparts := nodup_append.1 hnodup
  refine ⟨hnodup.sublist ((erase_sublist).append (erase_sublist)), ?_, ?_⟩
  · exact hparts.1.not_mem_erase
  · exact hparts.2.1.not_mem_erase

theorem mem_not_ready (hne : j ≠ i) :
    (j ∈ (mark_client_not_ready s i).ready ↔ j ∈ s.ready) ∧ (j ∈ (mark_client_not_ready s i).saved ↔ j ∈ s.saved) :=
  ⟨mem_erase_of_ne hne, mem_erase_of_ne hne⟩

/-- A client that need not be on a list is taken off. -/
theorem Lists.mark_not_ready (hs : Lists s) (hi : s.clients i = some c)
    (hfree : c.ignored = false → ¬(i ∈ s.woken ∨ (c.impervious = true ∧ c.input ≠ []))) :
    Lists (mark_client_not_ready s i) := by
  have hp := hs.client i c hi
  obtain ⟨hnodup, hready, hsaved⟩ := hs.not_ready_nodup i
  have hone : OneChanged s (mark_client_not_ready s i) i c :=
    ⟨by simp [mark_client_not_ready, ← hi], rfl, rfl, fun j hne => (mem_not_ready hne).1, fun j hne => (mem_not_ready hne).2,
      fun _ _ hj => hj⟩
  exact hs.change _ hi hone hnodup (fun hin => absurd hin hready) (fun hin => absurd hin hsaved)
    ⟨hp.index, hp.nonneg, hp.ignored, hp.listening, fun hignored hmust => absurd hmust (hfree hignored)⟩

/-! ## Ignoring and attending -/

theorem IgnoreClient_again (hi : s.clients i = some c) (hcount : 0 < c.ignoreCount) :
    IgnoreClient s i = s.modify i fun c => { c with ignoreCount := c.ignoreCount + 1 } := by
  unfold IgnoreClient
  rw [hi]
  dsimp only
  rw [if_pos (by omega)]

/-- The record of a client that gets ignored. -/
def Client.hide (GrabInProgress i : ℕ) (c : Client) : Client :=
  Client.poll GrabInProgress i { c with ignoreCount := c.ignoreCount + 1, ignored := true }

theorem IgnoreClient_first (hi : s.clients i = some c) (hcount : c.ignoreCount = 0) :
    IgnoreClient s i = (mark_client_not_ready s i).modify i (Client.hide s.GrabInProgress i) := by
  unfold IgnoreClient
  rw [hi]
  dsimp only
  rw [if_neg (by omega)]
  unfold set_poll_client mark_client_not_ready GrabState.modify
  simp [hi, Client.hide]

theorem Lists.ignore (hs : Lists s) (hi : s.clients i = some c) : Lists (IgnoreClient s i) := by
  have hp := hs.client i c hi
  rcases hp.nonneg.lt_or_eq with hcount | hcount
  · rw [IgnoreClient_again hi hcount]
    have hignored : c.ignored = true := by rw [hp.ignored]; exact decide_eq_true hcount
    refine hs.change _ hi (OneChanged.modify hi) hs.nodup (fun hready => ?_) (fun hsaved => ?_)
      ⟨hp.index, ?_, ?_, hp.listening, fun hno => ?_⟩
    · have := hs.linked_not_ignored hi (.inl hready)
      rw [hignored] at this
      exact absurd this (by decide)
    · have := hs.linked_not_ignored hi (.inr hsaved)
      rw [hignored] at this
      exact absurd this (by decide)
    · dsimp only
      omega
    · dsimp only
      rw [hignored, eq_comm, decide_eq_true_eq]
      omega
    · exact absurd hno (by simp [hignored])
  · rw [IgnoreClient_first hi hcount.symm]
    obtain ⟨hnodup, hready, hsaved⟩ := hs.not_ready_nodup i
    have hone : OneChanged s ((mark_client_not_ready s i).modify i (Client.hide s.GrabInProgress i)) i
        (c.hide s.GrabInProgress i) :=
      ⟨modify_clients (s := mark_client_not_ready s i) hi _, rfl, rfl, fun j hne => (mem_not_ready hne).1,
        fun j hne => (mem_not_ready hne).2, fun _ _ hj => hj⟩
    refine hs.change _ hi hone hnodup (fun hin => absurd hin hready) (fun hin => absurd hin hsaved)
      ⟨hp.index, ?_, ?_, rfl, fun hno => ?_⟩
    · unfold Client.hide Client.poll
      dsimp only
      omega
    · unfold Client.hide Client.poll
      dsimp only
      rw [eq_comm, decide_eq_true_eq]
      omega
    · exact absurd hno (by simp [Client.hide, Client.poll])

theorem AttendClient_again (hi : s.clients i = some c) (hcount : c.ignoreCount ≠ 1) :
    AttendClient s i = s.modify i fun c => { c with ignoreCount := c.ignoreCount - 1 } := by
  unfold AttendClient
  rw [hi]
  dsimp only
  rw [if_pos (by omega)]

/-- The record of a client that is attended again. -/
def Client.show (GrabInProgress i : ℕ) (c : Client) : Client :=
  Client.poll GrabInProgress i { c with ignoreCount := c.ignoreCount - 1, ignored := false }

theorem AttendClient_last (hi : s.clients i = some c) (hcount : c.ignoreCount = 1) :
    AttendClient s i =
      if listen_to_client s.GrabInProgress i (c.show s.GrabInProgress i) then
        mark_client_ready (s.modify i (Client.show s.GrabInProgress i)) i
      else mark_client_saved_ready (s.modify i (Client.show s.GrabInProgress i)) i := by
  unfold AttendClient
  rw [hi]
  dsimp only
  rw [if_neg (by omega)]
  unfold set_poll_client GrabState.modify
  simp [hi, Client.show]

theorem Lists.attend (hs : Lists s) (hi : s.clients i = some c) (hcount : 1 ≤ c.ignoreCount) :
    Lists (AttendClient s i) ∧ (c.ignoreCount = 1 → i ∈ (AttendClient s i).ready ∨ i ∈ (AttendClient s i).saved) := by
  have hp := hs.client i c hi
  have hignored : c.ignored = true := by rw [hp.ignored, decide_eq_true_eq]; omega
  have hnone : ¬(i ∈ s.ready ∨ i ∈ s.saved) := fun hlinked => by
    have := hs.linked_not_ignored hi hlinked
    rw [hignored] at this
    exact absurd this (by decide)
  rw [not_or] at hnone
  by_cases hlast : c.ignoreCount = 1
  · rw [AttendClient_last hi hlast]
    set shown := c.show s.GrabInProgress i with hshown
    -- the lists as they were, with the client about to be put on one of them
    have hmark : ∀ s' : GrabState, s'.clients = (s.modify i (Client.show s.GrabInProgress i)).clients →
        s'.GrabInProgress = s.GrabInProgress → s'.grabClient = s.grabClient → s'.woken = s.woken →
        (s'.ready = s.ready ++ [i] ∧ s'.saved = s.saved ∧ listen_to_client s.GrabInProgress i shown = true) ∨
          (s'.ready = s.ready ∧ s'.saved = s.saved ++ [i] ∧ listen_to_client s.GrabInProgress i shown = false) →
        Lists s' ∧ (i ∈ s'.ready ∨ i ∈ s'.saved) := by
      intro s' hclients hprogress hholder hwoken hlists
      have hlinked : i ∈ s'.ready ∨ i ∈ s'.saved := by
        rcases hlists with ⟨hready, -, -⟩ | ⟨-, hsaved, -⟩
        · exact .inl (by simp [hready])
        · exact .inr (by simp [hsaved])
      refine ⟨hs.change shown hi ⟨?_, hprogress, hholder, fun j hne => ?_, fun j hne => ?_, fun j _ hj => ?_⟩
        ?_ (fun hready => ?_) (fun hsaved => ?_) ⟨hp.index, ?_, ?_, ?_, fun _ _ => hlinked⟩, hlinked⟩
      · rw [hclients, modify_clients hi]
      · rcases hlists with ⟨hready, -, -⟩ | ⟨hready, -, -⟩ <;> simp [hready, hne]
      · rcases hlists with ⟨-, hsaved, -⟩ | ⟨-, hsaved, -⟩ <;> simp [hsaved, hne]
      · rwa [hwoken] at hj
      · have hperm : (s'.ready ++ s'.saved).Perm (i :: (s.ready ++ s.saved)) := by
          rcases hlists with ⟨hready, hsaved, -⟩ | ⟨hready, hsaved, -⟩
          · rw [hready, hsaved, append_assoc]
            exact perm_middle
          · rw [hready, hsaved, ← append_assoc]
            exact perm_append_singleton _ _
        rw [hperm.nodup_iff, nodup_cons, mem_append]
        exact ⟨not_or.2 hnone, hs.nodup⟩
      · rcases hlists with ⟨-, -, hlisten⟩ | ⟨hsame, -, -⟩
        · exact hlisten
        · rw [hsame] at hready
          exact absurd hready hnone.1
      · rcases hlists with ⟨-, hsame, -⟩ | ⟨-, -, hlisten⟩
        · rw [hsame] at hsaved
          exact absurd hsaved hnone.2
        · exact ⟨rfl, hlisten⟩
      · simp only [hshown, Client.show, Client.poll]
        omega
      · simp only [hshown, Client.show, hlast]
        rfl
      · rw [hprogress]
        rfl
    have hfree : ¬(i ∈ (s.modify i (Client.show s.GrabInProgress i)).ready ∨
        i ∈ (s.modify i (Client.show s.GrabInProgress i)).saved) := not_or.2 hnone
    split
    next hlisten =>
      rw [mark_client_ready_eq hfree]
      obtain ⟨hlists, hlinked⟩ := hmark { s.modify i (Client.show s.GrabInProgress i) with ready := s.ready ++ [i] }
        rfl rfl rfl rfl (.inl ⟨rfl, rfl, hlisten⟩)
      exact ⟨hlists, fun _ => hlinked⟩
    next hlisten =>
      unfold mark_client_saved_ready
      rw [if_neg (by rwa [linked_iff])]
      obtain ⟨hlists, hlinked⟩ := hmark { s.modify i (Client.show s.GrabInProgress i) with saved := s.saved ++ [i] }
        rfl rfl rfl rfl (.inr ⟨rfl, rfl, by simpa using hlisten⟩)
      exact ⟨hlists, fun _ => hlinked⟩
  · rw [AttendClient_again hi hlast]
    refine ⟨hs.change _ hi (OneChanged.modify hi) hs.nodup (fun hready => absurd hready hnone.1)
      (fun hsaved => absurd hsaved hnone.2) ⟨hp.index, ?_, ?_, hp.listening, fun hno => ?_⟩, fun hone => absurd hone hlast⟩
    · dsimp only
      omega
    · dsimp only
      rw [hignored, eq_comm, decide_eq_true_eq]
      omega
    · exact absurd hno (by simp [hignored])

end Xenia.Dix.ServerGrab
