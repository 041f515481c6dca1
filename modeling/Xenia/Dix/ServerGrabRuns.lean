import Xenia.Dix.ServerGrabLists

/-!
# Runs with server grabs

`Waits` is what holds of the clients that wait for the grab: each is ignored once for its request, which is still the next
one to be read. `server_grab_sound`: in every run whose steps are `Orderly` the grab is exclusive, impervious clients are
served, no request is lost or executed twice, and clients do not wait for nothing. `server_grab_unsound` has the steps that
break it.
-/

namespace Xenia.Dix.ServerGrab

open Xenia.Lib List Function Option

variable {s s' : GrabState} {i j h g : ℕ} {c c' : Client} {request : Request} {access : Bool}

/-! ## The lists in a step -/

section

variable (hs : Lists s)
include hs

theorem Lists.waiters (grabWaiters : ℕ → Bool) : Lists { s with grabWaiters := grabWaiters } :=
  ⟨hs.progress, hs.holder, hs.nodup, hs.ready, hs.saved, fun i c hi =>
    have hp := hs.client i c hi
    ⟨hp.index, hp.nonneg, hp.ignored, hp.listening, hp.listed⟩⟩

/-- Clients are woken that are on a list, unless they are ignored. -/
theorem Lists.woken {woken : List ℕ}
    (hwoken : ∀ i c, s.clients i = some c → c.ignored = false → i ∈ woken → i ∈ s.woken ∨ i ∈ s.ready ∨ i ∈ s.saved) :
    Lists { s with woken := woken } :=
  ⟨hs.progress, hs.holder, hs.nodup, hs.ready, hs.saved, fun i c hi =>
    have hp := hs.client i c hi
    ⟨hp.index, hp.nonneg, hp.ignored, hp.listening, fun hignored hmust =>
      hmust.elim
        (fun hin => (hwoken i c hi hignored hin).elim (fun hold => hp.listed hignored (.inl hold)) id)
        (fun hinput => hp.listed hignored (.inr hinput))⟩⟩

/-- The grab begins or ends: every client is polled anew, and the two lists are made of the same clients. -/
theorem Lists.regrab (hclients : ∀ j, s'.clients j = (s.clients j).map (·.poll g j))
    (hprogress : s'.GrabInProgress = g) (hholder : s'.grabClient.getD 0 = g)
    (hconnected : ∀ h, s'.grabClient = some h → (s.clients h).isSome) (hwoken : s'.woken = s.woken)
    (hperm : (s'.ready ++ s'.saved).Perm (s.ready ++ s.saved))
    (hready : ∀ j ∈ s'.ready, ∀ c, s.clients j = some c → c.ignored = false → listen_to_client g j c = true)
    (hsaved : ∀ j ∈ s'.saved, ∀ c, s.clients j = some c → listen_to_client g j c = false) : Lists s' := by
  have hmem : ∀ j, j ∈ s'.ready ∨ j ∈ s'.saved ↔ j ∈ s.ready ∨ j ∈ s.saved := fun j => by
    rw [← mem_append, hperm.mem_iff, mem_append]
  have hclient : ∀ j, j ∈ s'.ready ∨ j ∈ s'.saved → ∃ c, s.clients j = some c ∧ c.ignored = false := by
    intro j hj
    rcases (hmem j).1 hj with hj | hj
    · obtain ⟨c, hc, hlisten⟩ := hs.ready j hj
      exact ⟨c, hc, not_ignored hlisten⟩
    · obtain ⟨c, hc, hignored, -⟩ := hs.saved j hj
      exact ⟨c, hc, hignored⟩
  refine ⟨hprogress.trans hholder.symm, fun h hh => ?_, hperm.nodup_iff.2 hs.nodup, fun j hj => ?_, fun j hj => ?_,
    fun j d hd => ?_⟩
  · rw [hclients, isSome_map]
    exact hconnected h hh
  · obtain ⟨c, hc, hignored⟩ := hclient j (.inl hj)
    refine ⟨c.poll g j, by rw [hclients, hc]; rfl, ?_⟩
    rw [hprogress]
    exact hready j hj c hc hignored
  · obtain ⟨c, hc, hignored⟩ := hclient j (.inr hj)
    refine ⟨c.poll g j, by rw [hclients, hc]; rfl, hignored, ?_⟩
    rw [hprogress]
    exact hsaved j hj c hc
  · rw [hclients] at hd
    obtain ⟨c, hc, rfl⟩ := map_eq_some_iff.1 hd
    have hp := hs.client j c hc
    refine ⟨hp.index, hp.nonneg, hp.ignored, ?_, fun hignored hmust => ?_⟩
    · rw [hprogress]
      rfl
    · rw [hmem]
      rw [hwoken] at hmust
      exact hp.listed hignored hmust

theorem Lists.poll_self : ∀ j, s.clients j = (s.clients j).map (·.poll s.GrabInProgress j) := by
  intro j
  cases hj : s.clients j with
  | none => rfl
  | some c =>
    have hlistening := (hs.client j c hj).listening
    rw [map_some]
    unfold Client.poll
    rw [← hlistening]

/-- The state after a client has got the grab. -/
theorem grab_spec (hfree : s.grabClient = none ∨ s.grabClient = some i) :
    let s' := mark_client_grab { OnlyListenToOneClient s i with grabClient := some i } i
    (∀ j, s'.clients j = (s.clients j).map (·.poll i j)) ∧ s'.GrabInProgress = i ∧ s'.grabClient = some i ∧
      s'.woken = s.woken ∧ s'.grabWaiters = s.grabWaiters ∧ s'.ready = s.ready.filter (· == i) ∧
      s'.saved = s.saved ++ s.ready.filter (· != i) := by
  have hprogress := hs.progress
  unfold OnlyListenToOneClient
  split
  · exact ⟨fun _ => rfl, rfl, rfl, rfl, rfl, rfl, rfl⟩
  next hbusy =>
    have hat : s.GrabInProgress = i := by
      rcases hfree with hnone | hself
      · rw [hprogress, hnone] at hbusy
        exact absurd rfl hbusy
      · rw [hprogress, hself]
        rfl
    refine ⟨fun j => ?_, hat, rfl, rfl, rfl, rfl, rfl⟩
    have := hs.poll_self j
    rwa [hat] at this

theorem Lists.grab (hi : s.clients i = some c) (hfree : s.grabClient = none ∨ s.grabClient = some i)
    (hpervious : ∀ j ∈ s.ready, j ≠ i → ∀ c, s.clients j = some c → c.impervious = false) :
    Lists (mark_client_grab { OnlyListenToOneClient s i with grabClient := some i } i) := by
  obtain ⟨hclients, hprogress, hholder, hwoken, -, hready, hsaved⟩ := grab_spec hs hfree
  have hindex := (hs.client i c hi).index
  refine hs.regrab hclients hprogress (by rw [hholder]; rfl) (fun h hh => ?_) hwoken ?_ (fun j hj d _ hignored => ?_)
    (fun j hj d hd => ?_)
  · rw [hholder, some.injEq] at hh
    rw [← hh, hi]
    rfl
  · rw [hready, hsaved]
    have hfilter := filter_append_perm (· == i) s.ready
    refine List.Perm.trans ?_ (hfilter.append_right s.saved)
    rw [append_assoc]
    exact List.Perm.append_left _ perm_append_comm
  · rw [hready, mem_filter, beq_iff_eq] at hj
    exact (listen_iff hignored).2 (.inr (.inl hj.2))
  · rw [Bool.eq_false_iff]
    intro hlisten
    rw [listen_iff (not_ignored hlisten)] at hlisten
    rw [hsaved, mem_append, mem_filter, bne_iff_ne] at hj
    rcases hj with hj | ⟨hj, hne⟩
    · -- it had been set aside before: the client has had the grab
      obtain ⟨d', hd', hignored, hfalse⟩ := hs.saved j hj
      obtain rfl : d = d' := some.inj (hd.symm.trans hd')
      rcases hfree with hnone | hself
      · rw [hs.progress, hnone, getD_none, listen_zero, hignored] at hfalse
        exact absurd hfalse (by decide)
      · rw [hs.progress, hself, Bool.eq_false_iff] at hfalse
        exact hfalse ((listen_iff hignored).2 hlisten)
    · rcases hlisten with hzero | hself | himpervious
      · exact hindex hzero
      · exact hne hself
      · rw [hpervious j hj hne d hd] at himpervious
        exact absurd himpervious (by decide)

/-- The lists after the release. -/
theorem release_spec :
    let s' := mark_client_ungrab (ListenToAllClients { s with grabClient := none })
    (∀ j, s'.clients j = (s.clients j).map (·.poll 0 j)) ∧ s'.GrabInProgress = 0 ∧ s'.grabClient = none ∧
      s'.woken = s.woken ∧ s'.grabWaiters = s.grabWaiters ∧ s'.ready = s.ready ++ s.saved ∧ s'.saved = [] := by
  unfold ListenToAllClients
  split
  · exact ⟨fun _ => rfl, rfl, rfl, rfl, rfl, rfl, rfl⟩
  next hzero =>
    have hprogress : s.GrabInProgress = 0 := not_not.1 hzero
    refine ⟨fun j => ?_, hprogress, rfl, rfl, rfl, rfl, rfl⟩
    have := hs.poll_self j
    rwa [hprogress] at this

theorem Lists.release : Lists (mark_client_ungrab (ListenToAllClients { s with grabClient := none })) := by
  obtain ⟨hclients, hprogress, hholder, hwoken, -, hready, hsaved⟩ := release_spec hs
  refine hs.regrab hclients hprogress (by rw [hholder]; rfl) (fun h hh => ?_) hwoken ?_ (fun j _ d _ hignored => ?_)
    (fun j hj => ?_)
  · rw [hholder] at hh
    exact absurd hh (by simp)
  · rw [hready, hsaved, append_nil]
  · rw [listen_zero, hignored]
    rfl
  · rw [hsaved] at hj
    exact absurd hj (by simp)

end

theorem control_eq (hi : s.clients i = some c) (impervious : Bool) :
    set_poll_client (s.modify i fun c => { c with impervious := impervious }) i =
      s.modify i fun c => Client.poll s.GrabInProgress i { c with impervious := impervious } := by
  exact modify_modify hi _ _

/-- A client on the ready list is made impervious, or is made pervious when the grab does not concern it. -/
theorem Lists.control (hs : Lists s) (hi : s.clients i = some c) (hready : i ∈ s.ready) (impervious : Bool)
    (hfree : impervious = false → s.grabClient = none ∨ s.grabClient = some i) :
    Lists (set_poll_client (s.modify i fun c => { c with impervious := impervious }) i) := by
  rw [control_eq hi]
  have hp := hs.client i c hi
  have hignored := hs.linked_not_ignored hi (.inl hready)
  refine hs.change _ hi (OneChanged.modify hi) hs.nodup (fun _ => ?_) (fun hsaved => ?_)
    ⟨hp.index, hp.nonneg, hp.ignored, rfl, fun _ _ => .inl hready⟩
  · refine (listen_iff (c := Client.poll s.GrabInProgress i { c with impervious := impervious }) hignored).2 ?_
    cases himpervious : impervious with
    | true => exact .inr (.inr rfl)
    | false =>
      rcases hfree himpervious with hnone | hself
      · exact .inl (by rw [hs.progress, hnone]; rfl)
      · exact .inr (.inl (by rw [hs.progress, hself]; rfl))
  · exact absurd rfl ((nodup_append.1 hs.nodup).2.2 i hready i hsaved)

theorem Lists.connect (hs : Lists s) (hgone : s.clients i = none → i ∉ s.woken) : Lists (connect s i) := by
  unfold ServerGrab.connect
  split
  · exact hs
  next hcond =>
    rw [not_or, not_or] at hcond
    obtain ⟨hindex, -, hnone⟩ := hcond
    have hfree : s.clients i = none := by simpa using hnone
    have hnot : ∀ j, j ∈ s.ready ∨ j ∈ s.saved → j ≠ i := by
      rintro j (hj | hj) rfl
      · obtain ⟨c, hc, -⟩ := hs.ready j hj
        rw [hfree] at hc
        exact absurd hc (by simp)
      · obtain ⟨c, hc, -⟩ := hs.saved j hj
        rw [hfree] at hc
        exact absurd hc (by simp)
    have hclients : (set_poll_client { s with clients := Function.update s.clients i (some newClient) } i).clients =
        Function.update s.clients i (some (newClient.poll s.GrabInProgress i)) := by
      unfold set_poll_client GrabState.modify
      simp
    have hother : ∀ j, j ≠ i → (set_poll_client
        { s with clients := Function.update s.clients i (some newClient) } i).clients j = s.clients j := fun j hne => by
      rw [hclients, update_of_ne hne]
    refine ⟨hs.progress, fun h hh => ?_, hs.nodup, fun j hj => ?_, fun j hj => ?_, fun j d hd => ?_⟩
    · have hconnected := hs.holder h hh
      rw [hother h (fun heq => by rw [heq, hfree] at hconnected; exact absurd hconnected (by simp))]
      exact hconnected
    · rw [hother j (hnot j (.inl hj))]
      exact hs.ready j hj
    · rw [hother j (hnot j (.inr hj))]
      exact hs.saved j hj
    · rcases eq_or_ne j i with rfl | hne
      · rw [hclients, update_self, some.injEq] at hd
        subst hd
        refine ⟨hindex, le_rfl, rfl, rfl, fun _ hmust => ?_⟩
        rcases hmust with hwoken | ⟨himpervious, -⟩
        · exact absurd hwoken (hgone hfree)
        · exact absurd himpervious (by simp [newClient, Client.poll])
      · rw [hother j hne] at hd
        have hp := hs.client j d hd
        exact ⟨hp.index, hp.nonneg, hp.ignored, hp.listening, hp.listed⟩

theorem arrive_listening (hi : s.clients i = some c) {requests : List Request} (hlistening : c.listening = true)
    (hsome : c.input ++ requests ≠ []) : arrive s i requests = (mark_client_ready s i).modify i fun c =>
      { c with input := c.input ++ requests, received := c.received ++ requests } := by
  unfold arrive
  rw [hi]
  dsimp only
  have hmark : (c.listening && !(c.input ++ requests).isEmpty) = true := by
    rw [hlistening, Bool.true_and, Bool.not_eq_true', isEmpty_eq_false_iff]
    exact hsome
  rw [if_pos hmark]
  unfold mark_client_ready
  have hlinked : (s.modify i fun c => { c with input := c.input ++ requests, received := c.received ++ requests }).linked i =
      s.linked i := rfl
  rw [hlinked]
  split <;> rfl

theorem Lists.arrive (hs : Lists s) (i : ℕ) (requests : List Request) : Lists (arrive s i requests) := by
  cases hi : s.clients i with
  | none =>
    unfold ServerGrab.arrive
    rw [hi]
    exact hs
  | some c =>
    have hp := hs.client i c hi
    by_cases hnotify : c.listening = true ∧ c.input ++ requests ≠ []
    · rw [arrive_listening hi hnotify.1 hnotify.2]
      rw [hp.listening] at hnotify
      obtain ⟨hmarked, hready⟩ := hs.mark_ready hi hnotify.1
      have hat : (mark_client_ready s i).clients i = some c := by
        unfold mark_client_ready
        split <;> exact hi
      exact hmarked.modify hat rfl rfl rfl rfl fun _ _ _ => .inr (.inl hready)
    · have hquiet : ServerGrab.arrive s i requests =
          s.modify i fun c => { c with input := c.input ++ requests, received := c.received ++ requests } := by
        unfold ServerGrab.arrive
        rw [hi]
        dsimp only
        rw [if_neg fun hmark => hnotify ?_]
        rwa [Bool.and_eq_true, Bool.not_eq_true', isEmpty_eq_false_iff] at hmark
      rw [hquiet]
      refine hs.modify hi rfl rfl rfl rfl fun hignored himpervious hinput => absurd ⟨?_, hinput⟩ hnotify
      -- an impervious client is polled
      rw [hp.listening]
      exact (listen_iff hignored).2 (.inr (.inr himpervious))

/-- The end of `CloseDownClient`, for a client that does not have the grab. -/
theorem Lists.exit (hs : Lists s) (hholder : s.grabClient ≠ some i) (grabWaiters : ℕ → Bool) {woken : List ℕ}
    (hwoken : ∀ j ∈ woken, j ∈ s.woken) :
    Lists (mark_client_not_ready
      { s with clients := update s.clients i none, grabWaiters := grabWaiters, woken := woken } i) := by
  obtain ⟨hnodup, hready, hsaved⟩ := hs.not_ready_nodup i
  have hother : ∀ j, j ≠ i → update s.clients i none j = s.clients j := fun j hne =>
    update_of_ne hne none s.clients
  refine ⟨hs.progress, fun h hh => ?_, hnodup, fun j hj => ?_, fun j hj => ?_, fun j d hd => ?_⟩
  · rw [show (mark_client_not_ready _ i).clients = update s.clients i none from rfl,
      hother h (fun heq => hholder (heq ▸ hh))]
    exact hs.holder h hh
  · have hne : j ≠ i := fun heq => hready (heq ▸ hj)
    obtain ⟨d, hd, hlisten⟩ := hs.ready j ((mem_not_ready hne).1.1 hj)
    exact ⟨d, (hother j hne).trans hd, hlisten⟩
  · have hne : j ≠ i := fun heq => hsaved (heq ▸ hj)
    obtain ⟨d, hd, hrest⟩ := hs.saved j ((mem_not_ready hne).2.1 hj)
    exact ⟨d, (hother j hne).trans hd, hrest⟩
  · have hne : j ≠ i := by
      rintro rfl
      rw [show (mark_client_not_ready _ j).clients = update s.clients j none from rfl] at hd
      exact absurd hd (by simp)
    have hp := hs.client j d ((hother j hne).symm.trans hd)
    refine ⟨hp.index, hp.nonneg, hp.ignored, hp.listening, fun hignored hmust => ?_⟩
    have := hp.listed hignored (hmust.imp_left (hwoken j))
    exact this.imp (mem_not_ready hne).1.2 (mem_not_ready hne).2.2

/-! ## The waiters -/

/-- What holds of a client, with what it waits for. -/
structure Waiting (s : GrabState) (i : ℕ) (c : Client) : Prop where
  bound : i < MAXCLIENTS
  count : c.ignoreCount = c.others + (if s.grabWaiters i then 1 else 0)
  conserved : c.received = c.served ++ c.input
  head : s.grabWaiters i = true ∨ i ∈ s.woken → c.input.head? = some .GrabServer
  apart : s.grabWaiters i = true → i ∉ s.woken

structure Waits (s : GrabState) : Prop where
  client : ∀ i c, s.clients i = some c → Waiting s i c
  gone : ∀ i, s.clients i = none → s.grabWaiters i = false ∧ i ∉ s.woken
  holder : ∀ h, s.grabClient = some h → s.grabWaiters h = false ∧ h ∉ s.woken

/-- When no client has the grab and one waits, one has been woken. -/
def Unstuck (s : GrabState) : Prop := s.grabClient = none → (∃ i, s.grabWaiters i = true) → s.woken ≠ []

variable (c') in
theorem Waits.change (hw : Waits s) (hi : s.clients i = some c) (hclients : s'.clients = update s.clients i (some c'))
    (hwaiters : ∀ j, j ≠ i → s'.grabWaiters j = s.grabWaiters j) (hwoken : ∀ j, j ≠ i → (j ∈ s'.woken ↔ j ∈ s.woken))
    (hholder : ∀ h, s'.grabClient = some h → s'.grabWaiters h = false ∧ h ∉ s'.woken) (hwaiting : Waiting s' i c') :
    Waits s' := by
  refine ⟨fun j d hd => ?_, fun j hj => ?_, hholder⟩
  · rw [hclients] at hd
    rcases eq_or_ne j i with rfl | hne
    · rw [update_self, some.injEq] at hd
      exact hd ▸ hwaiting
    · rw [update_of_ne hne] at hd
      have hw' := hw.client j d hd
      refine ⟨hw'.bound, ?_, hw'.conserved, fun hmust => hw'.head ?_, fun hwaits => ?_⟩
      · rw [hwaiters j hne]
        exact hw'.count
      · rwa [hwaiters j hne, hwoken j hne] at hmust
      · rw [hwaiters j hne] at hwaits
        rw [hwoken j hne]
        exact hw'.apart hwaits
  · rw [hclients] at hj
    rcases eq_or_ne j i with rfl | hne
    · rw [update_self] at hj
      exact absurd hj (by simp)
    · rw [update_of_ne hne] at hj
      rw [hwaiters j hne, hwoken j hne]
      exact hw.gone j hj

/-- Every client is polled anew. -/
theorem Waits.poll (hw : Waits s) (hclients : ∀ j, s'.clients j = (s.clients j).map (·.poll g j))
    (hwaiters : s'.grabWaiters = s.grabWaiters) (hwoken : s'.woken = s.woken)
    (hholder : ∀ h, s'.grabClient = some h → s.grabWaiters h = false ∧ h ∉ s.woken) : Waits s' := by
  refine ⟨fun j d hd => ?_, fun j hj => ?_, fun h hh => ?_⟩
  · rw [hclients] at hd
    obtain ⟨c, hc, rfl⟩ := map_eq_some_iff.1 hd
    have hw' := hw.client j c hc
    refine ⟨hw'.bound, ?_, hw'.conserved, fun hmust => hw'.head ?_, fun hwaits => ?_⟩
    · rw [hwaiters]
      exact hw'.count
    · rwa [hwaiters, hwoken] at hmust
    · rw [hwaiters] at hwaits
      rw [hwoken]
      exact hw'.apart hwaits
  · rw [hclients, map_eq_none_iff] at hj
    rw [hwaiters, hwoken]
    exact hw.gone j hj
  · rw [hwaiters, hwoken]
    exact hholder h hh

/-- What the two functions that count leave as it was. -/
structure Frame (s s' : GrabState) (i : ℕ) (c c' : Client) : Prop where
  clients : s'.clients = Function.update s.clients i (some c')
  holder : s'.grabClient = s.grabClient
  waiters : s'.grabWaiters = s.grabWaiters
  woken : s'.woken = s.woken
  input : c'.input = c.input
  received : c'.received = c.received
  served : c'.served = c.served
  others : c'.others = c.others

theorem IgnoreClient_frame (hi : s.clients i = some c) (hnonneg : 0 ≤ c.ignoreCount) :
    ∃ c', Frame s (IgnoreClient s i) i c c' ∧ c'.ignoreCount = c.ignoreCount + 1 := by
  rcases hnonneg.lt_or_eq with hcount | hcount
  · rw [IgnoreClient_again hi hcount]
    exact ⟨_, ⟨modify_clients hi _, rfl, rfl, rfl, rfl, rfl, rfl, rfl⟩, rfl⟩
  · rw [IgnoreClient_first hi hcount.symm]
    exact ⟨_, ⟨modify_clients (s := mark_client_not_ready s i) hi _, rfl, rfl, rfl, rfl, rfl, rfl, rfl⟩, rfl⟩

theorem AttendClient_frame (hi : s.clients i = some c) :
    ∃ c', Frame s (AttendClient s i) i c c' ∧ c'.ignoreCount = c.ignoreCount - 1 := by
  by_cases hlast : c.ignoreCount = 1
  · rw [AttendClient_last hi hlast]
    refine ⟨c.show s.GrabInProgress i, ?_, rfl⟩
    unfold mark_client_ready mark_client_saved_ready
    split
    · split <;> exact ⟨modify_clients hi _, rfl, rfl, rfl, rfl, rfl, rfl, rfl⟩
    · split <;> exact ⟨modify_clients hi _, rfl, rfl, rfl, rfl, rfl, rfl, rfl⟩
  · rw [AttendClient_again hi hlast]
    exact ⟨_, ⟨modify_clients hi _, rfl, rfl, rfl, rfl, rfl, rfl, rfl⟩, rfl⟩

variable {grabWaiters : ℕ → Bool}

theorem nextWaiter_some (hnext : nextWaiter grabWaiters = some i) : grabWaiters i = true := by
  obtain ⟨word, -, hfind⟩ := bind_eq_some_iff.1 hnext
  exact find?_some hfind

theorem nextWaiter_none (hnext : nextWaiter grabWaiters = none) (hi : i < MAXCLIENTS) :
    grabWaiters i = false := by
  by_contra hwaits
  rw [Bool.not_eq_false] at hwaits
  have hword : waitersWord grabWaiters (i / 32) = true := by
    refine any_eq_true.2 ⟨i % 32, mem_range.2 (Nat.mod_lt _ (by decide)), ?_⟩
    rw [Nat.div_add_mod]
    exact hwaits
  unfold nextWaiter at hnext
  cases hfind : (range mskcnt).reverse.find? (waitersWord grabWaiters) with
  | none =>
    rw [find?_eq_none] at hfind
    refine hfind (i / 32) ?_ hword
    rw [mem_reverse, mem_range]
    unfold mskcnt
    omega
  | some word =>
    rw [hfind, bind_some, find?_eq_none] at hnext
    obtain ⟨bit, hbit, hat⟩ := any_eq_true.1 (find?_eq_some_iff_append.1 hfind).1
    exact hnext _ (mem_map_of_mem hbit) hat

/-! ## A step -/

structure Sound (s : GrabState) : Prop where
  lists : Lists s
  waits : Waits s
  unstuck : Unstuck s

/-- The only client that has been woken and has not had its request executed yet, while others wait. -/
def LastWoken (s : GrabState) (i : ℕ) : Prop :=
  i ∈ s.woken ∧ (∀ j ∈ s.woken, j = i) ∧ nextWaiter s.grabWaiters ≠ none

instance : Decidable (LastWoken s i) :=
  inferInstanceAs (Decidable (i ∈ s.woken ∧ (∀ j ∈ s.woken, j = i) ∧ nextWaiter s.grabWaiters ≠ none))

/-- No client but this one has the server grabbed. -/
def Free (s : GrabState) (i : ℕ) : Prop := s.grabClient = none ∨ s.grabClient = some i

instance : Decidable (Free s i) := inferInstanceAs (Decidable (s.grabClient = none ∨ s.grabClient = some i))

/-- The requests that keep a grab in order. -/
def OrderlyRequest (s : GrabState) (i : ℕ) (access : Bool) : Option Request → Prop
  | some .GrabServer =>
    Free s i →
      (access = true → ∀ j ∈ s.ready, j ≠ i → (s.clients j).any (·.impervious) = false) ∧
        (access = false → ¬LastWoken s i)
  | some .UngrabServer => Free s i
  | some (.GrabControl impervious) => impervious = false → Free s i
  | some .other => True
  | none => True

instance : ∀ request, Decidable (OrderlyRequest s i access request)
  | some .GrabServer => inferInstanceAs (Decidable (Free s i →
      (access = true → ∀ j ∈ s.ready, j ≠ i → (s.clients j).any (·.impervious) = false) ∧
        (access = false → ¬LastWoken s i)))
  | some .UngrabServer => inferInstanceAs (Decidable (Free s i))
  | some (.GrabControl impervious) => inferInstanceAs (Decidable (impervious = false → Free s i))
  | some .other => inferInstanceAs (Decidable True)
  | none => inferInstanceAs (Decidable True)

/-- The steps that keep a grab in order. -/
def Orderly (s : GrabState) : GrabOp → Prop
  | .dispatch i access => OrderlyRequest s i access ((s.clients i).bind (·.input.head?))
  | .exit i => s.grabClient = none → ¬LastWoken s i
  | _ => True

instance (s : GrabState) : ∀ op, Decidable (Orderly s op)
  | .dispatch i access => inferInstanceAs (Decidable (OrderlyRequest s i access ((s.clients i).bind (·.input.head?))))
  | .exit i => inferInstanceAs (Decidable (s.grabClient = none → ¬LastWoken s i))
  | .connect _ | .arrive _ _ | .ignore _ | .attend _ => inferInstanceAs (Decidable True)

theorem Waits.not_waiting (hw : Waits s) (hs : Lists s) (hi : s.clients i = some c) (hready : i ∈ s.ready) :
    s.grabWaiters i = false := by
  have hp := hs.client i c hi
  have hignored := hs.linked_not_ignored hi (.inl hready)
  rw [hp.ignored, decide_eq_false_iff_not] at hignored
  have hcount := (hw.client i c hi).count
  by_contra hwaits
  rw [Bool.not_eq_false] at hwaits
  rw [hwaits, if_pos rfl] at hcount
  omega

/-! ### The release -/

theorem AttendClient_free (hi : s.clients i = some c) (hfree : s.GrabInProgress = 0) :
    (AttendClient s i).saved = s.saved ∧ s.ready <+: (AttendClient s i).ready := by
  by_cases hlast : c.ignoreCount = 1
  · rw [AttendClient_last hi hlast]
    have hlisten : listen_to_client s.GrabInProgress i (c.show s.GrabInProgress i) = true := by
      rw [hfree]
      rfl
    rw [if_pos hlisten]
    unfold mark_client_ready
    split
    · exact ⟨rfl, prefix_refl _⟩
    · exact ⟨rfl, prefix_append _ _⟩
  · rw [AttendClient_again hi hlast]
    exact ⟨rfl, prefix_refl _⟩

/-- What the release does. -/
structure Released (s s' : GrabState) : Prop where
  sound : Sound s'
  holder : s'.grabClient = none
  saved : s'.saved = []
  ready : s.ready ++ s.saved <+: s'.ready
  connected : ∀ j, s'.clients j = none → s.clients j = none
  woken : ∀ j ∈ s'.woken, j ∈ s.woken ∨ s.grabWaiters j = true

theorem UngrabServer_released (hs : Lists s) (hw : Waits s) : Released s (UngrabServer s) := by
  have hlists := hs.release
  obtain ⟨hclients, hprogress, hholder, hwoken, hwaiters, hready, hsaved⟩ := release_spec hs
  unfold UngrabServer
  dsimp only
  generalize mark_client_ungrab (ListenToAllClients { s with grabClient := none }) = u at *
  have hwaits : Waits u := hw.poll hclients hwaiters hwoken fun h hh => by
    rw [hholder] at hh
    exact absurd hh (by simp)
  have hconnected : ∀ j, u.clients j = none → s.clients j = none := fun j hj => by
    rwa [hclients, map_eq_none_iff] at hj
  rw [hwaiters]
  cases hnext : nextWaiter s.grabWaiters with
  | none =>
    refine ⟨⟨hlists, hwaits, fun _ hex => ?_⟩, hholder, hsaved, by rw [hready], hconnected, fun j hj => ?_⟩
    · obtain ⟨j, hj⟩ := hex
      exfalso
      cases hc : u.clients j with
      | none => rw [(hwaits.gone j hc).1] at hj; exact absurd hj (by decide)
      | some c =>
        rw [hwaiters, nextWaiter_none hnext (hwaits.client j c hc).bound] at hj
        exact absurd hj (by decide)
    · rw [hwoken] at hj
      exact .inl hj
  | some w =>
    have hwait : u.grabWaiters w = true := by
      rw [hwaiters]
      exact nextWaiter_some hnext
    cases hc : u.clients w with
    | none => rw [(hwaits.gone w hc).1] at hwait; exact absurd hwait (by decide)
    | some c =>
      have hw' := hwaits.client w c hc
      have hcount := hw'.count
      rw [hwait, if_pos rfl] at hcount
      dsimp only
      rw [← hwaiters]
      have hcleared : Lists { u with grabWaiters := update u.grabWaiters w false } := hlists.waiters _
      obtain ⟨hattended, hlinked⟩ := hcleared.attend hc (by omega)
      obtain ⟨c', hframe, hcount'⟩ := AttendClient_frame (s := { u with grabWaiters := update u.grabWaiters w false }) hc
      obtain ⟨hsame, hprefix⟩ := AttendClient_free (s := { u with grabWaiters := update u.grabWaiters w false })
        hc hprogress
      generalize AttendClient { u with grabWaiters := update u.grabWaiters w false } w = a at *
      have hat : a.clients w = some c' := by rw [hframe.clients, update_self]
      have hnow : a.grabWaiters = update u.grabWaiters w false := hframe.waiters
      refine ⟨⟨hattended.woken fun j d hd hignored hj => ?_, ?_, fun _ _ => by simp⟩, hframe.holder.trans hholder, ?_, ?_,
        fun j hj => ?_, fun j hj => ?_⟩
      · rcases mem_append.1 hj with hj | hj
        · exact .inl hj
        · obtain rfl := mem_singleton.1 hj
          obtain rfl : c' = d := some.inj (hat.symm.trans hd)
          have hp := hattended.client j c' hat
          rw [hp.ignored, decide_eq_false_iff_not] at hignored
          exact .inr (hlinked (by omega))
      · refine hwaits.change c' hc hframe.clients (fun j hne => ?_) (fun j hne => ?_) (fun h hh => ?_)
          ⟨hw'.bound, ?_, ?_, fun _ => ?_, fun hon => ?_⟩
        · dsimp only
          rw [hnow, update_of_ne hne]
        · dsimp only
          rw [hframe.woken]
          simp [hne]
        · dsimp only at hh
          rw [hframe.holder, hholder] at hh
          exact absurd hh (by simp)
        · dsimp only
          rw [hnow, update_self, hframe.others]
          simp only [Bool.false_eq_true, if_false]
          omega
        · rw [hframe.received, hframe.served, hframe.input]
          exact hw'.conserved
        · rw [hframe.input]
          exact hw'.head (.inl hwait)
        · dsimp only at hon
          rw [hnow, update_self] at hon
          exact absurd hon (by decide)
      · exact hsame.trans hsaved
      · rw [← hready]
        exact hprefix
      · dsimp only at hj
        rw [hframe.clients] at hj
        refine hconnected j ?_
        rcases eq_or_ne j w with rfl | hne
        · rw [update_self] at hj
          exact absurd hj (by simp)
        · rwa [update_of_ne hne] at hj
      · rcases mem_append.1 hj with hj | hj
        · rw [hframe.woken, hwoken] at hj
          exact .inl hj
        · rw [mem_singleton.1 hj, ← hwaiters]
          exact .inr hwait

/-! ### A request is executed -/

/-- The record of a client whose next request is taken. -/
def Client.take (c : Client) : Client := { c with input := c.input.tail, served := c.served ++ c.input.head?.toList }

/-- A client of the ready list with a request: the state in which the request is executed. -/
def taken (s : GrabState) (i : ℕ) (request : Request) : GrabState :=
  { s.modify i (fun c => { c with input := c.input.tail, served := c.served ++ [request] }) with
    woken := s.woken.filter (· != i) }

theorem taken_clients (hi : s.clients i = some c) (hhead : c.input.head? = some request) :
    (taken s i request).clients = update s.clients i (some c.take) := by
  have hmodify : (taken s i request).clients =
      (s.modify i fun c => { c with input := c.input.tail, served := c.served ++ [request] }).clients := rfl
  rw [hmodify, modify_clients hi]
  unfold Client.take
  rw [hhead]
  rfl

theorem mem_filter_woken (hne : j ≠ i) : j ∈ s.woken.filter (· != i) ↔ j ∈ s.woken := by
  rw [mem_filter, bne_iff_ne]
  exact ⟨And.left, fun hj => ⟨hj, hne⟩⟩

theorem not_mem_filter_woken : i ∉ s.woken.filter (· != i) := by
  simp

variable (request) in
theorem taken_lists (hs : Lists s) (hi : s.clients i = some c) (hready : i ∈ s.ready) : Lists (taken s i request) :=
  (hs.modify hi rfl rfl rfl rfl fun _ _ _ => .inr (.inl hready)).woken fun _ _ _ _ hj => .inl (mem_filter.1 hj).1

theorem taken_waits (hs : Lists s) (hw : Waits s) (hi : s.clients i = some c) (hready : i ∈ s.ready)
    (hhead : c.input.head? = some request) : Waits (taken s i request) := by
  have hw' := hw.client i c hi
  have hno := hw.not_waiting hs hi hready
  refine hw.change _ hi (taken_clients hi hhead) (fun _ _ => rfl) (fun _ hne => mem_filter_woken hne)
    (fun h hh => ⟨(hw.holder h hh).1, fun hin => (hw.holder h hh).2 (mem_filter.1 hin).1⟩)
    ⟨hw'.bound, hw'.count, ?_, fun hmust => ?_, fun _ => not_mem_filter_woken⟩
  · unfold Client.take
    rw [hw'.conserved, hhead, toList_some, append_assoc, singleton_append,
      cons_head?_tail hhead]
  · rcases hmust with hon | hon
    · exact absurd (hno.symm.trans hon) (by decide)
    · exact absurd hon not_mem_filter_woken

/-- A client leaves the woken ones, but not as the last one while others wait. -/
theorem Unstuck.leave (hu : Unstuck s) (hw : Waits s) (hlast : s.grabClient = none → ¬LastWoken s i)
    (hholder : s'.grabClient = none → s.grabClient = none) (hwaiters : ∀ j, s'.grabWaiters j = true → s.grabWaiters j = true)
    (hwoken : s'.woken = s.woken.filter (· != i)) : Unstuck s' := by
  intro hnone hex
  obtain ⟨j, hj⟩ := hex
  have hnone' := hholder hnone
  have hsome := hu hnone' ⟨j, hwaiters j hj⟩
  have hnext : nextWaiter s.grabWaiters ≠ none := fun hnext => by
    have hj' := hwaiters j hj
    cases hc : s.clients j with
    | none => rw [(hw.gone j hc).1] at hj'; exact absurd hj' (by decide)
    | some d => rw [nextWaiter_none hnext (hw.client j d hc).bound] at hj'; exact absurd hj' (by decide)
  rw [hwoken]
  intro hempty
  rw [filter_eq_nil_iff] at hempty
  have hall : ∀ k ∈ s.woken, k = i := fun k hk => by simpa using hempty k hk
  obtain ⟨k, hk⟩ := exists_mem_of_ne_nil _ hsome
  exact hlast hnone' ⟨hall k hk ▸ hk, hall, hnext⟩

/-- The request of a client that has to wait is put back, and the client is ignored. -/
theorem wait_sound (hs : Lists s) (hw : Waits s) (hi : s.clients i = some c) (hready : i ∈ s.ready)
    (hhead : c.input.head? = some .GrabServer) (hheld : s.grabClient = some h) (hne : h ≠ i) :
    let t := ResetCurrentRequest (taken s i .GrabServer) i .GrabServer
    let s' := IgnoreClient { t with grabWaiters := update t.grabWaiters i true } i
    Lists s' ∧ Waits s' ∧ s'.grabClient = some h := by
  -- the client's record is as it was
  have hback : ResetCurrentRequest (taken s i .GrabServer) i .GrabServer = { s with woken := s.woken.filter (· != i) } := by
    have hclients := taken_clients hi hhead
    have hrecord : ({ c.take with input := .GrabServer :: c.take.input, served := c.take.served.dropLast } : Client) = c := by
      unfold Client.take
      rw [hhead, toList_some, dropLast_concat, cons_head?_tail hhead]
    have hlinked : ∀ t : GrabState, t.ready = s.ready → mark_client_ready t i = t := fun t ht =>
      mark_client_ready_linked (.inl (ht ▸ hready))
    unfold ResetCurrentRequest
    have hmodify : (taken s i .GrabServer).modify i (fun c =>
        { c with input := .GrabServer :: c.input, served := c.served.dropLast }) =
        { s with woken := s.woken.filter (· != i) } := by
      unfold GrabState.modify
      rw [hclients, update_self, map_some, hrecord, update_idem, update_eq_self_iff.2 hi.symm]
      rfl
    dsimp only
    rw [hmodify, hlinked { s with woken := s.woken.filter (· != i) } rfl, ite_self]
  rw [hback]
  have hlists : Lists { s with woken := s.woken.filter (· != i) } :=
    hs.woken fun _ _ _ _ hj => .inl (mem_filter.1 hj).1
  have hw' := hw.client i c hi
  have hno := hw.not_waiting hs hi hready
  have hcount := hw'.count
  rw [hno] at hcount
  simp only [Bool.false_eq_true, if_false] at hcount
  have hwaited := hlists.waiters (update s.grabWaiters i true)
  refine ⟨hwaited.ignore hi, ?_⟩
  obtain ⟨c', hframe, hcount'⟩ := IgnoreClient_frame
    (s := { s with woken := s.woken.filter (· != i), grabWaiters := update s.grabWaiters i true }) hi (by omega)
  generalize IgnoreClient _ i = a at *
  have hnow : a.grabWaiters = update s.grabWaiters i true := hframe.waiters
  have hwoken : a.woken = s.woken.filter (· != i) := hframe.woken
  refine ⟨hw.change c' hi hframe.clients (fun j hj => ?_) (fun j hj => ?_) (fun k hk => ?_)
    ⟨hw'.bound, ?_, ?_, fun _ => ?_, fun _ => ?_⟩, hframe.holder.trans hheld⟩
  · rw [hnow, update_of_ne hj]
  · rw [hwoken]
    exact mem_filter_woken hj
  · obtain rfl : h = k := some.inj (hheld.symm.trans (hframe.holder.symm.trans hk))
    rw [hnow, hwoken, update_of_ne hne, mem_filter_woken hne]
    exact hw.holder h hheld
  · rw [hnow, update_self, hframe.others, if_pos rfl]
    omega
  · rw [hframe.received, hframe.served, hframe.input]
    exact hw'.conserved
  · rw [hframe.input]
    exact hhead
  · rw [hwoken]
    exact not_mem_filter_woken

theorem dispatch_taken (hi : s.clients i = some c) (hready : i ∈ s.ready) (hhead : c.input.head? = some request) :
    dispatch s i access = execute (taken s i request) i access request := by
  unfold dispatch
  rw [if_pos (by simpa using hready), hi, bind_some, hhead]
  rfl

section

variable (hs : Sound s)
include hs

theorem ProcGrabServer_sound (hi : s.clients i = some c) (hready : i ∈ s.ready) (hhead : c.input.head? = some .GrabServer)
    (horderly : Free s i → (access = true → ∀ j ∈ s.ready, j ≠ i → (s.clients j).any (·.impervious) = false) ∧
      (access = false → ¬LastWoken s i)) :
    Sound (ProcGrabServer (taken s i .GrabServer) i access) := by
  have htaken := taken_lists .GrabServer hs.lists hi hready
  have hwaits := taken_waits hs.lists hs.waits hi hready hhead
  have hclients := taken_clients hi hhead
  have hat : (taken s i .GrabServer).clients i = some c.take := by rw [hclients, update_self]
  unfold ProcGrabServer
  split
  next hbusy =>
    obtain ⟨h, hheld⟩ := ne_none_iff_exists'.1 hbusy.1
    have hne : h ≠ i := by
      rintro rfl
      exact hbusy.2 hheld
    obtain ⟨hlists, hwaits', hholder⟩ := wait_sound hs.lists hs.waits hi hready hhead hheld hne
    exact ⟨hlists, hwaits', fun hnone => by rw [hholder] at hnone; exact absurd hnone (by simp)⟩
  next hfree =>
    have hfree : Free s i := by
      by_contra hno
      rw [Free, not_or] at hno
      exact hfree hno
    obtain ⟨hpervious, hlast⟩ := horderly hfree
    cases haccess : access with
    | false =>
      exact ⟨htaken, hwaits, hs.unstuck.leave hs.waits (fun _ => hlast haccess) (fun hnone => hnone) (fun _ hj => hj) rfl⟩
    | true =>
      have hgrab := htaken.grab hat hfree fun j hj hne d hd => by
        rw [hclients, update_of_ne hne] at hd
        have := hpervious haccess j hj hne
        rwa [hd] at this
      obtain ⟨hpoll, -, hholder, hwoken, hwaiters, -, -⟩ := grab_spec htaken (i := i) hfree
      refine ⟨hgrab, hwaits.poll hpoll hwaiters hwoken fun h hh => ?_, fun hnone => ?_⟩
      · obtain rfl : i = h := some.inj (hholder.symm.trans hh)
        exact ⟨hs.waits.not_waiting hs.lists hi hready, not_mem_filter_woken⟩
      · exact absurd (hholder.symm.trans hnone) (by simp)

theorem dispatch_sound (horderly : Orderly s (.dispatch i access)) : Sound (dispatch s i access) := by
  by_cases hready : i ∈ s.ready
  · obtain ⟨c, hi, -⟩ := hs.lists.ready i hready
    have hw' := hs.waits.client i c hi
    cases hhead : c.input.head? with
    | none =>
      -- nothing to read
      have hunwoken : i ∉ s.woken := fun hin => by
        rw [hw'.head (.inr hin)] at hhead
        exact absurd hhead (by simp)
      have hinput : c.input = [] := head?_eq_none_iff.1 hhead
      have hidle : dispatch s i access = mark_client_not_ready s i := by
        unfold dispatch
        rw [if_pos (by simpa using hready), hi, bind_some, hhead]
      rw [hidle]
      refine ⟨hs.lists.mark_not_ready hi fun _ hmust => ?_, ⟨fun j d hd => ?_, hs.waits.gone, hs.waits.holder⟩, hs.unstuck⟩
      · exact hmust.elim hunwoken fun hneeds => hneeds.2 hinput
      · have hwj := hs.waits.client j d hd
        exact ⟨hwj.bound, hwj.count, hwj.conserved, hwj.head, hwj.apart⟩
    | some request =>
      rw [dispatch_taken hi hready hhead]
      dsimp only [Orderly] at horderly
      rw [hi, bind_some, hhead] at horderly
      have htaken := taken_lists request hs.lists hi hready
      have hwaits := taken_waits hs.lists hs.waits hi hready hhead
      have hclients := taken_clients hi hhead
      have hat : (taken s i request).clients i = some c.take := by rw [hclients, update_self]
      have hlast : request ≠ .GrabServer → ¬LastWoken s i := fun hne hlast => by
        have := hw'.head (.inr hlast.1)
        rw [hhead, some.injEq] at this
        exact hne this
      cases request with
      | GrabServer => exact ProcGrabServer_sound hs hi hready hhead horderly
      | UngrabServer => exact (UngrabServer_released htaken hwaits).sound
      | GrabControl impervious =>
        have hcontrol := htaken.control hat hready impervious horderly
        have hsame : execute (taken s i (.GrabControl impervious)) i access (.GrabControl impervious) =
            set_poll_client ((taken s i (.GrabControl impervious)).modify i fun c => { c with impervious := impervious }) i := by
          cases impervious <;> rfl
        rw [hsame]
        have hwt := hwaits.client i c.take hat
        refine ⟨hcontrol, ?_, hs.unstuck.leave hs.waits (fun _ => hlast (by simp)) (fun hnone => hnone) (fun _ hj => hj) rfl⟩
        rw [control_eq hat]
        exact hwaits.change _ hat (modify_clients hat _) (fun _ _ => rfl) (fun _ _ => Iff.rfl) hwaits.holder
          ⟨hwt.bound, hwt.count, hwt.conserved, hwt.head, hwt.apart⟩
      | other =>
        exact ⟨htaken, hwaits, hs.unstuck.leave hs.waits (fun _ => hlast (by simp)) (fun hnone => hnone) (fun _ hj => hj) rfl⟩
  · unfold dispatch
    rw [if_neg (by simpa using hready)]
    exact hs

/-! ### The other steps -/

theorem connect_sound : Sound (connect s i) := by
  have hlists := hs.lists.connect (i := i) fun hnone => (hs.waits.gone i hnone).2
  unfold connect at hlists ⊢
  by_cases hcond : i = 0 ∨ MAXCLIENTS ≤ i ∨ (s.clients i).isSome = true
  · rw [if_pos hcond]
    exact hs
  · rw [if_neg hcond] at hlists ⊢
    rw [not_or, not_or, not_le] at hcond
    obtain ⟨-, hbound, hnone⟩ := hcond
    have hfree : s.clients i = none := by simpa using hnone
    obtain ⟨hno, hunwoken⟩ := hs.waits.gone i hfree
    have hclients : (set_poll_client { s with clients := Function.update s.clients i (some newClient) } i).clients =
        Function.update s.clients i (some (newClient.poll s.GrabInProgress i)) := by
      unfold set_poll_client GrabState.modify
      simp
    refine ⟨hlists, ⟨fun j d hd => ?_, fun j hj => ?_, hs.waits.holder⟩, hs.unstuck⟩
    · rw [hclients] at hd
      rcases eq_or_ne j i with rfl | hne
      · rw [update_self, some.injEq] at hd
        subst hd
        refine ⟨hbound, ?_, rfl, fun hmust => ?_, fun hon => absurd (hno.symm.trans hon) (by decide)⟩
        · change (0 : ℤ) = 0 + (if s.grabWaiters j then 1 else 0)
          rw [hno]
          rfl
        · exact absurd hmust (not_or.2 ⟨fun hon => absurd (hno.symm.trans hon) (by decide), hunwoken⟩)
      · rw [update_of_ne hne] at hd
        have hwj := hs.waits.client j d hd
        exact ⟨hwj.bound, hwj.count, hwj.conserved, hwj.head, hwj.apart⟩
    · refine hs.waits.gone j ?_
      rw [hclients] at hj
      rcases eq_or_ne j i with rfl | hne
      · exact hfree
      · rwa [update_of_ne hne] at hj

theorem arrive_sound (requests : List Request) : Sound (arrive s i requests) := by
  have hlists := hs.lists.arrive i requests
  cases hi : s.clients i with
  | none =>
    unfold arrive
    rw [hi]
    exact hs
  | some c =>
    have hw' := hs.waits.client i c hi
    have hkeep : (arrive s i requests).clients = update s.clients i
        (some { c with input := c.input ++ requests, received := c.received ++ requests }) ∧
        (arrive s i requests).grabWaiters = s.grabWaiters ∧ (arrive s i requests).woken = s.woken ∧
        (arrive s i requests).grabClient = s.grabClient := by
      unfold arrive
      rw [hi]
      dsimp only
      split
      · unfold mark_client_ready
        split <;> exact ⟨modify_clients hi _, rfl, rfl, rfl⟩
      · exact ⟨modify_clients hi _, rfl, rfl, rfl⟩
    obtain ⟨hclients, hwaiters, hwoken, hholder⟩ := hkeep
    refine ⟨hlists, hs.waits.change _ hi hclients (fun _ _ => by rw [hwaiters]) (fun _ _ => by rw [hwoken]) (fun h hh => ?_)
      ⟨hw'.bound, ?_, ?_, fun hmust => ?_, fun hon => ?_⟩, fun hnone hex => ?_⟩
    · rw [hholder] at hh
      rw [hwaiters, hwoken]
      exact hs.waits.holder h hh
    · rw [hwaiters]
      exact hw'.count
    · dsimp only
      rw [hw'.conserved, append_assoc]
    · rw [hwaiters, hwoken] at hmust
      have hhead := hw'.head hmust
      rw [head?_append, hhead]
      rfl
    · rw [hwaiters] at hon
      rw [hwoken]
      exact hw'.apart hon
    · rw [hwoken]
      rw [hholder] at hnone
      rw [hwaiters] at hex
      exact hs.unstuck hnone hex

/-- A client is ignored, or attended again, by another part of the server. -/
theorem others_sound (hi : s.clients i = some c) {n : ℕ} {f : Client → Client}
    (hf : f c = { c with others := n }) (hlists : Lists s') (hframe : Frame (s.modify i f) s' i (f c) c')
    (hcount : c'.ignoreCount - n = c.ignoreCount - c.others) : Sound s' := by
  rw [hf] at hframe
  have hw' := hs.waits.client i c hi
  have hclients : s'.clients = update s.clients i (some c') := by
    rw [hframe.clients, modify_clients hi, update_idem]
  have hwaiters : s'.grabWaiters = s.grabWaiters := hframe.waiters
  have hwoken : s'.woken = s.woken := hframe.woken
  have hholder : s'.grabClient = s.grabClient := hframe.holder
  refine ⟨hlists, hs.waits.change _ hi hclients (fun _ _ => by rw [hwaiters]) (fun _ _ => by rw [hwoken]) (fun h hh => ?_)
    ⟨hw'.bound, ?_, ?_, fun hmust => ?_, fun hon => ?_⟩, fun hnone hex => ?_⟩
  · rw [hholder] at hh
    rw [hwaiters, hwoken]
    exact hs.waits.holder h hh
  · have hold := hw'.count
    rw [hframe.others, hwaiters]
    dsimp only
    omega
  · rw [hframe.received, hframe.served, hframe.input]
    exact hw'.conserved
  · rw [hwaiters, hwoken] at hmust
    rw [hframe.input]
    exact hw'.head hmust
  · rw [hwaiters] at hon
    rw [hwoken]
    exact hw'.apart hon
  · rw [hwoken]
    rw [hholder] at hnone
    rw [hwaiters] at hex
    exact hs.unstuck hnone hex

theorem ignore_sound :
    Sound (IgnoreClient (s.modify i fun c => { c with others := c.others + 1 }) i) := by
  cases hi : s.clients i with
  | none =>
    have hsame : s.modify i (fun c => { c with others := c.others + 1 }) = s := by
      unfold GrabState.modify
      rw [hi, update_eq_self_iff.2 hi.symm]
    rw [hsame]
    unfold IgnoreClient
    rw [hi]
    exact hs
  | some c =>
    have hat : (s.modify i fun c => { c with others := c.others + 1 }).clients i =
        some { c with others := c.others + 1 } := by rw [modify_clients hi, update_self]
    have hlists : Lists (s.modify i fun c => { c with others := c.others + 1 }) :=
      hs.lists.modify hi rfl rfl rfl rfl fun _ himpervious hinput => .inl ⟨himpervious, hinput⟩
    obtain ⟨c', hframe, hcount⟩ := IgnoreClient_frame hat (hlists.client i _ hat).nonneg
    refine others_sound hs hi (n := c.others + 1) rfl (hlists.ignore hat) hframe ?_
    rw [hcount]
    push_cast
    omega

theorem attend_sound (hi : s.clients i = some c) (hothers : 0 < c.others) :
    Sound (AttendClient (s.modify i fun c => { c with others := c.others - 1 }) i) := by
  have hat : (s.modify i fun c => { c with others := c.others - 1 }).clients i =
      some { c with others := c.others - 1 } := by rw [modify_clients hi, update_self]
  have hlists : Lists (s.modify i fun c => { c with others := c.others - 1 }) :=
    hs.lists.modify hi rfl rfl rfl rfl fun _ himpervious hinput => .inl ⟨himpervious, hinput⟩
  have hcount : 1 ≤ c.ignoreCount := by
    rw [(hs.waits.client i c hi).count]
    split <;> omega
  obtain ⟨c', hframe, hcount'⟩ := AttendClient_frame hat
  refine others_sound hs hi (n := c.others - 1) rfl (hlists.attend hat hcount).1 hframe ?_
  rw [hcount']
  dsimp only
  omega

theorem exit_sound (horderly : s.grabClient = none → ¬LastWoken s i) : Sound (CloseDownClient s i) := by
  unfold CloseDownClient
  split
  · exact hs
  · dsimp only
    -- the client gives up the grab, if it has it
    have hfirst : ∃ u, (if s.grabClient = some i then UngrabServer s else s) = u ∧ Sound u ∧ u.grabClient ≠ some i ∧
        (u.grabClient = none → ¬LastWoken u i) := by
      refine ⟨_, rfl, ?_⟩
      by_cases hholder : s.grabClient = some i
      · rw [if_pos hholder]
        have hreleased := UngrabServer_released hs.lists hs.waits
        refine ⟨hreleased.sound, ?_, fun _ hlast => ?_⟩
        · rw [hreleased.holder]
          simp
        · obtain ⟨hno, hunwoken⟩ := hs.waits.holder i hholder
          rcases hreleased.woken i hlast.1 with hin | hon
          · exact hunwoken hin
          · exact absurd (hno.symm.trans hon) (by decide)
      · rw [if_neg hholder]
        exact ⟨hs, hholder, horderly⟩
    obtain ⟨u, hu, hsound, hholder, hlast⟩ := hfirst
    rw [hu]
    refine ⟨hsound.lists.exit hholder _ fun j hj => (mem_filter.1 hj).1, ⟨fun j d hd => ?_, fun j hj => ?_, fun h hh => ?_⟩,
      hsound.unstuck.leave hsound.waits hlast (fun hnone => hnone) (fun j hj => ?_) rfl⟩
    · have hne : j ≠ i := by
        rintro rfl
        rw [show (mark_client_not_ready _ j).clients = update u.clients j none from rfl] at hd
        exact absurd hd (by simp)
      rw [show (mark_client_not_ready _ i).clients = update u.clients i none from rfl,
        update_of_ne hne] at hd
      have hwj := hsound.waits.client j d hd
      have hwaiters : update u.grabWaiters i false j = u.grabWaiters j := update_of_ne hne _ _
      refine ⟨hwj.bound, ?_, hwj.conserved, fun hmust => hwj.head (hmust.imp (fun hon => ?_) fun hin =>
        (mem_filter.1 hin).1), fun hon hin => hwj.apart ?_ (mem_filter.1 hin).1⟩
      · change d.ignoreCount = d.others + (if update u.grabWaiters i false j = true then 1 else 0)
        rw [hwaiters]
        exact hwj.count
      · exact hwaiters.symm.trans hon
      · exact hwaiters.symm.trans hon
    · rcases eq_or_ne j i with rfl | hne
      · refine ⟨?_, not_mem_filter_woken⟩
        change update u.grabWaiters j false j = false
        rw [update_self]
      · rw [show (mark_client_not_ready _ i).clients = update u.clients i none from rfl,
          update_of_ne hne] at hj
        obtain ⟨hno, hunwoken⟩ := hsound.waits.gone j hj
        exact ⟨(update_of_ne hne _ _).trans hno, fun hin => hunwoken (mem_filter.1 hin).1⟩
    · have hne : h ≠ i := fun heq => hholder (heq ▸ hh)
      obtain ⟨hno, hunwoken⟩ := hsound.waits.holder h hh
      exact ⟨(update_of_ne hne _ _).trans hno, fun hin => hunwoken (mem_filter.1 hin).1⟩
    · change update u.grabWaiters i false j = true at hj
      rcases eq_or_ne j i with rfl | hne
      · rw [update_self] at hj
        exact absurd hj (by decide)
      · rwa [update_of_ne hne] at hj

end

theorem grabStep_sound {op : GrabOp} (horderly : Orderly s op) (hs : Sound s) : Sound (grabStep s op) := by
  cases op with
  | connect i => exact connect_sound hs
  | arrive i requests => exact arrive_sound hs requests
  | dispatch i access => exact dispatch_sound hs horderly
  | ignore i => exact ignore_sound hs
  | attend i =>
    unfold grabStep
    dsimp only
    split
    next hsome =>
      cases hi : s.clients i with
      | none => simp [hi] at hsome
      | some c =>
        rw [hi, any_some, decide_eq_true_eq] at hsome
        exact attend_sound hs hi hsome
    · exact hs
  | exit i => exact exit_sound hs horderly

theorem noClients_sound : Sound noClients where
  lists := ⟨rfl, by simp [noClients], by simp [noClients], by simp [noClients], by simp [noClients], by simp [noClients]⟩
  waits := ⟨by simp [noClients], by simp [noClients], by simp [noClients]⟩
  unstuck := by
    rintro - ⟨i, hi⟩
    exact absurd hi (by simp [noClients])

/-! ## Runs -/

theorem IgnoreClient_holder (s : GrabState) (i : ℕ) : (IgnoreClient s i).grabClient = s.grabClient := by
  unfold IgnoreClient
  split
  · rfl
  · dsimp only
    split <;> rfl

theorem AttendClient_holder (s : GrabState) (i : ℕ) : (AttendClient s i).grabClient = s.grabClient := by
  unfold AttendClient
  split
  · rfl
  · dsimp only
    split
    · rfl
    · unfold mark_client_ready mark_client_saved_ready
      split <;> split <;> rfl

/-- The step is the holder's request to release the grab, or its exit. -/
def IsRelease (s : GrabState) (h : ℕ) (op : GrabOp) : Prop :=
  op = .exit h ∨
    ∃ access, op = .dispatch h access ∧ (s.clients h).bind (·.input.head?) = some .UngrabServer

/-- The grab ends only by a release, and then all clients set aside are ready again, in order. -/
theorem grabStep_release {op : GrabOp} (hs : Sound s) (horderly : Orderly s op) (hheld : s.grabClient = some h)
    (hends : (grabStep s op).grabClient ≠ some h) :
    IsRelease s h op ∧ (grabStep s op).grabClient = none ∧ (grabStep s op).saved = [] ∧
      s.saved.Sublist (grabStep s op).ready := by
  cases op with
  | connect i =>
    refine absurd ?_ hends
    unfold grabStep connect
    dsimp only
    split <;> exact hheld
  | arrive i requests =>
    refine absurd ?_ hends
    unfold grabStep arrive
    dsimp only
    split
    · exact hheld
    · split
      · unfold mark_client_ready
        split <;> exact hheld
      · exact hheld
  | ignore i =>
    refine absurd ?_ hends
    exact (IgnoreClient_holder (s.modify i fun c => { c with others := c.others + 1 }) i).trans hheld
  | attend i =>
    refine absurd ?_ hends
    unfold grabStep
    dsimp only
    split
    · exact (AttendClient_holder _ i).trans hheld
    · exact hheld
  | exit i =>
    have hconnected := hs.lists.holder h hheld
    by_cases heq : i = h
    · subst heq
      have hreleased := UngrabServer_released hs.lists hs.waits
      have hnot : i ∉ s.saved := fun hin => by
        obtain ⟨c, -, hignored, hfalse⟩ := hs.lists.saved i hin
        rw [hs.lists.progress, hheld, Bool.eq_false_iff] at hfalse
        exact hfalse ((listen_iff hignored).2 (.inr (.inl rfl)))
      dsimp only [grabStep]
      unfold CloseDownClient
      obtain ⟨d, hd⟩ := isSome_iff_exists.1 hconnected
      rw [if_neg (by rw [hd]; simp)]
      dsimp only
      rw [if_pos hheld]
      refine ⟨.inl rfl, hreleased.holder, ?_, ?_⟩
      · unfold mark_client_not_ready
        rw [hreleased.saved]
        rfl
      · unfold mark_client_not_ready
        have hsub := ((sublist_append_right s.ready s.saved).trans hreleased.ready.sublist).erase i
        rwa [erase_of_not_mem hnot] at hsub
    · refine absurd ?_ hends
      dsimp only [grabStep]
      unfold CloseDownClient
      split
      · exact hheld
      · dsimp only
        rw [if_neg (by rw [hheld, some.injEq]; exact fun h' => heq h'.symm)]
        exact hheld
  | dispatch i access =>
    dsimp only [grabStep] at hends ⊢
    by_cases hready : i ∈ s.ready
    · obtain ⟨c, hi, -⟩ := hs.lists.ready i hready
      cases hhead : c.input.head? with
      | none =>
        refine absurd ?_ hends
        unfold dispatch
        rw [if_pos (by simpa using hready), hi, bind_some, hhead]
        exact hheld
      | some request =>
        dsimp only [Orderly] at horderly
        rw [hi, bind_some, hhead] at horderly
        rw [dispatch_taken hi hready hhead] at hends ⊢
        cases request with
        | GrabServer =>
          refine absurd ?_ hends
          unfold execute ProcGrabServer
          dsimp only
          split
          next hbusy =>
            have hne : h ≠ i := by
              rintro rfl
              exact hbusy.2 hheld
            exact (wait_sound hs.lists hs.waits hi hready hhead hheld hne).2.2
          next hfree =>
            have heq : h = i := by
              by_contra hne
              refine hfree ⟨?_, ?_⟩
              · rw [show (taken s i .GrabServer).grabClient = s.grabClient from rfl, hheld]
                simp
              · rw [show (taken s i .GrabServer).grabClient = s.grabClient from rfl, hheld]
                simpa using hne
            subst heq
            split
            · exact hheld
            · rfl
        | UngrabServer =>
          have hreleased := UngrabServer_released (taken_lists .UngrabServer hs.lists hi hready)
            (taken_waits hs.lists hs.waits hi hready hhead)
          have heq : h = i := by
            rcases horderly with hnone | hself
            · rw [hheld] at hnone
              exact absurd hnone (by simp)
            · exact some.inj (hheld.symm.trans hself)
          subst heq
          refine ⟨.inr ⟨access, rfl, ?_⟩, hreleased.holder, hreleased.saved,
            (sublist_append_right s.ready s.saved).trans hreleased.ready.sublist⟩
          rw [hi, bind_some, hhead]
        | GrabControl impervious =>
          refine absurd ?_ hends
          unfold execute
          dsimp only
          split <;> exact hheld
        | other => exact absurd hheld hends
    · refine absurd ?_ hends
      unfold dispatch
      rw [if_neg (by simpa using hready)]
      exact hheld

/-- **A server grab is in order** in every run whose steps are: only impervious clients are on the ready list beside the
holder, and those of them that have requests are; the grab ends by its holder alone, and then those set aside are ready again in
their order; no request is lost or executed twice, one that had to wait is still the next; and when there is nothing
left to do without a grab, no client waits. -/
theorem server_grab_sound (ops : List GrabOp) (hrun : AllSteps grabStep Orderly noClients ops) :
    let s := run grabStep noClients ops
    (∀ h, s.grabClient = some h → ∀ i ∈ s.ready, i ≠ h → ∃ c, s.clients i = some c ∧ c.impervious = true) ∧
      (∀ i c, s.clients i = some c → c.impervious = true → c.input ≠ [] → c.ignored = false → i ∈ s.ready) ∧
      (∀ op, Orderly s op → ∀ h, s.grabClient = some h → (grabStep s op).grabClient ≠ some h →
        IsRelease s h op ∧ (grabStep s op).grabClient = none ∧ (grabStep s op).saved = [] ∧
          s.saved.Sublist (grabStep s op).ready) ∧
      (∀ i c, s.clients i = some c → c.received = c.served ++ c.input ∧
        (s.grabWaiters i = true ∨ i ∈ s.woken → c.input.head? = some .GrabServer)) ∧
      (s.grabClient = none → s.ready = [] → (∀ i c, s.clients i = some c → c.others = 0) →
        ∀ i, s.grabWaiters i = false ∧ i ∉ s.woken) := by
  have hs : Sound (run grabStep noClients ops) := hrun.invariant (fun _ _ horderly hs => grabStep_sound horderly hs)
    noClients_sound
  generalize run grabStep noClients ops = s at hs
  refine ⟨fun h hheld i hi hne => ?_, fun i c hi himpervious hinput hignored => ?_, fun op horderly h hheld hends =>
    grabStep_release hs horderly hheld hends, fun i c hi => ?_, fun hnone hempty hothers i => ?_⟩
  · obtain ⟨c, hc, hlisten⟩ := hs.lists.ready i hi
    refine ⟨c, hc, ?_⟩
    rw [listen_iff (not_ignored hlisten), hs.lists.progress, hheld] at hlisten
    have hconnected := hs.lists.holder h hheld
    obtain ⟨d, hd⟩ := isSome_iff_exists.1 hconnected
    exact (hlisten.resolve_left (hs.lists.client h d hd).index).resolve_left hne
  · refine ((hs.lists.client i c hi).listed hignored (.inr ⟨himpervious, hinput⟩)).resolve_right ?_
    exact hs.lists.not_saved hi ((listen_iff hignored).2 (.inr (.inr himpervious)))
  · have hw' := hs.waits.client i c hi
    exact ⟨hw'.conserved, hw'.head⟩
  · -- a woken client is on no list, so it is ignored, but by nobody
    have hunwoken : ∀ j, j ∉ s.woken := by
      intro j hj
      cases hc : s.clients j with
      | none => exact (hs.waits.gone j hc).2 hj
      | some c =>
        have hw' := hs.waits.client j c hc
        have hp := hs.lists.client j c hc
        have hno : s.grabWaiters j = false := by
          by_contra hon
          exact hw'.apart (by simpa using hon) hj
        have hcount := hw'.count
        rw [hno, hothers j c hc] at hcount
        have hignored : c.ignored = false := by
          rw [hp.ignored, hcount]
          rfl
        rcases hp.listed hignored (.inl hj) with hin | hin
        · rw [hempty] at hin
          exact absurd hin (by simp)
        · obtain ⟨d, hd, -, hfalse⟩ := hs.lists.saved j hin
          obtain rfl : c = d := some.inj (hc.symm.trans hd)
          rw [hs.lists.progress, hnone, getD_none, listen_zero, hignored] at hfalse
          exact absurd hfalse (by decide)
    refine ⟨?_, hunwoken i⟩
    by_contra hon
    obtain ⟨j, hj⟩ := exists_mem_of_ne_nil _ (hs.unstuck hnone ⟨i, by simpa using hon⟩)
    exact hunwoken j hj

/-- An impervious client asks for the grab while another has it, and gets it afterwards; it is ignored for a while by another
part of the server. -/
def handedOn : List GrabOp :=
  [.connect 1, .connect 2, .arrive 2 [.GrabControl true], .dispatch 2 true, .dispatch 2 true,
   .arrive 1 [.GrabServer, .other, .UngrabServer], .dispatch 1 true, .arrive 2 [.GrabServer, .GrabControl false, .UngrabServer],
   .dispatch 2 true, .ignore 2, .dispatch 1 true, .dispatch 1 true, .dispatch 1 true, .attend 2, .exit 1, .dispatch 2 true,
   .dispatch 2 true, .dispatch 2 true]

/-- The client at the end. -/
def handedOnClient : Client :=
  { ignoreCount := 0, ignored := false, impervious := false, listening := true, input := [],
    received := [.GrabControl true, .GrabServer, .GrabControl false, .UngrabServer],
    served := [.GrabControl true, .GrabServer, .GrabControl false, .UngrabServer], others := 0 }

theorem server_grab_sound_handedOn :
    (run grabStep noClients handedOn).clients 2 = some handedOnClient ∧
      handedOnClient.received = handedOnClient.served ++ handedOnClient.input := by
  have hat : (run grabStep noClients handedOn).clients 2 = some handedOnClient := by decide +kernel
  exact ⟨hat, ((server_grab_sound handedOn (by decide +kernel)).2.2.2.1 2 handedOnClient hat).1⟩

/-! ### What breaks a grab -/

/-- An impervious client has a request when the other gets the grab. -/
def setAside : List GrabOp :=
  [.connect 1, .connect 2, .arrive 2 [.GrabControl true, .other], .dispatch 2 true, .arrive 1 [.GrabServer], .dispatch 1 true]

/-- An impervious client has nothing to do when the other gets the grab. -/
def impervious : List GrabOp :=
  [.connect 1, .connect 2, .arrive 2 [.GrabControl true], .dispatch 2 true, .dispatch 2 true, .arrive 1 [.GrabServer],
   .dispatch 1 true]

/-- Two impervious clients wait for the grab; the one that is woken exits. -/
def stuck : List GrabOp :=
  [.connect 1, .connect 2, .connect 3, .arrive 2 [.GrabControl true], .dispatch 2 true, .dispatch 2 true,
   .arrive 3 [.GrabControl true], .dispatch 3 true, .dispatch 3 true, .arrive 1 [.GrabServer, .UngrabServer], .dispatch 1 true,
   .arrive 2 [.GrabServer], .arrive 3 [.GrabServer], .dispatch 2 true, .dispatch 3 true, .dispatch 1 true, .exit 2,
   .dispatch 1 true]

/-- **What breaks a grab**: an impervious client with a request is set aside; one that is made pervious stays ready; another
client than the holder ends the grab; and when the only client that was woken exits, another waits on with nothing left to do. -/
theorem server_grab_unsound :
    ((run grabStep noClients setAside).grabClient = some 1 ∧ 2 ∉ (run grabStep noClients setAside).ready ∧
        ((run grabStep noClients setAside).clients 2).any (fun c => c.impervious && !c.input.isEmpty && !c.ignored) = true) ∧
      ((run grabStep noClients (impervious ++ [.arrive 2 [.GrabControl false], .dispatch 2 true])).grabClient = some 1 ∧
        2 ∈ (run grabStep noClients (impervious ++ [.arrive 2 [.GrabControl false], .dispatch 2 true])).ready ∧
        ((run grabStep noClients (impervious ++ [.arrive 2 [.GrabControl false], .dispatch 2 true])).clients 2).any
          (·.impervious) = false) ∧
      ((run grabStep noClients (impervious ++ [.arrive 2 [.UngrabServer]])).grabClient = some 1 ∧
        (run grabStep noClients (impervious ++ [.arrive 2 [.UngrabServer], .dispatch 2 true])).grabClient = none) ∧
      ((run grabStep noClients stuck).grabClient = none ∧ (run grabStep noClients stuck).ready = [] ∧
        ((run grabStep noClients stuck).clients 1).any (·.others == 0) = true ∧
        ((run grabStep noClients stuck).clients 3).any (·.others == 0) = true ∧
        (run grabStep noClients stuck).grabWaiters 3 = true) := by
  decide +kernel

end Xenia.Dix.ServerGrab
