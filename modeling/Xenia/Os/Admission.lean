import Xenia.Os.AccessRuns
import Xenia.Os.AuthRuns

/-!
# Who is let in

`ClientAuthorized` asks for a cookie and then for the host of the connection. The check of the cookie may load the authorization file,
and then switches the access of local clients off or on before the host is looked up.

* `DisableLocalHost_eq`: an own address stays in the list when it was asked for, or when `RemoveHost` does not take it.
* `local_client_admitted`: the local clients that are let in once a file with cookies has been loaded.
-/

namespace Xenia.Os.Admission

open Xenia.Lib Access List

/-- For users, `addr` is the answer of `GetLocalUserAddr`. -/
inductive LocalAccessScope
  | LOCAL_ACCESS_SCOPE_HOST
  | LOCAL_ACCESS_SCOPE_USER (addr : Option (List UInt8))

structure LocalAccess where
  scope : LocalAccessScope
  LocalHostRequested : Bool
  UsingXdmcp : Bool

variable (lookup : Lookup) (access : LocalAccess)

/-- `alloc` has the answers of the allocator. -/
def AddLocalHosts (s : AccessState) (alloc : Key → Bool) : AccessState :=
  s.selfhosts.foldl (fun s self => (NewHost s self.family self.addr self.len true (alloc self.key)).1) s

def EnableLocalAccess (s : AccessState) (alloc : Key → Bool) : AccessState :=
  match access.scope with
  | .LOCAL_ACCESS_SCOPE_HOST => if access.UsingXdmcp then s else AddLocalHosts { s with LocalHostEnabled := true } alloc
  | .LOCAL_ACCESS_SCOPE_USER addr => addr.elim s fun addr =>
    (NewHost s FamilyServerInterpreted addr addr.length true (alloc (FamilyServerInterpreted, addr))).1

/-- A turn of the loop of `DisableLocalHost`. -/
def removeSelf (s : AccessState) (self : Host) : AccessState :=
  if self.requested then s else (RemoveHost lookup s true self.family self.addr).1

def DisableLocalHost (s : AccessState) : AccessState :=
  s.selfhosts.foldl (removeSelf lookup) (if access.LocalHostRequested then s else { s with LocalHostEnabled := false })

def DisableLocalAccess (s : AccessState) : AccessState :=
  match access.scope with
  | .LOCAL_ACCESS_SCOPE_HOST => DisableLocalHost lookup access s
  | .LOCAL_ACCESS_SCOPE_USER addr => addr.elim s fun addr => (RemoveHost lookup s true FamilyServerInterpreted addr).1

/-- `ClientAuthorized`: the id, or the reason of the refusal. -/
def ClientAuthorized (auth : Auth.AuthState) (s : AccessState) (noXauth : Bool) (name data : List UInt8) (stat : Option ℤ)
    (file : Option (List Auth.FileEntry)) (alloc : Key → Bool) (peer : Option SockAddr) :
    Auth.AuthState × AccessState × Except String ℕ :=
  if noXauth then (auth, s, .ok 0)
  else
    let (auth, checked) := Auth.CheckAuthorization auth name data stat file none
    let s := checked.access.elim s fun on => if on then EnableLocalAccess access s alloc else DisableLocalAccess lookup access s
    if checked.id = Auth.noXid then
      if peer.any fun addr => !InvalidHost lookup s addr then (auth, s, .ok 0)
      else (auth, s, .error (checked.reason.getD "Client is not authorized to connect to Server"))
    else (auth, s, .ok checked.id)

/-! ## Own addresses -/

variable {lookup access} {s : AccessState} {auth : Auth.AuthState}

variable (lookup) in
/-- An own address that was not asked for, which `RemoveHost` takes. -/
def takes (self : Host) (key : Key) : Bool := !self.requested && self.key == key && (requestLength lookup key.1 key.2).isOk

variable (lookup) in
/-- What is left after some own addresses. -/
def leave (s : AccessState) (selfs : List Host) : AccessState :=
  { s with
    validhosts := s.validhosts.filter fun host => !selfs.any (takes lookup · host.key)
    LocalHostEnabled := s.LocalHostEnabled && selfs.all fun self => self.requested || self.family != FamilyLocalHost }

theorem leave_sound (hs : Sound s) (selfs : List Host) : Sound (leave lookup s selfs) :=
  ⟨fun host hhost => hs.exact host (mem_of_mem_filter hhost), hs.nodup.sublist (filter_sublist.map _)⟩

theorem eraseP_key {k : Key} {l : List Host} (hnodup : (l.map Host.key).Nodup) {p : Host → Bool}
    (hp : ∀ host ∈ l, p host = true ↔ host.key = k) : l.eraseP p = l.filter fun host => !(k == host.key) := by
  induction l with
  | nil => rfl
  | cons host l ih =>
    obtain ⟨hhost, hl⟩ := forall_mem_cons.1 hp
    rw [map_cons, nodup_cons] at hnodup
    by_cases heq : host.key = k
    · rw [eraseP_cons_of_pos (hhost.2 heq), filter_cons_of_neg (by simp [heq]), filter_eq_self.2]
      intro other hother
      have hne : k ≠ other.key := fun h => hnodup.1 (mem_map.2 ⟨other, hother, h.symm.trans heq.symm⟩)
      simpa using hne
    · rw [eraseP_cons_of_neg fun h => heq (hhost.1 h), filter_cons_of_pos (by simpa using Ne.symm heq), ih hnodup.2 hl]

theorem removeSelf_eq (hs : Sound s) (self : Host) : removeSelf lookup s self = leave lookup s [self] := by
  have hok : ∀ key : Key, (self.key == key && (requestLength lookup key.1 key.2).isOk) =
      (self.key == key && (requestLength lookup self.family self.addr).isOk) := by
    intro key
    by_cases h : self.key = key
    · rw [← h]
      rfl
    · rw [beq_false_of_ne h]
      rfl
  have herase : s.validhosts.eraseP (addrEqual self.family self.addr self.addr.length) =
      s.validhosts.filter fun host => !(self.key == host.key) :=
    eraseP_key hs.nodup fun host hhost => addrEqual_iff (hs.exact host hhost)
  unfold removeSelf leave takes
  cases hrequested : self.requested with
  | true => simp [hrequested]
  | false =>
    unfold RemoveHost
    cases hlen : requestLength lookup self.family self.addr with
    | error err =>
      -- an address that is refused is not `FamilyLocalHost`, so the flag stays too
      have hlocal : (self.family != FamilyLocalHost) = true := bne_iff_ne.2 fun h => by
        unfold requestLength at hlen
        rw [if_pos h] at hlen
        exact absurd hlen (by simp)
      have hrefused : (requestLength lookup self.family self.addr).isOk = false := by rw [hlen]; rfl
      simp [hrequested, hlocal, hok, hrefused]
    | ok len =>
      obtain rfl := requestLength_ok hlen
      have haccepted : (requestLength lookup self.family self.addr).isOk = true := by rw [hlen]; rfl
      by_cases hlocal : self.family = FamilyLocalHost
      · have hflag : (self.family != FamilyLocalHost) = false := by simp [hlocal]
        simpa [hrequested, if_pos hlocal, hflag, hok, haccepted] using herase
      · simpa [hrequested, hlocal, hok, haccepted] using herase

theorem foldl_leave (hs : Sound s) (selfs : List Host) : selfs.foldl (removeSelf lookup) s = leave lookup s selfs := by
  induction selfs generalizing s with
  | nil => simp [leave]
  | cons self selfs ih =>
    rw [foldl_cons, removeSelf_eq hs, ih (leave_sound hs [self])]
    simp [leave, filter_filter, Bool.and_assoc, Bool.and_comm]

theorem DisableLocalHost_eq (hs : Sound s) : DisableLocalHost lookup access s =
    leave lookup { s with LocalHostEnabled := access.LocalHostRequested && s.LocalHostEnabled } s.selfhosts := by
  have hstart : Sound { s with LocalHostEnabled := access.LocalHostRequested && s.LocalHostEnabled } := ⟨hs.exact, hs.nodup⟩
  rw [← foldl_leave hstart]
  unfold DisableLocalHost
  cases access.LocalHostRequested <;> rfl

/-! ## Local clients -/

/-- Entries that let a local client in: an own address, or users that match. -/
def LetsIn (lookup : Lookup) (s : AccessState) (host : Host) : Prop :=
  (∃ self ∈ s.selfhosts, addrEqual self.family self.addr self.len host = true) ∨
    host.family = FamilyServerInterpreted ∧ lookup.siAddrMatch FamilyLocal none host = true

theorem InvalidHost_unix : InvalidHost lookup s .unix = false ↔
    s.AccessEnabled = false ∨ s.LocalHostEnabled = true ∨ ∃ host ∈ s.validhosts, LetsIn lookup s host := by
  have hown : (s.selfhosts.any fun self => s.validhosts.any (addrEqual self.family self.addr self.len)) = true ↔
      ∃ host ∈ s.validhosts, ∃ self ∈ s.selfhosts, addrEqual self.family self.addr self.len host = true := by
    simp only [any_eq_true]
    grind
  unfold InvalidHost ConvertAddr LetsIn
  simp only [and_or_left, exists_or, ← hown]
  generalize (s.selfhosts.any fun self => s.validhosts.any (addrEqual self.family self.addr self.len)) = own
  cases s.AccessEnabled <;> cases s.LocalHostEnabled <;> cases own <;> simp

/-- What lets a local client in without a cookie after `DisableLocalHost`. -/
def StillValid (lookup : Lookup) (access : LocalAccess) (s : AccessState) : Prop :=
  s.AccessEnabled = false ∨
    ((access.LocalHostRequested = true ∧ s.LocalHostEnabled = true) ∧
      ∀ self ∈ s.selfhosts, self.requested = true ∨ self.family ≠ FamilyLocalHost) ∨
    ∃ host ∈ s.validhosts, LetsIn lookup s host ∧ ∀ self ∈ s.selfhosts, takes lookup self host.key = false

theorem stillValid_iff (hs : Sound s) :
    InvalidHost lookup (DisableLocalHost lookup access s) .unix = false ↔ StillValid lookup access s := by
  rw [DisableLocalHost_eq hs, InvalidHost_unix]
  refine or_congr_right (or_congr ?_ (exists_congr fun host => ?_))
  · simp [leave]
  · have hkept : (!s.selfhosts.any (takes lookup · host.key)) = true ↔ ∀ self ∈ s.selfhosts, takes lookup self host.key = false := by simp
    change host ∈ s.validhosts.filter _ ∧ LetsIn lookup s host ↔ _
    rw [mem_filter, hkept, and_right_comm, and_assoc]

/-- **Local clients and cookies.** When a check finds cookies in the authorization file, a local client is let in exactly if it has a
cookie, or if the local host or an entry for local clients was asked for or is one that `RemoveHost` does not take. -/
theorem local_client_admitted (hs : Sound s) (hauth : Auth.Sound auth)
    (hscope : access.scope = .LOCAL_ACCESS_SCOPE_HOST) {name data : List UInt8} (hshort : data.length < 2 ^ 16) {stat : Option ℤ}
    {file : Option (List Auth.FileEntry)} (hfresh : Auth.FreshEntries (Auth.atLoad auth stat) (Auth.entriesRead auth stat file))
    (hload : (Auth.noteTime auth stat).ShouldLoadAuth = true ∧ Auth.HasEntry auth stat file) (alloc : Key → Bool) :
    (ClientAuthorized lookup access auth s false name data stat file alloc (some .unix)).2.2.isOk = true ↔
      (name = Auth.XAUTH_PROTO_MIT ∧ data ∈ (Auth.CheckAuthorization auth name data stat file none).1.datas) ∨
        StillValid lookup access s := by
  obtain ⟨hid, -, -, hswitches, -⟩ := Auth.CheckAuthorization_spec name hauth hshort hfresh
  have hoff := hswitches.1.2 hload
  rw [← hid, ← stillValid_iff hs]
  unfold ClientAuthorized DisableLocalAccess
  rw [hscope]
  generalize Auth.CheckAuthorization auth name data stat file none = r at hoff ⊢
  by_cases hcookie : r.2.id = Auth.noXid
  · cases hvalid : InvalidHost lookup (DisableLocalHost lookup access s) .unix <;>
      simp [hcookie, hoff, hvalid, Except.isOk, Except.toBool]
  · simp [hcookie, hoff, Except.isOk, Except.toBool]

/-! An IPv6 address of the server's own. -/

def ownAddress : Host := { family := FamilyInternet6, len := 16, addr := replicate 16 0, requested := false }

def ownHosts : AccessState := { validhosts := [ownAddress], selfhosts := [ownAddress], LocalHostEnabled := true, AccessEnabled := true }

/-- It stays in the list, and a client without a cookie is let in. -/
theorem local_client_admitted_own :
    (ClientAuthorized ⟨fun _ => false, fun _ _ => false, fun _ _ _ => false⟩ ⟨.LOCAL_ACCESS_SCOPE_HOST, false, false⟩ Auth.started ownHosts
      false [] [] (some 5) (some [Auth.fileCookie]) (fun _ => true) (some .unix)).2.2.isOk = true := by
  have hread : Auth.entriesRead Auth.started (some 5) (some [Auth.fileCookie]) = [Auth.fileCookie] := by rfl
  refine (local_client_admitted ⟨forall_mem_singleton.2 ⟨rfl, by decide⟩, by decide⟩ Auth.started_sound rfl (by decide) ?_ ?_ _).2
    (.inr (.inr (.inr ?_)))
  · rw [hread]
    exact ⟨fun _ _ _ _ auth hin => absurd hin not_mem_nil, trivial⟩
  · refine ⟨rfl, Auth.fileCookie, ?_, rfl, .inl rfl⟩
    rw [hread]
    exact mem_singleton_self _
  · exact ⟨ownAddress, mem_singleton_self _, .inl ⟨_, mem_singleton_self _, by decide⟩, by decide⟩

end Xenia.Os.Admission
