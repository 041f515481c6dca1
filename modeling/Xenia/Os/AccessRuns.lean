import Xenia.Lib.Keyed
import Xenia.Os.Access

/-!
# Runs of the access list

`access_list_sound`: in every run whose requests meet `Fits` the entries differ, an entry is there when the last accepted
request for it added it, errors change nothing, IPv4 peers can be added and are let in, and `GetHosts` writes the entries into its
buffer. `access_list_unsound` has what breaks it: a length that is negative as a `short`, an allocation that fails after the flag is
set, and the length of an IPv6 address.
-/

namespace Xenia.Os.Access

open Xenia.Lib List

variable {lookup : Lookup} {s : AccessState} {host : Host} {hosts : List Host} {family : ℕ} {addr pAddr : List UInt8}
  {request : HostRequest} {len n : ℤ}

/-! ## Entries -/

abbrev Key := ℕ × List UInt8

def Host.key (host : Host) : Key := (host.family, host.addr)

def HostRequest.key (request : HostRequest) : Key := (request.family, request.addr)

def AccessState.keys (s : AccessState) : List Key := s.validhosts.map Host.key

/-- The length kept in an entry is the length of its address. -/
def Host.Exact (host : Host) : Prop := host.len = host.addr.length ∧ host.addr.length < 2 ^ 15

structure Sound (s : AccessState) : Prop where
  exact : ∀ host ∈ s.validhosts, host.Exact
  nodup : s.keys.Nodup

theorem addrEqual_iff (hexact : host.Exact) : addrEqual family addr addr.length host = true ↔ host.key = (family, addr) := by
  unfold addrEqual Host.key
  rw [Bool.and_eq_true, Bool.and_eq_true, beq_iff_eq, beq_iff_eq, beq_iff_eq, hexact.1, Nat.cast_inj, Int.toNat_natCast,
    Prod.mk.injEq]
  constructor
  · rintro ⟨⟨hfamily, hlength⟩, haddr⟩
    rw [take_length, hlength, take_length] at haddr
    exact ⟨hfamily.symm, haddr.symm⟩
  · rintro ⟨hfamily, haddr⟩
    rw [haddr]
    exact ⟨⟨hfamily.symm, rfl⟩, rfl⟩

theorem any_addrEqual (hs : Sound s) : s.validhosts.any (addrEqual family addr addr.length) = true ↔ (family, addr) ∈ s.keys := by
  rw [any_eq_true]
  unfold AccessState.keys
  rw [mem_map]
  exact ⟨fun ⟨host, hhost, heq⟩ => ⟨host, hhost, (addrEqual_iff (hs.exact host hhost)).1 heq⟩,
    fun ⟨host, hhost, heq⟩ => ⟨host, hhost, (addrEqual_iff (hs.exact host hhost)).2 heq⟩⟩

/-! ## Lengths -/

theorem siTypeList_length {entry : List UInt8 × (List UInt8 → ℤ)} (hentry : entry ∈ siTypeList lookup) (value : List UInt8) :
    entry.2 value = value.length ∨ entry.2 value = -1 := by
  simp only [siTypeList, mem_cons, not_mem_nil, or_false] at hentry
  obtain rfl | rfl | rfl | rfl := hentry
  · dsimp only
    unfold siHostnameCheckAddr
    split
    · exact .inr rfl
    · split
      · exact .inl rfl
      · exact .inr rfl
  · dsimp only
    unfold siIPv6CheckAddr
    split
    · exact .inr rfl
    · split
      · exact .inr rfl
      · split
        · exact .inl rfl
        · exact .inr rfl
  · dsimp only
    unfold siLocalCredCheckAddr
    split
    · exact .inl rfl
    · exact .inr rfl
  · dsimp only
    unfold siLocalCredCheckAddr
    split
    · exact .inl rfl
    · exact .inr rfl

theorem siCheckAddr_length (haccepted : 0 ≤ siCheckAddr lookup addr) : siCheckAddr lookup addr = addr.length := by
  unfold siCheckAddr at haccepted ⊢
  cases hstrlen : addr.findIdx? (· == 0) with
  | none =>
    rw [hstrlen] at haccepted
    simp at haccepted
  | some strlen =>
    rw [hstrlen] at haccepted
    dsimp only at haccepted ⊢
    have hlt : strlen < addr.length := (findIdx?_eq_some_iff_getElem.1 hstrlen).1
    cases hfind : (siTypeList lookup).find? (·.1 == addr.take strlen) with
    | none =>
      rw [hfind] at haccepted
      simp at haccepted
    | some entry =>
      rw [hfind] at haccepted
      dsimp only at haccepted ⊢
      rcases siTypeList_length (mem_of_find?_eq_some hfind) (addr.drop (strlen + 1)) with hlength | hrejected
      · rw [hlength, length_drop]
        omega
      · rw [hrejected] at haccepted
        simp at haccepted

/-- An accepted length is the length of the address. -/
theorem requestLength_ok (hok : requestLength lookup family addr = .ok len) : len = addr.length := by
  unfold requestLength at hok
  split at hok
  · exact (Except.ok.inj hok).symm
  · split at hok
    · split at hok
      · exact absurd hok (by simp)
      next hnonneg =>
        rw [← Except.ok.inj hok]
        unfold CheckAddr at hnonneg ⊢
        split
        · split
          · rfl
          next hno hlength => simp [hno, hlength] at hnonneg
        · split
          · split
            · rfl
            next hno hyes hlength =>
              rw [if_neg hno, if_pos hyes, if_neg hlength] at hnonneg
              exact absurd (by norm_num) hnonneg
          · split
            next hno hno' hyes =>
              exact siCheckAddr_length (by omega)
            next hno hno' hno'' => simp [hno, hno', hno''] at hnonneg
    · exact absurd hok (by simp)

/-! ## Requests -/

/-- Does the request put a new entry in the list? -/
def Makes (lookup : Lookup) (s : AccessState) (request : HostRequest) : Prop :=
  request.add = true ∧ request.authorized = true ∧ (requestLength lookup request.family request.addr).isOk = true ∧
    request.key ∉ s.keys

/-- A new entry has a length that fits a `short`, and one for the local host is made unless the flag is set. -/
def Fits (lookup : Lookup) (s : AccessState) (request : HostRequest) : Prop :=
  Makes lookup s request → request.addr.length < 2 ^ 15 ∧
    (request.family = FamilyLocalHost → request.alloc = true ∨ s.LocalHostEnabled = true)

instance : Decidable (Fits lookup s request) := by
  unfold Fits Makes
  infer_instance

/-- What a request does to the list: nothing when it is an error, and else its entry is put in or taken out. -/
inductive Change (s : AccessState) (request : HostRequest) : AccessState × Option HostError → Prop
  | error {s' : AccessState} {err : HostError} (hhosts : s'.validhosts = s.validhosts)
      (hflag : s'.LocalHostEnabled = s.LocalHostEnabled) : Change s request (s', some err)
  | kept {s' : AccessState} (hadd : request.add = true) (hin : request.key ∈ s.keys) (hhosts : s'.validhosts = s.validhosts) :
      Change s request (s', none)
  | added {s' : AccessState} {host : Host} (hadd : request.add = true) (hnew : request.key ∉ s.keys) (hexact : host.Exact)
      (hkey : host.key = request.key) (hhosts : s'.validhosts = host :: s.validhosts) : Change s request (s', none)
  | removed {s' : AccessState} (hremove : request.add = false)
      (hhosts : s'.validhosts = s.validhosts.eraseP (addrEqual request.family request.addr request.addr.length)) :
      Change s request (s', none)

theorem toShort_eq {x : ℤ} (h0 : 0 ≤ x) (h : x < 2 ^ 15) : toShort x = x := by
  unfold toShort
  rw [Int.bmod_eq_of_le] <;> omega

theorem exact_new (hshort : addr.length < 2 ^ 15) :
    Host.Exact { family := family, len := toShort addr.length, addr := addr.take (addr.length : ℤ).toNat, requested := false } := by
  refine ⟨?_, ?_⟩
  · dsimp only
    rw [toShort_eq (by omega) (by exact_mod_cast hshort)]
    simp
  · simpa using hshort

theorem key_new :
    Host.key { family := family, len := len, addr := addr.take (addr.length : ℤ).toNat, requested := false } = (family, addr) := by
  simp [Host.key]

theorem AddHost_change (hs : Sound s) (hadd : request.add = true) (hfits : Fits lookup s request) :
    Change s request (AddHost lookup s request.authorized request.family request.addr request.alloc) := by
  unfold AddHost
  cases hauthorized : request.authorized with
  | false => exact .error rfl rfl
  | true =>
    cases hlen : requestLength lookup request.family request.addr with
    | error err => exact .error rfl rfl
    | ok len =>
      obtain rfl := requestLength_ok hlen
      dsimp only
      -- the flag does not matter to `NewHost`
      generalize hflagged : (if request.family = FamilyLocalHost then { s with LocalHostEnabled := true } else s) = t
      have hhosts : t.validhosts = s.validhosts := by
        rw [← hflagged]
        split <;> rfl
      have hsound : Sound t := ⟨by rw [hhosts]; exact hs.exact, by unfold AccessState.keys; rw [hhosts]; exact hs.nodup⟩
      have hkeys : t.keys = s.keys := by
        unfold AccessState.keys
        rw [hhosts]
      unfold NewHost
      by_cases hin : request.key ∈ s.keys
      · rw [if_pos ((any_addrEqual hsound).2 (hkeys ▸ hin))]
        exact .kept hadd hin hhosts
      · rw [if_neg fun hany => hin (hkeys ▸ (any_addrEqual hsound).1 hany)]
        obtain ⟨hshort, hlocal⟩ := hfits ⟨hadd, hauthorized, by rw [hlen]; rfl, hin⟩
        cases halloc : request.alloc with
        | true =>
          refine .added hadd hin (exact_new hshort) key_new ?_
          rw [if_pos rfl, if_neg (by decide)]
          rw [hhosts]
        | false =>
          refine .error ?_ ?_
          · exact hhosts
          · dsimp only
            rw [if_neg (by decide), if_neg (by decide)]
            rw [← hflagged]
            split
            next hfamily =>
              rcases hlocal hfamily with hyes | hyes
              · rw [halloc] at hyes
                exact absurd hyes (by decide)
              · exact hyes.symm
            · rfl

theorem RemoveHost_change (hremove : request.add = false) :
    Change s request (RemoveHost lookup s request.authorized request.family request.addr) := by
  unfold RemoveHost
  cases request.authorized with
  | false => exact .error rfl rfl
  | true =>
    cases hlen : requestLength lookup request.family request.addr with
    | error err => exact .error rfl rfl
    | ok len =>
      obtain rfl := requestLength_ok hlen
      refine .removed hremove ?_
      split <;> rfl

theorem changeHosts_change (hs : Sound s) (hfits : Fits lookup s request) : Change s request (changeHosts lookup s request) := by
  unfold changeHosts
  cases hadd : request.add with
  | true => exact AddHost_change hs hadd hfits
  | false => exact RemoveHost_change hadd

variable {r : AccessState × Option HostError}

theorem Change.sound (hs : Sound s) (hchange : Change s request r) : Sound r.1 := by
  cases hchange with
  | error hhosts hflag => exact ⟨by rw [hhosts]; exact hs.exact, by unfold AccessState.keys; rw [hhosts]; exact hs.nodup⟩
  | kept _ _ hhosts => exact ⟨by rw [hhosts]; exact hs.exact, by unfold AccessState.keys; rw [hhosts]; exact hs.nodup⟩
  | added _ hnew hexact hkey hhosts =>
    refine ⟨?_, ?_⟩
    · rw [hhosts]
      exact forall_mem_cons.2 ⟨hexact, hs.exact⟩
    · unfold AccessState.keys
      rw [hhosts, map_cons, nodup_cons, hkey]
      exact ⟨hnew, hs.nodup⟩
  | removed _ hhosts =>
    refine ⟨?_, ?_⟩
    · rw [hhosts]
      exact fun host hhost => hs.exact host (mem_of_mem_eraseP hhost)
    · unfold AccessState.keys
      rw [hhosts]
      exact hs.nodup.sublist (eraseP_sublist.map _)

/-- An error changes neither the list nor the flag. -/
theorem Change.of_error {err : HostError} (hchange : Change s request r)
    (herror : r.2 = some err) : r.1.validhosts = s.validhosts ∧ r.1.LocalHostEnabled = s.LocalHostEnabled := by
  cases hchange with
  | error hhosts hflag => exact ⟨hhosts, hflag⟩
  | _ => exact absurd herror (by simp)

/-- The keys after an accepted request. -/
theorem Change.mem_keys (hs : Sound s) (hchange : Change s request r) (key : Key) :
    key ∈ r.1.keys ↔ if r.2 = none ∧ request.key = key then request.add = true else key ∈ s.keys := by
  cases hchange with
  | error hhosts hflag =>
    rw [if_neg (by simp)]
    unfold AccessState.keys
    rw [hhosts]
  | kept hadd hin hhosts =>
    have hkeys : ∀ s' : AccessState, s'.validhosts = s.validhosts → s'.keys = s.keys := fun s' h => by
      unfold AccessState.keys
      rw [h]
    rw [hkeys _ hhosts]
    split
    next heq =>
      rw [← heq.2]
      exact iff_of_true hin hadd
    · rfl
  | added hadd hnew hexact hkey hhosts =>
    unfold AccessState.keys
    rw [hhosts, map_cons, mem_cons, hkey]
    split
    next heq => exact iff_of_true (.inl heq.2.symm) hadd
    next hne =>
      refine or_iff_right fun heq => hne ⟨rfl, heq.symm⟩
  | removed hremove hhosts =>
    unfold AccessState.keys
    rw [hhosts, hremove]
    have hkey : ∀ host ∈ s.validhosts, addrEqual request.family request.addr request.addr.length host = true ↔
        host.key = request.key := fun host hhost => addrEqual_iff (hs.exact host hhost)
    rw [map_eraseP_key hkey]
    split
    next heq =>
      rw [← heq.2]
      exact iff_of_false hs.nodup.not_mem_erase (by decide)
    next hne => exact mem_erase_of_ne fun heq => hne ⟨rfl, heq.symm⟩

/-! ## Presence -/

variable (lookup) in
/-- What an accepted request for an entry says: is the entry to be in the list? -/
def accepted (key : Key) (s : AccessState) (request : HostRequest) : Option Bool :=
  if (changeHosts lookup s request).2 = none ∧ request.key = key then some request.add else none

variable (lookup) in
/-- Was the last accepted request for an entry to add it? None when no request for it was accepted. -/
def lastAccepted (s : AccessState) (requests : List HostRequest) (key : Key) : Option Bool :=
  lastAnswer (hostStep lookup) (accepted lookup key) s requests

theorem step_sound {s : AccessState} {request : HostRequest} (hfits : Fits lookup s request) (hs : Sound s) :
    Sound (hostStep lookup s request) :=
  (changeHosts_change hs hfits).sound hs

theorem mem_keys_run (key : Key) {requests : List HostRequest} (hs : Sound s)
    (hfits : AllSteps (hostStep lookup) (Fits lookup) s requests) :
    key ∈ (run (hostStep lookup) s requests).keys ↔ (lastAccepted lookup s requests key).elim (key ∈ s.keys) (· = true) := by
  refine hfits.iff_lastAnswer (I := Sound) (P := fun s => key ∈ s.keys) (fun _ _ hfits hs => step_sound hfits hs) ?_ hs
  intro s request hfits hs
  apply ((changeHosts_change hs hfits).mem_keys hs key).trans
  unfold accepted
  split <;> rfl

/-! ## Peers -/

variable {saddr : SockAddr}

theorem ConvertAddr_length (hconvert : ConvertAddr saddr = some (FamilyInternet, some addr)) :
    addr.length = sizeof_in_addr := by
  cases saddr with
  | inet sin_addr =>
    obtain rfl : sin_addr.toList = addr := by simpa [ConvertAddr] using hconvert
    simp [sizeof_in_addr]
  | inet6 sin6_addr =>
    unfold ConvertAddr at hconvert
    dsimp only at hconvert
    split at hconvert
    · obtain rfl : sin6_addr.toList.drop 12 = addr := by simpa using hconvert
      simp [sizeof_in_addr]
    · simp [FamilyInternet, FamilyInternet6] at hconvert
  | _ => simp [ConvertAddr] at hconvert

theorem AddHost_internet (hlength : addr.length = sizeof_in_addr) : (AddHost lookup s true FamilyInternet addr true).2 = none := by
  have hok : requestLength lookup FamilyInternet addr = .ok addr.length := by
    unfold requestLength CheckAddr
    rw [if_neg (by decide), if_pos (.inl rfl), if_pos rfl, if_pos hlength, if_neg (by omega)]
  have hnew : ∀ t, (NewHost t FamilyInternet addr addr.length false true).2 = true := fun t => by
    unfold NewHost
    split
    · rfl
    · dsimp only
      rw [if_pos rfl]
  unfold AddHost
  rw [if_neg (by decide), hok]
  dsimp only
  rw [hnew, if_pos rfl]

/-- `CheckAddr` wants the length of the socket address, so the address of an IPv6 peer is never taken. -/
theorem AddHost_internet6 {authorized alloc : Bool} (hconvert : ConvertAddr saddr = some (FamilyInternet6, some addr)) :
    (AddHost lookup s authorized FamilyInternet6 addr alloc).2 ≠ none := by
  have hlength : addr.length = 16 := by
    cases saddr with
    | inet6 sin6_addr =>
      unfold ConvertAddr at hconvert
      dsimp only at hconvert
      split at hconvert
      · simp [FamilyInternet, FamilyInternet6] at hconvert
      · obtain rfl : sin6_addr.toList = addr := by simpa using hconvert
        simp
    | inet => simp [ConvertAddr, FamilyInternet, FamilyInternet6] at hconvert
    | _ => simp [ConvertAddr] at hconvert
  have hrefused : requestLength lookup FamilyInternet6 addr = .error (.BadValue addr.length) := by
    have hcheck : CheckAddr lookup FamilyInternet6 addr = -1 := by
      unfold CheckAddr
      rw [if_neg (by decide), if_pos rfl, hlength, if_neg (by decide)]
    unfold requestLength
    rw [if_neg (by decide), if_pos (.inr (.inl rfl)), hcheck, if_pos (by norm_num)]
  unfold AddHost
  rw [hrefused]
  cases authorized <;> simp

/-- A connection from an address in the list is let in. -/
theorem InvalidHost_of_mem (hs : Sound s) (hconvert : ConvertAddr saddr = some (FamilyInternet, some addr))
    (hin : (FamilyInternet, addr) ∈ s.keys) : InvalidHost lookup s saddr = false := by
  unfold InvalidHost
  split
  · rfl
  · rw [hconvert]
    dsimp only
    rw [if_neg fun h => absurd h.1 (by decide), Bool.not_eq_false', any_eq_true]
    obtain ⟨host, hhost, hkey⟩ := mem_map.1 hin
    refine ⟨host, hhost, ?_⟩
    rw [if_neg]
    · exact (addrEqual_iff (hs.exact host hhost)).2 hkey
    · have hfamily : host.family = FamilyInternet := congrArg Prod.fst hkey
      rw [hfamily]
      decide

/-! ## The reply -/

/-- The hosts one after the other from an offset on, each padded to four bytes. -/
def layout : ℤ → List Host → List HostWrite
  | _, [] => []
  | ptr, host :: rest =>
    { offset := ptr, family := UInt8.ofNat host.family, length := UInt16.ofNat host.addr.length, addr := host.addr } ::
      layout (ptr + sizeof_xHostEntry + pad_to_int32 host.addr.length) rest

/-- The bytes `countHosts` finds needed. -/
def encodedLength (hosts : List Host) : ℤ := (hosts.map fun host => pad_to_int32 host.addr.length + sizeof_xHostEntry).sum

theorem le_pad_to_int32 (bytes : ℤ) : bytes ≤ pad_to_int32 bytes := by
  unfold pad_to_int32
  omega

theorem encodedLength_nonneg (hosts : List Host) : 0 ≤ encodedLength hosts := by
  refine sum_nonneg fun x hx => ?_
  obtain ⟨host, -, rfl⟩ := mem_map.1 hx
  have := le_pad_to_int32 host.addr.length
  unfold sizeof_xHostEntry
  omega

theorem countHosts_eq {hosts : List Host} (hexact : ∀ host ∈ hosts, host.Exact) (nHosts : ℕ) (n : ℤ) :
    ∃ k ≤ hosts.length, countHosts hosts nHosts n = (nHosts + k, n + encodedLength (hosts.take k)) ∧
      (k = hosts.length ∨ hostsLimit ≤ n + encodedLength (hosts.take k)) := by
  induction hosts generalizing nHosts n with
  | nil => exact ⟨0, le_rfl, by simp [countHosts, encodedLength], .inl rfl⟩
  | cons host rest ih =>
    have hlen := (hexact host mem_cons_self).1
    have hcons : ∀ k, encodedLength ((host :: rest).take (k + 1)) =
        pad_to_int32 host.addr.length + sizeof_xHostEntry + encodedLength (rest.take k) := fun k => by simp [encodedLength]
    unfold countHosts
    dsimp only
    split
    next hlimit =>
      refine ⟨1, by simp, ?_, .inr ?_⟩
      · rw [hlen]
        simp [encodedLength]
      · rw [hcons 0]
        rw [hlen] at hlimit
        simpa [encodedLength] using hlimit
    · obtain ⟨k, hk, hcount, hend⟩ := ih (fun host hhost => hexact host (mem_cons_of_mem _ hhost)) (nHosts + 1)
        (n + (pad_to_int32 host.len + sizeof_xHostEntry))
      refine ⟨k + 1, by simpa using hk, ?_, ?_⟩
      · rw [hcount, hcons, hlen]
        congr 1
        · omega
        · ring
      · rw [hcons]
        refine hend.imp (fun h => by rw [h, length_cons]) fun h => ?_
        rw [hlen] at h
        omega

theorem writeHosts_eq {hosts : List Host} (hexact : ∀ host ∈ hosts, host.Exact) {k : ℕ} (ptr : ℤ)
    (hn : n = ptr + encodedLength (hosts.take k)) : writeHosts n ptr hosts = some (layout ptr (hosts.take k)) := by
  induction hosts generalizing ptr k with
  | nil =>
    rw [take_nil]
    rfl
  | cons host rest ih =>
    have hlen := (hexact host mem_cons_self).1
    have hpad := le_pad_to_int32 host.addr.length
    unfold writeHosts
    cases k with
    | zero =>
      -- the buffer is full, and a host needs at least its header
      rw [if_pos]
      · rfl
      · rw [hn, hlen]
        simp [encodedLength, sizeof_xHostEntry]
        omega
    | succ k =>
      have hrest := encodedLength_nonneg (rest.take k)
      have hcons : encodedLength ((host :: rest).take (k + 1)) =
          pad_to_int32 host.addr.length + sizeof_xHostEntry + encodedLength (rest.take k) := by simp [encodedLength]
      rw [if_neg (by omega), hlen, Int.toNat_natCast, take_length,
        ih (fun host hhost => hexact host (mem_cons_of_mem _ hhost)) (ptr + sizeof_xHostEntry + pad_to_int32 host.addr.length)
          (by rw [hn, hcons]; ring)]
      rfl

theorem layout_inside {hosts : List Host} {ptr : ℤ} {write : HostWrite} (hwrite : write ∈ layout ptr hosts) :
    ptr ≤ write.offset ∧ write.offset + sizeof_xHostEntry + write.addr.length ≤ ptr + encodedLength hosts := by
  induction hosts generalizing ptr with
  | nil => exact absurd hwrite not_mem_nil
  | cons host rest ih =>
    have hpad := le_pad_to_int32 host.addr.length
    have hrest := encodedLength_nonneg rest
    have hcons : encodedLength (host :: rest) = pad_to_int32 host.addr.length + sizeof_xHostEntry + encodedLength rest := by
      simp [encodedLength]
    rcases mem_cons.1 hwrite with rfl | hlater
    · dsimp only
      omega
    · obtain ⟨hlow, hhigh⟩ := ih hlater
      unfold sizeof_xHostEntry at *
      omega

/-- What `GetHosts` answers: the first entries of the list, all of them unless the limit is reached. -/
structure Encodes (hosts : List Host) (list : HostList) : Prop where
  writes : list.writes = layout 0 (hosts.take list.nHosts)
  len : list.len = encodedLength (hosts.take list.nHosts)
  all : list.nHosts = hosts.length ∨ list.nHosts ≤ hosts.length ∧ hostsLimit ≤ list.len
  inside : ∀ write ∈ list.writes, 0 ≤ write.offset ∧ write.offset + sizeof_xHostEntry + write.addr.length ≤ list.len

theorem GetHosts_encodes (hs : Sound s) :
    (∃ list, GetHosts s true = some (.ok list) ∧ Encodes s.validhosts list) ∧
      (GetHosts s false = GetHosts s true ∨ GetHosts s false = some (.error .BadAlloc)) := by
  obtain ⟨k, hk, hcount, hend⟩ := countHosts_eq hs.exact 0 0
  have hnonneg := encodedLength_nonneg (s.validhosts.take k)
  rw [zero_add, zero_add] at hcount
  rw [zero_add] at hend
  unfold GetHosts
  rw [hcount]
  dsimp only
  by_cases hzero : encodedLength (s.validhosts.take k) = 0
  · -- nothing is needed, so there is no entry
    have hempty : s.validhosts.take k = [] := by
      cases htake : s.validhosts.take k with
      | nil => rfl
      | cons host rest =>
        rw [htake] at hzero
        have hpad := le_pad_to_int32 host.addr.length
        have hrest := encodedLength_nonneg rest
        simp only [encodedLength, map_cons, sum_cons, sizeof_xHostEntry] at hzero hrest
        omega
    rw [if_neg (not_not.2 hzero), if_neg (not_not.2 hzero)]
    refine ⟨⟨_, rfl, ?_, rfl, hend.imp id fun h => ⟨hk, h⟩, ?_⟩, .inl rfl⟩
    · dsimp only
      rw [hempty]
      rfl
    · exact fun write hwrite => absurd hwrite not_mem_nil
  · rw [if_pos hzero, if_pos hzero, if_neg (by simp; omega), if_pos (by simp),
      writeHosts_eq hs.exact 0 (zero_add _).symm]
    refine ⟨⟨_, rfl, rfl, rfl, hend.imp id fun h => ⟨hk, h⟩, ?_⟩, .inr rfl⟩
    intro write hwrite
    have hinside := layout_inside hwrite
    rwa [zero_add] at hinside

/-! ## Runs -/

/-- **Host access list.** In every run whose requests meet `Fits`: no two entries are equal, an entry is there exactly when the last
accepted request for it added it (or none was accepted and it was there before), an error changes nothing, the address of an
IPv4 peer can be added and is let in while it is in the list, and `GetHosts` writes the entries inside its buffer. The address of
an IPv6 peer can never be added. -/
theorem access_list_sound (hs : Sound s) {requests : List HostRequest}
    (hfits : AllSteps (hostStep lookup) (Fits lookup) s requests) :
    let t := run (hostStep lookup) s requests
    t.keys.Nodup ∧
      (∀ key, key ∈ t.keys ↔ (lastAccepted lookup s requests key).elim (key ∈ s.keys) (· = true)) ∧
      (∀ past request future err, requests = past ++ request :: future →
        (changeHosts lookup (run (hostStep lookup) s past) request).2 = some err →
        (run (hostStep lookup) s (past ++ [request])).validhosts = (run (hostStep lookup) s past).validhosts ∧
          (run (hostStep lookup) s (past ++ [request])).LocalHostEnabled = (run (hostStep lookup) s past).LocalHostEnabled) ∧
      (∀ saddr addr, ConvertAddr saddr = some (FamilyInternet, some addr) →
        (AddHost lookup t true FamilyInternet addr true).2 = none ∧
          ((FamilyInternet, addr) ∈ t.keys → InvalidHost lookup t saddr = false)) ∧
      (∀ saddr addr authorized alloc, ConvertAddr saddr = some (FamilyInternet6, some addr) →
        (AddHost lookup t authorized FamilyInternet6 addr alloc).2 ≠ none) ∧
      (∃ list, GetHosts t true = some (.ok list) ∧ Encodes t.validhosts list) ∧
      (GetHosts t false = GetHosts t true ∨ GetHosts t false = some (.error .BadAlloc)) := by
  intro t
  have hsound : Sound t := hfits.invariant (fun _ _ hfits hs => step_sound hfits hs) hs
  refine ⟨hsound.nodup, fun key => mem_keys_run key hs hfits, ?_, ?_, fun saddr addr authorized alloc => AddHost_internet6,
    GetHosts_encodes hsound⟩
  · rintro past request future err rfl herror
    obtain ⟨hpast, hrequest, -⟩ := allSteps_append.1 hfits
    have hbefore : Sound (run (hostStep lookup) s past) := hpast.invariant (fun _ _ hfits hs => step_sound hfits hs) hs
    rw [run_snoc]
    exact (changeHosts_change hbefore hrequest).of_error herror
  · intro saddr addr hconvert
    exact ⟨AddHost_internet (ConvertAddr_length hconvert), InvalidHost_of_mem hsound hconvert⟩

section Examples

/-- A system that knows no IPv6 text and no user, and matches nothing. -/
def noLookup : Lookup := { inet_pton := fun _ => false, siLocalCredGetId := fun _ _ => false, siAddrMatch := fun _ _ _ => false }

def emptyList : AccessState := { validhosts := [], selfhosts := [], LocalHostEnabled := false, AccessEnabled := true }

def hostRequest (add : Bool) (family : ℕ) (addr : List UInt8) (alloc : Bool) : HostRequest :=
  { add := add, authorized := true, family := family, addr := addr, alloc := alloc }

/-- Adding an address twice, a name once, removing the address and adding it again. -/
def soundRequests : List HostRequest :=
  [hostRequest true FamilyInternet [10, 0, 0, 1] true, hostRequest true FamilyInternet [10, 0, 0, 1] true,
   hostRequest true FamilyLocalHost [104] true, hostRequest false FamilyInternet [10, 0, 0, 1] true,
   hostRequest true FamilyInternet6 [1] true, hostRequest true FamilyInternet [10, 0, 0, 1] true]

theorem access_list_sound_example :
    AllSteps (hostStep noLookup) (Fits noLookup) emptyList soundRequests ∧
      (run (hostStep noLookup) emptyList soundRequests).keys = [(FamilyInternet, [10, 0, 0, 1]), (FamilyLocalHost, [104])] ∧
      (run (hostStep noLookup) emptyList soundRequests).keys.Nodup :=
  have hfits : AllSteps (hostStep noLookup) (Fits noLookup) emptyList soundRequests := by decide +kernel
  ⟨hfits, by decide +kernel, (access_list_sound ⟨fun _ h => absurd h not_mem_nil, by decide⟩ hfits).1⟩

/-- **Three ways to break the list.** A local host's address whose length is negative as a `short` is put in twice and written by
`GetHosts` with a negative length, an allocation that fails leaves the flag set, and the address of an IPv6 peer is refused. -/
theorem access_list_unsound :
    (∃ addr : List UInt8, addr.length = 65535 ∧
      (run (hostStep noLookup) emptyList [hostRequest true FamilyLocalHost addr true]).keys.Nodup ∧
      ¬ (run (hostStep noLookup) emptyList
        [hostRequest true FamilyLocalHost addr true, hostRequest true FamilyLocalHost addr true]).keys.Nodup ∧
      GetHosts (run (hostStep noLookup) emptyList [hostRequest true FamilyLocalHost addr true]) true = none) ∧
    (AddHost noLookup emptyList true FamilyLocalHost [] false).2 = some .BadAlloc ∧
    (AddHost noLookup emptyList true FamilyLocalHost [] false).1.LocalHostEnabled = true ∧
    ConvertAddr (.inet6 (Vector.replicate 16 1)) = some (FamilyInternet6, some (List.replicate 16 1)) ∧
    (AddHost noLookup emptyList true FamilyInternet6 (List.replicate 16 1) true).2 = some (.BadValue 16) := by
  refine ⟨⟨replicate 65535 0, length_replicate, ?_⟩, by decide, by decide, by decide, by decide⟩
  generalize haddr : replicate 65535 (0 : UInt8) = addr
  have hlength : addr.length = 65535 := by rw [← haddr, length_replicate]
  have hshort : toShort 65535 = -1 := by decide
  have htake : addr.take 65535 = addr := by rw [← hlength, take_length]
  have hok : requestLength noLookup FamilyLocalHost addr = .ok 65535 := by
    unfold requestLength
    rw [hlength]
    rfl
  -- the entry keeps −1, so that it is not found the second time
  have hone : run (hostStep noLookup) emptyList [hostRequest true FamilyLocalHost addr true] =
      { emptyList with
        validhosts := [{ family := FamilyLocalHost, len := -1, addr := addr, requested := false }], LocalHostEnabled := true } := by
    simp [hostStep, changeHosts, hostRequest, AddHost, hok, NewHost, emptyList, hshort, htake, markRequested]
  have htwo : run (hostStep noLookup) emptyList
      [hostRequest true FamilyLocalHost addr true, hostRequest true FamilyLocalHost addr true] =
      { emptyList with
        validhosts := [{ family := FamilyLocalHost, len := -1, addr := addr, requested := false },
          { family := FamilyLocalHost, len := -1, addr := addr, requested := false }],
        LocalHostEnabled := true } := by
    simp [hostStep, changeHosts, hostRequest, AddHost, hok, NewHost, emptyList, hshort, htake, markRequested, addrEqual]
  rw [hone, htwo]
  refine ⟨nodup_singleton _, by simp [AccessState.keys], ?_⟩
  unfold GetHosts
  simp [countHosts, writeHosts, pad_to_int32, sizeof_xHostEntry]

end Examples

end Xenia.Os.Access
