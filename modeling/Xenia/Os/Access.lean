import Xenia.Lib.Run
import Xenia.Lib.Mem

/-!
# The host access list

`AddHost` and `RemoveHost` change the list of hosts that may connect, `InvalidHost` looks the address of a
connection up in it and `GetHosts` writes it into a reply. The length of an address is checked for each
family (`CheckAddr`), and kept in a 16-bit integer in the entry.

`Lookup` is what the server asks the system for: whether a text is an IPv6 address or the name of a user or
group, and whether a server-interpreted entry matches a connection.
-/

namespace Xenia.Os.Access

open Xenia.Lib

def FamilyInternet : ℕ := 0
def FamilyDECnet : ℕ := 1
def FamilyChaos : ℕ := 2
def FamilyServerInterpreted : ℕ := 5
def FamilyInternet6 : ℕ := 6
def FamilyLocalHost : ℕ := 252
def FamilyLocal : ℕ := 256

inductive HostError
  | BadAccess
  | BadValue (errorValue : ℕ)
  | BadAlloc
deriving DecidableEq, Repr

/-- An entry; `len` is a `short`, and `addr` is the memory after the entry. -/
structure Host where
  family : ℕ
  len : ℤ
  addr : List UInt8
  requested : Bool
deriving DecidableEq, Repr

structure AccessState where
  validhosts : List Host
  selfhosts : List Host
  LocalHostEnabled : Bool
  AccessEnabled : Bool
deriving DecidableEq, Repr

structure Lookup where
  inet_pton : List UInt8 → Bool
  siLocalCredGetId : Bool → List UInt8 → Bool
  siAddrMatch : ℕ → Option (List UInt8) → Host → Bool

variable (lookup : Lookup)

/-- A conversion to `short`. -/
def toShort (x : ℤ) : ℤ := Int.bmod x (2 ^ 16)

def addrEqual (family : ℕ) (address : List UInt8) (length : ℤ) (host : Host) : Bool :=
  family == host.family && length == host.len && address.take length.toNat == host.addr.take length.toNat

/-! ## Server-interpreted addresses -/

def SI_HOSTNAME_MAXLEN : ℕ := 256
def SI_IPv6_MAXLEN : ℕ := 46

/-- The loop of `siHostnameCheckAddr`. -/
def hostnameChars : Bool → Bool → List UInt8 → Bool
  | _, _, [] => true
  | dotAllowed, dashAllowed, c :: rest =>
    if c = 0x2E then dotAllowed && hostnameChars false false rest
    else if c = 0x2D then dashAllowed && hostnameChars false dashAllowed rest
    else if (0x30 ≤ c ∧ c ≤ 0x3A) ∨ (0x61 ≤ c ∧ c ≤ 0x7A) ∨ (0x41 ≤ c ∧ c ≤ 0x5A) then hostnameChars true true rest
    else false

def siHostnameCheckAddr (value : List UInt8) : ℤ :=
  if value.length = 0 ∨ value.length ≥ SI_HOSTNAME_MAXLEN then -1
  else if hostnameChars false false value then value.length
  else -1

def siIPv6CheckAddr (value : List UInt8) : ℤ :=
  if value.length < 3 then -1
  else if value.length ≥ SI_IPv6_MAXLEN then -1
  else if lookup.inet_pton value then value.length
  else -1

/-- `siLocalCredCheckAddr`, for the name of a user or of a group. -/
def siLocalCredCheckAddr (user : Bool) (value : List UInt8) : ℤ :=
  if lookup.siLocalCredGetId user value then value.length else -1

/-- The types that `siTypesInitialize` registers: hostname, ipv6, localuser and localgroup. -/
def siTypeList : List (List UInt8 × (List UInt8 → ℤ)) :=
  [([104, 111, 115, 116, 110, 97, 109, 101], siHostnameCheckAddr),
   ([105, 112, 118, 54], siIPv6CheckAddr lookup),
   ([108, 111, 99, 97, 108, 117, 115, 101, 114], siLocalCredCheckAddr lookup true),
   ([108, 111, 99, 97, 108, 103, 114, 111, 117, 112], siLocalCredCheckAddr lookup false)]

/-- `siCheckAddr`: the name of a type, a zero and the value. -/
def siCheckAddr (addrString : List UInt8) : ℤ :=
  match addrString.findIdx? (· == 0) with
  | none => -1
  | some strlen =>
    match (siTypeList lookup).find? (·.1 == addrString.take strlen) with
    | none => -1
    | some s =>
      let len := s.2 (addrString.drop (strlen + 1))
      if len ≥ 0 then len + (strlen + 1 : ℕ) else len

/-! ## Adding and removing -/

def sizeof_in_addr : ℕ := 4
def sizeof_sockaddr_in6 : ℕ := 28

def CheckAddr (family : ℕ) (pAddr : List UInt8) : ℤ :=
  if family = FamilyInternet then if pAddr.length = sizeof_in_addr then pAddr.length else -1
  else if family = FamilyInternet6 then if pAddr.length = sizeof_sockaddr_in6 then pAddr.length else -1
  else if family = FamilyServerInterpreted then siCheckAddr lookup pAddr
  else -1

/-- The switch of `AddHost` and `RemoveHost`: the length of the address. -/
def requestLength (family : ℕ) (pAddr : List UInt8) : Except HostError ℤ :=
  if family = FamilyLocalHost then .ok pAddr.length
  else if family = FamilyInternet ∨ family = FamilyInternet6 ∨ family = FamilyDECnet ∨ family = FamilyChaos ∨
      family = FamilyServerInterpreted then
    if CheckAddr lookup family pAddr < 0 then .error (.BadValue pAddr.length) else .ok (CheckAddr lookup family pAddr)
  else .error (.BadValue family)

/-- The first of the server's own addresses that is equal is marked as requested. -/
def markRequested (family : ℕ) (addr : List UInt8) (len : ℤ) : List Host → List Host
  | [] => []
  | host :: rest =>
    if addrEqual family addr len host then { host with requested := true } :: rest
    else host :: markRequested family addr len rest

/-- `NewHost`; `alloc` is the answer of the allocator. -/
def NewHost (s : AccessState) (family : ℕ) (addr : List UInt8) (len : ℤ) (addingLocalHosts alloc : Bool) :
    AccessState × Bool :=
  if s.validhosts.any (addrEqual family addr len) then (s, true)
  else
    let s := if addingLocalHosts then s else { s with selfhosts := markRequested family addr len s.selfhosts }
    if alloc then
      let host : Host := { family := family, len := toShort len, addr := addr.take len.toNat, requested := false }
      ({ s with validhosts := host :: s.validhosts }, true)
    else (s, false)

/-- `AddHost`; `authorized` is whether the client may change the list. -/
def AddHost (s : AccessState) (authorized : Bool) (family : ℕ) (pAddr : List UInt8) (alloc : Bool) :
    AccessState × Option HostError :=
  if !authorized then (s, some .BadAccess) else
  match requestLength lookup family pAddr with
  | .error err => (s, some err)
  | .ok len =>
    let s := if family = FamilyLocalHost then { s with LocalHostEnabled := true } else s
    let r := NewHost s family pAddr len false alloc
    (r.1, if r.2 then none else some .BadAlloc)

def RemoveHost (s : AccessState) (authorized : Bool) (family : ℕ) (pAddr : List UInt8) : AccessState × Option HostError :=
  if !authorized then (s, some .BadAccess) else
  match requestLength lookup family pAddr with
  | .error err => (s, some err)
  | .ok len =>
    let s := if family = FamilyLocalHost then { s with LocalHostEnabled := false } else s
    ({ s with validhosts := s.validhosts.eraseP (addrEqual family pAddr len) }, none)

/-! ## The reply -/

def pad_to_int32 (bytes : ℤ) : ℤ := (bytes + 3) / 4 * 4

def sizeof_xHostEntry : ℤ := 4

/-- From this size on no more hosts are counted. -/
def hostsLimit : ℤ := 1048576

/-- The first loop of `GetHosts`: the hosts counted and the bytes they need. -/
def countHosts : List Host → ℕ → ℤ → ℕ × ℤ
  | [], nHosts, n => (nHosts, n)
  | host :: rest, nHosts, n =>
    let n := n + (pad_to_int32 host.len + sizeof_xHostEntry)
    if n ≥ hostsLimit then (nHosts + 1, n) else countHosts rest (nHosts + 1) n

/-- What is written for a host: an `xHostEntry` at the offset and the address after it. -/
structure HostWrite where
  offset : ℤ
  family : UInt8
  length : UInt16
  addr : List UInt8
deriving DecidableEq, Repr

/-- The second loop of `GetHosts`; none when `memcpy` is called with a negative length. -/
def writeHosts (n : ℤ) : ℤ → List Host → Option (List HostWrite)
  | _, [] => some []
  | ptr, host :: rest =>
    if ptr + (sizeof_xHostEntry + host.len) > n then some []
    else if host.len < 0 then none
    else
      (writeHosts n (ptr + sizeof_xHostEntry + pad_to_int32 host.len) rest).map
        ({ offset := ptr, family := UInt8.ofNat host.family, length := UInt16.ofNat host.len.toNat,
           addr := host.addr.take host.len.toNat } :: ·)

structure HostList where
  writes : List HostWrite
  nHosts : ℕ
  len : ℤ
  enabled : Bool
deriving DecidableEq, Repr

/-- `GetHosts`; none when it writes outside its buffer. No buffer of a negative size can be had. -/
def GetHosts (s : AccessState) (alloc : Bool) : Option (Except HostError HostList) :=
  let (nHosts, n) := countHosts s.validhosts 0 0
  if n ≠ 0 then
    if n < 0 ∨ !alloc then some (.error .BadAlloc)
    else (writeHosts n 0 s.validhosts).map fun writes =>
      .ok { writes := writes, nHosts := nHosts, len := n, enabled := s.AccessEnabled }
  else some (.ok { writes := [], nHosts := nHosts, len := n, enabled := s.AccessEnabled })

/-! ## Connections -/

/-- The peer's address, as far as it is looked at. -/
inductive SockAddr
  | empty
  | unspec
  | unix
  | inet (sin_addr : Vector UInt8 4)
  | inet6 (sin6_addr : Vector UInt8 16)
  | other
deriving DecidableEq, Repr

/-- `IN6_IS_ADDR_V4MAPPED`. -/
def isV4Mapped (addr : Vector UInt8 16) : Bool := addr.toList.take 12 == List.replicate 10 0 ++ [0xff, 0xff]

/-- `ConvertAddr`: the family, and the address where there is one. -/
def ConvertAddr : SockAddr → Option (ℕ × Option (List UInt8))
  | .empty | .unspec | .unix => some (FamilyLocal, none)
  | .inet sin_addr => some (FamilyInternet, some sin_addr.toList)
  | .inet6 sin6_addr =>
    if isV4Mapped sin6_addr then some (FamilyInternet, some (sin6_addr.toList.drop 12))
    else some (FamilyInternet6, some sin6_addr.toList)
  | .other => none

/-- `InvalidHost`: the connection is not let in. -/
def InvalidHost (s : AccessState) (saddr : SockAddr) : Bool :=
  if !s.AccessEnabled then false else
  match ConvertAddr saddr with
  | none => true
  | some (family, addr) =>
    if family = FamilyLocal ∧ (s.LocalHostEnabled ∨
        s.selfhosts.any (fun selfhost => s.validhosts.any (addrEqual selfhost.family selfhost.addr selfhost.len))) then false
    else
      !s.validhosts.any fun host =>
        if host.family = FamilyServerInterpreted then lookup.siAddrMatch family addr host
        else addr.any fun addr => addrEqual family addr addr.length host

/-! ## Runs -/

/-- A request to change the list. -/
structure HostRequest where
  add : Bool
  authorized : Bool
  family : ℕ
  addr : List UInt8
  alloc : Bool
deriving DecidableEq, Repr

def changeHosts (s : AccessState) (request : HostRequest) : AccessState × Option HostError :=
  if request.add then AddHost lookup s request.authorized request.family request.addr request.alloc
  else RemoveHost lookup s request.authorized request.family request.addr

def hostStep (s : AccessState) (request : HostRequest) : AccessState := (changeHosts lookup s request).1

end Xenia.Os.Access
