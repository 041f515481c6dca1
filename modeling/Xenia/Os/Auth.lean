import Mathlib.Tactic

/-!
# Cookie admission

The cookies of `MIT-MAGIC-COOKIE-1` are a list (`mit_auth`) that requests and the authorization file add to. `CheckAuthorization`
loads the file when it has changed and then looks the client's cookie up; `timingsafe_memcmp` compares without branches.

Times and the contents of the file are arguments, and so is the range that `GetXIDRange` finds when the server's ids are used up.
-/

namespace Xenia.Os.Auth

/-- `~0`; an XID is a `CARD32` in the server. -/
def noXid : ℕ := 2 ^ 32 - 1

def XAUTH_PROTO_MIT : List UInt8 := [77, 73, 84, 45, 77, 65, 71, 73, 67, 45, 67, 79, 79, 75, 73, 69, 45, 49]

/-- A cookie; its `len` is the length of the data. -/
structure MitAuth where
  data : List UInt8
  id : ℕ
deriving DecidableEq, Repr

/-- A range of free ids that `GetXIDRange` can find for the server; when there is none the server exits. -/
structure XidRange where
  min : ℕ
  max : ℕ
  pos : 0 < min
  le : min ≤ max
  small : max < 2 ^ 29

/-- What an allocation of a cookie meets: whether there is memory, and the range of ids if one is needed. -/
structure Supply where
  alloc : Bool
  range : XidRange

/-- An entry of the authorization file. -/
structure FileEntry where
  name : List UInt8
  data : List UInt8
  supply : Supply

structure AuthState where
  authorization_file : Bool
  ShouldLoadAuth : Bool
  lastmod : ℤ
  loaded : Bool
  mit_auth : List MitAuth
  fakeID : ℕ
  endFakeID : ℕ
deriving DecidableEq, Repr

/-! ## Comparing -/

/-- The difference of two bytes as an `int`, shifted by `CHAR_BIT`: -1 when it is negative. -/
def below (p q : UInt8) : BitVec 32 := (p.toBitVec.setWidth 32 - q.toBitVec.setWidth 32).sshiftRight 8

/-- The loop of `timingsafe_memcmp`. -/
def memcmpLoop : BitVec 32 → BitVec 32 → List UInt8 → List UInt8 → BitVec 32
  | res, done, b1 :: p1, b2 :: p2 =>
    let lt := below b1 b2
    let gt := below b2 b1
    let cmp := lt - gt
    memcmpLoop (res ||| (cmp &&& ~~~done)) (done ||| (lt ||| gt)) p1 p2
  | res, _, _, _ => res

def timingsafe_memcmp (b1 b2 : List UInt8) : BitVec 32 := memcmpLoop 0 0 b1 b2

/-! ## Cookies -/

/-- `FakeClientID` for the server. -/
def dixAllocServerXID (s : AuthState) (range : XidRange) : AuthState × ℕ :=
  -- 0 is no id
  let s := if s.fakeID = 0 then { s with fakeID := 1 } else s
  if s.fakeID ≠ s.endFakeID then ({ s with fakeID := s.fakeID + 1 }, s.fakeID)
  else ({ s with fakeID := range.min + 1, endFakeID := range.max + 1 }, range.min)

def MitAddCookie (s : AuthState) (data : List UInt8) (supply : Supply) : AuthState × ℕ :=
  match s.mit_auth.find? (·.data == data) with
  | some walk => (s, walk.id)
  | none =>
    if !supply.alloc then (s, 0)
    else
      let r := dixAllocServerXID s supply.range
      ({ r.1 with mit_auth := { data := data, id := r.2 } :: s.mit_auth }, r.2)

/-- `MitCheckCookie`: the id, and what is behind `reason` afterwards. -/
def MitCheckCookie (mit_auth : List MitAuth) (data : List UInt8) (reason : Option String) : ℕ × Option String :=
  match mit_auth.find? (fun auth => data.length == auth.data.length && timingsafe_memcmp data auth.data == 0) with
  | some auth => (auth.id, reason)
  | none =>
    -- the message is assigned to the parameter, not to what it points to
    (noXid, reason)

def MitRemoveCookie (s : AuthState) (data : List UInt8) : AuthState × Bool :=
  if s.mit_auth.any (·.data == data) then ({ s with mit_auth := s.mit_auth.eraseP (·.data == data) }, true) else (s, false)

/-- `MitGenerateCookie`; `random` is what `arc4random_buf` puts into the cookie, whatever was mixed in before. -/
def MitGenerateCookie (s : AuthState) (random : Vector UInt8 16) (supply : Supply) : AuthState × ℕ :=
  MitAddCookie s random.toList supply

/-! ## Authorizations -/

/-- A length that is cast to `ushort`. -/
def ushort (data : List UInt8) : List UInt8 := data.take (data.length % 2 ^ 16)

/-- An entry that is read: the state and the count. -/
def loadEntry (r : AuthState × ℤ) (auth : FileEntry) : AuthState × ℤ :=
  if XAUTH_PROTO_MIT = auth.name then
    let added := MitAddCookie r.1 auth.data auth.supply
    (added.1, if added.2 ≠ 0 then r.2 + 1 else r.2)
  else r

/-- `LoadAuthorization`; `file` is what is in the file, none when it cannot be opened. -/
def LoadAuthorization (s : AuthState) (file : Option (List FileEntry)) : AuthState × ℤ :=
  let s := { s with ShouldLoadAuth := false }
  if !s.authorization_file then (s, 0) else
  match file with
  | none => (s, -1)
  | some entries => entries.foldl loadEntry (s, 0)

/-- What a check answers, and whether it called `EnableLocalAccess` (true) or `DisableLocalAccess` (false). -/
structure CheckResult where
  id : ℕ
  reason : Option String
  access : Option Bool
deriving DecidableEq, Repr

/-- Is the file to be loaded? `stat` is its modification time, none when there is no file. -/
def noteTime (s : AuthState) (stat : Option ℤ) : AuthState :=
  match if s.authorization_file then stat else none with
  | none => if s.lastmod ≠ 0 then { s with lastmod := 0, ShouldLoadAuth := true } else s
  | some st_mtim => if st_mtim > s.lastmod then { s with lastmod := st_mtim, ShouldLoadAuth := true } else s

/-- The lazy load of `CheckAuthorization`, and what it does to local access. -/
def loadIfNeeded (s : AuthState) (stat : Option ℤ) (file : Option (List FileEntry)) : AuthState × Option Bool :=
  let s := noteTime s stat
  if s.ShouldLoadAuth then
    let r := LoadAuthorization s file
    if r.2 > 0 then ({ r.1 with loaded := true }, some false)
    else if r.2 = 0 ∨ r.1.loaded = false then (r.1, some true)
    else (r.1, none)
  else (s, none)

def unsupported : String := "Authorization protocol not supported by server\n"

def noProtocol : String := "Authorization required, but no authorization protocol specified\n"

def CheckAuthorization (s : AuthState) (name data : List UInt8) (stat : Option ℤ) (file : Option (List FileEntry))
    (reason : Option String) : AuthState × CheckResult :=
  let r := loadIfNeeded s stat file
  if name.length ≠ 0 then
    if XAUTH_PROTO_MIT = name then
      let checked := MitCheckCookie r.1.mit_auth (ushort data) reason
      (r.1, { id := checked.1, reason := checked.2, access := r.2 })
    else (r.1, { id := noXid, reason := some unsupported, access := r.2 })
  else (r.1, { id := noXid, reason := some noProtocol, access := r.2 })

/-- `ResetAuthorization`, with `MitResetCookie`. -/
def ResetAuthorization (s : AuthState) : AuthState := { s with mit_auth := [], ShouldLoadAuth := true }

def AddAuthorization (s : AuthState) (name data : List UInt8) (supply : Supply) : AuthState × ℕ :=
  if XAUTH_PROTO_MIT = name then MitAddCookie s (ushort data) supply else (s, 0)

def RemoveAuthorization (s : AuthState) (name data : List UInt8) : AuthState × Bool :=
  if XAUTH_PROTO_MIT = name then MitRemoveCookie s data else (s, false)

def GenerateAuthorization (s : AuthState) (name : List UInt8) (random : Vector UInt8 16) (supply : Supply) : AuthState × ℕ :=
  if XAUTH_PROTO_MIT = name then MitGenerateCookie s random supply else (s, 0)

inductive AuthRequest
  | InitAuthorization (named : Bool)
  | AddAuthorization (name data : List UInt8) (supply : Supply)
  | RemoveAuthorization (name data : List UInt8)
  | GenerateAuthorization (name : List UInt8) (random : Vector UInt8 16) (supply : Supply)
  | ResetAuthorization
  | CheckAuthorization (name data : List UInt8) (stat : Option ℤ) (file : Option (List FileEntry))
  /-- Another part of the server takes an id. -/
  | dixAllocServerXID (range : XidRange)

/-- The check of `ClientAuthorized` starts without a reason. -/
def authStep (s : AuthState) : AuthRequest → AuthState
  | .InitAuthorization named => { s with authorization_file := named }
  | .AddAuthorization name data supply => (AddAuthorization s name data supply).1
  | .RemoveAuthorization name data => (RemoveAuthorization s name data).1
  | .GenerateAuthorization name random supply => (GenerateAuthorization s name random supply).1
  | .ResetAuthorization => ResetAuthorization s
  | .CheckAuthorization name data stat file => (CheckAuthorization s name data stat file none).1
  | .dixAllocServerXID range => (dixAllocServerXID s range).1

end Xenia.Os.Auth
