import Xenia.Lib.Run
import Mathlib.Tactic

/-!
# The server grab

While a client has the server grabbed, the requests of the others wait: `mark_client_grab` sets them aside from the
ready list, and `listen_to_client` says whose connection is polled. A client can be made impervious to that. A client
that asks for the grab while another has it is ignored, with its request rewound, and `UngrabServer` wakes one of these.

`connect`, `arrive` and `GrabOp.dispatch` are what the rest of the server does with a client: a connection is made, its
requests arrive, and one that is on the ready list gets its next request executed. Some fields are there to
say what happens, and the code does not have them: the requests a client has sent and those it
got executed, its `IgnoreClient` calls whose `AttendClient` is to come, and the clients woken whose request is to come.
-/

namespace Xenia.Dix.ServerGrab

open Xenia.Lib

def MAXCLIENTS : ℕ := 2048

def mskcnt : ℕ := (MAXCLIENTS + 31) / 32

inductive Request
  | GrabServer
  | UngrabServer
  | GrabControl (impervious : Bool)
  | other
deriving DecidableEq, Repr

/-- A client; `ignored` and `impervious` are the bits `OS_COMM_IGNORED` and `OS_COMM_GRAB_IMPERVIOUS` of its flags,
`listening` is whether its connection is polled, and `input` what is to be read from it. -/
structure Client where
  ignoreCount : ℤ
  ignored : Bool
  impervious : Bool
  listening : Bool
  input : List Request
  received : List Request
  served : List Request
  others : ℕ
deriving DecidableEq, Repr

/-- The clients by their indices, the two lists, and the variables of the grab. `grabState` is `GrabActive` exactly
when there is a `grabClient`. -/
structure GrabState where
  clients : ℕ → Option Client
  ready : List ℕ
  saved : List ℕ
  GrabInProgress : ℕ
  grabClient : Option ℕ
  grabWaiters : ℕ → Bool
  woken : List ℕ

namespace GrabState

def modify (s : GrabState) (i : ℕ) (f : Client → Client) : GrabState :=
  { s with clients := Function.update s.clients i ((s.clients i).map f) }

end GrabState

/-! ## Polling and the ready list -/

def listen_to_client (GrabInProgress i : ℕ) (client : Client) : Bool :=
  if client.ignored then false
  else if GrabInProgress = 0 then true
  else if i = GrabInProgress then true
  else client.impervious

def Client.poll (GrabInProgress i : ℕ) (client : Client) : Client :=
  { client with listening := listen_to_client GrabInProgress i client }

def set_poll_client (s : GrabState) (i : ℕ) : GrabState := s.modify i (·.poll s.GrabInProgress i)

def set_poll_clients (s : GrabState) : GrabState :=
  { s with clients := fun i => (s.clients i).map (·.poll s.GrabInProgress i) }

/-- Is the client on one of the two lists? -/
def GrabState.linked (s : GrabState) (i : ℕ) : Bool := s.ready.contains i || s.saved.contains i

def mark_client_ready (s : GrabState) (i : ℕ) : GrabState :=
  if s.linked i then s else { s with ready := s.ready ++ [i] }

def mark_client_saved_ready (s : GrabState) (i : ℕ) : GrabState :=
  if s.linked i then s else { s with saved := s.saved ++ [i] }

def mark_client_not_ready (s : GrabState) (i : ℕ) : GrabState :=
  { s with ready := s.ready.erase i, saved := s.saved.erase i }

def mark_client_grab (s : GrabState) (grab : ℕ) : GrabState :=
  { s with ready := s.ready.filter (· == grab), saved := s.saved ++ s.ready.filter (· != grab) }

def mark_client_ungrab (s : GrabState) : GrabState := { s with ready := s.ready ++ s.saved, saved := [] }

/-- `OnlyListenToOneClient`, for a client that the access callback lets through. -/
def OnlyListenToOneClient (s : GrabState) (i : ℕ) : GrabState :=
  if s.GrabInProgress = 0 then set_poll_clients { s with GrabInProgress := i } else s

def ListenToAllClients (s : GrabState) : GrabState :=
  if s.GrabInProgress ≠ 0 then set_poll_clients { s with GrabInProgress := 0 } else s

def IgnoreClient (s : GrabState) (i : ℕ) : GrabState :=
  match s.clients i with
  | none => s
  | some client =>
    let s := s.modify i fun c => { c with ignoreCount := c.ignoreCount + 1 }
    if client.ignoreCount + 1 > 1 then s
    else set_poll_client ((mark_client_not_ready s i).modify i fun c => { c with ignored := true }) i

/-- `AttendClient`; nothing is done for a client that is gone. -/
def AttendClient (s : GrabState) (i : ℕ) : GrabState :=
  match s.clients i with
  | none => s
  | some client =>
    let s := s.modify i fun c => { c with ignoreCount := c.ignoreCount - 1 }
    if client.ignoreCount - 1 ≠ 0 then s
    else
      let s := set_poll_client (s.modify i fun c => { c with ignored := false }) i
      if (s.clients i).any (listen_to_client s.GrabInProgress i) then mark_client_ready s i
      else mark_client_saved_ready s i

def MakeClientGrabImpervious (s : GrabState) (i : ℕ) : GrabState :=
  set_poll_client (s.modify i fun c => { c with impervious := true }) i

def MakeClientGrabPervious (s : GrabState) (i : ℕ) : GrabState :=
  set_poll_client (s.modify i fun c => { c with impervious := false }) i

/-! ## The requests -/

/-- `ResetCurrentRequest`: the request is to be read again. -/
def ResetCurrentRequest (s : GrabState) (i : ℕ) (request : Request) : GrabState :=
  let s := s.modify i fun c => { c with input := request :: c.input, served := c.served.dropLast }
  if (s.clients i).any (listen_to_client s.GrabInProgress i) then mark_client_ready s i else s

/-- `ProcGrabServer`; `access` is the answer of the access callback. -/
def ProcGrabServer (s : GrabState) (i : ℕ) (access : Bool) : GrabState :=
  if s.grabClient ≠ none ∧ s.grabClient ≠ some i then
    let s := ResetCurrentRequest s i .GrabServer
    IgnoreClient { s with grabWaiters := Function.update s.grabWaiters i true } i
  else if !access then s
  else
    let s := OnlyListenToOneClient s i
    mark_client_grab { s with grabClient := some i } i

/-- A word of `grabWaiters` is not zero. -/
def waitersWord (grabWaiters : ℕ → Bool) (word : ℕ) : Bool := (List.range 32).any fun bit => grabWaiters (32 * word + bit)

/-- The waiter that `UngrabServer` wakes: the lowest bit of the last word that is not zero. -/
def nextWaiter (grabWaiters : ℕ → Bool) : Option ℕ :=
  ((List.range mskcnt).reverse.find? (waitersWord grabWaiters)).bind fun word =>
    ((List.range 32).map (32 * word + ·)).find? grabWaiters

def UngrabServer (s : GrabState) : GrabState :=
  let s := ListenToAllClients { s with grabClient := none }
  let s := mark_client_ungrab s
  match nextWaiter s.grabWaiters with
  | none => s
  | some i =>
    let s := AttendClient { s with grabWaiters := Function.update s.grabWaiters i false } i
    { s with woken := s.woken ++ [i] }

/-- A client's request is executed. -/
def execute (s : GrabState) (i : ℕ) (access : Bool) : Request → GrabState
  | .GrabServer => ProcGrabServer s i access
  | .UngrabServer => UngrabServer s
  | .GrabControl impervious => if impervious then MakeClientGrabImpervious s i else MakeClientGrabPervious s i
  | .other => s

/-! ## Runs -/

inductive GrabOp
  | connect (i : ℕ)
  | arrive (i : ℕ) (requests : List Request)
  | dispatch (i : ℕ) (access : Bool)
  | ignore (i : ℕ)
  | attend (i : ℕ)
  | exit (i : ℕ)
deriving DecidableEq, Repr

/-- A new client, polled unless the server is grabbed. -/
def newClient : Client :=
  { ignoreCount := 0, ignored := false, impervious := false, listening := false, input := [], received := [],
    served := [], others := 0 }

def connect (s : GrabState) (i : ℕ) : GrabState :=
  if i = 0 ∨ MAXCLIENTS ≤ i ∨ (s.clients i).isSome then s
  else set_poll_client { s with clients := Function.update s.clients i (some newClient) } i

/-- Requests arrive, or have arrived before; the client is ready if its connection is polled (`ClientReady`). -/
def arrive (s : GrabState) (i : ℕ) (requests : List Request) : GrabState :=
  match s.clients i with
  | none => s
  | some client =>
    let s := s.modify i fun c => { c with input := c.input ++ requests, received := c.received ++ requests }
    if client.listening && !(client.input ++ requests).isEmpty then mark_client_ready s i else s

/-- A client of the ready list has its next request executed, or is taken off the list when there is none. -/
def dispatch (s : GrabState) (i : ℕ) (access : Bool) : GrabState :=
  if s.ready.contains i then
    match (s.clients i).bind (·.input.head?) with
    | none => mark_client_not_ready s i
    | some request =>
      let s := s.modify i fun c => { c with input := c.input.tail, served := c.served ++ [request] }
      execute { s with woken := s.woken.filter (· != i) } i access request
  else s

/-- `CloseDownClient`. -/
def CloseDownClient (s : GrabState) (i : ℕ) : GrabState :=
  if (s.clients i).isNone then s
  else
    let s := if s.grabClient = some i then UngrabServer s else s
    let s := { s with grabWaiters := Function.update s.grabWaiters i false }
    let s := { s with clients := Function.update s.clients i none, woken := s.woken.filter (· != i) }
    mark_client_not_ready s i

def grabStep (s : GrabState) : GrabOp → GrabState
  | .connect i => connect s i
  | .arrive i requests => arrive s i requests
  | .dispatch i access => dispatch s i access
  | .ignore i => IgnoreClient (s.modify i fun c => { c with others := c.others + 1 }) i
  | .attend i =>
    if (s.clients i).any (0 < ·.others) then AttendClient (s.modify i fun c => { c with others := c.others - 1 }) i else s
  | .exit i => CloseDownClient s i

def noClients : GrabState :=
  { clients := fun _ => none, ready := [], saved := [], GrabInProgress := 0, grabClient := none,
    grabWaiters := fun _ => false, woken := [] }

end Xenia.Dix.ServerGrab
