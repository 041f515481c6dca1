import Xenia.Lib.Outcome
import Xenia.Lib.Run
import Mathlib.Tactic

/-!
# The client table

`clients[i]` points to the client of index `i`. `NextAvailableClient` fills the first free place,
`SendConnSetup` ends the setup of a connection, and `CloseDownClient` takes a client out of the
table, or leaves it there with its resources until it is closed again.

* `client_table_sound`: the table and its counters are sound in every run in which a client that
  was allocated gets its resources and its first request.
* `client_table_unsound`: where it does not get them, it is freed, and the table keeps the pointer.
-/

namespace Xenia.Dix.Clients

open Xenia.Lib List Function Option Bool

/-! ### Data -/

def MAXCLIENTS : ℕ := 2048

/-- `LimitClients`: how many clients the server was told to take. -/
structure LimitClients where
  val : ℕ
  pos : 0 < val
  le : val ≤ MAXCLIENTS

inductive ClientState
  | initial
  | running
  | retained
  | gone
  deriving DecidableEq

inductive CloseDownMode
  | destroyAll
  | retainPermanent
  | retainTemporary
  deriving DecidableEq

inductive RequestVector
  | initialVector
  | procVector
  | swappedProcVector
  deriving DecidableEq

structure ClientRec where
  index : ℕ
  clientState : ClientState
  clientGone : Bool
  closeDownMode : CloseDownMode
  requestVector : RequestVector
  swapped : Bool
  noClientException : ℤ
  deriving DecidableEq

/-- The table, the clients by their addresses, and the counters. -/
structure State where
  clients : ℕ → Option ℕ
  heap : ℕ → Option ClientRec
  nextFreeClientID : ℕ
  currentMaxClients : ℕ
  nClients : ℤ

/-- What the three allocations of `NextAvailableClient` give. -/
structure Answers where
  client : Option ℕ
  clientResources : Bool
  fakeRequest : Bool
  deriving DecidableEq

namespace State

def put (client : ℕ) (c : ClientRec) (s : State) : State :=
  { s with heap := Function.update s.heap client (some c) }

/-- `dixFreeObjectWithPrivates`. -/
def free (client : ℕ) (s : State) : State :=
  { s with heap := Function.update s.heap client none }

def setEntry (i : ℕ) (client : Option ℕ) (s : State) : State :=
  { s with clients := Function.update s.clients i client }

/-- `clients[i].index` and the rest of the client, through the table. -/
def client? (s : State) (i : ℕ) : Option ClientRec := (s.clients i).bind s.heap

end State

/-! ### The code -/

/-- A memory allocator gives out nothing that is in use. -/
def dixAllocateObject (s : State) (answer : Option ℕ) : Option ℕ :=
  answer.filter fun client => (s.heap client).isNone

def InitClient (i : ℕ) : ClientRec where
  index := i % 2 ^ 16
  clientState := .initial
  clientGone := false
  closeDownMode := if i ≠ 0 then .destroyAll else .retainPermanent
  requestVector := .initialVector
  swapped := false
  noClientException := 0

/-- `while ((nextFreeClientID < LimitClients) && clients[nextFreeClientID])`, with as many turns as
there are places left. -/
def skipUsed (clients : ℕ → Option ℕ) : ℕ → ℕ → ℕ
  | 0, next => next
  | left + 1, next => if (clients next).isSome then skipUsed clients left (next + 1) else next

def NextAvailableClient (limit : LimitClients) (a : Answers) (s : State) : State :=
  let i := s.nextFreeClientID
  if i = limit.val then s
  else
    match dixAllocateObject s a.client with
    | none => s.setEntry i none
    | some client =>
      let s' := (s.setEntry i (some client)).put client (InitClient i)
      -- the two ways out below leave `clients[i]` as it is
      if !a.clientResources then s'.free client
      else if !a.fakeRequest then s'.free client
      else
        { s' with
          currentMaxClients := if i = s.currentMaxClients then s.currentMaxClients + 1 else s.currentMaxClients
          nextFreeClientID := skipUsed s'.clients (limit.val - i) i }

/-- `reason` says that the connection is refused. -/
def SendConnSetup (client : ℕ) (reason : Bool) (s : State) : Outcome State := do
  let c ← deref (s.heap client)
  if reason then
    return s.put client { c with noClientException := -1 }
  return { s with nClients := s.nClients + 1 }.put client
    { c with
      requestVector := if c.swapped then .swappedProcVector else .procVector
      clientState := .running }

/-- `while (!clients[currentMaxClients - 1]) currentMaxClients--`. -/
def dropFree (clients : ℕ → Option ℕ) : ℕ → Outcome ℕ
  | 0 => .error .fault
  | max + 1 => if (clients max).isNone then dropFree clients max else .ok (max + 1)

/-- The first half of `CloseDownClient`: the connection is closed. -/
def closeConnection (client : ℕ) (really_close_down : Bool) (c : ClientRec) (s : State) : State :=
  let clientState : ClientState := if really_close_down then c.clientState else .retained
  { s with nClients := if clientState ≠ ClientState.initial then s.nClients - 1 else s.nClients }.put client
    { c with clientState, clientGone := true }

/-- The second half of `CloseDownClient`: the client is freed. -/
def reallyClose (client : ℕ) (s : State) : Outcome State := do
  let c ← deref (s.heap client)
  let nextFreeClientID := if c.index < s.nextFreeClientID then c.index else s.nextFreeClientID
  let clients := Function.update s.clients c.index none
  let currentMaxClients ← dropFree clients s.currentMaxClients
  return { s.free client with clients, nextFreeClientID, currentMaxClients }

def CloseDownClient (client : ℕ) (s : State) : Outcome State := do
  let c ← deref (s.heap client)
  let really_close_down := c.clientGone || c.closeDownMode = .destroyAll
  let s' := if c.clientGone then s else closeConnection client really_close_down c s
  if really_close_down then reallyClose client s' else return s'

def ProcSetCloseDownMode (client : ℕ) (mode : CloseDownMode) (s : State) : Outcome State := do
  let c ← deref (s.heap client)
  return s.put client { c with closeDownMode := mode }

/-- The turn of `KillAllClients` for one client. -/
def killClient (client : ℕ) (s : State) : Outcome State := do
  CloseDownClient client (← ProcSetCloseDownMode client .destroyAll s)

/-! ### Runs -/

inductive Op
  | nextAvailableClient (a : Answers)
  | sendConnSetup (client : ℕ) (reason : Bool)
  | setCloseDownMode (client : ℕ) (mode : CloseDownMode)
  | closeDownClient (client : ℕ)
  | killClient (client : ℕ)

/-- The client is there, is not the server itself, and `p` holds of it. -/
def State.has (s : State) (client : ℕ) (p : ClientRec → Bool) : Bool :=
  (s.heap client).any fun c => c.index ≠ 0 && p c

/-- What the server may do next: a client whose connection is open sends the setup request while it
has the initial vector and other requests later, and a client that is there may be closed. Anything
else does not happen. -/
def exec (limit : LimitClients) (s : State) : Op → Outcome State
  | .nextAvailableClient a => return NextAvailableClient limit a s
  | .sendConnSetup client reason =>
    if s.has client fun c => !c.clientGone && c.requestVector = .initialVector then SendConnSetup client reason s
    else return s
  | .setCloseDownMode client mode =>
    if s.has client fun c => !c.clientGone && c.requestVector ≠ .initialVector then
      ProcSetCloseDownMode client mode s
    else return s
  | .closeDownClient client => if s.has client fun _ => true then CloseDownClient client s else return s
  | .killClient client => if s.has client fun _ => true then Clients.killClient client s else return s

def step (limit : LimitClients) (s : Outcome State) (op : Op) : Outcome State := s >>= fun s => exec limit s op

/-- The server has started: the client of index 0 is the server itself, at the address `server`. -/
def start (server : ℕ) : State where
  clients := Function.update (fun _ => none) 0 (some server)
  heap := Function.update (fun _ => none) server (some (InitClient 0))
  nextFreeClientID := 1
  currentMaxClients := 1
  nClients := 0

/-! ### What it means for the table to be sound -/

/-- The client has completed connection setup and is not gone. -/
def ClientRec.connected (c : ClientRec) : Bool := c.requestVector ≠ .initialVector && !c.clientGone

/-- The clients of the table that are connected. -/
def connectedClients (limit : LimitClients) (s : State) : ℕ :=
  (List.range limit.val).countP fun i => (s.client? i).any ClientRec.connected

structure Sound (limit : LimitClients) (s : State) : Prop where
  entry : ∀ i client, s.clients i = some client → ∃ c, s.heap client = some c ∧ c.index = i
  listed : ∀ client c, s.heap client = some c → s.clients c.index = some client
  used : ∀ i < s.nextFreeClientID, (s.clients i).isSome
  free : s.nextFreeClientID = limit.val ∨ s.nextFreeClientID < limit.val ∧ s.clients s.nextFreeClientID = none
  below : ∀ i, (s.clients i).isSome → i < s.currentMaxClients
  last : (s.clients (s.currentMaxClients - 1)).isSome
  count : s.nClients = connectedClients limit s
  distinct : ∀ a b c d, s.heap a = some c → s.heap b = some d → c.index = d.index → a = b

/-- A client that was allocated gets its resources and its first request. -/
def Meets (limit : LimitClients) (s : State) : Op → Prop
  | .nextAvailableClient a => s.nextFreeClientID ≠ limit.val → (dixAllocateObject s a.client).isSome →
      a.clientResources = true ∧ a.fakeRequest = true
  | _ => True

/-! ### The loops -/

variable {limit : LimitClients} {s s' : State} {client i : ℕ} {c : ClientRec}

/-- The search stops at the first free place, or after the last. -/
theorem skipUsed_spec (clients : ℕ → Option ℕ) (left next : ℕ) :
    next ≤ skipUsed clients left next ∧ skipUsed clients left next ≤ next + left ∧
      (∀ i, next ≤ i → i < skipUsed clients left next → (clients i).isSome) ∧
      (skipUsed clients left next = next + left ∨ clients (skipUsed clients left next) = none) := by
  induction left generalizing next with
  | zero => exact ⟨le_rfl, le_rfl, fun i hle hlt => absurd hlt (by unfold skipUsed; omega), .inl rfl⟩
  | succ left ih =>
    unfold skipUsed
    split_ifs with hused
    · obtain ⟨hle, hmax, hall, hend⟩ := ih (next + 1)
      refine ⟨by omega, by omega, fun i hi hlt => ?_, ?_⟩
      · rcases eq_or_lt_of_le hi with rfl | hgt
        · exact hused
        · exact hall i hgt hlt
      · rwa [show next + (left + 1) = next + 1 + left by omega]
    · exact ⟨le_rfl, by omega, fun i hle hlt => absurd hlt (by omega), .inr (by simpa using hused)⟩

/-- The search for the last used place comes to an end, as there is one. -/
theorem dropFree_spec {clients : ℕ → Option ℕ} (max : ℕ) (hi : i < max) (hused : (clients i).isSome) :
    ∃ max', dropFree clients max = .ok max' ∧ i < max' ∧ max' ≤ max ∧ (clients (max' - 1)).isSome ∧
      ∀ j, j < max → (clients j).isSome → j < max' := by
  induction max with
  | zero => exact absurd hi (Nat.not_lt_zero _)
  | succ max ih =>
    unfold dropFree
    split_ifs with hfree
    · have hne : i ≠ max := by
        intro h
        rw [← h, isNone_iff_eq_none] at hfree
        rw [hfree] at hused
        exact false_ne_true hused
      obtain ⟨max', hrun, hlt, hle, hlast, hall⟩ := ih (by omega)
      refine ⟨max', hrun, hlt, by omega, hlast, fun j hj hj' => hall j ?_ hj'⟩
      have : j ≠ max := by
        intro h
        rw [h, isNone_iff_eq_none.1 hfree] at hj'
        exact false_ne_true hj'
      omega
    · refine ⟨max + 1, rfl, hi, le_rfl, ?_, fun j hj _ => hj⟩
      simpa [isSome_iff_ne_none] using hfree

/-- One place of a table changes. -/
theorem countP_change {n : ℕ} {p q : ℕ → Bool} (hi : i < n) (hsame : ∀ j, j ≠ i → q j = p j) :
    (range n).countP q + (p i).toNat = (range n).countP p + (q i).toNat := by
  induction n with
  | zero => exact absurd hi (Nat.not_lt_zero _)
  | succ n ih =>
    rw [range_succ, countP_append, countP_append, countP_singleton, countP_singleton]
    by_cases hn : i = n
    · have hrest : (range n).countP q = (range n).countP p := by
        refine countP_congr fun j hj => ?_
        rw [hsame j (by have := mem_range.1 hj; omega)]
      rw [hrest, hn]
      cases p n <;> cases q n <;> simp
    · have := ih (by omega)
      rw [hsame n (Ne.symm hn)]
      omega

/-! ### The invariant -/

/-- Before the setup is complete a client is in its first state and has its first close-down mode. -/
def ClientRec.Ok (c : ClientRec) : Prop :=
  (c.clientGone = false → (c.clientState = .initial ↔ c.requestVector = .initialVector)) ∧
    (c.index ≠ 0 → c.requestVector = .initialVector → c.closeDownMode = .destroyAll)

structure Inv (limit : LimitClients) (s : State) : Prop where
  entry : ∀ i client, s.clients i = some client → ∃ c, s.heap client = some c ∧ c.index = i
  listed : ∀ client c, s.heap client = some c → s.clients c.index = some client
  used : ∀ i < s.nextFreeClientID, (s.clients i).isSome
  free : s.nextFreeClientID = limit.val ∨ s.nextFreeClientID < limit.val ∧ s.clients s.nextFreeClientID = none
  below : ∀ i, (s.clients i).isSome → i < s.currentMaxClients
  last : (s.clients (s.currentMaxClients - 1)).isSome
  count : s.nClients = connectedClients limit s
  server : (s.clients 0).isSome
  bounded : ∀ i, (s.clients i).isSome → i < limit.val
  ok : ∀ client c, s.heap client = some c → c.Ok

theorem Inv.sound (h : Inv limit s) : Sound limit s where
  entry := h.entry
  listed := h.listed
  used := h.used
  free := h.free
  below := h.below
  last := h.last
  count := h.count
  distinct := by
    intro a b c d hc hd heq
    have ha := h.listed a c hc
    rw [heq, h.listed b d hd] at ha
    exact (some.inj ha).symm

theorem inv_start (server : ℕ) : Inv limit (start server) := by
  have hclients : ∀ i client, (start server).clients i = some client → i = 0 ∧ client = server := by
    intro i client hi
    by_cases hi0 : i = 0
    · rw [hi0] at hi
      exact ⟨hi0, (some.inj hi).symm⟩
    · rw [show (start server).clients i = none by simp [start, hi0]] at hi
      cases hi
  have hheap : ∀ client c, (start server).heap client = some c → client = server ∧ c = InitClient 0 := by
    intro client c hc
    by_cases hclient : client = server
    · rw [hclient, show (start server).heap server = some (InitClient 0) by simp [start]] at hc
      exact ⟨hclient, (some.inj hc).symm⟩
    · rw [show (start server).heap client = none by simp [start, hclient]] at hc
      cases hc
  have hused : ∀ i, ((start server).clients i).isSome → i = 0 := by
    intro i hi
    obtain ⟨client, hclient⟩ := isSome_iff_exists.1 hi
    exact (hclients i client hclient).1
  refine ⟨?_, ?_, ?_, ?_, ?_, rfl, ?_, rfl, ?_, ?_⟩
  · intro i client hi
    obtain ⟨rfl, rfl⟩ := hclients i client hi
    exact ⟨InitClient 0, by simp [start], rfl⟩
  · intro client c hc
    obtain ⟨rfl, rfl⟩ := hheap client c hc
    rfl
  · intro i hi
    rw [show i = 0 from Nat.lt_one_iff.1 hi]
    rfl
  · rcases Nat.eq_or_lt_of_le limit.pos with heq | hlt
    · exact .inl heq
    · exact .inr ⟨hlt, rfl⟩
  · intro i hi
    rw [hused i hi]
    exact one_pos
  · have hzero : connectedClients limit (start server) = 0 := by
      refine countP_eq_zero.2 fun i _ => ?_
      cases hi : (start server).clients i with
      | none => simp [State.client?, hi]
      | some client =>
        obtain ⟨rfl, rfl⟩ := hclients i client hi
        simp [State.client?, start, InitClient, ClientRec.connected]
    rw [hzero]
    rfl
  · intro i hi
    rw [hused i hi]
    exact limit.pos
  · intro client c hc
    obtain ⟨-, rfl⟩ := hheap client c hc
    exact ⟨fun _ => ⟨fun _ => rfl, fun _ => rfl⟩, fun h => absurd rfl h⟩

/-! ### What the invariant says of one client -/

section

variable (h : Inv limit s)
include h

theorem Inv.client? (hc : s.heap client = some c) : s.client? c.index = some c := by
  unfold State.client?
  rw [h.listed client c hc]
  exact hc

/-- A client is in one place. -/
theorem Inv.index_eq (hc : s.heap client = some c) (hi : s.clients i = some client) : i = c.index := by
  obtain ⟨d, hd, hindex⟩ := h.entry i client hi
  rw [hc] at hd
  rw [← hindex, some.inj hd]

theorem Inv.index_lt (hc : s.heap client = some c) : c.index < limit.val :=
  h.bounded _ (by rw [h.listed client c hc]; rfl)

/-- A change of one client is seen at its place only. -/
theorem Inv.client?_update (hc : s.heap client = some c) {o : Option ClientRec} {i : ℕ}
    (hi : i ≠ c.index) : (s.clients i).bind (update s.heap client o) = s.client? i := by
  unfold State.client?
  cases hs : s.clients i with
  | none => rfl
  | some other =>
    have hne : other ≠ client := fun heq => hi (h.index_eq hc (heq ▸ hs))
    exact update_of_ne hne _ _

/-! ### A client changes -/

/-- The record of a client changes, and the counter with it. -/
theorem Inv.put (hc : s.heap client = some c) {d : ClientRec} {n : ℤ} (hindex : d.index = c.index)
    (hok : d.Ok) (hn : n + c.connected.toNat = s.nClients + d.connected.toNat) :
    Inv limit ({ s with nClients := n }.put client d) := by
  have hheap : ∀ a e, update s.heap client (some d) a = some e → a = client ∧ e = d ∨ a ≠ client ∧ s.heap a = some e := by
    intro a e he
    by_cases ha : a = client
    · rw [ha, update_self] at he
      exact .inl ⟨ha, (some.inj he).symm⟩
    · rw [update_of_ne ha] at he
      exact .inr ⟨ha, he⟩
  refine ⟨?_, ?_, h.used, h.free, h.below, h.last, ?_, h.server, h.bounded, ?_⟩
  · intro i a ha
    by_cases heq : a = client
    · refine ⟨d, by rw [heq]; exact update_self _ _ _, ?_⟩
      rw [hindex]
      exact (h.index_eq hc (heq ▸ ha)).symm
    · obtain ⟨e, he, hi⟩ := h.entry i a ha
      exact ⟨e, (update_of_ne heq _ _).trans he, hi⟩
  · intro a e he
    rcases hheap a e he with ⟨rfl, rfl⟩ | ⟨-, he'⟩
    · show s.clients _ = _
      rw [hindex]
      exact h.listed _ c hc
    · exact h.listed a e he'
  · have hchange := countP_change (p := fun i => (s.client? i).any ClientRec.connected)
      (q := fun i => (({ s with nClients := n }.put client d).client? i).any ClientRec.connected) (h.index_lt hc) fun i hi => by
        show (((s.clients i).bind (update s.heap client (some d))).any _ : Bool) = _
        rw [h.client?_update hc hi]
    have hnew : ({ s with nClients := n }.put client d).client? c.index = some d := by
      show (s.clients c.index).bind _ = _
      rw [h.listed client c hc]
      exact update_self _ _ _
    rw [h.client? hc, hnew, any_some, any_some] at hchange
    have hcount := h.count
    show n = _
    unfold connectedClients at hcount ⊢
    omega
  · intro a e he
    rcases hheap a e he with ⟨-, rfl⟩ | ⟨-, he'⟩
    · exact hok
    · exact h.ok a e he'

theorem closeConnection_inv (hc : s.heap client = some c) (hindex : c.index ≠ 0) (hopen : c.clientGone = false) :
    ∃ d, (closeConnection client (c.clientGone || c.closeDownMode = .destroyAll) c s).heap client = some d ∧
      d.index = c.index ∧ d.clientGone = true ∧
      Inv limit (closeConnection client (c.clientGone || c.closeDownMode = .destroyAll) c s) := by
  obtain ⟨hstate, hmode⟩ := h.ok client c hc
  refine ⟨_, update_self _ _ _, rfl, rfl, h.put hc rfl ⟨(fun hgone => by cases hgone), fun hne => hmode hne⟩ ?_⟩
  -- a client that is not closed for good has completed its setup
  cases hm : c.closeDownMode <;> cases hv : c.requestVector <;> cases hs : c.clientState <;>
    simp_all [ClientRec.connected]

/-- A client that is not connected is freed. -/
theorem reallyClose_inv (hc : s.heap client = some c) (hindex : c.index ≠ 0) (hgone : c.clientGone = true) :
    ∃ s', reallyClose client s = .ok s' ∧ Inv limit s' := by
  have hserver : (update s.clients c.index none 0).isSome := by
    rw [update_of_ne (Ne.symm hindex)]
    exact h.server
  have hother : ∀ i a, update s.clients c.index none i = some a → i ≠ c.index ∧ s.clients i = some a := by
    intro i a ha
    by_cases heq : i = c.index
    · rw [heq, update_self] at ha
      cases ha
    · rw [update_of_ne heq] at ha
      exact ⟨heq, ha⟩
  have hused : ∀ i, (update s.clients c.index none i).isSome → (s.clients i).isSome := by
    intro i hi
    obtain ⟨a, ha⟩ := isSome_iff_exists.1 hi
    rw [(hother i a ha).2]
    rfl
  have hheap : ∀ a e, update s.heap client none a = some e → a ≠ client ∧ s.heap a = some e := by
    intro a e he
    by_cases heq : a = client
    · rw [heq, update_self] at he
      cases he
    · rw [update_of_ne heq] at he
      exact ⟨heq, he⟩
  obtain ⟨max, hrun, -, hle, hlast, hall⟩ := dropFree_spec s.currentMaxClients (h.below 0 h.server) hserver
  unfold reallyClose
  rw [hc, deref_some, ok_bind]
  dsimp only
  rw [hrun]
  refine ⟨_, rfl, ?_, ?_, ?_, ?_, ?_, hlast, ?_, hserver, fun i hi => h.bounded i (hused i hi), ?_⟩
  · intro i a ha
    obtain ⟨hne, ha'⟩ := hother i a ha
    obtain ⟨e, he, hi⟩ := h.entry i a ha'
    refine ⟨e, (update_of_ne ?_ _ _).trans he, hi⟩
    rintro rfl
    exact hne (h.index_eq hc ha')
  · intro a e he
    obtain ⟨hne, he'⟩ := hheap a e he
    have ha := h.listed a e he'
    refine (update_of_ne ?_ _ _).trans ha
    intro heq
    rw [heq, h.listed client c hc] at ha
    exact hne (some.inj ha).symm
  · intro i hi
    have hmin : i < if c.index < s.nextFreeClientID then c.index else s.nextFreeClientID := hi
    have hlt : i < s.nextFreeClientID ∧ i ≠ c.index := by
      split_ifs at hmin <;> omega
    show (update s.clients c.index none i).isSome
    rw [update_of_ne hlt.2]
    exact h.used i hlt.1
  · dsimp only
    have hlt := h.index_lt hc
    split_ifs with hbelow
    · exact .inr ⟨hlt, update_self _ _ _⟩
    · rcases h.free with hfull | ⟨hfree, hnone⟩
      · omega
      · refine .inr ⟨hfree, ?_⟩
        by_cases heq : s.nextFreeClientID = c.index
        · rw [heq]
          exact update_self _ _ _
        · exact (update_of_ne heq _ _).trans hnone
  · intro i hi
    exact hall i (h.below i (hused i hi)) hi
  · have hcount := h.count
    show s.nClients = _
    rw [hcount]
    refine congrArg Nat.cast (countP_congr fun i _ => ?_)
    by_cases heq : i = c.index
    · rw [heq, h.client? hc]
      show _ ↔ ((update s.clients c.index none c.index).bind _).any _ = true
      simp [ClientRec.connected, hgone]
    · show _ ↔ ((update s.clients c.index none i).bind (update s.heap client none)).any _ = true
      rw [update_of_ne heq, h.client?_update hc heq]
  · intro a e he
    exact h.ok a e (hheap a e he).2

theorem CloseDownClient_inv (hc : s.heap client = some c) (hindex : c.index ≠ 0) :
    ∃ s', CloseDownClient client s = .ok s' ∧ Inv limit s' := by
  -- after the first half the client is gone, whether it was closed before or now
  obtain ⟨s₁, hs₁, d, hd, hdindex, hdgone, h₁⟩ : ∃ s₁, s₁ = (if c.clientGone then s else
      closeConnection client (c.clientGone || c.closeDownMode = .destroyAll) c s) ∧
      ∃ d, s₁.heap client = some d ∧ d.index = c.index ∧ d.clientGone = true ∧ Inv limit s₁ := by
    cases hgone : c.clientGone with
    | true => exact ⟨s, by rw [if_pos rfl], c, hc, rfl, hgone, h⟩
    | false =>
      have := closeConnection_inv h hc hindex hgone
      rw [hgone] at this
      exact ⟨_, by rw [if_neg Bool.false_ne_true], this⟩
  unfold CloseDownClient
  rw [hc, deref_some, ok_bind]
  dsimp only
  rw [← hs₁]
  split_ifs
  · exact reallyClose_inv h₁ hd (by rw [hdindex]; exact hindex) hdgone
  · exact ⟨s₁, rfl, h₁⟩

theorem ProcSetCloseDownMode_inv (hc : s.heap client = some c) (mode : CloseDownMode)
    (hmode : c.requestVector ≠ .initialVector ∨ mode = .destroyAll) :
    ∃ s', ProcSetCloseDownMode client mode s = .ok s' ∧ Inv limit s' ∧
      ∃ d, s'.heap client = some d ∧ d.index = c.index := by
  unfold ProcSetCloseDownMode
  rw [hc]
  refine ⟨_, rfl, h.put hc rfl ⟨(h.ok client c hc).1, fun _ hvector => ?_⟩ rfl, _, update_self _ _ _, rfl⟩
  rcases hmode with hne | rfl
  · exact absurd hvector hne
  · rfl

theorem SendConnSetup_inv (hc : s.heap client = some c) (hopen : c.clientGone = false)
    (hvector : c.requestVector = .initialVector) (reason : Bool) :
    ∃ s', SendConnSetup client reason s = .ok s' ∧ Inv limit s' := by
  unfold SendConnSetup
  rw [hc]
  cases reason with
  | true => exact ⟨_, rfl, h.put hc rfl (h.ok client c hc) rfl⟩
  | false =>
    refine ⟨_, rfl, h.put hc rfl ⟨fun _ => ?_, fun _ hv => ?_⟩ ?_⟩
    · cases c.swapped <;> simp
    · cases hs : c.swapped <;> simp [hs] at hv
    · cases c.swapped <;> simp [ClientRec.connected, hopen, hvector]

/-! ### A new client -/

/-- The first free place gets a new client. -/
theorem Inv.newClient (hlt : s.nextFreeClientID < limit.val)
    (hnone : s.clients s.nextFreeClientID = none) (hfresh : s.heap client = none) :
    Inv limit
      { (s.setEntry s.nextFreeClientID (some client)).put client (InitClient s.nextFreeClientID) with
        currentMaxClients :=
          if s.nextFreeClientID = s.currentMaxClients then s.currentMaxClients + 1 else s.currentMaxClients
        nextFreeClientID := skipUsed (s.setEntry s.nextFreeClientID (some client)).clients
          (limit.val - s.nextFreeClientID) s.nextFreeClientID } := by
  obtain ⟨i, hi⟩ : ∃ i, i = s.nextFreeClientID := ⟨_, rfl⟩
  rw [← hi] at hlt hnone ⊢
  have hindex : (InitClient i).index = i := by
    have hmax : limit.val ≤ 2048 := limit.le
    exact Nat.mod_eq_of_lt (by omega)
  have hpos : i ≠ 0 := by
    intro hzero
    have hserver := h.server
    rw [← hzero, hnone] at hserver
    cases hserver
  have hentry : ∀ j a, update s.clients i (some client) j = some a → j = i ∧ a = client ∨ j ≠ i ∧ s.clients j = some a := by
    intro j a ha
    by_cases heq : j = i
    · rw [heq, update_self] at ha
      exact .inl ⟨heq, (some.inj ha).symm⟩
    · rw [update_of_ne heq] at ha
      exact .inr ⟨heq, ha⟩
  have hused : ∀ j, (update s.clients i (some client) j).isSome → j = i ∨ (s.clients j).isSome := by
    intro j hj
    obtain ⟨a, ha⟩ := isSome_iff_exists.1 hj
    rcases hentry j a ha with ⟨heq, -⟩ | ⟨-, hs⟩
    · exact .inl heq
    · exact .inr (by rw [hs]; rfl)
  have hkept : ∀ j, (s.clients j).isSome → (update s.clients i (some client) j).isSome := by
    intro j hj
    by_cases heq : j = i
    · rw [heq, update_self]
      rfl
    · rwa [update_of_ne heq]
  have hheap : ∀ a e, update s.heap client (some (InitClient i)) a = some e →
      a = client ∧ e = InitClient i ∨ a ≠ client ∧ s.heap a = some e := by
    intro a e he
    by_cases heq : a = client
    · rw [heq, update_self] at he
      exact .inl ⟨heq, (some.inj he).symm⟩
    · rw [update_of_ne heq] at he
      exact .inr ⟨heq, he⟩
  -- every place up to the first free one is in use, so no client is above it by more than one
  have hmax : i ≤ s.currentMaxClients := by
    by_contra hgt
    have := h.below s.currentMaxClients (h.used _ (by omega))
    omega
  obtain ⟨hle, hend, hall, hstop⟩ := skipUsed_spec (update s.clients i (some client)) (limit.val - i) i
  refine ⟨?_, ?_, ?_, ?_, ?_, ?_, ?_, hkept 0 h.server, ?_, ?_⟩
  · intro j a ha
    rcases hentry j a ha with ⟨rfl, rfl⟩ | ⟨-, hs⟩
    · exact ⟨_, update_self _ _ _, hindex⟩
    · obtain ⟨e, he, hj⟩ := h.entry j a hs
      refine ⟨e, (update_of_ne ?_ _ _).trans he, hj⟩
      rintro rfl
      rw [hfresh] at he
      cases he
  · intro a e he
    rcases hheap a e he with ⟨rfl, rfl⟩ | ⟨-, hs⟩
    · rw [hindex]
      exact update_self _ _ _
    · have ha := h.listed a e hs
      refine (update_of_ne ?_ _ _).trans ha
      intro heq
      rw [heq, hnone] at ha
      cases ha
  · intro j hj
    rcases lt_or_ge j i with hlow | hhigh
    · exact hkept j (h.used j (hi ▸ hlow))
    · exact hall j hhigh hj
  · rcases hstop with hfull | hfree
    · exact .inl (hfull.trans (by omega))
    · rcases Nat.eq_or_lt_of_le (hend.trans (Nat.add_sub_of_le hlt.le).le) with heq | hbelow
      · exact .inl heq
      · exact .inr ⟨hbelow, hfree⟩
  · intro j hj
    dsimp only
    rcases hused j hj with rfl | hs
    · split_ifs <;> omega
    · have := h.below j hs
      split_ifs <;> omega
  · show (update s.clients i (some client) _).isSome
    split_ifs with heq
    · rw [Nat.add_sub_cancel, ← heq, update_self]
      rfl
    · exact hkept _ h.last
  · have hcount := h.count
    show s.nClients = _
    rw [hcount]
    refine congrArg Nat.cast (countP_congr fun j _ => ?_)
    unfold State.client?
    show _ ↔ ((update s.clients i (some client) j).bind (update s.heap client (some (InitClient i)))).any _ = true
    by_cases heq : j = i
    · rw [heq, hnone, update_self]
      simp [InitClient, ClientRec.connected]
    · rw [update_of_ne heq]
      cases hs : s.clients j with
      | none => rfl
      | some a =>
        have hne : a ≠ client := by
          rintro rfl
          obtain ⟨e, he, -⟩ := h.entry j _ hs
          rw [hfresh] at he
          cases he
        rw [bind_some, bind_some, update_of_ne hne]
  · intro j hj
    rcases hused j hj with rfl | hs
    · exact hlt
    · exact h.bounded j hs
  · intro a e he
    rcases hheap a e he with ⟨-, rfl⟩ | ⟨-, hs⟩
    · refine ⟨fun _ => ⟨fun _ => rfl, fun _ => rfl⟩, fun _ _ => ?_⟩
      exact if_pos hpos
    · exact h.ok a e hs

theorem NextAvailableClient_inv {a : Answers} (hmeets : Meets limit s (.nextAvailableClient a)) :
    Inv limit (NextAvailableClient limit a s) := by
  unfold NextAvailableClient
  by_cases hfull : s.nextFreeClientID = limit.val
  · rw [if_pos hfull]
    exact h
  rw [if_neg hfull]
  obtain ⟨hlt, hnone⟩ : s.nextFreeClientID < limit.val ∧ s.clients s.nextFreeClientID = none := by
    rcases h.free with hf | hf
    · exact absurd hf hfull
    · exact hf
  cases halloc : dixAllocateObject s a.client with
  | none =>
    have hsame : s.setEntry s.nextFreeClientID none = s := by
      unfold State.setEntry
      rw [← hnone, update_eq_self]
    rw [hsame]
    exact h
  | some client =>
    obtain ⟨hresources, hrequest⟩ := hmeets hfull (by rw [halloc]; rfl)
    have hfresh : s.heap client = none := by
      obtain ⟨-, hfree⟩ := filter_eq_some_iff.1 halloc
      exact isNone_iff_eq_none.1 hfree
    rw [hresources, hrequest]
    exact h.newClient hlt hnone hfresh

end

/-! ### Runs -/

theorem State.has_spec {p : ClientRec → Bool} (h : s.has client p = true) :
    ∃ c, s.heap client = some c ∧ c.index ≠ 0 ∧ p c = true := by
  obtain ⟨c, hc, hp⟩ := (any_eq_true _ _).1 h
  rw [and_eq_true, decide_eq_true_iff] at hp
  exact ⟨c, hc, hp.1, hp.2⟩

theorem exec_inv (h : Inv limit s) {op : Op} (hmeets : Meets limit s op) : ∃ s', exec limit s op = .ok s' ∧ Inv limit s' := by
  have hstays : ∃ s', (.ok s : Outcome State) = .ok s' ∧ Inv limit s' := ⟨s, rfl, h⟩
  cases op with
  | nextAvailableClient a => exact ⟨_, rfl, NextAvailableClient_inv h hmeets⟩
  | sendConnSetup client reason =>
    dsimp only [exec]
    split_ifs with hhas
    · obtain ⟨c, hc, -, hp⟩ := State.has_spec hhas
      rw [and_eq_true, not_eq_true', decide_eq_true_iff] at hp
      exact SendConnSetup_inv h hc hp.1 hp.2 reason
    · exact hstays
  | setCloseDownMode client mode =>
    dsimp only [exec]
    split_ifs with hhas
    · obtain ⟨c, hc, -, hp⟩ := State.has_spec hhas
      rw [and_eq_true, decide_eq_true_iff] at hp
      obtain ⟨s', hrun, h', -⟩ := ProcSetCloseDownMode_inv h hc mode (.inl hp.2)
      exact ⟨s', hrun, h'⟩
    · exact hstays
  | closeDownClient client =>
    dsimp only [exec]
    split_ifs with hhas
    · obtain ⟨c, hc, hindex, -⟩ := State.has_spec hhas
      exact CloseDownClient_inv h hc hindex
    · exact hstays
  | killClient client =>
    dsimp only [exec]
    split_ifs with hhas
    · obtain ⟨c, hc, hindex, -⟩ := State.has_spec hhas
      obtain ⟨s', hrun, h', d, hd, hdindex⟩ := ProcSetCloseDownMode_inv h hc .destroyAll (.inr rfl)
      unfold Clients.killClient
      rw [hrun]
      exact CloseDownClient_inv h' hd (by rw [hdindex]; exact hindex)
    · exact hstays

/-- **The client table is sound** in every state of a run in which each client that is allocated
gets its resources and its first request. -/
theorem client_table_sound (limit : LimitClients) (server : ℕ) {ops : List Op}
    (h : AllSteps (step limit) (fun s op => ∀ s', s = .ok s' → Meets limit s' op) (.ok (start server)) ops) :
    ∃ s, run (step limit) (.ok (start server)) ops = .ok s ∧ Sound limit s := by
  have hinv : ∃ s, run (step limit) (.ok (start server)) ops = .ok s ∧ Inv limit s := by
    refine AllSteps.invariant (P := fun r => ∃ s, r = .ok s ∧ Inv limit s) ?_ h ⟨_, rfl, inv_start server⟩
    rintro _ op hop ⟨s, rfl, hs⟩
    exact exec_inv hs (hop s rfl)
  obtain ⟨s, hs, hinv⟩ := hinv
  exact ⟨s, hs, hinv.sound⟩

/-- The least limit that the server can be given. -/
def limit64 : LimitClients := ⟨64, by decide, by decide⟩

/-- A client sets up, retains its resources and is gone, another is refused, and the first is killed. -/
theorem client_table_sound_retained :
    ∃ s, run (step limit64) (.ok (start 100)) [.nextAvailableClient ⟨some 1, true, true⟩,
      .sendConnSetup 1 false, .setCloseDownMode 1 .retainTemporary, .closeDownClient 1,
      .nextAvailableClient ⟨some 2, true, true⟩, .sendConnSetup 2 true, .closeDownClient 2, .closeDownClient 1] = .ok s ∧
      Sound limit64 s := by
  have hnew : ∀ s client, Meets limit64 s (.nextAvailableClient ⟨client, true, true⟩) := fun _ _ _ _ => ⟨rfl, rfl⟩
  exact client_table_sound limit64 100 ⟨fun s _ => hnew s _, fun _ _ => trivial, fun _ _ => trivial, fun _ _ => trivial,
    fun s _ => hnew s _, fun _ _ => trivial, fun _ _ => trivial, fun _ _ => trivial, trivial⟩

/-- **A client that gets no resources stays in the table** after it is freed. -/
theorem client_table_unsound :
    ¬ ∃ s, run (step limit64) (.ok (start 100)) [.nextAvailableClient ⟨some 1, false, true⟩] = .ok s ∧ Sound limit64 s := by
  rintro ⟨s, hs, h⟩
  cases hs
  obtain ⟨c, hc, -⟩ := h.entry 1 1 rfl
  cases hc

end Xenia.Dix.Clients
