import Chats.Network.ClientRuns

/-! # What a connect comes to

The ways out of `client_tcp_connect_sync`, `client_tcp_connect_async` and `client_tcp_connector`:
what the callback is told and how the client is left. The result is judged by `errno`, the exits
that follow the socket leave it in place, and the assertions on `F_SETFL` want it to fail. -/
namespace Chats.Network.Client
open Chats.Lib Chats.IoService
set_option autoImplicit false

variable {F A : Type}

/-! ## The addresses -/

/-- What `connect` answers for each address that `getaddrinfo` finds. -/
abbrev AddressAnswers (A : Type) := List (A × Option ℕ)

structure AddressesMet (A : Type) where
  socket : SocketMet
  resolved : Option (AddressAnswers A)

/-- `endpoint_t` -/
structure Endpoint (A : Type) where
  epType : EndpointType
  addr : A
deriving DecidableEq

structure ConnectedTo (A : Type) where
  ep : Option (Endpoint A)
  err : ℕ
deriving DecidableEq

abbrev AddressCallback (F A : Type) := Callback (Object F ClientTcp) (ConnectedTo A) Unit

/-- The loop over the addresses: `errno` after it, and `cur_addr`. -/
def addressLoop (errno : ℕ) : AddressAnswers A → ℕ × Option A
  | [] => (errno, none)
  | (a, none) :: _ => (errno, some a)
  | (_, some e) :: as => addressLoop e as

/-- `client_tcp_connect_sync` from `getaddrinfo` on, with the address that `remote` gets. -/
def connectPeerAt (m : AddressesMet A) (cb : Option (AddressCallback F A)) (s : HeldClient F) : Option (HeldClient F) :=
  match m.resolved with
  | none => s.callBackUntested cb { ep := none, err := eaddrnotavail }
  | some as =>
    match addressLoop 0 as with
    | (errno, none) => s.callBackIfSet cb { ep := none, err := errno }
    | (errno, some a) =>
      let s := s.update fun o => { reached o with self := { (reached o).self with connected := true } }
      if errno ≠ 0 then ((clientTcpDisconnect s).callBackIfSet cb { ep := none, err := errno }).map Held.unlock
      else (s.callBackIfSet cb { ep := some ⟨s.obj.self.remote.epType, a⟩, err := errno }).map Held.unlock

/-- `client_tcp_connect_sync` with the addresses; `here` is the one in `local`. -/
def clientTcpConnectSyncAt (here : A) (addr port : Bool) (m : AddressesMet A) (cb : Option (AddressCallback F A))
    (s : HeldClient F) : Option (HeldClient F) :=
  connectTpl addr port m.socket (s.callBackUntested cb { ep := none, err := eaddrnotavail })
    (s.lock.callBackUntested cb { ep := some ⟨s.lock.obj.self.local.epType, here⟩, err := eisconn })
    (connectPeerAt m cb) s

/-! ### The same without the addresses -/

def AddressesMet.forget (m : AddressesMet A) : ConnectMet where
  socket := m.socket
  resolved := m.resolved.map fun as => as.map Prod.snd

def ConnectedTo.forget (t : ConnectedTo A) : Connected where
  ep := t.ep.map (·.epType)
  err := t.err

/-- A callback that does not look at the address. -/
def ignoring (cb : ConnectCallback F) : AddressCallback F A where
  run := fun t s => cb.run t.forget s
  balanced := fun t => cb.balanced t.forget

theorem addressLoop_forget (errno : ℕ) (as : AddressAnswers A) : connectLoop errno (as.map Prod.snd) =
    match addressLoop errno as with
    | (errno, none) => .error errno
    | (errno, some _) => .ok errno := by
  induction as generalizing errno with
  | nil => rfl
  | cons x as ih =>
    obtain ⟨a, answer⟩ := x
    cases answer with
    | none => rfl
    | some e => exact ih e

theorem connectPeerAt_forget (m : AddressesMet A) (cb : Option (ConnectCallback F)) (s : HeldClient F) :
    connectPeerAt m (cb.map ignoring) s = connectPeer m.forget cb s := by
  obtain ⟨socket, resolved⟩ := m
  cases resolved with
  | none => cases cb <;> rfl
  | some as =>
    simp only [connectPeerAt, connectPeer, AddressesMet.forget, Option.map_some, addressLoop_forget]
    rcases addressLoop 0 as with ⟨errno, found⟩
    cases found with
    | none => cases cb <;> rfl
    | some a => cases cb <;> rfl

/-- Callbacks that do not look at the address see the function of `Chats.Network.Client`. -/
theorem connectSyncAt_forget (here : A) (addr port : Bool) (m : AddressesMet A) (cb : Option (ConnectCallback F))
    (s : HeldClient F) :
    clientTcpConnectSyncAt here addr port m (cb.map ignoring) s = clientTcpConnectSync addr port m.forget cb s := by
  have hpeer : connectPeerAt m (cb.map ignoring) = connectPeer m.forget cb := by
    funext t
    exact connectPeerAt_forget m cb t
  simp only [clientTcpConnectSyncAt, clientTcpConnectSync, hpeer]
  cases cb <;> rfl

/-! ## What the callback is told -/

/-- The client has no connection and no socket. -/
def Unconnected (s : HeldClient F) : Prop := s.obj.self.connected = false ∧ s.obj.self.local.skt < 0

/-- Past the checks, with the socket made. -/
theorem connectTpl_created {m : SocketMet} {refused already : Option (HeldClient F)}
    {rest : HeldClient F → Option (HeldClient F)} {s : HeldClient F} {o : Object F ClientTcp} (hun : Unconnected s)
    (hsock : clientInitSocket m s.obj = some (o, true)) :
    connectTpl true true m refused already rest s = rest (s.lock.update fun _ => o) := by
  simp only [connectTpl, and_self, not_true_eq_false, if_false, Held.obj_lock, not_le.mpr hun.2, hsock,
    Option.bind_some, if_true]

/-- The first address that `connect` succeeded on. -/
def firstConnected (as : AddressAnswers A) : Option A := (as.find? fun x => x.2.isNone).map Prod.fst

theorem addressLoop_found (errno : ℕ) (as : AddressAnswers A) : (addressLoop errno as).2 = firstConnected as := by
  induction as generalizing errno with
  | nil => rfl
  | cons x as ih =>
    obtain ⟨a, answer⟩ := x
    cases answer with
    | none => rfl
    | some e => exact ih e

/-- Once an attempt has failed, `errno` stays set. -/
theorem addressLoop_errno {errno : ℕ} (hne : errno ≠ 0) {as : AddressAnswers A} (herr : ∀ x ∈ as, x.2 ≠ some 0) :
    (addressLoop errno as).1 ≠ 0 := by
  induction as generalizing errno with
  | nil => exact hne
  | cons x as ih =>
    obtain ⟨a, answer⟩ := x
    rw [List.forall_mem_cons] at herr
    cases answer with
    | none => exact hne
    | some e => exact ih (fun he => herr.1 (congrArg some he)) herr.2

/-- The callback is called once: with the endpoint of the first address that connected, and the
client connected, or with an error if there is none. -/
def Reports (as : AddressAnswers A) (code : AddressCallback F A → Option (HeldClient F)) : Prop :=
  ∃ t told, Held.CallsOnce code t told ∧
    match firstConnected as with
    | some a => told = ⟨some ⟨.tcp, a⟩, 0⟩ ∧ t.obj.self.connected = true
    | none => told.err ≠ 0

/-- The first address connects, or none of them does. -/
def FirstOrNone (as : AddressAnswers A) : Prop :=
  (∃ a, as.head? = some (a, none)) ∨ (as ≠ [] ∧ ∀ x ∈ as, x.2 ≠ none)

theorem firstConnected_eq_none {as : AddressAnswers A} : firstConnected as = none ↔ ∀ x ∈ as, x.2 ≠ none := by
  simp [firstConnected, List.find?_eq_none]

/-- The client once an attempt has succeeded. -/
def joined (s : HeldClient F) : HeldClient F :=
  s.update fun o => { reached o with self := { (reached o).self with connected := true } }

section peer
variable {m : AddressesMet A} {as : AddressAnswers A} {s : HeldClient F} (hres : m.resolved = some as)
include hres

theorem connectPeerAt_none {errno : ℕ} (h : addressLoop 0 as = (errno, none)) :
    Held.CallsOnce (fun cb => connectPeerAt m (some cb) s) s { ep := none, err := errno } := by
  refine ⟨id, fun _ => rfl, fun cb => ?_⟩
  simp only [connectPeerAt, hres, h, Held.callBackIfSet, Option.map_id_fun, id]

theorem connectPeerAt_found {a : A} (h : addressLoop 0 as = (0, some a)) :
    ∃ t : HeldClient F, t.obj.self.connected = true ∧
      Held.CallsOnce (fun cb => connectPeerAt m (some cb) s) t { ep := some ⟨.tcp, a⟩, err := 0 } := by
  refine ⟨joined s, rfl, Held.unlock, fun _ => rfl, fun cb => ?_⟩
  simp only [connectPeerAt, hres, h, Held.callBackIfSet, ne_eq, not_true_eq_false, if_false]
  rfl

/-- A failure before the success: the client is disconnected again and told so. -/
theorem connectPeerAt_late {errno : ℕ} {a : A} (hne : errno ≠ 0) (h : addressLoop 0 as = (errno, some a)) :
    ∃ t : HeldClient F, Held.CallsOnce (fun cb => connectPeerAt m (some cb) s) t { ep := none, err := errno } := by
  refine ⟨clientTcpDisconnect (joined s), Held.unlock, fun _ => rfl, fun cb => ?_⟩
  simp only [connectPeerAt, hres, h, Held.callBackIfSet, ne_eq, hne, not_false_eq_true, if_true, joined]

theorem connectPeerAt_reports_first {a : A} {rest : AddressAnswers A} (has : as = (a, none) :: rest) :
    Reports as (fun cb => connectPeerAt m (some cb) s) := by
  subst has
  obtain ⟨t, ht, hcall⟩ := connectPeerAt_found (s := s) hres (a := a) rfl
  exact ⟨t, _, hcall, rfl, ht⟩

/-- Without an address the callback is told of no error. -/
theorem connectPeerAt_not_reports (has : as = []) : ¬ Reports as (fun cb => connectPeerAt m (some cb) s) := by
  subst has
  have hcall := connectPeerAt_none (s := s) hres (show addressLoop 0 [] = (0, none) from rfl)
  intro hreports
  obtain ⟨t, told, ht, hne⟩ := hreports
  rw [ht.told_unique hcall ()] at hne
  exact hne rfl

/-- Behind a failure only a further failure of all the rest is reported right. -/
theorem connectPeerAt_reports_failed {a : A} {e : ℕ} {rest : AddressAnswers A} (has : as = (a, some e) :: rest)
    (he : e ≠ 0) (herr : ∀ x ∈ rest, x.2 ≠ some 0) :
    Reports as (fun cb => connectPeerAt m (some cb) s) ↔ firstConnected rest = none := by
  subst has
  have hne := addressLoop_errno he herr
  have hloop : addressLoop 0 ((a, some e) :: rest) = ((addressLoop e rest).1, firstConnected rest) := by
    rw [← addressLoop_found e rest]
    rfl
  have hfirst : firstConnected ((a, some e) :: rest) = firstConnected rest := rfl
  unfold Reports
  rw [hfirst]
  cases hf : firstConnected rest with
  | none =>
    rw [hf] at hloop
    exact iff_of_true ⟨s, _, connectPeerAt_none hres hloop, hne⟩ rfl
  | some b =>
    rw [hf] at hloop
    obtain ⟨t', hcall⟩ := connectPeerAt_late (s := s) hres hne hloop
    refine iff_of_false ?_ (by simp)
    intro hreports
    obtain ⟨t, told, ht, htold, -⟩ := hreports
    rw [ht.told_unique hcall ()] at htold
    cases htold

theorem connectPeerAt_reports_iff (herr : ∀ x ∈ as, x.2 ≠ some 0) :
    Reports as (fun cb => connectPeerAt m (some cb) s) ↔ FirstOrNone as := by
  unfold FirstOrNone
  cases as with
  | nil => exact iff_of_false (connectPeerAt_not_reports hres rfl) (by simp)
  | cons x rest =>
    obtain ⟨a, answer⟩ := x
    cases answer with
    | none => exact iff_of_true (connectPeerAt_reports_first hres rfl) (.inl ⟨a, rfl⟩)
    | some e =>
      rw [List.forall_mem_cons] at herr
      have he : e ≠ 0 := fun he => herr.1 (congrArg some he)
      rw [connectPeerAt_reports_failed hres rfl he herr.2, firstConnected_eq_none]
      simp

end peer

/-- A synchronous connect reports what it came to exactly when the first address connects or none of
them does: `errno` keeps the failures of earlier addresses, and without any address it is 0. -/
theorem connect_sync_reports_iff (here : A) (m : AddressesMet A) (as : AddressAnswers A) (s : HeldClient F)
    (o : Object F ClientTcp) (hun : Unconnected s) (hsock : clientInitSocket m.socket s.obj = some (o, true))
    (hres : m.resolved = some as) (herr : ∀ x ∈ as, x.2 ≠ some 0) :
    Reports as (fun cb => clientTcpConnectSyncAt here true true m (some cb) s) ↔ FirstOrNone as := by
  have hcode : (fun cb => clientTcpConnectSyncAt here true true m (some cb) s) =
      fun cb => connectPeerAt m (some cb) (s.lock.update fun _ => o) := by
    funext cb
    exact connectTpl_created hun hsock
  rw [hcode]
  exact connectPeerAt_reports_iff hres herr

/-- A client that was just made, and a socket for it. -/
def newClient : HeldClient Unit where
  depth := 0
  obj := { self := clientTcpInit false false ⟨false, false, false, noSocket, noSocket⟩, fds := Descriptors.single 3
           svc := ioServiceInit 3, requests := fun _ => none }

def socketFour : SocketMet := { single := .bound 4, resolved := none }

theorem unconnected_newClient : Unconnected newClient := ⟨rfl, by decide⟩

theorem newClient_socket : ∃ o, clientInitSocket socketFour newClient.obj = some (o, true) := ⟨_, rfl⟩

theorem connect_sync_reports_both : Reports [(7, none), (8, some 111)] (fun cb =>
    clientTcpConnectSyncAt 0 true true ⟨socketFour, some [(7, none), (8, some 111)]⟩ (some cb) newClient) := by
  obtain ⟨o, ho⟩ := newClient_socket
  exact (connect_sync_reports_iff 0 ⟨socketFour, some [(7, none), (8, some 111)]⟩ _ newClient o unconnected_newClient ho
    rfl (by simp)).mpr (.inl ⟨7, rfl⟩)

/-- The first address refuses and the second connects: the callback is told of the refusal. -/
theorem connect_sync_misreports : ¬ Reports [(7, some 111), (8, none)] (fun cb =>
    clientTcpConnectSyncAt 0 true true ⟨socketFour, some [(7, some 111), (8, none)]⟩ (some cb) newClient) := by
  obtain ⟨o, ho⟩ := newClient_socket
  have hcode : (fun cb =>
        clientTcpConnectSyncAt 0 true true ⟨socketFour, some [(7, some 111), (8, none)]⟩ (some cb) newClient) =
      fun cb =>
        connectPeerAt ⟨socketFour, some [(7, some 111), (8, none)]⟩ (some cb) (newClient.lock.update fun _ => o) := by
    funext cb
    exact connectTpl_created unconnected_newClient ho
  rw [hcode, connectPeerAt_reports_iff rfl (by simp)]
  rintro (⟨a, ha⟩ | ⟨_, hall⟩)
  · simp at ha
  · exact hall (8, none) (by simp) rfl

/-! ## After a failure -/

/-- The client is as before the connect, the new socket closed. -/
structure Restored (s s' : HeldClient F) : Prop where
  connected : s'.obj.self.connected = false
  skt : s'.obj.self.local.skt = -1
  closed : s'.obj.fds.file = s.obj.fds.file

/-- The client has kept an open socket without a connection, for which the next connect refuses. -/
structure HalfMade (s : HeldClient F) : Prop where
  connected : s.obj.self.connected = false
  skt : 0 ≤ s.obj.self.local.skt
  file : s.obj.fds.file s.obj.self.local.skt ≠ none
  refused : ∀ m cb, clientTcpConnectSync true true m cb s =
    s.lock.callBackUntested cb { ep := some s.obj.self.local.epType, err := eisconn }

theorem HalfMade.not_restored {s s' : HeldClient F} (h : HalfMade s') : ¬ Restored s s' := by
  intro hr
  have h0 := h.skt
  rw [hr.skt] at h0
  omega

/-- What a created socket is. -/
theorem bindLoop_created {as : List Attempt} {o o' : Object F ClientTcp} (h : bindLoop o as = some (o', true)) :
    0 ≤ o'.self.local.skt ∧ o'.fds.file o'.self.local.skt ≠ none ∧ o'.self.connected = o.self.connected := by
  induction as generalizing o with
  | nil => cases h
  | cons a as ih =>
    cases a with
    | noSocket => exact ih h
    | notReusable fd =>
      obtain ⟨fds, _, h⟩ := Option.map_eq_some_iff.mp h
      cases h
    | notBound fd =>
      obtain ⟨o₁, ho₁, h⟩ := Option.bind_eq_some_iff.mp h
      obtain ⟨fds, _, rfl⟩ := Option.map_eq_some_iff.mp ho₁
      have hb := ih h
      exact hb
    | bound fd =>
      obtain ⟨o₁, ho₁, h⟩ := Option.map_eq_some_iff.mp h
      obtain ⟨fds, hfds, rfl⟩ := Option.map_eq_some_iff.mp ho₁
      obtain ⟨rfl, _⟩ := Prod.mk.inj h
      refine ⟨(Descriptors.acquire_eq hfds).1, ?_, rfl⟩
      have hfile : fds.file fd = some o.fds.fresh := Descriptors.file_acquire_self hfds
      exact fun hn => Option.some_ne_none _ (hfile.symm.trans hn)

theorem initSocket_created {m : SocketMet} {o o' : Object F ClientTcp} (h : clientInitSocket m o = some (o', true)) :
    0 ≤ o'.self.local.skt ∧ o'.fds.file o'.self.local.skt ≠ none ∧ o'.self.connected = o.self.connected := by
  unfold clientInitSocket at h
  dsimp only at h
  split_ifs at h
  · split at h
    · cases h
    · have hb := bindLoop_created h
      exact hb
  · split at h
    · cases h
    · have hb := bindLoop_created h
      exact hb

theorem halfMade_created {m : SocketMet} {s s' : HeldClient F} {o : Object F ClientTcp} (hun : Unconnected s)
    (hsock : clientInitSocket m s.obj = some (o, true)) (hobj : s'.obj = o) : HalfMade s' := by
  obtain ⟨h0, hfile, hconn⟩ := initSocket_created hsock
  subst hobj
  refine ⟨hconn.trans hun.1, h0, hfile, ?_⟩
  intro m cb
  simp only [clientTcpConnectSync, connectTpl, and_self, not_true_eq_false, if_false, Held.obj_lock, h0, if_true]
  rfl

/-- No address was resolved, or none of them could be connected. -/
def Fails (resolved : Option ConnectAnswers) : Prop := ∀ as, resolved = some as → ∀ a ∈ as, a ≠ none

/-- As `Fails`, and no connection is in progress either. -/
def FailsAtOnce (resolved : Option ConnectAnswers) : Prop :=
  ∀ as, resolved = some as → ∀ a ∈ as, a ≠ none ∧ a ≠ some einprogress

theorem connectLoop_failed (errno : ℕ) {as : ConnectAnswers} (h : ∀ a ∈ as, a ≠ none) :
    ∃ e, connectLoop errno as = .error e := by
  induction as generalizing errno with
  | nil => exact ⟨errno, rfl⟩
  | cons a as ih =>
    rw [List.forall_mem_cons] at h
    cases a with
    | none => exact absurd rfl h.1
    | some e => exact ih e h.2

theorem connectPeer_failed {m : ConnectMet} {cb : Option Unit} {s s' : HeldClient F} (hf : Fails m.resolved)
    (h : connectPeer m (cb.map .quiet) s = some s') : s' = s := by
  obtain ⟨socket, resolved⟩ := m
  cases resolved with
  | none => exact Held.callBackUntested_quiet h
  | some as =>
    obtain ⟨e, he⟩ := connectLoop_failed 0 (hf as rfl)
    simp only [connectPeer, he] at h
    exact Held.callBackIfSet_quiet h

theorem connectPeerLater_failed {job : F} {m : ConnectMet} {f : Fcntl} {block : UInt64} {cb : Option Unit}
    {s s' : HeldClient F} (hf : FailsAtOnce m.resolved)
    (h : connectPeerLater job m f block (cb.map .quiet) s = some s') : s'.obj = s.obj := by
  obtain ⟨socket, resolved⟩ := m
  unfold connectPeerLater at h
  split_ifs at h
  cases resolved with
  | none => exact congrArg Held.obj (Held.callBackUntested_quiet h)
  | some as =>
    have hall : ∀ a ∈ as.map fun a => a.filter (· ≠ einprogress), a ≠ none := by
      rw [List.forall_mem_map]
      intro a ha
      obtain ⟨hnone, hprog⟩ := hf as rfl a ha
      cases a with
      | none => exact absurd rfl hnone
      | some e => simpa [Option.filter] using fun he => hprog (congrArg some he)
    obtain ⟨e, he⟩ := connectLoop_failed 0 hall
    simp only [he] at h
    obtain ⟨t, ht, rfl⟩ := Option.map_eq_some_iff.mp h
    show t.obj = s.obj
    rw [Held.callBackIfSet_quiet ht]

/-- A connect that fails does not undo what it did: the socket stays, and stays open. -/
theorem failed_connect_half_made (job : F) (m : ConnectMet) (f : Fcntl) (block : UInt64) (cb : Option Unit)
    (s : HeldClient F) (o : Object F ClientTcp) (hun : Unconnected s)
    (hsock : clientInitSocket m.socket s.obj = some (o, true)) :
    (Fails m.resolved →
      (¬ ∃ s', clientTcpConnectSync true true m (cb.map .quiet) s = some s' ∧ Restored s s') ∧
        ∀ s', clientTcpConnectSync true true m (cb.map .quiet) s = some s' → HalfMade s') ∧
    (FailsAtOnce m.resolved →
      (¬ ∃ s', clientTcpConnectAsync job true true m f block (cb.map .quiet) s = some s' ∧ Restored s s') ∧
        ∀ s', clientTcpConnectAsync job true true m f block (cb.map .quiet) s = some s' → HalfMade s') := by
  constructor
  · intro hf
    have hhalf : ∀ s', clientTcpConnectSync true true m (cb.map .quiet) s = some s' → HalfMade s' := by
      intro s' hs'
      rw [clientTcpConnectSync, connectTpl_created hun hsock] at hs'
      exact halfMade_created hun hsock (congrArg Held.obj (connectPeer_failed hf hs'))
    exact ⟨fun ⟨s', hs', hr⟩ => (hhalf s' hs').not_restored hr, hhalf⟩
  · intro hf
    have hhalf : ∀ s', clientTcpConnectAsync job true true m f block (cb.map .quiet) s = some s' → HalfMade s' := by
      intro s' hs'
      rw [clientTcpConnectAsync, connectTpl_created hun hsock] at hs'
      exact halfMade_created hun hsock (connectPeerLater_failed hf hs')
    exact ⟨fun ⟨s', hs', hr⟩ => (hhalf s' hs').not_restored hr, hhalf⟩

theorem failed_connect_new : ¬ ∃ s', clientTcpConnectSync true true ⟨socketFour, some [some 111]⟩ ((some ()).map .quiet)
    newClient = some s' ∧ Restored newClient s' := by
  obtain ⟨o, ho⟩ := newClient_socket
  have hf : Fails (some [some 111]) := by
    rintro as ⟨⟩
    simp
  exact ((failed_connect_half_made () ⟨socketFour, some [some 111]⟩ ⟨0, 0⟩ 64 (some ()) newClient o
    unconnected_newClient ho).1 hf).1

/-- One address, which refuses: the client still has socket 4, and the next connect is refused. -/
theorem connect_refused_then_eisconn : ∃ s',
    clientTcpConnectSync true true ⟨socketFour, some [some 111]⟩ none newClient = some s' ∧
    ¬ Restored newClient s' ∧ s'.obj.self.local.skt = 4 ∧ s'.obj.fds.file 4 = some 1 ∧
    ∀ cb, clientTcpConnectSync true true ⟨socketFour, some [none]⟩ (some cb) s' =
      s'.lock.callBack cb { ep := some .tcp, err := eisconn } := by
  refine ⟨_, rfl, ?_, rfl, rfl, fun cb => rfl⟩
  intro hr
  have h4 := hr.skt
  revert h4
  decide

/-! ## The assertions of the asynchronous connect -/

/-- `fcntl` on the client's descriptor: on an open one `F_GETFL` answers the flags and `F_SETFL` 0. -/
def fcntlOf (flags : ℕ) (o : Object F ClientTcp) : Fcntl :=
  if (o.fds.file o.self.local.skt).isSome then { getfl := flags, setfl := 0 } else { getfl := -1, setfl := -1 }

theorem fcntlOf_passes (flags : ℕ) (o : Object F ClientTcp) : (fcntlOf flags o).passes = false := by
  unfold fcntlOf Fcntl.passes
  split_ifs <;> simp

/-- The client as `client_tcp_connector` has it when it asks for the flags. -/
def answered (err : ℕ) (s : HeldClient F) : HeldClient F :=
  let s := s.lock.update fun o => { o with self := { o.self with connected := true } }
  if err ≠ 0 then clientTcpDisconnect s else s

/-- `client_tcp_connect_async` and the dispatch of its connector, for which `SO_ERROR` is `err`. -/
def connectThenDispatch (clientTcpConnectorJob : F) (m : ConnectMet) (flags : ℕ) (block : UInt64) (err : ℕ)
    (s : HeldClient F) (cb : ConnectCallback F) : Option (HeldClient F) := do
  let (o, _) ← clientInitSocket m.socket s.lock.obj
  let t ← clientTcpConnectAsync clientTcpConnectorJob true true m (fcntlOf flags o) block (some cb) s
  clientTcpConnector (some err) (fcntlOf flags (answered err t).obj) (some cb) t

/-- The callback is called once, with `err`, and the client is connected if that is 0. -/
def Completes (err : ℕ) (code : ConnectCallback F → Option (HeldClient F)) : Prop :=
  ∃ t told, Held.CallsOnce code t told ∧ told.err = err ∧ (t.obj.self.connected = true ↔ err = 0)

theorem clientTcpConnector_asserts (flags err : ℕ) (cb : Option (ConnectCallback F)) (s : HeldClient F) :
    clientTcpConnector (some err) (fcntlOf flags (answered err s).obj) cb s = none := by
  simp only [clientTcpConnector, Option.bind_some, fcntlOf_passes, Bool.false_eq_true, not_false_eq_true, if_true]

theorem clientTcpConnectAsync_asserts {m : ConnectMet} {s : HeldClient F} {o : Object F ClientTcp} (hun : Unconnected s)
    (hsock : clientInitSocket m.socket s.obj = some (o, true)) (job : F) (flags : ℕ) (block : UInt64)
    (cb : Option (ConnectCallback F)) : clientTcpConnectAsync job true true m (fcntlOf flags o) block cb s = none := by
  rw [clientTcpConnectAsync, connectTpl_created hun hsock, connectPeerLater, if_pos]
  simp [fcntlOf_passes]

/-- No asynchronous connect gets past its assertion on `F_SETFL`, and no connector does. -/
theorem connect_async_never_completes (job : F) (m : ConnectMet) (flags : ℕ) (block : UInt64) (err : ℕ)
    (s : HeldClient F)
    (o : Object F ClientTcp) (hun : Unconnected s) (hsock : clientInitSocket m.socket s.obj = some (o, true)) :
    ¬ Completes err (connectThenDispatch job m flags block err s) ∧
      (∀ cb, clientTcpConnectAsync job true true m (fcntlOf flags o) block cb s = none) ∧
      ∀ t cb, clientTcpConnector (some err) (fcntlOf flags (answered err t).obj) cb (t : HeldClient F) = none := by
  have hasync := clientTcpConnectAsync_asserts hun hsock job flags block
  refine ⟨?_, hasync, fun t cb => clientTcpConnector_asserts flags err cb t⟩
  intro hcompletes
  obtain ⟨t, told, hcalls, _⟩ := hcompletes
  obtain ⟨s', hs', _⟩ := hcalls.returns ()
  have hnone : connectThenDispatch job m flags block err s (.quiet ()) = none := by
    simp only [connectThenDispatch, Held.obj_lock, hsock, Option.bind_eq_bind, Option.bind_some, hasync,
      Option.bind_none]
  rw [hnone] at hs'
  cases hs'

theorem connect_async_new :
    ¬ Completes 0 (connectThenDispatch () ⟨socketFour, some [none]⟩ 2 64 0 newClient) := by
  obtain ⟨o, ho⟩ := newClient_socket
  exact (connect_async_never_completes _ _ 2 64 0 newClient o unconnected_newClient ho).1

/-- A connection in progress that succeeds later: the first assertion ends the program, and the one of the connector
would, also after a disconnection. -/
theorem connect_async_aborts : ¬ Completes 0 (connectThenDispatch ()
      ⟨socketFour, some [some einprogress]⟩ 2 64 0 newClient) ∧
    (∀ cb, connectThenDispatch () ⟨socketFour, some [some einprogress]⟩ 2 64 0 newClient cb = none) ∧
    (∀ cb, clientTcpConnector (some 0) { getfl := 2, setfl := 0 } cb (joined newClient) = none) ∧
    ∀ cb, clientTcpConnector (some 111) { getfl := -1, setfl := -1 } cb (joined newClient) = none := by
  have hnone : ∀ cb, connectThenDispatch () ⟨socketFour, some [some einprogress]⟩ 2 64 0 newClient cb = none :=
    fun _ => rfl
  refine ⟨?_, hnone, fun cb => rfl, fun cb => rfl⟩
  intro hcompletes
  obtain ⟨t, told, hcalls, _⟩ := hcompletes
  obtain ⟨s', hs', _⟩ := hcalls.returns ()
  rw [hnone] at hs'
  cases hs'

end Chats.Network.Client
