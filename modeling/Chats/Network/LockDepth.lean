import Chats.Network.Client
import Chats.Network.OneToMany
import Chats.Network.OneToOne

/-! # The locks that an operation leaves

The mutexes are recursive, so a thread that has not given back a lock notices nothing. Each
operation is followed from its first lock to every one of its ends. -/
namespace Chats.Network
open Chats.Lib Chats.IoService
set_option autoImplicit false

variable {F : Type}

/-! ## The client -/

namespace Client

/-- Whether one of the tries at a socket comes to a socket that is bound. -/
def binds : List Attempt → Bool
  | [] => false
  | .noSocket :: as => binds as
  | .notReusable _ :: _ => false
  | .notBound _ :: as => binds as
  | .bound _ :: _ => true

/-- `client_init_socket` comes to a socket. -/
def SocketMet.obtains (m : SocketMet) (c : ClientTcp) : Bool :=
  if ¬ c.localAddr ∧ ¬ c.localPort then binds [m.single] else binds (m.resolved.getD [])

/-- `getaddrinfo` has found an address that can be connected to. -/
def ConnectMet.Connects (m : ConnectMet) : Prop := ∃ as, m.resolved = some as ∧ none ∈ as

theorem bindLoop_ok {o o' : Object F ClientTcp} {as : List Attempt} {ok : Bool} (h : bindLoop o as = some (o', ok)) :
    ok = binds as := by
  induction as generalizing o with
  | nil =>
    cases h
    rfl
  | cons a as ih =>
    cases a with
    | noSocket => exact ih h
    | notReusable fd =>
      obtain ⟨fds, -, heq⟩ := Option.map_eq_some_iff.mp h
      cases heq
      rfl
    | notBound fd =>
      obtain ⟨o₁, -, h⟩ := Option.bind_eq_some_iff.mp h
      exact ih h
    | bound fd =>
      obtain ⟨o₁, -, heq⟩ := Option.map_eq_some_iff.mp h
      cases heq
      rfl

theorem clientInitSocket_ok {o o' : Object F ClientTcp} {m : SocketMet} {ok : Bool}
    (h : clientInitSocket m o = some (o', ok)) : ok = m.obtains o.self := by
  unfold clientInitSocket at h
  unfold SocketMet.obtains
  simp only at h
  split_ifs at h ⊢
  · split at h
    · cases h
    · exact bindLoop_ok h
  · split at h
    · rename_i hnone
      rw [hnone]
      cases h
      rfl
    · rename_i as hsome
      rw [hsome]
      exact bindLoop_ok h

theorem connectLoop_ok {errno : ℕ} {as : ConnectAnswers} : (∃ e, connectLoop errno as = .ok e) ↔ none ∈ as := by
  induction as generalizing errno with
  | nil => simp [connectLoop]
  | cons a as ih =>
    cases a with
    | none => simp [connectLoop]
    | some e => simpa [connectLoop] using ih

@[simp] theorem depth_disconnect (s : HeldClient F) : (clientTcpDisconnect s).depth = s.depth := by
  unfold clientTcpDisconnect
  simp only
  split_ifs <;> rfl

inductive Operation (F : Type)
  | connector (err : Option ℕ) (f : Fcntl) (cb : Option (ConnectCallback F))
  | deinit
  | disconnect
  | localEp (ep : Option UInt64) (block : UInt64)
  | remoteEp (ep : Option UInt64) (block : UInt64)
  | connectSync (addr port : Bool) (m : ConnectMet) (cb : Option (ConnectCallback F))
  | connectAsync (clientTcpConnector : F) (addr port : Bool) (m : ConnectMet) (f : Fcntl) (connector : UInt64)
      (cb : Option (ConnectCallback F))
  | sendSync (buffer : List UInt8) (ctx : UInt64) (m : Met) (cb : Option (TransferCallback F ClientTcp))
  | recvSync (buffer : List UInt8) (ctx : UInt64) (m : Met) (cb : Option (TransferCallback F ClientTcp))
  | sendAsync (buffer : List UInt8) (ctx : UInt64) (tcpSendRecvAsyncTpl : F)
  | recvAsync (buffer : List UInt8) (ctx : UInt64) (tcpSendRecvAsyncTpl : F)

def Operation.run (s : HeldClient F) : Operation F → Option (HeldClient F)
  | .connector err f cb => clientTcpConnector err f cb s
  | .deinit => some (clientTcpDeinit s)
  | .disconnect => some (clientTcpDisconnect s)
  | .localEp ep block => (clientTcpLocalEp ep block s).map Prod.fst
  | .remoteEp ep block => (clientTcpRemoteEp ep block s).map Prod.fst
  | .connectSync addr port m cb => clientTcpConnectSync addr port m cb s
  | .connectAsync job addr port m f block cb => clientTcpConnectAsync job addr port m f block cb s
  | .sendSync buffer ctx m cb => clientTcpSendSync buffer ctx m cb s
  | .recvSync buffer ctx m cb => clientTcpRecvSync buffer ctx m cb s
  | .sendAsync buffer ctx tpl => clientTcpSendAsync buffer ctx tpl s
  | .recvAsync buffer ctx tpl => clientTcpRecvAsync buffer ctx tpl s

/-- A connect to an address, on a client that has a socket already or that gets one and is `lost` then. -/
def StaysLocked (addr port : Bool) (m : SocketMet) (lost : Prop) (c : ClientTcp) : Prop :=
  addr ∧ port ∧ (0 ≤ c.local.skt ∨ (m.obtains c ∧ lost))

/-- The branches that return with the mutex held: with the new socket, the synchronous connect is lost
if no address is found that can be connected to, and the asynchronous one if none is found at all. -/
def Operation.Leaks (c : ClientTcp) : Operation F → Prop
  | .connectSync addr port m _ => StaysLocked addr port m.socket (¬ m.Connects) c
  | .connectAsync _ addr port m _ _ _ => StaysLocked addr port m.socket (m.resolved = none) c
  | _ => False

section raises
variable (s : HeldClient F)

theorem raises_connectPeer_lost {m : ConnectMet} {cb : Option (ConnectCallback F)} (h : ¬ m.Connects) :
    s.Raises 0 (connectPeer m cb s) := by
  unfold connectPeer
  split
  · exact s.raises_callBackUntested cb _
  · rename_i as has
    split
    · exact s.raises_callBackIfSet cb _
    · rename_i errno hok
      exact absurd ⟨as, has, connectLoop_ok.mp ⟨errno, hok⟩⟩ h

theorem raises_connectPeer {m : ConnectMet} {cb : Option (ConnectCallback F)} (h : m.Connects) {t : HeldClient F}
    (ht : t.depth = s.lock.depth) : s.Raises 0 (connectPeer m cb t) := by
  obtain ⟨as, has, hmem⟩ := h
  obtain ⟨errno, hok⟩ : ∃ errno, connectLoop 0 as = .ok errno := connectLoop_ok.mpr hmem
  unfold connectPeer
  simp only [has, hok]
  split_ifs
  · exact ((Held.raises_callBackIfSet _ cb _).of_depth (by simpa using ht)).bracket
  · exact ((Held.raises_callBackIfSet _ cb _).of_depth (by simpa using ht)).bracket

theorem raises_connectPeerLater_lost {job : F} {m : ConnectMet} {f : Fcntl} {connector : UInt64}
    {cb : Option (ConnectCallback F)} (h : m.resolved = none) :
    s.Raises 0 (connectPeerLater job m f connector cb s) := by
  unfold connectPeerLater
  simp only [h]
  split_ifs
  · exact Held.raises_none
  · exact s.raises_callBackUntested cb _

theorem raises_connectPeerLater {job : F} {m : ConnectMet} {f : Fcntl} {connector : UInt64}
    {cb : Option (ConnectCallback F)} (h : m.resolved ≠ none) {t : HeldClient F} (ht : t.depth = s.lock.depth) :
    s.Raises 0 (connectPeerLater job m f connector cb t) := by
  unfold connectPeerLater
  split_ifs
  · exact Held.raises_none
  · split
    · contradiction
    · split
      · exact ((Held.raises_callBackIfSet _ cb _).of_depth ht).bracket
      · refine Held.raises_some ?_
        rw [Held.depth_unlock, Held.depth_update, ht]
        rfl

section connect
variable {addr port : Bool} {m : SocketMet} {refused already : Option (HeldClient F)} {lost : Prop}
  {rest : HeldClient F → Option (HeldClient F)}

variable {s}

theorem raises_connectTpl_locked (halready : s.lock.Raises 0 already)
    (hrest : lost → ∀ t : HeldClient F, t.Raises 0 (rest t))
    (h : StaysLocked addr port m lost s.obj.self) : s.Raises 1 (connectTpl addr port m refused already rest s) := by
  obtain ⟨haddr, hport, h⟩ := h
  unfold connectTpl
  rw [if_neg (by simp [haddr, hport])]
  apply Held.Raises.leak
  by_cases hskt : 0 ≤ s.obj.self.local.skt
  · rw [if_pos (show 0 ≤ s.lock.obj.self.local.skt from hskt)]
    exact halready
  · obtain ⟨hobtains, hlost⟩ := h.resolve_left hskt
    rw [if_neg (show ¬ 0 ≤ s.lock.obj.self.local.skt from hskt)]
    intro s' hs'
    obtain ⟨⟨o, ok⟩, hinit, hs'⟩ := Option.bind_eq_some_iff.mp hs'
    obtain rfl : ok = true := (clientInitSocket_ok hinit).trans hobtains
    exact hrest hlost (s.lock.update fun _ => o) s' hs'

theorem raises_connectTpl (hrefused : s.Raises 0 refused)
    (hrest : ¬ lost → ∀ t : HeldClient F, t.depth = s.lock.depth → s.Raises 0 (rest t))
    (h : ¬ StaysLocked addr port m lost s.obj.self) : s.Raises 0 (connectTpl addr port m refused already rest s) := by
  unfold connectTpl
  by_cases hgiven : addr ∧ port
  · have hskt : ¬ 0 ≤ s.obj.self.local.skt := fun hskt => h ⟨hgiven.1, hgiven.2, Or.inl hskt⟩
    rw [if_neg (not_not.mpr hgiven), if_neg (show ¬ 0 ≤ s.lock.obj.self.local.skt from hskt)]
    intro s' hs'
    obtain ⟨⟨o, ok⟩, hinit, hs'⟩ := Option.bind_eq_some_iff.mp hs'
    have hok := clientInitSocket_ok hinit
    cases ok with
    | false =>
      obtain rfl := Option.some.inj hs'
      rfl
    | true =>
      have hkept : ¬ lost := fun hlost => h ⟨hgiven.1, hgiven.2, Or.inr ⟨hok.symm, hlost⟩⟩
      exact hrest hkept (s.lock.update fun _ => o) rfl s' hs'
  · rw [if_pos hgiven]
    exact hrefused

end connect

theorem raises_connector (err : Option ℕ) (f : Fcntl) (cb : Option (ConnectCallback F)) :
    s.Raises 0 (clientTcpConnector err f cb s) := by
  unfold clientTcpConnector
  cases err with
  | none => exact Held.raises_none
  | some err =>
    simp only [Option.bind_some]
    split
    · exact Held.raises_none
    · refine ((Held.raises_callBackIfSet _ cb _).of_depth ?_).bracket
      split_ifs <;> simp

theorem depth_deinit : (clientTcpDeinit s).depth = s.depth := by
  unfold clientTcpDeinit
  simp only [Held.depth_unlock, Held.depth_update]
  split_ifs <;> simp

theorem raises_endpointTpl (side : ClientTcp → EndpointSocket) (ep : Option UInt64) (block : UInt64) :
    s.Raises 0 ((endpointTpl side ep block s).map Prod.fst) := by
  unfold endpointTpl
  cases ep with
  | none => exact Held.raises_some rfl
  | some p =>
    simp only
    split_ifs
    all_goals first | exact Held.raises_none | exact Held.raises_some rfl

theorem raises_run (op : Operation F) : ∃ k, s.Raises k (op.run s) ∧ (k = 0 ↔ ¬ op.Leaks s.obj.self) := by
  cases op with
  | connector err f cb => exact ⟨0, raises_connector s err f cb, by simp [Operation.Leaks]⟩
  | deinit => exact ⟨0, Held.raises_some (depth_deinit s), by simp [Operation.Leaks]⟩
  | disconnect => exact ⟨0, Held.raises_some (depth_disconnect s), by simp [Operation.Leaks]⟩
  | localEp ep block => exact ⟨0, raises_endpointTpl s _ ep block, by simp [Operation.Leaks]⟩
  | remoteEp ep block => exact ⟨0, raises_endpointTpl s _ ep block, by simp [Operation.Leaks]⟩
  | connectSync addr port m cb =>
    by_cases hleaks : StaysLocked addr port m.socket (¬ m.Connects) s.obj.self
    · refine ⟨1, ?_, by simp [Operation.Leaks, hleaks]⟩
      exact raises_connectTpl_locked (Held.raises_callBackUntested _ cb _) (fun hlost t =>
        raises_connectPeer_lost t hlost) hleaks
    · refine ⟨0, ?_, by simp [Operation.Leaks, hleaks]⟩
      exact raises_connectTpl (Held.raises_callBackUntested _ cb _)
        (fun hkept t ht => raises_connectPeer s (not_not.mp hkept) ht) hleaks
  | connectAsync job addr port m f block cb =>
    by_cases hleaks : StaysLocked addr port m.socket (m.resolved = none) s.obj.self
    · refine ⟨1, ?_, by simp [Operation.Leaks, hleaks]⟩
      exact raises_connectTpl_locked (Held.raises_callBackUntested _ cb _)
        (fun hlost t => raises_connectPeerLater_lost t hlost) hleaks
    · refine ⟨0, ?_, by simp [Operation.Leaks, hleaks]⟩
      exact raises_connectTpl (Held.raises_some rfl) (fun hkept t ht => raises_connectPeerLater s hkept ht) hleaks
  | sendSync buffer ctx m cb => exact ⟨0, raises_sync s ctx (request buffer .send s) m cb, by simp [Operation.Leaks]⟩
  | recvSync buffer ctx m cb => exact ⟨0, raises_sync s ctx (request buffer .recv s) m cb, by simp [Operation.Leaks]⟩
  | sendAsync buffer ctx tpl => exact ⟨0, raises_async s ctx (request buffer .send s) tpl, by simp [Operation.Leaks]⟩
  | recvAsync buffer ctx tpl => exact ⟨0, raises_async s ctx (request buffer .recv s) tpl, by simp [Operation.Leaks]⟩

end raises

end Client

/-! ## The one-to-many server -/

namespace OneToMany
open LinkedList

inductive Operation (F : Type)
  | acceptor (b : Block) (afd : ℤ) (cb : Option (ConnectionCallback F))
  | deinit
  | disconnect (connection : UInt64)
  | listenSync (acceptor : UInt64) (b : Block) (afd : ℤ) (cb : Option (ConnectionCallback F))
  | listenAsync (tcpAcceptor : F) (acceptor : UInt64)
  | localEp (ep : UInt64)
  | sendSync (connection : UInt64) (buffer : List UInt8) (ctx : UInt64) (m : Met)
      (cb : Option (TransferCallback F OtmServerTcp))
  | recvSync (connection : UInt64) (buffer : List UInt8) (ctx : UInt64) (m : Met)
      (cb : Option (TransferCallback F OtmServerTcp))
  | sendAsync (connection : UInt64) (buffer : List UInt8) (ctx : UInt64) (tcpSendRecvAsyncTpl : F)
  | recvAsync (connection : UInt64) (buffer : List UInt8) (ctx : UInt64) (tcpSendRecvAsyncTpl : F)

def Operation.run (s : HeldServer F) : Operation F → Option (HeldServer F)
  | .acceptor b afd cb => tcpAcceptor b afd cb s
  | .deinit => otmServerTcpDeinit s
  | .disconnect connection => otmServerTcpDisconnect connection s
  | .listenSync block b afd cb => otmServerTcpListenSync block b afd cb s
  | .listenAsync job block => otmServerTcpListenAsync job block s
  | .localEp ep => some (otmServerTcpLocalEp ep s).1
  | .sendSync connection buffer ctx m cb => otmServerTcpSendSync connection buffer ctx m cb s
  | .recvSync connection buffer ctx m cb => otmServerTcpRecvSync connection buffer ctx m cb s
  | .sendAsync connection buffer ctx tpl => otmServerTcpSendAsync connection buffer ctx tpl s
  | .recvAsync connection buffer ctx tpl => otmServerTcpRecvAsync connection buffer ctx tpl s

/-- A synchronous receive, of some bytes, on a connection of the server. -/
def Operation.Leaks (server : OtmServerTcp) : Operation F → Prop
  | .recvSync connection buffer _ _ _ =>
    buffer ≠ [] ∧ connection ≠ 0 ∧ ∃ c, server.connection connection = some c ∧ c.host = server.addr
  | _ => False

section raises
variable (s : HeldServer F)

theorem raises_acceptor (b : Block) (afd : ℤ) (cb : Option (ConnectionCallback F)) :
    s.Raises 0 (tcpAcceptor b afd cb s) := by
  unfold tcpAcceptor
  intro s' hs'
  obtain ⟨⟨t, connection⟩, hbegins, hs'⟩ := Option.bind_eq_some_iff.mp hs'
  obtain ⟨cb, -, hs'⟩ := Option.bind_eq_some_iff.mp hs'
  obtain ⟨⟨t', keep⟩, hcall, hs'⟩ := Option.bind_eq_some_iff.mp hs'
  have ht : t.depth = s.lock.depth := by
    obtain ⟨r, -, heq⟩ := Option.map_eq_some_iff.mp hbegins
    cases heq
    rfl
  have ht' : t'.depth = s.lock.depth := (cb.balanced _ _ _ _ hcall).trans ht
  have hends : t'.Raises 0 (if keep then some t' else t'.change (giveUp connection)) := by
    split_ifs
    · exact Held.raises_some rfl
    · exact t'.raises_change _
  exact (hends.of_depth ht').bracket s' hs'

theorem raises_listenSync (acceptor : UInt64) (b : Block) (afd : ℤ) (cb : Option (ConnectionCallback F)) :
    s.Raises 0 (otmServerTcpListenSync acceptor b afd cb s) := by
  unfold otmServerTcpListenSync
  dsimp only
  split_ifs
  · exact Held.raises_none
  · exact (raises_acceptor s.lock b afd cb).bracket

theorem raises_listenAsync (job : F) (acceptor : UInt64) : s.Raises 0 (otmServerTcpListenAsync job acceptor s) := by
  unfold otmServerTcpListenAsync
  dsimp only
  split_ifs
  · exact Held.raises_none
  · exact Held.raises_some rfl

theorem raises_deinit : s.Raises 0 (otmServerTcpDeinit s) := (s.lock.raises_change _).bracket

theorem raises_disconnect (connection : UInt64) : s.Raises 0 (otmServerTcpDisconnect connection s) := by
  intro s' hs'
  obtain ⟨c, -, hs'⟩ := Option.bind_eq_some_iff.mp hs'
  cases c with
  | none => exact Held.raises_some rfl s' hs'
  | some c => exact (s.lock.raises_change _).bracket s' hs'

theorem depth_localEp (ep : UInt64) : (otmServerTcpLocalEp ep s).1.depth = s.depth := by
  unfold otmServerTcpLocalEp
  split_ifs <;> rfl

theorem request_isSome_iff {connection : UInt64} {buffer : List UInt8} {op : SrbOperation} {r : Option Srb}
    (h : request connection buffer op s = some r) : r.isSome ↔ buffer ≠ [] ∧ connection ≠ 0 ∧
      ∃ c, s.obj.self.connection connection = some c ∧ c.host = s.obj.self.addr := by
  unfold request hosts at h
  split_ifs at h with hbuffer hnull
  · obtain rfl := Option.some.inj h
    simp [hbuffer]
  · obtain rfl := Option.some.inj h
    simp [hnull]
  · rw [Option.map_map, Option.map_eq_some_iff] at h
    obtain ⟨c, hc, rfl⟩ := h
    by_cases hhost : c.host = s.obj.self.addr
    · cases op <;> simp [hbuffer, hnull, hc, hhost, transferRequest, clientTcpSendAsync, clientTcpRecvAsync]
    · simp [hc, hhost]

theorem raises_recvSync {connection : UInt64} {buffer : List UInt8} {ctx : UInt64} {m : Met}
    {cb : Option (TransferCallback F OtmServerTcp)} :
    ∃ k, s.Raises k (otmServerTcpRecvSync connection buffer ctx m cb s) ∧
      (k = 0 ↔ ¬ (Operation.recvSync connection buffer ctx m cb).Leaks s.obj.self) := by
  by_cases hleaks : (Operation.recvSync connection buffer ctx m cb).Leaks s.obj.self
  · refine ⟨2, ?_, by simp [hleaks]⟩
    intro s' hs'
    obtain ⟨r, hrequest, hs'⟩ := Option.bind_eq_some_iff.mp hs'
    obtain ⟨srb, rfl⟩ := Option.isSome_iff_exists.mp ((request_isSome_iff s hrequest).mpr hleaks)
    obtain ⟨t, ht, rfl⟩ := Option.map_eq_some_iff.mp hs'
    rw [Held.depth_lock, raises_transferSync s.lock srb ctx m cb t ht]
    rfl
  · refine ⟨0, ?_, by simp [hleaks]⟩
    intro s' hs'
    obtain ⟨r, hrequest, hs'⟩ := Option.bind_eq_some_iff.mp hs'
    cases r with
    | none => exact Held.raises_some rfl s' hs'
    | some srb => exact absurd ((request_isSome_iff s hrequest).mp rfl) hleaks

theorem raises_run (op : Operation F) : ∃ k, s.Raises k (op.run s) ∧ (k = 0 ↔ ¬ op.Leaks s.obj.self) := by
  cases op with
  | acceptor b afd cb => exact ⟨0, raises_acceptor s b afd cb, by simp [Operation.Leaks]⟩
  | deinit => exact ⟨0, raises_deinit s, by simp [Operation.Leaks]⟩
  | disconnect connection => exact ⟨0, raises_disconnect s connection, by simp [Operation.Leaks]⟩
  | listenSync block b afd cb => exact ⟨0, raises_listenSync s block b afd cb, by simp [Operation.Leaks]⟩
  | listenAsync job block => exact ⟨0, raises_listenAsync s job block, by simp [Operation.Leaks]⟩
  | localEp ep => exact ⟨0, Held.raises_some (depth_localEp s ep), by simp [Operation.Leaks]⟩
  | sendSync connection buffer ctx m cb =>
    exact ⟨0, raises_sync s ctx _ m cb, by simp [Operation.Leaks]⟩
  | recvSync connection buffer ctx m cb => exact raises_recvSync s
  | sendAsync connection buffer ctx tpl =>
    exact ⟨0, raises_async s ctx _ tpl, by simp [Operation.Leaks]⟩
  | recvAsync connection buffer ctx tpl =>
    exact ⟨0, raises_async s ctx _ tpl, by simp [Operation.Leaks]⟩

end raises

end OneToMany

/-! ## The one-to-one server -/

namespace OneToOne

inductive Operation (F : Type)
  | acceptor (afd : ℤ) (cb : Option (ConnectionCallback F))
  | deinit
  | disconnect
  | listenSync (acceptor : UInt64) (afd : ℤ) (cb : Option (ConnectionCallback F))
  | listenAsync (otoTcpAcceptor : F) (acceptor : UInt64)
  | localEp (ep : UInt64)
  | remoteEp (ep : UInt64)
  | sendSync (buffer : List UInt8) (ctx : UInt64) (m : Met) (cb : Option (TransferCallback F OtoServerTcp))
  | recvSync (buffer : List UInt8) (ctx : UInt64) (m : Met) (cb : Option (TransferCallback F OtoServerTcp))
  | sendAsync (buffer : List UInt8) (ctx : UInt64) (tcpSendRecvAsyncTpl : F)
  | recvAsync (buffer : List UInt8) (ctx : UInt64) (tcpSendRecvAsyncTpl : F)

def Operation.run (s : HeldServer F) : Operation F → Option (HeldServer F)
  | .acceptor afd cb => otoTcpAcceptor afd cb s
  | .deinit => some (otoServerTcpDeinit s)
  | .disconnect => some (otoServerTcpDisconnect s)
  | .listenSync block afd cb => otoServerTcpListenSync block afd cb s
  | .listenAsync job block => otoServerTcpListenAsync job block s
  | .localEp ep => some (otoServerTcpLocalEp ep s).1
  | .remoteEp ep => (otoServerTcpRemoteEp ep s).map Prod.fst
  | .sendSync buffer ctx m cb => otoServerTcpSendSync buffer ctx m cb s
  | .recvSync buffer ctx m cb => otoServerTcpRecvSync buffer ctx m cb s
  | .sendAsync buffer ctx tpl => otoServerTcpSendAsync buffer ctx tpl s
  | .recvAsync buffer ctx tpl => otoServerTcpRecvAsync buffer ctx tpl s

section raises
variable (s : HeldServer F)

theorem raises_acceptor (afd : ℤ) (cb : Option (ConnectionCallback F)) : s.Raises 0 (otoTcpAcceptor afd cb s) := by
  intro s' hs'
  obtain ⟨t, hbegins, hs'⟩ := Option.bind_eq_some_iff.mp hs'
  obtain ⟨cb, -, hs'⟩ := Option.bind_eq_some_iff.mp hs'
  obtain ⟨⟨t', keep⟩, hcall, rfl⟩ := Option.map_eq_some_iff.mp hs'
  have ht : t.depth = s.lock.depth := s.lock.raises_change _ t hbegins
  have ht' : t'.depth = s.lock.depth := (cb.balanced _ _ _ _ hcall).trans ht
  have hends : (acceptorEnds keep t').depth = t'.depth - 1 := by
    unfold acceptorEnds
    split_ifs <;> rfl
  rw [hends, ht']
  rfl

theorem raises_listenSync (acceptor : UInt64) (afd : ℤ) (cb : Option (ConnectionCallback F)) :
    s.Raises 0 (otoServerTcpListenSync acceptor afd cb s) := by
  unfold otoServerTcpListenSync
  dsimp only
  split_ifs
  · exact Held.raises_some rfl
  · exact Held.raises_none
  · exact (raises_acceptor s.lock afd cb).bracket

theorem raises_listenAsync (job : F) (acceptor : UInt64) : s.Raises 0 (otoServerTcpListenAsync job acceptor s) := by
  unfold otoServerTcpListenAsync
  dsimp only
  split_ifs
  · exact Held.raises_some rfl
  · exact Held.raises_none
  · exact Held.raises_some rfl

theorem depth_deinit : (otoServerTcpDeinit s).depth = s.depth := by
  unfold otoServerTcpDeinit
  dsimp only
  split_ifs <;> rfl

theorem depth_localEp (ep : UInt64) : (otoServerTcpLocalEp ep s).1.depth = s.depth := by
  unfold otoServerTcpLocalEp
  split_ifs <;> rfl

theorem raises_remoteEp (ep : UInt64) : s.Raises 0 ((otoServerTcpRemoteEp ep s).map Prod.fst) := by
  unfold otoServerTcpRemoteEp
  dsimp only
  split
  · exact Held.raises_none
  · exact Held.raises_some rfl

theorem raises_run (op : Operation F) : s.Raises 0 (op.run s) := by
  cases op with
  | acceptor afd cb => exact raises_acceptor s afd cb
  | deinit => exact Held.raises_some (depth_deinit s)
  | disconnect => exact Held.raises_some rfl
  | listenSync block afd cb => exact raises_listenSync s block afd cb
  | listenAsync job block => exact raises_listenAsync s job block
  | localEp ep => exact Held.raises_some (depth_localEp s ep)
  | remoteEp ep => exact raises_remoteEp s ep
  | sendSync buffer ctx m cb => exact raises_sync s ctx (request buffer .send s) m cb
  | recvSync buffer ctx m cb => exact raises_sync s ctx (request buffer .recv s) m cb
  | sendAsync buffer ctx tpl => exact raises_async s ctx (request buffer .send s) tpl
  | recvAsync buffer ctx tpl => exact raises_async s ctx (request buffer .recv s) tpl

end raises

end OneToOne

/-! ## All operations -/

/-- An operation of any of the three objects returns with the mutex held as often as before exactly when
it does not take one of the branches that leak. -/
theorem lock_depth_iff :
    (∀ (op : Client.Operation F) (s s' : Client.HeldClient F), op.run s = some s' →
      (s'.depth = s.depth ↔ ¬ op.Leaks s.obj.self)) ∧
    (∀ (op : OneToMany.Operation F) (s s' : OneToMany.HeldServer F), op.run s = some s' →
      (s'.depth = s.depth ↔ ¬ op.Leaks s.obj.self)) ∧
    ∀ (op : OneToOne.Operation F) (s s' : OneToOne.HeldServer F), op.run s = some s' → s'.depth = s.depth := by
  refine ⟨?_, ?_, ?_⟩
  · intro op s s' hs'
    obtain ⟨k, hraises, hk⟩ := Client.raises_run s op
    rw [← hk]
    exact Held.Raises.depth_eq_iff (hs' ▸ hraises)
  · intro op s s' hs'
    obtain ⟨k, hraises, hk⟩ := OneToMany.raises_run s op
    rw [← hk]
    exact Held.Raises.depth_eq_iff (hs' ▸ hraises)
  · intro op s s' hs'
    exact OneToOne.raises_run s op s' hs'

/-- A client that is connected on descriptor 5. -/
def connectedClient : Client.HeldClient JobFunction where
  depth := 0
  obj := {
    self := {
      connected := true, localAddr := false, localPort := false
      «local» := { skt := 5, epType := .tcp }, remote := { skt := 5, epType := .tcp } }
    fds := { file := Function.update (fun _ => none) 5 (some 0), fresh := 1, trace := [.acquired 5 0] }
    svc := ioServiceInit 3
    requests := fun _ => none }

theorem lock_depth_iff_disconnect : (Client.clientTcpDisconnect connectedClient).depth = connectedClient.depth := by
  have hiff := lock_depth_iff.1 (.disconnect) connectedClient (Client.clientTcpDisconnect connectedClient) rfl
  exact hiff.mpr id

/-- It is told to connect again, and its callback that it is connected. -/
def connectAgain : Client.Operation JobFunction :=
  .connectSync true true { socket := { single := .noSocket, resolved := none }, resolved := none } (some (.quiet ()))

theorem connect_again_stays_locked :
    (∃ s', connectAgain.run connectedClient = some s' ∧ connectedClient.depth = 0 ∧ s'.depth = 1) ∧
    ¬ ∀ (op : Client.Operation JobFunction) (s s' : Client.HeldClient JobFunction), op.run s = some s' →
      s'.depth = s.depth := by
  refine ⟨⟨_, rfl, rfl, rfl⟩, ?_⟩
  intro hall
  have hdepth := hall connectAgain connectedClient _ rfl
  cases hdepth

end Chats.Network
