import Chats.IoService.Moves
import Chats.Network.Client

/-! # Runs of the client

The number of the client's socket is also in `remote`, in the requests and in the lookup table, and
a disconnection changes none of these copies, while the kernel may give the number to anyone. What
the copies hold is always the number of the socket or one that the client has closed. -/
namespace Chats.Network.Client
open Chats.Lib Chats.Lib.Descriptors Chats.IoService
set_option autoImplicit false

/-! ## The steps -/

structure State where
  held : HeldClient JobFunction
  loop : Loop JobFunction
  progress : Progress

namespace State

def object (s : State) : Object JobFunction ClientTcp := s.held.obj

def fds (s : State) : Descriptors := s.held.obj.fds

def system (s : State) : System where
  svc := s.held.obj.svc
  loop := s.loop
  progress := s.progress
  requests := s.held.obj.requests

def resume (s : State) (t : System) : State where
  held := s.held.update fun o => { o with svc := t.svc, requests := t.requests }
  loop := t.loop
  progress := t.progress

end State

def start (addr port : Bool) (old : ClientTcp) (eventFd : ℤ) : State where
  held := { depth := 0, obj := {
    self := clientTcpInit addr port old, fds := Descriptors.single eventFd, svc := ioServiceInit eventFd
    requests := fun _ => none } }
  loop := .idle
  progress := .done

/-- A connect calls back at its end, if there is a callback: what that does with the client is the
steps that follow. -/
inductive Label
  | connect (addr port : Bool) (m : ConnectMet) (cb : Option Unit)
  | disconnect
  | send (buffer : List UInt8) (ctx : UInt64)
  | recv (buffer : List UInt8) (ctx : UInt64)
  | loop (a : Action)
  | opened (fd : ℤ)
  | closed (fd : ℤ)

def OfLoop : Action → Prop
  | .send _ _ _ => False
  | .recv _ _ _ => False
  | _ => True

/-- The others close neither the service's descriptor nor what the client has acquired, and events come
from open descriptors. -/
inductive Step : State → Label → State → Prop
  | connect {s : State} {addr port : Bool} {m : ConnectMet} {cb : Option Unit} {held : HeldClient JobFunction} :
      clientTcpConnectSync addr port m (cb.map .quiet) s.held = some held →
      Step s (.connect addr port m cb) { s with held }
  | disconnect {s : State} : Step s .disconnect { s with held := clientTcpDisconnect s.held }
  | send {s : State} {buffer : List UInt8} {ctx : UInt64} {held : HeldClient JobFunction} :
      clientTcpSendAsync buffer ctx .tcpSendRecvAsyncTpl s.held = some held →
      Step s (.send buffer ctx) { s with held }
  | recv {s : State} {buffer : List UInt8} {ctx : UInt64} {held : HeldClient JobFunction} :
      clientTcpRecvAsync buffer ctx .tcpSendRecvAsyncTpl s.held = some held →
      Step s (.recv buffer ctx) { s with held }
  | loop {s : State} {a : Action} {t : System} : OfLoop a →
      (∀ fd events, a = .wake fd events → s.fds.file fd ≠ none) → Network.Step s.system a t →
      Step s (.loop a) (s.resume t)
  | opened {s : State} {fd : ℤ} {fds : Descriptors} : s.fds.opened fd = some fds →
      Step s (.opened fd) { s with held := s.held.update fun o => { o with fds } }
  | closed {s : State} {fd : ℤ} : fd ≠ s.object.svc.eventFd → (∀ f ∈ s.fds.acquired, s.fds.file fd ≠ some f) →
      Step s (.closed fd) { s with held := s.held.update fun o =>
        { o with fds := o.fds.dropped fd, svc := { o.svc with epoll := o.svc.epoll.del fd } } }

/-! ## What holds of every step -/

/-- The step starts a request on the number, or calls a transfer job for it. -/
def Uses (s : State) (fd : ℤ) : Label → Prop
  | .send buffer _ => ∃ srb, transferRequest .send s.object.self.remote buffer = some srb ∧ srb.endpoint.skt = fd
  | .recv buffer _ => ∃ srb, transferRequest .recv s.object.self.remote buffer = some srb ∧ srb.endpoint.skt = fd
  | .loop .call => ∃ c, s.loop = .picked c ∧ c.fd = fd
  | _ => False

/-- A request is started while `remote` has the number of the client's socket, and a job is called for
that number. -/
def Meets (s : State) : Label → Prop
  | .send buffer _ => buffer = [] ∨ s.object.self.remote.skt = s.object.self.local.skt
  | .recv buffer _ => buffer = [] ∨ s.object.self.remote.skt = s.object.self.local.skt
  | .loop .call => ∀ c, s.loop = .picked c → c.fd = s.object.self.local.skt
  | _ => True

theorem transferRequest_endpoint {op : SrbOperation} {ep : EndpointSocket} {buffer : List UInt8} {srb : Srb}
    (h : transferRequest op ep buffer = some srb) : buffer ≠ [] ∧ srb.endpoint = ep := by
  cases op with
  | send =>
    unfold transferRequest Network.clientTcpSendAsync at h
    dsimp only at h
    split_ifs at h with hempty
    rw [← Option.some.inj h]
    exact ⟨hempty, rfl⟩
  | recv =>
    unfold transferRequest Network.clientTcpRecvAsync at h
    dsimp only at h
    split_ifs at h with hempty
    rw [← Option.some.inj h]
    exact ⟨hempty, rfl⟩

theorem exists_transferRequest (op : SrbOperation) (ep : EndpointSocket) {buffer : List UInt8} (h : buffer ≠ []) :
    ∃ srb, transferRequest op ep buffer = some srb := by
  cases op with
  | send => simp [transferRequest, Network.clientTcpSendAsync, h]
  | recv => simp [transferRequest, Network.clientTcpRecvAsync, h]

theorem request_skt_iff (op : SrbOperation) (ep : EndpointSocket) (buffer : List UInt8) (fd : ℤ) :
    (∃ srb, transferRequest op ep buffer = some srb ∧ srb.endpoint.skt = fd) ↔ buffer ≠ [] ∧ ep.skt = fd := by
  constructor
  · rintro ⟨srb, hsrb, rfl⟩
    obtain ⟨hbuffer, hep⟩ := transferRequest_endpoint hsrb
    exact ⟨hbuffer, by rw [hep]⟩
  · rintro ⟨hbuffer, rfl⟩
    obtain ⟨srb, hsrb⟩ := exists_transferRequest op ep hbuffer
    exact ⟨srb, hsrb, by rw [(transferRequest_endpoint hsrb).2]⟩

theorem meets_iff (s : State) (a : Label) : Meets s a ↔ ∀ fd, Uses s fd a → fd = s.object.self.local.skt := by
  have hrequest : ∀ op (buffer : List UInt8), (buffer = [] ∨ s.object.self.remote.skt = s.object.self.local.skt) ↔
      ∀ fd, (∃ srb, transferRequest op s.object.self.remote buffer = some srb ∧ srb.endpoint.skt = fd) →
        fd = s.object.self.local.skt := by
    intro op buffer
    simp only [request_skt_iff]
    constructor
    · rintro (hempty | heq) fd ⟨hbuffer, rfl⟩
      · exact absurd hempty hbuffer
      · exact heq
    · intro hall
      by_cases hempty : buffer = []
      · exact Or.inl hempty
      · exact Or.inr (hall _ ⟨hempty, rfl⟩)
  cases a with
  | send buffer ctx => exact hrequest .send buffer
  | recv buffer ctx => exact hrequest .recv buffer
  | loop a =>
    cases a with
    | call =>
      constructor
      · rintro hall fd ⟨c, hc, rfl⟩
        exact hall c hc
      · intro hall c hc
        exact hall c.fd ⟨c, hc, rfl⟩
    | _ => exact iff_of_true trivial nofun
  | _ => exact iff_of_true trivial nofun

/-! ## What the operations do with the numbers -/

section onward
variable {F : Type} {o o' o'' : Object F ClientTcp} {fd : ℤ}

/-- The number is that of the client's socket, or the client has closed it. -/
def Known (o : Object F ClientTcp) (fd : ℤ) : Prop := 0 ≤ fd ∧ (fd = o.self.local.skt ∨ Lost fd o.fds.trace)

def Live (o : Object F ClientTcp) : Prop := 0 ≤ o.self.local.skt → ¬ Lost o.self.local.skt o.fds.trace

/-- From `o` to `o'` the client may have changed its socket, and `remote` only for a known number. -/
structure Onward (o o' : Object F ClientTcp) : Prop where
  live : Live o → Live o'
  known : ∀ fd, Known o fd → Known o' fd
  copy : o'.self.remote = o.self.remote ∨ Known o' o'.self.remote.skt
  table : o'.svc.lookupTable = o.svc.lookupTable

theorem Onward.refl (o : Object F ClientTcp) : Onward o o := ⟨id, fun _ => id, Or.inl rfl, rfl⟩

theorem Onward.trans (h : Onward o o') (h' : Onward o' o'') : Onward o o'' := by
  refine ⟨fun hlive => h'.live (h.live hlive), fun fd hfd => h'.known fd (h.known fd hfd), ?_, h'.table.trans h.table⟩
  cases h'.copy with
  | inl hsame =>
    rw [hsame]
    exact h.copy.imp id (h'.known _)
  | inr hknown => exact Or.inr hknown

theorem onward_same (hself : o'.self = o.self) (htrace : o'.fds.trace = o.fds.trace)
    (htable : o'.svc.lookupTable = o.svc.lookupTable) : Onward o o' := by
  refine ⟨?_, ?_, Or.inl (by rw [hself]), htable⟩
  · unfold Live
    rw [hself, htrace]
    exact id
  · unfold Known
    rw [hself, htrace]
    exact fun _ => id

/-- A client without a socket has closed every number that is known. -/
theorem Known.lost (h : Known o fd) (hnone : o.self.local.skt < 0) : Lost fd o.fds.trace := by
  obtain ⟨h0, heq | hlost⟩ := h
  · omega
  · exact hlost

theorem onward_forgotten (hnone : o.self.local.skt < 0) :
    Onward o { o with self := { o.self with «local» := { o.self.local with skt := -1 } } } := by
  refine ⟨fun _ (h0 : (0 : ℤ) ≤ -1) => ?_, fun fd hfd => ⟨hfd.1, Or.inr (hfd.lost hnone)⟩, Or.inl rfl, rfl⟩
  omega

/-- A socket that was closed before anyone could get its number from the client. -/
theorem onward_notBound (hnone : o.self.local.skt < 0) (h : o.acquire fd = some o') : Onward o (o'.close fd) := by
  obtain ⟨fds, hfds, rfl⟩ := Option.map_eq_some_iff.mp h
  refine ⟨fun _ h0 => ?_, fun x hx => ⟨hx.1, Or.inr ?_⟩, Or.inl rfl, rfl⟩
  · exact absurd h0 (not_le.mpr hnone)
  · show Lost x (fds.close fd).trace
    rw [lost_close, lost_acquire hfds]
    by_cases heq : fd = x
    · exact Or.inl heq
    · exact Or.inr ⟨heq, hx.lost hnone⟩

theorem onward_adopt (hnone : o.self.local.skt < 0) (h : o.acquire fd = some o') :
    Onward o (adopt fd o') ∧ 0 ≤ (adopt fd o').self.local.skt := by
  obtain ⟨fds, hfds, rfl⟩ := Option.map_eq_some_iff.mp h
  have hlost := lost_acquire hfds
  refine ⟨⟨fun _ _ hfd => ((hlost fd).mp hfd).1 rfl, fun x hx => ⟨hx.1, ?_⟩, Or.inl rfl, rfl⟩, (acquire_eq hfds).1⟩
  by_cases heq : fd = x
  · exact Or.inl heq.symm
  · exact Or.inr ((hlost x).mpr ⟨heq, hx.lost hnone⟩)

theorem onward_bindLoop {as : List Attempt} {ok : Bool} (hnone : o.self.local.skt < 0)
    (h : bindLoop o as = some (o', ok)) : Onward o o' ∧ (ok = true → 0 ≤ o'.self.local.skt) := by
  induction as generalizing o with
  | nil =>
    cases h
    exact ⟨.refl _, nofun⟩
  | cons a as ih =>
    cases a with
    | noSocket => exact ih hnone h
    | notReusable fd =>
      obtain ⟨fds, hfds, heq⟩ := Option.map_eq_some_iff.mp h
      cases heq
      exact ⟨onward_same rfl (trace_opened hfds) rfl, nofun⟩
    | notBound fd =>
      obtain ⟨o₁, hacquire, h⟩ := Option.bind_eq_some_iff.mp h
      have hsame : (o₁.close fd).self = o.self := by
        obtain ⟨fds, -, rfl⟩ := Option.map_eq_some_iff.mp hacquire
        rfl
      obtain ⟨honward, hok⟩ := ih (o := o₁.close fd) (by rwa [hsame]) h
      exact ⟨(onward_notBound hnone hacquire).trans honward, hok⟩
    | bound fd =>
      obtain ⟨o₁, hacquire, heq⟩ := Option.map_eq_some_iff.mp h
      cases heq
      obtain ⟨honward, h0⟩ := onward_adopt hnone hacquire
      exact ⟨honward, fun _ => h0⟩

theorem onward_initSocket {m : SocketMet} {ok : Bool} (hnone : o.self.local.skt < 0)
    (h : clientInitSocket m o = some (o', ok)) : Onward o o' ∧ (ok = true → 0 ≤ o'.self.local.skt) := by
  have hloop : ∀ as, bindLoop { o with self := { o.self with «local» := { o.self.local with skt := -1 } } } as =
      some (o', ok) → Onward o o' ∧ (ok = true → 0 ≤ o'.self.local.skt) := by
    intro as h
    obtain ⟨honward, hok⟩ := onward_bindLoop (show (-1 : ℤ) < 0 by decide) h
    exact ⟨(onward_forgotten hnone).trans honward, hok⟩
  unfold clientInitSocket at h
  dsimp only at h
  split_ifs at h
  · split at h
    · cases h
    · exact hloop _ h
  · split at h
    · cases h
      exact ⟨onward_forgotten hnone, nofun⟩
    · exact hloop _ h

/-- Every copy of the number stays, and the number is a closed one from now on. -/
theorem onward_disconnect (s : HeldClient F) : Onward s.obj (clientTcpDisconnect s).obj := by
  unfold clientTcpDisconnect
  dsimp only
  split_ifs
  · refine ⟨fun _ (h0 : (0 : ℤ) ≤ -1) => ?_, fun fd hfd => ⟨hfd.1, Or.inr ?_⟩, Or.inl rfl, rfl⟩
    · omega
    · show Lost fd (s.obj.fds.close s.obj.self.local.skt).trace
      rw [lost_close]
      exact hfd.2.imp_left Eq.symm
  · exact .refl s.obj

theorem onward_connected (h0 : 0 ≤ o.self.local.skt) :
    Onward o { reached o with self := { (reached o).self with connected := true } } :=
  ⟨id, fun _ => id, Or.inr ⟨h0, Or.inl rfl⟩, rfl⟩

theorem onward_connectPeer {m : ConnectMet} {cb : Option Unit} {s s' : HeldClient F} (h0 : 0 ≤ s.obj.self.local.skt)
    (h : connectPeer m (cb.map .quiet) s = some s') : Onward s.obj s'.obj := by
  unfold connectPeer at h
  split at h
  · rw [Held.callBackUntested_quiet h]
    exact .refl s.obj
  · split at h
    · rw [Held.callBackIfSet_quiet h]
      exact .refl s.obj
    · dsimp only at h
      split_ifs at h
      · obtain ⟨t, ht, rfl⟩ := Option.map_eq_some_iff.mp h
        rw [Held.callBackIfSet_quiet ht, Held.obj_unlock]
        have hdisconnect := onward_disconnect (s.update fun o =>
          { reached o with self := { (reached o).self with connected := true } })
        exact (onward_connected h0).trans hdisconnect
      · obtain ⟨t, ht, rfl⟩ := Option.map_eq_some_iff.mp h
        rw [Held.callBackIfSet_quiet ht, Held.obj_unlock]
        exact onward_connected h0

theorem onward_connectSync {addr port : Bool} {m : ConnectMet} {cb : Option Unit} {s s' : HeldClient F}
    (h : clientTcpConnectSync addr port m (cb.map .quiet) s = some s') : Onward s.obj s'.obj := by
  unfold clientTcpConnectSync connectTpl at h
  split_ifs at h with haddr hskt
  · rw [Held.callBackUntested_quiet h]
    exact .refl s.obj
  · obtain ⟨⟨o, ok⟩, hinit, h⟩ := Option.bind_eq_some_iff.mp h
    obtain ⟨honward, hok⟩ := onward_initSocket (not_le.mp hskt) hinit
    dsimp only at h
    split_ifs at h with hfound
    · exact honward.trans (onward_connectPeer (hok hfound) h)
    · rw [← Option.some.inj h]
      exact honward
  · rw [Held.callBackUntested_quiet h]
    exact .refl s.obj

end onward

/-! ## What the loop does with the numbers -/

/-- A job that posts its request again does it for the number that it was called for. -/
theorem mentioned_loop {s t : System} {a : Action} (hv : Valid s.svc.lookupTable) (ha : OfLoop a)
    (h : Network.Step s a t) :
    Valid t.svc.lookupTable ∧ ∀ fd, Mentioned t.svc t.loop fd → Mentioned s.svc s.loop fd := by
  have hturn : ∀ m r, turn s.svc s.loop m = some r →
      Valid r.1.lookupTable ∧ ∀ fd, Mentioned r.1 r.2 fd → Mentioned s.svc s.loop fd :=
    fun m r hr => ⟨valid_turn hv hr, fun _ => mentioned_turn hv hr⟩
  cases h with
  | send hsubmit => cases ha
  | recv hsubmit => cases ha
  | run hloop => exact hturn .run _ (by rw [hloop]; rfl)
  | interrupted hloop => exact hturn .interrupted _ (by rw [hloop]; rfl)
  | @wake fd' events hloop hfires => exact hturn (.wake fd' events) _ (by rw [hloop]; rfl)
  | call hloop => exact hturn .call (s.svc, _) (by rw [hloop]; rfl)
  | @attempt c srb r hloop hprogress hreq hfits =>
    cases tcpSendRecvAsyncTpl srb r with
    | post srb' => exact ⟨hv, fun _ => id⟩
    | finish report => exact ⟨hv, fun _ => id⟩
  | @repost c srb hloop hprogress hreq =>
    refine ⟨valid_post true _ c.ctx hv, fun fd hm => ?_⟩
    rcases mentioned_post hv hm with rfl | hold
    · exact Or.inr ⟨c, Or.inr hloop, rfl⟩
    · exact hold
  | back hloop hprogress => exact hturn .back _ (by rw [hloop]; rfl)

/-! ## What a transfer does -/

section transfers
variable {s s' : State}

/-- An asynchronous transfer that returns has no request to make, or `remote` has the type that only a
connect assigns. -/
theorem async_cases {op : SrbOperation} {buffer : List UInt8} {ctx : UInt64} {job : JobFunction}
    {t t' : HeldClient JobFunction} (h : transferTpl (request buffer op t) (transferAsync job ctx) t = some t') :
    (transferRequest op t.obj.self.remote buffer = none ∧ t'.obj = t.obj) ∨
      (t.obj.self.remote.epType = .tcp ∧ ∃ op' requests,
        t'.obj = { t.obj.post t.obj.self.remote.skt op' job ctx with requests }) := by
  obtain ⟨r, hr, h⟩ := Option.bind_eq_some_iff.mp h
  have hr : transferRequest op t.obj.self.remote buffer = r := Option.some.inj hr
  cases r with
  | none => exact Or.inl ⟨hr, by rw [← Option.some.inj h]⟩
  | some srb =>
    obtain ⟨u, hu, rfl⟩ := Option.map_eq_some_iff.mp h
    unfold transferAsync at hu
    split_ifs at hu
    obtain ⟨o, ho, rfl⟩ := Option.map_eq_some_iff.mp hu
    unfold Object.submit at ho
    split_ifs at ho with hguard
    rw [not_or, not_or, not_not, (transferRequest_endpoint hr).2] at hguard
    rw [(transferRequest_endpoint hr).2] at ho
    exact Or.inr ⟨hguard.2.2, srb.op.iosvcOp, _, (Option.some.inj ho).symm⟩

end transfers

/-! ## The invariant -/

/-- Every number that a later step may use is known. -/
structure Invariant (s : State) : Prop where
  valid : Valid s.object.svc.lookupTable
  live : Live s.object
  copy : s.object.self.remote.epType = .tcp → Known s.object s.object.self.remote.skt
  mentioned : ∀ fd, Mentioned s.object.svc s.loop fd → Known s.object fd

theorem invariant_start (addr port : Bool) (old : ClientTcp) (eventFd : ℤ) :
    Invariant (start addr port old eventFd) := by
  refine ⟨valid_nil, fun _ => id, nofun, ?_⟩
  rintro fd (⟨op, hsome⟩ | ⟨c, hc | hc, -⟩)
  · exact absurd rfl hsome
  · cases hc
  · cases hc

section step
variable {s s' : State} {a : Label}

theorem Invariant.onward (h : Invariant s) {held : HeldClient JobFunction} (ho : Onward s.object held.obj) :
    Invariant { s with held } := by
  have hreg : registry held.obj.svc = registry s.object.svc := by
    funext key
    unfold registry Service.find
    rw [ho.table]
  refine ⟨?_, ho.live h.live, ?_, ?_⟩
  · show Valid held.obj.svc.lookupTable
    rw [ho.table]
    exact h.valid
  · intro htcp
    cases ho.copy with
    | inl hsame =>
      change held.obj.self.remote.epType = .tcp at htcp
      show Known held.obj held.obj.self.remote.skt
      rw [hsame] at htcp ⊢
      exact ho.known _ (h.copy htcp)
    | inr hknown => exact hknown
  · intro fd hm
    apply ho.known
    apply h.mentioned
    obtain ⟨op, hsome⟩ | hcall := hm
    · exact Or.inl ⟨op, hreg ▸ hsome⟩
    · exact Or.inr hcall

/-- What the service does is of no concern to the client, as long as the service has no new number. -/
theorem Invariant.sameClient (h : Invariant s) (hself : s'.object.self = s.object.self)
    (htrace : s'.object.fds.trace = s.object.fds.trace) (hvalid : Valid s'.object.svc.lookupTable)
    (hmentioned : ∀ fd, Mentioned s'.object.svc s'.loop fd → Known s.object fd) : Invariant s' := by
  have hknown : ∀ fd, Known s'.object fd ↔ Known s.object fd := by
    intro fd
    unfold Known
    rw [hself, htrace]
  refine ⟨hvalid, ?_, ?_, fun fd hm => (hknown fd).mpr (hmentioned fd hm)⟩
  · unfold Live
    rw [hself, htrace]
    exact h.live
  · rw [hself, hknown]
    exact h.copy

theorem Invariant.async (h : Invariant s) {op : SrbOperation} {buffer : List UInt8} {ctx : UInt64} {job : JobFunction}
    {held : HeldClient JobFunction}
    (hs : transferTpl (request buffer op s.held) (transferAsync job ctx) s.held = some held) :
    Invariant { s with held } := by
  rcases async_cases hs with ⟨-, hsame⟩ | ⟨htcp, op', requests, hobj⟩
  · apply h.onward
    rw [hsame]
    exact .refl s.object
  · have hsvc : held.obj.svc = ioServicePostJob s.object.svc s.object.self.remote.skt op' true (some job) ctx := by
      rw [hobj]; rfl
    apply h.sameClient
    · show held.obj.self = s.object.self
      rw [hobj]; rfl
    · show held.obj.fds.trace = s.object.fds.trace
      rw [hobj]; rfl
    · show Valid held.obj.svc.lookupTable
      rw [hsvc]
      exact valid_post true job ctx h.valid
    · intro fd hm
      change Mentioned held.obj.svc s.loop fd at hm
      rw [hsvc] at hm
      rcases mentioned_post h.valid hm with rfl | hold
      · exact h.copy htcp
      · exact h.mentioned fd hold

theorem Invariant.step (h : Invariant s) (hs : Step s a s') : Invariant s' := by
  cases hs with
  | connect hconnect => exact h.onward (onward_connectSync hconnect)
  | disconnect => exact h.onward (onward_disconnect s.held)
  | send hsend => exact h.async hsend
  | recv hrecv => exact h.async hrecv
  | @loop a t hloop hopen hstep =>
    obtain ⟨hvalid, hmentioned⟩ := mentioned_loop h.valid hloop hstep
    exact h.sameClient rfl rfl hvalid fun fd hm => h.mentioned fd (hmentioned fd hm)
  | opened hopened => exact h.onward (onward_same rfl (trace_opened hopened) rfl)
  | closed hne hown => exact h.onward (onward_same rfl rfl rfl)

theorem Invariant.uses (h : Invariant s) (hs : Step s a s') {fd : ℤ} (hfd : Uses s fd a) : Known s.object fd := by
  have hasync : ∀ op (buffer : List UInt8) ctx job held,
      transferTpl (request buffer op s.held) (transferAsync job ctx) s.held = some held →
      (∃ srb, transferRequest op s.object.self.remote buffer = some srb ∧ srb.endpoint.skt = fd) →
        Known s.object fd := by
    rintro op buffer ctx job held hheld ⟨srb, hsrb, rfl⟩
    rcases async_cases hheld with ⟨hnone, -⟩ | ⟨htcp, -⟩
    · cases hnone.symm.trans hsrb
    · rw [(transferRequest_endpoint hsrb).2]
      exact h.copy htcp
  cases hs with
  | send hsend => exact hasync _ _ _ _ _ hsend hfd
  | recv hrecv => exact hasync _ _ _ _ _ hrecv hfd
  | @loop a t hloop hopen hstep =>
    cases a with
    | call =>
      obtain ⟨c, hc, rfl⟩ := hfd
      exact h.mentioned c.fd (Or.inr ⟨c, Or.inl hc, rfl⟩)
    | _ => exact hfd.elim
  | _ => exact hfd.elim

/-- Of the known numbers only the socket's own is not a closed one. -/
theorem Invariant.lost_iff (h : Invariant s) {fd : ℤ} (hfd : Known s.object fd) :
    Lost fd s.fds.trace ↔ fd ≠ s.object.self.local.skt := by
  constructor
  · rintro hlost rfl
    exact h.live hfd.1 hlost
  · exact hfd.2.resolve_left

end step

/-! ## Every run -/

/-- The numbers that the steps of a run use, each in the state that its step was taken in. -/
def Told (h : List (State × Label)) (s : State) : Prop :=
  Invariant s ∧ ∀ e ∈ h, ∀ fd, Uses e.1 fd e.2 → (Lost fd e.1.fds.trace ↔ fd ≠ e.1.object.self.local.skt)

theorem told_of_run {addr port : Bool} {old : ClientTcp} {eventFd : ℤ} {h : List (State × Label)} {s : State}
    (r : Run Step (start addr port old eventFd) h s) : Told h s := by
  apply r.invariant_history
  · exact ⟨invariant_start addr port old eventFd, List.forall_mem_nil _⟩
  · rintro h s a s' ⟨hinv, hall⟩ hs
    refine ⟨hinv.step hs, ?_⟩
    intro e he fd hfd
    cases List.mem_cons.mp he with
    | inl heq =>
      subst heq
      exact hinv.lost_iff (hinv.uses hs hfd)
    | inr hmem => exact hall e hmem fd hfd

/-- No step of a run uses a number that the client has closed and not got again, exactly if each request
is started while `remote` has the number of the client's socket, and each job is called for it. -/
theorem never_lost_iff {addr port : Bool} {old : ClientTcp} {eventFd : ℤ} {h : List (State × Label)} {s : State}
    (r : Run Step (start addr port old eventFd) h s) :
    (∀ e ∈ h, ∀ fd, Uses e.1 fd e.2 → ¬ Lost fd e.1.fds.trace) ↔ ∀ e ∈ h, Meets e.1 e.2 := by
  have hsteps := (told_of_run r).2
  constructor
  · intro hall e he
    rw [meets_iff]
    intro fd hfd
    by_contra hne
    exact hall e he fd hfd ((hsteps e he fd hfd).mpr hne)
  · intro hmeets e he fd hfd hlost
    exact (hsteps e he fd hfd).mp hlost ((meets_iff e.1 e.2).mp (hmeets e he) fd hfd)

def blank : ClientTcp :=
  { connected := false, localAddr := false, localPort := false, «local» := noSocket, remote := noSocket }

/-- The kernel gives 5, and the first address answers. -/
def reachable : ConnectMet := { socket := { single := .bound 5, resolved := none }, resolved := some [none] }

def connected : State :=
  let s := start false false blank 3
  { s with held := (clientTcpConnectSync true true reachable (some (.quiet ())) s.held).getD s.held }

theorem connected_run :
    Run Step (start false false blank 3)
      [(start false false blank 3, .connect true true reachable (some ()))] connected :=
  .next .start (.connect rfl)

def sent (s : State) : State :=
  { s with held := (clientTcpSendAsync [104, 105] 1 .tcpSendRecvAsyncTpl s.held).getD s.held }

def running : State :=
  (sent connected).resume ((sent connected).system.resume (ioServiceRun (sent connected).object.svc))

def woken : State := running.resume (running.system.resume (wake running.object.svc 5 4))

/-- A request that is sent, up to the call of its job. -/
def dispatched : List (State × Label) :=
  [(woken, .loop .call), (running, .loop (.wake 5 4)), (sent connected, .loop .run),
    (connected, .send [104, 105] 1), (start false false blank 3, .connect true true reachable (some ()))]

theorem never_lost_dispatched : (∃ s, Run Step (start false false blank 3) dispatched s) ∧
    ∀ e ∈ dispatched, ∀ fd, Uses e.1 fd e.2 → ¬ Lost fd e.1.fds.trace := by
  have hsend : Step connected (.send [104, 105] 1) (sent connected) := .send rfl
  have hsent : Run Step (start false false blank 3) _ (sent connected) := .next connected_run hsend
  have hrunning : Run Step (start false false blank 3) _ running :=
    .next hsent (.loop (a := .run) trivial nofun (.run rfl))
  have hopen : ∀ fd events, Action.wake 5 4 = .wake fd events → running.fds.file fd ≠ none := by
    rintro fd events ⟨⟩
    exact nofun
  have hwoken : Run Step (start false false blank 3) _ woken :=
    .next hrunning (.loop (a := .wake 5 4) trivial hopen (.wake rfl rfl))
  have hcalled : Run Step (start false false blank 3) dispatched _ :=
    .next hwoken (.loop (a := .call) trivial nofun (.call rfl))
  refine ⟨⟨_, hcalled⟩, (never_lost_iff hcalled).mpr ?_⟩
  simp only [dispatched, List.mem_cons, List.not_mem_nil, or_false, forall_eq_or_imp, forall_eq]
  refine ⟨?_, trivial, trivial, Or.inr rfl, trivial⟩
  intro c hc
  rw [← Loop.picked.inj hc]
  rfl

def disconnected : State := { connected with held := clientTcpDisconnect connected.held }

def reused : State :=
  { disconnected with held := disconnected.held.update fun o => { o with fds := (o.fds.opened 5).getD o.fds } }

/-- After a disconnection the next request is started on the number, and the file is not the client's. -/
theorem sends_to_another : ∃ h, Run Step (start false false blank 3) h (sent reused) ∧
    ¬ (∀ e ∈ h, ∀ fd, Uses e.1 fd e.2 → ¬ Lost fd e.1.fds.trace) ∧
    (sent reused).fds.file 5 = some 2 ∧ (sent reused).fds.acquired = [1] ∧
    registry (sent reused).object.svc (5, .write) ≠ none := by
  have hopened : Step disconnected (.opened 5) reused := .opened rfl
  have hsend : Step reused (.send [104, 105] 1) (sent reused) := .send rfl
  refine ⟨_, .next (.next (.next connected_run .disconnect) hopened) hsend, ?_, rfl, rfl, nofun⟩
  intro hall
  exact hall _ List.mem_cons_self 5 ⟨_, rfl, rfl⟩ (Or.inl rfl)

end Chats.Network.Client
