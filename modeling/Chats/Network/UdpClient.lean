import Chats.Network.Client
import Chats.Network.Datagrams

/-! # The UDP client

The operations of `network/client/client.c` on `client_udp_t`. The synchronous transfers call back with the
mutex held, the asynchronous ones leave their callback to the request, unless there is no address to send to. -/
namespace Chats.Network.UdpClient
open Chats.Lib Chats.IoService
set_option autoImplicit false

variable {F : Type}

/-- `struct client_udp`, as far as its operations read it -/
structure ClientUdp where
  «local» : EndpointSocket

abbrev HeldClient (F : Type) := Held (Object F ClientUdp)

/-- What the callback of a transfer is told; `ep` is `none` for an endpoint without class and type. -/
structure UdpReport where
  ep : Option EndpointSocket
  err : ℤ
  bytesOperated : ℕ
  hasMoreBytes : ℕ

abbrev UdpCallback (F : Type) := Callback (Object F ClientUdp) UdpReport Unit

/-- A code that calls its callback, or does not come to it. -/
abbrev Code (F : Type) := Option (UdpCallback F) → Option (HeldClient F)

def noEndpoint : EndpointSocket := { skt := -1, epType := .none }

/-- The request of a transfer on the socket `skt`; a send has it in `dst`. -/
def udpRequest (op : SrbOperation) (skt : ℤ) (buffer : List UInt8) : Srb :=
  let own : EndpointSocket := { skt, epType := .udp }
  match op with
  | .send => { op, src := noEndpoint, dst := own, buffer, bytesOperated := 0 }
  | .recv => { op, src := own, dst := noEndpoint, buffer, bytesOperated := 0 }

/-! ## The operators -/

/-- `udp_send_sync`, up to its end -/
def operateSend (m : Met) (srb : Srb) (cb : Option (UdpCallback F)) (s : HeldClient F) : Option (HeldClient F) :=
  if srb.dst.skt < 0 then none
  else
    match (Datagrams.udpSendSync srb m.errno m.results).report, m.ioctls with
    | some report, some more :: _ => s.callBackIfSet cb
        { ep := some srb.dst, err := report.errno, bytesOperated := report.bytes, hasMoreBytes := more }
    | _, _ => none

/-- The read of `udp_recv_sync`, up to its end -/
def operateRead (pending : ℕ) (srb : Srb) (cb : Option (UdpCallback F)) (s : HeldClient F) :
    List KernelResult → Option (HeldClient F)
  | [] => none
  | r :: _ => s.callBackIfSet cb
      { ep := some srb.src, err := r.errno, bytesOperated := r.value.toNat, hasMoreBytes := pending }

/-- What the callback is told of a datagram that is too large, after the peek. -/
def tooLarge (pending : ℕ) (srb : Srb) (r : KernelResult) : UdpReport where
  ep := some srb.src
  err := if r.errno ≠ 0 then r.errno else nsrceBufferTooSmall
  bytesOperated := sizeT r.value
  hasMoreBytes := pending

theorem tooLarge_err (pending : ℕ) (srb : Srb) (r : KernelResult) : (tooLarge pending srb r).err ≠ 0 := by
  unfold tooLarge
  dsimp only
  split_ifs with he
  · exact Int.natCast_ne_zero.mpr he
  · decide

/-- `udp_recv_sync`; the branch for a datagram that is too large calls back, releases the request and goes on
with it. -/
def operateReceive (m : Met) (srb : Srb) (cb : Option (UdpCallback F)) (s : HeldClient F) : Option (HeldClient F) :=
  if srb.src.skt < 0 then none
  else
    match m.ioctls with
    | some pending :: _ =>
      if srb.buffer.length < pending then
        match m.results with
        | [] => none
        | r :: rs => (s.callBackIfSet cb (tooLarge pending srb r)).bind fun s => operateRead pending srb cb s rs
      else operateRead pending srb cb s m.results
    | _ => none

def submit (tpl : F) (ctx : UInt64) (srb : Srb) (o : Object F ClientUdp) : Option (Object F ClientUdp) :=
  if (o.requests ctx).isSome ∨ srb.endpoint.skt < 0 then none
  else some { o.post srb.endpoint.skt srb.op.iosvcOp tpl ctx with
    requests := Function.update o.requests ctx (some { srb with bytesOperated := 0 }) }

/-- `udp_send_async` and `udp_recv_async` on a request at `ctx`; the job `tpl` is the one of the same name. -/
def operateAsync (tpl : F) (ctx : UInt64) (srb : Srb) (_ : Option (UdpCallback F)) (s : HeldClient F) :
    Option (HeldClient F) :=
  s.change (submit tpl ctx srb)

/-! ## The operations -/

def refused : UdpReport := { ep := none, err := Client.eaddrnotavail, bytesOperated := 0, hasMoreBytes := 0 }

/-- A send has an address to go to, and `getaddrinfo` finds it. -/
def Addressed (addr port resolved : Bool) : Prop := ¬ (¬ addr ∧ ¬ port) ∧ resolved
deriving Decidable

section transfers
variable (buffer : List UInt8) (ctx : UInt64) (addr port resolved : Bool) (m : Met) (tpl : F)

/-- What the four transfers have in common; `ctx` is what `allocate` returned. -/
def transferUdp (op : SrbOperation) (addressed : Prop) [Decidable addressed]
    (operate : Srb → Option (UdpCallback F) → HeldClient F → Option (HeldClient F)) (s : HeldClient F) :
    Code F := fun cb =>
  if buffer = [] then some s
  else
    let s := s.lock
    if addressed then
      if ctx = 0 then none else (operate (udpRequest op s.obj.self.local.skt buffer) cb s).map Held.unlock
    else (s.callBackIfSet cb refused).map Held.unlock

def clientUdpRecvSync (s : HeldClient F) : Code F := transferUdp buffer ctx .recv True (operateReceive m) s

def clientUdpRecvAsync (s : HeldClient F) : Code F :=
  transferUdp buffer ctx .recv True (operateAsync tpl ctx) s

def clientUdpSendSync (s : HeldClient F) : Code F :=
  transferUdp buffer ctx .send (Addressed addr port resolved) (operateSend m) s

def clientUdpSendAsync (s : HeldClient F) : Code F :=
  transferUdp buffer ctx .send (Addressed addr port resolved) (operateAsync tpl ctx) s

end transfers

/-- Up to the `pthread_mutex_destroy`. -/
def clientUdpDeinit (s : HeldClient F) : HeldClient F := (s.lock.update fun o => o.close o.self.local.skt).unlock

/-- `ep` is what the user's pointer points to, where `none` is a null pointer, and `block` what
`allocate` returns when that is null as well. -/
def clientUdpLocalEp (ep : Option UInt64) (block : UInt64) (s : HeldClient F) :
    Option (HeldClient F × Option EndpointType) :=
  match ep with
  | none => some (s, none)
  | some p =>
    let p := if p = 0 then block else p
    let s := s.lock
    if p = 0 then none else some (s.unlock, some s.obj.self.local.epType)

inductive Operation (F : Type)
  | deinit
  | localEp (ep : Option UInt64) (block : UInt64)
  | recvSync (buffer : List UInt8) (ctx : UInt64) (m : Met) (cb : Option (UdpCallback F))
  | recvAsync (buffer : List UInt8) (ctx : UInt64) (tpl : F) (cb : Option (UdpCallback F))
  | sendSync (buffer : List UInt8) (ctx : UInt64) (addr port resolved : Bool) (m : Met) (cb : Option (UdpCallback F))
  | sendAsync (buffer : List UInt8) (ctx : UInt64) (addr port resolved : Bool) (tpl : F) (cb : Option (UdpCallback F))

def Operation.run (s : HeldClient F) : Operation F → Option (HeldClient F)
  | .deinit => some (clientUdpDeinit s)
  | .localEp ep block => (clientUdpLocalEp ep block s).map Prod.fst
  | .recvSync buffer ctx m cb => clientUdpRecvSync buffer ctx m s cb
  | .recvAsync buffer ctx tpl cb => clientUdpRecvAsync buffer ctx tpl s cb
  | .sendSync buffer ctx addr port resolved m cb => clientUdpSendSync buffer ctx addr port resolved m s cb
  | .sendAsync buffer ctx addr port resolved tpl cb => clientUdpSendAsync buffer ctx addr port resolved tpl s cb

/-! ## The mutex -/

section raises
variable (s : HeldClient F) (srb : Srb) (cb : Option (UdpCallback F))

theorem raises_operateSend (m : Met) : s.Raises 0 (operateSend m srb cb s) := by
  unfold operateSend
  split_ifs
  · exact Held.raises_none
  · split
    · exact s.raises_callBackIfSet cb _
    · exact Held.raises_none

theorem raises_operateRead (pending : ℕ) (rs : List KernelResult) : s.Raises 0 (operateRead pending srb cb s rs) := by
  cases rs with
  | nil => exact Held.raises_none
  | cons r rs => exact s.raises_callBackIfSet cb _

theorem raises_operateReceive (m : Met) : s.Raises 0 (operateReceive m srb cb s) := by
  unfold operateReceive
  split_ifs
  · exact Held.raises_none
  · split
    · split_ifs
      · split
        · exact Held.raises_none
        · intro s' hs'
          obtain ⟨t, ht, hread⟩ := Option.bind_eq_some_iff.mp hs'
          exact (raises_operateRead t srb cb _ _).of_depth (s.raises_callBackIfSet cb _ t ht) s' hread
      · exact raises_operateRead s srb cb _ _
    · exact Held.raises_none

theorem raises_operateAsync (tpl : F) (ctx : UInt64) : s.Raises 0 (operateAsync tpl ctx srb cb s) :=
  s.raises_change (submit tpl ctx srb)

theorem raises_transferUdp (buffer : List UInt8) (ctx : UInt64) (op : SrbOperation) (addressed : Prop)
    [Decidable addressed]
    {operate : Srb → Option (UdpCallback F) → HeldClient F → Option (HeldClient F)}
    (h : ∀ srb, s.lock.Raises 0 (operate srb cb s.lock)) :
    s.Raises 0 (transferUdp buffer ctx op addressed operate s cb) := by
  unfold transferUdp
  dsimp only
  split_ifs
  · exact Held.raises_some rfl
  · exact Held.raises_none
  · exact (h _).bracket
  · exact (s.lock.raises_callBackIfSet cb refused).bracket

end raises

theorem raises_run (s : HeldClient F) (op : Operation F) : s.Raises 0 (op.run s) := by
  cases op with
  | deinit => exact Held.raises_some rfl
  | localEp ep block =>
    unfold Operation.run clientUdpLocalEp
    cases ep with
    | none => exact Held.raises_some rfl
    | some p =>
      dsimp only
      split_ifs
      all_goals first | exact Held.raises_none | exact Held.raises_some rfl
  | recvSync buffer ctx m cb =>
    exact raises_transferUdp s cb buffer ctx .recv True fun srb => raises_operateReceive s.lock srb cb m
  | recvAsync buffer ctx tpl cb =>
    exact raises_transferUdp s cb buffer ctx .recv True fun srb => raises_operateAsync s.lock srb cb tpl ctx
  | sendSync buffer ctx addr port resolved m cb =>
    exact raises_transferUdp s cb buffer ctx .send (Addressed addr port resolved) fun srb =>
      raises_operateSend s.lock srb cb m
  | sendAsync buffer ctx addr port resolved tpl cb =>
    exact raises_transferUdp s cb buffer ctx .send (Addressed addr port resolved) fun srb =>
      raises_operateAsync s.lock srb cb tpl ctx

/-! ## The callback -/

/-- What the kernel answers on the socket: a send takes the datagram whole, a read gives no more than fits. -/
def Fair (size : ℕ) : SrbOperation → KernelResult → Prop
  | .send, .count n => n = size
  | .recv, .count n => n ≤ size
  | _, .error e => e ≠ 0

/-- Success with the bytes of one datagram, or an error and no bytes. -/
def Told (size : ℕ) (op : SrbOperation) (i : UdpReport) : Prop :=
  (i.err ≠ 0 ∧ i.bytesOperated = 0) ∨
    (i.err = 0 ∧ i.bytesOperated ≤ size ∧ (op = .send → i.bytesOperated = size))

/-- The code calls back once, with the mutex held once more than at its start. -/
def CallsBack (code : Code F) (s : HeldClient F) (told : UdpReport → Prop) : Prop :=
  ∃ i, told i ∧ Held.CallsOnce (fun cb => code (some cb)) s.lock i

/-- The code calls back with `i` and then, in what that has left, with `j`, both with the mutex held. -/
def CallsBackTwice (code : Code F) (s : HeldClient F) (first second : UdpReport → Prop) : Prop :=
  ∃ i j, first i ∧ second j ∧ ∃ after : HeldClient F → HeldClient F, (∀ t, (after t).obj = t.obj) ∧
    ∀ cb, code (some cb) = ((s.lock.callBack cb i).bind fun t => t.callBack cb j).map after

/-- The code does not call back: a request on the client's socket, with a job of its own, is left to do so. -/
def Leaves (code : Code F) (s s' : HeldClient F) (op : SrbOperation) (buffer : List UInt8) (ctx : UInt64)
    (tpl : F) : Prop :=
  (∀ cb, code cb = some s') ∧ s.obj.requests ctx = none ∧
    s' = { s with obj := { s.obj.post s.obj.self.local.skt op.iosvcOp tpl ctx with
      requests := Function.update s.obj.requests ctx (some (udpRequest op s.obj.self.local.skt buffer)) } }

section calls
variable {s s' : HeldClient F} {buffer : List UInt8} {ctx : UInt64} {op : SrbOperation} {addressed : Prop}
    [Decidable addressed]
  {operate : Srb → Option (UdpCallback F) → HeldClient F → Option (HeldClient F)} {cb : Option (UdpCallback F)}

theorem transferUdp_refused (hne : buffer ≠ []) (h : ¬ addressed) :
    CallsBack (transferUdp buffer ctx op addressed operate s) s (· = refused) := by
  refine ⟨refused, rfl, Held.unlock, fun _ => rfl, ?_⟩
  intro cb
  unfold transferUdp
  dsimp only
  rw [if_neg hne, if_neg h]
  rfl

theorem transferUdp_eq (hne : buffer ≠ []) (h : addressed) (hctx : ctx ≠ 0) (cb : Option (UdpCallback F)) :
    transferUdp buffer ctx op addressed operate s cb =
      (operate (udpRequest op s.obj.self.local.skt buffer) cb s.lock).map Held.unlock := by
  unfold transferUdp
  dsimp only
  rw [if_neg hne, if_pos h, if_neg hctx]
  rfl

theorem allocated (hne : buffer ≠ []) (h : addressed)
    (hs : transferUdp buffer ctx op addressed operate s cb = some s') :
    ctx ≠ 0 := by
  rintro rfl
  unfold transferUdp at hs
  dsimp only at hs
  rw [if_neg hne, if_pos h, if_pos rfl] at hs
  cases hs

/-- An operator that comes back has called back, and would have with any callback. -/
theorem transferUdp_callsBack {told : UdpReport → Prop} (hne : buffer ≠ []) (h : addressed)
    (hs : transferUdp buffer ctx op addressed operate s cb = some s')
    (hoperate : ∀ srb t t', srb = udpRequest op s.obj.self.local.skt buffer → operate srb cb t = some t' →
      ∃ i, told i ∧ ∀ cb, operate srb cb t = t.callBackIfSet cb i) :
    CallsBack (transferUdp buffer ctx op addressed operate s) s told := by
  have hctx := allocated hne h hs
  rw [transferUdp_eq hne h hctx] at hs
  obtain ⟨t, ht, -⟩ := Option.map_eq_some_iff.mp hs
  obtain ⟨i, hi, hcode⟩ := hoperate _ _ t rfl ht
  refine ⟨i, hi, Held.unlock, fun _ => rfl, ?_⟩
  intro cb'
  refine (transferUdp_eq hne h hctx (some cb')).trans ?_
  rw [hcode]
  rfl

/-- As `transferUdp_callsBack`, for an operator that calls back twice. -/
theorem transferUdp_callsBackTwice {first second : UdpReport → Prop} (hne : buffer ≠ []) (h : addressed)
    (hs : transferUdp buffer ctx op addressed operate s cb = some s')
    (hoperate : ∀ srb t t', srb = udpRequest op s.obj.self.local.skt buffer → operate srb cb t = some t' →
      ∃ i j, first i ∧ second j ∧ ∀ cb, operate srb cb t = (t.callBackIfSet cb i).bind fun t => t.callBackIfSet cb j) :
    CallsBackTwice (transferUdp buffer ctx op addressed operate s) s first second := by
  have hctx := allocated hne h hs
  rw [transferUdp_eq hne h hctx] at hs
  obtain ⟨t, ht, -⟩ := Option.map_eq_some_iff.mp hs
  obtain ⟨i, j, hi, hj, hcode⟩ := hoperate _ _ t rfl ht
  refine ⟨i, j, hi, hj, Held.unlock, fun _ => rfl, ?_⟩
  intro cb'
  refine (transferUdp_eq hne h hctx (some cb')).trans ?_
  rw [hcode]
  rfl

theorem told_of_settles {report : Report} (h : Datagrams.Settles buffer report)
    (ep : Option EndpointSocket) (more : ℕ) :
    Told buffer.length .send ⟨ep, report.errno, report.bytes, more⟩ := by
  cases h with
  | inl hwhole =>
    rw [hwhole]
    exact .inr ⟨rfl, le_rfl, fun _ => rfl⟩
  | inr hfailed => exact .inl ⟨Int.natCast_ne_zero.mpr hfailed.1, hfailed.2⟩

theorem operateSend_told {m : Met} {skt : ℤ} {t t' : HeldClient F} (hne : buffer ≠ [])
    (hfair : ∀ r ∈ m.results, Fair buffer.length .send r)
    (h : operateSend m (udpRequest .send skt buffer) cb t = some t') :
    ∃ i, Told buffer.length .send i ∧
      ∀ cb, operateSend m (udpRequest .send skt buffer) cb t = t.callBackIfSet cb i := by
  unfold operateSend at h ⊢
  split_ifs at h ⊢ with hskt
  split at h
  · rename_i report more rest hreport hioctls
    have hatomic : ∀ r ∈ m.results, Datagrams.Atomic (udpRequest .send skt buffer) r := by
      intro r hr
      have hr := hfair r hr
      cases r with
      | count n => exact hr
      | error e => exact hr
    have hne' : (udpRequest .send skt buffer).buffer ≠ [] := hne
    refine ⟨⟨some (udpRequest .send skt buffer).dst, report.errno, report.bytes, more⟩, ?_, fun cb => rfl⟩
    exact told_of_settles (Datagrams.udpSendSync_settles hne' hatomic hreport) _ _
  · cases h

theorem operateRead_told {pending : ℕ} {skt : ℤ} {rs : List KernelResult} {t t' : HeldClient F}
    (hfair : ∀ r ∈ rs, Fair buffer.length .recv r)
    (h : operateRead pending (udpRequest .recv skt buffer) cb t rs = some t') :
    ∃ i, Told buffer.length .recv i ∧
      ∀ cb (t : HeldClient F), operateRead pending (udpRequest .recv skt buffer) cb t rs = t.callBackIfSet cb i := by
  cases rs with
  | nil => cases h
  | cons r rs =>
    have hr := hfair r List.mem_cons_self
    refine ⟨⟨some (udpRequest .recv skt buffer).src, r.errno, r.value.toNat, pending⟩, ?_, fun cb t => rfl⟩
    cases r with
    | count n => exact .inr ⟨rfl, hr, nofun⟩
    | error e => exact .inl ⟨Int.natCast_ne_zero.mpr hr, rfl⟩

theorem operateReceive_told {m : Met} {skt : ℤ} {t t' : HeldClient F} (hfits : ¬ m.TooLarge buffer.length)
    (hfair : ∀ r ∈ m.results, Fair buffer.length .recv r)
    (h : operateReceive m (udpRequest .recv skt buffer) cb t = some t') :
    ∃ i, Told buffer.length .recv i ∧
      ∀ cb, operateReceive m (udpRequest .recv skt buffer) cb t = t.callBackIfSet cb i := by
  unfold operateReceive at h ⊢
  split_ifs at h ⊢ with hskt
  split at h
  · rename_i pending rest hioctls
    have hread : (udpRequest .recv skt buffer).buffer.length < pending → m.results = [] := by
      intro hlarge
      by_contra hne
      exact hfits ⟨pending, rest, hioctls, hlarge, hne⟩
    split_ifs at h ⊢ with hlarge
    · rw [hread hlarge] at h
      cases h
    · obtain ⟨i, hi, hcode⟩ := operateRead_told hfair h
      exact ⟨i, hi, fun cb => hcode cb t⟩
  · cases h

/-- The branch for a datagram that is too large. -/
theorem operateReceive_tooLarge {m : Met} {skt : ℤ} {t t' : HeldClient F} (hlarge : m.TooLarge buffer.length)
    (hfair : ∀ r ∈ m.results, Fair buffer.length .recv r)
    (h : operateReceive m (udpRequest .recv skt buffer) cb t = some t') :
    ∃ i j, i.err ≠ 0 ∧ Told buffer.length .recv j ∧ ∀ cb, operateReceive m (udpRequest .recv skt buffer) cb t =
      (t.callBackIfSet cb i).bind fun t => t.callBackIfSet cb j := by
  obtain ⟨pending, rest, hioctls, hlt, hresults⟩ := hlarge
  have hlt' : (udpRequest .recv skt buffer).buffer.length < pending := hlt
  unfold operateReceive at h ⊢
  split_ifs at h ⊢ with hskt
  rw [hioctls] at h ⊢
  simp only [if_pos hlt'] at h ⊢
  cases hrs : m.results with
  | nil => exact absurd hrs hresults
  | cons r rs =>
    rw [hrs] at h
    obtain ⟨t₁, -, hread⟩ := Option.bind_eq_some_iff.mp h
    obtain ⟨j, hj, hcode⟩ := operateRead_told (fun r' hr' => hfair r' (hrs ▸ List.mem_cons_of_mem _ hr')) hread
    refine ⟨tooLarge pending (udpRequest .recv skt buffer) r, j, tooLarge_err _ _ _, hj, fun cb => ?_⟩
    simp only [hcode]

theorem submit_udpRequest (tpl : F) (skt : ℤ) (o : Object F ClientUdp) : submit tpl ctx (udpRequest op skt buffer) o =
    if (o.requests ctx).isSome ∨ skt < 0 then none
    else some { o.post skt op.iosvcOp tpl ctx with
      requests := Function.update o.requests ctx (some (udpRequest op skt buffer)) } := by
  cases op with
  | send => rfl
  | recv => rfl

theorem transferUdp_leaves {tpl : F} (hne : buffer ≠ []) (h : addressed)
    (hs : transferUdp buffer ctx op addressed (operateAsync tpl ctx) s cb = some s') :
    Leaves (transferUdp buffer ctx op addressed (operateAsync tpl ctx) s) s s' op buffer ctx tpl := by
  have hctx := allocated hne h hs
  have hcode (cb : Option (UdpCallback F)) : transferUdp buffer ctx op addressed (operateAsync tpl ctx) s cb =
      (operateAsync tpl ctx (udpRequest op s.obj.self.local.skt buffer) cb s.lock).map Held.unlock :=
    transferUdp_eq hne h hctx cb
  refine ⟨fun cb' => ?_, ?_⟩
  · rw [hcode cb', ← hs, hcode cb]
    rfl
  · rw [hcode] at hs
    unfold operateAsync Held.change at hs
    rw [submit_udpRequest] at hs
    split_ifs at hs with hfree
    · cases hs
    · obtain rfl := Option.some.inj hs
      rw [not_or] at hfree
      exact ⟨by simpa using hfree.1, rfl⟩

end calls

/-- What the operation owes its callback: a transfer of a buffer that is not empty calls it once, or leaves it
to a request. A datagram that waits and is too large has a read call it twice, first with an error. -/
def Operation.Answers (s s' : HeldClient F) : Operation F → Prop
  | .deinit | .localEp _ _ => True
  | .recvSync buffer ctx m _ => buffer ≠ [] → (∀ r ∈ m.results, Fair buffer.length .recv r) →
      (¬ m.TooLarge buffer.length → CallsBack (clientUdpRecvSync buffer ctx m s) s (Told buffer.length .recv)) ∧
        (m.TooLarge buffer.length →
          CallsBackTwice (clientUdpRecvSync buffer ctx m s) s (fun i => i.err ≠ 0) (Told buffer.length .recv))
  | .sendSync buffer ctx addr port resolved m _ => buffer ≠ [] → (∀ r ∈ m.results, Fair buffer.length .send r) →
      CallsBack (clientUdpSendSync buffer ctx addr port resolved m s) s (Told buffer.length .send) ∧
        (¬ Addressed addr port resolved →
          CallsBack (clientUdpSendSync buffer ctx addr port resolved m s) s (· = refused))
  | .recvAsync buffer ctx tpl _ => buffer ≠ [] → Leaves (clientUdpRecvAsync buffer ctx tpl s) s s' .recv buffer ctx tpl
  | .sendAsync buffer ctx addr port resolved tpl _ => buffer ≠ [] →
      if Addressed addr port resolved then
        Leaves (clientUdpSendAsync buffer ctx addr port resolved tpl s) s s' .send buffer ctx tpl
      else CallsBack (clientUdpSendAsync buffer ctx addr port resolved tpl s) s (· = refused)

theorem recvSync_answers {s s' : HeldClient F} {buffer : List UInt8} {ctx : UInt64} {m : Met}
    {cb : Option (UdpCallback F)}
    (h : clientUdpRecvSync buffer ctx m s cb = some s') : Operation.Answers s s' (.recvSync buffer ctx m cb) := by
  intro hne hfair
  refine ⟨fun hfits => ?_, fun hlarge => ?_⟩
  · refine transferUdp_callsBack hne trivial h ?_
    intro srb t t' hsrb ht
    subst hsrb
    exact operateReceive_told hfits hfair ht
  · refine transferUdp_callsBackTwice hne trivial h ?_
    intro srb t t' hsrb ht
    subst hsrb
    exact operateReceive_tooLarge hlarge hfair ht

theorem sendSync_answers {s s' : HeldClient F} {buffer : List UInt8} {ctx : UInt64}
    {addr port resolved : Bool} {m : Met}
    {cb : Option (UdpCallback F)} (h : clientUdpSendSync buffer ctx addr port resolved m s cb = some s') :
    Operation.Answers s s' (.sendSync buffer ctx addr port resolved m cb) := by
  intro hne hfair
  refine ⟨?_, transferUdp_refused hne⟩
  by_cases haddr : Addressed addr port resolved
  · refine transferUdp_callsBack hne haddr h ?_
    intro srb t t' hsrb ht
    subst hsrb
    exact operateSend_told hne hfair ht
  · obtain ⟨i, rfl, honce⟩ := transferUdp_refused (F := F) hne haddr
    exact ⟨refused, .inl ⟨by decide, rfl⟩, honce⟩

theorem udp_client_answers {s s' : HeldClient F} {op : Operation F} (h : op.run s = some s') :
    s'.depth = s.depth ∧ op.Answers s s' := by
  refine ⟨raises_run s op s' h, ?_⟩
  cases op with
  | deinit => trivial
  | localEp ep block => trivial
  | recvSync buffer ctx m cb => exact recvSync_answers h
  | recvAsync buffer ctx tpl cb =>
    intro hne
    exact transferUdp_leaves hne trivial h
  | sendSync buffer ctx addr port resolved m cb => exact sendSync_answers h
  | sendAsync buffer ctx addr port resolved tpl cb =>
    intro hne
    split_ifs with haddr
    · exact transferUdp_leaves hne haddr h
    · exact transferUdp_refused hne haddr

/-- A client with the socket 5, of a thread that does not hold the mutex. -/
def fresh : HeldClient Unit where
  depth := 0
  obj := { self := ⟨⟨5, .udp⟩⟩, fds := Descriptors.single 5, svc := ioServiceInit 3, requests := fun _ => none }

/-- A read into one byte, where a datagram of two waits. -/
def shortRead : Operation Unit :=
  .recvSync [0] 16 { op := 0, errno := 0, results := [.count 1, .count 1], ioctls := [some 2] } none

theorem udp_client_answers_short : ∃ s', shortRead.run fresh = some s' ∧ s'.depth = fresh.depth ∧
    shortRead.Answers fresh s' :=
  ⟨_, rfl, udp_client_answers rfl⟩

end Chats.Network.UdpClient
