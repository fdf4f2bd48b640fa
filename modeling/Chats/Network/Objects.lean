import Chats.Lib.Descriptors
import Chats.Lib.Held
import Chats.Network.Operators
import Chats.Network.Requests

/-! # The objects of the network layer

The client and the two servers are structs behind a recursive mutex. What their operations have in
common is here: what they reach beside their struct, and how they transfer. What a system call
answers is an argument of the operation; `none` is an operation that does not return, since an
assertion fails or a call blocks for good, or an answer that the kernel does not give. -/
namespace Chats.Network
open Chats.Lib Chats.IoService
set_option autoImplicit false

variable {F O : Type}

/-- A struct, the descriptors of the process, the service, and the requests that were submitted and
not released. -/
structure Object (F O : Type) where
  self : O
  fds : Descriptors
  svc : Service F
  requests : Store UInt64 Srb

namespace Object

/-- A system call has made a new descriptor, which the object keeps. -/
def acquire (o : Object F O) (fd : ℤ) : Option (Object F O) := (o.fds.acquire fd).map fun fds => { o with fds }

/-- `shutdown` and `close`: the number is no longer of interest to the service. -/
def close (o : Object F O) (fd : ℤ) : Object F O :=
  { o with fds := o.fds.close fd, svc := { o.svc with epoll := o.svc.epoll.del fd } }

/-- The objects post one-shot jobs only. -/
def post (o : Object F O) (fd : ℤ) (op : SvcOp) (job : F) (ctx : UInt64) : Object F O :=
  { o with svc := ioServicePostJob o.svc fd op true (some job) ctx }

/-- `tcp_send_recv_async` on a request at `ctx` -/
def submit (tcpSendRecvAsyncTpl : F) (ctx : UInt64) (srb : Srb) (o : Object F O) : Option (Object F O) :=
  if (o.requests ctx).isSome ∨ srb.endpoint.skt < 0 ∨ srb.endpoint.epType ≠ .tcp then none
  else some { o.post srb.endpoint.skt srb.op.iosvcOp tcpSendRecvAsyncTpl ctx with
    requests := Function.update o.requests ctx (some { srb with bytesOperated := 0 }) }

end Object

/-! ## Transfers -/

structure TransferReport where
  ep : EndpointSocket
  err : ℕ
  bytesOperated : ℕ
  hasMoreBytes : ℕ

abbrev TransferCallback (F O : Type) := Callback (Object F O) TransferReport Unit

/-- The request of a transfer, which is the same whether it is synchronous or not. -/
def transferRequest (op : SrbOperation) (ep : EndpointSocket) (buffer : List UInt8) : Option Srb :=
  match op with
  | .send => clientTcpSendAsync { remote := ep } buffer
  | .recv => clientTcpRecvAsync { remote := ep } buffer

/-- `tcp_send_recv_sync`, up to its end -/
def operateSync (m : Met) (cb : Option (TransferCallback F O)) (srb : Srb) (s : Held (Object F O)) :
    Option (Held (Object F O)) :=
  match tcpSendRecvSync m.op m.errno srb m.results, m.ioctls with
  | some { moves := _, report := some report }, some more :: _ =>
    s.callBackIfSet cb
      { ep := if m.op = 0 then srb.dst else srb.src, err := report.errno, bytesOperated := report.bytes,
        hasMoreBytes := more }
  | _, _ => none

/-- The synchronous transfers, with the mutex held; `ctx` is what `allocate` returned. -/
def transferSync (m : Met) (cb : Option (TransferCallback F O)) (ctx : UInt64) (srb : Srb) (s : Held (Object F O)) :
    Option (Held (Object F O)) :=
  if ctx = 0 then none else operateSync m cb srb s

def transferAsync (tcpSendRecvAsyncTpl : F) (ctx : UInt64) (srb : Srb) (s : Held (Object F O)) :
    Option (Held (Object F O)) :=
  if ctx = 0 then none else s.change (Object.submit tcpSendRecvAsyncTpl ctx srb)

/-- A transfer holds the mutex once its tests have found a request to make; the tests themselves may
read memory that is not there. -/
def transferTpl (request : Option (Option Srb)) (operate : Srb → Held (Object F O) → Option (Held (Object F O)))
    (s : Held (Object F O)) : Option (Held (Object F O)) :=
  request.bind fun
    | none => some s
    | some srb => (operate srb s.lock).map Held.unlock

section raises
variable (s : Held (Object F O)) (srb : Srb) (ctx : UInt64)

theorem raises_transferSync (m : Met) (cb : Option (TransferCallback F O)) :
    Held.Raises s 0 (transferSync m cb ctx srb s) := by
  unfold transferSync operateSync
  split
  · exact Held.raises_none
  · split
    · exact s.raises_callBackIfSet cb _
    · exact Held.raises_none

theorem raises_transferAsync (tcpSendRecvAsyncTpl : F) :
    Held.Raises s 0 (transferAsync tcpSendRecvAsyncTpl ctx srb s) := by
  unfold transferAsync
  split_ifs
  · exact Held.raises_none
  · exact s.raises_change _

theorem raises_transferTpl (request : Option (Option Srb))
    {operate : Srb → Held (Object F O) → Option (Held (Object F O))}
    (h : ∀ srb, s.lock.Raises 0 (operate srb s.lock)) : s.Raises 0 (transferTpl request operate s) := by
  intro s' hs'
  obtain ⟨srb, -, hs'⟩ := Option.bind_eq_some_iff.mp hs'
  cases srb with
  | none => exact Held.raises_some rfl s' hs'
  | some srb => exact (h srb).bracket s' hs'

theorem raises_sync (request : Option (Option Srb)) (m : Met) (cb : Option (TransferCallback F O)) :
    s.Raises 0 (transferTpl request (transferSync m cb ctx) s) :=
  raises_transferTpl s request fun srb => raises_transferSync s.lock srb ctx m cb

theorem raises_async (request : Option (Option Srb)) (tcpSendRecvAsyncTpl : F) :
    s.Raises 0 (transferTpl request (transferAsync tcpSendRecvAsyncTpl ctx) s) :=
  raises_transferTpl s request fun srb => raises_transferAsync s.lock srb ctx tcpSendRecvAsyncTpl

end raises

end Chats.Network
