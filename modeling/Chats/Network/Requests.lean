import Chats.IoService.LookupTable
import Chats.Lib.Run
import Chats.Lib.Slots
import Chats.Network.Transfer

/-! # Outstanding requests

Threads that call `client_tcp_send_async` and `client_tcp_recv_async` of `network/client/client.c`
while another one is in `io_service_run`. A request is posted when it is submitted and again after
every partial transfer, and each post wants the one slot of its descriptor and direction. -/
namespace Chats.Network
open Chats.Lib Chats.IoService
set_option autoImplicit false

/-- `NET_OPERATIONS[op].iosvc_op` -/
def SrbOperation.iosvcOp : SrbOperation → SvcOp
  | .send => .write
  | .recv => .read

inductive JobFunction
  | tcpSendRecvAsyncTpl
deriving DecidableEq

/-- `client_tcp_t`, as far as a request reads it -/
structure ClientTcp where
  remote : EndpointSocket

/-- The endpoint that is not operated on: only `skt` is assigned. -/
def noSocket : EndpointSocket := { skt := -1, epType := .none }

/-- The request of `client_tcp_send_async`; a call without bytes makes none. -/
def clientTcpSendAsync (client : ClientTcp) (buffer : List UInt8) : Option Srb :=
  if buffer = [] then none
  else some { op := .send, src := noSocket, dst := client.remote, buffer, bytesOperated := 0 }

def clientTcpRecvAsync (client : ClientTcp) (buffer : List UInt8) : Option Srb :=
  if buffer = [] then none
  else some { op := .recv, src := client.remote, dst := noSocket, buffer, bytesOperated := 0 }

/-- The slot that a request is posted to. -/
def Srb.key (srb : Srb) : ℤ × SvcOp := (srb.endpoint.skt, srb.op.iosvcOp)

/-- How far the job that the loop calls has come. -/
inductive Progress
  | entered | posting | done

/-- `requests` holds the requests that were submitted and not released, by their addresses. -/
structure System where
  svc : Service JobFunction
  loop : Loop JobFunction
  progress : Progress
  requests : Store UInt64 Srb

def init (eventFd : ℤ) : System where
  svc := ioServiceInit eventFd
  loop := .idle
  progress := .done
  requests := fun _ => none

namespace System

/-- `tcp_send_recv_async` on a request at `ctx`, where the allocator had room. `none` is an
assertion that fails, or an address that the allocator does not return. -/
def submit (s : System) (ctx : UInt64) : Option Srb → Option System
  | none => some s
  | some srb =>
    if ctx = 0 ∨ (s.requests ctx).isSome ∨ srb.endpoint.skt < 0 ∨ srb.endpoint.epType ≠ .tcp then none
    else some { s with
      svc := ioServicePostJob s.svc srb.endpoint.skt srb.op.iosvcOp true (some .tcpSendRecvAsyncTpl) ctx
      requests := Function.update s.requests ctx (some { srb with bytesOperated := 0 }) }

/-- The job after its attempt: it has a post to make, or has called back and released the request. -/
def attempted (s : System) (ctx : UInt64) : Next → System
  | .post srb => { s with requests := Function.update s.requests ctx (some srb), progress := .posting }
  | .finish _ => { s with requests := Function.update s.requests ctx none, progress := .done }

def repost (s : System) (c : Call JobFunction) (srb : Srb) : System :=
  { s with svc := ioServicePostJob s.svc c.fd srb.op.iosvcOp true (some .tcpSendRecvAsyncTpl) c.ctx
           progress := .done }

def resume (s : System) (r : Service JobFunction × Loop JobFunction) : System :=
  { s with svc := r.1, loop := r.2 }

end System

/-- At most the bytes that were offered, or an error. -/
def KernelResult.fits (srb : Srb) : KernelResult → Prop
  | .count n => srb.bytesOperated + n ≤ srb.buffer.length
  | .error e => e ≠ 0

/-! ## The steps -/

inductive Action
  | send (client : ClientTcp) (buffer : List UInt8) (ctx : UInt64)
  | recv (client : ClientTcp) (buffer : List UInt8) (ctx : UInt64)
  | run
  | interrupted
  | wake (fd : ℤ) (events : UInt32)
  | call
  | attempt (r : KernelResult)
  | repost
  | back

/-- The calls of the submitting threads, at any time, and the steps of the thread in
`io_service_run`. -/
inductive Step : System → Action → System → Prop
  | send {s s' : System} {client : ClientTcp} {buffer : List UInt8} {ctx : UInt64} :
      s.submit ctx (clientTcpSendAsync client buffer) = some s' → Step s (.send client buffer ctx) s'
  | recv {s s' : System} {client : ClientTcp} {buffer : List UInt8} {ctx : UInt64} :
      s.submit ctx (clientTcpRecvAsync client buffer) = some s' → Step s (.recv client buffer ctx) s'
  | run {s : System} : s.loop = .idle → Step s .run (s.resume (ioServiceRun s.svc))
  | interrupted {s : System} : s.loop = .waiting → Step s .interrupted (s.resume (whileRunning s.svc))
  | wake {s : System} {fd : ℤ} {events : UInt32} : s.loop = .waiting → Fires s.svc fd events = true →
      Step s (.wake fd events) (s.resume (wake s.svc fd events))
  | call {s : System} {c : Call JobFunction} : s.loop = .picked c →
      Step s .call { s with loop := .invoking c, progress := .entered }
  | attempt {s : System} {c : Call JobFunction} {srb : Srb} {r : KernelResult} : s.loop = .invoking c →
      s.progress = .entered → s.requests c.ctx = some srb → r.fits srb →
      Step s (.attempt r) (s.attempted c.ctx (tcpSendRecvAsyncTpl srb r))
  | repost {s : System} {c : Call JobFunction} {srb : Srb} : s.loop = .invoking c →
      s.progress = .posting → s.requests c.ctx = some srb → Step s .repost (s.repost c srb)
  | back {s : System} {c : Call JobFunction} : s.loop = .invoking c → s.progress = .done →
      Step s .back (s.resume (dispatch s.svc c.fd c.events c.rest))

/-! ## No request is lost -/

/-- The call whose request is being run: picked, and neither ended nor posted again. -/
def System.current (s : System) : Option (Call JobFunction) :=
  match s.loop, s.progress with
  | .picked c, _ => some c
  | .invoking c, .entered => some c
  | .invoking c, .posting => some c
  | _, _ => none

def Registered (s : System) (ctx : UInt64) (srb : Srb) : Prop :=
  ∃ e ∈ s.svc.lookupTable, e.fd = srb.endpoint.skt ∧
    e.job srb.op.iosvcOp = { job := some .tcpSendRecvAsyncTpl, ctx, oneshot := true }

/-- Every request that was not called back is being run or registered. -/
def NoneDropped (s : System) : Prop :=
  ∀ ctx srb, s.requests ctx = some srb → (∃ c, s.current = some c ∧ c.ctx = ctx) ∨ Registered s ctx srb

/-- The post that the step makes, if any, finds its slot without a job. -/
def SlotFree (s : System) : Action → Prop
  | .send client buffer _ => ∀ srb ∈ clientTcpSendAsync client buffer, registry s.svc srb.key = none
  | .recv client buffer _ => ∀ srb ∈ clientTcpRecvAsync client buffer, registry s.svc srb.key = none
  | .repost => ∀ c srb, s.loop = .invoking c → s.requests c.ctx = some srb →
      registry s.svc (c.fd, srb.op.iosvcOp) = none
  | _ => True

end Chats.Network
