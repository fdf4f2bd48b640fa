import Chats.Lib.Keyed
import Chats.Lib.Store

/-! # The io service

`io-service/io-service.c`: one job for each descriptor and direction, kept in a lookup table, and
the loop of `io_service_run` that waits for readiness and calls the jobs. Everything between a lock
and the next unlock of `object_mutex` is one step here. The lookup table is the sequence that the
list operations keep. -/
namespace Chats.IoService
open Chats.Lib
set_option autoImplicit false

inductive SvcOp
  | read | write
deriving DecidableEq

/-- `OP_FLAGS`: `EPOLLIN` and `EPOLLOUT`. -/
def SvcOp.flag : SvcOp → UInt32
  | .read => 1
  | .write => 4

/-- `op` from 0 to `IO_SVC_OP_COUNT` -/
def allOps : List SvcOp := [.read, .write]

variable {F : Type}

/-- `job_t`: a slot without a job is a null function pointer. -/
structure Job (F : Type) where
  job : Option F
  ctx : UInt64
  oneshot : Bool

def Job.null : Job F := { job := none, ctx := 0, oneshot := false }

structure LookupTableElement (F : Type) where
  fd : ℤ
  events : UInt32
  job : SvcOp → Job F

namespace LookupTableElement

def new (fd : ℤ) : LookupTableElement F := { fd, events := 0, job := fun _ => .null }

def set (e : LookupTableElement F) (op : SvcOp) (j : Job F) : LookupTableElement F :=
  { e with events := e.events ||| op.flag, job := Function.update e.job op j }

def clear (e : LookupTableElement F) (op : SvcOp) : LookupTableElement F :=
  { e with events := e.events &&& ~~~op.flag
           job := Function.update e.job op { e.job op with job := none, ctx := 0 } }

end LookupTableElement

/-! ## `epoll_ctl` -/

/-- The interest set: the registered descriptors with their masks. -/
abbrev Epoll := Store ℤ UInt32

namespace Epoll

/-- `EPOLL_CTL_ADD`, refused with `EEXIST` for a registered descriptor. -/
def add (ep : Epoll) (fd : ℤ) (events : UInt32) : Epoll :=
  if (ep fd).isSome then ep else Function.update ep fd (some events)

/-- `EPOLL_CTL_MOD`; `none` is `ENOENT`. -/
def mod (ep : Epoll) (fd : ℤ) (events : UInt32) : Option Epoll :=
  if (ep fd).isSome then some (Function.update ep fd (some events)) else none

/-- `EPOLL_CTL_DEL`, which changes nothing for a descriptor that is not registered. -/
def del (ep : Epoll) (fd : ℤ) : Epoll := Function.update ep fd none

end Epoll

def epollIn : UInt32 := 1
def epollErr : UInt32 := 8
def epollHup : UInt32 := 16

/-! ## The service -/

/-- `struct io_service`; `notified` is the counter of `event_fd`. -/
structure Service (F : Type) where
  allowNew : Bool
  running : Bool
  eventFd : ℤ
  notified : ℕ
  lookupTable : List (LookupTableElement F)
  epoll : Epoll

def ioServiceInit (eventFd : ℤ) : Service F where
  allowNew := true
  running := false
  eventFd := eventFd
  notified := 0
  lookupTable := []
  epoll := Epoll.add (fun _ => none) eventFd epollIn

namespace Service

def notify (s : Service F) : Service F := { s with notified := s.notified + 1 }

def find (s : Service F) (fd : ℤ) : Option (LookupTableElement F) := findKey (·.fd) fd s.lookupTable

def findOrAppend (s : Service F) (fd : ℤ) : Service F :=
  if (s.find fd).isSome then s else { s with lookupTable := s.lookupTable ++ [.new fd] }

def rewrite (s : Service F) (fd : ℤ) (f : LookupTableElement F → Option (LookupTableElement F)) : Service F :=
  { s with lookupTable := rewriteKey (·.fd) fd f s.lookupTable }

end Service

def ioServicePostJob (s : Service F) (fd : ℤ) (op : SvcOp) (oneshot : Bool) (job : Option F)
    (ctx : UInt64) : Service F :=
  if s.allowNew && job.isSome then
    let s := s.findOrAppend fd
    match s.find fd with
    | none => s
    | some e =>
      -- a taken slot: the new job is kept nowhere and nobody is told
      if (e.job op).job.isSome then s
      else
        let s := s.rewrite fd fun e => some (e.set op { job, ctx, oneshot })
        if s.running then s.notify else s
  else s

def ioServiceStop (s : Service F) (waitPending : Bool) : Service F :=
  { s with allowNew := false, running := waitPending }.notify

section removal
variable [DecidableEq F]

/-- The element is the descriptor's, and its slot holds just this job. -/
def LookupTableElement.holds (e : LookupTableElement F) (fd : ℤ) (op : SvcOp) (job : Option F)
    (ctx : UInt64) : Bool :=
  e.fd = fd && (e.job op).job = job && (e.job op).ctx = ctx

/-- The element stays, also without a job, until a notification is handled. -/
def ioServiceRemoveJob (s : Service F) (fd : ℤ) (op : SvcOp) (job : Option F) (ctx : UInt64) : Service F :=
  let done := s.lookupTable.any (·.holds fd op job ctx)
  let s := { s with
    lookupTable := rewriteKey (·.holds fd op job ctx) true (fun e => some (e.clear op)) s.lookupTable }
  if done && s.running then s.notify else s

end removal

/-! ## The loop -/

/-- A call that the loop has decided on, and the event that it came from. -/
structure Call (F : Type) where
  fd : ℤ
  op : SvcOp
  job : F
  ctx : UInt64
  events : UInt32
  rest : List SvcOp

/-- Where the thread of `io_service_run` is: in `epoll_wait`, between the unlock and the call of
a job, inside it, or past the loop. -/
inductive Loop (F : Type)
  | idle
  | waiting
  | picked (call : Call F)
  | invoking (call : Call F)
  | returned

def whileRunning (s : Service F) : Service F × Loop F := (s, if s.running then .waiting else .returned)

def ioServiceRun (s : Service F) : Service F × Loop F :=
  whileRunning { s with running := true
                        epoll := s.lookupTable.foldl (fun ep e => ep.add e.fd e.events) s.epoll }

/-- `epoll_wait` may return this: readiness asked for, or an error or a hang-up, which need not
be asked for. `event_fd` is readable as long as its counter is positive. -/
def Fires (s : Service F) (fd : ℤ) (events : UInt32) : Bool :=
  match s.epoll fd with
  | none => false
  | some mask => events != 0 && events &&& ~~~(mask ||| epollErr ||| epollHup) == 0 &&
      (fd != s.eventFd || 0 < s.notified)

def refresh (ep : Epoll) : List (LookupTableElement F) → Epoll × List (LookupTableElement F)
  | [] => (ep, [])
  | e :: es =>
    if e.events = 0 then refresh (ep.del e.fd) es
    else
      let r := refresh ((ep.mod e.fd e.events).getD (ep.add e.fd e.events)) es
      (r.1, e :: r.2)

def handleNotification (s : Service F) : Service F :=
  let r := refresh s.epoll s.lookupTable
  { s with notified := s.notified - 1
           running := s.running && !(s.lookupTable.isEmpty && !s.allowNew)
           epoll := r.1
           lookupTable := r.2 }

/-- A one-shot job leaves its slot when it is picked, and the element goes with its last job. -/
def pick (s : Service F) (e : LookupTableElement F) (op : SvcOp) : Service F :=
  if (e.job op).oneshot then
    let s := s.rewrite e.fd fun e => if (e.clear op).events = 0 then none else some (e.clear op)
    if (e.clear op).events = 0 then { s with epoll := s.epoll.del e.fd } else s
  else s

/-- The loop over the operations of an event, up to the next call. -/
def dispatch (s : Service F) (fd : ℤ) (events : UInt32) : List SvcOp → Service F × Loop F
  | [] => whileRunning s
  | op :: ops =>
    if events &&& op.flag = 0 then dispatch s fd events ops
    else
      match s.find fd with
      | none => dispatch s fd events ops
      | some e =>
        match (e.job op).job with
        | none => dispatch s fd events ops
        | some job =>
          (pick s e op, .picked { fd, op, job, ctx := (e.job op).ctx, events, rest := ops })

def wake (s : Service F) (fd : ℤ) (events : UInt32) : Service F × Loop F :=
  if fd = s.eventFd then whileRunning (handleNotification s) else dispatch s fd events allOps

end Chats.IoService
