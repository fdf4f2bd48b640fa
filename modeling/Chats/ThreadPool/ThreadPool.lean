import Chats.Lib.Fifo

/-! # The thread pool

`thread-pool/thread-pool.c`: workers that share a queue of jobs and two flags under one mutex.
Everything between a lock, or the return of a `pthread_cond_wait`, and the next unlock or wait is
one step here. The queue is the sequence that the list operations keep. -/
namespace Chats.ThreadPool
set_option autoImplicit false

/-- `job_t` -/
structure Job (F : Type) where
  job : Option F
  ctx : UInt64
deriving DecidableEq

/-- Where a worker is: before its lock, in `pthread_cond_wait`, between the unlock and the next lock
with the job it took, or past its loop. -/
inductive Worker (F : Type)
  | ready
  | sleeping (signalled : Bool)
  | calling (job : Job F)
  | exited

/-- Where the thread that calls `thread_pool_stop` is: not in it yet, in `pthread_cond_wait`, past
its last unlock, or past the joins, where the pool is freed. -/
inductive Stopper
  | outside
  | waiting (signalled : Bool)
  | joining
  | joined
deriving DecidableEq

/-- `struct thread_pool` with the threads that use it; `W` is the set of its workers. -/
structure Pool (W F : Type) where
  queue : List (Job F)
  run : Bool
  allowNewJobs : Bool
  workers : W → Worker F
  stopper : Stopper

variable {W F : Type}

def Worker.signal : Worker F → Worker F
  | .sleeping _ => .sleeping true
  | w => w

def Stopper.signal : Stopper → Stopper
  | .waiting _ => .waiting true
  | t => t

def threadPoolInit : Pool W F where
  queue := []
  run := true
  allowNewJobs := true
  workers := fun _ => .ready
  stopper := .outside

namespace Pool

/-- `pthread_cond_broadcast(&tp->job_semaphore)` -/
def broadcastJob (s : Pool W F) : Pool W F := { s with workers := fun w => (s.workers w).signal }

/-- `pthread_cond_broadcast(&tp->job_end_semaphore)` -/
def broadcastJobEnd (s : Pool W F) : Pool W F := { s with stopper := s.stopper.signal }

/-- `room` is whether the allocator gives `list_append` an element. -/
def pushJob (s : Pool W F) (job : Job F) (room : Bool) : Pool W F :=
  if room then { s with queue := s.queue ++ [job] } else s

def getAndPopJob (s : Pool W F) : Pool W F × Job F :=
  match s.queue with
  | [] => (s, { job := none, ctx := 0 })
  | job :: queue =>
    let s := { s with queue }
    (if queue.isEmpty then s.broadcastJobEnd else s, job)

/-- `worker_tpl` from its lock or the return of its wait, and where it is then. -/
def workerTpl (s : Pool W F) : Pool W F × Worker F :=
  if s.run && s.allowNewJobs && s.queue.isEmpty then (s, .sleeping false)
  else if !s.run then (s, .exited)
  else if s.queue.isEmpty && !s.allowNewJobs then (s, .exited)
  else (s.getAndPopJob.1, .calling s.getAndPopJob.2)

def setWorker [DecidableEq W] (s : Pool W F) (w : W) (p : Worker F) : Pool W F :=
  { s with workers := Function.update s.workers w p }

def work [DecidableEq W] (s : Pool W F) (w : W) : Pool W F := s.workerTpl.1.setWorker w s.workerTpl.2

def threadPoolPostJob (s : Pool W F) (job : Job F) (room : Bool) : Pool W F :=
  if s.allowNewJobs then (s.pushJob job room).broadcastJob else s

/-- The end of `thread_pool_stop`'s critical section. -/
def endRun (s : Pool W F) : Pool W F := { { s with run := false }.broadcastJob with stopper := .joining }

/-- `thread_pool_stop` to its wait, which is entered without a loop around it, or to its unlock. -/
def threadPoolStop (s : Pool W F) (waitForStop : Bool) : Pool W F :=
  let s := { s with run := waitForStop, allowNewJobs := false }.broadcastJob
  if waitForStop && !s.queue.isEmpty then { s with stopper := .waiting false } else s.endRun

end Pool

/-! ## The steps -/

inductive Action (W F : Type)
  | post (job : Job F) (room : Bool)
  | lock (w : W)
  | wake (w : W)
  | back (w : W)
  | stop (waitForStop : Bool)
  | wakeStop
  | join

/-- Posts by any threads, the workers, and one call of `thread_pool_stop`. A wait may return
without a signal. Nobody uses the pool after it is freed. -/
inductive Step [DecidableEq W] : Pool W F → Action W F → Pool W F → Prop
  | post {s : Pool W F} {job : Job F} {room : Bool} : s.stopper ≠ .joined →
      Step s (.post job room) (s.threadPoolPostJob job room)
  | lock {s : Pool W F} {w : W} : s.workers w = .ready → Step s (.lock w) (s.work w)
  | wake {s : Pool W F} {w : W} {signalled : Bool} : s.workers w = .sleeping signalled →
      Step s (.wake w) (s.work w)
  | back {s : Pool W F} {w : W} {job : Job F} : s.workers w = .calling job →
      Step s (.back w) (s.setWorker w .ready)
  | stop {s : Pool W F} {waitForStop : Bool} : s.stopper = .outside →
      Step s (.stop waitForStop) (s.threadPoolStop waitForStop)
  | wakeStop {s : Pool W F} {signalled : Bool} : s.stopper = .waiting signalled → Step s .wakeStop s.endRun
  | join {s : Pool W F} : s.stopper = .joining → (∀ w, s.workers w = .exited) →
      Step s .join { s with stopper := .joined }

/-! ## What a step does to the queue -/

def accepts (s : Pool W F) : Action W F → Option (Job F)
  | .post job room => if s.allowNewJobs && room then some job else none
  | _ => none

def Worker.job : Worker F → Option (Job F)
  | .calling job => some job
  | _ => none

def takes (s : Pool W F) : Action W F → Option (Job F)
  | .lock _ => s.workerTpl.2.job
  | .wake _ => s.workerTpl.2.job
  | _ => none

end Chats.ThreadPool
