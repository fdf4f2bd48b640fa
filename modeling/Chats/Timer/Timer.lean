import Chats.IoService.Dispatches

/-! # Timers

`timer/timer.c`: a timerfd, the class of the last setting, and a job in the io service that reads
the descriptor and calls back. A setting changes the three of them one after the other. -/
namespace Chats.Timer
open Chats.Lib Chats.IoService
set_option autoImplicit false

inductive TmrClass
  | absolute | relative | periodic | none
deriving DecidableEq

structure Timespec where
  sec : ℤ
  nsec : ℕ

structure Itimerspec where
  interval : Timespec
  value : Timespec

/-- `struct tmr`; `job` is the address of the user's function. -/
structure Tmr where
  fd : ℤ
  armed : Bool
  tmrClass : TmrClass
  spec : Itimerspec
  job : UInt64
  ctx : UInt64

/-- `timer_init`, in a block that holds `old` -/
def timerInit (fd : ℤ) (old : Tmr) : Tmr := { old with fd, armed := false, tmrClass := .none }

structure Setting where
  abstime : Bool
  spec : Itimerspec

def Timespec.valid (t : Timespec) : Bool := 0 ≤ t.sec && t.nsec < 10 ^ 9

def Setting.valid (set : Setting) : Bool := set.spec.interval.valid && set.spec.value.valid

/-- The descriptor keeps its setting when the new one is refused; nobody looks at the result. -/
def timerfdSettime (old : Option Setting) (new : Setting) : Option Setting := if new.valid then some new else old

variable {F : Type}

/-- The timer, its descriptor and the service that its jobs are posted to. -/
structure System (F : Type) where
  io : State F
  tmr : Tmr
  timerfd : Option Setting

def init (eventFd fd : ℤ) (old : Tmr) : System F where
  io := start eventFd
  tmr := timerInit fd old
  timerfd := none

section calls
variable (tmrJobTpl : F) (addr : UInt64)

/-- What the three settings have in common. -/
def timerSetTpl (tmrClass : TmrClass) (setting : Setting) (oneshot : Bool) (job ctx : UInt64)
    (s : System F) : System F where
  tmr := { s.tmr with job, ctx, tmrClass, spec := setting.spec, armed := true }
  timerfd := timerfdSettime s.timerfd setting
  io := { s.io with svc := ioServicePostJob s.io.svc s.tmr.fd .read oneshot (some tmrJobTpl) addr }

def timerSetDeadline (time : Timespec) (job ctx : UInt64) (s : System F) : System F :=
  timerSetTpl tmrJobTpl addr .relative { abstime := false, spec := { value := time, interval := ⟨0, 0⟩ } } true
    job ctx s

def timerSetPeriodic (time : Timespec) (job ctx : UInt64) (s : System F) : System F :=
  timerSetTpl tmrJobTpl addr .periodic { abstime := false, spec := { value := time, interval := time } } false job ctx s

def timerSetAbsolute (time : Timespec) (job ctx : UInt64) (s : System F) : System F :=
  timerSetTpl tmrJobTpl addr .absolute { abstime := true, spec := { value := time, interval := ⟨0, 0⟩ } } true
    job ctx s

/-- Neither the descriptor nor the timer's class is touched. -/
def timerCancel [DecidableEq F] (s : System F) : System F :=
  { s with io.svc := ioServiceRemoveJob s.io.svc s.tmr.fd .read (some tmrJobTpl) addr }

/-- The end of `tmr_job_tpl`, after the user's function. -/
def tmrJobEnd (t : Tmr) : Tmr := if t.tmrClass = .periodic then t else { t with armed := false }

end calls

/-! ## The steps -/

inductive TimerCall
  | setDeadline (time : Timespec) (job ctx : UInt64)
  | setPeriodic (time : Timespec) (job ctx : UInt64)
  | setAbsolute (time : Timespec) (job ctx : UInt64)
  | cancel

/-- Calls on the timer from any thread or from its own job, calls of others, and the moves of the
loop. -/
inductive Label (F : Type)
  | timer (call : TimerCall)
  | other (q : Request F)
  | move (m : Move)

/-- Nobody else uses the timer's descriptor, and nobody stops the service. -/
def Elsewhere (fd : ℤ) : Request F → Bool
  | .post fd' _ _ _ _ => fd' != fd
  | .remove fd' _ _ _ => fd' != fd
  | .stop _ => false

section steps
variable [DecidableEq F] (tmrJobTpl : F) (addr : UInt64)

def TimerCall.apply (s : System F) : TimerCall → System F
  | .setDeadline time job ctx => timerSetDeadline tmrJobTpl addr time job ctx s
  | .setPeriodic time job ctx => timerSetPeriodic tmrJobTpl addr time job ctx s
  | .setAbsolute time job ctx => timerSetAbsolute tmrJobTpl addr time job ctx s
  | .cancel => timerCancel tmrJobTpl addr s

/-- The timer after a move: its job may have come to its end. -/
def afterMove (s : System F) (m : Move) : Tmr :=
  match s.io.loop, m with
  | .invoking c, .back => if c.job = tmrJobTpl ∧ c.ctx = addr then tmrJobEnd s.tmr else s.tmr
  | _, _ => s.tmr

def step (s : System F) : Label F → Option (System F)
  | .timer call => some (call.apply tmrJobTpl addr s)
  | .other q => if Elsewhere s.tmr.fd q then some { s with io.svc := q.apply s.io.svc } else none
  | .move m => (IoService.step s.io (.move m)).map fun io => { s with io, tmr := afterMove tmrJobTpl addr s m }

def Step (s : System F) (a : Label F) (s' : System F) : Prop := step tmrJobTpl addr s a = some s'

end steps

end Chats.Timer
