import Chats.Timer.TimerRuns

/-! # Expiries of a timer

The timerfd of `timer/timer.c` beside the timer. It counts how often the time of its setting has
come, a new setting starts the count again, and `read` waits for a count and clears it. Nothing
locks the timer: a setting stores its arguments one by one, while the loop's thread reads the count,
loads the function and its context, and calls. -/
namespace Chats.Timer
open Chats.Lib Chats.IoService
set_option autoImplicit false

/-! ## A setting, statement by statement -/

/-- What a setting is called with, and what it makes of it. -/
structure Args where
  tmrClass : TmrClass
  setting : Setting
  oneshot : Bool
  job : UInt64
  ctx : UInt64
  interval : oneshot = true → setting.spec.interval = ⟨0, 0⟩

def TimerCall.args : TimerCall → Option Args
  | .setDeadline time job ctx =>
    some { tmrClass := .relative, setting := ⟨false, ⟨⟨0, 0⟩, time⟩⟩, oneshot := true, job, ctx
           interval := fun _ => rfl }
  | .setPeriodic time job ctx =>
    some { tmrClass := .periodic, setting := ⟨false, ⟨time, time⟩⟩, oneshot := false, job, ctx
           interval := nofun }
  | .setAbsolute time job ctx =>
    some { tmrClass := .absolute, setting := ⟨true, ⟨⟨0, 0⟩, time⟩⟩, oneshot := true, job, ctx
           interval := fun _ => rfl }
  | .cancel => none

/-- What a setting does next, once it has stored the job. -/
inductive Pc
  | ctx | spec | settime | post
deriving DecidableEq

def Pc.next : Pc → Option Pc
  | .ctx => some .spec
  | .spec => some .settime
  | .settime => some .post
  | .post => none

variable {F : Type}

/-- The first statement. -/
def Args.storeJob (a : Args) (s : System F) : System F := { s with tmr.job := a.job }

def Args.exec (tmrJobTpl : F) (addr : UInt64) (a : Args) (s : System F) : Pc → System F
  | .ctx => { s with tmr.ctx := a.ctx }
  | .spec => { s with tmr := { s.tmr with tmrClass := a.tmrClass, spec := a.setting.spec } }
  | .settime => { s with timerfd := timerfdSettime s.timerfd a.setting }
  | .post =>
    { s with tmr.armed := true
             io.svc := ioServicePostJob s.io.svc s.tmr.fd .read a.oneshot (some tmrJobTpl) addr }

/-- The statements together are the call. -/
theorem exec_all [DecidableEq F] (tmrJobTpl : F) (addr : UInt64) (s : System F) {call : TimerCall} {a : Args}
    (ha : call.args = some a) :
    [Pc.ctx, .spec, .settime, .post].foldl (a.exec tmrJobTpl addr) (a.storeJob s) = call.apply tmrJobTpl addr s := by
  cases call with
  | cancel => cases ha
  | setDeadline time job ctx => exact Option.some.inj ha ▸ rfl
  | setPeriodic time job ctx => exact Option.some.inj ha ▸ rfl
  | setAbsolute time job ctx => exact Option.some.inj ha ▸ rfl

/-! ## The descriptor -/

def Timespec.IsZero (t : Timespec) : Prop := t.sec = 0 ∧ t.nsec = 0

instance (t : Timespec) : Decidable t.IsZero := inferInstanceAs (Decidable (_ ∧ _))

/-- A setting comes due, once without an interval; the zero time disarms the descriptor. -/
def Setting.comesDue (set : Setting) (expired : Bool) : Bool :=
  !decide set.spec.value.IsZero && !(decide set.spec.interval.IsZero && expired)

/-- How far the timer's job has come in the call that the loop makes. C loads the function and its
context in either order. -/
inductive Stage
  | entered | hasRead | hasJob (job : UInt64) | hasCtx (ctx : UInt64) | called
deriving DecidableEq

/-- Between the `read` and the call. -/
def Stage.reading : Stage → Bool
  | .entered => false
  | .called => false
  | _ => true

/-- `expirations` is what a `read` would give, `expired` says that the setting has come due, and
`delivered` is an event that `epoll_wait` has come back with, before the loop has the mutex again.
Settings come one after the other. -/
structure Clocked (F : Type) where
  sys : System F
  expirations : ℕ
  expired : Bool
  stage : Stage
  setter : Option (Args × Pc)
  delivered : Option (ℤ × UInt32)

def unset (eventFd fd : ℤ) (old : Tmr) : Clocked F where
  sys := init eventFd fd old
  expirations := 0
  expired := false
  stage := .called
  setter := none
  delivered := none

inductive Event (F : Type)
  | call (call : TimerCall)
  | exec
  | other (q : Request F)
  | report (fd : ℤ) (events : UInt32)
  | move (m : Move)
  | expire
  | read
  | loadJob
  | loadCtx
  | invoke

/-- The function and the context of the call, once one of them is loaded. -/
def Clocked.target (s : Clocked F) : Option (UInt64 × UInt64) :=
  match s.stage with
  | .hasJob job => some (job, s.sys.tmr.ctx)
  | .hasCtx ctx => some (s.sys.tmr.job, ctx)
  | _ => none

/-- The setting that takes hold of the descriptor in this step. -/
def Clocked.arms (s : Clocked F) : Event F → Option Args
  | .exec =>
    match s.setter with
    | some (a, .settime) => if a.setting.valid then some a else none
    | _ => none
  | _ => none

/-- The setting whose job and context are both stored with this step. -/
def Clocked.stores (s : Clocked F) : Event F → Option Args
  | .exec =>
    match s.setter with
    | some (a, .ctx) => some a
    | _ => none
  | _ => none

/-- `epoll_wait` reports a timerfd as readable while it has a count. -/
def Clocked.reports (s : Clocked F) (fd : ℤ) (events : UInt32) : Bool :=
  match s.sys.io.loop with
  | .waiting => s.delivered.isNone && (fd != s.sys.tmr.fd || events &&& SvcOp.read.flag == 0 || 0 < s.expirations)
  | _ => false

section steps
variable [DecidableEq F] (tmrJobTpl : F) (addr : UInt64)

/-- The loop is in the timer's job. -/
def InJob (s : System F) : Bool :=
  match s.io.loop with
  | .invoking c => c.job = tmrJobTpl ∧ c.ctx = addr
  | _ => false

/-- `tmr_job_tpl` is private to the timer. -/
def PostsOwn : Request F → Bool
  | .post _ _ _ job ctx => job = some tmrJobTpl ∧ ctx = addr
  | _ => false

/-- The loop takes the event that was reported, and comes back from the timer's job after the user's
function. -/
def Clocked.ready (s : Clocked F) : Move → Bool
  | .wake fd events => s.delivered = some (fd, events)
  | .interrupted => s.delivered.isNone
  | .back => !(InJob tmrJobTpl addr s.sys && s.stage ≠ .called)
  | _ => true

def Stage.after (stage : Stage) : Move → Stage
  | .call => .entered
  | _ => stage

def Clocked.step (s : Clocked F) : Event F → Option (Clocked F)
  | .call call =>
    match call.args, s.setter with
    | none, _ => some { s with sys := call.apply tmrJobTpl addr s.sys }
    | some a, none => some { s with sys := a.storeJob s.sys, setter := some (a, .ctx) }
    | some _, some _ => none
  | .exec =>
    match s.setter with
    | none => none
    | some (a, pc) =>
      let s' := { s with sys := a.exec tmrJobTpl addr s.sys pc, setter := pc.next.map (a, ·) }
      -- a new setting starts the count again
      some (if (s.arms .exec).isSome then { s' with expirations := 0, expired := false } else s')
  | .other q =>
    if PostsOwn tmrJobTpl addr q then none
    else (Timer.step tmrJobTpl addr s.sys (.other q)).map fun sys => { s with sys }
  | .report fd events => if s.reports fd events then some { s with delivered := some (fd, events) } else none
  | .move m =>
    if s.ready tmrJobTpl addr m then
      (Timer.step tmrJobTpl addr s.sys (.move m)).map fun sys =>
        { s with sys, stage := s.stage.after m, delivered := none }
    else none
  | .expire =>
    match s.sys.timerfd with
    | none => none
    | some set =>
      if set.comesDue s.expired then some { s with expirations := s.expirations + 1, expired := true } else none
  | .read =>
    if InJob tmrJobTpl addr s.sys ∧ s.stage = .entered ∧ 0 < s.expirations then
      some { s with expirations := 0, stage := .hasRead }
    else none
  | .loadJob =>
    if InJob tmrJobTpl addr s.sys ∧ s.stage = .hasRead then some { s with stage := .hasJob s.sys.tmr.job } else none
  | .loadCtx =>
    if InJob tmrJobTpl addr s.sys ∧ s.stage = .hasRead then some { s with stage := .hasCtx s.sys.tmr.ctx } else none
  | .invoke =>
    if InJob tmrJobTpl addr s.sys ∧ s.target.isSome then some { s with stage := .called } else none

abbrev Ticks (s : Clocked F) (e : Event F) (s' : Clocked F) : Prop := s.step tmrJobTpl addr e = some s'

end steps

/-! ## The steps one by one -/

theorem arms_setter {s : Clocked F} {a : Args} (h : s.arms .exec = some a) :
    s.setter = some (a, .settime) ∧ a.setting.valid = true := by
  unfold Clocked.arms at h
  dsimp only at h
  split at h
  · rename_i b hb
    split_ifs at h with hvalid
    obtain rfl := Option.some.inj h
    exact ⟨hb, hvalid⟩
  · cases h

section steps
variable [DecidableEq F] (tmrJobTpl : F) (addr : UInt64)

inductive Tick (s : Clocked F) : Event F → Clocked F → Prop
  | cancel : Tick s (.call .cancel) { s with sys := timerCancel tmrJobTpl addr s.sys }
  | storeJob {call : TimerCall} {a : Args} : call.args = some a → s.setter = none →
      Tick s (.call call) { s with sys := a.storeJob s.sys, setter := some (a, .ctx) }
  | exec {a : Args} {pc : Pc} : s.setter = some (a, pc) → s.arms .exec = none →
      Tick s .exec { s with sys := a.exec tmrJobTpl addr s.sys pc, setter := pc.next.map (a, ·) }
  | arms {a : Args} : s.setter = some (a, .settime) → s.arms .exec = some a →
      Tick s .exec
        { s with sys.timerfd := some a.setting, setter := some (a, .post), expirations := 0, expired := false }
  | other {q : Request F} {sys : System F} : PostsOwn tmrJobTpl addr q = false →
      Timer.step tmrJobTpl addr s.sys (.other q) = some sys → Tick s (.other q) { s with sys }
  | report {fd : ℤ} {events : UInt32} : s.reports fd events = true →
      Tick s (.report fd events) { s with delivered := some (fd, events) }
  | move {m : Move} {sys : System F} : s.ready tmrJobTpl addr m = true →
      Timer.step tmrJobTpl addr s.sys (.move m) = some sys →
      Tick s (.move m) { s with sys, stage := s.stage.after m, delivered := none }
  | expire {set : Setting} : s.sys.timerfd = some set → set.comesDue s.expired = true →
      Tick s .expire { s with expirations := s.expirations + 1, expired := true }
  | read : InJob tmrJobTpl addr s.sys = true → s.stage = .entered → 0 < s.expirations →
      Tick s .read { s with expirations := 0, stage := .hasRead }
  | loadJob : InJob tmrJobTpl addr s.sys = true → s.stage = .hasRead →
      Tick s .loadJob { s with stage := .hasJob s.sys.tmr.job }
  | loadCtx : InJob tmrJobTpl addr s.sys = true → s.stage = .hasRead →
      Tick s .loadCtx { s with stage := .hasCtx s.sys.tmr.ctx }
  | invoke {target : UInt64 × UInt64} : InJob tmrJobTpl addr s.sys = true → s.target = some target →
      Tick s .invoke { s with stage := .called }

variable {tmrJobTpl addr} {s s' : Clocked F} {e : Event F}

theorem tick_cases (h : Ticks tmrJobTpl addr s e s') : Tick tmrJobTpl addr s e s' := by
  unfold Ticks Clocked.step at h
  cases e with
  | call call =>
    dsimp only at h
    split at h
    · rename_i hargs
      obtain rfl := Option.some.inj h
      cases call with
      | cancel => exact .cancel
      | setDeadline time job ctx => cases hargs
      | setPeriodic time job ctx => cases hargs
      | setAbsolute time job ctx => cases hargs
    · rename_i a hargs hsetter
      exact Option.some.inj h ▸ .storeJob hargs hsetter
    · cases h
  | exec =>
    dsimp only at h
    split at h
    · cases h
    · rename_i a pc hsetter
      cases harms : s.arms .exec with
      | none =>
        rw [harms] at h
        exact Option.some.inj h ▸ .exec hsetter harms
      | some b =>
        rw [harms] at h
        obtain ⟨hb, hvalid⟩ := arms_setter harms
        obtain ⟨rfl, rfl⟩ := Prod.mk.inj (Option.some.inj (hsetter.symm.trans hb))
        have hset : timerfdSettime s.sys.timerfd a.setting = some a.setting := if_pos hvalid
        obtain rfl := Option.some.inj h
        simp only [Args.exec, hset]
        exact .arms hb harms
  | other q =>
    dsimp only at h
    split_ifs at h with hown
    obtain ⟨sys, hsys, rfl⟩ := Option.map_eq_some_iff.mp h
    exact .other (Bool.eq_false_iff.mpr hown) hsys
  | report fd events =>
    dsimp only at h
    split_ifs at h with hreports
    exact Option.some.inj h ▸ .report hreports
  | move m =>
    dsimp only at h
    split_ifs at h with hready
    obtain ⟨sys, hsys, rfl⟩ := Option.map_eq_some_iff.mp h
    exact .move hready hsys
  | expire =>
    dsimp only at h
    split at h
    · cases h
    · rename_i set hfd
      split_ifs at h with hdue
      exact Option.some.inj h ▸ .expire hfd hdue
  | read =>
    dsimp only at h
    split_ifs at h with hread
    exact Option.some.inj h ▸ .read hread.1 hread.2.1 hread.2.2
  | loadJob =>
    dsimp only at h
    split_ifs at h with hload
    exact Option.some.inj h ▸ .loadJob hload.1 hload.2
  | loadCtx =>
    dsimp only at h
    split_ifs at h with hload
    exact Option.some.inj h ▸ .loadCtx hload.1 hload.2
  | invoke =>
    dsimp only at h
    split_ifs at h with hinvoke
    obtain ⟨target, htarget⟩ := Option.isSome_iff_exists.mp hinvoke.2
    exact Option.some.inj h ▸ .invoke hinvoke.1 htarget

end steps

/-! ## Since the latest setting -/

def Event.isExpire : Event F → Bool
  | .expire => true
  | _ => false

def Event.isInvoke : Event F → Bool
  | .invoke => true
  | _ => false

abbrev History (F : Type) := List (Clocked F × Event F)

/-- The latest setting of the descriptor, with the state that it was made in. -/
def latestSet (h : History F) : Option (Clocked F × Args) := h.findSome? fun m => (m.1.arms m.2).map (m.1, ·)

/-- What has happened after it. -/
def sinceSet (h : History F) : History F := h.takeWhile fun m => (m.1.arms m.2).isNone

/-- The latest setting whose job and context are both stored. -/
def latestStored (h : History F) : Option Args := h.findSome? fun m => m.1.stores m.2

def expiries (h : History F) : ℕ := (sinceSet h).countP fun m => m.2.isExpire

/-- The calls of the user's function. -/
def invocations (h : History F) : ℕ := (sinceSet h).countP fun m => m.2.isInvoke

/-- The latest setting was made between a `read` and the call of the user's function. -/
def carried (h : History F) : ℕ :=
  match latestSet h with
  | some (t, _) => if t.stage.reading then 1 else 0
  | none => 0

section history
variable {s : Clocked F} {e : Event F} {h : History F}

theorem latestSet_cons : latestSet ((s, e) :: h) = ((s.arms e).map (s, ·)).or (latestSet h) := by
  unfold latestSet
  rw [List.findSome?_cons]
  cases s.arms e <;> rfl

theorem latestStored_cons : latestStored ((s, e) :: h) = (s.stores e).or (latestStored h) := by
  unfold latestStored
  rw [List.findSome?_cons]
  cases s.stores e <;> rfl

theorem sinceSet_cons : sinceSet ((s, e) :: h) = if (s.arms e).isSome then [] else (s, e) :: sinceSet h := by
  cases he : s.arms e <;> simp [sinceSet, he]

section arms
variable {a : Args} (ha : s.arms e = some a)
include ha

theorem latestSet_arms : latestSet ((s, e) :: h) = some (s, a) := by rw [latestSet_cons, ha]; rfl

theorem sinceSet_arms : sinceSet ((s, e) :: h) = [] := by rw [sinceSet_cons, ha]; rfl

theorem expiries_arms : expiries ((s, e) :: h) = 0 := by rw [expiries, sinceSet_arms ha]; rfl

theorem invocations_arms : invocations ((s, e) :: h) = 0 := by rw [invocations, sinceSet_arms ha]; rfl

end arms

variable (he : s.arms e = none)
include he

theorem latestSet_quiet : latestSet ((s, e) :: h) = latestSet h := by rw [latestSet_cons, he]; rfl

theorem carried_quiet : carried ((s, e) :: h) = carried h := by rw [carried, latestSet_quiet he, carried]

theorem expiries_quiet : expiries ((s, e) :: h) = expiries h + if e.isExpire then 1 else 0 := by
  simp [expiries, sinceSet_cons, he, List.countP_cons]

theorem invocations_quiet : invocations ((s, e) :: h) = invocations h + if e.isInvoke then 1 else 0 := by
  simp [invocations, sinceSet_cons, he, List.countP_cons]

end history

/-! ## The calls -/

/-- A setting without an interval comes due at most once, and every call that was made, is under way
or has a count to read goes back to an expiry of the setting, or to the `read` that was under way when
the setting was made. -/
structure Counted (h : History F) (s : Clocked F) : Prop where
  once : ∀ t a, latestSet h = some (t, a) → a.oneshot = true →
    (∃ set, s.sys.timerfd = some set ∧ set.spec.interval.IsZero) ∧ expiries h ≤ if s.expired then 1 else 0
  unset : latestSet h = none → s.sys.timerfd = none ∧ expiries h = 0
  stored : (latestSet h).isSome ∨ (∃ a pc, s.setter = some (a, pc) ∧ pc ≠ .ctx) → (latestStored h).isSome
  budget : invocations h + (if s.stage.reading then 1 else 0) + (if 0 < s.expirations then 1 else 0) ≤
    expiries h + carried h

section steps
variable {s s' : Clocked F} {e : Event F} {h : History F}

/-- A step beside the timer's own ones. -/
theorem Counted.quiet (hc : Counted h s) (harms : s.arms e = none) (hexpire : e.isExpire = false)
    (hinvoke : e.isInvoke = false) (hfd : s'.sys.timerfd = s.sys.timerfd) (hexpired : s'.expired = s.expired)
    (hexp : s'.expirations = s.expirations) (hstage : s'.stage.reading = true → s.stage.reading = true)
    (hsetter : ∀ a pc, s'.setter = some (a, pc) → pc ≠ .ctx →
      (s.stores e).isSome ∨ ∃ b pc', s.setter = some (b, pc') ∧ pc' ≠ .ctx) : Counted ((s, e) :: h) s' := by
  have hlatest : latestSet ((s, e) :: h) = latestSet h := latestSet_quiet harms
  have hexpiries : expiries ((s, e) :: h) = expiries h := by rw [expiries_quiet harms, hexpire]; rfl
  have hinvocations : invocations ((s, e) :: h) = invocations h := by rw [invocations_quiet harms, hinvoke]; rfl
  refine ⟨?_, ?_, ?_, ?_⟩
  · rw [hlatest, hfd, hexpired, hexpiries]
    exact hc.once
  · rw [hlatest, hfd, hexpiries]
    exact hc.unset
  · rw [hlatest, latestStored_cons, Option.isSome_or, Bool.or_eq_true]
    rintro (hset | ⟨a, pc, hpc, hne⟩)
    · exact .inr (hc.stored (.inl hset))
    · exact (hsetter a pc hpc hne).imp_right fun hold => hc.stored (.inr hold)
  · have hbudget := hc.budget
    rw [hexpiries, hinvocations, carried_quiet harms, hexp]
    by_cases hread : s'.stage.reading = true
    · rw [if_pos hread]
      rwa [if_pos (hstage hread)] at hbudget
    · rw [if_neg hread]
      omega

/-- A step that neither touches the descriptor nor is part of a setting. -/
theorem Counted.same (hc : Counted h s) (harms : s.arms e = none) (hexpire : e.isExpire = false)
    (hinvoke : e.isInvoke = false) (hfd : s'.sys.timerfd = s.sys.timerfd) (hexpired : s'.expired = s.expired)
    (hexp : s'.expirations = s.expirations) (hstage : s'.stage.reading = true → s.stage.reading = true)
    (hsetter : s'.setter = s.setter) : Counted ((s, e) :: h) s' := by
  refine hc.quiet harms hexpire hinvoke hfd hexpired hexp hstage ?_
  intro a pc hpc hne
  exact .inr ⟨a, pc, hsetter ▸ hpc, hne⟩

theorem stored_mono (harms : s.arms e = none) (hc : Counted h s) (hsetter : s'.setter = s.setter) :
    (latestSet ((s, e) :: h)).isSome ∨ (∃ a pc, s'.setter = some (a, pc) ∧ pc ≠ .ctx) →
      (latestStored ((s, e) :: h)).isSome := by
  rw [latestSet_quiet harms, hsetter, latestStored_cons, Option.isSome_or, Bool.or_eq_true]
  exact fun hset => .inr (hc.stored hset)

theorem Counted.expire (hc : Counted h s) {set : Setting} (hfd : s.sys.timerfd = some set)
    (hdue : set.comesDue s.expired = true) :
    Counted ((s, .expire) :: h) { s with expirations := s.expirations + 1, expired := true } := by
  have harms : s.arms .expire = none := rfl
  have hexpiries : expiries ((s, .expire) :: h) = expiries h + 1 := expiries_quiet harms
  have hinvocations : invocations ((s, .expire) :: h) = invocations h := invocations_quiet harms
  refine ⟨?_, ?_, stored_mono harms hc rfl, ?_⟩
  · rw [latestSet_quiet harms, hexpiries]
    intro t a hlatest hone
    obtain ⟨⟨set', hset', hzero⟩, hle⟩ := hc.once t a hlatest hone
    obtain rfl := Option.some.inj (hfd.symm.trans hset')
    have hfirst : s.expired = false := by
      simp only [Setting.comesDue, hzero, decide_true, Bool.true_and, Bool.and_eq_true, Bool.not_eq_true'] at hdue
      exact hdue.2
    rw [hfirst] at hle
    exact ⟨⟨set, hset', hzero⟩, by simpa using hle⟩
  · rw [latestSet_quiet harms]
    intro hnone
    rw [(hc.unset hnone).1] at hfd
    cases hfd
  · have hbudget := hc.budget
    rw [hexpiries, hinvocations, carried_quiet harms, if_pos (Nat.succ_pos s.expirations)]
    change invocations h + (if s.stage.reading then 1 else 0) + 1 ≤ _
    split_ifs at hbudget ⊢ <;> omega

theorem Counted.read (hc : Counted h s) (hstage : s.stage = .entered) (hsome : 0 < s.expirations) :
    Counted ((s, .read) :: h) { s with expirations := 0, stage := .hasRead } := by
  have harms : s.arms .read = none := rfl
  have hexpiries : expiries ((s, .read) :: h) = expiries h := expiries_quiet harms
  have hinvocations : invocations ((s, .read) :: h) = invocations h := invocations_quiet harms
  refine ⟨?_, ?_, stored_mono harms hc rfl, ?_⟩
  · rw [latestSet_quiet harms, hexpiries]
    exact hc.once
  · rw [latestSet_quiet harms, hexpiries]
    exact hc.unset
  · have hbudget := hc.budget
    rw [hstage, if_pos hsome] at hbudget
    rw [hexpiries, hinvocations, carried_quiet harms]
    simpa [Stage.reading] using hbudget

theorem target_reading {target : UInt64 × UInt64} (htarget : s.target = some target) : s.stage.reading = true := by
  unfold Clocked.target at htarget
  split at htarget
  · rename_i job hjob
    rw [hjob]
    rfl
  · rename_i ctx hctx
    rw [hctx]
    rfl
  · cases htarget

theorem Counted.invoke (hc : Counted h s) (hstage : s.stage.reading = true) :
    Counted ((s, .invoke) :: h) { s with stage := .called } := by
  have harms : s.arms .invoke = none := rfl
  have hexpiries : expiries ((s, .invoke) :: h) = expiries h := expiries_quiet harms
  have hinvocations : invocations ((s, .invoke) :: h) = invocations h + 1 := invocations_quiet harms
  refine ⟨?_, ?_, stored_mono harms hc rfl, ?_⟩
  · rw [latestSet_quiet harms, hexpiries]
    exact hc.once
  · rw [latestSet_quiet harms, hexpiries]
    exact hc.unset
  · have hbudget := hc.budget
    rw [if_pos hstage] at hbudget
    rw [hexpiries, hinvocations, carried_quiet harms]
    simpa [Stage.reading] using hbudget

theorem Counted.arm (hc : Counted h s) {a : Args} (hsetter : s.setter = some (a, .settime))
    (harms : s.arms .exec = some a) : Counted ((s, .exec) :: h)
      { s with sys.timerfd := some a.setting, setter := some (a, .post), expirations := 0, expired := false } := by
  have hlatest : latestSet ((s, .exec) :: h) = some (s, a) := latestSet_arms harms
  refine ⟨?_, ?_, ?_, ?_⟩
  · rw [hlatest, expiries_arms harms]
    intro t b hb hone
    obtain ⟨rfl, rfl⟩ := Prod.mk.inj (Option.some.inj hb)
    refine ⟨⟨a.setting, rfl, ?_⟩, Nat.zero_le _⟩
    rw [a.interval hone]
    exact ⟨rfl, rfl⟩
  · rw [hlatest]
    intro hnone
    cases hnone
  · rw [latestStored_cons, Option.isSome_or, Bool.or_eq_true]
    exact fun _ => .inr (hc.stored (.inr ⟨a, .settime, hsetter, by decide⟩))
  · rw [expiries_arms harms, invocations_arms harms, carried, hlatest]
    simp

variable [DecidableEq F] {tmrJobTpl : F} {addr : UInt64}

theorem other_frame {sys sys' : System F} {q : Request F} (hs : Timer.step tmrJobTpl addr sys (.other q) = some sys') :
    sys'.tmr = sys.tmr ∧ sys'.timerfd = sys.timerfd ∧ sys'.io = { sys.io with svc := q.apply sys.io.svc } := by
  unfold Timer.step at hs
  dsimp only at hs
  split_ifs at hs
  obtain rfl := Option.some.inj hs
  exact ⟨rfl, rfl, rfl⟩

/-- The loop changes nothing of a timer but `armed`. -/
theorem move_frame {sys sys' : System F} {m : Move} (hs : Timer.step tmrJobTpl addr sys (.move m) = some sys') :
    sys'.tmr.job = sys.tmr.job ∧ sys'.tmr.ctx = sys.tmr.ctx ∧ sys'.timerfd = sys.timerfd := by
  obtain ⟨io, -, rfl⟩ := Option.map_eq_some_iff.mp hs
  have hend : (tmrJobEnd sys.tmr).job = sys.tmr.job ∧ (tmrJobEnd sys.tmr).ctx = sys.tmr.ctx := by
    unfold tmrJobEnd
    split_ifs <;> exact ⟨rfl, rfl⟩
  unfold afterMove
  dsimp only
  split
  · split_ifs
    · exact ⟨hend.1, hend.2, rfl⟩
    · exact ⟨rfl, rfl, rfl⟩
  · exact ⟨rfl, rfl, rfl⟩

theorem after_reading {stage : Stage} {m : Move} (hread : (stage.after m).reading = true) : stage.reading = true := by
  cases m with
  | call => cases hread
  | _ => exact hread

omit [DecidableEq F] in
/-- A setting that `timerfd_settime` refuses leaves the descriptor as it was. -/
theorem exec_timerfd {a : Args} {pc : Pc} (hsetter : s.setter = some (a, pc)) (harms : s.arms .exec = none) :
    (a.exec tmrJobTpl addr s.sys pc).timerfd = s.sys.timerfd := by
  cases pc with
  | settime =>
    unfold Clocked.arms at harms
    rw [hsetter] at harms
    refine if_neg fun hvalid => ?_
    dsimp only at harms
    rw [if_pos hvalid] at harms
    cases harms
  | _ => rfl

omit [DecidableEq F] in
theorem Counted.exec (hc : Counted h s) {a : Args} {pc : Pc} (hsetter : s.setter = some (a, pc))
    (harms : s.arms .exec = none) :
    Counted ((s, .exec) :: h) { s with sys := a.exec tmrJobTpl addr s.sys pc, setter := pc.next.map (a, ·) } := by
  refine hc.quiet harms rfl rfl (exec_timerfd hsetter harms) rfl rfl id ?_
  intro b pc' hpc hne
  cases pc with
  | ctx => exact .inl (by simp [Clocked.stores, hsetter])
  | _ => exact .inr ⟨a, _, hsetter, by decide⟩

theorem Counted.step (hc : Counted h s) (hs : Ticks tmrJobTpl addr s e s') : Counted ((s, e) :: h) s' := by
  cases tick_cases hs with
  | cancel => exact hc.same rfl rfl rfl rfl rfl rfl id rfl
  | storeJob hargs hsetter =>
    refine hc.quiet rfl rfl rfl rfl rfl rfl id ?_
    intro b pc hpc hne
    exact absurd (Prod.mk.inj (Option.some.inj hpc)).2.symm hne
  | exec hsetter harms => exact hc.exec hsetter harms
  | arms hsetter harms => exact hc.arm hsetter harms
  | other hown hsys => exact hc.same rfl rfl rfl (other_frame hsys).2.1 rfl rfl id rfl
  | report hreports => exact hc.same rfl rfl rfl rfl rfl rfl id rfl
  | move hready hsys =>
    exact hc.same rfl rfl rfl (move_frame hsys).2.2 rfl rfl after_reading rfl
  | expire hfd hdue => exact hc.expire hfd hdue
  | read hjob hstage hsome => exact hc.read hstage hsome
  | loadJob hjob hstage => exact hc.same rfl rfl rfl rfl rfl rfl (fun _ => by rw [hstage]; rfl) rfl
  | loadCtx hjob hstage => exact hc.same rfl rfl rfl rfl rfl rfl (fun _ => by rw [hstage]; rfl) rfl
  | invoke hjob htarget => exact hc.invoke (target_reading htarget)

end steps

/-! ## Whom they call -/

/-- The two stores of a setting and the two loads of a call do not overlap. -/
def Whole (s : Clocked F) : Event F → Bool
  | .call call => call.args.isNone || s.target.isNone
  | .loadJob => s.setter.map Prod.snd ≠ some .ctx
  | .loadCtx => s.setter.map Prod.snd ≠ some .ctx
  | _ => true

/-- Beside a setting that has stored the job and not the context, the two are those of the latest one
and of the call under way. -/
structure Paired (h : History F) (s : Clocked F) : Prop where
  stored : ∀ a, latestStored h = some a → (∀ b, s.setter ≠ some (b, .ctx)) →
    s.sys.tmr.job = a.job ∧ s.sys.tmr.ctx = a.ctx
  between : ∀ a, s.setter = some (a, .ctx) → s.sys.tmr.job = a.job ∧ s.target = none
  loaded : ∀ target, s.target = some target → target = (s.sys.tmr.job, s.sys.tmr.ctx)

section steps
variable {s s' : Clocked F} {e : Event F} {h : History F}

/-- Nothing is loaded for a call. -/
theorem target_none (hstage : s'.stage = s.stage) (htarget : s.target = none) : s'.target = none := by
  unfold Clocked.target at htarget ⊢
  rw [hstage]
  cases hload : s.stage with
  | hasJob job =>
    rw [hload] at htarget
    cases htarget
  | hasCtx ctx =>
    rw [hload] at htarget
    cases htarget
  | _ => rfl

theorem target_eq (hstage : s'.stage = s.stage) (hjob : s'.sys.tmr.job = s.sys.tmr.job)
    (hctx : s'.sys.tmr.ctx = s.sys.tmr.ctx) : s'.target = s.target := by
  unfold Clocked.target
  rw [hstage, hjob, hctx]

/-- A step that is not part of a setting and loads nothing. -/
theorem Paired.quiet (hp : Paired h s) (hstores : s.stores e = none) (hjob : s'.sys.tmr.job = s.sys.tmr.job)
    (hctx : s'.sys.tmr.ctx = s.sys.tmr.ctx)
    (hsetter : ∀ a, s'.setter = some (a, .ctx) ↔ s.setter = some (a, .ctx))
    (htarget : s'.target = s.target ∨ s'.target = none) : Paired ((s, e) :: h) s' := by
  refine ⟨?_, ?_, ?_⟩
  · rw [latestStored_cons, hstores, hjob, hctx]
    intro a hstored hnot
    exact hp.stored a hstored fun b hb => hnot b ((hsetter b).mpr hb)
  · intro a ha
    obtain ⟨hold, hnone⟩ := hp.between a ((hsetter a).mp ha)
    exact ⟨hjob.trans hold, htarget.elim (fun hsame => hsame.trans hnone) id⟩
  · intro target hsome
    rw [hjob, hctx]
    cases htarget with
    | inl hsame => exact hp.loaded target (hsame ▸ hsome)
    | inr hnone =>
      rw [hnone] at hsome
      cases hsome

theorem paired_storeJob {call : TimerCall} {a : Args} (hargs : call.args = some a)
    (hwhole : Whole s (.call call) = true) :
    Paired ((s, .call call) :: h) { s with sys := a.storeJob s.sys, setter := some (a, .ctx) } := by
  have htarget : s.target = none := by simpa [Whole, hargs] using hwhole
  have hnone : Clocked.target { s with sys := a.storeJob s.sys, setter := some (a, .ctx) } = none :=
    target_none (s := s) rfl htarget
  refine ⟨fun b _ hnot => absurd rfl (hnot a), ?_, ?_⟩
  · intro b hb
    obtain ⟨rfl, -⟩ := Prod.mk.inj (Option.some.inj hb)
    exact ⟨rfl, hnone⟩
  · intro target hsome
    rw [hnone] at hsome
    cases hsome

/-- The context is stored behind the job. -/
theorem Paired.storeCtx (hp : Paired h s) {a : Args} (hsetter : s.setter = some (a, .ctx)) {s' : Clocked F}
    (hstage : s'.stage = s.stage) (hjob : s'.sys.tmr.job = s.sys.tmr.job) (hctx : s'.sys.tmr.ctx = a.ctx)
    (hnext : s'.setter = some (a, .spec)) : Paired ((s, .exec) :: h) s' := by
  obtain ⟨hsame, hnone⟩ := hp.between a hsetter
  have htarget : s'.target = none := target_none hstage hnone
  refine ⟨?_, ?_, ?_⟩
  · have hstores : s.stores .exec = some a := by simp [Clocked.stores, hsetter]
    rw [latestStored_cons, hstores]
    intro b hb _
    obtain rfl := Option.some.inj hb
    exact ⟨hjob.trans hsame, hctx⟩
  · intro b hb
    rw [hnext] at hb
    cases hb
  · intro target hsome
    rw [htarget] at hsome
    cases hsome

/-- A load, with both stores of every setting made. -/
theorem Paired.load (hp : Paired h s) (hstores : s.stores e = none) (hset : s.setter.map Prod.snd ≠ some .ctx)
    {s' : Clocked F} (hsys : s'.sys = s.sys) (hsetter : s'.setter = s.setter)
    (htarget : s'.target = some (s.sys.tmr.job, s.sys.tmr.ctx)) : Paired ((s, e) :: h) s' := by
  have hbetween (a : Args) : s.setter ≠ some (a, .ctx) := by
    intro ha
    rw [ha] at hset
    exact hset rfl
  refine ⟨?_, ?_, ?_⟩
  · rw [latestStored_cons, hstores, hsys]
    exact fun a hstored _ => hp.stored a hstored hbetween
  · intro a ha
    exact absurd (hsetter ▸ ha) (hbetween a)
  · intro target hsome
    rw [hsys]
    exact Option.some.inj (hsome.symm.trans htarget)

variable [DecidableEq F] {tmrJobTpl : F} {addr : UInt64}

omit [DecidableEq F] in
theorem exec_frame (tmrJobTpl : F) (addr : UInt64) (a : Args) (sys : System F) {pc : Pc} (hpc : pc ≠ .ctx) :
    (a.exec tmrJobTpl addr sys pc).tmr.job = sys.tmr.job ∧ (a.exec tmrJobTpl addr sys pc).tmr.ctx = sys.tmr.ctx := by
  cases pc with
  | ctx => exact absurd rfl hpc
  | _ => exact ⟨rfl, rfl⟩

omit [DecidableEq F] in
theorem Paired.exec (tmrJobTpl : F) (addr : UInt64) (hp : Paired h s) {a : Args} {pc : Pc}
    (hsetter : s.setter = some (a, pc)) {s' : Clocked F} (hsys : s'.sys.tmr = (a.exec tmrJobTpl addr s.sys pc).tmr)
    (hnext : s'.setter = pc.next.map (a, ·)) (hstage : s'.stage = s.stage) : Paired ((s, .exec) :: h) s' := by
  by_cases hpc : pc = .ctx
  · subst hpc
    exact hp.storeCtx hsetter hstage (by rw [hsys]; rfl) (by rw [hsys]; rfl) hnext
  · obtain ⟨hjob, hctx⟩ := exec_frame tmrJobTpl addr a s.sys hpc
    rw [← hsys] at hjob hctx
    refine hp.quiet ?_ hjob hctx ?_ (.inl (target_eq hstage hjob hctx))
    · simp [Clocked.stores, hsetter, hpc]
    · intro b
      rw [hnext, hsetter]
      cases pc with
      | ctx => exact absurd rfl hpc
      | _ => simp [Pc.next]

theorem Paired.move (hp : Paired h s) {m : Move} {sys : System F}
    (hsys : Timer.step tmrJobTpl addr s.sys (.move m) = some sys) :
    Paired ((s, .move m) :: h) { s with sys, stage := s.stage.after m, delivered := none } := by
  obtain ⟨hjob, hctx, -⟩ := move_frame hsys
  refine hp.quiet rfl hjob hctx (fun _ => Iff.rfl) ?_
  cases m with
  | call => exact .inr rfl
  | _ => exact .inl (target_eq rfl hjob hctx)

theorem Paired.step (hp : Paired h s) (hwhole : Whole s e = true) (hs : Ticks tmrJobTpl addr s e s') :
    Paired ((s, e) :: h) s' := by
  cases tick_cases hs with
  | cancel => exact hp.quiet rfl rfl rfl (fun _ => Iff.rfl) (.inl rfl)
  | storeJob hargs hsetter => exact paired_storeJob hargs hwhole
  | exec hsetter harms => exact hp.exec tmrJobTpl addr hsetter rfl rfl rfl
  | arms hsetter harms => exact hp.exec tmrJobTpl addr hsetter rfl rfl rfl
  | other hown hsys =>
    have htmr := (other_frame hsys).1
    have hjob := congrArg Tmr.job htmr
    have hctx := congrArg Tmr.ctx htmr
    exact hp.quiet rfl hjob hctx (fun _ => Iff.rfl) (.inl (target_eq rfl hjob hctx))
  | report hreports => exact hp.quiet rfl rfl rfl (fun _ => Iff.rfl) (.inl rfl)
  | move hready hsys => exact hp.move hsys
  | expire hfd hdue => exact hp.quiet rfl rfl rfl (fun _ => Iff.rfl) (.inl rfl)
  | read hjob hstage hsome => exact hp.quiet rfl rfl rfl (fun _ => Iff.rfl) (.inr rfl)
  | loadJob hjob hstage => exact hp.load rfl (of_decide_eq_true hwhole) rfl rfl rfl
  | loadCtx hjob hstage => exact hp.load rfl (of_decide_eq_true hwhole) rfl rfl rfl
  | invoke hjob htarget => exact hp.quiet rfl rfl rfl (fun _ => Iff.rfl) (.inr rfl)

end steps

/-- The events of a setting. -/
def setting (call : TimerCall) : List (Event F) := [.call call, .exec, .exec, .exec, .exec]

/-- The timer with descriptor 5 at 64. -/
def ticked (es : List (Event Unit)) : Option (History Unit × Clocked Unit) :=
  Run.replay (Clocked.step () 64) ([], unset 3 5 fresh) es

theorem run_ticked (es : List (Event Unit)) {h : History Unit} {s : Clocked Unit} (hticked : ticked es = some (h, s)) :
    Run (Ticks () 64) (unset 3 5 fresh) h s :=
  Run.of_replay .start hticked

/-- The loop loads the context, and the next setting stores its function before the call. -/
def tornSet : List (Event Unit) :=
  setting (.setDeadline (secs 1) 8 9) ++ [.move .run, .expire, .report 5 1, .move (.wake 5 1), .move .call, .read,
    .loadCtx, .call (.setDeadline (secs 2) 10 11)]

example : ∃ h s, ticked tornSet = some (h, s) ∧ s.target = some (10, 9) := ⟨_, _, rfl, rfl⟩

end Chats.Timer
