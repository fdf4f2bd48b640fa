import Chats.Timer.Expiries

/-! # The loop in the timer's job

`tmr_job_tpl` of `timer/timer.c` reads a descriptor that blocks, in the thread of `io_service_run`. The
event that `epoll_wait` comes back with says that there was a count to read; a setting clears the count
and leaves the event, or the job that was picked for it, in place. -/
namespace Chats.Timer
open Chats.Lib Chats.IoService
set_option autoImplicit false

variable {F : Type} [DecidableEq F] (tmrJobTpl : F) (addr : UInt64)

/-- The call of the timer's job. -/
def IsOwn (c : Call F) : Prop := c.job = tmrJobTpl ∧ c.ctx = addr

/-- The loop has been told that the timer is readable, or has picked its job, and has not read yet. -/
def InHand (s : Clocked F) : Prop :=
  match s.sys.io.loop with
  | .waiting => ∃ events, s.delivered = some (s.sys.tmr.fd, events) ∧ events &&& SvcOp.read.flag ≠ 0
  | .picked c => IsOwn tmrJobTpl addr c
  | .invoking c => IsOwn tmrJobTpl addr c ∧ s.stage = .entered
  | _ => False

/-- The loop waits in `read`. -/
def Blocked (s : Clocked F) : Prop := InJob tmrJobTpl addr s.sys ∧ s.stage = .entered ∧ s.expirations = 0

/-- A setting took hold of the descriptor behind the back of the event, and has not come due since. -/
def Overtaken : History F → Prop :=
  Since (fun s e => (s.arms e).isSome ∧ InHand tmrJobTpl addr s) fun _ e => e.isExpire

/-! ## Where the job is picked -/

omit [DecidableEq F] in
/-- What is left to look at after a pick comes later in the list. -/
theorem picked_suffix (s : Service F) (fd : ℤ) (events : UInt32) (ops : List SvcOp) {c : Call F}
    (h : (dispatch s fd events ops).2 = .picked c) : c.fd = fd ∧ events &&& c.op.flag ≠ 0 ∧ c.op :: c.rest <:+ ops := by
  induction ops with
  | nil => exact absurd h (whileRunning_ne_picked s c)
  | cons op ops ih =>
    have hlater (h : (dispatch s fd events ops).2 = .picked c) :
        c.fd = fd ∧ events &&& c.op.flag ≠ 0 ∧ c.op :: c.rest <:+ op :: ops := by
      obtain ⟨hfd, hevent, hsuffix⟩ := ih h
      exact ⟨hfd, hevent, hsuffix.trans (List.suffix_cons _ _)⟩
    unfold dispatch at h
    split_ifs at h with hevent
    · exact hlater h
    · split at h
      · exact hlater h
      · split at h
        · exact hlater h
        · obtain rfl := Loop.picked.inj h
          exact ⟨rfl, hevent, List.suffix_refl _⟩

/-- The job is registered for reads of the timer's descriptor only, and the loop comes to reads first. -/
structure Placed (s : Clocked F) : Prop where
  valid : Valid s.sys.io.svc.lookupTable
  home : ∀ key p, registry s.sys.io.svc key = some p → p.job = tmrJobTpl → p.ctx = addr → key = (s.sys.tmr.fd, .read)
  rest : ∀ c, s.sys.io.loop = .picked c ∨ s.sys.io.loop = .invoking c → SvcOp.read ∉ c.rest

section picks
variable {s s' : State F} {m : Move} {c : Call F} (h : IoService.Step s (.move m) s')
include h

/-- A job is picked for an event, or after another job of the same event. -/
theorem move_picks (hc : s'.loop = .picked c) :
    (∃ events, m = .wake c.fd events ∧ s.loop = .waiting ∧ events &&& c.op.flag ≠ 0 ∧ c.op :: c.rest <:+ allOps) ∨
      ∃ c', m = .back ∧ s.loop = .invoking c' ∧ c.op :: c.rest <:+ c'.rest := by
  have hturn := turn_cases (step_move h).2
  generalize hr : (s'.svc, s'.loop) = r at hturn
  rw [show s'.loop = r.2 from congrArg Prod.snd hr] at hc
  generalize s.loop = loop at hturn ⊢
  cases hturn with
  | run => exact absurd hc (whileRunning_ne_picked _ c)
  | interrupted => exact absurd hc (whileRunning_ne_picked _ c)
  | notified events => exact absurd hc (whileRunning_ne_picked _ c)
  | event events hfd =>
    obtain ⟨rfl, hevent, hsuffix⟩ := picked_suffix _ _ _ _ hc
    exact .inl ⟨events, rfl, rfl, hevent, hsuffix⟩
  | call c' => cases hc
  | back c' =>
    obtain ⟨-, -, hsuffix⟩ := picked_suffix _ _ _ _ hc
    exact .inr ⟨c', rfl, rfl, hsuffix⟩

theorem move_invokes (hc : s'.loop = .invoking c) : m = .call ∧ s.loop = .picked c := by
  have hturn := turn_cases (step_move h).2
  generalize hr : (s'.svc, s'.loop) = r at hturn
  rw [show s'.loop = r.2 from congrArg Prod.snd hr] at hc
  generalize s.loop = loop at hturn ⊢
  have hdispatch (fd : ℤ) (events : UInt32) (ops : List SvcOp) : (dispatch s.svc fd events ops).2 ≠ .invoking c := by
    cases dispatch_cases s.svc fd events ops with
    | inl hwhile =>
      rw [hwhile]
      exact whileRunning_ne_invoking _ c
    | inr hpick =>
      obtain ⟨e, op, rest, job, -, -, hpick⟩ := hpick
      rw [hpick]
      nofun
  cases hturn with
  | run => exact absurd hc (whileRunning_ne_invoking _ c)
  | interrupted => exact absurd hc (whileRunning_ne_invoking _ c)
  | notified events => exact absurd hc (whileRunning_ne_invoking _ c)
  | event events hfd => exact absurd hc (hdispatch _ _ _)
  | call c' =>
    obtain rfl := Loop.invoking.inj hc
    exact ⟨rfl, rfl⟩
  | back c' => exact absurd hc (hdispatch _ _ _)

end picks

section placed
variable {tmrJobTpl addr} {s : Clocked F}

omit [DecidableEq F] in
theorem placed_unset (eventFd fd : ℤ) (old : Tmr) : Placed tmrJobTpl addr (unset eventFd fd old : Clocked F) :=
  ⟨valid_nil, nofun, nofun⟩

/-- A request of the timer is for reads of its descriptor, and those of others are for other jobs. -/
theorem Placed.request (hp : Placed tmrJobTpl addr s) {q : Request F}
    (hq : ∀ fd op oneshot, q = .post fd op oneshot (some tmrJobTpl) addr → (fd, op) = (s.sys.tmr.fd, SvcOp.read))
    {s' : Clocked F} (hsvc : s'.sys.io.svc = q.apply s.sys.io.svc) (hloop : s'.sys.io.loop = s.sys.io.loop)
    (hfd : s'.sys.tmr.fd = s.sys.tmr.fd) : Placed tmrJobTpl addr s' := by
  refine ⟨?_, ?_, ?_⟩
  · rw [hsvc]
    exact valid_apply hp.valid q
  · intro key p hreg hjob hctx
    rw [hsvc, registry_apply_iff hp.valid] at hreg
    rw [hfd]
    cases hreg with
    | inl haccept =>
      have heq := Action.request.inj haccept.1
      rw [hjob, hctx] at heq
      exact hq key.1 key.2 p.oneshot heq
    | inr hold => exact hp.home key p hold.1 hjob hctx
  · rw [hloop]
    exact hp.rest

theorem Placed.move (hp : Placed tmrJobTpl addr s) {m : Move} {io : State F}
    (hio : IoService.Step s.sys.io (.move m) io)
    {s' : Clocked F} (hs' : s'.sys.io = io) (hfd : s'.sys.tmr.fd = s.sys.tmr.fd) : Placed tmrJobTpl addr s' := by
  subst hs'
  refine ⟨valid_step hp.valid hio, ?_, ?_⟩
  · intro key p hreg hjob hctx
    rw [hfd]
    refine hp.home key p ?_ hjob hctx
    cases move_cases hp.valid hio with
    | inl hsame => rwa [hsame.1] at hreg
    | inr hpick =>
      obtain ⟨c, p', -, -, -, -, hafter⟩ := hpick
      rw [hafter] at hreg
      split_ifs at hreg
      · by_cases hkey : key = (c.fd, c.op)
        · rw [hkey, Function.update_self] at hreg
          cases hreg
        · rwa [Function.update_of_ne hkey] at hreg
      · exact hreg
  · intro c hc
    cases hc with
    | inl hpicked =>
      have hlater : SvcOp.read ∉ allOps.tail := by decide
      rcases move_picks hio hpicked with ⟨events, -, -, -, hsuffix⟩ | ⟨c', -, hloop, hsuffix⟩
      · intro hmem
        rcases List.suffix_cons_iff.mp hsuffix with heq | htail
        · rw [(List.cons.inj heq).2] at hmem
          exact hlater hmem
        · exact hlater (htail.subset (List.mem_cons_of_mem _ hmem))
      · intro hmem
        exact hp.rest c' (.inr hloop) (hsuffix.subset (List.mem_cons_of_mem _ hmem))
    | inr hinvoked => exact hp.rest c (.inl (move_invokes hio hinvoked).2)

omit [DecidableEq F] in
theorem Placed.same (hp : Placed tmrJobTpl addr s) {s' : Clocked F} (hio : s'.sys.io = s.sys.io)
    (hfd : s'.sys.tmr.fd = s.sys.tmr.fd) : Placed tmrJobTpl addr s' := by
  refine ⟨?_, ?_, ?_⟩
  · rw [hio]
    exact hp.valid
  · rw [hio, hfd]
    exact hp.home
  · rw [hio]
    exact hp.rest

theorem Placed.exec (hp : Placed tmrJobTpl addr s) (a : Args) (pc : Pc) {s' : Clocked F}
    (hsys : s'.sys = a.exec tmrJobTpl addr s.sys pc) : Placed tmrJobTpl addr s' := by
  cases pc with
  | post =>
    refine hp.request (q := .post s.sys.tmr.fd .read a.oneshot (some tmrJobTpl) addr) ?_ ?_ ?_ ?_
    · intro fd op oneshot heq
      cases heq
      rfl
    · rw [hsys]
      rfl
    · rw [hsys]
      rfl
    · rw [hsys]
      rfl
  | _ => exact hp.same (by rw [hsys]; rfl) (by rw [hsys]; rfl)

theorem Placed.cancel (hp : Placed tmrJobTpl addr s) :
    Placed tmrJobTpl addr { s with sys := timerCancel tmrJobTpl addr s.sys } := by
  refine hp.request (q := .remove s.sys.tmr.fd .read (some tmrJobTpl) addr) ?_ rfl rfl rfl
  intro fd op oneshot heq
  cases heq

theorem Placed.other (hp : Placed tmrJobTpl addr s) {q : Request F} (hq : PostsOwn tmrJobTpl addr q = false)
    {sys : System F} (hs : Timer.step tmrJobTpl addr s.sys (.other q) = some sys) :
    Placed tmrJobTpl addr { s with sys } := by
  obtain ⟨htmr, -, hio⟩ := other_frame hs
  refine hp.request (q := q) ?_ (by rw [hio]) (by rw [hio]) (by rw [htmr])
  rintro fd op oneshot rfl
  simp [PostsOwn] at hq

/-- The timer's job is picked for an event of its descriptor. -/
theorem Placed.picks (hp : Placed tmrJobTpl addr s) {m : Move} {io : State F}
    (hio : IoService.Step s.sys.io (.move m) io)
    (hready : s.ready tmrJobTpl addr m = true) {c : Call F} (hc : io.loop = .picked c) (hown : IsOwn tmrJobTpl addr c) :
    InHand tmrJobTpl addr s := by
  have hkey : (c.fd, c.op) = (s.sys.tmr.fd, SvcOp.read) := by
    have hdecides := (decides_iff hio c).mpr hc
    cases move_cases hp.valid hio with
    | inl hsame => exact absurd hdecides (hsame.2 c)
    | inr hpick =>
      obtain ⟨c', p, hdecides', hreg, hjob, hctx, -⟩ := hpick
      obtain rfl := hdecides.unique hdecides'
      exact hp.home _ p hreg (hjob.trans hown.1) (hctx.trans hown.2)
  obtain ⟨hfd, hop⟩ := Prod.mk.inj hkey
  cases move_picks hio hc with
  | inl hwake =>
    obtain ⟨events, rfl, hloop, hevent, -⟩ := hwake
    have hdelivered : s.delivered = some (c.fd, events) := of_decide_eq_true hready
    unfold InHand
    rw [hloop]
    exact ⟨events, hfd ▸ hdelivered, hop ▸ hevent⟩
  | inr hback =>
    obtain ⟨c', -, hloop, hsuffix⟩ := hback
    refine absurd ?_ (hp.rest c' (.inr hloop))
    exact hop ▸ hsuffix.subset List.mem_cons_self

/-- A move takes what was in hand further, and nothing new. -/
theorem Placed.inHand (hp : Placed tmrJobTpl addr s) {m : Move} {io : State F}
    (hio : IoService.Step s.sys.io (.move m) io) (hready : s.ready tmrJobTpl addr m = true) {s' : Clocked F}
    (hs' : s'.sys.io = io) (hdelivered : s'.delivered = none) (hin : InHand tmrJobTpl addr s') :
    InHand tmrJobTpl addr s := by
  unfold InHand at hin
  rw [hs', hdelivered] at hin
  split at hin
  · obtain ⟨events, hnone, -⟩ := hin
    cases hnone
  · rename_i c hloop
    exact hp.picks hio hready hloop hin
  · rename_i c hloop
    unfold InHand
    rw [(move_invokes hio hloop).2]
    exact hin.1
  · exact hin.elim

end placed

/-! ## When it waits -/

structure Waits (h : History F) (s : Clocked F) : Prop where
  placed : Placed tmrJobTpl addr s
  cleared : Overtaken tmrJobTpl addr h → s.expirations = 0
  empty : InHand tmrJobTpl addr s → s.expirations = 0 → Overtaken tmrJobTpl addr h

section waits
variable {tmrJobTpl addr} {s s' : Clocked F} {e : Event F} {h : History F}

omit [DecidableEq F] in
theorem overtaken_cons : Overtaken tmrJobTpl addr ((s, e) :: h) ↔
    ((s.arms e).isSome ∧ InHand tmrJobTpl addr s) ∨ (Overtaken tmrJobTpl addr h ∧ ¬ e.isExpire) := since_cons

omit [DecidableEq F] in
theorem waits_unset (eventFd fd : ℤ) (old : Tmr) : Waits tmrJobTpl addr [] (unset eventFd fd old : Clocked F) :=
  ⟨placed_unset eventFd fd old, fun hover => absurd hover since_nil, fun hin => hin.elim⟩

omit [DecidableEq F] in
/-- A step that leaves the count, and has the timer in hand only if it was before or there is a count. -/
theorem Waits.quiet (hw : Waits tmrJobTpl addr h s) (hplaced : Placed tmrJobTpl addr s') (harms : s.arms e = none)
    (hexpire : e.isExpire = false) (hexp : s'.expirations = s.expirations)
    (hin : InHand tmrJobTpl addr s' → s.expirations = 0 → InHand tmrJobTpl addr s) :
    Waits tmrJobTpl addr ((s, e) :: h) s' := by
  have hsame : Overtaken tmrJobTpl addr ((s, e) :: h) ↔ Overtaken tmrJobTpl addr h := by
    rw [overtaken_cons, harms, hexpire]
    simp
  refine ⟨hplaced, ?_, ?_⟩
  · rw [hsame, hexp]
    exact hw.cleared
  · rw [hsame, hexp]
    exact fun hin' hzero => hw.empty (hin hin' hzero) hzero

omit [DecidableEq F] in
theorem Waits.arm (hplaced : Placed tmrJobTpl addr s') (harms : (s.arms e).isSome) (hexp : s'.expirations = 0)
    (hin : InHand tmrJobTpl addr s' → InHand tmrJobTpl addr s) : Waits tmrJobTpl addr ((s, e) :: h) s' :=
  ⟨hplaced, fun _ => hexp, fun hin' _ => overtaken_cons.mpr (.inl ⟨harms, hin hin'⟩)⟩

omit [DecidableEq F] in
theorem Waits.expire (hplaced : Placed tmrJobTpl addr s') (hexp : s'.expirations ≠ 0) :
    Waits tmrJobTpl addr ((s, .expire) :: h) s' := by
  refine ⟨hplaced, ?_, fun _ hzero => absurd hzero hexp⟩
  rw [overtaken_cons]
  rintro (⟨harms, -⟩ | ⟨-, hnot⟩)
  · cases harms
  · exact absurd rfl hnot

/-- In the timer's job it is in hand until the `read`. -/
theorem inHand_inJob (hjob : InJob tmrJobTpl addr s.sys = true) : InHand tmrJobTpl addr s ↔ s.stage = .entered := by
  unfold InJob at hjob
  unfold InHand
  split at hjob
  · rename_i c hloop
    rw [hloop]
    have hown : c.job = tmrJobTpl ∧ c.ctx = addr := of_decide_eq_true hjob
    exact and_iff_right hown
  · cases hjob

theorem Waits.read (hw : Waits tmrJobTpl addr h s) (hjob : InJob tmrJobTpl addr s.sys = true) :
    Waits tmrJobTpl addr ((s, .read) :: h) { s with expirations := 0, stage := .hasRead } := by
  refine ⟨hw.placed.same rfl rfl, fun _ => rfl, ?_⟩
  intro hin
  have hstage := (inHand_inJob (s := { s with expirations := 0, stage := .hasRead }) hjob).mp hin
  cases hstage

/-- A step of the timer's job behind the `read`. -/
theorem Waits.inside (hw : Waits tmrJobTpl addr h s) (hjob : InJob tmrJobTpl addr s.sys = true)
    (harms : s.arms e = none)
    (hexpire : e.isExpire = false) {stage : Stage} (hstage : stage ≠ .entered) :
    Waits tmrJobTpl addr ((s, e) :: h) { s with stage } := by
  refine hw.quiet (hw.placed.same rfl rfl) harms hexpire rfl ?_
  intro hin
  exact absurd ((inHand_inJob (s := { s with stage }) hjob).mp hin) hstage

omit [DecidableEq F] in
theorem Waits.report (hw : Waits tmrJobTpl addr h s) {fd : ℤ} {events : UInt32}
    (hreports : s.reports fd events = true) :
    Waits tmrJobTpl addr ((s, .report fd events) :: h) { s with delivered := some (fd, events) } := by
  refine hw.quiet (hw.placed.same rfl rfl) rfl rfl rfl ?_
  intro hin hzero
  unfold Clocked.reports at hreports
  unfold InHand at hin ⊢
  dsimp only at hin
  split at hreports
  · rename_i hloop
    rw [hloop] at hin
    obtain ⟨events', heq, hevent⟩ := hin
    obtain ⟨rfl, rfl⟩ := Prod.mk.inj (Option.some.inj heq)
    simp [hzero, hevent] at hreports
  · cases hreports

theorem Waits.move (hw : Waits tmrJobTpl addr h s) {m : Move} {sys : System F}
    (hready : s.ready tmrJobTpl addr m = true)
    (hsys : Timer.step tmrJobTpl addr s.sys (.move m) = some sys) : Waits tmrJobTpl addr ((s, .move m) :: h)
      { s with sys, stage := s.stage.after m, delivered := none } := by
  obtain ⟨io, hio, rfl⟩ := Option.map_eq_some_iff.mp hsys
  refine hw.quiet (hw.placed.move hio rfl (afterMove_fd tmrJobTpl addr s.sys m)) rfl rfl rfl ?_
  exact fun hin _ => hw.placed.inHand hio hready rfl rfl hin

theorem Waits.step (hw : Waits tmrJobTpl addr h s) (hs : Ticks tmrJobTpl addr s e s') :
    Waits tmrJobTpl addr ((s, e) :: h) s' := by
  cases tick_cases hs with
  | cancel => exact hw.quiet hw.placed.cancel rfl rfl rfl fun hin _ => hin
  | storeJob hargs hsetter => exact hw.quiet (hw.placed.same rfl rfl) rfl rfl rfl fun hin _ => hin
  | @exec a pc hsetter harms =>
    refine hw.quiet (hw.placed.exec a pc rfl) harms rfl rfl ?_
    intro hin _
    cases pc <;> exact hin
  | @arms a hsetter harms =>
    exact .arm (hw.placed.same rfl rfl) (by rw [harms]; rfl) rfl id
  | @other q sys hown hsys =>
    refine hw.quiet (hw.placed.other hown hsys) rfl rfl rfl ?_
    obtain ⟨htmr, -, hio⟩ := other_frame hsys
    intro hin _
    unfold InHand at hin ⊢
    dsimp only at hin
    rwa [htmr, hio] at hin
  | report hreports => exact hw.report hreports
  | move hready hsys => exact hw.move hready hsys
  | expire hfd hdue => exact .expire (hw.placed.same rfl rfl) (Nat.succ_ne_zero _)
  | read hjob hstage hsome => exact hw.read hjob
  | loadJob hjob hstage => exact hw.inside hjob rfl rfl (by simp)
  | loadCtx hjob hstage => exact hw.inside hjob rfl rfl (by simp)
  | invoke hjob htarget => exact hw.inside hjob rfl rfl (by simp)

/-- The loop waits in `read` exactly if it is in the timer's job, before the `read`, and a setting took
hold of the descriptor after `epoll_wait` had come back with the event, and has not come due since. While
it waits, no job of any descriptor is picked, called or left; and without such a setting it never waits. -/
theorem loop_blocked_iff (eventFd fd : ℤ) (old : Tmr) (r : Run (Ticks tmrJobTpl addr) (unset eventFd fd old) h s) :
    (Blocked tmrJobTpl addr s ↔ (InJob tmrJobTpl addr s.sys = true ∧ s.stage = .entered) ∧ Overtaken tmrJobTpl addr h) ∧
      (Blocked tmrJobTpl addr s → ∀ m, s.step tmrJobTpl addr (.move m) = none) ∧
      ((∀ m ∈ h, (m.1.arms m.2).isSome → ¬ InHand tmrJobTpl addr m.1) → ¬ Blocked tmrJobTpl addr s) := by
  have hw : Waits tmrJobTpl addr h s := r.invariant_history (waits_unset eventFd fd old) fun _ _ _ _ hw hs => hw.step hs
  have hover : Blocked tmrJobTpl addr s → Overtaken tmrJobTpl addr h := by
    rintro ⟨hjob, hstage, hzero⟩
    exact hw.empty ((inHand_inJob hjob).mpr hstage) hzero
  refine ⟨⟨fun hblocked => ⟨⟨hblocked.1, hblocked.2.1⟩, hover hblocked⟩, ?_⟩, ?_, ?_⟩
  · rintro ⟨⟨hjob, hstage⟩, hovertaken⟩
    exact ⟨hjob, hstage, hw.cleared hovertaken⟩
  · rintro ⟨hjob, hstage, -⟩ m
    have hloop : ∃ c, s.sys.io.loop = .invoking c := by
      unfold InJob at hjob
      split at hjob
      · exact ⟨_, ‹_›⟩
      · cases hjob
    obtain ⟨c, hloop⟩ := hloop
    cases m with
    | back => exact if_neg (by simp [Clocked.ready, hjob, hstage])
    | _ => simp [Clocked.step, Timer.step, IoService.step, turn, hloop]
  · intro hnone hblocked
    obtain ⟨later, t, e, earlier, rfl, hset, -⟩ := hover hblocked
    exact hnone (t, e) (by simp) hset.1 hset.2

end waits

/-- A deadline is set again after `epoll_wait` has come back with the old one: the loop waits for the new
one. -/
def setBehind : List (Event Unit) :=
  setting (.setDeadline (secs 1) 8 9) ++ [.move .run, .expire, .report 5 1] ++ setting (.setDeadline (secs 60) 8 9) ++
    [.move (.wake 5 1), .move .call]

theorem loop_blocked_again : ∃ h s, ticked setBehind = some (h, s) ∧ Blocked () 64 s ∧ Overtaken () 64 h ∧
    s.step () 64 (.move .back) = none := by
  have hplayed : ∃ h s, ticked setBehind = some (h, s) ∧ Blocked () 64 s := ⟨_, _, rfl, rfl, rfl, rfl⟩
  obtain ⟨h, s, hticked, hblocked⟩ := hplayed
  obtain ⟨hiff, hstuck, -⟩ := loop_blocked_iff 3 5 fresh (run_ticked setBehind hticked)
  exact ⟨h, s, hticked, hblocked, (hiff.mp hblocked).2, hstuck hblocked .back⟩

end Chats.Timer
