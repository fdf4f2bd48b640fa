import Chats.Lib.Ranking
import Chats.ThreadPool.ThreadPoolRuns

/-! # The end of a thread pool

From the first critical section of `thread_pool_stop` on, everything that happens lowers a measure,
and until the joins are done something can happen. So the call returns, in every schedule, and
then each worker has called the jobs that it took. -/
namespace Chats.ThreadPool
open Chats.Lib
set_option autoImplicit false

variable {W F : Type} {s s' : Pool W F}

/-! ## What is left to do -/

/-- How often a worker can still come to a lock or a return, but for the jobs of the queue. -/
def Worker.left : Worker F → ℕ
  | .exited => 0
  | .calling _ => 2
  | _ => 1

def Stopper.left : Stopper → ℕ
  | .joined => 0
  | .joining => 1
  | _ => 2

@[simp] theorem Worker.left_signal (w : Worker F) : w.signal.left = w.left := by
  cases w <;> rfl

@[simp] theorem Stopper.left_signal (t : Stopper) : t.signal.left = t.left := by
  cases t <;> rfl

theorem Worker.left_le (w : Worker F) : w.left ≤ 2 := by
  cases w <;> simp [left]

def Pool.left [Fintype W] (s : Pool W F) : ℕ :=
  2 * s.queue.length + ∑ w, (s.workers w).left + s.stopper.left

theorem Pool.left_le [Fintype W] (s : Pool W F) : s.left ≤ 2 * s.queue.length + 2 * Fintype.card W + 2 := by
  have hworkers : ∑ w, (s.workers w).left ≤ 2 * Fintype.card W := by
    calc ∑ w, (s.workers w).left ≤ ∑ _w : W, 2 := Finset.sum_le_sum fun w _ => (s.workers w).left_le
      _ = 2 * Fintype.card W := by simp [mul_comm]
  have hstopper : s.stopper.left ≤ 2 := by cases s.stopper <;> simp [Stopper.left]
  unfold Pool.left
  omega

variable [DecidableEq W]

theorem sum_left_update [Fintype W] (f : W → Worker F) (w : W) (p : Worker F) :
    ∑ v, (Function.update f w p v).left + (f w).left = ∑ v, (f v).left + p.left := by
  have hrest : ∑ v ∈ Finset.univ.erase w, (Function.update f w p v).left = ∑ v ∈ Finset.univ.erase w, (f v).left := by
    refine Finset.sum_congr rfl fun v hv => ?_
    rw [Function.update_of_ne (Finset.ne_of_mem_erase hv)]
  rw [← Finset.add_sum_erase _ _ (Finset.mem_univ w),
    ← Finset.add_sum_erase _ (fun v => (f v).left) (Finset.mem_univ w),
    hrest, Function.update_self]
  omega

/-! ## The pool while it is being stopped -/

/-- Only a post does not bring the end nearer. -/
def Action.isPost : Action W F → Bool
  | .post _ _ => true
  | _ => false

/-- A wait returns without a signal. -/
def Spurious (s : Pool W F) (a : Action W F) : Prop :=
  (∃ w, a = .wake w ∧ s.workers w = .sleeping false) ∨ (a = .wakeStop ∧ s.stopper = .waiting false)

/-- A worker ends only where there is nothing left to take. -/
def Leaves (s : Pool W F) : Prop :=
  ∀ w, s.workers w = .exited → s.allowNewJobs = false ∧ (s.run = false ∨ s.queue = [])

omit [DecidableEq W] in
theorem exited_of_signal {w : Worker F} (hw : w.signal = .exited) : w = .exited := by
  cases w <;> simp [Worker.signal] at hw ⊢

omit [DecidableEq W] in
theorem workerTpl_exited (hs : Invariant s) (hexit : s.workerTpl.2 = .exited) :
    s.allowNewJobs = false ∧ (s.run = false ∨ s.queue = []) := by
  unfold Pool.workerTpl at hexit
  split_ifs at hexit with hwait hrun hdone
  · have hrun : s.run = false := by simpa using hrun
    refine ⟨?_, .inl hrun⟩
    unfold Invariant at hs
    cases hstopper : s.stopper <;> simp_all
  · simp only [Bool.and_eq_true, List.isEmpty_iff, Bool.not_eq_true'] at hdone
    exact ⟨hdone.2, .inr hdone.1⟩

theorem work_workers (s : Pool W F) (w : W) : (s.work w).workers = Function.update s.workers w s.workerTpl.2 := by
  unfold Pool.work Pool.setWorker
  obtain h | h | ⟨job, queue, -, -, h⟩ := workerTpl_cases s <;> rw [h]

theorem Leaves.work (hs : Leaves s) (hinv : Invariant s) (w : W) : Leaves (s.work w) := by
  have hflags := workerTpl_flags s
  have hqueue : s.queue = [] → s.workerTpl.1.queue = [] := by
    intro hnil
    have hsplit := workerTpl_queue s
    rw [hnil] at hsplit
    exact (List.append_eq_nil_iff.mp hsplit.symm).2
  intro v hv
  have hold : s.allowNewJobs = false ∧ (s.run = false ∨ s.queue = []) := by
    rw [work_workers] at hv
    by_cases hvw : v = w
    · rw [hvw, Function.update_self] at hv
      exact workerTpl_exited hinv hv
    · rw [Function.update_of_ne hvw] at hv
      exact hs v hv
  exact ⟨hflags.2.trans hold.1, hold.2.imp hflags.1.trans hqueue⟩

theorem Leaves.step {a : Action W F} (hs : Leaves s) (hinv : Invariant s) (hstep : Step s a s') : Leaves s' := by
  cases hstep with
  | @post job room _ =>
    intro w hw
    unfold Pool.threadPoolPostJob at hw ⊢
    split_ifs at hw ⊢ with hallow
    · -- nobody has ended yet
      have hw' : s.workers w = .exited := by
        unfold Pool.broadcastJob Pool.pushJob at hw
        split_ifs at hw <;> exact exited_of_signal hw
      rw [(hs w hw').1] at hallow
      cases hallow
    · exact hs w hw
  | lock _ => exact hs.work hinv _
  | wake _ => exact hs.work hinv _
  | @back w job _ =>
    intro v hv
    unfold Pool.setWorker at hv
    simp only at hv
    by_cases hvw : v = w
    · rw [hvw, Function.update_self] at hv
      cases hv
    · rw [Function.update_of_ne hvw] at hv
      exact hs v hv
  | @stop waitForStop hstopper =>
    intro w hw
    have hw' : s.workers w = .exited := by
      unfold Pool.threadPoolStop at hw
      simp only at hw
      split_ifs at hw
      · exact exited_of_signal hw
      · exact exited_of_signal (exited_of_signal hw)
    unfold Invariant at hinv
    rw [hstopper] at hinv
    have hnot := (hs w hw').1
    rw [hinv.2] at hnot
    cases hnot
  | wakeStop _ =>
    intro w hw
    exact ⟨(hs w (exited_of_signal hw)).1, .inl rfl⟩
  | join _ _ => exact hs

/-- The pool at any moment after the first critical section of `thread_pool_stop`. -/
structure Stopping (s : Pool W F) : Prop where
  invariant : Invariant s
  idles : Idles s
  leaves : Leaves s
  closed : s.allowNewJobs = false

theorem Stopping.step {a : Action W F} (hs : Stopping s) (hstep : Step s a s') : Stopping s' :=
  ⟨hs.invariant.step hstep, hs.idles.step hstep, hs.leaves.step hs.invariant hstep, hstep.allowNewJobs hs.closed⟩

omit [DecidableEq W] in
theorem Stopping.awake (hs : Stopping s) (w : W) : s.workers w ≠ .sleeping false := by
  intro hw
  have hidle := (hs.idles w hw).2.1
  rw [hs.closed] at hidle
  cases hidle

omit [DecidableEq W] in
/-- A worker that comes to the lock, or back from its wait, takes a job or ends. -/
theorem Stopping.workerTpl (hs : Stopping s) :
    (s.workerTpl = (s, .exited)) ∨ ∃ job queue, s.queue = job :: queue ∧ s.workerTpl =
      ({ s with queue, stopper := if queue = [] then s.stopper.signal else s.stopper }, .calling job) := by
  obtain h | h | ⟨job, queue, hqueue, -, h⟩ := workerTpl_cases s
  · have hidle := (workerTpl_sleeping (congrArg Prod.snd h)).2.1
    rw [hs.closed] at hidle
    cases hidle
  · exact .inl h
  · exact .inr ⟨job, queue, hqueue, h⟩

theorem Stopping.work_left [Fintype W] (hs : Stopping s) {w : W} (hw : (s.workers w).left = 1) :
    (s.work w).left < s.left := by
  obtain h | ⟨job, queue, hqueue, h⟩ := hs.workerTpl
  · have hsum := sum_left_update s.workers w .exited
    rw [hw] at hsum
    simp only [Pool.work, h, Pool.setWorker, Pool.left, Worker.left] at hsum ⊢
    omega
  · have hsum := sum_left_update s.workers w (.calling job)
    have hstopper : (if queue = [] then s.stopper.signal else s.stopper).left = s.stopper.left := by
      split_ifs <;> simp
    rw [hw] at hsum
    simp only [Pool.work, h, Pool.setWorker, Pool.left, hqueue, hstopper, List.length_cons] at hsum ⊢
    simp only [Worker.left] at hsum ⊢
    omega

/-- Everything but a post, which is refused, brings the end nearer. -/
theorem Stopping.lowers [Fintype W] {a : Action W F} (hs : Stopping s) (hstep : Step s a s') :
    if a.isPost then s' = s else s'.left < s.left := by
  cases hstep with
  | post _ =>
    unfold Pool.threadPoolPostJob
    simp [Action.isPost, hs.closed]
  | @lock w hw => exact hs.work_left (by rw [hw]; rfl)
  | @wake w signalled hw => exact hs.work_left (by rw [hw]; rfl)
  | @back w job hw =>
    have hsum := sum_left_update s.workers w .ready
    rw [hw] at hsum
    simp only [Action.isPost, Pool.setWorker, Pool.left, Worker.left] at hsum ⊢
    simp only [Bool.false_eq_true, ↓reduceIte]
    omega
  | stop hstopper =>
    have hinv := hs.invariant
    unfold Invariant at hinv
    rw [hstopper, hs.closed] at hinv
    cases hinv.2
  | wakeStop hstopper =>
    simp [Action.isPost, Pool.endRun, Pool.broadcastJob, Pool.left, hstopper, Stopper.left]
  | join hstopper _ => simp [Action.isPost, Pool.left, hstopper, Stopper.left]

/-! ## Something can always happen -/

/-- Until the joins are done a thread can go on that waits for nothing, or for a signal that it has
been given. The one exception is a pool without workers, told to wait for the jobs in its queue. -/
theorem Stopping.goes_on (hs : Stopping s) (hopen : s.stopper ≠ .joined) :
    (∃ a s', Step s a s' ∧ a.isPost = false ∧ ¬ Spurious s a) ∨ (IsEmpty W ∧ s.stopper = .waiting false) := by
  by_cases hworkers : ∀ w, s.workers w = .exited
  · cases hstopper : s.stopper with
    | outside =>
      have hinv := hs.invariant
      unfold Invariant at hinv
      rw [hstopper, hs.closed] at hinv
      cases hinv.2
    | waiting signalled =>
      have hinv := hs.invariant
      unfold Invariant at hinv
      rw [hstopper] at hinv
      obtain ⟨hrun, -, hsignal⟩ := hinv
      cases signalled with
      | true =>
        refine .inl ⟨.wakeStop, _, .wakeStop hstopper, rfl, ?_⟩
        simp [Spurious, hstopper]
      | false =>
        refine .inr ⟨⟨fun w => ?_⟩, rfl⟩
        -- the queue that the stopper waits for is not empty, so no worker has ended
        have hleft := (hs.leaves w (hworkers w)).2
        rw [hrun] at hleft
        exact Bool.false_ne_true (hsignal.mpr (hleft.resolve_left (by decide)))
    | joining =>
      refine .inl ⟨.join, _, .join hstopper hworkers, rfl, ?_⟩
      simp [Spurious]
    | joined => exact absurd hstopper hopen
  · obtain ⟨w, hw⟩ := not_forall.mp hworkers
    cases hp : s.workers w with
    | ready =>
      refine .inl ⟨.lock w, _, .lock hp, rfl, ?_⟩
      simp [Spurious]
    | sleeping signalled =>
      have hsignalled : signalled = true := by
        cases signalled with
        | true => rfl
        | false => exact absurd hp (hs.awake w)
      refine .inl ⟨.wake w, _, .wake hp, rfl, ?_⟩
      simp [Spurious, hp, hsignalled]
    | calling job =>
      refine .inl ⟨.back w, _, .back hp, rfl, ?_⟩
      simp [Spurious]
    | exited => exact absurd hp hw

/-! ## What the workers have called -/

/-- The job that worker `w` takes. -/
def takesBy (w : W) (s : Pool W F) : Action W F → Option (Job F)
  | .lock v => if v = w then s.workerTpl.2.job else none
  | .wake v => if v = w then s.workerTpl.2.job else none
  | _ => none

/-- The job that worker `w` comes back from. -/
def endsBy (w : W) (s : Pool W F) : Action W F → Option (Job F)
  | .back v => if v = w then (s.workers w).job else none
  | _ => none

omit [DecidableEq W] in
theorem signal_job (w : Worker F) : w.signal.job = w.job := by
  cases w <;> rfl

theorem work_jobs {w v : W} (hw : (s.workers v).job = none) :
    (s.workers w).job.toList ++ (if v = w then s.workerTpl.2.job else none).toList =
      ((s.work v).workers w).job.toList := by
  rw [work_workers]
  by_cases hvw : v = w
  · rw [if_pos hvw, ← hvw, hw, Function.update_self]
    rfl
  · rw [if_neg hvw, Function.update_of_ne (Ne.symm hvw)]
    exact List.append_nil _

theorem step_jobs (w : W) {a : Action W F} (hstep : Step s a s') :
    (s.workers w).job.toList ++ (takesBy w s a).toList = (endsBy w s a).toList ++ (s'.workers w).job.toList := by
  cases hstep with
  | @post job room _ =>
    have hjob : ((s.threadPoolPostJob job room).workers w).job = (s.workers w).job := by
      unfold Pool.threadPoolPostJob Pool.broadcastJob Pool.pushJob
      split_ifs <;> simp [signal_job]
    rw [hjob]
    exact List.append_nil _
  | @lock v hw => exact work_jobs (by rw [hw]; rfl)
  | @wake v signalled hw => exact work_jobs (by rw [hw]; rfl)
  | @back v job hw =>
    by_cases hvw : v = w
    · subst hvw
      simp [takesBy, endsBy, Pool.setWorker, hw, Worker.job]
    · simp [takesBy, endsBy, Pool.setWorker, hvw, Function.update_of_ne (Ne.symm hvw)]
  | @stop waitForStop _ =>
    have hjob : ((s.threadPoolStop waitForStop).workers w).job = (s.workers w).job := by
      unfold Pool.threadPoolStop Pool.endRun Pool.broadcastJob
      simp only
      split_ifs <;> simp [signal_job]
    rw [hjob]
    exact List.append_nil _
  | wakeStop _ =>
    have hjob : (s.endRun.workers w).job = (s.workers w).job := signal_job _
    rw [hjob]
    exact List.append_nil _
  | join _ _ => exact List.append_nil _

theorem jobs_of_worker {h : List (Pool W F × Action W F)} (r : Run Step threadPoolInit h s) (w : W) :
    given (takesBy w) h = given (endsBy w) h ++ (s.workers w).job.toList := by
  let queue (s : Pool W F) : List (Job F) := (s.workers w).job.toList
  have hstart : queue threadPoolInit = [] := rfl
  exact r.fifo hstart fun _ _ _ hstep => step_jobs w hstep

/-! ## The whole of `thread_pool_stop` -/

omit [DecidableEq W] in
theorem joined_of_signal {t : Stopper} (ht : t.signal = .joined) : t = .joined := by
  cases t <;> simp [Stopper.signal] at ht ⊢

omit [DecidableEq W] in
theorem workerTpl_joined (h : s.workerTpl.1.stopper = .joined) : s.stopper = .joined := by
  obtain e | e | ⟨job, queue, -, -, e⟩ := workerTpl_cases s
  · rwa [e] at h
  · rwa [e] at h
  · rw [e] at h
    dsimp only at h
    split_ifs at h
    · exact joined_of_signal h
    · exact h

/-- Only the joins lead past the joins. -/
theorem Step.joined {a : Action W F} (hstep : Step s a s') (h : s'.stopper = .joined) :
    s.stopper = .joined ∨ ∀ w, s'.workers w = .exited := by
  cases hstep with
  | @post job room hopen =>
    have hsame : (s.threadPoolPostJob job room).stopper = s.stopper := by
      unfold Pool.threadPoolPostJob Pool.broadcastJob Pool.pushJob
      split_ifs <;> rfl
    exact .inl (hsame ▸ h)
  | lock _ => exact .inl (workerTpl_joined h)
  | wake _ => exact .inl (workerTpl_joined h)
  | back _ => exact .inl h
  | stop _ =>
    unfold Pool.threadPoolStop at h
    simp only at h
    split_ifs at h
    cases h
  | wakeStop _ => cases h
  | join _ hall => exact .inr hall

theorem ended {h : List (Pool W F × Action W F)} (r : Run Step threadPoolInit h s) (hjoined : s.stopper = .joined) :
    ∀ w, s.workers w = .exited := by
  refine r.invariant (I := fun s => s.stopper = .joined → ∀ w, s.workers w = .exited) ?_ ?_ hjoined
  · intro h
    cases h
  · intro s a s' hs hstep hjoined'
    obtain hbefore | hall := hstep.joined hjoined'
    · -- past the joins nothing happens any more
      have hexited := hs hbefore
      cases hstep with
      | post hopen => exact absurd hbefore hopen
      | @lock w hw => exact absurd (hw.symm.trans (hexited w)) (by simp)
      | @wake w signalled hw => exact absurd (hw.symm.trans (hexited w)) (by simp)
      | @back w job hw => exact absurd (hw.symm.trans (hexited w)) (by simp)
      | stop hw => exact absurd (hw.symm.trans hbefore) (by simp)
      | wakeStop hw => exact absurd (hw.symm.trans hbefore) (by simp)
      | join hw _ => exact absurd (hw.symm.trans hbefore) (by simp)
    · exact hall

theorem stopping {b : Bool} {later earlier : List (Pool W F × Action W F)} {t : Pool W F}
    (r : Run Step threadPoolInit (later ++ (t, .stop b) :: earlier) s) :
    ∃ t', Stopping t' ∧ t'.queue = t.queue ∧ Run Step t' later s := by
  obtain ⟨t', hbefore, hlater⟩ := r.split
  refine ⟨t', ⟨(flagged hbefore).invariant, ?_, ?_, ?_⟩, ?_, hlater⟩
  · apply hbefore.invariant (I := Idles)
    · intro w hw
      cases hw
    · intro s a s' hs hstep
      exact hs.step hstep
  · have hboth := hbefore.invariant (I := fun s => Invariant s ∧ Leaves s) ⟨invariant_init, fun w hw => by cases hw⟩
      fun s a s' hs hstep => ⟨hs.1.step hstep, hs.2.step hs.1 hstep⟩
    exact hboth.2
  · exact (flagged hbefore).stopped (once_cons.mpr (.inl ⟨b, rfl⟩))
  · cases hbefore with
    | next _ hs =>
      cases hs with
      | stop _ => exact stop_queue b

/-- After the first critical section of `thread_pool_stop` no schedule takes more than
`2 q + 2 n + 2` further steps, `q` jobs being queued then for `n` workers, posts aside, which change
nothing. Until the call returns some thread can go on without a spurious return from its wait, but
where there is no worker at all. When it returns every worker has ended and has come back from each
job that it took, in the order in which it took them. -/
theorem stop_returns [Fintype W] {b : Bool} {later earlier : List (Pool W F × Action W F)} {t : Pool W F}
    (r : Run Step threadPoolInit (later ++ (t, .stop b) :: earlier) s) :
    (later.filter fun e => !e.2.isPost).length ≤ 2 * t.queue.length + 2 * Fintype.card W + 2 ∧
    (s.stopper ≠ .joined →
      (∃ a s', Step s a s' ∧ a.isPost = false ∧ ¬ Spurious s a) ∨ (IsEmpty W ∧ s.stopper = .waiting false)) ∧
    (s.stopper = .joined → ∀ w, s.workers w = .exited ∧
      given (endsBy w) (later ++ (t, .stop b) :: earlier) = given (takesBy w) (later ++ (t, .stop b) :: earlier)) := by
  obtain ⟨t', ht', hqueue, hlater⟩ := stopping r
  have hs : Stopping s := hlater.invariant ht' fun s a s' hs hstep => hs.step hstep
  refine ⟨?_, hs.goes_on, ?_⟩
  · let counted (a : Action W F) : Bool := !a.isPost
    have hlow (s : Pool W F) (a : Action W F) (s' : Pool W F) (hs : Stopping s) (hstep : Step s a s')
        (hc : counted a = true) : s'.left < s.left := by
      have hlow := hs.lowers hstep
      rwa [if_neg (by simpa [counted] using hc)] at hlow
    have hrest (s : Pool W F) (a : Action W F) (s' : Pool W F) (hs : Stopping s) (hstep : Step s a s')
        (hc : counted a = false) : s'.left ≤ s.left := by
      have hlow := hs.lowers hstep
      rw [if_pos (by simpa [counted] using hc)] at hlow
      rw [hlow]
    have hcount := hlater.count_le ht' (fun _ _ _ hs hstep => hs.step hstep) hlow hrest
    have hbound := t'.left_le
    rw [hqueue] at hbound
    change (later.filter fun e => counted e.2).length ≤ _
    omega
  · intro hjoined w
    have hexited : s.workers w = .exited := ended r hjoined w
    refine ⟨hexited, ?_⟩
    rw [jobs_of_worker r w, hexited]
    exact (List.append_nil _).symm

/-- The first worker has the job when the pool is stopped, comes back and ends, and the second ends. -/
theorem stop_returns_one : ∃ later earlier t s, Run Step threadPoolInit (later ++ (t, .stop true) :: earlier) s ∧
    s.stopper = .joined ∧ s.workers 1 = .exited ∧
    given (endsBy (0 : Fin 2)) (later ++ (t, .stop true) :: earlier) = [firstJob] := by
  have htake : Step onePosted (.lock 0) (onePosted.work 0) := .lock rfl
  have hstop : Step (onePosted.work 0) (.stop true) ((onePosted.work 0).threadPoolStop true) := .stop rfl
  let stopped := (onePosted.work 0).threadPoolStop true
  let firstEnded := (stopped.setWorker 0 .ready).work 0
  have hcalling : stopped.workers 0 = .calling firstJob := rfl
  have hback : Step stopped (.back 0) (stopped.setWorker 0 .ready) := .back hcalling
  have hend : Step (stopped.setWorker 0 .ready) (.lock 0) firstEnded := .lock rfl
  have hend' : Step firstEnded (.lock 1) (firstEnded.work 1) := .lock rfl
  have hjoin : Step (firstEnded.work 1) .join { firstEnded.work 1 with stopper := .joined } :=
    .join rfl fun w => by fin_cases w <;> rfl
  have hstopped := Run.next (Run.next one_posted_run htake) hstop
  have r := Run.next (Run.next (Run.next (Run.next hstopped hback) hend) hend') hjoin
  -- the four steps behind the stop
  obtain ⟨-, -, hjoined⟩ := @stop_returns _ _ _ _ _ _ [_, _, _, _] _ _ r
  exact ⟨[_, _, _, _], _, _, _, r, rfl, (hjoined rfl 1).1, (hjoined rfl 0).2⟩

end Chats.ThreadPool
