import Chats.Lib.Since
import Chats.ThreadPool.ThreadPool

/-! # Runs of the thread pool

The jobs go through the queue in the order of the posts, whatever the schedule. Whether the queue
is empty when `thread_pool_stop` ends the run rests on its wait, which is not in a loop. -/
namespace Chats.ThreadPool
open Chats.Lib
set_option autoImplicit false

variable {W F : Type} {s s' : Pool W F}

/-! ## The critical section of a worker -/

theorem getAndPopJob_of_cons {job : Job F} {queue : List (Job F)} (hqueue : s.queue = job :: queue) :
    s.getAndPopJob =
      ({ s with queue, stopper := if queue = [] then s.stopper.signal else s.stopper }, job) := by
  unfold Pool.getAndPopJob
  rw [hqueue]
  cases queue <;> rfl

/-- It waits, ends, or takes the first job and tells the stopper when it was the last. -/
theorem workerTpl_cases (s : Pool W F) :
    s.workerTpl = (s, .sleeping false) ∨ s.workerTpl = (s, .exited) ∨
    ∃ job queue, s.queue = job :: queue ∧ s.run = true ∧ s.workerTpl =
      ({ s with queue, stopper := if queue = [] then s.stopper.signal else s.stopper }, .calling job) := by
  unfold Pool.workerTpl
  split_ifs with hwait hrun hdone
  · exact Or.inl rfl
  · exact Or.inr (Or.inl rfl)
  · exact Or.inr (Or.inl rfl)
  · refine Or.inr (Or.inr ?_)
    cases hqueue : s.queue with
    | nil =>
      -- an empty queue is waited for while new jobs are allowed, and the end otherwise
      simp [hqueue] at hwait hrun hdone
      simp [hdone] at hwait
      simp [hwait] at hrun
    | cons job queue =>
      rw [getAndPopJob_of_cons hqueue]
      exact ⟨job, queue, rfl, by simpa using hrun, rfl⟩

theorem workerTpl_flags (s : Pool W F) : s.workerTpl.1.run = s.run ∧ s.workerTpl.1.allowNewJobs = s.allowNewJobs := by
  obtain h | h | ⟨job, queue, -, -, h⟩ := workerTpl_cases s <;> rw [h] <;> exact ⟨rfl, rfl⟩

theorem workerTpl_queue (s : Pool W F) : s.queue = s.workerTpl.2.job.toList ++ s.workerTpl.1.queue := by
  obtain h | h | ⟨job, queue, hqueue, -, h⟩ := workerTpl_cases s
  · rw [h]
    rfl
  · rw [h]
    rfl
  · rw [h, hqueue]
    rfl

theorem workerTpl_job (hrun : s.run = false) : s.workerTpl.2.job = none := by
  obtain h | h | ⟨job, queue, -, hrun', -⟩ := workerTpl_cases s
  · rw [h]
    rfl
  · rw [h]
    rfl
  · rw [hrun] at hrun'
    cases hrun'

/-! ## The queue -/

theorem post_queue (job : Job F) (room : Bool) :
    (s.threadPoolPostJob job room).queue = s.queue ++ (if s.allowNewJobs && room then some job else none).toList := by
  unfold Pool.threadPoolPostJob Pool.pushJob Pool.broadcastJob
  cases s.allowNewJobs <;> cases room <;> simp

theorem stop_queue (waitForStop : Bool) : (s.threadPoolStop waitForStop).queue = s.queue := by
  unfold Pool.threadPoolStop
  simp only
  split_ifs <;> rfl

variable [DecidableEq W] {a : Action W F}

/-- A step appends the job it accepts and drops the one it takes. -/
theorem step_queue (hstep : Step s a s') : s.queue ++ (accepts s a).toList = (takes s a).toList ++ s'.queue := by
  cases hstep with
  | post _ => exact (post_queue _ _).symm
  | lock _ => exact (List.append_nil _).trans (workerTpl_queue s)
  | wake _ => exact (List.append_nil _).trans (workerTpl_queue s)
  | back _ => exact List.append_nil _
  | stop _ => exact (List.append_nil _).trans (stop_queue _).symm
  | wakeStop _ => exact List.append_nil _
  | join _ _ => exact List.append_nil _

def accepted (h : List (Pool W F × Action W F)) : List (Job F) := given accepts h

def taken (h : List (Pool W F × Action W F)) : List (Job F) := given takes h

theorem fifo {h : List (Pool W F × Action W F)} (r : Run Step threadPoolInit h s) :
    accepted h = taken h ++ s.queue :=
  r.fifo rfl fun _ _ _ hstep => step_queue hstep

/-! ## The flags and the stopper -/

/-- Jobs are allowed until the stopper comes, and it waits only for a queue that is not empty, to be
signalled when it is. -/
def Invariant (s : Pool W F) : Prop :=
  match s.stopper with
  | .outside => s.run = true ∧ s.allowNewJobs = true
  | .waiting signalled => s.run = true ∧ s.allowNewJobs = false ∧ (signalled = true ↔ s.queue = [])
  | _ => s.run = false ∧ s.allowNewJobs = false

omit [DecidableEq W] in
theorem invariant_init : Invariant (threadPoolInit : Pool W F) := ⟨rfl, rfl⟩

omit [DecidableEq W] in
theorem Invariant.outside (hs : Invariant s) (hallow : s.allowNewJobs = true) : s.stopper = .outside := by
  unfold Invariant at hs
  cases hstopper : s.stopper with
  | outside => rfl
  | waiting signalled => simp [hstopper, hallow] at hs
  | joining => simp [hstopper, hallow] at hs
  | joined => simp [hstopper, hallow] at hs

omit [DecidableEq W] in
theorem Invariant.post (hs : Invariant s) (job : Job F) (room : Bool) : Invariant (s.threadPoolPostJob job room) := by
  unfold Pool.threadPoolPostJob
  split_ifs with hallow
  · have hout := hs.outside hallow
    unfold Invariant at hs ⊢
    unfold Pool.pushJob Pool.broadcastJob
    rw [hout] at hs
    split_ifs <;> simpa [hout] using hs
  · exact hs

omit [DecidableEq W] in
/-- A worker leaves the stopper where it is, and signals it with the last job. -/
theorem Invariant.worker (hs : Invariant s) : Invariant s.workerTpl.1 := by
  obtain h | h | ⟨job, queue, hqueue, -, h⟩ := workerTpl_cases s
  · rwa [h]
  · rwa [h]
  · rw [h]
    unfold Invariant at hs ⊢
    cases hstopper : s.stopper with
    | waiting signalled =>
      rw [hstopper, hqueue] at hs
      obtain ⟨hrun, hallow, hsignal⟩ := hs
      have hnot : signalled = false := by simpa using hsignal
      cases queue <;> simp [Stopper.signal, hrun, hallow, hnot]
    | _ =>
      rw [hstopper] at hs
      cases queue <;> simpa [Stopper.signal] using hs

omit [DecidableEq W] in
theorem Invariant.stop (waitForStop : Bool) : Invariant (s.threadPoolStop waitForStop) := by
  unfold Pool.threadPoolStop
  simp only
  split_ifs with hwait
  · simp only [Bool.and_eq_true, Bool.not_eq_true'] at hwait
    obtain ⟨rfl, hqueue⟩ := hwait
    refine ⟨rfl, rfl, iff_of_false Bool.false_ne_true ?_⟩
    intro hnil
    rw [hnil] at hqueue
    cases hqueue
  · exact ⟨rfl, rfl⟩

theorem Invariant.step (hs : Invariant s) (hstep : Step s a s') : Invariant s' := by
  cases hstep with
  | post _ => exact hs.post _ _
  | lock _ => exact hs.worker
  | wake _ => exact hs.worker
  | back _ => exact hs
  | stop _ => exact Invariant.stop _
  | wakeStop hstopper =>
    unfold Invariant at hs
    rw [hstopper] at hs
    exact ⟨rfl, hs.2.1⟩
  | join hstopper _ =>
    unfold Invariant at hs
    rw [hstopper] at hs
    exact hs

theorem Step.allowNewJobs (hstep : Step s a s') (hallow : s.allowNewJobs = false) : s'.allowNewJobs = false := by
  cases hstep with
  | post _ =>
    unfold Pool.threadPoolPostJob
    rw [if_neg (by simp [hallow])]
    exact hallow
  | lock _ => exact (workerTpl_flags s).2.trans hallow
  | wake _ => exact (workerTpl_flags s).2.trans hallow
  | stop _ =>
    unfold Pool.threadPoolStop
    simp only
    split_ifs <;> rfl
  | _ => exact hallow

theorem Step.run (hs : Invariant s) (hstep : Step s a s') (hrun : s.run = false) : s'.run = false := by
  cases hstep with
  | post _ =>
    unfold Pool.threadPoolPostJob Pool.pushJob
    split_ifs <;> exact hrun
  | lock _ => exact (workerTpl_flags s).1.trans hrun
  | wake _ => exact (workerTpl_flags s).1.trans hrun
  | stop hstopper =>
    unfold Invariant at hs
    rw [hstopper, hrun] at hs
    cases hs.1
  | wakeStop _ => rfl
  | _ => exact hrun

/-! ## The discipline of the queue -/

/-- `thread_pool_stop` goes through its first critical section. -/
def Stops (_ : Pool W F) (a : Action W F) : Prop := ∃ waitForStop, a = .stop waitForStop

def RunIsFalse (s : Pool W F) (_ : Action W F) : Prop := s.run = false

structure Flagged (h : List (Pool W F × Action W F)) (s : Pool W F) : Prop where
  invariant : Invariant s
  stopped : Once Stops h → s.allowNewJobs = false
  ended : Once RunIsFalse h → s.run = false

theorem flagged {h : List (Pool W F × Action W F)} (r : Run Step threadPoolInit h s) : Flagged h s := by
  apply r.invariant_history (I := Flagged)
  · exact ⟨invariant_init, fun honce => absurd honce since_nil, fun honce => absurd honce since_nil⟩
  · intro h s a s' hs hstep
    refine ⟨hs.invariant.step hstep, ?_, ?_⟩
    · intro honce
      obtain hstop | honce := once_cons.mp honce
      · obtain ⟨waitForStop, rfl⟩ := hstop
        cases hstep with
        | stop _ =>
          unfold Pool.threadPoolStop
          simp only
          split_ifs <;> rfl
      · exact hstep.allowNewJobs (hs.stopped honce)
    · intro honce
      obtain hrun | honce := once_cons.mp honce
      · exact hstep.run hs.invariant hrun
      · exact hstep.run hs.invariant (hs.ended honce)

omit [DecidableEq W] in
theorem accepts_none (hallow : s.allowNewJobs = false) : accepts s a = none := by
  cases a <;> simp [accepts, hallow]

omit [DecidableEq W] in
theorem takes_none (hrun : s.run = false) : takes s a = none := by
  cases a with
  | lock w => exact workerTpl_job hrun
  | wake w => exact workerTpl_job hrun
  | _ => rfl

/-- The jobs that were taken are the first ones that were accepted, each once and in their order,
and the others are in the queue; nothing is accepted after the stopper's first critical section,
and nothing is taken once `run` is false. -/
theorem queue_discipline {h : List (Pool W F × Action W F)} (r : Run Step threadPoolInit h s) :
    accepted h = taken h ++ s.queue ∧
    ∀ later t a earlier, h = later ++ (t, a) :: earlier →
      (Once Stops earlier → accepts t a = none) ∧
      (Once RunIsFalse ((t, a) :: earlier) → takes t a = none) := by
  refine ⟨fifo r, ?_⟩
  rintro later t a earlier rfl
  obtain ⟨hearlier, -⟩ := r.at_step
  have hflags := flagged hearlier
  refine ⟨fun honce => accepts_none (hflags.stopped honce), fun honce => takes_none ?_⟩
  obtain hrun | honce := once_cons.mp honce
  · exact hrun
  · exact hflags.ended honce

def firstJob : Job ℕ := { job := some 0, ctx := 1 }

/-- A pool of two workers to which one job was posted. -/
def onePosted : Pool (Fin 2) ℕ := threadPoolInit.threadPoolPostJob firstJob true

theorem one_posted_run : Run Step threadPoolInit [(threadPoolInit, .post firstJob true)] onePosted :=
  .next .start (.post (by decide))

/-- The pool is stopped, and another job comes too late. -/
theorem queue_discipline_posted_late :
    let s := onePosted.threadPoolStop true
    ∃ h, Run Step threadPoolInit ((s, .post firstJob true) :: h) s ∧
      accepted ((s, .post firstJob true) :: h) = [firstJob] ∧ accepts s (.post firstJob true) = none := by
  have hstop : Step onePosted (.stop true) (onePosted.threadPoolStop true) := .stop rfl
  have hpost : Step (onePosted.threadPoolStop true) (.post firstJob true) (onePosted.threadPoolStop true) :=
    .post (by decide)
  have r := Run.next (Run.next one_posted_run hstop) hpost
  obtain ⟨hfifo, hlaw⟩ := queue_discipline r
  exact ⟨_, r, hfifo, (hlaw [] _ _ _ rfl).1 (once_cons.mpr (Or.inl ⟨true, rfl⟩))⟩

/-! ## What the stopper leaves behind -/

/-- `thread_pool_stop` with `wait_for_stop` gets to `run = false`. -/
def EndsWaiting (s : Pool W F) (a : Action W F) : Prop := (a = .stop true ∧ s.queue = []) ∨ a = .wakeStop

/-- The stopper's wait does not return without a signal. -/
def ReturnSignalled (s : Pool W F) (a : Action W F) : Prop := a = .wakeStop → s.stopper = .waiting true

theorem empty_iff_signalled (hs : Invariant s) (hstep : Step s a s') :
    (EndsWaiting s a → s.queue = []) ↔ ReturnSignalled s a := by
  unfold EndsWaiting ReturnSignalled
  cases hstep with
  | wakeStop hstopper =>
    unfold Invariant at hs
    rw [hstopper] at hs
    simp [hstopper, ← hs.2.2]
  | stop _ => simp
  | _ => simp

/-- When the run ends, every job that was accepted has been taken, in just those runs in which the
stopper's wait never returns without a signal. -/
theorem nothing_discarded_iff {h : List (Pool W F × Action W F)} (r : Run Step threadPoolInit h s) :
    (∀ later t a earlier, h = later ++ (t, a) :: earlier → EndsWaiting t a → accepted earlier = taken earlier) ↔
      ∀ e ∈ h, ReturnSignalled e.1 e.2 := by
  have hpoint : ∀ later t a earlier, h = later ++ (t, a) :: earlier →
      ((EndsWaiting t a → accepted earlier = taken earlier) ↔ ReturnSignalled t a) := by
    rintro later t a earlier rfl
    obtain ⟨hearlier, t', hstep⟩ := r.at_step
    rw [fifo hearlier, List.append_right_eq_self]
    exact empty_iff_signalled (flagged hearlier).invariant hstep
  constructor
  · intro hall e he
    obtain ⟨later, earlier, heq⟩ := List.append_of_mem he
    exact (hpoint later e.1 e.2 earlier heq).mp (hall later e.1 e.2 earlier heq)
  · intro hsignalled later t a earlier heq
    have hmem : (t, a) ∈ h := by
      rw [heq]
      exact List.mem_append_right later List.mem_cons_self
    exact (hpoint later t a earlier heq).mpr (hsignalled _ hmem)

/-- The worker that takes the job signals the stopper. -/
theorem nothing_discarded_signalled :
    let s := (onePosted.threadPoolStop true).work 0
    ∃ h, Run Step threadPoolInit ((s, .wakeStop) :: h) s.endRun ∧ accepted h = [firstJob] ∧ accepted h = taken h := by
  have hstop : Step onePosted (.stop true) (onePosted.threadPoolStop true) := .stop rfl
  have hlock : Step (onePosted.threadPoolStop true) (.lock 0) ((onePosted.threadPoolStop true).work 0) := .lock rfl
  have hwake : Step ((onePosted.threadPoolStop true).work 0) .wakeStop
      ((onePosted.threadPoolStop true).work 0).endRun := .wakeStop rfl
  have r := Run.next (Run.next (Run.next one_posted_run hstop) hlock) hwake
  refine ⟨_, r, rfl, (nothing_discarded_iff r).mpr ?_ [] _ _ _ rfl (Or.inr rfl)⟩
  simp only [List.mem_cons, List.not_mem_nil, or_false]
  rintro e (rfl | rfl | rfl | rfl) heq
  · rfl
  all_goals cases heq

/-- The wait returns before a worker has run, and the job is left in the queue. -/
theorem job_discarded :
    let s := onePosted.threadPoolStop true
    ∃ h, Run Step threadPoolInit ((s, .wakeStop) :: h) s.endRun ∧ EndsWaiting s (.wakeStop : Action (Fin 2) ℕ) ∧
      accepted h = [firstJob] ∧ taken h = [] := by
  have hstop : Step onePosted (.stop true) (onePosted.threadPoolStop true) := .stop rfl
  have hwake : Step (onePosted.threadPoolStop true) .wakeStop (onePosted.threadPoolStop true).endRun := .wakeStop rfl
  exact ⟨_, .next (.next one_posted_run hstop) hwake, Or.inr rfl, rfl, rfl⟩

/-! ## Lost wake-ups -/

/-- A worker that waits unsignalled has nothing to do. -/
def Idles (s : Pool W F) : Prop :=
  ∀ w, s.workers w = .sleeping false → s.run = true ∧ s.allowNewJobs = true ∧ s.queue = []

omit [DecidableEq W] in
theorem signal_signalled (w : Worker F) : w.signal ≠ .sleeping false := by
  cases w <;> simp [Worker.signal]

omit [DecidableEq W] in
theorem idles_of_broadcast (hworkers : ∀ w, ∃ w₀ : Worker F, s.workers w = w₀.signal) : Idles s := by
  intro w hw
  obtain ⟨w₀, hw₀⟩ := hworkers w
  exact absurd (hw₀.symm.trans hw) (signal_signalled w₀)

omit [DecidableEq W] in
theorem workerTpl_sleeping (hsleep : s.workerTpl.2 = .sleeping false) :
    s.run = true ∧ s.allowNewJobs = true ∧ s.queue = [] := by
  unfold Pool.workerTpl at hsleep
  split_ifs at hsleep with hwait
  simpa [and_assoc] using hwait

theorem Idles.work (hs : Idles s) (w : W) : Idles (s.work w) := by
  intro v hv
  unfold Pool.work Pool.setWorker at hv ⊢
  simp only at hv ⊢
  by_cases hvw : v = w
  · subst hvw
    rw [Function.update_self] at hv
    have hidle := workerTpl_sleeping hv
    -- it found nothing to do, so it has changed nothing
    obtain h | h | ⟨job, queue, hqueue, -, -⟩ := workerTpl_cases s
    · rwa [h]
    · rwa [h]
    · rw [hidle.2.2] at hqueue
      cases hqueue
  · rw [Function.update_of_ne hvw] at hv
    obtain h | h | ⟨job, queue, hqueue, -, h⟩ := workerTpl_cases s
    · rw [h] at hv ⊢
      exact hs v hv
    · rw [h] at hv ⊢
      exact hs v hv
    · rw [h] at hv
      obtain ⟨-, -, hnil⟩ := hs v hv
      rw [hqueue] at hnil
      cases hnil

theorem Idles.step (hs : Idles s) (hstep : Step s a s') : Idles s' := by
  cases hstep with
  | @post job room _ =>
    unfold Pool.threadPoolPostJob
    split_ifs with hallow
    · refine idles_of_broadcast fun w => ⟨s.workers w, ?_⟩
      unfold Pool.broadcastJob Pool.pushJob
      split_ifs <;> rfl
    · exact hs
  | lock _ => exact hs.work _
  | wake _ => exact hs.work _
  | @back w job _ =>
    intro v hv
    unfold Pool.setWorker at hv
    simp only at hv
    by_cases hvw : v = w
    · rw [hvw, Function.update_self] at hv
      cases hv
    · rw [Function.update_of_ne hvw] at hv
      exact hs v hv
  | @stop waitForStop _ =>
    unfold Pool.threadPoolStop
    simp only
    split_ifs
    · exact idles_of_broadcast fun w => ⟨s.workers w, rfl⟩
    · exact idles_of_broadcast fun w => ⟨(s.workers w).signal, rfl⟩
  | wakeStop _ => exact idles_of_broadcast fun w => ⟨s.workers w, rfl⟩
  | join _ _ => exact hs

/-- In every state a worker that waits unsignalled waits for a post that may still come, and a
stopper that waits unsignalled waits for jobs that are still in the queue. -/
theorem no_lost_wake_up {h : List (Pool W F × Action W F)} (r : Run Step threadPoolInit h s) :
    (∀ w, s.workers w = .sleeping false → s.run = true ∧ s.allowNewJobs = true ∧ s.queue = []) ∧
    (s.stopper = .waiting false → s.run = true ∧ s.queue ≠ []) := by
  constructor
  · apply r.invariant (I := Idles)
    · intro w hw
      cases hw
    · intro s a s' hs hstep
      exact hs.step hstep
  · intro hwait
    have hs := (flagged r).invariant
    unfold Invariant at hs
    rw [hwait] at hs
    obtain ⟨hrun, -, hsignal⟩ := hs
    exact ⟨hrun, fun hnil => Bool.false_ne_true (hsignal.mpr hnil)⟩

/-- The first worker finds no job and waits. -/
theorem no_lost_wake_up_waiting :
    let s := (threadPoolInit : Pool (Fin 2) ℕ).work 0
    s.workers 0 = .sleeping false ∧ s.run = true ∧ s.allowNewJobs = true ∧ s.queue = [] := by
  have hlock : Step (threadPoolInit : Pool (Fin 2) ℕ) (.lock 0) (threadPoolInit.work 0) := .lock rfl
  exact ⟨rfl, (no_lost_wake_up (.next .start hlock)).1 0 rfl⟩

end Chats.ThreadPool
