import Chats.IoService.LookupTable
import Chats.Lib.Since

/-! # Threads around the io service

Every function of the service takes `object_mutex` once, so its callers are the requests below, in
any order. A thread in `io_service_run` lets go of the mutex in `epoll_wait` and around each call
of a job; a job that posts, removes or stops is one more caller. -/
namespace Chats.IoService
open Chats.Lib
set_option autoImplicit false

variable {F T : Type}

/-- The calls of other threads and of the jobs themselves. -/
inductive Request (F : Type)
  | post (fd : ℤ) (op : SvcOp) (oneshot : Bool) (job : Option F) (ctx : UInt64)
  | remove (fd : ℤ) (op : SvcOp) (job : Option F) (ctx : UInt64)
  | stop (waitPending : Bool)

def Request.apply [DecidableEq F] (s : Service F) : Request F → Service F
  | .post fd op oneshot job ctx => ioServicePostJob s fd op oneshot job ctx
  | .remove fd op job ctx => ioServiceRemoveJob s fd op job ctx
  | .stop waitPending => ioServiceStop s waitPending

/-- What the thread of the loop does next: it enters the function, `epoll_wait` fails or delivers
an event, it calls the job it has picked, or the job returns. -/
inductive Move
  | run
  | interrupted
  | wake (fd : ℤ) (events : UInt32)
  | call
  | back

def turn (s : Service F) : Loop F → Move → Option (Service F × Loop F)
  | .idle, .run => some (ioServiceRun s)
  | .waiting, .interrupted => some (whileRunning s)
  | .waiting, .wake fd events => some (wake s fd events)
  | .picked c, .call => some (s, .invoking c)
  | .invoking c, .back => some (dispatch s c.fd c.events c.rest)
  | _, _ => none

/-- The turns by what they do with the service. -/
inductive Turn (s : Service F) : Loop F → Move → Service F × Loop F → Prop
  | run : Turn s .idle .run (ioServiceRun s)
  | interrupted : Turn s .waiting .interrupted (whileRunning s)
  | notified (events : UInt32) : Turn s .waiting (.wake s.eventFd events) (whileRunning (handleNotification s))
  | event {fd : ℤ} (events : UInt32) : fd ≠ s.eventFd →
      Turn s .waiting (.wake fd events) (dispatch s fd events allOps)
  | call (c : Call F) : Turn s (.picked c) .call (s, .invoking c)
  | back (c : Call F) : Turn s (.invoking c) .back (dispatch s c.fd c.events c.rest)

theorem turn_cases {s : Service F} {loop : Loop F} {m : Move} {r : Service F × Loop F}
    (h : turn s loop m = some r) : Turn s loop m r := by
  unfold turn at h
  split at h
  · exact Option.some.inj h ▸ .run
  · exact Option.some.inj h ▸ .interrupted
  · rename_i fd events
    rw [← Option.some.inj h]
    unfold wake
    split_ifs with hfd
    · exact hfd ▸ .notified events
    · exact .event events hfd
  · exact Option.some.inj h ▸ .call _
  · exact Option.some.inj h ▸ .back _
  · cases h

/-! ## Any number of loops -/

/-- The service with the threads that may enter `io_service_run`. -/
structure Threads (T F : Type) where
  svc : Service F
  loop : T → Loop F

def startThreads (eventFd : ℤ) : Threads T F := { svc := ioServiceInit eventFd, loop := fun _ => .idle }

inductive ThreadAction (T F : Type)
  | request (q : Request F)
  | move (thread : T) (m : Move)

/-- Any event may be delivered to any thread. -/
inductive ThreadStep [DecidableEq F] [DecidableEq T] : Threads T F → ThreadAction T F → Threads T F → Prop
  | request {s : Threads T F} (q : Request F) : ThreadStep s (.request q) { s with svc := q.apply s.svc }
  | move {s : Threads T F} {thread : T} {m : Move} {r : Service F × Loop F} :
      turn s.svc (s.loop thread) m = some r →
      ThreadStep s (.move thread m) { svc := r.1, loop := Function.update s.loop thread r.2 }

section validity
variable {s : Service F}

theorem valid_apply [DecidableEq F] (hv : Valid s.lookupTable) (q : Request F) :
    Valid (q.apply s).lookupTable := by
  cases q with
  | post fd op oneshot job ctx =>
    cases job with
    | none =>
      show Valid (ioServicePostJob s fd op oneshot none ctx).lookupTable
      rwa [post_refused oneshot ctx (Or.inr rfl)]
    | some f => exact valid_post oneshot f ctx hv
  | remove fd op job ctx => exact valid_remove hv
  | stop waitPending => exact hv

theorem valid_dispatch (hv : Valid s.lookupTable) (fd : ℤ) (events : UInt32) (ops : List SvcOp) :
    Valid (dispatch s fd events ops).1.lookupTable := by
  cases dispatch_cases s fd events ops with
  | inl hwhile => rwa [hwhile]
  | inr hpick =>
    obtain ⟨e, op, rest, job, -, -, hpick⟩ := hpick
    rw [hpick]
    exact valid_pick hv e op

theorem valid_turn {loop : Loop F} {m : Move} {r : Service F × Loop F} (hv : Valid s.lookupTable)
    (h : turn s loop m = some r) : Valid r.1.lookupTable := by
  cases turn_cases h with
  | run => exact hv
  | interrupted => exact hv
  | notified events => exact valid_handleNotification hv
  | event events hfd => exact valid_dispatch hv _ events allOps
  | call c => exact hv
  | back c => exact valid_dispatch hv c.fd c.events c.rest

end validity

/-! ## What a request changes -/

section requests
variable [DecidableEq F] (s : Service F)

/-- Requests leave the interest set alone, and only add notifications. -/
theorem apply_frame (q : Request F) : (q.apply s).eventFd = s.eventFd ∧
    (q.apply s).epoll = s.epoll ∧ s.notified ≤ (q.apply s).notified := by
  cases q with
  | post fd op oneshot job ctx => exact (post_frame oneshot ctx job).2
  | remove fd op job ctx => exact remove_frame.2
  | stop waitPending => exact ⟨rfl, rfl, Nat.le_succ _⟩

/-- No request takes an element out of the table. -/
theorem fds_apply (q : Request F) {fd : ℤ} (hmem : fd ∈ s.lookupTable.map (·.fd)) :
    fd ∈ (q.apply s).lookupTable.map (·.fd) := by
  cases q with
  | post fd' op oneshot job ctx =>
    have hfound : fd ∈ (s.findOrAppend fd').lookupTable.map (·.fd) := by
      unfold Service.findOrAppend
      split_ifs
      · exact hmem
      · rw [List.map_append]
        exact List.mem_append_left _ hmem
    have hset : ∀ j, fd ∈ (s.posted fd' op j).lookupTable.map (·.fd) := by
      intro j
      unfold Service.posted Service.rewrite
      simp only
      rwa [keys_rewrite_total]
      exact fun e => ⟨_, rfl, rfl⟩
    show fd ∈ (ioServicePostJob s fd' op oneshot job ctx).lookupTable.map (·.fd)
    unfold ioServicePostJob
    split_ifs
    · simp only [find_findOrAppend]
      split_ifs
      · exact hfound
      · exact hset _
      · exact hset _
    · exact hmem
  | remove fd' op job ctx =>
    show fd ∈ (ioServiceRemoveJob s fd' op job ctx).lookupTable.map (·.fd)
    unfold ioServiceRemoveJob
    simp only
    rw [lookupTable_ite_notify]
    simp only
    rwa [keys_rewrite_total]
    exact fun e => ⟨_, rfl, rfl⟩
  | stop waitPending => exact hmem

/-- While the loop runs it is told of everything that changes. -/
theorem apply_running (hrunning : s.running = true) (q : Request F) :
    q.apply s = s ∨ (q.apply s).notified = s.notified + 1 := by
  cases q with
  | post fd op oneshot job ctx =>
    show ioServicePostJob s fd op oneshot job ctx = s ∨ (ioServicePostJob s fd op oneshot job ctx).notified = _
    by_cases hrefuse : s.allowNew = false ∨ job = none
    · exact Or.inl (post_refused oneshot ctx hrefuse)
    · obtain ⟨hallow, hjob⟩ := not_or.mp hrefuse
      rw [Bool.not_eq_false] at hallow
      obtain ⟨f, rfl⟩ := Option.ne_none_iff_exists'.mp hjob
      cases hreg : registry s (fd, op) with
      | some j => exact Or.inl (post_taken_eq oneshot f ctx hreg)
      | none =>
        obtain ⟨-, hsame, -, hnotified, -⟩ := findOrAppend_frame s fd
        have hrun : (s.posted fd op { job := some f, ctx, oneshot }).running = true := hsame.trans hrunning
        refine Or.inr ?_
        rw [post_free oneshot f ctx hallow hreg]
        simp only [hrun, if_true]
        exact congrArg (· + 1) hnotified
  | remove fd op job ctx =>
    show ioServiceRemoveJob s fd op job ctx = s ∨ (ioServiceRemoveJob s fd op job ctx).notified = _
    cases hany : s.lookupTable.any (·.holds fd op job ctx) with
    | false => exact Or.inl (remove_absent hany)
    | true =>
      refine Or.inr ?_
      unfold ioServiceRemoveJob
      simp only [hany, hrunning, Bool.and_self, if_true]
      rfl
  | stop waitPending => exact Or.inr rfl

end requests

/-- One element for a descriptor; a flag is set exactly if its slot has a job, and there are no
other flags. -/
def TableOk (table : List (LookupTableElement F)) : Prop :=
  (table.map (·.fd)).Nodup ∧ ∀ e ∈ table,
    (∀ op, e.events &&& op.flag ≠ 0 ↔ (e.job op).job ≠ none) ∧
    e.events &&& ~~~(SvcOp.read.flag ||| SvcOp.write.flag) = 0

theorem flags_bits : ∀ reads writes, (flags reads writes &&& SvcOp.read.flag ≠ 0 ↔ reads = true) ∧
    (flags reads writes &&& SvcOp.write.flag ≠ 0 ↔ writes = true) ∧
    flags reads writes &&& ~~~(SvcOp.read.flag ||| SvcOp.write.flag) = 0 := by decide

theorem mask_flag (job : SvcOp → Job F) (op : SvcOp) : mask job &&& op.flag ≠ 0 ↔ (job op).job ≠ none := by
  obtain ⟨hread, hwrite, -⟩ := flags_bits (job .read).job.isSome (job .write).job.isSome
  rw [← Option.isSome_iff_ne_none]
  cases op with
  | read => exact hread
  | write => exact hwrite

theorem Valid.tableOk {table : List (LookupTableElement F)} (hv : Valid table) : TableOk table := by
  refine ⟨hv.unique, ?_⟩
  intro e he
  rw [hv.flags e he]
  exact ⟨mask_flag e.job, (flags_bits _ _).2.2⟩

/-- Through every order of posts, removals, stops and the steps of any number of loops, the table
keeps one element for a descriptor and the masks say which slots have a job. -/
theorem lookup_table_ok [DecidableEq F] [DecidableEq T] {eventFd : ℤ}
    {h : List (Threads T F × ThreadAction T F)} {s : Threads T F}
    (r : Run ThreadStep (startThreads eventFd) h s) : TableOk s.svc.lookupTable := by
  apply Valid.tableOk
  apply r.invariant (I := fun s => Valid s.svc.lookupTable) valid_nil
  intro s a s' hv hstep
  cases hstep with
  | request q => exact valid_apply hv q
  | move hturn => exact valid_turn hv hturn

/-- Two threads in the loop: one takes the one-shot job of a descriptor, and the other one learns that the job of
another descriptor is removed. -/
theorem lookup_table_ok_two_loops : ∃ s : Threads Bool ℕ,
    s.svc.lookupTable.map (·.fd) = [5] ∧ s.svc.notified = 3 ∧ TableOk s.svc.lookupTable := by
  have r₁ : Run ThreadStep (startThreads (T := Bool) (F := ℕ) 3) _ _ := .next .start
    (show ThreadStep _ (.move true .run) _ from .move rfl)
  have r₂ := r₁.next (show ThreadStep _ (.move false .run) _ from .move rfl)
  have r₃ := r₂.next (.request (.post 5 .read true (some 0) 1))
  have r₄ := r₃.next (.request (.post 5 .write false (some 2) 1))
  have r₅ := r₄.next (.request (.post 6 .read false (some 4) 1))
  have r₆ := r₅.next (show ThreadStep _ (.move true (.wake 5 1)) _ from .move rfl)
  have r₇ := r₆.next (.request (.remove 6 .read (some 4) 1))
  have r₈ := r₇.next (show ThreadStep _ (.move false (.wake 3 1)) _ from .move rfl)
  exact ⟨_, rfl, rfl, lookup_table_ok r₈⟩

/-! ## One loop -/

structure State (F : Type) where
  svc : Service F
  loop : Loop F

def start (eventFd : ℤ) : State F := { svc := ioServiceInit eventFd, loop := .idle }

inductive Action (F : Type)
  | request (q : Request F)
  | move (m : Move)

/-- Only the thread of the loop changes the interest set, so what `epoll_wait` delivers could still
be delivered when the mutex is taken. -/
def Move.possible (s : Service F) : Move → Bool
  | .wake fd events => Fires s fd events
  | _ => true

def step [DecidableEq F] (s : State F) : Action F → Option (State F)
  | .request q => some { s with svc := q.apply s.svc }
  | .move m => if m.possible s.svc then (turn s.svc s.loop m).map fun r => { svc := r.1, loop := r.2 } else none

def Step [DecidableEq F] (s : State F) (a : Action F) (s' : State F) : Prop := step s a = some s'

section steps
variable [DecidableEq F] {s s' : State F}

theorem step_request {q : Request F} (h : Step s (.request q) s') : s' = { s with svc := q.apply s.svc } :=
  (Option.some.inj h).symm

theorem step_move {m : Move} (h : Step s (.move m) s') :
    m.possible s.svc = true ∧ turn s.svc s.loop m = some (s'.svc, s'.loop) := by
  unfold Step step at h
  simp only at h
  split_ifs at h with hpossible
  obtain ⟨r, hturn, rfl⟩ := Option.map_eq_some_iff.mp h
  exact ⟨hpossible, hturn⟩

theorem valid_step {a : Action F} (hv : Valid s.svc.lookupTable) (h : Step s a s') :
    Valid s'.svc.lookupTable := by
  cases a with
  | request q =>
    rw [step_request h]
    exact valid_apply hv q
  | move m => exact valid_turn hv (step_move h).2

theorem Step.unique {a : Action F} {s'' : State F} (h : Step s a s') (h' : Step s a s'') : s' = s'' :=
  Option.some.inj (h.symm.trans h')

end steps

/-- The run of these actions from the start. -/
def played [DecidableEq F] (eventFd : ℤ) (as : List (Action F)) : Option (List (State F × Action F) × State F) :=
  Run.replay step ([], start eventFd) as

theorem run_played [DecidableEq F] (eventFd : ℤ) (as : List (Action F)) {h : List (State F × Action F)}
    {s : State F} (hplayed : played eventFd as = some (h, s)) : Run Step (start eventFd) h s :=
  Run.of_replay .start hplayed

end Chats.IoService
