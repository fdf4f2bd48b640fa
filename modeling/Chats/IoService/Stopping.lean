import Chats.IoService.Moves

/-! # Stopping the loop

`io_service_stop` only sets flags and notifies. Draining ends where the loop handles a notification
and finds the table empty; stopping at once ends where the loop comes back to the head of its
`while`. Both tests can come too early or too late. -/
namespace Chats.IoService
open Chats.Lib
set_option autoImplicit false

variable {F : Type} [DecidableEq F]

def Stops (waitPending : Bool) (_ : State F) (a : Action F) : Prop := a = .request (.stop waitPending)

/-! ## Draining -/

omit [DecidableEq F] in
/-- Blocked with no jobs left and none allowed: nothing will ever be delivered. -/
def State.Stuck (s : State F) : Prop :=
  s.loop = .waiting ∧ s.svc.allowNew = false ∧ s.svc.lookupTable = [] ∧ s.svc.notified = 0

omit [DecidableEq F] in
def State.Drained (s : State F) : Prop :=
  s.loop.Active ∧ s.svc.allowNew = false ∧ s.svc.lookupTable = [] ∧ s.svc.notified = 0

/-- With nothing pending any more, the last job of the table is dispatched and is one-shot. -/
def LastTaken (s : State F) (a : Action F) : Prop :=
  s.svc.allowNew = false ∧ s.svc.notified = 0 ∧ s.svc.lookupTable.length = 1 ∧
    ∃ c p, Decides c s a ∧ registry s.svc (c.fd, c.op) = some p ∧ p.oneshot = true ∧
      ∀ op, op ≠ c.op → registry s.svc (c.fd, op) = none

omit [DecidableEq F] in
/-- The last notification is handled and finds elements, but none with a job. -/
def LastSwept (s : State F) (a : Action F) : Prop :=
  (∃ events, a = .move (.wake s.svc.eventFd events)) ∧ s.svc.running = true ∧ s.svc.allowNew = false ∧
    s.svc.notified = 1 ∧ s.svc.lookupTable ≠ [] ∧ ∀ e ∈ s.svc.lookupTable, e.events = 0

omit [DecidableEq F] in
theorem lookupTable_ne_nil {s : Service F} {fd : ℤ} {op : SvcOp} {p : Posted F}
    (hreg : registry s (fd, op) = some p) : s.lookupTable ≠ [] := by
  intro hnil
  obtain ⟨e, hfind, -⟩ := Option.bind_eq_some_iff.mp hreg
  have hmem := (findKey_some hfind).1
  rw [hnil] at hmem
  cases hmem

theorem drained_request {s : State F} (hs : Awake s) (q : Request F) :
    State.Drained { s with svc := q.apply s.svc } ↔
      s.Drained ∧ ¬ ∃ waitPending, Stops waitPending s (.request q) := by
  have hquiet : State.Drained { s with svc := q.apply s.svc } → s.Drained := by
    intro hdrained
    have hsame := hs.quiet hdrained.1 hdrained.2.2.2
    rwa [hsame] at hdrained
  -- with no jobs and none allowed there is nothing to post or remove
  have hnothing : s.Drained → q.apply s.svc = s.svc → State.Drained { s with svc := q.apply s.svc } := by
    intro hdrained hsame
    rwa [hsame]
  cases q with
  | post fd op oneshot job ctx =>
    have hends : ¬ ∃ waitPending, Stops waitPending s (.request (.post fd op oneshot job ctx)) := by
      simp [Stops]
    rw [and_iff_left hends]
    exact ⟨hquiet, fun hdrained => hnothing hdrained (post_refused oneshot ctx (Or.inl hdrained.2.1))⟩
  | remove fd op job ctx =>
    have hends : ¬ ∃ waitPending, Stops waitPending s (.request (.remove fd op job ctx)) := by
      simp [Stops]
    rw [and_iff_left hends]
    exact ⟨hquiet, fun hdrained => hnothing hdrained (remove_absent (by rw [hdrained.2.2.1]; rfl))⟩
  | stop waitPending =>
    apply iff_of_false
    · intro hdrained
      cases hdrained.2.2.2
    · intro hkept
      exact hkept.2 ⟨waitPending, rfl⟩

omit [DecidableEq F] in
theorem fires_notified {s : Service F} {events : UInt32} (h : Fires s s.eventFd events = true) :
    0 < s.notified := by
  unfold Fires at h
  split at h
  · cases h
  · simp only [Bool.and_eq_true, bne_self_eq_false, Bool.false_or, decide_eq_true_eq] at h
    exact h.2

omit [DecidableEq F] in
/-- The notification that leaves nothing behind: handled as the last one it lets the loop go on. -/
theorem drained_notified {s s' : State F} {events : UInt32} (hpending : 0 < s.svc.notified)
    (hs' : s' = { svc := handleNotification s.svc, loop := (whileRunning (handleNotification s.svc)).2 }) :
    s'.Drained ↔ LastSwept s (.move (.wake s.svc.eventFd events)) := by
  have htable : (handleNotification s.svc).lookupTable = [] ↔ ∀ e ∈ s.svc.lookupTable, e.events = 0 := by
    show (refresh s.svc.epoll s.svc.lookupTable).2 = [] ↔ _
    rw [refresh_table, List.filter_eq_nil_iff]
    simp
  have hrunning : (handleNotification s.svc).running = true ↔
      s.svc.running = true ∧ ¬ (s.svc.lookupTable = [] ∧ s.svc.allowNew = false) := by
    show (s.svc.running && !(s.svc.lookupTable.isEmpty && !s.svc.allowNew)) = true ↔ _
    rw [Bool.and_eq_true, ← List.isEmpty_iff, and_congr_right_iff]
    intro _
    cases s.svc.lookupTable.isEmpty <;> cases s.svc.allowNew <;> simp
  have hactive : s'.loop.Active ↔ (handleNotification s.svc).running = true := by
    rw [hs']
    obtain ⟨hrun, hloop⟩ | ⟨hrun, hloop⟩ := whileRunning_cases (handleNotification s.svc)
    · simp [hrun, hloop, Loop.Active]
    · simp [hrun, hloop, Loop.Active]
  unfold State.Drained LastSwept
  rw [hactive, hrunning, hs']
  simp only
  rw [htable]
  constructor
  · intro hdrained
    obtain ⟨⟨hrun, hmore⟩, hallow, hempty, hz⟩ := hdrained
    have hone : s.svc.notified - 1 = 0 := hz
    exact ⟨⟨events, rfl⟩, hrun, hallow, by omega, fun hnil => hmore ⟨hnil, hallow⟩, hempty⟩
  · intro hswept
    obtain ⟨-, hrun, hallow, hone, hmore, hempty⟩ := hswept
    refine ⟨⟨hrun, fun hboth => hmore hboth.1⟩, hallow, hempty, ?_⟩
    show s.svc.notified - 1 = 0
    omega

theorem LastTaken.picked {s s' : State F} {m : Move} (hstep : Step s (.move m) s') (h : LastTaken s (.move m)) :
    ∃ c, s'.loop = .picked c := by
  obtain ⟨-, -, -, c, p, hc, -⟩ := h
  exact ⟨c, (decides_iff hstep c).mp hc⟩

omit [DecidableEq F] in
theorem not_lastSwept {s : State F} {m : Move} (hwake : ∀ events, m ≠ .wake s.svc.eventFd events) :
    ¬ LastSwept s (.move m) := by
  intro hswept
  obtain ⟨⟨events, heq⟩, -⟩ := hswept
  exact hwake events (Action.move.inj heq)

omit [DecidableEq F] in
theorem not_drained {s : State F} {fd : ℤ} {op : SvcOp} {p : Posted F} (hreg : registry s.svc (fd, op) = some p) :
    ¬ s.Drained := fun hdrained => lookupTable_ne_nil hreg hdrained.2.2.1

/-- A loop that is entered after the stop has its notification before it. -/
theorem drained_run {s : State F} (hs : Awake s) (hloop : s.loop = .idle)
    (hstep : Step s (.move .run) { svc := (ioServiceRun s.svc).1, loop := .waiting }) :
    State.Drained { svc := (ioServiceRun s.svc).1, loop := .waiting } ↔
      (LastTaken s (.move .run) ∨ LastSwept s (.move .run)) ∨ s.Drained := by
  apply iff_of_false
  · intro hdrained
    have hpending := hs.stopped hloop hdrained.2.1
    have hz : s.svc.notified = 0 := hdrained.2.2.2
    omega
  · rintro ((htaken | hswept) | hdrained)
    · obtain ⟨c, hc⟩ := htaken.picked hstep
      cases hc
    · exact not_lastSwept (by simp) hswept
    · rw [State.Drained, hloop] at hdrained
      exact hdrained.1

/-- A move that changes nothing. -/
theorem drained_same {s s' : State F} {m : Move} (hs : Awake s) (hstep : Step s (.move m) s')
    (hactive : s.loop.Active) (hwake : ∀ events, m ≠ .wake s.svc.eventFd events) (hsvc : s'.svc = s.svc)
    (hactive' : s'.loop.Active ∨ (s'.loop = .returned ∧ s.svc.running = false))
    (hpersist : ∀ c, s'.loop = .picked c → ∃ p, registry s.svc (c.fd, c.op) = some p ∧ p.oneshot = false) :
    s'.Drained ↔ (LastTaken s (.move m) ∨ LastSwept s (.move m)) ∨ s.Drained := by
  have hsets : ¬ (LastTaken s (.move m) ∨ LastSwept s (.move m)) := by
    intro hsets
    cases hsets with
    | inl htaken =>
      obtain ⟨-, -, -, c, p, hc, hreg, hone, -⟩ := htaken
      obtain ⟨p', hreg', hone'⟩ := hpersist c ((decides_iff hstep c).mp hc)
      obtain rfl := Option.some.inj (hreg.symm.trans hreg')
      rw [hone] at hone'
      cases hone'
    | inr hswept => exact not_lastSwept hwake hswept
  rw [or_iff_right hsets]
  unfold State.Drained
  rw [hsvc]
  constructor
  · intro hdrained
    exact ⟨hactive, hdrained.2⟩
  · intro hdrained
    refine ⟨hactive'.resolve_right ?_, hdrained.2⟩
    intro hreturned
    have hrunning := hs.running hactive hdrained.2.2.2
    rw [hreturned.2] at hrunning
    cases hrunning

/-- The element goes with its last job. -/
theorem drained_last {s s' : State F} {m : Move} (hs : Awake s) (hstep : Step s (.move m) s') {c : Call F}
    {p : Posted F} (hwake : ∀ events, m ≠ .wake s.svc.eventFd events) (hloop : s'.loop = .picked c)
    (hreg : registry s.svc (c.fd, c.op) = some p) (hone : p.oneshot = true)
    (hothers : ∀ op, op ≠ c.op → registry s.svc (c.fd, op) = none)
    (hsvc : s'.svc = { s.svc.rewrite c.fd (afterPick c.op) with epoll := s.svc.epoll.del c.fd })
    (hgone : s'.svc.find c.fd = none) :
    s'.Drained ↔ (LastTaken s (.move m) ∨ LastSwept s (.move m)) ∨ s.Drained := by
  rw [or_iff_left (not_drained hreg), or_iff_left (not_lastSwept hwake)]
  obtain ⟨e, hfind, -⟩ := Option.bind_eq_some_iff.mp hreg
  have hdropped : afterPick c.op e = none := by
    rw [hsvc] at hgone
    rw [← Option.bind_some (f := afterPick c.op) e, ← hfind, ← find_rewrite_self (afterPick_fd c.op) hs.valid]
    exact hgone
  have hlength := length_rewrite_of_none hfind hdropped
  have htable : s'.svc.lookupTable = [] ↔ s.svc.lookupTable.length = 1 := by
    rw [hsvc, ← List.length_eq_zero_iff, ← hlength]
    simp [Service.rewrite]
  unfold State.Drained
  rw [htable, hsvc, hloop]
  constructor
  · intro hdrained
    obtain ⟨-, hallow, hlast, hz⟩ := hdrained
    exact ⟨hallow, hz, hlast, c, p, (decides_iff hstep c).mpr hloop, hreg, hone, hothers⟩
  · intro htaken
    obtain ⟨hallow, hz, hlast, -⟩ := htaken
    exact ⟨trivial, hallow, hlast, hz⟩

/-- The element stays with its other job. -/
theorem drained_half {s s' : State F} {m : Move} (hstep : Step s (.move m) s') {c : Call F} {p : Posted F}
    {e : LookupTableElement F} (hwake : ∀ events, m ≠ .wake s.svc.eventFd events) (hloop : s'.loop = .picked c)
    (hreg : registry s.svc (c.fd, c.op) = some p)
    (hother : ∃ op, op ≠ c.op ∧ registry s.svc (c.fd, op) ≠ none) (hleft : s'.svc.find c.fd = some e) :
    s'.Drained ↔ (LastTaken s (.move m) ∨ LastSwept s (.move m)) ∨ s.Drained := by
  apply iff_of_false
  · intro hdrained
    have hmem := (findKey_some hleft).1
    rw [hdrained.2.2.1] at hmem
    cases hmem
  · rintro ((htaken | hswept) | hdrained)
    · obtain ⟨-, -, -, c', p', hc', -, -, hothers⟩ := htaken
      obtain rfl := Loop.picked.inj (hloop.symm.trans ((decides_iff hstep c').mp hc'))
      obtain ⟨op, hne, hsome⟩ := hother
      exact hsome (hothers op hne)
    · exact not_lastSwept hwake hswept
    · exact not_drained hreg hdrained

theorem drained_move {s s' : State F} {m : Move} (hs : Awake s) (hstep : Step s (.move m) s') :
    s'.Drained ↔ (LastTaken s (.move m) ∨ LastSwept s (.move m)) ∨ s.Drained := by
  cases move_effect hs.valid hstep with
  | run hloop hm hs' =>
    subst hm hs'
    exact drained_run hs hloop hstep
  | notified events hloop hm hs' =>
    subst hm
    have hpending : 0 < s.svc.notified := fires_notified (step_move hstep).1
    have hidle : ¬ LastTaken s (.move (.wake s.svc.eventFd events)) := by
      intro htaken
      obtain ⟨c, hc⟩ := htaken.picked hstep
      rw [hs'] at hc
      exact whileRunning_ne_picked _ c hc
    have hnot : ¬ s.Drained := fun hdrained => hpending.ne' hdrained.2.2.2
    rw [or_iff_right hidle, or_iff_left hnot]
    exact drained_notified hpending hs'
  | same hactive hrun hwake hsvc hactive' hpersist => exact drained_same hs hstep hactive hwake hsvc hactive' hpersist
  | last c p hactive hrun hwake hloop hreg hone hothers hsvc hgone =>
    exact drained_last hs hstep hwake hloop hreg hone hothers hsvc hgone
  | half c p e hactive hrun hwake hloop hreg hone hother hsvc hfind hleft =>
    exact drained_half hstep hwake hloop hreg hother hleft

/-- The loop has run dry if its last job was taken too late for the test, and no other stop came since. -/
theorem drained_iff_since {eventFd : ℤ} {h : List (State F × Action F)} {s : State F}
    (r : Run Step (start eventFd) h s) : s.Drained ↔
      Since (fun s a => LastTaken s a ∨ LastSwept s a) (fun s a => ∃ waitPending, Stops waitPending s a) h := by
  apply r.since_iff (awake_start eventFd)
  · exact fun hdrained => hdrained.1.elim
  · exact fun s a s' hs hstep => hs.step hstep
  · intro s a s' hs hstep
    cases a with
    | request q =>
      have hsets : ¬ (LastTaken s (.request q) ∨ LastSwept s (.request q)) := by
        intro hsets
        cases hsets with
        | inl htaken =>
          obtain ⟨-, -, -, c, p, hc, -⟩ := htaken
          exact not_decides_request hc
        | inr hswept =>
          obtain ⟨⟨events, heq⟩, -⟩ := hswept
          cases heq
      rw [step_request hstep, or_iff_right hsets]
      exact drained_request hs q
    | move m =>
      have hends : ¬ ∃ waitPending, Stops waitPending s (.move m) := by
        intro hends
        obtain ⟨waitPending, heq⟩ := hends
        cases heq
      rw [and_iff_left hends]
      exact drained_move hs hstep

/-- The loop never blocks for good while it drains, exactly if it never comes to `epoll_wait` after its
last job was taken, or its last element swept, with no notification pending. -/
theorem never_stuck_iff {eventFd : ℤ} {h : List (State F × Action F)} {s : State F}
    (r : Run Step (start eventFd) h s) : (∀ m ∈ moments h s, ¬ m.2.Stuck) ↔
      ∀ m ∈ moments h s, m.2.loop = .waiting →
        ¬ Since (fun s a => LastTaken s a ∨ LastSwept s a) (fun s a => ∃ waitPending, Stops waitPending s a) m.1 := by
  have hiff : ∀ m ∈ moments h s, m.2.Stuck ↔ m.2.loop = .waiting ∧
      Since (fun s a => LastTaken s a ∨ LastSwept s a) (fun s a => ∃ waitPending, Stops waitPending s a) m.1 := by
    intro m hm
    rw [← drained_iff_since (r.of_mem_moments m hm)]
    unfold State.Stuck State.Drained
    rw [and_congr_right_iff]
    intro hloop
    rw [hloop]
    simp [Loop.Active]
  constructor
  · intro hall m hm hloop hsince
    exact hall m hm ((hiff m hm).mpr ⟨hloop, hsince⟩)
  · intro hall m hm hstuck
    obtain ⟨hloop, hsince⟩ := (hiff m hm).mp hstuck
    exact hall m hm hloop hsince

/-- No job at all, and the notification ends the loop. -/
def nothingToDrain : List (Action ℕ) := [.move .run, .request (.stop true), .move (.wake 3 1)]

theorem never_stuck_nothing : ∃ h s, played 3 nothingToDrain = some (h, s) ∧ s.loop = .returned ∧
    ∀ m ∈ moments h s, ¬ m.2.Stuck := by
  refine ⟨_, _, rfl, rfl, (never_stuck_iff (run_played 3 nothingToDrain rfl)).mpr ?_⟩
  intro m hm hwaiting hsince
  simp only [moments, List.mem_cons, List.mem_nil_iff, or_false] at hm
  obtain rfl | rfl | rfl | rfl := hm
  · cases hwaiting
  · obtain (htaken | hswept) | hold := since_cons.mp hsince
    · cases htaken.1
    · obtain ⟨⟨events, heq⟩, -⟩ := hswept
      cases heq
    · exact hold.2 ⟨true, rfl⟩
  · obtain (htaken | hswept) | hold := since_cons.mp hsince
    · cases htaken.1
    · cases hswept.2.1
    · exact since_nil hold.1
  · cases hwaiting

/-- One job, dispatched once the stop's own notification was handled. -/
def lastJobLate : List (Action ℕ) :=
  [.request (.post 5 .read true (some 0) 1), .move .run, .request (.stop true), .move (.wake 3 1),
    .move (.wake 5 1), .move .call, .move .back]

theorem draining_stuck : ∃ h s, played 3 lastJobLate = some (h, s) ∧ s.Stuck :=
  ⟨_, _, rfl, rfl, rfl, rfl, rfl⟩

/-! ## Stopping at once -/

omit [DecidableEq F] in
/-- One of the operations of the event has a registered job. -/
def Finds (s : Service F) (fd : ℤ) (events : UInt32) (ops : List SvcOp) : Prop :=
  ∃ op ∈ ops, events &&& op.flag ≠ 0 ∧ registry s (fd, op) ≠ none

omit [DecidableEq F] in
/-- The loop gets to an event, or back to the rest of one, that names a registered job. -/
def Meets (s : State F) (a : Action F) : Prop :=
  (∃ fd events, a = .move (.wake fd events) ∧ s.loop = .waiting ∧ fd ≠ s.svc.eventFd ∧
    Finds s.svc fd events allOps) ∨
  ∃ c, a = .move .back ∧ s.loop = .invoking c ∧ Finds s.svc c.fd c.events c.rest

/-- Entering the loop sets `running` again, and so does a stop that waits for the pending jobs. -/
def Revives (_ : State F) (a : Action F) : Prop := a = .move .run ∨ a = .request (.stop true)

/-- Since the stop the thread of the loop has done nothing but call the job that it had picked: it is still at what
it had in hand, which is the next event while it waits, or the rest of the one whose job it calls. -/
def InHand (h : List (State F × Action F)) : Prop :=
  Since (Stops false) (fun _ a => a = .request (.stop true) ∨ ∃ m, a = .move m ∧ m ≠ .call) h

/-- The stop came and was undone. -/
def Revived (h : List (State F × Action F)) : Prop := Once (Stops false) h ∧ Since Revives (Stops false) h

/-- The step comes after one that `sets`. -/
def Follows (sets : State F → Action F → Prop) (h : List (State F × Action F)) (t : State F) (a : Action F) : Prop :=
  ∃ later earlier, h = later ++ (t, a) :: earlier ∧ Once sets earlier

omit [DecidableEq F] in
theorem dispatch_finds (s : Service F) (fd : ℤ) (events : UInt32) (ops : List SvcOp) :
    (∃ c, (dispatch s fd events ops).2 = .picked c) ↔ Finds s fd events ops := by
  induction ops with
  | nil =>
    apply iff_of_false
    · intro hpick
      obtain ⟨c, hc⟩ := hpick
      exact whileRunning_ne_picked s c hc
    · simp [Finds]
  | cons op ops ih =>
    have hcons : Finds s fd events (op :: ops) ↔
        (events &&& op.flag ≠ 0 ∧ registry s (fd, op) ≠ none) ∨ Finds s fd events ops := by
      simp [Finds]
    have hreg : registry s (fd, op) = (s.find fd).bind fun e => (e.job op).posted := rfl
    rw [hcons]
    unfold dispatch
    split_ifs with hevent
    · rw [ih, or_iff_right fun h => h.1 hevent]
    · cases hfind : s.find fd with
      | none =>
        rw [hfind] at hreg
        simp only
        rw [ih, or_iff_right fun h => h.2 hreg]
      | some e =>
        rw [hfind, Option.bind_some] at hreg
        cases hjob : (e.job op).job with
        | none =>
          simp only [hjob]
          rw [ih, or_iff_right fun h => h.2 (hreg.trans (Job.posted_eq_none.mpr hjob))]
        | some job =>
          simp only [hjob]
          refine iff_of_true ⟨_, rfl⟩ (Or.inl ⟨hevent, ?_⟩)
          rw [hreg, ne_eq, Job.posted_eq_none, hjob]
          exact Option.some_ne_none job

omit [DecidableEq F] in
theorem turn_meets {s : Service F} {loop : Loop F} {m : Move} {r : Service F × Loop F}
    (h : turn s loop m = some r) : (∃ c, r.2 = .picked c) ↔ Meets { svc := s, loop } (.move m) := by
  have hwhile : ∀ svc, ¬ ∃ c : Call F, (whileRunning svc).2 = .picked c :=
    fun svc hpick => whileRunning_ne_picked svc hpick.choose hpick.choose_spec
  cases turn_cases h with
  | run => exact iff_of_false (hwhile _) (by simp [Meets])
  | interrupted => exact iff_of_false (hwhile s) (by simp [Meets])
  | notified events => exact iff_of_false (hwhile _) (by simp [Meets])
  | call c => exact iff_of_false (by simp) (by simp [Meets])
  | event events hfd =>
    rw [dispatch_finds]
    simp [Meets, hfd]
  | back c =>
    rw [dispatch_finds]
    simp [Meets]

/-- A step of the loop decides exactly if it meets a registered job. -/
theorem decides_iff_meets {s s' : State F} {a : Action F} (hstep : Step s a s') :
    (∃ c, Decides c s a) ↔ Meets s a := by
  cases a with
  | request q =>
    exact iff_of_false (by simp [not_decides_request]) (by simp [Meets])
  | move m =>
    have hpick : (∃ c, Decides c s (.move m)) ↔ ∃ c, s'.loop = .picked c :=
      exists_congr (decides_iff hstep)
    rw [hpick]
    exact turn_meets (step_move hstep).2

/-! ### After the stop -/

section after
variable {h : List (State F × Action F)} {s s' : State F} {a : Action F}

theorem apply_keeps_running (s : Service F) {q : Request F} (hq : ∀ waitPending, q ≠ .stop waitPending) :
    (q.apply s).running = s.running := by
  cases q with
  | post fd op oneshot job ctx =>
    obtain ⟨-, hrunning, -⟩ := findOrAppend_frame s fd
    show (ioServicePostJob s fd op oneshot job ctx).running = s.running
    unfold ioServicePostJob
    split_ifs
    · simp only [find_findOrAppend]
      split_ifs
      · exact hrunning
      · exact hrunning
      · exact hrunning
    · rfl
  | remove fd op job ctx =>
    show (ioServiceRemoveJob s fd op job ctx).running = s.running
    unfold ioServiceRemoveJob
    simp only
    split_ifs
    · rfl
    · rfl
  | stop waitPending => exact absurd rfl (hq waitPending)

omit [DecidableEq F] in
theorem InHand.once (hin : InHand h) : Once (Stops false) h := by
  obtain ⟨later, t, b, earlier, rfl, hstop, -⟩ := hin
  exact ⟨later, t, b, earlier, rfl, hstop, by simp⟩

omit [DecidableEq F] in
theorem InHand.cons (hin : InHand h) (hwait : a ≠ .request (.stop true)) (hcall : ∀ m, a = .move m → m = .call) :
    InHand ((s, a) :: h) := by
  refine since_cons.mpr (.inr ⟨hin, ?_⟩)
  rintro (hstop | ⟨m, heq, hne⟩)
  · exact hwait hstop
  · exact hne (hcall m heq)

omit [DecidableEq F] in
theorem Revived.cons (hrev : Revived h) (hstop : a ≠ .request (.stop false)) : Revived ((s, a) :: h) :=
  ⟨once_cons.mpr (.inr hrev.1), since_cons.mpr (.inr ⟨hrev.2, hstop⟩)⟩

omit [DecidableEq F] in
theorem revived_cons (honce : Once (Stops false) h) (hrev : Revives s a) : Revived ((s, a) :: h) :=
  ⟨once_cons.mpr (.inr honce), since_cons.mpr (.inl hrev)⟩

/-- Where the stop leaves the loop: undone, at what it had in hand with `running` down, or past the loop. -/
def AfterStop (h : List (State F × Action F)) (s : State F) : Prop :=
  Revived h ∨ (InHand h ∧ s.svc.running = false) ∨ s.loop = .returned

omit [DecidableEq F] in
theorem whileRunning_stopped {s : Service F} (hrunning : s.running = false) : (whileRunning s).2 = .returned := by
  rw [whileRunning, hrunning]
  rfl

omit [DecidableEq F] in
/-- With `running` down, an event without a registered job takes the loop to its end. -/
theorem dispatch_stopped {s : Service F} (hrunning : s.running = false) {fd : ℤ} {events : UInt32} {ops : List SvcOp}
    (hfinds : ¬ Finds s fd events ops) : (dispatch s fd events ops).2 = .returned := by
  cases dispatch_cases s fd events ops with
  | inl hwhile =>
    rw [hwhile]
    exact whileRunning_stopped hrunning
  | inr hpick =>
    obtain ⟨e, op, rest, job, -, -, hpick⟩ := hpick
    exact absurd ((dispatch_finds s fd events ops).mp ⟨_, congrArg Prod.snd hpick⟩) hfinds

omit [DecidableEq F] in
/-- What the loop does with `running` down, if that meets no job. -/
theorem turn_stopped {s : Service F} {loop : Loop F} {m : Move} {r : Service F × Loop F} (h : turn s loop m = some r)
    (hrunning : s.running = false) (hmeets : ¬ Meets { svc := s, loop } (.move m)) :
    m = .run ∨ (m = .call ∧ r.1.running = false) ∨ r.2 = .returned := by
  cases turn_cases h with
  | run => exact .inl rfl
  | call c => exact .inr (.inl ⟨rfl, hrunning⟩)
  | interrupted => exact .inr (.inr (whileRunning_stopped hrunning))
  | notified events =>
    have hdown : (handleNotification s).running = false := by
      show (s.running && _) = false
      rw [hrunning, Bool.false_and]
    exact .inr (.inr (whileRunning_stopped hdown))
  | event events hfd =>
    exact .inr (.inr (dispatch_stopped hrunning fun hfinds => hmeets (.inl ⟨_, events, rfl, rfl, hfd, hfinds⟩)))
  | back c => exact .inr (.inr (dispatch_stopped hrunning fun hfinds => hmeets (.inr ⟨c, rfl, rfl, hfinds⟩)))

omit [DecidableEq F] in
theorem not_turn_returned {s : Service F} {m : Move} : turn s .returned m = none := by
  cases m <;> rfl

/-- One step after a stop. -/
theorem AfterStop.step (hafter : AfterStop h s) (honce : Once (Stops false) h)
    (hmeets : InHand h ∨ Revived h → ¬ Meets s a) (hstep : Step s a s') : AfterStop ((s, a) :: h) s' := by
  cases a with
  | request q =>
    rw [step_request hstep]
    by_cases hstop : q = .stop false
    · subst hstop
      exact .inr (.inl ⟨since_cons.mpr (.inl rfl), rfl⟩)
    · by_cases hwait : q = .stop true
      · exact .inl (revived_cons honce (.inr (congrArg Action.request hwait)))
      · have hq : ∀ waitPending, q ≠ .stop waitPending := by
          rintro (_ | _)
          · exact hstop
          · exact hwait
        rcases hafter with hrev | ⟨hin, hrunning⟩ | hreturned
        · exact .inl (hrev.cons fun heq => hstop (Action.request.inj heq))
        · refine .inr (.inl ⟨hin.cons (fun heq => hwait (Action.request.inj heq)) (fun m heq => by cases heq), ?_⟩)
          exact (apply_keeps_running s.svc hq).trans hrunning
        · exact .inr (.inr hreturned)
  | move m =>
    have hturn := (step_move hstep).2
    rcases hafter with hrev | ⟨hin, hrunning⟩ | hreturned
    · exact .inl (hrev.cons fun heq => by cases heq)
    · rcases turn_stopped hturn hrunning (hmeets (.inl hin)) with rfl | ⟨rfl, hrunning'⟩ | hreturned
      · exact .inl (revived_cons honce (.inl rfl))
      · refine .inr (.inl ⟨hin.cons (fun heq => by cases heq) (fun m heq => ?_), hrunning'⟩)
        exact (Action.move.inj heq).symm
      · exact .inr (.inr hreturned)
    · rw [hreturned, not_turn_returned] at hturn
      cases hturn

/-- The run that meets no job at what it had in hand, or undone. -/
theorem afterStop_of_run {eventFd : ℤ} (r : Run Step (start eventFd) h s)
    (hmeets : ∀ later t b earlier, h = later ++ (t, b) :: earlier → InHand earlier ∨ Revived earlier → ¬ Meets t b) :
    Once (Stops false) h → AfterStop h s := by
  induction r with
  | start => exact fun honce => absurd honce since_nil
  | @next h s s' a r hs ih =>
    have hearlier := ih fun later t b earlier heq => hmeets ((s, a) :: later) t b earlier (congrArg ((s, a) :: ·) heq)
    intro honce
    by_cases hbefore : Once (Stops false) h
    · exact (hearlier hbefore).step hbefore (hmeets [] s a h rfl) hs
    · cases once_cons.mp honce with
      | inr hold => exact absurd hold hbefore
      | inl hstop =>
        obtain rfl : a = .request (.stop false) := hstop
        rw [step_request hs]
        exact .inr (.inl ⟨since_cons.mpr (.inl rfl), rfl⟩)

end after

/-- The loop decides nothing after the stop exactly if what it had in hand then asks for no registered job and, where
the loop is entered after the stop (or a stop that waits follows), no event that comes after that does. -/
theorem never_decides_after_stop_iff {eventFd : ℤ} {h : List (State F × Action F)} {s : State F}
    (r : Run Step (start eventFd) h s) :
    (∀ t a, Follows (Stops false) h t a → ∀ c, ¬ Decides c t a) ↔
      ∀ later t a earlier, h = later ++ (t, a) :: earlier → InHand earlier ∨ Revived earlier → ¬ Meets t a := by
  constructor
  · rintro hall later t a earlier rfl hplace hmeet
    have honce : Once (Stops false) earlier := hplace.elim InHand.once fun hrev => hrev.1
    obtain ⟨-, t', hstep⟩ := r.at_step
    obtain ⟨c, hc⟩ := (decides_iff_meets hstep).mpr hmeet
    exact hall t a ⟨later, earlier, rfl, honce⟩ c hc
  · rintro hmeets t a ⟨later, earlier, rfl, honce⟩ c hc
    obtain ⟨rearlier, t', hstep⟩ := r.at_step
    have hmeet := (decides_iff_meets hstep).mp ⟨c, hc⟩
    have hbefore : ∀ later' u b earlier', earlier = later' ++ (u, b) :: earlier' →
        InHand earlier' ∨ Revived earlier' → ¬ Meets u b := by
      rintro later' u b earlier' rfl
      exact hmeets (later ++ (t, a) :: later') u b earlier' (by simp)
    rcases afterStop_of_run rearlier hbefore honce with hrev | ⟨hin, -⟩ | hreturned
    · exact hmeets later t a earlier rfl (.inr hrev) hmeet
    · exact hmeets later t a earlier rfl (.inl hin) hmeet
    · rcases hmeet with ⟨fd, events, rfl, hwaiting, -⟩ | ⟨c', rfl, hinvoking, -⟩
      · cases hreturned.symm.trans hwaiting
      · cases hreturned.symm.trans hinvoking

/-- The notification is all there is to handle. -/
def stopWhileIdle : List (Action ℕ) := [.move .run, .request (.stop false), .move (.wake 3 1)]

theorem never_decides_after_stop_one : ∃ h s t, played 3 stopWhileIdle = some (h, s) ∧
    Follows (Stops false) h t (.move (.wake 3 1)) ∧
    ∀ t a, Follows (Stops false) h t a → ∀ c, ¬ Decides c t a := by
  refine ⟨_, _, _, rfl, ⟨[], _, rfl, once_cons.mpr (Or.inl rfl)⟩,
    (never_decides_after_stop_iff (run_played 3 stopWhileIdle rfl)).mpr ?_⟩
  intro later t a earlier heq hplace
  have hmem : (t, a) ∈ later ++ (t, a) :: earlier := by simp
  rw [← heq] at hmem
  -- the only event is the notification
  fin_cases hmem
  · rintro (⟨fd, events, heq, -, hne, -⟩ | ⟨c, heq, -⟩)
    · cases heq
      exact hne rfl
    · cases heq
  · simp [Meets]
  · simp [Meets]

/-- The descriptor's event comes before the notification. -/
def stopThenReady : List (Action ℕ) := onePost ++ [.request (.stop false), .move (.wake 5 1)]

theorem decides_after_stop : ∃ h s t, played 3 stopThenReady = some (h, s) ∧
    Follows (Stops false) h t (.move (.wake 5 1)) ∧ Decides oneCall t (.move (.wake 5 1)) := by
  refine ⟨_, _, _, rfl, ⟨[], _, rfl, once_cons.mpr (Or.inl rfl)⟩, ⟨_, _, rfl, rfl, rfl⟩⟩

end Chats.IoService
