import Chats.IoService.Interleaving

/-! # What the loop dispatches

A decision of the loop is taken under the mutex and carried out without it. Which job it picks is
settled by the history: the place of the job in the map was filled by a post and has neither been
emptied by a removal nor, for a one-shot job, by an earlier decision. -/
namespace Chats.IoService
open Chats.Lib
set_option autoImplicit false

variable {F : Type} [DecidableEq F]

/-- A post that found its slot free while new jobs were allowed. -/
def Accepts (key : ℤ × SvcOp) (p : Posted F) (s : State F) (a : Action F) : Prop :=
  a = .request (.post key.1 key.2 p.oneshot (some p.job) p.ctx) ∧ s.svc.allowNew = true ∧
    registry s.svc key = none

/-- A removal of the job that is in the slot. -/
def Cancels (key : ℤ × SvcOp) (s : State F) (a : Action F) : Prop :=
  ∃ p, registry s.svc key = some p ∧ a = .request (.remove key.1 key.2 (some p.job) p.ctx)

def Decides (c : Call F) (s : State F) (a : Action F) : Prop :=
  ∃ m s', a = .move m ∧ Step s a s' ∧ s'.loop = .picked c

/-- The post of `p` is not the one to dispatch any more: there was another one, or it was removed,
or it was dispatched and is one-shot. -/
def Ended (key : ℤ × SvcOp) (p : Posted F) (s : State F) (a : Action F) : Prop :=
  (∃ p', Accepts key p' s a) ∨ Cancels key s a ∨
    (p.oneshot = true ∧ ∃ c, (c.fd, c.op) = key ∧ Decides c s a)

/-- The mask of the descriptor asks for the operation, and an event with it has the job called. -/
def Eligible (s : Service F) (key : ℤ × SvcOp) (p : Posted F) : Prop :=
  (∃ e ∈ s.lookupTable, e.fd = key.1 ∧ e.events &&& key.2.flag ≠ 0 ∧ (e.job key.2).posted = some p) ∧
    ∀ events rest, events &&& key.2.flag ≠ 0 → (dispatch s key.1 events (key.2 :: rest)).2 =
      .picked { fd := key.1, op := key.2, job := p.job, ctx := p.ctx, events, rest }

/-! ## Steps and the map -/

theorem not_decides_request {c : Call F} {s : State F} {q : Request F} : ¬ Decides c s (.request q) := by
  intro hdecides
  obtain ⟨m, s', heq, -⟩ := hdecides
  cases heq

omit [DecidableEq F] in
theorem not_accepts_move {key : ℤ × SvcOp} {p : Posted F} {s : State F} {m : Move} : ¬ Accepts key p s (.move m) := by
  intro haccept
  cases haccept.1

omit [DecidableEq F] in
theorem not_cancels_move {key : ℤ × SvcOp} {s : State F} {m : Move} : ¬ Cancels key s (.move m) := by
  intro hcancel
  obtain ⟨_, -, heq⟩ := hcancel
  cases heq

omit [DecidableEq F] in
theorem whileRunning_cases (s : Service F) : (s.running = true ∧ (whileRunning s).2 = .waiting) ∨
    (s.running = false ∧ (whileRunning s).2 = .returned) := by
  unfold whileRunning
  cases s.running with
  | true => exact Or.inl ⟨rfl, rfl⟩
  | false => exact Or.inr ⟨rfl, rfl⟩

omit [DecidableEq F] in
theorem whileRunning_ne_picked (s : Service F) (c : Call F) : (whileRunning s).2 ≠ .picked c := by
  obtain ⟨-, hloop⟩ | ⟨-, hloop⟩ := whileRunning_cases s
  · simp [hloop]
  · simp [hloop]

omit [DecidableEq F] in
theorem whileRunning_ne_invoking (s : Service F) (c : Call F) : (whileRunning s).2 ≠ .invoking c := by
  obtain ⟨-, hloop⟩ | ⟨-, hloop⟩ := whileRunning_cases s
  · simp [hloop]
  · simp [hloop]

omit [DecidableEq F] in
/-- Without a decision the loop leaves the map alone; a decision takes a job of the map, and takes it
away if it is one-shot. -/
theorem dispatch_registry {s : Service F} (hv : Valid s.lookupTable) (fd : ℤ) (events : UInt32)
    (ops : List SvcOp) {r : Service F × Loop F} (hr : dispatch s fd events ops = r) :
    (registry r.1 = registry s ∧ ∀ c, r.2 ≠ .picked c) ∨
      ∃ c p, r.2 = .picked c ∧ registry s (c.fd, c.op) = some p ∧ p.job = c.job ∧ p.ctx = c.ctx ∧
        registry r.1 = if p.oneshot then Function.update (registry s) (c.fd, c.op) none else registry s := by
  cases dispatch_cases s fd events ops with
  | inl hwhile =>
    rw [← hr, hwhile]
    exact Or.inl ⟨rfl, whileRunning_ne_picked s⟩
  | inr hpick =>
    obtain ⟨e, op, rest, job, hfind, hjob, hpick⟩ := hpick
    rw [hpick] at hr
    rw [← hr]
    refine Or.inr ⟨_, _, rfl, registry_of_find hfind hjob, rfl, rfl, ?_⟩
    by_cases hone : (e.job op).oneshot = true
    · rw [if_pos hone]
      exact registry_pick_oneshot hv hfind hone
    · rw [if_neg hone]
      unfold pick
      rw [if_neg hone]

omit [DecidableEq F] in
theorem turn_registry {s : Service F} {loop : Loop F} {m : Move} {r : Service F × Loop F}
    (hv : Valid s.lookupTable) (h : turn s loop m = some r) :
    (registry r.1 = registry s ∧ ∀ c, r.2 ≠ .picked c) ∨
      ∃ c p, r.2 = .picked c ∧ registry s (c.fd, c.op) = some p ∧ p.job = c.job ∧ p.ctx = c.ctx ∧
        registry r.1 = if p.oneshot then Function.update (registry s) (c.fd, c.op) none else registry s := by
  cases turn_cases h with
  | run => exact Or.inl ⟨rfl, whileRunning_ne_picked _⟩
  | interrupted => exact Or.inl ⟨rfl, whileRunning_ne_picked s⟩
  | notified events => exact Or.inl ⟨registry_handleNotification hv, whileRunning_ne_picked _⟩
  | event events hfd => exact dispatch_registry hv _ events allOps rfl
  | call c => exact Or.inl ⟨rfl, by simp⟩
  | back c => exact dispatch_registry hv c.fd c.events c.rest rfl

omit [DecidableEq F] in
theorem registry_post_iff {s : State F} (hv : Valid s.svc.lookupTable) (fd : ℤ) (op : SvcOp) (oneshot : Bool)
    (job : Option F) (ctx : UInt64) (key : ℤ × SvcOp) (p : Posted F) :
    registry (ioServicePostJob s.svc fd op oneshot job ctx) key = some p ↔
      Accepts key p s (.request (.post fd op oneshot job ctx)) ∨ registry s.svc key = some p := by
  cases job with
  | none =>
    rw [post_refused oneshot ctx (Or.inr rfl), iff_or_self]
    intro haccept
    cases haccept.1
  | some f =>
    rw [registry_post oneshot f ctx hv]
    split_ifs with hfree
    · rw [Store.update_some_iff]
      constructor
      · intro hor
        obtain ⟨rfl, rfl⟩ | ⟨-, hold⟩ := hor
        · exact Or.inl ⟨rfl, hfree⟩
        · exact Or.inr hold
      · intro hor
        cases hor with
        | inl haccept =>
          cases haccept.1
          exact Or.inl ⟨rfl, rfl⟩
        | inr hold =>
          refine Or.inr ⟨?_, hold⟩
          rintro rfl
          rw [hfree.2] at hold
          cases hold
    · rw [iff_or_self]
      intro haccept
      obtain ⟨heq, hfree'⟩ := haccept
      cases heq
      exact absurd hfree' hfree

theorem registry_remove_iff {s : State F} (hv : Valid s.svc.lookupTable) (fd : ℤ) (op : SvcOp) (job : Option F)
    (ctx : UInt64) (key : ℤ × SvcOp) (p : Posted F) :
    registry (ioServiceRemoveJob s.svc fd op job ctx) key = some p ↔
      registry s.svc key = some p ∧ ¬ Cancels key s (.request (.remove fd op job ctx)) := by
  rw [registry_remove hv]
  by_cases hkey : key = (fd, op)
  · subst hkey
    rw [Function.update_self, Option.filter_eq_some_iff, decide_eq_true_eq, and_congr_right_iff]
    intro hreg
    rw [not_iff_not]
    constructor
    · intro hmatch
      obtain ⟨rfl, rfl⟩ := hmatch
      exact ⟨p, hreg, rfl⟩
    · intro hcancel
      obtain ⟨p', hreg', heq⟩ := hcancel
      obtain rfl := Option.some.inj (hreg.symm.trans hreg')
      cases heq
      exact ⟨rfl, rfl⟩
  · have hcancel : ¬ Cancels key s (.request (.remove fd op job ctx)) := by
      intro hcancel
      obtain ⟨p', -, heq⟩ := hcancel
      cases heq
      exact hkey rfl
    rw [Function.update_of_ne hkey, and_iff_left hcancel]

/-- What a request makes of a place of the map. -/
theorem registry_apply_iff {s : State F} (hv : Valid s.svc.lookupTable) (q : Request F)
    (key : ℤ × SvcOp) (p : Posted F) : registry (q.apply s.svc) key = some p ↔
      Accepts key p s (.request q) ∨ (registry s.svc key = some p ∧ ¬ Cancels key s (.request q)) := by
  cases q with
  | post fd op oneshot job ctx =>
    have hcancel : ¬ Cancels key s (.request (.post fd op oneshot job ctx)) := by
      intro hcancel
      obtain ⟨_, -, heq⟩ := hcancel
      cases heq
    rw [and_iff_left hcancel]
    exact registry_post_iff hv fd op oneshot job ctx key p
  | remove fd op job ctx =>
    have haccept : ¬ Accepts key p s (.request (.remove fd op job ctx)) := by
      intro haccept
      cases haccept.1
    rw [or_iff_right haccept]
    exact registry_remove_iff hv fd op job ctx key p
  | stop waitPending =>
    have haccept : ¬ Accepts key p s (.request (.stop waitPending)) := by
      intro haccept
      cases haccept.1
    have hcancel : ¬ Cancels key s (.request (.stop waitPending)) := by
      intro hcancel
      obtain ⟨_, -, heq⟩ := hcancel
      cases heq
    rw [or_iff_right haccept, and_iff_left hcancel]
    rfl

theorem move_cases {s s' : State F} {m : Move} (hv : Valid s.svc.lookupTable) (h : Step s (.move m) s') :
    (registry s'.svc = registry s.svc ∧ ∀ c, ¬ Decides c s (.move m)) ∨
      ∃ c p, Decides c s (.move m) ∧ registry s.svc (c.fd, c.op) = some p ∧ p.job = c.job ∧ p.ctx = c.ctx ∧
        registry s'.svc =
          if p.oneshot then Function.update (registry s.svc) (c.fd, c.op) none else registry s.svc := by
  cases turn_registry hv (step_move h).2 with
  | inl hsame =>
    refine Or.inl ⟨hsame.1, ?_⟩
    intro c hc
    obtain ⟨m', s'', -, hstep, hloop⟩ := hc
    obtain rfl := Step.unique h hstep
    exact hsame.2 c hloop
  | inr hpick =>
    obtain ⟨c, p, hloop, hrest⟩ := hpick
    exact Or.inr ⟨c, p, ⟨m, s', rfl, h, hloop⟩, hrest⟩

theorem move_allowNew {s s' : State F} {m : Move} (h : Step s (.move m) s') : s'.svc.allowNew = s.svc.allowNew := by
  have hturn := turn_cases (step_move h).2
  generalize hr : (s'.svc, s'.loop) = r at hturn
  generalize s.loop = loop at hturn
  rw [show s'.svc = r.1 from congrArg Prod.fst hr]
  cases hturn with
  | run => rfl
  | interrupted => rfl
  | notified events => rfl
  | event events hfd => exact dispatch_allowNew s.svc _ events allOps
  | call c => rfl
  | back c => exact dispatch_allowNew s.svc c.fd c.events c.rest

theorem decides_iff {s s' : State F} {m : Move} (h : Step s (.move m) s') (c : Call F) :
    Decides c s (.move m) ↔ s'.loop = .picked c := by
  constructor
  · intro hc
    obtain ⟨_, s'', -, hstep, hloop⟩ := hc
    rwa [Step.unique h hstep]
  · intro hloop
    exact ⟨m, s', rfl, h, hloop⟩

theorem Decides.unique {s : State F} {a : Action F} {c c' : Call F} (h : Decides c s a) (h' : Decides c' s a) :
    c = c' := by
  obtain ⟨_, s', -, hstep, hloop⟩ := h
  obtain ⟨_, s'', -, hstep', hloop'⟩ := h'
  obtain rfl := Step.unique hstep hstep'
  exact Loop.picked.inj (hloop.symm.trans hloop')

theorem ended_iff {s : State F} {key : ℤ × SvcOp} {p : Posted F} (hreg : registry s.svc key = some p)
    (a : Action F) : Ended key p s a ↔
      Cancels key s a ∨ (p.oneshot = true ∧ ∃ c, (c.fd, c.op) = key ∧ Decides c s a) := by
  apply or_iff_right
  intro haccept
  obtain ⟨p', -, -, hfree⟩ := haccept
  rw [hreg] at hfree
  cases hfree

/-- A place is filled after a step if the step filled it, or if it was and the step has not ended that. -/
theorem registry_step {s s' : State F} {a : Action F} (hv : Valid s.svc.lookupTable) (h : Step s a s')
    (key : ℤ × SvcOp) (p : Posted F) : registry s'.svc key = some p ↔
      Accepts key p s a ∨ (registry s.svc key = some p ∧ ¬ Ended key p s a) := by
  have hended : (registry s.svc key = some p ∧ ¬ Ended key p s a) ↔ (registry s.svc key = some p ∧
      ¬ (Cancels key s a ∨ (p.oneshot = true ∧ ∃ c, (c.fd, c.op) = key ∧ Decides c s a))) := by
    rw [and_congr_right_iff]
    intro hreg
    rw [ended_iff hreg]
  rw [hended]
  cases a with
  | request q =>
    rw [step_request h, registry_apply_iff hv]
    simp only [not_decides_request, and_false, exists_false, or_false]
  | move m =>
    rw [or_iff_right not_accepts_move, or_iff_right not_cancels_move]
    cases move_cases hv h with
    | inl hsame =>
      obtain ⟨hsame, hidle⟩ := hsame
      simp [hsame, hidle]
    | inr hpick =>
      obtain ⟨c, p', hdecides, hreg, -, -, hnew⟩ := hpick
      have honly : (∃ c', (c'.fd, c'.op) = key ∧ Decides c' s (.move m)) ↔ (c.fd, c.op) = key := by
        constructor
        · intro hex
          obtain ⟨c', hkey, hc'⟩ := hex
          rwa [hdecides.unique hc']
        · intro hkey
          exact ⟨c, hkey, hdecides⟩
      rw [honly, hnew]
      split_ifs with hone
      · rw [Store.update_none_iff, and_comm, and_congr_right_iff]
        intro hold
        constructor
        · intro hne heq
          exact hne heq.2.symm
        · intro hnot heq
          rw [← heq, hold] at hreg
          obtain rfl := Option.some.inj hreg
          exact hnot ⟨hone, heq.symm⟩
      · rw [iff_self_and]
        intro hold heq
        rw [heq.2, hold] at hreg
        obtain rfl := Option.some.inj hreg
        exact hone heq.1

/-- A registered job was accepted and has not been ended since. -/
theorem registered_iff_since {eventFd : ℤ} {h : List (State F × Action F)} {s : State F}
    (r : Run Step (start eventFd) h s) (key : ℤ × SvcOp) (p : Posted F) :
    registry s.svc key = some p ↔ Since (Accepts key p) (Ended key p) h := by
  apply r.since_iff (I := fun s => Valid s.svc.lookupTable) (V := fun s => registry s.svc key = some p)
  · exact valid_nil
  · exact fun hreg => nomatch hreg
  · exact fun s a s' hv hstep => valid_step hv hstep
  · exact fun s a s' hv hstep => registry_step hv hstep key p

/-- One that is not one-shot stays until it is removed. -/
theorem persistent_iff_since {eventFd : ℤ} {h : List (State F × Action F)} {s : State F}
    (r : Run Step (start eventFd) h s) (key : ℤ × SvcOp) {p : Posted F} (hone : p.oneshot = false) :
    registry s.svc key = some p ↔ Since (Accepts key p) (Cancels key) h := by
  apply r.since_iff (I := fun s => Valid s.svc.lookupTable) (V := fun s => registry s.svc key = some p)
  · exact valid_nil
  · exact fun hreg => nomatch hreg
  · exact fun s a s' hv hstep => valid_step hv hstep
  · intro s a s' hv hstep
    rw [registry_step hv hstep key p]
    apply or_congr_right
    rw [and_congr_right_iff]
    intro hreg
    rw [ended_iff hreg, hone]
    simp

omit [DecidableEq F] in
theorem eligible_of_registered {s : Service F} (hv : Valid s.lookupTable) {key : ℤ × SvcOp} {p : Posted F}
    (hreg : registry s key = some p) : Eligible s key p := by
  obtain ⟨e, hfind, hposted⟩ := Option.bind_eq_some_iff.mp hreg
  obtain ⟨hmem, hfd⟩ := findKey_some hfind
  obtain ⟨hjob, hctx, -⟩ := Job.posted_eq_some.mp hposted
  constructor
  · refine ⟨e, hmem, hfd, ?_, hposted⟩
    rw [hv.flags e hmem, mask_flag, hjob]
    exact Option.some_ne_none p.job
  · intro events rest hevent
    unfold dispatch
    rw [if_neg hevent]
    simp only [hfind, hjob, hctx]

/-- Every decision is for the job of the latest accepted post, which was not removed since and, if it
is one-shot, not dispatched since; and an accepted post that is not one-shot stays eligible until
it is removed. -/
theorem decisions_follow_posts {eventFd : ℤ} {h : List (State F × Action F)} {s : State F}
    (r : Run Step (start eventFd) h s) :
    (∀ a c, Decides c s a → ∃ p, p.job = c.job ∧ p.ctx = c.ctx ∧
      Since (Accepts (c.fd, c.op) p) (Ended (c.fd, c.op) p) h) ∧
    ∀ key p, p.oneshot = false → Since (Accepts key p) (Cancels key) h → Eligible s.svc key p := by
  have hv : Valid s.svc.lookupTable := r.invariant (I := fun s => Valid s.svc.lookupTable) valid_nil
    fun s a s' hv hstep => valid_step hv hstep
  constructor
  · intro a c hc
    have hdecides := hc
    obtain ⟨m, s', rfl, hstep, -⟩ := hc
    cases move_cases hv hstep with
    | inl hsame => exact absurd hdecides (hsame.2 c)
    | inr hpick =>
      obtain ⟨c', p, hc', hreg, hjob, hctx, -⟩ := hpick
      obtain rfl := hdecides.unique hc'
      exact ⟨p, hjob, hctx, (registered_iff_since r _ p).mp hreg⟩
  · intro key p hone hsince
    exact eligible_of_registered hv ((persistent_iff_since r key hone).mpr hsince)

/-- A job for reading 5 is posted before the loop begins to wait, and picked when 5 is readable. -/
def onePost : List (Action ℕ) := [.request (.post 5 .read false (some 0) 1), .move .run]

def oneCall : Call ℕ := { fd := 5, op := .read, job := 0, ctx := 1, events := 1, rest := [.write] }

theorem decisions_follow_posts_one : ∃ h s, played 3 onePost = some (h, s) ∧
    Decides oneCall s (.move (.wake 5 1)) ∧
    ∃ p : Posted ℕ, p.job = 0 ∧ p.ctx = 1 ∧ Since (Accepts (5, .read) p) (Ended (5, .read) p) h := by
  refine ⟨_, _, rfl, ⟨_, _, rfl, rfl, rfl⟩, ?_⟩
  have r := run_played 3 onePost rfl
  exact (decisions_follow_posts r).1 (.move (.wake 5 1)) oneCall ⟨_, _, rfl, rfl, rfl⟩

/-! ## Removal and calls -/

/-- The job was removed and not posted again. -/
def Removed (key : ℤ × SvcOp) (job : F) (ctx : UInt64) : List (State F × Action F) → Prop :=
  Since (fun _ a => a = .request (.remove key.1 key.2 (some job) ctx))
    fun _ a => ∃ oneshot, a = .request (.post key.1 key.2 oneshot (some job) ctx)

/-- `c` is called after the steps of `earlier`. -/
def Starts (h : List (State F × Action F)) (c : Call F) (earlier : List (State F × Action F)) : Prop :=
  ∃ later t, h = later ++ (t, .move .call) :: earlier ∧ t.loop = .picked c

omit [DecidableEq F] in
theorem starts_nil {c : Call F} {earlier : List (State F × Action F)} : ¬ Starts [] c earlier := by
  intro hstarts
  obtain ⟨later, t, heq, -⟩ := hstarts
  cases later <;> cases heq

omit [DecidableEq F] in
theorem starts_cons {s : State F} {a : Action F} {h earlier : List (State F × Action F)} {c : Call F} :
    Starts ((s, a) :: h) c earlier ↔ (a = .move .call ∧ s.loop = .picked c ∧ earlier = h) ∨ Starts h c earlier := by
  constructor
  · intro hstarts
    obtain ⟨later, t, heq, hloop⟩ := hstarts
    cases later with
    | nil =>
      obtain ⟨hst, rfl⟩ := List.cons.inj heq
      obtain ⟨rfl, rfl⟩ := Prod.mk.inj hst
      exact Or.inl ⟨rfl, hloop, rfl⟩
    | cons e later => exact Or.inr ⟨later, t, (List.cons.inj heq).2, hloop⟩
  · intro hor
    cases hor with
    | inl hcall =>
      obtain ⟨rfl, hloop, rfl⟩ := hcall
      exact ⟨[], s, rfl, hloop⟩
    | inr hstarts =>
      obtain ⟨later, t, rfl, hloop⟩ := hstarts
      exact ⟨(s, a) :: later, t, rfl, hloop⟩

/-- The steps since the loop has picked its job. -/
def sincePicked (h : List (State F × Action F)) : List (State F × Action F) :=
  h.takeWhile fun e => match e.1.loop with
    | .picked _ => true
    | _ => false

omit [DecidableEq F] in
theorem sincePicked_cons_picked {s : State F} {c : Call F} (hloop : s.loop = .picked c) (a : Action F)
    (h : List (State F × Action F)) : sincePicked ((s, a) :: h) = (s, a) :: sincePicked h := by
  unfold sincePicked
  rw [List.takeWhile_cons_of_pos]
  simp only [hloop]

omit [DecidableEq F] in
theorem sincePicked_cons_ne {s : State F} (hloop : ∀ c, s.loop ≠ .picked c) (a : Action F)
    (h : List (State F × Action F)) : sincePicked ((s, a) :: h) = [] := by
  unfold sincePicked
  rw [List.takeWhile_cons_of_neg]
  cases hs : s.loop with
  | picked c => exact absurd hs (hloop c)
  | _ => simp

omit [DecidableEq F] in
theorem removed_move {key : ℤ × SvcOp} {job : F} {ctx : UInt64} {s : State F} {m : Move}
    {h : List (State F × Action F)} : Removed key job ctx ((s, .move m) :: h) ↔ Removed key job ctx h := by
  unfold Removed
  simp

omit [DecidableEq F] in
/-- A step that picks a job is not taken by a loop that has picked one. -/
theorem turn_picked {s : Service F} {loop : Loop F} {m : Move} {r : Service F × Loop F} {c : Call F}
    (h : turn s loop m = some r) (hr : r.2 = .picked c) (c' : Call F) : loop ≠ .picked c' := by
  rintro rfl
  cases turn_cases h with
  | call => cases hr

/-- A registered job is not a removed one, and a picked job that is was removed since it was picked. -/
structure Current (h : List (State F × Action F)) (s : State F) : Prop where
  valid : Valid s.svc.lookupTable
  registered : ∀ key p, registry s.svc key = some p → ¬ Removed key p.job p.ctx h
  picked : ∀ c, s.loop = .picked c →
    (Removed (c.fd, c.op) c.job c.ctx h ↔ Removed (c.fd, c.op) c.job c.ctx (sincePicked h))

omit [DecidableEq F] in
theorem current_start (eventFd : ℤ) : Current [] (start (F := F) eventFd) := by
  refine ⟨valid_nil, ?_, ?_⟩
  · intro key p hreg
    cases hreg
  · intro c hc
    cases hc

theorem Current.request {h : List (State F × Action F)} {s : State F} (hs : Current h s) (q : Request F) :
    Current ((s, .request q) :: h) { s with svc := q.apply s.svc } := by
  refine ⟨valid_apply hs.valid q, ?_, ?_⟩
  · intro key p hreg hremoved
    unfold Removed at hremoved
    rw [since_cons] at hremoved
    cases (registry_apply_iff hs.valid q key p).mp hreg with
    | inl haccept =>
      rw [haccept.1] at hremoved
      cases hremoved with
      | inl hremove => cases hremove
      | inr hold => exact hold.2 ⟨p.oneshot, rfl⟩
    | inr hold =>
      cases hremoved with
      | inl hremove => exact hold.2 ⟨p, hold.1, hremove⟩
      | inr hsince => exact hs.registered key p hold.1 hsince.1
  · intro c hc
    have hloop : s.loop = .picked c := hc
    have hold := hs.picked c hloop
    rw [sincePicked_cons_picked hloop]
    unfold Removed at hold ⊢
    rw [since_cons, since_cons, hold]

theorem Current.move {h : List (State F × Action F)} {s s' : State F} {m : Move} (hs : Current h s)
    (hstep : Step s (.move m) s') : Current ((s, .move m) :: h) s' := by
  refine ⟨valid_step hs.valid hstep, ?_, ?_⟩
  · intro key p hreg
    rw [removed_move]
    apply hs.registered key p
    cases (registry_step hs.valid hstep key p).mp hreg with
    | inl haccept => exact absurd haccept not_accepts_move
    | inr hold => exact hold.1
  · intro c hc
    have hne := turn_picked (step_move hstep).2 hc
    have hdecides : Decides c s (.move m) := ⟨m, s', rfl, hstep, hc⟩
    rw [removed_move, sincePicked_cons_ne hne]
    apply iff_of_false _ since_nil
    cases move_cases hs.valid hstep with
    | inl hsame => exact absurd hdecides (hsame.2 c)
    | inr hpick =>
      obtain ⟨c', p, hc', hreg, hjob, hctx, -⟩ := hpick
      obtain rfl := hdecides.unique hc'
      rw [← hjob, ← hctx]
      exact hs.registered _ p hreg

theorem current_of_run {eventFd : ℤ} {h : List (State F × Action F)} {s : State F}
    (r : Run Step (start eventFd) h s) : Current h s := by
  apply r.invariant_history (current_start eventFd)
  intro h s a s' hs hstep
  cases a with
  | request q =>
    rw [step_request hstep]
    exact hs.request q
  | move m => exact hs.move hstep

/-- No job is called that was removed and not posted again, exactly if no job is removed between the
decision and the call. -/
theorem never_called_after_removal_iff {eventFd : ℤ} {h : List (State F × Action F)} {s : State F}
    (r : Run Step (start eventFd) h s) :
    (∀ c earlier, Starts h c earlier → ¬ Removed (c.fd, c.op) c.job c.ctx earlier) ↔
      ∀ c earlier, Starts h c earlier → ¬ Removed (c.fd, c.op) c.job c.ctx (sincePicked earlier) := by
  have hpicked : ∀ c earlier, Starts h c earlier → (Removed (c.fd, c.op) c.job c.ctx earlier ↔
      Removed (c.fd, c.op) c.job c.ctx (sincePicked earlier)) := by
    intro c earlier hstarts
    obtain ⟨later, t, rfl, hloop⟩ := hstarts
    exact (current_of_run r.at_step.1).picked c hloop
  constructor
  · intro hall c earlier hstarts
    rw [← hpicked c earlier hstarts]
    exact hall c earlier hstarts
  · intro hall c earlier hstarts
    rw [hpicked c earlier hstarts]
    exact hall c earlier hstarts

/-- The loop calls the job that it has picked. -/
def calledAtOnce : List (Action ℕ) := onePost ++ [.move (.wake 5 1), .move .call]

theorem never_called_after_removal_one : ∃ h s, played 3 calledAtOnce = some (h, s) ∧
    Starts h oneCall h.tail ∧ ∀ c earlier, Starts h c earlier → ¬ Removed (c.fd, c.op) c.job c.ctx earlier := by
  refine ⟨_, _, rfl, ⟨[], _, rfl, rfl⟩,
    (never_called_after_removal_iff (run_played 3 calledAtOnce rfl)).mpr ?_⟩
  intro c earlier hstarts
  obtain ⟨-, -, rfl⟩ | hearlier := starts_cons.mp hstarts
  · exact since_nil
  · simp [starts_cons, starts_nil] at hearlier

/-- Another thread removes the job after the decision. -/
def removedWhenPicked : List (Action ℕ) :=
  onePost ++ [.move (.wake 5 1), .request (.remove 5 .read (some 0) 1), .move .call]

theorem called_after_removal : ∃ h s, played 3 removedWhenPicked = some (h, s) ∧
    Starts h oneCall h.tail ∧ Removed (5, .read) 0 1 h.tail := by
  refine ⟨_, _, rfl, ⟨[], _, rfl, rfl⟩, ?_⟩
  unfold Removed
  exact since_cons.mpr (Or.inl rfl)

end Chats.IoService
