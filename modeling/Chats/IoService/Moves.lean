import Chats.IoService.Dispatches

/-! # The moves of the loop

What one move can do, and what every step keeps about being told: while the loop runs, nothing
changes without a notification, and a service that was stopped before has one pending. -/
namespace Chats.IoService
open Chats.Lib
set_option autoImplicit false

variable {F : Type}

/-! ## What a move does -/

/-- The thread is in the loop. -/
def Loop.Active : Loop F → Prop
  | .idle => False
  | .returned => False
  | _ => True

/-- The moves by what they do to the table and the interest set: only a notification and the pick of a
one-shot job change them once the loop runs. -/
inductive Effect (s : State F) (m : Move) (s' : State F) : Prop
  | run : s.loop = .idle → m = .run → s' = { svc := (ioServiceRun s.svc).1, loop := .waiting } → Effect s m s'
  | notified (events : UInt32) : s.loop = .waiting → m = .wake s.svc.eventFd events →
      s' = { svc := handleNotification s.svc, loop := (whileRunning (handleNotification s.svc)).2 } → Effect s m s'
  | same : s.loop.Active → m ≠ .run → (∀ events, m ≠ .wake s.svc.eventFd events) → s'.svc = s.svc →
      (s'.loop.Active ∨ (s'.loop = .returned ∧ s.svc.running = false)) →
      (∀ c, s'.loop = .picked c → ∃ p, registry s.svc (c.fd, c.op) = some p ∧ p.oneshot = false) → Effect s m s'
  | last (c : Call F) (p : Posted F) : s.loop.Active → m ≠ .run → (∀ events, m ≠ .wake s.svc.eventFd events) →
      s'.loop = .picked c → registry s.svc (c.fd, c.op) = some p → p.oneshot = true →
      (∀ op, op ≠ c.op → registry s.svc (c.fd, op) = none) →
      s'.svc = { s.svc.rewrite c.fd (afterPick c.op) with epoll := s.svc.epoll.del c.fd } →
      s'.svc.find c.fd = none → Effect s m s'
  | half (c : Call F) (p : Posted F) (e : LookupTableElement F) : s.loop.Active → m ≠ .run →
      (∀ events, m ≠ .wake s.svc.eventFd events) → s'.loop = .picked c →
      registry s.svc (c.fd, c.op) = some p → p.oneshot = true →
      (∃ op, op ≠ c.op ∧ registry s.svc (c.fd, op) ≠ none) →
      s'.svc = s.svc.rewrite c.fd (afterPick c.op) → s.svc.find c.fd = some e →
      s'.svc.find c.fd = some (e.clear c.op) → Effect s m s'

theorem whileRunning_active (s : Service F) : (whileRunning s).2.Active ∨
    ((whileRunning s).2 = .returned ∧ s.running = false) := by
  obtain ⟨-, hloop⟩ | ⟨hstopped, hloop⟩ := whileRunning_cases s
  · exact Or.inl (hloop ▸ trivial)
  · exact Or.inr ⟨hloop, hstopped⟩

theorem dispatch_effect {s s' : State F} {m : Move} (hv : Valid s.svc.lookupTable) (hactive : s.loop.Active)
    (hrun : m ≠ .run) (hwake : ∀ events, m ≠ .wake s.svc.eventFd events) {fd : ℤ} {events : UInt32}
    {ops : List SvcOp} (h : dispatch s.svc fd events ops = (s'.svc, s'.loop)) : Effect s m s' := by
  cases dispatch_cases s.svc fd events ops with
  | inl hwhile =>
    rw [hwhile] at h
    have hsvc : s.svc = s'.svc := congrArg Prod.fst h
    have hloop : (whileRunning s.svc).2 = s'.loop := congrArg Prod.snd h
    have hactive' := whileRunning_active s.svc
    rw [hloop] at hactive'
    refine .same hactive hrun hwake hsvc.symm hactive' ?_
    intro c hc
    exact absurd (hloop.trans hc) (whileRunning_ne_picked s.svc c)
  | inr hpick =>
    obtain ⟨e, op, rest, job, hfind, hjob, hpick⟩ := hpick
    rw [hpick] at h
    obtain ⟨hsvc, hloop⟩ := Prod.mk.inj h
    have hreg := registry_of_find hfind hjob
    obtain ⟨hone, hsame⟩ | ⟨hone, hothers, hnew, hgone⟩ | ⟨hone, hother, hnew, hleft⟩ := pick_cases hv hfind op
    · refine .same hactive hrun hwake (hsvc.symm.trans hsame) (Or.inl (hloop ▸ trivial)) ?_
      intro c hc
      obtain rfl := Loop.picked.inj (hloop.trans hc)
      exact ⟨_, hreg, hone⟩
    · rw [hnew] at hsvc
      exact .last _ _ hactive hrun hwake hloop.symm hreg hone hothers hsvc.symm (hsvc ▸ hgone)
    · rw [hnew] at hsvc
      exact .half _ _ e hactive hrun hwake hloop.symm hreg hone hother hsvc.symm hfind (hsvc ▸ hleft)

theorem whileRunning_no_call (s : Service F) (c : Call F) :
    ¬ ((whileRunning s).2 = .picked c ∨ (whileRunning s).2 = .invoking c) :=
  not_or.mpr ⟨whileRunning_ne_picked s c, whileRunning_ne_invoking s c⟩

theorem dispatch_fd {s : Service F} {fd : ℤ} {events : UInt32} {ops : List SvcOp} {c : Call F}
    (hc : (dispatch s fd events ops).2 = .picked c ∨ (dispatch s fd events ops).2 = .invoking c) : c.fd = fd := by
  cases dispatch_cases s fd events ops with
  | inl hwhile =>
    rw [hwhile] at hc
    exact absurd hc (whileRunning_no_call s c)
  | inr hpick =>
    obtain ⟨e, op, rest, job, -, -, hpick⟩ := hpick
    rw [hpick] at hc
    simp only [Loop.picked.injEq, reduceCtorEq, or_false] at hc
    rw [← hc]

/-- A notification is never taken for a job. -/
theorem turn_fd {s : Service F} {loop : Loop F} {m : Move} {r : Service F × Loop F}
    (h : turn s loop m = some r) (hold : ∀ c, loop = .picked c ∨ loop = .invoking c → c.fd ≠ s.eventFd)
    {c : Call F} (hc : r.2 = .picked c ∨ r.2 = .invoking c) : c.fd ≠ s.eventFd := by
  cases turn_cases h with
  | run => exact absurd hc (whileRunning_no_call _ c)
  | interrupted => exact absurd hc (whileRunning_no_call s c)
  | notified events => exact absurd hc (whileRunning_no_call _ c)
  | event events hfd => exact dispatch_fd hc ▸ hfd
  | call c' =>
    simp only [reduceCtorEq, Loop.invoking.injEq, false_or] at hc
    exact hold c (Or.inl (congrArg Loop.picked hc))
  | back c' => exact dispatch_fd hc ▸ hold c' (Or.inr rfl)

theorem move_effect [DecidableEq F] {s s' : State F} {m : Move} (hv : Valid s.svc.lookupTable)
    (h : Step s (.move m) s') : Effect s m s' := by
  have hturn := turn_cases (step_move h).2
  generalize hr : (s'.svc, s'.loop) = r at hturn
  generalize hloop : s.loop = loop at hturn
  have hnext : s' = { svc := r.1, loop := r.2 } := by rw [← hr]
  have hactive : loop.Active → s.loop.Active := by rw [hloop]; exact id
  cases hturn with
  | run => exact .run hloop rfl hnext
  | notified events => exact .notified events hloop rfl hnext
  | interrupted =>
    refine .same (hactive trivial) (by simp) (by simp) (hnext ▸ rfl) (hnext ▸ whileRunning_active s.svc) ?_
    intro c hc
    rw [hnext] at hc
    exact absurd hc (whileRunning_ne_picked s.svc c)
  | @event fd events hfd =>
    have hwake : ∀ events', .wake fd events ≠ Move.wake s.svc.eventFd events' := by
      intro events' heq
      exact hfd (Move.wake.inj heq).1
    exact dispatch_effect hv (hactive trivial) (by simp) hwake hr.symm
  | call c =>
    refine .same (hactive trivial) (by simp) (by simp) (hnext ▸ rfl) (Or.inl (hnext ▸ trivial)) ?_
    intro c' hc'
    rw [hnext] at hc'
    cases hc'
  | back c => exact dispatch_effect hv (hactive trivial) (by simp) (by simp) hr.symm

theorem move_not_idle [DecidableEq F] {s s' : State F} {m : Move} (hv : Valid s.svc.lookupTable)
    (h : Step s (.move m) s') : s'.loop ≠ .idle := by
  cases move_effect hv h with
  | run hloop hm hs' => simp [hs']
  | notified events hloop hm hs' =>
    rw [hs']
    obtain ⟨-, hnext⟩ | ⟨-, hnext⟩ := whileRunning_cases (handleNotification s.svc)
    · simp [hnext]
    · simp [hnext]
  | same hactive hrun hwake hsvc hactive' hpersist =>
    intro hidle
    rw [hidle] at hactive'
    simp [Loop.Active] at hactive'
  | last c p hactive hrun hwake hloop hreg hone hothers hsvc hgone => simp [hloop]
  | half c p e hactive hrun hwake hloop hreg hone hother hsvc hfind hleft => simp [hloop]

/-! ## Pending notifications -/

section awake
variable [DecidableEq F]

theorem apply_allowNew (s : Service F) (q : Request F) : (q.apply s).allowNew = s.allowNew ∨
    (q.apply s).notified = s.notified + 1 := by
  cases q with
  | post fd op oneshot job ctx => exact Or.inl (post_frame oneshot ctx job).1
  | remove fd op job ctx => exact Or.inl remove_frame.1
  | stop waitPending => exact Or.inr rfl

omit [DecidableEq F] in
/-- The table is sound, a loop with nothing pending runs, and a stop before the loop is pending. -/
structure Awake (s : State F) : Prop where
  valid : Valid s.svc.lookupTable
  running : s.loop.Active → s.svc.notified = 0 → s.svc.running = true
  stopped : s.loop = .idle → s.svc.allowNew = false → 0 < s.svc.notified

omit [DecidableEq F] in
theorem awake_start (eventFd : ℤ) : Awake (start (F := F) eventFd) :=
  ⟨valid_nil, fun hactive => hactive.elim, by simp [start, ioServiceInit]⟩

/-- With nothing pending a request that nobody is told of has changed nothing. -/
theorem Awake.quiet {s : State F} (hs : Awake s) {q : Request F} (hactive : s.loop.Active)
    (hz : (q.apply s.svc).notified = 0) : q.apply s.svc = s.svc := by
  have hzero : s.svc.notified = 0 := Nat.le_zero.mp (hz ▸ (apply_frame s.svc q).2.2)
  cases apply_running s.svc (hs.running hactive hzero) q with
  | inl hsame => exact hsame
  | inr hnext =>
    rw [hz] at hnext
    cases hnext

theorem Awake.step {s s' : State F} {a : Action F} (hs : Awake s) (hstep : Step s a s') : Awake s' := by
  refine ⟨valid_step hs.valid hstep, ?_, ?_⟩
  · intro hactive hz
    cases a with
    | request q =>
      rw [step_request hstep] at hactive hz ⊢
      have hquiet := hs.quiet hactive hz
      simp only at hz ⊢
      rw [hquiet] at hz ⊢
      exact hs.running hactive hz
    | move m =>
      cases move_effect hs.valid hstep with
      | run hloop hm hs' => rw [hs']; rfl
      | notified events hloop hm hs' =>
        rw [hs'] at hactive ⊢
        obtain ⟨hrunning, -⟩ | ⟨-, hreturned⟩ := whileRunning_cases (handleNotification s.svc)
        · exact hrunning
        · simp only at hactive
          rw [hreturned] at hactive
          exact hactive.elim
      | same hold hrun hwake hsvc hactive' hpersist =>
        rw [hsvc] at hz ⊢
        exact hs.running hold hz
      | last c p hold hrun hwake hloop hreg hone hothers hsvc hgone =>
        rw [hsvc] at hz ⊢
        exact hs.running hold hz
      | half c p e hold hrun hwake hloop hreg hone hother hsvc hfind hleft =>
        rw [hsvc] at hz ⊢
        exact hs.running hold hz
  · intro hidle hstopped
    cases a with
    | request q =>
      rw [step_request hstep] at hidle hstopped ⊢
      simp only at hidle hstopped ⊢
      obtain ⟨-, -, hle⟩ := apply_frame s.svc q
      cases apply_allowNew s.svc q with
      | inl hsame =>
        rw [hsame] at hstopped
        exact (hs.stopped hidle hstopped).trans_le hle
      | inr hnext =>
        rw [hnext]
        exact Nat.succ_pos _
    | move m => exact absurd hidle (move_not_idle hs.valid hstep)

end awake

/-! ## The numbers that a service refers to -/

/-- A job is registered for the number, or the loop has picked one for it. -/
def Mentioned (s : Service F) (loop : Loop F) (fd : ℤ) : Prop :=
  (∃ op, registry s (fd, op) ≠ none) ∨ ∃ c, (loop = .picked c ∨ loop = .invoking c) ∧ c.fd = fd

theorem turn_invoking {s : Service F} {loop : Loop F} {m : Move} {r : Service F × Loop F} {c : Call F}
    (h : turn s loop m = some r) (hr : r.2 = .invoking c) : loop = .picked c := by
  have hdispatch : ∀ fd events ops, (dispatch s fd events ops).2 ≠ .invoking c := by
    intro fd events ops
    cases dispatch_cases s fd events ops with
    | inl heq => exact heq ▸ whileRunning_ne_invoking s c
    | inr hpick =>
      obtain ⟨e, op, rest, job, -, -, heq⟩ := hpick
      simp [heq]
  cases turn_cases h with
  | run => exact absurd hr (whileRunning_ne_invoking _ c)
  | interrupted => exact absurd hr (whileRunning_ne_invoking s c)
  | notified events => exact absurd hr (whileRunning_ne_invoking _ c)
  | event events hfd => exact absurd hr (hdispatch _ events allOps)
  | call c' => exact congrArg Loop.picked (Loop.invoking.inj hr)
  | back c' => exact absurd hr (hdispatch c'.fd c'.events c'.rest)

/-- A turn of the loop brings up no number that was not there. -/
theorem mentioned_turn {s : Service F} {loop : Loop F} {m : Move} {r : Service F × Loop F} {fd : ℤ}
    (hv : Valid s.lookupTable) (h : turn s loop m = some r) (hm : Mentioned r.1 r.2 fd) : Mentioned s loop fd := by
  have hinvoking : ∀ c, r.2 = .invoking c → c.fd = fd → Mentioned s loop fd :=
    fun c hc hfd => Or.inr ⟨c, Or.inl (turn_invoking h hc), hfd⟩
  cases turn_registry hv h with
  | inl hsame =>
    obtain ⟨hreg, hno⟩ := hsame
    obtain ⟨op, hsome⟩ | ⟨c, hc | hc, hfd⟩ := hm
    · exact Or.inl ⟨op, hreg ▸ hsome⟩
    · exact absurd hc (hno c)
    · exact hinvoking c hc hfd
  | inr htaken =>
    obtain ⟨c', p, hloop, hjob, -, -, hreg⟩ := htaken
    obtain ⟨op, hsome⟩ | ⟨c, hc | hc, hfd⟩ := hm
    · refine Or.inl ⟨op, fun hnone => hsome ?_⟩
      rw [hreg]
      split_ifs
      · by_cases hkey : (fd, op) = (c'.fd, c'.op)
        · rw [hkey, Function.update_self]
        · rw [Function.update_of_ne hkey, hnone]
      · exact hnone
    · obtain rfl := Loop.picked.inj (hloop.symm.trans hc)
      exact Or.inl ⟨c'.op, by simp [← hfd, hjob]⟩
    · exact hinvoking c hc hfd

theorem mentioned_post {s : Service F} {loop : Loop F} (hv : Valid s.lookupTable) {fd x : ℤ} {op : SvcOp} {job : F}
    {ctx : UInt64} (h : Mentioned (ioServicePostJob s fd op true (some job) ctx) loop x) :
    x = fd ∨ Mentioned s loop x := by
  obtain ⟨op', hsome⟩ | hcall := h
  · rw [registry_post true job ctx hv] at hsome
    split_ifs at hsome
    · by_cases hkey : (x, op') = (fd, op)
      · exact Or.inl (congrArg Prod.fst hkey)
      · rw [Function.update_of_ne hkey] at hsome
        exact Or.inr (Or.inl ⟨op', hsome⟩)
    · exact Or.inr (Or.inl ⟨op', hsome⟩)
  · exact Or.inr (Or.inr hcall)

end Chats.IoService
