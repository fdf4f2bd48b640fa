import Chats.Timer.Timer

/-! # Runs of a timer

A setting posts its job whether or not there is one already, and a post onto a job is dropped. The
job that is registered is the one that the last setting asks for as long as every setting finds
either no job or one of its own kind. -/
namespace Chats.Timer
open Chats.Lib Chats.IoService
set_option autoImplicit false

variable {F : Type}

/-! ## What a history asks for -/

/-- The kind of the job that a call posts. -/
def TimerCall.oneshot : TimerCall → Option Bool
  | .setDeadline _ _ _ => some true
  | .setPeriodic _ _ _ => some false
  | .setAbsolute _ _ _ => some true
  | .cancel => none

/-- A setting whose job is one-shot or not. -/
def Sets (oneshot : Bool) (_ : System F) (a : Label F) : Prop :=
  ∃ call : TimerCall, a = .timer call ∧ call.oneshot = some oneshot

/-- A cancellation, or a setting of the other kind. -/
def Replaces (oneshot : Bool) (_ : System F) (a : Label F) : Prop :=
  ∃ call : TimerCall, a = .timer call ∧ call.oneshot ≠ some oneshot

section history
variable [DecidableEq F]

/-- The loop decides on the job of the timer's descriptor. A deadline expires with the pick of the slot:
a setting that comes between the pick and the job's `read` comes after the expiry. -/
def Expires (s : System F) (a : Label F) : Prop :=
  ∃ m c, a = .move m ∧ Decides c s.io (.move m) ∧ (c.fd, c.op) = (s.tmr.fd, SvcOp.read)

/-- The latest setting is periodic, and no cancellation followed. -/
def PeriodicLast : List (System F × Label F) → Prop := Since (Sets false) (Replaces false)

/-- The latest setting is a deadline or an absolute one, which has neither expired nor been
cancelled. -/
def DeadlineLast : List (System F × Label F) → Prop := Since (Sets true) fun s a => Replaces true s a ∨ Expires s a

end history

def slot (s : System F) : Option (Posted F) := registry s.io.svc (s.tmr.fd, .read)

section runs
variable [DecidableEq F] (tmrJobTpl : F) (addr : UInt64)

def ownJob (oneshot : Bool) : Posted F := { job := tmrJobTpl, ctx := addr, oneshot }

/-- What is registered for the timer is what the history asks for. -/
structure SlotRight (h : List (System F × Label F)) (s : System F) : Prop where
  periodic : PeriodicLast h → slot s = some (ownJob tmrJobTpl addr false)
  deadline : DeadlineLast h → slot s = some (ownJob tmrJobTpl addr true)
  otherwise : ¬ PeriodicLast h → ¬ DeadlineLast h → slot s = none

/-- A setting finds the slot empty or with a job of its own kind. -/
def SetFits (s : System F) : Label F → Prop
  | .timer call =>
    ∀ oneshot, call.oneshot = some oneshot → slot s = none ∨ slot s = some (ownJob tmrJobTpl addr oneshot)
  | _ => True

structure Invariant (h : List (System F × Label F)) (s : System F) : Prop extends SlotRight tmrJobTpl addr h s where
  valid : Valid s.io.svc.lookupTable
  allow : s.io.svc.allowNew = true

/-! ## What a step does to the slot -/

omit [DecidableEq F] in
theorem slot_set {s : System F} (hv : Valid s.io.svc.lookupTable) (hallow : s.io.svc.allowNew = true)
    (tmrClass : TmrClass) (setting : Setting) (oneshot : Bool) (job ctx : UInt64) :
    slot (timerSetTpl tmrJobTpl addr tmrClass setting oneshot job ctx s) =
      if slot s = none then some (ownJob tmrJobTpl addr oneshot) else slot s := by
  show registry (ioServicePostJob s.io.svc s.tmr.fd .read oneshot (some tmrJobTpl) addr) (s.tmr.fd, .read) = _
  rw [registry_post oneshot tmrJobTpl addr hv]
  by_cases hfree : registry s.io.svc (s.tmr.fd, .read) = none
  · rw [if_pos ⟨hallow, hfree⟩, Function.update_self, if_pos (show slot s = none from hfree)]
    rfl
  · rw [if_neg (fun h => hfree h.2), if_neg (show slot s ≠ none from hfree)]
    rfl

theorem slot_apply_set {s : System F} (hv : Valid s.io.svc.lookupTable) (hallow : s.io.svc.allowNew = true)
    {call : TimerCall} {oneshot : Bool} (hset : call.oneshot = some oneshot) :
    slot (call.apply tmrJobTpl addr s) = if slot s = none then some (ownJob tmrJobTpl addr oneshot) else slot s := by
  cases call with
  | cancel => cases hset
  | setDeadline time job ctx => exact Option.some.inj hset ▸ slot_set tmrJobTpl addr hv hallow ..
  | setPeriodic time job ctx => exact Option.some.inj hset ▸ slot_set tmrJobTpl addr hv hallow ..
  | setAbsolute time job ctx => exact Option.some.inj hset ▸ slot_set tmrJobTpl addr hv hallow ..

theorem slot_cancel {s : System F} (hv : Valid s.io.svc.lookupTable) : slot (timerCancel tmrJobTpl addr s) =
    (slot s).filter fun p => ¬ (some p.job = some tmrJobTpl ∧ p.ctx = addr) := by
  show registry (ioServiceRemoveJob s.io.svc s.tmr.fd .read (some tmrJobTpl) addr) (s.tmr.fd, .read) = _
  rw [registry_remove hv, Function.update_self]
  rfl

theorem slot_other {s : System F} (hv : Valid s.io.svc.lookupTable) {q : Request F} (hq : Elsewhere s.tmr.fd q = true) :
    registry (q.apply s.io.svc) (s.tmr.fd, .read) = slot s := by
  cases q with
  | post fd op oneshot job ctx =>
    simp only [Elsewhere, bne_iff_ne, ne_eq] at hq
    cases job with
    | none =>
      show registry (ioServicePostJob s.io.svc fd op oneshot none ctx) (s.tmr.fd, .read) = _
      rw [post_refused oneshot ctx (Or.inr rfl)]
      rfl
    | some f =>
      show registry (ioServicePostJob s.io.svc fd op oneshot (some f) ctx) (s.tmr.fd, .read) = _
      rw [registry_post oneshot f ctx hv]
      split_ifs with hfree
      · exact Function.update_of_ne (fun heq => hq (congrArg Prod.fst heq).symm) _ _
      · rfl
  | remove fd op job ctx =>
    simp only [Elsewhere, bne_iff_ne, ne_eq] at hq
    show registry (ioServiceRemoveJob s.io.svc fd op job ctx) (s.tmr.fd, .read) = _
    rw [registry_remove hv]
    exact Function.update_of_ne (fun heq => hq (congrArg Prod.fst heq).symm) _ _
  | stop waitPending => cases hq

/-- The steps by what they do to the slot. -/
inductive SlotEffect (s : System F) (a : Label F) (s' : System F) : Prop
  | set {call : TimerCall} {oneshot : Bool} (ha : a = .timer call) (hset : call.oneshot = some oneshot)
      (hslot : slot s' = if slot s = none then some (ownJob tmrJobTpl addr oneshot) else slot s) : SlotEffect s a s'
  | cancelled (ha : a = .timer .cancel)
      (hslot : slot s' = (slot s).filter fun p => ¬ (some p.job = some tmrJobTpl ∧ p.ctx = addr)) : SlotEffect s a s'
  | expired {p : Posted F} (ha : ∀ call, a ≠ .timer call) (hexpires : Expires s a) (hp : slot s = some p)
      (hone : p.oneshot = true) (hslot : slot s' = none) : SlotEffect s a s'
  | same (ha : ∀ call, a ≠ .timer call) (hexpires : Expires s a → ∃ p, slot s = some p ∧ p.oneshot = false)
      (hslot : slot s' = slot s) : SlotEffect s a s'

theorem afterMove_fd (s : System F) (m : Move) : (afterMove tmrJobTpl addr s m).fd = s.tmr.fd := by
  unfold afterMove
  split
  · split_ifs
    · unfold tmrJobEnd
      split_ifs <;> rfl
    · rfl
  · rfl

theorem move_slot {s : System F} {m : IoService.Move} {io : IoService.State F} (hv : Valid s.io.svc.lookupTable)
    (hio : IoService.Step s.io (.move m) io) :
    SlotEffect tmrJobTpl addr s (.move m) { s with io, tmr := afterMove tmrJobTpl addr s m } := by
  have hslot : slot { s with io, tmr := afterMove tmrJobTpl addr s m } = registry io.svc (s.tmr.fd, .read) := by
    unfold slot
    rw [afterMove_fd]
  obtain ⟨hsame, hnone⟩ | ⟨c, p, hc, hp, -, -, hreg⟩ := move_cases hv hio
  · refine .same nofun ?_ (hslot.trans (congrFun hsame _))
    rintro ⟨m', c, heq, hc, -⟩
    cases heq
    exact absurd hc (hnone c)
  · by_cases hkey : (c.fd, c.op) = (s.tmr.fd, SvcOp.read)
    · rw [hkey] at hp hreg
      cases hone : p.oneshot with
      | true =>
        rw [hone, if_pos rfl] at hreg
        exact .expired nofun ⟨m, c, rfl, hc, hkey⟩ hp hone (by rw [hslot, hreg, Function.update_self])
      | false =>
        rw [hone, if_neg (by simp)] at hreg
        exact .same nofun (fun _ => ⟨p, hp, hone⟩) (hslot.trans (congrFun hreg _))
    · refine .same nofun ?_ ?_
      · rintro ⟨m', c', heq, hc', hkey'⟩
        cases heq
        obtain rfl := hc.unique hc'
        exact absurd hkey' hkey
      · rw [hslot, hreg]
        split_ifs
        · exact Function.update_of_ne (Ne.symm hkey) _ _
        · rfl

theorem step_slot {s s' : System F} {a : Label F} (hv : Valid s.io.svc.lookupTable) (hallow : s.io.svc.allowNew = true)
    (hs : Step tmrJobTpl addr s a s') : SlotEffect tmrJobTpl addr s a s' := by
  cases a with
  | timer call =>
    obtain rfl := Option.some.inj hs
    cases hset : call.oneshot with
    | some oneshot => exact .set rfl hset (slot_apply_set tmrJobTpl addr hv hallow hset)
    | none =>
      cases call with
      | cancel => exact .cancelled rfl (slot_cancel tmrJobTpl addr hv)
      | _ => cases hset
  | other q =>
    unfold Step step at hs
    simp only at hs
    split_ifs at hs with hq
    obtain rfl := Option.some.inj hs
    refine .same nofun ?_ (slot_other hv hq)
    rintro ⟨m, c, heq, -⟩
    cases heq
  | move m =>
    obtain ⟨io, hio, rfl⟩ := Option.map_eq_some_iff.mp hs
    exact move_slot tmrJobTpl addr hv hio

/-! ## What a step does to the history -/

section history
variable {s : System F} {h : List (System F × Label F)}

omit [DecidableEq F] in
theorem periodicLast_timer (call : TimerCall) : PeriodicLast ((s, .timer call) :: h) ↔ call.oneshot = some false := by
  unfold PeriodicLast
  rw [since_cons]
  simp only [Sets, Replaces, Label.timer.injEq, exists_eq_left', ne_eq, not_not]
  tauto

theorem deadlineLast_timer (call : TimerCall) : DeadlineLast ((s, .timer call) :: h) ↔ call.oneshot = some true := by
  unfold DeadlineLast
  rw [since_cons]
  simp only [Sets, Replaces, Label.timer.injEq, exists_eq_left', ne_eq, not_or, not_not]
  tauto

variable {a : Label F} (ha : ∀ call, a ≠ .timer call)
include ha

omit [DecidableEq F] in
theorem periodicLast_silent : PeriodicLast ((s, a) :: h) ↔ PeriodicLast h := by
  unfold PeriodicLast
  rw [since_cons]
  simp [Sets, Replaces, ha]

theorem deadlineLast_silent : DeadlineLast ((s, a) :: h) ↔ DeadlineLast h ∧ ¬ Expires s a := by
  unfold DeadlineLast
  rw [since_cons]
  simp [Sets, Replaces, ha]

end history

/-! ## Runs -/

section steps
variable {tmrJobTpl addr} {s s' : System F} {a : Label F} {h : List (System F × Label F)}

theorem step_frame (hv : Valid s.io.svc.lookupTable) (hallow : s.io.svc.allowNew = true)
    (hs : Step tmrJobTpl addr s a s') : Valid s'.io.svc.lookupTable ∧ s'.io.svc.allowNew = true := by
  cases a with
  | timer call =>
    obtain rfl := Option.some.inj hs
    cases call with
    | cancel => exact ⟨valid_remove hv, remove_frame.1.trans hallow⟩
    | setDeadline time job ctx => exact ⟨valid_post true tmrJobTpl addr hv, (post_frame true addr _).1.trans hallow⟩
    | setPeriodic time job ctx => exact ⟨valid_post false tmrJobTpl addr hv, (post_frame false addr _).1.trans hallow⟩
    | setAbsolute time job ctx => exact ⟨valid_post true tmrJobTpl addr hv, (post_frame true addr _).1.trans hallow⟩
  | other q =>
    unfold Step step at hs
    simp only at hs
    split_ifs at hs with hq
    obtain rfl := Option.some.inj hs
    refine ⟨valid_apply hv q, ?_⟩
    cases q with
    | post fd op oneshot job ctx => exact (post_frame oneshot ctx job).1.trans hallow
    | remove fd op job ctx => exact remove_frame.1.trans hallow
    | stop waitPending => cases hq
  | move m =>
    obtain ⟨io, hio, rfl⟩ := Option.map_eq_some_iff.mp hs
    exact ⟨valid_step hv hio, (move_allowNew hio).trans hallow⟩

theorem SlotRight.cases (hr : SlotRight tmrJobTpl addr h s) :
    slot s = none ∨ ∃ oneshot, slot s = some (ownJob tmrJobTpl addr oneshot) := by
  by_cases hp : PeriodicLast h
  · exact Or.inr ⟨false, hr.periodic hp⟩
  · by_cases hd : DeadlineLast h
    · exact Or.inr ⟨true, hr.deadline hd⟩
    · exact Or.inl (hr.otherwise hp hd)

theorem slotRight_set {call : TimerCall} {oneshot : Bool} (hset : call.oneshot = some oneshot) :
    SlotRight tmrJobTpl addr ((s, .timer call) :: h) s' ↔ slot s' = some (ownJob tmrJobTpl addr oneshot) := by
  constructor
  · intro hr
    cases oneshot with
    | false => exact hr.periodic ((periodicLast_timer call).mpr hset)
    | true => exact hr.deadline ((deadlineLast_timer call).mpr hset)
  · intro hslot
    refine ⟨fun hp => ?_, fun hd => ?_, fun hp hd => ?_⟩
    · obtain rfl := Option.some.inj (((periodicLast_timer call).mp hp).symm.trans hset)
      exact hslot
    · obtain rfl := Option.some.inj (((deadlineLast_timer call).mp hd).symm.trans hset)
      exact hslot
    · cases oneshot with
      | false => exact absurd ((periodicLast_timer call).mpr hset) hp
      | true => exact absurd ((deadlineLast_timer call).mpr hset) hd

theorem Invariant.step (hi : Invariant tmrJobTpl addr h s) (hC : SetFits tmrJobTpl addr s a)
    (hs : Step tmrJobTpl addr s a s') : Invariant tmrJobTpl addr ((s, a) :: h) s' := by
  obtain ⟨hv, hallow⟩ := step_frame hi.valid hi.allow hs
  refine ⟨?_, hv, hallow⟩
  cases step_slot tmrJobTpl addr hi.valid hi.allow hs with
  | set ha hset hslot =>
    subst ha
    rw [slotRight_set hset, hslot]
    obtain hfree | hown := hC _ hset
    · rw [if_pos hfree]
    · rw [hown, if_neg (by simp)]
  | cancelled ha hslot =>
    subst ha
    have hnone : slot s' = none := by
      rw [hslot]
      obtain hfree | ⟨oneshot, hown⟩ := hi.cases
      · rw [hfree, Option.filter_none]
      · rw [hown]
        simp [ownJob]
    refine ⟨fun hp => ?_, fun hd => ?_, fun _ _ => hnone⟩
    · cases (periodicLast_timer .cancel).mp hp
    · cases (deadlineLast_timer .cancel).mp hd
  | @expired p ha hexpires hp hone hslot =>
    refine ⟨fun hlast => ?_, fun hlast => absurd hexpires ((deadlineLast_silent ha).mp hlast).2, fun _ _ => hslot⟩
    have hown := hi.periodic ((periodicLast_silent ha).mp hlast)
    rw [hp, Option.some.injEq] at hown
    rw [hown] at hone
    cases hone
  | same ha hexpires hslot =>
    have hdeadline : DeadlineLast h → ¬ Expires s a := by
      intro hlast hexp
      obtain ⟨p, hp, hone⟩ := hexpires hexp
      rw [hi.deadline hlast, Option.some.injEq] at hp
      rw [← hp] at hone
      cases hone
    refine ⟨fun hlast => ?_, fun hlast => ?_, fun hnp hnd => ?_⟩
    · rw [hslot]
      exact hi.periodic ((periodicLast_silent ha).mp hlast)
    · rw [hslot]
      exact hi.deadline ((deadlineLast_silent ha).mp hlast).1
    · rw [hslot]
      refine hi.otherwise (fun hp => hnp ((periodicLast_silent ha).mpr hp)) fun hd => ?_
      exact hnd ((deadlineLast_silent ha).mpr ⟨hd, hdeadline hd⟩)

/-- The job of the other kind stays, and the new one is dropped. -/
theorem Invariant.bad_step (hi : Invariant tmrJobTpl addr h s) (hC : ¬ SetFits tmrJobTpl addr s a)
    (hs : Step tmrJobTpl addr s a s') : ¬ SlotRight tmrJobTpl addr ((s, a) :: h) s' := by
  cases a with
  | other q => exact absurd trivial hC
  | move m => exact absurd trivial hC
  | timer call =>
    unfold SetFits at hC
    push Not at hC
    obtain ⟨oneshot, hset, hfull, hother⟩ := hC
    obtain rfl := Option.some.inj hs
    rw [slotRight_set hset, slot_apply_set tmrJobTpl addr hi.valid hi.allow hset, if_neg hfull]
    exact hother

end steps

theorem invariant_init (eventFd fd : ℤ) (old : Tmr) : Invariant tmrJobTpl addr [] (init eventFd fd old) :=
  ⟨⟨fun hp => absurd hp since_nil, fun hd => absurd hd since_nil, fun _ _ => rfl⟩, valid_nil, rfl⟩

/-- The slot of a timer is right at every moment of a run exactly when every setting of the run finds
it empty or with a job of its own kind. -/
theorem timer_slot_iff (eventFd fd : ℤ) (old : Tmr) (h : List (System F × Label F)) (s : System F)
    (r : Run (Step tmrJobTpl addr) (init eventFd fd old) h s) :
    (∀ m ∈ moments h s, SlotRight tmrJobTpl addr m.1 m.2) ↔ ∀ e ∈ h, SetFits tmrJobTpl addr e.1 e.2 := by
  apply r.forall_moments_iff (I := fun h s => Invariant tmrJobTpl addr h s)
    (invariant_init tmrJobTpl addr eventFd fd old)
  · exact fun h s hi => hi.toSlotRight
  · exact fun h s a s' hi hC hs => hi.step hC hs
  · exact fun h s a s' hi hC hs => hi.bad_step hC hs

end runs

/-! ## Two settings -/

def secs (n : ℤ) : Timespec := ⟨n, 0⟩

def fresh : Tmr := { fd := 0, armed := false, tmrClass := .none, spec := ⟨⟨0, 0⟩, ⟨0, 0⟩⟩, job := 0, ctx := 0 }

/-- The timer with descriptor 7 at 64; its job is the only one of the service. -/
def played (ls : List (Label Unit)) : Option (List (System Unit × Label Unit) × System Unit) :=
  Run.replay (step () 64) ([], init 3 7 fresh) ls

theorem run_played (ls : List (Label Unit)) {h : List (System Unit × Label Unit)} {s : System Unit}
    (hplayed : played ls = some (h, s)) : Run (Step () 64) (init 3 7 fresh) h s :=
  Run.of_replay .start hplayed

def deadlines : List (Label Unit) := [.timer (.setDeadline (secs 1) 8 9), .timer (.setAbsolute (secs 2) 8 9)]

theorem timer_slot_deadlines : ∃ h s, played deadlines = some (h, s) ∧
    (∀ m ∈ moments h s, SlotRight () 64 m.1 m.2) ∧ slot s = some (ownJob () 64 true) := by
  refine ⟨_, _, rfl, (timer_slot_iff () 64 3 7 fresh _ _ (run_played deadlines rfl)).mpr ?_, rfl⟩
  intro e he
  fin_cases he
  · rintro oneshot hset
    exact Or.inr (Option.some.inj hset ▸ rfl)
  · rintro oneshot hset
    exact Or.inl rfl

def periodicThenDeadline : List (Label Unit) := [.timer (.setPeriodic (secs 1) 8 9), .timer (.setDeadline (secs 5) 8 9)]

/-- A deadline is set while the timer is periodic: the periodic job stays registered. -/
theorem deadline_dropped : ∃ h s, played periodicThenDeadline = some (h, s) ∧
    Run (Step () 64) (init 3 7 fresh) h s ∧ DeadlineLast h ∧ s.tmr.tmrClass = .relative ∧
    slot s = some (ownJob () 64 false) ∧ ¬ SlotRight () 64 h s := by
  refine ⟨_, _, rfl, run_played periodicThenDeadline rfl, (deadlineLast_timer _).mpr rfl, rfl, rfl, ?_⟩
  intro hr
  have hslot := hr.deadline ((deadlineLast_timer _).mpr rfl)
  cases hslot

end Chats.Timer
