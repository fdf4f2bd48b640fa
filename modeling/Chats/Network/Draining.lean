import Chats.Lib.Since
import Chats.Network.RequestRuns

/-! # Transfers while the service drains

`io_service_stop` with `wait_pending` lets the registered jobs finish and refuses new ones. A
transfer that is done in part is a new job to the service: it goes on by posting itself again. -/
namespace Chats.Network
open Chats.Lib Chats.IoService
set_option autoImplicit false

inductive DrainAction
  | act (a : Action)
  | stop (waitPending : Bool)

/-- The steps of the requests, and calls of `io_service_stop` by any thread. -/
inductive DrainStep : System → DrainAction → System → Prop
  | act {s s' : System} {a : Action} : Step s a s' → DrainStep s (.act a) s'
  | stop {s : System} (waitPending : Bool) :
      DrainStep s (.stop waitPending) { s with svc := ioServiceStop s.svc waitPending }

/-- A step of the requests of this kind. -/
def OfRequests (p : System → Action → Prop) (s : System) : DrainAction → Prop
  | .act a => p s a
  | .stop _ => False

/-- The transfer was registered and its callback has not been invoked. -/
def Outstanding (ctx : UInt64) : List (System × DrainAction) → Prop :=
  Since (OfRequests (Enters ctx)) (OfRequests (CallsBack ctx))

/-- Every such transfer is being run or is registered. -/
def NoneAbandoned (h : List (System × DrainAction)) (s : System) : Prop :=
  ∀ ctx, Outstanding ctx h → (∃ c, s.current = some c ∧ c.ctx = ctx) ∨
    ∃ srb, s.requests ctx = some srb ∧ Registered s ctx srb

/-- If the step posts a transfer again, new jobs are allowed and its slot is free. -/
def RepostsAccepted (s : System) : DrainAction → Prop
  | .act a => RepostAccepted s a
  | .stop _ => True

/-! ## What the history says of the slots -/

/-- The requests that wait or are run are those that the history says are outstanding. -/
structure Accounted (h : List (System × DrainAction)) (s : System) : Prop where
  steady : Steady s
  held : ∀ ctx, s.slots.Held ctx ↔ Outstanding ctx h

theorem outstanding_act {ctx : UInt64} {h : List (System × DrainAction)} {s : System} {a : Action} :
    Outstanding ctx ((s, .act a) :: h) ↔ Enters ctx s a ∨ (Outstanding ctx h ∧ ¬ CallsBack ctx s a) :=
  since_cons

theorem outstanding_stop {ctx : UInt64} {h : List (System × DrainAction)} {s : System} {waitPending : Bool} :
    Outstanding ctx ((s, .stop waitPending) :: h) ↔ Outstanding ctx h := by
  unfold Outstanding
  rw [since_cons]
  simp [OfRequests]

theorem accounted_init (eventFd : ℤ) : Accounted [] (init eventFd) := by
  refine ⟨(invariant_init eventFd).steady, fun ctx => iff_of_false ?_ since_nil⟩
  intro hheld
  cases hheld with
  | inl hrun => cases hrun
  | inr hplace =>
    obtain ⟨key, hkey⟩ := hplace
    cases hkey

theorem Accounted.noneAbandoned {h : List (System × DrainAction)} {s : System} (hs : Accounted h s) :
    NoneAbandoned h s := by
  intro ctx houtstanding
  rw [← hs.steady.held_iff]
  exact (hs.held ctx).mpr houtstanding

theorem Accounted.step {h : List (System × DrainAction)} {s s' : System} {a : DrainAction} (hs : Accounted h s)
    (haccepted : RepostsAccepted s a) (hstep : DrainStep s a s') : Accounted ((s, a) :: h) s' := by
  cases a with
  | stop waitPending =>
    cases hstep
    refine ⟨⟨hs.steady.valid, hs.steady.oneshot, hs.steady.called, hs.steady.coherent⟩, fun ctx => ?_⟩
    rw [outstanding_stop]
    exact hs.held ctx
  | act a =>
    cases hstep with
    | act hstep =>
      obtain ⟨o, ho⟩ := step_outcome hs.steady hstep
      refine ⟨ho.steady hs.steady, fun ctx => ?_⟩
      have hstay : o ≠ .abandon ctx := ho.accepted.mp haccepted ctx
      rw [outstanding_act, ho.next, hs.steady.coherent.held_next ho.possible, ho.enters, ho.callsBack,
        and_iff_left hstay]
      exact or_congr_right (and_congr_left' (hs.held ctx))

/-- A transfer whose post is refused has not been called back, and nobody holds it. -/
theorem Accounted.abandons {h : List (System × DrainAction)} {s s' : System} {a : DrainAction} (hs : Accounted h s)
    (hrefused : ¬ RepostsAccepted s a) (hstep : DrainStep s a s') : ¬ NoneAbandoned ((s, a) :: h) s' := by
  cases a with
  | stop waitPending => exact absurd trivial hrefused
  | act a =>
    cases hstep with
    | act hstep =>
      obtain ⟨o, ho⟩ := step_outcome hs.steady hstep
      have habandon : ∃ ctx, o = .abandon ctx := by
        by_contra hnone
        push Not at hnone
        exact hrefused (ho.accepted.mpr hnone)
      obtain ⟨ctx, rfl⟩ := habandon
      have hheld : s.slots.Held ctx := Or.inl ho.possible
      have houtstanding : Outstanding ctx ((s, .act a) :: h) := by
        rw [outstanding_act, ho.callsBack]
        exact Or.inr ⟨(hs.held ctx).mp hheld, by simp⟩
      intro hkept
      have hkept := hkept ctx houtstanding
      rw [← (ho.steady hs.steady).held_iff, ho.next, hs.steady.coherent.held_next ho.possible] at hkept
      simp at hkept

/-- No transfer is abandoned in a run exactly when every transfer that posts itself again is accepted. -/
theorem none_abandoned_iff {eventFd : ℤ} {h : List (System × DrainAction)} {s : System}
    (r : Run DrainStep (init eventFd) h s) :
    (∀ m ∈ moments h s, NoneAbandoned m.1 m.2) ↔ ∀ e ∈ h, RepostsAccepted e.1 e.2 := by
  apply r.forall_moments_iff (I := Accounted) (P := NoneAbandoned) (accounted_init eventFd)
  · intro h s hs
    exact hs.noneAbandoned
  · intro h s a s' hs haccepted hstep
    exact hs.step haccepted hstep
  · intro h s a s' hs hrefused hstep
    exact hs.abandons hrefused hstep

/-- The loop waits for the request at 1, and `io_service_stop` lets it finish. -/
def draining : System :=
  let s := oneSend.resume (ioServiceRun oneSend.svc)
  { s with svc := ioServiceStop s.svc true }

def oneSrb : Srb := { op := .send, src := noSocket, dst := client.remote, buffer := [104, 105], bytesOperated := 0 }

def oneCall : Call JobFunction :=
  { fd := 5, op := .write, job := .tcpSendRecvAsyncTpl, ctx := 1, events := 4, rest := [] }

/-- Its descriptor is ready and its job is entered. -/
def entered : System :=
  { draining.resume (wake draining.svc 5 4) with loop := .invoking oneCall, progress := .entered }

def untilEntered : List (System × DrainAction) :=
  [(draining.resume (wake draining.svc 5 4), .act .call), (draining, .act (.wake 5 4)),
    (oneSend.resume (ioServiceRun oneSend.svc), .stop true), (oneSend, .act .run),
    (init 3, .act (.send client [104, 105] 1))]

theorem entered_run : Run DrainStep (init 3) untilEntered entered := by
  refine .next (.next (.next (.next (.next .start ?_) ?_) ?_) ?_) ?_
  · exact .act (.send rfl)
  · exact .act (.run rfl)
  · exact .stop true
  · exact .act (.wake rfl rfl)
  · exact .act (.call rfl)

/-- The kernel took this many of the two bytes. -/
def attempted (n : ℕ) : System := entered.attempted 1 (tcpSendRecvAsyncTpl oneSrb (.count n))

def untilAttempted (n : ℕ) : List (System × DrainAction) := (entered, .act (.attempt (.count n))) :: untilEntered

theorem attempted_run {n : ℕ} (hn : n ≤ 2) : Run DrainStep (init 3) (untilAttempted n) (attempted n) := by
  have hloop : entered.loop = .invoking oneCall := rfl
  have hreq : entered.requests 1 = some oneSrb := rfl
  have hfits : KernelResult.fits oneSrb (.count n) := by
    show 0 + n ≤ 2
    omega
  exact .next entered_run (.act (.attempt hloop rfl hreq hfits))

/-- Both bytes go at once. -/
theorem none_abandoned_at_once : (∀ m ∈ moments (untilAttempted 2) (attempted 2), NoneAbandoned m.1 m.2) ∧
    CallsBack 1 entered (.attempt (.count 2)) := by
  refine ⟨(none_abandoned_iff (attempted_run le_rfl)).mpr ?_, ⟨_, _, _, _, rfl, rfl, rfl, rfl, rfl⟩⟩
  intro e he
  simp only [untilAttempted, untilEntered, List.mem_cons, List.not_mem_nil, or_false] at he
  obtain rfl | rfl | rfl | rfl | rfl | rfl := he <;> first | trivial | (intro heq; cases heq)

/-- One byte goes, and the rest is refused. -/
theorem partly_sent_abandoned : ∃ s, Run DrainStep (init 3) ((attempted 1, .act .repost) :: untilAttempted 1) s ∧
    ¬ NoneAbandoned ((attempted 1, .act .repost) :: untilAttempted 1) s := by
  refine ⟨_, .next (attempted_run (by decide)) (.act (.repost rfl rfl rfl)), ?_⟩
  intro hkept
  have hsent : Enters 1 (init 3) (.send client [104, 105] 1) := ⟨client, _, oneSrb, Or.inl ⟨rfl, rfl⟩, rfl, rfl⟩
  have hnot : ¬ CallsBack 1 entered (.attempt (.count 1)) := by
    rintro ⟨c, srb, r, report, hact, -, -, hreq, hfinish⟩
    cases hact
    obtain rfl : oneSrb = srb := Option.some.inj hreq
    cases hfinish
  have houtstanding : Outstanding 1 ((attempted 1, .act .repost) :: untilAttempted 1) := by
    have hentered : Outstanding 1 untilEntered := by
      simp only [untilEntered, outstanding_act, outstanding_stop]
      simp [hsent, CallsBack]
    exact outstanding_act.mpr (Or.inr ⟨outstanding_act.mpr (Or.inr ⟨hentered, hnot⟩), by simp [CallsBack]⟩)
  cases hkept 1 houtstanding with
  | inl hrun =>
    obtain ⟨c, hc, -⟩ := hrun
    cases hc
  | inr hreg =>
    obtain ⟨srb, -, e, he, -⟩ := hreg
    cases he


end Chats.Network
