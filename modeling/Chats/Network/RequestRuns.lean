import Chats.Network.Outcomes

/-! # Runs of the requests

The requests compete for the slots of the lookup table as for places: each step of the system is
an event of `Lib.Slots`, and a step that posts into a taken slot is one that loses its request. -/
namespace Chats.Network
open Chats.Lib Chats.IoService
set_option autoImplicit false

/-- What every step keeps, whether its post is accepted or not. -/
structure Sound (s : System) : Prop where
  valid : Valid s.svc.lookupTable
  allow : s.svc.allowNew = true
  oneshot : ∀ key j, registry s.svc key = some j → j.oneshot = true
  called : ∀ c, s.current = some c → s.slots.live c.ctx = some (c.fd, c.op)

structure Invariant (s : System) : Prop extends Sound s where
  slots : s.slots.Invariant

theorem sound_init (eventFd : ℤ) : Sound (init eventFd) := by
  refine ⟨valid_nil, rfl, ?_, ?_⟩
  · intro key j h
    cases h
  · intro c h
    cases h

theorem invariant_init (eventFd : ℤ) : Invariant (init eventFd) :=
  ⟨sound_init eventFd, Slots.invariant_empty⟩

theorem noneDropped_iff {s : System} (hs : Sound s) : NoneDropped s ↔ s.slots.Kept := by
  have hrun : ∀ ctx, (∃ c, s.current = some c ∧ c.ctx = ctx) ↔ s.slots.running = some ctx := by
    intro ctx
    exact Option.map_eq_some_iff.symm
  constructor
  · intro h ctx key hlive
    obtain ⟨srb, hreq, hkey⟩ := Option.map_eq_some_iff.mp hlive
    have hkept := h ctx srb hreq
    rwa [hrun, registered_iff hs.valid hs.oneshot, hkey] at hkept
  · intro h ctx srb hreq
    have hlive : s.slots.live ctx = some srb.key := Option.map_eq_some_iff.mpr ⟨srb, hreq, rfl⟩
    rw [hrun, registered_iff hs.valid hs.oneshot]
    exact h ctx srb.key hlive

/-! ## Each step is an event of the slots -/

/-- `s'` is what an event makes of `s`, and the event puts nothing into a taken place if and only
if `free`. -/
def Simulates (s s' : System) (free : Prop) : Prop :=
  ∃ e, s.slots.Enabled e ∧ s'.slots = s.slots.step e ∧ (s.slots.Free e ↔ free)

theorem Invariant.steady {s : System} (h : Invariant s) : Steady s := ⟨h.valid, h.oneshot, h.called, h.slots.coherent⟩

theorem submit_allowNew {s s' : System} {ctx : UInt64} {request : Option Srb}
    (hsubmit : s.submit ctx request = some s') : s'.svc.allowNew = s.svc.allowNew := by
  cases request with
  | none =>
    obtain rfl := Option.some.inj hsubmit
    rfl
  | some srb =>
    unfold System.submit at hsubmit
    simp only at hsubmit
    split_ifs at hsubmit
    obtain rfl := Option.some.inj hsubmit
    exact (post_frame true _ _).1

theorem step_allowNew {s s' : System} {a : Action} (hstep : Step s a s') : s'.svc.allowNew = s.svc.allowNew := by
  cases hstep with
  | send hsubmit => exact submit_allowNew hsubmit
  | recv hsubmit => exact submit_allowNew hsubmit
  | run _ => rfl
  | interrupted _ => rfl
  | @wake fd events _ _ =>
    show (IoService.wake s.svc fd events).1.allowNew = s.svc.allowNew
    unfold IoService.wake
    split_ifs
    · rfl
    · exact dispatch_allowNew s.svc fd events allOps
  | call _ => rfl
  | @attempt c srb r _ _ _ _ => cases tcpSendRecvAsyncTpl srb r <;> rfl
  | repost _ _ _ => exact (post_frame true _ _).1
  | @back c _ _ => exact dispatch_allowNew s.svc c.fd c.events c.rest

/-- What a step keeps in any case, and the event that it is. -/
theorem step_spec {s s' : System} {a : Action} (h : Invariant s) (hstep : Step s a s') :
    Sound s' ∧ Simulates s s' (SlotFree s a) := by
  obtain ⟨o, ho⟩ := step_outcome h.steady hstep
  obtain ⟨htaken, hfree⟩ := ho.free h.allow
  obtain ⟨e, henabled, hnext, hevent⟩ := Slots.next_eq_step ho.possible htaken
  exact ⟨⟨ho.valid, (step_allowNew hstep).trans h.allow, ho.oneshot, ho.called⟩, e, henabled,
    ho.next.trans hnext, hevent.trans hfree.symm⟩

/-! ## Runs -/

/-- No request is dropped anywhere in a run exactly when every post of the run, of a new request or
after a partial transfer, finds its slot without a job. -/
theorem none_dropped_iff {eventFd : ℤ} {h : List (System × Action)} {s : System}
    (r : Run Step (init eventFd) h s) :
    (∀ x ∈ visited h s, NoneDropped x) ↔ ∀ e ∈ h, SlotFree e.1 e.2 := by
  apply r.forall_iff (invariant_init eventFd)
  · intro s hs
    exact (noneDropped_iff hs.toSound).mpr hs.slots.kept
  · intro s a s' hs hfree hstep
    obtain ⟨hsound, e, henabled, hslots, hiff⟩ := step_spec hs hstep
    refine ⟨hsound, ?_⟩
    rw [hslots]
    exact hs.slots.step henabled (hiff.mpr hfree)
  · intro s a s' hs htaken hstep
    obtain ⟨hsound, e, henabled, hslots, hiff⟩ := step_spec hs hstep
    rw [noneDropped_iff hsound, hslots]
    exact hs.slots.lost henabled fun hfree => htaken (hiff.mp hfree)

/-- A client that is connected on descriptor 5. -/
def client : ClientTcp := { remote := { skt := 5, epType := .tcp } }

/-- The request for these bytes at 1 was submitted. -/
def oneSend : System := ((init 3).submit 1 (clientTcpSendAsync client [104, 105])).getD (init 3)

theorem one_send_run : Run Step (init 3) [(init 3, .send client [104, 105] 1)] oneSend :=
  .next .start (.send rfl)

theorem none_dropped_one_send : NoneDropped oneSend ∧ (registry oneSend.svc (5, .write)).isSome := by
  have hkept := (none_dropped_iff one_send_run).mpr (by
    simp only [List.mem_singleton, forall_eq]
    intro srb _
    rfl)
  exact ⟨hkept oneSend (Run.mem_visited _ _), rfl⟩

/-- Another one at 2 before the first is dispatched. -/
def twoSends : System := (oneSend.submit 2 (clientTcpSendAsync client [106])).getD oneSend

/-- The slot is taken, so the second request is allocated and never called. -/
theorem second_send_dropped :
    Run Step (init 3) [(oneSend, .send client [106] 2), (init 3, .send client [104, 105] 1)] twoSends ∧
    ¬ NoneDropped twoSends := by
  refine ⟨.next one_send_run (.send rfl), ?_⟩
  intro hkept
  cases hkept 2 _ rfl with
  | inl hrun =>
    obtain ⟨c, hc, -⟩ := hrun
    cases hc
  | inr hreg =>
    obtain ⟨e, he, -, hjob⟩ := hreg
    obtain rfl := List.mem_singleton.mp he
    cases hjob

end Chats.Network
