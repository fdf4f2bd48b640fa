import Chats.Network.Requests

/-! # One send request across its dispatches

An asynchronous send of `network/network.c` from its post to its callback. Every dispatch makes
one attempt with what is left of the buffer; between two of them only the request block and its
job in the io service remain. -/
namespace Chats.Network
open Chats.Lib Chats.IoService
set_option autoImplicit false

/-- `accepted` holds the bytes that the kernel took so far, `report` what the callback was called with,
and `srb` from then on the request block as the callback found it. -/
structure Sending where
  svc : Service JobFunction
  srb : Srb
  accepted : List UInt8
  report : Option Report

/-- What an attempt moves from the part of the buffer that it offers. -/
def KernelResult.taken (srb : Srb) : KernelResult → List UInt8
  | .count n => (srb.buffer.drop srb.bytesOperated).take n
  | .error _ => []

def Srb.post (srb : Srb) (ctx : UInt64) (svc : Service JobFunction) : Service JobFunction :=
  ioServicePostJob svc srb.endpoint.skt srb.op.iosvcOp true (some .tcpSendRecvAsyncTpl) ctx

namespace Sending

/-- `tcp_send_recv_async` on the request at `ctx`; `none` is a failed assertion. -/
def start (svc : Service JobFunction) (ctx : UInt64) (srb : Srb) : Option Sending :=
  if srb.endpoint.skt < 0 ∨ srb.endpoint.epType ≠ .tcp then none
  else
    let srb := { srb with bytesOperated := 0 }
    some { svc := srb.post ctx svc, srb, accepted := [], report := none }

/-- A dispatch: the attempt, and what `tcp_send_recv_async_tpl` does about its result. `svc` is
the service by then, other threads having used it. -/
def dispatch (s : Sending) (ctx : UInt64) (svc : Service JobFunction) (r : KernelResult) : Sending :=
  let accepted := s.accepted ++ r.taken s.srb
  match tcpSendRecvAsyncTpl s.srb r with
  | .post srb => { svc := srb.post ctx svc, srb, accepted, report := none }
  | .finish report => { svc, srb := { s.srb with bytesOperated := report.bytes }, accepted, report := some report }

/-- The job of the request at `ctx`, where it is waiting for its socket. -/
def job (ctx : UInt64) : Posted JobFunction := { job := .tcpSendRecvAsyncTpl, ctx, oneshot := true }

/-- A posted request is dispatched once, its slot being free again by then, and a request that is
posted once more finds the service open for new jobs. -/
inductive Step (ctx : UInt64) : Sending → Service JobFunction × KernelResult → Sending → Prop
  | dispatch {s : Sending} {svc : Service JobFunction} {r : KernelResult} :
      registry s.svc s.srb.key = some (job ctx) → Valid svc.lookupTable → registry svc s.srb.key = none →
      (∀ srb, tcpSendRecvAsyncTpl s.srb r = .post srb → svc.allowNew = true) → r.fits s.srb →
      Step ctx s (svc, r) (s.dispatch ctx svc r)

abbrev History := List (Sending × Service JobFunction × KernelResult)

/-- The result that the latest dispatch met. -/
def lastResult (h : History) : Option KernelResult := h.head?.map fun e => e.2.2

/-- How a request stands: waiting for its socket, called back with all bytes accepted, or called
back with an error. -/
inductive Stands (ctx : UInt64) (h : History) (s : Sending) : Prop
  | posted : s.report = none → s.srb.bytesOperated < s.srb.buffer.length →
      (∀ e, lastResult h = some (.error e) → e = eagain) → registry s.svc s.srb.key = some (job ctx) → Stands ctx h s
  | done : s.report = some ⟨0, s.srb.buffer.length⟩ → s.srb.bytesOperated = s.srb.buffer.length →
      (∀ e, lastResult h ≠ some (.error e)) → registry s.svc s.srb.key = none → Stands ctx h s
  | failed (e : ℕ) : s.report = some ⟨e, s.srb.bytesOperated⟩ → s.srb.bytesOperated < s.srb.buffer.length →
      lastResult h = some (.error e) → e ≠ eagain → e ≠ 0 → registry s.svc s.srb.key = none → Stands ctx h s

/-- What holds after any number of dispatches of the request `srb`. -/
structure Underway (ctx : UInt64) (srb : Srb) (h : History) (s : Sending) : Prop where
  buffer : s.srb.buffer = srb.buffer
  key : s.srb.key = srb.key
  accepted : s.accepted = srb.buffer.take s.srb.bytesOperated
  stands : Stands ctx h s

variable {ctx : UInt64} {srb : Srb} {h : History} {s s' : Sending} {svc : Service JobFunction} {r : KernelResult}

theorem registry_srb_post (ctx : UInt64) (srb : Srb) (hv : Valid svc.lookupTable) (hallow : svc.allowNew = true)
    (hfree : registry svc srb.key = none) : registry (srb.post ctx svc) srb.key = some (job ctx) := by
  have hp := registry_post_free true JobFunction.tcpSendRecvAsyncTpl ctx hv hallow hfree
  rw [Srb.post, hp, Srb.key, Function.update_self]
  rfl

/-- The four ways in which an attempt can end. -/
theorem tpl_cases (srb : Srb) (r : KernelResult) :
    (r = .error eagain ∧ tcpSendRecvAsyncTpl srb r = .post srb) ∨
    (∃ e, e ≠ eagain ∧ r = .error e ∧ tcpSendRecvAsyncTpl srb r = .finish ⟨e, srb.bytesOperated⟩) ∨
    (∃ n, srb.bytesOperated + n < srb.buffer.length ∧ r = .count n ∧
      tcpSendRecvAsyncTpl srb r = .post { srb with bytesOperated := srb.bytesOperated + n }) ∨
    ∃ n, srb.buffer.length ≤ srb.bytesOperated + n ∧ r = .count n ∧
      tcpSendRecvAsyncTpl srb r = .finish ⟨0, srb.bytesOperated + n⟩ := by
  cases r with
  | error e =>
    by_cases he : e = eagain
    · subst he
      exact .inl ⟨rfl, rfl⟩
    · exact .inr (.inl ⟨e, he, rfl, if_neg he⟩)
  | count n =>
    by_cases hn : srb.bytesOperated + n < srb.buffer.length
    · exact .inr (.inr (.inl ⟨n, hn, rfl, if_pos hn⟩))
    · exact .inr (.inr (.inr ⟨n, not_lt.mp hn, rfl, if_neg hn⟩))

/-- The bytes taken are the next ones of the buffer. -/
theorem take_append_taken (srb : Srb) (n : ℕ) :
    srb.buffer.take srb.bytesOperated ++ (KernelResult.count n).taken srb = srb.buffer.take (srb.bytesOperated + n) :=
  List.take_add.symm

theorem dispatch_posts {srb' : Srb} (ht : tcpSendRecvAsyncTpl s.srb r = .post srb') :
    s.dispatch ctx svc r = ⟨srb'.post ctx svc, srb', s.accepted ++ r.taken s.srb, none⟩ := by
  simp only [dispatch, ht]

theorem dispatch_finishes {report : Report} (ht : tcpSendRecvAsyncTpl s.srb r = .finish report) :
    s.dispatch ctx svc r =
      ⟨svc, { s.srb with bytesOperated := report.bytes }, s.accepted ++ r.taken s.srb, some report⟩ := by
  simp only [dispatch, ht]

/-- One dispatch keeps the account of the bytes, whatever its result. -/
theorem Underway.step (hu : Underway ctx srb h s) (hs : Step ctx s (svc, r) s') :
    Underway ctx srb ((s, svc, r) :: h) s' := by
  obtain ⟨hbuf, hkey, hacc, hst⟩ := hu
  cases hs with
  | dispatch hreg hv hfree hallow hfits =>
  -- only a posted request is dispatched
  have hlt : s.srb.bytesOperated < s.srb.buffer.length := by
    cases hst with
    | posted _ hlt _ _ => exact hlt
    | done _ _ _ hnone => exact absurd (hreg.symm.trans hnone) (by simp)
    | failed _ _ _ _ _ _ hnone => exact absurd (hreg.symm.trans hnone) (by simp)
  rw [← hbuf] at hacc
  have htaken : ∀ n, s.accepted ++ (KernelResult.count n).taken s.srb = srb.buffer.take (s.srb.bytesOperated + n) := by
    intro n
    rw [hacc, take_append_taken, hbuf]
  rcases tpl_cases s.srb r with ⟨rfl, ht⟩ | ⟨e, he, rfl, ht⟩ | ⟨n, hn, rfl, ht⟩ | ⟨n, hn, rfl, ht⟩
  · have hp := registry_srb_post ctx s.srb hv (hallow _ ht) hfree
    rw [dispatch_posts ht, KernelResult.taken, List.append_nil]
    refine ⟨hbuf, hkey, hbuf ▸ hacc, .posted rfl hlt ?_ hp⟩
    intro e he
    simpa [lastResult, eq_comm] using he
  · rw [dispatch_finishes ht, KernelResult.taken, List.append_nil]
    exact ⟨hbuf, hkey, hbuf ▸ hacc, .failed e rfl hlt rfl he hfits hfree⟩
  · have hp := registry_srb_post ctx { s.srb with bytesOperated := s.srb.bytesOperated + n } hv (hallow _ ht) hfree
    rw [dispatch_posts ht, htaken]
    refine ⟨hbuf, hkey, rfl, .posted rfl hn ?_ hp⟩
    intro e he
    simp [lastResult] at he
  · have hfull : s.srb.bytesOperated + n = s.srb.buffer.length := le_antisymm hfits hn
    rw [dispatch_finishes ht, htaken]
    refine ⟨hbuf, hkey, rfl, .done (by rw [hfull]) hfull ?_ hfree⟩
    intro e he
    simp [lastResult] at he

variable {s₀ : Sending}

theorem underway_start (hne : srb.buffer ≠ []) (hstart : start svc ctx srb = some s₀) (hv : Valid svc.lookupTable)
    (hallow : svc.allowNew = true) (hfree : registry svc srb.key = none) : Underway ctx srb [] s₀ := by
  unfold start at hstart
  split_ifs at hstart
  obtain rfl := Option.some.inj hstart
  have hp := registry_srb_post ctx { srb with bytesOperated := 0 } hv hallow hfree
  refine ⟨rfl, rfl, rfl, .posted rfl (List.length_pos_of_ne_nil hne) ?_ hp⟩
  intro e he
  cases he

theorem underway (hne : srb.buffer ≠ []) (hstart : start svc ctx srb = some s₀) (hv : Valid svc.lookupTable)
    (hallow : svc.allowNew = true) (hfree : registry svc srb.key = none) (r : Run (Step ctx) s₀ h s) :
    Underway ctx srb h s :=
  r.invariant_history (underway_start hne hstart hv hallow hfree) fun _ _ _ _ hu hs => hu.step hs

namespace Underway

theorem complete_iff (hu : Underway ctx srb h s) :
    s.accepted = srb.buffer ↔ srb.buffer.length ≤ s.srb.bytesOperated := by
  rw [hu.accepted, List.take_eq_self_iff]

theorem accepted_length (hu : Underway ctx srb h s) (hle : s.srb.bytesOperated ≤ srb.buffer.length) :
    s.accepted.length = s.srb.bytesOperated := by
  rw [hu.accepted, List.length_take, Nat.min_eq_left hle]

theorem report_success_iff (hu : Underway ctx srb h s) (n : ℕ) :
    s.report = some ⟨0, n⟩ ↔ s.accepted = srb.buffer ∧ n = srb.buffer.length := by
  rw [hu.complete_iff]
  have hbuf := hu.buffer
  cases hu.stands with
  | posted hrep hlt _ _ =>
    rw [hrep, ← hbuf]
    refine iff_of_false (by simp) ?_
    intro hdone
    obtain ⟨hle, _⟩ := hdone
    omega
  | done hrep heq _ _ =>
    rw [hrep, hbuf] at *
    simp [heq, eq_comm]
  | failed e hrep hlt _ _ he0 _ =>
    rw [hrep, ← hbuf]
    refine iff_of_false ?_ ?_
    · simp [he0]
    · intro hdone
      obtain ⟨hle, _⟩ := hdone
      omega

theorem report_error_iff (hu : Underway ctx srb h s) {e : ℕ} (he0 : e ≠ 0) (n : ℕ) :
    s.report = some ⟨e, n⟩ ↔ lastResult h = some (.error e) ∧ e ≠ eagain ∧ n = s.accepted.length := by
  have hbuf := hu.buffer
  cases hu.stands with
  | posted hrep _ hlast _ =>
    rw [hrep]
    refine iff_of_false (by simp) ?_
    intro hmet
    obtain ⟨hl, hne, _⟩ := hmet
    exact hne (hlast e hl)
  | done hrep _ hlast _ =>
    rw [hrep]
    refine iff_of_false ?_ ?_
    · simp [he0.symm]
    · intro hmet
      obtain ⟨hl, _⟩ := hmet
      exact hlast e hl
  | failed d hrep hlt hlast hd _ _ =>
    have hlen := hu.accepted_length (hbuf ▸ hlt.le)
    rw [hrep, hlast, hlen]
    simp only [Option.some.injEq, Report.mk.injEq, KernelResult.error.injEq]
    constructor
    · intro heq
      obtain ⟨rfl, rfl⟩ := heq
      exact ⟨rfl, hd, rfl⟩
    · intro hmet
      obtain ⟨rfl, _, rfl⟩ := hmet
      exact ⟨rfl, rfl⟩

theorem posted_again (hu : Underway ctx srb h s) (hpart : s.accepted ≠ srb.buffer)
    (hlast : ∀ e, lastResult h = some (.error e) → e = eagain) :
    s.report = none ∧ registry s.svc srb.key = some (job ctx) := by
  rw [Ne, hu.complete_iff] at hpart
  have hbuf := hu.buffer
  cases hu.stands with
  | posted hrep _ _ hreg => exact ⟨hrep, hu.key ▸ hreg⟩
  | done _ heq _ _ => exact absurd (by rw [heq, hbuf]) hpart
  | failed e _ _ hl he _ _ => exact absurd (hlast e hl) he

/-- After the callback there is no further dispatch. -/
theorem called_once (hu : Underway ctx srb h s) (hrep : s.report ≠ none) (i : Service JobFunction × KernelResult)
    (s' : Sending) : ¬ Step ctx s i s' := by
  have hnone : registry s.svc s.srb.key = none := by
    cases hu.stands with
    | posted hn _ _ _ => exact absurd hn hrep
    | done _ _ _ hnone => exact hnone
    | failed _ _ _ _ _ _ hnone => exact hnone
  intro hstep
  obtain ⟨hreg, _⟩ := hstep
  exact absurd (hreg.symm.trans hnone) (by simp)

end Underway

/-- At every moment of an asynchronous send the accepted bytes are the first `bytes_operated` ones of
the buffer; the callback is called once, with all of them accepted or with the error that an
attempt met; and until then the request is posted for writing. -/
theorem send_request (hsend : srb.op = .send) (hne : srb.buffer ≠ []) (hstart : start svc ctx srb = some s₀)
    (hv : Valid svc.lookupTable) (hallow : svc.allowNew = true) (hfree : registry svc srb.key = none)
    (r : Run (Step ctx) s₀ h s) :
    s.accepted = srb.buffer.take s.srb.bytesOperated ∧
      (∀ n, s.report = some ⟨0, n⟩ ↔ s.accepted = srb.buffer ∧ n = srb.buffer.length) ∧
      (∀ e n, e ≠ 0 → (s.report = some ⟨e, n⟩ ↔
        lastResult h = some (.error e) ∧ e ≠ eagain ∧ n = s.accepted.length)) ∧
      (s.accepted ≠ srb.buffer → (∀ e, lastResult h = some (.error e) → e = eagain) →
        s.report = none ∧ registry s.svc (srb.endpoint.skt, .write) = some (job ctx)) ∧
      (s.report ≠ none → ∀ i s', ¬ Step ctx s i s') := by
  have hu := underway hne hstart hv hallow hfree r
  refine ⟨hu.accepted, hu.report_success_iff, fun e n he => hu.report_error_iff he n, ?_, hu.called_once⟩
  intro hpart hlast
  have hkey : srb.key = (srb.endpoint.skt, .write) := by rw [Srb.key, hsend]; rfl
  exact hkey ▸ hu.posted_again hpart hlast

/-- Two bytes, of which the kernel takes the second after a pause. -/
theorem send_request_two : ∃ s₀ h s, start (ioServiceInit 3) 64 sendTwo.srb = some s₀ ∧ Run (Step 64) s₀ h s ∧
    h.map (fun e => e.2.2) = [.count 1, .error eagain, .count 1] ∧ s.accepted = [104, 105] ∧
    s.report = some ⟨0, 2⟩ := by
  have hv : Valid (ioServiceInit 3 : Service JobFunction).lookupTable := valid_nil
  have hstep (s : Sending) (r : KernelResult) (hreg : registry s.svc s.srb.key = some (job 64))
      (hkey : s.srb.key = (5, .write)) (hfits : r.fits s.srb) :
      Step 64 s (ioServiceInit 3, r) (s.dispatch 64 (ioServiceInit 3) r) :=
    .dispatch hreg hv (by rw [hkey]; rfl) (fun _ _ => rfl) hfits
  have r : Run (Step 64) _ _ _ :=
    .next (.next (.next .start (hstep ⟨Srb.post sendTwo.srb 64 (ioServiceInit 3), sendTwo.srb, [], none⟩ (.count 1)
      rfl rfl (show 0 + 1 ≤ 2 by decide))) (hstep _ (.error eagain) rfl rfl (show eagain ≠ 0 by decide)))
      (hstep _ (.count 1) rfl rfl (show 1 + 1 ≤ 2 by decide))
  have hne : sendTwo.srb.buffer ≠ [] := by decide
  have hend := send_request rfl hne rfl hv rfl rfl r
  exact ⟨_, _, _, rfl, r, rfl, hend.1, (hend.2.1 2).mpr ⟨hend.1, rfl⟩⟩

end Sending
end Chats.Network
