import Chats.Network.Transfer

/-! # Receiving from a peer that closes

`recvmsg` answers 0 once the peer has closed, and neither way of `network/network.c` looks for
it: the loop makes its next attempt, the job is posted again. A request that lacks bytes then
ends with an error of the kernel or not at all. -/
namespace Chats.Network
set_option autoImplicit false

/-- The bytes that a result adds. -/
def KernelResult.bytes : KernelResult → ℕ
  | .count n => n
  | .error _ => 0

def received (rs : List KernelResult) : ℕ := (rs.map KernelResult.bytes).sum

theorem received_cons (r : KernelResult) (rs : List KernelResult) : received (r :: rs) = r.bytes + received rs := by
  simp [received]

/-- The first `n` results. -/
def firstResults (result : ℕ → KernelResult) (n : ℕ) : List KernelResult := (List.range n).map result

theorem exists_mem_firstResults {result : ℕ → KernelResult} {n : ℕ} (p : KernelResult → Prop) :
    (∃ r ∈ firstResults result n, p r) ↔ ∃ i < n, p (result i) := by
  simp [firstResults]

/-- What `recvmsg` answers where the peer closes before `size` bytes have come. -/
structure PeerCloses (size : ℕ) where
  result : ℕ → KernelResult
  closed : ∃ N, ∀ n, N ≤ n → result n = .count 0
  short : ∀ n, received (firstResults result n) < size

/-- The request has called back by the end of its first `n` attempts. -/
def Ended (run : List KernelResult → Option Transfer) (result : ℕ → KernelResult) (n : ℕ) : Prop :=
  ∃ t, run (firstResults result n) = some t ∧ t.report ≠ none

/-- The request ends, and every attempt until then brings bytes, meets `EAGAIN` or ends it. -/
def Ends (run : List KernelResult → Option Transfer) (result : ℕ → KernelResult) : Prop :=
  (∃ n, Ended run result n) ∧
    ∀ n, ¬ Ended run result n → (∃ k, 0 < k ∧ result n = .count k) ∨ result n = .error eagain ∨ Ended run result (n + 1)

/-! ## What ends a request that lacks bytes -/

/-- The job is posted again after every result but a hard error. -/
theorem async_unreported_iff (skt : ℤ) (rs : List KernelResult) : ∀ srb : Srb,
    srb.bytesOperated + received rs < srb.buffer.length →
      ((asyncTransfer skt srb rs).report = none ↔ ∀ r ∈ rs, ∀ e, r = .error e → e = eagain) := by
  induction rs with
  | nil =>
    intro srb _
    simp [asyncTransfer]
  | cons r rs ih =>
    intro srb hlt
    rw [received_cons] at hlt
    rw [List.forall_mem_cons]
    cases r with
    | error e =>
      simp only [KernelResult.bytes, Nat.zero_add] at hlt
      by_cases he : e = eagain
      · subst he
        have hpost : tcpSendRecvAsyncTpl srb (.error eagain) = .post srb := rfl
        simp only [asyncTransfer, hpost, ih srb hlt]
        simp [eq_comm]
      · have hfin : tcpSendRecvAsyncTpl srb (.error e) = .finish ⟨e, srb.bytesOperated⟩ := if_neg he
        simp [asyncTransfer, hfin, he]
    | count n =>
      simp only [KernelResult.bytes] at hlt
      have hpost : tcpSendRecvAsyncTpl srb (.count n) = .post { srb with bytesOperated := srb.bytesOperated + n } :=
        if_pos (by omega)
      simp only [asyncTransfer, hpost]
      rw [ih { srb with bytesOperated := srb.bytesOperated + n } (by simp only; omega)]
      simp

/-- The loop goes on after every result but an error. -/
theorem sync_unreported_iff (skt : ℤ) (size : ℕ) (rs : List KernelResult) : ∀ bytesOp errno : ℕ,
    bytesOp + received rs < size →
      ((syncLoop skt size bytesOp errno rs).report = none ↔ ∀ r ∈ rs, ∀ e, r ≠ .error e) := by
  induction rs with
  | nil =>
    intro bytesOp errno hlt
    rw [received, List.map_nil, List.sum_nil] at hlt
    rw [syncLoop.eq_def, if_pos (by omega)]
    simp
  | cons r rs ih =>
    intro bytesOp errno hlt
    rw [received_cons] at hlt
    rw [List.forall_mem_cons, syncLoop.eq_def, if_pos (by omega)]
    cases r with
    | error e => simp
    | count n =>
      simp only [KernelResult.bytes] at hlt
      simp only [ih (bytesOp + n) 0 (by omega)]
      simp

section ends
variable {run : List KernelResult → Option Transfer} {result : ℕ → KernelResult} (stops : KernelResult → Prop)
  (hended : ∀ n, Ended run result n ↔ ∃ i < n, stops (result i)) (herror : ∀ e, ¬ stops (.error e) → e = eagain)
include hended herror

/-- A request that only certain errors end does so, with progress until then, exactly when one of
them comes before any empty result. -/
theorem ends_iff : Ends run result ↔ ∃ i, stops (result i) ∧ ∀ j < i, result j ≠ .count 0 := by
  classical
  constructor
  · intro hends
    obtain ⟨⟨n, hn⟩, hprog⟩ := hends
    obtain ⟨i, _, hi⟩ := (hended n).mp hn
    have hex : ∃ i, stops (result i) := ⟨i, hi⟩
    refine ⟨Nat.find hex, Nat.find_spec hex, ?_⟩
    intro j hj hzero
    have hearlier (k : ℕ) (hk : k ≤ Nat.find hex) : ¬ Ended run result k := by
      rw [hended]
      intro hearly
      obtain ⟨l, hl, hstop⟩ := hearly
      exact Nat.find_min hex (hl.trans_le hk) hstop
    rcases hprog j (hearlier j hj.le) with ⟨k, hk, hres⟩ | hres | hend
    · rw [hzero, KernelResult.count.injEq] at hres
      omega
    · rw [hzero] at hres
      cases hres
    · exact hearlier (j + 1) hj hend
  · intro hstop
    obtain ⟨i, hi, hbefore⟩ := hstop
    refine ⟨⟨i + 1, (hended _).mpr ⟨i, i.lt_succ_self, hi⟩⟩, ?_⟩
    intro n hn
    by_cases hstop : stops (result n)
    · exact .inr (.inr ((hended _).mpr ⟨n, n.lt_succ_self, hstop⟩))
    · have hni : n < i := by
        by_contra hle
        have hne : i ≠ n := fun h => hstop (h ▸ hi)
        exact hn ((hended n).mpr ⟨i, by omega, hi⟩)
      have hnz := hbefore n hni
      cases hres : result n with
      | count k =>
        rw [hres, Ne, KernelResult.count.injEq] at hnz
        exact .inl ⟨k, Nat.pos_of_ne_zero hnz, rfl⟩
      | error e =>
        rw [hres] at hstop
        exact .inr (.inl (by rw [herror e hstop]))

end ends

section requests
variable (op : UInt32) (errno : ℕ) (q : TcpRequest) (k : PeerCloses q.size)

theorem async_ended_iff (n : ℕ) : Ended (tcpSendRecvAsync q.srb) k.result n ↔
    ∃ i < n, ∃ e, k.result i = .error e ∧ e ≠ eagain := by
  have hlt : 0 + received (firstResults k.result n) < q.srb.buffer.length := by
    rw [Nat.zero_add]
    exact k.short n
  have hrep := async_unreported_iff q.srb.endpoint.skt (firstResults k.result n) { q.srb with bytesOperated := 0 } hlt
  unfold Ended
  simp only [async_started, Option.some.injEq, exists_eq_left', Ne, hrep]
  push Not
  exact exists_mem_firstResults fun r => ∃ e, r = .error e ∧ e ≠ eagain

theorem sync_ended_iff (h : Selected op q) (n : ℕ) : Ended (tcpSendRecvSync op errno q.srb) k.result n ↔
    ∃ i < n, ∃ e, k.result i = .error e := by
  have hlt : 0 + received (firstResults k.result n) < q.size := by
    rw [Nat.zero_add]
    exact k.short n
  have hrep := sync_unreported_iff q.srb.endpoint.skt q.size (firstResults k.result n) 0 errno hlt
  unfold Ended
  simp only [sync_selected op errno q h, Option.some.injEq, exists_eq_left', Ne, hrep]
  push Not
  exact exists_mem_firstResults fun r => ∃ e, r = .error e

theorem async_ends_iff : Ends (tcpSendRecvAsync q.srb) k.result ↔
    ∃ i e, k.result i = .error e ∧ e ≠ eagain ∧ ∀ j < i, k.result j ≠ .count 0 := by
  have h := ends_iff (fun r => ∃ e, r = .error e ∧ e ≠ eagain) (async_ended_iff q k) (by simp)
  rw [h]
  constructor
  · intro hfound
    obtain ⟨i, ⟨e, he, hne⟩, hb⟩ := hfound
    exact ⟨i, e, he, hne, hb⟩
  · intro hfound
    obtain ⟨i, e, he, hne, hb⟩ := hfound
    exact ⟨i, ⟨e, he, hne⟩, hb⟩

theorem sync_ends_iff : Ends (tcpSendRecvSync op errno q.srb) k.result ↔
    Selected op q ∧ ∃ i e, k.result i = .error e ∧ ∀ j < i, k.result j ≠ .count 0 := by
  by_cases hsel : Selected op q
  · have h := ends_iff (fun r => ∃ e, r = .error e) (sync_ended_iff op errno q k hsel) (by simp)
    rw [h]
    constructor
    · intro hfound
      obtain ⟨i, ⟨e, he⟩, hb⟩ := hfound
      exact ⟨hsel, i, e, he, hb⟩
    · intro hfound
      obtain ⟨_, i, e, he, hb⟩ := hfound
      exact ⟨i, ⟨e, he⟩, hb⟩
  · refine iff_of_false ?_ fun h => hsel h.1
    intro hends
    obtain ⟨⟨n, t, ht, _⟩, _⟩ := hends
    rw [sync_not_selected op errno q hsel] at ht
    cases ht

/-- A receive request whose peer closes early ends exactly when an error comes before the end of
the stream does; of `EAGAIN` that is only so in the loop. -/
theorem receive_ends_iff (hrecv : q.srb.op = .recv) :
    (Ends (tcpSendRecvAsync q.srb) k.result ↔
      ∃ i e, k.result i = .error e ∧ e ≠ eagain ∧ ∀ j < i, k.result j ≠ .count 0) ∧
    (Ends (tcpSendRecvSync op errno q.srb) k.result ↔
      op ≠ 0 ∧ ∃ i e, k.result i = .error e ∧ ∀ j < i, k.result j ≠ .count 0) := by
  refine ⟨async_ends_iff q k, ?_⟩
  have hsel : Selected op q ↔ op ≠ 0 := by simp [Selected, hrecv]
  rw [sync_ends_iff, hsel]

end requests

/-- A request for one byte. -/
def recvOne : TcpRequest where
  srb := { op := .recv, src := { skt := 5, epType := .tcp }, dst := { skt := -1, epType := .none },
           buffer := [0], bytesOperated := 0 }
  isOpen := by decide
  isTcp := rfl
  unused := rfl

/-- The peer closes at once. -/
def closesAtOnce : PeerCloses recvOne.size where
  result := fun _ => .count 0
  closed := ⟨0, fun _ _ => rfl⟩
  short := by
    intro n
    have h : firstResults (fun _ => .count 0) n = List.replicate n (.count 0) := by simp [firstResults, List.map_const']
    rw [h, received, List.map_replicate, List.sum_replicate]
    simp [KernelResult.bytes, TcpRequest.size, recvOne]

theorem receive_ends_at_once : ¬ Ends (tcpSendRecvAsync recvOne.srb) closesAtOnce.result := by
  rw [(receive_ends_iff 1 0 recvOne closesAtOnce rfl).1]
  intro hmet
  obtain ⟨i, e, he, _⟩ := hmet
  cases he

/-- Neither way calls back, however often it goes round. -/
theorem receive_never_ends : ¬ Ends (tcpSendRecvAsync recvOne.srb) closesAtOnce.result ∧
    ¬ Ends (tcpSendRecvSync 1 0 recvOne.srb) closesAtOnce.result ∧
    ∀ n, ¬ Ended (tcpSendRecvAsync recvOne.srb) closesAtOnce.result n ∧
      ¬ Ended (tcpSendRecvSync 1 0 recvOne.srb) closesAtOnce.result n := by
  have hsel : Selected 1 recvOne := by simp [Selected, recvOne]
  have ha (n : ℕ) : ¬ Ended (tcpSendRecvAsync recvOne.srb) closesAtOnce.result n := by
    rw [async_ended_iff]
    intro hmet
    obtain ⟨i, _, e, he, _⟩ := hmet
    cases he
  have hs (n : ℕ) : ¬ Ended (tcpSendRecvSync 1 0 recvOne.srb) closesAtOnce.result n := by
    rw [sync_ended_iff 1 0 recvOne closesAtOnce hsel]
    intro hmet
    obtain ⟨i, _, e, he⟩ := hmet
    cases he
  exact ⟨fun h => h.1.elim ha, fun h => h.1.elim hs, fun n => ⟨ha n, hs n⟩⟩

end Chats.Network
