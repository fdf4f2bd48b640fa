import Mathlib.Tactic

/-! # TCP transfers

The two ways in which `network/network.c` carries out a TCP request: a loop in the caller's
thread, and one attempt for each readiness of the socket. Both move bytes between the buffer of
the request and the kernel, which answers each attempt with a count or an error. -/
namespace Chats.Network
set_option autoImplicit false

inductive SrbOperation
  | send | recv
deriving DecidableEq

inductive EndpointType
  | tcp | udp | none
deriving DecidableEq

/-- `endpoint_socket_t`, as far as the transfers read it -/
structure EndpointSocket where
  skt : ℤ
  epType : EndpointType
deriving DecidableEq

structure Srb where
  op : SrbOperation
  src : EndpointSocket
  dst : EndpointSocket
  buffer : List UInt8
  bytesOperated : ℕ

namespace Srb

def endpoint (srb : Srb) : EndpointSocket := if srb.op = .send then srb.dst else srb.src

def other (srb : Srb) : EndpointSocket := if srb.op = .send then srb.src else srb.dst

end Srb

def eagain : ℕ := 11

/-- What `sendmsg` or `recvmsg` returns: a count of bytes, or -1 and `errno`. -/
inductive KernelResult
  | count (n : ℕ)
  | error (errno : ℕ)
deriving DecidableEq

/-- Bytes that were moved, from or to this offset of the buffer. -/
structure Move where
  skt : ℤ
  offset : ℕ
  count : ℕ
deriving DecidableEq

structure Report where
  errno : ℕ
  bytes : ℕ
deriving DecidableEq

/-- What a request has done so far: `report` is there once its callback was called. -/
@[ext] structure Transfer where
  moves : List Move
  report : Option Report
deriving DecidableEq

def KernelResult.moved (skt : ℤ) (offset : ℕ) : KernelResult → List Move
  | .count n => if n = 0 then [] else [{ skt, offset, count := n }]
  | .error _ => []

/-- What an attempt leaves in `errno`, which is cleared before it. -/
def KernelResult.errno : KernelResult → ℕ
  | .count _ => 0
  | .error e => e

/-! ## The asynchronous transfer -/

inductive Next
  | post (srb : Srb)
  | finish (report : Report)

/-- `tcp_send_recv_async_tpl`: `errno` is cleared before the attempt and a success leaves it. -/
def tcpSendRecvAsyncTpl (srb : Srb) : KernelResult → Next
  | .error e => if e = eagain then .post srb else .finish { errno := e, bytes := srb.bytesOperated }
  | .count n =>
    let bytesOp := srb.bytesOperated + n
    if bytesOp < srb.buffer.length then .post { srb with bytesOperated := bytesOp }
    else .finish { errno := 0, bytes := bytesOp }

/-- The dispatches of a request, each post of which is accepted. An attempt offers the buffer
from `bytes_operated` on. -/
def asyncTransfer (skt : ℤ) (srb : Srb) : List KernelResult → Transfer
  | [] => { moves := [], report := none }
  | r :: rs =>
    match tcpSendRecvAsyncTpl srb r with
    | .post srb' =>
      let rest := asyncTransfer skt srb' rs
      { rest with moves := r.moved skt srb.bytesOperated ++ rest.moves }
    | .finish report => { moves := r.moved skt srb.bytesOperated, report := some report }

/-- `tcp_send_recv_async`; `none` is a failed assertion. -/
def tcpSendRecvAsync (srb : Srb) (rs : List KernelResult) : Option Transfer :=
  if srb.endpoint.skt < 0 ∨ srb.endpoint.epType ≠ .tcp then none
  else some (asyncTransfer srb.endpoint.skt { srb with bytesOperated := 0 } rs)

/-! ## The synchronous transfer -/

/-- The `while` loop: every attempt offers the whole buffer. -/
def syncLoop (skt : ℤ) (size bytesOp errno : ℕ) (rs : List KernelResult) : Transfer :=
  if bytesOp < size then
    match rs with
    | [] => { moves := [], report := none }
    | .error e :: _ => { moves := [], report := some { errno := e, bytes := bytesOp } }
    | .count n :: rs =>
      -- `iov_base` and `iov_len` are not advanced
      let rest := syncLoop skt size (bytesOp + n) 0 rs
      { rest with moves := (KernelResult.count n).moved skt 0 ++ rest.moves }
  else { moves := [], report := some { errno, bytes := bytesOp } }

/-- `tcp_send_recv_sync`. The endpoint is chosen by the local `op` before it has a value:
`op` is what the stack holds there, and `errno` what an earlier call left. -/
def tcpSendRecvSync (op : UInt32) (errno : ℕ) (srb : Srb) (rs : List KernelResult) : Option Transfer :=
  let ep := if op = 0 then srb.dst else srb.src
  if ep.skt < 0 ∨ ep.epType ≠ .tcp then none
  else some (syncLoop ep.skt srb.buffer.length 0 errno rs)

/-! ## One request carried out both ways -/

/-- A TCP request as the callers build it: on an open socket, the other endpoint unused. -/
structure TcpRequest where
  srb : Srb
  isOpen : 0 ≤ srb.endpoint.skt
  isTcp : srb.endpoint.epType = .tcp
  unused : srb.other.skt = -1

def TcpRequest.size (q : TcpRequest) : ℕ := q.srb.buffer.length

/-- The kernel's answers: counts that never exceed what is left, then a hard error or none. -/
structure KernelRun (size : ℕ) where
  counts : List ℕ
  error : Option ℕ
  bounded : counts.sum ≤ size
  hard : ∀ e ∈ error, e ≠ eagain ∧ e ≠ 0

def answers (counts : List ℕ) (error : Option ℕ) : List KernelResult :=
  counts.map .count ++ (error.map .error).toList

def KernelRun.results {size : ℕ} (k : KernelRun size) : List KernelResult := answers k.counts k.error

def positive (counts : List ℕ) : List ℕ := counts.filter fun n => 0 < n

/-- The bytes that the moves of a send put on the stream. -/
def Transfer.stream (t : Transfer) (buffer : List UInt8) : List UInt8 :=
  t.moves.flatMap fun m => (buffer.drop m.offset).take m.count

theorem moved_stream (skt : ℤ) (offset n : ℕ) (report : Option Report) (buffer : List UInt8) :
    Transfer.stream { moves := (KernelResult.count n).moved skt offset, report } buffer =
      (buffer.drop offset).take n := by
  by_cases hn : n = 0 <;> simp [KernelResult.moved, Transfer.stream, hn]

theorem stream_append (moves : List Move) (t : Transfer) (buffer : List UInt8) :
    Transfer.stream { t with moves := moves ++ t.moves } buffer =
      Transfer.stream { moves, report := none } buffer ++ t.stream buffer := by
  unfold Transfer.stream
  rw [List.flatMap_append]

section both
variable (skt : ℤ) (srb : Srb) (counts : List ℕ) (error : Option ℕ) (errno : ℕ)

theorem async_cons (n : ℕ) : asyncTransfer skt srb (answers (n :: counts) error) =
    if srb.bytesOperated + n < srb.buffer.length then
      let rest := asyncTransfer skt { srb with bytesOperated := srb.bytesOperated + n } (answers counts error)
      { rest with moves := (KernelResult.count n).moved skt srb.bytesOperated ++ rest.moves }
    else { moves := (KernelResult.count n).moved skt srb.bytesOperated
           report := some { errno := 0, bytes := srb.bytesOperated + n } } := by
  simp only [answers, List.map_cons, List.cons_append, asyncTransfer, tcpSendRecvAsyncTpl]
  split_ifs <;> rfl

theorem sync_cons (n : ℕ) (hlt : srb.bytesOperated < srb.buffer.length) :
    syncLoop skt srb.buffer.length srb.bytesOperated errno (answers (n :: counts) error) =
      let rest := syncLoop skt srb.buffer.length (srb.bytesOperated + n) 0 (answers counts error)
      { rest with moves := (KernelResult.count n).moved skt 0 ++ rest.moves } := by
  conv_lhs => unfold syncLoop
  rw [if_pos hlt]
  rfl

theorem sync_done (rs : List KernelResult) {size bytesOp : ℕ} (h : ¬ bytesOp < size) :
    syncLoop skt size bytesOp errno rs = { moves := [], report := some { errno, bytes := bytesOp } } := by
  unfold syncLoop
  rw [if_neg h]

theorem sync_nil (hlt : srb.bytesOperated < srb.buffer.length) (hhard : ∀ e ∈ error, e ≠ eagain ∧ e ≠ 0) :
    syncLoop skt srb.buffer.length srb.bytesOperated errno (answers [] error) =
      asyncTransfer skt srb (answers [] error) := by
  unfold syncLoop
  rw [if_pos hlt]
  cases error with
  | none => rfl
  | some e => simp [answers, asyncTransfer, tcpSendRecvAsyncTpl, (hhard e rfl).1, KernelResult.moved]

variable (hhard : ∀ e ∈ error, e ≠ eagain ∧ e ≠ 0)
include hhard

/-- Both count alike and see the same answer last. -/
theorem report_eq (hlt : srb.bytesOperated < srb.buffer.length) :
    (syncLoop skt srb.buffer.length srb.bytesOperated errno (answers counts error)).report =
      (asyncTransfer skt srb (answers counts error)).report := by
  induction counts generalizing srb errno with
  | nil => rw [sync_nil skt srb error errno hlt hhard]
  | cons n counts ih =>
    rw [sync_cons skt srb counts error errno n hlt, async_cons]
    by_cases hn : srb.bytesOperated + n < srb.buffer.length
    · rw [if_pos hn]
      exact ih { srb with bytesOperated := srb.bytesOperated + n } 0 hn
    · rw [if_neg hn, sync_done skt 0 _ hn]

/-- Once bytes have been moved, the next ones go to different offsets. -/
theorem moves_eq_iff_later (h0 : 0 < srb.bytesOperated) (hlt : srb.bytesOperated < srb.buffer.length) :
    (syncLoop skt srb.buffer.length srb.bytesOperated errno (answers counts error)).moves =
      (asyncTransfer skt srb (answers counts error)).moves ↔ positive counts = [] := by
  induction counts generalizing errno with
  | nil =>
    rw [sync_nil skt srb error errno hlt hhard]
    exact ⟨fun _ => rfl, fun _ => rfl⟩
  | cons n counts ih =>
    rw [sync_cons skt srb counts error errno n hlt, async_cons]
    by_cases hn : n = 0
    · subst hn
      rw [Nat.add_zero, if_pos hlt]
      exact ih 0
    · have hoff : srb.bytesOperated ≠ 0 := by omega
      have hpos : positive (n :: counts) ≠ [] := by simp [positive, Nat.pos_of_ne_zero hn]
      refine iff_of_false ?_ hpos
      split_ifs <;> simp [KernelResult.moved, hn, hoff.symm]

/-- From the start the moves agree as long as only one of them moves anything. -/
theorem moves_eq_iff (hlt : 0 < srb.buffer.length) (hsum : counts.sum ≤ srb.buffer.length) :
    (syncLoop skt srb.buffer.length 0 errno (answers counts error)).moves =
      (asyncTransfer skt { srb with bytesOperated := 0 } (answers counts error)).moves ↔
      (positive counts).length ≤ 1 := by
  induction counts generalizing errno with
  | nil =>
    rw [sync_nil skt { srb with bytesOperated := 0 } error errno hlt hhard]
    simp [positive]
  | cons n counts ih =>
    rw [List.sum_cons] at hsum
    rw [sync_cons skt { srb with bytesOperated := 0 } counts error errno n hlt, async_cons]
    simp only [Nat.zero_add]
    by_cases hn : n = 0
    · subst hn
      rw [if_pos hlt]
      exact ih 0 (by omega)
    · have hpos : (positive (n :: counts)).length = (positive counts).length + 1 := by
        simp [positive, Nat.pos_of_ne_zero hn]
      rw [hpos]
      by_cases hlast : n < srb.buffer.length
      · have hlater := moves_eq_iff_later skt { srb with bytesOperated := n } counts error 0 hhard
          (Nat.pos_of_ne_zero hn) hlast
        rw [if_pos hlast]
        simp only [List.append_cancel_left_eq] at hlater ⊢
        rw [hlater, ← List.length_eq_zero_iff]
        omega
      · have hzero : positive counts = [] := by
          rw [positive, List.filter_eq_nil_iff]
          intro m hm
          have hle := List.single_le_sum (fun _ _ => Nat.zero_le _) m hm
          simp only [decide_eq_true_eq]
          omega
        rw [if_neg hlast, sync_done skt 0 _ hlast, hzero]
        simp

/-- A transfer that ends without an error has put the rest of the buffer on the stream. -/
theorem async_stream (hsum : srb.bytesOperated + counts.sum ≤ srb.buffer.length)
    {n : ℕ} (hdone : (asyncTransfer skt srb (answers counts error)).report = some { errno := 0, bytes := n }) :
    (asyncTransfer skt srb (answers counts error)).stream srb.buffer = srb.buffer.drop srb.bytesOperated := by
  induction counts generalizing srb with
  | nil =>
    cases error with
    | none => cases hdone
    | some e =>
      have he := hhard e rfl
      simp [answers, asyncTransfer, tcpSendRecvAsyncTpl, he.1, he.2] at hdone
  | cons m counts ih =>
    rw [List.sum_cons] at hsum
    rw [async_cons] at hdone ⊢
    by_cases hm : srb.bytesOperated + m < srb.buffer.length
    · rw [if_pos hm] at hdone ⊢
      have hrest := ih { srb with bytesOperated := srb.bytesOperated + m } (by simp only; omega) hdone
      rw [stream_append, hrest, moved_stream]
      simp only
      rw [← List.drop_drop, List.take_append_drop]
    · rw [if_neg hm, moved_stream, List.take_of_length_le]
      rw [List.length_drop]
      omega

/-- A request for some bytes is carried out alike if at most one answer moves any. -/
theorem transfer_eq_iff (hlt : 0 < srb.buffer.length) (hsum : counts.sum ≤ srb.buffer.length) :
    syncLoop skt srb.buffer.length 0 errno (answers counts error) =
      asyncTransfer skt { srb with bytesOperated := 0 } (answers counts error) ↔
      (positive counts).length ≤ 1 := by
  have hreport := report_eq skt { srb with bytesOperated := 0 } counts error errno hhard hlt
  rw [← moves_eq_iff skt srb counts error errno hhard hlt hsum]
  constructor
  · intro heq
    rw [heq]
  · intro hmoves
    exact Transfer.ext hmoves hreport

/-- A request for no bytes: the loop reports what an earlier call left in `errno`. -/
theorem empty_eq_iff (hnil : srb.buffer = []) (hsum : counts.sum = 0) :
    syncLoop skt srb.buffer.length 0 errno (answers counts error) =
      asyncTransfer skt { srb with bytesOperated := 0 } (answers counts error) ↔
      ∃ r, (answers counts error).head? = some r ∧ r.errno = errno := by
  rw [sync_done skt errno _ (by simp [hnil])]
  cases counts with
  | nil =>
    cases error with
    | none => simp [answers, asyncTransfer]
    | some e =>
      simp [answers, asyncTransfer, tcpSendRecvAsyncTpl, (hhard e rfl).1, KernelResult.moved,
        KernelResult.errno, eq_comm]
  | cons n counts =>
    have hn : n = 0 := by
      rw [List.sum_cons] at hsum
      omega
    rw [async_cons, if_neg (by simp [hnil])]
    simp [answers, hn, KernelResult.moved, KernelResult.errno, eq_comm]

end both

section requests
variable (op : UInt32) (errno : ℕ) (q : TcpRequest)

theorem async_started (rs : List KernelResult) : tcpSendRecvAsync q.srb rs =
    some (asyncTransfer q.srb.endpoint.skt { q.srb with bytesOperated := 0 } rs) := by
  have hopen := q.isOpen
  have htcp := q.isTcp
  unfold tcpSendRecvAsync
  rw [if_neg (by simp [hopen, htcp])]

/-- The value of `op` picks the endpoint that the request is on. -/
def Selected : Prop := op = 0 ↔ q.srb.op = .send

theorem sync_selected (h : Selected op q) (rs : List KernelResult) : tcpSendRecvSync op errno q.srb rs =
    some (syncLoop q.srb.endpoint.skt q.size 0 errno rs) := by
  have hopen := q.isOpen
  have htcp := q.isTcp
  have hep : (if op = 0 then q.srb.dst else q.srb.src) = q.srb.endpoint := if_congr h rfl rfl
  unfold tcpSendRecvSync
  simp only [hep]
  rw [if_neg (by simp [hopen, htcp])]
  rfl

/-- The other endpoint has no socket, so the assertion fails. -/
theorem sync_not_selected (h : ¬ Selected op q) (rs : List KernelResult) :
    tcpSendRecvSync op errno q.srb rs = none := by
  have hunused := q.unused
  have hep : (if op = 0 then q.srb.dst else q.srb.src) = q.srb.other := by
    unfold Selected at h
    unfold Srb.other
    by_cases hop : op = 0 <;> by_cases hsend : q.srb.op = .send <;> simp_all
  unfold tcpSendRecvSync
  simp only [hep]
  rw [if_pos (Or.inl (by omega))]

/-- Both ways do and report the same, and a completed send has put the buffer on the stream. -/
def SameTransfer (k : KernelRun q.size) : Prop :=
  ∃ t, tcpSendRecvSync op errno q.srb k.results = some t ∧ tcpSendRecvAsync q.srb k.results = some t ∧
    (q.srb.op = .send → t.report = some { errno := 0, bytes := q.size } →
      t.stream q.srb.buffer = q.srb.buffer)

/-- The kernel moves all bytes at once, or there are none to move and `errno` happens to be
what the attempt of the other way leaves. -/
def AtOnce (k : KernelRun q.size) : Prop :=
  (q.srb.buffer ≠ [] ∧ (positive k.counts).length ≤ 1) ∨
    (q.srb.buffer = [] ∧ ∃ r, k.results.head? = some r ∧ r.errno = errno)

theorem loops_eq_iff (k : KernelRun q.size) :
    syncLoop q.srb.endpoint.skt q.size 0 errno k.results =
      asyncTransfer q.srb.endpoint.skt { q.srb with bytesOperated := 0 } k.results ↔
      AtOnce errno q k := by
  have hsum : k.counts.sum ≤ q.srb.buffer.length := k.bounded
  by_cases hnil : q.srb.buffer = []
  · have hzero : k.counts.sum = 0 := by simpa [hnil] using hsum
    have hempty := empty_eq_iff q.srb.endpoint.skt q.srb k.counts k.error errno k.hard hnil hzero
    refine Iff.trans hempty ?_
    unfold AtOnce
    simp only [hnil, ne_eq, not_true_eq_false, false_and, true_and, false_or]
    rfl
  · have hlt := List.length_pos_of_ne_nil hnil
    have hsome := transfer_eq_iff q.srb.endpoint.skt q.srb k.counts k.error errno k.hard hlt hsum
    refine Iff.trans hsome ?_
    unfold AtOnce
    simp only [hnil, ne_eq, not_false_eq_true, true_and, false_and, or_false]

/-- The loop does what the dispatches do exactly when its uninitialised `op` picks the right
endpoint and no second answer has to continue where the first one stopped. -/
theorem same_transfer_iff (k : KernelRun q.size) :
    SameTransfer op errno q k ↔ Selected op q ∧ AtOnce errno q k := by
  constructor
  · intro hsame
    obtain ⟨t, hsync, hasync, -⟩ := hsame
    by_cases hsel : Selected op q
    · rw [sync_selected op errno q hsel] at hsync
      rw [async_started] at hasync
      have heq := Option.some.inj (hsync.trans hasync.symm)
      exact ⟨hsel, (loops_eq_iff errno q k).mp heq⟩
    · rw [sync_not_selected op errno q hsel] at hsync
      cases hsync
  · intro h
    obtain ⟨hsel, honce⟩ := h
    refine ⟨_, sync_selected op errno q hsel _, ?_, ?_⟩
    · rw [async_started, (loops_eq_iff errno q k).mpr honce]
    · intro _ hdone
      rw [(loops_eq_iff errno q k).mpr honce] at hdone ⊢
      have hbound : 0 + k.counts.sum ≤ q.srb.buffer.length := by
        rw [Nat.zero_add]
        exact k.bounded
      exact async_stream q.srb.endpoint.skt { q.srb with bytesOperated := 0 } k.counts k.error k.hard
        hbound hdone

end requests

/-- A send of two bytes, of which the kernel takes one at a time. -/
def sendTwo : TcpRequest where
  srb := { op := .send, src := { skt := -1, epType := .none }, dst := { skt := 5, epType := .tcp },
           buffer := [104, 105], bytesOperated := 0 }
  isOpen := by decide
  isTcp := rfl
  unused := rfl

def oneByOne : KernelRun sendTwo.size where
  counts := [1, 1]
  error := none
  bounded := by decide
  hard := by simp

/-- The loop reports two bytes sent and has put the first one on the stream twice. -/
theorem sync_sends_first_byte_twice :
    (tcpSendRecvSync 0 0 sendTwo.srb oneByOne.results).map (fun t => (t.report, t.stream sendTwo.srb.buffer)) =
      some (some { errno := 0, bytes := 2 }, [104, 104]) ∧
    (tcpSendRecvAsync sendTwo.srb oneByOne.results).map (fun t => (t.report, t.stream sendTwo.srb.buffer)) =
      some (some { errno := 0, bytes := 2 }, [104, 105]) ∧
    ¬ SameTransfer 0 0 sendTwo oneByOne := by
  refine ⟨by decide, by decide, ?_⟩
  intro hsame
  obtain ⟨t, hsync, hasync, -⟩ := hsame
  have heq := hsync.trans hasync.symm
  revert heq
  decide

end Chats.Network
