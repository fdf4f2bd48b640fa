import Chats.Lib.Lifetime
import Chats.Network.Transfer

/-! # The operators

`srb_operate` of `network/network.c` and the operators it chooses from: what each of them does with
its request, for everything the kernel may answer. A call that the kernel has not answered, a job
that is not dispatched and an assertion that fails all end what one can see. -/
namespace Chats.Network
open Chats.Lib
set_option autoImplicit false

/-- What is done with a request, in order. -/
inductive Event
  | use
  | callback (ep : EndpointSocket) (err : ℤ) (bytesOperated : ℕ) (hasMoreBytes : Option ℕ)
  | release
deriving DecidableEq

def Event.isCallback : Event → Bool
  | .callback _ _ _ _ => true
  | _ => false

def Event.isRelease : Event → Bool
  | .release => true
  | _ => false

/-- At most one callback, and nothing after the release. -/
abbrev Lawful : List Event → Prop := Lifetime Event.isCallback Event.isRelease

/-- `srb_t` as the user fills it in; for `iosvc` and `cb`, whether they are set. -/
structure Request where
  type : EndpointType
  op : SrbOperation
  src : EndpointSocket
  dst : EndpointSocket
  iosvc : Bool
  buffer : Option (List UInt8)
  cb : Bool

/-- What an operator meets: what the stack and `errno` hold, the results of `sendmsg` and `recvmsg`,
and the answers of `ioctl`, where `none` is a failure. -/
structure Met where
  op : UInt32
  errno : ℕ
  results : List KernelResult
  ioctls : List (Option ℕ)

/-- A signed result as `size_t`. -/
def sizeT (n : ℤ) : ℕ := (n % 2 ^ 64).toNat

/-- The value that `sendmsg` and `recvmsg` return. -/
def KernelResult.value : KernelResult → ℤ
  | .count n => n
  | .error _ => -1

def nsrceBufferTooSmall : ℤ := -1

namespace Request

def srb (q : Request) (buffer : List UInt8) : Srb :=
  { op := q.op, src := q.src, dst := q.dst, buffer, bytesOperated := 0 }

/-- The callback, if there is one, and the release; an unassigned `more_bytes` is `none`. -/
def complete (q : Request) (ep : EndpointSocket) (err : ℤ) (bytesOperated : ℕ) (hasMoreBytes : Option ℕ) :
    List Event :=
  .use :: ((if q.cb then [.callback ep err bytesOperated hasMoreBytes] else []) ++ [.release])

/-- The assertions that an operator starts with, on its endpoint and on the buffer. -/
def checked (q : Request) (ep : EndpointSocket) (type : EndpointType) (rest : List UInt8 → List Event) :
    List Event :=
  .use :: if ep.skt < 0 ∨ ep.epType ≠ type then [] else
    match q.buffer with
    | none => []
    | some buffer => .use :: rest buffer

end Request

/-- `assert(0 == ioctl(…))`, the only one of an operator -/
def Met.ioctl (m : Met) (rest : ℕ → List Event) : List Event :=
  match m.ioctls with
  | some n :: _ => rest n
  | _ => []

/-! ## Synchronous -/

/-- The `while` loop with what follows it, as `syncLoop` counts. -/
def attempts (size bytesOp errno : ℕ) (rest : ℕ → ℕ → List Event) (rs : List KernelResult) : List Event :=
  if bytesOp < size then
    .use :: match rs with
      | [] => []
      | .error e :: _ => rest bytesOp e
      | .count n :: rs => attempts size (bytesOp + n) 0 rest rs
  else rest bytesOp errno

namespace Request

def operateSync (q : Request) (m : Met) (ep : EndpointSocket) (type : EndpointType) : List Event :=
  q.checked ep type fun buffer =>
    attempts buffer.length 0 m.errno (fun bytes err =>
      .use :: m.ioctl fun more => q.complete ep err bytes (some more)) m.results

/-- The endpoint is chosen by the local `op` before it has a value. -/
def tcpSendRecvSync (q : Request) (m : Met) : List Event :=
  q.operateSync m (if m.op = 0 then q.dst else q.src) .tcp

def udpSendSync (q : Request) (m : Met) : List Event := q.operateSync m q.dst .udp

/-! ## Asynchronous -/

/-- The dispatches of `tcp_send_recv_async_tpl` and of `udp_send_async_tpl`, which differ in the
endpoint that the callback gets. -/
def dispatches (q : Request) (m : Met) (ep : EndpointSocket) (srb : Srb) : List KernelResult → List Event
  | [] => []
  | r :: rs => .use ::
    match r, tcpSendRecvAsyncTpl srb r with
    | .error _, .post srb' => q.dispatches m ep srb' rs
    | .error _, .finish report => q.complete ep report.errno report.bytes none
    | .count _, .post srb' => .use :: q.dispatches m ep srb' rs
    | .count _, .finish report =>
      .use :: m.ioctl fun more => q.complete ep report.errno report.bytes (some more)

def tcpSendRecvAsync (q : Request) (m : Met) : List Event :=
  let ep := if q.op = .send then q.dst else q.src
  q.checked ep .tcp fun buffer => q.dispatches m ep (q.srb buffer) m.results

def udpSendAsync (q : Request) (m : Met) : List Event :=
  q.checked q.dst .udp fun buffer => q.dispatches m q.dst (q.srb buffer) m.results

/-! ## Datagrams received -/

/-- The read of the datagram, to the end of the operator. -/
def udpRead (q : Request) (pending : ℕ) : List KernelResult → List Event
  | [] => [.use]
  | r :: _ => .use :: .use :: q.complete q.src r.errno r.value.toNat (some pending)

/-- What `udp_recv_sync` and `udp_recv_async_tpl` do alike. -/
def udpReceive (q : Request) (m : Met) (size : ℕ) : List Event :=
  m.ioctl fun pending =>
    if size < pending then
      .use :: match m.results with
        | [] => []
        | r :: rs =>
          -- the branch does not return: the read follows
          q.complete q.src (if r.errno ≠ 0 then r.errno else nsrceBufferTooSmall) (sizeT r.value) (some pending) ++
            q.udpRead pending rs
    else q.udpRead pending m.results

def udpRecvSync (q : Request) (m : Met) : List Event :=
  q.checked q.src .udp fun buffer => .use :: q.udpReceive m buffer.length

/-- The job is posted, and dispatched later. -/
def udpRecvAsync (q : Request) (m : Met) : List Event :=
  q.checked q.src .udp fun buffer => .use :: .use :: q.udpReceive m buffer.length

end Request

/-! ## The choice -/

abbrev Operator := Request → Met → List Event

def EndpointType.code : EndpointType → ℕ
  | .tcp => 0
  | .udp => 1
  | .none => 2

def SrbOperation.code : SrbOperation → ℕ
  | .send => 0
  | .recv => 1

/-- `OPERATOR_IDX` -/
def operatorIdx (proto : EndpointType) (op : SrbOperation) (sync : Bool) : ℕ :=
  ((proto.code &&& 1) <<< 2) ||| ((op.code &&& 1) <<< 1) ||| (sync.toNat &&& 1)

def operators : List Operator :=
  [Request.tcpSendRecvSync, Request.tcpSendRecvAsync, Request.tcpSendRecvSync, Request.tcpSendRecvAsync,
    Request.udpSendSync, Request.udpSendAsync, Request.udpRecvSync, Request.udpRecvAsync]

def srbOperate : Option Request → Met → List Event
  | none, _ => []
  | some q, m => .use ::
    if q.type = .none then []
    else
      match operators[operatorIdx q.type q.op q.iosvc]? with
      | none => []
      | some op => op q m

/-! ## The operators that keep the law -/

@[simp] theorem lawful_use {es : List Event} : Lawful (.use :: es) ↔ Lawful es := lifetime_cons rfl rfl

@[simp] theorem lawful_nil : Lawful [] := lifetime_nil

namespace Request
variable {q : Request} {m : Met}

theorem lawful_complete (ep : EndpointSocket) (err : ℤ) (bytes : ℕ) (more : Option ℕ) :
    Lawful (q.complete ep err bytes more) := by
  unfold complete
  rw [lawful_use]
  split_ifs
  · exact lifetime_called (lifetime_singleton _) rfl rfl
  · exact lifetime_singleton _

theorem lawful_checked {ep : EndpointSocket} {type : EndpointType} {rest : List UInt8 → List Event} :
    Lawful (q.checked ep type rest) ↔
      (0 ≤ ep.skt → ep.epType = type → ∀ buffer ∈ q.buffer, Lawful (rest buffer)) := by
  unfold checked
  rw [lawful_use]
  split_ifs with hassert
  · simp only [lawful_nil, true_iff]
    intro hskt htype
    cases hassert with
    | inl hneg => exact absurd hskt (not_le.mpr hneg)
    | inr hne => exact absurd htype hne
  · push Not at hassert
    cases q.buffer with
    | none => simp
    | some buffer => simp [hassert]

end Request

theorem lawful_ioctl_iff {m : Met} {rest : ℕ → List Event} :
    Lawful (m.ioctl rest) ↔ ∀ n answers, m.ioctls = some n :: answers → Lawful (rest n) := by
  unfold Met.ioctl
  split
  · rename_i n answers hioctls
    simp [hioctls]
  · rename_i hioctls
    exact iff_of_true lawful_nil fun n answers heq => absurd heq (hioctls n answers)

theorem lawful_ioctl {m : Met} {rest : ℕ → List Event} (hrest : ∀ n, Lawful (rest n)) : Lawful (m.ioctl rest) :=
  lawful_ioctl_iff.mpr fun n _ _ => hrest n

/-- The loop uses the request once for each call, and ends with what `syncLoop` reports. -/
theorem attempts_eq (skt : ℤ) (rest : ℕ → ℕ → List Event) (size bytesOp errno : ℕ) (rs : List KernelResult) :
    ∃ n, attempts size bytesOp errno rest rs = List.replicate n .use ++
      match (syncLoop skt size bytesOp errno rs).report with
      | none => []
      | some report => rest report.bytes report.errno := by
  induction rs generalizing bytesOp errno with
  | nil =>
    unfold attempts syncLoop
    split_ifs
    · exact ⟨1, rfl⟩
    · exact ⟨0, rfl⟩
  | cons r rs ih =>
    unfold attempts syncLoop
    split_ifs
    · cases r with
      | error e => exact ⟨1, rfl⟩
      | count k =>
        obtain ⟨n, hn⟩ := ih (bytesOp + k) 0
        exact ⟨n + 1, congrArg (Event.use :: ·) hn⟩
    · exact ⟨0, rfl⟩

theorem lawful_attempts {rest : ℕ → ℕ → List Event} (hrest : ∀ bytes err, Lawful (rest bytes err)) (size : ℕ)
    (bytesOp errno : ℕ) (rs : List KernelResult) : Lawful (attempts size bytesOp errno rest rs) := by
  obtain ⟨n, hn⟩ := attempts_eq 0 rest size bytesOp errno rs
  rw [hn, Lawful, lifetime_append]
  · cases (syncLoop 0 size bytesOp errno rs).report with
    | none => exact lawful_nil
    | some report => exact hrest report.bytes report.errno
  · intro e he
    rw [List.eq_of_mem_replicate he]
    exact ⟨rfl, rfl⟩

namespace Request
variable {q : Request} {m : Met}

theorem lawful_operateSync (ep : EndpointSocket) (type : EndpointType) : Lawful (q.operateSync m ep type) := by
  unfold operateSync
  rw [lawful_checked]
  intro _ _ buffer _
  apply lawful_attempts
  intro bytes err
  rw [lawful_use]
  exact lawful_ioctl fun more => lawful_complete ep err bytes (some more)

theorem lawful_dispatches (ep : EndpointSocket) (srb : Srb) (rs : List KernelResult) :
    Lawful (q.dispatches m ep srb rs) := by
  induction rs generalizing srb with
  | nil => exact lawful_nil
  | cons r rs ih =>
    unfold dispatches
    rw [lawful_use]
    cases r with
    | error e =>
      cases tcpSendRecvAsyncTpl srb (.error e) with
      | post srb' => exact ih srb'
      | finish report => exact lawful_complete ep report.errno report.bytes none
    | count n =>
      cases tcpSendRecvAsyncTpl srb (.count n) with
      | post srb' => exact lawful_use.mpr (ih srb')
      | finish report =>
        exact lawful_use.mpr (lawful_ioctl fun more => lawful_complete ep report.errno report.bytes (some more))

theorem lawful_tcpSendRecvAsync : Lawful (q.tcpSendRecvAsync m) := by
  unfold tcpSendRecvAsync
  rw [lawful_checked]
  intro _ _ buffer _
  exact lawful_dispatches _ _ _

theorem lawful_udpSendAsync : Lawful (q.udpSendAsync m) := by
  unfold udpSendAsync
  rw [lawful_checked]
  intro _ _ buffer _
  exact lawful_dispatches _ _ _

/-! ## The operators that may break it -/

theorem lawful_udpRead (pending : ℕ) (rs : List KernelResult) : Lawful (q.udpRead pending rs) := by
  cases rs with
  | nil => exact lawful_use.mpr lawful_nil
  | cons r rs => exact lawful_use.mpr (lawful_use.mpr (lawful_complete _ _ _ _))

/-- What follows the release of a completed request breaks the law. -/
theorem not_lawful_complete (ep : EndpointSocket) (err : ℤ) (bytes : ℕ) (more : Option ℕ) {es : List Event}
    (hes : es ≠ []) : ¬ Lawful (q.complete ep err bytes more ++ es) := by
  have hsplit : q.complete ep err bytes more ++ es =
      (.use :: if q.cb then [.callback ep err bytes more] else []) ++ .release :: es := by
    simp [complete]
  rw [hsplit]
  exact not_lifetime _ rfl hes

end Request

/-- The datagram that waits is larger than the buffer, and the peek at it returns. -/
def Met.TooLarge (m : Met) (size : ℕ) : Prop :=
  ∃ pending rest, m.ioctls = some pending :: rest ∧ size < pending ∧ m.results ≠ []

namespace Request
variable {q : Request} {m : Met}

theorem lawful_udpReceive (size : ℕ) : Lawful (q.udpReceive m size) ↔ ¬ m.TooLarge size := by
  unfold udpReceive Met.TooLarge
  rw [lawful_ioctl_iff]
  push Not
  apply forall_congr'
  intro pending
  apply forall_congr'
  intro answers
  apply imp_congr_right
  intro _
  by_cases hsize : size < pending
  · rw [if_pos hsize, lawful_use]
    simp only [hsize, true_imp_iff]
    cases m.results with
    | nil => simp
    | cons r rs =>
      refine iff_of_false (not_lawful_complete _ _ _ _ ?_) (by simp)
      cases rs <;> simp [udpRead]
  · rw [if_neg hsize]
    exact iff_of_true (lawful_udpRead pending m.results) fun hlarge => absurd hlarge hsize

/-- The request is a datagram to be received on an open UDP socket, into a buffer of this size. -/
def ReceivesUdp (q : Request) (size : ℕ) : Prop :=
  q.type = .udp ∧ q.op = .recv ∧ 0 ≤ q.src.skt ∧ q.src.epType = .udp ∧
    ∃ buffer, q.buffer = some buffer ∧ buffer.length = size

theorem lawful_udpRecv {rest : List UInt8 → List Event} (htype : q.type = .udp) (hop : q.op = .recv)
    (hrest : ∀ buffer, Lawful (rest buffer) ↔ ¬ m.TooLarge buffer.length) :
    Lawful (q.checked q.src .udp rest) ↔ ¬ ∃ size, q.ReceivesUdp size ∧ m.TooLarge size := by
  rw [lawful_checked]
  unfold ReceivesUdp
  simp only [hrest, htype, hop, true_and, Option.mem_def]
  constructor
  · rintro hall ⟨_, ⟨hskt, hep, buffer, hbuffer, rfl⟩, hlarge⟩
    exact hall hskt hep buffer hbuffer hlarge
  · intro hnot hskt hep buffer hbuffer hlarge
    exact hnot ⟨_, ⟨hskt, hep, buffer, hbuffer, rfl⟩, hlarge⟩

end Request

/-! ## Every request -/

/-- A request goes through its operator lawfully unless it is to receive a datagram that turns out
to be larger than the buffer. -/
theorem lawful_iff (request : Option Request) (m : Met) : Lawful (srbOperate request m) ↔
    ¬ ∃ q size, request = some q ∧ q.ReceivesUdp size ∧ m.TooLarge size := by
  cases request with
  | none => exact iff_of_true lawful_nil (by simp)
  | some q =>
    unfold srbOperate
    rw [lawful_use]
    simp only [Option.some.injEq, ↓existsAndEq, true_and]
    have hother : q.type ≠ .udp ∨ q.op ≠ .recv → ¬ ∃ size, q.ReceivesUdp size ∧ m.TooLarge size := by
      rintro hne ⟨size, ⟨htype, hop, -⟩, -⟩
      cases hne with
      | inl hne => exact hne htype
      | inr hne => exact hne hop
    cases htype : q.type with
    | none => exact iff_of_true lawful_nil (hother (Or.inl (by simp [htype])))
    | tcp =>
      refine iff_of_true ?_ (hother (Or.inl (by simp [htype])))
      cases q.op <;> cases q.iosvc
      all_goals first | exact Request.lawful_operateSync _ _ | exact Request.lawful_tcpSendRecvAsync
    | udp =>
      cases hop : q.op with
      | send =>
        refine iff_of_true ?_ (hother (Or.inr (by simp [hop])))
        cases q.iosvc
        · exact Request.lawful_operateSync _ _
        · exact Request.lawful_udpSendAsync
      | recv =>
        cases q.iosvc
        · refine Request.lawful_udpRecv htype hop fun buffer => ?_
          rw [lawful_use]
          exact Request.lawful_udpReceive buffer.length
        · refine Request.lawful_udpRecv htype hop fun buffer => ?_
          rw [lawful_use, lawful_use]
          exact Request.lawful_udpReceive buffer.length

/-- A datagram of five bytes for a buffer of two. -/
def tooSmall : Request where
  type := .udp
  op := .recv
  src := { skt := 5, epType := .udp }
  dst := { skt := -1, epType := .none }
  iosvc := true
  buffer := some [0, 0]
  cb := true

/-- The first two bytes are seen by the peek, and by the read again. -/
theorem called_back_twice : ∃ m, (srbOperate (some tooSmall) m).countP Event.isCallback = 2 ∧
    ¬ Lawful (srbOperate (some tooSmall) m) := by
  refine ⟨{ op := 0, errno := 0, results := [.count 2, .count 2], ioctls := [some 5] }, by decide, ?_⟩
  intro h
  have honce := h.once
  revert honce
  decide

end Chats.Network
