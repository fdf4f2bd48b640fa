import Chats.Network.Delivery
import Chats.Network.Operators

/-! # Datagrams

UDP requests of `network/network.c` over a network that may lose, repeat and reorder what it
carries. The kernel takes all of a datagram or nothing, so both ways of sending make one attempt
that counts. A request to receive asks for the size of the datagram that waits and then reads.
Nothing locks a socket: between any two system calls of a request come those of the others. -/
namespace Chats.Network.Datagrams
open Chats.Lib
set_option autoImplicit false

/-! ## A request to send -/

/-- What `sendmsg` answers on a datagram socket to an offer of the rest of the buffer. -/
def Atomic (srb : Srb) : KernelResult → Prop
  | .count n => n = srb.buffer.length - srb.bytesOperated
  | .error e => e ≠ 0

instance (srb : Srb) (r : KernelResult) : Decidable (Atomic srb r) :=
  match r with
  | .count n => inferInstanceAs (Decidable (n = srb.buffer.length - srb.bytesOperated))
  | .error e => inferInstanceAs (Decidable (e ≠ 0))

/-- `udp_send_async_tpl` does what `tcp_send_recv_async_tpl` does. -/
def udpSendAsyncTpl (srb : Srb) (r : KernelResult) : Next := tcpSendRecvAsyncTpl srb r

/-- `udp_send_sync` from its loop on. -/
def udpSendSync (srb : Srb) (errno : ℕ) (rs : List KernelResult) : Transfer :=
  syncLoop srb.dst.skt srb.buffer.length 0 errno rs

/-- One turn of that loop, which offers the whole buffer. -/
def udpSendSyncTurn (srb : Srb) (bytesOp : ℕ) (r : KernelResult) : Transfer :=
  syncLoop srb.dst.skt srb.buffer.length bytesOp 0 [r]

/-- Each attempt that moves bytes makes a datagram of them. -/
def Transfer.datagrams (t : Transfer) (buffer : List UInt8) : List (List UInt8) :=
  t.moves.map fun m => (buffer.drop m.offset).take m.count

/-- How far a request is: in the loop of `udp_send_sync`; in the slot of its socket, and in
`udp_send_async_tpl` before the attempt and before the post behind it; before the callback; called back; or
dropped by `io_service_post_job`, which tells nobody. -/
inductive Phase
  | looping (bytesOp : ℕ)
  | posted
  | entered
  | posting
  | ending (report : Report)
  | called (report : Report)
  | dropped
deriving DecidableEq

/-- The datagrams of a request: one once it has succeeded. -/
def Phase.made (buffer : List UInt8) : Phase → List (List UInt8)
  | .ending report => if report.errno = 0 then [buffer] else []
  | .called report => if report.errno = 0 then [buffer] else []
  | _ => []

structure Sending where
  srb : Srb
  phase : Phase

/-- The assertions that a send starts with, and the callers' check of the buffer. -/
def Sendable (srb : Srb) : Prop := 0 ≤ srb.dst.skt ∧ srb.dst.epType = .udp ∧ srb.buffer ≠ []
deriving Decidable

inductive Turn
  | pick
  | attempt (r : KernelResult)
  | repost (allowNew : Bool)
  | callBack

/-- What a post makes of a request. -/
def postPhase (allowNew slotFree : Bool) : Phase := if allowNew && slotFree then .posted else .dropped

namespace Sending

/-- The next turn of a request, with the datagrams that it makes. -/
def turn (slotFree : Bool) (x : Sending) (t : Turn) : Option (Sending × List (List UInt8)) :=
  match x.phase, t with
  | .posted, .pick => some ({ x with phase := .entered }, [])
  | .looping bytesOp, .attempt r =>
    if Atomic { x.srb with bytesOperated := 0 } r then
      let t := udpSendSyncTurn x.srb bytesOp r
      let phase := match t.report with
        | none => .looping (bytesOp + r.value.toNat)
        | some report => .ending report
      some ({ x with phase }, Transfer.datagrams t x.srb.buffer)
    else none
  | .entered, .attempt r =>
    if Atomic x.srb r then
      let made := Transfer.datagrams { moves := r.moved x.srb.dst.skt x.srb.bytesOperated, report := none } x.srb.buffer
      match udpSendAsyncTpl x.srb r with
      | .post srb => some ({ srb, phase := .posting }, made)
      | .finish report => some ({ x with phase := .ending report }, made)
    else none
  | .posting, .repost allowNew => some ({ x with phase := postPhase allowNew slotFree }, [])
  | .ending report, .callBack => some ({ x with phase := .called report }, [])
  | _, _ => none

def made (x : Sending) : List (List UInt8) := x.phase.made x.srb.buffer

/-- What a request is called back with. -/
def report (x : Sending) : Option Report :=
  match x.phase with
  | .called report => some report
  | _ => none

end Sending

/-! ## A request to receive -/

/-- Where `udp_recv_sync` and `udp_recv_async_tpl` are behind the question: before the peek at a datagram
that is too large, which is called back and does not return, or before the read. -/
inductive Asked
  | peeking | reading | done
deriving DecidableEq

/-- A request to receive from its question on, which an asynchronous one asks when it is dispatched;
`pending` is the answer, given after `taken` reads. -/
structure Receiving where
  size : ℕ
  pending : ℕ
  taken : ℕ
  phase : Asked

/-- What a request to receive is called back with, and the bytes at the start of its buffer; `disturbed`
says that another read took a datagram after the question. -/
structure Received where
  size : ℕ
  pending : ℕ
  disturbed : Bool
  err : ℤ
  data : List UInt8
deriving DecidableEq

/-- `recvmsg` gives an error, or the start of the datagram that comes first. -/
def recvmsg (size : ℕ) (queue : List (List UInt8)) : Option ℕ → Option (ℕ × List UInt8)
  | some e => if e = 0 then none else some (e, [])
  | none => queue.head?.map fun d => (0, d.take size)

/-! ## The channel -/

/-- A socket that sends, with its requests and their callbacks, oldest first; what the kernel has taken;
and a socket that receives. -/
structure Channel where
  sends : List Sending
  calls : List (ℕ × Report)
  sent : List (List UInt8)
  queue : List (List UInt8)
  taken : ℕ
  receives : List Receiving
  received : List Received

def idle : Channel :=
  { sends := [], calls := [], sent := [], queue := [], taken := 0, receives := [], received := [] }

inductive Action
  | sendSync (srb : Srb)
  | sendAsync (srb : Srb) (allowNew : Bool)
  | turn (i : ℕ) (t : Turn)
  | arrive (d : List UInt8)
  | ask (size : ℕ)
  | peek (i : ℕ) (answer : Option ℕ)
  | read (i : ℕ) (answer : Option ℕ)

namespace Channel

def slotFree (s : Channel) : Bool := s.sends.all fun x => x.phase ≠ .posted

def enter (s : Channel) (srb : Srb) (phase : Phase) : Option Channel :=
  if Sendable srb then some { s with sends := s.sends ++ [{ srb := { srb with bytesOperated := 0 }, phase }] } else none

def told (s : Channel) (x : Receiving) (err : ℤ) (data : List UInt8) : Received :=
  { size := x.size, pending := x.pending, disturbed := s.taken ≠ x.taken, err, data }

/-- A datagram comes from the network, again or in another order, if it was sent. -/
def step (s : Channel) : Action → Option Channel
  | .sendSync srb => s.enter srb (.looping 0)
  | .sendAsync srb allowNew => s.enter srb (postPhase allowNew s.slotFree)
  | .turn i t => do
    let x ← s.sends[i]?
    let (x', made) ← x.turn s.slotFree t
    some { s with
      sends := s.sends.set i x'
      sent := s.sent ++ made
      calls := s.calls ++ (x'.report.map (i, ·)).toList }
  | .arrive d => if d ∈ s.sent then some { s with queue := s.queue ++ [d] } else none
  | .ask size =>
    let pending := (s.queue.headD []).length
    let phase := if size < pending then Asked.peeking else .reading
    some { s with receives := s.receives ++ [{ size, pending, taken := s.taken, phase }] }
  | .peek i answer => do
    let x ← s.receives[i]?
    let (e, data) ← recvmsg x.size s.queue answer
    if x.phase = .peeking then
      some { s with
        receives := s.receives.set i { x with phase := .reading }
        received := s.received ++ [s.told x (if e = 0 then nsrceBufferTooSmall else e) data] }
    else none
  | .read i answer => do
    let x ← s.receives[i]?
    let (e, data) ← recvmsg x.size s.queue answer
    if x.phase = .reading then
      some { s with
        queue := if e = 0 then s.queue.tail else s.queue
        taken := if e = 0 then s.taken + 1 else s.taken
        receives := s.receives.set i { x with phase := .done }
        received := s.received ++ [s.told x e data] }
    else none

end Channel

abbrev Steps (s : Channel) (a : Action) (s' : Channel) : Prop := s.step a = some s'

def sentBuffer (_ : Channel) : Action → Option (List UInt8)
  | .sendSync srb | .sendAsync srb _ => some srb.buffer
  | _ => none

/-! ## One attempt counts -/

/-- A request succeeds with the whole buffer, or fails with nothing. -/
def Settles (buffer : List UInt8) (report : Report) : Prop :=
  report = ⟨0, buffer.length⟩ ∨ (report.errno ≠ 0 ∧ report.bytes = 0)

def Phase.Right (buffer : List UInt8) : Phase → Prop
  | .looping bytesOp => bytesOp = 0
  | .ending report => Settles buffer report
  | .called report => Settles buffer report
  | _ => True

/-- What holds of a request on its way. -/
structure Right (x : Sending) : Prop where
  fresh : x.srb.bytesOperated = 0
  nonempty : x.srb.buffer ≠ []
  phase : x.phase.Right x.srb.buffer

theorem datagrams_whole {buffer : List UInt8} (hne : buffer ≠ []) (skt : ℤ) (report : Option Report) :
    Transfer.datagrams { moves := (KernelResult.count buffer.length).moved skt 0, report } buffer = [buffer] := by
  have hlen : buffer.length ≠ 0 := mt List.length_eq_zero_iff.mp hne
  simp [Transfer.datagrams, KernelResult.moved, hlen]

theorem postPhase_right (buffer : List UInt8) (allowNew slotFree : Bool) :
    (postPhase allowNew slotFree).Right buffer ∧ (postPhase allowNew slotFree).made buffer = [] := by
  unfold postPhase
  split_ifs
  · exact ⟨trivial, rfl⟩
  · exact ⟨trivial, rfl⟩

section attempts
variable {srb : Srb} (hne : srb.buffer ≠ [])
include hne

/-- The turn settles the request, with the datagram or with none. -/
theorem syncTurn_settles {r : KernelResult} (hatomic : Atomic { srb with bytesOperated := 0 } r) :
    ∃ report, (udpSendSyncTurn srb 0 r).report = some report ∧ Settles srb.buffer report ∧
      Transfer.datagrams (udpSendSyncTurn srb 0 r) srb.buffer = (Phase.ending report).made srb.buffer := by
  have hpos : 0 < srb.buffer.length := List.length_pos_of_ne_nil hne
  unfold udpSendSyncTurn
  rw [syncLoop.eq_def, if_pos hpos]
  cases r with
  | error e =>
    have he : e ≠ 0 := hatomic
    exact ⟨⟨e, 0⟩, rfl, .inr ⟨he, rfl⟩, (if_neg he).symm⟩
  | count n =>
    obtain rfl : n = srb.buffer.length := hatomic
    -- the loop is done
    simp only [Nat.zero_add, sync_done srb.dst.skt 0 [] (lt_irrefl srb.buffer.length), List.append_nil,
      datagrams_whole hne]
    exact ⟨_, rfl, .inl rfl, rfl⟩

/-- The loop is one turn. -/
theorem udpSendSync_settles {errno : ℕ} {rs : List KernelResult} {report : Report}
    (hatomic : ∀ r ∈ rs, Atomic { srb with bytesOperated := 0 } r)
    (h : (udpSendSync srb errno rs).report = some report) :
    Settles srb.buffer report := by
  have hpos : 0 < srb.buffer.length := List.length_pos_of_ne_nil hne
  cases rs with
  | nil =>
    unfold udpSendSync at h
    rw [syncLoop.eq_def, if_pos hpos] at h
    cases h
  | cons r rs =>
    have hr := hatomic r List.mem_cons_self
    obtain ⟨report', hreport', hsettles, -⟩ := syncTurn_settles hne hr
    have hturn : (udpSendSync srb errno (r :: rs)).report = (udpSendSyncTurn srb 0 r).report := by
      unfold udpSendSync udpSendSyncTurn
      rw [syncLoop.eq_def, if_pos hpos, syncLoop.eq_def srb.dst.skt _ 0 0 [r], if_pos hpos]
      cases r with
      | error e => rfl
      | count n =>
        obtain rfl : n = srb.buffer.length := hr
        simp only [Nat.zero_add, sync_done srb.dst.skt 0 _ (lt_irrefl srb.buffer.length)]
    rw [hturn, hreport', Option.some.injEq] at h
    exact h ▸ hsettles

/-- An attempt is to be made again, or it settles the request. -/
theorem asyncTurn_settles (h0 : srb.bytesOperated = 0) {r : KernelResult} (hatomic : Atomic srb r) :
    (udpSendAsyncTpl srb r = .post srb ∧
        Transfer.datagrams { moves := r.moved srb.dst.skt srb.bytesOperated, report := none } srb.buffer = []) ∨
      ∃ report, udpSendAsyncTpl srb r = .finish report ∧ Settles srb.buffer report ∧
        Transfer.datagrams { moves := r.moved srb.dst.skt srb.bytesOperated, report := none } srb.buffer =
          (Phase.ending report).made srb.buffer := by
  unfold udpSendAsyncTpl
  cases r with
  | error e =>
    have he : e ≠ 0 := hatomic
    by_cases hagain : e = eagain
    · exact .inl ⟨if_pos hagain, rfl⟩
    · refine .inr ⟨⟨e, 0⟩, ?_, .inr ⟨he, rfl⟩, (if_neg he).symm⟩
      rw [← h0]
      exact if_neg hagain
  | count n =>
    obtain rfl : n = srb.buffer.length := by rw [show n = _ from hatomic, h0, Nat.sub_zero]
    refine .inr ⟨⟨0, srb.buffer.length⟩, ?_, .inl rfl, ?_⟩
    · simp [tcpSendRecvAsyncTpl, h0]
    · rw [h0, datagrams_whole hne]
      rfl

end attempts

/-- What a turn does to a request. -/
structure Turned (x x' : Sending) (made : List (List UInt8)) : Prop where
  right : Right x'
  buffer : x'.srb.buffer = x.srb.buffer
  made : x'.made = x.made ++ made
  before : x.report = none

theorem Right.turn {x x' : Sending} {slotFree : Bool} {t : Turn} {made : List (List UInt8)} (hx : Right x)
    (h : x.turn slotFree t = some (x', made)) : Turned x x' made := by
  obtain ⟨srb, phase⟩ := x
  unfold Sending.turn at h
  dsimp only at h
  split at h
  · obtain ⟨rfl, rfl⟩ := Prod.mk.inj (Option.some.inj h)
    exact ⟨⟨hx.fresh, hx.nonempty, trivial⟩, rfl, rfl, rfl⟩
  · rename_i bytesOp r
    split_ifs at h with hatomic
    obtain rfl : bytesOp = 0 := hx.phase
    obtain ⟨report, hreport, hsettles, hmade⟩ := syncTurn_settles hx.nonempty hatomic
    rw [hreport, hmade] at h
    obtain ⟨rfl, rfl⟩ := Prod.mk.inj (Option.some.inj h)
    exact ⟨⟨hx.fresh, hx.nonempty, hsettles⟩, rfl, rfl, rfl⟩
  · rename_i r
    split_ifs at h with hatomic
    cases asyncTurn_settles hx.nonempty hx.fresh hatomic with
    | inl hagain =>
      rw [hagain.1, hagain.2] at h
      obtain ⟨rfl, rfl⟩ := Prod.mk.inj (Option.some.inj h)
      exact ⟨⟨hx.fresh, hx.nonempty, trivial⟩, rfl, rfl, rfl⟩
    | inr hfinish =>
      obtain ⟨report, hreport, hsettles, hmade⟩ := hfinish
      rw [hreport, hmade] at h
      obtain ⟨rfl, rfl⟩ := Prod.mk.inj (Option.some.inj h)
      exact ⟨⟨hx.fresh, hx.nonempty, hsettles⟩, rfl, rfl, rfl⟩
  · rename_i allowNew
    obtain ⟨rfl, rfl⟩ := Prod.mk.inj (Option.some.inj h)
    obtain ⟨hright, hmade⟩ := postPhase_right srb.buffer allowNew slotFree
    exact ⟨⟨hx.fresh, hx.nonempty, hright⟩, rfl, hmade, rfl⟩
  · obtain ⟨rfl, rfl⟩ := Prod.mk.inj (Option.some.inj h)
    exact ⟨⟨hx.fresh, hx.nonempty, hx.phase⟩, rfl, (List.append_nil _).symm, rfl⟩
  · cases h

/-! ## What holds of a channel -/

/-- The datagrams of all requests. -/
def Channel.made (s : Channel) : List (List UInt8) := s.sends.flatMap Sending.made

/-- The callbacks are those of different requests, each of which is called back with what it has come to. -/
structure CalledBack (s : Channel) : Prop where
  once : (s.calls.map Prod.fst).Nodup
  report : ∀ c ∈ s.calls, ∃ x, s.sends[c.1]? = some x ∧ x.report = some c.2

/-- What a read has given, beside what was sent before it: a datagram, as far as it fits; all of it where it
fits and was the one asked about. -/
def Received.From (sent : List (List UInt8)) (f : Received) : Prop :=
  f.err = 0 → ∃ d ∈ sent, f.data = d.take f.size ∧
    (0 < f.pending → f.pending ≤ f.size → f.disturbed = false → f.data = d)

/-- The datagram that was asked about waits until a read takes it. -/
def Receiving.Right (s : Channel) (x : Receiving) : Prop :=
  x.taken ≤ s.taken ∧ (x.taken = s.taken → 0 < x.pending → ∃ d rest, s.queue = d :: rest ∧ d.length = x.pending)

structure Holds (h : List (Channel × Action)) (s : Channel) : Prop where
  buffers : s.sends.map (·.srb.buffer) = given sentBuffer h
  right : ∀ x ∈ s.sends, Right x
  sent : s.sent.Perm s.made
  calls : CalledBack s
  queue : ∀ d ∈ s.queue, d ∈ s.sent
  receives : ∀ x ∈ s.receives, x.Right s
  received : ∀ f ∈ s.received, f.From s.sent

theorem holds_idle : Holds [] idle := by
  refine ⟨rfl, ?_, .nil, ⟨List.nodup_nil, ?_⟩, ?_, ?_, ?_⟩
  all_goals
    intro x hx
    cases hx

theorem Received.From.mono {sent sent' : List (List UInt8)} {f : Received} (h : f.From sent) (hsub : sent ⊆ sent') :
    f.From sent' := by
  intro h0
  obtain ⟨d, hd, hdata⟩ := h h0
  exact ⟨d, hsub hd, hdata⟩

variable {h : List (Channel × Action)} {s s' : Channel}

/-! ## Sending -/

theorem Holds.enter (hs : Holds h s) {srb : Srb} {phase : Phase} {a : Action} (hstep : s.enter srb phase = some s')
    (hright : phase.Right srb.buffer) (hmade : phase.made srb.buffer = []) (ha : sentBuffer s a = some srb.buffer) :
    Holds ((s, a) :: h) s' := by
  unfold Channel.enter at hstep
  split_ifs at hstep with hsendable
  obtain rfl := Option.some.inj hstep
  refine ⟨?_, ?_, ?_, ⟨hs.calls.once, ?_⟩, hs.queue, hs.receives, hs.received⟩
  · simp [given, ha, hs.buffers]
  · intro x hx
    cases List.mem_append.mp hx with
    | inl hx => exact hs.right x hx
    | inr hx =>
      obtain rfl := List.mem_singleton.mp hx
      exact ⟨rfl, hsendable.2.2, hright⟩
  · have hnew : Sending.made { srb := { srb with bytesOperated := 0 }, phase } = [] := hmade
    simpa [Channel.made, hnew] using hs.sent
  · intro c hc
    obtain ⟨x, hx, hreport⟩ := hs.calls.report c hc
    refine ⟨x, ?_, hreport⟩
    rw [List.getElem?_append_left (List.getElem?_eq_some_iff.mp hx).1]
    exact hx

/-- One request makes datagrams, and the others none. -/
theorem made_set {xs : List Sending} {i : ℕ} {x x' : Sending} (hx : xs[i]? = some x) {made : List (List UInt8)}
    (hmade : x'.made = x.made ++ made) :
    ((xs.set i x').flatMap Sending.made).Perm (xs.flatMap Sending.made ++ made) := by
  induction xs generalizing i with
  | nil => cases hx
  | cons y ys ih =>
    cases i with
    | zero =>
      obtain rfl := Option.some.inj hx
      simp only [List.set_cons_zero, List.flatMap_cons, hmade, List.append_assoc]
      exact List.perm_append_comm.append_left _
    | succ i =>
      simp only [List.set_cons_succ, List.flatMap_cons, List.append_assoc]
      exact (ih hx).append_left _

theorem CalledBack.set (hc : CalledBack s) {i : ℕ} {x x' : Sending} (hx : s.sends[i]? = some x)
    (hbefore : x.report = none) {s' : Channel} (hsends : s'.sends = s.sends.set i x')
    (hcalls : s'.calls = s.calls ++ (x'.report.map (i, ·)).toList) : CalledBack s' := by
  have hnew : i ∉ s.calls.map Prod.fst := by
    intro hmem
    obtain ⟨c, hc', rfl⟩ := List.mem_map.mp hmem
    obtain ⟨y, hy, hreport⟩ := hc.report c hc'
    obtain rfl := Option.some.inj (hx.symm.trans hy)
    rw [hbefore] at hreport
    cases hreport
  have hlen : i < s.sends.length := (List.getElem?_eq_some_iff.mp hx).1
  refine ⟨?_, ?_⟩
  · rw [hcalls, List.map_append, List.nodup_append]
    refine ⟨hc.once, ?_, ?_⟩
    · cases x'.report <;> simp
    · intro j hj k hk
      cases hreport : x'.report with
      | none => simp [hreport] at hk
      | some report =>
        simp only [hreport, Option.map_some, Option.toList_some, List.map_cons, List.map_nil, List.mem_singleton] at hk
        rintro rfl
        exact hnew (hk ▸ hj)
  · rw [hcalls, hsends]
    intro c hc'
    cases List.mem_append.mp hc' with
    | inl hold =>
      obtain ⟨y, hy, hreport⟩ := hc.report c hold
      have hne : i ≠ c.1 := fun heq => hnew (heq ▸ List.mem_map_of_mem hold)
      exact ⟨y, by rw [List.getElem?_set_ne hne, hy], hreport⟩
    | inr hnew' =>
      cases hreport : x'.report with
      | none => simp [hreport] at hnew'
      | some report =>
        simp only [hreport, Option.map_some, Option.toList_some, List.mem_singleton] at hnew'
        rw [hnew']
        exact ⟨x', List.getElem?_set_self hlen, hreport⟩

theorem Holds.turn (hs : Holds h s) {i : ℕ} {t : Turn} (hstep : s.step (.turn i t) = some s') :
    Holds ((s, .turn i t) :: h) s' := by
  simp only [Channel.step, Option.bind_eq_bind, Option.bind_eq_some_iff, Prod.exists] at hstep
  obtain ⟨x, hx, x', made, hturn, hs'⟩ := hstep
  obtain rfl := Option.some.inj hs'
  have ht := (hs.right x (List.mem_of_getElem? hx)).turn hturn
  refine ⟨?_, ?_, ?_, hs.calls.set hx ht.before rfl rfl, ?_, hs.receives, ?_⟩
  · have hsame : (s.sends.set i x').map (·.srb.buffer) = s.sends.map (·.srb.buffer) := by
      rw [List.map_set, ht.buffer]
      refine List.ext_getElem? fun j => ?_
      rw [List.getElem?_set]
      split_ifs with hij hlt
      · rw [← hij, List.getElem?_map, hx, Option.map_some]
      · rw [← hij, List.getElem?_eq_none (not_lt.mp hlt)]
      · rfl
    rw [hsame]
    simpa [given, sentBuffer] using hs.buffers
  · intro y hy
    cases List.mem_or_eq_of_mem_set hy with
    | inl hy => exact hs.right y hy
    | inr hy => exact hy ▸ ht.right
  · exact (hs.sent.append_right made).trans (made_set hx ht.made).symm
  · exact fun d hd => List.mem_append_left _ (hs.queue d hd)
  · exact fun f hf => (hs.received f hf).mono (List.subset_append_left _ _)

/-! ## Receiving -/

theorem Holds.arrive {d : List UInt8} (hs : Holds h s) (hstep : s.step (.arrive d) = some s') :
    Holds ((s, .arrive d) :: h) s' := by
  simp only [Channel.step] at hstep
  split_ifs at hstep with hsent
  obtain rfl := Option.some.inj hstep
  refine ⟨?_, hs.right, hs.sent, ⟨hs.calls.once, hs.calls.report⟩, ?_, ?_, hs.received⟩
  · simpa [given, sentBuffer] using hs.buffers
  · intro d' hd'
    cases List.mem_append.mp hd' with
    | inl hd' => exact hs.queue d' hd'
    | inr hd' => exact List.mem_singleton.mp hd' ▸ hsent
  · intro x hx
    obtain ⟨hle, hwaits⟩ := hs.receives x hx
    refine ⟨hle, fun heq hpos => ?_⟩
    obtain ⟨first, rest, hqueue, hlen⟩ := hwaits heq hpos
    exact ⟨first, rest ++ [d], by rw [hqueue, List.cons_append], hlen⟩

theorem Holds.ask {size : ℕ} (hs : Holds h s) (hstep : s.step (.ask size) = some s') :
    Holds ((s, .ask size) :: h) s' := by
  obtain rfl := Option.some.inj hstep
  refine ⟨?_, hs.right, hs.sent, ⟨hs.calls.once, hs.calls.report⟩, hs.queue, ?_, hs.received⟩
  · simpa [given, sentBuffer] using hs.buffers
  · intro x hx
    cases List.mem_append.mp hx with
    | inl hx => exact hs.receives x hx
    | inr hx =>
      obtain rfl := List.mem_singleton.mp hx
      refine ⟨le_rfl, fun _ hpos => ?_⟩
      change 0 < (s.queue.headD []).length at hpos
      show ∃ d rest, s.queue = d :: rest ∧ d.length = (s.queue.headD []).length
      cases hqueue : s.queue with
      | nil => simp [hqueue] at hpos
      | cons first rest => exact ⟨first, rest, rfl, rfl⟩

/-- A success gives what comes first, and an error nothing. -/
theorem recvmsg_cases {size : ℕ} {queue : List (List UInt8)} {answer : Option ℕ} {e : ℕ} {data : List UInt8}
    (h : recvmsg size queue answer = some (e, data)) :
    e ≠ 0 ∨ ∃ d rest, queue = d :: rest ∧ e = 0 ∧ data = d.take size := by
  cases answer with
  | some e' =>
    unfold recvmsg at h
    dsimp only at h
    split_ifs at h with he
    exact .inl ((Prod.mk.inj (Option.some.inj h)).1 ▸ he)
  | none =>
    cases queue with
    | nil => cases h
    | cons d rest =>
      obtain ⟨rfl, rfl⟩ := Prod.mk.inj (Option.some.inj h)
      exact .inr ⟨d, rest, rfl, rfl, rfl⟩

/-- A request to receive is called back. -/
theorem Holds.tell (hs : Holds h s) {i : ℕ} {x : Receiving} (hx : s.receives[i]? = some x) (phase : Asked)
    {f : Received} (hf : f.From s.sent) {a : Action} (ha : sentBuffer s a = none)
    {queue : List (List UInt8)} {taken : ℕ}
    (hqueue : ∀ d ∈ queue, d ∈ s.sent)
    (hwaits : ∀ y : Receiving, y.Right s → y.Right { s with queue, taken }) :
    Holds ((s, a) :: h) { s with
      queue, taken, receives := s.receives.set i { x with phase }, received := s.received ++ [f] } := by
  refine ⟨?_, hs.right, hs.sent, ⟨hs.calls.once, hs.calls.report⟩, hqueue, ?_, ?_⟩
  · simpa [given, ha] using hs.buffers
  · intro y hy
    cases List.mem_or_eq_of_mem_set hy with
    | inl hold => exact hwaits y (hs.receives y hold)
    | inr hnew =>
      rw [hnew]
      exact hwaits { x with phase } (hs.receives x (List.mem_of_getElem? hx))
  · intro g hg
    cases List.mem_append.mp hg with
    | inl hold => exact hs.received g hold
    | inr hnew => exact List.mem_singleton.mp hnew ▸ hf

theorem Holds.peek {i : ℕ} {answer : Option ℕ} (hs : Holds h s) (hstep : s.step (.peek i answer) = some s') :
    Holds ((s, .peek i answer) :: h) s' := by
  simp only [Channel.step, Option.bind_eq_bind, Option.bind_eq_some_iff, Prod.exists] at hstep
  obtain ⟨x, hx, e, data, hrecv, hs'⟩ := hstep
  rw [Option.ite_none_right_eq_some] at hs'
  obtain ⟨hphase, hs'⟩ := hs'
  obtain rfl := Option.some.inj hs'
  refine hs.tell hx .reading ?_ rfl hs.queue fun y hy => hy
  -- the peek is never called back as a success
  intro h0
  change (if e = 0 then nsrceBufferTooSmall else (e : ℤ)) = 0 at h0
  split_ifs at h0 with he
  · cases h0
  · exact absurd (Int.natCast_eq_zero.mp h0) he

theorem Holds.read {i : ℕ} {answer : Option ℕ} (hs : Holds h s) (hstep : s.step (.read i answer) = some s') :
    Holds ((s, .read i answer) :: h) s' := by
  simp only [Channel.step, Option.bind_eq_bind, Option.bind_eq_some_iff, Prod.exists] at hstep
  obtain ⟨x, hx, e, data, hrecv, hs'⟩ := hstep
  rw [Option.ite_none_right_eq_some] at hs'
  obtain ⟨hphase, hs'⟩ := hs'
  obtain rfl := Option.some.inj hs'
  cases recvmsg_cases hrecv with
  | inl he =>
    rw [if_neg he, if_neg he]
    refine hs.tell hx .done ?_ rfl hs.queue fun y hy => hy
    intro h0
    exact absurd (Int.natCast_eq_zero.mp h0) he
  | inr hread =>
    obtain ⟨d, rest, hqueue, rfl, rfl⟩ := hread
    have hsent : ∀ d' ∈ d :: rest, d' ∈ s.sent := hqueue ▸ hs.queue
    rw [if_pos rfl, if_pos rfl, hqueue]
    refine hs.tell hx .done ?_ rfl (fun d' hd' => hsent d' (List.mem_cons_of_mem _ hd')) ?_
    · intro _
      refine ⟨d, hsent d List.mem_cons_self, rfl, ?_⟩
      intro hpos hfits hundisturbed
      change 0 < x.pending at hpos
      change x.pending ≤ x.size at hfits
      have htaken : s.taken = x.taken := by simpa [Channel.told] using hundisturbed
      obtain ⟨first, rest', hfirst, hlen⟩ := (hs.receives x (List.mem_of_getElem? hx)).2 htaken.symm hpos
      obtain ⟨rfl, rfl⟩ := List.cons.inj (hqueue.symm.trans hfirst)
      exact List.take_of_length_le (hlen ▸ hfits)
    · intro y hy
      refine ⟨Nat.le_succ_of_le hy.1, fun heq => ?_⟩
      have hle := hy.1
      change y.taken = s.taken + 1 at heq
      omega

theorem Holds.step (hs : Holds h s) {a : Action} (hstep : Steps s a s') : Holds ((s, a) :: h) s' := by
  cases a with
  | sendSync srb => exact hs.enter hstep rfl rfl rfl
  | sendAsync srb allowNew =>
    obtain ⟨hright, hmade⟩ := postPhase_right srb.buffer allowNew s.slotFree
    exact hs.enter hstep hright hmade rfl
  | turn i t => exact hs.turn hstep
  | arrive d => exact hs.arrive hstep
  | ask size => exact hs.ask hstep
  | peek i answer => exact hs.peek hstep
  | read i answer => exact hs.read hstep

/-- However the system calls of sends of both kinds, of the network and of reads interleave: a send is called
back at most once, with the whole buffer or with an error and no bytes; what the kernel has taken is
the buffers of the sends that have succeeded; and a read that succeeds gives the bytes of one datagram
that was sent, all of them where the datagram that it was told about fits and no other read came between. -/
theorem datagrams_kept (r : Run Steps idle h s) :
    s.sends.map (·.srb.buffer) = given sentBuffer h ∧ s.sent.Perm s.made ∧ (s.calls.map Prod.fst).Nodup ∧
      (∀ c ∈ s.calls, ∃ x, s.sends[c.1]? = some x ∧ x.report = some c.2 ∧ Settles x.srb.buffer c.2) ∧
      ∀ f ∈ s.received, f.From s.sent := by
  have hs : Holds h s := r.invariant_history holds_idle fun _ _ _ _ hs hstep => hs.step hstep
  refine ⟨hs.buffers, hs.sent, hs.calls.once, ?_, hs.received⟩
  intro c hc
  obtain ⟨x, hx, hreport⟩ := hs.calls.report c hc
  refine ⟨x, hx, hreport, ?_⟩
  have hphase := (hs.right x (List.mem_of_getElem? hx)).phase
  unfold Sending.report at hreport
  split at hreport
  · rename_i report hcalled
    rw [hcalled] at hphase
    exact Option.some.inj hreport ▸ hphase
  · cases hreport

def srbTo (buffer : List UInt8) : Srb :=
  { op := .send, src := ⟨-1, .none⟩, dst := ⟨4, .udp⟩, buffer, bytesOperated := 0 }

/-- An asynchronous send goes out and is called back between the attempt of a synchronous one and its callback;
of two reads that ask about its datagram, the second gets the other one, and cuts it. -/
theorem datagrams_kept_two : ∃ h s, Run Steps idle h s ∧ s.calls = [(1, ⟨0, 1⟩), (0, ⟨0, 2⟩)] ∧
    s.sent = [[104, 105], [33]] ∧ s.received = [⟨2, 1, false, 0, [33]⟩, ⟨1, 1, true, 0, [104]⟩] ∧
    s.sent.Perm s.made := by
  have hr : Run.replay Channel.step ([], idle) [.sendSync (srbTo [104, 105]), .turn 0 (.attempt (.count 2)),
      .sendAsync (srbTo [33]) true, .turn 1 .pick, .turn 1 (.attempt (.count 1)), .turn 1 .callBack, .turn 0 .callBack,
      .arrive [33], .arrive [104, 105], .ask 2, .ask 1, .read 0 none, .read 1 none] = some (_, _) := rfl
  have hstart : Run Steps idle [] idle := .start
  have r := hstart.of_replay hr
  exact ⟨_, _, r, rfl, rfl, rfl, (datagrams_kept r).2.1⟩

end Chats.Network.Datagrams
