import Chats.Lib.Fifo
import Chats.Lib.Stream
import Chats.Network.Receiving
import Chats.Network.Sending

/-! # From a sender's buffers to a receiver's

One direction of a TCP connection, with the asynchronous transfers of `network/network.c` at both
of its ends, each with one loop and a service that takes new jobs. The stream between them gives the bytes
back in the order in which it took them; how many each attempt moves, and when, is the kernels' choice.
A request posted while another is outstanding may be dropped, or take the slot before the other's re-post;
where each end posts its next request after the callback of the one before, nothing is lost. -/
namespace Chats.Network.Delivery
open Chats.Lib
set_option autoImplicit false

/-- A request that was called back: its buffer as the callback found it. -/
structure Finished where
  buffer : List UInt8
  report : Report
deriving DecidableEq

/-- The job that the loop of an end is in: before its attempt, or before the post that follows it. -/
inductive Job
  | entered (srb : Srb)
  | posting (srb : Srb)

def Job.srb : Job → Srb
  | .entered srb => srb
  | .posting srb => srb

/-- One end: the request in the slot of its descriptor, the one whose job is running, and those that were called
back, oldest first. -/
structure Side where
  slot : Option Srb
  job : Option Job
  finished : List Finished

structure Direction where
  sender : Side
  wire : List UInt8
  receiver : Side

def idle : Direction := { sender := ⟨none, none, []⟩, wire := [], receiver := ⟨none, none, []⟩ }

namespace Side

/-- `tcp_send_recv_async`, where `none` is a failed assertion. A post onto an occupied slot is dropped. -/
def post (d : Side) (srb : Srb) : Option Side :=
  if srb.endpoint.skt < 0 ∨ srb.endpoint.epType ≠ .tcp then none
  else if d.slot.isSome then some d
  else some { d with slot := some { srb with bytesOperated := 0 } }

/-- The loop takes the one-shot job out of the slot. -/
def pick (d : Side) : Option Side :=
  match d.slot, d.job with
  | some srb, none => some { d with slot := none, job := some (.entered srb) }
  | _, _ => none

/-- `tcp_send_recv_async_tpl` after its attempt: it has a post to make, or has called back. -/
def attempted (d : Side) (srb : Srb) (r : KernelResult) : Side :=
  match tcpSendRecvAsyncTpl srb r with
  | .post srb => { d with job := some (.posting srb) }
  | .finish report => { d with job := none, finished := d.finished ++ [⟨srb.buffer, report⟩] }

def repost (d : Side) : Option Side :=
  match d.job with
  | some (.posting srb) => some { d with job := none, slot := if d.slot.isSome then d.slot else some srb }
  | _ => none

end Side

/-- The request with bytes written into its buffer from `bytes_operated` on. -/
def filled (srb : Srb) (bytes : List UInt8) : Srb :=
  { srb with
    buffer := srb.buffer.take srb.bytesOperated ++ bytes ++ srb.buffer.drop (srb.bytesOperated + bytes.length) }

instance (r : KernelResult) (srb : Srb) : Decidable (r.fits srb) :=
  match r with
  | .count n => inferInstanceAs (Decidable (srb.bytesOperated + n ≤ srb.buffer.length))
  | .error e => inferInstanceAs (Decidable (e ≠ 0))

inductive Action
  | send (srb : Srb)
  | recv (srb : Srb)
  | pick (op : SrbOperation)
  | writable (r : KernelResult)
  | readable (r : KernelResult)
  | repost (op : SrbOperation)

/-- What the loop of one end does without the connection. -/
def Direction.turn (s : Direction) (f : Side → Option Side) : SrbOperation → Option Direction
  | .send => (f s.sender).map fun d => { s with sender := d }
  | .recv => (f s.receiver).map fun d => { s with receiver := d }

/-- The posts of both ends, and the jobs that their loops run. -/
def step (s : Direction) : Action → Option Direction
  | .send srb => if srb.op = .send then s.turn (·.post srb) .send else none
  | .recv srb => if srb.op = .recv then s.turn (·.post srb) .recv else none
  | .pick op => s.turn Side.pick op
  | .repost op => s.turn Side.repost op
  | .writable r =>
    match s.sender.job with
    | some (.entered srb) =>
      if r.fits srb then some { s with sender := s.sender.attempted srb r, wire := s.wire ++ r.taken srb } else none
    | _ => none
  | .readable r =>
    match s.receiver.job with
    | some (.entered srb) =>
      -- `recvmsg` has no bytes that were not sent
      if r.fits srb ∧ r.bytes ≤ s.wire.length then
        some { s with
          receiver := s.receiver.attempted (filled srb (s.wire.take r.bytes)) r, wire := s.wire.drop r.bytes }
      else none
    | _ => none

abbrev Steps (s : Direction) (a : Action) (s' : Direction) : Prop := step s a = some s'

def sentBuffer (_ : Direction) : Action → Option (List UInt8)
  | .send srb => some srb.buffer
  | _ => none

def offeredBuffer (_ : Direction) : Action → Option (List UInt8)
  | .recv srb => some srb.buffer
  | _ => none

/-- The request that was not called back: the one in the slot, or the one whose job is running. -/
def Side.outstanding (d : Side) : Option Srb := d.slot.or (d.job.map Job.srb)

/-- An end posts when the request before has been called back. -/
def OneAtATime (s : Direction) : Action → Prop
  | .send _ => s.sender.outstanding = none
  | .recv _ => s.receiver.outstanding = none
  | _ => True

/-! ## What the requests of one end have moved -/

/-- The buffer of each request, with the count of bytes that it has moved. -/
def Side.accounts (d : Side) : List (List UInt8 × ℕ) :=
  d.finished.map (fun f => (f.buffer, f.report.bytes)) ++
    (d.outstanding.map fun srb => (srb.buffer, srb.bytesOperated)).toList

/-- The bytes that the requests of one end have moved. -/
def Side.moved (d : Side) : List UInt8 := d.accounts.flatMap fun a => a.1.take a.2

/-- Those of the requests that were called back. -/
def Side.settled (d : Side) : List UInt8 := d.finished.flatMap fun f => f.buffer.take f.report.bytes

theorem Side.moved_eq (d : Side) : d.moved =
    d.settled ++ (d.outstanding.map fun srb => srb.buffer.take srb.bytesOperated).toList.flatten := by
  cases h : d.outstanding <;> simp [moved, settled, accounts, h, List.flatMap_map]

/-- A count covers the buffer where no error was reported, and never exceeds it. -/
structure Side.Counted (d : Side) : Prop where
  within : ∀ a ∈ d.accounts, a.2 ≤ a.1.length
  whole : ∀ f ∈ d.finished, f.report.errno = 0 → f.report.bytes = f.buffer.length
  final : ∀ f ∈ d.finished, f.report.errno ≠ eagain

namespace Side
variable {d d' : Side} {srb : Srb} {r : KernelResult}

/-- The slot and the job are not both taken. -/
def Alone (d : Side) : Prop := d.slot = none ∨ d.job = none

/-- What the requests have moved is the same. -/
structure Same (d d' : Side) : Prop where
  finished : d'.finished = d.finished
  outstanding : d'.outstanding = d.outstanding
  alone : d'.Alone

theorem Same.accounts (h : Same d d') : d'.accounts = d.accounts := by
  rw [Side.accounts, Side.accounts, h.finished, h.outstanding]

theorem Same.counted (h : Same d d') (hc : d.Counted) : d'.Counted :=
  ⟨h.accounts ▸ hc.within, h.finished ▸ hc.whole, h.finished ▸ hc.final⟩

theorem Same.moved (h : Same d d') : d'.moved = d.moved := by
  rw [Side.moved, Side.moved, h.accounts]

theorem outstanding_eq_none : d.outstanding = none ↔ d.slot = none ∧ d.job = none := by
  rw [outstanding, Option.or_eq_none_iff, Option.map_eq_none_iff]

theorem post_eq_some (h : d.post srb = some d') (hout : d.outstanding = none) :
    d' = { d with slot := some { srb with bytesOperated := 0 } } ∧ d.job = none := by
  obtain ⟨hslot, hjob⟩ := outstanding_eq_none.mp hout
  unfold post at h
  split_ifs at h with hassert htaken
  · rw [hslot] at htaken
    cases htaken
  · exact ⟨(Option.some.inj h).symm, hjob⟩

theorem alone_post (h : d.post srb = some d') (hout : d.outstanding = none) : d'.Alone := by
  obtain ⟨rfl, hjob⟩ := post_eq_some h hout
  exact .inr hjob

theorem accounts_post (h : d.post srb = some d') (hout : d.outstanding = none) :
    d'.accounts = d.accounts ++ [(srb.buffer, 0)] := by
  have hbefore : d.accounts = d.finished.map fun f => (f.buffer, f.report.bytes) := by simp [accounts, hout]
  obtain ⟨rfl, -⟩ := post_eq_some h hout
  rw [hbefore]
  rfl

theorem Counted.post (hc : d.Counted) (h : d.post srb = some d') (hout : d.outstanding = none) : d'.Counted := by
  have hacc := accounts_post h hout
  obtain ⟨rfl, -⟩ := post_eq_some h hout
  refine ⟨?_, hc.whole, hc.final⟩
  intro a ha
  rw [hacc, List.mem_append, List.mem_singleton] at ha
  cases ha with
  | inl ha => exact hc.within a ha
  | inr ha => exact ha ▸ Nat.zero_le _

theorem moved_post (h : d.post srb = some d') (hout : d.outstanding = none) : d'.moved = d.moved := by
  simp [moved, accounts_post h hout]

theorem same_pick (h : d.pick = some d') : Same d d' := by
  unfold pick at h
  split at h
  · rename_i hslot hjob
    obtain rfl := Option.some.inj h
    refine ⟨rfl, ?_, .inl rfl⟩
    rw [outstanding, outstanding, hslot, hjob]
    rfl
  · cases h

theorem Alone.slot (halone : d.Alone) {j : Job} (hjob : d.job = some j) : d.slot = none := by
  cases halone with
  | inl hslot => exact hslot
  | inr hnone => cases hnone.symm.trans hjob

/-- The re-post finds the slot as the pick has left it. -/
theorem same_repost (h : d.repost = some d') (halone : d.Alone) : Same d d' := by
  unfold repost at h
  split at h
  · rename_i srb hjob
    have hslot := halone.slot hjob
    obtain rfl := Option.some.inj h
    refine ⟨rfl, ?_, .inr rfl⟩
    rw [outstanding, outstanding, hslot, hjob]
    rfl
  · cases h

theorem outstanding_job (halone : d.Alone) {j : Job} (hjob : d.job = some j) : d.outstanding = some j.srb := by
  rw [outstanding, halone.slot hjob, hjob]
  rfl

/-- The account of the request that was not called back is the last one. -/
theorem accounts_outstanding {old : Srb} (hout : d.outstanding = some old) :
    d.accounts = d.finished.map (fun f => (f.buffer, f.report.bytes)) ++ [(old.buffer, old.bytesOperated)] := by
  simp [accounts, hout]

theorem alone_attempted (hslot : d.slot = none) : (d.attempted srb r).Alone := by
  unfold attempted
  split
  · exact .inl hslot
  · exact .inl hslot

theorem accounts_attempted (hslot : d.slot = none) : (d.attempted srb r).accounts =
    d.finished.map (fun f => (f.buffer, f.report.bytes)) ++ [(srb.buffer, srb.bytesOperated + r.bytes)] := by
  rcases Sending.tpl_cases srb r with ⟨rfl, ht⟩ | ⟨e, -, rfl, ht⟩ | ⟨n, -, rfl, ht⟩ | ⟨n, -, rfl, ht⟩ <;>
    simp [attempted, accounts, outstanding, hslot, Job.srb, ht, KernelResult.bytes]

theorem moved_outstanding {old : Srb} (hout : d.outstanding = some old) :
    d.moved = d.settled ++ old.buffer.take old.bytesOperated := by
  simp [moved_eq, hout]

theorem moved_attempted (hslot : d.slot = none) :
    (d.attempted srb r).moved = d.settled ++ srb.buffer.take (srb.bytesOperated + r.bytes) := by
  simp [moved, settled, accounts_attempted hslot, List.flatMap_map]

/-- An attempt has one more request finished, or leaves it posted. -/
theorem finished_attempted (hfits : r.fits srb) : ∀ f ∈ (d.attempted srb r).finished, f ∈ d.finished ∨
    (f.buffer = srb.buffer ∧ f.report.errno ≠ eagain ∧ (f.report.errno = 0 → f.report.bytes = srb.buffer.length)) := by
  intro f hf
  rcases Sending.tpl_cases srb r with ⟨rfl, ht⟩ | ⟨e, he, rfl, ht⟩ | ⟨n, -, rfl, ht⟩ | ⟨n, hn, rfl, ht⟩ <;>
    simp only [attempted, ht, List.mem_append, List.mem_singleton] at hf
  · exact .inl hf
  · refine hf.imp_right ?_
    rintro rfl
    exact ⟨rfl, he, fun h0 => absurd h0 hfits⟩
  · exact .inl hf
  · refine hf.imp_right ?_
    rintro rfl
    exact ⟨rfl, by simp [eagain], fun _ => le_antisymm hfits hn⟩

theorem Counted.attempted (hc : d.Counted) (hslot : d.slot = none) (hfits : r.fits srb)
    (hwithin : srb.bytesOperated + r.bytes ≤ srb.buffer.length) : (d.attempted srb r).Counted := by
  have hbefore : ∀ a ∈ d.finished.map (fun f => (f.buffer, f.report.bytes)), a.2 ≤ a.1.length := by
    intro a ha
    exact hc.within a (List.mem_append_left _ ha)
  refine ⟨?_, ?_, ?_⟩
  · intro a ha
    rw [accounts_attempted hslot, List.mem_append, List.mem_singleton] at ha
    cases ha with
    | inl ha => exact hbefore a ha
    | inr ha => exact ha ▸ hwithin
  · intro f hf h0
    cases finished_attempted hfits f hf with
    | inl hold => exact hc.whole f hold h0
    | inr hnew => rw [hnew.1, hnew.2.2 h0]
  · intro f hf
    cases finished_attempted hfits f hf with
    | inl hold => exact hc.final f hold
    | inr hnew => exact hnew.2.1

theorem settled_first (d : Side) : d.settled <+: d.moved := by
  rw [moved_eq]
  exact List.prefix_append _ _

theorem Counted.settled_eq (hc : d.Counted) (hok : ∀ f ∈ d.finished, f.report.errno = 0) :
    d.settled = (d.finished.map Finished.buffer).flatten := by
  rw [settled, ← List.flatMap_def]
  refine List.flatMap_congr fun f hf => ?_
  rw [hc.whole f hf (hok f hf), List.take_length]

/-- Without an error an end has moved a prefix of its buffers laid back to back. -/
theorem Counted.moved_within (hc : d.Counted) (hok : ∀ f ∈ d.finished, f.report.errno = 0) :
    d.moved <+: (d.accounts.map Prod.fst).flatten := by
  have hbuffers : d.accounts.map Prod.fst = d.finished.map Finished.buffer ++
      (d.outstanding.map Srb.buffer).toList := by
    cases h : d.outstanding <;> simp [accounts, h, Function.comp_def]
  rw [moved_eq, hc.settled_eq hok, hbuffers, List.flatten_append, List.prefix_append_right_inj]
  cases d.outstanding with
  | none => exact List.prefix_refl _
  | some srb => simpa using List.take_prefix _ _

end Side

/-- A result that fits stays within what is left of the buffer. -/
theorem bytes_within {srb : Srb} {r : KernelResult} (hfits : r.fits srb) (h : srb.bytesOperated ≤ srb.buffer.length) :
    srb.bytesOperated + r.bytes ≤ srb.buffer.length := by
  cases r with
  | count n => exact hfits
  | error e => exact h

theorem taken_eq (srb : Srb) (r : KernelResult) : r.taken srb = (srb.buffer.drop srb.bytesOperated).take r.bytes := by
  cases r <;> simp [KernelResult.taken, KernelResult.bytes]

section filled
variable {srb : Srb} {bytes : List UInt8} (h : srb.bytesOperated + bytes.length ≤ srb.buffer.length)
include h

theorem filled_length : (filled srb bytes).buffer.length = srb.buffer.length := by
  simp only [filled, List.length_append, List.length_take, List.length_drop]
  omega

theorem filled_take : (filled srb bytes).buffer.take (srb.bytesOperated + bytes.length) =
    srb.buffer.take srb.bytesOperated ++ bytes := by
  have hlen : (srb.buffer.take srb.bytesOperated ++ bytes).length = srb.bytesOperated + bytes.length := by
    rw [List.length_append, List.length_take]
    omega
  rw [filled, ← hlen, List.take_left]

theorem filled_drop : (filled srb bytes).buffer.drop (srb.bytesOperated + bytes.length) =
    srb.buffer.drop (srb.bytesOperated + bytes.length) := by
  have hlen : (srb.buffer.take srb.bytesOperated ++ bytes).length = srb.bytesOperated + bytes.length := by
    rw [List.length_append, List.length_take]
    omega
  calc (filled srb bytes).buffer.drop (srb.bytesOperated + bytes.length)
      = (filled srb bytes).buffer.drop (srb.buffer.take srb.bytesOperated ++ bytes).length := by rw [hlen]
    _ = srb.buffer.drop (srb.bytesOperated + bytes.length) := List.drop_left

end filled

/-! ## What holds of a direction -/

/-- A receive account beside the buffer that was posted: behind the count the buffer is as it was. -/
def Untouched (posted : List UInt8) (a : List UInt8 × ℕ) : Prop :=
  a.1.length = posted.length ∧ a.1.drop a.2 = posted.drop a.2

/-- What holds of a direction after any number of posts, one at a time at each end, and attempts. -/
structure Holds (h : List (Direction × Action)) (s : Direction) : Prop where
  sender : s.sender.Counted
  receiver : s.receiver.Counted
  sendsAlone : s.sender.Alone
  receivesAlone : s.receiver.Alone
  sent : s.sender.accounts.map Prod.fst = given sentBuffer h
  offered : List.Forall₂ Untouched (given offeredBuffer h) s.receiver.accounts
  moved : s.sender.moved = s.receiver.moved ++ s.wire

theorem holds_idle : Holds [] idle := by
  have hc : Side.Counted ⟨none, none, []⟩ := ⟨by simp [Side.accounts, Side.outstanding], by simp, by simp⟩
  exact ⟨hc, hc, .inl rfl, .inl rfl, rfl, .nil, rfl⟩

variable {h : List (Direction × Action)} {s s' : Direction}

theorem Holds.send {srb : Srb} (hs : Holds h s) (hone : OneAtATime s (.send srb))
    (hstep : step s (.send srb) = some s') :
    Holds ((s, .send srb) :: h) s' := by
  simp only [step] at hstep
  split_ifs at hstep
  obtain ⟨d, hd, rfl⟩ := Option.map_eq_some_iff.mp hstep
  refine ⟨hs.sender.post hd hone, hs.receiver, Side.alone_post hd hone, hs.receivesAlone, ?_, ?_, ?_⟩
  · rw [Side.accounts_post hd hone, List.map_append, hs.sent]
    rfl
  · simpa [given, offeredBuffer] using hs.offered
  · rw [Side.moved_post hd hone, hs.moved]

theorem Holds.recv {srb : Srb} (hs : Holds h s) (hone : OneAtATime s (.recv srb))
    (hstep : step s (.recv srb) = some s') :
    Holds ((s, .recv srb) :: h) s' := by
  simp only [step] at hstep
  split_ifs at hstep
  obtain ⟨d, hd, rfl⟩ := Option.map_eq_some_iff.mp hstep
  refine ⟨hs.sender, hs.receiver.post hd hone, hs.sendsAlone, Side.alone_post hd hone, ?_, ?_, ?_⟩
  · simpa [given, sentBuffer] using hs.sent
  · rw [Side.accounts_post hd hone]
    exact List.rel_append hs.offered (.cons ⟨rfl, rfl⟩ .nil)
  · rw [Side.moved_post hd hone, hs.moved]

/-- A pick or a re-post moves the request between the slot and the job. -/
theorem Holds.turn {f : Side → Option Side} {op : SrbOperation} {a : Action} (hs : Holds h s)
    (hsame : ∀ d d', d.Alone → f d = some d' → Side.Same d d') (hsent : sentBuffer s a = none)
    (hoffered : offeredBuffer s a = none) (hstep : s.turn f op = some s') : Holds ((s, a) :: h) s' := by
  have hgiven : given sentBuffer ((s, a) :: h) = given sentBuffer h := by simp [given, hsent]
  have hgiven' : given offeredBuffer ((s, a) :: h) = given offeredBuffer h := by simp [given, hoffered]
  cases op with
  | send =>
    obtain ⟨d, hd, rfl⟩ := Option.map_eq_some_iff.mp hstep
    have hd := hsame _ _ hs.sendsAlone hd
    refine ⟨hd.counted hs.sender, hs.receiver, hd.alone, hs.receivesAlone, ?_, hgiven' ▸ hs.offered, ?_⟩
    · rw [hgiven, hd.accounts, hs.sent]
    · rw [hd.moved, hs.moved]
  | recv =>
    obtain ⟨d, hd, rfl⟩ := Option.map_eq_some_iff.mp hstep
    have hd := hsame _ _ hs.receivesAlone hd
    refine ⟨hs.sender, hd.counted hs.receiver, hs.sendsAlone, hd.alone, hgiven ▸ hs.sent, ?_, ?_⟩
    · rw [hgiven', hd.accounts]
      exact hs.offered
    · rw [hd.moved, hs.moved]

theorem step_writable {r : KernelResult} (hstep : step s (.writable r) = some s') :
    ∃ srb, s.sender.job = some (.entered srb) ∧ r.fits srb ∧
      s' = { s with sender := s.sender.attempted srb r, wire := s.wire ++ r.taken srb } := by
  simp only [step] at hstep
  split at hstep
  · rename_i srb hjob
    split_ifs at hstep with hfits
    exact ⟨srb, hjob, hfits, (Option.some.inj hstep).symm⟩
  · cases hstep

theorem step_readable {r : KernelResult} (hstep : step s (.readable r) = some s') :
    ∃ srb, s.receiver.job = some (.entered srb) ∧ r.fits srb ∧ r.bytes ≤ s.wire.length ∧
      s' = { s with
        receiver := s.receiver.attempted (filled srb (s.wire.take r.bytes)) r
        wire := s.wire.drop r.bytes } := by
  simp only [step] at hstep
  split at hstep
  · rename_i srb hjob
    split_ifs at hstep with hcond
    exact ⟨srb, hjob, hcond.1, hcond.2, (Option.some.inj hstep).symm⟩
  · cases hstep

theorem Holds.writable {r : KernelResult} (hs : Holds h s) (hstep : step s (.writable r) = some s') :
    Holds ((s, .writable r) :: h) s' := by
  obtain ⟨srb, hjob, hfits, rfl⟩ := step_writable hstep
  have hslot := hs.sendsAlone.slot hjob
  have hout : s.sender.outstanding = some srb := Side.outstanding_job hs.sendsAlone hjob
  have hacc := Side.accounts_outstanding hout
  have hle : srb.bytesOperated ≤ srb.buffer.length := hs.sender.within (srb.buffer, srb.bytesOperated) (by simp [hacc])
  refine ⟨hs.sender.attempted hslot hfits (bytes_within hfits hle), hs.receiver, Side.alone_attempted hslot,
    hs.receivesAlone, ?_, ?_, ?_⟩
  · have hsent := hs.sent
    rw [hacc, List.map_append] at hsent
    simp only [Side.accounts_attempted hslot, List.map_append, given, sentBuffer, Option.toList_none, List.append_nil]
    exact hsent
  · simpa [given, offeredBuffer] using hs.offered
  · have hmoved := hs.moved
    rw [Side.moved_outstanding hout] at hmoved
    calc (s.sender.attempted srb r).moved
        = s.sender.settled ++ (srb.buffer.take srb.bytesOperated ++ r.taken srb) := by
          rw [Side.moved_attempted hslot, List.take_add, taken_eq]
      _ = s.receiver.moved ++ (s.wire ++ r.taken srb) := by
          rw [← List.append_assoc, hmoved, List.append_assoc]

theorem Holds.readable {r : KernelResult} (hs : Holds h s) (hstep : step s (.readable r) = some s') :
    Holds ((s, .readable r) :: h) s' := by
  obtain ⟨srb, hjob, hfits, hwire, rfl⟩ := step_readable hstep
  have hslot := hs.receivesAlone.slot hjob
  have hout : s.receiver.outstanding = some srb := Side.outstanding_job hs.receivesAlone hjob
  have hacc := Side.accounts_outstanding hout
  have hle : srb.bytesOperated ≤ srb.buffer.length :=
    hs.receiver.within (srb.buffer, srb.bytesOperated) (by simp [hacc])
  have hlen : (s.wire.take r.bytes).length = r.bytes := by rw [List.length_take, Nat.min_eq_left hwire]
  have hroom : srb.bytesOperated + (s.wire.take r.bytes).length ≤ srb.buffer.length := by
    rw [hlen]
    exact bytes_within hfits hle
  have hfits' : r.fits (filled srb (s.wire.take r.bytes)) := by
    cases r with
    | count n => exact hfits.trans_eq (filled_length hroom).symm
    | error e => exact hfits
  have htake := filled_take hroom
  have hdrop := filled_drop hroom
  have hsame := filled_length hroom
  rw [hlen] at htake hdrop
  refine ⟨hs.sender, hs.receiver.attempted hslot hfits' ?_, hs.sendsAlone, Side.alone_attempted hslot, ?_, ?_, ?_⟩
  · rw [hsame]
    exact bytes_within hfits hle
  · simpa [given, sentBuffer] using hs.sent
  · have hoff := hs.offered
    rw [hacc] at hoff
    have hgiven : given offeredBuffer ((s, .readable r) :: h) = given offeredBuffer h := by simp [given, offeredBuffer]
    rw [Side.accounts_attempted hslot, hgiven]
    refine forall₂_last ?_ hoff
    intro posted hu
    have hbehind : srb.buffer.drop srb.bytesOperated = posted.drop srb.bytesOperated := hu.2
    refine ⟨hsame.trans hu.1, ?_⟩
    calc (filled srb (s.wire.take r.bytes)).buffer.drop (srb.bytesOperated + r.bytes)
        = (srb.buffer.drop srb.bytesOperated).drop r.bytes := by rw [hdrop, List.drop_drop]
      _ = posted.drop (srb.bytesOperated + r.bytes) := by rw [hbehind, List.drop_drop]
  · have hmoved := hs.moved
    rw [Side.moved_outstanding hout] at hmoved
    calc s.sender.moved
        = s.receiver.settled ++ srb.buffer.take srb.bytesOperated ++ (s.wire.take r.bytes ++ s.wire.drop r.bytes) := by
          rw [hmoved, List.take_append_drop]
      _ = s.receiver.settled ++ (srb.buffer.take srb.bytesOperated ++ s.wire.take r.bytes) ++ s.wire.drop r.bytes := by
          simp only [List.append_assoc]
      _ = (s.receiver.attempted (filled srb (s.wire.take r.bytes)) r).moved ++ s.wire.drop r.bytes := by
          rw [Side.moved_attempted hslot, ← htake]
          rfl

theorem Holds.step (hs : Holds h s) {a : Action} (hone : OneAtATime s a) (hstep : Steps s a s') :
    Holds ((s, a) :: h) s' := by
  cases a with
  | send srb => exact hs.send hone hstep
  | recv srb => exact hs.recv hone hstep
  | pick op => exact hs.turn (fun _ _ _ hd => Side.same_pick hd) rfl rfl hstep
  | writable r => exact hs.writable hstep
  | readable r => exact hs.readable hstep
  | repost op => exact hs.turn (fun _ _ halone hd => Side.same_repost hd halone) rfl rfl hstep

theorem holds (r : Run Steps idle h s) (hone : ∀ e ∈ h, OneAtATime e.1 e.2) : Holds h s :=
  r.keeps holds_idle (fun _ _ _ _ hs hone hstep => hs.step hone hstep) hone

/-- Where no request of either end failed, and the requests to receive that are done asked for what
the sends had, they have got the buffers that were sent, in their order. -/
theorem Holds.buffers (hs : Holds h s) (hsender : ∀ f ∈ s.sender.finished, f.report.errno = 0)
    (hreceiver : ∀ f ∈ s.receiver.finished, f.report.errno = 0)
    (hlen : (s.receiver.finished.map Finished.buffer).map List.length <+: (given sentBuffer h).map List.length) :
    s.receiver.finished.map Finished.buffer <+: given sentBuffer h := by
  refine prefix_of_lengths hlen ?_
  have hread : s.receiver.settled <+: s.sender.moved := by
    rw [hs.moved]
    exact s.receiver.settled_first.trans (List.prefix_append _ _)
  have hwritten := hs.sender.moved_within hsender
  rw [hs.sent] at hwritten
  rw [← hs.receiver.settled_eq hreceiver]
  exact hread.trans hwritten

/-- Where each end posts its requests one at a time, whatever counts their attempts move and however they
interleave, what the sends have moved is what the receives have moved, then what is on its way; an end's
callbacks come in the order of its requests, a success with the whole buffer moved; and a receive leaves its
buffer as it was behind its count. -/
theorem delivered (r : Run Steps idle h s) (hone : ∀ e ∈ h, OneAtATime e.1 e.2) :
    s.sender.moved = s.receiver.moved ++ s.wire ∧
      s.sender.accounts.map Prod.fst = given sentBuffer h ∧
      List.Forall₂ Untouched (given offeredBuffer h) s.receiver.accounts ∧
      (∀ f ∈ s.sender.finished ++ s.receiver.finished,
        f.report.errno ≠ eagain ∧ (f.report.errno = 0 → f.report.bytes = f.buffer.length)) ∧
      ((∀ f ∈ s.sender.finished ++ s.receiver.finished, f.report.errno = 0) →
        (s.receiver.finished.map Finished.buffer).map List.length <+: (given sentBuffer h).map List.length →
        s.receiver.finished.map Finished.buffer <+: given sentBuffer h) := by
  have hs := holds r hone
  refine ⟨hs.moved, hs.sent, hs.offered, ?_, ?_⟩
  · intro f hf
    cases List.mem_append.mp hf with
    | inl hf => exact ⟨hs.sender.final f hf, hs.sender.whole f hf⟩
    | inr hf => exact ⟨hs.receiver.final f hf, hs.receiver.whole f hf⟩
  · intro hok
    exact hs.buffers (fun f hf => hok f (List.mem_append_left _ hf)) fun f hf => hok f (List.mem_append_right _ hf)

/-- Two bytes sent as they are taken one at a time, received at once after an early attempt. -/
theorem delivered_two : ∃ h s, Run Steps idle h s ∧ s.receiver.finished = [⟨[104, 105], ⟨0, 2⟩⟩] ∧
    s.sender.moved = s.receiver.moved ++ s.wire := by
  have hr : Run.replay step ([], idle) [.send sendTwo.srb, .recv { recvOne.srb with buffer := [0, 0] }, .pick .recv,
      .readable (.error eagain), .repost .recv, .pick .send, .writable (.count 1), .repost .send, .pick .send,
      .writable (.count 1), .pick .recv, .readable (.count 2)] =
      some (_, ⟨⟨none, none, [⟨[104, 105], ⟨0, 2⟩⟩]⟩, [], ⟨none, none, [⟨[104, 105], ⟨0, 2⟩⟩]⟩⟩) := rfl
  have hstart : Run Steps idle [] idle := .start
  have r := hstart.of_replay hr
  refine ⟨_, _, r, rfl, (delivered r ?_).1⟩
  intro e he
  fin_cases he <;> first | exact trivial | exact rfl

/-- A send that is posted while the job of the one before runs takes the slot, and the re-post is dropped. -/
example : (Run.replay step ([], idle) [.send sendTwo.srb, .pick .send, .writable (.count 1),
      .send { sendTwo.srb with buffer := [33] }, .repost .send]).map (fun m => (m.2.sender, m.2.wire)) =
    some (⟨some { sendTwo.srb with buffer := [33], bytesOperated := 0 }, none, []⟩, [104]) := rfl

end Chats.Network.Delivery
