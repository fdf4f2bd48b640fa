import Chats.Network.Delivery
import Chats.P2p.PacketStream

/-! # Packets across a connection

Packets that are sent one request each, one after the other, over a connection whose kernels move any counts of bytes.
The receiver may look at what it has at any moment: the packets that are there in full are found,
at their places, and nothing else is taken for one. -/
namespace Chats.P2p
set_option autoImplicit false

open Lib Network.Delivery

/-- The bytes of the packets, back to back. -/
def laid (order : ByteOrder) (ps : List Outgoing) : List UInt8 := ps.flatMap (Outgoing.encode order)

theorem laid_take_append_drop (order : ByteOrder) (ps : List Outgoing) (k : ℕ) :
    laid order ps = laid order (ps.take k) ++ laid order (ps.drop k) := by
  rw [laid, laid, laid, ← List.flatMap_append, List.take_append_drop]

/-- What begins as the stream does, and goes at least as far as some packets, begins with these. -/
theorem laid_take_of_le {order : ByteOrder} {ps : List Outgoing} {bytes : List UInt8} (h : bytes <+: laid order ps)
    {k : ℕ} (hk : (laid order (ps.take k)).length ≤ bytes.length) : laid order (ps.take k) <+: bytes := by
  refine List.prefix_of_prefix_length_le ?_ h hk
  rw [laid_take_append_drop order ps k]
  exact List.prefix_append _ _

/-- The walk through bytes that begin with some packets meets these and ends behind them. -/
theorem walk_laid (order : ByteOrder) (ps : List Outgoing) {bytes : List UInt8} (h : laid order ps <+: bytes) :
    ∃ visits, walk (visit order bytes) (laid order ps).length 0 = some (visits, (laid order ps).length) ∧
      visits.map Prod.fst = (placed (fun p => (p.encode order).length) 0 ps).map Prod.fst ∧
      visits.map Prod.snd = ps.map fun p => (p.cmd.code, p.body) := by
  obtain ⟨rest, rfl⟩ := h
  have hpos : ∀ p ∈ ps, 0 < (p.encode order).length := by
    intro p _
    rw [p.encode_length]
    omega
  have hvisit : ∀ x ∈ placed (fun p => (p.encode order).length) 0 ps,
      visit order (laid order ps ++ rest) x.1 = some ((x.2.cmd.code, x.2.body), x.1 + (x.2.encode order).length) := by
    intro x hx
    obtain ⟨behind, e⟩ := drop_placed (Outgoing.encode order) ps [] x hx
    have e : (laid order ps).drop x.1 = x.2.encode order ++ behind := e
    have hplace : x.1 ≤ (laid order ps).length := by
      have hsize := congrArg List.length e
      rw [List.length_drop, List.length_append, x.2.encode_length] at hsize
      omega
    have hdrop : (laid order ps ++ rest).drop x.1 = x.2.encode order ++ (behind ++ rest) := by
      rw [List.drop_append_of_le_length hplace, e, List.append_assoc]
    exact visit_encode order x.2 hdrop
  have hlen : (laid order ps).length = 0 + (ps.map fun p => (p.encode order).length).sum := by
    rw [laid, List.length_flatMap, Nat.zero_add]
  refine ⟨_, walk_placed (fun p => (p.cmd.code, p.body)) ps 0 hlen hpos hvisit, ?_, ?_⟩
  · rw [List.map_map]
    rfl
  · have hsnd := placed_snd (fun p => (p.encode order).length) ps 0
    rw [List.map_map]
    conv_rhs => rw [← hsnd, List.map_map]
    rfl

section delivery
variable {order : ByteOrder} {ps : List Outgoing} {h : List (Direction × Action)} {s : Direction}

/-- Without a failed send the receiver has a prefix of the packets laid back to back. -/
theorem moved_laid (r : Run Steps idle h s) (hone : ∀ e ∈ h, OneAtATime e.1 e.2)
    (hsent : given sentBuffer h = ps.map (Outgoing.encode order))
    (hok : ∀ f ∈ s.sender.finished, f.report.errno = 0) : s.receiver.moved <+: laid order ps := by
  have hs := holds r hone
  have hwritten := hs.sender.moved_within hok
  rw [hs.sent, hsent, ← List.flatMap_def] at hwritten
  refine List.IsPrefix.trans ?_ hwritten
  rw [hs.moved]
  exact List.prefix_append _ _

/-- At any moment, the walk through what has been received accepts the headers of the packets that
are there in full, meets these with the commands and the bodies that were sent, at their places and
in their order, and ends behind the last of them. -/
theorem packets_found (r : Run Steps idle h s) (hone : ∀ e ∈ h, OneAtATime e.1 e.2)
    (hsent : given sentBuffer h = ps.map (Outgoing.encode order))
    (hok : ∀ f ∈ s.sender.finished, f.report.errno = 0) (k : ℕ)
    (hk : (laid order (ps.take k)).length ≤ s.receiver.moved.length) :
    ∃ visits, walk (visit order s.receiver.moved) (laid order (ps.take k)).length 0 =
        some (visits, (laid order (ps.take k)).length) ∧
      visits.map Prod.fst = (placed (fun p => (p.encode order).length) 0 (ps.take k)).map Prod.fst ∧
      visits.map (fun v => (Command.ofCode v.2.1, v.2.2)) = (ps.take k).map fun p => (some p.cmd, p.body) := by
  obtain ⟨visits, hwalk, hplaces, hpackets⟩ :=
    walk_laid order (ps.take k) (laid_take_of_le (moved_laid r hone hsent hok) hk)
  refine ⟨visits, hwalk, hplaces, ?_⟩
  have hcodes := congrArg (List.map fun v : UInt8 × List UInt8 => (Command.ofCode v.1, v.2)) hpackets
  rw [List.map_map, List.map_map] at hcodes
  simpa [Function.comp_def] using hcodes

end delivery

/-- A message of one byte. -/
def oneByte : Outgoing where
  cmd := .message
  body := [33]
  crcData := 0
  length_lt := by decide
  allowed := trivial

/-- It is sent and received in two pieces, of which one ends inside the header. -/
theorem packets_found_one : ∃ h s visits, Run Steps idle h s ∧
    walk (visit .littleEndian s.receiver.moved) (laid .littleEndian [oneByte]).length 0 =
      some (visits, (laid .littleEndian [oneByte]).length) ∧
    visits.map (fun v => (Command.ofCode v.2.1, v.2.2)) = [(some .message, [33])] := by
  let srb := { Network.sendTwo.srb with buffer := oneByte.encode .littleEndian }
  let into := { Network.recvOne.srb with buffer := List.replicate 13 0 }
  have hr : Run.replay step ([], idle) [.send srb, .recv into, .pick .send, .pick .recv, .writable (.count 5),
      .readable (.count 5), .repost .recv, .repost .send, .pick .send, .writable (.count 8), .pick .recv,
      .readable (.count 8)] =
      some (_, ⟨⟨none, none, [⟨srb.buffer, ⟨0, 13⟩⟩]⟩, [], ⟨none, none, [⟨srb.buffer, ⟨0, 13⟩⟩]⟩⟩) := rfl
  have hstart : Run Steps idle [] idle := .start
  have r := hstart.of_replay hr
  have hfound := fun hone => @packets_found .littleEndian [oneByte] _ _ r hone rfl (by simp) 1 (by decide)
  obtain ⟨visits, hwalk, -, hpackets⟩ := hfound (by
    intro e he
    fin_cases he <;> first | exact trivial | exact rfl)
  exact ⟨_, _, visits, r, hwalk, hpackets⟩

end Chats.P2p
