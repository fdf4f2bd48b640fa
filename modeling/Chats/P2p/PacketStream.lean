import Chats.Lib.Stream
import Chats.P2p.PacketFormat

/-! # Streams of packets

Packets laid back to back in one buffer. `p2p_skip_packet` leads from each header to the next, so
that a reader who validates every header on the way finds them all again. -/
namespace Chats.P2p
set_option autoImplicit false

open Lib

/-! ## Reading a header -/

def ByteOrder.word (order : ByteOrder) (a b : UInt8) : UInt16 :=
  match order with
  | .littleEndian => UInt16.ofNat (a.toNat + 256 * b.toNat)
  | .bigEndian => UInt16.ofNat (256 * a.toNat + b.toNat)

/-- The packed structure at the start of the bytes. -/
def Header.read (order : ByteOrder) : List UInt8 → Option Header
  | s₀ :: s₁ :: s₂ :: s₃ :: s₄ :: cmd :: l₀ :: l₁ :: h₀ :: h₁ :: d₀ :: d₁ :: _ => some
    { signature := #v[s₀, s₁, s₂, s₃, s₄]
      cmd := cmd
      length := order.word l₀ l₁
      crcHeader := order.word h₀ h₁
      crcData := order.word d₀ d₁ }
  | _ => none

/-- `p2p_skip_packet`, on places in a buffer. -/
def p2pSkipPacket (place : ℕ) (header : Header) : ℕ := place + 12 + header.length.toNat

/-- What is read at a place: the command and the body of a packet whose header is valid, and
where the next one starts. -/
def visit (order : ByteOrder) (buffer : List UInt8) (place : ℕ) : Option ((UInt8 × List UInt8) × ℕ) := do
  let header ← Header.read order (buffer.drop place)
  if p2pValidateHeader order (some header) = 0 then
    some ((header.cmd, (buffer.drop (place + 12)).take header.length.toNat), p2pSkipPacket place header)
  else none

theorem word_bytes (order : ByteOrder) (n : UInt16) : ∃ a b, order.bytes n = [a, b] ∧ order.word a b = n := by
  have hn : n.toNat < 65536 := n.toNat_lt
  cases order with
  | littleEndian =>
    refine ⟨_, _, rfl, ?_⟩
    rw [ByteOrder.word, ← UInt16.toNat_inj]
    simp [Nat.shiftRight_eq_div_pow]
    omega
  | bigEndian =>
    refine ⟨_, _, rfl, ?_⟩
    rw [ByteOrder.word, ← UInt16.toNat_inj]
    simp [Nat.shiftRight_eq_div_pow]
    omega

theorem bytes_length (order : ByteOrder) (h : Header) : (h.bytes order).length = 12 := by
  cases order <;> simp [Header.bytes, ByteOrder.bytes]

theorem read_bytes (order : ByteOrder) (h : Header) (rest : List UInt8) :
    Header.read order (h.bytes order ++ rest) = some h := by
  obtain ⟨l₀, l₁, el, hl⟩ := word_bytes order h.length
  obtain ⟨h₀, h₁, eh, hh⟩ := word_bytes order h.crcHeader
  obtain ⟨d₀, d₁, ed, hd⟩ := word_bytes order h.crcData
  obtain ⟨⟨⟨sig⟩, hsig⟩, cmd, length, crcHeader, crcData⟩ := h
  match sig, hsig with
  | [s₀, s₁, s₂, s₃, s₄], _ =>
    simp only [Header.bytes, el, eh, ed]
    change some (Header.mk _ cmd (order.word l₀ l₁) (order.word h₀ h₁) (order.word d₀ d₁)) = _
    rw [hl, hh, hd]

/-! ## The stream -/

/-- A packet with a body whose length its command allows. -/
structure Outgoing where
  cmd : Command
  body : List UInt8
  crcData : UInt16
  length_lt : body.length < 2 ^ 16
  allowed : cmd.accepts body.length

def Outgoing.header (order : ByteOrder) (p : Outgoing) : Header := encodedHeader order p.cmd p.body p.crcData

def Outgoing.encode (order : ByteOrder) (p : Outgoing) : List UInt8 := (p.header order).bytes order ++ p.body

theorem Outgoing.encode_length (order : ByteOrder) (p : Outgoing) : (p.encode order).length = 12 + p.body.length := by
  rw [encode, List.length_append, bytes_length]

theorem visit_encode (order : ByteOrder) (p : Outgoing) {buffer rest : List UInt8} {place : ℕ}
    (h : buffer.drop place = p.encode order ++ rest) :
    visit order buffer place = some ((p.cmd.code, p.body), place + (p.encode order).length) := by
  have hlen : (p.header order).length.toNat = p.body.length :=
    encodedHeader_length order p.cmd p.body p.crcData p.length_lt
  have hvalid : p2pValidateHeader order (some (p.header order)) = 0 :=
    (validate_encoded order p.cmd p.body p.crcData p.length_lt).mpr p.allowed
  have hread : Header.read order (buffer.drop place) = some (p.header order) := by
    rw [h, Outgoing.encode, List.append_assoc, read_bytes]
  have hbody : (buffer.drop (place + 12)).take p.body.length = p.body := by
    rw [← List.drop_drop, h, Outgoing.encode, List.append_assoc, ← bytes_length order (p.header order), List.drop_left,
      List.take_left]
  simp only [visit, hread, Option.bind_eq_bind, Option.bind_some, if_pos hvalid, p2pSkipPacket, hlen, hbody,
    Outgoing.encode_length, Nat.add_assoc]
  rfl

/-- The walk through a stream accepts every header, meets the packets at their places and in their
order, and ends where the buffer does. -/
theorem walk_packets (order : ByteOrder) (ps : List Outgoing) :
    ∃ visits, walk (visit order (ps.flatMap (Outgoing.encode order))) (ps.flatMap (Outgoing.encode order)).length 0 =
        some (visits, (ps.flatMap (Outgoing.encode order)).length) ∧
      visits.map Prod.fst = (placed (fun p => (p.encode order).length) 0 ps).map Prod.fst ∧
      visits.map (fun v => (Command.ofCode v.2.1, v.2.2)) = ps.map fun p => (some p.cmd, p.body) := by
  have hpos : ∀ p ∈ ps, 0 < (p.encode order).length := by
    intro p _
    rw [p.encode_length]
    omega
  have hvisit : ∀ x ∈ placed (fun p => (p.encode order).length) 0 ps,
      visit order (ps.flatMap (Outgoing.encode order)) x.1 =
        some ((x.2.cmd.code, x.2.body), x.1 + (x.2.encode order).length) := by
    intro x hx
    obtain ⟨rest, e⟩ := drop_placed (Outgoing.encode order) ps [] x hx
    exact visit_encode order x.2 e
  have hlen : (ps.flatMap (Outgoing.encode order)).length = 0 + (ps.map fun p => (p.encode order).length).sum := by
    rw [List.length_flatMap, Nat.zero_add]
  refine ⟨_, walk_placed (fun p => (p.cmd.code, p.body)) ps 0 hlen hpos hvisit, ?_, ?_⟩
  · rw [List.map_map]
    rfl
  · have hsnd := placed_snd (fun p => (p.encode order).length) ps 0
    rw [List.map_map]
    conv_rhs => rw [← hsnd, List.map_map]
    simp

end Chats.P2p
