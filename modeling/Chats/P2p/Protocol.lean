import Chats.P2p.Crc16

/-! # Packets

`chats/p2p/protocol/protocol.c`: a packet is a header of twelve bytes and a body. Its header is
validated on its own; `p2p_utilize_packet` then passes the body to the handler of its command. -/
namespace Chats.P2p
set_option autoImplicit false

inductive Command
  | connect | reference | channelSwitch | referenceAdd | referenceRemove | quit | ping | accept | message
deriving DecidableEq

def cmdMax : UInt8 := 9

def Command.ofCode : UInt8 → Option Command
  | 0 => some .connect
  | 1 => some .reference
  | 2 => some .channelSwitch
  | 3 => some .referenceAdd
  | 4 => some .referenceRemove
  | 5 => some .quit
  | 6 => some .ping
  | 7 => some .accept
  | 8 => some .message
  | _ => none

/-- `sizeof` of the packed structure of a command's body. -/
def Command.sizeofBody : Command → UInt16
  | .connect => 16
  | .reference => 2
  | .channelSwitch => 0
  | .referenceAdd => 19
  | .referenceRemove => 16
  | .quit => 16
  | .ping => 16
  | .accept => 1
  | .message => 1

/-- The order in which the host stores the two bytes of a `uint16_t`. -/
inductive ByteOrder
  | littleEndian | bigEndian

def ByteOrder.bytes (order : ByteOrder) (n : UInt16) : List UInt8 :=
  match order with
  | .littleEndian => [n.toUInt8, (n >>> 8).toUInt8]
  | .bigEndian => [(n >>> 8).toUInt8, n.toUInt8]

structure Header where
  signature : Vector UInt8 5
  cmd : UInt8
  length : UInt16
  crcHeader : UInt16
  crcData : UInt16
deriving DecidableEq

/-- `SIGNATURE`: p2pmu -/
def signature : Vector UInt8 5 := #v[0x70, 0x32, 0x70, 0x6d, 0x75]

def Header.bytes (order : ByteOrder) (h : Header) : List UInt8 :=
  h.signature.toList ++ [h.cmd] ++ order.bytes h.length ++ order.bytes h.crcHeader ++ order.bytes h.crcData

/-- The bytes in front of the two CRC fields. -/
def Header.checked (order : ByteOrder) (h : Header) : List UInt8 := (h.bytes order).take (12 - 2 - 2)

inductive HeaderValidation
  | valid | invalidSignature | invalidCmd | invalidLength | invalidCrcHeader
deriving DecidableEq

def HeaderValidation.code : HeaderValidation → UInt16
  | .valid => 0x0000
  | .invalidSignature => 0x0001
  | .invalidCmd => 0x0002
  | .invalidLength => 0x0003
  | .invalidCrcHeader => 0x0004

/-- The `switch` over the command. -/
def lengthValidation (h : Header) : HeaderValidation :=
  match Command.ofCode h.cmd with
  | some .reference => if h.length < Command.reference.sizeofBody then .invalidLength else .valid
  | some .message => .valid
  | some c => if h.length ≠ c.sizeofBody then .invalidLength else .valid
  | none => .valid

/-- `p2p_validate_header`; of a null header it returns `false`. -/
def p2pValidateHeader (order : ByteOrder) : Option Header → UInt16
  | none => 0
  | some h =>
    if signature ≠ h.signature then HeaderValidation.invalidSignature.code
    else if h.cmd ≥ cmdMax then HeaderValidation.invalidCmd.code
    else if crc16Ccitt (h.checked order) ≠ h.crcHeader then HeaderValidation.invalidCrcHeader.code
    else (lengthValidation h).code

/-- A header and the bytes behind it that it announces. -/
structure Packet where
  header : Header
  body : List UInt8
  length_eq : body.length = header.length.toNat

inductive PacketValidation
  | ok | headerInvalid | dataInvalidCrc | noHandler | handlerError
deriving DecidableEq

def PacketValidation.code : PacketValidation → UInt16
  | .ok => 0x0000
  | .headerInvalid => 0x0100
  | .dataInvalidCrc => 0x0200
  | .noHandler => 0x0400
  | .handlerError => 0x0800

/-- A handler that was called, by its address, and the data it was given. -/
structure Call where
  handler : UInt64
  data : List UInt8
deriving DecidableEq

structure Outcome (σ : Type) where
  ret : UInt16
  ctx : σ
  calls : List Call

section utilize
variable {σ : Type} (order : ByteOrder) (handlers : UInt8 → UInt64) (invoke : UInt64 → List UInt8 → σ → UInt16 × σ)

/-- `p2p_utilize_packet`: `handlers` has the addresses of the handlers, `0` for none, and
`invoke` runs the code at an address on the data and the context. `none` is the access to the
null header, which `p2p_validate_header` lets pass. -/
def p2pUtilizePacket (packet : Option Packet) (ctx : σ) : Option (Outcome σ) :=
  let ret := p2pValidateHeader order (packet.map Packet.header)
  if ret ≠ 0 then some { ret := ret ||| PacketValidation.headerInvalid.code, ctx, calls := [] }
  else do
    let p ← packet
    let data := p.body
    -- the CRC is taken over the header's bytes once more, not over the data
    let dataCrc := crc16Ccitt (p.header.checked order)
    if dataCrc ≠ p.header.crcData then
      some { ret := PacketValidation.dataInvalidCrc.code, ctx, calls := [] }
    else
      let handler := handlers p.header.cmd
      if handler = 0 then some { ret := PacketValidation.noHandler.code, ctx, calls := [] }
      else
        let (ret, ctx) := invoke handler data ctx
        let calls := [{ handler, data }]
        if ret ≠ 0 then some { ret := ret ||| PacketValidation.handlerError.code, ctx, calls }
        else some { ret := PacketValidation.ok.code, ctx, calls }

/-- What the header's two CRC fields ask for: a handler for an accepted header whose body has
the announced CRC. -/
def Dispatched (p : Packet) : Prop :=
  p2pValidateHeader order (some p.header) = 0 ∧ crc16Ccitt p.body = p.header.crcData ∧ handlers p.header.cmd ≠ 0

/-- The handler of the command is called, once and on the body, exactly for dispatched packets,
and a body with another CRC is answered with `p2p_pvc_data_invalid_crc`. -/
def Contract (p : Packet) (ctx : σ) : Prop :=
  ∃ out, p2pUtilizePacket order handlers invoke (some p) ctx = some out ∧
    (Dispatched order handlers p → out.calls = [{ handler := handlers p.header.cmd, data := p.body }]) ∧
    (¬ Dispatched order handlers p → out.calls = []) ∧
    (p2pValidateHeader order (some p.header) = 0 → crc16Ccitt p.body ≠ p.header.crcData →
      out.ret = PacketValidation.dataInvalidCrc.code)

theorem validate_crc {h : Header} (hv : p2pValidateHeader order (some h) = 0) :
    crc16Ccitt (h.checked order) = h.crcHeader := by
  simp only [p2pValidateHeader] at hv
  split_ifs at hv with h₁ h₂ h₃
  · cases hv
  · cases hv
  · cases hv
  · exact not_not.mp h₃

theorem utilize_rejected {p : Packet} (ctx : σ) (hv : p2pValidateHeader order (some p.header) ≠ 0) :
    p2pUtilizePacket order handlers invoke (some p) ctx =
      some { ret := p2pValidateHeader order (some p.header) ||| PacketValidation.headerInvalid.code,
             ctx, calls := [] } := by
  simp only [p2pUtilizePacket, Option.map_some]
  rw [if_pos hv]

/-- For an accepted header it is `crc_header` that is compared with `crc_data`. -/
theorem utilize_other_crc {p : Packet} (ctx : σ) (hv : p2pValidateHeader order (some p.header) = 0)
    (hc : p.header.crcHeader ≠ p.header.crcData) :
    p2pUtilizePacket order handlers invoke (some p) ctx =
      some { ret := PacketValidation.dataInvalidCrc.code, ctx, calls := [] } := by
  simp only [p2pUtilizePacket, Option.map_some, Option.bind_eq_bind, Option.bind_some]
  rw [if_neg (not_not.mpr hv), validate_crc order hv, if_pos hc]

theorem utilize_same_crc {p : Packet} (ctx : σ) (hv : p2pValidateHeader order (some p.header) = 0)
    (hc : p.header.crcHeader = p.header.crcData) :
    ∃ out, p2pUtilizePacket order handlers invoke (some p) ctx = some out ∧
      (handlers p.header.cmd = 0 → out.ret = PacketValidation.noHandler.code ∧ out.calls = []) ∧
      (handlers p.header.cmd ≠ 0 → out.calls = [{ handler := handlers p.header.cmd, data := p.body }]) := by
  simp only [p2pUtilizePacket, Option.map_some, Option.bind_eq_bind, Option.bind_some]
  rw [if_neg (not_not.mpr hv), validate_crc order hv, if_neg (not_not.mpr hc)]
  split_ifs with h₁ h₂
  · exact ⟨_, rfl, fun _ => ⟨rfl, rfl⟩, fun hn => absurd h₁ hn⟩
  · exact ⟨_, rfl, fun hn => absurd hn h₁, fun _ => rfl⟩
  · exact ⟨_, rfl, fun hn => absurd hn h₁, fun _ => rfl⟩

theorem contract_rejected {p : Packet} (ctx : σ) (hv : p2pValidateHeader order (some p.header) ≠ 0) :
    Contract order handlers invoke p ctx :=
  ⟨_, utilize_rejected order handlers invoke ctx hv, fun hd => absurd hd.1 hv, fun _ => rfl, fun h0 => absurd h0 hv⟩

theorem contract_other_crc {p : Packet} (ctx : σ) (hv : p2pValidateHeader order (some p.header) = 0)
    (hc : p.header.crcHeader ≠ p.header.crcData) :
    Contract order handlers invoke p ctx ↔ ¬ Dispatched order handlers p := by
  have he := utilize_other_crc order handlers invoke ctx hv hc
  constructor
  · rintro ⟨out, e, hcalls, _⟩ hd
    rw [he, Option.some.injEq] at e
    have hcalls := hcalls hd
    rw [← e] at hcalls
    cases hcalls
  · intro hd
    exact ⟨_, he, fun h => absurd h hd, fun _ => rfl, fun _ _ => rfl⟩

theorem contract_same_crc {p : Packet} (ctx : σ) (hv : p2pValidateHeader order (some p.header) = 0)
    (hc : p.header.crcHeader = p.header.crcData) :
    Contract order handlers invoke p ctx ↔ crc16Ccitt p.body = p.header.crcData := by
  obtain ⟨out, he, hnone, hsome⟩ := utilize_same_crc order handlers invoke ctx hv hc
  constructor
  · rintro ⟨out', e, _, hcalls, hret⟩
    rw [he, Option.some.injEq] at e
    subst e
    by_contra hb
    have hcalls := hcalls fun hd => hb hd.2.1
    have hret := hret hv hb
    by_cases h0 : handlers p.header.cmd = 0
    · rw [(hnone h0).1] at hret
      cases hret
    · rw [hsome h0] at hcalls
      cases hcalls
  · intro hb
    refine ⟨out, he, fun hd => hsome hd.2.2, fun hd => ?_, fun _ hn => absurd hb hn⟩
    exact (hnone (by_contra fun h0 => hd ⟨hv, hb, h0⟩)).2

/-- When the contract is met: the header is rejected, or its two CRC fields are equal exactly if
the body has the announced CRC, or the body has it and there is no handler to call. -/
theorem utilize_contract_iff (p : Packet) (ctx : σ) :
    Contract order handlers invoke p ctx ↔
      p2pValidateHeader order (some p.header) ≠ 0 ∨
      (p.header.crcHeader = p.header.crcData ↔ crc16Ccitt p.body = p.header.crcData) ∨
      (crc16Ccitt p.body = p.header.crcData ∧ handlers p.header.cmd = 0) := by
  by_cases hv : p2pValidateHeader order (some p.header) = 0
  · by_cases hc : p.header.crcHeader = p.header.crcData
    · rw [contract_same_crc order handlers invoke ctx hv hc]
      tauto
    · rw [contract_other_crc order handlers invoke ctx hv hc]
      unfold Dispatched
      tauto
  · exact ⟨fun _ => .inl hv, fun _ => contract_rejected order handlers invoke ctx hv⟩

end utilize

/-- A MESSAGE packet with the text "hi" and both CRC fields right. -/
def hello : Packet where
  header := { signature, cmd := 8, length := 2, crcHeader := 0xf495, crcData := 0x6203 }
  body := [0x68, 0x69]
  length_eq := rfl

/-- A packet with nothing wrong about it is refused and its handler is not called. -/
theorem utilize_refuses_hello :
    p2pValidateHeader .littleEndian (some hello.header) = 0 ∧ crc16Ccitt hello.body = hello.header.crcData ∧
    p2pUtilizePacket .littleEndian (fun _ => 1) (fun _ _ ctx => (0, ctx)) (some hello) () =
      some { ret := PacketValidation.dataInvalidCrc.code, ctx := (), calls := [] } ∧
    ¬ Contract .littleEndian (fun _ => 1) (fun _ _ ctx => (0, ctx)) hello () := by
  have hv : p2pValidateHeader .littleEndian (some hello.header) = 0 := by decide
  have hb : crc16Ccitt hello.body = hello.header.crcData := by decide
  have hc : hello.header.crcHeader ≠ hello.header.crcData := by decide
  refine ⟨hv, hb, utilize_other_crc _ _ _ () hv hc, ?_⟩
  rw [contract_other_crc _ _ _ () hv hc, not_not]
  exact ⟨hv, hb, by decide⟩

end Chats.P2p
