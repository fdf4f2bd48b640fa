import Chats.P2p.Protocol

/-! # Lengths of bodies

`p2p_validate_header` compares the length with the size of the structure of the command's body.
Where the structure ends with the first character of a text, that is the length of the body only
for a text of one character. -/
namespace Chats.P2p
set_option autoImplicit false

def Command.code : Command → UInt8
  | .connect => 0
  | .reference => 1
  | .channelSwitch => 2
  | .referenceAdd => 3
  | .referenceRemove => 4
  | .quit => 5
  | .ping => 6
  | .accept => 7
  | .message => 8

@[simp] theorem Command.ofCode_code (cmd : Command) : Command.ofCode cmd.code = some cmd := by
  cases cmd <;> rfl

theorem Command.code_lt (cmd : Command) : ¬ cmd.code ≥ cmdMax := by
  cases cmd <;> decide

/-- The header that goes in front of the body: its signature, length and CRC are right. -/
def encodedHeader (order : ByteOrder) (cmd : Command) (body : List UInt8) (crcData : UInt16) : Header :=
  let h : Header := { signature, cmd := cmd.code, length := UInt16.ofNat body.length, crcHeader := 0, crcData }
  { h with crcHeader := crc16Ccitt (h.checked order) }

theorem checked_crcHeader (order : ByteOrder) (h : Header) (crc : UInt16) :
    Header.checked order { h with crcHeader := crc } = h.checked order := by
  cases order <;> simp [Header.checked, Header.bytes, ByteOrder.bytes, List.take_append]

/-! ## What is accepted -/

/-- The lengths that the code accepts. -/
def Command.accepts : Command → ℕ → Prop
  | .reference, n => Command.reference.sizeofBody.toNat ≤ n
  | .message, _ => True
  | c, n => n = c.sizeofBody.toNat

theorem HeaderValidation.code_eq_zero (v : HeaderValidation) : v.code = 0 ↔ v = .valid := by
  cases v <;> decide

section header
variable (order : ByteOrder) (cmd : Command) (body : List UInt8) (crcData : UInt16)

theorem lengthValidation_valid (h : Header) (hcmd : h.cmd = cmd.code) :
    lengthValidation h = .valid ↔ cmd.accepts h.length.toNat := by
  unfold lengthValidation
  rw [hcmd, Command.ofCode_code]
  cases cmd with
  | reference => simp [Command.accepts, UInt16.lt_iff_toNat_lt]
  | message => simp [Command.accepts]
  | connect => simp [Command.accepts, ← UInt16.toNat_inj]
  | channelSwitch => simp [Command.accepts, ← UInt16.toNat_inj]
  | referenceAdd => simp [Command.accepts, ← UInt16.toNat_inj]
  | referenceRemove => simp [Command.accepts, ← UInt16.toNat_inj]
  | quit => simp [Command.accepts, ← UInt16.toNat_inj]
  | ping => simp [Command.accepts, ← UInt16.toNat_inj]
  | accept => simp [Command.accepts, ← UInt16.toNat_inj]

theorem encodedHeader_length (hlen : body.length < 2 ^ 16) :
    (encodedHeader order cmd body crcData).length.toNat = body.length := by
  rw [encodedHeader]
  exact UInt16.toNat_ofNat_of_lt hlen

/-- Of a header that is right otherwise, only the length is judged. -/
theorem validate_encoded (hlen : body.length < 2 ^ 16) :
    p2pValidateHeader order (some (encodedHeader order cmd body crcData)) = 0 ↔ cmd.accepts body.length := by
  have hsig : signature = (encodedHeader order cmd body crcData).signature := rfl
  have hcmd : ¬ (encodedHeader order cmd body crcData).cmd ≥ cmdMax := cmd.code_lt
  have hcrc : crc16Ccitt ((encodedHeader order cmd body crcData).checked order) =
      (encodedHeader order cmd body crcData).crcHeader := by
    rw [encodedHeader, checked_crcHeader]
  rw [← encodedHeader_length order cmd body crcData hlen, ← lengthValidation_valid cmd _ rfl,
    ← HeaderValidation.code_eq_zero, p2pValidateHeader, if_neg (not_not.mpr hsig), if_neg hcmd,
    if_neg (not_not.mpr hcrc)]

end header

/-! ## What the formats allow -/

/-- `P2P_HOST_LENGTH` -/
def hostLength : ℕ := 256

/-- The lengths that the format of a body allows. A directory entry is a nickname, a port and
the text of the host; the bodies of REFERENCE and MESSAGE are of any length. -/
def Command.allows : Command → ℕ → Prop
  | .reference, _ => True
  | .message, _ => True
  | .referenceAdd, n => ∃ host, 1 ≤ host ∧ host ≤ hostLength ∧ n = 16 + 2 + host
  | c, n => n = c.sizeofBody.toNat

/-- The body is long enough for the structure of the command, and its format allows its length. -/
def WellFormedLength (cmd : Command) (n : ℕ) : Prop := cmd.sizeofBody.toNat ≤ n ∧ cmd.allows n

theorem accepts_iff_wellFormed (cmd : Command) (n : ℕ) :
    (cmd.accepts n ↔ WellFormedLength cmd n) ↔
      ¬ (cmd = .referenceAdd ∧ 20 ≤ n ∧ n ≤ 16 + 2 + hostLength) ∧ ¬ (cmd = .message ∧ n = 0) := by
  cases cmd with
  | referenceAdd =>
    have hallows : Command.referenceAdd.allows n ↔ 19 ≤ n ∧ n ≤ 16 + 2 + hostLength := by
      constructor
      · rintro ⟨host, h₁, h₂, rfl⟩
        omega
      · rintro ⟨h₁, h₂⟩
        exact ⟨n - 18, by omega, by omega, by omega⟩
    simp only [WellFormedLength, hallows, Command.accepts, Command.sizeofBody, hostLength, UInt16.reduceToNat]
    simp
    omega
  | message =>
    simp only [WellFormedLength, Command.allows, Command.accepts, Command.sizeofBody, UInt16.reduceToNat]
    simp
    omega
  | reference => simp [WellFormedLength, Command.allows, Command.accepts]
  | connect => simp +contextual [WellFormedLength, Command.allows, Command.accepts]
  | channelSwitch => simp +contextual [WellFormedLength, Command.allows, Command.accepts]
  | referenceRemove => simp +contextual [WellFormedLength, Command.allows, Command.accepts]
  | quit => simp +contextual [WellFormedLength, Command.allows, Command.accepts]
  | ping => simp +contextual [WellFormedLength, Command.allows, Command.accepts]
  | accept => simp +contextual [WellFormedLength, Command.allows, Command.accepts]

/-- A header is accepted exactly for a well-formed body, unless the body is a directory entry with
a host of more than one character, or an empty message. -/
theorem validate_wellFormed_iff (order : ByteOrder) (cmd : Command) (body : List UInt8) (crcData : UInt16)
    (hlen : body.length < 2 ^ 16) :
    (p2pValidateHeader order (some (encodedHeader order cmd body crcData)) = 0 ↔ WellFormedLength cmd body.length) ↔
      ¬ (cmd = .referenceAdd ∧ 20 ≤ body.length ∧ body.length ≤ 16 + 2 + hostLength) ∧
      ¬ (cmd = .message ∧ body.length = 0) := by
  rw [validate_encoded order cmd body crcData hlen]
  exact accepts_iff_wellFormed cmd body.length

theorem validate_wellFormed_ping :
    p2pValidateHeader .littleEndian (some (encodedHeader .littleEndian .ping (List.replicate 16 0) 0)) = 0 ↔
      WellFormedLength .ping 16 :=
  (validate_wellFormed_iff .littleEndian .ping (List.replicate 16 0) 0 (by decide)).mpr ⟨nofun, nofun⟩

/-- Nickname, port and the host "h1". -/
def entryH1 : List UInt8 := List.replicate 16 0x61 ++ [0x1f, 0x90] ++ [0x68, 0x31]

/-- A directory entry with a host of two characters is well formed and is refused; an empty
message is shorter than its structure and is accepted. -/
theorem validate_refuses_entry :
    (WellFormedLength .referenceAdd entryH1.length ∧ ∀ order crcData,
      p2pValidateHeader order (some (encodedHeader order .referenceAdd entryH1 crcData)) ≠ 0) ∧
    (¬ WellFormedLength .message 0 ∧ ∀ order crcData,
      p2pValidateHeader order (some (encodedHeader order .message [] crcData)) = 0) := by
  refine ⟨⟨⟨by decide, 2, by decide, by decide, rfl⟩, fun order crcData => ?_⟩, fun h => ?_, fun order crcData => ?_⟩
  · rw [Ne, validate_encoded order .referenceAdd entryH1 crcData (by decide)]
    exact (by decide : entryH1.length ≠ Command.referenceAdd.sizeofBody.toNat)
  · exact absurd h.1 (by decide)
  · exact (validate_encoded order .message [] crcData (by decide)).mpr trivial

end Chats.P2p
