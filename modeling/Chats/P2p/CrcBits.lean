import Chats.Lib.Register
import Chats.P2p.Crc16

/-! # The table and the bits of CRC-16-CCITT

A turn of the loop of `crc16_ccitt` is eight steps of the division by x^16 + x^12 + x^5 + 1. The
division is a linear register: its steps are looked at over `Remainder`, words under exclusive or,
and only the 256 words of the table are gone through one by one. -/
namespace Chats.P2p
open Chats.Lib
set_option autoImplicit false

/-- The bits of a byte, the most significant one first. -/
def byteBits (byte : UInt8) : List Bool := [7, 6, 5, 4, 3, 2, 1, 0].map byte.toNat.testBit

def messageBits (bytes : List UInt8) : List Bool := bytes.flatMap byteBits

/-- One bit of the division by `0x1021`: the bit that leaves the register, changed by that of the
message, decides whether the polynomial is taken off. -/
def crcBitStep (crc : UInt16) (bit : Bool) : UInt16 :=
  if (crc.toNat.testBit 15 ^^ bit) = true then (crc <<< 1) ^^^ 0x1021 else crc <<< 1

/-- The CRC bit by bit: initial value `0xFFFF`, no reflection, no final exclusive or. -/
def crc16Bitwise (bytes : List UInt8) : UInt16 := (messageBits bytes).foldl crcBitStep 0xFFFF

theorem crcBitStep_eq (crc : UInt16) (bit : Bool) :
    crcBitStep crc bit = (crc <<< 1) ^^^ bif crc.toNat.testBit 15 ^^ bit then 0x1021 else 0 := by
  rw [crcBitStep]
  cases crc.toNat.testBit 15 ^^ bit <;> simp

/-- A step is linear in the register and the bit together. -/
theorem crcBitStep_xor (x y : UInt16) (b c : Bool) :
    crcBitStep (x ^^^ y) (b ^^ c) = crcBitStep x b ^^^ crcBitStep y c := by
  have hpoly : ∀ p q : Bool, (bif p ^^ q then 0x1021 else 0 : UInt16) =
      (bif p then 0x1021 else 0) ^^^ bif q then 0x1021 else 0 := by decide
  have hbits : (x.toNat.testBit 15 ^^ y.toNat.testBit 15 ^^ (b ^^ c)) =
      ((x.toNat.testBit 15 ^^ b) ^^ (y.toNat.testBit 15 ^^ c)) := by
    simp only [Bool.xor_assoc, Bool.xor_left_comm]
  simp only [crcBitStep_eq, UInt16.toNat_xor, Nat.testBit_xor, UInt16.shiftLeft_xor]
  rw [hbits, hpoly]
  ac_rfl

/-! ## The register -/

@[ext] structure Remainder where
  word : UInt16
deriving DecidableEq

namespace Remainder

instance : Zero Remainder := ⟨⟨0⟩⟩
instance : Add Remainder := ⟨fun x y => ⟨x.word ^^^ y.word⟩⟩
instance : Neg Remainder := ⟨fun x => x⟩

@[simp] theorem word_zero : (0 : Remainder).word = 0 := rfl
@[simp] theorem word_add (x y : Remainder) : (x + y).word = x.word ^^^ y.word := rfl

theorem add_self (x : Remainder) : x + x = 0 := Remainder.ext UInt16.xor_self

instance : AddCommGroup Remainder where
  add_assoc x y z := Remainder.ext (UInt16.xor_assoc x.word y.word z.word)
  zero_add x := Remainder.ext UInt16.zero_xor
  add_zero x := Remainder.ext UInt16.xor_zero
  add_comm x y := Remainder.ext (UInt16.xor_comm x.word y.word)
  neg_add_cancel := add_self
  nsmul := nsmulRec
  zsmul := zsmulRec

/-- A step of the division without a message bit: multiplication by x. -/
def shift : Remainder →+ Remainder where
  toFun x := ⟨crcBitStep x.word false⟩
  map_zero' := by decide
  map_add' x y := Remainder.ext (crcBitStep_xor x.word y.word false false)

/-- The word that a set bit of the message adds. -/
def top : Remainder := ⟨0x8000⟩

theorem step_eq (crc : UInt16) (bit : Bool) : Register.step shift top ⟨crc⟩ bit = ⟨crcBitStep crc bit⟩ := by
  refine Remainder.ext ?_
  cases bit with
  | false => exact congrArg (fun w => crcBitStep w false) UInt16.xor_zero
  | true =>
    calc crcBitStep (crc ^^^ 0x8000) (true ^^ true)
        = crcBitStep crc true ^^^ crcBitStep 0x8000 true := crcBitStep_xor crc 0x8000 true true
      _ = crcBitStep crc true ^^^ 0 := by congr 1
      _ = crcBitStep crc true := UInt16.xor_zero

theorem run_eq (crc : UInt16) (bits : List Bool) :
    Register.run shift top ⟨crc⟩ bits = ⟨bits.foldl crcBitStep crc⟩ := by
  induction bits generalizing crc with
  | nil => rfl
  | cons bit bits ih =>
    calc Register.run shift top ⟨crc⟩ (bit :: bits)
        = Register.run shift top (Register.step shift top ⟨crc⟩ bit) bits := rfl
      _ = ⟨bits.foldl crcBitStep (crcBitStep crc bit)⟩ := by rw [step_eq, ih]

/-! ## The table -/

theorem table_map : crc16CcittTable = (List.range 256).map fun n => (shift^[8] ⟨UInt16.ofNat n <<< 8⟩).word := by
  decide +kernel

theorem table_eq (n : ℕ) (hn : n < 256) :
    (⟨crc16CcittTable.getD n 0⟩ : Remainder) = shift^[8] ⟨UInt16.ofNat n <<< 8⟩ := by
  rw [table_map, List.getD_eq_getElem?_getD, List.getElem?_map, List.getElem?_range hn]
  rfl

/-- Eight bits of a message go in as the byte in the upper half of the register would. -/
theorem run_byteBits_zero : ∀ n < 256,
    Register.run shift top 0 (byteBits (UInt8.ofNat n)) = shift^[8] ⟨UInt16.ofNat n <<< 8⟩ := by
  decide +kernel

/-- The lower half of the register only moves up. -/
theorem iterate_shift_low : ∀ n < 256, shift^[8] ⟨UInt16.ofNat n⟩ = ⟨UInt16.ofNat n <<< 8⟩ := by
  decide +kernel

end Remainder

/-! ## A byte is eight bits -/

theorem getLsbD_255 : ∀ i < 16, (255#16).getLsbD i = decide (i < 8) := by decide

/-- The byte meets the upper half of the register; the lower half stays by itself. -/
theorem halves (crc : UInt16) (byte : UInt8) : crc ^^^ (byte.toUInt16 <<< 8) =
    (((crc >>> 8) ^^^ byte.toUInt16) <<< 8) ^^^ (crc &&& 0xff) := by
  refine UInt16.toBitVec_inj.mp (BitVec.eq_of_getLsbD_eq fun i hi => ?_)
  have hmask := getLsbD_255 i hi
  simp only [UInt16.toBitVec_xor, UInt16.toBitVec_shiftLeft, UInt16.toBitVec_and, BitVec.getLsbD_xor,
    BitVec.getLsbD_and]
  by_cases h8 : i < 8
  · simp [h8, -BitVec.getLsbD_eq_getElem, hmask]
  · have hback : 8 + (i - 8) = i := by omega
    simp [hi, h8, -BitVec.getLsbD_eq_getElem, hmask, hback]

theorem low_shift (crc : UInt16) : (crc &&& 0xff) <<< 8 = crc <<< 8 := by
  refine UInt16.toNat_inj.mp ?_
  have hlow : crc.toNat &&& 255 = crc.toNat % 256 := Nat.and_two_pow_sub_one_eq_mod crc.toNat 8
  simp only [UInt16.toNat_shiftLeft, UInt16.toNat_and]
  simp [hlow, Nat.shiftLeft_eq]
  omega

theorem index_lt (crc : UInt16) (byte : UInt8) : ((crc >>> 8) ^^^ byte.toUInt16).toNat < 256 := by
  have hhigh : (crc >>> 8).toNat < 2 ^ 8 := by
    have := crc.toNat_lt
    simp [Nat.shiftRight_eq_div_pow]
    omega
  exact Nat.xor_lt_two_pow hhigh byte.toNat_lt

open Remainder in
/-- A turn of the loop is eight steps of the division. -/
theorem crc16CcittStep_eq (crc : UInt16) (byte : UInt8) :
    crc16CcittStep crc byte = (byteBits byte).foldl crcBitStep crc := by
  let index := (crc >>> 8) ^^^ byte.toUInt16
  have hindex : (⟨crc16CcittTable.getD index.toNat 0⟩ : Remainder) = shift^[8] ⟨index <<< 8⟩ := by
    rw [table_eq _ (index_lt crc byte), UInt16.ofNat_toNat]
  have hlow : shift^[8] ⟨crc &&& 0xff⟩ = ⟨crc <<< 8⟩ := by
    have hlt : (crc &&& 0xff).toNat < 256 := Nat.lt_succ_of_le Nat.and_le_right
    rw [← UInt16.ofNat_toNat (x := crc &&& 0xff), iterate_shift_low _ hlt, UInt16.ofNat_toNat, low_shift]
  have hbyte : Register.run shift top 0 (byteBits byte) = shift^[8] ⟨byte.toUInt16 <<< 8⟩ := by
    have h := run_byteBits_zero byte.toNat byte.toNat_lt
    rwa [UInt8.ofNat_toNat, UInt16.ofNat_uInt8ToNat] at h
  have hregister : (⟨crc16CcittStep crc byte⟩ : Remainder) = ⟨(byteBits byte).foldl crcBitStep crc⟩ := by
    calc (⟨crc16CcittStep crc byte⟩ : Remainder)
        = ⟨crc16CcittTable.getD index.toNat 0⟩ + ⟨crc <<< 8⟩ := Remainder.ext (UInt16.xor_comm _ _)
      _ = shift^[8] ⟨index <<< 8⟩ + shift^[8] ⟨crc &&& 0xff⟩ := by rw [hindex, hlow]
      _ = shift^[8] (⟨crc⟩ + ⟨byte.toUInt16 <<< 8⟩) := by
          rw [← iterate_map_add]
          exact congrArg (fun w => shift^[8] ⟨w⟩) (halves crc byte).symm
      _ = shift^[8] ⟨crc⟩ + Register.run shift top 0 (byteBits byte) := by rw [iterate_map_add, hbyte]
      _ = Register.run shift top ⟨crc⟩ (byteBits byte) := (Register.run_eq_add shift top ⟨crc⟩ (byteBits byte)).symm
      _ = ⟨(byteBits byte).foldl crcBitStep crc⟩ := run_eq crc _
  exact congrArg Remainder.word hregister

theorem foldl_crc16CcittStep (crc : UInt16) (bytes : List UInt8) :
    bytes.foldl crc16CcittStep crc = (messageBits bytes).foldl crcBitStep crc := by
  induction bytes generalizing crc with
  | nil => rfl
  | cons byte bytes ih =>
    calc (byte :: bytes).foldl crc16CcittStep crc
        = (messageBits bytes).foldl crcBitStep (crc16CcittStep crc byte) := ih _
      _ = (messageBits (byte :: bytes)).foldl crcBitStep crc := by
          rw [crc16CcittStep_eq, ← List.foldl_append]
          rfl

theorem crc16Ccitt_bitwise (bytes : List UInt8) : crc16Ccitt bytes = crc16Bitwise bytes :=
  foldl_crc16CcittStep 0xFFFF bytes

-- The check value of `crc16-ccitt.h`, of the digits 1 to 9.
example : crc16Ccitt [49, 50, 51, 52, 53, 54, 55, 56, 57] = 0x29B1 := by decide

end Chats.P2p
