import Chats.P2p.CrcBits

/-! # The errors that CRC-16-CCITT detects

Messages of one length that differ within sixteen bits in a row, in an odd number of bits, or in two
bits less than 32767 places apart have different CRCs. Each is a property of the register of
`CrcBits`, checked on its sixteen places. -/
namespace Chats.P2p
open Chats.Lib
set_option autoImplicit false

/-- The bits in which two messages differ, the most significant bit of the first byte at place 0. -/
def differingBits (a b : List UInt8) : Finset ℕ := Register.differing (messageBits a) (messageBits b)

theorem messageBits_cons (byte : UInt8) (bytes : List UInt8) :
    messageBits (byte :: bytes) = byteBits byte ++ messageBits bytes := rfl

theorem messageBits_length (bytes : List UInt8) : (messageBits bytes).length = 8 * bytes.length := by
  induction bytes with
  | nil => rfl
  | cons byte bytes ih =>
    rw [messageBits_cons, List.length_append, ih, List.length_cons]
    exact Nat.add_comm 8 (8 * bytes.length)

theorem byteBits_injective : Function.Injective byteBits := by
  intro x y hxy
  simp only [byteBits, List.map_cons, List.map_nil, List.cons.injEq, and_true] at hxy
  refine UInt8.toNat_inj.mp (Nat.eq_of_testBit_eq fun i => ?_)
  by_cases hi : i < 8
  · interval_cases i <;> tauto
  · have hpow : 2 ^ 8 ≤ 2 ^ i := Nat.pow_le_pow_right (by decide) (by omega)
    rw [Nat.testBit_lt_two_pow (x.toNat_lt.trans_le hpow), Nat.testBit_lt_two_pow (y.toNat_lt.trans_le hpow)]

theorem messageBits_injective {a b : List UInt8} (hlen : a.length = b.length) (hbits : messageBits a = messageBits b) :
    a = b := by
  induction a generalizing b with
  | nil => exact (List.eq_nil_of_length_eq_zero hlen.symm).symm
  | cons x a ih =>
    cases b with
    | nil => cases hlen
    | cons y b =>
      obtain ⟨hx, hrest⟩ := List.append_inj hbits rfl
      rw [byteBits_injective hx, ih (Nat.succ.inj hlen) hrest]

namespace Remainder

/-- The polynomial 1. -/
def one : Remainder := ⟨1⟩

/-- The coefficient of x^j. -/
def coefficient (j : ℕ) : Remainder →+ ZMod 2 where
  toFun x := bif x.word.toNat.testBit j then 1 else 0
  map_zero' := by simp
  map_add' x y := by
    rw [word_add, UInt16.toNat_xor, Nat.testBit_xor]
    cases x.word.toNat.testBit j <;> cases y.word.toNat.testBit j <;> decide

theorem coefficient_iterate_shift : ∀ j < 16, ∀ k < 16, coefficient j (shift^[k] one) = if j = k then 1 else 0 := by
  decide +kernel

theorem eq_zero_of_coefficient (x : Remainder) (h : ∀ j < 16, coefficient j x = 0) : x = 0 := by
  refine Remainder.ext (UInt16.toNat_inj.mp (Nat.eq_of_testBit_eq fun j => ?_))
  rw [word_zero, UInt16.toNat_zero, Nat.zero_testBit]
  by_cases hj : j < 16
  · have hx : (bif x.word.toNat.testBit j then 1 else 0 : ZMod 2) = 0 := h j hj
    cases hbit : x.word.toNat.testBit j with
    | false => rfl
    | true =>
      rw [hbit] at hx
      exact absurd hx one_ne_zero
  · have hpow : 2 ^ 16 ≤ 2 ^ j := Nat.pow_le_pow_right (by decide) (by omega)
    exact Nat.testBit_lt_two_pow (x.word.toNat_lt.trans_le hpow)

theorem coordinates : Register.Coordinates shift 16 one coefficient where
  place_iterate := coefficient_iterate_shift
  eq_zero := eq_zero_of_coefficient

/-! ## The order of x -/

/-- The binary digits of 32767, and of 4681, 1057 and 217. -/
theorem powers : Register.power shift 16 one coefficient (List.replicate 15 true) = one ∧
    Register.power shift 16 one coefficient
      [true, false, false, true, false, false, true, false, false, true, false, false, true] ≠ one ∧
    Register.power shift 16 one coefficient
      [true, false, false, false, false, true, false, false, false, false, true] ≠ one ∧
    Register.power shift 16 one coefficient [true, false, false, true, true, false, true, true] ≠ one := by
  decide +kernel

theorem iterate_order : shift^[32767] one = one := by
  have hpower := powers.1
  rwa [coordinates.power_eq add_self] at hpower

/-- 32767 is 7 · 31 · 151, and x is brought back by none of its three largest proper divisors. -/
theorem iterate_divisors : shift^[4681] one ≠ one ∧ shift^[1057] one ≠ one ∧ shift^[217] one ≠ one := by
  obtain ⟨-, h7, h31, h151⟩ := powers
  rw [coordinates.power_eq add_self] at h7 h31 h151
  exact ⟨h7, h31, h151⟩

theorem iterate_ne_of_lt {d : ℕ} (hd : 0 < d) (hlt : d < 32767) : shift^[d] one ≠ one := by
  refine Register.iterate_ne_of_lt iterate_order (fun p hp hdvd => ?_) hd hlt
  rw [show 32767 = 7 * 31 * 151 by decide, hp.dvd_mul, hp.dvd_mul, Nat.prime_dvd_prime_iff_eq hp (by norm_num),
    Nat.prime_dvd_prime_iff_eq hp (by norm_num), Nat.prime_dvd_prime_iff_eq hp (by norm_num)] at hdvd
  obtain ⟨h7, h31, h151⟩ := iterate_divisors
  rcases hdvd with (rfl | rfl) | rfl
  · exact h7
  · exact h31
  · exact h151

theorem shift_injective : Function.Injective shift :=
  coordinates.injective_of_period add_self (n := 32766) iterate_order

theorem iterate_one_top : shift^[16 - 1] one = top := by decide +kernel

theorem iterate_top_ne {d : ℕ} (hd : 0 < d) (hlt : d < 32767) : shift^[d] top ≠ top := by
  rw [← iterate_one_top, ← Function.iterate_add_apply, Nat.add_comm, Function.iterate_add_apply]
  exact fun heq => iterate_ne_of_lt hd hlt (shift_injective.iterate 15 heq)

/-! ## Parity -/

/-- The value at x = 1. -/
def parity : Remainder →+ ZMod 2 := ∑ j ∈ Finset.range 16, coefficient j

theorem parity_shift (x : Remainder) : parity (shift x) = parity x :=
  coordinates.map_shift add_self (by decide) x

theorem parity_top : parity top = 1 := by decide

end Remainder

/-! ## Detection -/

open Remainder

theorem word_eq_iff (a b : List UInt8) : crc16Ccitt a = crc16Ccitt b ↔
    Register.run shift top ⟨0xFFFF⟩ (messageBits a) = Register.run shift top ⟨0xFFFF⟩ (messageBits b) := by
  rw [run_eq, run_eq, Remainder.mk.injEq]
  simp only [crc16Ccitt_bitwise, crc16Bitwise]

theorem messageBits_length_eq {a b : List UInt8} (hlen : a.length = b.length) :
    (messageBits a).length = (messageBits b).length := by
  rw [messageBits_length, messageBits_length, hlen]

theorem crc16Ccitt_ne_of_window (a b : List UInt8) (hlen : a.length = b.length) (hne : a ≠ b) (start : ℕ)
    (hwindow : ∀ i ∈ differingBits a b, start ≤ i ∧ i < start + 16) : crc16Ccitt a ≠ crc16Ccitt b := by
  rw [ne_eq, word_eq_iff]
  exact Register.run_ne_of_burst add_self shift_injective iterate_one_top coordinates _
    (messageBits_length_eq hlen) (mt (messageBits_injective hlen) hne) hwindow

theorem crc16Ccitt_ne_of_window_two_bytes : crc16Ccitt [7, 0x12, 0x34, 9] ≠ crc16Ccitt [7, 0xED, 0x35, 9] :=
  crc16Ccitt_ne_of_window [7, 0x12, 0x34, 9] [7, 0xED, 0x35, 9] rfl (by decide) 8 (by decide)

theorem crc16Ccitt_ne_of_odd_or_pair (a b : List UInt8) (hlen : a.length = b.length)
    (hdiffer : Odd (differingBits a b).card ∨
      ∃ i j, i < j ∧ j - i < 32767 ∧ differingBits a b = {i, j}) : crc16Ccitt a ≠ crc16Ccitt b := by
  rw [ne_eq, word_eq_iff]
  cases hdiffer with
  | inl hodd => exact Register.run_ne_of_odd add_self parity parity_shift parity_top _ (messageBits_length_eq hlen) hodd
  | inr hpair =>
    obtain ⟨i, j, hij, hnear, hd⟩ := hpair
    exact Register.run_ne_of_pair add_self shift_injective _ (messageBits_length_eq hlen) hij hd
      (iterate_top_ne (by omega) hnear)

theorem crc16Ccitt_ne_of_odd_or_pair_bytes :
    crc16Ccitt [1, 2, 3] ≠ crc16Ccitt [1, 2, 4] ∧ crc16Ccitt [1, 2, 3] ≠ crc16Ccitt [0x81, 2, 2] :=
  ⟨crc16Ccitt_ne_of_odd_or_pair [1, 2, 3] [1, 2, 4] rfl (.inl (by decide)),
    crc16Ccitt_ne_of_odd_or_pair [1, 2, 3] [0x81, 2, 2] rfl (.inr ⟨0, 23, by decide, by decide, by decide⟩)⟩

end Chats.P2p
