import Chats.P2p.CrcErrors
import Chats.P2p.PacketFormat

/-! # Damaged headers

A packet gets to a handler when both CRC fields of its header are the CRC of the eight bytes in front of
them. Damage of three bits is found by the first field alone, whatever the second one was. Damage within
sixteen bits in a row is found by the two together: with the bytes of a field swapped, one copy would not do. -/
namespace Chats.P2p
open Chats.Lib
set_option autoImplicit false

/-! ## The bytes of a header -/

/-- The bits of a word from which the bits of its two bytes come, one after the other. -/
def ByteOrder.places : ByteOrder → List ℕ
  | .littleEndian => [7, 6, 5, 4, 3, 2, 1, 0, 15, 14, 13, 12, 11, 10, 9, 8]
  | .bigEndian => [15, 14, 13, 12, 11, 10, 9, 8, 7, 6, 5, 4, 3, 2, 1, 0]

theorem byteBits_low (w : UInt16) : byteBits w.toUInt8 = [7, 6, 5, 4, 3, 2, 1, 0].map w.toNat.testBit := by
  simp [byteBits, UInt16.toNat_toUInt8, Nat.testBit_mod_two_pow (w.toNat) 8]

theorem byteBits_high (w : UInt16) :
    byteBits (w >>> 8).toUInt8 = [15, 14, 13, 12, 11, 10, 9, 8].map w.toNat.testBit := by
  simp [byteBits, UInt16.toNat_toUInt8, UInt16.toNat_shiftRight, Nat.testBit_mod_two_pow (w.toNat >>> 8) 8,
    Nat.testBit_shiftRight]

theorem messageBits_word (order : ByteOrder) (w : UInt16) :
    messageBits (order.bytes w) = order.places.map w.toNat.testBit := by
  cases order with
  | littleEndian =>
    show byteBits w.toUInt8 ++ (byteBits (w >>> 8).toUInt8 ++ []) = _
    rw [byteBits_low, byteBits_high]
    rfl
  | bigEndian =>
    show byteBits (w >>> 8).toUInt8 ++ (byteBits w.toUInt8 ++ []) = _
    rw [byteBits_high, byteBits_low]
    rfl

theorem places_spec (order : ByteOrder) : order.places.length = 16 ∧ (∀ i ∈ order.places, i < 16) ∧
    ∀ i < 16, ∃ k < 16, order.places[k]? = some i := by
  cases order <;> decide

theorem ByteOrder.bytes_length (order : ByteOrder) (w : UInt16) : (order.bytes w).length = 2 := by
  cases order <;> rfl

theorem mem_differing_word {order : ByteOrder} {w w' : UInt16} {k i : ℕ} (hk : order.places[k]? = some i) :
    k ∈ differingBits (order.bytes w) (order.bytes w') ↔ w.toNat.testBit i ≠ w'.toNat.testBit i := by
  have hlt : k < order.places.length := (List.getElem?_eq_some_iff.mp hk).1
  rw [differingBits, Register.mem_differing, messageBits_word, messageBits_word, List.length_map, List.getElem?_map,
    List.getElem?_map, hk, Option.map_some, Option.map_some, ne_eq, Option.some.injEq]
  exact and_iff_right hlt

theorem ByteOrder.bytes_injective (order : ByteOrder) : Function.Injective order.bytes := by
  intro w w' h
  have hempty : differingBits (order.bytes w) (order.bytes w') = ∅ := by
    rw [h]
    exact Finset.eq_empty_of_forall_notMem fun i hi => (Register.mem_differing.mp hi).2 rfl
  refine UInt16.toNat_inj.mp (Nat.eq_of_testBit_eq fun i => ?_)
  by_cases hi : i < 16
  · obtain ⟨k, -, hk⟩ := (places_spec order).2.2 i hi
    have hnot : k ∉ differingBits (order.bytes w) (order.bytes w') := hempty ▸ Finset.notMem_empty k
    exact not_not.mp (mt (mem_differing_word hk).mpr hnot)
  · have hpow : 2 ^ 16 ≤ 2 ^ i := Nat.pow_le_pow_right (by decide) (by omega)
    rw [Nat.testBit_lt_two_pow (w.toNat_lt.trans_le hpow), Nat.testBit_lt_two_pow (w'.toNat_lt.trans_le hpow)]

open Remainder in
/-- Words whose bytes differ in one bit differ by a power of x below 16. -/
theorem word_add_of_single {order : ByteOrder} {w w' : UInt16} {k : ℕ}
    (h : differingBits (order.bytes w) (order.bytes w') = {k}) :
    ∃ j < 16, (⟨w⟩ : Remainder) + ⟨w'⟩ = shift^[j] one := by
  obtain ⟨hlen, hbound, hall⟩ := places_spec order
  have hmem : k ∈ differingBits (order.bytes w) (order.bytes w') := h ▸ Finset.mem_singleton_self k
  have hlt : k < order.places.length := by
    have hlt := (Register.mem_differing.mp hmem).1
    rwa [messageBits_word, List.length_map] at hlt
  let j := order.places[k]
  have hj : order.places[k]? = some j := List.getElem?_eq_getElem hlt
  have hj16 : j < 16 := hbound j (List.getElem_mem hlt)
  refine ⟨j, hj16, (Register.eq_iff_add_eq_zero add_self _ _).mpr (eq_zero_of_coefficient _ fun i hi => ?_)⟩
  obtain ⟨k', -, hk'⟩ := hall i hi
  have hbit : (w.toNat.testBit i ≠ w'.toNat.testBit i) ↔ i = j := by
    rw [← mem_differing_word hk', h, Finset.mem_singleton]
    constructor
    · rintro rfl
      exact Option.some.inj (hk'.symm.trans hj)
    · rintro rfl
      have hdiff := (mem_differing_word hj).mp hmem
      rw [← mem_differing_word hk', h, Finset.mem_singleton] at hdiff
      exact hdiff
  have hw : ∀ v : UInt16, coefficient i ⟨v⟩ = bif v.toNat.testBit i then 1 else 0 := fun v => rfl
  rw [map_add, map_add, hw, hw, coefficient_iterate_shift i hi j hj16]
  by_cases hij : i = j
  · have hne := hbit.mpr hij
    rw [if_pos hij]
    cases hb : w.toNat.testBit i <;> cases hb' : w'.toNat.testBit i <;> simp_all
    all_goals decide
  · have heq := not_not.mp (mt hbit.mp hij)
    rw [if_neg hij, heq, add_zero]
    cases w'.toNat.testBit i <;> decide

open Remainder in
/-- The bytes of two words differ in an even number of bits if the parity of their sum is even. -/
theorem card_differing_word (order : ByteOrder) (w w' : UInt16) :
    ((differingBits (order.bytes w) (order.bytes w')).card : ZMod 2) = parity (⟨w⟩ + ⟨w'⟩) := by
  obtain ⟨hlen, hbound, -⟩ := places_spec order
  have hbit : ∀ i, coefficient i (⟨w⟩ + ⟨w'⟩) = if w.toNat.testBit i ≠ w'.toNat.testBit i then 1 else 0 := by
    intro i
    have hw : ∀ v : UInt16, coefficient i ⟨v⟩ = bif v.toNat.testBit i then 1 else 0 := fun v => rfl
    rw [map_add, hw, hw]
    cases w.toNat.testBit i <;> cases w'.toNat.testBit i <;> decide
  have hplace : ∀ k ∈ Finset.range 16,
      (if k ∈ differingBits (order.bytes w) (order.bytes w') then (1 : ZMod 2) else 0) =
      coefficient (order.places.getD k 0) (⟨w⟩ + ⟨w'⟩) := by
    intro k hk
    have hlt : k < order.places.length := hlen ▸ Finset.mem_range.mp hk
    have hget := List.getElem?_eq_getElem hlt
    rw [hbit, List.getD_eq_getElem?_getD, hget, Option.getD_some]
    exact if_congr (mem_differing_word hget) rfl rfl
  have hsub : differingBits (order.bytes w) (order.bytes w') ⊆ Finset.range 16 := by
    intro k hk
    have hlt := (Register.mem_differing.mp hk).1
    rwa [messageBits_word, List.length_map, hlen, ← Finset.mem_range] at hlt
  rw [← Finset.inter_eq_right.mpr hsub, ← Finset.filter_mem_eq_inter, Finset.natCast_card_filter,
    Finset.sum_congr rfl hplace, parity, AddMonoidHom.finsetSum_apply]
  cases order with
  | littleEndian =>
    simp only [Finset.sum_range_succ, Finset.sum_range_zero, ByteOrder.places, List.getD_cons_zero, List.getD_cons_succ]
    abel
  | bigEndian =>
    simp only [Finset.sum_range_succ, Finset.sum_range_zero, ByteOrder.places, List.getD_cons_zero, List.getD_cons_succ]
    abel

/-! ## Headers in parts -/

theorem checked_eq (order : ByteOrder) (h : Header) :
    h.checked order = h.signature.toList ++ [h.cmd] ++ order.bytes h.length := by
  cases order <;> simp [Header.checked, Header.bytes, ByteOrder.bytes, List.take_append]

theorem checked_length (order : ByteOrder) (h : Header) : (h.checked order).length = 8 := by
  simp [checked_eq, ByteOrder.bytes_length]

theorem bytes_eq (order : ByteOrder) (h : Header) :
    h.bytes order = h.checked order ++ (order.bytes h.crcHeader ++ order.bytes h.crcData) := by
  rw [checked_eq, Header.bytes, List.append_assoc]

theorem Header.eq_of_parts {order : ByteOrder} {h h' : Header} (hchecked : h.checked order = h'.checked order)
    (hheader : h.crcHeader = h'.crcHeader) (hdata : h.crcData = h'.crcData) : h = h' := by
  rw [checked_eq, checked_eq] at hchecked
  obtain ⟨hfront, hlength⟩ := List.append_inj' hchecked (by rw [ByteOrder.bytes_length, ByteOrder.bytes_length])
  obtain ⟨hsig, hcmd⟩ := List.append_inj' hfront rfl
  have hlength := order.bytes_injective hlength
  have hsig : h.signature = h'.signature := Vector.toList_inj.mp hsig
  cases h
  cases h'
  simp_all

/-- A damaged bit is in front of the CRC fields, in the first or in the second. -/
theorem mem_differing_header {order : ByteOrder} {h h' : Header} {i : ℕ} :
    i ∈ differingBits (h.bytes order) (h'.bytes order) ↔ i ∈ differingBits (h.checked order) (h'.checked order) ∨
      (∃ j ∈ differingBits (order.bytes h.crcHeader) (order.bytes h'.crcHeader), i = 64 + j) ∨
      ∃ j ∈ differingBits (order.bytes h.crcData) (order.bytes h'.crcData), i = 80 + j := by
  have happ : ∀ a b : List UInt8, messageBits (a ++ b) = messageBits a ++ messageBits b :=
    fun a b => List.flatMap_append
  have hword : ∀ w w' : UInt16, (messageBits (order.bytes w)).length = (messageBits (order.bytes w')).length :=
    fun w w' => messageBits_length_eq (by rw [ByteOrder.bytes_length, ByteOrder.bytes_length])
  rw [differingBits, bytes_eq, bytes_eq, happ, happ, happ, happ,
    Register.mem_differing_append (messageBits_length_eq (by rw [checked_length, checked_length])), messageBits_length,
    checked_length]
  simp only [Register.mem_differing_append (hword _ _), messageBits_length, ByteOrder.bytes_length]
  constructor
  · rintro (h | ⟨j, (hj | ⟨k, hk, rfl⟩), rfl⟩)
    · exact .inl h
    · exact .inr (.inl ⟨j, hj, rfl⟩)
    · exact .inr (.inr ⟨k, hk, by omega⟩)
  · rintro (h | ⟨j, hj, rfl⟩ | ⟨k, hk, rfl⟩)
    · exact .inl h
    · exact .inr ⟨j, .inl hj, rfl⟩
    · exact .inr ⟨16 + k, .inr ⟨k, hk, rfl⟩, by omega⟩

theorem differing_checked_lt {order : ByteOrder} {h h' : Header} :
    ∀ i ∈ differingBits (h.checked order) (h'.checked order), i < 64 := by
  intro i hi
  have hlt := (Register.mem_differing.mp hi).1
  rwa [messageBits_length, checked_length] at hlt

theorem differing_word_lt {order : ByteOrder} {w w' : UInt16} :
    ∀ j ∈ differingBits (order.bytes w) (order.bytes w'), j < 16 := by
  intro j hj
  have hlt := (Register.mem_differing.mp hj).1
  rwa [messageBits_length, ByteOrder.bytes_length] at hlt

theorem card_differing_header (order : ByteOrder) (h h' : Header) :
    (differingBits (h.bytes order) (h'.bytes order)).card =
      (differingBits (h.checked order) (h'.checked order)).card +
        ((differingBits (order.bytes h.crcHeader) (order.bytes h'.crcHeader)).card +
          (differingBits (order.bytes h.crcData) (order.bytes h'.crcData)).card) := by
  have hparts : differingBits (h.bytes order) (h'.bytes order) = differingBits (h.checked order) (h'.checked order) ∪
      ((differingBits (order.bytes h.crcHeader) (order.bytes h'.crcHeader)).map (addLeftEmbedding 64) ∪
        (differingBits (order.bytes h.crcData) (order.bytes h'.crcData)).map (addLeftEmbedding 80)) := by
    ext i
    rw [mem_differing_header]
    simp only [Finset.mem_union, Finset.mem_map, addLeftEmbedding_apply, eq_comm]
  rw [hparts, Finset.card_union_of_disjoint, Finset.card_union_of_disjoint, Finset.card_map, Finset.card_map]
  · rw [Finset.disjoint_left]
    simp only [Finset.mem_map, addLeftEmbedding_apply]
    rintro _ ⟨j, hj, rfl⟩ ⟨k, -, hk⟩
    have := differing_word_lt j hj
    omega
  · rw [Finset.disjoint_left]
    simp only [Finset.mem_union, Finset.mem_map, addLeftEmbedding_apply]
    rintro i hi (⟨j, -, rfl⟩ | ⟨j, -, rfl⟩)
    · have := differing_checked_lt _ hi
      omega
    · have := differing_checked_lt _ hi
      omega

/-! ## What stops a damaged header -/

section damage
variable {order : ByteOrder} {h h' : Header}

theorem differing_nonempty {a b : List UInt8} (hlen : a.length = b.length) (hne : a ≠ b) :
    (differingBits a b).Nonempty :=
  Register.differing_nonempty (messageBits_length_eq hlen) (mt (messageBits_injective hlen) hne)

/-- The damage is within two bytes' length, or in three bits at most. -/
def Slight (damage : Finset ℕ) : Prop := (∃ start, ∀ i ∈ damage, start ≤ i ∧ i < start + 16) ∨ damage.card ≤ 3

theorem Slight.mono {d d' : Finset ℕ} (hd : Slight d') (hsub : d ⊆ d') : Slight d := by
  rcases hd with ⟨start, hwindow⟩ | hcard
  · exact .inl ⟨start, fun i hi => hwindow i (hsub hi)⟩
  · exact .inr ((Finset.card_le_card hsub).trans hcard)

/-- Slight damage to eight bytes changes their CRC. -/
theorem crc_ne_of_slight (hne : h.checked order ≠ h'.checked order)
    (hslight : Slight (differingBits (h.checked order) (h'.checked order))) :
    crc16Ccitt (h.checked order) ≠ crc16Ccitt (h'.checked order) := by
  have hlen : (h.checked order).length = (h'.checked order).length := by rw [checked_length, checked_length]
  rcases hslight with ⟨start, hwindow⟩ | hcard
  · exact crc16Ccitt_ne_of_window _ _ hlen hne start hwindow
  · have hpos := (differing_nonempty hlen hne).card_pos
    obtain hodd | htwo : Odd (differingBits (h.checked order) (h'.checked order)).card ∨
        (differingBits (h.checked order) (h'.checked order)).card = 2 := by
      interval_cases (differingBits (h.checked order) (h'.checked order)).card
      · exact .inl (by decide)
      · exact .inr rfl
      · exact .inl (by decide)
    · exact crc16Ccitt_ne_of_odd_or_pair _ _ hlen (.inl hodd)
    · obtain ⟨i, j, hij, hd⟩ := Finset.card_eq_two.mp htwo
      have hi := differing_checked_lt i (by rw [hd]; simp)
      have hj := differing_checked_lt j (by rw [hd]; simp)
      refine crc16Ccitt_ne_of_odd_or_pair _ _ hlen (.inr ?_)
      rcases Nat.lt_or_gt_of_ne hij with hlt | hlt
      · exact ⟨i, j, hlt, by omega, hd⟩
      · exact ⟨j, i, hlt, by omega, by rw [hd, Finset.pair_comm]⟩

open Remainder in
/-- One bit of the eight bytes changes more than one bit of their CRC. -/
theorem crc_changes_much {i k : ℕ} (hi : differingBits (h.checked order) (h'.checked order) = {i})
    (hk : differingBits (order.bytes (crc16Ccitt (h.checked order))) (order.bytes (crc16Ccitt (h'.checked order))) =
      {k}) :
    False := by
  obtain ⟨j, hj, hword⟩ := word_add_of_single hk
  have hi64 := differing_checked_lt i (by rw [hi]; simp)
  have hlen :=
    messageBits_length_eq (a := h.checked order) (b := h'.checked order) (by rw [checked_length, checked_length])
  have hrun := Register.run_add_run (s := shift) (u := top) add_self ⟨0xFFFF⟩ hlen
  have hcrc : ∀ bytes, Register.run shift top ⟨0xFFFF⟩ (messageBits bytes) = ⟨crc16Ccitt bytes⟩ := by
    intro bytes
    rw [run_eq, crc16Ccitt_bitwise, crc16Bitwise]
  have hd : Register.differing (messageBits (h.checked order)) (messageBits (h'.checked order)) = {i} := hi
  rw [hcrc, hcrc, hword, hd, Finset.sum_singleton, messageBits_length, checked_length, ← iterate_one_top,
    ← Function.iterate_add_apply] at hrun
  -- x^j would be x^(79-i), and x comes back to itself only after 32767 steps
  have hexp : 8 * 8 - i + (16 - 1) = j + (79 - i - j) := by omega
  rw [hexp, Function.iterate_add_apply] at hrun
  exact iterate_ne_of_lt (d := 79 - i - j) (by omega) (by omega) ((shift_injective.iterate j hrun).symm)

open Remainder in
/-- The eight bytes and their CRC change in numbers of bits that are both odd or both even. -/
theorem card_parity : ((differingBits (h.checked order) (h'.checked order)).card : ZMod 2) =
    (differingBits (order.bytes (crc16Ccitt (h.checked order)))
      (order.bytes (crc16Ccitt (h'.checked order)))).card := by
  have hlen :=
    messageBits_length_eq (a := h.checked order) (b := h'.checked order) (by rw [checked_length, checked_length])
  have hcrc : ∀ bytes, Register.run shift top ⟨0xFFFF⟩ (messageBits bytes) = ⟨crc16Ccitt bytes⟩ := by
    intro bytes
    rw [run_eq, crc16Ccitt_bitwise, crc16Bitwise]
  have hparity := Register.parity_run_add_run add_self parity parity_shift parity_top ⟨0xFFFF⟩ hlen
  rw [hcrc, hcrc] at hparity
  rw [card_differing_word, hparity, differingBits]

/-- Where three bits at most are damaged the first CRC field by itself tells, whatever the second one is. -/
theorem checked_of_few (hv : p2pValidateHeader order (some h) = 0) (hv' : p2pValidateHeader order (some h') = 0)
    (hcard : (differingBits (h.bytes order) (h'.bytes order)).card ≤ 3) : h.checked order = h'.checked order := by
  by_contra hne
  have hcrc := validate_crc order hv
  have hcrc' := validate_crc order hv'
  have hparts := card_differing_header order h h'
  have hparity : ((differingBits (h.checked order) (h'.checked order)).card : ZMod 2) = _ := card_parity
  have hone := (differing_nonempty (by rw [checked_length, checked_length]) hne).card_pos
  have hslight : Slight (differingBits (h.checked order) (h'.checked order)) := .inr (by omega)
  have hfield : order.bytes (crc16Ccitt (h.checked order)) ≠ order.bytes (crc16Ccitt (h'.checked order)) :=
    mt (order.bytes_injective ·) (crc_ne_of_slight hne hslight)
  have htwo := (differing_nonempty (by rw [ByteOrder.bytes_length, ByteOrder.bytes_length]) hfield).card_pos
  rw [← hcrc, ← hcrc'] at hparts
  obtain hmin | hmixed : ((differingBits (h.checked order) (h'.checked order)).card = 1 ∧
        (differingBits (order.bytes (crc16Ccitt (h.checked order)))
          (order.bytes (crc16Ccitt (h'.checked order)))).card = 1) ∨
      (differingBits (h.checked order) (h'.checked order)).card +
        (differingBits (order.bytes (crc16Ccitt (h.checked order)))
          (order.bytes (crc16Ccitt (h'.checked order)))).card = 3 := by
    omega
  · obtain ⟨i, hi⟩ := Finset.card_eq_one.mp hmin.1
    obtain ⟨k, hk⟩ := Finset.card_eq_one.mp hmin.2
    exact crc_changes_much hi hk
  · -- one is odd and the other even
    have hsum := congrArg (fun n : ℕ => (n : ZMod 2)) hmixed
    rw [Nat.cast_add, hparity, ← Nat.cast_add, ← two_mul] at hsum
    have hodd := (ZMod.natCast_eq_natCast_iff' _ _ 2).mp hsum
    omega

/-- A header in which both CRC fields are right does not become another one by slight damage. -/
theorem accepted_apart (hv : p2pValidateHeader order (some h) = 0) (hc : h.crcHeader = h.crcData)
    (hv' : p2pValidateHeader order (some h') = 0) (hc' : h'.crcHeader = h'.crcData)
    (hslight : Slight (differingBits (h.bytes order) (h'.bytes order))) : h' = h := by
  have hcrc := validate_crc order hv
  have hcrc' := validate_crc order hv'
  by_cases hsame : h.checked order = h'.checked order
  · have hheader : h.crcHeader = h'.crcHeader := by rw [← hcrc, ← hcrc', hsame]
    exact (Header.eq_of_parts hsame hheader (by rw [← hc, ← hc', hheader])).symm
  · exfalso
    have hsub : differingBits (h.checked order) (h'.checked order) ⊆ differingBits (h.bytes order) (h'.bytes order) :=
      fun i hi => mem_differing_header.mpr (.inl hi)
    have hne : h.crcHeader ≠ h'.crcHeader := by
      rw [← hcrc, ← hcrc']
      exact crc_ne_of_slight hsame (hslight.mono hsub)
    have hbytes : ∀ {w w' : UInt16}, w ≠ w' → (differingBits (order.bytes w) (order.bytes w')).Nonempty :=
      fun hw => differing_nonempty (by rw [ByteOrder.bytes_length, ByteOrder.bytes_length])
        (mt (order.bytes_injective ·) hw)
    obtain ⟨i, hi⟩ := differing_nonempty (by rw [checked_length, checked_length]) hsame
    have hheader := hbytes hne
    have hdata := hbytes (hc ▸ hc' ▸ hne)
    rcases hslight with ⟨start, hwindow⟩ | hcard
    · -- a part in front of the fields and one in the second field are too far apart
      obtain ⟨k, hk⟩ := hdata
      have hi64 := differing_checked_lt i hi
      have hfirst := hwindow i (hsub hi)
      have hlast := hwindow (80 + k) (mem_differing_header.mpr (.inr (.inr ⟨k, hk, rfl⟩)))
      omega
    · have hparts := card_differing_header order h h'
      have hone := Finset.card_pos.mpr ⟨i, hi⟩
      have htwo := hheader.card_pos
      have hthree := hdata.card_pos
      obtain ⟨i, hi⟩ :=
        Finset.card_eq_one.mp (show (differingBits (h.checked order) (h'.checked order)).card = 1 by omega)
      obtain ⟨k, hk⟩ := Finset.card_eq_one.mp
        (show (differingBits (order.bytes h.crcHeader) (order.bytes h'.crcHeader)).card = 1 by omega)
      rw [← hcrc, ← hcrc'] at hk
      exact crc_changes_much hi hk

end damage

theorem ret_ne_zero (v : UInt16) : v ||| PacketValidation.headerInvalid.code ≠ 0 := by
  intro h
  have hbit := congrArg (fun w : UInt16 => w.toNat.testBit 8) h
  have hset : PacketValidation.headerInvalid.code.toNat.testBit 8 = true := by decide
  simp only [UInt16.toNat_or, Nat.testBit_or, hset, Bool.or_true, UInt16.toNat_zero, Nat.zero_testBit] at hbit
  cases hbit

/-- A packet with a header that was accepted, damaged in at most three bits anywhere, or within sixteen bits in a row
if its second CRC field was as right as the first, is refused whatever its body: no handler is called and the context
stays as it was. The one exception is damage that has only made the second field right. -/
theorem damaged_header_refused {σ : Type} (order : ByteOrder) (handlers : UInt8 → UInt64)
    (invoke : UInt64 → List UInt8 → σ → UInt16 × σ) (h : Header) (p : Packet) (ctx : σ)
    (hv : p2pValidateHeader order (some h) = 0) (hne : p.header ≠ h)
    (hdamage : (differingBits (h.bytes order) (p.header.bytes order)).card ≤ 3 ∨
      h.crcData = h.crcHeader ∧ Slight (differingBits (h.bytes order) (p.header.bytes order))) :
    (∃ out, p2pUtilizePacket order handlers invoke (some p) ctx = some out ∧ out.ret ≠ 0 ∧ out.ctx = ctx ∧
      out.calls = []) ∨ p.header = { h with crcData := h.crcHeader } := by
  by_cases hv' : p2pValidateHeader order (some p.header) = 0
  · by_cases hc' : p.header.crcHeader = p.header.crcData
    · right
      rcases hdamage with hcard | ⟨hc, hslight⟩
      · have hchecked := checked_of_few hv hv' hcard
        have hheader : h.crcHeader = p.header.crcHeader := by
          rw [← validate_crc order hv, ← validate_crc order hv', hchecked]
        have hsame : h.checked order = ({ h with crcData := h.crcHeader } : Header).checked order := by
          rw [checked_eq, checked_eq]
        exact (Header.eq_of_parts (hsame.symm.trans hchecked) hheader (hheader.trans hc')).symm
      · exact absurd (accepted_apart hv hc.symm hv' hc' hslight) hne
    · exact .inl ⟨_, utilize_other_crc order handlers invoke ctx hv' hc', by simp [PacketValidation.code], rfl, rfl⟩
  · exact .inl ⟨_, utilize_rejected order handlers invoke ctx hv', ret_ne_zero _, rfl, rfl⟩

/-- The header of a CONNECT packet, with both CRC fields right. -/
def connectHeader : Header := { signature, cmd := 0, length := 16, crcHeader := 0x3825, crcData := 0x3825 }

/-- The same after the loss of the one bit that is set in its length. -/
def shortened : Packet where
  header := { connectHeader with length := 0 }
  body := []
  length_eq := rfl

theorem damaged_header_refused_one : ∃ out, p2pUtilizePacket .littleEndian (fun _ => 1) (fun _ _ ctx => (0, ctx))
    (some shortened) () = some out ∧ out.calls = [] := by
  rcases damaged_header_refused .littleEndian (fun _ => 1) (fun _ _ ctx => (0, ctx)) connectHeader shortened ()
    (by decide) (by decide) (.inl (by decide)) with ⟨out, e, -, -, hcalls⟩ | hsame
  · exact ⟨out, e, hcalls⟩
  · exact absurd hsame (by decide)

/-- Four bits are too many: a CONNECT header has become one of a REFERENCE that is accepted. -/
example : let h : Header := { connectHeader with cmd := 1, length := 0x2100 }
    (differingBits (connectHeader.bytes .littleEndian) (h.bytes .littleEndian)).card = 4 ∧
    p2pValidateHeader .littleEndian (some connectHeader) = 0 ∧ p2pValidateHeader .littleEndian (some h) = 0 ∧
    h.crcHeader = h.crcData := by
  decide

/-- Within sixteen bits in a row the second field counts: a MESSAGE whose own is not right gets another length. -/
example : let h : Header := { signature, cmd := 8, length := 16, crcHeader := 0x9184, crcData := 0x81A5 }
    let h' : Header := { h with length := 272, crcHeader := 0x81A5 }
    differingBits (h.bytes .littleEndian) (h'.bytes .littleEndian) = {63, 66, 71, 75} ∧
    p2pValidateHeader .littleEndian (some h) = 0 ∧ p2pValidateHeader .littleEndian (some h') = 0 ∧
    h'.crcHeader = h'.crcData := by
  decide

end Chats.P2p
