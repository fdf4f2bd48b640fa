import Chats.P2p.CrcErrors

/-! # Two bytes behind a message

Two bytes are as long as the register, so they can bring it from any word to any other, and in one
way only. Every CRC is therefore that of equally many messages of a length. -/
namespace Chats.P2p
open Chats.Lib
set_option autoImplicit false

theorem crc16Ccitt_append (a b : List UInt8) : crc16Ccitt (a ++ b) = b.foldl crc16CcittStep (crc16Ccitt a) :=
  List.foldl_append

/-- The byte that the register has in its upper half takes that half away. -/
theorem step_own_high (crc : UInt16) : crc16CcittStep crc (crc >>> 8).toUInt8 = crc <<< 8 := by
  have hlt : crc.toNat / 256 < 256 := Nat.div_lt_of_lt_mul crc.toNat_lt
  have hhigh : (crc >>> 8).toUInt8.toUInt16 = crc >>> 8 := by
    refine UInt16.toNat_inj.mp ?_
    simp only [UInt8.toNat_toUInt16, UInt16.toNat_toUInt8, UInt16.toNat_shiftRight]
    simp [Nat.shiftRight_eq_div_pow]
    omega
  rw [crc16CcittStep, hhigh, UInt16.xor_self]
  exact UInt16.xor_zero

/-- Behind its own CRC, the upper byte first, a message has the CRC zero. -/
theorem crc_own (a : List UInt8) : crc16Ccitt (a ++ [(crc16Ccitt a >>> 8).toUInt8, (crc16Ccitt a).toUInt8]) = 0 := by
  have hlow : (crc16Ccitt a <<< 8 >>> 8).toUInt8 = (crc16Ccitt a).toUInt8 := by
    refine UInt8.toNat_inj.mp ?_
    simp only [UInt16.toNat_toUInt8, UInt16.toNat_shiftRight, UInt16.toNat_shiftLeft]
    simp [Nat.shiftRight_eq_div_pow, Nat.shiftLeft_eq]
    omega
  have hgone : crc16Ccitt a <<< 8 <<< 8 = 0 := by
    refine UInt16.toNat_inj.mp ?_
    simp only [UInt16.toNat_shiftLeft, UInt16.toNat_zero]
    simp [Nat.shiftLeft_eq]
    omega
  calc crc16Ccitt (a ++ [(crc16Ccitt a >>> 8).toUInt8, (crc16Ccitt a).toUInt8])
      = crc16CcittStep (crc16CcittStep (crc16Ccitt a) (crc16Ccitt a >>> 8).toUInt8) (crc16Ccitt a).toUInt8 :=
        crc16Ccitt_append a _
    _ = crc16CcittStep (crc16Ccitt a <<< 8) (crc16Ccitt a <<< 8 >>> 8).toUInt8 := by rw [step_own_high, hlow]
    _ = 0 := by rw [step_own_high, hgone]

theorem suffix_injective (a : List UInt8) :
    Function.Injective fun s : UInt8 × UInt8 => crc16Ccitt (a ++ [s.1, s.2]) := by
  intro s t heq
  by_contra hne
  have hlists : a ++ [s.1, s.2] ≠ a ++ [t.1, t.2] := by
    intro h
    rw [List.append_cancel_left_eq, List.cons.injEq, List.cons.injEq] at h
    exact hne (Prod.ext h.1 h.2.1)
  refine crc16Ccitt_ne_of_window _ _ (by simp) hlists (8 * a.length) (fun i hi => ?_) heq
  obtain ⟨hlt, hdiff⟩ := Register.mem_differing.mp hi
  rw [messageBits_length, List.length_append, List.length_cons, List.length_cons, List.length_nil] at hlt
  refine ⟨?_, by omega⟩
  by_contra hbefore
  refine hdiff ?_
  have happ : ∀ b : List UInt8, messageBits (a ++ b) = messageBits a ++ messageBits b := fun b => List.flatMap_append
  have hin : i < (messageBits a).length := by
    rw [messageBits_length]
    omega
  rw [happ, happ, List.getElem?_append_left hin, List.getElem?_append_left hin]

theorem card_byte : Nat.card UInt8 = 256 := by
  have e : UInt8 ≃ Fin 256 := ⟨UInt8.toFin, UInt8.ofFin, fun _ => rfl, fun _ => rfl⟩
  rw [Nat.card_congr e, Nat.card_fin]

theorem card_crc : Nat.card UInt16 = 256 * 256 := by
  have e : UInt16 ≃ Fin (256 * 256) := ⟨UInt16.toFin, UInt16.ofFin, fun _ => rfl, fun _ => rfl⟩
  rw [Nat.card_congr e, Nat.card_fin]

theorem suffix_bijective (a : List UInt8) :
    Function.Bijective fun s : UInt8 × UInt8 => crc16Ccitt (a ++ [s.1, s.2]) := by
  have hfinite : Finite UInt16 := Nat.finite_of_card_ne_zero (by rw [card_crc]; decide)
  refine (suffix_injective a).bijective_of_nat_card_le ?_
  rw [Nat.card_prod, card_byte, card_crc]

/-- The messages of a length are those of a length two less, each behind it the one suffix. -/
theorem count_of_crc (n : ℕ) (w : UInt16) : {a : List UInt8 | a.length = n + 2 ∧ crc16Ccitt a = w}.ncard = 256 ^ n := by
  choose suffix hsuffix using fun a : List UInt8 => (suffix_bijective a).2 w
  let f : (Fin n → UInt8) → List UInt8 := fun p => List.ofFn p ++ [(suffix (List.ofFn p)).1, (suffix (List.ofFn p)).2]
  have hinj : Function.Injective f := by
    intro p q hpq
    exact List.ofFn_injective (List.append_inj_left' hpq rfl)
  have hrange : {a : List UInt8 | a.length = n + 2 ∧ crc16Ccitt a = w} = Set.range f := by
    ext a
    constructor
    · rintro ⟨hlen, hcrc⟩
      obtain ⟨x, y, hxy⟩ := List.length_eq_two.mp (show (a.drop n).length = 2 by rw [List.length_drop]; omega)
      have hfront : (a.take n).length = n := by rw [List.length_take]; omega
      have ha : a = a.take n ++ [x, y] := by rw [← hxy, List.take_append_drop]
      have hsame : suffix (a.take n) = (x, y) := by
        refine suffix_injective (a.take n) ((hsuffix _).trans ?_)
        rw [← hcrc]
        exact congrArg crc16Ccitt ha
      refine ⟨fun i => (a.take n).get ⟨i, by omega⟩, ?_⟩
      have hofFn : List.ofFn (fun i : Fin n => (a.take n).get ⟨i, by omega⟩) = a.take n := by
        refine List.ext_getElem (by simp [hfront]) fun i h₁ h₂ => ?_
        simp
      simp only [f, hofFn, hsame]
      exact ha.symm
    · rintro ⟨p, rfl⟩
      exact ⟨by simp [f], hsuffix _⟩
  rw [hrange, ← Nat.card_coe_set_eq, Nat.card_range_of_injective hinj, Nat.card_fun, card_byte, Nat.card_fin]

/-- Any message is brought to any CRC by exactly one pair of bytes behind it, and to the CRC zero by its
own. Each CRC is that of exactly `256 ^ n` of the messages of `n + 2` bytes. -/
theorem crc_suffix (a : List UInt8) (w : UInt16) (n : ℕ) :
    (∃! s : UInt8 × UInt8, crc16Ccitt (a ++ [s.1, s.2]) = w) ∧
    crc16Ccitt (a ++ [(crc16Ccitt a >>> 8).toUInt8, (crc16Ccitt a).toUInt8]) = 0 ∧
    {a : List UInt8 | a.length = n + 2 ∧ crc16Ccitt a = w}.ncard = 256 ^ n :=
  ⟨(suffix_bijective a).existsUnique w, crc_own a, count_of_crc n w⟩

end Chats.P2p
