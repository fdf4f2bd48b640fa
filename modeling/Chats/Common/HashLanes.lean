import Chats.Common.HashFunctions
import Chats.Lib.Lossless

/-! # The bytes of a Pearson hash

What a changed byte does to the lanes, what `pearson_hash` leaves of the lanes in each of the eight
bytes of its result, and what `pearson_hash_update` does to the second of them. -/
namespace Chats.Hash
open Lib
set_option autoImplicit false

/-- Bits 8j to 8j+7 of a word. -/
def wordByte (w : UInt64) (j : ℕ) : UInt8 := (w >>> (8 * UInt64.ofNat j)).toUInt8

/-- Byte `j` of a `long long`. -/
def byteAt (hash : ℤ) (j : ℕ) : UInt8 := wordByte (Int64.ofInt hash).toUInt64 j

theorem wordByte_or (v w : UInt64) (j : ℕ) : wordByte (v ||| w) j = wordByte v j ||| wordByte w j := by
  simp [wordByte, UInt64.shiftRight_or]

theorem wordByte_and (v w : UInt64) (j : ℕ) : wordByte (v &&& w) j = wordByte v j &&& wordByte w j := by
  simp [wordByte, UInt64.shiftRight_and]

theorem byteAt_toInt (w : UInt64) (j : ℕ) : byteAt w.toInt64.toInt j = wordByte w j := by
  rw [byteAt, Int64.ofInt_toInt, UInt64.toUInt64_toInt64]

/-! ## The table is a permutation -/

def lookup (n : UInt8) : UInt8 := pearsonPermutationTable.getD n.toNat 0

/-- The set of the values of a list, as bits of a number. -/
def valueSet : List UInt8 → ℕ
  | [] => 0
  | byte :: bytes => 2 ^ byte.toNat ||| valueSet bytes

theorem mem_of_testBit {bytes : List UInt8} {b : UInt8} (h : (valueSet bytes).testBit b.toNat = true) : b ∈ bytes := by
  induction bytes with
  | nil => simp [valueSet] at h
  | cons byte bytes ih =>
    rw [valueSet, Nat.testBit_or, Nat.testBit_two_pow, Bool.or_eq_true, decide_eq_true_eq] at h
    cases h with
    | inl h => exact UInt8.toNat_inj.mp h ▸ List.mem_cons_self
    | inr h => exact List.mem_cons_of_mem _ (ih h)

theorem valueSet_table : valueSet pearsonPermutationTable = 2 ^ 256 - 1 := by decide +kernel

theorem lookup_surjective : Function.Surjective lookup := by
  intro b
  have hmem : b ∈ pearsonPermutationTable := by
    refine mem_of_testBit ?_
    rw [valueSet_table, Nat.testBit_two_pow_sub_one]
    exact decide_eq_true b.toNat_lt
  obtain ⟨n, hn, hb⟩ := List.getElem_of_mem hmem
  have hlen : pearsonPermutationTable.length = 256 := by decide +kernel
  have hlt : n < 256 := hlen ▸ hn
  refine ⟨UInt8.ofNat n, ?_⟩
  rw [lookup, UInt8.toNat_ofNat_of_lt' hlt, List.getD_eq_getElem?_getD, List.getElem?_eq_getElem hn,
    Option.getD_some, hb]

theorem lookup_injective : Function.Injective lookup := by
  have : Finite UInt8 := Finite.of_injective UInt8.toFin (fun _ _ h => UInt8.toFin_inj.mp h)
  exact Finite.injective_iff_surjective.mpr lookup_surjective

theorem pearsonStep_lossless : Lossless pearsonStep where
  state byte _ _ heq := UInt8.xor_left_inj byte |>.mp (lookup_injective heq)
  letter h _ _ heq := UInt8.xor_right_inj h |>.mp (lookup_injective heq)

/-! ## The lanes -/

theorem pearsonLane_eq (data : List UInt8) (j : ℕ) :
    pearsonLane data j = data.tail.foldl pearsonStep (lookup (data.headD 0 + UInt8.ofNat j)) := rfl

/-- The lanes of one string are all different. -/
theorem pearsonLane_inj (data : List UInt8) {i j : ℕ} (hi : i < 256) (hj : j < 256)
    (heq : pearsonLane data i = pearsonLane data j) : i = j := by
  rw [pearsonLane_eq, pearsonLane_eq] at heq
  have hsum := lookup_injective (pearsonStep_lossless.foldl_injective _ heq)
  have hij := UInt8.toNat_inj.mpr (UInt8.add_right_inj _ |>.mp hsum)
  rwa [UInt8.toNat_ofNat_of_lt' hi, UInt8.toNat_ofNat_of_lt' hj] at hij

/-- The first byte goes through an addition and the table, every other one through a turn of the loop. -/
theorem pearsonLane_ne {x y : List UInt8} (hxy : OneApart x y) (j : ℕ) : pearsonLane x j ≠ pearsonLane y j := by
  cases hxy with
  | here rest hne =>
    intro heq
    have hsum := lookup_injective (pearsonStep_lossless.foldl_injective rest heq)
    exact hne (UInt8.add_left_inj _ |>.mp hsum)
  | later c hrest => exact pearsonStep_lossless.foldl_ne hrest _

theorem one_byte_changes_lanes (x y : List UInt8) (hlen : x.length = y.length) (hone : ∃! i : ℕ, x[i]? ≠ y[i]?) :
    ∀ j < 8, pearsonLane x j ≠ pearsonLane y j := by
  intro j _
  exact pearsonLane_ne (oneApart_iff.mpr ⟨hlen, hone⟩) j

theorem one_byte_changes_lanes_of_text :
    pearsonLane [0x6d, 0x66, 0x6d, 0x79] 7 ≠ pearsonLane [0x71, 0x66, 0x6d, 0x79] 7 :=
  have happart : OneApart [(0x6d : UInt8), 0x66, 0x6d, 0x79] [0x71, 0x66, 0x6d, 0x79] := .here _ (by decide)
  one_byte_changes_lanes _ _ happart.length_eq happart.one_place 7 (by decide)

-- Lanes that all differ do not keep the hashes apart.
example : pearsonHash [0x6d, 0x66, 0x6d, 0x79] = pearsonHash [0x71, 0x66, 0x6d, 0x79] := by decide +kernel

/-! ## What the shifts leave in each byte -/

/-- A lane as the `int` it is shifted as: 24 bits up, the top bit of the lane is its sign. -/
theorem shiftedLane_toNat : ∀ j < 4, ∀ n < 256, (shiftedLane (UInt8.ofNat n) j).toNat =
    if j = 3 ∧ 128 ≤ n then 2 ^ 64 - 2 ^ 32 + n * 2 ^ 24 else n * 2 ^ (8 * j) := by
  decide +kernel

/-- Counts of 32 and more are taken modulo 32. -/
theorem shiftedLane_mod (h : UInt8) {j : ℕ} (hj : j < 8) : shiftedLane h j = shiftedLane h (j % 4) := by
  interval_cases j <;> rfl

theorem wordByte_toNat (w : UInt64) {i : ℕ} (hi : i < 8) : (wordByte w i).toNat = w.toNat / 2 ^ (8 * i) % 256 := by
  interval_cases i <;> simp [wordByte, Nat.shiftRight_eq_div_pow]

/-- What the sign of a lane leaves in each byte of the upper half. -/
def signByte (h : UInt8) : UInt8 := if 128 ≤ h then 0xff else 0

theorem wordByte_shiftedLane (h : UInt8) {i j : ℕ} (hi : i < 8) (hj : j < 8) : wordByte (shiftedLane h j) i =
    if i < 4 then (if i = j % 4 then h else 0) else if j % 4 = 3 then signByte h else 0 := by
  rw [shiftedLane_mod h hj]
  have hj4 : j % 4 < 4 := Nat.mod_lt j (by decide)
  generalize j % 4 = k at hj4 ⊢
  have hword := shiftedLane_toNat k hj4 h.toNat h.toNat_lt
  have hlt := h.toNat_lt
  have hsign : (signByte h).toNat = if 128 ≤ h.toNat then 255 else 0 := by
    have hle : (128 : UInt8) ≤ h ↔ 128 ≤ h.toNat := UInt8.le_iff_toNat_le
    simp only [signByte, hle]
    split <;> rfl
  rw [UInt8.ofNat_toNat] at hword
  refine UInt8.toNat_inj.mp ?_
  rw [wordByte_toNat _ hi, hword]
  by_cases h128 : 128 ≤ h.toNat <;> interval_cases k <;> interval_cases i <;> simp [hsign, h128] <;> omega

theorem byteAt_pearsonHash (data : List UInt8) (i : ℕ) : byteAt (pearsonHash data) i =
    (List.range 8).foldl (fun b j => b ||| wordByte (shiftedLane (pearsonLane data j) j) i) (wordByte 0 i) := by
  have hfold : ∀ (js : List ℕ) (hh : UInt64),
      wordByte (js.foldl (fun hh j => hh ||| shiftedLane (pearsonLane data j) j) hh) i =
        js.foldl (fun b j => b ||| wordByte (shiftedLane (pearsonLane data j) j) i) (wordByte hh i) := by
    intro js
    induction js with
    | nil => intro hh; rfl
    | cons j js ih => intro hh; rw [List.foldl_cons, ih, wordByte_or, List.foldl_cons]
  rw [pearsonHash, byteAt_toInt, hfold]

theorem byteAt_pearsonHash_lanes (data : List UInt8) {i : ℕ} (hi : i < 8) : byteAt (pearsonHash data) i =
    (List.range 8).foldl (fun b j => b ||| if i < 4 then (if i = j % 4 then pearsonLane data j else 0)
      else if j % 4 = 3 then signByte (pearsonLane data j) else 0) 0 := by
  rw [byteAt_pearsonHash]
  have hzero : wordByte 0 i = 0 := by interval_cases i <;> rfl
  rw [hzero]
  refine List.foldl_ext _ _ _ fun b j hj => ?_
  rw [wordByte_shiftedLane _ hi (List.mem_range.mp hj)]

/-- A byte of the lower half holds two lanes. -/
theorem byteAt_pearsonHash_low (data : List UInt8) {i : ℕ} (hi : i < 4) :
    byteAt (pearsonHash data) i = pearsonLane data i ||| pearsonLane data (i + 4) := by
  rw [byteAt_pearsonHash_lanes data (by omega)]
  interval_cases i <;> simp [List.range_succ]

/-- A byte of the upper half holds the signs of the lanes 3 and 7 only. -/
theorem byteAt_pearsonHash_high (data : List UInt8) {i : ℕ} (hi : i < 8) (h4 : 4 ≤ i) :
    byteAt (pearsonHash data) i = signByte (pearsonLane data 3) ||| signByte (pearsonLane data 7) := by
  rw [byteAt_pearsonHash_lanes data hi]
  simp [List.range_succ, Nat.not_lt.mpr h4]

theorem or_eq_left_iff (x y : UInt8) :
    x ||| y = x ↔ ∀ k, y.toNat.testBit k = true → x.toNat.testBit k = true := by
  rw [← UInt8.toNat_inj, UInt8.toNat_or]
  constructor
  · intro heq k hk
    rw [← heq, Nat.testBit_or, hk, Bool.or_true]
  · intro hsub
    refine Nat.eq_of_testBit_eq fun k => ?_
    rw [Nat.testBit_or]
    cases hy : y.toNat.testBit k with
    | false => exact Bool.or_false _
    | true => rw [hsub k hy, Bool.or_true]

theorem signByte_or (x y : UInt8) : signByte x ||| signByte y = if 128 ≤ x ∨ 128 ≤ y then 0xff else 0 := by
  by_cases hx : 128 ≤ x <;> by_cases hy : 128 ≤ y <;> simp [signByte, hx, hy]

/-- Bytes 4 to 7 are all the same, and the lanes 4 to 7 are not. -/
theorem not_all_lanes (data : List UInt8) : ¬ ∀ j < 8, byteAt (pearsonHash data) j = pearsonLane data j := by
  intro hall
  have h4 := hall 4 (by decide)
  have h5 := hall 5 (by decide)
  rw [byteAt_pearsonHash_high data (by decide) (by decide)] at h4 h5
  exact absurd (pearsonLane_inj data (by decide) (by decide) (h4.symm.trans h5)) (by decide)

theorem byteAt_eq_lane_iff (data : List UInt8) :
    (∀ j < 4, byteAt (pearsonHash data) j = pearsonLane data j ↔
      ∀ k, (pearsonLane data (j + 4)).toNat.testBit k = true → (pearsonLane data j).toNat.testBit k = true) ∧
    (∀ j < 8, 4 ≤ j → (byteAt (pearsonHash data) j = pearsonLane data j ↔
      pearsonLane data j = if 128 ≤ pearsonLane data 3 ∨ 128 ≤ pearsonLane data 7 then 0xff else 0)) ∧
    ¬ ∀ j < 8, byteAt (pearsonHash data) j = pearsonLane data j := by
  refine ⟨fun j hj => ?_, fun j hj h4 => ?_, not_all_lanes data⟩
  · rw [byteAt_pearsonHash_low data hj, or_eq_left_iff]
  · rw [byteAt_pearsonHash_high data hj h4, signByte_or, eq_comm]

theorem one_byte_lanes : byteAt (pearsonHash [0x61]) 0 ≠ pearsonLane [0x61] 0 ∧
    byteAt (pearsonHash [0x61]) 4 ≠ pearsonLane [0x61] 4 := by decide +kernel

/-! ## The update -/

/-- Byte 1 of a hash of text is never 0: two different lanes share it. -/
theorem byteAt_one_ne_zero (data : List UInt8) : byteAt (pearsonHash data) 1 ≠ 0 := by
  rw [byteAt_pearsonHash_low data (by decide), ne_eq, UInt8.or_eq_zero_iff]
  rintro ⟨h1, h5⟩
  exact absurd (pearsonLane_inj data (by decide) (by decide) (h1.trans h5.symm)) (by decide)

theorem wordByte_one_update (data : List UInt8) (u : Update) (j : ℕ) :
    wordByte (pearsonUpdateStep data u j).hh 1 = wordByte u.hh 1 &&& ~~~ wordByte u.mask 1 := by
  have hlow : ∀ h : UInt8, wordByte h.toUInt64 1 = 0 := by
    intro h
    have := h.toNat_lt
    refine UInt8.toNat_inj.mp ?_
    rw [wordByte_toNat _ (by decide), UInt8.toNat_toUInt64]
    exact Nat.mod_eq_of_lt (by omega) |>.trans (Nat.div_eq_of_lt (by omega))
  have hnot : wordByte (~~~ u.mask) 1 = ~~~ wordByte u.mask 1 := by
    refine UInt8.toBitVec_inj.mp (BitVec.eq_of_getLsbD_eq fun k hk => ?_)
    have hk64 : 8 + k < 64 := by omega
    simp [wordByte, hk, hk64]
  rw [pearsonUpdateStep, wordByte_or, wordByte_and, hlow, hnot, UInt8.or_zero]

/-- The update leaves 0 in byte 1: its mask is there in the second turn, and what is put back goes
to byte 0. -/
theorem byteAt_one_update (hash : ℤ) (data : List UInt8) : byteAt (pearsonHashUpdate hash data) 1 = 0 := by
  have hkeep : ∀ (js : List ℕ) (u : Update), wordByte u.hh 1 = 0 →
      wordByte (js.foldl (pearsonUpdateStep data) u).hh 1 = 0 := by
    intro js
    induction js with
    | nil => exact fun u hu => hu
    | cons j js ih =>
      intro u hu
      refine ih _ ?_
      rw [wordByte_one_update, hu, UInt8.zero_and]
  have hrange : List.range 8 = 0 :: 1 :: [2, 3, 4, 5, 6, 7] := rfl
  rw [pearsonHashUpdate, byteAt_toInt, hrange, List.foldl_cons, List.foldl_cons]
  refine hkeep _ _ ?_
  rw [wordByte_one_update]
  have hmask : ∀ u : Update, u.mask = 0xff → wordByte (pearsonUpdateStep data u 0).mask 1 = 0xff := by
    intro u hu
    rw [pearsonUpdateStep, hu]
    show wordByte (0xff <<< (8 * UInt64.ofNat 1)) 1 = 0xff
    decide +kernel
  rw [hmask _ rfl]
  exact UInt8.and_zero

theorem pearsonHashUpdate_ne (hash : ℤ) (data text : List UInt8) : pearsonHashUpdate hash data ≠ pearsonHash text := by
  intro heq
  exact byteAt_one_ne_zero text (heq ▸ byteAt_one_update hash data)

/-- The inner loop starts behind the first byte. -/
theorem pearsonHashUpdate_cons (hash : ℤ) (c c' : UInt8) (rest : List UInt8) :
    pearsonHashUpdate hash (c :: rest) = pearsonHashUpdate hash (c' :: rest) := rfl

end Chats.Hash
