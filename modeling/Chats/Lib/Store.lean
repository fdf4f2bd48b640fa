import Mathlib

/-! Stores of cells behind addresses, as a C program sees the blocks it got from its
allocator: a partial map from addresses to cells, `0` being the null address. Nothing
here knows what a cell holds. -/
namespace Chats.Lib
set_option autoImplicit false

/-- The cells that are allocated, by address. -/
abbrev Store (α β : Type) := α → Option β

namespace Store
variable {α β : Type} [DecidableEq α]

/-- Assignment to a field of the cell at `a`; `none` when nothing is allocated there. -/
def modify (m : Store α β) (a : α) (f : β → β) : Option (Store α β) :=
  (m a).map fun cell => Function.update m a (some (f cell))

theorem modify_of_some {m : Store α β} {a : α} {cell : β} (f : β → β) (h : m a = some cell) :
    m.modify a f = some (Function.update m a (some (f cell))) := by
  simp [modify, h]

theorem update_some_iff {m : Store α β} {a x : α} {b y : β} :
    Function.update m a (some b) x = some y ↔ (x = a ∧ y = b) ∨ (x ≠ a ∧ m x = some y) := by
  by_cases hx : x = a
  · subst hx
    simp [eq_comm]
  · simp [hx]

theorem update_none_iff {m : Store α β} {a x : α} {y : β} :
    Function.update m a none x = some y ↔ x ≠ a ∧ m x = some y := by
  by_cases hx : x = a
  · subst hx
    simp
  · simp [hx]

theorem map_update {γ : Type} (f : β → γ) (m : Store α β) (a : α) (b : Option β) :
    (fun x => (Function.update m a b x).map f) = Function.update (fun x => (m x).map f) a (b.map f) := by
  funext x
  by_cases hx : x = a
  · rw [hx, Function.update_self, Function.update_self]
  · rw [Function.update_of_ne hx, Function.update_of_ne hx]

/-- Two stores with the same cells at every address outside `as`. -/
def SameOff (as : List α) (m m' : Store α β) : Prop := ∀ x, x ∉ as → m' x = m x

omit [DecidableEq α] in
theorem SameOff.refl (as : List α) (m : Store α β) : SameOff as m m := fun _ _ => rfl

omit [DecidableEq α] in
theorem SameOff.trans {as : List α} {m₁ m₂ m₃ : Store α β} (h₁ : SameOff as m₁ m₂)
    (h₂ : SameOff as m₂ m₃) : SameOff as m₁ m₃ := fun x hx => (h₂ x hx).trans (h₁ x hx)

omit [DecidableEq α] in
theorem SameOff.mono {as bs : List α} {m m' : Store α β} (h : SameOff as m m') (hs : as ⊆ bs) :
    SameOff bs m m' := fun x hx => h x fun hm => hx (hs hm)

theorem SameOff.update {as : List α} {m : Store α β} {a : α} (c : Option β) (ha : a ∈ as) :
    SameOff as m (Function.update m a c) := by
  intro x hx
  have hne : x ≠ a := by rintro rfl; exact hx ha
  exact Function.update_of_ne hne _ _

end Store

/-! ## The size of the address space -/

/-- Fewer blocks than addresses are live at once, since none of them is at the null address. -/
theorem length_lt_card {α : Type} [Fintype α] [Zero α] {as : List α} (hn : as.Nodup)
    (h0 : 0 ∉ as) : as.length < Fintype.card α := by
  have h : (0 :: as).Nodup := List.nodup_cons.mpr ⟨h0, hn⟩
  exact h.length_le_card

theorem card_word : Fintype.card UInt64 = 2 ^ 64 := by
  have e : UInt64 ≃ Fin (2 ^ 64) := ⟨UInt64.toFin, UInt64.ofFin, fun _ => rfl, fun _ => rfl⟩
  rw [Fintype.card_congr e, Fintype.card_fin]

theorem words_length_lt {as : List UInt64} (hn : as.Nodup) (h0 : 0 ∉ as) :
    as.length < 2 ^ 64 := by
  have h := length_lt_card hn h0
  rwa [card_word] at h

end Chats.Lib
