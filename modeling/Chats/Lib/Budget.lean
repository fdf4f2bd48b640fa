import Mathlib.Tactic

/-! Recursions that a budget bounds, and what their results have to do with the budget: one that
comes within a budget comes, unchanged, within every larger one. -/
namespace Chats.Lib
set_option autoImplicit false

variable {α β : Type}

/-- Where `o` has a result `o'` has the same. -/
def Agrees (o o' : Option α) : Prop := ∀ a, o = some a → o' = some a

namespace Agrees

theorem refl (o : Option α) : Agrees o o := fun _ h => h

theorem none (o : Option α) : Agrees Option.none o := by
  intro a h
  cases h

theorem bind {o o' : Option α} {f f' : α → Option β} (h : Agrees o o') (hf : ∀ a, Agrees (f a) (f' a)) :
    Agrees (o.bind f) (o'.bind f') := by
  intro b hb
  obtain ⟨a, ha, hfa⟩ := Option.bind_eq_some_iff.mp hb
  exact Option.bind_eq_some_iff.mpr ⟨a, h a ha, hf a b hfa⟩

theorem ite {c : Prop} [Decidable c] {o o' p p' : Option α} (ht : c → Agrees o o') (he : ¬ c → Agrees p p') :
    Agrees (if c then o else p) (if c then o' else p') := by
  by_cases hc : c
  · rw [if_pos hc, if_pos hc]
    exact ht hc
  · rw [if_neg hc, if_neg hc]
    exact he hc

end Agrees

end Chats.Lib
