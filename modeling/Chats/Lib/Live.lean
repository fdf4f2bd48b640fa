import Chats.Lib.Store

/-! The addresses behind which a store has something allocated. Assignments to fields keep them, an
allocation adds one and a release takes one away, so a program leaks nothing when at every moment
they are the addresses that it can still reach. -/
namespace Chats.Lib.Store
set_option autoImplicit false

variable {α β : Type}

def live (m : Store α β) : Set α := {a | (m a).isSome}

theorem mem_live {m : Store α β} {a : α} : a ∈ live m ↔ (m a).isSome := Iff.rfl

theorem notMem_live {m : Store α β} {a : α} : a ∉ live m ↔ m a = none := by
  rw [mem_live, Bool.not_eq_true, Option.isSome_eq_false_iff, Option.isNone_iff_eq_none]

theorem live_eq_empty {m : Store α β} : live m = ∅ ↔ m = fun _ => none := by
  constructor
  · intro h
    funext a
    exact notMem_live.mp (h ▸ Set.notMem_empty a)
  · intro h
    rw [h]
    exact Set.eq_empty_of_forall_notMem fun a => notMem_live.mpr rfl

section
variable [DecidableEq α] (m : Store α β) (a : α)

theorem live_update_some (b : β) : live (Function.update m a (some b)) = insert a (live m) := by
  ext x
  by_cases hx : x = a
  · simp [mem_live, hx]
  · simp [mem_live, hx]

theorem live_update_none : live (Function.update m a none) = live m \ {a} := by
  ext x
  by_cases hx : x = a
  · simp [mem_live, hx]
  · simp [mem_live, hx]

variable {m a} in
theorem update_none_eq_none {x : α} (h : x = a ∨ m x = none) : Function.update m a none x = none := by
  by_cases hx : x = a
  · rw [hx, Function.update_self]
  · rw [Function.update_of_ne hx, h.resolve_left hx]

end

theorem live_modify [DecidableEq α] {m m' : Store α β} {a : α} {f : β → β} (h : m.modify a f = some m') :
    live m' = live m := by
  rw [modify, Option.map_eq_some_iff] at h
  obtain ⟨cell, hc, rfl⟩ := h
  rw [live_update_some]
  exact Set.insert_eq_of_mem (by rw [mem_live, hc]; rfl)

/-- Outside `as` a store that agrees off `as` has the same live addresses. -/
theorem SameOff.mem_live_iff {as : List α} {m m' : Store α β} (h : SameOff as m m') {x : α} (hx : x ∉ as) :
    x ∈ live m' ↔ x ∈ live m := by
  rw [mem_live, mem_live, h x hx]

/-- A store that agrees off `as` and has nothing left there. -/
theorem SameOff.live_diff {as : List α} {m m' : Store α β} (h : SameOff as m m') (hgone : ∀ a ∈ as, m' a = none) :
    live m' = live m \ {a | a ∈ as} := by
  ext x
  by_cases hx : x ∈ as
  · simp [mem_live, hx, hgone x hx]
  · simp [h.mem_live_iff hx, hx]

end Chats.Lib.Store
