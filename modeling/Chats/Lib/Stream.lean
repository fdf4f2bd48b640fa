import Mathlib.Tactic

/-! Items laid back to back, and the walk that goes from each of them to the next. -/
namespace Chats.Lib
set_option autoImplicit false

variable {α β γ : Type}

/-- The items, each with the place where it starts. -/
def placed (size : α → ℕ) : ℕ → List α → List (ℕ × α)
  | _, [] => []
  | start, x :: xs => (start, x) :: placed size (start + size x) xs

/-- The walk from `offset` up to `stop`: what it meets, with the places, and where it ends. `visit`
says what stands at a place and where the next item starts; the walk only goes forward. -/
def walk (visit : ℕ → Option (γ × ℕ)) (stop offset : ℕ) : Option (List (ℕ × γ) × ℕ) :=
  if offset < stop then
    match visit offset with
    | none => none
    | some (x, next) =>
      if offset < next then (walk visit stop next).map fun r => ((offset, x) :: r.1, r.2) else none
  else some ([], offset)
termination_by stop - offset

/-- The walk meets exactly the items, at their places, when each of them leads to its end. -/
theorem walk_placed {size : α → ℕ} (view : α → γ) {visit : ℕ → Option (γ × ℕ)} {stop : ℕ} (xs : List α) (offset : ℕ)
    (hstop : stop = offset + (xs.map size).sum) (hpos : ∀ x ∈ xs, 0 < size x)
    (hvisit : ∀ p ∈ placed size offset xs, visit p.1 = some (view p.2, p.1 + size p.2)) :
    walk visit stop offset = some ((placed size offset xs).map fun p => (p.1, view p.2), stop) := by
  induction xs generalizing offset with
  | nil =>
    have hend : offset = stop := by simpa using hstop.symm
    rw [walk, if_neg (by omega), hend]
    rfl
  | cons x xs ih =>
    have hx : 0 < size x := hpos x List.mem_cons_self
    have hfirst : visit offset = some (view x, offset + size x) := hvisit (offset, x) List.mem_cons_self
    rw [List.map_cons, List.sum_cons] at hstop
    have hrest := ih (offset + size x) (by omega) (fun y hy => hpos y (List.mem_cons_of_mem x hy))
      fun p hp => hvisit p (List.mem_cons_of_mem _ hp)
    rw [walk, if_pos (by omega), hfirst]
    dsimp only
    rw [if_pos (by omega), hrest]
    rfl

/-- Behind its place an item stands in full, whatever comes after it. -/
theorem drop_placed (encode : α → List β) (xs : List α) (before : List β) :
    ∀ p ∈ placed (fun x => (encode x).length) before.length xs,
      ∃ rest, (before ++ xs.flatMap encode).drop p.1 = encode p.2 ++ rest := by
  induction xs generalizing before with
  | nil =>
    intro p hp
    cases hp
  | cons x xs ih =>
    intro p hp
    rw [placed, List.mem_cons] at hp
    cases hp with
    | inl hp =>
      rw [hp, List.drop_left, List.flatMap_cons]
      exact ⟨_, rfl⟩
    | inr hp =>
      rw [← List.length_append] at hp
      obtain ⟨rest, e⟩ := ih (before ++ encode x) p hp
      rw [List.flatMap_cons, ← List.append_assoc]
      exact ⟨rest, e⟩

theorem placed_snd (size : α → ℕ) (xs : List α) (offset : ℕ) : (placed size offset xs).map Prod.snd = xs := by
  induction xs generalizing offset with
  | nil => rfl
  | cons x xs ih => rw [placed, List.map_cons, ih]

/-- Pieces whose lengths are those of the first items, and whose bytes are the first ones, are
the first items. -/
theorem prefix_of_lengths {xs ys : List (List β)} (hlen : xs.map List.length <+: ys.map List.length)
    (hflat : xs.flatten <+: ys.flatten) : xs <+: ys := by
  induction xs generalizing ys with
  | nil => exact List.nil_prefix
  | cons x xs ih =>
    cases ys with
    | nil =>
      rw [List.map_cons, List.map_nil, List.prefix_nil] at hlen
      cases hlen
    | cons y ys =>
      rw [List.map_cons, List.map_cons, List.cons_prefix_cons] at hlen
      obtain ⟨hxy, hrest⟩ := hlen
      obtain ⟨rest, e⟩ := hflat
      rw [List.flatten_cons, List.flatten_cons, List.append_assoc] at e
      obtain ⟨rfl, hbehind⟩ := List.append_inj e hxy
      rw [List.cons_prefix_cons]
      exact ⟨rfl, ih hrest ⟨rest, hbehind⟩⟩

/-- Related pairs stay related when the last item is changed and its relation kept. -/
theorem forall₂_last {R : α → β → Prop} {x y : β} (hxy : ∀ a, R a x → R a y) {as : List α} {bs : List β}
    (h : List.Forall₂ R as (bs ++ [x])) : List.Forall₂ R as (bs ++ [y]) := by
  induction bs generalizing as with
  | nil =>
    cases h with
    | cons hlast hnil => exact .cons (hxy _ hlast) hnil
  | cons b bs ih =>
    cases h with
    | cons hfirst hrest => exact .cons hfirst (ih hrest)

end Chats.Lib
