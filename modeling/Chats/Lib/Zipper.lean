import Chats.Lib.Tree

/-! Positions in a binary tree: the tree with one subtree taken out, as the frames on the way
from that subtree up to the root. What stands before and after the position in the in-order
sequence can be read off the frames, and so can the next node on either side. -/
namespace Chats.Lib
set_option autoImplicit false

open BinaryTree

variable {α β γ : Type}

inductive Side where
  | left
  | right
deriving DecidableEq

def Side.other : Side → Side
  | left => right
  | right => left

theorem Side.other_ne (s : Side) : s.other ≠ s := by cases s <;> decide

theorem Side.eq_other_of_ne {s r : Side} (h : r ≠ s) : r = s.other := by
  cases s <;> cases r <;> first | rfl | exact absurd rfl h

/-- One node on the way up: the side its open place is on, its value and its other subtree. -/
structure Frame (γ : Type) where
  side : Side
  value : γ
  sibling : BinaryTree γ

def Frame.fill (f : Frame γ) (t : BinaryTree γ) : BinaryTree γ :=
  match f.side with
  | .left => node f.value t f.sibling
  | .right => node f.value f.sibling t

/-- The whole tree, from the frames above a subtree (the innermost first) and the subtree. -/
def plug : List (Frame γ) → BinaryTree γ → BinaryTree γ
  | [], t => t
  | f :: z, t => plug z (f.fill t)

@[simp] theorem plug_nil (t : BinaryTree γ) : plug [] t = t := rfl

@[simp] theorem plug_cons (f : Frame γ) (z : List (Frame γ)) (t : BinaryTree γ) :
    plug (f :: z) t = plug z (f.fill t) := rfl

/-! ## The sequence around a position -/

def Frame.front (f : Frame γ) : List γ :=
  match f.side with
  | .left => []
  | .right => inorder f.sibling ++ [f.value]

def Frame.back (f : Frame γ) : List γ :=
  match f.side with
  | .left => f.value :: inorder f.sibling
  | .right => []

theorem Frame.inorder_fill (f : Frame γ) (t : BinaryTree γ) :
    inorder (f.fill t) = f.front ++ inorder t ++ f.back := by
  obtain ⟨s, c, u⟩ := f
  cases s with
  | left => simp only [fill, front, back, inorder_node, List.nil_append]
  | right => simp only [fill, front, back, inorder_node, List.append_assoc, List.append_nil, List.singleton_append]

def before : List (Frame γ) → List γ
  | [] => []
  | f :: z => before z ++ f.front

def after : List (Frame γ) → List γ
  | [] => []
  | f :: z => f.back ++ after z

theorem inorder_plug (z : List (Frame γ)) (t : BinaryTree γ) :
    inorder (plug z t) = before z ++ inorder t ++ after z := by
  induction z generalizing t with
  | nil => simp only [plug_nil, before, after, List.nil_append, List.append_nil]
  | cons f z ih =>
    rw [plug_cons, ih, f.inorder_fill]
    simp only [before, after, List.append_assoc]

/-- Every place in the in-order sequence is a position in the tree. -/
theorem position_of_inorder {t : BinaryTree γ} {a b : List γ} {x : γ} (h : inorder t = a ++ x :: b) :
    ∃ z l r, t = plug z (node x l r) ∧ a = before z ++ inorder l ∧ b = inorder r ++ after z := by
  suffices hz : ∀ z : List (Frame γ), ∃ z' l r, plug z t = plug z' (node x l r) ∧
      before z ++ a = before z' ++ inorder l ∧ b ++ after z = inorder r ++ after z' by
    obtain ⟨z', l, r, ht, ha, hb⟩ := hz []
    exact ⟨z', l, r, ht, ha, by rw [← hb, after, List.append_nil]⟩
  induction t generalizing a b with
  | nil => exact absurd h (by simp)
  | node c l r ihl ihr =>
    intro z
    rw [inorder_node, List.append_eq_append_iff] at h
    rcases h with ⟨u, rfl, h⟩ | ⟨u, hl, h⟩
    · cases u with
      | nil =>
        obtain ⟨rfl, rfl⟩ : c = x ∧ inorder r = b := by simpa using h
        exact ⟨z, l, r, rfl, by rw [List.append_nil], rfl⟩
      | cons d u =>
        -- the value is in the right subtree
        obtain ⟨rfl, hr⟩ : c = d ∧ inorder r = u ++ x :: b := by simpa using h
        obtain ⟨z', l', r', ht, ha, hb⟩ := ihr hr (⟨.right, c, l⟩ :: z)
        refine ⟨z', l', r', ht, ?_, hb⟩
        rw [← ha]
        simp only [before, Frame.front, List.append_assoc, List.singleton_append]
    · cases u with
      | nil =>
        obtain ⟨rfl, rfl⟩ : x = c ∧ b = inorder r := by simpa using h
        exact ⟨z, l, r, rfl, by rw [hl, List.append_nil], rfl⟩
      | cons d u =>
        -- the value is in the left subtree
        obtain ⟨rfl, rfl⟩ : x = d ∧ b = u ++ c :: inorder r := by simpa using h
        obtain ⟨z', l', r', ht, ha, hb⟩ := ihl hl (⟨.left, c, r⟩ :: z)
        refine ⟨z', l', r', ht, ?_, ?_⟩
        · rw [← ha]
          simp only [before, Frame.front, List.append_nil]
        · rw [← hb]
          simp only [after, Frame.back, List.append_assoc, List.cons_append]

/-! ## The nearest node above on one side -/

/-- The first node on the way up whose open place is on side `s`. -/
def above (s : Side) : List (Frame γ) → Option γ
  | [] => none
  | f :: z => if f.side = s then some f.value else above s z

theorem above_cons_self (f : Frame γ) (z : List (Frame γ)) : above f.side (f :: z) = some f.value := if_pos rfl

theorem above_cons_of_ne {s : Side} {f : Frame γ} (h : f.side ≠ s) (z : List (Frame γ)) :
    above s (f :: z) = above s z := if_neg h

theorem head_after (z : List (Frame γ)) : (after z).head? = above .left z := by
  induction z with
  | nil => rfl
  | cons f z ih =>
    obtain ⟨s, c, u⟩ := f
    cases s with
    | left => rfl
    | right => exact ih

theorem getLast_before (z : List (Frame γ)) : (before z).getLast? = above .right z := by
  induction z with
  | nil => rfl
  | cons f z ih =>
    obtain ⟨s, c, u⟩ := f
    cases s with
    | left => rwa [before, Frame.front, List.append_nil]
    | right =>
      rw [before, Frame.front, ← List.append_assoc, List.getLast?_concat]
      rfl

theorem Frame.fill_ne_nil (f : Frame γ) (t : BinaryTree γ) : f.fill t ≠ nil := by
  obtain ⟨s, c, u⟩ := f
  cases s <;> simp [fill]

/-- The node found has the position somewhere below it on side `s`. -/
theorem plug_of_above {s : Side} {z : List (Frame γ)} {t : BinaryTree γ} {x : γ} (h : above s z = some x)
    (ht : t ≠ nil) : ∃ f z' t', plug z t = plug (f :: z') t' ∧ f.side = s ∧ f.value = x ∧ t' ≠ nil := by
  induction z generalizing t with
  | nil => exact absurd h (by simp [above])
  | cons f z ih =>
    by_cases hs : f.side = s
    · subst hs
      rw [above_cons_self] at h
      exact ⟨f, z, t, rfl, rfl, Option.some.inj h, ht⟩
    · rw [above_cons_of_ne hs] at h
      exact ih h (f.fill_ne_nil t)

theorem length_add_numNodes_le (z : List (Frame γ)) (t : BinaryTree γ) :
    z.length + t.numNodes ≤ (plug z t).numNodes := by
  induction z generalizing t with
  | nil => simp
  | cons f z ih =>
    have hf : t.numNodes + 1 ≤ (f.fill t).numNodes := by
      obtain ⟨s, c, u⟩ := f
      cases s <;> simp only [Frame.fill, numNodes] <;> omega
    have := ih (f.fill t)
    rw [plug_cons, List.length_cons]
    omega

/-! ## Positions in a store -/

section Linked
variable [Zero α] {addr : γ → α} {cell : γ → α → α → β} {m : Store α β}

theorem Linked.of_fill {f : Frame γ} {t : BinaryTree γ} (h : Linked addr cell m (f.fill t)) : Linked addr cell m t := by
  obtain ⟨s, c, u⟩ := f
  cases s with
  | left => exact h.2.2.1
  | right => exact h.2.2.2

/-- A subtree of a linked tree is linked. -/
theorem Linked.of_plug {z : List (Frame γ)} {t : BinaryTree γ} (h : Linked addr cell m (plug z t)) :
    Linked addr cell m t := by
  induction z generalizing t with
  | nil => exact h
  | cons f z ih => exact (ih h).of_fill

end Linked

end Chats.Lib
