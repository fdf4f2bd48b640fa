import Chats.Lib.Store

/-! Binary trees as a pointer program builds them: the in-order sequence, the balance
condition with the Fibonacci bound on the height it forces, and what it means that the
cells of a store are linked as a given tree. -/
namespace Chats.Lib
set_option autoImplicit false

open BinaryTree

variable {α β γ : Type}

/-! ## The in-order sequence -/

def inorder : BinaryTree γ → List γ
  | nil => []
  | node c l r => inorder l ++ c :: inorder r

@[simp] theorem inorder_nil : inorder (nil : BinaryTree γ) = [] := rfl

@[simp] theorem inorder_node (c : γ) (l r : BinaryTree γ) :
    inorder (node c l r) = inorder l ++ c :: inorder r := rfl

theorem inorder_length (t : BinaryTree γ) : (inorder t).length = t.numNodes := by
  induction t with
  | nil => rfl
  | node c l r ihl ihr =>
    simp only [inorder_node, List.length_append, List.length_cons, ihl, ihr, numNodes]
    omega

/-! ## Balance -/

/-- At every node the heights of the two subtrees differ by at most one. -/
def HeightBalanced : BinaryTree γ → Prop
  | nil => True
  | node _ l r => l.height ≤ r.height + 1 ∧ r.height ≤ l.height + 1 ∧ HeightBalanced l ∧ HeightBalanced r

/-- A balanced tree of height `h` has at least `fib (h+2) - 1` nodes. -/
theorem HeightBalanced.fib_le {t : BinaryTree γ} (ht : HeightBalanced t) :
    Nat.fib (t.height + 2) ≤ t.numNodes + 1 := by
  induction t with
  | nil => simp
  | node c l r ihl ihr =>
    obtain ⟨hl, hr, bl, br⟩ := ht
    have il := ihl bl
    have ir := ihr br
    have grow (h : ℕ) : Nat.fib (h + 1 + 2) = Nat.fib (h + 1) + Nat.fib (h + 2) := Nat.fib_add_two
    simp only [height, numNodes]
    rcases Nat.le_total l.height r.height with h | h
    · have hm : Nat.fib (r.height + 1) ≤ Nat.fib (l.height + 2) := Nat.fib_mono (by omega)
      rw [Nat.max_eq_right h, grow]
      omega
    · have hm : Nat.fib (l.height + 1) ≤ Nat.fib (r.height + 2) := Nat.fib_mono (by omega)
      rw [Nat.max_eq_left h, grow]
      omega

/-- With fewer than `2^64` nodes a balanced tree stays far below the range of a byte. -/
theorem HeightBalanced.height_lt {t : BinaryTree γ} (ht : HeightBalanced t) (hn : t.numNodes < 2 ^ 64) :
    t.height < 92 := by
  by_contra hc
  have hm : Nat.fib 94 ≤ Nat.fib (t.height + 2) := Nat.fib_mono (by omega)
  have hb : (2 : ℕ) ^ 64 < Nat.fib 94 := by decide +kernel
  have := ht.fib_le
  omega

/-! ## Trees in a store -/

section Linked
variable [Zero α] (addr : γ → α) (cell : γ → α → α → β)

def rootPtr : BinaryTree γ → α
  | nil => 0
  | node c _ _ => addr c

/-- The store holds, at the address of each value, the cell made of that value and the
pointers to its two subtrees. -/
def Linked (m : Store α β) : BinaryTree γ → Prop
  | nil => True
  | node c l r => addr c ≠ 0 ∧ m (addr c) = some (cell c (rootPtr addr l) (rootPtr addr r)) ∧
      Linked m l ∧ Linked m r

variable {addr cell}

theorem Linked.congr {m m' : Store α β} {t : BinaryTree γ} (h : Linked addr cell m t)
    (hm : ∀ x ∈ (inorder t).map addr, m' x = m x) : Linked addr cell m' t := by
  induction t with
  | nil => trivial
  | node c l r ihl ihr =>
    obtain ⟨h0, hc, hl, hr⟩ := h
    simp only [inorder_node, List.map_append, List.map_cons, List.mem_append, List.mem_cons] at hm
    exact ⟨h0, (hm _ (.inr (.inl rfl))).trans hc, ihl hl fun x hx => hm x (.inl hx),
      ihr hr fun x hx => hm x (.inr (.inr hx))⟩

/-- A part of the store that an operation leaves alone still holds its tree. -/
theorem Linked.frame {m m' : Store α β} {t : BinaryTree γ} {as : List α} (h : Linked addr cell m t)
    (hm : Store.SameOff as m m') (hd : ∀ x ∈ (inorder t).map addr, x ∉ as) : Linked addr cell m' t :=
  h.congr fun x hx => hm x (hd x hx)

theorem Linked.zero_notMem {m : Store α β} {t : BinaryTree γ} (h : Linked addr cell m t) :
    (0 : α) ∉ (inorder t).map addr := by
  induction t with
  | nil => simp
  | node c l r ihl ihr =>
    obtain ⟨h0, _, hl, hr⟩ := h
    simp only [inorder_node, List.map_append, List.map_cons, List.mem_append, List.mem_cons, not_or]
    exact ⟨ihl hl, h0.symm, ihr hr⟩

/-- The cell of each value, somewhere in the tree. -/
theorem Linked.cell_of_mem {m : Store α β} {t : BinaryTree γ} (h : Linked addr cell m t) :
    ∀ c ∈ inorder t, ∃ l r, m (addr c) = some (cell c l r) := by
  induction t with
  | nil => simp
  | node d l r ihl ihr =>
    obtain ⟨_, hd, hl, hr⟩ := h
    intro c hc
    simp only [inorder_node, List.mem_append, List.mem_cons] at hc
    rcases hc with hc | rfl | hc
    · exact ihl hl c hc
    · exact ⟨_, _, hd⟩
    · exact ihr hr c hc

theorem Linked.isSome {m : Store α β} {t : BinaryTree γ} (h : Linked addr cell m t) :
    ∀ x ∈ (inorder t).map addr, (m x).isSome := by
  intro x hx
  obtain ⟨c, hc, rfl⟩ := List.mem_map.mp hx
  obtain ⟨l, r, e⟩ := h.cell_of_mem c hc
  rw [e]
  rfl

theorem rootPtr_eq_zero {m : Store α β} {t : BinaryTree γ} (h : Linked addr cell m t)
    (h0 : rootPtr addr t = 0) : t = nil := by
  cases t with
  | nil => rfl
  | node c l r => exact absurd h0 h.1

/-- A store holds at most one tree behind a pointer, when cells determine what they hold. -/
theorem Linked.unique {m : Store α β}
    (inj : ∀ c d l r l' r', addr c = addr d → cell c l r = cell d l' r' → c = d ∧ l = l' ∧ r = r')
    {t t' : BinaryTree γ} (h : Linked addr cell m t) (h' : Linked addr cell m t')
    (hr : rootPtr addr t = rootPtr addr t') : t = t' := by
  induction t generalizing t' with
  | nil => exact (rootPtr_eq_zero h' hr.symm).symm
  | node c l r ihl ihr =>
    cases t' with
    | nil => exact absurd hr h.1
    | node d l' r' =>
      obtain ⟨_, hc, hl, hrr⟩ := h
      obtain ⟨_, hd, hl', hrr'⟩ := h'
      have ha : addr c = addr d := hr
      rw [ha, hd, Option.some.injEq] at hc
      obtain ⟨rfl, el, er⟩ := inj c d _ _ _ _ ha hc.symm
      rw [ihl hl hl' el, ihr hrr hrr' er]

end Linked

end Chats.Lib
