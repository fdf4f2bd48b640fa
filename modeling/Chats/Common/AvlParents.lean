import Chats.Common.AvlRuns

/-! # Parent links of the AVL tree

`tree_insert` links a new node from above only: `node_init` leaves its parent `NULL` and no
later statement of the call sets it unless a rotation happens to. So the parent links agree
with the child links only as long as the tree never gets a second node. -/
namespace Chats.Avl
set_option autoImplicit false

open Lib BinaryTree Shape

/-- The parent of the root is `p`, and below it every parent is the node above. -/
def ParentsAgree (p : Option UInt64) : Shape → Prop
  | nil => True
  | node c l r => c.parent = p ∧ ParentsAgree (some c.addr) l ∧ ParentsAgree (some c.addr) r

def LinksAgree (t : AvlTree) : Prop := ∃ s, Represents t s ∧ ParentsAgree (some 0) s

theorem LinksAgree.of_represents {t : AvlTree} {s : Shape} (h : LinksAgree t) (hs : Represents t s) :
    ParentsAgree (some 0) s := by
  obtain ⟨s', hs', hp⟩ := h
  rwa [hs.unique hs']

def AddsToEmpty (t : AvlTree) : Op → Prop
  | .add _ _ _ => t.root = 0
  | .remove _ => True

/-- The trees that a run reaches under this condition. -/
def AtMostOne (t : AvlTree) : Prop :=
  ∃ s, Represents t s ∧ (s = nil ∨ ∃ c, s = node c nil nil ∧ c.parent = some 0 ∧ c.height = 1)

theorem AtMostOne.linksAgree {t : AvlTree} (h : AtMostOne t) : LinksAgree t := by
  obtain ⟨s, hs, rfl | ⟨c, rfl, hp, _⟩⟩ := h
  · exact ⟨nil, hs, trivial⟩
  · exact ⟨_, hs, hp, trivial, trivial⟩

theorem balance_single (c : Cell) : balance (node c nil nil) = node { c with height := 1 } nil nil := rfl

theorem remove_single (key : ℤ) (c : Cell) :
    remove key (node c nil nil) = nil ∨ remove key (node c nil nil) = node { c with height := 1 } nil nil := by
  simp only [Shape.remove]
  split_ifs
  · exact .inr (balance_single c)
  · exact .inr (balance_single c)
  · exact .inl rfl

theorem AtMostOne.step {t t' : AvlTree} {op : Op} (h : AtMostOne t) (hC : AddsToEmpty t op) (hs : Step t op t') :
    AtMostOne t' := by
  obtain ⟨s, hr, hshape⟩ := h
  refine ⟨_, hs.refines hr, ?_⟩
  cases op with
  | add key data n =>
    have h0 : Shape.root s = 0 := hr.root.symm.trans hC
    have hnil : s = nil := rootPtr_eq_zero hr.holds.linked h0
    subst hnil
    exact .inr ⟨_, rfl, rfl, rfl⟩
  | remove key =>
    rcases hshape with rfl | ⟨c, rfl, hp, hh⟩
    · exact .inl rfl
    · rcases remove_single key c with e | e
      · exact .inl e
      · exact .inr ⟨_, e, hp, rfl⟩

/-- The second node hangs below the first with a `NULL` parent. -/
theorem AtMostOne.second_node {t t' : AvlTree} {op : Op} (h : AtMostOne t) (hC : ¬ AddsToEmpty t op)
    (hs : Step t op t') : ¬ LinksAgree t' := by
  intro hlinks
  obtain ⟨s, hr, hshape⟩ := h
  have hp := hlinks.of_represents (hs.refines hr)
  cases op with
  | remove key => exact hC trivial
  | add key data n =>
    rcases hshape with rfl | ⟨c, rfl, _, hh⟩
    · exact hC hr.root
    · have hc0 : c.addr ≠ 0 := hr.holds.linked.1
      have hb (x y : Shape) (hx : stored x = 0 ∨ stored x = 1) (hy : stored y = 0 ∨ stored y = 1) :
          balance (node c x y) = node (fixHeight c x y) x y := by
        have hf : factor x y ≠ 2 ∧ factor x y ≠ -2 := by
          rcases hx with hx | hx <;> rcases hy with hy | hy <;> simp [factor, hx, hy]
        simp only [balance, if_neg hf.1, if_neg hf.2]
      simp only [Op.shape, Shape.insert] at hp
      split_ifs at hp with hk
      · rw [hb _ _ (.inr rfl) (.inl rfl)] at hp
        exact hc0 (Option.some.inj hp.2.1.1).symm
      · rw [hb _ _ (.inl rfl) (.inr rfl)] at hp
        exact hc0 (Option.some.inj hp.2.2.1).symm

/-- Along a run the links agree in every state exactly when each `add` found the tree empty. -/
theorem links_agree_iff (self : UInt64) (h : List (AvlTree × Op)) (t : AvlTree)
    (r : Run Step (avlTreeInit self) h t) :
    (∀ x ∈ visited h t, LinksAgree x) ↔ ∀ e ∈ h, AddsToEmpty e.1 e.2 := by
  refine r.forall_iff (I := AtMostOne) ⟨nil, represents_init self, .inl rfl⟩ (fun _ => AtMostOne.linksAgree) ?_ ?_
  · intro t op t' hI hC hs
    exact hI.step hC hs
  · intro t op t' hI hC hs
    exact hI.second_node hC hs

theorem one_at_a_time : ∃ h t, Run Step (avlTreeInit 8) h t ∧
    h.map Prod.snd = [.add 2 0 16, .remove 1, .add 1 0 16] ∧ ∀ e ∈ h, AddsToEmpty e.1 e.2 := by
  refine ⟨_, _, .next (.next (.next .start (.add (by decide) rfl rfl)) (.remove rfl))
    (.add (by decide) rfl rfl), rfl, ?_⟩
  intro e he
  fin_cases he
  · rfl
  · trivial
  · rfl

theorem links_agree_single : ∃ h t, Run Step (avlTreeInit 8) h t ∧
    h.map Prod.snd = [.add 2 0 16, .remove 1, .add 1 0 16] ∧ ∀ x ∈ visited h t, LinksAgree x := by
  obtain ⟨h, t, r, hops, hC⟩ := one_at_a_time
  exact ⟨h, t, r, hops, (links_agree_iff 8 h t r).mpr hC⟩

/-- Two calls of `avl_tree_add` are enough to break the links. -/
theorem links_disagree : ∃ h t, Run Step (avlTreeInit 8) h t ∧
    h.map Prod.snd = [.add 2 0 32, .add 1 0 16] ∧ ¬ LinksAgree t := by
  have s₁ : Step (avlTreeInit 8) (.add 1 0 16) _ := .add (by decide) rfl rfl
  have hempty : AddsToEmpty (avlTreeInit 8) (.add 1 0 16) := rfl
  have one := AtMostOne.step ⟨nil, represents_init 8, .inl rfl⟩ hempty s₁
  have h0 : (16 : UInt64) ≠ 0 := by decide
  have second : ∀ t', Step _ (.add 2 0 32) t' → ¬ LinksAgree t' := fun t' s₂ => one.second_node (by exact h0) s₂
  refine ⟨_, _, .next (.next .start s₁) (.add (by decide) rfl rfl), rfl, ?_⟩
  exact second _ (.add (by decide) rfl rfl)

end Chats.Avl
