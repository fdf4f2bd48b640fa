import Chats.Common.AvlParents

/-! # The parent links that are set

Most parent links of a tree are `NULL` or were never set. A link to a node other than the one above comes from
`tree_remove_minimum_node`: the right child of the node that it takes out moves up, and no later statement of
the removal sets its link again. -/
namespace Chats.Avl
set_option autoImplicit false

open Lib Lib.Store BinaryTree Shape

/-- A parent link that was never set (its word may be anything, also the address of another node), or is `NULL`,
or is `x`. -/
def UnsetNullOr (x : UInt64) (p : Option UInt64) : Prop := p = none ∨ p = some 0 ∨ p = some x

instance (x : UInt64) (p : Option UInt64) : Decidable (UnsetNullOr x p) :=
  inferInstanceAs (Decidable (p = none ∨ p = some 0 ∨ p = some x))

theorem unsetNullOr_none (x : UInt64) : UnsetNullOr x none := .inl rfl

theorem unsetNullOr_zero (x : UInt64) : UnsetNullOr x (some 0) := .inr (.inl rfl)

theorem unsetNullOr_self (x : UInt64) : UnsetNullOr x (some x) := .inr (.inr rfl)

theorem UnsetNullOr.of_set {x y : UInt64} (h : UnsetNullOr x (some y)) : y = 0 ∨ y = x := by
  rcases h with hnone | hnull | hself
  · cases hnone
  · exact .inl (Option.some.inj hnull)
  · exact .inr (Option.some.inj hself)

theorem UnsetNullOr.of_zero {p : Option UInt64} (h : UnsetNullOr 0 p) (x : UInt64) : UnsetNullOr x p :=
  h.imp_right fun hnull => .inl (or_self_iff.mp hnull)

/-- No parent link that was set names a wrong node; that of the root names `up` at most. -/
def NoFalseParent (up : UInt64) : Shape → Prop
  | nil => True
  | node c l r => UnsetNullOr up c.parent ∧ NoFalseParent c.addr l ∧ NoFalseParent c.addr r

def rootParent : Shape → Option UInt64
  | nil => none
  | node c _ _ => c.parent

/-- The subtree to the right of the leftmost node, below a root whose subtrees are given. -/
def minRight (r : Shape) : Shape → Shape
  | nil => r
  | node _ l' r' => minRight r' l'

/-- The node that takes the place of a removed one, from the right subtree, is the root there, or its right child
has no parent link to it. -/
def CleanSplice : Shape → Prop
  | nil => True
  | node _ nil _ => True
  | node _ (node _ l r) _ => UnsetNullOr 0 (rootParent (minRight r l))

def CleanRemove (key : ℤ) : Shape → Prop
  | nil => True
  | node c l r => if key < c.key then CleanRemove key l else if key > c.key then CleanRemove key r else CleanSplice r

/-! ## Clean operations -/

namespace NoFalseParent
variable {up u : UInt64} {t l r : Shape} {c : Cell}

theorem setParent {p : Option UInt64} (h : NoFalseParent u t) (hp : UnsetNullOr up p) :
    NoFalseParent up (Shape.setParent p t) := by
  cases t with
  | nil => trivial
  | node c l r => exact ⟨hp, h.2⟩

theorem reroot (h : NoFalseParent u t) (hp : UnsetNullOr up (rootParent t)) : NoFalseParent up t := by
  cases t with
  | nil => trivial
  | node c l r => exact ⟨hp, h.2⟩

theorem rotateRight (h : NoFalseParent up t) : NoFalseParent up (Shape.rotateRight t) := by
  cases t with
  | nil => exact h
  | node p l c =>
    cases l with
    | nil => exact h
    | node q a b =>
      obtain ⟨hp, ⟨-, ha, hb⟩, hc⟩ := h
      exact ⟨hp, ha, unsetNullOr_self _, hb.setParent (unsetNullOr_self _), hc⟩

theorem rotateLeft (h : NoFalseParent up t) : NoFalseParent up (Shape.rotateLeft t) := by
  cases t with
  | nil => exact h
  | node q a r =>
    cases r with
    | nil => exact h
    | node p b c =>
      obtain ⟨-, ha, -, hb, hc⟩ := h
      exact ⟨unsetNullOr_none _, ⟨unsetNullOr_self _, ha, hb.setParent (unsetNullOr_self _)⟩, hc⟩

theorem balance (h : NoFalseParent up t) : NoFalseParent up (Shape.balance t) := by
  cases t with
  | nil => exact h
  | node p l r =>
    obtain ⟨hp, hl, hr⟩ := h
    simp only [Shape.balance]
    split
    · refine rotateLeft ⟨hp, hl, ?_⟩
      split_ifs
      · exact hr.rotateRight
      · exact hr
    · split
      · refine rotateRight ⟨hp, ?_, hr⟩
        split_ifs
        · exact hl.rotateLeft
        · exact hl
      · exact ⟨hp, hl, hr⟩

theorem insert (key : ℤ) (data host n : UInt64) (h : NoFalseParent up t) :
    NoFalseParent up (Shape.insert key data host n t) := by
  induction t generalizing up with
  | nil => exact ⟨unsetNullOr_zero _, trivial, trivial⟩
  | node c l r ihl ihr =>
    obtain ⟨hc, hl, hr⟩ := h
    simp only [Shape.insert]
    split_ifs
    · exact balance ⟨hc, ihl hl, hr⟩
    · exact balance ⟨hc, hl, ihr hr⟩

theorem removeMin (h : NoFalseParent up (node c l r)) (hclean : UnsetNullOr 0 (rootParent (minRight r l))) :
    NoFalseParent up (Shape.removeMin c r l) := by
  induction l generalizing up c r with
  | nil => exact h.2.2.reroot (hclean.of_zero up)
  | node d l' r' ih _ =>
    obtain ⟨hc, hd, hr⟩ := h
    rw [Shape.removeMin]
    exact balance ⟨hc, ih hd hclean, hr⟩

theorem splice {p : Option UInt64} (hl : NoFalseParent c.addr l) (hr : NoFalseParent c.addr r) (hp : UnsetNullOr up p)
    (hclean : CleanSplice r) : NoFalseParent up (Shape.splice p l r) := by
  cases r with
  | nil => exact hl.setParent hp
  | node d l' r' =>
    have hmin : NoFalseParent d.addr (Shape.removeMin d r' l') ∨ NoFalseParent c.addr (Shape.removeMin d r' l') := by
      cases l' with
      | nil => exact .inl hr.2.2
      | node e l'' r'' => exact .inr (hr.removeMin hclean)
    have hright : NoFalseParent (minCell d l').addr
        (Shape.setParent (some (minCell d l').addr) (Shape.removeMin d r' l')) := by
      cases hmin with
      | inl hmin => exact hmin.setParent (unsetNullOr_self _)
      | inr hmin => exact hmin.setParent (unsetNullOr_self _)
    show NoFalseParent up (Shape.balance (node _ _ _))
    exact balance ⟨hp, hl.setParent (unsetNullOr_self _), hright⟩

theorem remove (key : ℤ) (h : NoFalseParent up t) (hclean : CleanRemove key t) :
    NoFalseParent up (Shape.remove key t) := by
  induction t generalizing up with
  | nil => trivial
  | node c l r ihl ihr =>
    obtain ⟨hc, hl, hr⟩ := h
    simp only [CleanRemove] at hclean
    simp only [Shape.remove]
    split_ifs at hclean ⊢
    · exact balance ⟨hc, ihl hl hclean, hr⟩
    · exact balance ⟨hc, hl, ihr hr hclean⟩
    · exact splice hl hr hc hclean

end NoFalseParent

/-! ## Removals that are not clean -/

/-- Whatever is above it, some parent link in the tree is wrong. -/
def FalseInside (t : Shape) : Prop := ∀ up, ¬ NoFalseParent up t

namespace FalseInside
variable {t l r : Shape} {c : Cell}

theorem setParent (p : Option UInt64) (h : FalseInside t) : FalseInside (Shape.setParent p t) := by
  cases t with
  | nil => exact absurd trivial (h 0)
  | node c l r =>
    intro up hn
    refine h (c.parent.getD 0) ⟨?_, hn.2⟩
    cases hc : c.parent with
    | none => exact unsetNullOr_none _
    | some y => exact unsetNullOr_self y

theorem rotateLeft (h : ¬ NoFalseParent c.addr l) (t : Shape) : FalseInside (Shape.rotateLeft (node c l t)) := by
  intro up hn
  cases t with
  | nil => exact h hn.2.1
  | node p b d => exact h hn.2.1.2.1

theorem rotateRight (h : ¬ NoFalseParent c.addr r) (t : Shape) : FalseInside (Shape.rotateRight (node c t r)) := by
  intro up hn
  cases t with
  | nil => exact h hn.2.2
  | node q a b => exact h hn.2.2.2.2

/-- A rotation takes nothing out of the lower side. -/
theorem balance_left (h : ¬ NoFalseParent c.addr l) (hf : factor l r ≠ -2) :
    FalseInside (Shape.balance (node c l r)) := by
  have hfix : ¬ NoFalseParent (fixHeight c l r).addr l := h
  simp only [Shape.balance]
  rw [if_neg hf]
  split
  · exact rotateLeft hfix _
  · exact fun up hn => h hn.2.1

theorem balance_right (h : ¬ NoFalseParent c.addr r) (hf : factor l r ≠ 2) :
    FalseInside (Shape.balance (node c l r)) := by
  have hfix : ¬ NoFalseParent (fixHeight c l r).addr r := h
  simp only [Shape.balance]
  rw [if_neg hf]
  split
  · exact rotateRight hfix _
  · exact fun up hn => h hn.2.2

theorem factor_ne (hl : Sound l) (hr : Sound r) : (l.height ≤ r.height + 1 → factor l r ≠ -2) ∧
    (r.height ≤ l.height + 1 → factor l r ≠ 2) := by
  have hf := factor_eq hl.heights hr.heights
  exact ⟨fun h => by omega, fun h => by omega⟩

/-- The right child of the leftmost node moves up below another node, and its parent link stays. -/
theorem rootParent_ne {x y : UInt64} (h : NoFalseParent x t) (hdirty : ¬ UnsetNullOr 0 (rootParent t)) (hne : x ≠ y) :
    ¬ NoFalseParent y t := by
  cases t with
  | nil => exact absurd (unsetNullOr_none 0) hdirty
  | node e l r =>
    intro hn
    refine hdirty (h.1.imp_right fun hx => ?_)
    rcases hx with hnull | hx
    · exact .inl hnull
    · -- a link to `x` is none to `y`
      have hset := hn.1
      rw [hx] at hset
      refine .inl (hx.trans (congrArg some ?_))
      exact hset.of_set.resolve_right hne

theorem removeMin {d : Cell} {l' r' : Shape} {up : UInt64} (hs : Sound (node c (node d l' r') r))
    (hlt : (node c (node d l' r') r).height < 200) (hnd : (addrs (node c (node d l' r') r)).Nodup)
    (hn : NoFalseParent up (node c (node d l' r') r)) (hdirty : ¬ UnsetNullOr 0 (rootParent (minRight r' l'))) :
    FalseInside (Shape.removeMin c r (node d l' r')) := by
  induction l' generalizing c d r r' up with
  | nil =>
    obtain ⟨b1, -, -, -⟩ := hs.balanced
    have hne : d.addr ≠ c.addr := by
      intro heq
      exact (nodup_node hnd).2.2.1 (heq ▸ mem_addrs_node.mpr (.inr (.inl rfl)))
    rw [Shape.removeMin]
    refine balance_left (rootParent_ne hn.2.1.2.2 hdirty hne) ((factor_ne hs.left.right hs.right).1 ?_)
    simp only [height] at b1
    omega
  | node e l'' r'' ih _ =>
    obtain ⟨b1, -, -, -⟩ := hs.balanced
    have hheight : (node d (node e l'' r'') r').height < 200 := by
      simp only [height] at hlt ⊢
      omega
    obtain ⟨hS, hle, -⟩ := sound_removeMin d hs.left hheight
    have hinside := ih hs.left hheight (nodup_node hnd).1 hn.2.1 hdirty
    rw [Shape.removeMin]
    exact balance_left (hinside _) ((factor_ne hS hs.right).1 (by omega))

theorem splice {up : UInt64} (p : Option UInt64) (hs : Sound (node c l r)) (hlt : (node c l r).height < 200)
    (hnd : (addrs (node c l r)).Nodup) (hn : NoFalseParent up (node c l r)) (hdirty : ¬ CleanSplice r) :
    FalseInside (Shape.splice p l r) := by
  cases r with
  | nil => exact absurd trivial hdirty
  | node d l' r' =>
    cases l' with
    | nil => exact absurd trivial hdirty
    | node e l'' r'' =>
      obtain ⟨-, b2, -, -⟩ := hs.balanced
      have hheight : (node d (node e l'' r'') r').height < 200 := by
        simp only [height] at hlt ⊢
        omega
      obtain ⟨hS, hle, -⟩ := sound_removeMin d hs.right hheight
      have hinside := removeMin hs.right hheight (nodup_node hnd).2.1 hn.2.2 hdirty
      have hparent := hinside.setParent (some (minCell d (node e l'' r'')).addr)
      refine balance_right (hparent _) ((factor_ne hs.left.setParent hS.setParent).2 ?_)
      rw [height_setParent, height_setParent]
      omega

theorem remove {up : UInt64} (key : ℤ) (hs : Sound t) (hlt : t.height < 200) (hnd : (addrs t).Nodup)
    (hn : NoFalseParent up t) (hdirty : ¬ CleanRemove key t) : FalseInside (Shape.remove key t) := by
  induction t generalizing up with
  | nil => exact absurd trivial hdirty
  | node c l r ihl ihr =>
    obtain ⟨b1, b2, -, -⟩ := hs.balanced
    have hheight : l.height < 200 ∧ r.height < 200 := by
      simp only [height] at hlt
      omega
    simp only [CleanRemove] at hdirty
    simp only [Shape.remove]
    split_ifs at hdirty ⊢
    · obtain ⟨hS, hle, -⟩ := sound_remove key hs.left hheight.1
      have hinside := ihl hs.left hheight.1 (nodup_node hnd).1 hn.2.1 hdirty
      exact balance_left (hinside _) ((factor_ne hS hs.right).1 (by omega))
    · obtain ⟨hS, hle, -⟩ := sound_remove key hs.right hheight.2
      have hinside := ihr hs.right hheight.2 (nodup_node hnd).2.1 hn.2.2 hdirty
      exact balance_right (hinside _) ((factor_ne hs.left hS).2 (by omega))
    · exact splice c.parent hs hlt hnd hn hdirty

end FalseInside

/-! ## Runs -/

def NoFalseLinks (t : AvlTree) : Prop := ∃ s, Represents t s ∧ NoFalseParent 0 s

def Clean (t : AvlTree) : Op → Prop
  | .add _ _ _ => True
  | .remove key => ∃ s, Represents t s ∧ CleanRemove key s

theorem NoFalseLinks.step {t t' : AvlTree} {op : Op} (h : NoFalseLinks t) (hC : Clean t op) (hs : Step t op t') :
    NoFalseLinks t' := by
  obtain ⟨s, hr, hn⟩ := h
  refine ⟨_, hs.refines hr, ?_⟩
  cases op with
  | add key data n => exact hn.insert key data t.self n
  | remove key =>
    obtain ⟨s', hs', hclean⟩ := hC
    obtain rfl := hr.unique hs'
    exact hn.remove key hclean

theorem Sane.false_link {t t' : AvlTree} {s : Shape} {op : Op} (h : Sane t s) (hn : NoFalseLinks t) (hC : ¬ Clean t op)
    (hs : Step t op t') : ¬ NoFalseLinks t' := by
  obtain ⟨s', hs', hn⟩ := hn
  obtain rfl := h.represents.unique hs'
  cases op with
  | add key data n => exact absurd trivial hC
  | remove key =>
    have hlt : s.height < 200 := (h.sound.balanced.height_lt h.represents.numNodes_lt).trans (by omega)
    have hdirty : ¬ CleanRemove key s := fun hclean => hC ⟨s, h.represents, hclean⟩
    rintro ⟨s'', hs'', hn'⟩
    obtain rfl := (h.step hs).represents.unique hs''
    exact FalseInside.remove key h.sound hlt h.represents.holds.nodup hn hdirty 0 hn'

/-- Over a run no parent link ever names a node other than the one above, exactly if each removal is clean. -/
theorem no_false_links_iff (self : UInt64) (h : List (AvlTree × Op)) (t : AvlTree)
    (r : Run Step (avlTreeInit self) h t) :
    (∀ x ∈ visited h t, NoFalseLinks x) ↔ ∀ e ∈ h, Clean e.1 e.2 := by
  refine r.forall_iff (I := fun t => (∃ s, Sane t s) ∧ NoFalseLinks t)
    ⟨⟨nil, represents_init self, List.Pairwise.nil, Sound.nil⟩, nil, represents_init self, trivial⟩
    (fun _ h => h.2) ?_ ?_
  · rintro t op t' ⟨⟨s, hs⟩, hn⟩ hC hstep
    exact ⟨⟨_, hs.step hstep⟩, hn.step hC hstep⟩
  · rintro t op t' ⟨⟨s, hs⟩, hn⟩ hC hstep
    exact hs.false_link hn hC hstep

/-- Keys 2, 1 and 3 in the blocks 32, 16 and 48: no rotation has set a link. -/
theorem three_adds : ∃ h t, Run Step (avlTreeInit 8) h t ∧ h.map Prod.snd = [.add 3 0 48, .add 1 0 16, .add 2 0 32] ∧
    ∀ e ∈ h, Clean e.1 e.2 := by
  refine ⟨_, _, .next (.next (.next .start (.add (by decide) rfl rfl)) (.add (by decide) rfl rfl))
    (.add (by decide) rfl rfl), rfl, ?_⟩
  intro e he
  fin_cases he
  · trivial
  · trivial
  · trivial

theorem no_false_links_adds : ∃ h t, Run Step (avlTreeInit 8) h t ∧
    h.map Prod.snd = [.add 3 0 48, .add 1 0 16, .add 2 0 32] ∧ ∀ x ∈ visited h t, NoFalseLinks x := by
  obtain ⟨h, t, r, hops, hclean⟩ := three_adds
  exact ⟨h, t, r, hops, (no_false_links_iff 8 h t r).mpr hclean⟩

end Chats.Avl
