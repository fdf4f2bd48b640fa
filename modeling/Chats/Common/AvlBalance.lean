import Chats.Common.AvlShape

/-! # Heights and balance of the AVL operations

The stored height is a byte and `node_fix_height` computes it modulo 256. While the true
heights stay below the range of a byte the two agree, and then one call of `tree_balance`
repairs a difference of two: the lemmas below say by how much each operation can change the
height of a subtree. -/
namespace Chats.Avl.Shape
set_option autoImplicit false

open Lib BinaryTree

/-- Every stored height is the true one. -/
def Heights : Shape → Prop
  | nil => True
  | node c l r => c.height.toNat = max l.height r.height + 1 ∧ Heights l ∧ Heights r

theorem stored_toNat {t : Shape} (ht : Heights t) : (stored t).toNat = t.height := by
  cases t with
  | nil => rfl
  | node c l r => exact ht.1

theorem height_setParent (p : Option UInt64) (t : Shape) : (setParent p t).height = t.height := by
  cases t <;> rfl

theorem heights_setParent {p : Option UInt64} {t : Shape} (ht : Heights t) : Heights (setParent p t) := by
  cases t with
  | nil => trivial
  | node c l r => exact ht

theorem balanced_setParent {p : Option UInt64} {t : Shape} (ht : HeightBalanced t) :
    HeightBalanced (setParent p t) := by
  cases t with
  | nil => trivial
  | node c l r => exact ht

theorem fixHeight_toNat (c : Cell) {l r : Shape} (hl : Heights l) (hr : Heights r)
    (hb : max l.height r.height < 255) : (fixHeight c l r).height.toNat = max l.height r.height + 1 := by
  have el := stored_toNat hl
  have er := stored_toNat hr
  simp only [fixHeight]
  split
  · next h =>
    have h' : (stored r).toNat < (stored l).toNat := h
    rw [UInt8.toNat_add, el]
    simp only [UInt8.toNat_one]
    omega
  · next h =>
    have h' : ¬ (stored r).toNat < (stored l).toNat := h
    rw [UInt8.toNat_add, er]
    simp only [UInt8.toNat_one]
    omega

theorem factor_eq {l r : Shape} (hl : Heights l) (hr : Heights r) :
    factor l r = (r.height : ℤ) - (l.height : ℤ) := by
  rw [factor, stored_toNat hl, stored_toNat hr]

/-! ## Sound subtrees and rotations -/

/-- A subtree whose stored heights are true and whose nodes are balanced. -/
structure Sound (t : Shape) : Prop where
  heights : Heights t
  balanced : HeightBalanced t

theorem Sound.nil : Sound nil := ⟨trivial, trivial⟩

theorem Sound.left {c : Cell} {l r : Shape} (h : Sound (node c l r)) : Sound l :=
  ⟨h.heights.2.1, h.balanced.2.2.1⟩

theorem Sound.right {c : Cell} {l r : Shape} (h : Sound (node c l r)) : Sound r :=
  ⟨h.heights.2.2, h.balanced.2.2.2⟩

theorem Sound.setParent {p : Option UInt64} {t : Shape} (h : Sound t) : Sound (setParent p t) :=
  ⟨heights_setParent h.heights, balanced_setParent h.balanced⟩

theorem Sound.node {c : Cell} {l r : Shape} (hl : Sound l) (hr : Sound r)
    (h1 : l.height ≤ r.height + 1) (h2 : r.height ≤ l.height + 1)
    (hc : c.height.toNat = max l.height r.height + 1) : Sound (node c l r) :=
  ⟨⟨hc, hl.heights, hr.heights⟩, ⟨h1, h2, hl.balanced, hr.balanced⟩⟩

/-- A node rebuilt by `node_fix_height` over two sound subtrees. -/
theorem Sound.fix (c : Cell) {l r : Shape} (hl : Sound l) (hr : Sound r)
    (h1 : l.height ≤ r.height + 1) (h2 : r.height ≤ l.height + 1)
    (hb : max l.height r.height < 255) : Sound (BinaryTree.node (fixHeight c l r) l r) :=
  hl.node hr h1 h2 (fixHeight_toNat c hl.heights hr.heights hb)

/-- A rotation to the left over sound grandchildren whose heights fit. -/
theorem sound_rotateLeft (q p : Cell) {a b c : Shape} (ha : Sound a) (hb : Sound b) (hc : Sound c)
    (h1 : a.height ≤ b.height + 1) (h2 : b.height ≤ a.height + 1)
    (h3 : max a.height b.height ≤ c.height) (h4 : c.height ≤ max a.height b.height + 2)
    (hlt : c.height < 253) :
    Sound (rotateLeft (node q a (node p b c))) ∧
      (rotateLeft (node q a (node p b c))).height = max (max a.height b.height + 1) c.height + 1 := by
  have eh : (setParent (some q.addr) b).height = b.height := height_setParent _ _
  have hleft := ha.fix { q with parent := some p.addr } (hb.setParent (p := some q.addr))
    (by omega) (by omega) (by omega)
  have hh : (node (fixHeight { q with parent := some p.addr } a (setParent (some q.addr) b)) a
      (setParent (some q.addr) b)).height = max a.height b.height + 1 := by
    simp only [height, eh]
  refine ⟨hleft.fix _ hc (by omega) (by omega) (by omega), ?_⟩
  simp only [rotateLeft, height, eh]

theorem sound_rotateRight (p q : Cell) {a b c : Shape} (ha : Sound a) (hb : Sound b) (hc : Sound c)
    (h1 : c.height ≤ b.height + 1) (h2 : b.height ≤ c.height + 1)
    (h3 : max b.height c.height ≤ a.height) (h4 : a.height ≤ max b.height c.height + 2)
    (hlt : a.height < 253) :
    Sound (rotateRight (node p (node q a b) c)) ∧
      (rotateRight (node p (node q a b) c)).height = max a.height (max b.height c.height + 1) + 1 := by
  have eh : (setParent (some p.addr) b).height = b.height := height_setParent _ _
  have hright := (hb.setParent (p := some p.addr)).fix { p with parent := some q.addr } hc
    (by omega) (by omega) (by omega)
  have hh : (node (fixHeight { p with parent := some q.addr } (setParent (some p.addr) b) c)
      (setParent (some p.addr) b) c).height = max b.height c.height + 1 := by
    simp only [height, eh]
  refine ⟨ha.fix _ hright (by omega) (by omega) (by omega), ?_⟩
  simp only [rotateRight, height, eh]

/-! ## One call of `tree_balance` -/

theorem sound_balance_right (p : Cell) {l r : Shape} (hl : Sound l) (hr : Sound r) (hd : r.height = l.height + 2)
    (hlt : r.height < 250) : Sound (balance (node p l r)) ∧
      ((balance (node p l r)).height = r.height + 1 ∨ (balance (node p l r)).height = r.height) := by
  have hR : factor l r = 2 := by
    rw [factor_eq hl.heights hr.heights]
    omega
  simp only [balance]
  rw [if_pos hR]
  -- the right subtree is two higher, so it has a root
  cases r with
  | nil => simp at hd
  | node c b d =>
    obtain ⟨b1, b2, bb, bd⟩ := hr.balanced
    have hsb : Sound b := hr.left
    have hsd : Sound d := hr.right
    have hf : rootFactor (node c b d) = (d.height : ℤ) - (b.height : ℤ) := factor_eq hsb.heights hsd.heights
    simp only [height] at hd hlt ⊢
    by_cases hneg : rootFactor (node c b d) < 0
    · rw [if_pos hneg]
      cases b with
      | nil => simp at hf; omega
      | node e b' b'' =>
        obtain ⟨e1, e2, _, _⟩ := hsb.balanced
        simp only [height] at b1 b2 hd hf hlt ⊢
        -- the double rotation, with the inner one written out
        simp only [rotateRight]
        have eh : (setParent (some c.addr) b'').height = b''.height := height_setParent _ _
        have hs := (hsb.right.setParent (p := some c.addr)).fix { c with parent := some e.addr } hsd
          (by omega) (by omega) (by omega)
        have hsh : (node (fixHeight { c with parent := some e.addr } (setParent (some c.addr) b'') d)
            (setParent (some c.addr) b'') d).height = max b''.height d.height + 1 := by
          simp only [height, eh]
        obtain ⟨hS, hH⟩ := sound_rotateLeft (fixHeight p l (node c (node e b' b'') d))
          (fixHeight { e with parent := c.parent } b'
            (node (fixHeight { c with parent := some e.addr } (setParent (some c.addr) b'') d)
              (setParent (some c.addr) b'') d))
          hl hsb.left hs (by omega) (by omega) (by omega) (by omega) (by omega)
        refine ⟨hS, .inr ?_⟩
        rw [hH, hsh]
        omega
    · rw [if_neg hneg]
      obtain ⟨hS, hH⟩ := sound_rotateLeft (fixHeight p l (node c b d)) c hl hsb hsd
        (by omega) (by omega) (by omega) (by omega) (by omega)
      refine ⟨hS, ?_⟩
      rw [hH]
      omega

theorem sound_balance_left (p : Cell) {l r : Shape} (hl : Sound l) (hr : Sound r) (hd : l.height = r.height + 2)
    (hlt : l.height < 250) : Sound (balance (node p l r)) ∧
      ((balance (node p l r)).height = l.height + 1 ∨ (balance (node p l r)).height = l.height) := by
  have hL : factor l r = -2 := by
    rw [factor_eq hl.heights hr.heights]
    omega
  have hR : factor l r ≠ 2 := by omega
  simp only [balance]
  rw [if_neg hR, if_pos hL]
  cases l with
  | nil => simp at hd
  | node c a b =>
    obtain ⟨b1, b2, ba, bb⟩ := hl.balanced
    have hsa : Sound a := hl.left
    have hsb : Sound b := hl.right
    have hf : rootFactor (node c a b) = (b.height : ℤ) - (a.height : ℤ) := factor_eq hsa.heights hsb.heights
    simp only [height] at hd hlt ⊢
    by_cases hpos : rootFactor (node c a b) > 0
    · rw [if_pos hpos]
      cases b with
      | nil => simp at hf; omega
      | node e b' b'' =>
        obtain ⟨e1, e2, _, _⟩ := hsb.balanced
        simp only [height] at b1 b2 hd hf hlt ⊢
        simp only [rotateLeft]
        have eh : (setParent (some c.addr) b').height = b'.height := height_setParent _ _
        have hs := hsa.fix { c with parent := some e.addr } (hsb.left.setParent (p := some c.addr))
          (by omega) (by omega) (by omega)
        have hsh : (node (fixHeight { c with parent := some e.addr } a (setParent (some c.addr) b'))
            a (setParent (some c.addr) b')).height = max a.height b'.height + 1 := by
          simp only [height, eh]
        obtain ⟨hS, hH⟩ := sound_rotateRight (fixHeight p (node c a (node e b' b'')) r)
          (fixHeight { e with parent := none }
            (node (fixHeight { c with parent := some e.addr } a (setParent (some c.addr) b')) a
              (setParent (some c.addr) b')) b'')
          hs hsb.right hr (by omega) (by omega) (by omega) (by omega) (by omega)
        refine ⟨hS, .inr ?_⟩
        rw [hH, hsh]
        omega
    · rw [if_neg hpos]
      obtain ⟨hS, hH⟩ := sound_rotateRight (fixHeight p (node c a b) r) c hsa hsb hr
        (by omega) (by omega) (by omega) (by omega) (by omega)
      refine ⟨hS, ?_⟩
      rw [hH]
      omega

/-- Over two sound subtrees whose heights differ by at most two, `tree_balance` gives a sound
tree. It keeps the height the node had, or lowers it by one when it had to rotate. -/
theorem sound_balance (p : Cell) {l r : Shape} (hl : Sound l) (hr : Sound r)
    (h1 : l.height ≤ r.height + 2) (h2 : r.height ≤ l.height + 2)
    (hlt : max l.height r.height < 250) :
    Sound (balance (node p l r)) ∧
      ((balance (node p l r)).height = max l.height r.height + 1 ∨
        ((balance (node p l r)).height = max l.height r.height ∧
          (l.height = r.height + 2 ∨ r.height = l.height + 2))) := by
  have hfactor : factor l r = (r.height : ℤ) - (l.height : ℤ) := factor_eq hl.heights hr.heights
  by_cases hright : r.height = l.height + 2
  · obtain ⟨hS, hH⟩ := sound_balance_right p hl hr hright (by omega)
    exact ⟨hS, by omega⟩
  · by_cases hleft : l.height = r.height + 2
    · obtain ⟨hS, hH⟩ := sound_balance_left p hl hr hleft (by omega)
      exact ⟨hS, by omega⟩
    · simp only [balance]
      rw [if_neg (by omega), if_neg (by omega)]
      exact ⟨hl.fix p hr (by omega) (by omega) (by omega), .inl rfl⟩

/-! ## The operations -/

/-- Insertion keeps a tree sound and raises it by at most one. -/
theorem sound_insert (key : ℤ) (data host n : UInt64) {t : Shape} (ht : Sound t) (hlt : t.height < 200) :
    Sound (insert key data host n t) ∧
      (t.height ≤ (insert key data host n t).height ∧ (insert key data host n t).height ≤ t.height + 1) := by
  induction t with
  | nil =>
    have h1 : (1 : UInt8).toNat = max (0 : ℕ) 0 + 1 := rfl
    exact ⟨Sound.nil.node Sound.nil (Nat.le_succ 0) (Nat.le_succ 0) h1, by simp [insert]⟩
  | node c l r ihl ihr =>
    obtain ⟨b1, b2, _, _⟩ := ht.balanced
    simp only [height] at hlt ⊢
    simp only [insert]
    split
    · obtain ⟨hS, hlo, hhi⟩ := ihl ht.left (by omega)
      obtain ⟨hB, hH⟩ := sound_balance c hS ht.right (by omega) (by omega) (by omega)
      exact ⟨hB, by omega⟩
    · obtain ⟨hS, hlo, hhi⟩ := ihr ht.right (by omega)
      obtain ⟨hB, hH⟩ := sound_balance c ht.left hS (by omega) (by omega) (by omega)
      exact ⟨hB, by omega⟩

theorem sound_removeMin (c : Cell) {l r : Shape} (ht : Sound (node c l r))
    (hlt : (node c l r).height < 200) :
    Sound (removeMin c r l) ∧
      ((removeMin c r l).height ≤ (node c l r).height ∧ (node c l r).height ≤ (removeMin c r l).height + 1) := by
  induction l generalizing c r with
  | nil =>
    obtain ⟨_, b2, _, _⟩ := ht.balanced
    simp only [height] at b2 ⊢
    exact ⟨ht.right, by simp only [removeMin]; omega⟩
  | node d l' r' ih _ =>
    obtain ⟨b1, b2, _, _⟩ := ht.balanced
    have hd : (node c (node d l' r') r).height = max (node d l' r').height r.height + 1 := rfl
    obtain ⟨hS, hlo, hhi⟩ := ih d ht.left (by omega)
    rw [removeMin]
    obtain ⟨hB, hH⟩ := sound_balance c hS ht.right (by omega) (by omega) (by omega)
    exact ⟨hB, by omega⟩

theorem sound_splice (parent : Option UInt64) (c : Cell) {l r : Shape} (ht : Sound (node c l r))
    (hlt : (node c l r).height < 200) :
    Sound (splice parent l r) ∧
      ((splice parent l r).height ≤ (node c l r).height ∧ (node c l r).height ≤ (splice parent l r).height + 1) := by
  obtain ⟨b1, b2, _, _⟩ := ht.balanced
  have hc : (node c l r).height = max l.height r.height + 1 := rfl
  cases r with
  | nil =>
    refine ⟨ht.left.setParent, ?_⟩
    simp only [splice, height_setParent] at *
    simp only [height] at *
    omega
  | node d l' r' =>
    obtain ⟨hS, hlo, hhi⟩ := sound_removeMin d ht.right (by omega)
    have e1 := height_setParent (some (minCell d l').addr) l
    have e2 := height_setParent (some (minCell d l').addr) (removeMin d r' l')
    obtain ⟨hB, hH⟩ := sound_balance { minCell d l' with parent := parent }
      (ht.left.setParent (p := some (minCell d l').addr)) (hS.setParent (p := some (minCell d l').addr))
      (by omega) (by omega) (by omega)
    have es : splice parent l (node d l' r') = balance (node { minCell d l' with parent := parent }
      (setParent (some (minCell d l').addr) l) (setParent (some (minCell d l').addr) (removeMin d r' l'))) := rfl
    rw [es]
    exact ⟨hB, by omega⟩

/-- Removal keeps a tree sound and lowers it by at most one. -/
theorem sound_remove (key : ℤ) {t : Shape} (ht : Sound t) (hlt : t.height < 200) :
    Sound (remove key t) ∧
      ((remove key t).height ≤ t.height ∧ t.height ≤ (remove key t).height + 1) := by
  induction t with
  | nil => exact ⟨ht, by simp [remove]⟩
  | node c l r ihl ihr =>
    obtain ⟨b1, b2, _, _⟩ := ht.balanced
    have hc : (node c l r).height = max l.height r.height + 1 := rfl
    simp only [remove]
    split
    · obtain ⟨hS, hlo, hhi⟩ := ihl ht.left (by omega)
      obtain ⟨hB, hH⟩ := sound_balance c hS ht.right (by omega) (by omega) (by omega)
      exact ⟨hB, by omega⟩
    · split
      · obtain ⟨hS, hlo, hhi⟩ := ihr ht.right (by omega)
        obtain ⟨hB, hH⟩ := sound_balance c ht.left hS (by omega) (by omega) (by omega)
        exact ⟨hB, by omega⟩
      · exact sound_splice c.parent c ht hlt

end Chats.Avl.Shape
