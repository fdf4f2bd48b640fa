import Chats.Common.AvlLinks
import Chats.Common.AvlWalk

/-! # The walk over incomplete parent links

`avl_tree_next` where parent links may be `NULL` or not set but name no wrong node: unless it reads a link that was
never set it gives the successor or stops early, so that a walk comes by the nodes in order up to some node. -/
namespace Chats.Avl
set_option autoImplicit false

open Lib Lib.Store BinaryTree Shape

theorem NoFalseParent.of_plug {z : List (Frame Cell)} {t : Shape} (h : NoFalseParent 0 (plug z t)) :
    NoFalseParent (parentAt z) t := by
  induction z generalizing t with
  | nil => exact h
  | cons f z ih =>
    have hf := ih h
    obtain ⟨s, c, u⟩ := f
    cases s with
    | left => exact hf.2.1
    | right => exact hf.2.2

/-- The nodes of the store form the tree `t`, and no parent link names a wrong node. -/
structure Named (m : Nodes) (t : Shape) : Prop where
  holds : Holds m t
  parents : NoFalseParent 0 t

/-- Some parent link of the tree was never set. -/
def Unset (t : Shape) : Prop := ∃ c ∈ inorder t, c.parent = none

theorem unset_plug {z : List (Frame Cell)} {c : Cell} {l r : Shape} (h : c.parent = none) :
    Unset (plug z (node c l r)) := by
  refine ⟨c, ?_, h⟩
  rw [inorder_plug, inorder_node]
  simp

section walk
variable {m : Nodes} {z : List (Frame Cell)} {c : Cell} {l r : Shape}

theorem Named.cell (h : Named m (plug z (node c l r))) :
    c.addr ≠ 0 ∧ m c.addr = some (c.node (root l) (root r)) ∧ UnsetNullOr (parentAt z) c.parent := by
  have hl : LinkedAs m (node c l r) := h.holds.linked.of_plug
  exact ⟨hl.1, hl.2.1, h.parents.of_plug.1⟩

/-- A parent link is not set, is `NULL`, or names the frame above, which `tree_is_left` and `tree_is_right` then tell
apart. -/
theorem Named.isChild (s : Side) (h : Named m (plug z (node c l r))) :
    (c.parent = none ∧ treeIsChild (child s) m c.addr = none) ∨
      (c.parent = some 0 ∧ treeIsChild (child s) m c.addr = some false) ∨
      ∃ f z', z = f :: z' ∧ c.parent = some f.value.addr ∧
        treeIsChild (child s) m c.addr = some (decide (f.side = s)) := by
  obtain ⟨h0, hc, hp⟩ := h.cell
  cases hparent : c.parent with
  | none =>
    have hup : (c.node (root l) (root r)).parent = none := hparent
    refine .inl ⟨rfl, ?_⟩
    simp only [treeIsChild, h0, if_false, hc, Option.bind_eq_bind, Option.bind_some, hup, Option.bind_none]
  | some y =>
    have hup : (c.node (root l) (root r)).parent = some y := hparent
    refine .inr ?_
    by_cases hy : y = 0
    · subst hy
      refine .inl ⟨rfl, ?_⟩
      simp only [treeIsChild, h0, if_false, hc, Option.bind_eq_bind, Option.bind_some, hup, if_true]
      rfl
    · rw [hparent] at hp
      have hat : y = parentAt z := hp.of_set.resolve_left hy
      cases z with
      | nil => exact absurd hat hy
      | cons f z =>
        obtain ⟨l', r', hf, hnear, hfar⟩ := fill_eq f (node c l r)
        have hh : Holds m (f.fill (node c l r)) := Holds.of_plug h.holds
        have hab : Named m (plug z (node f.value l' r')) := hf ▸ h
        obtain ⟨hu0, hu, -⟩ := hab.cell
        refine .inr ⟨f, z, rfl, congrArg some hat, ?_⟩
        rw [hat] at hup
        have hup' : (c.node (root l) (root r)).parent = some f.value.addr := hup
        simp only [treeIsChild, h0, if_false, hc, Option.bind_eq_bind, Option.bind_some, hup', hu0, hu]
        by_cases hs : f.side = s
        · subst hs
          rw [hnear]
          exact congrArg some (by simp [root, rootPtr])
        · obtain rfl : s = f.side.other := Side.eq_other_of_ne (Ne.symm hs)
          rw [hfar]
          exact congrArg some (by simp [sibling_ne hh, hs])

/-! ### One step of the climb -/

section climb
variable {is : Nodes → UInt64 → Option Bool} {n up : UInt64} {e : AvlTreeNode} (h0 : n ≠ 0) (d : ℕ)
include h0

theorem climb_unset (his : is m n = none) : climb is (d + 1) m n = none := by
  simp only [climb, h0, if_false, his, Option.bind_eq_bind, Option.bind_none]

theorem climb_stops (his : is m n = some true) : climb is (d + 1) m n = some n := by
  simp only [climb, h0, if_false, his, Option.bind_eq_bind, Option.bind_some, if_true]
  rfl

theorem climb_up (his : is m n = some false) (he : m n = some e) (hup : e.parent = some up) :
    climb is (d + 1) m n = climb is d m up := by
  simp only [climb, h0, if_false, his, he, hup, Option.bind_eq_bind, Option.bind_some, Bool.false_eq_true]

theorem climb_runs_out (his : is m n = some false) (he : m n = some e) (hup : e.parent = some 0) :
    climb is (d + 2) m n = some 0 := climb_up h0 (d + 1) his he hup

end climb

/-- A climb that reads no link that was never set runs out, or stops below the nearest node above on side `s`. -/
theorem Named.climbs (s : Side) (h : Named m (plug z (node c l r))) : ∀ d : ℕ, z.length + 1 < d →
    (Unset (plug z (node c l r)) ∧ climb (treeIsChild (child s)) d m c.addr = none) ∨
      climb (treeIsChild (child s)) d m c.addr = some 0 ∨
      ∃ f z' b l' r', plug z (node c l r) = plug (f :: z') (node b l' r') ∧ f.side = s ∧ above s z = some f.value ∧
        b.parent = some f.value.addr ∧ climb (treeIsChild (child s)) d m c.addr = some b.addr := by
  induction z generalizing c l r with
  | nil =>
    intro d hd
    obtain ⟨d, rfl⟩ : ∃ e, d = e + 2 := ⟨d - 2, by simp only [List.length_nil] at hd; omega⟩
    obtain ⟨h0, hc, -⟩ := h.cell
    rcases h.isChild s with ⟨hp, his⟩ | ⟨hp, his⟩ | ⟨f, z', hz, -, -⟩
    · exact .inl ⟨unset_plug hp, climb_unset h0 (d + 1) his⟩
    · exact .inr (.inl (climb_runs_out h0 d his hc hp))
    · cases hz
  | cons f z ih =>
    intro d hd
    rw [List.length_cons] at hd
    obtain ⟨d, rfl⟩ : ∃ e, d = e + 2 := ⟨d - 2, by omega⟩
    obtain ⟨h0, hc, -⟩ := h.cell
    rcases h.isChild s with ⟨hp, his⟩ | ⟨hp, his⟩ | ⟨f', z', hz, hp, his⟩
    · exact .inl ⟨unset_plug hp, climb_unset h0 (d + 1) his⟩
    · exact .inr (.inl (climb_runs_out h0 d his hc hp))
    · obtain ⟨rfl, rfl⟩ := List.cons.inj hz
      by_cases hs : f.side = s
      · subst hs
        rw [decide_eq_true rfl] at his
        exact .inr (.inr ⟨f, z, c, l, r, rfl, rfl, above_cons_self f z, hp, climb_stops h0 (d + 1) his⟩)
      · obtain ⟨l', r', hf, -⟩ := fill_eq f (node c l r)
        rw [decide_eq_false hs] at his
        have e : plug (f :: z) (node c l r) = plug z (node f.value l' r') := by rw [plug_cons, hf]
        rw [e] at h ⊢
        rw [climb_up h0 (d + 1) his hc hp, above_cons_of_ne hs]
        exact ih h (d + 1) (by omega)

theorem Named.length_lt (h : Named m (plug z (node c l r))) : z.length + 1 < depth := by
  have hp := length_add_numNodes_le z (node c l r)
  have ht := h.holds.numNodes_lt
  rw [numNodes] at hp
  omega

/-- What may come of a step, where `x` would be right: it gives `x` or `NULL`, or it reads a parent link that was
never set, and nothing is said of where it goes then. -/
def StepsTo (t : Shape) (x : UInt64) (p : Option UInt64) : Prop :=
  (p = none ∧ Unset t) ∨ ∃ y, p = some y ∧ (y = 0 ∨ y = x)

theorem stepsTo_some (t : Shape) {x y : UInt64} (h : y = 0 ∨ y = x) : StepsTo t x (some y) := .inr ⟨y, rfl, h⟩

theorem stepsTo_none {t : Shape} (h : Unset t) (x : UInt64) : StepsTo t x none := .inl ⟨rfl, h⟩

theorem Named.neighbour_up (s : Side) (extreme : Nodes → UInt64 → Option UInt64) (h : Named m (plug z (node c l r)))
    (hchild : child s.other (c.node (root l) (root r)) = 0) :
    StepsTo (plug z (node c l r)) ((above s z).elim 0 Cell.addr)
      (neighbour (child s.other) (treeIsChild (child s)) (treeIsChild (child s.other)) extreme m c.addr) := by
  obtain ⟨h0, hc, -⟩ := h.cell
  rcases h.isChild s with ⟨hp, his⟩ | ⟨hp, his⟩ | ⟨f, z', rfl, hp, his⟩
  · have e :
        neighbour (child s.other) (treeIsChild (child s)) (treeIsChild (child s.other)) extreme m c.addr = none := by
      simp only [neighbour, h0, if_false, hc, hchild, Option.bind_eq_bind, Option.bind_some, if_true, his,
        Option.bind_none]
    rw [e]
    exact stepsTo_none (unset_plug hp) _
  · have hup : (c.node (root l) (root r)).parent = some 0 := hp
    have e :
        neighbour (child s.other) (treeIsChild (child s)) (treeIsChild (child s.other)) extreme m c.addr = some 0 := by
      simp only [neighbour, h0, if_false, hc, hchild, Option.bind_eq_bind, Option.bind_some, if_true, his, hup,
        climb_null, Bool.false_eq_true]
      rfl
    rw [e]
    exact stepsTo_some _ (.inl rfl)
  · have hup : (c.node (root l) (root r)).parent = some f.value.addr := hp
    simp only [neighbour, h0, if_false, hc, hchild, Option.bind_eq_bind, Option.bind_some, if_true, his, hup]
    by_cases hs : f.side = s
    · subst hs
      simp only [decide_true, if_true, above_cons_self]
      exact stepsTo_some _ (.inr rfl)
    · obtain ⟨l', r', hf, -⟩ := fill_eq f (node c l r)
      have e : plug (f :: z') (node c l r) = plug z' (node f.value l' r') := by rw [plug_cons, hf]
      rw [e] at h ⊢
      simp only [hs, decide_false, Bool.false_eq_true, if_false, above_cons_of_ne hs]
      rcases h.climbs s depth h.length_lt with ⟨hunset, hcl⟩ | hcl | ⟨g, z₁, b, lb, rb, hpl, hg, hab, hbp, hcl⟩
      · rw [hcl]
        exact stepsTo_none hunset _
      · rw [hcl]
        exact stepsTo_some _ (.inl rfl)
      · rw [hpl] at h
        obtain ⟨hb0, hb, -⟩ := h.cell
        have hbup : (b.node (root lb) (root rb)).parent = some g.value.addr := hbp
        have hfar : treeIsChild (child s.other) m b.addr = some false := by
          rcases h.isChild s.other with ⟨hp', -⟩ | ⟨-, his'⟩ | ⟨g', z₂, hz, -, his'⟩
          · cases hbp.symm.trans hp'
          · exact his'
          · obtain ⟨rfl, rfl⟩ := List.cons.inj hz
            rw [his', hg]
            exact congrArg some (decide_eq_false (Side.other_ne s).symm)
        rw [hcl, hab]
        simp only [Option.bind_some, hb0, if_false, hfar, Bool.false_eq_true, hb, hbup]
        exact stepsTo_some _ (.inr rfl)

theorem Named.next_at (h : Named m (plug z (node c l r))) :
    StepsTo (plug z (node c l r)) ((addrs r ++ (after z).map Cell.addr).headD 0) (avlTreeNext m c.addr) := by
  cases r with
  | nil =>
    rw [addrs_nil, List.nil_append, headD_map_addr, head_after]
    exact h.neighbour_up .left (avlTreeMin depth) rfl
  | node d l' r' =>
    have hr : Holds m (node d l' r') := h.holds.of_plug.right
    obtain ⟨h0, hc, -⟩ := h.cell
    have hd : child Side.left.other (c.node (root l) (root (node d l' r'))) = d.addr := rfl
    have e : avlTreeNext m c.addr = avlTreeMin depth m (root (node d l' r')) := by
      unfold avlTreeNext neighbour
      simp only [h0, if_false, hc, Option.bind_eq_bind, Option.bind_some]
      exact if_neg hr.linked.1
    rw [e, avlTreeMin_eq hr (by simp), addrs_removeMin]
    exact stepsTo_some _ (.inr rfl)

end walk

theorem Named.next {m : Nodes} {t : Shape} (h : Named m t) {a b : List UInt64} {x : UInt64}
    (hx : addrs t = a ++ x :: b) :
    StepsTo t (b.headD 0) (avlTreeNext m x) := by
  obtain ⟨z, c, l, r, rfl, rfl, -, rfl⟩ := position_of_addrs hx
  exact h.next_at

end Chats.Avl
