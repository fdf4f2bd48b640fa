import Chats.Common.AvlParents
import Chats.Lib.Zipper

/-! # The walk along an AVL tree

`avl_tree_next` and `avl_tree_prev` on any tree whose parent links agree with its child links.
The walk forwards is the in-order sequence. The walk backwards is not: where it has to go down
it calls `avl_tree_max`, and that function returns `NULL` for every tree. -/
namespace Chats.Avl
set_option autoImplicit false

open Lib Lib.Store BinaryTree Shape

def child : Side → AvlTreeNode → UInt64
  | .left => AvlTreeNode.left
  | .right => AvlTreeNode.right

/-- The nodes of the store form the tree `t`, and their parents are those of `t`. -/
structure Agrees (m : Nodes) (t : Shape) : Prop where
  holds : Holds m t
  parents : ParentsAgree (some 0) t

/-! ## Positions -/

def parentAt : List (Frame Cell) → UInt64
  | [] => 0
  | f :: _ => f.value.addr

theorem ParentsAgree.of_fill {p : Option UInt64} {f : Frame Cell} {t : Shape} (h : ParentsAgree p (f.fill t)) :
    ParentsAgree (some f.value.addr) t := by
  obtain ⟨s, c, u⟩ := f
  cases s with
  | left => exact h.2.1
  | right => exact h.2.2

theorem ParentsAgree.of_plug {z : List (Frame Cell)} {t : Shape} (h : ParentsAgree (some 0) (plug z t)) :
    ParentsAgree (some (parentAt z)) t := by
  induction z generalizing t with
  | nil => exact h
  | cons f z ih => exact (ih h).of_fill

theorem Holds.of_plug {m : Nodes} {z : List (Frame Cell)} {t : Shape} (h : Holds m (plug z t)) : Holds m t := by
  refine ⟨h.linked.of_plug, ?_⟩
  have hn := h.nodup
  rw [← map_addr, inorder_plug, List.map_append, List.map_append, map_addr] at hn
  exact hn.of_append_left.of_append_right

theorem Holds.numNodes_lt {m : Nodes} {t : Shape} (h : Holds m t) : t.numNodes < depth := by
  rw [← addrs_length]
  exact words_length_lt h.nodup (LinkedAs.zero_notMem h.linked)

/-- What the store holds at a position. -/
theorem Agrees.cell {m : Nodes} {z : List (Frame Cell)} {c : Cell} {l r : Shape}
    (h : Agrees m (plug z (node c l r))) :
    c.addr ≠ 0 ∧ m c.addr = some (c.node (root l) (root r)) ∧ c.parent = some (parentAt z) := by
  have hl : LinkedAs m (node c l r) := h.holds.linked.of_plug
  exact ⟨hl.1, hl.2.1, h.parents.of_plug.1⟩

theorem Agrees.length_lt {m : Nodes} {z : List (Frame Cell)} {c : Cell} {l r : Shape}
    (h : Agrees m (plug z (node c l r))) : z.length + 1 < depth := by
  have hp := length_add_numNodes_le z (node c l r)
  have ht := h.holds.numNodes_lt
  rw [numNodes] at hp
  omega

/-- The node right above a position, and what its two child links hold. -/
theorem fill_eq (f : Frame Cell) (t : Shape) : ∃ l r, f.fill t = node f.value l r ∧
    child f.side (f.value.node (root l) (root r)) = root t ∧
    child f.side.other (f.value.node (root l) (root r)) = root f.sibling := by
  obtain ⟨s, c, u⟩ := f
  cases s with
  | left => exact ⟨t, u, rfl, rfl, rfl⟩
  | right => exact ⟨u, t, rfl, rfl, rfl⟩

theorem sibling_ne {m : Nodes} {f : Frame Cell} {c : Cell} {l r : Shape} (h : Holds m (f.fill (node c l r))) :
    root f.sibling ≠ c.addr := by
  have h0 : c.addr ≠ 0 := (Linked.of_fill h.linked).1
  obtain ⟨s, d, u⟩ := f
  cases u with
  | nil => exact h0.symm
  | node e l' r' =>
    have he : e.addr ∈ addrs (node e l' r') := by simp
    have hc : c.addr ∈ addrs (node c l r) := by simp
    intro hroot
    have ha : e.addr = c.addr := hroot
    rw [ha] at he
    cases s with
    | left => exact (nodup_node h.nodup).2.2.2.2 _ hc he
    | right => exact (nodup_node h.nodup).2.2.2.2 _ he hc

/-! ## Going up -/

theorem treeIsChild_top {m : Nodes} {c : Cell} {l r : Shape} (s : Side) (h : Agrees m (plug [] (node c l r))) :
    treeIsChild (child s) m c.addr = some false := by
  obtain ⟨h0, hc, hp⟩ := h.cell
  have hup : (c.node (root l) (root r)).parent = some 0 := hp
  simp only [treeIsChild, h0, if_false, hc, Option.bind_eq_bind, Option.bind_some, hup]
  rfl

theorem treeIsChild_below {m : Nodes} {f : Frame Cell} {z : List (Frame Cell)} {c : Cell} {l r : Shape} (s : Side)
    (h : Agrees m (plug (f :: z) (node c l r))) : treeIsChild (child s) m c.addr = some (decide (f.side = s)) := by
  obtain ⟨h0, hc, hp⟩ := h.cell
  obtain ⟨l', r', hf, hnear, hfar⟩ := fill_eq f (node c l r)
  have hh : Holds m (f.fill (node c l r)) := Holds.of_plug (z := z) h.holds
  have hup : (c.node (root l) (root r)).parent = some f.value.addr := hp
  have hab : Agrees m (plug z (node f.value l' r')) := hf ▸ h
  obtain ⟨hu0, hu, _⟩ := hab.cell
  simp only [treeIsChild, h0, if_false, hc, Option.bind_eq_bind, Option.bind_some, hup, hu0, hu]
  by_cases hs : f.side = s
  · subst hs
    rw [hnear]
    exact congrArg some (by simp [root, rootPtr])
  · obtain rfl : s = f.side.other := Side.eq_other_of_ne (Ne.symm hs)
    rw [hfar]
    exact congrArg some (by simp [sibling_ne hh, hs])

/-- The climb stops below the nearest node above on side `s`, or runs out at the root. -/
theorem climb_eq {m : Nodes} {z : List (Frame Cell)} {c : Cell} {l r : Shape} (s : Side)
    (h : Agrees m (plug z (node c l r))) : ∀ d : ℕ, z.length + 1 < d →
      (above s z = none ∧ climb (treeIsChild (child s)) d m c.addr = some 0) ∨
      ∃ f z' b l' r', plug z (node c l r) = plug (f :: z') (node b l' r') ∧ f.side = s ∧
        above s z = some f.value ∧ climb (treeIsChild (child s)) d m c.addr = some b.addr := by
  induction z generalizing c l r with
  | nil =>
    intro d hd
    obtain ⟨d, rfl⟩ : ∃ e, d = e + 2 := ⟨d - 2, by simp only [List.length_nil] at hd; omega⟩
    obtain ⟨h0, hc, hp⟩ := h.cell
    have hup : (c.node (root l) (root r)).parent = some 0 := hp
    refine .inl ⟨rfl, ?_⟩
    simp only [climb, h0, if_false, treeIsChild_top s h, hc, hup, Option.bind_eq_bind, Option.bind_some,
      Bool.false_eq_true, if_true]
  | cons f z ih =>
    intro d hd
    rw [List.length_cons] at hd
    obtain ⟨d, rfl⟩ : ∃ e, d = e + 1 := ⟨d - 1, by omega⟩
    obtain ⟨h0, hc, hp⟩ := h.cell
    by_cases hs : f.side = s
    · subst hs
      refine .inr ⟨f, z, c, l, r, rfl, rfl, above_cons_self f z, ?_⟩
      simp only [climb, h0, if_false, treeIsChild_below f.side h, Option.bind_eq_bind, Option.bind_some,
        decide_true, if_true]
      rfl
    · obtain ⟨l', r', hf, _⟩ := fill_eq f (node c l r)
      have hup : (c.node (root l) (root r)).parent = some f.value.addr := hp
      have hstep : climb (treeIsChild (child s)) (d + 1) m c.addr = climb (treeIsChild (child s)) d m f.value.addr := by
        simp only [climb, h0, if_false, treeIsChild_below s h, hs, decide_false, hc, hup, Option.bind_eq_bind,
          Option.bind_some, Bool.false_eq_true]
      have e : plug (f :: z) (node c l r) = plug z (node f.value l' r') := by rw [plug_cons, hf]
      rw [e] at h ⊢
      rw [hstep, above_cons_of_ne hs]
      exact ih h d (by omega)

theorem climb_null (is : Nodes → UInt64 → Option Bool) (m : Nodes) : climb is depth m 0 = some 0 := rfl

variable {m : Nodes} {z : List (Frame Cell)} {c : Cell} {l r : Shape}

/-- Without a subtree on the far side, the neighbour is the nearest node above on the near one. -/
theorem neighbour_up (s : Side) (extreme : Nodes → UInt64 → Option UInt64) (h : Agrees m (plug z (node c l r)))
    (hchild : child s.other (c.node (root l) (root r)) = 0) :
    neighbour (child s.other) (treeIsChild (child s)) (treeIsChild (child s.other)) extreme m c.addr =
      some ((above s z).elim 0 Cell.addr) := by
  obtain ⟨h0, hc, hp⟩ := h.cell
  have hup : (c.node (root l) (root r)).parent = some (parentAt z) := hp
  have hlen := h.length_lt
  simp only [neighbour, h0, if_false, hc, hchild, Option.bind_eq_bind, Option.bind_some, if_true, hup]
  cases z with
  | nil =>
    rw [treeIsChild_top s h]
    simp only [parentAt, climb_null, Option.bind_some, Bool.false_eq_true, if_false, if_true]
    rfl
  | cons f z =>
    rw [treeIsChild_below s h]
    by_cases hs : f.side = s
    · subst hs
      simp only [decide_true, Option.bind_some, if_true, above_cons_self]
      rfl
    · obtain ⟨l', r', hf, _⟩ := fill_eq f (node c l r)
      have hab : Agrees m (plug z (node f.value l' r')) := hf ▸ h
      simp only [hs, decide_false, Option.bind_some, Bool.false_eq_true, if_false, parentAt, above_cons_of_ne hs]
      rcases climb_eq s hab depth hab.length_lt with ⟨hn, hcl⟩ | ⟨g, z', b, lb, rb, hpl, hg, hab', hcl⟩
      · rw [hcl, hn]
        simp only [Option.bind_some, if_true]
        rfl
      · rw [hpl] at hab
        obtain ⟨hb0, hb, hbp⟩ := hab.cell
        have hbup : (b.node (root lb) (root rb)).parent = some g.value.addr := hbp
        have hside : ¬ g.side = s.other := by
          rw [hg]
          exact (Side.other_ne s).symm
        rw [hcl, hab']
        simp only [Option.bind_some, hb0, if_false, treeIsChild_below s.other hab, hside, decide_false,
          Bool.false_eq_true, hb, hbup]
        rfl

theorem neighbour_down (s : Side) (extreme : Nodes → UInt64 → Option UInt64) (h : Agrees m (plug z (node c l r)))
    (hchild : child s.other (c.node (root l) (root r)) ≠ 0) :
    neighbour (child s.other) (treeIsChild (child s)) (treeIsChild (child s.other)) extreme m c.addr =
      extreme m (child s.other (c.node (root l) (root r))) := by
  obtain ⟨h0, hc, _⟩ := h.cell
  simp only [neighbour, h0, if_false, hc, hchild, Option.bind_eq_bind, Option.bind_some]

/-! ## Forwards -/

theorem min_addr (c : Cell) (l r : Shape) : (minCell c l).addr = (addrs (node c l r)).headD 0 := by
  rw [addrs_removeMin]
  rfl

theorem avlTreeMin_eq {t : Shape} (h : Holds m t) (hne : t ≠ nil) :
    avlTreeMin depth m (root t) = some ((addrs t).headD 0) := by
  cases t with
  | nil => exact absurd rfl hne
  | node c l r =>
    have hd : (node c l r).height ≤ depth := (height_le_numNodes _).trans h.numNodes_lt.le
    rw [← min_addr]
    exact avlTreeMin_refines h.linked depth hd

theorem headD_map_addr (cs : List Cell) : (cs.map Cell.addr).headD 0 = cs.head?.elim 0 Cell.addr := by
  cases cs <;> rfl

theorem avlTreeNext_eq (h : Agrees m (plug z (node c l r))) :
    avlTreeNext m c.addr = some ((addrs r ++ (after z).map Cell.addr).headD 0) := by
  cases r with
  | nil =>
    have e : avlTreeNext m c.addr = some ((above .left z).elim 0 Cell.addr) := neighbour_up .left _ h rfl
    rw [e, addrs_nil, List.nil_append, headD_map_addr, head_after]
  | node d l' r' =>
    have hr : Holds m (node d l' r') := h.holds.of_plug.right
    have e : avlTreeNext m c.addr = avlTreeMin depth m (root (node d l' r')) :=
      neighbour_down .left _ h hr.linked.1
    rw [e, avlTreeMin_eq hr (by simp), addrs_removeMin]
    rfl

/-- Every place in the sequence of addresses is a position in the tree. -/
theorem position_of_addrs {t : Shape} {a b : List UInt64} {x : UInt64} (h : addrs t = a ++ x :: b) :
    ∃ z c l r, t = plug z (node c l r) ∧ x = c.addr ∧ a = (before z).map Cell.addr ++ addrs l ∧
      b = addrs r ++ (after z).map Cell.addr := by
  rw [← map_addr, List.map_eq_append_iff] at h
  obtain ⟨as, cs, ht, rfl, hcs⟩ := h
  obtain ⟨c, bs, rfl, rfl, rfl⟩ := List.map_eq_cons_iff.mp hcs
  obtain ⟨z, l, r, hp, rfl, rfl⟩ := position_of_inorder ht
  refine ⟨z, c, l, r, hp, rfl, ?_, ?_⟩
  · rw [List.map_append, map_addr]
  · rw [List.map_append, map_addr]

theorem avlTreeNext_successor {t : Shape} (h : Agrees m t) {a b : List UInt64} {x : UInt64}
    (hx : addrs t = a ++ x :: b) : avlTreeNext m x = some (b.headD 0) := by
  obtain ⟨z, c, l, r, rfl, rfl, _, rfl⟩ := position_of_addrs hx
  exact avlTreeNext_eq h

/-- The loop started at any place in the sequence comes by the rest of it. -/
theorem visits_rest {t : Shape} (h : Agrees m t) (b : List UInt64) : ∀ (a : List UInt64) (d : ℕ), addrs t = a ++ b →
    b.length < d → visits (avlTreeNext m) d (b.headD 0) = some b := by
  induction b with
  | nil =>
    intro a d _ hd
    obtain ⟨d, rfl⟩ : ∃ e, d = e + 1 := ⟨d - 1, by simp only [List.length_nil] at hd; omega⟩
    rfl
  | cons x b ih =>
    intro a d ht hd
    rw [List.length_cons] at hd
    obtain ⟨d, rfl⟩ : ∃ e, d = e + 1 := ⟨d - 1, by omega⟩
    have hx0 : x ≠ 0 := by
      rintro rfl
      exact LinkedAs.zero_notMem h.holds.linked (ht ▸ by simp)
    have hrest := ih (a ++ [x]) d (by rw [ht, List.append_assoc, List.singleton_append]) (by omega)
    simp only [visits, List.headD_cons, hx0, if_false, avlTreeNext_successor h ht, Option.bind_eq_bind,
      Option.bind_some, hrest]
    rfl

/-- `avl_tree_next` is the in-order successor at every node, and the loop from `avl_tree_min`
comes by every node once, in order. -/
theorem walk_in_order (m : Nodes) (t : Shape) (hh : Holds m t) (hp : ParentsAgree (some 0) t) :
    (∀ a x b, addrs t = a ++ x :: b → avlTreeNext m x = some (b.headD 0)) ∧ (addrs t).Nodup ∧
      (t ≠ nil → (do visits (avlTreeNext m) depth (← avlTreeMin depth m (root t))) = some (addrs t)) := by
  have h : Agrees m t := ⟨hh, hp⟩
  refine ⟨fun a x b hx => avlTreeNext_successor h hx, hh.nodup, ?_⟩
  intro hne
  have hlen : (addrs t).length < depth := by
    rw [addrs_length]
    exact hh.numNodes_lt
  rw [avlTreeMin_eq hh hne]
  exact visits_rest h (addrs t) [] depth rfl hlen

/-- A root with one node on each side, all links set. -/
def threeNodes : Nodes := fun x =>
  if x = 32 then some ⟨8, 16, 48, some 0, 2, 2, 0⟩
  else if x = 16 then some ⟨8, 0, 0, some 32, 1, 1, 0⟩
  else if x = 48 then some ⟨8, 0, 0, some 32, 1, 3, 0⟩
  else none

def threeShape : Shape :=
  node ⟨32, 8, some 0, 2, 2, 0⟩ (node ⟨16, 8, some 32, 1, 1, 0⟩ nil nil) (node ⟨48, 8, some 32, 1, 3, 0⟩ nil nil)

theorem holds_threeNodes : Holds threeNodes threeShape :=
  ⟨⟨by decide, rfl, ⟨by decide, rfl, trivial, trivial⟩, by decide, rfl, trivial, trivial⟩, by decide⟩

theorem parents_threeShape : ParentsAgree (some 0) threeShape :=
  ⟨rfl, ⟨rfl, trivial, trivial⟩, rfl, trivial, trivial⟩

theorem walk_three : avlTreeNext threeNodes 16 = some 32 ∧ avlTreeNext threeNodes 48 = some 0 ∧
    (do visits (avlTreeNext threeNodes) depth (← avlTreeMin depth threeNodes 32)) = some [16, 32, 48] := by
  obtain ⟨hnext, _, hloop⟩ := walk_in_order threeNodes threeShape holds_threeNodes parents_threeShape
  exact ⟨hnext [] 16 [32, 48] rfl, hnext [16, 32] 48 [] rfl, hloop (by decide)⟩

/-! ## Backwards -/

theorem avlTreeMax_eq {m : Nodes} {c : Cell} {l r : Shape} (h : LinkedAs m (node c l r)) :
    ∀ d : ℕ, (node c l r).height ≤ d → avlTreeMax d m c.addr = some 0 := by
  induction r generalizing c l with
  | nil =>
    intro d hd
    obtain ⟨d, rfl⟩ : ∃ e, d = e + 1 := ⟨d - 1, by simp only [height] at hd; omega⟩
    have hcell : m c.addr = some (c.node (root l) 0) := h.2.1
    simp only [avlTreeMax, hcell, Option.bind_eq_bind, Option.bind_some, Cell.node_right, ↓reduceIte]
    rfl
  | node e l' r' _ ih =>
    intro d hd
    simp only [height] at hd
    obtain ⟨d, rfl⟩ : ∃ e, d = e + 1 := ⟨d - 1, by omega⟩
    have hcell : m c.addr = some (c.node (root l) e.addr) := h.2.1
    have he0 : e.addr ≠ 0 := h.2.2.2.1
    simp only [avlTreeMax, hcell, Option.bind_eq_bind, Option.bind_some, Cell.node_right, he0, ↓reduceIte]
    exact ih h.2.2.2 d (by simp only [height]; omega)

theorem avlTreeMax_root {t : Shape} (h : Holds m t) (hne : t ≠ nil) : avlTreeMax depth m (root t) = some 0 := by
  cases t with
  | nil => exact absurd rfl hne
  | node c l r => exact avlTreeMax_eq h.linked depth ((height_le_numNodes _).trans h.numNodes_lt.le)

theorem getLastD_map_addr (cs : List Cell) : (cs.map Cell.addr).getLastD 0 = cs.getLast?.elim 0 Cell.addr := by
  rw [List.getLastD_eq_getLast?, List.getLast?_map]
  cases cs.getLast? <;> rfl

theorem avlTreePrev_up (h : Agrees m (plug z (node c nil r))) :
    avlTreePrev m c.addr = some (((before z).map Cell.addr).getLastD 0) := by
  have e : avlTreePrev m c.addr = some ((above .right z).elim 0 Cell.addr) := neighbour_up .right _ h rfl
  rw [e, getLastD_map_addr, getLast_before]

theorem avlTreePrev_down (h : Agrees m (plug z (node c l r))) (hl : l ≠ nil) : avlTreePrev m c.addr = some 0 := by
  have hh : Holds m l := h.holds.of_plug.left
  have h0 : root l ≠ 0 := fun h0 => hl (rootPtr_eq_zero hh.linked h0)
  have e : avlTreePrev m c.addr = avlTreeMax depth m (root l) := neighbour_down .right _ h h0
  rw [e, avlTreeMax_root hh hl]

theorem left_eq_zero_iff (h : Agrees m (plug z (node c l r))) :
    (m c.addr).map AvlTreeNode.left = some 0 ↔ l = nil := by
  obtain ⟨_, hc, _⟩ := h.cell
  have hl : LinkedAs m l := h.holds.of_plug.left.linked
  rw [hc, Option.map_some, Cell.node_left, Option.some.injEq]
  exact ⟨rootPtr_eq_zero hl, fun e => e ▸ rfl⟩

theorem right_eq_zero_iff (h : Agrees m (plug z (node c l r))) :
    (m c.addr).map AvlTreeNode.right = some 0 ↔ r = nil := by
  obtain ⟨_, hc, _⟩ := h.cell
  have hr : LinkedAs m r := h.holds.of_plug.right.linked
  rw [hc, Option.map_some, Cell.node_right, Option.some.injEq]
  exact ⟨rootPtr_eq_zero hr, fun e => e ▸ rfl⟩

theorem last_ne_zero {t : Shape} (h : Holds m t) (hne : t ≠ nil) : (addrs t).getLastD 0 ≠ 0 := by
  have ha : addrs t ≠ [] := by
    cases t with
    | nil => exact absurd rfl hne
    | node c l r => simp
  intro e
  rw [List.getLastD_eq_getLast?, List.getLast?_eq_some_getLast ha] at e
  exact LinkedAs.zero_notMem h.linked (e ▸ List.getLast_mem ha)

theorem avlTreePrev_iff {t : Shape} (h : Agrees m t) {a b : List UInt64} {x : UInt64} (hx : addrs t = a ++ x :: b) :
    avlTreePrev m x = some (a.getLastD 0) ↔ (m x).map AvlTreeNode.left = some 0 := by
  obtain ⟨z, c, l, r, rfl, rfl, rfl, _⟩ := position_of_addrs hx
  rw [left_eq_zero_iff h]
  constructor
  · intro hp
    by_contra hl
    have hh : Holds m l := h.holds.of_plug.left
    have hlast := last_ne_zero hh hl
    rw [avlTreePrev_down h hl, Option.some.injEq] at hp
    rw [List.getLastD_eq_getLast?] at hlast hp
    rw [List.getLast?_append] at hp
    cases e : (addrs l).getLast? with
    | none => exact hlast (by rw [e]; rfl)
    | some y =>
      rw [e] at hp hlast
      exact hlast hp.symm
  · rintro rfl
    rw [avlTreePrev_up h, addrs_nil, List.append_nil]

/-- Of two neighbours one is below the other: the second has nothing to its left exactly when
the first has something to its right. -/
theorem left_of_next {t : Shape} (h : Agrees m t) {a b : List UInt64} {x y : UInt64}
    (hx : addrs t = a ++ x :: y :: b) :
    (m y).map AvlTreeNode.left = some 0 ↔ (m x).map AvlTreeNode.right ≠ some 0 := by
  obtain ⟨z, c, l, r, rfl, rfl, _, hb⟩ := position_of_addrs hx
  rw [Ne, right_eq_zero_iff h]
  cases r with
  | nil =>
    rw [addrs_nil, List.nil_append] at hb
    obtain ⟨d, ds, hz, rfl, _⟩ := List.map_eq_cons_iff.mp hb.symm
    have hab : above .left z = some d := by rw [← head_after, hz]; rfl
    obtain ⟨f, z', t', hp, hs, rfl, ht'⟩ := plug_of_above hab (t := node c l nil) (by simp)
    obtain ⟨s, d, u⟩ := f
    obtain rfl : s = .left := hs
    rw [hp] at h
    simpa using fun e => ht' ((left_eq_zero_iff (z := z') (c := d) (r := u) h).mp e)
  | node d l' r' =>
    have hr : LinkedAs m (node d l' r') := h.holds.of_plug.right.linked
    rw [addrs_removeMin, List.cons_append, List.cons.injEq] at hb
    obtain ⟨_, w, hw⟩ := minCell_linked hr
    rw [hb.1, hw]
    simp

theorem avlTreePrev_next_iff {t : Shape} (h : Agrees m t) {x y : UInt64} (hx : x ∈ addrs t)
    (hy : avlTreeNext m x = some y) (hy0 : y ≠ 0) :
    avlTreePrev m y = some x ↔ (m x).map AvlTreeNode.right ≠ some 0 := by
  obtain ⟨a, b, ht⟩ := List.append_of_mem hx
  rw [avlTreeNext_successor h ht, Option.some.injEq] at hy
  cases b with
  | nil => exact absurd hy.symm hy0
  | cons w b =>
    obtain rfl : w = y := hy
    have ht' : addrs t = (a ++ [x]) ++ w :: b := by rw [ht, List.append_assoc, List.singleton_append]
    have hp := avlTreePrev_iff h ht'
    rw [List.getLastD_concat] at hp
    rw [hp, left_of_next h ht]

/-- `avl_tree_max` is `NULL` on every tree, so `avl_tree_prev` is right only where it goes up. -/
theorem walk_backwards (m : Nodes) (t : Shape) (hh : Holds m t) (hp : ParentsAgree (some 0) t) (hne : t ≠ nil) :
    (avlTreeMax depth m (root t) = some 0 ∧ avlTreeMax depth m (root t) ≠ some ((addrs t).getLastD 0)) ∧
      (∀ a x b, addrs t = a ++ x :: b →
        (avlTreePrev m x = some (a.getLastD 0) ↔ (m x).map AvlTreeNode.left = some 0)) ∧
      ∀ x ∈ addrs t, ∀ y, avlTreeNext m x = some y → y ≠ 0 →
        (avlTreePrev m y = some x ↔ (m x).map AvlTreeNode.right ≠ some 0) := by
  have h : Agrees m t := ⟨hh, hp⟩
  have hmax := avlTreeMax_root hh hne
  refine ⟨⟨hmax, ?_⟩, fun a x b hx => avlTreePrev_iff h hx, fun x hx y hy hy0 => avlTreePrev_next_iff h hx hy hy0⟩
  rw [hmax]
  exact fun e => last_ne_zero hh hne (Option.some.inj e).symm

theorem walk_backwards_three : avlTreeMax depth threeNodes 32 = some 0 ∧ avlTreePrev threeNodes 48 = some 32 := by
  obtain ⟨⟨hmax, _⟩, hprev, _⟩ := walk_backwards threeNodes threeShape holds_threeNodes parents_threeShape (by decide)
  exact ⟨hmax, (hprev [16, 32] 48 [] rfl).mpr rfl⟩

/-- On three nodes: no last node, no predecessor of the root, and no way back to the first. -/
theorem no_way_back : Holds threeNodes threeShape ∧ ParentsAgree (some 0) threeShape ∧
    addrs threeShape = [16, 32, 48] ∧ avlTreeMax depth threeNodes (root threeShape) ≠ some 48 ∧
    avlTreePrev threeNodes 32 ≠ some 16 ∧ avlTreeNext threeNodes 16 = some 32 ∧ avlTreePrev threeNodes 32 = some 0 := by
  have hmax : avlTreeMax depth threeNodes (root threeShape) = some 0 := rfl
  have hprev : avlTreePrev threeNodes 32 = some 0 := rfl
  refine ⟨holds_threeNodes, parents_threeShape, rfl, ?_, ?_, rfl, hprev⟩
  · rw [hmax]
    decide
  · rw [hprev]
    decide

end Chats.Avl
