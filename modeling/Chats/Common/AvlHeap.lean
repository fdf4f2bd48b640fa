import Chats.Common.AvlShape

/-! # The store model refines the tree model

Each function of `Chats.Common.AvlTree`, run on a store that holds a tree, succeeds, leaves the
store holding the result of the same function of `Chats.Common.AvlShape`, and touches no cell
outside that tree. -/
namespace Chats.Avl
set_option autoImplicit false

open Lib Lib.Store BinaryTree Shape

def Cell.node (c : Cell) (l r : UInt64) : AvlTreeNode where
  host := c.host
  left := l
  right := r
  parent := c.parent
  height := c.height
  key := c.key
  data := c.data

@[simp] theorem Cell.node_left (c : Cell) (l r : UInt64) : (c.node l r).left = l := rfl

@[simp] theorem Cell.node_right (c : Cell) (l r : UInt64) : (c.node l r).right = r := rfl

@[simp] theorem Cell.node_parent (c : Cell) (l r : UInt64) : (c.node l r).parent = c.parent := rfl

@[simp] theorem Cell.node_key (c : Cell) (l r : UInt64) : (c.node l r).key = c.key := rfl

abbrev LinkedAs (m : Nodes) (t : Shape) : Prop := Linked Cell.addr Cell.node m t

/-- The store holds the tree `t`, no two of whose nodes share an address. -/
structure Holds (m : Nodes) (t : Shape) : Prop where
  linked : LinkedAs m t
  nodup : (addrs t).Nodup

theorem holds_nil (m : Nodes) : Holds m nil := ⟨trivial, List.nodup_nil⟩

theorem LinkedAs.frame {m m' : Nodes} {t : Shape} {as : List UInt64} (h : LinkedAs m t)
    (hm : SameOff as m m') (hd : ∀ x ∈ addrs t, x ∉ as) : LinkedAs m' t := by
  rw [← map_addr] at hd
  exact Linked.frame h hm hd

theorem LinkedAs.zero_notMem {m : Nodes} {t : Shape} (h : LinkedAs m t) : 0 ∉ addrs t := by
  rw [← map_addr]
  exact Linked.zero_notMem h

theorem LinkedAs.isSome {m : Nodes} {t : Shape} (h : LinkedAs m t) : ∀ x ∈ addrs t, (m x).isSome := by
  rw [← map_addr]
  exact Linked.isSome h

/-- Where the addresses of a node stand apart from each other. -/
theorem nodup_node {c : Cell} {l r : Shape} (h : (addrs (node c l r)).Nodup) :
    (addrs l).Nodup ∧ (addrs r).Nodup ∧ c.addr ∉ addrs l ∧ c.addr ∉ addrs r ∧ (∀ x ∈ addrs l, x ∉ addrs r) := by
  rw [addrs_node, List.nodup_append, List.nodup_cons] at h
  obtain ⟨hl, ⟨hcr, hr⟩, hd⟩ := h
  refine ⟨hl, hr, fun hc => hd _ hc _ List.mem_cons_self rfl, hcr, ?_⟩
  intro x hx hxr
  exact hd x hx x (List.mem_cons_of_mem _ hxr) rfl

theorem Holds.left {m : Nodes} {c : Cell} {l r : Shape} (h : Holds m (node c l r)) : Holds m l :=
  ⟨h.linked.2.2.1, (nodup_node h.nodup).1⟩

theorem Holds.right {m : Nodes} {c : Cell} {l r : Shape} (h : Holds m (node c l r)) : Holds m r :=
  ⟨h.linked.2.2.2, (nodup_node h.nodup).2.1⟩

theorem Holds.frame {m m' : Nodes} {t : Shape} {as : List UInt64} (h : Holds m t)
    (hm : SameOff as m m') (hd : ∀ x ∈ addrs t, x ∉ as) : Holds m' t :=
  ⟨LinkedAs.frame h.linked hm hd, h.nodup⟩

theorem Holds.node {m : Nodes} {c : Cell} {l r : Shape} (hl : Holds m l) (hr : Holds m r)
    (h0 : c.addr ≠ 0) (hc : m c.addr = some (c.node (root l) (root r)))
    (hcl : c.addr ∉ addrs l) (hcr : c.addr ∉ addrs r) (hd : ∀ x ∈ addrs l, x ∉ addrs r) :
    Holds m (BinaryTree.node c l r) := by
  refine ⟨⟨h0, hc, hl.linked, hr.linked⟩, ?_⟩
  rw [addrs_node, List.nodup_append, List.nodup_cons]
  refine ⟨hl.nodup, ⟨hcr, hr.nodup⟩, ?_⟩
  rintro x hx y hy rfl
  rcases List.mem_cons.mp hy with rfl | hy
  · exact hcl hx
  · exact hd x hx hy

/-! ## Heights and parents -/

theorem nodeHeight_eq {m : Nodes} {t : Shape} (h : LinkedAs m t) : nodeHeight m (root t) = some (stored t) := by
  cases t with
  | nil => rfl
  | node c l r =>
    have e : root (node c l r) = c.addr := rfl
    rw [e, nodeHeight, if_neg h.1, h.2.1]
    rfl

theorem nodeFixHeight_eq {m : Nodes} {n : UInt64} {c : Cell} {l r : Shape}
    (hc : m n = some (c.node (root l) (root r))) (hl : LinkedAs m l) (hr : LinkedAs m r) :
    nodeFixHeight m n = some (Function.update m n (some ((fixHeight c l r).node (root l) (root r)))) := by
  have e1 := nodeHeight_eq hl
  have e2 := nodeHeight_eq hr
  have h1 : (c.node (root l) (root r)).left = root l := rfl
  have h2 : (c.node (root l) (root r)).right = root r := rfl
  simp only [nodeFixHeight, hc, Option.bind_eq_bind, Option.bind_some, h1, h2, e1, e2, modify_of_some _ hc]
  rfl

theorem nodeBalanceFactor_eq {m : Nodes} {n : UInt64} {c : Cell} {l r : Shape}
    (hc : m n = some (c.node (root l) (root r))) (hl : LinkedAs m l) (hr : LinkedAs m r) :
    nodeBalanceFactor m n = some (factor l r) := by
  have e1 := nodeHeight_eq hl
  have e2 := nodeHeight_eq hr
  have h1 : (c.node (root l) (root r)).left = root l := rfl
  have h2 : (c.node (root l) (root r)).right = root r := rfl
  simp only [nodeBalanceFactor, hc, Option.bind_eq_bind, Option.bind_some, h1, h2, e1, e2]
  rfl

theorem apart_one {x : UInt64} {t : Shape} (h : x ∉ addrs t) : ∀ z ∈ addrs t, z ∉ [x] := by
  intro z hz hm
  rw [List.mem_singleton] at hm
  exact h (hm ▸ hz)

theorem setParent_refines {m : Nodes} {t : Shape} (p : Option UInt64) (h : Holds m t) :
    ∃ m', setParent m (root t) p = some m' ∧ Holds m' (Shape.setParent p t) ∧ SameOff (addrs t) m m' := by
  cases t with
  | nil => exact ⟨m, rfl, h, SameOff.refl _ _⟩
  | node c l r =>
    obtain ⟨h0, hc, hl, hr⟩ := h.linked
    obtain ⟨_, _, hcl, hcr, hd⟩ := nodup_node h.nodup
    have hs : SameOff [c.addr] m (Function.update m c.addr (some ({ c with parent := p } |>.node (root l) (root r)))) :=
      SameOff.update _ (List.mem_singleton_self _)
    refine ⟨_, ?_, Holds.node (h.left.frame hs (apart_one hcl)) (h.right.frame hs (apart_one hcr)) h0
      (Function.update_self _ _ _) hcl hcr hd, hs.mono (by simp)⟩
    have e : root (node c l r) = c.addr := rfl
    rw [e, setParent, if_neg h0, modify_of_some _ hc]
    rfl

/-! ## Rotations -/

theorem apart_pair {x y : UInt64} {t : Shape} (h1 : x ∉ addrs t) (h2 : y ∉ addrs t) :
    ∀ z ∈ addrs t, z ∉ [x, y] := by
  intro z hz hm
  rcases List.mem_pair.mp hm with rfl | rfl
  · exact h1 hz
  · exact h2 hz

theorem apart_turn {x y : UInt64} {b t : Shape} (h1 : x ∉ addrs t) (h2 : y ∉ addrs t)
    (h3 : ∀ z ∈ addrs t, z ∉ addrs b) : ∀ z ∈ addrs t, z ∉ x :: y :: addrs b := by
  intro z hz hm
  rcases List.mem_cons.mp hm with rfl | hm
  · exact h1 hz
  · rcases List.mem_cons.mp hm with rfl | hm
    · exact h2 hz
    · exact h3 z hz hm

/-- The first assignments of a rotation: the edge between an upper and a lower node turned
around, and the subtree between them handed to the node that is now the lower one. -/
theorem turn_edge {m : Nodes} {x y : UInt64} {nx ny : AvlTreeNode} {b : Shape} (fx fy : AvlTreeNode → AvlTreeNode)
    (p : Option UInt64) (hxy : x ≠ y) (hx : m x = some nx) (hy : m y = some ny) (hb : Holds m b)
    (hxb : x ∉ addrs b) (hyb : y ∉ addrs b) :
    ∃ m₁ m₂ m₃, m.modify x fx = some m₁ ∧ m₁.modify y fy = some m₂ ∧ setParent m₂ (root b) p = some m₃ ∧
      m₃ x = some (fx nx) ∧ m₃ y = some (fy ny) ∧ Holds m₃ (Shape.setParent p b) ∧
      SameOff (x :: y :: addrs b) m m₃ := by
  have hy₁ : Function.update m x (some (fx nx)) y = some ny := by rw [Function.update_of_ne hxy.symm, hy]
  have s₂ : SameOff [x, y] m (Function.update (Function.update m x (some (fx nx))) y (some (fy ny))) :=
    (SameOff.update _ (by simp)).trans (SameOff.update _ (by simp))
  obtain ⟨m₃, h₃, hb₃, s₃⟩ := setParent_refines p (hb.frame s₂ (apart_pair hxb hyb))
  refine ⟨_, _, m₃, modify_of_some fx hx, modify_of_some fy hy₁, h₃, ?_, ?_, hb₃, ?_⟩
  · rw [s₃ _ hxb, Function.update_of_ne hxy, Function.update_self]
  · rw [s₃ _ hyb, Function.update_self]
  · exact (s₂.mono (by simp)).trans (s₃.mono (by simp))

/-- The assignments to the two parents and the new height of the lower node. -/
theorem settle_lower {m : Nodes} {low : Cell} {y : UInt64} {ny : AvlTreeNode} {l r : Shape}
    (pl pu : Option UInt64) (h0 : low.addr ≠ 0) (hly : low.addr ≠ y)
    (hlow : m low.addr = some (low.node (root l) (root r))) (hy : m y = some ny) (hl : Holds m l)
    (hr : Holds m r) (hll : low.addr ∉ addrs l) (hlr : low.addr ∉ addrs r) (hyl : y ∉ addrs l)
    (hyr : y ∉ addrs r) (hd : ∀ x ∈ addrs l, x ∉ addrs r) :
    ∃ m₁ m₂ m₃, m.modify low.addr (fun c => { c with parent := pl }) = some m₁ ∧
      m₁.modify y (fun c => { c with parent := pu }) = some m₂ ∧ nodeFixHeight m₂ low.addr = some m₃ ∧
      m₃ y = some { ny with parent := pu } ∧
      Holds m₃ (node (fixHeight { low with parent := pl } l r) l r) ∧ SameOff [low.addr, y] m m₃ := by
  set low' : Cell := { low with parent := pl }
  set m₁ := Function.update m low.addr (some (low'.node (root l) (root r))) with e₁
  set m₂ := Function.update m₁ y (some { ny with parent := pu }) with e₂
  have hy₁ : m₁ y = some ny := by rw [e₁, Function.update_of_ne hly.symm, hy]
  have s₂ : SameOff [low.addr, y] m m₂ := (SameOff.update _ (by simp)).trans (SameOff.update _ (by simp))
  have hlow₂ : m₂ low.addr = some (low'.node (root l) (root r)) := by
    rw [e₂, Function.update_of_ne hly, e₁, Function.update_self]
  have hl₂ := hl.frame s₂ (apart_pair hll hyl)
  have hr₂ := hr.frame s₂ (apart_pair hlr hyr)
  have hfix := nodeFixHeight_eq hlow₂ hl₂.linked hr₂.linked
  have s₃ : SameOff [low.addr, y] m₂ (Function.update m₂ low.addr
      (some ((fixHeight low' l r).node (root l) (root r)))) := SameOff.update _ (by simp)
  refine ⟨m₁, m₂, _, modify_of_some _ hlow, modify_of_some _ hy₁, hfix, ?_, ?_, s₂.trans s₃⟩
  · rw [Function.update_of_ne hly.symm, e₂, Function.update_self]
  · exact Holds.node (c := fixHeight low' l r) (hl₂.frame s₃ (apart_pair hll hyl))
      (hr₂.frame s₃ (apart_pair hlr hyr)) h0 (Function.update_self _ _ _) hll hlr hd

theorem treeRotateRight_refines {m : Nodes} {p q : Cell} {a b c : Shape}
    (h : Holds m (node p (node q a b) c)) :
    ∃ m', treeRotateRight m p.addr = some (m', q.addr) ∧
      Holds m' (rotateRight (node p (node q a b) c)) ∧ SameOff (addrs (node p (node q a b) c)) m m' := by
  have hp0 : p.addr ≠ 0 := h.linked.1
  have hp : m p.addr = some (p.node q.addr (root c)) := h.linked.2.1
  have hq : m q.addr = some (q.node (root a) (root b)) := h.left.linked.2.1
  obtain ⟨hql, _, hpl, hpc, hlc⟩ := nodup_node h.nodup
  obtain ⟨_, _, hqa, hqb, hab⟩ := nodup_node hql
  rw [mem_addrs_node, not_or, not_or] at hpl
  obtain ⟨hpa, hpq, hpb⟩ := hpl
  have hqc : q.addr ∉ addrs c := hlc _ (by simp)
  have hac : ∀ x ∈ addrs a, x ∉ addrs c := fun x hx => hlc x (by simp [hx])
  have hbc : ∀ x ∈ addrs b, x ∉ addrs c := fun x hx => hlc x (by simp [hx])
  obtain ⟨m₁, m₂, m₃, h₁, h₂, h₃, hp₃, hq₃, hb₃, s₃⟩ := turn_edge (fun c => { c with left := root b })
    (fun c => { c with right := p.addr }) (some p.addr) hpq hp hq h.left.right hpb hqb
  have ha₃ := h.left.left.frame s₃ (apart_turn hpa hqa hab)
  have hc₃ := h.right.frame s₃ (apart_turn hpc hqc fun x hx hxb => hbc x hxb hx)
  have hlow : m₃ p.addr = some (p.node (root (Shape.setParent (some p.addr) b)) (root c)) := by
    rw [hp₃, root_setParent]; rfl
  obtain ⟨m₄, m₅, m₆, h₄, h₅, h₆, hq₆, hlow₆, s₆⟩ := settle_lower (some q.addr) p.parent hp0 hpq hlow hq₃
    hb₃ hc₃ (by simpa using hpb) hpc (by simpa using hqb) hqc (by simpa using hbc)
  have ha₆ := ha₃.frame s₆ (apart_pair hpa hqa)
  set right := node (fixHeight { p with parent := some q.addr } (Shape.setParent (some p.addr) b) c)
    (Shape.setParent (some p.addr) b) c with er
  set q' : Cell := { q with parent := p.parent }
  have hup : m₆ q.addr = some (q'.node (root a) (root right)) := hq₆
  have h₇ := nodeFixHeight_eq hup ha₆.linked hlow₆.linked
  have s₇ : SameOff [q.addr] m₆
      (Function.update m₆ q.addr (some ((fixHeight q' a right).node (root a) (root right)))) :=
    SameOff.update _ (List.mem_singleton_self _)
  have hqr : q.addr ∉ addrs right := by simp [er, hqb, hqc, Ne.symm hpq]
  have har : ∀ x ∈ addrs a, x ∉ addrs right := by
    intro x hx hm
    rw [er, mem_addrs_node, addrs_setParent, addr_fixHeight] at hm
    rcases hm with hm | rfl | hm
    · exact hab x hx hm
    · exact hpa hx
    · exact hac x hx hm
  refine ⟨_, ?_, Holds.node (c := fixHeight q' a right) (ha₆.frame s₇ (apart_one hqa))
    (hlow₆.frame s₇ (apart_one hqr)) h.left.linked.1 (Function.update_self _ _ _) hqa hqr har, ?_⟩
  · simp only [treeRotateRight, hp, Option.bind_eq_bind, Option.bind_some, Cell.node_left, Cell.node_right,
      Cell.node_parent, hq, h₁, h₂, h₃, h₄, h₅, h₆, h₇]
    rfl
  · refine (s₃.mono ?_).trans ((s₆.mono ?_).trans (s₇.mono ?_))
    · intro x hx
      rw [mem_addrs_node, mem_addrs_node]
      simp only [List.mem_cons] at hx
      rcases hx with rfl | rfl | hx
      · exact .inr (.inl rfl)
      · exact .inl (.inr (.inl rfl))
      · exact .inl (.inr (.inr hx))
    · simp
    · simp

theorem treeRotateLeft_refines {m : Nodes} {q p : Cell} {a b c : Shape}
    (h : Holds m (node q a (node p b c))) :
    ∃ m', treeRotateLeft m q.addr = some (m', p.addr) ∧
      Holds m' (rotateLeft (node q a (node p b c))) ∧ SameOff (addrs (node q a (node p b c))) m m' := by
  have hq0 : q.addr ≠ 0 := h.linked.1
  have hq : m q.addr = some (q.node (root a) p.addr) := h.linked.2.1
  have hp : m p.addr = some (p.node (root b) (root c)) := h.right.linked.2.1
  obtain ⟨_, hpr, hqa, hqr, har⟩ := nodup_node h.nodup
  obtain ⟨_, _, hpb, hpc, hbc⟩ := nodup_node hpr
  rw [mem_addrs_node, not_or, not_or] at hqr
  obtain ⟨hqb, hqp, hqc⟩ := hqr
  have hpa : p.addr ∉ addrs a := fun hx => har _ hx (by simp)
  have hab : ∀ x ∈ addrs a, x ∉ addrs b := fun x hx hm => har x hx (by simp [hm])
  have hac : ∀ x ∈ addrs a, x ∉ addrs c := fun x hx hm => har x hx (by simp [hm])
  obtain ⟨m₁, m₂, m₃, h₁, h₂, h₃, hq₃, hp₃, hb₃, s₃⟩ := turn_edge (fun c => { c with right := root b })
    (fun c => { c with left := q.addr }) (some q.addr) hqp hq hp h.right.left hqb hpb
  have ha₃ := h.left.frame s₃ (apart_turn hqa hpa hab)
  have hc₃ := h.right.right.frame s₃ (apart_turn hqc hpc fun x hx hxb => hbc x hxb hx)
  have hlow : m₃ q.addr = some (q.node (root a) (root (Shape.setParent (some q.addr) b))) := by
    rw [hq₃, root_setParent]; rfl
  obtain ⟨m₄, m₅, m₆, h₄, h₅, h₆, hp₆, hlow₆, s₆⟩ := settle_lower (some p.addr) none hq0 hqp hlow hp₃
    ha₃ hb₃ hqa (by simpa using hqb) hpa (by simpa using hpb) (by simpa using hab)
  have hc₆ := hc₃.frame s₆ (apart_pair hqc hpc)
  set left := node (fixHeight { q with parent := some p.addr } a (Shape.setParent (some q.addr) b))
    a (Shape.setParent (some q.addr) b) with el
  set p' : Cell := { p with parent := none }
  have hup : m₆ p.addr = some (p'.node (root left) (root c)) := hp₆
  have h₇ := nodeFixHeight_eq hup hlow₆.linked hc₆.linked
  have s₇ : SameOff [p.addr] m₆ (Function.update m₆ p.addr (some ((fixHeight p' left c).node (root left) (root c)))) :=
    SameOff.update _ (List.mem_singleton_self _)
  have hpl : p.addr ∉ addrs left := by simp [el, hpa, hpb, Ne.symm hqp]
  have hlc : ∀ x ∈ addrs left, x ∉ addrs c := by
    intro x hm hx
    rw [el, mem_addrs_node, addrs_setParent, addr_fixHeight] at hm
    rcases hm with hm | rfl | hm
    · exact hac x hm hx
    · exact hqc hx
    · exact hbc x hm hx
  refine ⟨_, ?_, Holds.node (c := fixHeight p' left c) (hlow₆.frame s₇ (apart_one hpl))
    (hc₆.frame s₇ (apart_one hpc)) h.right.linked.1 (Function.update_self _ _ _) hpl hpc hlc, ?_⟩
  · simp only [treeRotateLeft, hq, Option.bind_eq_bind, Option.bind_some, Cell.node_left, Cell.node_right,
      hp, h₁, h₂, h₃, h₄, h₅, h₆, h₇]
    rfl
  · refine (s₃.mono ?_).trans ((s₆.mono ?_).trans (s₇.mono ?_))
    · intro x hx
      rw [mem_addrs_node, mem_addrs_node]
      simp only [List.mem_cons] at hx
      rcases hx with rfl | rfl | hx
      · exact .inr (.inl rfl)
      · exact .inr (.inr (.inr (.inl rfl)))
      · exact .inr (.inr (.inl hx))
    · simp
    · simp

/-! ## Balance -/

theorem rootFactor_eq {m : Nodes} {t : Shape} (h : Holds m t) (hne : t ≠ nil) :
    nodeBalanceFactor m (root t) = some (rootFactor t) := by
  cases t with
  | nil => exact absurd rfl hne
  | node c l r => exact nodeBalanceFactor_eq h.linked.2.1 h.left.linked h.right.linked

/-- A balance factor other than zero points at a child that is there. -/
theorem factor_pos {l r : Shape} (h : 0 < factor l r) : r ≠ nil := by
  rintro rfl
  simp only [factor, stored] at h
  have h0 : (0 : UInt8).toNat = 0 := rfl
  omega

theorem factor_neg {l r : Shape} (h : factor l r < 0) : l ≠ nil := by
  rintro rfl
  simp only [factor, stored] at h
  have h0 : (0 : UInt8).toNat = 0 := rfl
  omega

/-- Replacing one child of a held node by another tree that lives among new addresses only. -/
theorem relink_left {m m' : Nodes} {c : Cell} {l l' r : Shape} {as : List UInt64} (h : Holds m (node c l r))
    (hl' : Holds m' l') (hs : SameOff as m m') (hc : c.addr ∉ as) (hr : ∀ x ∈ addrs r, x ∉ as)
    (hsub : addrs l' ⊆ as) :
    ∃ m'', m'.modify c.addr (fun n => { n with left := root l' }) = some m'' ∧
      Holds m'' (node c l' r) ∧ SameOff (c.addr :: as) m m'' := by
  have hcr : c.addr ∉ addrs r := (nodup_node h.nodup).2.2.2.1
  have hcell : m' c.addr = some (c.node (root l) (root r)) := by rw [hs _ hc]; exact h.linked.2.1
  have s₂ : SameOff [c.addr] m' (Function.update m' c.addr (some (c.node (root l') (root r)))) :=
    SameOff.update _ (List.mem_singleton_self _)
  have hcl : c.addr ∉ addrs l' := fun hm => hc (hsub hm)
  refine ⟨_, modify_of_some _ hcell, Holds.node (hl'.frame s₂ (apart_one hcl))
    ((h.right.frame hs hr).frame s₂ (apart_one hcr)) h.linked.1 (Function.update_self _ _ _) hcl hcr
    fun x hx hxr => hr x hxr (hsub hx), ?_⟩
  exact (hs.mono (List.subset_cons_self _ _)).trans (s₂.mono (by simp))

theorem relink_right {m m' : Nodes} {c : Cell} {l r r' : Shape} {as : List UInt64} (h : Holds m (node c l r))
    (hr' : Holds m' r') (hs : SameOff as m m') (hc : c.addr ∉ as) (hl : ∀ x ∈ addrs l, x ∉ as)
    (hsub : addrs r' ⊆ as) :
    ∃ m'', m'.modify c.addr (fun n => { n with right := root r' }) = some m'' ∧
      Holds m'' (node c l r') ∧ SameOff (c.addr :: as) m m'' := by
  have hcl : c.addr ∉ addrs l := (nodup_node h.nodup).2.2.1
  have hcell : m' c.addr = some (c.node (root l) (root r)) := by rw [hs _ hc]; exact h.linked.2.1
  have s₂ : SameOff [c.addr] m' (Function.update m' c.addr (some (c.node (root l) (root r')))) :=
    SameOff.update _ (List.mem_singleton_self _)
  have hcr : c.addr ∉ addrs r' := fun hm => hc (hsub hm)
  refine ⟨_, modify_of_some _ hcell, Holds.node ((h.left.frame hs hl).frame s₂ (apart_one hcl))
    (hr'.frame s₂ (apart_one hcr)) h.linked.1 (Function.update_self _ _ _) hcl hcr
    fun x hx hxr => hl x hx (hsub hxr), ?_⟩
  exact (hs.mono (List.subset_cons_self _ _)).trans (s₂.mono (by simp))

theorem left_subset (c : Cell) (l r : Shape) : c.addr :: addrs l ⊆ addrs (node c l r) := by
  intro x hx
  rw [mem_addrs_node]
  cases List.mem_cons.mp hx with
  | inl hx => exact .inr (.inl hx)
  | inr hx => exact .inl hx

theorem right_subset (c : Cell) (l r : Shape) : c.addr :: addrs r ⊆ addrs (node c l r) := by
  intro x hx
  rw [mem_addrs_node]
  exact .inr (List.mem_cons.mp hx)

theorem node_subset {c : Cell} {l r : Shape} {as : List UInt64} (hc : c.addr ∈ as) (hl : addrs l ⊆ as)
    (hr : addrs r ⊆ as) : addrs (node c l r) ⊆ as := by
  rw [addrs_node]
  exact List.append_subset.mpr ⟨hl, List.cons_subset.mpr ⟨hc, hr⟩⟩

theorem treeBalance_refines {m : Nodes} {p : Cell} {l r : Shape} (h : Holds m (node p l r)) :
    ∃ m', treeBalance m p.addr = some (m', root (balance (node p l r))) ∧
      Holds m' (balance (node p l r)) ∧ SameOff (addrs (node p l r)) m m' := by
  obtain ⟨_, _, hpl, hpr, hlr⟩ := nodup_node h.nodup
  have hcell : m p.addr = some (p.node (root l) (root r)) := h.linked.2.1
  have hfix := nodeFixHeight_eq hcell h.left.linked h.right.linked
  set p' : Cell := fixHeight p l r with ep
  set m₁ := Function.update m p.addr (some (p'.node (root l) (root r))) with e₁
  have s₁ : SameOff [p.addr] m m₁ := SameOff.update _ (List.mem_singleton_self _)
  have hp₁ : m₁ p.addr = some (p'.node (root l) (root r)) := Function.update_self _ _ _
  have h₁ : Holds m₁ (node p' l r) := Holds.node (h.left.frame s₁ (apart_one hpl))
    (h.right.frame s₁ (apart_one hpr)) h.linked.1 hp₁ hpl hpr hlr
  have hbf : nodeBalanceFactor m₁ p.addr = some (factor l r) :=
    nodeBalanceFactor_eq hp₁ h₁.left.linked h₁.right.linked
  have s₁' : SameOff (addrs (node p l r)) m m₁ := s₁.mono (by simp)
  have ea : addrs (node p' l r) = addrs (node p l r) := by simp only [addrs_node, ep, addr_fixHeight]
  simp only [treeBalance, hfix, Option.bind_eq_bind, Option.bind_some, hbf, hp₁, Cell.node_left, Cell.node_right,
    balance, ← ep]
  by_cases hR : factor l r = 2
  · rw [if_pos hR, if_pos hR, rootFactor_eq h₁.right (factor_pos (l := l) (by omega)), Option.bind_some]
    obtain ⟨c, b, d, rfl⟩ : ∃ c b d, r = node c b d := by
      cases r with
      | nil => exact absurd rfl (factor_pos (l := l) (by omega))
      | node c b d => exact ⟨c, b, d, rfl⟩
    by_cases hneg : rootFactor (node c b d) < 0
    · rw [if_pos hneg, if_pos hneg]
      obtain ⟨e, b', b'', rfl⟩ : ∃ e b' b'', b = node e b' b'' := by
        cases b with
        | nil => exact absurd rfl (factor_neg hneg)
        | node e b' b'' => exact ⟨e, b', b'', rfl⟩
      obtain ⟨m₂, h₂, hr₂, s₂⟩ := treeRotateRight_refines h₁.right
      obtain ⟨m₃, h₃, hp₃, s₃⟩ := relink_right h₁ hr₂ s₂ hpr hlr (by simp)
      obtain ⟨m₄, h₄, hp₄, s₄⟩ := treeRotateLeft_refines hp₃
      have er : root (node c (node e b' b'') d) = c.addr := rfl
      have ea' : addrs (node p' l (rotateRight (node c (node e b' b'') d))) =
          addrs (node p l (node c (node e b' b'') d)) := by
        rw [addrs_node, addrs_rotateRight, ← ea, ← addrs_node]
      refine ⟨m₄, ?_, hp₄, s₁'.trans ((s₃.mono (right_subset p l _)).trans (ea' ▸ s₄))⟩
      rw [er, h₂, Option.bind_some]
      exact (congrArg (Option.bind · _) h₃).trans h₄
    · rw [if_neg hneg, if_neg hneg]
      obtain ⟨m₂, h₂, hp₂, s₂⟩ := treeRotateLeft_refines h₁
      exact ⟨m₂, h₂, hp₂, s₁'.trans (ea ▸ s₂)⟩
  · rw [if_neg hR, if_neg hR]
    by_cases hL : factor l r = -2
    · rw [if_pos hL, if_pos hL, rootFactor_eq h₁.left (factor_neg (r := r) (by omega)), Option.bind_some]
      obtain ⟨c, a, b, rfl⟩ : ∃ c a b, l = node c a b := by
        cases l with
        | nil => exact absurd rfl (factor_neg (r := r) (by omega))
        | node c a b => exact ⟨c, a, b, rfl⟩
      by_cases hpos : rootFactor (node c a b) > 0
      · rw [if_pos hpos, if_pos hpos]
        obtain ⟨e, b', b'', rfl⟩ : ∃ e b' b'', b = node e b' b'' := by
          cases b with
          | nil => exact absurd rfl (factor_pos hpos)
          | node e b' b'' => exact ⟨e, b', b'', rfl⟩
        obtain ⟨m₂, h₂, hl₂, s₂⟩ := treeRotateLeft_refines h₁.left
        obtain ⟨m₃, h₃, hp₃, s₃⟩ := relink_left h₁ hl₂ s₂ hpl (fun x hx hm => hlr x hm hx) (by simp)
        obtain ⟨m₄, h₄, hp₄, s₄⟩ := treeRotateRight_refines hp₃
        have el : root (node c a (node e b' b'')) = c.addr := rfl
        have ea' : addrs (node p' (rotateLeft (node c a (node e b' b''))) r) =
            addrs (node p (node c a (node e b' b'')) r) := by
          rw [addrs_node, addrs_rotateLeft, ← ea, ← addrs_node]
        refine ⟨m₄, ?_, hp₄, s₁'.trans ((s₃.mono (left_subset p _ r)).trans (ea' ▸ s₄))⟩
        rw [el, h₂, Option.bind_some]
        exact (congrArg (Option.bind · _) h₃).trans h₄
      · rw [if_neg hpos, if_neg hpos]
        obtain ⟨m₂, h₂, hp₂, s₂⟩ := treeRotateRight_refines h₁
        exact ⟨m₂, h₂, hp₂, s₁'.trans (ea ▸ s₂)⟩
    · rw [if_neg hL, if_neg hL]
      exact ⟨m₁, rfl, h₁, s₁'⟩

/-! ## Insertion -/

theorem addrs_insert_subset (key : ℤ) (data host n : UInt64) (t : Shape) :
    addrs (insert key data host n t) ⊆ n :: addrs t :=
  ((entries_insert_perm key data host n t).map Entry.addr).subset

theorem treeInsert_refines {t : Shape} (key : ℤ) (data host n : UInt64) (hn : n ≠ 0) :
    ∀ (d : ℕ) (m : Nodes), Holds m t → m n = none → t.height < d →
      ∃ m', treeInsert d m (root t) key data host n = some (m', root (insert key data host n t), n) ∧
        Holds m' (insert key data host n t) ∧ SameOff (n :: addrs t) m m' := by
  induction t with
  | nil =>
    intro d m _ hfree hd
    obtain ⟨d, rfl⟩ : ∃ e, d = e + 1 := ⟨d - 1, by simp only [height] at hd; omega⟩
    set c : Cell := ⟨n, host, some 0, 1, key, data⟩
    refine ⟨Function.update m n (some (c.node 0 0)), ?_, ?_, SameOff.update _ (by simp)⟩
    · have hr : root nil = 0 := rfl
      simp only [treeInsert, hr, if_pos, nodeInit, if_neg hn]
      rfl
    · exact Holds.node (c := c) (holds_nil _) (holds_nil _) hn (Function.update_self _ _ _) (by simp)
        (by simp) (by simp)
  | node c l r ihl ihr =>
    intro d m h hfree hd
    obtain ⟨d, rfl⟩ : ∃ e, d = e + 1 := ⟨d - 1, by omega⟩
    simp only [height] at hd
    obtain ⟨_, _, hcl, hcr, hlr⟩ := nodup_node h.nodup
    have hroot : root (node c l r) = c.addr := rfl
    have hcell : m c.addr = some (c.node (root l) (root r)) := h.linked.2.1
    -- the new block is none of the nodes
    have hnew : n ∉ addrs (node c l r) := by
      intro hx
      have := LinkedAs.isSome h.linked n hx
      rw [hfree] at this
      cases this
    have hc : c.addr ∈ n :: addrs (node c l r) := by simp
    have hl : n :: addrs l ⊆ n :: addrs (node c l r) :=
      List.cons_subset_cons n fun x hx => left_subset c l r (List.mem_cons_of_mem _ hx)
    have hr : n :: addrs r ⊆ n :: addrs (node c l r) :=
      List.cons_subset_cons n fun x hx => right_subset c l r (List.mem_cons_of_mem _ hx)
    rw [mem_addrs_node, not_or, not_or] at hnew
    obtain ⟨hnl, hnc, hnr⟩ := hnew
    simp only [treeInsert, hroot, if_neg h.linked.1, hcell, Option.bind_eq_bind, Option.bind_some, Cell.node_key,
      Cell.node_left, Cell.node_right, Shape.insert]
    by_cases hk : key < c.key
    · simp only [hk, ↓reduceIte]
      obtain ⟨m₁, h₁, hl₁, s₁⟩ := ihl d m h.left hfree (by omega)
      obtain ⟨m₂, h₂, hp₂, s₂⟩ := relink_left h hl₁ s₁ (by simp [Ne.symm hnc, hcl])
        (fun x hx hm => (List.mem_cons.mp hm).elim (fun e => hnr (e ▸ hx)) fun hm => hlr x hm hx)
        (addrs_insert_subset key data host n l)
      obtain ⟨m₃, h₃, hp₃, s₃⟩ := treeBalance_refines hp₂
      refine ⟨m₃, ?_, hp₃, (s₂.mono ?_).trans (s₃.mono ?_)⟩
      · simp only [h₁, h₂, h₃, Option.bind_some]
        rfl
      · exact List.cons_subset.mpr ⟨hc, hl⟩
      · exact node_subset hc (List.Subset.trans (addrs_insert_subset key data host n l) hl)
          (List.Subset.trans (List.subset_cons_self _ _) hr)
    · simp only [hk, ↓reduceIte]
      obtain ⟨m₁, h₁, hr₁, s₁⟩ := ihr d m h.right hfree (by omega)
      obtain ⟨m₂, h₂, hp₂, s₂⟩ := relink_right h hr₁ s₁ (by simp [Ne.symm hnc, hcr])
        (fun x hx hm => (List.mem_cons.mp hm).elim (fun e => hnl (e ▸ hx)) fun hm => hlr x hx hm)
        (addrs_insert_subset key data host n r)
      obtain ⟨m₃, h₃, hp₃, s₃⟩ := treeBalance_refines hp₂
      refine ⟨m₃, ?_, hp₃, (s₂.mono ?_).trans (s₃.mono ?_)⟩
      · simp only [h₁, h₂, h₃, Option.bind_some]
        rfl
      · exact List.cons_subset.mpr ⟨hc, hr⟩
      · exact node_subset hc (List.Subset.trans (List.subset_cons_self _ _) hl)
          (List.Subset.trans (addrs_insert_subset key data host n r) hr)

/-! ## Lookup and the leftmost node -/

theorem treeFind_refines {m : Nodes} {t : Shape} (key : ℤ) (h : LinkedAs m t) :
    ∀ d : ℕ, t.height < d → treeFind d m (root t) key = some ((find key t).elim 0 Cell.addr) := by
  induction t with
  | nil =>
    intro d hd
    obtain ⟨d, rfl⟩ : ∃ e, d = e + 1 := ⟨d - 1, by simp only [height] at hd; omega⟩
    rfl
  | node c l r ihl ihr =>
    intro d hd
    obtain ⟨d, rfl⟩ : ∃ e, d = e + 1 := ⟨d - 1, by omega⟩
    simp only [height] at hd
    obtain ⟨h0, hc, hl, hr⟩ := h
    have hroot : root (node c l r) = c.addr := rfl
    have hcell : m c.addr = some (c.node (root l) (root r)) := hc
    simp only [treeFind, hroot, if_neg h0, hcell, Option.bind_eq_bind, Option.bind_some, Cell.node_key,
      Cell.node_left, Cell.node_right, Shape.find]
    by_cases h1 : key < c.key
    · simp only [h1, ↓reduceIte]
      exact ihl hl d (by omega)
    · by_cases h2 : key > c.key
      · simp only [h1, h2, ↓reduceIte]
        exact ihr hr d (by omega)
      · simp only [h1, h2, ↓reduceIte]
        rfl

theorem avlTreeMin_refines {m : Nodes} {c : Cell} {l r : Shape} (h : LinkedAs m (node c l r)) :
    ∀ d : ℕ, (node c l r).height ≤ d → avlTreeMin d m c.addr = some (minCell c l).addr := by
  induction l generalizing c r with
  | nil =>
    intro d hd
    obtain ⟨d, rfl⟩ : ∃ e, d = e + 1 := ⟨d - 1, by simp only [height] at hd; omega⟩
    have hcell : m c.addr = some (c.node 0 (root r)) := h.2.1
    simp only [avlTreeMin, hcell, Option.bind_eq_bind, Option.bind_some, Cell.node_left, ↓reduceIte, minCell]
    rfl
  | node e l' r' ih _ =>
    intro d hd
    simp only [height] at hd
    obtain ⟨d, rfl⟩ : ∃ e, d = e + 1 := ⟨d - 1, by omega⟩
    have hcell : m c.addr = some (c.node e.addr (root r)) := h.2.1
    have he0 : e.addr ≠ 0 := h.2.2.1.1
    simp only [avlTreeMin, hcell, Option.bind_eq_bind, Option.bind_some, Cell.node_left, he0, ↓reduceIte, minCell]
    exact ih h.2.2.1 d (by simp only [height]; omega)

theorem minCell_linked {m : Nodes} {c : Cell} {l r : Shape} (h : LinkedAs m (node c l r)) :
    (minCell c l).addr ≠ 0 ∧ ∃ x, m (minCell c l).addr = some ((minCell c l).node 0 x) := by
  induction l generalizing c r with
  | nil => exact ⟨h.1, root r, h.2.1⟩
  | node e l' r' ih _ => exact ih h.2.2.1

theorem addrs_removeMin (c : Cell) (l r : Shape) :
    addrs (node c l r) = (minCell c l).addr :: addrs (removeMin c r l) := by
  simp only [addrs, entries_removeMin, List.map_cons]
  rfl

/-! ## Removal -/

/-- The minimum is unlinked but its own cell is left as it was. -/
theorem treeRemoveMinimumNode_refines {m : Nodes} {c : Cell} {l r : Shape} (h : Holds m (node c l r)) :
    ∀ d : ℕ, (node c l r).height ≤ d → ∃ m', treeRemoveMinimumNode d m c.addr = some (m', root (removeMin c r l)) ∧
      Holds m' (removeMin c r l) ∧ SameOff (addrs (removeMin c r l)) m m' := by
  induction l generalizing c r with
  | nil =>
    intro d hd
    obtain ⟨d, rfl⟩ : ∃ e, d = e + 1 := ⟨d - 1, by simp only [height] at hd; omega⟩
    have hcell : m c.addr = some (c.node 0 (root r)) := h.linked.2.1
    refine ⟨m, ?_, h.right, SameOff.refl _ _⟩
    simp only [treeRemoveMinimumNode, hcell, Option.bind_eq_bind, Option.bind_some, Cell.node_left,
      Cell.node_right, ↓reduceIte, removeMin]
    rfl
  | node e l' r' ih _ =>
    intro d hd
    simp only [height] at hd
    obtain ⟨d, rfl⟩ : ∃ e, d = e + 1 := ⟨d - 1, by omega⟩
    have hcell : m c.addr = some (c.node e.addr (root r)) := h.linked.2.1
    have he0 : e.addr ≠ 0 := h.left.linked.1
    obtain ⟨_, _, hcl, _, hlr⟩ := nodup_node h.nodup
    rw [addrs_removeMin] at hcl hlr
    obtain ⟨m₁, h₁, hl₁, s₁⟩ := ih h.left d (by simp only [height]; omega)
    obtain ⟨m₂, h₂, hp₂, s₂⟩ := relink_left h hl₁ s₁ (fun hm => hcl (List.mem_cons_of_mem _ hm))
      (fun x hx hm => hlr x (List.mem_cons_of_mem _ hm) hx) (List.Subset.refl _)
    obtain ⟨m₃, h₃, hp₃, s₃⟩ := treeBalance_refines hp₂
    refine ⟨m₃, ?_, hp₃, ?_⟩
    · simp only [treeRemoveMinimumNode, hcell, Option.bind_eq_bind, Option.bind_some, Cell.node_left, he0,
        ↓reduceIte, h₁, h₂, h₃]
      rfl
    · rw [removeMin, addrs_balance]
      exact (s₂.mono (left_subset c _ r)).trans s₃

/-- The part of `tree_remove_node` that takes the found node out. -/
theorem splice_refines {m : Nodes} {c e : Cell} {l l' r' : Shape} (h : Holds m (node c l (node e l' r'))) (d : ℕ)
    (hd : (node e l' r').height ≤ d) :
    ∃ m₁ m₂ m₃ m₄ m₅ m₆ m₇, avlTreeMin d (nodeDeinit m c.addr) e.addr = some (minCell e l').addr ∧
      treeRemoveMinimumNode d (nodeDeinit m c.addr) e.addr = some (m₁, root (removeMin e r' l')) ∧
      m₁.modify (minCell e l').addr (fun n => { n with right := root (removeMin e r' l') }) = some m₂ ∧
      m₂.modify (minCell e l').addr (fun n => { n with left := root l }) = some m₃ ∧
      setParent m₃ (root l) (some (minCell e l').addr) = some m₄ ∧
      setParent m₄ (root (removeMin e r' l')) (some (minCell e l').addr) = some m₅ ∧
      m₅.modify (minCell e l').addr (fun n => { n with parent := c.parent }) = some m₆ ∧
      treeBalance m₆ (minCell e l').addr = some (m₇, root (splice c.parent l (node e l' r'))) ∧
      Holds m₇ (splice c.parent l (node e l' r')) ∧ SameOff (addrs (node c l (node e l' r'))) m m₇ := by
  obtain ⟨_, hrn, hcl, hcr, hlr⟩ := nodup_node h.nodup
  have s₀ : SameOff [c.addr] m (nodeDeinit m c.addr) := SameOff.update _ (List.mem_singleton_self _)
  have hl₀ := h.left.frame s₀ (apart_one hcl)
  have hr₀ := h.right.frame s₀ (apart_one hcr)
  obtain ⟨hmin0, x, hmin⟩ := minCell_linked hr₀.linked
  obtain ⟨m₁, h₁, hr₁, s₁⟩ := treeRemoveMinimumNode_refines hr₀ d hd
  rw [addrs_removeMin] at hrn hlr
  rw [List.nodup_cons] at hrn
  set mn := minCell e l' with emn
  set rr := removeMin e r' l' with err
  have hml : mn.addr ∉ addrs l := fun hm => hlr _ hm List.mem_cons_self
  have hlrr : ∀ x ∈ addrs l, x ∉ addrs rr := fun x hx hm => hlr x hx (List.mem_cons_of_mem _ hm)
  have hmin₁ : m₁ mn.addr = some (mn.node 0 x) := by rw [s₁ _ hrn.1, hmin]
  set m₂ := Function.update m₁ mn.addr (some (mn.node 0 (root rr))) with e₂
  set m₃ := Function.update m₂ mn.addr (some (mn.node (root l) (root rr))) with e₃
  have s₃ : SameOff [mn.addr] m₁ m₃ := (SameOff.update _ (by simp)).trans (SameOff.update _ (by simp))
  have hl₃ := (hl₀.frame s₁ hlrr).frame s₃ (apart_one hml)
  have hr₃ := hr₁.frame s₃ (apart_one hrn.1)
  obtain ⟨m₄, h₄, hl₄, s₄⟩ := setParent_refines (some mn.addr) hl₃
  obtain ⟨m₅, h₅, hr₅, s₅⟩ := setParent_refines (some mn.addr) (hr₃.frame s₄ fun x hx hm => hlrr x hm hx)
  have hl₅ := hl₄.frame s₅ (by simpa using hlrr)
  have hmin₅ : m₅ mn.addr = some (mn.node (root l) (root rr)) := by
    rw [s₅ _ hrn.1, s₄ _ hml, e₃, Function.update_self]
  set mn' : Cell := { mn with parent := c.parent }
  set m₆ := Function.update m₅ mn.addr (some (mn'.node (root l) (root rr))) with e₆
  have s₆ : SameOff [mn.addr] m₅ m₆ := SameOff.update _ (List.mem_singleton_self _)
  have h₆ : Holds m₆ (node mn' (Shape.setParent (some mn.addr) l) (Shape.setParent (some mn.addr) rr)) := by
    refine Holds.node (hl₅.frame s₆ (apart_one (by simpa using hml))) (hr₅.frame s₆ (apart_one (by simpa using hrn.1)))
      hmin0 ?_ (by simpa using hml) (by simpa using hrn.1) (by simpa using hlrr)
    rw [root_setParent, root_setParent]
    exact Function.update_self _ _ _
  obtain ⟨m₇, h₇, hp₇, s₇⟩ := treeBalance_refines h₆
  refine ⟨m₁, m₂, m₃, m₄, m₅, m₆, m₇, avlTreeMin_refines hr₀.linked d hd, h₁, modify_of_some _ hmin₁,
    modify_of_some _ (Function.update_self _ _ _), h₄, h₅, modify_of_some _ hmin₅, h₇, hp₇, ?_⟩
  -- every cell written on the way belongs to the tree
  -- every cell written on the way belongs to the tree
  have haddrs : addrs (node c l (node e l' r')) = addrs l ++ c.addr :: mn.addr :: addrs rr := by
    rw [addrs_node, addrs_removeMin]
  have hc : [c.addr] ⊆ addrs (node c l (node e l' r')) := by simp
  have hm : [mn.addr] ⊆ addrs (node c l (node e l' r')) := by simp [haddrs]
  have hl : addrs l ⊆ addrs (node c l (node e l' r')) := fun x hx => mem_addrs_node.mpr (.inl hx)
  have hr : addrs rr ⊆ addrs (node c l (node e l' r')) := by
    intro x hx
    simp [haddrs, hx]
  have hroot : addrs (node mn' (Shape.setParent (some mn.addr) l) (Shape.setParent (some mn.addr) rr)) ⊆
      addrs (node c l (node e l' r')) := by
    refine node_subset (hm (List.mem_singleton_self _)) ?_ ?_
    · rwa [addrs_setParent]
    · rwa [addrs_setParent]
  exact (s₀.mono hc).trans ((s₁.mono hr).trans ((s₃.mono hm).trans ((s₄.mono hl).trans
    ((s₅.mono hr).trans ((s₆.mono hm).trans (s₇.mono hroot))))))

theorem treeRemoveNode_refines {t : Shape} (key : ℤ) :
    ∀ (d : ℕ) (m : Nodes), Holds m t → t.height < d →
      ∃ m', treeRemoveNode d m (root t) key = some (m', root (remove key t)) ∧
        Holds m' (remove key t) ∧ SameOff (addrs t) m m' := by
  induction t with
  | nil =>
    intro d m h hd
    obtain ⟨d, rfl⟩ : ∃ e, d = e + 1 := ⟨d - 1, by simp only [height] at hd; omega⟩
    exact ⟨m, rfl, h, SameOff.refl _ _⟩
  | node c l r ihl ihr =>
    intro d m h hd
    obtain ⟨d, rfl⟩ : ∃ e, d = e + 1 := ⟨d - 1, by omega⟩
    simp only [height] at hd
    obtain ⟨_, _, hcl, hcr, hlr⟩ := nodup_node h.nodup
    have hroot : root (node c l r) = c.addr := rfl
    have hcell : m c.addr = some (c.node (root l) (root r)) := h.linked.2.1
    have hsub (s : Shape) : addrs (remove key s) ⊆ addrs s :=
      ((entries_remove_sublist key s).map Entry.addr).subset
    have hc : c.addr ∈ addrs (node c l r) := by simp
    have hl : addrs l ⊆ addrs (node c l r) := fun x hx => left_subset c l r (List.mem_cons_of_mem _ hx)
    have hr : addrs r ⊆ addrs (node c l r) := fun x hx => right_subset c l r (List.mem_cons_of_mem _ hx)
    simp only [treeRemoveNode, hroot, if_neg h.linked.1, hcell, Option.bind_eq_bind, Option.bind_some,
      Cell.node_key, Cell.node_left, Cell.node_right, Cell.node_parent, remove]
    by_cases h1 : key < c.key
    · simp only [h1, ↓reduceIte]
      obtain ⟨m₁, h₁, hl₁, s₁⟩ := ihl d m h.left (by omega)
      obtain ⟨m₂, h₂, hp₂, s₂⟩ := relink_left h hl₁ s₁ hcl (fun x hx hm => hlr x hm hx) (hsub l)
      obtain ⟨m₃, h₃, hp₃, s₃⟩ := treeBalance_refines hp₂
      refine ⟨m₃, ?_, hp₃, (s₂.mono (left_subset c l r)).trans (s₃.mono ?_)⟩
      · simp only [h₁, h₂, h₃, Option.bind_some]
      · exact node_subset hc (List.Subset.trans (hsub l) hl) hr
    · by_cases h2 : key > c.key
      · simp only [h1, h2, ↓reduceIte]
        obtain ⟨m₁, h₁, hr₁, s₁⟩ := ihr d m h.right (by omega)
        obtain ⟨m₂, h₂, hp₂, s₂⟩ := relink_right h hr₁ s₁ hcr hlr (hsub r)
        obtain ⟨m₃, h₃, hp₃, s₃⟩ := treeBalance_refines hp₂
        refine ⟨m₃, ?_, hp₃, (s₂.mono (right_subset c l r)).trans (s₃.mono ?_)⟩
        · simp only [h₁, h₂, h₃, Option.bind_some]
        · exact node_subset hc hl (List.Subset.trans (hsub r) hr)
      · simp only [h1, h2, ↓reduceIte]
        cases r with
        | nil =>
          have s₀ : SameOff [c.addr] m (nodeDeinit m c.addr) := SameOff.update _ (List.mem_singleton_self _)
          obtain ⟨m₁, h₁, hl₁, s₁⟩ := setParent_refines c.parent (h.left.frame s₀ (apart_one hcl))
          refine ⟨m₁, ?_, hl₁, (s₀.mono (by simp)).trans (s₁.mono ?_)⟩
          · have h0 : root nil = 0 := rfl
            have hs : root (splice c.parent l nil) = root l := root_setParent _ _
            simp only [h0, ↓reduceIte, h₁, Option.bind_some, hs]
            rfl
          · exact hl
        | node e l' r' =>
          have hr0 : e.addr ≠ 0 := h.right.linked.1
          have hre : root (node e l' r') = e.addr := rfl
          obtain ⟨m₁, m₂, m₃, m₄, m₅, m₆, m₇, hmin, h₁, h₂, h₃, h₄, h₅, h₆, h₇, hp₇, s₇⟩ :=
            splice_refines h d (by omega)
          refine ⟨m₇, ?_, hp₇, s₇⟩
          simp only [hr0, ↓reduceIte, hre, hmin, h₁, h₂, h₃, h₄, h₅, h₆, h₇, Option.bind_some]

end Chats.Avl
