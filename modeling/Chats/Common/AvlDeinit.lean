import Chats.Common.AvlRuns
import Chats.Lib.Live

/-! # What becomes of the nodes

Where the nodes of `common/avl-tree.c` are allocated and released. A run of additions and removals
leaves allocated exactly the nodes of the tree, and `avl_tree_deinit` releases each of these once.
Only the data that a removed node pointed to is in nobody's hands afterwards. -/
namespace Chats.Avl
set_option autoImplicit false

open Lib Lib.Store BinaryTree Shape

/-! ## Which nodes are allocated -/

section live
variable {m m' : Nodes} {p q n host : UInt64}

theorem live_nodeFixHeight (h : nodeFixHeight m n = some m') : live m' = live m := by
  simp only [nodeFixHeight, Option.bind_eq_bind, Option.bind_eq_some_iff] at h
  obtain ⟨_, -, _, -, _, -, hm⟩ := h
  exact live_modify hm

theorem live_setParent {parent : Option UInt64} (h : setParent m n parent = some m') : live m' = live m := by
  unfold setParent at h
  split at h
  · exact Option.some.inj h ▸ rfl
  · exact live_modify h

theorem live_treeRotateRight (h : treeRotateRight m p = some (m', q)) : live m' = live m := by
  simp only [treeRotateRight, Option.bind_eq_bind, Option.bind_eq_some_iff, Option.pure_def, Option.some.injEq,
    Prod.mk.injEq] at h
  obtain ⟨_, -, _, -, m₁, h₁, m₂, h₂, m₃, h₃, m₄, h₄, m₅, h₅, m₆, h₆, m₇, h₇, rfl, -⟩ := h
  rw [live_nodeFixHeight h₇, live_nodeFixHeight h₆, live_modify h₅, live_modify h₄, live_setParent h₃,
    live_modify h₂, live_modify h₁]

theorem live_treeRotateLeft (h : treeRotateLeft m p = some (m', q)) : live m' = live m := by
  simp only [treeRotateLeft, Option.bind_eq_bind, Option.bind_eq_some_iff, Option.pure_def, Option.some.injEq,
    Prod.mk.injEq] at h
  obtain ⟨_, -, _, -, m₁, h₁, m₂, h₂, m₃, h₃, m₄, h₄, m₅, h₅, m₆, h₆, m₇, h₇, rfl, -⟩ := h
  rw [live_nodeFixHeight h₇, live_nodeFixHeight h₆, live_modify h₅, live_modify h₄, live_setParent h₃,
    live_modify h₂, live_modify h₁]

theorem live_treeBalance (h : treeBalance m p = some (m', q)) : live m' = live m := by
  simp only [treeBalance, Option.bind_eq_bind, Option.bind_eq_some_iff] at h
  obtain ⟨m₁, h₁, _, -, _, -, h⟩ := h
  rw [← live_nodeFixHeight h₁]
  split at h
  · obtain ⟨_, -, h⟩ := Option.bind_eq_some_iff.mp h
    split at h
    · simp only [Option.bind_eq_some_iff] at h
      obtain ⟨⟨m₂, r⟩, h₂, m₃, h₃, h⟩ := h
      rw [live_treeRotateLeft h, live_modify h₃, live_treeRotateRight h₂]
    · exact live_treeRotateLeft h
  · split at h
    · obtain ⟨_, -, h⟩ := Option.bind_eq_some_iff.mp h
      split at h
      · simp only [Option.bind_eq_some_iff] at h
        obtain ⟨⟨m₂, l⟩, h₂, m₃, h₃, h⟩ := h
        rw [live_treeRotateRight h, live_modify h₃, live_treeRotateLeft h₂]
      · exact live_treeRotateRight h
    · rw [Option.pure_def, Option.some.injEq, Prod.mk.injEq] at h
      rw [h.1]

theorem live_treeInsert {key : ℤ} {data : UInt64} :
    ∀ {d : ℕ} {m m' : Nodes} {p q r : UInt64}, treeInsert d m p key data host n = some (m', q, r) →
      live m' = insert n (live m) := by
  intro d
  induction d with
  | zero =>
    intro m m' p q r h
    cases h
  | succ d ih =>
    intro m m' p q r h
    unfold treeInsert at h
    split at h
    · simp only [nodeInit, Option.bind_eq_bind, Option.bind_eq_some_iff, Option.pure_def, Option.some.injEq,
        Prod.mk.injEq, ite_eq_iff, reduceCtorEq, and_false, false_or] at h
      obtain ⟨⟨m₁, r₁⟩, ⟨-, rfl, -⟩, rfl, -⟩ := h
      exact live_update_some m n _
    · obtain ⟨c, -, h⟩ := Option.bind_eq_some_iff.mp h
      -- the two branches differ in the child that they go to
      split at h
      · simp only [Option.bind_eq_bind, Option.bind_eq_some_iff, Option.pure_def, Option.some.injEq, Prod.mk.injEq] at h
        obtain ⟨⟨m₁, l, r₁⟩, h₁, m₂, h₂, ⟨m₃, p₃⟩, h₃, rfl, -, -⟩ := h
        rw [live_treeBalance h₃, live_modify h₂, ih h₁]
      · simp only [Option.bind_eq_bind, Option.bind_eq_some_iff, Option.pure_def, Option.some.injEq, Prod.mk.injEq] at h
        obtain ⟨⟨m₁, l, r₁⟩, h₁, m₂, h₂, ⟨m₃, p₃⟩, h₃, rfl, -, -⟩ := h
        rw [live_treeBalance h₃, live_modify h₂, ih h₁]

theorem live_treeRemoveMinimumNode :
    ∀ {d : ℕ} {m m' : Nodes} {p q : UInt64}, treeRemoveMinimumNode d m p = some (m', q) → live m' = live m := by
  intro d
  induction d with
  | zero =>
    intro m m' p q h
    cases h
  | succ d ih =>
    intro m m' p q h
    obtain ⟨c, -, h⟩ := Option.bind_eq_some_iff.mp h
    split at h
    · rw [Option.pure_def, Option.some.injEq, Prod.mk.injEq] at h
      rw [h.1]
    · simp only [Option.bind_eq_bind, Option.bind_eq_some_iff] at h
      obtain ⟨⟨m₁, l⟩, h₁, m₂, h₂, h⟩ := h
      rw [live_treeBalance h, live_modify h₂, ih h₁]

/-- A removal releases the node that a search finds. -/
theorem live_treeRemoveNode {key : ℤ} :
    ∀ {d : ℕ} {m m' : Nodes} {p q : UInt64}, treeRemoveNode d m p key = some (m', q) →
      ∃ x, treeFind d m p key = some x ∧ live m' = if x = 0 then live m else live m \ {x} := by
  intro d
  induction d with
  | zero =>
    intro m m' p q h
    cases h
  | succ d ih =>
    intro m m' p q h
    unfold treeRemoveNode at h
    unfold treeFind
    split at h
    · rename_i h0
      rw [Option.some.injEq, Prod.mk.injEq] at h
      exact ⟨0, if_pos h0, by rw [if_pos rfl, h.1]⟩
    · rename_i h0
      obtain ⟨c, hc, h⟩ := Option.bind_eq_some_iff.mp h
      rw [if_neg h0, hc, Option.bind_eq_bind, Option.bind_some]
      split at h
      · rename_i hk
        simp only [Option.bind_eq_bind, Option.bind_eq_some_iff] at h
        obtain ⟨⟨m₁, l⟩, h₁, m₂, h₂, h⟩ := h
        obtain ⟨x, hx, hlive⟩ := ih h₁
        exact ⟨x, by rw [if_pos hk, hx], by rw [live_treeBalance h, live_modify h₂, hlive]⟩
      · rename_i hk
        split at h
        · rename_i hk'
          simp only [Option.bind_eq_bind, Option.bind_eq_some_iff] at h
          obtain ⟨⟨m₁, l⟩, h₁, m₂, h₂, h⟩ := h
          obtain ⟨x, hx, hlive⟩ := ih h₁
          exact ⟨x, by rw [if_neg hk, if_pos hk', hx], by rw [live_treeBalance h, live_modify h₂, hlive]⟩
        · rename_i hk'
          refine ⟨p, by rw [if_neg hk, if_neg hk']; rfl, ?_⟩
          rw [if_neg h0, ← live_update_none m p]
          dsimp only at h
          split at h
          · simp only [Option.bind_eq_bind, Option.bind_eq_some_iff, Option.pure_def, Option.some.injEq,
              Prod.mk.injEq] at h
            obtain ⟨m₁, h₁, rfl, -⟩ := h
            exact live_setParent h₁
          · simp only [Option.bind_eq_bind, Option.bind_eq_some_iff] at h
            obtain ⟨min, -, ⟨m₁, r'⟩, h₁, m₂, h₂, m₃, h₃, m₄, h₄, m₅, h₅, m₆, h₆, h⟩ := h
            rw [live_treeBalance h, live_modify h₆, live_setParent h₅, live_setParent h₄, live_modify h₃,
              live_modify h₂, live_treeRemoveMinimumNode h₁]
            rfl

end live

/-! ## Releasing a tree -/

/-- `node_purge`, with what it hands to `deallocate`, in order. Where the data pointer is that of a
node, this node is released by it. -/
def nodePurge : ℕ → Nodes → UInt64 → Bool → Option (Nodes × List UInt64)
  | 0, _, _, _ => none
  | d + 1, m, n, deallocateData =>
    if n = 0 then some (m, [])
    else do
      let c ← m n
      let (m, left) ← nodePurge d m c.left deallocateData
      let c ← m n
      let (m, right) ← nodePurge d m c.right deallocateData
      let c ← m n
      if deallocateData = true ∧ c.data ≠ 0 then
        return (nodeDeinit (nodeDeinit m c.data) n, left ++ right ++ [c.data, n])
      else return (nodeDeinit m n, left ++ right ++ [n])

/-- `avl_tree_deinit`, which leaves the root as it was. -/
def avlTreeDeinit (t : AvlTree) (deallocateData : Bool) : Option (AvlTree × List UInt64) := do
  let (m, released) ← nodePurge depth t.nodes t.root deallocateData
  return ({ t with nodes := m }, released)

/-- What is released of a tree: every node behind its children and its data. -/
def Shape.released (b : Bool) : Shape → List UInt64
  | nil => []
  | node c l r => released b l ++ released b r ++ if b = true ∧ c.data ≠ 0 then [c.data, c.addr] else [c.addr]

/-- The data pointers that are handed to `deallocate`. -/
def freedData (b : Bool) (es : List Entry) : List UInt64 :=
  if b then (es.map Entry.data).filter fun x => x ≠ 0 else []

theorem freedData_append (b : Bool) (es es' : List Entry) :
    freedData b (es ++ es') = freedData b es ++ freedData b es' := by
  cases b <;> simp [freedData]

theorem freedData_cons (b : Bool) (e : Entry) (es : List Entry) :
    freedData b (e :: es) = if b = true ∧ e.data ≠ 0 then e.data :: freedData b es else freedData b es := by
  cases b
  · rfl
  · by_cases h0 : e.data = 0 <;> simp [freedData, h0]

theorem released_perm (b : Bool) (t : Shape) : (released b t).Perm (addrs t ++ freedData b (entries t)) := by
  induction t with
  | nil => cases b <;> exact List.Perm.nil
  | node c l r ihl ihr =>
    rw [released, addrs_node, entries_node, freedData_append, freedData_cons]
    refine ((ihl.append ihr).append_right _).trans ?_
    have hdata : c.entry.data = c.data := rfl
    rw [hdata, List.perm_iff_count]
    intro x
    by_cases hb : b = true ∧ c.data ≠ 0
    · simp only [if_pos hb, List.count_append, List.count_cons, List.count_nil]
      omega
    · simp only [if_neg hb, List.count_append, List.count_cons, List.count_nil]
      omega

theorem mem_released {b : Bool} {t : Shape} {x : UInt64} :
    x ∈ released b t ↔ x ∈ addrs t ∨ x ∈ freedData b (entries t) := by
  rw [(released_perm b t).mem_iff, List.mem_append]

/-- No data that is to be released is a node. -/
def DataApart (b : Bool) (es : List Entry) : Prop := ∀ x ∈ freedData b es, x ∉ es.map Entry.addr

instance (b : Bool) (es : List Entry) : Decidable (DataApart b es) :=
  inferInstanceAs (Decidable (∀ x ∈ freedData b es, x ∉ es.map Entry.addr))

theorem nodePurge_refines (b : Bool) {t : Shape} :
    ∀ {d : ℕ} {m : Nodes}, Holds m t → DataApart b (entries t) → t.height < d →
      ∃ m', nodePurge d m (root t) b = some (m', released b t) ∧ (∀ a ∈ released b t, m' a = none) ∧
        SameOff (released b t) m m' := by
  induction t with
  | nil =>
    intro d m h hdata hd
    obtain ⟨d, rfl⟩ := Nat.exists_eq_succ_of_ne_zero (Nat.ne_of_gt hd)
    exact ⟨m, if_pos rfl, by simp [released], SameOff.refl _ _⟩
  | node c l r ihl ihr =>
    intro d m h hdata hd
    obtain ⟨d, rfl⟩ := Nat.exists_eq_succ_of_ne_zero (Nat.ne_of_gt (Nat.zero_lt_of_lt hd))
    have hheight : l.height < d ∧ r.height < d := by
      rw [height] at hd
      omega
    obtain ⟨h0, hc, -, -⟩ := h.linked
    obtain ⟨-, -, hcl, hcr, hlr⟩ := nodup_node h.nodup
    -- what is released of one part is in no other part
    have hapart : ∀ x ∈ freedData b (entries (node c l r)), x ∉ addrs l ∧ x ≠ c.addr ∧ x ∉ addrs r := by
      intro x hx
      have hnot : x ∉ addrs (node c l r) := hdata x hx
      rwa [mem_addrs_node, not_or, not_or] at hnot
    simp only [entries_node, freedData_append, freedData_cons, List.mem_append] at hapart
    have hdl : ∀ x ∈ freedData b (entries l), x ∉ addrs l ∧ x ≠ c.addr ∧ x ∉ addrs r := fun x hx => hapart x (.inl hx)
    have hdr : ∀ x ∈ freedData b (entries r), x ∉ addrs l ∧ x ≠ c.addr ∧ x ∉ addrs r := by
      intro x hx
      refine hapart x (.inr ?_)
      split
      · exact List.mem_cons_of_mem _ hx
      · exact hx
    obtain ⟨m₁, e₁, hgone₁, s₁⟩ := ihl h.left (fun x hx => (hdl x hx).1) hheight.1
    have hc₁ : c.addr ∉ released b l := by
      rw [mem_released, not_or]
      exact ⟨hcl, fun hx => (hdl _ hx).2.1 rfl⟩
    have hr₁ : Holds m₁ r := by
      refine h.right.frame s₁ fun x hx hm => ?_
      cases mem_released.mp hm with
      | inl hm => exact hlr x hm hx
      | inr hm => exact (hdl x hm).2.2 hx
    obtain ⟨m₂, e₂, hgone₂, s₂⟩ := ihr hr₁ (fun x hx => (hdr x hx).2.2) hheight.2
    have hc₂ : c.addr ∉ released b r := by
      rw [mem_released, not_or]
      exact ⟨hcr, fun hx => (hdr _ hx).2.1 rfl⟩
    have hm₁ : m₁ c.addr = some (c.node (root l) (root r)) := (s₁ _ hc₁).trans hc
    have hm₂ : m₂ c.addr = some (c.node (root l) (root r)) := (s₂ _ hc₂).trans hm₁
    have hgone : ∀ a ∈ released b l ++ released b r, m₂ a = none := by
      intro a ha
      by_cases har : a ∈ released b r
      · exact hgone₂ a har
      · rw [s₂ a har, hgone₁ a ((List.mem_append.mp ha).resolve_right har)]
    have hdata' : (c.node (root l) (root r)).data = c.data := rfl
    have e : root (node c l r) = c.addr := rfl
    have hc' : m c.addr = some (c.node (root l) (root r)) := hc
    rw [e, nodePurge, if_neg h0]
    simp only [hc', Cell.node_left, e₁, hm₁, Cell.node_right, e₂, hm₂, hdata', Option.bind_eq_bind, Option.bind_some]
    by_cases hb : b = true ∧ c.data ≠ 0
    · have hreleased : released b (node c l r) = released b l ++ released b r ++ [c.data, c.addr] := by
        rw [released, if_pos hb]
      rw [hreleased]
      refine ⟨nodeDeinit (nodeDeinit m₂ c.data) c.addr, by rw [if_pos hb]; rfl, ?_, ?_⟩
      · intro a ha
        rw [List.mem_append, List.mem_pair, or_comm, or_assoc, or_left_comm] at ha
        exact update_none_eq_none (ha.imp_right fun ha => update_none_eq_none (ha.imp_right (hgone a)))
      · refine ((s₁.mono ?_).trans (s₂.mono ?_)).trans ((SameOff.update none ?_).trans (SameOff.update none ?_)) <;>
          simp
    · have hreleased : released b (node c l r) = released b l ++ released b r ++ [c.addr] := by
        rw [released, if_neg hb]
      rw [hreleased]
      refine ⟨nodeDeinit m₂ c.addr, by rw [if_neg hb]; rfl, ?_, ?_⟩
      · intro a ha
        rw [List.mem_append, List.mem_singleton, or_comm] at ha
        exact update_none_eq_none (ha.imp_right (hgone a))
      · refine ((s₁.mono ?_).trans (s₂.mono ?_)).trans (SameOff.update none ?_) <;> simp

theorem avlTreeDeinit_refines (b : Bool) {t : AvlTree} {s : Shape} (h : Represents t s)
    (hdata : DataApart b (entries s)) :
    ∃ m, avlTreeDeinit t b = some ({ t with nodes := m }, released b s) ∧
      live m = live t.nodes \ {a | a ∈ released b s} := by
  obtain ⟨m, hm, hgone, hoff⟩ := nodePurge_refines b h.holds hdata h.height_lt
  refine ⟨m, ?_, hoff.live_diff hgone⟩
  rw [avlTreeDeinit, h.root, hm]
  rfl

/-! ## Runs -/

/-- Every allocated node is in the tree. -/
def NoneLost (t : AvlTree) (s : Shape) : Prop := live t.nodes = {a | a ∈ addrs s}

theorem addrs_insert_mem (key : ℤ) (data host n : UInt64) (s : Shape) {x : UInt64} :
    x ∈ addrs (insert key data host n s) ↔ x = n ∨ x ∈ addrs s := by
  have hperm := (entries_insert_perm key data host n s).map Entry.addr
  rw [addrs, hperm.mem_iff, List.map_cons, List.mem_cons]
  rfl

theorem addrs_remove_mem {key : ℤ} {s : Shape} (hnd : (addrs s).Nodup) {x : UInt64} :
    x ∈ addrs (remove key s) ↔ x ∈ addrs s ∧ ∀ c, find key s = some c → x ≠ c.addr := by
  rcases entries_remove key s with ⟨hf, he⟩ | ⟨c, pre, post, hf, he, hr⟩
  · rw [addrs, he, hf]
    simp [addrs]
  · have hmap : addrs s = pre.map Entry.addr ++ c.addr :: post.map Entry.addr := by
      rw [addrs, he, List.map_append, List.map_cons]
      rfl
    have hmap' : addrs (remove key s) = pre.map Entry.addr ++ post.map Entry.addr := by
      rw [addrs, hr, List.map_append]
    rw [hmap, List.nodup_append, List.nodup_cons] at hnd
    obtain ⟨-, ⟨hpost, -⟩, hpre⟩ := hnd
    rw [hmap, hmap', hf, List.mem_append, List.mem_append, List.mem_cons]
    constructor
    · rintro (hx | hx)
      · refine ⟨.inl hx, fun d hd => ?_⟩
        cases hd
        exact hpre x hx _ List.mem_cons_self
      · refine ⟨.inr (.inr hx), fun d hd => ?_⟩
        cases hd
        exact fun e => hpost (e ▸ hx)
    · rintro ⟨hx | hx | hx, hne⟩
      · exact .inl hx
      · exact absurd hx (hne c rfl)
      · exact .inr hx

theorem Step.noneLost {t t' : AvlTree} {op : Op} {s : Shape} (h : Represents t s) (hlive : NoneLost t s)
    (hs : Step t op t') : NoneLost t' (op.shape t.self s) := by
  cases hs with
  | add hn hfree h' =>
    simp only [avlTreeAdd, Option.bind_eq_bind, Option.bind_eq_some_iff, Option.pure_def, Option.some.injEq,
      Prod.mk.injEq] at h'
    obtain ⟨⟨m, root, p⟩, h₁, rfl, -⟩ := h'
    rw [NoneLost, live_treeInsert h₁, hlive]
    ext x
    exact (addrs_insert_mem _ _ _ _ s).symm
  | @remove _ key _ h' =>
    simp only [avlTreeRemove, Option.bind_eq_bind, Option.bind_eq_some_iff, Option.pure_def, Option.some.injEq,
      Prod.mk.injEq] at h'
    obtain ⟨⟨m, root⟩, h₁, rfl, -⟩ := h'
    obtain ⟨x, hx, hm⟩ := live_treeRemoveNode h₁
    rw [h.root, treeFind_refines key h.holds.linked depth h.height_lt, Option.some.injEq] at hx
    have h0 := LinkedAs.zero_notMem h.holds.linked
    rw [NoneLost, hm, hlive]
    ext y
    rw [Set.mem_ofPred_eq, Op.shape, addrs_remove_mem h.holds.nodup, ← hx]
    cases hf : find key s with
    | none => simp
    | some c =>
      have hc : c.addr ≠ 0 := fun e => h0 (e ▸ List.mem_map_of_mem (f := Entry.addr) (find_mem hf).1)
      simp [hc]

theorem run_noneLost {self : UInt64} {h : List (AvlTree × Op)} {t : AvlTree}
    (r : Run Step (avlTreeInit self) h t) : ∃ s, Sane t s ∧ NoneLost t s := by
  apply r.invariant (I := fun t => ∃ s, Sane t s ∧ NoneLost t s)
  · refine ⟨nil, ⟨represents_init self, List.Pairwise.nil, Sound.nil⟩, ?_⟩
    rw [NoneLost, avlTreeInit, live_eq_empty.mpr rfl]
    simp
  · rintro t op t' ⟨s, hs, hlive⟩ hstep
    exact ⟨_, hs.step hstep, hstep.noneLost hs.represents hlive⟩

/-- After any calls the allocated nodes are those of the sequence. `avl_tree_deinit` then returns,
leaves no node allocated, and hands each node to `deallocate` once and nothing else, or beside
them, where it is told to, the data of each node that has any. -/
theorem deinit_frees (self : UInt64) (h : List (AvlTree × Op)) (t : AvlTree) (r : Run Step (avlTreeInit self) h t) :
    ∃ es, Sequence t es ∧ (∀ a, (t.nodes a).isSome ↔ a ∈ es.map Entry.addr) ∧
      ∀ b, DataApart b es → ∃ released,
        avlTreeDeinit t b = some ({ t with nodes := fun _ => none }, released) ∧
          released.Perm (es.map Entry.addr ++ freedData b es) := by
  obtain ⟨s, hs, hlive⟩ := run_noneLost r
  have hmem : ∀ a, (t.nodes a).isSome ↔ a ∈ addrs s := fun a => Set.ext_iff.mp hlive a
  refine ⟨entries s, ⟨s, hs.represents, rfl⟩, hmem, fun b hdata => ?_⟩
  obtain ⟨m, hm, hlive'⟩ := avlTreeDeinit_refines b hs.represents hdata
  refine ⟨released b s, ?_, released_perm b s⟩
  have hnone : live m = ∅ := by
    rw [hlive', hlive, Set.sdiff_eq_empty]
    exact fun a ha => mem_released.mpr (.inl ha)
  rw [hm, live_eq_empty.mp hnone]

/-- The tree of one node, at block 16 with the data 100. -/
theorem one_node : ∃ h t, Run Step (avlTreeInit 8) h t ∧ Sequence t [⟨16, 1, 100⟩] := by
  obtain ⟨t, e, hr⟩ := avlTreeAdd_refines (represents_init 8) 1 100 (n := 16) (by decide) rfl
  exact ⟨_, t, .next .start (.add (by decide) rfl e), _, hr, rfl⟩

theorem deinit_frees_one : ∃ t released, Sequence t [⟨16, 1, 100⟩] ∧
    avlTreeDeinit t true = some ({ t with nodes := fun _ => none }, released) ∧ released.Perm [16, 100] := by
  obtain ⟨h, t, r, hseq⟩ := one_node
  obtain ⟨es, hes, -, hdeinit⟩ := deinit_frees 8 h t r
  rw [hes.unique hseq] at hdeinit
  obtain ⟨released, hd, hperm⟩ := hdeinit true (by simp [DataApart, freedData])
  exact ⟨t, released, hseq, hd, hperm⟩

end Chats.Avl
