import Chats.Common.AvlBalance
import Chats.Common.AvlHeap
import Chats.Lib.Run

/-! # Runs of the AVL tree

Any sequence of `avl_tree_add` and `avl_tree_remove` calls on a tree from `avl_tree_init`, the
allocator choosing any free block for each new node. What one call does is the refinement of
`Chats.Common.AvlHeap`; here it is carried along whole runs. -/
namespace Chats.Avl
set_option autoImplicit false

open Lib Lib.Store BinaryTree Shape

/-- The nodes of `t` are linked, from its root, as the tree `s`. -/
structure Represents (t : AvlTree) (s : Shape) : Prop where
  root : t.root = Shape.root s
  holds : Holds t.nodes s

theorem Cell.node_inj (c d : Cell) (l r l' r' : UInt64) (ha : c.addr = d.addr)
    (h : c.node l r = d.node l' r') : c = d ∧ l = l' ∧ r = r' := by
  cases c
  cases d
  simp only [Cell.node, AvlTreeNode.mk.injEq] at h
  obtain ⟨rfl, rfl, rfl, rfl, rfl, rfl, rfl⟩ := h
  cases ha
  exact ⟨rfl, rfl, rfl⟩

theorem Represents.unique {t : AvlTree} {s s' : Shape} (h : Represents t s) (h' : Represents t s') : s = s' :=
  Linked.unique Cell.node_inj h.holds.linked h'.holds.linked (h.root.symm.trans h'.root)

theorem Represents.numNodes_lt {t : AvlTree} {s : Shape} (h : Represents t s) : s.numNodes < 2 ^ 64 := by
  rw [← addrs_length]
  exact words_length_lt h.holds.nodup (LinkedAs.zero_notMem h.holds.linked)

theorem Represents.height_lt {t : AvlTree} {s : Shape} (h : Represents t s) : s.height < depth :=
  (height_le_numNodes s).trans_lt h.numNodes_lt

theorem represents_init (self : UInt64) : Represents (avlTreeInit self) nil := ⟨rfl, holds_nil _⟩

/-! ## One call -/

theorem avlTreeAdd_refines {t : AvlTree} {s : Shape} (h : Represents t s) (key : ℤ) (data : UInt64) {n : UInt64}
    (hn : n ≠ 0) (hfree : t.nodes n = none) :
    ∃ t', avlTreeAdd t key data n = some (t', n) ∧ Represents t' (insert key data t.self n s) := by
  obtain ⟨m, hm, hh, _⟩ := treeInsert_refines key data t.self n hn depth t.nodes h.holds hfree h.height_lt
  refine ⟨{ t with root := Shape.root (insert key data t.self n s), nodes := m }, ?_, ⟨rfl, hh⟩⟩
  rw [avlTreeAdd, h.root, hm]
  rfl

theorem avlTreeRemove_refines {t : AvlTree} {s : Shape} (h : Represents t s) (key : ℤ) :
    ∃ t', avlTreeRemove t key = some (t', none) ∧ Represents t' (remove key s) := by
  obtain ⟨m, hm, hh, _⟩ := treeRemoveNode_refines key depth t.nodes h.holds h.height_lt
  refine ⟨{ t with root := Shape.root (remove key s), nodes := m }, ?_, ⟨rfl, hh⟩⟩
  rw [avlTreeRemove, h.root, hm]
  rfl

theorem avlTreeGet_refines {t : AvlTree} {s : Shape} (h : Represents t s) (key : ℤ) :
    avlTreeGet t key = some ((find key s).elim 0 Cell.addr) := by
  rw [avlTreeGet, h.root]
  exact treeFind_refines key h.holds.linked depth h.height_lt

/-! ## Runs -/

inductive Op
  | add (key : ℤ) (data n : UInt64)
  | remove (key : ℤ)

/-- One call. The block that `add` gets is any that is not in use. -/
inductive Step : AvlTree → Op → AvlTree → Prop
  | add {t t' : AvlTree} {key : ℤ} {data n p : UInt64} (hn : n ≠ 0) (hfree : t.nodes n = none)
      (h : avlTreeAdd t key data n = some (t', p)) : Step t (.add key data n) t'
  | remove {t t' : AvlTree} {key : ℤ} {data : Option UInt64} (h : avlTreeRemove t key = some (t', data)) :
      Step t (.remove key) t'

def Op.shape (self : UInt64) : Op → Shape → Shape
  | .add key data n => Shape.insert key data self n
  | .remove key => Shape.remove key

theorem Step.refines {t t' : AvlTree} {op : Op} {s : Shape} (h : Represents t s) (hs : Step t op t') :
    Represents t' (op.shape t.self s) := by
  cases hs with
  | add hn hfree h' =>
    obtain ⟨t₁, e, hr⟩ := avlTreeAdd_refines h _ _ hn hfree
    rw [e, Option.some.injEq, Prod.mk.injEq] at h'
    exact h'.1 ▸ hr
  | remove h' =>
    obtain ⟨t₁, e, hr⟩ := avlTreeRemove_refines h _
    rw [e, Option.some.injEq, Prod.mk.injEq] at h'
    exact h'.1 ▸ hr

structure Sane (t : AvlTree) (s : Shape) : Prop where
  represents : Represents t s
  sorted : Sorted s
  sound : Sound s

theorem Sane.step {t t' : AvlTree} {op : Op} {s : Shape} (h : Sane t s) (hs : Step t op t') :
    Sane t' (op.shape t.self s) := by
  have hlt : s.height < 200 := (h.sound.balanced.height_lt h.represents.numNodes_lt).trans (by omega)
  refine ⟨hs.refines h.represents, ?_, ?_⟩
  · cases op with
    | add key data n => exact sorted_insert key data t.self n h.sorted
    | remove key => exact sorted_remove key h.sorted
  · cases op with
    | add key data n => exact (sound_insert key data t.self n h.sound hlt).1
    | remove key => exact (sound_remove key h.sound hlt).1

theorem run_sane {self : UInt64} {h : List (AvlTree × Op)} {t : AvlTree}
    (r : Run Step (avlTreeInit self) h t) : ∃ s, Sane t s := by
  apply r.invariant (I := fun t => ∃ s, Sane t s)
  · exact ⟨nil, represents_init self, List.Pairwise.nil, Sound.nil⟩
  · rintro t op t' ⟨s, hs⟩ hstep
    exact ⟨_, hs.step hstep⟩

theorem Represents.add_step {t : AvlTree} {s : Shape} (h : Represents t s) (key : ℤ) (data : UInt64) {n : UInt64}
    (hn : n ≠ 0) (hfree : t.nodes n = none) : ∃ t', Step t (.add key data n) t' := by
  obtain ⟨t', e, _⟩ := avlTreeAdd_refines h key data hn hfree
  exact ⟨t', .add hn hfree e⟩

theorem Represents.remove_step {t : AvlTree} {s : Shape} (h : Represents t s) (key : ℤ) :
    ∃ t', Step t (.remove key) t' := by
  obtain ⟨t', e, _⟩ := avlTreeRemove_refines h key
  exact ⟨t', .remove e⟩

/-- The tree of two nodes that the calls below build: keys 1 and 2 in the blocks 16 and 32. -/
theorem two_nodes : ∃ h t, Run Step (avlTreeInit 8) h t ∧ h.map Prod.snd = [.add 2 0 32, .add 1 0 16] ∧ t.root ≠ 0 ∧
    t.nodes 48 = none := by
  refine ⟨_, _, .next (.next .start (.add (by decide) rfl rfl)) (.add (by decide) rfl rfl), rfl, ?_, rfl⟩
  decide

/-- After any calls the tree is sorted, has true heights and is balanced, and every further
call returns. The heights need no assumption on the number of nodes: the address space has
room for fewer than `2^64` of them. -/
theorem avl_run_balanced (self : UInt64) (h : List (AvlTree × Op)) (t : AvlTree)
    (r : Run Step (avlTreeInit self) h t) :
    (∃ s, Represents t s ∧ Sorted s ∧ Heights s ∧ HeightBalanced s) ∧
      (∀ key data n, n ≠ 0 → t.nodes n = none → ∃ t', Step t (.add key data n) t') ∧
      ∀ key, ∃ t', Step t (.remove key) t' := by
  obtain ⟨s, hs⟩ := run_sane r
  refine ⟨⟨s, hs.represents, hs.sorted, hs.sound.heights, hs.sound.balanced⟩, ?_, ?_⟩
  · intro key data n hn hfree
    exact hs.represents.add_step key data hn hfree
  · intro key
    exact hs.represents.remove_step key

theorem avl_run_balanced_two : ∃ t s, Represents t s ∧ Sorted s ∧ Heights s ∧ HeightBalanced s ∧ t.root ≠ 0 := by
  obtain ⟨h, t, r, _, h0, _⟩ := two_nodes
  obtain ⟨⟨s, hr, hs, hh, hb⟩, _⟩ := avl_run_balanced 8 h t r
  exact ⟨t, s, hr, hs, hh, hb, h0⟩

/-! ## The tree as a sequence -/

/-- The in-order sequence of nodes of a tree. -/
def Sequence (t : AvlTree) (es : List Entry) : Prop := ∃ s, Represents t s ∧ entries s = es

theorem Sequence.unique {t : AvlTree} {es es' : List Entry} (h : Sequence t es) (h' : Sequence t es') : es = es' := by
  obtain ⟨s, hs, rfl⟩ := h
  obtain ⟨s', hs', rfl⟩ := h'
  rw [hs.unique hs']

/-- `avl_tree_add` on the sequence. -/
theorem Sane.add {t : AvlTree} {s : Shape} (h : Sane t s) (key : ℤ) (data : UInt64) {n : UInt64} (hn : n ≠ 0)
    (hfree : t.nodes n = none) :
    ∃ t' pre post, avlTreeAdd t key data n = some (t', n) ∧ entries s = pre ++ post ∧ (∀ a ∈ pre, a.key ≤ key) ∧
      (∀ b ∈ post, key < b.key) ∧ Sequence t' (pre ++ ⟨n, key, data⟩ :: post) := by
  obtain ⟨t', e, hr⟩ := avlTreeAdd_refines h.represents key data hn hfree
  obtain ⟨pre, post, he, hpre, hpost, hins⟩ := entries_insert key data t.self n s h.sorted
  exact ⟨t', pre, post, e, he, hpre, hpost, _, hr, hins⟩

theorem Sane.get {t : AvlTree} {s : Shape} (h : Sane t s) (key : ℤ) :
    ∃ p, avlTreeGet t key = some p ∧ (p = 0 ↔ ∀ e ∈ entries s, e.key ≠ key) ∧
      (p ≠ 0 → ∃ e ∈ entries s, e.addr = p ∧ e.key = key) := by
  refine ⟨_, avlTreeGet_refines h.represents key, ?_⟩
  have h0 := LinkedAs.zero_notMem h.represents.holds.linked
  cases hf : find key s with
  | none =>
    have hnone := find_none h.sorted hf
    exact ⟨⟨fun _ => hnone, fun _ => rfl⟩, fun hp => absurd rfl hp⟩
  | some c =>
    obtain ⟨hm, hk⟩ := find_mem hf
    have hc : c.addr ≠ 0 := fun e => h0 (e ▸ List.mem_map_of_mem (f := Entry.addr) hm)
    refine ⟨⟨fun e => absurd e hc, fun hall => absurd hk (hall _ hm)⟩, fun _ => ⟨c.entry, hm, rfl, hk⟩⟩

/-- `avl_tree_remove` on the sequence: what `avl_tree_get` finds goes, the rest stays. -/
theorem Sane.remove {t : AvlTree} {s : Shape} (h : Sane t s) (key : ℤ) :
    ∃ p t', avlTreeGet t key = some p ∧ avlTreeRemove t key = some (t', none) ∧ (p = 0 → Sequence t' (entries s)) ∧
      (p ≠ 0 → ∃ e pre post, e.addr = p ∧ entries s = pre ++ e :: post ∧ Sequence t' (pre ++ post)) := by
  obtain ⟨t', e, hr⟩ := avlTreeRemove_refines h.represents key
  refine ⟨_, t', avlTreeGet_refines h.represents key, e, ?_⟩
  have h0 := LinkedAs.zero_notMem h.represents.holds.linked
  rcases entries_remove key s with ⟨hf, he⟩ | ⟨c, pre, post, hf, he, hrem⟩
  · rw [hf]
    exact ⟨fun _ => ⟨_, hr, he⟩, fun hp => absurd rfl hp⟩
  · rw [hf]
    have hc : c.addr ≠ 0 := by
      intro e
      apply h0
      rw [addrs, he]
      simp [← e, Cell.entry]
    exact ⟨fun e => absurd e hc, fun _ => ⟨c.entry, pre, post, rfl, he, _, hr, hrem⟩⟩

/-- Every reachable tree is a sorted sequence of nodes, and the three operations are insertion
behind the keys that are not greater, search, and deletion of the node the search finds. -/
theorem avl_run_sequence (self : UInt64) (h : List (AvlTree × Op)) (t : AvlTree)
    (r : Run Step (avlTreeInit self) h t) :
    ∃ es, Sequence t es ∧ (∀ es', Sequence t es' → es' = es) ∧
      (∀ key data n, n ≠ 0 → t.nodes n = none → ∃ t' pre post, avlTreeAdd t key data n = some (t', n) ∧
        es = pre ++ post ∧ (∀ a ∈ pre, a.key ≤ key) ∧ (∀ b ∈ post, key < b.key) ∧
        Sequence t' (pre ++ ⟨n, key, data⟩ :: post)) ∧
      (∀ key, ∃ p, avlTreeGet t key = some p ∧ (p = 0 ↔ ∀ e ∈ es, e.key ≠ key) ∧
        (p ≠ 0 → ∃ e ∈ es, e.addr = p ∧ e.key = key)) ∧
      ∀ key, ∃ p t', avlTreeGet t key = some p ∧ avlTreeRemove t key = some (t', none) ∧
        (p = 0 → Sequence t' es) ∧
        (p ≠ 0 → ∃ e pre post, e.addr = p ∧ es = pre ++ e :: post ∧ Sequence t' (pre ++ post)) := by
  obtain ⟨s, hs⟩ := run_sane r
  have hseq : Sequence t (entries s) := ⟨s, hs.represents, rfl⟩
  refine ⟨entries s, hseq, fun es' h' => h'.unique hseq, ?_, hs.get, hs.remove⟩
  intro key data n hn hfree
  exact hs.add key data hn hfree

theorem avl_run_sequence_two : ∃ t es, Sequence t es ∧ t.root ≠ 0 ∧ t.nodes 48 = none ∧
    ∃ t' pre post, avlTreeAdd t 1 0 48 = some (t', 48) ∧ es = pre ++ post ∧
      Sequence t' (pre ++ ⟨48, 1, 0⟩ :: post) := by
  obtain ⟨h, t, r, _, h0, hfree⟩ := two_nodes
  obtain ⟨es, hes, _, hadd, _⟩ := avl_run_sequence 8 h t r
  obtain ⟨t', pre, post, e, he, _, _, hs⟩ := hadd 1 0 48 (by decide) hfree
  exact ⟨t, es, hes, h0, hfree, t', pre, post, e, he, hs⟩

end Chats.Avl
