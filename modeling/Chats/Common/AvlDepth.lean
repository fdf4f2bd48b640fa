import Chats.Common.AvlDeinit
import Chats.Lib.Budget

/-! # How deep the recursions go

The functions of `common/avl-tree.c` call themselves once for each level that they go down. On a
tree that additions and removals built this is logarithmic in the number of nodes. -/
namespace Chats.Avl
set_option autoImplicit false

open Lib Lib.Store BinaryTree Shape

theorem treeFind_agrees {d d' : ℕ} (hd : d ≤ d') (m : Nodes) (p : UInt64) (key : ℤ) :
    Agrees (treeFind d m p key) (treeFind d' m p key) := by
  induction d generalizing d' p with
  | zero => exact Agrees.none _
  | succ d ih =>
    obtain ⟨d', rfl⟩ := Nat.exists_eq_succ_of_ne_zero (Nat.ne_of_gt (Nat.zero_lt_of_lt hd))
    have hle : d ≤ d' := Nat.le_of_succ_le_succ hd
    refine Agrees.ite (fun _ => Agrees.refl _) fun _ => Agrees.bind (Agrees.refl _) fun c => ?_
    refine Agrees.ite (fun _ => ih hle _) fun _ => ?_
    exact Agrees.ite (fun _ => ih hle _) fun _ => Agrees.refl _

theorem treeInsert_agrees {d d' : ℕ} (hd : d ≤ d') (m : Nodes) (p : UInt64) (key : ℤ) (data host n : UInt64) :
    Agrees (treeInsert d m p key data host n) (treeInsert d' m p key data host n) := by
  induction d generalizing d' p with
  | zero => exact Agrees.none _
  | succ d ih =>
    obtain ⟨d', rfl⟩ := Nat.exists_eq_succ_of_ne_zero (Nat.ne_of_gt (Nat.zero_lt_of_lt hd))
    have hle : d ≤ d' := Nat.le_of_succ_le_succ hd
    refine Agrees.ite (fun _ => Agrees.refl _) fun _ => Agrees.bind (Agrees.refl _) fun c => ?_
    refine Agrees.ite (fun _ => ?_) fun _ => ?_
    · exact Agrees.bind (ih hle _) fun _ => Agrees.refl _
    · exact Agrees.bind (ih hle _) fun _ => Agrees.refl _

theorem avlTreeMin_agrees {d d' : ℕ} (hd : d ≤ d') (m : Nodes) (p : UInt64) :
    Agrees (avlTreeMin d m p) (avlTreeMin d' m p) := by
  induction d generalizing d' p with
  | zero => exact Agrees.none _
  | succ d ih =>
    obtain ⟨d', rfl⟩ := Nat.exists_eq_succ_of_ne_zero (Nat.ne_of_gt (Nat.zero_lt_of_lt hd))
    have hle : d ≤ d' := Nat.le_of_succ_le_succ hd
    refine Agrees.bind (Agrees.refl _) fun c => ?_
    exact Agrees.ite (fun _ => Agrees.refl _) fun _ => ih hle _

theorem treeRemoveMinimumNode_agrees {d d' : ℕ} (hd : d ≤ d') (m : Nodes) (p : UInt64) :
    Agrees (treeRemoveMinimumNode d m p) (treeRemoveMinimumNode d' m p) := by
  induction d generalizing d' p with
  | zero => exact Agrees.none _
  | succ d ih =>
    obtain ⟨d', rfl⟩ := Nat.exists_eq_succ_of_ne_zero (Nat.ne_of_gt (Nat.zero_lt_of_lt hd))
    have hle : d ≤ d' := Nat.le_of_succ_le_succ hd
    refine Agrees.bind (Agrees.refl _) fun c => ?_
    exact Agrees.ite (fun _ => Agrees.refl _) fun _ => Agrees.bind (ih hle _) fun _ => Agrees.refl _

theorem treeRemoveNode_agrees {d d' : ℕ} (hd : d ≤ d') (m : Nodes) (p : UInt64) (key : ℤ) :
    Agrees (treeRemoveNode d m p key) (treeRemoveNode d' m p key) := by
  induction d generalizing d' p with
  | zero => exact Agrees.none _
  | succ d ih =>
    obtain ⟨d', rfl⟩ := Nat.exists_eq_succ_of_ne_zero (Nat.ne_of_gt (Nat.zero_lt_of_lt hd))
    have hle : d ≤ d' := Nat.le_of_succ_le_succ hd
    refine Agrees.ite (fun _ => Agrees.refl _) fun _ => Agrees.bind (Agrees.refl _) fun c => ?_
    refine Agrees.ite (fun _ => Agrees.bind (ih hle _) fun _ => Agrees.refl _) fun _ => ?_
    refine Agrees.ite (fun _ => Agrees.bind (ih hle _) fun _ => Agrees.refl _) fun _ => ?_
    refine Agrees.ite (fun _ => Agrees.refl _) fun _ => ?_
    refine Agrees.bind (avlTreeMin_agrees hle _ _) fun _ => ?_
    exact Agrees.bind (treeRemoveMinimumNode_agrees hle _ _) fun _ => Agrees.refl _

theorem nodePurge_agrees {d d' : ℕ} (hd : d ≤ d') (m : Nodes) (p : UInt64) (b : Bool) :
    Agrees (nodePurge d m p b) (nodePurge d' m p b) := by
  induction d generalizing d' m p with
  | zero => exact Agrees.none _
  | succ d ih =>
    obtain ⟨d', rfl⟩ := Nat.exists_eq_succ_of_ne_zero (Nat.ne_of_gt (Nat.zero_lt_of_lt hd))
    have hle : d ≤ d' := Nat.le_of_succ_le_succ hd
    refine Agrees.ite (fun _ => Agrees.refl _) fun _ => Agrees.bind (Agrees.refl _) fun c => ?_
    refine Agrees.bind (ih hle _ _) fun _ => Agrees.bind (Agrees.refl _) fun c => ?_
    exact Agrees.bind (ih hle _ _) fun _ => Agrees.refl _

/-- On a tree of `N` nodes that any calls built, every recursion ends within `d` nested calls, for
each `d` with `N + 1 < fib (d + 2)`, and so within 92 whatever the tree. -/
theorem recursion_depth (self : UInt64) (h : List (AvlTree × Op)) (t : AvlTree)
    (r : Run Step (avlTreeInit self) h t) :
    ∃ es, Sequence t es ∧ es.length + 1 < Nat.fib (92 + 2) ∧ ∀ d, es.length + 1 < Nat.fib (d + 2) → d ≤ depth →
      (∀ key data n, n ≠ 0 → t.nodes n = none → ∃ x, treeInsert d t.nodes t.root key data t.self n = some x ∧
        treeInsert depth t.nodes t.root key data t.self n = some x) ∧
      (∀ key, ∃ x, treeRemoveNode d t.nodes t.root key = some x ∧ treeRemoveNode depth t.nodes t.root key = some x) ∧
      (∀ key, ∃ p, treeFind d t.nodes t.root key = some p ∧ avlTreeGet t key = some p) ∧
      ∀ b, DataApart b es → ∃ x, nodePurge d t.nodes t.root b = some x ∧ nodePurge depth t.nodes t.root b = some x := by
  obtain ⟨s, hs⟩ := run_sane r
  have hlen : (entries s).length = s.numNodes := by rw [entries, List.length_map, inorder_length]
  have hfib : 2 ^ 64 < Nat.fib (92 + 2) := by decide +kernel
  have hbound : ∀ d, (entries s).length + 1 < Nat.fib (d + 2) → s.height < d := by
    intro d hd
    by_contra hge
    have hmono : Nat.fib (d + 2) ≤ Nat.fib (s.height + 2) := Nat.fib_mono (by omega)
    have := hs.sound.balanced.fib_le
    omega
  refine ⟨entries s, ⟨s, hs.represents, rfl⟩, ?_, fun d hd hle => ⟨?_, ?_, ?_, ?_⟩⟩
  · have := hs.represents.numNodes_lt
    omega
  · intro key data n hn hfree
    obtain ⟨m, e, -⟩ := treeInsert_refines key data t.self n hn d t.nodes hs.represents.holds hfree (hbound d hd)
    rw [hs.represents.root]
    exact ⟨_, e, treeInsert_agrees hle _ _ _ _ _ _ _ e⟩
  · intro key
    obtain ⟨m, e, -⟩ := treeRemoveNode_refines key d t.nodes hs.represents.holds (hbound d hd)
    rw [hs.represents.root]
    exact ⟨_, e, treeRemoveNode_agrees hle _ _ _ _ e⟩
  · intro key
    have e := treeFind_refines key hs.represents.holds.linked d (hbound d hd)
    rw [avlTreeGet, hs.represents.root]
    exact ⟨_, e, treeFind_agrees hle _ _ _ _ e⟩
  · intro b hdata
    obtain ⟨m, e, -⟩ := nodePurge_refines b hs.represents.holds hdata (hbound d hd)
    rw [hs.represents.root]
    exact ⟨_, e, nodePurge_agrees hle _ _ _ _ e⟩

theorem recursion_depth_one : ∃ t, Sequence t [⟨16, 1, 100⟩] ∧
    (∃ p, treeFind 2 t.nodes t.root 5 = some p ∧ avlTreeGet t 5 = some p) ∧
    ∃ x, nodePurge 2 t.nodes t.root true = some x ∧ nodePurge depth t.nodes t.root true = some x := by
  obtain ⟨h, t, r, hseq⟩ := one_node
  obtain ⟨es, hes, -, hdepth⟩ := recursion_depth 8 h t r
  rw [hes.unique hseq] at hdepth
  obtain ⟨-, -, hfind, hpurge⟩ := hdepth 2 (by decide) (by decide)
  exact ⟨t, hseq, hfind 5, hpurge true (by simp [DataApart, freedData])⟩

end Chats.Avl
