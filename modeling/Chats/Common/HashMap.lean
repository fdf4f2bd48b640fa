import Chats.Common.AvlRuns
import Chats.Common.HashFunctions

/-! # Hash maps

`common/hash-map.c`: an AVL tree keyed by hashes. Nothing compares the keys behind the hashes,
so a map is a sorted sequence of nodes in which equal hashes may stand more than once. -/
namespace Chats.Hash
set_option autoImplicit false

open Lib Avl BinaryTree Shape

structure HashMap where
  hasher : List UInt8 → ℤ
  tree : AvlTree

def hashMapInit (self : UInt64) (hasher : List UInt8 → ℤ) : HashMap := { hasher, tree := avlTreeInit self }

/-- `n` is the block that the new node gets. -/
def hashMapInsertByHash (hm : HashMap) (hash : ℤ) (data n : UInt64) : Option (HashMap × UInt64) :=
  (avlTreeAdd hm.tree hash data n).map fun r => ({ hm with tree := r.1 }, r.2)

def hashMapInsertByKey (hm : HashMap) (key : List UInt8) (data n : UInt64) : Option (HashMap × UInt64) :=
  hashMapInsertByHash hm (hm.hasher key) data n

def hashMapGetByHash (hm : HashMap) (hash : ℤ) : Option UInt64 := avlTreeGet hm.tree hash

def hashMapGetByKey (hm : HashMap) (key : List UInt8) : Option UInt64 := hashMapGetByHash hm (hm.hasher key)

def hashMapRemoveByHash (hm : HashMap) (hash : ℤ) : Option (HashMap × Option UInt64) :=
  (avlTreeRemove hm.tree hash).map fun r => ({ hm with tree := r.1 }, r.2)

def hashMapRemoveByKey (hm : HashMap) (key : List UInt8) : Option (HashMap × Option UInt64) :=
  hashMapRemoveByHash hm (hm.hasher key)

def dataAt (hm : HashMap) (p : UInt64) : Option UInt64 := (hm.tree.nodes p).map AvlTreeNode.data

/-! ## The nodes of a map -/

/-- The map's tree is in order and its nodes are `es`. -/
def Contents (hm : HashMap) (es : List Entry) : Prop := ∃ s, Sane hm.tree s ∧ entries s = es

namespace Contents
variable {hm : HashMap} {es es' : List Entry}

theorem sequence (h : Contents hm es) : Sequence hm.tree es := by
  obtain ⟨s, hs, he⟩ := h
  exact ⟨s, hs.represents, he⟩

theorem unique (h : Contents hm es) (h' : Sequence hm.tree es') : es = es' := h.sequence.unique h'

theorem init (self : UInt64) (hasher : List UInt8 → ℤ) : Contents (hashMapInit self hasher) [] :=
  ⟨nil, ⟨represents_init self, List.Pairwise.nil, Sound.nil⟩, rfl⟩

theorem nodup (h : Contents hm es) : (es.map Entry.addr).Nodup := by
  obtain ⟨s, hs, rfl⟩ := h
  exact hs.represents.holds.nodup

theorem dataAt (h : Contents hm es) {e : Entry} (he : e ∈ es) : dataAt hm e.addr = some e.data := by
  obtain ⟨s, hs, rfl⟩ := h
  obtain ⟨c, hc, rfl⟩ := List.mem_map.mp he
  obtain ⟨l, r, hn⟩ := hs.represents.holds.linked.cell_of_mem c hc
  unfold Hash.dataAt
  rw [show c.entry.addr = c.addr from rfl, hn]
  rfl

theorem eq_of_addr (h : Contents hm es) {e e' : Entry} (he : e ∈ es) (he' : e' ∈ es) (ha : e.addr = e'.addr) :
    e = e' := List.inj_on_of_nodup_map h.nodup he he' ha

theorem insert (h : Contents hm es) (hash : ℤ) (data : UInt64) {n : UInt64} (hn : n ≠ 0)
    (hfree : hm.tree.nodes n = none) :
    ∃ hm' es', hashMapInsertByHash hm hash data n = some (hm', n) ∧ Contents hm' es' ∧
      es'.Perm (⟨n, hash, data⟩ :: es) := by
  obtain ⟨s, hs, rfl⟩ := h
  obtain ⟨t, e, _⟩ := avlTreeAdd_refines hs.represents hash data hn hfree
  refine ⟨{ hm with tree := t }, entries (Shape.insert hash data hm.tree.self n s), ?_, ?_, ?_⟩
  · rw [hashMapInsertByHash, e]
    rfl
  · exact ⟨_, hs.step (.add hn hfree e), rfl⟩
  · exact entries_insert_perm hash data hm.tree.self n s

/-- `hash_map_get_by_hash` finds a node with the hash if there is one. -/
theorem get (h : Contents hm es) (hash : ℤ) :
    ∃ p, hashMapGetByHash hm hash = some p ∧ (p = 0 ↔ ∀ e ∈ es, e.key ≠ hash) ∧
      (p ≠ 0 → ∃ e ∈ es, e.addr = p ∧ e.key = hash) := by
  obtain ⟨s, hs, rfl⟩ := h
  exact hs.get hash

/-- `hash_map_remove_by_hash` takes out the node that `hash_map_get_by_hash` finds. -/
theorem remove (h : Contents hm es) (hash : ℤ) :
    ∃ p hm' es', hashMapGetByHash hm hash = some p ∧ hashMapRemoveByHash hm hash = some (hm', none) ∧
      Contents hm' es' ∧ (p = 0 → es' = es) ∧ (p ≠ 0 → ∃ e ∈ es, e.addr = p ∧ e.key = hash ∧ es.Perm (e :: es')) := by
  have hc := h
  obtain ⟨q, hq, _, hfound⟩ := h.get hash
  obtain ⟨s, hs, rfl⟩ := h
  obtain ⟨p, t, hp, ht, h0, hne⟩ := hs.remove hash
  rw [show hashMapGetByHash hm hash = _ from hp, Option.some.injEq] at hq
  have hs' := hs.step (.remove ht)
  have hsame : ∀ es, Sequence t es → es = entries (Shape.remove hash s) := by
    intro es hes
    exact hes.unique ⟨_, hs'.represents, rfl⟩
  refine ⟨p, { hm with tree := t }, entries (Shape.remove hash s), hp, ?_, ⟨_, hs', rfl⟩, ?_, ?_⟩
  · rw [hashMapRemoveByHash, ht]
    rfl
  · intro e
    exact (hsame _ (h0 e)).symm
  · intro e
    obtain ⟨x, pre, post, hx, he, hseq⟩ := hne e
    obtain ⟨y, hy, hya, hyk⟩ := hfound (hq ▸ e)
    have hxm : x ∈ entries s := by simp [he]
    have hxy : x = y := hc.eq_of_addr hxm hy (by rw [hx, hya, hq])
    refine ⟨x, hxm, hx, hxy ▸ hyk, ?_⟩
    rw [← hsame _ hseq, he]
    exact List.perm_middle

end Contents

end Chats.Hash
