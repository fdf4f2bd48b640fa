import Chats.Common.AvlDeinit
import Chats.Common.HashMap

/-! # The end of a hash map

`hash_map_deinit` of `common/hash-map.c`. A map loses none of its nodes, so all of them are released. -/
namespace Chats.Hash
set_option autoImplicit false

open Lib Avl

/-- `hash_map_deinit`, but for the hasher, which it clears and only `hash_map_init` sets again. -/
def hashMapDeinit (hm : HashMap) (deallocateData : Bool) : Option (HashMap × List UInt64) :=
  (avlTreeDeinit hm.tree deallocateData).map fun r => ({ hm with tree := r.1 }, r.2)

/-- The map is in order, and every node that is allocated is one of its own. -/
def Whole (hm : HashMap) : Prop := ∃ s, Sane hm.tree s ∧ NoneLost hm.tree s

theorem Whole.init (self : UInt64) (hasher : List UInt8 → ℤ) : Whole (hashMapInit self hasher) :=
  run_noneLost (h := []) .start

theorem Whole.step {hm : HashMap} (h : Whole hm) {op : Avl.Op} {t : AvlTree} (hs : Avl.Step hm.tree op t) :
    Whole { hm with tree := t } := by
  obtain ⟨s, hs', hlive⟩ := h
  exact ⟨_, hs'.step hs, hs.noneLost hs'.represents hlive⟩

theorem Whole.insert {hm hm' : HashMap} (h : Whole hm) {hash : ℤ} {data n p : UInt64}
    (hn : n ≠ 0 ∧ hm.tree.nodes n = none) (e : hashMapInsertByHash hm hash data n = some (hm', p)) : Whole hm' := by
  obtain ⟨⟨t, q⟩, ht, he⟩ := Option.map_eq_some_iff.mp e
  obtain ⟨rfl, -⟩ := Prod.mk.inj he
  exact h.step (.add hn.1 hn.2 ht)

theorem Whole.remove {hm hm' : HashMap} (h : Whole hm) {hash : ℤ} {data : Option UInt64}
    (e : hashMapRemoveByHash hm hash = some (hm', data)) : Whole hm' := by
  obtain ⟨⟨t, q⟩, ht, he⟩ := Option.map_eq_some_iff.mp e
  obtain ⟨rfl, -⟩ := Prod.mk.inj he
  exact h.step (.remove ht)

/-- Without its data a map is released whole. -/
theorem Whole.deinit {hm : HashMap} (h : Whole hm) :
    ∃ hm' released, hashMapDeinit hm false = some (hm', released) ∧ hm'.tree.nodes = fun _ => none := by
  obtain ⟨s, hs, hlive⟩ := h
  obtain ⟨m, e, hm'⟩ := avlTreeDeinit_refines false hs.represents (by simp [DataApart, freedData])
  refine ⟨_, _, by rw [hashMapDeinit, e]; rfl, Store.live_eq_empty.mp ?_⟩
  rw [hm', hlive, Set.sdiff_eq_empty]
  exact fun a ha => mem_released.mpr (.inl ha)

end Chats.Hash
