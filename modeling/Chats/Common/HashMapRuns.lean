import Chats.Common.HashMap

/-! # Runs of a hash map

As long as every insertion is of a hash that the map does not have, a hash map is a finite map from
hashes to data. A hash inserted once more stands in the tree twice, since `tree_insert` takes an
equal key for a greater one; then a removal leaves the other node behind. -/
namespace Chats.Hash
set_option autoImplicit false

open Lib Avl BinaryTree Shape

/-- The data of the node that `hash_map_get_by_hash` finds, `none` when it returns NULL. -/
def found (hm : HashMap) (hash : ℤ) : Option UInt64 :=
  (hashMapGetByHash hm hash).bind fun p => if p = 0 then none else dataAt hm p

def foundByKey (hm : HashMap) (key : List UInt8) : Option UInt64 := found hm (hm.hasher key)

/-! ## Calls -/

inductive Op
  | insertByKey (key : List UInt8) (data n : UInt64)
  | insertByHash (hash : ℤ) (data n : UInt64)
  | removeByKey (key : List UInt8)
  | removeByHash (hash : ℤ)

/-- One call. The block that an insertion gets is any that is not in use. -/
inductive Step : HashMap → Op → HashMap → Prop
  | insertByKey {hm hm' : HashMap} {key : List UInt8} {data n p : UInt64} (hn : n ≠ 0)
      (hfree : hm.tree.nodes n = none) (h : hashMapInsertByKey hm key data n = some (hm', p)) :
      Step hm (.insertByKey key data n) hm'
  | insertByHash {hm hm' : HashMap} {hash : ℤ} {data n p : UInt64} (hn : n ≠ 0)
      (hfree : hm.tree.nodes n = none) (h : hashMapInsertByHash hm hash data n = some (hm', p)) :
      Step hm (.insertByHash hash data n) hm'
  | removeByKey {hm hm' : HashMap} {key : List UInt8} {data : Option UInt64}
      (h : hashMapRemoveByKey hm key = some (hm', data)) : Step hm (.removeByKey key) hm'
  | removeByHash {hm hm' : HashMap} {hash : ℤ} {data : Option UInt64}
      (h : hashMapRemoveByHash hm hash = some (hm', data)) : Step hm (.removeByHash hash) hm'

/-- The call inserts no hash that the map already has. -/
def Fresh (hm : HashMap) : Op → Prop
  | .insertByKey key _ _ => hashMapGetByKey hm key = some 0
  | .insertByHash hash _ _ => hashMapGetByHash hm hash = some 0
  | .removeByKey _ => True
  | .removeByHash _ => True

theorem hasher_insert {hm hm' : HashMap} {hash : ℤ} {data n p : UInt64}
    (h : hashMapInsertByHash hm hash data n = some (hm', p)) : hm'.hasher = hm.hasher := by
  obtain ⟨r, _, hr⟩ := Option.map_eq_some_iff.mp h
  rw [← (Prod.mk.inj hr).1]

theorem hasher_remove {hm hm' : HashMap} {hash : ℤ} {data : Option UInt64}
    (h : hashMapRemoveByHash hm hash = some (hm', data)) : hm'.hasher = hm.hasher := by
  obtain ⟨r, _, hr⟩ := Option.map_eq_some_iff.mp h
  rw [← (Prod.mk.inj hr).1]

/-! ## Maps without a hash twice -/

/-- The map holds the nodes `es`, no two of them with one hash. -/
structure Distinct (hm : HashMap) (es : List Entry) : Prop where
  contents : Contents hm es
  keys : (es.map Entry.key).Nodup

namespace Distinct
variable {hm : HashMap} {es : List Entry}

theorem init (self : UInt64) (hasher : List UInt8 → ℤ) : Distinct (hashMapInit self hasher) [] :=
  ⟨Contents.init self hasher, List.nodup_nil⟩

theorem get_eq_zero_iff (h : Contents hm es) (hash : ℤ) :
    hashMapGetByHash hm hash = some 0 ↔ ∀ e ∈ es, e.key ≠ hash := by
  obtain ⟨p, hp, h0, _⟩ := h.get hash
  rw [hp, Option.some.injEq, h0]

theorem get_of_mem (h : Distinct hm es) {e : Entry} (he : e ∈ es) :
    hashMapGetByHash hm e.key = some e.addr ∧ e.addr ≠ 0 := by
  obtain ⟨p, hp, h0, hfound⟩ := h.contents.get e.key
  have hp0 : p ≠ 0 := fun hz => (h0.mp hz) e he rfl
  obtain ⟨e', he', ha, hk⟩ := hfound hp0
  have hsame : e' = e := List.inj_on_of_nodup_map h.keys he' he hk
  rw [hp, ← ha, hsame]
  exact ⟨rfl, hsame ▸ ha ▸ hp0⟩

theorem found_of_mem (h : Distinct hm es) {e : Entry} (he : e ∈ es) : found hm e.key = some e.data := by
  obtain ⟨hget, h0⟩ := h.get_of_mem he
  rw [found, hget, Option.bind_some, if_neg h0, h.contents.dataAt he]

theorem found_eq_some_iff (h : Distinct hm es) (hash : ℤ) (data : UInt64) :
    found hm hash = some data ↔ ∃ e ∈ es, e.key = hash ∧ e.data = data := by
  constructor
  · intro hf
    obtain ⟨p, hp, _, hfound⟩ := h.contents.get hash
    rw [found, hp, Option.bind_some] at hf
    split at hf
    · cases hf
    · next hp0 =>
      obtain ⟨e, he, ha, hk⟩ := hfound hp0
      rw [← ha, h.contents.dataAt he] at hf
      exact ⟨e, he, hk, Option.some.inj hf⟩
  · rintro ⟨e, he, rfl, rfl⟩
    exact h.found_of_mem he

/-- A fresh insertion is the update of a finite map. -/
theorem insert (h : Distinct hm es) {hash : ℤ} (data : UInt64) {n : UInt64} (hn : n ≠ 0)
    (hfree : hm.tree.nodes n = none) (hfresh : hashMapGetByHash hm hash = some 0) :
    ∃ hm' es', hashMapInsertByHash hm hash data n = some (hm', n) ∧ Distinct hm' es' ∧
      hashMapGetByHash hm' hash = some n ∧ dataAt hm' n = some data ∧
      ∀ hash', hash' ≠ hash → found hm' hash' = found hm hash' := by
  obtain ⟨hm', es', e, hc, hperm⟩ := h.contents.insert hash data hn hfree
  have hno := (get_eq_zero_iff h.contents hash).mp hfresh
  have hkeys : (es'.map Entry.key).Nodup := by
    refine (hperm.map Entry.key).nodup_iff.mpr (List.nodup_cons.mpr ⟨?_, h.keys⟩)
    intro hmem
    obtain ⟨x, hx, hk⟩ := List.mem_map.mp hmem
    exact hno x hx hk
  have h' : Distinct hm' es' := ⟨hc, hkeys⟩
  have hnew : (⟨n, hash, data⟩ : Entry) ∈ es' := hperm.mem_iff.mpr List.mem_cons_self
  refine ⟨hm', es', e, h', (h'.get_of_mem hnew).1, hc.dataAt hnew, fun hash' hne => Option.ext fun d => ?_⟩
  rw [h'.found_eq_some_iff, h.found_eq_some_iff]
  constructor
  · rintro ⟨x, hx, hk, hd⟩
    cases List.mem_cons.mp (hperm.mem_iff.mp hx) with
    | inl hx =>
      rw [hx] at hk
      exact absurd hk.symm hne
    | inr hx => exact ⟨x, hx, hk, hd⟩
  · rintro ⟨x, hx, hk, hd⟩
    exact ⟨x, hperm.mem_iff.mpr (List.mem_cons_of_mem _ hx), hk, hd⟩

/-- A removal takes the hash out of the finite map. -/
theorem remove (h : Distinct hm es) (hash : ℤ) :
    ∃ hm' es', hashMapRemoveByHash hm hash = some (hm', none) ∧ Distinct hm' es' ∧
      hashMapGetByHash hm' hash = some 0 := by
  obtain ⟨p, hm', es', hp, e, hc, hsame, htaken⟩ := h.contents.remove hash
  refine ⟨hm', es', e, ?_⟩
  by_cases hp0 : p = 0
  · have hes := hsame hp0
    subst hes
    refine ⟨⟨hc, h.keys⟩, (get_eq_zero_iff hc hash).mpr ((get_eq_zero_iff h.contents hash).mp ?_)⟩
    rw [hp, hp0]
  · obtain ⟨x, _, _, hk, hperm⟩ := htaken hp0
    obtain ⟨hnot, hkeys⟩ := List.nodup_cons.mp ((hperm.map Entry.key).nodup_iff.mp h.keys)
    refine ⟨⟨hc, hkeys⟩, (get_eq_zero_iff hc hash).mpr fun y hy hyk => hnot ?_⟩
    rw [hk, ← hyk]
    exact List.mem_map_of_mem hy

end Distinct

/-! ## The laws of a map -/

/-- What an insertion of a new hash and a removal do, from here. -/
structure Laws (hm : HashMap) : Prop where
  insert : ∀ key data n, n ≠ 0 → hm.tree.nodes n = none → hashMapGetByKey hm key = some 0 →
    ∃ hm' p, hashMapInsertByKey hm key data n = some (hm', n) ∧ hashMapGetByKey hm' key = some p ∧
      p ≠ 0 ∧ dataAt hm' p = some data ∧
      ∀ key', hm.hasher key' ≠ hm.hasher key → foundByKey hm' key' = foundByKey hm key'
  removeByKey : ∀ key, ∃ hm' data, hashMapRemoveByKey hm key = some (hm', data) ∧ hashMapGetByKey hm' key = some 0
  removeByHash : ∀ hash, ∃ hm' data, hashMapRemoveByHash hm hash = some (hm', data) ∧ hashMapGetByHash hm' hash = some 0

theorem Distinct.laws {hm : HashMap} {es : List Entry} (h : Distinct hm es) : Laws hm := by
  refine ⟨?_, ?_, ?_⟩
  · intro key data n hn hfree hfresh
    obtain ⟨hm', _, e, _, hget, hdata, hframe⟩ := h.insert data hn hfree hfresh
    have hhasher := hasher_insert e
    refine ⟨hm', n, e, ?_, hn, hdata, fun key' hne => ?_⟩
    · rw [hashMapGetByKey, hhasher, hget]
    · rw [foundByKey, hhasher]
      exact hframe _ hne
  · intro key
    obtain ⟨hm', _, e, _, hget⟩ := h.remove (hm.hasher key)
    refine ⟨hm', none, e, ?_⟩
    rw [hashMapGetByKey, hasher_remove e, hget]
  · intro hash
    obtain ⟨hm', _, e, _, hget⟩ := h.remove hash
    exact ⟨hm', none, e, hget⟩

theorem Distinct.step {hm hm' : HashMap} {op : Op} (h : ∃ es, Distinct hm es) (hfresh : Fresh hm op)
    (hs : Step hm op hm') : ∃ es, Distinct hm' es := by
  obtain ⟨es, h⟩ := h
  have hinsert : ∀ hash data n p, n ≠ 0 → hm.tree.nodes n = none → hashMapGetByHash hm hash = some 0 →
      hashMapInsertByHash hm hash data n = some (hm', p) → ∃ es, Distinct hm' es := by
    intro hash data n p hn hfree hnew hcall
    obtain ⟨_, es', e, h', _⟩ := h.insert data hn hfree hnew
    rw [e, Option.some.injEq, Prod.mk.injEq] at hcall
    exact ⟨es', hcall.1 ▸ h'⟩
  have hremove : ∀ hash data, hashMapRemoveByHash hm hash = some (hm', data) → ∃ es, Distinct hm' es := by
    intro hash data hcall
    obtain ⟨_, es', e, h', _⟩ := h.remove hash
    rw [e, Option.some.injEq, Prod.mk.injEq] at hcall
    exact ⟨es', hcall.1 ▸ h'⟩
  cases hs with
  | insertByKey hn hfree e => exact hinsert _ _ _ _ hn hfree hfresh e
  | insertByHash hn hfree e => exact hinsert _ _ _ _ hn hfree hfresh e
  | removeByKey e => exact hremove _ _ e
  | removeByHash e => exact hremove _ _ e

/-- After a hash has been inserted once more, a removal of it leaves a node that is still found. -/
theorem not_laws_of_twice {hm hm' : HashMap} {es : List Entry} (h : Contents hm es) {hash : ℤ} {data n p : UInt64}
    (hn : n ≠ 0) (hfree : hm.tree.nodes n = none) (hthere : hashMapGetByHash hm hash ≠ some 0)
    (e : hashMapInsertByHash hm hash data n = some (hm', p)) : ¬ Laws hm' := by
  intro hl
  obtain ⟨_, es₁, e₁, hc₁, hperm₁⟩ := h.insert hash data hn hfree
  rw [e₁, Option.some.injEq, Prod.mk.injEq] at e
  obtain ⟨rfl, _⟩ := e
  obtain ⟨hm₂, stale, e₂, hgone⟩ := hl.removeByHash hash
  obtain ⟨q, _, es₂, hq, e₃, hc₂, hsame, htaken⟩ := hc₁.remove hash
  rw [e₃, Option.some.injEq, Prod.mk.injEq] at e₂
  obtain ⟨rfl, _⟩ := e₂
  have hno := (Distinct.get_eq_zero_iff hc₂ hash).mp hgone
  have hcount₂ : es₂.countP (fun y => y.key = hash) = 0 := by
    rw [List.countP_eq_zero]
    exact fun y hy => by simpa using hno y hy
  have hcount : es.countP (fun y => y.key = hash) ≠ 0 := by
    rw [ne_eq, List.countP_eq_zero]
    intro hnone
    exact hthere ((Distinct.get_eq_zero_iff h hash).mpr fun y hy => by simpa using hnone y hy)
  -- Two nodes had the hash, and at most one of them is taken.
  have hcount₁ : es₁.countP (fun y => y.key = hash) = es.countP (fun y => y.key = hash) + 1 := by
    rw [hperm₁.countP_eq, List.countP_cons_of_pos (by simp)]
  by_cases hq0 : q = 0
  · rw [hsame hq0] at hcount₂
    omega
  · obtain ⟨y, _, _, hyk, hperm⟩ := htaken hq0
    rw [hperm.countP_eq, List.countP_cons_of_pos (by simpa using hyk)] at hcount₁
    omega

/-- The laws hold in every state of a run exactly when no call of the run inserted a hash that the map
had. -/
theorem map_laws_iff (self : UInt64) (hasher : List UInt8 → ℤ) (h : List (HashMap × Op)) (hm : HashMap)
    (r : Run Step (hashMapInit self hasher) h hm) : (∀ x ∈ visited h hm, Laws x) ↔ ∀ e ∈ h, Fresh e.1 e.2 := by
  refine r.forall_iff (I := fun x => ∃ es, Distinct x es) ⟨[], Distinct.init self hasher⟩ ?_ ?_ ?_
  · rintro x ⟨es, hx⟩
    exact hx.laws
  · intro x op x' hx hfresh hs
    exact Distinct.step hx hfresh hs
  · rintro x op x' ⟨es, hx⟩ hnot hs
    cases hs with
    | insertByKey hn hfree e => exact not_laws_of_twice hx.contents hn hfree hnot e
    | insertByHash hn hfree e => exact not_laws_of_twice hx.contents hn hfree hnot e
    | removeByKey e => exact absurd trivial hnot
    | removeByHash e => exact absurd trivial hnot

/-! ## A key inserted twice -/

theorem map_laws_one_key : ∃ h hm, Run Step (hashMapInit 8 pearsonHash) h hm ∧
    h = [(hashMapInit 8 pearsonHash, .insertByKey [0x61] 7 16)] ∧ ∀ x ∈ visited h hm, Laws x := by
  obtain ⟨hm, hs⟩ : ∃ hm, Step (hashMapInit 8 pearsonHash) (.insertByKey [0x61] 7 16) hm :=
    ⟨_, .insertByKey (by decide) rfl rfl⟩
  refine ⟨_, hm, .next .start hs, rfl, (map_laws_iff 8 pearsonHash _ hm (.next .start hs)).mpr ?_⟩
  intro e he
  rw [List.mem_singleton.mp he]
  exact rfl

/-- The first node is the one that is found, and the second is still there after a removal. -/
theorem key_inserted_twice : ∃ h hm, Run Step (hashMapInit 8 pearsonHash) h hm ∧
    h.map Prod.snd = [.insertByKey [0x61] 9 32, .insertByKey [0x61] 7 16] ∧ foundByKey hm [0x61] = some 7 ∧
    ∃ hm' data, hashMapRemoveByKey hm [0x61] = some (hm', data) ∧ hashMapGetByKey hm' [0x61] = some 32 := by
  refine ⟨_, _, .next (.next .start (.insertByKey (by decide) rfl rfl)) (.insertByKey (by decide) rfl rfl),
    rfl, rfl, ?_⟩
  exact ⟨_, _, rfl, rfl⟩

/-! ## What a removal returns -/

/-- The data of the node that `avl_tree_get` returned, NULL when it returned none. -/
def dataOf (t : AvlTree) (p : UInt64) : UInt64 := if p = 0 then 0 else ((t.nodes p).map AvlTreeNode.data).getD 0

/-- `avl_tree_remove` returns what is on the stack where its local `data` is, here `stale`, and so
does `hash_map_remove_by_hash`. -/
theorem remove_returns_iff (self : UInt64) (h : List (AvlTree × Avl.Op)) (t : AvlTree)
    (r : Run Avl.Step (avlTreeInit self) h t) (key : ℤ) (stale : UInt64) :
    ∃ p t' data, avlTreeGet t key = some p ∧ (p ≠ 0 → ∃ c, t.nodes p = some c ∧ c.key = key) ∧
      avlTreeRemove t key = some (t', data) ∧ (data.getD stale = dataOf t p ↔ stale = dataOf t p) ∧
      ∀ hasher, hashMapRemoveByHash ⟨hasher, t⟩ key = some (⟨hasher, t'⟩, data) := by
  obtain ⟨s, hs⟩ := run_sane r
  obtain ⟨p, hget, _, hfound⟩ := hs.get key
  obtain ⟨t', hrem, _⟩ := avlTreeRemove_refines hs.represents key
  refine ⟨p, t', none, hget, ?_, hrem, Iff.rfl, fun hasher => ?_⟩
  · intro hp
    obtain ⟨e, he, ha, hk⟩ := hfound hp
    obtain ⟨c, hc, hce⟩ := List.mem_map.mp he
    obtain ⟨l, r, hn⟩ := hs.represents.holds.linked.cell_of_mem c hc
    subst hce
    exact ⟨_, (show c.addr = p from ha) ▸ hn, hk⟩
  · rw [hashMapRemoveByHash, hrem]
    rfl

theorem remove_returns_two : ∃ h t p t' data, Run Avl.Step (avlTreeInit 8) h t ∧ avlTreeGet t 1 = some p ∧
    avlTreeRemove t 1 = some (t', data) ∧ (data.getD 5 = dataOf t p ↔ 5 = dataOf t p) := by
  obtain ⟨h, t, r, _⟩ := two_nodes
  obtain ⟨p, t', data, hget, _, hrem, hiff, _⟩ := remove_returns_iff 8 h t r 1 5
  exact ⟨h, t, p, t', data, r, hget, hrem, hiff⟩

/-- One node with data 7, and 0 on the stack: the removal returns NULL. -/
theorem data_not_returned : ∃ h t t' data, Run Avl.Step (avlTreeInit 8) h t ∧ avlTreeGet t 1 = some 16 ∧
    dataOf t 16 = 7 ∧ avlTreeRemove t 1 = some (t', data) ∧ data.getD 0 ≠ 7 := by
  refine ⟨_, _, _, none, .next .start (show Avl.Step (avlTreeInit 8) (.add 1 7 16) _ from .add (by decide) rfl rfl),
    rfl, rfl, rfl, ?_⟩
  decide

end Chats.Hash
