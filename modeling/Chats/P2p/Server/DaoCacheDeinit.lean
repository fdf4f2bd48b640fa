import Chats.Common.HashMapDeinit
import Chats.Common.LinkedListDeinit
import Chats.P2p.Server.DaoCacheRefusals

/-! # The end of the client directory

What the cache has allocated is at every moment in its two lists and its three maps, whatever was
called and whatever the maps have come to hold. So `dao_cache_deinit` leaves nothing behind. -/
namespace Chats.Dao
set_option autoImplicit false

open Lib Hash LinkedList

/-- What a store keeps of the data of the elements that are still there. -/
def keptBehind {α : Type} (mem : Memory) (data : Store UInt64 α) : Store UInt64 α := fun d =>
  if (mem.elements (getListElement d)).isSome then data d else none

/-- `dao_cache_deinit`. The database that `dao_deinit` closes keeps its rows. -/
def daoCacheDeinit (c : DaoCache) : Option DaoCache :=
  if c.initialized = false then none
  else do
    let c ← c.lock
    let (hmById, _) ← hashMapDeinit c.hmById false
    let (hmByNickname, _) ← hashMapDeinit c.hmByNickname false
    let (hmByAddr, _) ← hashMapDeinit c.hmByAddr false
    let mem ← listDeinit c.mem c.dceList
    let mem ← listDeinit mem c.daoList
    some { c with
      mem, hmById, hmByNickname, hmByAddr, dceList := 0, daoList := 0, initialized := false, mtx := false
      clients := keptBehind mem c.clients
      elements := keptBehind mem c.elements }

/-! ## What the cache has allocated -/

/-- The memory holds the two lists with their elements, and the maps hold their nodes, and no more. -/
structure Tidy (c : DaoCache) : Prop where
  owned : Owned c.mem
  lists : ∀ l, (c.mem.lists l).isSome → l = c.daoList ∨ l = c.dceList
  maps : ∀ i, Whole (c.hm i)

theorem lists_of_changes {m m' : Memory} {l : UInt64} {xs xs' : List UInt64} (h : Changes m m' l xs xs') {k : UInt64}
    (hk : (m'.lists k).isSome) : (m.lists k).isSome := by
  by_cases e : k = l
  · obtain ⟨hd, hl, -⟩ := h.before.head
    rw [e, hl]
    rfl
  · rwa [h.lists k e] at hk

/-- In an owned memory a removal needs no promise from its caller. -/
theorem listRemoveElement_owned {m m' : Memory} {l el : UInt64} (hm : Owned m)
    (h : listRemoveElement m l el = some m') :
    Owned m' ∧ ∀ k, (m'.lists k).isSome → (m.lists k).isSome := by
  obtain ⟨⟨m₁, p⟩, h₁, rfl⟩ := Option.map_eq_some_iff.mp h
  have hback : payload (getListElement el) = el := UInt64.sub_add_cancel _ _
  unfold removeTpl at h₁
  split_ifs at h₁ with h0
  · obtain ⟨rfl, -⟩ := Prod.mk.inj (Option.some.inj h₁)
    exact ⟨hm, fun k hk => hk⟩
  · obtain ⟨e, he, h₂⟩ := Option.bind_eq_some_iff.mp h₁
    obtain ⟨k, xs, hxs, hx⟩ := hm.owner _ (Option.isSome_of_eq_some he)
    by_cases hkl : k = l
    · subst hkl
      obtain ⟨ys, zs, rfl⟩ := List.append_of_mem hx
      obtain ⟨m₂, hc, hrem⟩ := removeTpl_spec hxs
      have h₃ := hrem fun _ => 0
      rw [hback, removeTpl, if_neg h0] at h₃
      obtain ⟨rfl, -⟩ := Prod.mk.inj (Option.some.inj (h₁.symm.trans h₃))
      exact ⟨hc.owned hm, fun k hk => lists_of_changes hc hk⟩
    · have h₃ := removeTpl_refused (fun _ => 0) hxs hx hkl
      rw [hback, removeTpl, if_neg h0] at h₃
      obtain ⟨rfl, -⟩ := Prod.mk.inj (Option.some.inj (h₁.symm.trans h₃))
      exact ⟨hm, fun k hk => hk⟩

theorem Tidy.step {c c' : DaoCache} {xs ys xs' ys' : List UInt64} {call : AnyCall} (h : Tidy c)
    (hm : Managed c xs ys) (he : Effect c c' xs ys call xs' ys') : Tidy c' := by
  cases he with
  | @kept nickname host port dao hc hdao hnull =>
    subst hc
    exact ⟨h.owned, h.lists, fun i => DaoCache.hm_dao c dao i ▸ h.maps i⟩
  | @added nickname host port g id hg hsql hrow hadds =>
    obtain ⟨m, e₁, e₂⟩ := hadds.appended
    obtain ⟨m₁, e₁', hc₁⟩ := listAppend_spec hm.daoList hg.client
    obtain ⟨rfl, -⟩ := Prod.mk.inj (Option.some.inj (e₁.symm.trans e₁'))
    have hfresh := hg.element_free hm.toCached hc₁
    obtain ⟨m₂, e₂', hc₂⟩ := listAppend_spec (hc₁.othersKept _ _ hm.lists_ne.symm hm.dceList) hfresh
    obtain ⟨rfl, -⟩ := Prod.mk.inj (Option.some.inj (e₂.symm.trans e₂'))
    refine ⟨hc₂.owned (hc₁.owned h.owned), fun l hl => ?_, fun i => ?_⟩
    · rw [hadds.lists.1, hadds.lists.2]
      exact h.lists l (lists_of_changes hc₁ (lists_of_changes hc₂ hl))
    · exact (h.maps i).insert (hg.node nickname host port id i) (hadds.maps i)
  | removed hcall hys hel hremoves =>
    obtain ⟨m, e₁, e₂⟩ := hremoves.unlinked
    obtain ⟨ho₁, hl₁⟩ := listRemoveElement_owned h.owned e₁
    obtain ⟨ho₂, hl₂⟩ := listRemoveElement_owned ho₁ e₂
    refine ⟨ho₂, fun l hl => ?_, fun i => (h.maps i).remove (hremoves.maps i)⟩
    rw [hremoves.lists.1, hremoves.lists.2]
    exact h.lists l (hl₁ l (hl₂ l hl))

theorem emptyCache_tidy {daoList dceList : UInt64} (byId byNickname byAddr : UInt64) (h₁ : daoList ≠ 0)
    (h₂ : dceList ≠ 0) (hne : daoList ≠ dceList) : Tidy (emptyCache daoList dceList byId byNickname byAddr) := by
  have hmem : (emptyCache daoList dceList byId byNickname byAddr).mem =
      { lists := Function.update (Function.update (fun _ => none) daoList (some ⟨0, 288, 0, 0⟩)) dceList
          (some ⟨0, 56, 0, 0⟩)
        elements := fun _ => none } := by
    simp only [emptyCache, listInit, if_neg h₁, if_neg h₂, start]
  have hr : Run LinkedList.AnyStep start _ (emptyCache daoList dceList byId byNickname byAddr).mem :=
    .next (.next .start (.op (.init h₁ rfl))) (.op (.init h₂ (by
      simp only [listInit, if_neg h₁]
      exact Function.update_of_ne hne.symm ..)))
  refine ⟨run_owned hr, fun l hl => ?_, fun i => ?_⟩
  · by_contra hnot
    have hn₁ : l ≠ daoList := fun e => hnot (.inl e)
    have hn₂ : l ≠ dceList := fun e => hnot (.inr e)
    rw [hmem] at hl
    dsimp only at hl
    rw [Function.update_of_ne hn₂, Function.update_of_ne hn₁] at hl
    cases hl
  · cases i <;> exact Whole.init _ _

/-! ## The end -/

theorem Tidy.deinit {c : DaoCache} {xs ys : List UInt64} (h : Tidy c) (hm : Managed c xs ys) :
    ∃ c', daoCacheDeinit c = some c' ∧ c'.initialized = false ∧ c'.mtx = false ∧ c'.mem = start ∧
      (∀ i, (c'.hm i).tree.nodes = fun _ => none) ∧ (c'.clients = fun _ => none) ∧ (c'.elements = fun _ => none) ∧
      c'.dao = c.dao := by
  obtain ⟨hmI, rI, eI, hI⟩ := (h.maps .id).deinit
  obtain ⟨hmN, rN, eN, hN⟩ := (h.maps .nickname).deinit
  obtain ⟨hmA, rA, eA, hA⟩ := (h.maps .addr).deinit
  obtain ⟨m₁, e₁, hlists₁, hgone₁, hoff₁⟩ := listDeinit_spec hm.dceList
  have hxs := listDeinit_othersKept hm.dceList hlists₁ hoff₁ _ _ hm.lists_ne hm.daoList
  obtain ⟨m₂, e₂, hlists₂, hgone₂, hoff₂⟩ := listDeinit_spec hxs
  have ho := listDeinit_owned (listDeinit_owned h.owned hm.dceList hlists₁ hgone₁ hoff₁) hxs hlists₂ hgone₂ hoff₂
  have hempty : m₂ = start := by
    refine ho.empty fun l => ?_
    rw [hlists₂, hlists₁]
    by_cases hl₁ : l = c.daoList
    · rw [hl₁, Function.update_self]
    · rw [Function.update_of_ne hl₁]
      by_cases hl₂ : l = c.dceList
      · rw [hl₂, Function.update_self]
      · rw [Function.update_of_ne hl₂, ← Option.not_isSome_iff_eq_none]
        exact fun hs => (h.lists l hs).elim hl₁ hl₂
  refine ⟨{ c with
    mem := m₂, hmById := hmI, hmByNickname := hmN, hmByAddr := hmA, dceList := 0, daoList := 0
    initialized := false, mtx := false
    clients := keptBehind m₂ c.clients
    elements := keptBehind m₂ c.elements }, ?_, rfl, rfl, hempty, ?_, ?_, ?_, rfl⟩
  · unfold daoCacheDeinit
    rw [if_neg (by simp [hm.initialized]), lock_eq hm.unlocked]
    have eI' : hashMapDeinit c.hmById false = some (hmI, rI) := eI
    have eN' : hashMapDeinit c.hmByNickname false = some (hmN, rN) := eN
    have eA' : hashMapDeinit c.hmByAddr false = some (hmA, rA) := eA
    simp only [Option.bind_eq_bind, Option.bind_some, eI', eN', eA', e₁, e₂]
  · intro i
    cases i with
    | id => exact hI
    | nickname => exact hN
    | addr => exact hA
  · funext d
    simp [keptBehind, hempty, start]
  · funext d
    simp [keptBehind, hempty, start]

/-- After any calls `dao_cache_deinit` returns. It leaves no list, no element, no node and no data
allocated, the cache uninitialised and its mutex free, and the rows of the table as they were. -/
theorem deinit_after_run (daoList dceList byId byNickname byAddr : UInt64) (h₁ : daoList ≠ 0) (h₂ : dceList ≠ 0)
    (hne : daoList ≠ dceList) (h : List (DaoCache × AnyCall)) (c : DaoCache)
    (r : Run AnyStep (emptyCache daoList dceList byId byNickname byAddr) h c) :
    ∃ c', daoCacheDeinit c = some c' ∧ c'.initialized = false ∧ c'.mtx = false ∧ c'.mem = start ∧
      (∀ i, (c'.hm i).tree.nodes = fun _ => none) ∧ (c'.clients = fun _ => none) ∧ (c'.elements = fun _ => none) ∧
      c'.dao = c.dao := by
  have hrun : ∃ xs ys, Managed c xs ys ∧ Tidy c := by
    refine r.invariant (I := fun c => ∃ xs ys, Managed c xs ys ∧ Tidy c) ?_ ?_
    · exact ⟨[], [], emptyCache_managed byId byNickname byAddr h₁ h₂ hne,
        emptyCache_tidy byId byNickname byAddr h₁ h₂ hne⟩
    · rintro c call c' ⟨xs, ys, hm, ht⟩ hs
      obtain ⟨xs', ys', hm', he⟩ := hm.step hs
      exact ⟨xs', ys', hm', ht.step hm he⟩
  obtain ⟨xs, ys, hm, ht⟩ := hrun
  exact ht.deinit hm

theorem deinit_after_one : ∃ c c', Run AnyStep noClients
      [(noClients, .call (.add (some textA) (some textH) (some text1) (payload 1536)))] c ∧
    c.dao.rows ≠ [] ∧ daoCacheDeinit c = some c' ∧ c'.mem = start ∧ c'.dao = c.dao := by
  obtain ⟨c, e, s, hm, hadds⟩ := first_added textA textH text1
  have r : Run AnyStep noClients _ c := .next .start (.call s)
  obtain ⟨c', e', -, -, hmem, -, -, -, hdao⟩ := deinit_after_run 8 16 24 32 40 (by decide) (by decide) (by decide) _ c r
  refine ⟨c, c', r, ?_, e', hmem, hdao⟩
  rw [hadds.dao]
  exact List.cons_ne_nil _ _

end Chats.Dao
