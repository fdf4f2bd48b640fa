import Chats.P2p.Server.DaoCacheCalls

/-! # Removal by id, by nickname and by address, and by lookup

A removal by id, nickname or address against the lookup for the same and a removal of its result. -/
namespace Chats.Dao
set_option autoImplicit false

open Lib Hash LinkedList Avl

/-- The removal does what a lookup and `dao_cache_remove_client` on its result do. -/
def SameEffect (c : DaoCache) (q : Query) (stale : UInt64) : Prop :=
  ∃ c', q.remove c stale = some c' ∧ (q.get c).bind (daoCacheRemoveClient c) = some c'

section removal
variable {c : DaoCache} {xs ys a b : List UInt64} {y stale d : UInt64} {el : DcEl} {q : Query}

theorem Managed.get_eq (h : Managed c xs ys) (q : Query) :
    q.get c = (hashMapGetByHash (c.hm q.index) q.hash).bind (nodeData (c.hm q.index)) := by
  cases q with
  | id rowid => exact lookupTpl_eq h.initialized h.unlocked rfl rowid
  | nickname s => exact lookupTpl_eq h.initialized h.unlocked rfl _
  | addr host port => exact lookupTpl_eq h.initialized h.unlocked rfl _

theorem Managed.removed_element (h : Managed c xs ys) {c' : DaoCache} (hd : d ≠ 0)
    (e : daoCacheRemoveClient c d = some c') : ∃ el, c.elements d = some el := by
  cases hel : c.elements d with
  | some el => exact ⟨el, rfl⟩
  | none => simp [daoCacheRemoveClient, h.initialized, hd, lock_eq h.unlocked, hel] at e

/-- Two hashes that take the same node out of a map are equal. -/
theorem same_removal {hm hm' : HashMap} {es : List Entry} (h : Contents hm es) {H H' : ℤ} {p : UInt64}
    (hget : hashMapGetByHash hm H = some p) (hp : p ≠ 0) (e : hashMapRemoveByHash hm H = some (hm', none))
    (e' : hashMapRemoveByHash hm H' = some (hm', none)) : H' = H := by
  obtain ⟨p₁, m₁, es₁, hg₁, hr₁, hes₁, -, hne₁⟩ := h.remove H
  obtain ⟨p₂, m₂, es₂, -, hr₂, hes₂, h0₂, hne₂⟩ := h.remove H'
  obtain rfl := Option.some.inj (hget.symm.trans hg₁)
  obtain ⟨rfl, -⟩ := Prod.mk.inj (Option.some.inj (e.symm.trans hr₁))
  obtain ⟨rfl, -⟩ := Prod.mk.inj (Option.some.inj (e'.symm.trans hr₂))
  obtain rfl := hes₁.unique hes₂.sequence
  obtain ⟨x, -, -, hkey, hperm⟩ := hne₁ hp
  by_cases hp₂ : p₂ = 0
  · have hlen := hperm.length_eq
    rw [h0₂ hp₂, List.length_cons] at hlen
    omega
  · obtain ⟨x', -, -, hkey', hperm'⟩ := hne₂ hp₂
    have hsame : (x ::ₘ (es₁ : Multiset Entry)) = x' ::ₘ es₁ := Quotient.sound (hperm.symm.trans hperm')
    rw [← hkey, ← hkey', (Multiset.cons_inj_left _).mp hsame]

theorem Managed.sameEffect_iff (h : Managed c xs ys) (q : Query) (stale : UInt64) :
    SameEffect c q stale ↔ q.get c = some stale ∧ ∃ el, c.elements stale = some el ∧ el.hash q.index = q.hash := by
  constructor
  · rintro ⟨c', e, e'⟩
    obtain ⟨el, hel⟩ : ∃ el, c.elements stale = some el := by
      cases hd : c.elements stale with
      | none => simp [h.removeBy_dead hd q] at e
      | some el => exact ⟨el, rfl⟩
    obtain ⟨a, y, b, rfl, rfl⟩ := h.element hel
    obtain ⟨c₁, xs₁, e₁, -, hrem₁, -⟩ := h.removeBy hel q
    obtain rfl := Option.some.inj (e.symm.trans e₁)
    have hels₁ := hrem₁.elements
    obtain ⟨d, hd, hrem⟩ := Option.bind_eq_some_iff.mp e'
    -- the removal by `q` has taken the element at `stale`, and the other one that at `d`
    have hd0 : d ≠ 0 := by
      rintro rfl
      rw [daoCacheRemoveClient, if_neg (by simp [h.initialized]), if_pos rfl, Option.some.injEq] at hrem
      have hgone := congrFun hels₁ (payload y)
      rw [← hrem, Function.update_self, hel] at hgone
      cases hgone
    obtain ⟨eld, held⟩ := h.removed_element hd0 hrem
    obtain ⟨a', z, b', hsplit, rfl⟩ := h.element held
    obtain ⟨c₂, xs₂, e₂, -, hrem₂⟩ := (hsplit ▸ h).remove held
    obtain rfl := Option.some.inj (hrem.symm.trans e₂)
    have hzy : payload y = payload z := by
      by_contra hne
      have hgone := congrFun (hels₁.symm.trans hrem₂.elements) (payload y)
      rw [Function.update_self, Function.update_of_ne hne, hel] at hgone
      cases hgone
    obtain rfl := Option.some.inj (hel.symm.trans (hzy ▸ held))
    rw [h.get_eq q] at hd
    obtain ⟨p, hp, hdata⟩ := Option.bind_eq_some_iff.mp hd
    have hp0 : p ≠ 0 := by
      rintro rfl
      exact hd0 (Option.some.inj hdata).symm
    obtain ⟨es, hes⟩ := h.contents q.index
    have hfirst := hrem₁.maps q.index
    rw [Function.update_self] at hfirst
    exact ⟨(h.get_eq q).trans (hzy ▸ hd), el, hel, same_removal hes hp hp0 hfirst (hrem₂.maps q.index)⟩
  · rintro ⟨hget, el, hel, hown⟩
    obtain ⟨a, y, b, rfl, rfl⟩ := h.element hel
    obtain ⟨c', xs', e, -, -, hsame⟩ := h.removeBy hel q
    exact ⟨c', e, by rw [hget, Option.bind_some, hsame hown]⟩

end removal

/-- A removal by id, nickname or address does what a lookup and a removal of its result do exactly
when the stack happens to hold the element that the lookup finds, under the hash that is asked
for. A NULL string removes nothing. -/
theorem removals_same_effect_iff (daoList dceList byId byNickname byAddr : UInt64) (h₁ : daoList ≠ 0) (h₂ : dceList ≠ 0)
    (hne : daoList ≠ dceList) (h : List (DaoCache × AnyCall)) (c : DaoCache)
    (r : Run AnyStep (emptyCache daoList dceList byId byNickname byAddr) h c) (stale : UInt64) :
    (∀ q : Query, SameEffect c q stale ↔
      q.get c = some stale ∧ ∃ el, c.elements stale = some el ∧ el.hash q.index = q.hash) ∧
    daoCacheRemoveClientByNickname c none stale = some c ∧
    ∀ host port, host = none ∨ port = none → daoCacheRemoveClientByAddr c host port stale = some c := by
  have hgood := managed_of_run ⟨[], [], emptyCache_managed byId byNickname byAddr h₁ h₂ hne⟩ r
  obtain ⟨xs, ys, hm⟩ := hgood
  refine ⟨fun q => hm.sameEffect_iff q stale, ?_, fun host port hnull => ?_⟩
  · simp [daoCacheRemoveClientByNickname, hm.initialized]
  · unfold daoCacheRemoveClientByAddr
    rw [if_neg (by simp [hm.initialized])]
    rcases hnull with rfl | rfl
    · rfl
    · cases host <;> rfl

theorem added_first : ∃ c,
    Run AnyStep noClients [(noClients, .call (.add (some textA) (some textH) (some text1) (payload 1536)))] c ∧
    Managed c [1024] [1536] ∧ c.elements (payload 1536) =
      some (added textA textH text1 (givenFirst textA textH text1) 1) ∧
    daoCacheGetClientById c 1 = some (payload 1536) := by
  obtain ⟨c, e, s, hm, hadds⟩ := first_added textA textH text1
  refine ⟨c, .next .start (.call s), hm, ?_, ?_⟩
  · rw [hadds.elements]
    exact Function.update_self ..
  · change some (_, _) = _ at e
    obtain ⟨rfl, -⟩ := Prod.mk.inj (Option.some.inj e)
    rfl

theorem removals_same_effect_one : ∃ h c, Run AnyStep noClients h c ∧
    h.map Prod.snd = [.call (.add (some textA) (some textH) (some text1) (payload 1536))] ∧
    SameEffect c (.id 1) (payload 1536) := by
  obtain ⟨c, r, -, hel, hget⟩ := added_first
  have hall := removals_same_effect_iff 8 16 24 32 40 (by decide) (by decide) (by decide) _ c r (payload 1536)
  exact ⟨_, c, r, rfl, (hall.1 (.id 1)).mpr ⟨hget, _, hel, rfl⟩⟩

/-- With `0` on the stack the removal of the only client by its id reads `dce->id` of `NULL`. -/
theorem removal_by_id_lost : ∃ h c, Run AnyStep noClients h c ∧
    h.map Prod.snd = [.call (.add (some textA) (some textH) (some text1) (payload 1536))] ∧
    daoCacheGetClientById c 1 = some (payload 1536) ∧ (∃ c', daoCacheRemoveClient c (payload 1536) = some c') ∧
    daoCacheRemoveCientById c 1 0 = none ∧ ¬ SameEffect c (.id 1) 0 := by
  obtain ⟨c, r, hm, hel, hget⟩ := added_first
  have hdead : c.elements 0 = none := by
    cases h0 : c.elements 0 with
    | none => rfl
    | some el =>
      have hmem := hm.elementsLive 0 (Option.isSome_of_eq_some h0)
      exact absurd hmem (by decide)
  obtain ⟨c', -, e, -⟩ := hm.remove (a := []) (b := []) hel
  have hlost : daoCacheRemoveCientById c 1 0 = none := hm.removeBy_dead hdead (.id 1)
  refine ⟨_, c, r, rfl, hget, ⟨c', e⟩, hlost, ?_⟩
  rintro ⟨c₁, e₁, -⟩
  cases hlost.symm.trans e₁

end Chats.Dao
