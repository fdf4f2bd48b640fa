import Chats.P2p.Server.DaoCacheCalls

/-! # The nodes that the elements keep

An element of the client directory keeps the node that it got from each of the three maps, from which
the walk to the next client starts. The maps hold these nodes and no others as long as every
removal, of whichever kind, takes out of each map the node of the element that it removes. -/
namespace Chats.Dao
set_option autoImplicit false

open Lib Hash LinkedList Avl

/-- The node of a map as the element at `d` keeps it. -/
def DcEl.entry (el : DcEl) (i : Index) (d : UInt64) : Entry := ⟨el.node i, el.hash i, d⟩

/-- The nodes of the map `i` are those that the elements `els` keep. -/
def Keeps (i : Index) (hm : HashMap) (elements : Store UInt64 DcEl) (els : List UInt64) : Prop :=
  ∃ es, Contents hm es ∧ (es.map some).Perm (els.map fun d => (elements d).map fun el => el.entry i d)

/-- The hash finds the node of the element. -/
def TakesNode (hm : HashMap) (hash : ℤ) (dce : UInt64) : Prop :=
  ∃ p, p ≠ 0 ∧ hashMapGetByHash hm hash = some p ∧ dataAt hm p = some dce

/-! ## One map -/

namespace Keeps
variable {i : Index} {hm hm' : HashMap} {elements : Store UInt64 DcEl} {els els₁ els₂ : List UInt64}
    {dce n : UInt64} {el : DcEl}

theorem entries_update (v : Option DcEl) (hdce : dce ∉ els) :
    els.map (fun d => (Function.update elements dce v d).map fun el => el.entry i d) =
      els.map fun d => (elements d).map fun el => el.entry i d := by
  apply List.map_congr_left
  intro d hd
  rw [Function.update_of_ne (ne_of_mem_of_not_mem hd hdce)]

theorem insert (el : DcEl) (h : Keeps i hm elements els) (hdce : dce ∉ els) (hn : el.node i ≠ 0)
    (hfree : hm.tree.nodes (el.node i) = none)
    (e : hashMapInsertByHash hm (el.hash i) dce (el.node i) = some (hm', n)) :
    Keeps i hm' (Function.update elements dce (some el)) (els ++ [dce]) := by
  obtain ⟨es, hes, hp⟩ := h
  obtain ⟨hm₁, es', e', hes', hp'⟩ := hes.insert (el.hash i) dce hn hfree
  obtain ⟨rfl, -⟩ := Prod.mk.inj (Option.some.inj (e'.symm.trans e))
  refine ⟨es', hes', (hp'.map some).trans ?_⟩
  rw [List.map_append, entries_update _ hdce, List.map_singleton, Function.update_self]
  exact (hp.cons _).trans (List.perm_append_singleton _ _).symm

/-- A removal leaves the nodes of the other elements exactly if it takes the element's own one. -/
theorem remove_iff (h : Keeps i hm elements (els₁ ++ dce :: els₂)) (hnd : (els₁ ++ dce :: els₂).Nodup)
    (hel : elements dce = some el) {hash : ℤ} {data : Option UInt64}
    (e : hashMapRemoveByHash hm hash = some (hm', data)) :
    Keeps i hm' (Function.update elements dce none) (els₁ ++ els₂) ↔ TakesNode hm hash dce := by
  obtain ⟨es, hes, hp⟩ := h
  obtain ⟨p, hm₁, es', hget, e', hes', h0, hne⟩ := hes.remove hash
  obtain ⟨rfl, -⟩ := Prod.mk.inj (Option.some.inj (e'.symm.trans e))
  have hdce : dce ∉ els₁ ++ els₂ := (List.nodup_cons.mp (List.nodup_middle.mp hnd)).1
  have hmiddle := hp.trans (List.perm_middle.map _)
  rw [List.map_cons, hel, Option.map_some] at hmiddle
  have hkept : Keeps i hm₁ (Function.update elements dce none) (els₁ ++ els₂) ↔
      (es'.map some).Perm ((els₁ ++ els₂).map fun d => (elements d).map fun el => el.entry i d) := by
    unfold Keeps
    rw [entries_update _ hdce]
    constructor
    · intro hk
      obtain ⟨es'', hes'', hperm⟩ := hk
      rwa [hes'.unique hes''.sequence]
    · intro hperm
      exact ⟨es', hes', hperm⟩
  rw [hkept]
  constructor
  · intro hperm
    by_cases hp0 : p = 0
    · have hlen := hmiddle.length_eq
      rw [List.length_cons, ← hperm.length_eq, h0 hp0] at hlen
      omega
    · obtain ⟨x, hx, rfl, -, hsplit⟩ := hne hp0
      have hcons : (some x :: es'.map some).Perm (some (el.entry i dce) :: es'.map some) :=
        ((hsplit.map some).symm.trans hmiddle).trans (hperm.symm.cons _)
      have hsame : some x ::ₘ (es'.map some : Multiset (Option Entry)) = some (el.entry i dce) ::ₘ es'.map some :=
        Quotient.sound hcons
      refine ⟨x.addr, hp0, hget, ?_⟩
      rw [hes.dataAt hx, Option.some.inj ((Multiset.cons_inj_left _).mp hsame)]
      rfl
  · intro htakes
    obtain ⟨q, hq0, hq, hdata⟩ := htakes
    obtain rfl := Option.some.inj (hget.symm.trans hq)
    obtain ⟨x, hx, rfl, -, hsplit⟩ := hne hq0
    have hcons := (hsplit.map some).symm.trans hmiddle
    -- the node with the element's address as its data is the one that it keeps
    have hsame : some x = some (el.entry i dce) := by
      have hmem := hcons.mem_iff.mp List.mem_cons_self
      cases List.mem_cons.mp hmem with
      | inl heq => exact heq
      | inr hmem =>
        obtain ⟨d, hd, heq⟩ := List.mem_map.mp hmem
        obtain ⟨el', -, heq⟩ := Option.map_eq_some_iff.mp heq
        have hxd : x.data = d := congrArg Entry.data heq.symm
        rw [hes.dataAt hx, Option.some.injEq, hxd] at hdata
        exact absurd (hdata ▸ hd) hdce
    rw [List.map_cons, hsame] at hcons
    exact hcons.cons_inv

end Keeps

/-! ## Calls -/

/-- What a call removes from each map is the node of the element that it removes from the lists. -/
def TakesOwn (c : DaoCache) (call : AnyCall) : Prop :=
  ∀ dce el, call.removed = some dce → c.elements dce = some el → ∀ i, TakesNode (c.hm i) (call.asks el i) dce

/-- The three maps hold, for each element of `dce_list`, the node that the element keeps, and no others. -/
def HandlesRight (c : DaoCache) : Prop :=
  ∃ ys, WellFormed c.mem c.dceList ys ∧ ∀ i, Keeps i (c.hm i) c.elements (ys.map payload)

section calls
variable {c c' : DaoCache} {xs ys xs' ys' : List UInt64} {call : AnyCall}

theorem takesOwn_of_not_removed (hd : call.removed = none) : TakesOwn c call := by
  intro dce el hd'
  rw [hd] at hd'
  cases hd'

theorem handlesRight_call (h : Managed c xs ys) (hright : HandlesRight c) (h' : Managed c' xs' ys')
    (he : Effect c c' xs ys call xs' ys') : HandlesRight c' ↔ TakesOwn c call := by
  obtain ⟨ys₀, hys₀, hk⟩ := hright
  obtain rfl := h.dceList.unique hys₀
  cases he with
  | @kept nickname host port dao hc hdao hnull =>
    refine iff_of_true ⟨ys, h'.dceList, fun i => ?_⟩ (takesOwn_of_not_removed rfl)
    rw [hc, DaoCache.hm_dao]
    exact hk i
  | @added nickname host port g id hg hsql hrow hadds =>
    refine iff_of_true ⟨_, h'.dceList, fun i => ?_⟩ (takesOwn_of_not_removed rfl)
    obtain ⟨hnode, hfree⟩ := hg.node nickname host port id i
    rw [hadds.elements, List.map_append]
    exact (hk i).insert (added nickname host port g id) (hg.notMem h.toCached) hnode hfree (hadds.maps i)
  | @removed _ a b _ y el hcall hys hel hremoves =>
    subst hys
    have hnd : ((a ++ y :: b).map payload).Nodup := h.dceList.nodup.map payload_injective
    simp only [List.map_append, List.map_cons] at hnd hk
    have hiff (i : Index) := (hk i).remove_iff hnd hel (hremoves.maps i)
    constructor
    · intro hright dce' el' hd' hel' i
      obtain rfl := Option.some.inj (hcall.symm.trans hd')
      obtain rfl := Option.some.inj (hel.symm.trans hel')
      obtain ⟨ys', hys', hk'⟩ := hright
      obtain rfl := h'.dceList.unique hys'
      have hi := hk' i
      rw [hremoves.elements, List.map_append] at hi
      exact (hiff i).mp hi
    · intro htakes
      refine ⟨a ++ b, h'.dceList, fun i => ?_⟩
      rw [hremoves.elements, List.map_append]
      exact (hiff i).mpr (htakes _ el hcall hel i)

end calls

theorem emptyCache_handlesRight {daoList dceList : UInt64} (byId byNickname byAddr : UInt64) (h₁ : daoList ≠ 0)
    (h₂ : dceList ≠ 0) (hne : daoList ≠ dceList) :
    HandlesRight (emptyCache daoList dceList byId byNickname byAddr) := by
  have hc := emptyCache_cached byId byNickname byAddr h₁ h₂ hne
  refine ⟨[], hc.dceList, fun i => ?_⟩
  cases i <;> exact ⟨[], Contents.init .., .nil⟩

/-- Whatever is called, every map holds at every moment the nodes that the elements of `dce_list` keep,
and no others, exactly if each removal took out of each map the node of the element that it removed. -/
theorem handles_right_iff (daoList dceList byId byNickname byAddr : UInt64) (h₁ : daoList ≠ 0) (h₂ : dceList ≠ 0)
    (hne : daoList ≠ dceList) (h : List (DaoCache × AnyCall)) (c : DaoCache)
    (r : Run AnyStep (emptyCache daoList dceList byId byNickname byAddr) h c) :
    (∀ x ∈ visited h c, HandlesRight x) ↔ ∀ e ∈ h, TakesOwn e.1 e.2 := by
  refine r.forall_iff (I := fun c => (∃ xs ys, Managed c xs ys) ∧ HandlesRight c)
    ⟨⟨[], [], emptyCache_managed byId byNickname byAddr h₁ h₂ hne⟩,
      emptyCache_handlesRight byId byNickname byAddr h₁ h₂ hne⟩
    (fun _ hi => hi.2) ?_ ?_
  · rintro c call c' ⟨⟨xs, ys, hm⟩, hright⟩ hC hs
    obtain ⟨xs', ys', hm', he⟩ := hm.step hs
    exact ⟨⟨xs', ys', hm'⟩, (handlesRight_call hm hright hm' he).mpr hC⟩
  · rintro c call c' ⟨⟨xs, ys, hm⟩, hright⟩ hC hs hright'
    obtain ⟨xs', ys', hm', he⟩ := hm.step hs
    exact hC ((handlesRight_call hm hright hm' he).mp hright')

theorem first_taken {c : DaoCache} {p : UInt64}
    (h : daoCacheAddClient noClients (some textA) (some textH) (some text1) (givenFirst textA textH text1) =
      some (c, p))
    (i : Index) :
    TakesNode (c.hm i) ((added textA textH text1 (givenFirst textA textH text1) 1).hash i) (payload 1536) := by
  change some (_, _) = _ at h
  obtain ⟨rfl, -⟩ := Prod.mk.inj (Option.some.inj h)
  cases i <;> exact ⟨1024, by decide, rfl, rfl⟩

/-- A client that is added, with a node in each map, and removed. -/
theorem handles_right_one : ∃ h c, Run AnyStep noClients h c ∧
    h.map Prod.snd = [.call (.remove (payload 1536)),
      .call (.add (some textA) (some textH) (some text1) (payload 1536))] ∧
    ∀ x ∈ visited h c, HandlesRight x := by
  obtain ⟨c₁, e, s₁, hm, hadds⟩ := first_added textA textH text1
  have hel : c₁.elements (payload 1536) = some (added textA textH text1 (givenFirst textA textH text1) 1) := by
    rw [hadds.elements]
    exact Function.update_self ..
  obtain ⟨c₂, xs₂, s₂, -⟩ := hm.remove_step (a := []) (b := []) hel
  have r := Run.next (.next .start (AnyStep.call s₁)) (AnyStep.call s₂)
  refine ⟨_, c₂, r, rfl, (handles_right_iff 8 16 24 32 40 (by decide) (by decide) (by decide) _ c₂ r).mpr ?_⟩
  intro x hx
  fin_cases hx
  · intro dce el' hd hel' i
    obtain rfl := Option.some.inj hd
    obtain rfl := Option.some.inj (hel.symm.trans hel')
    exact first_taken e i
  · exact takesOwn_of_not_removed rfl

end Chats.Dao
