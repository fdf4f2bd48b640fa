import Chats.P2p.Server.DaoCacheCalls

/-! # Runs of the client directory

The two lists stay in step with each other under every call. The indexes do not: an element is
taken out of them by its hash, and the node that goes is the one the hash finds. They match
the list of elements as long as that is always the element's own node. -/
namespace Chats.Dao
set_option autoImplicit false

open Lib Hash LinkedList Avl

/-! ## One index -/

/-- The nodes of `hm` are those of the elements `els`, each under its hash. -/
def Indexes (hm : HashMap) (hash : DcEl → ℤ) (elements : Store UInt64 DcEl) (els : List UInt64) : Prop :=
  ∃ es, Contents hm es ∧
    (es.map fun e => (some e.key, e.data)).Perm (els.map fun d => ((elements d).map hash, d))

/-- The map holds exactly one node for each of the elements, with the element as its data, and
no other node. -/
def HoldsOnce (hm : HashMap) (els : List UInt64) : Prop :=
  ∃ es, Sequence hm.tree es ∧ (es.map Entry.data).Perm els

/-- The node that the hash finds is the element's own. -/
def FindsOwn (hm : HashMap) (hash : ℤ) (dce : UInt64) : Prop :=
  ∃ p, hashMapGetByHash hm hash = some p ∧ dataAt hm p = some dce

namespace Indexes
variable {hm : HashMap} {hash : DcEl → ℤ} {elements : Store UInt64 DcEl} {els : List UInt64}

theorem holdsOnce (h : Indexes hm hash elements els) : HoldsOnce hm els := by
  obtain ⟨es, hes, hp⟩ := h
  refine ⟨es, hes.sequence, ?_⟩
  have hp' := hp.map Prod.snd
  rwa [List.map_map, List.map_map, show (Prod.snd ∘ fun d => ((elements d).map hash, d)) = id from rfl,
    List.map_id] at hp'

theorem hashes_update {dce : UInt64} (v : Option DcEl) (hdce : dce ∉ els) :
    els.map (fun d => ((Function.update elements dce v d).map hash, d)) =
      els.map fun d => ((elements d).map hash, d) := by
  apply List.map_congr_left
  intro d hd
  rw [Function.update_of_ne (ne_of_mem_of_not_mem hd hdce)]

theorem insert (h : Indexes hm hash elements els) {dce n : UInt64} (el : DcEl) (hdce : dce ∉ els) (hn : n ≠ 0)
    (hfree : hm.tree.nodes n = none) :
    ∃ hm', hashMapInsertByHash hm (hash el) dce n = some (hm', n) ∧
      Indexes hm' hash (Function.update elements dce (some el)) (els ++ [dce]) := by
  obtain ⟨es, hes, hp⟩ := h
  obtain ⟨hm', es', e, hes', hp'⟩ := hes.insert (hash el) dce hn hfree
  refine ⟨hm', e, es', hes', (hp'.map _).trans ?_⟩
  rw [List.map_append, hashes_update _ hdce, List.map_singleton, Function.update_self]
  exact (hp.cons _).trans (List.perm_append_singleton _ _).symm

/-- A removal by the hash of an element takes out one node, which has that hash. -/
theorem remove (h : Indexes hm hash elements els) {dce : UInt64} {el : DcEl} (hdce : dce ∈ els)
    (hel : elements dce = some el) :
    ∃ (es : List Entry) (e : Entry) (es' : List Entry) (hm' : HashMap),
      (es.map fun e => (some e.key, e.data)).Perm (els.map fun d => ((elements d).map hash, d)) ∧
      hashMapGetByHash hm (hash el) = some e.addr ∧ dataAt hm e.addr = some e.data ∧ e.key = hash el ∧
      hashMapRemoveByHash hm (hash el) = some (hm', none) ∧ Contents hm' es' ∧ es.Perm (e :: es') := by
  obtain ⟨es, hes, hp⟩ := h
  obtain ⟨p, hm', es', hget, hrem, hes', _, hne⟩ := hes.remove (hash el)
  have hp0 : p ≠ 0 := by
    have hmem := hp.symm.mem_iff.mp (List.mem_map_of_mem hdce)
    obtain ⟨e, he, heq⟩ := List.mem_map.mp hmem
    rw [hel, Option.map_some, Prod.mk.injEq, Option.some.injEq] at heq
    obtain ⟨q, hq, hq0, _⟩ := hes.get (hash el)
    rw [hget, Option.some.injEq] at hq
    intro h0
    exact hq0.mp (hq ▸ h0) e he heq.1
  obtain ⟨e, he, rfl, hkey, hperm⟩ := hne hp0
  exact ⟨es, e, es', hm', hp, hget, hes.dataAt he, hkey, hrem, hes', hperm⟩

/-- The element's own node is found and goes. -/
theorem remove_own {els₁ els₂ : List UInt64} {dce : UInt64} {el : DcEl}
    (h : Indexes hm hash elements (els₁ ++ dce :: els₂)) (hnd : (els₁ ++ dce :: els₂).Nodup)
    (hel : elements dce = some el) (hown : FindsOwn hm (hash el) dce) :
    ∃ hm', hashMapRemoveByHash hm (hash el) = some (hm', none) ∧
      Indexes hm' hash (Function.update elements dce none) (els₁ ++ els₂) := by
  obtain ⟨es, e, es', hm', hp, hget, hdata, _, hrem, hes', hperm⟩ := h.remove (by simp) hel
  obtain ⟨p, hp', hpdata⟩ := hown
  rw [hget, Option.some.injEq] at hp'
  rw [← hp', hdata, Option.some.injEq] at hpdata
  have hdce : dce ∉ els₁ ++ els₂ := (List.nodup_cons.mp (List.nodup_middle.mp hnd)).1
  refine ⟨hm', hrem, es', hes', ?_⟩
  rw [hashes_update _ hdce]
  -- the pair of the node is the pair of the element, and both go
  have hcons := ((hperm.map _).symm.trans hp).trans (List.perm_middle.map _)
  have hmem := hcons.mem_iff.mp List.mem_cons_self
  obtain ⟨d, _, hd⟩ := List.mem_map.mp hmem
  have hdd : d = dce := (congrArg Prod.snd hd).trans hpdata
  rw [hdd] at hd
  rw [List.map_cons, List.map_cons, hd] at hcons
  exact hcons.cons_inv

/-- Another element's node goes, and the removed element keeps its own. -/
theorem remove_other (h : Indexes hm hash elements els) {dce : UInt64} {el : DcEl} (hdce : dce ∈ els)
    (hel : elements dce = some el) (hown : ¬ FindsOwn hm (hash el) dce) :
    ∃ hm', hashMapRemoveByHash hm (hash el) = some (hm', none) ∧ (∃ es, Contents hm' es) ∧
      ∀ els', HoldsOnce hm' els' → dce ∈ els' := by
  obtain ⟨es, e, es', hm', hp, hget, hdata, _, hrem, hes', hperm⟩ := h.remove hdce hel
  refine ⟨hm', hrem, ⟨es', hes'⟩, ?_⟩
  rintro els' ⟨es'', hseq, hp'⟩
  obtain rfl := hes'.unique hseq
  apply hp'.mem_iff.mp
  have hmem := hp.symm.mem_iff.mp (List.mem_map_of_mem hdce)
  obtain ⟨x, hx, heq⟩ := List.mem_map.mp hmem
  have hxd : x.data = dce := congrArg Prod.snd heq
  rcases List.mem_cons.mp (hperm.mem_iff.mp hx) with rfl | hx
  · exact absurd ⟨x.addr, hget, hxd ▸ hdata⟩ hown
  · exact hxd ▸ List.mem_map_of_mem hx

theorem findsOwn (h : Indexes hm hash elements els) {dce : UInt64} {el : DcEl} (hdce : dce ∈ els)
    (hel : elements dce = some el) (hsole : ∀ d ∈ els, (elements d).map hash = some (hash el) → d = dce) :
    FindsOwn hm (hash el) dce := by
  obtain ⟨es, e, es', hm', hp, hget, hdata, hkey, _, _, hperm⟩ := h.remove hdce hel
  have hmem := hp.mem_iff.mp (List.mem_map_of_mem (hperm.mem_iff.mpr List.mem_cons_self))
  obtain ⟨d, hd, heq⟩ := List.mem_map.mp hmem
  rw [Prod.mk.injEq] at heq
  have hdd : d = dce := hsole d hd (heq.1.trans (congrArg some hkey))
  exact ⟨e.addr, hget, by rw [hdata, ← heq.2, hdd]⟩

/-- A lookup by a hash returns an element with that hash if there is one. -/
theorem lookup (h : Indexes hm hash elements els) (H : ℤ) :
    ∃ d, (hashMapGetByHash hm H).bind (nodeData hm) = some d ∧
      (d = 0 ∧ (∀ e ∈ els, (elements e).map hash ≠ some H) ∨ d ∈ els ∧ (elements d).map hash = some H) := by
  obtain ⟨es, hes, hp⟩ := h
  obtain ⟨p, hget, hp0, hfound⟩ := hes.get H
  rw [hget, Option.bind_some, nodeData]
  by_cases h0 : p = 0
  · refine ⟨0, if_pos h0, Or.inl ⟨rfl, fun d hd heq => ?_⟩⟩
    have hmem := hp.symm.mem_iff.mp (List.mem_map_of_mem hd)
    obtain ⟨e, he, hpair⟩ := List.mem_map.mp hmem
    rw [heq, Prod.mk.injEq, Option.some.injEq] at hpair
    exact hp0.mp h0 e he hpair.1
  · obtain ⟨e, he, rfl, hkey⟩ := hfound h0
    have hmem := hp.mem_iff.mp (List.mem_map_of_mem he)
    obtain ⟨d, hd, heq⟩ := List.mem_map.mp hmem
    rw [Prod.mk.injEq] at heq
    rw [if_neg h0]
    exact ⟨e.data, hes.dataAt he, Or.inr ⟨heq.2 ▸ hd, heq.2 ▸ heq.1.trans (congrArg some hkey)⟩⟩

end Indexes

/-! ## Both indexes -/

structure Indexed (c : DaoCache) (ys : List UInt64) : Prop where
  byNickname : Indexes c.hmByNickname DcEl.hashNickname c.elements (ys.map payload)
  byAddr : Indexes c.hmByAddr DcEl.hashAddr c.elements (ys.map payload)

theorem emptyCache_indexed (daoList dceList byId byNickname byAddr : UInt64) :
    Indexed (emptyCache daoList dceList byId byNickname byAddr) [] :=
  ⟨⟨[], Contents.init .., List.Perm.nil⟩, [], Contents.init .., List.Perm.nil⟩

def Good (c : DaoCache) : Prop := ∃ xs ys, Managed c xs ys ∧ Indexed c ys

theorem emptyCache_good {daoList dceList : UInt64} (byId byNickname byAddr : UInt64) (h₁ : daoList ≠ 0)
    (h₂ : dceList ≠ 0) (hne : daoList ≠ dceList) : Good (emptyCache daoList dceList byId byNickname byAddr) :=
  ⟨[], [], emptyCache_managed byId byNickname byAddr h₁ h₂ hne,
    emptyCache_indexed daoList dceList byId byNickname byAddr⟩

/-- Both maps hold one node for each element of `dce_list`, and nothing else. -/
def MapsMatch (c : DaoCache) : Prop :=
  ∃ ys, WellFormed c.mem c.dceList ys ∧ HoldsOnce c.hmByNickname (ys.map payload) ∧
    HoldsOnce c.hmByAddr (ys.map payload)

theorem Good.mapsMatch {c : DaoCache} (h : Good c) : MapsMatch c := by
  obtain ⟨xs, ys, hc, hx⟩ := h
  exact ⟨ys, hc.dceList, hx.byNickname.holdsOnce, hx.byAddr.holdsOnce⟩

/-- A removal finds, under the two hashes of the element, the element's own nodes. -/
def RemovesOwn (c : DaoCache) : Op → Prop
  | .add _ _ _ _ => True
  | .remove dce => ∀ el, c.elements dce = some el →
      FindsOwn c.hmByNickname el.hashNickname dce ∧ FindsOwn c.hmByAddr el.hashAddr dce

theorem Good.step {c c' : DaoCache} {op : Op} (h : Good c) (hC : RemovesOwn c op) (hs : Step c op c') : Good c' := by
  obtain ⟨xs, ys, hm, hx⟩ := h
  obtain ⟨xs', ys', hm', heff⟩ := hm.step (.call hs)
  refine ⟨xs', ys', hm', ?_⟩
  cases heff with
  | kept hc =>
    subst hc
    exact ⟨hx.byNickname, hx.byAddr⟩
  | @added nickname host port g id hg hsql hrow hadds =>
    have hnew := hg.notMem hm.toCached
    obtain ⟨hmN, eN, hN⟩ :=
      hx.byNickname.insert (added nickname host port g id) hnew hg.nodeByNickname.1 hg.nodeByNickname.2
    obtain ⟨hmA, eA, hA⟩ := hx.byAddr.insert (added nickname host port g id) hnew hg.nodeByAddr.1 hg.nodeByAddr.2
    obtain ⟨rfl, -⟩ := Prod.mk.inj (Option.some.inj (eN.symm.trans (hadds.maps .nickname)))
    obtain ⟨rfl, -⟩ := Prod.mk.inj (Option.some.inj (eA.symm.trans (hadds.maps .addr)))
    refine ⟨?_, ?_⟩
    · rw [hadds.elements, List.map_append]
      exact hN
    · rw [hadds.elements, List.map_append]
      exact hA
  | @removed _ a b _ y el hcall hys hel hremoves =>
    subst hys
    cases hs with
    | add hg hsql e => cases hcall
    | remove hlive e =>
      obtain rfl := Option.some.inj hcall
      obtain ⟨hownN, hownA⟩ := hC el hel
      have hnd : ((a ++ y :: b).map payload).Nodup := hm.dceList.nodup.map payload_injective
      have hxN := hx.byNickname
      have hxA := hx.byAddr
      rw [List.map_append, List.map_cons] at hnd hxN hxA
      obtain ⟨hmN, eN, hN⟩ := hxN.remove_own hnd hel hownN
      obtain ⟨hmA, eA, hA⟩ := hxA.remove_own hnd hel hownA
      obtain ⟨rfl, -⟩ := Prod.mk.inj (Option.some.inj (eN.symm.trans (hremoves.maps .nickname)))
      obtain ⟨rfl, -⟩ := Prod.mk.inj (Option.some.inj (eA.symm.trans (hremoves.maps .addr)))
      refine ⟨?_, ?_⟩
      · rw [hremoves.elements, List.map_append]
        exact hN
      · rw [hremoves.elements, List.map_append]
        exact hA

/-- Whichever map loses another element's node still has the removed one. -/
theorem Good.bad_step {c c' : DaoCache} {op : Op} (h : Good c) (hC : ¬ RemovesOwn c op) (hs : Step c op c') :
    ¬ MapsMatch c' := by
  obtain ⟨xs, ys, hm, hx⟩ := h
  obtain ⟨xs', ys', hm', heff⟩ := hm.step (.call hs)
  cases heff with
  | kept hc => exact absurd trivial hC
  | added hg hsql hrow hadds => exact absurd trivial hC
  | @removed _ a b _ y el hcall hys hel hremoves =>
    subst hys
    cases hs with
    | add hg hsql e => cases hcall
    | remove hlive e =>
      obtain rfl := Option.some.inj hcall
      have hmem : payload y ∈ (a ++ y :: b).map payload := List.mem_map_of_mem (by simp)
      rintro ⟨ys', hys', hN, hA⟩
      obtain rfl := hm'.dceList.unique hys'
      have hgone := payload_gone hm.dceList.nodup
      have hor : ¬ FindsOwn c.hmByNickname el.hashNickname (payload y) ∨
          ¬ FindsOwn c.hmByAddr el.hashAddr (payload y) := by
        refine not_and_or.mp fun hown => hC fun el' hel' => ?_
        rw [hel, Option.some.injEq] at hel'
        exact hel' ▸ hown
      cases hor with
      | inl hn =>
        obtain ⟨hm₁, e₁, -, hkeep⟩ := hx.byNickname.remove_other hmem hel hn
        obtain ⟨rfl, -⟩ := Prod.mk.inj (Option.some.inj (e₁.symm.trans (hremoves.maps .nickname)))
        exact hgone (hkeep _ hN)
      | inr hn =>
        obtain ⟨hm₁, e₁, -, hkeep⟩ := hx.byAddr.remove_other hmem hel hn
        obtain ⟨rfl, -⟩ := Prod.mk.inj (Option.some.inj (e₁.symm.trans (hremoves.maps .addr)))
        exact hgone (hkeep _ hA)

/-- Along a run the two maps match the list of elements in every state exactly when each
removal finds the element's own nodes under its hashes. -/
theorem maps_match_iff (daoList dceList byId byNickname byAddr : UInt64) (h₁ : daoList ≠ 0) (h₂ : dceList ≠ 0)
    (hne : daoList ≠ dceList) (h : List (DaoCache × Op)) (c : DaoCache)
    (r : Run Step (emptyCache daoList dceList byId byNickname byAddr) h c) :
    (∀ x ∈ visited h c, MapsMatch x) ↔ ∀ e ∈ h, RemovesOwn e.1 e.2 := by
  have h0 : Good (emptyCache daoList dceList byId byNickname byAddr) :=
    emptyCache_good byId byNickname byAddr h₁ h₂ hne
  refine r.forall_iff h0 (fun _ => Good.mapsMatch) ?_ ?_
  · intro c op c' hI hC hs
    exact hI.step hC hs
  · intro c op c' hI hC hs
    exact hI.bad_step hC hs

theorem maps_match_one : ∃ h c, Run Step noClients h c ∧
    h.map Prod.snd = [.remove (payload 1536), .add (some textA) (some textH) (some text1) (payload 1536)] ∧
    ∀ x ∈ visited h c, MapsMatch x := by
  obtain ⟨c₁, -, s₁, hm₁, hadds⟩ := first_added textA textH text1
  have hel : c₁.elements (payload 1536) = some (added textA textH text1 (givenFirst textA textH text1) 1) := by
    rw [hadds.elements]
    exact Function.update_self ..
  obtain ⟨c₂, xs₂, s₂, -⟩ := hm₁.remove_step (a := []) (b := []) hel
  have r := Run.next (.next .start s₁) s₂
  refine ⟨_, c₂, r, rfl, (maps_match_iff 8 16 24 32 40 (by decide) (by decide) (by decide) _ c₂ r).mpr ?_⟩
  have h0 : Good noClients := emptyCache_good 24 32 40 (by decide) (by decide) (by decide)
  have hadd : RemovesOwn noClients (.add (some textA) (some textH) (some text1) (payload 1536)) := trivial
  obtain ⟨xs, ys, hm, hx⟩ := h0.step hadd s₁
  obtain rfl := hm.dceList.unique hm₁.dceList
  intro e he
  fin_cases he
  · intro el hel
    exact ⟨hx.byNickname.findsOwn (by simp) hel (by simp), hx.byAddr.findsOwn (by simp) hel (by simp)⟩
  · trivial

theorem address_finds_first {c₁ c₂ : DaoCache} {p₁ p₂ : UInt64}
    (h₁ : daoCacheAddClient noClients (some textA) (some textH) (some text1) (givenFirst textA textH text1) =
      some (c₁, p₁))
    (h₂ : daoCacheAddClient c₁ (some textB) (some textH) (some text1) (givenSecond textB textH text1) = some (c₂, p₂)) :
    hashMapGetByHash c₂.hmByAddr (addrHash (textH.copied 256) (text1.copied 6)) = some 1024 ∧
      dataAt c₂.hmByAddr 1024 = some (payload 1536) := by
  change some (_, _) = _ at h₁
  obtain ⟨rfl, -⟩ := Prod.mk.inj (Option.some.inj h₁)
  change some (_, _) = _ at h₂
  obtain ⟨rfl, -⟩ := Prod.mk.inj (Option.some.inj h₂)
  exact ⟨rfl, rfl⟩

/-- Of two clients at one address the second is removed: the node of the first goes, and
`hm_by_addr` keeps a node whose data is the removed element. -/
theorem maps_mismatch : ∃ h c, Run Step noClients h c ∧
    h.map Prod.snd = [.remove (payload 4608), .add (some textB) (some textH) (some text1) (payload 4608),
      .add (some textA) (some textH) (some text1) (payload 1536)] ∧ ¬ MapsMatch c := by
  obtain ⟨c₁, c₂, e₁, s₁, e₂, s₂, hm₂, -, hel⟩ := both_added
  obtain ⟨c₃, xs₃, s₃, -⟩ := hm₂.remove_step (a := [1536]) (b := []) hel
  refine ⟨_, c₃, .next (.next (.next .start s₁) s₂) s₃, rfl, ?_⟩
  have hbad : ¬ RemovesOwn c₂ (.remove (payload 4608)) := by
    intro hown
    obtain ⟨hget, hdata⟩ := address_finds_first e₁ e₂
    obtain ⟨p, hp, hpd⟩ := (hown _ hel).2
    obtain rfl := Option.some.inj (hget.symm.trans hp)
    exact absurd (hdata.symm.trans hpd) (by decide)
  have h0 : Good noClients := emptyCache_good 24 32 40 (by decide) (by decide) (by decide)
  have hfirst : RemovesOwn noClients (.add (some textA) (some textH) (some text1) (payload 1536)) := trivial
  have hsecond : RemovesOwn c₁ (.add (some textB) (some textH) (some text1) (payload 4608)) := trivial
  exact ((h0.step hfirst s₁).step hsecond s₂).bad_step hbad s₃

end Chats.Dao
