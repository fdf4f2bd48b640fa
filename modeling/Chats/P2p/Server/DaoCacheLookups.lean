import Chats.Common.HashLanes
import Chats.P2p.Server.DaoCacheRuns

/-! # Lookups in the client directory

A lookup hashes the query and returns what the map has under the hash; the strings are never
compared. It is right as long as all the nodes under that hash are those of live elements with the
strings of the query; what the map holds under other hashes, and what the other maps hold, is not looked at. -/
namespace Chats.Dao
set_option autoImplicit false

open Lib Hash LinkedList Avl

/-- The strings of a call of `dao_cache_add_client`. -/
structure Args where
  nickname : CString
  host : CString
  port : CString

/-- The hashes that `dao_cache_add_client` stores are those of the strings as they were cut. -/
def Args.hashNickname (a : Args) : ℤ := pearsonHash (a.nickname.copied 16).1

def Args.hashAddr (a : Args) : ℤ := addrHash (a.host.copied 256) (a.port.copied 6)

/-- The element that a call adds, with its strings. -/
def AnyCall.adds : AnyCall → Option (UInt64 × Args)
  | .call (.add (some nickname) (some host) (some port) dce) =>
    if dce = 0 then none else some (dce, ⟨nickname, host, port⟩)
  | _ => none

/-- The strings that the live element `d` was added with, from the calls of a run. -/
def addedAs : List (DaoCache × AnyCall) → UInt64 → Option Args
  | [], _ => none
  | (_, call) :: h, d =>
    if call.removed = some d then none
    else
      match call.adds with
      | some (dce, args) => if dce = d then some args else addedAs h d
      | none => addedAs h d

/-- A live element whose strings fit. -/
def Fitting (h : List (DaoCache × AnyCall)) (fits : Args → Prop) (d : UInt64) : Prop :=
  ∃ args, addedAs h d = some args ∧ fits args

/-- A lookup that returns a live element whose strings fit the query if there is one, and
`NULL` if not. -/
def LookupRight (h : List (DaoCache × AnyCall)) (fits : Args → Prop) (result : Option UInt64) : Prop :=
  ∃ d, result = some d ∧ ((∃ d', Fitting h fits d') → Fitting h fits d) ∧ ((¬ ∃ d', Fitting h fits d') → d = 0)

/-! ## What a map has under one hash -/

/-- `d` is the data of a node under the hash. -/
def Under (hm : HashMap) (H : ℤ) (d : UInt64) : Prop := ∃ es, Contents hm es ∧ ∃ e ∈ es, e.key = H ∧ e.data = d

/-- The nodes under the hash are those of live elements that fit, and there is one if there is such an element. -/
structure Tells (h : List (DaoCache × AnyCall)) (hm : HashMap) (H : ℤ) (fits : Args → Prop) : Prop where
  only : ∀ d, Under hm H d → Fitting h fits d
  found : (∃ d, Fitting h fits d) → ∃ d, Under hm H d

/-- Under the hash there are nodes of live elements that fit and nodes of others. -/
def Mixed (h : List (DaoCache × AnyCall)) (hm : HashMap) (H : ℤ) (fits : Args → Prop) : Prop :=
  (∃ d, Under hm H d ∧ Fitting h fits d) ∧ ∃ d, Under hm H d ∧ ¬ Fitting h fits d

/-- The nodes under the hash are those of the elements with that hash, one for each. -/
def MatchesAt (i : Index) (H : ℤ) (hm : HashMap) (elements : Store UInt64 DcEl) (els : List UInt64) : Prop :=
  ∃ es, Contents hm es ∧ ((es.filter fun e => e.key = H).map Entry.data).Perm
    (els.filter fun d => (elements d).map (·.hash i) = some H)

section under
variable {i : Index} {H : ℤ} {hm hm' : HashMap} {elements : Store UInt64 DcEl} {els els₁ els₂ : List UInt64}

theorem under_iff {es : List Entry} (hes : Contents hm es) (d : UInt64) :
    Under hm H d ↔ ∃ e ∈ es, e.key = H ∧ e.data = d := by
  constructor
  · intro hd
    obtain ⟨es', hes', he⟩ := hd
    rwa [hes.unique hes'.sequence]
  · exact fun he => ⟨es, hes, he⟩

theorem MatchesAt.under_iff (h : MatchesAt i H hm elements els) (d : UInt64) :
    Under hm H d ↔ d ∈ els ∧ (elements d).map (·.hash i) = some H := by
  obtain ⟨es, hes, hp⟩ := h
  have hmem := hp.mem_iff (a := d)
  rw [List.mem_filter, decide_eq_true_iff] at hmem
  rw [Dao.under_iff hes, ← hmem, List.mem_map]
  simp only [List.mem_filter, decide_eq_true_eq, and_assoc]

theorem filter_update {dce : UInt64} (v : Option DcEl) (hdce : dce ∉ els) :
    els.filter (fun d => (Function.update elements dce v d).map (·.hash i) = some H) =
      els.filter fun d => (elements d).map (·.hash i) = some H := by
  apply List.filter_congr
  intro d hd
  rw [Function.update_of_ne (ne_of_mem_of_not_mem hd hdce)]

theorem MatchesAt.insert (h : MatchesAt i H hm elements els) {dce : UInt64} (el : DcEl) (hdce : dce ∉ els)
    (hn : el.node i ≠ 0 ∧ hm.tree.nodes (el.node i) = none)
    (e : hashMapInsertByHash hm (el.hash i) dce (el.node i) = some (hm', el.node i)) :
    MatchesAt i H hm' (Function.update elements dce (some el)) (els ++ [dce]) := by
  obtain ⟨es, hes, hp⟩ := h
  obtain ⟨hm₁, es', e', hes', hp'⟩ := hes.insert (el.hash i) dce hn.1 hn.2
  obtain ⟨rfl, -⟩ := Prod.mk.inj (Option.some.inj (e'.symm.trans e))
  refine ⟨es', hes', ((hp'.filter _).map _).trans ?_⟩
  rw [List.filter_append, filter_update _ hdce]
  by_cases hH : el.hash i = H
  · rw [List.filter_cons_of_pos (by simpa using hH), List.map_cons, List.filter_cons_of_pos (by simpa using hH)]
    exact (hp.cons dce).trans (List.perm_append_singleton _ _).symm
  · rw [List.filter_cons_of_neg (by simpa using hH), List.filter_cons_of_neg (by simpa using hH), List.filter_nil,
      List.append_nil]
    exact hp

theorem filter_middle {dce : UInt64} (p : UInt64 → Bool) :
    ((els₁ ++ dce :: els₂).filter p).Perm ((dce :: (els₁ ++ els₂)).filter p) := List.perm_middle.filter p

/-- A removal that has to do with the hash takes out the element's own node. -/
theorem MatchesAt.remove {dce : UInt64} (h : MatchesAt i H hm elements (els₁ ++ dce :: els₂)) {el : DcEl} {hash : ℤ}
    (hnd : (els₁ ++ dce :: els₂).Nodup) (hel : elements dce = some el)
    (e : hashMapRemoveByHash hm hash = some (hm', none))
    (hown : el.hash i = H ∨ hash = H → hash = el.hash i ∧ FindsOwn hm hash dce) :
    MatchesAt i H hm' (Function.update elements dce none) (els₁ ++ els₂) := by
  obtain ⟨es, hes, hp⟩ := h
  obtain ⟨p, hm₁, es', hget, e', hes', h0, hne⟩ := hes.remove hash
  obtain ⟨rfl, -⟩ := Prod.mk.inj (Option.some.inj (e'.symm.trans e))
  have hdce : dce ∉ els₁ ++ els₂ := (List.nodup_cons.mp (List.nodup_middle.mp hnd)).1
  refine ⟨es', hes', ?_⟩
  rw [filter_update _ hdce]
  have hp := hp.trans (filter_middle _)
  by_cases hH : el.hash i = H ∨ hash = H
  · obtain ⟨heq, q, hq, hdata⟩ := hown hH
    obtain rfl := Option.some.inj (hget.symm.trans hq)
    have hstored : el.hash i = H := hH.elim id fun hash_eq => heq ▸ hash_eq
    rw [List.filter_cons_of_pos (by simpa [hel] using hstored)] at hp
    -- the element has a node under the hash, so one is found
    have hp0 : p ≠ 0 := by
      obtain ⟨x, hx, -⟩ := List.mem_map.mp (hp.mem_iff.mpr List.mem_cons_self)
      rw [List.mem_filter, decide_eq_true_iff] at hx
      obtain ⟨p', hp', hzero, -⟩ := hes.get hash
      obtain rfl := Option.some.inj (hget.symm.trans hp')
      exact fun hp0 => hzero.mp hp0 x hx.1 (by rw [hx.2, heq, hstored])
    obtain ⟨x, hx, rfl, hkey, hperm⟩ := hne hp0
    obtain rfl : x.data = dce := Option.some.inj ((hes.dataAt hx).symm.trans hdata)
    have hfilter := (hperm.filter fun e => e.key = H).map Entry.data
    rw [List.filter_cons_of_pos (by simp [hkey, heq, hstored]), List.map_cons] at hfilter
    exact (hfilter.symm.trans hp).cons_inv
  · rw [not_or] at hH
    rw [List.filter_cons_of_neg (by simpa [hel] using hH.1)] at hp
    by_cases hp0 : p = 0
    · rwa [h0 hp0]
    · obtain ⟨x, hx, rfl, hkey, hperm⟩ := hne hp0
      have hfilter := (hperm.filter fun e => e.key = H).map Entry.data
      rw [List.filter_cons_of_neg (by simp [hkey, hH.2])] at hfilter
      exact hfilter.symm.trans hp

/-- A lookup by a hash gives the data of a node under it, if there is one. -/
theorem lookup_under (h : ∃ es, Contents hm es) (H : ℤ) : ∃ d, (hashMapGetByHash hm H).bind (nodeData hm) = some d ∧
    ((d = 0 ∧ ∀ d', ¬ Under hm H d') ∨ Under hm H d) := by
  obtain ⟨es, hes⟩ := h
  obtain ⟨p, hget, hp0, hfound⟩ := hes.get H
  rw [hget, Option.bind_some, nodeData]
  by_cases h0 : p = 0
  · refine ⟨0, if_pos h0, .inl ⟨rfl, fun d' hd' => ?_⟩⟩
    obtain ⟨e, he, hkey, -⟩ := (under_iff hes d').mp hd'
    exact hp0.mp h0 e he hkey
  · obtain ⟨e, he, rfl, hkey⟩ := hfound h0
    rw [if_neg h0]
    exact ⟨e.data, hes.dataAt he, .inr ⟨es, hes, e, he, hkey, rfl⟩⟩

end under

/-! ## Runs -/

/-- The elements `els` are the live ones of the run `h`, under the hashes of their strings. -/
structure Remembers (h : List (DaoCache × AnyCall)) (elements : Store UInt64 DcEl) (els : List UInt64) : Prop where
  live : ∀ d, d ∈ els ↔ (addedAs h d).isSome
  hashes : ∀ d args, addedAs h d = some args →
    (elements d).map (·.hash .nickname) = some args.hashNickname ∧ (elements d).map (·.hash .addr) = some args.hashAddr

/-- A removal that has to do with the hash takes the element's own node out of the map. -/
def RemovesOwnAt (i : Index) (H : ℤ) (c : DaoCache) (call : AnyCall) : Prop :=
  ∀ dce el, call.removed = some dce → c.elements dce = some el → el.hash i = H ∨ call.asks el i = H →
    call.asks el i = el.hash i ∧ FindsOwn (c.hm i) (call.asks el i) dce

section step
variable {c c' : DaoCache} {xs ys xs' ys' : List UInt64} {call : AnyCall} {h : List (DaoCache × AnyCall)}

theorem Remembers.step (hr : Remembers h c.elements (ys.map payload)) (hn : ys.Nodup)
    (he : Effect c c' xs ys call xs' ys') : Remembers ((c, call) :: h) c'.elements (ys'.map payload) := by
  cases he with
  | @kept nickname host port dao hc hdao hnull =>
    have hadds : (AnyCall.call (.add nickname host port 0)).adds = none := by
      unfold AnyCall.adds
      split
      · rename_i heq
        obtain ⟨-, -, -, rfl⟩ := Op.add.inj (AnyCall.call.inj heq)
        exact if_pos rfl
      · rfl
    have hsame : addedAs ((c, .call (.add nickname host port 0)) :: h) = addedAs h := by
      funext d
      simp only [addedAs, AnyCall.removed, hadds, reduceCtorEq, if_false]
    subst hc
    refine ⟨?_, ?_⟩
    · rw [hsame]
      exact hr.live
    · rw [hsame]
      exact hr.hashes
  | @added nickname host port g id hg hsql hrow hadds =>
    have hdata : payload g.element.addr ≠ 0 := hg.element.data
    have hnow : ∀ d,
        addedAs ((c, .call (.add (some nickname) (some host) (some port) (payload g.element.addr))) :: h) d =
        if payload g.element.addr = d then some ⟨nickname, host, port⟩ else addedAs h d := by
      intro d
      simp only [addedAs, AnyCall.removed, AnyCall.adds, reduceCtorEq, if_false, if_neg hdata]
    rw [hadds.elements]
    refine ⟨fun d => ?_, fun d args hd => ?_⟩
    · rw [List.map_append, List.mem_append, hr.live d, hnow]
      by_cases e : payload g.element.addr = d
      · simp [e]
      · simp [e, Ne.symm e]
    · rw [hnow] at hd
      by_cases e : payload g.element.addr = d
      · subst e
        rw [if_pos rfl, Option.some.injEq] at hd
        rw [Function.update_self, ← hd]
        exact ⟨rfl, rfl⟩
      · rw [if_neg e] at hd
        rw [Function.update_of_ne (Ne.symm e)]
        exact hr.hashes d args hd
  | @removed _ a b _ y el hcall hys hel hremoves =>
    subst hys
    rw [hremoves.elements]
    have hgone := payload_gone hn
    have hadds : call.adds = none := by
      cases call with
      | removeBy q stale => rfl
      | call op =>
        cases op with
        | remove dce => rfl
        | add nickname host port dce => cases hcall
    have hnow : ∀ d, addedAs ((c, call) :: h) d = if payload y = d then none else addedAs h d := by
      intro d
      simp only [addedAs, hcall, hadds, Option.some.injEq]
    refine ⟨fun d => ?_, fun d args hd => ?_⟩
    · rw [hnow]
      by_cases e : payload y = d
      · subst e
        simpa using hgone
      · rw [if_neg e, ← hr.live d]
        simp [Ne.symm e]
    · rw [hnow] at hd
      by_cases e : payload y = d
      · simp [e] at hd
      · rw [if_neg e] at hd
        rw [Function.update_of_ne (Ne.symm e)]
        exact hr.hashes d args hd

theorem MatchesAt.step {i : Index} {H : ℤ} (hx : MatchesAt i H (c.hm i) c.elements (ys.map payload))
    (hm : Managed c xs ys)
    (hC : RemovesOwnAt i H c call) (he : Effect c c' xs ys call xs' ys') :
    MatchesAt i H (c'.hm i) c'.elements (ys'.map payload) := by
  cases he with
  | kept hc =>
    rw [hc, DaoCache.hm_dao]
    exact hx
  | added hg hsql hrow hadds =>
    rw [hadds.elements, List.map_append]
    exact hx.insert _ (hg.notMem hm.toCached) (hg.node _ _ _ _ i) (hadds.maps i)
  | @removed _ a b _ y el hcall hys hel hremoves =>
    subst hys
    have hnd : ((a ++ y :: b).map payload).Nodup := hm.dceList.nodup.map payload_injective
    rw [List.map_append, List.map_cons] at hnd hx
    rw [hremoves.elements, List.map_append]
    exact hx.remove hnd hel (hremoves.maps i) (hC _ el hcall hel)

/-- No map has a node without data. -/
def NoneNull (c : DaoCache) : Prop := ∀ i es, Contents (c.hm i) es → ∀ e ∈ es, e.data ≠ 0

theorem NoneNull.step (hx : NoneNull c) (hm : Managed c xs ys) (he : Effect c c' xs ys call xs' ys') : NoneNull c' := by
  intro i es hes e hmem
  obtain ⟨es₀, hes₀⟩ := hm.contents i
  cases he with
  | kept hc =>
    rw [hc, DaoCache.hm_dao] at hes
    exact hx i es hes e hmem
  | @added nickname host port g id hg hsql hrow hadds =>
    obtain ⟨hn, hfree⟩ := hg.node nickname host port id i
    obtain ⟨hm₁, es', e', hes', hp⟩ :=
      hes₀.insert ((added nickname host port g id).hash i) (payload g.element.addr) hn hfree
    obtain ⟨rfl, -⟩ := Prod.mk.inj (Option.some.inj (e'.symm.trans (hadds.maps i)))
    obtain rfl := hes.unique hes'.sequence
    cases List.mem_cons.mp (hp.mem_iff.mp hmem) with
    | inl hnew =>
      rw [hnew]
      exact hg.element.data
    | inr hold => exact hx i es₀ hes₀ e hold
  | @removed _ a b _ y el hcall hys hel hremoves =>
    obtain ⟨p, hm₁, es', -, e', hes', h0, hne⟩ := hes₀.remove (call.asks el i)
    obtain ⟨rfl, -⟩ := Prod.mk.inj (Option.some.inj (e'.symm.trans (hremoves.maps i)))
    obtain rfl := hes.unique hes'.sequence
    by_cases hp0 : p = 0
    · exact hx i es₀ hes₀ e (h0 hp0 ▸ hmem)
    · obtain ⟨x, -, -, -, hperm⟩ := hne hp0
      exact hx i es₀ hes₀ e (hperm.mem_iff.mpr (List.mem_cons_of_mem x hmem))

end step

/-- What the runs keep, whatever the maps have come to hold. -/
structure Tracked (h : List (DaoCache × AnyCall)) (c : DaoCache) (xs ys : List UInt64) : Prop where
  managed : Managed c xs ys
  remembers : Remembers h c.elements (ys.map payload)
  nonNull : NoneNull c

theorem Tracked.step {h : List (DaoCache × AnyCall)} {c c' : DaoCache} {xs ys xs' ys' : List UInt64} {call : AnyCall}
    (ht : Tracked h c xs ys) (hm' : Managed c' xs' ys') (he : Effect c c' xs ys call xs' ys') :
    Tracked ((c, call) :: h) c' xs' ys' :=
  ⟨hm', ht.remembers.step ht.managed.dceList.nodup he, ht.nonNull.step ht.managed he⟩

section runs
variable {daoList dceList byId byNickname byAddr : UInt64} (h₁ : daoList ≠ 0) (h₂ : dceList ≠ 0)
    (hne : daoList ≠ dceList)
  {h : List (DaoCache × AnyCall)} {c : DaoCache}
include h₁ h₂ hne

theorem emptyCache_tracked : Tracked [] (emptyCache daoList dceList byId byNickname byAddr) [] [] where
  managed := emptyCache_managed byId byNickname byAddr h₁ h₂ hne
  remembers := by
    refine ⟨fun d => by simp [addedAs], fun d args hd => ?_⟩
    cases hd
  nonNull := by
    intro i es hes e he
    have hnil : Contents ((emptyCache daoList dceList byId byNickname byAddr).hm i) [] := by
      cases i <;> exact Contents.init ..
    rw [hes.unique hnil.sequence] at he
    cases he

theorem tracked_of_run (r : Run AnyStep (emptyCache daoList dceList byId byNickname byAddr) h c) :
    ∃ xs ys, Tracked h c xs ys := by
  refine r.invariant_history (I := fun h c => ∃ xs ys, Tracked h c xs ys) ⟨[], [], emptyCache_tracked h₁ h₂ hne⟩ ?_
  rintro h c call c' ⟨xs, ys, ht⟩ hs
  obtain ⟨xs', ys', hm', he⟩ := ht.managed.step hs
  exact ⟨xs', ys', ht.step hm' he⟩

theorem matchesAt_of_run (r : Run AnyStep (emptyCache daoList dceList byId byNickname byAddr) h c) {i : Index} {H : ℤ}
    (hC : ∀ e ∈ h, RemovesOwnAt i H e.1 e.2) :
    ∃ xs ys, Managed c xs ys ∧ MatchesAt i H (c.hm i) c.elements (ys.map payload) := by
  refine r.keeps (I := fun _ c => ∃ xs ys, Managed c xs ys ∧ MatchesAt i H (c.hm i) c.elements (ys.map payload))
    ⟨[], [], emptyCache_managed byId byNickname byAddr h₁ h₂ hne, ?_⟩ ?_ hC
  · cases i <;> exact ⟨[], Contents.init .., List.Perm.nil⟩
  · rintro _ c call c' ⟨xs, ys, hm, hx⟩ hcall hs
    obtain ⟨xs', ys', hm', he⟩ := hm.step hs
    exact ⟨xs', ys', hm', hx.step hm hcall he⟩

end runs

/-! ## When a lookup is right -/

section right
variable {h : List (DaoCache × AnyCall)} {hm : HashMap} {H : ℤ} {fits : Args → Prop} {result : Option UInt64}

theorem Tells.right (ht : Tells h hm H fits) {d : UInt64} (hd : result = some d)
    (hcase : (d = 0 ∧ ∀ d', ¬ Under hm H d') ∨ Under hm H d) : LookupRight h fits result := by
  refine ⟨d, hd, ?_⟩
  cases hcase with
  | inl hnone =>
    refine ⟨fun hsome => ?_, fun _ => hnone.1⟩
    obtain ⟨d', hd'⟩ := ht.found hsome
    exact absurd hd' (hnone.2 d')
  | inr hunder => exact ⟨fun _ => ht.only d hunder, fun hnone => absurd ⟨d, ht.only d hunder⟩ hnone⟩

theorem LookupRight.tells (hr : LookupRight h fits result) (hnull : ∀ d, Under hm H d → d ≠ 0) {d : UInt64}
    (hd : result = some d) (hcase : (d = 0 ∧ ∀ d', ¬ Under hm H d') ∨ Under hm H d) (hd0 : addedAs h 0 = none) :
    Tells h hm H fits ∨ Mixed h hm H fits := by
  obtain ⟨d₁, hd₁, hsome, hnone⟩ := hr
  obtain rfl := Option.some.inj (hd₁.symm.trans hd)
  cases hcase with
  | inl hempty =>
    obtain ⟨rfl, hempty⟩ := hempty
    refine .inl ⟨fun d' hd' => absurd hd' (hempty d'), fun hex => ?_⟩
    obtain ⟨args, hargs, -⟩ := hsome hex
    cases hd0.symm.trans hargs
  | inr hunder =>
    by_cases hex : ∃ d', Fitting h fits d'
    · by_cases hall : ∀ d', Under hm H d' → Fitting h fits d'
      · exact .inl ⟨hall, fun _ => ⟨d₁, hunder⟩⟩
      · obtain ⟨d', hd'⟩ := not_forall.mp hall
        rw [Classical.not_imp] at hd'
        exact .inr ⟨⟨d₁, hunder, hsome hex⟩, d', hd'⟩
    · exact absurd (hnone hex) (hnull d₁ hunder)

end right

/-- A lookup of `H` in the map `i` is right if all the nodes under `H` tell, and otherwise only where nodes of elements
that fit are among those of others. They tell exactly if the live elements with that hash are those that fit, in every
run that removes only own nodes from under `H`. -/
structure RightWhen (h : List (DaoCache × AnyCall)) (c : DaoCache) (i : Index) (H : ℤ) (stored : Args → ℤ)
    (fits : Args → Prop) (result : Option UInt64) : Prop where
  enough : Tells h (c.hm i) H fits → LookupRight h fits result
  needed : LookupRight h fits result → Tells h (c.hm i) H fits ∨ Mixed h (c.hm i) H fits
  tells : (∀ e ∈ h, RemovesOwnAt i H e.1 e.2) →
    (Tells h (c.hm i) H fits ↔ ∀ d args, addedAs h d = some args → (stored args = H ↔ fits args))

theorem rightWhen_of_run {daoList dceList byId byNickname byAddr : UInt64} (h₁ : daoList ≠ 0) (h₂ : dceList ≠ 0)
    (hne : daoList ≠ dceList) {h : List (DaoCache × AnyCall)} {c : DaoCache}
    (r : Run AnyStep (emptyCache daoList dceList byId byNickname byAddr) h c) (i : Index) (H : ℤ) {stored : Args → ℤ}
    {fits : Args → Prop} {result : Option UInt64}
    (hstored : ∀ elements els, Remembers h elements els → ∀ d args, addedAs h d = some args →
      (elements d).map (·.hash i) = some (stored args))
    (hresult : ∀ xs ys, Managed c xs ys → result = (hashMapGetByHash (c.hm i) H).bind (nodeData (c.hm i)))
    (hsame : ∀ a b, fits a → fits b → stored a = stored b) : RightWhen h c i H stored fits result := by
  obtain ⟨xs, ys, ht⟩ := tracked_of_run h₁ h₂ hne r
  obtain ⟨d, hd, hcase⟩ := lookup_under (ht.managed.contents i) H
  have hresult := (hresult xs ys ht.managed).trans hd
  have hnull : ∀ d, Under (c.hm i) H d → d ≠ 0 := by
    rintro d ⟨es, hes, e, he, -, rfl⟩
    exact ht.nonNull i es hes e he
  have hd0 : addedAs h 0 = none := by
    rw [← Option.not_isSome_iff_eq_none, ← ht.remembers.live 0]
    intro hmem
    obtain ⟨y, hy, h0⟩ := List.mem_map.mp hmem
    exact ht.managed.dceList.data y hy h0
  refine ⟨fun htells => htells.right hresult hcase, fun hright => hright.tells hnull hresult hcase hd0, fun hC => ?_⟩
  obtain ⟨xs', ys', hm', hx⟩ := matchesAt_of_run h₁ h₂ hne r hC
  obtain rfl := ht.managed.dceList.unique hm'.dceList
  have hunder : ∀ d, Under (c.hm i) H d ↔ ∃ args, addedAs h d = some args ∧ stored args = H := by
    intro d
    rw [hx.under_iff, ht.remembers.live d, Option.isSome_iff_exists]
    constructor
    · rintro ⟨⟨args, hargs⟩, hhash⟩
      exact ⟨args, hargs, Option.some.inj ((hstored _ _ ht.remembers d args hargs).symm.trans hhash)⟩
    · rintro ⟨args, hargs, hhash⟩
      exact ⟨⟨args, hargs⟩, (hstored _ _ ht.remembers d args hargs).trans (congrArg some hhash)⟩
  constructor
  · intro htells d args hargs
    constructor
    · intro hhash
      obtain ⟨args', hargs', hfits⟩ := htells.only d ((hunder d).mpr ⟨args, hargs, hhash⟩)
      rwa [Option.some.inj (hargs.symm.trans hargs')]
    · intro hfits
      obtain ⟨d', hd'⟩ := htells.found ⟨d, args, hargs, hfits⟩
      obtain ⟨args', hargs', hfits'⟩ := htells.only d' hd'
      obtain ⟨args₁, hargs₁, hhash⟩ := (hunder d').mp hd'
      obtain rfl := Option.some.inj (hargs'.symm.trans hargs₁)
      rw [hsame args args' hfits hfits', hhash]
  · intro hall
    refine ⟨fun d hd => ?_, fun hex => ?_⟩
    · obtain ⟨args, hargs, hhash⟩ := (hunder d).mp hd
      exact ⟨args, hargs, (hall d args hargs).mp hhash⟩
    · obtain ⟨d, args, hargs, hfits⟩ := hex
      exact ⟨d, (hunder d).mpr ⟨args, hargs, (hall d args hargs).mpr hfits⟩⟩

theorem lookups_right (daoList dceList byId byNickname byAddr : UInt64) (h₁ : daoList ≠ 0) (h₂ : dceList ≠ 0)
    (hne : daoList ≠ dceList) (h : List (DaoCache × AnyCall)) (c : DaoCache)
    (r : Run AnyStep (emptyCache daoList dceList byId byNickname byAddr) h c) :
    (∀ nickname : CString,
      RightWhen h c .nickname (pearsonHash nickname.1) Args.hashNickname (fun a => a.nickname = nickname)
        (daoCacheGetClientByNickname c nickname)) ∧
    ∀ host port : CString,
      RightWhen h c .addr (addrHash host port) Args.hashAddr (fun a => a.host = host ∧ a.port = port)
        (daoCacheGetClientByAddr c host port) := by
  constructor
  · intro nickname
    refine rightWhen_of_run h₁ h₂ hne r .nickname _ (fun _ _ hr d args hargs => (hr.hashes d args hargs).1) ?_ ?_
    · exact fun xs ys hm => lookupTpl_eq hm.initialized hm.unlocked rfl _
    · rintro a b rfl hb
      rw [Args.hashNickname, Args.hashNickname, hb]
  · intro host port
    refine rightWhen_of_run h₁ h₂ hne r .addr _ (fun _ _ hr d args hargs => (hr.hashes d args hargs).2) ?_ ?_
    · exact fun xs ys hm => lookupTpl_eq hm.initialized hm.unlocked rfl _
    · rintro a b ⟨rfl, rfl⟩ hb
      rw [Args.hashAddr, Args.hashAddr, hb.1, hb.2]

def port1234 : CString := ⟨[0x31, 0x32, 0x33, 0x34], by decide⟩
def port2234 : CString := ⟨[0x32, 0x32, 0x33, 0x34], by decide⟩

/-- Client "a" at host "h" and port "1234". -/
theorem one_at_1234 : ∃ c,
    Run AnyStep noClients [(noClients, .call (.add (some textA) (some textH) (some port1234) (payload 1536)))] c ∧
    daoCacheAddClient noClients (some textA) (some textH) (some port1234) (givenFirst textA textH port1234) =
      some (c, payload 1536) := by
  obtain ⟨c, e, s, -, -⟩ := first_added textA textH port1234
  exact ⟨c, .next .start (.call s), e⟩

theorem one_at_1234_added (d : UInt64) (args : Args)
    (hd : addedAs [(noClients, .call (.add (some textA) (some textH) (some port1234) (payload 1536)))] d = some args) :
    args = ⟨textA, textH, port1234⟩ := by
  have hdata : payload 1536 ≠ 0 := by decide
  simp only [addedAs, AnyCall.removed, AnyCall.adds, reduceCtorEq, if_false, if_neg hdata] at hd
  split_ifs at hd
  exact (Option.some.inj hd).symm

theorem lookups_right_one : ∃ h c, Run AnyStep noClients h c ∧
    LookupRight h (fun a => a.nickname = textA) (daoCacheGetClientByNickname c textA) ∧
    LookupRight h (fun a => a.host = textH ∧ a.port = port1234) (daoCacheGetClientByAddr c textH port1234) := by
  obtain ⟨c, r, -⟩ := one_at_1234
  obtain ⟨hn, ha⟩ := lookups_right 8 16 24 32 40 (by decide) (by decide) (by decide) _ c r
  have hown : ∀ i H, ∀ e ∈ [(noClients, AnyCall.call (.add (some textA) (some textH) (some port1234) (payload 1536)))],
      RemovesOwnAt i H e.1 e.2 := by
    intro i H e he dce el hcall
    rw [List.mem_singleton.mp he] at hcall
    cases hcall
  refine ⟨_, c, r, (hn textA).enough (((hn textA).tells (hown _ _)).mpr ?_),
    (ha textH port1234).enough (((ha textH port1234).tells (hown _ _)).mpr ?_)⟩
  · intro d args hd
    rw [one_at_1234_added d args hd]
    exact ⟨fun _ => rfl, fun _ => rfl⟩
  · intro d args hd
    rw [one_at_1234_added d args hd]
    exact ⟨fun _ => ⟨rfl, rfl⟩, fun _ => rfl⟩

/-- The first byte of a port does not enter its hash: a query for port "2234" returns the
client that was added with port "1234". -/
theorem lookup_of_other_port : ∃ h c, Run AnyStep noClients h c ∧
    addedAs h (payload 1536) = some ⟨textA, textH, port1234⟩ ∧
    daoCacheGetClientByAddr c textH port2234 = some (payload 1536) ∧
    ¬ LookupRight h (fun a => a.host = textH ∧ a.port = port2234) (daoCacheGetClientByAddr c textH port2234) := by
  obtain ⟨c, r, e⟩ := one_at_1234
  have hget : daoCacheGetClientByAddr c textH port2234 = some (payload 1536) := by
    change some (_, _) = _ at e
    obtain ⟨rfl, -⟩ := Prod.mk.inj (Option.some.inj e)
    rfl
  refine ⟨_, c, r, rfl, hget, fun hright => ?_⟩
  obtain ⟨d, hd, -, hnone⟩ := hright
  have h0 : d = 0 := by
    refine hnone fun hsome => ?_
    obtain ⟨d', args, hargs, -, hport⟩ := hsome
    rw [one_at_1234_added d' args hargs] at hport
    exact absurd hport (by decide)
  rw [hget, h0, Option.some.injEq] at hd
  exact absurd hd (by decide)

/-! ## The address hash and the text of the address -/

/-- An update never gives the hash of the longer text, so the address hash is never that of host:port; and the first
byte of a port, whatever the rest, is not looked at. -/
theorem update_never_appends (a b : List UInt8) (host port port' : CString) (hport : port.1 ≠ [])
    (hport' : port'.1 ≠ []) (htail : port.1.tail = port'.1.tail) :
    pearsonHashUpdate (pearsonHash a) b ≠ pearsonHash (a ++ b) ∧
      addrHash host port ≠ pearsonHash (host.1 ++ [0x3a] ++ port.1) ∧ addrHash host port = addrHash host port' := by
  refine ⟨pearsonHashUpdate_ne _ b (a ++ b), pearsonHashUpdate_ne _ _ _, ?_⟩
  obtain ⟨c, rest, e⟩ := List.exists_cons_of_ne_nil hport
  obtain ⟨c', rest', e'⟩ := List.exists_cons_of_ne_nil hport'
  rw [e, e', List.tail_cons, List.tail_cons] at htail
  rw [addrHash, addrHash, e, e', htail, pearsonHashUpdate_cons]

theorem update_never_appends_ports :
    pearsonHashUpdate (pearsonHash textA.1) textH.1 ≠ pearsonHash (textA.1 ++ textH.1) ∧
    addrHash textH port1234 = addrHash textH port2234 := by
  obtain ⟨happend, _, hports⟩ := update_never_appends textA.1 textH.1 textH port1234 port2234 (by decide)
    (by decide) rfl
  exact ⟨happend, hports⟩

theorem update_of_one_byte : pearsonHashUpdate (pearsonHash [0x61]) [0x62] ≠ pearsonHash [0x61, 0x62] := by
  decide +kernel

end Chats.Dao
