import Chats.P2p.Server.DaoCacheRuns

/-! # The index by id

While every text that SQLite gets is one `INSERT`, no id is given out that is in use, so an element's node
is the only one under its id, and the map by id stays in step with the two lists. A quote in a string can make
more than one statement of the text, and then the last rowid may be that of a client that is there. -/
namespace Chats.Dao
set_option autoImplicit false

open Lib Lib.Sql Hash LinkedList Avl

/-- The rows of the table are those of the elements, no two under one id, and the map by id has
one node for each. -/
structure Numbered (c : DaoCache) (xs ys : List UInt64) : Prop extends Managed c xs ys where
  ids : Indexes c.hmById DcEl.id c.elements (ys.map payload)
  rows : c.dao.rows.map (fun r => some r.id) = ys.map fun y => (c.elements (payload y)).map DcEl.id
  distinct : (c.dao.rows.map DaoClient.id).Nodup

/-- Whatever SQLite gets of the call is one `INSERT`. -/
def Op.Plain (op : Op) : Prop := ∀ request ∈ op.request, OneInsert request

/-- The two lists in step, one node in the map by id for each element, and right lookups by id. -/
def InStep (c : DaoCache) : Prop :=
  ∃ xs ys, WellFormed c.mem c.daoList xs ∧ WellFormed c.mem c.dceList ys ∧
    ys.map (fun y => (c.elements (payload y)).map DcEl.client) = xs.map (fun x => some (payload x)) ∧
    Indexes c.hmById DcEl.id c.elements (ys.map payload) ∧
    ∀ id, ∃ d, daoCacheGetClientById c id = some d ∧
      (d = 0 ∧ (∀ e ∈ ys.map payload, (c.elements e).map DcEl.id ≠ some id) ∨
        d ∈ ys.map payload ∧ ∀ e ∈ ys.map payload, (c.elements e).map DcEl.id = some id ↔ e = d)

section numbered
variable {c c' : DaoCache} {xs ys : List UInt64} {id : ℤ}

theorem Numbered.id_inj (h : Numbered c xs ys) {y₁ y₂ : UInt64} (h₁ : y₁ ∈ ys) (h₂ : y₂ ∈ ys)
    (he : (c.elements (payload y₁)).map DcEl.id = (c.elements (payload y₂)).map DcEl.id) : y₁ = y₂ := by
  have hn : (ys.map fun y => (c.elements (payload y)).map DcEl.id).Nodup := by
    have hsome := h.distinct.map (Option.some_injective ℤ)
    rw [List.map_map] at hsome
    exact h.rows ▸ hsome
  exact List.inj_on_of_nodup_map hn h₁ h₂ he

theorem rows_removed {rows : List DaoClient} {ids₁ ids₂ : List (Option ℤ)} (hn : (rows.map DaoClient.id).Nodup)
    (h : rows.map (fun r => some r.id) = ids₁ ++ some id :: ids₂) :
    (rows.filter fun r => r.id ≠ id).map (fun r => some r.id) = ids₁ ++ ids₂ := by
  obtain ⟨r₁, rest, rfl, rfl, hrest⟩ := List.map_eq_append_iff.mp h
  obtain ⟨r, r₂, rfl, hr, rfl⟩ := List.map_eq_cons_iff.mp hrest
  obtain rfl := Option.some.inj hr
  rw [List.map_append, List.map_cons] at hn
  have hgone := (List.nodup_cons.mp (List.nodup_middle.mp hn)).1
  have hkeep : ∀ x ∈ r₁ ++ r₂, x.id ≠ r.id := by
    intro x hx e
    rw [← List.map_append, ← e] at hgone
    exact hgone (List.mem_map_of_mem hx)
  have hall : (r₁ ++ r :: r₂).filter (fun x => x.id ≠ r.id) = r₁ ++ r₂ := by
    rw [List.filter_append, List.filter_cons_of_neg (by simp), ← List.filter_append, List.filter_eq_self]
    intro x hx
    exact decide_eq_true (hkeep x hx)
  rw [hall, List.map_append]

theorem Numbered.removed {xs' a b : List UInt64} {y : UInt64} {el : DcEl} (h : Numbered c xs (a ++ y :: b))
    (h' : Managed c' xs' (a ++ b)) (hel : c.elements (payload y) = some el)
    (hremoves : Removes c c' (payload y) el el.hash) : Numbered c' xs' (a ++ b) := by
  have hgone := payload_gone h.dceList.nodup
  have hnd : ((a ++ y :: b).map payload).Nodup := h.dceList.nodup.map payload_injective
  have hids := h.ids
  have hrows := h.rows
  have hown : FindsOwn c.hmById el.id (payload y) := by
    refine hids.findsOwn (List.mem_map_of_mem (by simp)) hel fun d hd hhash => ?_
    obtain ⟨z, hz, rfl⟩ := List.mem_map.mp hd
    rw [h.id_inj hz (List.mem_append_right a List.mem_cons_self) (by rw [hhash, hel, Option.map_some])]
  rw [List.map_append, List.map_cons] at hids hnd hrows
  rw [hel, Option.map_some] at hrows
  obtain ⟨hmId, eI, hI⟩ := hids.remove_own hnd hel hown
  obtain ⟨rfl, -⟩ := Prod.mk.inj (Option.some.inj (eI.symm.trans (hremoves.maps .id)))
  refine ⟨h', ?_, ?_, ?_⟩
  · rw [hremoves.elements, List.map_append]
    exact hI
  · rw [hremoves.dao, hremoves.elements, field_update _ _ hgone, List.map_append]
    exact rows_removed h.distinct hrows
  · rw [hremoves.dao]
    exact h.distinct.sublist (List.filter_sublist.map DaoClient.id)

theorem Numbered.added (h : Numbered c xs ys) {nickname host port : CString} {g : Given} (hg : Allocated c g)
    (h' : Managed c' (xs ++ [g.client.addr]) (ys ++ [g.element.addr])) {row : DaoClient}
    (hnew : ∀ r ∈ c.dao.rows, r.id ≠ row.id) (hrows : g.sql.table.rows = c.dao.rows ++ [row])
    (hadds : Adds c c' g (added nickname host port g row.id)) :
    Numbered c' (xs ++ [g.client.addr]) (ys ++ [g.element.addr]) := by
  have hdce := hg.notMem h.toCached
  obtain ⟨hmId, eI, hI⟩ := h.ids.insert (Dao.added nickname host port g row.id) hdce hg.nodeById.1 hg.nodeById.2
  obtain ⟨rfl, -⟩ := Prod.mk.inj (Option.some.inj (eI.symm.trans (hadds.maps .id)))
  refine ⟨h', ?_, ?_, ?_⟩
  · rw [hadds.elements, List.map_append]
    exact hI
  · rw [hadds.dao, hrows, hadds.elements, List.map_append, List.map_append, h.rows, field_update _ _ hdce]
    simp [Dao.added]
  · rw [hadds.dao, hrows, List.map_append]
    refine List.nodup_append.mpr ⟨h.distinct, by simp, ?_⟩
    intro i hi j hj
    obtain ⟨r, hr, rfl⟩ := List.mem_map.mp hi
    rw [List.map_singleton, List.mem_singleton] at hj
    exact hj ▸ hnew r hr

theorem Numbered.step {op : Op} (h : Numbered c xs ys) (hplain : op.Plain) (hs : Step c op c') :
    ∃ xs' ys', Numbered c' xs' ys' := by
  obtain ⟨xs', ys', h', heff⟩ := h.toManaged.step (.call hs)
  refine ⟨xs', ys', ?_⟩
  cases heff with
  | @kept nickname host port dao hc hdao hnull =>
    have hsame : dao = c.dao := by
      cases hrequest : (Op.add nickname host port 0).request with
      | none => exact hnull hrequest
      | some request => exact hdao request hrequest (hplain request hrequest)
    subst hsame
    subst hc
    exact h
  | added hg hsql hrow hadds =>
    obtain ⟨-, hnew, row, rfl, hrows⟩ := hsql.inserted (hplain _ rfl) _ hrow
    exact h.added hg h' hnew hrows hadds
  | removed hcall hys hel hremoves =>
    subst hys
    exact h.removed h' hel hremoves

theorem Numbered.inStep (h : Numbered c xs ys) : InStep c := by
  refine ⟨xs, ys, h.daoList, h.dceList, h.clients, h.ids, fun id => ?_⟩
  obtain ⟨d, hd, hcase⟩ := h.ids.lookup id
  refine ⟨d, (lookupTpl_eq h.initialized h.unlocked rfl id).trans hd, ?_⟩
  cases hcase with
  | inl hnone => exact .inl hnone
  | inr hfound =>
    obtain ⟨hmem, hhash⟩ := hfound
    refine .inr ⟨hmem, fun e he => ⟨fun heq => ?_, fun heq => heq ▸ hhash⟩⟩
    obtain ⟨y, hy, rfl⟩ := List.mem_map.mp hmem
    obtain ⟨z, hz, rfl⟩ := List.mem_map.mp he
    rw [h.id_inj hz hy (heq.trans hhash.symm)]

end numbered

theorem emptyCache_numbered {daoList dceList : UInt64} (byId byNickname byAddr : UInt64) (h₁ : daoList ≠ 0)
    (h₂ : dceList ≠ 0) (hne : daoList ≠ dceList) :
    Numbered (emptyCache daoList dceList byId byNickname byAddr) [] [] where
  toManaged := emptyCache_managed byId byNickname byAddr h₁ h₂ hne
  ids := ⟨[], Contents.init .., List.Perm.nil⟩
  rows := rfl
  distinct := List.nodup_nil

/-- An addition of three strings comes back unless SQLite refuses the row with a message. -/
theorem Managed.add_returns_iff {c : DaoCache} {xs ys : List UInt64} (h : Managed c xs ys)
    (nickname host port : CString) {g : Given} (hg : Allocated c g) :
    (daoCacheAddClient c (some nickname) (some host) (some port) g).isSome ↔
      ∀ errMsg, g.sql.row = .error errMsg → errMsg = 0 := by
  cases hrow : g.sql.row with
  | error errMsg =>
    have hsql := daoAddClient_error hrow
    by_cases h0 : errMsg = 0
    · rw [if_pos h0] at hsql
      rw [h.add_undone nickname host port hg.client hsql]
      refine iff_of_true rfl fun e he => ?_
      rw [← Except.error.inj he, h0]
    · rw [if_neg h0] at hsql
      rw [h.add_aborted nickname host port hg.client hsql]
      exact iff_of_false Bool.false_ne_true fun hall => h0 (hall errMsg rfl)
  | ok id =>
    have hnever (errMsg : UInt64) (he : Except.ok id = .error errMsg) : errMsg = 0 := by cases he
    refine iff_of_true ?_ hnever
    by_cases hid : id = 0
    · have hsql := daoAddClient_ok hrow
      rw [hid] at hsql
      rw [h.add_undone nickname host port hg.client hsql]
      rfl
    · obtain ⟨c', e, -⟩ := h.add_accepted nickname host port hg hrow hid
      rw [e]
      rfl

/-- In every run of additions and removals whose texts are one `INSERT` each, `dce_list` reads at every moment
as `dao_list`, the map by id has one node for each element, and a lookup by id returns the live element of that
id, or `NULL`. The next addition comes back exactly if it is not refused with a message. -/
theorem cache_in_step (daoList dceList byId byNickname byAddr : UInt64) (h₁ : daoList ≠ 0) (h₂ : dceList ≠ 0)
    (hne : daoList ≠ dceList) (h : List (DaoCache × Op)) (c : DaoCache)
    (r : Run Step (emptyCache daoList dceList byId byNickname byAddr) h c) (hplain : ∀ e ∈ h, e.2.Plain) :
    (∀ x ∈ visited h c, InStep x) ∧ ∀ (nickname host port : CString) (g : Given), Allocated c g →
      ((daoCacheAddClient c (some nickname) (some host) (some port) g).isSome ↔
        ∀ errMsg, g.sql.row = .error errMsg → errMsg = 0) := by
  have hgood : ∀ m ∈ moments h c, ∃ xs ys, Numbered m.2 xs ys := by
    intro m hm
    refine (r.of_mem_moments m hm).keeps (I := fun _ c => ∃ xs ys, Numbered c xs ys) (C := fun _ op => op.Plain)
      ⟨[], [], emptyCache_numbered byId byNickname byAddr h₁ h₂ hne⟩ ?_ fun e he =>
        hplain e (subset_of_mem_moments hm he)
    rintro _ c op c' ⟨xs, ys, hn⟩ hop hs
    exact hn.step hop hs
  constructor
  · rw [visited_eq_moments, List.forall_mem_map]
    intro m hm
    obtain ⟨xs, ys, hn⟩ := hgood m hm
    exact hn.inStep
  · intro nickname host port g hg
    obtain ⟨xs, ys, hn⟩ := hgood _ (mem_moments h c)
    exact hn.add_returns_iff nickname host port hg

/-- Without a quote in the strings the text is one `INSERT`. -/
theorem oneInsert_of_notMem {nickname host port : CString} (hn : 0x27 ∉ nickname.1) (hh : 0x27 ∉ host.1)
    (hp : 0x27 ∉ port.1) :
    OneInsert (addClientRequest (copiedClient nickname host port)) :=
  ⟨_, _, _, addClientRequest_tokens (fun h => hn (List.mem_of_mem_take h))
    (fun h => hh (List.mem_of_mem_take h)) fun h => hp (List.mem_of_mem_take h)⟩

theorem plain_ab (nickname : CString) (hn : 0x27 ∉ nickname.1) (dce : UInt64) :
    (Op.add (some nickname) (some textH) (some text1) dce).Plain := by
  rintro request hrequest
  obtain rfl := Option.some.inj hrequest
  exact oneInsert_of_notMem hn (by decide) (by decide)

/-- Two clients come and the first goes. -/
theorem cache_in_step_two : ∃ h c, Run Step noClients h c ∧
    h.map Prod.snd = [.remove (payload 1536), .add (some textB) (some textH) (some text1) (payload 4608),
      .add (some textA) (some textH) (some text1) (payload 1536)] ∧ ∀ x ∈ visited h c, InStep x := by
  obtain ⟨c₁, c₂, -, s₁, -, s₂, hm₂, hel, -⟩ := both_added
  obtain ⟨c₃, xs₃, s₃, -⟩ := hm₂.remove_step (a := []) (b := [4608]) hel
  have r := Run.next (.next (.next .start s₁) s₂) s₃
  refine ⟨_, c₃, r, rfl, (cache_in_step 8 16 24 32 40 (by decide) (by decide) (by decide) _ c₃ r ?_).1⟩
  intro e he
  fin_cases he
  · exact nofun
  · exact plain_ab textB (by decide) _
  · exact plain_ab textA (by decide) _

/-! ## A host with quotes in it -/

/-- It closes the literal, empties the table and puts client "b" in under the id 1. -/
def injectedHost : CString :=
  ⟨ascii "h','2'); DELETE FROM clients; INSERT INTO clients VALUES (1,'b','h','2'); --", by decide +kernel⟩

/-- What SQLite makes of it: each of the rows gets an id that is not in use. -/
def injected : Executed := ⟨{ rows := [⟨1, textB, textH, ⟨[0x32], by decide⟩⟩] }, .ok 1⟩

theorem injected_tokens :
    (tokenize (addClientRequest (copiedClient textB injectedHost text1))).map List.length = some 37 := by
  decide +kernel

theorem injected_answers (d : DaoTable) :
    Answers d (addClientRequest (copiedClient textB injectedHost text1)) injected := by
  have hnot : ¬ OneInsert (addClientRequest (copiedClient textB injectedHost text1)) := by
    rintro ⟨nickname, host, port, htokens⟩
    have hlen := injected_tokens
    rw [htokens] at hlen
    exact absurd (Option.some.inj hlen) (by simp [addClientTokens])
  exact ⟨fun hone => absurd hone hnot, fun hone => absurd hone hnot⟩

/-- Two nodes under one id: the removal of the second element takes out that of the first. -/
theorem ids_mixed {hm₁ hm₂ hm₃ : HashMap} {p₁ p₂ : UInt64} {d : Option UInt64}
    (e₁ : hashMapInsertByHash noClients.hmById 1 (payload 1536) 1024 = some (hm₁, p₁))
    (e₂ : hashMapInsertByHash hm₁ 1 (payload 4608) 4096 = some (hm₂, p₂))
    (e₃ : hashMapRemoveByHash hm₂ 1 = some (hm₃, d)) :
    (hashMapGetByHash hm₃ 1).bind (nodeData hm₃) = some (payload 4608) := by
  change some (_, _) = _ at e₁
  obtain ⟨rfl, -⟩ := Prod.mk.inj (Option.some.inj e₁)
  change some (_, _) = _ at e₂
  obtain ⟨rfl, -⟩ := Prod.mk.inj (Option.some.inj e₂)
  change some (_, _) = _ at e₃
  obtain ⟨rfl, -⟩ := Prod.mk.inj (Option.some.inj e₃)
  rfl

/-- Client "b" comes with that host and goes: a lookup of the id 1 gives the removed element, and not "a", who is still
there. And when a second "a" is refused, the call does not come back. -/
theorem cache_out_of_step :
    (∃ h c, Run Step noClients h c ∧
      h.map Prod.snd = [.remove (payload 4608), .add (some textB) (some injectedHost) (some text1) (payload 4608),
        .add (some textA) (some textH) (some text1) (payload 1536)] ∧
      daoCacheGetClientById c 1 = some (payload 4608) ∧ ¬ InStep c) ∧
    ∃ c, Run Step noClients [(noClients, .add (some textA) (some textH) (some text1) (payload 1536))] c ∧
      (∀ request, Answers c.dao request ⟨tableA, .error 8192⟩) ∧
      daoCacheAddClient c (some textA) (some textH) (some text1) (given 4096 ⟨tableA, .error 8192⟩) = none := by
  obtain ⟨c₁, e₁, s₁, hm₁, hadds₁⟩ := first_added textA textH text1
  constructor
  · have hg₂ : Allocated c₁ (given 4096 injected) := allocated_second _ e₁
    obtain ⟨c₂, e₂, hm₂, hadds₂⟩ := hm₁.add_accepted textB injectedHost text1 hg₂ rfl one_ne_zero
    have s₂ : Step c₁ (.add (some textB) (some injectedHost) (some text1) (payload 4608)) c₂ := by
      refine .add hg₂ (fun request hrequest => ?_) e₂
      obtain rfl := Option.some.inj hrequest
      exact injected_answers c₁.dao
    have hel : c₂.elements (payload 4608) = some (added textB injectedHost text1 (given 4096 injected) 1) := by
      rw [hadds₂.elements]
      exact Function.update_self ..
    obtain ⟨c₃, xs₃, s₃, hm₃, hremoves₃⟩ := hm₂.remove_step (a := [1536]) (b := []) hel
    have hget : daoCacheGetClientById c₃ 1 = some (payload 4608) :=
      (lookupTpl_eq hm₃.initialized hm₃.unlocked rfl 1).trans
        (ids_mixed (hadds₁.maps .id) (hadds₂.maps .id) (hremoves₃.maps .id))
    refine ⟨_, c₃, .next (.next (.next .start s₁) s₂) s₃, rfl, hget, ?_⟩
    rintro ⟨xs, ys, -, hys, -, -, hlookup⟩
    obtain rfl := hm₃.dceList.unique hys
    obtain ⟨d, hd, hcase⟩ := hlookup 1
    obtain rfl := Option.some.inj (hget.symm.trans hd)
    cases hcase with
    | inl hnone => exact absurd hnone.1 (by decide)
    | inr hfound => exact absurd hfound.1 (by decide)
  · refine ⟨c₁, .next .start s₁, fun request => ?_, ?_⟩
    · rw [hadds₁.dao]
      refine ⟨fun _ _ _ => rfl, fun _ id hrow => ?_⟩
      cases hrow
    · have hg₂ : Allocated c₁ (given 4096 ⟨tableA, .error 8192⟩) := allocated_second _ e₁
      exact hm₁.add_aborted textA textH text1 hg₂.client rfl

end Chats.Dao
