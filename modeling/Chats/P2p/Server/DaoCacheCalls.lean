import Chats.Common.LinkedListRuns
import Chats.P2p.Server.DaoCache
import Chats.P2p.Server.DaoSql

/-! # The calls of the client directory

What a call of `dao-cache.c` does to the two lists, to each of the three maps and to the table: an
addition and a removal, of whichever kind, each come to one thing. The lists stay in step and
the maps stay in order under every call. -/
namespace Chats.Dao
set_option autoImplicit false

open Lib Lib.Sql Hash LinkedList Avl

/-! ## The cache -/

/-- `xs` are the elements of `dao_list` and `ys` those of `dce_list`, in step with each other. -/
structure Cached (c : DaoCache) (xs ys : List UInt64) : Prop where
  initialized : c.initialized = true
  unlocked : c.mtx = false
  lists_ne : c.daoList ≠ c.dceList
  daoList : WellFormed c.mem c.daoList xs
  dceList : WellFormed c.mem c.dceList ys
  clients : ys.map (fun y => (c.elements (payload y)).map DcEl.client) = xs.map fun x => some (payload x)
  byId : ∃ es, Contents c.hmById es

/-- The three maps are in order too, and the elements are those of the list. -/
structure Managed (c : DaoCache) (xs ys : List UInt64) : Prop extends Cached c xs ys where
  byNickname : ∃ es, Contents c.hmByNickname es
  byAddr : ∃ es, Contents c.hmByAddr es
  elementsLive : ∀ d, (c.elements d).isSome → d ∈ ys.map payload

theorem DaoCache.hm_dao (c : DaoCache) (dao : DaoTable) (i : Index) : DaoCache.hm { c with dao } i = c.hm i := by
  cases i <;> rfl

theorem payload_injective : Function.Injective payload := by
  intro x y h
  rw [← getListElement_payload x, h, getListElement_payload]

theorem payload_gone {a b : List UInt64} {y : UInt64} (hn : (a ++ y :: b).Nodup) :
    payload y ∉ (a ++ b).map payload := by
  rw [List.mem_map_of_injective payload_injective]
  exact (List.nodup_cons.mp (List.nodup_middle.mp hn)).1

theorem lock_eq {c : DaoCache} (h : c.mtx = false) : c.lock = some { c with mtx := true } := by
  rw [DaoCache.lock, h]
  rfl

theorem lookupTpl_eq {c : DaoCache} (hinit : c.initialized = true) (hmtx : c.mtx = false) {hm : DaoCache → HashMap}
    (hhm : hm { c with mtx := true } = hm c) (H : ℤ) :
    lookupTpl hm c H = (hashMapGetByHash (hm c) H).bind (nodeData (hm c)) := by
  unfold lookupTpl
  rw [if_neg (by simp [hinit]), lock_eq hmtx]
  simp only [Option.bind_eq_bind, Option.bind_some, hhm]

theorem field_update {α : Type} (f : DcEl → α) {elements : Store UInt64 DcEl} {d : UInt64} {ys : List UInt64}
    (v : Option DcEl) (hd : d ∉ ys.map payload) :
    ys.map (fun y => (Function.update elements d v (payload y)).map f) =
      ys.map fun y => (elements (payload y)).map f := by
  apply List.map_congr_left
  intro y hy
  rw [Function.update_of_ne (ne_of_mem_of_not_mem (List.mem_map_of_mem hy) hd)]

/-- The map takes an element at a free block, whatever it holds. -/
theorem insert_contents {hm : HashMap} (h : ∃ es, Contents hm es) (hash : ℤ) (data : UInt64) {n : UInt64}
    (hn : n ≠ 0 ∧ hm.tree.nodes n = none) :
    ∃ hm', hashMapInsertByHash hm hash data n = some (hm', n) ∧ ∃ es, Contents hm' es := by
  obtain ⟨es, hes⟩ := h
  obtain ⟨hm', es', e, hes', -⟩ := hes.insert hash data hn.1 hn.2
  exact ⟨hm', e, es', hes'⟩

theorem remove_contents {hm : HashMap} (h : ∃ es, Contents hm es) (hash : ℤ) :
    ∃ hm', hashMapRemoveByHash hm hash = some (hm', none) ∧ ∃ es, Contents hm' es := by
  obtain ⟨es, hes⟩ := h
  obtain ⟨-, hm', es', -, e, hes', -⟩ := hes.remove hash
  exact ⟨hm', e, es', hes'⟩

theorem Managed.contents {c : DaoCache} {xs ys : List UInt64} (h : Managed c xs ys) (i : Index) :
    ∃ es, Contents (c.hm i) es := by
  cases i with
  | id => exact h.byId
  | nickname => exact h.byNickname
  | addr => exact h.byAddr

/-! ## An addition -/

/-- The blocks that the allocator gives are free. -/
structure Allocated (c : DaoCache) (g : Given) : Prop where
  client : Fresh c.mem g.client
  element : Fresh c.mem g.element
  distinct : g.element.addr ≠ g.client.addr
  nodeById : g.nodeById ≠ 0 ∧ c.hmById.tree.nodes g.nodeById = none
  nodeByNickname : g.nodeByNickname ≠ 0 ∧ c.hmByNickname.tree.nodes g.nodeByNickname = none
  nodeByAddr : g.nodeByAddr ≠ 0 ∧ c.hmByAddr.tree.nodes g.nodeByAddr = none

/-- The element that an accepted call puts into the cache. -/
def added (nickname host port : CString) (g : Given) (id : ℤ) : DcEl where
  id := id
  hashNickname := pearsonHash (nickname.copied 16).1
  hashAddr := addrHash (host.copied 256) (port.copied 6)
  nodeById := g.nodeById
  nodeByNickname := g.nodeByNickname
  nodeByAddr := g.nodeByAddr
  client := payload g.client.addr

/-- What an accepted addition does. -/
structure Adds (c c' : DaoCache) (g : Given) (el : DcEl) : Prop where
  lists : c'.daoList = c.daoList ∧ c'.dceList = c.dceList
  appended : ∃ m, listAppend c.mem c.daoList g.client = some (m, payload g.client.addr) ∧
    listAppend m c.dceList g.element = some (c'.mem, payload g.element.addr)
  maps : ∀ i, hashMapInsertByHash (c.hm i) (el.hash i) (payload g.element.addr) (el.node i) = some (c'.hm i, el.node i)
  elements : c'.elements = Function.update c.elements (payload g.element.addr) (some el)
  dao : c'.dao = g.sql.table

section add
variable {c : DaoCache} {xs ys : List UInt64} {g : Given} (nickname host port : CString)

theorem Fresh.notMem {m : Memory} {l : UInt64} {zs : List UInt64} {b : Block} (hb : Fresh m b)
    (h : WellFormed m l zs) : b.addr ∉ zs := fun hm => hb.ne h hm rfl

theorem Allocated.node (hg : Allocated c g) (id : ℤ) (i : Index) :
    (added nickname host port g id).node i ≠ 0 ∧
    (c.hm i).tree.nodes ((added nickname host port g id).node i) = none := by
  cases i with
  | id => exact hg.nodeById
  | nickname => exact hg.nodeByNickname
  | addr => exact hg.nodeByAddr

theorem Allocated.notMem (hg : Allocated c g) (h : Cached c xs ys) : payload g.element.addr ∉ ys.map payload := by
  rw [List.mem_map_of_injective payload_injective]
  exact Fresh.notMem hg.element h.dceList

/-- The block of the element is still free when the client has got its own. -/
theorem Allocated.element_free (hg : Allocated c g) (h : Cached c xs ys) {m : Memory}
    (hc : Changes c.mem m c.daoList xs (xs ++ [g.client.addr])) : Fresh m g.element := by
  have hnm := Fresh.notMem hg.element h.daoList
  refine ⟨hg.element.nonNull, hg.element.data, (hc.others _ hnm ?_).trans hg.element.free⟩
  simpa [hg.distinct] using hnm

/-- Of the environment a refused call uses the block for the client only, and all that may be left of it is
in the table. -/
theorem Cached.add_undone (h : Cached c xs ys) (hclient : Fresh c.mem g.client) {dao : DaoTable}
    (hsql : daoAddClient g.sql = some (dao, 0)) :
    daoCacheAddClient c (some nickname) (some host) (some port) g = some ({ c with dao }, 0) := by
  obtain ⟨m, e, eback⟩ := append_then_remove h.daoList hclient
  have hback : { c with dao, mtx := false } = { c with dao } := by
    rw [← h.unlocked]
  unfold daoCacheAddClient
  rw [if_neg (by simp [h.initialized]), lock_eq h.unlocked]
  simp only [Option.bind_eq_bind, Option.bind_some, e, if_neg hclient.data, hsql, ↓reduceIte, eback, hback]

/-- Where `dao_add_client` does not come back, neither does the call. -/
theorem Cached.add_aborted (h : Cached c xs ys) (hclient : Fresh c.mem g.client) (hsql : daoAddClient g.sql = none) :
    daoCacheAddClient c (some nickname) (some host) (some port) g = none := by
  obtain ⟨m, e, -⟩ := append_then_remove h.daoList hclient
  unfold daoCacheAddClient
  rw [if_neg (by simp [h.initialized]), lock_eq h.unlocked]
  simp only [Option.bind_eq_bind, Option.bind_some, e, if_neg hclient.data, hsql, Option.bind_none]

theorem Managed.add_accepted (h : Managed c xs ys) (hg : Allocated c g) {id : ℤ} (hrow : g.sql.row = .ok id)
    (hid : id ≠ 0) :
    ∃ c', daoCacheAddClient c (some nickname) (some host) (some port) g = some (c', payload g.element.addr) ∧
      Managed c' (xs ++ [g.client.addr]) (ys ++ [g.element.addr]) ∧ Adds c c' g (added nickname host port g id) := by
  have hnew := hg.notMem h.toCached
  obtain ⟨m₁, e₁, hc₁⟩ := listAppend_spec h.daoList hg.client
  have hfresh := hg.element_free h.toCached hc₁
  obtain ⟨m₂, e₂, hm₂, hothers₂⟩ := (hc₁.othersKept _ _ h.lists_ne.symm h.dceList).append hfresh
  obtain ⟨hmI, eI, hI⟩ := insert_contents h.byId id (payload g.element.addr) hg.nodeById
  obtain ⟨hmN, eN, hN⟩ := insert_contents h.byNickname (pearsonHash (nickname.copied 16).1)
    (payload g.element.addr) hg.nodeByNickname
  obtain ⟨hmA, eA, hA⟩ := insert_contents h.byAddr (addrHash (host.copied 256) (port.copied 6))
    (payload g.element.addr) hg.nodeByAddr
  have hsql := daoAddClient_ok hrow
  refine ⟨{ c with
    dao := g.sql.table
    mem := m₂, hmById := hmI, hmByNickname := hmN, hmByAddr := hmA
    clients := Function.update c.clients (payload g.client.addr) (some { copiedClient nickname host port with id })
    elements := Function.update c.elements (payload g.element.addr) (some (added nickname host port g id)) },
    ?_, ?_, ?_⟩
  · unfold daoCacheAddClient
    rw [if_neg (by simp [h.initialized]), lock_eq h.unlocked]
    simp only [Option.bind_eq_bind, Option.bind_some, e₁, if_neg hg.client.data, hsql, if_neg hid]
    unfold addElement
    simp only [copiedClient, Option.bind_eq_bind, Option.bind_some, e₂, if_neg hg.element.data, eI, eN, eA, h.unlocked]
    rfl
  · refine ⟨⟨h.initialized, h.unlocked, h.lists_ne, hothers₂ _ _ h.lists_ne hc₁.after, hm₂, ?_, hI⟩, hN, hA, ?_⟩
    · rw [List.map_append, List.map_append, ← h.clients, field_update _ _ hnew]
      simp [added]
    · intro d hd
      rw [List.map_append, List.mem_append]
      by_cases hd' : d = payload g.element.addr
      · exact .inr (by simp [hd'])
      · dsimp only at hd
        rw [Function.update_of_ne hd'] at hd
        exact .inl (h.elementsLive d hd)
  · refine ⟨⟨rfl, rfl⟩, ⟨m₁, e₁, e₂⟩, ?_, rfl, rfl⟩
    intro i
    cases i with
    | id => exact eI
    | nickname => exact eN
    | addr => exact eA

end add

/-! ## A removal -/

/-- What the removal of the element `dce` does, with the hashes that the maps are asked for. -/
structure Removes (c c' : DaoCache) (dce : UInt64) (el : DcEl) (asks : Index → ℤ) : Prop where
  lists : c'.daoList = c.daoList ∧ c'.dceList = c.dceList
  unlinked : ∃ m, listRemoveElement c.mem c.daoList el.client = some m ∧
    listRemoveElement m c.dceList dce = some c'.mem
  maps : ∀ i, hashMapRemoveByHash (c.hm i) (asks i) = some (c'.hm i, none)
  elements : c'.elements = Function.update c.elements dce none
  dao : c'.dao = daoRemoveClientById c.dao el.id

/-- An element and its client leave the two lists together. -/
theorem Cached.unlinked {c : DaoCache} {xs a b : List UInt64} {y : UInt64} (h : Cached c xs (a ++ y :: b)) {el : DcEl}
    (hel : c.elements (payload y) = some el) :
    ∃ m₁ m₂ xs', listRemoveElement c.mem c.daoList el.client = some m₁ ∧
      listRemoveElement m₁ c.dceList (payload y) = some m₂ ∧ WellFormed m₂ c.daoList xs' ∧
      WellFormed m₂ c.dceList (a ++ b) ∧
      (a ++ b).map (fun z => (Function.update c.elements (payload y) none (payload z)).map DcEl.client) =
        xs'.map fun x => some (payload x) := by
  have hnew := payload_gone h.dceList.nodup
  -- the client stands in `dao_list` where the element stands in `dce_list`
  have hcl := h.clients.symm
  rw [List.map_append] at hcl
  obtain ⟨a', rest, hxs, ha, hrest⟩ := List.map_eq_append_iff.mp hcl
  obtain ⟨x, b', rfl, hx, hb⟩ := List.map_eq_cons_iff.mp hrest
  subst hxs
  dsimp only at hx
  rw [hel, Option.map_some, Option.some.injEq] at hx
  obtain ⟨m₁, _, _, e₁, hm₁, hothers₁⟩ := h.daoList.remove
  obtain ⟨m₂, _, _, e₂, hm₂, hothers₂⟩ := (hothers₁ _ _ h.lists_ne.symm h.dceList).remove
  refine ⟨m₁, m₂, a' ++ b', hx ▸ e₁, e₂, hothers₂ _ _ h.lists_ne hm₁, hm₂, ?_⟩
  rw [field_update _ _ hnew, List.map_append, List.map_append, ha, hb]

/-- The cache without the element `dce`, with its maps as they have become. -/
def DaoCache.without (c : DaoCache) (dce : UInt64) (el : DcEl) (mem : Memory) (hms : Index → HashMap) : DaoCache :=
  { c with
    dao := daoRemoveClientById c.dao el.id
    mem
    hmById := hms .id
    hmByNickname := hms .nickname
    hmByAddr := hms .addr
    clients := Function.update c.clients el.client none
    elements := Function.update c.elements dce none }

section removal
variable {c : DaoCache} {xs ys a b : List UInt64} {y stale : UInt64} {el : DcEl}

theorem Managed.gone (h : Managed c xs (a ++ y :: b)) {elements : Store UInt64 DcEl}
    (hels : elements = Function.update c.elements (payload y) none) (d : UInt64) (hd : (elements d).isSome) :
    d ∈ (a ++ b).map payload := by
  obtain ⟨el, hel⟩ := Option.isSome_iff_exists.mp hd
  rw [hels] at hel
  obtain ⟨hne, hold⟩ := Store.update_none_iff.mp hel
  have hmem := h.elementsLive d (Option.isSome_of_eq_some hold)
  simp only [List.map_append, List.map_cons, List.mem_append, List.mem_cons] at hmem ⊢
  tauto

theorem Managed.element (h : Managed c xs ys) (hel : c.elements stale = some el) :
    ∃ a y b, ys = a ++ y :: b ∧ stale = payload y := by
  obtain ⟨y, hy, rfl⟩ := List.mem_map.mp (h.elementsLive stale (Option.isSome_of_eq_some hel))
  obtain ⟨a, b, hsplit⟩ := List.append_of_mem hy
  exact ⟨a, y, b, hsplit, rfl⟩

/-- By whatever hashes the maps are asked, every part of a removal goes through. -/
theorem Managed.parts (h : Managed c xs (a ++ y :: b)) (hel : c.elements (payload y) = some el) (H : Index → ℤ) :
    ∃ hms m₁ m₂ xs', (∀ i, hashMapRemoveByHash (c.hm i) (H i) = some (hms i, none)) ∧
      listRemoveElement c.mem c.daoList el.client = some m₁ ∧
      listRemoveElement m₁ c.dceList (payload y) = some m₂ ∧
      Managed (c.without (payload y) el m₂ hms) xs' (a ++ b) := by
  have hall : ∀ i, ∃ hm', hashMapRemoveByHash (c.hm i) (H i) = some (hm', none) ∧ ∃ es, Contents hm' es :=
    fun i => remove_contents (h.contents i) (H i)
  choose hms hrem hcon using hall
  obtain ⟨m₁, m₂, xs', e₁, e₂, hm₁, hm₂, hclients⟩ := h.unlinked hel
  exact ⟨hms, m₁, m₂, xs', hrem, e₁, e₂, ⟨h.initialized, h.unlocked, h.lists_ne, hm₁, hm₂, hclients, hcon .id⟩,
    hcon .nickname, hcon .addr, h.gone rfl⟩

theorem Removes.without {hms : Index → HashMap} {m₁ m₂ : Memory} {H : Index → ℤ}
    (eh : ∀ i, hashMapRemoveByHash (c.hm i) (H i) = some (hms i, none))
    (e₁ : listRemoveElement c.mem c.daoList el.client = some m₁)
    (e₂ : listRemoveElement m₁ c.dceList (payload y) = some m₂) :
    Removes c (c.without (payload y) el m₂ hms) (payload y) el H := by
  refine ⟨⟨rfl, rfl⟩, ⟨m₁, e₁, e₂⟩, ?_, rfl, rfl⟩
  intro i
  cases i with
  | id => exact eh .id
  | nickname => exact eh .nickname
  | addr => exact eh .addr

theorem Managed.remove_eq (h : Managed c xs (a ++ y :: b)) (hel : c.elements (payload y) = some el)
    {hms : Index → HashMap} {m₁ m₂ : Memory}
    (eh : ∀ i, hashMapRemoveByHash (c.hm i) (el.hash i) = some (hms i, none))
    (e₁ : listRemoveElement c.mem c.daoList el.client = some m₁)
    (e₂ : listRemoveElement m₁ c.dceList (payload y) = some m₂) :
    daoCacheRemoveClient c (payload y) = some (c.without (payload y) el m₂ hms) := by
  have hy0 : payload y ≠ 0 := h.dceList.data y (by simp)
  have eI : hashMapRemoveByHash c.hmById el.id = some (hms .id, none) := eh .id
  have eN : hashMapRemoveByHash c.hmByNickname el.hashNickname = some (hms .nickname, none) := eh .nickname
  have eA : hashMapRemoveByHash c.hmByAddr el.hashAddr = some (hms .addr, none) := eh .addr
  unfold daoCacheRemoveClient
  rw [if_neg (by simp [h.initialized]), if_neg hy0, lock_eq h.unlocked]
  simp only [Option.bind_eq_bind, Option.bind_some, hel, eI, eN, eA, e₁, e₂, DaoCache.without, h.unlocked]

theorem Managed.remove (h : Managed c xs (a ++ y :: b)) (hel : c.elements (payload y) = some el) :
    ∃ c' xs', daoCacheRemoveClient c (payload y) = some c' ∧ Managed c' xs' (a ++ b) ∧
      Removes c c' (payload y) el el.hash := by
  obtain ⟨hms, m₁, m₂, xs', eh, e₁, e₂, h'⟩ := h.parts hel el.hash
  exact ⟨_, xs', h.remove_eq hel eh e₁ e₂, h', .without eh e₁ e₂⟩

end removal

/-! ## Removal by id, by nickname and by address -/

/-- What a lookup and a removal are asked for; no lookup takes a NULL string. -/
inductive Query
  | id (rowid : ℤ)
  | nickname (nickname : CString)
  | addr (host port : CString)

namespace Query

def index : Query → Index
  | .id _ => .id
  | .nickname _ => .nickname
  | .addr _ _ => .addr

def hash : Query → ℤ
  | .id rowid => rowid
  | .nickname s => pearsonHash s.1
  | .addr host port => addrHash host port

def get (q : Query) (c : DaoCache) : Option UInt64 :=
  match q with
  | .id rowid => daoCacheGetClientById c rowid
  | .nickname s => daoCacheGetClientByNickname c s
  | .addr host port => daoCacheGetClientByAddr c host port

def remove (q : Query) (c : DaoCache) (stale : UInt64) : Option DaoCache :=
  match q with
  | .id rowid => daoCacheRemoveCientById c rowid stale
  | .nickname s => daoCacheRemoveClientByNickname c (some s) stale
  | .addr host port => daoCacheRemoveClientByAddr c (some host) (some port) stale

end Query

section removeBy
variable {c : DaoCache} {xs ys a b : List UInt64} {y stale : UInt64} {el : DcEl} {q : Query}

/-- A removal by `q` does to the element at `stale` what a removal of it does, except that the
first map is asked for the hash of `q`. -/
theorem Managed.removeBy_eq (h : Managed c xs (a ++ y :: b)) (hel : c.elements (payload y) = some el)
    {hms : Index → HashMap} {m₁ m₂ : Memory} (eq : hashMapRemoveByHash (c.hm q.index) q.hash = some (hms q.index, none))
    (eh : ∀ i, i ≠ q.index → hashMapRemoveByHash (c.hm i) (el.hash i) = some (hms i, none))
    (e₁ : listRemoveElement c.mem c.daoList el.client = some m₁)
    (e₂ : listRemoveElement m₁ c.dceList (payload y) = some m₂) :
    q.remove c (payload y) = some (c.without (payload y) el m₂ hms) := by
  cases q with
  | id rowid =>
    have eI : hashMapRemoveByHash c.hmById rowid = some (hms .id, none) := eq
    have eN : hashMapRemoveByHash c.hmByNickname el.hashNickname = some (hms .nickname, none) :=
      eh .nickname nofun
    have eA : hashMapRemoveByHash c.hmByAddr el.hashAddr = some (hms .addr, none) := eh .addr nofun
    simp [Query.remove, daoCacheRemoveCientById, removeByTpl, h.initialized, lock_eq h.unlocked, DaoCache.removeByHash,
      DaoCache.hm, DaoCache.withHm, DcEl.hash, hel, eI, eN, eA, e₁, e₂, DaoCache.without, h.unlocked]
  | nickname s =>
    have eI : hashMapRemoveByHash c.hmById el.id = some (hms .id, none) := eh .id nofun
    have eN : hashMapRemoveByHash c.hmByNickname (pearsonHash s.1) = some (hms .nickname, none) := eq
    have eA : hashMapRemoveByHash c.hmByAddr el.hashAddr = some (hms .addr, none) := eh .addr nofun
    simp [Query.remove, daoCacheRemoveClientByNickname, removeByTpl, h.initialized, lock_eq h.unlocked,
      DaoCache.removeByHash, DaoCache.hm, DaoCache.withHm, DcEl.hash, hel, eI, eN, eA, e₁, e₂,
        DaoCache.without, h.unlocked]
  | addr host port =>
    have eI : hashMapRemoveByHash c.hmById el.id = some (hms .id, none) := eh .id nofun
    have eN : hashMapRemoveByHash c.hmByNickname el.hashNickname = some (hms .nickname, none) :=
      eh .nickname nofun
    have eA : hashMapRemoveByHash c.hmByAddr (addrHash host port) = some (hms .addr, none) := eq
    simp [Query.remove, daoCacheRemoveClientByAddr, removeByTpl, h.initialized, lock_eq h.unlocked,
      DaoCache.removeByHash, DaoCache.hm, DaoCache.withHm, DcEl.hash, hel, eI, eN, eA, e₁, e₂,
        DaoCache.without, h.unlocked]

theorem Managed.removeBy (h : Managed c xs (a ++ y :: b)) (hel : c.elements (payload y) = some el) (q : Query) :
    ∃ c' xs', q.remove c (payload y) = some c' ∧ Managed c' xs' (a ++ b) ∧
      Removes c c' (payload y) el (Function.update el.hash q.index q.hash) ∧
      (el.hash q.index = q.hash → daoCacheRemoveClient c (payload y) = some c') := by
  obtain ⟨hms, m₁, m₂, xs', eh, e₁, e₂, h'⟩ := h.parts hel (Function.update el.hash q.index q.hash)
  have eq := eh q.index
  rw [Function.update_self] at eq
  have eo : ∀ i, i ≠ q.index → hashMapRemoveByHash (c.hm i) (el.hash i) = some (hms i, none) := by
    intro i hi
    have ei := eh i
    rwa [Function.update_of_ne hi] at ei
  refine ⟨_, xs', h.removeBy_eq hel eq eo e₁ e₂, h', .without eh e₁ e₂, ?_⟩
  intro hown
  rw [← hown, Function.update_eq_self] at eh
  exact h.remove_eq hel eh e₁ e₂

/-- With anything but an element on the stack, reading `dce->id` is the end. -/
theorem Managed.removeByTpl_dead (h : Managed c xs ys) (hd : c.elements stale = none) (i j k : Index) (hash : ℤ) :
    removeByTpl i j k c hash stale = none := by
  obtain ⟨hm', e, -⟩ := remove_contents (h.contents i) hash
  have e' : hashMapRemoveByHash (DaoCache.hm { c with mtx := true } i) hash = some (hm', none) := by
    cases i <;> exact e
  have hels : (DaoCache.withHm { c with mtx := true } i hm').elements stale = none := by
    cases i <;> exact hd
  simp [removeByTpl, lock_eq h.unlocked, DaoCache.removeByHash, e', hels]

theorem Managed.removeBy_dead (h : Managed c xs ys) (hd : c.elements stale = none) (q : Query) :
    q.remove c stale = none := by
  cases q with
  | id rowid =>
    simp only [Query.remove, daoCacheRemoveCientById, h.initialized, Bool.true_eq_false, ↓reduceIte]
    exact h.removeByTpl_dead hd _ _ _ _
  | nickname s =>
    simp only [Query.remove, daoCacheRemoveClientByNickname, h.initialized, Bool.true_eq_false, ↓reduceIte]
    exact h.removeByTpl_dead hd _ _ _ _
  | addr host port =>
    simp only [Query.remove, daoCacheRemoveClientByAddr, h.initialized, Bool.true_eq_false, ↓reduceIte]
    exact h.removeByTpl_dead hd _ _ _ _

end removeBy

/-! ## The calls -/

/-- The text is one `INSERT` of three literals. -/
def OneInsert (request : List UInt8) : Prop :=
  ∃ nickname host port, tokenize request = some (addClientTokens nickname host port)

/-- What is asked of SQLite. A text that is one `INSERT` adds one row, under a rowid that is not zero and not
in use, or is refused and changes nothing. Other texts may do anything. -/
structure Answers (d : DaoTable) (request : List UInt8) (sql : Executed) : Prop where
  refused : OneInsert request → ∀ errMsg, sql.row = .error errMsg → sql.table = d
  inserted : OneInsert request → ∀ id, sql.row = .ok id →
    id ≠ 0 ∧ (∀ r ∈ d.rows, r.id ≠ id) ∧ ∃ row : DaoClient, row.id = id ∧ sql.table.rows = d.rows ++ [row]

inductive Op
  | add (nickname host port : Option CString) (dce : UInt64)
  | remove (dce : UInt64)

/-- The text of an addition; a `NULL` string makes none. -/
def Op.request : Op → Option (List UInt8)
  | .add (some nickname) (some host) (some port) _ => some (addClientRequest (copiedClient nickname host port))
  | _ => none

def Live (c : DaoCache) (dce : UInt64) : Prop :=
  ∃ ys y, WellFormed c.mem c.dceList ys ∧ y ∈ ys ∧ dce = payload y

/-- One call that comes back; `add` is labelled with the element it returns, `0` for `NULL`. -/
inductive Step : DaoCache → Op → DaoCache → Prop
  | add {c c' : DaoCache} {nickname host port : Option CString} {dce : UInt64} {g : Given} (hg : Allocated c g)
      (hsql : ∀ request ∈ (Op.add nickname host port dce).request, Answers c.dao request g.sql)
      (h : daoCacheAddClient c nickname host port g = some (c', dce)) : Step c (.add nickname host port dce) c'
  | remove {c c' : DaoCache} {dce : UInt64} (hlive : Live c dce) (h : daoCacheRemoveClient c dce = some c') :
      Step c (.remove dce) c'

inductive AnyCall
  | call (op : Op)
  | removeBy (q : Query) (stale : UInt64)

inductive AnyStep : DaoCache → AnyCall → DaoCache → Prop
  | call {c c' : DaoCache} {op : Op} (h : Step c op c') : AnyStep c (.call op) c'
  | removeBy {c c' : DaoCache} (q : Query) (stale : UInt64) (h : q.remove c stale = some c') :
      AnyStep c (.removeBy q stale) c'

/-- The element that a call removes. -/
def AnyCall.removed : AnyCall → Option UInt64
  | .call (.add _ _ _ _) => none
  | .call (.remove dce) => some dce
  | .removeBy _ stale => some stale

/-- The hashes for which the maps are asked when the element `el` goes. -/
def AnyCall.asks (el : DcEl) : AnyCall → Index → ℤ
  | .call _ => el.hash
  | .removeBy q _ => Function.update el.hash q.index q.hash

/-- What a call comes to. -/
inductive Effect (c c' : DaoCache) (xs ys : List UInt64) : AnyCall → List UInt64 → List UInt64 → Prop
  | kept {nickname host port : Option CString} {dao : DaoTable} (hc : c' = { c with dao })
      (hdao : ∀ request ∈ (Op.add nickname host port 0).request, OneInsert request → dao = c.dao)
      (hnull : (Op.add nickname host port 0).request = none → dao = c.dao) :
      Effect c c' xs ys (.call (.add nickname host port 0)) xs ys
  | added {nickname host port : CString} {g : Given} {id : ℤ} (hg : Allocated c g)
      (hsql : Answers c.dao (addClientRequest (copiedClient nickname host port)) g.sql) (hrow : g.sql.row = .ok id)
      (hadds : Adds c c' g (added nickname host port g id)) :
      Effect c c' xs ys (.call (.add (some nickname) (some host) (some port) (payload g.element.addr)))
        (xs ++ [g.client.addr]) (ys ++ [g.element.addr])
  | removed {call : AnyCall} {a b xs' : List UInt64} {y : UInt64} {el : DcEl} (hcall : call.removed = some (payload y))
      (hys : ys = a ++ y :: b) (hel : c.elements (payload y) = some el)
      (hremoves : Removes c c' (payload y) el (call.asks el)) : Effect c c' xs ys call xs' (a ++ b)

theorem Cached.live {c : DaoCache} {xs ys : List UInt64} (h : Cached c xs ys) {dce : UInt64} (hl : Live c dce) :
    ∃ a y b el, ys = a ++ y :: b ∧ dce = payload y ∧ c.elements dce = some el := by
  obtain ⟨ys', y, hys', hy, rfl⟩ := hl
  obtain rfl := h.dceList.unique hys'
  obtain ⟨a, b, hsplit⟩ := List.append_of_mem hy
  have hmem := List.mem_map_of_mem (f := fun y => (c.elements (payload y)).map DcEl.client) hy
  rw [h.clients] at hmem
  obtain ⟨x, _, hx⟩ := List.mem_map.mp hmem
  cases hel : c.elements (payload y) with
  | none => simp [hel] at hx
  | some el => exact ⟨a, y, b, el, hsplit, rfl, rfl⟩

section step
variable {c c' : DaoCache} {xs ys : List UInt64}

theorem Managed.with_dao (h : Managed c xs ys) (dao : DaoTable) : Managed { c with dao } xs ys where
  initialized := h.initialized
  unlocked := h.unlocked
  lists_ne := h.lists_ne
  daoList := h.daoList
  dceList := h.dceList
  clients := h.clients
  byId := h.byId
  byNickname := h.byNickname
  byAddr := h.byAddr
  elementsLive := h.elementsLive

/-- An addition of three strings that comes back. -/
theorem Managed.add_step (h : Managed c xs ys) {nickname host port : CString} {g : Given} {dce : UInt64}
    (hg : Allocated c g)
    (hsql : Answers c.dao (addClientRequest (copiedClient nickname host port)) g.sql)
    (e : daoCacheAddClient c (some nickname) (some host) (some port) g = some (c', dce)) :
    ∃ xs' ys', Managed c' xs' ys' ∧
      Effect c c' xs ys (.call (.add (some nickname) (some host) (some port) dce)) xs' ys' := by
  have hundone : ∀ dao, daoAddClient g.sql = some (dao, 0) →
      (OneInsert (addClientRequest (copiedClient nickname host port)) → dao = c.dao) →
      ∃ xs' ys', Managed c' xs' ys' ∧
        Effect c c' xs ys (.call (.add (some nickname) (some host) (some port) dce)) xs' ys' := by
    intro dao hd hsame
    have e' := h.add_undone nickname host port hg.client hd
    obtain ⟨rfl, rfl⟩ := Prod.mk.inj (Option.some.inj (e.symm.trans e'))
    refine ⟨xs, ys, h.with_dao dao, .kept rfl ?_ nofun⟩
    intro request hrequest
    rwa [← Option.some.inj hrequest]
  cases hrow : g.sql.row with
  | error errMsg =>
    have hd := daoAddClient_error hrow
    by_cases h0 : errMsg = 0
    · rw [if_pos h0] at hd
      exact hundone g.sql.table hd fun hone => hsql.refused hone errMsg hrow
    · rw [if_neg h0] at hd
      cases e.symm.trans (h.add_aborted nickname host port hg.client hd)
  | ok id =>
    by_cases hid : id = 0
    · have hd := daoAddClient_ok hrow
      rw [hid] at hd
      exact hundone g.sql.table hd fun hone => absurd hid (hsql.inserted hone id hrow).1
    · obtain ⟨c₁, e', hm, hadds⟩ := h.add_accepted nickname host port hg hrow hid
      obtain ⟨rfl, rfl⟩ := Prod.mk.inj (Option.some.inj (e.symm.trans e'))
      exact ⟨_, _, hm, .added hg hsql hrow hadds⟩

/-- Every call keeps the cache in order. -/
theorem Managed.step {call : AnyCall} (h : Managed c xs ys) (hs : AnyStep c call c') :
    ∃ xs' ys', Managed c' xs' ys' ∧ Effect c c' xs ys call xs' ys' := by
  cases hs with
  | removeBy q stale e =>
    cases hel : c.elements stale with
    | none => simp [h.removeBy_dead hel q] at e
    | some el =>
      obtain ⟨a, y, b, rfl, rfl⟩ := h.element hel
      obtain ⟨c₁, xs₁, e₁, h₁, hremoves, -⟩ := h.removeBy hel q
      obtain rfl := Option.some.inj (e₁.symm.trans e)
      exact ⟨xs₁, a ++ b, h₁, .removed rfl rfl hel hremoves⟩
  | call hs =>
    cases hs with
    | remove hlive e =>
      obtain ⟨a, y, b, el, rfl, rfl, hel⟩ := h.live hlive
      obtain ⟨c₁, xs₁, e₁, h₁, hremoves⟩ := h.remove hel
      obtain rfl := Option.some.inj (e₁.symm.trans e)
      exact ⟨xs₁, a ++ b, h₁, .removed rfl rfl hel hremoves⟩
    | @add _ nickname host port dce g hg hsql e =>
      match nickname, host, port with
      | some nickname, some host, some port => exact h.add_step hg (hsql _ rfl) e
      | none, _, _ | some _, none, _ | some _, some _, none =>
        unfold daoCacheAddClient at e
        rw [if_neg (by simp [h.initialized]), Option.some.injEq, Prod.mk.injEq] at e
        obtain ⟨rfl, rfl⟩ := e
        exact ⟨xs, ys, h, .kept rfl (fun _ _ _ => rfl) fun _ => rfl⟩

end step

/-! ## Runs -/

/-- The cache that `dao_cache_init` makes of an empty table. -/
def emptyCache (daoList dceList byId byNickname byAddr : UInt64) : DaoCache where
  initialized := true
  mtx := false
  dao := { rows := [] }
  mem := (listInit (listInit start 288 daoList).1 56 dceList).1
  daoList := daoList
  dceList := dceList
  clients := fun _ => none
  elements := fun _ => none
  hmById := hashMapInit byId fun _ => 0
  hmByNickname := hashMapInit byNickname pearsonHash
  hmByAddr := hashMapInit byAddr pearsonHash

theorem emptyCache_cached {daoList dceList : UInt64} (byId byNickname byAddr : UInt64) (h₁ : daoList ≠ 0)
    (h₂ : dceList ≠ 0) (hne : daoList ≠ dceList) :
    Cached (emptyCache daoList dceList byId byNickname byAddr) [] [] := by
  obtain ⟨m₁, e₁, hm₁, _⟩ := listInit_spec start 288 h₁
  obtain ⟨m₂, e₂, hm₂, hothers, _⟩ := listInit_spec m₁ 56 h₂
  have hmem : (emptyCache daoList dceList byId byNickname byAddr).mem = m₂ := by
    rw [emptyCache, e₁, e₂]
  refine ⟨rfl, rfl, hne, ?_, ?_, rfl, [], Contents.init ..⟩
  · rw [hmem]
    exact hothers _ _ hne hm₁
  · rw [hmem]
    exact hm₂

theorem emptyCache_managed {daoList dceList : UInt64} (byId byNickname byAddr : UInt64) (h₁ : daoList ≠ 0)
    (h₂ : dceList ≠ 0) (hne : daoList ≠ dceList) :
    Managed (emptyCache daoList dceList byId byNickname byAddr) [] [] where
  toCached := emptyCache_cached byId byNickname byAddr h₁ h₂ hne
  byNickname := ⟨[], Contents.init ..⟩
  byAddr := ⟨[], Contents.init ..⟩
  elementsLive := fun d hd => by cases hd

/-- Whatever is called, the cache stays in order. -/
theorem managed_of_run {c₀ c : DaoCache} {h : List (DaoCache × AnyCall)} (h₀ : ∃ xs ys, Managed c₀ xs ys)
    (r : Run AnyStep c₀ h c) : ∃ xs ys, Managed c xs ys := by
  refine r.invariant (I := fun c => ∃ xs ys, Managed c xs ys) h₀ ?_
  intro c call c' hm hs
  obtain ⟨xs, ys, hm⟩ := hm
  obtain ⟨xs', ys', hm', -⟩ := hm.step hs
  exact ⟨xs', ys', hm'⟩

/-! The runs on fixed strings add clients "a" and "b", both at host "h" and port "1". -/

def textA : CString := ⟨[0x61], by decide⟩
def textB : CString := ⟨[0x62], by decide⟩
def textH : CString := ⟨[0x68], by decide⟩
def text1 : CString := ⟨[0x31], by decide⟩

/-- Blocks from `b` on. -/
def given (b : UInt64) (sql : Executed) : Given where
  client := ⟨b, 0, 0, 0⟩
  element := ⟨b + 512, 0, 0, 0⟩
  nodeById := b
  nodeByNickname := b
  nodeByAddr := b
  sql := sql

/-- The client goes in under `id`. -/
def inserts (d : DaoTable) (cl : DaoClient) (id : ℤ) : Executed := ⟨{ rows := d.rows ++ [{ cl with id }] }, .ok id⟩

theorem inserts_answers {d : DaoTable} (cl : DaoClient) {id : ℤ} (hid : id ≠ 0) (hfresh : ∀ r ∈ d.rows, r.id ≠ id)
    (request : List UInt8) : Answers d request (inserts d cl id) where
  refused := by
    intro _ errMsg hrow
    cases hrow
  inserted := by
    intro _ id' hrow
    cases hrow
    exact ⟨hid, hfresh, _, rfl, rfl⟩

abbrev noClients : DaoCache := emptyCache 8 16 24 32 40

theorem noClients_managed : Managed noClients [] [] := emptyCache_managed 24 32 40 (by decide) (by decide) (by decide)

theorem allocated_first (sql : Executed) : Allocated noClients (given 1024 sql) where
  client := ⟨(by decide : (1024 : UInt64) ≠ 0), (by decide : payload 1024 ≠ 0), rfl⟩
  element := ⟨(by decide : (1536 : UInt64) ≠ 0), (by decide : payload 1536 ≠ 0), rfl⟩
  distinct := (by decide : (1536 : UInt64) ≠ 1024)
  nodeById := ⟨(by decide : (1024 : UInt64) ≠ 0), rfl⟩
  nodeByNickname := ⟨(by decide : (1024 : UInt64) ≠ 0), rfl⟩
  nodeByAddr := ⟨(by decide : (1024 : UInt64) ≠ 0), rfl⟩

/-- What the first call of a run is given. -/
abbrev givenFirst (nickname host port : CString) : Given :=
  given 1024 (inserts noClients.dao (copiedClient nickname host port) 1)

theorem first_added (nickname host port : CString) : ∃ c,
    daoCacheAddClient noClients (some nickname) (some host) (some port) (givenFirst nickname host port) =
      some (c, payload 1536) ∧
    Step noClients (.add (some nickname) (some host) (some port) (payload 1536)) c ∧ Managed c [1024] [1536] ∧
    Adds noClients c (givenFirst nickname host port) (added nickname host port (givenFirst nickname host port) 1) := by
  have hg : Allocated noClients (givenFirst nickname host port) := allocated_first _
  obtain ⟨c, e, hm, hadds⟩ := noClients_managed.add_accepted nickname host port hg rfl one_ne_zero
  have hnone : ∀ r ∈ noClients.dao.rows, r.id ≠ 1 := by
    intro r hr
    cases hr
  exact ⟨c, e, .add hg (fun request _ => inserts_answers _ one_ne_zero hnone request) e, hm, hadds⟩

theorem Managed.remove_step {c : DaoCache} {xs a b : List UInt64} {y : UInt64} {el : DcEl}
    (h : Managed c xs (a ++ y :: b))
    (hel : c.elements (payload y) = some el) : ∃ c' xs', Step c (.remove (payload y)) c' ∧ Managed c' xs' (a ++ b) ∧
      Removes c c' (payload y) el el.hash := by
  obtain ⟨c', xs', e, hm, hremoves⟩ := h.remove hel
  exact ⟨c', xs', .remove ⟨_, y, h.dceList, by simp, rfl⟩ e, hm, hremoves⟩

theorem allocated_second {c : DaoCache} {p : UInt64} (sql : Executed)
    (h : daoCacheAddClient noClients (some textA) (some textH) (some text1) (givenFirst textA textH text1) =
      some (c, p)) :
    Allocated c (given 4096 sql) := by
  change some (_, _) = _ at h
  obtain ⟨rfl, -⟩ := Prod.mk.inj (Option.some.inj h)
  exact ⟨⟨(by decide : (4096 : UInt64) ≠ 0), (by decide : payload 4096 ≠ 0), rfl⟩,
    ⟨(by decide : (4608 : UInt64) ≠ 0), (by decide : payload 4608 ≠ 0), rfl⟩, (by decide : (4608 : UInt64) ≠ 4096),
    ⟨(by decide : (4096 : UInt64) ≠ 0), rfl⟩, ⟨(by decide : (4096 : UInt64) ≠ 0), rfl⟩,
    ⟨(by decide : (4096 : UInt64) ≠ 0), rfl⟩⟩

/-- The table with client "a" in it. -/
def tableA : DaoTable := { rows := [{ copiedClient textA textH text1 with id := 1 }] }

/-- What the second call is given. -/
abbrev givenSecond (nickname host port : CString) : Given :=
  given 4096 (inserts tableA (copiedClient nickname host port) 2)

theorem both_added : ∃ c₁ c₂,
    daoCacheAddClient noClients (some textA) (some textH) (some text1) (givenFirst textA textH text1) =
      some (c₁, payload 1536) ∧
    Step noClients (.add (some textA) (some textH) (some text1) (payload 1536)) c₁ ∧
    daoCacheAddClient c₁ (some textB) (some textH) (some text1) (givenSecond textB textH text1) =
      some (c₂, payload 4608) ∧
    Step c₁ (.add (some textB) (some textH) (some text1) (payload 4608)) c₂ ∧ Managed c₂ [1024, 4096] [1536, 4608] ∧
    c₂.elements (payload 1536) = some (added textA textH text1 (givenFirst textA textH text1) 1) ∧
    c₂.elements (payload 4608) = some (added textB textH text1 (givenSecond textB textH text1) 2) := by
  obtain ⟨c₁, e₁, s₁, hm₁, hadds₁⟩ := first_added textA textH text1
  have hg₂ : Allocated c₁ (givenSecond textB textH text1) := allocated_second _ e₁
  obtain ⟨c₂, e₂, hm₂, hadds₂⟩ := hm₁.add_accepted textB textH text1 hg₂ rfl two_ne_zero
  have hanswers (request : List UInt8) : Answers c₁.dao request (givenSecond textB textH text1).sql := by
    rw [hadds₁.dao]
    refine inserts_answers _ two_ne_zero ?_ request
    intro r hr
    obtain rfl := List.mem_singleton.mp hr
    decide
  have hne : payload 1536 ≠ payload 4608 := by decide
  refine ⟨c₁, c₂, e₁, s₁, e₂, .add hg₂ (fun request _ => hanswers request) e₂, hm₂, ?_, ?_⟩
  · rw [hadds₂.elements, hadds₁.elements]
    exact (Function.update_of_ne hne ..).trans (Function.update_self ..)
  · rw [hadds₂.elements]
    exact Function.update_self ..

end Chats.Dao
