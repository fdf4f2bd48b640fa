import Chats.P2p.Server.DaoCacheRuns

/-! # The stored clients

`dao_list_clients` of `chats/p2p/server/dao/dao.c` and `dao_cache_init` of `dao-cache.c`, which
fills the cache from the clients table. SQLite is seen through the answers of `sqlite3_step`. -/
namespace Chats.Dao
set_option autoImplicit false

open Lib Hash LinkedList

def sqliteOk : ℤ := 0
def sqliteRow : ℤ := 100
def sqliteDone : ℤ := 101

/-- `struct dao`, the handle with the table that is behind it. -/
structure DaoT where
  mtx : Bool
  db : Option DaoTable

/-- `dao_init`. It never stores the handle in `dao->db`, where the other functions expect it; it is
taken to be there. -/
def daoInit (allocated : Bool) (opened : Option DaoTable) : Option DaoT :=
  if allocated = false then none
  else
    match opened with
    | none => none
    | some table => some { mtx := false, db := some table }

/-- What `sqlite3_step` answers, with the row that the columns are read from. -/
def answers (rows : List DaoClient) : List (ℤ × Option DaoClient) :=
  rows.map (fun row => (sqliteRow, some row)) ++ [(sqliteDone, none)]

def sizeofDaoClient : UInt64 := 288
def sizeofDcEl : UInt64 := 56

/-- The strings of a row, copied into the arrays of a `dao_client_t`. -/
def fetched (row : DaoClient) : DaoClient :=
  { id := row.id, nickname := row.nickname.copied 16, host := row.host.copied 256, port := row.port.copied 6 }

/-- The loop of `dao_list_clients`, with the last `rc`; `bs` are the blocks for the entries. -/
def listLoop (l : UInt64) : List (ℤ × Option DaoClient) → List Block → Memory → Store UInt64 DaoClient →
    Option (ℤ × Memory × Store UInt64 DaoClient)
  | [], _, _, _ => none
  | (rc, row) :: rest, bs, m, clients =>
    if rc = sqliteDone then some (rc, m, clients)
    else if rc ≠ sqliteOk then some (rc, m, clients)
    else
      match bs, row with
      | b :: bs, some row => do
        let (m, dc) ← listAppend m l b
        if dc = 0 then none
        else listLoop l rest bs m (Function.update clients dc (some (fetched row)))
      | _, _ => none

/-- `dao_list_clients`: the list or NULL. `rc` is what `sqlite3_prepare_v2` answers, `l` and `bs` are
the blocks for the list and its entries. -/
def daoListClients (dao : Option DaoT) (m : Memory) (clients : Store UInt64 DaoClient) (rc : ℤ) (l : UInt64)
    (bs : List Block) : Option (Memory × Store UInt64 DaoClient × UInt64) :=
  match dao with
  | none => some (m, clients, 0)
  | some dao =>
    if dao.mtx then none
    else
      match dao.db with
      | none => some (m, clients, 0)
      | some table =>
        if rc ≠ sqliteOk then some (m, clients, 0)
        else do
          let (m, list) := listInit m sizeofDaoClient l
          let (rc, m, clients) ← listLoop list (answers table.rows) bs m clients
          if ¬ (rc = sqliteDone ∨ rc = sqliteOk) then do
            let m ← listDeinit m list
            some (m, clients, 0)
          else some (m, clients, list)

/-! ## Filling the cache -/

/-- What the environment gives to a call of `dao_cache_init`. -/
structure InitGiven where
  allocated : Bool
  list : UInt64
  entries : List Block
  dceList : UInt64
  byId : UInt64
  byNickname : UInt64
  byAddr : UInt64
  elements : List Given

/-- The loop of `dao_cache_init` over the list of clients, from its entry `cl` on. -/
def restoreLoop : List Given → DaoCache → UInt64 → Option DaoCache
  | [], c, cl => if cl = 0 then some c else none
  | g :: gs, c, cl =>
    if cl = 0 then some c
    else do
      let client ← c.clients cl
      let (c, _) ← addElement c c.mem cl client g
      let next ← listNextElement c.mem cl
      restoreLoop gs c next

/-- `dao_cache_init`; `disk` are the databases that can be opened. -/
def daoCacheInit (c : DaoCache) (disk : CString → Option DaoTable) (dbPath : Option CString) (g : InitGiven) :
    Option (DaoCache × Bool) :=
  match dbPath with
  | none => some (c, false)
  | some dbPath =>
    match daoInit g.allocated (disk dbPath) with
    | none => some (c, false)
    | some dao => do
      let (mem, clients, daoList) ← daoListClients (some dao) c.mem c.clients sqliteOk g.list g.entries
      if daoList = 0 then some ({ c with mem, clients }, false)
      else
        let (mem, dceList) := listInit mem sizeofDcEl g.dceList
        if dceList = 0 then some ({ c with mem, clients }, false)
        else do
          let c : DaoCache := { c with
            mtx := false, dao := dao.db.getD { rows := [] }, mem, daoList, dceList, clients
            hmById := hashMapInit g.byId fun _ => 0
            hmByNickname := hashMapInit g.byNickname pearsonHash
            hmByAddr := hashMapInit g.byAddr pearsonHash }
          let cl ← listFirstElement c.mem daoList
          let c ← restoreLoop g.elements c cl
          some ({ c with initialized := true }, true)

/-! ## What the calls are for -/

/-- The list `l` has one entry for each row, in the order of the rows. -/
def ListsRows (rows : List DaoClient) (m : Memory) (clients : Store UInt64 DaoClient) (l : UInt64) : Prop :=
  ∃ xs, WellFormed m l xs ∧ xs.map (fun x => clients (payload x)) = rows.map fun row => some (fetched row)

/-- The cache is in order, and its elements are those of the rows. -/
def Restores (rows : List DaoClient) (c : DaoCache) : Prop :=
  ListsRows rows c.mem c.clients c.daoList ∧
    ∃ xs ys, Cached c xs ys ∧ Indexed c ys ∧
      ys.map (fun y => (c.elements (payload y)).map DcEl.id) = rows.map fun row => some row.id

/-! ## What they do -/

/-- The first row ends the loop: its code is neither of the two that the loop knows. -/
theorem listLoop_row (l : UInt64) (row : Option DaoClient) (rest : List (ℤ × Option DaoClient)) (bs : List Block)
    (m : Memory) (clients : Store UInt64 DaoClient) :
    listLoop l ((sqliteRow, row) :: rest) bs m clients = some (sqliteRow, m, clients) := rfl

theorem listDeinit_empty {m : Memory} {l : UInt64} (h : WellFormed m l []) :
    listDeinit m l = some { m with lists := Function.update m.lists l none } := by
  obtain ⟨hd, hl, hfirst, _⟩ := h.head
  have h0 : hd.first = 0 := hfirst.start_eq
  rw [listDeinit, if_neg h.nonNull, hl]
  simp only [Option.bind_eq_bind, Option.bind_some, h0]
  rfl

section
variable (m : Memory) (clients : Store UInt64 DaoClient) {l : UInt64} (hl : l ≠ 0) (bs : List Block)

include hl in
theorem daoListClients_row (row : DaoClient) (rows : List DaoClient) :
    ∃ m', daoListClients (some { mtx := false, db := some { rows := row :: rows } }) m clients sqliteOk l bs =
      some (m', clients, 0) := by
  obtain ⟨m₁, e₁, h₁, _⟩ := listInit_spec m sizeofDaoClient hl
  refine ⟨{ m₁ with lists := Function.update m₁.lists l none }, ?_⟩
  simp only [daoListClients, e₁, answers, List.map_cons, List.cons_append, listLoop_row, Option.bind_eq_bind,
    Option.bind_some, listDeinit_empty h₁]
  rfl

theorem daoListClients_nil :
    daoListClients (some { mtx := false, db := some { rows := [] } }) m clients sqliteOk l bs =
      some ((listInit m sizeofDaoClient l).1, clients, (listInit m sizeofDaoClient l).2) := rfl

end

section
variable (c : DaoCache) (disk : CString → Option DaoTable) (dbPath : CString) {g : InitGiven}
  (hallocated : g.allocated = true) (hlist : g.list ≠ 0)

include hallocated hlist in
theorem daoCacheInit_row {row : DaoClient} {rows : List DaoClient}
    (hopen : disk dbPath = some { rows := row :: rows }) :
    ∃ c', daoCacheInit c disk (some dbPath) g = some (c', false) := by
  obtain ⟨m', e⟩ := daoListClients_row c.mem c.clients hlist g.entries row rows
  refine ⟨{ c with mem := m' }, ?_⟩
  simp only [daoCacheInit, daoInit, hallocated, hopen, Bool.true_eq_false, if_false, e, Option.bind_eq_bind,
    Option.bind_some]
  rfl

/-- The cache that is made of an empty table, in the memory that there is. -/
def madeEmpty (c : DaoCache) (g : InitGiven) : DaoCache :=
  { emptyCache g.list g.dceList g.byId g.byNickname g.byAddr with
    mem := (listInit (listInit c.mem sizeofDaoClient g.list).1 sizeofDcEl g.dceList).1
    clients := c.clients
    elements := c.elements }

include hallocated hlist in
theorem daoCacheInit_nil (hopen : disk dbPath = some { rows := [] }) (hdce : g.dceList ≠ 0) (hne : g.list ≠ g.dceList) :
    daoCacheInit c disk (some dbPath) g = some (madeEmpty c g, true) ∧ Restores [] (madeEmpty c g) := by
  obtain ⟨m₁, e₁, h₁, _⟩ := listInit_spec c.mem sizeofDaoClient hlist
  obtain ⟨m₂, e₂, h₂, hothers, _⟩ := listInit_spec m₁ sizeofDcEl hdce
  have hmem : (madeEmpty c g).mem = m₂ := by rw [madeEmpty, e₁, e₂]
  have hdao : WellFormed (madeEmpty c g).mem g.list [] := hmem ▸ hothers _ _ hne h₁
  have hfirst : listFirstElement m₂ g.list = some 0 := by
    obtain ⟨hd, hl, hfollows, _⟩ := hdao.head
    rw [hmem] at hl
    rw [listFirstElement, hl, Option.map_some, hfollows.start_eq]
    rfl
  have hloop : ∀ gs c, restoreLoop gs c 0 = some c := by
    intro gs c
    cases gs <;> rfl
  refine ⟨?_, ⟨[], hdao, rfl⟩, [], [], ?_, ?_, rfl⟩
  · simp only [daoCacheInit, daoInit, hallocated, hopen, Bool.true_eq_false, if_false, daoListClients_nil, e₁, e₂,
      Option.bind_eq_bind, Option.bind_some, if_neg hlist, if_neg hdce, hfirst, hloop, madeEmpty]
    rfl
  · exact ⟨rfl, rfl, hne, hdao, hmem ▸ h₂, rfl, ⟨[], Contents.init ..⟩⟩
  · exact ⟨⟨[], Contents.init .., List.Perm.nil⟩, ⟨[], Contents.init .., List.Perm.nil⟩⟩

/-- In a memory without blocks it is the one that the runs of the directory start from. -/
theorem madeEmpty_eq (hmem : c.mem = start) (hclients : c.clients = fun _ => none)
    (helements : c.elements = fun _ => none) :
    madeEmpty c g = emptyCache g.list g.dceList g.byId g.byNickname g.byAddr := by
  rw [madeEmpty, hmem, hclients, helements]
  rfl

end

/-- The stored clients are listed, and the cache is made of them, only when there are none. -/
theorem clients_listed_iff (rows : List DaoClient) (m : Memory) (clients : Store UInt64 DaoClient) (l : UInt64)
    (hl : l ≠ 0) (bs : List Block) (c : DaoCache) (disk : CString → Option DaoTable) (dbPath : CString)
    (hopen : disk dbPath = some { rows }) (g : InitGiven) (hallocated : g.allocated = true) (hlist : g.list ≠ 0)
    (hdce : g.dceList ≠ 0) (hne : g.list ≠ g.dceList) :
    ((∃ m' clients' list,
        daoListClients (some { mtx := false, db := some { rows } }) m clients sqliteOk l bs =
          some (m', clients', list) ∧
        ListsRows rows m' clients' list) ↔ rows = []) ∧
      ((∃ c', daoCacheInit c disk (some dbPath) g = some (c', true) ∧ Restores rows c') ↔ rows = []) := by
  cases rows with
  | nil =>
    obtain ⟨m', e, h', _⟩ := listInit_spec m sizeofDaoClient hl
    refine ⟨iff_of_true ⟨m', clients, l, ?_, [], h', rfl⟩ rfl, iff_of_true ?_ rfl⟩
    · rw [daoListClients_nil, e]
    · exact ⟨_, daoCacheInit_nil c disk dbPath hallocated hlist hopen hdce hne⟩
  | cons row rows =>
    refine ⟨iff_of_false ?_ (List.cons_ne_nil _ _), iff_of_false ?_ (List.cons_ne_nil _ _)⟩
    · rintro ⟨m', clients', list, e, xs, hxs, _⟩
      obtain ⟨m'', e'⟩ := daoListClients_row m clients hl bs row rows
      rw [e', Option.some.injEq, Prod.mk.injEq, Prod.mk.injEq] at e
      exact hxs.nonNull e.2.2.symm
    · rintro ⟨c', e, _⟩
      obtain ⟨c'', e'⟩ := daoCacheInit_row c disk dbPath hallocated hlist hopen
      rw [e', Option.some.injEq, Prod.mk.injEq] at e
      exact absurd e.2 (by decide)

def rowOfA : DaoClient := { id := 1, nickname := textA, host := textH, port := text1 }

/-- `DAO_CACHE` before the first call. -/
def unopened : DaoCache := { emptyCache 0 0 24 32 40 with initialized := false, mem := start }

def givenLists : InitGiven := ⟨true, 8, [⟨1024, ⟨0, 0, 0⟩⟩], 16, 24, 32, 40, [given 2048 ⟨{ rows := [rowOfA] }, .ok 1⟩]⟩

theorem clients_listed_one :
    ¬ ∃ c, daoCacheInit unopened (fun _ => some { rows := [rowOfA] }) (some textA) givenLists = some (c, true) ∧
      Restores [rowOfA] c := by
  have h := clients_listed_iff [rowOfA] start (fun _ => none) 8 (by decide) [] unopened
    (fun _ => some { rows := [rowOfA] }) textA rfl givenLists rfl (by decide) (by decide) (by decide)
  exact fun hc => List.cons_ne_nil _ _ (h.2.mp hc)

/-- A table with one client: no list is returned, and no cache made. -/
theorem one_client_not_listed :
    (∃ m', daoListClients (some { mtx := false, db := some { rows := [rowOfA] } }) start (fun _ => none) sqliteOk 8
      givenLists.entries = some (m', fun _ => none, 0)) ∧
    ∃ c', daoCacheInit unopened (fun _ => some { rows := [rowOfA] }) (some textA) givenLists = some (c', false) := by
  have hopen : (fun _ : CString => some (DaoTable.mk [rowOfA])) textA = some { rows := rowOfA :: [] } := rfl
  exact ⟨daoListClients_row start _ (by decide) _ rowOfA [], daoCacheInit_row unopened _ textA rfl (by decide) hopen⟩

end Chats.Dao
