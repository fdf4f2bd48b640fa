import Chats.P2p.Server.DaoCacheRemovals
import Chats.P2p.Server.DaoList

/-! # Refused clients

`dao_cache_add_client` appends the client before it asks the database, and takes it out again when
the database refuses the row. In every cache that the calls can lead to nothing is left of it, if
`dao_add_client` comes back from the refusal. -/
namespace Chats.Dao
set_option autoImplicit false

open Lib Hash LinkedList

variable {c : DaoCache}

theorem daoListClients_null (rows : List DaoClient) (m : Memory) (clients : Store UInt64 DaoClient) (bs : List Block) :
    daoListClients (some { mtx := false, db := some { rows } }) m clients sqliteOk 0 bs = some (m, clients, 0) := by
  cases rows with
  | nil => rfl
  | cons row rows => rfl

/-- `dao_cache_init` succeeds with both lists allocated only. -/
theorem init_lists {c₀ : DaoCache} {disk : CString → Option DaoTable} {dbPath : CString} {g : InitGiven}
    {rows : List DaoClient} (hallocated : g.allocated = true) (hopen : disk dbPath = some { rows })
    (hinit : daoCacheInit c₀ disk (some dbPath) g = some (c, true)) : g.list ≠ 0 ∧ g.dceList ≠ 0 := by
  simp only [daoCacheInit, daoInit, hallocated, hopen, Bool.true_eq_false, if_false, Option.bind_eq_bind] at hinit
  constructor
  · intro hlist
    rw [hlist, daoListClients_null, Option.bind_some, if_pos rfl, Option.some.injEq, Prod.mk.injEq] at hinit
    exact absurd hinit.2 (by decide)
  · intro hdce
    cases hcl : daoListClients (some { mtx := false, db := some { rows } })
      c₀.mem c₀.clients sqliteOk g.list g.entries with
    | none =>
      rw [hcl] at hinit
      cases hinit
    | some r =>
      rw [hcl, Option.bind_some, hdce] at hinit
      simp [listInit] at hinit

/-- `dao_cache_init` succeeds on an empty table only, and the cache is in order then. -/
theorem init_managed {c₀ : DaoCache} {disk : CString → Option DaoTable} {dbPath : CString} {g : InitGiven}
    (hinit : daoCacheInit c₀ disk (some dbPath) g = some (c, true)) (hne : g.list ≠ g.dceList)
    (hnone : c₀.elements = fun _ => none) : Managed c [] [] := by
  have hallocated : g.allocated = true := by
    cases ha : g.allocated with
    | true => rfl
    | false => simp [daoCacheInit, daoInit, ha] at hinit
  cases hopen : disk dbPath with
  | none => simp [daoCacheInit, daoInit, hallocated, hopen] at hinit
  | some table =>
    obtain ⟨rows⟩ := table
    obtain ⟨hlist, hdce⟩ := init_lists hallocated hopen hinit
    cases rows with
    | nil =>
      obtain ⟨e, _, xs, ys, hc, hx, hmap⟩ := daoCacheInit_nil c₀ disk dbPath hallocated hlist hopen hdce hne
      rw [e, Option.some.injEq, Prod.mk.injEq] at hinit
      obtain ⟨rfl, -⟩ := hinit
      obtain rfl : ys = [] := by simpa using hmap
      obtain rfl : xs = [] := by simpa using hc.clients.symm
      refine ⟨hc, ⟨[], Contents.init ..⟩, ⟨[], Contents.init ..⟩, ?_⟩
      intro d hd
      have hd' : (c₀.elements d).isSome := hd
      rw [hnone] at hd'
      cases hd'
    | cons row rows =>
      obtain ⟨c', e⟩ := daoCacheInit_row c₀ disk dbPath hallocated hlist hopen
      rw [e, Option.some.injEq, Prod.mk.injEq] at hinit
      exact absurd hinit.2 (by decide)

/-- The call returns `NULL`, and all but the table is as it was: the two lists with their heads, the maps
and the mutex. -/
def Undone (c : DaoCache) (result : Option (DaoCache × UInt64)) : Prop := ∃ dao, result = some ({ c with dao }, 0)

/-- In every cache that a run of calls leads to, a refused client leaves everything as it was exactly where
the refusal comes without an `err_msg`. -/
theorem refused_client_undone_iff (c₀ c₁ : DaoCache) (disk : CString → Option DaoTable) (dbPath : CString)
    (g₀ : InitGiven) (hinit : daoCacheInit c₀ disk (some dbPath) g₀ = some (c₁, true)) (hne : g₀.list ≠ g₀.dceList)
    (hnone : c₀.elements = fun _ => none) (h : List (DaoCache × AnyCall)) (c : DaoCache) (r : Run AnyStep c₁ h c)
    (nickname host port : CString) (g : Given) (hclient : Fresh c.mem g.client)
    (hrefused : ∀ id, g.sql.row = .ok id → id = 0) :
    Undone c (daoCacheAddClient c (some nickname) (some host) (some port) g) ↔
      ∀ errMsg, g.sql.row = .error errMsg → errMsg = 0 := by
  obtain ⟨xs, ys, hm⟩ := managed_of_run ⟨[], [], init_managed hinit hne hnone⟩ r
  constructor
  · intro hundone errMsg hrow
    obtain ⟨dao, e⟩ := hundone
    by_contra h0
    have haborted := daoAddClient_error hrow
    rw [if_neg h0] at haborted
    cases e.symm.trans (hm.add_aborted nickname host port hclient haborted)
  · intro h0
    have hsql : daoAddClient g.sql = some (g.sql.table, 0) := by
      cases hrow : g.sql.row with
      | error errMsg => exact (daoAddClient_error hrow).trans (if_pos (h0 errMsg hrow))
      | ok id => rw [daoAddClient_ok hrow, hrefused id hrow]
    exact ⟨g.sql.table, hm.add_undone nickname host port hclient hsql⟩

/-- The table refuses the nickname of the client that it has. -/
def refusesA (errMsg : UInt64) : Executed := ⟨tableA, .error errMsg⟩

theorem refused_client_undone_second : ∃ c, Run AnyStep noClients
      [(noClients, .call (.add (some textA) (some textH) (some text1) (payload 1536)))] c ∧
    Undone c (daoCacheAddClient c (some textA) (some textH) (some text1) (given 4096 (refusesA 0))) := by
  obtain ⟨c, e, s, -, -⟩ := first_added textA textH text1
  have r : Run AnyStep noClients _ c := .next .start (.call s)
  have hinit : daoCacheInit unopened (fun _ => some { rows := [] }) (some textA) givenLists =
    some (noClients, true) := by
    obtain ⟨e, -⟩ :=
      daoCacheInit_nil unopened (fun _ => some { rows := [] }) textA (g := givenLists) rfl (by decide) rfl
      (by decide) (by decide)
    rwa [madeEmpty_eq unopened rfl rfl rfl] at e
  refine ⟨c, r, (refused_client_undone_iff unopened noClients _ textA givenLists hinit (by decide) rfl _ c r
    textA textH text1 _ (allocated_second _ e).client ?_).mpr ?_⟩
  · intro id hrow
    cases hrow
  · intro errMsg hrow
    exact (Except.error.inj hrow).symm

/-- With an `err_msg` from `sqlite3_malloc` the call for a second client "a" does not come back. -/
theorem refused_client_aborts : ∃ c, Run AnyStep noClients
      [(noClients, .call (.add (some textA) (some textH) (some text1) (payload 1536)))] c ∧
    daoCacheAddClient c (some textA) (some textH) (some text1) (given 4096 (refusesA 65536)) = none ∧
    ¬ Undone c (daoCacheAddClient c (some textA) (some textH) (some text1) (given 4096 (refusesA 65536))) := by
  obtain ⟨c, e, s, hm, -⟩ := first_added textA textH text1
  have hnone := hm.add_aborted textA textH text1 (g := given 4096 (refusesA 65536)) (allocated_second _ e).client rfl
  refine ⟨c, .next .start (.call s), hnone, fun hundone => ?_⟩
  obtain ⟨dao, e'⟩ := hundone
  cases hnone.symm.trans e'

end Chats.Dao
