import Chats.Common.HashMap
import Chats.Common.LinkedList

/-! # The client directory

`chats/p2p/server/dao/dao-cache.c`: the rows of the clients table in two linked lists, one of the
clients and one of the cache's own elements, and three hash maps that index the elements by id,
by nickname and by address. SQLite is seen through what it makes of the texts that it gets. -/
namespace Chats.Dao
set_option autoImplicit false

open Lib Hash LinkedList

/-- The text of a C string, without its terminator. -/
abbrev CString := { s : List UInt8 // 0 ∉ s }

/-- `memset` of an array of `size` chars and `strncpy` into all but the last of them. -/
def CString.copied (s : CString) (size : ℕ) : CString :=
  ⟨s.1.take (size - 1), fun h => s.2 (List.mem_of_mem_take h)⟩

structure DaoClient where
  id : ℤ
  nickname : CString
  host : CString
  port : CString

/-- The client that `dao_cache_add_client` fills in; `id` has no value yet and `dao_add_client` does not
read it. -/
def copiedClient (nickname host port : CString) : DaoClient :=
  { id := 0, nickname := nickname.copied 16, host := host.copied 256, port := port.copied 6 }

/-! ## The database -/

structure DaoTable where
  rows : List DaoClient

/-- What `sqlite3_exec` makes of a text: the table afterwards, and `err_msg` or the last rowid. -/
structure Executed where
  table : DaoTable
  row : Except UInt64 ℤ

/-- `dao_add_client`, with what becomes of its text. An `err_msg` is a block of `sqlite3_malloc`, and
`free`, which is for blocks of `malloc`, aborts on it; it is `NULL` where there was no memory for it. -/
def daoAddClient (sql : Executed) : Option (DaoTable × ℤ) :=
  match sql.row with
  | .error errMsg => if errMsg = 0 then some (sql.table, 0) else none
  | .ok id => some (sql.table, id)

theorem daoAddClient_ok {sql : Executed} {id : ℤ} (hrow : sql.row = .ok id) :
    daoAddClient sql = some (sql.table, id) := by
  rw [daoAddClient, hrow]

theorem daoAddClient_error {sql : Executed} {errMsg : UInt64} (hrow : sql.row = .error errMsg) :
    daoAddClient sql = if errMsg = 0 then some (sql.table, 0) else none := by
  rw [daoAddClient, hrow]

def daoRemoveClientById (d : DaoTable) (id : ℤ) : DaoTable := { rows := d.rows.filter fun r => r.id ≠ id }

/-! ## The cache -/

structure DcEl where
  id : ℤ
  hashNickname : ℤ
  hashAddr : ℤ
  nodeById : UInt64
  nodeByNickname : UInt64
  nodeByAddr : UInt64
  client : UInt64

/-- `DAO_CACHE`, with the data behind the elements of its lists. -/
structure DaoCache where
  initialized : Bool
  mtx : Bool
  dao : DaoTable
  mem : Memory
  daoList : UInt64
  dceList : UInt64
  clients : Store UInt64 DaoClient
  elements : Store UInt64 DcEl
  hmById : HashMap
  hmByNickname : HashMap
  hmByAddr : HashMap

/-- The keys that the elements are indexed by. -/
inductive Index
  | id | nickname | addr
deriving DecidableEq

def DaoCache.hm (c : DaoCache) : Index → HashMap
  | .id => c.hmById
  | .nickname => c.hmByNickname
  | .addr => c.hmByAddr

def DcEl.hash (el : DcEl) : Index → ℤ
  | .id => el.id
  | .nickname => el.hashNickname
  | .addr => el.hashAddr

/-- `node_by_id`, `node_by_nickname` and `node_by_addr` -/
def DcEl.node (el : DcEl) : Index → UInt64
  | .id => el.nodeById
  | .nickname => el.nodeByNickname
  | .addr => el.nodeByAddr

/-- `pthread_mutex_lock`: on a locked mutex it does not return. -/
def DaoCache.lock (c : DaoCache) : Option DaoCache := if c.mtx then none else some { c with mtx := true }

/-- What the environment gives to a call of `dao_cache_add_client`. -/
structure Given where
  client : Block
  element : Block
  nodeById : UInt64
  nodeByNickname : UInt64
  nodeByAddr : UInt64
  sql : Executed

/-- The hash of an address is built from the host, ":" and the port. -/
def addrHash (host port : CString) : ℤ :=
  pearsonHashUpdate (pearsonHashUpdate (pearsonHash host.1) [0x3a]) port.1

/-- The part of `dao_cache_add_client` after the `INSERT` has succeeded. -/
def addElement (c : DaoCache) (mem : Memory) (cl : UInt64) (client : DaoClient) (g : Given) :
    Option (DaoCache × UInt64) := do
  let (mem, dcEl) ← listAppend mem c.dceList g.element
  if dcEl = 0 then none
  else do
    let (hmById, nodeById) ← hashMapInsertByHash c.hmById client.id dcEl g.nodeById
    let hashNickname := pearsonHash client.nickname.1
    let (hmByNickname, nodeByNickname) ← hashMapInsertByHash c.hmByNickname hashNickname dcEl g.nodeByNickname
    let hashAddr := addrHash client.host client.port
    let (hmByAddr, nodeByAddr) ← hashMapInsertByHash c.hmByAddr hashAddr dcEl g.nodeByAddr
    let el : DcEl :=
      { id := client.id, hashNickname, hashAddr, nodeById, nodeByNickname, nodeByAddr, client := cl }
    some ({ c with
      mem, hmById, hmByNickname, hmByAddr, mtx := false
      clients := Function.update c.clients cl (some client)
      elements := Function.update c.elements dcEl (some el) }, dcEl)

def daoCacheAddClient (c : DaoCache) (nickname host port : Option CString) (g : Given) : Option (DaoCache × UInt64) :=
  if c.initialized = false then none
  else match nickname, host, port with
  | some nickname, some host, some port => do
    let c ← c.lock
    let (mem, cl) ← listAppend c.mem c.daoList g.client
    if cl = 0 then none
    else do
      let client := copiedClient nickname host port
      let (dao, id) ← daoAddClient g.sql
      if id = 0 then do
        let mem ← listRemoveElement mem c.daoList cl
        some ({ c with mem, dao, mtx := false }, 0)
      else addElement { c with dao } mem cl { client with id } g
  | _, _, _ => some (c, 0)

def daoCacheRemoveClient (c : DaoCache) (dce : UInt64) : Option DaoCache :=
  if c.initialized = false then none
  else if dce = 0 then some c
  else do
    let c ← c.lock
    let el ← c.elements dce
    let dao := daoRemoveClientById c.dao el.id
    let (hmById, _) ← hashMapRemoveByHash c.hmById el.id
    let (hmByNickname, _) ← hashMapRemoveByHash c.hmByNickname el.hashNickname
    let (hmByAddr, _) ← hashMapRemoveByHash c.hmByAddr el.hashAddr
    let mem ← listRemoveElement c.mem c.daoList el.client
    let mem ← listRemoveElement mem c.dceList dce
    some { c with
      dao, mem, hmById, hmByNickname, hmByAddr, mtx := false
      clients := Function.update c.clients el.client none
      elements := Function.update c.elements dce none }

/-! ## Removal by id, by nickname and by address

These three take the element to remove from what `hash_map_remove_by_hash` returns, and that is a local of
`avl_tree_remove` to which nothing is ever assigned. Its value is a parameter: whatever the stack holds. -/

def DaoCache.withHm (c : DaoCache) (i : Index) (hm : HashMap) : DaoCache :=
  match i with
  | .id => { c with hmById := hm }
  | .nickname => { c with hmByNickname := hm }
  | .addr => { c with hmByAddr := hm }

def DaoCache.removeByHash (c : DaoCache) (i : Index) (hash : ℤ) : Option (DaoCache × Option UInt64) :=
  (hashMapRemoveByHash (c.hm i) hash).map fun r => (c.withHm i r.1, r.2)

/-- A removal that starts from the map `i`, the other two being `j` and `k`; `stale` is what the
stack holds in place of the data of the removed node. -/
def removeByTpl (i j k : Index) (c : DaoCache) (hash : ℤ) (stale : UInt64) : Option DaoCache := do
  let c ← c.lock
  let (c, data) ← c.removeByHash i hash
  let dce := data.getD stale
  -- `dce->id` is read whatever `dce` is
  let el ← c.elements dce
  let dao := daoRemoveClientById c.dao el.id
  let (c, _) ← c.removeByHash j (el.hash j)
  let (c, _) ← c.removeByHash k (el.hash k)
  let mem ← listRemoveElement c.mem c.daoList el.client
  let mem ← listRemoveElement mem c.dceList dce
  some { c with
    dao, mem, mtx := false
    clients := Function.update c.clients el.client none
    elements := Function.update c.elements dce none }

def daoCacheRemoveCientById (c : DaoCache) (id : ℤ) (stale : UInt64) : Option DaoCache :=
  if c.initialized = false then none else removeByTpl .id .nickname .addr c id stale

def daoCacheRemoveClientByNickname (c : DaoCache) (nickname : Option CString) (stale : UInt64) : Option DaoCache :=
  if c.initialized = false then none
  else match nickname with
  | none => some c
  | some nickname => removeByTpl .nickname .id .addr c (pearsonHash nickname.1) stale

def daoCacheRemoveClientByAddr (c : DaoCache) (host port : Option CString) (stale : UInt64) : Option DaoCache :=
  if c.initialized = false then none
  else match host, port with
  | some host, some port => removeByTpl .addr .id .nickname c (addrHash host port) stale
  | _, _ => some c

/-! ## Lookups -/

/-- `node ? node->data : NULL` -/
def nodeData (hm : HashMap) (node : UInt64) : Option UInt64 := if node = 0 then some 0 else dataAt hm node

/-- A lookup in the map `hm`; the lock is taken and released. -/
def lookupTpl (hm : DaoCache → HashMap) (c : DaoCache) (hash : ℤ) : Option UInt64 :=
  if c.initialized = false then none
  else do
    let c ← c.lock
    let node ← hashMapGetByHash (hm c) hash
    nodeData (hm c) node

def daoCacheGetClientById (c : DaoCache) (id : ℤ) : Option UInt64 := lookupTpl DaoCache.hmById c id

def daoCacheGetClientByNickname (c : DaoCache) (nickname : CString) : Option UInt64 :=
  lookupTpl DaoCache.hmByNickname c (pearsonHash nickname.1)

def daoCacheGetClientByAddr (c : DaoCache) (host port : CString) : Option UInt64 :=
  lookupTpl DaoCache.hmByAddr c (addrHash host port)

end Chats.Dao
