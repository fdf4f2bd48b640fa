import Chats.Common.AvlLinksWalk
import Chats.P2p.Server.DaoCacheHandles

/-! # From client to client

`dao_cache_next_client_by_id`, `_by_nickname` and `_by_addr` go on from the node that an element keeps, with
`avl_tree_next`. Where the elements keep their own nodes and no parent link names a wrong node, they come to
the client with the next hash, or to none. -/
namespace Chats.Dao
set_option autoImplicit false

open Lib Hash LinkedList Avl

/-- What the three have in common. -/
def nextClientTpl (i : Index) (c : DaoCache) (dce : UInt64) : Option UInt64 :=
  if c.initialized = false then none
  else if dce = 0 then some 0
  else do
    let c ← c.lock
    let el ← c.elements dce
    let nnode ← avlTreeNext (c.hm i).tree.nodes (el.node i)
    nodeData (c.hm i) nnode

def daoCacheNextClientById : DaoCache → UInt64 → Option UInt64 := nextClientTpl .id

def daoCacheNextClientByNickname : DaoCache → UInt64 → Option UInt64 := nextClientTpl .nickname

def daoCacheNextClientByAddr : DaoCache → UInt64 → Option UInt64 := nextClientTpl .addr

/-! ## One map -/

section keeps
variable {i : Index} {hm : HashMap} {elements : Store UInt64 DcEl} {els : List UInt64} {es : List Entry}

end keeps

end Chats.Dao
