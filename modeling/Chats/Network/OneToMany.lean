import Chats.Common.LinkedListRuns
import Chats.Network.Objects

/-! # The one-to-many server

The operations of `network/one-to-many/server.c`: a listening socket, and a linked list of the
connections that it has accepted. -/
namespace Chats.Network.OneToMany
open Chats.Lib Chats.IoService Chats.LinkedList
set_option autoImplicit false

variable {F : Type}

/-- `connection_t`; `host` is the address of its server. -/
structure Connection where
  host : UInt64
  epSkt : EndpointSocket
deriving DecidableEq

/-- `struct otm_server_tcp` at `addr`. The connections are the data of list elements: `connections`
is what the memory behind each header holds. -/
structure OtmServerTcp where
  addr : UInt64
  «local» : EndpointSocket
  remotesList : UInt64
  memory : Memory
  connections : UInt64 → Connection

/-- The connection at an address; `none` is memory that is not allocated. -/
def OtmServerTcp.connection (server : OtmServerTcp) (p : UInt64) : Option Connection :=
  (server.memory.elements (getListElement p)).map fun _ => server.connections p

abbrev Server (F : Type) := Object F OtmServerTcp

abbrev HeldServer (F : Type) := Held (Server F)

structure Accepted where
  connection : UInt64
  err : ℕ

abbrev ConnectionCallback (F : Type) := Callback (Server F) Accepted Bool

/-! ## Connections that come and go -/

def closeConnection (connection : UInt64) (o : Server F) : Option (Server F) :=
  (o.self.connection connection).map fun c => o.close c.epSkt.skt

def removeElement (connection : UInt64) (o : Server F) : Option (Server F) :=
  (listRemoveElement o.self.memory o.self.remotesList connection).map fun memory =>
    { o with self := { o.self with memory } }

def giveUp (connection : UInt64) (o : Server F) : Option (Server F) :=
  (closeConnection connection o).bind (removeElement connection)

/-- `tcp_acceptor` up to the callback: a new element and a new socket. -/
def enrol (b : Block) (afd : ℤ) (o : Server F) : Option (Server F × UInt64) :=
  (listAppend o.self.memory o.self.remotesList b).bind fun (memory, connection) =>
    if connection = 0 then none
    else
      let c : Connection := { host := o.self.addr, epSkt := { skt := afd, epType := .tcp } }
      (o.acquire afd).map fun o => ({ o with self := { o.self with
        memory, connections := Function.update o.self.connections connection c } }, connection)

def acceptorBegins (b : Block) (afd : ℤ) (s : HeldServer F) : Option (HeldServer F × UInt64) :=
  (enrol b afd s.lock.obj).map fun (o, connection) => ({ s.lock with obj := o }, connection)

/-- `tcp_acceptor` from the answer of the callback on. -/
def acceptorEnds (connection : UInt64) (keep : Bool) (s : HeldServer F) : Option (HeldServer F) :=
  (if keep then some s else s.change (giveUp connection)).map Held.unlock

/-- `cb` is what the acceptor holds. -/
def tcpAcceptor (b : Block) (afd : ℤ) (cb : Option (ConnectionCallback F)) (s : HeldServer F) : Option (HeldServer F) :=
  (acceptorBegins b afd s).bind fun (s, connection) =>
    cb.bind fun cb => (cb.run { connection, err := 0 } s).bind fun (s, keep) => acceptorEnds connection keep s

/-! ## Listening -/

/-- `acceptor` is what `allocate` returned. -/
def otmServerTcpListenSync (acceptor : UInt64) (b : Block) (afd : ℤ) (cb : Option (ConnectionCallback F))
    (s : HeldServer F) :
    Option (HeldServer F) :=
  let s := s.lock
  if acceptor = 0 then none else (tcpAcceptor b afd cb s).map Held.unlock

def otmServerTcpListenAsync (tcpAcceptor : F) (acceptor : UInt64) (s : HeldServer F) : Option (HeldServer F) :=
  let s := s.lock
  if acceptor = 0 then none
  else some (s.update fun o => o.post o.self.local.skt .read tcpAcceptor acceptor).unlock

/-! ## Disconnecting -/

/-- What the operations test before they lock: the connection is the server's. -/
def hosts (connection : UInt64) (s : HeldServer F) : Option (Option Connection) :=
  if connection = 0 then some none
  else (s.obj.self.connection connection).map fun c => if c.host = s.obj.self.addr then some c else none

def otmServerTcpDisconnect (connection : UInt64) (s : HeldServer F) : Option (HeldServer F) :=
  (hosts connection s).bind fun
    | none => some s
    | some _ => (s.lock.change (giveUp connection)).map Held.unlock

/-- The loop of `otm_server_tcp_deinit`: as many turns as there are addresses. -/
def closeAll (o : Server F) (connection : UInt64) : ℕ → Option (Server F)
  | 0 => none
  | n + 1 =>
    if connection = 0 then some o
    else
      (closeConnection connection o).bind fun o =>
        (listRemoveNext o.self.memory o.self.remotesList connection).bind fun (memory, next) =>
          closeAll { o with self := { o.self with memory } } next n

def otmServerTcpDeinit (s : HeldServer F) : Option (HeldServer F) :=
  let s := s.lock
  (s.change fun o => (listFirstElement o.self.memory o.self.remotesList).bind fun connection =>
    (closeAll o connection (2 ^ 64)).map fun o => o.close o.self.local.skt).map Held.unlock

/-! ## Endpoint and transfers -/

/-- `ep` is what the user gave, where 0 is a null pointer. -/
def otmServerTcpLocalEp (ep : UInt64) (s : HeldServer F) : HeldServer F × Option EndpointType :=
  if ep = 0 then (s, none)
  else
    let s := s.lock
    (s.unlock, some s.obj.self.local.epType)

section transfers
variable (connection : UInt64) (buffer : List UInt8) (ctx : UInt64)

/-- The tests, in their order: the connection is read only if there are bytes. -/
def request (op : SrbOperation) (s : HeldServer F) : Option (Option Srb) :=
  if buffer = [] then some none
  else (hosts connection s).map fun c => c.bind fun c => transferRequest op c.epSkt buffer

def otmServerTcpSendSync (m : Met) (cb : Option (TransferCallback F OtmServerTcp)) (s : HeldServer F) :
    Option (HeldServer F) :=
  transferTpl (request connection buffer .send s) (transferSync m cb ctx) s

def otmServerTcpSendAsync (tcpSendRecvAsyncTpl : F) (s : HeldServer F) : Option (HeldServer F) :=
  transferTpl (request connection buffer .send s) (transferAsync tcpSendRecvAsyncTpl ctx) s

def otmServerTcpRecvSync (m : Met) (cb : Option (TransferCallback F OtmServerTcp)) (s : HeldServer F) :
    Option (HeldServer F) :=
  (request connection buffer .recv s).bind fun
    | none => some s
    -- the mutex is locked once more where it should be unlocked
    | some srb => (transferSync m cb ctx srb s.lock).map Held.lock

def otmServerTcpRecvAsync (tcpSendRecvAsyncTpl : F) (s : HeldServer F) : Option (HeldServer F) :=
  transferTpl (request connection buffer .recv s) (transferAsync tcpSendRecvAsyncTpl ctx) s

end transfers

end Chats.Network.OneToMany
