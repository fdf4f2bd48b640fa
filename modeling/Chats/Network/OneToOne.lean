import Chats.Network.Objects

/-! # The one-to-one server

The operations of `network/one-to-one/server.c`: a listening socket and one connection, whose
socket stays in `remote` when the connection has gone. -/
namespace Chats.Network.OneToOne
open Chats.Lib Chats.IoService
set_option autoImplicit false

variable {F : Type}

/-- `connection_t`; whether `host` was set to the server. -/
structure Connection where
  host : Bool
  epSkt : EndpointSocket

structure OtoServerTcp where
  connected : Bool
  «local» : EndpointSocket
  remote : Connection

/-- `oto_server_tcp_init` that ends well, with its listening socket: `remote` is all zeros. -/
def otoServerTcpInit (sfd : ℤ) : OtoServerTcp where
  connected := false
  «local» := { skt := sfd, epType := .tcp }
  remote := { host := false, epSkt := { skt := 0, epType := .tcp } }

abbrev Server (F : Type) := Object F OtoServerTcp

abbrev HeldServer (F : Type) := Held (Server F)

abbrev ConnectionCallback (F : Type) := Callback (Server F) ℕ Bool

/-! ## Accepting -/

def takeIn (afd : ℤ) (o : Server F) : Option (Server F) :=
  (o.acquire afd).map fun o => { o with self := { o.self with
    connected := true, remote := { host := true, epSkt := { skt := afd, epType := .tcp } } } }

def turnAway (o : Server F) : Server F :=
  { o.close o.self.remote.epSkt.skt with self := { o.self with connected := false } }

/-- `oto_tcp_acceptor` up to the callback. -/
def acceptorBegins (afd : ℤ) (s : HeldServer F) : Option (HeldServer F) := s.lock.change (takeIn afd)

/-- `oto_tcp_acceptor` from the answer of the callback on. -/
def acceptorEnds (keep : Bool) (s : HeldServer F) : HeldServer F := (if keep then s else s.update turnAway).unlock

/-- `cb` is what the acceptor holds; it is told `errno`. -/
def otoTcpAcceptor (afd : ℤ) (cb : Option (ConnectionCallback F)) (s : HeldServer F) : Option (HeldServer F) :=
  (acceptorBegins afd s).bind fun s => cb.bind fun cb => (cb.run 0 s).map fun (s, keep) => acceptorEnds keep s

/-- `acceptor` is what `allocate` returned. -/
def otoServerTcpListenSync (acceptor : UInt64) (afd : ℤ) (cb : Option (ConnectionCallback F)) (s : HeldServer F) :
    Option (HeldServer F) :=
  let s := s.lock
  if s.obj.self.connected then some s.unlock
  else if acceptor = 0 then none
  else (otoTcpAcceptor afd cb s).map Held.unlock

def otoServerTcpListenAsync (otoTcpAcceptor : F) (acceptor : UInt64) (s : HeldServer F) : Option (HeldServer F) :=
  let s := s.lock
  if s.obj.self.connected then some s.unlock
  else if acceptor = 0 then none
  else some (s.update fun o => o.post o.self.local.skt .read otoTcpAcceptor acceptor).unlock

/-! ## Disconnecting -/

/-- Whatever `remote` holds is closed, and `connected` stays as it is. -/
def otoServerTcpDisconnect (s : HeldServer F) : HeldServer F :=
  (s.lock.update fun o => o.close o.self.remote.epSkt.skt).unlock

def otoServerTcpDeinit (s : HeldServer F) : HeldServer F :=
  let s := s.lock
  let s := if s.obj.self.connected then otoServerTcpDisconnect s else s
  (s.update fun o => o.close o.self.local.skt).unlock

/-! ## Endpoints and transfers -/

/-- `ep` is what the user gave, where 0 is a null pointer. -/
def otoServerTcpLocalEp (ep : UInt64) (s : HeldServer F) : HeldServer F × Option EndpointType :=
  if ep = 0 then (s, none)
  else
    let s := s.lock
    (s.unlock, some s.obj.self.local.epType)

/-- The pointer is not tested. -/
def otoServerTcpRemoteEp (ep : UInt64) (s : HeldServer F) : Option (HeldServer F × EndpointType) :=
  let s := s.lock
  if ep = 0 then none
  else some (s.unlock, if s.obj.self.connected then s.obj.self.remote.epSkt.epType else .none)

section transfers
variable (buffer : List UInt8) (ctx : UInt64)

def request (op : SrbOperation) (s : HeldServer F) : Option (Option Srb) :=
  some (transferRequest op s.obj.self.remote.epSkt buffer)

def otoServerTcpSendSync (m : Met) (cb : Option (TransferCallback F OtoServerTcp)) (s : HeldServer F) :
    Option (HeldServer F) :=
  transferTpl (request buffer .send s) (transferSync m cb ctx) s

def otoServerTcpSendAsync (tcpSendRecvAsyncTpl : F) (s : HeldServer F) : Option (HeldServer F) :=
  transferTpl (request buffer .send s) (transferAsync tcpSendRecvAsyncTpl ctx) s

def otoServerTcpRecvSync (m : Met) (cb : Option (TransferCallback F OtoServerTcp)) (s : HeldServer F) :
    Option (HeldServer F) :=
  transferTpl (request buffer .recv s) (transferSync m cb ctx) s

def otoServerTcpRecvAsync (tcpSendRecvAsyncTpl : F) (s : HeldServer F) : Option (HeldServer F) :=
  transferTpl (request buffer .recv s) (transferAsync tcpSendRecvAsyncTpl ctx) s

end transfers

end Chats.Network.OneToOne
