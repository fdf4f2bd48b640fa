import Chats.Network.Objects

/-! # The TCP client

The operations of `network/client/client.c` on `client_tcp_t`: a socket of its own in `local`, and
in `remote` the peer with a copy of the socket's number. -/
namespace Chats.Network.Client
open Chats.Lib Chats.IoService
set_option autoImplicit false

variable {F : Type}

/-- `struct client_tcp`; of the addresses that the user gave, whether they are there. -/
structure ClientTcp where
  connected : Bool
  localAddr : Bool
  localPort : Bool
  «local» : EndpointSocket
  remote : EndpointSocket

/-- `client_tcp_init`, in a block that holds `old` -/
def clientTcpInit (addr port : Bool) (old : ClientTcp) : ClientTcp where
  connected := false
  localAddr := addr
  localPort := port
  «local» := { skt := -1, epType := .none }
  -- `remote.skt` is not assigned
  remote := { skt := old.remote.skt, epType := .none }

abbrev HeldClient (F : Type) := Held (Object F ClientTcp)

def eaddrnotavail : ℕ := 99
def eisconn : ℕ := 106
def einprogress : ℕ := 115

/-- What the callback of a connect is told; the endpoint may be null. -/
structure Connected where
  ep : Option EndpointType
  err : ℕ

abbrev ConnectCallback (F : Type) := Callback (Object F ClientTcp) Connected Unit

/-! ## The socket -/

/-- One try at a socket: `socket` fails, then `setsockopt`, then `bind`, or all of them succeed. -/
inductive Attempt
  | noSocket
  | notReusable (fd : ℤ)
  | notBound (fd : ℤ)
  | bound (fd : ℤ)

/-- What `client_init_socket` meets: with no local address a single try, which has `getsockname`
for `bind`, and otherwise a try for each address that `getaddrinfo` finds. -/
structure SocketMet where
  single : Attempt
  resolved : Option (List Attempt)

def adopt (fd : ℤ) (o : Object F ClientTcp) : Object F ClientTcp :=
  { o with self := { o.self with «local» := { skt := fd, epType := .tcp } } }

def bindLoop (o : Object F ClientTcp) : List Attempt → Option (Object F ClientTcp × Bool)
  | [] => some (o, false)
  | .noSocket :: as => bindLoop o as
  -- the socket stays open, but nobody keeps its number
  | .notReusable fd :: _ => (o.fds.opened fd).map fun fds => ({ o with fds }, false)
  | .notBound fd :: as => (o.acquire fd).bind fun o => bindLoop (o.close fd) as
  | .bound fd :: _ => (o.acquire fd).map fun o => (adopt fd o, true)

def clientInitSocket (m : SocketMet) (o : Object F ClientTcp) : Option (Object F ClientTcp × Bool) :=
  let o := { o with self := { o.self with «local» := { o.self.local with skt := -1 } } }
  if ¬ o.self.localAddr ∧ ¬ o.self.localPort then
    match m.single with
    -- the assertion on `getsockname`
    | .notBound _ => none
    | a => bindLoop o [a]
  else
    match m.resolved with
    | none => some (o, false)
    | some as => bindLoop o as

/-! ## Disconnecting -/

def clientTcpDisconnect (s : HeldClient F) : HeldClient F :=
  let s := s.lock
  if s.obj.self.connected then
    (s.update fun o =>
      { o.close o.self.local.skt with self := { o.self with «local».skt := -1, connected := false } }).unlock
  else s.unlock

def clientTcpDeinit (s : HeldClient F) : HeldClient F :=
  let s := s.lock
  let s := if s.obj.self.connected then clientTcpDisconnect s else s
  (s.update fun o => o.close o.self.local.skt).unlock

/-! ## Connecting -/

/-- What `connect` answers for each address: nothing, or an error. -/
abbrev ConnectAnswers := List (Option ℕ)

/-- What a connect meets; `resolved` is what `getaddrinfo` finds. -/
structure ConnectMet where
  socket : SocketMet
  resolved : Option ConnectAnswers

/-- The loop over the addresses, with `errno`, which a success leaves as it is. -/
def connectLoop (errno : ℕ) : ConnectAnswers → Except ℕ ℕ
  | [] => .error errno
  | none :: _ => .ok errno
  | some e :: as => connectLoop e as

def reached (o : Object F ClientTcp) : Object F ClientTcp :=
  { o with self := { o.self with remote := { skt := o.self.local.skt, epType := .tcp } } }

/-- What the two connects have in common: `refused` is for a null address, `already` for a client that
has a socket, with no unlock, and `rest` for the new socket. -/
def connectTpl (addr port : Bool) (m : SocketMet) (refused already : Option (HeldClient F))
    (rest : HeldClient F → Option (HeldClient F)) (s : HeldClient F) : Option (HeldClient F) :=
  if ¬ (addr ∧ port) then refused
  else if 0 ≤ s.lock.obj.self.local.skt then already
  else
    (clientInitSocket m s.lock.obj).bind fun r =>
      let s := s.lock.update fun _ => r.1
      if r.2 then rest s else some s.unlock

def alreadyConnected (s : HeldClient F) : Connected := { ep := some s.obj.self.local.epType, err := eisconn }

/-- `client_tcp_connect_sync` from `getaddrinfo` on: the mutex is held, and stays so on the first two
of its ways out. -/
def connectPeer (m : ConnectMet) (cb : Option (ConnectCallback F)) (s : HeldClient F) : Option (HeldClient F) :=
  match m.resolved with
  | none => s.callBackUntested cb { ep := none, err := eaddrnotavail }
  | some as =>
    match connectLoop 0 as with
    | .error errno => s.callBackIfSet cb { ep := none, err := errno }
    | .ok errno =>
      let s := s.update fun o => { reached o with self := { (reached o).self with connected := true } }
      if errno ≠ 0 then ((clientTcpDisconnect s).callBackIfSet cb { ep := none, err := errno }).map Held.unlock
      else (s.callBackIfSet cb { ep := some s.obj.self.remote.epType, err := errno }).map Held.unlock

def clientTcpConnectSync (addr port : Bool) (m : ConnectMet) (cb : Option (ConnectCallback F)) (s : HeldClient F) :
    Option (HeldClient F) :=
  connectTpl addr port m.socket (s.callBackUntested cb { ep := none, err := eaddrnotavail })
    (s.lock.callBackUntested cb (alreadyConnected s.lock)) (connectPeer m cb) s

structure Fcntl where
  getfl : ℤ
  setfl : ℤ

/-- The assertion on `F_SETFL` has no comparison: it passes when the call fails. -/
def Fcntl.passes (f : Fcntl) : Bool := 0 ≤ f.getfl && f.setfl != 0

/-- `client_tcp_connect_async` from the new connector on, for which `allocate` returned `connector`. -/
def connectPeerLater (clientTcpConnector : F) (m : ConnectMet) (f : Fcntl) (connector : UInt64)
    (cb : Option (ConnectCallback F)) (s : HeldClient F) : Option (HeldClient F) :=
  if connector = 0 ∨ ¬ f.passes then none
  else
    match m.resolved with
    -- no unlock
    | none => s.callBackUntested cb { ep := none, err := eaddrnotavail }
    | some as =>
      -- a connection in progress ends the loop as a success does
      match connectLoop 0 (as.map fun a => a.filter (· ≠ einprogress)) with
      | .error errno => (s.callBackIfSet cb { ep := none, err := errno }).map Held.unlock
      | .ok _ => some (s.update fun o =>
          (reached o).post o.self.local.skt .write clientTcpConnector connector).unlock

def clientTcpConnectAsync (clientTcpConnector : F) (addr port : Bool) (m : ConnectMet) (f : Fcntl) (connector : UInt64)
    (cb : Option (ConnectCallback F)) (s : HeldClient F) : Option (HeldClient F) :=
  connectTpl addr port m.socket (some s) (s.lock.callBackUntested cb (alreadyConnected s.lock))
    (connectPeerLater clientTcpConnector m f connector cb) s

/-- The job of an asynchronous connect; `err` is the answer of `getsockopt`, where `none` is a failure. -/
def clientTcpConnector (err : Option ℕ) (f : Fcntl) (cb : Option (ConnectCallback F)) (s : HeldClient F) :
    Option (HeldClient F) :=
  let s := s.lock
  err.bind fun err =>
    let s := s.update fun o => { o with self := { o.self with connected := true } }
    let s := if err ≠ 0 then clientTcpDisconnect s else s
    if ¬ f.passes then none
    else (s.callBackIfSet cb { ep := some s.obj.self.remote.epType, err }).map Held.unlock

/-! ## Endpoints and transfers -/

/-- `ep` is what the user's pointer points to, where `none` is a null pointer, and `block` what
`allocate` returns when that is null as well. -/
def endpointTpl (side : ClientTcp → EndpointSocket) (ep : Option UInt64) (block : UInt64) (s : HeldClient F) :
    Option (HeldClient F × Option EndpointType) :=
  match ep with
  | none => some (s, none)
  | some p =>
    let p := if p = 0 then block else p
    let s := s.lock
    if p = 0 then none else some (s.unlock, some (side s.obj.self).epType)

def clientTcpLocalEp (ep : Option UInt64) (block : UInt64) (s : HeldClient F) :
    Option (HeldClient F × Option EndpointType) :=
  endpointTpl ClientTcp.local ep block s

def clientTcpRemoteEp (ep : Option UInt64) (block : UInt64) (s : HeldClient F) :
    Option (HeldClient F × Option EndpointType) :=
  endpointTpl ClientTcp.remote ep block s

section transfers
variable (buffer : List UInt8) (ctx : UInt64)

def request (op : SrbOperation) (s : HeldClient F) : Option (Option Srb) :=
  some (transferRequest op s.obj.self.remote buffer)

def clientTcpSendSync (m : Met) (cb : Option (TransferCallback F ClientTcp)) (s : HeldClient F) :
    Option (HeldClient F) :=
  transferTpl (request buffer .send s) (transferSync m cb ctx) s

def clientTcpRecvSync (m : Met) (cb : Option (TransferCallback F ClientTcp)) (s : HeldClient F) :
    Option (HeldClient F) :=
  transferTpl (request buffer .recv s) (transferSync m cb ctx) s

def clientTcpSendAsync (tcpSendRecvAsyncTpl : F) (s : HeldClient F) : Option (HeldClient F) :=
  transferTpl (request buffer .send s) (transferAsync tcpSendRecvAsyncTpl ctx) s

def clientTcpRecvAsync (tcpSendRecvAsyncTpl : F) (s : HeldClient F) : Option (HeldClient F) :=
  transferTpl (request buffer .recv s) (transferAsync tcpSendRecvAsyncTpl ctx) s

end transfers

end Chats.Network.Client
