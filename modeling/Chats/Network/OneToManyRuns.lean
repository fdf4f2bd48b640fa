import Chats.Network.OneToMany
import Chats.Network.Serving

/-! # Runs of the one-to-many server

Connections come by accepts and go by rejections, disconnections and the end of the server, in any
order. Each way to go closes a socket and takes one element out of the list. -/
namespace Chats.Network.OneToMany
open Chats.Lib Chats.Lib.Descriptors Chats.IoService Chats.LinkedList
set_option autoImplicit false

variable {F : Type}

/-! ## The steps -/

/-- An accept that has called back: its connection, whether that has been given up since, and whether
the accept is a job. -/
structure Frame where
  connection : UInt64
  gone : Bool
  dispatched : Bool

abbrev State (F : Type) := Serving F OtmServerTcp Frame

/-- A server at `addr` that listens on `sfd`, with a new list at `l`. -/
def start (m : Memory) (connections : UInt64 → Connection) (elementSize l addr : UInt64) (sfd eventFd : ℤ) :
    State F where
  held := {
    depth := 0
    obj := {
      self := {
        addr, «local» := { skt := sfd, epType := .tcp }, remotesList := l,
        memory := (listInit m elementSize l).1, connections }
      fds := Descriptors.single sfd
      svc := ioServiceInit eventFd
      requests := fun _ => none } }
  loop := .idle
  progress := .done
  callbacks := []

inductive Label (F : Type)
  | listenSync (acceptor : UInt64) (b : Block) (afd : ℤ)
  | listenAsync (acceptor : UInt64)
  | dispatch (b : Block) (afd : ℤ)
  | answer (keep : Bool)
  | disconnect (connection : UInt64)
  | around (e : Environment F)

def OtmServerTcp.Live (server : OtmServerTcp) (connection : UInt64) : Prop :=
  ∃ xs x, WellFormed server.memory server.remotesList xs ∧ x ∈ xs ∧ connection = payload x

/-- The callbacks that a connection was for know that it has gone. -/
def depart (connection : UInt64) (callbacks : List Frame) : List Frame :=
  callbacks.map fun frame => if frame.connection = connection then { frame with gone := true } else frame

/-- `otm_server_tcp_listen_sync` unlocks once more than the job. -/
def Frame.leave (frame : Frame) (s : HeldServer F) : HeldServer F := if frame.dispatched then s else s.unlock

def Frame.after (frame : Frame) (p : Progress) : Progress := if frame.dispatched then .done else p

/-- Only live connections are disconnected, and a callback that has disconnected its own connection
does not reject it. -/
inductive Step [DecidableEq F] (acceptor : F) : State F → Label F → State F → Prop
  | listenSync {s : State F} {block : UInt64} {b : Block} {afd : ℤ} {held : HeldServer F} {connection : UInt64} :
      block ≠ 0 → Fresh s.object.self.memory b → acceptorBegins b afd s.held.lock = some (held, connection) →
      Step acceptor s (.listenSync block b afd) { s with
        held, callbacks := { connection, gone := false, dispatched := false } :: s.callbacks }
  | listenAsync {s : State F} {block : UInt64} {held : HeldServer F} :
      otmServerTcpListenAsync acceptor block s.held = some held → Step acceptor s (.listenAsync block) { s with held }
  | dispatch {s : State F} {c : Call F} {b : Block} {afd : ℤ} {held : HeldServer F} {connection : UInt64} :
      s.loop = .invoking c → c.job = acceptor → s.progress = .entered → Fresh s.object.self.memory b →
      acceptorBegins b afd s.held = some (held, connection) →
      Step acceptor s (.dispatch b afd) { s with
        held, progress := .posting, callbacks := { connection, gone := false, dispatched := true } :: s.callbacks }
  | keep {s : State F} {frame : Frame} {rest : List Frame} {held : HeldServer F} : s.callbacks = frame :: rest →
      acceptorEnds frame.connection true s.held = some held →
      Step acceptor s (.answer true) { s with
        held := frame.leave held, progress := frame.after s.progress, callbacks := rest }
  | reject {s : State F} {frame : Frame} {rest : List Frame} {held : HeldServer F} : s.callbacks = frame :: rest →
      frame.gone = false → acceptorEnds frame.connection false s.held = some held →
      Step acceptor s (.answer false) { s with
        held := frame.leave held, progress := frame.after s.progress, callbacks := depart frame.connection rest }
  | disconnect {s : State F} {connection : UInt64} {held : HeldServer F} : s.object.self.Live connection →
      otmServerTcpDisconnect connection s.held = some held →
      Step acceptor s (.disconnect connection) { s with held, callbacks := depart connection s.callbacks }
  | around {s s' : State F} {e : Environment F} : Around (fun server => server.local.skt) acceptor s e s' →
      Step acceptor s (.around e) s'

/-! ## The list and the open sockets -/

def standsFor (o : Server F) (x : UInt64) : Option ℕ := o.fds.file (o.self.connections (payload x)).epSkt.skt

/-- The elements of the list are the accepted sockets that are still open, in the order of acceptance. -/
def Matches (o : Server F) (xs : List UInt64) : Prop :=
  WellFormed o.self.memory o.self.remotesList xs ∧ xs.map (standsFor o) = o.fds.stillOpen.map some

theorem map_erase_middle {α β : Type} [DecidableEq β] {g : α → Option β} {ys zs : List α} {z : α} {fs : List β} {f : β}
    (h : (ys ++ z :: zs).map g = fs.map some) (hn : fs.Nodup) (hz : g z = some f) :
    (ys ++ zs).map g = (fs.erase f).map some ∧ ∀ x ∈ ys ++ zs, g x ≠ some f := by
  have hnodup : ((ys ++ z :: zs).map g).Nodup := h ▸ hn.map (Option.some_injective β)
  rw [List.map_append, List.map_cons, hz] at hnodup h
  have hnot := (List.nodup_middle.mp hnodup).notMem
  rw [← List.map_append] at hnot
  constructor
  · rw [List.map_erase (Option.some_injective β), ← h, List.erase_append_right, List.erase_cons_head, List.map_append]
    intro hmem
    exact hnot (by rw [List.map_append]; exact List.mem_append_left _ hmem)
  · intro x hx heq
    exact hnot (heq ▸ List.mem_map_of_mem hx)

structure Tidy (o : Server F) (xs : List UInt64) : Prop where
  owns : Owns o.fds o.self.local.skt
  list : WellFormed o.self.memory o.self.remotesList xs
  stand : xs.map (standsFor o) = o.fds.stillOpen.map some
  host : ∀ x ∈ xs, (o.self.connections (payload x)).host = o.self.addr

namespace Tidy
variable {o o' : Server F} {xs ys zs : List UInt64} {z connection : UInt64}

theorem connection_eq (h : Tidy o xs) {x : UInt64} (hx : x ∈ xs) :
    o.self.connection (payload x) = some (o.self.connections (payload x)) := by
  obtain ⟨e, he⟩ := Option.isSome_iff_exists.mp (h.list.isSome hx)
  unfold OtmServerTcp.connection
  rw [getListElement_payload, he]
  rfl

theorem open_of_mem (h : Tidy o xs) {x : UInt64} (hx : x ∈ xs) : ∃ f ∈ o.fds.stillOpen, standsFor o x = some f := by
  have hmem : standsFor o x ∈ o.fds.stillOpen.map some := h.stand ▸ List.mem_map_of_mem hx
  obtain ⟨f, hf, heq⟩ := List.mem_map.mp hmem
  exact ⟨f, hf, heq.symm⟩

theorem without (h : Tidy o (ys ++ z :: zs)) {memory : Memory}
    (hlist : WellFormed memory o.self.remotesList (ys ++ zs)) :
    Tidy { o.close (o.self.connections (payload z)).epSkt.skt with self := { o.self with memory } } (ys ++ zs) := by
  have hz : z ∈ ys ++ z :: zs := by simp
  obtain ⟨f, hf, hstands⟩ := h.open_of_mem hz
  obtain ⟨hmap, hother⟩ := map_erase_middle h.stand h.owns.stillOpen_nodup hstands
  have hne := h.owns.ne_listener hstands (mem_stillOpen.mp hf).1
  refine ⟨h.owns.close hne, hlist, ?_, ?_⟩
  · show _ = (o.fds.close _).stillOpen.map some
    rw [h.owns.stillOpen_close hstands, ← hmap]
    apply List.map_congr_left
    intro x hx
    refine file_close_of_ne ?_
    intro heq
    exact hother x hx ((congrArg o.fds.file heq).trans hstands)
  · intro x hx
    exact h.host x (by simp only [List.mem_append, List.mem_cons] at hx ⊢; tauto)

theorem closeConnection_eq (h : Tidy o xs) {x : UInt64} (hx : x ∈ xs) :
    closeConnection (payload x) o = some (o.close (o.self.connections (payload x)).epSkt.skt) := by
  rw [closeConnection, h.connection_eq hx]
  rfl

theorem giveUp (h : Tidy o (ys ++ z :: zs)) : ∃ o', OneToMany.giveUp (payload z) o = some o' ∧ Tidy o' (ys ++ zs) ∧
    o'.fds.acquired = o.fds.acquired := by
  obtain ⟨memory, -, -, hremove, hlist, -⟩ := h.list.remove
  refine ⟨_, ?_, h.without hlist, acquired_close ..⟩
  rw [OneToMany.giveUp, h.closeConnection_eq (by simp), Option.bind_some, removeElement]
  show Option.map _ (listRemoveElement o.self.memory o.self.remotesList (payload z)) = _
  rw [hremove]
  rfl

/-- The loop of `otm_server_tcp_deinit` comes to its end with an empty list. -/
theorem closeAll (h : Tidy o xs) {n : ℕ} (hn : xs.length < n) : ∃ o',
    OneToMany.closeAll o (payloadOrNull (xs.headD 0)) n = some o' ∧ Tidy o' [] ∧ o'.fds.acquired = o.fds.acquired := by
  induction xs generalizing o n with
  | nil =>
    obtain ⟨n, rfl⟩ := Nat.exists_eq_add_one_of_ne_zero (by omega : n ≠ 0)
    exact ⟨o, rfl, h, rfl⟩
  | cons x xs ih =>
    obtain ⟨n, rfl⟩ := Nat.exists_eq_add_one_of_ne_zero (by omega : n ≠ 0)
    have hx : x ∈ x :: xs := List.mem_cons_self
    have hsplit : Tidy o ([] ++ x :: xs) := h
    obtain ⟨memory, hremove, -, -, hlist, -⟩ := hsplit.list.remove
    obtain ⟨o', hclose, hempty, hacq⟩ := ih (hsplit.without hlist) (n := n) (by simpa using hn)
    refine ⟨o', ?_, hempty, hacq.trans (acquired_close ..)⟩
    have hfirst : payloadOrNull ((x :: xs).headD 0) = payload x := if_neg (h.list.ne_zero hx)
    rw [hfirst, OneToMany.closeAll, if_neg (h.list.data x hx), h.closeConnection_eq hx, Option.bind_some]
    show Option.bind (listRemoveNext o.self.memory o.self.remotesList (payload x)) _ = _
    rw [hremove]
    exact hclose

/-- After the server's end each socket that it accepted has been closed once, and none is open. -/
theorem deinit {s : HeldServer F} (h : Tidy s.obj xs) : ∃ s', otmServerTcpDeinit s = some s' ∧
    s'.obj.fds.acquired = s.obj.fds.acquired ∧
    ∀ f ∈ s.obj.fds.acquired, s'.obj.fds.closings f = 1 ∧ ¬ s'.obj.fds.Open f := by
  obtain ⟨o', hclose, hempty, hacq⟩ := h.closeAll h.list.length_lt
  have hend : o'.fds.stillOpen = [] := List.map_eq_nil_iff.mp hempty.stand.symm
  refine ⟨Held.unlock { s.lock with obj := o'.close o'.self.local.skt }, ?_, ?_, ?_⟩
  · unfold otmServerTcpDeinit Held.change
    dsimp only
    rw [Held.obj_lock, h.list.ends.1, Option.bind_some, hclose]
    rfl
  · show (o'.fds.close _).acquired = _
    rw [acquired_close, hacq]
  · intro f hf
    rw [← hacq, ← acquired_close o'.fds o'.self.local.skt] at hf
    apply (hempty.owns.toSound.close o'.self.local.skt).closings_of_closed _ hf
    rw [hempty.owns.stillOpen_close_other hempty.owns.not_own, hend]

theorem enrol (h : Tidy o xs) {b : Block} (hb : Fresh o.self.memory b) {afd : ℤ}
    (henrol : OneToMany.enrol b afd o = some (o', connection)) :
    connection = payload b.addr ∧ Tidy o' (xs ++ [b.addr]) := by
  obtain ⟨memory, happend, hlist, -⟩ := h.list.append hb
  unfold OneToMany.enrol at henrol
  rw [happend, Option.bind_some] at henrol
  simp only [if_neg hb.data] at henrol
  obtain ⟨o₁, hacquire, heq⟩ := Option.map_eq_some_iff.mp henrol
  obtain ⟨fds, hfds, rfl⟩ := Option.map_eq_some_iff.mp hacquire
  cases heq
  have hold : ∀ x ∈ xs, payload x ≠ payload b.addr := by
    intro x hx heq
    exact hb.ne h.list hx (by rw [← getListElement_payload x, heq, getListElement_payload])
  refine ⟨rfl, h.owns.acquire hfds, hlist, ?_, ?_⟩
  · show _ = fds.stillOpen.map some
    rw [h.owns.stillOpen_acquire hfds, List.map_append, List.map_append, ← h.stand]
    congr 1
    · apply List.map_congr_left
      intro x hx
      obtain ⟨f, -, hstands⟩ := h.open_of_mem hx
      show fds.file (Function.update o.self.connections _ _ (payload x)).epSkt.skt = _
      rw [Function.update_of_ne (hold x hx), hstands]
      exact file_acquire_of_some hfds hstands
    · show [fds.file (Function.update o.self.connections _ _ (payload b.addr)).epSkt.skt] = _
      rw [Function.update_self, file_acquire_self hfds]
      rfl
  · intro x hx
    show (Function.update o.self.connections _ _ (payload x)).host = _
    rcases List.mem_append.mp hx with hx | hx
    · rw [Function.update_of_ne (hold x hx)]
      exact h.host x hx
    · rw [List.mem_singleton.mp hx, Function.update_self]

theorem aside (h : Tidy o xs) (hself : o'.self = o.self) (haside : Aside o.self.local.skt o.fds o'.fds) :
    Tidy o' xs := by
  refine ⟨?_, ?_, ?_, ?_⟩
  · rw [hself]
    exact h.owns.aside haside
  · rw [hself]
    exact h.list
  · rw [haside.stillOpen_eq, ← h.stand]
    apply List.map_congr_left
    intro x hx
    obtain ⟨f, hf, hstands⟩ := h.open_of_mem hx
    unfold standsFor at hstands ⊢
    rw [hself, hstands]
    exact (haside.own f (mem_stillOpen.mp hf).1 _).mpr hstands
  · rw [hself]
    exact h.host

end Tidy

/-! ## Every run -/

/-- The list is right, and a callback whose connection has not gone finds it in the list. -/
structure Invariant (s : State F) (xs : List UInt64) : Prop extends Tidy s.object xs where
  frames : ∀ frame ∈ s.callbacks, frame.gone = false → ∃ x ∈ xs, frame.connection = payload x

theorem invariant_start (m : Memory) (connections : UInt64 → Connection) (elementSize : UInt64)
    {l : UInt64} (hl : l ≠ 0)
    (addr : UInt64) (sfd eventFd : ℤ) :
    Invariant (F := F) (start m connections elementSize l addr sfd eventFd) [] := by
  obtain ⟨m', hinit, hlist, -⟩ := listInit_spec m elementSize hl
  refine ⟨⟨owns_single sfd, ?_, ?_, ?_⟩, ?_⟩
  · show WellFormed (listInit m elementSize l).1 l []
    rw [hinit]
    exact hlist
  · rfl
  · intro x hx
    cases hx
  · intro frame hframe
    cases hframe

section step
variable {s s' : State F} {a : Label F} {xs : List UInt64}

theorem frames_depart {callbacks : List Frame} {ys zs : List UInt64} {z : UInt64}
    (h : ∀ frame ∈ callbacks, frame.gone = false → ∃ x ∈ ys ++ z :: zs, frame.connection = payload x) :
    ∀ frame ∈ depart (payload z) callbacks, frame.gone = false → ∃ x ∈ ys ++ zs, frame.connection = payload x := by
  intro frame hframe hgone
  obtain ⟨old, hold, rfl⟩ := List.mem_map.mp hframe
  split_ifs at hgone ⊢ with hconnection
  obtain ⟨x, hx, heq⟩ := h old hold hgone
  refine ⟨x, ?_, heq⟩
  have hne : x ≠ z := by
    rintro rfl
    exact hconnection heq
  simp only [List.mem_append, List.mem_cons] at hx ⊢
  tauto

theorem frames_enrol {callbacks : List Frame} {n : UInt64} {frame : Frame}
    (h : ∀ frame ∈ callbacks, frame.gone = false → ∃ x ∈ xs, frame.connection = payload x)
    (hframe : frame.connection = payload n) :
    ∀ f ∈ frame :: callbacks, f.gone = false → ∃ x ∈ xs ++ [n], f.connection = payload x := by
  intro f hf hgone
  rcases List.mem_cons.mp hf with rfl | hf
  · exact ⟨n, by simp, hframe⟩
  · obtain ⟨x, hx, heq⟩ := h f hf hgone
    exact ⟨x, List.mem_append_left _ hx, heq⟩

/-- One connection is given up: by the server, or by the callback that it was accepted for. -/
theorem Invariant.giveUp (h : Invariant s xs) {x : UInt64} (hx : x ∈ xs) {o' : Server F}
    (hgiveUp : OneToMany.giveUp (payload x) s.object = some o') : ∃ xs', Tidy o' xs' ∧
      ∀ frame ∈ depart (payload x) s.callbacks, frame.gone = false → ∃ x ∈ xs', frame.connection = payload x := by
  obtain ⟨ys, zs, rfl⟩ := List.append_of_mem hx
  obtain ⟨o₁, hgives, htidy, -⟩ := h.toTidy.giveUp
  obtain rfl := Option.some.inj (hgives.symm.trans hgiveUp)
  exact ⟨ys ++ zs, htidy, frames_depart h.frames⟩

theorem acceptorBegins_obj {t held : HeldServer F} {b : Block} {afd : ℤ} {connection : UInt64}
    (h : acceptorBegins b afd t = some (held, connection)) :
    OneToMany.enrol b afd t.obj = some (held.obj, connection) := by
  obtain ⟨⟨o, c⟩, henrol, heq⟩ := Option.map_eq_some_iff.mp h
  cases heq
  exact henrol

theorem acceptorEnds_obj {t held : HeldServer F} {connection : UInt64}
    (h : acceptorEnds connection false t = some held) :
    OneToMany.giveUp connection t.obj = some held.obj := by
  obtain ⟨t', hchange, rfl⟩ := Option.map_eq_some_iff.mp h
  obtain ⟨o, hgiveUp, rfl⟩ := Option.map_eq_some_iff.mp hchange
  exact hgiveUp

theorem Tidy.disconnect_obj {t held : HeldServer F} (h : Tidy t.obj xs) {x : UInt64} (hx : x ∈ xs)
    (hdisconnect : otmServerTcpDisconnect (payload x) t = some held) :
    OneToMany.giveUp (payload x) t.obj = some held.obj := by
  have hhosts : hosts (payload x) t = some (some (t.obj.self.connections (payload x))) := by
    unfold hosts
    rw [if_neg (h.list.data x hx), h.connection_eq hx, Option.map_some, if_pos (h.host x hx)]
  unfold otmServerTcpDisconnect at hdisconnect
  rw [hhosts, Option.bind_some] at hdisconnect
  obtain ⟨t', hchange, rfl⟩ := Option.map_eq_some_iff.mp hdisconnect
  obtain ⟨o, hgiveUp, rfl⟩ := Option.map_eq_some_iff.mp hchange
  exact hgiveUp

@[simp] theorem obj_leave (frame : Frame) (t : HeldServer F) : (frame.leave t).obj = t.obj := by
  unfold Frame.leave
  split_ifs <;> rfl

variable [DecidableEq F] {acceptor : F}

theorem Invariant.step (h : Invariant s xs) (hs : Step acceptor s a s') : ∃ xs', Invariant s' xs' := by
  cases hs with
  | listenSync hblock hb hbegins =>
    have henrol := acceptorBegins_obj hbegins
    obtain ⟨hconnection, htidy⟩ := h.toTidy.enrol hb henrol
    exact ⟨_, htidy, frames_enrol h.frames hconnection⟩
  | @listenAsync block held hlisten =>
    unfold otmServerTcpListenAsync at hlisten
    dsimp only at hlisten
    split_ifs at hlisten
    obtain rfl := Option.some.inj hlisten
    exact ⟨xs, h.toTidy.aside rfl (h.owns.toSound.aside_refl _), h.frames⟩
  | dispatch hloop hjob hprogress hb hbegins =>
    obtain ⟨hconnection, htidy⟩ := h.toTidy.enrol hb (acceptorBegins_obj hbegins)
    exact ⟨_, htidy, frames_enrol h.frames hconnection⟩
  | @keep frame rest held hcallbacks hends =>
    obtain rfl := Option.some.inj hends
    refine ⟨xs, ?_, fun f hf => h.frames f (hcallbacks ▸ List.mem_cons_of_mem _ hf)⟩
    show Tidy (frame.leave s.held.unlock).obj xs
    rw [obj_leave]
    exact h.toTidy
  | @reject frame rest held hcallbacks hgone hends =>
    obtain ⟨x, hx, hconnection⟩ := h.frames frame (hcallbacks ▸ List.mem_cons_self) hgone
    rw [hconnection] at hends ⊢
    obtain ⟨xs', htidy, hframes⟩ := h.giveUp hx (acceptorEnds_obj hends)
    refine ⟨xs', ?_, fun f hf => hframes f ?_⟩
    · show Tidy (frame.leave held).obj xs'
      rw [obj_leave]
      exact htidy
    · rw [hcallbacks]
      exact List.mem_cons_of_mem _ hf
  | disconnect hlive hdisconnect =>
    obtain ⟨xs', x, hlist, hx, rfl⟩ := hlive
    obtain rfl := h.list.unique hlist
    obtain ⟨xs', htidy, hframes⟩ := h.giveUp hx (h.toTidy.disconnect_obj hx hdisconnect)
    exact ⟨xs', htidy, hframes⟩
  | around he =>
    obtain ⟨hself, hcallbacks, haside⟩ := he.quiet (fun server : OtmServerTcp => server.local.skt) acceptor h.owns
    exact ⟨xs, h.toTidy.aside hself haside, hcallbacks ▸ h.frames⟩

end step

/-- In every state of every run the list of the server holds exactly the accepted sockets that are still
open, in the order of their acceptance, and if the server ends there, each socket that it has accepted
has then been closed once. -/
theorem remotes_list_open [DecidableEq F] {acceptor : F} {m : Memory} {connections : UInt64 → Connection}
    {elementSize l addr : UInt64} {sfd eventFd : ℤ} (hl : l ≠ 0) {h : List (State F × Label F)} {s : State F}
    (r : Run (Step acceptor) (start m connections elementSize l addr sfd eventFd) h s) :
    ∀ t ∈ visited h s, (∃ xs, Matches t.object xs) ∧ ∃ s', otmServerTcpDeinit t.held = some s' ∧
      s'.obj.fds.acquired = t.fds.acquired ∧ ∀ f ∈ t.fds.acquired, s'.obj.fds.closings f = 1 ∧ ¬ s'.obj.fds.Open f := by
  have hinvariant := r.forall_visited (I := fun t => ∃ xs, Invariant t xs)
    ⟨[], invariant_start m connections elementSize hl addr sfd eventFd⟩ (by
      rintro t a t' ⟨xs, ht⟩ hs
      exact ht.step hs)
  intro t ht
  obtain ⟨xs, hxs⟩ := hinvariant t ht
  exact ⟨⟨xs, hxs.list, hxs.stand⟩, hxs.toTidy.deinit⟩

/-- A server at 16 that listens on descriptor 4, with its list at 8. -/
def listening : State JobFunction :=
  start LinkedList.start (fun _ => { host := 0, epSkt := noSocket }) 32 8 16 4 3

def block (n : UInt64) : Block := ⟨n, 0, 0, 0⟩

/-- It keeps the connection on descriptor 7 and disconnects it, keeps the one on 9, and rejects the one on 8. -/
theorem remotes_list_open_three : ∃ s : State JobFunction, s.fds.acquired = [1, 2, 3] ∧ s.fds.closings 1 = 1 ∧
    s.fds.closings 2 = 0 ∧ s.fds.closings 3 = 1 ∧ (∃ xs, Matches s.object xs) ∧
      ∃ s', otmServerTcpDeinit s.held = some s' ∧ ∀ f ∈ [1, 2, 3], s'.obj.fds.closings f = 1 := by
  have hdata : ∀ x ∈ [(64 : UInt64)], payload x ≠ 0 := by
    intro x hx
    rw [List.mem_singleton.mp hx]
    decide
  have r₁ : Run (Step .tcpSendRecvAsyncTpl) listening _ _ := .next .start
    (show Step _ listening (.listenSync 32 (block 64) 7) _ from
      .listenSync (by decide) ⟨by decide, by decide, rfl⟩ rfl)
  have r₂ := r₁.next (.keep rfl rfl)
  have r₃ := r₂.next (show Step _ _ (.disconnect (payload 64)) _ from .disconnect ⟨[64], 64,
    ⟨by decide, ⟨_, rfl, ⟨rfl, by decide, _, rfl, rfl⟩, ⟨rfl, by decide, _, rfl, rfl⟩, rfl⟩,
      by intro x hx; rw [List.mem_singleton.mp hx]; rfl, hdata⟩, List.mem_singleton_self 64, rfl⟩ rfl)
  have r₄ := r₃.next (show Step _ _ (.listenSync 32 (block 128) 9) _ from
    .listenSync (by decide) ⟨by decide, by decide, rfl⟩ rfl)
  have r₅ := r₄.next (.keep rfl rfl)
  have r₆ := r₅.next (show Step _ _ (.listenSync 32 (block 192) 8) _ from
    .listenSync (by decide) ⟨by decide, by decide, rfl⟩ rfl)
  have r₇ := r₆.next (.reject rfl rfl rfl)
  obtain ⟨hmatches, s', hdeinit, -, hclosed⟩ := remotes_list_open (by decide) r₇ _ (Run.mem_visited _ _)
  exact ⟨_, rfl, rfl, rfl, rfl, hmatches, s', hdeinit, fun f hf => (hclosed f hf).1⟩

end Chats.Network.OneToMany
