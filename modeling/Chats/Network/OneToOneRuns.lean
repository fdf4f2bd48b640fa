import Chats.Network.OneToOne
import Chats.Network.Serving

/-! # Runs of the one-to-one server

The server remembers its connection twice: `connected` says that there is one, and `remote` has its
socket's number. The open sockets agree with them as long as nobody disconnects the server, and no
job accepts that was posted before the server was connected. -/
namespace Chats.Network.OneToOne
open Chats.Lib Chats.Lib.Descriptors Chats.IoService
set_option autoImplicit false

variable {F : Type}

/-! ## The steps -/

/-- For an accept that has called back, whether it is a job. -/
structure Frame where
  dispatched : Bool

abbrev State (F : Type) := Serving F OtoServerTcp Frame

def start (sfd eventFd : ℤ) : State F where
  held := { depth := 0, obj := {
    self := otoServerTcpInit sfd, fds := Descriptors.single sfd, svc := ioServiceInit eventFd,
    requests := fun _ => none } }
  loop := .idle
  progress := .done
  callbacks := []

inductive Label (F : Type)
  | listenSync (acceptor : UInt64) (afd : ℤ)
  | listenAsync (acceptor : UInt64)
  | dispatch (afd : ℤ)
  | answer (keep : Bool)
  | disconnect
  | around (e : Environment F)

/-- `oto_server_tcp_listen_sync` unlocks once more than the job. -/
def Frame.leave (frame : Frame) (s : HeldServer F) : HeldServer F := if frame.dispatched then s else s.unlock

def Frame.after (frame : Frame) (p : Progress) : Progress := if frame.dispatched then .done else p

inductive Step [DecidableEq F] (acceptor : F) : State F → Label F → State F → Prop
  | listenSync {s : State F} {block : UInt64} {afd : ℤ} {held : HeldServer F} : s.object.self.connected = false →
      block ≠ 0 → acceptorBegins afd s.held.lock = some held →
      Step acceptor s (.listenSync block afd) { s with held, callbacks := { dispatched := false } :: s.callbacks }
  | listenRefused {s : State F} {block : UInt64} {afd : ℤ} : s.object.self.connected = true →
      Step acceptor s (.listenSync block afd) { s with held := s.held.lock.unlock }
  | listenAsync {s : State F} {block : UInt64} {held : HeldServer F} :
      otoServerTcpListenAsync acceptor block s.held = some held → Step acceptor s (.listenAsync block) { s with held }
  | dispatch {s : State F} {c : Call F} {afd : ℤ} {held : HeldServer F} : s.loop = .invoking c → c.job = acceptor →
      s.progress = .entered → acceptorBegins afd s.held = some held →
      Step acceptor s (.dispatch afd) { s with
        held, progress := .posting, callbacks := { dispatched := true } :: s.callbacks }
  | answer {s : State F} {frame : Frame} {rest : List Frame} (keep : Bool) : s.callbacks = frame :: rest →
      Step acceptor s (.answer keep) { s with
        held := frame.leave (acceptorEnds keep s.held), progress := frame.after s.progress, callbacks := rest }
  | disconnect {s : State F} : Step acceptor s .disconnect { s with held := otoServerTcpDisconnect s.held }
  | around {s s' : State F} {e : Environment F} : Around (fun server => server.local.skt) acceptor s e s' →
      Step acceptor s (.around e) s'

/-! ## What holds of every moment -/

def remoteSkt (o : Server F) : ℤ := o.self.remote.epSkt.skt

/-- What the server has closed that was open, it had accepted. -/
def ClosesOwn (d : Descriptors) : Prop := ∀ fd g, FdEvent.closed fd (some g) ∈ d.trace → g ∈ d.acquired

/-- If the server ends here, each socket that it has accepted has been closed once, and nothing else
but its listening socket. -/
def EndsWell (s : HeldServer F) : Prop :=
  let d := (otoServerTcpDeinit s).obj.fds
  (∀ f ∈ s.obj.fds.acquired, d.closings f = 1 ∧ ¬ d.Open f) ∧
    ∀ fd g, FdEvent.closed fd (some g) ∈ d.trace → g ∈ s.obj.fds.acquired ∨ s.obj.fds.file s.obj.self.local.skt = some g

/-- `oto_server_tcp_listen_sync` accepts, whatever number the kernel gives. -/
def Accepts [DecidableEq F] (acceptor : F) (s : State F) : Prop :=
  ∀ (block : UInt64) (afd : ℤ), block ≠ 0 → 0 ≤ afd → s.fds.file afd = none →
    ∃ s', Step acceptor s (.listenSync block afd) s' ∧ s'.fds.acquired = s.fds.acquired ++ [s.fds.fresh]

structure Faithful [DecidableEq F] (acceptor : F) (h : List (State F × Label F)) (s : State F) : Prop where
  flag : s.object.self.connected = true ↔ ∃ f, s.fds.acquired.getLast? = some f ∧ s.fds.Open f
  own : ClosesOwn s.fds
  ends : EndsWell s.held
  again : ∀ e ∈ h.head?, e.2 = .disconnect → Accepts acceptor s

/-- A disconnection finds nothing to close, and an accept by the loop finds no connection. -/
def Meets (s : State F) : Label F → Prop
  | .disconnect => s.object.self.connected = false ∧ s.fds.file (remoteSkt s.object) = none
  | .dispatch _ => s.object.self.connected = false
  | _ => True

/-! ## The invariant -/

/-- While the server is connected, its connection is the only accepted socket that is open. -/
structure Tidy (o : Server F) : Prop where
  owns : Owns o.fds o.self.local.skt
  own : ClosesOwn o.fds
  busy : o.self.connected = true → ∃ f, o.fds.stillOpen = [f] ∧ o.fds.file (remoteSkt o) = some f ∧
    o.fds.acquired.getLast? = some f
  idle : o.self.connected = false → o.fds.stillOpen = []

/-- At most one callback is under way, and only while the server is connected. -/
structure Invariant (s : State F) : Prop extends Tidy s.object where
  one : s.callbacks.length ≤ 1
  busyOne : s.callbacks ≠ [] → s.object.self.connected = true

theorem ClosesOwn.close {d : Descriptors} {fd : ℤ} (h : ClosesOwn d) (hfd : ∀ g, d.file fd = some g → g ∈ d.acquired) :
    ClosesOwn (d.close fd) := by
  intro x g hmem
  rw [acquired_close]
  rcases List.mem_cons.mp hmem with heq | hmem
  · rw [FdEvent.closed.injEq] at heq
    exact hfd g heq.2.symm
  · exact h x g hmem

theorem ClosesOwn.acquire {d d' : Descriptors} {fd : ℤ} (h : ClosesOwn d) (hd : d.acquire fd = some d') :
    ClosesOwn d' := by
  intro x g hmem
  rw [acquired_acquire hd]
  obtain ⟨-, -, rfl⟩ := acquire_eq hd
  rcases List.mem_cons.mp hmem with heq | hmem
  · cases heq
  · exact List.mem_append_left _ (h x g hmem)

theorem ends_of_closed {d : Descriptors} {listener : ℤ} (hd : Owns d listener) (hown : ClosesOwn d)
    (hclosed : d.stillOpen = []) :
    (∀ f ∈ d.acquired, (d.close listener).closings f = 1 ∧ ¬ (d.close listener).Open f) ∧
      ∀ fd g, FdEvent.closed fd (some g) ∈ (d.close listener).trace → g ∈ d.acquired ∨ d.file listener = some g := by
  constructor
  · intro f hf
    rw [← acquired_close d listener] at hf
    apply (hd.toSound.close listener).closings_of_closed _ hf
    rw [hd.stillOpen_close_other hd.not_own, hclosed]
  · intro fd g hmem
    rcases List.mem_cons.mp hmem with heq | hmem
    · rw [FdEvent.closed.injEq] at heq
      exact Or.inr heq.2.symm
    · exact Or.inl (hown fd g hmem)

theorem deinit_fds (s : HeldServer F) : (otoServerTcpDeinit s).obj.fds =
    (if s.obj.self.connected then s.obj.fds.close (remoteSkt s.obj) else s.obj.fds).close s.obj.self.local.skt := by
  unfold otoServerTcpDeinit
  by_cases hconnected : s.obj.self.connected = true
  · rw [if_pos hconnected]
    dsimp only
    rw [if_pos (show s.lock.obj.self.connected = true from hconnected)]
    rfl
  · rw [if_neg hconnected]
    dsimp only
    rw [if_neg (show ¬ s.lock.obj.self.connected = true from hconnected)]
    rfl

theorem takeIn_eq {o o' : Server F} {afd : ℤ} (h : OneToOne.takeIn afd o = some o') :
    ∃ fds, o.fds.acquire afd = some fds ∧
    o' = { o with fds, self := { o.self with
      connected := true, remote := { host := true, epSkt := { skt := afd, epType := .tcp } } } } := by
  obtain ⟨o₁, hacquire, rfl⟩ := Option.map_eq_some_iff.mp h
  obtain ⟨fds, hfds, rfl⟩ := Option.map_eq_some_iff.mp hacquire
  exact ⟨fds, hfds, rfl⟩

namespace Tidy
variable {o o' : Server F}

theorem flag (h : Tidy o) : o.self.connected = true ↔ ∃ f, o.fds.acquired.getLast? = some f ∧ o.fds.Open f := by
  constructor
  · intro hconnected
    obtain ⟨f, hopen, -, hlast⟩ := h.busy hconnected
    have hmem : f ∈ o.fds.stillOpen := by simp [hopen]
    exact ⟨f, hlast, (mem_stillOpen.mp hmem).2⟩
  · rintro ⟨f, hlast, hopen⟩
    by_contra hnot
    have hmem : f ∈ o.fds.stillOpen := mem_stillOpen.mpr ⟨List.mem_of_getLast? hlast, hopen⟩
    rw [h.idle (Bool.not_eq_true _ ▸ hnot)] at hmem
    cases hmem

theorem closeRemote (h : Tidy o) (hconnected : o.self.connected = true) : remoteSkt o ≠ o.self.local.skt ∧
    Owns (o.fds.close (remoteSkt o)) o.self.local.skt ∧ ClosesOwn (o.fds.close (remoteSkt o)) ∧
    (o.fds.close (remoteSkt o)).stillOpen = [] := by
  obtain ⟨f, hopen, hfile, -⟩ := h.busy hconnected
  have hmem : f ∈ o.fds.stillOpen := by simp [hopen]
  have hacq := (mem_stillOpen.mp hmem).1
  have hne := h.owns.ne_listener hfile hacq
  refine ⟨hne, h.owns.close hne, h.own.close ?_, ?_⟩
  · intro g hg
    rw [hfile, Option.some.injEq] at hg
    exact hg ▸ hacq
  · rw [h.owns.stillOpen_close hfile, hopen, List.erase_cons_head]

theorem turnAway (h : Tidy o) (hconnected : o.self.connected = true) : Tidy (OneToOne.turnAway o) := by
  obtain ⟨-, howns, hown, hclosed⟩ := h.closeRemote hconnected
  exact ⟨howns, hown, nofun, fun _ => hclosed⟩

/-- With no connection, the number in `remote` may be closed as long as it stands for nothing. -/
theorem closeFree (h : Tidy o) (hidle : o.self.connected = false) (hnone : o.fds.file (remoteSkt o) = none) :
    Tidy (o.close (remoteSkt o)) := by
  have hne : remoteSkt o ≠ o.self.local.skt := by
    intro heq
    obtain ⟨g, hg, -⟩ := h.owns.listening
    rw [← heq, hnone] at hg
    cases hg
  refine ⟨h.owns.close hne, h.own.close ?_, fun hbusy => ?_, fun _ => ?_⟩
  · intro g hg
    rw [hnone] at hg
    cases hg
  · rw [show o.self.connected = true from hbusy] at hidle
    cases hidle
  · exact (h.owns.stillOpen_close_other fun f _ => by simp [hnone]).trans (h.idle hidle)

theorem takeIn (h : Tidy o) (hidle : o.self.connected = false) {afd : ℤ} (htaken : OneToOne.takeIn afd o = some o') :
    Tidy o' ∧ o'.self.connected = true := by
  obtain ⟨fds, hfds, rfl⟩ := takeIn_eq htaken
  refine ⟨⟨h.owns.acquire hfds, h.own.acquire hfds, fun _ => ⟨o.fds.fresh, ?_, file_acquire_self hfds, ?_⟩, nofun⟩, rfl⟩
  · show fds.stillOpen = _
    rw [h.owns.stillOpen_acquire hfds, h.idle hidle, List.nil_append]
  · show fds.acquired.getLast? = _
    rw [acquired_acquire hfds, List.getLast?_concat]

theorem aside (h : Tidy o) (hself : o'.self = o.self) (haside : Aside o.self.local.skt o.fds o'.fds) : Tidy o' := by
  refine ⟨?_, ?_, ?_, ?_⟩
  · rw [hself]
    exact h.owns.aside haside
  · intro fd g hmem
    rw [haside.acquired_eq]
    exact h.own fd g (haside.trace ▸ hmem)
  · intro hconnected
    obtain ⟨f, hopen, hfile, hlast⟩ := h.busy (hself ▸ hconnected)
    have hmem : f ∈ o.fds.stillOpen := by simp [hopen]
    refine ⟨f, haside.stillOpen_eq.trans hopen, ?_, haside.acquired_eq ▸ hlast⟩
    unfold remoteSkt at hfile ⊢
    rw [hself]
    exact (haside.own f (mem_stillOpen.mp hmem).1 _).mpr hfile
  · intro hidle
    exact haside.stillOpen_eq.trans (h.idle (hself ▸ hidle))

theorem endsWell {s : HeldServer F} (h : Tidy s.obj) : EndsWell s := by
  unfold EndsWell
  rw [deinit_fds]
  cases hconnected : s.obj.self.connected with
  | true =>
    obtain ⟨hne, howns, hown, hclosed⟩ := h.closeRemote hconnected
    have hends := ends_of_closed howns hown hclosed
    rw [acquired_close, file_close_of_ne hne.symm] at hends
    exact hends
  | false => exact ends_of_closed h.owns h.own (h.idle hconnected)

end Tidy

/-! ## Every run -/

section step
variable {s s' : State F} {a : Label F}

theorem acceptorBegins_obj {t held : HeldServer F} {afd : ℤ} (h : acceptorBegins afd t = some held) :
    OneToOne.takeIn afd t.obj = some held.obj := by
  obtain ⟨o, htaken, rfl⟩ := Option.map_eq_some_iff.mp h
  exact htaken

@[simp] theorem obj_leave (frame : Frame) (t : HeldServer F) : (frame.leave t).obj = t.obj := by
  unfold Frame.leave
  split_ifs <;> rfl

theorem accepts_of_idle [DecidableEq F] {acceptor : F} (h : s.object.self.connected = false) : Accepts acceptor s := by
  intro block afd hblock hafd hfree
  obtain ⟨fds, hfds⟩ := exists_acquire hafd hfree
  have hbegins : ∃ held, acceptorBegins afd s.held.lock = some held := by
    have hacquire : s.held.obj.acquire afd = some { s.held.obj with fds } := Option.map_eq_some_iff.mpr ⟨fds, hfds, rfl⟩
    simp [acceptorBegins, Held.change, OneToOne.takeIn, hacquire]
  obtain ⟨held, hheld⟩ := hbegins
  refine ⟨_, .listenSync h hblock hheld, ?_⟩
  obtain ⟨fds, hfds, hobj⟩ := takeIn_eq (acceptorBegins_obj hheld)
  show held.obj.fds.acquired = _
  rw [hobj]
  exact acquired_acquire hfds

theorem invariant_start (sfd eventFd : ℤ) : Invariant (F := F) (start sfd eventFd) := by
  refine ⟨⟨owns_single sfd, ?_, nofun, fun _ => rfl⟩, Nat.zero_le _, fun h => absurd rfl h⟩
  intro fd g hmem
  cases hmem

theorem Invariant.accepted (h : Invariant s) (hidle : s.object.self.connected = false) {afd : ℤ} {o' : Server F}
    (htaken : OneToOne.takeIn afd s.object = some o') : Tidy o' ∧ o'.self.connected = true ∧ s.callbacks = [] := by
  obtain ⟨htidy, hconnected⟩ := h.toTidy.takeIn hidle htaken
  refine ⟨htidy, hconnected, ?_⟩
  by_contra hne
  rw [h.busyOne hne] at hidle
  cases hidle

variable [DecidableEq F] {acceptor : F}

theorem Invariant.step (h : Invariant s) (hmeets : Meets s a) (hs : Step acceptor s a s') : Invariant s' := by
  cases hs with
  | listenSync hidle hblock hbegins =>
    have htaken := acceptorBegins_obj hbegins
    obtain ⟨htidy, hconnected, hnone⟩ := h.accepted hidle htaken
    exact ⟨htidy, by simp [hnone], fun _ => hconnected⟩
  | listenRefused hconnected => exact ⟨h.toTidy, h.one, h.busyOne⟩
  | @listenAsync block held hlisten =>
    have hheld : held.obj.self = s.object.self ∧ held.obj.fds = s.fds := by
      unfold otoServerTcpListenAsync at hlisten
      dsimp only at hlisten
      split_ifs at hlisten
      all_goals
        obtain rfl := Option.some.inj hlisten
        exact ⟨rfl, rfl⟩
    obtain ⟨hself, hfds⟩ := hheld
    refine ⟨h.toTidy.aside hself ?_, h.one, fun hne => ?_⟩
    · show Aside _ s.fds held.obj.fds
      rw [hfds]
      exact h.owns.toSound.aside_refl _
    · show held.obj.self.connected = true
      rw [hself]
      exact h.busyOne hne
  | dispatch hloop hjob hprogress hbegins =>
    obtain ⟨htidy, hconnected, hnone⟩ := h.accepted hmeets (acceptorBegins_obj hbegins)
    exact ⟨htidy, by simp [hnone], fun _ => hconnected⟩
  | @answer frame rest keep hcallbacks =>
    have hconnected : s.object.self.connected = true := h.busyOne (by simp [hcallbacks])
    have hrest : rest = [] := by
      have hone := h.one
      rw [hcallbacks, List.length_cons] at hone
      exact List.eq_nil_of_length_eq_zero (by omega)
    subst hrest
    refine ⟨?_, Nat.zero_le _, fun hne => absurd rfl hne⟩
    show Tidy (frame.leave (acceptorEnds keep s.held)).obj
    rw [obj_leave]
    cases keep with
    | true => exact h.toTidy
    | false => exact h.toTidy.turnAway hconnected
  | disconnect =>
    obtain ⟨hidle, hnone⟩ := hmeets
    exact ⟨h.toTidy.closeFree hidle hnone, h.one, h.busyOne⟩
  | around he =>
    obtain ⟨hself, hcallbacks, haside⟩ := he.quiet (fun server : OtoServerTcp => server.local.skt) acceptor h.owns
    exact ⟨h.toTidy.aside hself haside, hcallbacks ▸ h.one, hself ▸ hcallbacks ▸ h.busyOne⟩

theorem Invariant.faithful (h : Invariant s) {hist : List (State F × Label F)}
    (hagain : ∀ e ∈ hist.head?, e.2 = .disconnect → s.object.self.connected = false) : Faithful acceptor hist s where
  flag := h.flag
  own := h.own
  ends := h.endsWell
  again e he hdisconnect := accepts_of_idle (hagain e he hdisconnect)

/-- A disconnection closes the connection and leaves the flag, or closes what is not the server's. -/
theorem Invariant.not_faithful_disconnect (h : Invariant s) (hmeets : ¬ Meets s .disconnect)
    (hs : Step acceptor s .disconnect s')
    {hist : List (State F × Label F)} : ¬ Faithful acceptor hist s' := by
  intro hfaithful
  cases hs with
  | disconnect =>
    cases hconnected : s.object.self.connected with
    | true =>
      obtain ⟨f, -, hfile, hlast⟩ := h.busy hconnected
      obtain ⟨f', hlast', hopen⟩ := hfaithful.flag.mp hconnected
      have hacq : (s.fds.close (remoteSkt s.object)).acquired.getLast? = some f' := hlast'
      rw [acquired_close] at hacq
      obtain rfl := Option.some.inj (hlast.symm.trans hacq)
      exact ((h.owns.open_close _ f).mp hopen).2 hfile
    | false =>
      cases hfile : s.fds.file (remoteSkt s.object) with
      | none => exact hmeets ⟨hconnected, hfile⟩
      | some g =>
        have hmem : FdEvent.closed (remoteSkt s.object) (some g) ∈ (s.fds.close (remoteSkt s.object)).trace :=
          hfile ▸ List.mem_cons_self
        have hown : g ∈ (s.fds.close (remoteSkt s.object)).acquired := hfaithful.own _ g hmem
        rw [acquired_close] at hown
        have hopen : g ∈ s.object.fds.stillOpen := mem_stillOpen.mpr ⟨hown, _, hfile⟩
        rw [h.idle hconnected] at hopen
        cases hopen

/-- A second connection takes the place of the first, whose socket nobody closes. -/
theorem Invariant.not_faithful_dispatch (h : Invariant s) {afd : ℤ} (hmeets : ¬ Meets s (.dispatch afd))
    (hs : Step acceptor s (.dispatch afd) s') {hist : List (State F × Label F)} : ¬ Faithful acceptor hist s' := by
  intro hfaithful
  cases hs with
  | @dispatch c afd held hloop hjob hprogress hbegins =>
    have hconnected : s.object.self.connected = true := by
      unfold Meets at hmeets
      simpa using hmeets
    obtain ⟨f, hopen, hfile, -⟩ := h.busy hconnected
    obtain ⟨hacq, -⟩ := mem_stillOpen.mp (hopen ▸ List.mem_singleton_self f)
    have hne := h.owns.ne_listener hfile hacq
    obtain ⟨fds, hfds, hobj⟩ := takeIn_eq (acceptorBegins_obj hbegins)
    have hnew : remoteSkt s.object ≠ afd := by
      intro heq
      have hfree : s.object.fds.file afd = none := (acquire_eq hfds).2.1
      rw [heq, hfree] at hfile
      cases hfile
    -- the server ends by closing the new number and the listener's
    have hends : f ∈ held.obj.fds.acquired → ¬ (otoServerTcpDeinit held).obj.fds.Open f :=
      fun hf => (hfaithful.ends.1 f hf).2
    rw [deinit_fds, hobj] at hends
    refine hends ?_ ⟨remoteSkt s.object, ?_⟩
    · show f ∈ fds.acquired
      rw [acquired_acquire hfds]
      exact List.mem_append_left _ hacq
    · show ((fds.close afd).close s.object.self.local.skt).file (remoteSkt s.object) = some f
      rw [file_close_of_ne hne, file_close_of_ne hnew]
      exact file_acquire_of_some hfds hfile

end step

theorem invariant_of_run [DecidableEq F] {acceptor : F} {sfd eventFd : ℤ} {h : List (State F × Label F)} {s : State F}
    (r : Run (Step acceptor) (start sfd eventFd) h s) (hmeets : ∀ e ∈ h, Meets e.1 e.2) : Invariant s :=
  r.keeps (C := Meets) (I := fun _ t => Invariant t) (invariant_start sfd eventFd)
    (fun _ _ _ _ ht ha hs => ht.step ha hs) hmeets

/-- At every moment of a run the server agrees with its open sockets, ends well from there and accepts again
after a disconnection, exactly when each disconnection of the run finds nothing to close and each accept
by the loop finds no connection. -/
theorem faithful_iff [DecidableEq F] {acceptor : F} {sfd eventFd : ℤ} {h : List (State F × Label F)} {s : State F}
    (r : Run (Step acceptor) (start sfd eventFd) h s) :
    (∀ m ∈ moments h s, Faithful acceptor m.1 m.2) ↔ ∀ e ∈ h, Meets e.1 e.2 := by
  apply r.forall_moments_iff (C := Meets) (P := Faithful acceptor)
    (I := fun hist t => Invariant t ∧ ∀ e ∈ hist.head?, e.2 = .disconnect → t.object.self.connected = false)
  · exact ⟨invariant_start sfd eventFd, by simp⟩
  · rintro hist t ⟨ht, hagain⟩
    exact ht.faithful hagain
  · rintro hist t a t' ⟨ht, -⟩ hmeets hs
    refine ⟨ht.step hmeets hs, ?_⟩
    intro e he hdisconnect
    rw [List.head?_cons, Option.mem_some_iff] at he
    subst he
    obtain rfl : a = .disconnect := hdisconnect
    cases hs with
    | disconnect => exact hmeets.1
  · rintro hist t a t' ⟨ht, -⟩ hmeets hs
    cases a with
    | disconnect => exact ht.not_faithful_disconnect hmeets hs
    | dispatch afd => exact ht.not_faithful_dispatch hmeets hs
    | listenSync block afd => exact absurd trivial hmeets
    | listenAsync block => exact absurd trivial hmeets
    | answer keep => exact absurd trivial hmeets
    | around e => exact absurd trivial hmeets

def listening : State JobFunction := start 4 3

/-- It accepts descriptor 7. -/
theorem serving_run : ∃ h s, Run (Step .tcpSendRecvAsyncTpl) listening h s ∧ (∀ e ∈ h, Meets e.1 e.2) ∧
    s.object.self.connected = true := by
  have hlisten : Step .tcpSendRecvAsyncTpl listening (.listenSync 32 7) _ := .listenSync rfl (by decide) rfl
  refine ⟨_, _, .next (.next .start hlisten) (.answer true rfl), ?_, rfl⟩
  intro e he
  simp only [List.mem_cons, List.not_mem_nil, or_false] at he
  obtain rfl | rfl := he <;> trivial

theorem faithful_iff_serving : ∃ h s, Run (Step .tcpSendRecvAsyncTpl) listening h s ∧
    s.object.self.connected = true ∧ Faithful .tcpSendRecvAsyncTpl h s := by
  obtain ⟨h, s, r, hmeets, hconnected⟩ := serving_run
  exact ⟨h, s, r, hconnected, (faithful_iff r).mpr hmeets (h, s) (mem_moments h s)⟩

/-- The server is disconnected: its socket is closed, it says that it is connected, and does not listen. -/
theorem disconnected_still_connected : ∃ h s, Run (Step .tcpSendRecvAsyncTpl) listening h s ∧
    s.object.self.connected = true ∧ s.fds.stillOpen = [] ∧ ¬ Faithful .tcpSendRecvAsyncTpl h s := by
  obtain ⟨h, s, r, hmeets, hconnected⟩ := serving_run
  have hs := invariant_of_run r hmeets
  refine ⟨_, _, .next r .disconnect, hconnected, (hs.closeRemote hconnected).2.2.2, ?_⟩
  apply hs.not_faithful_disconnect _ .disconnect
  intro hidle
  exact absurd (hconnected.symm.trans hidle.1) (by decide)

end Chats.Network.OneToOne
