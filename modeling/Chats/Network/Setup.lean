import Chats.Network.Client

/-! # Sockets set up

The sockets with which the servers and the client of `network/` begin. Each of the three functions
goes through the addresses that were found until one of them is bound. A socket that cannot be
bound is closed again; one on which `setsockopt` fails is not. -/
namespace Chats.Network.Setup
open Chats.Lib Chats.Lib.Descriptors Client
set_option autoImplicit false

/-! ## The servers -/

inductive LoopEnd
  | exhausted
  | notReusable
  | bound (fd : ℤ)

/-- The loop over the addresses. -/
def bindFirst (d : Descriptors) : List Attempt → Option (Descriptors × LoopEnd)
  | [] => some (d, .exhausted)
  | .noSocket :: as => bindFirst d as
  | .notReusable fd :: _ => (d.acquire fd).map fun d => (d, .notReusable)
  | .notBound fd :: as => (d.acquire fd).bind fun d => bindFirst (d.close fd) as
  | .bound fd :: _ => (d.acquire fd).map fun d => (d, .bound fd)

/-- What the set-up of a server meets: the addresses, and whether `listen` succeeds. `stale` is what the
new block holds in `server->local.skt`. -/
structure ServerMet where
  resolved : Option (List Attempt)
  listens : Bool
  stale : ℤ

/-- What the two servers have in common, from `getaddrinfo` on; the result has the socket of the
server, where one is returned. -/
def serverTcpInitTpl (m : ServerMet) (d : Descriptors) : Option (Descriptors × Option ℤ) :=
  match m.resolved with
  | none => some (d, none)
  | some as => (bindFirst d as).map fun r =>
    match r.2 with
    | .exhausted => (r.1, none)
    -- `fail_socket` closes the number in the struct, which is not assigned yet
    | .notReusable => (r.1.close m.stale, none)
    | .bound fd => if m.listens then (r.1, some fd) else (r.1.close fd, none)

/-- `otm_server_tcp_init`, for arguments that are there or not, and blocks that were allocated or not -/
def otmServerTcpInit (args server list : Bool) (m : ServerMet) (d : Descriptors) : Option (Descriptors × Option ℤ) :=
  if args ∧ server ∧ list then serverTcpInitTpl m d else some (d, none)

def otoServerTcpInit (args server : Bool) (m : ServerMet) (d : Descriptors) : Option (Descriptors × Option ℤ) :=
  if args ∧ server then serverTcpInitTpl m d else some (d, none)

/-! ## What becomes of the descriptors -/

/-- The socket at which the loop gives up, where it does. -/
def refused : List Attempt → Option ℤ
  | [] => none
  | .noSocket :: as => refused as
  | .notReusable fd :: _ => some fd
  | .notBound _ :: as => refused as
  | .bound _ :: _ => none

/-- One number more than before stands for a file, and that file is new. -/
def OneMore (d d' : Descriptors) (fd : ℤ) : Prop :=
  0 ≤ fd ∧ d.file fd = none ∧ ∃ f, d.fresh ≤ f ∧ d'.file = Function.update d.file fd (some f)

variable {d d₁ d' : Descriptors} {fd x : ℤ} {as : List Attempt}

theorem oneMore_acquire (h : d.acquire fd = some d') : OneMore d d' fd := by
  obtain ⟨h0, hfree, rfl⟩ := acquire_eq h
  exact ⟨h0, hfree, d.fresh, le_rfl, rfl⟩

theorem close_acquired (h : d.acquire fd = some d') : (d'.close fd).file = d.file ∧ d.fresh ≤ (d'.close fd).fresh := by
  obtain ⟨-, hfree, rfl⟩ := acquire_eq h
  refine ⟨?_, Nat.le_succ _⟩
  simp only [Descriptors.close, Descriptors.dropped, Function.update_idem]
  rw [← hfree, Function.update_eq_self]

theorem OneMore.of_same (h : OneMore d₁ d' fd) (hfile : d₁.file = d.file) (hfresh : d.fresh ≤ d₁.fresh) :
    OneMore d d' fd := by
  obtain ⟨h0, hfree, f, hf, hd'⟩ := h
  rw [hfile] at hfree hd'
  exact ⟨h0, hfree, f, hfresh.trans hf, hd'⟩

/-- Closing a number undoes the step exactly if it is the new one. -/
theorem OneMore.close_iff (h : OneMore d d' fd) (x : ℤ) : (d'.close x).file = d.file ↔ x = fd := by
  obtain ⟨-, hfree, f, -, hd'⟩ := h
  constructor
  · intro hsame
    by_contra hne
    have hfd := congrFun hsame fd
    rw [file_close_of_ne (Ne.symm hne), hd', Function.update_self, hfree] at hfd
    cases hfd
  · rintro rfl
    simp only [Descriptors.close, Descriptors.dropped, hd', Function.update_idem]
    rw [← hfree, Function.update_eq_self]

theorem OneMore.ne (h : OneMore d d' fd) : d'.file ≠ d.file := by
  obtain ⟨-, hfree, f, -, hd'⟩ := h
  intro hsame
  have hfd := congrFun hsame fd
  rw [hd', Function.update_self, hfree] at hfd
  cases hfd

/-- What the loop has done to the descriptors at its end. -/
def Ends (d d' : Descriptors) (as : List Attempt) : LoopEnd → Prop
  | .exhausted => d'.file = d.file ∧ refused as = none
  | .notReusable => ∃ fd, refused as = some fd ∧ OneMore d d' fd
  | .bound fd => refused as = none ∧ OneMore d d' fd

theorem Ends.of_same {e : LoopEnd} (h : Ends d₁ d' as e) (hfile : d₁.file = d.file) (hfresh : d.fresh ≤ d₁.fresh) :
    Ends d d' as e := by
  cases e with
  | exhausted => exact ⟨h.1.trans hfile, h.2⟩
  | notReusable =>
    obtain ⟨fd, href, hmore⟩ := h
    exact ⟨fd, href, hmore.of_same hfile hfresh⟩
  | bound fd => exact ⟨h.1, h.2.of_same hfile hfresh⟩

theorem bindFirst_ends {e : LoopEnd} (h : bindFirst d as = some (d', e)) : Ends d d' as e := by
  induction as generalizing d with
  | nil =>
    cases h
    exact ⟨rfl, rfl⟩
  | cons a as ih =>
    cases a with
    | noSocket => cases e <;> exact ih h
    | notReusable fd =>
      obtain ⟨d₁, h₁, heq⟩ := Option.map_eq_some_iff.mp h
      cases heq
      exact ⟨fd, rfl, oneMore_acquire h₁⟩
    | notBound fd =>
      obtain ⟨d₁, h₁, h⟩ := Option.bind_eq_some_iff.mp h
      obtain ⟨hfile, hfresh⟩ := close_acquired h₁
      have hends := (ih h).of_same hfile hfresh
      cases e <;> exact hends
    | bound fd =>
      obtain ⟨d₁, h₁, heq⟩ := Option.map_eq_some_iff.mp h
      cases heq
      exact ⟨rfl, oneMore_acquire h₁⟩

/-- The loop has given up at a socket, and `stale` is another number. -/
def Leaks (m : ServerMet) : Prop := ∃ as fd, m.resolved = some as ∧ refused as = some fd ∧ m.stale ≠ fd

theorem leaks_iff {m : ServerMet} (has : m.resolved = some as) :
    Leaks m ↔ ∃ fd, refused as = some fd ∧ m.stale ≠ fd := by
  constructor
  · rintro ⟨as', fd, has', hleak⟩
    obtain rfl := Option.some.inj (has.symm.trans has')
    exact ⟨fd, hleak⟩
  · rintro ⟨fd, hleak⟩
    exact ⟨as, fd, has, hleak⟩

/-- A socket that is returned is the one descriptor more, and without one the descriptors are as
before, but in the case `leaks`. -/
def SetUp (leaks : Prop) (d d' : Descriptors) (r : Option ℤ) : Prop :=
  (∀ fd, r = some fd → OneMore d d' fd) ∧ (r = none → (d'.file = d.file ↔ ¬ leaks))

theorem setUp_same {leaks : Prop} (h : ¬ leaks) (hfile : d'.file = d.file) : SetUp leaks d d' none :=
  ⟨nofun, fun _ => iff_of_true hfile h⟩

theorem serverTcpInitTpl_setUp {m : ServerMet} {r : Option ℤ} (h : serverTcpInitTpl m d = some (d', r)) :
    SetUp (Leaks m) d d' r := by
  unfold serverTcpInitTpl at h
  split at h
  · rename_i hnone
    cases h
    refine setUp_same ?_ rfl
    rintro ⟨as, fd, has, -⟩
    rw [hnone] at has
    cases has
  · rename_i as has
    obtain ⟨⟨d₁, e⟩, h₁, heq⟩ := Option.map_eq_some_iff.mp h
    have hends := bindFirst_ends h₁
    rw [leaks_iff has]
    cases e with
    | exhausted =>
      cases heq
      exact setUp_same (by simp [hends.2]) hends.1
    | notReusable =>
      cases heq
      obtain ⟨fd, href, hmore⟩ := hends
      refine ⟨nofun, fun _ => ?_⟩
      rw [hmore.close_iff]
      simp [href]
    | bound fd =>
      dsimp only at heq
      split_ifs at heq
      · cases heq
        exact ⟨fun fd' hfd => Option.some.inj hfd ▸ hends.2, nofun⟩
      · cases heq
        exact setUp_same (by simp [hends.1]) ((hends.2.close_iff fd).mpr rfl)

/-! ## The client -/

variable {F : Type} {o o' : Object F Client.ClientTcp}

/-- The addresses that `client_init_socket` goes through. -/
def attemptsOf (m : SocketMet) (c : Client.ClientTcp) : Option (List Attempt) :=
  if ¬ c.localAddr ∧ ¬ c.localPort then some [m.single] else m.resolved

theorem bindLoop_setUp {ok : Bool} (h : bindLoop o as = some (o', ok)) :
    SetUp (refused as ≠ none) o.fds o'.fds (if ok then some o'.self.local.skt else none) := by
  induction as generalizing o with
  | nil =>
    cases h
    exact setUp_same (by simp [refused]) rfl
  | cons a as ih =>
    cases a with
    | noSocket => exact ih h
    | notReusable fd =>
      obtain ⟨fds, hfds, heq⟩ := Option.map_eq_some_iff.mp h
      cases heq
      obtain ⟨h0, hfree, hfile⟩ := opened_eq hfds
      have hmore : OneMore o.fds fds fd := ⟨h0, hfree, o.fds.fresh, le_rfl, by rw [hfile]⟩
      exact ⟨nofun, fun _ => iff_of_false hmore.ne (by simp [refused])⟩
    | notBound fd =>
      obtain ⟨o₁, h₁, h⟩ := Option.bind_eq_some_iff.mp h
      obtain ⟨fds, hfds, rfl⟩ := Option.map_eq_some_iff.mp h₁
      obtain ⟨hfile, hfresh⟩ := close_acquired hfds
      obtain ⟨hsome, hnone⟩ := ih h
      have hclosed : (Object.close { o with fds } fd).fds.file = o.fds.file := hfile
      rw [hclosed] at hnone
      exact ⟨fun x hx => (hsome x hx).of_same hfile hfresh, hnone⟩
    | bound fd =>
      obtain ⟨o₁, h₁, heq⟩ := Option.map_eq_some_iff.mp h
      cases heq
      obtain ⟨fds, hfds, rfl⟩ := Option.map_eq_some_iff.mp h₁
      refine ⟨?_, nofun⟩
      rintro x ⟨⟩
      exact oneMore_acquire hfds

theorem clientInitSocket_setUp {m : SocketMet} {ok : Bool} (h : clientInitSocket m o = some (o', ok)) :
    SetUp (∃ as, attemptsOf m o.self = some as ∧ refused as ≠ none) o.fds o'.fds
      (if ok then some o'.self.local.skt else none) := by
  unfold clientInitSocket at h
  simp only at h
  by_cases hno : ¬ o.self.localAddr ∧ ¬ o.self.localPort
  · have hattempts : attemptsOf m o.self = some [m.single] := if_pos hno
    rw [if_pos hno] at h
    rw [hattempts]
    split at h
    · cases h
    · simpa using bindLoop_setUp h
  · have hattempts : attemptsOf m o.self = m.resolved := if_neg hno
    rw [if_neg hno] at h
    rw [hattempts]
    split at h
    · rename_i hnone
      cases h
      exact setUp_same (by simp [hnone]) rfl
    · rename_i as hsome
      simpa [hsome] using bindLoop_setUp h

/-- Of each set-up that succeeds, one new descriptor stays, that of the socket. One that fails
leaves the descriptors as they were, unless it gave up after `setsockopt`: then the socket stays
open, and a server also closes the number that its new block happens to hold. -/
theorem set_up_or_undone :
    (∀ (args server list : Bool) (m : ServerMet) (d d' : Descriptors) (r : Option ℤ),
      otmServerTcpInit args server list m d = some (d', r) → SetUp ((args ∧ server ∧ list) ∧ Leaks m) d d' r) ∧
    (∀ (args server : Bool) (m : ServerMet) (d d' : Descriptors) (r : Option ℤ),
      otoServerTcpInit args server m d = some (d', r) → SetUp ((args ∧ server) ∧ Leaks m) d d' r) ∧
    ∀ (m : SocketMet) (o o' : Object F Client.ClientTcp) (ok : Bool), clientInitSocket m o = some (o', ok) →
      SetUp (∃ as, attemptsOf m o.self = some as ∧ refused as ≠ none) o.fds o'.fds
        (if ok then some o'.self.local.skt else none) := by
  refine ⟨?_, ?_, fun m o o' ok h => clientInitSocket_setUp h⟩
  · intro args server list m d d' r h
    unfold otmServerTcpInit at h
    split_ifs at h with hreached
    · simpa [hreached] using serverTcpInitTpl_setUp h
    · cases h
      exact setUp_same (fun hleak => hreached hleak.1) rfl
  · intro args server m d d' r h
    unfold otoServerTcpInit at h
    split_ifs at h with hreached
    · simpa [hreached] using serverTcpInitTpl_setUp h
    · cases h
      exact setUp_same (fun hleak => hreached hleak.1) rfl

/-- A server on the second address after the first was taken, and no server when `setsockopt` fails. -/
theorem set_up_or_undone_two : ∃ d₁ d₂,
    otmServerTcpInit true true true ⟨some [.notBound 4, .bound 4], true, 0⟩ (single 3) = some (d₁, some 4) ∧
    OneMore (single 3) d₁ 4 ∧
    otoServerTcpInit true true ⟨some [.notReusable 4], true, 0⟩ (single 3) = some (d₂, none) ∧
    d₂.file ≠ (single 3).file := by
  obtain ⟨hotm, hoto, -⟩ := @set_up_or_undone Unit
  have h₁ : ∃ d, otmServerTcpInit true true true ⟨some [.notBound 4, .bound 4], true, 0⟩ (single 3) =
      some (d, some 4) :=
    ⟨_, rfl⟩
  have h₂ : ∃ d, otoServerTcpInit true true ⟨some [.notReusable 4], true, 0⟩ (single 3) = some (d, none) := ⟨_, rfl⟩
  obtain ⟨d₁, h₁⟩ := h₁
  obtain ⟨d₂, h₂⟩ := h₂
  refine ⟨d₁, d₂, h₁, (hotm _ _ _ _ _ _ _ h₁).1 4 rfl, h₂, ?_⟩
  rw [Ne, (hoto _ _ _ _ _ _ h₂).2 rfl, not_not]
  exact ⟨⟨rfl, rfl⟩, _, 4, rfl, rfl, by decide⟩

end Chats.Network.Setup
