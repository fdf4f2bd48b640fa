import Chats.IoService.Interleaving
import Chats.Network.Objects

/-! # A server at work

Around a server, in any order: calls of the service by anyone, the turns of the loop that
dispatches the jobs, and whatever else the process does with descriptors. An accept is taken apart
where it calls back, since the callback may call operations of the server itself. -/
namespace Chats.Network
open Chats.Lib Chats.Lib.Descriptors Chats.IoService
set_option autoImplicit false

variable {F O K : Type}

/-- `callbacks` are the accepts whose callback has not returned, the innermost first; `progress` is how
far the job has come that the loop is in. -/
structure Serving (F O K : Type) where
  held : Held (Object F O)
  loop : Loop F
  progress : Progress
  callbacks : List K

namespace Serving

def object (s : Serving F O K) : Object F O := s.held.obj

def fds (s : Serving F O K) : Descriptors := s.held.obj.fds

end Serving

inductive Environment (F : Type)
  | request (q : IoService.Request F)
  | move (m : IoService.Move)
  | opened (fd : ℤ)
  | closed (fd : ℤ)

section steps
variable [DecidableEq F] (listener : O → ℤ) (acceptor : F)

/-- A job that is entered begins from the start; one that accepts returns when it has come to its end. -/
inductive Around : Serving F O K → Environment F → Serving F O K → Prop
  | request {s : Serving F O K} (q : IoService.Request F) :
      Around s (.request q) { s with held := s.held.update fun o => { o with svc := q.apply o.svc } }
  | move {s : Serving F O K} {m : IoService.Move} {r : Service F × Loop F} : turn s.object.svc s.loop m = some r →
      (∀ c, m = .back → s.loop = .invoking c → c.job = acceptor → s.progress = .done) →
      Around s (.move m) { s with
        held := s.held.update fun o => { o with svc := r.1 }
        loop := r.2
        progress := match m with
          | .call => .entered
          | _ => s.progress }
  | opened {s : Serving F O K} {fd : ℤ} {fds : Descriptors} : s.fds.opened fd = some fds →
      Around s (.opened fd) { s with held := s.held.update fun o => { o with fds } }
  | closed {s : Serving F O K} {fd : ℤ} : fd ≠ listener s.object.self → (∀ f ∈ s.fds.acquired, s.fds.file fd ≠ some f) →
      Around s (.closed fd) { s with held := s.held.update fun o => { o with fds := o.fds.dropped fd } }

/-- The server has a listening socket of its own besides what it has accepted. -/
structure Owns (d : Descriptors) (listener : ℤ) : Prop extends d.Sound where
  listening : ∃ g, d.file listener = some g ∧ g ∉ d.acquired

theorem Owns.aside {d d' : Descriptors} {listener : ℤ} (hd : Owns d listener) (h : Descriptors.Aside listener d d') :
    Owns d' listener := by
  refine ⟨h.sound, ?_⟩
  obtain ⟨g, hg, hown⟩ := hd.listening
  exact ⟨g, h.listening.trans hg, h.acquired_eq ▸ hown⟩

theorem Owns.acquire {d d' : Descriptors} {listener fd : ℤ} (hd : Owns d listener) (h : d.acquire fd = some d') :
    Owns d' listener := by
  refine ⟨hd.toSound.acquire h, ?_⟩
  obtain ⟨g, hg, hown⟩ := hd.listening
  refine ⟨g, file_acquire_of_some h hg, ?_⟩
  rw [acquired_acquire h, List.mem_append, List.mem_singleton, not_or]
  exact ⟨hown, (hd.old listener g hg).ne⟩

theorem Owns.close {d : Descriptors} {listener fd : ℤ} (hd : Owns d listener) (hne : fd ≠ listener) :
    Owns (d.close fd) listener := by
  refine ⟨hd.toSound.close fd, ?_⟩
  obtain ⟨g, hg, hown⟩ := hd.listening
  rw [← acquired_close d fd] at hown
  exact ⟨g, (file_close d fd listener g).mpr ⟨hne.symm, hg⟩, hown⟩

theorem Owns.ne_listener {d : Descriptors} {listener fd : ℤ} {f : ℕ} (hd : Owns d listener) (hfile : d.file fd = some f)
    (hf : f ∈ d.acquired) : fd ≠ listener := by
  obtain ⟨g, hg, hown⟩ := hd.listening
  rintro rfl
  rw [hfile, Option.some.injEq] at hg
  exact hown (hg ▸ hf)

theorem Owns.not_own {d : Descriptors} {listener : ℤ} (hd : Owns d listener) :
    ∀ f ∈ d.acquired, d.file listener ≠ some f :=
  fun _ hf hfile => hd.ne_listener hfile hf rfl

theorem owns_single (fd : ℤ) : Owns (Descriptors.single fd) fd :=
  ⟨sound_single fd, 0, by simp [single], List.not_mem_nil⟩

/-- The others change neither the server nor what it holds. -/
theorem Around.quiet {s s' : Serving F O K} {e : Environment F} (hs : Owns s.fds (listener s.object.self))
    (h : Around listener acceptor s e s') : s'.object.self = s.object.self ∧ s'.callbacks = s.callbacks ∧
      Descriptors.Aside (listener s.object.self) s.fds s'.fds := by
  cases h with
  | request q => exact ⟨rfl, rfl, hs.toSound.aside_refl _⟩
  | move hturn hreturns => exact ⟨rfl, rfl, hs.toSound.aside_refl _⟩
  | opened h =>
    obtain ⟨g, hg, -⟩ := hs.listening
    exact ⟨rfl, rfl, hs.toSound.aside_opened (by simp [hg]) h⟩
  | closed hne hown => exact ⟨rfl, rfl, hs.toSound.aside_dropped hne hown⟩

end steps

end Chats.Network
