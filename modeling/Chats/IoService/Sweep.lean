import Chats.Common.LinkedListRuns
import Chats.IoService.InterestSet

/-! # The sweep over the lookup table

The branch of `io_service_run` for `event_fd`, on the lookup table as it is in memory: a linked list,
out of which elements are taken while the loop is walking over it. It does to the list what the
handling of a notification does to the sequence. -/
namespace Chats.IoService
open Chats.Lib LinkedList
set_option autoImplicit false

variable {F : Type}

/-- `struct io_service`: the lookup table is the list at an address, `elements` the data behind the
headers. -/
structure IoServiceT (F : Type) where
  allowNew : Bool
  running : Bool
  eventFd : ℤ
  notified : ℕ
  lookupTable : UInt64
  mem : Memory
  elements : Store UInt64 (LookupTableElement F)
  epoll : Epoll

/-- The data of a block lasts as long as its header. -/
def dataBehind (m : Memory) (elements : Store UInt64 (LookupTableElement F)) (lte : UInt64) :
    Option (LookupTableElement F) := do
  let _ ← m.elements (getListElement lte)
  elements lte

/-- The loop from `lte` on; no list is longer than the first argument. -/
def sweepFrom (elements : Store UInt64 (LookupTableElement F)) (l : UInt64) :
    ℕ → Memory → Epoll → UInt64 → Option (Memory × Epoll)
  | 0, _, _, _ => none
  | n + 1, m, ep, lte =>
    if lte = 0 then some (m, ep)
    else do
      let e ← dataBehind m elements lte
      if e.events = 0 then do
        let (m, next) ← listRemoveNext m l lte
        sweepFrom elements l n m (ep.del e.fd) next
      else do
        let ep := match ep.mod e.fd e.events with
          | some ep => ep
          | none => ep.add e.fd e.events
        let next ← listNextElement m lte
        sweepFrom elements l n m ep next

/-- The branch of `io_service_run` for `event_fd` -/
def handleEventFd (s : IoServiceT F) : Option (IoServiceT F) := do
  let size ← listSize s.mem s.lookupTable
  let running := if size = 0 ∧ s.allowNew = false then false else s.running
  let lte ← listFirstElement s.mem s.lookupTable
  let (mem, epoll) ← sweepFrom s.elements s.lookupTable (2 ^ 64) s.mem s.epoll lte
  some { s with notified := s.notified - 1, running, mem, epoll }

/-! ## The sequence behind the list -/

/-- The lookup table has its elements at `xs`, and they are those of `table`. -/
structure Holds (s : IoServiceT F) (xs : List UInt64) (table : List (LookupTableElement F)) : Prop where
  list : WellFormed s.mem s.lookupTable xs
  data : xs.map (fun x => s.elements (payload x)) = table.map some

/-- The service as it is seen through the sequence of its elements. -/
def IoServiceT.service (s : IoServiceT F) (table : List (LookupTableElement F)) : Service F where
  allowNew := s.allowNew
  running := s.running
  eventFd := s.eventFd
  notified := s.notified
  lookupTable := table
  epoll := s.epoll

def Pending (e : LookupTableElement F) : Prop := e.events ≠ 0

instance (e : LookupTableElement F) : Decidable (Pending e) := inferInstanceAs (Decidable (e.events ≠ 0))

/-- The addresses of the elements that wait for events. -/
def pendingAt (elements : Store UInt64 (LookupTableElement F)) (xs : List UInt64) : List UInt64 :=
  xs.filter fun x => (elements (payload x)).any fun e => Pending e

section walk
variable {elements : Store UInt64 (LookupTableElement F)} {l z : UInt64} {m : Memory} {ys zs xs : List UInt64}
  {table : List (LookupTableElement F)} {e : LookupTableElement F}

theorem pendingAt_data (h : xs.map (fun x => elements (payload x)) = table.map some) :
    (pendingAt elements xs).map (fun x => elements (payload x)) = (table.filter fun e => Pending e).map some := by
  calc (pendingAt elements xs).map (fun x => elements (payload x))
      = (xs.map fun x => elements (payload x)).filter fun d => d.any fun e => Pending e := by
        rw [List.filter_map]
        rfl
    _ = (table.map some).filter fun d => d.any fun e => Pending e := by rw [h]
    _ = (table.filter fun e => Pending e).map some := by
        rw [List.filter_map]
        rfl

theorem payloadOrNull_of_mem (h : WellFormed m l xs) (hz : z ∈ xs) : payloadOrNull z = payload z :=
  if_neg (h.ne_zero hz)

theorem dataBehind_eq (h : WellFormed m l xs) (hz : z ∈ xs) :
    dataBehind m elements (payload z) = elements (payload z) := by
  obtain ⟨c, hc⟩ := Option.isSome_iff_exists.mp (h.isSome hz)
  rw [dataBehind, getListElement_payload, hc]
  rfl

/-- An element without events goes, and the walk goes on with the element behind it. -/
theorem sweepFrom_stale (h : WellFormed m l (ys ++ z :: zs)) (he : elements (payload z) = some e)
    (hevents : e.events = 0)
    (n : ℕ) (ep : Epoll) :
    ∃ m', sweepFrom elements l (n + 1) m ep (payload z) =
        sweepFrom elements l n m' (ep.del e.fd) (payloadOrNull (zs.headD 0)) ∧
      WellFormed m' l (ys ++ zs) ∧ OthersKept m m' l := by
  obtain ⟨m', hnext, _, _, h', hothers⟩ := h.remove
  have hz : z ∈ ys ++ z :: zs := by simp
  refine ⟨m', ?_, h', hothers⟩
  rw [sweepFrom, if_neg (h.data z hz), dataBehind_eq h hz, he, Option.bind_eq_bind, Option.bind_some,
    if_pos hevents, hnext]
  rfl

theorem sweepFrom_pending (h : WellFormed m l (ys ++ z :: zs)) (he : elements (payload z) = some e)
    (hevents : e.events ≠ 0)
    (n : ℕ) (ep : Epoll) :
    sweepFrom elements l (n + 1) m ep (payload z) =
      sweepFrom elements l n m ((ep.mod e.fd e.events).getD (ep.add e.fd e.events)) (payloadOrNull (zs.headD 0)) := by
  have hz : z ∈ ys ++ z :: zs := by simp
  rw [sweepFrom, if_neg (h.data z hz), dataBehind_eq h hz, he, Option.bind_eq_bind, Option.bind_some, if_neg hevents,
    h.iterate.1, Option.bind_eq_bind, Option.bind_some]
  cases ep.mod e.fd e.events <;> rfl

/-- Behind the walk are the elements that it kept, before it the rest of the list. -/
theorem sweepFrom_spec (h : WellFormed m l (ys ++ zs)) (hdata : zs.map (fun x => elements (payload x)) = table.map some)
    (ep : Epoll) {n : ℕ} (hn : zs.length < n) :
    ∃ m', sweepFrom elements l n m ep (payloadOrNull (zs.headD 0)) = some (m', (refresh ep table).1) ∧
      WellFormed m' l (ys ++ pendingAt elements zs) ∧ OthersKept m m' l := by
  induction zs generalizing table ys m ep n with
  | nil =>
    obtain rfl : table = [] := by simpa using hdata.symm
    obtain ⟨n, rfl⟩ := Nat.exists_eq_succ_of_ne_zero (Nat.ne_of_gt hn)
    exact ⟨m, rfl, h, fun _ _ _ hk => hk⟩
  | cons z zs ih =>
    obtain ⟨n, rfl⟩ := Nat.exists_eq_succ_of_ne_zero (Nat.ne_of_gt (Nat.zero_lt_of_lt hn))
    cases table with
    | nil => cases hdata
    | cons e table =>
      rw [List.map_cons, List.map_cons, List.cons.injEq] at hdata
      obtain ⟨he, hrest⟩ := hdata
      have hlt : zs.length < n := by simpa using hn
      rw [List.headD_cons, payloadOrNull_of_mem h (by simp), refresh]
      by_cases hevents : e.events = 0
      · obtain ⟨m₁, e₁, h₁, hothers₁⟩ := sweepFrom_stale h he hevents n ep
        obtain ⟨m₂, e₂, h₂, hothers₂⟩ := ih h₁ hrest (ep.del e.fd) hlt
        have hgone : pendingAt elements (z :: zs) = pendingAt elements zs :=
          List.filter_cons_of_neg (by simp [he, Pending, hevents])
        refine ⟨m₂, ?_, hgone ▸ h₂, fun k ws hk hws => hothers₂ k ws hk (hothers₁ k ws hk hws)⟩
        rw [e₁, e₂, if_pos hevents]
      · have hkept : pendingAt elements (z :: zs) = z :: pendingAt elements zs :=
          List.filter_cons_of_pos (by simp [he, Pending, hevents])
        have h₁ : WellFormed m l ((ys ++ [z]) ++ zs) := by simpa using h
        obtain ⟨m₂, e₂, h₂, hothers₂⟩ := ih h₁ hrest ((ep.mod e.fd e.events).getD (ep.add e.fd e.events)) hlt
        refine ⟨m₂, ?_, ?_, hothers₂⟩
        · rw [sweepFrom_pending h he hevents, e₂, if_neg hevents]
        · rw [hkept]
          simpa using h₂

end walk

/-! ## A notification -/

section notification
variable {s : IoServiceT F} {xs : List UInt64} {table : List (LookupTableElement F)}

theorem Holds.size (h : Holds s xs table) : ∃ n, listSize s.mem s.lookupTable = some n ∧ (n = 0 ↔ table = []) := by
  obtain ⟨n, e, hn⟩ := h.list.size
  have hlen : xs.length = table.length := by simpa using congrArg List.length h.data
  refine ⟨n, e, ?_⟩
  rw [← UInt64.toNat_inj, hn, hlen, UInt64.toNat_zero, List.length_eq_zero_iff]

/-- The loop over the list does what `handleNotification` does to the sequence. -/
theorem Holds.handleEventFd (h : Holds s xs table) :
    ∃ s', IoService.handleEventFd s = some s' ∧ Holds s' (pendingAt s.elements xs) (table.filter fun e => Pending e) ∧
      s'.elements = s.elements ∧ OthersKept s.mem s'.mem s.lookupTable ∧
      s'.service (table.filter fun e => Pending e) = handleNotification (s.service table) := by
  obtain ⟨size, esize, hsize⟩ := h.size
  obtain ⟨m, e, hm, hothers⟩ :=
    sweepFrom_spec (show WellFormed _ _ ([] ++ xs) from h.list) h.data s.epoll h.list.length_lt
  have hrunning : (if size = 0 ∧ s.allowNew = false then false else s.running) =
      (s.running && !(table.isEmpty && !s.allowNew)) := by
    simp only [hsize, ← List.isEmpty_iff]
    cases table.isEmpty <;> cases s.allowNew <;> simp
  have hrun : IoService.handleEventFd s = some { s with
      notified := s.notified - 1
      running := s.running && !(table.isEmpty && !s.allowNew)
      mem := m
      epoll := (refresh s.epoll table).1 } := by
    unfold IoService.handleEventFd
    rw [esize, h.list.ends.1]
    simp only [Option.bind_eq_bind, Option.bind_some, e, hrunning]
  refine ⟨_, hrun, ⟨hm, pendingAt_data h.data⟩, rfl, hothers, ?_⟩
  unfold handleNotification IoServiceT.service
  simp only [refresh_table]
  rfl

/-- Of a descriptor in the table the events are registered if there are any, and of no other anything. -/
theorem refresh_registers_iff (hunique : (table.map (·.fd)).Nodup) (ep : Epoll) {fd : ℤ}
    (hcovered : ep fd ≠ none → fd ∈ table.map (·.fd)) (mask : UInt32) :
    (refresh ep table).1 fd = some mask ↔ ∃ e ∈ table, Pending e ∧ e.fd = fd ∧ e.events = mask := by
  rw [refresh_epoll hunique]
  cases hfind : findKey (·.fd) fd table with
  | none =>
    have hnot : fd ∉ table.map (·.fd) := findKey_eq_none.mp hfind
    have hnone : ep fd = none := by
      by_contra hsome
      exact hnot (hcovered hsome)
    refine iff_of_false (by simp [hnone]) ?_
    intro hex
    obtain ⟨e, he, -, hfd, -⟩ := hex
    exact hnot (hfd ▸ List.mem_map_of_mem he)
  | some e =>
    obtain ⟨he, rfl⟩ := findKey_some hfind
    have honly : ∀ e' ∈ table, e'.fd = e.fd → e' = e := by
      intro e' he' hfd
      have hfind' := findKey_of_mem hunique he'
      rw [hfd, hfind, Option.some.injEq] at hfind'
      exact hfind'.symm
    by_cases hevents : e.events = 0
    · refine iff_of_false (by simp [hevents]) ?_
      intro hex
      obtain ⟨e', he', hpending, hfd, -⟩ := hex
      exact hpending (honly e' he' hfd ▸ hevents)
    · simp only [if_neg hevents, Option.some.injEq]
      constructor
      · intro hmask
        exact ⟨e, he, hevents, rfl, hmask⟩
      · intro hex
        obtain ⟨e', he', -, hfd, hmask⟩ := hex
        exact honly e' he' hfd ▸ hmask

/-- After a notification the table has the elements that wait for events, in their order, and apart
from `event_fd` the interest set has their descriptors, each with its events. -/
theorem notification_syncs (s : IoServiceT F) (xs : List UInt64) (table : List (LookupTableElement F))
    (h : Holds s xs table) (hunique : (table.map (·.fd)).Nodup) (heventFd : s.eventFd ∉ table.map (·.fd))
    (hcovered : ∀ fd, s.epoll fd ≠ none → fd = s.eventFd ∨ fd ∈ table.map (·.fd)) :
    ∃ s', handleEventFd s = some s' ∧ Holds s' (pendingAt s.elements xs) (table.filter fun e => Pending e) ∧
      s'.elements = s.elements ∧
      (∀ fd mask, fd ≠ s.eventFd →
        (s'.epoll fd = some mask ↔ ∃ e ∈ table, Pending e ∧ e.fd = fd ∧ e.events = mask)) ∧
      s'.epoll s.eventFd = s.epoll s.eventFd := by
  obtain ⟨s', e, h', helements, -, hservice⟩ := h.handleEventFd
  have hepoll : s'.epoll = (refresh s.epoll table).1 := congrArg Service.epoll hservice
  refine ⟨s', e, h', helements, ?_, ?_⟩
  · intro fd mask hfd
    rw [hepoll]
    exact refresh_registers_iff hunique s.epoll (fun hsome => (hcovered fd hsome).resolve_left hfd) mask
  · rw [hepoll, refresh_epoll hunique, findKey_eq_none.mpr heventFd]

def awaited : LookupTableElement ℕ := (LookupTableElement.new 6).set .read { job := some 1, ctx := 0, oneshot := false }

/-- The element of 5 has lost its job and is registered still; nobody has registered 6 yet. -/
def lagging (m : Memory) : IoServiceT ℕ where
  allowNew := true
  running := true
  eventFd := 3
  notified := 1
  lookupTable := 8
  mem := m
  elements := Function.update (Function.update (fun _ => none) 88 (some (.new 5))) 152 (some awaited)
  epoll := Function.update (Epoll.add (fun _ => none) 3 epollIn) 5 (some epollIn)

theorem notification_syncs_two : ∃ m s', Holds (lagging m) [64, 128] [.new 5, awaited] ∧
    handleEventFd (lagging m) = some s' ∧ Holds s' [128] [awaited] ∧
    (∀ mask, s'.epoll 5 ≠ some mask) ∧ s'.epoll 6 = some epollIn := by
  obtain ⟨m, -, hm⟩ := listAppend_spec (b := ⟨128, 0, 0, 0⟩) single_wellFormed ⟨by decide, by decide, rfl⟩
  have h : Holds (lagging m) [64, 128] [.new 5, awaited] := ⟨hm.after, rfl⟩
  have hcovered : ∀ fd, (lagging m).epoll fd ≠ none → fd = (3 : ℤ) ∨ fd ∈ ([5, 6] : List ℤ) := by
    intro fd hsome
    by_cases hfd : fd = 5
    · exact Or.inr (hfd ▸ List.mem_cons_self)
    · refine Or.inl ?_
      by_contra hne
      apply hsome
      exact (Function.update_of_ne hfd ..).trans ((add_first 3 epollIn fd).trans (if_neg hne))
  obtain ⟨s', e, h', -, hepoll, -⟩ :=
    notification_syncs (lagging m) _ _ h (by decide) (show (3 : ℤ) ∉ [5, 6] by decide) hcovered
  refine ⟨m, s', h, e, h', ?_, ?_⟩
  · intro mask hmask
    obtain ⟨e, he, hpending, hfd, -⟩ := (hepoll 5 mask (show (5 : ℤ) ≠ 3 by decide)).mp hmask
    rcases List.mem_pair.mp he with rfl | rfl
    · exact hpending rfl
    · cases hfd
  · refine (hepoll 6 epollIn (show (6 : ℤ) ≠ 3 by decide)).mpr ⟨awaited, ?_, by decide, rfl, rfl⟩
    exact List.mem_cons_of_mem _ List.mem_cons_self

end notification

end Chats.IoService
