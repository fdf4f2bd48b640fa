import Chats.IoService.Moves

/-! # The interest set and the lookup table

`epoll` keeps a copy of the masks of the table. The handling of a notification brings it up to date,
and between notifications the loop itself empties elements and takes them out. What it does not tell
`epoll` is that an element has lost one of two jobs: the descriptor is stale from then on. -/
namespace Chats.IoService
open Chats.Lib
set_option autoImplicit false

variable {F : Type}

def Synced (s : Service F) (fd : ℤ) : Prop :=
  match s.find fd with
  | some e => s.epoll fd = some e.events
  | none => fd = s.eventFd ∨ s.epoll fd = none

theorem synced_some {s : Service F} {fd : ℤ} {e : LookupTableElement F} (hfind : s.find fd = some e)
    (hepoll : s.epoll fd = some e.events) : Synced s fd := by
  unfold Synced
  rwa [hfind]

theorem synced_none {s : Service F} {fd : ℤ} (hfind : s.find fd = none)
    (hepoll : fd = s.eventFd ∨ s.epoll fd = none) : Synced s fd := by
  unfold Synced
  rwa [hfind]

/-- Every element's mask is registered, and apart from `event_fd` nothing else is. -/
def Agrees (s : Service F) : Prop :=
  (∀ e ∈ s.lookupTable, s.epoll e.fd = some e.events) ∧
    ∀ fd, s.epoll fd ≠ none → fd = s.eventFd ∨ fd ∈ s.lookupTable.map (·.fd)

/-- The loop is about to block: no notification is pending. -/
def State.Blocks (s : State F) : Prop := s.loop = .waiting ∧ s.svc.notified = 0

theorem agrees_iff {s : Service F} (hv : Valid s.lookupTable) : Agrees s ↔ ∀ fd, Synced s fd := by
  constructor
  · intro h fd
    unfold Synced
    cases hfind : s.find fd with
    | some e =>
      obtain ⟨hmem, hfd⟩ := findKey_some hfind
      simp only
      rw [← hfd]
      exact h.1 e hmem
    | none =>
      by_contra hnot
      obtain ⟨hne, hsome⟩ := not_or.mp hnot
      cases h.2 fd hsome with
      | inl heq => exact hne heq
      | inr hmem => exact findKey_eq_none.mp hfind hmem
  · intro h
    constructor
    · intro e he
      have hsynced := h e.fd
      have hfind : s.find e.fd = some e := findKey_of_mem hv.unique he
      unfold Synced at hsynced
      rwa [hfind] at hsynced
    · intro fd hsome
      have hsynced := h fd
      unfold Synced at hsynced
      cases hfind : s.find fd with
      | some e =>
        obtain ⟨hmem, hfd⟩ := findKey_some hfind
        exact Or.inr (hfd ▸ List.mem_map_of_mem hmem)
      | none =>
        rw [hfind] at hsynced
        exact Or.inl (hsynced.resolve_right hsome)

/-! ## `epoll_ctl` over the whole table -/

theorem mod_or_add (ep : Epoll) (fd : ℤ) (events : UInt32) :
    (ep.mod fd events).getD (ep.add fd events) = Function.update ep fd (some events) := by
  unfold Epoll.mod Epoll.add
  cases h : ep fd with
  | none => simp
  | some mask => simp

theorem add_first (eventFd : ℤ) (events : UInt32) (fd : ℤ) :
    Epoll.add (fun _ => none) eventFd events fd = if fd = eventFd then some events else none := by
  unfold Epoll.add
  rw [if_neg (by simp), Function.update_apply]

theorem refresh_epoll {table : List (LookupTableElement F)} (hn : (table.map (·.fd)).Nodup) (ep : Epoll)
    (fd : ℤ) : (refresh ep table).1 fd =
      match findKey (·.fd) fd table with
      | some e => if e.events = 0 then none else some e.events
      | none => ep fd := by
  induction table generalizing ep with
  | nil => rfl
  | cons e table ih =>
    rw [List.map_cons, List.nodup_cons] at hn
    have hrest : ∀ mask, (refresh (Function.update ep e.fd mask) table).1 fd =
        if e.fd = fd then mask else (refresh ep table).1 fd := by
      intro mask
      rw [ih hn.2, ih hn.2]
      by_cases hfd : e.fd = fd
      · have hnone : findKey (·.fd) fd table = none := findKey_eq_none.mpr (hfd ▸ hn.1)
        rw [hnone, if_pos hfd, hfd]
        exact Function.update_self fd mask ep
      · rw [if_neg hfd, Function.update_of_ne (Ne.symm hfd)]
    unfold refresh
    by_cases hzero : e.events = 0
    · rw [if_pos hzero]
      unfold Epoll.del
      rw [hrest none]
      by_cases hfd : e.fd = fd
      · rw [if_pos hfd, findKey_cons_self table hfd]
        simp only [hzero, if_true]
      · rw [if_neg hfd, findKey_cons_ne table hfd, ih hn.2]
    · rw [if_neg hzero, mod_or_add]
      simp only
      rw [hrest (some e.events)]
      by_cases hfd : e.fd = fd
      · rw [if_pos hfd, findKey_cons_self table hfd]
        simp only [hzero, if_false]
      · rw [if_neg hfd, findKey_cons_ne table hfd, ih hn.2]

/-- A descriptor that is registered keeps its mask. -/
theorem add_all_epoll (table : List (LookupTableElement F)) (ep : Epoll) (fd : ℤ) :
    table.foldl (fun ep e => ep.add e.fd e.events) ep fd =
      (ep fd).or ((findKey (·.fd) fd table).map (·.events)) := by
  induction table generalizing ep with
  | nil => simp [findKey]
  | cons e table ih =>
    rw [List.foldl_cons, ih]
    unfold Epoll.add
    by_cases hfd : e.fd = fd
    · rw [findKey_cons_self table hfd, hfd]
      cases h : ep fd with
      | none => simp
      | some mask => simp [h]
    · rw [findKey_cons_ne table hfd]
      split_ifs
      · rfl
      · rw [Function.update_of_ne (Ne.symm hfd)]

/-! ## Stale descriptors -/

section stale
variable [DecidableEq F]

/-- A one-shot job is dispatched while the descriptor's other job stays. -/
def HalfTaken (fd : ℤ) (s : State F) (a : Action F) : Prop :=
  ∃ c p op, Decides c s a ∧ c.fd = fd ∧ registry s.svc (fd, c.op) = some p ∧ p.oneshot = true ∧
    op ≠ c.op ∧ registry s.svc (fd, op) ≠ none

/-- The loop is entered with jobs for `event_fd` itself, which is registered for reading already. -/
def Refused (fd : ℤ) (s : State F) (a : Action F) : Prop :=
  a = .move .run ∧ fd = s.svc.eventFd ∧ ∃ e, s.svc.find fd = some e ∧ e.events ≠ epollIn

/-- A notification is handled, or the descriptor's last job is dispatched and is one-shot. -/
def Refreshed (fd : ℤ) (s : State F) (a : Action F) : Prop :=
  (∃ events, a = .move (.wake s.svc.eventFd events)) ∨
    ∃ c p, Decides c s a ∧ c.fd = fd ∧ registry s.svc (fd, c.op) = some p ∧ p.oneshot = true ∧
      ∀ op, op ≠ c.op → registry s.svc (fd, op) = none

def Stale (fd : ℤ) : List (State F × Action F) → Prop :=
  Since (fun s a => HalfTaken fd s a ∨ Refused fd s a) (Refreshed fd)

omit [DecidableEq F] in
/-- What `epoll` has for a stale descriptor is not what the table has. -/
def Behind (s : Service F) (fd : ℤ) : Prop :=
  ∃ e, s.find fd = some e ∧ s.epoll fd = some (if fd = s.eventFd then epollIn else flags true true) ∧
    e.events ≠ if fd = s.eventFd then epollIn else flags true true

omit [DecidableEq F] in
theorem Behind.not_synced {s : Service F} {fd : ℤ} (h : Behind s fd) : ¬ Synced s fd := by
  obtain ⟨e, hfind, hepoll, hne⟩ := h
  unfold Synced
  rw [hfind]
  simp only
  rw [hepoll]
  intro heq
  exact hne (Option.some.inj heq).symm

omit [DecidableEq F] in
/-- A descriptor lags behind if it is stale, and otherwise not. -/
def Tracks (s : Service F) (fd : ℤ) (stale : Prop) : Prop := (stale → Behind s fd) ∧ (¬ stale → Synced s fd)

omit [DecidableEq F] in
theorem Tracks.frame {s s' : Service F} {fd : ℤ} {stale stale' : Prop} (h : Tracks s fd stale)
    (hfind : s'.find fd = s.find fd) (hepoll : s'.epoll fd = s.epoll fd) (heventFd : s'.eventFd = s.eventFd)
    (hstale : stale' ↔ stale) : Tracks s' fd stale' := by
  unfold Tracks Behind Synced at h ⊢
  rwa [hfind, hepoll, heventFd, hstale]

theorem stale_request {fd : ℤ} {s : State F} {q : Request F} {h : List (State F × Action F)} :
    Stale fd ((s, .request q) :: h) ↔ Stale fd h := by
  unfold Stale
  simp [HalfTaken, Refused, Refreshed, not_decides_request]

/-- A move that does not change the table leaves every descriptor as it was. -/
theorem stale_same {fd : ℤ} {s s' : State F} {m : Move} {h : List (State F × Action F)}
    (hstep : Step s (.move m) s') (hrun : m ≠ .run) (hwake : ∀ events, m ≠ .wake s.svc.eventFd events)
    (hidle : ∀ c p, s'.loop = .picked c → c.fd = fd → registry s.svc (c.fd, c.op) = some p → p.oneshot = false) :
    Stale fd ((s, .move m) :: h) ↔ Stale fd h := by
  have hsets : ¬ (HalfTaken fd s (.move m) ∨ Refused fd s (.move m)) := by
    intro hsets
    cases hsets with
    | inl hhalf =>
      obtain ⟨c, p, op, hc, rfl, hreg, hone, -⟩ := hhalf
      have hfalse := hidle c p ((decides_iff hstep c).mp hc) rfl hreg
      rw [hone] at hfalse
      cases hfalse
    | inr hrefused => exact hrun (Action.move.inj hrefused.1)
  have hends : ¬ Refreshed fd s (.move m) := by
    intro hends
    cases hends with
    | inl hnotified =>
      obtain ⟨events, heq⟩ := hnotified
      exact hwake events (Action.move.inj heq)
    | inr hlast =>
      obtain ⟨c, p, hc, rfl, hreg, hone, -⟩ := hlast
      have hfalse := hidle c p ((decides_iff hstep c).mp hc) rfl hreg
      rw [hone] at hfalse
      cases hfalse
  unfold Stale
  rw [since_cons, or_iff_right hsets, and_iff_left hends]

/-- What the steps keep of the two copies. -/
structure Tracked (h : List (State F × Action F)) (s : State F) : Prop extends Awake s where
  idle : s.loop = .idle → s.svc.epoll = Epoll.add (fun _ => none) s.svc.eventFd epollIn ∧ ∀ fd, ¬ Stale fd h
  covered : ∀ fd, s.svc.epoll fd ≠ none → fd = s.svc.eventFd ∨ fd ∈ s.svc.lookupTable.map (·.fd)
  calls : ∀ c, s.loop = .picked c ∨ s.loop = .invoking c → c.fd ≠ s.svc.eventFd
  tracks : s.loop.Active → s.svc.notified = 0 → ∀ fd, Tracks s.svc fd (Stale fd h)

theorem tracked_start (eventFd : ℤ) : Tracked [] (start (F := F) eventFd) := by
  refine ⟨awake_start eventFd, fun _ => ⟨rfl, fun _ => since_nil⟩, ?_, by simp [start], fun hactive => hactive.elim⟩
  intro fd hsome
  refine Or.inl ?_
  by_contra hne
  apply hsome
  exact (add_first eventFd epollIn fd).trans (if_neg hne)

theorem Tracked.request {h : List (State F × Action F)} {s : State F} (hs : Tracked h s) (q : Request F) :
    Tracked ((s, .request q) :: h) { s with svc := q.apply s.svc } := by
  obtain ⟨heventFd, hepoll, -⟩ := apply_frame s.svc q
  refine ⟨hs.step (a := .request q) rfl, ?_, ?_, ?_, ?_⟩
  · intro hloop
    obtain ⟨hadd, hfresh⟩ := hs.idle hloop
    refine ⟨?_, fun fd => ?_⟩
    · simp only
      rw [hepoll, heventFd, hadd]
    · rw [stale_request]
      exact hfresh fd
  · intro fd hsome
    simp only at hsome ⊢
    rw [hepoll] at hsome
    rw [heventFd]
    exact (hs.covered fd hsome).imp_right (fds_apply s.svc q)
  · intro c hc
    simp only
    rw [heventFd]
    exact hs.calls c hc
  · intro hactive hz fd
    have hquiet := hs.quiet hactive hz
    simp only at hz ⊢
    rw [hquiet] at hz ⊢
    rw [stale_request]
    exact hs.tracks hactive hz fd

theorem Tracked.calls_next {h : List (State F × Action F)} {s s' : State F} {m : Move} (hs : Tracked h s)
    (hstep : Step s (.move m) s') (heventFd : s'.svc.eventFd = s.svc.eventFd) :
    ∀ c, s'.loop = .picked c ∨ s'.loop = .invoking c → c.fd ≠ s'.svc.eventFd := by
  intro c hc
  rw [heventFd]
  exact turn_fd (step_move hstep).2 hs.calls hc

theorem Tracked.run {h : List (State F × Action F)} {s : State F} (hs : Tracked h s) (hloop : s.loop = .idle)
    (hstep : Step s (.move .run) { svc := (ioServiceRun s.svc).1, loop := .waiting }) :
    Tracked ((s, .move .run) :: h) { svc := (ioServiceRun s.svc).1, loop := .waiting } := by
  obtain ⟨hadd, hfresh⟩ := hs.idle hloop
  have hepoll : ∀ fd, (ioServiceRun s.svc).1.epoll fd =
      (if fd = s.svc.eventFd then some epollIn else none).or ((s.svc.find fd).map (·.events)) := by
    intro fd
    rw [← add_first, ← hadd]
    exact add_all_epoll s.svc.lookupTable s.svc.epoll fd
  have hstale : ∀ fd, Stale fd ((s, .move .run) :: h) ↔ Refused fd s (.move .run) := by
    intro fd
    have hhalf : ¬ HalfTaken fd s (.move .run) := by
      intro hhalf
      obtain ⟨c, p, op, hc, -⟩ := hhalf
      cases (decides_iff hstep c).mp hc
    unfold Stale
    rw [since_cons, or_iff_right hhalf, or_iff_left fun hold => hfresh fd hold.1]
  refine ⟨hs.step hstep, by simp, ?_, by simp, ?_⟩
  · intro fd hsome
    simp only at hsome ⊢
    rw [hepoll] at hsome
    by_cases hfd : fd = s.svc.eventFd
    · exact Or.inl hfd
    · rw [if_neg hfd, Option.none_or, Option.map_eq_none_iff.ne] at hsome
      refine Or.inr ?_
      by_contra hnot
      exact hsome (findKey_eq_none.mpr hnot)
  · intro _ _ fd
    rw [hstale]
    have hepoll' := hepoll fd
    by_cases hfd : fd = s.svc.eventFd
    · rw [if_pos hfd, Option.some_or] at hepoll'
      constructor
      · intro hrefused
        obtain ⟨-, -, e, hfind, hne⟩ := hrefused
        refine ⟨e, hfind, ?_⟩
        show _ = some (if fd = s.svc.eventFd then _ else _) ∧ e.events ≠ if fd = s.svc.eventFd then _ else _
        rw [if_pos hfd]
        exact ⟨hepoll', hne⟩
      · intro haccepted
        cases hfind : s.svc.find fd with
        | none => exact synced_none hfind (Or.inl hfd)
        | some e =>
          have hevents : e.events = epollIn := by
            by_contra hne
            exact haccepted ⟨rfl, hfd, e, hfind, hne⟩
          exact synced_some hfind (hevents ▸ hepoll')
    · rw [if_neg hfd, Option.none_or] at hepoll'
      refine ⟨fun hrefused => absurd hrefused.2.1 hfd, fun _ => ?_⟩
      cases hfind : s.svc.find fd with
      | none =>
        rw [hfind] at hepoll'
        exact synced_none hfind (Or.inr hepoll')
      | some e =>
        rw [hfind] at hepoll'
        exact synced_some hfind hepoll'

omit [DecidableEq F] in
/-- After a notification an element with events is as it was and registered with them; the others are
gone, from the interest set as well if there was one. -/
theorem notified_cases {s : Service F} (hv : Valid s.lookupTable) (fd : ℤ) :
    (∃ e, (handleNotification s).find fd = some e ∧ (handleNotification s).epoll fd = some e.events) ∨
      ((handleNotification s).find fd = none ∧
        ((handleNotification s).epoll fd = none ∨
          (s.find fd = none ∧ (handleNotification s).epoll fd = s.epoll fd))) := by
  have hmask := refresh_epoll hv.unique s.epoll fd
  have hfind := find_handleNotification hv fd
  change _ = match s.find fd with
    | some e => if e.events = 0 then none else some e.events
    | none => s.epoll fd at hmask
  cases hold : s.find fd with
  | none =>
    rw [hold] at hfind hmask
    exact Or.inr ⟨hfind, Or.inr ⟨rfl, hmask⟩⟩
  | some e =>
    rw [hold] at hfind hmask
    dsimp only at hmask
    by_cases hzero : e.events = 0
    · rw [if_pos hzero] at hmask
      rw [Option.filter_some_neg (by simpa using hzero)] at hfind
      exact Or.inr ⟨hfind, Or.inl hmask⟩
    · rw [if_neg hzero] at hmask
      rw [Option.filter_some_pos (by simpa using hzero)] at hfind
      exact Or.inl ⟨e, hfind, hmask⟩

theorem not_stale_notified {h : List (State F × Action F)} {s s' : State F} {events : UInt32}
    (hstep : Step s (.move (.wake s.svc.eventFd events)) s')
    (hs' : s' = { svc := handleNotification s.svc, loop := (whileRunning (handleNotification s.svc)).2 }) (fd : ℤ) :
    ¬ Stale fd ((s, .move (.wake s.svc.eventFd events)) :: h) := by
  intro hstale
  unfold Stale at hstale
  rw [since_cons] at hstale
  obtain (hhalf | hrefused) | ⟨-, hnot⟩ := hstale
  · obtain ⟨c, p, op, hc, -⟩ := hhalf
    have hloop := (decides_iff hstep c).mp hc
    rw [hs'] at hloop
    exact whileRunning_ne_picked (handleNotification s.svc) c hloop
  · cases hrefused.1
  · exact hnot (Or.inl ⟨events, rfl⟩)

theorem Tracked.notified {h : List (State F × Action F)} {s s' : State F} {events : UInt32} (hs : Tracked h s)
    (hstep : Step s (.move (.wake s.svc.eventFd events)) s')
    (hs' : s' = { svc := handleNotification s.svc, loop := (whileRunning (handleNotification s.svc)).2 }) :
    Tracked ((s, .move (.wake s.svc.eventFd events)) :: h) s' := by
  have hfresh : ∀ fd, ¬ Stale fd ((s, .move (.wake s.svc.eventFd events)) :: h) := not_stale_notified hstep hs'
  have hidle : s'.loop ≠ .idle := move_not_idle hs.valid hstep
  have hvalid := hs.step hstep
  have hcalls := hs.calls_next hstep (congrArg (fun t => t.svc.eventFd) hs')
  rw [hs'] at hvalid hidle hcalls ⊢
  refine ⟨hvalid, fun h => absurd h hidle, ?_, hcalls, ?_⟩
  · intro fd hsome
    obtain ⟨e, hfind, -⟩ | ⟨-, hgone | ⟨hnone, hsame⟩⟩ := notified_cases hs.valid fd
    · obtain ⟨hmem, hfd⟩ := findKey_some hfind
      exact Or.inr (hfd ▸ List.mem_map_of_mem hmem)
    · exact absurd hgone hsome
    · exact (hs.covered fd (hsame ▸ hsome)).imp_right fun hmem => absurd hmem (findKey_eq_none.mp hnone)
  · intro _ _ fd
    refine ⟨fun hstale => absurd hstale (hfresh fd), fun _ => ?_⟩
    obtain ⟨e, hfind, hmask⟩ | ⟨hnew, hgone | ⟨hnone, hsame⟩⟩ := notified_cases hs.valid fd
    · exact synced_some hfind hmask
    · exact synced_none hnew (Or.inr hgone)
    · apply synced_none hnew
      by_cases hsome : s.svc.epoll fd = none
      · exact Or.inr (hsame.trans hsome)
      · exact Or.inl ((hs.covered fd hsome).resolve_right (findKey_eq_none.mp hnone))

/-- The pick of a one-shot job concerns its descriptor only. -/
theorem Tracked.taken {h : List (State F × Action F)} {s s' : State F} {m : Move} (hs : Tracked h s)
    (hstep : Step s (.move m) s') {c : Call F} (hactive : s.loop.Active) (hrun : m ≠ .run)
    (hwake : ∀ events, m ≠ .wake s.svc.eventFd events) (hloop : s'.loop = .picked c) {epoll : Epoll}
    (hsvc : s'.svc = { s.svc.rewrite c.fd (afterPick c.op) with epoll })
    (hepoll : ∀ fd, fd ≠ c.fd → epoll fd = s.svc.epoll fd)
    (hcovered : epoll c.fd ≠ none → s'.svc.find c.fd ≠ none)
    (htracks : s.svc.notified = 0 → Tracks s'.svc c.fd (Stale c.fd ((s, .move m) :: h))) :
    Tracked ((s, .move m) :: h) s' := by
  have hfind : ∀ fd, fd ≠ c.fd → s'.svc.find fd = s.svc.find fd := by
    intro fd hne
    rw [hsvc]
    exact find_rewrite_ne (afterPick_fd c.op) hne
  have hstale : ∀ fd, fd ≠ c.fd → (Stale fd ((s, .move m) :: h) ↔ Stale fd h) := by
    intro fd hne
    apply stale_same hstep hrun hwake
    intro c' p' hloop' hfd
    obtain rfl := Loop.picked.inj (hloop.symm.trans hloop')
    exact absurd hfd.symm hne
  have hframe : s'.svc.eventFd = s.svc.eventFd ∧ s'.svc.notified = s.svc.notified ∧ s'.svc.epoll = epoll := by
    rw [hsvc]
    exact ⟨rfl, rfl, rfl⟩
  obtain ⟨heventFd, hnotified, hnew⟩ := hframe
  refine ⟨hs.step hstep, by simp [hloop], ?_, hs.calls_next hstep heventFd, ?_⟩
  · intro fd hsome
    rw [hnew] at hsome
    rw [mem_fds_iff, heventFd]
    by_cases hfd : fd = c.fd
    · rw [hfd] at hsome ⊢
      exact Or.inr (hcovered hsome)
    · rw [hepoll fd hfd] at hsome
      rw [hfind fd hfd, ← mem_fds_iff]
      exact hs.covered fd hsome
  · intro _ hz fd
    by_cases hfd : fd = c.fd
    · rw [hfd]
      exact htracks (hnotified ▸ hz)
    · apply (hs.tracks hactive (hnotified ▸ hz) fd).frame (hfind fd hfd) _ heventFd (hstale fd hfd)
      rw [hnew, hepoll fd hfd]

theorem Tracked.last {h : List (State F × Action F)} {s s' : State F} {m : Move} (hs : Tracked h s)
    (hstep : Step s (.move m) s') {c : Call F} {p : Posted F} (hactive : s.loop.Active) (hrun : m ≠ .run)
    (hwake : ∀ events, m ≠ .wake s.svc.eventFd events) (hloop : s'.loop = .picked c)
    (hreg : registry s.svc (c.fd, c.op) = some p) (hone : p.oneshot = true)
    (hothers : ∀ op, op ≠ c.op → registry s.svc (c.fd, op) = none)
    (hsvc : s'.svc = { s.svc.rewrite c.fd (afterPick c.op) with epoll := s.svc.epoll.del c.fd })
    (hgone : s'.svc.find c.fd = none) : Tracked ((s, .move m) :: h) s' := by
  have hdel : s.svc.epoll.del c.fd c.fd = none := Function.update_self _ _ _
  have hfresh : ¬ Stale c.fd ((s, .move m) :: h) := by
    intro hstale
    unfold Stale at hstale
    rw [since_cons] at hstale
    have hdecides := (decides_iff hstep c).mpr hloop
    obtain (hhalf | hrefused) | ⟨-, hnot⟩ := hstale
    · obtain ⟨c', p', op, hc', -, -, -, hne, hsome⟩ := hhalf
      obtain rfl := hdecides.unique hc'
      exact hsome (hothers op hne)
    · exact hrun (Action.move.inj hrefused.1)
    · exact hnot (Or.inr ⟨c, p, hdecides, rfl, hreg, hone, hothers⟩)
  apply hs.taken hstep hactive hrun hwake hloop hsvc
  · intro fd hne
    exact Function.update_of_ne hne _ _
  · intro hsome
    exact absurd hdel hsome
  · intro _
    refine ⟨fun hstale => absurd hstale hfresh, fun _ => synced_none hgone (Or.inr ?_)⟩
    rw [hsvc]
    exact hdel

theorem Tracked.half {h : List (State F × Action F)} {s s' : State F} {m : Move} (hs : Tracked h s)
    (hstep : Step s (.move m) s') {c : Call F} {p : Posted F} {e : LookupTableElement F}
    (hactive : s.loop.Active) (hrun : m ≠ .run) (hwake : ∀ events, m ≠ .wake s.svc.eventFd events)
    (hloop : s'.loop = .picked c) (hreg : registry s.svc (c.fd, c.op) = some p) (hone : p.oneshot = true)
    (hother : ∃ op, op ≠ c.op ∧ registry s.svc (c.fd, op) ≠ none)
    (hsvc : s'.svc = s.svc.rewrite c.fd (afterPick c.op)) (hold : s.svc.find c.fd = some e)
    (hleft : s'.svc.find c.fd = some (e.clear c.op)) : Tracked ((s, .move m) :: h) s' := by
  have hfd : c.fd ≠ s.svc.eventFd := turn_fd (step_move hstep).2 hs.calls (Or.inl hloop)
  have hmem := (findKey_some hold).1
  obtain ⟨op, hne, hsome⟩ := hother
  have hstale : Stale c.fd ((s, .move m) :: h) := by
    unfold Stale
    rw [since_cons]
    exact Or.inl (Or.inl ⟨c, p, op, (decides_iff hstep c).mpr hloop, rfl, hreg, hone, hne, hsome⟩)
  have hboth : e.events = flags true true := by
    rw [hs.valid.flags e hmem, mask_full]
    have hjob : ∀ op, registry s.svc (c.fd, op) ≠ none → (e.job op).job ≠ none := by
      intro op hreg'
      unfold registry at hreg'
      rwa [hold, Option.bind_some, Job.posted_eq_none.ne] at hreg'
    intro op'
    by_cases hop : op' = c.op
    · exact hop ▸ hjob c.op (by simp [hreg])
    · exact SvcOp.eq_of_ne hne hop ▸ hjob op hsome
  have hcleared : (e.clear c.op).events ≠ flags true true := by
    rw [clear_flags (hs.valid.flags e hmem), ne_eq, mask_full, not_forall]
    refine ⟨c.op, not_not.mpr ?_⟩
    rw [← Job.posted_eq_none, clear_posted, if_pos rfl]
  have hkept : s'.svc = { s.svc.rewrite c.fd (afterPick c.op) with epoll := s.svc.epoll } := hsvc
  apply hs.taken hstep hactive hrun hwake hloop hkept (fun _ _ => rfl)
  · intro _
    rw [hleft]
    exact Option.some_ne_none _
  · intro hz
    refine ⟨fun _ => ?_, fun hfresh => absurd hstale hfresh⟩
    have hepoll : s.svc.epoll c.fd = some (flags true true) := by
      have htracks := hs.tracks hactive hz c.fd
      by_cases hbefore : Stale c.fd h
      · obtain ⟨_, -, hmask, -⟩ := htracks.1 hbefore
        rwa [if_neg hfd] at hmask
      · have hsynced := htracks.2 hbefore
        unfold Synced at hsynced
        rw [hold] at hsynced
        rw [← hboth]
        exact hsynced
    have heventFd : s'.svc.eventFd = s.svc.eventFd := by
      rw [hsvc]
      rfl
    refine ⟨_, hleft, ?_⟩
    rw [heventFd, if_neg hfd]
    refine ⟨?_, hcleared⟩
    rw [hsvc]
    exact hepoll

theorem Tracked.move {h : List (State F × Action F)} {s s' : State F} {m : Move} (hs : Tracked h s)
    (hstep : Step s (.move m) s') : Tracked ((s, .move m) :: h) s' := by
  cases move_effect hs.valid hstep with
  | run hloop hm hs' =>
    subst hm hs'
    exact hs.run hloop hstep
  | notified events hloop hm hs' =>
    subst hm
    exact hs.notified hstep hs'
  | same hactive hrun hwake hsvc hactive' hpersist =>
    have hstale : ∀ fd, Stale fd ((s, .move m) :: h) ↔ Stale fd h := by
      intro fd
      apply stale_same hstep hrun hwake
      intro c p hloop _ hreg
      obtain ⟨p', hreg', hone⟩ := hpersist c hloop
      obtain rfl := Option.some.inj (hreg.symm.trans hreg')
      exact hone
    refine ⟨hs.step hstep, fun hidle => absurd hidle (move_not_idle hs.valid hstep), ?_,
      hs.calls_next hstep (hsvc ▸ rfl), ?_⟩
    · rw [hsvc]
      exact hs.covered
    · intro _ hz fd
      rw [hsvc] at hz ⊢
      rw [hstale]
      exact hs.tracks hactive hz fd
  | last c p hactive hrun hwake hloop hreg hone hothers hsvc hgone =>
    exact hs.last hstep hactive hrun hwake hloop hreg hone hothers hsvc hgone
  | half c p e hactive hrun hwake hloop hreg hone hother hsvc hfind hleft =>
    exact hs.half hstep hactive hrun hwake hloop hreg hone hother hsvc hfind hleft

theorem tracked_of_run {eventFd : ℤ} {h : List (State F × Action F)} {s : State F}
    (r : Run Step (start eventFd) h s) : Tracked h s := by
  apply r.invariant_history (tracked_start eventFd)
  intro h s a s' hs hstep
  cases a with
  | request q =>
    rw [step_request hstep]
    exact hs.request q
  | move m => exact hs.move hstep

theorem blocked_agrees_iff {h : List (State F × Action F)} {s : State F} (hs : Tracked h s) (hblocks : s.Blocks) :
    Agrees s.svc ↔ ∀ fd, ¬ Stale fd h := by
  have htracks := hs.tracks (hblocks.1 ▸ trivial) hblocks.2
  rw [agrees_iff hs.valid]
  constructor
  · intro hall fd hstale
    exact ((htracks fd).1 hstale).not_synced (hall fd)
  · intro hall fd
    exact (htracks fd).2 (hall fd)

/-- Whenever the loop is about to block the interest set is the table's, exactly if no descriptor is
stale then. -/
theorem interest_set_agrees_iff {eventFd : ℤ} {h : List (State F × Action F)} {s : State F}
    (r : Run Step (start eventFd) h s) :
    (∀ m ∈ moments h s, m.2.Blocks → Agrees m.2.svc) ↔
      ∀ m ∈ moments h s, m.2.Blocks → ∀ fd, ¬ Stale fd m.1 := by
  constructor
  · intro hall m hm hblocks
    rw [← blocked_agrees_iff (tracked_of_run (r.of_mem_moments m hm)) hblocks]
    exact hall m hm hblocks
  · intro hall m hm hblocks
    rw [blocked_agrees_iff (tracked_of_run (r.of_mem_moments m hm)) hblocks]
    exact hall m hm hblocks

end stale

theorem interest_set_agrees_one : ∃ h s, played 3 onePost = some (h, s) ∧ s.Blocks ∧
    ∀ m ∈ moments h s, m.2.Blocks → Agrees m.2.svc := by
  refine ⟨_, _, rfl, ⟨rfl, rfl⟩, (interest_set_agrees_iff (run_played 3 onePost rfl)).mpr ?_⟩
  intro m hm hblocks fd hstale
  simp only [moments, List.mem_cons, List.mem_nil_iff, or_false] at hm
  obtain rfl | rfl | rfl := hm
  · obtain (hhalf | hrefused) | ⟨hold, -⟩ := since_cons.mp hstale
    · obtain ⟨c, p, op, ⟨_, s', -, hstep, hloop⟩, -⟩ := hhalf
      obtain rfl := Option.some.inj hstep
      cases hloop
    · obtain ⟨-, rfl, e, hfind, -⟩ := hrefused
      cases hfind
    · exact since_nil (stale_request.mp hold)
  · cases hblocks.1
  · cases hblocks.1

/-- Both jobs of descriptor 5 are one-shot, and it becomes readable. -/
def oneOfTwo : List (Action ℕ) :=
  [.request (.post 5 .read true (some 0) 1), .request (.post 5 .write true (some 1) 2), .move .run,
    .move (.wake 5 1), .move .call, .move .back]

theorem interest_set_stale : ∃ h s, played 3 oneOfTwo = some (h, s) ∧ s.Blocks ∧ ¬ Agrees s.svc := by
  refine ⟨_, _, rfl, ⟨rfl, rfl⟩, ?_⟩
  intro hagrees
  have hmask := hagrees.1 _ List.mem_cons_self
  exact absurd hmask (by decide)

end Chats.IoService
