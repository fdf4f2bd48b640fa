import Chats.IoService.IoService

/-! # What the lookup table stands for

A map from descriptors and directions to posted jobs. Searches by descriptor, masks and elements
that outlive their last job are how the table represents it: posting fills a free place, picking a
one-shot job empties its place, and the rest leaves the map alone. -/
namespace Chats.IoService
open Chats.Lib
set_option autoImplicit false

variable {F : Type}

/-! ## Masks -/

def flags (reads writes : Bool) : UInt32 :=
  (if reads then SvcOp.read.flag else 0) ||| (if writes then SvcOp.write.flag else 0)

theorem flags_set : ∀ reads writes, flags true writes = flags reads writes ||| SvcOp.read.flag ∧
    flags reads true = flags reads writes ||| SvcOp.write.flag := by decide

theorem flags_clear : ∀ reads writes, flags false writes = flags reads writes &&& ~~~SvcOp.read.flag ∧
    flags reads false = flags reads writes &&& ~~~SvcOp.write.flag := by decide

theorem flags_eq_zero : ∀ reads writes, flags reads writes = 0 → reads = false ∧ writes = false := by decide

/-- The events that the jobs of an element wait for. -/
def mask (job : SvcOp → Job F) : UInt32 := flags (job .read).job.isSome (job .write).job.isSome

theorem mask_set (job : SvcOp → Job F) (op : SvcOp) {j : Job F} (hj : j.job.isSome) :
    mask (Function.update job op j) = mask job ||| op.flag := by
  cases op with
  | read => simpa [mask, hj] using (flags_set _ _).1
  | write => simpa [mask, hj] using (flags_set _ _).2

theorem mask_clear (job : SvcOp → Job F) (op : SvcOp) {j : Job F} (hj : j.job = none) :
    mask (Function.update job op j) = mask job &&& ~~~op.flag := by
  cases op with
  | read => simpa [mask, hj] using (flags_clear _ _).1
  | write => simpa [mask, hj] using (flags_clear _ _).2

theorem mask_eq_zero {job : SvcOp → Job F} (h : mask job = 0) (op : SvcOp) : (job op).job = none := by
  obtain ⟨hr, hw⟩ := flags_eq_zero _ _ h
  cases op with
  | read => exact Option.not_isSome_iff_eq_none.mp (by simp [hr])
  | write => exact Option.not_isSome_iff_eq_none.mp (by simp [hw])

theorem SvcOp.eq_of_ne {op op' op'' : SvcOp} (h : op' ≠ op) (h' : op'' ≠ op) : op' = op'' := by
  cases op <;> cases op' <;> cases op'' <;> simp at *

theorem flags_full : ∀ reads writes, flags reads writes = flags true true → reads = true ∧ writes = true := by
  decide

/-- Only an element with both jobs has both flags. -/
theorem mask_full {job : SvcOp → Job F} : mask job = flags true true ↔ ∀ op, (job op).job ≠ none := by
  unfold mask
  constructor
  · intro hfull op
    obtain ⟨hr, hw⟩ := flags_full _ _ hfull
    cases op with
    | read => exact Option.isSome_iff_ne_none.mp hr
    | write => exact Option.isSome_iff_ne_none.mp hw
  · intro hall
    rw [Option.isSome_iff_ne_none.mpr (hall .read), Option.isSome_iff_ne_none.mpr (hall .write)]

/-! ## Tables that represent a map -/

/-- One element for a descriptor, and a flag for every job and no other. -/
structure Valid (table : List (LookupTableElement F)) : Prop where
  unique : (table.map (·.fd)).Nodup
  flags : ∀ e ∈ table, e.events = mask e.job

theorem valid_nil : Valid ([] : List (LookupTableElement F)) := ⟨List.nodup_nil, by simp⟩

structure Posted (F : Type) where
  job : F
  ctx : UInt64
  oneshot : Bool

def Job.posted (j : Job F) : Option (Posted F) :=
  j.job.map fun f => { job := f, ctx := j.ctx, oneshot := j.oneshot }

theorem Job.posted_eq_none {j : Job F} : j.posted = none ↔ j.job = none := by simp [Job.posted]

theorem Job.posted_eq_some {j : Job F} {p : Posted F} :
    j.posted = some p ↔ j.job = some p.job ∧ j.ctx = p.ctx ∧ j.oneshot = p.oneshot := by
  unfold Job.posted
  cases j.job with
  | none => simp
  | some f =>
    cases p
    simp

abbrev Registry (F : Type) := Store (ℤ × SvcOp) (Posted F)

def registry (s : Service F) : Registry F :=
  fun key => (s.find key.1).bind fun e => (e.job key.2).posted

theorem mem_fds_iff {s : Service F} {fd : ℤ} : fd ∈ s.lookupTable.map (·.fd) ↔ s.find fd ≠ none := by
  unfold Service.find
  rw [ne_eq, findKey_eq_none, not_not]

section rewriting
variable {s : Service F} {fd : ℤ} {f : LookupTableElement F → Option (LookupTableElement F)}
  (hfd : ∀ e e', f e = some e' → e'.fd = e.fd)
include hfd

theorem find_rewrite_ne {fd' : ℤ} (hne : fd' ≠ fd) : (s.rewrite fd f).find fd' = s.find fd' :=
  findKey_rewrite_ne hfd hne s.lookupTable

theorem find_rewrite_self (hv : Valid s.lookupTable) : (s.rewrite fd f).find fd = (s.find fd).bind f :=
  findKey_rewrite_self hfd hv.unique

theorem valid_rewrite (hv : Valid s.lookupTable)
    (hmask : ∀ e ∈ s.lookupTable, ∀ e', f e = some e' → e'.events = mask e'.job) :
    Valid (s.rewrite fd f).lookupTable where
  unique := hv.unique.sublist (keys_rewrite_sublist hfd s.lookupTable)
  flags := forall_mem_rewrite hmask hv.flags

end rewriting

/-- Two services whose tables hold the same jobs under every key but one. -/
theorem registry_eq_update {s s' : Service F} {fd : ℤ} {op : SvcOp} {j : Option (Posted F)}
    (hother : ∀ fd', fd' ≠ fd → s'.find fd' = s.find fd')
    (hself : ∀ op', registry s' (fd, op') = if op' = op then j else registry s (fd, op')) :
    registry s' = Function.update (registry s) (fd, op) j := by
  funext key
  obtain ⟨fd', op'⟩ := key
  by_cases hfd : fd' = fd
  · subst hfd
    rw [hself op']
    by_cases hop : op' = op
    · rw [if_pos hop, hop, Function.update_self]
    · rw [if_neg hop, Function.update_of_ne (by simpa using hop)]
  · rw [Function.update_of_ne (by simp [hfd])]
    unfold registry
    rw [hother fd' hfd]

/-! ## Posting -/

theorem find_findOrAppend (s : Service F) (fd : ℤ) :
    (s.findOrAppend fd).find fd = some ((s.find fd).getD (.new fd)) := by
  unfold Service.findOrAppend
  cases h : s.find fd with
  | some e => simp [h]
  | none =>
    have hnew : findKey (·.fd) fd [LookupTableElement.new (F := F) fd] = some (.new fd) :=
      findKey_cons_self [] rfl
    unfold Service.find at h ⊢
    simp [findKey_append, h, hnew]

theorem registry_findOrAppend (s : Service F) (fd : ℤ) : registry (s.findOrAppend fd) = registry s := by
  unfold Service.findOrAppend
  cases h : s.find fd with
  | some e => rfl
  | none =>
    funext key
    unfold registry
    by_cases hfd : key.1 = fd
    · have hnew : findKey (·.fd) fd [LookupTableElement.new (F := F) fd] = some (.new fd) :=
        findKey_cons_self [] rfl
      rw [hfd, h]
      unfold Service.find at h ⊢
      simp only [findKey_append, h, hnew, Option.isSome_none, Bool.false_eq_true, if_false,
        Option.none_or, Option.bind_some, Option.bind_none]
      rfl
    · have hnew : findKey (·.fd) key.1 [LookupTableElement.new (F := F) fd] = none := by
        rw [findKey_cons_ne [] (Ne.symm hfd)]
        rfl
      unfold Service.find
      simp [findKey_append, hnew]

theorem valid_findOrAppend {s : Service F} (hv : Valid s.lookupTable) (fd : ℤ) :
    Valid (s.findOrAppend fd).lookupTable := by
  unfold Service.findOrAppend
  cases h : s.find fd with
  | some e => exact hv
  | none =>
    have hfd : fd ∉ s.lookupTable.map (·.fd) := findKey_eq_none.mp h
    constructor
    · show ((s.lookupTable ++ [LookupTableElement.new fd]).map LookupTableElement.fd).Nodup
      rw [List.map_append]
      apply hv.unique.append (List.nodup_singleton fd)
      simpa [LookupTableElement.new] using hfd
    · intro e he
      cases List.mem_append.mp he with
      | inl he => exact hv.flags e he
      | inr he =>
        rw [List.mem_singleton.mp he]
        show (0 : UInt32) = flags false false
        decide

theorem registry_getD (s : Service F) (fd : ℤ) (op : SvcOp) :
    registry s (fd, op) = (((s.find fd).getD (.new fd)).job op).posted := by
  unfold registry
  cases s.find fd with
  | none => rfl
  | some e => rfl

theorem findOrAppend_frame (s : Service F) (fd : ℤ) :
    (s.findOrAppend fd).allowNew = s.allowNew ∧ (s.findOrAppend fd).running = s.running ∧
      (s.findOrAppend fd).eventFd = s.eventFd ∧ (s.findOrAppend fd).notified = s.notified ∧
      (s.findOrAppend fd).epoll = s.epoll := by
  unfold Service.findOrAppend
  split_ifs
  · exact ⟨rfl, rfl, rfl, rfl, rfl⟩
  · exact ⟨rfl, rfl, rfl, rfl, rfl⟩

section posting
variable {s : Service F} {fd : ℤ} {op : SvcOp} (oneshot : Bool) (f : F) (ctx : UInt64)

/-- The table in which a job was put in its place. -/
def Service.posted (s : Service F) (fd : ℤ) (op : SvcOp) (j : Job F) : Service F :=
  (s.findOrAppend fd).rewrite fd fun e => some (e.set op j)

theorem post_free (hallow : s.allowNew = true) (hfree : registry s (fd, op) = none) :
    ioServicePostJob s fd op oneshot (some f) ctx =
      let s' := s.posted fd op { job := some f, ctx, oneshot }
      if s'.running then s'.notify else s' := by
  rw [registry_getD, Job.posted_eq_none] at hfree
  unfold ioServicePostJob
  simp only [hallow, find_findOrAppend, hfree, Option.isSome_some, Bool.and_self, if_true,
    Option.isSome_none, Bool.false_eq_true, if_false]
  rfl

theorem post_taken {j : Posted F} (htaken : registry s (fd, op) = some j) :
    ioServicePostJob s fd op oneshot (some f) ctx = if s.allowNew then s.findOrAppend fd else s := by
  have hsome : ((((s.find fd).getD (.new fd)).job op).job).isSome = true := by
    rw [registry_getD] at htaken
    rw [Option.isSome_iff_ne_none, ← Job.posted_eq_none.ne, htaken]
    exact Option.some_ne_none j
  unfold ioServicePostJob
  simp only [find_findOrAppend, hsome, Option.isSome_some, Bool.and_true, if_true]

theorem post_refused {job : Option F} (h : s.allowNew = false ∨ job = none) :
    ioServicePostJob s fd op oneshot job ctx = s := by
  unfold ioServicePostJob
  rw [if_neg]
  cases h with
  | inl hallow => simp [hallow]
  | inr hjob => simp [hjob]

/-- A job whose place is taken is forgotten. -/
theorem post_taken_eq {j : Posted F} (htaken : registry s (fd, op) = some j) :
    ioServicePostJob s fd op oneshot (some f) ctx = s := by
  have hfound : (s.find fd).isSome = true := by
    obtain ⟨e, hfind, -⟩ := Option.bind_eq_some_iff.mp htaken
    exact Option.isSome_of_eq_some hfind
  rw [post_taken oneshot f ctx htaken]
  unfold Service.findOrAppend
  rw [if_pos hfound, ite_self]

theorem registry_ite_notify (s : Service F) (b : Bool) :
    registry (if b then s.notify else s) = registry s := by
  cases b <;> rfl

theorem lookupTable_ite_notify (s : Service F) (b : Bool) :
    (if b then s.notify else s).lookupTable = s.lookupTable := by
  cases b <;> rfl

theorem registry_post_free (hv : Valid s.lookupTable) (hallow : s.allowNew = true)
    (hfree : registry s (fd, op) = none) :
    registry (ioServicePostJob s fd op oneshot (some f) ctx) =
      Function.update (registry s) (fd, op) (some { job := f, ctx, oneshot }) := by
  have hv' := valid_findOrAppend hv fd
  rw [post_free oneshot f ctx hallow hfree, registry_ite_notify, ← registry_findOrAppend s fd]
  apply registry_eq_update
  · intro fd' hne
    exact find_rewrite_ne (by simp [LookupTableElement.set]) hne
  · intro op'
    have hself : (s.posted fd op { job := some f, ctx, oneshot }).find fd =
        some (((s.find fd).getD (.new fd)).set op { job := some f, ctx, oneshot }) := by
      unfold Service.posted
      rw [find_rewrite_self (by simp [LookupTableElement.set]) hv', find_findOrAppend]
      rfl
    rw [registry_findOrAppend, registry_getD s]
    unfold registry
    rw [hself]
    by_cases hop : op' = op
    · subst hop
      simp [LookupTableElement.set, Job.posted]
    · simp [LookupTableElement.set, hop]

theorem registry_post_taken {j : Posted F} (htaken : registry s (fd, op) = some j) :
    registry (ioServicePostJob s fd op oneshot (some f) ctx) = registry s := by
  rw [post_taken_eq oneshot f ctx htaken]

/-- The map after a post: the free place is filled while new jobs are allowed. -/
theorem registry_post (hv : Valid s.lookupTable) : registry (ioServicePostJob s fd op oneshot (some f) ctx) =
    if s.allowNew = true ∧ registry s (fd, op) = none then
      Function.update (registry s) (fd, op) (some { job := f, ctx, oneshot })
    else registry s := by
  split_ifs with h
  · exact registry_post_free oneshot f ctx hv h.1 h.2
  · cases hallow : s.allowNew with
    | false => rw [post_refused oneshot ctx (Or.inl hallow)]
    | true =>
      obtain ⟨j, hj⟩ := Option.ne_none_iff_exists'.mp fun hfree => h ⟨hallow, hfree⟩
      exact registry_post_taken oneshot f ctx hj

theorem valid_post (hv : Valid s.lookupTable) : Valid (ioServicePostJob s fd op oneshot (some f) ctx).lookupTable := by
  have hv' := valid_findOrAppend hv fd
  cases hallow : s.allowNew with
  | false => rwa [post_refused oneshot ctx (Or.inl hallow)]
  | true =>
    cases hreg : registry s (fd, op) with
    | some j => rwa [post_taken_eq oneshot f ctx hreg]
    | none =>
      rw [post_free oneshot f ctx hallow hreg, lookupTable_ite_notify]
      refine valid_rewrite (by simp [LookupTableElement.set]) hv' ?_
      intro e he e' heq
      obtain rfl := Option.some.inj heq
      show e.events ||| op.flag = mask (Function.update e.job op _)
      rw [hv'.flags e he, mask_set e.job op rfl]

/-- A post adds a notification at most. -/
theorem post_frame (job : Option F) : (ioServicePostJob s fd op oneshot job ctx).allowNew = s.allowNew ∧
    (ioServicePostJob s fd op oneshot job ctx).eventFd = s.eventFd ∧
    (ioServicePostJob s fd op oneshot job ctx).epoll = s.epoll ∧
    s.notified ≤ (ioServicePostJob s fd op oneshot job ctx).notified := by
  obtain ⟨hallow, -, heventFd, hnotified, hepoll⟩ := findOrAppend_frame s fd
  unfold ioServicePostJob
  split_ifs
  · simp only [find_findOrAppend]
    split_ifs
    · exact ⟨hallow, heventFd, hepoll, hnotified.ge⟩
    · exact ⟨hallow, heventFd, hepoll, hnotified ▸ Nat.le_succ _⟩
    · exact ⟨hallow, heventFd, hepoll, hnotified.ge⟩
  · exact ⟨rfl, rfl, rfl, le_rfl⟩

end posting

/-! ## Picking -/

section picking
variable {s : Service F} {e : LookupTableElement F} {fd : ℤ} {op : SvcOp}

theorem clear_flags (he : e.events = mask e.job) : (e.clear op).events = mask (e.clear op).job := by
  show e.events &&& ~~~op.flag = mask (Function.update e.job op _)
  rw [he, mask_clear e.job op rfl]

theorem clear_posted (e : LookupTableElement F) (op op' : SvcOp) :
    ((e.clear op).job op').posted = if op' = op then none else (e.job op').posted := by
  by_cases hop : op' = op
  · subst hop
    simp [LookupTableElement.clear, Job.posted]
  · simp [LookupTableElement.clear, hop]

/-- What becomes of an element whose one-shot job was picked. -/
def afterPick (op : SvcOp) (e : LookupTableElement F) : Option (LookupTableElement F) :=
  if (e.clear op).events = 0 then none else some (e.clear op)

theorem afterPick_fd (op : SvcOp) (e e' : LookupTableElement F) (h : afterPick op e = some e') :
    e'.fd = e.fd := by
  unfold afterPick at h
  split_ifs at h
  obtain rfl := Option.some.inj h
  rfl

theorem afterPick_posted (he : e.events = mask e.job) (op' : SvcOp) :
    ((afterPick op e).bind fun e => (e.job op').posted) = if op' = op then none else (e.job op').posted := by
  rw [← clear_posted]
  unfold afterPick
  split_ifs with hzero
  · rw [clear_flags he] at hzero
    exact (Job.posted_eq_none.mpr (mask_eq_zero hzero op')).symm
  · rfl

theorem pick_oneshot (hone : (e.job op).oneshot = true) :
    (pick s e op).lookupTable = (s.rewrite e.fd (afterPick op)).lookupTable := by
  unfold pick
  rw [if_pos hone]
  simp only
  split_ifs <;> rfl

theorem pick_allowNew (s : Service F) (e : LookupTableElement F) (op : SvcOp) :
    (pick s e op).allowNew = s.allowNew := by
  unfold pick Service.rewrite
  split_ifs <;> rfl

/-- A one-shot job is taken out of the map. -/
theorem registry_pick_oneshot (hv : Valid s.lookupTable) (hfind : s.find fd = some e)
    (hone : (e.job op).oneshot = true) :
    registry (pick s e op) = Function.update (registry s) (fd, op) none := by
  obtain ⟨hmem, hfd⟩ := findKey_some hfind
  have htable := pick_oneshot (s := s) hone
  rw [hfd] at htable
  apply registry_eq_update
  · intro fd' hne
    unfold Service.find
    rw [htable]
    exact find_rewrite_ne (afterPick_fd op) hne
  · intro op'
    have hself : (pick s e op).find fd = afterPick op e := by
      unfold Service.find
      rw [htable]
      refine (find_rewrite_self (afterPick_fd op) hv).trans ?_
      rw [hfind, Option.bind_some]
    unfold registry
    rw [hself, hfind]
    exact afterPick_posted (hv.flags e hmem) op'

theorem valid_pick (hv : Valid s.lookupTable) (e : LookupTableElement F) (op : SvcOp) :
    Valid (pick s e op).lookupTable := by
  by_cases hone : (e.job op).oneshot = true
  · rw [pick_oneshot hone]
    refine valid_rewrite (afterPick_fd op) hv ?_
    intro e he e' heq
    unfold afterPick at heq
    split_ifs at heq
    obtain rfl := Option.some.inj heq
    exact clear_flags (hv.flags e he)
  · unfold pick
    rwa [if_neg hone]

theorem clear_events_eq_zero (he : e.events = mask e.job) :
    (e.clear op).events = 0 ↔ ∀ op', op' ≠ op → (e.job op').job = none := by
  rw [clear_flags he]
  constructor
  · intro hzero op' hne
    have hnone := Job.posted_eq_none.mpr (mask_eq_zero hzero op')
    rwa [clear_posted, if_neg hne, Job.posted_eq_none] at hnone
  · intro hall
    have hnone : ∀ op', ((e.clear op).job op').job = none := by
      intro op'
      rw [← Job.posted_eq_none, clear_posted]
      split_ifs with hop
      · rfl
      · exact Job.posted_eq_none.mpr (hall op' hop)
    unfold mask
    rw [hnone, hnone]
    show flags false false = 0
    decide

/-- A job that is not one-shot stays; a one-shot job leaves its element, which goes together with its
place in the interest set when no other job is left, and otherwise keeps that place as it is. -/
theorem pick_cases (hv : Valid s.lookupTable) (hfind : s.find fd = some e) (op : SvcOp) :
    ((e.job op).oneshot = false ∧ pick s e op = s) ∨
    ((e.job op).oneshot = true ∧ (∀ op', op' ≠ op → registry s (fd, op') = none) ∧
      pick s e op = { s.rewrite fd (afterPick op) with epoll := s.epoll.del fd } ∧
      (s.rewrite fd (afterPick op)).find fd = none) ∨
    ((e.job op).oneshot = true ∧ (∃ op', op' ≠ op ∧ registry s (fd, op') ≠ none) ∧
      pick s e op = s.rewrite fd (afterPick op) ∧
      (s.rewrite fd (afterPick op)).find fd = some (e.clear op)) := by
  obtain ⟨hmem, rfl⟩ := findKey_some hfind
  have hzero : (e.clear op).events = 0 ↔ ∀ op', op' ≠ op → (e.job op').job = none :=
    clear_events_eq_zero (hv.flags e hmem)
  have hreg : ∀ op', registry s (e.fd, op') = none ↔ (e.job op').job = none := by
    intro op'
    unfold registry
    rw [hfind, Option.bind_some, Job.posted_eq_none]
  have hself : (s.rewrite e.fd (afterPick op)).find e.fd = afterPick op e := by
    rw [find_rewrite_self (afterPick_fd op) hv, hfind, Option.bind_some]
  rw [hself]
  unfold pick
  cases hone : (e.job op).oneshot with
  | false => exact Or.inl ⟨rfl, if_neg Bool.false_ne_true⟩
  | true =>
    refine Or.inr ?_
    rw [if_pos rfl]
    by_cases hlast : (e.clear op).events = 0
    · refine Or.inl ⟨rfl, ?_, ?_, if_pos hlast⟩
      · intro op' hne
        exact (hreg op').mpr (hzero.mp hlast op' hne)
      · simp only [if_pos hlast]
        rfl
    · refine Or.inr ⟨rfl, ?_, ?_, if_neg hlast⟩
      · simp only [hzero, not_forall] at hlast
        obtain ⟨op', hne, hjob⟩ := hlast
        exact ⟨op', hne, fun hnone => hjob ((hreg op').mp hnone)⟩
      · simp only [if_neg hlast]
        rfl

end picking

/-! ## Removing -/

section removing
variable [DecidableEq F] {s : Service F} {fd : ℤ} {op : SvcOp} {job : Option F} {ctx : UInt64}

theorem holds_fd (e : LookupTableElement F) (h : e.holds fd op job ctx = true) : e.fd = fd := by
  unfold LookupTableElement.holds at h
  simp only [Bool.and_eq_true, decide_eq_true_eq] at h
  exact h.1.1

theorem holds_iff {e : LookupTableElement F} (hfd : e.fd = fd) :
    e.holds fd op job ctx = true ↔ (e.job op).job = job ∧ (e.job op).ctx = ctx := by
  unfold LookupTableElement.holds
  simp [hfd]

/-- What becomes of the descriptor's element. -/
def afterRemoval (fd : ℤ) (op : SvcOp) (job : Option F) (ctx : UInt64) (e : LookupTableElement F) :
    Option (LookupTableElement F) :=
  if e.holds fd op job ctx then some (e.clear op) else some e

theorem afterRemoval_fd (e e' : LookupTableElement F) (h : afterRemoval fd op job ctx e = some e') :
    e'.fd = e.fd := by
  unfold afterRemoval at h
  split_ifs at h
  · rw [← Option.some.inj h]
    rfl
  · rw [Option.some.inj h]

theorem remove_eq (hv : Valid s.lookupTable) : ioServiceRemoveJob s fd op job ctx =
    let s' := s.rewrite fd (afterRemoval fd op job ctx)
    if (s.find fd).any (·.holds fd op job ctx) && s'.running then s'.notify else s' := by
  unfold ioServiceRemoveJob Service.rewrite Service.find
  simp only [rewriteKey_test holds_fd hv.unique, any_eq_findKey holds_fd hv.unique]
  rfl

/-- Unless the element holds the job nothing changes. -/
theorem remove_absent (habsent : s.lookupTable.any (·.holds fd op job ctx) = false) :
    ioServiceRemoveJob s fd op job ctx = s := by
  have hnone : true ∉ s.lookupTable.map (·.holds fd op job ctx) := by
    rw [List.any_eq_false] at habsent
    simpa using habsent
  unfold ioServiceRemoveJob
  simp only [habsent, rewriteKey_absent hnone, Bool.false_and, Bool.false_eq_true, if_false]

theorem remove_frame : (ioServiceRemoveJob s fd op job ctx).allowNew = s.allowNew ∧
    (ioServiceRemoveJob s fd op job ctx).eventFd = s.eventFd ∧
    (ioServiceRemoveJob s fd op job ctx).epoll = s.epoll ∧
    s.notified ≤ (ioServiceRemoveJob s fd op job ctx).notified := by
  unfold ioServiceRemoveJob
  simp only
  split_ifs
  · exact ⟨rfl, rfl, rfl, Nat.le_succ _⟩
  · exact ⟨rfl, rfl, rfl, le_rfl⟩

theorem valid_remove (hv : Valid s.lookupTable) : Valid (ioServiceRemoveJob s fd op job ctx).lookupTable := by
  rw [remove_eq hv]
  simp only
  rw [lookupTable_ite_notify]
  refine valid_rewrite afterRemoval_fd hv ?_
  intro e he e' heq
  unfold afterRemoval at heq
  split_ifs at heq
  · rw [← Option.some.inj heq]
    exact clear_flags (hv.flags e he)
  · rw [← Option.some.inj heq]
    exact hv.flags e he

theorem afterRemoval_posted {e : LookupTableElement F} (hfd : e.fd = fd) (op' : SvcOp) :
    ((afterRemoval fd op job ctx e).bind fun e => (e.job op').posted) =
      if op' = op then (e.job op).posted.filter fun p => ¬ (some p.job = job ∧ p.ctx = ctx)
      else (e.job op').posted := by
  have hholds : e.holds fd op job ctx = true ↔ (e.job op).job = job ∧ (e.job op).ctx = ctx := holds_iff hfd
  unfold afterRemoval
  split_ifs with he hop hop
  · rw [Option.bind_some, clear_posted, if_pos hop, eq_comm, Option.filter_eq_none_iff]
    intro p hp
    obtain ⟨hjob, hctx, -⟩ := Job.posted_eq_some.mp hp
    rw [hholds, hjob, hctx] at he
    simpa using he
  · rw [Option.bind_some, clear_posted, if_neg hop]
  · rw [Option.bind_some, hop]
    cases hp : (e.job op).posted with
    | none => rfl
    | some p =>
      obtain ⟨hjob, hctx, -⟩ := Job.posted_eq_some.mp hp
      rw [hholds, hjob, hctx] at he
      exact (Option.filter_some_pos (by simpa only [decide_eq_true_eq] using he)).symm
  · rfl

/-- The job leaves its place if it is there. -/
theorem registry_remove (hv : Valid s.lookupTable) : registry (ioServiceRemoveJob s fd op job ctx) =
    Function.update (registry s) (fd, op)
      ((registry s (fd, op)).filter fun p => ¬ (some p.job = job ∧ p.ctx = ctx)) := by
  rw [remove_eq hv]
  simp only
  rw [registry_ite_notify]
  apply registry_eq_update
  · intro fd' hne
    exact find_rewrite_ne afterRemoval_fd hne
  · intro op'
    unfold registry
    rw [find_rewrite_self afterRemoval_fd hv]
    cases hfind : s.find fd with
    | none => simp
    | some e => exact afterRemoval_posted (findKey_some hfind).2 op'

end removing

/-! ## The steps of the loop -/

/-- The job of a slot, as the map has it. -/
theorem registry_of_find {s : Service F} {fd : ℤ} {e : LookupTableElement F} {op : SvcOp} {job : F}
    (hfind : s.find fd = some e) (hjob : (e.job op).job = some job) :
    registry s (fd, op) = some { job, ctx := (e.job op).ctx, oneshot := (e.job op).oneshot } := by
  unfold registry
  rw [hfind, Option.bind_some, Job.posted_eq_some]
  exact ⟨hjob, rfl, rfl⟩

/-- The loop over the operations either finds nothing to do or picks a job of the descriptor. -/
theorem dispatch_cases (s : Service F) (fd : ℤ) (events : UInt32) (ops : List SvcOp) :
    dispatch s fd events ops = whileRunning s ∨
      ∃ e op rest job, s.find fd = some e ∧ (e.job op).job = some job ∧
        dispatch s fd events ops =
          (pick s e op, .picked { fd, op, job, ctx := (e.job op).ctx, events, rest }) := by
  induction ops with
  | nil => exact Or.inl rfl
  | cons op ops ih =>
    unfold dispatch
    split_ifs with hevent
    · exact ih
    · cases hfind : s.find fd with
      | none =>
        rw [hfind] at ih
        exact ih
      | some e =>
        cases hjob : (e.job op).job with
        | none =>
          simp only [hjob]
          rw [hfind] at ih
          exact ih
        | some job =>
          refine Or.inr ⟨e, op, ops, job, rfl, hjob, ?_⟩
          simp only [hjob]

theorem dispatch_allowNew (s : Service F) (fd : ℤ) (events : UInt32) (ops : List SvcOp) :
    (dispatch s fd events ops).1.allowNew = s.allowNew := by
  cases dispatch_cases s fd events ops with
  | inl hwhile => rw [hwhile, whileRunning]
  | inr hpick =>
    obtain ⟨e, op, rest, job, -, -, hpick⟩ := hpick
    rw [hpick]
    exact pick_allowNew s e op

theorem refresh_table (ep : Epoll) (table : List (LookupTableElement F)) :
    (refresh ep table).2 = table.filter fun e => e.events ≠ 0 := by
  induction table generalizing ep with
  | nil => rfl
  | cons e table ih =>
    unfold refresh
    by_cases he : e.events = 0
    · rw [if_pos he, List.filter_cons_of_neg (by simpa using he), ih]
    · rw [if_neg he, List.filter_cons_of_pos (by simpa using he)]
      simp only [ih]

theorem valid_handleNotification {s : Service F} (hv : Valid s.lookupTable) :
    Valid (handleNotification s).lookupTable := by
  show Valid (refresh s.epoll s.lookupTable).2
  rw [refresh_table]
  constructor
  · exact hv.unique.sublist (List.filter_sublist.map _)
  · intro e he
    exact hv.flags e (List.mem_of_mem_filter he)

theorem find_handleNotification {s : Service F} (hv : Valid s.lookupTable) (fd : ℤ) :
    (handleNotification s).find fd = (s.find fd).filter fun e => e.events ≠ 0 := by
  show findKey _ fd (refresh s.epoll s.lookupTable).2 = _
  rw [refresh_table, findKey_filter _ hv.unique]
  rfl

/-- Only elements without a job are dropped. -/
theorem registry_handleNotification {s : Service F} (hv : Valid s.lookupTable) :
    registry (handleNotification s) = registry s := by
  funext key
  unfold registry
  rw [find_handleNotification hv]
  cases h : s.find key.1 with
  | none => rfl
  | some e =>
    by_cases he : e.events = 0
    · have hmask := hv.flags e (findKey_some h).1
      rw [he] at hmask
      simp [Option.filter, he, Job.posted_eq_none.mpr (mask_eq_zero hmask.symm key.2)]
    · simp [Option.filter, he]

end Chats.IoService
