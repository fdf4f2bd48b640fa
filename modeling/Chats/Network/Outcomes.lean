import Chats.Network.Requests

/-! # What becomes of the requests

The requests compete for the slots of the lookup table as for places. Whether new jobs are allowed
or not, each step of the system is one of the outcomes of `Lib.Slots`. -/
namespace Chats.Network
open Chats.Lib Chats.IoService
set_option autoImplicit false

/-- The requests as they compete for the slots. -/
def System.slots (s : System) : Slots (ℤ × SvcOp) UInt64 where
  live := fun ctx => (s.requests ctx).map Srb.key
  place := fun key => (registry s.svc key).map Posted.ctx
  running := s.current.map Call.ctx

theorem place_eq_none {s : System} {key : ℤ × SvcOp} : s.slots.place key = none ↔ registry s.svc key = none := by
  simp [System.slots]

theorem registered_iff {s : System} (hv : Valid s.svc.lookupTable)
    (hone : ∀ key j, registry s.svc key = some j → j.oneshot = true) (ctx : UInt64) (srb : Srb) :
    Registered s ctx srb ↔ s.slots.place srb.key = some ctx := by
  constructor
  · intro h
    obtain ⟨e, he, hfd, hjob⟩ := h
    have hfind : s.svc.find srb.endpoint.skt = some e := by
      rw [← hfd]
      exact findKey_of_mem hv.unique he
    simp [System.slots, registry, Srb.key, hfind, hjob, Job.posted]
  · intro h
    obtain ⟨j, hj, hctx⟩ := Option.map_eq_some_iff.mp h
    have hone := hone _ _ hj
    obtain ⟨e, hfind, hposted⟩ := Option.bind_eq_some_iff.mp hj
    obtain ⟨f, hf, hjf⟩ := Option.map_eq_some_iff.mp hposted
    obtain ⟨hmem, hfd⟩ := findKey_some hfind
    refine ⟨e, hmem, hfd, ?_⟩
    cases f
    rw [← hjf] at hctx hone
    show e.job srb.key.2 = _
    cases hslot : e.job srb.key.2 with
    | mk job ctx' oneshot =>
      rw [hslot] at hf hctx hone
      simp only at hf hctx hone
      rw [hf, hctx, hone]

/-! ## Submitted, called back, posted again -/

/-- A new request is submitted and its job accepted. -/
def Enters (ctx : UInt64) (s : System) (a : Action) : Prop :=
  ∃ client buffer srb,
    ((a = .send client buffer ctx ∧ clientTcpSendAsync client buffer = some srb) ∨
      (a = .recv client buffer ctx ∧ clientTcpRecvAsync client buffer = some srb)) ∧
    s.svc.allowNew = true ∧ registry s.svc srb.key = none

/-- The request's attempt ends in its callback and its release. -/
def CallsBack (ctx : UInt64) (s : System) (a : Action) : Prop :=
  ∃ c srb r report, a = .attempt r ∧ s.loop = .invoking c ∧ c.ctx = ctx ∧
    s.requests ctx = some srb ∧ tcpSendRecvAsyncTpl srb r = .finish report

/-- A transfer that posts itself again may: new jobs are allowed and its slot is free. -/
def RepostAccepted (s : System) (a : Action) : Prop :=
  a = .repost → ∀ c srb, s.loop = .invoking c → s.requests c.ctx = some srb →
    s.svc.allowNew = true ∧ registry s.svc (c.fd, srb.op.iosvcOp) = none

/-! ## Each step is an outcome for the slots -/

/-- What every step keeps, whether new jobs are allowed or not. -/
structure Steady (s : System) : Prop where
  valid : Valid s.svc.lookupTable
  oneshot : ∀ key j, registry s.svc key = some j → j.oneshot = true
  called : ∀ c, s.current = some c → s.slots.live c.ctx = some (c.fd, c.op)
  coherent : s.slots.Coherent

theorem place_post {s : System} (hv : Valid s.svc.lookupTable) (fd : ℤ) (op : SvcOp) (ctx : UInt64) :
    (fun key => (registry (ioServicePostJob s.svc fd op true (some .tcpSendRecvAsyncTpl) ctx) key).map Posted.ctx) =
      if s.svc.allowNew = true ∧ s.slots.place (fd, op) = none then
        Function.update s.slots.place (fd, op) (some ctx)
      else s.slots.place := by
  have hiff : (s.svc.allowNew = true ∧ s.slots.place (fd, op) = none) ↔
      s.svc.allowNew = true ∧ registry s.svc (fd, op) = none := and_congr_right' place_eq_none
  rw [registry_post true _ ctx hv]
  by_cases hfree : s.svc.allowNew = true ∧ registry s.svc (fd, op) = none
  · rw [if_pos hfree, if_pos (hiff.mpr hfree), Store.map_update]
    rfl
  · rw [if_neg hfree, if_neg (hiff.not.mpr hfree)]
    rfl

theorem oneshot_post {s : System} (hv : Valid s.svc.lookupTable)
    (hone : ∀ key j, registry s.svc key = some j → j.oneshot = true) (fd : ℤ) (op : SvcOp) (ctx : UInt64)
    (key : ℤ × SvcOp) (j : Posted JobFunction)
    (hj : registry (ioServicePostJob s.svc fd op true (some .tcpSendRecvAsyncTpl) ctx) key = some j) :
    j.oneshot = true := by
  rw [registry_post true _ ctx hv] at hj
  split_ifs at hj
  · obtain ⟨-, rfl⟩ | ⟨-, hold⟩ := Store.update_some_iff.mp hj
    · rfl
    · exact hone key j hold
  · exact hone key j hj

theorem tpl_post_key {srb srb' : Srb} {r : KernelResult} (h : tcpSendRecvAsyncTpl srb r = .post srb') :
    srb'.key = srb.key := by
  unfold tcpSendRecvAsyncTpl at h
  cases r with
  | error e =>
    simp only at h
    split_ifs at h
    rw [Next.post.inj h]
  | count n =>
    simp only at h
    split_ifs at h
    rw [← Next.post.inj h]
    rfl

/-- `o` is what the step does to the slots. -/
structure Outcome (s : System) (a : Action) (s' : System) (o : Slots.Outcome (ℤ × SvcOp) UInt64) : Prop where
  valid : Valid s'.svc.lookupTable
  oneshot : ∀ key j, registry s'.svc key = some j → j.oneshot = true
  called : ∀ c, s'.current = some c → s'.slots.live c.ctx = some (c.fd, c.op)
  possible : s.slots.Possible o
  next : s'.slots = s.slots.next o
  enters : ∀ ctx, Enters ctx s a ↔ ∃ key, o = .accept key ctx
  callsBack : ∀ ctx, CallsBack ctx s a ↔ o = .finish ctx
  accepted : RepostAccepted s a ↔ ∀ ctx, o ≠ .abandon ctx
  free : s.svc.allowNew = true → s.slots.Taken o ∧ (SlotFree s a ↔ ¬ o.TurnsAway)

theorem Outcome.steady {s s' : System} {a : Action} {o : Slots.Outcome (ℤ × SvcOp) UInt64} (hs : Steady s)
    (h : Outcome s a s' o) : Steady s' :=
  ⟨h.valid, h.oneshot, h.called, h.next ▸ hs.coherent.next h.possible⟩

/-- An action that neither submits, ends nor posts a request again. -/
structure Plain (s : System) (a : Action) : Prop where
  enters : ∀ ctx, ¬ Enters ctx s a
  callsBack : ∀ ctx, ¬ CallsBack ctx s a
  accepted : RepostAccepted s a
  free : SlotFree s a

theorem Plain.idle {s s' : System} {a : Action} (ha : Plain s a) (hv : Valid s'.svc.lookupTable)
    (hone : ∀ key j, registry s'.svc key = some j → j.oneshot = true)
    (hcalled : ∀ c, s'.current = some c → s'.slots.live c.ctx = some (c.fd, c.op)) (hslots : s'.slots = s.slots) :
    Outcome s a s' .idle where
  valid := hv
  oneshot := hone
  called := hcalled
  possible := trivial
  next := hslots
  enters := fun ctx => iff_of_false (ha.enters ctx) (by simp)
  callsBack := fun ctx => iff_of_false (ha.callsBack ctx) (by simp)
  accepted := iff_of_true ha.accepted (by simp)
  free := fun _ => ⟨trivial, iff_of_true ha.free id⟩

theorem resume_while_outcome {s : System} {a : Action} (hs : Steady s) (ha : Plain s a)
    (hcur : s.current = none) {svc : Service JobFunction} (hv : Valid svc.lookupTable)
    (hreg : registry svc = registry s.svc) : Outcome s a (s.resume (whileRunning svc)) .idle := by
  have hnone : (s.resume (whileRunning svc)).current = none := by
    unfold System.current System.resume whileRunning
    cases svc.running <;> rfl
  apply ha.idle hv
  · intro key j hj
    exact hs.oneshot key j (hreg ▸ hj)
  · intro c hc
    rw [hnone] at hc
    cases hc
  · apply Slots.ext
    · rfl
    · show (fun key => (registry svc key).map Posted.ctx) = _
      rw [hreg]
      rfl
    · show (s.resume (whileRunning svc)).current.map Call.ctx = s.current.map Call.ctx
      rw [hnone, hcur]

theorem resume_dispatch_outcome {s : System} {a : Action} (hs : Steady s) (ha : Plain s a)
    (hcur : s.current = none) (fd : ℤ) (events : UInt32) (ops : List SvcOp) :
    ∃ o, Outcome s a (s.resume (dispatch s.svc fd events ops)) o := by
  cases dispatch_cases s.svc fd events ops with
  | inl hwhile =>
    rw [hwhile]
    exact ⟨.idle, resume_while_outcome hs ha hcur hs.valid rfl⟩
  | inr hpick =>
    obtain ⟨e, op, rest, job, hfind, hjob, hpick⟩ := hpick
    have hreg := registry_of_find hfind hjob
    have hone : (e.job op).oneshot = true := hs.oneshot _ _ hreg
    have hplace : s.slots.place (fd, op) = some (e.job op).ctx := by
      show (registry s.svc (fd, op)).map Posted.ctx = _
      rw [hreg, Option.map_some]
    have hnew := registry_pick_oneshot hs.valid hfind hone
    rw [hpick]
    refine ⟨.take (fd, op) (e.job op).ctx, valid_pick hs.valid e op, ?_, ?_, ⟨hplace, ?_⟩, ?_,
      fun ctx => iff_of_false (ha.enters ctx) (by simp), fun ctx => iff_of_false (ha.callsBack ctx) (by simp),
      iff_of_true ha.accepted (by simp), fun _ => ⟨trivial, iff_of_true ha.free id⟩⟩
    · intro key j hj
      have hj' : Function.update (registry s.svc) (fd, op) none key = some j := hnew ▸ hj
      exact hs.oneshot key j (Store.update_none_iff.mp hj').2
    · intro c hc
      obtain rfl := Option.some.inj hc
      exact hs.coherent.waiting (fd, op) _ hplace
    · show s.current.map Call.ctx = none
      rw [hcur, Option.map_none]
    · apply Slots.ext
      · rfl
      · show (fun key => (registry (pick s.svc e op) key).map Posted.ctx) = _
        rw [hnew, Store.map_update]
        rfl
      · rfl

/-- A request that is submitted is new, and its post is an offer of the slot while jobs are allowed. -/
theorem submit_some {s s' : System} (hs : Steady s) {ctx : UInt64} {srb : Srb}
    (hsubmit : s.submit ctx (some srb) = some s') :
    s.slots.live ctx = none ∧ s'.current = s.current ∧ Valid s'.svc.lookupTable ∧
    (∀ key j, registry s'.svc key = some j → j.oneshot = true) ∧
    s'.slots = { live := Function.update s.slots.live ctx (some srb.key)
                 place := if s.svc.allowNew = true ∧ s.slots.place srb.key = none then
                   Function.update s.slots.place srb.key (some ctx) else s.slots.place
                 running := s.slots.running } := by
  unfold System.submit at hsubmit
  simp only at hsubmit
  split_ifs at hsubmit with hguard
  obtain rfl := Option.some.inj hsubmit
  have hnone : s.requests ctx = none := by
    rw [← Option.not_isSome_iff_eq_none]
    exact fun hsome => hguard (Or.inr (Or.inl hsome))
  refine ⟨by simp [System.slots, hnone], rfl, valid_post true _ ctx hs.valid,
    oneshot_post hs.valid hs.oneshot _ _ ctx, ?_⟩
  apply Slots.ext
  · exact Store.map_update Srb.key s.requests ctx (some { srb with bytesOperated := 0 })
  · exact place_post hs.valid srb.endpoint.skt srb.op.iosvcOp ctx
  · rfl

theorem submit_outcome {s s' : System} {a : Action} (hs : Steady s) {ctx : UInt64} {request : Option Srb}
    (henters : ∀ ctx', Enters ctx' s a ↔ ctx' = ctx ∧
      ∃ srb ∈ request, s.svc.allowNew = true ∧ registry s.svc srb.key = none)
    (hcalls : ∀ ctx', ¬ CallsBack ctx' s a) (haccepted : RepostAccepted s a)
    (hslot : SlotFree s a ↔ ∀ srb ∈ request, registry s.svc srb.key = none)
    (hsubmit : s.submit ctx request = some s') : ∃ o, Outcome s a s' o := by
  cases request with
  | none =>
    obtain rfl := Option.some.inj hsubmit
    have ha : Plain s a := ⟨by simp [henters], hcalls, haccepted, by simp [hslot]⟩
    exact ⟨.idle, ha.idle hs.valid hs.oneshot hs.called rfl⟩
  | some srb =>
    obtain ⟨hfresh, hcur, hvalid, hone, hslots⟩ := submit_some hs hsubmit
    have hcalled : ∀ c, s'.current = some c → s'.slots.live c.ctx = some (c.fd, c.op) := by
      intro c hc
      -- the new request has a fresh address, so it is not the one being run
      have hold := hs.called c (hcur ▸ hc)
      have hne : c.ctx ≠ ctx := by
        rintro rfl
        rw [hfresh] at hold
        cases hold
      rw [hslots]
      exact (Function.update_of_ne hne _ _).trans hold
    by_cases hfree : s.svc.allowNew = true ∧ s.slots.place srb.key = none
    · rw [if_pos hfree] at hslots
      refine ⟨.accept srb.key ctx, hvalid, hone, hcalled, ⟨hfresh, hfree.2⟩, hslots, ?_,
        fun ctx' => iff_of_false (hcalls ctx') (by simp), iff_of_true haccepted (by simp),
        fun _ => ⟨trivial, iff_of_true ?_ id⟩⟩
      · intro ctx'
        rw [place_eq_none] at hfree
        simp [henters, hfree, eq_comm]
      · simpa [hslot, place_eq_none] using hfree.2
    · rw [if_neg hfree] at hslots
      refine ⟨.refuse srb.key ctx, hvalid, hone, hcalled, hfresh, hslots, ?_,
        fun ctx' => iff_of_false (hcalls ctx') (by simp), iff_of_true haccepted (by simp), ?_⟩
      · intro ctx'
        rw [place_eq_none] at hfree
        simp [henters, hfree]
      · intro hallow
        have htaken : s.slots.place srb.key ≠ none := fun hnone => hfree ⟨hallow, hnone⟩
        refine ⟨htaken, iff_of_false ?_ (not_not_intro trivial)⟩
        simpa [hslot, ← place_eq_none] using htaken

/-! ## The steps of the job that is called -/

section called
variable {s : System} {c : Call JobFunction} {srb : Srb} (hloop : s.loop = .invoking c)
  (hreq : s.requests c.ctx = some srb)
include hloop hreq

theorem callsBack_iff (ctx : UInt64) (r : KernelResult) : CallsBack ctx s (.attempt r) ↔
    ctx = c.ctx ∧ ∃ report, tcpSendRecvAsyncTpl srb r = .finish report := by
  constructor
  · intro hback
    obtain ⟨c', srb', r', report, hact, hloop', rfl, hreq', hfinish⟩ := hback
    obtain rfl := Loop.invoking.inj (hloop.symm.trans hloop')
    obtain rfl := Option.some.inj (hreq.symm.trans hreq')
    cases hact
    exact ⟨rfl, report, hfinish⟩
  · intro hfinish
    obtain ⟨rfl, report, hfinish⟩ := hfinish
    exact ⟨c, srb, r, report, rfl, hloop, rfl, hreq, hfinish⟩

theorem repostAccepted_iff : RepostAccepted s .repost ↔
    s.svc.allowNew = true ∧ s.slots.place (c.fd, srb.op.iosvcOp) = none := by
  rw [place_eq_none]
  constructor
  · intro hall
    exact hall rfl c srb hloop hreq
  · intro hfree _ c' srb' hloop' hreq'
    obtain rfl := Loop.invoking.inj (hloop.symm.trans hloop')
    obtain rfl := Option.some.inj (hreq.symm.trans hreq')
    exact hfree

theorem slotFree_repost_iff : SlotFree s .repost ↔ s.slots.place (c.fd, srb.op.iosvcOp) = none := by
  rw [place_eq_none]
  constructor
  · intro hall
    exact hall c srb hloop hreq
  · intro hnone c' srb' hloop' hreq'
    obtain rfl := Loop.invoking.inj (hloop.symm.trans hloop')
    obtain rfl := Option.some.inj (hreq.symm.trans hreq')
    exact hnone

end called

theorem attempt_outcome {s : System} (hs : Steady s) {c : Call JobFunction} {srb : Srb}
    (hloop : s.loop = .invoking c) (hprogress : s.progress = .entered) (hreq : s.requests c.ctx = some srb)
    (r : KernelResult) :
    ∃ o, Outcome s (.attempt r) (s.attempted c.ctx (tcpSendRecvAsyncTpl srb r)) o := by
  have hcur : s.current = some c := by
    unfold System.current
    rw [hloop, hprogress]
  have hlive : s.slots.live c.ctx = some srb.key := Option.map_eq_some_iff.mpr ⟨srb, hreq, rfl⟩
  have hcalls := fun ctx => callsBack_iff hloop hreq ctx r
  have henters : ∀ ctx, ¬ Enters ctx s (.attempt r) := by simp [Enters]
  have haccepted : RepostAccepted s (.attempt r) := by simp [RepostAccepted]
  cases hnext : tcpSendRecvAsyncTpl srb r with
  | post srb' =>
    have ha : Plain s (.attempt r) := by
      refine ⟨henters, ?_, haccepted, trivial⟩
      intro ctx
      simp [hcalls, hnext]
    have hcur' : (s.attempted c.ctx (.post srb')).current = some c := by
      unfold System.attempted System.current
      rw [hloop]
    have hslots : (s.attempted c.ctx (.post srb')).slots = s.slots := by
      apply Slots.ext
      · refine (Store.map_update Srb.key s.requests c.ctx (some srb')).trans ?_
        rw [Option.map_some, tpl_post_key hnext, ← hlive]
        exact Function.update_eq_self c.ctx s.slots.live
      · rfl
      · show (s.attempted c.ctx (.post srb')).current.map Call.ctx = s.current.map Call.ctx
        rw [hcur', hcur]
    refine ⟨.idle, ha.idle hs.valid hs.oneshot ?_ hslots⟩
    intro c' hc'
    rw [hslots]
    rw [hcur', ← hcur] at hc'
    exact hs.called c' hc'
  | finish report =>
    have hcur' : (s.attempted c.ctx (.finish report)).current = none := by
      unfold System.attempted System.current
      rw [hloop]
    refine ⟨.finish c.ctx, hs.valid, hs.oneshot, ?_, ?_, ?_, fun ctx => iff_of_false (henters ctx) (by simp), ?_,
      iff_of_true haccepted (by simp), fun _ => ⟨trivial, iff_of_true trivial id⟩⟩
    · intro c' hc'
      rw [hcur'] at hc'
      cases hc'
    · show s.current.map Call.ctx = some c.ctx
      rw [hcur, Option.map_some]
    · apply Slots.ext
      · exact Store.map_update Srb.key s.requests c.ctx none
      · rfl
      · show (s.attempted c.ctx (.finish report)).current.map Call.ctx = none
        rw [hcur', Option.map_none]
    · intro ctx
      simp [hcalls, hnext, eq_comm]

theorem repost_outcome {s : System} (hs : Steady s) {c : Call JobFunction} {srb : Srb}
    (hloop : s.loop = .invoking c) (hprogress : s.progress = .posting) (hreq : s.requests c.ctx = some srb) :
    ∃ o, Outcome s .repost (s.repost c srb) o := by
  have hcur : s.current = some c := by
    unfold System.current
    rw [hloop, hprogress]
  have hcur' : (s.repost c srb).current = none := by
    unfold System.repost System.current
    rw [hloop]
  have hrun : s.slots.running = some c.ctx := by
    show s.current.map Call.ctx = some c.ctx
    rw [hcur, Option.map_some]
  have hrest : (s.repost c srb).slots.running = none := by
    show (s.repost c srb).current.map Call.ctx = none
    rw [hcur', Option.map_none]
  have hlive : s.slots.live c.ctx = some srb.key := Option.map_eq_some_iff.mpr ⟨srb, hreq, rfl⟩
  have hkey : srb.key = (c.fd, srb.op.iosvcOp) := by
    have hcalled := Option.some.inj (hlive.symm.trans (hs.called c hcur))
    rw [Prod.ext_iff] at hcalled ⊢
    exact ⟨hcalled.1, rfl⟩
  have hplace := place_post hs.valid c.fd srb.op.iosvcOp c.ctx
  have hvalid : Valid (s.repost c srb).svc.lookupTable := valid_post true _ c.ctx hs.valid
  have hone := oneshot_post hs.valid hs.oneshot c.fd srb.op.iosvcOp c.ctx
  have hcalled : ∀ c', (s.repost c srb).current = some c' →
      (s.repost c srb).slots.live c'.ctx = some (c'.fd, c'.op) := by
    intro c' hc'
    rw [hcur'] at hc'
    cases hc'
  have haccepted := repostAccepted_iff hloop hreq
  have hslot := slotFree_repost_iff hloop hreq
  have henters : ∀ ctx, ¬ Enters ctx s .repost := by simp [Enters]
  have hcalls : ∀ ctx, ¬ CallsBack ctx s .repost := by simp [CallsBack]
  by_cases hfree : s.svc.allowNew = true ∧ s.slots.place (c.fd, srb.op.iosvcOp) = none
  · rw [if_pos hfree] at hplace
    exact ⟨.requeue (c.fd, srb.op.iosvcOp) c.ctx, hvalid, hone, hcalled, ⟨hrun, hkey ▸ hlive, hfree.2⟩,
      Slots.ext rfl hplace hrest, fun ctx => iff_of_false (henters ctx) (by simp),
      fun ctx => iff_of_false (hcalls ctx) (by simp), iff_of_true (haccepted.mpr hfree) (by simp),
      fun _ => ⟨trivial, iff_of_true (hslot.mpr hfree.2) id⟩⟩
  · rw [if_neg hfree] at hplace
    refine ⟨.abandon c.ctx, hvalid, hone, hcalled, hrun, Slots.ext rfl hplace hrest,
      fun ctx => iff_of_false (henters ctx) (by simp), fun ctx => iff_of_false (hcalls ctx) (by simp),
      iff_of_false (fun h => hfree (haccepted.mp h)) ?_, ?_⟩
    · intro hall
      exact hall c.ctx rfl
    · intro hallow
      have htaken : s.slots.place (c.fd, srb.op.iosvcOp) ≠ none := fun hnone => hfree ⟨hallow, hnone⟩
      exact ⟨⟨_, hkey ▸ hlive, htaken⟩, iff_of_false (fun h => htaken (hslot.mp h)) (not_not_intro trivial)⟩

theorem step_outcome {s s' : System} {a : Action} (hs : Steady s) (h : Step s a s') :
    ∃ o, Outcome s a s' o := by
  cases h with
  | send hsubmit =>
    refine submit_outcome hs ?_ (by simp [CallsBack]) (by simp [RepostAccepted]) Iff.rfl hsubmit
    intro ctx'
    constructor
    · rintro ⟨client, buffer, srb, ⟨heq, hsrb⟩ | ⟨heq, -⟩, hfree⟩
      · cases heq
        exact ⟨rfl, srb, hsrb, hfree⟩
      · cases heq
    · rintro ⟨rfl, srb, hsrb, hfree⟩
      exact ⟨_, _, srb, Or.inl ⟨rfl, hsrb⟩, hfree⟩
  | recv hsubmit =>
    refine submit_outcome hs ?_ (by simp [CallsBack]) (by simp [RepostAccepted]) Iff.rfl hsubmit
    intro ctx'
    constructor
    · rintro ⟨client, buffer, srb, ⟨heq, -⟩ | ⟨heq, hsrb⟩, hfree⟩
      · cases heq
      · cases heq
        exact ⟨rfl, srb, hsrb, hfree⟩
    · rintro ⟨rfl, srb, hsrb, hfree⟩
      exact ⟨_, _, srb, Or.inr ⟨rfl, hsrb⟩, hfree⟩
  | run hloop =>
    have ha : Plain s Action.run := ⟨by simp [Enters], by simp [CallsBack], by simp [RepostAccepted], trivial⟩
    have hcur : s.current = none := by
      unfold System.current
      rw [hloop]
    exact ⟨.idle, resume_while_outcome hs ha hcur hs.valid rfl⟩
  | interrupted hloop =>
    have ha : Plain s Action.interrupted := ⟨by simp [Enters], by simp [CallsBack], by simp [RepostAccepted], trivial⟩
    have hcur : s.current = none := by
      unfold System.current
      rw [hloop]
    exact ⟨.idle, resume_while_outcome hs ha hcur hs.valid rfl⟩
  | @wake fd events hloop _ =>
    have ha : Plain s (.wake fd events) := ⟨by simp [Enters], by simp [CallsBack], by simp [RepostAccepted], trivial⟩
    have hcur : s.current = none := by
      unfold System.current
      rw [hloop]
    unfold IoService.wake
    split_ifs with hfd
    · exact ⟨.idle, resume_while_outcome hs ha hcur (valid_handleNotification hs.valid)
        (registry_handleNotification hs.valid)⟩
    · exact resume_dispatch_outcome hs ha hcur fd events allOps
  | @call c hloop =>
    have ha : Plain s Action.call := ⟨by simp [Enters], by simp [CallsBack], by simp [RepostAccepted], trivial⟩
    have hcur : System.current { s with loop := .invoking c, progress := .entered } = s.current := by
      unfold System.current
      rw [hloop]
    refine ⟨.idle, ha.idle hs.valid hs.oneshot (fun c' hc' => hs.called c' (hcur ▸ hc')) ?_⟩
    apply Slots.ext
    · rfl
    · rfl
    · exact congrArg (Option.map Call.ctx) hcur
  | attempt hloop hprogress hreq _ => exact attempt_outcome hs hloop hprogress hreq _
  | repost hloop hprogress hreq => exact repost_outcome hs hloop hprogress hreq
  | @back c hloop hprogress =>
    have ha : Plain s Action.back := ⟨by simp [Enters], by simp [CallsBack], by simp [RepostAccepted], trivial⟩
    have hcur : s.current = none := by
      unfold System.current
      rw [hloop, hprogress]
    exact resume_dispatch_outcome hs ha hcur c.fd c.events c.rest

theorem Steady.held_iff {s : System} (hs : Steady s) (ctx : UInt64) : s.slots.Held ctx ↔
    (∃ c, s.current = some c ∧ c.ctx = ctx) ∨ ∃ srb, s.requests ctx = some srb ∧ Registered s ctx srb := by
  have hrun : (∃ c, s.current = some c ∧ c.ctx = ctx) ↔ s.slots.running = some ctx := Option.map_eq_some_iff.symm
  rw [hrun]
  apply or_congr_right
  constructor
  · intro hplace
    obtain ⟨key, hkey⟩ := hplace
    obtain ⟨srb, hreq, rfl⟩ := Option.map_eq_some_iff.mp (hs.coherent.waiting key ctx hkey)
    exact ⟨srb, hreq, (registered_iff hs.valid hs.oneshot ctx srb).mpr hkey⟩
  · intro hreg
    obtain ⟨srb, -, hreg⟩ := hreg
    exact ⟨srb.key, (registered_iff hs.valid hs.oneshot ctx srb).mp hreg⟩


end Chats.Network
