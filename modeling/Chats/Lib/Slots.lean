import Chats.Lib.Store

/-! Requests that compete for places. Each request waits in the place it was submitted for, one
request at most in a place, until it is taken out and run; then it ends or goes back. A request
that finds its place taken is neither run nor waits any more. -/
namespace Chats.Lib
set_option autoImplicit false

/-- The requests that have not ended, each with its place; who waits where; who is being run. -/
@[ext] structure Slots (κ ρ : Type) where
  live : Store ρ κ
  place : Store κ ρ
  running : Option ρ

namespace Slots
variable {κ ρ : Type}

section operations
variable [DecidableEq κ] [DecidableEq ρ]

/-- Puts a request in a place unless another one is there. -/
def offer (t : Slots κ ρ) (k : κ) (r : ρ) : Slots κ ρ :=
  if t.place k = none then { t with place := Function.update t.place k (some r) } else t

def submit (t : Slots κ ρ) (k : κ) (r : ρ) : Slots κ ρ :=
  { t with live := Function.update t.live r (some k) }.offer k r

def take (t : Slots κ ρ) (k : κ) (r : ρ) : Slots κ ρ :=
  { t with place := Function.update t.place k none, running := some r }

def finish (t : Slots κ ρ) (r : ρ) : Slots κ ρ :=
  { t with live := Function.update t.live r none, running := none }

def repost (t : Slots κ ρ) (k : κ) (r : ρ) : Slots κ ρ := { t with running := none }.offer k r

/-! ## What may happen -/

inductive Event (κ ρ : Type)
  | idle
  | submit (k : κ) (r : ρ)
  | take (k : κ) (r : ρ)
  | finish (r : ρ)
  | repost (k : κ) (r : ρ)

def step (t : Slots κ ρ) : Event κ ρ → Slots κ ρ
  | .idle => t
  | .submit k r => t.submit k r
  | .take k r => t.take k r
  | .finish r => t.finish r
  | .repost k r => t.repost k r

end operations

def Enabled (t : Slots κ ρ) : Event κ ρ → Prop
  | .idle => True
  | .submit _ r => t.live r = none
  | .take k r => t.place k = some r ∧ t.running = none
  | .finish r => t.running = some r
  | .repost k r => t.running = some r ∧ t.live r = some k

/-- A request that is put somewhere finds its place free. -/
def Free (t : Slots κ ρ) : Event κ ρ → Prop
  | .submit k _ => t.place k = none
  | .repost k _ => t.place k = none
  | _ => True

/-- No request was lost. -/
def Kept (t : Slots κ ρ) : Prop := ∀ r k, t.live r = some k → t.running = some r ∨ t.place k = some r

structure Invariant (t : Slots κ ρ) : Prop where
  waiting : ∀ k r, t.place k = some r → t.live r = some k
  running : ∀ r, t.running = some r → (∃ k, t.live r = some k) ∧ ∀ k, t.place k ≠ some r
  kept : t.Kept

def empty : Slots κ ρ := { live := fun _ => none, place := fun _ => none, running := none }

theorem invariant_empty : (empty : Slots κ ρ).Invariant := by
  constructor
  · intro k r h
    cases h
  · intro r h
    cases h
  · intro r k h
    cases h

/-! ## What an event does -/

variable {t : Slots κ ρ} {k : κ} {r : ρ}

/-- Who waits is live, and who is run is live and does not wait. Some live requests may do neither. -/
structure Coherent (t : Slots κ ρ) : Prop where
  waiting : ∀ k r, t.place k = some r → t.live r = some k
  running : ∀ r, t.running = some r → (∃ k, t.live r = some k) ∧ ∀ k, t.place k ≠ some r

theorem Invariant.coherent (h : t.Invariant) : t.Coherent := ⟨h.waiting, h.running⟩

/-- A request that is not live is in no place. -/
theorem Coherent.not_placed (h : t.Coherent) (hr : t.live r = none) (k : κ) : t.place k ≠ some r := by
  intro hk
  rw [h.waiting k r hk] at hr
  cases hr

theorem Coherent.not_running (h : t.Coherent) (hr : t.live r = none) : t.running ≠ some r := by
  intro hrun
  obtain ⟨⟨k, hk⟩, -⟩ := h.running r hrun
  rw [hk] at hr
  cases hr

theorem Coherent.rest (h : t.Coherent) : Coherent { t with running := none } := by
  refine ⟨h.waiting, ?_⟩
  intro r' hr'
  cases hr'

variable [DecidableEq κ] [DecidableEq ρ]

omit [DecidableEq κ] in
theorem Coherent.enter (h : t.Coherent) (hr : t.live r = none) (k : κ) :
    Coherent { t with live := Function.update t.live r (some k) } := by
  have hold : ∀ {r' k'}, t.live r' = some k' → Function.update t.live r (some k) r' = some k' := by
    intro r' k' hlive
    refine Store.update_some_iff.mpr (Or.inr ⟨?_, hlive⟩)
    rintro rfl
    rw [hr] at hlive
    cases hlive
  constructor
  · intro k' r' hk'
    exact hold (h.waiting k' r' hk')
  · intro r' hrun
    obtain ⟨⟨k', hlive⟩, hplace⟩ := h.running r' hrun
    exact ⟨⟨k', hold hlive⟩, hplace⟩

omit [DecidableEq ρ] in
theorem Coherent.put (h : t.Coherent) (hr : t.live r = some k) (hrun : t.running ≠ some r) :
    Coherent { t with place := Function.update t.place k (some r) } := by
  constructor
  · intro k' r' hk'
    obtain ⟨rfl, rfl⟩ | ⟨-, hold⟩ := Store.update_some_iff.mp hk'
    · exact hr
    · exact h.waiting k' r' hold
  · intro r' hr'
    obtain ⟨hlive, hplace⟩ := h.running r' hr'
    refine ⟨hlive, ?_⟩
    intro k' hk'
    obtain ⟨-, rfl⟩ | ⟨-, hold⟩ := Store.update_some_iff.mp hk'
    · exact hrun hr'
    · exact hplace k' hold

omit [DecidableEq ρ] in
theorem Coherent.take (h : t.Coherent) (hk : t.place k = some r) : (t.take k r).Coherent := by
  have hlive := h.waiting k r hk
  constructor
  · intro k' r' hk'
    exact h.waiting k' r' (Store.update_none_iff.mp hk').2
  · intro r' hr'
    obtain rfl := Option.some.inj hr'
    refine ⟨⟨k, hlive⟩, ?_⟩
    intro k' hk'
    obtain ⟨hne, hold⟩ := Store.update_none_iff.mp hk'
    have hlive' := h.waiting k' r hold
    rw [hlive] at hlive'
    exact hne (Option.some.inj hlive').symm

omit [DecidableEq κ] in
theorem Coherent.finish (h : t.Coherent) (hrun : t.running = some r) : (t.finish r).Coherent := by
  obtain ⟨-, hnot⟩ := h.running r hrun
  constructor
  · intro k' r' hk'
    have hne : r' ≠ r := by
      intro heq
      exact hnot k' (heq ▸ hk')
    exact Store.update_none_iff.mpr ⟨hne, h.waiting k' r' hk'⟩
  · intro r' hr'
    cases hr'

theorem submit_free (hfree : t.place k = none) : t.submit k r =
    { live := Function.update t.live r (some k)
      place := Function.update t.place k (some r)
      running := t.running } := by
  unfold Slots.submit offer
  rw [if_pos hfree]

omit [DecidableEq ρ] in
theorem repost_free (hfree : t.place k = none) : t.repost k r =
    { live := t.live, place := Function.update t.place k (some r), running := none } := by
  unfold Slots.repost offer
  rw [if_pos hfree]

theorem Invariant.submit (h : t.Invariant) (hr : t.live r = none) (hfree : t.place k = none) :
    (t.submit k r).Invariant := by
  rw [submit_free hfree]
  obtain ⟨hwaiting, hrunning⟩ := (h.coherent.enter hr k).put (Function.update_self r _ _) (h.coherent.not_running hr)
  refine ⟨hwaiting, hrunning, ?_⟩
  intro r' k' hlive
  obtain ⟨hnew, hkey⟩ | ⟨-, hold⟩ := Store.update_some_iff.mp hlive
  · exact Or.inr (Store.update_some_iff.mpr (Or.inl ⟨hkey, hnew⟩))
  · refine (h.kept r' k' hold).imp_right fun hplace => ?_
    have hne : k' ≠ k := by
      intro heq
      rw [heq, hfree] at hplace
      cases hplace
    exact Store.update_some_iff.mpr (Or.inr ⟨hne, hplace⟩)

theorem Invariant.take (h : t.Invariant) (hk : t.place k = some r) (hrun : t.running = none) :
    (t.take k r).Invariant := by
  obtain ⟨hwaiting, hrunning⟩ := h.coherent.take hk
  refine ⟨hwaiting, hrunning, ?_⟩
  intro r' k' hlive'
  by_cases hrr : r' = r
  · exact Or.inl (congrArg some hrr.symm)
  · have hkept := h.kept r' k' hlive'
    rw [hrun] at hkept
    have hplace := hkept.resolve_left (by simp)
    have hne : k' ≠ k := by
      intro heq
      rw [heq, hk] at hplace
      exact hrr (Option.some.inj hplace).symm
    exact Or.inr (Store.update_none_iff.mpr ⟨hne, hplace⟩)

omit [DecidableEq κ] in
theorem Invariant.finish (h : t.Invariant) (hrun : t.running = some r) : (t.finish r).Invariant := by
  obtain ⟨hwaiting, hrunning⟩ := h.coherent.finish hrun
  refine ⟨hwaiting, hrunning, ?_⟩
  intro r' k' hlive
  obtain ⟨hne, hold⟩ := Store.update_none_iff.mp hlive
  have hkept := h.kept r' k' hold
  rw [hrun] at hkept
  exact Or.inr (hkept.resolve_left fun heq => hne (Option.some.inj heq).symm)

theorem Invariant.repost (h : t.Invariant) (hrun : t.running = some r) (hr : t.live r = some k)
    (hfree : t.place k = none) : (t.repost k r).Invariant := by
  rw [repost_free hfree]
  obtain ⟨hwaiting, hrunning⟩ := h.coherent.rest.put (r := r) hr (by simp)
  refine ⟨hwaiting, hrunning, ?_⟩
  intro r' k' hlive
  refine Or.inr (Store.update_some_iff.mpr ?_)
  by_cases hrr : r' = r
  · subst hrr
    exact Or.inl ⟨Option.some.inj (hlive.symm.trans hr), rfl⟩
  · have hkept := h.kept r' k' hlive
    rw [hrun] at hkept
    have hplace := hkept.resolve_left fun heq => hrr (Option.some.inj heq).symm
    have hne : k' ≠ k := by
      intro heq
      rw [heq, hfree] at hplace
      cases hplace
    exact Or.inr ⟨hne, hplace⟩

/-- A request that is put into a free place, or none, leaves no request lost. -/
theorem Invariant.step (h : t.Invariant) {e : Event κ ρ} (he : t.Enabled e) (hfree : t.Free e) :
    (t.step e).Invariant := by
  cases e with
  | idle => exact h
  | submit k r => exact h.submit he hfree
  | take k r => exact h.take he.1 he.2
  | finish r => exact h.finish he
  | repost k r => exact h.repost he.1 he.2 hfree

theorem submit_taken (htaken : t.place k ≠ none) :
    t.submit k r = { t with live := Function.update t.live r (some k) } := by
  unfold Slots.submit offer
  exact if_neg htaken

omit [DecidableEq ρ] in
theorem repost_taken (htaken : t.place k ≠ none) : t.repost k r = { t with running := none } := by
  unfold Slots.repost offer
  exact if_neg htaken

/-- A request that is put into a taken place is lost. -/
theorem Invariant.lost (h : t.Invariant) {e : Event κ ρ} (he : t.Enabled e) (htaken : ¬ t.Free e) :
    ¬ (t.step e).Kept := by
  intro hkept
  cases e with
  | idle => exact htaken trivial
  | take k r => exact htaken trivial
  | finish r => exact htaken trivial
  | submit k r =>
    rw [Slots.step, submit_taken htaken] at hkept
    cases hkept r k (Function.update_self ..) with
    | inl hrun => exact h.coherent.not_running he hrun
    | inr hplace => exact h.coherent.not_placed he k hplace
  | repost k r =>
    rw [Slots.step, repost_taken htaken] at hkept
    cases hkept r k he.2 with
    | inl hrun => cases hrun
    | inr hplace => exact (h.running r he.1).2 k hplace

/-! ## Requests that are turned away -/

/-- The request waits or is run. -/
def Held (t : Slots κ ρ) (r : ρ) : Prop := t.running = some r ∨ ∃ k, t.place k = some r

/-- What becomes of the requests when a post may also be turned away: a new request is accepted or
refused, and one that was run goes back or is abandoned. -/
inductive Outcome (κ ρ : Type)
  | idle
  | accept (k : κ) (r : ρ)
  | refuse (k : κ) (r : ρ)
  | take (k : κ) (r : ρ)
  | finish (r : ρ)
  | requeue (k : κ) (r : ρ)
  | abandon (r : ρ)

def next (t : Slots κ ρ) : Outcome κ ρ → Slots κ ρ
  | .idle => t
  | .accept k r => { t with live := Function.update t.live r (some k), place := Function.update t.place k (some r) }
  | .refuse k r => { t with live := Function.update t.live r (some k) }
  | .take k r => t.take k r
  | .finish r => t.finish r
  | .requeue k r => { t with place := Function.update t.place k (some r), running := none }
  | .abandon _ => { t with running := none }

omit [DecidableEq κ] [DecidableEq ρ] in
def Possible (t : Slots κ ρ) : Outcome κ ρ → Prop
  | .idle => True
  | .accept k r => t.live r = none ∧ t.place k = none
  | .refuse _ r => t.live r = none
  | .take k r => t.place k = some r ∧ t.running = none
  | .finish r => t.running = some r
  | .requeue k r => t.running = some r ∧ t.live r = some k ∧ t.place k = none
  | .abandon r => t.running = some r

def Outcome.TurnsAway : Outcome κ ρ → Prop
  | .refuse _ _ => True
  | .abandon _ => True
  | _ => False

omit [DecidableEq κ] [DecidableEq ρ] in
/-- A request is turned away only by the one that is in its place. -/
def Taken (t : Slots κ ρ) : Outcome κ ρ → Prop
  | .refuse k _ => t.place k ≠ none
  | .abandon r => ∃ k, t.live r = some k ∧ t.place k ≠ none
  | _ => True

/-- Such an outcome is that of an event. -/
theorem next_eq_step {o : Outcome κ ρ} (ho : t.Possible o) (htaken : t.Taken o) :
    ∃ e, t.Enabled e ∧ t.next o = t.step e ∧ (t.Free e ↔ ¬ o.TurnsAway) := by
  cases o with
  | idle => exact ⟨.idle, trivial, rfl, iff_of_true trivial id⟩
  | accept k r => exact ⟨.submit k r, ho.1, (submit_free ho.2).symm, iff_of_true ho.2 id⟩
  | refuse k r =>
    exact ⟨.submit k r, ho, (submit_taken htaken).symm, iff_of_false htaken (not_not_intro trivial)⟩
  | take k r => exact ⟨.take k r, ho, rfl, iff_of_true trivial id⟩
  | finish r => exact ⟨.finish r, ho, rfl, iff_of_true trivial id⟩
  | requeue k r => exact ⟨.repost k r, ⟨ho.1, ho.2.1⟩, (repost_free ho.2.2).symm, iff_of_true ho.2.2 id⟩
  | abandon r =>
    obtain ⟨k, hlive, htaken⟩ := htaken
    exact ⟨.repost k r, ⟨ho, hlive⟩, (repost_taken htaken).symm, iff_of_false htaken (not_not_intro trivial)⟩

theorem Coherent.next (h : t.Coherent) {o : Outcome κ ρ} (ho : t.Possible o) : (t.next o).Coherent := by
  cases o with
  | idle => exact h
  | accept k r => exact (h.enter ho.1 k).put (Function.update_self r _ _) (h.not_running ho.1)
  | refuse k r => exact h.enter ho k
  | take k r => exact h.take ho.1
  | finish r => exact h.finish ho
  | requeue k r => exact h.rest.put (r := r) ho.2.1 (by simp)
  | abandon r => exact h.rest

omit [DecidableEq ρ] in
theorem placed_put (hfree : t.place k = none) (r r' : ρ) :
    (∃ k', Function.update t.place k (some r) k' = some r') ↔ r = r' ∨ ∃ k', t.place k' = some r' := by
  constructor
  · intro hex
    obtain ⟨k', hk'⟩ := hex
    obtain ⟨-, hnew⟩ | ⟨-, hold⟩ := Store.update_some_iff.mp hk'
    · exact Or.inl hnew.symm
    · exact Or.inr ⟨k', hold⟩
  · intro hor
    cases hor with
    | inl hnew => exact ⟨k, Store.update_some_iff.mpr (Or.inl ⟨rfl, hnew.symm⟩)⟩
    | inr hex =>
      obtain ⟨k', hk'⟩ := hex
      refine ⟨k', Store.update_some_iff.mpr (Or.inr ⟨?_, hk'⟩)⟩
      rintro rfl
      rw [hfree] at hk'
      cases hk'

omit [DecidableEq κ] [DecidableEq ρ] in
/-- Who waits is not the one that was run. -/
theorem Coherent.placed_iff (h : t.Coherent) (hrun : t.running = some r) (r' : ρ) :
    (∃ k, t.place k = some r') ↔ t.Held r' ∧ r' ≠ r := by
  constructor
  · intro hex
    refine ⟨Or.inr hex, ?_⟩
    rintro rfl
    obtain ⟨k, hk⟩ := hex
    exact (h.running r' hrun).2 k hk
  · intro hheld
    obtain ⟨hrun' | hex, hne⟩ := hheld
    · exact absurd (Option.some.inj (hrun'.symm.trans hrun)) hne
    · exact hex

/-- A request is held if it was accepted, or was held and has neither ended nor been abandoned. -/
theorem Coherent.held_next (h : t.Coherent) {o : Outcome κ ρ} (ho : t.Possible o) (r : ρ) :
    (t.next o).Held r ↔ (∃ k, o = .accept k r) ∨ (t.Held r ∧ o ≠ .finish r ∧ o ≠ .abandon r) := by
  cases o with
  | idle => simp [Slots.next]
  | accept k r' =>
    have hplaced := placed_put ho.2 r' r
    unfold Held Slots.next
    simp only [hplaced]
    simp [eq_comm, or_left_comm]
  | refuse k r' => simp [Slots.next, Held]
  | take k r' =>
    obtain ⟨hk, hrun⟩ := ho
    have hrest : (t.take k r').Held r ↔ t.Held r := by
      unfold Held Slots.take
      simp only [hrun, Store.update_none_iff]
      constructor
      · intro hor
        obtain hself | ⟨k', -, hold⟩ := hor
        · exact Or.inr ⟨k, Option.some.inj hself ▸ hk⟩
        · exact Or.inr ⟨k', hold⟩
      · intro hor
        obtain ⟨k', hold⟩ := hor.resolve_left (by simp)
        by_cases hkk : k' = k
        · rw [hkk, hk] at hold
          exact Or.inl hold
        · exact Or.inr ⟨k', hkk, hold⟩
    simp [Slots.next, hrest]
  | finish r' =>
    have hrest : (t.finish r').Held r ↔ ∃ k, t.place k = some r := by simp [Held, Slots.finish]
    rw [Slots.next, hrest, h.placed_iff ho r]
    simp [eq_comm]
  | requeue k r' =>
    have hrest : Held { t with place := Function.update t.place k (some r'), running := none } r ↔
        r' = r ∨ ∃ k, t.place k = some r := by
      rw [← placed_put ho.2.2 r' r]
      simp [Held]
    rw [Slots.next, hrest, h.placed_iff ho.1 r]
    by_cases hr : r' = r
    · simp [hr, Held, hr ▸ ho.1]
    · simp [hr, Ne.symm hr]
  | abandon r' =>
    have hrest : Held { t with running := none } r ↔ ∃ k, t.place k = some r := by simp [Held]
    rw [Slots.next, hrest, h.placed_iff ho r]
    simp [eq_comm]

end Slots
end Chats.Lib
