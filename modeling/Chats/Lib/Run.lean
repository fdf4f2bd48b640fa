import Mathlib.Tactic

/-! Runs of a labelled transition system, kept with the states they pass through, and the
rules by which what one step preserves becomes what a whole run preserves. -/
namespace Chats.Lib
set_option autoImplicit false

variable {σ ι : Type}

/-- `Run step s₀ h s`: from `s₀` the steps of `h` (latest first, each with the state it was
taken in) lead to `s`. -/
inductive Run (step : σ → ι → σ → Prop) (s₀ : σ) : List (σ × ι) → σ → Prop
  | start : Run step s₀ [] s₀
  | next {h : List (σ × ι)} {s s' : σ} {i : ι} : Run step s₀ h s → step s i s' → Run step s₀ ((s, i) :: h) s'

def visited (h : List (σ × ι)) (s : σ) : List σ := s :: h.map Prod.fst

/-- The moments of a run, latest first: each state with the history that led to it. -/
def moments : List (σ × ι) → σ → List (List (σ × ι) × σ)
  | [], s => [([], s)]
  | (t, i) :: h, s => ((t, i) :: h, s) :: moments h t

theorem visited_eq_moments (h : List (σ × ι)) (s : σ) : visited h s = (moments h s).map Prod.snd := by
  induction h generalizing s with
  | nil => rfl
  | cons e h ih =>
    have htail := ih e.1
    simp only [visited, moments, List.map_cons, List.cons.injEq, true_and] at htail ⊢
    exact htail

theorem mem_moments (h : List (σ × ι)) (s : σ) : (h, s) ∈ moments h s := by
  cases h with
  | nil => exact List.mem_singleton_self _
  | cons e h => exact List.mem_cons_self

theorem subset_of_mem_moments {h : List (σ × ι)} {s : σ} {m : List (σ × ι) × σ} (hm : m ∈ moments h s) : m.1 ⊆ h := by
  induction h generalizing s with
  | nil =>
    rw [moments, List.mem_singleton] at hm
    rw [hm]
    exact List.Subset.refl []
  | cons e h ih =>
    rw [moments, List.mem_cons] at hm
    cases hm with
    | inl hm =>
      rw [hm]
      exact List.Subset.refl _
    | inr hm => exact List.subset_cons_of_subset e (ih hm)

namespace Run
variable {step : σ → ι → σ → Prop} {s₀ s : σ} {h : List (σ × ι)}

theorem mem_visited (s : σ) (h : List (σ × ι)) : s ∈ visited h s := List.mem_cons_self

/-- What holds at the start and is kept by every step taken under `C` holds at the end of every run
all of whose steps are taken under `C`. -/
theorem keeps {C : σ → ι → Prop} {I : List (σ × ι) → σ → Prop} (h0 : I [] s₀)
    (hstep : ∀ h s i s', I h s → C s i → step s i s' → I ((s, i) :: h) s') (r : Run step s₀ h s)
    (hC : ∀ e ∈ h, C e.1 e.2) : I h s := by
  induction r with
  | start => exact h0
  | next r hs ih =>
    have hI := ih fun e he => hC e (List.mem_cons_of_mem _ he)
    exact hstep _ _ _ _ hI (hC _ List.mem_cons_self) hs

/-- What holds at the start, with nothing behind it, and is kept by every step of the run. -/
theorem invariant_history {I : List (σ × ι) → σ → Prop} (h0 : I [] s₀)
    (hstep : ∀ h s i s', I h s → step s i s' → I ((s, i) :: h) s') (r : Run step s₀ h s) : I h s :=
  r.keeps (C := fun _ _ => True) h0 (fun h s i s' hI _ hs => hstep h s i s' hI hs) fun _ _ => trivial

theorem invariant {I : σ → Prop} (h0 : I s₀) (hstep : ∀ s i s', I s → step s i s' → I s')
    (r : Run step s₀ h s) : I s :=
  r.invariant_history (I := fun _ s => I s) h0 fun _ => hstep

/-- Every moment of a run is the end of a run. -/
theorem of_mem_moments (r : Run step s₀ h s) : ∀ m ∈ moments h s, Run step s₀ m.1 m.2 := by
  induction r with
  | start =>
    intro m hm
    rw [moments, List.mem_singleton] at hm
    rw [hm]
    exact start
  | next r hs ih =>
    intro m hm
    rw [moments, List.mem_cons] at hm
    cases hm with
    | inl hm =>
      rw [hm]
      exact next r hs
    | inr hm => exact ih m hm

/-- What holds at the start and is kept by every step holds in every state of a run. -/
theorem forall_visited {I : σ → Prop} (h0 : I s₀) (hstep : ∀ s i s', I s → step s i s' → I s') (r : Run step s₀ h s) :
    ∀ x ∈ visited h s, I x := by
  rw [visited_eq_moments, List.forall_mem_map]
  intro m hm
  exact (r.of_mem_moments m hm).invariant h0 hstep

/-- A step of a run was taken at the end of a run. -/
theorem at_step {later earlier : List (σ × ι)} {t : σ} {i : ι}
    (r : Run step s₀ (later ++ (t, i) :: earlier) s) : Run step s₀ earlier t ∧ ∃ t', step t i t' := by
  induction later generalizing s with
  | nil =>
    cases r with
    | next r hs => exact ⟨r, _, hs⟩
  | cons e later ih =>
    cases r with
    | next r hs => exact ih r

/-! ## Conditions of the steps -/

/-- When a step keeps the invariant `I` (and with it `P`) under `C` and breaks `P` otherwise, `P` holds
at every moment of a run exactly when every step of the run was taken under `C`. -/
theorem forall_moments_iff {C : σ → ι → Prop} {I P : List (σ × ι) → σ → Prop} (h0 : I [] s₀)
    (hP : ∀ h s, I h s → P h s)
    (hgood : ∀ h s i s', I h s → C s i → step s i s' → I ((s, i) :: h) s')
    (hbad : ∀ h s i s', I h s → ¬ C s i → step s i s' → ¬ P ((s, i) :: h) s') (r : Run step s₀ h s) :
    (∀ m ∈ moments h s, P m.1 m.2) ↔ ∀ e ∈ h, C e.1 e.2 := by
  constructor
  · intro hall
    induction r with
    | start => simp
    | @next h s s' i r hs ih =>
      have hC := ih fun m hm => hall m (List.mem_cons_of_mem _ hm)
      have hi : C s i := by
        by_contra hn
        exact hbad h s i s' (r.keeps h0 hgood hC) hn hs (hall _ List.mem_cons_self)
      intro e he
      cases List.mem_cons.mp he with
      | inl he => exact he ▸ hi
      | inr he => exact hC e he
  · intro hC m hm
    have hearlier : ∀ e ∈ m.1, C e.1 e.2 := fun e he => hC e (subset_of_mem_moments hm he)
    exact hP m.1 m.2 ((r.of_mem_moments m hm).keeps h0 hgood hearlier)

/-- As `forall_moments_iff`, for an invariant and a property that do not look back. -/
theorem forall_iff {C : σ → ι → Prop} {I P : σ → Prop} (h0 : I s₀) (hP : ∀ s, I s → P s)
    (hgood : ∀ s i s', I s → C s i → step s i s' → I s')
    (hbad : ∀ s i s', I s → ¬ C s i → step s i s' → ¬ P s') (r : Run step s₀ h s) :
    (∀ x ∈ visited h s, P x) ↔ ∀ e ∈ h, C e.1 e.2 := by
  rw [visited_eq_moments, List.forall_mem_map]
  exact r.forall_moments_iff (I := fun _ s => I s) (P := fun _ s => P s) h0 (fun _ => hP)
    (fun _ => hgood) (fun _ => hbad)

/-! ## Replay -/

/-- The run through these labels of a system whose steps are a function, where all are enabled. -/
def replay (f : σ → ι → Option σ) : List (σ × ι) × σ → List ι → Option (List (σ × ι) × σ)
  | m, [] => some m
  | m, i :: is =>
    match f m.2 i with
    | none => none
    | some s' => replay f ((m.2, i) :: m.1, s') is

theorem of_replay {f : σ → ι → Option σ} {is : List ι} {m m' : List (σ × ι) × σ}
    (r : Run (fun s i s' => f s i = some s') s₀ m.1 m.2) (h : replay f m is = some m') :
    Run (fun s i s' => f s i = some s') s₀ m'.1 m'.2 := by
  induction is generalizing m with
  | nil => exact Option.some.inj h ▸ r
  | cons i is ih =>
    unfold replay at h
    split at h
    · cases h
    · rename_i s' hs
      exact ih (m := ((m.2, i) :: m.1, s')) (next r hs) h

end Run
end Chats.Lib
