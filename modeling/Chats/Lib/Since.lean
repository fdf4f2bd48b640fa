import Chats.Lib.Run

/-! What a history says about the present: something was set by one of its steps and no later step
has ended it. A predicate of the states that steps set and end in this way is the history's
`Since`, and every other fact about the past of a run is read off from that. -/
namespace Chats.Lib
set_option autoImplicit false

variable {σ ι : Type}

/-- A step of the history (latest first) set it, and none of the later ones ended it. -/
def Since (sets ends : σ → ι → Prop) (h : List (σ × ι)) : Prop :=
  ∃ later s i earlier, h = later ++ (s, i) :: earlier ∧ sets s i ∧ ∀ e ∈ later, ¬ ends e.1 e.2

section since
variable {sets ends : σ → ι → Prop} {s : σ} {i : ι} {h : List (σ × ι)}

@[simp] theorem since_nil : ¬ Since sets ends [] := by
  intro hsince
  obtain ⟨later, s, i, earlier, heq, -⟩ := hsince
  cases later <;> cases heq

/-- The last step sets it, or leaves what was set before. -/
@[simp] theorem since_cons :
    Since sets ends ((s, i) :: h) ↔ sets s i ∨ (Since sets ends h ∧ ¬ ends s i) := by
  constructor
  · intro hsince
    obtain ⟨later, t, j, earlier, heq, hset, hend⟩ := hsince
    cases later with
    | nil =>
      obtain ⟨hst, -⟩ := List.cons.inj heq
      obtain ⟨rfl, rfl⟩ := Prod.mk.inj hst
      exact Or.inl hset
    | cons e later =>
      obtain ⟨hst, htail⟩ := List.cons.inj heq
      subst hst
      exact Or.inr ⟨⟨later, t, j, earlier, htail, hset, fun e he => hend e (List.mem_cons_of_mem _ he)⟩,
        hend _ List.mem_cons_self⟩
  · intro hor
    cases hor with
    | inl hset => exact ⟨[], s, i, h, rfl, hset, by simp⟩
    | inr hkeep =>
      obtain ⟨⟨later, t, j, earlier, heq, hset, hend⟩, hnot⟩ := hkeep
      refine ⟨(s, i) :: later, t, j, earlier, congrArg ((s, i) :: ·) heq, hset, ?_⟩
      intro e he
      cases List.mem_cons.mp he with
      | inl he => exact he ▸ hnot
      | inr he => exact hend e he

end since

/-- It happened once. -/
def Once (sets : σ → ι → Prop) : List (σ × ι) → Prop := Since sets fun _ _ => False

theorem once_cons {sets : σ → ι → Prop} {s : σ} {i : ι} {h : List (σ × ι)} :
    Once sets ((s, i) :: h) ↔ sets s i ∨ Once sets h := by
  unfold Once
  rw [since_cons, not_false_iff, and_true]

namespace Run
variable {step : σ → ι → σ → Prop} {s₀ s : σ} {h : List (σ × ι)}

/-- A predicate that a step establishes exactly by setting it, or by not ending it when it holds,
holds exactly when it was set and not ended since. `I` is an invariant that the steps rely on. -/
theorem since_iff {I V : σ → Prop} {sets ends : σ → ι → Prop} (h0 : I s₀) (hnot : ¬ V s₀)
    (hkeep : ∀ s i s', I s → step s i s' → I s')
    (hstep : ∀ s i s', I s → step s i s' → (V s' ↔ sets s i ∨ (V s ∧ ¬ ends s i)))
    (r : Run step s₀ h s) : V s ↔ Since sets ends h := by
  induction r with
  | start => exact iff_of_false hnot since_nil
  | next r hs ih => rw [since_cons, hstep _ _ _ (r.invariant h0 hkeep) hs, ih]

end Run
end Chats.Lib
