import Chats.Lib.Run

/-! Measures that the steps of a system lower. As many steps of the kind that lowers a measure can
be taken as the measure says at the start, whatever other steps come between them. -/
namespace Chats.Lib
set_option autoImplicit false

variable {σ ι : Type}

namespace Run
variable {step : σ → ι → σ → Prop} {s₀ s : σ} {h : List (σ × ι)}

/-- A run is a run to any moment of it and a run from there. -/
theorem split {later earlier : List (σ × ι)} (r : Run step s₀ (later ++ earlier) s) :
    ∃ t, Run step s₀ earlier t ∧ Run step t later s := by
  induction later generalizing s with
  | nil => exact ⟨s, r, start⟩
  | cons e later ih =>
    cases r with
    | next r hs =>
      obtain ⟨t, hearlier, hlater⟩ := ih r
      exact ⟨t, hearlier, next hlater hs⟩

/-- Under the invariant `I` the steps with a label in `C` lower `μ` and the others do not raise it. -/
theorem count_le {I : σ → Prop} {μ : σ → ℕ} {C : ι → Bool} (h0 : I s₀)
    (hkeep : ∀ s i s', I s → step s i s' → I s')
    (hlow : ∀ s i s', I s → step s i s' → C i = true → μ s' < μ s)
    (hrest : ∀ s i s', I s → step s i s' → C i = false → μ s' ≤ μ s) (r : Run step s₀ h s) :
    (h.filter fun e => C e.2).length + μ s ≤ μ s₀ := by
  induction r with
  | start => simp
  | @next h s s' i r hs ih =>
    have hI := r.invariant h0 hkeep
    cases hc : C i with
    | true =>
      have hlt := hlow s i s' hI hs hc
      rw [List.filter_cons_of_pos (by simpa using hc), List.length_cons]
      omega
    | false =>
      have hle := hrest s i s' hI hs hc
      rw [List.filter_cons_of_neg (by simp [hc])]
      omega

end Run
end Chats.Lib
