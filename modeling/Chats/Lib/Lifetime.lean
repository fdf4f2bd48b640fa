import Mathlib.Tactic

/-! What is done with a resource, in order, up to the moment one looks. Some of the events are
calls, of which there is to be one at most, and some give the resource up, after which nothing is
to be done with it. Both are safety properties: a trace that has gone wrong stays wrong. -/
namespace Chats.Lib
set_option autoImplicit false

variable {ε : Type} {call last : ε → Bool} {es es' : List ε} {e : ε}

/-- Nothing comes after such an event. -/
def Final (last : ε → Bool) (es : List ε) : Prop :=
  ∀ before e after, es = before ++ e :: after → last e = true → after = []

structure Lifetime (call last : ε → Bool) (es : List ε) : Prop where
  once : es.countP call ≤ 1
  final : Final last es

theorem final_cons (hlast : last e = false) : Final last (e :: es) ↔ Final last es := by
  constructor
  · intro h before e' after heq
    exact h (e :: before) e' after (congrArg (e :: ·) heq)
  · intro h before e' after heq hlast'
    cases before with
    | nil =>
      obtain ⟨rfl, -⟩ := List.cons.inj heq
      rw [hlast] at hlast'
      cases hlast'
    | cons e'' before => exact h before e' after (List.cons.inj heq).2 hlast'

theorem final_singleton (e : ε) : Final last [e] := by
  intro before e' after heq _
  cases before with
  | nil => exact (List.cons.inj heq).2.symm
  | cons e'' before =>
    have htail := (List.cons.inj heq).2
    cases before <;> cases htail

theorem lifetime_nil : Lifetime call last [] := by
  refine ⟨Nat.zero_le 1, ?_⟩
  intro before e after heq
  cases before <;> cases heq

theorem lifetime_singleton (e : ε) : Lifetime call last [e] := ⟨List.countP_le_length, final_singleton e⟩

/-- An event that is neither says nothing. -/
theorem lifetime_cons (hcall : call e = false) (hlast : last e = false) :
    Lifetime call last (e :: es) ↔ Lifetime call last es := by
  have hcount : (e :: es).countP call = es.countP call := List.countP_cons_of_neg (by simp [hcall])
  constructor
  · intro h
    exact ⟨hcount ▸ h.once, (final_cons hlast).mp h.final⟩
  · intro h
    exact ⟨hcount.trans_le h.once, (final_cons hlast).mpr h.final⟩

theorem lifetime_append (hquiet : ∀ e ∈ es, call e = false ∧ last e = false) :
    Lifetime call last (es ++ es') ↔ Lifetime call last es' := by
  induction es with
  | nil => rfl
  | cons e es ih =>
    obtain ⟨hcall, hlast⟩ := hquiet e List.mem_cons_self
    rw [List.cons_append, lifetime_cons hcall hlast, ih fun e he => hquiet e (List.mem_cons_of_mem _ he)]

/-- One call may be followed by a trace without calls. -/
theorem lifetime_called (h : Lifetime call last es) (hes : es.countP call = 0) (hlast : last e = false) :
    Lifetime call last (e :: es) := by
  refine ⟨?_, (final_cons hlast).mpr h.final⟩
  rw [List.countP_cons, hes]
  split_ifs <;> omega

theorem not_lifetime (before : List ε) (hlast : last e = true) (hafter : es ≠ []) :
    ¬ Lifetime call last (before ++ e :: es) := by
  intro h
  exact hafter (h.final before e es rfl hlast)

end Chats.Lib
