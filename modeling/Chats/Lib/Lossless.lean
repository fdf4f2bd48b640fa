import Mathlib.Tactic

/-! Folds through a step that loses nothing: beside the letter it reads, the state behind it tells the
state before it, and beside that state it tells the letter. Two words that differ in one letter then
end in different states, wherever that letter stands and whatever follows it. -/
namespace Chats.Lib
set_option autoImplicit false

variable {α σ : Type}

/-- Two words of one length that differ in one place. -/
inductive OneApart : List α → List α → Prop
  | here {a b : α} (word : List α) (hne : a ≠ b) : OneApart (a :: word) (b :: word)
  | later (a : α) {v w : List α} (hvw : OneApart v w) : OneApart (a :: v) (a :: w)

theorem OneApart.length_eq {v w : List α} (hvw : OneApart v w) : v.length = w.length := by
  induction hvw with
  | here word hne => rfl
  | later a _ ih => rw [List.length_cons, List.length_cons, ih]

theorem OneApart.one_place {v w : List α} (hvw : OneApart v w) : ∃! i : ℕ, v[i]? ≠ w[i]? := by
  induction hvw with
  | here word hne =>
    refine ⟨0, mt Option.some.inj hne, fun k hk => ?_⟩
    cases k with
    | zero => rfl
    | succ k => exact absurd rfl hk
  | later a _ ih =>
    obtain ⟨i, hi, honly⟩ := ih
    refine ⟨i + 1, hi, fun k hk => ?_⟩
    cases k with
    | zero => exact absurd rfl hk
    | succ k => rw [honly k hk]

/-- The heads of the words agree unless the place is theirs. -/
theorem OneApart.of_one_place {v w : List α} (hlen : v.length = w.length) (hone : ∃! i : ℕ, v[i]? ≠ w[i]?) :
    OneApart v w := by
  induction v generalizing w with
  | nil =>
    have hw : w = [] := List.length_eq_zero_iff.mp hlen.symm
    obtain ⟨i, hi, _⟩ := hone
    exact absurd (hw ▸ rfl) hi
  | cons a v ih =>
    obtain ⟨b, w, rfl⟩ := List.exists_cons_of_length_eq_add_one hlen.symm
    obtain ⟨i, hi, honly⟩ := hone
    by_cases hab : a = b
    · subst hab
      cases i with
      | zero => exact absurd rfl hi
      | succ i =>
        have htails : ∃! i : ℕ, v[i]? ≠ w[i]? := by
          refine ⟨i, hi, fun k hk => ?_⟩
          have := honly (k + 1) hk
          omega
        exact .later a (ih (Nat.succ.inj hlen) htails)
    · have h0 : 0 = i := honly 0 (mt Option.some.inj hab)
      have hrest : v = w := by
        refine List.ext_getElem? fun k => ?_
        by_contra hk
        have := honly (k + 1) hk
        omega
      subst hrest
      exact .here v hab

theorem oneApart_iff {v w : List α} : OneApart v w ↔ v.length = w.length ∧ ∃! i : ℕ, v[i]? ≠ w[i]? :=
  ⟨fun hvw => ⟨hvw.length_eq, hvw.one_place⟩, fun h => .of_one_place h.1 h.2⟩

structure Lossless (step : σ → α → σ) : Prop where
  state : ∀ a, Function.Injective fun s => step s a
  letter : ∀ s, Function.Injective (step s)

variable {step : σ → α → σ}

theorem Lossless.foldl_injective (h : Lossless step) (word : List α) : Function.Injective (word.foldl step) := by
  induction word with
  | nil => exact Function.injective_id
  | cons a word ih => exact ih.comp (h.state a)

theorem Lossless.foldl_ne (h : Lossless step) {v w : List α} (hvw : OneApart v w) (s : σ) :
    v.foldl step s ≠ w.foldl step s := by
  induction hvw generalizing s with
  | here word hne =>
    intro heq
    exact hne (h.letter s (h.foldl_injective word heq))
  | later a _ ih => exact ih (step s a)

end Chats.Lib
