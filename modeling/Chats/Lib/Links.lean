import Mathlib.Tactic

/-! Following a link from cell to cell until the null address, as a C loop over a linked list
does, and what cutting a cell out or putting one in does to the cells that are visited. -/
namespace Chats.Lib
set_option autoImplicit false

variable {α : Type} [Zero α] {link link' : α → Option α} {a b z : α} {xs ys zs ws : List α}

/-- From `a` the link visits the cells `xs`, in this order, and then ends. -/
def Follows (link : α → Option α) : α → List α → Prop
  | a, [] => a = 0
  | a, x :: xs => a = x ∧ x ≠ 0 ∧ ∃ b, link x = some b ∧ Follows link b xs

namespace Follows

theorem start_eq (h : Follows link a xs) : a = xs.headD 0 := by
  cases xs with
  | nil => exact h
  | cons x xs => exact h.1

theorem zero_notMem (h : Follows link a xs) : 0 ∉ xs := by
  induction xs generalizing a with
  | nil => exact List.not_mem_nil
  | cons x xs ih =>
    obtain ⟨_, hx, b, _, hb⟩ := h
    intro hm
    rcases List.mem_cons.mp hm with e | hm
    · exact hx e.symm
    · exact ih hb hm

theorem unique (h : Follows link a xs) (h' : Follows link a ys) : xs = ys := by
  induction xs generalizing a ys with
  | nil =>
    cases ys with
    | nil => rfl
    | cons y ys => exact absurd (h'.1.symm.trans h) h'.2.1
  | cons x xs ih =>
    obtain ⟨rfl, hx, b, hl, hb⟩ := h
    cases ys with
    | nil => exact absurd h' hx
    | cons y ys =>
      obtain ⟨rfl, _, b', hl', hb'⟩ := h'
      rw [hl, Option.some.injEq] at hl'
      subst hl'
      rw [ih hb hb']

/-- What follows a visited cell. -/
theorem after (h : Follows link a (ys ++ z :: zs)) : link z = some (zs.headD 0) ∧ Follows link (zs.headD 0) zs := by
  induction ys generalizing a with
  | nil =>
    obtain ⟨_, _, b, hl, hb⟩ := h
    rw [← hb.start_eq]
    exact ⟨hl, hb⟩
  | cons y ys ih =>
    obtain ⟨_, _, b, _, hb⟩ := h
    exact ih hb

/-- No cell is visited twice, or the visit would not end. -/
theorem nodup (h : Follows link a xs) : xs.Nodup := by
  induction xs generalizing a with
  | nil => exact List.nodup_nil
  | cons x xs ih =>
    obtain ⟨rfl, hx, b, hl, hb⟩ := h
    refine List.nodup_cons.mpr ⟨fun hm => ?_, ih hb⟩
    obtain ⟨ps, qs, rfl⟩ := List.append_of_mem hm
    obtain ⟨hl', hq⟩ := hb.after
    rw [hl, Option.some.injEq] at hl'
    have e := congrArg List.length (hb.unique (hl' ▸ hq))
    simp only [List.length_append, List.length_cons] at e
    omega

theorem congr (h : Follows link a xs) (he : ∀ x ∈ xs, link' x = link x) : Follows link' a xs := by
  induction xs generalizing a with
  | nil => exact h
  | cons x xs ih =>
    obtain ⟨ha, hx, b, hl, hb⟩ := h
    refine ⟨ha, hx, b, (he x List.mem_cons_self).trans hl, ih hb fun y hy => ?_⟩
    exact he y (List.mem_cons_of_mem _ hy)

/-- The cells up to `z` are visited as before, and from there on those that `z` now leads to. -/
theorem redirect (h : Follows link a (ys ++ z :: zs)) (he : ∀ y ∈ ys, link' y = link y)
    (hz : link' z = some b) (hb : Follows link' b ws) : Follows link' a (ys ++ z :: ws) := by
  induction ys generalizing a with
  | nil => exact ⟨h.1, h.2.1, b, hz, hb⟩
  | cons y ys ih =>
    obtain ⟨ha, hy, c, hl, hc⟩ := h
    refine ⟨ha, hy, c, (he y List.mem_cons_self).trans hl, ih hc fun x hx => ?_⟩
    exact he x (List.mem_cons_of_mem _ hx)

theorem cut (h : Follows link a (ys ++ z :: zs))
    (he : ∀ x ∈ ys ++ zs, x ≠ ys.getLastD 0 → link' x = link x)
    (hlast : ys ≠ [] → link' (ys.getLastD 0) = some (zs.headD 0)) :
    Follows link' (if ys = [] then zs.headD 0 else a) (ys ++ zs) := by
  have hn := h.nodup
  have h0 := h.zero_notMem
  obtain ⟨_, hzs⟩ := h.after
  rcases List.eq_nil_or_concat ys with rfl | ⟨init, y, rfl⟩
  · simp only [↓reduceIte, List.nil_append]
    refine hzs.congr fun x hx => he x hx fun e => ?_
    exact h0 ((show x = 0 from e) ▸ List.mem_append_right _ (List.mem_cons_of_mem _ hx))
  · simp only [List.concat_eq_append, List.getLastD_concat, List.append_assoc, List.singleton_append] at *
    have hy : y ∉ init ∧ y ∉ zs := by grind
    rw [if_neg (by simp)]
    refine h.redirect (fun x hx => he x (by simp [hx]) fun e => hy.1 (e ▸ hx)) (hlast (by simp)) ?_
    exact hzs.congr fun x hx => he x (by simp [hx]) fun e => hy.2 (e ▸ hx)

theorem insert {n : α} (h : Follows link a (ys ++ zs)) (hn : n ≠ 0)
    (he : ∀ x ∈ ys ++ zs, x ≠ ys.getLastD 0 → link' x = link x)
    (hlast : ys ≠ [] → link' (ys.getLastD 0) = some n) (hnew : link' n = some (zs.headD 0)) :
    Follows link' (if ys = [] then n else a) (ys ++ n :: zs) := by
  have hnd := h.nodup
  have h0 := h.zero_notMem
  rcases List.eq_nil_or_concat ys with rfl | ⟨init, y, rfl⟩
  · simp only [↓reduceIte, List.nil_append] at *
    refine ⟨rfl, hn, zs.headD 0, hnew, h.start_eq ▸ h.congr fun x hx => he x hx fun e => ?_⟩
    exact h0 ((show x = 0 from e) ▸ hx)
  · simp only [List.concat_eq_append, List.getLastD_concat, List.append_assoc, List.singleton_append] at *
    obtain ⟨_, hzs⟩ := h.after
    have hy : y ∉ init ∧ y ∉ zs := by grind
    rw [if_neg (by simp)]
    refine h.redirect (fun x hx => he x (by simp [hx]) fun e => hy.1 (e ▸ hx)) (hlast (by simp)) ?_
    refine ⟨rfl, hn, _, hnew, hzs.congr fun x hx => he x (by simp [hx]) fun e => hy.2 (e ▸ hx)⟩

end Follows
end Chats.Lib
