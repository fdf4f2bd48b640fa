import Mathlib.Tactic

/-! Tables kept as lists and searched from the front by a key. -/
namespace Chats.Lib
set_option autoImplicit false

variable {α κ : Type} [DecidableEq κ]

def findKey (key : α → κ) (k : κ) (as : List α) : Option α := as.find? fun a => key a = k

/-- Replaces the first element with this key by what `f` makes of it, or drops it. -/
def rewriteKey (key : α → κ) (k : κ) (f : α → Option α) : List α → List α
  | [] => []
  | a :: as => if key a = k then (f a).toList ++ as else a :: rewriteKey key k f as

section keyed
variable {key : α → κ} {k : κ}

theorem findKey_cons_self {a : α} (as : List α) (h : key a = k) : findKey key k (a :: as) = some a :=
  List.find?_cons_of_pos (by simpa using h)

theorem findKey_cons_ne {a : α} (as : List α) (h : key a ≠ k) :
    findKey key k (a :: as) = findKey key k as :=
  List.find?_cons_of_neg (by simpa using h)

theorem findKey_eq_none {as : List α} : findKey key k as = none ↔ k ∉ as.map key := by
  simp [findKey]

theorem findKey_some {as : List α} {a : α} (h : findKey key k as = some a) : a ∈ as ∧ key a = k :=
  ⟨List.mem_of_find?_eq_some h, by simpa using List.find?_some h⟩

theorem findKey_of_mem {as : List α} {a : α} (hn : (as.map key).Nodup) (ha : a ∈ as) :
    findKey key (key a) as = some a := by
  induction as with
  | nil => cases ha
  | cons b as ih =>
    rw [List.map_cons, List.nodup_cons] at hn
    cases List.mem_cons.mp ha with
    | inl hab => rw [← hab, findKey_cons_self as rfl]
    | inr ha =>
      have hne : key b ≠ key a := by
        intro heq
        exact hn.1 (heq ▸ List.mem_map_of_mem ha)
      rw [findKey_cons_ne as hne, ih hn.2 ha]

theorem findKey_append (as bs : List α) :
    findKey key k (as ++ bs) = (findKey key k as).or (findKey key k bs) := by
  unfold findKey
  exact List.find?_append

variable {f : α → Option α}

/-- A search for another key finds what it found before. -/
theorem findKey_rewrite_ne (hkey : ∀ a b, f a = some b → key b = key a) {k' : κ} (hne : k' ≠ k)
    (as : List α) : findKey key k' (rewriteKey key k f as) = findKey key k' as := by
  induction as with
  | nil => rfl
  | cons a as ih =>
    unfold rewriteKey
    by_cases ha : key a = k
    · have hak : key a ≠ k' := by
        rw [ha]
        exact hne.symm
      rw [if_pos ha, findKey_cons_ne as hak]
      cases hb : f a with
      | none => rfl
      | some b =>
        apply findKey_cons_ne
        rw [hkey a b hb]
        exact hak
    · rw [if_neg ha]
      by_cases hak : key a = k'
      · rw [findKey_cons_self _ hak, findKey_cons_self _ hak]
      · rw [findKey_cons_ne _ hak, findKey_cons_ne _ hak, ih]

/-- A search for the key finds what became of its element, when no other one has the key. -/
theorem findKey_rewrite_self (hkey : ∀ a b, f a = some b → key b = key a) {as : List α}
    (hn : (as.map key).Nodup) :
    findKey key k (rewriteKey key k f as) = (findKey key k as).bind f := by
  induction as with
  | nil => rfl
  | cons a as ih =>
    rw [List.map_cons, List.nodup_cons] at hn
    unfold rewriteKey
    by_cases ha : key a = k
    · rw [if_pos ha, findKey_cons_self as ha, Option.bind_some]
      cases hb : f a with
      | none =>
        rw [ha] at hn
        exact findKey_eq_none.mpr hn.1
      | some b => exact findKey_cons_self as ((hkey a b hb).trans ha)
    · rw [if_neg ha, findKey_cons_ne _ ha, findKey_cons_ne _ ha, ih hn.2]

theorem keys_rewrite_sublist (hkey : ∀ a b, f a = some b → key b = key a) (as : List α) :
    ((rewriteKey key k f as).map key).Sublist (as.map key) := by
  induction as with
  | nil => exact List.Sublist.refl _
  | cons a as ih =>
    unfold rewriteKey
    by_cases ha : key a = k
    · rw [if_pos ha]
      cases hb : f a with
      | none => exact List.sublist_cons_self _ _
      | some b => simp [hkey a b hb]
    · rw [if_neg ha]
      exact ih.cons_cons (key a)

theorem keys_rewrite_total {ν : Type} {key' : α → ν} (hf : ∀ a, ∃ b, f a = some b ∧ key' b = key' a)
    (as : List α) : (rewriteKey key k f as).map key' = as.map key' := by
  induction as with
  | nil => rfl
  | cons a as ih =>
    unfold rewriteKey
    split_ifs
    · obtain ⟨b, hb, hkey⟩ := hf a
      rw [hb]
      exact congrArg (· :: as.map key') hkey
    · exact congrArg (key' a :: ·) ih

theorem length_rewrite_of_none {a : α} {as : List α} (ha : findKey key k as = some a) (hf : f a = none) :
    (rewriteKey key k f as).length + 1 = as.length := by
  induction as with
  | nil => cases ha
  | cons b as ih =>
    unfold rewriteKey
    by_cases hb : key b = k
    · rw [findKey_cons_self as hb] at ha
      obtain rfl := Option.some.inj ha
      rw [if_pos hb, hf]
      rfl
    · rw [findKey_cons_ne as hb] at ha
      rw [if_neg hb, List.length_cons, List.length_cons, ih ha]

theorem forall_mem_rewrite {P : α → Prop} {as : List α} (hf : ∀ a ∈ as, ∀ b, f a = some b → P b)
    (hall : ∀ a ∈ as, P a) : ∀ a ∈ rewriteKey key k f as, P a := by
  induction as with
  | nil => exact hall
  | cons a as ih =>
    have htail : ∀ a ∈ as, P a := fun x hx => hall x (List.mem_cons_of_mem _ hx)
    intro x hx
    unfold rewriteKey at hx
    by_cases ha : key a = k
    · rw [if_pos ha, List.mem_append] at hx
      cases hx with
      | inl hx => exact hf a List.mem_cons_self x (by simpa using hx)
      | inr hx => exact htail x hx
    · rw [if_neg ha, List.mem_cons] at hx
      cases hx with
      | inl hx => exact hx ▸ hall a List.mem_cons_self
      | inr hx => exact ih (fun a ha => hf a (List.mem_cons_of_mem _ ha)) htail x hx

theorem findKey_filter (q : α → Bool) {as : List α} (hn : (as.map key).Nodup) :
    findKey key k (as.filter q) = (findKey key k as).filter q := by
  induction as with
  | nil => rfl
  | cons a as ih =>
    rw [List.map_cons, List.nodup_cons] at hn
    have hrest := ih hn.2
    by_cases ha : key a = k
    · have hnone : findKey key k as = none := by
        rw [ha] at hn
        exact findKey_eq_none.mpr hn.1
      rw [findKey_cons_self as ha]
      by_cases hq : q a = true
      · rw [List.filter_cons_of_pos hq, findKey_cons_self _ ha]
        simp [Option.filter, hq]
      · rw [List.filter_cons_of_neg hq, hrest, hnone]
        simp [Option.filter, hq]
    · rw [findKey_cons_ne as ha, ← hrest]
      by_cases hq : q a = true
      · rw [List.filter_cons_of_pos hq, findKey_cons_ne _ ha]
      · rw [List.filter_cons_of_neg hq]

theorem rewriteKey_absent {as : List α} (h : k ∉ as.map key) : rewriteKey key k f as = as := by
  induction as with
  | nil => rfl
  | cons a as ih =>
    rw [List.map_cons, List.mem_cons, not_or] at h
    unfold rewriteKey
    rw [if_neg (Ne.symm h.1), ih h.2]

/-- The first element that meets a test which only elements with the key meet is the one with the
key, when no other one has it. -/
theorem rewriteKey_test {q : α → Bool} (hq : ∀ a, q a = true → key a = k) {as : List α}
    (hn : (as.map key).Nodup) :
    rewriteKey q true f as = rewriteKey key k (fun a => if q a then f a else some a) as := by
  induction as with
  | nil => rfl
  | cons a as ih =>
    rw [List.map_cons, List.nodup_cons] at hn
    unfold rewriteKey
    by_cases ha : key a = k
    · rw [if_pos ha]
      by_cases hqa : q a = true
      · rw [if_pos hqa, if_pos hqa]
      · have hnone : true ∉ as.map q := by
          intro hmem
          obtain ⟨b, hb, hqb⟩ := List.mem_map.mp hmem
          exact hn.1 (ha.trans (hq b hqb).symm ▸ List.mem_map_of_mem hb)
        rw [if_neg hqa, if_neg hqa, rewriteKey_absent hnone]
        rfl
    · rw [if_neg ha, if_neg fun h => ha (hq a h), ih hn.2]

theorem any_eq_findKey {q : α → Bool} (hq : ∀ a, q a = true → key a = k) {as : List α}
    (hn : (as.map key).Nodup) : as.any q = (findKey key k as).any q := by
  induction as with
  | nil => rfl
  | cons a as ih =>
    rw [List.map_cons, List.nodup_cons] at hn
    rw [List.any_cons, ih hn.2]
    by_cases ha : key a = k
    · have hnone : findKey key k as = none := findKey_eq_none.mpr (ha ▸ hn.1)
      rw [findKey_cons_self as ha, hnone]
      exact Bool.or_false (q a)
    · have hqa : q a = false := Bool.eq_false_iff.mpr fun h => ha (hq a h)
      rw [findKey_cons_ne as ha, hqa, Bool.false_or]

end keyed
end Chats.Lib
