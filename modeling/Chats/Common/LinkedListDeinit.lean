import Chats.Common.LinkedListRuns
import Chats.Lib.Live

/-! # What becomes of the elements

Runs in which lists of `common/list.c` are also released. Every allocated element is in one list at
every moment, so when the last list is released nothing is left. -/
namespace Chats.LinkedList
set_option autoImplicit false

open Lib Lib.Store

/-! ## Releasing one list -/

/-- The loop of `list_deinit` frees what it follows. -/
theorem deallocateFrom_follows {xs : List UInt64} :
    ∀ {n : ℕ} {m : Memory} {a : UInt64}, Follows m.next a xs → xs.length < n →
      ∃ m', deallocateFrom n m a = some m' ∧ m'.lists = m.lists ∧ (∀ x ∈ xs, m'.elements x = none) ∧
        SameOff xs m.elements m'.elements := by
  induction xs with
  | nil =>
    intro n m a h hn
    obtain ⟨n, rfl⟩ := Nat.exists_eq_succ_of_ne_zero (Nat.ne_of_gt hn)
    exact ⟨m, if_pos h, rfl, by simp, SameOff.refl _ _⟩
  | cons x xs ih =>
    intro n m a h hn
    obtain ⟨n, rfl⟩ := Nat.exists_eq_succ_of_ne_zero (Nat.ne_of_gt (Nat.zero_lt_of_lt hn))
    have hx := (List.nodup_cons.mp h.nodup).1
    obtain ⟨rfl, h0, b, hlink, hb⟩ := h
    obtain ⟨e, he, rfl⟩ := Option.map_eq_some_iff.mp hlink
    have hkept : ∀ y ∈ xs, (m.deallocate a).next y = m.next y := by
      intro y hy
      have hya : y ≠ a := fun e => hx (e ▸ hy)
      exact congrArg (Option.map ListElement.next) (Function.update_of_ne hya ..)
    obtain ⟨m', hm', hlists, hgone, hoff⟩ := ih (hb.congr hkept) (Nat.lt_of_succ_lt_succ hn)
    refine ⟨m', ?_, hlists, ?_, ?_⟩
    · rw [deallocateFrom, if_neg h0, he, Option.bind_eq_bind, Option.bind_some, hm']
    · intro y hy
      by_cases hyx : y ∈ xs
      · exact hgone y hyx
      · rw [hoff y hyx, (List.mem_cons.mp hy).resolve_right hyx]
        exact Function.update_self ..
    · exact (SameOff.update none List.mem_cons_self).trans (hoff.mono (List.subset_cons_self _ _))

theorem listDeinit_spec {m : Memory} {l : UInt64} {xs : List UInt64} (h : WellFormed m l xs) :
    ∃ m', listDeinit m l = some m' ∧ m'.lists = Function.update m.lists l none ∧ (∀ x ∈ xs, m'.elements x = none) ∧
      SameOff xs m.elements m'.elements := by
  obtain ⟨hd, hl, hf, -, -⟩ := h.head
  obtain ⟨m', hm', hlists, hgone, hoff⟩ := deallocateFrom_follows hf h.length_lt
  refine ⟨{ m' with lists := Function.update m'.lists l none }, ?_, by rw [hlists], hgone, hoff⟩
  rw [listDeinit, if_neg h.nonNull, hl, Option.bind_eq_bind, Option.bind_some, hm']
  rfl

theorem listDeinit_othersKept {m m' : Memory} {l : UInt64} {xs : List UInt64} (h : WellFormed m l xs)
    (hlists : m'.lists = Function.update m.lists l none) (hoff : SameOff xs m.elements m'.elements) :
    OthersKept m m' l := by
  intro k ys hk hys
  refine hys.congr (by rw [hlists, Function.update_of_ne hk]) fun y hy => hoff y ?_
  exact fun hx => h.disjoint hys hk hx hy

/-! ## Runs with releases -/

inductive Call
  | op (op : Op)
  | deinit (l : UInt64)

inductive AnyStep : Memory → Call → Memory → Prop
  | op {m m' : Memory} {op : Op} (h : Step m op m') : AnyStep m (.op op) m'
  | deinit {m m' : Memory} {l : UInt64} (hl : (m.lists l).isSome) (h : listDeinit m l = some m') :
      AnyStep m (.deinit l) m'

/-- Every list is well formed, and every element is in one. -/
structure Owned (m : Memory) : Prop where
  sane : Sane m
  owner : ∀ x, (m.elements x).isSome → ∃ l xs, WellFormed m l xs ∧ x ∈ xs

theorem Changes.owned {m m' : Memory} {l : UInt64} {xs xs' : List UInt64} (h : Changes m m' l xs xs') (hm : Owned m) :
    Owned m' := by
  refine ⟨h.sane hm.sane, fun x hx => ?_⟩
  by_cases hx' : x ∈ xs'
  · exact ⟨l, xs', h.after, hx'⟩
  · have hold : x ∉ xs := by
      intro hxs
      rw [h.gone x hxs hx'] at hx
      cases hx
    rw [h.others x hold hx'] at hx
    obtain ⟨k, ys, hys, hxy⟩ := hm.owner x hx
    have hk : k ≠ l := by
      rintro rfl
      exact hold (hys.unique h.before ▸ hxy)
    exact ⟨k, ys, h.othersKept k ys hk hys, hxy⟩

theorem removeTpl_owned (side : ListElement → UInt64) {m m' : Memory} {l el p : UInt64} (hm : Owned m)
    (hel : InSomeList m el) (h : removeTpl side m l el = some (m', p)) : Owned m' := by
  obtain ⟨k, xs, x, hk, hx, rfl⟩ := hel
  by_cases e : k = l
  · subst e
    obtain ⟨ys, zs, rfl⟩ := List.append_of_mem hx
    obtain ⟨m₁, hc, h₁⟩ := removeTpl_spec hk
    rw [h₁ side, Option.some.injEq, Prod.mk.injEq] at h
    exact h.1 ▸ hc.owned hm
  · rw [removeTpl_refused side hk hx e, Option.some.injEq, Prod.mk.injEq] at h
    exact h.1 ▸ hm

theorem Step.owned {m m' : Memory} {op : Op} (hm : Owned m) (hs : Step m op m') : Owned m' := by
  cases hs with
  | @init elementSize l hn hfree =>
    refine ⟨listInit_sane _ hn hm.sane, fun x hx => ?_⟩
    obtain ⟨m', e, -, hothers, -⟩ := listInit_spec m elementSize hn
    have helements : (listInit m elementSize l).1.elements = m.elements := by rw [listInit, if_neg hn]
    rw [helements] at hx
    obtain ⟨k, ys, hys, hxy⟩ := hm.owner x hx
    have hk : k ≠ l := by
      rintro rfl
      obtain ⟨hd, hl, -⟩ := hys.head
      rw [hfree] at hl
      cases hl
    rw [e]
    exact ⟨k, ys, hothers k ys hk hys, hxy⟩
  | append hl hb h =>
    obtain ⟨xs, hxs⟩ := hm.sane _ hl
    obtain ⟨m₁, h₁, hc⟩ := listAppend_spec hxs hb
    rw [h₁, Option.some.injEq, Prod.mk.injEq] at h
    exact h.1 ▸ hc.owned hm
  | prepend hl hb h =>
    obtain ⟨xs, hxs⟩ := hm.sane _ hl
    obtain ⟨m₁, h₁, hc⟩ := listPrepend_spec hxs hb
    rw [h₁, Option.some.injEq, Prod.mk.injEq] at h
    exact h.1 ▸ hc.owned hm
  | removeNext hl hel h => exact removeTpl_owned _ hm hel h
  | removePrev hl hel h => exact removeTpl_owned _ hm hel h
  | removeElement hl hel h =>
    obtain ⟨⟨m₁, p⟩, h₁, rfl⟩ := Option.map_eq_some_iff.mp h
    exact removeTpl_owned _ hm hel h₁

theorem listDeinit_owned {m m' : Memory} {l : UInt64} {xs : List UInt64} (hm : Owned m) (h : WellFormed m l xs)
    (hlists : m'.lists = Function.update m.lists l none) (hgone : ∀ x ∈ xs, m'.elements x = none)
    (hoff : SameOff xs m.elements m'.elements) : Owned m' := by
  have hkept := listDeinit_othersKept h hlists hoff
  refine ⟨fun k hk => ?_, fun x hx => ?_⟩
  · have hkl : k ≠ l := by
      rintro rfl
      rw [hlists, Function.update_self] at hk
      cases hk
    rw [hlists, Function.update_of_ne hkl] at hk
    obtain ⟨ys, hys⟩ := hm.sane k hk
    exact ⟨ys, hkept k ys hkl hys⟩
  · have hxs : x ∉ xs := by
      intro hxs
      rw [hgone x hxs] at hx
      cases hx
    rw [hoff x hxs] at hx
    obtain ⟨k, ys, hys, hxy⟩ := hm.owner x hx
    have hkl : k ≠ l := by
      rintro rfl
      exact hxs (hys.unique h ▸ hxy)
    exact ⟨k, ys, hkept k ys hkl hys, hxy⟩

theorem AnyStep.owned {m m' : Memory} {c : Call} (hm : Owned m) (hs : AnyStep m c m') : Owned m' := by
  cases hs with
  | op h => exact h.owned hm
  | deinit hl h =>
    obtain ⟨xs, hxs⟩ := hm.sane _ hl
    obtain ⟨m₁, h₁, hlists, hgone, hoff⟩ := listDeinit_spec hxs
    rw [h₁, Option.some.injEq] at h
    subst h
    exact listDeinit_owned hm hxs hlists hgone hoff

theorem run_owned {h : List (Memory × Call)} {m : Memory} (r : Run AnyStep start h m) : Owned m := by
  apply r.invariant
  · refine ⟨fun l hl => ?_, fun x hx => ?_⟩
    · cases hl
    · cases hx
  · intro m c m' hm hs
    exact hs.owned hm

/-- Without lists there are no elements. -/
theorem Owned.empty {m : Memory} (hm : Owned m) (hnone : ∀ l, m.lists l = none) : m = start := by
  have helements : m.elements = fun _ => none := by
    funext x
    rw [← Option.not_isSome_iff_eq_none]
    intro hx
    obtain ⟨l, xs, hxs, -⟩ := hm.owner x hx
    obtain ⟨hd, hl, -⟩ := hxs.head
    rw [hnone l] at hl
    cases hl
  have hlists : m.lists = fun _ => none := funext hnone
  cases m
  cases hlists
  cases helements
  rfl

/-- After any calls, releases among them, the allocated elements are those of the lists, each of one
list. `list_deinit` of a list returns, frees its elements and the list, and touches nothing else.
When no list is left the memory is what it was at the start. -/
theorem list_run_released (h : List (Memory × Call)) (m : Memory) (r : Run AnyStep start h m) :
    (∀ x, (m.elements x).isSome ↔ ∃ l xs, WellFormed m l xs ∧ x ∈ xs) ∧
    (∀ l k xs ys x, WellFormed m l xs → WellFormed m k ys → x ∈ xs → x ∈ ys → l = k) ∧
    (∀ l xs, WellFormed m l xs → ∃ m', listDeinit m l = some m' ∧ m'.lists = Function.update m.lists l none ∧
      live m'.elements = live m.elements \ {x | x ∈ xs} ∧ SameOff xs m.elements m'.elements ∧ OthersKept m m' l) ∧
    ((∀ l, m.lists l = none) → m = start) := by
  have hm := run_owned r
  refine ⟨fun x => ⟨hm.owner x, ?_⟩, ?_, ?_, ?_⟩
  · rintro ⟨l, xs, hxs, hx⟩
    exact hxs.isSome hx
  · intro l k xs ys x hxs hys hx hy
    by_contra hne
    exact hxs.disjoint hys (Ne.symm hne) hx hy
  · intro l xs hxs
    obtain ⟨m', e, hlists, hgone, hoff⟩ := listDeinit_spec hxs
    exact ⟨m', e, hlists, hoff.live_diff hgone, hoff, listDeinit_othersKept hxs hlists hoff⟩
  · exact hm.empty

theorem run_any {h : List (Memory × Op)} {m : Memory} (r : Run Step start h m) : ∃ h', Run AnyStep start h' m := by
  induction r with
  | start => exact ⟨[], .start⟩
  | next _ hs ih =>
    obtain ⟨h', r'⟩ := ih
    exact ⟨_, .next r' (.op hs)⟩

/-- The list of one element is released, and with it everything. -/
theorem list_run_released_one : ∃ m', WellFormed single 8 [64] ∧ listDeinit single 8 = some m' ∧ m' = start := by
  obtain ⟨h, r⟩ := single_run
  obtain ⟨h', r'⟩ := run_any r
  obtain ⟨-, -, hdeinit, -⟩ := list_run_released h' single r'
  obtain ⟨m', e, hlists, -⟩ := hdeinit 8 [64] single_wellFormed
  obtain ⟨-, -, -, hempty⟩ := list_run_released _ m' (.next r' (.deinit rfl e))
  refine ⟨m', single_wellFormed, e, hempty fun l => ?_⟩
  rw [hlists, single, Function.update_idem, start]
  exact congrFun (Function.update_eq_self 8 (fun _ : UInt64 => (none : Option ListHead))) l

end Chats.LinkedList
