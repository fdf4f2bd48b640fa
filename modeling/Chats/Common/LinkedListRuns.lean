import Chats.Common.LinkedListSpec
import Chats.Lib.Run

/-! # Runs of the linked list

Any number of lists from `list_init`, in one memory, under any sequence of calls. Each list
stays the sequence of its elements and no call disturbs another list. Insertion next to an
element is apart: it keeps a list well formed only in the interior. -/
namespace Chats.LinkedList
set_option autoImplicit false

open Lib Lib.Store

def OthersKept (m m' : Memory) (l : UInt64) : Prop :=
  ∀ k ys, k ≠ l → WellFormed m k ys → WellFormed m' k ys

theorem Changes.othersKept {m m' : Memory} {l : UInt64} {xs xs' : List UInt64} (h : Changes m m' l xs xs') :
    OthersKept m m' l := by
  intro k ys hk hys
  refine hys.congr (h.lists k hk) fun y hy => ?_
  have hy₁ : y ∉ xs := fun hx => h.before.disjoint hys hk hx hy
  have hy₂ : y ∉ xs' := by
    intro hx
    have hs := hys.isSome hy
    rw [h.new y hx hy₁] at hs
    cases hs
  exact h.others y hy₁ hy₂

def Sane (m : Memory) : Prop := ∀ l, (m.lists l).isSome → ∃ xs, WellFormed m l xs

theorem Changes.sane {m m' : Memory} {l : UInt64} {xs xs' : List UInt64} (h : Changes m m' l xs xs') (hm : Sane m) :
    Sane m' := by
  intro k hk
  by_cases e : k = l
  · exact ⟨xs', e ▸ h.after⟩
  · rw [h.lists k e] at hk
    obtain ⟨ys, hys⟩ := hm k hk
    exact ⟨ys, h.othersKept k ys e hys⟩

theorem listInit_spec (m : Memory) {l : UInt64} (elementSize : UInt64) (hn : l ≠ 0) :
    ∃ m', listInit m elementSize l = (m', l) ∧ WellFormed m' l [] ∧ OthersKept m m' l ∧
      ∀ k, k ≠ l → m'.lists k = m.lists k := by
  refine ⟨{ m with lists := Function.update m.lists l (some ⟨0, elementSize, 0, 0⟩) }, if_neg hn, ?_, ?_, ?_⟩
  · exact ⟨hn, ⟨_, Function.update_self .., rfl, rfl, rfl⟩, by simp, by simp⟩
  · intro k ys hk hys
    exact hys.congr (Function.update_of_ne hk ..) fun _ _ => rfl
  · intro k hk
    exact Function.update_of_ne hk ..

theorem listInit_sane {m : Memory} {l : UInt64} (elementSize : UInt64) (hn : l ≠ 0) (hm : Sane m) :
    Sane (listInit m elementSize l).1 := by
  obtain ⟨m', h, hnew, hothers, hlists⟩ := listInit_spec m elementSize hn
  rw [h]
  intro k hk
  by_cases e : k = l
  · exact ⟨[], e ▸ hnew⟩
  · rw [hlists k e] at hk
    obtain ⟨ys, hys⟩ := hm k hk
    exact ⟨ys, hothers k ys e hys⟩

/-! ## Runs -/

inductive Op
  | init (elementSize l : UInt64)
  | append (l : UInt64) (b : Block)
  | prepend (l : UInt64) (b : Block)
  | removeNext (l el : UInt64)
  | removePrev (l el : UInt64)
  | removeElement (l el : UInt64)

def InSomeList (m : Memory) (el : UInt64) : Prop := ∃ k xs x, WellFormed m k xs ∧ x ∈ xs ∧ el = payload x

/-- One call, on a list that is there; `allocate` returns any free block. -/
inductive Step : Memory → Op → Memory → Prop
  | init {m : Memory} {elementSize l : UInt64} (hn : l ≠ 0) (hfree : m.lists l = none) :
      Step m (.init elementSize l) (listInit m elementSize l).1
  | append {m m' : Memory} {l p : UInt64} {b : Block} (hl : (m.lists l).isSome) (hb : Fresh m b)
      (h : listAppend m l b = some (m', p)) : Step m (.append l b) m'
  | prepend {m m' : Memory} {l p : UInt64} {b : Block} (hl : (m.lists l).isSome) (hb : Fresh m b)
      (h : listPrepend m l b = some (m', p)) : Step m (.prepend l b) m'
  | removeNext {m m' : Memory} {l el p : UInt64} (hl : (m.lists l).isSome) (hel : InSomeList m el)
      (h : listRemoveNext m l el = some (m', p)) : Step m (.removeNext l el) m'
  | removePrev {m m' : Memory} {l el p : UInt64} (hl : (m.lists l).isSome) (hel : InSomeList m el)
      (h : listRemovePrev m l el = some (m', p)) : Step m (.removePrev l el) m'
  | removeElement {m m' : Memory} {l el : UInt64} (hl : (m.lists l).isSome) (hel : InSomeList m el)
      (h : listRemoveElement m l el = some m') : Step m (.removeElement l el) m'

theorem removeTpl_sane (side : ListElement → UInt64) {m m' : Memory} {l el p : UInt64} (hm : Sane m)
    (hel : InSomeList m el) (h : removeTpl side m l el = some (m', p)) : Sane m' := by
  obtain ⟨k, xs, x, hk, hx, rfl⟩ := hel
  by_cases e : k = l
  · subst e
    obtain ⟨ys, zs, rfl⟩ := List.append_of_mem hx
    obtain ⟨m₁, hc, h₁⟩ := removeTpl_spec hk
    rw [h₁ side, Option.some.injEq, Prod.mk.injEq] at h
    exact h.1 ▸ hc.sane hm
  · rw [removeTpl_refused side hk hx e, Option.some.injEq, Prod.mk.injEq] at h
    exact h.1 ▸ hm

theorem Step.sane {m m' : Memory} {op : Op} (hm : Sane m) (hs : Step m op m') : Sane m' := by
  cases hs with
  | init hn hfree => exact listInit_sane _ hn hm
  | append hl hb h =>
    obtain ⟨xs, hxs⟩ := hm _ hl
    obtain ⟨m₁, h₁, hc⟩ := listAppend_spec hxs hb
    rw [h₁, Option.some.injEq, Prod.mk.injEq] at h
    exact h.1 ▸ hc.sane hm
  | prepend hl hb h =>
    obtain ⟨xs, hxs⟩ := hm _ hl
    obtain ⟨m₁, h₁, hc⟩ := listPrepend_spec hxs hb
    rw [h₁, Option.some.injEq, Prod.mk.injEq] at h
    exact h.1 ▸ hc.sane hm
  | removeNext hl hel h => exact removeTpl_sane _ hm hel h
  | removePrev hl hel h => exact removeTpl_sane _ hm hel h
  | removeElement hl hel h =>
    obtain ⟨⟨m₁, p⟩, h₁, rfl⟩ := Option.map_eq_some_iff.mp h
    exact removeTpl_sane _ hm hel h₁

def start : Memory := { lists := fun _ => none, elements := fun _ => none }

theorem run_sane {h : List (Memory × Op)} {m : Memory} (r : Run Step start h m) : Sane m := by
  apply r.invariant
  · intro l hl
    cases hl
  · intro m op m' hm hs
    exact hs.sane hm

theorem WellFormed.size {m : Memory} {l : UInt64} {xs : List UInt64} (h : WellFormed m l xs) :
    ∃ n, listSize m l = some n ∧ n.toNat = xs.length := by
  obtain ⟨hd, hl, _, _, hc⟩ := h.head
  refine ⟨hd.count, ?_, hc⟩
  rw [listSize, if_neg h.nonNull, hl]
  rfl

/-- `list_first_element` and `list_last_element` start at the two ends. -/
theorem WellFormed.ends {m : Memory} {l : UInt64} {xs : List UInt64} (h : WellFormed m l xs) :
    listFirstElement m l = some (payloadOrNull (xs.headD 0)) ∧
      listLastElement m l = some (payloadOrNull (xs.getLastD 0)) := by
  obtain ⟨hd, hl, hf, hp, _⟩ := h.head
  have hlast := hp.start_eq
  rw [headD_reverse] at hlast
  rw [listFirstElement, listLastElement, hl, Option.map_some, Option.map_some, hf.start_eq, hlast]
  exact ⟨rfl, rfl⟩

/-- `list_next_element` and `list_prev_element` go to the neighbours. -/
theorem WellFormed.iterate {m : Memory} {l z : UInt64} {ys zs : List UInt64} (h : WellFormed m l (ys ++ z :: zs)) :
    listNextElement m (payload z) = some (payloadOrNull (zs.headD 0)) ∧
      listPrevElement m (payload z) = some (payloadOrNull (ys.getLastD 0)) := by
  have hp : payload z ≠ 0 := h.data z (by simp)
  rw [listNextElement, listPrevElement, if_neg hp, if_neg hp, getListElement_payload, h.element]
  exact ⟨rfl, rfl⟩

theorem WellFormed.append {m : Memory} {l : UInt64} {xs : List UInt64} (h : WellFormed m l xs) {b : Block}
    (hb : Fresh m b) : ∃ m', listAppend m l b = some (m', payload b.addr) ∧ WellFormed m' l (xs ++ [b.addr]) ∧
      OthersKept m m' l := by
  obtain ⟨m', e, hc⟩ := listAppend_spec h hb
  exact ⟨m', e, hc.after, hc.othersKept⟩

theorem WellFormed.prepend {m : Memory} {l : UInt64} {xs : List UInt64} (h : WellFormed m l xs) {b : Block}
    (hb : Fresh m b) : ∃ m', listPrepend m l b = some (m', payload b.addr) ∧ WellFormed m' l (b.addr :: xs) ∧
      OthersKept m m' l := by
  obtain ⟨m', e, hc⟩ := listPrepend_spec h hb
  exact ⟨m', e, hc.after, hc.othersKept⟩

/-- The three removals delete the same element; they differ in what they return. -/
theorem WellFormed.remove {m : Memory} {l z : UInt64} {ys zs : List UInt64} (h : WellFormed m l (ys ++ z :: zs)) :
    ∃ m', listRemoveNext m l (payload z) = some (m', payloadOrNull (zs.headD 0)) ∧
      listRemovePrev m l (payload z) = some (m', payloadOrNull (ys.getLastD 0)) ∧
      listRemoveElement m l (payload z) = some m' ∧ WellFormed m' l (ys ++ zs) ∧ OthersKept m m' l := by
  obtain ⟨m', hc, e⟩ := removeTpl_spec h
  refine ⟨m', e _, e _, ?_, hc.after, hc.othersKept⟩
  rw [listRemoveElement, e]
  rfl

theorem WellFormed.refused {m : Memory} {l k z : UInt64} {xs : List UInt64} (h : WellFormed m k xs) (hz : z ∈ xs)
    (hk : k ≠ l) : listRemoveNext m l (payload z) = some (m, 0) ∧ listRemovePrev m l (payload z) = some (m, 0) ∧
      listRemoveElement m l (payload z) = some m := by
  refine ⟨removeTpl_refused _ h hz hk, removeTpl_refused _ h hz hk, ?_⟩
  rw [listRemoveElement, removeTpl_refused _ h hz hk]
  rfl

/-- After any calls every list is the sequence of its elements, the same in both directions and
counted by `list_size`, and each operation acts on that sequence alone. -/
theorem list_run_sequence (h : List (Memory × Op)) (m : Memory) (r : Run Step start h m) :
    (∀ l, (m.lists l).isSome → ∃ xs, WellFormed m l xs) ∧
    (∀ elementSize l, l ≠ 0 → m.lists l = none →
      ∃ m', listInit m elementSize l = (m', l) ∧ WellFormed m' l [] ∧ OthersKept m m' l) ∧
    ∀ l xs, WellFormed m l xs →
      (∀ ys, WellFormed m l ys → ys = xs) ∧
      (∃ n, listSize m l = some n ∧ n.toNat = xs.length) ∧
      (listFirstElement m l = some (payloadOrNull (xs.headD 0)) ∧
        listLastElement m l = some (payloadOrNull (xs.getLastD 0))) ∧
      (∀ b, Fresh m b → ∃ m', listAppend m l b = some (m', payload b.addr) ∧ WellFormed m' l (xs ++ [b.addr]) ∧
        OthersKept m m' l) ∧
      (∀ b, Fresh m b → ∃ m', listPrepend m l b = some (m', payload b.addr) ∧ WellFormed m' l (b.addr :: xs) ∧
        OthersKept m m' l) ∧
      (∀ ys z zs, xs = ys ++ z :: zs →
        (listNextElement m (payload z) = some (payloadOrNull (zs.headD 0)) ∧
          listPrevElement m (payload z) = some (payloadOrNull (ys.getLastD 0))) ∧
        ∃ m', listRemoveNext m l (payload z) = some (m', payloadOrNull (zs.headD 0)) ∧
          listRemovePrev m l (payload z) = some (m', payloadOrNull (ys.getLastD 0)) ∧
          listRemoveElement m l (payload z) = some m' ∧ WellFormed m' l (ys ++ zs) ∧ OthersKept m m' l) ∧
      ∀ k, k ≠ l → ∀ z ∈ xs, listRemoveNext m k (payload z) = some (m, 0) ∧
        listRemovePrev m k (payload z) = some (m, 0) ∧ listRemoveElement m k (payload z) = some m := by
  refine ⟨run_sane r, ?_, ?_⟩
  · intro elementSize l hn _
    obtain ⟨m', e, hnew, hothers, _⟩ := listInit_spec m elementSize hn
    exact ⟨m', e, hnew, hothers⟩
  · intro l xs hxs
    refine ⟨fun ys hys => hys.unique hxs, hxs.size, hxs.ends, fun b => hxs.append, fun b => hxs.prepend, ?_, ?_⟩
    · rintro ys z zs rfl
      exact ⟨hxs.iterate, hxs.remove⟩
    · intro k hk z hz
      exact hxs.refused hz hk.symm

/-- A list at 8 with one element, at 64. -/
def single : Memory :=
  { lists := Function.update start.lists 8 (some { count := 1, elementSize := 4, first := 64, last := 64 })
    elements := Function.update start.elements 64 (some { prev := 0, next := 0, host := 8 }) }

theorem single_wellFormed : WellFormed single 8 [64] := by
  refine ⟨by decide, ⟨_, rfl, ?_, ?_, rfl⟩, ?_, ?_⟩
  · exact ⟨rfl, by decide, 0, rfl, rfl⟩
  · exact ⟨rfl, by decide, 0, rfl, rfl⟩
  · intro x hx
    rw [List.mem_singleton.mp hx]
    rfl
  · intro x hx
    rw [List.mem_singleton.mp hx]
    decide

theorem single_run : ∃ h, Run Step start h single := by
  have hb : Fresh (listInit start 4 8).1 ⟨64, 0, 0, 0⟩ := ⟨by decide, by decide, rfl⟩
  have hnew : WellFormed (listInit start 4 8).1 8 [] := ⟨by decide, ⟨_, rfl, rfl, rfl, rfl⟩, by simp, by simp⟩
  have e : listAppend (listInit start 4 8).1 8 ⟨64, 0, 0, 0⟩ = some (single, payload 64) := by
    rw [listAppend_eq hnew hb rfl]
    simp [listInit, single, joined_alone]
  have s₁ : Step start (.init 4 8) (listInit start 4 8).1 := .init (by decide) rfl
  exact ⟨_, .next (.next .start s₁) (.append rfl hb e)⟩

theorem list_run_sequence_one : ∃ m', listAppend single 8 ⟨128, 0, 0, 0⟩ = some (m', payload 128) ∧
    WellFormed m' 8 [64, 128] := by
  obtain ⟨h, r⟩ := single_run
  obtain ⟨_, _, hops⟩ := list_run_sequence h single r
  obtain ⟨_, _, _, happend, _⟩ := hops 8 [64] single_wellFormed
  obtain ⟨m', e, hm', _⟩ := happend ⟨128, 0, 0, 0⟩ ⟨by decide, by decide, rfl⟩
  exact ⟨m', e, hm'⟩

/-! ## Insertion next to an element -/

/-- A later `list_append` or `list_prepend` on `l`. -/
inductive EndStep (l : UInt64) : Memory → Block → Memory → Prop
  | append {m m' : Memory} {b : Block} {p : UInt64} (hb : Fresh m b) (h : listAppend m l b = some (m', p)) :
      EndStep l m b m'
  | prepend {m m' : Memory} {b : Block} {p : UInt64} (hb : Fresh m b) (h : listPrepend m l b = some (m', p)) :
      EndStep l m b m'

/-- The list is `xs`, and stays `xs` with more at the ends through any later calls at the ends. -/
def Lasting (m : Memory) (l : UInt64) (xs : List UInt64) : Prop :=
  WellFormed m l xs ∧ ∀ h m', Run (EndStep l) m h m' → ∃ pre post, WellFormed m' l (pre ++ xs ++ post)

theorem WellFormed.lasting {m : Memory} {l : UInt64} {xs : List UInt64} (h : WellFormed m l xs) : Lasting m l xs := by
  refine ⟨h, fun hist m' r => ?_⟩
  apply r.invariant (I := fun m' => ∃ pre post, WellFormed m' l (pre ++ xs ++ post))
  · refine ⟨[], [], ?_⟩
    rwa [List.nil_append, List.append_nil]
  · intro m b m' hm hs
    obtain ⟨pre, post, hm⟩ := hm
    cases hs with
    | append hb e =>
      obtain ⟨m₁, e₁, h₁, _⟩ := hm.append hb
      rw [e₁, Option.some.injEq, Prod.mk.injEq] at e
      refine ⟨pre, post ++ [b.addr], ?_⟩
      rw [← e.1, ← List.append_assoc]
      exact h₁
    | prepend hb e =>
      obtain ⟨m₁, e₁, h₁, _⟩ := hm.prepend hb
      rw [e₁, Option.some.injEq, Prod.mk.injEq] at e
      exact ⟨b.addr :: pre, post, e.1 ▸ h₁⟩

/-- `list_add_after` puts one new element behind `z`, for good. -/
def AddsAfter (m : Memory) (l : UInt64) (ys : List UInt64) (z : UInt64) (zs : List UInt64) (b : Block) : Prop :=
  ∃ m', listAddAfter m l (payload z) b = some (m', payload b.addr) ∧ Lasting m' l (ys ++ z :: b.addr :: zs)

def AddsBefore (m : Memory) (l : UInt64) (ys : List UInt64) (z : UInt64) (zs : List UInt64) (b : Block) : Prop :=
  ∃ m', listAddBefore m l (payload z) b = some (m', payload b.addr) ∧ Lasting m' l (ys ++ b.addr :: z :: zs)

theorem addsAfter_iff {m : Memory} {l z : UInt64} {ys zs : List UInt64} {b : Block}
    (h : WellFormed m l (ys ++ z :: zs)) (hb : Fresh m b) : AddsAfter m l ys z zs b ↔ zs ≠ [] := by
  obtain ⟨hd, hl, _⟩ := h.head
  have heq := listAddAfter_eq h hb hl
  constructor
  · rintro ⟨m', e, hm', _⟩ rfl
    -- `last` is still `z`, but the last element of the sequence would be the new one
    rw [heq, Option.some.injEq, Prod.mk.injEq] at e
    have hlast := (h.last_eq_iff hl).mpr rfl
    have hl' : m'.lists l = some { hd with count := hd.count + 1 } := by
      rw [← e.1]
      exact Function.update_self ..
    have hz := (WellFormed.last_eq_iff (by simpa using hm') hl').mp hlast
    cases hz
  · intro hzs
    refine ⟨_, heq, WellFormed.lasting ?_⟩
    have hc := Changes.joined (ys ++ [z]) zs { hd with count := hd.count + 1 } (by simpa using h) hb hl rfl
      (by simp) (by simp [hzs])
    simpa using hc.after

theorem addsBefore_iff {m : Memory} {l z : UInt64} {ys zs : List UInt64} {b : Block}
    (h : WellFormed m l (ys ++ z :: zs)) (hb : Fresh m b) : AddsBefore m l ys z zs b ↔ ys ≠ [] := by
  obtain ⟨hd, hl, _⟩ := h.head
  have heq := listAddBefore_eq h hb hl
  constructor
  · rintro ⟨m', e, hm', _⟩ rfl
    rw [heq, Option.some.injEq, Prod.mk.injEq] at e
    have hfirst := (h.first_eq_iff hl).mpr rfl
    have hl' : m'.lists l = some { hd with count := hd.count + 1 } := by
      rw [← e.1]
      exact Function.update_self ..
    have hz := (WellFormed.first_eq_iff (show WellFormed m' l ([b.addr] ++ z :: zs) from hm') hl').mp hfirst
    cases hz
  · intro hys
    refine ⟨_, heq, WellFormed.lasting ?_⟩
    exact (Changes.joined ys (z :: zs) { hd with count := hd.count + 1 } h hb hl rfl (by simp [hys]) (by simp)).after

/-- Insertion after `z` is right exactly when `z` is not the last element, and insertion before
it exactly when it is not the first. -/
theorem add_next_to_iff (m : Memory) (l z : UInt64) (ys zs : List UInt64) (b : Block)
    (h : WellFormed m l (ys ++ z :: zs)) (hb : Fresh m b) :
    (AddsAfter m l ys z zs b ↔ zs ≠ []) ∧ (AddsBefore m l ys z zs b ↔ ys ≠ []) :=
  ⟨addsAfter_iff h hb, addsBefore_iff h hb⟩

theorem add_after_first_of_two : ∃ m b, WellFormed m 8 [64, 128] ∧ Fresh m b ∧ AddsAfter m 8 [] 64 [128] b ∧
    ¬ AddsBefore m 8 [] 64 [128] b := by
  have hfresh : Fresh single ⟨128, 0, 0, 0⟩ := ⟨by decide, by decide, rfl⟩
  obtain ⟨m, e, hc⟩ := listAppend_spec single_wellFormed hfresh
  have hb : Fresh m ⟨192, 0, 0, 0⟩ := ⟨by decide, by decide, hc.others 192 (by decide) (by decide)⟩
  obtain ⟨hafter, hbefore⟩ := add_next_to_iff m 8 64 [] [128] _ hc.after hb
  exact ⟨m, _, hc.after, hb, hafter.mpr (by simp), fun hn => hbefore.mp hn rfl⟩

/-- After the only element of a list a new one is added, and lost by the next `list_append`. -/
theorem add_after_last_lost : ∃ m' m'', WellFormed single 8 [64] ∧ Fresh single ⟨128, 0, 0, 0⟩ ∧
    ¬ AddsAfter single 8 [] 64 [] ⟨128, 0, 0, 0⟩ ∧
    listAddAfter single 8 (payload 64) ⟨128, 0, 0, 0⟩ = some (m', payload 128) ∧ (¬ ∃ xs, WellFormed m' 8 xs) ∧
    listAppend m' 8 ⟨192, 0, 0, 0⟩ = some (m'', payload 192) ∧ Follows m''.next 64 [64, 192] := by
  have hfresh : Fresh single ⟨128, 0, 0, 0⟩ := ⟨by decide, by decide, rfl⟩
  refine ⟨_, _, single_wellFormed, hfresh, ?_, rfl, ?_, rfl, ?_⟩
  · intro hadds
    exact (addsAfter_iff single_wellFormed hfresh).mp hadds rfl
  · rintro ⟨xs, hxs⟩
    obtain ⟨hd, hl, hf, hp, hc⟩ := hxs.head
    cases Option.some.inj hl
    have hlen : xs = [64, 128] := hf.unique ⟨rfl, by decide, 128, rfl, rfl, by decide, 0, rfl, rfl⟩
    subst hlen
    exact absurd hp.start_eq (by decide)
  · exact ⟨rfl, by decide, 192, rfl, rfl, by decide, 0, rfl, rfl⟩

end Chats.LinkedList
