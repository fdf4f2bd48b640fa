import Chats.Common.LinkedList
import Chats.Lib.Links

/-! # A linked list as the sequence of its elements

Each operation of `common/list.c` either puts one element in between two neighbours or cuts
one out from between them. `joined` and `severed` say what that does to the elements, and
`WellFormed.joined` and `WellFormed.severed` what it does to the sequence. -/
namespace Chats.LinkedList
set_option autoImplicit false

open Lib Lib.Store

namespace Memory

def next (m : Memory) (x : UInt64) : Option UInt64 := (m.elements x).map ListElement.next

def prev (m : Memory) (x : UInt64) : Option UInt64 := (m.elements x).map ListElement.prev

def host (m : Memory) (x : UInt64) : Option UInt64 := (m.elements x).map ListElement.host

theorem setList_of_some {m : Memory} {l : UInt64} {h : ListHead} (f : ListHead → ListHead)
    (hl : m.lists l = some h) :
    m.setList l f = some { m with lists := Function.update m.lists l (some (f h)) } := by
  rw [Memory.setList, modify_of_some f hl]
  rfl

theorem setElement_of_some {m : Memory} {le : UInt64} {e : ListElement} (f : ListElement → ListElement)
    (he : m.elements le = some e) :
    m.setElement le f = some { m with elements := Function.update m.elements le (some (f e)) } := by
  rw [Memory.setElement, modify_of_some f he]
  rfl

theorem setElement_update (lists : Store UInt64 ListHead) (elements : Store UInt64 ListElement) (le : UInt64)
    (e : ListElement) (f : ListElement → ListElement) :
    setElement { lists, elements := Function.update elements le (some e) } le f =
      some { lists, elements := Function.update elements le (some (f e)) } := by
  rw [setElement_of_some f (Function.update_self ..), Function.update_idem]

end Memory

/-- The list `l` is the sequence `xs`: `next` from `first` visits it, `prev` from `last` visits
its reverse, `count` is its length and `l` is the host of each element. -/
structure WellFormed (m : Memory) (l : UInt64) (xs : List UInt64) : Prop where
  nonNull : l ≠ 0
  head : ∃ h, m.lists l = some h ∧ Follows m.next h.first xs ∧ Follows m.prev h.last xs.reverse ∧
    h.count.toNat = xs.length
  host : ∀ x ∈ xs, m.host x = some l
  data : ∀ x ∈ xs, payload x ≠ 0

namespace WellFormed
variable {m m' : Memory} {l k n z : UInt64} {xs ys zs : List UInt64}

theorem unique (h : WellFormed m l xs) (h' : WellFormed m l ys) : xs = ys := by
  obtain ⟨hd, hl, hf, _⟩ := h.head
  obtain ⟨hd', hl', hf', _⟩ := h'.head
  rw [hl, Option.some.injEq] at hl'
  subst hl'
  exact hf.unique hf'

theorem nodup (h : WellFormed m l xs) : xs.Nodup := by
  obtain ⟨hd, _, hf, _⟩ := h.head
  exact hf.nodup

theorem zero_notMem (h : WellFormed m l xs) : 0 ∉ xs := by
  obtain ⟨hd, _, hf, _⟩ := h.head
  exact hf.zero_notMem

theorem ne_zero (h : WellFormed m l xs) {x : UInt64} (hx : x ∈ xs) : x ≠ 0 := by
  rintro rfl
  exact h.zero_notMem hx

theorem length_lt (h : WellFormed m l xs) : xs.length < 2 ^ 64 := words_length_lt h.nodup h.zero_notMem

theorem isSome (h : WellFormed m l xs) {x : UInt64} (hx : x ∈ xs) : (m.elements x).isSome := by
  have hh := h.host x hx
  cases he : m.elements x with
  | none => simp [Memory.host, he] at hh
  | some e => rfl

/-- An element of the sequence with its two neighbours. -/
theorem element (h : WellFormed m l (ys ++ z :: zs)) :
    m.elements z = some { prev := ys.getLastD 0, next := zs.headD 0, host := l } := by
  obtain ⟨hd, _, hf, hp, _⟩ := h.head
  have hn := hf.after.1
  have hr : (ys ++ z :: zs).reverse = zs.reverse ++ z :: ys.reverse := by simp
  rw [hr] at hp
  have hb := hp.after.1
  have hh := h.host z (by simp)
  cases he : m.elements z with
  | none => simp [Memory.host, he] at hh
  | some e =>
    simp only [Memory.next, Memory.prev, Memory.host, he, Option.map_some, Option.some.injEq] at hn hb hh
    cases e
    simp_all

theorem count_eq (h : WellFormed m l xs) {hd : ListHead} (hl : m.lists l = some hd) :
    hd.count = UInt64.ofNat xs.length := by
  obtain ⟨hd', hl', _, _, hc⟩ := h.head
  rw [hl, Option.some.injEq] at hl'
  subst hl'
  rw [← hc, UInt64.ofNat_toNat]

/-- What the sequence depends on. -/
theorem congr (h : WellFormed m l xs) (hl : m'.lists l = m.lists l)
    (he : ∀ x ∈ xs, m'.elements x = m.elements x) : WellFormed m' l xs := by
  obtain ⟨hd, hhd, hf, hp, hc⟩ := h.head
  refine ⟨h.nonNull, ⟨hd, hl.trans hhd, hf.congr ?_, hp.congr ?_, hc⟩, ?_, h.data⟩
  · intro x hx
    rw [Memory.next, Memory.next, he x hx]
  · intro x hx
    rw [Memory.prev, Memory.prev, he x (List.mem_reverse.mp hx)]
  · intro x hx
    rw [Memory.host, he x hx]
    exact h.host x hx

/-- Two lists share no element, since an element names its list. -/
theorem disjoint (h : WellFormed m l xs) (h' : WellFormed m k ys) (hk : k ≠ l) {x : UInt64} (hx : x ∈ xs) : x ∉ ys := by
  intro hy
  have e := (h.host x hx).symm.trans (h'.host x hy)
  exact hk (Option.some.inj e).symm

end WellFormed

/-! ## Putting one element in -/

/-- The element `n` of list `l` between `p` and `q`, each of which may be null. -/
def joined (elements : Store UInt64 ListElement) (l p n q : UInt64) : Store UInt64 ListElement := fun x =>
  if x = n then some { prev := p, next := q, host := l }
  else if x = 0 then elements x
  else if x = p then (elements x).map fun e => { e with next := n }
  else if x = q then (elements x).map fun e => { e with prev := n }
  else elements x

section joined
variable {m : Memory} {elements : Store UInt64 ListElement} {l p n q x : UInt64} {ys zs : List UInt64}

theorem joined_self (elements : Store UInt64 ListElement) (l p n q : UInt64) :
    joined elements l p n q n = some { prev := p, next := q, host := l } := by
  simp [joined]

theorem joined_next (hn : x ≠ n) (hp : x ≠ p) :
    (joined elements l p n q x).map ListElement.next = (elements x).map ListElement.next := by
  unfold joined
  rw [if_neg hn, if_neg hp]
  split_ifs
  · rfl
  · cases elements x <;> rfl
  · rfl

theorem joined_prev (hn : x ≠ n) (hq : x ≠ q) :
    (joined elements l p n q x).map ListElement.prev = (elements x).map ListElement.prev := by
  unfold joined
  rw [if_neg hn, if_neg hq]
  split_ifs
  · rfl
  · cases elements x <;> rfl
  · rfl

theorem joined_host (hn : x ≠ n) :
    (joined elements l p n q x).map ListElement.host = (elements x).map ListElement.host := by
  unfold joined
  rw [if_neg hn]
  split_ifs
  · rfl
  · cases elements x <;> rfl
  · cases elements x <;> rfl
  · rfl

theorem joined_left (h0 : p ≠ 0) (hn : p ≠ n) (he : (elements p).isSome) :
    (joined elements l p n q p).map ListElement.next = some n := by
  obtain ⟨e, he⟩ := Option.isSome_iff_exists.mp he
  simp [joined, h0, hn, he]

theorem joined_right (h0 : q ≠ 0) (hn : q ≠ n) (hp : q ≠ p) (he : (elements q).isSome) :
    (joined elements l p n q q).map ListElement.prev = some n := by
  obtain ⟨e, he⟩ := Option.isSome_iff_exists.mp he
  simp [joined, h0, hn, hp, he]

end joined

theorem getLastD_mem {xs : List UInt64} (h : xs ≠ []) : xs.getLastD 0 ∈ xs := by
  rw [List.getLastD_eq_getLast?, List.getLast?_eq_some_getLast h]
  exact List.getLast_mem h

theorem headD_mem {xs : List UInt64} (h : xs ≠ []) : xs.headD 0 ∈ xs := by
  cases xs with
  | nil => exact absurd rfl h
  | cons x xs => simp

theorem getLastD_reverse (xs : List UInt64) : xs.reverse.getLastD 0 = xs.headD 0 := by
  cases xs <;> simp

theorem headD_reverse (xs : List UInt64) : xs.reverse.headD 0 = xs.getLastD 0 := by
  simp [List.headD_eq_head?_getD, List.getLastD_eq_getLast?]

theorem neighbours_ne {ys zs : List UInt64} (hn : (ys ++ zs).Nodup) (h0 : 0 ∉ ys ++ zs) (hzs : zs ≠ []) :
    zs.headD 0 ≠ ys.getLastD 0 := by
  intro e
  have hmem := headD_mem hzs
  by_cases hys : ys = []
  · have hz : zs.headD 0 = 0 := by rw [e, hys, List.getLastD_nil]
    exact h0 (List.mem_append_right ys (hz ▸ hmem))
  · exact (List.nodup_append.mp hn).2.2 _ (getLastD_mem hys) _ hmem e.symm

/-- Off the sequence, the neighbours can only be null. -/
theorem not_neighbour {ys zs : List UInt64} {x : UInt64} (hx : x ∉ ys ++ zs) (h0 : x ≠ 0) :
    x ≠ ys.getLastD 0 ∧ x ≠ zs.headD 0 := by
  constructor
  · rintro rfl
    by_cases hys : ys = []
    · simp [hys] at h0
    · exact hx (List.mem_append_left zs (getLastD_mem hys))
  · rintro rfl
    by_cases hzs : zs = []
    · simp [hzs] at h0
    · exact hx (List.mem_append_right ys (headD_mem hzs))

/-- With `n` joined in and the head moved on, the sequence has `n` between `ys` and `zs`. -/
theorem WellFormed.joined {m m' : Memory} {l n : UInt64} {ys zs : List UInt64} {hd hd' : ListHead}
    (h : WellFormed m l (ys ++ zs)) (hn : n ≠ 0) (hpay : payload n ≠ 0) (hfree : m.elements n = none)
    (hl : m.lists l = some hd) (hl' : m'.lists l = some hd')
    (he : m'.elements = LinkedList.joined m.elements l (ys.getLastD 0) n (zs.headD 0))
    (hcount : hd'.count = hd.count + 1) (hfirst : hd'.first = if ys = [] then n else hd.first)
    (hlast : hd'.last = if zs = [] then n else hd.last) : WellFormed m' l (ys ++ n :: zs) := by
  obtain ⟨hd₀, hl₀, hf, hp, hc⟩ := h.head
  rw [hl, Option.some.injEq] at hl₀
  subst hl₀
  have hne : ∀ x ∈ ys ++ zs, x ≠ n := by
    rintro x hx rfl
    simpa [hfree] using h.isSome hx
  have hf' : Follows m'.next hd'.first (ys ++ n :: zs) := by
    rw [hfirst]
    apply hf.insert hn
    · intro x hx hx'
      unfold Memory.next
      rw [he]
      exact joined_next (hne x hx) hx'
    · intro hys
      have hmem := List.mem_append_left zs (getLastD_mem hys)
      unfold Memory.next
      rw [he]
      exact joined_left (h.ne_zero hmem) (hne _ hmem) (h.isSome hmem)
    · simp [Memory.next, he, joined_self]
  have hp' : Follows m'.prev hd'.last (ys ++ n :: zs).reverse := by
    have hlast' : hd'.last = if zs.reverse = [] then n else hd.last := by simpa using hlast
    rw [List.reverse_append] at hp ⊢
    rw [List.reverse_cons, List.append_assoc, List.singleton_append, hlast']
    apply hp.insert hn
    · intro x hx hx'
      rw [getLastD_reverse] at hx'
      unfold Memory.prev
      rw [he]
      exact joined_prev (hne x (by simpa [or_comm] using hx)) hx'
    · intro hzs
      have hmem : zs.headD 0 ∈ zs := headD_mem (by simpa using hzs)
      have hne' := neighbours_ne h.nodup h.zero_notMem (by simpa using hzs)
      have hmem := List.mem_append_right ys hmem
      rw [getLastD_reverse]
      unfold Memory.prev
      rw [he]
      exact joined_right (h.ne_zero hmem) (hne _ hmem) hne' (h.isSome hmem)
    · simp [Memory.prev, he, joined_self]
  refine ⟨h.nonNull, ⟨hd', hl', hf', hp', ?_⟩, ?_, ?_⟩
  · have hlen := words_length_lt hf'.nodup hf'.zero_notMem
    simp only [List.length_append, List.length_cons] at hlen hc ⊢
    rw [hcount, UInt64.toNat_add, hc, UInt64.toNat_one]
    omega
  · intro x hx
    unfold Memory.host
    rw [he]
    by_cases e : x = n
    · subst e
      rw [joined_self]
      rfl
    · exact (joined_host e).trans (h.host x (by simpa [e] using hx))
  · intro x hx
    by_cases e : x = n
    · exact e ▸ hpay
    · exact h.data x (by simpa [e] using hx)

/-! ## Cutting one element out -/

/-- The element `z` gone from between `p` and `q`. -/
def severed (elements : Store UInt64 ListElement) (p z q : UInt64) : Store UInt64 ListElement := fun x =>
  if x = z then none
  else if x = 0 then elements x
  else if x = p then (elements x).map fun e => { e with next := q }
  else if x = q then (elements x).map fun e => { e with prev := p }
  else elements x

section severed
variable {elements : Store UInt64 ListElement} {p z q x : UInt64}

theorem severed_next (hz : x ≠ z) (hp : x ≠ p) :
    (severed elements p z q x).map ListElement.next = (elements x).map ListElement.next := by
  unfold severed
  rw [if_neg hz, if_neg hp]
  split_ifs
  · rfl
  · cases elements x <;> rfl
  · rfl

theorem severed_prev (hz : x ≠ z) (hq : x ≠ q) :
    (severed elements p z q x).map ListElement.prev = (elements x).map ListElement.prev := by
  unfold severed
  rw [if_neg hz, if_neg hq]
  split_ifs
  · rfl
  · cases elements x <;> rfl
  · rfl

theorem severed_host (hz : x ≠ z) :
    (severed elements p z q x).map ListElement.host = (elements x).map ListElement.host := by
  unfold severed
  rw [if_neg hz]
  split_ifs
  · rfl
  · cases elements x <;> rfl
  · cases elements x <;> rfl
  · rfl

theorem severed_left (h0 : p ≠ 0) (hz : p ≠ z) (he : (elements p).isSome) :
    (severed elements p z q p).map ListElement.next = some q := by
  obtain ⟨e, he⟩ := Option.isSome_iff_exists.mp he
  simp [severed, h0, hz, he]

theorem severed_right (h0 : q ≠ 0) (hz : q ≠ z) (hp : q ≠ p) (he : (elements q).isSome) :
    (severed elements p z q q).map ListElement.prev = some p := by
  obtain ⟨e, he⟩ := Option.isSome_iff_exists.mp he
  simp [severed, h0, hz, hp, he]

end severed

/-- With `z` severed and the head moved off it, the sequence is what was around it. -/
theorem WellFormed.severed {m m' : Memory} {l z : UInt64} {ys zs : List UInt64} {hd hd' : ListHead}
    (h : WellFormed m l (ys ++ z :: zs)) (hl : m.lists l = some hd) (hl' : m'.lists l = some hd')
    (he : m'.elements = LinkedList.severed m.elements (ys.getLastD 0) z (zs.headD 0))
    (hcount : hd'.count = hd.count - 1) (hfirst : hd'.first = if ys = [] then zs.headD 0 else hd.first)
    (hlast : hd'.last = if zs = [] then ys.getLastD 0 else hd.last) : WellFormed m' l (ys ++ zs) := by
  obtain ⟨hd₀, hl₀, hf, hp, hc⟩ := h.head
  rw [hl, Option.some.injEq] at hl₀
  subst hl₀
  have hnd := h.nodup
  have hmem : ∀ x ∈ ys ++ zs, x ∈ ys ++ z :: zs := by
    intro x hx
    simp only [List.mem_append, List.mem_cons] at hx ⊢
    tauto
  have hne : ∀ x ∈ ys ++ zs, x ≠ z := by
    rintro x hx rfl
    exact (List.nodup_middle.mp hnd).notMem hx
  have hf' : Follows m'.next hd'.first (ys ++ zs) := by
    rw [hfirst]
    apply hf.cut
    · intro x hx hx'
      unfold Memory.next
      rw [he]
      exact severed_next (hne x hx) hx'
    · intro hys
      have hx := List.mem_append_left zs (getLastD_mem hys)
      unfold Memory.next
      rw [he]
      exact severed_left (h.ne_zero (hmem _ hx)) (hne _ hx) (h.isSome (hmem _ hx))
  have hp' : Follows m'.prev hd'.last (ys ++ zs).reverse := by
    have hlast' : hd'.last = if zs.reverse = [] then ys.reverse.headD 0 else hd.last := by
      simpa [headD_reverse] using hlast
    have hr : (ys ++ z :: zs).reverse = zs.reverse ++ z :: ys.reverse := by simp
    rw [hr] at hp
    rw [List.reverse_append, hlast']
    apply hp.cut
    · intro x hx hx'
      rw [getLastD_reverse] at hx'
      unfold Memory.prev
      rw [he]
      exact severed_prev (hne x (by simpa [or_comm] using hx)) hx'
    · intro hzs
      have hx : zs.headD 0 ∈ zs := headD_mem (by simpa using hzs)
      have hne' := neighbours_ne (List.nodup_middle.mp hnd).of_cons (fun hm => h.zero_notMem (hmem _ hm))
        (by simpa using hzs)
      have hx := List.mem_append_right ys hx
      rw [getLastD_reverse, headD_reverse]
      unfold Memory.prev
      rw [he]
      exact severed_right (h.ne_zero (hmem _ hx)) (hne _ hx) hne' (h.isSome (hmem _ hx))
  refine ⟨h.nonNull, ⟨hd', hl', hf', hp', ?_⟩, ?_, ?_⟩
  · have hlen := h.length_lt
    have h1 : (1 : UInt64) ≤ hd.count := by
      rw [UInt64.le_iff_toNat_le, hc, UInt64.toNat_one, List.length_append, List.length_cons]
      omega
    rw [hcount, UInt64.toNat_sub_of_le _ _ h1, hc, UInt64.toNat_one]
    simp
  · intro x hx
    unfold Memory.host
    rw [he]
    exact (severed_host (hne x hx)).trans (h.host x (hmem x hx))
  · intro x hx
    exact h.data x (hmem x hx)

/-! ## The operations -/

/-- The list `l` goes from `xs` to `xs'`; elements come only from free blocks, and those
that are cut out go back. -/
structure Changes (m m' : Memory) (l : UInt64) (xs xs' : List UInt64) : Prop where
  before : WellFormed m l xs
  after : WellFormed m' l xs'
  lists : ∀ k, k ≠ l → m'.lists k = m.lists k
  others : ∀ x, x ∉ xs → x ∉ xs' → m'.elements x = m.elements x
  new : ∀ x ∈ xs', x ∉ xs → m.elements x = none
  gone : ∀ x ∈ xs, x ∉ xs' → m'.elements x = none

/-- A block that `allocate` may return. -/
structure Fresh (m : Memory) (b : Block) : Prop where
  nonNull : b.addr ≠ 0
  data : payload b.addr ≠ 0
  free : m.elements b.addr = none

theorem Changes.joined {m : Memory} {l : UInt64} {b : Block} (ys zs : List UInt64) {hd : ListHead} (hd' : ListHead)
    (h : WellFormed m l (ys ++ zs)) (hb : Fresh m b) (hl : m.lists l = some hd) (hcount : hd'.count = hd.count + 1)
    (hfirst : hd'.first = if ys = [] then b.addr else hd.first)
    (hlast : hd'.last = if zs = [] then b.addr else hd.last) :
    Changes m { lists := Function.update m.lists l (some hd')
                elements := LinkedList.joined m.elements l (ys.getLastD 0) b.addr (zs.headD 0) }
      l (ys ++ zs) (ys ++ b.addr :: zs) := by
  refine ⟨h, ?_, ?_, ?_, ?_, ?_⟩
  · exact h.joined hb.nonNull hb.data hb.free hl (Function.update_self ..) rfl hcount hfirst hlast
  · intro k hk
    exact Function.update_of_ne hk ..
  · intro x hx hx'
    have hn : x ≠ b.addr := by
      rintro rfl
      simp at hx'
    have hp : x ≠ 0 → x ≠ ys.getLastD 0 ∧ x ≠ zs.headD 0 := not_neighbour hx
    simp only [LinkedList.joined]
    rw [if_neg hn]
    split_ifs with h₀ h₁ h₂
    · rfl
    · exact absurd h₁ (hp h₀).1
    · exact absurd h₂ (hp h₀).2
    · rfl
  · intro x hx hx'
    have : x = b.addr := by
      simp only [List.mem_append, List.mem_cons] at hx hx'
      tauto
    exact this ▸ hb.free
  · intro x hx hx'
    simp only [List.mem_append, List.mem_cons] at hx hx'
    tauto

theorem Changes.severed {m : Memory} {l z : UInt64} (ys zs : List UInt64) {hd : ListHead} (hd' : ListHead)
    (h : WellFormed m l (ys ++ z :: zs)) (hl : m.lists l = some hd) (hcount : hd'.count = hd.count - 1)
    (hfirst : hd'.first = if ys = [] then zs.headD 0 else hd.first)
    (hlast : hd'.last = if zs = [] then ys.getLastD 0 else hd.last) :
    Changes m { lists := Function.update m.lists l (some hd')
                elements := LinkedList.severed m.elements (ys.getLastD 0) z (zs.headD 0) }
      l (ys ++ z :: zs) (ys ++ zs) := by
  refine ⟨h, ?_, ?_, ?_, ?_, ?_⟩
  · exact h.severed hl (Function.update_self ..) rfl hcount hfirst hlast
  · intro k hk
    exact Function.update_of_ne hk ..
  · intro x hx hx'
    have hz : x ≠ z := by
      rintro rfl
      simp at hx
    have hp : x ≠ 0 → x ≠ ys.getLastD 0 ∧ x ≠ zs.headD 0 := not_neighbour hx'
    simp only [LinkedList.severed]
    rw [if_neg hz]
    split_ifs with h₀ h₁ h₂
    · rfl
    · exact absurd h₁ (hp h₀).1
    · exact absurd h₂ (hp h₀).2
    · rfl
  · intro x hx hx'
    simp only [List.mem_append, List.mem_cons] at hx hx'
    tauto
  · intro x hx hx'
    have hz : x = z := by
      simp only [List.mem_append, List.mem_cons] at hx hx'
      tauto
    exact if_pos hz

theorem count_succ_eq_one_iff {m : Memory} {l : UInt64} {xs : List UInt64} {hd : ListHead} (h : WellFormed m l xs)
    (hl : m.lists l = some hd) : hd.count + 1 = 1 ↔ xs = [] := by
  have hlt := h.length_lt
  rw [h.count_eq hl, ← UInt64.toNat_inj, UInt64.toNat_add, UInt64.toNat_ofNat_of_lt' hlt, UInt64.toNat_one,
    ← List.length_eq_zero_iff]
  omega

theorem Fresh.ne {m : Memory} {l x : UInt64} {xs : List UInt64} {b : Block} (hb : Fresh m b) (h : WellFormed m l xs)
    (hx : x ∈ xs) : x ≠ b.addr := by
  rintro rfl
  simpa [hb.free] using h.isSome hx

theorem joined_alone (elements : Store UInt64 ListElement) (l n : UInt64) :
    joined elements l 0 n 0 = Function.update elements n (some { prev := 0, next := 0, host := l }) := by
  funext x
  unfold joined
  rw [Function.update_apply]
  split_ifs <;> rfl

theorem joined_end {elements : Store UInt64 ListElement} {z n : UInt64} {e : ListElement} (l : UInt64) (hz : z ≠ 0)
    (hne : z ≠ n) (he : elements z = some e) :
    joined elements l z n 0 = Function.update (Function.update elements n (some { prev := z, next := 0, host := l })) z
      (some { e with next := n }) := by
  funext x
  unfold joined
  simp only [Function.update_apply]
  split_ifs <;> simp_all

theorem joined_start {elements : Store UInt64 ListElement} {z n : UInt64} {e : ListElement} (l : UInt64) (hz : z ≠ 0)
    (hne : z ≠ n) (he : elements z = some e) :
    joined elements l 0 n z = Function.update (Function.update elements n (some { prev := 0, next := z, host := l })) z
      (some { e with prev := n }) := by
  funext x
  unfold joined
  simp only [Function.update_apply]
  split_ifs <;> simp_all

theorem listAllocate_eq {m : Memory} {l : UInt64} {b : Block} {hd : ListHead} (hb : Fresh m b)
    (hl : m.lists l = some hd) :
    listAllocate m l b =
      some ({ m with elements := Function.update m.elements b.addr (some { b.content with host := l }) }, b.addr) := by
  rw [listAllocate, hl, Option.bind_eq_bind, Option.bind_some, if_neg hb.nonNull]

theorem listAppend_eq {m : Memory} {l : UInt64} {xs : List UInt64} {b : Block} {hd : ListHead} (h : WellFormed m l xs)
    (hb : Fresh m b) (hl : m.lists l = some hd) :
    listAppend m l b = some (
      { lists := Function.update m.lists l (some
          { hd with count := hd.count + 1, first := if xs = [] then b.addr else hd.first, last := b.addr })
        elements := joined m.elements l (xs.getLastD 0) b.addr 0 }, payload b.addr) := by
  obtain ⟨hd', hl', _, hp, _⟩ := h.head
  rw [hl, Option.some.injEq] at hl'
  subst hl'
  have h₁ := count_succ_eq_one_iff h hl
  rcases List.eq_nil_or_concat xs with rfl | ⟨init, z, rfl⟩
  · simp [listAppend, listAllocate_eq hb hl, h.nonNull, hl, hb.nonNull, h₁.mpr rfl, Memory.setElement_of_some,
      Memory.setList_of_some, joined_alone]
  · rw [List.concat_eq_append] at *
    have hz : z ∈ init ++ [z] := by simp
    have hne := hb.ne h hz
    have hlast : hd.last = z := by simpa using hp.start_eq
    have hc : ¬ hd.count + 1 = 1 := by simp [h₁]
    simp [listAppend, listAllocate_eq hb hl, h.nonNull, hl, hb.nonNull, hc, Memory.setElement_of_some,
      Memory.setList_of_some, joined_end l (h.ne_zero hz) hne h.element, hlast, Function.update_of_ne hne, h.element]

theorem listAppend_spec {m : Memory} {l : UInt64} {xs : List UInt64} {b : Block} (h : WellFormed m l xs)
    (hb : Fresh m b) :
    ∃ m', listAppend m l b = some (m', payload b.addr) ∧ Changes m m' l xs (xs ++ [b.addr]) := by
  obtain ⟨hd, hl, _⟩ := h.head
  refine ⟨_, listAppend_eq h hb hl, ?_⟩
  have hc := Changes.joined xs []
    { hd with count := hd.count + 1, first := if xs = [] then b.addr else hd.first, last := b.addr }
    (by simpa using h) hb hl rfl rfl rfl
  rwa [List.append_nil] at hc

theorem listPrepend_eq {m : Memory} {l : UInt64} {xs : List UInt64} {b : Block} {hd : ListHead} (h : WellFormed m l xs)
    (hb : Fresh m b) (hl : m.lists l = some hd) :
    listPrepend m l b = some (
      { lists := Function.update m.lists l (some
          { hd with count := hd.count + 1, first := b.addr, last := if xs = [] then b.addr else hd.last })
        elements := joined m.elements l 0 b.addr (xs.headD 0) }, payload b.addr) := by
  obtain ⟨hd', hl', hf, _⟩ := h.head
  rw [hl, Option.some.injEq] at hl'
  subst hl'
  have h₁ := count_succ_eq_one_iff h hl
  cases xs with
  | nil =>
    simp [listPrepend, listAllocate_eq hb hl, h.nonNull, hl, hb.nonNull, h₁.mpr rfl, Memory.setElement_of_some,
      Memory.setList_of_some, joined_alone]
  | cons z rest =>
    have hz : z ∈ z :: rest := List.mem_cons_self
    have hne := hb.ne h hz
    have hfirst : hd.first = z := hf.start_eq
    have hc : ¬ hd.count + 1 = 1 := by simp [h₁]
    have he := (show WellFormed m l ([] ++ z :: rest) from h).element
    simp [listPrepend, listAllocate_eq hb hl, h.nonNull, hl, hb.nonNull, hc, Memory.setElement_of_some,
      Memory.setList_of_some, joined_start l (h.ne_zero hz) hne he, hfirst, Function.update_of_ne hne, he]

theorem listPrepend_spec {m : Memory} {l : UInt64} {xs : List UInt64} {b : Block} (h : WellFormed m l xs)
    (hb : Fresh m b) :
    ∃ m', listPrepend m l b = some (m', payload b.addr) ∧ Changes m m' l xs (b.addr :: xs) := by
  obtain ⟨hd, hl, _⟩ := h.head
  refine ⟨_, listPrepend_eq h hb hl, ?_⟩
  exact Changes.joined [] xs { hd with
    count := hd.count + 1, first := b.addr, last := if xs = [] then b.addr else hd.last } h hb hl rfl rfl rfl

theorem setUnlessNull_eq {m : Memory} {q : UInt64} (f : ListElement → ListElement)
    (h : q ≠ 0 → (m.elements q).isSome) :
    m.setUnlessNull q f =
      some { m with elements := fun x => if x ≠ 0 ∧ x = q then (m.elements x).map f else m.elements x } := by
  unfold Memory.setUnlessNull
  by_cases hq : q = 0
  · have he : (fun x => if x ≠ 0 ∧ x = q then (m.elements x).map f else m.elements x) = m.elements := by
      funext x
      rw [if_neg (by rintro ⟨h₀, rfl⟩; exact h₀ hq)]
    rw [if_neg (by simp [hq]), he]
  · obtain ⟨e, he⟩ := Option.isSome_iff_exists.mp (h hq)
    rw [if_pos hq, Memory.setElement_of_some f he]
    congr 2
    funext x
    rw [Function.update_apply]
    by_cases hx : x = q
    · subst hx
      simp [hq, he]
    · simp [hx]

theorem WellFormed.isSome_headD {m : Memory} {l z : UInt64} {ys zs : List UInt64} (h : WellFormed m l (ys ++ z :: zs))
    (h0 : zs.headD 0 ≠ 0) : (m.elements (zs.headD 0)).isSome := by
  have hzs : zs ≠ [] := by
    rintro rfl
    simp at h0
  exact h.isSome (List.mem_append_right ys (List.mem_cons_of_mem z (headD_mem hzs)))

theorem WellFormed.isSome_getLastD {m : Memory} {l z : UInt64} {ys zs : List UInt64}
    (h : WellFormed m l (ys ++ z :: zs)) (h0 : ys.getLastD 0 ≠ 0) : (m.elements (ys.getLastD 0)).isSome := by
  have hys : ys ≠ [] := by
    rintro rfl
    simp at h0
  exact h.isSome (List.mem_append_left _ (getLastD_mem hys))

theorem WellFormed.last_eq_iff {m : Memory} {l z : UInt64} {ys zs : List UInt64} {hd : ListHead}
    (h : WellFormed m l (ys ++ z :: zs)) (hl : m.lists l = some hd) : z = hd.last ↔ zs = [] := by
  obtain ⟨hd', hl', _, hp, _⟩ := h.head
  rw [hl, Option.some.injEq] at hl'
  subst hl'
  have hnd := h.nodup
  rw [hp.start_eq, headD_reverse]
  rcases List.eq_nil_or_concat zs with rfl | ⟨init, w, rfl⟩
  · simp
  · have e : ys ++ z :: (init.concat w) = (ys ++ z :: init) ++ [w] := by simp
    rw [e, List.getLastD_concat]
    rw [e] at hnd
    have hzw : z ≠ w := (List.nodup_append.mp hnd).2.2 z (by simp) w (by simp)
    simp [hzw]

theorem WellFormed.first_eq_iff {m : Memory} {l z : UInt64} {ys zs : List UInt64} {hd : ListHead}
    (h : WellFormed m l (ys ++ z :: zs)) (hl : m.lists l = some hd) : z = hd.first ↔ ys = [] := by
  obtain ⟨hd', hl', hf, _⟩ := h.head
  rw [hl, Option.some.injEq] at hl'
  subst hl'
  have hnd := h.nodup
  rw [hf.start_eq]
  cases ys with
  | nil => simp
  | cons y ys =>
    have hzy : y ≠ z := by
      rintro rfl
      simp at hnd
    simp [hzy.symm]

theorem WellFormed.count_pred_eq_zero_iff {m : Memory} {l z : UInt64} {ys zs : List UInt64} {hd : ListHead}
    (h : WellFormed m l (ys ++ z :: zs)) (hl : m.lists l = some hd) : hd.count - 1 = 0 ↔ ys = [] ∧ zs = [] := by
  have hlt := h.length_lt
  have hc := h.count_eq hl
  have h1 : (1 : UInt64) ≤ hd.count := by
    rw [UInt64.le_iff_toNat_le, hc, UInt64.toNat_ofNat_of_lt' hlt, UInt64.toNat_one, List.length_append,
      List.length_cons]
    omega
  rw [← UInt64.toNat_inj, UInt64.toNat_sub_of_le _ _ h1, hc, UInt64.toNat_ofNat_of_lt' hlt, UInt64.toNat_one,
    UInt64.toNat_zero, ← List.length_eq_zero_iff, ← List.length_eq_zero_iff]
  simp only [List.length_append, List.length_cons]
  omega

theorem sever_eq {m : Memory} {l z : UInt64} {ys zs : List UInt64} (h : WellFormed m l (ys ++ z :: zs)) :
    sever m z { prev := ys.getLastD 0, next := zs.headD 0, host := l } =
      some { m with elements := severed m.elements (ys.getLastD 0) z (zs.headD 0) } := by
  have hne : zs.headD 0 ≠ 0 → zs.headD 0 ≠ ys.getLastD 0 := by
    intro h0
    have hzs : zs ≠ [] := by
      rintro rfl
      simp at h0
    have hnd := (List.nodup_middle.mp h.nodup).of_cons
    exact neighbours_ne hnd (fun hm => h.zero_notMem (by simp at hm ⊢; tauto)) hzs
  unfold sever
  rw [setUnlessNull_eq _ h.isSome_headD, Option.bind_eq_bind, Option.bind_some, setUnlessNull_eq,
    Option.bind_some, Memory.deallocate]
  · congr 2
    dsimp only
    generalize ys.getLastD 0 = p at hne
    generalize zs.headD 0 = q at hne
    funext x
    rw [Function.update_apply]
    unfold severed
    by_cases hx : x ≠ 0 ∧ x = p
    · have hq : ¬ (x ≠ 0 ∧ x = q) := fun e => hne (e.2 ▸ e.1) (e.2.symm.trans hx.2)
      rw [if_pos hx, if_neg hq, if_neg hx.1, if_pos hx.2]
    · split_ifs <;> simp_all
  · intro h0
    dsimp only
    split_ifs
    · simpa using h.isSome_getLastD h0
    · exact h.isSome_getLastD h0

theorem unlink_eq {m : Memory} {l z : UInt64} {ys zs : List UInt64} {hd : ListHead}
    (h : WellFormed m l (ys ++ z :: zs)) (hl : m.lists l = some hd) :
    unlink m l z { prev := ys.getLastD 0, next := zs.headD 0, host := l } = some
      { lists := Function.update m.lists l (some { hd with
          count := hd.count - 1
          first := if ys = [] then zs.headD 0 else hd.first
          last := if zs = [] then ys.getLastD 0 else hd.last })
        elements := severed m.elements (ys.getLastD 0) z (zs.headD 0) } := by
  unfold unlink
  rw [sever_eq h, Option.bind_eq_bind, Option.bind_some, Memory.setList_of_some _ (by exact hl), Option.bind_some]
  have hc := h.count_pred_eq_zero_iff hl
  have hlast := h.last_eq_iff hl
  have hfirst := h.first_eq_iff hl
  simp only [Function.update_self, Option.bind_eq_bind, Option.bind_some]
  by_cases hys : ys = []
  · by_cases hzs : zs = []
    · rw [if_pos (hc.mpr ⟨hys, hzs⟩)]
      simp [hys, hzs, Memory.setList_of_some]
    · rw [if_neg (fun e => hzs (hc.mp e).2), if_neg (fun e => hzs (hlast.mp e)), if_pos (hfirst.mpr hys)]
      simp [hys, hzs, Memory.setList_of_some]
  · by_cases hzs : zs = []
    · rw [if_neg (fun e => hys (hc.mp e).1), if_pos (hlast.mpr hzs)]
      simp [hys, hzs, Memory.setList_of_some]
    · rw [if_neg (fun e => hys (hc.mp e).1), if_neg (fun e => hzs (hlast.mp e)), if_neg (fun e => hys (hfirst.mp e))]
      simp [hys, hzs]

theorem getListElement_payload (x : UInt64) : getListElement (payload x) = x := by
  unfold getListElement payload
  exact UInt64.add_sub_cancel _ _

/-- Of an element of the list a removal comes to the unlinking. -/
theorem removeTpl_eq {m m' : Memory} {l z : UInt64} {ys zs : List UInt64} (h : WellFormed m l (ys ++ z :: zs))
    (hunlink : unlink m l z { prev := ys.getLastD 0, next := zs.headD 0, host := l } = some m')
    (side : ListElement → UInt64) : removeTpl side m l (payload z) =
      some (m', payloadOrNull (side { prev := ys.getLastD 0, next := zs.headD 0, host := l })) := by
  unfold removeTpl
  simp only [h.nonNull, ↓reduceIte, getListElement_payload, h.element, Option.bind_eq_bind, Option.bind_some, ne_eq,
    not_true_eq_false, hunlink]

/-- A removal of an element of the list deletes it from the sequence. -/
theorem removeTpl_spec {m : Memory} {l z : UInt64} {ys zs : List UInt64} (h : WellFormed m l (ys ++ z :: zs)) :
    ∃ m', Changes m m' l (ys ++ z :: zs) (ys ++ zs) ∧ ∀ side, removeTpl side m l (payload z) =
      some (m', payloadOrNull (side { prev := ys.getLastD 0, next := zs.headD 0, host := l })) := by
  obtain ⟨hd, hl, _⟩ := h.head
  refine ⟨_, Changes.severed ys zs { hd with
    count := hd.count - 1
    first := if ys = [] then zs.headD 0 else hd.first
    last := if zs = [] then ys.getLastD 0 else hd.last } h hl rfl rfl rfl, ?_⟩
  exact removeTpl_eq h (unlink_eq h hl)

/-- What joining an element at the end changes, severing it changes back. -/
theorem severed_joined {elements : Store UInt64 ListElement} {l p n : UInt64} (hfree : elements n = none)
    (hp : p ≠ 0 → (elements p).map ListElement.next = some 0) : severed (joined elements l p n 0) p n 0 = elements := by
  funext x
  unfold severed joined
  by_cases hn : x = n
  · rw [if_pos hn, hn, hfree]
  · rw [if_neg hn, if_neg hn]
    by_cases h0 : x = 0
    · rw [if_pos h0, if_pos h0]
    · rw [if_neg h0, if_neg h0]
      by_cases hxp : x = p
      · subst hxp
        obtain ⟨e, he, hnext⟩ := Option.map_eq_some_iff.mp (hp h0)
        rw [if_pos rfl, if_pos rfl, he, Option.map_some, Option.map_some, ← hnext]
      · simp only [if_neg hxp, if_neg h0]

/-- Taking the element at the end out again leaves the memory as it was before. -/
theorem append_then_remove {m : Memory} {l : UInt64} {xs : List UInt64} {b : Block} (h : WellFormed m l xs)
    (hb : Fresh m b) : ∃ m', listAppend m l b = some (m', payload b.addr) ∧
      listRemoveElement m' l (payload b.addr) = some m := by
  obtain ⟨hd, hl, hfirst, hlast, _⟩ := h.head
  obtain ⟨m', e, hc⟩ := listAppend_spec h hb
  have hm' := e.symm.trans (listAppend_eq h hb hl)
  rw [Option.some.injEq, Prod.mk.injEq] at hm'
  obtain ⟨rfl, -⟩ := hm'
  refine ⟨_, e, ?_⟩
  have hafter := hc.after
  have helements : severed (joined m.elements l (xs.getLastD 0) b.addr 0) (xs.getLastD 0) b.addr 0 = m.elements := by
    refine severed_joined hb.free fun h0 => ?_
    rcases List.eq_nil_or_concat xs with rfl | ⟨init, z, rfl⟩
    · simp at h0
    · rw [List.concat_eq_append] at h ⊢
      rw [List.getLastD_concat, h.element]
      rfl
  have hlast0 : xs.getLastD 0 = hd.last := by rw [hlast.start_eq, headD_reverse]
  have hfirst0 : (if xs = [] then 0 else if xs = [] then b.addr else hd.first) = hd.first := by
    by_cases hxs : xs = []
    · rw [if_pos hxs, hfirst.start_eq, hxs, List.headD_nil]
    · rw [if_neg hxs, if_neg hxs]
  have hhead : ({ count := hd.count + 1 - 1, elementSize := hd.elementSize
                  first := if xs = [] then 0 else if xs = [] then b.addr else hd.first
                  last := xs.getLastD 0 } : ListHead) = hd := by
    rw [hfirst0, hlast0, UInt64.add_sub_cancel]
  have hunlink := unlink_eq hafter (Function.update_self l _ m.lists)
  simp only [List.headD_nil, if_true, helements, Function.update_idem, hhead, ← hl, Function.update_eq_self] at hunlink
  rw [listRemoveElement, removeTpl_eq hafter hunlink]
  rfl

theorem removeTpl_refused (side : ListElement → UInt64) {m : Memory} {l k z : UInt64} {xs : List UInt64}
    (h : WellFormed m k xs) (hz : z ∈ xs) (hk : k ≠ l) : removeTpl side m l (payload z) = some (m, 0) := by
  obtain ⟨e, he⟩ := Option.isSome_iff_exists.mp (h.isSome hz)
  have hh := h.host z hz
  simp only [Memory.host, he, Option.map_some, Option.some.injEq] at hh
  unfold removeTpl
  split_ifs
  · rfl
  · simp [getListElement_payload, he, hh, hk]

/-! ## Adding next to an element -/

/-- The test at the end of `list_add_after` stores what is there already. -/
theorem set_same_last {m : Memory} {l el : UInt64} {hd : ListHead} (hl : m.lists l = some hd) :
    (if el = hd.last then m.setList l fun h => { h with last := el } else some m) = some m := by
  split_ifs with e
  · subst e
    rw [Memory.setList_of_some _ hl, ← hl, Function.update_eq_self]
  · rfl

theorem set_same_first {m : Memory} {l el : UInt64} {hd : ListHead} (hl : m.lists l = some hd) :
    (if el = hd.first then m.setList l fun h => { h with first := el } else some m) = some m := by
  split_ifs with e
  · subst e
    rw [Memory.setList_of_some _ hl, ← hl, Function.update_eq_self]
  · rfl

section next_to
variable {m : Memory} {l z p q : UInt64} {b : Block} {hd : ListHead}

theorem joined_after {elements : Store UInt64 ListElement} {n : UInt64} (hz : z ≠ 0) (hne : z ≠ n) (hzq : z ≠ q)
    (hqn : q ≠ 0 → q ≠ n) (he : elements z = some { prev := p, next := q, host := l }) :
    (fun x => if x ≠ 0 ∧ x = q then
        (Function.update (Function.update elements n (some { prev := z, next := q, host := l })) z
          (some { prev := p, next := n, host := l }) x).map fun c => { c with prev := n }
      else Function.update (Function.update elements n (some { prev := z, next := q, host := l })) z
          (some { prev := p, next := n, host := l }) x) = joined elements l z n q := by
  funext x
  unfold joined
  simp only [Function.update_apply]
  by_cases hx : x = n
  · have hxq : ¬ (x ≠ 0 ∧ x = q) := by
      rintro ⟨h0, rfl⟩
      exact hqn h0 hx
    rw [if_neg hxq, if_pos hx, if_pos hx, if_neg (hx ▸ hne.symm)]
  · split_ifs <;> simp_all

theorem joined_before {elements : Store UInt64 ListElement} {n : UInt64} (hz : z ≠ 0) (hne : z ≠ n) (hzp : z ≠ p)
    (hpn : p ≠ 0 → p ≠ n) (he : elements z = some { prev := p, next := q, host := l }) :
    (fun x => if x ≠ 0 ∧ x = p then
        (Function.update (Function.update elements n (some { prev := p, next := z, host := l })) z
          (some { prev := n, next := q, host := l }) x).map fun c => { c with next := n }
      else Function.update (Function.update elements n (some { prev := p, next := z, host := l })) z
          (some { prev := n, next := q, host := l }) x) = joined elements l p n z := by
  funext x
  unfold joined
  simp only [Function.update_apply]
  by_cases hx : x = n
  · have hxp : ¬ (x ≠ 0 ∧ x = p) := by
      rintro ⟨h0, rfl⟩
      exact hpn h0 hx
    rw [if_neg hxp, if_pos hx, if_pos hx, if_neg (hx ▸ hne.symm)]
  · split_ifs <;> simp_all

/-- `list_add_after` joins the new element in, but never moves `last`. -/
theorem listAddAfter_of_element (hl0 : l ≠ 0) (hl : m.lists l = some hd) (hb : Fresh m b) (hz : z ≠ 0)
    (hpay : payload z ≠ 0) (he : m.elements z = some { prev := p, next := q, host := l }) (hzq : z ≠ q)
    (hq : q ≠ 0 → (m.elements q).isSome) :
    listAddAfter m l (payload z) b = some (
      { lists := Function.update m.lists l (some { hd with count := hd.count + 1 })
        elements := joined m.elements l z b.addr q }, payload b.addr) := by
  have hne : z ≠ b.addr := by
    rintro rfl
    simp [hb.free] at he
  have hqb : q ≠ 0 → q ≠ b.addr := by
    rintro h0 rfl
    simpa [hb.free] using hq h0
  unfold listAddAfter
  simp only [hl0, listAllocate_eq hb hl, ↓reduceIte, hpay, getListElement_payload, he, Option.bind_eq_bind,
    Option.bind_some, ne_eq, not_true_eq_false, hb.nonNull, Function.update_of_ne hne, Memory.setElement_update]
  rw [Memory.setElement_of_some _ (show Function.update _ _ _ z = _ from (Function.update_of_ne hne ..).trans he)]
  simp only [Option.bind_some, Function.update_of_ne hne.symm, Function.update_self]
  rw [setUnlessNull_eq]
  · simp only [Option.bind_some, hl]
    rw [set_same_last (by exact hl)]
    simp only [Option.bind_some]
    rw [Memory.setList_of_some _ (by exact hl), joined_after hz hne hzq hqb he]
    rfl
  · intro h0
    simpa [Function.update_of_ne (hqb h0), Function.update_of_ne hzq.symm] using hq h0

/-- `list_add_before` joins the new element in, but never moves `first`. -/
theorem listAddBefore_of_element (hl0 : l ≠ 0) (hl : m.lists l = some hd) (hb : Fresh m b) (hz : z ≠ 0)
    (hpay : payload z ≠ 0) (he : m.elements z = some { prev := p, next := q, host := l }) (hzp : z ≠ p)
    (hp : p ≠ 0 → (m.elements p).isSome) :
    listAddBefore m l (payload z) b = some (
      { lists := Function.update m.lists l (some { hd with count := hd.count + 1 })
        elements := joined m.elements l p b.addr z }, payload b.addr) := by
  have hne : z ≠ b.addr := by
    rintro rfl
    simp [hb.free] at he
  have hpb : p ≠ 0 → p ≠ b.addr := by
    rintro h0 rfl
    simpa [hb.free] using hp h0
  unfold listAddBefore
  simp only [hl0, listAllocate_eq hb hl, ↓reduceIte, hpay, getListElement_payload, he, Option.bind_eq_bind,
    Option.bind_some, ne_eq, not_true_eq_false, hb.nonNull, Function.update_of_ne hne, Memory.setElement_update]
  rw [Memory.setElement_of_some _ (show Function.update _ _ _ z = _ from (Function.update_of_ne hne ..).trans he)]
  simp only [Option.bind_some, Function.update_of_ne hne.symm, Function.update_self]
  rw [setUnlessNull_eq]
  · simp only [Option.bind_some, hl]
    rw [set_same_first (by exact hl)]
    simp only [Option.bind_some]
    rw [Memory.setList_of_some _ (by exact hl), joined_before hz hne hzp hpb he]
    rfl
  · intro h0
    simpa [Function.update_of_ne (hpb h0), Function.update_of_ne hzp.symm] using hp h0

end next_to

theorem WellFormed.ne_next {m : Memory} {l z : UInt64} {ys zs : List UInt64} (h : WellFormed m l (ys ++ z :: zs)) :
    z ≠ zs.headD 0 := by
  cases zs with
  | nil => exact h.ne_zero (by simp)
  | cons w rest =>
    rintro rfl
    exact (List.nodup_cons.mp (List.nodup_append.mp h.nodup).2.1).1 (by simp)

theorem WellFormed.ne_prev {m : Memory} {l z : UInt64} {ys zs : List UInt64} (h : WellFormed m l (ys ++ z :: zs)) :
    z ≠ ys.getLastD 0 := by
  intro e
  by_cases hys : ys = []
  · refine h.ne_zero (show z ∈ _ by simp) ?_
    rw [e, hys, List.getLastD_nil]
  · exact (List.nodup_append.mp h.nodup).2.2 _ (getLastD_mem hys) z List.mem_cons_self e.symm

theorem listAddAfter_eq {m : Memory} {l z : UInt64} {ys zs : List UInt64} {b : Block} {hd : ListHead}
    (h : WellFormed m l (ys ++ z :: zs)) (hb : Fresh m b) (hl : m.lists l = some hd) :
    listAddAfter m l (payload z) b = some (
      { lists := Function.update m.lists l (some { hd with count := hd.count + 1 })
        elements := joined m.elements l z b.addr (zs.headD 0) }, payload b.addr) := by
  have hz : z ∈ ys ++ z :: zs := by simp
  exact listAddAfter_of_element h.nonNull hl hb (h.ne_zero hz) (h.data z hz) h.element h.ne_next h.isSome_headD

theorem listAddBefore_eq {m : Memory} {l z : UInt64} {ys zs : List UInt64} {b : Block} {hd : ListHead}
    (h : WellFormed m l (ys ++ z :: zs)) (hb : Fresh m b) (hl : m.lists l = some hd) :
    listAddBefore m l (payload z) b = some (
      { lists := Function.update m.lists l (some { hd with count := hd.count + 1 })
        elements := joined m.elements l (ys.getLastD 0) b.addr z }, payload b.addr) := by
  have hz : z ∈ ys ++ z :: zs := by simp
  exact listAddBefore_of_element h.nonNull hl hb (h.ne_zero hz) (h.data z hz) h.element h.ne_prev h.isSome_getLastD

end Chats.LinkedList
