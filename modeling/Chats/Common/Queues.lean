import Chats.Common.LinkedListRuns

/-! # Queues and stacks

`common/queue.c` and `common/stack.c`: the same list, with the new elements at its end or at its
front. What is popped is the first element, and nobody asks whether there is one. -/
namespace Chats.Queues
set_option autoImplicit false

open Lib LinkedList

def sizeTpl (m : Memory) (q : UInt64) : Option UInt64 := if q ≠ 0 then listSize m q else some 0

def firstTpl (m : Memory) (q : UInt64) : Option UInt64 := if q ≠ 0 then listFirstElement m q else some 0

/-- `list_remove_element` of whatever `first` returns -/
def popTpl (first : Memory → UInt64 → Option UInt64) (m : Memory) (q : UInt64) : Option Memory :=
  if q ≠ 0 then do
    let el ← first m q
    listRemoveElement m q el
  else some m

/-! ## `queue.c` -/

def queueInit (m : Memory) (elementSize l : UInt64) : Memory × UInt64 := listInit m elementSize l

def queueSize (m : Memory) (q : UInt64) : Option UInt64 := sizeTpl m q

def queueFront (m : Memory) (q : UInt64) : Option UInt64 := firstTpl m q

def queuePop (m : Memory) (q : UInt64) : Option Memory := popTpl queueFront m q

def queuePush (m : Memory) (q : UInt64) (b : Block) : Option (Memory × UInt64) :=
  if q ≠ 0 then listAppend m q b else some (m, 0)

/-! ## `stack.c` -/

def stackInit (m : Memory) (elementSize l : UInt64) : Memory × UInt64 := listInit m elementSize l

def stackSize (m : Memory) (q : UInt64) : Option UInt64 := sizeTpl m q

def stackTop (m : Memory) (q : UInt64) : Option UInt64 := firstTpl m q

def stackPop (m : Memory) (q : UInt64) : Option Memory := popTpl stackTop m q

def stackPush (m : Memory) (q : UInt64) (b : Block) : Option (Memory × UInt64) :=
  if q ≠ 0 then listPrepend m q b else some (m, 0)

/-! ## Either of them -/

inductive Discipline
  | fifo
  | lifo

namespace Discipline

def init : Discipline → Memory → UInt64 → UInt64 → Memory × UInt64
  | fifo => queueInit
  | lifo => stackInit

def size : Discipline → Memory → UInt64 → Option UInt64
  | fifo => queueSize
  | lifo => stackSize

def first : Discipline → Memory → UInt64 → Option UInt64
  | fifo => queueFront
  | lifo => stackTop

def pop : Discipline → Memory → UInt64 → Option Memory
  | fifo => queuePop
  | lifo => stackPop

def push : Discipline → Memory → UInt64 → Block → Option (Memory × UInt64)
  | fifo => queuePush
  | lifo => stackPush

/-- Where a new element goes in the sequence of those that are stored, next to be popped first. -/
def add : Discipline → List UInt64 → UInt64 → List UInt64
  | fifo, xs, x => xs ++ [x]
  | lifo, xs, x => x :: xs

end Discipline

inductive Op
  | push (b : Block)
  | pop

/-- A call on the queue or stack at `q`. `none` is a crash, and nothing is called after it. -/
inductive Step (d : Discipline) (q : UInt64) : Option Memory → Op → Option Memory → Prop
  | push {m : Memory} {b : Block} (hb : Fresh m b) : Step d q (some m) (.push b) ((d.push m q b).map Prod.fst)
  | pop {m : Memory} : Step d q (some m) .pop (d.pop m q)

abbrev History := List (Option Memory × Op)

/-- The elements that were pushed and not popped. A pop of nothing leaves nothing. -/
def stored (d : Discipline) : History → List UInt64
  | [] => []
  | (_, .push b) :: h => d.add (stored d h) b.addr
  | (_, .pop) :: h => (stored d h).tail

/-- What a pop does when nothing is stored: nothing, whatever the elements are. -/
def Untouched (d : Discipline) (q : UInt64) (m : Memory) : Prop :=
  ∀ elements, d.pop { m with elements } q = some { m with elements }

/-- The size and the first element are those of the sequence, a push returns the new element, and a
pop when nothing is stored touches no element. -/
structure Behaves (d : Discipline) (q : UInt64) (h : History) (s : Option Memory) : Prop where
  sequence : ∃ m, s = some m ∧ (∃ n, d.size m q = some n ∧ n.toNat = (stored d h).length) ∧
    d.first m q = some (payloadOrNull ((stored d h).headD 0))
  pushed : ∀ m b earlier, h = (some m, .push b) :: earlier → (d.push m q b).map Prod.snd = some (payload b.addr)
  idle : ∀ m earlier, h = (some m, .pop) :: earlier → stored d earlier = [] → Untouched d q m

/-- Every pop of the history found something stored. -/
def PopsFind (d : Discipline) (h : History) : Prop :=
  ∀ later t earlier, h = later ++ (t, .pop) :: earlier → stored d earlier ≠ []

theorem popsFind_nil (d : Discipline) : PopsFind d [] := by
  intro later t earlier e
  cases later <;> cases e

theorem popsFind_cons {d : Discipline} {t : Option Memory} {op : Op} {h : History} :
    PopsFind d ((t, op) :: h) ↔ (op = .pop → stored d h ≠ []) ∧ PopsFind d h := by
  constructor
  · intro hall
    refine ⟨fun hop => hall [] t h (by rw [hop]; rfl), fun later t' earlier e => ?_⟩
    exact hall ((t, op) :: later) t' earlier (by rw [e]; rfl)
  · intro hall later t' earlier e
    cases later with
    | nil =>
      rw [List.nil_append, List.cons.injEq, Prod.mk.injEq] at e
      obtain ⟨⟨-, hop⟩, rfl⟩ := e
      exact hall.1 hop
    | cons x later =>
      rw [List.cons_append, List.cons.injEq] at e
      exact hall.2 later t' earlier e.2

/-! ## One call -/

section call
variable {d : Discipline} {m : Memory} {q x : UInt64} {xs : List UInt64} {b : Block}

theorem size_eq (h : WellFormed m q xs) : ∃ n, d.size m q = some n ∧ n.toNat = xs.length := by
  have hsize : d.size m q = listSize m q := by
    cases d <;> exact if_pos h.nonNull
  rw [hsize]
  exact h.size

theorem first_eq (h : WellFormed m q xs) : d.first m q = some (payloadOrNull (xs.headD 0)) := by
  have hfirst : d.first m q = listFirstElement m q := by
    cases d <;> exact if_pos h.nonNull
  rw [hfirst]
  exact h.ends.1

theorem pop_eq (hq : q ≠ 0) : d.pop m q = (listFirstElement m q).bind fun el => listRemoveElement m q el := by
  have hfirst : firstTpl m q = listFirstElement m q := if_pos hq
  rw [← hfirst]
  cases d <;> exact if_pos hq

theorem push_spec (h : WellFormed m q xs) (hb : Fresh m b) :
    ∃ m', d.push m q b = some (m', payload b.addr) ∧ WellFormed m' q (d.add xs b.addr) := by
  cases d with
  | fifo =>
    obtain ⟨m', e, h', -⟩ := h.append hb
    exact ⟨m', (if_pos h.nonNull).trans e, h'⟩
  | lifo =>
    obtain ⟨m', e, h', -⟩ := h.prepend hb
    exact ⟨m', (if_pos h.nonNull).trans e, h'⟩

theorem pop_spec (h : WellFormed m q (x :: xs)) : ∃ m', d.pop m q = some m' ∧ WellFormed m' q xs := by
  have hx : x ≠ 0 := h.ne_zero List.mem_cons_self
  obtain ⟨m', -, -, e, h', -⟩ := WellFormed.remove (show WellFormed m q ([] ++ x :: xs) from h)
  refine ⟨m', ?_, h'⟩
  rw [pop_eq h.nonNull, h.ends.1, List.headD_cons, payloadOrNull, if_neg hx]
  exact e

/-- The header in front of the null address is asked for the list that it belongs to. -/
theorem pop_empty (h : WellFormed m q []) (hnull : m.elements (getListElement 0) = none) : d.pop m q = none := by
  have hremove : listRemoveElement m q 0 = none := by
    unfold listRemoveElement removeTpl
    simp only [if_neg h.nonNull, hnull]
    rfl
  rw [pop_eq h.nonNull, h.ends.1]
  exact hremove

theorem not_untouched (h : WellFormed m q []) : ¬ Untouched d q m := by
  intro huntouched
  have hempty : WellFormed { m with elements := fun _ => none } q [] := h.congr rfl (by simp)
  have e := huntouched fun _ => none
  rw [pop_empty hempty rfl] at e
  cases e

end call

/-! ## Runs -/

section runs
variable {d : Discipline} {m₀ : Memory} {elementSize q : UInt64} {h : History} {s : Option Memory}

/-- The list has the stored elements as long as every pop found one. -/
theorem wellFormed_of_run (hq : q ≠ 0) (r : Run (Step d q) (some (d.init m₀ elementSize q).1) h s)
    (hpops : PopsFind d h) :
    ∃ m, s = some m ∧ WellFormed m q (stored d h) := by
  induction r with
  | start =>
    obtain ⟨m, e, hm, -⟩ := listInit_spec m₀ elementSize hq
    have hinit : d.init m₀ elementSize q = (m, q) := by
      cases d <;> exact e
    exact ⟨m, by rw [hinit], hm⟩
  | next r hs ih =>
    rw [popsFind_cons] at hpops
    obtain ⟨m, rfl, hm⟩ := ih hpops.2
    cases hs with
    | push hb =>
      obtain ⟨m', e, hm'⟩ := push_spec hm hb
      exact ⟨m', by rw [e]; rfl, hm'⟩
    | pop =>
      obtain ⟨x, xs, hstored⟩ := List.exists_cons_of_ne_nil (hpops.1 rfl)
      rw [hstored] at hm
      obtain ⟨m', e, hm'⟩ := pop_spec hm
      refine ⟨m', e, ?_⟩
      rw [stored, hstored]
      exact hm'

theorem Step.fresh {m : Memory} {b : Block} (hs : Step d q (some m) (.push b) s) : Fresh m b := by
  cases hs with
  | push hb => exact hb

theorem behaves_of_run (hq : q ≠ 0) (r : Run (Step d q) (some (d.init m₀ elementSize q).1) h s) (hpops : PopsFind d h) :
    Behaves d q h s := by
  obtain ⟨m, rfl, hm⟩ := wellFormed_of_run hq r hpops
  refine ⟨⟨m, rfl, size_eq hm, first_eq hm⟩, ?_, ?_⟩
  · rintro m b earlier rfl
    cases r with
    | next r hs =>
      obtain ⟨_, hbefore, hm⟩ := wellFormed_of_run hq r (popsFind_cons.mp hpops).2
      cases hbefore
      obtain ⟨m', e, -⟩ := push_spec hm hs.fresh
      rw [e]
      rfl
  · rintro m earlier rfl hnone
    exact absurd hnone ((popsFind_cons.mp hpops).1 rfl)

/-- A queue is first in, first out and a stack last in, first out at every moment of a run exactly
when no pop came while nothing was stored. -/
theorem in_order_iff (d : Discipline) (m₀ : Memory) (elementSize q : UInt64) (hq : q ≠ 0) (h : History)
    (s : Option Memory) (r : Run (Step d q) (some (d.init m₀ elementSize q).1) h s) :
    (∀ x ∈ moments h s, Behaves d q x.1 x.2) ↔ PopsFind d h := by
  induction r with
  | start =>
    refine iff_of_true ?_ (popsFind_nil d)
    intro x hx
    rw [moments, List.mem_singleton] at hx
    rw [hx]
    exact behaves_of_run hq .start (popsFind_nil d)
  | @next h s s' op r hs ih =>
    rw [moments, List.forall_mem_cons, ih]
    constructor
    · intro hall
      obtain ⟨hnow, hpops⟩ := hall
      refine popsFind_cons.mpr ⟨?_, hpops⟩
      rintro rfl hnone
      obtain ⟨m, rfl, hm⟩ := wellFormed_of_run hq r hpops
      rw [hnone] at hm
      exact not_untouched hm (hnow.idle m h rfl hnone)
    · intro hpops
      exact ⟨behaves_of_run hq (.next r hs) hpops, (popsFind_cons.mp hpops).2⟩

end runs

def emptyQueue : Memory := (queueInit start 4 8).1

/-- Two elements are pushed, and popped in the order in which they came. -/
theorem in_order_pushed_popped : ∃ h s, Run (Step .fifo 8) (some emptyQueue) h s ∧
    h.map Prod.snd = [.pop, .pop, .push ⟨128, 0, 0, 0⟩, .push ⟨64, 0, 0, 0⟩] ∧
      stored .fifo (h.drop 2) = [64, 128] ∧ ∀ x ∈ moments h s, Behaves .fifo 8 x.1 x.2 := by
  have r₁ : Run (Step .fifo 8) (some emptyQueue) _ _ := .next .start
    (show Step .fifo 8 _ (.push ⟨64, 0, 0, 0⟩) _ from .push ⟨by decide, by decide, rfl⟩)
  have r₂ := r₁.next (show Step .fifo 8 (some _) (.push ⟨128, 0, 0, 0⟩) _ from .push ⟨by decide, by decide, rfl⟩)
  have r₃ := r₂.next (show Step .fifo 8 (some _) .pop _ from .pop)
  have r₄ := r₃.next (show Step .fifo 8 (some _) .pop _ from .pop)
  refine ⟨_, _, r₄, rfl, rfl, (in_order_iff .fifo start 4 8 (by decide) _ _ r₄).mpr ?_⟩
  refine popsFind_cons.mpr ⟨fun _ => ?_, popsFind_cons.mpr ⟨fun _ => ?_, popsFind_cons.mpr ⟨fun hop => ?_,
    popsFind_cons.mpr ⟨fun hop => ?_, popsFind_nil _⟩⟩⟩⟩
  · exact List.cons_ne_nil _ _
  · exact List.cons_ne_nil _ _
  · cases hop
  · cases hop

/-- The first call on a new queue is a pop. -/
theorem pop_of_empty_queue : Run (Step .fifo 8) (some emptyQueue) [(some emptyQueue, .pop)] none ∧
    ¬ Behaves .fifo 8 [(some emptyQueue, .pop)] none := by
  refine ⟨.next .start .pop, ?_⟩
  intro hbehaves
  obtain ⟨⟨m, e, -⟩, -, -⟩ := hbehaves
  cases e

end Chats.Queues
