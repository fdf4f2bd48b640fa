import Chats.Lib.Store

/-! # The doubly linked list

`common/list.c` on the blocks it allocates. A list element is the header `struct list_element`
in front of the user's data, and the functions of the interface pass the address of the data.
`none` is the access to a block that is not allocated. -/
namespace Chats.LinkedList
set_option autoImplicit false

open Lib

structure ListElement where
  prev : UInt64
  next : UInt64
  host : UInt64
deriving DecidableEq

/-- `struct list` -/
structure ListHead where
  count : UInt64
  elementSize : UInt64
  first : UInt64
  last : UInt64
deriving DecidableEq

structure Memory where
  lists : Store UInt64 ListHead
  elements : Store UInt64 ListElement

namespace Memory

def setList (m : Memory) (l : UInt64) (f : ListHead → ListHead) : Option Memory :=
  (m.lists.modify l f).map fun lists => { m with lists }

def setElement (m : Memory) (le : UInt64) (f : ListElement → ListElement) : Option Memory :=
  (m.elements.modify le f).map fun elements => { m with elements }

/-- An assignment under `if (le)` -/
def setUnlessNull (m : Memory) (le : UInt64) (f : ListElement → ListElement) : Option Memory :=
  if le ≠ 0 then m.setElement le f else some m

def deallocate (m : Memory) (le : UInt64) : Memory :=
  { m with elements := Function.update m.elements le none }

end Memory

def sizeofListElement : UInt64 := 24

/-- `(void *)(le + 1)` -/
def payload (le : UInt64) : UInt64 := le + sizeofListElement

def getListElement (d : UInt64) : UInt64 := d - sizeofListElement

/-- `le ? le + 1 : NULL` -/
def payloadOrNull (le : UInt64) : UInt64 := if le = 0 then 0 else payload le

/-- What `allocate` answers: an address, `0` on failure, and whatever the block holds. -/
structure Block where
  addr : UInt64
  content : ListElement

/-! ## Allocation -/

def listAllocate (m : Memory) (l : UInt64) (b : Block) : Option (Memory × UInt64) := do
  let _ ← m.lists l
  -- `le->host = l` comes before any test of `le`
  if b.addr = 0 then none
  else
    let cell : ListElement := { b.content with host := l }
    some ({ m with elements := Function.update m.elements b.addr (some cell) }, b.addr)

def listInit (m : Memory) (elementSize l : UInt64) : Memory × UInt64 :=
  if l = 0 then (m, 0)
  else
    let head : ListHead := { count := 0, elementSize, first := 0, last := 0 }
    ({ m with lists := Function.update m.lists l (some head) }, l)

/-- `list_size`; of the null list it returns nothing. -/
def listSize (m : Memory) (l : UInt64) : Option UInt64 :=
  if l = 0 then none else (m.lists l).map ListHead.count

/-! ## Adding at the ends -/

def listAppend (m : Memory) (l : UInt64) (b : Block) : Option (Memory × UInt64) :=
  if l = 0 then some (m, 0)
  else do
    let (m, le) ← listAllocate m l b
    if le = 0 then some (m, 0)
    else do
      let p := payload le
      let m ← m.setElement le fun e => { e with next := 0 }
      let m ← m.setList l fun h => { h with count := h.count + 1 }
      let h ← m.lists l
      if h.count = 1 then do
        let m ← m.setElement le fun e => { e with prev := 0 }
        let m ← m.setList l fun h => { h with first := le, last := le }
        some (m, p)
      else do
        let m ← m.setElement le fun e => { e with prev := h.last }
        let m ← m.setElement h.last fun e => { e with next := le }
        let m ← m.setList l fun h => { h with last := le }
        some (m, p)

def listPrepend (m : Memory) (l : UInt64) (b : Block) : Option (Memory × UInt64) :=
  if l = 0 then some (m, 0)
  else do
    let (m, le) ← listAllocate m l b
    if le = 0 then some (m, 0)
    else do
      let p := payload le
      let m ← m.setElement le fun e => { e with prev := 0 }
      let m ← m.setList l fun h => { h with count := h.count + 1 }
      let h ← m.lists l
      if h.count = 1 then do
        let m ← m.setElement le fun e => { e with next := 0 }
        let m ← m.setList l fun h => { h with first := le, last := le }
        some (m, p)
      else do
        let m ← m.setElement le fun e => { e with next := h.first }
        let m ← m.setElement h.first fun e => { e with prev := le }
        let m ← m.setList l fun h => { h with first := le }
        some (m, p)

/-! ## Adding next to an element -/

def listAddAfter (m : Memory) (l el : UInt64) (b : Block) : Option (Memory × UInt64) :=
  if l = 0 then some (m, 0)
  else if el = 0 then listAppend m l b
  else do
    let leEl := getListElement el
    let e ← m.elements leEl
    if e.host ≠ l then some (m, 0)
    else do
      let (m, le) ← listAllocate m l b
      if le = 0 then some (m, 0)
      else do
        let p := payload le
        let e ← m.elements leEl
        let m ← m.setElement le fun c => { c with next := e.next }
        let m ← m.setElement le fun c => { c with prev := leEl }
        let m ← m.setElement leEl fun c => { c with next := le }
        let c ← m.elements le
        let m ← m.setUnlessNull c.next fun c => { c with prev := le }
        -- `if (el == l->last) l->last = el`: the data's address against an element's
        let h ← m.lists l
        let m ← (if el = h.last then m.setList l fun h => { h with last := el } else some m)
        let m ← m.setList l fun h => { h with count := h.count + 1 }
        some (m, p)

def listAddBefore (m : Memory) (l el : UInt64) (b : Block) : Option (Memory × UInt64) :=
  if l = 0 then some (m, 0)
  else if el = 0 then listAppend m l b
  else do
    let leEl := getListElement el
    let e ← m.elements leEl
    if e.host ≠ l then some (m, 0)
    else do
      let (m, le) ← listAllocate m l b
      if le = 0 then some (m, 0)
      else do
        let p := payload le
        let e ← m.elements leEl
        let m ← m.setElement le fun c => { c with prev := e.prev }
        let m ← m.setElement le fun c => { c with next := leEl }
        let m ← m.setElement leEl fun c => { c with prev := le }
        let c ← m.elements le
        let m ← m.setUnlessNull c.prev fun c => { c with next := le }
        let h ← m.lists l
        let m ← (if el = h.first then m.setList l fun h => { h with first := el } else some m)
        let m ← m.setList l fun h => { h with count := h.count + 1 }
        some (m, p)

/-! ## Removal -/

/-- The neighbours are joined and the block goes. -/
def sever (m : Memory) (leEl : UInt64) (e : ListElement) : Option Memory := do
  let m ← m.setUnlessNull e.next fun c => { c with prev := e.prev }
  let m ← m.setUnlessNull e.prev fun c => { c with next := e.next }
  some (m.deallocate leEl)

/-- What the three removals do to an element of the list. -/
def unlink (m : Memory) (l leEl : UInt64) (e : ListElement) : Option Memory := do
  let m ← sever m leEl e
  let m ← m.setList l fun h => { h with count := h.count - 1 }
  let h ← m.lists l
  if h.count = 0 then m.setList l fun h => { h with first := 0, last := 0 }
  else if leEl = h.last then m.setList l fun h => { h with last := e.prev }
  else if leEl = h.first then m.setList l fun h => { h with first := e.next }
  else some m

/-- A removal, which returns the data of the neighbour that `side` names. -/
def removeTpl (side : ListElement → UInt64) (m : Memory) (l el : UInt64) : Option (Memory × UInt64) :=
  if l = 0 then some (m, 0)
  else do
    let leEl := getListElement el
    let e ← m.elements leEl
    if e.host ≠ l then some (m, 0)
    else do
      let m ← unlink m l leEl e
      some (m, payloadOrNull (side e))

def listRemoveNext (m : Memory) (l el : UInt64) : Option (Memory × UInt64) :=
  removeTpl ListElement.next m l el

def listRemovePrev (m : Memory) (l el : UInt64) : Option (Memory × UInt64) :=
  removeTpl ListElement.prev m l el

def listRemoveElement (m : Memory) (l el : UInt64) : Option Memory :=
  (removeTpl (fun _ => 0) m l el).map Prod.fst

/-! ## Release -/

/-- The loop of `list_deinit`; no list is longer than the first argument. -/
def deallocateFrom : ℕ → Memory → UInt64 → Option Memory
  | 0, _, _ => none
  | n + 1, m, el =>
    if el = 0 then some m
    else do
      let e ← m.elements el
      deallocateFrom n (m.deallocate el) e.next

def listDeinit (m : Memory) (l : UInt64) : Option Memory :=
  if l = 0 then some m
  else do
    let h ← m.lists l
    let m ← deallocateFrom (2 ^ 64) m h.first
    some { m with lists := Function.update m.lists l none }

/-! ## Iteration -/

def listFirstElement (m : Memory) (l : UInt64) : Option UInt64 :=
  (m.lists l).map fun h => payloadOrNull h.first

def listLastElement (m : Memory) (l : UInt64) : Option UInt64 :=
  (m.lists l).map fun h => payloadOrNull h.last

def listNextElement (m : Memory) (el : UInt64) : Option UInt64 :=
  if el = 0 then some 0 else (m.elements (getListElement el)).map fun e => payloadOrNull e.next

def listPrevElement (m : Memory) (el : UInt64) : Option UInt64 :=
  if el = 0 then some 0 else (m.elements (getListElement el)).map fun e => payloadOrNull e.prev

end Chats.LinkedList
