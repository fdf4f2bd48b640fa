import Chats.Common.AvlTree
import Chats.Lib.Tree

/-! # The AVL operations on trees of cells

The same operations as in `Chats.Common.AvlTree`, on the inductive tree that the nodes of a
store form. A cell keeps the address of its node, so node identity is visible here too; the
child pointers are the shape itself. -/
namespace Chats.Avl
set_option autoImplicit false

open Lib BinaryTree

/-- A node without its child pointers, together with its address. -/
structure Cell where
  addr : UInt64
  host : UInt64
  parent : Option UInt64
  height : UInt8
  key : ℤ
  data : UInt64
deriving DecidableEq

/-- What a caller of the tree can tell about a node: its identity, key and data. -/
structure Entry where
  addr : UInt64
  key : ℤ
  data : UInt64
deriving DecidableEq

def Cell.entry (c : Cell) : Entry := ⟨c.addr, c.key, c.data⟩

abbrev Shape := BinaryTree Cell

namespace Shape

def root (t : Shape) : UInt64 := rootPtr Cell.addr t

def entries (t : Shape) : List Entry := (inorder t).map Cell.entry

def addrs (t : Shape) : List UInt64 := (entries t).map Entry.addr

def stored : Shape → UInt8
  | nil => 0
  | node c _ _ => c.height

def factor (l r : Shape) : ℤ := ((stored r).toNat : ℤ) - ((stored l).toNat : ℤ)

def rootFactor : Shape → ℤ
  | nil => 0
  | node _ l r => factor l r

def fixHeight (c : Cell) (l r : Shape) : Cell :=
  { c with height := (if stored l > stored r then stored l else stored r) + 1 }

def setParent (p : Option UInt64) : Shape → Shape
  | nil => nil
  | node c l r => node { c with parent := p } l r

def rotateRight : Shape → Shape
  | node p (node q a b) c =>
    let b := setParent (some p.addr) b
    let right := node (fixHeight { p with parent := some q.addr } b c) b c
    node (fixHeight { q with parent := p.parent } a right) a right
  | t => t

def rotateLeft : Shape → Shape
  | node q a (node p b c) =>
    let b := setParent (some q.addr) b
    let left := node (fixHeight { q with parent := some p.addr } a b) a b
    node (fixHeight { p with parent := none } left c) left c
  | t => t

def balance : Shape → Shape
  | nil => nil
  | node p l r =>
    let p := fixHeight p l r
    if factor l r = 2 then rotateLeft (node p l (if rootFactor r < 0 then rotateRight r else r))
    else if factor l r = -2 then rotateRight (node p (if rootFactor l > 0 then rotateLeft l else l) r)
    else node p l r

def insert (key : ℤ) (data host n : UInt64) : Shape → Shape
  | nil => node ⟨n, host, some 0, 1, key, data⟩ nil nil
  | node c l r =>
    if key < c.key then balance (node c (insert key data host n l) r)
    else balance (node c l (insert key data host n r))

/-- The leftmost cell, `c` being the root of the subtree whose left child is given. -/
def minCell (c : Cell) : Shape → Cell
  | nil => c
  | node d l _ => minCell d l

def removeMin (c : Cell) (r : Shape) : Shape → Shape
  | nil => r
  | node d l' r' => balance (node c (removeMin d r' l') r)

/-- What takes the place of a removed root: its right neighbour in the in-order sequence,
or the left subtree when there is none. -/
def splice (parent : Option UInt64) (l : Shape) : Shape → Shape
  | nil => setParent parent l
  | node d l' r' =>
    let min := minCell d l'
    balance (node { min with parent := parent } (setParent (some min.addr) l)
      (setParent (some min.addr) (removeMin d r' l')))

def remove (key : ℤ) : Shape → Shape
  | nil => nil
  | node c l r =>
    if key < c.key then balance (node c (remove key l) r)
    else if key > c.key then balance (node c l (remove key r))
    else splice c.parent l r

def find (key : ℤ) : Shape → Option Cell
  | nil => none
  | node c l r => if key < c.key then find key l else if key > c.key then find key r else some c

/-! ## The sequence behind a shape -/

@[simp] theorem entries_nil : entries nil = [] := rfl

@[simp] theorem entries_node (c : Cell) (l r : Shape) :
    entries (node c l r) = entries l ++ c.entry :: entries r := by
  simp [entries]

@[simp] theorem addrs_nil : addrs nil = [] := rfl

@[simp] theorem addrs_node (c : Cell) (l r : Shape) :
    addrs (node c l r) = addrs l ++ c.addr :: addrs r := by
  simp [addrs, Cell.entry]

theorem mem_addrs_node {c : Cell} {l r : Shape} {x : UInt64} :
    x ∈ addrs (node c l r) ↔ x ∈ addrs l ∨ x = c.addr ∨ x ∈ addrs r := by
  rw [addrs_node, List.mem_append, List.mem_cons]

theorem map_addr (t : Shape) : (inorder t).map Cell.addr = addrs t := by
  simp [addrs, entries, Cell.entry]

theorem addrs_length (t : Shape) : (addrs t).length = t.numNodes := by
  simp [addrs, entries, inorder_length]

@[simp] theorem entry_fixHeight (c : Cell) (l r : Shape) : (fixHeight c l r).entry = c.entry := rfl

@[simp] theorem addr_fixHeight (c : Cell) (l r : Shape) : (fixHeight c l r).addr = c.addr := rfl

@[simp] theorem entry_parent (c : Cell) (p : Option UInt64) : ({ c with parent := p } : Cell).entry = c.entry :=
  rfl

@[simp] theorem entries_setParent (p : Option UInt64) (t : Shape) : entries (setParent p t) = entries t := by
  cases t <;> simp [setParent]

@[simp] theorem root_setParent (p : Option UInt64) (t : Shape) : root (setParent p t) = root t := by
  cases t <;> rfl

@[simp] theorem addrs_setParent (p : Option UInt64) (t : Shape) : addrs (setParent p t) = addrs t := by
  simp [addrs]

@[simp] theorem entries_rotateRight (t : Shape) : entries (rotateRight t) = entries t := by
  cases t with
  | nil => rfl
  | node p l c =>
    cases l with
    | nil => rfl
    | node q a b => simp [rotateRight]

@[simp] theorem entries_rotateLeft (t : Shape) : entries (rotateLeft t) = entries t := by
  cases t with
  | nil => rfl
  | node q a r =>
    cases r with
    | nil => rfl
    | node p b c => simp [rotateLeft]

/-- Balancing never changes the sequence, whatever the stored heights are. -/
@[simp] theorem entries_balance (t : Shape) : entries (balance t) = entries t := by
  cases t with
  | nil => rfl
  | node p l r =>
    simp only [balance]
    split
    · split <;> simp
    · split
      · split <;> simp
      · simp

@[simp] theorem addrs_rotateRight (t : Shape) : addrs (rotateRight t) = addrs t := by simp [addrs]

@[simp] theorem addrs_rotateLeft (t : Shape) : addrs (rotateLeft t) = addrs t := by simp [addrs]

@[simp] theorem addrs_balance (t : Shape) : addrs (balance t) = addrs t := by simp [addrs]

/-! ## The order of the sequence -/

/-- The keys are in non-decreasing order from left to right. -/
def Sorted (t : Shape) : Prop := (entries t).Pairwise fun a b => a.key ≤ b.key

theorem sorted_node {c : Cell} {l r : Shape} (h : Sorted (node c l r)) :
    Sorted l ∧ Sorted r ∧ (∀ a ∈ entries l, a.key ≤ c.key) ∧ (∀ b ∈ entries r, c.key ≤ b.key) := by
  simp only [Sorted, entries_node, List.pairwise_append, List.pairwise_cons] at h
  obtain ⟨hl, ⟨hc, hr⟩, hcross⟩ := h
  exact ⟨hl, hr, fun a ha => hcross a ha c.entry List.mem_cons_self, hc⟩

/-- Insertion puts the new entry right behind the entries whose key is at most `key`. -/
theorem entries_insert (key : ℤ) (data host n : UInt64) (t : Shape) (ht : Sorted t) :
    ∃ pre post, entries t = pre ++ post ∧ (∀ a ∈ pre, a.key ≤ key) ∧ (∀ b ∈ post, key < b.key) ∧
      entries (insert key data host n t) = pre ++ ⟨n, key, data⟩ :: post := by
  induction t with
  | nil => exact ⟨[], [], rfl, by simp, by simp, rfl⟩
  | node c l r ihl ihr =>
    obtain ⟨sl, sr, hl, hr⟩ := sorted_node ht
    by_cases hk : key < c.key
    · obtain ⟨pre, post, he, hpre, hpost, hins⟩ := ihl sl
      refine ⟨pre, post ++ c.entry :: entries r, by simp [he], hpre, ?_, ?_⟩
      · intro b hb
        rcases List.mem_append.mp hb with hb | hb
        · exact hpost b hb
        · rcases List.mem_cons.mp hb with rfl | hb
          · exact hk
          · exact hk.trans_le (hr b hb)
      · simp [insert, hk, hins]
    · obtain ⟨pre, post, he, hpre, hpost, hins⟩ := ihr sr
      refine ⟨entries l ++ c.entry :: pre, post, by simp [he], ?_, hpost, ?_⟩
      · intro a ha
        rcases List.mem_append.mp ha with ha | ha
        · exact (hl a ha).trans (not_lt.mp hk)
        · rcases List.mem_cons.mp ha with rfl | ha
          · exact not_lt.mp hk
          · exact hpre a ha
      · simp [insert, hk, hins]

theorem sorted_insert (key : ℤ) (data host n : UInt64) {t : Shape} (ht : Sorted t) :
    Sorted (insert key data host n t) := by
  obtain ⟨pre, post, he, hpre, hpost, hins⟩ := entries_insert key data host n t ht
  rw [Sorted, he, List.pairwise_append] at ht
  obtain ⟨h1, h2, hcross⟩ := ht
  rw [Sorted, hins, List.pairwise_append, List.pairwise_cons]
  refine ⟨h1, ⟨fun b hb => (hpost b hb).le, h2⟩, ?_⟩
  intro a ha b hb
  rcases List.mem_cons.mp hb with rfl | hb
  · exact hpre a ha
  · exact hcross a ha b hb

theorem entries_insert_perm (key : ℤ) (data host n : UInt64) (t : Shape) :
    (entries (insert key data host n t)).Perm (⟨n, key, data⟩ :: entries t) := by
  induction t with
  | nil => simp [insert, Cell.entry]
  | node c l r ihl ihr =>
    simp only [insert]
    split
    · simp only [entries_balance, entries_node]
      exact ihl.append_right _
    · simp only [entries_balance, entries_node]
      refine ((ihr.cons c.entry).append_left (entries l)).trans ?_
      rw [show entries l ++ c.entry :: ⟨n, key, data⟩ :: entries r =
        (entries l ++ [c.entry]) ++ ⟨n, key, data⟩ :: entries r by simp]
      refine List.perm_middle.trans ?_
      simp

theorem entries_removeMin (c : Cell) (l r : Shape) :
    entries (node c l r) = (minCell c l).entry :: entries (removeMin c r l) := by
  induction l generalizing c r with
  | nil => simp [minCell, removeMin]
  | node d l' r' ih _ =>
    rw [entries_node, ih d r', minCell, removeMin, entries_balance, entries_node]
    simp

theorem entries_splice (parent : Option UInt64) (l r : Shape) :
    entries (splice parent l r) = entries l ++ entries r := by
  cases r with
  | nil => simp [splice]
  | node d l' r' =>
    rw [entries_removeMin]
    simp [splice]

/-- Removal deletes exactly the entry that `find` meets. -/
theorem entries_remove (key : ℤ) (t : Shape) :
    (find key t = none ∧ entries (remove key t) = entries t) ∨
    ∃ c pre post, find key t = some c ∧ entries t = pre ++ c.entry :: post ∧
      entries (remove key t) = pre ++ post := by
  induction t with
  | nil => exact .inl ⟨rfl, rfl⟩
  | node c l r ihl ihr =>
    by_cases h1 : key < c.key
    · rcases ihl with ⟨hf, he⟩ | ⟨d, pre, post, hf, he, hr⟩
      · exact .inl ⟨by simp [find, h1, hf], by simp [remove, h1, he]⟩
      · exact .inr ⟨d, pre, post ++ c.entry :: entries r, by simp [find, h1, hf], by simp [he],
          by simp [remove, h1, hr]⟩
    · by_cases h2 : c.key < key
      · rcases ihr with ⟨hf, he⟩ | ⟨d, pre, post, hf, he, hr⟩
        · exact .inl ⟨by simp [find, h1, h2, hf], by simp [remove, h1, h2, he]⟩
        · exact .inr ⟨d, entries l ++ c.entry :: pre, post, by simp [find, h1, h2, hf], by simp [he],
            by simp [remove, h1, h2, hr]⟩
      · exact .inr ⟨c, entries l, entries r, by simp [find, h1, h2], by simp,
          by simp [remove, h1, h2, entries_splice]⟩

theorem entries_remove_sublist (key : ℤ) (t : Shape) :
    (entries (remove key t)).Sublist (entries t) := by
  rcases entries_remove key t with ⟨_, he⟩ | ⟨c, pre, post, _, he, hr⟩
  · rw [he]
  · rw [he, hr]
    exact (List.Sublist.refl pre).append (List.sublist_cons_self _ _)

theorem sorted_remove (key : ℤ) {t : Shape} (ht : Sorted t) : Sorted (remove key t) :=
  List.Pairwise.sublist (entries_remove_sublist key t) ht

/-! ## Lookup -/

theorem find_mem {key : ℤ} {t : Shape} {c : Cell} (h : find key t = some c) :
    c.entry ∈ entries t ∧ c.key = key := by
  induction t with
  | nil => simp [find] at h
  | node d l r ihl ihr =>
    simp only [find] at h
    split_ifs at h with h1 h2
    · obtain ⟨hm, hk⟩ := ihl h
      exact ⟨by simp [hm], hk⟩
    · obtain ⟨hm, hk⟩ := ihr h
      exact ⟨by simp [hm], hk⟩
    · rw [Option.some.injEq] at h
      subst h
      exact ⟨by simp, by omega⟩

/-- In a sorted tree the search misses no key. -/
theorem find_none {key : ℤ} {t : Shape} (ht : Sorted t) (h : find key t = none) :
    ∀ e ∈ entries t, e.key ≠ key := by
  induction t with
  | nil => simp
  | node c l r ihl ihr =>
    obtain ⟨sl, sr, hl, hr⟩ := sorted_node ht
    simp only [find] at h
    intro e he
    rw [entries_node, List.mem_append, List.mem_cons] at he
    split_ifs at h with h1 h2
    · rcases he with he | rfl | he
      · exact ihl sl h e he
      · exact h1.ne'
      · have := hr e he
        omega
    · rcases he with he | rfl | he
      · have := hl e he
        omega
      · exact (ne_of_lt h2)
      · exact ihr sr h e he

end Shape

end Chats.Avl
