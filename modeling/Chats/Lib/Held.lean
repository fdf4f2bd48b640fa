import Mathlib.Tactic

/-! Objects behind a recursive mutex, as the thread sees them that holds it: the mutex counts how
often the thread has locked it and not unlocked. Code that takes the mutex is to give back as many
locks as it took, also when it calls back on the way; `none` is code that does not return. -/
namespace Chats.Lib
set_option autoImplicit false

variable {α ι ρ : Type}

structure Held (α : Type) where
  depth : ℕ
  obj : α

/-- Code of others, called with the mutex held, that leaves the mutex as it found it. -/
structure Callback (α ι ρ : Type) where
  run : ι → Held α → Option (Held α × ρ)
  balanced : ∀ i s s' r, run i s = some (s', r) → s'.depth = s.depth

def Callback.quiet (answer : ρ) : Callback α ι ρ where
  run := fun _ s => some (s, answer)
  balanced := by
    intro i s s' r h
    cases h
    rfl

namespace Held

def lock (s : Held α) : Held α := { s with depth := s.depth + 1 }

/-- A thread that does not hold the mutex is told so, and nothing changes. -/
def unlock (s : Held α) : Held α := { s with depth := s.depth - 1 }

def update (s : Held α) (f : α → α) : Held α := { s with obj := f s.obj }

@[simp] theorem depth_lock (s : Held α) : s.lock.depth = s.depth + 1 := rfl
@[simp] theorem obj_lock (s : Held α) : s.lock.obj = s.obj := rfl
@[simp] theorem depth_unlock (s : Held α) : s.unlock.depth = s.depth - 1 := rfl
@[simp] theorem obj_unlock (s : Held α) : s.unlock.obj = s.obj := rfl
@[simp] theorem depth_update (s : Held α) (f : α → α) : (s.update f).depth = s.depth := rfl
@[simp] theorem obj_update (s : Held α) (f : α → α) : (s.update f).obj = f s.obj := rfl

/-- Wherever the code comes back, the thread holds `k` locks more than it held in `s`. -/
def Raises (s : Held α) (k : ℕ) (r : Option (Held α)) : Prop := ∀ s', r = some s' → s'.depth = s.depth + k

variable {s s' : Held α} {k : ℕ} {r : Option (Held α)}

theorem raises_none : Raises s k none := nofun

theorem raises_some (h : s'.depth = s.depth + k) : Raises s k (some s') := by
  intro t ht
  rw [← Option.some.inj ht, h]

theorem Raises.of_depth {t : Held α} (h : Raises t k r) (ht : t.depth = s.depth) : Raises s k r := by
  intro s' hs'
  rw [h s' hs', ht]

/-- Code that raises nothing, between a lock and an unlock. -/
theorem Raises.bracket (h : Raises s.lock 0 r) : Raises s 0 (r.map unlock) := by
  intro s' hs'
  obtain ⟨t, ht, rfl⟩ := Option.map_eq_some_iff.mp hs'
  rw [depth_unlock, h t ht, depth_lock]
  rfl

theorem Raises.leak (h : Raises s.lock k r) : Raises s (k + 1) r := by
  intro s' hs'
  rw [h s' hs', depth_lock]
  omega

theorem Raises.depth_eq_iff (h : Raises s k (some s')) : s'.depth = s.depth ↔ k = 0 := by
  rw [h s' rfl]
  omega

/-- A change of the object that may not come about. -/
def change (s : Held α) (f : α → Option α) : Option (Held α) := (f s.obj).map fun obj => { s with obj }

theorem raises_change (s : Held α) (f : α → Option α) : Raises s 0 (s.change f) := by
  intro s' hs'
  obtain ⟨obj, -, rfl⟩ := Option.map_eq_some_iff.mp hs'
  rfl

/-- Calls back and goes on with what the callback has made of the object. -/
def callBack (s : Held α) (cb : Callback α ι ρ) (i : ι) : Option (Held α) := (cb.run i s).map Prod.fst

theorem raises_callBack (s : Held α) (cb : Callback α ι ρ) (i : ι) : Raises s 0 (s.callBack cb i) := by
  intro s' hs'
  obtain ⟨⟨t, r⟩, hrun, rfl⟩ := Option.map_eq_some_iff.mp hs'
  exact cb.balanced i s t r hrun

/-- The call of a function that may be null, without a test. -/
def callBackUntested (s : Held α) (cb : Option (Callback α ι ρ)) (i : ι) : Option (Held α) :=
  cb.bind fun cb => s.callBack cb i

theorem raises_callBackUntested (s : Held α) (cb : Option (Callback α ι ρ)) (i : ι) :
    Raises s 0 (s.callBackUntested cb i) := by
  cases cb with
  | none => exact raises_none
  | some cb => exact raises_callBack s cb i

/-- `if (cb) (*cb)(..)` -/
def callBackIfSet (s : Held α) (cb : Option (Callback α ι ρ)) (i : ι) : Option (Held α) :=
  match cb with
  | none => some s
  | some cb => s.callBack cb i

theorem raises_callBackIfSet (s : Held α) (cb : Option (Callback α ι ρ)) (i : ι) :
    Raises s 0 (s.callBackIfSet cb i) := by
  cases cb with
  | none => exact raises_some rfl
  | some cb => exact raises_callBack s cb i

theorem callBackUntested_quiet {answer : Option ρ} {i : ι}
    (h : s.callBackUntested (answer.map .quiet) i = some s') : s' = s := by
  cases answer with
  | none => cases h
  | some answer => exact (Option.some.inj h).symm

theorem callBackIfSet_quiet {answer : Option ρ} {i : ι}
    (h : s.callBackIfSet (answer.map .quiet) i = some s') : s' = s := by
  cases answer with
  | none => exact (Option.some.inj h).symm
  | some answer => exact (Option.some.inj h).symm

/-- Code that, whatever its callback is, comes to `t`, calls it there with `i`, and then leaves the object alone. -/
def CallsOnce (code : Callback α ι ρ → Option (Held α)) (t : Held α) (i : ι) : Prop :=
  ∃ after : Held α → Held α, (∀ s, (after s).obj = s.obj) ∧ ∀ cb, code cb = (t.callBack cb i).map after

variable {code : Callback α ι ρ → Option (Held α)} {t t' : Held α} {i i' : ι}

theorem CallsOnce.returns (h : CallsOnce code t i) (answer : ρ) :
    ∃ s', code (.quiet answer) = some s' ∧ s'.obj = t.obj := by
  obtain ⟨after, hobj, hcode⟩ := h
  exact ⟨after t, hcode _, hobj t⟩

/-- A callback can be made to come back from one call only, so it is told one thing only. -/
theorem CallsOnce.told_unique (h : CallsOnce code t i) (h' : CallsOnce code t' i') (answer : ρ) : i = i' := by
  classical
  obtain ⟨after, _, hcode⟩ := h
  obtain ⟨after', _, hcode'⟩ := h'
  by_contra hne
  let picky : Callback α ι ρ :=
    { run := fun j s => if j = i then some (s, answer) else none
      balanced := by
        intro j s s' r hr
        split_ifs at hr
        cases hr
        rfl }
  have hsome : (t.callBack picky i).map after = some (after t) := by
    simp only [callBack, picky, if_true, Option.map_some]
  have hnone : (t'.callBack picky i').map after' = none := by
    simp only [callBack, picky, if_neg (Ne.symm hne), Option.map_none]
  rw [← hcode picky, hcode' picky, hnone] at hsome
  cases hsome

end Held
end Chats.Lib
