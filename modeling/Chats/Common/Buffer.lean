import Chats.Lib.Run

/-! # Buffers

The buffers of `common/memory.c`: a descriptor with two recorded sizes, and the data behind it in
the same block. `buffer_init` falls off its end without a `return` and is read as returning `b`. -/
namespace Chats.Buffers
set_option autoImplicit false

open Lib

inductive BufferPolicy
  | noShrink
  | shrink
deriving DecidableEq

/-- `struct buffer`, with the size of the block that it heads. -/
structure Buffer where
  pol : BufferPolicy
  realSize : UInt64
  userSize : UInt64
  block : ℕ
deriving DecidableEq

/-- `sizeof(buffer_t)`: the policy, padded to eight bytes, and the two sizes. -/
def sizeofBuffer : UInt64 := 24

/-- `granted` tells whether `malloc` returns a block. -/
def bufferInit (initialSize : UInt64) (pol : BufferPolicy) (granted : Bool) : Option Buffer :=
  if granted then
    some { pol, realSize := initialSize, userSize := initialSize, block := (initialSize + sizeofBuffer).toNat }
  else none

def bufferSize (b : Buffer) : UInt64 := b.userSize

def bufferSizeReal (b : Buffer) : UInt64 := b.realSize

/-- `reallocate` of the whole block: the descriptor is moved with it as it stands. -/
def reallocate (b : Buffer) (newSize : UInt64) (granted : Bool) : Option Buffer :=
  if granted then some { b with block := newSize.toNat } else none

def bufferReallocNoShrink (b : Buffer) (newSize : UInt64) (granted : Bool) : Buffer × Bool :=
  if newSize < b.userSize then (b, true)
  else
    match reallocate b (newSize + sizeofBuffer) granted with
    | none => (b, false)
    | some newB => (newB, true)

def bufferReallocShrink (b : Buffer) (newSize : UInt64) (granted : Bool) : Buffer × Bool :=
  match reallocate b (newSize + sizeofBuffer) granted with
  | none => (b, false)
  | some newB => (newB, true)

/-- `buffer_resize`, by the policy in the descriptor; `none` when the descriptor is not in the block. -/
def bufferResize (b : Buffer) (newSize : UInt64) (granted : Bool) : Option (Buffer × Bool) :=
  if b.block < sizeofBuffer.toNat then none
  else
    match b.pol with
    | .shrink => some (bufferReallocShrink b newSize granted)
    | .noShrink => some (bufferReallocNoShrink b newSize granted)

/-! ## Runs of resizes -/

/-- A successful `buffer_resize`. -/
def Step (b : Buffer) (newSize : UInt64) (b' : Buffer) : Prop :=
  ∃ granted, bufferResize b newSize granted = some (b', true)

/-- The size that a resize is to leave. -/
def resized (pol : BufferPolicy) (size newSize : UInt64) : UInt64 :=
  match pol with
  | .shrink => newSize
  | .noShrink => max newSize size

/-- The recorded sizes are within the block, and the last resize took effect. -/
structure SizesRight (h : List (Buffer × UInt64)) (b : Buffer) : Prop where
  user_le_real : bufferSize b ≤ bufferSizeReal b
  real_le_block : (bufferSizeReal b).toNat + sizeofBuffer.toNat ≤ b.block
  took_effect : ∀ t newSize rest, h = (t, newSize) :: rest → bufferSize b = resized t.pol (bufferSize t) newSize

/-- The resize asks for no size that is not recorded already. -/
def Meets (b : Buffer) (newSize : UInt64) : Prop :=
  match b.pol with
  | .shrink => newSize = bufferSize b
  | .noShrink => newSize ≤ bufferSize b

/-- Both sizes are the one that the block was allocated for. -/
structure Exact (b : Buffer) : Prop where
  real_eq : b.realSize = b.userSize
  block_eq : b.block = b.userSize.toNat + sizeofBuffer.toNat
  block_lt : b.block < 2 ^ 64

/-- What a successful resize can do: nothing, or give the block a new size. No recorded size changes. -/
theorem Step.cases {b b' : Buffer} {newSize : UInt64} (hs : Step b newSize b') :
    (b.pol = .noShrink ∧ newSize < b.userSize ∧ b' = b) ∨
      ((b.pol = .noShrink → ¬ newSize < b.userSize) ∧ b' = { b with block := (newSize + sizeofBuffer).toNat }) := by
  obtain ⟨granted, h⟩ := hs
  have hrealloc : ∀ r : Option Buffer, r = reallocate b (newSize + sizeofBuffer) granted →
      (match r with | none => (b, false) | some newB => (newB, true)) = (b', true) →
      b' = { b with block := (newSize + sizeofBuffer).toNat } := by
    intro r hr hout
    cases r with
    | none => cases hout
    | some newB =>
      rw [reallocate] at hr
      split at hr
      · rw [← (Prod.mk.inj hout).1, Option.some.inj hr]
      · cases hr
  rw [bufferResize] at h
  split at h
  · cases h
  · split at h
    · next hp => exact .inr ⟨fun hno => absurd (hp.symm.trans hno) (by decide), hrealloc _ rfl (Option.some.inj h)⟩
    · next hp =>
      have hcall := Option.some.inj h
      rw [bufferReallocNoShrink] at hcall
      by_cases hlt : newSize < b.userSize
      · rw [if_pos hlt] at hcall
        exact .inl ⟨hp, hlt, (Prod.mk.inj hcall).1.symm⟩
      · rw [if_neg hlt] at hcall
        exact .inr ⟨fun _ => hlt, hrealloc _ rfl hcall⟩

theorem Step.userSize {b b' : Buffer} {newSize : UInt64} (hs : Step b newSize b') : b'.userSize = b.userSize := by
  rcases hs.cases with ⟨_, _, rfl⟩ | ⟨_, rfl⟩ <;> rfl

theorem toNat_add_sizeof {n : UInt64} (h : n.toNat + sizeofBuffer.toNat < 2 ^ 64) :
    (n + sizeofBuffer).toNat = n.toNat + sizeofBuffer.toNat := by
  rw [UInt64.toNat_add, Nat.mod_eq_of_lt h]

/-- A resize to what is recorded keeps the block as it is. -/
theorem Exact.step {b b' : Buffer} {newSize : UInt64} (hb : Exact b) (hmeets : Meets b newSize)
    (hs : Step b newSize b') : b' = b := by
  rcases hs.cases with ⟨_, _, rfl⟩ | ⟨hnot, rfl⟩
  · rfl
  · have hsame : newSize = b.userSize := by
      rw [Meets] at hmeets
      split at hmeets
      · exact hmeets
      · next hp => exact UInt64.le_antisymm hmeets (UInt64.not_lt.mp (hnot hp))
    have hfit : b.userSize.toNat + sizeofBuffer.toNat < 2 ^ 64 := hb.block_eq ▸ hb.block_lt
    rw [hsame, toNat_add_sizeof hfit, ← hb.block_eq]

theorem resized_eq_iff (b : Buffer) (newSize : UInt64) :
    bufferSize b = resized b.pol (bufferSize b) newSize ↔ Meets b newSize := by
  cases b with
  | mk pol realSize userSize block =>
  cases pol with
  | shrink => exact eq_comm
  | noShrink =>
    show userSize = (if newSize ≤ userSize then userSize else newSize) ↔ newSize ≤ userSize
    by_cases hle : newSize ≤ userSize
    · simp [hle]
    · rw [if_neg hle]
      exact ⟨fun heq => heq ▸ UInt64.le_refl userSize, fun hle' => absurd hle' hle⟩

theorem Exact.sizesRight {b : Buffer} (hb : Exact b) {h : List (Buffer × UInt64)}
    (hlast : ∀ t newSize rest, h = (t, newSize) :: rest → bufferSize b = resized t.pol (bufferSize t) newSize) :
    SizesRight h b := by
  refine ⟨?_, ?_, hlast⟩
  · exact UInt64.le_of_eq hb.real_eq.symm
  · rw [bufferSizeReal, hb.real_eq, hb.block_eq]

theorem bufferInit_exact {initialSize : UInt64} {pol : BufferPolicy} {granted : Bool} {b : Buffer}
    (hfit : initialSize.toNat + sizeofBuffer.toNat < 2 ^ 64) (hinit : bufferInit initialSize pol granted = some b) :
    Exact b := by
  rw [bufferInit] at hinit
  split at hinit
  · rw [← Option.some.inj hinit]
    have hblock := toNat_add_sizeof hfit
    exact ⟨rfl, hblock, hblock ▸ hfit⟩
  · cases hinit

/-- The recorded sizes are right at every moment of a run exactly when every resize asked for no new
size. -/
theorem buffer_sizes_iff (initialSize : UInt64) (pol : BufferPolicy) (granted : Bool) (b₀ : Buffer)
    (hfit : initialSize.toNat + sizeofBuffer.toNat < 2 ^ 64) (hinit : bufferInit initialSize pol granted = some b₀)
    (h : List (Buffer × UInt64)) (b : Buffer) (r : Run Step b₀ h b) :
    (∀ m ∈ moments h b, SizesRight m.1 m.2) ↔ ∀ e ∈ h, Meets e.1 e.2 := by
  have h0 := bufferInit_exact hfit hinit
  refine r.forall_moments_iff (I := fun h b => Exact b ∧ SizesRight h b) ⟨h0, h0.sizesRight nofun⟩ ?_ ?_ ?_
  · exact fun h b hI => hI.2
  · intro h b newSize b' hI hmeets hs
    have hsame := hI.1.step hmeets hs
    subst hsame
    refine ⟨hI.1, hI.1.sizesRight ?_⟩
    intro t n rest e
    obtain ⟨rfl, rfl⟩ := Prod.mk.inj (List.cons.inj e).1
    exact (resized_eq_iff _ _).mpr hmeets
  · intro h b newSize b' _ hnot hs hright
    have hlast := hright.took_effect b newSize h rfl
    rw [bufferSize, hs.userSize] at hlast
    exact hnot ((resized_eq_iff b newSize).mp hlast)

def tenBytes : Buffer := { pol := .noShrink, realSize := 10, userSize := 10, block := 34 }

theorem buffer_sizes_ten : SizesRight [(tenBytes, 7)] tenBytes := by
  have r : Run Step tenBytes [(tenBytes, 7)] tenBytes := .next .start ⟨true, by decide⟩
  refine (buffer_sizes_iff 10 .noShrink true tenBytes (by decide) rfl _ tenBytes r).mpr (fun e he => ?_) _
    (mem_moments _ _)
  rw [List.mem_singleton.mp he]
  show (7 : UInt64) ≤ 10
  decide

/-- After a resize to 5 bytes the buffer still says that it has 10, more than its block; after one to 20
it says so too. -/
theorem resize_not_recorded :
    (∃ b₀ h b, bufferInit 10 .shrink true = some b₀ ∧ Run Step b₀ h b ∧ h = [(b₀, 5)] ∧ bufferSize b = 10 ∧
      b.block = 5 + sizeofBuffer.toNat ∧ ¬ SizesRight h b) ∧
    ∃ b₀ h b, bufferInit 10 .noShrink true = some b₀ ∧ Run Step b₀ h b ∧ h = [(b₀, 20)] ∧ bufferSize b = 10 ∧
      b.block = 20 + sizeofBuffer.toNat ∧ ¬ SizesRight h b := by
  constructor
  · refine ⟨_, _, _, rfl, .next .start ⟨true, rfl⟩, rfl, rfl, rfl, fun hright => ?_⟩
    exact absurd hright.real_le_block (by decide)
  · refine ⟨_, _, _, rfl, .next .start ⟨true, rfl⟩, rfl, rfl, rfl, fun hright => ?_⟩
    exact absurd (hright.took_effect _ _ _ rfl) (by decide)

end Chats.Buffers
