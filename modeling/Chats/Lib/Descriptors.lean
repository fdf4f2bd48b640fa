import Mathlib.Tactic

/-! The descriptor numbers of a process. A number that was closed is handed out again, so a number
alone does not say which open file it stands for: here every open makes a new file. One of the
users of the numbers keeps a trace of what it did with them; what the others do shows only in
what the numbers stand for. -/
namespace Chats.Lib
set_option autoImplicit false

/-- The user got a number for a new file, or it closed a number that stood for a file, or for none. -/
inductive FdEvent
  | acquired (fd : ℤ) (file : ℕ)
  | closed (fd : ℤ) (file : Option ℕ)
deriving DecidableEq

/-- The trace is there with its latest event first. -/
structure Descriptors where
  file : ℤ → Option ℕ
  fresh : ℕ
  trace : List FdEvent

namespace Descriptors

/-- The kernel hands out only a number that stands for nothing. -/
def opened (d : Descriptors) (fd : ℤ) : Option Descriptors :=
  if fd < 0 ∨ (d.file fd).isSome then none
  else some { d with file := Function.update d.file fd (some d.fresh), fresh := d.fresh + 1 }

def acquire (d : Descriptors) (fd : ℤ) : Option Descriptors :=
  (d.opened fd).map fun d' => { d' with trace := .acquired fd d.fresh :: d.trace }

def dropped (d : Descriptors) (fd : ℤ) : Descriptors := { d with file := Function.update d.file fd none }

/-- Closing a number that stands for nothing does nothing. -/
def close (d : Descriptors) (fd : ℤ) : Descriptors := { d.dropped fd with trace := .closed fd (d.file fd) :: d.trace }

/-- What the user has acquired, in order. -/
def acquired (d : Descriptors) : List ℕ :=
  d.trace.reverse.filterMap fun
    | .acquired _ f => some f
    | .closed _ _ => none

/-- How often the user has closed a number that stood for the file. -/
def closings (d : Descriptors) (f : ℕ) : ℕ :=
  d.trace.countP fun
    | .acquired _ _ => false
    | .closed _ g => g = some f

def Open (d : Descriptors) (f : ℕ) : Prop := ∃ fd, d.file fd = some f

open Classical in
/-- What the user has acquired and is still open, in the order of acquisition. -/
noncomputable def stillOpen (d : Descriptors) : List ℕ := d.acquired.filter fun f => d.Open f

/-- A process with one open descriptor, of which nobody keeps a trace. -/
def single (fd : ℤ) : Descriptors where
  file := Function.update (fun _ => none) fd (some 0)
  fresh := 1
  trace := []

/-- The user has closed the number, and has not got it again since. -/
def Lost (fd : ℤ) : List FdEvent → Prop
  | [] => False
  | .acquired fd' _ :: es => fd' ≠ fd ∧ Lost fd es
  | .closed fd' _ :: es => fd' = fd ∨ Lost fd es

/-! ## The operations, by what they do -/

variable {d d' : Descriptors} {fd fd' : ℤ} {f : ℕ}

theorem opened_eq (h : d.opened fd = some d') : 0 ≤ fd ∧ d.file fd = none ∧
    d' = { d with file := Function.update d.file fd (some d.fresh), fresh := d.fresh + 1 } := by
  unfold opened at h
  split_ifs at h with hno
  rw [not_or, not_lt, Bool.not_eq_true, Option.isSome_eq_false_iff, Option.isNone_iff_eq_none] at hno
  exact ⟨hno.1, hno.2, (Option.some.inj h).symm⟩

theorem acquire_eq (h : d.acquire fd = some d') : 0 ≤ fd ∧ d.file fd = none ∧ d' =
    { file := Function.update d.file fd (some d.fresh), fresh := d.fresh + 1,
      trace := .acquired fd d.fresh :: d.trace } := by
  obtain ⟨d₁, h₁, rfl⟩ := Option.map_eq_some_iff.mp h
  obtain ⟨h0, hfree, rfl⟩ := opened_eq h₁
  exact ⟨h0, hfree, rfl⟩

theorem exists_acquire (h0 : 0 ≤ fd) (hfree : d.file fd = none) : ∃ d', d.acquire fd = some d' := by
  simp [acquire, opened, h0, hfree]

@[simp] theorem acquired_close (d : Descriptors) (fd : ℤ) : (d.close fd).acquired = d.acquired := by
  simp [acquired, close]

theorem acquired_acquire (h : d.acquire fd = some d') : d'.acquired = d.acquired ++ [d.fresh] := by
  obtain ⟨-, -, rfl⟩ := acquire_eq h
  simp [acquired]

theorem closings_acquire (h : d.acquire fd = some d') (f : ℕ) : d'.closings f = d.closings f := by
  obtain ⟨-, -, rfl⟩ := acquire_eq h
  simp [closings]

theorem closings_close (d : Descriptors) (fd : ℤ) (f : ℕ) :
    (d.close fd).closings f = d.closings f + if d.file fd = some f then 1 else 0 := by
  simp [closings, close, List.countP_cons]

theorem trace_opened (h : d.opened fd = some d') : d'.trace = d.trace := by
  obtain ⟨-, -, rfl⟩ := opened_eq h
  rfl

theorem lost_acquire (h : d.acquire fd = some d') (x : ℤ) : Lost x d'.trace ↔ fd ≠ x ∧ Lost x d.trace := by
  obtain ⟨-, -, rfl⟩ := acquire_eq h
  rfl

theorem lost_close (d : Descriptors) (fd x : ℤ) : Lost x (d.close fd).trace ↔ fd = x ∨ Lost x d.trace := Iff.rfl

/-! ## What is always so -/

/-- A file has one number at most, and the user's own files are open until it closes them. -/
structure Sound (d : Descriptors) : Prop where
  old : ∀ fd f, d.file fd = some f → f < d.fresh
  sole : ∀ fd fd' f, d.file fd = some f → d.file fd' = some f → fd = fd'
  ownOld : ∀ f ∈ d.acquired, f < d.fresh
  ownOnce : d.acquired.Nodup
  unborn : ∀ f, d.fresh ≤ f → d.closings f = 0
  own : ∀ f ∈ d.acquired, (d.Open f ∧ d.closings f = 0) ∨ (¬ d.Open f ∧ d.closings f = 1)

theorem file_opened (h : d.opened fd = some d') (x : ℤ) :
    d'.file x = some f ↔ (x = fd ∧ f = d.fresh) ∨ (x ≠ fd ∧ d.file x = some f) := by
  obtain ⟨-, -, rfl⟩ := opened_eq h
  by_cases hx : x = fd
  · simp [hx, eq_comm]
  · simp [hx]

theorem file_dropped (d : Descriptors) (fd x : ℤ) (f : ℕ) :
    (d.dropped fd).file x = some f ↔ x ≠ fd ∧ d.file x = some f := by
  by_cases hx : x = fd
  · simp [dropped, hx]
  · simp [dropped, hx]

theorem file_acquire (h : d.acquire fd = some d') (x : ℤ) :
    d'.file x = some f ↔ (x = fd ∧ f = d.fresh) ∨ (x ≠ fd ∧ d.file x = some f) := by
  obtain ⟨d₁, h₁, rfl⟩ := Option.map_eq_some_iff.mp h
  exact file_opened h₁ x

theorem file_acquire_self (h : d.acquire fd = some d') : d'.file fd = some d.fresh :=
  (file_acquire h fd).mpr (Or.inl ⟨rfl, rfl⟩)

theorem file_acquire_of_some (h : d.acquire fd = some d') {x : ℤ} (hx : d.file x = some f) : d'.file x = some f := by
  refine (file_acquire h x).mpr (Or.inr ⟨?_, hx⟩)
  rintro rfl
  rw [(acquire_eq h).2.1] at hx
  cases hx

theorem file_close (d : Descriptors) (fd x : ℤ) (f : ℕ) : (d.close fd).file x = some f ↔ x ≠ fd ∧ d.file x = some f :=
  file_dropped d fd x f

theorem file_close_of_ne {x : ℤ} (hx : x ≠ fd) : (d.close fd).file x = d.file x := Function.update_of_ne hx _ _

theorem open_opened (h : d.opened fd = some d') (f : ℕ) : d'.Open f ↔ f = d.fresh ∨ d.Open f := by
  constructor
  · rintro ⟨x, hx⟩
    rcases (file_opened h x).mp hx with ⟨-, hf⟩ | ⟨-, hf⟩
    · exact Or.inl hf
    · exact Or.inr ⟨x, hf⟩
  · rintro (rfl | ⟨x, hx⟩)
    · exact ⟨fd, (file_opened h fd).mpr (Or.inl ⟨rfl, rfl⟩)⟩
    · refine ⟨x, (file_opened h x).mpr (Or.inr ⟨?_, hx⟩)⟩
      rintro rfl
      rw [(opened_eq h).2.1] at hx
      cases hx

theorem Sound.open_dropped (hd : d.Sound) (fd : ℤ) (f : ℕ) : (d.dropped fd).Open f ↔ d.Open f ∧ d.file fd ≠ some f := by
  constructor
  · rintro ⟨x, hx⟩
    obtain ⟨hne, hx⟩ := (file_dropped d fd x f).mp hx
    exact ⟨⟨x, hx⟩, fun hfd => hne (hd.sole x fd f hx hfd)⟩
  · rintro ⟨⟨x, hx⟩, hne⟩
    refine ⟨x, (file_dropped d fd x f).mpr ⟨?_, hx⟩⟩
    rintro rfl
    exact hne hx

theorem Sound.opened (hd : d.Sound) (h : d.opened fd = some d') : d'.Sound := by
  have hopen := open_opened h
  have hfile := fun x f => file_opened (f := f) h x
  obtain ⟨-, hfree, rfl⟩ := opened_eq h
  refine ⟨?_, ?_, fun f hf => Nat.lt_succ_of_lt (hd.ownOld f hf), hd.ownOnce,
    fun f hf => hd.unborn f (Nat.le_of_succ_le hf), ?_⟩
  · intro x f hx
    rcases (hfile x f).mp hx with ⟨-, rfl⟩ | ⟨-, hf⟩
    · exact Nat.lt_succ_self _
    · exact Nat.lt_succ_of_lt (hd.old x f hf)
  · intro x y f hx hy
    rcases (hfile x f).mp hx with ⟨rfl, rfl⟩ | ⟨-, hfx⟩ <;> rcases (hfile y _).mp hy with ⟨rfl, hf⟩ | ⟨-, hfy⟩
    · rfl
    · exact absurd (hd.old y _ hfy) (lt_irrefl _)
    · exact absurd (hd.old x _ hfx) (hf ▸ lt_irrefl _)
    · exact hd.sole x y f hfx hfy
  · intro f hf
    have hne : f ≠ d.fresh := (hd.ownOld f hf).ne
    rw [hopen f, or_iff_right hne]
    exact hd.own f hf

theorem Sound.acquire (hd : d.Sound) (h : d.acquire fd = some d') : d'.Sound := by
  have hacq := acquired_acquire h
  have hcl := closings_acquire h
  obtain ⟨d₁, h₁, rfl⟩ := Option.map_eq_some_iff.mp h
  have hd₁ := hd.opened h₁
  have hopen := open_opened h₁
  obtain ⟨-, -, hd₁eq⟩ := opened_eq h₁
  have hfresh : d₁.fresh = d.fresh + 1 := by rw [hd₁eq]
  refine ⟨hd₁.old, hd₁.sole, ?_, ?_, ?_, ?_⟩
  · intro f hf
    rw [hacq, List.mem_append, List.mem_singleton] at hf
    show f < d₁.fresh
    rcases hf with hf | rfl
    · have hlt := hd.ownOld f hf
      omega
    · omega
  · rw [hacq, List.nodup_append]
    refine ⟨hd.ownOnce, List.nodup_singleton _, ?_⟩
    intro a ha b hb
    rw [List.mem_singleton] at hb
    have hlt := hd.ownOld a ha
    omega
  · intro f hf
    rw [hcl]
    exact hd.unborn f (by change d₁.fresh ≤ f at hf; omega)
  · intro f hf
    rw [hcl]
    show d₁.Open f ∧ _ ∨ ¬ d₁.Open f ∧ _
    rw [hacq, List.mem_append, List.mem_singleton] at hf
    rw [hopen f]
    rcases hf with hf | rfl
    · have hne : f ≠ d.fresh := (hd.ownOld f hf).ne
      rw [or_iff_right hne]
      exact hd.own f hf
    · exact Or.inl ⟨Or.inl rfl, hd.unborn _ le_rfl⟩

/-- Nobody but the user closes what the user has acquired. -/
theorem Sound.dropped (hd : d.Sound) (hown : ∀ f ∈ d.acquired, d.file fd ≠ some f) : (d.dropped fd).Sound := by
  have hfile : ∀ x f, (d.dropped fd).file x = some f → d.file x = some f :=
    fun x f hx => ((file_dropped d fd x f).mp hx).2
  refine ⟨fun x f hx => hd.old x f (hfile x f hx), fun x y f hx hy => hd.sole x y f (hfile x f hx) (hfile y f hy),
    hd.ownOld, hd.ownOnce, hd.unborn, ?_⟩
  intro f hf
  rw [hd.open_dropped fd f, and_iff_left (hown f hf)]
  exact hd.own f hf

theorem Sound.close (hd : d.Sound) (fd : ℤ) : (d.close fd).Sound := by
  have hfile : ∀ x f, (d.close fd).file x = some f → d.file x = some f := fun x f hx => ((file_close d fd x f).mp hx).2
  have hopen : ∀ f, (d.close fd).Open f ↔ d.Open f ∧ d.file fd ≠ some f := hd.open_dropped fd
  refine ⟨fun x f hx => hd.old x f (hfile x f hx), fun x y f hx hy => hd.sole x y f (hfile x f hx) (hfile y f hy),
    ?_, ?_, ?_, ?_⟩
  · rw [acquired_close]
    exact hd.ownOld
  · rw [acquired_close]
    exact hd.ownOnce
  · intro f hf
    rw [closings_close, hd.unborn f hf, if_neg]
    intro hfd
    exact absurd (hd.old fd f hfd) (by change d.fresh ≤ f at hf; omega)
  · intro f hf
    rw [acquired_close] at hf
    rw [closings_close, hopen f]
    by_cases hfd : d.file fd = some f
    · rw [if_pos hfd]
      refine Or.inr ⟨fun h => h.2 hfd, ?_⟩
      obtain ⟨-, h0⟩ | ⟨hno, -⟩ := hd.own f hf
      · omega
      · exact absurd ⟨fd, hfd⟩ hno
    · rw [if_neg hfd, and_iff_left hfd]
      exact hd.own f hf

theorem sound_single (fd : ℤ) : (single fd).Sound := by
  have hfile : ∀ x f, (single fd).file x = some f → x = fd ∧ f = 0 := by
    intro x f hx
    by_cases hne : x = fd
    · simp only [single, hne, Function.update_self, Option.some.injEq] at hx
      exact ⟨hne, hx.symm⟩
    · simp [single, hne] at hx
  refine ⟨?_, ?_, ?_, List.nodup_nil, fun _ _ => rfl, ?_⟩
  · intro x f hx
    rw [(hfile x f hx).2]
    exact Nat.one_pos
  · intro x y f hx hy
    rw [(hfile x f hx).1, (hfile y f hy).1]
  · intro f hf
    cases hf
  · intro f hf
    cases hf

/-! ## What is still open -/

theorem stillOpen_congr (hacq : d'.acquired = d.acquired) (hopen : ∀ f ∈ d.acquired, d'.Open f ↔ d.Open f) :
    d'.stillOpen = d.stillOpen := by
  unfold stillOpen
  rw [hacq]
  apply List.filter_congr
  intro f hf
  exact decide_eq_decide.mpr (hopen f hf)

theorem mem_stillOpen : f ∈ d.stillOpen ↔ f ∈ d.acquired ∧ d.Open f := by simp [stillOpen]

theorem Sound.stillOpen_nodup (hd : d.Sound) : d.stillOpen.Nodup := hd.ownOnce.filter _

theorem open_acquire (h : d.acquire fd = some d') (f : ℕ) : d'.Open f ↔ f = d.fresh ∨ d.Open f := by
  obtain ⟨d₁, h₁, rfl⟩ := Option.map_eq_some_iff.mp h
  exact open_opened h₁ f

theorem Sound.stillOpen_acquire (hd : d.Sound) (h : d.acquire fd = some d') :
    d'.stillOpen = d.stillOpen ++ [d.fresh] := by
  unfold stillOpen
  rw [acquired_acquire h, List.filter_append]
  congr 1
  · apply List.filter_congr
    intro f hf
    have hne : f ≠ d.fresh := (hd.ownOld f hf).ne
    exact decide_eq_decide.mpr ((open_acquire h f).trans (or_iff_right hne))
  · simp [open_acquire h]

theorem Sound.open_close (hd : d.Sound) (fd : ℤ) (f : ℕ) : (d.close fd).Open f ↔ d.Open f ∧ d.file fd ≠ some f :=
  hd.open_dropped fd f

theorem Sound.stillOpen_close (hd : d.Sound) (h : d.file fd = some f) :
    (d.close fd).stillOpen = d.stillOpen.erase f := by
  rw [hd.stillOpen_nodup.erase_eq_filter f]
  unfold stillOpen
  rw [acquired_close, List.filter_filter]
  apply List.filter_congr
  intro g _
  have hiff := hd.open_close fd g
  rw [h, ne_comm, Ne, Option.some.injEq] at hiff
  rw [Bool.eq_iff_iff]
  simp [hiff, and_comm]

theorem Sound.stillOpen_close_other (hd : d.Sound) (h : ∀ f ∈ d.acquired, d.file fd ≠ some f) :
    (d.close fd).stillOpen = d.stillOpen := by
  apply stillOpen_congr (acquired_close d fd)
  intro f hf
  rw [hd.open_close, and_iff_left (h f hf)]

theorem Sound.closings_of_closed (hd : d.Sound) (h : d.stillOpen = []) (hf : f ∈ d.acquired) :
    d.closings f = 1 ∧ ¬ d.Open f := by
  have hclosed : ¬ d.Open f := by
    intro hopen
    have hmem := mem_stillOpen.mpr ⟨hf, hopen⟩
    rw [h] at hmem
    cases hmem
  exact ⟨((hd.own f hf).resolve_left fun h => hclosed h.1).2, hclosed⟩

/-! ## What the others do -/

/-- The others have touched neither what the user has acquired nor what `listener` stands for. -/
structure Aside (listener : ℤ) (d d' : Descriptors) : Prop where
  sound : d'.Sound
  trace : d'.trace = d.trace
  own : ∀ f ∈ d.acquired, ∀ fd, d'.file fd = some f ↔ d.file fd = some f
  listening : d'.file listener = d.file listener

theorem Sound.aside_refl (hd : d.Sound) (listener : ℤ) : Aside listener d d := ⟨hd, rfl, fun _ _ _ => Iff.rfl, rfl⟩

theorem Sound.aside_opened (hd : d.Sound) {listener : ℤ} (hl : d.file listener ≠ none) (h : d.opened fd = some d') :
    Aside listener d d' := by
  have hne : ∀ f, f < d.fresh → ∀ x, d'.file x = some f ↔ d.file x = some f := by
    intro f hf x
    rw [file_opened h x]
    constructor
    · rintro (⟨-, heq⟩ | ⟨-, hx⟩)
      · omega
      · exact hx
    · intro hx
      refine Or.inr ⟨?_, hx⟩
      rintro rfl
      rw [(opened_eq h).2.1] at hx
      cases hx
  refine ⟨hd.opened h, ?_, fun f hf => hne f (hd.ownOld f hf), ?_⟩
  · obtain ⟨-, -, rfl⟩ := opened_eq h
    rfl
  · obtain ⟨g, hg⟩ := Option.ne_none_iff_exists'.mp hl
    rw [hg]
    exact (hne g (hd.old listener g hg) listener).mpr hg

theorem Sound.aside_dropped (hd : d.Sound) {listener : ℤ} (hl : fd ≠ listener)
    (hown : ∀ f ∈ d.acquired, d.file fd ≠ some f) :
    Aside listener d (d.dropped fd) := by
  refine ⟨hd.dropped hown, rfl, ?_, ?_⟩
  · intro f hf x
    rw [file_dropped]
    constructor
    · exact And.right
    · intro hx
      refine ⟨?_, hx⟩
      rintro rfl
      exact hown f hf hx
  · exact Function.update_of_ne hl.symm _ _

variable {listener : ℤ}

theorem Aside.acquired_eq (h : Aside listener d d') : d'.acquired = d.acquired := by
  unfold acquired
  rw [h.trace]

theorem Aside.open_iff (h : Aside listener d d') (hf : f ∈ d.acquired) :
    d'.Open f ↔ d.Open f := exists_congr (h.own f hf)

theorem Aside.stillOpen_eq (h : Aside listener d d') : d'.stillOpen = d.stillOpen :=
  stillOpen_congr h.acquired_eq fun _ hf => h.open_iff hf

end Descriptors
end Chats.Lib
