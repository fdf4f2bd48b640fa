import Mathlib.Algebra.BigOperators.Group.Finset.Basic
import Mathlib.Data.ZMod.Basic
import Mathlib.Dynamics.PeriodicPts.Defs
import Mathlib.Tactic

/-! Linear feedback registers over a group in which every element is its own opposite. A set input
bit adds the word `u`; then the register goes through the endomorphism `s`. Two inputs of one length
leave words that differ by a sum over the places where the inputs differ, so what a register detects
is a matter of the words `s^[k] u` alone. -/
namespace Chats.Lib
set_option autoImplicit false

namespace Register
variable {M : Type} [AddCommGroup M] (s : M →+ M) (u : M)

def step (m : M) (bit : Bool) : M := s (m + if bit then u else 0)

def run (m : M) (bits : List Bool) : M := bits.foldl (step s u) m

/-- The places where two inputs differ, the first input bit at place 0. -/
def differing (a b : List Bool) : Finset ℕ := (Finset.range a.length).filter fun i => a[i]? ≠ b[i]?

/-- Superposition: the start word and every set bit contribute by themselves. -/
theorem run_eq_sum (m : M) (bits : List Bool) : run s u m bits =
    s^[bits.length] m + ∑ i ∈ Finset.range bits.length, if bits[i]? = some true then s^[bits.length - i] u else 0 := by
  induction bits generalizing m with
  | nil => simp [run]
  | cons bit bits ih =>
    have hhead : s^[bits.length] (step s u m bit) =
        s^[bits.length + 1] m + if bit then s^[bits.length + 1] u else 0 := by
      rw [Function.iterate_succ_apply, Function.iterate_succ_apply, step, map_add, iterate_map_add]
      cases bit <;> simp
    calc run s u m (bit :: bits) = run s u (step s u m bit) bits := rfl
      _ = _ := by
        rw [ih, hhead, List.length_cons, Finset.sum_range_succ']
        simp only [List.getElem?_cons_succ, List.getElem?_cons_zero, Option.some.injEq,
          Nat.add_sub_add_right, Nat.sub_zero]
        abel

theorem iterate_sum {ι : Type} (n : ℕ) (places : Finset ι) (f : ι → M) :
    s^[n] (∑ i ∈ places, f i) = ∑ i ∈ places, s^[n] (f i) := by
  induction n with
  | zero => rfl
  | succ n ih => simp only [Function.iterate_succ_apply', ih, map_sum]

theorem run_eq_add (m : M) (bits : List Bool) : run s u m bits = s^[bits.length] m + run s u 0 bits := by
  rw [run_eq_sum, run_eq_sum s u 0, iterate_map_zero, zero_add]

theorem mem_differing {a b : List Bool} {i : ℕ} : i ∈ differing a b ↔ i < a.length ∧ a[i]? ≠ b[i]? := by
  simp [differing]

/-- The places of two inputs that are put together from parts. -/
theorem mem_differing_append {a b c d : List Bool} (hlen : a.length = b.length) {i : ℕ} :
    i ∈ differing (a ++ c) (b ++ d) ↔ i ∈ differing a b ∨ ∃ j ∈ differing c d, i = a.length + j := by
  rw [mem_differing, mem_differing, List.length_append]
  by_cases hi : i < a.length
  · rw [List.getElem?_append_left hi, List.getElem?_append_left (hlen ▸ hi)]
    constructor
    · rintro ⟨-, hne⟩
      exact .inl ⟨hi, hne⟩
    · rintro (h | ⟨j, -, rfl⟩)
      · exact ⟨Nat.lt_add_right _ hi, h.2⟩
      · omega
  · rw [List.getElem?_append_right (by omega), List.getElem?_append_right (by omega), ← hlen]
    constructor
    · rintro ⟨hlt, hne⟩
      exact .inr ⟨i - a.length, mem_differing.mpr ⟨by omega, hne⟩, by omega⟩
    · rintro (h | ⟨j, hj, rfl⟩)
      · exact absurd h.1 hi
      · obtain ⟨hlt, hne⟩ := mem_differing.mp hj
        rw [Nat.add_sub_cancel_left]
        exact ⟨by omega, hne⟩

theorem differing_nonempty {a b : List Bool} (hlen : a.length = b.length) (hne : a ≠ b) :
    (differing a b).Nonempty := by
  by_contra hempty
  refine hne (List.ext_getElem? fun i => ?_)
  by_cases hi : i < a.length
  · by_contra hdiff
    exact hempty ⟨i, mem_differing.mpr ⟨hi, hdiff⟩⟩
  · rw [List.getElem?_eq_none (by omega), List.getElem?_eq_none (by omega)]

/-- The words `v, s v, …` make up every word: `place j` tells whether the `j`-th of the first `w` is in
it. -/
structure Coordinates (w : ℕ) (v : M) (place : ℕ → M →+ ZMod 2) : Prop where
  place_iterate : ∀ j < w, ∀ k < w, place j (s^[k] v) = if j = k then 1 else 0
  eq_zero : ∀ x, (∀ j < w, place j x = 0) → x = 0

section SelfInverse
variable {s u} (h2 : ∀ m : M, m + m = 0)
include h2

theorem eq_iff_add_eq_zero (x y : M) : x = y ↔ x + y = 0 := by
  rw [add_eq_zero_iff_eq_neg, ← add_eq_zero_iff_eq_neg.mp (h2 y)]

theorem run_add_run (m : M) {a b : List Bool} (hlen : a.length = b.length) :
    run s u m a + run s u m b = ∑ i ∈ differing a b, s^[a.length - i] u := by
  have hbits : ∀ i ∈ Finset.range a.length,
      ((if a[i]? = some true then s^[a.length - i] u else 0) + if b[i]? = some true then s^[a.length - i] u else 0) =
        if a[i]? ≠ b[i]? then s^[a.length - i] u else 0 := by
    intro i hi
    have hia : i < a.length := Finset.mem_range.mp hi
    rw [List.getElem?_eq_getElem hia, List.getElem?_eq_getElem (hlen ▸ hia)]
    cases a[i] <;> cases b[i] <;> simp [h2]
  rw [run_eq_sum, run_eq_sum s u m b, ← hlen, add_add_add_comm, h2, zero_add, ← Finset.sum_add_distrib,
    Finset.sum_congr rfl hbits, differing, Finset.sum_filter]

/-- Two inputs leave the same word exactly when the words of the differing places add to zero. -/
theorem run_eq_run_iff (m : M) {a b : List Bool} (hlen : a.length = b.length) :
    run s u m a = run s u m b ↔ ∑ i ∈ differing a b, s^[a.length - i] u = 0 := by
  rw [eq_iff_add_eq_zero h2, run_add_run h2 m hlen]

/-! ## What a register detects -/

/-- A parity that the shift keeps and the input word has counts the errors. -/
theorem parity_run_add_run (parity : M →+ ZMod 2) (hs : ∀ m, parity (s m) = parity m) (hu : parity u = 1) (m : M)
    {a b : List Bool} (hlen : a.length = b.length) : parity (run s u m a + run s u m b) = (differing a b).card := by
  have hword : ∀ k, parity (s^[k] u) = 1 := by
    intro k
    induction k with
    | zero => exact hu
    | succ k ih => rw [Function.iterate_succ_apply', hs, ih]
  rw [run_add_run h2 m hlen, map_sum]
  simp [hword]

/-- So an odd number of errors is detected. -/
theorem run_ne_of_odd (parity : M →+ ZMod 2) (hs : ∀ m, parity (s m) = parity m) (hu : parity u = 1) (m : M)
    {a b : List Bool} (hlen : a.length = b.length) (hodd : Odd (differing a b).card) : run s u m a ≠ run s u m b := by
  intro heq
  have hcard := parity_run_add_run h2 parity hs hu m hlen
  rw [heq, h2, map_zero] at hcard
  have heven := (ZMod.natCast_eq_zero_iff _ 2).mp hcard.symm
  exact Nat.not_even_iff_odd.mpr hodd (even_iff_two_dvd.mpr heven)

/-- Two errors whose distance does not bring the input word back are detected. -/
theorem run_ne_of_pair (hinj : Function.Injective s) (m : M) {a b : List Bool} (hlen : a.length = b.length) {i j : ℕ}
    (hij : i < j) (hd : differing a b = {i, j}) (hperiod : s^[j - i] u ≠ u) : run s u m a ≠ run s u m b := by
  have hj : j < a.length := (mem_differing.mp (show j ∈ differing a b by simp [hd])).1
  rw [ne_eq, run_eq_run_iff h2 m hlen, hd, Finset.sum_pair (Nat.ne_of_lt hij), ← eq_iff_add_eq_zero h2]
  rw [show a.length - i = (a.length - j) + (j - i) by omega, Function.iterate_add_apply]
  exact fun heq => hperiod (hinj.iterate _ heq)

/-- When the input word is the last of the `w` words `v, s v, …`, every error within `w` places in a
row is detected. -/
theorem run_ne_of_burst (hinj : Function.Injective s) {w : ℕ} {v : M} (hv : s^[w - 1] v = u)
    {place : ℕ → M →+ ZMod 2} (hplace : Coordinates s w v place) (m : M) {a b : List Bool}
    (hlen : a.length = b.length) (hne : a ≠ b) {start : ℕ}
    (hwindow : ∀ i ∈ differing a b, start ≤ i ∧ i < start + w) : run s u m a ≠ run s u m b := by
  obtain ⟨i₀, hi₀⟩ := differing_nonempty hlen hne
  rw [ne_eq, run_eq_run_iff h2 m hlen]
  intro hsum
  -- The places count back from the last one of the window that the inputs have.
  let last := min (start + w) a.length - 1
  have hi : ∀ i ∈ differing a b, start ≤ i ∧ i ≤ last ∧ last - i < w ∧ last < a.length := by
    intro i hid
    have := hwindow i hid
    have := (mem_differing.mp hid).1
    omega
  have hfactor : ∑ i ∈ differing a b, s^[a.length - i] u =
      s^[a.length - last + (w - 1)] (∑ i ∈ differing a b, s^[last - i] v) := by
    rw [iterate_sum]
    refine Finset.sum_congr rfl fun i hid => ?_
    have := hi i hid
    have hcount : a.length - i + (w - 1) = a.length - last + (w - 1) + (last - i) := by omega
    rw [← hv, ← Function.iterate_add_apply, ← Function.iterate_add_apply, hcount]
  have hzero : ∑ i ∈ differing a b, s^[last - i] v = 0 := by
    refine hinj.iterate (a.length - last + (w - 1)) ?_
    rw [← hfactor, hsum, iterate_map_zero]
  have hone : place (last - i₀) (∑ i ∈ differing a b, s^[last - i] v) = 1 := by
    calc place (last - i₀) (∑ i ∈ differing a b, s^[last - i] v)
        = ∑ i ∈ differing a b, place (last - i₀) (s^[last - i] v) := map_sum _ _ _
      _ = ∑ i ∈ differing a b, if i = i₀ then 1 else 0 := by
          refine Finset.sum_congr rfl fun i hid => ?_
          have := hi i hid
          have := hi i₀ hi₀
          rw [hplace.place_iterate _ (by omega) _ (by omega)]
          congr 1
          simp only [eq_iff_iff]
          omega
      _ = 1 := by simp [hi₀]
  rw [hzero, map_zero] at hone
  exact zero_ne_one hone

/-! ## Coordinates -/

/-- `y` goes through the register as often as the words that make up `x` did. -/
def times (s : M →+ M) (w : ℕ) (place : ℕ → M →+ ZMod 2) (x y : M) : M :=
  ∑ j ∈ Finset.range w, if place j x = 1 then s^[j] y else 0

/-- The number with these binary digits, the lowest first. -/
def count : List Bool → ℕ
  | [] => 0
  | digit :: digits => digit.toNat + 2 * count digits

def power (s : M →+ M) (w : ℕ) (v : M) (place : ℕ → M →+ ZMod 2) : List Bool → M
  | [] => v
  | digit :: digits => s^[digit.toNat] (times s w place (power s w v place digits) (power s w v place digits))

namespace Coordinates
variable {w : ℕ} {v : M} {place : ℕ → M →+ ZMod 2} (hc : Coordinates s w v place)
include hc

theorem times_self (x : M) : times s w place x v = x := by
  rw [eq_iff_add_eq_zero h2]
  refine hc.eq_zero _ fun i hi => ?_
  have hterm : ∀ j ∈ Finset.range w, place i (if place j x = 1 then s^[j] v else 0) =
      if i = j then (if place j x = 1 then 1 else 0) else 0 := by
    intro j hj
    split
    · rw [hc.place_iterate i hi j (Finset.mem_range.mp hj)]
    · rw [map_zero, ite_self]
  have hbit : ∀ z : ZMod 2, (if z = 1 then 1 else 0) + z = 0 := by decide
  rw [map_add, times, map_sum, Finset.sum_congr rfl hterm, Finset.sum_ite_eq, if_pos (Finset.mem_range.mpr hi), hbit]

/-- The first word alone tells what the register does with every other. -/
theorem iterate_eq_times (n : ℕ) (x : M) : s^[n] x = times s w place x (s^[n] v) := by
  have hterm : ∀ j, s^[n] (if place j x = 1 then s^[j] v else 0) = if place j x = 1 then s^[j] (s^[n] v) else 0 := by
    intro j
    split
    · rw [← Function.iterate_add_apply, ← Function.iterate_add_apply, Nat.add_comm]
    · exact iterate_map_zero s n
  calc s^[n] x = s^[n] (times s w place x v) := by rw [hc.times_self h2 x]
    _ = times s w place x (s^[n] v) := by simp only [times, iterate_sum, hterm]

theorem iterate_two_mul (n : ℕ) : s^[2 * n] v = times s w place (s^[n] v) (s^[n] v) := by
  rw [two_mul, Function.iterate_add_apply, hc.iterate_eq_times h2]

/-- Square and multiply gives the word after any number of steps. -/
theorem power_eq (digits : List Bool) : power s w v place digits = s^[count digits] v := by
  induction digits with
  | nil => rfl
  | cons digit digits ih =>
    rw [power, ih, ← hc.iterate_two_mul h2, ← Function.iterate_add_apply]
    rfl

theorem injective_of_period {n : ℕ} (hn : s^[n + 1] v = v) : Function.Injective s := by
  have hback : Function.LeftInverse s^[n] s := by
    intro x
    rw [← Function.iterate_succ_apply, hc.iterate_eq_times h2, hn, hc.times_self h2]
  exact hback.injective

/-- A parity that the shift keeps on the words `v, s v, …` is kept on all. -/
theorem map_shift {parity : M →+ ZMod 2} (hparity : ∀ j < w, parity (s^[j] (s v)) = parity (s^[j] v)) (m : M) :
    parity (s m) = parity m := by
  calc parity (s m) = parity (times s w place m (s v)) := by rw [← Function.iterate_one s, hc.iterate_eq_times h2 1 m]
    _ = parity (times s w place m v) := by
        rw [times, times, map_sum, map_sum]
        refine Finset.sum_congr rfl fun j hj => ?_
        split
        · exact hparity j (Finset.mem_range.mp hj)
        · rfl
    _ = parity m := by rw [hc.times_self h2]

end Coordinates

end SelfInverse

/-! ## Periods -/

/-- A word that comes back after `n` steps, and after no `n / p` steps for a prime `p`, does not come
back before. -/
theorem iterate_ne_of_lt {α : Type} {f : α → α} {x : α} {n : ℕ} (hx : f^[n] x = x)
    (hprime : ∀ p : ℕ, p.Prime → p ∣ n → f^[n / p] x ≠ x) {d : ℕ} (hd : 0 < d) (hdn : d < n) : f^[d] x ≠ x := by
  intro hback
  obtain ⟨k, hk⟩ := Function.IsPeriodicPt.minimalPeriod_dvd (show Function.IsPeriodicPt f n x from hx)
  have hle : Function.minimalPeriod f x ≤ d := Function.IsPeriodicPt.minimalPeriod_le hd hback
  have hk1 : k ≠ 1 := by
    intro h1
    rw [h1, mul_one] at hk
    omega
  obtain ⟨p, hp, l, hl⟩ := Nat.exists_prime_and_dvd hk1
  have hn : n = p * (Function.minimalPeriod f x * l) := by
    rw [hk, hl]
    ring
  refine hprime p hp ⟨_, hn⟩ ?_
  have hdiv : n / p = Function.minimalPeriod f x * l := by rw [hn, Nat.mul_div_cancel_left _ hp.pos]
  exact (Function.isPeriodicPt_iff_minimalPeriod_dvd.mpr ⟨l, hdiv⟩ : Function.IsPeriodicPt f (n / p) x)

end Register

end Chats.Lib
