import Chats.Lib.Run

/-! Queues that a system keeps. A step may put something in at the back and take something out at
the front; over a run, what was put in is what was taken out, in that order, and then the queue. -/
namespace Chats.Lib
set_option autoImplicit false

variable {σ ι α : Type}

/-- What the steps of a history gave, oldest first. -/
def given (f : σ → ι → Option α) : List (σ × ι) → List α
  | [] => []
  | (s, i) :: h => given f h ++ (f s i).toList

variable {step : σ → ι → σ → Prop} {s₀ s : σ} {h : List (σ × ι)}
  {queue : σ → List α} {puts takes : σ → ι → Option α}

theorem Run.fifo (h0 : queue s₀ = [])
    (hstep : ∀ s i s', step s i s' → queue s ++ (puts s i).toList = (takes s i).toList ++ queue s')
    (r : Run step s₀ h s) : given puts h = given takes h ++ queue s := by
  induction r with
  | start => exact h0.symm
  | @next h s s' i _ hs ih =>
    calc given puts ((s, i) :: h) = given takes h ++ queue s ++ (puts s i).toList := by rw [given, ih]
      _ = given takes h ++ ((takes s i).toList ++ queue s') := by rw [List.append_assoc, hstep s i s' hs]
      _ = given takes ((s, i) :: h) ++ queue s' := by rw [given, List.append_assoc]

end Chats.Lib
