import Mathlib.Data.List.DropRight

namespace AqEngine.Lib

open List

variable {α σ τ ι ω : Type} {n : Nat}

def room (n : Nat) (queue : List α) : List α := if queue.length = n then queue.tail else queue

/-- The window over the last `n` items makes room before another one enters. -/
theorem rtake_concat (hn : 0 < n) (l : List α) (x : α) :
    (l ++ [x]).rtake n = room n (l.rtake n) ++ [x] := by
  cases n with
  | zero => omega
  | succ n =>
    rw [rtake_concat_succ, room]
    unfold rtake
    rw [length_drop]
    split
    · rw [tail_drop]
      congr 2
      omega
    · congr 2
      omega

/-- The last state of a machine and its answer to every input. -/
def process (next : σ → ι → σ × ω) : σ → List ι → σ × List ω
  | s, [] => (s, [])
  | s, i :: l =>
    let (s, o) := next s i
    let (s, os) := process next s l
    (s, o :: os)

variable {next : σ → ι → σ × ω} {next' : τ → ι → τ × ω}

theorem process_append (s : σ) (l m : List ι) :
    process next s (l ++ m) = ((process next (process next s l).1 m).1,
      (process next s l).2 ++ (process next (process next s l).1 m).2) := by
  induction l generalizing s with
  | nil => rfl
  | cons i l ih => simp only [cons_append, process, ih]

/-- A machine that is another one seen through `f` answers as that one does. -/
theorem process_map {f : τ → σ} (h : ∀ t i, next (f t) i = (next' t i).map f id) (t : τ)
    (l : List ι) : process next (f t) l = (process next' t l).map f id := by
  induction l generalizing t with
  | nil => rfl
  | cons i l ih => simp [process, h, ih]

end AqEngine.Lib
