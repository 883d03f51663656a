import AqEngine.Lib.Window
import Mathlib

namespace AqEngine.Indicators

open Lib List Function

abbrev Values := Fin 4 → Option ℚ

/-- A row of a frame: its time and the bits of its input columns. -/
structure Bar where
  timestamp : Option ℤ
  values : Fin 4 → Option UInt64
deriving DecidableEq

structure Stream (K : Type) where
  kernel : K
  last : Option Bar

inductive Request where
  | seed (key : String) (df : List Bar)
  | update (key : String) (history incoming : List Bar)
  | reset (key : String)

/-- A valid kind, by its new kernel and the step of a kernel over a row. -/
structure Calculator (K : Type) where
  kernel : K
  next : K → Values → K × Values
  finite : UInt64 → Option ℚ

namespace Calculator

variable {K : Type} (c : Calculator K)

def compute (kernel : K) (df : List Bar) : K × List Values :=
  process c.next kernel (df.map fun bar i => (bar.values i).bind c.finite)

def run (df : List Bar) : List Values := (c.compute c.kernel df).2

def runBar (rows : Nat) (df : List Bar) : Option Values := (c.run (df.rtake rows)).getLast?

def stream (df : List Bar) : Stream K := ⟨(c.compute c.kernel df).1, df.getLast?⟩

/-- A stream goes on from where it stopped if that is the last row of the
history, and is built again from the whole history otherwise. -/
def serve (streams : String → Option (Stream K)) :
    Request → (String → Option (Stream K)) × List Values
  | .seed key df => (update streams key (c.stream df), c.run df)
  | .update key history incoming =>
    let stream := ((streams key).filter (·.last = history.getLast?)).getD (c.stream history)
    let (kernel, values) := c.compute stream.kernel incoming
    (update streams key (some ⟨kernel, incoming.getLast?.or stream.last⟩), values)
  | .reset key => (update streams key none, [])

/-- The rows of every stream are kept, and each request runs over all of them. -/
def batch (rows : String → Option (List Bar)) :
    Request → (String → Option (List Bar)) × List Values
  | .seed key df => (update rows key df, c.run df)
  | .update key history incoming =>
    let base := ((rows key).filter (·.getLast? = history.getLast?)).getD history
    (update rows key (some (base ++ incoming)), (c.run (base ++ incoming)).drop (c.run base).length)
  | .reset key => (update rows key none, [])

theorem compute_stream (df incoming : List Bar) :
    c.compute (c.stream df).kernel incoming =
      ((c.stream (df ++ incoming)).kernel, (c.run (df ++ incoming)).drop (c.run df).length) := by
  simp only [run, stream, compute, map_append, process_append, drop_left]

theorem serve_map (rows : String → Option (List Bar)) (request : Request) :
    c.serve (Option.map c.stream ∘ rows) request =
      (c.batch rows request).map (Option.map c.stream ∘ ·) id := by
  cases request with
  | seed | reset => simp [serve, batch, comp_update]
  | update key history incoming =>
    simp only [serve, batch, comp_apply, Option.filter_map, Option.getD_map, compute_stream,
      Prod.map, comp_update, Option.map_some]
    simp only [stream, getLast?_append]
    rfl

/-- Every answer is that of a run over all rows its stream has taken in. -/
theorem streams_refine_batch (requests : List Request) :
    (process c.serve (fun _ => none) requests).2 = (process c.batch (fun _ => none) requests).2 :=
  congrArg Prod.snd (process_map c.serve_map (fun _ => none) requests)

end Calculator

open Calculator

/-- Rolling moments in exact arithmetic, which never leaves the finite range. -/
structure Moments where
  period : Nat
  queue : List (Option ℚ)
  count : Nat
  mean : ℚ
  m2 : ℚ

namespace Moments

def evict (m : Moments) : Moments :=
  if m.queue.length = m.period then
    match m.queue with
    | some old :: queue =>
      if m.count ≤ 1 then { m with queue, count := 0, mean := 0, m2 := 0 }
      else
        let mean := m.mean - (old - m.mean) / (m.count - 1 : Nat)
        let m2 := max (m.m2 - (old - m.mean) * (old - mean)) 0
        { m with queue, count := m.count - 1, mean, m2 }
    | queue => { m with queue := queue.tail }
  else m

def push (m : Moments) : Option ℚ → Moments
  | some value =>
    let mean := m.mean + (value - m.mean) / (m.count + 1 : Nat)
    let m2 := m.m2 + (value - m.mean) * (value - mean)
    { m with queue := m.queue ++ [some value], count := m.count + 1, mean, m2 }
  | none => { m with queue := m.queue ++ [none] }

def next (sqrt : ℚ → ℚ) (m : Moments) (value : Option ℚ) : Moments × Option (ℚ × ℚ) :=
  let m := m.evict.push value
  (m, if m.count = m.period then some (m.mean, sqrt (max m.m2 0 / m.period)) else none)

end Moments

def spread (w : List ℚ) : ℚ := (w.map fun x => (x - w.sum / w.length) ^ 2).sum

theorem sum_sq_sub (w : List ℚ) (c : ℚ) :
    (w.map fun x => (x - c) ^ 2).sum = (w.map (· ^ 2)).sum - 2 * c * w.sum + w.length * c ^ 2 := by
  induction w with
  | nil => simp
  | cons x w ih =>
    simp only [map_cons, sum_cons, ih, length_cons, Nat.cast_succ]
    ring

theorem spread_eq (w : List ℚ) : spread w = (w.map (· ^ 2)).sum - w.sum ^ 2 / w.length := by
  rw [spread, sum_sq_sub]
  cases w with
  | nil => simp
  | cons x w =>
    rw [length_cons, Nat.cast_succ]
    field_simp
    ring

theorem spread_nonneg (w : List ℚ) : 0 ≤ spread w := by
  apply sum_nonneg
  simp [sq_nonneg]

def holding (p : Nat) (q : List (Option ℚ)) : Moments :=
  let w := q.reduceOption
  ⟨p, q, w.length, w.sum / w.length, spread w⟩

theorem evict_holding (p : Nat) (q : List (Option ℚ)) :
    (holding p q).evict = holding p (room p q) := by
  rw [room]
  split
  next h =>
    refine (if_pos h).trans ?_
    obtain _ | ⟨_ | old, q⟩ := q
    · rfl
    · simp [holding]
    simp only [holding, reduceOption_cons_of_some, tail_cons]
    cases q.reduceOption with
    | nil => simp [spread]
    | cons x w =>
      rw [if_neg (by simp), ← max_eq_left (spread_nonneg (x :: w)), spread_eq, spread_eq]
      simp only [sum_cons, map_cons, length_cons, Nat.add_sub_cancel, Nat.cast_succ]
      congr 2 <;> field_simp <;> ring
  next h => exact if_neg h

theorem push_holding (p : Nat) (q : List (Option ℚ)) (x : Option ℚ) :
    (holding p q).push x = holding p (q ++ [x]) := by
  cases x with
  | none => simp [holding, Moments.push, reduceOption_append]
  | some x =>
    simp only [holding, Moments.push, reduceOption_append, reduceOption_singleton, spread_eq]
    cases q.reduceOption with
    | nil => simp
    | cons y w => congr 1 <;> simp <;> field_simp <;> ring

/-- A kind that `validate` accepts, with how roots and cells are read. -/
structure Bands where
  p : Nat
  d : ℚ
  valid : 1 ≤ p ∧ p ≤ 1000000 ∧ 0 < d
  sqrt : ℚ → ℚ
  finite : UInt64 → Option ℚ

namespace Bands

variable (b : Bands)

def band : Option (ℚ × ℚ) → Values
  | some (mean, std) => ![mean, mean + b.d * std, mean - b.d * std, none]
  | none => fun _ => none

def calculator : Calculator Moments where
  kernel := ⟨b.p, [], 0, 0, 0⟩
  next m row := (m.next b.sqrt (row 0)).map id b.band
  finite := b.finite

/-- The mean of the last `p` values and the bands around it, once none of the
values is missing. -/
def textbook (l : List (Option ℚ)) : Values :=
  let w := (l.rtake b.p).reduceOption
  b.band (if w.length = b.p then some (w.sum / b.p, b.sqrt (spread w / b.p)) else none)

def closes (df : List Bar) : List (Option ℚ) :=
  df.map fun bar => (bar.values 0).bind b.calculator.finite

theorem next_holding (l : List (Option ℚ)) (row : Values) :
    b.calculator.next (holding b.p (l.rtake b.p)) row =
      (holding b.p ((l ++ [row 0]).rtake b.p), b.textbook (l ++ [row 0])) := by
  simp only [calculator, textbook, Moments.next, Prod.map, evict_holding, push_holding,
    ← rtake_concat b.valid.1]
  by_cases h : ((l ++ [row 0]).rtake b.p).reduceOption.length = b.p <;>
    simp [holding, h, spread_nonneg]

theorem compute_bands (df : List Bar) :
    (b.calculator.compute ⟨b.p, [], 0, 0, 0⟩ df).1 = holding b.p ((b.closes df).rtake b.p) := by
  induction df using reverseRecOn with
  | nil => simp [compute, process, holding, spread, closes]
  | append_singleton df bar ih =>
    rw [compute] at ih
    simp [compute, process_append, process, ih, next_holding, closes]

/-- A complete run and one over the last `p` rows both end with the bands of
the last `p` values. -/
theorem bands_exact (df : List Bar) (bar : Bar) :
    (b.calculator.run (df ++ [bar])).getLast? = some (b.textbook (b.closes (df ++ [bar]))) ∧
      b.calculator.runBar b.p (df ++ [bar]) = some (b.textbook (b.closes (df ++ [bar]))) := by
  have hrun : ∀ df, (b.calculator.run (df ++ [bar])).getLast? =
      some (b.textbook (b.closes (df ++ [bar]))) := by
    intro df
    have hk : (process _ b.calculator.kernel _).1 = _ := b.compute_bands df
    simp [run, compute, process_append, process, hk, next_holding, closes]
  have ht : (b.closes ((df ++ [bar]).rtake b.p)).rtake b.p =
      (b.closes (df ++ [bar])).rtake b.p := by
    simp only [closes, rtake, map_drop, length_drop, length_map, drop_drop]
    congr 1
    omega
  refine ⟨hrun df, ?_⟩
  rw [runBar, rtake_concat b.valid.1, hrun, ← rtake_concat b.valid.1, textbook, ht, textbook]

end Bands

end AqEngine.Indicators
