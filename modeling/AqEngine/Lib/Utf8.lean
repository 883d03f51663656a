import Mathlib.Algebra.BigOperators.Group.List.Basic
import Mathlib.Tactic.Linarith

namespace AqEngine.Lib.Utf8

open List

variable {s a b : List Char} {n m : Nat}

def byteSize (s : List Char) : Nat := (s.map Char.utf8Size).sum

variable {size : Nat}

@[simp] theorem byteSize_nil : byteSize [] = 0 := rfl

@[simp] theorem byteSize_cons (c : Char) (s : List Char) :
    byteSize (c :: s) = c.utf8Size + byteSize s := by
  simp [byteSize]

@[simp] theorem byteSize_append (a b : List Char) :
    byteSize (a ++ b) = byteSize a + byteSize b := by
  simp [byteSize]

theorem byteSize_pos (h : s ≠ []) : 0 < byteSize s := by
  cases s with
  | nil => exact absurd rfl h
  | cons c s =>
    exact Nat.add_pos_left c.utf8Size_pos _

theorem utf8ByteSize_ofList (s : List Char) : (String.ofList s).utf8ByteSize = byteSize s := by
  induction s with
  | nil => simp
  | cons c s ih =>
    rw [String.ofList_cons, String.utf8ByteSize_append, String.utf8ByteSize_singleton, ih,
      byteSize_cons]

theorem byteSize_toList (s : String) : byteSize s.toList = s.utf8ByteSize := by
  rw [← utf8ByteSize_ofList, String.ofList_toList]

/-- The text in front of byte `n` and the text after it, when a character
starts at `n` or the text ends there. -/
def splitAt : List Char → Nat → Option (List Char × List Char)
  | s, 0 => some ([], s)
  | [], _ + 1 => none
  | c :: s, n + 1 =>
    if c.utf8Size ≤ n + 1 then (splitAt s (n + 1 - c.utf8Size)).map fun p => (c :: p.1, p.2)
    else none

theorem splitAt_append (a b : List Char) : splitAt (a ++ b) (byteSize a) = some (a, b) := by
  induction a with
  | nil => cases b <;> rfl
  | cons c a ih =>
    obtain ⟨n, hn⟩ : ∃ n, byteSize (c :: a) = n + 1 :=
      Nat.exists_eq_succ_of_ne_zero (byteSize_pos (cons_ne_nil c a)).ne'
    have hrest : n + 1 - c.utf8Size = byteSize a := by
      rw [← hn, byteSize_cons]
      omega
    have hle : c.utf8Size ≤ n + 1 := by
      rw [← hn]
      exact Nat.le_add_right _ _
    rw [hn, cons_append, splitAt, if_pos hle, hrest, ih]
    rfl

theorem splitAt_eq_some (h : splitAt s n = some (a, b)) : s = a ++ b ∧ byteSize a = n := by
  induction s generalizing n a b with
  | nil =>
    cases n with
    | zero =>
      cases h
      exact ⟨rfl, rfl⟩
    | succ n => cases h
  | cons c s ih =>
    cases n with
    | zero =>
      cases h
      exact ⟨rfl, rfl⟩
    | succ n =>
      rw [splitAt] at h
      split at h
      case isTrue hle =>
        obtain ⟨⟨front, back⟩, hsp, heq⟩ := Option.map_eq_some_iff.1 h
        cases heq
        obtain ⟨rfl, hs⟩ := ih hsp
        refine ⟨rfl, ?_⟩
        rw [byteSize_cons, hs]
        omega
      case isFalse => cases h

def isCharBoundary (s : List Char) (n : Nat) : Bool := (splitAt s n).isSome

theorem isCharBoundary_iff : isCharBoundary s n = true ↔ ∃ a b, s = a ++ b ∧ byteSize a = n := by
  constructor
  · intro h
    obtain ⟨⟨a, b⟩, hs⟩ := Option.isSome_iff_exists.1 h
    exact ⟨a, b, splitAt_eq_some hs⟩
  · rintro ⟨a, b, rfl, rfl⟩
    rw [isCharBoundary, splitAt_append]
    rfl

/-- The part of a text from byte `start` to byte `stop`. There is none when
one of them lies within a character. -/
def slice (s : List Char) (start stop : Nat) : Option (List Char) :=
  if start ≤ stop then
    (splitAt s start).bind fun p => (splitAt p.2 (stop - start)).map (·.1)
  else none

theorem slice_append (a b c : List Char) :
    slice (a ++ (b ++ c)) (byteSize a) (byteSize a + byteSize b) = some b := by
  rw [slice, if_pos (Nat.le_add_right _ _), splitAt_append, Option.bind_some,
    Nat.add_sub_cancel_left, splitAt_append]
  rfl

/-- The last boundary that is not after `n`. -/
def backOff (s : List Char) : Nat → Nat
  | 0 => 0
  | n + 1 => if isCharBoundary s (n + 1) then n + 1 else backOff s n

theorem backOff_le (s : List Char) (n : Nat) : backOff s n ≤ n := by
  induction n with
  | zero => exact le_rfl
  | succ n ih =>
    rw [backOff]
    split
    · exact le_rfl
    · exact Nat.le_succ_of_le ih

theorem isCharBoundary_zero (s : List Char) : isCharBoundary s 0 = true :=
  isCharBoundary_iff.2 ⟨[], s, rfl, rfl⟩

theorem isCharBoundary_backOff (s : List Char) (n : Nat) :
    isCharBoundary s (backOff s n) = true := by
  induction n with
  | zero => exact isCharBoundary_zero s
  | succ n ih =>
    rw [backOff]
    split
    case isTrue h => exact h
    case isFalse => exact ih

theorem le_backOff (hm : isCharBoundary s m = true) (h : m ≤ n) : m ≤ backOff s n := by
  induction n with
  | zero => exact h
  | succ n ih =>
    rw [backOff]
    by_cases heq : m = n + 1
    · subst heq
      rw [if_pos hm]
    have hle := ih (by omega)
    split
    · exact h
    · exact hle

/-- A character has at most four bytes, so a boundary is near every position. -/
theorem exists_boundary (h : n ≤ byteSize s) :
    ∃ m, isCharBoundary s m = true ∧ m ≤ n ∧ n < m + 4 := by
  suffices ∃ a b, s = a ++ b ∧ byteSize a ≤ n ∧ n < byteSize a + 4 by
    obtain ⟨a, b, hs, hle, hlt⟩ := this
    exact ⟨byteSize a, isCharBoundary_iff.2 ⟨a, b, hs, rfl⟩, hle, hlt⟩
  induction s generalizing n with
  | nil =>
    have hn : n = 0 := Nat.le_zero.1 h
    exact ⟨[], [], rfl, by simp, by simp [hn]⟩
  | cons c s ih =>
    have hf := c.utf8Size_le_four
    by_cases hc : c.utf8Size ≤ n
    · rw [byteSize_cons] at h
      obtain ⟨a, b, rfl, hle, hlt⟩ := ih (n := n - c.utf8Size) (by omega)
      refine ⟨c :: a, b, rfl, ?_, ?_⟩
      · rw [byteSize_cons]
        omega
      · rw [byteSize_cons]
        omega
    · refine ⟨[], c :: s, rfl, Nat.zero_le n, ?_⟩
      omega

theorem lt_backOff_add (h : n ≤ byteSize s) : n < backOff s n + 4 := by
  obtain ⟨m, hm, hle, hlt⟩ := exists_boundary h
  have := le_backOff hm hle
  omega

/-- The loop that cuts a text into pieces of at most `size` bytes, from byte
`start` on. There is no result when it would cut within a character, or when
the fuel does not suffice. -/
def cut (s : List Char) (size : Nat) : Nat → Nat → Option (List (List Char))
  | 0, start => if start < byteSize s then none else some []
  | fuel + 1, start =>
    if start < byteSize s then do
      let stop := backOff s (min (start + size) (byteSize s))
      let body ← slice s start stop
      let rest ← cut s size fuel stop
      some (body :: rest)
    else some []

structure Pieces (size : Nat) (s : List Char) (bodies : List (List Char)) : Prop where
  joined : bodies.flatten = s
  nonempty : ∀ body ∈ bodies, body ≠ []
  bounded : ∀ body ∈ bodies, byteSize body ≤ size
  count : bodies.length * (size - 3) < byteSize s + (size - 3)

theorem Pieces.cons {body rest : List Char} {bodies : List (List Char)}
    (h : Pieces size rest bodies) (hne : body ≠ [])
    (hb : byteSize body ≤ size) (hf : rest = [] ∨ size - 3 ≤ byteSize body) :
    Pieces size (body ++ rest) (body :: bodies) where
  joined := by rw [flatten_cons, h.joined]
  nonempty := forall_mem_cons.2 ⟨hne, h.nonempty⟩
  bounded := forall_mem_cons.2 ⟨hb, h.bounded⟩
  count := by
    have hc := h.count
    have hpos := byteSize_pos hne
    rw [length_cons, byteSize_append, Nat.succ_mul]
    obtain rfl | hf := hf
    · -- the last piece: nothing is left for further pieces
      have hz : bodies.length = 0 := by
        by_contra hl
        have ho : 1 * (size - 3) ≤ bodies.length * (size - 3) :=
          Nat.mul_le_mul_right _ (Nat.pos_of_ne_zero hl)
        rw [byteSize_nil] at hc
        omega
      rw [hz, byteSize_nil]
      omega
    · omega

/-- One pass cuts off a piece that is not empty, and only the last piece is
more than three bytes short of `size`. -/
theorem backOff_piece (hsi : 4 ≤ size) (hb : b ≠ []) : ∃ body rest, b = body ++ rest ∧
      backOff (a ++ b) (min (byteSize a + size) (byteSize (a ++ b))) = byteSize a + byteSize body ∧
      body ≠ [] ∧ byteSize body ≤ size ∧ (rest = [] ∨ size - 3 ≤ byteSize body) := by
  have hpos := byteSize_pos hb
  have ht := byteSize_append a b
  have hw : isCharBoundary (a ++ b) (byteSize (a ++ b)) = true :=
    isCharBoundary_iff.2 ⟨a ++ b, [], (append_nil _).symm, rfl⟩
  have hn := lt_backOff_add (s := a ++ b) (Nat.min_le_right (byteSize a + size) _)
  have hle := backOff_le (a ++ b) (min (byteSize a + size) (byteSize (a ++ b)))
  have hal (hf : byteSize (a ++ b) ≤ byteSize a + size) : byteSize (a ++ b) ≤
      backOff (a ++ b) (min (byteSize a + size) (byteSize (a ++ b))) :=
    le_backOff hw (by rw [Nat.min_eq_right hf])
  obtain ⟨front, rest, hs, hfr⟩ := isCharBoundary_iff.1
    (isCharBoundary_backOff (a ++ b) (min (byteSize a + size) (byteSize (a ++ b))))
  rw [← hfr] at hn hle hal ⊢
  -- the piece starts where `a` ends, because the boundary found lies after it
  obtain ⟨body, rfl, rfl⟩ : ∃ body, front = a ++ body ∧ b = body ++ rest := by
    obtain ⟨body, hbo, hrest⟩ | ⟨body, ha, -⟩ := append_eq_append_iff.1 hs
    · exact ⟨body, hbo, hrest⟩
    have hsu := byteSize_append front body
    rw [← ha] at hsu
    by_cases hf : byteSize (a ++ b) ≤ byteSize a + size
    · omega
    · omega
  have hrest := byteSize_append body rest
  rw [byteSize_append a body] at hn hle hal ⊢
  refine ⟨body, rest, rfl, rfl, ?_, by omega, ?_⟩
  · rintro rfl
    rw [byteSize_nil] at hn hal
    by_cases hf : byteSize (a ++ ([] ++ rest)) ≤ byteSize a + size
    · omega
    · omega
  · by_cases hf : byteSize (a ++ (body ++ rest)) ≤ byteSize a + size
    · left
      by_contra hne
      have := byteSize_pos hne
      omega
    · right
      omega

theorem pieces_nil (hs : 4 ≤ size) : Pieces size [] [] where
  joined := rfl
  nonempty := by simp
  bounded := by simp
  count := by
    rw [byteSize_nil, length_nil]
    omega

theorem cut_end (size fuel : Nat) (s : List Char) : cut s size fuel (byteSize s) = some [] := by
  cases fuel <;> rw [cut, if_neg (Nat.lt_irrefl _)]

/-- Every pass moves on by a character at least, so the loop ends. -/
theorem cut_eq_some (hs : 4 ≤ size) (a b : List Char) (fuel : Nat) (hf : byteSize b ≤ fuel) :
    ∃ bodies, cut (a ++ b) size fuel (byteSize a) = some bodies ∧ Pieces size b bodies := by
  induction fuel generalizing a b with
  | zero =>
    have hb : b = [] := by
      by_contra hne
      have := byteSize_pos hne
      omega
    subst hb
    rw [append_nil]
    exact ⟨[], cut_end size 0 a, pieces_nil hs⟩
  | succ fuel ih =>
    by_cases hb : b = []
    · subst hb
      rw [append_nil]
      exact ⟨[], cut_end size (fuel + 1) a, pieces_nil hs⟩
    have hlt : byteSize a < byteSize (a ++ b) := by
      have := byteSize_pos hb
      rw [byteSize_append]
      omega
    obtain ⟨body, rest, rfl, hst, hne, hbody, hfu⟩ := backOff_piece (a := a) hs hb
    have hf' : byteSize rest ≤ fuel := by
      have := byteSize_pos hne
      rw [byteSize_append] at hf
      omega
    obtain ⟨bodies, hbo, hp⟩ := ih (a ++ body) rest hf'
    refine ⟨body :: bodies, ?_, hp.cons hne hbody hfu⟩
    rw [append_assoc, byteSize_append a body] at hbo
    rw [cut, if_pos hlt]
    simp only [hst, slice_append, hbo]
    rfl

end AqEngine.Lib.Utf8
