import Mathlib

/-!
# Lines of a Stream

A stream is cut into lines by a terminator of two symbols, as `strstr` does on a text in memory:
from the first one on, and not beyond a symbol that ends the text.  What follows the last terminator
is the unfinished line.

## Main results

- `splitLines_append`: a stream can be read in two parts, with the unfinished line of the first part
  put before the second
- `splitLines_tail`: nothing is left to find in an unfinished line
- `length_lt_of_splitLines`: a text without a terminator is shorter than any line it can become,
  with its terminator
-/

namespace QModem.Lib

open List

variable {α : Type} [DecidableEq α] (nul cr lf : α)

/-- The lines of a stream, and the unfinished one. -/
def splitLines : List α → List (List α) × List α
  | [] => ([], [])
  | [c] => ([], [c])
  | c :: d :: rest =>
    if c = nul then ([], c :: d :: rest)
    else if c = cr ∧ d = lf then ([] :: (splitLines rest).1, (splitLines rest).2)
    else
      match splitLines (d :: rest) with
      | (line :: lines, tail) => ((c :: line) :: lines, tail)
      | ([], tail) => ([], c :: tail)

variable {nul cr lf}

theorem splitLines_nul {rest : List α} : splitLines nul cr lf (nul :: rest) = ([], nul :: rest) := by
  cases rest with
  | nil => rfl
  | cons d rest => rw [splitLines, if_pos rfl]

theorem splitLines_terminator (hcr : cr ≠ nul) (rest : List α) :
    splitLines nul cr lf (cr :: lf :: rest) =
      ([] :: (splitLines nul cr lf rest).1, (splitLines nul cr lf rest).2) := by
  rw [splitLines, if_neg hcr, if_pos ⟨rfl, rfl⟩]

theorem splitLines_cons {c d : α} {rest : List α} (hc : c ≠ nul) (hterm : ¬ (c = cr ∧ d = lf)) :
    splitLines nul cr lf (c :: d :: rest) =
      match splitLines nul cr lf (d :: rest) with
      | (line :: lines, tail) => ((c :: line) :: lines, tail)
      | ([], tail) => ([], c :: tail) := by
  rw [splitLines, if_neg hc, if_neg hterm]

variable {s : List α}

/-- Without a line, everything is left. -/
theorem splitLines_eq_of_nil (h : (splitLines nul cr lf s).1 = []) :
    splitLines nul cr lf s = ([], s) := by
  fun_induction splitLines nul cr lf s with
  | case1 => rfl
  | case2 c => rfl
  | case3 d rest => rfl
  | case4 c d rest hc hterm ih => cases h
  | case5 c d rest hc hterm line lines tail hrest ih => cases h
  | case6 c d rest hc hterm tail hrest ih =>
    rw [hrest] at ih
    cases ih rfl
    rfl

/-- Reading a stream in two parts. -/
theorem splitLines_append (s t : List α) :
    splitLines nul cr lf (s ++ t) =
      ((splitLines nul cr lf s).1 ++
          (splitLines nul cr lf ((splitLines nul cr lf s).2 ++ t)).1,
        (splitLines nul cr lf ((splitLines nul cr lf s).2 ++ t)).2) := by
  fun_induction splitLines nul cr lf s with
  | case1 => rfl
  | case2 c => rfl
  | case3 d rest => rfl
  | case4 c d rest hc hterm ih =>
    obtain ⟨rfl, rfl⟩ := hterm
    rw [cons_append, cons_append, splitLines_terminator hc, ih]
    rfl
  | case5 c d rest hc hterm line lines tail hrest ih =>
    rw [hrest, cons_append] at ih
    rw [cons_append, cons_append, splitLines_cons hc hterm, ih]
    rfl
  -- no line has ended yet, so everything is left for the next time
  | case6 c d rest hc hterm tail hrest ih =>
    have hall := splitLines_eq_of_nil (s := d :: rest) (by rw [hrest])
    rw [hrest] at hall
    obtain rfl : tail = d :: rest := congrArg Prod.snd hall
    rfl

/-- A text without a line does not begin with one. -/
theorem splitLines_nil_of_append {t : List α} (h : (splitLines nul cr lf (s ++ t)).1 = []) :
    (splitLines nul cr lf s).1 = [] := by
  rw [splitLines_append] at h
  exact (append_eq_nil_iff.mp h).1

/-- An unfinished line has no terminator. -/
theorem splitLines_tail (s : List α) :
    splitLines nul cr lf (splitLines nul cr lf s).2 = ([], (splitLines nul cr lf s).2) := by
  have happend := @splitLines_append α _ nul cr lf s []
  refine splitLines_eq_of_nil ?_
  have hlines := congrArg Prod.fst happend
  simpa using hlines

/-- The stream is its lines with their terminators, and the unfinished one. -/
theorem eq_of_splitLines (s : List α) :
    s = ((splitLines nul cr lf s).1.map (· ++ [cr, lf])).flatten ++ (splitLines nul cr lf s).2 := by
  fun_induction splitLines nul cr lf s with
  | case1 => rfl
  | case2 c => rfl
  | case3 d rest => rfl
  -- a line ends here
  | case4 c d rest hc hterm ih =>
    obtain ⟨rfl, rfl⟩ := hterm
    exact congrArg (c :: d :: ·) ih
  | case5 c d rest hc hterm line lines tail hrest ih =>
    rw [hrest] at ih
    exact congrArg (c :: ·) ih
  | case6 c d rest hc hterm tail hrest ih =>
    rw [hrest] at ih
    exact congrArg (c :: ·) ih

theorem length_of_splitLines (s : List α) :
    s.length = ((splitLines nul cr lf s).1.map (·.length + 2)).sum +
      (splitLines nul cr lf s).2.length := by
  conv_lhs => rw [@eq_of_splitLines α _ nul cr lf s]
  rw [length_append, length_flatten, map_map]
  congr 3
  funext line
  simp

theorem mem_of_mem_tail {c : α} (h : c ∈ (splitLines nul cr lf s).2) : c ∈ s := by
  rw [@eq_of_splitLines α _ nul cr lf s]
  exact mem_append_right _ h

/-- A text without a terminator is shorter than a line it begins. -/
theorem length_lt_of_splitLines {t line : List α} {lines : List (List α)}
    (hs : (splitLines nul cr lf s).1 = [])
    (hline : (splitLines nul cr lf (s ++ t)).1 = line :: lines) : s.length < line.length + 2 := by
  fun_induction splitLines nul cr lf s generalizing line with
  | case1 => exact Nat.succ_pos _
  | case2 c => exact Nat.succ_lt_succ (Nat.succ_pos _)
  | case3 d rest =>
    rw [cons_append, splitLines_nul] at hline
    cases hline
  | case4 c d rest hc hterm ih => cases hs
  | case5 c d rest hc hterm first lines tail hrest ih => cases hs
  | case6 c d rest hc hterm tail hrest ih =>
    rw [cons_append, cons_append, splitLines_cons hc hterm] at hline
    -- The first line of the rest is one shorter.
    split at hline
    · next line' lines' tail' hsplit =>
      obtain ⟨rfl, rfl⟩ := cons_eq_cons.mp hline
      have hlt := ih (by rw [hrest]) (congrArg Prod.fst hsplit)
      exact Nat.succ_lt_succ hlt
    · cases hline

end QModem.Lib
