/-
# The characters that are read of a text

A text is read line by line, but what is read can be told from its characters alone: a
carriage return is dropped where only carriage returns stand between it and the end of its
line, and a last line that was begun gets a line feed (`heard`, `charsOf_lines`).  So what is
read of a text whose beginning has no carriage returns is that beginning, and then what is read
of the rest.
-/

import SquareDance.CallText.Place

namespace SquareDance
namespace CallText

/-- Only carriage returns stand before the end of the line. -/
def endsLine (cs : List Char) : Bool :=
  match cs.dropWhile (· = '\r') with
  | [] => true
  | c :: _ => c = '\n'

/-- The characters that are read of a text; `begun` says that the first line has begun. -/
def heard (begun : Bool) : List Char → List Char
  | [] => if begun then ['\n'] else []
  | c :: rest =>
    if c = '\n' then '\n' :: heard false rest
    else if c = '\r' ∧ endsLine rest = true then heard true rest
    else c :: heard true rest

/-- A carriage return ends a line if what is behind it does. -/
@[simp] theorem endsLine_return (cs : List Char) : endsLine ('\r' :: cs) = endsLine cs := by
  simp [endsLine]

/-- Another character ends a line only if it is a line feed. -/
theorem endsLine_cons {c : Char} (hc : c ≠ '\r') (cs : List Char) :
    endsLine (c :: cs) = decide (c = '\n') := by
  simp [endsLine, hc]

/-- A line feed is read, and the next line has not begun. -/
theorem heard_lineFeed (begun : Bool) (cs : List Char) :
    heard begun ('\n' :: cs) = '\n' :: heard false cs := by
  rw [heard, if_pos rfl]

/-- A character that ends no line is read. -/
theorem heard_cons {c : Char} (hfeed : c ≠ '\n') (hreturn : c ≠ '\r') (begun : Bool)
    (cs : List Char) : heard begun (c :: cs) = c :: heard true cs := by
  rw [heard, if_neg hfeed, if_neg fun h => hreturn h.1]

/-- A carriage return is dropped at the end of a line and read elsewhere. -/
theorem heard_return (begun : Bool) (cs : List Char) : heard begun ('\r' :: cs)
    = if endsLine cs = true then heard true cs else '\r' :: heard true cs := by
  rw [heard, if_neg (by decide)]
  simp only [true_and]

/-- At the end of a line that was begun, a line feed is read. -/
theorem heard_of_endsLine {cs : List Char} (h : endsLine cs = true) :
    ∃ rest, heard true cs = '\n' :: rest := by
  induction cs with
  | nil => exact ⟨[], rfl⟩
  | cons c cs ih =>
    by_cases hreturn : c = '\r'
    · subst hreturn
      rw [endsLine_return] at h
      rw [heard_return, if_pos h]
      exact ih h
    · rw [endsLine_cons hreturn, decide_eq_true_eq] at h
      subst h
      exact ⟨_, heard_lineFeed true cs⟩

/-! ### Lines -/

/-- A line of which nothing but carriage returns is to come has only those it had before. -/
theorem lineOf_return (reversed : List Char) : lineOf ('\r' :: reversed) = lineOf reversed := by
  simp [lineOf]

/-- A line that ends in no carriage return is read as it is. -/
theorem lineOf_cons {c : Char} (hc : c ≠ '\r') (reversed : List Char) :
    lineOf (c :: reversed) = (c :: reversed).reverse := by
  simp [lineOf, hc]

/-- What is read of a text whose first line has begun. -/
theorem charsOf_linesFrom (reversed cs : List Char) : charsOf (linesFrom reversed cs)
    = (if endsLine cs = true then lineOf reversed else reversed.reverse)
      ++ heard (!reversed.isEmpty) cs := by
  induction cs generalizing reversed with
  | nil =>
    cases reversed with
    | nil => rfl
    | cons c reversed => simp [linesFrom, charsOf, endsLine, heard]
  | cons c cs ih =>
    rw [linesFrom]
    by_cases hfeed : c = '\n'
    · subst hfeed
      have hline : charsOf (lineOf reversed :: linesFrom [] cs)
          = lineOf reversed ++ '\n' :: charsOf (linesFrom [] cs) := by
        simp [charsOf]
      have hnil : (if endsLine cs = true then lineOf [] else ([] : List Char).reverse) = [] := by
        split <;> rfl
      rw [if_pos rfl, hline, ih [], hnil, endsLine_cons (by decide), heard_lineFeed]
      simp
    · rw [if_neg hfeed, ih (c :: reversed)]
      by_cases hreturn : c = '\r'
      · subst hreturn
        rw [endsLine_return, lineOf_return, heard_return]
        by_cases hends : endsLine cs = true
        · simp [hends]
        · simp [hends]
      · rw [endsLine_cons hreturn, heard_cons hfeed hreturn, lineOf_cons hreturn]
        simp [hfeed]

/-- **What is read of the lines of a text** can be told from its characters. -/
theorem charsOf_lines (text : String) : charsOf (lines text) = heard false text.toList := by
  rw [lines, charsOf_linesFrom]
  split <;> rfl

end CallText
end SquareDance
