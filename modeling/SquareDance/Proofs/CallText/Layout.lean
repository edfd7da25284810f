/-
# Layouts of tokens

A list of tokens can be laid out with anything between the tokens that is skipped when they are
read: characters up to the space, comments to the end of the line and comments up to `*/`, in
any order (`Spacer`).  Words are printed as they are, numbers in decimal and strings in quotes,
with a backslash before each quote and each backslash (`Layout.print`).

What is to be skipped is skipped whatever follows it: `skip_chars`.
-/

import Mathlib.Data.List.Infix
import SquareDance.CallText.Token
import SquareDance.Proofs.CallText.Heard

namespace SquareDance
namespace CallText

/-! ### Spacers -/

/-- Something that is skipped between tokens. -/
inductive Spacer where
  | blank (c : Char)
  /-- A comment up to `*/`. -/
  | block (body : List Char)
  /-- A comment up to the end of the line. -/
  | line (body : List Char)
  deriving DecidableEq

namespace Spacer

/-- The characters of a spacer. -/
def chars : Spacer → List Char
  | blank c => [c]
  | block body => '/' :: '*' :: body ++ ['*', '/']
  | line body => '/' :: '/' :: body ++ ['\n']

/-- A blank is no larger than the space, and a comment ends where it seems to. -/
def IsProper : Spacer → Prop
  | blank c => c ≤ ' '
  | block body => ¬ ['*', '/'] <:+: body
  | line body => '\n' ∉ body

instance : (s : Spacer) → Decidable s.IsProper
  | blank c => inferInstanceAs (Decidable (c ≤ ' '))
  | block body => inferInstanceAs (Decidable (¬ ['*', '/'] <:+: body))
  | line body => inferInstanceAs (Decidable ('\n' ∉ body))

/-- The characters of some spacers. -/
def charsOfAll (gap : List Spacer) : List Char := gap.flatMap chars

end Spacer

/-! ### Tokens as they are printed -/

/-- A string with a backslash before each quote and each backslash. -/
def escape : List Char → List Char
  | [] => []
  | c :: cs => if c = '"' ∨ c = '\\' then '\\' :: c :: escape cs else c :: escape cs

namespace Token

/-- A token as it is printed. -/
def chars : Token → List Char
  | leftBracket => ['[']
  | rightBracket => [']']
  | text s => '"' :: escape s.toList ++ ['"']
  | word s => s.toList
  | number n => Nat.toDigits 10 n.toNat

/-- A token that can be printed: strings and words are short, a string has no carriage return,
and a word is made of characters of symbols, does not begin with a quote and is no number. -/
def IsPrintable : Token → Prop
  | leftBracket | rightBracket | number _ => True
  | text s => s.utf8ByteSize ≤ 100 ∧ '\r' ∉ s.toList
  | word s => s.utf8ByteSize ≤ 100 ∧
      s.toList.all (fun c => ' ' < c ∧ c ∉ ['[', ']', ',', '/', ':']) = true ∧
        s.toList.head? ≠ some '"' ∧ s.toList.any (!·.isDigit) = true

instance : (t : Token) → Decidable t.IsPrintable
  | leftBracket | rightBracket | number _ => isTrue trivial
  | text s => inferInstanceAs (Decidable (s.utf8ByteSize ≤ 100 ∧ '\r' ∉ s.toList))
  | word s => inferInstanceAs (Decidable (s.utf8ByteSize ≤ 100 ∧
      s.toList.all (fun c => ' ' < c ∧ c ∉ ['[', ']', ',', '/', ':']) = true ∧
        s.toList.head? ≠ some '"' ∧ s.toList.any (!·.isDigit) = true))

end Token

/-- Tokens with what stands before them and after each. -/
structure Layout where
  front : List Spacer
  items : List (Token × List Spacer)

namespace Layout

/-- The tokens that are laid out. -/
def tokens (l : Layout) : List Token := l.items.map (·.1)

/-- The characters of tokens and of what stands after each. -/
def charsOfItems (items : List (Token × List Spacer)) : List Char :=
  items.flatMap fun item => item.1.chars ++ Spacer.charsOfAll item.2

/-- A layout as text. -/
def print (l : Layout) : String :=
  String.ofList (Spacer.charsOfAll l.front ++ charsOfItems l.items)

/-- All that is printed can be read back, and there is something between any two tokens. -/
structure IsProper (l : Layout) : Prop where
  front : ∀ s ∈ l.front, s.IsProper
  tokens : ∀ item ∈ l.items, item.1.IsPrintable
  spacers : ∀ item ∈ l.items, ∀ s ∈ item.2, s.IsProper
  gaps : ∀ item ∈ l.items.dropLast, item.2 ≠ []

end Layout

/-! ### Skipping -/

/-- A comment up to the end of the line is skipped. -/
theorem skip_lineComment {body : List Char} (h : '\n' ∉ body) (begun : Bool) (n : Nat)
    (cs : List Char) : ∃ k, skip .lineComment n (heard begun (body ++ '\n' :: cs))
      = skip .blank k (heard false cs) := by
  induction body generalizing begun n with
  | nil => exact ⟨n + 1, by rw [List.nil_append, heard_lineFeed, skip, if_pos rfl]⟩
  | cons c body ih =>
    obtain ⟨hc, hbody⟩ := List.ne_and_not_mem_of_not_mem_cons h
    have hfeed : c ≠ '\n' := fun heq => hc heq.symm
    have hread : ∀ m, ∃ k, skip .lineComment m (c :: heard true (body ++ '\n' :: cs))
        = skip .blank k (heard false cs) := fun m => by
      rw [skip, if_neg hfeed]
      exact ih hbody true (m + 1)
    rw [List.cons_append]
    by_cases hreturn : c = '\r'
    · subst hreturn
      rw [heard_return]
      split
      · exact ih hbody true n
      · exact hread n
    · rw [heard_cons hfeed hreturn]
      exact hread n

/-- A comment up to `*/` is skipped.  By induction on its body: a star that was just read must
not be followed by a slash, and a carriage return that is not read is followed by none. -/
theorem skip_blockComment {body : List Char} (h : ¬ ['*', '/'] <:+: body) {star : Bool}
    (hstar : star = true → body.head? ≠ some '/') (begun : Bool) (n : Nat) (cs : List Char) :
    ∃ k, skip (.blockComment star) n (heard begun (body ++ '*' :: '/' :: cs))
      = skip .blank k (heard true cs) := by
  induction body generalizing star begun n with
  | nil =>
    refine ⟨n + 2, ?_⟩
    rw [List.nil_append, heard_cons (by decide) (by decide), heard_cons (by decide) (by decide),
      skip, if_neg (by simp), skip, if_pos (by simp)]
  | cons c body ih =>
    have hbody : ¬ ['*', '/'] <:+: body := fun hin =>
      h (hin.trans (List.suffix_cons c body).isInfix)
    have hread : ∀ b, ∃ k, skip (.blockComment star) n (c :: heard b (body ++ '*' :: '/' :: cs))
        = skip .blank k (heard true cs) := by
      intro b
      have hopen : ¬ (star && c == '/') = true := by
        rw [Bool.and_eq_true, beq_iff_eq]
        rintro ⟨htrue, rfl⟩
        exact hstar htrue rfl
      rw [skip, if_neg hopen]
      refine ih hbody (fun hc hhead => h ?_) b (n + 1)
      obtain ⟨tail, rfl⟩ := List.head?_eq_some_iff.1 hhead
      rw [beq_iff_eq.1 hc]
      exact ⟨[], tail, rfl⟩
    rw [List.cons_append]
    by_cases hfeed : c = '\n'
    · subst hfeed
      rw [heard_lineFeed]
      exact hread false
    by_cases hreturn : c = '\r'
    · subst hreturn
      rw [heard_return]
      split
      · rename_i hends
        refine ih hbody (fun _ hhead => ?_) true n
        obtain ⟨tail, rfl⟩ := List.head?_eq_some_iff.1 hhead
        rw [List.cons_append, endsLine_cons (by decide)] at hends
        exact absurd hends (by decide)
      · exact hread true
    · rw [heard_cons hfeed hreturn]
      exact hread true

/-- **A spacer is skipped**, whatever follows it. -/
theorem skip_chars {s : Spacer} (h : s.IsProper) (begun : Bool) (n : Nat) (cs : List Char) :
    ∃ k b, skip .blank n (heard begun (s.chars ++ cs)) = skip .blank k (heard b cs) := by
  cases s with
  | blank c =>
    have hslash : c ≠ '/' := by
      rintro rfl
      exact absurd h (by decide)
    have hblank : isBlank c = true := decide_eq_true h
    have hread : ∀ b, skip .blank n (c :: heard b cs) = skip .blank (n + 1) (heard b cs) :=
      fun b => by rw [skip, if_neg hslash, if_pos hblank]
    rw [Spacer.chars, List.singleton_append]
    by_cases hfeed : c = '\n'
    · subst hfeed
      exact ⟨n + 1, false, by rw [heard_lineFeed, hread]⟩
    by_cases hreturn : c = '\r'
    · subst hreturn
      rw [heard_return]
      split
      · exact ⟨n, true, rfl⟩
      · exact ⟨n + 1, true, hread true⟩
    · exact ⟨n + 1, true, by rw [heard_cons hfeed hreturn, hread]⟩
  | block body =>
    have hstart : false = true → body.head? ≠ some '/' := fun hfalse => by cases hfalse
    obtain ⟨k, hk⟩ := skip_blockComment h hstart true (n + 2) cs
    refine ⟨k, true, ?_⟩
    rw [← hk, Spacer.chars, List.append_assoc, List.cons_append, List.cons_append,
      heard_cons (by decide) (by decide), heard_cons (by decide) (by decide), skip, if_pos rfl,
      skip, if_pos rfl]
    rfl
  | line body =>
    obtain ⟨k, hk⟩ := skip_lineComment h true (n + 2) cs
    refine ⟨k, false, ?_⟩
    rw [← hk, Spacer.chars, List.append_assoc, List.cons_append, List.cons_append,
      heard_cons (by decide) (by decide), heard_cons (by decide) (by decide), skip, if_pos rfl,
      skip, if_neg (by decide), if_pos rfl]
    rfl

/-- Spacers are skipped, one after the other. -/
theorem skip_charsOfAll {gap : List Spacer} (h : ∀ s ∈ gap, s.IsProper) (begun : Bool) (n : Nat)
    (cs : List Char) : ∃ k b, skip .blank n (heard begun (Spacer.charsOfAll gap ++ cs))
      = skip .blank k (heard b cs) := by
  induction gap generalizing begun n with
  | nil => exact ⟨n, begun, rfl⟩
  | cons s gap ih =>
    obtain ⟨hs, hgap⟩ := List.forall_mem_cons.1 h
    obtain ⟨k, b, hskip⟩ := skip_chars hs begun n (Spacer.charsOfAll gap ++ cs)
    obtain ⟨k', b', hskip'⟩ := ih hgap b k
    refine ⟨k', b', ?_⟩
    rw [Spacer.charsOfAll, List.flatMap_cons, List.append_assoc]
    exact hskip.trans hskip'

end CallText
end SquareDance
