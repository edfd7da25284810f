/-
# What the lexer finds

Behind what is skipped a token is a bracket, a string from its quote on or a symbol.  `Begins` is
this as a relation of characters, token and rest, with the characters counted, and the lexer finds
just that: `lexToken_eq_token`.

What the characters behind a token are does not matter to it (`lexToken_append`), and not how many
characters stand before it but for the counts (`lexToken_append_of_finish`).  No token is looked
at beyond the character behind it, and a symbol just as far: `counts_lexToken`.
-/

import Mathlib.Tactic.SplitIfs
import SquareDance.CallText.Token

namespace SquareDance
namespace CallText

/-- Characters begin with a token.  `n` characters are skipped before; `width` and `seen` count
from there on. -/
inductive Begins (n : Nat) : List Char → Token → Nat → Nat → List Char → Prop where
  | leftBracket {rest} : Begins n ('[' :: rest) .leftBracket (n + 1) (n + 1) rest
  | rightBracket {rest} : Begins n (']' :: rest) .rightBracket (n + 1) (n + 1) rest
  | text {cs s width rest} (h : takeString [] 0 false (n + 1) cs = .ok (s, width, rest)) :
    Begins n ('"' :: cs) (.text s) width width rest
  | symbol {c cs symbol width rest} (hleft : c ≠ '[') (hright : c ≠ ']') (hquote : c ≠ '"')
    (h : takeSymbol [] 0 n (c :: cs) = .ok (symbol, width, rest)) :
    Begins n (c :: cs) (tokenOfSymbol symbol) width (width + 1) rest

/-- **What the lexer finds** is a token that begins behind what is skipped. -/
theorem lexToken_eq_token {cs rest : List Char} {t : Token} {width seen : Nat} :
    lexToken cs = .token t width seen rest ↔
      ∃ n mid, skip .blank 0 cs = .ok (n, mid) ∧ Begins n mid t width seen rest := by
  constructor
  · intro h
    unfold lexToken at h
    split at h
    · cases h
    · cases h
    · rename_i n c mid hskip
      refine ⟨n, c :: mid, hskip, ?_⟩
      split_ifs at h with hleft hright hquote
      · cases h
        rw [hleft]
        exact .leftBracket
      · cases h
        rw [hright]
        exact .rightBracket
      · split at h <;> cases h
        rename_i hstring
        rw [hquote]
        exact .text hstring
      · split at h <;> cases h
        rename_i hsymbol
        exact .symbol hleft hright hquote hsymbol
  · rintro ⟨n, mid, hskip, h⟩
    rw [lexToken, hskip]
    cases h with
    | leftBracket => rfl
    | rightBracket => rfl
    | text h => simp only [h, if_neg (show ¬ '"' = '[' by decide),
        if_neg (show ¬ '"' = ']' by decide), if_pos]
    | symbol hleft hright hquote h => simp only [if_neg hleft, if_neg hright, if_neg hquote, h]

/-- Where there is no token all is skipped. -/
theorem skip_of_finish {cs : List Char} {seen : Nat} (h : lexToken cs = .finish seen) :
    ∃ n, skip .blank 0 cs = .ok (n, []) := by
  unfold lexToken at h
  split at h
  · cases h
  · rename_i n hskip
    exact ⟨n, hskip⟩
  · split_ifs at h
    · split at h <;> cases h
    · split at h <;> cases h

/-! ### The characters that are counted -/

/-- What is skipped is counted. -/
theorem skip_length {gap : Gap} {n k : Nat} {cs rest : List Char}
    (h : skip gap n cs = .ok (k, rest)) : k + rest.length = n + cs.length := by
  induction cs generalizing gap n with
  | nil => cases gap <;> cases h; rfl
  | cons c cs ih =>
    rw [List.length_cons]
    cases gap <;> simp only [skip] at h <;> split_ifs at h <;>
      first
        | (have hrest := ih h; omega)
        | (cases h; rfl)

/-- The characters of a string are counted, its quote among them. -/
theorem takeString_length {reversed : List Char} {size n width : Nat} {escaped : Bool}
    {cs rest : List Char} {s : String}
    (h : takeString reversed size escaped n cs = .ok (s, width, rest)) :
    width + rest.length = n + cs.length ∧ n < width := by
  induction cs generalizing reversed size escaped n with
  | nil => cases h
  | cons c cs ih =>
    rw [List.length_cons]
    simp only [takeString] at h
    split_ifs at h
    · cases h
      omega
    · have hrest := ih h
      omega
    · have hrest := ih h
      omega

/-- A symbol is taken up to a character that was looked at. -/
theorem takeSymbol_length {reversed : List Char} {size n width : Nat} {cs rest symbol : List Char}
    (h : takeSymbol reversed size n cs = .ok (symbol, width, rest)) :
    width + rest.length = n + cs.length ∧ n < width ∧ 0 < rest.length := by
  induction cs generalizing reversed size n with
  | nil => cases h
  | cons c cs ih =>
    rw [List.length_cons]
    cases cs with
    | nil =>
      simp only [takeSymbol] at h
      split_ifs at h
    | cons d cs =>
      rw [takeSymbol] at h
      split_ifs at h
      · cases h
        rw [List.length_cons]
        omega
      · have hrest := ih h
        omega

/-- What is counted for a token of `size` characters, of which some are left behind it. -/
structure Counts (size : Nat) (t : Token) (width seen left : Nat) : Prop where
  width_add_left : width + left = size
  width_pos : 0 < width
  width_le : width ≤ seen
  seen_le : seen ≤ width + 1
  seen_le_size : seen ≤ size
  of_word : ∀ w, t = .word w → seen = width + 1

/-- The characters of a token are counted, and a symbol is looked at as far as one behind it. -/
theorem Begins.counts {n width seen : Nat} {cs rest : List Char} {t : Token}
    (h : Begins n cs t width seen rest) : Counts (n + cs.length) t width seen rest.length := by
  cases h with
  | leftBracket | rightBracket =>
    rw [List.length_cons]
    exact ⟨by omega, by omega, by omega, by omega, by omega, nofun⟩
  | text h =>
    have hrest := takeString_length h
    rw [List.length_cons]
    exact ⟨by omega, by omega, by omega, by omega, by omega, nofun⟩
  | symbol _ _ _ h =>
    have hrest := takeSymbol_length h
    rw [List.length_cons] at hrest ⊢
    exact ⟨by omega, by omega, by omega, by omega, by omega, fun _ _ => rfl⟩

/-- **No token is looked at beyond the character behind it**, and a symbol just as far. -/
theorem counts_lexToken {cs rest : List Char} {t : Token} {width seen : Nat}
    (h : lexToken cs = .token t width seen rest) : Counts cs.length t width seen rest.length := by
  obtain ⟨n, mid, hskip, hbegins⟩ := lexToken_eq_token.1 h
  have hcounts := hbegins.counts
  rwa [skip_length hskip, Nat.zero_add] at hcounts

/-! ### Characters behind -/

/-- What is skipped before a character is skipped with more behind it. -/
theorem skip_append {gap : Gap} {n k : Nat} {cs rest : List Char}
    (h : skip gap n cs = .ok (k, rest)) (hne : rest ≠ []) (ds : List Char) :
    skip gap n (cs ++ ds) = .ok (k, rest ++ ds) := by
  induction cs generalizing gap n with
  | nil => cases gap <;> cases h; cases hne rfl
  | cons d cs ih =>
    rw [List.cons_append]
    cases gap <;> simp only [skip] at h ⊢ <;> split_ifs at h ⊢ <;> first | exact ih h | cases h
    rfl

/-- Where all is skipped the next blanks are skipped as well. -/
theorem skip_append_of_nil {gap : Gap} {n k : Nat} {cs : List Char}
    (h : skip gap n cs = .ok (k, [])) (ds : List Char) :
    skip gap n (cs ++ ds) = skip .blank k ds := by
  induction cs generalizing gap n with
  | nil => cases gap <;> cases h; rfl
  | cons d cs ih =>
    rw [List.cons_append]
    cases gap <;> simp only [skip] at h ⊢ <;> split_ifs at h ⊢ <;> first | exact ih h | cases h

/-- What stands behind a string does not matter to it. -/
theorem takeString_append {reversed : List Char} {size n width : Nat} {escaped : Bool}
    {cs rest : List Char} {s : String}
    (h : takeString reversed size escaped n cs = .ok (s, width, rest)) (ds : List Char) :
    takeString reversed size escaped n (cs ++ ds) = .ok (s, width, rest ++ ds) := by
  induction cs generalizing reversed size escaped n with
  | nil => cases h
  | cons c cs ih =>
    simp only [List.cons_append, takeString] at h ⊢
    split_ifs at h ⊢
    · cases h
      rfl
    · exact ih h
    · exact ih h

/-- What stands behind a symbol does not matter to it, if something does already. -/
theorem takeSymbol_append {reversed : List Char} {size n width : Nat} {cs rest symbol : List Char}
    (h : takeSymbol reversed size n cs = .ok (symbol, width, rest)) (ds : List Char) :
    takeSymbol reversed size n (cs ++ ds) = .ok (symbol, width, rest ++ ds) := by
  induction cs generalizing reversed size n with
  | nil => cases h
  | cons c cs ih =>
    cases cs with
    | nil =>
      simp only [takeSymbol] at h
      split_ifs at h
    | cons d cs =>
      rw [takeSymbol] at h
      rw [List.cons_append, List.cons_append, takeSymbol]
      split_ifs at h ⊢
      · cases h
        rfl
      · exact ih h

/-- There is a character of a token. -/
theorem Begins.ne_nil {n width seen : Nat} {cs rest : List Char} {t : Token}
    (h : Begins n cs t width seen rest) : cs ≠ [] := by
  cases h <;> exact List.cons_ne_nil _ _

/-- More characters behind do not change with which token characters begin. -/
theorem Begins.append {n width seen : Nat} {cs rest : List Char} {t : Token}
    (h : Begins n cs t width seen rest) (ds : List Char) :
    Begins n (cs ++ ds) t width seen (rest ++ ds) := by
  cases h with
  | leftBracket => exact .leftBracket
  | rightBracket => exact .rightBracket
  | text h => exact .text (takeString_append h ds)
  | symbol hleft hright hquote h =>
    exact .symbol hleft hright hquote (takeSymbol_append h ds)

/-- **A token is found with more characters behind it.** -/
theorem lexToken_append {cs rest : List Char} {t : Token} {width seen : Nat}
    (h : lexToken cs = .token t width seen rest) (ds : List Char) :
    lexToken (cs ++ ds) = .token t width seen (rest ++ ds) := by
  obtain ⟨n, mid, hskip, hbegins⟩ := lexToken_eq_token.1 h
  exact lexToken_eq_token.2 ⟨n, mid ++ ds, skip_append hskip hbegins.ne_nil ds, hbegins.append ds⟩

/-! ### Characters before -/

/-- The same with more characters looked at before. -/
def Lexed.shift (k : Nat) : Lexed → Lexed
  | token t width seen rest => token t (width + k) (seen + k) rest
  | finish seen => finish (seen + k)
  | failure e seen => failure e (seen + k)

/-- More characters counted before are counted behind what is skipped. -/
theorem skip_add (gap : Gap) (n k : Nat) (cs : List Char) : skip gap (n + k) cs
    = match skip gap n cs with
      | .error (e, seen) => .error (e, seen + k)
      | .ok (m, rest) => .ok (m + k, rest) := by
  induction cs generalizing gap n with
  | nil => cases gap <;> simp only [skip, Nat.add_right_comm]
  | cons c cs ih =>
    cases gap <;> simp only [skip, Nat.add_right_comm n k 1, ih] <;> split_ifs <;> rfl

/-- More characters counted before are counted behind a string. -/
theorem takeString_add (reversed : List Char) (size : Nat) (escaped : Bool) (n k : Nat)
    (cs : List Char) : takeString reversed size escaped (n + k) cs
      = match takeString reversed size escaped n cs with
        | .error (e, seen) => .error (e, seen + k)
        | .ok (s, width, rest) => .ok (s, width + k, rest) := by
  induction cs generalizing reversed size escaped n with
  | nil => simp only [takeString, Nat.add_right_comm]
  | cons c cs ih =>
    simp only [takeString, Nat.add_right_comm n k 1, ih]
    split_ifs <;> rfl

/-- More characters counted before are counted behind a symbol. -/
theorem takeSymbol_add (reversed : List Char) (size n k : Nat) (cs : List Char) :
    takeSymbol reversed size (n + k) cs
      = match takeSymbol reversed size n cs with
        | .error (e, seen) => .error (e, seen + k)
        | .ok (symbol, width, rest) => .ok (symbol, width + k, rest) := by
  induction cs generalizing reversed size n with
  | nil => simp only [takeSymbol, Nat.add_right_comm]
  | cons c cs ih =>
    cases cs with
    | nil =>
      simp only [takeSymbol, Nat.add_right_comm n k]
      split_ifs <;> rfl
    | cons d cs =>
      rw [takeSymbol, takeSymbol, Nat.add_right_comm n k 1, ih]
      split_ifs <;> rfl

/-- **Where there is no token the next one follows**, with more characters looked at. -/
theorem lexToken_append_of_finish {cs : List Char} {seen : Nat} (h : lexToken cs = .finish seen)
    (ds : List Char) : ∃ k, lexToken (cs ++ ds) = (lexToken ds).shift k := by
  obtain ⟨k, hskip⟩ := skip_of_finish h
  refine ⟨k, ?_⟩
  have hadd := skip_add .blank 0 k ds
  rw [Nat.zero_add] at hadd
  rw [lexToken, lexToken, skip_append_of_nil hskip, hadd]
  match skip .blank 0 ds with
  | .error (e, seen) => rfl
  | .ok (n, []) => simp only [Lexed.shift, Nat.add_right_comm]
  | .ok (n, c :: rest) =>
    have hstring := takeString_add [] 0 false (n + 1) k rest
    have hsymbol := takeSymbol_add [] 0 n k (c :: rest)
    simp only [Nat.add_right_comm n k 1, hstring, hsymbol]
    split_ifs
    · rfl
    · rfl
    · cases takeString [] 0 false (n + 1) rest with
      | error p => rfl
      | ok p => rfl
    · cases takeSymbol [] 0 n (c :: rest) with
      | error p => rfl
      | ok p => simp only [Lexed.shift, Nat.add_right_comm]

end CallText
end SquareDance
