/-
# Printed tokens are read back

A printed token is taken from the front, with the spacers before it, if what follows ends a
symbol (`lexToken_printed`); a spacer does, and so does the end of the text.  So the tokens of a
layout are read one after another.  Main statement: `Layout.tokenize_print`.
-/

import Mathlib.Data.String.Basic
import SquareDance.Proofs.CallText.Layout

namespace SquareDance
namespace CallText

/-! ### Taking a printed token -/

/-- What comes next, on a line that was begun, ends a symbol. -/
def EndsToken (cs : List Char) : Prop :=
  ∃ d rest, heard true cs = d :: rest ∧ endsSymbol d = true

/-- The end of the text ends a symbol. -/
theorem endsToken_nil : EndsToken [] := ⟨'\n', [], rfl, by decide⟩

/-- So does a spacer. -/
theorem endsToken_chars {s : Spacer} (h : s.IsProper) (cs : List Char) :
    EndsToken (s.chars ++ cs) := by
  have hslash : ∀ rest, EndsToken ('/' :: rest) := fun rest =>
    ⟨'/', _, heard_cons (by decide) (by decide) true rest, by decide⟩
  cases s with
  | blank c =>
    have hends : endsSymbol c = true := by
      unfold endsSymbol isBlank
      rw [decide_eq_true (show c ≤ ' ' from h), Bool.or_true]
    rw [Spacer.chars, List.singleton_append]
    by_cases hfeed : c = '\n'
    · subst hfeed
      exact ⟨'\n', _, heard_lineFeed true cs, hends⟩
    by_cases hreturn : c = '\r'
    · subst hreturn
      unfold EndsToken
      rw [heard_return]
      split
      · rename_i hline
        obtain ⟨rest, hrest⟩ := heard_of_endsLine hline
        exact ⟨'\n', rest, hrest, by decide⟩
      · exact ⟨'\r', _, rfl, hends⟩
    · exact ⟨c, _, heard_cons hfeed hreturn true cs, hends⟩
  | block body => exact hslash _
  | line body => exact hslash _

/-- A string is read back after its first quote. -/
theorem takeString_escape {s : List Char} (hs : '\r' ∉ s) (reversed : List Char) {size : Nat}
    (hsize : size + String.utf8Len s ≤ maxTokenSize) (begun : Bool) (n : Nat) (cs : List Char) :
    ∃ k, takeString reversed size false n (heard begun (escape s ++ '"' :: cs))
      = .ok (String.ofList (reversed.reverse ++ s), k, heard true cs) := by
  induction s generalizing reversed size begun n with
  | nil =>
    refine ⟨n + 1, ?_⟩
    rw [escape, List.nil_append, heard_cons (by decide) (by decide), takeString,
      if_pos (by decide), List.append_nil]
  | cons c s ih =>
    obtain ⟨hc, hrest⟩ := List.ne_and_not_mem_of_not_mem_cons hs
    have hreturn : c ≠ '\r' := fun heq => hc heq.symm
    rw [String.utf8Len_cons] at hsize
    have hfits : ¬ maxTokenSize < sizeWith size c := by
      unfold sizeWith
      omega
    have htake : ∀ b m, ∃ k, takeString (c :: reversed) (sizeWith size c) false m
        (heard b (escape s ++ '"' :: cs))
          = .ok (String.ofList (reversed.reverse ++ c :: s), k, heard true cs) := by
      intro b m
      rw [← List.singleton_append (l := s), ← List.append_assoc, ← List.reverse_cons]
      exact ih hrest _ (by unfold sizeWith; omega) b m
    by_cases hescape : c = '"' ∨ c = '\\'
    · have hfeed : c ≠ '\n' := by
        rintro rfl
        exact absurd hescape (by decide)
      rw [escape, if_pos hescape, List.cons_append, List.cons_append,
        heard_cons (by decide) (by decide), heard_cons hfeed hreturn, takeString,
        if_neg (by decide), if_pos (by decide), takeString, if_neg (by simp), if_neg (by simp),
        if_neg hfits]
      exact htake true (n + 2)
    · have hread : ∀ b, ∃ k, takeString reversed size false n
          (c :: heard b (escape s ++ '"' :: cs))
            = .ok (String.ofList (reversed.reverse ++ c :: s), k, heard true cs) := by
        intro b
        rw [not_or] at hescape
        rw [takeString, if_neg (by simp [hescape.1]), if_neg (by simp [hescape.2]), if_neg hfits]
        exact htake b (n + 1)
      rw [escape, if_neg hescape, List.cons_append]
      by_cases hfeed : c = '\n'
      · subst hfeed
        rw [heard_lineFeed]
        exact hread false
      · rw [heard_cons hfeed hreturn]
        exact hread true

/-- Characters of symbols are read up to something that ends a symbol. -/
theorem takeSymbol_chars {c : Char} {s : List Char} (hs : ∀ d ∈ s, endsSymbol d = false)
    (reversed : List Char) {size : Nat} (hsize : size + String.utf8Len (c :: s) ≤ maxTokenSize)
    (n : Nat) {cs : List Char} (hcs : EndsToken cs) :
    ∃ k, takeSymbol reversed size n (c :: heard true (s ++ cs))
      = .ok (reversed.reverse ++ c :: s, k, heard true cs) := by
  induction s generalizing c reversed size n with
  | nil =>
    obtain ⟨d, rest, hd, hends⟩ := hcs
    rw [String.utf8Len_cons, String.utf8Len_nil] at hsize
    have hfits : ¬ maxTokenSize < sizeWith size c := by
      unfold sizeWith
      omega
    refine ⟨n + 1, ?_⟩
    rw [List.nil_append, hd, takeSymbol, if_neg hfits]
    simp only [hends, if_true, List.reverse_cons]
  | cons d s ih =>
    obtain ⟨hd, hrest⟩ := List.forall_mem_cons.1 hs
    rw [String.utf8Len_cons] at hsize
    have hfits : ¬ maxTokenSize < sizeWith size c := by
      unfold sizeWith
      omega
    have hfeed : d ≠ '\n' := by
      rintro rfl
      exact absurd hd (by decide)
    have hreturn : d ≠ '\r' := by
      rintro rfl
      exact absurd hd (by decide)
    obtain ⟨k, hk⟩ := ih (c := d) hrest (c :: reversed)
      (by unfold sizeWith; omega : sizeWith size c + _ ≤ _) (n + 1)
    refine ⟨k, ?_⟩
    rw [List.cons_append, heard_cons hfeed hreturn, takeSymbol, if_neg hfits]
    simp only [hd, hk, Bool.false_eq_true, if_false, List.reverse_cons, List.append_assoc,
      List.singleton_append]

/-- **A symbol is taken from the front.** -/
theorem lexToken_symbol {t : Token} {c : Char} {s : List Char} (ht : tokenOfSymbol (c :: s) = t)
    (hchars : t.chars = c :: s) (hs : ∀ d ∈ c :: s, endsSymbol d = false) (hquote : c ≠ '"')
    (hsize : String.utf8Len (c :: s) ≤ maxTokenSize) {front cs : List Char} {n : Nat}
    {begun : Bool} (hcs : EndsToken cs)
    (hfront : skip .blank 0 front = skip .blank n (heard begun (t.chars ++ cs))) :
    ∃ width seen, lexToken front = .token t width seen (heard true cs) := by
  obtain ⟨hc, hrest⟩ := List.forall_mem_cons.1 hs
  have hne : ∀ d, endsSymbol d = true → c ≠ d := by
    rintro d hd rfl
    rw [hc] at hd
    cases hd
  have hblank : isBlank c = false := (Bool.or_eq_false_iff.1 hc).2
  obtain ⟨k, hk⟩ := takeSymbol_chars (c := c) hrest [] (by omega : 0 + _ ≤ _) n hcs
  refine ⟨k, k + 1, ?_⟩
  rw [lexToken, hfront, hchars, List.cons_append,
    heard_cons (hne _ (by decide)) (hne _ (by decide)), skip, if_neg (hne _ (by decide)),
    if_neg (by rw [hblank]; exact Bool.false_ne_true)]
  dsimp only
  rw [if_neg (hne _ (by decide)), if_neg (hne _ (by decide)), if_neg hquote, hk]
  dsimp only
  rw [List.reverse_nil, List.nil_append, ht]

/-! ### Numbers -/

/-- A digit ends no symbol. -/
theorem endsSymbol_of_isDigit {c : Char} (h : c.isDigit = true) : endsSymbol c = false := by
  have hne : ∀ d : Char, d.isDigit = false → c ≠ d := by
    rintro d hd rfl
    rw [h] at hd
    cases hd
  simp only [Char.isDigit, Bool.and_eq_true, decide_eq_true_eq] at h
  have hblank : isBlank c = false :=
    decide_eq_false (not_le.2 (UInt32.lt_of_lt_of_le (by decide) h.1))
  simp [endsSymbol, hblank, hne '[' (by decide), hne ']' (by decide), hne ',' (by decide),
    hne '/' (by decide), hne ':' (by decide)]

/-- Digits are as long as they are many. -/
theorem utf8Len_of_isDigit {s : List Char} (h : ∀ c ∈ s, c.isDigit = true) :
    String.utf8Len s = s.length := by
  induction s with
  | nil => rfl
  | cons c s ih =>
    obtain ⟨hc, hs⟩ := List.forall_mem_cons.1 h
    have hone : c.utf8Size = 1 := by
      simp only [Char.isDigit, Bool.and_eq_true, decide_eq_true_eq] at hc
      exact Char.utf8Size_eq_one_iff.2 (UInt32.le_trans hc.2 (by decide))
    rw [String.utf8Len_cons, ih hs, hone, List.length_cons]

/-- **A number is read off its digits.** -/
theorem tokenOfSymbol_toDigits (n : UInt32) :
    tokenOfSymbol (Nat.toDigits 10 n.toNat) = .number n := by
  have hdigits : (Nat.toDigits 10 n.toNat).all (·.isDigit) = true :=
    List.all_eq_true.2 fun c hc => Nat.isDigit_of_mem_toDigits (by decide) (by decide) hc
  have hvalue : (Nat.toDigits 10 n.toNat).foldl
      (fun n c => n * 10 + (c.toNat - '0'.toNat)) 0 = n.toNat := by
    have hof := Nat.ofDigitChars_toDigits (b := 10) (n := n.toNat) (by decide) (by decide)
    simp only [Nat.ofDigitChars, Nat.mul_comm 10] at hof
    exact hof
  have hlt := n.toNat_lt
  rw [tokenOfSymbol, if_pos hdigits, numberOf, hvalue, Nat.min_eq_left (by omega),
    UInt32.ofNat_toNat]

/-- **A printed token is taken from the front**, with what stands before it. -/
theorem lexToken_printed {t : Token} (ht : t.IsPrintable) {gap : List Spacer}
    (hgap : ∀ s ∈ gap, s.IsProper) (begun : Bool) {cs : List Char} (hcs : EndsToken cs) :
    ∃ width seen, lexToken (heard begun (Spacer.charsOfAll gap ++ (t.chars ++ cs)))
      = .token t width seen (heard true cs) := by
  obtain ⟨n, b, hskip⟩ := skip_charsOfAll hgap begun 0 (t.chars ++ cs)
  cases t with
  | leftBracket =>
    refine ⟨n + 1, n + 1, ?_⟩
    rw [lexToken, hskip, Token.chars, List.singleton_append,
      heard_cons (by decide) (by decide), skip, if_neg (by decide), if_neg (by decide)]
    rfl
  | rightBracket =>
    refine ⟨n + 1, n + 1, ?_⟩
    rw [lexToken, hskip, Token.chars, List.singleton_append,
      heard_cons (by decide) (by decide), skip, if_neg (by decide), if_neg (by decide)]
    rfl
  | text s =>
    obtain ⟨hsize, hreturn⟩ := ht
    have hlen : 0 + String.utf8Len s.toList ≤ maxTokenSize := by
      rw [Nat.zero_add, ← String.utf8ByteSize_ofList, String.ofList_toList]
      exact hsize
    obtain ⟨k, hk⟩ := takeString_escape hreturn [] hlen true (n + 1) cs
    refine ⟨k, k, ?_⟩
    rw [lexToken, hskip, Token.chars, List.append_assoc, List.cons_append,
      heard_cons (by decide) (by decide), skip, if_neg (by decide), if_neg (by decide)]
    dsimp only
    rw [if_neg (by decide), if_neg (by decide), if_pos rfl, List.singleton_append, hk]
    rw [List.reverse_nil, List.nil_append, String.ofList_toList]
  | word s =>
    obtain ⟨hsize, hchars, hquote, hother⟩ := ht
    obtain ⟨d, hd, hdigit⟩ := List.any_eq_true.1 hother
    obtain ⟨c, rest, hs⟩ := List.exists_cons_of_ne_nil (List.ne_nil_of_mem hd)
    have hsymbol : ∀ d ∈ c :: rest, endsSymbol d = false := by
      intro d hd
      obtain ⟨habove, hnot⟩ := of_decide_eq_true (List.all_eq_true.1 hchars d (hs ▸ hd))
      have hblank : isBlank d = false := decide_eq_false (not_le.2 habove)
      simp only [List.mem_cons, List.not_mem_nil, or_false, not_or] at hnot
      simp [endsSymbol, hblank, hnot]
    have hlen : String.utf8Len (c :: rest) ≤ maxTokenSize := by
      rw [← hs, ← String.utf8ByteSize_ofList, String.ofList_toList]
      exact hsize
    have hfirst : c ≠ '"' := by
      rintro rfl
      rw [hs] at hquote
      exact hquote rfl
    have hall : s.toList.all (·.isDigit) = false :=
      List.all_eq_false.2 ⟨d, hd, by simpa using hdigit⟩
    have hword : tokenOfSymbol (c :: rest) = .word s := by
      rw [← hs, tokenOfSymbol, if_neg (by rw [hall]; exact Bool.false_ne_true),
        String.ofList_toList]
    exact lexToken_symbol hword hs hsymbol hfirst hlen hcs hskip
  | number m =>
    have hdigits : ∀ c ∈ Nat.toDigits 10 m.toNat, c.isDigit = true := fun c hc =>
      Nat.isDigit_of_mem_toDigits (by decide) (by decide) hc
    have hlt : m.toNat < 10 ^ 10 := Nat.lt_trans m.toNat_lt (by decide)
    have hlen := (Nat.length_toDigits_le_iff (b := 10) (by decide) (by decide)).2 hlt
    rw [← utf8Len_of_isDigit hdigits] at hlen
    have hnumber := tokenOfSymbol_toDigits m
    obtain ⟨c, rest, hs⟩ :=
      List.exists_cons_of_ne_nil (Nat.toDigits_ne_nil (n := m.toNat) (b := 10))
    rw [hs] at hdigits hlen hnumber
    have hfirst : c ≠ '"' := by
      rintro rfl
      exact absurd (hdigits '"' List.mem_cons_self) (by decide)
    exact lexToken_symbol hnumber hs (fun d hd => endsSymbol_of_isDigit (hdigits d hd)) hfirst
      (Nat.le_trans hlen (by decide)) hcs hskip

/-! ### All tokens -/

section

variable {cs rest : List Char} {t : Token} {width seen : Nat} (found : List (Token × Place))
  (places : List Place)

/-- A token is marked with the last place looked at, and the rest has the places behind its width.
-/
theorem tokensFrom_token (h : lexToken cs = .token t width seen rest) :
    tokensFrom found cs places
      = tokensFrom ((t, places[seen - 1]?.getD default) :: found) rest (places.drop width) := by
  rw [tokensFrom]
  split <;> rename_i h' <;> rw [h] at h' <;> cases h'
  rfl

/-- The end is marked with the last place looked at. -/
theorem tokensFrom_finish (h : lexToken cs = .finish seen) :
    tokensFrom found cs places = ⟨found.reverse, none, places[seen - 1]?.getD default⟩ := by
  rw [tokensFrom]
  split <;> rename_i h' <;> rw [h] at h' <;> cases h'
  rfl

end

/-- Where only spacers are left, there are no more tokens. -/
theorem lexToken_charsOfAll {gap : List Spacer} (h : ∀ s ∈ gap, s.IsProper) (begun : Bool) :
    ∃ seen, lexToken (heard begun (Spacer.charsOfAll gap)) = .finish seen := by
  obtain ⟨n, b, hskip⟩ := skip_charsOfAll h begun 0 []
  rw [List.append_nil] at hskip
  cases b with
  | false => exact ⟨n + 1, by rw [lexToken, hskip]; rfl⟩
  | true => exact ⟨n + 2, by rw [lexToken, hskip]; rfl⟩

/-- The characters of items are those of the first one and of the rest. -/
theorem charsOfItems_cons (t : Token) (gap : List Spacer) (items : List (Token × List Spacer)) :
    Layout.charsOfItems ((t, gap) :: items)
      = t.chars ++ (Spacer.charsOfAll gap ++ Layout.charsOfItems items) := by
  rw [Layout.charsOfItems, List.flatMap_cons, List.append_assoc]
  rfl

/-- **Tokens are read one after another.**  By induction on what is printed: each token is taken
with the spacers before it, and those after it are left. -/
theorem tokensFrom_printed {items : List (Token × List Spacer)}
    (htokens : ∀ item ∈ items, item.1.IsPrintable)
    (hspacers : ∀ item ∈ items, ∀ s ∈ item.2, s.IsProper)
    (hgaps : ∀ item ∈ items.dropLast, item.2 ≠ []) {gap : List Spacer}
    (hgap : ∀ s ∈ gap, s.IsProper) (begun : Bool) (found : List (Token × Place))
    (places : List Place) :
    let read := tokensFrom found
      (heard begun (Spacer.charsOfAll gap ++ Layout.charsOfItems items)) places
    read.tokens.map (·.1) = (found.map (·.1)).reverse ++ items.map (·.1) ∧
      read.failure = none := by
  induction items generalizing gap begun found places with
  | nil =>
    obtain ⟨seen, hseen⟩ := lexToken_charsOfAll hgap begun
    rw [Layout.charsOfItems, List.flatMap_nil, List.append_nil, tokensFrom_finish _ _ hseen]
    exact ⟨by rw [List.map_reverse, List.map_nil, List.append_nil], rfl⟩
  | cons item items ih =>
    obtain ⟨t, after⟩ := item
    obtain ⟨ht, htokens⟩ := List.forall_mem_cons.1 htokens
    obtain ⟨hafter, hspacers⟩ := List.forall_mem_cons.1 hspacers
    have hends : EndsToken (Spacer.charsOfAll after ++ Layout.charsOfItems items) := by
      cases after with
      | nil =>
        have hlast : items = [] := by
          by_contra hne
          rw [List.dropLast_cons_of_ne_nil hne] at hgaps
          exact hgaps (t, []) List.mem_cons_self rfl
        rw [hlast]
        exact endsToken_nil
      | cons s after =>
        rw [Spacer.charsOfAll, List.flatMap_cons, List.append_assoc]
        exact endsToken_chars (hafter s List.mem_cons_self) _
    have hrest : ∀ item ∈ items.dropLast, item.2 ≠ [] := fun item hitem => by
      refine hgaps item ?_
      rw [List.dropLast_cons_of_ne_nil fun hnil => by simp [hnil] at hitem]
      exact List.mem_cons_of_mem _ hitem
    obtain ⟨width, seen, hlex⟩ := lexToken_printed ht hgap begun hends
    obtain ⟨hread, hfailure⟩ := ih htokens hspacers hrest hafter true
      ((t, places[seen - 1]?.getD default) :: found) (places.drop width)
    rw [charsOfItems_cons, tokensFrom_token _ _ hlex]
    refine ⟨?_, hfailure⟩
    rw [hread, List.map_cons, List.reverse_cons, List.append_assoc, List.singleton_append,
      List.map_cons]

/-- **Printed tokens are read back**, whatever stands between them. -/
theorem Layout.tokenize_print {l : Layout} (h : l.IsProper) :
    (tokenize l.print).tokens.map (·.1) = l.tokens ∧ (tokenize l.print).failure = none := by
  have hread := tokensFrom_printed h.tokens h.spacers h.gaps h.front false []
    (placesFrom 1 (lines l.print) ++ [endOf (lines l.print)])
  unfold tokenize
  dsimp only
  rw [charsOf_lines, Layout.print, String.toList_ofList]
  exact hread

/-- A layout with comments that look as if they ended early, a string over two lines and a word
at the end of the text. -/
def sampleLayout : Layout where
  front := [.blank '\r', .block ['*', '\r', '\n', '/', '*']]
  items := [
    (.word "call", [.blank ' ', .line ['/', '*', '\r'], .blank '\t']),
    (.text "a \"b\" \\\n", [.block ['/', '*']]),
    (.leftBracket, [.blank '\r']),
    (.number 4294967295, [.block []]),
    (.rightBracket, [.line []]),
    (.word "1N\"", [])]

/-- The sample is laid out with proper spacers. -/
theorem sampleLayout_isProper : sampleLayout.IsProper :=
  ⟨by decide, by decide, by decide, by decide⟩

/-- The sample is printed and read back. -/
theorem Layout.tokenize_print_sampleLayout : sampleLayout.IsProper ∧
    (tokenize sampleLayout.print).tokens.map (·.1) = sampleLayout.tokens ∧
      (tokenize sampleLayout.print).failure = none :=
  ⟨sampleLayout_isProper, Layout.tokenize_print sampleLayout_isProper⟩

end CallText
end SquareDance
