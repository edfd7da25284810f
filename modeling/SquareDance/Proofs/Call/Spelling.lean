/-
# What spells a destination

A destination is spelled, in letters of either case, by a word for each of its parts around the
digits of the spot:

| part | words |
| --- | --- |
| turn | none, `Z`, `A`, `AC`, `AAC`, `AAAC`, `AAAAC`, `AA`, and these with `A` and `C` exchanged |
| slide | none, `F`, `G` |
| roll | none, `R`, `L`, `M` |
| spot | the digits of a number up to 24, or of an even one up to 36 |
| direction | `N`, `E`, `S`, `W` |

The reader does not go through a word in this order: it counts the letters of the whole word, takes
the digits from anywhere, and counts the letters of a turn in a run.  `Destination.IsSpelled` says
what is spelled without reading it, and the reader accepts just that, but for one thing: it does not
ask for a digit, and where there is none the spot is 0 (`ofText_eq_ok_iff`).
-/

import SquareDance.Call.Spelling

namespace SquareDance

/-! ### Words -/

/-- The words for turns. -/
def Turn.words : List (String × Turn) :=
  [("", ⟨.plain, false⟩), ("Z", ⟨.plain, true⟩), ("A", ⟨.a, false⟩), ("C", ⟨.a, true⟩),
   ("AC", ⟨.ac, false⟩), ("CA", ⟨.ac, true⟩), ("AAC", ⟨.aac, false⟩), ("CCA", ⟨.aac, true⟩),
   ("AAAC", ⟨.aaac, false⟩), ("CCCA", ⟨.aaac, true⟩), ("AAAAC", ⟨.aaaac, false⟩),
   ("CCCCA", ⟨.aaaac, true⟩), ("AA", ⟨.aa, false⟩), ("CC", ⟨.aa, true⟩)]

/-- The words for slides. -/
def SlideMark.words : List (String × Option SlideMark) :=
  [("", none), ("F", some .f), ("G", some .g)]

/-- The words for rolls. -/
def RollMark.words : List (String × Option RollMark) :=
  [("", none), ("R", some .r), ("L", some .l), ("M", some .m)]

/-- The words for directions. -/
def Direction.words : List (String × Direction) :=
  [("N", .north), ("E", .east), ("S", .south), ("W", .west)]

/-- The words of the table of turns are their letters. -/
theorem Turn.mem_words_iff {w : String} {t : Turn} :
    (w, t) ∈ words ↔ w.toList = t.letters := by
  constructor
  · have hwords : ∀ p ∈ words, p.1.toList = p.2.letters := by decide
    exact hwords (w, t)
  · intro h
    rw [← String.ofList_toList (s := w), h]
    obtain ⟨code, reverse⟩ := t
    cases code <;> cases reverse <;> decide

/-- The words of the table of slide marks are the letters of at most one mark. -/
theorem SlideMark.mem_words_iff {w : String} {s : Option SlideMark} :
    (w, s) ∈ words ↔ w.toList = s.toList.map letter := by
  constructor
  · have hwords : ∀ p ∈ words, p.1.toList = p.2.toList.map letter := by decide
    exact hwords (w, s)
  · intro h
    rw [← String.ofList_toList (s := w), h]
    rcases s with _ | _ | _ <;> decide

/-- The words of the table of roll marks are the letters of at most one mark. -/
theorem RollMark.mem_words_iff {w : String} {r : Option RollMark} :
    (w, r) ∈ words ↔ w.toList = r.toList.map letter := by
  constructor
  · have hwords : ∀ p ∈ words, p.1.toList = p.2.toList.map letter := by decide
    exact hwords (w, r)
  · intro h
    rw [← String.ofList_toList (s := w), h]
    rcases r with _ | _ | _ | _ <;> decide

/-- The words of the table of directions are one letter each. -/
theorem Direction.mem_words_iff {w : String} {d : Direction} :
    (w, d) ∈ words ↔ w.toList = [d.letter] := by
  constructor
  · have hwords : ∀ p ∈ words, p.1.toList = [p.2.letter] := by decide
    exact hwords (w, d)
  · intro h
    rw [← String.ofList_toList (s := w), h]
    cases d <;> decide

namespace Destination

/-- Digits and capital letters spell a destination: `digits` are those of the spot. -/
structure IsSpelled (digits cs : List Char) (d : Destination) : Prop where
  parts : ∃ turn slide roll direction, (turn, d.turn) ∈ Turn.words ∧
    (slide, d.slide) ∈ SlideMark.words ∧ (roll, d.roll) ∈ RollMark.words ∧
      (direction, d.direction) ∈ Direction.words ∧
        cs = turn.toList ++ slide.toList ++ roll.toList ++ digits ++ direction.toList
  isDigit : ∀ c ∈ digits, c.isDigit = true
  position : d.position.toNat = Nat.ofDigitChars 10 digits 0
  inRange : d.position.toNat ≤ 24 ∨
    26 ≤ d.position.toNat ∧ d.position.toNat ≤ 36 ∧ d.position.toNat % 2 = 0
  y : d.y = none

/-- Positions count up to 24 one by one, and from there to 36 by twos. -/
theorem isValidPosition_iff {n : Nat} :
    isValidPosition n = true ↔ n ≤ 24 ∨ 26 ≤ n ∧ n ≤ 36 ∧ n % 2 = 0 := by
  simp only [isValidPosition, Bool.or_eq_true, Bool.and_eq_true, decide_eq_true_eq, beq_iff_eq]
  omega

/-! ### Turns -/

namespace TurnReading

variable {s s' : TurnReading} {c : Char}

/-- The letters that have been read. -/
def letters (s : TurnReading) : List Char :=
  s.turn.letters ++ List.replicate s.extra (if s.turn.reverse then 'C' else 'A')

/-- A run is not longer than two letters, unless it is still being read. -/
def IsOpen (s : TurnReading) : Prop := s.extra ≠ 0 → s.turn.code = .aa

/-- A letter that is read comes behind those before it, unless it would close a run of more than
four; such a run is never closed. -/
theorem letters_step? (hc : c = 'Z' ∨ c = 'A' ∨ c = 'C') (hs : s.IsOpen)
    (h : s.step? c = some s') :
    s'.IsOpen ∧ (2 < s.extra → 2 < s'.extra) ∧
      (s'.extra ≤ 2 → s'.letters = s.letters ++ [c]) := by
  obtain ⟨⟨code, reverse⟩, extra⟩ := s
  by_cases hcode : code = .aa
  · subst hcode
    obtain _ | _ | _ | extra := extra <;> cases reverse <;> obtain rfl | rfl | rfl := hc <;>
      simp [step?, close] at h <;> subst h <;>
        simp [IsOpen, letters, Turn.letters, TurnCode.letters, Turn.swapLetter,
          List.replicate_succ']
  · obtain rfl : extra = 0 := Decidable.not_not.1 fun hextra => hcode (hs hextra)
    cases code <;> cases reverse <;> obtain rfl | rfl | rfl := hc <;>
      simp [step?] at h hcode <;> subst h <;>
        simp [IsOpen, letters, Turn.letters, TurnCode.letters, Turn.swapLetter]

/-- **What is read of a turn are its letters**, if no run is left open. -/
theorem letters_read? {cs rest : List Char} (hs : s.IsOpen)
    (h : s.read? cs = some (s', rest)) (hextra : s'.extra = 0) :
    s.extra ≤ 2 ∧ s.letters ++ cs = s'.turn.letters ++ rest := by
  induction cs generalizing s with
  | nil =>
    cases h
    simp [letters, hextra]
  | cons c cs ih =>
    rw [read?] at h
    split at h
    · rename_i hc
      obtain ⟨s₁, hstep, h⟩ := Option.bind_eq_some_iff.1 h
      obtain ⟨hs₁, hlong, hletters⟩ := letters_step? hc hs hstep
      obtain ⟨hle, heq⟩ := ih hs₁ h
      refine ⟨by omega, ?_⟩
      rw [← heq, hletters hle, List.append_assoc, List.singleton_append]
    · cases h
      simp [letters, hextra]

/-- No letter of a turn comes first. -/
def EndsTurn (cs : List Char) : Prop := ∀ c, cs.head? = some c → ¬(c = 'Z' ∨ c = 'A' ∨ c = 'C')

/-- Where the turn ends nothing more is read into it. -/
theorem read?_of_endsTurn {cs : List Char} (h : EndsTurn cs) : s.read? cs = some (s, cs) := by
  cases cs with
  | nil => rfl
  | cons c cs => rw [read?, if_neg (h c rfl)]

/-- **The letters of a turn are read.** -/
theorem read?_letters (t : Turn) {rest : List Char} (h : EndsTurn rest) :
    read? {} (t.letters ++ rest) = some (⟨t, 0⟩, rest) := by
  obtain ⟨code, reverse⟩ := t
  cases code <;> cases reverse <;>
    simp [Turn.letters, TurnCode.letters, Turn.swapLetter, read?, step?, close,
      read?_of_endsTurn h]

end TurnReading

/-! ### Marks -/

/-- The letter of a slide mark is taken from the front, if it is there. -/
theorem readSlide_spec (cs : List Char) :
    cs = (readSlide cs).1.toList.map SlideMark.letter ++ (readSlide cs).2 := by
  unfold readSlide
  split <;> rfl

/-- What is left behind the slide mark must be the roll mark and nothing else. -/
theorem readRoll?_eq_some_iff {cs : List Char} {r : Option RollMark} :
    readRoll? cs = some r ↔ cs = r.toList.map RollMark.letter := by
  constructor
  · intro h
    unfold readRoll? at h
    split at h <;> cases h <;> rfl
  · rintro rfl
    rcases r with _ | _ | _ | _ <;> rfl

/-- A slide mark and a roll mark are told apart again, whether they are there or not. -/
theorem readSlide_marks (s : Option SlideMark) (r : Option RollMark) :
    readSlide (s.toList.map SlideMark.letter ++ r.toList.map RollMark.letter)
      = (s, r.toList.map RollMark.letter) := by
  rcases s with _ | _ | _ <;> rcases r with _ | _ | _ | _ <;> rfl

/-- Behind the turn no mark goes on with it. -/
theorem endsTurn_marks (s : Option SlideMark) (r : Option RollMark) :
    TurnReading.EndsTurn (s.toList.map SlideMark.letter ++ r.toList.map RollMark.letter) := by
  rcases s with _ | _ | _ <;> rcases r with _ | _ | _ | _ <;> rintro c ⟨⟩ <;> decide

/-- **Marks are read** if they are the letters of a turn, a slide and a roll one after another. -/
theorem readMarks?_eq_some_iff {cs : List Char} {t : Turn} {s : Option SlideMark}
    {r : Option RollMark} :
    readMarks? cs = some (t, s, r) ↔ marksOf? cs = some (t.letters
      ++ (s.toList.map SlideMark.letter ++ r.toList.map RollMark.letter)) := by
  unfold readMarks?
  constructor
  · intro h
    obtain ⟨marks, hmarks, h⟩ := Option.bind_eq_some_iff.1 h
    obtain ⟨⟨reading, rest⟩, hread, h⟩ := Option.bind_eq_some_iff.1 h
    dsimp only at h
    split at h
    · cases h
    · rename_i hextra
      obtain ⟨roll, hroll, h⟩ := Option.bind_eq_some_iff.1 h
      cases h
      have hopen : TurnReading.IsOpen {} := fun h => absurd rfl h
      obtain ⟨-, hletters⟩ := TurnReading.letters_read? hopen hread (Decidable.not_not.1 hextra)
      rw [hmarks, ← readRoll?_eq_some_iff.1 hroll, ← readSlide_spec, ← hletters]
      rfl
  · intro h
    rw [h]
    simp only [Option.bind_eq_bind, Option.bind_some,
      TurnReading.read?_letters t (endsTurn_marks s r), readSlide_marks,
      readRoll?_eq_some_iff.2 rfl]
    rfl

/-! ### Letters and digits of a word -/

section Word

variable {marks digits cs : List Char} {c : Char}

/-- Among digits there is no letter. -/
theorem countP_letters_eq_zero (h : ∀ c ∈ digits, c.isDigit = true) :
    digits.countP (!·.isDigit) = 0 :=
  List.countP_eq_zero.2 fun c hc => by simp [h c hc]

/-- Among letters each one is counted. -/
theorem countP_letters_eq_length (h : ∀ c ∈ marks, c.isDigit = false) :
    marks.countP (!·.isDigit) = marks.length :=
  List.countP_eq_length.2 fun c hc => by simp [h c hc]

/-- The marks stand before the digits, if one letter stands behind these. -/
theorem marksOf?_append (hmarks : ∀ c ∈ marks, c.isDigit = false)
    (hdigits : ∀ c ∈ digits, c.isDigit = true) (hc : c.isDigit = false) :
    marksOf? (marks ++ digits ++ [c]) = some marks := by
  have hcount : (marks ++ digits ++ [c]).countP (!·.isDigit) = marks.length + 1 := by
    rw [List.countP_append, List.countP_append, countP_letters_eq_length hmarks,
      countP_letters_eq_zero hdigits]
    simp [hc]
  rw [marksOf?, hcount]
  simp

/-- **What stands between the marks and the last letter are digits**, since the marks are as many
as there are other letters. -/
theorem exists_digits_of_marksOf? (h : marksOf? cs = some marks)
    (hmarks : ∀ c ∈ marks, c.isDigit = false) (hlast : cs.getLast? = some c)
    (hc : c.isDigit = false) :
    ∃ digits, cs = marks ++ digits ++ [c] ∧ ∀ c ∈ digits, c.isDigit = true := by
  unfold marksOf? at h
  simp only at h
  split at h
  · cases h
  · rename_i hcount
    have htake := Option.some.inj h
    obtain ⟨before, rfl⟩ := List.getLast?_eq_some_iff.1 hlast
    have hletters : (before ++ [c]).countP (!·.isDigit) = before.countP (!·.isDigit) + 1 := by
      rw [List.countP_append]
      simp [hc]
    rw [hletters, Nat.add_sub_cancel, List.take_append_of_le_length List.countP_le_length] at htake
    have hsplit := List.take_append_drop (before.countP (!·.isDigit)) before
    rw [htake] at hsplit
    refine ⟨before.drop (before.countP (!·.isDigit)), by rw [hsplit], fun d hd => ?_⟩
    have hrest : (before.drop (before.countP (!·.isDigit))).countP (!·.isDigit) = 0 := by
      have hlength : marks.length = before.countP (!·.isDigit) := by
        rw [← htake, List.length_take, Nat.min_eq_left List.countP_le_length]
      have hall := congrArg (List.countP (!·.isDigit)) hsplit
      rw [List.countP_append, countP_letters_eq_length hmarks] at hall
      omega
    simpa using List.countP_eq_zero.1 hrest d hd

/-- Only the digits of a word count for its number. -/
theorem digitsValue_append (hmarks : ∀ c ∈ marks, c.isDigit = false)
    (hdigits : ∀ c ∈ digits, c.isDigit = true) (hc : c.isDigit = false) :
    digitsValue (marks ++ digits ++ [c]) = Nat.ofDigitChars 10 digits 0 := by
  have hnone : marks.filter (·.isDigit) = [] :=
    List.filter_eq_nil_iff.2 fun c hc => by simp [hmarks c hc]
  have hall : digits.filter (·.isDigit) = digits := List.filter_eq_self.2 hdigits
  have hlast : [c].filter (·.isDigit) = [] := by simp [hc]
  rw [digitsValue, List.filter_append, List.filter_append, hnone, hall, hlast, List.nil_append,
    List.append_nil, Nat.ofDigitChars]
  simp only [Nat.mul_comm]

end Word

/-! ### Destinations -/

/-- No letter of a turn or of a mark is a digit. -/
theorem isDigit_marks (t : Turn) (s : Option SlideMark) (r : Option RollMark) :
    ∀ c ∈ t.letters ++ (s.toList.map SlideMark.letter ++ r.toList.map RollMark.letter),
      c.isDigit = false := by
  have hturn : t.letters.all (!·.isDigit) = true := by
    obtain ⟨code, reverse⟩ := t
    cases code <;> cases reverse <;> rfl
  have hrest : (s.toList.map SlideMark.letter ++ r.toList.map RollMark.letter).all (!·.isDigit)
      = true := by
    rcases s with _ | _ | _ <;> rcases r with _ | _ | _ | _ <;> rfl
  intro c hc
  refine (Bool.not_eq_true' _).mp ?_
  obtain hc | hc := List.mem_append.1 hc
  · exact List.all_eq_true.1 hturn c hc
  · exact List.all_eq_true.1 hrest c hc

/-- No letter of a direction is a digit. -/
theorem isDigit_letter (d : Direction) : d.letter.isDigit = false := by
  cases d <;> rfl

/-- A direction has one letter, and the letter one direction. -/
theorem ofLetter?_eq_some_iff {c : Char} {d : Direction} :
    Direction.ofLetter? c = some d ↔ c = d.letter := by
  constructor
  · intro h
    unfold Direction.ofLetter? at h
    split at h <;> cases h <;> rfl
  · rintro rfl
    exact Direction.ofLetter?_letter d

/-- What is spelled, by the letters of the parts instead of their words. -/
theorem isSpelled_iff {digits cs : List Char} {d : Destination} :
    IsSpelled digits cs d ↔ cs = d.marks ++ digits ++ [d.direction.letter] ∧
      (∀ c ∈ digits, c.isDigit = true) ∧ d.position.toNat = Nat.ofDigitChars 10 digits 0 ∧
        isValidPosition d.position.toNat = true ∧ d.y = none := by
  constructor
  · rintro ⟨⟨turn, slide, roll, direction, hturn, hslide, hroll, hdirection, hcs⟩, hdigits,
      hposition, hrange, hy⟩
    rw [Turn.mem_words_iff] at hturn
    rw [SlideMark.mem_words_iff] at hslide
    rw [RollMark.mem_words_iff] at hroll
    rw [Direction.mem_words_iff] at hdirection
    rw [hturn, hslide, hroll, hdirection] at hcs
    exact ⟨hcs, hdigits, hposition, isValidPosition_iff.2 hrange, hy⟩
  · rintro ⟨hcs, hdigits, hposition, hvalid, hy⟩
    refine ⟨⟨.ofList d.turn.letters, .ofList (d.slide.toList.map SlideMark.letter),
      .ofList (d.roll.toList.map RollMark.letter), .ofList [d.direction.letter],
      Turn.mem_words_iff.2 String.toList_ofList, SlideMark.mem_words_iff.2 String.toList_ofList,
      RollMark.mem_words_iff.2 String.toList_ofList,
      Direction.mem_words_iff.2 String.toList_ofList, ?_⟩, hdigits, hposition,
      isValidPosition_iff.1 hvalid, hy⟩
    simp only [String.toList_ofList]
    exact hcs

/-- What the reader accepts, step by step. -/
theorem ofText_eq_ok {s : String} {d : Destination} : ofText s = .ok d ↔
    readMarks? (s.toList.map Char.toUpper) = some (d.turn, d.slide, d.roll) ∧
      isValidPosition (digitsValue (s.toList.map Char.toUpper)) = true ∧
        (s.toList.map Char.toUpper).getLast? = some d.direction.letter ∧
          d.position = UInt8.ofNat (digitsValue (s.toList.map Char.toUpper)) ∧ d.y = none := by
  unfold ofText
  generalize s.toList.map Char.toUpper = cs
  constructor
  · intro h
    simp only at h
    split at h
    · rename_i turn slide roll hmarks
      split at h
      · cases h
      · rename_i hvalid
        split at h
        · rename_i direction hdirection
          cases h
          obtain ⟨c, hlast, hc⟩ := Option.bind_eq_some_iff.1 hdirection
          rw [ofLetter?_eq_some_iff.1 hc] at hlast
          exact ⟨hmarks, by simpa using hvalid, hlast, rfl, rfl⟩
        · cases h
    · cases h
  · rintro ⟨hmarks, hvalid, hlast, hposition, hy⟩
    obtain ⟨turn, slide, roll, position, direction, y⟩ := d
    subst hposition hy
    simp only [hmarks, hvalid, hlast, Option.bind_some, Direction.ofLetter?_letter]
    rfl

/-- **The reader accepts what is spelled**, whatever the digits are, and reads what it spells. -/
theorem ofText_eq_ok_iff_isSpelled {s : String} {d : Destination} :
    ofText s = .ok d ↔ ∃ digits, IsSpelled digits (s.toList.map Char.toUpper) d := by
  rw [ofText_eq_ok]
  generalize s.toList.map Char.toUpper = cs
  have hmarks : ∀ c ∈ d.marks, c.isDigit = false := by
    rw [marks, List.append_assoc]
    exact isDigit_marks d.turn d.slide d.roll
  have hletter := isDigit_letter d.direction
  rw [readMarks?_eq_some_iff, ← List.append_assoc]
  constructor
  · rintro ⟨hread, hvalid, hlast, hposition, hy⟩
    obtain ⟨digits, rfl, hdigits⟩ := exists_digits_of_marksOf? hread hmarks hlast hletter
    have hvalue := digitsValue_append hmarks hdigits hletter
    rw [marks] at hvalue
    rw [hvalue] at hvalid hposition
    have hlt : Nat.ofDigitChars 10 digits 0 < 256 := by
      have hrange := isValidPosition_iff.1 hvalid
      omega
    have hnat : d.position.toNat = Nat.ofDigitChars 10 digits 0 := by
      rw [hposition, UInt8.toNat_ofNat_of_lt' hlt]
    exact ⟨digits, isSpelled_iff.2 ⟨rfl, hdigits, hnat, by rw [hnat]; exact hvalid, hy⟩⟩
  · rintro ⟨digits, h⟩
    obtain ⟨rfl, hdigits, hposition, hvalid, hy⟩ := isSpelled_iff.1 h
    rw [digitsValue_append hmarks hdigits hletter, ← hposition]
    exact ⟨marksOf?_append hmarks hdigits hletter, hvalid, List.getLast?_concat,
      UInt8.ofNat_toNat.symm, hy⟩

/-- **The reader accepts what spells a destination**, and else only what would spell one but for
the digits of its spot, which is then 0. -/
theorem ofText_eq_ok_iff {s : String} {d : Destination} : ofText s = .ok d ↔
    (∃ digits, digits ≠ [] ∧ IsSpelled digits (s.toList.map Char.toUpper) d) ∨
      IsSpelled [] (s.toList.map Char.toUpper) d := by
  rw [ofText_eq_ok_iff_isSpelled]
  constructor
  · rintro ⟨digits, h⟩
    by_cases hdigits : digits = []
    · subst hdigits
      exact .inr h
    · exact .inl ⟨digits, hdigits, h⟩
  · rintro (⟨digits, -, h⟩ | h)
    · exact ⟨digits, h⟩
    · exact ⟨[], h⟩

/-- **A word without digits is accepted** though it spells no destination. -/
theorem ofText_withoutDigits : ofText "N" = .ok { position := 0, direction := .north } ∧
    ¬ ∃ digits d, digits ≠ [] ∧ IsSpelled digits ("N".toList.map Char.toUpper) d := by
  refine ⟨rfl, ?_⟩
  rintro ⟨digits, d, hne, h⟩
  have hlength : 1 = d.marks.length + (digits.length + 1) := by
    simpa using congrArg List.length (isSpelled_iff.1 h).1
  have hpos := List.length_pos_iff.2 hne
  omega

end Destination
end SquareDance
