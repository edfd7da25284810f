/-
# Where parsers name no tags

Most parsers take tokens of which none names a tag: `Parser.Skims` says so, piece by piece.
It says what is known of the stage before the token that the parser looks at, at the start and
in the end: the stage itself (`At`), the token as well (`Sees`), or the stage behind the token
(`Before`).  Most parsers begin at a word that has been recognised and go on to the next
token, so what they need is that nothing matters behind the word, `Before .plain`.

That a word is recognised is enough for that: no word of the tables is `call` or a schema that
a tag follows, as looking through the tables shows.
-/

import SquareDance.Proofs.CallText.Entries
import SquareDance.Proofs.CallText.TagRecord

namespace SquareDance
namespace CallText

/-! ### Words that nothing matters behind -/

namespace Stage

/-- A number that tells a word from most others; numbers are compared faster than texts. -/
def bitOf (w : String) : Nat := (Text.utf8 w).foldl (fun n b => n * 256 + b.toNat) 0 % 1000003

/-- The bits of some words. -/
def bitsOf (ws : List String) : Nat := ws.foldr (fun w bits => bits ||| 1 <<< bitOf w) 0

/-- The bit of a word is among the bits of words that it is one of. -/
theorem testBit_bitsOf {ws : List String} {w : String} (h : w ∈ ws) :
    (bitsOf ws).testBit (bitOf w) = true := by
  induction ws with
  | nil => cases h
  | cons v ws ih =>
    rw [bitsOf, List.foldr_cons, Nat.testBit_or, Bool.or_eq_true]
    obtain rfl | h := List.mem_cons.1 h
    · exact .inr (by simp [Nat.testBit_shiftLeft])
    · exact .inl (ih h)

/-- A word that has a bit apart from those of `call` and the schemas is none of them. -/
theorem ofWord_of_testBit {w : String}
    (h : (bitsOf ("call" :: Schema.table)).testBit (bitOf w) = false) : ofWord w = plain := by
  have hnot : w ∉ "call" :: Schema.table := fun hw => by
    rw [testBit_bitsOf hw] at h
    cases h
  rw [List.mem_cons, not_or] at hnot
  obtain ⟨hcall, hschema⟩ := hnot
  have hnone : Schema.ofName? w = none := by
    cases hi : Schema.table.index? w with
    | none => rw [Schema.ofName?, hi]; rfl
    | some i => exact absurd (List.mem_of_getElem? (Vocabulary.getElem?_of_index? hi)) hschema
  rw [ofWord, if_neg hcall, hnone]
  rfl

/-- The words of the tables that a definition is written with. -/
def tableWords : List String :=
  Words.callFlags ++ Words.heritableFlags ++ Words.matrixFlags ++ EndSetup.table ++
    Qualifier.table ++ StartSetup.table.map (·.1) ++ Predicate.all.map (·.name) ++
    Level.all.map (·.name)

/-- A word of the tables is a word of one of them. -/
theorem mem_tableWords {w : String} :
    w ∈ tableWords ↔ w ∈ Words.callFlags ∨ w ∈ Words.heritableFlags ∨ w ∈ Words.matrixFlags ∨
      w ∈ EndSetup.table ∨ w ∈ Qualifier.table ∨ w ∈ StartSetup.table.map (·.1) ∨
      w ∈ Predicate.all.map (·.name) ∨ w ∈ Level.all.map (·.name) := by
  simp only [tableWords, List.mem_append, or_assoc]

/-- **Nothing matters behind a word of the tables.** -/
theorem ofWord_of_mem_tableWords {w : String} (h : w ∈ tableWords) : ofWord w = plain := by
  have hbits : tableWords.all (fun w =>
      w == "" || !(bitsOf ("call" :: Schema.table)).testBit (bitOf w)) = true := by
    decide +kernel
  have hempty : ofWord "" = plain := by decide +kernel
  have hw := List.all_eq_true.1 hbits w h
  rw [Bool.or_eq_true, beq_iff_eq, Bool.not_eq_true'] at hw
  obtain rfl | hw := hw
  · exact hempty
  · exact ofWord_of_testBit hw

/-- Nothing matters behind a word of a table whose words are among them. -/
theorem ofWord_of_index? {table : Vocabulary} (htable : table ⊆ tableWords) {w : String} {i : Nat}
    (h : table.index? w = some i) : ofWord w = plain :=
  ofWord_of_mem_tableWords (htable (List.mem_of_getElem? (Vocabulary.getElem?_of_index? h)))

/-- The other words that a definition is written with, most of which begin its parts. -/
def otherWords : List String :=
  FlagWord.specialWords ++
  ["simple_funny", "lateral_to_selectees", "split_to_box"] ++
  ["left", "out", "right", "in", "live", "tbone", "ntbone", "explicit", "num"] ++
  ["unusual", "forbidden", "resolve_ok", "controversial", "serious_violation", "assume_dpt",
   "each_1x3"] ++
  ["array", "preds", "qualifier", "restriction", "concendsetup", "predscantdo",
   "predscantdocallinsetup", "predsnoselect", "rotate", "no_cutting_through", "no_facing_ends",
   "other_elongate", "really_want_diamond", "no_compress", "plus_eighth_rotation"] ++
  ["if", "alternate_definition"]

/-- Nothing matters behind one of the other words. -/
theorem ofWord_of_mem_otherWords {w : String} (h : w ∈ otherWords) : ofWord w = plain := by
  have hbits : otherWords.all (fun w =>
      !(bitsOf ("call" :: Schema.table)).testBit (bitOf w)) = true := by
    decide +kernel
  have hw := List.all_eq_true.1 hbits w h
  rw [Bool.not_eq_true'] at hw
  exact ofWord_of_testBit hw

/-- Nothing matters behind a flag. -/
theorem ofWord_of_flagWord {w : String} {flag : FlagWord} (h : FlagWord.ofWord? w = some flag) :
    ofWord w = plain := by
  cases hi : Words.callFlags.index? w with
  | some i => exact ofWord_of_index? (fun _ hw => mem_tableWords.2 (.inl hw)) hi
  | none =>
    cases hs : FlagWord.ofSpecialWord? w with
    | some flag =>
      exact ofWord_of_mem_otherWords (by simp [otherWords, FlagWord.mem_specialWords hs])
    | none =>
      rw [FlagWord.ofWord?, hi, hs] at h
      obtain ⟨i, hi, -⟩ := Option.map_eq_some_iff.1 h
      exact ofWord_of_index? (fun _ hw => mem_tableWords.2 (.inr (.inl hw))) hi

/-- Nothing matters behind a flag of arrays. -/
theorem ofWord_of_arrayFlag {w : String} {bits : UInt32} (h : ArrayFlags.ofWord? w = some bits) :
    ofWord w = plain := by
  refine ofWord_of_mem_otherWords ?_
  unfold ArrayFlags.ofWord? at h
  split at h <;> first | (cases h; done) | simp [otherWords]

/-- Nothing matters behind a sign of a qualifier. -/
theorem ofWord_of_sign {w : String} {sign : Qualifier.Sign}
    (h : Qualifier.Sign.ofWord? w = some sign) : ofWord w = plain := by
  refine ofWord_of_mem_otherWords ?_
  unfold Qualifier.Sign.ofWord? at h
  split at h <;> first | (cases h; done) | simp [otherWords]

/-- Nothing matters behind the strength of a restriction. -/
theorem ofWord_of_strength {w : String} {bits : UInt32}
    (h : ArrayFlags.strengthOfWord? w = some bits) : ofWord w = plain := by
  refine ofWord_of_mem_otherWords ?_
  unfold ArrayFlags.strengthOfWord? at h
  split at h <;> first | (cases h; done) | simp [otherWords]

/-- Nothing matters behind the name of a qualifier. -/
theorem ofWord_of_qualifier {w : String} {i : Nat} (h : Qualifier.index? w = some i) :
    ofWord w = plain :=
  ofWord_of_index? (fun _ hw => mem_tableWords.2 (by simp only [hw, true_or, or_true])) h

/-- Nothing matters behind an ending setup. -/
theorem ofWord_of_endSetup {w : String} {i : Nat} (h : EndSetup.index? w = some i) :
    ofWord w = plain :=
  ofWord_of_index? (fun _ hw => mem_tableWords.2 (by simp only [hw, true_or, or_true])) h

/-- Nothing matters behind a flag of matrices. -/
theorem ofWord_of_matrixFlag {w : String} {i : Nat} (h : Words.matrixFlags.index? w = some i) :
    ofWord w = plain :=
  ofWord_of_index? (fun _ hw => mem_tableWords.2 (by simp only [hw, true_or, or_true])) h

/-- Nothing matters behind a starting setup. -/
theorem ofWord_of_startSetup {w : String} {i : Nat} (h : StartSetup.index? w = some i) :
    ofWord w = plain := by
  obtain ⟨hlt, hname, -⟩ := List.findIdx?_eq_some_iff_getElem.1 h
  have hmem : StartSetup.table[i].1 ∈ StartSetup.table.map (·.1) :=
    List.mem_map_of_mem (List.getElem_mem hlt)
  rw [beq_iff_eq.1 hname] at hmem
  exact ofWord_of_mem_tableWords (mem_tableWords.2 (by simp only [hmem, true_or, or_true]))

/-- Nothing matters behind a predicate. -/
theorem ofWord_of_predicate {w : String} {p : Predicate} (h : Predicate.ofName? w = some p) :
    ofWord w = plain := by
  have hmem : p.name ∈ Predicate.all.map (·.name) :=
    List.mem_map_of_mem (List.mem_of_find?_eq_some h)
  have hname := List.find?_some h
  rw [beq_iff_eq.1 hname] at hmem
  exact ofWord_of_mem_tableWords (mem_tableWords.2 (by simp only [hmem, true_or, or_true]))

/-- Nothing matters behind a level. -/
theorem ofWord_of_level {w : String} {l : Level} (h : Level.ofName? w = some l) :
    ofWord w = plain := by
  have hmem : l.name ∈ Level.all.map (·.name) :=
    List.mem_map_of_mem (List.mem_of_find?_eq_some h)
  have hname := List.find?_some h
  rw [beq_iff_eq.1 hname] at hmem
  exact ofWord_of_mem_tableWords (mem_tableWords.2 (by simp only [hmem, or_true]))

/-- Nothing matters behind a word that begins a part of an array definition. -/
theorem ofWord_of_arrayPart {w : String} {part : Parser.ArrayPart}
    (h : Parser.ArrayPart.ofWord? w = some part) : ofWord w = plain := by
  refine ofWord_of_mem_otherWords ?_
  unfold Parser.ArrayPart.ofWord? at h
  split at h
  case h_6 =>
    cases hm : CannedMessage.ofName? w with
    | some m =>
      have hname := List.find?_some hm
      rw [← beq_iff_eq.1 hname]
      cases m <;> simp [otherWords, CannedMessage.name]
    | none =>
      rw [hm] at h
      obtain ⟨bits, hbits, -⟩ := Option.map_eq_some_iff.1 h
      unfold ArrayFlags.ofOption? at hbits
      split at hbits <;> first | (cases hbits; done) | simp [otherWords]
  all_goals simp [otherWords]

end Stage

/-- Stages at which no token names a tag or a call. -/
def Stage.IsQuiet : Stage → Prop
  | plain | bracket _ | list _ | level | head => True
  | name | tag | sameAs | use _ => False

namespace Parser

open Consumer

variable {α β γ : Type}

/-! ### Readings that name no tags -/

/-- From one reading to another no token names a tag: the words behind them are the same, and
so is what has been learned. -/
structure Passes (s : Stage) (r : Reading) (s' : Stage) (rest : Reading) : Prop where
  tags : rest.tags = r.tags
  call : rest.call = r.call
  words : ∀ call, tagWords s call (numbered r.tokens) = tagWords s' call (numbered rest.tokens)

namespace Passes

/-- Where no token is taken none names a tag. -/
theorem refl (s : Stage) (r : Reading) : Passes s r s r := ⟨rfl, rfl, fun _ => rfl⟩

/-- One reading after another names no tag. -/
theorem trans {s s' s'' : Stage} {r r' r'' : Reading} (h : Passes s r s' r')
    (h' : Passes s' r' s'' r'') : Passes s r s'' r'' :=
  ⟨h'.tags.trans h.tags, h'.call.trans h.call, fun call => (h.words call).trans (h'.words call)⟩

end Passes

/-- A stage before the token that the parser looks at. -/
def At (s₀ s : Stage) (_ : Reading) : Prop := s = s₀

/-- The parser looks at a given token, at a given stage. -/
def Sees (s₀ : Stage) (t : Token) (s : Stage) (r : Reading) : Prop :=
  s = s₀ ∧ r.tokens.head? = some t

/-- A stage behind the token that the parser looks at, which names no tag. -/
def Before (s₀ s : Stage) (r : Reading) : Prop :=
  s.IsQuiet ∧ ∃ t, r.tokens.head? = some t ∧ s.next t = s₀

/-- The stage behind a token is known where the token is seen and names nothing. -/
theorem Sees.before {s₀ s : Stage} {t : Token} {r : Reading} (h : Sees s₀ t s r)
    (hs : s₀.IsQuiet) {s₁ : Stage} (hnext : s₀.next t = s₁) : Before s₁ s r :=
  ⟨h.1 ▸ hs, t, h.2, h.1 ▸ hnext⟩

/-- A word is recognised behind which nothing matters. -/
theorem Sees.before_plain {s : Stage} {w : String} {r : Reading} (h : Sees .plain (.word w) s r)
    (hw : Stage.ofWord w = .plain) : Before .plain s r := h.before trivial hw

/-- A parser that takes no token that names a tag, from what is known of the stage before it
to what is known in the end. -/
def Skims (I : Stage → Reading → Prop) (p : Parser α) (J : α → Stage → Reading → Prop) : Prop :=
  ∀ s r x rest, I s r → p r = .ok (x, rest) → ∃ s', Passes s r s' rest ∧ J x s' rest

namespace Skims

variable {I I' : Stage → Reading → Prop} {J J' : α → Stage → Reading → Prop}

/-- What takes nothing names no tag. -/
theorem pure {x : α} (h : ∀ s r, I s r → J x s r) : Skims I (Pure.pure x : Parser α) J := by
  intro s r y rest hI hp
  obtain ⟨rfl, rfl⟩ := pure_eq_ok.1 hp
  exact ⟨s, .refl s r, h s r hI⟩

/-- What fails names no tag. -/
theorem fail (e : Problem) : Skims I (Parser.fail e : Parser α) J := by
  intro s r x rest _ hp
  cases hp

/-- What one parser knows in the end the next one knows to begin with. -/
theorem bind {p : Parser α} {f : α → Parser β} {K : β → Stage → Reading → Prop}
    (hp : Skims I p J) (hf : ∀ x, Skims (J x) (f x) K) : Skims I (p >>= f) K := by
  intro s r y rest hI h
  obtain ⟨x, mid, h₁, h₂⟩ := bind_eq_ok.1 h
  obtain ⟨s₁, hpass, hJ⟩ := hp s r x mid hI h₁
  obtain ⟨s₂, hpass', hK⟩ := hf x s₁ mid y rest hJ h₂
  exact ⟨s₂, hpass.trans hpass', hK⟩

/-- What is known before may be more than what is needed. -/
theorem of_imp {p : Parser α} (hI : ∀ s r, I' s r → I s r) (h : Skims I p J) : Skims I' p J :=
  fun s r x rest hI' hp => h s r x rest (hI s r hI') hp

/-- What is known as a fact apart from the reading may be assumed. -/
theorem of_and {P : Prop} {p : Parser α} (h : P → Skims I p J) :
    Skims (fun s r => P ∧ I s r) p J := fun s r x rest hI hp => h hI.1 s r x rest hI.2 hp

/-- **What each turn keeps the loop keeps.** -/
theorem loop {step : β → Parser (β ⊕ γ)} {ht : ∀ b, (step b).Turns}
    {K : γ → Stage → Reading → Prop}
    (hs : ∀ b, Skims I (step b) (Sum.elim (fun _ => I) K)) (b : β) :
    Skims I (Consumer.loop step ht b) K := by
  intro s r c rest hI h
  refine loop_induct (motive := fun _ r c rest => ∀ s, I s r →
    ∃ s', Passes s r s' rest ∧ K c s' rest) ?_ ?_ h s hI
  · intro b r c rest h s hI
    exact hs b s r _ rest hI h
  · intro b r b' mid c rest h ih s hI
    obtain ⟨s₁, hpass, hI₁⟩ := hs b s r _ mid hI h
    obtain ⟨s₂, hpass', hK⟩ := ih s₁ hI₁
    exact ⟨s₂, hpass.trans hpass', hK⟩

end Skims

/-! ### Tokens -/

section Tokens

variable {I : Stage → Reading → Prop} {s₀ : Stage}

/-- To ask for something leaves what is known, and adds what it is. -/
theorem skims_orFail (x : Option α) (e : Problem) :
    Skims I (orFail x e) fun a s r => x = some a ∧ I s r := by
  intro s r a rest hI h
  obtain ⟨hx, rfl⟩ := orFail_eq_ok.1 h
  exact ⟨s, .refl s r, hx, hI⟩

/-- To ask whether something is accepted leaves what is known. -/
theorem skims_accepted (x : Except String α) : Skims I (accepted x) fun _ => I := by
  intro s r a rest hI h
  obtain ⟨-, rfl⟩ := accepted_eq_ok.1 h
  exact ⟨s, .refl s r, hI⟩

/-- To look at a token leaves what is known, and adds the token. -/
theorem skims_current? : Skims I current? fun t s r => I s r ∧ r.tokens.head? = t := by
  intro s r t rest hI h
  obtain ⟨ht, rfl⟩ := current?_eq_ok.1 h
  exact ⟨s, .refl s r, hI, ht⟩

/-- Leaving a token that names no tag passes it. -/
theorem skims_leave : Skims (Before s₀) leave fun _ => At s₀ := by
  intro s r u rest ⟨hquiet, t, ht, hnext⟩ h
  unfold leave at h
  split at h
  · rename_i t' ts htokens
    cases h
    rw [htokens, List.head?_cons, Option.some.injEq] at ht
    subst ht
    refine ⟨s₀, ⟨rfl, rfl, fun call => ?_⟩, rfl⟩
    rw [htokens, numbered, tagWords, hnext]
    cases s <;> first | exact hquiet.elim | rfl
  · cases h

/-- To go on is to stand at the stage behind the token. -/
theorem skims_advance : Skims (Before s₀) advance fun _ => At s₀ :=
  skims_leave.bind fun _ s r u rest hI h => by
    obtain rfl := present_eq_ok h
    exact ⟨s, .refl s r, hI⟩

/-- To go on, perhaps to the end, is to stand at the stage behind the token. -/
theorem skims_advanceOrEnd : Skims (Before s₀) advanceOrEnd fun _ => At s₀ :=
  skims_leave.bind fun _ s r u rest hI h => by
    obtain rfl := presentOrEnd_eq_ok h
    exact ⟨s, .refl s r, hI⟩

/-- Where a symbol is asked for it is seen. -/
theorem skims_symbolHere (m : String) :
    Skims (At s₀) (symbolHere m) fun w => Sees s₀ (.word w) := by
  intro s r w rest hI h
  obtain ⟨ht, rfl⟩ := symbolHere_eq_ok h
  exact ⟨s, .refl s r, hI, ht⟩

/-- Where a symbol is next it is seen. -/
theorem skims_symbol (m : String) : Skims (Before s₀) (symbol m) fun w => Sees s₀ (.word w) :=
  skims_advance.bind fun _ => skims_symbolHere m

/-- Where a string is next it is seen. -/
theorem skims_text (m : String) : Skims (Before s₀) (text m) fun w => Sees s₀ (.text w) :=
  skims_advance.bind fun _ => skims_current?.bind fun t => by
    split
    · exact .pure fun s r h => h
    · exact .fail _

/-- Where a number is next it is seen. -/
theorem skims_number (m : String) : Skims (Before s₀) (number m) fun n => Sees s₀ (.number n) :=
  skims_advance.bind fun _ => skims_current?.bind fun t => by
    split
    · exact .pure fun s r h => h
    · exact .fail _

/-- Where a symbol is looked for it is seen if it is there. -/
theorem skims_symbol? : Skims (At s₀) symbol? fun w s r =>
    At s₀ s r ∧ ∀ w', w = some w' → Sees s₀ (.word w') s r :=
  skims_current?.bind fun t => by
    split
    · refine .pure fun s r h => ⟨h.1, fun w' hw => ?_⟩
      cases hw
      exact h
    · exact .pure fun s r h => ⟨h.1, fun w' hw => nomatch hw⟩

/-- Where the token looked at is compared it is seen if it is that one. -/
theorem skims_isAt (t : Token) : Skims (At s₀) (isAt t) fun b s r =>
    At s₀ s r ∧ (b = true → Sees s₀ t s r) :=
  skims_current?.bind fun _ => .pure fun _ _ h =>
    ⟨h.1, fun hb => ⟨h.1, h.2.trans (beq_iff_eq.1 hb)⟩⟩

end Tokens

end Parser

end CallText
end SquareDance
