/-
# Where a text goes on

A text of call definitions may go on behind its end with more calls.  The parser of a definition
then looks at the word `call` where the text ended before, and must take neither for more than
the end of the definition: a parser that does so `Continues`.  What it finds in the text it finds
in the text that goes on, and it leaves what it left before with the rest behind.  The tags have
the same numbers; only the places of their uses count the tokens left behind the text.

This passes from the pieces of a parser to the whole.  The pieces that matter are those that look
at the next token without asking for one, which see `call` in the place of the end.
-/

import SquareDance.Proofs.CallText.Sound
import SquareDance.Proofs.CallText.TagPlaces

namespace SquareDance
namespace CallText

/-- What a text may go on with: tokens from the word `call` on, and how they end. -/
structure Sequel where
  tokens : List Token
  failure : Option LexError
  head_eq : tokens.head? = some (.word "call")

namespace Reading

/-- The reading where the text goes on behind its end. -/
def before (r : Reading) (q : Sequel) : Reading where
  tokens := r.tokens ++ q.tokens
  failure := q.failure
  tags := r.tags.mapPlace (· + q.tokens.length)
  call := r.call

/-- The tokens end in a failure or at the end of the text, and no token is left only there. -/
def EndsIn (r : Reading) (failure : Option LexError) : Prop :=
  r.failure = failure ∧ (r.tokens = [] → failure = none)

/-- Where the text ends the word `call` comes next in the text that goes on. -/
theorem head?_before_of_nil {r : Reading} (h : r.tokens = []) (q : Sequel) :
    (r.before q).tokens.head? = some (.word "call") := by
  rw [before, h, List.nil_append, q.head_eq]

/-- Before the end of the text the same token comes next in the text that goes on. -/
theorem head?_before_of_some {r : Reading} {t : Token} (h : r.tokens.head? = some t)
    (q : Sequel) : (r.before q).tokens.head? = some t := by
  rw [before, List.head?_append, h, Option.some_or]

end Reading

namespace Parser

open Consumer Reading

variable {α β γ : Type} {r rest : Reading}

/-- The symbol of a token. -/
def symbolOf : Option Token → Option String
  | some (.word s) => some s
  | _ => none

/-- What is done with a symbol that is looked for depends on the next token alone. -/
theorem bind_symbol? (f : Option String → Parser α) (r : Reading) :
    (symbol? >>= f) r = f (symbolOf r.tokens.head?) r := by
  refine bind_of_ok ?_ f
  rw [symbol?, bind_of_ok (current?_eq_ok.2 ⟨rfl, rfl⟩)]
  cases r.tokens.head? with
  | none => rfl
  | some t => cases t <;> rfl

/-- A parser that finds the same where the text goes on, and the end only where the text
ends. -/
structure Continues (p : Parser α) : Prop where
  before : ∀ r x rest, p r = .ok (x, rest) → ∀ q, p (r.before q) = .ok (x, rest.before q)
  endsIn : ∀ r x rest, p r = .ok (x, rest) → ∀ e, r.EndsIn e → rest.EndsIn e

namespace Continues

/-- What takes nothing goes on with nothing. -/
theorem pure (x : α) : Continues (Pure.pure x : Parser α) := by
  constructor <;> intro r y rest h <;> obtain ⟨rfl, rfl⟩ := pure_eq_ok.1 h
  · exact fun _ => rfl
  · exact fun _ => id

/-- What fails finds nothing that there might be more of. -/
theorem fail (e : Problem) : Continues (Parser.fail e : Parser α) := ⟨nofun, nofun⟩

/-- Parsers that continue may follow each other. -/
theorem bind {p : Parser α} {f : α → Parser β} (hp : Continues p) (hf : ∀ x, Continues (f x)) :
    Continues (p >>= f) := by
  constructor <;> intro r y rest h <;> obtain ⟨x, mid, hx, hy⟩ := bind_eq_ok.1 h
  · intro q
    rw [bind_of_ok (hp.before r x mid hx q)]
    exact (hf x).before mid y rest hy q
  · exact fun e hr => (hf x).endsIn mid y rest hy e (hp.endsIn r x mid hx e hr)

/-- **Where each turn continues the loop continues.** -/
theorem loop {step : β → Parser (β ⊕ γ)} {ht : ∀ b, (step b).Turns}
    (hs : ∀ b, Continues (step b)) (b : β) : Continues (loop step ht b) := by
  constructor <;> intro r c rest h
  · intro q
    refine loop_induct (motive := fun b r c rest =>
      Consumer.loop step ht b (r.before q) = .ok (c, rest.before q)) ?_ ?_ h
    · exact fun b r c rest hturn => loop_of_inr ((hs b).before r _ rest hturn q)
    · intro b r b' mid c rest hturn ih
      rw [loop_of_inl ((hs b).before r _ mid hturn q), ih]
  · intro e
    refine loop_induct (motive := fun _ r _ rest => r.EndsIn e → rest.EndsIn e) ?_ ?_ h
    · exact fun b r c rest hturn => (hs b).endsIn r _ rest hturn e
    · exact fun b r b' mid c rest hturn ih hr => ih ((hs b).endsIn r _ mid hturn e hr)

/-- What is missing does not depend on the tokens. -/
theorem orFail (x : Option α) (e : Problem) : Continues (Parser.orFail x e) := by
  cases x with
  | none => exact .fail e
  | some a => exact .pure a

/-- What is refused does not depend on the tokens. -/
theorem accepted (x : Except String α) : Continues (Parser.accepted x) := by
  cases x with
  | error m => exact .fail _
  | ok a => exact .pure a

/-! ### Looking at a token -/

/-- **Looking at the next token** where there may be none: what is done at the end is done at
the word `call`. -/
theorem look {f : Option Token → Parser α} (hf : ∀ t, Continues (f (some t)))
    (hend : ∀ r x rest, r.tokens = [] → f none r = .ok (x, rest) →
      (∀ q, f (some (.word "call")) (r.before q) = .ok (x, rest.before q)) ∧
        ∀ e, r.EndsIn e → rest.EndsIn e) :
    Continues (current? >>= f) := by
  constructor <;> intro r x rest h <;> obtain ⟨t, mid, ht, hx⟩ := bind_eq_ok.1 h <;>
    obtain ⟨hhead, rfl⟩ := current?_eq_ok.1 ht
  · intro q
    cases t with
    | none =>
      have hnil := List.head?_eq_none_iff.1 hhead
      rw [bind_of_ok (current?_eq_ok.2 ⟨head?_before_of_nil hnil q, rfl⟩)]
      exact (hend r x rest hnil hx).1 q
    | some t =>
      rw [bind_of_ok (current?_eq_ok.2 ⟨head?_before_of_some hhead q, rfl⟩)]
      exact (hf t).before r x rest hx q
  · cases t with
    | none => exact (hend r x rest (List.head?_eq_none_iff.1 hhead) hx).2
    | some t => exact (hf t).endsIn r x rest hx

/-- Looking at the next token where there has to be one. -/
theorem look_some {f : Option Token → Parser α} (hf : ∀ t, Continues (f (some t)))
    (hend : ∀ r p, f none r ≠ .ok p) : Continues (current? >>= f) :=
  look hf fun r _ _ _ h => absurd h (hend r _)

/-- A symbol that is found is there where the text goes on. -/
theorem symbolHere (m : String) : Continues (Parser.symbolHere m) := by
  refine look_some (fun t => ?_) nofun
  cases t with
  | word s => exact .pure s
  | leftBracket | rightBracket | text | number => exact .fail _

/-- An indicator that is found is there where the text goes on. -/
theorem indicator : Continues Parser.indicator := symbolHere _

/-- Asking for a token that is not `call`. -/
theorem isAt {t : Token} (ht : t ≠ .word "call") : Continues (Parser.isAt t) := by
  refine look (fun t => .pure _) fun r x rest _ h => ?_
  obtain ⟨rfl, rfl⟩ := pure_eq_ok.1 h
  have hcall : (some (Token.word "call") == some t) = (none == some t) := by
    rw [Option.some_beq_some, beq_eq_false_iff_ne.2 ht.symm]
    rfl
  exact ⟨fun q => by rw [hcall]; rfl, fun _ => id⟩

/-- Looking for a symbol, where `call` counts as none. -/
theorem symbol? {f : Option String → Parser α} (hf : ∀ s, Continues (f s))
    (hcall : f (some "call") = f none) : Continues (Parser.symbol? >>= f) := by
  constructor <;> intro r x rest h <;> rw [bind_symbol?] at h
  · intro q
    rw [bind_symbol?]
    cases hhead : r.tokens.head? with
    | none =>
      rw [hhead] at h
      rw [head?_before_of_nil (List.head?_eq_none_iff.1 hhead)]
      exact hcall ▸ (hf none).before r x rest h q
    | some t =>
      rw [head?_before_of_some hhead, ← hhead]
      exact (hf _).before r x rest h q
  · exact (hf _).endsIn r x rest h

/-! ### Going on -/

/-- Where a token is left one is left in the text that goes on. -/
theorem present : Continues Parser.present := by
  constructor <;> intro r x rest h <;> obtain rfl := present_eq_ok h
  · intro q
    obtain ⟨tokens, failure, tags, call⟩ := r
    cases tokens with
    | nil => cases failure <;> cases h
    | cons t ts => rfl
  · exact fun _ => id

/-- Going on to a token finds one, in the text that goes on as well. -/
theorem advance_before {u : Unit} (h : Parser.advance r = .ok (u, rest)) :
    rest.tokens ≠ [] ∧ rest.failure = r.failure ∧
      ∀ q, Parser.advance (r.before q) = .ok (u, rest.before q) := by
  obtain ⟨tokens, failure, tags, call⟩ := r
  match tokens with
  | [] => cases h
  | [t] => cases failure <;> cases h
  | t :: t' :: ts =>
    cases h
    exact ⟨List.cons_ne_nil _ _, rfl, fun q => rfl⟩

/-- To go on to a token is to go on to it in the text that goes on. -/
theorem advance : Continues Parser.advance := by
  constructor <;> intro r x rest h <;> obtain ⟨hne, hfailure, hbefore⟩ := advance_before h
  · exact hbefore
  · exact fun e hr => ⟨hfailure.trans hr.1, fun hnil => absurd hnil hne⟩

/-- To go on to the end is to go on to the word `call`. -/
theorem advanceOrEnd : Continues Parser.advanceOrEnd := by
  constructor <;> intro r x rest h <;> obtain ⟨tokens, failure, tags, call⟩ := r
  · rintro ⟨qtokens, qfailure, hq⟩
    match tokens, qtokens with
    | [], _ => cases h
    | _, [] => cases hq
    | [t], _ :: _ =>
      cases failure <;> cases h
      rfl
    | t :: t' :: ts, _ :: _ =>
      cases h
      rfl
  · intro e he
    match tokens with
    | [] => cases h
    | [t] =>
      cases failure <;> cases h
      exact ⟨he.1, fun _ => he.1.symm⟩
    | t :: t' :: ts =>
      cases h
      exact ⟨he.1, nofun⟩

/-- Going on to a token and looking for a symbol there, where `call` need not count as none: a
token is there in any case. -/
theorem advance_symbol? {f : Option String → Parser α} (hf : ∀ s, Continues (f s)) :
    Continues (Parser.advance >>= fun _ => Parser.symbol? >>= f) := by
  constructor <;> intro r x rest h <;> obtain ⟨u, mid, hmid, hx⟩ := bind_eq_ok.1 h <;>
    obtain ⟨hne, hfailure, hbefore⟩ := advance_before hmid <;> rw [bind_symbol?] at hx
  · intro q
    have hhead := List.head?_eq_some_head hne
    rw [bind_of_ok (hbefore q), bind_symbol?, head?_before_of_some hhead, ← hhead]
    exact (hf _).before mid x rest hx q
  · exact fun e hr => (hf _).endsIn mid x rest hx e
      ⟨hfailure.trans hr.1, fun hnil => absurd hnil hne⟩

/-- A symbol is the next token, which has to be there. -/
theorem symbol (m : String) : Continues (Parser.symbol m) := advance.bind fun _ => symbolHere m

/-- A string is the next token, which has to be there. -/
theorem text (m : String) : Continues (Parser.text m) := by
  refine advance.bind fun _ => look_some (fun t => ?_) nofun
  cases t with
  | text s => exact .pure s
  | leftBracket | rightBracket | word | number => exact .fail _

/-- A number is the next token, which has to be there. -/
theorem number (m : String) : Continues (Parser.number m) := by
  refine advance.bind fun _ => look_some (fun t => ?_) nofun
  cases t with
  | number n => exact .pure n
  | leftBracket | rightBracket | word | text => exact .fail _

/-! ### Tags -/

/-- The name of the call is set in the same way. -/
theorem setCall (name : String) : Continues (Parser.setCall name) := by
  constructor <;> intro r u rest h <;> cases h
  · exact fun _ => rfl
  · exact fun _ => id

/-- **What is done to the table of tags** is done where the text goes on, if it does not depend on
places but for those it is told. -/
theorem withTags {f : Nat → Option String → TagTable Nat → Except TagError (Nat × TagTable Nat)}
    (hf : ∀ left call t more, f (left + more) call (t.mapPlace (· + more))
      = (f left call t).map fun p => (p.1, p.2.mapPlace (· + more))) :
    Continues (Parser.withTags f) := by
  constructor <;> intro r tag rest h <;> unfold Parser.withTags at h <;> split at h <;> cases h
  · rename_i i tags htags
    intro q
    have hbefore : f (r.before q).tokens.length (r.before q).call (r.before q).tags
        = .ok (i, tags.mapPlace (· + q.tokens.length)) := by
      rw [Reading.before, List.length_append, hf, htags]
      rfl
    rw [Parser.withTags, hbefore]
    rfl
  · exact fun _ => id

/-- A tag that is defined gets its number whatever the places of tags are. -/
theorem defineTag (name : String) : Continues (Parser.defineTag name) :=
  withTags fun _ _ t _ => t.define_mapPlace _ name

/-- A tag that is referred to has its number whatever the places of tags are. -/
theorem referToTag (name : String) : Continues (Parser.referToTag name) :=
  withTags fun left call t _ => t.reference_mapPlace _ name ⟨left, call⟩

/-! ### Flags and modifiers -/

/-- The flags of a call end at a word that is none. -/
theorem callFlags : Continues Parser.callFlags := by
  refine loop (fun flags => indicator.bind fun _ => ?_) _
  split
  · exact .pure _
  · exact (accepted _).bind fun _ => advance.bind fun _ => .pure _

/-- The flags of arrays end at a word that is none. -/
theorem arrayFlags : Continues Parser.arrayFlags := by
  refine loop (fun flags => indicator.bind fun _ => ?_) _
  split
  · exact .pure _
  · exact advance.bind fun _ => .pure _

/-- A modifier asks for a number at most. -/
theorem modifier (m : SubCallModifiers) (w : ModifierWord) : Continues (Parser.modifier m w) := by
  cases w with
  | complete => exact .pure _
  | insertion => exact (accepted _).bind fun _ => (number _).bind fun _ => .pure _

/-- Modifiers end at the closing bracket. -/
theorem modifierStep (inSequence : Bool) (flags : UInt32) (m : SubCallModifiers) :
    Continues (Parser.modifierStep inSequence flags m) :=
  (isAt (by decide)).bind fun _ => by
    split
    · exact .pure _
    · exact (symbolHere _).bind fun _ => (orFail _ _).bind fun _ => (modifier _ _).bind fun _ =>
        (accepted _).bind fun _ => advance.bind fun _ => .pure _

/-- Modifiers begin at the opening bracket and end at the closing one. -/
theorem modifiers (inSequence : Bool) (flags : UInt32) :
    Continues (Parser.modifiers inSequence flags) :=
  advance.bind fun _ => (isAt (by decide)).bind fun _ => by
    split
    · exact .fail _
    · exact advance.bind fun _ => loop (modifierStep _ _) {}

/-- A sub-call is its tag and its modifiers. -/
theorem subCall (m : String) (inSequence : Bool) (flags : CallFlags) :
    Continues (Parser.subCall m inSequence flags) :=
  (symbol _).bind fun _ => (referToTag _).bind fun _ => (modifiers _ _).bind fun _ => .pure _

/-- Keys end at the closing bracket. -/
theorem alternateKeyStep (keys : UInt32) : Continues (Parser.alternateKeyStep keys) :=
  (isAt (by decide)).bind fun _ => by
    split
    · exact .pure _
    · exact (symbolHere _).bind fun _ => (orFail _ _).bind fun _ => (orFail _ _).bind fun _ =>
        advance.bind fun _ => .pure _

/-- A header is its keys and its level. -/
theorem alternateHeader : Continues Parser.alternateHeader :=
  advance.bind fun _ => (isAt (by decide)).bind fun _ => by
    split
    · exact .fail _
    · exact advance.bind fun _ => (loop alternateKeyStep 0).bind fun _ => (symbol _).bind fun _ =>
        (orFail _ _).bind fun _ => .pure _

/-! ### Entries and clauses -/

/-- A second coordinate is a number. -/
theorem offset : Continues Parser.offset :=
  (number _).bind fun _ => by
    split
    · exact .pure _
    · exact .fail _

/-- An entry is the token looked at, and in a matrix a number behind it. -/
theorem entryHere? (matrix : Bool) : Continues (Parser.entryHere? matrix) := by
  unfold Parser.entryHere?
  refine look_some (fun t => ?_) fun r p h => ?_
  · split
    · exact .pure _
    · exact .pure _
    · refine (accepted _).bind fun _ => ?_
      split
      · exact offset.bind fun _ => .pure _
      · exact .pure _
    · exact .fail _
  · dsimp only at h
    cases h

/-- Entries end at the closing bracket. -/
theorem entryStep (matrix : Bool) (entries : List Entry) :
    Continues (Parser.entryStep matrix entries) :=
  advance.bind fun _ => (entryHere? _).bind fun _ => by
    split
    · exact .pure _
    · exact .pure _

/-- Entries begin at the opening bracket and end at the closing one. -/
theorem entries (count : Nat) (matrix : Bool) : Continues (Parser.entries count matrix) :=
  (isAt (by decide)).bind fun _ => by
    split
    · exact .fail _
    · refine (loop (entryStep _) []).bind fun _ => ?_
      split
      · exact .pure _
      · exact .fail _

/-- Clauses end at a word that is not `if`, as `call` is not, or at the end. -/
theorem clauseStep (size : Nat) (clauses : List Clause) :
    Continues (Parser.clauseStep size clauses) :=
  advanceOrEnd.bind fun _ => (isAt (by decide)).bind fun _ => by
    split
    · exact (symbol _).bind fun _ => (orFail _ _).bind fun _ => advance.bind fun _ =>
        (entries _ _).bind fun _ => .pure _
    · exact .pure _

/-- Clauses end where the text does, or at another word. -/
theorem clauses (size : Nat) : Continues (Parser.clauses size) := loop (clauseStep size) []

/-! ### Array definitions -/

/-- Signs of a qualifier end at its name. -/
theorem qualifierStep (bits : UInt32) : Continues (Parser.qualifierStep bits) := by
  refine symbol? (fun s => ?_) rfl
  split
  · exact .pure _
  · exact (number _).bind fun _ => (accepted _).bind fun _ => advance.bind fun _ => .pure _
  · exact (accepted _).bind fun _ => advance.bind fun _ => .pure _

/-- A qualifier is its signs and its name. -/
theorem qualifier : Continues Parser.qualifier :=
  advance.bind fun _ => (loop qualifierStep 0).bind fun _ => (symbolHere _).bind fun _ =>
    (orFail _ _).bind fun _ => .pure _

/-- A restriction is its name, with a strength before it or without. -/
theorem restriction : Continues Parser.restriction :=
  (symbol _).bind fun _ => by
    split
    · exact (symbol _).bind fun _ => (orFail _ _).bind fun _ => .pure _
    · exact (orFail _ _).bind fun _ => .pure _

/-- An ending setup is its name. -/
theorem endSetup (message what : String) : Continues (Parser.endSetup message what) :=
  (symbol _).bind fun _ => (orFail _ _).bind fun _ => .pure _

/-- A second ending setup comes with the first and a number. -/
theorem concentricEnd : Continues Parser.concentricEnd :=
  (endSetup _ _).bind fun _ => (endSetup _ _).bind fun _ => (number _).bind fun _ => by
    split
    · exact .pure _
    · exact .pure _
    · exact .fail _

/-- Each part of an array definition is read from pieces that continue. -/
theorem arrayPart (size : Nat) (o : ArrayOptions) (part : ArrayPart) :
    Continues (Parser.arrayPart size o part) := by
  cases part with
  | entries =>
    exact advance.bind fun _ => (entries _ _).bind fun _ => advanceOrEnd.bind fun _ => .pure _
  | clausesWithText => exact (text _).bind fun _ => (clauses _).bind fun _ => .pure _
  | clausesWithMessage m => exact (clauses _).bind fun _ => .pure _
  | qualifier =>
    rw [Parser.arrayPart]
    split
    · exact .fail _
    · exact qualifier.bind fun _ => .pure _
  | restriction => exact restriction.bind fun _ => .pure _
  | concentricEnd =>
    rw [Parser.arrayPart]
    split
    · exact .fail _
    · split
      · exact .fail _
      · exact concentricEnd.bind fun _ => .pure _
  | flag bits => exact .pure _

/-- Parts end with the destinations. -/
theorem arrayPartStep (size : Nat) (o : ArrayOptions) :
    Continues (Parser.arrayPartStep size o) :=
  advance.bind fun _ => indicator.bind fun _ => by
    split
    · exact .fail _
    · refine (arrayPart _ _ _).bind fun _ => ?_
      split
      · exact .pure _
      · exact .pure _

/-- An array definition is its setups and its parts. -/
theorem arrayDef (flags : UInt32) : Continues (Parser.arrayDef flags) :=
  (symbol _).bind fun _ => (orFail _ _).bind fun _ => (endSetup _ _).bind fun _ =>
    (loop (arrayPartStep _) _).bind fun _ => .pure _

/-- **An array definition ends at the end or at another word**, such as `call`. -/
theorem arrayStep (p : ArrayProgress) : Continues (Parser.arrayStep p) := by
  refine (arrayDef _).bind fun d => look (fun t => indicator.bind fun word => ?_) ?_
  · split
    · exact .pure _
    · split
      · refine alternateHeader.bind fun _ => advance.bind fun _ => arrayFlags.bind fun _ =>
          (isAt (by decide)).bind fun _ => ?_
        split
        · exact .pure _
        · exact .fail _
      · exact .pure _
  · intro r x rest hnil h
    obtain ⟨rfl, rfl⟩ := pure_eq_ok.1 h
    refine ⟨fun q => ?_, fun _ => id⟩
    have hcall : Parser.indicator (r.before q) = .ok ("call", r.before q) := by
      rw [Parser.indicator, Parser.symbolHere,
        bind_of_ok (current?_eq_ok.2 ⟨head?_before_of_nil hnil q, rfl⟩)]
      rfl
    refine (bind_of_ok hcall _).trans ?_
    rw [if_neg (by decide), if_neg (by decide)]
    rfl

/-- Array definitions end at the end or at another word. -/
theorem arrayGroups (flags : UInt32) : Continues (Parser.arrayGroups flags) :=
  (loop arrayStep _).bind fun _ => .pure _

/-! ### Definitions -/

/-- Matrices end at the end or at a token that is no header. -/
theorem matrixStep (count : Nat) (p : MatrixProgress) : Continues (Parser.matrixStep count p) :=
  (entries _ _).bind fun _ => advanceOrEnd.bind fun _ => (isAt (by decide)).bind fun _ => by
    split
    · exact alternateHeader.bind fun _ => advance.bind fun _ => .pure _
    · exact .pure _

/-- Matrices begin with flags and are rows one after the other. -/
theorem matrices (count : Nat) : Continues (Parser.matrices count) := by
  refine (loop (fun flags => advance_symbol? fun word => ?_) 0).bind fun _ =>
    (loop (matrixStep count) {}).bind fun _ => .pure _
  split
  · exact .pure _
  · exact (orFail _ _).bind fun _ => .pure _

/-- Parts of a sequence end at the end or at another word. -/
theorem partStep (flags : CallFlags) (parts : List SubCall) :
    Continues (Parser.partStep flags parts) :=
  advanceOrEnd.bind fun _ => (isAt (by decide)).bind fun _ => by
    split
    · exact (subCall _ _ _).bind fun _ => .pure _
    · exact .pure _

/-- A sequence is a sub-call and any number of parts. -/
theorem parts (flags : CallFlags) : Continues (Parser.parts flags) :=
  (subCall _ _ _).bind fun _ => loop (partStep flags) _

/-- **Each form of definition ends at `call` as it ends at the end.** -/
theorem definition (flags : CallFlags) (arrayFlags : UInt32) (isTagged : Bool) (k : SchemaKind) :
    Continues (Parser.definition flags arrayFlags isTagged k) := by
  cases k with
  | array => exact (arrayGroups _).bind fun _ => .pure _
  | nothing => exact advanceOrEnd.bind fun _ => .pure _
  | matrix => exact matrices 2
  | partnerMatrix => exact matrices 16
  | sequential => exact (parts _).bind fun _ => .pure _
  | sameAs =>
    rw [Parser.definition]
    split
    · exact .fail _
    · exact (symbol _).bind fun _ => (referToTag _).bind fun _ => advanceOrEnd.bind fun _ => .pure _
  | concentric =>
    exact (subCall _ _ _).bind fun _ => (subCall _ _ _).bind fun _ => advanceOrEnd.bind fun _ =>
      .pure _

/-- A body is its flags, its schema and its definition. -/
theorem body (isTagged : Bool) : Continues (Parser.body isTagged) :=
  callFlags.bind fun _ => arrayFlags.bind fun _ => indicator.bind fun _ =>
    (orFail _ _).bind fun _ => by
      split
      · exact .fail _
      · exact (definition _ _ _ _).bind fun _ => .pure _

/-! ### Calls -/

/-- Other bodies end at the end or at a word that does not continue a call, as `call` does not. -/
theorem continuationStep (isTagged : Bool) (p : BodyProgress) :
    Continues (Parser.continuationStep isTagged p) := by
  refine symbol? (fun s => ?_) rfl
  split
  · exact .pure _
  · split
    · exact .pure _
    · split
      · exact .fail _
      · exact (body _).bind fun _ => .pure _

/-- A tag is there if the word `tag` is. -/
theorem tag? : Continues Parser.tag? :=
  (isAt (by decide)).bind fun _ => by
    split
    · exact (symbol _).bind fun _ => (defineTag _).bind fun _ => advance.bind fun _ =>
        indicator.bind fun _ => .pure _
    · exact .pure _

/-- **A call ends at the next call as it ends at the end.** -/
theorem call : Continues Parser.call :=
  (text _).bind fun _ => (setCall _).bind fun _ => (symbol _).bind fun _ =>
    (orFail _ _).bind fun _ => advance.bind fun _ => indicator.bind fun _ => tag?.bind fun _ =>
      (body _).bind fun _ => (loop (continuationStep _) _).bind fun _ => .pure _

/-- The version is at the beginning and not at the end. -/
theorem version : Continues Parser.version :=
  present.bind fun _ => (symbolHere _).bind fun _ => by
    split
    · exact text _
    · exact .fail _

end Continues

/-- **A turn of the loop reads the same call** where the text goes on, or there are no more. -/
theorem callStep_before {calls : List Call} {out : List Call ⊕ List Call}
    (h : callStep calls r = .ok (out, rest)) :
    (out = .inr calls.reverse ∧ r = rest ∧ r.tokens = []) ∨ ∃ c, out = .inl (c :: calls) ∧
      (∀ q, callStep calls (r.before q) = .ok (out, rest.before q)) ∧
        ∀ e, r.EndsIn e → rest.EndsIn e := by
  obtain ⟨t, r₁, h₁, hcall⟩ := bind_eq_ok.1 h
  obtain ⟨hhead, rfl⟩ := current?_eq_ok.1 h₁
  cases t with
  | none =>
    obtain ⟨rfl, rfl⟩ := pure_eq_ok.1 hcall
    exact .inl ⟨rfl, rfl, List.head?_eq_none_iff.1 hhead⟩
  | some t =>
    have hcontinues : Continues (do
        let word ← indicator
        if word = "call" then
          let c ← call
          return .inl (c :: calls)
        else malformed "Item in illegal context" : Parser (List Call ⊕ List Call)) :=
      Continues.indicator.bind fun word => by
        split
        · exact Continues.call.bind fun _ => .pure _
        · exact .fail _
    have hbefore : ∀ q, callStep calls (r.before q) = .ok (out, rest.before q) := fun q => by
      rw [callStep, bind_of_ok (current?_eq_ok.2 ⟨head?_before_of_some hhead q, rfl⟩)]
      exact hcontinues.before r _ rest hcall q
    have hends := hcontinues.endsIn r _ rest hcall
    obtain ⟨word, _, -, hcall⟩ := bind_eq_ok.1 hcall
    split at hcall
    · obtain ⟨c, _, -, hcall⟩ := bind_eq_ok.1 hcall
      obtain ⟨rfl, -⟩ := pure_eq_ok.1 hcall
      exact .inr ⟨c, rfl, hbefore, hends⟩
    · cases hcall

/-- **The calls of a text are the first where the text goes on**: the loop gets to its next call
with them behind it.  By induction on the turns. -/
theorem loop_callStep_before {before calls : List Call}
    (h : loop callStep turns_callStep before r = .ok (calls, rest)) :
    rest.tokens = [] ∧ (∀ e, r.EndsIn e → rest.EndsIn e) ∧
      ∀ q, loop callStep turns_callStep before (r.before q)
        = loop callStep turns_callStep calls.reverse (rest.before q) := by
  refine loop_induct (motive := fun before r calls rest =>
    rest.tokens = [] ∧ (∀ e, r.EndsIn e → rest.EndsIn e) ∧
      ∀ q, loop callStep turns_callStep before (r.before q)
        = loop callStep turns_callStep calls.reverse (rest.before q)) ?_ ?_ h
  · intro before r calls rest hturn
    obtain ⟨hout, rfl, hnil⟩ | ⟨c, hout, -⟩ := callStep_before hturn
    · cases hout
      rw [List.reverse_reverse]
      exact ⟨hnil, fun _ => id, fun _ => rfl⟩
    · cases hout
  · rintro before r before' mid calls rest hturn ⟨hnil, hends, hbefore⟩
    obtain ⟨hout, -⟩ | ⟨c, hout, hcall, hmid⟩ := callStep_before hturn
    · cases hout
    · cases hout
      refine ⟨hnil, fun e hr => hends e (hmid e hr), fun q => ?_⟩
      rw [loop_of_inl (hcall q), hbefore]

/-- The calls before those of the loop stay where they are. -/
theorem prefix_of_loop_callStep {before calls : List Call}
    (h : loop callStep turns_callStep before r = .ok (calls, rest)) : before.reverse <+: calls := by
  refine loop_induct (motive := fun before _ calls _ => before.reverse <+: calls) ?_ ?_ h
  · intro before r calls rest hturn
    obtain ⟨hout, -⟩ | ⟨c, hout, -⟩ := callStep_eq_ok hturn
    · cases hout
      exact List.prefix_refl _
    · cases hout
  · intro before r before' mid calls rest hturn ih
    obtain ⟨hout, -⟩ | ⟨c, hout, -⟩ := callStep_eq_ok hturn
    · cases hout
    · cases hout
      rw [List.reverse_cons] at ih
      exact (List.prefix_append _ _).trans ih

/-- A book is a version, then calls to the end. -/
theorem book_eq_ok {b : CallBook} {tags : TagTable Nat} (h : book r = .ok ((b, tags), rest)) :
    ∃ r₁ r₂, version r = .ok (b.version, r₁) ∧ advanceOrEnd r₁ = .ok ((), r₂) ∧
      loop callStep turns_callStep [] r₂ = .ok (b.calls, rest) := by
  obtain ⟨version, r₁, h₁, h⟩ := bind_eq_ok.1 h
  obtain ⟨_, r₂, h₂, h⟩ := bind_eq_ok.1 h
  obtain ⟨calls, r₃, h₃, h⟩ := bind_eq_ok.1 h
  obtain ⟨_, r₄, h₄, h⟩ := bind_eq_ok.1 h
  obtain ⟨rfl, rfl⟩ := left_eq_ok.1 h₄
  obtain ⟨hp, rfl⟩ := pure_eq_ok.1 h
  cases hp
  exact ⟨r₁, r₂, h₁, h₂, h₃⟩

/-- **A book ends where its text ends**, not in a failure. -/
theorem failure_eq_none_of_book {tokens : List Token} {failure : Option LexError} {b : CallBook}
    {tags : TagTable Nat} (h : book { tokens, failure } = .ok ((b, tags), rest)) :
    failure = none := by
  obtain ⟨r₁, r₂, h₁, h₂, h₃⟩ := book_eq_ok h
  obtain ⟨hnil, hends, -⟩ := loop_callStep_before h₃
  have hstart : Reading.EndsIn { tokens, failure } failure := by
    refine ⟨rfl, fun hnil => ?_⟩
    have hnil : tokens = [] := hnil
    subst hnil
    cases failure <;> cases h₁
  have hr₂ := Continues.advanceOrEnd.endsIn _ _ _ h₂ _
    (Continues.version.endsIn _ _ _ h₁ _ hstart)
  exact (hends _ hr₂).2 hnil

/-- **The book of a text that goes on begins as the book of the text.** -/
theorem book_before {b b' : CallBook} {tags tags' : TagTable Nat} {rest' : Reading} {q : Sequel}
    (h : book r = .ok ((b, tags), rest)) (h' : book (r.before q) = .ok ((b', tags'), rest')) :
    b'.version = b.version ∧ b.calls <+: b'.calls := by
  obtain ⟨r₁, r₂, h₁, h₂, h₃⟩ := book_eq_ok h
  obtain ⟨r₁', r₂', h₁', h₂', h₃'⟩ := book_eq_ok h'
  rw [Continues.version.before _ _ _ h₁ q] at h₁'
  obtain ⟨hversion, rfl⟩ := Prod.mk.inj (Except.ok.inj h₁')
  rw [Continues.advanceOrEnd.before _ _ _ h₂ q] at h₂'
  obtain ⟨-, rfl⟩ := Prod.mk.inj (Except.ok.inj h₂')
  rw [(loop_callStep_before h₃).2.2 q] at h₃'
  refine ⟨hversion.symm, ?_⟩
  have hprefix := prefix_of_loop_callStep h₃'
  rwa [List.reverse_reverse] at hprefix

end Parser
end CallText
end SquareDance
