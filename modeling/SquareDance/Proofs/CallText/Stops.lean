/-
# Where the parser stops

Wherever the parser of a text stops, the call that it remembers is the one whose header was read
last, and so it is at each use of a tag: `told_of_parse_error`, `toldUses_of_parse`.  One lemma for
each parser says so in the terms of `Parser.Tells`.  Lists are left at their closing bracket, what
ends with a word is left at it, and what goes on to the next token knows nothing of that token.

Three parsers take strings: a version stands behind its own word, a message behind `preds`, and the
name of a call is remembered before it is left.
-/

import SquareDance.Proofs.CallText.Telling
import SquareDance.CallText.Compile

namespace SquareDance
namespace CallText
namespace Parser

open Consumer

variable {tokens : List Token}

/-! ### Flags and modifiers -/

/-- Flags of a call end at a word. -/
theorem tells_callFlags : Tells tokens (Here tokens) callFlags fun _ => Passable tokens := by
  refine Tells.loop (fun flags => (tells_symbolHere _).bind fun word => ?_) _
  split
  · exact .pure fun _ h => h
  · exact (tells_accepted _).bind fun _ => tells_advance.bind fun _ => .pure fun _ h => h

/-- Flags of arrays end at a word. -/
theorem tells_arrayFlags : Tells tokens (Here tokens) arrayFlags fun _ => Passable tokens := by
  refine Tells.loop (fun flags => (tells_symbolHere _).bind fun word => ?_) _
  split
  · exact .pure fun _ h => h
  · exact tells_advance.bind fun _ => .pure fun _ h => h

/-- An insertion takes a number, and other modifiers nothing. -/
theorem tells_modifier (m : SubCallModifiers) (word : ModifierWord) :
    Tells tokens (Passable tokens) (modifier m word) fun _ => Passable tokens := by
  cases word with
  | complete => exact .pure fun _ h => h
  | insertion =>
    exact (tells_accepted _).bind fun _ => (tells_number _).bind fun _ => .pure fun _ h => h

/-- A modifier is left for the token behind it, and the closing bracket is not. -/
theorem tells_modifierStep (inSequence : Bool) (flags : UInt32) (m : SubCallModifiers) :
    Tells tokens (Here tokens) (modifierStep inSequence flags m)
      (Sum.elim (fun _ => Here tokens) fun _ => Passable tokens) := by
  refine (tells_isAt _).bind fun atEnd => ?_
  cases atEnd with
  | true => exact .pure fun _ h => (h.2 rfl).passable nofun
  | false =>
    refine .of_imp (fun _ h => h.1) ((tells_symbolHere _).bind fun _ => ?_)
    exact (tells_orFail _ _).bind fun _ => (tells_modifier _ _).bind fun _ =>
      (tells_accepted _).bind fun _ => tells_advance.bind fun _ => .pure fun _ h => h

/-- Modifiers are left at the closing bracket. -/
theorem tells_modifiers (inSequence : Bool) (flags : UInt32) :
    Tells tokens (Passable tokens) (modifiers inSequence flags) fun _ => Passable tokens := by
  refine tells_advance.bind fun _ => (tells_isAt _).bind fun opens => ?_
  cases opens with
  | false => exact .fail fun _ h => h.1
  | true =>
    refine .of_imp (fun _ h => (h.2 rfl).passable nofun) (tells_advance.bind fun _ => ?_)
    exact Tells.loop (tells_modifierStep _ _) _

/-- A sub-call is left at the closing bracket of its modifiers. -/
theorem tells_subCall (m : String) (inSequence : Bool) (flags : CallFlags) :
    Tells tokens (Passable tokens) (subCall m inSequence flags) fun _ => Passable tokens :=
  (tells_symbol _).bind fun _ => (tells_referToTag _).bind fun _ =>
    (tells_modifiers _ _).bind fun _ => .pure fun _ h => h

/-- A key is left for the token behind it, and the closing bracket is not. -/
theorem tells_alternateKeyStep (keys : UInt32) : Tells tokens (Here tokens) (alternateKeyStep keys)
    (Sum.elim (fun _ => Here tokens) fun _ => Passable tokens) := by
  refine (tells_isAt _).bind fun atEnd => ?_
  cases atEnd with
  | true => exact .pure fun _ h => (h.2 rfl).passable nofun
  | false =>
    refine .of_imp (fun _ h => h.1) ((tells_symbolHere _).bind fun _ => ?_)
    exact (tells_orFail _ _).bind fun _ => (tells_orFail _ _).bind fun _ =>
      tells_advance.bind fun _ => .pure fun _ h => h

/-- A header is left at its level. -/
theorem tells_alternateHeader :
    Tells tokens (Passable tokens) alternateHeader fun _ => Passable tokens := by
  refine tells_advance.bind fun _ => (tells_isAt _).bind fun opens => ?_
  cases opens with
  | false => exact .fail fun _ h => h.1
  | true =>
    refine .of_imp (fun _ h => (h.2 rfl).passable nofun) (tells_advance.bind fun _ => ?_)
    exact (Tells.loop tells_alternateKeyStep _).bind fun _ => (tells_symbol _).bind fun _ =>
      (tells_orFail _ _).bind fun _ => .pure fun _ h => h

/-! ### Entries and clauses -/

/-- An entry is left at its word, or at the number behind it. -/
theorem tells_entryHere? (matrix : Bool) :
    Tells tokens (Here tokens) (entryHere? matrix) fun _ => Passable tokens := by
  refine tells_current?.bind fun t => ?_
  split
  · exact .pure fun _ h => Beholds.passable h nofun
  · exact .pure fun _ h => Beholds.passable h nofun
  · refine .of_imp (fun _ h => Beholds.passable h nofun) ((tells_accepted _).bind fun d => ?_)
    cases matrix with
    | true =>
      refine Tells.bind ((tells_number _).bind fun n => ?_) fun y => .pure fun _ h => h
      split
      · exact .pure fun _ h => h
      · exact .fail fun _ h => h.1
    | false => exact .pure fun _ h => h
  · exact .fail fun _ h => h.1

/-- Entries are left at the closing bracket. -/
theorem tells_entries (count : Nat) (matrix : Bool) :
    Tells tokens (Here tokens) (entries count matrix) fun _ => Passable tokens := by
  refine (tells_isAt _).bind fun opens => ?_
  cases opens with
  | false => exact .fail fun _ h => h.1
  | true =>
    refine .of_imp (I := Passable tokens) (fun _ h => (h.2 rfl).passable nofun) ?_
    refine Tells.bind (J := fun _ => Passable tokens) ?_ fun es => ?_
    · refine Tells.loop (fun before => tells_advance.bind fun _ =>
        (tells_entryHere? _).bind fun found => ?_) _
      cases found with
      | none => exact .pure fun _ h => h
      | some e => exact .pure fun _ h => h
    · split
      · exact .pure fun _ h => h
      · exact .fail fun _ h => h.1

/-- Clauses are left for the token behind them. -/
theorem tells_clauses (size : Nat) :
    Tells tokens (Passable tokens) (clauses size) fun _ => Here tokens := by
  refine Tells.loop (fun before => tells_advanceOrEnd.bind fun _ =>
    (tells_isAt _).bind fun isClause => ?_) _
  cases isClause with
  | false => exact .pure fun _ h => h.1
  | true =>
    refine .of_imp (fun _ h => (h.2 rfl).passable nofun) ((tells_symbol _).bind fun _ => ?_)
    exact (tells_orFail _ _).bind fun _ => tells_advance.bind fun _ =>
      (tells_entries _ _).bind fun _ => .pure fun _ h => h

/-! ### Array definitions -/

/-- A sign of a qualifier is left for the token behind it. -/
theorem tells_qualifierStep (bits : UInt32) : Tells tokens (Here tokens) (qualifierStep bits)
    (Sum.elim (fun _ => Here tokens) fun _ => Here tokens) := by
  refine tells_symbol?.bind fun word => ?_
  cases hsign : word.bind Qualifier.Sign.ofWord? with
  | none => exact .pure fun _ h => h.1
  | some sign =>
    obtain ⟨w, rfl, -⟩ := Option.bind_eq_some_iff.1 hsign
    refine .of_imp (fun _ h => h.2 rfl) ?_
    cases sign with
    | number =>
      exact (tells_number _).bind fun _ => (tells_accepted _).bind fun _ =>
        tells_advance.bind fun _ => .pure fun _ h => h
    | left | right | live | tBone | notTBone | explicit =>
      exact (tells_accepted _).bind fun _ => tells_advance.bind fun _ => .pure fun _ h => h

/-- A qualifier is left at its name. -/
theorem tells_qualifier : Tells tokens (Passable tokens) qualifier fun _ => Passable tokens :=
  tells_advance.bind fun _ => (Tells.loop tells_qualifierStep _).bind fun _ =>
    (tells_symbolHere _).bind fun _ => (tells_orFail _ _).bind fun _ => .pure fun _ h => h

/-- A restriction is left at its name. -/
theorem tells_restriction :
    Tells tokens (Passable tokens) restriction fun _ => Passable tokens := by
  refine (tells_symbol _).bind fun first => ?_
  split
  · exact (tells_symbol _).bind fun _ => (tells_orFail _ _).bind fun _ => .pure fun _ h => h
  · exact (tells_orFail _ _).bind fun _ => .pure fun _ h => h

/-- An ending setup is left at its name. -/
theorem tells_endSetup (m what : String) :
    Tells tokens (Passable tokens) (endSetup m what) fun _ => Passable tokens :=
  (tells_symbol _).bind fun _ => (tells_orFail _ _).bind fun _ => .pure fun _ h => h

/-- A second ending setup is left at the number behind it. -/
theorem tells_concentricEnd :
    Tells tokens (Passable tokens) concentricEnd fun _ => Passable tokens := by
  refine (tells_endSetup _ _).bind fun _ => (tells_endSetup _ _).bind fun _ =>
    (tells_number _).bind fun _ => ?_
  split
  · exact .pure fun _ h => h
  · exact .pure fun _ h => h
  · exact .fail fun _ h => h.1

/-- **A part of an array definition** may begin with a string, which stands behind a word other
than `call`. -/
theorem tells_arrayPart (size : Nat) (o : ArrayOptions) {word : String} {part : ArrayPart}
    (hpart : ArrayPart.ofWord? word = some part) :
    Tells tokens (Beholds tokens (.word word)) (arrayPart size o part)
      (Sum.elim (fun _ => Passable tokens) fun _ => Here tokens) := by
  have hcall : ArrayPart.ofWord? "call" = none := by decide +kernel
  have hword : word ≠ "call" := by
    rintro rfl
    rw [hcall] at hpart
    cases hpart
  cases part with
  | clausesWithText =>
    refine (tells_text _ _).bind fun _ => .of_imp (fun _ h => h.passable hword) ?_
    exact (tells_clauses _).bind fun _ => .pure fun _ h => h
  | entries =>
    refine .of_imp (fun _ h => h.passable nofun) (tells_advance.bind fun _ => ?_)
    exact (tells_entries _ _).bind fun _ => tells_advanceOrEnd.bind fun _ => .pure fun _ h => h
  | clausesWithMessage m =>
    refine .of_imp (fun _ h => h.passable nofun) ?_
    exact (tells_clauses _).bind fun _ => .pure fun _ h => h
  | qualifier =>
    refine .of_imp (fun _ h => h.passable nofun) ?_
    rw [arrayPart]
    split
    · exact .fail fun _ h => h.1
    · exact tells_qualifier.bind fun _ => .pure fun _ h => h
  | restriction =>
    refine .of_imp (fun _ h => h.passable nofun) ?_
    exact tells_restriction.bind fun _ => .pure fun _ h => h
  | concentricEnd =>
    refine .of_imp (I := Passable tokens) (fun _ h => h.passable nofun) ?_
    rw [arrayPart]
    split
    · exact .fail fun _ h => h.1
    · split
      · exact .fail fun _ h => h.1
      · exact tells_concentricEnd.bind fun _ => .pure fun _ h => h
  | flag bits => exact .pure fun _ h => h.passable nofun

/-- An array definition is left for the token behind it. -/
theorem tells_arrayDef (flags : UInt32) :
    Tells tokens (Passable tokens) (arrayDef flags) fun _ => Here tokens := by
  refine (tells_symbol _).bind fun _ => (tells_orFail _ _).bind fun start =>
    (tells_endSetup _ _).bind fun index => ?_
  refine Tells.bind (J := fun _ => Here tokens) ?_ fun _ => .pure fun _ h => h
  refine Tells.loop (fun o => tells_advance.bind fun _ =>
    (tells_symbolHere_word _).bind fun word => ?_) _
  cases hpart : ArrayPart.ofWord? word with
  | none => exact .fail fun _ h => h.1
  | some part =>
    refine (tells_arrayPart _ _ hpart).bind fun out => ?_
    cases out with
    | inl o' => exact .pure fun _ h => h
    | inr body => exact .pure fun _ h => h

/-- A turn of the loop for arrays is at another `setup`, or at the token behind them. -/
theorem tells_arrayStep (p : ArrayProgress) : Tells tokens (Passable tokens) (arrayStep p)
    (Sum.elim (fun _ => Passable tokens) fun _ => Here tokens) := by
  refine (tells_arrayDef _).bind fun d => tells_current?.bind fun t => ?_
  split
  · exact .pure fun _ h => h.1
  · refine .of_imp (fun _ h => h.1) ((tells_symbolHere _).bind fun word => ?_)
    split
    · exact .pure fun _ h => h
    · split
      · refine tells_alternateHeader.bind fun header => tells_advance.bind fun _ => ?_
        refine tells_arrayFlags.bind fun flags =>
          .of_imp (fun _ h => h.1) ((tells_isAt _).bind fun isSetup => ?_)
        cases isSetup with
        | true => exact .pure fun _ h => (h.2 rfl).passable nofun
        | false => exact .fail fun _ h => h.1
      · exact .pure fun _ h => h.1

/-- Array definitions are left for the token behind them. -/
theorem tells_arrayGroups (flags : UInt32) :
    Tells tokens (Passable tokens) (arrayGroups flags) fun _ => Here tokens :=
  (Tells.loop tells_arrayStep _).bind fun _ => .pure fun _ h => h

/-! ### Definitions and bodies -/

/-- A matrix is left for the token behind it. -/
theorem tells_matrixStep (count : Nat) (p : MatrixProgress) :
    Tells tokens (Here tokens) (matrixStep count p)
      (Sum.elim (fun _ => Here tokens) fun _ => Here tokens) := by
  refine (tells_entries _ _).bind fun _ => tells_advanceOrEnd.bind fun _ =>
    (tells_isAt _).bind fun isHeader => ?_
  cases isHeader with
  | true =>
    refine .of_imp (fun _ h => (h.2 rfl).passable nofun) (tells_alternateHeader.bind fun _ => ?_)
    exact tells_advance.bind fun _ => .pure fun _ h => h
  | false => exact .pure fun _ h => h.1

/-- Matrices are left for the token behind them. -/
theorem tells_matrices (count : Nat) :
    Tells tokens (Passable tokens) (matrices count) fun _ => Here tokens := by
  refine Tells.bind (J := fun _ => Here tokens) ?_ fun flags =>
    (Tells.loop (tells_matrixStep count) _).bind fun _ => .pure fun _ h => h
  refine Tells.loop (fun flags => tells_advance.bind fun _ => tells_symbol?.bind fun word => ?_) _
  cases word with
  | none => exact .pure fun _ h => h.1
  | some w =>
    refine .of_imp (fun _ h => h.2 rfl) ((tells_orFail _ _).bind fun i => ?_)
    exact .pure fun _ h => h

/-- A sequence is left for the token behind it. -/
theorem tells_parts (flags : CallFlags) :
    Tells tokens (Passable tokens) (parts flags) fun _ => Here tokens := by
  refine (tells_subCall _ _ _).bind fun first => Tells.loop (fun parts =>
    tells_advanceOrEnd.bind fun _ => (tells_isAt _).bind fun isPart => ?_) _
  cases isPart with
  | true =>
    refine .of_imp (fun _ h => (h.2 rfl).passable nofun) ?_
    exact (tells_subCall _ _ _).bind fun _ => .pure fun _ h => h
  | false => exact .pure fun _ h => h.1

/-- A definition of any kind is left for the token behind it. -/
theorem tells_definition (flags : CallFlags) (arrayFlags : UInt32) (isTagged : Bool)
    (k : SchemaKind) : Tells tokens (Passable tokens) (definition flags arrayFlags isTagged k)
      fun _ => Here tokens := by
  cases k with
  | array => exact (tells_arrayGroups _).bind fun _ => .pure fun _ h => h
  | nothing => exact tells_advanceOrEnd.bind fun _ => .pure fun _ h => h
  | matrix => exact tells_matrices 2
  | partnerMatrix => exact tells_matrices 16
  | sequential => exact (tells_parts flags).bind fun _ => .pure fun _ h => h
  | concentric =>
    exact (tells_subCall _ _ _).bind fun _ => (tells_subCall _ _ _).bind fun _ =>
      tells_advanceOrEnd.bind fun _ => .pure fun _ h => h
  | sameAs =>
    rw [definition]
    split
    · exact .fail fun _ h => h.1
    · exact (tells_symbol _).bind fun _ => (tells_referToTag _).bind fun _ =>
        tells_advanceOrEnd.bind fun _ => .pure fun _ h => h

/-- A body is left for the token behind its definition. -/
theorem tells_body (isTagged : Bool) :
    Tells tokens (Here tokens) (body isTagged) fun _ => Here tokens := by
  refine tells_callFlags.bind fun flags => .of_imp (fun _ h => h.1) ?_
  refine tells_arrayFlags.bind fun arrayFlags => .of_imp (fun _ h => h.1) ?_
  refine (tells_symbolHere _).bind fun _ => (tells_orFail _ _).bind fun schema => ?_
  split
  · exact .fail fun _ h => h.1
  · exact (tells_definition _ _ _ _).bind fun _ => .pure fun _ h => h

/-! ### Calls -/

/-- Another body is left for the token behind it. -/
theorem tells_continuationStep (isTagged : Bool) (p : BodyProgress) :
    Tells tokens (Here tokens) (continuationStep isTagged p)
      (Sum.elim (fun _ => Here tokens) fun _ => Here tokens) := by
  refine tells_symbol?.bind fun word => .of_imp (fun _ h => h.1) ?_
  split
  · exact .pure fun _ h => h
  · split
    · exact .pure fun _ h => h
    · split
      · exact .fail fun _ h => h
      · exact (tells_body isTagged).bind fun _ => .pure fun _ h => h

/-- A tag is left for the token behind it. -/
theorem tells_tag? : Tells tokens (Here tokens) tag? fun _ => Here tokens := by
  refine (tells_isAt _).bind fun isTag => ?_
  cases isTag with
  | true =>
    refine .of_imp (fun _ h => (h.2 rfl).passable nofun) ((tells_symbol _).bind fun _ => ?_)
    exact (tells_defineTag _).bind fun _ => tells_advance.bind fun _ =>
      (tells_symbolHere _).bind fun _ => .pure fun _ h => h.1
  | false => exact .pure fun _ h => h.1

/-- **From its header on a call is the last one.** -/
theorem tells_call : Tells tokens (Beholds tokens (.word "call")) call fun _ => Here tokens := by
  refine (tells_text _ _).bind fun name => Tells.bind (J := fun _ => Past tokens (.text name))
    (fun _ h => h.past_setCall) fun _ => ?_
  refine Tells.bind (J := fun _ => Passable tokens) ((tells_advance_past _).bind fun _ =>
    .of_imp (fun _ h => h.here) (tells_symbolHere _)) fun word => ?_
  refine (tells_orFail _ _).bind fun level => tells_advance.bind fun _ =>
    (tells_symbolHere _).bind fun _ => .of_imp (fun _ h => h.1) ?_
  exact tells_tag?.bind fun tag => (tells_body _).bind fun _ =>
    (Tells.loop (tells_continuationStep _) _).bind fun _ => .pure fun _ h => h

/-- A call is left for the token behind it, and remembered there. -/
theorem tells_callStep (calls : List Call) : Tells tokens (Here tokens) (callStep calls)
    (Sum.elim (fun _ => Here tokens) fun _ => Here tokens) := by
  refine tells_current?.bind fun t => .of_imp (fun _ h => h.1) ?_
  split
  · exact .pure fun _ h => h
  · refine (tells_symbolHere_word _).bind fun word => ?_
    split
    · rename_i hword
      rw [hword]
      exact tells_call.bind fun _ => .pure fun _ h => h
    · exact .fail fun _ h => h.1

/-- The version is left at its string, which names no call. -/
theorem tells_version : Tells tokens (Here tokens) version fun _ => Passable tokens := by
  refine (tells_present fun _ h => h).bind fun _ => (tells_symbolHere_word _).bind fun word => ?_
  split
  · rename_i hword
    exact (tells_text _ _).imp fun _ _ h => h.passable (by rw [hword]; decide)
  · exact .fail fun _ h => h.1

/-- **The parser stops where the call is known**, and so are the uses of tags when it is done. -/
theorem tells_book : Tells tokens (Here tokens) book fun p _ => ToldUses tokens p.2 := by
  refine tells_version.bind fun _ => tells_advanceOrEnd.bind fun _ =>
    (Tells.loop tells_callStep _).bind fun calls => ?_
  rintro r ⟨before, hbehind, -⟩
  exact hbehind.uses

end Parser

/-! ### Texts -/

variable {tokens : List Token} {failure : Option LexError}

/-- Before the first token no call is known. -/
theorem Parser.here_start : Parser.Here tokens { tokens, failure } :=
  ⟨[], ⟨rfl, .base⟩, rfl⟩

/-- **The parser stops where the call that it remembers is the last one.** -/
theorem told_of_parse_error {stop : Stop} (h : parse tokens failure = .error stop) :
    Told tokens stop.left stop.call := by
  have hbook := Parser.tells_book { tokens, failure } Parser.here_start
  unfold parse at h
  cases hout : Parser.book { tokens, failure } with
  | error e =>
    rw [hout] at h hbook
    cases h
    exact hbook
  | ok out =>
    rw [hout] at h
    cases h

/-- **Where a tag is first used the call that is remembered is the last one.** -/
theorem toldUses_of_parse {book : CallBook} {tags : TagTable Nat}
    (h : parse tokens failure = .ok (book, tags)) : ToldUses tokens tags := by
  have hbook := Parser.tells_book { tokens, failure } Parser.here_start
  unfold parse at h
  cases hout : Parser.book { tokens, failure } with
  | error e =>
    rw [hout] at h
    cases h
  | ok out =>
    obtain ⟨⟨book', tags'⟩, rest⟩ := out
    rw [hout] at h hbook
    cases h
    exact hbook

end CallText
end SquareDance
