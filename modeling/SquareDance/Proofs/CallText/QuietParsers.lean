/-
# Parsers that name no tags

No token of a list of modifiers, of an array definition or of a matrix names a tag, whatever
words stand there: one lemma for each parser, in the terms of `Parser.Skims`.  Lists are left
at their closing bracket, and what ends with a word is left at it; the parsers that go on to
the next token leave nothing but the stage behind.
-/

import SquareDance.CallText.Definition
import SquareDance.Proofs.CallText.Skimming

namespace SquareDance
namespace CallText
namespace Parser

open Consumer

/-! ### Flags and modifiers -/

/-- Flags of a call are words of a table. -/
theorem skims_callFlags : Skims (At .plain) callFlags fun _ => At .plain := by
  refine Skims.loop (fun flags => (skims_symbolHere _).bind fun word => ?_) _
  cases hw : FlagWord.ofWord? word with
  | none => exact .pure fun s r h => h.1
  | some flag =>
    refine .of_imp (fun s r h => h.before_plain (Stage.ofWord_of_flagWord hw)) ?_
    exact (skims_accepted _).bind fun _ => skims_advance.bind fun _ => .pure fun _ _ h => h

/-- Flags of arrays are words of a table. -/
theorem skims_arrayFlags : Skims (At .plain) arrayFlags fun _ => At .plain := by
  refine Skims.loop (fun flags => (skims_symbolHere _).bind fun word => ?_) _
  cases hw : ArrayFlags.ofWord? word with
  | none => exact .pure fun s r h => h.1
  | some bits =>
    refine .of_imp (fun s r h => h.before_plain (Stage.ofWord_of_arrayFlag hw)) ?_
    exact skims_advance.bind fun _ => .pure fun _ _ h => h

/-- Modifiers stand in their list, numbers among them. -/
theorem skims_modifierStep (inner inSequence : Bool) (flags : UInt32) (m : SubCallModifiers) :
    Skims (At (.list inner)) (modifierStep inSequence flags m)
      (Sum.elim (fun _ => At (.list inner)) fun _ => Sees (.list inner) .rightBracket) := by
  refine (skims_isAt _).bind fun atEnd => ?_
  cases atEnd with
  | true => exact .pure fun s r h => h.2 rfl
  | false =>
    refine .of_imp (fun s r h => h.1) ((skims_symbolHere _).bind fun word => ?_)
    refine .of_imp (I := Before (.list inner))
      (fun s r h => h.before trivial (by cases inner <;> rfl)) ?_
    refine (skims_orFail _ _).bind fun mword => .of_and fun _ => ?_
    refine Skims.bind (J := fun _ => Before (.list inner)) ?_ fun modifier =>
      (skims_accepted _).bind fun _ => skims_advance.bind fun _ => .pure fun _ _ h => h
    cases mword with
    | complete modifier => exact .pure fun _ _ h => h
    | insertion fractal =>
      refine (skims_accepted _).bind fun _ => (skims_number _).bind fun n => .pure fun s r h => ?_
      exact h.before trivial (by cases inner <;> rfl)

/-- **Modifiers up to their closing bracket name no tags**, once the tag before them is left. -/
theorem skims_modifierList (inner inSequence : Bool) (flags : UInt32) :
    Skims (At (.bracket inner)) (do
      if !(← isAt .leftBracket) then malformed "Missing left bracket in defmod list"
      else
        advance
        loop (modifierStep inSequence flags) (turns_modifierStep inSequence flags) {})
      fun _ => Sees (.list inner) .rightBracket := by
  refine (skims_isAt _).bind fun opens => ?_
  cases opens with
  | false => exact .fail _
  | true =>
    refine .of_imp (fun s r h => (h.2 rfl).before trivial rfl) (skims_advance.bind fun _ => ?_)
    exact Skims.loop (skims_modifierStep inner inSequence flags) _

/-- Keys stand in brackets, and a level is a word of a table. -/
theorem skims_alternateHeader :
    Skims (Before .plain) alternateHeader fun _ => Before .plain := by
  refine skims_advance.bind fun _ => (skims_isAt _).bind fun opens => ?_
  cases opens with
  | false => exact .fail _
  | true =>
    refine .of_imp (fun s r h => (h.2 rfl).before trivial rfl) (skims_advance.bind fun _ => ?_)
    refine Skims.bind (J := fun _ => Sees (.list false) .rightBracket) ?_ fun keys => ?_
    · refine Skims.loop (fun keys => (skims_isAt _).bind fun atEnd => ?_) _
      cases atEnd with
      | true => exact .pure fun s r h => h.2 rfl
      | false =>
        refine .of_imp (fun s r h => h.1) ((skims_symbolHere _).bind fun word => ?_)
        refine .of_imp (fun s r h => h.before trivial rfl) ?_
        exact (skims_orFail _ _).bind fun _ => .of_and fun _ => (skims_orFail _ _).bind fun _ =>
          .of_and fun _ => skims_advance.bind fun _ => .pure fun _ _ h => h
    · refine .of_imp (fun s r h => h.before trivial rfl) ((skims_symbol _).bind fun word => ?_)
      refine (skims_orFail _ _).bind fun level => .of_and fun hlevel => .pure fun s r h => ?_
      exact h.before_plain (Stage.ofWord_of_level hlevel)

/-! ### Entries and clauses -/

/-- An entry stands in brackets, where no word names a tag. -/
theorem skims_entryHere? (matrix : Bool) : Skims (At (.list false)) (entryHere? matrix)
    fun out s r => match out with
      | none => Sees (.list false) .rightBracket s r
      | some _ => Before (.list false) s r := by
  refine skims_current?.bind fun t => ?_
  split
  · exact .pure fun s r h => h
  · exact .pure fun s r h => (show Sees _ _ s r from h).before trivial rfl
  · refine .of_imp (fun s r h => (show Sees _ _ s r from h).before trivial rfl) ?_
    refine (skims_accepted _).bind fun d => ?_
    cases matrix with
    | true =>
      refine Skims.bind (J := fun _ => Before (.list false)) ?_ fun y => .pure fun _ _ h => h
      refine (skims_number _).bind fun n => ?_
      split
      · exact .pure fun s r h => h.before trivial rfl
      · exact .fail _
    | false => exact .pure fun _ _ h => h
  · exact .fail _

/-- **A row names no tags**, up to its closing bracket. -/
theorem skims_entries (count : Nat) (matrix : Bool) : Skims (At .plain) (entries count matrix)
    fun _ => Sees (.list false) .rightBracket := by
  refine (skims_isAt _).bind fun opens => ?_
  cases opens with
  | false => exact .fail _
  | true =>
    refine .of_imp (I := Before (.list false)) (fun s r h => (h.2 rfl).before trivial rfl) ?_
    refine Skims.bind (J := fun _ => Sees (.list false) .rightBracket) ?_ fun es => ?_
    · refine Skims.loop (fun before => skims_advance.bind fun _ =>
        (skims_entryHere? matrix).bind fun found => ?_) _
      cases found with
      | none => exact .pure fun _ _ h => h
      | some e => exact .pure fun _ _ h => h
    · split
      · exact .pure fun _ _ h => h
      · exact .fail _

/-- Clauses are left at the word behind them. -/
theorem skims_clauses (size : Nat) :
    Skims (Before .plain) (clauses size) fun _ => At .plain := by
  refine Skims.loop (fun before => skims_advanceOrEnd.bind fun _ =>
    (skims_isAt _).bind fun isClause => ?_) _
  cases isClause with
  | false => exact .pure fun s r h => h.1
  | true =>
    have hif : Stage.ofWord "if" = .plain :=
      Stage.ofWord_of_mem_otherWords (by simp [Stage.otherWords])
    refine .of_imp (fun s r h => (h.2 rfl).before_plain hif) ((skims_symbol _).bind fun word => ?_)
    refine (skims_orFail _ _).bind fun p => .of_and fun hp => ?_
    refine .of_imp (fun s r h => h.before_plain (Stage.ofWord_of_predicate hp)) ?_
    refine skims_advance.bind fun _ => (skims_entries _ _).bind fun es => .pure fun s r h => ?_
    exact h.before trivial rfl

/-! ### Qualifiers and restrictions -/

/-- A sign of a qualifier is a word of a table. -/
theorem skims_qualifierStep (bits : UInt32) : Skims (At .plain) (qualifierStep bits)
    (Sum.elim (fun _ => At .plain) fun _ => At .plain) := by
  refine skims_symbol?.bind fun word => ?_
  cases hw : word.bind Qualifier.Sign.ofWord? with
  | none => exact .pure fun s r h => h.1
  | some sign =>
    obtain ⟨w, rfl, hsign⟩ := Option.bind_eq_some_iff.1 hw
    refine .of_imp (fun s r h => (h.2 w rfl).before_plain (Stage.ofWord_of_sign hsign)) ?_
    cases sign with
    | number =>
      refine (skims_number _).bind fun n => .of_imp (fun s r h => h.before trivial rfl) ?_
      exact (skims_accepted _).bind fun _ => skims_advance.bind fun _ => .pure fun _ _ h => h
    | left | right | live | tBone | notTBone | explicit =>
      exact (skims_accepted _).bind fun _ => skims_advance.bind fun _ => .pure fun _ _ h => h

/-- The name of a qualifier is a word of a table. -/
theorem skims_qualifier : Skims (Before .plain) qualifier fun _ => Before .plain := by
  refine skims_advance.bind fun _ => (Skims.loop skims_qualifierStep _).bind fun bits => ?_
  refine (skims_symbolHere _).bind fun word => (skims_orFail _ _).bind fun code => ?_
  exact .of_and fun hcode => .pure fun s r h => h.before_plain (Stage.ofWord_of_qualifier hcode)

/-- A restriction is a word of a table, with a strength before it or without. -/
theorem skims_restriction : Skims (Before .plain) restriction fun _ => Before .plain := by
  refine (skims_symbol _).bind fun first => ?_
  cases hw : ArrayFlags.strengthOfWord? first with
  | some strength =>
    refine .of_imp (fun s r h => h.before_plain (Stage.ofWord_of_strength hw)) ?_
    refine (skims_symbol _).bind fun word => (skims_orFail _ _).bind fun code => ?_
    exact .of_and fun hcode => .pure fun s r h => h.before_plain (Stage.ofWord_of_qualifier hcode)
  | none =>
    refine (skims_orFail _ _).bind fun code => ?_
    exact .of_and fun hcode => .pure fun s r h => h.before_plain (Stage.ofWord_of_qualifier hcode)

/-! ### Array definitions -/

/-- An ending setup is a word of a table. -/
theorem skims_endSetup (message what : String) :
    Skims (Before .plain) (endSetup message what) fun _ => Before .plain := by
  refine (skims_symbol _).bind fun word => (skims_orFail _ _).bind fun index => ?_
  exact .of_and fun hindex => .pure fun s r h => h.before_plain (Stage.ofWord_of_endSetup hindex)

/-- A second ending setup is a word of a table, and a number follows. -/
theorem skims_concentricEnd : Skims (Before .plain) concentricEnd fun _ => Before .plain := by
  refine (skims_endSetup _ _).bind fun inner => (skims_endSetup _ _).bind fun outer => ?_
  refine (skims_number _).bind fun n => .of_imp (fun s r h => h.before trivial rfl) ?_
  split
  · exact .pure fun _ _ h => h
  · exact .pure fun _ _ h => h
  · exact .fail _

/-- **A part of an array definition names no tags.**  Options are left at their last token,
the destinations behind theirs. -/
theorem skims_arrayPart (size : Nat) (o : ArrayOptions) (part : ArrayPart) :
    Skims (Before .plain) (arrayPart size o part)
      (Sum.elim (fun _ => Before .plain) fun _ => At .plain) := by
  cases part with
  | entries =>
    refine skims_advance.bind fun _ => (skims_entries _ _).bind fun es => ?_
    refine .of_imp (fun s r h => h.before trivial rfl) ?_
    exact skims_advanceOrEnd.bind fun _ => .pure fun _ _ h => h
  | clausesWithText =>
    refine (skims_text _).bind fun message => .of_imp (fun s r h => h.before trivial rfl) ?_
    exact (skims_clauses _).bind fun _ => .pure fun _ _ h => h
  | clausesWithMessage m => exact (skims_clauses _).bind fun _ => .pure fun _ _ h => h
  | qualifier =>
    rw [arrayPart]
    split
    · exact .fail _
    · exact skims_qualifier.bind fun _ => .pure fun _ _ h => h
  | restriction => exact skims_restriction.bind fun _ => .pure fun _ _ h => h
  | concentricEnd =>
    rw [arrayPart]
    split
    · exact .fail _
    · split
      · exact .fail _
      · exact skims_concentricEnd.bind fun _ => .pure fun _ _ h => h
  | flag bits => exact .pure fun _ _ h => h

/-- An array definition is left at the word behind it. -/
theorem skims_arrayDef (flags : UInt32) :
    Skims (Before .plain) (arrayDef flags) fun _ => At .plain := by
  refine (skims_symbol _).bind fun word => (skims_orFail _ _).bind fun start => ?_
  refine .of_and fun hstart => ?_
  refine .of_imp (fun s r h => h.before_plain (Stage.ofWord_of_startSetup hstart)) ?_
  refine (skims_endSetup _ _).bind fun index => Skims.bind (J := fun _ => At .plain) ?_ fun _ =>
    .pure fun _ _ h => h
  refine Skims.loop (fun o => skims_advance.bind fun _ => (skims_symbolHere _).bind fun w => ?_) _
  cases hw : ArrayPart.ofWord? w with
  | none => exact .fail _
  | some part =>
    refine .of_imp (fun s r h => h.before_plain (Stage.ofWord_of_arrayPart hw)) ?_
    refine (skims_arrayPart _ _ _).bind fun out => ?_
    cases out with
    | inl o' => exact .pure fun _ _ h => h
    | inr b => exact .pure fun _ _ h => h

/-- A turn of the loop for arrays is at another `setup`, or at the word behind them. -/
theorem skims_arrayStep (p : ArrayProgress) : Skims (Before .plain) (arrayStep p)
    (Sum.elim (fun _ => Before .plain) fun _ => At .plain) := by
  have hsetup : Stage.ofWord "setup" = .plain := by decide +kernel
  have halternate : Stage.ofWord "alternate_definition" = .plain :=
    Stage.ofWord_of_mem_otherWords (by simp [Stage.otherWords])
  refine (skims_arrayDef _).bind fun d => skims_current?.bind fun t => ?_
  split
  · exact .pure fun s r h => h.1
  · refine .of_imp (fun s r h => h.1) ((skims_symbolHere _).bind fun word => ?_)
    split
    · rename_i hword
      subst hword
      exact .pure fun s r h => h.before_plain hsetup
    · split
      · rename_i hword
        subst hword
        refine .of_imp (fun s r h => h.before_plain halternate) ?_
        refine skims_alternateHeader.bind fun header => skims_advance.bind fun _ => ?_
        refine skims_arrayFlags.bind fun flags => (skims_isAt _).bind fun isSetup => ?_
        cases isSetup with
        | true => exact .pure fun s r h => (h.2 rfl).before_plain hsetup
        | false => exact .fail _
      · exact .pure fun s r h => h.1

/-- **The groups of array definitions name no tags.** -/
theorem skims_arrayGroups (flags : UInt32) :
    Skims (Before .plain) (arrayGroups flags) fun _ => At .plain :=
  (Skims.loop skims_arrayStep _).bind fun _ => .pure fun _ _ h => h

/-! ### Matrices -/

/-- A turn of the loop for matrices is left at the token behind a matrix. -/
theorem skims_matrixStep (count : Nat) (p : MatrixProgress) : Skims (At .plain) (matrixStep count p)
    (Sum.elim (fun _ => At .plain) fun _ => At .plain) := by
  have halternate : Stage.ofWord "alternate_definition" = .plain :=
    Stage.ofWord_of_mem_otherWords (by simp [Stage.otherWords])
  refine (skims_entries _ _).bind fun es => .of_imp (fun s r h => h.before trivial rfl) ?_
  refine skims_advanceOrEnd.bind fun _ => (skims_isAt _).bind fun isHeader => ?_
  cases isHeader with
  | true =>
    refine .of_imp (fun s r h => (h.2 rfl).before_plain halternate) ?_
    exact skims_alternateHeader.bind fun _ => skims_advance.bind fun _ => .pure fun _ _ h => h
  | false => exact .pure fun s r h => h.1

/-- **Matrices name no tags.** -/
theorem skims_matrices (count : Nat) :
    Skims (Before .plain) (matrices count) fun _ => At .plain := by
  refine Skims.bind (J := fun _ => At .plain) ?_ fun flags =>
    (Skims.loop (skims_matrixStep count) _).bind fun _ => .pure fun _ _ h => h
  refine Skims.loop (fun flags => skims_advance.bind fun _ => skims_symbol?.bind fun word => ?_) _
  cases word with
  | none => exact .pure fun s r h => h.1
  | some w =>
    refine (skims_orFail _ _).bind fun i => .of_and fun hi => .pure fun s r h => ?_
    exact (h.2 w rfl).before_plain (Stage.ofWord_of_matrixFlag hi)

end Parser
end CallText
end SquareDance
