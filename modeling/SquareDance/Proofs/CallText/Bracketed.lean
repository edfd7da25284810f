/-
# Lists in brackets

Modifiers of a sub-call and keys of an alternate definition stand in brackets, one after another.
The parser takes an item at a time up to the closing bracket and stops at the first that is
refused.  So what such a list is read to is a fold over its items: `loop_items`.
-/

import SquareDance.Proofs.CallText.Reading

namespace SquareDance
namespace CallText
namespace Parser

open Consumer

variable {r : Reading} {more : List Token}

/-! ### Single tokens -/

/-- Where another token follows the parser goes on to it. -/
theorem advance_of_tokens {t : Token} (h : r.tokens = t :: more) (hmore : more ≠ []) :
    advance r = .ok ((), { r with tokens := more }) := by
  have hleave : leave r = .ok ((), { r with tokens := more }) := by rw [leave, h]
  obtain ⟨t', more', rfl⟩ := List.exists_cons_of_ne_nil hmore
  rw [advance, bind_of_ok hleave]
  rfl

/-- The parser looks at the first token that is left. -/
theorem isAt_of_tokens {t : Token} (h : r.tokens = t :: more) (t' : Token) :
    isAt t' r = .ok (some t == some t', r) := by
  have hcurrent : current? r = .ok (some t, r) := by rw [current?, h]; rfl
  rw [isAt, bind_of_ok hcurrent]
  rfl

/-- A word that is looked at is a symbol. -/
theorem symbolHere_of_tokens {s : String} (h : r.tokens = .word s :: more) (m : String) :
    symbolHere m r = .ok (s, r) := by
  have hcurrent : current? r = .ok (some (.word s), r) := by rw [current?, h]; rfl
  rw [symbolHere, bind_of_ok hcurrent]
  rfl

/-- A word behind the token looked at is a symbol that is read. -/
theorem symbol_of_tokens {t : Token} {s : String} (h : r.tokens = t :: .word s :: more)
    (m : String) : symbol m r = .ok (s, { r with tokens := .word s :: more }) := by
  rw [symbol, bind_of_ok (advance_of_tokens h (by simp))]
  exact symbolHere_of_tokens rfl m

/-- A number behind the token looked at is read. -/
theorem number_of_tokens {t : Token} {n : UInt32} (h : r.tokens = t :: .number n :: more)
    (m : String) : number m r = .ok (n, { r with tokens := .number n :: more }) := by
  rw [number, bind_of_ok (advance_of_tokens h (by simp))]
  rfl

/-! ### Items -/

variable {β ι α : Type}

/-- What gives nothing is an error. -/
theorem toOption_eq_none {ε : Type} {x : Except ε α} (h : x.toOption = none) :
    ∃ e, x = .error e := by
  cases x with
  | error e => exact ⟨e, rfl⟩
  | ok a => cases h

/-- What gives something is no error. -/
theorem toOption_eq_some {ε : Type} {x : Except ε α} {a : α} (h : x.toOption = some a) :
    x = .ok a := by
  cases x with
  | error e => cases h
  | ok a' =>
    cases h
    rfl

/-- **A list in brackets is read as a fold over its items**, by induction on them.  A turn of the
loop takes one item, or stops at the closing bracket. -/
theorem loop_items {step : β → Parser (β ⊕ β)} {ht : ∀ b, (step b).Turns}
    {text : ι → List Token} {next : β → ι → Option β}
    (hlast : ∀ b r rest, r.tokens = .rightBracket :: rest → step b r = .ok (.inr b, r))
    (hturn : ∀ b x r more, r.tokens = text x ++ more → more ≠ [] →
      (step b r).toOption = (next b x).map fun b' => (.inl b', { r with tokens := more }))
    (xs : List ι) (b : β) {r : Reading} {rest : List Token}
    (hr : r.tokens = xs.flatMap text ++ .rightBracket :: rest) :
    (loop step ht b r).toOption
      = (xs.foldlM next b).map fun b' => (b', { r with tokens := .rightBracket :: rest }) := by
  induction xs generalizing b r with
  | nil =>
    have hr : r.tokens = .rightBracket :: rest := hr
    have hsame : { r with tokens := .rightBracket :: rest } = r := by rw [← hr]
    rw [loop_of_inr (hlast b r rest hr), List.foldlM_nil, hsame]
    rfl
  | cons x xs ih =>
    rw [List.flatMap_cons, List.append_assoc] at hr
    have hx := hturn b x r _ hr (by simp)
    rw [List.foldlM_cons]
    cases hnext : next b x with
    | none =>
      rw [hnext] at hx
      obtain ⟨e, he⟩ := toOption_eq_none hx
      rw [loop_of_error he]
      rfl
    | some b' =>
      rw [hnext] at hx
      rw [loop_of_inl (toOption_eq_some hx)]
      exact ih b' rfl

/-- What is inside brackets is read behind the opening one. -/
theorem bracketed_of_tokens {t : Token} {p : Parser α} {message : String}
    (h : r.tokens = t :: .leftBracket :: more) (hmore : more ≠ []) :
    (do
      advance
      if !(← isAt .leftBracket) then malformed message
      else
        advance
        p : Parser α) r = p { r with tokens := more } := by
  rw [bind_of_ok (advance_of_tokens h (by simp)), bind_of_ok (isAt_of_tokens rfl _),
    if_neg (by simp), bind_of_ok (advance_of_tokens rfl hmore)]

end Parser
end CallText
end SquareDance
