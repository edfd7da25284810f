/-
# Where parsers lead

A parser takes tokens from the front and adds tags, and does nothing else to what it
works through: `Parser.Leads`.  It is proved piece by piece, as is what the small
parsers give.  The tokens left are an end of those there were, so that what was found
among the tokens left was there before.
-/

import SquareDance.CallText.Definition
import SquareDance.Proofs.CallText.Tags
import SquareDance.Proofs.Consumer

namespace SquareDance
namespace CallText

/-- What may become of a reading: some tokens are taken from the front, and tags are
added. -/
structure Reading.Reaches (r r' : Reading) : Prop where
  tokens : r'.tokens <:+ r.tokens
  tags : r.tags.Grows r'.tags

namespace Reading.Reaches

/-- Nothing may have happened. -/
theorem refl (r : Reading) : Reaches r r := ⟨List.suffix_refl _, .refl _⟩

/-- Only tags were added. -/
theorem of_grows {r r' : Reading} (h : r'.tokens = r.tokens) (ht : r.tags.Grows r'.tags) :
    Reaches r r' :=
  ⟨h ▸ List.suffix_refl _, ht⟩

/-- One thing may happen after another. -/
theorem trans {r r' r'' : Reading} (h : Reaches r r') (h' : Reaches r' r'') : Reaches r r'' :=
  ⟨h'.tokens.trans h.tokens, h.tags.trans h'.tags⟩

/-- A reading that is further on is behind the first token. -/
theorem suffix_tail {r r' : Reading} {t : Token} {ts : List Token} (h : Reaches r r')
    (htokens : r.tokens = t :: ts) (hlt : r'.tokens.length < r.tokens.length) :
    r'.tokens <:+ ts := by
  have hsuffix := h.tokens
  rw [htokens, List.suffix_cons_iff] at hsuffix
  obtain heq | hsuffix := hsuffix
  · rw [htokens, heq] at hlt
    exact absurd hlt (Nat.lt_irrefl _)
  · exact hsuffix

end Reading.Reaches

namespace Parser

open Consumer

variable {α β γ : Type} {r rest : Reading}

/-- A parser takes tokens from the front and adds tags. -/
def Leads (p : Parser α) : Prop := ∀ r x rest, p r = .ok (x, rest) → r.Reaches rest

/-! ### Pieces -/

/-- What takes nothing leads nowhere else. -/
theorem Leads.pure (x : α) : Leads (Pure.pure x : Parser α) := by
  intro r y rest h
  obtain ⟨-, rfl⟩ := pure_eq_ok.1 h
  exact .refl r

/-- One parser after another leads on. -/
theorem Leads.bind {p : Parser α} {f : α → Parser β} (hp : Leads p) (hf : ∀ x, Leads (f x)) :
    Leads (p >>= f) := by
  intro r y rest h
  obtain ⟨x, mid, h₁, h₂⟩ := bind_eq_ok.1 h
  exact (hp r x mid h₁).trans (hf x mid y rest h₂)

/-- What fails leads nowhere. -/
theorem leads_fail (e : Problem) : Leads (fail e : Parser α) := by
  intro r x rest h
  cases h

/-- **Where each turn leads the loop leads.** -/
theorem leads_loop {step : β → Parser (β ⊕ γ)} (ht : ∀ b, (step b).Turns)
    (hs : ∀ b, Leads (step b)) (b : β) : Leads (loop step ht b) := by
  intro r c rest hl
  refine loop_induct (motive := fun _ r _ rest => r.Reaches rest) ?_ ?_ hl
  · exact fun b r c rest h => hs b r _ rest h
  · exact fun b r b' mid c rest h ih => (hs b r _ mid h).trans ih

/-- **What each turn keeps the loop keeps.**  `I` is what is known before a turn, and `J`
what is known of what the last turn finds. -/
theorem of_loop {step : β → Parser (β ⊕ γ)} {ht : ∀ b, (step b).Turns} {I : β → Prop}
    {J : γ → Prop}
    (hs : ∀ b r out rest, I b → step b r = .ok (out, rest) → r.Reaches rest ∧
      ((∃ b', out = .inl b' ∧ I b') ∨ ∃ c, out = .inr c ∧ J c))
    {b : β} {c : γ} (hb : I b) (h : loop step ht b r = .ok (c, rest)) :
    r.Reaches rest ∧ J c := by
  refine loop_induct (motive := fun b r c rest => I b → r.Reaches rest ∧ J c) ?_ ?_ h hb
  · intro b r c rest h hb
    obtain ⟨hr, ⟨b', hout, -⟩ | ⟨c', hout, hc⟩⟩ := hs b r _ rest hb h
    · cases hout
    · cases hout
      exact ⟨hr, hc⟩
  · intro b r b' mid c rest h ih hb
    obtain ⟨hr, ⟨b'', hout, hb'⟩ | ⟨c', hout, -⟩⟩ := hs b r _ mid hb h
    · cases hout
      obtain ⟨hrest, hc⟩ := ih hb'
      exact ⟨hr.trans hrest, hc⟩
    · cases hout

/-- What is there is given, and nothing is taken for it. -/
theorem orFail_eq_ok {x : Option α} {e : Problem} {a : α} :
    orFail x e r = .ok (a, rest) ↔ x = some a ∧ r = rest := by
  cases x with
  | none =>
    constructor
    · intro h
      cases h
    · rintro ⟨h, -⟩
      cases h
  | some b => rw [orFail, pure_eq_ok, Option.some.injEq]

/-- What is accepted is given, and nothing is taken for it. -/
theorem accepted_eq_ok {x : Except String α} {a : α} :
    accepted x r = .ok (a, rest) ↔ x = .ok a ∧ r = rest := by
  cases x with
  | error e =>
    constructor
    · intro h
      cases h
    · rintro ⟨h, -⟩
      cases h
  | ok b => rw [accepted, pure_eq_ok, Except.ok.injEq]

/-- To ask for something takes nothing. -/
theorem leads_orFail (x : Option α) (e : Problem) : Leads (orFail x e) := by
  intro r a rest h
  obtain ⟨-, rfl⟩ := orFail_eq_ok.1 h
  exact .refl r

/-- To ask whether something is accepted takes nothing. -/
theorem leads_accepted (x : Except String α) : Leads (accepted x) := by
  intro r a rest h
  obtain ⟨-, rfl⟩ := accepted_eq_ok.1 h
  exact .refl r

/-! ### Tokens -/

/-- The token looked at is the first one that is left, and stays. -/
theorem current?_eq_ok {t : Option Token} :
    current? r = .ok (t, rest) ↔ r.tokens.head? = t ∧ r = rest := by
  rw [current?, Except.ok.injEq, Prod.mk.injEq]

/-- To look at a token takes nothing. -/
theorem leads_current? : Leads current? := by
  intro r t rest h
  obtain ⟨-, rfl⟩ := current?_eq_ok.1 h
  exact .refl r

/-- To ask for a token takes nothing. -/
theorem present_eq_ok {u : Unit} (h : present r = .ok (u, rest)) : r = rest := by
  unfold present at h
  split at h <;> cases h
  rfl

/-- To ask for a token or the end takes nothing. -/
theorem presentOrEnd_eq_ok {u : Unit} (h : presentOrEnd r = .ok (u, rest)) : r = rest := by
  unfold presentOrEnd at h
  split at h <;> cases h
  rfl

/-- To ask for a token or the end leads nowhere else. -/
theorem leads_presentOrEnd : Leads presentOrEnd := by
  intro r u rest h
  obtain rfl := presentOrEnd_eq_ok h
  exact .refl r

/-- To ask for a token leads nowhere else. -/
theorem leads_present : Leads present := by
  intro r u rest h
  obtain rfl := present_eq_ok h
  exact .refl r

/-- Leaving a token takes it and changes nothing else. -/
theorem leave_eq_ok {u : Unit} (h : leave r = .ok (u, rest)) :
    (∃ t, r.tokens = t :: rest.tokens) ∧ rest.tags = r.tags := by
  unfold leave at h
  split at h
  · rename_i t ts ht
    cases h
    exact ⟨⟨t, ht⟩, rfl⟩
  · cases h

/-- To leave a token is to take it from the front. -/
theorem leads_leave : Leads leave := by
  intro r u rest h
  obtain ⟨⟨t, ht⟩, htags⟩ := leave_eq_ok h
  refine ⟨?_, by rw [htags]; exact .refl _⟩
  rw [ht]
  exact List.suffix_cons t _

/-- To go on takes one token and adds no tag. -/
theorem advance_eq_ok {u : Unit} (h : advance r = .ok (u, rest)) :
    (∃ t, r.tokens = t :: rest.tokens) ∧ rest.tags = r.tags := by
  obtain ⟨_, mid, h₁, h₂⟩ := bind_eq_ok.1 h
  obtain rfl := present_eq_ok h₂
  exact leave_eq_ok h₁

/-- To go on is to take a token from the front. -/
theorem leads_advance : Leads advance := leads_leave.bind fun _ => leads_present

/-- To go on, perhaps to the end, is to take a token from the front. -/
theorem leads_advanceOrEnd : Leads advanceOrEnd := leads_leave.bind fun _ => leads_presentOrEnd

/-- The symbol that is given is the token looked at, and stays. -/
theorem symbolHere_eq_ok {m s : String} (h : symbolHere m r = .ok (s, rest)) :
    r.tokens.head? = some (.word s) ∧ r = rest := by
  obtain ⟨t, mid, h₁, h⟩ := bind_eq_ok.1 h
  obtain ⟨ht, rfl⟩ := current?_eq_ok.1 h₁
  split at h
  · obtain ⟨rfl, rfl⟩ := pure_eq_ok.1 h
    exact ⟨ht, rfl⟩
  · cases h

/-- To ask for a symbol takes nothing. -/
theorem leads_symbolHere (m : String) : Leads (symbolHere m) := by
  intro r s rest h
  obtain ⟨-, rfl⟩ := symbolHere_eq_ok h
  exact .refl r

/-- To ask for an indicator takes nothing. -/
theorem leads_indicator : Leads indicator := leads_symbolHere _

/-- **Going on to a symbol takes a token and finds the symbol behind it.** -/
theorem symbol_eq_ok {m s : String} (h : symbol m r = .ok (s, rest)) :
    (∃ t ts, r.tokens = t :: .word s :: ts ∧ rest.tokens = .word s :: ts) ∧
      rest.tags = r.tags := by
  obtain ⟨_, mid, h₁, h⟩ := bind_eq_ok.1 h
  obtain ⟨⟨t, ht⟩, htags⟩ := advance_eq_ok h₁
  obtain ⟨hs, rfl⟩ := symbolHere_eq_ok h
  obtain ⟨ts, hts⟩ := List.head?_eq_some_iff.1 hs
  exact ⟨⟨t, ts, by rw [ht, hts], hts⟩, htags⟩

/-- A symbol is the next token, once another is taken. -/
theorem leads_symbol (m : String) : Leads (symbol m) :=
  leads_advance.bind fun _ => leads_symbolHere m

/-- A string is the next token, once another is taken. -/
theorem leads_text (m : String) : Leads (text m) :=
  leads_advance.bind fun _ => leads_current?.bind fun _ => by
    split
    · exact .pure _
    · exact leads_fail _

/-- A number is the next token, once another is taken. -/
theorem leads_number (m : String) : Leads (number m) :=
  leads_advance.bind fun _ => leads_current?.bind fun _ => by
    split
    · exact .pure _
    · exact leads_fail _

/-- To look for a symbol takes nothing. -/
theorem symbol?_eq_ok {s : Option String} (h : symbol? r = .ok (s, rest)) : r = rest := by
  obtain ⟨t, mid, h₁, h⟩ := bind_eq_ok.1 h
  obtain ⟨-, rfl⟩ := current?_eq_ok.1 h₁
  split at h
  · exact (pure_eq_ok.1 h).2
  · exact (pure_eq_ok.1 h).2

/-- To look for a symbol leads nowhere else. -/
theorem leads_symbol? : Leads symbol? := by
  intro r s rest h
  obtain rfl := symbol?_eq_ok h
  exact .refl r

/-- To compare the token looked at takes nothing. -/
theorem isAt_eq_ok {t : Token} {b : Bool} (h : isAt t r = .ok (b, rest)) : r = rest := by
  obtain ⟨_, mid, h₁, h⟩ := bind_eq_ok.1 h
  obtain ⟨-, rfl⟩ := current?_eq_ok.1 h₁
  exact (pure_eq_ok.1 h).2

/-- If the comparison says so, the token looked at is that one. -/
theorem head?_of_isAt {t : Token} (h : isAt t r = .ok (true, rest)) :
    rest.tokens.head? = some t := by
  obtain ⟨_, mid, h₁, h⟩ := bind_eq_ok.1 h
  obtain ⟨rfl, rfl⟩ := current?_eq_ok.1 h₁
  obtain ⟨heq, rfl⟩ := pure_eq_ok.1 h
  exact eq_of_beq heq

/-- To compare the token looked at leads nowhere else. -/
theorem leads_isAt (t : Token) : Leads (isAt t) := by
  intro r b rest h
  obtain rfl := isAt_eq_ok h
  exact .refl r

/-- To remember the call takes no token and adds no tag. -/
theorem leads_setCall (name : String) : Leads (setCall name) := by
  intro r u rest h
  cases h
  exact ⟨List.suffix_refl _, .refl _⟩

/-! ### Tags -/

/-- What is done to the table of tags is done, and the number is as it says. -/
theorem withTags_eq_ok
    {f : Nat → Option String → TagTable Nat → Except TagError (Nat × TagTable Nat)} {tag : TagId}
    (h : withTags f r = .ok (tag, rest)) :
    ∃ i, f r.tokens.length r.call r.tags = .ok (i, rest.tags) ∧ tag = UInt16.ofNat i ∧
      rest.tokens = r.tokens := by
  unfold withTags at h
  split at h
  · rename_i i tags hf
    cases h
    exact ⟨i, hf, rfl, rfl⟩
  · cases h

/-- A table that is well kept numbers its tags by halfwords, below its size. -/
theorem toNat_tag {i : Nat} {t : TagTable Nat} {name : String} (hi : t.index? name = some i)
    (ht : t.IsWellKept) : (UInt16.ofNat i).toNat = i ∧ i < t.size := by
  have hlt := ht.agrees.lt_size hi
  have hsize := ht.size_le
  have hmax : TagTable.maxSize < 65536 := by decide
  exact ⟨UInt16.toNat_ofNat_of_lt' (show i < 65536 by omega), hlt⟩

/-- **A tag that is referred to is one of the table.** -/
theorem of_referToTag {name : String} {tag : TagId} (h : referToTag name r = .ok (tag, rest))
    (hr : r.tags.IsWellKept) : tag.toNat < rest.tags.size ∧ r.Reaches rest := by
  obtain ⟨i, hf, rfl, htokens⟩ := withTags_eq_ok h
  obtain ⟨hindex, hgrows⟩ := TagTable.reference_eq_ok hf
  obtain ⟨htag, hlt⟩ := toNat_tag hindex (hgrows.isWellKept hr)
  rw [htag]
  exact ⟨hlt, .of_grows htokens hgrows⟩

/-- To refer to a tag may add it, and takes no token. -/
theorem leads_referToTag (name : String) : Leads (referToTag name) := by
  intro r tag rest h
  obtain ⟨i, hf, -, htokens⟩ := withTags_eq_ok h
  exact .of_grows htokens (TagTable.reference_eq_ok hf).2

/-- To define a tag may add it, and takes no token. -/
theorem leads_defineTag (name : String) : Leads (defineTag name) := by
  intro r tag rest h
  obtain ⟨i, hf, -, htokens⟩ := withTags_eq_ok h
  exact .of_grows htokens (TagTable.define_eq_ok hf).2.1

/-- **A tag that is defined is one of the table that was not defined before.** -/
theorem of_defineTag {name : String} {tag : TagId} (h : defineTag name r = .ok (tag, rest))
    (hr : r.tags.IsWellKept) : tag.toNat < rest.tags.size ∧ r.Reaches rest ∧
      r.tags.isDefined tag.toNat = false ∧ rest.tags.isDefined tag.toNat = true := by
  obtain ⟨i, hf, rfl, htokens⟩ := withTags_eq_ok h
  obtain ⟨hindex, hgrows, hbefore, hafter⟩ := TagTable.define_eq_ok hf
  obtain ⟨htag, hlt⟩ := toNat_tag hindex (hgrows.isWellKept hr)
  rw [htag]
  exact ⟨hlt, .of_grows htokens hgrows, hbefore, hafter hr.agrees⟩

/-! ### Flags and modifiers -/

/-- A flag of a call is taken from the front. -/
theorem leads_callFlagStep (flags : CallFlags) : Leads (callFlagStep flags) :=
  leads_indicator.bind fun _ => by
    split
    · exact .pure _
    · exact (leads_accepted _).bind fun _ => leads_advance.bind fun _ => .pure _

/-- The flags of a call are taken from the front. -/
theorem leads_callFlags : Leads callFlags := leads_loop _ leads_callFlagStep {}

/-- What belongs to a modifier is taken from the front. -/
theorem leads_modifier (m : SubCallModifiers) (w : ModifierWord) : Leads (modifier m w) := by
  cases w with
  | complete => exact .pure _
  | insertion => exact (leads_accepted _).bind fun _ => (leads_number _).bind fun _ => .pure _

/-- A modifier is taken from the front. -/
theorem leads_modifierStep (inSequence : Bool) (flags : UInt32) (m : SubCallModifiers) :
    Leads (modifierStep inSequence flags m) :=
  (leads_isAt _).bind fun _ => by
    split
    · exact .pure _
    · exact (leads_symbolHere _).bind fun _ => (leads_orFail _ _).bind fun _ =>
        (leads_modifier _ _).bind fun _ => (leads_accepted _).bind fun _ =>
          leads_advance.bind fun _ => .pure _

/-- Modifiers and their brackets are taken from the front. -/
theorem leads_modifiers (inSequence : Bool) (flags : UInt32) :
    Leads (modifiers inSequence flags) :=
  leads_advance.bind fun _ => (leads_isAt _).bind fun _ => by
    split
    · exact leads_fail _
    · exact leads_advance.bind fun _ => leads_loop _ (leads_modifierStep _ _) {}

/-- A sub-call is taken from the front, and its tag may be added. -/
theorem leads_subCall (m : String) (inSequence : Bool) (flags : CallFlags) :
    Leads (subCall m inSequence flags) :=
  (leads_symbol _).bind fun _ => (leads_referToTag _).bind fun _ =>
    (leads_modifiers _ _).bind fun _ => .pure _

/-- **A sub-call refers to a tag of the table.** -/
theorem of_subCall {m : String} {inSequence : Bool} {flags : CallFlags} {c : SubCall}
    (h : subCall m inSequence flags r = .ok (c, rest)) (hr : r.tags.IsWellKept) :
    c.tag.toNat < rest.tags.size ∧ r.Reaches rest := by
  obtain ⟨word, r₁, h₁, h⟩ := bind_eq_ok.1 h
  obtain ⟨tag, r₂, h₂, h⟩ := bind_eq_ok.1 h
  obtain ⟨ms, r₃, h₃, h⟩ := bind_eq_ok.1 h
  obtain ⟨rfl, rfl⟩ := pure_eq_ok.1 h
  have hl₁ := leads_symbol m _ _ _ h₁
  obtain ⟨hlt, hl₂⟩ := of_referToTag h₂ (hl₁.tags.isWellKept hr)
  have hl₃ := leads_modifiers _ _ _ _ _ h₃
  exact ⟨Nat.lt_of_lt_of_le hlt hl₃.tags.size_le, hl₁.trans (hl₂.trans hl₃)⟩

/-- A key is taken from the front. -/
theorem leads_alternateKeyStep (keys : UInt32) : Leads (alternateKeyStep keys) :=
  (leads_isAt _).bind fun _ => by
    split
    · exact .pure _
    · exact (leads_symbolHere _).bind fun _ => (leads_orFail _ _).bind fun _ =>
        (leads_orFail _ _).bind fun _ => leads_advance.bind fun _ => .pure _

/-- Keys and a level are taken from the front. -/
theorem leads_alternateHeader : Leads alternateHeader :=
  leads_advance.bind fun _ => (leads_isAt _).bind fun _ => by
    split
    · exact leads_fail _
    · exact leads_advance.bind fun _ => (leads_loop _ leads_alternateKeyStep 0).bind fun _ =>
        (leads_symbol _).bind fun _ => (leads_orFail _ _).bind fun _ => .pure _

/-- The tag of a call is taken from the front, and may be added. -/
theorem leads_tag? : Leads tag? :=
  (leads_isAt _).bind fun _ => by
    split
    · exact (leads_symbol _).bind fun _ => (leads_defineTag _).bind fun _ =>
        leads_advance.bind fun _ => leads_indicator.bind fun _ => .pure _
    · exact .pure _

/-- The version is taken from the front. -/
theorem leads_version : Leads version :=
  leads_present.bind fun _ => (leads_symbolHere _).bind fun _ => by
    split
    · exact leads_text _
    · exact leads_fail _

end Parser
end CallText
end SquareDance
