/-
# What is compiled can be loaded

The bytes of a compiled text are those of a sound call book (`Parser.of_book`), so what may
still keep them from being loaded is a text or a name of the wrong size.  The strings of a
text are short (`stringsFit_tokenize`), and the message of a definition is one of them,
which `Parser.Gives` carries from the token to the call book.  The writer refuses names that
are too long, and nobody refuses a call whose name is the empty string: its bytes are written
and cannot be loaded.  Main statement: `load_compiled_iff`.
-/

import SquareDance.Proofs.CallBook.Room
import SquareDance.Proofs.CallText.Lexing
import SquareDance.Proofs.CallText.Sound

namespace SquareDance
namespace CallText

/-! ### Strings of a text -/

/-- A string is as large as it was counted, and not larger than it may be. -/
theorem size_le_of_takeString {reversed : List Char} {size n k : Nat} {escaped : Bool}
    {cs rest : List Char} {s : String}
    (hsize : (String.ofList reversed.reverse).utf8ByteSize = size)
    (hle : size ≤ maxTokenSize) (h : takeString reversed size escaped n cs = .ok (s, k, rest)) :
    s.utf8ByteSize ≤ maxTokenSize := by
  induction cs generalizing reversed size n escaped with
  | nil => simp [takeString] at h
  | cons c cs ih =>
    unfold takeString at h
    repeat' split at h
    · cases h
      rw [hsize]
      exact hle
    · exact ih hsize hle h
    · cases h
    · rename_i hfits
      refine ih ?_ (Nat.not_lt.1 hfits) h
      rw [List.reverse_cons, String.ofList_append, String.utf8ByteSize_append, hsize, sizeWith]
      simp

/-- A string among tokens is not larger than it may be. -/
def StringsFit (tokens : List Token) : Prop :=
  ∀ s, .text s ∈ tokens → (Text.utf8 s).length ≤ maxTokenSize

/-- What is left of tokens has no other strings. -/
theorem StringsFit.of_suffix {ts ts' : List Token} (h : StringsFit ts) (hs : ts' <:+ ts) :
    StringsFit ts' := fun s ht => h s (hs.subset ht)

/-- A token that is taken is not larger than it may be. -/
theorem stringsFit_of_lexToken {cs rest : List Char} {t : Token} {width seen : Nat}
    (h : lexToken cs = .token t width seen rest) : StringsFit [t] := by
  intro s hs
  have ht : .text s = t := List.mem_singleton.1 hs
  obtain ⟨n, mid, -, hbegins⟩ := lexToken_eq_token.1 h
  cases hbegins with
  | leftBracket => cases ht
  | rightBracket => cases ht
  | text hstring =>
    cases ht
    exact size_le_of_takeString rfl (Nat.zero_le _) hstring
  | symbol _ _ _ hsymbol =>
    unfold tokenOfSymbol at ht
    split at ht <;> cases ht

/-- **The strings of a text are not larger than they may be.**  By induction on the tokens
taken one after another. -/
theorem stringsFit_tokensFrom {found : List (Token × Place)} {cs : List Char}
    {places : List Place} (hfound : StringsFit (found.map (·.1))) :
    StringsFit ((tokensFrom found cs places).tokens.map (·.1)) := by
  fun_induction tokensFrom found cs places with
  | case1 found cs places t width seen rest h ih =>
    refine ih fun s hs => ?_
    obtain hs | hs := List.mem_cons.1 hs
    · exact stringsFit_of_lexToken h s (by simpa using hs)
    · exact hfound s hs
  | case2 | case3 =>
    intro s hs
    exact hfound s (by simpa using hs)

/-- The strings of a text fit, since the lexer takes no longer ones. -/
theorem stringsFit_tokenize (text : String) :
    StringsFit ((tokenize text).tokens.map (·.1)) :=
  stringsFit_tokensFrom fun _ h => absurd h List.not_mem_nil

/-! ### Messages of definitions -/

namespace Parser

open Consumer

variable {α β γ : Type}

/-- What a parser gives has a property, where the strings among the tokens fit. -/
def Gives (p : Parser α) (P : α → Prop) : Prop :=
  ∀ r x rest, StringsFit r.tokens → p r = .ok (x, rest) → StringsFit rest.tokens ∧ P x

namespace Gives

/-- A parser that only leads on may give anything. -/
theorem of_leads {p : Parser α} (h : Leads p) : Gives p fun _ => True :=
  fun r x rest hr hp => ⟨hr.of_suffix (h r x rest hp).tokens, trivial⟩

/-- What takes nothing gives what it is given. -/
theorem pure {P : α → Prop} {x : α} (h : P x) : Gives (Pure.pure x : Parser α) P := by
  intro r y rest hr hp
  obtain ⟨rfl, rfl⟩ := pure_eq_ok.1 hp
  exact ⟨hr, h⟩

/-- What fails gives nothing. -/
theorem fail {P : α → Prop} (e : Problem) : Gives (Parser.fail e : Parser α) P := by
  intro r x rest _ hp
  cases hp

/-- What one parser gives may be asked for by the next. -/
theorem bind {p : Parser α} {f : α → Parser β} {P : α → Prop} {Q : β → Prop} (hp : Gives p P)
    (hf : ∀ x, P x → Gives (f x) Q) : Gives (p >>= f) Q := by
  intro r y rest hr h
  obtain ⟨x, mid, h₁, h₂⟩ := bind_eq_ok.1 h
  obtain ⟨hmid, hx⟩ := hp r x mid hr h₁
  exact hf x hx mid y rest hmid h₂

/-- A parser before another, of which nothing is known but where it leads. -/
theorem after {p : Parser α} {f : α → Parser β} {Q : β → Prop} (hp : Leads p)
    (hf : ∀ x, Gives (f x) Q) : Gives (p >>= f) Q :=
  (of_leads hp).bind fun x _ => hf x

/-- **What each turn keeps the loop gives.** -/
theorem loop {step : β → Parser (β ⊕ γ)} {ht : ∀ b, (step b).Turns} {I : β → Prop} {J : γ → Prop}
    (hs : ∀ b, I b → Gives (step b) (Sum.elim I J)) {b : β} (hb : I b) :
    Gives (Consumer.loop step ht b) J := by
  intro r c rest hr h
  refine loop_induct (motive := fun b r c rest => I b → StringsFit r.tokens →
    StringsFit rest.tokens ∧ J c) ?_ ?_ h hb hr
  · intro b r c rest h hb hr
    exact hs b hb r _ rest hr h
  · intro b r b' mid c rest h ih hb hr
    obtain ⟨hmid, hb'⟩ := hs b hb r _ mid hr h
    exact ih hb' hmid

end Gives

/-- A string that is gone on to fits. -/
theorem gives_text (m : String) :
    Gives (text m) fun s => (Text.utf8 s).length ≤ maxTokenSize := by
  intro r s rest hr h
  obtain ⟨_, r₁, h₁, h⟩ := bind_eq_ok.1 h
  have hr₁ := hr.of_suffix (leads_advance _ _ _ h₁).tokens
  obtain ⟨t, r₂, h₂, h⟩ := bind_eq_ok.1 h
  obtain ⟨ht, rfl⟩ := current?_eq_ok.1 h₂
  split at h
  · obtain ⟨rfl, rfl⟩ := pure_eq_ok.1 h
    obtain ⟨ts, hts⟩ := List.head?_eq_some_iff.1 ht
    exact ⟨hr₁, hr₁ _ (hts ▸ List.mem_cons_self)⟩
  · cases h

/-- **The message of a definition is one of the strings.** -/
theorem gives_arrayPart (size : Nat) (o : ArrayOptions) (part : ArrayPart) :
    Gives (arrayPart size o part) (Sum.elim (fun _ => True) ArrayBody.Fits) := by
  have hclauses : Leads (clauses size) := fun _ _ _ h => (of_clauses h).1
  have hentries : Leads (entries size false) := fun _ _ _ h => (of_entries h).1
  cases part with
  | entries =>
    exact .after leads_advance fun _ => .after hentries fun _ => .after leads_advanceOrEnd fun _ =>
      .pure trivial
  | clausesWithText =>
    refine (gives_text _).bind fun s hs => .after hclauses fun _ => .pure ?_
    have hmax : maxTokenSize ≤ 0x7FFF := by decide
    exact Nat.le_trans hs hmax
  | clausesWithMessage m => exact .after hclauses fun _ => .pure trivial
  | qualifier =>
    rw [arrayPart]
    split
    · exact .fail _
    · exact .after (fun _ _ _ h => (of_qualifier h).1) fun _ => .pure trivial
  | restriction =>
    exact .after (fun _ _ _ h => (of_restriction h).1) fun _ => .pure trivial
  | concentricEnd =>
    rw [arrayPart]
    split
    · exact .fail _
    · split
      · exact .fail _
      · exact .after (fun _ _ _ h => (of_concentricEnd h).1) fun _ => .pure trivial
  | flag bits => exact .pure trivial

/-- A turn of the loop for parts gives options, or destinations that fit. -/
theorem gives_arrayPartStep (size : Nat) (o : ArrayOptions) :
    Gives (arrayPartStep size o) (Sum.elim (fun _ => True) fun p => p.2.Fits) := by
  refine .after leads_advance fun _ => .after leads_indicator fun _ => ?_
  split
  · exact .fail _
  · refine (gives_arrayPart _ _ _).bind fun out hout => ?_
    cases out with
    | inl o' => exact .pure trivial
    | inr b => exact .pure hout

/-- An array definition has a message that fits. -/
theorem gives_arrayDef (flags : UInt32) : Gives (arrayDef flags) fun d => d.body.Fits := by
  refine .after (leads_symbol _) fun _ => .after (leads_orFail _ _) fun start => ?_
  refine .after (fun _ _ _ h => (of_endSetup h).1) fun _ => ?_
  exact (Gives.loop (fun o _ => gives_arrayPartStep _ o) trivial).bind fun p hp => .pure hp

/-- The messages of the definitions in a row of things fit. -/
def ItemsFit (items : List ArrayItem) : Prop :=
  ∀ d ∈ items.filterMap ArrayGroup.def?, d.body.Fits

/-- A turn of the loop for arrays adds a definition that fits. -/
theorem gives_arrayStep {p : ArrayProgress} (hp : ItemsFit p.items) :
    Gives (arrayStep p) (Sum.elim (fun p' => ItemsFit p'.items) ItemsFit) := by
  refine (gives_arrayDef _).bind fun d hd => ?_
  have hitems : ItemsFit (.member d :: p.items) := List.forall_mem_cons.2 ⟨hd, hp⟩
  have hreverse : ItemsFit (ArrayItem.member d :: p.items).reverse := by
    intro d' hd'
    rw [List.filterMap_reverse, List.mem_reverse] at hd'
    exact hitems d' hd'
  refine .after leads_current? fun t => ?_
  split
  · exact .pure hreverse
  · refine .after leads_indicator fun word => ?_
    split
    · exact .pure hitems
    · split
      · refine .after leads_alternateHeader fun a => .after leads_advance fun _ => ?_
        refine .after (fun _ _ _ h => (of_arrayFlags h).1) fun flags => ?_
        refine .after (leads_isAt _) fun b => ?_
        split
        · exact .pure hitems
        · exact .fail _
      · exact .pure hreverse

/-- The messages of a definition of any kind fit. -/
theorem gives_definition (flags : CallFlags) (arrayFlags : UInt32) (isTagged : Bool)
    (k : SchemaKind) : Gives (definition flags arrayFlags isTagged k) Definition.Fits := by
  cases k with
  | array =>
    refine Gives.bind (P := fun groups : List ArrayGroup => ∀ g ∈ groups, ∀ d ∈ g.defs,
      d.body.Fits) ?_ fun groups hgroups => .pure hgroups
    have hnone : ItemsFit [] := fun d hd => absurd hd List.not_mem_nil
    refine (Gives.loop (I := fun p => ItemsFit p.items) (fun p hp => gives_arrayStep hp)
      hnone).bind fun items hitems => .pure fun g hg d hd => hitems d ?_
    rw [← ArrayGroup.flatMap_defs_ofItems]
    exact List.mem_flatMap.2 ⟨g, hg, hd⟩
  | nothing => exact .after leads_advanceOrEnd fun _ => .pure trivial
  | matrix | partnerMatrix =>
    intro r d rest hr h
    obtain ⟨hreach, flags, groups, rfl, -⟩ := of_matrices h
    exact ⟨hr.of_suffix hreach.tokens, trivial⟩
  | sequential =>
    exact .after ((leads_subCall _ _ _).bind fun _ => leads_loop _ (leads_partStep _) _)
      fun _ => .pure trivial
  | concentric =>
    exact .after (leads_subCall _ _ _) fun _ => .after (leads_subCall _ _ _) fun _ =>
      .after leads_advanceOrEnd fun _ => .pure trivial
  | sameAs =>
    rw [definition]
    split
    · exact .fail _
    · exact .after (leads_symbol _) fun _ => .after (leads_referToTag _) fun _ =>
        .after leads_advanceOrEnd fun _ => .pure trivial

/-- The messages of a body fit. -/
theorem gives_body (isTagged : Bool) : Gives (body isTagged) CallBody.Fits := by
  refine .after leads_callFlags fun flags => ?_
  refine .after (fun _ _ _ h => (of_arrayFlags h).1) fun aflags => ?_
  refine .after leads_indicator fun _ => .after (leads_orFail _ _) fun schema => ?_
  split
  · exact .fail _
  · exact (gives_definition _ _ _ _).bind fun d hd => .pure hd

/-- **Each body of a call gets a message that fits.** -/
theorem gives_continuationStep (isTagged : Bool) {p : BodyProgress}
    (hp : ∀ b ∈ p.continuations, b.Fits) : Gives (continuationStep isTagged p)
      (Sum.elim (fun p' => ∀ b ∈ p'.continuations, b.Fits) fun bs => ∀ b ∈ bs, b.Fits) := by
  have hreverse : ∀ b ∈ p.continuations.reverse, b.Fits := fun b hb => hp b (List.mem_reverse.1 hb)
  refine .after leads_symbol? fun word => ?_
  split
  · exact .pure hreverse
  · split
    · exact .pure hreverse
    · split
      · exact .fail _
      · exact (gives_body _).bind fun b hb => .pure (List.forall_mem_cons.2 ⟨hb, hp⟩)

/-- The messages of all bodies of a call fit. -/
theorem gives_call : Gives call fun c => ∀ b ∈ c.bodies, b.Fits := by
  refine .after (leads_text _) fun name => .after (leads_setCall _) fun _ => ?_
  refine .after (leads_symbol _) fun _ => .after (leads_orFail _ _) fun level => ?_
  refine .after leads_advance fun _ => .after leads_indicator fun _ => ?_
  refine .after leads_tag? fun tag => (gives_body _).bind fun b hb => ?_
  refine (Gives.loop (I := fun p => ∀ b ∈ p.continuations, b.Fits)
    (fun p hp => gives_continuationStep _ hp) ?_).bind fun bs hbs => .pure ?_
  · exact fun b hb => absurd hb List.not_mem_nil
  · exact List.forall_mem_cons.2 ⟨hb, hbs⟩

/-- **The messages of a call book fit**, where the strings among the tokens do. -/
theorem gives_book : Gives book fun p => ∀ c ∈ p.1.calls, ∀ b ∈ c.bodies, b.Fits := by
  refine .after leads_version fun version => .after leads_advanceOrEnd fun _ => ?_
  refine Gives.bind (P := fun calls => ∀ c ∈ calls, ∀ b ∈ c.bodies, b.Fits) ?_
    fun calls hcalls => .after (fun r x rest h => ?_) fun _ => .pure hcalls
  · refine Gives.loop (I := fun calls => ∀ c ∈ calls, ∀ b ∈ c.bodies, b.Fits)
      (fun calls hcalls => .after leads_current? fun t => ?_)
      fun c hc => absurd hc List.not_mem_nil
    split
    · exact .pure fun c hc => hcalls c (List.mem_reverse.1 hc)
    · refine .after leads_indicator fun word => ?_
      split
      · exact gives_call.bind fun c hc => .pure (List.forall_mem_cons.2 ⟨hc, hcalls⟩)
      · exact .fail _
  · obtain ⟨-, rfl⟩ := left_eq_ok.1 h
    exact .refl _

end Parser

/-! ### Compiling -/

/-- What is compiled is parsed, uses no tag that is not defined, and is written. -/
theorem compile_eq_ok {text : String} {c : Compilation} (h : compile text = .ok c) :
    parse ((tokenize text).tokens.map (·.1)) (tokenize text).failure = .ok (c.book, c.tags) ∧
      c.tags.firstUndefinedUse (fun a b => b < a) = none ∧ c.book.toBytes = .ok c.bytes ∧
        c.cautions = c.tags.unreferenced.map .unreferencedTag := by
  unfold compile at h
  simp only at h
  split at h
  · cases h
  · rename_i b tags hparse
    split at h
    · cases h
    · rename_i huse
      split at h
      · cases h
      · rename_i bytes hbytes
        cases h
        exact ⟨hparse, huse, hbytes, rfl⟩

/-- A sound call has a tag that fits. -/
theorem tagFits_of_isSound {c : Call} {n : Nat} (h : c.IsSound n) (hn : n ≤ TagTable.maxSize) :
    Call.TagFits c.tag := by
  cases ht : c.tag with
  | none => trivial
  | some t =>
    have hlt := h.tag_lt t ht
    have hne : t.toNat ≠ 0 := fun hz => h.tag_ne_zero (ht.trans (congrArg some
      (UInt16.toNat_inj.1 hz)))
    have hmax : TagTable.maxSize = 8190 := rfl
    show 1 ≤ t.toNat ∧ t.toNat ≤ 0x1FFE
    omega

/-- **What is compiled can be loaded, unless it has a call without a name.**  Loading the
bytes gives the call book back that was parsed, if no call has the empty string for its
name, and only then. -/
theorem load_compiled_iff {text : String} {c : Compilation} (h : compile text = .ok c) :
    CallBook.load c.bytes = .ok c.book ↔ ∀ call ∈ c.book.calls, call.name ≠ "" := by
  obtain ⟨hparse, -, hbytes, -⟩ := compile_eq_ok h
  obtain ⟨rest, hbook⟩ := book_of_parse hparse
  have hsound := Parser.of_book hbook
  obtain ⟨-, hfits⟩ := Parser.gives_book _ _ _ (stringsFit_tokenize text) hbook
  obtain ⟨hcount, hversion, hcalls⟩ := CallBook.of_toBytes hbytes
  constructor
  · intro hload call hcall
    exact (Text.one_le_length_utf8 _).1 ((CallBook.of_load hload).1.calls call hcall).name_pos
  · intro hnames
    refine CallBook.load_of_isWellFormed ⟨hcount, hversion, fun call hcall => ?_⟩ hbytes
    have hcallSound := hsound.calls call hcall
    refine ⟨(Text.one_le_length_utf8 _).2 (hnames call hcall), (hcalls call hcall).1,
      tagFits_of_isSound hcallSound hsound.size_le, fun b hb => ⟨?_, ?_⟩⟩
    · exact (hcallSound.bodies b hb).isWellFormed
    · exact hfits call hcall b hb

/-- A text with a call that says something with a string. -/
def namedText : String :=
  "version \"1\" call \"pass\" plus setup 1x2 1x2 preds \"No\" if always [1N 0S]"

/-- A text whose call has a name is compiled to bytes that load. -/
theorem load_compiled_namedText : ∃ c, compile namedText = .ok c ∧
    (CallBook.load c.bytes = .ok c.book ↔ ∀ call ∈ c.book.calls, call.name ≠ "") := by
  have hsome : (compile namedText).toOption.isSome = true := by decide +kernel
  cases h : compile namedText with
  | error e =>
    rw [h] at hsome
    cases hsome
  | ok c => exact ⟨c, rfl, load_compiled_iff h⟩

/-- A text with a call whose name is the empty string. -/
def unnamedText : String := "version \"x\" call \"\" plus nulldefine "

/-- **The bytes of a compiled text may be refused**: those of a call without a name. -/
theorem load_compiled_unnamedText : ∃ c, compile unnamedText = .ok c ∧
    CallBook.load c.bytes = .error (.unexpectedRecord 24 0x81) := by
  have hload : (compile unnamedText).toOption.map (fun c => CallBook.load c.bytes)
      = some (.error (.unexpectedRecord 24 0x81)) := by decide +kernel
  cases h : compile unnamedText with
  | error e =>
    rw [h] at hload
    cases hload
  | ok c =>
    rw [h] at hload
    exact ⟨c, rfl, Option.some.inj hload⟩

end CallText
end SquareDance
