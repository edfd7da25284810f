/-
# The words that tags are read from

The parts of a call book that mention tags are the heads of its calls and their definitions
(`CallBook.mentions`).  While a text is read, each word that names a tag gives one mention, in
the order of the words, and the table of tags is at any time what the words so far make of it:
`Parser.Finds` says so between two readings, and `Parser.Mentions` of a parser, piece by
piece.  Parsers that name no tags find none.

Main statement: the mentions of a book are the words of its tokens, one for one, each with the
number that the name has in the table (`of_book_mentions`).
-/

import Mathlib.Data.List.Forall2
import SquareDance.Proofs.CallText.QuietParsers
import SquareDance.Proofs.CallText.Sound

namespace SquareDance

/-! ### Mentions -/

/-- A tag that a call book mentions. -/
structure Mention where
  /-- It is the tag of a call; else a definition refers to it. -/
  isHeader : Bool
  tag : TagId
  deriving DecidableEq

/-- A sub-call refers to its tag. -/
def SubCall.mention (c : SubCall) : Mention := ⟨false, c.tag⟩

/-- The tags that a definition mentions: those that it refers to. -/
def Definition.mentions (d : Definition) : List Mention := d.tags.map (⟨false, ·⟩)

/-- A sequence mentions the tags of its parts. -/
@[simp] theorem Definition.mentions_sequential (parts : List SubCall) :
    (sequential parts).mentions = parts.map (·.mention) := List.map_map

/-- A concentric definition mentions the tags of both sub-calls. -/
@[simp] theorem Definition.mentions_concentric (inner outer : SubCall) :
    (concentric inner outer).mentions = [inner.mention, outer.mention] := rfl

/-- The tags that a call mentions: its own, and those that its bodies refer to. -/
def Call.mentions (c : Call) : List Mention :=
  c.tag.toList.map (⟨true, ·⟩) ++ c.bodies.flatMap (·.definition.mentions)

/-- The tags that a call book mentions, in the order of a text. -/
def CallBook.mentions (b : CallBook) : List Mention := b.calls.flatMap (·.mentions)

namespace CallText

/-- A mention is that of a word: the tag has the number of the word's name. -/
structure IsMentionOf {π : Type} (all : List (TagWord π)) (m : Mention) (w : TagWord π) :
    Prop where
  isHeader : m.isHeader = w.isHeader
  name : (tagNames all)[m.tag.toNat]? = some w.name

/-- Mentions stay those of their words when more words are read. -/
theorem IsMentionOf.append {π : Type} {ws : List (TagWord π)} {m : Mention} {w : TagWord π}
    (h : IsMentionOf ws m w) (more : List (TagWord π)) : IsMentionOf (ws ++ more) m w :=
  ⟨h.isHeader, getElem?_tagNames_append h.name more⟩

/-- The schema of a body says which stage is behind it. -/
theorem Stage.ofWord_of_schema {w : String} {schema : Schema} (h : Schema.ofName? w = some schema) :
    Stage.ofWord w = .ofKind schema.kind := by
  have hcall : Schema.ofName? "call" = none := by decide +kernel
  have hne : w ≠ "call" := by
    rintro rfl
    rw [hcall] at h
    cases h
  rw [Stage.ofWord, if_neg hne, h]
  rfl

namespace Parser

open Consumer

variable {α β γ : Type}

/-! ### Readings that find words -/

/-- **From one reading to another words are found and tags mentioned**, one for each word, and
the table has those words in addition. -/
structure Finds (s : Stage) (r : Reading) (ms : List Mention) (ws : List (TagWord Nat))
    (s' : Stage) (rest : Reading) : Prop where
  words : tagWords s r.call (numbered r.tokens)
    = ws ++ tagWords s' rest.call (numbered rest.tokens)
  table : ∀ past, r.tags = .ofWords past → r.tags.IsWellKept →
    rest.tags = .ofWords (past ++ ws) ∧ rest.tags.IsWellKept ∧
      List.Forall₂ (IsMentionOf (past ++ ws)) ms ws

/-- Where no token names a tag none is found. -/
theorem Passes.finds {s s' : Stage} {r rest : Reading} (h : Passes s r s' rest) :
    Finds s r [] [] s' rest := by
  refine ⟨?_, fun past htags hkept => ?_⟩
  · rw [h.words, h.call, List.nil_append]
  · rw [h.tags, List.append_nil]
    exact ⟨htags, hkept, .nil⟩

/-- What is found by one reading after another is found in this order. -/
theorem Finds.trans {s s' s'' : Stage} {r r' r'' : Reading} {ms ms' : List Mention}
    {ws ws' : List (TagWord Nat)} (h : Finds s r ms ws s' r') (h' : Finds s' r' ms' ws' s'' r'') :
    Finds s r (ms ++ ms') (ws ++ ws') s'' r'' := by
  refine ⟨?_, fun past htags hkept => ?_⟩
  · rw [h.words, h'.words, List.append_assoc]
  · obtain ⟨htags₁, hkept₁, hms⟩ := h.table past htags hkept
    obtain ⟨htags₂, hkept₂, hms'⟩ := h'.table _ htags₁ hkept₁
    rw [List.append_assoc] at htags₂ hms'
    refine ⟨htags₂, hkept₂, List.rel_append (hms.imp fun m w hm => ?_) hms'⟩
    rw [← List.append_assoc]
    exact hm.append ws'

/-- A parser that mentions tags, from what is known of the stage before it to what is known in
the end of the mentions and the stage. -/
def Mentions (I : Stage → Reading → Prop) (p : Parser α)
    (J : α → List Mention → Stage → Reading → Prop) : Prop :=
  ∀ s r x rest, I s r → p r = .ok (x, rest) →
    ∃ ms ws s', Finds s r ms ws s' rest ∧ J x ms s' rest

/-- A parser that names no tags mentions none. -/
theorem Skims.mentions {I : Stage → Reading → Prop} {p : Parser α}
    {J : α → Stage → Reading → Prop} (h : Skims I p J) :
    Mentions I p fun x ms s r => ms = [] ∧ J x s r := by
  intro s r x rest hI hp
  obtain ⟨s', hpass, hJ⟩ := h s r x rest hI hp
  exact ⟨[], [], s', hpass.finds, rfl, hJ⟩

namespace Mentions

variable {I I' : Stage → Reading → Prop} {J : α → List Mention → Stage → Reading → Prop}
  {K : β → List Mention → Stage → Reading → Prop}

/-- What takes nothing mentions nothing. -/
theorem pure {x : α} (h : ∀ s r, I s r → J x [] s r) : Mentions I (Pure.pure x : Parser α) J := by
  intro s r y rest hI hp
  obtain ⟨rfl, rfl⟩ := pure_eq_ok.1 hp
  exact ⟨[], [], s, (Passes.refl s r).finds, h s r hI⟩

/-- What fails mentions nothing. -/
theorem fail (e : Problem) : Mentions I (Parser.fail e : Parser α) J := by
  intro s r x rest _ hp
  cases hp

/-- More may be known before than is needed. -/
theorem of_imp {p : Parser α} (hI : ∀ s r, I' s r → I s r) (h : Mentions I p J) :
    Mentions I' p J := fun s r x rest hI' hp => h s r x rest (hI s r hI') hp

/-- What is known of more than the reading may be taken out. -/
theorem of_and {P : Prop} {p : Parser α} (h : P → Mentions I p J) :
    Mentions (fun s r => P ∧ I s r) p J := fun s r x rest hI hp => h hI.1 s r x rest hI.2 hp

/-- **The mentions of one parser come before those of the next.** -/
theorem bind {p : Parser α} {f : α → Parser β} (hp : Mentions I p J)
    (hf : ∀ x ms, Mentions (J x ms) (f x) fun y ms' => K y (ms ++ ms')) :
    Mentions I (p >>= f) K := by
  intro s r y rest hI h
  obtain ⟨x, mid, h₁, h₂⟩ := bind_eq_ok.1 h
  obtain ⟨ms, ws, s₁, hfinds, hJ⟩ := hp s r x mid hI h₁
  obtain ⟨ms', ws', s₂, hfinds', hK⟩ := hf x ms s₁ mid y rest hJ h₂
  exact ⟨ms ++ ms', ws ++ ws', s₂, hfinds.trans hfinds', hK⟩

/-- A parser that names no tags adds no mentions to those of the next. -/
theorem after {p : Parser α} {f : α → Parser β} {L : α → Stage → Reading → Prop}
    (hp : Skims I p L) (hf : ∀ x, Mentions (L x) (f x) K) : Mentions I (p >>= f) K :=
  hp.mentions.bind fun x ms => .of_and fun hms => by
    rw [hms]
    exact hf x

/-- **What each turn keeps the loop keeps**, of the mentions so far. -/
theorem loop {step : β → Parser (β ⊕ γ)} {ht : ∀ b, (step b).Turns}
    {I : β → List Mention → Stage → Reading → Prop}
    {K : γ → List Mention → Stage → Reading → Prop}
    (hs : ∀ b past, Mentions (I b past) (step b)
      fun out ms => Sum.elim (fun b' => I b' (past ++ ms)) (fun c => K c (past ++ ms)) out)
    (b : β) (past : List Mention) :
    Mentions (I b past) (Consumer.loop step ht b) fun c ms => K c (past ++ ms) := by
  intro s r c rest hI h
  refine loop_induct (motive := fun b r c rest => ∀ past s, I b past s r →
    ∃ ms ws s', Finds s r ms ws s' rest ∧ K c (past ++ ms) s' rest) ?_ ?_ h past s hI
  · intro b r c rest h past s hI
    exact hs b past s r _ rest hI h
  · intro b r b' mid c rest h ih past s hI
    obtain ⟨ms, ws, s₁, hfinds, hI₁⟩ := hs b past s r _ mid hI h
    obtain ⟨ms', ws', s₂, hfinds', hK⟩ := ih _ s₁ hI₁
    rw [List.append_assoc] at hK
    exact ⟨ms ++ ms', ws ++ ws', s₂, hfinds.trans hfinds', hK⟩

end Mentions

/-! ### Words that name tags -/

/-- Leaving a token, and looking for another perhaps, changes nothing else. -/
def Leaves (p : Parser Unit) : Prop :=
  ∀ r u rest, p r = .ok (u, rest) → ∃ t, r.tokens = t :: rest.tokens ∧
    rest = { r with tokens := rest.tokens }

/-- To leave a token is to leave the first one. -/
theorem leaves_leave : Leaves leave := by
  intro r u rest h
  unfold leave at h
  split at h
  · rename_i t ts htokens
    cases h
    exact ⟨t, htokens, rfl⟩
  · cases h

/-- To go on is to leave the first token. -/
theorem leaves_advance : Leaves advance := by
  intro r u rest h
  obtain ⟨_, mid, h₁, h₂⟩ := bind_eq_ok.1 h
  obtain rfl := present_eq_ok h₂
  exact leaves_leave r _ mid h₁

/-- To go on, perhaps to the end, is to leave the first token. -/
theorem leaves_advanceOrEnd : Leaves advanceOrEnd := by
  intro r u rest h
  obtain ⟨_, mid, h₁, h₂⟩ := bind_eq_ok.1 h
  obtain rfl := presentOrEnd_eq_ok h₂
  exact leaves_leave r _ mid h₁

/-- A parser that looks up a tag adds the word that it looks at to the table. -/
def LooksUp (isHeader : Bool) (name : String) (p : Parser TagId) : Prop :=
  ∀ r tag mid, p r = .ok (tag, mid) → mid.tokens = r.tokens ∧ mid.call = r.call ∧
    ∀ past, r.tags = .ofWords past → r.tags.IsWellKept →
      let w : TagWord Nat := ⟨name, isHeader, r.tokens.length, r.call⟩
      mid.tags = .ofWords (past ++ [w]) ∧ mid.tags.IsWellKept ∧
        (tagNames (past ++ [w]))[tag.toNat]? = some name

/-- Looking up a tag leaves the call that is being read. -/
theorem call_withTags
    {f : Nat → Option String → TagTable Nat → Except TagError (Nat × TagTable Nat)} {tag : TagId}
    {r rest : Reading} (h : withTags f r = .ok (tag, rest)) : rest.call = r.call := by
  unfold withTags at h
  split at h <;> cases h
  rfl

/-- To refer to a tag is to look it up for a word that is no header. -/
theorem looksUp_referToTag (name : String) : LooksUp false name (referToTag name) := by
  intro r tag mid h
  obtain ⟨i, hf, rfl, htokens⟩ := withTags_eq_ok h
  obtain ⟨hindex, hgrows⟩ := TagTable.reference_eq_ok hf
  refine ⟨htokens, call_withTags h, fun past htags hkept => ?_⟩
  rw [htags] at hf
  obtain ⟨htable, hname⟩ := TagTable.reference_ofWords hf
  rw [(toNat_tag hindex (hgrows.isWellKept hkept)).1]
  exact ⟨htable, hgrows.isWellKept hkept, hname⟩

/-- To define a tag is to look it up for a header. -/
theorem looksUp_defineTag (name : String) : LooksUp true name (defineTag name) := by
  intro r tag mid h
  obtain ⟨i, hf, rfl, htokens⟩ := withTags_eq_ok h
  obtain ⟨hindex, hgrows, -, -⟩ := TagTable.define_eq_ok hf
  refine ⟨htokens, call_withTags h, fun past htags hkept => ?_⟩
  rw [htags] at hf
  obtain ⟨htable, hname⟩ := TagTable.define_ofWords r.tokens.length r.call hf
  rw [(toNat_tag hindex (hgrows.isWellKept hkept)).1]
  exact ⟨htable, hgrows.isWellKept hkept, hname⟩

/-- A word is found when the token is left, and its tag mentioned. -/
theorem LooksUp.finds {isHeader : Bool} {name : String} {p : Parser TagId} {tag : TagId}
    {s : Stage} {r mid rest : Reading} (hp : LooksUp isHeader name p)
    (hs : ∀ call (place : Nat), TagWord.ofToken? call place s (.word name)
      = some ⟨name, isHeader, place, call⟩)
    (h : p r = .ok (tag, mid)) (htokens : r.tokens = .word name :: rest.tokens)
    (hrest : rest = { mid with tokens := rest.tokens }) :
    Finds s r [⟨isHeader, tag⟩] [⟨name, isHeader, r.tokens.length, r.call⟩]
      (s.next (.word name)) rest := by
  obtain ⟨-, hcall, htable⟩ := hp r tag mid h
  have hafter : callAfter r.call s (.word name) = r.call := by cases s <;> rfl
  have hrestCall : rest.call = r.call := by rw [hrest, ← hcall]
  have hrestTags : rest.tags = mid.tags := by rw [hrest]
  refine ⟨?_, fun past htags hkept => ?_⟩
  · rw [htokens, numbered, tagWords, hs, hafter, hrestCall]
    rfl
  · obtain ⟨htags', hkept', hname⟩ := htable past htags hkept
    rw [hrestTags]
    exact ⟨htags', hkept', .cons ⟨rfl, hname⟩ .nil⟩

/-- **A word that names a tag is mentioned**, when its tag has been looked up and the parser
goes on. -/
theorem LooksUp.bind {isHeader : Bool} {name : String} {p : Parser TagId} {next : Parser Unit}
    {s₀ : Stage} {f g : TagId → Parser β} {K : β → List Mention → Stage → Reading → Prop}
    (hp : LooksUp isHeader name p) (hnext : Leaves next)
    (hs : ∀ call (place : Nat), TagWord.ofToken? call place s₀ (.word name)
      = some ⟨name, isHeader, place, call⟩)
    (hf : ∀ tag, f tag = next >>= fun _ => g tag)
    (hg : ∀ tag, Mentions (At (s₀.next (.word name))) (g tag)
      fun y ms => K y (⟨isHeader, tag⟩ :: ms)) :
    Mentions (Sees s₀ (.word name)) (p >>= f) K := by
  intro s r y rest ⟨hs₀, htoken⟩ h
  subst hs₀
  obtain ⟨tag, r₁, h₁, h⟩ := bind_eq_ok.1 h
  rw [hf] at h
  obtain ⟨_, r₂, h₂, h⟩ := bind_eq_ok.1 h
  obtain ⟨t, ht, hr₂⟩ := hnext r₁ _ r₂ h₂
  have htokens : r.tokens = .word name :: r₂.tokens := by
    rw [(hp r tag r₁ h₁).1] at ht
    rw [ht, List.head?_cons, Option.some.injEq] at htoken
    rw [ht, htoken]
  obtain ⟨ms, ws, s', hfinds, hK⟩ := hg tag _ r₂ y rest rfl h
  exact ⟨_, _, s', (hp.finds hs h₁ htokens hr₂).trans hfinds, hK⟩

/-! ### Sub-calls -/

/-- **A sub-call mentions its tag.** -/
theorem mentions_subCall (m : String) (inner inSequence : Bool) (flags : CallFlags) :
    Mentions (Before (.use inner)) (subCall m inSequence flags) fun c ms s r =>
      ms = [c.mention] ∧ Sees (.list inner) .rightBracket s r := by
  refine .after (skims_symbol m) fun word => ?_
  refine (looksUp_referToTag word).bind leaves_advance (fun _ _ => rfl)
    (fun tag => bind_assoc _ _ _) fun tag => ?_
  exact .after (skims_modifierList inner inSequence _) fun ms => .pure fun s r h => ⟨rfl, h⟩

/-- What is known between the parts of a sequence: the parts so far, the newest first, and
their mentions. -/
def PartsSoFar (parts : List SubCall) (ms : List Mention) (s : Stage) (r : Reading) : Prop :=
  ms = parts.reverse.map (·.mention) ∧ Sees (.list false) .rightBracket s r

/-- A turn of the loop for parts adds the mention of a sub-call, or stops. -/
theorem mentions_partStep (flags : CallFlags) (parts : List SubCall) (past : List Mention) :
    Mentions (PartsSoFar parts past) (partStep flags parts) fun out ms =>
      Sum.elim (fun parts' => PartsSoFar parts' (past ++ ms))
        (fun parts' s r => past ++ ms = parts'.map (·.mention) ∧ At .plain s r) out := by
  have hseq : Stage.ofWord "seq" = .use false := by decide +kernel
  refine .of_and fun hpast => ?_
  refine .of_imp (I := Before .plain) (fun s r h => h.before trivial rfl)
    (.after skims_advanceOrEnd fun _ => .after (skims_isAt _) fun isPart => ?_)
  cases isPart with
  | true =>
    refine .of_imp (fun s r h => (h.2 rfl).before trivial hseq) ?_
    refine (mentions_subCall _ false true flags).bind fun c ms => .of_and fun hms => ?_
    exact .pure fun s r h => ⟨by simp [hpast, hms], h⟩
  | false => exact .pure fun s r h => ⟨by simp [hpast], h.1⟩

/-- **The parts of a sequence mention their tags.** -/
theorem mentions_parts (flags : CallFlags) :
    Mentions (Before (.use false)) (parts flags) fun parts ms s r =>
      ms = parts.map (·.mention) ∧ At .plain s r := by
  refine (mentions_subCall _ false true flags).bind fun first ms => ?_
  exact (Mentions.loop (I := PartsSoFar)
    (K := fun (parts : List SubCall) ms s r => ms = parts.map (·.mention) ∧ At .plain s r)
    (mentions_partStep flags) [first] ms).of_imp fun s r h => h

/-! ### Definitions and bodies -/

/-- Matrices mention no tag. -/
theorem mentions_matrices (count : Nat) : Mentions (Before .plain) (matrices count)
    fun d ms s r => ms = d.mentions ∧ At .plain s r := by
  intro s r d rest hI h
  obtain ⟨-, flags, groups, rfl, -⟩ := of_matrices h
  obtain ⟨s', hpass, hat⟩ := skims_matrices count s r _ rest hI h
  exact ⟨[], [], s', hpass.finds, rfl, hat⟩

/-- **A definition mentions its tags**, as its form demands. -/
theorem mentions_definition (flags : CallFlags) (arrayFlags : UInt32) (isTagged : Bool)
    (k : SchemaKind) : Mentions (Before (.ofKind k)) (definition flags arrayFlags isTagged k)
      fun d ms s r => ms = d.mentions ∧ At .plain s r := by
  cases k with
  | array => exact .after (skims_arrayGroups _) fun _ => .pure fun s r h => ⟨rfl, h⟩
  | nothing => exact .after skims_advanceOrEnd fun _ => .pure fun s r h => ⟨rfl, h⟩
  | matrix => exact mentions_matrices 2
  | partnerMatrix => exact mentions_matrices 16
  | sequential =>
    refine (mentions_parts flags).bind fun parts ms => .of_and fun hms => ?_
    exact .pure fun s r h => ⟨by simp [hms], h⟩
  | concentric =>
    refine (mentions_subCall _ true false flags).bind fun inner ms => .of_and fun hms => ?_
    refine .of_imp (I := Before (.use false)) (fun s r h => h.before trivial rfl) ?_
    refine (mentions_subCall _ false false flags).bind fun outer ms' => .of_and fun hms' => ?_
    refine .of_imp (I := Before .plain) (fun s r h => h.before trivial rfl)
      (.after skims_advanceOrEnd fun _ => ?_)
    exact .pure fun s r h => ⟨by simp [hms, hms'], h⟩
  | sameAs =>
    rw [definition]
    split
    · exact .fail _
    · refine .after (skims_symbol _) fun word => ?_
      exact (looksUp_referToTag word).bind leaves_advanceOrEnd (fun _ _ => rfl) (fun _ => rfl)
        fun tag => .pure fun s r h => ⟨rfl, h⟩

/-- A body mentions the tags of its definition. -/
theorem mentions_body (isTagged : Bool) : Mentions (At .plain) (body isTagged) fun b ms s r =>
    ms = b.definition.mentions ∧ At .plain s r := by
  refine .after skims_callFlags fun flags => .after skims_arrayFlags fun aflags => ?_
  refine .after (skims_symbolHere _) fun word => .after (skims_orFail _ _) fun schema => ?_
  refine .of_and fun hschema => ?_
  split
  · exact .fail _
  · refine .of_imp (fun s r h => h.before trivial (Stage.ofWord_of_schema hschema)) ?_
    exact (mentions_definition flags aflags isTagged schema.kind).bind fun d ms =>
      .of_and fun hms => .pure fun s r h => ⟨by rw [hms, List.append_nil], h⟩

/-! ### Calls -/

/-- What is known between the bodies of a call: those behind the main one so far, the newest
first, and their mentions. -/
def BodiesSoFar (p : BodyProgress) (ms : List Mention) (s : Stage) (r : Reading) : Prop :=
  ms = p.continuations.reverse.flatMap (·.definition.mentions) ∧ At .plain s r

/-- A turn of the loop for bodies adds the mentions of a definition, or stops. -/
theorem mentions_continuationStep (isTagged : Bool) (p : BodyProgress) (past : List Mention) :
    Mentions (BodiesSoFar p past) (continuationStep isTagged p) fun out ms =>
      Sum.elim (fun p' => BodiesSoFar p' (past ++ ms)) (fun bs s r =>
        past ++ ms = bs.flatMap (·.definition.mentions) ∧ At .plain s r) out := by
  refine .of_and fun hpast => .after skims_symbol? fun word => ?_
  split
  · exact .pure fun s r h => ⟨by rw [hpast, List.append_nil], h.1⟩
  · split
    · exact .pure fun s r h => ⟨by rw [hpast, List.append_nil], h.1⟩
    · split
      · exact .fail _
      · refine .of_imp (fun s r h => h.1) ((mentions_body isTagged).bind fun b ms => ?_)
        exact .of_and fun hms => .pure fun s r h => ⟨by simp [hpast, hms], h⟩

/-- Where a token is seen it is known whether it is another one. -/
theorem skims_isAt_of_sees {s₀ : Stage} {t : Token} (t' : Token) : Skims (Sees s₀ t) (isAt t')
    fun b s r => b = (t == t') ∧ Sees s₀ t s r :=
  skims_current?.bind fun x => .pure fun s r h => by
    have hx : x = some t := h.2.symm.trans h.1.2
    exact ⟨by rw [hx, Option.some_beq_some], h.1⟩

/-- Where no tag stands in the head of a call the body begins. -/
theorem mentions_untagged {w : String} (hw : w ≠ "tag") :
    Mentions (Sees .head (.word w)) (pure none : Parser (Option TagId)) fun tag ms s r =>
      ms = tag.toList.map (⟨true, ·⟩) ∧ At .plain s r := by
  intro s r y rest ⟨hs, htoken⟩ h
  subst hs
  obtain ⟨rfl, rfl⟩ := pure_eq_ok.1 h
  obtain ⟨ts, htokens⟩ := List.head?_eq_some_iff.1 htoken
  have hpass : Passes .head r .plain r := by
    refine ⟨rfl, rfl, fun call => ?_⟩
    have hnext : Stage.head.next (.word w) = Stage.plain.next (.word w) := if_neg hw
    rw [htokens, numbered, tagWords, tagWords, hnext]
    rfl
  exact ⟨[], [], .plain, hpass.finds, rfl, rfl⟩

/-- **The tag of a call is mentioned**, if there is one. -/
theorem mentions_tag? (w : String) : Mentions (Sees .head (.word w)) tag? fun tag ms s r =>
    ms = tag.toList.map (⟨true, ·⟩) ∧ At .plain s r := by
  refine .after (skims_isAt_of_sees _) fun isTag => .of_and fun hb => ?_
  by_cases hw : w = "tag"
  · subst hw
    rw [hb, if_pos (beq_self_eq_true _)]
    refine .of_imp (I := Before .tag) (fun s r h => h.before trivial rfl) ?_
    refine .after (skims_symbol _) fun word => ?_
    refine (looksUp_defineTag word).bind leaves_advance (fun _ _ => rfl) (fun _ => rfl)
      fun tag => ?_
    exact .after (skims_symbolHere _) fun _ => .pure fun s r h => ⟨rfl, h.1⟩
  · rw [hb, if_neg (by simpa using hw)]
    exact mentions_untagged hw

/-- The name of a call is learned from the token that the parser looks at; the level follows. -/
theorem mentions_named {name m : String} {g : String → Parser β}
    {K : β → List Mention → Stage → Reading → Prop}
    (hg : ∀ w, Mentions (Sees .level (.word w)) (g w) K) :
    Mentions (Sees .name (.text name)) (setCall name >>= fun _ => symbol m >>= g) K := by
  intro s r y rest ⟨hs, htoken⟩ h
  subst hs
  obtain ⟨_, r₁, h₁, h⟩ := bind_eq_ok.1 h
  cases h₁
  obtain ⟨w, r₂, h₂, h⟩ := bind_eq_ok.1 h
  obtain ⟨_, r₃, h₃, h₂⟩ := bind_eq_ok.1 h₂
  obtain ⟨hw, rfl⟩ := symbolHere_eq_ok h₂
  obtain ⟨t, ht, hr₃⟩ := leaves_advance _ _ r₃ h₃
  have htokens : r.tokens = .text name :: r₃.tokens := by
    rw [show r.tokens = t :: r₃.tokens from ht, List.head?_cons, Option.some.injEq] at htoken
    rw [show r.tokens = t :: r₃.tokens from ht, htoken]
  have hfirst : Finds .name r [] [] .level r₃ := by
    have hcall : r₃.call = some name := by rw [hr₃]
    have htags : r₃.tags = r.tags := by rw [hr₃]
    refine ⟨?_, fun past hpast hkept => ?_⟩
    · rw [htokens, numbered, tagWords, hcall]
      rfl
    · rw [htags, List.append_nil]
      exact ⟨hpast, hkept, .nil⟩
  obtain ⟨ms, ws, s', hfinds, hK⟩ := hg w .level r₃ y rest ⟨rfl, hw⟩ h
  exact ⟨_, _, s', hfirst.trans hfinds, hK⟩

/-- **A call mentions its tag and those of its bodies.** -/
theorem mentions_call : Mentions (Sees .plain (.word "call")) call fun c ms s r =>
    ms = c.mentions ∧ At .plain s r := by
  have hcall : Stage.ofWord "call" = .name := by decide +kernel
  refine .of_imp (fun s r h => h.before trivial hcall) (.after (skims_text _) fun name => ?_)
  refine mentions_named fun word => .after (skims_orFail _ _) fun level => .of_and fun _ => ?_
  refine .of_imp (I := Before .head) (fun s r h => h.before trivial rfl)
    (.after skims_advance fun _ => ?_)
  refine .after (skims_symbolHere _) fun w => (mentions_tag? w).bind fun tag ms => ?_
  refine .of_and fun hms => (mentions_body _).bind fun b ms' => .of_and fun hms' => ?_
  refine (Mentions.of_imp (fun s r h => ⟨rfl, h⟩) (Mentions.loop (I := BodiesSoFar)
    (K := fun (bs : List CallBody) ms s r => ms = bs.flatMap (·.definition.mentions) ∧
      At .plain s r) (mentions_continuationStep _) { main := b } [])).bind fun bs ms'' => ?_
  refine .of_and fun hms'' => .pure fun s r h => ⟨?_, h⟩
  have hms'' : ms'' = bs.flatMap (·.definition.mentions) := hms''
  simp [hms, hms', hms'', Call.mentions, Call.bodies]

/-! ### Call books -/

/-- What is known between the calls of a book: those so far, the newest first, and their
mentions. -/
def CallsSoFar (calls : List Call) (ms : List Mention) (s : Stage) (r : Reading) : Prop :=
  ms = calls.reverse.flatMap (·.mentions) ∧ At .plain s r

/-- A turn of the loop for calls adds the mentions of a call, or stops at the end. -/
theorem mentions_callStep (calls : List Call) (past : List Mention) :
    Mentions (CallsSoFar calls past) (callStep calls) fun out ms =>
      Sum.elim (fun calls' => CallsSoFar calls' (past ++ ms)) (fun calls' _ r =>
        past ++ ms = calls'.flatMap (·.mentions) ∧ r.tokens = []) out := by
  refine .of_and fun hpast => .after skims_current? fun t => ?_
  split
  · exact .pure fun s r h => ⟨by rw [hpast, List.append_nil], List.head?_eq_none_iff.1 h.2⟩
  · refine .of_imp (fun s r h => h.1) (.after (skims_symbolHere _) fun word => ?_)
    split
    · rename_i hword
      subst hword
      refine mentions_call.bind fun c ms => .of_and fun hms => .pure fun s r h => ⟨?_, h⟩
      simp [hpast, hms]
    · exact .fail _

/-- The version is a string, which names no tag. -/
theorem skims_version : Skims (At .plain) version fun v => Sees .plain (.text v) := by
  have hversion : Stage.ofWord "version" = .plain := by decide +kernel
  refine Skims.bind (J := fun _ => At .plain) ?_ fun _ => (skims_symbolHere _).bind fun word => ?_
  · intro s r u rest hI h
    obtain rfl := present_eq_ok h
    exact ⟨s, .refl s r, hI⟩
  · split
    · rename_i hword
      subst hword
      exact .of_imp (fun s r h => h.before_plain hversion) (skims_text _)
    · exact .fail _

/-- **A book mentions the tags of its calls**, and no tokens are left. -/
theorem mentions_book : Mentions (At .plain) book fun p ms _ r =>
    ms = p.1.mentions ∧ p.2 = r.tags ∧ r.tokens = [] := by
  refine .after skims_version fun version => ?_
  refine .of_imp (I := Before .plain) (fun s r h => h.before trivial rfl)
    (.after skims_advanceOrEnd fun _ => ?_)
  refine (Mentions.of_imp (fun s r h => ⟨rfl, h⟩) (Mentions.loop (I := CallsSoFar)
    (K := fun (calls : List Call) ms _ r => ms = calls.flatMap (·.mentions) ∧ r.tokens = [])
    mentions_callStep [] [])).bind fun calls ms => ?_
  intro s r p rest ⟨hms, htokens⟩ h
  obtain ⟨r', mid, h₁, h⟩ := bind_eq_ok.1 h
  obtain ⟨rfl, rfl⟩ := left_eq_ok.1 h₁
  obtain ⟨rfl, rfl⟩ := pure_eq_ok.1 h
  exact ⟨[], [], s, (Passes.refl s _).finds, (List.append_nil ms).trans hms, rfl, htokens⟩

/-- **The mentions of a book are the words of its tokens**, one for one, and the table is what
the words make. -/
theorem of_book_mentions {tokens : List Token} {failure : Option LexError} {b : CallBook}
    {tags : TagTable Nat} {rest : Reading} {ws : List (TagWord Nat)}
    (hws : ws = tagWords .plain none (numbered tokens))
    (h : book { tokens, failure } = .ok ((b, tags), rest)) :
    tags = .ofWords ws ∧ List.Forall₂ (IsMentionOf ws) b.mentions ws := by
  obtain ⟨ms, found, s, hfinds, rfl, rfl, hend⟩ := mentions_book .plain _ _ rest rfl h
  have hfound : ws = found := by
    rw [hws, hfinds.words, hend]
    exact List.append_nil found
  obtain ⟨htags, -, hmentions⟩ :=
    hfinds.table [] TagTable.base_eq_ofWords TagTable.isWellKept_base
  rw [hfound]
  exact ⟨htags, hmentions⟩

end Parser
end CallText
end SquareDance
