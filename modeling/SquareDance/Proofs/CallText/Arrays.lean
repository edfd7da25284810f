/-
# What array definitions are made of

An array definition begins with two words, for the setup in which people start and for
that in which they end.  `SetupWords` finds these words in a text for each definition
of a list, in order and at different places; it keeps what the numbers of the setups
do not say, that centers and ends have setups of their own only where the second word
is `normal_concentric`.

Definitions and heads of groups come in rows: `DefRow`.  A row begins with a definition
and each head is followed by one, so the groups of a row are not empty, and only the
first has no head.
-/

import SquareDance.Proofs.CallBook.Loaded
import SquareDance.Proofs.CallText.Entries

namespace SquareDance

open CallBook (clausesFlag concentricFlag arrayFlagsOverflow)

/-- The words for the setups of a definition: the first names its starting setup, the
second where people end. -/
def ArrayDef.HasSetupWords (d : ArrayDef) (start finish : String) : Prop :=
  StartSetup.index? start = some d.start.toNat ∧
    match d.finish with
    | .plain index => EndSetup.index? finish = some index.toNat
    | .concentric _ _ => finish = "normal_concentric"

/-- The words for the setups of definitions stand in a text, in order and each at a place
of its own. -/
inductive CallText.SetupWords : List CallText.Token → List ArrayDef → Prop where
  | nil {ts} : SetupWords ts []
  | skip {t ts ds} (h : SetupWords ts ds) : SetupWords (t :: ts) ds
  | pair {start finish ts d ds} (hd : ArrayDef.HasSetupWords d start finish)
      (h : SetupWords ts ds) : SetupWords (.word start :: .word finish :: ts) (d :: ds)

/-- Rows of definitions and heads: definitions, with a head before some but the first. -/
inductive DefRow : List ArrayItem → Prop where
  | last (d) : DefRow [.member d]
  | next (d) {items} (h : DefRow items) : DefRow (.member d :: items)
  | head (d a) {items} (h : DefRow items) : DefRow (.member d :: .header a :: items)

namespace ArrayGroup

/-- **No group of a row is empty.** -/
theorem of_defRow {items : List ArrayItem} (h : DefRow items) :
    (splitItems items).1 ≠ [] ∧ ∀ g ∈ (splitItems items).2, g.defs ≠ [] := by
  induction h with
  | last d => exact ⟨List.cons_ne_nil _ _, by simp [splitItems]⟩
  | next d _ ih => exact ⟨List.cons_ne_nil _ _, ih.2⟩
  | head d a _ ih =>
    exact ⟨List.cons_ne_nil _ _, List.forall_mem_cons.2 ⟨ih.1, ih.2⟩⟩

/-- Definitions without a header are one group. -/
theorem ofItems_of_defRow {items : List ArrayItem} (h : DefRow items) :
    ofItems items = { defs := (splitItems items).1 } :: (splitItems items).2 := by
  show (if (splitItems items).1.isEmpty then _ else _) = _
  rw [if_neg (by simpa using (of_defRow h).1)]

/-- The definition that a thing is, if it is one. -/
def def? : ArrayItem → Option ArrayDef
  | .header _ => none
  | .member d => some d

/-- The definitions of a group are those in its row of things. -/
theorem filterMap_def?_items (g : ArrayGroup) : g.items.filterMap def? = g.defs := by
  have hheader : (g.alternate.toList.map ArrayItem.header).filterMap def? = [] := by
    cases g.alternate <;> rfl
  rw [items, List.filterMap_append, hheader, List.filterMap_map]
  exact List.filterMap_some

/-- Sorting things into groups keeps all definitions, in their order. -/
theorem flatMap_defs_ofItems (items : List ArrayItem) :
    (ofItems items).flatMap (·.defs) = items.filterMap def? := by
  conv_rhs => rw [← flatMap_items_ofItems items, List.filterMap_flatMap]
  exact List.flatMap_congr fun g _ => (filterMap_def?_items g).symm

end ArrayGroup

namespace CallText

/-- Tokens before the words for the setups may be skipped. -/
theorem SetupWords.of_suffix {ts ts' : List Token} {ds : List ArrayDef} (h : SetupWords ts ds)
    (hs : ts <:+ ts') : SetupWords ts' ds := by
  obtain ⟨before, rfl⟩ := hs
  induction before with
  | nil => exact h
  | cons t before ih => exact .skip ih

namespace Parser

open Consumer

variable {r rest : Reading}

/-- Between two readings stand the words for the setups of definitions. -/
def Spans (r : Reading) (ds : List ArrayDef) (rest : Reading) : Prop :=
  ∀ ds', SetupWords rest.tokens ds' → SetupWords r.tokens (ds ++ ds')

namespace Spans

/-- Where no definition is read no words are asked for. -/
theorem of_reaches (h : r.Reaches rest) : Spans r [] rest := fun _ hw => hw.of_suffix h.tokens

/-- One reading after another spans the definitions of both. -/
theorem append {mid : Reading} {ds ds' : List ArrayDef} (h : Spans r ds mid)
    (h' : Spans mid ds' rest) : Spans r (ds ++ ds') rest := by
  intro more hw
  rw [List.append_assoc]
  exact h _ (h' _ hw)

/-- Behind the last definition any tokens may be taken. -/
theorem reaches {mid : Reading} {ds : List ArrayDef} (h : Spans r ds mid)
    (h' : mid.Reaches rest) : Spans r ds rest := fun _ hw => h _ (hw.of_suffix h'.tokens)

end Spans

/-! ### Setups -/

/-- **An ending setup is named by the word that is gone on to.** -/
theorem of_endSetup {m what : String} {i : UInt8} (h : endSetup m what r = .ok (i, rest)) :
    r.Reaches rest ∧ EndSetup.isIndex i.toNat = true ∧ ∃ word,
      (∃ t ts, r.tokens = t :: .word word :: ts ∧ rest.tokens = .word word :: ts) ∧
        EndSetup.index? word = some i.toNat := by
  obtain ⟨word, r₁, h₁, h⟩ := bind_eq_ok.1 h
  obtain ⟨index, r₂, h₂, h⟩ := bind_eq_ok.1 h
  obtain ⟨hindex, rfl⟩ := orFail_eq_ok.1 h₂
  obtain ⟨rfl, rfl⟩ := pure_eq_ok.1 h
  obtain ⟨htokens, -⟩ := symbol_eq_ok h₁
  have hlt : index < EndSetup.table.length := Vocabulary.lt_of_index? hindex
  have hlen : EndSetup.table.length ≤ 256 := by decide +kernel
  have hi : (UInt8.ofNat index).toNat = index :=
    UInt8.toNat_ofNat_of_lt' (show index < 256 by omega)
  rw [hi]
  exact ⟨leads_symbol _ _ _ _ h₁, decide_eq_true hlt, word, htokens, hindex⟩

/-- A setup of its own for centers and for ends. -/
theorem of_concentricEnd {p : EndPlace} {flag : UInt32}
    (h : concentricEnd r = .ok ((p, flag), rest)) :
    r.Reaches rest ∧ FreeFlags flag ∧ p.IsWellFormed ∧ ∃ inner outer, p = .concentric inner outer := by
  obtain ⟨inner, r₁, h₁, h⟩ := bind_eq_ok.1 h
  obtain ⟨outer, r₂, h₂, h⟩ := bind_eq_ok.1 h
  obtain ⟨n, r₃, h₃, h⟩ := bind_eq_ok.1 h
  obtain ⟨hr₁, hi, -⟩ := of_endSetup h₁
  obtain ⟨hr₂, ho, -⟩ := of_endSetup h₂
  have hr := hr₁.trans (hr₂.trans (leads_number _ _ _ _ h₃))
  split at h
  · obtain ⟨hp, rfl⟩ := pure_eq_ok.1 h
    cases hp
    exact ⟨hr, by decide, ⟨hi, ho⟩, inner, outer, rfl⟩
  · obtain ⟨hp, rfl⟩ := pure_eq_ok.1 h
    cases hp
    exact ⟨hr, by decide, ⟨hi, ho⟩, inner, outer, rfl⟩
  · cases h

/-! ### Definitions -/

/-- Options that a definition may have whose ending setup has a given number. -/
structure ArrayOptions.AreGood (index : UInt8) (o : ArrayOptions) : Prop where
  finish : o.finish = .plain index ∨
    index.toNat = EndSetup.concentricIndex ∧ ∃ inner outer, o.finish = .concentric inner outer
  isWellFormed : o.finish.IsWellFormed
  flags : FreeFlags o.flags
  qualifier_lt : o.qualifier.toNat < 2 ^ 17

/-- What a part of a definition has to be: options that are good, or whole rows. -/
def PartIsGood (index : UInt8) (size : Nat) : ArrayOptions ⊕ ArrayBody → Prop
  | .inl o => o.AreGood index
  | .inr b => b.IsWellFormed size

/-- A flag among the parts of a definition is free. -/
theorem free_of_ofWord? {word : String} {bits : UInt32}
    (h : ArrayPart.ofWord? word = some (.flag bits)) : FreeFlags bits := by
  unfold ArrayPart.ofWord? at h
  split at h
  case h_6 =>
    cases hm : CannedMessage.ofName? word with
    | some m =>
      rw [hm] at h
      cases h
    | none =>
      rw [hm] at h
      cases hbits : ArrayFlags.ofOption? word with
      | none =>
        rw [hbits] at h
        cases h
      | some bits' =>
        rw [hbits] at h
        cases h
        exact .of_ofOption? hbits
  all_goals cases h

/-- **A part of a definition keeps its options good**, and its destinations are whole. -/
theorem of_arrayPart {size : Nat} {o : ArrayOptions} {index : UInt8} {part : ArrayPart}
    {out : ArrayOptions ⊕ ArrayBody} (ho : o.AreGood index)
    (hpart : ∀ bits, part = .flag bits → FreeFlags bits)
    (h : arrayPart size o part r = .ok (out, rest)) :
    r.Reaches rest ∧ PartIsGood index size out := by
  cases part with
  | entries =>
    obtain ⟨_, r₁, h₁, h⟩ := bind_eq_ok.1 h
    obtain ⟨es, r₂, h₂, h⟩ := bind_eq_ok.1 h
    obtain ⟨_, r₃, h₃, h⟩ := bind_eq_ok.1 h
    obtain ⟨rfl, rfl⟩ := pure_eq_ok.1 h
    obtain ⟨hr₂, hrow⟩ := of_entries h₂
    exact ⟨(leads_advance _ _ _ h₁).trans (hr₂.trans (leads_advanceOrEnd _ _ _ h₃)), hrow⟩
  | clausesWithText =>
    obtain ⟨t, r₁, h₁, h⟩ := bind_eq_ok.1 h
    obtain ⟨cs, r₂, h₂, h⟩ := bind_eq_ok.1 h
    obtain ⟨rfl, rfl⟩ := pure_eq_ok.1 h
    obtain ⟨hr₂, hclauses⟩ := of_clauses h₂
    exact ⟨(leads_text _ _ _ _ h₁).trans hr₂, hclauses⟩
  | clausesWithMessage m =>
    obtain ⟨cs, r₁, h₁, h⟩ := bind_eq_ok.1 h
    obtain ⟨rfl, rfl⟩ := pure_eq_ok.1 h
    exact of_clauses h₁
  | qualifier =>
    rw [arrayPart] at h
    split at h
    · cases h
    · obtain ⟨q, r₁, h₁, h⟩ := bind_eq_ok.1 h
      obtain ⟨rfl, rfl⟩ := pure_eq_ok.1 h
      obtain ⟨hr₁, hq⟩ := of_qualifier h₁
      exact ⟨hr₁, ho.finish, ho.isWellFormed, ho.flags, hq⟩
  | restriction =>
    obtain ⟨⟨strength, code⟩, r₁, h₁, h⟩ := bind_eq_ok.1 h
    obtain ⟨rfl, rfl⟩ := pure_eq_ok.1 h
    obtain ⟨hr₁, hstrength⟩ := of_restriction h₁
    exact ⟨hr₁, ho.finish, ho.isWellFormed, ho.flags.or hstrength, ho.qualifier_lt⟩
  | concentricEnd =>
    cases hfinish : o.finish with
    | concentric inner outer =>
      rw [arrayPart, hfinish] at h
      cases h
    | plain index' =>
      have hsame : index' = index := by
        obtain hplain | ⟨-, _, _, hplain⟩ := ho.finish
        · exact EndPlace.plain.inj (hfinish.symm.trans hplain)
        · cases hfinish.symm.trans hplain
      rw [arrayPart, hfinish, hsame] at h
      simp only at h
      split at h
      · cases h
      · rename_i hindex
        obtain ⟨⟨p, flag⟩, r₁, h₁, h⟩ := bind_eq_ok.1 h
        obtain ⟨rfl, rfl⟩ := pure_eq_ok.1 h
        obtain ⟨hr₁, hflag, hp, hconcentric⟩ := of_concentricEnd h₁
        exact ⟨hr₁, .inr ⟨not_not.1 hindex, hconcentric⟩, hp, ho.flags.or hflag, ho.qualifier_lt⟩
  | flag bits =>
    obtain ⟨rfl, rfl⟩ := pure_eq_ok.1 h
    exact ⟨.refl _, ho.finish, ho.isWellFormed, ho.flags.or (hpart bits rfl), ho.qualifier_lt⟩

/-- A turn of the loop reads a part. -/
theorem of_arrayPartStep {size : Nat} {o : ArrayOptions} {index : UInt8}
    {out : ArrayOptions ⊕ (ArrayOptions × ArrayBody)} (ho : o.AreGood index)
    (h : arrayPartStep size o r = .ok (out, rest)) :
    r.Reaches rest ∧ ((∃ o', out = .inl o' ∧ o'.AreGood index) ∨
      ∃ p, out = .inr p ∧ p.1.AreGood index ∧ p.2.IsWellFormed size) := by
  obtain ⟨_, r₁, h₁, h⟩ := bind_eq_ok.1 h
  obtain ⟨word, r₂, h₂, h⟩ := bind_eq_ok.1 h
  obtain ⟨-, rfl⟩ := symbolHere_eq_ok h₂
  have hr₁ := leads_advance _ _ _ h₁
  cases hw : ArrayPart.ofWord? word with
  | none =>
    rw [hw] at h
    cases h
  | some part =>
    rw [hw] at h
    obtain ⟨out', r₃, h₃, h⟩ := bind_eq_ok.1 h
    obtain ⟨hr₃, hgood⟩ := of_arrayPart ho (fun bits hb => free_of_ofWord? (hb ▸ hw)) h₃
    cases out' with
    | inl o' =>
      obtain ⟨rfl, rfl⟩ := pure_eq_ok.1 h
      exact ⟨hr₁.trans hr₃, .inl ⟨o', rfl, hgood⟩⟩
    | inr b =>
      obtain ⟨rfl, rfl⟩ := pure_eq_ok.1 h
      exact ⟨hr₁.trans hr₃, .inr ⟨(o, b), rfl, ho, hgood⟩⟩

/-- **The parts of a definition keep its options good to the last.** -/
theorem of_arrayParts {size : Nat} {o o' : ArrayOptions} {index : UInt8} {b : ArrayBody}
    {ht : ∀ o, (arrayPartStep size o).Turns} (ho : o.AreGood index)
    (h : loop (arrayPartStep size) ht o r = .ok ((o', b), rest)) :
    r.Reaches rest ∧ o'.AreGood index ∧ b.IsWellFormed size :=
  of_loop (I := (·.AreGood index)) (J := fun p => p.1.AreGood index ∧ p.2.IsWellFormed size)
    (fun _ _ _ _ => of_arrayPartStep) ho h

/-- The number of a starting setup fits in a byte, and people start on so many spots. -/
theorem of_startIndex? {word : String} {start : Nat} (h : StartSetup.index? word = some start) :
    (UInt8.ofNat start).toNat = start ∧ ∃ count, StartSetup.entryCount? start = some count := by
  obtain ⟨hlt, -, -⟩ := List.findIdx?_eq_some_iff_getElem.1 h
  have hlen : StartSetup.table.length ≤ 256 := by decide +kernel
  refine ⟨UInt8.toNat_ofNat_of_lt' (show start < 256 by omega), (StartSetup.table[start]).2, ?_⟩
  rw [StartSetup.entryCount?, List.getElem?_eq_getElem hlt]
  rfl

/-- Good options suit the word for their ending setup, which is `normal_concentric` if centers
and ends have setups of their own. -/
theorem ArrayOptions.AreGood.hasSetupWords {index : UInt8} {o : ArrayOptions} {d : ArrayDef}
    {start finish : String} (ho : o.AreGood index) (hd : d.finish = o.finish)
    (hstart : StartSetup.index? start = some d.start.toNat)
    (hfinish : EndSetup.index? finish = some index.toNat) : d.HasSetupWords start finish := by
  refine ⟨hstart, ?_⟩
  obtain hplain | ⟨hconcentric, inner, outer, hplain⟩ := ho.finish
  · rw [hd, hplain]
    exact hfinish
  · rw [hd, hplain]
    have hword := Vocabulary.getElem?_of_index? hfinish
    rw [hconcentric, EndSetup.concentricIndex_eq] at hword
    exact (Option.some.inj hword).symm

/-- **An array definition is well formed, and its setups are named.** -/
theorem of_arrayDef {flags : UInt32} {d : ArrayDef} (h : arrayDef flags r = .ok (d, rest))
    (hflags : FreeFlags flags) : r.Reaches rest ∧ d.IsWellFormed ∧ Spans r [d] rest := by
  obtain ⟨word, r₁, h₁, h⟩ := bind_eq_ok.1 h
  obtain ⟨start, r₂, h₂, h⟩ := bind_eq_ok.1 h
  obtain ⟨hstart, rfl⟩ := orFail_eq_ok.1 h₂
  obtain ⟨index, r₃, h₃, h⟩ := bind_eq_ok.1 h
  obtain ⟨⟨o, b⟩, r₄, h₄, h⟩ := bind_eq_ok.1 h
  obtain ⟨rfl, rfl⟩ := pure_eq_ok.1 h
  obtain ⟨⟨t, ts, htokens, htokens₁⟩, -⟩ := symbol_eq_ok h₁
  obtain ⟨hr₃, hindex, finish, ⟨t', ts', htokens₁', htokens₃⟩, hfinish⟩ := of_endSetup h₃
  have hgood : ArrayOptions.AreGood index { finish := .plain index, flags } :=
    ⟨.inl rfl, hindex, hflags, show (0 : UInt32).toNat < 2 ^ 17 by decide⟩
  obtain ⟨hr₄, ho, hb⟩ := of_arrayParts hgood h₄
  obtain ⟨hs, count, hcount⟩ := of_startIndex? hstart
  obtain ⟨hover, hclauses, hconcentric⟩ := ho.flags
  refine ⟨(leads_symbol _ _ _ _ h₁).trans (hr₃.trans hr₄),
    ⟨⟨count, ?_, ?_⟩, ho.isWellFormed, hover, hclauses, hconcentric, ho.qualifier_lt⟩, ?_⟩
  · rw [hs]
    exact hcount
  · rw [hcount] at hb
    exact hb
  · -- The loop takes a token at least, so what is left stands behind both words.
    intro ds hds
    have hsuffix : r₄.tokens <:+ ts' :=
      hr₄.suffix_tail htokens₃ (takes_loop _ (takes_arrayPartStep _) _ _ _ _ h₄)
    have hts : ts = .word finish :: ts' := by
      rw [htokens₁] at htokens₁'
      exact (List.cons.inj htokens₁').2
    rw [htokens, hts]
    exact .skip (.pair (ho.hasSetupWords rfl (by rw [hs]; exact hstart) hfinish)
      (hds.of_suffix hsuffix))

/-! ### Groups -/

/-- Flags that stand before setups: none, or those that were read there. -/
def StandBefore (flags : UInt32) : Prop := flags = 0 ∨ ∃ r rest, arrayFlags r = .ok (flags, rest)

/-- Flags that stand before setups are free. -/
theorem StandBefore.free {flags : UInt32} (h : StandBefore flags) : FreeFlags flags := by
  obtain rfl | ⟨r, rest, h⟩ := h
  · decide
  · exact (of_arrayFlags h).2

/-- A turn of the loop reads a definition, and perhaps the head of another group.  Where
definitions go on there are setups again. -/
theorem of_arrayStep {p : ArrayProgress} {out : ArrayProgress ⊕ List ArrayItem}
    (h : arrayStep p r = .ok (out, rest)) : ∃ d mid, arrayDef p.flags r = .ok (d, mid) ∧
      mid.Reaches rest ∧ (out = .inr (.member d :: p.items).reverse ∨
        ∃ p', out = .inl p' ∧ rest.tokens.head? = some (.word "setup") ∧ StandBefore p'.flags ∧
          (p'.items = .member d :: p.items ∨
            ∃ a, p'.items = .header a :: .member d :: p.items)) := by
  obtain ⟨d, r₁, h₁, h⟩ := bind_eq_ok.1 h
  refine ⟨d, r₁, h₁, ?_⟩
  obtain ⟨t, r₂, h₂, h⟩ := bind_eq_ok.1 h
  obtain ⟨-, rfl⟩ := current?_eq_ok.1 h₂
  cases t with
  | none =>
    obtain ⟨rfl, rfl⟩ := pure_eq_ok.1 h
    exact ⟨.refl _, .inl rfl⟩
  | some t =>
    obtain ⟨word, r₃, h₃, h⟩ := bind_eq_ok.1 h
    obtain ⟨hword, rfl⟩ := symbolHere_eq_ok h₃
    split at h
    · rename_i hsetup
      obtain ⟨rfl, rfl⟩ := pure_eq_ok.1 h
      exact ⟨.refl _, .inr ⟨_, rfl, hsetup ▸ hword, .inl rfl, .inl rfl⟩⟩
    · split at h
      · obtain ⟨a, r₄, h₄, h⟩ := bind_eq_ok.1 h
        obtain ⟨_, r₅, h₅, h⟩ := bind_eq_ok.1 h
        obtain ⟨flags, r₆, h₆, h⟩ := bind_eq_ok.1 h
        obtain ⟨b, r₇, h₇, h⟩ := bind_eq_ok.1 h
        obtain rfl := isAt_eq_ok h₇
        have hr₆ := (of_arrayFlags h₆).1
        cases b with
        | true =>
          obtain ⟨rfl, rfl⟩ := pure_eq_ok.1 h
          exact ⟨(leads_alternateHeader _ _ _ h₄).trans ((leads_advance _ _ _ h₅).trans hr₆),
            .inr ⟨_, rfl, head?_of_isAt h₇, .inr ⟨_, _, h₆⟩, .inr ⟨a, rfl⟩⟩⟩
        | false => cases h
      · obtain ⟨rfl, rfl⟩ := pure_eq_ok.1 h
        exact ⟨.refl _, .inl rfl⟩

/-- The definitions of a row are well formed. -/
def RowIsGood (items : List ArrayItem) : Prop :=
  DefRow items ∧ ∀ d ∈ items.filterMap ArrayGroup.def?, d.IsWellFormed

/-- **The turns of the loop make up a row**, by induction on them. -/
theorem of_arrayItems {p : ArrayProgress} {items : List ArrayItem}
    {ht : ∀ p, (arrayStep p).Turns} (hp : FreeFlags p.flags)
    (h : loop arrayStep ht p r = .ok (items, rest)) : ∃ row, items = p.items.reverse ++ row ∧
      r.Reaches rest ∧ RowIsGood row ∧ Spans r (row.filterMap ArrayGroup.def?) rest := by
  refine loop_induct (motive := fun p r items rest => FreeFlags p.flags → ∃ row,
    items = p.items.reverse ++ row ∧ r.Reaches rest ∧ RowIsGood row ∧
      Spans r (row.filterMap ArrayGroup.def?) rest) ?_ ?_ h hp
  · intro p r items rest h hp
    obtain ⟨d, mid, hd, hr, hout | ⟨_, hout, -⟩⟩ := of_arrayStep h
    · cases hout
      obtain ⟨hrd, hwf, hspans⟩ := of_arrayDef hd hp
      refine ⟨[.member d], by simp, hrd.trans hr, ⟨.last d, ?_⟩, hspans.reaches hr⟩
      exact List.forall_mem_singleton.2 hwf
    · cases hout
  · intro p r p₁ mid' items rest h ih hp
    obtain ⟨d, mid, hd, hr, hout | ⟨p', hout, -, hflags, hitems⟩⟩ := of_arrayStep h
    · cases hout
    · cases hout
      obtain ⟨hrd, hwf, hspans⟩ := of_arrayDef hd hp
      obtain ⟨row, rfl, hr', ⟨hrow, hrowwf⟩, hspans'⟩ := ih hflags.free
      have hall := (hspans.reaches hr).append hspans'
      have hwfall := List.forall_mem_cons.2 ⟨hwf, hrowwf⟩
      obtain hitems | ⟨a, hitems⟩ := hitems
      · exact ⟨.member d :: row, by simp [hitems], hrd.trans (hr.trans hr'),
          ⟨.next d hrow, hwfall⟩, hall⟩
      · exact ⟨.member d :: .header a :: row, by simp [hitems], hrd.trans (hr.trans hr'),
          ⟨.head d a hrow, hwfall⟩, hall⟩

/-- **The groups of array definitions are well formed**, the first has no head, and the
setups of their definitions are named. -/
theorem of_arrayGroups {flags : UInt32} {groups : List ArrayGroup}
    (h : arrayGroups flags r = .ok (groups, rest)) (hflags : FreeFlags flags) :
    r.Reaches rest ∧ ArrayGroup.AreWellFormed groups ∧
      (∃ g more, groups = g :: more ∧ g.alternate = none) ∧
        Spans r (groups.flatMap (·.defs)) rest := by
  obtain ⟨items, r₁, h₁, h⟩ := bind_eq_ok.1 h
  obtain ⟨rfl, rfl⟩ := pure_eq_ok.1 h
  obtain ⟨row, hitems, hr, ⟨hrow, hwf⟩, hspans⟩ := of_arrayItems hflags h₁
  obtain rfl : items = row := hitems
  have hgroups := ArrayGroup.ofItems_of_defRow hrow
  obtain ⟨hfirst, hmore⟩ := ArrayGroup.of_defRow hrow
  rw [← ArrayGroup.flatMap_defs_ofItems] at hwf hspans
  refine ⟨hr, ⟨?_, ?_, ?_, fun g hg => ArrayGroup.isSome_of_mem_tail_ofItems hg⟩,
    ⟨_, _, hgroups, rfl⟩, hspans⟩
  · rw [hgroups]
    exact List.cons_ne_nil _ _
  · rw [hgroups]
    exact List.forall_mem_cons.2 ⟨hfirst, hmore⟩
  · exact fun g hg d hd => hwf d (List.mem_flatMap.2 ⟨g, hg, hd⟩)

end Parser
end CallText
end SquareDance
