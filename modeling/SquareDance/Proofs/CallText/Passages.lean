/-
# Passages of a text

What a call book is made of is read from passages of its text, which stand there in the order of
the things that are read and each at a place of its own: `StandIn` says so of any kind of thing and
of passage.

Between the bodies of calls stand only tokens that belong to no body.  So what each body has
passages for the whole book has: `standIn_of_parse`.
-/

import SquareDance.Proofs.CallText.Sound

namespace SquareDance
namespace CallText

variable {ι : Type} {P : ι → List Token → Prop}

/-- Passages for some things stand in a text, in order and each at a place of its own. -/
inductive StandIn (P : ι → List Token → Prop) : List Token → List ι → Prop where
  | nil {ts} : StandIn P ts []
  | skip {t ts xs} (h : StandIn P ts xs) : StandIn P (t :: ts) xs
  | passage {x passage ts xs} (hx : P x passage) (h : StandIn P ts xs) :
    StandIn P (passage ++ ts) (x :: xs)

namespace StandIn

/-- Tokens before the passages may be skipped. -/
theorem of_suffix {ts ts' : List Token} {xs : List ι} (h : StandIn P ts xs) (hs : ts <:+ ts') :
    StandIn P ts' xs := by
  obtain ⟨before, rfl⟩ := hs
  induction before with
  | nil => exact h
  | cons t before ih => exact .skip ih

end StandIn

namespace Parser

open Consumer

variable {r rest : Reading}

/-- Between two readings stand passages for some things. -/
def Between (P : ι → List Token → Prop) (r : Reading) (xs : List ι) (rest : Reading) : Prop :=
  ∀ ys, StandIn P rest.tokens ys → StandIn P r.tokens (xs ++ ys)

namespace Between

/-- Where nothing is read no passage is asked for. -/
theorem of_reaches (h : r.Reaches rest) : Between P r [] rest := fun _ hs => hs.of_suffix h.tokens

/-- One reading after another has the passages of both. -/
theorem append {mid : Reading} {xs ys : List ι} (h : Between P r xs mid)
    (h' : Between P mid ys rest) : Between P r (xs ++ ys) rest := by
  intro more hs
  rw [List.append_assoc]
  exact h _ (h' _ hs)

/-- Behind the last passage any tokens may be taken. -/
theorem reaches {mid : Reading} {xs : List ι} (h : Between P r xs mid) (h' : mid.Reaches rest) :
    Between P r xs rest := fun _ hs => h _ (hs.of_suffix h'.tokens)

end Between

/-! ### Calls -/

/-- Each body has passages for what is found in it. -/
def BodiesHave (P : ι → List Token → Prop) (found : CallBody → List ι) : Prop :=
  ∀ isTagged r b rest, body isTagged r = .ok (b, rest) → Between P r (found b) rest

variable {found : CallBody → List ι}

/-- Continuations have the passages of their bodies, by induction on the turns of their loop. -/
theorem between_continuations (hbodies : BodiesHave P found) {isTagged : Bool} {p : BodyProgress}
    {bs : List CallBody} {ht : ∀ p, (continuationStep isTagged p).Turns}
    (h : loop (continuationStep isTagged) ht p r = .ok (bs, rest)) :
    ∃ more, bs = p.continuations.reverse ++ more ∧ Between P r (more.flatMap found) rest := by
  refine loop_induct (motive := fun p r bs rest => ∃ more,
    bs = p.continuations.reverse ++ more ∧ Between P r (more.flatMap found) rest) ?_ ?_ h
  · intro p r bs rest h
    obtain ⟨hout, rfl⟩ | ⟨b, hout, -, -⟩ := continuationStep_eq_ok h
    · cases hout
      exact ⟨[], by simp, .of_reaches (.refl _)⟩
    · cases hout
  · intro p r p' mid bs rest h ih
    obtain ⟨hout, -⟩ | ⟨b, hout, -, hb⟩ := continuationStep_eq_ok h
    · cases hout
    · cases hout
      obtain ⟨more, rfl, hmore⟩ := ih
      exact ⟨b :: more, by simp, (hbodies _ _ _ _ hb).append hmore⟩

/-- A call has the passages of its bodies. -/
theorem between_call (hbodies : BodiesHave P found) {c : Call} (h : call r = .ok (c, rest)) :
    Between P r (c.bodies.flatMap found) rest := by
  obtain ⟨name, r₁, h₁, h⟩ := bind_eq_ok.1 h
  obtain ⟨_, r₂, h₂, h⟩ := bind_eq_ok.1 h
  obtain ⟨word, r₃, h₃, h⟩ := bind_eq_ok.1 h
  obtain ⟨level, r₄, h₄, h⟩ := bind_eq_ok.1 h
  obtain ⟨_, r₅, h₅, h⟩ := bind_eq_ok.1 h
  obtain ⟨_, r₆, h₆, h⟩ := bind_eq_ok.1 h
  obtain ⟨tag, r₇, h₇, h⟩ := bind_eq_ok.1 h
  obtain ⟨b, r₈, h₈, h⟩ := bind_eq_ok.1 h
  obtain ⟨bs, r₉, h₉, h⟩ := bind_eq_ok.1 h
  obtain ⟨rfl, rfl⟩ := pure_eq_ok.1 h
  have hr₄ := (leads_text _ _ _ _ h₁).trans ((leads_setCall _ _ _ _ h₂).trans
    ((leads_symbol _ _ _ _ h₃).trans (leads_orFail _ _ _ _ _ h₄)))
  have hr₇ := (leads_advance _ _ _ h₅).trans ((leads_indicator _ _ _ h₆).trans
    (leads_tag? _ _ _ h₇))
  obtain ⟨more, hbs, hmore⟩ := between_continuations hbodies h₉
  obtain rfl : bs = more := hbs
  exact (Between.of_reaches (hr₄.trans hr₇)).append ((hbodies _ _ _ _ h₈).append hmore)

/-- Calls have the passages of their bodies, by induction on the turns of their loop. -/
theorem between_calls (hbodies : BodiesHave P found) {before calls : List Call}
    (h : loop callStep turns_callStep before r = .ok (calls, rest)) :
    ∃ more, calls = before.reverse ++ more ∧
      Between P r (more.flatMap fun c => c.bodies.flatMap found) rest := by
  refine loop_induct (motive := fun before r calls rest => ∃ more,
    calls = before.reverse ++ more ∧
      Between P r (more.flatMap fun c => c.bodies.flatMap found) rest) ?_ ?_ h
  · intro before r calls rest h
    obtain ⟨hout, rfl⟩ | ⟨c, hout, -⟩ := callStep_eq_ok h
    · cases hout
      exact ⟨[], by simp, .of_reaches (.refl _)⟩
    · cases hout
  · intro before r before' mid calls rest h ih
    obtain ⟨hout, -⟩ | ⟨c, hout, hc⟩ := callStep_eq_ok h
    · cases hout
    · cases hout
      obtain ⟨more, rfl, hmore⟩ := ih
      exact ⟨c :: more, by simp, (between_call hbodies hc).append hmore⟩

end Parser

/-- **A book has the passages of its bodies.** -/
theorem standIn_of_parse {found : CallBody → List ι} (hbodies : Parser.BodiesHave P found)
    {tokens : List Token} {failure : Option LexError} {b : CallBook} {tags : TagTable Nat}
    (h : parse tokens failure = .ok (b, tags)) :
    StandIn P tokens (b.calls.flatMap fun c => c.bodies.flatMap found) := by
  obtain ⟨rest, hbook⟩ := book_of_parse h
  obtain ⟨version, r₁, h₁, h⟩ := Consumer.bind_eq_ok.1 hbook
  obtain ⟨_, r₂, h₂, h⟩ := Consumer.bind_eq_ok.1 h
  obtain ⟨calls, r₃, h₃, h⟩ := Consumer.bind_eq_ok.1 h
  obtain ⟨_, r₄, h₄, h⟩ := Consumer.bind_eq_ok.1 h
  obtain ⟨rfl, rfl⟩ := Consumer.left_eq_ok.1 h₄
  obtain ⟨hp, rfl⟩ := Consumer.pure_eq_ok.1 h
  cases hp
  have hr₂ := (Parser.leads_version _ _ _ h₁).trans (Parser.leads_advanceOrEnd _ _ _ h₂)
  obtain ⟨more, hcalls, hmore⟩ := Parser.between_calls hbodies h₃
  obtain rfl : calls = more := hcalls
  have hall := (Parser.Between.of_reaches hr₂).append hmore [] .nil
  rwa [List.append_nil] at hall

/-- There is one thing and no other, and it has a property. -/
def isOnly {α : Type} (p : α → Bool) : List α → Bool
  | [x] => p x
  | _ => false

/-- The one thing that there is has the property. -/
theorem isOnly_eq_true {α : Type} {p : α → Bool} {xs : List α} (h : isOnly p xs = true) :
    ∃ x, xs = [x] ∧ p x = true := by
  match xs, h with
  | [x], h => exact ⟨x, rfl, h⟩

/-- What is known of the one thing of a kind in a book by reading its text. -/
theorem exists_of_parse {α : Type} (tokens : List Token) (found : CallBook → List α)
    {p : α → Bool}
    (h : ((parse tokens none).toOption.map fun m => isOnly p (found m.1)) = some true) :
    ∃ b tags x, parse tokens none = .ok (b, tags) ∧ found b = [x] ∧ p x = true := by
  cases hparse : parse tokens none with
  | error e =>
    rw [hparse] at h
    cases h
  | ok m =>
    rw [hparse] at h
    obtain ⟨x, hx, hp⟩ := isOnly_eq_true (Option.some.inj h)
    exact ⟨m.1, m.2, x, rfl, hx, hp⟩

end CallText
end SquareDance
