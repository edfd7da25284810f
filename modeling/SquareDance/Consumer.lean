/-
# Consumers

A consumer works through something that gets smaller: the bytes of a file, the
tokens of a text.  It takes what it needs from the front and leaves the rest, or
it fails.

Repetition ends because each turn takes something.  `Consumer.Turns` says so of the
step of a loop, and `Consumer.loop` asks for it; `Consumer.Keeps` and
`Consumer.Takes` say of a consumer that it adds nothing and that it takes something,
and are proved piece by piece.
-/

namespace SquareDance

/-- Something that is used up; its size tells how much of it is left. -/
class Sized (σ : Type) where
  size : σ → Nat

instance {α : Type} : Sized (List α) := ⟨List.length⟩

/-- A consumer of `σ` that fails with an `ε`. -/
abbrev Consumer (ε σ α : Type) := StateT σ (Except ε) α

namespace Consumer

variable {ε σ α β γ : Type} [Sized σ]

/-- A consumer that leaves no more than there was. -/
def Keeps (r : Consumer ε σ α) : Prop :=
  ∀ s x rest, r s = .ok (x, rest) → Sized.size rest ≤ Sized.size s

/-- A consumer that takes something. -/
def Takes (r : Consumer ε σ α) : Prop :=
  ∀ s x rest, r s = .ok (x, rest) → Sized.size rest < Sized.size s

/-- The step of a loop, which takes something if the loop is to go on. -/
def Turns (r : Consumer ε σ (β ⊕ γ)) : Prop :=
  ∀ s b rest, r s = .ok (.inl b, rest) → Sized.size rest < Sized.size s

/-- Who takes something leaves no more than there was. -/
theorem Takes.keeps {r : Consumer ε σ α} (h : r.Takes) : r.Keeps :=
  fun s x rest hr => Nat.le_of_lt (h s x rest hr)

/-- A step that takes something in any case does so if the loop goes on. -/
theorem Takes.turns {r : Consumer ε σ (β ⊕ γ)} (h : r.Takes) : r.Turns :=
  fun s b rest hr => h s (.inl b) rest hr

/-- To give a value takes nothing. -/
theorem Keeps.pure (x : α) : Keeps (Pure.pure x : Consumer ε σ α) := by
  intro s y rest h
  cases h
  exact Nat.le_refl _

/-- To fail leaves nothing to go on with. -/
theorem Takes.throw (e : ε) : Takes (throwThe ε e : Consumer ε σ α) := by
  intro s y rest h
  cases h

/-- A step that ends a loop need not take anything. -/
theorem Turns.done (c : γ) : Turns (Pure.pure (.inr c) : Consumer ε σ (β ⊕ γ)) := by
  intro s b rest h
  cases h

omit [Sized σ] in
/-- What a consumer followed by another leaves is what the second leaves of what
the first leaves. -/
theorem bind_eq_ok {r : Consumer ε σ α} {f : α → Consumer ε σ β} {s rest : σ} {y : β} :
    (r >>= f) s = .ok (y, rest) ↔ ∃ x mid, r s = .ok (x, mid) ∧ f x mid = .ok (y, rest) := by
  show (r s >>= fun p => f p.1 p.2) = _ ↔ _
  cases h : r s with
  | error e => simp [bind, Except.bind]
  | ok p =>
    constructor
    · exact fun h' => ⟨p.1, p.2, rfl, h'⟩
    · rintro ⟨x, mid, hp, hf⟩
      cases hp
      exact hf

/-- One after another, two consumers leave no more than there was. -/
theorem Keeps.bind {r : Consumer ε σ α} {f : α → Consumer ε σ β} (hr : r.Keeps)
    (hf : ∀ x, (f x).Keeps) : (r >>= f).Keeps := by
  intro s y rest h
  obtain ⟨x, mid, h₁, h₂⟩ := bind_eq_ok.1 h
  exact Nat.le_trans (hf x mid y rest h₂) (hr s x mid h₁)

/-- If the first takes something, both together do. -/
theorem Takes.bind {r : Consumer ε σ α} {f : α → Consumer ε σ β} (hr : r.Takes)
    (hf : ∀ x, (f x).Keeps) : (r >>= f).Takes := by
  intro s y rest h
  obtain ⟨x, mid, h₁, h₂⟩ := bind_eq_ok.1 h
  exact Nat.lt_of_le_of_lt (hf x mid y rest h₂) (hr s x mid h₁)

/-- If the second takes something, both together do. -/
theorem Keeps.bind_takes {r : Consumer ε σ α} {f : α → Consumer ε σ β} (hr : r.Keeps)
    (hf : ∀ x, (f x).Takes) : (r >>= f).Takes := by
  intro s y rest h
  obtain ⟨x, mid, h₁, h₂⟩ := bind_eq_ok.1 h
  exact Nat.lt_of_lt_of_le (hf x mid y rest h₂) (hr s x mid h₁)

/-- A step may begin with what takes nothing. -/
theorem Keeps.bind_turns {r : Consumer ε σ α} {f : α → Consumer ε σ (β ⊕ γ)} (hr : r.Keeps)
    (hf : ∀ x, (f x).Turns) : (r >>= f).Turns := by
  intro s y rest h
  obtain ⟨x, mid, h₁, h₂⟩ := bind_eq_ok.1 h
  exact Nat.lt_of_lt_of_le (hf x mid y rest h₂) (hr s x mid h₁)

/-- Repeat a step for as long as it asks to go on. -/
def loop (step : β → Consumer ε σ (β ⊕ γ)) (h : ∀ b, (step b).Turns) (b : β) (s : σ) :
    Except ε (γ × σ) :=
  match _hs : step b s with
  | .error e => .error e
  | .ok (.inl b', rest) => loop step h b' rest
  | .ok (.inr c, rest) => .ok (c, rest)
termination_by Sized.size s
decreasing_by exact h b s b' rest ‹_›

/-- **What holds of the steps holds of the loop.**  A property of a turn's input and
output that each last turn has, and that carries over from the turns after it,
is a property of the loop. -/
theorem loop_induct {step : β → Consumer ε σ (β ⊕ γ)} {h : ∀ b, (step b).Turns}
    {motive : β → σ → γ → σ → Prop}
    (last : ∀ b s c rest, step b s = .ok (.inr c, rest) → motive b s c rest)
    (turn : ∀ b s b' mid c rest, step b s = .ok (.inl b', mid) → motive b' mid c rest →
      motive b s c rest)
    {b : β} {s : σ} {c : γ} {rest : σ} (hl : loop step h b s = .ok (c, rest)) :
    motive b s c rest := by
  fun_induction loop step h b s with
  | case1 => cases hl
  | case2 b s b' mid hs ih => exact turn b s b' mid c rest hs (ih hl)
  | case3 b s c' rest' hs =>
    cases hl
    exact last b s c rest hs

/-- A loop leaves no more than there was if its steps do not. -/
theorem keeps_loop {step : β → Consumer ε σ (β ⊕ γ)} (h : ∀ b, (step b).Turns)
    (hk : ∀ b, (step b).Keeps) (b : β) : Keeps (loop step h b : Consumer ε σ γ) := by
  intro s c rest hl
  refine loop_induct (motive := fun _ s _ rest => Sized.size rest ≤ Sized.size s) ?_ ?_ hl
  · exact fun b s c rest hs => hk b s _ rest hs
  · exact fun b s b' mid c rest hs ih => Nat.le_trans ih (hk b s _ mid hs)

/-- A loop takes something if every step does. -/
theorem takes_loop {step : β → Consumer ε σ (β ⊕ γ)} (h : ∀ b, (step b).Turns)
    (ht : ∀ b, (step b).Takes) (b : β) : Takes (loop step h b : Consumer ε σ γ) := by
  intro s c rest hl
  refine loop_induct (motive := fun _ s _ rest => Sized.size rest < Sized.size s) ?_ ?_ hl
  · exact fun b s c rest hs => ht b s _ rest hs
  · exact fun b s b' mid c rest hs ih => Nat.lt_trans ih (ht b s _ mid hs)

/-- A value that may be missing, which is a failure. -/
def require (x : Option α) (e : ε) : Consumer ε σ α :=
  match x with
  | some a => pure a
  | none => throw e

/-- To require a value takes nothing. -/
theorem keeps_require (x : Option α) (e : ε) : (require x e : Consumer ε σ α).Keeps := by
  cases x with
  | none => exact (Takes.throw e).keeps
  | some a => exact Keeps.pure a

/-- Go on only if a condition holds. -/
def check (b : Bool) (e : ε) : Consumer ε σ Unit := if b then pure () else throw e

/-- To check a condition takes nothing. -/
theorem keeps_check (b : Bool) (e : ε) : (check b e : Consumer ε σ Unit).Keeps := by
  cases b with
  | false => exact (Takes.throw e).keeps
  | true => exact Keeps.pure ()

/-- What is left. -/
def left : Consumer ε σ σ := fun s => .ok (s, s)

/-- To look at what is left takes nothing. -/
theorem keeps_left : (left : Consumer ε σ σ).Keeps := by
  intro s x rest h
  cases h
  exact Nat.le_refl _

/-- Take a number of things, one after another. -/
def many (r : Consumer ε σ α) : Nat → Consumer ε σ (List α)
  | 0 => pure []
  | n + 1 => do
    let x ← r
    let xs ← many r n
    return x :: xs

/-- Many things leave no more than there was if each of them does not. -/
theorem keeps_many {r : Consumer ε σ α} (h : r.Keeps) : ∀ n, (many r n).Keeps
  | 0 => Keeps.pure []
  | n + 1 => h.bind fun _ => (keeps_many h n).bind fun _ => Keeps.pure _

/-- Take one more thing if one comes next, after those taken so far, the newest
first. -/
def whileStep (next : σ → Bool) (r : Consumer ε σ α) (taken : List α) :
    Consumer ε σ (List α ⊕ List α) := do
  if next (← left) then
    let x ← r
    return .inl (x :: taken)
  else return .inr taken.reverse

/-- To go on, one thing is taken. -/
theorem turns_whileStep (next : σ → Bool) {r : Consumer ε σ α} (h : r.Takes) (taken : List α) :
    (whileStep next r taken).Turns :=
  keeps_left.bind_turns fun s => by
    split
    · exact (h.bind fun _ => .pure _).turns
    · exact .done _

/-- To end, nothing is taken. -/
theorem keeps_whileStep (next : σ → Bool) {r : Consumer ε σ α} (h : r.Takes) (taken : List α) :
    (whileStep next r taken).Keeps :=
  keeps_left.bind fun s => by
    split
    · exact h.keeps.bind fun _ => .pure _
    · exact .pure _

/-- Take things for as long as what is left begins with one. -/
def whileNext (next : σ → Bool) (r : Consumer ε σ α) (h : r.Takes) : Consumer ε σ (List α) :=
  loop (whileStep next r) (turns_whileStep next h) []

/-- Things are taken from what is left, or none. -/
theorem keeps_whileNext (next : σ → Bool) {r : Consumer ε σ α} (h : r.Takes) :
    (whileNext next r h).Keeps :=
  keeps_loop _ (keeps_whileStep next h) []

end Consumer
end SquareDance
