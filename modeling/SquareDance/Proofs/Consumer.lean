/-
# Runs of consumers

What a consumer gives, taken apart and put together.  The lemmas `*_eq_ok` take a
successful run of each way to build a consumer apart into the runs of its pieces.
`bind_of_ok` puts one together, a step at a time.

Repetition is a chain: one thing taken after another, each where the one before it
stopped.  `many_eq_ok` and `whileNext_eq_ok` say that a repetition gives just what a
chain takes, so that facts about repetitions are inductions on chains.
-/

import SquareDance.Consumer

namespace SquareDance
namespace Consumer

variable {ε σ α β γ : Type}

/-! ### Pieces -/

/-- A consumer followed by another goes on with what the first gives. -/
theorem bind_of_ok {r : Consumer ε σ α} {s mid : σ} {x : α} (h : r s = .ok (x, mid))
    (f : α → Consumer ε σ β) : (r >>= f) s = f x mid := by
  show (r s >>= fun p => f p.1 p.2) = _
  rw [h]
  rfl

/-- A consumer followed by another fails as the first does. -/
theorem bind_of_error {r : Consumer ε σ α} {s : σ} {e : ε} (h : r s = .error e)
    (f : α → Consumer ε σ β) : (r >>= f) s = .error e := by
  show (r s >>= fun p => f p.1 p.2) = _
  rw [h]
  rfl

/-- To consume nothing is to give what was given. -/
theorem pure_eq_ok {x y : α} {s rest : σ} :
    (pure x : Consumer ε σ α) s = .ok (y, rest) ↔ x = y ∧ s = rest := by
  show Except.ok (x, s) = _ ↔ _
  rw [Except.ok.injEq, Prod.mk.injEq]

/-- What always fails gives nothing. -/
theorem throw_ne_ok {e : ε} {s : σ} {p : α × σ} :
    (throw e : Consumer ε σ α) s ≠ .ok p := by
  intro h
  cases h

/-- What is left is given, and stays. -/
theorem left_eq_ok {s x rest : σ} :
    (left : Consumer ε σ σ) s = .ok (x, rest) ↔ s = x ∧ s = rest := by
  rw [left, Except.ok.injEq, Prod.mk.injEq]

/-- What is left is at hand. -/
theorem bind_left (f : σ → Consumer ε σ β) (s : σ) : (left >>= f) s = f s s :=
  bind_of_ok (left_eq_ok.2 ⟨rfl, rfl⟩) f

/-- What is required is given if it is there, and nothing is consumed. -/
theorem require_eq_ok {x : Option α} {e : ε} {a : α} {s rest : σ} :
    (require x e : Consumer ε σ α) s = .ok (a, rest) ↔ x = some a ∧ s = rest := by
  cases x with
  | none =>
    constructor
    · exact fun h => absurd h throw_ne_ok
    · rintro ⟨h, -⟩
      cases h
  | some b => rw [require, pure_eq_ok, Option.some.injEq]

/-- What is checked is so, and nothing is consumed. -/
theorem check_eq_ok {b : Bool} {e : ε} {u : Unit} {s rest : σ} :
    (check b e : Consumer ε σ Unit) s = .ok (u, rest) ↔ b = true ∧ s = rest := by
  cases b with
  | false =>
    constructor
    · exact fun h => absurd h throw_ne_ok
    · rintro ⟨h, -⟩
      cases h
  | true =>
    show (pure () : Consumer ε σ Unit) s = _ ↔ _
    rw [pure_eq_ok]
    simp

/-- A check of a value against itself is passed. -/
theorem bind_check_self [BEq γ] [ReflBEq γ] (x : γ) (e : ε) (f : Unit → Consumer ε σ β) (s : σ) :
    (check (x == x) e >>= f) s = f () s :=
  bind_of_ok (check_eq_ok.2 ⟨beq_self_eq_true x, rfl⟩) f

/-! ### Chains -/

/-- Things taken one after another, each where the one before it stopped, and each
from something that begins with one. -/
inductive Chain (next : σ → Bool) (r : Consumer ε σ α) : σ → List α → σ → Prop where
  | nil {s} : Chain next r s [] s
  | cons {s x mid xs rest} (hn : next s = true) (hx : r s = .ok (x, mid))
      (hxs : Chain next r mid xs rest) : Chain next r s (x :: xs) rest

namespace Chain

variable {next : σ → Bool} {r : Consumer ε σ α}

/-- One thing that is read is a chain. -/
theorem single {s rest : σ} {x : α} (hn : next s = true) (hx : r s = .ok (x, rest)) :
    Chain next r s [x] rest :=
  .cons hn hx .nil

/-- One chain may follow another. -/
theorem append {s mid rest : σ} {xs ys : List α} (hx : Chain next r s xs mid)
    (hy : Chain next r mid ys rest) : Chain next r s (xs ++ ys) rest := by
  induction hx with
  | nil => exact hy
  | cons hn hx _ ih => exact .cons hn hx (ih hy)

end Chain

/-- **A number of things is a chain of that length.** -/
theorem many_eq_ok {r : Consumer ε σ α} {n : Nat} {s rest : σ} {xs : List α} :
    many r n s = .ok (xs, rest) ↔ xs.length = n ∧ Chain (fun _ => true) r s xs rest := by
  induction n generalizing s xs with
  | zero =>
    rw [many, pure_eq_ok, List.length_eq_zero_iff]
    constructor
    · rintro ⟨rfl, rfl⟩
      exact ⟨rfl, .nil⟩
    · rintro ⟨rfl, h⟩
      cases h
      exact ⟨rfl, rfl⟩
  | succ n ih =>
    rw [many, bind_eq_ok]
    constructor
    · rintro ⟨x, mid, hx, h⟩
      obtain ⟨ys, mid', hys, h⟩ := bind_eq_ok.1 h
      obtain ⟨rfl, rfl⟩ := pure_eq_ok.1 h
      obtain ⟨hlen, hys⟩ := ih.1 hys
      exact ⟨congrArg (· + 1) hlen, .cons rfl hx hys⟩
    · rintro ⟨hlen, h⟩
      cases h with
      | nil => cases hlen
      | @cons _ x mid ys _ _ hx hys =>
        refine ⟨x, mid, hx, bind_eq_ok.2 ⟨ys, rest, ih.2 ⟨?_, hys⟩, rfl⟩⟩
        exact Nat.succ.inj hlen

variable [Sized σ]

/-- A turn that goes on is followed by the others. -/
theorem loop_of_inl {step : β → Consumer ε σ (β ⊕ γ)} {h : ∀ b, (step b).Turns} {b b' : β}
    {s mid : σ} (hs : step b s = .ok (.inl b', mid)) : loop step h b s = loop step h b' mid := by
  rw [loop.eq_def]
  split <;> simp_all

/-- A turn that stops is the last one. -/
theorem loop_of_inr {step : β → Consumer ε σ (β ⊕ γ)} {h : ∀ b, (step b).Turns} {b : β} {c : γ}
    {s mid : σ} (hs : step b s = .ok (.inr c, mid)) : loop step h b s = .ok (c, mid) := by
  rw [loop.eq_def]
  split <;> simp_all

/-- A turn that fails is the last one. -/
theorem loop_of_error {step : β → Consumer ε σ (β ⊕ γ)} {h : ∀ b, (step b).Turns} {b : β} {s : σ}
    {e : ε} (hs : step b s = .error e) : loop step h b s = .error e := by
  rw [loop.eq_def]
  split <;> simp_all

section WhileNext

variable {next : σ → Bool} {r : Consumer ε σ α}

omit [Sized σ] in
/-- Where another thing comes next it is read and put before the others. -/
theorem whileStep_of_next {s mid : σ} {x : α} (hn : next s = true) (hx : r s = .ok (x, mid))
    (taken : List α) : whileStep next r taken s = .ok (.inl (x :: taken), mid) := by
  rw [whileStep, bind_left, if_pos hn, bind_of_ok hx]
  rfl

omit [Sized σ] in
/-- Where nothing comes next the things read are given in their order. -/
theorem whileStep_of_not_next {s : σ} (hn : next s = false) (taken : List α) :
    whileStep next r taken s = .ok (.inr taken.reverse, s) := by
  rw [whileStep, bind_left, if_neg (by simp [hn])]
  rfl

omit [Sized σ] in
/-- A turn of the repetition takes one more thing, or finds none and stops. -/
theorem whileStep_eq_ok {taken : List α} {s mid : σ} {out : List α ⊕ List α}
    (h : whileStep next r taken s = .ok (out, mid)) :
    (∃ x, next s = true ∧ r s = .ok (x, mid) ∧ out = .inl (x :: taken)) ∨
      next s = false ∧ s = mid ∧ out = .inr taken.reverse := by
  cases hn : next s with
  | true =>
    obtain ⟨_, _, hl, h⟩ := bind_eq_ok.1 h
    obtain ⟨rfl, rfl⟩ := left_eq_ok.1 hl
    rw [if_pos hn] at h
    obtain ⟨x, _, hx, h⟩ := bind_eq_ok.1 h
    obtain ⟨rfl, rfl⟩ := pure_eq_ok.1 h
    exact .inl ⟨x, rfl, hx, rfl⟩
  | false =>
    rw [whileStep_of_not_next hn] at h
    cases h
    exact .inr ⟨rfl, rfl, rfl⟩

/-- **Repetition takes a chain, as long as it can.** -/
theorem whileNext_eq_ok {h : r.Takes} {s rest : σ} {xs : List α} :
    whileNext next r h s = .ok (xs, rest) ↔ Chain next r s xs rest ∧ next rest = false := by
  constructor
  · intro hl
    have key : ∃ ys, xs = [].reverse ++ ys ∧ Chain next r s ys rest ∧ next rest = false := by
      refine loop_induct (motive := fun taken s xs rest => ∃ ys, xs = taken.reverse ++ ys ∧
        Chain next r s ys rest ∧ next rest = false) ?_ ?_ hl
      · intro taken s xs rest hs
        obtain ⟨x, -, -, ho⟩ | ⟨hn, rfl, ho⟩ := whileStep_eq_ok hs
        · cases ho
        · cases ho
          exact ⟨[], by simp, .nil, hn⟩
      · intro taken s taken' mid xs rest hs ih
        obtain ⟨x, hn, hx, ho⟩ | ⟨-, -, ho⟩ := whileStep_eq_ok hs
        · cases ho
          obtain ⟨ys, rfl, hys, hr⟩ := ih
          exact ⟨x :: ys, by simp, .cons hn hx hys, hr⟩
        · cases ho
    obtain ⟨ys, rfl, hys, hr⟩ := key
    exact ⟨hys, hr⟩
  · rintro ⟨hc, hn⟩
    have key : ∀ taken, loop (whileStep next r) (turns_whileStep next h) taken s
        = .ok (taken.reverse ++ xs, rest) := by
      induction hc with
      | nil =>
        intro taken
        rw [loop_of_inr (whileStep_of_not_next hn taken), List.append_nil]
      | @cons s x mid xs rest hns hx _ ih =>
        intro taken
        rw [loop_of_inl (whileStep_of_next hns hx taken), ih hn, List.reverse_cons,
          List.append_assoc]
        rfl
    exact key []

end WhileNext

end Consumer
end SquareDance
