import Mathlib.Data.List.Forall2

/-! # Outcomes

A computation in steps succeeds when each of its steps does, and otherwise fails
with the error of the first step that fails.
-/

namespace BitLayout.Outcome

variable {ε δ α β γ : Type}

@[simp] theorem ok_bind (a : α) (f : α → Except ε β) : (Except.ok a >>= f) = f a := rfl

@[simp] theorem error_bind (e : ε) (f : α → Except ε β) :
    (Except.error e >>= f) = .error e := rfl

theorem bind_eq_ok_iff {x : Except ε α} {f : α → Except ε β} {b : β} :
    (x >>= f) = .ok b ↔ ∃ a, x = .ok a ∧ f a = .ok b := by
  cases x <;> simp

theorem bind_eq_error_iff {x : Except ε α} {f : α → Except ε β} {e : ε} :
    (x >>= f) = .error e ↔ x = .error e ∨ ∃ a, x = .ok a ∧ f a = .error e := by
  cases x <;> simp

theorem exists_ok_iff {x : Except ε α} : (∃ a, x = .ok a) ↔ ∀ e, x ≠ .error e := by
  cases x <;> simp

theorem map_eq_ok_iff {x : Except ε α} {f : α → β} {b : β} :
    x.map f = .ok b ↔ ∃ a, x = .ok a ∧ f a = b := by
  cases x <;> simp [Except.map]

theorem map_eq_error_iff {x : Except ε α} {f : α → β} {e : ε} :
    x.map f = .error e ↔ x = .error e := by
  cases x <;> simp [Except.map]

theorem mapError_eq_ok_iff {x : Except ε α} {f : ε → δ} {a : α} :
    x.mapError f = .ok a ↔ x = .ok a := by
  cases x <;> simp [Except.mapError]

theorem mapError_eq_error_iff {x : Except ε α} {f : ε → δ} {d : δ} :
    x.mapError f = .error d ↔ ∃ e, x = .error e ∧ f e = d := by
  cases x <;> simp [Except.mapError]

theorem mapError_bind (x : Except ε α) (f : α → Except ε β) (g : ε → δ) :
    (x >>= f).mapError g = x.mapError g >>= fun a => (f a).mapError g := by
  cases x <;> rfl

theorem exists_forall₂_iff {R : α → β → Prop} {as : List α} :
    (∃ bs, List.Forall₂ R as bs) ↔ ∀ a ∈ as, ∃ b, R a b := by
  induction as with
  | nil => simp
  | cons a as ih =>
    rw [List.forall_mem_cons, ← ih]
    constructor
    · rintro ⟨_, h⟩
      cases h with
      | cons hb hr => exact ⟨⟨_, hb⟩, _, hr⟩
    · rintro ⟨⟨b, hb⟩, bs, hr⟩
      exact ⟨b :: bs, .cons hb hr⟩

theorem map_eq_of_forall₂ {R : α → β → Prop} {f : β → γ} {g : α → γ} {as : List α} {bs : List β}
    (view : ∀ a b, R a b → f b = g a) (h : List.Forall₂ R as bs) : bs.map f = as.map g := by
  induction h with
  | nil => rfl
  | cons hb _ ih => rw [List.map_cons, List.map_cons, ih, view _ _ hb]

theorem mapM_eq_ok_iff {f : α → Except ε β} {as : List α} {bs : List β} :
    as.mapM f = .ok bs ↔ List.Forall₂ (fun a b => f a = .ok b) as bs := by
  induction as generalizing bs with
  | nil =>
    rw [List.forall₂_nil_left_iff]
    exact ⟨fun h => by cases h; rfl, fun h => h ▸ rfl⟩
  | cons a as ih =>
    rw [List.mapM_cons, bind_eq_ok_iff]
    constructor
    · rintro ⟨b, hb, h⟩
      obtain ⟨rest, hr, h⟩ := bind_eq_ok_iff.mp h
      cases h
      exact .cons hb (ih.mp hr)
    · intro h
      cases h with
      | cons hb hr => exact ⟨_, hb, bind_eq_ok_iff.mpr ⟨_, ih.mpr hr, rfl⟩⟩

theorem mapM_eq_some_iff {f : α → Option β} {R : α → β → Prop}
    (h : ∀ {a b}, f a = some b ↔ R a b) {as : List α} {bs : List β} :
    as.mapM f = some bs ↔ List.Forall₂ R as bs := by
  induction as generalizing bs with
  | nil => simp [eq_comm]
  | cons a as ih =>
    simp only [List.mapM_cons, Option.bind_eq_bind, Option.bind_eq_some_iff, h, ih]
    constructor
    · rintro ⟨b, hb, bs, hbs, he⟩
      cases he
      exact .cons hb hbs
    · intro hf
      cases hf with
      | cons hb hbs => exact ⟨_, hb, _, hbs, rfl⟩

theorem forM_eq_ok_iff {f : α → Except ε Unit} {as : List α} :
    as.forM f = .ok () ↔ ∀ a ∈ as, f a = .ok () := by
  induction as with
  | nil => simp [List.forM_eq_forM, pure, Except.pure]
  | cons a as ih =>
    rw [List.forM_eq_forM, List.forM_cons, ← List.forM_eq_forM, bind_eq_ok_iff,
      List.forall_mem_cons, ← ih]
    constructor
    · rintro ⟨⟨⟩, ha, hr⟩
      exact ⟨ha, hr⟩
    · rintro ⟨ha, hr⟩
      exact ⟨(), ha, hr⟩

/-- What every step keeps, a run that succeeds has kept. -/
theorem foldlM_induction {motive : β → Prop} {f : β → α → Except ε β} {as : List α} {b c : β}
    (step : ∀ b a c, motive b → f b a = .ok c → motive c) (hb : motive b)
    (h : as.foldlM f b = .ok c) : motive c := by
  induction as generalizing b with
  | nil =>
    cases h
    exact hb
  | cons a as ih =>
    rw [List.foldlM_cons] at h
    obtain ⟨d, hd, h⟩ := bind_eq_ok_iff.mp h
    exact ih (step b a d hb hd) h

end BitLayout.Outcome
