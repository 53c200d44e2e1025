import Mathlib.Data.List.Forall2
import BitLayout.Layout
import BitLayout.Proofs.Outcome

/-! # Offsets

Reading a row of tokens from right to left stacks their pieces: each stands above
the width of all that follow, counted up to the limit of offsets. The reading
fails with the error of the rightmost token that spells nothing.
-/

namespace BitLayout.Layout

/-- The pieces on top of each other, the last one at the bottom. -/
def stack : List Piece → Layout
  | [] => []
  | p :: rest => ⟨min (stack rest).width offsetLimit, p⟩ :: stack rest

/-- The tokens and the pieces that they spell, one for one. -/
def Spelled (tokens : List String) (pieces : List Piece) : Prop :=
  List.Forall₂ (fun t p => Piece.ofToken t = .ok p) tokens pieces

/-- The error of the rightmost token that spells nothing. -/
def RightmostFault (tokens : List String) (e : EncodingError) : Prop :=
  ∃ before t after, tokens = before ++ t :: after ∧ Piece.ofToken t = .error e ∧
    ∀ u ∈ after, ∃ p, Piece.ofToken u = .ok p

variable {token : String} {tokens : List String} {pieces : List Piece} {e : EncodingError}

theorem ofToken_eq_ok_iff {shift : Nat} {s : Slice} :
    Slice.ofToken token shift = .ok s ↔ Piece.ofToken token = .ok s.piece ∧ s.shift = shift := by
  obtain ⟨n, p⟩ := s
  rw [Slice.ofToken, Outcome.map_eq_ok_iff]
  constructor
  · rintro ⟨q, hq, h⟩
    cases h
    exact ⟨hq, rfl⟩
  · rintro ⟨hp, rfl⟩
    exact ⟨p, hp, rfl⟩

theorem ofToken_eq_error_iff {shift : Nat} :
    Slice.ofToken token shift = .error e ↔ Piece.ofToken token = .error e :=
  Outcome.map_eq_error_iff

theorem spelled_iff_forall_exists :
    (∃ pieces, Spelled tokens pieces) ↔ ∀ t ∈ tokens, ∃ p, Piece.ofToken t = .ok p :=
  Outcome.exists_forall₂_iff

theorem min_add_min (a b limit : Nat) : min (min a limit + b) limit = min (b + a) limit := by
  omega

theorem ofTokens_eq_ok_iff {l : Layout} {offset : Nat} :
    ofTokens tokens = .ok (l, offset) ↔
      ∃ pieces, Spelled tokens pieces ∧ l = stack pieces ∧ offset = min l.width offsetLimit := by
  induction tokens generalizing l offset with
  | nil =>
    constructor
    · intro h
      cases h
      exact ⟨[], .nil, rfl, rfl⟩
    · rintro ⟨_, h, rfl, rfl⟩
      cases h
      rfl
  | cons t rest ih =>
    rw [ofTokens, Outcome.bind_eq_ok_iff]
    constructor
    · rintro ⟨⟨slices, n⟩, hr, h⟩
      obtain ⟨ps, hs, rfl, rfl⟩ := ih.mp hr
      obtain ⟨⟨k, p⟩, hp, h⟩ := Outcome.bind_eq_ok_iff.mp h
      obtain ⟨hp, rfl⟩ := ofToken_eq_ok_iff.mp hp
      cases h
      exact ⟨p :: ps, .cons hp hs, rfl, min_add_min ..⟩
    · rintro ⟨_, h, rfl, rfl⟩
      cases h with
      | cons hp hs =>
        refine ⟨_, ih.mpr ⟨_, hs, rfl, rfl⟩, ?_⟩
        rw [Outcome.bind_eq_ok_iff]
        refine ⟨⟨_, _⟩, ofToken_eq_ok_iff.mpr ⟨hp, rfl⟩, ?_⟩
        simp only [stack, width, min_add_min]

theorem rightmostFault_cons :
    RightmostFault (token :: tokens) e ↔ RightmostFault tokens e ∨
      Piece.ofToken token = .error e ∧ ∀ u ∈ tokens, ∃ p, Piece.ofToken u = .ok p := by
  constructor
  · rintro ⟨before, t, after, h, he, ha⟩
    cases before with
    | nil =>
      cases h
      exact Or.inr ⟨he, ha⟩
    | cons b before =>
      cases h
      exact Or.inl ⟨before, t, after, rfl, he, ha⟩
  · rintro (⟨before, t, after, rfl, he, ha⟩ | ⟨he, ha⟩)
    · exact ⟨token :: before, t, after, rfl, he, ha⟩
    · exact ⟨[], token, tokens, rfl, he, ha⟩

/-- Reading from right to left fails with the error of the rightmost fault. -/
theorem ofTokens_eq_error_iff : ofTokens tokens = .error e ↔ RightmostFault tokens e := by
  induction tokens with
  | nil =>
    constructor
    · intro h
      cases h
    · rintro ⟨before, t, after, h, -⟩
      simp at h
  | cons t rest ih =>
    rw [ofTokens, Outcome.bind_eq_error_iff, ih, rightmostFault_cons]
    refine or_congr_right ?_
    rw [← spelled_iff_forall_exists]
    constructor
    · rintro ⟨⟨slices, n⟩, hr, h⟩
      obtain ⟨ps, hs, -⟩ := ofTokens_eq_ok_iff.mp hr
      rcases Outcome.bind_eq_error_iff.mp h with h | ⟨s, -, h⟩
      · exact ⟨ofToken_eq_error_iff.mp h, ps, hs⟩
      · cases h
    · rintro ⟨he, ps, hs⟩
      refine ⟨_, ofTokens_eq_ok_iff.mpr ⟨ps, hs, rfl, rfl⟩, ?_⟩
      exact Outcome.bind_eq_error_iff.mpr (Or.inl (ofToken_eq_error_iff.mpr he))

end BitLayout.Layout
