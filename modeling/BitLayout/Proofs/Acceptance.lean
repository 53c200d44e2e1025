import BitLayout.Proofs.Offsets

/-! # Accepted sources

A source is accepted when all its tokens are and their widths fit a word. Among
bad tokens the rightmost is reported, before a width that is too large, and a
width is reported exactly up to the limit of offsets.
-/

namespace BitLayout.Layout

variable {source : String} {tokens : List String} {slices : Layout} {shift : Nat}
  {e : EncodingError}

/-- The slices that the tokens of a source stand for, each of them at the same place. -/
def ReadAt (shift : Nat) (tokens : List String) (slices : Layout) : Prop :=
  List.Forall₂ (fun t s => Slice.ofToken t shift = .ok s) tokens slices

theorem ReadAt.spelled (h : ReadAt shift tokens slices) :
    ∃ pieces, Spelled tokens pieces ∧ (stack pieces).width = slices.width := by
  induction h with
  | nil => exact ⟨[], .nil, rfl⟩
  | @cons t s ts ss hs _ ih =>
    obtain ⟨ps, hp, hw⟩ := ih
    refine ⟨s.piece :: ps, .cons (ofToken_eq_ok_iff.mp hs).1 hp, ?_⟩
    rw [stack, width, width, hw]
    rfl

theorem ofSource_of_ne_empty (h : source ≠ "") :
    ofSource source = (do
      let (slices, offset) ← ofTokens (Layout.tokens source)
      if wordBits < offset then .error (.fieldTooWide source offset) else .ok slices) := by
  rw [ofSource, if_neg (by simpa using h)]

/-- An offset is too large for a word exactly when the width that it counts is. -/
theorem lt_min_offsetLimit_iff {n : Nat} : wordBits < min n offsetLimit ↔ 64 < n := by
  unfold wordBits offsetLimit
  omega

theorem ofSource_eq_ok_iff (h : source ≠ "") {l : Layout} :
    ofSource source = .ok l ↔
      ∃ pieces, Spelled (Layout.tokens source) pieces ∧ l = stack pieces ∧ l.width ≤ 64 := by
  rw [ofSource_of_ne_empty h, Outcome.bind_eq_ok_iff]
  constructor
  · rintro ⟨⟨slices, offset⟩, ht, hw⟩
    obtain ⟨ps, hs, rfl, rfl⟩ := ofTokens_eq_ok_iff.mp ht
    simp only [lt_min_offsetLimit_iff] at hw
    split at hw
    · cases hw
    · rename_i hn
      cases hw
      exact ⟨ps, hs, rfl, Nat.le_of_not_lt hn⟩
  · rintro ⟨ps, hs, rfl, hw⟩
    refine ⟨_, ofTokens_eq_ok_iff.mpr ⟨ps, hs, rfl, rfl⟩, ?_⟩
    exact if_neg (fun hn => Nat.not_lt.mpr hw (lt_min_offsetLimit_iff.mp hn))

theorem ofSource_eq_error_iff (h : source ≠ "") :
    ofSource source = .error e ↔ RightmostFault (Layout.tokens source) e ∨
      ∃ pieces, Spelled (Layout.tokens source) pieces ∧ 64 < (stack pieces).width ∧
        e = .fieldTooWide source (min (stack pieces).width offsetLimit) := by
  rw [ofSource_of_ne_empty h, Outcome.bind_eq_error_iff, ofTokens_eq_error_iff]
  refine or_congr_right ?_
  constructor
  · rintro ⟨⟨slices, offset⟩, ht, hw⟩
    obtain ⟨ps, hs, rfl, rfl⟩ := ofTokens_eq_ok_iff.mp ht
    simp only [lt_min_offsetLimit_iff] at hw
    split at hw
    · rename_i hn
      cases hw
      exact ⟨ps, hs, hn, rfl⟩
    · cases hw
  · rintro ⟨ps, hs, hw, rfl⟩
    refine ⟨_, ofTokens_eq_ok_iff.mpr ⟨ps, hs, rfl, rfl⟩, ?_⟩
    exact if_pos (lt_min_offsetLimit_iff.mpr hw)

end BitLayout.Layout
