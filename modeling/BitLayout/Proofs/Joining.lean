import BitLayout.Proofs.Assembly

/-! # Joined sources

Two sources with a comma between them spell the slices of both, those of the first above
the width of the second. So the value is that of the first, moved up by that width, and that
of the second below it. A bad token of the second source is reported before one of the first.
-/

namespace BitLayout

inductive EncodingError.OfToken : EncodingError → Prop
  | badConst (token : String) (reason : ConstFault) : OfToken (.badConst token reason)
  | badRange (token : String) (reason : RangeFault) : OfToken (.badRange token reason)

theorem Piece.ofToken_error {token : String} {e : EncodingError}
    (h : ofToken token = .error e) : e.OfToken := by
  rw [ofToken] at h
  split at h
  · obtain ⟨reason, -, rfl⟩ := Outcome.mapError_eq_error_iff.mp h
    exact .badConst token reason
  · obtain ⟨reason, -, rfl⟩ := Outcome.mapError_eq_error_iff.mp h
    exact .badRange token reason

namespace Layout

def raise (l : Layout) (distance : Nat) : Layout :=
  l.map fun s => { s with shift := s.shift + distance }

variable {a b source : String} {ts us : List String} {ps qs pieces : List Piece}
  {l : Layout} {e : EncodingError}

theorem tokens_join (a b : String) :
    tokens (a ++ "," ++ b) = tokens a ++ tokens b := by
  have hl : (a ++ "," ++ b).toList = a.toList ++ ',' :: b.toList := by simp
  rw [Layout.tokens, hl, List.splitOn_append_cons_self, List.map_append]
  rfl

theorem spelled_append_iff : Spelled (ts ++ us) pieces ↔
    ∃ ps qs, pieces = ps ++ qs ∧ Spelled ts ps ∧ Spelled us qs := by
  constructor
  · intro h
    refine ⟨_, _, (List.take_append_drop ts.length pieces).symm, ?_, ?_⟩
    · simpa [Spelled] using List.forall₂_take ts.length h
    · simpa [Spelled] using List.forall₂_drop ts.length h
  · rintro ⟨ps, qs, rfl, hp, hq⟩
    exact List.rel_append hp hq

theorem width_stack_append (ps qs : List Piece) :
    (stack (ps ++ qs)).width = (stack ps).width + (stack qs).width := by
  induction ps with
  | nil => simp [stack, width]
  | cons p ps ih => rw [List.cons_append, stack, stack, width, width, ih, Nat.add_assoc]; rfl

/-- Pieces on top of others stand above the width of these, as long as all fit a word. -/
theorem stack_append (h : (stack ps).width + (stack qs).width ≤ 64) :
    stack (ps ++ qs) = (stack ps).raise (stack qs).width ++ stack qs := by
  induction ps with
  | nil => rfl
  | cons p ps ih =>
    rw [stack, width] at h
    have hshift : min (stack (ps ++ qs)).width offsetLimit =
        min (stack ps).width offsetLimit + (stack qs).width := by
      rw [width_stack_append]
      unfold offsetLimit
      omega
    rw [List.cons_append, stack, hshift, ih (by omega)]
    rfl

theorem rightmostFault_append : RightmostFault (ts ++ us) e ↔
    RightmostFault us e ∨
      RightmostFault ts e ∧ ∀ u ∈ us, ∃ p, Piece.ofToken u = .ok p := by
  induction ts with
  | nil =>
    have none : ¬ RightmostFault [] e := by
      rintro ⟨_, _, _, h, -⟩
      exact List.append_ne_nil_of_right_ne_nil _ (List.cons_ne_nil _ _) h.symm
    rw [List.nil_append, iff_false_intro none, false_and, or_false]
  | cons t ts ih =>
    rw [List.cons_append, rightmostFault_cons, ih, rightmostFault_cons, List.forall_mem_append]
    tauto

theorem RightmostFault.ofToken (h : RightmostFault ts e) : e.OfToken := by
  obtain ⟨_, t, _, -, ht, -⟩ := h
  exact Piece.ofToken_error ht

theorem ofSource_eq_tokenError_iff (h : source ≠ "") (he : e.OfToken) :
    ofSource source = .error e ↔ RightmostFault (tokens source) e := by
  rw [ofSource_eq_error_iff h, or_iff_left]
  rintro ⟨_, -, -, rfl⟩
  cases he

theorem exists_rightmostFault (h : ∃ t ∈ ts, ∀ p, Piece.ofToken t ≠ .ok p) :
    ∃ e, RightmostFault ts e := by
  cases hr : ofTokens ts with
  | error e => exact ⟨e, ofTokens_eq_error_iff.mp hr⟩
  | ok r =>
    obtain ⟨pieces, hs, -⟩ := ofTokens_eq_ok_iff.mp hr
    obtain ⟨t, ht, hbad⟩ := h
    obtain ⟨p, hp⟩ := spelled_iff_forall_exists.mp ⟨pieces, hs⟩ t ht
    exact absurd hp (hbad p)

theorem join_ne_empty (a b : String) : a ++ "," ++ b ≠ "" := by
  intro h
  have hl := congrArg String.toList h
  simp at hl

theorem ofSource_join_eq_ok_iff (ha : a ≠ "") (hb : b ≠ "") :
    ofSource (a ++ "," ++ b) = .ok l ↔ ∃ front back, ofSource a = .ok front ∧
      ofSource b = .ok back ∧ front.width + back.width ≤ 64 ∧
      l = front.raise back.width ++ back := by
  rw [ofSource_eq_ok_iff (join_ne_empty a b), tokens_join]
  simp only [ofSource_eq_ok_iff ha, ofSource_eq_ok_iff hb, spelled_append_iff]
  constructor
  · rintro ⟨_, ⟨ps, qs, rfl, hp, hq⟩, rfl, hw⟩
    rw [width_stack_append] at hw
    exact ⟨_, _, ⟨ps, hp, rfl, by omega⟩, ⟨qs, hq, rfl, by omega⟩, hw, stack_append hw⟩
  · rintro ⟨_, _, ⟨ps, hp, rfl, -⟩, ⟨qs, hq, rfl, -⟩, hw, rfl⟩
    have hjoin := stack_append hw
    rw [← width_stack_append, hjoin] at hw
    exact ⟨ps ++ qs, ⟨ps, qs, rfl, hp, hq⟩, hjoin.symm, hw⟩

theorem toNat_value_join {front back : Layout} (ha : a ≠ "") (hb : b ≠ "")
    (hl : ofSource (a ++ "," ++ b) = .ok l) (hfront : ofSource a = .ok front)
    (hback : ofSource b = .ok back) (w : Word) :
    (value w l).toNat = (value w front).toNat * 2 ^ back.width + (value w back).toNat := by
  obtain ⟨ps, hp, rfl, -⟩ := (ofSource_eq_ok_iff ha).mp hfront
  obtain ⟨qs, hq, rfl, -⟩ := (ofSource_eq_ok_iff hb).mp hback
  obtain ⟨all, hall, rfl, -⟩ := (ofSource_eq_ok_iff (join_ne_empty a b)).mp hl
  rw [← hall.bitNumber_bits (laidOut_of_ofSource hl), tokens_join, List.flatMap_append,
    bitNumber_append, hp.bitNumber_bits (laidOut_of_ofSource hfront),
    hq.bitNumber_bits (laidOut_of_ofSource hback), hq.length_bits]

/-- A source of two with a comma between them is accepted when both are and their widths fit a
word together. It stacks the slices of the first on those of the second, and its value is
made of their values in the same way. It fails over a bad token of the second, and otherwise
over one of the first. -/
theorem ofSource_join (ha : a ≠ "") (hb : b ≠ "") :
    (∀ l, ofSource (a ++ "," ++ b) = .ok l ↔ ∃ front back, ofSource a = .ok front ∧
      ofSource b = .ok back ∧ front.width + back.width ≤ 64 ∧
      l = front.raise back.width ++ back) ∧
    (∀ l front back, ofSource (a ++ "," ++ b) = .ok l → ofSource a = .ok front →
      ofSource b = .ok back → ∀ w,
        (value w l).toNat = (value w front).toNat * 2 ^ back.width + (value w back).toNat) ∧
    (∀ e, e.OfToken → ofSource b = .error e → ofSource (a ++ "," ++ b) = .error e) ∧
    ∀ shift, (∀ t ∈ tokens b, ∃ s, Slice.ofToken t shift = .ok s) →
      (∃ t ∈ tokens a, ∀ s, Slice.ofToken t shift ≠ .ok s) →
      ∃ e, e.OfToken ∧ ofSource a = .error e ∧ ofSource (a ++ "," ++ b) = .error e := by
  have hjoin {e : EncodingError} (he : e.OfToken) : ofSource (a ++ "," ++ b) = .error e ↔
      RightmostFault (tokens b) e ∨
        RightmostFault (tokens a) e ∧ ∀ u ∈ tokens b, ∃ p, Piece.ofToken u = .ok p := by
    rw [ofSource_eq_tokenError_iff (join_ne_empty a b) he, tokens_join, rightmostFault_append]
  refine ⟨fun l => ofSource_join_eq_ok_iff ha hb, fun l front back hl hfront hback w =>
    toNat_value_join ha hb hl hfront hback w, fun e he h => ?_, fun shift hgood hbad => ?_⟩
  · exact (hjoin he).mpr (.inl ((ofSource_eq_tokenError_iff hb he).mp h))
  · obtain ⟨t, ht, hbad⟩ := hbad
    obtain ⟨e, hf⟩ := exists_rightmostFault
      ⟨t, ht, fun p hp => hbad ⟨shift, p⟩ (ofToken_eq_ok_iff.mpr ⟨hp, rfl⟩)⟩
    refine ⟨e, hf.ofToken, (ofSource_eq_tokenError_iff ha hf.ofToken).mpr hf, ?_⟩
    refine (hjoin hf.ofToken).mpr (.inr ⟨hf, fun u hu => ?_⟩)
    obtain ⟨s, hs⟩ := hgood u hu
    exact ⟨s.piece, (ofToken_eq_ok_iff.mp hs).1⟩

/-- Sources that fit a word together, and sources with a bad token on either side. -/
theorem ofSource_join_sample :
    let front : Layout := [⟨1, .bits 4 5⟩, ⟨0, .const 1 1⟩]
    let back : Layout := [⟨2, .bits 0 1⟩, ⟨0, .const 2 0⟩]
    ofSource ("4-5,+" ++ "," ++ "0-1,##") = .ok (front.raise 4 ++ back) ∧
      (value 0x23 (front.raise 4 ++ back)).toNat = 0b1011100 ∧
      ofSource ("4-5,x" ++ "," ++ "+a,0-1") = .error (.badConst "+a" .foreignCharacter) ∧
      ∃ e, e.OfToken ∧ ofSource "9-,4-5" = .error e ∧
        ofSource ("9-,4-5" ++ "," ++ "0-1") = .error e := by
  intro front back
  have hfront : ofSource "4-5,+" = .ok front := by decide +kernel
  have hback : ofSource "0-1,##" = .ok back := by decide +kernel
  have hbad : ofSource "+a,0-1" = .error (.badConst "+a" .foreignCharacter) := by decide +kernel
  obtain ⟨joined, values, -, -⟩ :=
    ofSource_join (a := "4-5,+") (b := "0-1,##") (by decide) (by decide)
  obtain ⟨-, -, refused, -⟩ :=
    ofSource_join (a := "4-5,x") (b := "+a,0-1") (by decide) (by decide)
  obtain ⟨-, -, -, fallback⟩ :=
    ofSource_join (a := "9-,4-5") (b := "0-1") (by decide) (by decide)
  have hl : ofSource ("4-5,+" ++ "," ++ "0-1,##") = .ok (front.raise 4 ++ back) :=
    (joined _).mpr ⟨front, back, hfront, hback, by decide, rfl⟩
  refine ⟨hl, ?_, refused _ (.badConst _ _) hbad, fallback 0 ?_ ?_⟩
  · rw [values _ front back hl hfront hback 0x23]
    decide +kernel
  · have ht : tokens "0-1" = ["0-1"] := by decide +kernel
    rw [ht, List.forall_mem_singleton]
    exact ⟨⟨0, .bits 0 1⟩, by decide +kernel⟩
  · have ht : Slice.ofToken "9-" 0 = .error (.badRange "9-" .endNotNumber) := by decide +kernel
    exact ⟨"9-", by decide +kernel, by simp [ht]⟩

end Layout

end BitLayout
