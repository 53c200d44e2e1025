import BitLayout.Proofs.Acceptance
import BitLayout.Proofs.Parameter
import BitLayout.Proofs.PieceText

/-! # Tiling

The layouts that sources spell are those whose slices stand on each other without
a gap and end inside the word. The places of such slices tile the width of the
value.
-/

namespace BitLayout

namespace Layout

/-- Every slice is well formed and stands on exactly those after it, inside the word. -/
structure LaidOut (l : Layout) : Prop where
  wellFormed : ∀ s ∈ l, s.piece.WellFormed
  shift_eq : ∀ before s after, l = before ++ s :: after → s.shift = width after
  width_le : l.width ≤ 64

def source (l : Layout) : String := String.ofList ([','].intercalate (l.map (·.piece.token)))

variable {l : Layout} {s : Slice} {pieces : List Piece}

theorem laidOut_nil : LaidOut [] where
  wellFormed := by simp
  shift_eq := by simp
  width_le := by simp [width]

theorem laidOut_cons : LaidOut (s :: l) ↔
    s.piece.WellFormed ∧ s.shift = l.width ∧ s.length + l.width ≤ 64 ∧ LaidOut l := by
  constructor
  · intro h
    refine ⟨h.wellFormed s List.mem_cons_self, h.shift_eq [] s l rfl, h.width_le, ?_, ?_, ?_⟩
    · exact fun t ht => h.wellFormed t (List.mem_cons_of_mem _ ht)
    · intro before t after he
      exact h.shift_eq (s :: before) t after (by rw [he, List.cons_append])
    · have := h.width_le
      rw [width] at this
      omega
  · rintro ⟨hw, hs, hle, hl⟩
    refine ⟨?_, ?_, hle⟩
    · intro t ht
      rcases List.mem_cons.mp ht with rfl | ht
      · exact hw
      · exact hl.wellFormed t ht
    · intro before t after he
      cases before with
      | nil =>
        cases he
        exact hs
      | cons b before =>
        cases he
        exact hl.shift_eq before t after rfl

theorem LaidOut.tail (h : LaidOut (s :: l)) : LaidOut l := (laidOut_cons.mp h).2.2.2

theorem laidOut_stack (hw : ∀ p ∈ pieces, p.WellFormed) (h : (stack pieces).width ≤ 64) :
    LaidOut (stack pieces) := by
  induction pieces with
  | nil => exact laidOut_nil
  | cons p ps ih =>
    rw [stack, width] at h
    have hmin : min (stack ps).width offsetLimit = (stack ps).width := by
      unfold offsetLimit
      omega
    refine laidOut_cons.mpr ⟨hw p List.mem_cons_self, hmin, h, ih ?_ (by omega)⟩
    exact fun q hq => hw q (List.mem_cons_of_mem _ hq)

theorem Spelled.wellFormed {tokens : List String} (h : Spelled tokens pieces) :
    ∀ p ∈ pieces, p.WellFormed := by
  induction h with
  | nil => simp
  | cons hp _ ih =>
    rw [List.forall_mem_cons]
    exact ⟨(Piece.ofToken_eq_ok_iff.mp hp).wellFormed, ih⟩

theorem laidOut_of_ofSource {source : String} (h : ofSource source = .ok l) : LaidOut l := by
  by_cases he : source = ""
  · subst he
    cases h
    exact laidOut_nil
  · obtain ⟨ps, hs, rfl, hw⟩ := (ofSource_eq_ok_iff he).mp h
    exact laidOut_stack hs.wellFormed hw

theorem LaidOut.length_add_shift_le (h : LaidOut l) : ∀ s ∈ l, s.length + s.shift ≤ 64 := by
  induction l with
  | nil => simp
  | cons s l ih =>
    obtain ⟨-, hs, hle, hl⟩ := laidOut_cons.mp h
    exact List.forall_mem_cons.mpr ⟨hs ▸ hle, ih hl⟩

end Layout

namespace Parameter

variable {p : Parameter}

theorem Valid.laidOut (h : p.Valid) : Layout.LaidOut p.layout :=
  Layout.laidOut_of_ofSource (valid_iff.mp h).2.2

theorem Valid.spelled (h : p.Valid) :
    ∃ pieces, Layout.Spelled (Layout.tokens p.source) pieces ∧ p.layout = Layout.stack pieces := by
  obtain ⟨-, hne, hl⟩ := valid_iff.mp h
  obtain ⟨ps, hs, he, -⟩ := (Layout.ofSource_eq_ok_iff hne).mp hl
  exact ⟨ps, hs, he⟩

end Parameter

end BitLayout
