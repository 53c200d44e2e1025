import BitLayout.Proofs.Json.RoundTrip

/-! # Reading inside a longer text

What a reader takes from a text it takes from a longer text too, unless the text that is
added goes on with a number. A value is read to any depth that its containers need, and at
a lesser depth the text is malformed. So the array of one value is read when the value is
and its containers leave room for one more.
-/

namespace BitLayout.Json

variable {α : Type} {cs rest tail : List Char} {bound wider depth : Nat} {v : Json}

/-- The containers of the value nest to the given depth and no deeper. -/
inductive Within : Nat → Json → Prop
  | null {depth : Nat} : Within depth .null
  | bool {depth : Nat} (b : Bool) : Within depth (.bool b)
  | number {depth : Nat} (n : Number) : Within depth (.number n)
  | string {depth : Nat} (s : String) : Within depth (.string s)
  | array {depth : Nat} {items : List Json} : (∀ v ∈ items, Within depth v) →
      Within (depth + 1) (.array items)
  | object {depth : Nat} {members : List (String × Json)} : (∀ m ∈ members, Within depth m.2) →
      Within (depth + 1) (.object members)

/-- The text does not begin with what could go on with a number. -/
def EndsNumber (tail : List Char) : Prop :=
  ∀ c ∈ tail.head?, c.isDigit = false ∧ c ≠ '.' ∧ c ≠ 'e' ∧ c ≠ 'E'

theorem readExactly_extend {letters : List Char} (h : readExactly letters cs = .ok rest)
    (tail : List Char) : readExactly letters (cs ++ tail) = .ok (rest ++ tail) := by
  induction letters generalizing cs with
  | nil =>
    cases h
    rfl
  | cons e letters ih =>
    cases cs with
    | nil => cases h
    | cons c cs =>
      rw [readExactly] at h
      rw [List.cons_append, readExactly]
      split at h
      · rw [if_pos ‹_›]
        exact ih h
      · cases h

theorem length_of_readUnit {unit : Nat} (h : readUnit cs = .ok unit) : 4 ≤ cs.length := by
  unfold readUnit at h
  dsimp only at h
  split at h
  · rename_i digits hd
    have hlen := (Outcome.mapM_eq_some_iff Iff.rfl).mp hd |>.length_eq
    split at h
    · rename_i hfour
      rw [hfour, List.length_take] at hlen
      omega
    · cases h
  · split at h <;> cases h

theorem readUnit_extend {unit : Nat} (h : readUnit cs = .ok unit) (tail : List Char) :
    readUnit (cs ++ tail) = .ok unit := by
  rw [← h, readUnit, readUnit, List.take_append_of_le_length (length_of_readUnit h)]

theorem readUnits_extend {r : Char × Nat} (h : readUnits cs = .ok r) (tail : List Char) :
    readUnits (cs ++ tail) = .ok r := by
  obtain ⟨unit, hu, h⟩ := Outcome.bind_eq_ok_iff.mp h
  rw [readUnits, readUnit_extend hu, Outcome.ok_bind]
  split at h
  · cases h
  · rename_i ht
    rw [if_neg ht]
    split at h
    · rename_i hl
      obtain ⟨left, hleft, h⟩ := Outcome.bind_eq_ok_iff.mp h
      obtain ⟨second, hs, h⟩ := Outcome.bind_eq_ok_iff.mp h
      rw [if_pos hl, List.drop_append_of_le_length (length_of_readUnit hu),
        readExactly_extend hleft, Outcome.ok_bind, readUnit_extend hs, Outcome.ok_bind]
      exact h
    · rename_i hl
      rw [if_neg hl]
      exact h

theorem readEscape_extend {r : Char × Nat} (h : readEscape cs = .ok r) (tail : List Char) :
    readEscape (cs ++ tail) = .ok r := by
  cases cs with
  | nil => cases h
  | cons c cs =>
    by_cases hc : c = 'u'
    · subst hc
      obtain ⟨s, hs, rfl⟩ := Outcome.map_eq_ok_iff.mp h
      exact Outcome.map_eq_ok_iff.mpr ⟨s, readUnits_extend hs tail, rfl⟩
    · rw [← h, List.cons_append]
      simp only [readEscape]

theorem readChars_extend {skip : Nat} {ds : List Char} (h : readChars skip cs = .ok (ds, rest))
    (tail : List Char) : readChars skip (cs ++ tail) = .ok (ds, rest ++ tail) := by
  induction cs generalizing skip ds with
  | nil => cases h
  | cons c cs ih =>
    cases skip with
    | succ skip => exact ih h
    | zero =>
      rw [readChars] at h
      rw [List.cons_append, readChars]
      split at h
      · rw [if_pos ‹_›]
        cases h
        rfl
      · rw [if_neg ‹_›]
        split at h
        · rw [if_pos ‹_›]
          obtain ⟨r, hr, h⟩ := Outcome.bind_eq_ok_iff.mp h
          obtain ⟨s, hs, h⟩ := Outcome.bind_eq_ok_iff.mp h
          cases h
          exact Outcome.bind_eq_ok_iff.mpr
            ⟨r, readEscape_extend hr tail, Outcome.bind_eq_ok_iff.mpr ⟨_, ih hs, rfl⟩⟩
        · rw [if_neg ‹_›]
          split at h
          · cases h
          · rw [if_neg ‹_›]
            obtain ⟨s, hs, h⟩ := Outcome.bind_eq_ok_iff.mp h
            cases h
            exact Outcome.bind_eq_ok_iff.mpr ⟨_, ih hs, rfl⟩

theorem readString_extend {s : String} (h : readString cs = .ok (s, rest)) (tail : List Char) :
    readString (cs ++ tail) = .ok (s, rest ++ tail) := by
  obtain ⟨r, hr, h⟩ := Outcome.bind_eq_ok_iff.mp h
  cases h
  exact Outcome.bind_eq_ok_iff.mpr ⟨_, readChars_extend hr tail, rfl⟩

theorem takeWhile_append_of_head {p : Char → Bool} (h : ∀ c ∈ tail.head?, p c = false) :
    (cs ++ tail).takeWhile p = cs.takeWhile p := by
  induction cs with
  | nil => cases tail <;> simp_all
  | cons c cs ih =>
    rw [List.cons_append, List.takeWhile_cons, List.takeWhile_cons, ih]

theorem dropWhile_append_of_head {p : Char → Bool} (h : ∀ c ∈ tail.head?, p c = false) :
    (cs ++ tail).dropWhile p = cs.dropWhile p ++ tail := by
  induction cs with
  | nil => cases tail <;> simp_all
  | cons c cs ih =>
    rw [List.cons_append, List.dropWhile_cons, List.dropWhile_cons, ih]
    split <;> rfl

variable {ds : List Nat} {e : Int} {n : Number}

theorem readDigits_extend (ht : EndsNumber tail) (h : readDigits cs = .ok (ds, rest)) :
    readDigits (cs ++ tail) = .ok (ds, rest ++ tail) := by
  have hdigit : ∀ c ∈ tail.head?, c.isDigit = false := fun c hc => (ht c hc).1
  rw [readDigits] at h
  rw [readDigits, takeWhile_append_of_head hdigit, dropWhile_append_of_head hdigit]
  split at h
  · cases h
  · cases h
    rfl

theorem readWhole_extend (ht : EndsNumber tail) (h : readWhole cs = .ok (ds, rest)) :
    readWhole (cs ++ tail) = .ok (ds, rest ++ tail) := by
  obtain ⟨r, hr, h⟩ := Outcome.bind_eq_ok_iff.mp h
  refine Outcome.bind_eq_ok_iff.mpr ⟨_, readDigits_extend ht hr, ?_⟩
  dsimp only at h ⊢
  split at h
  · cases h
  · cases h
    rfl

theorem readFraction_extend (ht : EndsNumber tail) (h : readFraction cs = .ok (ds, rest)) :
    readFraction (cs ++ tail) = .ok (ds, rest ++ tail) := by
  unfold readFraction at h
  split at h
  · exact readDigits_extend ht h
  · rename_i hpoint
    cases h
    rw [readFraction]
    intro after he
    cases cs with
    | nil =>
      rw [List.nil_append] at he
      exact (ht '.' (by simp [he])).2.1 rfl
    | cons c cs =>
      cases he
      exact hpoint _ rfl

theorem readExponent_of_ne {c : Char} (h : ¬ (c = 'e' ∨ c = 'E')) (cs : List Char) :
    readExponent (c :: cs) = .ok (0, c :: cs) := by
  rw [readExponent.eq_def]
  exact if_neg h

theorem readExponent_extend (ht : EndsNumber tail) (h : readExponent cs = .ok (e, rest)) :
    readExponent (cs ++ tail) = .ok (e, rest ++ tail) := by
  unfold readExponent at h
  split at h
  · rename_i c cs
    split at h
    · rename_i hc
      split at h
      · obtain ⟨r, hr, h⟩ := Outcome.bind_eq_ok_iff.mp h
        cases h
        rw [List.cons_append, List.cons_append, readExponent, if_pos hc]
        exact Outcome.bind_eq_ok_iff.mpr ⟨_, readDigits_extend ht hr, rfl⟩
      · obtain ⟨r, hr, h⟩ := Outcome.bind_eq_ok_iff.mp h
        cases h
        rw [List.cons_append, List.cons_append, readExponent, if_pos hc]
        exact Outcome.bind_eq_ok_iff.mpr ⟨_, readDigits_extend ht hr, rfl⟩
      · rename_i hminus hplus
        obtain ⟨r, hr, h⟩ := Outcome.bind_eq_ok_iff.mp h
        cases h
        -- there is a digit, so the text that follows adds no sign in front of it
        cases cs with
        | nil => cases hr
        | cons d cs =>
          rw [List.cons_append, readExponent, if_pos hc]
          · exact Outcome.bind_eq_ok_iff.mpr ⟨_, readDigits_extend ht hr, rfl⟩
          · intro after he
            cases he
            exact hminus _ rfl
          · intro after he
            cases he
            exact hplus _ rfl
    · rename_i hc
      cases h
      exact readExponent_of_ne hc (cs ++ tail)
  · cases h
    cases tail with
    | nil => rfl
    | cons c tail =>
      obtain ⟨-, -, hlower, hupper⟩ := ht c rfl
      exact readExponent_of_ne (not_or.mpr ⟨hlower, hupper⟩) tail

theorem readUnsigned_extend {negative : Bool} (ht : EndsNumber tail)
    (h : readUnsigned negative cs = .ok (n, rest)) :
    readUnsigned negative (cs ++ tail) = .ok (n, rest ++ tail) := by
  obtain ⟨whole, hw, h⟩ := Outcome.bind_eq_ok_iff.mp h
  obtain ⟨fraction, hf, h⟩ := Outcome.bind_eq_ok_iff.mp h
  obtain ⟨exponent, he, h⟩ := Outcome.bind_eq_ok_iff.mp h
  refine Outcome.bind_eq_ok_iff.mpr ⟨_, readWhole_extend ht hw, ?_⟩
  refine Outcome.bind_eq_ok_iff.mpr ⟨_, readFraction_extend ht hf, ?_⟩
  refine Outcome.bind_eq_ok_iff.mpr ⟨_, readExponent_extend ht he, ?_⟩
  dsimp only at h ⊢
  split at h
  · cases h
  · rw [if_neg ‹_›]
    cases h
    rfl

theorem readNumber_extend (ht : EndsNumber tail) (h : readNumber cs = .ok (n, rest)) :
    readNumber (cs ++ tail) = .ok (n, rest ++ tail) := by
  unfold readNumber at h
  split at h
  · exact readUnsigned_extend ht h
  · rename_i hminus
    rw [readNumber]
    · exact readUnsigned_extend ht h
    · intro after he
      cases cs with
      | nil => cases h
      | cons c cs =>
        cases he
        exact hminus _ rfl

/-- What the first reader takes from a text, the second takes from the text with the tail
behind it if it is allowed, and otherwise it refuses that text as malformed. -/
def Extends (tail : List Char) (allowed : α → Prop)
    (read other : List Char → Except Fault (α × List Char)) : Prop :=
  ∀ ⦃cs rest : List Char⦄ ⦃a : α⦄, read cs = .ok (a, rest) →
    allowed a ∧ other (cs ++ tail) = .ok (a, rest ++ tail) ∨
      ¬ allowed a ∧ other (cs ++ tail) = .error .malformed

section Containers

variable {allowed : α → Prop} {element other : List Char → Except Fault (α × List Char)}
  {close : Char}

theorem Extends.map {β : Type} {f : α → β} {permitted : β → Prop}
    (h : Extends tail allowed element other) (hf : ∀ a, permitted (f a) ↔ allowed a) :
    Extends tail permitted (fun cs => (element cs).map fun r => (f r.1, r.2))
      (fun cs => (other cs).map fun r => (f r.1, r.2)) := by
  intro cs rest b hr
  obtain ⟨r, hread, he⟩ := Outcome.map_eq_ok_iff.mp hr
  cases he
  rw [hf]
  rcases h hread with ⟨ha, hok⟩ | ⟨ha, hbad⟩
  · exact Or.inl ⟨ha, Outcome.map_eq_ok_iff.mpr ⟨_, hok, rfl⟩⟩
  · exact Or.inr ⟨ha, Outcome.map_eq_error_iff.mpr hbad⟩

/-- An element in front of others is refused if it is not allowed, and then if one of the
others is not. -/
theorem Extends.cons {more further : List Char → Except Fault (List α × List Char)}
    (h : Extends tail allowed element other)
    (hm : Extends tail (fun as => ∀ a ∈ as, allowed a) more further) :
    Extends tail (fun as => ∀ a ∈ as, allowed a)
      (fun cs => element cs >>= fun r => more r.2 >>= fun s => .ok (r.1 :: s.1, s.2))
      (fun cs => other cs >>= fun r => further r.2 >>= fun s => .ok (r.1 :: s.1, s.2)) := by
  intro cs rest as hr
  obtain ⟨first, hfirst, hr⟩ := Outcome.bind_eq_ok_iff.mp hr
  obtain ⟨left, hleft, hr⟩ := Outcome.bind_eq_ok_iff.mp hr
  cases hr
  rcases h hfirst with ⟨ha, hok⟩ | ⟨ha, hbad⟩
  · rcases hm hleft with ⟨hall, hall_ok⟩ | ⟨hall, hbad⟩
    · refine Or.inl ⟨List.forall_mem_cons.mpr ⟨ha, hall⟩, ?_⟩
      exact Outcome.bind_eq_ok_iff.mpr ⟨_, hok, Outcome.bind_eq_ok_iff.mpr ⟨_, hall_ok, rfl⟩⟩
    · refine Or.inr ⟨fun hn => hall (List.forall_mem_cons.mp hn).2, ?_⟩
      exact Outcome.bind_eq_error_iff.mpr
        (Or.inr ⟨_, hok, Outcome.bind_eq_error_iff.mpr (Or.inl hbad)⟩)
  · refine Or.inr ⟨fun hn => ha (List.forall_mem_cons.mp hn).1, ?_⟩
    exact Outcome.bind_eq_error_iff.mpr (Or.inl hbad)

theorem Extends.readMore (h : Extends tail allowed element other) (hb : bound ≤ wider) :
    Extends tail (fun as => ∀ a ∈ as, allowed a) (readMore element close bound)
      (readMore other close wider) := by
  induction bound generalizing wider with
  | zero =>
    intro cs rest as hr
    cases hr
  | succ bound ih =>
    obtain ⟨wider, rfl⟩ := Nat.exists_eq_succ_of_ne_zero (Nat.ne_of_gt (Nat.zero_lt_of_lt hb))
    intro cs rest as hr
    rw [Json.readMore] at hr
    rw [Json.readMore]
    split at hr
    · cases hr
    · rename_i c ds hs
      rw [skipSpaces_append hs, List.cons_append]
      dsimp only
      split at hr
      · rw [if_pos ‹_›]
        cases hr
        exact Or.inl ⟨by simp, rfl⟩
      · rw [if_neg ‹_›]
        split at hr
        · rw [if_pos ‹_›]
          exact h.cons (ih (Nat.le_of_succ_le_succ hb)) hr
        · cases hr

theorem Extends.readElements (h : Extends tail allowed element other) (hb : bound ≤ wider) :
    Extends tail (fun as => ∀ a ∈ as, allowed a) (readElements element close bound)
      (readElements other close wider) := by
  intro cs rest as hr
  rw [Json.readElements] at hr
  rw [Json.readElements]
  split at hr
  · cases hr
  · rename_i c ds hs
    rw [skipSpaces_append hs, List.cons_append]
    dsimp only
    split at hr
    · rw [if_pos ‹_›]
      cases hr
      exact Or.inl ⟨by simp, rfl⟩
    · rw [if_neg ‹_›]
      exact h.cons (h.readMore hb) hr

end Containers

theorem readMember_eq {value : List Char → Except Fault (Json × List Char)}
    {ds es fs : List Char} {key : String} (hquote : skipSpaces cs = '"' :: ds)
    (hkey : readString ds = .ok (key, es)) (hcolon : skipSpaces es = ':' :: fs) :
    readMember value cs = value fs >>= fun r => .ok ((key, r.1), r.2) := by
  simp only [readMember, hquote, hkey, Outcome.ok_bind, hcolon]

theorem Extends.readMember {allowed : Json → Prop}
    {value other : List Char → Except Fault (Json × List Char)}
    (h : Extends tail allowed value other) :
    Extends tail (fun m => allowed m.2) (readMember value) (readMember other) := by
  intro cs rest m hr
  rw [Json.readMember] at hr
  split at hr
  · rename_i ds hquote
    obtain ⟨key, hkey, hr⟩ := Outcome.bind_eq_ok_iff.mp hr
    dsimp only at hr
    split at hr
    · rename_i fs hcolon
      obtain ⟨r, hvalue, hr⟩ := Outcome.bind_eq_ok_iff.mp hr
      cases hr
      rw [readMember_eq (skipSpaces_append hquote tail) (readString_extend hkey tail)
        (skipSpaces_append hcolon tail)]
      rcases h hvalue with ⟨ha, hok⟩ | ⟨ha, hbad⟩
      · exact Or.inl ⟨ha, Outcome.bind_eq_ok_iff.mpr ⟨_, hok, rfl⟩⟩
      · exact Or.inr ⟨ha, Outcome.bind_eq_error_iff.mpr (Or.inl hbad)⟩
    · cases hr
  · cases hr

theorem extends_readLiteral {u : Json} {room : Nat} (hu : Within room u) (letters : List Char) :
    Extends tail (Within room) (readLiteral u letters) (readLiteral u letters) := by
  intro cs rest v hr
  obtain ⟨left, hletters, he⟩ := Outcome.map_eq_ok_iff.mp hr
  cases he
  exact Or.inl ⟨hu, Outcome.map_eq_ok_iff.mpr ⟨_, readExactly_extend hletters tail, rfl⟩⟩

theorem extends_readString : Extends tail (fun _ => True) readString readString :=
  fun _ _ _ hr => Or.inl ⟨trivial, readString_extend hr tail⟩

theorem extends_readNumber (ht : EndsNumber tail) :
    Extends tail (fun _ => True) readNumber readNumber :=
  fun _ _ _ hr => Or.inl ⟨trivial, readNumber_extend ht hr⟩

theorem within_string (s : String) : Within depth (.string s) ↔ True := iff_true_intro (.string s)

theorem within_number (n : Number) : Within depth (.number n) ↔ True := iff_true_intro (.number n)

theorem within_array (items : List Json) :
    Within (depth + 1) (.array items) ↔ ∀ v ∈ items, Within depth v :=
  ⟨fun h => by cases h; assumption, .array⟩

theorem within_object (members : List (String × Json)) :
    Within (depth + 1) (.object members) ↔ ∀ m ∈ members, Within depth m.2 :=
  ⟨fun h => by cases h; assumption, .object⟩

theorem readValue_append {c : Char} {ds : List Char} (h : skipSpaces cs = c :: ds)
    (tail : List Char) :
    readValue bound depth (cs ++ tail) = readValue bound depth (c :: (ds ++ tail)) := by
  rw [← readValue_skipSpaces, skipSpaces_append h, List.cons_append]

/-- A value is read from a longer text too, at every depth to which its containers nest, and
at any other depth the text is malformed. -/
theorem extends_readValue (ht : EndsNumber tail) (hb : bound ≤ wider) (depth room : Nat) :
    Extends tail (Within room) (readValue bound depth) (readValue wider room) := by
  -- the depth that is left decreases with each container that is opened
  intro cs rest v hr
  rw [readValue.eq_def] at hr
  split at hr
  · rename_i ds hs
    rw [readValue_append hs, readValue.eq_def]
    exact extends_readLiteral .null _ hr
  · rename_i ds hs
    rw [readValue_append hs, readValue.eq_def]
    exact extends_readLiteral (.bool true) _ hr
  · rename_i ds hs
    rw [readValue_append hs, readValue.eq_def]
    exact extends_readLiteral (.bool false) _ hr
  · rename_i ds hs
    rw [readValue_append hs, readValue.eq_def]
    exact extends_readString.map within_string hr
  · rename_i ds hs
    rw [readValue_append hs]
    cases depth with
    | zero => cases hr
    | succ depth =>
      cases room with
      | zero =>
        obtain ⟨items, -, he⟩ := Outcome.map_eq_ok_iff.mp hr
        cases he
        refine Or.inr ⟨nofun, ?_⟩
        rw [readValue.eq_def]
        rfl
      | succ room =>
        rw [readValue_array]
        have inner := extends_readValue ht hb depth room
        exact (inner.readElements hb).map within_array hr
  · rename_i ds hs
    rw [readValue_append hs]
    cases depth with
    | zero => cases hr
    | succ depth =>
      cases room with
      | zero =>
        obtain ⟨members, -, he⟩ := Outcome.map_eq_ok_iff.mp hr
        cases he
        refine Or.inr ⟨nofun, ?_⟩
        rw [readValue.eq_def]
        rfl
      | succ room =>
        rw [readValue_object]
        have inner := extends_readValue ht hb depth room
        exact (inner.readMember.readElements hb).map within_object hr
  · rename_i c ds _ _ _ _ _ _ hs
    split at hr
    · rename_i hc
      rw [readValue_append hs, readValue_number hc]
      exact (extends_readNumber ht).map within_number hr
    · cases hr
  · cases hr

theorem within_of_readValue (h : readValue bound depth cs = .ok (v, rest)) : Within depth v := by
  have hnil : EndsNumber [] := by simp [EndsNumber]
  rcases extends_readValue hnil (Nat.le_refl bound) depth depth h with ⟨hv, -⟩ | ⟨-, hbad⟩
  · exact hv
  · rw [List.append_nil, h] at hbad
    cases hbad

theorem first_of_readValue (h : readValue bound depth cs = .ok (v, rest)) :
    ∃ c ds, skipSpaces cs = c :: ds ∧ c ≠ ']' := by
  rw [readValue.eq_def] at h
  cases hs : skipSpaces cs with
  | nil =>
    rw [hs] at h
    cases h
  | cons c ds =>
    refine ⟨c, ds, rfl, ?_⟩
    rintro rfl
    rw [hs] at h
    cases h

/-- A value between brackets is read as the array of the value when the reader goes deep
enough, and is malformed otherwise. -/
theorem readValue_bracketed (hb : bound ≤ wider) (hw : 0 < wider) {room : Nat}
    (h : readValue bound depth cs = .ok (v, rest)) (hrest : skipSpaces rest = []) :
    Within room v ∧ readValue wider (room + 1) ('[' :: (cs ++ [']'])) = .ok (.array [v], []) ∨
      ¬ Within room v ∧ readValue wider (room + 1) ('[' :: (cs ++ [']'])) = .error .malformed := by
  have ht : EndsNumber [']'] := by simp [EndsNumber]
  obtain ⟨c, ds, hs, hc⟩ := first_of_readValue h
  obtain ⟨wider, rfl⟩ := Nat.exists_eq_succ_of_ne_zero (Nat.ne_of_gt hw)
  have hclose : readMore (readValue (wider + 1) room) ']' (wider + 1) (rest ++ [']']) =
      .ok ([], []) := by
    have hskip : skipSpaces (rest ++ [']']) = [']'] := by
      rw [skipSpaces, List.dropWhile_append, ← skipSpaces, hrest]
      rfl
    rw [readMore, hskip]
    rfl
  rw [readValue_array, readElements, skipSpaces_append hs, List.cons_append]
  dsimp only
  rw [if_neg hc, ← readValue_append hs]
  rcases extends_readValue ht hb depth room h with ⟨hv, hok⟩ | ⟨hv, hbad⟩
  · refine Or.inl ⟨hv, ?_⟩
    rw [hok, Outcome.ok_bind]
    dsimp only
    rw [hclose]
    rfl
  · refine Or.inr ⟨hv, ?_⟩
    rw [hbad]
    rfl

end BitLayout.Json
