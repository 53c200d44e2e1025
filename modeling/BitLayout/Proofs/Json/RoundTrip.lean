import BitLayout.Json.Reader
import BitLayout.Proofs.Json.Numeral
import BitLayout.Proofs.Json.Quoted

/-! # Written values

A value whose numbers are words and whose containers nest no deeper than the
reader goes reads back from its written form. The elements of arrays and the
members of objects are read by one argument: each is a written form behind the end
of a line, and what follows it is a comma or the end of another line.
-/

namespace BitLayout.Json

/-- The values that are written so as to be read back, nested to the given depth. -/
inductive Storable : Nat → Json → Prop
  | null {depth : Nat} : Storable depth .null
  | bool {depth : Nat} (b : Bool) : Storable depth (.bool b)
  | word {depth n : Nat} : n < Word.limit → Storable depth (ofNat n)
  | string {depth : Nat} (s : String) : Storable depth (.string s)
  | array {depth : Nat} {items : List Json} : (∀ v ∈ items, Storable depth v) →
      Storable (depth + 1) (.array items)
  | object {depth : Nat} {members : List (String × Json)} :
      (∀ m ∈ members, Storable depth m.2) → Storable (depth + 1) (.object members)

theorem stops_nil : Stops [] := Or.inl rfl

theorem stops_comma (cs : List Char) : Stops (',' :: cs) := Or.inr ⟨cs, Or.inl rfl⟩

theorem stops_newLine (indent : Nat) (cs : List Char) : Stops (newLine indent ++ cs) :=
  Or.inr ⟨_, Or.inr rfl⟩

theorem isSpace_of_mem_newLine {indent : Nat} : ∀ c ∈ newLine indent, isSpace c = true := by
  intro c hc
  rcases List.mem_cons.mp hc with rfl | hc
  · rfl
  · rw [List.eq_of_mem_replicate hc]
    rfl

@[simp] theorem skipSpaces_newLine (indent : Nat) (cs : List Char) :
    skipSpaces (newLine indent ++ cs) = skipSpaces cs :=
  List.dropWhile_append_of_pos isSpace_of_mem_newLine

theorem skipSpaces_skipSpaces (cs : List Char) : skipSpaces (skipSpaces cs) = skipSpaces cs := by
  unfold skipSpaces
  induction cs with
  | nil => rfl
  | cons c cs ih =>
    by_cases h : isSpace c = true
    · rw [List.dropWhile_cons_of_pos h, ih]
    · rw [List.dropWhile_cons_of_neg h, List.dropWhile_cons_of_neg h]

variable {α : Type} {element : List Char → Except Fault (α × List Char)} {close : Char}
  {bound depth : Nat}

/-- An element that the reader takes back from its written form: the form begins, after
spaces, with a character that does not close the container, and what follows it is left. -/
structure ReadsBack (element : List Char → Except Fault (α × List Char)) (close : Char)
    (bound : Nat) (form : α → List Char) (a : α) : Prop where
  first : ∃ c cs, skipSpaces (form a) = c :: cs ∧ c ≠ close
  read : ∀ rest, Stops rest → (form a ++ rest).length ≤ bound →
    element (form a ++ rest) = .ok (a, rest)

theorem skipSpaces_append {cs ds : List Char} {c : Char} (h : skipSpaces cs = c :: ds)
    (rest : List Char) : skipSpaces (cs ++ rest) = c :: ds ++ rest := by
  rw [← h]
  unfold skipSpaces at h ⊢
  induction cs with
  | nil => cases h
  | cons b cs ih =>
    rw [List.cons_append]
    by_cases hb : isSpace b = true
    · rw [List.dropWhile_cons_of_pos hb] at h ⊢
      rw [List.dropWhile_cons_of_pos hb]
      exact ih h
    · rw [List.dropWhile_cons_of_neg hb, List.dropWhile_cons_of_neg hb, List.cons_append]

/-- What follows the first element of a container: the other elements, each behind a comma,
and the closing bracket on a line of its own. -/
def following (form : α → List Char) (close : Char) (indent : Nat) (rest : List Char) :
    List α → List Char
  | [] => newLine indent ++ close :: rest
  | a :: as => ',' :: (form a ++ following form close indent rest as)

theorem stops_following (form : α → List Char) (close : Char) (indent : Nat) (rest : List Char)
    (as : List α) : Stops (following form close indent rest as) := by
  cases as with
  | nil => exact stops_newLine indent _
  | cons a as => exact stops_comma _

theorem length_lt_length_following (form : α → List Char) (close : Char) (indent : Nat)
    (rest : List Char) (as : List α) :
    as.length < (following form close indent rest as).length := by
  induction as with
  | nil =>
    rw [following, List.length_append, List.length_cons, List.length_nil]
    omega
  | cons a as ih =>
    rw [following, List.length_cons, List.length_cons, List.length_append]
    omega

/-- The elements after the first are read up to the bracket that closes them. -/
theorem readMore_following (hs : isSpace close = false) (hc : close ≠ ',') {form : α → List Char}
    {as : List α} (h : ∀ a ∈ as, ReadsBack element close bound form a) (indent : Nat)
    (rest : List Char) {limit : Nat} (hl : as.length < limit)
    (hb : (following form close indent rest as).length ≤ bound) :
    readMore element close limit (following form close indent rest as) = .ok (as, rest) := by
  induction as generalizing limit with
  | nil =>
    obtain ⟨limit, rfl⟩ := Nat.exists_eq_succ_of_ne_zero (Nat.ne_of_gt hl)
    rw [following, readMore, skipSpaces_newLine, skipSpaces_cons hs]
    exact if_pos rfl
  | cons a as ih =>
    obtain ⟨limit, rfl⟩ := Nat.exists_eq_succ_of_ne_zero (Nat.ne_of_gt (Nat.zero_lt_of_lt hl))
    rw [List.forall_mem_cons] at h
    rw [List.length_cons] at hl
    rw [following, List.length_cons] at hb
    have hread := h.1.read _ (stops_following form close indent rest as) (by omega)
    rw [List.length_append] at hb
    rw [following, readMore, skipSpaces_cons (by decide)]
    dsimp only
    rw [if_neg hc.symm, if_pos rfl, hread, Outcome.ok_bind]
    dsimp only
    rw [ih h.2 (by omega) (by omega)]
    rfl

theorem readElements_following (he : ∀ cs, element (skipSpaces cs) = element cs)
    (hs : isSpace close = false) (hc : close ≠ ',') {form : α → List Char} {a : α} {as : List α}
    (h : ∀ b ∈ a :: as, ReadsBack element close bound form b) (indent : Nat) (rest : List Char)
    (hb : (form a ++ following form close indent rest as).length ≤ bound) :
    readElements element close bound (form a ++ following form close indent rest as) =
      .ok (a :: as, rest) := by
  rw [List.forall_mem_cons] at h
  obtain ⟨c, cs, hf, hne⟩ := h.1.first
  have hskip := skipSpaces_append hf (following form close indent rest as)
  have hread := h.1.read _ (stops_following form close indent rest as) hb
  have hlen := length_lt_length_following form close indent rest as
  rw [List.length_append] at hb
  rw [readElements, hskip, List.cons_append]
  dsimp only
  rw [if_neg hne, ← List.cons_append, ← hskip, he, hread, Outcome.ok_bind]
  dsimp only
  rw [readMore_following hs hc h.2 indent rest (by omega) (by omega)]
  rfl

theorem readValue_skipSpaces (bound depth : Nat) (cs : List Char) :
    readValue bound depth (skipSpaces cs) = readValue bound depth cs := by
  rw [readValue.eq_def, skipSpaces_skipSpaces, ← readValue.eq_def]

theorem readMember_skipSpaces (value : List Char → Except Fault (Json × List Char))
    (cs : List Char) : readMember value (skipSpaces cs) = readMember value cs := by
  rw [readMember, skipSpaces_skipSpaces, ← readMember]

def itemForm (indent : Nat) (v : Json) : List Char := newLine indent ++ write indent v

def memberForm (indent : Nat) (m : String × Json) : List Char :=
  newLine indent ++ (writeString m.1 ++ ':' :: ' ' :: write indent m.2)

theorem writeItems_append (indent outer : Nat) (close : Char) (rest : List Char)
    (vs : List Json) : writeItems indent vs ++ (newLine outer ++ close :: rest) =
      following (itemForm indent) close outer rest vs := by
  induction vs with
  | nil => rfl
  | cons v vs ih =>
    rw [following, ← ih, writeItems, itemForm]
    simp only [List.append_assoc, List.cons_append]

theorem writeMembers_append (indent outer : Nat) (close : Char) (rest : List Char)
    (ms : List (String × Json)) : writeMembers indent ms ++ (newLine outer ++ close :: rest) =
      following (memberForm indent) close outer rest ms := by
  induction ms with
  | nil => rfl
  | cons m ms ih =>
    rw [following, ← ih, writeMembers, memberForm]
    simp only [List.append_assoc, List.cons_append, List.nil_append]

theorem write_array (indent : Nat) (v : Json) (vs : List Json) (rest : List Char) :
    write indent (.array (v :: vs)) ++ rest =
      '[' :: (itemForm (indent + 1) v ++
        following (itemForm (indent + 1)) ']' indent rest vs) := by
  rw [write, ← writeItems_append, itemForm]
  simp only [List.append_assoc, List.cons_append, List.nil_append]

theorem write_object (indent : Nat) (m : String × Json) (ms : List (String × Json))
    (rest : List Char) : write indent (.object (m :: ms)) ++ rest =
      '\x7b' :: (memberForm (indent + 1) m ++
        following (memberForm (indent + 1)) '\x7d' indent rest ms) := by
  rw [write, ← writeMembers_append, memberForm]
  simp only [List.append_assoc, List.cons_append, List.nil_append]

theorem isSpace_of_isDigit {c : Char} (h : c.isDigit = true) : isSpace c = false := by
  rw [Bool.eq_false_iff]
  intro hs
  simp only [isSpace, Bool.or_eq_true, beq_iff_eq] at hs
  rcases hs with ((rfl | rfl) | rfl) | rfl <;> exact absurd h (by decide)

theorem writeNumber_ofNat (n : Nat) : writeNumber ⟨false, n, 0⟩ = Nat.toDigits 10 n := by
  simp [writeNumber]

/-- A written value begins with a character that neither is a space nor closes an array. -/
theorem write_first {v : Json} (h : Storable depth v) (indent : Nat) :
    ∃ c cs, write indent v = c :: cs ∧ isSpace c = false ∧ c ≠ ']' := by
  cases h with
  | null => exact ⟨_, _, rfl, by decide, by decide⟩
  | bool b => cases b <;> exact ⟨_, _, rfl, by decide, by decide⟩
  | @word _ n =>
    obtain ⟨c, cs, he⟩ := List.exists_cons_of_ne_nil (Nat.toDigits_ne_nil (n := n) (b := 10))
    have hc : c.isDigit = true := isDigit_toDigits (n := n) c (he ▸ List.mem_cons_self)
    refine ⟨c, cs, by rw [ofNat, write, writeNumber_ofNat, he], ?_, ?_⟩
    · exact isSpace_of_isDigit hc
    · rintro rfl
      exact absurd hc (by decide)
  | string s => exact ⟨_, _, rfl, by decide, by decide⟩
  | @array _ items => cases items <;> exact ⟨_, _, rfl, by decide, by decide⟩
  | @object _ members => cases members <;> exact ⟨_, _, rfl, by decide, by decide⟩

theorem isSpace_of_number {c : Char} (h : c = '-' ∨ c.isDigit = true) : isSpace c = false := by
  rcases h with rfl | h
  · rfl
  · exact isSpace_of_isDigit h

theorem readValue_number {c : Char} (hc : c = '-' ∨ c.isDigit = true) (cs : List Char) :
    readValue bound depth (c :: cs) =
      (readNumber (c :: cs)).map fun r => (.number r.1, r.2) := by
  rw [readValue.eq_def, skipSpaces_cons (isSpace_of_number hc)]
  split
  case h_7 h =>
    cases h
    exact if_pos hc
  case h_8 h => cases h
  all_goals
    rename_i h
    cases h
    exact absurd hc (by decide)

theorem readMember_of_readString {value : List Char → Except Fault (Json × List Char)}
    {cs tail : List Char} {key : String} (h : readString cs = .ok (key, ':' :: tail)) :
    readMember value ('"' :: cs) = value tail >>= fun r => .ok ((key, r.1), r.2) := by
  have hq : readMember value ('"' :: cs) = readString cs >>= _ := rfl
  rw [hq, h]
  rfl

theorem readsBack_item {indent : Nat} {v : Json} (h : Storable depth v)
    (hr : ∀ rest, Stops rest → (write indent v ++ rest).length ≤ bound →
      readValue bound depth (write indent v ++ rest) = .ok (v, rest)) :
    ReadsBack (readValue bound depth) ']' bound (itemForm indent) v where
  first := by
    obtain ⟨c, cs, he, hs, hc⟩ := write_first h indent
    exact ⟨c, cs, by rw [itemForm, skipSpaces_newLine, he, skipSpaces_cons hs], hc⟩
  read rest hst hb := by
    rw [itemForm, List.append_assoc] at hb ⊢
    rw [List.length_append] at hb
    rw [← readValue_skipSpaces, skipSpaces_newLine, readValue_skipSpaces]
    exact hr rest hst (by omega)

theorem readsBack_member {indent : Nat} {m : String × Json}
    (hr : ∀ rest, Stops rest → (write indent m.2 ++ rest).length ≤ bound →
      readValue bound depth (write indent m.2 ++ rest) = .ok (m.2, rest)) :
    ReadsBack (readMember (readValue bound depth)) '\x7d' bound (memberForm indent) m where
  first := by
    rw [memberForm, skipSpaces_newLine, writeString, List.cons_append, skipSpaces_cons (by decide)]
    exact ⟨_, _, rfl, by decide⟩
  read rest hst hb := by
    have he : memberForm indent m ++ rest = newLine indent ++ ('"' ::
        (m.1.toList.flatMap writeChar ++ '"' :: ':' :: ' ' :: (write indent m.2 ++ rest))) := by
      rw [memberForm, writeString]
      simp only [List.append_assoc, List.cons_append, List.nil_append]
    rw [he] at hb ⊢
    simp only [List.length_append, List.length_cons] at hb
    have hv := hr rest hst (by rw [List.length_append]; omega)
    have hsp : readValue bound depth (' ' :: (write indent m.2 ++ rest)) = .ok (m.2, rest) := by
      rw [← readValue_skipSpaces, ← hv, ← readValue_skipSpaces bound depth (_ ++ _)]
      rfl
    rw [← readMember_skipSpaces, skipSpaces_newLine, readMember_skipSpaces,
      readMember_of_readString (readString_write m.1 _), hsp]
    rfl

theorem readLiteral_append (v : Json) (letters rest : List Char) :
    readLiteral v letters (letters ++ rest) = .ok (v, rest) := by
  rw [readLiteral, readExactly_append]
  rfl

theorem readValue_array (depth : Nat) (cs : List Char) :
    readValue bound (depth + 1) ('[' :: cs) =
      (readElements (readValue bound depth) ']' bound cs).map fun r =>
        (.array r.1, r.2) := by
  rw [readValue.eq_def]
  rfl

theorem readValue_object (depth : Nat) (cs : List Char) :
    readValue bound (depth + 1) ('\x7b' :: cs) =
      (readElements (readMember (readValue bound depth)) '\x7d' bound cs).map fun r =>
        (.object r.1, r.2) := by
  rw [readValue.eq_def]
  rfl

theorem readValue_string (s : String) (rest : List Char) :
    readValue bound depth (writeString s ++ rest) = .ok (.string s, rest) := by
  have hq : readValue bound depth (writeString s ++ rest) =
      (readString (s.toList.flatMap writeChar ++ '"' :: rest)).map
        fun r => (.string r.1, r.2) := by
    rw [readValue.eq_def, writeString, List.cons_append, List.append_assoc]
    rfl
  rw [hq, readString_write]
  rfl

theorem readValue_word {n : Nat} (hn : n < Word.limit) {rest : List Char} (h : Stops rest) :
    readValue bound depth (Nat.toDigits 10 n ++ rest) = .ok (ofNat n, rest) := by
  have hr := readNumber_toDigits hn h
  obtain ⟨c, cs, he⟩ := List.exists_cons_of_ne_nil (Nat.toDigits_ne_nil (n := n) (b := 10))
  have hc : c.isDigit = true := isDigit_toDigits (n := n) c (he ▸ List.mem_cons_self)
  rw [he, List.cons_append] at hr ⊢
  rw [readValue_number (Or.inr hc), hr]
  rfl

/-- A written value reads back as itself, in any text long enough to hold it. -/
theorem readValue_write {v : Json} (h : Storable depth v) (indent : Nat) (rest : List Char)
    (hst : Stops rest) (hb : (write indent v ++ rest).length ≤ bound) :
    readValue bound depth (write indent v ++ rest) = .ok (v, rest) := by
  induction h generalizing indent rest with
  | null =>
    rw [readValue.eq_def]
    exact readLiteral_append .null ['u', 'l', 'l'] rest
  | bool b =>
    rw [readValue.eq_def]
    cases b with
    | false => exact readLiteral_append (.bool false) ['a', 'l', 's', 'e'] rest
    | true => exact readLiteral_append (.bool true) ['r', 'u', 'e'] rest
  | word hn =>
    rw [ofNat, write, writeNumber_ofNat]
    exact readValue_word hn hst
  | string s => exact readValue_string s rest
  | @array depth items hi ih =>
    cases items with
    | nil => exact readValue_array depth (']' :: rest)
    | cons v vs =>
      have hr : ∀ u ∈ v :: vs,
          ReadsBack (readValue bound depth) ']' bound (itemForm (indent + 1)) u :=
        fun u hu => readsBack_item (hi u hu) (ih u hu (indent + 1))
      rw [write_array, List.length_cons] at hb
      rw [write_array, readValue_array, readElements_following (readValue_skipSpaces bound depth)
        (by decide) (by decide) hr indent rest (by omega)]
      rfl
  | @object depth members hi ih =>
    cases members with
    | nil => exact readValue_object depth ('\x7d' :: rest)
    | cons m ms =>
      have hr : ∀ u ∈ m :: ms, ReadsBack (readMember (readValue bound depth)) '\x7d' bound
          (memberForm (indent + 1)) u :=
        fun u hu => readsBack_member (ih u hu (indent + 1))
      rw [write_object, List.length_cons] at hb
      rw [write_object, readValue_object, readElements_following (readMember_skipSpaces _)
        (by decide) (by decide) hr indent rest (by omega)]
      rfl

theorem read_eq_ok_iff {text : String} {v : Json} :
    read text = .ok v ↔ ∃ rest, readFirst text = .ok (v, rest) ∧ skipSpaces rest = [] := by
  simp only [read, Outcome.bind_eq_ok_iff]
  constructor
  · rintro ⟨r, hr, h⟩
    split at h
    · rename_i hblank
      cases h
      exact ⟨r.2, hr, List.isEmpty_iff.mp hblank⟩
    · cases h
  · rintro ⟨rest, hr, hrest⟩
    exact ⟨(v, rest), hr, by rw [hrest]; rfl⟩

theorem readFirst_text {v : Json} (h : Storable depthLimit v) :
    readFirst (text v) = .ok (v, []) := by
  have hr := readValue_write h 0 [] stops_nil (Nat.le_refl (write 0 v ++ []).length)
  rw [List.append_nil] at hr
  rw [readFirst, text, String.toList_ofList, String.length_ofList, hr]

theorem read_text {v : Json} (h : Storable depthLimit v) : read (text v) = .ok v := by
  rw [read, readFirst_text h]
  rfl

end BitLayout.Json
