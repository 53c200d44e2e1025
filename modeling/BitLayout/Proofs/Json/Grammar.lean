import BitLayout.Json.Writer
import BitLayout.Proofs.Json.Numeral
import BitLayout.Proofs.Json.Quoted

/-! # The grammar of JSON text

The grammar of RFC 8259, each phrase with what it stands for. Every value is written by this
grammar, whatever its strings and numbers.
-/

namespace BitLayout.Json

open Text.Numeral (decimal decimal_toDigits digitIn?)

/-- Blank space between tokens. -/
def Blank (cs : List Char) : Prop := ∀ c ∈ cs, c = ' ' ∨ c = '\t' ∨ c = '\n' ∨ c = '\r'

/-- A structural character with the blank space around it. -/
def Mark (c : Char) (cs : List Char) : Prop :=
  ∃ before after, Blank before ∧ Blank after ∧ cs = before ++ c :: after

def Digits (cs : List Char) : Prop := cs ≠ [] ∧ ∀ c ∈ cs, c.isDigit = true

/-- The part of a number before the point has no zero in front of another digit. -/
def Whole (cs : List Char) : Prop := Digits cs ∧ ∀ c rest, cs ≠ '0' :: c :: rest

inductive Fraction : List Char → List Char → Prop
  | absent : Fraction [] []
  | present {digits : List Char} : Digits digits → Fraction digits ('.' :: digits)

inductive Sign : Bool → List Char → Prop
  | absent : Sign false []
  | plus : Sign false ['+']
  | minus : Sign true ['-']

inductive Exponent : Int → List Char → Prop
  | absent : Exponent 0 []
  | present {e : Char} {negative : Bool} {sign digits : List Char} : e = 'e' ∨ e = 'E' →
      Sign negative sign → Digits digits →
      Exponent (if negative then -decimal digits else decimal digits) (e :: (sign ++ digits))

inductive Numeral : Number → List Char → Prop
  | number {whole digits fraction exponent : List Char} {power : Int} (negative : Bool) :
      Whole whole → Fraction digits fraction → Exponent power exponent →
      Numeral ⟨negative, decimal (whole ++ digits), power - digits.length⟩
        ((if negative then ['-'] else []) ++ whole ++ fraction ++ exponent)

/-- Four hexadecimal digits, and the number of the unit that they spell. -/
def CodeUnit (unit : Nat) (four : List Char) : Prop :=
  four.length = 4 ∧
    ∃ digits, four.mapM (digitIn? 16) = some digits ∧ Text.Numeral.value 16 digits = unit

/-- A character inside a string: itself, a letter behind a backslash, or its code units. -/
inductive Letter : Char → List Char → Prop
  | plain {c : Char} : ' ' ≤ c → c ≠ '"' → c ≠ '\\' → Letter c [c]
  | escape {letter c : Char} : (letter, c) ∈ letterEscapes → Letter c ['\\', letter]
  | unit {c : Char} {four : List Char} : CodeUnit c.toNat four → Letter c ('\\' :: 'u' :: four)
  | pair {c : Char} {leading trailing : Nat} {four other : List Char} : CodeUnit leading four →
      CodeUnit trailing other → isLeading leading = true → isTrailing trailing = true →
      c.toNat = pairValue leading trailing →
      Letter c ('\\' :: 'u' :: (four ++ '\\' :: 'u' :: other))

inductive Letters : List Char → List Char → Prop
  | nil : Letters [] []
  | cons {c : Char} {cs one rest : List Char} : Letter c one → Letters cs rest →
      Letters (c :: cs) (one ++ rest)

inductive Quoted : String → List Char → Prop
  | quoted {s : String} {inner : List Char} : Letters s.toList inner →
      Quoted s ('"' :: (inner ++ ['"']))

mutual

inductive Phrase : Json → List Char → Prop
  | null : Phrase .null ['n', 'u', 'l', 'l']
  | true : Phrase (.bool true) ['t', 'r', 'u', 'e']
  | false : Phrase (.bool false) ['f', 'a', 'l', 's', 'e']
  | number {n : Number} {cs : List Char} : Numeral n cs → Phrase (.number n) cs
  | string {s : String} {cs : List Char} : Quoted s cs → Phrase (.string s) cs
  | array {items : List Json} {front inner back : List Char} : Mark '[' front →
      Items items inner → Mark ']' back → Phrase (.array items) (front ++ inner ++ back)
  | object {members : List (String × Json)} {front inner back : List Char} : Mark '\x7b' front →
      Members members inner → Mark '\x7d' back → Phrase (.object members) (front ++ inner ++ back)

inductive Items : List Json → List Char → Prop
  | none : Items [] []
  | one {v : Json} {cs : List Char} : Phrase v cs → Items [v] cs
  | more {v u : Json} {vs : List Json} {cs comma rest : List Char} : Phrase v cs →
      Mark ',' comma → Items (u :: vs) rest → Items (v :: u :: vs) (cs ++ comma ++ rest)

inductive Member : String × Json → List Char → Prop
  | member {key : String} {v : Json} {cs colon ds : List Char} : Quoted key cs → Mark ':' colon →
      Phrase v ds → Member (key, v) (cs ++ colon ++ ds)

inductive Members : List (String × Json) → List Char → Prop
  | none : Members [] []
  | one {m : String × Json} {cs : List Char} : Member m cs → Members [m] cs
  | more {m k : String × Json} {ms : List (String × Json)} {cs comma rest : List Char} :
      Member m cs → Mark ',' comma → Members (k :: ms) rest →
      Members (m :: k :: ms) (cs ++ comma ++ rest)

end

def Document (v : Json) (text : String) : Prop :=
  ∃ before cs after, Blank before ∧ Phrase v cs ∧ Blank after ∧
    text = String.ofList (before ++ cs ++ after)

theorem blank_nil : Blank [] := by simp [Blank]

theorem blank_newLine (indent : Nat) : Blank (newLine indent) := by
  intro c hc
  rcases List.mem_cons.mp hc with rfl | hc
  · simp
  · simp [List.eq_of_mem_replicate hc]

theorem Mark.before {cs : List Char} (c : Char) (h : Blank cs) : Mark c (cs ++ [c]) :=
  ⟨cs, [], h, blank_nil, rfl⟩

theorem Mark.after {cs : List Char} (c : Char) (h : Blank cs) : Mark c (c :: cs) :=
  ⟨[], cs, blank_nil, h, rfl⟩

theorem digits_toDigits (n : Nat) : Digits (Nat.toDigits 10 n) :=
  ⟨Nat.toDigits_ne_nil, isDigit_toDigits⟩

theorem whole_toDigits (n : Nat) : Whole (Nat.toDigits 10 n) := by
  refine ⟨digits_toDigits n, fun c rest h => ?_⟩
  refine decimalDigits_toDigits_ne n (c.toNat - '0'.toNat) (Text.Numeral.decimalDigits rest) ?_
  rw [h]
  rfl

theorem exponent_writeInt (i : Int) : Exponent i ('e' :: writeInt i) := by
  have hd := digits_toDigits i.natAbs
  rw [writeInt]
  split
  · rename_i h
    have he := Exponent.present (.inl rfl) .minus hd
    rw [decimal_toDigits, if_pos rfl] at he
    obtain hi : -(i.natAbs : Int) = i := by omega
    rwa [hi] at he
  · rename_i h
    have he := Exponent.present (.inl rfl) .absent hd
    rw [decimal_toDigits, if_neg (by simp)] at he
    obtain hi : (i.natAbs : Int) = i := by omega
    rwa [hi] at he

theorem numeral_writeNumber (n : Number) : Numeral n (writeNumber n) := by
  have power : Exponent n.exponent (if n.exponent = 0 then [] else 'e' :: writeInt n.exponent) := by
    split
    · rename_i h
      rw [h]
      exact .absent
    · exact exponent_writeInt n.exponent
  have hn := Numeral.number n.negative (whole_toDigits n.significand) .absent power
  simpa [writeNumber] using hn

theorem codeUnit_control {n : Nat} (h : n < 32) :
    CodeUnit n (List.leftpad 4 '0' (Nat.toDigits 16 n)) := by
  interval_cases n <;> exact ⟨rfl, _, rfl, rfl⟩

theorem letter_writeChar (c : Char) : Letter c (writeChar c) := by
  rw [writeChar]
  split
  · rename_i letter h
    refine .escape ?_
    unfold letterOf? at h
    split at h <;> cases h <;> simp [letterEscapes]
  · rename_i h
    obtain ⟨hq, hb⟩ := letterOf?_eq_none h
    by_cases hc : c < ' '
    · rw [if_pos hc]
      exact .unit (codeUnit_control hc)
    · rw [if_neg hc]
      exact .plain (Char.not_lt.mp hc) hq hb

theorem quoted_writeString (s : String) : Quoted s (writeString s) := by
  refine .quoted ?_
  induction s.toList with
  | nil => exact .nil
  | cons c cs ih => exact .cons (letter_writeChar c) ih

theorem items_writeItems {indent : Nat} {v : Json} {vs : List Json} {cs : List Char}
    (hv : Phrase v cs) (h : ∀ u ∈ vs, Phrase u (write indent u)) :
    Items (v :: vs) (cs ++ writeItems indent vs) := by
  induction vs generalizing v cs with
  | nil =>
    rw [writeItems, List.append_nil]
    exact .one hv
  | cons u vs ih =>
    rw [List.forall_mem_cons] at h
    have hrest := ih h.1 h.2
    have hmore := Items.more hv (.after ',' (blank_newLine indent)) hrest
    simpa [writeItems] using hmore

theorem member_write {indent : Nat} {v : Json} (key : String) (h : Phrase v (write indent v)) :
    Member (key, v) (writeString key ++ [':', ' '] ++ write indent v) := by
  refine .member (quoted_writeString key) (.after ':' ?_) h
  simp [Blank]

theorem members_writeMembers {indent : Nat} {m : String × Json} {ms : List (String × Json)}
    {cs : List Char} (hm : Member m cs) (h : ∀ k ∈ ms, Phrase k.2 (write indent k.2)) :
    Members (m :: ms) (cs ++ writeMembers indent ms) := by
  induction ms generalizing m cs with
  | nil =>
    rw [writeMembers, List.append_nil]
    exact .one hm
  | cons k ms ih =>
    rw [List.forall_mem_cons] at h
    have hrest := ih (member_write k.1 h.1) h.2
    have hmore := Members.more hm (.after ',' (blank_newLine indent)) hrest
    simpa [writeMembers] using hmore

theorem sizeOf_lt_array {v : Json} {items : List Json} (h : v ∈ items) :
    sizeOf v < sizeOf (array items) := by
  have hlt := List.sizeOf_lt_of_mem h
  rw [array.sizeOf_spec]
  omega

theorem sizeOf_lt_object {m : String × Json} {members : List (String × Json)}
    (h : m ∈ members) : sizeOf m.2 < sizeOf (object members) := by
  have hlt := List.sizeOf_lt_of_mem h
  have hm : sizeOf m.2 < sizeOf m := by
    cases m
    simp only [Prod.mk.sizeOf_spec]
    omega
  rw [object.sizeOf_spec]
  omega

theorem phrase_write (indent : Nat) (v : Json) : Phrase v (write indent v) := by
  cases v with
  | null => exact .null
  | bool b => cases b <;> constructor
  | number n => exact .number (numeral_writeNumber n)
  | string s => exact .string (quoted_writeString s)
  | array items =>
    cases items with
    | nil => exact .array (.after '[' blank_nil) .none (.after ']' blank_nil)
    | cons v vs =>
      have hi : Items (v :: vs) (write (indent + 1) v ++ writeItems (indent + 1) vs) :=
        items_writeItems (phrase_write (indent + 1) v) fun u hu => phrase_write (indent + 1) u
      have ha := Phrase.array (.after '[' (blank_newLine (indent + 1))) hi
        (.before ']' (blank_newLine indent))
      simpa [write] using ha
  | object members =>
    cases members with
    | nil => exact .object (.after '\x7b' blank_nil) .none (.after '\x7d' blank_nil)
    | cons m ms =>
      have hm : Members (m :: ms) _ := members_writeMembers
        (member_write m.1 (phrase_write (indent + 1) m.2)) fun k hk => phrase_write (indent + 1) k.2
      have ho := Phrase.object (.after '\x7b' (blank_newLine (indent + 1))) hm
        (.before '\x7d' (blank_newLine indent))
      simpa [write] using ho
termination_by sizeOf v
decreasing_by
  · exact sizeOf_lt_array List.mem_cons_self
  · exact sizeOf_lt_array (List.mem_cons_of_mem _ hu)
  · exact sizeOf_lt_object List.mem_cons_self
  · exact sizeOf_lt_object (List.mem_cons_of_mem _ hk)

theorem document_text (v : Json) : Document v (text v) :=
  ⟨[], write 0 v, [], blank_nil, phrase_write 0 v, blank_nil, by simp [text]⟩

end BitLayout.Json
