import BitLayout.Proofs.Decoding
import BitLayout.Proofs.Json.Grammar
import BitLayout.Proofs.Json.RoundTrip

/-! # Decoded documents

The JSON that a decoding prints is one document. Read back, it has the names and the values
that the instructions themselves give for the word, each name once.
-/

namespace BitLayout

namespace CommandLine

variable {files : Files} {o : DecodeOptions} {out : String} {is : List Instruction}

/-- The values of a word for some instructions, as an object of objects. -/
def valuesJson (w : Word) (is : List Instruction) : Json :=
  .object (is.map fun i =>
    (i.name, .object (i.parameters.map fun p => (p.name, Json.ofNat (p.value w).toNat))))

theorem decodedJson_decodeAll (hn : (is.map (·.name)).Nodup) (hv : ∀ i ∈ is, i.Valid) (w : Word) :
    decodedJson (decodeAll is w) = valuesJson w is := by
  rw [decodedJson, entries_decodeAll hn, valuesJson, List.map_map]
  congr 1
  refine List.map_congr_left fun i hi => ?_
  simp only [Function.comp, (hv i hi).entries_decode, List.map_map]
  rfl

theorem storable_valuesJson (w : Word) (is : List Instruction) (depth : Nat) :
    Json.Storable (depth + 2) (valuesJson w is) := by
  refine .object fun m hm => ?_
  obtain ⟨i, -, rfl⟩ := List.mem_map.mp hm
  refine .object fun v hv => ?_
  obtain ⟨p, -, rfl⟩ := List.mem_map.mp hv
  exact .word (p.value w).isLt

/-- A decoding that succeeds and is asked for JSON prints one document and ends the line. The
document reads back as an object with a member for each selected instruction, in it one for
each parameter with its value, all in the order of their declaration and no name twice. -/
theorem runDecode_json (hj : o.json = true) (h : runDecode files o = .ok out) :
    ∃ w s is doc, Word.ofText o.word = .ok w ∧ Loads files o.mode o.schema s ∧
      Selects s o.instruction is ∧ out = doc ++ "\n" ∧ Json.Document (valuesJson w is) doc ∧
      Json.read doc = .ok (valuesJson w is) ∧ (is.map (·.name)).Nodup ∧
      ∀ i ∈ is, (i.parameters.map (·.name)).Nodup ∧
        (i.decode w).entries = i.parameters.map fun p => (p.name, p.value w) := by
  obtain ⟨w, s, is, hw, hs, hi, rfl⟩ := runDecode_eq_ok_iff.mp h
  have hn := hi.nodup hs.valid
  have hv : ∀ i ∈ is, i.Valid := fun i hm => hs.valid.values i (hi.mem i hm)
  have hstore := storable_valuesJson w is 125
  refine ⟨w, s, is, _, hw, hs, hi, if_pos hj, ?_⟩
  rw [decodedJson_decodeAll hn hv]
  exact ⟨Json.document_text _, Json.read_text hstore, hn, fun i hm =>
    ⟨(hv i hm).nodup, (hv i hm).entries_decode w⟩⟩

/-- An instruction whose names need escapes, with a parameter that fills the word. -/
def quoting : Instruction where
  name := "a\"\\\n"
  description := none
  parameters := [⟨"\x1f", "+,0-62", none, [⟨63, .const 1 1⟩, ⟨0, .bits 0 62⟩]⟩,
    ⟨"é", "#", none, [⟨0, .const 1 0⟩]⟩]
  architecture := .bits8

theorem runDecode_json_sample :
    let files : Files := fun _ =>
      .ok "[[\"a\\\"\\\\\\n\",\"8bit\",null,[[\"\\u001f\",\"+,0-62\"],[\"é\",\"#\"]]]]"
    let o : DecodeOptions := ⟨"isa", none, .lenient, true, "0xffffffffffffffff"⟩
    let doc := "\x7b\n  \"a\\\"\\\\\\n\": \x7b\n    \"\\u001f\": 18446744073709551615,\n" ++
      "    \"é\": 0\n  \x7d\n\x7d"
    let values : Json := .object [("a\"\\\n", .object
      [("\x1f", .ofNat 18446744073709551615), ("é", .ofNat 0)])]
    runDecode files o = .ok (doc ++ "\n") ∧ Json.Document values doc ∧
      Json.read doc = .ok values := by
  intro files o doc values
  have h : runDecode files o = .ok (doc ++ "\n") := by decide +kernel
  have word : Word.ofText o.word = .ok 0xffffffffffffffff := by decide +kernel
  have loaded : loadSchema files o.mode o.schema = .ok ⟨[(quoting.name, quoting)]⟩ := by
    decide +kernel
  obtain ⟨w, s, is, text, hw, hs, hi, ht, document, back, -⟩ := runDecode_json rfl h
  rw [word] at hw
  cases hw
  rw [← loadSchema_eq_ok_iff, loaded] at hs
  cases hs
  cases hi
  obtain rfl : doc = text := (String.append_left_inj "\n").mp ht
  exact ⟨h, document, back⟩

end CommandLine

end BitLayout
