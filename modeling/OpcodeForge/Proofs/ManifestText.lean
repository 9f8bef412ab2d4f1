import OpcodeForge.Manifest
import OpcodeForge.Proofs.Json

/-!
# Manifests as text

The text of a manifest is read back as the manifest, whatever its entries are.
-/

namespace OpcodeForge

/-! ## Records -/

namespace Json

/-- The object that the text of an object with these keys is read as. -/
def Value.keyed (members : List (String × Value)) : Value :=
  .object (members.map fun member => (Units.respell member.1, member.2))

theorem fields?_keyed (keys : List String) (members : List (String × Value)) :
    fields? .extensible keys (.keyed members) = keys.mapM (single? members) := by
  have hkeyed : keyed? (members.map fun member => (Units.respell member.1, member.2)) =
      some members := by
    refine Generated.mapM_eq_some_of_forall₂ ?_
    rw [List.forall₂_map_left_iff, List.forall₂_same]
    intro member _
    simp [decode_respell]
  simp only [Value.keyed, fields?, hkeyed, Option.bind_eq_bind, Option.bind_some]
  rfl

theorem memberReadsAs {value value' : Value} (key : String) (h : value.ReadsAs value') :
    MemberReadsAs (Units.ofString key, value) (Units.respell key, value') :=
  ⟨⟨key, rfl, rfl⟩, h⟩

end Json

/-! ## Widths and bytes -/

theorem Width.ofJson?_respell (width : Width) :
    Width.ofJson? (.string (Json.Units.respell width.typeName)) = some width := by
  rw [Width.ofJson?]
  · rw [Json.string?_respell]
    cases width <;> rfl
  · intro key hkey
    cases hkey

theorem Json.natural?_toDigits (n : Nat) :
    (Json.Value.number (Nat.toDigits 10 n)).natural? = some n := by
  have hdigits : ∀ c ∈ Nat.toDigits 10 n, c.isDigit = true := fun c hc =>
    Nat.isDigit_of_mem_toDigits (by decide) (by decide) hc
  have hall : Json.isDigits (Nat.toDigits 10 n) = true := by
    cases h : Nat.toDigits 10 n with
    | nil => exact absurd h Nat.toDigits_ne_nil
    | cons c cs =>
        rw [h] at hdigits
        exact List.all_eq_true.mpr hdigits
  rw [Json.Value.natural?, if_pos hall]
  exact congrArg some Nat.ofDigitChars_ten_toDigits

theorem byte?_toDigits (byte : UInt8) :
    byte? (.number (Nat.toDigits 10 byte.toNat)) = some byte := by
  rw [byte?, Json.natural?_toDigits, Option.bind_some, if_pos byte.toNat_lt, UInt8.ofNat_toNat]

theorem Json.isNumber_toDigits : ∀ n < 256, Json.isNumber (Nat.toDigits 10 n) = true := by
  decide +kernel

theorem Json.readsAs_byte (byte : UInt8) :
    (Json.Value.ofNat byte.toNat).ReadsAs (.number (Nat.toDigits 10 byte.toNat)) := by
  refine Json.readsAs_number (Json.isNumber_toDigits _ byte.toNat_lt) fun c hc => ?_
  have hdigit : c.isDigit = true := Nat.isDigit_of_mem_toDigits (by decide) (by decide) hc
  simp [Json.isNumberChar, hdigit]

/-! ## Entries and manifests -/

namespace Manifest

/-- The document that the text of an entry is read as. -/
def Entry.respelled (entry : Entry) : Json.Value :=
  .keyed [("name", .string (Json.Units.respell entry.name)),
    ("ordinal", .number (Nat.toDigits 10 entry.ordinal.toNat)),
    ("operands",
      .array (entry.operands.map fun width => .string (Json.Units.respell width.typeName)))]

theorem Entry.readsAs_toJson (entry : Entry) : entry.toJson.ReadsAs entry.respelled := by
  refine .object (.cons (Json.memberReadsAs _ (Json.readsAs_string _))
    (.cons (Json.memberReadsAs _ (Json.readsAs_byte _))
      (.cons (Json.memberReadsAs _ (.array ?_)) .nil)))
  rw [List.forall₂_map_left_iff, List.forall₂_map_right_iff, List.forall₂_same]
  exact fun width _ => Json.readsAs_string _

theorem Entry.ofJson?_respelled (entry : Entry) : Entry.ofJson? entry.respelled = some entry := by
  have hoperands : (entry.operands.map fun width =>
      Json.Value.string (Json.Units.respell width.typeName)).mapM Width.ofJson? =
        some entry.operands := by
    refine Generated.mapM_eq_some_of_forall₂ ?_
    rw [List.forall₂_map_left_iff, List.forall₂_same]
    exact fun width _ => Width.ofJson?_respell width
  rw [Entry.ofJson?, Entry.respelled, Json.fields?_keyed]
  simp [Json.single?, Json.required, Json.withDefault, Json.string?_respell, byte?_toDigits,
    Json.Value.list?, hoperands]

theorem ofText_toText (m : Manifest) : ofText m.toText = .ok m := by
  have hreads : m.toJson.ReadsAs (.keyed [("opcodes", .array (m.entries.map Entry.respelled))]) := by
    refine .object (.cons (Json.memberReadsAs _ (.array ?_)) .nil)
    rw [List.forall₂_map_left_iff, List.forall₂_map_right_iff, List.forall₂_same]
    exact fun entry _ => entry.readsAs_toJson
  have hentries : (m.entries.map Entry.respelled).mapM Entry.ofJson? = some m.entries := by
    refine Generated.mapM_eq_some_of_forall₂ ?_
    rw [List.forall₂_map_left_iff, List.forall₂_same]
    exact fun entry _ => entry.ofJson?_respelled
  rw [ofText, toText, Json.parse_print hreads, Option.bind_some, ofJson?, Json.fields?_keyed]
  simp [Json.single?, Json.required, Json.Value.list?, hentries]

/-- A manifest comes back from its text and has that text again, whatever it records: any names,
twice or out of order. So no other manifest has the text. -/
theorem reload_toText (m : Manifest) :
    ofText m.toText = .ok m ∧ (ofText m.toText).map toText = .ok m.toText ∧
      ∀ m' : Manifest, m'.toText = m.toText ↔ m' = m := by
  have hreload := ofText_toText m
  refine ⟨hreload, by rw [hreload]; rfl, fun m' => ⟨fun htext => ?_, congrArg toText⟩⟩
  have hsame : Except.ok m' = Except.ok m :=
    calc Except.ok m'
      _ = ofText m'.toText := (ofText_toText m').symm
      _ = ofText m.toText := by rw [htext]
      _ = Except.ok m := hreload
  exact Except.ok.inj hsame

example : toText ⟨[⟨"\x01\"\\é", 255, [.word]⟩, ⟨"\x01\"\\é", 0, []⟩]⟩ =
    "\x7b\n  \"opcodes\": [\n" ++
      "    \x7b\n      \"name\": \"\\u0001\\\"\\\\é\",\n      \"ordinal\": 255,\n" ++
      "      \"operands\": [\n        \"u16\"\n      ]\n    \x7d,\n" ++
      "    \x7b\n      \"name\": \"\\u0001\\\"\\\\é\",\n      \"ordinal\": 0,\n" ++
      "      \"operands\": []\n    \x7d\n  ]\n\x7d\n" := by
  decide +kernel

end Manifest

end OpcodeForge
