import Dalvik.Json.Codec
import Dalvik.Proofs.JsonReading
import Mathlib.Data.List.Nodup

namespace Dalvik

namespace Json

theorem text?_text (value : String) : (text value).text? = some value := rfl

theorem integer?_integer (value : Int) : (integer value).integer? = some value := rfl

theorem natBelow?_integer {n bound : Nat} (small : n < bound) : (integer n).natBelow? bound = some n := by
  have inRange : (0 : Int) ≤ n ∧ (n : Int) < bound := by omega
  rw [natBelow?, integer?_integer]
  exact if_pos inRange

theorem uint16?_integer (n : UInt16) : (integer n.toNat).uint16? = some n := by
  rw [uint16?, natBelow?_integer n.toNat_lt, Option.map_some, UInt16.ofNat_toNat]

theorem uint32?_integer (n : UInt32) : (integer n.toNat).uint32? = some n := by
  rw [uint32?, natBelow?_integer n.toNat_lt, Option.map_some, UInt32.ofNat_toNat]

theorem int64?_integer (v : Int64) : (integer v.toInt).int64? = some v := by
  have inRange : -0x8000000000000000 ≤ v.toInt ∧ v.toInt < 0x8000000000000000 := ⟨v.le_toInt, v.toInt_lt⟩
  rw [int64?, integer?_integer]
  refine (if_pos inRange).trans ?_
  rw [Int64.ofInt_toInt]

theorem unique?_of_mem {members : List (String × Json)} (distinct : (members.map Prod.fst).Nodup) {key : String}
    {value : Json} (member : (key, value) ∈ members) :
    unique? (members.map fun (key, value) => (some key, value)) key = some value := by
  have found : (members.map fun (key, value) => (some key, value)).filter (·.1 = some key) =
      [(some key, value)] := by
    obtain ⟨front, back, rfl⟩ := List.append_of_mem member
    rw [List.map_append, List.map_cons, List.nodup_middle, List.nodup_cons, List.mem_append, not_or] at distinct
    obtain ⟨⟨absentBefore, absentAfter⟩, -⟩ := distinct
    have skips {others : List (String × Json)} (absent : key ∉ others.map Prod.fst) :
        (others.map fun (key, value) => (some key, value)).filter (·.1 = some key) = [] := by
      rw [List.filter_map, List.map_eq_nil_iff, List.filter_eq_nil_iff]
      rintro ⟨other, _⟩ inside same
      obtain rfl : other = key := by simpa using same
      exact absent (List.mem_map_of_mem inside)
    rw [List.map_append, List.map_cons, List.filter_append, skips absentBefore,
      List.filter_cons_of_pos (by simp), skips absentAfter, List.nil_append]
  rw [unique?, found]

theorem mapM_unique? {members part : List (String × Json)} (distinct : (members.map Prod.fst).Nodup)
    (within : part ⊆ members) :
    (part.map Prod.fst).mapM (unique? (members.map fun (key, value) => (some key, value))) =
      some (part.map Prod.snd) := by
  induction part with
  | nil => rfl
  | cons first part ih =>
    obtain ⟨member, within⟩ := List.cons_subset.mp within
    rw [List.map_cons, List.mapM_cons, unique?_of_mem distinct member, ih within]
    rfl

/-- The values of an object with distinct keys are found under these keys. -/
theorem fields?_fields (members : List (String × Json)) (distinct : (members.map Prod.fst).Nodup) :
    (fields members).fields? (members.map Prod.fst) = some (members.map Prod.snd) := by
  have known : (members.map fun (key, value) => (some key, value)).all (·.1.isSome) = true := by simp
  exact (if_pos known).trans (mapM_unique? distinct (List.Subset.refl members))

/-- Items that are read back one by one are read back as a list. -/
theorem list?_array {α : Type} {toJson : α → Json} {ofJson? : Json → Option α}
    (reads : ∀ x, ofJson? (toJson x) = some x) (xs : List α) : (array (xs.map toJson)).list? ofJson? = some xs := by
  show (xs.map toJson).mapM ofJson? = some xs
  have same : ofJson? ∘ toJson = fun x => pure (id x) := funext reads
  rw [List.mapM_map, same, List.mapM_pure, List.map_id, Option.pure_def]

end Json

theorem Format.ofJson?_toJson (f : Format) : Format.ofJson? f.toJson = some f := by
  cases f <;> rfl

theorem ReferenceKind.ofJson?_toJson (kind : ReferenceKind) : ReferenceKind.ofJson? kind.toJson = some kind := by
  cases kind <;> rfl

namespace Operand

theorem highOfJson?_fields (bits : UInt16) (wide : Bool) :
    highOfJson? (.fields [("bits", .integer bits.toNat), ("wide", .bool wide)]) = some (high bits wide) := by
  have found : (Json.fields [("bits", .integer bits.toNat), ("wide", .bool wide)]).fields? ["bits", "wide"] =
      some [.integer bits.toNat, .bool wide] := Json.fields?_fields [("bits", _), ("wide", _)] (by simp)
  unfold highOfJson?
  rw [found, Option.bind_eq_bind, Option.bind_some]
  show (Json.integer bits.toNat).uint16?.bind (fun bits => some (high bits wide)) = some (high bits wide)
  rw [Json.uint16?_integer, Option.bind_some]

theorem referenceOfJson?_fields (kind : ReferenceKind) (index : UInt32) (name : String) :
    referenceOfJson? (.fields [("kind", kind.toJson), ("index", .integer index.toNat), ("name", .text name)]) =
      some (reference kind index name) := by
  have found : (Json.fields [("kind", kind.toJson), ("index", .integer index.toNat), ("name", .text name)]).fields?
      ["kind", "index", "name"] = some [kind.toJson, .integer index.toNat, .text name] :=
    Json.fields?_fields [("kind", _), ("index", _), ("name", _)] (by simp)
  simp only [referenceOfJson?, found, Option.bind_eq_bind, Option.bind_some, kind.ofJson?_toJson,
    Json.uint32?_integer, Json.text?_text, Option.pure_def]

theorem ofJson?_toJson (operand : Operand) : ofJson? operand.toJson = some operand := by
  cases operand with
  | register number =>
    show (Json.integer number.toNat).uint16?.map register = some (register number)
    rw [Json.uint16?_integer, Option.map_some]
  | literal value =>
    show (Json.integer value.toInt).int64?.map literal = some (literal value)
    rw [Json.int64?_integer, Option.map_some]
  | high bits wide => exact highOfJson?_fields bits wide
  | target address =>
    show (Json.integer address.toInt).int64?.map target = some (target address)
    rw [Json.int64?_integer, Option.map_some]
  | farTarget address =>
    show (Json.integer address.toInt).int64?.map farTarget = some (farTarget address)
    rw [Json.int64?_integer, Option.map_some]
  | reference kind index name => exact referenceOfJson?_fields kind index name

end Operand

theorem TextRecord.ofJson?_toJson (r : TextRecord) : TextRecord.ofJson? r.toJson = some r := by
  have found : r.toJson.fields? ["mnemonic", "format", "operands"] =
      some [.text r.mnemonic, r.format.toJson, .array (r.operands.map Json.text)] :=
    Json.fields?_fields [("mnemonic", _), ("format", _), ("operands", _)] (by simp)
  simp only [ofJson?, found, Option.bind_eq_bind, Option.bind_some, Json.text?_text, r.format.ofJson?_toJson,
    Json.list?_array Json.text?_text, Option.pure_def]

namespace Json

/-- What is read back from its tree is read back from the text of that tree, with or without blanks around it. -/
theorem bind_parse?_render {α : Type} {toJson : α → Json} {ofJson? : Json → Option α}
    (reads : ∀ x, ofJson? (toJson x) = some x) {before after : String}
    (blankBefore : ∀ c ∈ before.toList, c ∈ [' ', '\t', '\n', '\r'])
    (blankAfter : ∀ c ∈ after.toList, c ∈ [' ', '\t', '\n', '\r']) (x : α) :
    (parse? (before ++ (toJson x).render ++ after)).bind ofJson? = some x := by
  have blank : ∀ c ∈ [' ', '\t', '\n', '\r'], isBlank c = true := by simp [isBlank]
  rw [parse?_render (toJson x) (fun c member => blank c (blankBefore c member))
    (fun c member => blank c (blankAfter c member)), Option.bind_some, reads]

end Json

/-- Operands, records and lists of either are read back from their text, with any blanks before and after it. -/
theorem json_round_trip {before after : String}
    (blankBefore : ∀ c ∈ before.toList, c ∈ [' ', '\t', '\n', '\r'])
    (blankAfter : ∀ c ∈ after.toList, c ∈ [' ', '\t', '\n', '\r']) :
    (∀ operand : Operand,
      (Json.parse? (before ++ operand.toJson.render ++ after)).bind Operand.ofJson? = some operand) ∧
    (∀ record : TextRecord,
      (Json.parse? (before ++ record.toJson.render ++ after)).bind TextRecord.ofJson? = some record) ∧
    (∀ operands : List Operand,
      (Json.parse? (before ++ (Json.array (operands.map Operand.toJson)).render ++ after)).bind
        (·.list? Operand.ofJson?) = some operands) ∧
    (∀ records : List TextRecord,
      (Json.parse? (before ++ (Json.array (records.map TextRecord.toJson)).render ++ after)).bind
        (·.list? TextRecord.ofJson?) = some records) := by
  refine ⟨?_, ?_, ?_, ?_⟩
  · exact Json.bind_parse?_render Operand.ofJson?_toJson blankBefore blankAfter
  · exact Json.bind_parse?_render TextRecord.ofJson?_toJson blankBefore blankAfter
  · exact Json.bind_parse?_render (Json.list?_array Operand.ofJson?_toJson) blankBefore blankAfter
  · exact Json.bind_parse?_render (Json.list?_array TextRecord.ofJson?_toJson) blankBefore blankAfter

/-- The texts are written out in full, between blanks of each kind. -/
theorem json_round_trip_escapes :
    (∀ c ∈ " \n".toList, c ∈ [' ', '\t', '\n', '\r']) ∧ (∀ c ∈ "\r\t".toList, c ∈ [' ', '\t', '\n', '\r']) ∧
    (Json.parse? (" \n\x7b\"Reference\":\x7b\"kind\":\"String\",\"index\":4294967295," ++
      "\"name\":\"a\\\"\\\\\\n\\u0001é\"\x7d\x7d\r\t")).bind Operand.ofJson? =
        some (.reference .string 0xffffffff "a\"\\\n\x01é") ∧
    (Json.parse? (" \n\x7b\"mnemonic\":\"\",\"format\":\"Format10x\",\"operands\":[]\x7d\r\t")).bind
      TextRecord.ofJson? = some ⟨"", .f10x, []⟩ ∧
    (Json.parse? (" \n[\x7b\"Literal\":-9223372036854775808\x7d," ++
      "\x7b\"HighLiteral\":\x7b\"bits\":0,\"wide\":true\x7d\x7d]\r\t")).bind (·.list? Operand.ofJson?) =
        some [.literal Int64.minValue, .high 0 true] ∧
    (Json.parse? " \n[]\r\t").bind (·.list? TextRecord.ofJson?) = some [] := by
  have before : ∀ c ∈ " \n".toList, c ∈ [' ', '\t', '\n', '\r'] := by simp
  have after : ∀ c ∈ "\r\t".toList, c ∈ [' ', '\t', '\n', '\r'] := by simp
  obtain ⟨operand, record, operands, records⟩ := json_round_trip before after
  refine ⟨before, after, ?_, ?_, ?_, ?_⟩
  · refine Eq.trans (congrArg (fun text => (Json.parse? text).bind Operand.ofJson?) ?_) (operand _)
    decide +kernel
  · refine Eq.trans (congrArg (fun text => (Json.parse? text).bind TextRecord.ofJson?) ?_) (record _)
    decide +kernel
  · refine Eq.trans (congrArg (fun text => (Json.parse? text).bind (·.list? Operand.ofJson?)) ?_) (operands _)
    decide +kernel
  · refine Eq.trans (congrArg (fun text => (Json.parse? text).bind (·.list? TextRecord.ofJson?)) ?_) (records _)
    decide +kernel

end Dalvik
