import Dalvik.Pool.Tables
import Dalvik.Proofs.Utf8Encoding

namespace Dalvik

namespace Mutf8

/-- The bytes of a code unit: as few as it can do with, except that zero takes two. -/
def unitBytes (unit : Nat) : List UInt8 :=
  if unit = 0 then [0xc0, 0x80]
  else if unit < 0x80 then [UInt8.ofNat unit]
  else if unit < 0x800 then [UInt8.ofNat (0xc0 + unit / 0x40), UInt8.ofNat (0x80 + unit % 0x40)]
  else threeBytes unit

/-- A character is written unit by unit. -/
theorem encodeChar_eq (c : Char) : encodeChar c = (Surrogate.unitsOf c).flatMap unitBytes := by
  have valid := toNat_cases c
  unfold encodeChar Surrogate.unitsOf
  by_cases zero : c.toNat = 0
  · rw [if_pos zero, if_pos (by omega), List.flatMap_singleton, unitBytes, if_pos zero]
  rw [if_neg zero]
  by_cases basic : c.toNat < 0x10000
  · rw [if_pos basic, if_pos basic, List.flatMap_singleton, unitBytes, if_neg zero]
    split
    · exact Utf8.encode_one ‹_›
    · split
      · exact Utf8.encode_two (by omega) ‹_›
      · exact Utf8.encode_three (by omega) basic
  · have high := Surrogate.isHigh_highOf (Nat.not_lt.mp basic)
    have low := Surrogate.isLow_lowOf c
    unfold Surrogate.IsHigh at high
    unfold Surrogate.IsLow at low
    have three {unit : Nat} (large : 0x800 ≤ unit) : unitBytes unit = threeBytes unit := by
      rw [unitBytes, if_neg (by omega), if_neg (by omega), if_neg (by omega)]
    rw [if_neg basic, if_neg basic, List.flatMap_cons, List.flatMap_singleton, three (by omega), three (by omega)]

theorem isTrail_ofNat {n : Nat} (small : n < 0x40) : IsTrail (UInt8.ofNat (0x80 + n)) := by
  rw [IsTrail, Utf8.toNat_ofNat_byte (by omega)]
  omega

theorem units?_one {a : UInt8} (inside : 0 < a.toNat ∧ a.toNat < 0x80) (rest : List UInt8) :
    units? (a :: rest) = (units? rest).map (a.toNat :: ·) := by
  rw [units?.eq_def]
  exact if_pos inside

theorem units?_unitBytes {unit : Nat} (narrow : unit < 0x10000) (rest : List UInt8) :
    units? (unitBytes unit ++ rest) = (units? rest).map (unit :: ·) := by
  unfold unitBytes
  split
  · rename_i zero
    rw [zero, List.cons_append, List.singleton_append, units?, if_neg (by decide), if_pos (by decide)]
    exact if_pos (by decide)
  split
  · have value : (UInt8.ofNat unit).toNat = unit := Utf8.toNat_ofNat_byte (by omega)
    rw [List.singleton_append, units?_one (by omega), value]
  have last : (UInt8.ofNat (0x80 + unit % 0x40)).toNat = 0x80 + unit % 0x40 := Utf8.toNat_ofNat_byte (by omega)
  have lastTrail : IsTrail (UInt8.ofNat (0x80 + unit % 0x40)) := isTrail_ofNat (by omega)
  split
  · have first : (UInt8.ofNat (0xc0 + unit / 0x40)).toNat = 0xc0 + unit / 0x40 := Utf8.toNat_ofNat_byte (by omega)
    have whole : (0xc0 + unit / 0x40 - 0xc0) * 0x40 + (0x80 + unit % 0x40) % 0x40 = unit := by omega
    rw [List.cons_append, List.singleton_append, units?, first, if_neg (by omega), if_pos (by omega)]
    simp only [last, whole]
    rw [if_pos ⟨lastTrail, by omega⟩]
  · have first : (UInt8.ofNat (0xe0 + unit / 0x1000)).toNat = 0xe0 + unit / 0x1000 :=
      Utf8.toNat_ofNat_byte (by omega)
    have middle : (UInt8.ofNat (0x80 + unit / 0x40 % 0x40)).toNat = 0x80 + unit / 0x40 % 0x40 :=
      Utf8.toNat_ofNat_byte (by omega)
    have whole : (0xe0 + unit / 0x1000 - 0xe0) * 0x1000 + (0x80 + unit / 0x40 % 0x40) % 0x40 * 0x40 +
        (0x80 + unit % 0x40) % 0x40 = unit := by omega
    rw [threeBytes, List.cons_append, List.cons_append, List.singleton_append, units?, first, if_neg (by omega),
      if_neg (by omega), if_pos (by omega)]
    simp only [middle, last, whole]
    rw [if_pos ⟨isTrail_ofNat (by omega), lastTrail, by omega⟩]

theorem unitBytes_one {a : UInt8} (inside : 0 < a.toNat ∧ a.toNat < 0x80) : unitBytes a.toNat = [a] := by
  rw [unitBytes, if_neg (by omega), if_pos inside.2, UInt8.ofNat_toNat]

theorem unitBytes_two {a b : UInt8} (lead : 0xc0 ≤ a.toNat ∧ a.toNat < 0xe0) (trail : IsTrail b)
    (short : (a.toNat - 0xc0) * 0x40 + b.toNat % 0x40 = 0 ∨ 0x80 ≤ (a.toNat - 0xc0) * 0x40 + b.toNat % 0x40) :
    unitBytes ((a.toNat - 0xc0) * 0x40 + b.toNat % 0x40) = [a, b] := by
  unfold IsTrail at trail
  rcases short with zero | large
  · have first : a = 0xc0 := UInt8.toNat_inj.mp (show a.toNat = 0xc0 by omega)
    have second : b = 0x80 := UInt8.toNat_inj.mp (show b.toNat = 0x80 by omega)
    rw [unitBytes, if_pos zero, first, second]
  · rw [unitBytes, if_neg (by omega), if_neg (by omega), if_pos (by omega), Utf8.ofNat_eq a (by omega),
      Utf8.ofNat_eq b (by omega)]

theorem unitBytes_three {a b c : UInt8} (lead : 0xe0 ≤ a.toNat ∧ a.toNat < 0xf0) (trail : IsTrail b)
    (trail' : IsTrail c) (short : 0x800 ≤ (a.toNat - 0xe0) * 0x1000 + b.toNat % 0x40 * 0x40 + c.toNat % 0x40) :
    unitBytes ((a.toNat - 0xe0) * 0x1000 + b.toNat % 0x40 * 0x40 + c.toNat % 0x40) = [a, b, c] := by
  unfold IsTrail at trail trail'
  rw [unitBytes, if_neg (by omega), if_neg (by omega), if_neg (by omega), threeBytes, Utf8.ofNat_eq a (by omega),
    Utf8.ofNat_eq b (by omega), Utf8.ofNat_eq c (by omega)]

/-- Bytes that denote code units are those of the units. -/
theorem eq_unitBytes_of_units? {bytes : List UInt8} {units : List Nat} (read : units? bytes = some units) :
    bytes = units.flatMap unitBytes ∧ ∀ unit ∈ units, unit < 0x10000 := by
  fun_induction units? bytes generalizing units with
  | case1 =>
    cases read
    exact ⟨rfl, List.forall_mem_nil _⟩
  | case2 a rest inside ih =>
    obtain ⟨later, readLater, rfl⟩ := Option.map_eq_some_iff.mp read
    obtain ⟨bytes, narrow⟩ := ih readLater
    refine ⟨?_, List.forall_mem_cons.mpr ⟨by omega, narrow⟩⟩
    rw [List.flatMap_cons, unitBytes_one inside, ← bytes, List.singleton_append]
  | case3 a _ lead b rest unit short =>
    rename_i ih
    obtain ⟨later, readLater, rfl⟩ := Option.map_eq_some_iff.mp read
    obtain ⟨bytes, narrow⟩ := ih readLater
    refine ⟨?_, List.forall_mem_cons.mpr ⟨by omega, narrow⟩⟩
    rw [List.flatMap_cons, unitBytes_two lead short.1 short.2, ← bytes]
    rfl
  | case6 a _ _ lead b c rest unit short =>
    rename_i ih
    obtain ⟨later, readLater, rfl⟩ := Option.map_eq_some_iff.mp read
    obtain ⟨bytes, narrow⟩ := ih readLater
    refine ⟨?_, List.forall_mem_cons.mpr ⟨by omega, narrow⟩⟩
    rw [List.flatMap_cons, unitBytes_three lead short.1 short.2.1 short.2.2, ← bytes]
    rfl
  | case4 | case5 | case7 | case8 | case9 => cases read

theorem units?_flatMap_unitBytes {units : List Nat} (narrow : ∀ unit ∈ units, unit < 0x10000) :
    units? (units.flatMap unitBytes) = some units := by
  induction units with
  | nil => rw [List.flatMap_nil, units?]
  | cons unit units ih =>
    obtain ⟨first, later⟩ := List.forall_mem_cons.mp narrow
    rw [List.flatMap_cons, units?_unitBytes first, ih later, Option.map_some]

theorem encode_eq (text : String) : encode text = (text.toList.flatMap Surrogate.unitsOf).flatMap unitBytes := by
  rw [encode, List.flatMap_assoc]
  exact List.flatMap_congr fun c _ => encodeChar_eq c

/-- The bytes of a text and no others are decoded to it. -/
theorem decode?_eq_some_iff {bytes : List UInt8} {text : String} :
    decode? bytes = some text ↔ bytes = encode text := by
  rw [encode_eq, decode?, Option.map_eq_some_iff]
  constructor
  · rintro ⟨chars, joined, rfl⟩
    obtain ⟨units, read, joined⟩ := Option.bind_eq_some_iff.mp joined
    obtain ⟨bytesOf, narrow⟩ := eq_unitBytes_of_units? read
    rw [String.toList_ofList, ← Surrogate.eq_unitsOf_of_join? narrow joined, bytesOf]
  · rintro rfl
    have narrow : ∀ unit ∈ text.toList.flatMap Surrogate.unitsOf, unit < 0x10000 := by
      intro unit member
      obtain ⟨c, _, ofChar⟩ := List.mem_flatMap.mp member
      exact Surrogate.unitsOf_narrow ofChar
    refine ⟨text.toList, ?_, String.ofList_toList⟩
    rw [units?_flatMap_unitBytes narrow, Option.bind_some, Surrogate.join?_unitsOf]

theorem encodeChar_ne_nil (c : Char) : encodeChar c ≠ [] := by
  unfold encodeChar
  split
  · exact List.cons_ne_nil _ _
  · split
    · exact String.utf8EncodeChar_ne_nil
    · exact List.cons_ne_nil _ _

/-- The bytes of a character in modified UTF-8 are those of a character in UTF-8 only if they are those of the
same one: zero begins with a byte that begins no character, and a surrogate is none. -/
theorem eq_of_pieces_encodeChar {c c' : Char} {rest : List UInt8} {later : List (Option Char)}
    (cut : Utf8.pieces (encodeChar c ++ rest) = some c' :: later) : c = c' ∧ Utf8.pieces rest = later := by
  unfold encodeChar at cut
  split at cut
  · rw [List.cons_append, Utf8.pieces, Utf8.first?_none (by decide)] at cut
    cases cut
  · split at cut
    · rw [Utf8.pieces_utf8EncodeChar] at cut
      obtain ⟨same, laterSame⟩ := List.cons.inj cut
      exact ⟨Option.some.inj same, laterSame⟩
    · rename_i beyond
      have high := Surrogate.isHigh_highOf (Nat.not_lt.mp beyond)
      unfold Surrogate.IsHigh at high
      rw [threeBytes, List.append_assoc, List.cons_append, List.cons_append, Utf8.pieces_surrogate] at cut
      · cases cut
      · rw [Utf8.toNat_ofNat_byte (by omega)]
        omega
      · rw [Utf8.toNat_ofNat_byte (by omega)]
        omega

theorem eq_of_pieces_encode {chars chars' : List Char}
    (cut : Utf8.pieces (chars.flatMap encodeChar) = chars'.map some) : chars = chars' := by
  induction chars generalizing chars' with
  | nil =>
    rw [List.flatMap_nil, Utf8.pieces] at cut
    exact (List.map_eq_nil_iff.mp cut.symm).symm
  | cons c chars ih =>
    rw [List.flatMap_cons] at cut
    cases chars' with
    | nil => exact absurd (List.append_eq_nil_iff.mp (Utf8.pieces_eq_nil cut)).1 (encodeChar_ne_nil c)
    | cons c' chars' =>
      obtain ⟨first, later⟩ := eq_of_pieces_encodeChar cut
      rw [first, ih later]

/-- Bytes that are a text in both encodings are the same text. -/
theorem eq_of_encode_eq {text text' : String} (same : encode text = Utf8.encode text') : text = text' := by
  rw [encode, Utf8.encode, ← Utf8.pieces_eq_map_some_iff] at same
  exact String.toList_inj.mp (eq_of_pieces_encode same)

end Mutf8

namespace NameTables

/-- String data is accepted exactly in the two encodings of its text. -/
theorem stringOfData?_eq_some_iff {data : List UInt8} {text : String} :
    stringOfData? data = some text ↔ data = Utf8.encode text ∨ data = Mutf8.encode text := by
  rw [stringOfData?, Option.or_eq_some_iff, Utf8.decode?_eq_some_iff, Mutf8.decode?_eq_some_iff]
  constructor
  · exact Or.imp_right And.right
  · rintro (utf8 | mutf8)
    · exact Or.inl utf8
    · cases decoded : Utf8.decode? data with
      | none => exact Or.inr ⟨rfl, mutf8⟩
      | some text' =>
        have utf8 := Utf8.decode?_eq_some_iff.mp decoded
        rw [Mutf8.eq_of_encode_eq (mutf8.symm.trans utf8)]
        exact Or.inl utf8

end NameTables

/-- The events that are warnings. -/
def Logged.warnings {α : Type} (logged : Logged α) : List Event := logged.log.filter (·.level = .warn)

/-- String data is stored as a text, without a warning, exactly if it is the UTF-8 or the modified UTF-8 of the
text. Data that is neither for any text is stored with the replacement character in it, under one warning that
names the entry. -/
theorem addStringData_accepts (t : NameTables) (data : List UInt8) :
    (∀ text, (t.addStringData data).warnings = [] ∧
        (t.addStringData data).value.1 = { t with strings := t.strings.push text } ↔
      data = Utf8.encode text ∨ data = Mutf8.encode text) ∧
    ((∀ text, data ≠ Utf8.encode text ∧ data ≠ Mutf8.encode text) →
      (t.addStringData data).warnings.map Event.message =
        ["[pool] string #" ++ decimal t.strings.size ++ " is not valid MUTF-8, decoding lossily"] ∧
      ∃ text, (t.addStringData data).value.1 = { t with strings := t.strings.push text } ∧
        '\uFFFD' ∈ text.toList) := by
  constructor
  · intro text
    rw [← NameTables.stringOfData?_eq_some_iff]
    unfold NameTables.addStringData
    cases read : NameTables.stringOfData? data with
    | none =>
      refine ⟨fun ⟨quiet, _⟩ => ?_, fun accepted => by cases accepted⟩
      cases quiet
    | some text' =>
      constructor
      · rintro ⟨_, stored⟩
        have strings : t.strings.push text' = t.strings.push text := congrArg NameTables.strings stored
        rw [Array.push_inj_right.mp strings]
      · intro same
        cases same
        exact ⟨rfl, rfl⟩
  · intro neither
    have rejected : NameTables.stringOfData? data = none := by
      refine Option.eq_none_iff_forall_ne_some.mpr fun text read => ?_
      rcases NameTables.stringOfData?_eq_some_iff.mp read with utf8 | mutf8
      · exact (neither text).1 utf8
      · exact (neither text).2 mutf8
    have notUtf8 : Utf8.decode? data = none :=
      Option.eq_none_iff_forall_ne_some.mpr fun text read => (neither text).1 (Utf8.decode?_eq_some_iff.mp read)
    rw [NameTables.addStringData, rejected]
    exact ⟨rfl, _, rfl, Utf8.replacement_mem_decodeLossy notUtf8⟩

/-- Zero and a character beyond the basic plane in modified UTF-8, and data that mixes the encodings. -/
theorem addStringData_accepts_zero :
    let t : NameTables := { strings := #["hello"] }
    let modified : List UInt8 := [0x61, 0xc0, 0x80, 0xed, 0xa0, 0xbd, 0xed, 0xb8, 0x80]
    let mixed : List UInt8 := [0xf0, 0x9f, 0x98, 0x80, 0xc0, 0x80]
    ((t.addStringData modified).warnings = [] ∧
      (t.addStringData modified).value.1 = { t with strings := t.strings.push "a\x00😀" }) ∧
    (t.addStringData mixed).warnings.map Event.message =
      ["[pool] string #" ++ decimal 1 ++ " is not valid MUTF-8, decoding lossily"] := by
  intro t modified mixed
  refine ⟨((addStringData_accepts t modified).1 "a\x00😀").mpr (Or.inr (by decide)), ?_⟩
  refine ((addStringData_accepts t mixed).2 fun text => ⟨fun utf8 => ?_, fun mutf8 => ?_⟩).1
  · have read := Utf8.decode?_eq_some_iff.mpr utf8
    have unread : Utf8.decode? mixed = none := by decide +kernel
    rw [unread] at read
    cases read
  · have read := Mutf8.decode?_eq_some_iff.mpr mutf8
    have unread : Mutf8.decode? mixed = none := by decide
    rw [unread] at read
    cases read

end Dalvik
