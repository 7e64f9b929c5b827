import Mathlib.Data.List.Forall2
import Dalvik.Proofs.Surrogates
import Dalvik.Text.Utf8

namespace Dalvik

namespace Utf8

def InRange (range : Nat × Nat) (byte : UInt8) : Prop := range.1 ≤ byte.toNat ∧ byte.toNat ≤ range.2

theorem matching_full {ranges : List (Nat × Nat)} {trail : List UInt8} (fit : List.Forall₂ InRange ranges trail)
    (rest : List UInt8) : matching ranges (trail ++ rest) = trail := by
  induction fit with
  | nil => cases rest <;> rfl
  | cons first _ ih => rw [List.cons_append, matching, if_pos (show _ ∧ _ from first), ih]

theorem matching_prefix (ranges : List (Nat × Nat)) (bytes : List UInt8) : matching ranges bytes <+: bytes := by
  fun_induction matching ranges bytes with
  | case1 low high ranges byte rest inside ih => exact List.cons_prefix_cons.mpr ⟨rfl, ih⟩
  | case2 => exact List.nil_prefix
  | case3 => exact List.nil_prefix

theorem forall₂_matching {ranges : List (Nat × Nat)} {bytes : List UInt8}
    (full : (matching ranges bytes).length = ranges.length) :
    List.Forall₂ InRange ranges (matching ranges bytes) := by
  fun_induction matching ranges bytes with
  | case1 low high ranges byte rest inside ih => exact .cons inside (ih (by simpa using full))
  | case2 => cases full
  | case3 ranges bytes notBoth =>
    cases ranges with
    | nil => exact .nil
    | cons range ranges => cases full

/-- A byte and those behind it are the bytes of one character. -/
def Spells (first : UInt8) (trail : List UInt8) (c : Char) : Prop :=
  ∃ bits ranges, first? first.toNat = some (bits, ranges) ∧ List.Forall₂ InRange ranges trail ∧
    c = Char.ofNat (trail.foldl (fun value b => value * 64 + b.toNat % 64) bits)

section First

variable {byte : Nat}

theorem first?_one (small : byte < 0x80) : first? byte = some (byte, []) := by
  rw [first?, if_pos small]

theorem first?_two (lower : 0xc2 ≤ byte) (upper : byte < 0xe0) :
    first? byte = some (byte - 0xc0, [(0x80, 0xbf)]) := by
  rw [first?, if_neg (by omega), if_neg (by omega), if_pos upper]

/-- Behind the least first byte the second one rules out forms that are too long, and behind another one
surrogates. -/
def secondOfThree (byte : Nat) : Nat × Nat :=
  (if byte = 0xe0 then 0xa0 else 0x80, if byte = 0xed then 0x9f else 0xbf)

/-- Behind the least first byte the second one rules out forms that are too long, and behind the greatest one
numbers beyond the last character. -/
def secondOfFour (byte : Nat) : Nat × Nat :=
  (if byte = 0xf0 then 0x90 else 0x80, if byte = 0xf4 then 0x8f else 0xbf)

theorem inRange_secondOfThree {b : UInt8} :
    InRange (secondOfThree byte) b ↔ 0x80 ≤ b.toNat ∧ b.toNat ≤ 0xbf ∧ (byte = 0xe0 → 0xa0 ≤ b.toNat) ∧
      (byte = 0xed → b.toNat ≤ 0x9f) := by
  unfold InRange secondOfThree
  split <;> split <;> omega

theorem inRange_secondOfFour {b : UInt8} :
    InRange (secondOfFour byte) b ↔ 0x80 ≤ b.toNat ∧ b.toNat ≤ 0xbf ∧ (byte = 0xf0 → 0x90 ≤ b.toNat) ∧
      (byte = 0xf4 → b.toNat ≤ 0x8f) := by
  unfold InRange secondOfFour
  split <;> split <;> omega

theorem first?_three (lower : 0xe0 ≤ byte) (upper : byte < 0xf0) :
    first? byte = some (byte - 0xe0, [secondOfThree byte, (0x80, 0xbf)]) := by
  by_cases least : byte = 0xe0
  · rw [least]
    rfl
  · by_cases surrogates : byte = 0xed
    · rw [surrogates]
      rfl
    · rw [first?, if_neg (by omega), if_neg (by omega), if_neg (by omega), if_neg least, if_neg surrogates,
        if_pos upper, secondOfThree, if_neg least, if_neg surrogates]

theorem first?_four (lower : 0xf0 ≤ byte) (upper : byte < 0xf5) :
    first? byte = some (byte - 0xf0, [secondOfFour byte, (0x80, 0xbf), (0x80, 0xbf)]) := by
  by_cases least : byte = 0xf0
  · rw [least]
    rfl
  · by_cases last : byte = 0xf4
    · rw [last]
      rfl
    · rw [first?, if_neg (by omega), if_neg (by omega), if_neg (by omega), if_neg (by omega), if_neg (by omega),
        if_neg (by omega), if_neg least, if_neg last, if_pos (by omega), secondOfFour, if_neg least, if_neg last]

theorem first?_none (outside : 0x80 ≤ byte ∧ byte < 0xc2 ∨ 0xf5 ≤ byte) : first? byte = none := by
  rcases outside with ⟨lower, upper⟩ | beyond
  · rw [first?, if_neg (by omega), if_pos upper]
  · rw [first?, if_neg (by omega), if_neg (by omega), if_neg (by omega), if_neg (by omega), if_neg (by omega),
      if_neg (by omega), if_neg (by omega), if_neg (by omega), if_neg (by omega)]

theorem first?_cases {bits : Nat} {ranges : List (Nat × Nat)} (lead : first? byte = some (bits, ranges)) :
    (byte < 0x80 ∧ bits = byte ∧ ranges = []) ∨
    (0xc2 ≤ byte ∧ byte < 0xe0 ∧ bits = byte - 0xc0 ∧ ranges = [(0x80, 0xbf)]) ∨
    (0xe0 ≤ byte ∧ byte < 0xf0 ∧ bits = byte - 0xe0 ∧ ranges = [secondOfThree byte, (0x80, 0xbf)]) ∨
    (0xf0 ≤ byte ∧ byte < 0xf5 ∧ bits = byte - 0xf0 ∧
      ranges = [secondOfFour byte, (0x80, 0xbf), (0x80, 0xbf)]) := by
  have split {bits' : Nat} {ranges' : List (Nat × Nat)} (known : first? byte = some (bits', ranges')) :
      bits = bits' ∧ ranges = ranges' := by
    rw [lead, Option.some.injEq, Prod.mk.injEq] at known
    exact known
  by_cases one : byte < 0x80
  · exact Or.inl ⟨one, split (first?_one one)⟩
  by_cases two : 0xc2 ≤ byte ∧ byte < 0xe0
  · exact Or.inr (Or.inl ⟨two.1, two.2, split (first?_two two.1 two.2)⟩)
  by_cases three : 0xe0 ≤ byte ∧ byte < 0xf0
  · exact Or.inr (Or.inr (Or.inl ⟨three.1, three.2, split (first?_three three.1 three.2)⟩))
  by_cases four : 0xf0 ≤ byte ∧ byte < 0xf5
  · exact Or.inr (Or.inr (Or.inr ⟨four.1, four.2, split (first?_four four.1 four.2)⟩))
  · rw [first?_none (by omega)] at lead
    cases lead

end First

theorem ofNat_eq {n : Nat} (byte : UInt8) (same : n = byte.toNat) : UInt8.ofNat n = byte := by
  rw [same, UInt8.ofNat_toNat]

theorem toNat_ofNat_byte {n : Nat} (small : n < 0x100) : (UInt8.ofNat n).toNat = n := UInt8.toNat_ofNat_of_lt' small

section Encode

variable {c : Char}

theorem encode_one (small : c.toNat < 0x80) : String.utf8EncodeChar c = [UInt8.ofNat c.toNat] := by
  have value : c.val.toNat = c.toNat := rfl
  rw [String.utf8EncodeChar, value, if_pos (by omega)]

theorem encode_two (lower : 0x80 ≤ c.toNat) (upper : c.toNat < 0x800) :
    String.utf8EncodeChar c = [UInt8.ofNat (0xc0 + c.toNat / 0x40), UInt8.ofNat (0x80 + c.toNat % 0x40)] := by
  have value : c.val.toNat = c.toNat := rfl
  rw [String.utf8EncodeChar, value, if_neg (by omega), if_pos (by omega), Nat.add_comm _ 192, Nat.add_comm _ 128,
    Nat.mod_eq_of_lt (show c.toNat / 64 < 32 by omega)]

theorem encode_three (lower : 0x800 ≤ c.toNat) (upper : c.toNat < 0x10000) :
    String.utf8EncodeChar c = [UInt8.ofNat (0xe0 + c.toNat / 0x1000), UInt8.ofNat (0x80 + c.toNat / 0x40 % 0x40),
      UInt8.ofNat (0x80 + c.toNat % 0x40)] := by
  have value : c.val.toNat = c.toNat := rfl
  rw [String.utf8EncodeChar, value, if_neg (by omega), if_neg (by omega), if_pos (by omega), Nat.add_comm _ 224,
    Nat.add_comm _ 128, Nat.add_comm _ 128, Nat.mod_eq_of_lt (show c.toNat / 4096 < 16 by omega)]

theorem encode_four (lower : 0x10000 ≤ c.toNat) :
    String.utf8EncodeChar c = [UInt8.ofNat (0xf0 + c.toNat / 0x40000), UInt8.ofNat (0x80 + c.toNat / 0x1000 % 0x40),
      UInt8.ofNat (0x80 + c.toNat / 0x40 % 0x40), UInt8.ofNat (0x80 + c.toNat % 0x40)] := by
  have value : c.val.toNat = c.toNat := rfl
  have valid := toNat_cases c
  rw [String.utf8EncodeChar, value, if_neg (by omega), if_neg (by omega), if_neg (by omega), Nat.add_comm _ 240,
    Nat.add_comm _ 128, Nat.add_comm _ 128, Nat.add_comm _ 128,
    Nat.mod_eq_of_lt (show c.toNat / 262144 < 8 by omega)]

end Encode

/-- The bytes of a character are what the encoder writes. -/
theorem Spells.utf8EncodeChar_eq {first : UInt8} {trail : List UInt8} {c : Char} (spells : Spells first trail c) :
    String.utf8EncodeChar c = first :: trail := by
  obtain ⟨bits, ranges, lead, fit, rfl⟩ := spells
  rcases first?_cases lead with ⟨upper, isBits, isRanges⟩ | ⟨lower, upper, isBits, isRanges⟩ |
    ⟨lower, upper, isBits, isRanges⟩ | ⟨lower, upper, isBits, isRanges⟩
  all_goals rw [isRanges] at fit
  all_goals rw [isBits]
  · cases fit
    have value : (Char.ofNat first.toNat).toNat = first.toNat := toNat_ofNat (by omega)
    simp only [List.foldl_nil]
    rw [encode_one (by omega), value, UInt8.ofNat_toNat]
  · match trail, fit with
    | [b], .cons ⟨lowerB, upperB⟩ .nil =>
      simp only [List.foldl_cons, List.foldl_nil] at lowerB upperB ⊢
      have value := toNat_ofNat (n := (first.toNat - 0xc0) * 64 + b.toNat % 64) (by omega)
      rw [encode_two (by omega) (by omega), value, ofNat_eq first (by omega), ofNat_eq b (by omega)]
  · match trail, fit with
    | [b, d], .cons second (.cons ⟨lowerD, upperD⟩ .nil) =>
      have second := inRange_secondOfThree.mp second
      simp only [List.foldl_cons, List.foldl_nil] at lowerD upperD ⊢
      have value := toNat_ofNat (n := ((first.toNat - 0xe0) * 64 + b.toNat % 64) * 64 + d.toNat % 64) (by omega)
      rw [encode_three (by omega) (by omega), value, ofNat_eq first (by omega),
        ofNat_eq b (by omega), ofNat_eq d (by omega)]
  · match trail, fit with
    | [b, d, e], .cons second (.cons ⟨lowerD, upperD⟩ (.cons ⟨lowerE, upperE⟩ .nil)) =>
      have second := inRange_secondOfFour.mp second
      simp only [List.foldl_cons, List.foldl_nil] at lowerD upperD lowerE upperE ⊢
      have value := toNat_ofNat
        (n := (((first.toNat - 0xf0) * 64 + b.toNat % 64) * 64 + d.toNat % 64) * 64 + e.toNat % 64) (by omega)
      rw [encode_four (by omega), value, ofNat_eq first (by omega), ofNat_eq b (by omega),
        ofNat_eq d (by omega), ofNat_eq e (by omega)]

theorem inRange_trail {n : Nat} (small : n < 0x40) : InRange (0x80, 0xbf) (UInt8.ofNat (0x80 + n)) := by
  rw [InRange, toNat_ofNat_byte (by omega)]
  omega

/-- What the encoder writes for a character are its bytes. -/
theorem spells_utf8EncodeChar (c : Char) :
    ∃ first trail, String.utf8EncodeChar c = first :: trail ∧ Spells first trail c := by
  have valid := toNat_cases c
  have ofValue {n : Nat} (same : n = c.toNat) : c = Char.ofNat n := by rw [same, Char.ofNat_toNat]
  have last : c.toNat % 0x40 < 0x40 := Nat.mod_lt _ (by decide)
  by_cases one : c.toNat < 0x80
  · refine ⟨_, _, encode_one one, _, _, first?_one ?_, .nil, ofValue ?_⟩
    all_goals rw [toNat_ofNat_byte (by omega)]
    · exact one
    · exact List.foldl_nil
  by_cases two : c.toNat < 0x800
  · have first : (UInt8.ofNat (0xc0 + c.toNat / 0x40)).toNat = 0xc0 + c.toNat / 0x40 := toNat_ofNat_byte (by omega)
    refine ⟨_, _, encode_two (by omega) two, _, _, first?_two ?_ ?_, .cons (inRange_trail last) .nil, ofValue ?_⟩
    all_goals rw [first]
    · omega
    · omega
    · rw [List.foldl_cons, List.foldl_nil, toNat_ofNat_byte (by omega)]
      omega
  have middle : c.toNat / 0x40 % 0x40 < 0x40 := Nat.mod_lt _ (by decide)
  by_cases three : c.toNat < 0x10000
  · have first : (UInt8.ofNat (0xe0 + c.toNat / 0x1000)).toNat = 0xe0 + c.toNat / 0x1000 :=
      toNat_ofNat_byte (by omega)
    have second : (UInt8.ofNat (0x80 + c.toNat / 0x40 % 0x40)).toNat = 0x80 + c.toNat / 0x40 % 0x40 :=
      toNat_ofNat_byte (by omega)
    refine ⟨_, _, encode_three (by omega) three, _, _, first?_three ?_ ?_,
      .cons (inRange_secondOfThree.mpr ?_) (.cons (inRange_trail last) .nil), ofValue ?_⟩
    all_goals rw [first]
    · omega
    · omega
    · rw [second]
      omega
    · rw [List.foldl_cons, List.foldl_cons, List.foldl_nil, second, toNat_ofNat_byte (by omega)]
      omega
  · have first : (UInt8.ofNat (0xf0 + c.toNat / 0x40000)).toNat = 0xf0 + c.toNat / 0x40000 :=
      toNat_ofNat_byte (by omega)
    have second : (UInt8.ofNat (0x80 + c.toNat / 0x1000 % 0x40)).toNat = 0x80 + c.toNat / 0x1000 % 0x40 :=
      toNat_ofNat_byte (by omega)
    refine ⟨_, _, encode_four (Nat.not_lt.mp three), _, _, first?_four ?_ ?_,
      .cons (inRange_secondOfFour.mpr ?_) (.cons (inRange_trail middle) (.cons (inRange_trail last) .nil)),
      ofValue ?_⟩
    all_goals rw [first]
    · omega
    · omega
    · rw [second]
      omega
    · rw [List.foldl_cons, List.foldl_cons, List.foldl_cons, List.foldl_nil, second, toNat_ofNat_byte (by omega),
        toNat_ofNat_byte (by omega)]
      omega

theorem pieces_spells {first : UInt8} {trail : List UInt8} {c : Char} (spells : Spells first trail c)
    (rest : List UInt8) :
    pieces (first :: (trail ++ rest)) = some c :: pieces rest := by
  obtain ⟨bits, ranges, lead, fit, rfl⟩ := spells
  rw [pieces, lead]
  simp only [matching_full fit, fit.length_eq, if_true, List.drop_left]

/-- The bytes of a character are cut off as one piece. -/
theorem pieces_utf8EncodeChar (c : Char) (rest : List UInt8) :
    pieces (String.utf8EncodeChar c ++ rest) = some c :: pieces rest := by
  obtain ⟨first, trail, bytes, spells⟩ := spells_utf8EncodeChar c
  rw [bytes, List.cons_append, pieces_spells spells]

/-- A piece that is a character holds the bytes of the character. -/
theorem eq_utf8EncodeChar_of_pieces {bytes : List UInt8} {c : Char} {later : List (Option Char)}
    (cut : pieces bytes = some c :: later) :
    ∃ rest, bytes = String.utf8EncodeChar c ++ rest ∧ pieces rest = later := by
  cases bytes with
  | nil =>
    rw [pieces] at cut
    cases cut
  | cons first bytes =>
    rw [pieces] at cut
    cases lead : first? first.toNat with
    | none =>
      rw [lead] at cut
      cases cut
    | some shape =>
      obtain ⟨bits, ranges⟩ := shape
      rw [lead] at cut
      obtain ⟨piece, rfl⟩ := List.cons.inj cut
      split at piece
      · rename_i full
        obtain ⟨rest, whole⟩ := matching_prefix ranges bytes
        have spells : Spells first (matching ranges bytes) c :=
          ⟨bits, ranges, lead, forall₂_matching full, (Option.some.inj piece).symm⟩
        refine ⟨rest, ?_, ?_⟩
        · rw [spells.utf8EncodeChar_eq, List.cons_append, whole]
        · nth_rewrite 2 [← whole]
          rw [List.drop_left]
      · cases piece

/-- A surrogate is no character: its first byte is a piece alone. -/
theorem pieces_surrogate {first second : UInt8} (lead : first.toNat = 0xed) (behind : 0xa0 ≤ second.toNat)
    (rest : List UInt8) : pieces (first :: second :: rest) = none :: pieces (second :: rest) := by
  have shape : first? first.toNat = some (0xd, [(0x80, 0x9f), (0x80, 0xbf)]) := by
    rw [lead]
    rfl
  have noTrail : matching [(0x80, 0x9f), (0x80, 0xbf)] (second :: rest) = [] := by
    rw [matching, if_neg (by omega)]
  rw [pieces, shape]
  simp only [noTrail]
  rfl

theorem pieces_eq_nil {bytes : List UInt8} (none : pieces bytes = []) : bytes = [] := by
  cases bytes with
  | nil => rfl
  | cons first bytes =>
    rw [pieces] at none
    split at none <;> cases none

/-- All pieces are characters exactly if the bytes are those of these characters. -/
theorem pieces_eq_map_some_iff {bytes : List UInt8} {chars : List Char} :
    pieces bytes = chars.map some ↔ bytes = chars.flatMap String.utf8EncodeChar := by
  induction chars generalizing bytes with
  | nil =>
    refine ⟨pieces_eq_nil, ?_⟩
    rintro rfl
    rw [List.flatMap_nil, pieces, List.map_nil]
  | cons c chars ih =>
    rw [List.map_cons, List.flatMap_cons]
    constructor
    · intro cut
      obtain ⟨rest, rfl, later⟩ := eq_utf8EncodeChar_of_pieces cut
      rw [ih.mp later]
    · rintro rfl
      rw [pieces_utf8EncodeChar, ih.mpr rfl]

theorem mapM_id_eq_some_iff {α : Type} {values : List (Option α)} {all : List α} :
    values.mapM id = some all ↔ values = all.map some := by
  induction values generalizing all with
  | nil => cases all <;> simp
  | cons value values ih =>
    rw [List.mapM_cons]
    cases value with
    | none => cases all <;> simp
    | some a =>
      show (values.mapM id).bind (fun later => some (a :: later)) = some all ↔ _
      rw [Option.bind_eq_some_iff]
      constructor
      · rintro ⟨later, found, same⟩
        rw [ih.mp found, ← Option.some.inj same, List.map_cons]
      · intro same
        cases all with
        | nil => cases same
        | cons a' later =>
          obtain ⟨first, rest⟩ := List.cons.inj same
          exact ⟨later, ih.mpr rest, by rw [Option.some.inj first]⟩

theorem decode?_eq_some_iff {bytes : List UInt8} {text : String} :
    decode? bytes = some text ↔ bytes = encode text := by
  rw [encode, ← pieces_eq_map_some_iff, ← mapM_id_eq_some_iff, decode?, Option.map_eq_some_iff]
  constructor
  · rintro ⟨chars, characters, rfl⟩
    rw [String.toList_ofList, characters]
  · intro characters
    exact ⟨text.toList, characters, String.ofList_toList⟩

theorem exists_map_some {α : Type} {values : List (Option α)} (allSome : none ∉ values) :
    ∃ all : List α, values = all.map some := by
  induction values with
  | nil => exact ⟨[], rfl⟩
  | cons value values ih =>
    obtain ⟨first, later⟩ := not_or.mp (mt List.mem_cons.mpr allSome)
    obtain ⟨all, rest⟩ := ih later
    cases value with
    | none => exact absurd rfl first
    | some a => exact ⟨a :: all, by rw [rest, List.map_cons]⟩

/-- Bytes that are those of no text have a piece that is no character. -/
theorem none_mem_pieces {bytes : List UInt8} (notUtf8 : decode? bytes = none) : none ∈ pieces bytes := by
  refine Classical.byContradiction fun allSome => ?_
  obtain ⟨chars, characters⟩ := exists_map_some allSome
  rw [decode?, mapM_id_eq_some_iff.mpr characters] at notUtf8
  cases notUtf8

/-- What is decoded lossily holds the replacement character. -/
theorem replacement_mem_decodeLossy {bytes : List UInt8} (notUtf8 : decode? bytes = none) :
    Char.ofNat 0xfffd ∈ (decodeLossy bytes).toList := by
  rw [decodeLossy, String.toList_ofList]
  exact List.mem_map.mpr ⟨none, none_mem_pieces notUtf8, rfl⟩

end Utf8

end Dalvik
