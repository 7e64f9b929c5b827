import Dalvik.Payload.Scan
import Dalvik.Proofs.Fields

namespace Dalvik

open Reader

namespace PayloadKind

theorem ofMarker?_eq_some_iff {marker : UInt8} {kind : PayloadKind} :
    ofMarker? marker = some kind ↔ marker = kind.marker := by
  constructor
  · intro found
    have same := List.find?_some found
    exact (of_decide_eq_true same).symm
  · rintro rfl
    exact ofMarker?_marker kind

/-- The number of bytes after the marker that the length of a block is computed from. -/
def headerLength : PayloadKind → Nat
  | packedSwitch | sparseSwitch => 2
  | arrayData => 6

/-- The length of the block whose header starts what follows the marker. -/
def blockLength (kind : PayloadKind) (header : List UInt8) : Nat :=
  match kind with
  | packedSwitch => (littleEndian (header.take 2) * 2 + 4) * 2
  | sparseSwitch => (littleEndian (header.take 2) * 4 + 2) * 2
  | arrayData => 8 + (littleEndian (header.take 2) * littleEndian ((header.drop 2).take 4) + 1) / 2 * 2

theorem readLength_full {kind : PayloadKind} {header : List UInt8} (full : kind.headerLength ≤ header.length) :
    kind.readLength.run' header = .ok (kind.blockLength header) := by
  cases kind with
  | packedSwitch | sparseSwitch =>
    simp only [headerLength] at full
    rw [readLength, run'_field_bind, if_neg (by omega)]
    rfl
  | arrayData =>
    simp only [headerLength] at full
    rw [readLength, run'_field_bind, if_neg (by omega), run'_field_bind, if_neg (by rw [List.length_drop]; omega)]
    rfl

theorem readLength_short {kind : PayloadKind} {header : List UInt8} (short : header.length < kind.headerLength) :
    ∃ left, kind.readLength.run' header = .error (.endOfCode left) := by
  cases kind with
  | packedSwitch | sparseSwitch =>
    simp only [headerLength] at short
    rw [readLength, run'_field_bind, if_pos short]
    exact ⟨_, rfl⟩
  | arrayData =>
    simp only [headerLength] at short
    by_cases width : header.length < 2
    · rw [readLength, run'_field_bind, if_pos width]
      exact ⟨_, rfl⟩
    · rw [readLength, run'_field_bind, if_neg width, run'_field_bind, if_pos (by rw [List.length_drop]; omega)]
      exact ⟨_, rfl⟩

/-- A block has room for its header, and ends on a code unit. -/
theorem blockLength_bounds (kind : PayloadKind) (header : List UInt8) :
    kind.headerLength + 2 ≤ kind.blockLength header ∧ kind.blockLength header % 2 = 0 := by
  cases kind <;> simp only [headerLength, blockLength] <;> omega

/-- The length depends on the header alone. -/
theorem blockLength_congr {kind : PayloadKind} {header other : List UInt8}
    (same : other.take kind.headerLength = header.take kind.headerLength) :
    kind.blockLength other = kind.blockLength header := by
  cases kind with
  | packedSwitch | sparseSwitch => simp only [blockLength, show other.take 2 = header.take 2 from same]
  | arrayData =>
    have six : other.take 6 = header.take 6 := same
    have width : other.take 2 = header.take 2 := by
      have inner := congrArg (List.take 2) six
      simpa [List.take_take] using inner
    have count : (other.drop 2).take 4 = (header.drop 2).take 4 := by
      have inner := congrArg (List.drop 2) six
      simpa only [List.drop_take] using inner
    simp only [blockLength, width, count]

end PayloadKind

theorem scanPayload_block (kind : PayloadKind) (header : List UInt8) :
    scanPayload (0 :: kind.marker :: header) =
      (kind.readLength.run' header >>= fun length =>
        if header.length + 2 < length then .error (.truncatedPayload kind length (header.length + 2))
        else .ok (some (kind, length))) := by
  simp only [scanPayload, PayloadKind.ofMarker?_marker]
  congr 1
  funext length
  by_cases short : header.length + 2 < length
  · have all : (0 :: kind.marker :: header).take length = 0 :: kind.marker :: header :=
      List.take_of_length_le (by simp only [List.length_cons]; omega)
    simp only [all, List.length_cons, if_pos short]
  · have full : ¬ ((0 :: kind.marker :: header).take length).length < length := by
      rw [List.length_take, List.length_cons, List.length_cons]
      omega
    rw [if_neg short, if_neg full]

/-- No payload block opens at the front of the code. -/
def IsPlain (rest : List UInt8) : Prop :=
  ∀ (kind : PayloadKind) (header : List UInt8), rest ≠ 0 :: kind.marker :: header

theorem IsPlain.scanPayload {rest : List UInt8} (plain : IsPlain rest) : scanPayload rest = .ok none := by
  unfold Dalvik.scanPayload
  split
  · rename_i marker header
    split
    · rfl
    · rename_i kind found
      rw [PayloadKind.ofMarker?_eq_some_iff.mp found] at plain
      exact absurd rfl (plain kind header)
  · rfl

/-- A block is whole, cut short, or not there at all. -/
theorem scanPayload_cases (rest : List UInt8) :
    (scanPayload rest = .ok none ∧ IsPlain rest) ∨
      ∃ (kind : PayloadKind) (header : List UInt8), rest = 0 :: kind.marker :: header ∧
        ((∃ fault, scanPayload rest = .error fault ∧ fault.kind = .truncatedBuffer) ∨
          kind.headerLength ≤ header.length ∧ kind.blockLength header ≤ rest.length ∧
            scanPayload rest = .ok (some (kind, kind.blockLength header))) := by
  by_cases block : ∃ (kind : PayloadKind) (header : List UInt8), rest = 0 :: kind.marker :: header
  · obtain ⟨kind, header, rfl⟩ := block
    refine Or.inr ⟨kind, header, rfl, ?_⟩
    rw [scanPayload_block]
    by_cases short : header.length < kind.headerLength
    · obtain ⟨left, failed⟩ := PayloadKind.readLength_short short
      rw [failed]
      exact Or.inl ⟨_, rfl, rfl⟩
    · rw [PayloadKind.readLength_full (Nat.not_lt.mp short)]
      by_cases cut : header.length + 2 < kind.blockLength header
      · refine Or.inl ⟨.truncatedPayload kind (kind.blockLength header) (header.length + 2), ?_, rfl⟩
        exact if_pos cut
      · exact Or.inr ⟨Nat.not_lt.mp short, Nat.not_lt.mp cut, if_neg cut⟩
  · have plain : IsPlain rest := fun kind header same => block ⟨kind, header, same⟩
    exact Or.inl ⟨plain.scanPayload, plain⟩

theorem scanPayload_error_kind {rest : List UInt8} {fault : Fault} (failed : scanPayload rest = .error fault) :
    fault.kind = .truncatedBuffer := by
  rcases scanPayload_cases rest with ⟨found, _⟩ | ⟨kind, header, _, ⟨other, found, isCut⟩ | ⟨_, _, found⟩⟩
  · rw [found] at failed
    cases failed
  · rw [found] at failed
    cases failed
    exact isCut
  · rw [found] at failed
    cases failed

theorem scanPayload_some {rest : List UInt8} {kind : PayloadKind} {length : Nat}
    (found : scanPayload rest = .ok (some (kind, length))) :
    ∃ header, rest = 0 :: kind.marker :: header ∧ kind.headerLength ≤ header.length ∧
      length = kind.blockLength header ∧ length ≤ rest.length := by
  rcases scanPayload_cases rest with ⟨none, _⟩ | ⟨other, header, same, ⟨fault, failed, _⟩ | ⟨full, fits, block⟩⟩
  · rw [none] at found
    cases found
  · rw [failed] at found
    cases found
  · rw [block] at found
    cases found
    exact ⟨header, same, full, rfl, fits⟩

/-- A block that was found has room for its header, ends on a code unit and is there as a whole. -/
theorem scanPayload_bounds {rest : List UInt8} {kind : PayloadKind} {length : Nat}
    (found : scanPayload rest = .ok (some (kind, length))) :
    kind.headerLength + 2 ≤ length ∧ length % 2 = 0 ∧ length ≤ rest.length := by
  obtain ⟨header, _, _, lengthEq, fits⟩ := scanPayload_some found
  obtain ⟨room, even⟩ := kind.blockLength_bounds header
  rw [← lengthEq] at room even
  exact ⟨room, even, fits⟩

theorem isPlain_iff {rest : List UInt8} : IsPlain rest ↔ scanPayload rest = .ok none := by
  refine ⟨IsPlain.scanPayload, fun none => ?_⟩
  rcases scanPayload_cases rest with ⟨_, plain⟩ | ⟨kind, header, _, ⟨fault, failed, _⟩ | ⟨_, _, block⟩⟩
  · exact plain
  · rw [failed] at none
    cases none
  · rw [block] at none
    cases none

theorem take_eq_cons_cons {α : Type} {other rest : List α} {a b : α} {n : Nat}
    (same : other.take (n + 2) = (a :: b :: rest).take (n + 2)) :
    ∃ tail, other = a :: b :: tail ∧ tail.take n = rest.take n := by
  match other with
  | [] | [_] => simp at same
  | _ :: _ :: tail =>
    simp only [List.take_succ_cons, List.cons.injEq] at same
    obtain ⟨rfl, rfl, tails⟩ := same
    exact ⟨tail, rfl, tails⟩

theorem IsPlain.congr {rest other : List UInt8} {n : Nat} (plain : IsPlain rest)
    (same : other.take (n + 2) = rest.take (n + 2)) : IsPlain other := by
  rintro kind header rfl
  obtain ⟨tail, rfl, _⟩ := take_eq_cons_cons same.symm
  exact plain kind tail rfl

/-- A block is recognised by its marker and header in any code that is long enough for it. -/
theorem scanPayload_header_congr {rest other : List UInt8} {kind : PayloadKind} {length : Nat}
    (found : scanPayload rest = .ok (some (kind, length)))
    (same : other.take (kind.headerLength + 2) = rest.take (kind.headerLength + 2)) (fits : length ≤ other.length) :
    scanPayload other = .ok (some (kind, length)) := by
  obtain ⟨header, rfl, full, rfl, _⟩ := scanPayload_some found
  obtain ⟨tail, rfl, headers⟩ := take_eq_cons_cons same
  have tailFull : kind.headerLength ≤ tail.length := by
    have lengths := congrArg List.length headers
    simp only [List.length_take] at lengths
    omega
  simp only [List.length_cons] at fits
  rw [scanPayload_block, PayloadKind.readLength_full tailFull, PayloadKind.blockLength_congr headers]
  exact if_neg (by omega)

/-- A block is recognised by its own bytes, whatever follows them. -/
theorem scanPayload_congr {rest other : List UInt8} {kind : PayloadKind} {length : Nat}
    (found : scanPayload rest = .ok (some (kind, length))) (same : other.take length = rest.take length) :
    scanPayload other = .ok (some (kind, length)) := by
  obtain ⟨room, _, fits⟩ := scanPayload_bounds found
  refine scanPayload_header_congr found ?_ ?_
  · have inner := congrArg (List.take (kind.headerLength + 2)) same
    rwa [List.take_take, List.take_take, Nat.min_eq_left room] at inner
  · have lengths := congrArg List.length same
    simp only [List.length_take] at lengths
    omega

end Dalvik
