import Dalvik.Proofs.CheckedDecoding

namespace Dalvik

/-- The least even number from `n` on. -/
def roundUpToEven (n : Nat) : Nat := n + n % 2

namespace PayloadKind

theorem exists_marker_iff {marker : UInt8} : (∃ kind : PayloadKind, kind.marker = marker) ↔ marker ∈ [1, 2, 3] := by
  constructor
  · rintro ⟨kind, rfl⟩
    cases kind <;> decide
  · intro member
    simp only [List.mem_cons, List.not_mem_nil, or_false] at member
    rcases member with rfl | rfl | rfl
    · exact ⟨packedSwitch, rfl⟩
    · exact ⟨sparseSwitch, rfl⟩
    · exact ⟨arrayData, rfl⟩

/-- The number of bytes in the parts of the block at the front of the code: marker and number of entries, a first
key and the targets of a packed switch, the keys and the targets of a sparse one, or the header and the padded
elements of array data. There is none where the code ends before the fields that tell it. -/
def blockSize? : PayloadKind → List UInt8 → Option Nat
  | packedSwitch, _ :: _ :: n₀ :: n₁ :: _ => some (4 + 4 + 4 * littleEndian [n₀, n₁])
  | sparseSwitch, _ :: _ :: n₀ :: n₁ :: _ => some (4 + 4 * littleEndian [n₀, n₁] + 4 * littleEndian [n₀, n₁])
  | arrayData, _ :: _ :: w₀ :: w₁ :: c₀ :: c₁ :: c₂ :: c₃ :: _ =>
    some (8 + roundUpToEven (littleEndian [w₀, w₁] * littleEndian [c₀, c₁, c₂, c₃]))
  | _, _ => none

theorem blockSize?_short {kind : PayloadKind} {a b : UInt8} {header : List UInt8}
    (short : header.length < kind.headerLength) : kind.blockSize? (a :: b :: header) = none := by
  cases kind with
  | packedSwitch | sparseSwitch =>
    match header, short with
    | [], _ | [_], _ => rfl
  | arrayData =>
    match header, short with
    | [], _ | [_], _ | [_, _], _ | [_, _, _], _ | [_, _, _, _], _ | [_, _, _, _, _], _ => rfl

/-- The parts of a block add up to the length that is computed for it. -/
theorem blockSize?_full {kind : PayloadKind} {a b : UInt8} {header : List UInt8}
    (full : kind.headerLength ≤ header.length) :
    kind.blockSize? (a :: b :: header) = some (kind.blockLength header) := by
  cases kind with
  | packedSwitch | sparseSwitch =>
    obtain _ | ⟨n₀, _ | ⟨n₁, rest⟩⟩ := header
    case cons.cons =>
      refine congrArg some ?_
      simp only [blockLength, List.take_succ_cons, List.take_zero]
      omega
    all_goals simp [headerLength] at full
  | arrayData =>
    obtain _ | ⟨w₀, _ | ⟨w₁, _ | ⟨c₀, _ | ⟨c₁, _ | ⟨c₂, _ | ⟨c₃, rest⟩⟩⟩⟩⟩⟩ := header
    case cons.cons.cons.cons.cons.cons =>
      refine congrArg some ?_
      simp only [blockLength, roundUpToEven, List.take_succ_cons, List.take_zero, List.drop_succ_cons,
        List.drop_zero]
      omega
    all_goals simp [headerLength] at full

theorem eq_blockLength_of_blockSize? {kind : PayloadKind} {a b : UInt8} {header : List UInt8} {size : Nat}
    (sized : kind.blockSize? (a :: b :: header) = some size) :
    kind.headerLength ≤ header.length ∧ size = kind.blockLength header := by
  by_cases full : kind.headerLength ≤ header.length
  · rw [blockSize?_full full] at sized
    exact ⟨full, (Option.some.inj sized).symm⟩
  · rw [blockSize?_short (Nat.not_le.mp full)] at sized
    cases sized

-- The product of the largest width and the largest count is odd, and so one byte is added to it.
example : arrayData.blockSize? [0, 3, 0xff, 0xff, 0xff, 0xff, 0xff, 0xff] = some (8 + 65535 * 4294967295 + 1) := by
  decide

end PayloadKind

variable {kind : PayloadKind} {header rest : List UInt8} {size : Nat}

theorem scanPayload_sized (sized : kind.blockSize? (0 :: kind.marker :: header) = some size) :
    scanPayload (0 :: kind.marker :: header) =
      if header.length + 2 < size then .error (.truncatedPayload kind size (header.length + 2))
      else .ok (some (kind, size)) := by
  obtain ⟨full, rfl⟩ := PayloadKind.eq_blockLength_of_blockSize? sized
  rw [scanPayload_block, PayloadKind.readLength_full full]
  rfl

theorem scanPayload_unsized (cut : kind.blockSize? (0 :: kind.marker :: header) = none) :
    ∃ left, scanPayload (0 :: kind.marker :: header) = .error (.endOfCode left) := by
  have short : header.length < kind.headerLength := by
    refine Nat.lt_of_not_le fun full => ?_
    rw [PayloadKind.blockSize?_full full] at cut
    cases cut
  obtain ⟨left, failed⟩ := PayloadKind.readLength_short short
  rw [scanPayload_block, failed]
  exact ⟨left, rfl⟩

/-- The first two bytes tell whether a block opens. -/
theorem isPlain_iff_bytes :
    IsPlain rest ↔ rest.length < 2 ∨ rest[0]? ≠ some 0 ∨ ∀ marker, rest[1]? = some marker → marker ∉ [1, 2, 3] := by
  match rest with
  | [] | [_] => simp [IsPlain]
  | first :: second :: header =>
    constructor
    · intro plain
      refine Or.inr (or_iff_not_imp_left.mpr fun isZero marker isSecond member => ?_)
      obtain ⟨kind, isMarker⟩ := PayloadKind.exists_marker_iff.mpr member
      have zero : first = 0 := Option.some.inj (not_not.mp isZero)
      have known : second = kind.marker := (Option.some.inj isSecond).trans isMarker.symm
      exact plain kind header (by rw [zero, known])
    · rintro (short | notZero | unknown) kind tail same
      · simp only [List.length_cons] at short
        omega
      · cases same
        exact notZero rfl
      · cases same
        exact unknown kind.marker rfl (PayloadKind.exists_marker_iff.mp ⟨kind, rfl⟩)

theorem scanPayload_eq_some_iff :
    scanPayload rest = .ok (some (kind, size)) ↔
      [0, kind.marker] <+: rest ∧ kind.blockSize? rest = some size ∧ size ≤ rest.length := by
  constructor
  · intro found
    obtain ⟨header, rfl, full, rfl, fits⟩ := scanPayload_some found
    exact ⟨⟨header, rfl⟩, PayloadKind.blockSize?_full full, fits⟩
  · rintro ⟨⟨header, rfl⟩, sized, fits⟩
    exact (scanPayload_sized sized).trans (if_neg (Nat.not_lt.mpr fits))

/-- A block that opens fails if the code ends before its fields or before its end. -/
theorem scanPayload_eq_error_iff :
    (∃ fault, scanPayload rest = .error fault ∧ fault.kind = .truncatedBuffer) ↔
      ∃ kind : PayloadKind, [0, kind.marker] <+: rest ∧
        ∀ size, kind.blockSize? rest = some size → rest.length < size := by
  constructor
  · rintro ⟨fault, failed, _⟩
    rcases scanPayload_cases rest with ⟨none, _⟩ | ⟨kind, header, rfl, _⟩
    · rw [none] at failed
      cases failed
    · refine ⟨kind, ⟨header, rfl⟩, fun size sized => Nat.lt_of_not_le fun fits => ?_⟩
      have whole := (scanPayload_sized sized).trans (if_neg (Nat.not_lt.mpr fits))
      rw [whole] at failed
      cases failed
  · rintro ⟨kind, ⟨header, rfl⟩, cut⟩
    cases sized : kind.blockSize? (0 :: kind.marker :: header) with
    | none =>
      obtain ⟨left, failed⟩ := scanPayload_unsized sized
      exact ⟨.endOfCode left, failed, rfl⟩
    | some size =>
      exact ⟨_, (scanPayload_sized sized).trans (if_pos (cut size sized)), rfl⟩

/-- No length is beyond 64 bits, not even that for the largest fields. -/
theorem PayloadKind.ensures_readLength (kind : PayloadKind) : Reader.Ensures kind.readLength (· < 2 ^ 64) := by
  cases kind with
  | packedSwitch | sparseSwitch =>
    refine (Reader.ensures_field 2).bind fun entries (few : entries < 2 ^ 16) => .pure ?_
    omega
  | arrayData =>
    refine (Reader.ensures_field 2).bind fun width (narrow : width < 2 ^ 16) =>
      (Reader.ensures_field 4).bind fun count (few : count < 2 ^ 32) => .pure ?_
    have data : width * count < 2 ^ 16 * 2 ^ 32 := Nat.mul_lt_mul'' narrow few
    omega

/-- The size of a block is what 64 bits give for it, and it is a number of code units with room for the header. -/
theorem PayloadKind.checkedLength_of_blockSize? (sized : kind.blockSize? rest = some size) :
    kind.checkedLength (rest.drop 2) = .ok (.ok size) ∧ size % 2 = 0 ∧ 4 ≤ size ∧ size < 2 ^ 64 := by
  match rest with
  | [] | [_] => cases kind <;> cases sized
  | first :: second :: header =>
    obtain ⟨full, rfl⟩ := eq_blockLength_of_blockSize? sized
    obtain ⟨room, even⟩ := kind.blockLength_bounds header
    have fields : 2 ≤ kind.headerLength := by cases kind <;> decide
    have read := readLength_full full
    refine ⟨?_, even, by omega, kind.ensures_readLength.run' read⟩
    rw [checkedLength_eq]
    exact congrArg Except.ok read

/-- Sizes of payload blocks are exact for every header, up to the largest width and count. No block is found where
the first two bytes open none; a block that is there as a whole is found with the size that its parts have as
natural numbers, which is even and at least four; and where its fields or its body are cut, decoding fails for
want of bytes. The size is below `2 ^ 64`, and the arithmetic in 64 bits never overflows on the way to it. -/
theorem payloadAt_exact_size (code : List UInt8) (offset : Nat) :
    (payloadAt code offset = .ok none ↔ (code.drop offset).length < 2 ∨ (code.drop offset)[0]? ≠ some 0 ∨
      ∀ marker, (code.drop offset)[1]? = some marker → marker ∉ [1, 2, 3]) ∧
    (∀ kind size, payloadAt code offset = .ok (some (kind, size)) ↔ [0, kind.marker] <+: code.drop offset ∧
      kind.blockSize? (code.drop offset) = some size ∧ size ≤ (code.drop offset).length) ∧
    ((∃ fault, payloadAt code offset = .error fault ∧ fault.kind = .truncatedBuffer) ↔
      ∃ kind : PayloadKind, [0, kind.marker] <+: code.drop offset ∧
        ∀ size, kind.blockSize? (code.drop offset) = some size → (code.drop offset).length < size) ∧
    ∀ kind : PayloadKind, (∃ read, kind.checkedLength (code.drop (offset + 2)) = .ok read) ∧
      ∀ size, kind.blockSize? (code.drop offset) = some size →
        kind.checkedLength (code.drop (offset + 2)) = .ok (.ok size) ∧
          size % 2 = 0 ∧ 4 ≤ size ∧ size < 2 ^ 64 := by
  refine ⟨isPlain_iff.symm.trans isPlain_iff_bytes, fun kind size => scanPayload_eq_some_iff,
    scanPayload_eq_error_iff, fun kind => ⟨⟨_, kind.checkedLength_eq _⟩, fun size sized => ?_⟩⟩
  rw [← List.drop_drop]
  exact PayloadKind.checkedLength_of_blockSize? sized

end Dalvik
