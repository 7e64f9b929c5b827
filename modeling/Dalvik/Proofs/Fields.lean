import Dalvik.Assembler.Instruction

namespace Dalvik

@[simp] theorem littleEndianBytes_length (width n : Nat) : (littleEndianBytes width n).length = width := by
  induction width generalizing n with
  | zero => rfl
  | succ width ih => simp [littleEndianBytes, ih]

@[simp] theorem signedBytes_length (width : Nat) (v : Int) : (signedBytes width v).length = width :=
  littleEndianBytes_length width _

theorem fieldRange_succ (width : Nat) : fieldRange (width + 1) = 256 * fieldRange width :=
  Nat.mul_comm (Nat.pow 256 width) 256

theorem fieldRange_pos (width : Nat) : 0 < fieldRange width := Nat.pow_pos (by decide)

theorem littleEndian_littleEndianBytes (width n : Nat) :
    littleEndian (littleEndianBytes width n) = n % fieldRange width := by
  induction width generalizing n with
  | zero => simp [littleEndianBytes, littleEndian, fieldRange, Nat.mod_one]
  | succ width ih =>
    simp only [littleEndianBytes, littleEndian, ih, fieldRange_succ, Nat.mod_mul]
    rfl

/-- A number in the signed range is what its bytes stand for in two's complement. -/
theorem FitsSigned.bmod_littleEndian {width : Nat} {v : Int} (fits : FitsSigned width v) :
    Int.bmod (littleEndian (signedBytes width v)) (fieldRange width) = v := by
  obtain ⟨lower, upper⟩ := fits
  have positive : (0 : Int) < fieldRange width := by exact_mod_cast fieldRange_pos width
  have residue : ((v % fieldRange width).toNat : Int) = v % fieldRange width :=
    Int.toNat_of_nonneg (Int.emod_nonneg v (by omega))
  have small : (v % fieldRange width).toNat < fieldRange width := by
    have bound := Int.emod_lt_of_pos v positive
    omega
  rw [signedBytes, littleEndian_littleEndianBytes, Nat.mod_eq_of_lt small, residue, Int.emod_bmod]
  exact Int.bmod_eq_of_le_mul_two (by omega) (by omega)

theorem fitsSigned_eight (v : Int64) : FitsSigned 8 v.toInt := by
  have lower := v.le_toInt
  have upper := v.toInt_lt
  simp only [FitsSigned, fieldRange, Nat.pow_eq]
  omega

namespace Reader

/-- From code that starts with `bytes` the reader takes these and no more, and gives `value`. -/
def Takes {α : Type} (reader : Reader α) (bytes : List UInt8) (value : α) : Prop :=
  ∀ rest, reader.run (bytes ++ rest) = .ok (value, rest)

variable {α β : Type}

theorem Takes.pure (value : α) : Takes (pure value) [] value := fun _ => rfl

theorem Takes.bind {reader : Reader α} {next : α → Reader β} {bytes more : List UInt8} {a : α} {b : β}
    (first : Takes reader bytes a) (second : Takes (next a) more b) :
    Takes (reader >>= next) (bytes ++ more) b := by
  intro rest
  rw [StateT.run_bind, List.append_assoc, first (more ++ rest)]
  exact second rest

/-- The last field of a record: what follows only arranges the values. -/
theorem Takes.last {reader : Reader α} {bytes : List UInt8} {a : α} (first : Takes reader bytes a)
    (arrange : α → β) : Takes (reader >>= fun x => Pure.pure (arrange x)) bytes (arrange a) := by
  have both : Takes (reader >>= fun x => Pure.pure (arrange x)) (bytes ++ []) (arrange a) :=
    first.bind (Takes.pure (arrange a))
  rwa [List.append_nil] at both

/-- A computation that reads nothing. -/
theorem Takes.lift {result : Except Fault α} {value : α} (found : result = .ok value) :
    Takes (liftM result) [] value := by
  intro rest
  subst found
  rfl

theorem Takes.run' {reader : Reader α} {bytes : List UInt8} {value : α} (takes : Takes reader bytes value)
    (rest : List UInt8) : reader.run' (bytes ++ rest) = .ok value := by
  rw [StateT.run'_eq, takes rest]
  rfl

theorem Takes.gives {reader : Reader α} {bytes : List UInt8} {value result : α}
    (takes : Takes reader bytes value) (same : value = result) : reader.run' bytes = .ok result := by
  rw [← same, ← takes.run' [], List.append_nil]

theorem run_of_run' {reader : Reader α} {code : List UInt8} {value : α} (read : reader.run' code = .ok value) :
    ∃ rest, reader.run code = .ok (value, rest) := by
  rw [StateT.run'_eq] at read
  cases run : reader.run code with
  | error fault =>
    rw [run] at read
    cases read
  | ok result =>
    rw [run] at read
    cases read
    exact ⟨result.2, rfl⟩

theorem run'_bind_pure (reader : Reader α) (arrange : α → β) (code : List UInt8) :
    (reader >>= fun value => Pure.pure (arrange value)).run' code = (reader.run' code).map arrange := by
  rw [StateT.run'_eq, StateT.run'_eq, StateT.run_bind]
  cases reader.run code <;> rfl

theorem field_run (width : Nat) (code : List UInt8) :
    (field width).run code =
      if code.length < width then .error (.endOfCode code.length)
      else .ok (littleEndian (code.take width), code.drop width) := by
  by_cases missing : code.length < width
  · have all : code.take width = code := List.take_of_length_le (by omega)
    simp only [field, StateT.run, all, if_pos missing]
  · have full : ¬ (code.take width).length < width := by
      rw [List.length_take]
      omega
    simp only [field, StateT.run, if_neg missing, if_neg full]

theorem run'_field_bind (width : Nat) (next : Nat → Reader α) (code : List UInt8) :
    (field width >>= next).run' code =
      if code.length < width then .error (.endOfCode code.length)
      else (next (littleEndian (code.take width))).run' (code.drop width) := by
  rw [StateT.run'_eq, StateT.run_bind, field_run]
  split <;> rfl

theorem takes_field {width : Nat} {bytes : List UInt8} (full : bytes.length = width) :
    Takes (field width) bytes (littleEndian bytes) := by
  intro rest
  subst full
  simp [field_run]

theorem takes_byte (b : UInt8) : Takes byte [b] b.toNat := takes_field rfl

theorem takes_ofNat {n : Nat} (small : n < 256) : Takes byte [UInt8.ofNat n] n := by
  have takes := takes_byte (UInt8.ofNat n)
  rwa [UInt8.toNat_ofNat_of_lt' small] at takes

/-- Two nibbles that stand in one byte. -/
theorem takes_nibbles {low high : Nat} (lowSmall : low < 16) (highSmall : high < 16) :
    Takes byte [UInt8.ofNat (low + 16 * high)] (low + 16 * high) := takes_ofNat (by omega)

theorem takes_littleEndianBytes {width n : Nat} (small : n < fieldRange width) :
    Takes (field width) (littleEndianBytes width n) n := by
  have takes := takes_field (littleEndianBytes_length width n)
  rwa [littleEndian_littleEndianBytes, Nat.mod_eq_of_lt small] at takes

theorem takes_signedBytes {width : Nat} {v : Int} (fits : FitsSigned width v) :
    Takes (signedField width) (signedBytes width v) v := by
  have takes := (takes_field (signedBytes_length width v)).last fun n => Int.bmod n (fieldRange width)
  rwa [fits.bmod_littleEndian] at takes

end Reader

end Dalvik
