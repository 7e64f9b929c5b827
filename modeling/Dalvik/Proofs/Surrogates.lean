import Dalvik.Text.Surrogate

namespace Dalvik

theorem toNat_cases (c : Char) : c.toNat < 0xd800 ∨ 0xdfff < c.toNat ∧ c.toNat < 0x110000 := c.valid

theorem toNat_ofNat {n : Nat} (valid : n < 0xd800 ∨ 0xdfff < n ∧ n < 0x110000) : (Char.ofNat n).toNat = n := by
  rw [Char.ofNat, dif_pos valid]
  rfl

namespace Surrogate

/-- The code units of a character: itself, or two surrogates beyond the basic plane. -/
def unitsOf (c : Char) : List Nat := if c.toNat < 0x10000 then [c.toNat] else [highOf c, lowOf c]

theorem not_surrogate (c : Char) : ¬ IsHigh c.toNat ∧ ¬ IsLow c.toNat := by
  have valid := toNat_cases c
  unfold IsHigh IsLow
  omega

theorem isHigh_highOf {c : Char} (beyond : 0x10000 ≤ c.toNat) : IsHigh (highOf c) := by
  have valid := toNat_cases c
  unfold IsHigh highOf
  omega

theorem isLow_lowOf (c : Char) : IsLow (lowOf c) := by
  unfold IsLow lowOf
  omega

theorem unitsOf_narrow {c : Char} {unit : Nat} (member : unit ∈ unitsOf c) : unit < 0x10000 := by
  unfold unitsOf at member
  split at member
  · rename_i basic
    rwa [List.mem_singleton.mp member]
  · rename_i beyond
    have high := isHigh_highOf (Nat.not_lt.mp beyond)
    have low := isLow_lowOf c
    unfold IsHigh at high
    unfold IsLow at low
    simp only [List.mem_cons, List.not_mem_nil, or_false] at member
    omega

theorem pair_highOf_lowOf {c : Char} (beyond : 0x10000 ≤ c.toNat) : pair (highOf c) (lowOf c) = c := by
  have whole : 0x10000 + (highOf c - 0xd800) * 0x400 + (lowOf c - 0xdc00) = c.toNat := by
    unfold highOf lowOf
    omega
  rw [pair, whole, Char.ofNat_toNat]

theorem toNat_pair {high low : Nat} (isHigh : IsHigh high) (isLow : IsLow low) :
    (pair high low).toNat = 0x10000 + (high - 0xd800) * 0x400 + (low - 0xdc00) := by
  unfold IsHigh at isHigh
  unfold IsLow at isLow
  exact toNat_ofNat (by omega)

theorem unitsOf_pair {high low : Nat} (isHigh : IsHigh high) (isLow : IsLow low) :
    unitsOf (pair high low) = [high, low] := by
  have value := toNat_pair isHigh isLow
  unfold IsHigh at isHigh
  unfold IsLow at isLow
  have highSame : highOf (pair high low) = high := by
    rw [highOf, value]
    omega
  have lowSame : lowOf (pair high low) = low := by
    rw [lowOf, value]
    omega
  rw [unitsOf, if_neg (by omega), highSame, lowSame]

theorem join?_cons {unit : Nat} (plain : ¬ IsHigh unit ∧ ¬ IsLow unit) (rest : List Nat) :
    join? (unit :: rest) = (join? rest).map (Char.ofNat unit :: ·) := by
  cases rest with
  | nil => rw [join?.eq_2, if_neg (not_or.mpr plain), join?, Option.map_some]
  | cons next rest => rw [join?, if_neg plain.1, if_neg plain.2]

theorem join?_pair {high low : Nat} (isHigh : IsHigh high) (isLow : IsLow low) (rest : List Nat) :
    join? (high :: low :: rest) = (join? rest).map (pair high low :: ·) := by
  rw [join?, if_pos isHigh, if_pos isLow]

/-- Characters that are not split stand for themselves. -/
theorem join?_map_toNat (chars : List Char) : join? (chars.map Char.toNat) = some chars := by
  induction chars with
  | nil => rfl
  | cons c chars ih => rw [List.map_cons, join?_cons (not_surrogate c), ih, Option.map_some, Char.ofNat_toNat]

theorem join?_unitsOf (chars : List Char) : join? (chars.flatMap unitsOf) = some chars := by
  induction chars with
  | nil => rfl
  | cons c chars ih =>
    rw [List.flatMap_cons, unitsOf]
    split
    · rw [List.singleton_append, join?_cons (not_surrogate c), ih, Option.map_some, Char.ofNat_toNat]
    · rename_i beyond
      have high := isHigh_highOf (Nat.not_lt.mp beyond)
      rw [List.cons_append, List.singleton_append, join?_pair high (isLow_lowOf c), ih, Option.map_some,
        pair_highOf_lowOf (Nat.not_lt.mp beyond)]

/-- Code units of sixteen bits are those of the characters that they are joined to. -/
theorem eq_unitsOf_of_join? {units : List Nat} {chars : List Char} (narrow : ∀ unit ∈ units, unit < 0x10000)
    (joined : join? units = some chars) : units = chars.flatMap unitsOf := by
  have unitsOf_plain {unit : Nat} (small : unit < 0x10000) (plain : ¬ IsHigh unit ∧ ¬ IsLow unit) :
      unitsOf (Char.ofNat unit) = [unit] := by
    unfold IsHigh IsLow at plain
    rw [unitsOf, toNat_ofNat (by omega), if_pos small]
  fun_induction join? units generalizing chars with
  | case1 =>
    cases joined
    rfl
  | case2 => cases joined
  | case3 unit plain =>
    cases joined
    rw [List.flatMap_singleton, unitsOf_plain (narrow unit (List.mem_cons_self ..)) (not_or.mp plain)]
  | case4 high low rest isHigh isLow ih =>
    obtain ⟨later, joinedLater, rfl⟩ := Option.map_eq_some_iff.mp joined
    have narrowLater := (List.forall_mem_cons.mp (List.forall_mem_cons.mp narrow).2).2
    rw [List.flatMap_cons, unitsOf_pair isHigh isLow, ← ih narrowLater joinedLater]
    rfl
  | case5 => cases joined
  | case6 => cases joined
  | case7 unit next rest notHigh notLow ih =>
    obtain ⟨later, joinedLater, rfl⟩ := Option.map_eq_some_iff.mp joined
    obtain ⟨first, narrowLater⟩ := List.forall_mem_cons.mp narrow
    rw [List.flatMap_cons, unitsOf_plain first ⟨notHigh, notLow⟩, ← ih narrowLater joinedLater]
    rfl

end Surrogate

end Dalvik
