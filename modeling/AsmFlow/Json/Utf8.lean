import AsmFlow.Config.Snapshot

/-!
# UTF-8

`af_utf8_sequence_length` and `af_utf8_validate` of `json_write.asm`, against the
encoding of Unicode scalar values that Lean itself uses for its characters.
-/

namespace AsmFlow.Json

/-- `(b & 0xC0) == 0x80`, a continuation byte. -/
def continues (b : UInt8) : Bool := b &&& 0xC0 == 0x80

def bits (b mask : UInt8) : ℕ := (b &&& mask).toNat

/-- `af_utf8_sequence_length`: the length and the code point of the sequence at the
front, `none` where the code returns zero. -/
def utf8SequenceLength : Bytes → Option (ℕ × ℕ)
  | [] => none
  | a :: rest =>
    if a < 0x80 then some (1, a.toNat)
    else if a < 0xC2 then none
    else if a < 0xE0 then
      match rest with
      | b :: _ =>
        if continues b = false then none
        else some (2, bits a 0x1F <<< 6 ||| bits b 0x3F)
      | [] => none
    else if a < 0xF0 then
      match rest with
      | b :: c :: _ =>
        if continues b = false then none
        else if continues c = false then none
        else
          let v := bits a 0x0F <<< 12 ||| bits b 0x3F <<< 6 ||| bits c 0x3F
          if v < 0x800 then none
          else if 0xD800 ≤ v ∧ v ≤ 0xDFFF then none
          else some (3, v)
      | _ => none
    else if a < 0xF5 then
      match rest with
      | b :: c :: d :: _ =>
        if continues b = false then none
        else if continues c = false then none
        else if continues d = false then none
        else
          let v := bits a 0x07 <<< 18 ||| bits b 0x3F <<< 12 ||| bits c 0x3F <<< 6 ||| bits d 0x3F
          if v < 0x10000 then none
          else if 0x10FFFF < v then none
          else some (4, v)
      | _ => none
    else none

/-- `af_utf8_validate`, with the bytes that the sequence at the front still covers. -/
def utf8ValidFrom : ℕ → Bytes → Bool
  | _, [] => true
  | skip + 1, _ :: rest => utf8ValidFrom skip rest
  | 0, b :: rest =>
    match utf8SequenceLength (b :: rest) with
    | none => false
    | some (n, _) => utf8ValidFrom (n - 1) rest

def utf8Validate (p : Bytes) : Bool := utf8ValidFrom 0 p

/-- The bytes of a text. -/
def utf8Text (cs : List Char) : Bytes := cs.flatMap String.utf8EncodeChar

theorem utf8Text_append (cs ds : List Char) : utf8Text (cs ++ ds) = utf8Text cs ++ utf8Text ds :=
  List.flatMap_append

section Bits

theorem continues_iff (b : UInt8) : continues b = true ↔ 0x80 ≤ b.toNat ∧ b.toNat < 0xC0 := by
  have table : ∀ n : Fin 256, n.val &&& 0xC0 = 0x80 ↔ 0x80 ≤ n.val ∧ n.val < 0xC0 := by
    decide +kernel
  have hb := table ⟨b.toNat, b.toNat_lt⟩
  rw [← hb, continues, beq_iff_eq, ← UInt8.toNat_inj, UInt8.toNat_and]
  rfl

theorem bits_eq_mod {b mask : UInt8} {k : ℕ} (h : mask.toNat = 2 ^ k - 1) :
    bits b mask = b.toNat % 2 ^ k := by
  rw [bits, UInt8.toNat_and, h, Nat.and_two_pow_sub_one_eq_mod]

theorem bits_3F (b : UInt8) : bits b 0x3F = b.toNat % 64 := bits_eq_mod (k := 6) rfl

theorem shiftLeft_or {x y k : ℕ} (h : y < 2 ^ k) : x <<< k ||| y = x * 2 ^ k + y := by
  rw [← Nat.shiftLeft_add_eq_or_of_lt h, Nat.shiftLeft_eq]

theorem two_bytes (a b : UInt8) :
    bits a 0x1F <<< 6 ||| bits b 0x3F = a.toNat % 32 * 64 + b.toNat % 64 := by
  have hb : b.toNat % 64 < 2 ^ 6 := Nat.mod_lt _ (by decide)
  calc bits a 0x1F <<< 6 ||| bits b 0x3F
      = (a.toNat % 2 ^ 5) <<< 6 ||| b.toNat % 64 := by rw [bits_3F, bits_eq_mod (k := 5) rfl]
    _ = a.toNat % 32 * 64 + b.toNat % 64 := shiftLeft_or hb

theorem three_bytes (a b c : UInt8) :
    bits a 0x0F <<< 12 ||| bits b 0x3F <<< 6 ||| bits c 0x3F =
      a.toNat % 16 * 4096 + (b.toNat % 64 * 64 + c.toNat % 64) := by
  have hc : c.toNat % 64 < 2 ^ 6 := Nat.mod_lt _ (by decide)
  have hlow : b.toNat % 64 * 2 ^ 6 + c.toNat % 64 < 2 ^ 12 := by omega
  calc bits a 0x0F <<< 12 ||| bits b 0x3F <<< 6 ||| bits c 0x3F
      = (a.toNat % 2 ^ 4) <<< 12 ||| ((b.toNat % 64) <<< 6 ||| c.toNat % 64) := by
        rw [bits_3F, bits_3F, bits_eq_mod (k := 4) rfl, Nat.or_assoc]
    _ = (a.toNat % 2 ^ 4) <<< 12 ||| (b.toNat % 64 * 2 ^ 6 + c.toNat % 64) := by
        rw [shiftLeft_or hc]
    _ = a.toNat % 16 * 4096 + (b.toNat % 64 * 64 + c.toNat % 64) := shiftLeft_or hlow

theorem four_bytes (a b c d : UInt8) :
    bits a 0x07 <<< 18 ||| bits b 0x3F <<< 12 ||| bits c 0x3F <<< 6 ||| bits d 0x3F =
      a.toNat % 8 * 262144 + (b.toNat % 64 * 4096 + (c.toNat % 64 * 64 + d.toNat % 64)) := by
  have hd : d.toNat % 64 < 2 ^ 6 := Nat.mod_lt _ (by decide)
  have hlow : c.toNat % 64 * 2 ^ 6 + d.toNat % 64 < 2 ^ 12 := by omega
  have hmid : b.toNat % 64 * 2 ^ 12 + (c.toNat % 64 * 2 ^ 6 + d.toNat % 64) < 2 ^ 18 := by omega
  calc bits a 0x07 <<< 18 ||| bits b 0x3F <<< 12 ||| bits c 0x3F <<< 6 ||| bits d 0x3F
      = (a.toNat % 2 ^ 3) <<< 18 |||
          ((b.toNat % 64) <<< 12 ||| ((c.toNat % 64) <<< 6 ||| d.toNat % 64)) := by
        rw [bits_3F, bits_3F, bits_3F, bits_eq_mod (k := 3) rfl, Nat.or_assoc, Nat.or_assoc]
    _ = (a.toNat % 2 ^ 3) <<< 18 |||
          (b.toNat % 64 * 2 ^ 12 + (c.toNat % 64 * 2 ^ 6 + d.toNat % 64)) := by
        rw [shiftLeft_or hd, shiftLeft_or hlow]
    _ = a.toNat % 8 * 262144 + (b.toNat % 64 * 4096 + (c.toNat % 64 * 64 + d.toNat % 64)) :=
        shiftLeft_or hmid

end Bits

section Encoding

/-- The character with a scalar value, and the bytes of its encoding by their values. -/
theorem exists_char {v : ℕ} (h : v < 0xD800 ∨ 0xDFFF < v ∧ v < 0x110000) :
    ∃ c : Char, c.val.toNat = v :=
  ⟨Char.ofNat v, by
    have hvalid : v.isValidChar := h
    rw [Char.ofNat, dif_pos hvalid]
    rfl⟩

theorem utf8EncodeChar_toNat (c : Char) :
    (String.utf8EncodeChar c).map UInt8.toNat =
      if c.val.toNat < 0x80 then [c.val.toNat]
      else if c.val.toNat < 0x800 then [c.val.toNat / 64 + 0xC0, c.val.toNat % 64 + 0x80]
      else if c.val.toNat < 0x10000 then
        [c.val.toNat / 4096 + 0xE0, c.val.toNat / 64 % 64 + 0x80, c.val.toNat % 64 + 0x80]
      else
        [c.val.toNat / 262144 + 0xF0, c.val.toNat / 4096 % 64 + 0x80,
          c.val.toNat / 64 % 64 + 0x80, c.val.toNat % 64 + 0x80] := by
  have hv : c.val.toNat < 0x110000 := by
    have := c.valid
    simp only [UInt32.isValidChar, Nat.isValidChar] at this
    omega
  unfold String.utf8EncodeChar
  generalize c.val.toNat = v at hv
  dsimp only
  split_ifs <;> simp <;> omega

theorem eq_of_map_toNat {p q : Bytes} (h : p.map UInt8.toNat = q.map UInt8.toNat) : p = q :=
  List.map_injective_iff.mpr (fun _ _ hab => UInt8.toNat_inj.mp hab) h

/-- The character whose encoding has the given byte values. -/
theorem exists_char_of_bytes {p : Bytes} {v : ℕ} (hv : v < 0xD800 ∨ 0xDFFF < v ∧ v < 0x110000)
    (h : p.map UInt8.toNat =
      if v < 0x80 then [v]
      else if v < 0x800 then [v / 64 + 0xC0, v % 64 + 0x80]
      else if v < 0x10000 then [v / 4096 + 0xE0, v / 64 % 64 + 0x80, v % 64 + 0x80]
      else [v / 262144 + 0xF0, v / 4096 % 64 + 0x80, v / 64 % 64 + 0x80, v % 64 + 0x80]) :
    ∃ c : Char, c.val.toNat = v ∧ p = String.utf8EncodeChar c := by
  obtain ⟨c, hc⟩ := exists_char hv
  refine ⟨c, hc, eq_of_map_toNat ?_⟩
  rw [utf8EncodeChar_toNat, hc, h]

theorem exists_char_two {a b : UInt8} (ha : 0xC2 ≤ a.toNat) (ha' : a.toNat < 0xE0)
    (hb : continues b = true) :
    ∃ c : Char, c.val.toNat = a.toNat % 32 * 64 + b.toNat % 64 ∧
      [a, b] = String.utf8EncodeChar c := by
  have hb := (continues_iff b).mp hb
  apply exists_char_of_bytes (by omega)
  rw [if_neg (by omega), if_pos (by omega)]
  simp only [List.map_cons, List.map_nil, List.cons.injEq, and_true]
  exact ⟨by omega, by omega⟩

theorem exists_char_three {a b c : UInt8} (ha : 0xE0 ≤ a.toNat) (ha' : a.toNat < 0xF0)
    (hb : continues b = true) (hc : continues c = true)
    (hlow : 0x800 ≤ a.toNat % 16 * 4096 + (b.toNat % 64 * 64 + c.toNat % 64))
    (hsur : ¬ (0xD800 ≤ a.toNat % 16 * 4096 + (b.toNat % 64 * 64 + c.toNat % 64) ∧
      a.toNat % 16 * 4096 + (b.toNat % 64 * 64 + c.toNat % 64) ≤ 0xDFFF)) :
    ∃ x : Char, x.val.toNat = a.toNat % 16 * 4096 + (b.toNat % 64 * 64 + c.toNat % 64) ∧
      [a, b, c] = String.utf8EncodeChar x := by
  have hb := (continues_iff b).mp hb
  have hc := (continues_iff c).mp hc
  apply exists_char_of_bytes (by omega)
  rw [if_neg (by omega), if_neg (by omega), if_pos (by omega)]
  simp only [List.map_cons, List.map_nil, List.cons.injEq, and_true]
  exact ⟨by omega, by omega, by omega⟩

theorem exists_char_four {a b c d : UInt8} (ha : 0xF0 ≤ a.toNat) (ha' : a.toNat < 0xF5)
    (hb : continues b = true) (hc : continues c = true) (hd : continues d = true)
    (hlow : 0x10000 ≤
      a.toNat % 8 * 262144 + (b.toNat % 64 * 4096 + (c.toNat % 64 * 64 + d.toNat % 64)))
    (hhigh : a.toNat % 8 * 262144 +
      (b.toNat % 64 * 4096 + (c.toNat % 64 * 64 + d.toNat % 64)) ≤ 0x10FFFF) :
    ∃ x : Char, x.val.toNat =
        a.toNat % 8 * 262144 + (b.toNat % 64 * 4096 + (c.toNat % 64 * 64 + d.toNat % 64)) ∧
      [a, b, c, d] = String.utf8EncodeChar x := by
  have hb := (continues_iff b).mp hb
  have hc := (continues_iff c).mp hc
  have hd := (continues_iff d).mp hd
  apply exists_char_of_bytes (by omega)
  rw [if_neg (by omega), if_neg (by omega), if_neg (by omega)]
  simp only [List.map_cons, List.map_nil, List.cons.injEq, and_true]
  exact ⟨by omega, by omega, by omega, by omega⟩

/-- What is measured at the front is the encoding of a character. -/
theorem exists_char_of_utf8SequenceLength {p : Bytes} {n v : ℕ}
    (h : utf8SequenceLength p = some (n, v)) :
    ∃ (c : Char) (rest : Bytes), p = String.utf8EncodeChar c ++ rest ∧
      n = (String.utf8EncodeChar c).length ∧ v = c.val.toNat := by
  cases p with
  | nil => cases h
  | cons a rest =>
    unfold utf8SequenceLength at h
    dsimp only at h
    by_cases h80 : a < 0x80
    · rw [if_pos h80] at h
      have h80 : a.toNat < 128 := h80
      obtain ⟨rfl, rfl⟩ := Prod.mk.inj (Option.some.inj h)
      obtain ⟨c, hc, henc⟩ := exists_char_of_bytes (p := [a]) (v := a.toNat) (Or.inl (by omega))
        (by rw [if_pos h80]; rfl)
      exact ⟨c, rest, by rw [← henc]; rfl, by rw [← henc]; rfl, hc.symm⟩
    rw [if_neg h80] at h
    by_cases hC2 : a < 0xC2
    · rw [if_pos hC2] at h
      cases h
    rw [if_neg hC2] at h
    by_cases hE0 : a < 0xE0
    · rw [if_pos hE0] at h
      cases rest with
      | nil => cases h
      | cons b rest =>
        dsimp only at h
        by_cases hb : continues b = false
        · rw [if_pos hb] at h
          cases h
        rw [if_neg hb] at h
        obtain ⟨rfl, rfl⟩ := Prod.mk.inj (Option.some.inj h)
        obtain ⟨c, hc, henc⟩ := exists_char_two (not_lt.mp hC2) hE0 (eq_true_of_ne_false hb)
        rw [two_bytes]
        exact ⟨c, rest, by rw [← henc]; rfl, by rw [← henc]; rfl, hc.symm⟩
    rw [if_neg hE0] at h
    by_cases hF0 : a < 0xF0
    · rw [if_pos hF0] at h
      match rest with
      | [] => cases h
      | [_] => cases h
      | b :: c :: rest =>
        dsimp only at h
        split_ifs at h with hb hc hlow hsur
        obtain ⟨rfl, rfl⟩ := Prod.mk.inj (Option.some.inj h)
        rw [three_bytes] at hlow hsur ⊢
        obtain ⟨x, hx, henc⟩ := exists_char_three (not_lt.mp hE0) hF0 (eq_true_of_ne_false hb)
          (eq_true_of_ne_false hc) (not_lt.mp hlow) hsur
        exact ⟨x, rest, by rw [← henc]; rfl, by rw [← henc]; rfl, hx.symm⟩
    rw [if_neg hF0] at h
    by_cases hF5 : a < 0xF5
    · rw [if_pos hF5] at h
      match rest with
      | [] => cases h
      | [_] => cases h
      | [_, _] => cases h
      | b :: c :: d :: rest =>
        dsimp only at h
        split_ifs at h with hb hc hd hlow hhigh
        obtain ⟨rfl, rfl⟩ := Prod.mk.inj (Option.some.inj h)
        rw [four_bytes] at hlow hhigh ⊢
        obtain ⟨x, hx, henc⟩ := exists_char_four (not_lt.mp hF0) hF5 (eq_true_of_ne_false hb)
          (eq_true_of_ne_false hc) (eq_true_of_ne_false hd) (not_lt.mp hlow) (not_lt.mp hhigh)
        exact ⟨x, rest, by rw [← henc]; rfl, by rw [← henc]; rfl, hx.symm⟩
    · rw [if_neg hF5] at h
      cases h

section Lengths

variable {a b c d : UInt8}

/-- The first byte is below a bound, or not. -/
theorem lead_lt {n : UInt8} (h : a.toNat < n.toNat) : a < n := h

theorem lead_not_lt {n : UInt8} (h : n.toNat ≤ a.toNat) : ¬a < n := not_lt.mpr h

theorem utf8SequenceLength_one (h : a.toNat < 0x80) (rest : Bytes) :
    utf8SequenceLength (a :: rest) = some (1, a.toNat) := by
  unfold utf8SequenceLength
  exact if_pos (lead_lt h)

theorem utf8SequenceLength_two (hlow : 0xC2 ≤ a.toNat) (hhigh : a.toNat < 0xE0)
    (hb : continues b = true) (rest : Bytes) :
    utf8SequenceLength (a :: b :: rest) = some (2, a.toNat % 32 * 64 + b.toNat % 64) := by
  have h80 : (0x80 : UInt8).toNat ≤ a.toNat := le_trans (by decide) hlow
  unfold utf8SequenceLength
  dsimp only
  rw [if_neg (lead_not_lt h80), if_neg (lead_not_lt (n := 0xC2) hlow),
    if_pos (lead_lt (n := 0xE0) hhigh)]
  rw [if_neg (by simp [hb]), two_bytes]

theorem utf8SequenceLength_three (hlow : 0xE0 ≤ a.toNat) (hhigh : a.toNat < 0xF0)
    (hb : continues b = true) (hc : continues c = true)
    (hshort : 0x800 ≤ a.toNat % 16 * 4096 + (b.toNat % 64 * 64 + c.toNat % 64))
    (hsur : ¬(0xD800 ≤ a.toNat % 16 * 4096 + (b.toNat % 64 * 64 + c.toNat % 64) ∧
      a.toNat % 16 * 4096 + (b.toNat % 64 * 64 + c.toNat % 64) ≤ 0xDFFF)) (rest : Bytes) :
    utf8SequenceLength (a :: b :: c :: rest) =
      some (3, a.toNat % 16 * 4096 + (b.toNat % 64 * 64 + c.toNat % 64)) := by
  have h80 : (0x80 : UInt8).toNat ≤ a.toNat := le_trans (by decide) hlow
  have hC2 : (0xC2 : UInt8).toNat ≤ a.toNat := le_trans (by decide) hlow
  unfold utf8SequenceLength
  dsimp only
  rw [if_neg (lead_not_lt h80), if_neg (lead_not_lt hC2),
    if_neg (lead_not_lt (n := 0xE0) hlow), if_pos (lead_lt (n := 0xF0) hhigh)]
  rw [if_neg (by simp [hb]), if_neg (by simp [hc]), three_bytes, if_neg (not_lt.mpr hshort),
    if_neg hsur]

theorem utf8SequenceLength_four (hlow : 0xF0 ≤ a.toNat) (hhigh : a.toNat < 0xF5)
    (hb : continues b = true) (hc : continues c = true) (hd : continues d = true)
    (hshort : 0x10000 ≤ a.toNat % 8 * 262144 +
      (b.toNat % 64 * 4096 + (c.toNat % 64 * 64 + d.toNat % 64)))
    (hlong : a.toNat % 8 * 262144 +
      (b.toNat % 64 * 4096 + (c.toNat % 64 * 64 + d.toNat % 64)) ≤ 0x10FFFF) (rest : Bytes) :
    utf8SequenceLength (a :: b :: c :: d :: rest) =
      some (4, a.toNat % 8 * 262144 +
        (b.toNat % 64 * 4096 + (c.toNat % 64 * 64 + d.toNat % 64))) := by
  have h80 : (0x80 : UInt8).toNat ≤ a.toNat := le_trans (by decide) hlow
  have hC2 : (0xC2 : UInt8).toNat ≤ a.toNat := le_trans (by decide) hlow
  have hE0 : (0xE0 : UInt8).toNat ≤ a.toNat := le_trans (by decide) hlow
  unfold utf8SequenceLength
  dsimp only
  rw [if_neg (lead_not_lt h80), if_neg (lead_not_lt hC2),
    if_neg (lead_not_lt hE0), if_neg (lead_not_lt (n := 0xF0) hlow), if_pos (lead_lt (n := 0xF5) hhigh)]
  rw [if_neg (by simp [hb]), if_neg (by simp [hc]), if_neg (by simp [hd]), four_bytes,
    if_neg (not_lt.mpr hshort), if_neg (not_lt.mpr hlong)]

end Lengths

/-- The byte values of an encoding, case by case, as facts about the bytes. -/
theorem utf8SequenceLength_utf8EncodeChar (c : Char) (rest : Bytes) :
    utf8SequenceLength (String.utf8EncodeChar c ++ rest) =
      some ((String.utf8EncodeChar c).length, c.val.toNat) := by
  have hvalid : c.val.toNat < 0xD800 ∨ 0xDFFF < c.val.toNat ∧ c.val.toNat < 0x110000 := c.valid
  have hbytes := utf8EncodeChar_toNat c
  generalize String.utf8EncodeChar c = p at hbytes
  generalize c.val.toNat = v at hvalid hbytes
  split_ifs at hbytes with hone htwo hthree
  all_goals simp only [List.map_eq_cons_iff, List.map_eq_nil_iff] at hbytes
  · obtain ⟨a, _, rfl, ha, rfl⟩ := hbytes
    exact (utf8SequenceLength_one (by omega) rest).trans (by rw [ha]; rfl)
  · obtain ⟨a, _, rfl, ha, b, _, rfl, hb, rfl⟩ := hbytes
    have hcont : continues b = true := (continues_iff b).mpr (by omega)
    have hv : a.toNat % 32 * 64 + b.toNat % 64 = v := by omega
    rw [← hv]
    exact utf8SequenceLength_two (by omega) (by omega) hcont rest
  · obtain ⟨a, _, rfl, ha, b, _, rfl, hb, d, _, rfl, hd, rfl⟩ := hbytes
    have hcontb : continues b = true := (continues_iff b).mpr (by omega)
    have hcontd : continues d = true := (continues_iff d).mpr (by omega)
    have hv : a.toNat % 16 * 4096 + (b.toNat % 64 * 64 + d.toNat % 64) = v := by omega
    rw [← hv]
    exact utf8SequenceLength_three (by omega) (by omega) hcontb hcontd (by omega) (by omega) rest
  · obtain ⟨a, _, rfl, ha, b, _, rfl, hb, d, _, rfl, hd, e, _, rfl, he, rfl⟩ := hbytes
    have hcontb : continues b = true := (continues_iff b).mpr (by omega)
    have hcontd : continues d = true := (continues_iff d).mpr (by omega)
    have hconte : continues e = true := (continues_iff e).mpr (by omega)
    have hv : a.toNat % 8 * 262144 +
        (b.toNat % 64 * 4096 + (d.toNat % 64 * 64 + e.toNat % 64)) = v := by omega
    rw [← hv]
    exact utf8SequenceLength_four (by omega) (by omega) hcontb hcontd hconte (by omega) (by omega)
      rest

/-- A character whose first byte is not ASCII is not. -/
theorem wide_of_lead {b : UInt8} {rest tail : Bytes} {c : Char} (hhigh : 0x80 ≤ b)
    (h : b :: rest = String.utf8EncodeChar c ++ tail) : 0x80 ≤ c.val.toNat := by
  by_contra hascii
  have hbytes := utf8EncodeChar_toNat c
  rw [if_pos (not_le.mp hascii)] at hbytes
  simp only [List.map_eq_cons_iff, List.map_eq_nil_iff] at hbytes
  obtain ⟨a, _, henc, ha, rfl⟩ := hbytes
  rw [henc, List.cons_append, List.cons.injEq] at h
  rw [h.1, UInt8.le_iff_toNat_le, ha] at hhigh
  exact hascii hhigh

end Encoding

section Validate

theorem utf8ValidFrom_skip (p rest : Bytes) :
    utf8ValidFrom p.length (p ++ rest) = utf8ValidFrom 0 rest := by
  induction p with
  | nil => rfl
  | cons b p ih => exact ih

/-- One character is passed over whole. -/
theorem utf8Validate_char (c : Char) (rest : Bytes) :
    utf8Validate (String.utf8EncodeChar c ++ rest) = utf8Validate rest := by
  have hlength := utf8SequenceLength_utf8EncodeChar c rest
  cases hp : String.utf8EncodeChar c with
  | nil => exact absurd hp String.utf8EncodeChar_ne_nil
  | cons b p =>
    rw [hp] at hlength
    have hpass := utf8ValidFrom_skip p rest
    simp only [utf8Validate, List.cons_append, utf8ValidFrom] at hlength hpass ⊢
    rw [hlength]
    exact hpass

/-- `af_utf8_validate` accepts the encodings of texts and nothing else. -/
theorem utf8Validate_iff (p : Bytes) : utf8Validate p = true ↔ ∃ cs, p = utf8Text cs := by
  constructor
  · intro h
    induction hn : p.length using Nat.strong_induction_on generalizing p with
    | _ n ih =>
      cases p with
      | nil => exact ⟨[], rfl⟩
      | cons b rest =>
        cases hlength : utf8SequenceLength (b :: rest) with
        | none => simp [utf8Validate, utf8ValidFrom, hlength] at h
        | some found =>
          obtain ⟨c, tail, hsplit, -, -⟩ := exists_char_of_utf8SequenceLength hlength
          rw [hsplit, utf8Validate_char] at h
          have hpos : (String.utf8EncodeChar c).length ≠ 0 :=
            mt List.length_eq_zero_iff.mp String.utf8EncodeChar_ne_nil
          have hlt : tail.length < n := by
            rw [← hn, hsplit, List.length_append]
            omega
          obtain ⟨cs, hcs⟩ := ih tail.length hlt tail h rfl
          exact ⟨c :: cs, by rw [hsplit, hcs]; rfl⟩
  · rintro ⟨cs, rfl⟩
    induction cs with
    | nil => rfl
    | cons c cs ih =>
      have hcons : utf8Text (c :: cs) = String.utf8EncodeChar c ++ utf8Text cs := rfl
      rw [hcons, utf8Validate_char, ih]

end Validate
theorem utf8Text_inj {cs ds : List Char} (h : utf8Text cs = utf8Text ds) : cs = ds := by
  induction cs generalizing ds with
  | nil =>
    cases ds with
    | nil => rfl
    | cons d ds =>
      have hlen := utf8SequenceLength_utf8EncodeChar d (utf8Text ds)
      rw [show String.utf8EncodeChar d ++ utf8Text ds = utf8Text (d :: ds) by simp [utf8Text],
        ← h] at hlen
      simp [utf8Text, utf8SequenceLength] at hlen
  | cons c cs ih =>
    have hc := utf8SequenceLength_utf8EncodeChar c (utf8Text cs)
    rw [show String.utf8EncodeChar c ++ utf8Text cs = utf8Text (c :: cs) by simp [utf8Text],
      h] at hc
    cases ds with
    | nil => simp [utf8Text, utf8SequenceLength] at hc
    | cons d ds =>
      have hd := utf8SequenceLength_utf8EncodeChar d (utf8Text ds)
      rw [show String.utf8EncodeChar d ++ utf8Text ds = utf8Text (d :: ds) by simp [utf8Text],
        hc, Option.some.injEq, Prod.mk.injEq] at hd
      obtain rfl : c = d := Char.ext (UInt32.toNat_inj.mp hd.2)
      simp only [utf8Text, List.flatMap_cons, List.append_cancel_left_eq] at h
      rw [ih h]

end AsmFlow.Json
