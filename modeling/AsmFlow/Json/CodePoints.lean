import AsmFlow.Json.Utf8

/-!
# The code points of a text

The lengths that `af_utf8_sequence_length` returns, one after the other, against
the characters that a valid text is made of.
-/

namespace AsmFlow.Json

/-- The sequences as the loop of `af_utf8_validate` steps over them: the length and the code
point of each, up to the first that is not well formed. -/
def utf8Sequences : ℕ → Bytes → List (ℕ × ℕ)
  | _, [] => []
  | skip + 1, _ :: rest => utf8Sequences skip rest
  | 0, b :: rest =>
    match utf8SequenceLength (b :: rest) with
    | none => []
    | some (n, v) => (n, v) :: utf8Sequences (n - 1) rest

theorem utf8Sequences_skip (p rest : Bytes) :
    utf8Sequences p.length (p ++ rest) = utf8Sequences 0 rest := by
  induction p with
  | nil => rfl
  | cons b p ih => exact ih

theorem utf8Sequences_char (c : Char) (rest : Bytes) :
    utf8Sequences 0 (String.utf8EncodeChar c ++ rest) =
      ((String.utf8EncodeChar c).length, c.val.toNat) :: utf8Sequences 0 rest := by
  have hlength := utf8SequenceLength_utf8EncodeChar c rest
  cases hp : String.utf8EncodeChar c with
  | nil => exact absurd hp String.utf8EncodeChar_ne_nil
  | cons b p =>
    rw [hp] at hlength
    have hpass := utf8Sequences_skip p rest
    simp only [List.cons_append, utf8Sequences] at hlength hpass ⊢
    rw [hlength]
    exact congrArg _ hpass

theorem utf8Sequences_text (cs : List Char) :
    utf8Sequences 0 (utf8Text cs) =
      cs.map fun c => ((String.utf8EncodeChar c).length, c.val.toNat) := by
  induction cs with
  | nil => rfl
  | cons c cs ih =>
    have hcons : utf8Text (c :: cs) = String.utf8EncodeChar c ++ utf8Text cs := rfl
    rw [hcons, utf8Sequences_char, ih]
    rfl

/-- What is measured at the front is a character's encoding, and all of it. -/
theorem utf8SequenceLength_iff (p : Bytes) (n v : ℕ) :
    utf8SequenceLength p = some (n, v) ↔
      ∃ (c : Char) (rest : Bytes), p = String.utf8EncodeChar c ++ rest ∧
        n = (String.utf8EncodeChar c).length ∧ v = c.val.toNat := by
  constructor
  · exact exists_char_of_utf8SequenceLength
  · rintro ⟨c, rest, rfl, rfl, rfl⟩
    exact utf8SequenceLength_utf8EncodeChar c rest

/-- **UTF-8 validation is exact: what is accepted is the encoding of one text, and the
sequences measured in it are its characters with their code points.** -/
theorem utf8Validate_exact (p : Bytes) :
    (utf8Validate p = true ↔ ∃! cs : List Char, p = utf8Text cs) ∧
      (∀ cs : List Char, utf8Sequences 0 (utf8Text cs) =
        cs.map fun c => ((String.utf8EncodeChar c).length, c.val.toNat)) ∧
      ∀ n v, utf8SequenceLength p = some (n, v) ↔
        ∃ (c : Char) (rest : Bytes), p = String.utf8EncodeChar c ++ rest ∧
          n = (String.utf8EncodeChar c).length ∧ v = c.val.toNat := by
  refine ⟨?_, utf8Sequences_text, utf8SequenceLength_iff p⟩
  rw [utf8Validate_iff]
  constructor
  · rintro ⟨cs, rfl⟩
    exact ⟨cs, rfl, fun ds hds => (utf8Text_inj hds).symm⟩
  · rintro ⟨cs, hcs, -⟩
    exact ⟨cs, hcs⟩

end AsmFlow.Json
