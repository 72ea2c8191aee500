import AsmFlow.Json.Depth
import AsmFlow.Library.Cells
import AsmFlow.Machine.Status

/-!
# Text for the terminal

`af_tui_sanitize_utf8` measures a text unit by unit and then writes it unit by unit. A unit
is the encoding of a character, or a byte that does not begin one.
-/

namespace AsmFlow.Tui

open Json Library

/-- What the decoder gives back: the scalar, the bytes it takes, and whether they are well
formed. -/
structure Decoded where
  scalar : ℕ
  consumed : ℕ
  valid : Bool
  deriving DecidableEq, Repr

/-- `.invalid` of the decoder. -/
def Decoded.invalid : Decoded := ⟨0xFFFD, 1, false⟩

/-- `_af_tui_text_decode`, and `_af_tui_decode_one` of the canvas, which is the same code. -/
def decodeOne : Bytes → Decoded
  | [] => .invalid
  | a :: rest =>
    if a < 0x80 then ⟨a.toNat, 1, true⟩
    else if a < 0xC2 then .invalid
    else if a ≤ 0xDF then
      match rest with
      | b :: _ =>
        if continues b = false then .invalid
        else ⟨bits a 0x1F <<< 6 ||| bits b 0x3F, 2, true⟩
      | [] => .invalid
    else if a ≤ 0xEF then
      match rest with
      | b :: c :: _ =>
        if continues b = false then .invalid
        else if continues c = false then .invalid
        else if a = 0xE0 ∧ b < 0xA0 then .invalid
        else if a = 0xED ∧ 0x9F < b then .invalid
        else ⟨bits a 0x0F <<< 12 ||| bits b 0x3F <<< 6 ||| bits c 0x3F, 3, true⟩
      | _ => .invalid
    else if a ≤ 0xF4 then
      match rest with
      | b :: c :: d :: _ =>
        if continues b = false then .invalid
        else if continues c = false then .invalid
        else if continues d = false then .invalid
        else if a = 0xF0 ∧ b < 0x90 then .invalid
        else if a = 0xF4 ∧ 0x8F < b then .invalid
        else ⟨bits a 0x07 <<< 18 ||| bits b 0x3F <<< 12 ||| bits c 0x3F <<< 6 ||| bits d 0x3F,
          4, true⟩
      | _ => .invalid
    else .invalid

/-- The overlong and the surrogate forms of three bytes, by the second byte. -/
theorem three_bytes_excluded {a b c : UInt8} (ha : 0xE0 ≤ a.toNat) (ha' : a.toNat < 0xF0)
    (hb : continues b = true) :
    (bits a 0x0F <<< 12 ||| bits b 0x3F <<< 6 ||| bits c 0x3F < 0x800 ↔
      a.toNat = 0xE0 ∧ b.toNat < 0xA0) ∧
    (0xD800 ≤ bits a 0x0F <<< 12 ||| bits b 0x3F <<< 6 ||| bits c 0x3F ∧
        bits a 0x0F <<< 12 ||| bits b 0x3F <<< 6 ||| bits c 0x3F ≤ 0xDFFF ↔
      a.toNat = 0xED ∧ 0x9F < b.toNat) := by
  rw [continues_iff] at hb
  rw [three_bytes]
  omega

/-- The overlong forms of four bytes, and those beyond the last scalar. -/
theorem four_bytes_excluded {a b c d : UInt8} (ha : 0xF0 ≤ a.toNat) (ha' : a.toNat < 0xF5)
    (hb : continues b = true) :
    (bits a 0x07 <<< 18 ||| bits b 0x3F <<< 12 ||| bits c 0x3F <<< 6 ||| bits d 0x3F < 0x10000 ↔
      a.toNat = 0xF0 ∧ b.toNat < 0x90) ∧
    (0x10FFFF < bits a 0x07 <<< 18 ||| bits b 0x3F <<< 12 ||| bits c 0x3F <<< 6 ||| bits d 0x3F ↔
      a.toNat = 0xF4 ∧ 0x8F < b.toNat) := by
  rw [continues_iff] at hb
  rw [four_bytes]
  omega

/-- The decoder of the console and the validator of the JSON writer read the same sequences,
although one excludes overlong forms by their second byte and the other by their value. -/
theorem decodeOne_eq (p : Bytes) :
    decodeOne p =
      match utf8SequenceLength p with
      | some (n, v) => ⟨v, n, true⟩
      | none => .invalid := by
  cases p with
  | nil => rfl
  | cons a rest =>
    unfold decodeOne utf8SequenceLength
    have ha := a.toNat_lt
    simp only [UInt8.lt_iff_toNat_lt, UInt8.le_iff_toNat_le, ← UInt8.toNat_inj]
    simp only [UInt8.reduceToNat]
    by_cases h1 : a.toNat < 128
    · simp [h1]
    by_cases h2 : a.toNat < 194
    · simp [h1, h2]
    by_cases h3 : a.toNat < 224
    · have h3' : a.toNat ≤ 223 := by omega
      simp only [h1, h2, h3, h3', if_true, if_false]
      cases rest with
      | nil => rfl
      | cons b rest => by_cases hb : continues b = true <;> simp [hb]
    by_cases h4 : a.toNat < 240
    · have h3' : ¬ a.toNat ≤ 223 := by omega
      have h4' : a.toNat ≤ 239 := by omega
      simp only [h1, h2, h3, h3', h4, h4', if_true, if_false]
      rcases rest with _ | ⟨b, _ | ⟨c, rest⟩⟩
      · rfl
      · rfl
      · by_cases hb : continues b = true
        · by_cases hc : continues c = true
          · have hx := three_bytes_excluded (c := c) (by omega) h4 hb
            simp only [hb, hc, Bool.true_eq_false, if_false, hx]
            split_ifs <;> rfl
          · simp [hb, hc]
        · simp [hb]
    · have h3' : ¬ a.toNat ≤ 223 := by omega
      have h4' : ¬ a.toNat ≤ 239 := by omega
      by_cases h5 : a.toNat < 245
      · have h5' : a.toNat ≤ 244 := by omega
        simp only [h1, h2, h3, h3', h4, h4', h5, h5', if_true, if_false]
        rcases rest with _ | ⟨b, _ | ⟨c, _ | ⟨d, rest⟩⟩⟩
        · rfl
        · rfl
        · rfl
        · by_cases hb : continues b = true
          · by_cases hc : continues c = true
            · by_cases hd : continues d = true
              · have hx := four_bytes_excluded (c := c) (d := d) (by omega) h5 hb
                simp only [hb, hc, hd, Bool.true_eq_false, if_false, hx]
                split_ifs <;> rfl
              · simp [hb, hc, hd]
            · simp [hb, hc]
          · simp [hb]
      · have h5' : ¬ a.toNat ≤ 244 := by omega
        simp [h1, h2, h3, h3', h4, h4', h5, h5']

/-! ## Units of a text -/

/-- A unit of a text that need not be well formed. -/
inductive Piece
  | char (c : Char)
  | bad (b : UInt8)
  deriving DecidableEq, Repr

/-- The units of a text. A byte is by itself only where no encoding begins. -/
inductive Decodes : Bytes → List Piece → Prop
  | nil : Decodes [] []
  | char (c : Char) {rest : Bytes} {ps : List Piece} (h : Decodes rest ps) :
      Decodes (String.utf8EncodeChar c ++ rest) (.char c :: ps)
  | bad (b : UInt8) {rest : Bytes} {ps : List Piece}
      (hbad : ∀ c, ¬ String.utf8EncodeChar c <+: b :: rest) (h : Decodes rest ps) :
      Decodes (b :: rest) (.bad b :: ps)

/-- The scalar of a unit. -/
def Piece.scalar : Piece → ℕ
  | .char c => c.val.toNat
  | .bad _ => 0xFFFD

theorem decodeOne_char (c : Char) (rest : Bytes) :
    decodeOne (String.utf8EncodeChar c ++ rest) =
      ⟨c.val.toNat, (String.utf8EncodeChar c).length, true⟩ := by
  rw [decodeOne_eq, utf8SequenceLength_utf8EncodeChar]

theorem decodeOne_bad {p : Bytes} (h : ∀ c, ¬ String.utf8EncodeChar c <+: p) :
    decodeOne p = .invalid := by
  rw [decodeOne_eq]
  cases hlen : utf8SequenceLength p with
  | none => rfl
  | some nv =>
    obtain ⟨c, rest, rfl, -⟩ := exists_char_of_utf8SequenceLength hlen
    exact absurd (List.prefix_append _ rest) (h c)

theorem exists_decodes (p : Bytes) : ∃ ps, Decodes p ps := by
  induction hn : p.length using Nat.strong_induction_on generalizing p with
  | _ n ih =>
    subst hn
    by_cases hchar : ∃ c, String.utf8EncodeChar c <+: p
    · obtain ⟨c, rest, rfl⟩ := hchar
      have hpos : 0 < (String.utf8EncodeChar c).length :=
        List.length_pos_iff.mpr String.utf8EncodeChar_ne_nil
      obtain ⟨ps, hps⟩ := ih rest.length (by rw [List.length_append]; omega) rest rfl
      exact ⟨_, .char c hps⟩
    · cases p with
      | nil => exact ⟨[], .nil⟩
      | cons b rest =>
        obtain ⟨ps, hps⟩ := ih rest.length (by simp) rest rfl
        exact ⟨_, .bad b (not_exists.mp hchar) hps⟩

theorem decodes_text (cs : List Char) : Decodes (utf8Text cs) (cs.map .char) := by
  induction cs with
  | nil => exact .nil
  | cons c cs ih => exact .char c ih

theorem Decodes.unique {p : Bytes} {ps qs : List Piece} (hp : Decodes p ps) (hq : Decodes p qs) :
    ps = qs := by
  induction hp generalizing qs with
  | nil =>
    generalize hnil : ([] : Bytes) = p at hq
    cases hq with
    | nil => rfl
    | char c h =>
      exact absurd (List.append_eq_nil_iff.mp hnil.symm).1 String.utf8EncodeChar_ne_nil
    | bad b hbad h => cases hnil
  | @char c rest ps h ih =>
    generalize hsame : String.utf8EncodeChar c ++ rest = p at hq
    cases hq with
    | nil => exact absurd (List.append_eq_nil_iff.mp hsame).1 String.utf8EncodeChar_ne_nil
    | char d h' =>
      have hdecode := decodeOne_char c rest
      rw [hsame, decodeOne_char] at hdecode
      obtain rfl : d = c := Char.ext (UInt32.toNat_inj.mp (congrArg Decoded.scalar hdecode))
      rw [ih (List.append_cancel_left hsame ▸ h')]
    | bad b hbad h' => exact absurd ⟨rest, hsame⟩ (hbad c)
  | @bad b rest ps hbad h ih =>
    generalize hsame : b :: rest = p at hq
    cases hq with
    | nil => cases hsame
    | char d h' => exact absurd ⟨_, hsame.symm⟩ (hbad d)
    | bad b' hbad' h' =>
      obtain ⟨rfl, rfl⟩ := List.cons.inj hsame
      rw [ih h']

/-! ## The sanitiser -/

/-- `AF_TUI_TEXT_MAX_BYTES` -/
def textMaxBytes : ℕ := 1024 * 1024

/-- `hex_digits` -/
def hexDigits : Bytes :=
  [0x30, 0x31, 0x32, 0x33, 0x34, 0x35, 0x36, 0x37, 0x38, 0x39, 0x41, 0x42, 0x43, 0x44, 0x45, 0x46]

/-- `_af_tui_text_output_len` -/
def outputLen (d : Decoded) : ℕ :=
  if d.valid = false then 3
  else if d.scalar < 0x20 then 4
  else if d.scalar = 0x7F then 4
  else if d.scalar < 0x80 then d.consumed
  else if d.scalar ≤ 0x9F then 6
  else d.consumed

/-- The bytes that `.emit` stores for the unit at the front of the source. -/
def emitted (d : Decoded) (src : Bytes) : Bytes :=
  if d.valid = false then [0xEF, 0xBF, 0xBD]
  else if d.scalar < 0x20 ∨ d.scalar = 0x7F then
    [0x5C, 0x78, hexDigits.getD (d.scalar >>> 4 &&& 15) 0, hexDigits.getD (d.scalar &&& 15) 0]
  else if d.scalar < 0x80 then src.take d.consumed
  else if d.scalar ≤ 0x9F then
    [0x5C, 0x75, 0x30, 0x30, hexDigits.getD (d.scalar >>> 4 &&& 15) 0,
      hexDigits.getD (d.scalar &&& 15) 0]
  else src.take d.consumed

theorem decodeOne_consumed (p : Bytes) : 0 < (decodeOne p).consumed := by
  rw [decodeOne_eq]
  cases hlen : utf8SequenceLength p with
  | none => exact Nat.one_pos
  | some nv =>
    obtain ⟨c, rest, -, hn, -⟩ := exists_char_of_utf8SequenceLength hlen
    change 0 < nv.1
    rw [hn]
    exact List.length_pos_iff.mpr String.utf8EncodeChar_ne_nil

/-- `.measure`, with the output that is required so far. -/
def measure (required : ℕ) (src : Bytes) : Except Status ℕ :=
  if _hsrc : src = [] then .ok required
  else
    let d := decodeOne src
    if 2 ^ 64 ≤ required + outputLen d then .error .overflow
    else measure (required + outputLen d) (src.drop d.consumed)
termination_by src.length
decreasing_by
  have hpos := decodeOne_consumed src
  have hlen := List.length_pos_iff.mpr _hsrc
  rw [List.length_drop]
  omega

/-- `.emit`, from an offset of the destination. -/
def emit (mem : Bytes) (out : ℕ) (src : Bytes) : Bytes :=
  if _hsrc : src = [] then mem
  else
    let d := decodeOne src
    emit (store mem out (emitted d src)) (out + (emitted d src).length) (src.drop d.consumed)
termination_by src.length
decreasing_by
  have hpos := decodeOne_consumed src
  have hlen := List.length_pos_iff.mpr _hsrc
  rw [List.length_drop]
  omega

/-- What a call leaves: its status, the destination and `out_len`. -/
structure Output where
  status : Status
  dst : Option Bytes
  outLen : ℕ
  deriving DecidableEq, Repr

/-- `af_tui_sanitize_utf8`. The destination is the memory behind the pointer, `none` where
there is none. -/
def sanitizeUtf8 (src : Bytes) (dst : Option Bytes) (capacity outLen : ℕ) : Output :=
  if textMaxBytes < src.length then ⟨.limit, dst, outLen⟩
  else if dst = none ∧ capacity ≠ 0 then ⟨.invalid, dst, outLen⟩
  else
    match measure 0 src with
    | .error e => ⟨e, dst, outLen⟩
    | .ok required =>
      match dst with
      | none => ⟨.ok, none, required⟩
      | some mem =>
        if capacity < required then ⟨.limit, some mem, outLen⟩
        else ⟨.ok, some (emit mem 0 src), required⟩

/-! ## What the sanitiser writes -/

/-- A control character: C0, DEL or C1. -/
def IsControl (c : Char) : Prop :=
  c.val.toNat < 0x20 ∨ 0x7F ≤ c.val.toNat ∧ c.val.toNat ≤ 0x9F

instance (c : Char) : Decidable (IsControl c) := inferInstanceAs (Decidable (_ ∨ _))

/-- An upper-case hexadecimal digit. -/
def hexChar (n : ℕ) : Char := "0123456789ABCDEF".toList.getD n '0'

/-- The characters that stand for a unit. -/
def Piece.shown : Piece → List Char
  | .char c =>
    if ¬ IsControl c then [c]
    else if c.val.toNat < 0x80 then
      ['\\', 'x', hexChar (c.val.toNat / 16), hexChar (c.val.toNat % 16)]
    else ['\\', 'u', '0', '0', hexChar (c.val.toNat / 16), hexChar (c.val.toNat % 16)]
  | .bad _ => ['\uFFFD']

/-- The text that stands for a text. -/
def shownText (ps : List Piece) : List Char := ps.flatMap Piece.shown

theorem control_shown : ∀ n < 0xA0,
    IsControl (Char.ofNat n) →
      utf8Text (Piece.shown (.char (Char.ofNat n))) = emitted ⟨n, 1, true⟩ [] ∧
      (emitted ⟨n, 1, true⟩ []).length = outputLen ⟨n, 1, true⟩ ∧
      ∀ c ∈ Piece.shown (.char (Char.ofNat n)), ¬ IsControl c := by
  have table : ∀ n < 0xA0,
      IsControl (Char.ofNat n) →
        utf8Text (Piece.shown (.char (Char.ofNat n))) = emitted ⟨n, 1, true⟩ [] ∧
        (emitted ⟨n, 1, true⟩ []).length = outputLen ⟨n, 1, true⟩ ∧
        (Piece.shown (.char (Char.ofNat n))).all (fun c => !decide (IsControl c)) = true := by
    decide +kernel
  simpa using table

theorem shown_char (c : Char) (rest : Bytes) :
    emitted (decodeOne (String.utf8EncodeChar c ++ rest)) (String.utf8EncodeChar c ++ rest) =
        utf8Text (Piece.shown (.char c)) ∧
      outputLen (decodeOne (String.utf8EncodeChar c ++ rest)) =
        (utf8Text (Piece.shown (.char c))).length := by
  rw [decodeOne_char]
  by_cases hc : IsControl c
  · have hlt : c.val.toNat < 0xA0 := by
      simp only [IsControl] at hc
      omega
    have hchar : Char.ofNat c.val.toNat = c := Char.ofNat_toNat c
    obtain ⟨htext, hlen, -⟩ := control_shown c.val.toNat hlt (hchar.symm ▸ hc)
    rw [hchar] at htext
    have hsame : emitted ⟨c.val.toNat, (String.utf8EncodeChar c).length, true⟩
        (String.utf8EncodeChar c ++ rest) = emitted ⟨c.val.toNat, 1, true⟩ [] := by
      simp only [emitted, IsControl] at hc ⊢
      split_ifs <;> first | rfl | omega
    have hsize : outputLen ⟨c.val.toNat, (String.utf8EncodeChar c).length, true⟩ =
        outputLen ⟨c.val.toNat, 1, true⟩ := by
      simp only [outputLen, IsControl] at hc ⊢
      split_ifs <;> first | rfl | omega
    exact ⟨hsame.trans htext.symm, by rw [hsize, ← hlen, htext]⟩
  · have hshown : utf8Text (Piece.shown (.char c)) = String.utf8EncodeChar c := by
      simp [Piece.shown, hc, utf8Text]
    have htake : (String.utf8EncodeChar c ++ rest).take (String.utf8EncodeChar c).length =
        String.utf8EncodeChar c := List.take_left
    simp only [IsControl] at hc
    rw [hshown]
    constructor
    · simp only [emitted, Bool.true_eq_false, if_false]
      split_ifs <;> first | exact htake | omega
    · simp only [outputLen, Bool.true_eq_false, if_false]
      split_ifs <;> first | rfl | omega

theorem shown_bad {b : UInt8} {rest : Bytes} (h : ∀ c, ¬ String.utf8EncodeChar c <+: b :: rest) :
    emitted (decodeOne (b :: rest)) (b :: rest) = utf8Text (Piece.shown (.bad b)) ∧
      outputLen (decodeOne (b :: rest)) = (utf8Text (Piece.shown (.bad b))).length := by
  have hbytes : utf8Text (Piece.shown (.bad b)) = [0xEF, 0xBF, 0xBD] := by
    change utf8Text ['\uFFFD'] = [0xEF, 0xBF, 0xBD]
    decide
  rw [decodeOne_bad h, hbytes]
  exact ⟨rfl, rfl⟩

theorem drop_consumed_char (c : Char) (rest : Bytes) :
    (String.utf8EncodeChar c ++ rest).drop
      (decodeOne (String.utf8EncodeChar c ++ rest)).consumed = rest := by
  rw [decodeOne_char]
  exact List.drop_left

theorem drop_consumed_bad {b : UInt8} {rest : Bytes}
    (h : ∀ c, ¬ String.utf8EncodeChar c <+: b :: rest) :
    (b :: rest).drop (decodeOne (b :: rest)).consumed = rest := by
  rw [decodeOne_bad h]
  rfl

theorem outputLen_le (p : Bytes) : outputLen (decodeOne p) ≤ 6 * (decodeOne p).consumed := by
  have := decodeOne_consumed p
  unfold outputLen
  split_ifs <;> omega

/-- A unit and the rest, as the two passes go through them. -/
theorem Decodes.next {p : Bytes} {ps : List Piece} (h : Decodes p ps) :
    (p = [] ∧ ps = []) ∨ ∃ q qs, p ≠ [] ∧ ps = q :: qs ∧
      Decodes (p.drop (decodeOne p).consumed) qs ∧
      emitted (decodeOne p) p = utf8Text q.shown ∧
      outputLen (decodeOne p) = (utf8Text q.shown).length ∧
      (decodeOne p).scalar = q.scalar ∧
      (p.drop (decodeOne p).consumed).length + (decodeOne p).consumed = p.length := by
  cases h with
  | nil => exact Or.inl ⟨rfl, rfl⟩
  | char c h =>
    rename_i rest qs
    right
    refine ⟨.char c, qs, ?_, rfl, ?_, (shown_char c rest).1, (shown_char c rest).2, ?_, ?_⟩
    · simp [String.utf8EncodeChar_ne_nil]
    · rwa [drop_consumed_char]
    · rw [decodeOne_char]
      rfl
    · rw [drop_consumed_char, decodeOne_char, List.length_append, Nat.add_comm]
  | bad b hbad h =>
    rename_i rest qs
    right
    refine ⟨.bad b, qs, by simp, rfl, ?_, (shown_bad hbad).1, (shown_bad hbad).2, ?_, ?_⟩
    · rwa [drop_consumed_bad hbad]
    · rw [decodeOne_bad hbad]
      rfl
    · rw [drop_consumed_bad hbad, decodeOne_bad hbad]
      rfl

theorem measure_eq {p : Bytes} {ps : List Piece} (h : Decodes p ps) {required : ℕ}
    (hword : required + 6 * p.length < 2 ^ 64) :
    measure required p = .ok (required + (utf8Text (shownText ps)).length) := by
  induction ps generalizing p required with
  | nil =>
    rcases h.next with ⟨rfl, -⟩ | ⟨q, qs, -, hps, -⟩
    · rw [measure]
      rfl
    · cases hps
  | cons q qs ih =>
    rcases h.next with ⟨-, hps⟩ | ⟨q', qs', hne, hps, hrest, -, hlen, -, hcount⟩
    · cases hps
    · obtain ⟨rfl, rfl⟩ := List.cons.inj hps
      have hle := outputLen_le p
      rw [measure, dif_neg hne]
      simp only [show ¬ 2 ^ 64 ≤ required + outputLen (decodeOne p) by omega, if_false]
      rw [ih hrest (by omega), hlen]
      simp [shownText, utf8Text_append, Nat.add_assoc]

theorem emit_eq {p : Bytes} {ps : List Piece} (h : Decodes p ps) {mem : Bytes} {out : ℕ}
    (hroom : out + (utf8Text (shownText ps)).length ≤ mem.length) :
    emit mem out p = store mem out (utf8Text (shownText ps)) := by
  induction ps generalizing p mem out with
  | nil =>
    rcases h.next with ⟨rfl, -⟩ | ⟨q, qs, -, hps, -⟩
    · rw [emit]
      simp [shownText, utf8Text, store]
    · cases hps
  | cons q qs ih =>
    rcases h.next with ⟨-, hps⟩ | ⟨q', qs', hne, hps, hrest, htext, -⟩
    · cases hps
    · obtain ⟨rfl, rfl⟩ := List.cons.inj hps
      have hsplit : utf8Text (shownText (q :: qs)) =
          utf8Text q.shown ++ utf8Text (shownText qs) := by
        simp [shownText, utf8Text_append]
      rw [hsplit, List.length_append] at hroom
      rw [emit, dif_neg hne]
      simp only [htext]
      rw [ih hrest, store_store, hsplit]
      · omega
      · rw [length_store]
        · omega
        · omega

theorem shown_no_control (q : Piece) : ∀ c ∈ q.shown, ¬ IsControl c := by
  cases q with
  | bad b =>
    intro c hc
    obtain rfl := List.mem_singleton.mp hc
    decide
  | char c =>
    by_cases hc : IsControl c
    · have hlt : c.val.toNat < 0xA0 := by
        simp only [IsControl] at hc
        omega
      have hchar : Char.ofNat c.val.toNat = c := Char.ofNat_toNat c
      have hshown := (control_shown c.val.toNat hlt (hchar.symm ▸ hc)).2.2
      rwa [hchar] at hshown
    · simp [Piece.shown, hc]

/-- A text without control characters stands for itself. -/
theorem shownText_of_clean {cs : List Char} (h : ∀ c ∈ cs, ¬ IsControl c) :
    shownText (cs.map .char) = cs := by
  induction cs with
  | nil => rfl
  | cons c cs ih =>
    have hrest := ih fun d hd => h d (List.mem_cons_of_mem c hd)
    simp only [shownText, List.map_cons, List.flatMap_cons] at hrest ⊢
    rw [hrest]
    simp [Piece.shown, h c List.mem_cons_self]

section Sanitize

variable {src : Bytes} {ps : List Piece}

theorem measure_zero (h : Decodes src ps) (hsize : src.length ≤ textMaxBytes) :
    measure 0 src = .ok (utf8Text (shownText ps)).length := by
  have hword : 0 + 6 * src.length < 2 ^ 64 := by
    simp only [textMaxBytes] at hsize
    omega
  simpa using measure_eq h hword

theorem sanitizeUtf8_query (h : Decodes src ps) (hsize : src.length ≤ textMaxBytes) (outLen : ℕ) :
    sanitizeUtf8 src none 0 outLen = ⟨.ok, none, (utf8Text (shownText ps)).length⟩ := by
  simp [sanitizeUtf8, not_lt.mpr hsize, measure_zero h hsize]

theorem sanitizeUtf8_some (h : Decodes src ps) (hsize : src.length ≤ textMaxBytes) {mem : Bytes}
    {capacity : ℕ} (hcapacity : capacity ≤ mem.length) (outLen : ℕ) :
    sanitizeUtf8 src (some mem) capacity outLen =
      if (utf8Text (shownText ps)).length ≤ capacity then
        ⟨.ok, some (utf8Text (shownText ps) ++ mem.drop (utf8Text (shownText ps)).length),
          (utf8Text (shownText ps)).length⟩
      else ⟨.limit, some mem, outLen⟩ := by
  simp only [sanitizeUtf8, not_lt.mpr hsize, reduceCtorEq, false_and, if_false,
    measure_zero h hsize]
  split_ifs with hover hfits hfits
  · omega
  · rfl
  · rw [emit_eq h (by omega)]
    simp [store]
  · omega

end Sanitize

/-- The text that stands for what has been read is measured, and written where there is room
for it; it holds no control character, and it stands for itself. -/
theorem sanitizeUtf8_exact (src : Bytes) (hsize : src.length ≤ textMaxBytes) :
    ∃ ps out, (Decodes src ps ∧ ∀ qs, Decodes src qs → qs = ps) ∧
      out = utf8Text (shownText ps) ∧ (∀ c ∈ shownText ps, ¬ IsControl c) ∧
      (∀ outLen, sanitizeUtf8 src none 0 outLen = ⟨.ok, none, out.length⟩) ∧
      (∀ (mem : Bytes) (capacity outLen : ℕ), capacity ≤ mem.length →
        sanitizeUtf8 src (some mem) capacity outLen =
          if out.length ≤ capacity then ⟨.ok, some (out ++ mem.drop out.length), out.length⟩
          else ⟨.limit, some mem, outLen⟩) ∧
      ∀ (mem : Bytes) (capacity outLen : ℕ), capacity ≤ mem.length → out.length ≤ capacity →
        out.length ≤ textMaxBytes →
        sanitizeUtf8 out (some mem) capacity outLen =
          ⟨.ok, some (out ++ mem.drop out.length), out.length⟩ := by
  obtain ⟨ps, hps⟩ := exists_decodes src
  have hclean : ∀ c ∈ shownText ps, ¬ IsControl c := by
    intro c hc
    obtain ⟨q, -, hq⟩ := List.mem_flatMap.mp hc
    exact shown_no_control q c hq
  refine ⟨ps, _, ⟨hps, fun qs hqs => hqs.unique hps⟩, rfl, hclean, ?_, ?_, ?_⟩
  · intro outLen
    exact sanitizeUtf8_query hps hsize outLen
  · intro mem capacity outLen hcapacity
    exact sanitizeUtf8_some hps hsize hcapacity outLen
  · intro mem capacity outLen hcapacity hfits hagain
    -- what is written decodes to its own characters, and none of them is a control character
    rw [sanitizeUtf8_some (decodes_text (shownText ps)) hagain hcapacity,
      shownText_of_clean hclean, if_pos hfits]

/-- An escape, a C1 control and an overlong form. -/
theorem sanitizeUtf8_exact_controls :
    ∃ ps out, Decodes [0x1B, 0xC2, 0x9B, 0xC0, 0xAF] ps ∧ out = utf8Text (shownText ps) ∧
      sanitizeUtf8 [0x1B, 0xC2, 0x9B, 0xC0, 0xAF] none 0 7 = ⟨.ok, none, out.length⟩ := by
  obtain ⟨ps, out, hps, hout, -, hquery, -⟩ :=
    sanitizeUtf8_exact [0x1B, 0xC2, 0x9B, 0xC0, 0xAF] (by decide)
  exact ⟨ps, out, hps.1, hout, hquery 7⟩

end AsmFlow.Tui
