import AsmFlow.Json.CodePoints
import AsmFlow.Json.Plan
import AsmFlow.Json.WellFormed
import AsmFlow.Library.JsonStrings

/-!
# Strings read back

What `af_jw_emit_string` appends is read as a JSON string: it says the text it
was given, with a replacement character for every byte at which no character
begins.
-/

namespace AsmFlow.Json

open Http Library Library.Json

/-- `U+FFFD`, as a character. -/
def replacementChar : Char := Char.ofNat 0xFFFD

/-- `cs` is what the bytes say, character by character, with a replacement for each byte at
which no well-formed sequence begins. -/
inductive Sanitised : Bytes → List Char → Prop
  | nil : Sanitised [] []
  | char (c : Char) {rest : Bytes} {cs : List Char} (h : Sanitised rest cs) :
      Sanitised (String.utf8EncodeChar c ++ rest) (c :: cs)
  | replaced (b : UInt8) {rest : Bytes} {cs : List Char}
      (hbad : ∀ c, ¬String.utf8EncodeChar c <+: b :: rest) (h : Sanitised rest cs) :
      Sanitised (b :: rest) (replacementChar :: cs)

theorem encode_prefix_inj {c d : Char} {p q : Bytes}
    (h : String.utf8EncodeChar c ++ p = String.utf8EncodeChar d ++ q) : c = d ∧ p = q := by
  have hc := utf8SequenceLength_utf8EncodeChar c p
  rw [h, utf8SequenceLength_utf8EncodeChar, Option.some.injEq, Prod.mk.injEq] at hc
  obtain rfl : d = c := Char.ext (UInt32.toNat_inj.mp hc.2)
  exact ⟨rfl, List.append_cancel_left h⟩

/-- Bytes say one thing. -/
theorem Sanitised.unique {s : Bytes} {cs ds : List Char} (h : Sanitised s cs)
    (h' : Sanitised s ds) : cs = ds := by
  induction h generalizing ds with
  | nil =>
    generalize hs : ([] : Bytes) = s at h'
    cases h' with
    | nil => rfl
    | char c => exact absurd (List.append_eq_nil_iff.mp hs.symm).1 String.utf8EncodeChar_ne_nil
    | replaced b => cases hs
  | @char c rest cs _ ih =>
    generalize hs : String.utf8EncodeChar c ++ rest = s at h'
    cases h' with
    | nil => exact absurd (List.append_eq_nil_iff.mp hs).1 String.utf8EncodeChar_ne_nil
    | char d hrest =>
      obtain ⟨rfl, rfl⟩ := encode_prefix_inj hs
      rw [ih hrest]
    | replaced b hbad => exact absurd ⟨rest, hs⟩ (hbad c)
  | @replaced b rest cs hbad _ ih =>
    generalize hs : b :: rest = s at h'
    cases h' with
    | nil => cases hs
    | char d hrest => exact absurd ⟨_, hs.symm⟩ (hbad d)
    | replaced b' _ hrest =>
      obtain ⟨rfl, rfl⟩ := List.cons.inj hs
      rw [ih hrest]

/-- A valid text says itself. -/
theorem sanitised_text (cs : List Char) : Sanitised (utf8Text cs) cs := by
  induction cs with
  | nil => exact .nil
  | cons c cs ih => exact .char c ih

/-! ## One character -/

/-- `p` is a printable piece of a JSON string that stands for `x`. -/
structure Writes (p : Bytes) (x : Char) : Prop where
  means : ∃ cs, p = utf8Text cs ∧ Means cs x
  printable : ∀ b ∈ p, 0x20 ≤ b ∧ b ≠ 0x7F

theorem writes_char {c : Char} (hwide : 0x80 ≤ c.val.toNat) :
    Writes (String.utf8EncodeChar c) c := by
  have hquote : c ≠ '"' := by
    rintro rfl
    exact absurd hwide (by decide)
  have hslash : c ≠ '\\' := by
    rintro rfl
    exact absurd hwide (by decide)
  refine ⟨⟨[c], by simp [utf8Text], means_plain hquote hslash (le_trans (by decide) hwide)⟩, ?_⟩
  have hbytes := utf8EncodeChar_toNat c
  rw [if_neg (not_lt.mpr hwide)] at hbytes
  have hall : ∀ n ∈ (String.utf8EncodeChar c).map UInt8.toNat, 0x80 ≤ n := by
    rw [hbytes]
    split_ifs
    · simp only [List.forall_mem_cons]
      exact ⟨by omega, by omega, List.forall_mem_nil _⟩
    · simp only [List.forall_mem_cons]
      exact ⟨by omega, by omega, by omega, List.forall_mem_nil _⟩
    · simp only [List.forall_mem_cons]
      exact ⟨by omega, by omega, by omega, by omega, List.forall_mem_nil _⟩
  intro b hb
  have hb' := hall b.toNat (List.mem_map_of_mem hb)
  refine ⟨UInt8.le_iff_toNat_le.mpr (le_trans (by decide) hb'), ?_⟩
  rintro rfl
  exact absurd hb' (by decide)

/-- The character of a single byte. -/
theorem encode_ascii {b : UInt8} (h : b < 0x80) :
    ∃ c : Char, c.val.toNat = b.toNat ∧ String.utf8EncodeChar c = [b] := by
  have hb : b.toNat < 0x80 := UInt8.lt_iff_toNat_lt.mp h
  obtain ⟨c, hc, henc⟩ := exists_char_of_bytes (p := [b]) (v := b.toNat) (Or.inl (by omega))
    (by rw [if_pos hb]; rfl)
  exact ⟨c, hc, henc.symm⟩

theorem writes_ascii {b : UInt8} (hhigh : b < 0x80) (hlow : ¬b < 0x20) (hquote : b ≠ 0x22)
    (hslash : b ≠ 0x5C) (hdel : b ≠ 0x7F) {c : Char} (hc : String.utf8EncodeChar c = [b])
    (hval : c.val.toNat = b.toNat) : Writes [b] c := by
  refine ⟨⟨[c], by simp [utf8Text, hc], means_plain ?_ ?_ ?_⟩, ?_⟩
  · rintro rfl
    exact hquote (UInt8.toNat_inj.mp hval.symm)
  · rintro rfl
    exact hslash (UInt8.toNat_inj.mp hval.symm)
  · change 0x20 ≤ c.val.toNat
    rw [hval]
    exact UInt8.le_iff_toNat_le.mp (UInt8.not_lt.mp hlow)
  · intro b' hb'
    obtain rfl := List.mem_singleton.mp hb'
    exact ⟨UInt8.not_lt.mp hlow, hdel⟩

/-- A short escape. -/
theorem writes_short {e : UInt8} {c x : Char} (hc : c ≠ 'u')
    (hx : shortEscapes.lookup c = some x) (he : String.utf8EncodeChar c = [e])
    (hprintable : 0x20 ≤ e ∧ e ≠ 0x7F) : Writes [0x5C, e] x := by
  refine ⟨⟨['\\', c], ?_, means_short hc hx⟩, ?_⟩
  · simp only [utf8Text, List.flatMap_cons, List.flatMap_nil, he]
    rfl
  · intro b hb
    simp only [List.mem_cons, List.not_mem_nil, or_false] at hb
    rcases hb with rfl | rfl
    · decide
    · exact hprintable

/-- The digits of an escape, as characters. -/
theorem hexDigit_char {n : UInt8} (h : n < 16) :
    ∃ c : Char, String.utf8EncodeChar c = [hexDigit n] ∧ hexValue c = some n.toNat ∧
      0x20 ≤ hexDigit n ∧ hexDigit n ≠ 0x7F := by
  have table : ∀ m : Fin 16,
      String.utf8EncodeChar (Char.ofNat (hexDigit (UInt8.ofNat m.val)).toNat) =
          [hexDigit (UInt8.ofNat m.val)] ∧
        hexValue (Char.ofNat (hexDigit (UInt8.ofNat m.val)).toNat) = some m.val ∧
        0x20 ≤ hexDigit (UInt8.ofNat m.val) ∧ hexDigit (UInt8.ofNat m.val) ≠ 0x7F := by
    decide
  have hn := table ⟨n.toNat, h⟩
  rw [UInt8.ofNat_toNat] at hn
  exact ⟨_, hn⟩

theorem high_digit (b : UInt8) : (b >>> 4 &&& 15).toNat = b.toNat / 16 := by
  have hb : b.toNat / 16 < 16 := by
    have := b.toNat_lt
    omega
  rw [UInt8.toNat_and, UInt8.toNat_shiftRight]
  change b.toNat >>> 4 &&& (2 ^ 4 - 1) = _
  rw [Nat.and_two_pow_sub_one_eq_mod, Nat.shiftRight_eq_div_pow]
  exact Nat.mod_eq_of_lt hb

theorem low_digit (b : UInt8) : (b &&& 15).toNat = b.toNat % 16 := by
  rw [UInt8.toNat_and]
  exact Nat.and_two_pow_sub_one_eq_mod b.toNat 4

/-- A control byte is escaped. -/
theorem writes_control {b : UInt8} (h : b < 0x80) {c : Char} (hc : c.val.toNat = b.toNat) :
    Writes (controlPieces b).flatten c := by
  have hval : c = Char.ofNat b.toNat := by
    rw [← hc]
    exact (Char.ofNat_toNat c).symm
  unfold controlPieces
  split_ifs with hb hf hn hr ht
  · subst hb hval
    exact writes_short (c := 'b') (by decide) (by decide) (by decide) (by decide)
  · subst hf hval
    exact writes_short (c := 'f') (by decide) (by decide) (by decide) (by decide)
  · subst hn hval
    exact writes_short (c := 'n') (by decide) (by decide) (by decide) (by decide)
  · subst hr hval
    exact writes_short (c := 'r') (by decide) (by decide) (by decide) (by decide)
  · subst ht hval
    exact writes_short (c := 't') (by decide) (by decide) (by decide) (by decide)
  · obtain ⟨hi, hhi, hhival, hhiprint⟩ := hexDigit_char (and_15_lt (b >>> 4))
    obtain ⟨lo, hlo, hloval, hloprint⟩ := hexDigit_char (and_15_lt b)
    rw [high_digit] at hhival
    rw [low_digit] at hloval
    have hzero : hexValue '0' = some 0 := by decide
    have hsmall : b.toNat < 0x80 := UInt8.lt_iff_toNat_lt.mp h
    have hcode : 16 * (16 * (16 * 0 + 0) + b.toNat / 16) + b.toNat % 16 = b.toNat := by omega
    have hmeans := means_unicode hzero hzero hhival hloval
      (by rw [hcode]; exact fun h => absurd h.1 (by omega))
      (by rw [hcode]; exact fun h => absurd h.1 (by omega))
    rw [hcode, ← hval] at hmeans
    refine ⟨⟨_, ?_, hmeans⟩, ?_⟩
    · simp only [utf8Text, List.flatMap_cons, List.flatMap_nil, hhi, hlo, List.flatten_cons,
        List.flatten_nil]
      rfl
    · have hpre : ∀ b ∈ ascii "\\u00", 0x20 ≤ b ∧ b ≠ 0x7F := by simp [ascii]
      intro b' hb'
      simp only [List.flatten_cons, List.flatten_nil, List.mem_append, List.mem_singleton,
        List.not_mem_nil, or_false] at hb'
      rcases hb' with hfirst | rfl | rfl
      · exact hpre b' hfirst
      · exact hhiprint
      · exact hloprint

/-! ## The string -/

theorem stringPieces_drop (skip : ℕ) (s : Bytes) :
    stringPieces skip s = stringPieces 0 (s.drop skip) := by
  induction s generalizing skip with
  | nil => rw [List.drop_nil]; cases skip <;> rfl
  | cons b s ih =>
    cases skip with
    | zero => rfl
    | succ skip => exact ih skip

/-- What is written between the quotes, and what it means. -/
structure Reads (s t : Bytes) (value : List Char) : Prop where
  text : ∃ cs, t = utf8Text cs ∧ unescape .text (cs ++ ['"']) = some value
  printable : ∀ b ∈ t, 0x20 ≤ b ∧ b ≠ 0x7F
  sanitised : Sanitised s value

theorem Reads.cons {p s t : Bytes} {x : Char} {value : List Char} (hp : Writes p x)
    (h : Reads s t value) {s' : Bytes} (hs' : Sanitised s' (x :: value)) :
    Reads s' (p ++ t) (x :: value) := by
  obtain ⟨cs, rfl, hmeans⟩ := hp.means
  obtain ⟨ds, rfl, hvalue⟩ := h.text
  refine ⟨⟨cs ++ ds, (utf8Text_append cs ds).symm, ?_⟩, ?_, hs'⟩
  · rw [List.append_assoc]
    exact hmeans.value hvalue
  · intro b hb
    exact (List.mem_append.mp hb).elim (hp.printable b) (h.printable b)

theorem reads_stringPieces (s : Bytes) : ∃ value, Reads s (stringPieces 0 s).flatten value := by
  induction hn : s.length using Nat.strong_induction_on generalizing s with
  | _ n ih =>
    cases s with
    | nil => exact ⟨[], ⟨[], rfl, unescape_end⟩, nofun, .nil⟩
    | cons b rest =>
      have hshorter : rest.length < n := by
        rw [← hn]
        exact Nat.lt_succ_self _
      obtain ⟨value, hvalue⟩ := ih _ hshorter rest rfl
      rw [stringPieces]
      by_cases hhigh : 0x80 ≤ b
      · rw [if_pos hhigh]
        cases hlength : utf8SequenceLength (b :: rest) with
        | none =>
          have hwide : Writes replacement replacementChar := by
            have hchar : String.utf8EncodeChar replacementChar = replacement := by decide
            rw [← hchar]
            exact writes_char (by decide)
          refine ⟨_, hvalue.cons hwide (.replaced b (fun c hpre => ?_) hvalue.sanitised)⟩
          obtain ⟨tail, htail⟩ := hpre
          rw [← htail, utf8SequenceLength_utf8EncodeChar] at hlength
          cases hlength
        | some found =>
          obtain ⟨k, v⟩ := found
          obtain ⟨c, tail, hsplit, rfl, -⟩ := exists_char_of_utf8SequenceLength hlength
          have hrest : rest.drop ((String.utf8EncodeChar c).length - 1) = tail := by
            have hpos : 0 < (String.utf8EncodeChar c).length :=
              List.length_pos_iff.mpr String.utf8EncodeChar_ne_nil
            have hdrop : (b :: rest).drop (String.utf8EncodeChar c).length = tail := by
              rw [hsplit, List.drop_left]
            rwa [← Nat.sub_add_cancel hpos, List.drop_succ_cons] at hdrop
          have htail : tail.length < n := by
            rw [← hrest, List.length_drop]
            omega
          obtain ⟨value, hvalue⟩ := ih _ htail tail rfl
          have hchar := Sanitised.char c hvalue.sanitised
          rw [← hsplit] at hchar
          dsimp only
          rw [stringPieces_drop, hrest, List.flatten_cons, hsplit, List.take_left, ← hsplit]
          exact ⟨_, hvalue.cons (writes_char (wide_of_lead hhigh hsplit)) hchar⟩
      · rw [if_neg hhigh]
        have hlow := UInt8.not_le.mp hhigh
        obtain ⟨c, hc, henc⟩ := encode_ascii hlow
        have hchar : Sanitised (b :: rest) (c :: value) := by
          have h := Sanitised.char c hvalue.sanitised
          rwa [henc] at h
        split_ifs with hcontrol hquote hslash hdel
        · rw [List.flatten_append]
          exact ⟨_, hvalue.cons (writes_control hlow hc) hchar⟩
        · obtain rfl : c = '"' := Char.ext (UInt32.toNat_inj.mp (hc.trans (by rw [hquote]; rfl)))
          exact ⟨_, hvalue.cons (writes_short (c := '"') (by decide) (by decide) (by decide)
            (by decide)) hchar⟩
        · obtain rfl : c = '\\' := Char.ext (UInt32.toNat_inj.mp (hc.trans (by rw [hslash]; rfl)))
          exact ⟨_, hvalue.cons (writes_short (c := '\\') (by decide) (by decide) (by decide)
            (by decide)) hchar⟩
        · rw [List.flatten_append]
          exact ⟨_, hvalue.cons (writes_control hlow hc) hchar⟩
        · exact ⟨_, hvalue.cons (writes_ascii hlow hcontrol hquote hslash hdel henc hc) hchar⟩

/-- **With room for it, `af_jw_emit_string` appends a printable JSON string that stands for the
sanitised text, and for the text itself where that is valid.** -/
theorem emitString_reads (alloc : ℕ → Bool) (w : Writer) (s : Bytes) (hw : w.status = Status.ok)
    (hroom : w.out.Fits alloc (Plan.stringText s)) :
    ∃ chars value, (w.emitString alloc s).2 = Status.ok ∧
      (w.emitString alloc s).1.out.data = w.out.data ++ utf8Text chars ∧
      (∀ b ∈ utf8Text chars, 0x20 ≤ b ∧ b ≠ 0x7F) ∧ stringValue chars = some value ∧
      (∀ cs, Sanitised s cs ↔ cs = value) ∧ ∀ cs, s = utf8Text cs → value = cs := by
  obtain ⟨value, ⟨chars, hchars, hvalue⟩, hprintable, hsanitised⟩ := reads_stringPieces s
  have hquote : utf8Text ['"'] = [0x22] := by decide
  have htext : (Plan.stringText s).flatten = utf8Text ('"' :: (chars ++ ['"'])) := by
    rw [show '"' :: (chars ++ ['"']) = ['"'] ++ (chars ++ ['"']) from rfl, utf8Text_append,
      utf8Text_append, ← hchars, hquote]
    simp [Plan.stringText]
  have hfollows : Follows alloc w (w.emitAll alloc (Plan.stringText s)) _ :=
    follows_emitAll hw (Plan.stringText s)
  refine ⟨'"' :: (chars ++ ['"']), value, ?_, ?_, ?_, ?_, ?_, ?_⟩
  · rcases hfollows.outcome with ⟨-, -, hok⟩ | ⟨-, hnot⟩
    · exact hok
    · exact absurd ⟨hroom, rfl⟩ hnot
  · rcases Buffer.appendAll_cases alloc w.out (Plan.stringText s) with ⟨-, hall⟩ | ⟨hneg, -⟩
    · rw [show (w.emitString alloc s).1.out = _ from hfollows.out_eq, ← htext]
      exact hall
    · exact absurd hneg (ok_of_fits hroom)
  · rw [← htext]
    intro b hb
    simp only [Plan.stringText, List.flatten_cons, List.flatten_append, List.flatten_nil,
      List.append_nil, List.mem_append, List.mem_singleton] at hb
    rcases hb with rfl | hinside | rfl
    · decide
    · exact hprintable b hinside
    · decide
  · rw [stringValue, if_pos rfl]
    exact hvalue
  · intro cs
    constructor
    · intro h
      exact h.unique hsanitised
    · rintro rfl
      exact hsanitised
  · rintro cs rfl
    exact hsanitised.unique (sanitised_text cs)

/-- A quote, a line feed, an `é` and a byte that begins no character. -/
theorem emitString_reads_mixed :
    ∃ chars value, ((Writer.init (Buffer.init 64)).emitString (fun _ => true)
        [0x22, 0x0A, 0xC3, 0xA9, 0xFF]).2 = Status.ok ∧
      ((Writer.init (Buffer.init 64)).emitString (fun _ => true)
        [0x22, 0x0A, 0xC3, 0xA9, 0xFF]).1.out.data = [] ++ utf8Text chars ∧
      (∀ b ∈ utf8Text chars, 0x20 ≤ b ∧ b ≠ 0x7F) ∧ stringValue chars = some value ∧
      (∀ cs, Sanitised [0x22, 0x0A, 0xC3, 0xA9, 0xFF] cs ↔ cs = value) ∧
      ∀ cs, [0x22, 0x0A, 0xC3, 0xA9, 0xFF] = utf8Text cs → value = cs :=
  emitString_reads (fun _ => true) (Writer.init (Buffer.init 64)) _ rfl (by decide)

end AsmFlow.Json
