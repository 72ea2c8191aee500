import AsmFlow.Library.Runs
import AsmFlow.Tui.Model
import AsmFlow.Tui.Text

/-!
# The pool of sanitised texts

`af_tm_tt_sanitize` and `af_tm_tt_append_raw` fill the pool of a screen from its start on.
Every text that is handed out is a span of it. An item is cut where its output nears its
bound or the pool ends, and a cut is meant to show.
-/

namespace AsmFlow.Console

open Http Json Library Tui

/-! ## What stands for a text -/

/-- A lower-case hexadecimal digit. -/
def hexLower (n : ℕ) : Char := "0123456789abcdef".toList.getD n '0'

/-- The characters that stand for a character. -/
def escapedChar (c : Char) : List Char :=
  if c = '\x1b' then "[ESC]".toList
  else if c = '\t' then ['\\', 't']
  else if c = '\n' then ['\\', 'n']
  else if c = '\r' then ['\\', 'r']
  else if IsControl c then ['\\', 'x', hexLower (c.val.toNat / 16), hexLower (c.val.toNat % 16)]
  else [c]

/-- The text that stands for a text. -/
def escaped (cs : List Char) : List Char := cs.flatMap escapedChar

/-- The bytes of it. -/
def escapedBytes (cs : List Char) : Bytes := utf8Text (escaped cs)

@[simp] theorem escapedBytes_nil : escapedBytes [] = [] := rfl

theorem escapedBytes_append (cs ds : List Char) :
    escapedBytes (cs ++ ds) = escapedBytes cs ++ escapedBytes ds := by
  simp [escapedBytes, escaped, utf8Text]

theorem length_escapedBytes_mono {cs ds : List Char} (h : cs <+: ds) :
    (escapedBytes cs).length ≤ (escapedBytes ds).length := by
  obtain ⟨t, rfl⟩ := h
  rw [escapedBytes_append, List.length_append]
  omega

theorem piece_ascii {b : UInt8} (h : b < 0x80) (rest : Bytes) : piece b rest = piece b [] := by
  unfold piece
  simp only [h, if_true]

theorem piece_ascii_eq : ∀ n < 0x80,
    piece (UInt8.ofNat n) [] = (escapedBytes [Char.ofNat n], 1) := by
  decide +kernel

theorem control_high : ∀ n < 0xA0, 0x80 ≤ n →
    String.utf8EncodeChar (Char.ofNat n) = [0xC2, UInt8.ofNat n] ∧
      hexEscape (UInt8.ofNat n) = escapedBytes [Char.ofNat n] := by
  decide

theorem escapedChar_control : ∀ n < 0xA0, IsControl (Char.ofNat n) →
    (escapedBytes [Char.ofNat n]).length ≤ 5 ∧ 0 < (escapedBytes [Char.ofNat n]).length ∧
      ∀ c ∈ escapedChar (Char.ofNat n), ¬ IsControl c := by
  have table : ∀ n < 0xA0, IsControl (Char.ofNat n) →
      (escapedBytes [Char.ofNat n]).length ≤ 5 ∧ 0 < (escapedBytes [Char.ofNat n]).length ∧
        (escapedChar (Char.ofNat n)).all (fun c => !decide (IsControl c)) = true := by
    decide +kernel
  simpa using table

theorem escapedChar_plain {c : Char} (h : ¬ IsControl c) : escapedChar c = [c] := by
  have hne : ∀ d : Char, IsControl d → c ≠ d := by
    rintro d hd rfl
    exact h hd
  simp only [escapedChar, hne _ (show IsControl '\x1b' by decide),
    hne _ (show IsControl '\t' by decide), hne _ (show IsControl '\n' by decide),
    hne _ (show IsControl '\r' by decide), h, if_false]

theorem escapedBytes_plain {c : Char} (h : ¬ IsControl c) :
    escapedBytes [c] = String.utf8EncodeChar c := by
  simp [escapedBytes, escaped, escapedChar_plain h, utf8Text]

theorem lt_of_control {c : Char} (h : IsControl c) : c.val.toNat < 0xA0 := by
  simp only [IsControl] at h
  omega

/-- What stands for a character is short, and free of control characters. -/
theorem escapedChar_spec (c : Char) :
    (escapedBytes [c]).length ≤ 5 ∧ 0 < (escapedBytes [c]).length ∧
      ∀ d ∈ escapedChar c, ¬ IsControl d := by
  by_cases hc : IsControl c
  · have h := escapedChar_control c.val.toNat (lt_of_control hc)
    have hchar : Char.ofNat c.val.toNat = c := Char.ofNat_toNat c
    rw [hchar] at h
    exact h hc
  · have hsize := c.utf8Size_le_four
    rw [escapedBytes_plain hc, escapedChar_plain hc, String.length_utf8EncodeChar]
    refine ⟨by omega, c.utf8Size_pos, ?_⟩
    intro d hd
    rwa [List.mem_singleton.mp hd]

theorem piece_c1 {m : UInt8} (h : 0x80 ≤ m ∧ m ≤ 0x9F) (rest : Bytes) :
    piece 0xC2 (m :: rest) = (hexEscape m, 2) := by
  simp [piece, h]

/-- A sequence of several bytes that is no C1 control is copied. -/
theorem piece_sequence {b : UInt8} {tail : Bytes} (rest : Bytes) (hb : 0x80 ≤ b.toNat)
    (hc1 : b.toNat = 0xC2 → ∀ m, tail.head? = some m → 0x9F < m.toNat) (hne : tail ≠ [])
    (hlen : tail.length + 1 = if b.toNat < 0xE0 then 2 else if b.toNat < 0xF0 then 3 else 4) :
    piece b (tail ++ rest) = (b :: tail, tail.length + 1) := by
  have hother : ∀ d : UInt8, d.toNat < 0x80 → b ≠ d := by
    rintro d hd rfl
    omega
  have hlow : ¬ (b < 0x20 ∨ b = 0x7F) := by
    rw [UInt8.lt_iff_toNat_lt]
    rintro (h | h)
    · simp at h
      omega
    · exact hother _ (by decide) h
  have hhigh : ¬ b < 0x80 := by
    rw [UInt8.lt_iff_toNat_lt]
    exact not_lt.mpr hb
  have hplain : ¬ (b = 0xC2 ∧
      (tail ++ rest).head?.any (fun c => decide (0x80 ≤ c ∧ c ≤ 0x9F)) = true) := by
    rintro ⟨hb2, hany⟩
    obtain ⟨m, tail, rfl⟩ := List.exists_cons_of_ne_nil hne
    simp only [List.cons_append, List.head?_cons, Option.any_some, decide_eq_true_eq] at hany
    have hm := hc1 (by rw [hb2]; rfl) m rfl
    have hle := UInt8.le_iff_toNat_le.mp hany.2
    simp at hle
    omega
  simp only [piece, hother _ (show (0x1B : UInt8).toNat < 0x80 by decide),
    hother _ (show (9 : UInt8).toNat < 0x80 by decide),
    hother _ (show (10 : UInt8).toNat < 0x80 by decide),
    hother _ (show (13 : UInt8).toNat < 0x80 by decide), hlow, hhigh, hplain, if_false]
  simp only [UInt8.lt_iff_toNat_lt, UInt8.reduceToNat, ← hlen, List.length_append]
  rw [if_neg (by omega)]
  simp

/-- The step of the sanitiser for a character. -/
theorem piece_char (c : Char) (rest : Bytes) :
    ∃ b tail, String.utf8EncodeChar c = b :: tail ∧
      piece b (tail ++ rest) = (escapedBytes [c], tail.length + 1) := by
  have hchar : Char.ofNat c.val.toNat = c := Char.ofNat_toNat c
  have hvalid : c.val.toNat < 0xD800 ∨ 0xDFFF < c.val.toNat ∧ c.val.toNat < 0x110000 := c.valid
  have hbytes := utf8EncodeChar_toNat c
  by_cases hascii : c.val.toNat < 0x80
  · rw [if_pos hascii] at hbytes
    obtain ⟨b, hb, hval⟩ := List.map_eq_singleton_iff.mp hbytes
    have hlow : b < 0x80 := by
      rw [UInt8.lt_iff_toNat_lt, hval]
      exact hascii
    have hb' : b = UInt8.ofNat c.val.toNat := by
      rw [← hval]
      simp
    refine ⟨b, [], hb, ?_⟩
    rw [List.nil_append, piece_ascii hlow, hb', piece_ascii_eq _ hascii, hchar]
    rfl
  · by_cases hc : IsControl c
    · have hlt := lt_of_control hc
      obtain ⟨henc, hhex⟩ := control_high c.val.toNat hlt (not_lt.mp hascii)
      rw [hchar] at henc hhex
      refine ⟨0xC2, [UInt8.ofNat c.val.toNat], henc, ?_⟩
      have hm : (UInt8.ofNat c.val.toNat).toNat = c.val.toNat :=
        UInt8.toNat_ofNat_of_lt' (lt_trans hlt (by decide))
      rw [List.singleton_append, piece_c1 _ rest, hhex]
      · rfl
      · rw [UInt8.le_iff_toNat_le, UInt8.le_iff_toNat_le, hm]
        exact ⟨not_lt.mp hascii, Nat.le_of_lt_succ hlt⟩
    · simp only [IsControl] at hc
      rw [escapedBytes_plain (by simpa only [IsControl] using hc)]
      generalize String.utf8EncodeChar c = p at hbytes
      generalize c.val.toNat = v at hbytes hvalid hascii hc
      split_ifs at hbytes with htwo hthree
      all_goals simp only [List.map_eq_cons_iff, List.map_eq_nil_iff] at hbytes
      · obtain ⟨a, _, rfl, ha, b, _, rfl, hb, rfl⟩ := hbytes
        refine ⟨a, [b], rfl, ?_⟩
        apply piece_sequence rest (by omega) _ (by simp)
        · rw [if_pos (by omega)]
          rfl
        · intro ha2 m hm
          obtain rfl := Option.some.inj hm
          omega
      · obtain ⟨a, _, rfl, ha, b, _, rfl, hb, d, _, rfl, hd, rfl⟩ := hbytes
        refine ⟨a, [b, d], rfl, ?_⟩
        apply piece_sequence rest (by omega) _ (by simp)
        · rw [if_neg (by omega), if_pos (by omega)]
          rfl
        · intro ha2
          omega
      · obtain ⟨a, _, rfl, ha, b, _, rfl, hb, d, _, rfl, hd, e, _, rfl, he, rfl⟩ := hbytes
        refine ⟨a, [b, d, e], rfl, ?_⟩
        apply piece_sequence rest (by omega) _ (by simp)
        · rw [if_neg (by omega), if_neg (by omega)]
          rfl
        · intro ha2
          omega

/-! ## An item -/

theorem sanitizeFrom_skip (room : ℕ) (out p rest : Bytes) :
    sanitizeFrom room out p.length (p ++ rest) = sanitizeFrom room out 0 rest := by
  induction p with
  | nil => rfl
  | cons b p ih => exact ih

theorem sanitizeFrom_char (room : ℕ) (out : Bytes) (c : Char) (cs : List Char) :
    sanitizeFrom room out 0 (utf8Text (c :: cs)) =
      if 4096 - 6 ≤ out.length ∨ room < out.length + (escapedBytes [c]).length then
        truncate room out
      else sanitizeFrom room (out ++ escapedBytes [c]) 0 (utf8Text cs) := by
  obtain ⟨b, tail, henc, hpiece⟩ := piece_char c (utf8Text cs)
  have htext : utf8Text (c :: cs) = b :: (tail ++ utf8Text cs) := by
    simp [utf8Text, henc]
  rw [htext, sanitizeFrom, hpiece]
  dsimp only
  rw [Nat.add_sub_cancel, sanitizeFrom_skip]
  by_cases hlong : 4096 - 6 ≤ out.length
  · simp [hlong]
  · simp [hlong]

/-- The item is cut behind a part of the text: the part is taken, and the next character comes
too late or finds no room. -/
structure CutBehind (room : ℕ) (q : List Char) (c : Char) : Prop where
  fits : (escapedBytes q).length ≤ room
  early : ∀ q', q' <+: q → q' ≠ q → (escapedBytes q').length < 4090
  stops : 4090 ≤ (escapedBytes q).length ∨
    room < (escapedBytes q).length + (escapedBytes [c]).length

/-- What the sanitiser makes of the characters behind those it has taken. -/
theorem sanitizeFrom_spec (room : ℕ) (pre cs : List Char)
    (hroom : (escapedBytes pre).length ≤ room)
    (hearly : ∀ q, q <+: pre → q ≠ pre → (escapedBytes q).length < 4090) :
    (sanitizeFrom room (escapedBytes pre) 0 (utf8Text cs) = escapedBytes (pre ++ cs) ∧
        (escapedBytes (pre ++ cs)).length ≤ room ∧
        ∀ q, q <+: pre ++ cs → q ≠ pre ++ cs → (escapedBytes q).length < 4090) ∨
      ∃ q c left, cs = q ++ c :: left ∧ CutBehind room (pre ++ q) c ∧
        sanitizeFrom room (escapedBytes pre) 0 (utf8Text cs) =
          truncate room (escapedBytes (pre ++ q)) := by
  induction cs generalizing pre with
  | nil =>
    rw [List.append_nil]
    exact Or.inl ⟨rfl, hroom, hearly⟩
  | cons c cs ih =>
    rw [sanitizeFrom_char]
    by_cases hstop : 4096 - 6 ≤ (escapedBytes pre).length ∨
        room < (escapedBytes pre).length + (escapedBytes [c]).length
    · rw [if_pos hstop]
      refine Or.inr ⟨[], c, cs, rfl, ?_, by rw [List.append_nil]⟩
      rw [List.append_nil]
      exact ⟨hroom, hearly, hstop⟩
    · rw [if_neg hstop, ← escapedBytes_append]
      have hsplit : pre ++ c :: cs = (pre ++ [c]) ++ cs := by simp
      have hroom' : (escapedBytes (pre ++ [c])).length ≤ room := by
        rw [escapedBytes_append, List.length_append]
        omega
      have hearly' : ∀ q, q <+: pre ++ [c] → q ≠ pre ++ [c] → (escapedBytes q).length < 4090 := by
        intro q hq hne
        rcases List.prefix_concat_iff.mp hq with rfl | hq
        · exact absurd rfl hne
        · have := length_escapedBytes_mono hq
          omega
      rcases ih (pre ++ [c]) hroom' hearly' with hall | ⟨q, d, left, hcs, hcut, hrun⟩
      · left
        rwa [hsplit]
      · right
        refine ⟨c :: q, d, left, by rw [hcs]; rfl, ?_, ?_⟩
        · rw [show pre ++ c :: q = pre ++ [c] ++ q by simp]
          exact hcut
        · rw [hrun, show pre ++ c :: q = pre ++ [c] ++ q by simp]

/-- The marker of a cut. -/
def ellipsis : List Char := ['.', '.', '.']

/-- An item that stands for a text: all that stands for it, or a part and the marker. -/
structure StandsFor (cs : List Char) (item : Bytes) : Prop where
  short : item.length ≤ 4096
  clean : ∃ ds, item = utf8Text ds ∧ ∀ d ∈ ds, ¬ IsControl d
  text : item = escapedBytes cs ∨ ∃ q, q <+: cs ∧ item = utf8Text (escaped q ++ ellipsis)

/-- Wherever the text is cut, there is room for the marker, in the item and in the pool. -/
def CutsMarked (room : ℕ) (cs : List Char) : Prop :=
  ∀ q c left, cs = q ++ c :: left → CutBehind room q c →
    (escapedBytes q).length + 3 ≤ 4096 ∧ (escapedBytes q).length + 3 ≤ room

theorem escaped_clean (cs : List Char) : ∀ d ∈ escaped cs, ¬ IsControl d := by
  intro d hd
  obtain ⟨c, -, hc⟩ := List.mem_flatMap.mp hd
  exact (escapedChar_spec c).2.2 d hc

theorem truncate_length_le {room : ℕ} {out : Bytes} (h : out.length ≤ room) :
    (truncate room out).length ≤ room := by
  unfold truncate
  split_ifs with hmarks
  · simpa [ascii] using hmarks
  · exact h

/-- What the sanitiser makes of a text, behind so many bytes of the pool. -/
theorem sanitize_spec (used : ℕ) (cs : List Char) :
    (sanitize used (utf8Text cs) = escapedBytes cs ∧
        (escapedBytes cs).length ≤ textMax - used ∧
        ∀ q, q <+: cs → q ≠ cs → (escapedBytes q).length < 4090) ∨
      ∃ q c left, cs = q ++ c :: left ∧ CutBehind (textMax - used) q c ∧
        sanitize used (utf8Text cs) = truncate (textMax - used) (escapedBytes q) :=
  sanitizeFrom_spec (textMax - used) [] cs (Nat.zero_le _)
    fun _ hq hne => absurd (List.prefix_nil.mp hq) hne

theorem sanitize_length_le (used : ℕ) (cs : List Char) :
    (sanitize used (utf8Text cs)).length ≤ textMax - used := by
  rcases sanitize_spec used cs with ⟨hrun, hroom, -⟩ | ⟨q, c, left, -, hcut, hrun⟩
  · rw [hrun]
    exact hroom
  · rw [hrun]
    exact truncate_length_le hcut.fits

/-- An item stands for its text when the cuts of the text can be marked. -/
theorem sanitize_standsFor {used : ℕ} {cs : List Char} (h : CutsMarked (textMax - used) cs) :
    StandsFor cs (sanitize used (utf8Text cs)) := by
  rcases sanitize_spec used cs with ⟨hitem, -, hearly⟩ | ⟨q, c, left, hcs, hcut, hrun⟩
  · rw [hitem]
    refine ⟨?_, ⟨_, rfl, escaped_clean cs⟩, Or.inl rfl⟩
    -- all but the last character end before 4090 bytes
    induction cs using List.reverseRecOn with
    | nil => simp
    | append_singleton cs c _ =>
      have hbefore := hearly cs ⟨[c], rfl⟩ (by simp)
      have hlast := (escapedChar_spec c).1
      rw [escapedBytes_append, List.length_append]
      omega
  · obtain ⟨hitem, hpool⟩ := h q c left hcs hcut
    have hmarked : sanitize used (utf8Text cs) = utf8Text (escaped q ++ ellipsis) := by
      have hdots : ascii "..." = utf8Text ellipsis := by decide
      rw [hrun, truncate, if_pos hpool, hdots, utf8Text_append]
      rfl
    rw [hmarked]
    refine ⟨?_, ⟨_, rfl, ?_⟩, Or.inr ⟨q, ⟨_, hcs.symm⟩, rfl⟩⟩
    · have hdots : (utf8Text ellipsis).length = 3 := by decide
      rw [utf8Text_append, List.length_append, hdots]
      exact hitem
    · intro d hd
      rcases List.mem_append.mp hd with hd | hd
      · exact escaped_clean q d hd
      · have hdot : ∀ d ∈ ellipsis, ¬ IsControl d := by simp [ellipsis, IsControl]
        exact hdot d hd

/-! ## The pool -/

/-- A text that was handed out: its span, and what the sanitiser made its first bytes of. -/
structure TuiText where
  start : ℕ
  len : ℕ
  source : List Char
  own : ℕ
  deriving DecidableEq, Repr

/-- `tm_texts` of a screen as far as it is in use, and the texts that were handed out. -/
structure Pool where
  bytes : Bytes
  texts : List TuiText
  deriving DecidableEq, Repr

namespace Pool

def empty : Pool := ⟨[], []⟩

/-- `af_tm_tt_sanitize` -/
def ttSanitize (p : Pool) (cs : List Char) : Pool × Status :=
  if textMax < p.bytes.length then (p, .limit)
  else
    let item := sanitize p.bytes.length (utf8Text cs)
    (⟨p.bytes ++ item, p.texts ++ [⟨p.bytes.length, item.length, cs, item.length⟩]⟩, .ok)

/-- `af_tm_tt_append_raw`, on a text that was handed out. -/
def ttAppendRaw (p : Pool) (i : ℕ) (raw : Bytes) : Pool × Status :=
  match p.texts[i]? with
  | none => (p, .invalid)
  | some t =>
    if raw = [] then (p, .ok)
    else if t.start + t.len ≠ p.bytes.length then (p, .invalid)
    else if textMax < p.bytes.length + raw.length then (p, .limit)
    else (⟨p.bytes ++ raw, p.texts.set i { t with len := t.len + raw.length }⟩, .ok)

/-- A call on a screen. -/
inductive TextCall
  | sanitize (cs : List Char)
  | appendRaw (i : ℕ) (raw : Bytes)

def step (p : Pool) : TextCall → Pool
  | .sanitize cs => (p.ttSanitize cs).1
  | .appendRaw i raw => (p.ttAppendRaw i raw).1

/-- The spans are in the pool, and no byte of it is in two of them. -/
structure Sound (p : Pool) : Prop where
  bounded : p.bytes.length ≤ textMax
  inside : ∀ t ∈ p.texts, t.start + t.len ≤ p.bytes.length ∧ t.own ≤ t.len
  apart : ∀ (i j : ℕ) (t u : TuiText) (k : ℕ), i ≠ j → p.texts[i]? = some t → p.texts[j]? = some u →
    t.start ≤ k → k < t.start + t.len → u.start ≤ k → ¬ k < u.start + u.len

/-- Every item stands for its text. -/
def Honest (p : Pool) : Prop :=
  ∀ t ∈ p.texts, StandsFor t.source (load p.bytes t.start t.own)

/-- The cuts of what is sanitised can be marked. -/
def CallMarked (p : Pool) : TextCall → Prop
  | .sanitize cs => CutsMarked (textMax - p.bytes.length) cs
  | .appendRaw _ _ => True

theorem sound_empty : Sound empty where
  bounded := Nat.zero_le _
  inside _ h := absurd h (by simp [empty])
  apart _ _ _ _ _ _ h := by simp [empty] at h

/-- What a call does to the pool: nothing, a new span behind the others, or more of the last. -/
theorem step_cases (p : Pool) (hbounded : p.bytes.length ≤ textMax) (call : TextCall) :
    p.step call = p ∨
    (∃ cs, call = .sanitize cs ∧
      p.step call = ⟨p.bytes ++ sanitize p.bytes.length (utf8Text cs),
        p.texts ++ [⟨p.bytes.length, (sanitize p.bytes.length (utf8Text cs)).length, cs,
          (sanitize p.bytes.length (utf8Text cs)).length⟩]⟩) ∨
    ∃ i raw t, call = .appendRaw i raw ∧ p.texts[i]? = some t ∧
      t.start + t.len = p.bytes.length ∧ p.bytes.length + raw.length ≤ textMax ∧
      p.step call = ⟨p.bytes ++ raw, p.texts.set i { t with len := t.len + raw.length }⟩ := by
  cases call with
  | sanitize cs =>
    refine Or.inr (Or.inl ⟨cs, rfl, ?_⟩)
    simp only [step, ttSanitize, not_lt.mpr hbounded, if_false]
  | appendRaw i raw =>
    cases ht : p.texts[i]? with
    | none => exact Or.inl (by simp [step, ttAppendRaw, ht])
    | some t =>
      simp only [step, ttAppendRaw, ht]
      split_ifs with hraw hlast hover
      · exact Or.inl rfl
      · exact Or.inl rfl
      · exact Or.inl rfl
      · exact Or.inr (Or.inr ⟨i, raw, t, rfl, ht, not_not.mp hlast, not_lt.mp hover, rfl⟩)

theorem Sound.step {p : Pool} (h : p.Sound) (call : TextCall) : (p.step call).Sound := by
  rcases p.step_cases h.bounded call with hsame | ⟨cs, -, hstep⟩ |
    ⟨i, raw, t, -, ht, hlast, hroom, hstep⟩
  · rwa [hsame]
  · rw [hstep]
    have hitem := sanitize_length_le p.bytes.length cs
    have hbounded := h.bounded
    refine ⟨by simp only [List.length_append]; omega, ?_, ?_⟩
    · intro u hu
      simp only [List.length_append]
      rcases List.mem_append.mp hu with hu | hu
      · have := h.inside u hu
        omega
      · obtain rfl := List.mem_singleton.mp hu
        simp
    · -- a span that was there ends before the new one starts
      have hnew : ∀ j u, (p.texts ++ [⟨p.bytes.length,
          (sanitize p.bytes.length (utf8Text cs)).length, cs,
          (sanitize p.bytes.length (utf8Text cs)).length⟩])[j]? = some u →
          p.texts[j]? = some u ∧ u.start + u.len ≤ p.bytes.length ∨
            j = p.texts.length ∧ u.start = p.bytes.length := by
        intro j u hu
        rcases lt_trichotomy j p.texts.length with hj | hj | hj
        · rw [List.getElem?_append_left hj] at hu
          exact Or.inl ⟨hu, (h.inside u (List.mem_of_getElem? hu)).1⟩
        · subst hj
          rw [List.getElem?_concat_length] at hu
          obtain rfl := Option.some.inj hu
          exact Or.inr ⟨rfl, rfl⟩
        · rw [List.getElem?_eq_none (by simp; omega)] at hu
          cases hu
      intro j k u v x hjk hu hv
      rcases hnew j u hu with ⟨hu, hule⟩ | ⟨hj, hustart⟩ <;>
        rcases hnew k v hv with ⟨hv, hvle⟩ | ⟨hk, hvstart⟩
      · exact h.apart j k u v x hjk hu hv
      · omega
      · omega
      · omega
  · rw [hstep]
    refine ⟨by simpa using hroom, ?_, ?_⟩
    · intro u hu
      simp only [List.length_append]
      rcases List.mem_or_eq_of_mem_set hu with hu | rfl
      · have := h.inside u hu
        omega
      · have := h.inside t (List.mem_of_getElem? ht)
        dsimp only
        omega
    · -- only the span that reaches the end grows, and it grows where there was none
      have hgrown : ∀ j u, (p.texts.set i { t with len := t.len + raw.length })[j]? = some u →
          ∃ v, p.texts[j]? = some v ∧ u.start = v.start ∧ (j ≠ i → u = v) ∧
            (j = i → u.start + u.len = p.bytes.length + raw.length ∧ v = t) := by
        intro j u hu
        by_cases hj : i = j
        · subst hj
          rw [List.getElem?_set_self (List.getElem?_eq_some_iff.mp ht).1] at hu
          obtain rfl := Option.some.inj hu
          exact ⟨t, ht, rfl, fun hne => absurd rfl hne, fun _ => ⟨by dsimp only; omega, rfl⟩⟩
        · rw [List.getElem?_set_ne hj] at hu
          exact ⟨u, hu, rfl, fun _ => rfl, fun hji => absurd hji.symm hj⟩
      intro j k u v x hjk hu hv hux hux' hvx hvx'
      obtain ⟨u', hu', hustart, huother, huself⟩ := hgrown j u hu
      obtain ⟨v', hv', hvstart, hvother, hvself⟩ := hgrown k v hv
      have huin := (h.inside u' (List.mem_of_getElem? hu')).1
      have hvin := (h.inside v' (List.mem_of_getElem? hv')).1
      have hapart := h.apart j k u' v' x hjk hu' hv'
      by_cases hj : j = i
      · have hk : k ≠ i := fun hk => hjk (hj.trans hk.symm)
        have hvsame := hvother hk
        obtain ⟨-, rfl⟩ := huself hj
        subst hvsame
        exact hapart (by omega) (by omega) hvx hvx'
      · have husame := huother hj
        subst husame
        by_cases hk : k = i
        · obtain ⟨-, rfl⟩ := hvself hk
          exact hapart hux hux' (by omega) (by omega)
        · have hvsame := hvother hk
          subst hvsame
          exact hapart hux hux' hvx hvx'

/-- What is appended leaves what was handed out as it was. -/
theorem load_append {bytes more : Bytes} {start n : ℕ} (h : start + n ≤ bytes.length) :
    load (bytes ++ more) start n = load bytes start n := by
  have hle : n ≤ (bytes.drop start).length := by
    rw [List.length_drop]
    omega
  rw [load, load, List.drop_append_of_le_length (by omega), List.take_append_of_le_length hle]

theorem Honest.step {p : Pool} (hsound : p.Sound) (h : p.Honest) {call : TextCall}
    (hcall : p.CallMarked call) : (p.step call).Honest := by
  rcases p.step_cases hsound.bounded call with hsame | ⟨cs, rfl, hstep⟩ |
    ⟨i, raw, t, -, ht, -, -, hstep⟩
  · rwa [hsame]
  · rw [hstep]
    intro u hu
    rcases List.mem_append.mp hu with hu | hu
    · have hin := hsound.inside u hu
      rw [load_append (by omega)]
      exact h u hu
    · obtain rfl := List.mem_singleton.mp hu
      have hload : load (p.bytes ++ sanitize p.bytes.length (utf8Text cs)) p.bytes.length
          (sanitize p.bytes.length (utf8Text cs)).length =
          sanitize p.bytes.length (utf8Text cs) := by
        simp [load]
      dsimp only
      rw [hload]
      exact sanitize_standsFor hcall
  · rw [hstep]
    intro u hu
    rcases List.mem_or_eq_of_mem_set hu with hu | rfl
    · have hin := hsound.inside u hu
      rw [load_append (by omega)]
      exact h u hu
    · have hmem := List.mem_of_getElem? ht
      have hin := hsound.inside t hmem
      dsimp only
      rw [load_append (by omega)]
      exact h t hmem

/-- The pool stays bounded and its spans apart in every run, and in a run whose cuts can all be
marked every item stands for its text. -/
theorem pool_honest (calls : List TextCall) :
    Throughout step Sound empty calls ∧
      (Along step CallMarked empty calls →
        Throughout step (fun p => p.Sound ∧ p.Honest) empty calls) := by
  have hempty : empty.Honest := fun _ h => absurd h (by simp [empty])
  constructor
  · exact throughout_of_invariant calls (fun p call h => Sound.step h call) sound_empty
  · intro hmarked
    apply throughout_of_along _ ⟨sound_empty, hempty⟩ hmarked
    intro p call h hcall
    exact ⟨h.1.step call, Honest.step h.1 h.2 hcall⟩

/-- Printable characters are taken one after the other. -/
theorem sanitizeFrom_replicate {room n : ℕ} {out : Bytes} (hitem : out.length + n ≤ 4090)
    (hroom : out.length + n ≤ room) (cs : List Char) :
    sanitizeFrom room out 0 (utf8Text (List.replicate n 'a' ++ cs)) =
      sanitizeFrom room (out ++ List.replicate n 0x61) 0 (utf8Text cs) := by
  have ha : escapedBytes ['a'] = [0x61] := by decide
  induction n generalizing out with
  | zero => simp
  | succ n ih =>
    rw [List.replicate_succ, List.cons_append, sanitizeFrom_char, ha,
      if_neg (by simp; omega), ih]
    · simp [List.replicate_succ]
    · simp
      omega
    · simp
      omega

/-- An escape in the last bytes that are let in, and more behind it: the marker goes beyond
the bound of the item. -/
theorem sanitizeFrom_overlong {out : Bytes} (h : out.length = 4089) :
    (sanitizeFrom textMax out 0 (utf8Text ['\x1b', 'b'])).length = 4097 := by
  have hesc : escapedBytes ['\x1b'] = [0x5B, 0x45, 0x53, 0x43, 0x5D] := by decide
  rw [sanitizeFrom_char, hesc, if_neg, sanitizeFrom_char, if_pos, truncate, if_pos]
  · simp [ascii, h]
  · simp [h, textMax]
  · simp [h]
  · simp [h, textMax]

def overlong (n : ℕ) : List Char := List.replicate n 'a' ++ ['\x1b', 'b']

theorem sanitize_overlong {n : ℕ} (h : n = 4089) :
    (sanitize 0 (utf8Text (overlong n))).length = 4097 := by
  have hbound : ([] : Bytes).length + n ≤ 4090 := by
    rw [List.length_nil]
    omega
  rw [sanitize, overlong, sanitizeFrom_replicate hbound]
  · exact sanitizeFrom_overlong (by simpa using h)
  · exact hbound.trans (by decide)

/-- The first item of a pool that is honest is within the bound. -/
theorem short_of_honest {cs : List Char} (h : (empty.step (.sanitize cs)).Honest) :
    (sanitize 0 (utf8Text cs)).length ≤ 4096 := by
  have hstep : empty.step (.sanitize cs) =
      ⟨sanitize 0 (utf8Text cs), [⟨0, (sanitize 0 (utf8Text cs)).length, cs,
        (sanitize 0 (utf8Text cs)).length⟩]⟩ := by
    simp [step, ttSanitize, empty]
  rw [hstep] at h
  have hshort := (h _ (List.mem_singleton_self _)).short
  simpa [load] using hshort

theorem pool_overlong :
    ¬ Throughout step (fun p => p.Sound ∧ p.Honest) empty [.sanitize (overlong 4089)] := by
  rintro ⟨-, -, hhonest⟩
  have hshort := short_of_honest hhonest
  have hlong := sanitize_overlong (Eq.refl 4089)
  omega

/-- A text that is cut where the pool ends, without a marker. -/
example : sanitize (textMax - 2) (utf8Text "abc".toList) = ascii "ab" := by decide

end Pool

end AsmFlow.Console
