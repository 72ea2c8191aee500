import AsmFlow.Json.Writer
import AsmFlow.Library.Json

/-!
# What the writer appends is JSON

Each level of the stack stands for a hole of the text written so far. A call
that does not fail moves from one such text to another.
-/

namespace AsmFlow.Json

open Http Library Library.Json

section Scalars

theorem isHex_hexDigit {n : UInt8} (h : n < 16) : IsHex (hexDigit n) := by
  have table : ∀ m : Fin 16, IsHex (hexDigit (UInt8.ofNat m.val)) := by decide
  have hn := table ⟨n.toNat, h⟩
  rwa [UInt8.ofNat_toNat] at hn

theorem and_15_lt (n : UInt8) : n &&& 15 < 16 := by
  rw [UInt8.lt_iff_toNat_lt, UInt8.toNat_and]
  exact lt_of_le_of_lt Nat.and_le_right (by decide)

/-- The characters of a string stand in a text one after the other. -/
def Chars (t : Bytes) : Prop := ∃ cs : List Text, (∀ c ∈ cs, StringChar c) ∧ t = cs.flatten

theorem Chars.nil : Chars [] := ⟨[], by simp, rfl⟩

theorem Chars.cons {c t : Bytes} (hc : StringChar c) (ht : Chars t) : Chars (c ++ t) := by
  obtain ⟨cs, hcs, rfl⟩ := ht
  exact ⟨c :: cs, by simpa using ⟨hc, hcs⟩, rfl⟩

theorem stringChar_control (b : UInt8) : StringChar (controlPieces b).flatten := by
  unfold controlPieces
  split_ifs
  · exact .escape 0x62 (by decide)
  · exact .escape 0x66 (by decide)
  · exact .escape 0x6E (by decide)
  · exact .escape 0x72 (by decide)
  · exact .escape 0x74 (by decide)
  · exact .unicode 0x30 0x30 _ _ (Or.inl (by decide)) (Or.inl (by decide))
      (isHex_hexDigit (and_15_lt _)) (isHex_hexDigit (and_15_lt _))

theorem stringChar_ascii {b : UInt8} (hlow : ¬ b < 0x20) (hhigh : ¬ 0x80 ≤ b) (hquote : b ≠ 0x22)
    (hslash : b ≠ 0x5C) : StringChar [b] := by
  rw [UInt8.lt_iff_toNat_lt] at hlow
  rw [UInt8.le_iff_toNat_le] at hhigh
  simp only [UInt8.reduceToNat] at hlow hhigh
  obtain ⟨c, hc, henc⟩ := exists_char_of_bytes (p := [b]) (v := b.toNat) (Or.inl (by omega))
    (by rw [if_pos (by omega)]; rfl)
  rw [henc]
  refine .char c (by omega) ?_ ?_
  · rintro rfl
    exact hquote (UInt8.toNat_inj.mp hc.symm)
  · rintro rfl
    exact hslash (UInt8.toNat_inj.mp hc.symm)

/-- A sequence of several bytes is a character above ASCII. -/
theorem stringChar_sequence {b : UInt8} {rest : Bytes} {n v : ℕ} (hhigh : 0x80 ≤ b)
    (h : utf8SequenceLength (b :: rest) = some (n, v)) : StringChar ((b :: rest).take n) := by
  obtain ⟨c, tail, hsplit, rfl, -⟩ := exists_char_of_utf8SequenceLength h
  have hwide := wide_of_lead hhigh hsplit
  rw [hsplit, List.take_left]
  refine .char c (by omega) ?_ ?_
  · rintro rfl
    exact absurd hwide (by decide)
  · rintro rfl
    exact absurd hwide (by decide)

theorem chars_stringPieces (skip : ℕ) (s : Bytes) : Chars (stringPieces skip s).flatten := by
  fun_induction stringPieces skip s with
  | case1 => exact .nil
  | case2 _ _ _ ih => exact ih
  | case3 b rest hhigh _ ih =>
    obtain ⟨c, hc, henc⟩ := exists_char_of_bytes (p := replacement) (v := 0xFFFD) (by decide)
      (by decide)
    refine Chars.cons ?_ ih
    rw [henc]
    refine .char c (by omega) ?_ ?_
    · rintro rfl
      exact absurd hc (by decide)
    · rintro rfl
      exact absurd hc (by decide)
  | case4 b rest hhigh n v hlength ih => exact Chars.cons (stringChar_sequence hhigh hlength) ih
  | case5 b rest _ _ ih =>
    rw [List.flatten_append]
    exact Chars.cons (stringChar_control b) ih
  | case6 rest _ _ ih => exact Chars.cons (.escape 0x22 (by decide)) ih
  | case7 rest _ _ _ ih => exact Chars.cons (.escape 0x5C (by decide)) ih
  | case8 rest _ _ _ _ ih =>
    rw [List.flatten_append]
    exact Chars.cons (stringChar_control _) ih
  | case9 b rest hhigh hlow hquote hslash _ ih =>
    exact Chars.cons (stringChar_ascii hlow hhigh hquote hslash) ih

/-- What `af_jw_emit_string` appends is a string. -/
theorem isString_pieces (s : Bytes) :
    IsString ([0x22] :: (stringPieces 0 s ++ [[0x22]])).flatten := by
  obtain ⟨cs, hcs, hflatten⟩ := chars_stringPieces 0 s
  exact ⟨cs, hcs, by simp [hflatten]⟩

theorem whole_decimal (n : ℕ) : Whole (decimal n) := by
  unfold decimal
  split_ifs with hzero
  · exact ⟨⟨by simp, by simp [IsDigit]⟩, fun _ => rfl⟩
  · have hdigit : ∀ d ∈ Nat.digits 10 n, d < 10 := fun d hd => Nat.digits_lt_base (by decide) hd
    have hnat (d : ℕ) (hd : d < 10) : (UInt8.ofNat (48 + d)).toNat = 48 + d := by
      rw [UInt8.toNat_ofNat']
      omega
    refine ⟨⟨?_, ?_⟩, ?_⟩
    · simp [Nat.digits_ne_nil_iff_ne_zero, hzero]
    · intro b hb
      simp only [List.mem_map, List.mem_reverse] at hb
      obtain ⟨d, hd, rfl⟩ := hb
      have hval := hnat d (hdigit d hd)
      have hlt := hdigit d hd
      simp only [IsDigit, UInt8.le_iff_toNat_le, hval, UInt8.reduceToNat]
      omega
    · intro hhead
      exfalso
      have hne : Nat.digits 10 n ≠ [] := Nat.digits_ne_nil_iff_ne_zero.mpr hzero
      have hlast := Nat.getLast_digit_ne_zero 10 hzero
      rw [List.head?_map, List.head?_reverse, List.getLast?_eq_some_getLast hne, Option.map_some,
        Option.some.injEq, ← UInt8.toNat_inj,
        hnat _ (hdigit _ (List.getLast_mem hne))] at hhead
      simp only [UInt8.reduceToNat] at hhead
      omega

theorem isNumber_decimal (sign : Bytes) (hsign : sign ∈ ([[], [0x2D]] : List Text)) (n : ℕ) :
    IsNumber (sign ++ decimal n) :=
  ⟨sign, decimal n, [], [], hsign, whole_decimal n, Or.inl rfl, Or.inl rfl, by simp⟩

end Scalars

section Outcomes

variable {alloc : ℕ → Bool} {w : Writer}

/-- A call on a sound writer either succeeds, with the appended bytes, the stack and
the root flag as `Q` says, or records the failure that it returns. -/
def Ends (w : Writer) (r : Writer × Status) (Q : Bytes → List Level → Bool → Prop) : Prop :=
  (r.2 = Status.ok ∧ r.1.status = Status.ok ∧
      ∃ p, r.1.out.data = w.out.data ++ p ∧ Q p r.1.stack r.1.rootDone) ∨
    (r.2 < 0 ∧ r.1.status = r.2 ∧ ∃ p, r.1.out.data = w.out.data ++ p)

variable {Q R : Bytes → List Level → Bool → Prop}

theorem Ends.mono {r : Writer × Status} (h : Ends w r Q) (hQR : ∀ p st d, Q p st d → R p st d) :
    Ends w r R := by
  rcases h with ⟨hok, hstatus, p, hdata, hq⟩ | hfail
  · exact Or.inl ⟨hok, hstatus, p, hdata, hQR _ _ _ hq⟩
  · exact Or.inr hfail

theorem Ends.of_out {v : Writer} {r : Writer × Status} (h : Ends v r Q) (hout : v.out = w.out) :
    Ends w r Q := by
  unfold Ends at h ⊢
  rwa [hout] at h

/-- The rule for one step after another. -/
theorem Ends.andThen {r : Writer × Status} {next : Writer → Writer × Status} (h : Ends w r Q)
    (hnext : ∀ (v : Writer) (p : Bytes), v.status = Status.ok → Q p v.stack v.rootDone →
      Ends v (next v) fun q st d => R (p ++ q) st d) : Ends w (Writer.andThen r next) R := by
  unfold Writer.andThen
  rcases h with ⟨hok, hstatus, p, hdata, hq⟩ | ⟨hneg, hstatus, hdata⟩
  · rw [if_neg (by rw [hok]; decide)]
    rcases hnext r.1 p hstatus hq with ⟨hok', hstatus', q, hdata', hr⟩ | ⟨hneg, hstatus', q, hdata'⟩
    · exact Or.inl ⟨hok', hstatus', p ++ q, by rw [hdata', hdata, List.append_assoc], hr⟩
    · exact Or.inr ⟨hneg, hstatus', p ++ q, by rw [hdata', hdata, List.append_assoc]⟩
  · rw [if_pos hneg]
    exact Or.inr ⟨hneg, hstatus, hdata⟩

theorem ends_self {v : Writer} (hv : v.status = Status.ok) (hout : v.out = w.out)
    (h : Q [] v.stack v.rootDone) : Ends w (v, Status.ok) Q :=
  Or.inl ⟨rfl, hv, [], by rw [hout, List.append_nil], h⟩

theorem ends_fail (hw : w.status = Status.ok) {code : Status} (hcode : code < 0) :
    Ends w (w.fail code) Q := by
  have hsound : ¬ w.status < 0 := by
    rw [hw]
    decide
  rw [Writer.fail, if_neg hsound]
  exact Or.inr ⟨hcode, rfl, [], (List.append_nil _).symm⟩

theorem ends_emit (hw : w.status = Status.ok) {p : Bytes} (h : Q p w.stack w.rootDone) :
    Ends w (w.emit alloc p) Q := by
  unfold Writer.emit
  rcases Buffer.append_cases alloc w.out p with ⟨b, heq, hdata, -⟩ | ⟨e, he, heq⟩
  · rw [heq]
    dsimp only
    rw [if_neg (by decide)]
    exact Or.inl ⟨rfl, hw, p, hdata, h⟩
  · rw [heq]
    dsimp only
    rw [if_pos he]
    exact ends_fail hw he

theorem ends_emitAll (hw : w.status = Status.ok) {ps : List Bytes}
    (h : Q ps.flatten w.stack w.rootDone) : Ends w (w.emitAll alloc ps) Q := by
  induction ps generalizing w Q with
  | nil => exact ends_self hw rfl h
  | cons p ps ih =>
    apply (ends_emit (Q := fun q st d => q = p ∧ st = w.stack ∧ d = w.rootDone) hw
      ⟨rfl, rfl, rfl⟩).andThen
    rintro v q hv ⟨rfl, hst, hd⟩
    apply ih hv
    rw [hst, hd]
    exact h

theorem ends_emitString (hw : w.status = Status.ok) {s : Bytes}
    (h : ∀ t, IsString t → Q t w.stack w.rootDone) : Ends w (w.emitString alloc s) Q :=
  ends_emitAll hw (h _ (isString_pieces s))

theorem ends_onTop (hw : w.status = Status.ok) {f : Level → Level}
    (h : Q [] (w.stack.modifyHead f) w.rootDone) : Ends w (w.onTop f, Status.ok) Q :=
  ends_self hw rfl h

end Outcomes

section Shapes

variable {limit : ℕ} {alloc : ℕ → Bool} {w : Writer}

/-- The flags of a level under which the next value goes into the hole. -/
def Level.Waits (l : Level) : Hole → Prop
  | .element _ => l = ⟨true, true, false⟩
  | .member _ _ => l = ⟨false, true, false⟩

/-- A stack whose levels all wait for a value, and the holes it goes into. -/
structure Waiting (limit : ℕ) (st : List Level) (hs : List Hole) : Prop where
  waits : List.Forall₂ Level.Waits st hs
  piled : Piled limit hs

/-- The text of a writer without a failure, by its stack and its root flag. -/
inductive Shape (limit : ℕ) : List Level → Bool → Text → Prop
  | start : Shape limit [] false []
  | value {st : List Level} {hs : List Hole} {t : Text} : Waiting limit st hs →
      Value (limit - hs.length) t → Shape limit st true (prefixText hs ++ t)
  | openedArray {st : List Level} {hs : List Hole} : Waiting limit st hs → hs.length < limit →
      Shape limit (⟨true, false, false⟩ :: st) true (prefixText hs ++ [0x5B])
  | openedObject {st : List Level} {hs : List Hole} : Waiting limit st hs → hs.length < limit →
      Shape limit (⟨false, false, false⟩ :: st) true (prefixText hs ++ [0x7B])
  | keyed {st : List Level} {hs : List Hole} {ms : List (Text × Text)} {k : Text} :
      Waiting limit st hs → Piled limit (.member ms k :: hs) →
      Shape limit (⟨false, true, true⟩ :: st) true (prefixText (.member ms k :: hs))

theorem Waiting.length_eq {st : List Level} {hs : List Hole} (h : Waiting limit st hs) :
    st.length = hs.length := h.waits.length_eq

theorem Waiting.nil : Waiting limit [] [] := ⟨.nil, trivial⟩

/-- After an element or a member the container waits for the next one. -/
theorem Waiting.next_element {l : Level} {st : List Level} {es : List Text} {hs : List Hole}
    {t : Text} (h : Waiting limit (l :: st) (.element es :: hs))
    (ht : Value (limit - (Hole.element es :: hs).length) t) :
    Waiting limit (l :: st) (.element (es ++ [t]) :: hs) := by
  obtain ⟨hl, hst⟩ := List.forall₂_cons.mp h.waits
  obtain ⟨hroom, hok, hp⟩ := h.piled
  exact ⟨.cons hl hst, hroom, hok.next_element ht, hp⟩

theorem isString_key {t : Text} (h : IsString t) : Key t :=
  ⟨[], t, [], by simp [Blank], h, by simp [Blank], by simp⟩

/-- Before a value the writer puts the separator that is due, and then waits for it. -/
theorem ends_prepareValue {t : Text} (hw : w.status = Status.ok)
    (h : Shape limit w.stack w.rootDone t) :
    Ends w (w.prepareValue alloc) fun p st d =>
      d = true ∧ ∃ hs, Waiting limit st hs ∧ t ++ p = prefixText hs := by
  obtain ⟨out, stack, status, rootDone, hdepth⟩ := w
  obtain rfl : status = Status.ok := hw
  unfold Writer.prepareValue
  rw [if_neg (by decide : ¬ Status.ok < 0)]
  dsimp only at h ⊢
  cases h with
  | start => exact ends_self rfl rfl ⟨rfl, [], Waiting.nil, rfl⟩
  | @value _ hs t hwait ht =>
    cases hs with
    | nil =>
      obtain rfl := List.forall₂_nil_right_iff.mp hwait.waits
      simp only [reduceIte]
      exact ends_fail rfl (by decide)
    | cons hole hs =>
      obtain ⟨l, st, hl, -, rfl⟩ := List.forall₂_cons_right_iff.mp hwait.waits
      cases hole with
      | element es =>
        obtain rfl : l = ⟨true, true, false⟩ := hl
        simp only [reduceIte]
        apply (ends_emit (Q := fun q st' d =>
          q = [0x2C] ∧ st' = ⟨true, true, false⟩ :: st ∧ d = true) rfl ⟨rfl, rfl, rfl⟩).andThen
        rintro v q hv ⟨rfl, hvst, hvd⟩
        refine ends_onTop hv ⟨hvd, .element (es ++ [t]) :: hs, ?_, ?_⟩
        · rw [hvst]
          exact hwait.next_element ht
        · simp [Hole.text_element_append]
      | member ms k =>
        obtain rfl : l = ⟨false, true, false⟩ := hl
        simp only [Bool.false_eq_true, reduceIte]
        exact ends_fail rfl (by decide)
  | @openedArray st hs hwait hroom =>
    simp only [reduceIte, Bool.false_eq_true]
    refine (ends_self (Q := fun q st' d =>
      q = [] ∧ st' = ⟨true, false, false⟩ :: st ∧ d = true) rfl rfl ⟨rfl, rfl, rfl⟩).andThen ?_
    rintro v q hv ⟨rfl, hvst, hvd⟩
    refine ends_onTop hv ⟨hvd, .element [] :: hs, ?_, ?_⟩
    · rw [hvst]
      exact ⟨.cons rfl hwait.waits, hroom, by simp [Hole.Ok], hwait.piled⟩
    · simp [Hole.text, followed]
  | openedObject =>
    simp only [reduceIte, Bool.false_eq_true]
    exact ends_fail rfl (by decide)
  | @keyed st hs ms k hwait hpiled =>
    simp only [reduceIte, Bool.false_eq_true]
    exact ends_onTop rfl ⟨rfl, .member ms k :: hs, ⟨.cons rfl hwait.waits, hpiled⟩, by simp⟩

/-- The key and its colon, after the comma. -/
theorem ends_keyText {Q : Bytes → List Level → Bool → Prop} {k : Bytes} {hasItem : Bool}
    {st : List Level} (hw : w.status = Status.ok) (hst : w.stack = ⟨false, hasItem, false⟩ :: st)
    (h : ∀ s, IsString s → Q (s ++ [0x3A]) (⟨false, true, true⟩ :: st) w.rootDone) :
    Ends w (Writer.andThen (w.emitString alloc k) fun w =>
      Writer.andThen (w.emit alloc [0x3A]) fun w =>
        (w.onTop fun l => { l with hasItem := true, wantValue := true }, Status.ok)) Q := by
  apply (ends_emitString (Q := fun s st' d => IsString s ∧ st' = w.stack ∧ d = w.rootDone) hw
    fun s hs => ⟨hs, rfl, rfl⟩).andThen
  rintro v s hv ⟨hs, hvst, hvd⟩
  apply (ends_emit (Q := fun q st' d => q = [0x3A] ∧ st' = w.stack ∧ d = w.rootDone) hv
    ⟨rfl, hvst, hvd⟩).andThen
  rintro u q hu ⟨rfl, hust, hud⟩
  refine ends_onTop hu ?_
  rw [hust, hud, hst]
  simpa using h s hs

/-- A key is legal in an object that does not wait for a value. -/
theorem ends_key {t : Text} (k : Bytes) (hw : w.status = Status.ok)
    (h : Shape limit w.stack w.rootDone t) :
    Ends w (w.key alloc k) fun p st d => Shape limit st d (t ++ p) := by
  obtain ⟨out, stack, status, rootDone, hdepth⟩ := w
  obtain rfl : status = Status.ok := hw
  unfold Writer.key
  rw [if_neg (by decide : ¬ Status.ok < 0)]
  dsimp only at h ⊢
  cases h with
  | start => exact ends_fail rfl (by decide)
  | @value _ hs t hwait ht =>
    cases hs with
    | nil =>
      obtain rfl := List.forall₂_nil_right_iff.mp hwait.waits
      exact ends_fail rfl (by decide)
    | cons hole hs =>
      obtain ⟨l, st, hl, hst, rfl⟩ := List.forall₂_cons_right_iff.mp hwait.waits
      cases hole with
      | element es =>
        obtain rfl : l = ⟨true, true, false⟩ := hl
        simp only [reduceIte]
        exact ends_fail rfl (by decide)
      | member ms key =>
        obtain rfl : l = ⟨false, true, false⟩ := hl
        obtain ⟨hroom, hok, hp⟩ := hwait.piled
        simp only [Bool.false_eq_true, reduceIte]
        apply (ends_emit (Q := fun q st' d =>
          q = [0x2C] ∧ st' = ⟨false, true, false⟩ :: st ∧ d = true) rfl ⟨rfl, rfl, rfl⟩).andThen
        rintro v q hv ⟨rfl, hvst, hvd⟩
        refine ends_keyText hv hvst fun s hs' => ?_
        have hmore : Piled limit (.member (ms ++ [(key, t)]) s :: hs) :=
          ⟨hroom, hok.next_member ht (isString_key hs'), hp⟩
        have hshape := Shape.keyed ⟨hst, hp⟩ hmore
        rw [hvd]
        simpa [Hole.text_member_append] using hshape
  | openedArray =>
    simp only [reduceIte]
    exact ends_fail rfl (by decide)
  | @openedObject st hs hwait hroom =>
    simp only [Bool.false_eq_true, reduceIte]
    refine (ends_self (Q := fun q st' d =>
      q = [] ∧ st' = ⟨false, false, false⟩ :: st ∧ d = true) rfl rfl ⟨rfl, rfl, rfl⟩).andThen ?_
    rintro v q hv ⟨rfl, hvst, hvd⟩
    refine ends_keyText hv hvst fun s hs' => ?_
    have hfirst : Piled limit (.member [] s :: hs) :=
      ⟨hroom, ⟨by simp, by simp, isString_key hs'⟩, hwait.piled⟩
    have hshape := Shape.keyed hwait hfirst
    rw [hvd]
    simpa [Hole.text, followed] using hshape
  | keyed =>
    simp only [Bool.false_eq_true, reduceIte]
    exact ends_fail rfl (by decide)

/-- The innermost container closes if it is of the kind that is asked for and owes no value. -/
theorem ends_endContainer {t : Text} (array : Bool) (closing : UInt8)
    (hclosing : closing = if array then 0x5D else 0x7D) (hw : w.status = Status.ok)
    (h : Shape limit w.stack w.rootDone t) :
    Ends w (w.endContainer alloc array closing) fun p st d => Shape limit st d (t ++ p) := by
  obtain ⟨out, stack, status, rootDone, hdepth⟩ := w
  obtain rfl : status = Status.ok := hw
  unfold Writer.endContainer
  rw [if_neg (by decide : ¬ Status.ok < 0)]
  dsimp only at h ⊢
  cases h with
  | start => exact ends_fail rfl (by decide)
  | @value _ hs t hwait ht =>
    cases hs with
    | nil =>
      obtain rfl := List.forall₂_nil_right_iff.mp hwait.waits
      exact ends_fail rfl (by decide)
    | cons hole hs =>
      obtain ⟨l, st, hl, hst, rfl⟩ := List.forall₂_cons_right_iff.mp hwait.waits
      have hclosed := hwait.piled.close ht
      have hshape := Shape.value ⟨hst, hwait.piled.2.2⟩ hclosed
      cases hole with
      | element es =>
        obtain rfl : l = ⟨true, true, false⟩ := hl
        cases array with
        | true =>
          obtain rfl : closing = 0x5D := hclosing
          simp only [ne_eq, not_true_eq_false, Bool.false_eq_true, reduceIte]
          refine Ends.of_out (ends_emit rfl ?_) rfl
          simpa [Hole.closing] using hshape
        | false => exact ends_fail rfl (by decide)
      | member ms key =>
        obtain rfl : l = ⟨false, true, false⟩ := hl
        cases array with
        | true => exact ends_fail rfl (by decide)
        | false =>
          obtain rfl : closing = 0x7D := hclosing
          simp only [ne_eq, not_true_eq_false, Bool.false_eq_true, reduceIte]
          refine Ends.of_out (ends_emit rfl ?_) rfl
          simpa [Hole.closing] using hshape
  | @openedArray st hs hwait hroom =>
    cases array with
    | true =>
      obtain rfl : closing = 0x5D := hclosing
      simp only [ne_eq, not_true_eq_false, Bool.false_eq_true, reduceIte]
      refine Ends.of_out (ends_emit rfl ?_) rfl
      obtain ⟨n, hn⟩ : ∃ n, limit - hs.length = n + 1 := ⟨limit - hs.length - 1, by omega⟩
      have hempty : Value (limit - hs.length) [0x5B, 0x5D] := by
        rw [hn]
        exact .emptyArray (w := []) (by simp [Blank])
      simpa using Shape.value hwait hempty
    | false => exact ends_fail rfl (by decide)
  | @openedObject st hs hwait hroom =>
    cases array with
    | true => exact ends_fail rfl (by decide)
    | false =>
      obtain rfl : closing = 0x7D := hclosing
      simp only [ne_eq, not_true_eq_false, Bool.false_eq_true, reduceIte]
      refine Ends.of_out (ends_emit rfl ?_) rfl
      obtain ⟨n, hn⟩ : ∃ n, limit - hs.length = n + 1 := ⟨limit - hs.length - 1, by omega⟩
      have hempty : Value (limit - hs.length) [0x7B, 0x7D] := by
        rw [hn]
        exact .emptyObject (w := []) (by simp [Blank])
      simpa using Shape.value hwait hempty
  | keyed =>
    cases array with
    | true => exact ends_fail rfl (by decide)
    | false =>
      simp only [ne_eq, not_true_eq_false, reduceIte]
      exact ends_fail rfl (by decide)

theorem Shape.rootDone_iff {st : List Level} {d : Bool} {t : Text} (h : Shape limit st d t) :
    d = true ↔ t ≠ [] := by
  cases h with
  | start => simp
  | value _ ht => simp [ht.ne_nil]
  | openedArray => simp
  | openedObject => simp
  | keyed => simp [Hole.text]

/-- A value that is appended in one go, of a kind that nests shallowly enough at any depth. -/
theorem ends_value {t : Text} {P : Bytes → Prop} {next : Writer → Writer × Status}
    (hP : ∀ s, P s → ∀ depth ≤ jwMaxDepth, Value (limit - depth) s) (hw : w.status = Status.ok)
    (h : Shape limit w.stack w.rootDone t)
    (hnext : ∀ v : Writer, v.status = Status.ok →
      Ends v (next v) fun s st d => P s ∧ st = v.stack ∧ d = v.rootDone) :
    Ends w (Writer.andThen (w.prepareValue alloc) next) fun p st d =>
      Shape limit st d (t ++ p) ∧ d = true := by
  apply (ends_prepareValue hw h).andThen
  rintro v p hv ⟨hd, hs, hwait, htext⟩
  refine (hnext v hv).mono ?_
  rintro s st d ⟨hs', rfl, rfl⟩
  have hvalue : Value (limit - hs.length) s := by
    rw [← hwait.length_eq]
    exact hP s hs' _ v.depth_le
  refine ⟨?_, hd⟩
  rw [hd, ← List.append_assoc, htext]
  exact .value hwait hvalue

theorem ends_literal {t text : Bytes}
    (htext : ∀ depth ≤ jwMaxDepth, Value (limit - depth) text) (hw : w.status = Status.ok)
    (h : Shape limit w.stack w.rootDone t) :
    Ends w (w.literal alloc text) fun p st d => Shape limit st d (t ++ p) ∧ d = true := by
  apply ends_value (P := fun s => s = text) ?_ hw h
  · intro v hv
    exact ends_emit hv ⟨rfl, rfl, rfl⟩
  · rintro s rfl
    exact htext

theorem value_of_scalar {s : Bytes} (h : Scalar s) (depth : ℕ) (_ : depth ≤ jwMaxDepth) :
    Value (limit - depth) s := .scalar h

theorem ends_stringN {t : Text} (s : Bytes) (hw : w.status = Status.ok)
    (h : Shape limit w.stack w.rootDone t) :
    Ends w (w.stringN alloc s) fun p st d => Shape limit st d (t ++ p) ∧ d = true :=
  ends_value (fun _ hs => value_of_scalar (Or.inr (Or.inl hs))) hw h
    fun _ hv => ends_emitString hv fun _ hs => ⟨hs, rfl, rfl⟩

theorem ends_item {t : Text} (i : Item) (hw : w.status = Status.ok)
    (h : Shape limit w.stack w.rootDone t) :
    Ends w (w.item alloc i) fun p st d => Shape limit st d (t ++ p) ∧ d = true := by
  have hnull : Scalar (ascii "null") := Or.inl (by decide)
  cases i with
  | stringN s => exact ends_stringN s hw h
  | string s =>
    cases s with
    | none => exact ends_literal (value_of_scalar hnull) hw h
    | some s => exact ends_stringN s hw h
  | uint value =>
    apply ends_value (P := IsNumber) (fun s hs => value_of_scalar (Or.inr (Or.inr hs))) hw h
    intro v hv
    exact ends_emit hv ⟨isNumber_decimal [] (by simp) _, rfl, rfl⟩
  | int value =>
    apply ends_value (P := IsNumber) (fun s hs => value_of_scalar (Or.inr (Or.inr hs))) hw h
    intro v hv
    apply Ends.andThen (Q := fun sign st d =>
      sign ∈ ([[], [0x2D]] : List Text) ∧ st = v.stack ∧ d = v.rootDone)
    · split_ifs
      · exact ends_emit hv ⟨by simp, rfl, rfl⟩
      · exact ends_self hv rfl ⟨by simp, rfl, rfl⟩
    · rintro u sign hu ⟨hsign, hust, hud⟩
      exact ends_emit hu ⟨isNumber_decimal sign hsign _, hust, hud⟩
  | bool value =>
    have hbool : Scalar (if value then ascii "true" else ascii "false") := by
      cases value
      · exact Or.inl (by decide)
      · exact Or.inl (by decide)
    exact ends_literal (value_of_scalar hbool) hw h
  | null => exact ends_literal (value_of_scalar hnull) hw h

theorem ends_beginContainer {t : Text} (array : Bool) (opening : UInt8)
    (hlimit : jwMaxDepth ≤ limit) (hopening : opening = if array then 0x5B else 0x7B)
    (hw : w.status = Status.ok) (h : Shape limit w.stack w.rootDone t) :
    Ends w (w.beginContainer alloc array opening) fun p st d =>
      Shape limit st d (t ++ p) ∧ d = true := by
  apply (ends_prepareValue hw h).andThen
  rintro v p hv ⟨hd, hs, hwait, htext⟩
  apply (ends_emit (Q := fun q st d => q = [opening] ∧ st = v.stack ∧ d = v.rootDone) hv
    ⟨rfl, rfl, rfl⟩).andThen
  rintro u q hu ⟨rfl, hust, hud⟩
  unfold Writer.push
  split_ifs with hdeep
  · exact ends_fail hu (by decide)
  · refine ends_self hu rfl ⟨?_, hud.trans hd⟩
    have hroom : hs.length < limit := by
      rw [← hwait.length_eq, ← hust]
      omega
    dsimp only
    rw [hust, hud, hd, List.append_nil, ← List.append_assoc, htext, hopening]
    cases array
    · exact .openedObject hwait hroom
    · exact .openedArray hwait hroom

/-- Every call moves from one unfinished text to another, or records a failure. -/
theorem ends_call (alloc : ℕ → Bool) {t : Text} {k : ℕ} (c : Call) (hraw : ∀ f ∈ fragments [c], Value k f)
    (hw : w.status = Status.ok) (h : Shape (jwMaxDepth + k) w.stack w.rootDone t) :
    Ends w (w.call alloc c) fun p st d =>
      Shape (jwMaxDepth + k) st d (t ++ p) ∧ (c.isValue = true → d = true) := by
  have hlimit : jwMaxDepth ≤ jwMaxDepth + k := Nat.le_add_right _ _
  cases c with
  | beginObject =>
    exact (ends_beginContainer false 0x7B hlimit rfl hw h).mono fun _ _ _ hq => ⟨hq.1, fun _ => hq.2⟩
  | beginArray =>
    exact (ends_beginContainer true 0x5B hlimit rfl hw h).mono fun _ _ _ hq => ⟨hq.1, fun _ => hq.2⟩
  | endObject =>
    exact (ends_endContainer false 0x7D rfl hw h).mono fun _ _ _ hq =>
      ⟨hq, by simp [Call.isValue]⟩
  | endArray =>
    exact (ends_endContainer true 0x5D rfl hw h).mono fun _ _ _ hq =>
      ⟨hq, by simp [Call.isValue]⟩
  | key key => exact (ends_key key hw h).mono fun _ _ _ hq => ⟨hq, by simp [Call.isValue]⟩
  | item i => exact (ends_item i hw h).mono fun _ _ _ hq => ⟨hq.1, fun _ => hq.2⟩
  | raw json =>
    have hjson : Value k json := hraw json (by simp [fragments])
    have hdeep (depth : ℕ) (hdepth : depth ≤ jwMaxDepth) : Value (jwMaxDepth + k - depth) json :=
      hjson.mono (by omega)
    exact (ends_literal hdeep hw h).mono fun _ _ _ hq => ⟨hq.1, fun _ => hq.2⟩
  | member key i =>
    simp only [Writer.call]
    apply (ends_key key hw h).andThen
    intro v p hv hshape
    refine (ends_item i hv hshape).mono fun q st d hq => ?_
    rw [← List.append_assoc]
    exact ⟨hq.1, fun _ => hq.2⟩
  | finish =>
    have hsound : ¬ w.status < 0 := by
      rw [hw]
      decide
    simp only [Writer.call, Writer.finish]
    rw [if_neg hsound]
    split_ifs
    · exact Or.inr ⟨(by decide : Status.internal < 0), rfl, [], (List.append_nil _).symm⟩
    · exact ends_self hw rfl ⟨by simpa using h, by simp [Call.isValue]⟩

end Shapes

section Runs

variable {limit : ℕ} {alloc : ℕ → Bool} {w : Writer}

/-- Every unfinished text can be completed. -/
theorem Shape.completes {st : List Level} {d : Bool} {t : Text} (h : Shape limit st d t) :
    ∃ rest, WellFormed (t ++ rest) := by
  have hnull (n : ℕ) : Value n (ascii "null") := .scalar (Or.inl (by decide))
  have hempty {hs : List Hole} {opening : UInt8} (closing : UInt8) (hwait : Piled limit hs)
      (hvalue : Value (limit - hs.length) [opening, closing]) :
      ∃ rest, WellFormed (prefixText hs ++ [opening] ++ rest) := by
    obtain ⟨rest, hrest⟩ := hwait.complete hvalue
    exact ⟨closing :: rest, limit, by simpa using hrest⟩
  cases h with
  | start => exact ⟨ascii "null", 0, hnull 0⟩
  | value hwait ht =>
    obtain ⟨rest, hrest⟩ := hwait.piled.complete ht
    exact ⟨rest, limit, by simpa using hrest⟩
  | @openedArray st hs hwait hroom =>
    obtain ⟨n, hn⟩ : ∃ n, limit - hs.length = n + 1 := ⟨limit - hs.length - 1, by omega⟩
    refine hempty 0x5D hwait.piled ?_
    rw [hn]
    exact .emptyArray (w := []) (by simp [Blank])
  | @openedObject st hs hwait hroom =>
    obtain ⟨n, hn⟩ : ∃ n, limit - hs.length = n + 1 := ⟨limit - hs.length - 1, by omega⟩
    refine hempty 0x7D hwait.piled ?_
    rw [hn]
    exact .emptyObject (w := []) (by simp [Blank])
  | keyed hwait hpiled =>
    obtain ⟨rest, hrest⟩ := hpiled.complete (hnull _)
    exact ⟨ascii "null" ++ rest, limit, hrest⟩

/-- A closed text is a value, or nothing at all. -/
theorem Shape.closed {d : Bool} {t : Text} (h : Shape limit [] d t) (ht : t ≠ []) :
    Value limit t := by
  cases h with
  | start => exact absurd rfl ht
  | value hwait hvalue =>
    obtain rfl := List.forall₂_nil_left_iff.mp hwait.waits
    exact hvalue

theorem run_written (alloc : ℕ → Bool) {t : Text} {k : ℕ} (calls : List Call)
    (hraw : ∀ f ∈ fragments calls, Value k f) (hw : w.status = Status.ok)
    (h : Shape (jwMaxDepth + k) w.stack w.rootDone t) :
    ∃ p, (run (Writer.step alloc) w calls).out.data = w.out.data ++ p ∧
      ((run (Writer.step alloc) w calls).status < 0 ∨
        (run (Writer.step alloc) w calls).status = Status.ok ∧
          Shape (jwMaxDepth + k) (run (Writer.step alloc) w calls).stack
            (run (Writer.step alloc) w calls).rootDone (t ++ p) ∧
          ((∃ c ∈ calls, c.isValue = true) → t ++ p ≠ [])) := by
  induction calls generalizing w t with
  | nil => exact ⟨[], by simp, Or.inr ⟨hw, by simpa using h, by simp⟩⟩
  | cons c calls ih =>
    rw [fragments_cons] at hraw
    have hhead := ends_call alloc c
      (fun f hf => hraw f (List.mem_append_left _ hf)) hw h
    rw [run_cons]
    rcases hhead with ⟨-, hstatus, p, hdata, hshape, hvalue⟩ | ⟨hneg, hstatus, p, hdata⟩
    · obtain ⟨q, hq, hrest⟩ := ih (w := Writer.step alloc w c)
        (fun f hf => hraw f (List.mem_append_right _ hf)) hstatus hshape
      refine ⟨p ++ q, ?_, ?_⟩
      · rw [hq, ← List.append_assoc, ← hdata]
        rfl
      · refine hrest.imp_right ?_
        rintro ⟨hok, hshape', hne⟩
        rw [← List.append_assoc]
        refine ⟨hok, hshape', ?_⟩
        rintro ⟨c', hc', hval⟩
        rcases List.mem_cons.mp hc' with rfl | hc'
        · have := hshape.rootDone_iff.mp (hvalue hval)
          exact List.append_ne_nil_of_left_ne_nil this q
        · exact hne ⟨c', hc', hval⟩
    · have hfailed : (Writer.step alloc w c).status < 0 := by
        rw [Writer.step, hstatus]
        exact hneg
      rw [run_of_failed hfailed]
      exact ⟨p, hdata, Or.inl hfailed⟩

/-- A call that fails has recorded the status that it returns. -/
theorem status_of_call_neg {t : Text} {k : ℕ} {c : Call}
    (hraw : ∀ f ∈ fragments [c], Value k f)
    (h : w.status < 0 ∨ w.status = Status.ok ∧ Shape (jwMaxDepth + k) w.stack w.rootDone t)
    (hneg : (w.call alloc c).2 < 0) : (w.call alloc c).1.status = (w.call alloc c).2 := by
  rcases h with hfailed | ⟨hok, hshape⟩
  · rw [Writer.call_of_failed hfailed]
  · rcases ends_call alloc c hraw hok hshape with ⟨hret, -, -⟩ | ⟨-, hstatus, -⟩
    · rw [hret] at hneg
      exact absurd hneg (by decide : ¬ Status.ok < 0)
    · exact hstatus

/-- Whatever the caller does, the text written so far begins a JSON text until a
failure is recorded, a failed writer stays as it is and reports its first
failure, and a finished writer has appended one value. Fragments may add their own
nesting to the writer's. -/
theorem writes_well_formed (out : Buffer) (alloc : ℕ → Bool) (calls : List Call) (k : ℕ)
    (hraw : ∀ f ∈ fragments calls, Value k f) :
    let w := run (Writer.step alloc) (Writer.init out) calls
    ∃ t, w.out.data = out.data ++ t ∧
      (¬ w.status < 0 → ∃ rest, WellFormed (t ++ rest)) ∧
      (∀ pre c post, calls = pre ++ c :: post →
        let v := run (Writer.step alloc) (Writer.init out) pre
        (v.call alloc c).2 < 0 →
          w = (v.call alloc c).1 ∧ ∀ d, w.call alloc d = (w, (v.call alloc c).2)) ∧
      (w.finish.2 = Status.ok → (∃ c ∈ calls, c.isValue = true) → Value (jwMaxDepth + k) t) := by
  have hstart : Shape (jwMaxDepth + k) (Writer.init out).stack (Writer.init out).rootDone [] :=
    .start
  intro w
  obtain ⟨t, hdata, hstate⟩ := run_written alloc calls hraw rfl hstart
  rw [List.nil_append] at hstate
  refine ⟨t, hdata, ?_, ?_, ?_⟩
  · intro hok
    rcases hstate with hneg | ⟨-, hshape, -⟩
    · exact absurd hneg hok
    · exact hshape.completes
  · rintro pre c post rfl v hneg
    have hsplit : fragments (pre ++ c :: post) =
        fragments pre ++ (fragments [c] ++ fragments post) := by
      rw [fragments_append, ← fragments_cons]
    rw [hsplit] at hraw
    obtain ⟨p, -, hbefore⟩ := run_written alloc pre
      (fun f hf => hraw f (List.mem_append_left _ hf)) rfl hstart
    have hstatus : (v.call alloc c).1.status = (v.call alloc c).2 :=
      status_of_call_neg
        (fun f hf => hraw f (List.mem_append_right _ (List.mem_append_left _ hf)))
        (hbefore.imp_right fun h => ⟨h.1, h.2.1⟩) hneg
    have hfailed : (v.call alloc c).1.status < 0 := by
      rw [hstatus]
      exact hneg
    have hw : w = (v.call alloc c).1 := by
      change run _ _ (pre ++ c :: post) = _
      rw [run_append, run_cons]
      exact run_of_failed hfailed post
    refine ⟨hw, fun d => ?_⟩
    rw [hw, Writer.call_of_failed hfailed, hstatus]
  · intro hfinish hvalue
    rcases hstate with hneg | ⟨hok, hshape, hne⟩
    · rw [Writer.finish, if_pos hneg] at hfinish
      change w.status < 0 at hneg
      change w.status = Status.ok at hfinish
      rw [hfinish] at hneg
      exact absurd hneg (by decide : ¬ Status.ok < 0)
    · have hclosed : w.stack = [] := by
        rw [Writer.finish, if_neg (by rw [hok]; decide)] at hfinish
        by_contra hopen
        rw [if_pos (by simpa using hopen)] at hfinish
        exact absurd hfinish (by decide : ¬ Status.internal = Status.ok)
      rw [hclosed] at hshape
      exact hshape.closed (hne hvalue)

end Runs

section Examples

/-- An array around a number that the caller supplies. -/
private def arrayCalls : List Call := [.beginArray, .raw [0x31], .endArray]

theorem writes_well_formed_array :
    (∀ f ∈ fragments arrayCalls, Value 0 f) ∧
      (run (Writer.step fun _ => true) (Writer.init (Buffer.init 64)) arrayCalls).finish.2 =
        Status.ok ∧
      ∃ t, (run (Writer.step fun _ => true) (Writer.init (Buffer.init 64)) arrayCalls).out.data =
        [] ++ t ∧ Value (jwMaxDepth + 0) t := by
  have hnumber : Value 0 [0x31] :=
    .scalar (Or.inr (Or.inr ⟨[], [0x31], [], [], by simp, by simp [Whole, Digits, IsDigit],
      Or.inl rfl, Or.inl rfl, rfl⟩))
  have hraw : ∀ f ∈ fragments arrayCalls, Value 0 f := by
    intro f hf
    obtain rfl := List.mem_singleton.mp hf
    exact hnumber
  have hfinish : (run (Writer.step fun _ => true) (Writer.init (Buffer.init 64))
      arrayCalls).finish.2 = Status.ok := by decide
  obtain ⟨t, hdata, -, -, hvalue⟩ :=
    writes_well_formed (Buffer.init 64) (fun _ => true) arrayCalls 0 hraw
  exact ⟨hraw, hfinish, t, hdata, hvalue hfinish ⟨.beginArray, by simp [arrayCalls], rfl⟩⟩

theorem nested_brackets (n : ℕ) :
    Value (n + 1) (List.replicate (n + 1) 0x5B ++ List.replicate (n + 1) 0x5D) := by
  induction n with
  | zero => exact .emptyArray (w := []) (by simp [Blank])
  | succ n ih =>
    have hwrapped := Value.array (List.forall_mem_nil _) ih
    rw [List.replicate_succ (n := n + 1) (a := (0x5B : UInt8)),
      List.replicate_succ' (n := n + 1) (a := (0x5D : UInt8)), List.cons_append,
      ← List.append_assoc]
    exact hwrapped

private def deepFragment : Bytes := List.replicate 33 0x5B ++ List.replicate 33 0x5D

/-- A fragment that nests thirty-three deep goes through the writer unexamined. -/
theorem fragment_nests_deeper :
    ¬ ∀ (out : Buffer) (alloc : ℕ → Bool) (calls : List Call),
      (∀ f ∈ fragments calls, WellFormed f) → (∃ c ∈ calls, c.isValue = true) →
      (run (Writer.step alloc) (Writer.init out) calls).finish.2 = Status.ok →
      ∀ t, (run (Writer.step alloc) (Writer.init out) calls).out.data = out.data ++ t →
        Value jwMaxDepth t := by
  intro h
  have hdeep : Value jwMaxDepth deepFragment := by
    refine h (Buffer.init 100) (fun _ => true) [.raw deepFragment] ?_
      ⟨.raw deepFragment, by simp, rfl⟩ (by decide) deepFragment (by decide)
    intro f hf
    obtain rfl := List.mem_singleton.mp hf
    exact ⟨33, nested_brackets 32⟩
  have hle := hdeep.brackets_le (k := 33) (List.prefix_append _ _)
  exact absurd hle (by decide)

end Examples
end AsmFlow.Json
