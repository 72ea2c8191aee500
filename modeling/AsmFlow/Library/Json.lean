import Mathlib.Tactic

/-!
# JSON texts over bytes

The grammar of JSON, with a bound on how deep arrays and objects nest. An
unfinished text is described by its holes: the places, from the innermost
outwards, at which a value is still to be written. Filling the innermost hole
and closing its container fills the next one.
-/

namespace AsmFlow.Library.Json

abbrev Text := List UInt8

def Blank (t : Text) : Prop := ∀ b ∈ t, b ∈ ([0x20, 0x09, 0x0A, 0x0D] : Text)

def IsDigit (b : UInt8) : Prop := 0x30 ≤ b ∧ b ≤ 0x39

def IsHex (b : UInt8) : Prop := IsDigit b ∨ (0x61 ≤ b ∧ b ≤ 0x66) ∨ (0x41 ≤ b ∧ b ≤ 0x46)

instance (b : UInt8) : Decidable (IsDigit b) := inferInstanceAs (Decidable (_ ∧ _))

instance (b : UInt8) : Decidable (IsHex b) := inferInstanceAs (Decidable (_ ∨ _))

/-- One character of a string. -/
inductive StringChar : Text → Prop
  | char (c : Char) : 0x20 ≤ c.val.toNat → c ≠ '"' → c ≠ '\\' →
      StringChar (String.utf8EncodeChar c)
  | escape (b : UInt8) : b ∈ ([0x22, 0x5C, 0x2F, 0x62, 0x66, 0x6E, 0x72, 0x74] : Text) →
      StringChar [0x5C, b]
  | unicode (a b c d : UInt8) : IsHex a → IsHex b → IsHex c → IsHex d →
      StringChar [0x5C, 0x75, a, b, c, d]

def IsString (t : Text) : Prop :=
  ∃ cs : List Text, (∀ c ∈ cs, StringChar c) ∧ t = 0x22 :: (cs.flatten ++ [0x22])

def Digits (t : Text) : Prop := t ≠ [] ∧ ∀ b ∈ t, IsDigit b

/-- A whole number without a sign: no digit stands before it that could be left out. -/
def Whole (t : Text) : Prop := Digits t ∧ (t.head? = some 0x30 → t = [0x30])

def Fraction (t : Text) : Prop := t = [] ∨ ∃ ds, Digits ds ∧ t = 0x2E :: ds

def Exponent (t : Text) : Prop :=
  t = [] ∨ ∃ e sign ds, e ∈ ([0x65, 0x45] : Text) ∧ sign ∈ ([[], [0x2B], [0x2D]] : List Text) ∧
    Digits ds ∧ t = e :: (sign ++ ds)

def IsNumber (t : Text) : Prop :=
  ∃ sign whole fraction exponent, sign ∈ ([[], [0x2D]] : List Text) ∧ Whole whole ∧
    Fraction fraction ∧ Exponent exponent ∧ t = sign ++ (whole ++ (fraction ++ exponent))

/-- `null`, `true` and `false`. -/
def literals : List Text :=
  [[0x6E, 0x75, 0x6C, 0x6C], [0x74, 0x72, 0x75, 0x65], [0x66, 0x61, 0x6C, 0x73, 0x65]]

def Scalar (t : Text) : Prop := t ∈ literals ∨ IsString t ∨ IsNumber t

/-- The key of a member, up to its colon. -/
def Key (t : Text) : Prop := ∃ u s v, Blank u ∧ IsString s ∧ Blank v ∧ t = u ++ (s ++ v)

/-- Each of these, followed by a comma. -/
def followed (ts : List Text) : Text := (ts.map (· ++ [0x2C])).flatten

def memberText (m : Text × Text) : Text := m.1 ++ 0x3A :: m.2

/-- The place of the next value in an array after `es`, or in an object after `ms`
and under the key `k`. -/
inductive Hole
  | element (es : List Text)
  | member (ms : List (Text × Text)) (k : Text)

/-- What stands before the value, from the opening bracket on. -/
def Hole.text : Hole → Text
  | .element es => 0x5B :: followed es
  | .member ms k => 0x7B :: (followed (ms.map memberText) ++ (k ++ [0x3A]))

def Hole.closing : Hole → UInt8
  | .element _ => 0x5D
  | .member _ _ => 0x7D

/-- A JSON value whose arrays and objects nest at most `n` deep. -/
inductive Value : ℕ → Text → Prop
  | scalar {n : ℕ} {t : Text} : Scalar t → Value n t
  | padded {n : ℕ} {u t v : Text} : Blank u → Value n t → Blank v → Value n (u ++ (t ++ v))
  | emptyArray {n : ℕ} {w : Text} : Blank w → Value (n + 1) (0x5B :: (w ++ [0x5D]))
  | array {n : ℕ} {es : List Text} {t : Text} : (∀ e ∈ es, Value n e) → Value n t →
      Value (n + 1) ((Hole.element es).text ++ (t ++ [0x5D]))
  | emptyObject {n : ℕ} {w : Text} : Blank w → Value (n + 1) (0x7B :: (w ++ [0x7D]))
  | object {n : ℕ} {ms : List (Text × Text)} {k t : Text} : (∀ m ∈ ms, Key m.1) →
      (∀ m ∈ ms, Value n m.2) → Key k → Value n t →
      Value (n + 1) ((Hole.member ms k).text ++ (t ++ [0x7D]))

/-- A JSON text. -/
def WellFormed (t : Text) : Prop := ∃ n, Value n t

theorem Value.mono {n m : ℕ} {t : Text} (h : Value n t) (hle : n ≤ m) : Value m t := by
  induction h generalizing m with
  | scalar h => exact .scalar h
  | padded hu _ hv ih => exact .padded hu (ih hle) hv
  | emptyArray hw =>
    obtain ⟨m, rfl⟩ : ∃ k, m = k + 1 := ⟨m - 1, by omega⟩
    exact .emptyArray hw
  | array _ _ ihes iht =>
    obtain ⟨m, rfl⟩ : ∃ k, m = k + 1 := ⟨m - 1, by omega⟩
    exact .array (fun e he => ihes e he (by omega)) (iht (by omega))
  | emptyObject hw =>
    obtain ⟨m, rfl⟩ : ∃ k, m = k + 1 := ⟨m - 1, by omega⟩
    exact .emptyObject hw
  | object hkeys _ hk _ ihms iht =>
    obtain ⟨m, rfl⟩ : ∃ k, m = k + 1 := ⟨m - 1, by omega⟩
    exact .object hkeys (fun e he => ihms e he (by omega)) hk (iht (by omega))

/-- Finitely many texts have one bound on their nesting. -/
theorem exists_depth {ts : List Text} (h : ∀ t ∈ ts, WellFormed t) : ∃ n, ∀ t ∈ ts, Value n t := by
  induction ts with
  | nil => exact ⟨0, List.forall_mem_nil _⟩
  | cons t ts ih =>
    rw [List.forall_mem_cons] at h
    obtain ⟨⟨n, hn⟩, hts⟩ := h
    obtain ⟨m, hm⟩ := ih hts
    refine ⟨max n m, List.forall_mem_cons.mpr ⟨hn.mono (le_max_left _ _), fun t ht => ?_⟩⟩
    exact (hm t ht).mono (le_max_right _ _)

section Holes

/-- What stands before the hole is well formed, `n` deep at most. -/
def Hole.Ok (n : ℕ) : Hole → Prop
  | .element es => ∀ e ∈ es, Value n e
  | .member ms k => (∀ m ∈ ms, Key m.1) ∧ (∀ m ∈ ms, Value n m.2) ∧ Key k

theorem Hole.Ok.fill {n : ℕ} {h : Hole} {t : Text} (hok : h.Ok n) (ht : Value n t) :
    Value (n + 1) (h.text ++ (t ++ [h.closing])) := by
  cases h with
  | element es => exact .array hok ht
  | member ms k => exact .object hok.1 hok.2.1 hok.2.2 ht

theorem Hole.Ok.next_element {n : ℕ} {es : List Text} {t : Text} (hok : (Hole.element es).Ok n)
    (ht : Value n t) : (Hole.element (es ++ [t])).Ok n := by
  intro e he
  rcases List.mem_append.mp he with hold | hnew
  · exact hok e hold
  · rw [List.mem_singleton.mp hnew]
    exact ht

theorem Hole.Ok.next_member {n : ℕ} {ms : List (Text × Text)} {k t k' : Text}
    (hok : (Hole.member ms k).Ok n) (ht : Value n t) (hk' : Key k') :
    (Hole.member (ms ++ [(k, t)]) k').Ok n := by
  obtain ⟨hkeys, hvalues, hk⟩ := hok
  refine ⟨fun m hm => ?_, fun m hm => ?_, hk'⟩
  · rcases List.mem_append.mp hm with hold | hnew
    · exact hkeys m hold
    · rw [List.mem_singleton.mp hnew]
      exact hk
  · rcases List.mem_append.mp hm with hold | hnew
    · exact hvalues m hold
    · rw [List.mem_singleton.mp hnew]
      exact ht

/-- All that has been written before the innermost hole. -/
def prefixText : List Hole → Text
  | [] => []
  | h :: hs => prefixText hs ++ h.text

/-- A pile of holes in a text that nests at most `limit` deep. -/
def Piled (limit : ℕ) : List Hole → Prop
  | [] => True
  | h :: hs => hs.length < limit ∧ h.Ok (limit - (hs.length + 1)) ∧ Piled limit hs

@[simp] theorem prefixText_cons (h : Hole) (hs : List Hole) :
    prefixText (h :: hs) = prefixText hs ++ h.text := rfl

/-- Closing the container around a filled hole fills the hole the container is in. -/
theorem Piled.close {limit : ℕ} {h : Hole} {hs : List Hole} {t : Text}
    (hp : Piled limit (h :: hs)) (ht : Value (limit - (h :: hs).length) t) :
    Value (limit - hs.length) (h.text ++ (t ++ [h.closing])) := by
  obtain ⟨hroom, hok, -⟩ := hp
  have hdepth : limit - hs.length = limit - (hs.length + 1) + 1 := by omega
  rw [hdepth]
  exact hok.fill ht

/-- With a value in its innermost hole a text can be completed. -/
theorem Piled.complete {limit : ℕ} {hs : List Hole} {t : Text} (hp : Piled limit hs)
    (ht : Value (limit - hs.length) t) : ∃ rest, Value limit (prefixText hs ++ (t ++ rest)) := by
  induction hs generalizing t with
  | nil => exact ⟨[], by simpa [prefixText] using ht⟩
  | cons h hs ih =>
    obtain ⟨rest, hrest⟩ := ih hp.2.2 (hp.close ht)
    refine ⟨h.closing :: rest, ?_⟩
    simpa [prefixText] using hrest

theorem followed_append (es : List Text) (e : Text) :
    followed (es ++ [e]) = followed es ++ (e ++ [0x2C]) := by
  simp [followed]

/-- The next element of an array. -/
theorem Hole.text_element_append (es : List Text) (e : Text) :
    (Hole.element (es ++ [e])).text = (Hole.element es).text ++ (e ++ [0x2C]) := by
  simp [Hole.text, followed_append]

/-- The key of an object's next member. -/
theorem Hole.text_member_append (ms : List (Text × Text)) (k t k' : Text) :
    (Hole.member (ms ++ [(k, t)]) k').text =
      (Hole.member ms k).text ++ (t ++ (0x2C :: (k' ++ [0x3A]))) := by
  simp [Hole.text, followed_append, memberText]

end Holes

section Depth

/-- A run of opening brackets at the front of a text ends before any other byte. -/
theorem brackets_before {k : ℕ} {a b : Text} {c : UInt8} (hc : c ≠ 0x5B)
    (h : List.replicate k 0x5B <+: a ++ c :: b) : List.replicate k 0x5B <+: a := by
  induction k generalizing a with
  | zero => exact List.nil_prefix
  | succ k ih =>
    rw [List.replicate_succ] at h ⊢
    cases a with
    | nil =>
      rw [List.nil_append, List.cons_prefix_cons] at h
      exact absurd h.1.symm hc
    | cons d a =>
      rw [List.cons_append, List.cons_prefix_cons] at h
      exact List.cons_prefix_cons.mpr ⟨h.1, ih h.2⟩

theorem brackets_of_cons {k : ℕ} {c : UInt8} {t : Text} (hc : c ≠ 0x5B)
    (h : List.replicate k 0x5B <+: c :: t) : k = 0 := by
  have hnil := brackets_before (a := []) hc h
  simpa using hnil

theorem ne_bracket_of_blank {b : UInt8} (h : b ∈ ([0x20, 0x09, 0x0A, 0x0D] : Text)) :
    b ≠ 0x5B := by
  rintro rfl
  exact absurd h (by decide)

theorem brackets_blank {k : ℕ} {a w : Text} (hw : Blank w)
    (h : List.replicate k 0x5B <+: a ++ w) : List.replicate k 0x5B <+: a := by
  cases w with
  | nil => simpa using h
  | cons b w => exact brackets_before (ne_bracket_of_blank (hw b List.mem_cons_self)) h

theorem Scalar.head_ne {t : Text} (h : Scalar t) : ∃ c rest, t = c :: rest ∧ c ≠ 0x5B := by
  rcases h with h | ⟨cs, -, rfl⟩ | ⟨sign, whole, fraction, exponent, hsign, hwhole, -, -, rfl⟩
  · simp only [literals, List.mem_cons, List.not_mem_nil, or_false] at h
    rcases h with rfl | rfl | rfl <;> exact ⟨_, _, rfl, by decide⟩
  · exact ⟨_, _, rfl, by decide⟩
  · obtain ⟨⟨hne, hdigits⟩, -⟩ := hwhole
    simp only [List.mem_cons, List.not_mem_nil, or_false] at hsign
    rcases hsign with rfl | rfl
    · cases whole with
      | nil => exact absurd rfl hne
      | cons d whole =>
        refine ⟨d, _, rfl, ?_⟩
        rintro rfl
        exact absurd (hdigits 0x5B List.mem_cons_self).2 (by decide)
    · exact ⟨_, _, rfl, by decide⟩

theorem Value.ne_nil {n : ℕ} {t : Text} (h : Value n t) : t ≠ [] := by
  induction h with
  | scalar h =>
    obtain ⟨c, rest, rfl, -⟩ := h.head_ne
    exact List.cons_ne_nil c rest
  | padded _ _ _ ih => simp [ih]
  | emptyArray => exact List.cons_ne_nil _ _
  | array => exact List.cons_ne_nil _ _
  | emptyObject => exact List.cons_ne_nil _ _
  | object => exact List.cons_ne_nil _ _

/-- A text that opens `k` arrays at once nests at least that deep. -/
theorem Value.brackets_le {n k : ℕ} {t : Text} (h : Value n t)
    (hk : List.replicate k 0x5B <+: t) : k ≤ n := by
  induction h generalizing k with
  | scalar h =>
    obtain ⟨c, rest, rfl, hc⟩ := h.head_ne
    exact (brackets_of_cons hc hk).le.trans (Nat.zero_le _)
  | @padded n u t v hu _ hv ih =>
    cases u with
    | nil => exact ih (brackets_blank hv hk)
    | cons c u =>
      have hzero := brackets_of_cons (ne_bracket_of_blank (hu c List.mem_cons_self)) hk
      omega
  | @emptyArray n w hw =>
    cases k with
    | zero => omega
    | succ k =>
      rw [List.replicate_succ, List.cons_prefix_cons] at hk
      have hnil : List.replicate k (0x5B : UInt8) <+: [] :=
        brackets_blank (a := []) hw (brackets_before (by decide) hk.2)
      have hzero : k = 0 := by simpa using hnil
      omega
  | @array n es t hes _ ihes iht =>
    cases k with
    | zero => omega
    | succ k =>
      simp only [Hole.text, List.cons_append, List.replicate_succ, List.cons_prefix_cons,
        true_and] at hk
      suffices k ≤ n by omega
      cases es with
      | nil => exact iht (brackets_before (by decide) hk)
      | cons e es =>
        apply ihes e List.mem_cons_self
        apply brackets_before (c := 0x2C) (b := followed es ++ (t ++ [0x5D])) (by decide)
        simpa [followed] using hk
  | emptyObject _ =>
    have hzero := brackets_of_cons (by decide) hk
    omega
  | object _ _ _ _ _ _ =>
    have hzero := brackets_of_cons (by decide) hk
    omega

end Depth
end AsmFlow.Library.Json
