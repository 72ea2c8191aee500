import Mathlib.Tactic

/-!
# What a JSON string says

A reader of the characters of a JSON string, from the opening quote to the
closing one: each character stands for itself, but for the escapes of one
character, the escapes of four hexadecimal digits and the pairs of these that
stand for a character outside the basic plane.
-/

namespace AsmFlow.Library.Json

def hexValue (c : Char) : Option ℕ :=
  if 48 ≤ c.toNat ∧ c.toNat ≤ 57 then some (c.toNat - 48)
  else if 97 ≤ c.toNat ∧ c.toNat ≤ 102 then some (c.toNat - 87)
  else if 65 ≤ c.toNat ∧ c.toNat ≤ 70 then some (c.toNat - 55)
  else none

/-- The escapes of one character. -/
def shortEscapes : List (Char × Char) :=
  [('"', '"'), ('\\', '\\'), ('/', '/'), ('b', Char.ofNat 8), ('f', Char.ofNat 12),
    ('n', Char.ofNat 10), ('r', Char.ofNat 13), ('t', Char.ofNat 9)]

/-- A code unit that begins a pair, and one that ends it. -/
def IsHigh (v : ℕ) : Prop := 0xD800 ≤ v ∧ v < 0xDC00

def IsLow (v : ℕ) : Prop := 0xDC00 ≤ v ∧ v < 0xE000

instance (v : ℕ) : Decidable (IsHigh v) := inferInstanceAs (Decidable (_ ∧ _))

instance (v : ℕ) : Decidable (IsLow v) := inferInstanceAs (Decidable (_ ∧ _))

/-- Where the reader is. -/
inductive Place
  | text
  | escape
  | digits (count value : ℕ)
  /-- Behind the first half of a pair. -/
  | pair (high : ℕ)
  | pairEscape (high : ℕ)
  | pairDigits (high count value : ℕ)

/-- The characters that the rest of a string stands for. -/
def unescape : Place → List Char → Option (List Char)
  | _, [] => none
  | .text, c :: cs =>
    if c = '"' then if cs = [] then some [] else none
    else if c = '\\' then unescape .escape cs
    else if c.toNat < 0x20 then none
    else (unescape .text cs).map (c :: ·)
  | .escape, c :: cs =>
    if c = 'u' then unescape (.digits 0 0) cs
    else (shortEscapes.lookup c).bind fun x => (unescape .text cs).map (x :: ·)
  | .digits n v, c :: cs =>
    (hexValue c).bind fun d =>
      if n < 3 then unescape (.digits (n + 1) (16 * v + d)) cs
      else if IsHigh (16 * v + d) then unescape (.pair (16 * v + d)) cs
      else if IsLow (16 * v + d) then none
      else (unescape .text cs).map (Char.ofNat (16 * v + d) :: ·)
  | .pair high, c :: cs => if c = '\\' then unescape (.pairEscape high) cs else none
  | .pairEscape high, c :: cs => if c = 'u' then unescape (.pairDigits high 0 0) cs else none
  | .pairDigits high n v, c :: cs =>
    (hexValue c).bind fun d =>
      if n < 3 then unescape (.pairDigits high (n + 1) (16 * v + d)) cs
      else if IsLow (16 * v + d) then
        (unescape .text cs).map
          (Char.ofNat (0x10000 + (high - 0xD800) * 0x400 + (16 * v + d - 0xDC00)) :: ·)
      else none

attribute [local simp] unescape

/-- The characters a JSON string stands for. -/
def stringValue : List Char → Option (List Char)
  | [] => none
  | c :: cs => if c = '"' then unescape .text cs else none

/-- `cs` is one character of a string, and stands for `x`. -/
def Means (cs : List Char) (x : Char) : Prop :=
  ∀ tail, unescape .text (cs ++ tail) = (unescape .text tail).map (x :: ·)

theorem unescape_end : unescape .text ['"'] = some [] := by
  decide

theorem means_plain {c : Char} (hquote : c ≠ '"') (hslash : c ≠ '\\') (hlow : 0x20 ≤ c.toNat) :
    Means [c] c := by
  intro tail
  rw [List.cons_append, List.nil_append, unescape, if_neg hquote, if_neg hslash,
    if_neg (not_lt.mpr hlow)]

theorem means_short {c x : Char} (hc : c ≠ 'u') (h : shortEscapes.lookup c = some x) :
    Means ['\\', c] x := by
  intro tail
  rw [List.cons_append, unescape, if_neg (by decide), if_pos rfl, List.cons_append,
    List.nil_append, unescape, if_neg hc, h, Option.bind_some]

theorem unescape_digit {c : Char} {n v d : ℕ} (hn : n < 3) (hd : hexValue c = some d)
    (tail : List Char) :
    unescape (.digits n v) (c :: tail) = unescape (.digits (n + 1) (16 * v + d)) tail := by
  rw [unescape, hd, Option.bind_some, if_pos hn]

/-- An escape of four digits that is no half of a pair. -/
theorem means_unicode {a b c d : Char} {i j k l : ℕ} (ha : hexValue a = some i)
    (hb : hexValue b = some j) (hc : hexValue c = some k) (hd : hexValue d = some l)
    (hhigh : ¬IsHigh (16 * (16 * (16 * i + j) + k) + l))
    (hlow : ¬IsLow (16 * (16 * (16 * i + j) + k) + l)) :
    Means ['\\', 'u', a, b, c, d] (Char.ofNat (16 * (16 * (16 * i + j) + k) + l)) := by
  intro tail
  simp only [List.cons_append, List.nil_append]
  rw [unescape, if_neg (by decide), if_pos rfl, unescape, if_pos rfl,
    unescape_digit (by decide) ha, unescape_digit (by decide) hb, unescape_digit (by decide) hc,
    unescape, hd, Option.bind_some, if_neg (by decide)]
  simp only [Nat.mul_zero, Nat.zero_add]
  rw [if_neg hhigh, if_neg hlow]

theorem Means.value {cs rest : List Char} {x : Char} {xs : List Char} (h : Means cs x)
    (hrest : unescape .text rest = some xs) : unescape .text (cs ++ rest) = some (x :: xs) := by
  rw [h, hrest, Option.map_some]

end AsmFlow.Library.Json
