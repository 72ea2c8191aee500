import Mathlib.Data.List.Lex
import Mathlib.Data.Nat.Digits.Lemmas
import Mathlib.Tactic

/-!
# Numerals of a fixed width

A number written in digits of some base, the most significant first, as it is read from left
to right. Numerals of one width are ordered as the numbers they spell.
-/

namespace AsmFlow.Library

/-- The number that digits spell, the most significant first. -/
def value (base : ℕ) (ds : List ℕ) : ℕ := Nat.ofDigits base ds.reverse

/-- The `n` lowest digits of a number, the most significant first. -/
def digits (base : ℕ) : ℕ → ℕ → List ℕ
  | 0, _ => []
  | n + 1, v => v / base ^ n % base :: digits base n v

variable {base : ℕ}

@[simp] theorem value_nil : value base [] = 0 := rfl

theorem value_cons (d : ℕ) (ds : List ℕ) :
    value base (d :: ds) = d * base ^ ds.length + value base ds := by
  unfold value
  rw [List.reverse_cons, Nat.ofDigits_append, Nat.ofDigits_singleton, List.length_reverse]
  ring

theorem value_append (ds es : List ℕ) :
    value base (ds ++ es) = value base ds * base ^ es.length + value base es := by
  unfold value
  rw [List.reverse_append, Nat.ofDigits_append, List.length_reverse]
  ring

/-- Reading from the left, a digit at a time. -/
theorem foldl_value (ds : List ℕ) : ds.foldl (fun v d => base * v + d) 0 = value base ds := by
  induction ds using List.reverseRecOn with
  | nil => rfl
  | append_singleton ds d ih =>
    rw [List.foldl_append, ih, value_append, value_cons]
    simp only [List.foldl_cons, List.foldl_nil, List.length_nil, List.length_cons, value_nil]
    ring

theorem value_lt {ds : List ℕ} (hbase : 1 < base) (h : ∀ d ∈ ds, d < base) :
    value base ds < base ^ ds.length := by
  have hlt := Nat.ofDigits_lt_base_pow_length hbase (l := ds.reverse)
    (fun d hd => h d (List.mem_reverse.mp hd))
  rwa [List.length_reverse] at hlt

@[simp] theorem length_digits (n v : ℕ) : (digits base n v).length = n := by
  induction n with
  | zero => rfl
  | succ n ih => exact congrArg (· + 1) ih

theorem digits_lt (hbase : 0 < base) (n v : ℕ) : ∀ d ∈ digits base n v, d < base := by
  induction n with
  | zero =>
    intro d hd
    cases hd
  | succ n ih =>
    intro d hd
    rcases List.mem_cons.mp hd with rfl | hd
    · exact Nat.mod_lt _ hbase
    · exact ih d hd

theorem value_digits (n v : ℕ) : value base (digits base n v) = v % base ^ n := by
  induction n with
  | zero => rw [pow_zero, Nat.mod_one]; rfl
  | succ n ih =>
    rw [digits, value_cons, length_digits, ih, pow_succ, Nat.mod_mul, Nat.mul_comm, Nat.add_comm]

/-- A numeral is what the digits of its number are. -/
theorem digits_value {ds : List ℕ} (hbase : 1 < base) (h : ∀ d ∈ ds, d < base) (v : ℕ) :
    digits base ds.length (v * base ^ ds.length + value base ds) = ds := by
  induction ds generalizing v with
  | nil => rfl
  | cons d ds ih =>
    have hd := h d List.mem_cons_self
    have hds := fun e he => h e (List.mem_cons_of_mem d he)
    have hlt := value_lt hbase hds
    have hpos : 0 < base ^ ds.length := by positivity
    have hsplit : v * base ^ (d :: ds).length + value base (d :: ds) =
        (v * base + d) * base ^ ds.length + value base ds := by
      rw [value_cons, List.length_cons]
      ring
    rw [List.length_cons, digits, ← List.length_cons (a := d), hsplit, ih hds]
    have hhigh : ((v * base + d) * base ^ ds.length + value base ds) / base ^ ds.length =
        v * base + d := by
      rw [Nat.mul_comm, Nat.mul_add_div hpos, Nat.div_eq_of_lt hlt, Nat.add_zero]
    rw [hhigh, Nat.mul_comm, Nat.mul_add_mod, Nat.mod_eq_of_lt hd]

theorem digits_append (m n v : ℕ) :
    digits base (m + n) v = digits base m (v / base ^ n) ++ digits base n v := by
  induction m with
  | zero => rw [Nat.zero_add]; rfl
  | succ m ih =>
    rw [Nat.succ_add, digits, ih, digits, Nat.div_div_eq_div_mul, ← pow_add, Nat.add_comm n m]
    rfl

/-- Numerals of one width compare as their numbers. -/
theorem value_lt_value_iff {ds es : List ℕ} (hbase : 1 < base) (hlen : ds.length = es.length)
    (hds : ∀ d ∈ ds, d < base) (hes : ∀ e ∈ es, e < base) :
    value base ds < value base es ↔ ds < es := by
  induction ds generalizing es with
  | nil =>
    obtain rfl := List.length_eq_zero_iff.mp hlen.symm
    simp
  | cons d ds ih =>
    cases es with
    | nil => cases hlen
    | cons e es =>
      have hlen' : ds.length = es.length := Nat.succ.inj hlen
      have hds' := fun x hx => hds x (List.mem_cons_of_mem d hx)
      have hes' := fun x hx => hes x (List.mem_cons_of_mem e hx)
      have hlow := value_lt hbase hds'
      have hlow' := value_lt hbase hes'
      rw [← hlen'] at hlow'
      rw [value_cons, value_cons, ← hlen', List.cons_lt_cons_iff, ← ih hlen' hds' hes']
      -- the first digits decide, unless they are equal
      rcases Nat.lt_trichotomy d e with hlt | rfl | hgt
      · have hstep : (d + 1) * base ^ ds.length ≤ e * base ^ ds.length :=
          Nat.mul_le_mul_right _ hlt
        rw [Nat.add_mul, Nat.one_mul] at hstep
        constructor
        · intro _
          exact Or.inl hlt
        · intro _
          omega
      · simp
      · have hstep : (e + 1) * base ^ ds.length ≤ d * base ^ ds.length :=
          Nat.mul_le_mul_right _ hgt
        rw [Nat.add_mul, Nat.one_mul] at hstep
        constructor
        · intro h
          omega
        · rintro (h | ⟨h, -⟩)
          · exact absurd hgt (Nat.not_lt_of_lt h)
          · exact absurd h (Nat.ne_of_gt hgt)

/-- Lists compare as their images under an injection that keeps the order of their elements. -/
theorem map_lt_map_iff {α β : Type*} [LT α] [LT β] {f : α → β} {s : Set α} (hinj : Set.InjOn f s)
    (hf : ∀ a ∈ s, ∀ b ∈ s, f a < f b ↔ a < b) {as bs : List α} (has : ∀ a ∈ as, a ∈ s)
    (hbs : ∀ b ∈ bs, b ∈ s) : as.map f < bs.map f ↔ as < bs := by
  induction as generalizing bs with
  | nil => cases bs <;> simp
  | cons a as ih =>
    cases bs with
    | nil => simp
    | cons b bs =>
      have ha := has a List.mem_cons_self
      have hb := hbs b List.mem_cons_self
      rw [List.map_cons, List.map_cons, List.cons_lt_cons_iff, List.cons_lt_cons_iff, hf a ha b hb,
        hinj.eq_iff ha hb, ih (fun x hx => has x (List.mem_cons_of_mem a hx))
          (fun x hx => hbs x (List.mem_cons_of_mem b hx))]

end AsmFlow.Library
