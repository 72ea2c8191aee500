import AsmFlow.Config.Snapshot
import AsmFlow.Machine.Status

/-!
# Request ids

`id.asm`: a ULID is 48 bits of time and 80 bits of randomness, written as 26
Crockford base-32 characters. What the clock and `getrandom` answer is an
argument; an id that could not be generated is left empty by its caller.
-/

namespace AsmFlow.Id

/-- `AF_ID_LEN`. -/
def idLen : ℕ := 26

/-- The digits and the capital letters but I, L, O and U. -/
def crockford : Bytes :=
  [48, 49, 50, 51, 52, 53, 54, 55, 56, 57, 65, 66, 67, 68, 69, 70, 71, 72, 74, 75, 77, 78, 80,
    81, 82, 83, 84, 86, 87, 88, 89, 90]

/-- The character of the lowest five bits. -/
def symbol (v : ℕ) : UInt8 := crockford.getD (v % 32) 0

/-- The `n` lowest groups of five bits, the most significant first. -/
def encode : ℕ → ℕ → Bytes
  | 0, _ => []
  | n + 1, v => symbol (v / 2 ^ (5 * n)) :: encode n v

/-- A big-endian number. -/
def assemble (b : Bytes) : ℕ := b.foldl (fun v c => 256 * v + c.toNat) 0

/-- `af_id_generate`. -/
def generate (clock : Except Status ℕ) (random : Bytes) : Except Status Bytes :=
  match clock with
  | .error e => .error e
  | .ok ms =>
    if random.length ≠ 10 then .error .sys
    else
      .ok (encode 10 (ms % 2 ^ 48) ++ encode 8 (assemble (random.take 5)) ++
        encode 8 (assemble (random.drop 5)))

/-- A character of the alphabet, by the comparisons of `af_id_is_valid_ulid`. -/
def validChar (c : UInt8) : Bool :=
  decide (48 ≤ c ∧ c ≤ 57) ||
    decide (65 ≤ c ∧ c ≤ 90) && !(c == 73 || c == 76 || c == 79 || c == 85)

/-- `af_id_is_valid_ulid`. -/
def isValidUlid (s : Bytes) : Bool :=
  decide (s.length = idLen) && decide (48 ≤ s.headD 0 ∧ s.headD 0 ≤ 55) && s.all validChar

/-! ## What is generated is valid -/

theorem encode_length (n v : ℕ) : (encode n v).length = n := by
  induction n with
  | zero => rfl
  | succ n ih => exact congrArg (· + 1) ih

theorem symbol_valid (v : ℕ) : validChar (symbol v) = true := by
  have hall : ∀ d < 32, validChar (crockford.getD d 0) = true := by decide
  exact hall _ (Nat.mod_lt v (by decide))

theorem encode_valid (n v : ℕ) : (encode n v).all validChar = true := by
  induction n with
  | zero => rfl
  | succ n ih =>
    rw [encode, List.all_cons, symbol_valid, ih]
    rfl

/-- The first character carries three bits of the time. -/
theorem symbol_timestamp (ms : ℕ) :
    48 ≤ symbol (ms % 2 ^ 48 / 2 ^ (5 * 9)) ∧ symbol (ms % 2 ^ 48 / 2 ^ (5 * 9)) ≤ 55 := by
  have hsmall : ms % 2 ^ 48 / 2 ^ (5 * 9) < 8 := by
    have hms : ms % 2 ^ 48 < 2 ^ 48 := Nat.mod_lt ms (by decide)
    omega
  have hall : ∀ d < 8, 48 ≤ symbol d ∧ symbol d ≤ 55 := by decide
  exact hall _ hsmall

theorem generate_valid {clock : Except Status ℕ} {random id : Bytes}
    (h : generate clock random = .ok id) : isValidUlid id = true := by
  unfold generate at h
  cases clock with
  | error e => cases h
  | ok ms =>
    dsimp only at h
    split_ifs at h with hlen
    obtain rfl := Except.ok.inj h
    unfold isValidUlid
    rw [List.all_append, List.all_append, encode_valid, encode_valid, encode_valid,
      List.length_append, List.length_append, encode_length, encode_length, encode_length]
    simp only [Bool.and_true, Bool.and_eq_true, decide_eq_true_eq]
    exact ⟨rfl, symbol_timestamp ms⟩

theorem length_of_isValidUlid {id : Bytes} (h : isValidUlid id = true) : id.length = idLen := by
  unfold isValidUlid at h
  simp only [Bool.and_eq_true, decide_eq_true_eq] at h
  exact h.1.1

/-! ## Different randomness gives different ids -/

theorem idxOf_symbol (v : ℕ) : crockford.idxOf (symbol v) = v % 32 := by
  have hall : ∀ d < 32, crockford.idxOf (crockford.getD d 0) = d := by decide
  exact hall _ (Nat.mod_lt v (by decide))

theorem symbol_inj {v w : ℕ} (hv : v < 32) (hw : w < 32) (h : symbol v = symbol w) : v = w := by
  have hindex := congrArg crockford.idxOf h
  rwa [idxOf_symbol, idxOf_symbol, Nat.mod_eq_of_lt hv, Nat.mod_eq_of_lt hw] at hindex

/-- Only the groups that are written matter. -/
theorem encode_mod (n v k : ℕ) (hk : n ≤ k) : encode n (v % 2 ^ (5 * k)) = encode n v := by
  induction n with
  | zero => rfl
  | succ n ih =>
    have hgroup : symbol (v % 2 ^ (5 * k) / 2 ^ (5 * n)) = symbol (v / 2 ^ (5 * n)) := by
      have hsplit : 2 ^ (5 * k) = 2 ^ (5 * n) * (32 * 2 ^ (5 * (k - n - 1))) := by
        have h32 : (32 : ℕ) = 2 ^ 5 := rfl
        rw [h32, ← pow_add, ← pow_add]
        congr 1
        omega
      unfold symbol
      rw [hsplit, Nat.mod_mul_right_div_self, Nat.mod_mul_right_mod]
    rw [encode, encode, hgroup, ih (by omega)]

theorem encode_inj {n v w : ℕ} (hv : v < 2 ^ (5 * n)) (hw : w < 2 ^ (5 * n))
    (h : encode n v = encode n w) : v = w := by
  induction n generalizing v w with
  | zero => omega
  | succ n ih =>
    have hpow : 2 ^ (5 * (n + 1)) = 2 ^ (5 * n) * 32 := by
      rw [Nat.mul_succ, pow_add]
      rfl
    rw [hpow] at hv hw
    obtain ⟨hhead, htail⟩ := List.cons.inj h
    have hhigh : v / 2 ^ (5 * n) = w / 2 ^ (5 * n) :=
      symbol_inj (Nat.div_lt_of_lt_mul hv) (Nat.div_lt_of_lt_mul hw) hhead
    rw [← encode_mod n v n le_rfl, ← encode_mod n w n le_rfl] at htail
    have hpos : 0 < 2 ^ (5 * n) := by positivity
    have hlow := ih (Nat.mod_lt v hpos) (Nat.mod_lt w hpos) htail
    rw [← Nat.div_add_mod v (2 ^ (5 * n)), ← Nat.div_add_mod w (2 ^ (5 * n)), hhigh, hlow]

/-- Numbers of as many bytes are equal only digit by digit. -/
theorem foldl_assemble_inj {b d : Bytes} {v w : ℕ} (hlen : b.length = d.length)
    (h : b.foldl (fun v c => 256 * v + c.toNat) v = d.foldl (fun v c => 256 * v + c.toNat) w) :
    v = w ∧ b = d := by
  induction b generalizing d v w with
  | nil =>
    obtain rfl := List.length_eq_zero_iff.mp hlen.symm
    exact ⟨h, rfl⟩
  | cons c b ih =>
    cases d with
    | nil => cases hlen
    | cons e d =>
      obtain ⟨hnext, rfl⟩ := ih (Nat.succ.inj hlen) h
      have hc := c.toNat_lt
      have he := e.toNat_lt
      have hsum : 256 * v + c.toNat = 256 * w + e.toNat := hnext
      have hbyte : c.toNat = e.toNat := by omega
      exact ⟨by omega, by rw [UInt8.toNat_inj.mp hbyte]⟩

theorem assemble_inj {b d : Bytes} (hlen : b.length = d.length)
    (h : assemble b = assemble d) : b = d := (foldl_assemble_inj hlen h).2

theorem assemble_lt (b : Bytes) : assemble b < 2 ^ (8 * b.length) := by
  have hfrom : ∀ (b : Bytes) (v : ℕ),
      b.foldl (fun v c => 256 * v + c.toNat) v < (v + 1) * 2 ^ (8 * b.length) := by
    intro b
    induction b with
    | nil =>
      intro v
      simp
    | cons c b ih =>
      intro v
      have hc := c.toNat_lt
      refine (ih (256 * v + c.toNat)).trans_le ?_
      have hpow : 2 ^ (8 * (c :: b).length) = 256 * 2 ^ (8 * b.length) := by
        rw [List.length_cons, Nat.mul_succ, pow_add, Nat.mul_comm]
        rfl
      rw [hpow, ← Nat.mul_assoc]
      exact Nat.mul_le_mul_right _ (by omega)
  have h := hfrom b 0
  rwa [Nat.zero_add, Nat.one_mul] at h

theorem length_of_generate {clock : Except Status ℕ} {random id : Bytes}
    (h : generate clock random = .ok id) : random.length = 10 := by
  unfold generate at h
  cases clock with
  | error e => cases h
  | ok ms =>
    dsimp only at h
    split_ifs at h with hlen
    exact not_not.mp hlen

/-- Two ids are equal only if their randomness was. -/
theorem generate_inj {clock clock' : Except Status ℕ} {random random' id : Bytes}
    (h : generate clock random = .ok id) (h' : generate clock' random' = .ok id) :
    random = random' := by
  have hparts : ∀ {clock : Except Status ℕ} {random : Bytes}, generate clock random = .ok id →
      ∃ time, id = encode 10 time ++ encode 8 (assemble (random.take 5)) ++
        encode 8 (assemble (random.drop 5)) := by
    intro clock random h
    unfold generate at h
    cases clock with
    | error e => cases h
    | ok ms =>
      dsimp only at h
      split_ifs at h with hlen
      exact ⟨_, (Except.ok.inj h).symm⟩
  obtain ⟨time, hid⟩ := hparts h
  obtain ⟨time', hid'⟩ := hparts h'
  have hlen := length_of_generate h
  have hlen' := length_of_generate h'
  rw [hid] at hid'
  obtain ⟨hfirst, hlow⟩ := List.append_inj hid' (by simp [encode_length])
  obtain ⟨-, hhigh⟩ := List.append_inj hfirst (by simp [encode_length])
  have hhalf : ∀ b : Bytes, b.length = 5 → assemble b < 2 ^ (5 * 8) := by
    intro b hb
    have hlt := assemble_lt b
    rwa [hb] at hlt
  have htake : ∀ b : Bytes, b.length = 10 → (b.take 5).length = 5 ∧ (b.drop 5).length = 5 := by
    intro b hb
    simp [hb]
  obtain ⟨ht, hd⟩ := htake random hlen
  obtain ⟨ht', hd'⟩ := htake random' hlen'
  have hupper := assemble_inj (ht.trans ht'.symm) (encode_inj (hhalf _ ht) (hhalf _ ht') hhigh)
  have hlower := assemble_inj (hd.trans hd'.symm) (encode_inj (hhalf _ hd) (hhalf _ hd') hlow)
  rw [← List.take_append_drop 5 random, ← List.take_append_drop 5 random', hupper, hlower]

end AsmFlow.Id
