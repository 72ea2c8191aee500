import AsmFlow.Core.Id
import AsmFlow.Library.Numerals

/-!
# Ids as numbers

An id is a numeral of 26 digits in base 32, and its randomness is one of ten digits in base 256.
-/

namespace AsmFlow.Id

open Library (value digits)

/-- The number that a text of the alphabet spells, of 130 bits at most when it has 26
characters. -/
def decode (s : Bytes) : Option ℕ :=
  if s.all crockford.contains then some (value 32 (s.map crockford.idxOf)) else none

/-- Bytes as a number. -/
def bigEndian (b : Bytes) : ℕ := value 256 (b.map UInt8.toNat)

/-- A number as ten bytes. -/
def tenBytes (v : ℕ) : Bytes := (digits 256 10 v).map UInt8.ofNat

/-! ## Characters -/

theorem idxOf_lt {c : UInt8} (h : c ∈ crockford) : crockford.idxOf c < 32 :=
  List.idxOf_lt_length_of_mem h

theorem symbol_idxOf {c : UInt8} (h : c ∈ crockford) : symbol (crockford.idxOf c) = c := by
  have hlt : crockford.idxOf c < crockford.length := List.idxOf_lt_length_of_mem h
  rw [symbol, Nat.mod_eq_of_lt (idxOf_lt h), List.getD_eq_getElem _ _ hlt, List.getElem_idxOf hlt]

theorem validChar_eq_contains (c : UInt8) : validChar c = crockford.contains c := by
  by_cases hc : c.toNat < 91
  · have hall : ∀ n < 91, validChar (UInt8.ofNat n) = crockford.contains (UInt8.ofNat n) := by
      decide
    have h := hall c.toNat hc
    rwa [UInt8.ofNat_toNat] at h
  · have hsmall : ∀ d < 32, (symbol d).toNat < 91 := by decide
    have hout : c ∉ crockford := fun hmem => hc (symbol_idxOf hmem ▸ hsmall _ (idxOf_lt hmem))
    have hdigit : ¬c ≤ 57 := fun hle => hc ((UInt8.le_iff_toNat_le.mp hle).trans_lt (by decide))
    have hletter : ¬c ≤ 90 := fun hle => hc ((UInt8.le_iff_toNat_le.mp hle).trans_lt (by decide))
    simp [validChar, hdigit, hletter, hout]

/-- The alphabet is in the order of its bytes. -/
theorem idxOf_lt_idxOf_iff {c d : UInt8} (hc : c ∈ crockford) (hd : d ∈ crockford) :
    crockford.idxOf c < crockford.idxOf d ↔ c < d := by
  have hsorted : crockford.Pairwise (· < ·) := by decide
  have hless {c d : UInt8} (hc : c ∈ crockford) (hd : d ∈ crockford)
      (h : crockford.idxOf c < crockford.idxOf d) : c < d := by
    have hlt := List.pairwise_iff_getElem.mp hsorted _ _ (List.idxOf_lt_length_of_mem hc)
      (List.idxOf_lt_length_of_mem hd) h
    rwa [List.getElem_idxOf, List.getElem_idxOf] at hlt
  constructor
  · exact hless hc hd
  · intro hlt
    rcases lt_trichotomy (crockford.idxOf c) (crockford.idxOf d) with h | h | h
    · exact h
    · obtain rfl := (List.idxOf_inj hc).mp h
      exact absurd hlt (UInt8.lt_irrefl c)
    · exact absurd hlt (UInt8.lt_asymm (hless hd hc h))

theorem symbol_mod (v : ℕ) : symbol (v % 32) = symbol v := by
  unfold symbol
  rw [Nat.mod_mod]

/-! ## Texts -/

theorem encode_eq (n v : ℕ) : encode n v = (digits 32 n v).map symbol := by
  induction n with
  | zero => rfl
  | succ n ih =>
    have hpow : (32 : ℕ) ^ n = 2 ^ (5 * n) := by rw [pow_mul]; rfl
    rw [encode, digits, List.map_cons, symbol_mod, ih, hpow]

theorem map_idxOf_encode (n v : ℕ) : (encode n v).map crockford.idxOf = digits 32 n v := by
  have hback : ∀ d ∈ digits 32 n v, (crockford.idxOf ∘ symbol) d = d := by
    intro d hd
    have hlt := Library.digits_lt (by decide) n v d hd
    exact (idxOf_symbol d).trans (Nat.mod_eq_of_lt hlt)
  rw [encode_eq, List.map_map, List.map_congr_left hback]
  exact List.map_id _

theorem decode_encode (n v : ℕ) : decode (encode n v) = some (v % 32 ^ n) := by
  have hall : (encode n v).all crockford.contains = true := by
    rw [← encode_valid n v]
    exact congrArg _ (funext fun c => (validChar_eq_contains c).symm)
  unfold decode
  rw [if_pos hall, map_idxOf_encode, Library.value_digits]

theorem encode_append (m n v : ℕ) :
    encode (m + n) v = encode m (v / 32 ^ n) ++ encode n v := by
  rw [encode_eq, encode_eq, encode_eq, Library.digits_append, List.map_append]

theorem mem_crockford_of_decode {s : Bytes} {v : ℕ} (h : decode s = some v) :
    (∀ c ∈ s, c ∈ crockford) ∧ v = value 32 (s.map crockford.idxOf) := by
  unfold decode at h
  split_ifs at h with hall
  refine ⟨fun c hc => ?_, (Option.some.inj h).symm⟩
  exact List.contains_iff_mem.mp (List.all_eq_true.mp hall c hc)

theorem map_idxOf_lt {s : Bytes} (h : ∀ c ∈ s, c ∈ crockford) :
    ∀ d ∈ s.map crockford.idxOf, d < 32 := by
  intro d hd
  obtain ⟨c, hc, rfl⟩ := List.mem_map.mp hd
  exact idxOf_lt (h c hc)

/-- A text of the alphabet is what its number is written as. -/
theorem encode_of_decode {s : Bytes} {v : ℕ} (h : decode s = some v) :
    encode s.length v = s ∧ v < 32 ^ s.length := by
  obtain ⟨hmem, rfl⟩ := mem_crockford_of_decode h
  have hdigits := map_idxOf_lt hmem
  constructor
  · have hvalue := Library.digits_value (by decide) hdigits 0
    rw [Nat.zero_mul, Nat.zero_add, List.length_map] at hvalue
    have hback : ∀ c ∈ s, (symbol ∘ crockford.idxOf) c = c := fun c hc => symbol_idxOf (hmem c hc)
    rw [encode_eq, hvalue, List.map_map, List.map_congr_left hback]
    exact List.map_id _
  · have hlt := Library.value_lt (by decide) hdigits
    rwa [List.length_map] at hlt

/-- Texts of one length compare as their numbers. -/
theorem decode_lt_iff {s s' : Bytes} {v w : ℕ} (hlen : s.length = s'.length)
    (hv : decode s = some v) (hw : decode s' = some w) : v < w ↔ s < s' := by
  obtain ⟨hmem, rfl⟩ := mem_crockford_of_decode hv
  obtain ⟨hmem', rfl⟩ := mem_crockford_of_decode hw
  have hsame : (s.map crockford.idxOf).length = (s'.map crockford.idxOf).length := by
    rw [List.length_map, List.length_map, hlen]
  rw [Library.value_lt_value_iff (by decide) hsame (map_idxOf_lt hmem) (map_idxOf_lt hmem')]
  have hinj : Set.InjOn crockford.idxOf {c | c ∈ crockford} := by
    intro c hc d hd heq
    exact (symbol_idxOf hc).symm.trans ((congrArg symbol heq).trans (symbol_idxOf hd))
  exact Library.map_lt_map_iff hinj (fun c hc d hd => idxOf_lt_idxOf_iff hc hd) hmem hmem'

theorem encode_eq_encode_mod (n v : ℕ) : encode n v = encode n (v % 32 ^ n) := by
  have hpow : (32 : ℕ) ^ n = 2 ^ (5 * n) := by rw [pow_mul]; rfl
  rw [hpow, encode_mod n v n le_rfl]

/-! ## Randomness -/

theorem assemble_eq (b : Bytes) : assemble b = bigEndian b := by
  unfold assemble bigEndian
  rw [← Library.foldl_value, List.foldl_map]

theorem bigEndian_append (b d : Bytes) :
    bigEndian (b ++ d) = bigEndian b * 256 ^ d.length + bigEndian d := by
  unfold bigEndian
  rw [List.map_append, Library.value_append, List.length_map]

theorem map_toNat_lt (b : Bytes) : ∀ d ∈ b.map UInt8.toNat, d < 256 := by
  intro d hd
  obtain ⟨c, -, rfl⟩ := List.mem_map.mp hd
  exact c.toNat_lt

theorem bigEndian_lt (b : Bytes) : bigEndian b < 256 ^ b.length := by
  have hlt := Library.value_lt (by decide) (map_toNat_lt b)
  rwa [List.length_map] at hlt

theorem bigEndian_lt_iff {b d : Bytes} (hlen : b.length = d.length) :
    bigEndian b < bigEndian d ↔ b < d := by
  have hsame : (b.map UInt8.toNat).length = (d.map UInt8.toNat).length := by
    rw [List.length_map, List.length_map, hlen]
  unfold bigEndian
  rw [Library.value_lt_value_iff (by decide) hsame (map_toNat_lt b) (map_toNat_lt d)]
  have hinj : Set.InjOn UInt8.toNat Set.univ := fun c _ d _ heq => UInt8.toNat_inj.mp heq
  have horder : ∀ c ∈ Set.univ, ∀ d ∈ Set.univ, UInt8.toNat c < UInt8.toNat d ↔ c < d :=
    fun c _ d _ => UInt8.lt_iff_toNat_lt.symm
  exact Library.map_lt_map_iff hinj horder (fun _ _ => trivial) (fun _ _ => trivial)

theorem bigEndian_tenBytes (v : ℕ) :
    (tenBytes v).length = 10 ∧ bigEndian (tenBytes v) = v % 256 ^ 10 := by
  have hback : ∀ d ∈ digits 256 10 v, (UInt8.toNat ∘ UInt8.ofNat) d = d := by
    intro d hd
    exact UInt8.toNat_ofNat_of_lt (Library.digits_lt (by decide) 10 v d hd)
  unfold bigEndian tenBytes
  rw [List.length_map, Library.length_digits, List.map_map, List.map_congr_left hback]
  exact ⟨rfl, (congrArg (value 256) (List.map_id _)).trans (Library.value_digits 10 v)⟩

/-! ## Ids -/

/-- The number of an id: its time above its randomness. -/
def number (time : ℕ) (random : Bytes) : ℕ := time % 2 ^ 48 * 2 ^ 80 + bigEndian random

/-- The three groups meet: together they are one numeral. -/
theorem generate_eq {random : Bytes} (t : ℕ) (h : random.length = 10) :
    generate (.ok t) random = .ok (encode 26 (number t random)) := by
  have htake : (random.take 5).length = 5 := by simp [h]
  have hdrop : (random.drop 5).length = 5 := by simp [h]
  have hparts : bigEndian random =
      bigEndian (random.take 5) * 2 ^ 40 + bigEndian (random.drop 5) := by
    have happ := bigEndian_append (random.take 5) (random.drop 5)
    rwa [List.take_append_drop, hdrop] at happ
  have hhigh := bigEndian_lt (random.take 5)
  have hlow := bigEndian_lt (random.drop 5)
  rw [htake] at hhigh
  rw [hdrop] at hlow
  have htime : t % 2 ^ 48 < 2 ^ 48 := Nat.mod_lt t (by decide)
  have hsplit : encode 26 (number t random) = encode 10 (number t random / 32 ^ 16) ++
      (encode 8 (number t random / 32 ^ 8) ++ encode 8 (number t random)) := by
    rw [← encode_append 8 8, ← encode_append 10 16]
  have h1 : number t random / 32 ^ 16 = t % 2 ^ 48 := by
    unfold number
    omega
  have h2 : number t random / 32 ^ 8 % 32 ^ 8 = bigEndian (random.take 5) := by
    unfold number
    omega
  have h3 : number t random % 32 ^ 8 = bigEndian (random.drop 5) := by
    unfold number
    omega
  unfold generate
  dsimp only
  rw [if_neg (not_not.mpr h), hsplit, h1, encode_eq_encode_mod 8 (number t random / 32 ^ 8), h2,
    encode_eq_encode_mod 8 (number t random), h3, assemble_eq, assemble_eq, List.append_assoc]

theorem number_lt (t : ℕ) {random : Bytes} (h : random.length = 10) :
    number t random < 2 ^ 128 := by
  have hlow := bigEndian_lt random
  have htime : t % 2 ^ 48 < 2 ^ 48 := Nat.mod_lt t (by decide)
  rw [h] at hlow
  unfold number
  omega

/-- What is generated is the number of the time and the randomness. -/
theorem decode_generate {t : ℕ} {random id : Bytes} (h : generate (.ok t) random = .ok id) :
    decode id = some (number t random) := by
  have hlen := length_of_generate h
  have hlt := number_lt t hlen
  rw [generate_eq t hlen] at h
  obtain rfl := Except.ok.inj h
  rw [decode_encode, Nat.mod_eq_of_lt (hlt.trans (by decide))]

theorem length_of_generate_id {clock : Except Status ℕ} {random id : Bytes}
    (h : generate clock random = .ok id) : id.length = idLen :=
  length_of_isValidUlid (generate_valid h)

theorem generate_time {t t' : ℕ} {random random' id : Bytes}
    (h : generate (.ok t) random = .ok id) (h' : generate (.ok t') random' = .ok id) :
    t % 2 ^ 48 = t' % 2 ^ 48 := by
  have hnumber := Option.some.inj ((decode_generate h).symm.trans (decode_generate h'))
  have hlow := bigEndian_lt random
  have hlow' := bigEndian_lt random'
  rw [length_of_generate h] at hlow
  rw [length_of_generate h'] at hlow'
  unfold number at hnumber
  omega

/-- Ids are in the order of their times, and those of one time in that of their randomness. -/
theorem generate_lt_iff {t t' : ℕ} {random random' id id' : Bytes} (ht : t < 2 ^ 48)
    (ht' : t' < 2 ^ 48) (h : generate (.ok t) random = .ok id)
    (h' : generate (.ok t') random' = .ok id') :
    id < id' ↔ t < t' ∨ t = t' ∧ random < random' := by
  have hlen := length_of_generate h
  have hlen' := length_of_generate h'
  have hlow := bigEndian_lt random
  have hlow' := bigEndian_lt random'
  rw [hlen] at hlow
  rw [hlen'] at hlow'
  have hsame := (length_of_generate_id h).trans (length_of_generate_id h').symm
  rw [← decode_lt_iff hsame (decode_generate h) (decode_generate h'),
    ← bigEndian_lt_iff (hlen.trans hlen'.symm)]
  unfold number
  rw [Nat.mod_eq_of_lt ht, Nat.mod_eq_of_lt ht']
  omega

/-! ## Accepted texts -/

/-- The first character of an accepted text keeps the number below 128 bits. -/
theorem decode_of_isValidUlid {s : Bytes} (h : isValidUlid s = true) :
    ∃ v, decode s = some v ∧ v < 2 ^ 128 := by
  have hlen := length_of_isValidUlid h
  unfold isValidUlid at h
  simp only [Bool.and_eq_true, decide_eq_true_eq] at h
  obtain ⟨⟨-, hfirst⟩, hall⟩ := h
  have hcontains : s.all crockford.contains = true := by
    rw [← hall]
    exact congrArg _ (funext fun c => (validChar_eq_contains c).symm)
  cases s with
  | nil => cases hlen
  | cons c s =>
    have htail : s.length = 25 := Nat.succ.inj hlen
    have hdecode : decode (c :: s) = some (value 32 ((c :: s).map crockford.idxOf)) := by
      unfold decode
      rw [if_pos hcontains]
    refine ⟨_, hdecode, ?_⟩
    obtain ⟨hmem, -⟩ := mem_crockford_of_decode hdecode
    have hlow := Library.value_lt (by decide) (map_idxOf_lt fun d hd => hmem d (.tail c hd))
    rw [List.length_map, htail] at hlow
    have hdigit : crockford.idxOf c < 8 := by
      have hin : c ∈ crockford := hmem c List.mem_cons_self
      have hseven : ∀ d < 32, symbol d ≤ 55 → d < 8 := by decide
      exact hseven _ (idxOf_lt hin) ((symbol_idxOf hin).symm ▸ hfirst.2)
    rw [List.map_cons, Library.value_cons, List.length_map, htail]
    omega

/-- Every accepted text is the id of a time and a randomness. -/
theorem generate_of_isValidUlid {s : Bytes} {v : ℕ} (h : isValidUlid s = true)
    (hv : decode s = some v) : generate (.ok (v / 2 ^ 80)) (tenBytes v) = .ok s := by
  obtain ⟨w, hw, hlt⟩ := decode_of_isValidUlid h
  obtain rfl := Option.some.inj (hv.symm.trans hw)
  obtain ⟨hlen, hvalue⟩ := bigEndian_tenBytes v
  have hnumber : number (v / 2 ^ 80) (tenBytes v) = v := by
    unfold number
    rw [hvalue]
    omega
  have hback := (encode_of_decode hv).1
  rw [length_of_isValidUlid h] at hback
  rw [generate_eq _ hlen, hnumber]
  exact congrArg Except.ok hback

/-- Ids are sortable numerals without loss, of the time in 48 bits and the randomness. -/
theorem generate_ulid :
    (∀ t random, random.length = 10 → ∃ id, generate (.ok t) random = .ok id ∧
      isValidUlid id = true ∧ decode id = some (t % 2 ^ 48 * 2 ^ 80 + bigEndian random)) ∧
    (∀ t t' random random' id, generate (.ok t) random = .ok id →
      generate (.ok t') random' = .ok id → t % 2 ^ 48 = t' % 2 ^ 48 ∧ random = random') ∧
    (∀ t t' random random' id id', t < 2 ^ 48 → t' < 2 ^ 48 →
      generate (.ok t) random = .ok id → generate (.ok t') random' = .ok id' →
      (id < id' ↔ t < t' ∨ t = t' ∧ random < random')) ∧
    ∀ s, isValidUlid s = true → ∃ v, decode s = some v ∧ v < 2 ^ 128 ∧ encode idLen v = s ∧
      generate (.ok (v / 2 ^ 80)) (tenBytes v) = .ok s := by
  refine ⟨?_, ?_, ?_, ?_⟩
  · intro t random hlen
    have hid := generate_eq t hlen
    exact ⟨_, hid, generate_valid hid, decode_generate hid⟩
  · intro t t' random random' id h h'
    exact ⟨generate_time h h', generate_inj h h'⟩
  · intro t t' random random' id id' ht ht' h h'
    exact generate_lt_iff ht ht' h h'
  · intro s hs
    obtain ⟨v, hv, hlt⟩ := decode_of_isValidUlid hs
    have hback := (encode_of_decode hv).1
    rw [length_of_isValidUlid hs] at hback
    exact ⟨v, hv, hlt, hback, generate_of_isValidUlid hs hv⟩

/-- A clock past the 48 bits repeats the ids of the epoch. -/
theorem generate_epoch :
    ¬ ∀ t t' random random' id, generate (.ok t) random = .ok id →
      generate (.ok t') random' = .ok id → t = t' ∧ random = random' := by
  intro h
  have hlen : (List.replicate 10 (0 : UInt8)).length = 10 := rfl
  have hnumber : number (2 ^ 48) (List.replicate 10 0) = number 0 (List.replicate 10 0) := rfl
  have hlate := generate_eq (2 ^ 48) hlen
  rw [hnumber] at hlate
  have heq := (h 0 (2 ^ 48) _ _ _ (generate_eq 0 hlen) hlate).1
  exact absurd heq (by decide)

end AsmFlow.Id
