import AsmFlow.Http.Response

/-!
# Addresses

`af_http_parse_ipv4` and `af_http_parse_ipv6`: the text of an address and the
bytes it denotes, in network order.
-/

namespace AsmFlow.Http

/-! ## Four octets -/

/-- `.digits`: the value and the number of the digits up to the next dot. -/
def ipv4Digits : Bytes → ℕ → ℕ → Option (ℕ × ℕ × Bytes)
  | [], value, digits => some (value, digits, [])
  | c :: rest, value, digits =>
    if c = 46 then some (value, digits, c :: rest)
    else if ¬(48 ≤ c ∧ c ≤ 57) then none
    else if 3 ≤ digits then none
    -- a second digit after a leading zero would make this ambiguous
    else if digits ≠ 0 ∧ value = 0 then none
    else ipv4Digits rest (value * 10 + (c.toNat - 48)) (digits + 1)

/-- `.octet`, with so many octets still to come behind this one. -/
def ipv4Octets : ℕ → ℕ → Bytes → Option ℕ
  | left, address, s =>
    match ipv4Digits s 0 0 with
    | none => none
    | some (value, digits, rest) =>
      if digits = 0 then none
      else if 255 < value then none
      else
        match left, rest with
        | 0, [] => some (address <<< 8 ||| value)
        | 0, _ :: _ => none
        | _ + 1, [] => none
        | left + 1, c :: rest =>
          if c ≠ 46 then none else ipv4Octets left (address <<< 8 ||| value) rest

/-- The bytes of the address in memory, `bswap` applied. -/
def networkOrder (address : ℕ) : Bytes :=
  [UInt8.ofNat (address >>> 24), UInt8.ofNat (address >>> 16), UInt8.ofNat (address >>> 8),
    UInt8.ofNat address]

/-- `af_http_parse_ipv4`. -/
def parseIpv4 (s : Bytes) : Option Bytes := (ipv4Octets 3 0 s).map networkOrder

/-- Decimal octets without superfluous zeros, separated by dots. -/
def dotted : List UInt8 → Bytes
  | [] => []
  | [v] => decimal v.toNat
  | v :: vs => decimal v.toNat ++ 46 :: dotted vs

theorem decimal_digit {d : ℕ} (hd : d < 10) : decimal d = [UInt8.ofNat (48 + d)] := by
  unfold decimal
  split_ifs with hzero
  · rw [hzero]
    rfl
  · rw [Nat.digits_of_lt 10 d hzero hd]
    rfl

theorem decimal_snoc {v d : ℕ} (hv : v ≠ 0) (hd : d < 10) :
    decimal (v * 10 + d) = decimal v ++ [UInt8.ofNat (48 + d)] := by
  have hdigits : Nat.digits 10 (v * 10 + d) = d :: Nat.digits 10 v := by
    rw [Nat.add_comm, Nat.mul_comm]
    exact Nat.digits_add 10 (by decide) d v hd (Or.inr hv)
  unfold decimal
  rw [if_neg (by omega), if_neg hv, hdigits]
  simp

theorem length_decimal_le {v k : ℕ} (hk : 0 < k) (h : v < 10 ^ k) : (decimal v).length ≤ k := by
  unfold decimal
  split_ifs
  · exact hk
  · rw [List.length_map, List.length_reverse]
    exact (Nat.digits_length_le_iff (by decide) v).mpr h

/-- What stands behind an octet. -/
def Stops (rest : Bytes) : Prop := rest = [] ∨ ∃ more, rest = 46 :: more

theorem digit_toNat {c : UInt8} (h : 48 ≤ c ∧ c ≤ 57) :
    c.toNat - 48 < 10 ∧ UInt8.ofNat (48 + (c.toNat - 48)) = c := by
  have hlow := UInt8.le_iff_toNat_le.mp h.1
  have hhigh := UInt8.le_iff_toNat_le.mp h.2
  change 48 ≤ c.toNat at hlow
  change c.toNat ≤ 57 at hhigh
  refine ⟨by omega, ?_⟩
  rw [Nat.add_sub_cancel' hlow, UInt8.ofNat_toNat]

/-- The digits read so far are the decimal of their value. -/
def Spells (q : Bytes) (value digits : ℕ) : Prop :=
  digits = q.length ∧ ((q = [] ∧ value = 0) ∨ q = decimal value)

theorem ipv4Digits_spells {s : Bytes} {q : Bytes} {v n w m : ℕ} {rest : Bytes}
    (hq : Spells q v n) (h : ipv4Digits s v n = some (w, m, rest)) :
    ∃ p, s = p ++ rest ∧ Spells (q ++ p) w m ∧ Stops rest := by
  induction s generalizing q v n with
  | nil =>
    obtain ⟨rfl, hrest⟩ := Prod.mk.inj (Option.some.inj h)
    obtain ⟨rfl, rfl⟩ := Prod.mk.inj hrest
    exact ⟨[], rfl, by rwa [List.append_nil], Or.inl rfl⟩
  | cons c s ih =>
    rw [ipv4Digits] at h
    split_ifs at h with hdot hdigit hmany hzero
    · obtain ⟨rfl, hrest⟩ := Prod.mk.inj (Option.some.inj h)
      obtain ⟨rfl, rfl⟩ := Prod.mk.inj hrest
      exact ⟨[], rfl, by rwa [List.append_nil], Or.inr ⟨s, by rw [hdot]⟩⟩
    · obtain ⟨hsmall, hchar⟩ := digit_toNat hdigit
      have hnext : Spells (q ++ [c]) (v * 10 + (c.toNat - 48)) (n + 1) := by
        obtain ⟨hlength, hvalue⟩ := hq
        refine ⟨by rw [List.length_append, hlength]; rfl, Or.inr ?_⟩
        rcases hvalue with ⟨rfl, rfl⟩ | hdecimal
        · rw [Nat.zero_mul, Nat.zero_add, decimal_digit hsmall, hchar]
          rfl
        · have hv : v ≠ 0 := by
            rintro rfl
            refine hzero ⟨?_, rfl⟩
            rw [hlength, hdecimal]
            decide
          rw [decimal_snoc hv hsmall, hchar, ← hdecimal]
      obtain ⟨p, rfl, hspells, hstops⟩ := ih hnext h
      exact ⟨c :: p, rfl, by simpa using hspells, hstops⟩

theorem ipv4Digits_of_stops {rest : Bytes} (h : Stops rest) (v n : ℕ) :
    ipv4Digits rest v n = some (v, n, rest) := by
  rcases h with rfl | ⟨more, rfl⟩
  · rfl
  · rfl

theorem ipv4Digits_digit {v d n : ℕ} (hd : d < 10) (hn : n < 3) (hzero : n ≠ 0 → v ≠ 0)
    (rest : Bytes) : ipv4Digits (UInt8.ofNat (48 + d) :: rest) v n =
      ipv4Digits rest (v * 10 + d) (n + 1) := by
  have htoNat : (UInt8.ofNat (48 + d)).toNat = 48 + d := by
    rw [UInt8.toNat_ofNat']
    omega
  have hdot : UInt8.ofNat (48 + d) ≠ 46 := by
    intro h
    have := congrArg UInt8.toNat h
    rw [htoNat] at this
    change 48 + d = 46 at this
    omega
  have hdigit : 48 ≤ UInt8.ofNat (48 + d) ∧ UInt8.ofNat (48 + d) ≤ 57 := by
    rw [UInt8.le_iff_toNat_le, UInt8.le_iff_toNat_le, htoNat]
    change 48 ≤ 48 + d ∧ 48 + d ≤ 57
    omega
  rw [ipv4Digits, if_neg hdot, if_neg (not_not.mpr hdigit), if_neg (not_le.mpr hn),
    if_neg fun h => hzero h.1 h.2, htoNat, Nat.add_sub_cancel_left]

/-- The decimal of a number of at most three digits is read as that number. -/
theorem ipv4Digits_decimal {v : ℕ} (hv : v < 1000) (rest : Bytes) :
    ipv4Digits (decimal v ++ rest) 0 0 = ipv4Digits rest v (decimal v).length := by
  induction v using Nat.strong_induction_on generalizing rest with
  | _ v ih =>
    by_cases hsmall : v < 10
    · rw [decimal_digit hsmall, List.cons_append, List.nil_append,
        ipv4Digits_digit hsmall (by decide) (fun h => absurd rfl h), Nat.zero_mul, Nat.zero_add]
      rfl
    · have hquot : v / 10 ≠ 0 := by omega
      have hdigit : v % 10 < 10 := Nat.mod_lt _ (by decide)
      have hsnoc := decimal_snoc hquot hdigit
      rw [Nat.div_add_mod'] at hsnoc
      have hlength : (decimal (v / 10)).length < 3 :=
        Nat.lt_succ_of_le (length_decimal_le (by decide) (by omega))
      rw [hsnoc, List.append_assoc, List.singleton_append, ih (v / 10) (by omega) (by omega),
        ipv4Digits_digit hdigit hlength (fun _ => hquot), Nat.div_add_mod', List.length_append]
      rfl

theorem shiftLeft_octet (address : ℕ) (v : UInt8) :
    address <<< 8 ||| v.toNat = address * 256 + v.toNat := by
  rw [← Nat.shiftLeft_add_eq_or_of_lt (show v.toNat < 2 ^ 8 from v.toNat_lt), Nat.shiftLeft_eq]

/-- The octets behind each other, by value. -/
def assembled : ℕ → List UInt8 → ℕ
  | address, [] => address
  | address, v :: vs => assembled (address * 256 + v.toNat) vs

theorem assembled_cons (address : ℕ) (v : UInt8) (vs : List UInt8) :
    assembled address (v :: vs) = assembled (address * 256 + v.toNat) vs := rfl

theorem length_decimal_ne_zero (v : ℕ) : (decimal v).length ≠ 0 := by
  unfold decimal
  split_ifs with hzero
  · decide
  · simpa using Nat.digits_ne_nil_iff_ne_zero.mpr hzero

theorem ipv4Octets_dotted {left : ℕ} {address : ℕ} {vs : List UInt8} (h : vs.length = left + 1) :
    ipv4Octets left address (dotted vs) = some (assembled address vs) := by
  induction vs generalizing left address with
  | nil => cases h
  | cons v vs ih =>
    have hv := v.toNat_lt
    cases vs with
    | nil =>
      obtain rfl : left = 0 := (Nat.succ.inj h).symm
      have hdigits := ipv4Digits_decimal (v := v.toNat) (by omega) []
      rw [List.append_nil, ipv4Digits_of_stops (Or.inl rfl)] at hdigits
      rw [dotted, ipv4Octets, hdigits]
      dsimp only
      rw [if_neg (length_decimal_ne_zero _), if_neg (by omega), shiftLeft_octet, assembled,
        assembled]
    | cons v' vs =>
      obtain ⟨left, rfl⟩ : ∃ k, left = k + 1 := ⟨left - 1, by simp at h; omega⟩
      have hdigits := ipv4Digits_decimal (v := v.toNat) (by omega) (46 :: dotted (v' :: vs))
      rw [ipv4Digits_of_stops (Or.inr ⟨_, rfl⟩)] at hdigits
      have hrest : ipv4Octets left (address <<< 8 ||| v.toNat) (dotted (v' :: vs)) =
          some (assembled (address <<< 8 ||| v.toNat) (v' :: vs)) := ih (Nat.succ.inj h)
      have htext : dotted (v :: v' :: vs) = decimal v.toNat ++ 46 :: dotted (v' :: vs) := rfl
      rw [htext, ipv4Octets, hdigits]
      dsimp only
      rw [if_neg (length_decimal_ne_zero _), if_neg (by omega), if_neg (by decide), hrest,
        assembled_cons address, shiftLeft_octet]

/-- An octet that was read is one of the 256, in decimal. -/
theorem octet_of_ipv4Digits {s : Bytes} {w m : ℕ} {rest : Bytes}
    (h : ipv4Digits s 0 0 = some (w, m, rest)) (hm : m ≠ 0) (hw : ¬255 < w) :
    ∃ v : UInt8, s = decimal v.toNat ++ rest := by
  obtain ⟨p, hs, ⟨hlength, hp⟩, -⟩ := ipv4Digits_spells ⟨rfl, Or.inl ⟨rfl, rfl⟩⟩ h
  rw [List.nil_append] at hlength hp
  have hvalue : (UInt8.ofNat w).toNat = w := by
    rw [UInt8.toNat_ofNat']
    omega
  refine ⟨UInt8.ofNat w, ?_⟩
  rcases hp with ⟨rfl, -⟩ | hp
  · exact absurd hlength hm
  · rw [hvalue, hs, hp]

theorem dotted_of_ipv4Octets {left : ℕ} {address x : ℕ} {s : Bytes}
    (h : ipv4Octets left address s = some x) :
    ∃ vs : List UInt8, vs.length = left + 1 ∧ s = dotted vs := by
  induction left generalizing address s with
  | zero =>
    rw [ipv4Octets] at h
    split at h
    · cases h
    · rename_i w m rest hdigits
      split_ifs at h with hm hw
      obtain ⟨v, rfl⟩ := octet_of_ipv4Digits hdigits hm hw
      cases rest with
      | nil => exact ⟨[v], rfl, by rw [dotted, List.append_nil]⟩
      | cons c rest => cases h
  | succ left ih =>
    rw [ipv4Octets] at h
    split at h
    · cases h
    · rename_i w m rest hdigits
      split_ifs at h with hm hw
      obtain ⟨v, rfl⟩ := octet_of_ipv4Digits hdigits hm hw
      cases rest with
      | nil => cases h
      | cons c rest =>
        dsimp only at h
        split_ifs at h with hc
        obtain ⟨vs, hlength, rfl⟩ := ih h
        obtain rfl := not_not.mp hc
        cases vs with
        | nil => cases hlength
        | cons v' vs => exact ⟨v :: v' :: vs, congrArg Nat.succ hlength, rfl⟩

theorem networkOrder_assembled (a b c d : UInt8) :
    networkOrder (assembled 0 [a, b, c, d]) = [a, b, c, d] := by
  have ha := a.toNat_lt
  have hb := b.toNat_lt
  have hc := c.toNat_lt
  have hd := d.toNat_lt
  have hbyte : ∀ (x : UInt8) (n : ℕ), n % 256 = x.toNat → UInt8.ofNat n = x := by
    intro x n h
    apply UInt8.toNat_inj.mp
    rw [UInt8.toNat_ofNat', h]
  simp only [networkOrder, assembled, Nat.shiftRight_eq_div_pow, Nat.reducePow]
  rw [hbyte a _ (by omega), hbyte b _ (by omega), hbyte c _ (by omega), hbyte d _ (by omega)]

/-- An IPv4 address is read from exactly its dotted decimal. -/
theorem parseIpv4_iff (s out : Bytes) :
    parseIpv4 s = some out ↔ ∃ a b c d, out = [a, b, c, d] ∧ s = dotted [a, b, c, d] := by
  constructor
  · intro h
    obtain ⟨x, hx, rfl⟩ := Option.map_eq_some_iff.mp h
    obtain ⟨vs, hlength, rfl⟩ := dotted_of_ipv4Octets hx
    obtain ⟨a, b, c, d, rfl⟩ := List.length_eq_four.mp hlength
    rw [ipv4Octets_dotted hlength] at hx
    exact ⟨a, b, c, d, by rw [← Option.some.inj hx, networkOrder_assembled], rfl⟩
  · rintro ⟨a, b, c, d, rfl, rfl⟩
    rw [parseIpv4, ipv4Octets_dotted rfl, Option.map_some, networkOrder_assembled]

/-! ## Hexadecimal groups -/

/-- The value of a hexadecimal digit, its case folded. -/
def ipv6Nibble (c : UInt8) : Option ℕ :=
  if c - 48 ≤ 9 then some (c - 48).toNat
  else if 5 < (c ||| 0x20) - 97 then none
  else some (((c ||| 0x20) - 97).toNat + 10)

/-- `.hex`: the value and the number of the digits up to the next colon. -/
def ipv6Hex : Bytes → ℕ → ℕ → Option (ℕ × ℕ × Bytes)
  | [], value, digits => some (value, digits, [])
  | c :: rest, value, digits =>
    if c = 58 then some (value, digits, c :: rest)
    else
      match ipv6Nibble c with
      | none => none
      | some d => if 4 ≤ digits then none else ipv6Hex rest (value <<< 4 ||| d) (digits + 1)

/-- `.groups`: the staged groups and the index of the elision, with room for so
many more groups. -/
def ipv6Groups : ℕ → Bytes → List ℕ → Option ℕ → Option (List ℕ × Option ℕ)
  | _, [], groups, elision => some (groups, elision)
  | room, s@(_ :: _), groups, elision =>
    match ipv6Hex s 0 0 with
    | none => none
    | some (value, digits, rest) =>
      if digits = 0 then none
      else
        match room, rest with
        | 0, _ => none
        | _ + 1, [] => some (groups ++ [value], elision)
        -- a trailing single colon
        | _ + 1, [_] => none
        | room + 1, _ :: c :: rest =>
          if c ≠ 58 then ipv6Groups room (c :: rest) (groups ++ [value]) elision
          -- a second `::`
          else if elision.isSome then none
          else ipv6Groups room rest (groups ++ [value]) (some (groups.length + 1))

/-- The bytes of the groups in memory. -/
def ipv6Bytes (groups : List ℕ) : Bytes :=
  groups.flatMap fun v => [UInt8.ofNat (v >>> 8), UInt8.ofNat v]

/-- `.assemble`: the tail sits flush against the end of the address. -/
def ipv6Assemble : List ℕ × Option ℕ → Option Bytes
  | (groups, none) => if groups.length ≠ 8 then none else some (ipv6Bytes groups)
  | (groups, some head) =>
    if 8 ≤ groups.length then none
    else some (ipv6Bytes
      (groups.take head ++ (List.replicate (8 - groups.length) 0 ++ groups.drop head)))

/-- `af_http_parse_ipv6`. -/
def parseIpv6 (s : Bytes) : Option Bytes :=
  if 45 < s.length then none
  else
    match s with
    | c :: c' :: rest =>
      if c ≠ 58 then (ipv6Groups 8 (c :: c' :: rest) [] none).bind ipv6Assemble
      else if c' ≠ 58 then none
      else (ipv6Groups 8 rest [] (some 0)).bind ipv6Assemble
    | _ => none

/-! ## The text of an address -/

/-- A character that is a hexadecimal digit of this value. -/
def HexDigit (c : UInt8) (d : ℕ) : Prop :=
  d < 10 ∧ c.toNat = 48 + d ∨ 10 ≤ d ∧ d < 16 ∧ (c.toNat = 87 + d ∨ c.toNat = 55 + d)

/-- A number by its hexadecimal digits. -/
def hexValue (v : ℕ) (ds : List ℕ) : ℕ := ds.foldl (fun v d => v * 16 + d) v

/-- One to four hexadecimal digits. -/
def HexGroup (t : Bytes) (v : ℕ) : Prop :=
  t ≠ [] ∧ t.length ≤ 4 ∧ ∃ ds, List.Forall₂ HexDigit t ds ∧ v = hexValue 0 ds

/-- Groups, each separated from the next by a colon. -/
inductive Groups : Bytes → List ℕ → Prop
  | one {t v} : HexGroup t v → Groups t [v]
  | more {t v s vs} : HexGroup t v → Groups s vs → Groups (t ++ 58 :: s) (v :: vs)

/-- What stands on one side of an elision. -/
def Side (s : Bytes) (vs : List ℕ) : Prop := s = [] ∧ vs = [] ∨ Groups s vs

/-- The eight groups that a text denotes: all of them, or those around a `::` that
stands for at least one group of zeros. -/
inductive Ipv6Text : Bytes → List ℕ → Prop
  | full {s vs} : Groups s vs → vs.length = 8 → Ipv6Text s vs
  | elided {head tail hs ts} : Side head hs → Side tail ts → hs.length + ts.length < 8 →
      Ipv6Text (head ++ 58 :: 58 :: tail)
        (hs ++ (List.replicate (8 - (hs ++ ts).length) 0 ++ ts))

theorem nibble_eq : ∀ n < 256, ipv6Nibble (UInt8.ofNat n) =
    if 48 ≤ n ∧ n ≤ 57 then some (n - 48)
    else if 97 ≤ n ∧ n ≤ 102 then some (n - 87)
    else if 65 ≤ n ∧ n ≤ 70 then some (n - 55)
    else none := by
  decide +kernel

theorem nibble_iff (c : UInt8) (d : ℕ) : ipv6Nibble c = some d ↔ HexDigit c d := by
  have hc := nibble_eq c.toNat c.toNat_lt
  rw [UInt8.ofNat_toNat] at hc
  rw [hc]
  unfold HexDigit
  split_ifs
  · rw [Option.some.injEq]
    omega
  · rw [Option.some.injEq]
    omega
  · rw [Option.some.injEq]
    omega
  · refine iff_of_false (by simp) ?_
    omega

theorem hexDigit_lt {c : UInt8} {d : ℕ} (h : HexDigit c d) : d < 16 := by
  rcases h with h | h
  · omega
  · exact h.2.1

theorem hexDigit_ne_colon {c : UInt8} {d : ℕ} (h : HexDigit c d) : c ≠ 58 := by
  rintro rfl
  have hcolon : (58 : UInt8).toNat = 58 := rfl
  unfold HexDigit at h
  omega

theorem shiftLeft_nibble {v d : ℕ} (h : d < 16) : v <<< 4 ||| d = v * 16 + d := by
  rw [← Nat.shiftLeft_add_eq_or_of_lt (show d < 2 ^ 4 from h), Nat.shiftLeft_eq]

/-- What stands behind a group. -/
def Ends (rest : Bytes) : Prop := rest = [] ∨ ∃ more, rest = 58 :: more

theorem ipv6Hex_of_ends {rest : Bytes} (h : Ends rest) (v n : ℕ) :
    ipv6Hex rest v n = some (v, n, rest) := by
  rcases h with rfl | ⟨more, rfl⟩
  · rfl
  · rfl

theorem ipv6Hex_digits {t : Bytes} {ds : List ℕ} (h : List.Forall₂ HexDigit t ds) {rest : Bytes}
    (hrest : Ends rest) {v n : ℕ} (hn : n + t.length ≤ 4) :
    ipv6Hex (t ++ rest) v n = some (hexValue v ds, n + t.length, rest) := by
  induction h generalizing v n with
  | nil => exact ipv6Hex_of_ends hrest v n
  | @cons c d t ds hd _ ih =>
    rw [List.length_cons] at hn
    rw [List.cons_append, ipv6Hex, if_neg (hexDigit_ne_colon hd), (nibble_iff c d).mpr hd]
    dsimp only
    rw [if_neg (by omega), ih (by omega), shiftLeft_nibble (hexDigit_lt hd), List.length_cons,
      Nat.add_right_comm, Nat.add_assoc]
    rfl

theorem digits_of_ipv6Hex {s : Bytes} {v n w m : ℕ} {rest : Bytes}
    (h : ipv6Hex s v n = some (w, m, rest)) (hn : n ≤ 4) :
    ∃ t ds, s = t ++ rest ∧ List.Forall₂ HexDigit t ds ∧ w = hexValue v ds ∧
      m = n + t.length ∧ m ≤ 4 ∧ Ends rest := by
  induction s generalizing v n with
  | nil =>
    obtain ⟨rfl, hrest⟩ := Prod.mk.inj (Option.some.inj h)
    obtain ⟨rfl, rfl⟩ := Prod.mk.inj hrest
    exact ⟨[], [], rfl, List.Forall₂.nil, rfl, rfl, hn, Or.inl rfl⟩
  | cons c s ih =>
    rw [ipv6Hex] at h
    by_cases hcolon : c = 58
    · rw [if_pos hcolon] at h
      obtain ⟨rfl, hrest⟩ := Prod.mk.inj (Option.some.inj h)
      obtain ⟨rfl, rfl⟩ := Prod.mk.inj hrest
      exact ⟨[], [], rfl, List.Forall₂.nil, rfl, rfl, hn, Or.inr ⟨s, by rw [hcolon]⟩⟩
    · rw [if_neg hcolon] at h
      cases hnibble : ipv6Nibble c with
      | none =>
        rw [hnibble] at h
        cases h
      | some d =>
        rw [hnibble] at h
        dsimp only at h
        split_ifs at h with hmany
        have hd := (nibble_iff c d).mp hnibble
        obtain ⟨t, ds, rfl, hdigits, rfl, rfl, hfour, hends⟩ := ih h (by omega)
        refine ⟨c :: t, d :: ds, rfl, List.Forall₂.cons hd hdigits, ?_, ?_, hfour, hends⟩
        · rw [shiftLeft_nibble (hexDigit_lt hd)]
          rfl
        · rw [List.length_cons, Nat.add_right_comm, Nat.add_assoc]

/-- One group, and what may follow it. -/
theorem ipv6Groups_iff {room : ℕ} {s : Bytes} {groups : List ℕ} {elision : Option ℕ}
    {r : List ℕ × Option ℕ} (hs : s ≠ []) :
    ipv6Groups room s groups elision = some r ↔
      ∃ t v left, room = left + 1 ∧ HexGroup t v ∧
        (s = t ∧ r = (groups ++ [v], elision) ∨
        (∃ c rest, c ≠ 58 ∧ s = t ++ 58 :: c :: rest ∧
          ipv6Groups left (c :: rest) (groups ++ [v]) elision = some r) ∨
        ∃ rest, elision = none ∧ s = t ++ 58 :: 58 :: rest ∧
          ipv6Groups left rest (groups ++ [v]) (some (groups.length + 1)) = some r) := by
  obtain ⟨b, s, rfl⟩ := List.exists_cons_of_ne_nil hs
  constructor
  · intro h
    rw [ipv6Groups] at h
    split at h
    · cases h
    · rename_i w m rest hhex
      obtain ⟨t, ds, ht, hdigits, rfl, rfl, hfour, hends⟩ := digits_of_ipv6Hex hhex (by decide)
      rw [Nat.zero_add] at h hfour
      by_cases hempty : t.length = 0
      · rw [if_pos hempty] at h
        cases h
      rw [if_neg hempty] at h
      have hgroup : HexGroup t (hexValue 0 ds) :=
        ⟨fun h => hempty (congrArg List.length h), hfour, ds, hdigits, rfl⟩
      cases room with
      | zero => cases h
      | succ left =>
        refine ⟨t, hexValue 0 ds, left, rfl, hgroup, ?_⟩
        rcases hends with rfl | ⟨more, rfl⟩
        · rw [List.append_nil] at ht
          exact Or.inl ⟨ht, (Option.some.inj h).symm⟩
        · cases more with
          | nil => cases h
          | cons c more =>
            dsimp only at h
            by_cases hc : c = 58
            · subst hc
              rw [if_neg (not_not.mpr rfl)] at h
              cases elision with
              | none => exact Or.inr (Or.inr ⟨more, rfl, ht, h⟩)
              | some k => cases h
            · rw [if_pos hc] at h
              exact Or.inr (Or.inl ⟨c, more, hc, ht, h⟩)
  · rintro ⟨t, v, left, rfl, ⟨ht, hfour, ds, hdigits, rfl⟩, h⟩
    have hempty : 0 + t.length ≠ 0 := by
      rw [Nat.zero_add]
      exact fun h => ht (List.length_eq_zero_iff.mp h)
    have hhex : ∀ rest, Ends rest → ipv6Hex (t ++ rest) 0 0 =
        some (hexValue 0 ds, 0 + t.length, rest) :=
      fun rest hrest => ipv6Hex_digits hdigits hrest (by omega)
    rw [ipv6Groups]
    rcases h with ⟨hst, rfl⟩ | ⟨c, rest, hc, hst, h⟩ | ⟨rest, rfl, hst, h⟩
    · have hlast := hhex [] (Or.inl rfl)
      rw [List.append_nil] at hlast
      rw [hst, hlast]
      dsimp only
      rw [if_neg hempty]
    · rw [hst, hhex _ (Or.inr ⟨_, rfl⟩)]
      dsimp only
      rw [if_neg hempty, if_pos hc, h]
    · rw [hst, hhex _ (Or.inr ⟨_, rfl⟩)]
      dsimp only
      rw [if_neg hempty, if_neg (by decide), if_neg (by decide), h]

theorem Groups.ne_nil {s : Bytes} {vs : List ℕ} (h : Groups s vs) :
    ∃ c rest, s = c :: rest ∧ c ≠ 58 := by
  have hfirst : ∀ {t : Bytes} {v : ℕ} (rest : Bytes), HexGroup t v →
      ∃ c more, t ++ rest = c :: more ∧ c ≠ 58 := by
    rintro t v rest ⟨ht, -, ds, hdigits, -⟩
    cases hdigits with
    | nil => exact absurd rfl ht
    | cons hd _ => exact ⟨_, _, rfl, hexDigit_ne_colon hd⟩
  cases h with
  | one hg =>
    have hnil := hfirst [] hg
    rwa [List.append_nil] at hnil
  | more hg _ => exact hfirst _ hg

theorem Side.groups {s : Bytes} {vs : List ℕ} (h : Side s vs) (hs : s ≠ []) : Groups s vs := by
  rcases h with ⟨rfl, -⟩ | h
  · exact absurd rfl hs
  · exact h

theorem Side.nil {vs : List ℕ} (h : Side [] vs) : vs = [] := by
  rcases h with ⟨-, h⟩ | h
  · exact h
  · obtain ⟨c, rest, hnil, -⟩ := h.ne_nil
    cases hnil

/-- Behind an elision there are only groups. -/
theorem ipv6Groups_elided {room : ℕ} {s : Bytes} {groups : List ℕ} {k : ℕ}
    {r : List ℕ × Option ℕ} :
    ipv6Groups room s groups (some k) = some r ↔
      ∃ vs, Side s vs ∧ vs.length ≤ room ∧ r = (groups ++ vs, some k) := by
  induction room using Nat.strong_induction_on generalizing s groups with
  | _ room ih =>
    by_cases hs : s = []
    · subst hs
      constructor
      · intro h
        rw [ipv6Groups] at h
        exact ⟨[], Or.inl ⟨rfl, rfl⟩, Nat.zero_le _, by rw [List.append_nil, Option.some.inj h]⟩
      · rintro ⟨vs, hside, -, rfl⟩
        obtain rfl : vs = [] := hside.nil
        rw [ipv6Groups, List.append_nil]
    · rw [ipv6Groups_iff hs]
      constructor
      · rintro ⟨t, v, left, rfl, hgroup, h⟩
        rcases h with ⟨rfl, rfl⟩ | ⟨c, rest, hc, rfl, h⟩ | ⟨rest, helision, -, -⟩
        · exact ⟨[v], Or.inr (Groups.one hgroup), Nat.succ_le_succ (Nat.zero_le _), rfl⟩
        · obtain ⟨vs, hside, hlength, rfl⟩ := (ih left (Nat.lt_succ_self left)).mp h
          have hgroups := hside.groups (List.cons_ne_nil c rest)
          exact ⟨v :: vs, Or.inr (Groups.more hgroup hgroups), Nat.succ_le_succ hlength,
            by rw [List.append_assoc, List.singleton_append]⟩
        · cases helision
      · rintro ⟨vs, hside, hlength, rfl⟩
        cases hside.groups hs with
        | @one _ v hgroup =>
          obtain ⟨left, rfl⟩ := Nat.exists_eq_succ_of_ne_zero (Nat.one_le_iff_ne_zero.mp hlength)
          exact ⟨s, v, left, rfl, hgroup, Or.inl ⟨rfl, rfl⟩⟩
        | @more t v s vs hgroup hgroups =>
          obtain ⟨left, rfl⟩ : ∃ left, room = left + 1 := ⟨room - 1, by simp at hlength; omega⟩
          obtain ⟨c, rest, rfl, hc⟩ := hgroups.ne_nil
          refine ⟨t, v, left, rfl, hgroup, Or.inr (Or.inl ⟨c, rest, hc, rfl, ?_⟩)⟩
          refine (ih left (Nat.lt_succ_self left)).mpr ⟨vs, Or.inr hgroups, ?_, ?_⟩
          · exact Nat.le_of_succ_le_succ hlength
          · rw [List.append_assoc, List.singleton_append]

/-- Before an elision there may be one. -/
theorem ipv6Groups_none {room : ℕ} {s : Bytes} {groups : List ℕ} {r : List ℕ × Option ℕ}
    (hs : s ≠ []) :
    ipv6Groups room s groups none = some r ↔
      (∃ vs, Groups s vs ∧ vs.length ≤ room ∧ r = (groups ++ vs, none)) ∨
      ∃ head tail hs ts, Groups head hs ∧ Side tail ts ∧ s = head ++ 58 :: 58 :: tail ∧
        hs.length + ts.length ≤ room ∧
        r = (groups ++ (hs ++ ts), some (groups.length + hs.length)) := by
  induction room using Nat.strong_induction_on generalizing s groups with
  | _ room ih =>
    rw [ipv6Groups_iff hs]
    constructor
    · rintro ⟨t, v, left, rfl, hgroup, h⟩
      have hleft := Nat.lt_succ_self left
      rcases h with ⟨rfl, rfl⟩ | ⟨c, rest, hc, rfl, h⟩ | ⟨rest, -, rfl, h⟩
      · exact Or.inl ⟨[v], Groups.one hgroup, Nat.succ_le_succ (Nat.zero_le _), rfl⟩
      · rcases (ih left hleft (List.cons_ne_nil c rest)).mp h with
          ⟨vs, hgroups, hlength, rfl⟩ | ⟨head, tail, hs', ts, hhead, htail, hrest, hlength, rfl⟩
        · refine Or.inl ⟨v :: vs, Groups.more hgroup hgroups, Nat.succ_le_succ hlength, ?_⟩
          rw [List.append_assoc, List.singleton_append]
        · refine Or.inr ⟨t ++ 58 :: head, tail, v :: hs', ts, Groups.more hgroup hhead, htail,
            ?_, ?_, ?_⟩
          · rw [hrest, List.append_assoc, List.cons_append]
          · rw [List.length_cons]
            omega
          · rw [List.append_assoc, List.length_append, Nat.add_assoc, Nat.add_comm _ hs'.length]
            rfl
      · obtain ⟨ts, hside, hlength, rfl⟩ := ipv6Groups_elided.mp h
        refine Or.inr ⟨t, rest, [v], ts, Groups.one hgroup, hside, rfl, ?_, ?_⟩
        · rw [List.length_singleton]
          omega
        · rw [List.append_assoc]
          rfl
    · rintro (⟨vs, hgroups, hlength, rfl⟩ |
        ⟨head, tail, hs', ts, hhead, htail, rfl, hlength, rfl⟩)
      · cases hgroups with
        | @one _ v hgroup =>
          obtain ⟨left, rfl⟩ := Nat.exists_eq_succ_of_ne_zero (Nat.one_le_iff_ne_zero.mp hlength)
          exact ⟨s, v, left, rfl, hgroup, Or.inl ⟨rfl, rfl⟩⟩
        | @more t v s vs hgroup hgroups =>
          obtain ⟨left, rfl⟩ : ∃ left, room = left + 1 := ⟨room - 1, by simp at hlength; omega⟩
          obtain ⟨c, rest, rfl, hc⟩ := hgroups.ne_nil
          refine ⟨t, v, left, rfl, hgroup, Or.inr (Or.inl ⟨c, rest, hc, rfl, ?_⟩)⟩
          refine (ih left (Nat.lt_succ_self left) (List.cons_ne_nil c rest)).mpr
            (Or.inl ⟨vs, hgroups, Nat.le_of_succ_le_succ hlength, ?_⟩)
          rw [List.append_assoc, List.singleton_append]
      · cases hhead with
        | @one _ v hgroup =>
          obtain ⟨left, rfl⟩ : ∃ left, room = left + 1 := ⟨room - 1, by simp at hlength; omega⟩
          refine ⟨head, v, left, rfl, hgroup, Or.inr (Or.inr ⟨tail, rfl, rfl, ?_⟩)⟩
          refine ipv6Groups_elided.mpr ⟨ts, htail, ?_, ?_⟩
          · rw [List.length_singleton] at hlength
            omega
          · rw [List.append_assoc]
            rfl
        | @more t v s vs hgroup hgroups =>
          rw [List.length_cons] at hlength
          obtain ⟨left, rfl⟩ : ∃ left, room = left + 1 := ⟨room - 1, by omega⟩
          obtain ⟨c, rest, rfl, hc⟩ := hgroups.ne_nil
          refine ⟨t, v, left, rfl, hgroup,
            Or.inr (Or.inl ⟨c, rest ++ 58 :: 58 :: tail, hc, ?_, ?_⟩)⟩
          · rw [List.append_assoc]
            rfl
          · refine (ih left (Nat.lt_succ_self left) (List.cons_ne_nil c _)).mpr
              (Or.inr ⟨c :: rest, tail, vs, ts, hgroups, htail, rfl, by omega, ?_⟩)
            rw [List.append_assoc, List.length_append, Nat.add_assoc, Nat.add_comm _ vs.length]
            rfl

theorem HexGroup.length {t : Bytes} {v : ℕ} (h : HexGroup t v) : t.length ≤ 4 := h.2.1

theorem Groups.length {s : Bytes} {vs : List ℕ} (h : Groups s vs) :
    s.length + 1 ≤ 5 * vs.length := by
  induction h with
  | one hgroup =>
    have := hgroup.length
    rw [List.length_singleton]
    omega
  | more hgroup _ ih =>
    have := hgroup.length
    rw [List.length_append, List.length_cons, List.length_cons]
    omega

theorem Side.length {s : Bytes} {vs : List ℕ} (h : Side s vs) : s.length ≤ 5 * vs.length := by
  rcases h with ⟨rfl, -⟩ | h
  · exact Nat.zero_le _
  · have := h.length
    omega

/-- No address is longer than what is read. -/
theorem Ipv6Text.length {s : Bytes} {vs : List ℕ} (h : Ipv6Text s vs) : s.length ≤ 45 := by
  cases h with
  | full hgroups height =>
    have := hgroups.length
    omega
  | elided hhead htail hroom =>
    have := hhead.length
    have := htail.length
    rw [List.length_append, List.length_cons, List.length_cons]
    omega

theorem ipv6Assemble_elided (hs ts : List ℕ) {out : Bytes} :
    ipv6Assemble (hs ++ ts, some hs.length) = some out ↔
      hs.length + ts.length < 8 ∧
        out = ipv6Bytes (hs ++ (List.replicate (8 - (hs ++ ts).length) 0 ++ ts)) := by
  rw [ipv6Assemble, List.take_left, List.drop_left]
  by_cases hroom : 8 ≤ (hs ++ ts).length
  · rw [if_pos hroom]
    rw [List.length_append] at hroom
    exact ⟨fun h => absurd h (Option.some_ne_none out).symm,
      fun h => absurd h.1 (not_lt.mpr hroom)⟩
  · rw [if_neg hroom]
    rw [List.length_append] at hroom
    exact ⟨fun h => ⟨not_le.mp hroom, (Option.some.inj h).symm⟩, fun h => by rw [h.2]⟩

/-- A text that does not open with a colon. -/
theorem bind_groups {s out : Bytes} (hs : s ≠ []) :
    (ipv6Groups 8 s [] none).bind ipv6Assemble = some out ↔
      (∃ vs, Groups s vs ∧ vs.length = 8 ∧ out = ipv6Bytes vs) ∨
      ∃ head tail hs ts, Groups head hs ∧ Side tail ts ∧ s = head ++ 58 :: 58 :: tail ∧
        hs.length + ts.length < 8 ∧
        out = ipv6Bytes (hs ++ (List.replicate (8 - (hs ++ ts).length) 0 ++ ts)) := by
  rw [Option.bind_eq_some_iff]
  constructor
  · rintro ⟨r, hr, hout⟩
    rcases (ipv6Groups_none hs).mp hr with
      ⟨vs, hgroups, -, rfl⟩ | ⟨head, tail, hs', ts, hhead, htail, hst, -, rfl⟩
    · rw [List.nil_append, ipv6Assemble] at hout
      split_ifs at hout with height
      exact Or.inl ⟨vs, hgroups, not_not.mp height, (Option.some.inj hout).symm⟩
    · rw [List.nil_append, List.length_nil, Nat.zero_add] at hout
      obtain ⟨hroom, hbytes⟩ := (ipv6Assemble_elided hs' ts).mp hout
      exact Or.inr ⟨head, tail, hs', ts, hhead, htail, hst, hroom, hbytes⟩
  · rintro (⟨vs, hgroups, height, rfl⟩ |
      ⟨head, tail, hs', ts, hhead, htail, hst, hroom, rfl⟩)
    · refine ⟨(vs, none), (ipv6Groups_none hs).mpr (Or.inl ⟨vs, hgroups, height.le, rfl⟩), ?_⟩
      rw [ipv6Assemble, if_neg (not_not.mpr height)]
    · refine ⟨(hs' ++ ts, some hs'.length), (ipv6Groups_none hs).mpr (Or.inr
        ⟨head, tail, hs', ts, hhead, htail, hst, hroom.le, ?_⟩), ?_⟩
      · rw [List.nil_append, List.length_nil, Nat.zero_add]
      · exact (ipv6Assemble_elided hs' ts).mpr ⟨hroom, rfl⟩

theorem Groups.two_le {s : Bytes} {vs : List ℕ} (h : Groups s vs) :
    2 * vs.length ≤ s.length + 1 := by
  have hpos : ∀ {t : Bytes} {v : ℕ}, HexGroup t v → 0 < t.length :=
    fun h => List.length_pos_iff.mpr h.1
  induction h with
  | one hgroup =>
    have := hpos hgroup
    rw [List.length_singleton]
    omega
  | more hgroup _ ih =>
    have := hpos hgroup
    rw [List.length_append, List.length_cons, List.length_cons]
    omega

theorem parseIpv6_cons (c c' : UInt8) (rest : Bytes) (hlong : (c :: c' :: rest).length ≤ 45) :
    parseIpv6 (c :: c' :: rest) =
      if c ≠ 58 then (ipv6Groups 8 (c :: c' :: rest) [] none).bind ipv6Assemble
      else if c' ≠ 58 then none
      else (ipv6Groups 8 rest [] (some 0)).bind ipv6Assemble := by
  unfold parseIpv6
  exact if_neg (not_lt.mpr hlong)

theorem parseIpv6_long {s out : Bytes} (h : parseIpv6 s = some out) :
    ∃ c c' rest, s = c :: c' :: rest ∧ s.length ≤ 45 := by
  unfold parseIpv6 at h
  by_cases hlong : 45 < s.length
  · rw [if_pos hlong] at h
    cases h
  · rw [if_neg hlong] at h
    match s, h with
    | c :: c' :: rest, _ => exact ⟨c, c', rest, rfl, not_lt.mp hlong⟩

theorem parseIpv6_groups {c : UInt8} {rest : Bytes} (hc : c ≠ 58) (hrest : rest ≠ [])
    (hlong : (c :: rest).length ≤ 45) :
    parseIpv6 (c :: rest) = (ipv6Groups 8 (c :: rest) [] none).bind ipv6Assemble := by
  obtain ⟨c', rest, rfl⟩ := List.exists_cons_of_ne_nil hrest
  rw [parseIpv6_cons c c' rest hlong, if_pos hc]

/-- An IPv6 address is read from exactly its texts. -/
theorem parseIpv6_iff (s out : Bytes) :
    parseIpv6 s = some out ↔ ∃ vs, Ipv6Text s vs ∧ out = ipv6Bytes vs := by
  constructor
  · intro h
    obtain ⟨c, c', rest, rfl, hlong⟩ := parseIpv6_long h
    rw [parseIpv6_cons c c' rest hlong] at h
    by_cases hc : c = 58
    · subst hc
      rw [if_neg (not_not.mpr rfl)] at h
      by_cases hc' : c' = 58
      · subst hc'
        rw [if_neg (not_not.mpr rfl)] at h
        obtain ⟨r, hr, hout⟩ := Option.bind_eq_some_iff.mp h
        obtain ⟨ts, htail, -, rfl⟩ := ipv6Groups_elided.mp hr
        obtain ⟨hroom, rfl⟩ := (ipv6Assemble_elided [] ts).mp hout
        exact ⟨_, Ipv6Text.elided (Or.inl ⟨rfl, rfl⟩) htail hroom, rfl⟩
      · rw [if_pos hc'] at h
        cases h
    · rw [if_pos hc] at h
      rcases (bind_groups (List.cons_ne_nil _ _)).mp h with
        ⟨vs, hgroups, height, rfl⟩ | ⟨head, tail, hs, ts, hhead, htail, hst, hroom, rfl⟩
      · exact ⟨vs, Ipv6Text.full hgroups height, rfl⟩
      · rw [hst]
        exact ⟨_, Ipv6Text.elided (Or.inr hhead) htail hroom, rfl⟩
  · rintro ⟨vs, htext, rfl⟩
    have hlong := htext.length
    cases htext with
    | full hgroups height =>
      have htwo := hgroups.two_le
      obtain ⟨c, rest, rfl, hc⟩ := hgroups.ne_nil
      have hrest : rest ≠ [] := by
        rintro rfl
        rw [height, List.length_singleton] at htwo
        omega
      rw [parseIpv6_groups hc hrest hlong]
      exact (bind_groups (List.cons_ne_nil _ _)).mpr (Or.inl ⟨vs, hgroups, height, rfl⟩)
    | @elided head tail hs ts hhead htail hroom =>
      rcases hhead with ⟨rfl, rfl⟩ | hhead
      · have hgroups : ipv6Groups 8 tail [] (some 0) = some ([] ++ ts, some 0) :=
          ipv6Groups_elided.mpr ⟨ts, htail, le_trans (Nat.le_add_left _ _) hroom.le, rfl⟩
        rw [List.nil_append, parseIpv6_cons 58 58 tail hlong, if_neg (by decide),
          if_neg (by decide), hgroups]
        exact (ipv6Assemble_elided [] ts).mpr ⟨hroom, rfl⟩
      · have hall := (bind_groups (s := head ++ 58 :: 58 :: tail) (by simp)).mpr
          (Or.inr ⟨head, tail, hs, ts, hhead, htail, rfl, hroom, rfl⟩)
        obtain ⟨c, rest, rfl, hc⟩ := hhead.ne_nil
        rw [List.cons_append] at hlong hall ⊢
        rw [parseIpv6_groups hc (by simp) hlong]
        exact hall

/-! ## Canonical texts -/

/-- A lowercase hexadecimal digit. -/
def hexChar (d : ℕ) : UInt8 := if d < 10 then UInt8.ofNat (48 + d) else UInt8.ofNat (87 + d)

/-- A group without superfluous zeros. -/
def hexGroup (v : ℕ) : Bytes :=
  if v = 0 then [48] else (Nat.digits 16 v).reverse.map hexChar

/-- Groups with colons between them. -/
def colonText : List ℕ → Bytes
  | [] => []
  | [v] => hexGroup v
  | v :: v' :: vs => hexGroup v ++ 58 :: colonText (v' :: vs)

/-- How many groups of zeros there are in front. -/
def zeroRun : List ℕ → ℕ
  | [] => 0
  | v :: vs => if v = 0 then zeroRun vs + 1 else 0

/-- The first of the longest runs of at least two groups of zeros: its start and its
length, which is one if there is no such run. -/
def longestRun (vs : List ℕ) : ℕ × ℕ :=
  (List.range vs.length).foldl
    (fun best i => if best.2 < zeroRun (vs.drop i) then (i, zeroRun (vs.drop i)) else best) (0, 1)

/-- The groups of an address. -/
def ipv6GroupsOf : Bytes → List ℕ
  | a :: b :: rest => (a.toNat * 256 + b.toNat) :: ipv6GroupsOf rest
  | _ => []

/-- The recommended text of an address: lowercase, no superfluous zeros, and the
longest run of groups of zeros shortened to `::`. -/
def canonicalIpv6 (address : Bytes) : Bytes :=
  let vs := ipv6GroupsOf address
  let run := longestRun vs
  if run.2 < 2 then colonText vs
  else colonText (vs.take run.1) ++ 58 :: 58 :: colonText (vs.drop (run.1 + run.2))

theorem hexDigit_hexChar {d : ℕ} (h : d < 16) : HexDigit (hexChar d) d := by
  unfold hexChar HexDigit
  split_ifs with hten
  · rw [UInt8.toNat_ofNat']
    omega
  · rw [UInt8.toNat_ofNat']
    omega

theorem hexGroup_group {v : ℕ} (h : v < 65536) : HexGroup (hexGroup v) v := by
  unfold hexGroup
  split_ifs with hzero
  · subst hzero
    exact ⟨List.cons_ne_nil _ _, by decide, [0], List.Forall₂.cons (Or.inl ⟨by decide, rfl⟩)
      List.Forall₂.nil, rfl⟩
  · refine ⟨?_, ?_, (Nat.digits 16 v).reverse, ?_, ?_⟩
    · simpa using Nat.digits_ne_nil_iff_ne_zero.mpr hzero
    · rw [List.length_map, List.length_reverse]
      exact (Nat.digits_length_le_iff (by decide) v).mpr h
    · rw [List.forall₂_map_left_iff, List.forall₂_same]
      intro d hd
      exact hexDigit_hexChar (Nat.digits_lt_base (by decide) (List.mem_reverse.mp hd))
    · have hvalue := Nat.ofDigits_digits 16 v
      rw [Nat.ofDigits_eq_foldr] at hvalue
      rw [hexValue, List.foldl_reverse]
      simpa [Nat.mul_comm, Nat.add_comm] using hvalue.symm

theorem side_colonText {vs : List ℕ} (h : ∀ v ∈ vs, v < 65536) : Side (colonText vs) vs := by
  induction vs with
  | nil => exact Or.inl ⟨rfl, rfl⟩
  | cons v vs ih =>
    have hgroup := hexGroup_group (h v List.mem_cons_self)
    cases vs with
    | nil => exact Or.inr (Groups.one hgroup)
    | cons v' vs =>
      rcases ih fun w hw => h w (List.mem_cons_of_mem _ hw) with ⟨-, hnil⟩ | hgroups
      · cases hnil
      · exact Or.inr (Groups.more hgroup hgroups)

theorem zeroRun_split (vs : List ℕ) :
    List.replicate (zeroRun vs) 0 ++ vs.drop (zeroRun vs) = vs := by
  induction vs with
  | nil => rfl
  | cons v vs ih =>
    unfold zeroRun
    split_ifs with hzero
    · rw [List.replicate_succ, List.drop_succ_cons, List.cons_append, ih, hzero]
    · rfl

theorem longestRun_run (vs : List ℕ) :
    (longestRun vs).2 < 2 ∨ (longestRun vs).2 = zeroRun (vs.drop (longestRun vs).1) := by
  refine List.foldlRecOn (motive := fun best : ℕ × ℕ =>
      best.2 < 2 ∨ best.2 = zeroRun (vs.drop best.1))
    (List.range vs.length) _ (Or.inl (by decide)) ?_
  intro best hbest i _
  split_ifs
  · exact Or.inr rfl
  · exact hbest

/-- The run that is shortened is one of zeros. -/
theorem longestRun_split {vs : List ℕ} (h : ¬(longestRun vs).2 < 2) :
    vs.take (longestRun vs).1 ++ (List.replicate (longestRun vs).2 0 ++
      vs.drop ((longestRun vs).1 + (longestRun vs).2)) = vs := by
  have hrun := (longestRun_run vs).resolve_left h
  have hsplit := zeroRun_split (vs.drop (longestRun vs).1)
  rw [← hrun, List.drop_drop] at hsplit
  rw [hsplit, List.take_append_drop]

theorem ipv6Text_canonical {vs : List ℕ} (hlength : vs.length = 8) (h : ∀ v ∈ vs, v < 65536) :
    Ipv6Text (if (longestRun vs).2 < 2 then colonText vs
      else colonText (vs.take (longestRun vs).1) ++ 58 :: 58 ::
        colonText (vs.drop ((longestRun vs).1 + (longestRun vs).2))) vs := by
  split_ifs with hrun
  · rcases side_colonText h with ⟨-, hnil⟩ | hgroups
    · rw [hnil] at hlength
      cases hlength
    · exact Ipv6Text.full hgroups hlength
  · have hsplit := longestRun_split hrun
    have hhead := side_colonText fun v hv => h v (List.mem_of_mem_take (i := (longestRun vs).1) hv)
    have htail := side_colonText fun v hv =>
      h v (List.mem_of_mem_drop (i := (longestRun vs).1 + (longestRun vs).2) hv)
    have hall := congrArg List.length hsplit
    rw [List.length_append, List.length_append, List.length_replicate, hlength] at hall
    have htext := Ipv6Text.elided hhead htail (by omega)
    rw [List.length_append, show 8 - ((vs.take (longestRun vs).1).length +
      (vs.drop ((longestRun vs).1 + (longestRun vs).2)).length) = (longestRun vs).2 by omega,
      hsplit] at htext
    exact htext

theorem ipv6GroupsOf_lt : ∀ address : Bytes, ∀ v ∈ ipv6GroupsOf address, v < 65536
  | [], v, hv => absurd hv List.not_mem_nil
  | [_], v, hv => absurd hv List.not_mem_nil
  | a :: b :: rest, v, hv => by
    have ha := a.toNat_lt
    have hb := b.toNat_lt
    rcases List.mem_cons.mp hv with rfl | hv
    · omega
    · exact ipv6GroupsOf_lt rest v hv

theorem ipv6Bytes_groupsOf {n : ℕ} {address : Bytes} (h : address.length = 2 * n) :
    (ipv6GroupsOf address).length = n ∧ ipv6Bytes (ipv6GroupsOf address) = address := by
  induction n generalizing address with
  | zero =>
    rw [List.length_eq_zero_iff.mp h]
    exact ⟨rfl, rfl⟩
  | succ n ih =>
    match address, h with
    | a :: b :: rest, h =>
      have hrest : rest.length = 2 * n := by
        rw [List.length_cons, List.length_cons] at h
        omega
      obtain ⟨hlength, hbytes⟩ := ih hrest
      have ha := a.toNat_lt
      have hb := b.toNat_lt
      have hhigh : UInt8.ofNat ((a.toNat * 256 + b.toNat) >>> 8) = a := by
        apply UInt8.toNat_inj.mp
        rw [UInt8.toNat_ofNat', Nat.shiftRight_eq_div_pow]
        omega
      have hlow : UInt8.ofNat (a.toNat * 256 + b.toNat) = b := by
        apply UInt8.toNat_inj.mp
        rw [UInt8.toNat_ofNat']
        omega
      refine ⟨congrArg Nat.succ hlength, ?_⟩
      change _ :: _ :: ipv6Bytes (ipv6GroupsOf rest) = _
      rw [hbytes, hhigh, hlow]

/-- Loopback and an address with two runs of zeros. -/
example : canonicalIpv6 (List.replicate 15 0 ++ [1]) = [58, 58, 49] ∧
    canonicalIpv6 [32, 1, 13, 184, 0, 0, 0, 0, 0, 1, 0, 0, 0, 0, 0, 1] =
      ascii "2001:db8::1:0:0:1" := by
  decide

/-- Addresses are read from exactly their texts, and the canonical text of an address
is read as that address. -/
theorem address_parsing_exact :
    (∀ s out, parseIpv4 s = some out ↔ ∃ a b c d, out = [a, b, c, d] ∧ s = dotted [a, b, c, d]) ∧
    (∀ s out, parseIpv6 s = some out ↔ ∃ vs, Ipv6Text s vs ∧ out = ipv6Bytes vs) ∧
    (∀ a b c d, parseIpv4 (dotted [a, b, c, d]) = some [a, b, c, d]) ∧
    ∀ address : Fin 16 → UInt8,
      parseIpv6 (canonicalIpv6 (List.ofFn address)) = some (List.ofFn address) := by
  refine ⟨parseIpv4_iff, parseIpv6_iff, fun a b c d => ?_, fun address => ?_⟩
  · exact (parseIpv4_iff _ _).mpr ⟨a, b, c, d, rfl, rfl⟩
  · have hlength : (List.ofFn address).length = 2 * 8 := List.length_ofFn
    obtain ⟨height, hbytes⟩ := ipv6Bytes_groupsOf hlength
    refine (parseIpv6_iff _ _).mpr ⟨ipv6GroupsOf (List.ofFn address), ?_, hbytes.symm⟩
    exact ipv6Text_canonical height (ipv6GroupsOf_lt _)

end AsmFlow.Http
