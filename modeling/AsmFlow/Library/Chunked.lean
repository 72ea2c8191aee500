import Mathlib.Data.Nat.Digits.Lemmas
import Mathlib.Tactic

/-!
# The chunked transfer coding

A chunk is its length in hexadecimal, a line end, the bytes and a line end; a
chunk of length zero ends the body. The reader is the one a client has; what the
writer writes, the reader reads back.
-/

namespace AsmFlow.Library

abbrev Octets := List UInt8

def lineEnd : Octets := [13, 10]

/-- The digit characters, lower case. -/
def hexDigit (d : ℕ) : UInt8 := if d < 10 then UInt8.ofNat (48 + d) else UInt8.ofNat (87 + d)

/-- The value of a digit character of either case. -/
def hexValue (c : UInt8) : Option ℕ :=
  if 48 ≤ c.toNat ∧ c.toNat ≤ 57 then some (c.toNat - 48)
  else if 97 ≤ c.toNat ∧ c.toNat ≤ 102 then some (c.toNat - 87)
  else if 65 ≤ c.toNat ∧ c.toNat ≤ 70 then some (c.toNat - 55)
  else none

/-- No leading zeros, but zero is a digit. -/
def toHex (n : ℕ) : Octets :=
  if n = 0 then [hexDigit 0] else ((Nat.digits 16 n).reverse).map hexDigit

def encodeChunk (payload : Octets) : Octets :=
  toHex payload.length ++ lineEnd ++ payload ++ lineEnd

def encodeChunks (chunks : List Octets) : Octets := chunks.flatMap encodeChunk

/-- The chunk that ends the body, without trailers. -/
def lastChunk : Octets := [48, 13, 10, 13, 10]

/-- A chunk size and its line end. -/
def readSize : ℕ → Bool → Octets → Option (ℕ × Octets)
  | _, _, [] => none
  | acc, seen, c :: rest =>
    match hexValue c with
    | some v => readSize (16 * acc + v) true rest
    | none =>
      if c = 13 ∧ rest.head? = some 10 ∧ seen then some (acc, rest.tail) else none

/-- The payloads of a body, and what follows it. Every chunk takes a byte at least. -/
def readChunks : ℕ → Octets → Option (List Octets × Octets)
  | 0, _ => none
  | fuel + 1, bs =>
    match readSize 0 false bs with
    | none => none
    | some (n, rest) =>
      if n = 0 then
        if rest.take 2 = lineEnd then some ([], rest.drop 2) else none
      else if n ≤ rest.length ∧ (rest.drop n).take 2 = lineEnd then
        (readChunks fuel ((rest.drop n).drop 2)).map fun found => (rest.take n :: found.1, found.2)
      else none

def readBody (bs : Octets) : Option (List Octets × Octets) := readChunks (bs.length + 1) bs

@[simp] theorem encodeChunks_nil : encodeChunks [] = [] := rfl

@[simp] theorem encodeChunks_append (cs ds : List Octets) :
    encodeChunks (cs ++ ds) = encodeChunks cs ++ encodeChunks ds := List.flatMap_append

theorem encodeChunks_singleton (c : Octets) : encodeChunks [c] = encodeChunk c := by
  simp [encodeChunks]

theorem hexValue_hexDigit {d : ℕ} (hd : d < 16) : hexValue (hexDigit d) = some d := by
  interval_cases d <;> rfl

/-- Reading digits is evaluating them. -/
theorem readSize_digits (ds : List ℕ) (hds : ∀ d ∈ ds, d < 16) (acc : ℕ) (seen : Bool)
    (tail : Octets) :
    readSize acc seen (ds.map hexDigit ++ tail) =
      readSize (ds.foldl (fun a d => 16 * a + d) acc) (seen || !ds.isEmpty) tail := by
  induction ds generalizing acc seen with
  | nil => simp
  | cons d ds ih =>
    have hd : d < 16 := hds d List.mem_cons_self
    rw [List.map_cons, List.cons_append, readSize, hexValue_hexDigit hd]
    dsimp only
    rw [ih fun e he => hds e (List.mem_cons_of_mem d he)]
    simp

theorem readSize_lineEnd (acc : ℕ) (tail : Octets) :
    readSize acc true (lineEnd ++ tail) = some (acc, tail) := by
  have hcr : hexValue 13 = none := rfl
  simp [lineEnd, readSize, hcr]

theorem foldl_digits_reverse (ds : List ℕ) :
    ds.reverse.foldl (fun a d => 16 * a + d) 0 = Nat.ofDigits 16 ds := by
  induction ds with
  | nil => rfl
  | cons d ds ih =>
    rw [List.reverse_cons, List.foldl_append, ih, Nat.ofDigits_cons]
    simp only [List.foldl_cons, List.foldl_nil]
    omega

/-- A size is read back, with the bytes after its line end. -/
theorem readSize_toHex (n : ℕ) (tail : Octets) :
    readSize 0 false (toHex n ++ (lineEnd ++ tail)) = some (n, tail) := by
  unfold toHex
  split_ifs with hn
  · rw [hn]
    have hzero := readSize_digits [0] (by simp) 0 false (lineEnd ++ tail)
    rw [List.map_singleton] at hzero
    rw [hzero]
    exact readSize_lineEnd 0 tail
  · have hds : ∀ d ∈ (Nat.digits 16 n).reverse, d < 16 := by
      intro d hd
      exact Nat.digits_lt_base (by decide) (List.mem_reverse.mp hd)
    have hne : (Nat.digits 16 n).reverse.isEmpty = false := by
      simp [Nat.digits_ne_nil_iff_ne_zero, hn]
    rw [readSize_digits _ hds, foldl_digits_reverse, Nat.ofDigits_digits, hne]
    exact readSize_lineEnd n tail

theorem readChunks_encode (chunks : List Octets) (hne : ∀ c ∈ chunks, c ≠ []) (tail : Octets)
    (fuel : ℕ) (hfuel : chunks.length < fuel) :
    readChunks fuel (encodeChunks chunks ++ lastChunk ++ tail) = some (chunks, tail) := by
  induction chunks generalizing fuel with
  | nil =>
    obtain ⟨fuel, rfl⟩ := Nat.exists_eq_succ_of_ne_zero (Nat.pos_iff_ne_zero.mp hfuel)
    have hlast : encodeChunks [] ++ lastChunk ++ tail = toHex 0 ++ (lineEnd ++ (lineEnd ++ tail)) := by
      simp [lastChunk, toHex, lineEnd, hexDigit]
    rw [hlast, Nat.succ_eq_add_one, readChunks, readSize_toHex]
    simp [lineEnd]
  | cons c chunks ih =>
    obtain ⟨fuel, rfl⟩ := Nat.exists_eq_succ_of_ne_zero (Nat.ne_zero_of_lt hfuel)
    have hc : c.length ≠ 0 := by
      rw [ne_eq, List.length_eq_zero_iff]
      exact hne c List.mem_cons_self
    have hsplit : encodeChunks (c :: chunks) ++ lastChunk ++ tail =
        toHex c.length ++ (lineEnd ++ (c ++ (lineEnd ++ (encodeChunks chunks ++ lastChunk ++ tail)))) := by
      simp [encodeChunks, encodeChunk]
    have hrest := ih (fun d hd => hne d (List.mem_cons_of_mem c hd)) fuel
      (by rw [List.length_cons] at hfuel; omega)
    rw [hsplit, Nat.succ_eq_add_one, readChunks, readSize_toHex]
    dsimp only
    rw [if_neg hc]
    have hdrop (more : Octets) : (c ++ more).drop c.length = more := List.drop_left
    have htake (more : Octets) : (c ++ more).take c.length = c := List.take_left
    rw [hdrop, htake, if_pos]
    · rw [show (lineEnd ++ (encodeChunks chunks ++ lastChunk ++ tail)).drop 2 =
        encodeChunks chunks ++ lastChunk ++ tail from rfl, hrest]
      rfl
    · exact ⟨by simp, rfl⟩

theorem length_encodeChunks_ge (chunks : List Octets) :
    chunks.length ≤ (encodeChunks chunks).length := by
  induction chunks with
  | nil => exact Nat.zero_le _
  | cons c chunks ih =>
    simp only [encodeChunks, List.flatMap_cons, List.length_append, List.length_cons, encodeChunk,
      lineEnd] at ih ⊢
    omega

/-- The client reads the payloads that were written, and nothing of what follows. -/
theorem readBody_encode (chunks : List Octets) (hne : ∀ c ∈ chunks, c ≠ []) (tail : Octets) :
    readBody (encodeChunks chunks ++ lastChunk ++ tail) = some (chunks, tail) := by
  apply readChunks_encode chunks hne
  have hle := length_encodeChunks_ge chunks
  simp only [List.length_append]
  omega

end AsmFlow.Library
