import AsmFlow.Json.Utf8
import AsmFlow.Library.Json
import AsmFlow.Machine.Status
import AsmFlow.Mcp.Json

/-!
# The limits of the JSON boundary

`json.asm`: the scan of the brackets before a document is parsed, and the walk over
the parsed tree. The parser itself is a parameter.
-/

namespace AsmFlow.Json

open Library.Json

/-- `af_json_limits`. -/
structure Limits where
  maxBytes : ℕ
  maxDepth : ℕ
  maxString : ℕ
  maxElems : ℕ

/-- The loop of `af_json_scan_depth`, at a depth and with its two flags. -/
def scanFrom (maxDepth : ℕ) : ℕ → Bool → Bool → Bytes → Status
  | depth, inString, _, [] =>
    if inString then Status.jsonParse else if depth ≠ 0 then Status.jsonParse else Status.ok
  | depth, true, true, _ :: t => scanFrom maxDepth depth true false t
  | depth, true, false, b :: t =>
    if b = 0x5C then scanFrom maxDepth depth true true t
    else if b = 0x22 then scanFrom maxDepth depth false false t
    else scanFrom maxDepth depth true false t
  | depth, false, escaped, b :: t =>
    if b = 0x22 then scanFrom maxDepth depth true false t
    else if b = 0x7B ∨ b = 0x5B then
      if maxDepth < depth + 1 then Status.jsonDepth
      else scanFrom maxDepth (depth + 1) false escaped t
    else if b = 0x7D ∨ b = 0x5D then
      if depth = 0 then Status.jsonParse else scanFrom maxDepth (depth - 1) false escaped t
    else scanFrom maxDepth depth false escaped t

/-- `af_json_scan_depth`. -/
def scanDepth (t : Bytes) (maxDepth : ℕ) : Status := scanFrom maxDepth 0 false false t

mutual

/-- `af_json_enforce_limits`, with how deep it calls itself. -/
def walk (lim : Limits) : Mcp.Json → Status × ℕ
  | .string s => (if lim.maxString < s.utf8ByteSize then Status.jsonSize else Status.ok, 1)
  | .array xs =>
    if lim.maxElems < xs.length then (Status.limit, 1)
    else ((walkElements lim xs).1, (walkElements lim xs).2 + 1)
  | .object ms =>
    if lim.maxElems < ms.length then (Status.limit, 1)
    else ((walkMembers lim ms).1, (walkMembers lim ms).2 + 1)
  | .null => (Status.ok, 1)
  | .bool _ => (Status.ok, 1)
  | .integer _ => (Status.ok, 1)
  | .real _ => (Status.ok, 1)

/-- `.array_loop`. -/
def walkElements (lim : Limits) : List Mcp.Json → Status × ℕ
  | [] => (Status.ok, 0)
  | x :: xs =>
    if (walk lim x).1 < 0 then walk lim x
    else ((walkElements lim xs).1, max (walk lim x).2 (walkElements lim xs).2)

/-- `.object_loop`. -/
def walkMembers (lim : Limits) : List (String × Mcp.Json) → Status × ℕ
  | [] => (Status.ok, 0)
  | (key, v) :: ms =>
    if lim.maxString < key.utf8ByteSize then (Status.jsonSize, 0)
    else if (walk lim v).1 < 0 then walk lim v
    else ((walkMembers lim ms).1, max (walk lim v).2 (walkMembers lim ms).2)

end

/-- `af_json_enforce_limits`. -/
def enforceLimits (lim : Limits) (v : Mcp.Json) : Status := (walk lim v).1

/-- How deep `af_json_enforce_limits` calls itself. -/
def enforceDepth (lim : Limits) (v : Mcp.Json) : ℕ := (walk lim v).2

/-- `af_json_parse`, over the parser of the library and with what the allocator answers
to the error object. -/
def parseDoc (loadb : Bytes → Option Mcp.Json) (granted : Bool) (lim : Limits) (buf : Bytes) :
    Except Status Mcp.Json :=
  if lim.maxBytes < buf.length then .error Status.jsonSize
  else if scanDepth buf lim.maxDepth < 0 then .error (scanDepth buf lim.maxDepth)
  else if granted = false then .error Status.nomem
  else
    match loadb buf with
    | none => .error Status.jsonParse
    | some v => if enforceLimits lim v < 0 then .error (enforceLimits lim v) else .ok v

theorem parseDoc_neg {loadb : Bytes → Option Mcp.Json} {granted : Bool} {lim : Limits}
    {buf : Bytes} {e : Status} (h : parseDoc loadb granted lim buf = .error e) : e < 0 := by
  unfold parseDoc at h
  split_ifs at h with hbytes hscan hmem
  · obtain rfl := Except.error.inj h
    decide
  · obtain rfl := Except.error.inj h
    exact hscan
  · obtain rfl := Except.error.inj h
    decide
  · split at h
    · obtain rfl := Except.error.inj h
      decide
    · split_ifs at h with hlimits
      obtain rfl := Except.error.inj h
      exact hlimits

section Scans

variable {k m : ℕ} {s t : Bytes}

attribute [local simp] scanFrom

/-- The scanner comes through the text at the depth it had, after `k` more levels. -/
def Passes (k : ℕ) (t : Bytes) : Prop :=
  ∀ (maxDepth depth : ℕ) (rest : Bytes), depth ≤ maxDepth →
    scanFrom maxDepth depth false false (t ++ rest) =
      if depth + k ≤ maxDepth then scanFrom maxDepth depth false false rest else Status.jsonDepth

theorem passes_nil : Passes 0 [] := by
  intro maxDepth depth rest h
  exact (if_pos h).symm

theorem Passes.append (hs : Passes k s) (ht : Passes m t) : Passes (max k m) (s ++ t) := by
  intro maxDepth depth rest h
  rw [List.append_assoc, hs maxDepth depth _ h, ht maxDepth depth rest h]
  by_cases hk : depth + k ≤ maxDepth
  · rw [if_pos hk]
    by_cases hm : depth + m ≤ maxDepth
    · rw [if_pos hm, if_pos (by omega)]
    · rw [if_neg hm, if_neg (by omega)]
  · rw [if_neg hk, if_neg (by omega)]

/-- A byte that means nothing to the scanner outside a string. -/
def Plain (b : UInt8) : Prop := b ∉ ([0x22, 0x7B, 0x5B, 0x7D, 0x5D] : Bytes)

instance (b : UInt8) : Decidable (Plain b) := inferInstanceAs (Decidable (_ ∉ _))

theorem passes_plain (h : ∀ b ∈ t, Plain b) : Passes 0 t := by
  induction t with
  | nil => exact passes_nil
  | cons b t ih =>
    rw [List.forall_mem_cons] at h
    obtain ⟨hb, ht⟩ := h
    simp only [Plain, List.mem_cons, List.not_mem_nil, or_false, not_or] at hb
    intro maxDepth depth rest hdepth
    rw [List.cons_append, scanFrom, if_neg hb.1, if_neg (by tauto), if_neg (by tauto)]
    exact ih ht maxDepth depth rest hdepth

/-- Between a bracket and its counterpart the scanner is one level deeper. -/
theorem Passes.bracket (opening closing : UInt8) (ht : Passes k t)
    (hopening : opening = 0x7B ∨ opening = 0x5B) (hclosing : closing = 0x7D ∨ closing = 0x5D) :
    Passes (k + 1) (opening :: (t ++ [closing])) := by
  have hquote : opening ≠ 0x22 := by rcases hopening with rfl | rfl <;> decide
  have hquote' : closing ≠ 0x22 := by rcases hclosing with rfl | rfl <;> decide
  have hother : ¬ (closing = 0x7B ∨ closing = 0x5B) := by
    rcases hclosing with rfl | rfl <;> decide
  intro maxDepth depth rest hdepth
  rw [List.cons_append, List.append_assoc, scanFrom, if_neg hquote, if_pos hopening]
  by_cases hroom : maxDepth < depth + 1
  · rw [if_pos hroom, if_neg (by omega)]
  · rw [if_neg hroom, ht maxDepth (depth + 1) _ (by omega)]
    by_cases hk : depth + 1 + k ≤ maxDepth
    · rw [if_pos hk, if_pos (by omega), List.singleton_append, scanFrom, if_neg hquote',
        if_neg hother, if_pos hclosing, if_neg (Nat.succ_ne_zero depth), Nat.add_sub_cancel]
    · rw [if_neg hk, if_neg (by omega)]

/-- The bytes of a character that is not ASCII are no ASCII bytes. -/
theorem mem_utf8EncodeChar {c : Char} {b : UInt8} (h : b ∈ String.utf8EncodeChar c) :
    b.toNat = c.val.toNat ∨ 0x80 ≤ b.toNat := by
  have hmem : b.toNat ∈ (String.utf8EncodeChar c).map UInt8.toNat := List.mem_map_of_mem h
  rw [utf8EncodeChar_toNat] at hmem
  split_ifs at hmem <;> simp only [List.mem_cons, List.not_mem_nil, or_false] at hmem <;> omega

theorem ascii_char {c : Char} {b : UInt8} (h : b ∈ String.utf8EncodeChar c) (d : Char)
    (hd : d.val.toNat < 0x80) (hne : c ≠ d) : b.toNat ≠ d.val.toNat := by
  intro heq
  rcases mem_utf8EncodeChar h with hval | hhigh
  · exact hne (Char.ext (UInt32.toNat_inj.mp (hval.symm.trans heq)))
  · omega

/-- Inside a string, the scanner comes through each character. -/
theorem scanFrom_stringChar {c : Text} (hc : StringChar c) (maxDepth depth : ℕ) (rest : Bytes) :
    scanFrom maxDepth depth true false (c ++ rest) = scanFrom maxDepth depth true false rest := by
  have hinert : ∀ p : Bytes, (∀ b ∈ p, b ≠ 0x5C ∧ b ≠ 0x22) →
      scanFrom maxDepth depth true false (p ++ rest) = scanFrom maxDepth depth true false rest := by
    intro p hp
    induction p with
    | nil => rfl
    | cons b p ih =>
      rw [List.forall_mem_cons] at hp
      rw [List.cons_append, scanFrom, if_neg hp.1.1, if_neg hp.1.2]
      exact ih hp.2
  cases hc with
  | char c hlow hquote hslash =>
    refine hinert _ fun b hb => ⟨fun h => ?_, fun h => ?_⟩
    · exact ascii_char hb '\\' (by decide) hslash (congrArg UInt8.toNat h)
    · exact ascii_char hb '"' (by decide) hquote (congrArg UInt8.toNat h)
  | escape b _ => rfl
  | unicode w x y z hw hx hy hz =>
    have hhex {b : UInt8} (hb : IsHex b) : b ≠ 0x5C ∧ b ≠ 0x22 := by
      constructor
      · rintro rfl
        revert hb
        decide
      · rintro rfl
        revert hb
        decide
    have hrest := hinert [w, x, y, z] (by
      simp only [List.forall_mem_cons, List.not_mem_nil, false_implies, implies_true, and_true]
      exact ⟨hhex hw, hhex hx, hhex hy, hhex hz⟩)
    exact hrest

/-- A string, whatever is in it, nests nothing. -/
theorem passes_string (h : IsString s) : Passes 0 s := by
  obtain ⟨cs, hcs, rfl⟩ := h
  have hchars (maxDepth depth : ℕ) (rest : Bytes) :
      scanFrom maxDepth depth true false (cs.flatten ++ rest) =
        scanFrom maxDepth depth true false rest := by
    induction cs with
    | nil => rfl
    | cons c cs ih =>
      rw [List.forall_mem_cons] at hcs
      rw [List.flatten_cons, List.append_assoc, scanFrom_stringChar hcs.1]
      exact ih hcs.2
  intro maxDepth depth rest hdepth
  rw [List.cons_append, List.append_assoc, scanFrom, if_pos rfl, hchars]
  exact (if_pos hdepth).symm

theorem plain_of_digit {b : UInt8} (h : IsDigit b) : Plain b := by
  intro hmem
  simp only [List.mem_cons, List.not_mem_nil, or_false] at hmem
  rcases hmem with rfl | rfl | rfl | rfl | rfl <;> exact absurd h (by decide)

theorem passes_blank (h : Blank t) : Passes 0 t := by
  apply passes_plain
  intro b hb
  have hblank := h b hb
  simp only [List.mem_cons, List.not_mem_nil, or_false] at hblank
  rcases hblank with rfl | rfl | rfl | rfl <;> decide

theorem passes_number (h : IsNumber t) : Passes 0 t := by
  obtain ⟨sign, whole, fraction, exponent, hsign, ⟨⟨-, hwhole⟩, -⟩, hfraction, hexponent, rfl⟩ := h
  have hsign' : ∀ b ∈ sign, Plain b := by
    simp only [List.mem_cons, List.not_mem_nil, or_false] at hsign
    rcases hsign with rfl | rfl <;> decide +kernel
  have hfraction' : ∀ b ∈ fraction, Plain b := by
    rcases hfraction with rfl | ⟨ds, ⟨-, hds⟩, rfl⟩
    · exact List.forall_mem_nil _
    · exact List.forall_mem_cons.mpr ⟨by decide, fun b hb => plain_of_digit (hds b hb)⟩
  have hexponent' : ∀ b ∈ exponent, Plain b := by
    rcases hexponent with rfl | ⟨e, sign, ds, he, hsign, ⟨-, hds⟩, rfl⟩
    · exact List.forall_mem_nil _
    · refine List.forall_mem_cons.mpr ⟨?_, List.forall_mem_append.mpr ⟨?_, ?_⟩⟩
      · simp only [List.mem_cons, List.not_mem_nil, or_false] at he
        rcases he with rfl | rfl <;> decide
      · simp only [List.mem_cons, List.not_mem_nil, or_false] at hsign
        rcases hsign with rfl | rfl | rfl <;> decide +kernel
      · exact fun b hb => plain_of_digit (hds b hb)
  apply passes_plain
  simp only [List.forall_mem_append]
  exact ⟨hsign', fun b hb => plain_of_digit (hwhole b hb), hfraction', hexponent'⟩

theorem passes_scalar (h : Scalar t) : Passes 0 t := by
  rcases h with h | h | h
  · apply passes_plain
    simp only [literals, List.mem_cons, List.not_mem_nil, or_false] at h
    rcases h with rfl | rfl | rfl <;> decide +kernel
  · exact passes_string h
  · exact passes_number h

theorem Passes.padded {u v : Bytes} (hu : Blank u) (ht : Passes k t) (hv : Blank v) :
    Passes k (u ++ (t ++ v)) := by
  have hall := (passes_blank hu).append (ht.append (passes_blank hv))
  rwa [Nat.max_eq_left (Nat.zero_le k), Nat.max_eq_right (Nat.zero_le k)] at hall

theorem passes_key (h : Key t) : Passes 0 t := by
  obtain ⟨u, s, v, hu, hs, hv, rfl⟩ := h
  exact (passes_string hs).padded hu hv

theorem Passes.followedBy (ht : Passes k t) {b : UInt8} (hb : Plain b) : Passes k (t ++ [b]) := by
  have hall := ht.append (passes_plain (t := [b]) (by simpa using hb))
  rwa [Nat.max_eq_left (Nat.zero_le k)] at hall

theorem passes_member {key value : Bytes} (hkey : Key key) (hvalue : Passes k value) :
    Passes k (memberText (key, value)) := by
  have hall := ((passes_key hkey).followedBy (b := 0x3A) (by decide)).append hvalue
  rw [Nat.max_eq_right (Nat.zero_le k), List.append_assoc] at hall
  exact hall

end Scans

section Nesting

variable {k n : ℕ} {t : Bytes}

/-- The scanner measures a value `k` deep, and the value is that deep. -/
structure Measured (n : ℕ) (value text : Bytes) (k : ℕ) : Prop where
  le : k ≤ n
  value : Value k value
  passes : Passes k text

/-- Items with commas, and one more. -/
theorem measured_items {α : Type} (value text : α → Bytes) {as : List α} {last : Bytes}
    (has : ∀ a ∈ as, ∃ k, Measured n (value a) (text a) k) (ht : ∃ k, Measured n t last k) :
    ∃ k, k ≤ n ∧ (∀ a ∈ as, Value k (value a)) ∧ Value k t ∧
      Passes k (followed (as.map text) ++ last) := by
  induction as with
  | nil =>
    obtain ⟨k, hle, hvalue, hpasses⟩ := ht
    exact ⟨k, hle, List.forall_mem_nil _, hvalue, hpasses⟩
  | cons a as ih =>
    rw [List.forall_mem_cons] at has
    obtain ⟨k, hk⟩ := has.1
    obtain ⟨m, hm, hvalues, hvalue, hpasses⟩ := ih has.2
    refine ⟨max k m, max_le hk.le hm, ?_, hvalue.mono (le_max_right k m), ?_⟩
    · rw [List.forall_mem_cons]
      exact ⟨hk.value.mono (le_max_left k m), fun b hb => (hvalues b hb).mono (le_max_right k m)⟩
    · have hall := (hk.passes.followedBy (b := 0x2C) (by decide)).append hpasses
      rw [← List.append_assoc] at hall
      exact hall

/-- A value has a depth of its own, and the scanner finds it. -/
theorem measured_of_value (h : Value n t) : ∃ k, Measured n t t k := by
  induction h with
  | scalar h => exact ⟨0, Nat.zero_le _, .scalar h, passes_scalar h⟩
  | padded hu _ hv ih =>
    obtain ⟨k, hle, hvalue, hpasses⟩ := ih
    exact ⟨k, hle, .padded hu hvalue hv, hpasses.padded hu hv⟩
  | emptyArray hw =>
    exact ⟨1, Nat.succ_le_succ (Nat.zero_le _), .emptyArray hw,
      (passes_blank hw).bracket _ _ (Or.inr rfl) (Or.inr rfl)⟩
  | @array n es t _ _ ihes iht =>
    obtain ⟨k, hle, hvalues, hvalue, hpasses⟩ :=
      measured_items (fun e => e) (fun e => e) ihes iht
    rw [List.map_id'] at hpasses
    refine ⟨k + 1, Nat.succ_le_succ hle, .array hvalues hvalue, ?_⟩
    have hall := hpasses.bracket 0x5B 0x5D (Or.inr rfl) (Or.inr rfl)
    rw [List.append_assoc] at hall
    exact hall
  | emptyObject hw =>
    exact ⟨1, Nat.succ_le_succ (Nat.zero_le _), .emptyObject hw,
      (passes_blank hw).bracket _ _ (Or.inl rfl) (Or.inl rfl)⟩
  | @object n ms key t hkeys _ hkey _ ihms iht =>
    have hms : ∀ m ∈ ms, ∃ k, Measured n m.2 (memberText m) k := by
      intro m hm
      obtain ⟨k, hle, hvalue, hpasses⟩ := ihms m hm
      exact ⟨k, hle, hvalue, passes_member (hkeys m hm) hpasses⟩
    have hlast : ∃ k, Measured n t (memberText (key, t)) k := by
      obtain ⟨k, hle, hvalue, hpasses⟩ := iht
      exact ⟨k, hle, hvalue, passes_member hkey hpasses⟩
    obtain ⟨k, hle, hvalues, hvalue, hpasses⟩ := measured_items Prod.snd memberText hms hlast
    refine ⟨k + 1, Nat.succ_le_succ hle, .object hkeys hvalues hkey hvalue, ?_⟩
    have hall := hpasses.bracket 0x7B 0x7D (Or.inl rfl) (Or.inl rfl)
    have htext : 0x7B :: (followed (ms.map memberText) ++ memberText (key, t) ++ [0x7D]) =
        (Hole.member ms key).text ++ (t ++ [0x7D]) := by
      simp [Hole.text, memberText]
    rwa [htext] at hall

/-- What the scan answers to a text it measures. -/
theorem scanDepth_of_passes (h : Passes k t) (maxDepth : ℕ) :
    scanDepth t maxDepth = if k ≤ maxDepth then Status.ok else Status.jsonDepth := by
  have hscan := h maxDepth 0 [] (Nat.zero_le _)
  rw [List.append_nil, Nat.zero_add] at hscan
  exact hscan

/-- The scan accepts a well formed text exactly when it nests no deeper than allowed. -/
theorem scanDepth_ok_iff (h : WellFormed t) (maxDepth : ℕ) :
    scanDepth t maxDepth = Status.ok ↔ Value maxDepth t := by
  constructor
  · intro hok
    obtain ⟨n, hn⟩ := h
    obtain ⟨k, -, hvalue, hpasses⟩ := measured_of_value hn
    rw [scanDepth_of_passes hpasses] at hok
    split_ifs at hok with hle
    · exact hvalue.mono hle
    · exact absurd hok (by decide)
  · intro hvalue
    obtain ⟨k, hle, -, hpasses⟩ := measured_of_value hvalue
    rw [scanDepth_of_passes hpasses, if_pos hle]

theorem scanDepth_deep (h : WellFormed t) {maxDepth : ℕ} (hdeep : ¬ Value maxDepth t) :
    scanDepth t maxDepth = Status.jsonDepth := by
  obtain ⟨n, hn⟩ := h
  obtain ⟨k, -, hvalue, hpasses⟩ := measured_of_value hn
  rw [scanDepth_of_passes hpasses]
  exact if_neg fun hle => hdeep (hvalue.mono hle)

end Nesting

mutual

/-- How deep the containers of a value nest. -/
def height : Mcp.Json → ℕ
  | .array xs => heightElements xs + 1
  | .object ms => heightMembers ms + 1
  | .null => 0
  | .bool _ => 0
  | .integer _ => 0
  | .real _ => 0
  | .string _ => 0

def heightElements : List Mcp.Json → ℕ
  | [] => 0
  | x :: xs => max (height x) (heightElements xs)

def heightMembers : List (String × Mcp.Json) → ℕ
  | [] => 0
  | (_, v) :: ms => max (height v) (heightMembers ms)

end

def IsContainer : Mcp.Json → Prop
  | .array _ => True
  | .object _ => True
  | _ => False

/-- The value has the structure of the text: what standard JSON prescribes, but for the
values of strings and numbers, the names of the members and their order. -/
inductive Mirrors : Bytes → Mcp.Json → Prop
  | scalar {t : Bytes} {v : Mcp.Json} : Scalar t → ¬ IsContainer v → Mirrors t v
  | padded {u t w : Bytes} {v : Mcp.Json} : Blank u → Mirrors t v → Blank w →
      Mirrors (u ++ (t ++ w)) v
  | emptyArray {w : Bytes} : Blank w → Mirrors (0x5B :: (w ++ [0x5D])) (.array [])
  | array {es : List (Bytes × Mcp.Json)} {t : Bytes} {v : Mcp.Json} :
      (∀ e ∈ es, Mirrors e.1 e.2) → Mirrors t v →
      Mirrors ((Hole.element (es.map Prod.fst)).text ++ (t ++ [0x5D]))
        (.array (es.map Prod.snd ++ [v]))
  | emptyObject {w : Bytes} : Blank w → Mirrors (0x7B :: (w ++ [0x7D])) (.object [])
  | object {ms : List ((Bytes × Bytes) × Mcp.Json)} {k t : Bytes} {v : Mcp.Json}
      {members : List (String × Mcp.Json)} : (∀ m ∈ ms, Key m.1.1) →
      (∀ m ∈ ms, Mirrors m.1.2 m.2) → Key k → Mirrors t v →
      (members.map Prod.snd).Perm (ms.map Prod.snd ++ [v]) →
      Mirrors ((Hole.member (ms.map Prod.fst) k).text ++ (t ++ [0x7D])) (.object members)

section Trees

variable {t : Bytes} {v : Mcp.Json}

attribute [local simp] height heightElements heightMembers

theorem heightElements_eq (xs : List Mcp.Json) :
    heightElements xs = (xs.map height).foldr max 0 := by
  induction xs with
  | nil => rfl
  | cons x xs ih =>
    rw [heightElements, ih]
    rfl

theorem heightMembers_eq (ms : List (String × Mcp.Json)) :
    heightMembers ms = heightElements (ms.map Prod.snd) := by
  induction ms with
  | nil => rfl
  | cons m ms ih =>
    rw [heightMembers, ih]
    rfl

theorem heightElements_perm {xs ys : List Mcp.Json} (h : xs.Perm ys) :
    heightElements xs = heightElements ys := by
  rw [heightElements_eq, heightElements_eq]
  exact (h.map height).foldr_eq 0

/-- Items of these heights with commas, and one more. -/
theorem passes_items {α : Type} (text : α → Bytes) (value : α → Mcp.Json) {as : List α}
    {last : Bytes} {v : Mcp.Json} (has : ∀ a ∈ as, Passes (height (value a)) (text a))
    (hlast : Passes (height v) last) :
    Passes (heightElements (as.map value ++ [v])) (followed (as.map text) ++ last) := by
  induction as with
  | nil =>
    rw [List.map_nil, List.nil_append, heightElements, heightElements, Nat.max_eq_left (Nat.zero_le _)]
    exact hlast
  | cons a as ih =>
    rw [List.forall_mem_cons] at has
    have hall := (has.1.followedBy (b := 0x2C) (by decide)).append (ih has.2)
    rw [← List.append_assoc] at hall
    exact hall

/-- The scanner measures a text as deep as the value of it is. -/
theorem Mirrors.passes (h : Mirrors t v) : Passes (height v) t := by
  induction h with
  | @scalar t v h hv =>
    have hzero : height v = 0 := by
      cases v with
      | array xs => exact absurd trivial hv
      | object ms => exact absurd trivial hv
      | _ => rfl
    rw [hzero]
    exact passes_scalar h
  | padded hu _ hw ih => exact ih.padded hu hw
  | emptyArray hw => exact (passes_blank hw).bracket _ _ (Or.inr rfl) (Or.inr rfl)
  | @array es t v _ _ ihes iht =>
    have hall := (passes_items Prod.fst Prod.snd ihes iht).bracket 0x5B 0x5D (Or.inr rfl) (Or.inr rfl)
    rw [List.append_assoc] at hall
    exact hall
  | emptyObject hw => exact (passes_blank hw).bracket _ _ (Or.inl rfl) (Or.inl rfl)
  | @object ms key t v members hkeys _ hkey _ hmembers ihms iht =>
    have hall := (passes_items (fun m : (Bytes × Bytes) × Mcp.Json => memberText m.1) Prod.snd
      (fun m hm => passes_member (hkeys m hm) (ihms m hm)) (passes_member hkey iht)).bracket
      0x7B 0x7D (Or.inl rfl) (Or.inl rfl)
    have htext : 0x7B :: (followed (ms.map fun m => memberText m.1) ++ memberText (key, t) ++ [0x7D]) =
        (Hole.member (ms.map Prod.fst) key).text ++ (t ++ [0x7D]) := by
      simp [Hole.text, memberText, Function.comp_def]
    have hheight : height (.object members) = heightElements (ms.map Prod.snd ++ [v]) + 1 := by
      rw [height, heightMembers_eq, heightElements_perm hmembers]
    rw [hheight, ← htext]
    exact hall

end Trees

section Walks

variable (lim : Limits)

attribute [local simp] walk walkElements walkMembers

mutual

/-- The walk goes no deeper than the value. -/
theorem walk_depth : ∀ v, (walk lim v).2 ≤ height v + 1
  | .array xs => by
    rw [walk, height]
    split_ifs
    · exact Nat.le_add_left 1 _
    · exact Nat.succ_le_succ (walkElements_depth xs)
  | .object ms => by
    rw [walk, height]
    split_ifs
    · exact Nat.le_add_left 1 _
    · exact Nat.succ_le_succ (walkMembers_depth ms)
  | .null => le_rfl
  | .bool _ => le_rfl
  | .integer _ => le_rfl
  | .real _ => le_rfl
  | .string _ => le_rfl

theorem walkElements_depth : ∀ xs, (walkElements lim xs).2 ≤ heightElements xs + 1
  | [] => Nat.zero_le _
  | x :: xs => by
    have hfirst := walk_depth x
    have hrest := walkElements_depth xs
    rw [walkElements, heightElements]
    split_ifs
    · omega
    · dsimp only
      omega

theorem walkMembers_depth : ∀ ms, (walkMembers lim ms).2 ≤ heightMembers ms + 1
  | [] => Nat.zero_le _
  | (key, v) :: ms => by
    have hfirst := walk_depth v
    have hrest := walkMembers_depth ms
    rw [walkMembers, heightMembers]
    split_ifs
    · exact Nat.zero_le _
    · omega
    · dsimp only
      omega

end

/-- The values that a value consists of, itself among them. -/
inductive Part : Mcp.Json → Mcp.Json → Prop
  | self (v : Mcp.Json) : Part v v
  | element {u x : Mcp.Json} {xs : List Mcp.Json} : x ∈ xs → Part u x → Part u (.array xs)
  | member {u : Mcp.Json} {m : String × Mcp.Json} {ms : List (String × Mcp.Json)} :
    m ∈ ms → Part u m.2 → Part u (.object ms)

/-- A string, the keys of an object, or the size of a container is within its limit. -/
def Fits : Mcp.Json → Prop
  | .string s => s.utf8ByteSize ≤ lim.maxString
  | .array xs => xs.length ≤ lim.maxElems
  | .object ms => ms.length ≤ lim.maxElems ∧ ∀ m ∈ ms, m.1.utf8ByteSize ≤ lim.maxString
  | _ => True

/-- Everything in the value is within its limit. -/
def Within (v : Mcp.Json) : Prop := ∀ u, Part u v → Fits lim u

theorem within_array {xs : List Mcp.Json} :
    Within lim (.array xs) ↔ xs.length ≤ lim.maxElems ∧ ∀ x ∈ xs, Within lim x := by
  constructor
  · intro h
    exact ⟨h _ (.self _), fun x hx u hu => h u (.element hx hu)⟩
  · rintro ⟨hsize, helements⟩ u hu
    cases hu with
    | self => exact hsize
    | element hx hu => exact helements _ hx _ hu

theorem within_object {ms : List (String × Mcp.Json)} :
    Within lim (.object ms) ↔ ms.length ≤ lim.maxElems ∧
      ∀ m ∈ ms, m.1.utf8ByteSize ≤ lim.maxString ∧ Within lim m.2 := by
  constructor
  · intro h
    obtain ⟨hsize, hkeys⟩ := h _ (.self _)
    exact ⟨hsize, fun m hm => ⟨hkeys m hm, fun u hu => h u (.member hm hu)⟩⟩
  · rintro ⟨hsize, hmembers⟩ u hu
    cases hu with
    | self => exact ⟨hsize, fun m hm => (hmembers m hm).1⟩
    | member hm hu => exact (hmembers _ hm).2 _ hu

theorem within_leaf {v : Mcp.Json} (hv : ¬ IsContainer v) : Within lim v ↔ Fits lim v := by
  refine ⟨fun h => h v (.self v), fun h u hu => ?_⟩
  cases hu with
  | self => exact h
  | element => exact absurd trivial hv
  | member => exact absurd trivial hv

/-- A status that says whether something holds. -/
def Tells (st : Status) (P : Prop) : Prop := st < 0 ∧ ¬ P ∨ st = Status.ok ∧ P

theorem tells_fits {st : Status} (hst : st < 0) {a b : ℕ} {P : Prop} (hP : P ↔ a ≤ b) :
    Tells (if b < a then st else Status.ok) P := by
  split_ifs with h
  · exact Or.inl ⟨hst, fun hp => absurd (hP.mp hp) (not_le.mpr h)⟩
  · exact Or.inr ⟨rfl, hP.mpr (not_lt.mp h)⟩

mutual

/-- The walk says whether everything is within its limit. -/
theorem walk_tells : ∀ v, Tells (walk lim v).1 (Within lim v)
  | .array xs => by
    have hrest := walkElements_tells xs
    rw [walk]
    split_ifs with hsize
    · refine Or.inl ⟨(by decide : Status.limit < 0), fun h => ?_⟩
      exact absurd ((within_array lim).mp h).1 (not_le.mpr hsize)
    · rw [within_array]
      exact hrest.imp (fun h => ⟨h.1, fun hw => h.2 hw.2⟩) fun h => ⟨h.1, not_lt.mp hsize, h.2⟩
  | .object ms => by
    have hrest := walkMembers_tells ms
    rw [walk]
    split_ifs with hsize
    · refine Or.inl ⟨(by decide : Status.limit < 0), fun h => ?_⟩
      exact absurd ((within_object lim).mp h).1 (not_le.mpr hsize)
    · rw [within_object]
      exact hrest.imp (fun h => ⟨h.1, fun hw => h.2 hw.2⟩) fun h => ⟨h.1, not_lt.mp hsize, h.2⟩
  | .null => Or.inr ⟨rfl, (within_leaf lim id).mpr trivial⟩
  | .bool _ => Or.inr ⟨rfl, (within_leaf lim id).mpr trivial⟩
  | .integer _ => Or.inr ⟨rfl, (within_leaf lim id).mpr trivial⟩
  | .real _ => Or.inr ⟨rfl, (within_leaf lim id).mpr trivial⟩
  | .string _ => tells_fits (by decide) (within_leaf lim id)

theorem walkElements_tells : ∀ xs, Tells (walkElements lim xs).1 (∀ x ∈ xs, Within lim x)
  | [] => Or.inr ⟨rfl, List.forall_mem_nil _⟩
  | x :: xs => by
    have hfirst := walk_tells x
    have hrest := walkElements_tells xs
    rw [walkElements, List.forall_mem_cons]
    split_ifs with hneg
    · rcases hfirst with ⟨-, hnot⟩ | ⟨hok, -⟩
      · exact Or.inl ⟨hneg, fun h => hnot h.1⟩
      · rw [hok] at hneg
        exact absurd hneg (by decide : ¬ Status.ok < 0)
    · rcases hfirst with ⟨hneg', -⟩ | ⟨-, hwithin⟩
      · exact absurd hneg' hneg
      · exact hrest.imp (fun h => ⟨h.1, fun hw => h.2 hw.2⟩) fun h => ⟨h.1, hwithin, h.2⟩

theorem walkMembers_tells : ∀ ms, Tells (walkMembers lim ms).1
    (∀ m ∈ ms, m.1.utf8ByteSize ≤ lim.maxString ∧ Within lim m.2)
  | [] => Or.inr ⟨rfl, List.forall_mem_nil _⟩
  | (key, v) :: ms => by
    have hfirst := walk_tells v
    have hrest := walkMembers_tells ms
    rw [walkMembers, List.forall_mem_cons]
    split_ifs with hlong hneg
    · exact Or.inl ⟨(by decide : Status.jsonSize < 0), fun h => absurd h.1.1 (not_le.mpr hlong)⟩
    · rcases hfirst with ⟨-, hnot⟩ | ⟨hok, -⟩
      · exact Or.inl ⟨hneg, fun h => hnot h.1.2⟩
      · rw [hok] at hneg
        exact absurd hneg (by decide : ¬ Status.ok < 0)
    · rcases hfirst with ⟨hneg', -⟩ | ⟨-, hwithin⟩
      · exact absurd hneg' hneg
      · exact hrest.imp (fun h => ⟨h.1, fun hw => h.2 hw.2⟩)
          fun h => ⟨h.1, ⟨not_lt.mp hlong, hwithin⟩, h.2⟩

end

end Walks

theorem enforceLimits_ok_iff (lim : Limits) (v : Mcp.Json) :
    enforceLimits lim v = Status.ok ↔ Within lim v := by
  rcases walk_tells lim v with ⟨hneg, hnot⟩ | ⟨hok, hwithin⟩
  · refine iff_of_false (fun hok => ?_) hnot
    change (walk lim v).1 = Status.ok at hok
    rw [hok] at hneg
    exact absurd hneg (by decide : ¬ Status.ok < 0)
  · exact iff_of_true hok hwithin

/-- After a scan that succeeds the walk over the tree of the text is no deeper than what
was allowed, and one more. -/
theorem enforceDepth_le (lim : Limits) {t : Bytes} {v : Mcp.Json} (h : Mirrors t v) {maxDepth : ℕ}
    (hok : scanDepth t maxDepth = Status.ok) : enforceDepth lim v ≤ maxDepth + 1 := by
  rw [scanDepth_of_passes h.passes] at hok
  split_ifs at hok with hle
  · exact (walk_depth lim v).trans (Nat.succ_le_succ hle)
  · exact absurd hok (by decide)

/-- The scan measures JSON nesting, and so bounds the walk over what a standard parser
makes of the text. -/
theorem depth_gate {t : Bytes} (h : WellFormed t) (lim : Limits)
    {loadb : Bytes → Option Mcp.Json} (hstandard : ∀ t v, loadb t = some v → Mirrors t v) :
    (scanDepth t lim.maxDepth = Status.ok ↔ Value lim.maxDepth t) ∧
      (¬ Value lim.maxDepth t → scanDepth t lim.maxDepth = Status.jsonDepth) ∧
      (scanDepth t lim.maxDepth = Status.ok → ∀ v, loadb t = some v →
        enforceDepth lim v ≤ lim.maxDepth + 1 ∧
          (enforceLimits lim v = Status.ok ↔ Within lim v)) :=
  ⟨scanDepth_ok_iff h _, scanDepth_deep h, fun hok v hv =>
    ⟨enforceDepth_le lim (hstandard t v hv) hok, enforceLimits_ok_iff lim v⟩⟩

/-- The string `"["`. -/
theorem isString_bracket : IsString [0x22, 0x5B, 0x22] := by
  have hchar : StringChar (String.utf8EncodeChar '[') :=
    .char '[' (by decide) (by decide) (by decide)
  have hbytes : String.utf8EncodeChar '[' = [0x5B] := by decide
  rw [hbytes] at hchar
  exact ⟨[[0x5B]], by simpa using hchar, rfl⟩

/-- A bracket in a string counts for nothing: `["["]` passes a limit of one. -/
theorem depth_gate_quoted :
    let t : Bytes := [0x5B, 0x22, 0x5B, 0x22, 0x5D]
    let lim : Limits := ⟨64, 1, 1, 1⟩
    let loadb : Bytes → Option Mcp.Json := fun s => if s = t then some (.array [.string "["]) else none
    (scanDepth t 1 = Status.ok ↔ Value 1 t) ∧
      (¬ Value 1 t → scanDepth t 1 = Status.jsonDepth) ∧
      (scanDepth t 1 = Status.ok → ∀ v, loadb t = some v →
        enforceDepth lim v ≤ 2 ∧ (enforceLimits lim v = Status.ok ↔ Within lim v)) := by
  have hscalar : Scalar [0x22, 0x5B, 0x22] := Or.inr (Or.inl isString_bracket)
  have hvalue : Value 1 ((Hole.element []).text ++ ([0x22, 0x5B, 0x22] ++ [0x5D])) :=
    .array (List.forall_mem_nil _) (.scalar hscalar)
  have hmirrors : Mirrors ((Hole.element (List.map Prod.fst ([] : List (Bytes × Mcp.Json)))).text ++
      ([0x22, 0x5B, 0x22] ++ [0x5D])) (.array [.string "["]) :=
    .array (List.forall_mem_nil _) (.scalar hscalar id)
  intro t lim loadb
  refine depth_gate (t := t) ⟨1, hvalue⟩ lim fun s v hv => ?_
  unfold loadb at hv
  split_ifs at hv with hs
  obtain rfl := Option.some.inj hv
  rw [hs]
  exact hmirrors

end AsmFlow.Json
