import AsmFlow.Config.Fields
import AsmFlow.Http.Response
import AsmFlow.Json.Depth
import AsmFlow.Memory.Appends

/-!
# The sweep for plaintext credentials

`af_cfg_reject_plaintext` as it runs on the error it fills in: the pointer to the value it
is at is one buffer, to which every frame appends its segment and which it cuts back when
the value is clean. No text of the JSON library holds a zero byte.
-/

namespace AsmFlow.Config

open Json Http

/-- `CFGERR_POINTER_MAX` -/
def pointerMax : ℕ := 4096

/-- `af_cfg_error`. -/
structure CfgError where
  code : Status
  pointer : Buffer
  message : Buffer
  pointer_max : pointer.max = pointerMax

namespace CfgError

variable (alloc : ℕ → Bool)

/-- What `af_cfg_err_push_key` appends for a byte of the key. -/
def keyPiece (b : UInt8) : Bytes :=
  if b = 0x7E then [0x7E, 0x30]
  else if b = 0x2F then [0x7E, 0x31]
  else [b]

def push (err : CfgError) (pieces : List Bytes) : CfgError × Status :=
  ({ err with
      pointer := (err.pointer.appendAll alloc pieces).1
      pointer_max := by rw [Buffer.appendAll_max]; exact err.pointer_max },
    (err.pointer.appendAll alloc pieces).2)

/-- `af_cfg_err_push_key` -/
def pushKey (err : CfgError) (key : String) : CfgError × Status :=
  err.push alloc ([0x2F] :: (text key).map keyPiece)

/-- `af_cfg_err_push_index` -/
def pushIndex (err : CfgError) (i : ℕ) : CfgError × Status := err.push alloc [[0x2F], decimal i]

/-- `af_cfg_err_depth` -/
def depth (err : CfgError) : ℕ := err.pointer.len

/-- `af_cfg_err_truncate` -/
def truncate (err : CfgError) (length : ℕ) : CfgError × Status :=
  if err.depth < length then (err, .range)
  else ({ err with pointer := err.pointer.truncate length }, .ok)

/-- `af_cfg_err_fail` -/
def fail (err : CfgError) (code : Status) (message : String) : CfgError × Status :=
  if err.code ≠ .ok then (err, code)
  else ({ err with code := code, message := (err.message.append alloc (text message)).1 }, code)

mutual

/-- `af_cfg_reject_plaintext` -/
def rejectPlaintext (err : CfgError) : Mcp.Json → CfgError × Status
  | .array xs => rejectElements err.depth 0 err xs
  | .object members => rejectMembers err.depth err members
  | .null => (err, .ok)
  | .bool _ => (err, .ok)
  | .integer _ => (err, .ok)
  | .real _ => (err, .ok)
  | .string _ => (err, .ok)

/-- `.array_loop`, with the length of the pointer before the array. -/
def rejectElements (start i : ℕ) (err : CfgError) : List Mcp.Json → CfgError × Status
  | [] => (err, .ok)
  | x :: xs =>
    let r := rejectPlaintext (err.pushIndex alloc i).1 x
    if r.2 < 0 then r
    else rejectElements start (i + 1) (r.1.truncate start).1 xs

/-- `.object_loop`, with the length of the pointer before the object. -/
def rejectMembers (start : ℕ) (err : CfgError) : List (String × Mcp.Json) → CfgError × Status
  | [] => (err, .ok)
  | (key, x) :: members =>
    if keyIsCredential key then
      (((err.pushKey alloc key).1.fail alloc .cfgPlaintext
        "plaintext credentials are not accepted in configuration").1, .cfgPlaintext)
    else
      let r := rejectPlaintext (err.pushKey alloc key).1 x
      if r.2 < 0 then r
      else rejectMembers start (r.1.truncate start).1 members

end

end CfgError

/-! ## The keys of a value -/

mutual

/-- The keys of a value at any depth, in the order of the document, each with the segments
of its pointer. -/
def keysOf : Mcp.Json → List (List Seg × String)
  | .array xs => keysOfElements 0 xs
  | .object members => keysOfMembers members
  | .null => []
  | .bool _ => []
  | .integer _ => []
  | .real _ => []
  | .string _ => []

def keysOfElements (i : ℕ) : List Mcp.Json → List (List Seg × String)
  | [] => []
  | x :: xs => (keysOf x).map (fun k => (.index i :: k.1, k.2)) ++ keysOfElements (i + 1) xs

def keysOfMembers : List (String × Mcp.Json) → List (List Seg × String)
  | [] => []
  | (key, x) :: members =>
    ([.key key], key) :: (keysOf x).map (fun k => (.key key :: k.1, k.2)) ++ keysOfMembers members

end

/-- The key is a reserved name, but for the case of ASCII letters. -/
def IsCredential (key : String) : Prop :=
  key.toList.map Char.toLower ∈ plaintextKeys.map String.toList

instance (key : String) : Decidable (IsCredential key) := inferInstanceAs (Decidable (_ ∈ _))

/-- The first of these keys that is a credential. -/
abbrev credentialIn (keys : List (List Seg × String)) : Option (List Seg × String) :=
  keys.find? fun k => decide (IsCredential k.2)

/-- The escapes of a reference token. -/
def escapeChar : Char → List Char
  | '~' => ['~', '0']
  | '/' => ['~', '1']
  | c => [c]

/-- A reference token of a JSON pointer, with the slash before it. -/
def Seg.token : Seg → Bytes
  | .key name => utf8Text ('/' :: name.toList.flatMap escapeChar)
  | .index i => 0x2F :: decimal i

/-- The text of a JSON pointer. -/
def pointerText (pointer : List Seg) : Bytes := pointer.flatMap Seg.token

/-! ## Keys as bytes -/

/-- `af_cfg_ci_eq` folds a byte so. -/
def foldByte (b : UInt8) : UInt8 := if isUpper b then b + 32 else b

/-- Every byte of a character that is not ASCII is high. -/
theorem high_of_mem {c : Char} (h : ¬ c.val.toNat < 0x80) {b : UInt8}
    (hb : b ∈ String.utf8EncodeChar c) : 0x80 ≤ b.toNat := by
  rcases mem_utf8EncodeChar hb with hval | hhigh
  · rw [hval]
    exact not_lt.mp h
  · exact hhigh

theorem foldByte_high {b : UInt8} (h : 0x80 ≤ b.toNat) : foldByte b = b := by
  have hupper : isUpper b = false := by
    simp only [isUpper, Bool.and_eq_false_iff, decide_eq_false_iff_not, UInt8.le_iff_toNat_le]
    right
    simp
    omega
  simp [foldByte, hupper]

theorem foldByte_char (c : Char) :
    (String.utf8EncodeChar c).map foldByte = String.utf8EncodeChar c.toLower := by
  by_cases h : c.val.toNat < 0x80
  · have table : ∀ n : Fin 128, (String.utf8EncodeChar (Char.ofNat n)).map foldByte =
        String.utf8EncodeChar (Char.ofNat n).toLower := by
      decide
    have hc : c = Char.ofNat (⟨c.val.toNat, h⟩ : Fin 128) := by
      simp
    rw [hc]
    exact table _
  · have hlower : c.toLower = c := by
      unfold Char.toLower
      rw [dif_neg]
      rintro ⟨-, hz⟩
      apply h
      have : c.val.toNat ≤ 'Z'.val.toNat := UInt32.le_iff_toNat_le.mp hz
      exact lt_of_le_of_lt this (by decide)
    rw [hlower]
    conv_rhs => rw [← List.map_id (String.utf8EncodeChar c)]
    apply List.map_congr_left
    intro b hb
    exact foldByte_high (high_of_mem h hb)

theorem foldByte_text (key : String) :
    (text key).map foldByte = utf8Text (key.toList.map Char.toLower) := by
  simp only [text, utf8Text, List.map_flatMap, List.flatMap_map, foldByte_char]

/-- The comparison of the code tells the reserved names. -/
theorem keyIsCredential_iff (key : String) : keyIsCredential key = true ↔ IsCredential key := by
  have hname : ∀ name ∈ plaintextKeys, (text name).map foldByte = text name := by
    decide
  simp only [keyIsCredential, List.any_eq_true, IsCredential, List.mem_map]
  constructor
  · rintro ⟨name, hmem, hci⟩
    have heq : (text key).map foldByte = (text name).map foldByte := beq_iff_eq.mp hci
    rw [hname name hmem, foldByte_text] at heq
    exact ⟨name, hmem, (utf8Text_inj heq).symm⟩
  · rintro ⟨name, hmem, heq⟩
    refine ⟨name, hmem, ?_⟩
    apply beq_iff_eq.mpr
    change (text key).map foldByte = (text name).map foldByte
    rw [hname name hmem, foldByte_text, ← heq]
    rfl

theorem credentialIn_entered (seg : Seg) (keys later : List (List Seg × String)) :
    credentialIn (keys.map (fun k => (seg :: k.1, k.2)) ++ later) =
      ((credentialIn keys).map fun k => (seg :: k.1, k.2)).or (credentialIn later) := by
  rw [credentialIn, List.find?_append, List.find?_map]
  rfl

/-- A member whose key is no credential has only its value to search. -/
theorem credentialIn_member (key : String) (x : Mcp.Json) (members : List (String × Mcp.Json)) :
    credentialIn (keysOfMembers ((key, x) :: members)) =
      if keyIsCredential key then some ([.key key], key)
      else ((credentialIn (keysOf x)).map fun k => (.key key :: k.1, k.2)).or
        (credentialIn (keysOfMembers members)) := by
  rw [keysOfMembers, List.cons_append]
  split_ifs with hkey
  · exact List.find?_cons_of_pos (by simpa using (keyIsCredential_iff key).mp hkey)
  · rw [← credentialIn_entered]
    exact List.find?_cons_of_neg (by simpa using mt (keyIsCredential_iff key).mpr hkey)

/-! ## The pointer -/

theorem keyPiece_char (c : Char) :
    (String.utf8EncodeChar c).flatMap CfgError.keyPiece = utf8Text (escapeChar c) := by
  by_cases htilde : c = '~'
  · subst htilde
    decide
  · by_cases hslash : c = '/'
    · subst hslash
      decide
    · have hplain : ∀ b ∈ String.utf8EncodeChar c, CfgError.keyPiece b = [b] := by
        intro b hb
        have h1 := ascii_char hb '~' (by decide) htilde
        have h2 := ascii_char hb '/' (by decide) hslash
        have hne1 : b ≠ 0x7E := fun heq => h1 (by rw [heq]; rfl)
        have hne2 : b ≠ 0x2F := fun heq => h2 (by rw [heq]; rfl)
        simp [CfgError.keyPiece, hne1, hne2]
      have hescape : escapeChar c = [c] := by
        unfold escapeChar
        split
        · exact absurd rfl htilde
        · exact absurd rfl hslash
        · rfl
      rw [hescape, List.flatMap_congr hplain]
      simp [utf8Text]

theorem keyPieces_flatten (key : String) :
    ([0x2F] :: (text key).map CfgError.keyPiece).flatten = Seg.token (.key key) := by
  have hchars : (text key).flatMap CfgError.keyPiece =
      utf8Text (key.toList.flatMap escapeChar) := by
    simp only [text, utf8Text, List.flatMap_assoc, keyPiece_char]
  have hslash : String.utf8EncodeChar '/' = [0x2F] := by decide
  rw [List.flatten_cons, ← List.flatMap_def, hchars]
  simp [Seg.token, utf8Text, hslash]

example : pointerText [.key "a/b~", .index 10, .key "Token"] = ascii "/a~1b~0/10/Token" := by
  decide

namespace CfgError

variable {alloc : ℕ → Bool} {err : CfgError}

/-- More bytes of the pointer fit its buffer, and the allocator grants it what it asks for. -/
def Fits (alloc : ℕ → Bool) (err : CfgError) (n : ℕ) : Prop :=
  err.pointer.len + n ≤ pointerMax ∧ ∀ cap ≤ pointerMax, alloc cap = true

/-- The pointer grows, if only by a part of what is pushed. -/
theorem push_extends (pieces : List Bytes) :
    ∃ t, (err.push alloc pieces).1.pointer.data = err.pointer.data ++ t := by
  rcases err.pointer.appendAll_cases alloc pieces with ⟨-, h⟩ | ⟨-, qs, -, -, h⟩
  · exact ⟨_, h⟩
  · exact ⟨_, h⟩

theorem append_of_fits {p : Bytes} {b : Buffer} (hmax : b.max = pointerMax)
    (hfits : b.len + p.length ≤ pointerMax) (hgranted : ∀ cap ≤ pointerMax, alloc cap = true) :
    (b.append alloc p).2 = .ok := by
  rw [← hmax] at hfits hgranted
  obtain ⟨room, hroom⟩ := Buffer.reserve_of_granted (by rw [hmax]; decide) hfits hgranted
  simp [Buffer.append, hroom]

theorem appendAll_of_fits {pieces : List Bytes} {b : Buffer} (hmax : b.max = pointerMax)
    (hfits : b.len + pieces.flatten.length ≤ pointerMax)
    (hgranted : ∀ cap ≤ pointerMax, alloc cap = true) :
    (b.appendAll alloc pieces).1.data = b.data ++ pieces.flatten := by
  induction pieces generalizing b with
  | nil => simp
  | cons p ps ih =>
    simp only [List.flatten_cons, List.length_append] at hfits
    have hok := append_of_fits (b := b) (p := p) hmax (by omega) hgranted
    have hadded := Buffer.append_of_ok (hok ▸ (by decide : 0 ≤ Status.ok))
    rw [Buffer.appendAll]
    simp only [hok, show ¬ Status.ok < 0 by decide, if_false]
    rw [ih (hadded.2.trans hmax)]
    · rw [hadded.1]
      simp
    · simp only [Buffer.len, hadded.1, List.length_append] at hfits ⊢
      omega

theorem push_of_fits {pieces : List Bytes} (h : err.Fits alloc pieces.flatten.length) :
    (err.push alloc pieces).1.pointer.data = err.pointer.data ++ pieces.flatten :=
  appendAll_of_fits err.pointer_max h.1 h.2

theorem truncate_data {n : ℕ} {p t : Bytes} (h : err.pointer.data = p ++ t) (hn : n = p.length) :
    (err.truncate n).1.pointer.data = p := by
  have hle : ¬ err.depth < n := by
    simp [depth, Buffer.len, h, hn]
  rw [truncate, if_neg hle]
  simp [Buffer.truncate, h, hn]

@[simp] theorem fail_pointer (code : Status) (message : String) :
    (err.fail alloc code message).1.pointer = err.pointer := by
  unfold fail
  split_ifs <;> rfl

/-- What the sweep leaves, by the first credential it meets. -/
def Swept (alloc : ℕ → Bool) (err : CfgError) (r : CfgError × Status) :
    Option (List Seg × String) → Prop
  | none => r.2 = .ok ∧ r.1.pointer.data = err.pointer.data
  | some k => r.2 = .cfgPlaintext ∧
      (err.Fits alloc (pointerText k.1).length →
        r.1.pointer.data = err.pointer.data ++ pointerText k.1)

/-- A credential in a value that was entered is named behind the segment. -/
theorem Swept.inside {pieces : List Bytes} {seg : Seg} (hseg : pieces.flatten = seg.token)
    {r : CfgError × Status} {k : List Seg × String}
    (h : Swept alloc (err.push alloc pieces).1 r (some k)) :
    Swept alloc err r (some (seg :: k.1, k.2)) := by
  refine ⟨h.1, ?_⟩
  intro hfits
  have htext : pointerText (seg :: k.1) = pieces.flatten ++ pointerText k.1 := by
    rw [hseg]
    rfl
  simp only [htext] at hfits ⊢
  simp only [Fits, List.length_append] at hfits
  have hpushed : (err.push alloc pieces).1.pointer.data = err.pointer.data ++ pieces.flatten :=
    push_of_fits ⟨by omega, hfits.2⟩
  rw [h.2, hpushed, List.append_assoc]
  refine ⟨?_, hfits.2⟩
  simp only [Buffer.len, hpushed, List.length_append] at hfits ⊢
  omega

/-- A clean value leaves the pointer that was there before it was entered. -/
theorem Swept.back {pieces : List Bytes} {r : CfgError × Status}
    (h : Swept alloc (err.push alloc pieces).1 r none) :
    (r.1.truncate err.depth).1.pointer.data = err.pointer.data := by
  obtain ⟨t, ht⟩ : ∃ t, (err.push alloc pieces).1.pointer.data = err.pointer.data ++ t :=
    push_extends pieces
  exact truncate_data (h.2.trans ht) rfl

/-- The sweep goes on behind a clean value as if it had not been entered. -/
theorem Swept.of_same {err' : CfgError} {r : CfgError × Status}
    {first : Option (List Seg × String)} (hdata : err'.pointer.data = err.pointer.data)
    (h : Swept alloc err' r first) : Swept alloc err r first := by
  cases first with
  | none => exact ⟨h.1, h.2.trans hdata⟩
  | some k =>
    refine ⟨h.1, ?_⟩
    intro hfits
    rw [h.2, hdata]
    simpa [Fits, Buffer.len, hdata] using hfits

/-- One frame of the sweep: it enters a value, and either the credential is in there or the
rest decides. -/
theorem Swept.enter {pieces : List Bytes} {seg : Seg} (hseg : pieces.flatten = seg.token)
    {r : CfgError × Status} (rest : CfgError → CfgError × Status)
    {inner later : Option (List Seg × String)}
    (hinner : Swept alloc (err.push alloc pieces).1 r inner)
    (hlater : ∀ e, e.pointer.data = err.pointer.data → Swept alloc e (rest e) later) :
    Swept alloc err (if r.2 < 0 then r else rest (r.1.truncate err.depth).1)
      ((inner.map fun k => (seg :: k.1, k.2)).or later) := by
  cases inner with
  | none =>
    rw [hinner.1, if_neg (by decide)]
    exact (hlater _ hinner.back).of_same hinner.back
  | some k =>
    rw [hinner.1, if_pos (by decide)]
    exact hinner.inside hseg

variable (alloc)

mutual

theorem rejectPlaintext_swept (err : CfgError) :
    ∀ v, Swept alloc err (err.rejectPlaintext alloc v) (credentialIn (keysOf v))
  | .array xs => rejectElements_swept err 0 xs
  | .object members => rejectMembers_swept err members
  | .null => ⟨rfl, rfl⟩
  | .bool _ => ⟨rfl, rfl⟩
  | .integer _ => ⟨rfl, rfl⟩
  | .real _ => ⟨rfl, rfl⟩
  | .string _ => ⟨rfl, rfl⟩

theorem rejectElements_swept (err : CfgError) (i : ℕ) :
    ∀ xs, Swept alloc err (err.rejectElements alloc err.depth i xs)
      (credentialIn (keysOfElements i xs))
  | [] => ⟨rfl, rfl⟩
  | x :: xs => by
    have hseg : [[0x2F], decimal i].flatten = Seg.token (.index i) := by
      simp [Seg.token]
    rw [keysOfElements, credentialIn_entered, rejectElements]
    apply Swept.enter hseg (fun e => e.rejectElements alloc err.depth (i + 1) xs)
      (rejectPlaintext_swept (err.pushIndex alloc i).1 x)
    intro e he
    have hdepth : err.depth = e.depth := by
      simp [depth, Buffer.len, he]
    rw [hdepth]
    exact rejectElements_swept e (i + 1) xs

theorem rejectMembers_swept (err : CfgError) :
    ∀ members, Swept alloc err (err.rejectMembers alloc err.depth members)
      (credentialIn (keysOfMembers members))
  | [] => ⟨rfl, rfl⟩
  | (key, x) :: members => by
    rw [credentialIn_member, rejectMembers]
    by_cases hkey : keyIsCredential key = true
    · rw [if_pos hkey, if_pos hkey]
      refine ⟨rfl, ?_⟩
      intro hfits
      have htext : pointerText [.key key] =
          ([0x2F] :: (text key).map CfgError.keyPiece).flatten := by
        rw [keyPieces_flatten]
        simp [pointerText]
      simp only [fail_pointer]
      rw [htext] at hfits ⊢
      exact push_of_fits hfits
    · rw [if_neg hkey, if_neg hkey]
      apply Swept.enter (keyPieces_flatten key)
        (fun e => e.rejectMembers alloc err.depth members)
        (rejectPlaintext_swept (err.pushKey alloc key).1 x)
      intro e he
      have hdepth : err.depth = e.depth := by
        simp [depth, Buffer.len, he]
      rw [hdepth]
      exact rejectMembers_swept e members

end

/-- The sweep fails when some key at any depth is a credential, the pointer then names the
first one, and a sweep that does not fail leaves the pointer as it was. -/
theorem rejectPlaintext_first (err : CfgError) (v : Mcp.Json) :
    ((err.rejectPlaintext alloc v).2 < 0 ↔ ∃ k ∈ keysOf v, IsCredential k.2) ∧
    (∀ k, credentialIn (keysOf v) = some k → err.Fits alloc (pointerText k.1).length →
      (err.rejectPlaintext alloc v).1.pointer.data = err.pointer.data ++ pointerText k.1) ∧
    (0 ≤ (err.rejectPlaintext alloc v).2 →
      (err.rejectPlaintext alloc v).1.pointer.data = err.pointer.data) := by
  have h := rejectPlaintext_swept alloc err v
  cases hfirst : credentialIn (keysOf v) with
  | none =>
    rw [hfirst] at h
    have hclean : ¬ ∃ k ∈ keysOf v, IsCredential k.2 := by
      rintro ⟨k, hk, hcred⟩
      exact absurd hcred (by simpa using List.find?_eq_none.mp hfirst k hk)
    refine ⟨?_, by simp, fun _ => h.2⟩
    rw [h.1]
    exact iff_of_false (by decide) hclean
  | some k =>
    rw [hfirst] at h
    have hcred : IsCredential k.2 := by
      simpa using List.find?_some hfirst
    refine ⟨?_, ?_, ?_⟩
    · rw [h.1]
      exact iff_of_true (by decide) ⟨k, List.mem_of_find?_eq_some hfirst, hcred⟩
    · intro k' hk'
      rw [← Option.some.inj hk']
      exact h.2
    · intro hok
      rw [h.1] at hok
      exact absurd hok (by decide)

end CfgError

/-! ## The sweep of the loader -/

theorem cfgPlaintext_neg : Status.cfgPlaintext < 0 := by decide

/-- What the loader reports, by the first credential. -/
def reported : Option (List Seg × String) → Except Fail Unit
  | none => .ok ()
  | some k => .error ⟨k.1, .cfgPlaintext,
      some "plaintext credentials are not accepted in configuration", cfgPlaintext_neg⟩

theorem reported_enter (seg : Seg) (inner later : Option (List Seg × String)) :
    reported ((inner.map fun k => (seg :: k.1, k.2)).or later) =
      match under seg (reported inner) with
      | .error f => .error f
      | .ok () => reported later := by
  cases inner <;> rfl

mutual

/-- The failure that the loader passes on names the same key. -/
theorem rejectPlaintext_eq : ∀ v, rejectPlaintext v = reported (credentialIn (keysOf v))
  | .array xs => rejectElements_eq 0 xs
  | .object members => rejectMembers_eq members
  | .null => rfl
  | .bool _ => rfl
  | .integer _ => rfl
  | .real _ => rfl
  | .string _ => rfl

theorem rejectElements_eq (i : ℕ) :
    ∀ xs, rejectElements i xs = reported (credentialIn (keysOfElements i xs))
  | [] => rfl
  | x :: xs => by
    rw [keysOfElements, credentialIn_entered, rejectElements, rejectPlaintext_eq x,
      rejectElements_eq (i + 1) xs]
    exact (reported_enter _ _ _).symm

theorem rejectMembers_eq :
    ∀ members, rejectMembers members = reported (credentialIn (keysOfMembers members))
  | [] => rfl
  | (key, x) :: members => by
    rw [credentialIn_member, rejectMembers]
    by_cases hkey : keyIsCredential key = true
    · rw [if_pos hkey, if_pos hkey]
      rfl
    · rw [if_neg hkey, if_neg hkey, rejectPlaintext_eq x, rejectMembers_eq members]
      exact (reported_enter _ _ _).symm

end

end AsmFlow.Config
