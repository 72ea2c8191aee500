import AsmFlow.Http.Credentials

/-!
# The framing policy as a grammar

The value-complete callback judges one header at a time against flags the ones
before it have set. Folded over a header section it decides a grammar: at most
one header says how the body is framed, and says it in the one accepted way, at
most one is the credential, and what is kept fits its buffers. The first header
that leaves the grammar determines the fault.
-/

namespace AsmFlow.Http

variable {O : Type}

/-- A header: its name and its value. -/
abbrev Field := Bytes × Bytes

def Field.isLength (f : Field) : Bool := isCi f.1 (ascii "content-length")

def Field.isCoding (f : Field) : Bool := isCi f.1 (ascii "transfer-encoding")

def Field.isType (f : Field) : Bool := isCi f.1 (ascii "content-type")

/-- The header says how the body is framed. -/
def Field.frames (f : Field) : Bool := f.isLength || f.isCoding

/-- The number a string of digits spells. -/
def digitsValue (b : Bytes) : ℕ := b.foldl (fun v c => 10 * v + (c.toNat - 48)) 0

/-- A decimal number: digits, at least one. -/
def IsDecimal (b : Bytes) : Prop := b ≠ [] ∧ ∀ c ∈ b, 48 ≤ c ∧ c ≤ 57

instance (b : Bytes) : Decidable (IsDecimal b) := inferInstanceAs (Decidable (_ ∧ _))

namespace Server

variable (s : Server O)

/-- The header is the one the credential policy names, and not one judged for something else. -/
def isKept (f : Field) : Bool := !f.frames && !f.isType && s.isCredential f.1

/-- The callback on one header after the other, up to the first that stops the parse. -/
def judge : Conn O → List Field → Conn O × Option Hpe
  | c, [] => (c, none)
  | c, f :: fs =>
    match s.onHeaderValueComplete { c with name := f.1, value := f.2 } with
    | (c, none) => judge c fs
    | (c, some e) => (c, some e)

/-- The header sections the policy accepts. -/
structure Grammar (fs : List Field) : Prop where
  framed : (fs.filter Field.frames).length ≤ 1
  coding : ∀ f ∈ fs, f.isCoding = true → isCi f.2 (ascii "chunked") = true
  length : ∀ f ∈ fs, f.isLength = true →
    IsDecimal f.2 ∧ digitsValue f.2 < 2 ^ 64 ∧ f.2.length ≤ 20
  types : ((fs.filter Field.isType).flatMap Prod.snd).length ≤ valueMax
  kept : (fs.filter s.isKept).length ≤ 1
  keptFits : ∀ f ∈ fs, s.isKept f = true → f.2.length ≤ valueMax

/-- The fault of a header that leaves the grammar, behind `pre`: only a value too long for its
buffer is a matter of size. -/
def faultOfField (pre : List Field) (f : Field) : ErrorId :=
  if f.frames then .smuggling
  else if f.isType then .headersTooLarge
  else if (pre.filter s.isKept).length = 0 then .headersTooLarge
  else .smuggling

/-- A message whose target is read, before its first header. -/
def begun (c : Conn O) (target : Bytes) : Conn O := { c.resetMessage with target := target }

/-- What the flags and buffers of a connection know of the headers so far. -/
structure Judged (c : Conn O) (fs : List Field) : Prop where
  length : c.haveCl = (fs.filter Field.isLength != [])
  coding : c.haveTe = (fs.filter Field.isCoding != [])
  types : c.ctype = (fs.filter Field.isType).flatMap Prod.snd
  kept : c.haveAuth = (fs.filter s.isKept != [])
  auth : fs.filter s.isKept = [] → c.auth = []
  fault : c.fault = none

section Digits

theorem foldl_digits_le (b : Bytes) (v : ℕ) :
    v ≤ b.foldl (fun v c => 10 * v + (c.toNat - 48)) v := by
  induction b generalizing v with
  | nil => exact le_rfl
  | cons c b ih =>
    have hstep : v ≤ 10 * v + (c.toNat - 48) := by omega
    exact hstep.trans (ih _)

theorem foldl_none (b : Bytes) :
    b.foldl (fun acc c => acc.bind fun v =>
      if 48 ≤ c ∧ c ≤ 57 ∧ 10 * v + (c.toNat - 48) < 2 ^ 64 then
        some (10 * v + (c.toNat - 48)) else none) (none : Option ℕ) = none := by
  induction b with
  | nil => rfl
  | cons c b ih => exact ih

/-- No digit is refused for its size alone: the number only grows. -/
theorem foldl_parse_iff (b : Bytes) {v : ℕ} (n : ℕ) (hv : v < 2 ^ 64) :
    b.foldl (fun acc c => acc.bind fun v =>
      if 48 ≤ c ∧ c ≤ 57 ∧ 10 * v + (c.toNat - 48) < 2 ^ 64 then
        some (10 * v + (c.toNat - 48)) else none) (some v) = some n ↔
      (∀ c ∈ b, 48 ≤ c ∧ c ≤ 57) ∧ n < 2 ^ 64 ∧
        b.foldl (fun v c => 10 * v + (c.toNat - 48)) v = n := by
  induction b generalizing v with
  | nil =>
    simp only [List.foldl_nil, Option.some.injEq, List.not_mem_nil, false_implies, implies_true,
      true_and]
    constructor
    · rintro rfl
      exact ⟨hv, rfl⟩
    · exact fun h => h.2
  | cons c b ih =>
    rw [List.foldl_cons, List.foldl_cons, Option.bind_some]
    by_cases hgo : 48 ≤ c ∧ c ≤ 57 ∧ 10 * v + (c.toNat - 48) < 2 ^ 64
    · rw [if_pos hgo, ih hgo.2.2, List.forall_mem_cons]
      simp [hgo.1, hgo.2.1]
    · rw [if_neg hgo, foldl_none]
      simp only [reduceCtorEq, false_iff, not_and, List.forall_mem_cons]
      rintro ⟨hdigit, -⟩ hn heq
      have hgrows := foldl_digits_le b (10 * v + (c.toNat - 48))
      exact hgo ⟨hdigit.1, hdigit.2, by omega⟩

/-- The strict reading of a length accepts the decimal numbers of at most twenty digits that fit
the word, as what they spell. -/
theorem parseU64_eq_some_iff (b : Bytes) (n : ℕ) :
    parseU64 b = some n ↔ IsDecimal b ∧ b.length ≤ 20 ∧ digitsValue b = n ∧ n < 2 ^ 64 := by
  unfold parseU64 IsDecimal digitsValue
  by_cases hshape : b = [] ∨ 20 < b.length
  · rw [if_pos hshape]
    simp only [reduceCtorEq, false_iff, not_and]
    rintro ⟨hne, -⟩ hlen
    rcases hshape with hnil | hlong
    · exact absurd hnil hne
    · omega
  · rw [if_neg hshape, foldl_parse_iff b n (by decide)]
    obtain ⟨hne, hlen⟩ := not_or.mp hshape
    constructor
    · rintro ⟨hdigits, hn, heq⟩
      exact ⟨⟨hne, hdigits⟩, not_lt.mp hlen, heq, hn⟩
    · rintro ⟨⟨-, hdigits⟩, -, heq, hn⟩
      exact ⟨hdigits, hn, heq⟩

end Digits

section Names

variable {f : Field}

theorem isLength_length (h : f.isLength = true) : f.1.length = 14 := isCi_length h

theorem isCoding_length (h : f.isCoding = true) : f.1.length = 17 := isCi_length h

theorem isType_length (h : f.isType = true) : f.1.length = 12 := isCi_length h

/-- A header has one of the names at most. -/
theorem isCoding_of_isLength (h : f.isLength = true) : f.isCoding = false := by
  by_contra hcoding
  have h14 := isLength_length h
  have h17 := isCoding_length (by simpa using hcoding)
  omega

theorem isType_of_frames (h : f.frames = true) : f.isType = false := by
  by_contra htype
  have h12 := isType_length (by simpa using htype)
  rcases (Bool.or_eq_true _ _).mp h with hlength | hcoding
  · have h14 := isLength_length hlength
    omega
  · have h17 := isCoding_length hcoding
    omega

theorem isKept_of_frames (s : Server O) (h : f.frames = true) : s.isKept f = false := by
  simp [isKept, h]

theorem isKept_of_isType (s : Server O) (h : f.isType = true) : s.isKept f = false := by
  simp [isKept, h]

end Names

variable {s} {c : Conn O} {pre : List Field} {f : Field}

theorem filter_concat (p : Field → Bool) (pre : List Field) (f : Field) :
    (pre ++ [f]).filter p = if p f then pre.filter p ++ [f] else pre.filter p := by
  cases hf : p f with
  | true => simp [hf]
  | false => simp [hf]

theorem filter_frames_eq_nil (pre : List Field) :
    pre.filter Field.frames = [] ↔
      pre.filter Field.isLength = [] ∧ pre.filter Field.isCoding = [] := by
  simp only [List.filter_eq_nil_iff, Field.frames, Bool.or_eq_true, not_or]
  exact ⟨fun h => ⟨fun g hg => (h g hg).1, fun g hg => (h g hg).2⟩,
    fun h g hg => ⟨h.1 g hg, h.2 g hg⟩⟩

/-- A section that leaves the grammar does not come back to it. -/
theorem Grammar.of_append {fs gs : List Field} (h : s.Grammar (fs ++ gs)) : s.Grammar fs where
  framed := by
    have hall := h.framed
    rw [List.filter_append, List.length_append] at hall
    omega
  coding := fun g hg => h.coding g (List.mem_append_left _ hg)
  length := fun g hg => h.length g (List.mem_append_left _ hg)
  types := by
    have hall := h.types
    rw [List.filter_append, List.flatMap_append, List.length_append] at hall
    omega
  kept := by
    have hall := h.kept
    rw [List.filter_append, List.length_append] at hall
    omega
  keptFits := fun g hg => h.keptFits g (List.mem_append_left _ hg)

/-- What one more header has to meet. -/
structure Continues (s : Server O) (pre : List Field) (f : Field) : Prop where
  framed : f.frames = true → pre.filter Field.frames = []
  coding : f.isCoding = true → isCi f.2 (ascii "chunked") = true
  length : f.isLength = true → IsDecimal f.2 ∧ digitsValue f.2 < 2 ^ 64 ∧ f.2.length ≤ 20
  types : f.isType = true →
    ((pre.filter Field.isType).flatMap Prod.snd).length + f.2.length ≤ valueMax
  kept : s.isKept f = true → pre.filter s.isKept = []
  keptFits : s.isKept f = true → f.2.length ≤ valueMax

theorem length_concat_le_one {α : Type*} (xs : List α) (x : α) :
    (xs ++ [x]).length ≤ 1 ↔ xs = [] := by
  rw [List.length_append, List.length_singleton, ← List.length_eq_zero_iff]
  omega

theorem grammar_concat (hg : s.Grammar pre) : s.Grammar (pre ++ [f]) ↔ s.Continues pre f := by
  constructor
  · intro h
    refine ⟨fun hf => ?_, h.coding f (by simp), h.length f (by simp), fun hf => ?_, fun hf => ?_,
      h.keptFits f (by simp)⟩
    · have hall := h.framed
      rwa [filter_concat, if_pos hf, length_concat_le_one] at hall
    · have hall := h.types
      rw [filter_concat, if_pos hf, List.flatMap_append, List.length_append] at hall
      simpa using hall
    · have hall := h.kept
      rwa [filter_concat, if_pos hf, length_concat_le_one] at hall
  · intro h
    have heach {p : Field → Prop} (hpre : ∀ g ∈ pre, p g) (hf : p f) : ∀ g ∈ pre ++ [f], p g := by
      intro g hmem
      rcases List.mem_append.mp hmem with hmem | hmem
      · exact hpre g hmem
      · rw [List.mem_singleton.mp hmem]
        exact hf
    refine ⟨?_, heach hg.coding h.coding, heach hg.length h.length, ?_, ?_,
      heach hg.keptFits h.keptFits⟩
    · rw [filter_concat]
      split_ifs with hf
      · rw [length_concat_le_one]
        exact h.framed hf
      · exact hg.framed
    · rw [filter_concat]
      split_ifs with hf
      · rw [List.flatMap_append, List.length_append]
        simpa using h.types hf
      · exact hg.types
    · rw [filter_concat]
      split_ifs with hf
      · rw [length_concat_le_one]
        exact h.kept hf
      · exact hg.kept

/-- What the policy says to one header: it goes on, in the grammar, or stops at a fault. -/
def Decides (s : Server O) (pre : List Field) (f : Field) (r : Conn O × Option Hpe) : Prop :=
  (r.2 = none ∧ s.Continues pre f ∧ s.Judged r.1 (pre ++ [f])) ∨
    (r.2 = some .user ∧ ¬s.Continues pre f ∧ r.1.fault = some (s.faultOfField pre f))

theorem refuse_fault (hc : c.fault = none) (id : ErrorId) :
    (c.refuse id).2 = some .user ∧ (c.refuse id).1.fault = some id := by
  simp [Conn.refuse, Conn.setFault, hc]

/-- A header that was accepted, entered in the flags and buffers. -/
theorem Judged.concat {d : Conn O} (h : s.Judged c pre) (hcl : d.haveCl = (c.haveCl || f.isLength))
    (hte : d.haveTe = (c.haveTe || f.isCoding))
    (hctype : d.ctype = c.ctype ++ if f.isType then f.2 else [])
    (hauth : d.haveAuth = (c.haveAuth || s.isKept f))
    (hsame : s.isKept f = false → d.auth = c.auth) (hfault : d.fault = c.fault) :
    s.Judged d (pre ++ [f]) where
  length := by
    rw [hcl, h.length, filter_concat]
    cases f.isLength <;> simp
  coding := by
    rw [hte, h.coding, filter_concat]
    cases f.isCoding <;> simp
  types := by
    rw [hctype, h.types, filter_concat]
    cases f.isType <;> simp
  kept := by
    rw [hauth, h.kept, filter_concat]
    cases s.isKept f <;> simp
  auth := by
    intro hnone
    rw [filter_concat] at hnone
    cases hkept : s.isKept f with
    | true => simp [hkept] at hnone
    | false =>
      rw [hsame hkept]
      exact h.auth (by simpa [hkept] using hnone)
  fault := hfault.trans h.fault

/-- A header with no part in framing, type or credential is passed over. -/
theorem continues_of_other (hframes : f.frames = false) (htype : f.isType = false)
    (hkept : s.isKept f = false) : s.Continues pre f := by
  obtain ⟨hlength, hcoding⟩ := (Bool.or_eq_false_iff).mp hframes
  constructor
  · simp [hframes]
  · simp [hcoding]
  · simp [hlength]
  · simp [htype]
  · simp [hkept]
  · simp [hkept]

theorem onContentLength_decides (h : s.Judged c pre) (hf : f.isLength = true) :
    s.Decides pre f (onContentLength { c with name := f.1, value := f.2 }) := by
  have hcoding := isCoding_of_isLength hf
  have hframes : f.frames = true := by simp [Field.frames, hf]
  have htype := isType_of_frames hframes
  have hkept := isKept_of_frames s hframes
  have hfault : s.faultOfField pre f = .smuggling := by simp [faultOfField, hframes]
  have hrefused := refuse_fault (c := { c with name := f.1, value := f.2 }) h.fault .smuggling
  unfold onContentLength Decides
  rw [hfault]
  by_cases hearlier : (c.haveCl || c.haveTe) = true
  · rw [if_pos hearlier]
    refine Or.inr ⟨hrefused.1, fun hgo => ?_, hrefused.2⟩
    obtain ⟨hcl, hte⟩ := (filter_frames_eq_nil pre).mp (hgo.framed hframes)
    simp [h.length, h.coding, hcl, hte] at hearlier
  · rw [if_neg hearlier]
    simp only [Bool.or_eq_true, not_or, Bool.not_eq_true, h.length, h.coding, bne_eq_false_iff_eq]
      at hearlier
    cases hn : parseU64 f.2 with
    | none =>
      refine Or.inr ⟨hrefused.1, fun hgo => ?_, hrefused.2⟩
      obtain ⟨hdecimal, hvalue, hlen⟩ := hgo.length hf
      have hsome := (parseU64_eq_some_iff f.2 _).mpr ⟨hdecimal, hlen, rfl, hvalue⟩
      rw [hn] at hsome
      cases hsome
    | some n =>
      obtain ⟨hdecimal, hlen, heq, hlt⟩ := (parseU64_eq_some_iff f.2 n).mp hn
      refine Or.inl ⟨rfl, ⟨fun _ => ?_, ?_, fun _ => ⟨hdecimal, heq ▸ hlt, hlen⟩, ?_, ?_, ?_⟩, ?_⟩
      · exact (filter_frames_eq_nil pre).mpr hearlier
      · simp [hcoding]
      · simp [htype]
      · simp [hkept]
      · simp [hkept]
      · apply h.concat
        all_goals simp [hf, hcoding, htype, hkept]

theorem onTransferEncoding_decides (h : s.Judged c pre) (hlength : f.isLength = false)
    (hf : f.isCoding = true) :
    s.Decides pre f (onTransferEncoding { c with name := f.1, value := f.2 }) := by
  have hframes : f.frames = true := by simp [Field.frames, hf]
  have htype := isType_of_frames hframes
  have hkept := isKept_of_frames s hframes
  have hfault : s.faultOfField pre f = .smuggling := by simp [faultOfField, hframes]
  have hrefused := refuse_fault (c := { c with name := f.1, value := f.2 }) h.fault .smuggling
  unfold onTransferEncoding Decides
  rw [hfault]
  by_cases hearlier : (c.haveTe || c.haveCl) = true
  · rw [if_pos hearlier]
    refine Or.inr ⟨hrefused.1, fun hgo => ?_, hrefused.2⟩
    obtain ⟨hcl, hte⟩ := (filter_frames_eq_nil pre).mp (hgo.framed hframes)
    simp [h.length, h.coding, hcl, hte] at hearlier
  · rw [if_neg hearlier]
    simp only [Bool.or_eq_true, not_or, Bool.not_eq_true, h.length, h.coding, bne_eq_false_iff_eq]
      at hearlier
    by_cases hchunked : isCi f.2 (ascii "chunked") = true
    · rw [if_pos hchunked]
      refine Or.inl ⟨rfl, ⟨fun _ => ?_, fun _ => hchunked, ?_, ?_, ?_, ?_⟩, ?_⟩
      · exact (filter_frames_eq_nil pre).mpr hearlier.symm
      · simp [hlength]
      · simp [htype]
      · simp [hkept]
      · simp [hkept]
      · apply h.concat
        all_goals simp [hf, hlength, htype, hkept]
    · rw [if_neg hchunked]
      exact Or.inr ⟨hrefused.1, fun hgo => hchunked (hgo.coding hf), hrefused.2⟩

theorem onContentType_decides (h : s.Judged c pre) (hframes : f.frames = false)
    (hf : f.isType = true) :
    s.Decides pre f (onContentType { c with name := f.1, value := f.2 }) := by
  have hkept := isKept_of_isType s hf
  obtain ⟨hlength, hcoding⟩ := (Bool.or_eq_false_iff).mp hframes
  have hfault : s.faultOfField pre f = .headersTooLarge := by simp [faultOfField, hframes, hf]
  have hrefused := refuse_fault (c := { c with name := f.1, value := f.2 }) h.fault
    .headersTooLarge
  unfold onContentType Decides
  rw [hfault]
  cases hgrown : extend valueMax c.ctype f.2 with
  | none =>
    refine Or.inr ⟨hrefused.1, fun hgo => ?_, hrefused.2⟩
    have hfits := hgo.types hf
    rw [← h.types] at hfits
    simp [extend, hfits] at hgrown
  | some ctype =>
    have hfits : c.ctype.length + f.2.length ≤ valueMax := by
      by_contra hlong
      simp [extend, hlong] at hgrown
    rw [h.types] at hfits
    refine Or.inl ⟨rfl, ⟨?_, ?_, ?_, fun _ => hfits, ?_, ?_⟩, ?_⟩
    · simp [hframes]
    · simp [hcoding]
    · simp [hlength]
    · simp [hkept]
    · simp [hkept]
    · apply h.concat
      all_goals simp [hf, hlength, hcoding, hkept, extend_eq_some hgrown]

theorem onCredential_decides (h : s.Judged c pre) (hframes : f.frames = false)
    (htype : f.isType = false) (hf : s.isKept f = true) :
    s.Decides pre f (onCredential { c with name := f.1, value := f.2 }) := by
  obtain ⟨hlength, hcoding⟩ := (Bool.or_eq_false_iff).mp hframes
  unfold onCredential Decides
  by_cases hearlier : c.haveAuth = true
  · have hsome : pre.filter s.isKept ≠ [] := by
      rw [h.kept] at hearlier
      simpa using hearlier
    have hfault : s.faultOfField pre f = .smuggling := by
      unfold faultOfField
      rw [hframes, htype, if_neg Bool.false_ne_true, if_neg Bool.false_ne_true,
        if_neg fun hzero => hsome (List.length_eq_zero_iff.mp hzero)]
    have hrefused := refuse_fault (c := { c with name := f.1, value := f.2 }) h.fault .smuggling
    rw [if_pos hearlier, hfault]
    exact Or.inr ⟨hrefused.1, fun hgo => hsome (hgo.kept hf), hrefused.2⟩
  · have hnone : pre.filter s.isKept = [] := by
      rw [h.kept] at hearlier
      simpa using hearlier
    have hfault : s.faultOfField pre f = .headersTooLarge := by
      simp [faultOfField, hframes, htype, hnone]
    have hrefused := refuse_fault (c := { c with name := f.1, value := f.2 }) h.fault
      .headersTooLarge
    have hempty := h.auth hnone
    rw [if_neg hearlier, hfault]
    cases hgrown : extend valueMax c.auth f.2 with
    | none =>
      refine Or.inr ⟨hrefused.1, fun hgo => ?_, hrefused.2⟩
      have hfits := hgo.keptFits hf
      simp [extend, hempty, hfits] at hgrown
    | some auth =>
      have hfits : f.2.length ≤ valueMax := by
        by_contra hlong
        simp [extend, hempty, hlong] at hgrown
      refine Or.inl ⟨rfl, ⟨?_, ?_, ?_, ?_, fun _ => hnone, fun _ => hfits⟩, ?_⟩
      · simp [hframes]
      · simp [hcoding]
      · simp [hlength]
      · simp [htype]
      · apply h.concat
        all_goals simp [hf, hlength, hcoding, htype]

/-- One header is judged by the grammar. -/
theorem onHeaderValueComplete_decides (h : s.Judged c pre) (f : Field) :
    s.Decides pre f (s.onHeaderValueComplete { c with name := f.1, value := f.2 }) := by
  have hisKept (hframes : f.frames = false) (htype : f.isType = false) :
      s.isKept f = s.isCredential f.1 := by simp [isKept, hframes, htype]
  change s.Decides pre f (if f.isLength = true then _ else if f.isCoding = true then _
    else if f.isType = true then _ else if s.isCredential f.1 = true then _ else _)
  by_cases hlength : f.isLength = true
  · rw [if_pos hlength]
    exact onContentLength_decides h hlength
  by_cases hcoding : f.isCoding = true
  · rw [if_neg hlength, if_pos hcoding]
    exact onTransferEncoding_decides h (by simpa using hlength) hcoding
  have hframes : f.frames = false := by simp [Field.frames, hlength, hcoding]
  by_cases htype : f.isType = true
  · rw [if_neg hlength, if_neg hcoding, if_pos htype]
    exact onContentType_decides h hframes htype
  rw [if_neg hlength, if_neg hcoding, if_neg htype]
  have hkept := hisKept hframes (by simpa using htype)
  by_cases hcredential : s.isCredential f.1 = true
  · rw [if_pos hcredential]
    exact onCredential_decides h hframes (by simpa using htype) (hkept.trans hcredential)
  · rw [if_neg hcredential]
    have hother : s.isKept f = false := by simpa [hkept] using hcredential
    refine Or.inl ⟨rfl, continues_of_other hframes (by simpa using htype) hother, ?_⟩
    apply h.concat
    all_goals simp_all

/-- **The policy accepts a header section exactly if it is in the grammar; otherwise the first
header that leaves it determines the fault.** -/
theorem judge_spec (h : s.Judged c pre) (hg : s.Grammar pre) (fs : List Field) :
    ((s.judge c fs).2 = none ↔ s.Grammar (pre ++ fs)) ∧
      (¬s.Grammar (pre ++ fs) → ∃ mid f post, fs = mid ++ f :: post ∧ s.Grammar (pre ++ mid) ∧
        ¬s.Grammar (pre ++ mid ++ [f]) ∧ (s.judge c fs).2 = some .user ∧
        (s.judge c fs).1.fault = some (s.faultOfField (pre ++ mid) f)) := by
  induction fs generalizing c pre with
  | nil => simp [judge, hg]
  | cons f fs ih =>
    rw [judge]
    rcases onHeaderValueComplete_decides h f with ⟨hgo, hcontinues, hnext⟩ |
      ⟨hstop, hleaves, hfault⟩
    · have hg' := (grammar_concat hg).mpr hcontinues
      generalize s.onHeaderValueComplete { c with name := f.1, value := f.2 } = r at hgo hnext
      obtain ⟨d, e⟩ := r
      dsimp only at hgo hnext ⊢
      subst hgo
      obtain ⟨hiff, hfirst⟩ := ih hnext hg'
      rw [List.append_assoc, List.singleton_append] at hiff hfirst
      refine ⟨hiff, fun hbad => ?_⟩
      obtain ⟨mid, g, post, rfl, hmid, hout, hrest⟩ := hfirst hbad
      refine ⟨f :: mid, g, post, rfl, ?_⟩
      rw [List.append_cons]
      exact ⟨hmid, hout, hrest⟩
    · have hout := (grammar_concat hg).not.mpr hleaves
      generalize s.onHeaderValueComplete { c with name := f.1, value := f.2 } = r at hstop hfault
      obtain ⟨d, e⟩ := r
      dsimp only at hstop hfault ⊢
      subst hstop
      have hbad : ¬s.Grammar (pre ++ f :: fs) := by
        intro hall
        rw [List.append_cons] at hall
        exact hout hall.of_append
      refine ⟨iff_of_false (by simp) hbad, fun _ => ⟨[], f, fs, rfl, ?_⟩⟩
      simpa using ⟨hg, hout, hfault⟩

theorem begun_judged (s : Server O) (c : Conn O) (target : Bytes) : s.Judged (begun c target) [] where
  length := rfl
  coding := rfl
  types := rfl
  kept := rfl
  auth := fun _ => rfl
  fault := rfl

theorem grammar_nil (s : Server O) : s.Grammar [] := by
  constructor <;> simp

/-- **The framing policy decides its grammar, and the first header outside it determines the
fault.** -/
theorem policy_decides (s : Server O) (c : Conn O) (target : Bytes) (fs : List Field) :
    ((s.judge (begun c target) fs).2 = none ↔ s.Grammar fs) ∧
      (¬s.Grammar fs → ∃ pre f post, fs = pre ++ f :: post ∧ s.Grammar pre ∧
        ¬s.Grammar (pre ++ [f]) ∧ (s.judge (begun c target) fs).2 = some .user ∧
        (s.judge (begun c target) fs).1.fault = some (s.faultOfField pre f)) :=
  judge_spec (begun_judged s c target) (grammar_nil s) fs

/-- The grammar without what the buffers and the table of names add to it. -/
structure PlainGrammar (s : Server O) (fs : List Field) : Prop where
  framed : (fs.filter Field.frames).length ≤ 1
  coding : ∀ f ∈ fs, f.isCoding = true → isCi f.2 (ascii "chunked") = true
  length : ∀ f ∈ fs, f.isLength = true → IsDecimal f.2 ∧ digitsValue f.2 < 2 ^ 64
  credential : (fs.filter fun f => s.isCredential f.1).length ≤ 1

/-- A length of 1 in twenty-one digits. -/
def paddedLength : List Field := [(ascii "Content-Length", List.replicate 20 48 ++ [49])]

/-- Two media types that fill the buffer for one and a byte. -/
def longTypes (n : ℕ) : List Field :=
  [(ascii "Content-Type", [97]), (ascii "Content-Type", List.replicate n 98)]

theorem longTypes_plain (n : ℕ) : guarded.PlainGrammar (longTypes n) := by
  have hlength : isCi (ascii "Content-Type") (ascii "content-length") = false := by decide
  have hcoding : isCi (ascii "Content-Type") (ascii "transfer-encoding") = false := by
    decide
  have hcredential : guarded.isCredential (ascii "Content-Type") = false := by decide
  constructor
  · simp [longTypes, Field.frames, Field.isLength, Field.isCoding, hlength, hcoding]
  · simp [longTypes, Field.isCoding, hcoding]
  · simp [longTypes, Field.isLength, hlength]
  · simp [longTypes, hcredential]

theorem longTypes_refused {n : ℕ} (h : valueMax ≤ n) : ¬guarded.Grammar (longTypes n) := by
  intro hg
  have htype : isCi (ascii "Content-Type") (ascii "content-type") = true := by decide
  have hfits := hg.types
  simp [longTypes, Field.isType, htype] at hfits
  omega

/-- A policy that takes the media type for the credential. -/
def typeGuarded : Server (List Reply) := { guarded with authHeader := some (ascii "Content-Type") }

/-- Twenty digits are read, the media types of a message share one buffer, and a name judged for
framing or type is not judged as a credential. -/
theorem plainGrammar_not_decided :
    ¬((guarded.judge (begun (Conn.fresh []) []) paddedLength).2 = none ↔
        guarded.PlainGrammar paddedLength) ∧
      ¬((guarded.judge (begun (Conn.fresh []) []) (longTypes 8192)).2 = none ↔
        guarded.PlainGrammar (longTypes 8192)) ∧
      ¬((typeGuarded.judge (begun (Conn.fresh []) []) (longTypes 1)).2 = none ↔
        typeGuarded.PlainGrammar (longTypes 1)) := by
  refine ⟨fun h => ?_, fun h => ?_, fun h => ?_⟩
  · have hplain : guarded.PlainGrammar paddedLength :=
      ⟨by decide +kernel, by decide +kernel, by decide +kernel, by decide +kernel⟩
    exact absurd (h.mpr hplain) (by decide)
  · have haccepted := h.mpr (longTypes_plain 8192)
    rw [(judge_spec (begun_judged guarded _ _) (grammar_nil guarded) _).1] at haccepted
    exact longTypes_refused le_rfl haccepted
  · have hplain := h.mp (by decide)
    exact absurd hplain.credential (by decide)

end Server
end AsmFlow.Http
