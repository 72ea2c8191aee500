import AsmFlow.Config.Url
import AsmFlow.Library.Uri
import AsmFlow.Memory.Appends

/-!
# Where a request is sent

`af_prov_build_url` appends the path of an endpoint family to a base URL that
`af_cfg_url_check` has accepted. The text is appended at its end, behind a query too.
-/

namespace AsmFlow.Providers

open Config Http
open Library

/-- `AF_PROV_FAMILY_*`. -/
inductive Family
  | responses
  | chat
  deriving DecidableEq, Repr

/-- `family_suffix` -/
def familySuffix : Family → Bytes
  | .responses => ascii "/responses"
  | .chat => ascii "/chat/completions"

/-- Without one slash at the end. -/
def dropSlash (s : Bytes) : Bytes := if s.getLast? = some 47 then s.dropLast else s

/-- `af_prov_build_url`: the URL and its NUL in the cleared buffer. -/
def buildUrl (alloc : ℕ → Bool) (out : Buffer) (baseUrl : Option Bytes) (family : Family) :
    Buffer × Status :=
  match baseUrl with
  | none => (out.clear, .invalid)
  | some base =>
    if base = [] then (out.clear, .invalid)
    else if dropSlash base = [] then (out.clear, .invalid)
    else out.clear.appendAll alloc [dropSlash base, familySuffix family, [0]]

/-- A URL has the scheme, the authority and the query of a base, and its path before that of an
endpoint family. -/
def StaysOn (base url : Bytes) (family : Family) : Prop :=
  (Uri.parse url).scheme = (Uri.parse base).scheme ∧
    (Uri.parse url).authority = (Uri.parse base).authority ∧
    (Uri.parse url).path = dropSlash (Uri.parse base).path ++ familySuffix family ∧
    (Uri.parse url).query = (Uri.parse base).query

instance (base url : Bytes) (family : Family) : Decidable (StaysOn base url family) :=
  inferInstanceAs (Decidable (_ ∧ _))

/-! ## The text -/

theorem dropSlash_append {s t : Bytes} (h : t ≠ []) : dropSlash (s ++ t) = s ++ dropSlash t := by
  unfold dropSlash
  rw [List.getLast?_append_of_ne_nil s h]
  split_ifs
  · rw [List.dropLast_append_of_ne_nil h]
  · rfl

theorem dropSlash_of_notMem {s : Bytes} (h : 47 ∉ s) : dropSlash s = s := by
  unfold dropSlash
  rw [if_neg]
  intro hlast
  exact h (List.mem_of_getLast? hlast)

theorem dropSlash_length (s : Bytes) : s.length ≤ (dropSlash s).length + 1 := by
  unfold dropSlash
  split_ifs
  · rw [List.length_dropLast]
    omega
  · omega

theorem mem_of_mem_dropSlash {s : Bytes} {b : UInt8} (h : b ∈ dropSlash s) : b ∈ s := by
  unfold dropSlash at h
  split_ifs at h
  · exact List.mem_of_mem_dropLast h
  · exact h

theorem dropSlash_rooted {s : Bytes} (h : s = [] ∨ ∃ rest, s = 47 :: rest) :
    dropSlash s = [] ∨ ∃ rest, dropSlash s = 47 :: rest := by
  rcases h with rfl | ⟨rest, rfl⟩
  · exact Or.inl rfl
  · by_cases hnil : rest = []
    · subst hnil
      exact Or.inl rfl
    · exact Or.inr ⟨dropSlash rest, dropSlash_append (s := [47]) hnil⟩

/-- What was built, up to its NUL. -/
theorem buildUrl_text {alloc : ℕ → Bool} {out : Buffer} {base : Bytes} {family : Family}
    (h : (buildUrl alloc out (some base) family).2 = .ok) :
    (buildUrl alloc out (some base) family).1.data =
      dropSlash base ++ familySuffix family ++ [0] := by
  unfold buildUrl at h ⊢
  dsimp only at h ⊢
  by_cases hbase : base = []
  · rw [if_pos hbase] at h
    cases h
  by_cases hdrop : dropSlash base = []
  · rw [if_neg hbase, if_pos hdrop] at h
    cases h
  rw [if_neg hbase, if_neg hdrop] at h ⊢
  rcases Buffer.appendAll_cases alloc out.clear [dropSlash base, familySuffix family, [0]] with
    ⟨-, hdata⟩ | ⟨hneg, -⟩
  · rw [hdata]
    simp [Buffer.clear]
  · rw [h] at hneg
    exact absurd hneg (by decide : ¬ Status.ok < 0)

/-- The bytes before the first NUL. -/
def cString (s : Bytes) : Bytes := s.takeWhile (· != 0)

theorem cString_append {s : Bytes} (h : ∀ b ∈ s, b ≠ 0) : cString (s ++ [0]) = s := by
  unfold cString
  rw [List.takeWhile_append_of_pos (by simpa using h)]
  simp

/-! ## The parts -/

theorem dropSlash_cons {b : UInt8} (hb : b ≠ 47) (s : Bytes) :
    dropSlash (b :: s) = b :: dropSlash s := by
  by_cases hnil : s = []
  · subst hnil
    exact dropSlash_of_notMem (by simpa using hb.symm)
  · exact dropSlash_append (s := [b]) hnil

/-- A path and a query behind an authority. -/
theorem split_query {rest : Bytes} (hhead : rest = [] ∨ ∃ b bs, rest = b :: bs ∧ (b = 47 ∨ b = 63))
    (hclean : ∀ b ∈ rest, b ≠ 35) :
    ∃ path query, rest = path ++ Uri.Url.queryText query ∧ Uri.Free [63, 35] path ∧
      (path = [] ∨ ∃ tail, path = 47 :: tail) ∧ (∀ q, query = some q → Uri.Free [35] q) ∧
      (query = none ↔ 63 ∉ rest) := by
  by_cases hmark : 63 ∈ rest
  · obtain ⟨path, q, rfl, hfirst⟩ := List.eq_append_cons_of_mem hmark
    refine ⟨path, some q, rfl, ?_, ?_, ?_, by simp⟩
    · intro b hb hstop
      rcases List.mem_pair.mp hstop with rfl | rfl
      · exact hfirst hb
      · exact hclean 35 (List.mem_append_left _ hb) rfl
    · cases path with
      | nil => exact Or.inl rfl
      | cons b bs =>
        obtain ⟨b', bs', heq, hb⟩ := hhead.resolve_left (by simp)
        obtain ⟨rfl, -⟩ := List.cons.inj heq
        rcases hb with rfl | rfl
        · exact Or.inr ⟨bs, rfl⟩
        · exact absurd List.mem_cons_self hfirst
    · rintro q' hq b hb hstop
      obtain rfl := Option.some.inj hq
      rw [List.mem_singleton.mp hstop] at hb
      exact hclean 35 (List.mem_append_right _ (List.mem_cons_of_mem 63 hb)) rfl
  · refine ⟨rest, none, by simp [Uri.Url.queryText], ?_, ?_, by simp, by simpa using hmark⟩
    · intro b hb hstop
      rcases List.mem_pair.mp hstop with rfl | rfl
      · exact hmark hb
      · exact hclean 35 hb rfl
    · rcases hhead with rfl | ⟨b, bs, rfl, rfl | rfl⟩
      · exact Or.inl rfl
      · exact Or.inr ⟨bs, rfl⟩
      · exact absurd List.mem_cons_self hmark

/-- An accepted base is a URL with a name in its authority. -/
theorem url_of_urlCheck {p : InetPton} {allowLocal : Bool} {base : Bytes}
    (h : ∃ b, urlCheck p base allowLocal = .ok b) :
    ∃ u : Uri.Url, u.text = base ∧ u.authority ≠ [] ∧ (u.query = none ↔ 63 ∉ base) := by
  obtain ⟨hprint, scheme, authority, ⟨rest, heq, hends, hhead⟩, -, hhost, -⟩ :=
    urlCheck_accepts_iff.mp h
  have hrest : ∀ b ∈ rest, b ≠ 35 := by
    intro b hb
    exact (hprint b (by rw [heq]; simp [hb])).2.2
  obtain ⟨path, query, rfl, hpath, hroot, hquery, hnone⟩ := split_query hhead hrest
  have hfree : Uri.Free [47, 63, 35] authority := by
    intro b hb hstop
    have hends := hends b hb
    have hhash := (hprint b (by rw [heq]; simp [hb])).2.2
    simp only [List.mem_cons, List.not_mem_nil, or_false] at hstop
    tauto
  have hname : ∃ name, scheme.text = name ++ [58, 47, 47] ∧ name ≠ [] ∧
      Uri.Free [58, 47, 63, 35] name ∧ 63 ∉ scheme.text := by
    cases scheme with
    | http =>
      refine ⟨ascii "http", rfl, by decide, ?_, by decide⟩
      unfold Uri.Free
      decide +kernel
    | https =>
      refine ⟨ascii "https", rfl, by decide, ?_, by decide⟩
      unfold Uri.Free
      decide +kernel
  obtain ⟨name, htext, hne, hfreeName, hmark⟩ := hname
  refine ⟨⟨name, authority, path, query, hne, hfreeName, hfree, hpath, hroot, hquery⟩, ?_, ?_, ?_⟩
  · rw [heq, htext]
    simp [Uri.Url.text]
  · rintro rfl
    exact hhost (Or.inl rfl)
  · dsimp only
    rw [hnone, heq]
    have hclean : 63 ∉ authority := fun hmem => (hends 63 hmem).2 rfl
    simp only [List.mem_append, not_or] at hmark ⊢
    tauto

theorem familySuffix_free (family : Family) :
    Uri.Free [63, 35] (familySuffix family) ∧ (∃ rest, familySuffix family = 47 :: rest) ∧
      (∀ b ∈ familySuffix family, b ≠ 0) ∧ 1 < (familySuffix family).length := by
  have hfree : Uri.Free [63, 35] (familySuffix family) := by
    unfold Uri.Free
    cases family <;> decide +kernel
  refine ⟨hfree, ?_⟩
  cases family with
  | responses => exact ⟨⟨_, rfl⟩, by decide +kernel, by decide +kernel⟩
  | chat => exact ⟨⟨_, rfl⟩, by decide +kernel, by decide +kernel⟩

section Base

variable (u : Uri.Url) (family : Family)

/-- A base loses its slash at the end of its path or of its query. -/
theorem dropSlash_text (h : u.authority ≠ []) :
    dropSlash u.text = u.scheme ++ 58 :: 47 :: 47 :: (u.authority ++
      dropSlash (u.path ++ Uri.Url.queryText u.query)) := by
  have hpre : u.text = (u.scheme ++ [58, 47, 47]) ++
      (u.authority ++ (u.path ++ Uri.Url.queryText u.query)) := by
    simp [Uri.Url.text]
  have hslash : 47 ∉ u.authority := fun hmem => u.authority_free 47 hmem (by decide)
  rw [hpre, dropSlash_append (by simp [h])]
  by_cases htail : u.path ++ Uri.Url.queryText u.query = []
  · rw [htail, List.append_nil, dropSlash_of_notMem hslash]
    simp [dropSlash]
  · rw [dropSlash_append htail]
    simp

/-- Without a query the suffix ends the path. -/
def onPath : Uri.Url :=
  { u with
    path := dropSlash u.path ++ familySuffix family
    path_free := by
      intro b hb
      rcases List.mem_append.mp hb with hb | hb
      · exact u.path_free b (mem_of_mem_dropSlash hb)
      · exact (familySuffix_free family).1 b hb
    path_rooted := by
      obtain ⟨rest, hsuffix⟩ := (familySuffix_free family).2.1
      rcases dropSlash_rooted u.path_rooted with hnil | ⟨tail, hroot⟩
      · exact Or.inr ⟨rest, by rw [hnil, hsuffix]; rfl⟩
      · exact Or.inr ⟨tail ++ familySuffix family, by rw [hroot]; rfl⟩ }

/-- With a query the suffix ends the query. -/
def onQuery (q : Bytes) (hq : u.query = some q) : Uri.Url :=
  { u with
    query := some (dropSlash q ++ familySuffix family)
    query_free := by
      intro s hs b hb hstop
      obtain rfl := Option.some.inj hs
      rcases List.mem_append.mp hb with hb | hb
      · exact u.query_free q hq b (mem_of_mem_dropSlash hb) hstop
      · exact (familySuffix_free family).1 b hb (List.mem_cons_of_mem 63 hstop) }

variable {u}

theorem onPath_text (h : u.authority ≠ []) (hq : u.query = none) :
    (onPath u family).text = dropSlash u.text ++ familySuffix family := by
  rw [dropSlash_text u h, hq]
  simp [onPath, Uri.Url.text, Uri.Url.queryText, hq]

theorem onQuery_text {q : Bytes} (h : u.authority ≠ []) (hq : u.query = some q) :
    (onQuery u family q hq).text = dropSlash u.text ++ familySuffix family := by
  have htail : dropSlash (u.path ++ 63 :: q) = u.path ++ 63 :: dropSlash q := by
    rw [dropSlash_append (List.cons_ne_nil 63 q), dropSlash_cons (by decide)]
  rw [dropSlash_text u h, hq, Uri.Url.queryText, htail]
  simp [onQuery, Uri.Url.text, Uri.Url.queryText]

/-- The suffix stays in the path exactly when there is no query before it. -/
theorem staysOn_text_iff (h : u.authority ≠ []) :
    StaysOn u.text (dropSlash u.text ++ familySuffix family) family ↔ u.query = none := by
  cases hq : u.query with
  | none =>
    refine iff_of_true ?_ rfl
    rw [← onPath_text family h hq]
    unfold StaysOn
    rw [Uri.parse_text, Uri.parse_text]
    exact ⟨rfl, rfl, rfl, rfl⟩
  | some q =>
    refine iff_of_false ?_ (Option.some_ne_none q)
    rw [← onQuery_text family h hq]
    unfold StaysOn
    rw [Uri.parse_text, Uri.parse_text]
    rintro ⟨-, -, -, hquery⟩
    have hsame : dropSlash q ++ familySuffix family = q := Option.some.inj (hquery.trans hq)
    have hlen := congrArg List.length hsame
    have hdrop := dropSlash_length q
    have hsuffix := (familySuffix_free family).2.2.2
    rw [List.length_append] at hlen
    omega

end Base

/-- What is built for an accepted base stays on it exactly when the base has no query. -/
theorem buildUrl_staysOn_iff {p : InetPton} {allowLocal loopback : Bool} {base : Bytes}
    {alloc : ℕ → Bool} {out : Buffer} {family : Family}
    (hbase : urlCheck p base allowLocal = .ok loopback)
    (hbuilt : (buildUrl alloc out (some base) family).2 = .ok) :
    StaysOn base (cString (buildUrl alloc out (some base) family).1.data) family ↔ 63 ∉ base := by
  obtain ⟨u, rfl, hname, hquery⟩ := url_of_urlCheck ⟨loopback, hbase⟩
  have hprint := (urlCheck_accepts_iff.mp ⟨loopback, hbase⟩).1
  have hnul : ∀ b ∈ dropSlash u.text ++ familySuffix family, b ≠ 0 := by
    intro b hb
    rcases List.mem_append.mp hb with hb | hb
    · rintro rfl
      exact absurd (hprint 0 (mem_of_mem_dropSlash hb)).1 (by decide)
    · exact (familySuffix_free family).2.2.1 b hb
  rw [buildUrl_text hbuilt, cString_append hnul, staysOn_text_iff family hname, hquery]

theorem buildUrl_staysOn_loopback :
    urlCheck .loopbackOnly (ascii "http://127.0.0.1:11434/v1/") false = .ok true ∧
      (buildUrl (fun _ => true) (Buffer.init 4096) (some (ascii "http://127.0.0.1:11434/v1/"))
        .chat).2 = .ok ∧
      (StaysOn (ascii "http://127.0.0.1:11434/v1/") (cString (buildUrl (fun _ => true)
        (Buffer.init 4096) (some (ascii "http://127.0.0.1:11434/v1/")) .chat).1.data) .chat ↔
        63 ∉ ascii "http://127.0.0.1:11434/v1/") :=
  have hbase : urlCheck .loopbackOnly (ascii "http://127.0.0.1:11434/v1/") false = .ok true := by
    decide
  ⟨hbase, by decide, buildUrl_staysOn_iff hbase (by decide)⟩

/-- The suffix becomes part of a query. -/
theorem buildUrl_query :
    ¬ ∀ (p : InetPton) (allowLocal loopback : Bool) (base : Bytes) (alloc : ℕ → Bool) (out : Buffer)
      (family : Family), urlCheck p base allowLocal = .ok loopback →
        (buildUrl alloc out (some base) family).2 = .ok →
          StaysOn base (cString (buildUrl alloc out (some base) family).1.data) family := by
  intro h
  have hmoved := h .loopbackOnly false true (ascii "http://127.0.0.1/v1?key=1") (fun _ => true)
    (Buffer.init 4096) .chat (by decide) (by decide)
  exact absurd hmoved (by decide)

end AsmFlow.Providers
