import Mathlib.Data.List.TakeWhile
import Mathlib.Tactic

/-!
# The parts of a URI

RFC 3986, appendix B: a reference is cut at the first delimiter that ends each of its parts.
A URL with an authority, written from parts that hold no delimiter of theirs, is read back.
-/

namespace AsmFlow.Library.Uri

/-- What a reference is cut into. -/
structure Parts where
  scheme : Option (List UInt8)
  authority : Option (List UInt8)
  path : List UInt8
  query : Option (List UInt8)
  fragment : Option (List UInt8)
  deriving DecidableEq, Repr

/-- The text up to the first of some delimiters, and the rest. -/
def upTo (stops s : List UInt8) : List UInt8 × List UInt8 :=
  (s.takeWhile (!stops.contains ·), s.dropWhile (!stops.contains ·))

/-- `(([^:/?#]+):)?` -/
def schemeOf (s : List UInt8) : Option (List UInt8) × List UInt8 :=
  let name := upTo [58, 47, 63, 35] s
  if name.1 ≠ [] ∧ [58] <+: name.2 then (some name.1, name.2.drop 1) else (none, s)

/-- `(//([^/?#]*))?` -/
def authorityOf (s : List UInt8) : Option (List UInt8) × List UInt8 :=
  if [47, 47] <+: s then
    let name := upTo [47, 63, 35] (s.drop 2)
    (some name.1, name.2)
  else (none, s)

/-- `(\?([^#]*))?` -/
def queryOf (s : List UInt8) : Option (List UInt8) × List UInt8 :=
  if [63] <+: s then
    let query := upTo [35] (s.drop 1)
    (some query.1, query.2)
  else (none, s)

/-- `(#(.*))?` -/
def fragmentOf (s : List UInt8) : Option (List UInt8) :=
  if [35] <+: s then some (s.drop 1) else none

def parse (s : List UInt8) : Parts :=
  let scheme := schemeOf s
  let authority := authorityOf scheme.2
  let path := upTo [63, 35] authority.2
  let query := queryOf path.2
  ⟨scheme.1, authority.1, path.1, query.1, fragmentOf query.2⟩

/-- None of some delimiters. -/
def Free (stops s : List UInt8) : Prop := ∀ b ∈ s, b ∉ stops

/-- A URL with an authority and without a fragment. -/
structure Url where
  scheme : List UInt8
  authority : List UInt8
  path : List UInt8
  query : Option (List UInt8)
  scheme_ne_nil : scheme ≠ []
  scheme_free : Free [58, 47, 63, 35] scheme
  authority_free : Free [47, 63, 35] authority
  path_free : Free [63, 35] path
  path_rooted : path = [] ∨ ∃ rest, path = 47 :: rest
  query_free : ∀ q, query = some q → Free [35] q

namespace Url

/-- The query with its mark. -/
def queryText (q : Option (List UInt8)) : List UInt8 :=
  match q with
  | none => []
  | some q => 63 :: q

def text (u : Url) : List UInt8 :=
  u.scheme ++ 58 :: 47 :: 47 :: (u.authority ++ (u.path ++ queryText u.query))

end Url

/-! ## Reading back -/

/-- A text that holds no stop is read whole, up to a stop or the end behind it. -/
theorem upTo_append {stops s rest : List UInt8} (h : Free stops s)
    (hrest : ∀ b bs, rest = b :: bs → b ∈ stops) : upTo stops (s ++ rest) = (s, rest) := by
  have hkept : ∀ b ∈ s, (!stops.contains b) = true := by
    intro b hb
    simpa using h b hb
  unfold upTo
  rw [List.takeWhile_append_of_pos hkept, List.dropWhile_append_of_pos hkept]
  cases rest with
  | nil => simp
  | cons b bs =>
    have hstop : ¬ (!stops.contains b) = true := by
      simpa using hrest b bs rfl
    rw [List.takeWhile_cons, List.dropWhile_cons, if_neg hstop, if_neg hstop, List.append_nil]

theorem queryText_head {q : Option (List UInt8)} {b : UInt8} {bs : List UInt8}
    (h : Url.queryText q = b :: bs) : b = 63 := by
  cases q with
  | none => cases h
  | some q => exact (List.cons.inj h).1.symm

theorem queryOf_queryText {q : Option (List UInt8)} (h : ∀ s, q = some s → Free [35] s) :
    queryOf (Url.queryText q) = (q, []) := by
  cases q with
  | none => rfl
  | some s =>
    have hend : ∀ b bs, ([] : List UInt8) = b :: bs → b ∈ [(35 : UInt8)] := by simp
    have hread := upTo_append (h s rfl) hend
    rw [List.append_nil] at hread
    have hmark : [63] <+: 63 :: s := ⟨s, rfl⟩
    unfold queryOf Url.queryText
    have hdrop : (63 :: s).drop 1 = s := rfl
    rw [if_pos hmark, hdrop, hread]

/-- A URL is read back from its text. -/
theorem parse_text (u : Url) :
    parse u.text = ⟨some u.scheme, some u.authority, u.path, u.query, none⟩ := by
  have hscheme : schemeOf u.text =
      (some u.scheme, 47 :: 47 :: (u.authority ++ (u.path ++ Url.queryText u.query))) := by
    unfold schemeOf Url.text
    rw [upTo_append u.scheme_free (by rintro b bs h; simp [(List.cons.inj h).1.symm])]
    exact if_pos ⟨u.scheme_ne_nil, ⟨_, rfl⟩⟩
  have hauthority : authorityOf (47 :: 47 :: (u.authority ++ (u.path ++ Url.queryText u.query))) =
      (some u.authority, u.path ++ Url.queryText u.query) := by
    have hbehind : ∀ b bs, u.path ++ Url.queryText u.query = b :: bs → b ∈ [47, 63, 35] := by
      intro b bs h
      rcases u.path_rooted with hnil | ⟨rest, hroot⟩
      · rw [hnil, List.nil_append] at h
        rw [queryText_head h]
        decide
      · rw [hroot, List.cons_append] at h
        rw [← (List.cons.inj h).1]
        decide
    unfold authorityOf
    have hdrop : (47 :: 47 :: (u.authority ++ (u.path ++ Url.queryText u.query))).drop 2 =
        u.authority ++ (u.path ++ Url.queryText u.query) := rfl
    rw [if_pos ⟨_, rfl⟩, hdrop, upTo_append u.authority_free hbehind]
  have hpath : upTo [63, 35] (u.path ++ Url.queryText u.query) =
      (u.path, Url.queryText u.query) := by
    apply upTo_append u.path_free
    intro b bs h
    rw [queryText_head h]
    decide
  simp only [parse, hscheme, hauthority, hpath, queryOf_queryText u.query_free]
  rfl

end AsmFlow.Library.Uri
