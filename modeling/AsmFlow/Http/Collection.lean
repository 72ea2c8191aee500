import AsmFlow.Http.Credentials

/-!
# Names and values from spans

The library delivers a header field as spans of its name, spans of its value and
the end of both, and the connection puts the spans together in two buffers. A
new name clears the buffers only if there is a value in them, so what is
presented to the policy is the field itself exactly where the field before it,
if there is one, had a value.
-/

namespace AsmFlow.Http

open Library

variable {O : Type}

/-- A header field as the library delivers it; a field has a name. -/
structure SpelledField where
  names : List Bytes
  values : List Bytes
  named : names.flatten ≠ []

namespace SpelledField

def name (f : SpelledField) : Bytes := f.names.flatten

def value (f : SpelledField) : Bytes := f.values.flatten

def pair (f : SpelledField) : Bytes × Bytes := (f.name, f.value)

/-- The callbacks of a field before its value is complete. -/
def spans (f : SpelledField) : List Call :=
  f.names.map (Call.span .headerField) ++
    .headerFieldComplete :: f.values.map (Call.span .headerValue)

def calls (f : SpelledField) : List Call := f.spans ++ [.headerValueComplete]

end SpelledField

namespace Server

variable (s : Server O)

/-- Callbacks in a row, none of which stops the parse. -/
def heard : Conn O → List Call → Option (Conn O)
  | c, [] => some c
  | c, x :: xs =>
    match s.call c x with
    | (c, none) => heard c xs
    | (_, some _) => none

/-- A message from its begin to the point where the value of `f` is complete, behind the
spans of its target and the fields `pre`. -/
def upTo (urls : List Bytes) (pre : List SpelledField) (f : SpelledField) : List Call :=
  .messageBegin :: (urls.map (Call.span .url) ++ (pre.flatMap SpelledField.calls ++ f.spans))

variable {s} {c d : Conn O}

theorem heard_cons (x : Call) (xs : List Call) :
    s.heard c (x :: xs) = if (s.call c x).2 = none then s.heard (s.call c x).1 xs else none := by
  rw [heard]
  generalize s.call c x = r
  obtain ⟨e, _ | err⟩ := r
  · rfl
  · rfl

theorem heard_append (xs ys : List Call) :
    s.heard c (xs ++ ys) = (s.heard c xs).bind fun d => s.heard d ys := by
  induction xs generalizing c with
  | nil => rfl
  | cons x xs ih =>
    rw [List.cons_append, heard_cons, heard_cons]
    split_ifs
    · exact ih
    · rfl

theorem heard_cons_eq_some {x : Call} {xs : List Call} :
    s.heard c (x :: xs) = some d ↔
      (s.call c x).2 = none ∧ s.heard (s.call c x).1 xs = some d := by
  rw [heard_cons]
  split_ifs with h
  · simp [h]
  · simp [h]

/-- The target does not touch the two buffers. -/
theorem heard_urls (urls : List Bytes) (h : s.heard c (urls.map (Call.span .url)) = some d) :
    d.name = c.name ∧ d.value = c.value := by
  induction urls generalizing c with
  | nil =>
    obtain rfl := Option.some.inj h
    exact ⟨rfl, rfl⟩
  | cons p urls ih =>
    obtain ⟨hgo, hrest⟩ := heard_cons_eq_some.mp h
    obtain ⟨hname, hvalue⟩ := ih hrest
    rw [hname, hvalue]
    simp only [call, onSpan, onUrl] at hgo ⊢
    cases hgrown : extend targetMax c.target p with
    | none => simp [hgrown, Conn.refuse] at hgo
    | some target => exact ⟨rfl, rfl⟩

/-- A name begins in a cleared buffer or behind the name that is there. -/
theorem heard_names {names : List Bytes} (hne : names ≠ [])
    (h : s.heard c (names.map (Call.span .headerField)) = some d) :
    d.name = (nextName c).name ++ names.flatten ∧ d.value = [] := by
  induction names generalizing c with
  | nil => exact absurd rfl hne
  | cons p names ih =>
    obtain ⟨hgo, hrest⟩ := heard_cons_eq_some.mp h
    simp only [call, onSpan, onHeaderField] at hgo hrest
    cases hgrown : extend nameMax (nextName c).name p with
    | none => simp [hgrown, Conn.refuse] at hgo
    | some name =>
      rw [hgrown] at hrest
      dsimp only at hrest
      have hcleared : (nextName c).value = [] := by
        unfold nextName
        split_ifs with hv
        · exact hv
        · rfl
      rw [extend_eq_some hgrown] at hrest
      by_cases hlast : names = []
      · subst hlast
        obtain rfl := Option.some.inj hrest
        simp [hcleared]
      · obtain ⟨hname, hvalue⟩ := ih hlast hrest
        refine ⟨?_, hvalue⟩
        rw [hname, nextName, if_pos hcleared]
        simp

theorem heard_values {values : List Bytes}
    (h : s.heard c (values.map (Call.span .headerValue)) = some d) :
    d.name = c.name ∧ d.value = c.value ++ values.flatten := by
  induction values generalizing c with
  | nil =>
    obtain rfl := Option.some.inj h
    simp
  | cons p values ih =>
    obtain ⟨hgo, hrest⟩ := heard_cons_eq_some.mp h
    simp only [call, onSpan, onHeaderValue] at hgo hrest
    cases hgrown : extend valueMax c.value p with
    | none => simp [hgrown, Conn.refuse] at hgo
    | some value =>
      rw [hgrown] at hrest
      obtain ⟨hname, hvalue⟩ := ih hrest
      refine ⟨hname, ?_⟩
      rw [hvalue, extend_eq_some hgrown]
      simp

/-- The spans of a field leave its name, behind what the buffer was not cleared of, and its
own value. -/
theorem heard_spans {f : SpelledField} (h : s.heard c f.spans = some d) :
    d.name = (nextName c).name ++ f.name ∧ d.value = f.value := by
  have hne : f.names ≠ [] := by
    intro hnil
    exact f.named (by simp [hnil])
  rw [SpelledField.spans, heard_append, Option.bind_eq_some_iff] at h
  obtain ⟨e, hnames, hvalues⟩ := h
  obtain ⟨hname, hvalue⟩ := heard_names hne hnames
  obtain ⟨-, hrest⟩ := heard_cons_eq_some.mp hvalues
  obtain ⟨hname', hvalue'⟩ := heard_values hrest
  rw [hname', hvalue']
  change e.name = _ ∧ e.value ++ _ = _
  rw [hname, hvalue]
  exact ⟨rfl, rfl⟩

/-- The policy reads the two buffers and leaves them. -/
theorem onHeaderValueComplete_pair (h : (s.onHeaderValueComplete c).2 = none) :
    (s.onHeaderValueComplete c).1.name = c.name ∧
      (s.onHeaderValueComplete c).1.value = c.value := by
  by_cases htakes : s.Takes c.name
  · rw [onHeaderValueComplete_of_takes htakes] at h ⊢
    unfold onCredential at h ⊢
    by_cases hauth : c.haveAuth = true
    · simp [hauth, Conn.refuse] at h
    · simp only [hauth, Bool.false_eq_true, if_false] at h ⊢
      cases hgrown : extend valueMax c.auth c.value with
      | none => simp [hgrown, Conn.refuse] at h
      | some auth => exact ⟨rfl, rfl⟩
  · have hsame := onHeaderValueComplete_gathered htakes
    exact ⟨congrArg Prod.fst hsame, congrArg (fun x => x.2.1) hsame⟩

/-- The name buffer before the next name, after some fields. -/
theorem heard_fields {pre : List SpelledField} (h : s.heard c (pre.flatMap SpelledField.calls) = some d)
    {fs : List (Bytes × Bytes)} (hc : (nextName c).name = Heading.runOn fs) :
    (nextName d).name = Heading.runOn (fs ++ pre.map SpelledField.pair) := by
  induction pre generalizing c fs with
  | nil =>
    obtain rfl := Option.some.inj h
    simpa using hc
  | cons f pre ih =>
    rw [List.flatMap_cons, heard_append, Option.bind_eq_some_iff] at h
    obtain ⟨e, hfield, hrest⟩ := h
    rw [SpelledField.calls, heard_append, Option.bind_eq_some_iff] at hfield
    obtain ⟨b, hspans, hlast⟩ := hfield
    obtain ⟨hname, hvalue⟩ := heard_spans hspans
    obtain ⟨hgo, hnil⟩ := heard_cons_eq_some.mp hlast
    obtain rfl := Option.some.inj hnil
    obtain ⟨hkeptname, hkeptvalue⟩ := onHeaderValueComplete_pair hgo
    have hnext : (nextName (s.onHeaderValueComplete b).1).name =
        Heading.runOn (fs ++ [f.pair]) := by
      rw [Heading.runOn_concat, nextName, hkeptvalue, hvalue, ← hc]
      change _ = if f.value = [] then _ else _
      split_ifs
      · rw [hkeptname, hname]
        rfl
      · rfl
    have hall := ih hrest hnext
    rwa [List.append_assoc] at hall

/-- At the end of a field's value stands its own value, and its name behind those it runs on
from. -/
theorem heard_upTo {urls : List Bytes} {pre : List SpelledField} {f : SpelledField}
    (h : s.heard c (upTo urls pre f) = some d) :
    d.name = Heading.runOn (pre.map SpelledField.pair) ++ f.name ∧ d.value = f.value := by
  obtain ⟨-, hmessage⟩ := heard_cons_eq_some.mp h
  rw [heard_append, Option.bind_eq_some_iff] at hmessage
  obtain ⟨a, hurls, hrest⟩ := hmessage
  rw [heard_append, Option.bind_eq_some_iff] at hrest
  obtain ⟨b, hfields, hspans⟩ := hrest
  obtain ⟨hname, hvalue⟩ := heard_urls urls hurls
  have hstart : (nextName a).name = Heading.runOn [] := by
    rw [nextName, hvalue]
    exact hname
  obtain ⟨hend, hown⟩ := heard_spans hspans
  rw [heard_fields hfields hstart, List.nil_append] at hend
  exact ⟨hend, hown⟩

/-- Fields run on into the next name exactly if the last of them has no value. -/
theorem runOn_eq_nil_iff (pre : List SpelledField) :
    Heading.runOn (pre.map SpelledField.pair) = [] ↔ ∀ g ∈ pre.getLast?, g.value ≠ [] := by
  induction pre using List.reverseRecOn with
  | nil => simp [Heading.runOn]
  | append_singleton pre g ih =>
    rw [List.map_append, List.map_singleton, Heading.runOn_concat, List.getLast?_concat]
    change (if g.value = [] then _ ++ g.name else []) = [] ↔ _
    split_ifs with hvalue
    · simp only [List.append_eq_nil_iff, Option.mem_def, Option.some.injEq, forall_eq', hvalue,
        ne_eq, not_true_eq_false, iff_false, not_and]
      exact fun _ => g.named
    · simp [hvalue]

/-- **A field is presented to the policy as it was sent exactly if the field before it had a
value.** -/
theorem collected_iff (s : Server O) {c d : Conn O} (urls : List Bytes) (pre : List SpelledField)
    (f : SpelledField) (h : s.heard c (upTo urls pre f) = some d) :
    (d.name = f.name ∧ d.value = f.value) ↔ ∀ g ∈ pre.getLast?, g.value ≠ [] := by
  obtain ⟨hname, hvalue⟩ := heard_upTo h
  rw [← runOn_eq_nil_iff, hname, hvalue]
  simp

/-! ## Two fields -/

/-- `Host: x`, its name in two spans. -/
def hostField : SpelledField := ⟨[ascii "Ho", ascii "st"], [ascii "x"], by decide +kernel⟩

/-- `X-Empty:`, without a span for its value. -/
def emptyField : SpelledField := ⟨[ascii "X-Empty"], [], by decide +kernel⟩

/-- `Content-Length: 5`. -/
def lengthField : SpelledField := ⟨[ascii "Content-Length"], [ascii "5"], by decide +kernel⟩

theorem collected_behind_host :
    ∃ d, guarded.heard (Conn.fresh []) (upTo [ascii "/"] [hostField] lengthField) = some d ∧
      d.name = lengthField.name ∧ d.value = lengthField.value := by
  have hreached : (guarded.heard (Conn.fresh [])
      (upTo [ascii "/"] [hostField] lengthField)).isSome = true := by decide
  obtain ⟨d, hd⟩ := Option.isSome_iff_exists.mp hreached
  refine ⟨d, hd, (collected_iff guarded [ascii "/"] [hostField] lengthField hd).mpr ?_⟩
  intro g hg
  obtain rfl := Option.some.inj hg
  decide

/-- Behind a field without a value a Content-Length is presented under another name. -/
theorem collected_fails_behind_empty :
    ¬ ∀ (s : Server (List Reply)) (c d : Conn (List Reply)) (urls : List Bytes)
      (pre : List SpelledField) (f : SpelledField), s.heard c (upTo urls pre f) = some d →
      d.name = f.name ∧ d.value = f.value := by
  intro h
  have hreached : (guarded.heard (Conn.fresh [])
      (upTo [ascii "/"] [emptyField] lengthField)).isSome = true := by decide
  obtain ⟨d, hd⟩ := Option.isSome_iff_exists.mp hreached
  obtain ⟨hname, -⟩ := h guarded (Conn.fresh []) d [ascii "/"] [emptyField] lengthField hd
  rw [(heard_upTo hd).1] at hname
  exact absurd hname (by decide)

end Server
end AsmFlow.Http
