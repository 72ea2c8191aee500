import AsmFlow.Http.Collection
import AsmFlow.Http.Policy

/-!
# The ceiling of a body

A body is limited twice. The length a request declares is looked at once, when
its header section is complete, and as a signed number first, in which the
declarations from 2^63 on pass for none. What arrives is counted, and a body
callback is refused as soon as the count would exceed the ceiling.
-/

namespace AsmFlow.Http

open Library Conn

variable {O : Type}

/-- The number the Content-Length of a header section spells, if it has one. -/
def declaredLength (fs : List Field) : Option ℕ :=
  (fs.find? Field.isLength).map fun f => digitsValue f.2

/-- Fields as the policy is given them: `name` is in the buffer already, and a field without a
value leaves its own there. -/
def presentedBehind (name : Bytes) : List SpelledField → List Field
  | [] => []
  | f :: fs =>
    (name ++ f.name, f.value) ::
      presentedBehind (if f.value = [] then name ++ f.name else []) fs

def presented (fs : List SpelledField) : List Field := presentedBehind [] fs

/-- Where every field has a value, fields are given as they were sent. -/
theorem presented_of_values {fs : List SpelledField} (h : ∀ f ∈ fs, f.value ≠ []) :
    presented fs = fs.map SpelledField.pair := by
  unfold presented
  induction fs with
  | nil => rfl
  | cons f fs ih =>
    obtain ⟨hvalue, hrest⟩ := List.forall_mem_cons.mp h
    rw [presentedBehind, if_neg hvalue, ih hrest]
    rfl

/-- The checks of the header section that come before the one on its length. -/
structure Plain (line : RequestLine) (target : Bytes) : Prop where
  major : line.major = 1
  minor : line.minor ≤ 1
  upgrade : line.upgrade = false
  origin : target.head? = some 47

/-- A move with which a body may go on: no other message begins or ends. -/
def Move.Content : Move → Prop
  | .call x => Phase.body.step x = some .body
  | _ => True

/-- What moves bring of a body, its framing taken off. -/
def decoded (ms : List Move) : Bytes :=
  ms.flatMap fun
    | .call (.span .body p) => p
    | _ => []

namespace Conn

/-- The stored body, and its count. -/
def storage (c : Conn O) : Bytes × ℕ := (c.body, c.bodyBytes)

/-- What no field of a header section changes, unless it is refused. -/
def opening (c : Conn O) : Bytes × Option ErrorId × Bytes × ℕ :=
  (c.target, c.fault, c.storage)

/-- What is known of the declared length. -/
def lengths (c : Conn O) : Option ℕ × Bool := (c.contentLength, c.haveCl)

theorem Answers.storage {c d : Conn O} (h : Answers c d) : d.storage = c.storage :=
  (congrArg Conn.storage h :)

end Conn

namespace Server

variable (s : Server O)

/-- A message from its begin to the end of its fields. -/
def headCalls (urls : List Bytes) (fs : List SpelledField) : List Call :=
  .messageBegin :: (urls.map (Call.span .url) ++ fs.flatMap SpelledField.calls)

/-- A request is refused as too large where its header section is complete. -/
def RefusesDeclared (d : Conn O) (line : RequestLine) : Prop :=
  (s.onHeadersComplete d line).2 = some .user ∧
    (s.onHeadersComplete d line).1.fault = some .bodyTooLarge ∧
    (s.onHeadersComplete d line).1.body = []

/-- The count is that of the body, and under the ceiling. -/
def Stored (c : Conn O) : Prop := c.bodyBytes = c.body.length ∧ c.body.length ≤ s.bodyMax

/-- What the ceiling promises of a request whose header section `fs` has been read into `d`:
a declared length is refused exactly if it is over the ceiling, what is stored is always
counted and under it, and a body that is not over it is stored as it is. -/
structure BodyCeiling (d : Conn O) (line : RequestLine) (fs : List Field) : Prop where
  declared : s.RefusesDeclared d line ↔ ∃ n ∈ declaredLength fs, s.bodyMax < n
  stored : ∀ (outbox : O) ms, Throughout s.move (fun l => s.Stored l.conn) (.start outbox) ms
  delivered : (s.onHeadersComplete d line).2 = none → ∀ ms, (∀ m ∈ ms, m.Content) →
    (run s.move ⟨(s.onHeadersComplete d line).1, none⟩ ms).errno = none →
      (run s.move ⟨(s.onHeadersComplete d line).1, none⟩ ms).conn.body = decoded ms ∧
        ∀ p, (s.onBody (run s.move ⟨(s.onHeadersComplete d line).1, none⟩ ms).conn p).2 = none ↔
          (decoded ms).length + p.length ≤ s.bodyMax

variable {s} {c d : Conn O}

/-! ## The header section -/

/-- A view of the connection that is kept by each of some callbacks is kept by all. -/
theorem heard_keeps {β : Type} (view : Conn O → β) {xs : List Call}
    (hkeep : ∀ x ∈ xs, ∀ c, (s.call c x).2 = none → view (s.call c x).1 = view c)
    (h : s.heard c xs = some d) : view d = view c := by
  induction xs generalizing c with
  | nil =>
    obtain rfl := Option.some.inj h
    rfl
  | cons x xs ih =>
    obtain ⟨hfirst, hothers⟩ := List.forall_mem_cons.mp hkeep
    obtain ⟨hgo, hrest⟩ := heard_cons_eq_some.mp h
    exact (ih hothers hrest).trans (hfirst c hgo)

theorem heard_target {urls : List Bytes} (h : s.heard c (urls.map (Call.span .url)) = some d) :
    d.opening = (c.target ++ urls.flatten, c.fault, c.storage) ∧ d.lengths = c.lengths := by
  induction urls generalizing c with
  | nil =>
    obtain rfl := Option.some.inj h
    rw [List.flatten_nil, List.append_nil]
    exact ⟨rfl, rfl⟩
  | cons p urls ih =>
    obtain ⟨hgo, hrest⟩ := heard_cons_eq_some.mp h
    simp only [call, onSpan, onUrl] at hgo hrest
    cases hgrown : extend targetMax c.target p with
    | none => simp [hgrown, Conn.refuse] at hgo
    | some target =>
      rw [hgrown] at hrest
      obtain ⟨hopening, hlengths⟩ := ih hrest
      refine ⟨?_, hlengths⟩
      rw [hopening, extend_eq_some hgrown, List.flatten_cons, ← List.append_assoc]
      rfl

/-- Collecting a field leaves what is known of the request. -/
theorem heard_spans_same {f : SpelledField} (h : s.heard c f.spans = some d) :
    d.opening = c.opening ∧ d.lengths = c.lengths := by
  refine Prod.mk.inj (heard_keeps (fun c => (c.opening, c.lengths)) (fun x hx c hgo => ?_) h)
  rcases List.mem_append.mp hx with hx | hx
  · obtain ⟨p, -, rfl⟩ := List.mem_map.mp hx
    simp only [call, onSpan, onHeaderField] at hgo ⊢
    cases hgrown : extend nameMax (nextName c).name p with
    | none => simp [hgrown, Conn.refuse] at hgo
    | some name =>
      dsimp only
      unfold nextName
      split_ifs
      · rfl
      · rfl
  · rcases List.mem_cons.mp hx with rfl | hx
    · rfl
    · obtain ⟨p, -, rfl⟩ := List.mem_map.mp hx
      simp only [call, onSpan, onHeaderValue] at hgo ⊢
      cases hgrown : extend valueMax c.value p with
      | none => simp [hgrown, Conn.refuse] at hgo
      | some value => rfl

/-- A field the policy accepts changes at most the declared length, and that only once. -/
theorem valueComplete_accepted (h : (s.onHeaderValueComplete c).2 = none) :
    (s.onHeaderValueComplete c).1.opening = c.opening ∧
      (s.onHeaderValueComplete c).1.lengths =
        (if Field.isLength (c.name, c.value) then (some (digitsValue c.value), true)
          else c.lengths) ∧
      (Field.isLength (c.name, c.value) = true → c.haveCl = false) := by
  unfold onHeaderValueComplete at h ⊢
  by_cases hlength : isCi c.name (ascii "content-length") = true
  · have hfield : Field.isLength (c.name, c.value) = true := hlength
    rw [if_pos hlength] at h ⊢
    rw [if_pos hfield]
    unfold onContentLength at h ⊢
    by_cases hearlier : (c.haveCl || c.haveTe) = true
    · simp [hearlier, Conn.refuse] at h
    · rw [if_neg hearlier] at h ⊢
      cases hn : parseU64 c.value with
      | none => simp [hn, Conn.refuse] at h
      | some n =>
        obtain ⟨-, -, hvalue, -⟩ := (parseU64_eq_some_iff c.value n).mp hn
        rw [hvalue]
        rw [Bool.or_eq_true, not_or] at hearlier
        exact ⟨rfl, rfl, fun _ => Bool.not_eq_true _ ▸ hearlier.1⟩
  · have hfield : ¬Field.isLength (c.name, c.value) = true := hlength
    rw [if_neg hlength] at h ⊢
    rw [if_neg hfield]
    suffices hsame : (_ : Conn O × Option Hpe).1.opening = c.opening ∧
        (_ : Conn O × Option Hpe).1.lengths = c.lengths from
      ⟨hsame.1, hsame.2, fun hl => absurd hl hfield⟩
    split_ifs at h ⊢
    · unfold onTransferEncoding at h ⊢
      split_ifs at h ⊢
      · simp [Conn.refuse] at h
      · exact ⟨rfl, rfl⟩
      · simp [Conn.refuse] at h
    · unfold onContentType at h ⊢
      cases hgrown : extend valueMax c.ctype c.value with
      | none => simp [hgrown, Conn.refuse] at h
      | some ctype => exact ⟨rfl, rfl⟩
    · unfold onCredential at h ⊢
      split_ifs at h ⊢
      · simp [Conn.refuse] at h
      · cases hgrown : extend valueMax c.auth c.value with
        | none => simp [hgrown, Conn.refuse] at h
        | some auth => exact ⟨rfl, rfl⟩
    · exact ⟨rfl, rfl⟩

/-- The fields of a header section: what they leave alone, and the length they declare. -/
theorem heard_fields_declared {fs : List SpelledField} {name : Bytes}
    (h : s.heard c (fs.flatMap SpelledField.calls) = some d) (hname : (nextName c).name = name)
    (hnone : c.haveCl = false → c.contentLength = none) :
    d.opening = c.opening ∧
      d.contentLength =
        if c.haveCl then c.contentLength else declaredLength (presentedBehind name fs) := by
  induction fs generalizing c name with
  | nil =>
    obtain rfl := Option.some.inj h
    refine ⟨rfl, ?_⟩
    split_ifs with hcl
    · rfl
    · exact hnone (Bool.not_eq_true _ ▸ hcl)
  | cons f fs ih =>
    rw [List.flatMap_cons, heard_append, Option.bind_eq_some_iff] at h
    obtain ⟨e, hfield, hrest⟩ := h
    rw [SpelledField.calls, heard_append, Option.bind_eq_some_iff] at hfield
    obtain ⟨b, hspans, hlast⟩ := hfield
    obtain ⟨hgo, hnil⟩ := heard_cons_eq_some.mp hlast
    obtain rfl := Option.some.inj hnil
    obtain ⟨hbname, hbvalue⟩ := heard_spans hspans
    obtain ⟨hbopening, hblengths⟩ := heard_spans_same hspans
    obtain ⟨hkeptname, hkeptvalue⟩ := onHeaderValueComplete_pair hgo
    obtain ⟨heopening, helengths, honce⟩ := valueComplete_accepted hgo
    obtain ⟨hbcl, hbhave⟩ := Prod.mk.inj hblengths
    rw [hbname, hbvalue, hname] at helengths honce
    have hnext : (nextName (s.call b .headerValueComplete).1).name =
        if f.value = [] then name ++ f.name else [] := by
      change (nextName (s.onHeaderValueComplete b).1).name = _
      rw [nextName, hkeptvalue, hbvalue]
      split_ifs
      · rw [hkeptname, hbname, hname]
      · rfl
    by_cases hfirst : Field.isLength (name ++ f.name, f.value) = true
    · rw [if_pos hfirst] at helengths
      obtain ⟨hecl, hehave⟩ := Prod.mk.inj helengths
      obtain ⟨hopening, hdeclared⟩ := ih hrest hnext fun hcl => by
        change (s.onHeaderValueComplete b).1.haveCl = false at hcl
        rw [hehave] at hcl
        cases hcl
      refine ⟨hopening.trans (heopening.trans hbopening), ?_⟩
      change d.contentLength = if (s.onHeaderValueComplete b).1.haveCl = true then
        (s.onHeaderValueComplete b).1.contentLength else _ at hdeclared
      rw [hehave, hecl, if_pos rfl] at hdeclared
      rw [hdeclared, ← hbhave, honce hfirst, if_neg Bool.false_ne_true, presentedBehind,
        declaredLength, List.find?_cons_of_pos hfirst]
      rfl
    · rw [if_neg hfirst] at helengths
      obtain ⟨hecl, hehave⟩ := Prod.mk.inj helengths
      obtain ⟨hopening, hdeclared⟩ := ih hrest hnext fun hcl => by
        change (s.onHeaderValueComplete b).1.haveCl = false at hcl
        change (s.onHeaderValueComplete b).1.contentLength = none
        rw [hehave, hbhave] at hcl
        rw [hecl, hbcl]
        exact hnone hcl
      refine ⟨hopening.trans (heopening.trans hbopening), ?_⟩
      change d.contentLength = if (s.onHeaderValueComplete b).1.haveCl = true then
        (s.onHeaderValueComplete b).1.contentLength else _ at hdeclared
      rw [hehave, hecl, hbhave, hbcl] at hdeclared
      rw [hdeclared, presentedBehind, declaredLength, declaredLength,
        List.find?_cons_of_neg hfirst]

/-- A header section that has been read: the target it was sent with, no fault, no body, and
the length it declares. -/
theorem heard_head {urls : List Bytes} {fs : List SpelledField}
    (h : s.heard c (headCalls urls fs) = some d) :
    d.opening = (urls.flatten, none, [], 0) ∧
      d.contentLength = declaredLength (presented fs) := by
  obtain ⟨-, hmessage⟩ := heard_cons_eq_some.mp h
  rw [heard_append, Option.bind_eq_some_iff] at hmessage
  obtain ⟨e, hurls, hfields⟩ := hmessage
  obtain ⟨hopening, hlengths⟩ := heard_target hurls
  obtain ⟨hname, hvalue⟩ := heard_urls urls hurls
  obtain ⟨hcl, hhave⟩ := Prod.mk.inj hlengths
  have hstart : (nextName e).name = [] := by
    rw [nextName, hvalue]
    exact hname
  obtain ⟨hsame, hdeclared⟩ := heard_fields_declared hfields hstart fun _ => hcl
  refine ⟨hsame.trans hopening, ?_⟩
  rw [hhave] at hdeclared
  exact hdeclared.trans (if_neg Bool.false_ne_true)

/-! ## The declared length -/

theorem refuse_storage (c : Conn O) (id : ErrorId) : (c.refuse id).1.storage = c.storage :=
  (c.setFault_answers id).storage

theorem onHeadersComplete_storage (c : Conn O) (line : RequestLine) :
    (s.onHeadersComplete c line).1.storage = c.storage := by
  unfold onHeadersComplete
  dsimp only
  split_ifs
  · exact refuse_storage _ _
  · exact refuse_storage _ _
  · exact refuse_storage _ _
  · exact refuse_storage _ _
  · rfl

theorem declaredTooLarge_iff : s.declaredTooLarge c = true ↔
    ∃ n ∈ c.contentLength, s.bodyMax < n ∧ n < 2 ^ 63 := by
  unfold declaredTooLarge
  cases c.contentLength with
  | none => simp
  | some n => simp [and_comm]

/-- The declared length is compared after the other checks, and only if it is not negative. -/
theorem refusesDeclared_iff {line : RequestLine} {target : Bytes}
    (hopening : d.opening = (target, none, [], 0)) :
    s.RefusesDeclared d line ↔
      Plain line target ∧ ∃ n ∈ d.contentLength, s.bodyMax < n ∧ n < 2 ^ 63 := by
  obtain ⟨htarget, hrest⟩ := Prod.mk.inj hopening
  obtain ⟨hfault, hstorage⟩ := Prod.mk.inj hrest
  have hbody : (s.onHeadersComplete d line).1.body = [] :=
    congrArg Prod.fst ((onHeadersComplete_storage d line).trans hstorage)
  have hearlier {e : Conn O} {id : ErrorId} (he : e.fault = none) (hid : id ≠ .bodyTooLarge) :
      ¬((e.refuse id).2 = some .user ∧ (e.refuse id).1.fault = some .bodyTooLarge) := by
    rw [(refuse_fault he id).2]
    exact fun h => hid (Option.some.inj h.2)
  have hlast {e : Conn O} (he : e.fault = none) : (e.refuse .bodyTooLarge).2 = some .user ∧
      (e.refuse .bodyTooLarge).1.fault = some .bodyTooLarge := refuse_fault he _
  have hplain : Plain line target ↔ ¬(line.major ≠ 1 ∨ 1 < line.minor) ∧
      ¬line.upgrade = true ∧ ¬d.target.head? ≠ some 47 := by
    rw [htarget]
    constructor
    · rintro ⟨hmajor, hminor, hupgrade, horigin⟩
      exact ⟨by omega, by simp [hupgrade], by simp [horigin]⟩
    · rintro ⟨hversion, hupgrade, horigin⟩
      exact ⟨by omega, by omega, by simpa using hupgrade, by simpa using horigin⟩
  rw [hplain, ← declaredTooLarge_iff]
  unfold RefusesDeclared
  rw [← and_assoc, and_iff_left hbody]
  unfold onHeadersComplete
  dsimp only
  split_ifs with hversion hupgrade horigin hlarge
  · exact iff_of_false (hearlier hfault (by decide)) fun h => h.1.1 hversion
  · exact iff_of_false (hearlier hfault (by decide)) fun h => h.1.2.1 hupgrade
  · exact iff_of_false (hearlier hfault (by decide)) fun h => h.1.2.2 horigin
  · exact iff_of_true (hlast hfault) ⟨⟨hversion, hupgrade, horigin⟩, hlarge⟩
  · exact iff_of_false (fun h => nomatch h.1) fun h => hlarge h.2

/-! ## The bytes that arrive -/

/-- A body callback goes on exactly if the count stays under the ceiling. -/
theorem onBody_cases (hcount : c.bodyBytes = c.body.length) (p : Bytes) :
    (c.body.length + p.length ≤ s.bodyMax ∧ (s.onBody c p).2 = none ∧
        (s.onBody c p).1.storage = (c.body ++ p, (c.body ++ p).length)) ∨
      (s.bodyMax < c.body.length + p.length ∧ (s.onBody c p).2 = some .user ∧
        (s.onBody c p).1.storage = c.storage) := by
  unfold onBody
  rw [hcount]
  by_cases hroom : c.body.length + p.length ≤ s.bodyMax
  · left
    rw [if_neg (not_lt.mpr hroom), extend, if_pos hroom]
    refine ⟨hroom, rfl, ?_⟩
    rw [List.length_append]
    rfl
  · right
    rw [if_pos (not_le.mp hroom)]
    exact ⟨not_le.mp hroom, rfl, refuse_storage c _⟩

/-- What a callback makes of the stored body. -/
theorem call_storage (hcount : c.bodyBytes = c.body.length) (x : Call) :
    (s.call c x).1.storage = c.storage ∨
      ((s.call c x).1.storage = ([], 0) ∧ (x = .messageBegin ∨ x = .messageComplete)) ∨
      ∃ p, x = .span .body p ∧ c.body.length + p.length ≤ s.bodyMax ∧
        (s.call c x).1.storage = (c.body ++ p, (c.body ++ p).length) := by
  cases x with
  | span kind p =>
    cases kind with
    | url =>
      left
      simp only [call, onSpan, onUrl]
      cases extend targetMax c.target p with
      | none => exact refuse_storage _ _
      | some target => rfl
    | headerField =>
      left
      have hnext : (nextName c).storage = c.storage := by
        unfold nextName
        split_ifs
        · rfl
        · rfl
      simp only [call, onSpan, onHeaderField]
      cases extend nameMax (nextName c).name p with
      | none => exact (refuse_storage _ _).trans hnext
      | some name => exact hnext
    | headerValue =>
      left
      simp only [call, onSpan, onHeaderValue]
      cases extend valueMax c.value p with
      | none => exact refuse_storage _ _
      | some value => rfl
    | body =>
      rcases onBody_cases (s := s) hcount p with ⟨hroom, -, hstored⟩ | ⟨-, -, hsame⟩
      · exact Or.inr (Or.inr ⟨p, rfl, hroom, hstored⟩)
      · exact Or.inl hsame
  | messageBegin => exact Or.inr (Or.inl ⟨rfl, Or.inl rfl⟩)
  | headerFieldComplete => exact Or.inl rfl
  | headerValueComplete =>
    left
    simp only [call, onHeaderValueComplete]
    split_ifs
    · unfold onContentLength
      split_ifs
      · exact refuse_storage _ _
      · cases parseU64 c.value with
        | none => exact refuse_storage _ _
        | some n => rfl
    · unfold onTransferEncoding
      split_ifs
      · exact refuse_storage _ _
      · rfl
      · exact refuse_storage _ _
    · unfold onContentType
      cases extend valueMax c.ctype c.value with
      | none => exact refuse_storage _ _
      | some ctype => rfl
    · unfold onCredential
      split_ifs
      · exact refuse_storage _ _
      · cases extend valueMax c.auth c.value with
        | none => exact refuse_storage _ _
        | some auth => rfl
    · rfl
  | headersComplete line => exact Or.inl (onHeadersComplete_storage c line)
  | messageComplete =>
    have hdispatched := (s.dispatch_answers { c with messageDone := true }).storage
    simp only [call, onMessageComplete]
    generalize s.dispatch { c with messageDone := true } = r at hdispatched
    obtain ⟨e, st⟩ := r
    dsimp only at hdispatched ⊢
    split_ifs
    · exact Or.inl ((e.setFault_answers .internal).storage.trans hdispatched)
    · unfold afterDispatch
      split_ifs
      · exact Or.inl hdispatched
      · exact Or.inl hdispatched
      · exact Or.inr (Or.inl ⟨rfl, Or.inr trivial⟩)
  | unset => exact Or.inl rfl
  | bad e => exact Or.inl rfl

/-- Only callbacks store. -/
theorem move_storage (l : Dialogue O) {m : Move} (hcall : ∀ x, m ≠ .call x) :
    (s.move l m).conn.storage = l.conn.storage := by
  by_cases hcount : ∃ n, m = .count n
  · obtain ⟨n, rfl⟩ := hcount
    rw [move, countHeaderBytes]
    split_ifs
    · rfl
    · rfl
  · obtain ⟨closing, draining, -, h⟩ := s.move_answers l hcall fun n hn => hcount ⟨n, hn⟩
    exact h.storage

/-- No move breaks the count. -/
theorem move_stored {l : Dialogue O} (h : s.Stored l.conn) (m : Move) :
    s.Stored (s.move l m).conn := by
  have hsame {e : Conn O} (he : e.storage = l.conn.storage) : s.Stored e := by
    obtain ⟨hbody, hbytes⟩ := Prod.mk.inj he
    unfold Stored
    rw [hbody, hbytes]
    exact h
  by_cases hcall : ∃ x, m = .call x
  · obtain ⟨x, rfl⟩ := hcall
    rw [move]
    split_ifs
    · rcases call_storage (s := s) h.1 x with heq | ⟨hempty, -⟩ | ⟨p, -, hroom, hgrown⟩
      · exact hsame heq
      · obtain ⟨hbody, hbytes⟩ := Prod.mk.inj hempty
        unfold Stored
        rw [hbody, hbytes]
        exact ⟨rfl, Nat.zero_le _⟩
      · obtain ⟨hbody, hbytes⟩ := Prod.mk.inj hgrown
        unfold Stored
        rw [hbody, hbytes, List.length_append]
        exact ⟨rfl, hroom⟩
    · exact h
  · exact hsame (move_storage l fun x hx => hcall ⟨x, hx⟩)

/-- A parse that has stopped for good makes no more callbacks. -/
theorem run_stopped {l : Dialogue O} {e : Hpe} (he : e ≠ .paused) (h : l.errno = some e)
    (ms : List Move) : (run s.move l ms).errno = some e := by
  induction ms generalizing l with
  | nil => exact h
  | cons m ms ih =>
    apply ih
    cases m with
    | call x => simp [move, h]
    | overflow =>
      rw [move]
      split_ifs
      · exact h
      · exact h
    | deliver =>
      rw [move]
      split_ifs
      · exact h
      · exact h
    | resume =>
      rw [move, resumeErrno, h]
      split_ifs with hup hpaused
      · exact h
      · exact absurd (Option.some.inj hpaused) he
      · rfl
    | _ => exact h

/-- One callback inside a body: it does not pause, and unless it stops the parse it stores
what it brings. -/
theorem call_content (hcount : c.bodyBytes = c.body.length) {x : Call}
    (hx : Phase.body.step x = some .body) :
    (s.call c x).2 ≠ some .paused ∧
      ((s.call c x).2 = none → (s.call c x).1.body = c.body ++ decoded [.call x] ∧
        (s.call c x).1.bodyBytes = (s.call c x).1.body.length) := by
  have hcontinues {stop : Option Hpe} {e f : Conn O} (h : Conn.Continues e f stop) :
      stop ≠ some .paused := by
    rcases h.2 with rfl | ⟨rfl, -⟩
    · decide
    · decide
  have hother (hbody : ∀ p, x ≠ .span .body p) (hnext : x ≠ .messageBegin ∧ x ≠ .messageComplete) :
      (s.call c x).1.body = c.body ++ decoded [.call x] ∧
        (s.call c x).1.bodyBytes = (s.call c x).1.body.length := by
    have hnothing : decoded [.call x] = [] := by
      unfold decoded
      rw [List.flatMap_singleton]
      split
      · rename_i p heq
        exact absurd (Move.call.inj heq) (hbody p)
      · rfl
    rw [hnothing, List.append_nil]
    rcases call_storage (s := s) hcount x with heq | ⟨-, hends⟩ | ⟨p, hspan, -⟩
    · obtain ⟨hkept, hbytes⟩ := Prod.mk.inj heq
      exact ⟨hkept, by rw [hkept, hbytes, hcount]⟩
    · exact absurd hends (not_or.mpr hnext)
    · exact absurd hspan (hbody p)
  cases x with
  | span kind p =>
    refine ⟨hcontinues (s.onSpan_does p kind c).at.2.choose_spec.2.1, fun hgo => ?_⟩
    by_cases hkind : kind = .body
    · subst hkind
      rcases onBody_cases (s := s) hcount p with ⟨-, -, hstored⟩ | ⟨-, hstop, -⟩
      · obtain ⟨hbody, hbytes⟩ := Prod.mk.inj hstored
        change (s.onBody c p).1.body = _ ∧ (s.onBody c p).1.bodyBytes = (s.onBody c p).1.body.length
        rw [hbody, hbytes]
        exact ⟨congrArg (c.body ++ ·) (List.append_nil p).symm, rfl⟩
      · rw [show (s.call c (.span .body p)).2 = _ from hstop] at hgo
        cases hgo
    · exact hother (fun q hq => hkind (Call.span.inj hq).1) ⟨nofun, nofun⟩
  | headerFieldComplete => exact ⟨nofun, fun _ => hother nofun ⟨nofun, nofun⟩⟩
  | headerValueComplete =>
    exact ⟨hcontinues (s.onHeaderValueComplete_does c).at.2.choose_spec.2.1,
      fun _ => hother nofun ⟨nofun, nofun⟩⟩
  | unset => exact ⟨nofun, fun _ => hother nofun ⟨nofun, nofun⟩⟩
  | bad e => exact ⟨nofun, nofun⟩
  | messageBegin => cases hx
  | headersComplete line => cases hx
  | messageComplete => cases hx

/-- One move inside a body. -/
theorem move_content {l : Dialogue O} (herrno : l.errno ≠ some .paused)
    (hcount : l.conn.bodyBytes = l.conn.body.length) {m : Move} (hm : m.Content) :
    (s.move l m).errno ≠ some .paused ∧
      ((s.move l m).errno = none → (s.move l m).conn.body = l.conn.body ++ decoded [m] ∧
        (s.move l m).conn.bodyBytes = (s.move l m).conn.body.length) := by
  have hother (hcall : ∀ x, m ≠ .call x) (hnothing : decoded [m] = []) :
      (s.move l m).conn.body = l.conn.body ++ decoded [m] ∧
        (s.move l m).conn.bodyBytes = (s.move l m).conn.body.length := by
    obtain ⟨hbody, hbytes⟩ := Prod.mk.inj (move_storage (s := s) l hcall)
    rw [hnothing, List.append_nil, hbody, hbytes]
    exact ⟨rfl, hcount⟩
  cases m with
  | call x =>
    rw [move]
    split_ifs with hrunning
    · exact call_content hcount hm
    · exact ⟨herrno, fun hnone => absurd hnone hrunning⟩
  | count n => exact ⟨herrno, fun _ => hother (fun _ h => by cases h) rfl⟩
  | refuse id => exact ⟨herrno, fun _ => hother (fun _ h => by cases h) rfl⟩
  | overflow =>
    refine ⟨?_, fun _ => hother (fun _ h => by cases h) rfl⟩
    rw [move]
    split_ifs
    · exact herrno
    · exact herrno
  | deliver =>
    refine ⟨?_, fun _ => hother (fun _ h => by cases h) rfl⟩
    rw [move]
    split_ifs
    · exact herrno
    · exact herrno
  | resume =>
    refine ⟨?_, fun _ => hother (fun _ h => by cases h) rfl⟩
    rw [move, resumeErrno]
    split_ifs
    · exact herrno
    · exact herrno
  | drain => exact ⟨herrno, fun _ => hother (fun _ h => by cases h) rfl⟩
  | sweep => exact ⟨herrno, fun _ => hother (fun _ h => by cases h) rfl⟩

/-- What a body has become, as long as the parse has not stopped. -/
theorem run_content {l : Dialogue O} (herrno : l.errno ≠ some .paused)
    (hcount : l.conn.bodyBytes = l.conn.body.length) {ms : List Move}
    (hms : ∀ m ∈ ms, m.Content) (hgo : (run s.move l ms).errno = none) :
    (run s.move l ms).conn.body = l.conn.body ++ decoded ms ∧
      (run s.move l ms).conn.bodyBytes = (run s.move l ms).conn.body.length := by
  induction ms generalizing l with
  | nil => exact ⟨(List.append_nil _).symm, hcount⟩
  | cons m ms ih =>
    obtain ⟨hm, hrest⟩ := List.forall_mem_cons.mp hms
    obtain ⟨hrunning, hstored⟩ := move_content (s := s) herrno hcount hm
    rw [run_cons] at hgo ⊢
    have hnext : (s.move l m).errno = none := by
      by_contra hstop
      obtain ⟨e, he⟩ := Option.ne_none_iff_exists'.mp hstop
      have hnot : e ≠ .paused := fun h => hrunning (h ▸ he)
      rw [run_stopped hnot he ms] at hgo
      cases hgo
    obtain ⟨hbody, hbytes⟩ := hstored hnext
    obtain ⟨hall, hallbytes⟩ := ih hrunning hbytes hrest hgo
    have hsplit : decoded (m :: ms) = decoded [m] ++ decoded ms :=
      @List.flatMap_append _ _ [m] ms _
    exact ⟨by rw [hall, hbody, hsplit, List.append_assoc], hallbytes⟩

/-- **The ceiling keeps its promises for a request exactly if the length the request declares
is not over it, or is below 2^63 in a request that no earlier check refuses.** -/
theorem bodyCeiling_iff (s : Server O) {c d : Conn O} (urls : List Bytes)
    (fs : List SpelledField) (line : RequestLine) (h : s.heard c (headCalls urls fs) = some d) :
    s.BodyCeiling d line (presented fs) ↔
      ∀ n ∈ declaredLength (presented fs), s.bodyMax < n → n < 2 ^ 63 ∧ Plain line urls.flatten := by
  obtain ⟨hopening, hlength⟩ := heard_head h
  have hrefuses : s.RefusesDeclared d line ↔ _ := refusesDeclared_iff hopening
  rw [hlength] at hrefuses
  constructor
  · rintro ⟨hdeclared, -, -⟩ n hn hlarge
    obtain ⟨hplain, m, hm, -, hsmall⟩ := hrefuses.mp (hdeclared.mpr ⟨n, hn, hlarge⟩)
    obtain rfl := Option.mem_unique hn hm
    exact ⟨hsmall, hplain⟩
  · intro hcond
    refine ⟨hrefuses.trans ?_, fun outbox ms => ?_, fun hgo ms hms hrunning => ?_⟩
    · constructor
      · rintro ⟨-, n, hn, hlarge, -⟩
        exact ⟨n, hn, hlarge⟩
      · rintro ⟨n, hn, hlarge⟩
        obtain ⟨hsmall, hplain⟩ := hcond n hn hlarge
        exact ⟨hplain, n, hn, hlarge, hsmall⟩
    · exact throughout_of_invariant ms (fun _ m hl => move_stored hl m) ⟨rfl, Nat.zero_le _⟩
    · have hempty : (s.onHeadersComplete d line).1.storage = ([], 0) :=
        (onHeadersComplete_storage d line).trans (Prod.mk.inj (Prod.mk.inj hopening).2).2
      obtain ⟨hbody, hbytes⟩ := Prod.mk.inj hempty
      obtain ⟨hall, hallbytes⟩ := run_content (s := s)
        (l := ⟨(s.onHeadersComplete d line).1, none⟩) nofun
        (hbytes.trans (congrArg List.length hbody).symm) hms hrunning
      rw [hbody, List.nil_append] at hall
      refine ⟨hall, fun p => ?_⟩
      rw [← hall]
      rcases onBody_cases (s := s) hallbytes p with ⟨hroom, hnone, -⟩ | ⟨hfull, hstop, -⟩
      · exact iff_of_true hnone hroom
      · exact iff_of_false (fun hnone => nomatch hstop.symm.trans hnone) (not_le.mpr hfull)

/-! ## A length past the signed range -/

/-- `POST / HTTP/1.1`, kept open. -/
def postLine : RequestLine := ⟨methodPost, 1, 1, false, true⟩

theorem contentLength_named : [ascii "Content-Length"].flatten ≠ [] := by decide

/-- `Content-Length: 9223372036854775808`, which is 2^63. -/
def signedLength : SpelledField :=
  ⟨[ascii "Content-Length"], [ascii "9223372036854775808"], contentLength_named⟩

theorem bodyCeiling_of_short :
    ∃ d, guarded.heard (Conn.fresh []) (headCalls [ascii "/"] [hostField, lengthField]) = some d ∧
      guarded.BodyCeiling d postLine (presented [hostField, lengthField]) := by
  have hreached : (guarded.heard (Conn.fresh [])
      (headCalls [ascii "/"] [hostField, lengthField])).isSome = true := by decide
  obtain ⟨d, hd⟩ := Option.isSome_iff_exists.mp hreached
  have hfive : declaredLength (presented [hostField, lengthField]) = some 5 := by decide
  refine ⟨d, hd, (bodyCeiling_iff guarded [ascii "/"] _ postLine hd).mpr ?_⟩
  rw [hfive]
  rintro n hn hlarge
  obtain rfl := Option.some.inj hn
  exact absurd hlarge (by decide)

/-- A declaration of 2^63 bytes is not refused. -/
theorem signed_length_accepted :
    ¬ ∀ (s : Server (List Reply)) (c d : Conn (List Reply)) (urls : List Bytes)
      (fs : List SpelledField) (line : RequestLine), s.heard c (headCalls urls fs) = some d →
      s.BodyCeiling d line (presented fs) := by
  intro h
  have hreached : (guarded.heard (Conn.fresh [])
      (headCalls [ascii "/"] [signedLength])).isSome = true := by decide
  obtain ⟨d, hd⟩ := Option.isSome_iff_exists.mp hreached
  have hlength : declaredLength (presented [signedLength]) = some (2 ^ 63) := by decide
  obtain ⟨hopening, hdeclared⟩ := heard_head hd
  have hrefused := (h guarded _ d _ _ postLine hd).declared.mpr
    ⟨2 ^ 63, hlength, by decide⟩
  obtain ⟨-, n, hn, -, hsmall⟩ := (refusesDeclared_iff hopening).mp hrefused
  rw [hdeclared, hlength] at hn
  obtain rfl := Option.some.inj hn
  exact absurd hsmall (lt_irrefl _)

end Server
end AsmFlow.Http
