import AsmFlow.Mcp.HttpStream

/-!
# The groups of an event stream

What `af_mcp_http_sse_consume` hands to the message layer of a body that is made of
groups of lines, each ended by a blank line.
-/

namespace AsmFlow.McpHttp

open Http (ascii)
open Library
open Mcp (Child JsonLibrary Memory maxCalls)

/-! ## Groups -/

/-- A line that is not blank, and whether a carriage return stands in front of its
line feed. -/
structure TextLine where
  content : Bytes
  cr : Bool
  ne_nil : content ≠ []
  lf_notMem : (10 : UInt8) ∉ content
  no_cr : cr = false → content.getLast? ≠ some 13

/-- The end of a line, less the line feed. -/
def lineEnd (cr : Bool) : Bytes := if cr then [13] else []

def TextLine.text (l : TextLine) : Bytes := l.content ++ lineEnd l.cr

/-- Lines, and how the blank line behind them ends. -/
structure Group where
  lines : List TextLine
  cr : Bool

/-- The lines of a group, less their line feeds. -/
def Group.texts (g : Group) : List Bytes := g.lines.map TextLine.text ++ [lineEnd g.cr]

/-- The body that the groups make up. -/
def bodyOf (gs : List Group) : Bytes := ((gs.flatMap Group.texts).map (· ++ [10])).flatten

/-- The value of a data line. -/
def TextLine.data (l : TextLine) : Option Bytes :=
  if ascii "data:" <+: l.content then some (fieldValue (l.content.drop 5)) else none

/-- The data values of a group. -/
def Group.values (g : Group) : List Bytes := g.lines.filterMap TextLine.data

/-- The message of a group: its data values with line feeds between them, if one of
them is not empty. -/
def Group.message (g : Group) : Option Bytes :=
  if ∀ v ∈ g.values, v = [] then none else some ([10].intercalate g.values)

def messages (gs : List Group) : List Bytes := gs.filterMap Group.message

/-- An empty value comes first only if there are none but empty values. -/
def Group.Plain (g : Group) : Prop := g.values.head? = some [] → ∀ v ∈ g.values, v = []

/-! ## The message layer -/

/-- Who is handed the events: whether one is wanted, and what becomes of it. -/
structure Receiver (σ : Type) where
  wants : σ → Bool
  hear : σ → Bytes → σ × Status

/-- What has been decoded: the messages handed over, the receiver, the status. -/
structure Decoded (σ : Type) where
  delivered : List Bytes
  receiver : σ
  status : Status

namespace Receiver

variable {σ : Type} (R : Receiver σ) (m : Memory) (adapter : Adapter)

/-- The lines of a body, until one of them fails. -/
def decodeLines : List Bytes → Reader → σ → Decoded σ
  | [], _, s => ⟨[], s, Status.ok⟩
  | l :: ls, r, s =>
    if Field.of l = .blank then
      if r.event.data = [] then decodeLines ls r s
      else if eventCountMax ≤ r.events then ⟨[], s, Status.limit⟩
      else if R.wants s = false then ⟨[], s, Status.mcpProtocol⟩
      else
        let heard := R.hear s r.event.data
        if heard.2 < 0 then ⟨[r.event.data], heard.1, heard.2⟩
        else
          let rest := decodeLines ls r.next heard.1
          { rest with delivered := r.event.data :: rest.delivered }
    else
      let read := r.field m adapter (.of l)
      if read.2 < 0 then ⟨[], s, read.2⟩ else decodeLines ls read.1 s

/-- `af_mcp_http_sse_consume`. -/
def decode (r : Reader) (s : σ) (body : Bytes) : Decoded σ :=
  let t := R.decodeLines m adapter (lines 10 body).1 { r with event := r.event.clear } s
  if t.status < 0 then t
  else if (lines 10 body).2 = [] then t
  else { t with status := Status.mcpProtocol }

/-- The receiver wants all of these, one after the other, and refuses none. -/
def Accepts : σ → List Bytes → Prop
  | _, [] => True
  | s, e :: es => R.wants s = true ∧ ¬(R.hear s e).2 < 0 ∧ Accepts (R.hear s e).1 es

end Receiver

/-- The call of a POST, and whether its response has been seen. -/
def postReceiver (J : JsonLibrary) (m : Memory) (i : Fin maxCalls) : Receiver (Child × Bool) where
  wants s := pending s.1 i
  hear s e :=
    let heard := s.1.onMessage J m e
    if heard.2 < 0 then ((heard.1, s.2), heard.2)
    else if heard.1.unmatched ≠ s.1.unmatched then ((heard.1, s.2), Status.mcpProtocol)
    else if ended heard.1 i then
      if s.2 then ((heard.1, true), Status.mcpProtocol) else ((heard.1, true), Status.ok)
    else ((heard.1, s.2), Status.ok)

/-- The stream of a GET, which belongs to no call. -/
def getReceiver (J : JsonLibrary) (m : Memory) : Receiver Child where
  wants _ := true
  hear c e :=
    let heard := c.onMessage J m e
    if heard.2 < 0 then heard
    else if heard.1.unmatched ≠ c.unmatched then (heard.1, Status.mcpProtocol)
    else (heard.1, Status.ok)

/-! ## Lines -/

theorem trimCr_text (l : TextLine) : Mcp.trimCr l.text = l.content := by
  unfold Mcp.trimCr TextLine.text lineEnd
  cases hcr : l.cr with
  | false => simp [l.no_cr hcr]
  | true => simp

theorem field_blank (cr : Bool) : Field.of (lineEnd cr) = .blank := by
  cases cr with
  | false => rfl
  | true => rfl

theorem colon_data {c : Bytes} (h : c.head? = some 0x3A) : ¬ascii "data:" <+: c := by
  rintro ⟨rest, rfl⟩
  have hhead : (ascii "data:").head? = some 0x64 := by decide
  rw [List.head?_append, hhead] at h
  cases h

/-- A data line, and any other. -/
theorem field_text (l : TextLine) :
    (∃ v, l.data = some v ∧ Field.of l.text = .data v) ∨
      l.data = none ∧ (Field.of l.text = .other ∨ ∃ v, Field.of l.text = .id v) := by
  unfold TextLine.data Field.of
  rw [trimCr_text]
  dsimp only
  rw [if_neg l.ne_nil]
  by_cases hcolon : l.content.head? = some 0x3A
  · rw [if_pos hcolon, if_neg (colon_data hcolon)]
    exact Or.inr ⟨rfl, Or.inl rfl⟩
  · rw [if_neg hcolon]
    by_cases hdata : ascii "data:" <+: l.content
    · rw [if_pos hdata, if_pos hdata]
      exact Or.inl ⟨_, rfl, rfl⟩
    · rw [if_neg hdata, if_neg hdata]
      refine Or.inr ⟨rfl, ?_⟩
      split_ifs
      · exact Or.inr ⟨_, rfl⟩
      · exact Or.inl rfl

/-- The data so far, with one more value. -/
def gather (data : Bytes) (vs : List Bytes) : Bytes :=
  vs.foldl (fun data v => if data = [] then v else data ++ 10 :: v) data

theorem gather_cons (data v : Bytes) (vs : List Bytes) :
    gather data (v :: vs) = gather (if data = [] then v else data ++ 10 :: v) vs := rfl

theorem length_le_gather (data : Bytes) (vs : List Bytes) :
    data.length ≤ (gather data vs).length := by
  induction vs generalizing data with
  | nil => exact le_rfl
  | cons v vs ih =>
    refine le_trans ?_ (ih _)
    change data.length ≤ (if data = [] then v else data ++ 10 :: v).length
    split_ifs with hdata
    · rw [hdata]
      exact Nat.zero_le _
    · rw [List.length_append]
      exact Nat.le_add_right _ _

theorem gather_of_ne_nil {data : Bytes} (h : data ≠ []) (vs : List Bytes) :
    gather data vs = [10].intercalate (data :: vs) := by
  induction vs generalizing data with
  | nil => simp [gather]
  | cons v vs ih =>
    rw [gather_cons, if_neg h, ih (by simp)]
    cases vs with
    | nil => simp
    | cons w vs => simp [List.intercalate, List.intersperse]

/-- What is gathered of a group is its message. -/
theorem gather_message {g : Group} (h : g.Plain) :
    (g.message = none ∧ gather [] g.values = []) ∨
      ∃ e, g.message = some e ∧ gather [] g.values = e ∧ e ≠ [] := by
  unfold Group.message
  split_ifs with hempty
  · refine Or.inl ⟨rfl, ?_⟩
    generalize g.values = vs at hempty
    induction vs with
    | nil => rfl
    | cons v vs ih =>
      rw [gather_cons, if_pos rfl, hempty v List.mem_cons_self]
      exact ih fun w hw => hempty w (List.mem_cons_of_mem _ hw)
  · refine Or.inr ⟨_, rfl, ?_⟩
    cases hvalues : g.values with
    | nil =>
      rw [hvalues] at hempty
      exact absurd (fun v hv => absurd hv List.not_mem_nil) hempty
    | cons v vs =>
      have hv : v ≠ [] := by
        rintro rfl
        exact hempty (h (by rw [hvalues]; rfl))
      have hlength := length_le_gather v vs
      rw [gather_cons, if_pos rfl]
      refine ⟨gather_of_ne_nil hv vs, ?_⟩
      rw [← gather_of_ne_nil hv vs]
      intro hnil
      rw [hnil] at hlength
      exact hv (List.length_eq_zero_iff.mp (Nat.le_zero.mp hlength))

/-! ## Groups, line by line -/

/-- The allocator grants what the two buffers of a reader may ask for. -/
structure Ample (m : Memory) (r : Reader) : Prop where
  event : ∀ n ≤ r.event.max, m.alloc n = true
  lastEvent : ∀ n ≤ r.lastEvent.max, m.alloc n = true
  event_lt : r.event.max < 2 ^ 63
  lastEvent_lt : r.lastEvent.max < 2 ^ 63

/-- The limits and the count of a reader are those of another. -/
structure Reader.Like (r r' : Reader) : Prop where
  event : r'.event.max = r.event.max
  lastEvent : r'.lastEvent.max = r.lastEvent.max
  events : r'.events = r.events

theorem Reader.Like.trans {r r' r'' : Reader} (h : r.Like r') (h' : r'.Like r'') : r.Like r'' :=
  ⟨h'.event.trans h.event, h'.lastEvent.trans h.lastEvent, h'.events.trans h.events⟩

theorem Ample.like {m : Memory} {r r' : Reader} (h : Ample m r) (hlike : r.Like r') :
    Ample m r' := by
  refine ⟨?_, ?_, ?_, ?_⟩
  · rw [hlike.event]
    exact h.event
  · rw [hlike.lastEvent]
    exact h.lastEvent
  · rw [hlike.event]
    exact h.event_lt
  · rw [hlike.lastEvent]
    exact h.lastEvent_lt

/-- The id of a line is short enough to be kept, if it is kept at all. -/
def TextLine.IdFits (adapter : Adapter) (r : Reader) (l : TextLine) : Prop :=
  adapter = .legacy → ∀ v, Field.of l.text = .id v → v.length ≤ r.lastEvent.max

section Lines

variable {m : Memory} {adapter : Adapter} {r : Reader}

/-- A buffer that may grow refuses what would pass its ceiling. -/
theorem append_refused {b : Buffer} {v : Bytes} {e : Status}
    (halloc : ∀ n ≤ b.max, m.alloc n = true) (hmax : b.max < 2 ^ 63) (h : b.append m.alloc v = (b, e)) (he : e < 0) :
    b.max < b.data.length + v.length := by
  rcases Buffer.append_granting halloc hmax v with ⟨b', hok, -⟩ | ⟨-, hbig⟩
  · rw [hok] at h
    rw [← (Prod.mk.inj h).2] at he
    exact absurd he (by decide)
  · exact hbig

variable (m adapter)

/-- A value is appended, or is refused where memory or the limit of an event does. -/
theorem appendData_cases (v : Bytes) :
    (∃ r', r.appendData m v = (r', Status.ok) ∧ r.Like r' ∧
        r'.event.data = if r.event.data = [] then v else r.event.data ++ 10 :: v) ∨
      (r.appendData m v).2 < 0 ∧
        ¬(Ample m r ∧
          (if r.event.data = [] then v else r.event.data ++ 10 :: v).length ≤ r.event.max) := by
  unfold Reader.appendData
  by_cases hempty : r.event.data = []
  · rw [if_pos hempty, if_pos hempty]
    dsimp only
    rw [if_neg (by decide)]
    rcases Buffer.append_cases m.alloc r.event v with ⟨b, heq, hdata, hmax⟩ | ⟨e, he, heq⟩
    · rw [heq]
      refine Or.inl ⟨_, rfl, ⟨hmax, rfl, rfl⟩, ?_⟩
      rw [hdata, hempty, List.nil_append]
    · rw [heq]
      refine Or.inr ⟨he, ?_⟩
      rintro ⟨hample, hfits⟩
      have hbig := append_refused hample.event hample.event_lt heq he
      rw [hempty, List.length_nil, Nat.zero_add] at hbig
      exact absurd hfits (not_le.mpr hbig)
  · rw [if_neg hempty, if_neg hempty]
    dsimp only
    unfold Buffer.appendByte
    rcases Buffer.append_cases m.alloc r.event [10] with ⟨b, heq, hdata, hmax⟩ | ⟨e, he, heq⟩
    · rw [heq]
      dsimp only
      rw [if_neg (by decide)]
      rcases Buffer.append_cases m.alloc b v with ⟨b', heq', hdata', hmax'⟩ | ⟨e, he, heq'⟩
      · rw [heq']
        refine Or.inl ⟨_, rfl, ⟨hmax'.trans hmax, rfl, rfl⟩, ?_⟩
        rw [hdata', hdata, List.append_assoc, List.singleton_append]
      · rw [heq']
        refine Or.inr ⟨he, ?_⟩
        rintro ⟨hample, hfits⟩
        have hbig := append_refused (by rw [hmax]; exact hample.event)
          (by rw [hmax]; exact hample.event_lt) heq' he
        rw [hmax, hdata, List.length_append, List.length_singleton] at hbig
        rw [List.length_append, List.length_cons] at hfits
        omega
    · rw [heq, if_pos he]
      refine Or.inr ⟨he, ?_⟩
      rintro ⟨hample, hfits⟩
      have hbig := append_refused hample.event hample.event_lt heq he
      rw [List.length_singleton] at hbig
      rw [List.length_append, List.length_cons] at hfits
      omega

theorem setLastEvent_cases (v : Bytes) :
    (∃ r', r.setLastEvent m adapter v = (r', Status.ok) ∧ r.Like r' ∧
        r'.event.data = r.event.data) ∨
      (r.setLastEvent m adapter v).2 < 0 ∧
        ¬(Ample m r ∧ (adapter = .legacy → v.length ≤ r.lastEvent.max)) := by
  unfold Reader.setLastEvent
  by_cases hadapter : adapter = .legacy
  · rw [if_neg (not_not.mpr hadapter)]
    dsimp only
    rcases Buffer.append_cases m.alloc r.lastEvent.clear v with
      ⟨b, heq, -, hmax⟩ | ⟨e, he, heq⟩
    · rw [heq]
      exact Or.inl ⟨_, rfl, ⟨rfl, hmax, rfl⟩, rfl⟩
    · rw [heq]
      refine Or.inr ⟨he, ?_⟩
      rintro ⟨hample, hfits⟩
      have hbig := append_refused (b := r.lastEvent.clear) hample.lastEvent
        hample.lastEvent_lt heq he
      have hroom := hfits hadapter
      rw [Buffer.clear_data, List.length_nil, Nat.zero_add] at hbig
      exact absurd hroom (not_le.mpr hbig)
  · rw [if_pos hadapter]
    exact Or.inl ⟨r, rfl, ⟨rfl, rfl, rfl⟩, rfl⟩

variable {m adapter} in
theorem TextLine.IdFits.like {r' : Reader} {l : TextLine} (h : l.IdFits adapter r)
    (hlike : r.Like r') : l.IdFits adapter r' := by
  intro hadapter v hid
  rw [hlike.lastEvent]
  exact h hadapter v hid

variable {σ : Type} (R : Receiver σ)

theorem decodeLines_field {l : Bytes} (h : Field.of l ≠ .blank) (ls : List Bytes) (r : Reader)
    (s : σ) :
    R.decodeLines m adapter (l :: ls) r s =
      if (r.field m adapter (.of l)).2 < 0 then ⟨[], s, (r.field m adapter (.of l)).2⟩
      else R.decodeLines m adapter ls (r.field m adapter (.of l)).1 s := by
  rw [Receiver.decodeLines, if_neg h]

/-- A line of a group adds its value to the event, or ends the decoding. -/
theorem decode_line (l : TextLine) (ls : List Bytes) (r : Reader) (s : σ) :
    (∃ r', R.decodeLines m adapter (l.text :: ls) r s = R.decodeLines m adapter ls r' s ∧
        r.Like r' ∧ r'.event.data = gather r.event.data l.data.toList) ∨
      (∃ st < 0, R.decodeLines m adapter (l.text :: ls) r s = ⟨[], s, st⟩) ∧
        ¬(Ample m r ∧ (gather r.event.data l.data.toList).length ≤ r.event.max ∧
          l.IdFits adapter r) := by
  have hok : ¬Status.ok < 0 := by decide
  rcases field_text l with ⟨v, hdata, hfield⟩ | ⟨hdata, hother | ⟨v, hid⟩⟩
  · rw [decodeLines_field m adapter R (by rw [hfield]; exact Field.noConfusion), hfield, hdata]
    have hgather : gather r.event.data (some v).toList =
        if r.event.data = [] then v else r.event.data ++ 10 :: v := rfl
    have hread : r.field m adapter (.data v) = r.appendData m v := rfl
    rw [hgather, hread]
    rcases appendData_cases m (r := r) v with ⟨r', heq, hlike, hevent⟩ | ⟨hneg, hnot⟩
    · rw [heq]
      exact Or.inl ⟨r', if_neg hok, hlike, hevent⟩
    · rw [if_pos hneg]
      refine Or.inr ⟨⟨_, hneg, rfl⟩, ?_⟩
      rintro ⟨hample, hfits, _⟩
      exact hnot ⟨hample, hfits⟩
  · rw [decodeLines_field m adapter R (by rw [hother]; exact Field.noConfusion), hother, hdata]
    exact Or.inl ⟨r, if_neg hok, ⟨rfl, rfl, rfl⟩, rfl⟩
  · rw [decodeLines_field m adapter R (by rw [hid]; exact Field.noConfusion), hid, hdata]
    have hread : r.field m adapter (.id v) = r.setLastEvent m adapter v := rfl
    rw [hread]
    rcases setLastEvent_cases m adapter v with
      ⟨r', heq, hlike, hevent⟩ | ⟨hneg, hnot⟩
    · rw [heq]
      exact Or.inl ⟨r', if_neg hok, hlike, hevent⟩
    · rw [if_pos hneg]
      refine Or.inr ⟨⟨_, hneg, rfl⟩, ?_⟩
      rintro ⟨hample, -, hfits⟩
      exact hnot ⟨hample, fun hadapter => hfits hadapter v hid⟩

theorem gather_append (data : Bytes) (vs ws : List Bytes) :
    gather data (vs ++ ws) = gather (gather data vs) ws := List.foldl_append

theorem filterMap_data_cons (l : TextLine) (ts : List TextLine) :
    (l :: ts).filterMap TextLine.data = l.data.toList ++ ts.filterMap TextLine.data := by
  rw [List.filterMap_cons]
  cases l.data with
  | none => rfl
  | some v => rfl

/-- The lines of a group add their values, one after the other. -/
theorem decode_texts (ts : List TextLine) (ls : List Bytes) (r : Reader) (s : σ) :
    (∃ r', R.decodeLines m adapter (ts.map TextLine.text ++ ls) r s =
          R.decodeLines m adapter ls r' s ∧
        r.Like r' ∧ r'.event.data = gather r.event.data (ts.filterMap TextLine.data)) ∨
      (∃ st < 0, R.decodeLines m adapter (ts.map TextLine.text ++ ls) r s = ⟨[], s, st⟩) ∧
        ¬(Ample m r ∧
          (gather r.event.data (ts.filterMap TextLine.data)).length ≤ r.event.max ∧
          ∀ l ∈ ts, l.IdFits adapter r) := by
  induction ts generalizing r with
  | nil => exact Or.inl ⟨r, rfl, ⟨rfl, rfl, rfl⟩, rfl⟩
  | cons l ts ih =>
    rw [List.map_cons, List.cons_append, filterMap_data_cons, gather_append]
    rcases decode_line m adapter R l (ts.map TextLine.text ++ ls) r s
      with ⟨r₁, heq, hlike, hevent⟩ | ⟨⟨st, hst, heq⟩, hnot⟩
    · rw [heq, ← hevent]
      rcases ih r₁ with ⟨r', heq', hlike', hevent'⟩ | ⟨herror, hnot⟩
      · exact Or.inl ⟨r', heq', hlike.trans hlike', hevent'⟩
      · refine Or.inr ⟨herror, ?_⟩
        rintro ⟨hample, hfits, hids⟩
        refine hnot ⟨hample.like hlike, ?_, ?_⟩
        · rw [hlike.event]
          exact hfits
        · exact fun k hk => (hids k (List.mem_cons_of_mem l hk)).like hlike
    · rw [heq]
      refine Or.inr ⟨⟨st, hst, rfl⟩, ?_⟩
      rintro ⟨hample, hfits, hids⟩
      exact hnot ⟨hample, (length_le_gather _ _).trans hfits, hids l List.mem_cons_self⟩

/-- What a group does: nothing, its message is handed over, or the decoding ends. -/
inductive Heeds (R : Receiver σ) (m : Memory) (adapter : Adapter) (g : Group) (ls : List Bytes)
    (r : Reader) (s : σ) : Prop
  | nothing (r' : Reader) (hmessage : g.message = none) (hlike : r.Like r')
      (hevent : r'.event.data = [])
      (heq : R.decodeLines m adapter (g.texts ++ ls) r s = R.decodeLines m adapter ls r' s)
  | heard (r' : Reader) (e : Bytes) (hmessage : g.message = some e) (hlike : r.Like r')
      (hevent : r'.event.data = e) (hne : e ≠ []) (hcount : r.events < eventCountMax)
      (hwants : R.wants s = true) (hok : ¬(R.hear s e).2 < 0)
      (heq : R.decodeLines m adapter (g.texts ++ ls) r s =
        { R.decodeLines m adapter ls r'.next (R.hear s e).1 with
          delivered := e :: (R.decodeLines m adapter ls r'.next (R.hear s e).1).delivered })
  | refused (e : Bytes) (hmessage : g.message = some e) (hneg : (R.hear s e).2 < 0)
      (heq : R.decodeLines m adapter (g.texts ++ ls) r s =
        ⟨[e], (R.hear s e).1, (R.hear s e).2⟩)
  | ended (st : Status) (hst : st < 0)
      (hnot : ¬(Ample m r ∧ (∀ e ∈ g.message, e.length ≤ r.event.max) ∧
        (∀ l ∈ g.lines, l.IdFits adapter r) ∧
        (g.message ≠ none → r.events < eventCountMax ∧ R.wants s = true)))
      (heq : R.decodeLines m adapter (g.texts ++ ls) r s = ⟨[], s, st⟩)

theorem decode_group {g : Group} (hplain : g.Plain) (ls : List Bytes) {r : Reader} (s : σ)
    (hempty : r.event.data = []) : Heeds R m adapter g ls r s := by
  have htexts : g.texts ++ ls = g.lines.map TextLine.text ++ (lineEnd g.cr :: ls) := by
    rw [Group.texts, List.append_assoc, List.singleton_append]
  have hvalues : g.lines.filterMap TextLine.data = g.values := rfl
  rcases decode_texts m adapter R g.lines (lineEnd g.cr :: ls) r s
    with ⟨r', heq, hlike, hevent⟩ | ⟨⟨st, hst, heq⟩, hnot⟩
  · rw [hempty, hvalues] at hevent
    rw [← htexts, Receiver.decodeLines, if_pos (field_blank g.cr)] at heq
    rcases gather_message hplain with ⟨hmessage, hgather⟩ | ⟨e, hmessage, hgather, hne⟩
    · rw [hgather] at hevent
      rw [if_pos hevent] at heq
      exact .nothing r' hmessage hlike hevent heq
    · rw [hgather] at hevent
      rw [hevent, if_neg hne] at heq
      by_cases hcount : eventCountMax ≤ r'.events
      · rw [if_pos hcount] at heq
        refine .ended _ (by decide) ?_ heq
        rintro ⟨-, -, -, hroom⟩
        rw [hlike.events] at hcount
        exact absurd (hroom (by rw [hmessage]; exact Option.some_ne_none e)).1
          (not_lt.mpr hcount)
      · rw [if_neg hcount] at heq
        by_cases hwants : R.wants s = false
        · rw [if_pos hwants] at heq
          refine .ended _ (by decide) ?_ heq
          rintro ⟨-, -, -, hroom⟩
          have hyes := (hroom (by rw [hmessage]; exact Option.some_ne_none e)).2
          rw [hwants] at hyes
          cases hyes
        · rw [if_neg hwants] at heq
          rw [hlike.events] at hcount
          dsimp only at heq
          by_cases hneg : (R.hear s e).2 < 0
          · rw [if_pos hneg] at heq
            exact .refused e hmessage hneg heq
          · rw [if_neg hneg] at heq
            exact .heard r' e hmessage hlike hevent hne (not_le.mp hcount)
              (Bool.eq_true_of_not_eq_false hwants) hneg heq
  · rw [← htexts] at heq
    refine .ended st hst ?_ heq
    rintro ⟨hample, hfits, hids, -⟩
    refine hnot ⟨hample, ?_, hids⟩
    rw [hempty, hvalues]
    rcases gather_message hplain with ⟨-, hgather⟩ | ⟨e, hmessage, hgather, -⟩
    · rw [hgather]
      exact Nat.zero_le _
    · rw [hgather]
      exact hfits e hmessage

/-- The groups stay within the limits, and the message layer takes what they say. -/
structure Within (R : Receiver σ) (m : Memory) (adapter : Adapter) (r : Reader) (s : σ)
    (gs : List Group) : Prop where
  ample : Ample m r
  length : ∀ e ∈ messages gs, e.length ≤ r.event.max
  ids : ∀ g ∈ gs, ∀ l ∈ g.lines, l.IdFits adapter r
  count : r.events + (messages gs).length ≤ eventCountMax
  accepts : R.Accepts s (messages gs)

/-- What is handed over of groups with these messages. -/
structure HandsOver (t : Decoded σ) (es : List Bytes) (within : Prop) : Prop where
  isPrefix : t.delivered <+: es
  complete : ¬t.status < 0 → t.delivered = es
  ok : within → t.status = Status.ok

theorem messages_cons (g : Group) (gs : List Group) :
    messages (g :: gs) = g.message.toList ++ messages gs := by
  unfold messages
  rw [List.filterMap_cons]
  cases g.message with
  | none => rfl
  | some e => rfl

theorem decode_groups {gs : List Group} (hplain : ∀ g ∈ gs, g.Plain) {r : Reader} (s : σ)
    (hempty : r.event.data = []) :
    HandsOver (R.decodeLines m adapter (gs.flatMap Group.texts) r s) (messages gs)
      (Within R m adapter r s gs) := by
  induction gs generalizing r s with
  | nil => exact ⟨List.nil_prefix, fun _ => rfl, fun _ => rfl⟩
  | cons g gs ih =>
    have hplain' : ∀ g' ∈ gs, g'.Plain := fun g' hg' => hplain g' (List.mem_cons_of_mem g hg')
    rw [List.flatMap_cons, messages_cons]
    cases decode_group m adapter R (hplain g List.mem_cons_self)
      (gs.flatMap Group.texts) s hempty with
    | nothing r' hmessage hlike hevent heq =>
      rw [heq, hmessage]
      obtain ⟨hpre, hcomplete, hok⟩ := ih hplain' s hevent
      refine ⟨hpre, hcomplete, ?_⟩
      rintro ⟨hample, hlength, hids, hcount, haccepts⟩
      rw [messages_cons, hmessage] at hlength hcount haccepts
      refine hok ⟨hample.like hlike, ?_, ?_, ?_, haccepts⟩
      · rw [hlike.event]
        exact hlength
      · exact fun g' hg' l hl => (hids g' (List.mem_cons_of_mem g hg') l hl).like hlike
      · rw [hlike.events]
        exact hcount
    | heard r' e hmessage hlike hevent hne hcount hwants hheard heq =>
      rw [heq, hmessage]
      have hlike' : r.event.max = r'.next.event.max ∧ r.lastEvent.max = r'.next.lastEvent.max ∧
          r'.next.events = r.events + 1 :=
        ⟨hlike.event.symm, hlike.lastEvent.symm, congrArg (· + 1) hlike.events⟩
      obtain ⟨hevent', hlast', hevents'⟩ := hlike'
      obtain ⟨hpre, hcomplete, hok⟩ := ih hplain' (R.hear s e).1 (r := r'.next) rfl
      refine ⟨?_, ?_, ?_⟩
      · exact List.cons_prefix_cons.mpr ⟨rfl, hpre⟩
      · exact fun hstatus => congrArg (e :: ·) (hcomplete hstatus)
      · rintro ⟨hample, hlength, hids, hcount', haccepts⟩
        rw [messages_cons, hmessage] at hlength hcount' haccepts
        refine hok ⟨⟨?_, ?_, ?_, ?_⟩, ?_, ?_, ?_, haccepts.2.2⟩
        · rw [← hevent']
          exact hample.event
        · rw [← hlast']
          exact hample.lastEvent
        · rw [← hevent']
          exact hample.event_lt
        · rw [← hlast']
          exact hample.lastEvent_lt
        · rw [← hevent']
          exact fun e' he' => hlength e' (List.mem_cons_of_mem e he')
        · intro g' hg' l hl hadapter v hid
          rw [← hlast']
          exact hids g' (List.mem_cons_of_mem g hg') l hl hadapter v hid
        · rw [hevents']
          change r.events + ((messages gs).length + 1) ≤ eventCountMax at hcount'
          omega
    | refused e hmessage hneg heq =>
      rw [heq, hmessage]
      refine ⟨?_, fun hstatus => absurd hneg hstatus, ?_⟩
      · exact List.cons_prefix_cons.mpr ⟨rfl, List.nil_prefix⟩
      · rintro ⟨-, -, -, -, haccepts⟩
        rw [messages_cons, hmessage] at haccepts
        exact absurd hneg haccepts.2.1
    | ended st hst hnot heq =>
      rw [heq]
      refine ⟨List.nil_prefix, fun hstatus => absurd hst hstatus, ?_⟩
      rintro ⟨hample, hlength, hids, hcount, haccepts⟩
      refine absurd ⟨hample, ?_, hids g List.mem_cons_self, ?_⟩ hnot
      · intro e he
        refine hlength e ?_
        rw [messages_cons]
        exact List.mem_append_left _ (Option.mem_toList.mpr he)
      · intro hne
        obtain ⟨e, hmessage⟩ := Option.ne_none_iff_exists'.mp hne
        rw [messages_cons, hmessage] at hcount haccepts
        change r.events + ((messages gs).length + 1) ≤ eventCountMax at hcount
        exact ⟨by omega, haccepts.1⟩

theorem lf_notMem_lineEnd (cr : Bool) : (10 : UInt8) ∉ lineEnd cr := by
  cases cr with
  | false => decide
  | true => decide

theorem lf_notMem_texts (gs : List Group) : ∀ l ∈ gs.flatMap Group.texts, (10 : UInt8) ∉ l := by
  intro l hl
  obtain ⟨g, -, hg⟩ := List.mem_flatMap.mp hl
  rcases List.mem_append.mp hg with hline | hblank
  · obtain ⟨t, -, rfl⟩ := List.mem_map.mp hline
    rw [TextLine.text, List.mem_append, not_or]
    exact ⟨t.lf_notMem, lf_notMem_lineEnd t.cr⟩
  · rw [List.mem_singleton.mp hblank]
    exact lf_notMem_lineEnd g.cr

theorem lines_bodyOf (gs : List Group) : lines 10 (bodyOf gs) = (gs.flatMap Group.texts, []) := by
  have hlines := lines_of_flatten (t := []) (lf_notMem_texts gs) List.not_mem_nil
  rwa [List.append_nil] at hlines

/-- The messages of a body are handed over in order, up to the first failure. -/
theorem sse_messages {gs : List Group} (hplain : ∀ g ∈ gs, g.Plain) (r : Reader) (s : σ) :
    HandsOver (R.decode m adapter r s (bodyOf gs)) (messages gs)
      (Within R m adapter r s gs) := by
  unfold Receiver.decode
  rw [lines_bodyOf]
  dsimp only
  rw [if_pos rfl, ite_self]
  obtain ⟨hpre, hcomplete, hok⟩ := decode_groups m adapter R hplain
    (r := { r with event := r.event.clear }) s rfl
  refine ⟨hpre, hcomplete, ?_⟩
  rintro ⟨⟨halloc, hallocLast, hmax, hmaxLast⟩, hlength, hids, hcount, haccepts⟩
  exact hok ⟨⟨halloc, hallocLast, hmax, hmaxLast⟩, hlength, hids, hcount, haccepts⟩

end Lines

/-! ## The decoder of a POST -/

section Post

variable (J : JsonLibrary) (m : Memory) (adapter : Adapter) (i : Fin maxCalls)

/-- The decoder of a POST is the decoder for its receiver. -/
structure Tracks (t : Stream × Status) (d : Decoded (Child × Bool)) : Prop where
  receiver : (t.1.child, t.1.finalSeen) = d.receiver
  status : t.2 = d.status

/-- An event of a pending call goes to the receiver. -/
theorem dispatch_hear {st : Stream} (hempty : st.reader.event.data ≠ [])
    (hcount : ¬eventCountMax ≤ st.reader.events) (hpending : pending st.child i ≠ false) :
    ((st.dispatch J m i).1.child, (st.dispatch J m i).1.finalSeen) =
        ((postReceiver J m i).hear (st.child, st.finalSeen) st.reader.event.data).1 ∧
      (st.dispatch J m i).2 =
        ((postReceiver J m i).hear (st.child, st.finalSeen) st.reader.event.data).2 ∧
      (¬(st.dispatch J m i).2 < 0 → (st.dispatch J m i).1.reader = st.reader.next) := by
  unfold Stream.dispatch postReceiver
  have hrefused : Status.mcpProtocol < 0 := by decide
  rw [if_neg hempty, if_neg hcount, if_neg hpending]
  dsimp only
  by_cases hneg : (st.child.onMessage J m st.reader.event.data).2 < 0
  · rw [if_pos hneg, if_pos hneg]
    exact ⟨rfl, rfl, fun hnot => absurd hneg hnot⟩
  · rw [if_neg hneg, if_neg hneg]
    by_cases hmatched :
      (st.child.onMessage J m st.reader.event.data).1.unmatched ≠ st.child.unmatched
    · rw [if_pos hmatched, if_pos hmatched]
      exact ⟨rfl, rfl, fun hnot => absurd hrefused hnot⟩
    · rw [if_neg hmatched, if_neg hmatched]
      by_cases hended : ended (st.child.onMessage J m st.reader.event.data).1 i = true
      · rw [if_pos hended, if_pos hended]
        by_cases hseen : st.finalSeen = true
        · rw [if_pos hseen, if_pos hseen]
          exact ⟨rfl, rfl, fun hnot => absurd hrefused hnot⟩
        · rw [if_neg hseen, if_neg hseen]
          exact ⟨rfl, rfl, fun _ => rfl⟩
      · rw [if_neg hended, if_neg hended]
        exact ⟨rfl, rfl, fun _ => rfl⟩

theorem takeLines_decodeLines (ls : List Bytes) (st : Stream) :
    Tracks (Stream.takeLines J m adapter i ls st)
      ((postReceiver J m i).decodeLines m adapter ls st.reader (st.child, st.finalSeen)) := by
  induction ls generalizing st with
  | nil => exact ⟨rfl, rfl⟩
  | cons l ls ih =>
    have hok : ¬Status.ok < 0 := by decide
    unfold Stream.takeLines Stream.takeLine
    by_cases hblank : Field.of l = .blank
    · rw [Receiver.decodeLines, if_pos hblank, if_pos hblank]
      by_cases hempty : st.reader.event.data = []
      · have hdispatch : st.dispatch J m i = (st, Status.ok) := if_pos hempty
        rw [hdispatch, if_pos hempty]
        exact ih st
      · rw [if_neg hempty]
        by_cases hcount : eventCountMax ≤ st.reader.events
        · have hdispatch : st.dispatch J m i = (st, Status.limit) := by
            unfold Stream.dispatch
            rw [if_neg hempty, if_pos hcount]
          rw [hdispatch, if_pos hcount]
          exact ⟨rfl, rfl⟩
        · rw [if_neg hcount]
          by_cases hpending : pending st.child i = false
          · have hdispatch : st.dispatch J m i = (st, Status.mcpProtocol) := by
              unfold Stream.dispatch
              rw [if_neg hempty, if_neg hcount, if_pos hpending]
            have hwants : (postReceiver J m i).wants (st.child, st.finalSeen) = false := hpending
            rw [hdispatch, if_pos hwants]
            exact ⟨rfl, rfl⟩
          · have hwants : ¬(postReceiver J m i).wants (st.child, st.finalSeen) = false := hpending
            obtain ⟨hreceiver, hstatus, hreader⟩ := dispatch_hear J m i hempty hcount hpending
            rw [if_neg hwants]
            dsimp only
            rw [← hstatus, ← hreceiver]
            by_cases hneg : (st.dispatch J m i).2 < 0
            · rw [if_pos hneg, if_pos hneg]
              exact ⟨rfl, rfl⟩
            · rw [if_neg hneg, if_neg hneg, ← hreader hneg]
              exact ⟨(ih _).receiver, (ih _).status⟩
    · rw [decodeLines_field m adapter _ hblank, if_neg hblank]
      by_cases hneg : (st.reader.field m adapter (.of l)).2 < 0
      · rw [if_pos hneg, if_pos hneg]
        exact ⟨rfl, rfl⟩
      · rw [if_neg hneg, if_neg hneg]
        exact ih _

theorem takeLines_ok {ls : List Bytes} {st : Stream}
    (h : ¬(Stream.takeLines J m adapter i ls st).2 < 0) :
    (Stream.takeLines J m adapter i ls st).2 = Status.ok := by
  induction ls generalizing st with
  | nil => rfl
  | cons l ls ih =>
    unfold Stream.takeLines at h ⊢
    by_cases hneg : (st.takeLine J m adapter i l).2 < 0
    · rw [if_pos hneg] at h
      exact absurd hneg h
    · rw [if_neg hneg] at h ⊢
      exact ih h

theorem consume_decode (st : Stream) (body : Bytes) :
    Tracks (st.consume J m adapter i body)
      ((postReceiver J m i).decode m adapter st.reader (st.child, st.finalSeen) body) := by
  obtain ⟨hreceiver, hstatus⟩ := takeLines_decodeLines J m adapter i (lines 10 body).1
    { st with reader := { st.reader with event := st.reader.event.clear } }
  unfold Stream.consume Receiver.decode
  dsimp only
  rw [← hstatus]
  split_ifs with hneg hwhole
  · exact ⟨hreceiver, hstatus⟩
  · exact ⟨hreceiver, (takeLines_ok J m adapter i hneg).symm.trans hstatus⟩
  · exact ⟨hreceiver, rfl⟩

end Post

/-! ## A body with two groups, one of them with data -/

private def takesAll : Receiver Unit := ⟨fun _ => true, fun _ _ => ((), Status.ok)⟩

private def grantsAll : Memory := ⟨fun _ => true, fun _ => true, fun _ => true⟩

private def noteLine : TextLine :=
  ⟨ascii ": note", true, by decide +kernel, by decide +kernel, by decide +kernel⟩

private def firstLine : TextLine :=
  ⟨ascii "data: a", true, by decide +kernel, by decide +kernel, by decide +kernel⟩

private def secondLine : TextLine :=
  ⟨ascii "data:b", false, by decide +kernel, by decide +kernel, by decide +kernel⟩

private def eventLine : TextLine :=
  ⟨ascii "event: x", false, by decide +kernel, by decide +kernel, by decide +kernel⟩

private def emptyLine : TextLine :=
  ⟨ascii "data:", false, by decide +kernel, by decide +kernel, by decide +kernel⟩

private def twoGroups : List Group :=
  [⟨[noteLine, firstLine, secondLine], true⟩, ⟨[eventLine], false⟩]

private theorem twoGroups_plain : ∀ g ∈ twoGroups, g.Plain := by
  intro g hg hhead
  fin_cases hg
  · exact absurd hhead (by decide)
  · exact absurd hhead (by decide)

/-- The two values are one message, and the other group says nothing. -/
theorem sse_messages_two :
    (takesAll.decode grantsAll .modern (.start 1024 (Buffer.init sessionMax)) ()
      (bodyOf twoGroups)).delivered = [ascii "a" ++ 10 :: ascii "b"] := by
  have hmessages : messages twoGroups = [ascii "a" ++ 10 :: ascii "b"] := by decide
  have hand := sse_messages grantsAll .modern takesAll twoGroups_plain
    (.start 1024 (Buffer.init sessionMax)) ()
  rw [← hmessages]
  exact hand.complete (by decide)

/-- The data values of a group, empty or not. -/
def Group.joined (g : Group) : Option Bytes :=
  if g.values = [] then none else some ([10].intercalate g.values)

/-- An empty data value alone is no message. -/
theorem sse_messages_empty :
    ¬∀ (m : Memory) (adapter : Adapter) (gs : List Group) (r : Reader),
      Within takesAll m adapter r () gs →
        (takesAll.decode m adapter r () (bodyOf gs)).delivered = gs.filterMap Group.joined := by
  intro h
  have hmessages : messages [⟨[emptyLine], false⟩] = [] := by decide
  have hwithin : Within takesAll grantsAll .modern (.start 1024 (Buffer.init sessionMax)) ()
      [⟨[emptyLine], false⟩] := by
    refine ⟨⟨fun _ _ => rfl, fun _ _ => rfl, by decide, by decide⟩, ?_, ?_, ?_, ?_⟩
    · rw [hmessages]
      exact fun e he => absurd he List.not_mem_nil
    · intro g _ l _ hadapter
      cases hadapter
    · rw [hmessages]
      decide
    · rw [hmessages]
      trivial
  have hdelivered := h grantsAll .modern [⟨[emptyLine], false⟩]
    (.start 1024 (Buffer.init sessionMax)) hwithin
  exact absurd hdelivered (by decide)

end AsmFlow.McpHttp
