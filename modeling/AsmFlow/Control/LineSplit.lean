import AsmFlow.Control.Draining

/-!
# Frames are the lines of the stream

`af_ctl_frame_next` and `af_ctl_frame_consume` in turn, on an inbox that a stream reaches in any
fragments, against the lines of the stream.
-/

namespace AsmFlow.Control

open Json Library Mcp

/-- UTF-8 within the ceiling, with the line feed. -/
def goodLine (frameMax : ℕ) (l : Bytes) : Bool := decide (l.length < frameMax) && utf8Validate l

/-- The frames taken, the status that ended the taking, and what is left. -/
structure Taken where
  frames : List Bytes
  status : Status
  inbox : Buffer

/-- Both calls in turn, with so many turns; out of turns is no status of a call that failed. -/
def takeFrames (frameMax : ℕ) : ℕ → Buffer → Taken
  | 0, inbox => ⟨[], .ok, inbox⟩
  | turns + 1, inbox =>
    match frameNext inbox.data frameMax with
    | .error st => ⟨[], st, inbox⟩
    | .ok frame =>
      match frameConsume inbox frame.length with
      | (rest, st) =>
        if st < 0 then ⟨[frame], st, rest⟩
        else
          ⟨frame :: (takeFrames frameMax turns rest).frames,
            (takeFrames frameMax turns rest).status, (takeFrames frameMax turns rest).inbox⟩

/-- Frames are taken as long as there is one. -/
def takeAll (frameMax : ℕ) (inbox : Buffer) : Taken := takeFrames frameMax (inbox.len + 1) inbox

/-- A stream arrives in fragments, and after each the frames are taken that there are, up to a
failure. -/
inductive Arrives (frameMax : ℕ) : Buffer → List Bytes → Taken → Prop
  | done (inbox : Buffer) : Arrives frameMax inbox [] ⟨[], .again, inbox⟩
  | more {inbox filled : Buffer} {d : Bytes} {ds : List Bytes} {r : Taken}
      (hdata : filled.data = inbox.data ++ d) (hagain : (takeAll frameMax filled).status = .again)
      (hrest : Arrives frameMax (takeAll frameMax filled).inbox ds r) :
      Arrives frameMax inbox (d :: ds)
        ⟨(takeAll frameMax filled).frames ++ r.frames, r.status, r.inbox⟩
  | stop {inbox filled : Buffer} {d : Bytes} (ds : List Bytes)
      (hdata : filled.data = inbox.data ++ d) (hstop : (takeAll frameMax filled).status ≠ .again) :
      Arrives frameMax inbox (d :: ds) (takeAll frameMax filled)

/-- The complete lines of a stream, and the incomplete one if bytes of it are there. -/
def pieces (s : Bytes) : List Bytes :=
  (lines 10 s).1 ++ if (lines 10 s).2 = [] then [] else [(lines 10 s).2]

/-- The status that a stream ends with: that of its first line that is not good, or of a tail
that reaches the ceiling. -/
def verdict (frameMax : ℕ) (s : Bytes) : Status :=
  match (lines 10 s).1.dropWhile (goodLine frameMax) with
  | l :: _ => if frameMax ≤ l.length then .ctlFrameLarge else .mcpProtocol
  | [] =>
    if (lines 10 s).2 ≠ [] ∧ frameMax ≤ (lines 10 s).2.length then .ctlFrameLarge else .again

/-- The frames of a stream, up to its first line that is not good. -/
def framesOf (frameMax : ℕ) (s : Bytes) : List Bytes :=
  ((lines 10 s).1.takeWhile (goodLine frameMax)).map trimCr

/-! ## A carriage return and UTF-8 -/

/-- The last byte of a character is a carriage return only where the character is. -/
theorem utf8EncodeChar_return {c : Char} {s : Bytes} (h : String.utf8EncodeChar c = s ++ [13]) :
    s = [] := by
  have hmap := utf8EncodeChar_toNat c
  rw [h, List.map_append] at hmap
  have hlast := congrArg List.getLast? hmap
  rw [List.map_singleton, List.getLast?_append_of_ne_nil _ (by simp)] at hlast
  split_ifs at hmap hlast with h1 h2 h3
  · have hlen := congrArg List.length hmap
    simpa using hlen
  all_goals simp at hlast

theorem utf8Validate_trimCr (l : Bytes) : utf8Validate (trimCr l) = utf8Validate l := by
  unfold trimCr
  split_ifs with hcr
  · obtain ⟨m, rfl⟩ := List.getLast?_eq_some_iff.mp hcr
    rw [List.dropLast_concat, Bool.eq_iff_iff, utf8Validate_iff, utf8Validate_iff]
    constructor
    · rintro ⟨cs, rfl⟩
      exact ⟨cs ++ ['\r'], by rw [utf8Text, utf8Text, List.flatMap_append]; rfl⟩
    · rintro ⟨cs, hcs⟩
      rcases List.eq_nil_or_concat cs with rfl | ⟨ds, c, rfl⟩
      · exact absurd (congrArg List.length hcs) (by simp [utf8Text])
      · have hsplit : utf8Text (ds.concat c) = utf8Text ds ++ String.utf8EncodeChar c := by
          simp [utf8Text]
        rcases List.eq_nil_or_concat (String.utf8EncodeChar c) with hnil | ⟨s, x, hc⟩
        · exact absurd hnil String.utf8EncodeChar_ne_nil
        · rw [List.concat_eq_append] at hc
          rw [hsplit, hc, ← List.append_assoc] at hcs
          obtain ⟨hm, hx⟩ := List.append_inj' hcs rfl
          obtain rfl := List.singleton_inj.mp hx
          exact ⟨ds, by rw [hm, utf8EncodeChar_return hc, List.append_nil]⟩
  · rfl

theorem goodLine_iff (frameMax : ℕ) (l : Bytes) :
    goodLine frameMax l = true ↔ l.length < frameMax ∧ utf8Validate l = true := by
  unfold goodLine
  rw [Bool.and_eq_true, decide_eq_true_eq]

theorem proper_of_goodLine {frameMax : ℕ} {l : Bytes} (h : goodLine frameMax l = true)
    (hline : (10 : UInt8) ∉ l) : Proper frameMax l := by
  obtain ⟨hlen, htext⟩ := (goodLine_iff frameMax l).mp h
  exact ⟨hline, hlen, by rw [utf8Validate_trimCr, htext]⟩

/-! ## The stream -/

section Stream

variable {frameMax : ℕ} {l s : Bytes}

theorem verdict_tail (h : (10 : UInt8) ∉ s) :
    verdict frameMax s = if s ≠ [] ∧ frameMax ≤ s.length then .ctlFrameLarge else .again := by
  unfold verdict
  rw [lines_of_notMem h]
  rfl

theorem framesOf_tail (h : (10 : UInt8) ∉ s) : framesOf frameMax s = [] := by
  unfold framesOf
  rw [lines_of_notMem h]
  rfl

theorem verdict_line (h : (10 : UInt8) ∉ l) (s : Bytes) :
    verdict frameMax (l ++ 10 :: s) =
      if goodLine frameMax l = true then verdict frameMax s
      else if frameMax ≤ l.length then .ctlFrameLarge else .mcpProtocol := by
  unfold verdict
  rw [lines_line h, List.dropWhile_cons]
  by_cases hgood : goodLine frameMax l = true
  · rw [if_pos hgood, if_pos hgood]
  · rw [if_neg hgood, if_neg hgood]

theorem framesOf_line (h : (10 : UInt8) ∉ l) (s : Bytes) :
    framesOf frameMax (l ++ 10 :: s) =
      if goodLine frameMax l = true then trimCr l :: framesOf frameMax s else [] := by
  unfold framesOf
  rw [lines_line h, List.takeWhile_cons]
  split_ifs <;> rfl

/-- What arrives behind lines that are all good goes behind the tail. -/
theorem verdict_append (t : Bytes) (h : verdict frameMax s = .again) :
    verdict frameMax (s ++ t) = verdict frameMax ((lines 10 s).2 ++ t) ∧
      framesOf frameMax (s ++ t) =
        framesOf frameMax s ++ framesOf frameMax ((lines 10 s).2 ++ t) := by
  induction s using lines_induction (10 : UInt8) with
  | htail s hs =>
    rw [lines_of_notMem hs, framesOf_tail hs]
    exact ⟨rfl, rfl⟩
  | hline l s hl ih =>
    rw [verdict_line hl] at h
    by_cases hgood : goodLine frameMax l = true
    · rw [if_pos hgood] at h
      obtain ⟨hverdict, hframes⟩ := ih h
      rw [lines_line hl, List.append_assoc, List.cons_append, verdict_line hl, framesOf_line hl,
        framesOf_line hl, if_pos hgood, if_pos hgood, if_pos hgood, hverdict, hframes]
      exact ⟨rfl, rfl⟩
    · rw [if_neg hgood] at h
      split_ifs at h <;> exact absurd h (by decide)

/-- A stream that has failed is not mended by what arrives. -/
theorem verdict_failed (t : Bytes) (h : verdict frameMax s ≠ .again) :
    verdict frameMax (s ++ t) = verdict frameMax s ∧
      framesOf frameMax (s ++ t) = framesOf frameMax s := by
  induction s using lines_induction (10 : UInt8) with
  | htail s hs =>
    rw [verdict_tail hs] at h ⊢
    rw [framesOf_tail hs]
    by_cases hover : s ≠ [] ∧ frameMax ≤ s.length
    · rw [if_pos hover]
      rcases notMem_or_line 10 t with ht | ⟨k, r, hk, rfl⟩
      · have hmem : (10 : UInt8) ∉ s ++ t := by simp [hs, ht]
        have hlen : frameMax ≤ (s ++ t).length := by
          rw [List.length_append]
          omega
        rw [verdict_tail hmem, framesOf_tail hmem, if_pos ⟨by simp [hover.1], hlen⟩]
        exact ⟨rfl, rfl⟩
      · have hmem : (10 : UInt8) ∉ s ++ k := by simp [hs, hk]
        have hlen : frameMax ≤ (s ++ k).length := by
          rw [List.length_append]
          omega
        have hbad : ¬ goodLine frameMax (s ++ k) = true := by
          rw [goodLine_iff]
          omega
        rw [← List.append_assoc, verdict_line hmem, framesOf_line hmem, if_neg hbad, if_neg hbad,
          if_pos hlen]
        exact ⟨rfl, rfl⟩
    · rw [if_neg hover] at h
      exact absurd rfl h
  | hline l s hl ih =>
    rw [verdict_line hl] at h ⊢
    rw [List.append_assoc, List.cons_append, verdict_line hl, framesOf_line hl, framesOf_line hl]
    by_cases hgood : goodLine frameMax l = true
    · rw [if_pos hgood] at h
      obtain ⟨hverdict, hframes⟩ := ih h
      rw [if_pos hgood, if_pos hgood, if_pos hgood, if_pos hgood, hverdict, hframes]
      exact ⟨rfl, rfl⟩
    · rw [if_neg hgood, if_neg hgood, if_neg hgood, if_neg hgood]
      exact ⟨rfl, rfl⟩

/-- The pieces before the first that is over the ceiling are good, if the verdict is so. -/
theorem verdict_large_iff : verdict frameMax s = .ctlFrameLarge ↔
    ∃ pre l post, pieces s = pre ++ l :: post ∧ (∀ k ∈ pre, goodLine frameMax k = true) ∧
      frameMax < l.length + 1 := by
  induction s using lines_induction (10 : UInt8) with
  | htail s hs =>
    have hpieces : pieces s = if s = [] then [] else [s] := by
      unfold pieces
      rw [lines_of_notMem hs]
      rfl
    rw [verdict_tail hs, hpieces]
    constructor
    · intro h
      split_ifs at h with hover
      · rw [if_neg hover.1]
        exact ⟨[], s, [], rfl, by simp, by omega⟩
      · exact absurd h (by decide)
    · rintro ⟨pre, l, post, heq, -, hlen⟩
      by_cases hnil : s = []
      · rw [if_pos hnil] at heq
        exact absurd heq (by simp)
      · rw [if_neg hnil] at heq
        have hl : l = s := by
          have hmem : l ∈ [s] := by rw [heq]; simp
          exact List.mem_singleton.mp hmem
        rw [if_pos ⟨hnil, by rw [← hl]; omega⟩]
  | hline l s hl ih =>
    have hpieces : pieces (l ++ 10 :: s) = l :: pieces s := by
      unfold pieces
      rw [lines_line hl]
      rfl
    rw [verdict_line hl, hpieces]
    by_cases hgood : goodLine frameMax l = true
    · rw [if_pos hgood, ih]
      constructor
      · rintro ⟨pre, k, post, heq, hpre, hlen⟩
        exact ⟨l :: pre, k, post, by rw [heq]; rfl, by simpa [hgood] using hpre, hlen⟩
      · rintro ⟨pre, k, post, heq, hpre, hlen⟩
        cases pre with
        | nil =>
          obtain ⟨rfl, -⟩ := List.cons.inj heq
          have hshort := ((goodLine_iff frameMax l).mp hgood).1
          omega
        | cons p pre =>
          exact ⟨pre, k, post, (List.cons.inj heq).2,
            fun q hq => hpre q (List.mem_cons_of_mem p hq), hlen⟩
    · rw [if_neg hgood]
      constructor
      · intro h
        split_ifs at h with hover
        · exact ⟨[], l, pieces s, rfl, by simp, by omega⟩
        · exact absurd h (by decide)
      · rintro ⟨pre, k, post, heq, hpre, hlen⟩
        cases pre with
        | nil =>
          obtain ⟨rfl, -⟩ := List.cons.inj heq
          rw [if_pos (by omega)]
        | cons p pre =>
          obtain ⟨rfl, -⟩ := List.cons.inj heq
          exact absurd (hpre l List.mem_cons_self) hgood

/-! ## The calls -/

theorem frameNext_notMem (h : (10 : UInt8) ∉ s) :
    frameNext s frameMax = .error (verdict frameMax s) := by
  have hfind : s.findIdx? (· == 10) = none := by
    rw [List.findIdx?_eq_none_iff]
    intro b hb
    rw [beq_eq_false_iff_ne]
    rintro rfl
    exact h hb
  rw [verdict_tail h]
  unfold frameNext
  by_cases hnil : s = []
  · subst hnil
    rfl
  · rw [if_neg (by simpa using hnil), hfind]
    dsimp only
    by_cases hover : frameMax ≤ s.length
    · rw [if_pos hover, if_pos ⟨hnil, hover⟩]
    · rw [if_neg hover, if_neg fun h => hover h.2]

theorem frameNext_bad (h : (10 : UInt8) ∉ l) (hbad : ¬ goodLine frameMax l = true) (s : Bytes) :
    frameNext (l ++ 10 :: s) frameMax =
      .error (if frameMax ≤ l.length then .ctlFrameLarge else .mcpProtocol) := by
  have hfind : (l ++ 10 :: s).findIdx? (· == 10) = some l.length := by
    rw [List.findIdx?_append, List.findIdx?_eq_none_iff.mpr, List.findIdx?_cons]
    · simp
    · intro b hb
      rw [beq_eq_false_iff_ne]
      rintro rfl
      exact h hb
  unfold frameNext
  rw [if_neg (by simp), hfind]
  dsimp only
  by_cases hover : frameMax ≤ l.length
  · rw [if_pos (by omega), if_pos hover]
  · have htext : ¬ utf8Validate (trimCr l) = true := by
      rw [utf8Validate_trimCr]
      exact fun htext => hbad ((goodLine_iff frameMax l).mpr ⟨by omega, htext⟩)
    rw [if_neg (by omega), List.take_left, if_neg htext, if_neg hover]

theorem frameConsume_cases (inbox : Buffer) (n : ℕ) :
    (frameConsume inbox n).2 = .ok ∨ (frameConsume inbox n).1 = inbox := by
  unfold frameConsume Buffer.consume
  split_ifs <;> simp

/-- Consuming the frame that was found takes its line, and does not fail. -/
theorem frameConsume_frame {inbox : Buffer} {frame : Bytes}
    (h : frameNext inbox.data frameMax = .ok frame) :
    ∃ l rest, (10 : UInt8) ∉ l ∧ inbox.data = l ++ 10 :: rest ∧ goodLine frameMax l = true ∧
      frame = trimCr l ∧
      ∃ left, frameConsume inbox frame.length = (left, .ok) ∧ left.data = rest := by
  rcases notMem_or_line 10 inbox.data with hs | ⟨l, rest, hl, hdata⟩
  · rw [frameNext_notMem hs] at h
    cases h
  · by_cases hgood : goodLine frameMax l = true
    · rw [hdata, frameNext_line (proper_of_goodLine hgood hl)] at h
      obtain rfl := Except.ok.inj h
      obtain ⟨hleft, -⟩ := frameConsume_line hl hdata
      refine ⟨l, rest, hl, hdata, hgood, rfl, _, Prod.ext rfl ?_, hleft⟩
      rcases frameConsume_cases inbox (trimCr l).length with hok | hsame
      · exact hok
      · have hkept := hleft.symm.trans ((congrArg Buffer.data hsame).trans hdata)
        have hlen := congrArg List.length hkept
        rw [List.length_append, List.length_cons] at hlen
        omega
    · rw [hdata, frameNext_bad hl hgood] at h
      cases h

end Stream

/-! ## Runs -/

section Runs

variable {frameMax : ℕ}

/-- With more turns than there are bytes, the taking ends where the stream says. -/
theorem takeFrames_spec (frameMax : ℕ) {turns : ℕ} {inbox : Buffer} (h : inbox.len < turns) :
    (takeFrames frameMax turns inbox).frames = framesOf frameMax inbox.data ∧
      (takeFrames frameMax turns inbox).status = verdict frameMax inbox.data ∧
      ((takeFrames frameMax turns inbox).status = .again →
        (takeFrames frameMax turns inbox).inbox.data = (lines 10 inbox.data).2) := by
  induction turns generalizing inbox with
  | zero => exact absurd h (Nat.not_lt_zero _)
  | succ turns ih =>
    rw [takeFrames]
    rcases notMem_or_line 10 inbox.data with hs | ⟨l, rest, hl, hdata⟩
    · rw [frameNext_notMem hs, framesOf_tail hs, lines_of_notMem hs]
      exact ⟨rfl, rfl, fun _ => rfl⟩
    · by_cases hgood : goodLine frameMax l = true
      · have hnext : frameNext inbox.data frameMax = .ok (trimCr l) := by
          rw [hdata, frameNext_line (proper_of_goodLine hgood hl)]
        obtain ⟨l', rest', hl', hdata', -, -, left, hleft, hrest⟩ := frameConsume_frame hnext
        have hsplit : lines 10 inbox.data = lines 10 (l' ++ 10 :: rest') := by rw [hdata']
        rw [hdata, lines_line hl, lines_line hl'] at hsplit
        have hline : rest' = rest := by
          have hlines := (List.cons.inj (Prod.mk.inj hsplit).1).1
          rw [hdata, ← hlines] at hdata'
          exact ((List.cons.inj (List.append_cancel_left hdata')).2).symm
        rw [hline] at hrest
        have hshort : left.len < turns := by
          have hlen : inbox.len = l.length + (rest.length + 1) := by simp [Buffer.len, hdata]
          have hleftLen : left.len = rest.length := congrArg List.length hrest
          omega
        obtain ⟨hframes, hstatus, hleftover⟩ := ih hshort
        rw [hnext]
        dsimp only
        rw [hleft]
        dsimp only
        rw [if_neg (by decide : ¬ Status.ok < 0), hframes, hrest, hdata, framesOf_line hl,
          verdict_line hl, lines_line hl, if_pos hgood, if_pos hgood]
        rw [hrest] at hstatus hleftover
        exact ⟨rfl, hstatus, hleftover⟩
      · rw [hdata, frameNext_bad hl hgood, framesOf_line hl, verdict_line hl, if_neg hgood,
          if_neg hgood]
        refine ⟨rfl, rfl, fun h => ?_⟩
        dsimp only at h
        split_ifs at h <;> exact absurd h (by decide)

/-- However the stream is cut, its frames and its verdict are those of the whole. -/
theorem arrives_spec {inbox : Buffer} {ds : List Bytes} {r : Taken}
    (h : Arrives frameMax inbox ds r) (hline : (10 : UInt8) ∉ inbox.data)
    (hopen : verdict frameMax inbox.data = .again) :
    r.frames = framesOf frameMax (inbox.data ++ ds.flatten) ∧
      r.status = verdict frameMax (inbox.data ++ ds.flatten) := by
  induction h with
  | done inbox =>
    rw [List.flatten_nil, List.append_nil, framesOf_tail hline, hopen]
    exact ⟨rfl, rfl⟩
  | @more inbox filled d ds r hdata hagain hrest ih =>
    obtain ⟨hframes, hstatus, hleft⟩ :=
      takeFrames_spec frameMax (Nat.lt_succ_self filled.len)
    have hleft := hleft hagain
    have hverdict : verdict frameMax filled.data = .again := hstatus.symm.trans hagain
    obtain ⟨hkept, -⟩ := verdict_append [] hverdict
    rw [List.append_nil, List.append_nil, hverdict] at hkept
    have htail : (10 : UInt8) ∉ (takeAll frameMax filled).inbox.data := by
      have hnone := tail_notMem 10 filled.data
      rwa [← hleft] at hnone
    have hopen' : verdict frameMax (takeAll frameMax filled).inbox.data = .again := by
      have hagain' := hkept.symm
      rwa [← hleft] at hagain'
    obtain ⟨hframes', hstatus'⟩ := ih htail hopen'
    obtain ⟨happ, happ'⟩ := verdict_append ds.flatten hverdict
    have hwhole : inbox.data ++ (d :: ds).flatten = filled.data ++ ds.flatten := by
      rw [List.flatten_cons, ← List.append_assoc, hdata]
    have hinbox : (takeAll frameMax filled).inbox.data = (lines 10 filled.data).2 := hleft
    rw [hinbox] at hframes' hstatus'
    rw [hwhole, happ, happ']
    refine ⟨?_, hstatus'⟩
    dsimp only
    rw [hframes']
    exact congrArg (· ++ _) hframes
  | @stop inbox filled d ds hdata hstop =>
    obtain ⟨hframes, hstatus, -⟩ :=
      takeFrames_spec frameMax (Nat.lt_succ_self filled.len)
    have hfailed : verdict frameMax filled.data ≠ .again := fun h => hstop (hstatus.trans h)
    obtain ⟨hverdict, hsame⟩ := verdict_failed ds.flatten hfailed
    have hwhole : inbox.data ++ (d :: ds).flatten = filled.data ++ ds.flatten := by
      rw [List.flatten_cons, ← List.append_assoc, hdata]
    rw [hwhole, hverdict, hsame]
    exact ⟨hframes, hstatus⟩

end Runs

namespace Conn

variable (J : Mcp.JsonLibrary) (serve : ℕ → Serving)

/-- A frame that is handled makes the inbox shorter. -/
theorem handle_shorter {c : Conn} {frame : Bytes} (serving : Serving)
    (h : frameNext c.inbox.data c.frameMax = .ok frame) :
    (c.handle J serving frame).1.inbox.len < c.inbox.len := by
  obtain ⟨l, rest, hl, hdata, -, rfl, -⟩ := frameConsume_frame h
  have hleft := (handle_line (J := J) hl hdata serving).1
  have hlen : c.inbox.len = l.length + (rest.length + 1) := by simp [Buffer.len, hdata]
  have hleftLen : (c.handle J serving (trimCr l)).1.inbox.len = rest.length :=
    congrArg List.length hleft
  omega

/-- More turns than there are bytes in the inbox change nothing: the loop ends by itself. -/
theorem drainFrames_turns {c : Conn} {dispatched : List Bytes} {turns : ℕ}
    (h : c.inbox.len < turns) :
    c.drainFrames J serve dispatched turns =
      c.drainFrames J serve dispatched (c.inbox.len + 1) := by
  induction turns using Nat.strong_induction_on generalizing c dispatched with
  | _ turns ih =>
    cases turns with
    | zero => exact absurd h (Nat.not_lt_zero _)
    | succ turns =>
      rw [drainFrames, drainFrames]
      split_ifs with hclosing
      · rfl
      · cases hnext : frameNext c.inbox.data c.frameMax with
        | error st => rfl
        | ok frame =>
          have hshort := handle_shorter J (serve dispatched.length) hnext
          dsimp only
          split_ifs with hneg
          · rfl
          · rw [ih turns (Nat.lt_succ_self turns) (by omega)]
            by_cases hsame : c.inbox.len = turns
            · rw [hsame, ih turns (Nat.lt_succ_self turns) (by omega)]
            · rw [ih c.inbox.len (by omega) hshort]

end Conn

/-- The frames taken from any fragments are the lines of the stream, up to the first that is not
good; the ceiling is reported for a line that cannot fit and for nothing else; a frame that was
found is consumed with its line; and the loop over the inbox ends. -/
theorem arrives_lines (frameMax : ℕ) :
    (∀ l, goodLine frameMax l = true ↔ l.length + 1 ≤ frameMax ∧ ∃ cs, l = utf8Text cs) ∧
    (∀ inbox ds r, inbox.data = [] → Arrives frameMax inbox ds r →
      r.frames = ((lines 10 ds.flatten).1.takeWhile (goodLine frameMax)).map trimCr ∧
      (r.status = .ctlFrameLarge ↔ ∃ pre l post, pieces ds.flatten = pre ++ l :: post ∧
        (∀ k ∈ pre, goodLine frameMax k = true) ∧ frameMax < l.length + 1)) ∧
    (∀ inbox frame, frameNext inbox.data frameMax = .ok frame →
      ∃ l rest, (10 : UInt8) ∉ l ∧ inbox.data = l ++ 10 :: rest ∧ frame = trimCr l ∧
        ∃ left, frameConsume inbox frame.length = (left, .ok) ∧ left.data = rest) ∧
    ∀ J serve (c : Conn) dispatched turns, c.inbox.len < turns →
      c.drainFrames J serve dispatched turns =
        c.drainFrames J serve dispatched (c.inbox.len + 1) := by
  refine ⟨?_, ?_, ?_, ?_⟩
  · intro l
    rw [goodLine_iff, utf8Validate_iff, Nat.lt_iff_add_one_le]
  · intro inbox ds r hfresh h
    have hopen : verdict frameMax inbox.data = .again := by
      rw [hfresh]
      rfl
    obtain ⟨hframes, hstatus⟩ := arrives_spec h (by rw [hfresh]; simp) hopen
    rw [hfresh, List.nil_append] at hframes hstatus
    exact ⟨hframes, by rw [hstatus]; exact verdict_large_iff⟩
  · intro inbox frame h
    obtain ⟨l, rest, hl, hdata, -, hframe, hconsume⟩ := frameConsume_frame h
    exact ⟨l, rest, hl, hdata, hframe, hconsume⟩
  · intro J serve c dispatched turns h
    exact Conn.drainFrames_turns J serve h

/-- A line feed in another fragment than its carriage return. -/
theorem arrives_lines_crlf : ∃ r, Arrives 8 (Buffer.init 64) [[97, 13], [10, 98]] r ∧
    r.frames = [[97]] := by
  let filled : Buffer := ((Buffer.init 64).append (fun _ => true) [97, 13]).1
  let again : Buffer := ((takeAll 8 filled).inbox.append (fun _ => true) [10, 98]).1
  have hfilled : filled.data = (Buffer.init 64).data ++ [97, 13] := by decide
  have hagain : again.data = (takeAll 8 filled).inbox.data ++ [10, 98] := by decide
  have hfirst : (takeAll 8 filled).status = .again := by decide
  have hsecond : (takeAll 8 again).status = .again := by decide
  have harrives := Arrives.more hfilled hfirst (.more hagain hsecond (.done _))
  refine ⟨_, harrives, ?_⟩
  rw [((arrives_lines 8).2.1 _ _ _ rfl harrives).1]
  decide

end AsmFlow.Control
