import AsmFlow.Http.Feed

/-!
# Bytes one at a time

How the parser's spans are cut decides nothing but what a refused message leaves
in its buffers. So one call of the parser does what calls on the single bytes
do, and what a connection is told to answer depends on the outline of its state
alone.
-/

namespace AsmFlow.Http

open Library

variable {P O : Type}

/-! ## Spans -/

namespace Conn

/-- The connection without the buffers and counters that a refused message leaves
behind. -/
def outline (c : Conn O) : Conn O :=
  { c with target := [], name := [], value := [], body := [], bodyBytes := 0, headerBytes := 0 }

/-- Two connections a stopped parse may leave, for one stream cut differently. -/
def Alike (e : Hpe) (c d : Conn O) : Prop := e = .user ∧ c.outline = d.outline

theorem Alike.trans (e : Hpe) (c d f : Conn O) (h₁ : Alike e c d) (h₂ : Alike e d f) :
    Alike e c f := ⟨h₁.1, h₁.2.trans h₂.2⟩

theorem setFault_outline (c : Conn O) (id : ErrorId) :
    (c.setFault id).outline = c.outline.setFault id := by
  have hfault : c.outline.fault = c.fault := rfl
  unfold setFault
  rw [hfault]
  cases c.fault with
  | none => rfl
  | some f => rfl

theorem outline_refuse {c d : Conn O} (h : c.outline = d.outline) (id : ErrorId) :
    (c.refuse id).1.outline = (d.refuse id).1.outline := by
  unfold refuse
  rw [setFault_outline, setFault_outline, h]

end Conn

theorem extend_append (max : ℕ) (data a b : Bytes) :
    extend max data (a ++ b) = (extend max data a).bind fun grown => extend max grown b := by
  unfold extend
  by_cases ha : data.length + a.length ≤ max
  · rw [if_pos ha, Option.bind_some, List.length_append, List.length_append, Nat.add_assoc,
      List.append_assoc]
  · rw [if_neg ha, Option.bind_none, if_neg]
    rw [List.length_append]
    omega

/-- A callback on two pieces of a span, as one and one after the other. -/
structure Splits (whole : Conn O × Option Hpe) (first : Conn O × Option Hpe)
    (second : Conn O → Conn O × Option Hpe) : Prop where
  split : (first.2 = none ∧ whole = second first.1) ∨
    (whole.2 = some .user ∧
      ((first.2 = some .user ∧ whole.1.outline = first.1.outline) ∨
        (first.2 = none ∧ (second first.1).2 = some .user ∧
          whole.1.outline = (second first.1).1.outline)))

namespace Server

variable {s : Server O} {c : Conn O}

theorem onUrl_append (c : Conn O) (a b : Bytes) :
    Splits (onUrl c (a ++ b)) (onUrl c a) (fun d => onUrl d b) := by
  constructor
  unfold onUrl
  rw [extend_append]
  cases ha : extend targetMax c.target a with
  | none => exact Or.inr ⟨rfl, Or.inl ⟨rfl, rfl⟩⟩
  | some grown =>
    dsimp only [Option.bind_some]
    cases hb : extend targetMax grown b with
    | none => exact Or.inr ⟨rfl, Or.inr ⟨rfl, rfl, Conn.outline_refuse (by rfl) _⟩⟩
    | some whole => exact Or.inl ⟨rfl, rfl⟩

theorem onHeaderValue_append (c : Conn O) (a b : Bytes) :
    Splits (onHeaderValue c (a ++ b)) (onHeaderValue c a) (fun d => onHeaderValue d b) := by
  constructor
  unfold onHeaderValue
  rw [extend_append]
  cases ha : extend valueMax c.value a with
  | none => exact Or.inr ⟨rfl, Or.inl ⟨rfl, rfl⟩⟩
  | some grown =>
    dsimp only [Option.bind_some]
    cases hb : extend valueMax grown b with
    | none => exact Or.inr ⟨rfl, Or.inr ⟨rfl, rfl, Conn.outline_refuse (by rfl) _⟩⟩
    | some whole => exact Or.inl ⟨rfl, rfl⟩

/-- After the first piece of a name there is no value, so nothing is cleared again. -/
theorem nextName_value (c : Conn O) : (nextName c).value = [] := by
  unfold nextName
  split_ifs with h
  · exact h
  · rfl

theorem onHeaderField_append (c : Conn O) (a b : Bytes) :
    Splits (onHeaderField c (a ++ b)) (onHeaderField c a) (fun d => onHeaderField d b) := by
  have hagain : ∀ grown, nextName { nextName c with name := grown } =
      { nextName c with name := grown } := by
    intro grown
    exact if_pos (nextName_value c)
  constructor
  unfold onHeaderField
  rw [extend_append]
  cases ha : extend nameMax (nextName c).name a with
  | none => exact Or.inr ⟨rfl, Or.inl ⟨rfl, rfl⟩⟩
  | some grown =>
    dsimp only [Option.bind_some]
    rw [hagain]
    cases hb : extend nameMax grown b with
    | none => exact Or.inr ⟨rfl, Or.inr ⟨rfl, rfl, Conn.outline_refuse (by rfl) _⟩⟩
    | some whole => exact Or.inl ⟨rfl, rfl⟩

theorem onBody_append (s : Server O) (c : Conn O) (a b : Bytes) :
    Splits (s.onBody c (a ++ b)) (s.onBody c a) (fun d => s.onBody d b) := by
  constructor
  unfold onBody
  rw [List.length_append, ← Nat.add_assoc, extend_append]
  by_cases hfirst : s.bodyMax < c.bodyBytes + a.length
  · rw [if_pos hfirst, if_pos (by omega : s.bodyMax < c.bodyBytes + a.length + b.length)]
    exact Or.inr ⟨rfl, Or.inl ⟨rfl, rfl⟩⟩
  · rw [if_neg hfirst]
    cases ha : extend s.bodyMax c.body a with
    | none =>
      rw [Option.bind_none]
      by_cases hsecond : s.bodyMax < c.bodyBytes + a.length + b.length
      · rw [if_pos hsecond]
        exact Or.inr ⟨rfl, Or.inl ⟨rfl, Conn.outline_refuse (by rfl) _⟩⟩
      · rw [if_neg hsecond]
        exact Or.inr ⟨rfl, Or.inl ⟨rfl, Conn.outline_refuse (by rfl) _⟩⟩
    | some grown =>
      dsimp only [Option.bind_some]
      by_cases hsecond : s.bodyMax < c.bodyBytes + a.length + b.length
      · rw [if_pos hsecond, if_pos hsecond]
        exact Or.inr ⟨rfl, Or.inr ⟨rfl, rfl, Conn.outline_refuse (by rfl) _⟩⟩
      · rw [if_neg hsecond, if_neg hsecond]
        cases hb : extend s.bodyMax grown b with
        | none => exact Or.inr ⟨rfl, Or.inr ⟨rfl, rfl, Conn.outline_refuse (by rfl) _⟩⟩
        | some whole => exact Or.inl ⟨rfl, rfl⟩

theorem onSpan_append (s : Server O) (c : Conn O) (a b : Bytes) (kind : Span) :
    Splits (s.onSpan c (a ++ b) kind) (s.onSpan c a kind) (fun d => s.onSpan d b kind) := by
  cases kind with
  | url => exact onUrl_append c a b
  | headerField => exact onHeaderField_append c a b
  | headerValue => exact onHeaderValue_append c a b
  | body => exact onBody_append s c a b

theorem join_eq_some {x y z : Call} (h : Call.join x y = some z) :
    ∃ kind a b, x = .span kind a ∧ y = .span kind b ∧ z = .span kind (a ++ b) := by
  cases x with
  | span k a =>
    cases y with
    | span k' b =>
      have hif : (if k = k' then some (Call.span k (a ++ b)) else none) = some z := h
      split_ifs at hif with hk
      obtain rfl := hk
      exact ⟨k, a, b, rfl, rfl, (Option.some.inj hif).symm⟩
    | _ => cases h
  | _ => cases h

/-- A joined callback agrees with the two it stands for. -/
theorem call_join (s : Server O) (c : Conn O) (x y z : Call) (n m : ℕ)
    (h : Call.join x y = some z) :
    Agree Conn.Alike (perform s.call c [(z, m)]) (perform s.call c [(x, n), (y, m)]) := by
  obtain ⟨kind, a, b, rfl, rfl, rfl⟩ := join_eq_some h
  have hsplit := (onSpan_append s c a b kind).split
  simp only [perform_cons, call]
  rcases hsplit with ⟨hnone, hwhole⟩ | ⟨hwhole, ⟨hfirst, hsame⟩ | ⟨hnone, hsecond, hsame⟩⟩
  · rw [hnone, hwhole]
    exact .same _
  · rw [hwhole, hfirst]
    exact .stopped ⟨rfl, hsame⟩
  · rw [hwhole, hnone]
    simp only [hsecond]
    exact .stopped ⟨rfl, hsame⟩

end Server
/-! ## One byte after the other -/

namespace Reader

/-- Two readers a stopped parse may leave. -/
def Alike (e : Hpe) (x y : Reader P O) : Prop :=
  x.conn.Alike e y.conn ∧ x.errno = some e ∧ y.errno = some e

end Reader

namespace Server

variable (s : Server O) (T : Parser P)

/-- The parser on one byte at a time. -/
def play : Reader P O → Bytes → Reader P O × Option (Hpe × ℕ)
  | r, [] => (r, none)
  | r, b :: d =>
    match s.execute T r [b] with
    | (r, none) => ((play r d).1, (play r d).2.map fun stop => (stop.1, stop.2 + 1))
    | (r, some (e, _)) => (r, some (e, 1))

/-- Where the parser is once its callbacks have been made. -/
def land (p : P) (d : Bytes) : Conn O × Option (Hpe × ℕ) → Reader P O × Option (Hpe × ℕ)
  | (conn, none) => (⟨conn, T.after p d, none⟩, none)
  | (conn, some (e, n)) => (⟨conn, T.after p (d.take n), some e⟩, some (e, n))

theorem execute_eq_land (c : Conn O) (p : P) (d : Bytes) :
    s.execute T ⟨c, p, none⟩ d =
      land T p d (perform s.call c (joined Call.join (T.trace p 0 d))) := by
  rcases h : perform s.call c (joined Call.join (T.trace p 0 d)) with ⟨conn, _ | ⟨e, n⟩⟩ <;>
    simp only [execute, land, h]

theorem Agree.land {a b : Conn O × Option (Hpe × ℕ)} (h : Agree Conn.Alike a b) (p : P)
    (d : Bytes) : Agree Reader.Alike (land T p d a) (land T p d b) := by
  cases h with
  | same => exact .same _
  | stopped halike => exact .stopped ⟨halike, rfl, rfl⟩

theorem land_cons (p : P) (b : UInt8) (d : Bytes) (r : Conn O × Option (Hpe × ℕ)) :
    land T p (b :: d) (r.1, r.2.map fun stop => (stop.1, 1 + stop.2)) =
      ((land T (T.next p b).1 d r).1,
        (land T (T.next p b).1 d r).2.map fun stop => (stop.1, stop.2 + 1)) := by
  obtain ⟨conn, _ | ⟨e, n⟩⟩ := r
  · rfl
  · simp only [Option.map_some, land, Nat.add_comm 1 n, List.take_succ_cons, T.after_cons]

theorem play_cons (r : Reader P O) (b : UInt8) (d : Bytes) :
    s.play T r (b :: d) =
      match (s.execute T r [b]).2 with
      | none =>
        ((s.play T (s.execute T r [b]).1 d).1,
          (s.play T (s.execute T r [b]).1 d).2.map fun stop => (stop.1, stop.2 + 1))
      | some (e, _) => ((s.execute T r [b]).1, some (e, 1)) := by
  rw [play]
  rcases s.execute T r [b] with ⟨x, _ | ⟨e, n⟩⟩ <;> rfl

/-- The callbacks of the single bytes, cut between any two. -/
theorem land_trace (c : Conn O) (p : P) (d : Bytes) :
    Agree Reader.Alike (land T p d (perform s.call c (T.trace p 0 d)))
      (s.play T ⟨c, p, none⟩ d) := by
  induction d generalizing c p with
  | nil => exact .same _
  | cons b d ih =>
    have hone := perform_joined Conn.Alike.trans (call_join s) c (T.trace p 0 [b])
    rw [T.trace_cons, perform_append, play_cons, execute_eq_land]
    generalize hjoined : perform s.call c (joined Call.join (T.trace p 0 [b])) = j at hone
    generalize hplain : perform s.call c (T.trace p 0 [b]) = q at hone
    cases hone with
    | same =>
      obtain ⟨c', stop⟩ := j
      cases stop with
      | none =>
        have hrest := ih c' (T.next p b).1
        have hshift := T.trace_shift (T.next p b).1 1 0 d
        dsimp only
        rw [Nat.add_comm 0 1, hshift, perform_shift, land_cons]
        exact (hrest.shift (· + 1))
      | some stop =>
        obtain ⟨e, n⟩ := stop
        obtain rfl := perform_position (T.trace_singleton_position p 0 b) hplain
        exact .same _
    | stopped halike => exact .stopped ⟨⟨halike.1, halike.2.symm⟩, rfl, rfl⟩

/-- One call of the parser does what calls on the single bytes do. -/
theorem execute_play (c : Conn O) (p : P) (d : Bytes) :
    Agree Reader.Alike (s.execute T ⟨c, p, none⟩ d) (s.play T ⟨c, p, none⟩ d) := by
  have hjoined := perform_joined Conn.Alike.trans (call_join s) c (T.trace p 0 d)
  have htrans : ∀ e (x y z : Reader P O), x.Alike e y → y.Alike e z → x.Alike e z := by
    rintro e x y z ⟨hxy, hx, -⟩ ⟨hyz, -, hz⟩
    exact ⟨Conn.Alike.trans _ _ _ _ hxy hyz, hx, hz⟩
  rw [execute_eq_land]
  exact (Agree.land T hjoined p d).trans htrans (s.land_trace T c p d)

end Server
end AsmFlow.Http
