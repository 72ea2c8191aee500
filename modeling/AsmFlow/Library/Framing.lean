import Mathlib.Data.List.Infix
import Mathlib.Tactic

/-!
# Incremental framing

A scanner looks at the front of a stream for a complete frame. When what it
found is not changed by what arrives later, and what it missed can only end
later, then a reader that cuts off frames as soon as it sees them, and gives up
at the first one over its limit, cuts the stream in the same places however the
stream is split into pieces.
-/

namespace AsmFlow.Library

variable {α : Type*}

/-- A scanner finds the length of the first complete frame. -/
structure Scanner (α : Type*) where
  next : List α → Option ℕ
  pos : ∀ {s n}, next s = some n → 0 < n
  le : ∀ {s n}, next s = some n → n ≤ s.length
  stable : ∀ {s n} t, next s = some n → next (s ++ t) = some n
  late : ∀ {s n} t, next s = none → next (s ++ t) = some n → s.length ≤ n

/-- A frame of that length is over the limit; without one, none is. -/
def exceeds (limit : Option ℕ) (n : ℕ) : Bool :=
  match limit with
  | none => false
  | some l => decide (l < n)

theorem exceeds_mono {limit : Option ℕ} {m n : ℕ} (h : exceeds limit m = true) (hmn : m ≤ n) :
    exceeds limit n = true := by
  cases limit with
  | none => cases h
  | some l =>
    simp only [exceeds, decide_eq_true_eq] at h ⊢
    omega

@[simp] theorem exceeds_zero (limit : Option ℕ) : exceeds limit 0 = false := by
  cases limit <;> simp [exceeds]

/-- The frames cut off, whether one was over the limit, and what is left. -/
@[ext] structure Cut (α : Type*) where
  frames : List (List α)
  spilled : Bool
  rest : List α


namespace Cut

def empty : Cut α := ⟨[], false, []⟩

/-- Frames cut off before the others. -/
def prepend (frames : List (List α)) (c : Cut α) : Cut α := ⟨frames ++ c.frames, c.spilled, c.rest⟩

@[simp] theorem prepend_nil (c : Cut α) : prepend [] c = c := rfl

@[simp] theorem prepend_prepend (fs gs : List (List α)) (c : Cut α) :
    prepend fs (prepend gs c) = prepend (fs ++ gs) c := by
  simp [prepend, List.append_assoc]

end Cut

namespace Scanner

variable (sc : Scanner α) (limit : Option ℕ)

/-- All frames of a stream, up to the first that is over the limit. -/
def cut (s : List α) : Cut α :=
  match h : sc.next s with
  | none => ⟨[], exceeds limit s.length, s⟩
  | some n =>
    if exceeds limit n then ⟨[], true, s⟩
    else (cut (s.drop n)).prepend [s.take n]
termination_by s.length
decreasing_by
  have hpos := sc.pos h
  have hle := sc.le h
  rw [List.length_drop]
  omega

variable {sc limit} {s : List α}

theorem cut_of_none (h : sc.next s = none) :
    sc.cut limit s = ⟨[], exceeds limit s.length, s⟩ := by
  rw [cut]
  split
  · rfl
  · rename_i n hn
    rw [h] at hn
    cases hn

theorem cut_of_some {n : ℕ} (h : sc.next s = some n) :
    sc.cut limit s = if exceeds limit n then ⟨[], true, s⟩
      else (sc.cut limit (s.drop n)).prepend [s.take n] := by
  rw [cut]
  split
  · rename_i hn
    rw [h] at hn
    cases hn
  · rename_i m hm
    rw [h] at hm
    obtain rfl := Option.some.inj hm
    rfl

theorem next_nil (sc : Scanner α) : sc.next [] = none := by
  by_contra h
  obtain ⟨n, hn⟩ := Option.ne_none_iff_exists'.mp h
  have hpos := sc.pos hn
  have hle := sc.le hn
  rw [List.length_nil] at hle
  omega

@[simp] theorem cut_nil (sc : Scanner α) (limit : Option ℕ) : sc.cut limit [] = Cut.empty := by
  rw [cut_of_none (next_nil sc), List.length_nil, exceeds_zero]
  rfl

/-- Frames are cut off one at a time, and each is shorter than the stream. -/
theorem cut_induction {P : List α → Prop} (sc : Scanner α) (limit : Option ℕ)
    (hnone : ∀ s, sc.next s = none → P s)
    (hover : ∀ s n, sc.next s = some n → exceeds limit n = true → P s)
    (hframe : ∀ s n, sc.next s = some n → exceeds limit n = false → P (s.drop n) → P s)
    (s : List α) : P s := by
  induction hlen : s.length using Nat.strong_induction_on generalizing s with
  | _ len ih =>
    subst hlen
    cases hn : sc.next s with
    | none => exact hnone s hn
    | some n =>
      cases hx : exceeds limit n with
      | true => exact hover s n hn hx
      | false =>
        apply hframe s n hn hx
        apply ih (s.drop n).length _ _ rfl
        have hpos := sc.pos hn
        have hle := sc.le hn
        rw [List.length_drop]
        omega

/-- Nothing is lost and nothing is added. -/
theorem cut_flatten (sc : Scanner α) (limit : Option ℕ) (s : List α) :
    (sc.cut limit s).frames.flatten ++ (sc.cut limit s).rest = s := by
  induction s using cut_induction sc limit with
  | hnone s hn => simp [cut_of_none hn]
  | hover s n hn hx => simp [cut_of_some hn, hx]
  | hframe s n hn hx ih =>
    rw [cut_of_some hn, hx]
    simp only [Bool.false_eq_true, if_false, Cut.prepend, List.singleton_append, List.flatten_cons,
      List.append_assoc, ih]
    exact List.take_append_drop n s

theorem cut_ne_nil (sc : Scanner α) (limit : Option ℕ) (s : List α) :
    ∀ f ∈ (sc.cut limit s).frames, f ≠ [] := by
  induction s using cut_induction sc limit with
  | hnone s hn => simp [cut_of_none hn]
  | hover s n hn hx => simp [cut_of_some hn, hx]
  | hframe s n hn hx ih =>
    rw [cut_of_some hn, hx]
    simp only [Bool.false_eq_true, if_false, Cut.prepend, List.singleton_append]
    intro f hf
    rcases List.mem_cons.mp hf with rfl | hf
    · have hpos := sc.pos hn
      have hle := sc.le hn
      apply List.ne_nil_of_length_pos
      rw [List.length_take]
      omega
    · exact ih f hf

/-- What arrives later is cut after what was there, from where that left off. -/
theorem cut_append (t : List α) (h : (sc.cut limit s).spilled = false) :
    sc.cut limit (s ++ t) =
      (sc.cut limit ((sc.cut limit s).rest ++ t)).prepend (sc.cut limit s).frames := by
  induction s using cut_induction sc limit with
  | hnone s hn => simp [cut_of_none hn]
  | hover s n hn hx => simp [cut_of_some hn, hx] at h
  | hframe s n hn hx ih =>
    have hle := sc.le hn
    have hcut : sc.cut limit s = (sc.cut limit (s.drop n)).prepend [s.take n] := by
      rw [cut_of_some hn, hx]
      rfl
    rw [hcut] at h ⊢
    rw [cut_of_some (sc.stable t hn), hx, List.drop_append_of_le_length hle,
      List.take_append_of_le_length hle]
    simp only [Bool.false_eq_true, if_false]
    rw [ih h, Cut.prepend_prepend]
    rfl

/-- A stream that went over its limit stays over it, with the same frames before. -/
theorem cut_append_over (t : List α) (h : (sc.cut limit s).spilled = true) :
    (sc.cut limit (s ++ t)).frames = (sc.cut limit s).frames ∧
      (sc.cut limit (s ++ t)).spilled = true := by
  induction s using cut_induction sc limit with
  | hnone s hn =>
    rw [cut_of_none hn] at h ⊢
    dsimp only at h ⊢
    cases hnext : sc.next (s ++ t) with
    | none =>
      rw [cut_of_none hnext]
      refine ⟨rfl, exceeds_mono h ?_⟩
      rw [List.length_append]
      exact Nat.le_add_right _ _
    | some n =>
      have hx : exceeds limit n = true := exceeds_mono h (sc.late t hn hnext)
      rw [cut_of_some hnext, hx]
      exact ⟨rfl, rfl⟩
  | hover s n hn hx =>
    rw [cut_of_some (sc.stable t hn), cut_of_some hn, hx]
    exact ⟨rfl, rfl⟩
  | hframe s n hn hx ih =>
    have hle := sc.le hn
    have hcut : sc.cut limit s = (sc.cut limit (s.drop n)).prepend [s.take n] := by
      rw [cut_of_some hn, hx]
      rfl
    rw [hcut] at h ⊢
    rw [cut_of_some (sc.stable t hn), hx, List.drop_append_of_le_length hle,
      List.take_append_of_le_length hle]
    obtain ⟨hframes, hover⟩ := ih h
    simp only [Bool.false_eq_true, if_false, Cut.prepend]
    exact ⟨by rw [hframes], hover⟩

/-- Without a limit nothing is over it. -/
theorem cut_none_spilled (sc : Scanner α) (s : List α) : (sc.cut none s).spilled = false := by
  induction s using cut_induction sc none with
  | hnone s hn =>
    rw [cut_of_none hn]
    rfl
  | hover s n hn hx => cases hx
  | hframe s n hn hx ih =>
    rw [cut_of_some hn, hx]
    exact ih

/-- A limit that nothing reaches changes nothing. -/
theorem cut_eq_unlimited (hframes : ∀ f ∈ (sc.cut none s).frames, exceeds limit f.length = false)
    (hrest : exceeds limit (sc.cut none s).rest.length = false) :
    sc.cut limit s = sc.cut none s := by
  induction s using cut_induction sc none with
  | hnone s hn =>
    rw [cut_of_none hn] at hrest ⊢
    rw [cut_of_none hn, hrest]
    rfl
  | hover s n hn hx => cases hx
  | hframe s n hn hx ih =>
    have hle := sc.le hn
    have hcut : sc.cut none s = (sc.cut none (s.drop n)).prepend [s.take n] := by
      rw [cut_of_some hn, hx]
      rfl
    rw [hcut] at hframes hrest ⊢
    have hn' : exceeds limit n = false := by
      have hfirst := hframes (s.take n) (by simp [Cut.prepend])
      rwa [List.length_take, min_eq_left hle] at hfirst
    rw [cut_of_some hn, hn']
    simp only [Bool.false_eq_true, if_false]
    rw [ih (fun f hf => hframes f (by simp [Cut.prepend, hf])) hrest]

end Scanner
end AsmFlow.Library
