import Mathlib.Data.List.Basic
import Mathlib.Tactic

/-!
# Loads and stores in a block of cells

A block is the list of its cells. A store overwrites the cells from a position
on; a load reads them back. `copy_step` is the step of a forward copy inside one
block: when the destination does not lie above the source, the cells still to
be read are not the ones already written.
-/

namespace AsmFlow.Library

variable {α : Type*} {mem p q : List α} {dst src m n : ℕ}

/-- The `n` cells from `src` on. -/
def load (mem : List α) (src n : ℕ) : List α := (mem.drop src).take n

/-- The cells from `dst` on, overwritten. -/
def store (mem : List α) (dst : ℕ) (p : List α) : List α :=
  mem.take dst ++ p ++ mem.drop (dst + p.length)

theorem length_load (h : src + n ≤ mem.length) : (load mem src n).length = n := by
  unfold load
  rw [List.length_take, List.length_drop]
  omega

theorem length_store (h : dst + p.length ≤ mem.length) : (store mem dst p).length = mem.length := by
  unfold store
  rw [List.length_append, List.length_append, List.length_take, List.length_drop]
  omega

theorem load_add (mem : List α) (src m n : ℕ) :
    load mem src (m + n) = load mem src m ++ load mem (src + m) n := by
  unfold load
  rw [List.take_add, List.drop_drop]

/-- What stands where after a store. -/
theorem getElem?_store (h : dst + p.length ≤ mem.length) (i : ℕ) :
    (store mem dst p)[i]? =
      if i < dst then mem[i]? else if i < dst + p.length then p[i - dst]? else mem[i]? := by
  have htake : (mem.take dst).length = dst := List.length_take_of_le (by omega)
  unfold store
  rw [List.append_assoc]
  split_ifs with hbefore hin
  · rw [List.getElem?_append_left (by omega), List.getElem?_take_of_lt hbefore]
  · rw [List.getElem?_append_right (by omega), htake,
      List.getElem?_append_left (by omega)]
  · rw [List.getElem?_append_right (by omega), htake,
      List.getElem?_append_right (by omega), List.getElem?_drop]
    congr 1
    omega

/-- What a store wrote stands behind what stood before it. -/
theorem take_store (h : dst ≤ mem.length) :
    (store mem dst p).take (dst + p.length) = mem.take dst ++ p := by
  have hlength : (mem.take dst ++ p).length = dst + p.length := by
    rw [List.length_append, List.length_take_of_le h]
  unfold store
  rw [← hlength, List.take_left]

theorem drop_store (h : dst ≤ mem.length) (hm : dst + p.length ≤ m) :
    (store mem dst p).drop m = mem.drop m := by
  have hlength : (mem.take dst ++ p).length = dst + p.length := by
    rw [List.length_append, List.length_take_of_le h]
  obtain ⟨k, rfl⟩ := Nat.exists_eq_add_of_le hm
  unfold store
  rw [← List.drop_drop, ← hlength, List.drop_left, List.drop_drop, hlength]

theorem take_store_of_le (h : dst ≤ mem.length) (hm : m ≤ dst) :
    (store mem dst p).take m = mem.take m := by
  unfold store
  rw [List.append_assoc, List.take_append_of_le_length (by rw [List.length_take_of_le h]; exact hm),
    List.take_take, min_eq_left hm]

theorem load_store_above (h : dst ≤ mem.length) (hsrc : dst + p.length ≤ src) :
    load (store mem dst p) src n = load mem src n := by
  unfold load
  rw [drop_store h hsrc]

/-- Two stores, the second where the first ended, are one. -/
theorem store_store (h : dst + p.length ≤ mem.length) :
    store (store mem dst p) (dst + p.length) q = store mem dst (p ++ q) := by
  have hdst : dst ≤ mem.length := le_trans (Nat.le_add_right _ _) h
  change (store mem dst p).take (dst + p.length) ++ q ++
    (store mem dst p).drop (dst + p.length + q.length) = _
  rw [take_store hdst, drop_store hdst (Nat.le_add_right _ _), store, List.length_append,
    List.append_assoc (mem.take dst), Nat.add_assoc]

theorem copy_step (hdst : dst ≤ src) (h : src + m ≤ mem.length) :
    store (store mem dst (load mem src m)) (dst + m)
        (load (store mem dst (load mem src m)) (src + m) n) =
      store mem dst (load mem src (m + n)) := by
  have hlength : (load mem src m).length = m := length_load h
  have hroom : dst + (load mem src m).length ≤ mem.length := by
    rw [hlength]
    omega
  have hread : load (store mem dst (load mem src m)) (src + m) n = load mem (src + m) n :=
    load_store_above (by omega) (by rw [hlength]; omega)
  rw [hread, load_add, ← store_store hroom, hlength]

end AsmFlow.Library
