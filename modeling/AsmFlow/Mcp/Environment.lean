import AsmFlow.Library.Cells
import AsmFlow.Memory.Arena
import AsmFlow.Memory.Buffer

/-!
# The environment of a server

`af_mcp_build_env`: one pass counts what the child is given, a second one fills the
block that was allocated for it.
-/

namespace AsmFlow.Mcp

open Library

/-- A string in memory, without its NUL. -/
abbrev CString := {s : Bytes // (0 : UInt8) ∉ s}

/-- `getenv`. -/
abbrev Environ := CString → Option CString

/-- The part of `af_cfg_mcp` about the environment; a pointer may be null. -/
structure EnvConfig where
  allow : List (Option CString)
  /-- `ENVP_NAME` and `ENVP_ENV`. -/
  pairs : List (Option CString × Option CString)

/-- `af_mul_size`. -/
def mulSize (a b : ℕ) : Option ℕ := if 2 ^ 64 ≤ a * b then none else some (a * b)

/-- How the second pass may end early. -/
inductive FillFault
  | overrun
  | failed (st : Status)

/-- The second pass: the block, `r15` and the write cursor. -/
structure Filling where
  mem : Bytes
  entries : ℕ
  cursor : ℕ

/-- A pointer in memory. -/
def le64 (n : ℕ) : Bytes := (List.range 8).map fun i => UInt8.ofNat (n >>> (8 * i))

/-- A write to an address, which must be one of the block. -/
def put (base : ℕ) (mem : Bytes) (dst : ℕ) (p : Bytes) : Except FillFault Bytes :=
  if base ≤ dst ∧ dst - base + p.length ≤ mem.length then .ok (store mem (dst - base) p)
  else .error .overrun

/-- `NAME=VALUE` and its NUL. -/
def entryText (name value : CString) : Bytes := name.val ++ 61 :: (value.val ++ [0])

/-- The variable of a request, if it is set. -/
def entryOf (env : Environ) : Option CString × Option CString → Option (CString × CString)
  | (some name, some source) => (env source).map fun value => (name, value)
  | _ => none

/-- What the configuration asks for. -/
def EnvConfig.requests (cfg : EnvConfig) : List (Option CString × Option CString) :=
  cfg.allow.map (fun name => (name, name)) ++ cfg.pairs

/-- The texts of the variables that are set. -/
def texts (env : Environ) (rs : List (Option CString × Option CString)) : List Bytes :=
  (rs.filterMap (entryOf env)).map fun e => entryText e.1 e.2

/-- Where these texts begin, one behind the other. -/
def pointers (start : ℕ) : List Bytes → List ℕ
  | [] => []
  | t :: ts => start :: pointers (start + t.length) ts

/-- The block for `execve`: the pointers, a null pointer, the texts. -/
def envBlock (base : ℕ) (ts : List Bytes) : Bytes :=
  (pointers (base + 8 * (ts.length + 1)) ts ++ [0]).flatMap le64 ++ ts.flatten

theorem length_le64 (n : ℕ) : (le64 n).length = 8 := by
  rw [le64, List.length_map, List.length_range]

section Count

variable {env : Environ} {r : Option CString × Option CString} {acc acc' : ℕ × ℕ}

end Count

theorem store_behind {α : Type*} (a b p : List α) :
    store (a ++ b) a.length p = a ++ (p ++ b.drop p.length) := by
  unfold store
  rw [List.take_left, ← List.drop_drop, List.drop_left, List.append_assoc]

theorem pointers_snoc (start : ℕ) (ts : List Bytes) (t : Bytes) :
    pointers start (ts ++ [t]) = pointers start ts ++ [start + ts.flatten.length] := by
  induction ts generalizing start with
  | nil => rfl
  | cons t' ts ih =>
    rw [List.cons_append, pointers, ih, pointers, List.flatten_cons, List.length_append,
      List.cons_append, Nat.add_assoc]

theorem length_pointers (start : ℕ) (ts : List Bytes) : (pointers start ts).length = ts.length := by
  induction ts generalizing start with
  | nil => rfl
  | cons t ts ih => rw [pointers, List.length_cons, ih, List.length_cons]

theorem length_flatMap_le64 (ps : List ℕ) : (ps.flatMap le64).length = 8 * ps.length := by
  induction ps with
  | nil => rfl
  | cons p ps ih =>
    rw [List.flatMap_cons, List.length_append, length_le64, ih, List.length_cons]
    omega

/-- The block when these texts are written of so many, and so many bytes are to come. -/
structure Layout (base n : ℕ) (done : List Bytes) (left : ℕ) (f : Filling) : Prop where
  mem : ∃ gap rest : Bytes, f.mem =
    (pointers (base + 8 * (n + 1)) done).flatMap le64 ++ (gap ++ (done.flatten ++ rest)) ∧
      gap.length = 8 * (n + 1 - done.length) ∧ rest.length = left
  entries : f.entries = done.length
  cursor : f.cursor = base + 8 * (n + 1) + done.flatten.length

theorem put_behind {base : ℕ} {mem a b p : Bytes} (hmem : mem = a ++ b)
    (hp : p.length ≤ b.length) :
    put base mem (base + a.length) p = .ok (a ++ (p ++ b.drop p.length)) := by
  have hroom : base ≤ base + a.length ∧
      base + a.length - base + p.length ≤ (a ++ b).length := by
    rw [List.length_append]
    omega
  rw [hmem, put, if_pos hroom, Nat.add_sub_cancel_left, store_behind]

/-- One more text and its pointer. -/
theorem Layout.next {base n left : ℕ} {done : List Bytes} {t : Bytes} {f : Filling}
    (h : Layout base n done (t.length + left) f) (hn : done.length < n)
    (hword : f.cursor + t.length < 2 ^ 64) :
    ∃ mem mem', put base f.mem f.cursor t = .ok mem ∧
      put base mem (base + f.entries * 8) (le64 f.cursor) = .ok mem' ∧
      addSize f.cursor t.length = some (f.cursor + t.length) ∧
      Layout base n (done ++ [t]) left ⟨mem', f.entries + 1, f.cursor + t.length⟩ := by
  obtain ⟨gap, rest, hmem, hgap, hrest⟩ := h.mem
  obtain ⟨front, hfront⟩ :
      ∃ front, front = (pointers (base + 8 * (n + 1)) done).flatMap le64 := ⟨_, rfl⟩
  have hlength : front.length = 8 * done.length := by
    rw [hfront, length_flatMap_le64, length_pointers]
  rw [← hfront] at hmem
  have htext : put base f.mem f.cursor t =
      .ok (front ++ (gap ++ done.flatten) ++ (t ++ rest.drop t.length)) := by
    have hcursor : f.cursor = base + (front ++ (gap ++ done.flatten)).length := by
      rw [h.cursor, List.length_append, List.length_append, hlength, hgap]
      omega
    rw [hcursor]
    exact put_behind (by rw [hmem]; simp only [List.append_assoc]) (by omega)
  have hpointer : put base (front ++ (gap ++ done.flatten) ++ (t ++ rest.drop t.length))
      (base + f.entries * 8) (le64 f.cursor) =
      .ok (front ++ (le64 f.cursor ++ (gap ++ (done.flatten ++ (t ++ rest.drop t.length))).drop
        (le64 f.cursor).length)) := by
    have hentries : f.entries * 8 = front.length := by
      rw [h.entries, hlength, Nat.mul_comm]
    rw [hentries]
    refine put_behind (by simp only [List.append_assoc]) ?_
    rw [length_le64, List.length_append, hgap]
    omega
  refine ⟨_, _, htext, hpointer, if_neg (not_le.mpr hword), ?_⟩
  refine ⟨⟨gap.drop 8, rest.drop t.length, ?_, ?_, ?_⟩, ?_, ?_⟩
  · have hdrop : (gap ++ (done.flatten ++ (t ++ rest.drop t.length))).drop 8 =
        gap.drop 8 ++ (done.flatten ++ (t ++ rest.drop t.length)) :=
      List.drop_append_of_le_length (by omega)
    rw [length_le64, hdrop, pointers_snoc, List.flatMap_append, ← hfront, List.flatten_append,
      h.cursor]
    simp only [List.flatMap_singleton, List.flatten_singleton, List.append_assoc]
  · rw [List.length_drop, hgap, List.length_append, List.length_singleton]
    omega
  · rw [List.length_drop, hrest]
    omega
  · rw [h.entries, List.length_append, List.length_singleton]
  · have hcursor := h.cursor
    change f.cursor + t.length = _
    simp only [List.flatten_append, List.flatten_singleton, List.length_append]
    omega

section Fill

variable {env : Environ} {base n left : ℕ} {done : List Bytes} {f : Filling}

end Fill

/-- Behind the last text a null pointer closes the vector. -/
theorem Layout.close {base n : ℕ} {ts : List Bytes} {f : Filling} (h : Layout base n ts 0 f)
    (hn : ts.length = n) :
    put base f.mem (base + f.entries * 8) (le64 0) = .ok (envBlock base ts) := by
  obtain ⟨gap, rest, hmem, hgap, hrest⟩ := h.mem
  obtain rfl := List.length_eq_zero_iff.mp hrest
  rw [hn, Nat.add_sub_cancel_left] at hgap
  have hentries : f.entries * 8 =
      ((pointers (base + 8 * (n + 1)) ts).flatMap le64).length := by
    rw [h.entries, length_flatMap_le64, length_pointers, Nat.mul_comm]
  have hdrop : (gap ++ (ts.flatten ++ [])).drop (le64 0).length = ts.flatten := by
    rw [length_le64, List.append_nil, List.drop_left' hgap]
  have hroom : (le64 0).length ≤ (gap ++ (ts.flatten ++ [])).length := by
    rw [length_le64, List.length_append, hgap]
    omega
  rw [hentries, put_behind hmem hroom, hdrop, envBlock, hn, List.flatMap_append,
    List.flatMap_singleton, List.append_assoc]

end AsmFlow.Mcp
