import AsmFlow.Http.Response
import AsmFlow.Memory.Buffer

/-!
# Path expansion

`af_cfg_expand_path` scans a template, writes what it stands for into a buffer and looks at
the joined text afterwards.
-/

namespace AsmFlow.Config

open Http (ascii decimal)

/-- What the process finds around it. -/
structure Environment where
  getenv : Bytes → Option Bytes
  uid : ℕ

/-- `PATH_MAX_BYTES` -/
def pathMaxBytes : ℕ := 4096

/-- The variables of the list. -/
inductive Var
  | home
  | configHome
  | stateHome
  | dataHome
  | runtimeDir
  deriving DecidableEq, Repr

def Var.name : Var → Bytes
  | home => ascii "HOME"
  | configHome => ascii "XDG_CONFIG_HOME"
  | stateHome => ascii "XDG_STATE_HOME"
  | dataHome => ascii "XDG_DATA_HOME"
  | runtimeDir => ascii "XDG_RUNTIME_DIR"

section Expand

variable (alloc : ℕ → Bool) (env : Environment)

/-- An append, with its status. -/
def put (b : Buffer) (p : Bytes) : Except Status Buffer :=
  match b.append alloc p with
  | (b', st) => if st < 0 then .error st else .ok b'

/-- `.find_close`: the name in front of the closing brace, and what is behind it. -/
def findClose : Bytes → Option (Bytes × Bytes)
  | [] => none
  | b :: bs => if b = 125 then some ([], bs) else (findClose bs).map fun p => (b :: p.1, p.2)

theorem findClose_eq_some {s name rest : Bytes} :
    findClose s = some (name, rest) ↔ 125 ∉ name ∧ s = name ++ 125 :: rest := by
  induction s generalizing name with
  | nil => simp [findClose]
  | cons b bs ih =>
    rw [findClose]
    split_ifs with hclose
    · subst hclose
      constructor
      · intro h
        obtain ⟨rfl, rfl⟩ := Prod.mk.inj (Option.some.inj h)
        simp
      · rintro ⟨hnone, heq⟩
        cases name with
        | nil =>
          obtain ⟨-, rfl⟩ := List.cons.inj heq
          rfl
        | cons c cs =>
          obtain ⟨rfl, -⟩ := List.cons.inj heq
          exact absurd List.mem_cons_self hnone
    · rw [Option.map_eq_some_iff]
      constructor
      · rintro ⟨⟨cs, rest'⟩, hcs, heq⟩
        obtain ⟨rfl, rfl⟩ := Prod.mk.inj heq
        obtain ⟨hnone, rfl⟩ := ih.mp hcs
        exact ⟨by simp [hnone, Ne.symm hclose], rfl⟩
      · rintro ⟨hnone, heq⟩
        cases name with
        | nil => exact absurd (List.cons.inj heq).1 hclose
        | cons c cs =>
          obtain ⟨rfl, rfl⟩ := List.cons.inj heq
          exact ⟨(cs, rest), ih.mpr ⟨fun h => hnone (List.mem_cons_of_mem _ h), rfl⟩, rfl⟩

end Expand

/-! ## What a template stands for -/

/-- The value of a variable: the one that is set, or the fallback of the XDG base directories. -/
def Var.value (env : Environment) (v : Var) : Option Bytes :=
  (env.getenv v.name).or
    (match v with
      | home => none
      | configHome => (env.getenv (ascii "HOME")).map (· ++ ascii "/.config")
      | stateHome => (env.getenv (ascii "HOME")).map (· ++ ascii "/.local/state")
      | dataHome => (env.getenv (ascii "HOME")).map (· ++ ascii "/.local/share")
      | runtimeDir => some (ascii "/run/user/" ++ decimal env.uid))

/-- No dollar sign, backquote, NUL, LF or CR. -/
def Literal (b : UInt8) : Prop := b ≠ 36 ∧ b ≠ 96 ∧ b ≠ 0 ∧ b ≠ 10 ∧ b ≠ 13

/-- The template is made of literal bytes and of references, and this is the text of it. -/
inductive Renders (env : Environment) : Bytes → Bytes → Prop
  | nil : Renders env [] []
  | literal {b : UInt8} {s r : Bytes} :
      Literal b → Renders env s r → Renders env (b :: s) (b :: r)
  | reference {v : Var} {x s r : Bytes} : v.value env = some x → Renders env s r →
      Renders env (36 :: 123 :: (v.name ++ 125 :: s)) (x ++ r)

/-- A path has this component. -/
def HasComponent (path name : Bytes) : Prop :=
  ∃ a b, path = a ++ (name ++ b) ∧ (a = [] ∨ ∃ a', a = a' ++ [47]) ∧ (b = [] ∨ ∃ b', b = 47 :: b')

/-- What a path of the configuration may be. -/
structure Sound (path : Bytes) : Prop where
  length : path.length ≤ pathMaxBytes
  absolute : ∃ rest, path = 47 :: rest
  climbs : ¬ HasComponent path (ascii "..")

/-- How a buffer takes one of these texts: memory is refused, or the text is appended, or none
of them finds room. -/
inductive Grows (b : Buffer) (X : Bytes → Prop) : Except Status Buffer → Prop
  | memory : Grows b X (.error .nomem)
  | grown {x : Bytes} {b' : Buffer} : X x → b'.data = b.data ++ x → b'.max = b.max →
      Grows b X (.ok b')
  | refused {e : Status} : (∀ x, X x → b.max < b.data.length + x.length) → Grows b X (.error e)

section Grows

variable {alloc : ℕ → Bool} {env : Environment} {b : Buffer} {X Y : Bytes → Prop}

theorem Grows.congr {r : Except Status Buffer} (h : Grows b X r) (hXY : ∀ x, X x ↔ Y x) :
    Grows b Y r := by
  cases h with
  | memory => exact .memory
  | grown hx hdata hmax => exact .grown ((hXY _).mp hx) hdata hmax
  | refused h => exact .refused fun x hx => h x ((hXY x).mpr hx)

theorem Grows.max_eq {b' : Buffer} (h : Grows b X (.ok b')) : b'.max = b.max := by
  cases h
  assumption

/-- One of the first texts, and one of the second behind it. -/
def Joined (X Y : Bytes → Prop) (t : Bytes) : Prop := ∃ x y, X x ∧ Y y ∧ t = x ++ y

theorem Grows.failed {e : Status} (h : Grows b X (.error e)) : Grows b (Joined X Y) (.error e) := by
  cases h with
  | memory => exact .memory
  | refused h =>
    refine .refused ?_
    rintro t ⟨x, y, hx, -, rfl⟩
    have := h x hx
    rw [List.length_append]
    omega

theorem Grows.next {b' : Buffer} {r : Except Status Buffer} (h : Grows b X (.ok b'))
    (hone : ∀ x x', X x → X x' → x = x') (hnext : Grows b' Y r) : Grows b (Joined X Y) r := by
  cases h with
  | @grown x b' hx hdata hmax =>
    cases hnext with
    | memory => exact .memory
    | grown hy hdata' hmax' =>
      exact .grown ⟨_, _, hx, hy, rfl⟩ (by rw [hdata', hdata, List.append_assoc])
        (hmax'.trans hmax)
    | refused hy =>
      refine .refused ?_
      rintro t ⟨x', y, hx', hty, rfl⟩
      obtain rfl := hone x x' hx hx'
      have := hy y hty
      rw [hdata, hmax, List.length_append] at this
      rw [List.length_append]
      omega

theorem Var.name_inj {v w : Var} (h : v.name = w.name) : v = w := by
  cases v <;> cases w <;> first | rfl | exact absurd h (by decide)

/-- The texts a name stands for. -/
def Means (env : Environment) (name x : Bytes) : Prop :=
  ∃ v : Var, v.name = name ∧ v.value env = some x

theorem Means.unique {name x x' : Bytes} (h : Means env name x) (h' : Means env name x') :
    x = x' := by
  obtain ⟨v, hv, hx⟩ := h
  obtain ⟨w, hw, hx'⟩ := h'
  obtain rfl := Var.name_inj (hv.trans hw.symm)
  exact Option.some.inj (hx.symm.trans hx')

theorem renders_literal {c : UInt8} (hc : Literal c) {cs : Bytes} (t : Bytes) :
    Joined (fun x => some [c] = some x) (Renders env cs) t ↔ Renders env (c :: cs) t := by
  constructor
  · rintro ⟨x, y, hx, h, rfl⟩
    obtain rfl := Option.some.inj hx
    exact .literal hc h
  · intro h
    cases h with
    | literal _ h => exact ⟨[c], _, rfl, h, rfl⟩
    | reference hv h => exact absurd rfl hc.1

/-- A dollar sign stands in front of a name in braces only. -/
theorem renders_dollar {cs r : Bytes} : Renders env (36 :: cs) r ↔
    ∃ v x s y, cs = 123 :: (Var.name v ++ 125 :: s) ∧ v.value env = some x ∧ Renders env s y ∧
      r = x ++ y := by
  constructor
  · intro h
    cases h with
    | literal hlit h => exact absurd rfl hlit.1
    | reference hv h => exact ⟨_, _, _, _, rfl, hv, h, rfl⟩
  · rintro ⟨v, x, s, y, rfl, hv, h, rfl⟩
    exact .reference hv h

theorem Var.name_braces (v : Var) : v.name ≠ [] ∧ 125 ∉ v.name := by
  cases v <;> decide

theorem findClose_name (v : Var) (s : Bytes) :
    findClose (v.name ++ 125 :: s) = some (v.name, s) :=
  findClose_eq_some.mpr ⟨v.name_braces.2, rfl⟩

/-- A reference, by the name that is read. -/
theorem renders_reference {ds name rest : Bytes} (h : findClose ds = some (name, rest))
    (t : Bytes) : Joined (Means env name) (Renders env rest) t ↔
      Renders env (36 :: 123 :: ds) t := by
  rw [renders_dollar]
  constructor
  · rintro ⟨x, y, ⟨v, rfl, hv⟩, hs, rfl⟩
    obtain ⟨-, rfl⟩ := findClose_eq_some.mp h
    exact ⟨v, x, rest, y, rfl, hv, hs, rfl⟩
  · rintro ⟨v, x, s, y, heq, hv, hs, rfl⟩
    obtain ⟨-, rfl⟩ := List.cons.inj heq
    rw [findClose_name] at h
    obtain ⟨rfl, rfl⟩ := Prod.mk.inj (Option.some.inj h)
    exact ⟨x, y, ⟨v, rfl, hv⟩, hs, rfl⟩

/-- A template stands for one text. -/
theorem Renders.unique {s r r' : Bytes} (h : Renders env s r) (h' : Renders env s r') : r = r' := by
  induction h generalizing r' with
  | nil =>
    cases h'
    rfl
  | @literal b s r hb h ih =>
    obtain ⟨x, y, hx, hy, rfl⟩ := (renders_literal hb r').mpr h'
    obtain rfl := Option.some.inj hx
    rw [ih hy]
    rfl
  | @reference v x s r hv h ih =>
    obtain ⟨x', y, hx, hy, rfl⟩ := (renders_reference (findClose_name v s) r').mpr h'
    rw [ih hy, Means.unique ⟨v, rfl, hv⟩ hx]

/-! ## The joined text -/

end Grows

end AsmFlow.Config
