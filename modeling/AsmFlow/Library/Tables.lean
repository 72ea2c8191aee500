import Mathlib.Tactic

/-!
# Rows under a key

A table is a list of rows. An upsert inserts a row, or merges it into the rows that
have its key; a row with a key of its own stays where it is.
-/

namespace AsmFlow.Library

variable {ρ σ κ : Type*} [DecidableEq κ]

/-- Insert the row, or merge it into the rows of its key. -/
def upsert (key : ρ → κ) (merge : ρ → ρ → ρ) (r : ρ) (t : List ρ) : List ρ :=
  if key r ∈ t.map key then t.map fun old => if key old = key r then merge old r else old
  else t ++ [r]

/-- The merge that keeps nothing of the old row. -/
def replace (_ r : ρ) : ρ := r

/-- The merge that leaves the old row alone. -/
def retain (old _ : ρ) : ρ := old

section Upsert

variable {key : ρ → κ} {merge : ρ → ρ → ρ} {r x : ρ} {t : List ρ}

theorem upsert_of_notMem (h : key r ∉ t.map key) : upsert key merge r t = t ++ [r] := if_neg h

/-- A merge that keeps the key changes no key, and adds one at most. -/
theorem map_key_upsert (hmerge : ∀ old, key old = key r → key (merge old r) = key r) :
    (upsert key merge r t).map key = if key r ∈ t.map key then t.map key else t.map key ++ [key r] := by
  unfold upsert
  split_ifs
  · rw [List.map_map, List.map_inj_left]
    intro old _
    rw [Function.comp_apply]
    split_ifs with hkey
    · rw [hmerge old hkey, hkey]
    · rfl
  · rw [List.map_append]
    rfl

theorem nodup_upsert (hmerge : ∀ old, key old = key r → key (merge old r) = key r)
    (h : (t.map key).Nodup) : ((upsert key merge r t).map key).Nodup := by
  rw [map_key_upsert hmerge]
  split_ifs with hmem
  · exact h
  · exact List.Nodup.append h (List.nodup_singleton _) (by simpa using hmem)

theorem mem_keys_upsert (hmerge : ∀ old, key old = key r → key (merge old r) = key r) (k : κ) :
    k ∈ (upsert key merge r t).map key ↔ k = key r ∨ k ∈ t.map key := by
  rw [map_key_upsert hmerge]
  split_ifs with hmem
  · constructor
    · exact Or.inr
    · rintro (rfl | h)
      · exact hmem
      · exact h
  · rw [List.mem_append, List.mem_singleton, or_comm]

/-- The row takes the place of the rows with its key. -/
theorem mem_upsert_replace : x ∈ upsert key replace r t ↔ x = r ∨ x ∈ t ∧ key x ≠ key r := by
  unfold upsert
  split_ifs with hmem
  · rw [List.mem_map]
    constructor
    · rintro ⟨old, hold, rfl⟩
      split_ifs with hkey
      · exact Or.inl rfl
      · exact Or.inr ⟨hold, hkey⟩
    · rintro (rfl | ⟨hx, hkey⟩)
      · obtain ⟨old, hold, hkey⟩ := List.mem_map.mp hmem
        exact ⟨old, hold, if_pos hkey⟩
      · exact ⟨x, hx, if_neg hkey⟩
  · rw [List.mem_append, List.mem_singleton, or_comm]
    refine or_congr_right ⟨fun hx => ⟨hx, fun hkey => hmem ?_⟩, fun h => h.1⟩
    rw [← hkey]
    exact List.mem_map_of_mem hx

/-- The rows that are there stay; the row is added if its key is new. -/
theorem mem_upsert_retain : x ∈ upsert key retain r t ↔ x ∈ t ∨ x = r ∧ key r ∉ t.map key := by
  unfold upsert retain
  split_ifs with hmem
  · simp [hmem]
  · simp [hmem]

/-- A column without repetitions keeps none, if the row repeats only what is under its
own key. -/
theorem nodup_map_upsert_replace {π : ρ → σ} (hkeys : (t.map key).Nodup) (h : (t.map π).Nodup)
    (hfree : ∀ old ∈ t, π old = π r → key old = key r) :
    ((upsert key replace r t).map π).Nodup := by
  unfold upsert
  split_ifs with hmem
  · rw [List.map_map]
    refine List.Nodup.map_on (fun x hx y hy hxy => ?_) (List.Nodup.of_map _ hkeys)
    simp only [Function.comp_apply, replace] at hxy
    split_ifs at hxy with hxr hyr hyr
    · exact List.inj_on_of_nodup_map hkeys hx hy (hxr.trans hyr.symm)
    · exact absurd (hfree y hy hxy.symm) hyr
    · exact absurd (hfree x hx hxy) hxr
    · exact List.inj_on_of_nodup_map h hx hy hxy
  · rw [List.map_append]
    refine List.Nodup.append h (List.nodup_singleton _) ?_
    rw [List.map_singleton, List.disjoint_singleton]
    intro hcolumn
    obtain ⟨old, hold, hsame⟩ := List.mem_map.mp hcolumn
    exact hmem (List.mem_map.mpr ⟨old, hold, hfree old hold hsame⟩)

/-- An upsert seen through a projection that has the key and that the merge does not
look behind. -/
theorem map_upsert {π : ρ → σ} {key' : σ → κ} (hkey : ∀ y, key y = key' (π y))
    (hmerge : ∀ old, key old = key r → π (merge old r) = π r) :
    (upsert key merge r t).map π = upsert key' replace (π r) (t.map π) := by
  have hkeys : (t.map π).map key' = t.map key := by
    rw [List.map_map, List.map_inj_left]
    intro y _
    exact (hkey y).symm
  unfold upsert
  rw [hkeys, ← hkey]
  split_ifs
  · rw [List.map_map, List.map_map, List.map_inj_left]
    intro old _
    simp only [Function.comp_apply, ← hkey]
    split_ifs with hold
    · exact hmerge old hold
    · rfl
  · rw [List.map_append]
    rfl

end Upsert

/-- Rows upserted one after the other. -/
def upsertAll (key : ρ → κ) (merge : ρ → ρ → ρ) (rs t : List ρ) : List ρ :=
  rs.foldl (fun t r => upsert key merge r t) t

section UpsertAll

variable {key : ρ → κ} {merge : ρ → ρ → ρ} {x : ρ}

theorem mem_upsertAll_replace {rs t : List ρ} (h : (rs.map key).Nodup) :
    x ∈ upsertAll key replace rs t ↔ x ∈ rs ∨ x ∈ t ∧ key x ∉ rs.map key := by
  induction rs generalizing t with
  | nil => simp [upsertAll]
  | cons r rs ih =>
    obtain ⟨hr, hrs⟩ := List.nodup_cons.mp h
    have hstep := ih (t := upsert key replace r t) hrs
    rw [mem_upsert_replace] at hstep
    refine hstep.trans ?_
    rw [List.mem_cons, List.map_cons, List.mem_cons, not_or]
    constructor
    · rintro (hx | ⟨rfl | ⟨hx, hkey⟩, hrest⟩)
      · exact Or.inl (Or.inr hx)
      · exact Or.inl (Or.inl rfl)
      · exact Or.inr ⟨hx, hkey, hrest⟩
    · rintro ((rfl | hx) | ⟨hx, hkey, hrest⟩)
      · exact Or.inr ⟨Or.inl rfl, hr⟩
      · exact Or.inl hx
      · exact Or.inr ⟨Or.inr ⟨hx, hkey⟩, hrest⟩

/-- The rows that pass are exactly those upserted, where the others that pass are gone. -/
theorem mem_filter_upsertAll_iff {rs t : List ρ} {p : ρ → Bool} (h : (rs.map key).Nodup)
    (hp : ∀ r ∈ rs, p r = true) :
    (∀ x, x ∈ (upsertAll key replace rs t).filter p ↔ x ∈ rs) ↔
      ∀ x ∈ t, key x ∉ rs.map key → p x = false := by
  have hmem (x : ρ) : x ∈ (upsertAll key replace rs t).filter p ↔
      (x ∈ rs ∨ x ∈ t ∧ key x ∉ rs.map key) ∧ p x = true := by
    rw [List.mem_filter, mem_upsertAll_replace h]
  constructor
  · intro hall x hx hkey
    by_contra hpass
    have hrow : x ∈ rs := (hall x).mp ((hmem x).mpr ⟨Or.inr ⟨hx, hkey⟩, by simpa using hpass⟩)
    exact hkey (List.mem_map_of_mem hrow)
  · intro hgone x
    rw [hmem]
    constructor
    · rintro ⟨hx | ⟨hx, hkey⟩, hpass⟩
      · exact hx
      · rw [hgone x hx hkey] at hpass
        cases hpass
    · exact fun hx => ⟨Or.inl hx, hp x hx⟩

theorem mem_upsertAll_retain {rs t : List ρ} (hx : x ∈ t) : x ∈ upsertAll key retain rs t := by
  induction rs generalizing t with
  | nil => exact hx
  | cons r rs ih => exact ih (mem_upsert_retain.mpr (Or.inl hx))

theorem mem_keys_upsertAll (hmerge : ∀ old r, key old = key r → key (merge old r) = key r)
    {rs t : List ρ} (k : κ) :
    k ∈ (upsertAll key merge rs t).map key ↔ k ∈ rs.map key ∨ k ∈ t.map key := by
  induction rs generalizing t with
  | nil => simp [upsertAll]
  | cons r rs ih =>
    have hstep := ih (t := upsert key merge r t)
    rw [mem_keys_upsert fun old => hmerge old r] at hstep
    refine hstep.trans ?_
    rw [List.map_cons, List.mem_cons]
    tauto

theorem nodup_upsertAll (hmerge : ∀ old r, key old = key r → key (merge old r) = key r)
    {rs t : List ρ} (h : (t.map key).Nodup) : ((upsertAll key merge rs t).map key).Nodup := by
  induction rs generalizing t with
  | nil => exact h
  | cons r rs ih => exact ih (nodup_upsert (fun old => hmerge old r) h)

theorem map_upsertAll {π : ρ → σ} {key' : σ → κ} (hkey : ∀ y, key y = key' (π y))
    (hmerge : ∀ old r, key old = key r → π (merge old r) = π r) (rs t : List ρ) :
    (upsertAll key merge rs t).map π = upsertAll key' replace (rs.map π) (t.map π) := by
  induction rs generalizing t with
  | nil => rfl
  | cons r rs ih =>
    have hstep := ih (upsert key merge r t)
    rw [map_upsert hkey fun old => hmerge old r] at hstep
    exact hstep

end UpsertAll
end AsmFlow.Library
