import AsmFlow.Tui.Refresh
import AsmFlow.Tui.Selection

/-!
# The rollback of a refresh

While the console is connected, the frames it keeps are those of its documents: applied
again, they bring the documents of a failed refresh back. The selection is searched for
by stepping through the rows of the last build, so it comes back where the list that is
rolled back still has it, and where the refresh did not move it or the rows lead to it.
-/

namespace AsmFlow.Console

open Http Json Library Tui

/-! ## One frame -/

/-- The same selection, over the same rows. -/
def SameSelection (s s' : Screen) : Prop :=
  s'.selectedId = s.selectedId ∧ s'.selectedIndex = s.selectedIndex ∧ s'.rows = s.rows

theorem SameSelection.trans {s t u : Screen} (h : SameSelection s t) (h' : SameSelection t u) :
    SameSelection s u :=
  ⟨h'.1.trans h.1, h'.2.1.trans h.2.1, h'.2.2.trans h.2.2⟩

theorem SameSelection.sync {s t : Screen} (h : SameSelection s t) (elements : List Mcp.Json) :
    (t.sync elements).selectedId = (s.sync elements).selectedId := by
  obtain ⟨hid, hindex, -⟩ := h
  unfold Screen.sync
  rw [hid, hindex]
  dsimp only
  split
  · rfl
  · split
    · rfl
    · split <;> rfl

section Frame

variable {loadb : Bytes → Option Mcp.Json} {granted : Bool} {kind : Kind} {bytes : Bytes}
  {m : Model} {root : Mcp.Json} {result : Option Mcp.Json} {e : Status} {k : ListScreen}

theorem readFrame_neg (h : Model.readFrame loadb granted kind bytes = .error e) : e < 0 := by
  unfold Model.readFrame at h
  split_ifs at h
  · obtain rfl := Except.error.inj h
    decide
  · obtain rfl := Except.error.inj h
    decide
  · split at h
    · next hparse =>
      obtain rfl := Except.error.inj h
      exact parseDoc_neg hparse
    · split at h
      · next hresult =>
        obtain rfl := Except.error.inj h
        unfold frameResult at hresult
        split at hresult
        · obtain rfl := Except.error.inj hresult
          decide
        · split at hresult
          · obtain rfl := Except.error.inj hresult
            decide
          · cases hresult
        · split at hresult
          · obtain rfl := Except.error.inj hresult
            decide
          · split_ifs at hresult
            obtain rfl := Except.error.inj hresult
            decide
      · cases h

/-- A frame that was read was read with memory. -/
theorem readFrame_granted (h : Model.readFrame loadb granted kind bytes = .ok (root, result)) :
    granted = true := by
  unfold Model.readFrame parseDoc at h
  split_ifs at h with hempty hbytes hmax hscan hgranted
  exact eq_true_of_ne_false hgranted

theorem setFrame_rejected (h : Model.readFrame loadb granted kind bytes = .error e) :
    m.setFrame loadb granted kind bytes = (m.invalidate kind, e) := by
  rw [Model.setFrame, h]

theorem setFrame_accepted (h : Model.readFrame loadb granted kind bytes = .ok (root, result)) :
    m.setFrame loadb granted kind bytes = (m.commit kind root result, Status.ok) := by
  rw [Model.setFrame, h]

theorem commit_docs : (m.commit kind root result).docs = Function.update m.docs kind (.valid root) := by
  unfold Model.commit Model.syncSelection
  cases kind <;> dsimp only <;> try split
  all_goals rfl

theorem setFrame_docs_other (loadb : Bytes → Option Mcp.Json) (granted : Bool) (bytes : Bytes)
    (m : Model) {j : Kind} (h : j ≠ kind) :
    (m.setFrame loadb granted j bytes).1.docs kind = m.docs kind := by
  unfold Model.setFrame
  split
  · exact Function.update_of_ne (Ne.symm h) _ _
  · rw [commit_docs]
    exact Function.update_of_ne (Ne.symm h) _ _

theorem setFrame_docs_self (h : Model.readFrame loadb granted kind bytes = .ok (root, result)) :
    (m.setFrame loadb granted kind bytes).1.docs kind = .valid root := by
  rw [setFrame_accepted h, commit_docs]
  exact Function.update_self _ _ _

/-- A frame that is not accepted leaves the selections alone. -/
theorem same_of_rejected (h : Model.readFrame loadb granted kind bytes = .error e) (k : ListScreen) :
    SameSelection (m.screens k) ((m.setFrame loadb granted kind bytes).1.screens k) := by
  rw [setFrame_rejected h]
  exact ⟨rfl, rfl, rfl⟩

/-- So does a frame of another screen, and one of the routes. -/
theorem same_of_other (loadb : Bytes → Option Mcp.Json) (granted : Bool) (bytes : Bytes) (m : Model)
    (h : k = .routes ∨ kind ≠ k.kind) :
    SameSelection (m.screens k) ((m.setFrame loadb granted kind bytes).1.screens k) := by
  unfold Model.setFrame
  split
  · exact ⟨rfl, rfl, rfl⟩
  · by_cases hk : k = .routes
    · subst hk
      unfold Model.commit Model.syncSelection
      cases kind <;> dsimp only <;> try split
      all_goals exact ⟨rfl, rfl, rfl⟩
    · rw [(commit_other m _ _ hk (h.resolve_left hk)).1]
      exact ⟨rfl, rfl, rfl⟩

/-- The elements of a frame for a screen. -/
def elementsOf (root : Mcp.Json) : List Mcp.Json := ((Slot.valid root).elements).getD []

/-- An accepted frame of a screen synchronises its selection. -/
theorem setFrame_own (hk : k ≠ .routes)
    (h : Model.readFrame loadb granted k.kind bytes = .ok (root, result)) :
    ((m.setFrame loadb granted k.kind bytes).1.screens k).selectedId =
        ((m.screens k).sync (elementsOf root)).selectedId ∧
      ((m.setFrame loadb granted k.kind bytes).1.screens k).rows = (m.screens k).rows := by
  rw [setFrame_accepted h, elementsOf]
  obtain ⟨rfl, hroot⟩ | ⟨elements, rfl, hroot⟩ := frameResult_cases (readFrame_result h)
  · rw [(commit_error m root hk).1, hroot]
    exact ⟨rfl, rfl⟩
  · rw [(commit_list m root elements hk).1, hroot]
    exact ⟨rfl, sync_rows _ _⟩

end Frame

/-! ## Finding the selection again -/

/-- The first elements of a list have the ID. -/
def ListedIn (elements : List Mcp.Json) (id : Bytes) : Prop :=
  ∃ v ∈ elements.take maxRows, stableId v = some id

/-- Reading the list again leaves the selection alone. -/
def Stays (s : Screen) (elements : List Mcp.Json) : Prop :=
  let shown := elements.take maxRows
  (s.selectedId ≠ [] ∧ ListedIn elements s.selectedId) ∨
    (s.selectedId = [] ∧ (shown[Screen.clamp s.selectedIndex shown.length]?).bind stableId = none)

/-- Stepping through the rows leads to the ID from anywhere. -/
def Steppable (rows : List Row) (id : Bytes) : Prop :=
  rows.length < maxRows ∧ (∀ r ∈ rows, r.id ≠ [] ∧ r.id.length ≤ ctlIdMax) ∧
    ∃ r ∈ rows, r.id = id

instance (elements : List Mcp.Json) (id : Bytes) : Decidable (ListedIn elements id) :=
  inferInstanceAs (Decidable (∃ v ∈ elements.take maxRows, stableId v = some id))

instance (s : Screen) (elements : List Mcp.Json) : Decidable (Stays s elements) :=
  inferInstanceAs (Decidable (_ ∨ _))

instance (rows : List Row) (id : Bytes) : Decidable (Steppable rows id) :=
  inferInstanceAs (Decidable (_ ∧ _ ∧ ∃ r ∈ rows, r.id = id))

section Restore

variable {k : ListScreen} {s : Screen} {elements : List Mcp.Json} {saved : Bytes}

theorem Stays.sync (h : Stays s elements) : (s.sync elements).selectedId = s.selectedId := by
  obtain ⟨hne, v, hv, hid⟩ | ⟨hnil, hnone⟩ := h
  · exact sync_contained hne hv hid
  · rw [sync_fallback rfl (.inl hnil), hnone, hnil]
    rfl

/-- A list without IDs selects nothing. -/
theorem sync_none (h : ∀ v ∈ elements.take maxRows, stableId v = none) :
    (s.sync elements).selectedId = [] := by
  have hfall : (s.sync elements).selectedId = (((elements.take maxRows)[Screen.clamp s.selectedIndex
      (elements.take maxRows).length]?).bind stableId).getD [] := by
    refine sync_fallback rfl (.inr fun v hv => ?_)
    rw [h v hv]
    exact nofun
  rw [hfall]
  cases hat : (elements.take maxRows)[Screen.clamp s.selectedIndex
      (elements.take maxRows).length]? with
  | none => rfl
  | some v =>
    rw [Option.bind_some, h v (List.mem_of_getElem? hat)]
    rfl

theorem restoreFrom_found (h : s.selectedId = saved) (n : ℕ) : restoreFrom k saved (n + 1) s = s := by
  rw [restoreFrom, if_pos h]

/-- A step to a row with an ID. -/
theorem selectNext_row (s : Screen) (hne : s.rows ≠ [])
    (hrows : ∀ r ∈ s.rows, r.id ≠ [] ∧ r.id.length ≤ ctlIdMax) :
    ∃ r, s.rows[s.nextIndex]? = some r ∧ (s.selectNext k).2 = Status.ok ∧
      (s.selectNext k).1.selectedId = r.id ∧ (s.selectNext k).1.selectedIndex = s.nextIndex ∧
      (s.selectNext k).1.rows = s.rows := by
  have hlt : s.nextIndex < s.rows.length := by
    have hpos := List.length_pos_iff.mpr hne
    unfold Screen.nextIndex
    split_ifs <;> omega
  obtain ⟨hid, hlength⟩ := hrows _ (List.getElem_mem hlt)
  have hmove : s.selectNext k = (Screen.rebindDetail k
      { s with
        selectedId := s.rows[s.nextIndex].id
        selectedIndex := s.nextIndex
        marked := some s.nextIndex }, Status.ok) := by
    rw [Screen.selectNext, Screen.moveTo, List.getElem?_eq_getElem hlt]
    dsimp only
    rw [selectionStore_ok hid hlength]
    exact if_neg (by decide : ¬ Status.ok < 0)
  refine ⟨s.rows[s.nextIndex], List.getElem?_eq_getElem hlt, ?_⟩
  rw [hmove]
  have hframe := rebindDetail_frame k
    { s with
      selectedId := s.rows[s.nextIndex].id
      selectedIndex := s.nextIndex
      marked := some s.nextIndex }
  refine ⟨rfl, hframe.2.2.1, ?_, hframe.1⟩
  unfold Screen.rebindDetail
  split
  · rfl
  · split <;> rfl

/-- How many steps lead from the row `j` of `n` to the row `p`. -/
def distance (n j p : ℕ) : ℕ := if j ≤ p then p - j else n - j + p

/-- From a row, stepping reaches the saved ID in as many steps as it is away. -/
theorem restoreFrom_row {rows : List Row} {p : ℕ} {r : Row}
    (hrows : ∀ r ∈ rows, r.id ≠ [] ∧ r.id.length ≤ ctlIdMax) (hp : rows[p]? = some r)
    (hid : r.id = saved) (n : ℕ) :
    ∀ s : Screen, s.rows = rows → (rows[s.selectedIndex]?).map Row.id = some s.selectedId →
      distance rows.length s.selectedIndex p < n → (restoreFrom k saved n s).selectedId = saved := by
  induction n with
  | zero => exact fun s hs hat hn => absurd hn (Nat.not_lt_zero _)
  | succ n ih =>
    intro s hs hat hn
    by_cases hfound : s.selectedId = saved
    · rw [restoreFrom_found hfound]
      exact hfound
    · have hplt : p < rows.length := (List.getElem?_eq_some_iff.mp hp).1
      have hj : s.selectedIndex < rows.length := by
        by_contra hout
        rw [List.getElem?_eq_none (Nat.not_lt.mp hout)] at hat
        cases hat
      -- the row that is selected is not the one that was saved
      have hne : s.selectedIndex ≠ p := by
        intro heq
        rw [heq, hp, Option.map_some, hid] at hat
        exact hfound (Option.some.inj hat).symm
      obtain ⟨r', hr', hst, hid', hindex, hsame⟩ := selectNext_row (k := k) s
        (hs ▸ List.ne_nil_of_length_pos (Nat.zero_lt_of_lt hplt)) (hs ▸ hrows)
      rw [restoreFrom, if_neg hfound]
      dsimp only
      rw [hst, if_neg (by decide : ¬ Status.ok < 0)]
      refine ih _ (hsame.trans hs) ?_ ?_
      · rw [hindex, ← hs, hr', hid']
        rfl
      · rw [hindex, Screen.nextIndex, hs]
        unfold distance at hn ⊢
        split_ifs at hn ⊢ <;> omega

/-- Where the rows lead to the saved ID, it is selected again. -/
theorem restoreSelection_steppable (h : Steppable s.rows saved) :
    (restoreSelection k saved s).selectedId = saved := by
  obtain ⟨hlength, hrows, r, hr, hid⟩ := h
  have hsaved : saved ≠ [] := hid ▸ (hrows r hr).1
  obtain ⟨p, hp⟩ := List.getElem?_of_mem hr
  have hplt : p < s.rows.length := (List.getElem?_eq_some_iff.mp hp).1
  rw [restoreSelection, if_neg hsaved]
  by_cases hfound : s.selectedId = saved
  · exact (congrArg Screen.selectedId (restoreFrom_found hfound 63)).trans hfound
  · obtain ⟨r', hr', hst, hid', hindex, hsame⟩ := selectNext_row (k := k) s
      (List.ne_nil_of_mem hr) hrows
    have hfuel : maxRows = 63 + 1 := rfl
    rw [hfuel, restoreFrom, if_neg hfound]
    dsimp only
    rw [hst, if_neg (by decide : ¬ Status.ok < 0)]
    refine restoreFrom_row hrows hp hid 63 _ hsame ?_ ?_
    · rw [hindex, hr', hid']
      rfl
    · rw [hindex, Screen.nextIndex]
      unfold maxRows at hlength
      unfold distance
      split_ifs <;> omega

theorem restoreSelection_found (h : s.selectedId = saved) : restoreSelection k saved s = s := by
  unfold restoreSelection
  split_ifs
  · rfl
  · exact restoreFrom_found h 63

end Restore

/-! ## Several frames -/

section Staged

variable {loadb : Bytes → Option Mcp.Json} {o : Outcome} {k : ListScreen}

/-- What a frame of an outcome is read as. -/
def staged (loadb : Bytes → Option Mcp.Json) (o : Outcome) (j : Kind) :
    Except Status (Mcp.Json × Option Mcp.Json) :=
  Model.readFrame loadb (o.granted j) j ((o.reply j).into [])

theorem applyStaged_rejected {j : Kind} {ks : List Kind} {m : Model} {e : Status}
    (h : staged loadb o j = .error e) :
    applyStaged loadb o (j :: ks) m =
      ((m.setFrame loadb (o.granted j) j ((o.reply j).into [])).1, e) := by
  rw [applyStaged, setFrame_rejected h]
  exact if_pos (readFrame_neg h)

theorem applyStaged_accepted {j : Kind} {ks : List Kind} {m : Model} {root : Mcp.Json}
    {result : Option Mcp.Json} (h : staged loadb o j = .ok (root, result)) :
    applyStaged loadb o (j :: ks) m =
      applyStaged loadb o ks (m.setFrame loadb (o.granted j) j ((o.reply j).into [])).1 := by
  rw [applyStaged, setFrame_accepted h]
  exact if_neg (by decide : ¬ Status.ok < 0)

/-- Frames of other kinds leave a document alone. -/
theorem applyStaged_docs_other {j : Kind} (ks : List Kind) (m : Model) (h : j ∉ ks) :
    (applyStaged loadb o ks m).1.docs j = m.docs j := by
  induction ks generalizing m with
  | nil => rfl
  | cons i ks ih =>
    rw [List.mem_cons, not_or] at h
    have hdoc := setFrame_docs_other loadb (o.granted i) ((o.reply i).into []) m (Ne.symm h.1)
    cases hread : staged loadb o i with
    | error e =>
      rw [applyStaged_rejected hread]
      exact hdoc
    | ok read =>
      rw [applyStaged_accepted hread, ih _ h.2]
      exact hdoc

/-- Where every frame is accepted, every document is that of its frame. -/
theorem applyStaged_docs (ks : List Kind) (m : Model) (hnodup : ks.Nodup)
    (hok : ¬ (applyStaged loadb o ks m).2 < 0) :
    ∀ j ∈ ks, ∃ root result, staged loadb o j = .ok (root, result) ∧
      (applyStaged loadb o ks m).1.docs j = .valid root := by
  induction ks generalizing m with
  | nil => exact fun j hj => absurd hj List.not_mem_nil
  | cons i ks ih =>
    rw [List.nodup_cons] at hnodup
    cases hread : staged loadb o i with
    | error e =>
      rw [applyStaged_rejected hread] at hok
      exact absurd (readFrame_neg hread) hok
    | ok read =>
      obtain ⟨root, result⟩ := read
      rw [applyStaged_accepted hread] at hok ⊢
      rw [List.forall_mem_cons]
      refine ⟨⟨root, result, hread, ?_⟩, ih _ hnodup.2 hok⟩
      rw [applyStaged_docs_other ks _ hnodup.1]
      exact setFrame_docs_self hread

/-- Frames of other screens leave a selection alone. -/
theorem applyStaged_same (ks : List Kind) (m : Model) (h : k = .routes ∨ k.kind ∉ ks) :
    SameSelection (m.screens k) ((applyStaged loadb o ks m).1.screens k) := by
  induction ks generalizing m with
  | nil => exact ⟨rfl, rfl, rfl⟩
  | cons i ks ih =>
    have hsame := same_of_other loadb (o.granted i) ((o.reply i).into []) m
      (h.imp_right fun hmem heq => hmem (heq ▸ List.mem_cons_self))
    cases hread : staged loadb o i with
    | error e =>
      rw [applyStaged_rejected hread]
      exact hsame
    | ok read =>
      rw [applyStaged_accepted hread]
      exact hsame.trans (ih _ (h.imp_right fun hmem hks => hmem (List.mem_cons_of_mem _ hks)))

theorem reapply_docs_other {responses : Kind → Bytes} {j : Kind} (ks : List Kind) (m : Model)
    (h : j ∉ ks) : (reapply loadb o responses ks m).docs j = m.docs j := by
  induction ks generalizing m with
  | nil => rfl
  | cons i ks ih =>
    rw [List.mem_cons, not_or] at h
    rw [reapply, ih _ h.2]
    exact setFrame_docs_other loadb _ _ m (Ne.symm h.1)

/-- Frames that were read before bring their documents back. -/
theorem reapply_docs {responses : Kind → Bytes} {j : Kind} {root : Mcp.Json}
    {result : Option Mcp.Json} (ks : List Kind) (m : Model) (hnodup : ks.Nodup) (hj : j ∈ ks)
    (hread : Model.readFrame loadb (o.again j) j (responses j) = .ok (root, result)) :
    (reapply loadb o responses ks m).docs j = .valid root := by
  induction ks generalizing m with
  | nil => cases hj
  | cons i ks ih =>
    rw [List.nodup_cons] at hnodup
    obtain rfl | hj := List.mem_cons.mp hj
    · rw [reapply, reapply_docs_other ks _ hnodup.1]
      exact setFrame_docs_self hread
    · exact ih _ hnodup.2 hj

theorem reapply_same (loadb : Bytes → Option Mcp.Json) (o : Outcome) (responses : Kind → Bytes)
    (ks : List Kind) (m : Model) (h : k = .routes ∨ k.kind ∉ ks) :
    SameSelection (m.screens k) ((reapply loadb o responses ks m).screens k) := by
  induction ks generalizing m with
  | nil => exact ⟨rfl, rfl, rfl⟩
  | cons i ks ih =>
    have hsame := same_of_other loadb (o.again i) (responses i) m
      (h.imp_right fun hmem heq => hmem (heq ▸ List.mem_cons_self))
    exact hsame.trans (ih _ (h.imp_right fun hmem hks => hmem (List.mem_cons_of_mem _ hks)))

/-- The list of a screen, applied again among others. -/
theorem reapply_own {responses : Kind → Bytes} {root : Mcp.Json} {result : Option Mcp.Json}
    (ks : List Kind) (m : Model) (hk : k ≠ .routes) (hnodup : ks.Nodup) (hmem : k.kind ∈ ks)
    (hread : Model.readFrame loadb (o.again k.kind) k.kind (responses k.kind) = .ok (root, result)) :
    ((reapply loadb o responses ks m).screens k).selectedId =
        ((m.screens k).sync (elementsOf root)).selectedId ∧
      ((reapply loadb o responses ks m).screens k).rows = (m.screens k).rows := by
  induction ks generalizing m with
  | nil => cases hmem
  | cons i ks ih =>
    rw [List.nodup_cons] at hnodup
    rw [reapply]
    by_cases hi : i = k.kind
    · subst hi
      have hsame := reapply_same loadb o responses ks
        (m.setFrame loadb (o.again k.kind) k.kind (responses k.kind)).1 (.inr hnodup.1)
      obtain ⟨hid, hrows⟩ := setFrame_own (m := m) hk hread
      exact ⟨hsame.1.trans hid, hsame.2.2.trans hrows⟩
    · have hsame := same_of_other loadb (o.again i) (responses i) m (.inr hi)
      obtain ⟨hid, hrows⟩ := ih (m.setFrame loadb (o.again i) i (responses i)).1 hnodup.2
        ((List.mem_cons.mp hmem).resolve_left (Ne.symm hi))
      exact ⟨hid.trans (hsame.sync _), hrows.trans hsame.2.2⟩

theorem exists_rejected (ks : List Kind) (m : Model) (h : (applyStaged loadb o ks m).2 < 0) :
    ∃ j ∈ ks, ∃ e, staged loadb o j = .error e := by
  induction ks generalizing m with
  | nil => exact absurd h (by decide : ¬ Status.ok < 0)
  | cons i ks ih =>
    cases hread : staged loadb o i with
    | error e => exact ⟨i, List.mem_cons_self, e, hread⟩
    | ok read =>
      rw [applyStaged_accepted hread] at h
      obtain ⟨j, hj, e, he⟩ := ih _ h
      exact ⟨j, List.mem_cons_of_mem _ hj, e, he⟩

/-- What a failed overview has done to the selections of the servers and the providers. -/
theorem applyStaged_failed {m : Model} (hfail : (applyStaged loadb o overviewKinds m).2 < 0) :
    SameSelection (m.screens .mcp) ((applyStaged loadb o overviewKinds m).1.screens .mcp) ∧
      (SameSelection (m.screens .providers)
          ((applyStaged loadb o overviewKinds m).1.screens .providers) ∨
        ∃ read root result, staged loadb o .snapshot = .ok read ∧
          staged loadb o .providers = .ok (root, result) ∧
          ((applyStaged loadb o overviewKinds m).1.screens .providers).selectedId =
            ((m.screens .providers).sync (elementsOf root)).selectedId ∧
          ((applyStaged loadb o overviewKinds m).1.screens .providers).rows =
            (m.screens .providers).rows) := by
  rw [overviewKinds] at hfail ⊢
  cases hsnapshot : staged loadb o .snapshot with
  | error e =>
    rw [applyStaged_rejected hsnapshot]
    exact ⟨same_of_rejected hsnapshot _, .inl (same_of_rejected hsnapshot _)⟩
  | ok read =>
    rw [applyStaged_accepted hsnapshot] at hfail ⊢
    have hfirst : ∀ k : ListScreen, SameSelection (m.screens k)
        ((m.setFrame loadb (o.granted .snapshot) .snapshot
          ((o.reply .snapshot).into [])).1.screens k) :=
      fun k => same_of_other loadb _ _ m (.inr (by cases k <;> decide))
    generalize (m.setFrame loadb (o.granted .snapshot) .snapshot
      ((o.reply .snapshot).into [])).1 = m at hfirst hfail ⊢
    cases hproviders : staged loadb o .providers with
    | error e =>
      rw [applyStaged_rejected hproviders]
      exact ⟨(hfirst _).trans (same_of_rejected hproviders _),
        .inl ((hfirst _).trans (same_of_rejected hproviders _))⟩
    | ok list =>
      obtain ⟨root, result⟩ := list
      rw [applyStaged_accepted hproviders] at hfail ⊢
      obtain ⟨hid, hrows⟩ := setFrame_own (m := m) (k := .providers) (by decide) hproviders
      rw [ListScreen.kind] at hid hrows
      have hsecond := (hfirst .mcp).trans (same_of_other loadb (o.granted .providers)
        ((o.reply .providers).into []) m
        (.inr (by decide : Kind.providers ≠ ListScreen.mcp.kind)))
      generalize (m.setFrame loadb (o.granted .providers) .providers
        ((o.reply .providers).into [])).1 = m' at hid hrows hsecond hfail ⊢
      have hlast : SameSelection (m'.screens .providers)
          ((applyStaged loadb o [.routes, .mcp] m').1.screens .providers) :=
        applyStaged_same _ _ (.inr (by decide))
      refine ⟨hsecond.trans ?_, .inr ⟨read, root, result, rfl, rfl, ?_, ?_⟩⟩
      · cases hroutes : staged loadb o .routes with
        | error e =>
          rw [applyStaged_rejected hroutes]
          exact same_of_rejected hroutes _
        | ok routes =>
          rw [applyStaged_accepted hroutes] at hfail ⊢
          refine (same_of_other loadb (o.granted .routes) ((o.reply .routes).into []) m'
            (.inr (by decide : Kind.routes ≠ ListScreen.mcp.kind))).trans ?_
          cases hmcp : staged loadb o .mcp with
          | error e =>
            rw [applyStaged_rejected hmcp]
            exact same_of_rejected hmcp _
          | ok servers =>
            rw [applyStaged_accepted hmcp] at hfail
            exact absurd hfail (by decide : ¬ Status.ok < 0)
      · exact (hlast.1.trans hid).trans ((hfirst _).sync _)
      · exact (hlast.2.2.trans hrows).trans (hfirst _).2.2

end Staged

/-! ## Runs -/

section Runs

variable (loadb : Bytes → Option Mcp.Json)

/-- The frame that is kept for a document is the one the document came from. -/
def Backed (r : Runtime) (j : Kind) : Prop :=
  ∃ root result, Model.readFrame loadb true j (r.responses j) = .ok (root, result) ∧
    r.model.docs j = .valid root

/-- While connected, a rollback has the frames of the four documents. -/
def Coherent (r : Runtime) : Prop :=
  r.connection = .connected → ∀ j ∈ overviewKinds, Backed loadb r j

/-- The elements a screen is built from. -/
def held (r : Runtime) (k : ListScreen) : List Mcp.Json :=
  ((r.model.docs k.kind).elements).getD []

/-- The list that a refresh brings for a screen, where its frame is accepted. -/
def newList (o : Outcome) (k : ListScreen) : Option (List Mcp.Json) :=
  match staged loadb o k.kind with
  | .ok (root, _) => some (elementsOf root)
  | .error _ => none

/-- After the list `old` is applied again behind the list `new`, the selection is there or
is found again. -/
def Returns (s : Screen) (old : List Mcp.Json) : Option (List Mcp.Json) → Prop
  | none => True
  | some new =>
    (s.selectedId ≠ [] ∧ (ListedIn new s.selectedId ∨ Steppable s.rows s.selectedId)) ∨
      (s.selectedId = [] ∧ ∀ v ∈ old.take maxRows, stableId v = none)

instance (s : Screen) (old : List Mcp.Json) : ∀ new, Decidable (Returns s old new)
  | none => inferInstanceAs (Decidable True)
  | some _ => inferInstanceAs (Decidable (_ ∨ (_ ∧ ∀ v ∈ old.take maxRows, stableId v = none)))

/-- A refresh of the providers is rolled back: its list is not accepted, selects nothing,
or the detail of the selected provider does not come. -/
def DetailFails (o : Outcome) (s : Screen) : Option (List Mcp.Json) → Prop
  | none => True
  | some new => o.detail.status < 0 ∨ (s.sync new).selectedId = [] ∨
      ctlIdMax < (s.sync new).selectedId.length

/-- The condition on a refresh that is rolled back: there is memory to read the kept frames
again; the lists that are kept still have the selected IDs among the elements that are
shown; and the ID of the provider is in the new list too, or the rows of the last build
lead to it. -/
def Revertible (r : Runtime) : Event → Prop
  | .refresh o => r.connection = .connected →
    let providers := r.model.screens .providers
    match r.current with
    | .overview =>
      firstFault o overviewKinds = none → (∃ j ∈ overviewKinds, ∃ e, staged loadb o j = .error e) →
        (∀ j ∈ overviewKinds, o.again j = true) ∧ Stays (r.model.screens .mcp) (held r .mcp) ∧
        Stays providers (held r .providers) ∧
        ((∃ read, staged loadb o .snapshot = .ok read) →
          Returns providers (held r .providers) (newList loadb o .providers))
    | .providers =>
      (∃ bytes, o.reply .providers = .frame bytes) →
        DetailFails o providers (newList loadb o .providers) →
        o.again .providers = true ∧ Stays providers (held r .providers) ∧
        Returns providers (held r .providers) (newList loadb o .providers)
    | _ => True
  | _ => True

/-- The documents that a refresh of the screen is about. -/
def refreshedKinds : ScreenId → List Kind
  | .overview => overviewKinds
  | .providers => [.providers]
  | _ => []

/-- The four documents and every selection are the same. -/
def Unchanged (before after : Model) : Prop :=
  (∀ j ∈ overviewKinds, after.docs j = before.docs j) ∧
    ∀ k, (after.screens k).selectedId = (before.screens k).selectedId

/-- The documents come from the responses. -/
def Fresh (o : Outcome) (ks : List Kind) (m : Model) : Prop :=
  ∀ j ∈ ks, ∃ bytes root result, o.reply j = .frame bytes ∧
    Model.readFrame loadb (o.granted j) j bytes = .ok (root, result) ∧ m.docs j = .valid root

/-- A refresh that fails changes nothing, and one that succeeds brings its documents. -/
def Settles (o : Outcome) (ks : List Kind) (r : Runtime) (out : Runtime × Status) : Prop :=
  (out.2 < 0 → Unchanged r.model out.1.model) ∧ (¬ out.2 < 0 → Fresh loadb o ks out.1.model)

/-- What a refresh of the overview or of the providers does. -/
def AllOrNothing (r : Runtime) : Event → Prop
  | .refresh o => r.connection = .connected → r.current = .overview ∨ r.current = .providers →
    Settles loadb o (refreshedKinds r.current) r (refreshCurrent loadb o r)
  | _ => True

variable {loadb} {o : Outcome} {r : Runtime}

/-! ### The kept frames -/

theorem Backed.granted {j : Kind} {root : Mcp.Json} {result : Option Mcp.Json} {granted : Bool}
    {bytes : Bytes} (h : Model.readFrame loadb granted j bytes = .ok (root, result)) :
    Model.readFrame loadb true j bytes = .ok (root, result) := by
  rw [readFrame_granted h] at h
  exact h

theorem call_other {j k : Kind} (h : j ≠ k) (hj : Backed loadb r j) :
    Backed loadb (call loadb o r k).1 j := by
  obtain ⟨root, result, hread, hdoc⟩ := hj
  refine ⟨root, result, ?_, ?_⟩
  · rw [← hread]
    unfold call
    split_ifs <;> exact congrArg _ (Function.update_of_ne h _ _)
  · rw [← hdoc]
    unfold call
    split_ifs
    · rfl
    · exact setFrame_docs_other loadb _ _ r.model (Ne.symm h)

theorem call_backed {k : Kind} (h : ¬ (call loadb o r k).2 < 0) :
    Backed loadb (call loadb o r k).1 k := by
  unfold call at h ⊢
  split_ifs at h ⊢ with hfault
  · exact absurd hfault h
  dsimp only at h ⊢
  cases hread : Model.readFrame loadb (o.granted k) k
      (Function.update r.responses k ((o.reply k).into (r.responses k)) k) with
  | error e =>
    rw [setFrame_rejected hread] at h
    exact absurd (readFrame_neg hread) h
  | ok read =>
    obtain ⟨root, result⟩ := read
    exact ⟨root, result, Backed.granted hread, setFrame_docs_self hread⟩

theorem callAll_other {j : Kind} (ks : List Kind) (r : Runtime) (h : j ∉ ks)
    (hj : Backed loadb r j) : Backed loadb (callAll loadb o ks r).1 j := by
  induction ks generalizing r with
  | nil => exact hj
  | cons i ks ih =>
    rw [List.mem_cons, not_or] at h
    have hcall := call_other (o := o) h.1 hj
    rw [callAll]
    dsimp only
    split_ifs
    · exact hcall
    · exact ih _ h.2 hcall

/-- A bootstrap that succeeds keeps the frame of every document. -/
theorem callAll_backed (ks : List Kind) (r : Runtime) (hnodup : ks.Nodup)
    (hok : ¬ (callAll loadb o ks r).2 < 0) : ∀ j ∈ ks, Backed loadb (callAll loadb o ks r).1 j := by
  induction ks generalizing r with
  | nil => exact fun j hj => absurd hj List.not_mem_nil
  | cons i ks ih =>
    rw [List.nodup_cons] at hnodup
    rw [callAll] at hok ⊢
    dsimp only at hok ⊢
    by_cases hcall : (call loadb o r i).2 < 0
    · rw [if_pos hcall] at hok
      exact absurd hcall hok
    · rw [if_neg hcall] at hok ⊢
      rw [List.forall_mem_cons]
      exact ⟨callAll_other ks _ hnodup.1 (call_backed hcall), ih _ hnodup.2 hok⟩

theorem reconnect_coherent (o : Outcome) (r : Runtime) : Coherent loadb (reconnect loadb o r) := by
  intro hconnected
  unfold reconnect at hconnected ⊢
  split_ifs at hconnected ⊢
  dsimp only at hconnected ⊢
  split_ifs at hconnected with hfail
  have hall : ∀ j ∈ bootKinds, Backed loadb (bootstrap loadb o r).1 j := by
    unfold bootstrap at hfail ⊢
    dsimp only at hfail ⊢
    split_ifs at hfail ⊢ with hcall hversion
    · exact absurd hcall hfail
    · exact absurd hversion hfail
    · exact callAll_backed bootKinds _ (by decide) hfail
  have hsub : overviewKinds ⊆ bootKinds := by decide
  exact fun j hj => hall j (hsub hj)

theorem firstFault_neg {e : Status} (ks : List Kind) (h : firstFault o ks = some e) : e < 0 := by
  induction ks with
  | nil => cases h
  | cons i ks ih =>
    rw [firstFault] at h
    cases hreply : o.reply i with
    | fault e' neg left =>
      rw [hreply] at h
      exact Option.some.inj h ▸ neg
    | frame bytes =>
      rw [hreply] at h
      exact ih h

theorem firstFault_none {j : Kind} (ks : List Kind) (h : firstFault o ks = none) (hj : j ∈ ks) :
    ∃ bytes, o.reply j = .frame bytes := by
  induction ks with
  | nil => cases hj
  | cons i ks ih =>
    rw [firstFault] at h
    cases hreply : o.reply i with
    | fault e neg left =>
      rw [hreply] at h
      cases h
    | frame bytes =>
      rw [hreply] at h
      obtain rfl | hj := List.mem_cons.mp hj
      · exact ⟨bytes, hreply⟩
      · exact ih h hj

/-- Frames that are kept, applied again, bring the documents back. -/
theorem reapply_unchanged {ks : List Kind} {m : Model} {j : Kind} (hnodup : ks.Nodup)
    (hj : j ∈ ks) (hagain : o.again j = true) (h : Backed loadb r j) :
    (reapply loadb o r.responses ks m).docs j = r.model.docs j := by
  obtain ⟨root, result, hread, hdoc⟩ := h
  rw [← hagain] at hread
  rw [hdoc]
  exact reapply_docs ks m hnodup hj hread

/-- And synchronise a selection with the list that was held. -/
theorem reapply_held {ks : List Kind} {m : Model} {k : ListScreen} (hk : k ≠ .routes)
    (hnodup : ks.Nodup) (hmem : k.kind ∈ ks) (hagain : o.again k.kind = true)
    (h : Backed loadb r k.kind) :
    ((reapply loadb o r.responses ks m).screens k).selectedId =
        ((m.screens k).sync (held r k)).selectedId ∧
      ((reapply loadb o r.responses ks m).screens k).rows = (m.screens k).rows := by
  obtain ⟨root, result, hread, hdoc⟩ := h
  rw [← hagain] at hread
  rw [held, hdoc]
  exact reapply_own ks m hk hnodup hmem hread

/-- The selection of the providers behind a rollback: `after` is the screen behind the
staged frames, `back` the one behind the kept ones. -/
theorem restored {k : ListScreen} {s after back : Screen} {old : List Mcp.Json}
    (hstays : Stays s old) (hid : back.selectedId = (after.sync old).selectedId)
    (hrows : back.rows = after.rows)
    (hafter : SameSelection s after ∨ ∃ new, Returns s old (some new) ∧
      after.selectedId = (s.sync new).selectedId ∧ after.rows = s.rows) :
    (restoreSelection k s.selectedId back).selectedId = s.selectedId := by
  obtain hsame | ⟨new, hreturns, hnew, hkeep⟩ := hafter
  · have hback : back.selectedId = s.selectedId :=
      hid.trans ((hsame.sync old).trans hstays.sync)
    rw [restoreSelection_found hback]
    exact hback
  · obtain ⟨hne, hlisted | hsteps⟩ | ⟨hnil, hnone⟩ := hreturns
    · obtain ⟨v, hv, hvid⟩ := hlisted
      have hsel : after.selectedId = s.selectedId := hnew.trans (sync_contained hne hv hvid)
      obtain ⟨-, w, hw, hwid⟩ := hstays.resolve_right fun hand => hne hand.1
      have hback : back.selectedId = s.selectedId := by
        rw [hid, sync_contained (hsel ▸ hne) hw (hsel ▸ hwid), hsel]
      rw [restoreSelection_found hback]
      exact hback
    · refine restoreSelection_steppable ?_
      rw [hrows, hkeep]
      exact hsteps
    · have hback : back.selectedId = s.selectedId := by
        rw [hid, sync_none hnone, hnil]
      rw [restoreSelection_found hback]
      exact hback

theorem newList_some {k : ListScreen} {root : Mcp.Json} {result : Option Mcp.Json}
    (h : staged loadb o k.kind = .ok (root, result)) : newList loadb o k = some (elementsOf root) := by
  rw [newList, h]

theorem saveSelection_neg {s : Screen} {e : Status} (h : saveSelection s = .error e) : e < 0 := by
  unfold saveSelection at h
  split_ifs at h
  obtain rfl := Except.error.inj h
  decide

theorem settles_same {ks : List Kind} {e : Status} (h : e < 0) : Settles loadb o ks r (r, e) :=
  ⟨fun _ => ⟨fun _ _ => rfl, fun _ => rfl⟩, fun hok => absurd h hok⟩

/-- The rollback of the overview. -/
theorem overview_rollback (hcoherent : ∀ j ∈ overviewKinds, Backed loadb r j)
    (hfail : (applyStaged loadb o overviewKinds r.model).2 < 0)
    (hagain : ∀ j ∈ overviewKinds, o.again j = true)
    (hmcp : Stays (r.model.screens .mcp) (held r .mcp))
    (hproviders : Stays (r.model.screens .providers) (held r .providers))
    (hreturns : (∃ read, staged loadb o .snapshot = .ok read) →
      Returns (r.model.screens .providers) (held r .providers) (newList loadb o .providers)) :
    Unchanged r.model
      (((reapply loadb o r.responses overviewKinds
          (applyStaged loadb o overviewKinds r.model).1).onScreen .providers
            (restoreSelection .providers (r.model.screens .providers).selectedId)).onScreen .routes
              (restoreSelection .routes (r.model.screens .routes).selectedId)) := by
  obtain ⟨hservers, hlist⟩ := applyStaged_failed hfail
  have hroutes : SameSelection (r.model.screens .routes)
      ((applyStaged loadb o overviewKinds r.model).1.screens .routes) :=
    applyStaged_same _ _ (.inl rfl)
  generalize (applyStaged loadb o overviewKinds r.model).1 = m at hservers hlist hroutes
  refine ⟨fun j hj => ?_, fun k => ?_⟩
  · exact reapply_unchanged (by decide) hj (hagain j hj) (hcoherent j hj)
  · cases k with
    | providers =>
      obtain ⟨hid, hrows⟩ := reapply_held (m := m) (k := .providers) (by decide)
        (by decide : overviewKinds.Nodup) (by decide) (hagain _ (by decide))
        (hcoherent _ (by decide))
      refine restored hproviders hid hrows (hlist.imp_right ?_)
      rintro ⟨read, root, result, hsnapshot, hstaged, hsel, hkeep⟩
      exact ⟨elementsOf root, newList_some (k := .providers) hstaged ▸ hreturns ⟨read, hsnapshot⟩, hsel, hkeep⟩
    | routes =>
      have hsame := hroutes.trans
        (reapply_same loadb o r.responses overviewKinds m (k := .routes) (.inl rfl))
      exact (congrArg Screen.selectedId (restoreSelection_found hsame.1)).trans hsame.1
    | mcp =>
      obtain ⟨hid, -⟩ := reapply_held (m := m) (k := .mcp) (by decide)
        (by decide : overviewKinds.Nodup) (by decide) (hagain _ (by decide))
        (hcoherent _ (by decide))
      exact hid.trans ((hservers.sync _).trans hmcp.sync)

/-- A refresh of the overview. -/
theorem overviewRefresh_settles (hcoherent : ∀ j ∈ overviewKinds, Backed loadb r j)
    (hcare : firstFault o overviewKinds = none →
      (∃ j ∈ overviewKinds, ∃ e, staged loadb o j = .error e) →
      (∀ j ∈ overviewKinds, o.again j = true) ∧ Stays (r.model.screens .mcp) (held r .mcp) ∧
      Stays (r.model.screens .providers) (held r .providers) ∧
      ((∃ read, staged loadb o .snapshot = .ok read) →
        Returns (r.model.screens .providers) (held r .providers) (newList loadb o .providers))) :
    Settles loadb o overviewKinds r (overviewRefresh loadb o r) := by
  unfold overviewRefresh saveSelection
  by_cases hp : ctlIdMax < (r.model.screens .providers).selectedId.length
  · rw [if_pos hp]
    exact settles_same (by decide)
  · by_cases hr : ctlIdMax < (r.model.screens .routes).selectedId.length
    · rw [if_neg hp, if_pos hr]
      exact settles_same (by decide)
    · rw [if_neg hp, if_neg hr]
      dsimp only
      cases hfault : firstFault o overviewKinds with
      | some e => exact settles_same (firstFault_neg _ hfault)
      | none =>
        dsimp only
        by_cases hfail : (applyStaged loadb o overviewKinds r.model).2 < 0
        · rw [if_pos hfail]
          obtain ⟨hagain, hmcp, hproviders, hreturns⟩ :=
            hcare hfault (exists_rejected _ _ hfail)
          exact ⟨fun _ => overview_rollback hcoherent hfail hagain hmcp hproviders hreturns,
            fun hok => absurd hfail hok⟩
        · rw [if_neg hfail]
          refine ⟨fun hneg => absurd hneg (by decide : ¬ Status.ok < 0), fun _ j hj => ?_⟩
          obtain ⟨bytes, hreply⟩ := firstFault_none _ hfault hj
          obtain ⟨root, result, hread, hdoc⟩ := applyStaged_docs _ _ (by decide) hfail j hj
          rw [staged, hreply] at hread
          exact ⟨bytes, root, result, hreply, hread, hdoc⟩

/-- The rollback of the providers. -/
theorem providers_rollback {m : Model} (hcoherent : ∀ j ∈ overviewKinds, Backed loadb r j)
    (hagain : o.again .providers = true)
    (hstays : Stays (r.model.screens .providers) (held r .providers))
    (hdocs : ∀ j, j ≠ .providers → m.docs j = r.model.docs j)
    (hothers : ∀ k, k ≠ .providers → SameSelection (r.model.screens k) (m.screens k))
    (hafter : SameSelection (r.model.screens .providers) (m.screens .providers) ∨
      ∃ new, Returns (r.model.screens .providers) (held r .providers) (some new) ∧
        (m.screens .providers).selectedId = ((r.model.screens .providers).sync new).selectedId ∧
        (m.screens .providers).rows = (r.model.screens .providers).rows) :
    Unchanged r.model ((reapply loadb o r.responses [.providers] m).onScreen .providers
      (restoreSelection .providers (r.model.screens .providers).selectedId)) := by
  refine ⟨fun j hj => ?_, fun k => ?_⟩
  · by_cases hown : j = .providers
    · subst hown
      exact reapply_unchanged (by decide) List.mem_cons_self hagain (hcoherent _ hj)
    · have hmem : j ∉ [Kind.providers] := fun h => hown (List.mem_singleton.mp h)
      exact (reapply_docs_other _ m hmem).trans (hdocs j hown)
  · by_cases hown : k = .providers
    · subst hown
      obtain ⟨hid, hrows⟩ := reapply_held (m := m) (k := .providers) (by decide)
        (List.nodup_singleton Kind.providers) List.mem_cons_self hagain (hcoherent _ (by decide))
      exact restored hstays hid hrows hafter
    · have hmem : k.kind ∉ [Kind.providers] := by
        cases k with
        | providers => exact absurd rfl hown
        | routes => decide
        | mcp => decide
      rw [onScreen_other _ _ (Ne.symm hown)]
      exact ((hothers k hown).trans (reapply_same loadb o r.responses _ m (.inr hmem))).1

/-- A refresh of the providers. -/
theorem providerRefresh_settles (hconnected : r.connection = .connected)
    (hcoherent : ∀ j ∈ overviewKinds, Backed loadb r j)
    (hcare : (∃ bytes, o.reply .providers = .frame bytes) →
      DetailFails o (r.model.screens .providers) (newList loadb o .providers) →
      o.again .providers = true ∧ Stays (r.model.screens .providers) (held r .providers) ∧
      Returns (r.model.screens .providers) (held r .providers) (newList loadb o .providers)) :
    Settles loadb o [.providers] r (providerRefresh loadb o r) := by
  unfold providerRefresh saveSelection
  rw [if_neg (not_not.mpr hconnected)]
  by_cases hp : ctlIdMax < (r.model.screens .providers).selectedId.length
  · rw [if_pos hp]
    exact settles_same (by decide)
  · rw [if_neg hp]
    dsimp only
    cases hreply : o.reply .providers with
    | fault e neg left => exact settles_same neg
    | frame bytes =>
      dsimp only
      have hstaged : staged loadb o .providers =
          Model.readFrame loadb (o.granted .providers) .providers bytes := by
        rw [staged, hreply]
        rfl
      cases hread : Model.readFrame loadb (o.granted .providers) .providers bytes with
      | error e =>
        have hnew : newList loadb o .providers = none := by
          rw [newList, ListScreen.kind, hstaged, hread]
        rw [hnew] at hcare
        obtain ⟨hagain, hstays, -⟩ := hcare ⟨bytes, hreply⟩ trivial
        have hneg := readFrame_neg hread
        rw [setFrame_rejected hread, if_pos hneg]
        refine ⟨fun _ => ?_, fun hok => absurd hneg hok⟩
        exact providers_rollback hcoherent hagain hstays
          (fun j hj => Function.update_of_ne hj _ _) (fun k _ => ⟨rfl, rfl, rfl⟩)
          (.inl ⟨rfl, rfl, rfl⟩)
      | ok read =>
        obtain ⟨root, result⟩ := read
        have hnew : newList loadb o .providers = some (elementsOf root) := by
          rw [newList, ListScreen.kind, hstaged, hread]
        obtain ⟨hid, hrows⟩ := setFrame_own (m := r.model) (k := .providers) (by decide) hread
        rw [ListScreen.kind] at hid hrows
        rw [hnew] at hcare
        rw [setFrame_accepted hread, if_neg (by decide : ¬ Status.ok < 0)]
        rw [setFrame_accepted hread] at hid hrows
        by_cases hdetail : providerGet o r (r.model.commit .providers root result) < 0
        · rw [if_pos hdetail]
          have hfails : DetailFails o (r.model.screens .providers) (some (elementsOf root)) := by
            unfold providerGet at hdetail
            rw [if_neg (not_not.mpr hconnected), hid] at hdetail
            split_ifs at hdetail with hnil hlong
            · exact .inr (.inl hnil)
            · exact .inr (.inr hlong)
            · exact .inl hdetail
          obtain ⟨hagain, hstays, hreturns⟩ := hcare ⟨bytes, hreply⟩ hfails
          refine ⟨fun _ => ?_, fun hok => absurd hdetail hok⟩
          refine providers_rollback hcoherent hagain hstays (fun j hj => ?_) (fun k hk => ?_)
            (.inr ⟨elementsOf root, hreturns, hid, hrows⟩)
          · rw [commit_docs]
            exact Function.update_of_ne hj _ _
          · have hother : k = .routes ∨ Kind.providers ≠ k.kind := by
              cases k with
              | providers => exact absurd rfl hk
              | routes => exact .inl rfl
              | mcp => exact .inr (by decide)
            have hsame := same_of_other loadb (o.granted .providers) bytes r.model hother
            rw [setFrame_accepted hread] at hsame
            exact hsame
        · rw [if_neg hdetail]
          refine ⟨fun hneg => absurd hneg (by decide : ¬ Status.ok < 0), fun _ j hj => ?_⟩
          obtain rfl := List.mem_singleton.mp hj
          refine ⟨bytes, root, result, hreply, hread, ?_⟩
          rw [commit_docs]
          exact Function.update_self _ _ _

/-- A refresh that meets the condition settles. -/
theorem turn_allOrNothing {ev : Event} (h : Coherent loadb r) (hcare : Revertible loadb r ev) :
    AllOrNothing loadb r ev := by
  cases ev with
  | refresh o =>
    intro hconnected hcurrent
    replace hcare := hcare hconnected
    obtain hcurrent | hcurrent := hcurrent
    · rw [hcurrent] at hcare
      rw [refreshCurrent, hcurrent]
      exact overviewRefresh_settles (h hconnected) hcare
    · rw [hcurrent] at hcare
      rw [refreshCurrent, hcurrent]
      exact providerRefresh_settles hconnected (h hconnected) hcare
  | _ => trivial

/-! ### Every turn keeps the frames -/

theorem Backed.of_eq {r' : Runtime} {j : Kind} (h : Backed loadb r j)
    (hresponses : r'.responses j = r.responses j) (hdocs : r'.model.docs j = r.model.docs j) :
    Backed loadb r' j := by
  unfold Backed
  rw [hresponses, hdocs]
  exact h

theorem Coherent.of_eq {r' : Runtime} (h : Coherent loadb r)
    (hconnection : r'.connection = .connected → r.connection = .connected)
    (hresponses : r'.responses = r.responses) (hdocs : r'.model.docs = r.model.docs) :
    Coherent loadb r' := fun hconnected j hj =>
  (h (hconnection hconnected) j hj).of_eq (congrFun hresponses j) (congrFun hdocs j)

theorem overviewRefresh_ok (h : ¬ (overviewRefresh loadb o r).2 < 0) :
    ¬ (applyStaged loadb o overviewKinds r.model).2 < 0 ∧
      (overviewRefresh loadb o r).1 =
        { r with
          model := (applyStaged loadb o overviewKinds r.model).1
          responses := fun k =>
            if k ∈ overviewKinds then (o.reply k).into [] else r.responses k } := by
  unfold overviewRefresh at h ⊢
  split at h
  · next hsave => exact absurd (saveSelection_neg hsave) h
  · next hsave _ => exact absurd (saveSelection_neg hsave) h
  · split at h
    · next hfault => exact absurd (firstFault_neg _ hfault) h
    · dsimp only at h ⊢
      split_ifs at h ⊢ with hfail
      · exact absurd hfail h
      · exact ⟨hfail, rfl⟩

theorem providerRefresh_ok (h : ¬ (providerRefresh loadb o r).2 < 0) :
    ∃ bytes root result,
      Model.readFrame loadb (o.granted .providers) .providers bytes = .ok (root, result) ∧
      (providerRefresh loadb o r).1 =
        { r with
          model := r.model.commit .providers root result
          responses := Function.update r.responses .providers bytes } := by
  unfold providerRefresh at h ⊢
  split_ifs at h ⊢
  · exact absurd (by decide : Status.ctlState < 0) h
  · split at h
    · next hsave => exact absurd (saveSelection_neg hsave) h
    · split at h
      · next neg _ _ => exact absurd neg h
      · next bytes hreply =>
        dsimp only at h ⊢
        cases hread : Model.readFrame loadb (o.granted .providers) .providers bytes with
        | error e =>
          rw [setFrame_rejected hread, if_pos (readFrame_neg hread)] at h
          exact absurd (readFrame_neg hread) h
        | ok read =>
          obtain ⟨root, result⟩ := read
          rw [setFrame_accepted hread, if_neg (by decide : ¬ Status.ok < 0)] at h ⊢
          split_ifs at h ⊢ with hdetail
          · exact absurd hdetail h
          · exact ⟨bytes, root, result, hread, rfl⟩

/-- A refresh that succeeds keeps the frames of the documents it brings. -/
theorem refreshCurrent_backed (hcoherent : ∀ j ∈ overviewKinds, Backed loadb r j)
    (hok : ¬ (refreshCurrent loadb o r).2 < 0) :
    ∀ j ∈ overviewKinds, Backed loadb (refreshCurrent loadb o r).1 j := by
  intro j hj
  have hcall : ∀ k, ¬ (call loadb o r k).2 < 0 → Backed loadb (call loadb o r k).1 j := by
    intro k hk
    by_cases hjk : j = k
    · subst hjk
      exact call_backed hk
    · exact call_other hjk (hcoherent j hj)
  unfold refreshCurrent at hok ⊢
  cases hcurrent : r.current <;> rw [hcurrent] at hok
  case overview =>
    obtain ⟨hstaged, hout⟩ := overviewRefresh_ok hok
    obtain ⟨root, result, hread, hdoc⟩ := applyStaged_docs _ _ (by decide) hstaged j hj
    rw [hout]
    refine ⟨root, result, ?_, hdoc⟩
    dsimp only
    rw [if_pos hj]
    exact Backed.granted hread
  case providers =>
    obtain ⟨bytes, root, result, hread, hout⟩ := providerRefresh_ok hok
    rw [hout]
    by_cases hown : j = .providers
    · subst hown
      refine ⟨root, result, ?_, ?_⟩
      · dsimp only
        rw [Function.update_self]
        exact Backed.granted hread
      · rw [commit_docs]
        exact Function.update_self _ _ _
    · refine (hcoherent j hj).of_eq (Function.update_of_ne hown _ _) ?_
      rw [commit_docs]
      exact Function.update_of_ne hown _ _
  case routes => exact hcall .routes hok
  case requests => exact hcall .requests hok
  case mcp => exact hcall .mcp hok
  case logs => exact hcall .logs hok
  case settings => exact hcall .config hok

theorem afterMove_coherent {moved : Model × Status} (h : Coherent loadb r)
    (hdocs : moved.1.docs = r.model.docs) : Coherent loadb (afterMove o r moved) := by
  refine h.of_eq (fun hconnected => ?_) rfl hdocs
  unfold afterMove at hconnected
  dsimp only at hconnected
  split_ifs at hconnected
  exact hconnected

/-- Whatever happens, a connected console has the frames of its documents. -/
theorem turn_coherent (ev : Event) (h : Coherent loadb r) : Coherent loadb (turn loadb r ev) := by
  cases ev with
  | refresh o =>
    rw [turn]
    split_ifs with hconnected
    · dsimp only
      split_ifs with hfail
      · exact nofun
      · exact fun _ => refreshCurrent_backed (h hconnected) hfail
    · exact reconnect_coherent o r
  | rowNext o =>
    rw [turn]
    split
    · exact h
    · exact afterMove_coherent h rfl
  | rowPrev o =>
    rw [turn]
    split
    · exact h
    · exact afterMove_coherent h rfl
  | screen current => exact h.of_eq id rfl rfl
  | restart o =>
    refine h.of_eq (fun hconnected => ?_) rfl rfl
    unfold turn restart at hconnected
    dsimp only at hconnected
    split_ifs at hconnected
    exact hconnected
  | present =>
    rw [turn]
    split
    · exact h
    · exact h.of_eq id rfl rfl
  | poll lost =>
    rw [turn]
    split_ifs
    · exact nofun
    · exact h

/-- Over every run of a console that was connected, and of whose refreshes each meets the
condition, a refresh of the overview or the providers that fails changes no document and no
selection, and one that succeeds brings its documents. -/
theorem refresh_allOrNothing (loadb : Bytes → Option Mcp.Json) (o : Outcome) (r : Runtime)
    (evs : List Event) (h : Along (turn loadb) (Revertible loadb) (reconnect loadb o r) evs) :
    Along (turn loadb) (AllOrNothing loadb) (reconnect loadb o r) evs :=
  along_of_along (fun _ ev hc _ => turn_coherent ev hc)
    (fun _ _ hc hcare => turn_allOrNothing hc hcare) (reconnect_coherent o r) h

/-! ### Two refreshes that fail -/

def provider (id : String) : Mcp.Json := .object [("id", .string id)]

def listRoot (ids : List String) : Mcp.Json :=
  .object [("ok", .bool true), ("result", .array (ids.map provider))]

def objectRoot : Mcp.Json :=
  .object [("ok", .bool true), ("result", .object [("protocol_version", .integer 1)])]

def emptyFrame : Bytes := ascii "\x7b\"ok\":true,\"result\":[]\x7d"

def objectFrame : Bytes := ascii "\x7b\"ok\":true,\"result\":\x7b\"protocol_version\":1\x7d\x7d"

/-- The provider `b`. -/
def oneFrame : Bytes := ascii "\x7b\"ok\":true,\"result\":[\x7b\"id\":\"b\"\x7d]\x7d"

/-- The providers `a` and `b`. -/
def twoFrame : Bytes :=
  ascii "\x7b\"ok\":true,\"result\":[\x7b\"id\":\"a\"\x7d,\x7b\"id\":\"b\"\x7d]\x7d"

/-- The provider `c`. -/
def otherFrame : Bytes := ascii "\x7b\"ok\":true,\"result\":[\x7b\"id\":\"c\"\x7d]\x7d"

/-- What the frames are read as; anything else is no JSON. -/
def frameLoad (bytes : Bytes) : Option Mcp.Json :=
  if bytes = emptyFrame then some (listRoot [])
  else if bytes = objectFrame then some objectRoot
  else if bytes = oneFrame then some (listRoot ["b"])
  else if bytes = twoFrame then some (listRoot ["a", "b"])
  else if bytes = otherFrame then some (listRoot ["c"])
  else none

/-- Every call is answered, with these frames for the providers and the routes. -/
def answers (providers routes : Bytes) (detail : Reply) : Outcome where
  opened := Status.ok
  reply
    | .version | .snapshot | .config => .frame objectFrame
    | .providers => .frame providers
    | .routes => .frame routes
    | .requests | .mcp | .logs => .frame emptyFrame
  detail := detail
  versionGranted := true
  granted _ := true
  again _ := true

/-- A console on the overview, not connected yet. -/
def unconnected : Runtime := ⟨blank, fun _ => [], .disconnected, .overview⟩

/-- The providers are rendered; then their list changes, and the detail does not come. -/
def rendered : List Event :=
  [.screen .providers, .present,
    .refresh (answers otherFrame emptyFrame (.fault Status.timeout (by decide) none))]

theorem refresh_allOrNothing_rendered :
    Along (turn frameLoad) (Revertible frameLoad)
      (reconnect frameLoad (answers twoFrame emptyFrame (.frame objectFrame)) unconnected)
      rendered ∧
    Along (turn frameLoad) (AllOrNothing frameLoad)
      (reconnect frameLoad (answers twoFrame emptyFrame (.frame objectFrame)) unconnected)
      rendered := by
  have hcare : Along (turn frameLoad) (Revertible frameLoad)
      (reconnect frameLoad (answers twoFrame emptyFrame (.frame objectFrame)) unconnected)
      rendered := by
    refine ⟨trivial, trivial, fun _ _ _ => ?_, trivial⟩
    decide +kernel
  exact ⟨hcare, refresh_allOrNothing _ _ _ _ hcare⟩

/-- `a` joins `b`; then the list is `c` alone, and the routes are no list. -/
def unrendered : List Event :=
  [.refresh (answers twoFrame emptyFrame (.frame objectFrame)),
    .refresh (answers otherFrame objectFrame (.frame objectFrame))]

/-- `b` was selected before the refresh that fails, and `a` is behind it. -/
theorem refresh_moves_selection :
    let r := turn frameLoad
      (reconnect frameLoad (answers oneFrame emptyFrame (.frame objectFrame)) unconnected)
      (.refresh (answers twoFrame emptyFrame (.frame objectFrame)))
    let out := refreshCurrent frameLoad (answers otherFrame objectFrame (.frame objectFrame)) r
    out.2 < 0 ∧ (r.model.screens .providers).selectedId = ascii "b" ∧
      (out.1.model.screens .providers).selectedId = ascii "a" ∧
      ¬ Along (turn frameLoad) (AllOrNothing frameLoad)
        (reconnect frameLoad (answers oneFrame emptyFrame (.frame objectFrame)) unconnected)
        unrendered := by
  dsimp only
  generalize hr : turn frameLoad
    (reconnect frameLoad (answers oneFrame emptyFrame (.frame objectFrame)) unconnected)
    (.refresh (answers twoFrame emptyFrame (.frame objectFrame))) = r
  have hconnected : r.connection = .connected := by
    subst hr
    decide +kernel
  have hcurrent : r.current = .overview := by
    subst hr
    decide +kernel
  have hfail : (refreshCurrent frameLoad
      (answers otherFrame objectFrame (.frame objectFrame)) r).2 < 0 := by
    subst hr
    decide +kernel
  have hbefore : (r.model.screens .providers).selectedId = ascii "b" := by
    subst hr
    decide +kernel
  have hafter : ((refreshCurrent frameLoad (answers otherFrame objectFrame
      (.frame objectFrame)) r).1.model.screens .providers).selectedId = ascii "a" := by
    subst hr
    decide +kernel
  refine ⟨hfail, hbefore, hafter, fun hall => ?_⟩
  have hlast := hall.2.1
  rw [hr] at hlast
  have hsame := ((hlast hconnected (.inl hcurrent)).1 hfail).2 .providers
  rw [hafter, hbefore] at hsame
  exact absurd hsame (by decide)

end Runs
end AsmFlow.Console
