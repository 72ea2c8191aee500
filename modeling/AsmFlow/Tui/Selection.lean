import AsmFlow.Library.Runs
import AsmFlow.Tui.Rows

/-!
# Selection by identity

A screen keeps its selection by the ID of an element, over new lists, builds and moves.
The row it marks, the selected ID and the title of the inspector belong together after a
build and after a move, unless a move landed on a row without an ID: that drops the ID
and leaves the mark, and a build of a screen that is not dirty hands the mark out.
-/

namespace AsmFlow.Console

open Http Json Library Tui

/-! ## One screen -/

/-- The marked row, the selected ID and the title belong together, or there is neither a
mark nor a selection. -/
def Agrees (k : ListScreen) (s : Screen) : Prop :=
  (s.marked = none ∧ s.selectedId = []) ∨
    ∃ i r, s.marked = some i ∧ s.rows[i]? = some r ∧ r.id = s.selectedId ∧ s.selectedId ≠ [] ∧
      r.cells[k.titleCell]? = some s.title

/-- An element whose `id` member has these bytes. -/
def HasId (v : Mcp.Json) (id : Bytes) : Prop :=
  ∃ s, v.getString "id" = some s ∧ utf8Text s.toList = id

/-- What a new list does to the selection: the selected ID stays where it is in the list,
and otherwise the element at the old index, or the last one, has the selection. -/
def Kept (before after : Screen) (elements : List Mcp.Json) : Prop :=
  let shown := elements.take maxRows
  let contained := before.selectedId ≠ [] ∧ ∃ v ∈ shown, HasId v before.selectedId
  (contained → after.selectedId = before.selectedId) ∧
    (¬ contained → after.selectedId =
      ((shown[Screen.clamp before.selectedIndex shown.length]?).bind stableId).getD [])

/-- Every row is that of an element of the list. -/
def RowsOf (k : ListScreen) (elements : List Mcp.Json) (rows : List Row) : Prop :=
  ∀ r ∈ rows, ∃ v ∈ elements, RowOf k v r

/-- There is no selection, or it is the ID of an element of the list. -/
def Selects (elements : List Mcp.Json) (id : Bytes) : Prop :=
  id = [] ∨ ∃ v ∈ elements, stableId v = some id

section Screens

variable {k : ListScreen} {s : Screen} {elements : List Mcp.Json} {r : Row} {i : ℕ}

theorem stableId_hasId {v : Mcp.Json} {id : Bytes} (h : stableId v = some id) : HasId v id := by
  unfold stableId at h
  cases hid : v.getString "id" with
  | none =>
    rw [hid] at h
    cases h
  | some t =>
    rw [hid] at h
    dsimp only at h
    split_ifs at h
    exact ⟨t, hid, Option.some.inj h⟩

/-- Whether an ID is valid is a matter of its bytes. -/
theorem stableId_of_hasId {v w : Mcp.Json} {id : Bytes} (hv : stableId v = some id)
    (hw : HasId w id) : stableId w = some id := by
  obtain ⟨t, ht, rfl⟩ := hw
  have hvalid : idSpanValid (utf8Text t.toList) = true := by
    unfold stableId at hv
    cases hid : v.getString "id" with
    | none =>
      rw [hid] at hv
      cases hv
    | some u =>
      rw [hid] at hv
      dsimp only at hv
      split_ifs at hv with hu
      rw [Option.some.inj hv] at hu
      exact hu
  unfold stableId
  rw [ht]
  exact if_pos hvalid

theorem RowOf.id_length {v : Mcp.Json} (h : RowOf k v r) : r.id.length ≤ ctlIdMax := by
  rw [h.1]
  cases hid : stableId v with
  | none => exact Nat.zero_le _
  | some id => exact (stableId_some hid).2.1

theorem RowOf.selects {v : Mcp.Json} (h : RowOf k v r) (hv : v ∈ elements) :
    Selects elements r.id := by
  rw [h.1]
  cases hid : stableId v with
  | none => exact .inl rfl
  | some id => exact .inr ⟨v, hv, hid⟩

theorem Selects.mono {more : List Mcp.Json} {id : Bytes} (h : Selects elements id)
    (hsub : elements ⊆ more) : Selects more id :=
  h.imp_right fun ⟨v, hv, hid⟩ => ⟨v, hsub hv, hid⟩

theorem RowsOf.mono {more : List Mcp.Json} {rows : List Row} (h : RowsOf k elements rows)
    (hsub : elements ⊆ more) : RowsOf k more rows := fun r hr =>
  let ⟨v, hv, hrow⟩ := h r hr
  ⟨v, hsub hv, hrow⟩

/-! ### Storing and marking -/

theorem selectionStore_ok (hid : r.id ≠ []) (hlength : r.id.length ≤ ctlIdMax) :
    s.selectionStore i r = ({ s with selectedId := r.id, selectedIndex := i }, Status.ok) := by
  rw [Screen.selectionStore, if_neg hid, if_neg (Nat.not_lt.mpr hlength)]

theorem selectionStore_none (hid : r.id = []) :
    s.selectionStore i r = ({ s with selectedId := [] }, Status.notFound) := by
  rw [Screen.selectionStore, if_pos hid]

/-- Binding the title touches nothing else. -/
theorem rebindDetail_frame (k : ListScreen) (s : Screen) :
    (s.rebindDetail k).rows = s.rows ∧ (s.rebindDetail k).marked = s.marked ∧
      (s.rebindDetail k).selectedId = s.selectedId ∧ (s.rebindDetail k).dirty = s.dirty := by
  unfold Screen.rebindDetail
  split
  · exact ⟨rfl, rfl, rfl, rfl⟩
  · split <;> exact ⟨rfl, rfl, rfl, rfl⟩

/-- A mark on a row whose ID is the selection, with the title bound to it. -/
theorem agrees_rebindDetail (hmark : s.marked = some i) (hrow : s.rows[i]? = some r)
    (hid : r.id = s.selectedId) (hne : r.id ≠ []) (hcell : k.titleCell < r.cells.length) :
    Agrees k (s.rebindDetail k) := by
  have htitle : r.cells[k.titleCell]? = some r.cells[k.titleCell] :=
    List.getElem?_eq_getElem hcell
  have hbind : s.rebindDetail k = { s with title := r.cells[k.titleCell] } := by
    unfold Screen.rebindDetail
    rw [hmark, Option.bind_some, hrow]
    dsimp only
    rw [htitle]
  rw [hbind]
  exact .inr ⟨i, r, hmark, hrow, hid, hid ▸ hne, htitle⟩

/-- A move that lands on a row with an ID. -/
theorem agrees_moveTo (hrow : s.rows[i]? = some r) (hid : r.id ≠ [])
    (hlength : r.id.length ≤ ctlIdMax) (hcell : k.titleCell < r.cells.length) :
    Agrees k (s.moveTo k i).1 ∧ (s.moveTo k i).1.selectedId = r.id := by
  have hmove : s.moveTo k i = (Screen.rebindDetail k
      { s with selectedId := r.id, selectedIndex := i, marked := some i }, Status.ok) := by
    rw [Screen.moveTo, hrow]
    dsimp only
    rw [selectionStore_ok hid hlength]
    exact if_neg (by decide : ¬ Status.ok < 0)
  rw [hmove]
  refine ⟨agrees_rebindDetail rfl hrow rfl hid hcell, ?_⟩
  exact (rebindDetail_frame k _).2.2.1

/-- A move that lands on a row without an ID drops the selection. -/
theorem moveTo_none (hrow : s.rows[i]? = some r) (hid : r.id = []) :
    s.moveTo k i = ({ s with selectedId := [] }, Status.notFound) := by
  rw [Screen.moveTo, hrow]
  dsimp only
  rw [selectionStore_none hid]
  exact if_pos (by decide : Status.notFound < 0)

theorem moveTo_nil (hrow : s.rows[i]? = none) : s.moveTo k i = (s, Status.notFound) := by
  rw [Screen.moveTo, hrow]

theorem moveTo_frame (k : ListScreen) (s : Screen) (i : ℕ) :
    (s.moveTo k i).1.rows = s.rows ∧ (s.moveTo k i).1.dirty = s.dirty := by
  unfold Screen.moveTo Screen.selectionStore
  cases s.rows[i]? with
  | none => exact ⟨rfl, rfl⟩
  | some r =>
    dsimp only
    split_ifs <;> first
      | exact ⟨rfl, rfl⟩
      | exact ⟨(rebindDetail_frame k _).1, (rebindDetail_frame k _).2.2.2⟩

theorem clamp_lt {n : ℕ} (i : ℕ) (h : 0 < n) : Screen.clamp i n < n := by
  unfold Screen.clamp
  split_ifs <;> omega

/-- After the rows of a list were built, the selection is resolved among them. -/
theorem agrees_resolve (hrows : RowsOf k elements s.rows) :
    Agrees k (s.resolve k) ∧ Selects elements (s.resolve k).selectedId := by
  rw [Screen.resolve]
  by_cases hnil : s.rows = []
  · rw [if_pos hnil]
    exact ⟨.inl ⟨rfl, rfl⟩, .inl rfl⟩
  · rw [if_neg hnil]
    dsimp only
    split
    · next i hfound =>
      by_cases hsel : s.selectedId = []
      · rw [if_pos hsel] at hfound
        cases hfound
      · rw [if_neg hsel, List.findIdx?_eq_some_iff_getElem] at hfound
        obtain ⟨hlt, hid, -⟩ := hfound
        replace hid : s.rows[i].id = s.selectedId := of_decide_eq_true hid
        obtain ⟨v, hv, hrow⟩ := hrows _ (List.getElem_mem hlt)
        refine ⟨agrees_rebindDetail rfl (List.getElem?_eq_getElem hlt) hid (hid ▸ hsel) hrow.2, ?_⟩
        rw [(rebindDetail_frame k _).2.2.1]
        exact hid ▸ hrow.selects hv
    · have hlt : Screen.clamp s.selectedIndex s.rows.length < s.rows.length :=
        clamp_lt _ (List.length_pos_iff.mpr hnil)
      obtain ⟨v, hv, hrow⟩ := hrows _ (List.getElem_mem hlt)
      rw [List.getElem?_eq_getElem hlt]
      dsimp only
      by_cases hid : s.rows[Screen.clamp s.selectedIndex s.rows.length].id = []
      · rw [selectionStore_none hid]
        dsimp only
        rw [if_pos (by decide : Status.notFound < 0)]
        exact ⟨.inl ⟨rfl, rfl⟩, .inl rfl⟩
      · rw [selectionStore_ok hid hrow.id_length]
        dsimp only
        rw [if_neg (by decide : ¬ Status.ok < 0)]
        refine ⟨agrees_rebindDetail rfl (List.getElem?_eq_getElem hlt) rfl hid hrow.2, ?_⟩
        rw [(rebindDetail_frame k _).2.2.1]
        exact hrow.selects hv

theorem resolve_frame (k : ListScreen) (s : Screen) : (s.resolve k).rows = s.rows := by
  unfold Screen.resolve
  by_cases hnil : s.rows = []
  · rw [if_pos hnil]
  · rw [if_neg hnil]
    dsimp only
    split
    · exact (rebindDetail_frame k _).1
    · cases s.rows[Screen.clamp s.selectedIndex s.rows.length]? with
      | none => rfl
      | some r =>
        unfold Screen.selectionStore
        dsimp only
        split_ifs <;> first
          | rfl
          | exact (rebindDetail_frame k _).1

/-! ### A new list -/

theorem sync_rows (s : Screen) (elements : List Mcp.Json) : (s.sync elements).rows = s.rows := by
  unfold Screen.sync Screen.clearSelection
  dsimp only
  split_ifs
  · rfl
  · split
    · rfl
    · split <;> rfl
  · split
    · rfl
    · split <;> rfl

/-- Where the selected ID is not found, the element at the old index is selected. -/
theorem sync_fallback {shown : List Mcp.Json} (hshown : elements.take maxRows = shown)
    (hnone : s.selectedId = [] ∨ ∀ v ∈ shown, stableId v ≠ some s.selectedId) :
    (s.sync elements).selectedId =
      ((shown[Screen.clamp s.selectedIndex shown.length]?).bind stableId).getD [] := by
  have hfound : (if s.selectedId = [] then none
      else shown.findIdx? fun v => decide (stableId v = some s.selectedId)) = none := by
    by_cases hsel : s.selectedId = []
    · exact if_pos hsel
    · rw [if_neg hsel, List.findIdx?_eq_none_iff]
      intro v hv
      exact decide_eq_false (hnone.resolve_left hsel v hv)
  unfold Screen.sync
  rw [hshown]
  dsimp only
  by_cases hnil : shown = []
  · rw [if_pos hnil, hnil]
    rfl
  · rw [if_neg hnil, hfound]
    dsimp only
    cases (shown[Screen.clamp s.selectedIndex shown.length]?).bind stableId with
    | none => rfl
    | some id => rfl

/-- Where the selected ID is in the list, it stays. -/
theorem sync_contained {v : Mcp.Json} (hsel : s.selectedId ≠ []) (hv : v ∈ elements.take maxRows)
    (hid : stableId v = some s.selectedId) : (s.sync elements).selectedId = s.selectedId := by
  unfold Screen.sync
  dsimp only
  rw [if_neg (List.ne_nil_of_mem hv), if_neg hsel]
  cases hfound : (elements.take maxRows).findIdx?
      fun v => decide (stableId v = some s.selectedId) with
  | none =>
    rw [List.findIdx?_eq_none_iff] at hfound
    exact absurd hid (of_decide_eq_false (hfound v hv))
  | some i => rfl

theorem kept_sync {accepted : List Mcp.Json} (hsel : Selects accepted s.selectedId) :
    Kept s (s.sync elements) elements := by
  constructor
  · rintro ⟨hne, v, hv, hid⟩
    obtain ⟨w, -, hw⟩ := hsel.resolve_left hne
    exact sync_contained hne hv (stableId_of_hasId hw hid)
  · intro hcontained
    refine sync_fallback rfl ?_
    by_contra hnone
    rw [not_or] at hnone
    obtain ⟨hne, hmem⟩ := hnone
    push Not at hmem
    obtain ⟨v, hv, hid⟩ := hmem
    exact hcontained ⟨hne, v, hv, stableId_hasId hid⟩

theorem selects_of_kept {accepted : List Mcp.Json} {after : Screen}
    (hsel : Selects accepted s.selectedId) (h : Kept s after elements) (hsub : elements ⊆ accepted) :
    Selects accepted after.selectedId := by
  by_cases hcontained : s.selectedId ≠ [] ∧ ∃ v ∈ elements.take maxRows, HasId v s.selectedId
  · rw [h.1 hcontained]
    exact hsel
  · rw [h.2 hcontained]
    cases hat : (elements.take maxRows)[Screen.clamp s.selectedIndex
        (elements.take maxRows).length]? with
    | none => exact .inl rfl
    | some v =>
      rw [Option.bind_some]
      cases hid : stableId v with
      | none => exact .inl rfl
      | some id => exact .inr ⟨v, hsub (List.mem_of_mem_take (List.mem_of_getElem? hat)), hid⟩

end Screens

/-! ## The console -/

section Runs

variable (loadb : Bytes → Option Mcp.Json) (k : ListScreen)

/-- What the main loop asks of the model. -/
inductive Op
  | setFrame (kind : Kind) (granted : Bool) (bytes : Bytes)
  | build (screen : ListScreen)
  | selectNext (screen : ListScreen)
  | selectPrev (screen : ListScreen)
  deriving DecidableEq, Repr

/-- The model, and of one screen since the last reset: the elements of the lists that were
accepted, whether it was built, and whether a move has landed on a row without an ID and
left the mark of another row. -/
structure Session where
  model : Model
  accepted : List Mcp.Json
  rendered : Bool
  missed : Bool

/-- Any model, reset. -/
def start (m : Model) : Session := ⟨m.reset, [], false, false⟩

def Session.screen (c : Session) : Screen := c.model.screens k

/-- The elements of a frame that is accepted for the screen. -/
def listed (kind : Kind) (granted : Bool) (bytes : Bytes) : Option (List Mcp.Json) :=
  if kind = k.kind then
    match Model.readFrame loadb granted kind bytes with
    | .ok (_, some (.array elements)) => some elements
    | _ => none
  else none

/-- A move that lands on the row `i`. -/
def missedAt (c : Session) (i : ℕ) : Bool :=
  match (c.screen k).rows[i]? with
  | none => c.missed
  | some r => decide (r.id = []) && (c.screen k).marked.isSome

def step (c : Session) : Op → Session
  | .setFrame kind granted bytes =>
    { c with
      model := (c.model.setFrame loadb granted kind bytes).1
      accepted := c.accepted ++ (listed loadb k kind granted bytes).getD [] }
  | .build screen =>
    { c with
      model := c.model.build screen
      rendered := if screen = k then true else c.rendered
      missed := if screen = k ∧ (c.screen k).dirty = true then false else c.missed }
  | .selectNext screen =>
    { c with
      model := (c.model.selectNext screen).1
      missed := if screen = k then missedAt k c (c.screen k).nextIndex else c.missed }
  | .selectPrev screen =>
    { c with
      model := (c.model.selectPrev screen).1
      missed := if screen = k then missedAt k c (c.screen k).prevIndex else c.missed }

/-- The condition on a step: the IDs of a screen that is built find room in its pool; a
screen that is not dirty is not built again after a move that missed; and a move goes over
rows that were built since the reset. -/
def Careful (c : Session) : Op → Prop
  | .setFrame _ _ _ => True
  | .build screen => screen = k →
      if (c.screen k).dirty = true then
        IdsFit k 0 (((c.model.docs k.kind).elements.getD []).take maxRows)
      else c.missed = false
  | .selectNext screen | .selectPrev screen =>
    screen = k → c.rendered = true ∨ (c.screen k).rows = []

instance (c : Session) (op : Op) : Decidable (Careful k c op) := by
  cases op <;> unfold Careful <;> infer_instance

/-- A step does what selection by identity asks of it. -/
def Upholds (c : Session) (op : Op) : Prop :=
  let after := (step loadb k c op).screen k
  match op with
  | .setFrame kind granted bytes =>
    ∀ elements, listed loadb k kind granted bytes = some elements →
      Kept (c.screen k) after elements
  | .build screen => screen = k → Agrees k after
  | .selectNext screen => screen = k → (c.model.selectNext k).2 = Status.ok → Agrees k after
  | .selectPrev screen => screen = k → (c.model.selectPrev k).2 = Status.ok → Agrees k after

/-- The selected ID is the `id` of an element that was accepted. -/
def SelectedKnown (c : Session) : Prop :=
  ∀ id, c.model.selectedId k = some id → ∃ v ∈ c.accepted, HasId v id

/-- What holds of the screen between two steps. -/
structure Sound (c : Session) : Prop where
  selected : Selects c.accepted (c.screen k).selectedId
  rows : c.rendered = true → RowsOf k c.accepted (c.screen k).rows
  doc : ∀ elements, (c.model.docs k.kind).elements = some elements → elements ⊆ c.accepted
  built : (c.screen k).dirty = false → c.rendered = true ∧ (c.missed = false → Agrees k (c.screen k))

variable {loadb k}

/-! ### Frames -/

theorem commit_other (m : Model) {kind : Kind} (root : Mcp.Json) (result : Option Mcp.Json)
    (hk : k ≠ .routes) (h : kind ≠ k.kind) :
    (m.commit kind root result).screens k = { m.screens k with dirty := true } ∧
      (m.commit kind root result).docs k.kind = m.docs k.kind := by
  cases k <;> cases kind <;> first
    | exact absurd rfl h
    | exact absurd rfl hk
    | skip
  all_goals
    unfold Model.commit Model.syncSelection
    dsimp only
    try split
  all_goals simp [Model.markDirty, Model.setDoc, Model.onScreen, ListScreen.kind]

theorem commit_list (m : Model) (root : Mcp.Json) (elements : List Mcp.Json)
    (hk : k ≠ .routes) :
    (m.commit k.kind root (some (.array elements))).screens k =
        { (m.screens k).sync elements with dirty := true } ∧
      (m.commit k.kind root (some (.array elements))).docs k.kind = .valid root := by
  cases k
  · simp [Model.commit, Model.markDirty, Model.setDoc, Model.syncSelection, Model.onScreen,
      ListScreen.kind]
  · exact absurd rfl hk
  · simp [Model.commit, Model.markDirty, Model.setDoc, Model.syncSelection, Model.onScreen,
      ListScreen.kind]

theorem commit_error (m : Model) (root : Mcp.Json) (hk : k ≠ .routes) :
    (m.commit k.kind root none).screens k = { m.screens k with selectedId := [], dirty := true } ∧
      (m.commit k.kind root none).docs k.kind = .valid root := by
  cases k
  · simp [Model.commit, Model.markDirty, Model.setDoc, Model.syncSelection, Model.onScreen,
      ListScreen.kind]
  · exact absurd rfl hk
  · simp [Model.commit, Model.markDirty, Model.setDoc, Model.syncSelection, Model.onScreen,
      ListScreen.kind]

theorem array_of_kindTypeOk {v : Mcp.Json} (h : kindTypeOk k.kind v = true) :
    ∃ elements, v = .array elements := by
  cases v with
  | array elements => exact ⟨elements, rfl⟩
  | null | bool | integer | real | string | object =>
    cases k <;> cases h

/-- A frame of a list kind that is read has a list, or is an error envelope. -/
theorem frameResult_cases {root : Mcp.Json} {result : Option Mcp.Json}
    (h : frameResult k.kind root = .ok result) :
    (result = none ∧ (Slot.valid root).elements = none) ∨
      ∃ elements, result = some (.array elements) ∧ (Slot.valid root).elements = some elements := by
  unfold frameResult at h
  unfold Slot.elements Slot.result
  dsimp only
  cases hok : root.getBool "ok" with
  | none =>
    rw [hok] at h
    cases h
  | some b =>
    rw [hok] at h
    cases b with
    | false =>
      dsimp only at h
      rw [if_neg (by decide)]
      split at h
      · cases h
      · exact .inl ⟨(Except.ok.inj h).symm, rfl⟩
    | true =>
      dsimp only at h
      rw [if_pos rfl]
      cases hresult : root.member "result" with
      | none =>
        rw [hresult] at h
        cases h
      | some v =>
        rw [hresult] at h
        dsimp only at h
        split_ifs at h with htype
        obtain ⟨elements, rfl⟩ := array_of_kindTypeOk htype
        exact .inr ⟨elements, (Except.ok.inj h).symm, rfl⟩

theorem readFrame_result {granted : Bool} {kind : Kind} {bytes : Bytes} {root : Mcp.Json}
    {result : Option Mcp.Json}
    (h : Model.readFrame loadb granted kind bytes = .ok (root, result)) :
    frameResult kind root = .ok result := by
  unfold Model.readFrame at h
  split_ifs at h
  split at h
  · cases h
  · split at h
    · cases h
    · next hresult =>
      obtain ⟨rfl, rfl⟩ := Prod.mk.inj (Except.ok.inj h)
      exact hresult

/-- A step that leaves rows and ID of the screen as they are, and wants a new build. -/
theorem Sound.of_dirty {c c' : Session} (h : Sound k c)
    (hscreen : c'.screen k = { c.screen k with dirty := true }) (hacc : c.accepted ⊆ c'.accepted)
    (hrendered : c'.rendered = c.rendered)
    (hdoc : ∀ es, (c'.model.docs k.kind).elements = some es → es ⊆ c'.accepted) : Sound k c' where
  selected := by
    rw [hscreen]
    exact h.selected.mono hacc
  rows hr := by
    rw [hscreen]
    exact (h.rows (hrendered ▸ hr)).mono hacc
  doc := hdoc
  built hd := by
    rw [hscreen] at hd
    cases hd

theorem listed_own (granted : Bool) (bytes : Bytes) :
    listed loadb k k.kind granted bytes =
      match Model.readFrame loadb granted k.kind bytes with
      | .ok (_, some (.array elements)) => some elements
      | _ => none := if_pos rfl

section Frame

variable {c : Session} {kind : Kind} {granted : Bool} {bytes : Bytes}

theorem upholds_of_not_listed (h : listed loadb k kind granted bytes = none) :
    Upholds loadb k c (.setFrame kind granted bytes) := by
  intro es hes
  rw [h] at hes
  cases hes

/-- A frame of another kind. -/
theorem sound_other (hk : k ≠ .routes) (h : Sound k c) (hkind : kind ≠ k.kind) :
    Sound k (step loadb k c (.setFrame kind granted bytes)) := by
  have hstep : (step loadb k c (.setFrame kind granted bytes)).screen k =
        { c.screen k with dirty := true } ∧
      (step loadb k c (.setFrame kind granted bytes)).model.docs k.kind =
        c.model.docs k.kind := by
    simp only [step, Session.screen, Model.setFrame]
    split
    · exact ⟨rfl, Function.update_of_ne (Ne.symm hkind) _ _⟩
    · exact commit_other c.model _ _ hk hkind
  refine h.of_dirty hstep.1 (List.subset_append_left _ _) rfl ?_
  intro es hes
  rw [hstep.2] at hes
  exact List.Subset.trans (h.doc es hes) (List.subset_append_left _ _)

/-- A frame that is not read. -/
theorem sound_invalid {e : Status} (h : Sound k c)
    (hread : Model.readFrame loadb granted k.kind bytes = .error e) :
    Sound k (step loadb k c (.setFrame k.kind granted bytes)) := by
  have hmodel : (step loadb k c (.setFrame k.kind granted bytes)).model =
      c.model.invalidate k.kind := by
    simp only [step, Model.setFrame, hread]
  have hdoc : (c.model.invalidate k.kind).docs k.kind = .invalid := Function.update_self _ _ _
  refine h.of_dirty ?_ (List.subset_append_left _ _) rfl ?_
  · rw [Session.screen, hmodel]
    rfl
  · intro es hes
    rw [hmodel, hdoc] at hes
    cases hes

/-- An error envelope. -/
theorem sound_errorFrame {root : Mcp.Json} (hk : k ≠ .routes) (h : Sound k c)
    (hread : Model.readFrame loadb granted k.kind bytes = .ok (root, none))
    (hroot : (Slot.valid root).elements = none) :
    Sound k (step loadb k c (.setFrame k.kind granted bytes)) := by
  obtain ⟨hscreen, hdoc⟩ := commit_error c.model root hk
  have hmodel : (step loadb k c (.setFrame k.kind granted bytes)).model =
      c.model.commit k.kind root none := by
    simp only [step, Model.setFrame, hread]
  rw [← hmodel] at hscreen hdoc
  refine ⟨?_, fun hr => ?_, fun es hes => ?_, fun hd => ?_⟩
  · rw [Session.screen, hscreen]
    exact .inl rfl
  · rw [Session.screen, hscreen]
    exact (h.rows hr).mono (List.subset_append_left _ _)
  · rw [hdoc, hroot] at hes
    cases hes
  · rw [Session.screen, hscreen] at hd
    cases hd

/-- A list. -/
theorem sound_list {root : Mcp.Json} {elements : List Mcp.Json} (hk : k ≠ .routes)
    (h : Sound k c)
    (hread : Model.readFrame loadb granted k.kind bytes = .ok (root, some (.array elements)))
    (hroot : (Slot.valid root).elements = some elements) :
    Sound k (step loadb k c (.setFrame k.kind granted bytes)) ∧
      Upholds loadb k c (.setFrame k.kind granted bytes) := by
  obtain ⟨hscreen, hdoc⟩ := commit_list c.model root elements hk
  have hmodel : (step loadb k c (.setFrame k.kind granted bytes)).model =
      c.model.commit k.kind root (some (.array elements)) := by
    simp only [step, Model.setFrame, hread]
  rw [← hmodel] at hscreen hdoc
  have hlisted : listed loadb k k.kind granted bytes = some elements := by
    rw [listed_own, hread]
  have hacc : (step loadb k c (.setFrame k.kind granted bytes)).accepted =
      c.accepted ++ elements := by
    simp only [step, hlisted, Option.getD_some]
  have hkept : Kept (c.screen k) ((c.screen k).sync elements) elements := kept_sync h.selected
  refine ⟨⟨?_, fun hr => ?_, fun es hes => ?_, fun hd => ?_⟩, fun es hes => ?_⟩
  · rw [Session.screen, hscreen, hacc]
    exact selects_of_kept (h.selected.mono (List.subset_append_left _ _)) hkept
      (List.subset_append_right _ _)
  · rw [Session.screen, hscreen, hacc]
    dsimp only
    rw [sync_rows]
    exact (h.rows hr).mono (List.subset_append_left _ _)
  · rw [hdoc, hroot] at hes
    rw [hacc, ← Option.some.inj hes]
    exact List.subset_append_right _ _
  · rw [Session.screen, hscreen] at hd
    cases hd
  · rw [hlisted] at hes
    obtain rfl := Option.some.inj hes
    replace hscreen : (step loadb k c (.setFrame k.kind granted bytes)).screen k =
      { (c.screen k).sync elements with dirty := true } := hscreen
    rw [hscreen]
    exact hkept

/-- A frame keeps the screen sound, and moves the selection as it should. -/
theorem setFrame_sound (hk : k ≠ .routes) (h : Sound k c) (kind : Kind) (granted : Bool)
    (bytes : Bytes) :
    Sound k (step loadb k c (.setFrame kind granted bytes)) ∧
      Upholds loadb k c (.setFrame kind granted bytes) := by
  by_cases hkind : kind = k.kind
  · subst hkind
    cases hread : Model.readFrame loadb granted k.kind bytes with
    | error e =>
      refine ⟨sound_invalid h hread, upholds_of_not_listed ?_⟩
      rw [listed_own, hread]
    | ok read =>
      obtain ⟨root, result⟩ := read
      obtain ⟨rfl, hroot⟩ | ⟨elements, rfl, hroot⟩ := frameResult_cases (readFrame_result hread)
      · refine ⟨sound_errorFrame hk h hread hroot, upholds_of_not_listed ?_⟩
        rw [listed_own, hread]
      · exact sound_list hk h hread hroot
  · exact ⟨sound_other hk h hkind, upholds_of_not_listed (if_neg hkind)⟩

end Frame

/-! ### Builds and moves -/

theorem onScreen_self (m : Model) (k : ListScreen) (f : Screen → Screen) :
    (m.onScreen k f).screens k = f (m.screens k) := Function.update_self _ _ _

theorem onScreen_other (m : Model) {j : ListScreen} (f : Screen → Screen) (h : j ≠ k) :
    (m.onScreen j f).screens k = m.screens k := Function.update_of_ne (Ne.symm h) _ _

theorem build_screen (m : Model) (k : ListScreen) :
    (m.build k).screens k =
      if (m.screens k).dirty = false then m.screens k
      else
        { Screen.resolve k (match (m.docs k.kind).elements with
            | none => (m.screens k).buildInvalid
            | some elements => (m.screens k).buildList k elements) with dirty := false } := by
  rw [Model.build]
  exact onScreen_self _ _ _

theorem build_other (m : Model) {j : ListScreen} (h : j ≠ k) :
    (m.build j).screens k = m.screens k := by
  rw [Model.build]
  exact onScreen_other m _ h

theorem buildList_rows (k : ListScreen) (s : Screen) (elements : List Mcp.Json) :
    (s.buildList k elements).rows = (buildRows k 0 (elements.take maxRows)).1 := by
  unfold Screen.buildList
  dsimp only
  split
  · next hrows => exact hrows.symm
  · next hrows => exact hrows.symm

theorem exists_of_forall₂ {α β : Type} {R : α → β → Prop} {as : List α} {bs : List β}
    (h : List.Forall₂ R as bs) {b : β} (hb : b ∈ bs) : ∃ a ∈ as, R a b := by
  induction h with
  | nil => cases hb
  | @cons a b' as bs hab hrest ih =>
    obtain rfl | hb := List.mem_cons.mp hb
    · exact ⟨a, List.mem_cons_self, hab⟩
    · obtain ⟨x, hx, hR⟩ := ih hb
      exact ⟨x, List.mem_cons_of_mem _ hx, hR⟩

theorem rowsOf_buildList {elements : List Mcp.Json} {s : Screen}
    (h : IdsFit k 0 (elements.take maxRows)) : RowsOf k elements (s.buildList k elements).rows := by
  intro r hr
  rw [buildList_rows] at hr
  obtain ⟨v, hv, hrow⟩ := exists_of_forall₂ (buildRows_of_fit h) hr
  exact ⟨v, List.mem_of_mem_take hv, hrow⟩

section Step

variable {c : Session}

/-- A step that leaves the screen alone. -/
theorem Sound.of_same {c' : Session} (h : Sound k c) (hscreen : c'.screen k = c.screen k)
    (hdocs : c'.model.docs = c.model.docs) (hacc : c'.accepted = c.accepted)
    (hrendered : c'.rendered = c.rendered) (hmissed : c'.missed = c.missed) : Sound k c' := by
  refine ⟨?_, ?_, ?_, ?_⟩
  · rw [hscreen, hacc]
    exact h.selected
  · rw [hscreen, hacc, hrendered]
    exact h.rows
  · rw [hdocs, hacc]
    exact h.doc
  · rw [hscreen, hrendered, hmissed]
    exact h.built

/-- A rebuild resolves the selection among the rows of the document. -/
theorem build_dirty (loadb : Bytes → Option Mcp.Json) (h : Sound k c) (hdirty : (c.screen k).dirty = true)
    (hcare : IdsFit k 0 (((c.model.docs k.kind).elements.getD []).take maxRows)) :
    Sound k (step loadb k c (.build k)) ∧ Agrees k ((step loadb k c (.build k)).screen k) := by
  -- the screen before its selection is resolved
  obtain ⟨s, hrows, hscreen⟩ : ∃ s : Screen, RowsOf k c.accepted s.rows ∧
      (step loadb k c (.build k)).screen k = { s.resolve k with dirty := false } := by
    replace hdirty : ¬ (c.model.screens k).dirty = false := by
      rw [Bool.not_eq_false]
      exact hdirty
    have hbuild : (step loadb k c (.build k)).screen k =
        { Screen.resolve k (match (c.model.docs k.kind).elements with
            | none => (c.screen k).buildInvalid
            | some elements => (c.screen k).buildList k elements) with dirty := false } :=
      (build_screen c.model k).trans (if_neg hdirty)
    cases hes : (c.model.docs k.kind).elements with
    | none =>
      rw [hes] at hbuild
      exact ⟨(c.screen k).buildInvalid, fun r hr => absurd hr List.not_mem_nil, hbuild⟩
    | some elements =>
      rw [hes] at hbuild hcare
      exact ⟨(c.screen k).buildList k elements, (rowsOf_buildList hcare).mono (h.doc _ hes), hbuild⟩
  obtain ⟨hagrees, hselects⟩ := agrees_resolve hrows
  have hafter : Agrees k ((step loadb k c (.build k)).screen k) := by
    rw [hscreen]
    exact hagrees
  refine ⟨⟨?_, fun _ => ?_, h.doc, fun _ => ⟨if_pos rfl, fun _ => hafter⟩⟩, hafter⟩
  · rw [hscreen]
    exact hselects
  · rw [hscreen]
    dsimp only
    rw [resolve_frame]
    exact hrows

/-- A build of a screen that is not dirty hands out what is there. -/
theorem build_clean (loadb : Bytes → Option Mcp.Json) (h : Sound k c) (hdirty : (c.screen k).dirty = false)
    (hcare : c.missed = false) :
    Sound k (step loadb k c (.build k)) ∧ Agrees k ((step loadb k c (.build k)).screen k) := by
  have hscreen : (step loadb k c (.build k)).screen k = c.screen k :=
    (build_screen c.model k).trans (if_pos hdirty)
  obtain ⟨hrendered, hagrees⟩ := h.built hdirty
  refine ⟨h.of_same hscreen rfl rfl ?_ ?_, ?_⟩
  · simp only [step, if_true, hrendered]
  · simp only [step, hdirty, Bool.false_eq_true, and_false, if_false]
  · rw [hscreen]
    exact hagrees hcare

/-- The session after a move to the row `i`. -/
def moved (k : ListScreen) (c : Session) (i : ℕ) : Session :=
  { c with
    model := c.model.onScreen k fun s => (s.moveTo k i).1
    missed := missedAt k c i }

theorem moved_screen (c : Session) (i : ℕ) :
    (moved k c i).screen k = ((c.screen k).moveTo k i).1 :=
  onScreen_self c.model k fun s => (s.moveTo k i).1

theorem sound_moved (h : Sound k c) (i : ℕ) (hcare : c.rendered = true ∨ (c.screen k).rows = []) :
    Sound k (moved k c i) ∧
      (((c.screen k).moveTo k i).2 = Status.ok → Agrees k ((moved k c i).screen k)) := by
  cases hrow : (c.screen k).rows[i]? with
  | none =>
    have hmove := moveTo_nil (k := k) hrow
    refine ⟨h.of_same ?_ rfl rfl rfl ?_, fun hst => ?_⟩
    · rw [moved_screen, hmove]
    · simp only [moved, missedAt, hrow]
    · rw [hmove] at hst
      exact absurd hst (by decide : Status.notFound ≠ Status.ok)
  | some r =>
    have hmem : r ∈ (c.screen k).rows := List.mem_of_getElem? hrow
    have hrendered : c.rendered = true := hcare.resolve_right (List.ne_nil_of_mem hmem)
    obtain ⟨v, hv, hrowOf⟩ := h.rows hrendered r hmem
    obtain ⟨hrows, hdirty⟩ := moveTo_frame k (c.screen k) i
    have hkeep : RowsOf k c.accepted ((moved k c i).screen k).rows := by
      rw [moved_screen, hrows]
      exact h.rows hrendered
    by_cases hid : r.id = []
    · have hmove := moveTo_none (k := k) hrow hid
      refine ⟨⟨?_, fun _ => hkeep, h.doc, fun _ => ⟨hrendered, fun hmissed => ?_⟩⟩, fun hst => ?_⟩
      · rw [moved_screen, hmove]
        exact .inl rfl
      · -- no row was marked, so no mark is left
        simp only [moved, missedAt, hrow, hid, decide_true, Bool.true_and,
          Option.isSome_eq_false_iff, Option.isNone_iff_eq_none] at hmissed
        rw [moved_screen, hmove]
        exact .inl ⟨hmissed, rfl⟩
      · rw [hmove] at hst
        exact absurd hst (by decide : Status.notFound ≠ Status.ok)
    · obtain ⟨hagrees, hselected⟩ := agrees_moveTo (s := c.screen k) hrow hid hrowOf.id_length hrowOf.2
      rw [← moved_screen] at hagrees hselected
      refine ⟨⟨?_, fun _ => hkeep, h.doc, fun _ => ⟨hrendered, fun _ => hagrees⟩⟩, fun _ => hagrees⟩
      rw [hselected]
      exact hrowOf.selects hv

theorem step_selectNext (loadb : Bytes → Option Mcp.Json) (c : Session) :
    step loadb k c (.selectNext k) = moved k c (c.screen k).nextIndex := by
  simp [step, moved, Model.selectNext, Model.onScreen, Screen.selectNext, Session.screen]

theorem step_selectPrev (loadb : Bytes → Option Mcp.Json) (c : Session) :
    step loadb k c (.selectPrev k) = moved k c (c.screen k).prevIndex := by
  simp [step, moved, Model.selectPrev, Model.onScreen, Screen.selectPrev, Session.screen]

/-- A careful step keeps the screen sound, and does what it should. -/
theorem step_sound (hk : k ≠ .routes) (h : Sound k c) {op : Op} (hcare : Careful k c op) :
    Sound k (step loadb k c op) ∧ Upholds loadb k c op := by
  cases op with
  | setFrame kind granted bytes => exact setFrame_sound hk h kind granted bytes
  | build screen =>
    by_cases hscreen : screen = k
    · subst hscreen
      replace hcare := hcare rfl
      by_cases hdirty : (c.screen screen).dirty = true
      · rw [if_pos hdirty] at hcare
        obtain ⟨hsound, hagrees⟩ := build_dirty loadb h hdirty hcare
        exact ⟨hsound, fun _ => hagrees⟩
      · rw [if_neg hdirty] at hcare
        rw [Bool.not_eq_true] at hdirty
        obtain ⟨hsound, hagrees⟩ := build_clean loadb h hdirty hcare
        exact ⟨hsound, fun _ => hagrees⟩
    · refine ⟨h.of_same (build_other c.model hscreen) rfl rfl (if_neg hscreen) ?_,
        fun heq => absurd heq hscreen⟩
      exact if_neg fun hand => hscreen hand.1
  | selectNext screen =>
    by_cases hscreen : screen = k
    · subst hscreen
      obtain ⟨hsound, hagrees⟩ := sound_moved h (c.screen screen).nextIndex (hcare rfl)
      rw [← step_selectNext loadb] at hsound hagrees
      exact ⟨hsound, fun _ => hagrees⟩
    · exact ⟨h.of_same (onScreen_other c.model (fun s => (s.selectNext screen).1) hscreen) rfl rfl rfl
        (if_neg hscreen), fun heq => absurd heq hscreen⟩
  | selectPrev screen =>
    by_cases hscreen : screen = k
    · subst hscreen
      obtain ⟨hsound, hagrees⟩ := sound_moved h (c.screen screen).prevIndex (hcare rfl)
      rw [← step_selectPrev loadb] at hsound hagrees
      exact ⟨hsound, fun _ => hagrees⟩
    · exact ⟨h.of_same (onScreen_other c.model (fun s => (s.selectPrev screen).1) hscreen) rfl rfl rfl
        (if_neg hscreen), fun heq => absurd heq hscreen⟩

theorem sound_start (m : Model) : Sound k (start m) where
  selected := .inl rfl
  rows hr := by cases hr
  doc _ hes := by cases hes
  built hd := by cases hd

theorem Sound.selectedKnown (h : Sound k c) : SelectedKnown k c := by
  intro id hid
  unfold Model.selectedId at hid
  split_ifs at hid with hnone
  obtain ⟨v, hv, hstable⟩ := h.selected.resolve_left hnone
  obtain rfl := Option.some.inj hid
  exact ⟨v, hv, stableId_hasId hstable⟩

end Step

/-- Over every run from a reset whose steps are careful, the selected ID is that of an
accepted element, a new list keeps the selection or hands it to the element at the old
index, and mark, selection and title agree after every build and every move. -/
theorem selection_by_identity (loadb : Bytes → Option Mcp.Json) (hk : k ≠ .routes) (m : Model)
    (ops : List Op) (h : Along (step loadb k) (Careful k) (start m) ops) :
    Throughout (step loadb k) (SelectedKnown k) (start m) ops ∧
      Along (step loadb k) (Upholds loadb k) (start m) ops := by
  have hkeep : ∀ c op, Sound k c → Careful k c op → Sound k (step loadb k c op) :=
    fun c op hc hcare => (step_sound hk hc hcare).1
  constructor
  · exact (throughout_of_along hkeep (sound_start m) h).mono fun c hc => hc.selectedKnown
  · refine along_of_along hkeep (fun c op hc hcare => ?_) (sound_start m) h
    exact (step_sound hk hc hcare).2

/-! ### A mark without a selection -/

/-- Two providers; the ID of the second is not valid. -/
def lostRoot : Mcp.Json :=
  .object [("ok", .bool true),
    ("result", .array [.object [("id", .string "a")], .object [("id", .string "!")]])]

def lostFrame : Bytes :=
  ascii "\x7b\"ok\":true,\"result\":[\x7b\"id\":\"a\"\x7d,\x7b\"id\":\"!\"\x7d]\x7d"

/-- A console with nothing in it. -/
def blank : Model := ⟨fun _ => .empty, fun _ => ⟨[], none, [], [], 0, true⟩⟩

/-- The list, a build, and the move that wraps around to the first row. -/
def keptOps : List Op :=
  [.setFrame .providers true lostFrame, .build .providers, .selectNext .providers,
    .selectNext .providers, .build .routes]

/-- The list, a build, a move onto the row without an ID, and a build of what is there. -/
def lostOps : List Op :=
  [.setFrame .providers true lostFrame, .build .providers, .selectNext .providers,
    .build .providers]

theorem selection_by_identity_kept :
    Along (step (fun _ => some lostRoot) .providers) (Careful .providers) (start blank) keptOps ∧
    Throughout (step (fun _ => some lostRoot) .providers) (SelectedKnown .providers) (start blank)
      keptOps ∧
    Along (step (fun _ => some lostRoot) .providers) (Upholds (fun _ => some lostRoot) .providers)
      (start blank) keptOps := by
  have hcare : Along (step (fun _ => some lostRoot) .providers) (Careful .providers) (start blank)
      keptOps := by
    decide
  exact ⟨hcare, selection_by_identity _ (by decide) blank keptOps hcare⟩

/-- The first row is marked, and no ID is selected. -/
theorem selection_lost :
    let c := run (step (fun _ => some lostRoot) .providers) (start blank) lostOps
    (c.screen .providers).marked = some 0 ∧ c.model.selectedId .providers = none ∧
      ¬ Along (step (fun _ => some lostRoot) .providers)
        (Upholds (fun _ => some lostRoot) .providers) (start blank) lostOps := by
  have hmarked : ((run (step (fun _ => some lostRoot) .providers) (start blank) lostOps).screen
      .providers).marked = some 0 := by
    decide
  have hid : ((run (step (fun _ => some lostRoot) .providers) (start blank) lostOps).screen
      .providers).selectedId = [] := by
    decide
  refine ⟨hmarked, if_pos hid, fun hall => ?_⟩
  -- the last build does not agree with its mark
  obtain ⟨hnone, -⟩ | ⟨i, r, -, -, -, hne, -⟩ := hall.2.2.2.1 rfl
  · exact Option.some_ne_none 0 (hmarked.symm.trans hnone)
  · exact hne hid

end Runs
end AsmFlow.Console
