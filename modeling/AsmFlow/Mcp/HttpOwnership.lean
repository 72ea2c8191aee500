import AsmFlow.Library.Runs
import AsmFlow.Mcp.HttpEngine

/-!
# What a transfer owns, and who owns a transfer

Between two operations every slot that is not free has a transfer that libcurl works on,
and unless it was cancelled the link of its server points to it. Inside an operation this
holds of all slots but the one at hand. What a slot owns and the completion that is owed
for it are held in the table of slots, and the two ledgers are settled against it.
-/

namespace AsmFlow.McpHttp

open Library

variable {κ : Type}

/-- The completion that is owed for a transfer. -/
def Transfer.pends (x : Transfer κ) (s : ℕ) : Bool := x.added && decide (s = x.serial)

def Transfer.owns (x : Transfer κ) (k : ℕ × Resource) : Bool :=
  decide (k.1 = x.serial) && x.holds k.2

theorem Transfer.fresh_owns {n : ℕ} {k : ℕ × Resource} :
    (Transfer.fresh n : Transfer κ).owns k = true ↔ k = (n, .buffers) := by
  obtain ⟨s, r⟩ := k
  have hserial : (Transfer.fresh n : Transfer κ).serial = n := rfl
  cases r <;> simp [Transfer.owns, Transfer.holds, hserial] <;> simp [Transfer.fresh]

/-! ## Serials -/

/-- No two slots have one serial, and later transfers get other ones. -/
structure Serials (slots : SlotId → Option (Transfer κ)) (n : ℕ) : Prop where
  inj : ∀ i j x y, slots i = some x → slots j = some y → x.serial = y.serial → i = j
  lt : ∀ i x, slots i = some x → x.serial < n

/-- A serial of a transfer that is in a slot, or of a later one. -/
def Current (slots : SlotId → Option (Transfer κ)) (n s : ℕ) : Prop :=
  n ≤ s ∨ ∃ i x, slots i = some x ∧ x.serial = s

section Serials

variable {slots : SlotId → Option (Transfer κ)} {n s : ℕ} {i : SlotId} {x x' : Transfer κ}

theorem Serials.write (h : Serials slots n) (hx : slots i = some x)
    (hs : x'.serial = x.serial) : Serials (Function.update slots i (some x')) n := by
  have hold : ∀ j y, Function.update slots i (some x') j = some y →
      ∃ z, slots j = some z ∧ z.serial = y.serial := by
    intro j y hy
    by_cases hj : j = i
    · subst hj
      rw [Function.update_self] at hy
      cases hy
      exact ⟨x, hx, hs.symm⟩
    · rw [Function.update_of_ne hj] at hy
      exact ⟨y, hy, rfl⟩
  constructor
  · intro j k y z hy hz heq
    obtain ⟨y', hy', hys⟩ := hold j y hy
    obtain ⟨z', hz', hzs⟩ := hold k z hz
    exact h.inj j k y' z' hy' hz' (by rw [hys, hzs, heq])
  · intro j y hy
    obtain ⟨y', hy', hys⟩ := hold j y hy
    rw [← hys]
    exact h.lt j y' hy'

theorem Serials.insert (h : Serials slots n) (hs : x'.serial = n) :
    Serials (Function.update slots i (some x')) (n + 1) := by
  have hcases : ∀ j y, Function.update slots i (some x') j = some y →
      (j = i ∧ y.serial = n) ∨ (slots j = some y ∧ y.serial < n) := by
    intro j y hy
    by_cases hj : j = i
    · subst hj
      rw [Function.update_self] at hy
      cases hy
      exact .inl ⟨rfl, hs⟩
    · rw [Function.update_of_ne hj] at hy
      exact .inr ⟨hy, h.lt j y hy⟩
  constructor
  · intro j k y z hy hz heq
    obtain ⟨hj, hys⟩ | ⟨hy', hys⟩ := hcases j y hy <;>
      obtain ⟨hk, hzs⟩ | ⟨hz', hzs⟩ := hcases k z hz
    · rw [hj, hk]
    · omega
    · omega
    · exact h.inj j k y z hy' hz' heq
  · intro j y hy
    obtain ⟨-, hys⟩ | ⟨-, hys⟩ := hcases j y hy <;> omega

theorem Serials.clear (h : Serials slots n) : Serials (Function.update slots i none) n := by
  have hold : ∀ j y, Function.update slots i none j = some y → slots j = some y := by
    intro j y hy
    by_cases hj : j = i
    · subst hj
      rw [Function.update_self] at hy
      cases hy
    · rwa [Function.update_of_ne hj] at hy
  exact ⟨fun j k y z hy hz => h.inj j k y z (hold j y hy) (hold k z hz),
    fun j y hy => h.lt j y (hold j y hy)⟩

theorem Current.write (hx : slots i = some x) (hs : x'.serial = x.serial)
    (h : Current (Function.update slots i (some x')) n s) : Current slots n s := by
  obtain hn | ⟨j, y, hy, hys⟩ := h
  · exact .inl hn
  · by_cases hj : j = i
    · subst hj
      rw [Function.update_self] at hy
      cases hy
      exact .inr ⟨j, x, hx, by rw [← hs, hys]⟩
    · rw [Function.update_of_ne hj] at hy
      exact .inr ⟨j, y, hy, hys⟩

theorem Current.insert (hs : x'.serial = n)
    (h : Current (Function.update slots i (some x')) (n + 1) s) : Current slots n s := by
  obtain hn | ⟨j, y, hy, hys⟩ := h
  · exact .inl (by omega)
  · by_cases hj : j = i
    · subst hj
      rw [Function.update_self] at hy
      cases hy
      exact .inl (by omega)
    · rw [Function.update_of_ne hj] at hy
      exact .inr ⟨j, y, hy, hys⟩

/-- The serial of a slot that is freed is current no longer. -/
theorem Current.clear (hserials : Serials slots n) (hx : slots i = some x)
    (h : Current (Function.update slots i none) n s) : Current slots n s ∧ s ≠ x.serial := by
  obtain hn | ⟨j, y, hy, hys⟩ := h
  · have hlt := hserials.lt i x hx
    exact ⟨.inl hn, by omega⟩
  · have hj : j ≠ i := fun hj => by
      subst hj
      rw [Function.update_self] at hy
      cases hy
    rw [Function.update_of_ne hj] at hy
    exact ⟨.inr ⟨j, y, hy, hys⟩, fun hs => hj (hserials.inj j i y x hy hx (hys.trans hs))⟩

end Serials

/-! ## The invariant -/

namespace Engine

/-- What holds in the middle of an operation as well. -/
structure Inv (e : Engine κ) : Prop where
  count : e.active = occupancy Option.isSome e.slots
  bound : e.active ≤ e.maxActive
  serials : Serials e.slots e.serials
  linked : ∀ c m i, (e.links c).of m = some i →
    ∃ x, e.slots i = some x ∧ x.child = some c ∧ x.method = m
  handles : ∀ h ∈ e.multi, HeldIn e.slots Transfer.pends h
  hooks : e.hooks.Settled (HeldIn e.slots Transfer.pends)
  owned : e.owned.Settled (HeldIn e.slots Transfer.owns)
  unfreed : ∀ s, Current e.slots e.serials s →
    e.hooks.freed s = 0 ∧ ∀ r, e.owned.freed (s, r) = 0

/-- A transfer that libcurl works on. -/
structure Live (e : Engine κ) (i : SlotId) (x : Transfer κ) : Prop where
  state : x.state = .active
  easy : x.easy = true
  added : x.added = true
  link : ∃ c, x.child = some c ∧ (x.cancelled = false → (e.links c).of x.method = some i)

structure OwnedBut (e : Engine κ) (i : SlotId) : Prop where
  inv : e.Inv
  live : ∀ j x, j ≠ i → e.slots j = some x → e.Live j x

structure Owned (e : Engine κ) : Prop where
  inv : e.Inv
  live : ∀ j x, e.slots j = some x → e.Live j x

variable {e : Engine κ} {i : SlotId} {x x' : Transfer κ}

/-- Only the links are read of the engine. -/
theorem Live.congr {e' : Engine κ} (h : e.Live i x) (hlinks : e'.links = e.links) :
    e'.Live i x :=
  ⟨h.state, h.easy, h.added, hlinks ▸ h.link⟩

theorem Owned.but (h : e.Owned) (i : SlotId) : e.OwnedBut i :=
  ⟨h.inv, fun j x _ hx => h.live j x hx⟩

theorem OwnedBut.owned (h : e.OwnedBut i) (hi : ∀ x, e.slots i = some x → e.Live i x) :
    e.Owned := by
  refine ⟨h.inv, fun j x hx => ?_⟩
  by_cases hj : j = i
  · subst hj
    exact hi x hx
  · exact h.live j x hj hx

/-- The counters are not read. -/
theorem OwnedBut.counters (h : e.OwnedBut i) (total completed failed cancelled : ℕ)
    (started : Bool) :
    OwnedBut { e with
      total := total
      completed := completed
      failed := failed
      cancelled := cancelled
      started := started } i :=
  ⟨⟨h.inv.count, h.inv.bound, h.inv.serials, h.inv.linked, h.inv.handles, h.inv.hooks,
    h.inv.owned, h.inv.unfreed⟩, fun j x hj hx => (h.live j x hj hx).congr rfl⟩

theorem Owned.counters (h : e.Owned) (total completed failed cancelled : ℕ) (started : Bool) :
    Owned { e with
      total := total
      completed := completed
      failed := failed
      cancelled := cancelled
      started := started } :=
  ⟨⟨h.inv.count, h.inv.bound, h.inv.serials, h.inv.linked, h.inv.handles, h.inv.hooks,
    h.inv.owned, h.inv.unfreed⟩, fun j x hx => (h.live j x hx).congr rfl⟩

theorem Inv.unheld (h : e.Inv) (hx : e.slots i = some x) {r : Resource} (hr : x.holds r = false) :
    e.owned.taken (x.serial, r) = false := by
  refine h.owned.new ?_ ((h.unfreed x.serial (.inr ⟨i, x, hx, rfl⟩)).2 r)
  rintro ⟨j, y, hy, hk⟩
  obtain ⟨hs, hyr⟩ : x.serial = y.serial ∧ y.holds r = true := by
    simpa [Transfer.owns] using hk
  have hij := h.serials.inj i j x y hx hy hs
  subst hij
  rw [hx] at hy
  cases hy
  rw [hr] at hyr
  cases hyr

/-- A slot is written, and what its transfer holds stays. -/
theorem OwnedBut.write (h : e.OwnedBut i) (hx : e.slots i = some x) (x' : Transfer κ)
    (hs : x'.serial = x.serial) (ha : x'.added = x.added) (hh : ∀ r, x'.holds r = x.holds r)
    (hl : ∀ c m, (e.links c).of m = some i → x'.child = some c ∧ x'.method = m) :
    (e.setSlot i (some x')).OwnedBut i := by
  have hpends := heldIn_write Transfer.pends x' (fun _ => false) hx
    (fun k => by simp [Transfer.pends, hs, ha])
  have howns := heldIn_write Transfer.owns x' (fun _ => false) hx
    (fun k => by simp [Transfer.owns, hs, hh])
  simp only [Bool.false_eq_true, false_or] at hpends howns
  constructor
  · constructor
    case count =>
      exact h.inv.count.trans (occupancy_update_of_eq (by rw [hx]; rfl)).symm
    case bound => exact h.inv.bound
    case serials => exact h.inv.serials.write hx hs
    case linked =>
      intro c m j hj
      by_cases hji : j = i
      · subst hji
        exact ⟨x', Function.update_self .., hl c m hj⟩
      · obtain ⟨y, hy, hyl⟩ := h.inv.linked c m j hj
        exact ⟨y, (Function.update_of_ne hji ..).trans hy, hyl⟩
    case handles => exact fun k hk => (hpends k).mpr (h.inv.handles k hk)
    case hooks => exact h.inv.hooks.congr hpends
    case owned => exact h.inv.owned.congr howns
    case unfreed => exact fun s hcur => h.inv.unfreed s (hcur.write hx hs)
  · intro j y hj hy
    have hy : e.slots j = some y := (Function.update_of_ne hj ..).symm.trans hy
    exact (h.live j y hj hy).congr rfl

/-- The transfer in a slot takes something that it does not hold. -/
theorem OwnedBut.takeOwned (h : e.OwnedBut i) (hx : e.slots i = some x) (x' : Transfer κ)
    (r : Resource) (hr : x.holds r = false)
    (hs : x'.serial = x.serial) (ha : x'.added = x.added)
    (hh : ∀ r', x'.holds r' = (decide (r' = r) || x.holds r'))
    (hl : ∀ c m, (e.links c).of m = some i → x'.child = some c ∧ x'.method = m) :
    (e.takeOwned i x' r).OwnedBut i := by
  have hpends := heldIn_write Transfer.pends x' (fun _ => false) hx
    (fun k => by simp [Transfer.pends, hs, ha])
  have howns := heldIn_write Transfer.owns x'
    (fun k => decide (k = (x'.serial, r))) hx (fun k => by
      obtain ⟨s, r'⟩ := k
      simp only [Transfer.owns, hs, hh, Prod.mk.injEq]
      by_cases hsx : s = x.serial <;> simp [hsx])
  simp only [Bool.false_eq_true, false_or] at hpends
  constructor
  · constructor
    case count =>
      exact h.inv.count.trans (occupancy_update_of_eq (by rw [hx]; rfl)).symm
    case bound => exact h.inv.bound
    case serials => exact h.inv.serials.write hx hs
    case linked =>
      intro c m j hj
      by_cases hji : j = i
      · subst hji
        exact ⟨x', Function.update_self .., hl c m hj⟩
      · obtain ⟨y, hy, hyl⟩ := h.inv.linked c m j hj
        exact ⟨y, (Function.update_of_ne hji ..).trans hy, hyl⟩
    case handles => exact fun k hk => (hpends k).mpr (h.inv.handles k hk)
    case hooks => exact h.inv.hooks.congr hpends
    case owned =>
      refine h.inv.owned.take (fun k hk => ?_) howns
      rw [of_decide_eq_true hk, hs]
      exact h.inv.unheld hx hr
    case unfreed => exact fun s hcur => h.inv.unfreed s (hcur.write hx hs)
  · intro j y hj hy
    have hy : e.slots j = some y := (Function.update_of_ne hj ..).symm.trans hy
    exact (h.live j y hj hy).congr rfl

/-! ## Slots that are taken and freed -/

/-- A slot that is taken has a transfer that owns its buffers. -/
theorem Owned.occupy (h : e.Owned) (hx : e.slots i = none) (hroom : e.active < e.maxActive) :
    (e.occupy i).OwnedBut i := by
  have hfresh : e.hooks.freed e.serials = 0 ∧ ∀ r, e.owned.freed (e.serials, r) = 0 :=
    h.inv.unfreed e.serials (.inl le_rfl)
  have hpends := heldIn_insert Transfer.pends (Transfer.fresh e.serials) hx
  have howns := heldIn_insert Transfer.owns (Transfer.fresh e.serials) hx
  have hnew : ¬ HeldIn e.slots Transfer.owns (e.serials, .buffers) := by
    rintro ⟨j, y, hy, hk⟩
    have hs : e.serials = y.serial := by
      simp only [Transfer.owns, Bool.and_eq_true, decide_eq_true_eq] at hk
      exact hk.1
    exact absurd (h.inv.serials.lt j y hy) (by omega)
  constructor
  · constructor
    case count =>
      have hstep := occupancy_update Option.isSome e.slots i (some (Transfer.fresh e.serials))
      have hcount := h.inv.count
      simp only [hx, Option.isSome_none, Option.isSome_some, Bool.toNat_false,
        Bool.toNat_true] at hstep
      change e.active + 1 = occupancy Option.isSome (Function.update e.slots i _)
      omega
    case bound => exact hroom
    case serials => exact h.inv.serials.insert rfl
    case linked =>
      intro c m j hj
      obtain ⟨y, hy, hyl⟩ := h.inv.linked c m j hj
      have hji : j ≠ i := fun hji => by
        rw [hji, hx] at hy
        cases hy
      exact ⟨y, (Function.update_of_ne hji ..).trans hy, hyl⟩
    case handles => exact fun k hk => (hpends k).mpr (.inr (h.inv.handles k hk))
    case hooks =>
      refine h.inv.hooks.congr fun k => (hpends k).trans ?_
      simp [Transfer.pends, Transfer.fresh]
    case owned =>
      refine h.inv.owned.take (fun k hk => ?_) fun k => (howns k).trans ?_
      · rw [of_decide_eq_true hk]
        exact h.inv.owned.new hnew (hfresh.2 .buffers)
      · exact or_congr (Transfer.fresh_owns.trans decide_eq_true_iff.symm) Iff.rfl
    case unfreed => exact fun s hcur => h.inv.unfreed s (.insert rfl hcur)
  · intro j y hj hy
    have hy : e.slots j = some y := (Function.update_of_ne hj ..).symm.trans hy
    exact (h.live j y hy).congr rfl

/-- A slot is released with what it owns, and with it the completion that it owes. -/
theorem OwnedBut.release (h : e.OwnedBut i) (hx : e.slots i = some x)
    (hl : ∀ c m, (e.links c).of m ≠ some i) :
    Owned { e.slotRelease i with hooks := e.hooks.free x.pends } := by
  have hrelease : e.slotRelease i =
      { e with
        slots := Function.update e.slots i none
        multi := if x.added then e.multi.filter (fun h => h ≠ x.serial) else e.multi
        owned := e.owned.free x.owns
        active := e.active - 1 } := by
    simp only [slotRelease, hx]
    rfl
  have hpends := heldIn_clear Transfer.pends hx fun j y k hy hxk hyk => by
    simp only [Transfer.pends, Bool.and_eq_true, decide_eq_true_eq] at hxk hyk
    exact h.inv.serials.inj j i y x hy hx (hyk.2.symm.trans hxk.2)
  have howns := heldIn_clear Transfer.owns hx fun j y k hy hxk hyk => by
    simp only [Transfer.owns, Bool.and_eq_true, decide_eq_true_eq] at hxk hyk
    exact h.inv.serials.inj j i y x hy hx (hyk.1.symm.trans hxk.1)
  have hmulti : ∀ k, k ∈ (if x.added then e.multi.filter (fun h => h ≠ x.serial) else e.multi) →
      k ∈ e.multi ∧ x.pends k = false := by
    intro k hk
    cases ha : x.added with
    | true =>
      rw [ha, if_pos rfl, List.mem_filter, decide_eq_true_eq] at hk
      exact ⟨hk.1, by simp [Transfer.pends, hk.2]⟩
    | false =>
      rw [ha, if_neg Bool.false_ne_true] at hk
      exact ⟨hk, by simp [Transfer.pends, ha]⟩
  rw [hrelease]
  constructor
  · constructor
    case count =>
      have hstep := occupancy_update Option.isSome e.slots i none
      have hcount := h.inv.count
      simp only [hx, Option.isSome_none, Option.isSome_some, Bool.toNat_false,
        Bool.toNat_true] at hstep
      change e.active - 1 = occupancy Option.isSome (Function.update e.slots i none)
      omega
    case bound => exact (Nat.sub_le e.active 1).trans h.inv.bound
    case serials => exact h.inv.serials.clear
    case linked =>
      intro c m j hj
      obtain ⟨y, hy, hyl⟩ := h.inv.linked c m j hj
      have hji : j ≠ i := fun hji => hl c m (hji ▸ hj)
      exact ⟨y, (Function.update_of_ne hji ..).trans hy, hyl⟩
    case handles =>
      intro k hk
      obtain ⟨hk, hout⟩ := hmulti k hk
      exact (hpends k).mpr ⟨h.inv.handles k hk, hout⟩
    case hooks => exact h.inv.hooks.free (fun k hk => .mk hx hk) hpends
    case owned => exact h.inv.owned.free (fun k hk => .mk hx hk) howns
    case unfreed =>
      intro s hcur
      obtain ⟨hcur, hne⟩ := hcur.clear h.inv.serials hx
      obtain ⟨hhooks, howned⟩ := h.inv.unfreed s hcur
      simp [Ledger.free, Transfer.pends, Transfer.owns, hne, hhooks, howned]
  · intro j y hy
    have hj : j ≠ i := fun hj => by
      subst hj
      cases (Function.update_self j none e.slots).symm.trans hy
    have hy : e.slots j = some y := (Function.update_of_ne hj ..).symm.trans hy
    exact (h.live j y hj hy).congr rfl

/-- A slot that was not activated owes no completion. -/
theorem OwnedBut.abandon (h : e.OwnedBut i) (hx : e.slots i = some x) (ha : x.added = false)
    (hl : ∀ c m, (e.links c).of m ≠ some i) : (e.slotRelease i).Owned := by
  have hnone : x.pends = fun _ => false := by
    funext s
    simp [Transfer.pends, ha]
  have hhooks : (e.slotRelease i).hooks = e.hooks := by
    simp only [slotRelease, hx]
  have hrelease := h.release hx hl
  rw [hnone] at hrelease
  have hfree : e.hooks.free (fun _ => false) = (e.slotRelease i).hooks := by
    rw [hhooks]
    rfl
  rw [hfree] at hrelease
  exact hrelease

/-! ## Links -/

variable [DecidableEq κ] {c : κ} {m : Method}

theorem setLink_of (c c' : κ) (m m' : Method) (v : Option SlotId) :
    ((e.setLink c m v).links c').of m' =
      if c' = c ∧ m' = m then v else (e.links c').of m' := by
  by_cases hc : c' = c
  · subst hc
    cases m <;> cases m' <;> simp [setLink, Links.set, Links.of]
  · simp [setLink, hc]

/-- A link to the slot at hand is cleared. -/
theorem OwnedBut.clearLink (h : e.OwnedBut i) (hl : (e.links c).of m = some i) :
    (e.setLink c m none).OwnedBut i := by
  constructor
  · refine ⟨h.inv.count, h.inv.bound, h.inv.serials, fun c' m' j hj => ?_, h.inv.handles,
      h.inv.hooks, h.inv.owned, h.inv.unfreed⟩
    rw [setLink_of] at hj
    split_ifs at hj
    exact h.inv.linked c' m' j hj
  · intro j y hj hy
    obtain ⟨hstate, heasy, hadded, d, hd, hlink⟩ := h.live j y hj hy
    refine ⟨hstate, heasy, hadded, d, hd, fun hc => ?_⟩
    rw [setLink_of, if_neg]
    · exact hlink hc
    · rintro ⟨rfl, hm⟩
      rw [← hm, hlink hc] at hl
      exact hj (Option.some.inj hl)

theorem OwnedBut.unlink (h : e.OwnedBut i) : (e.unlink c m i).OwnedBut i := by
  unfold Engine.unlink
  split_ifs with hl
  · exact h.clearLink hl
  · exact h

/-- The slot that is unlinked keeps no other link than it had, and not this one. -/
theorem unlink_of {c' : κ} {m' : Method} (h : ((e.unlink c m i).links c').of m' = some i) :
    (e.links c').of m' = some i ∧ ¬ (c' = c ∧ m' = m) := by
  unfold unlink at h
  split_ifs at h with hl
  · rw [setLink_of] at h
    split_ifs at h with heq
    exact ⟨h, heq⟩
  · refine ⟨h, ?_⟩
    rintro ⟨rfl, rfl⟩
    exact hl h

@[simp] theorem unlink_slots : (e.unlink c m i).slots = e.slots := by
  unfold unlink
  split_ifs <;> rfl

@[simp] theorem unlink_hooks : (e.unlink c m i).hooks = e.hooks := by
  unfold unlink
  split_ifs <;> rfl

omit [DecidableEq κ] in
/-- The links of a slot are those of its server. -/
theorem OwnedBut.linked (h : e.OwnedBut i) (hx : e.slots i = some x) (c : κ) (m : Method)
    (hl : (e.links c).of m = some i) : x.child = some c ∧ x.method = m := by
  obtain ⟨y, hy, hyl⟩ := h.inv.linked c m i hl
  rw [hx] at hy
  cases hy
  exact hyl

/-! ## A transfer that ends -/

omit [DecidableEq κ] in
theorem slotRelease_hooks (l : Ledger ℕ) :
    slotRelease { e with hooks := l } i = { e.slotRelease i with hooks := l } := by
  unfold slotRelease
  cases e.slots i <;> rfl

theorem unlink_withHooks (l : Ledger ℕ) :
    unlink { e with hooks := l } c m i = { e.unlink c m i with hooks := l } := by
  unfold unlink
  split_ifs <;> rfl

omit [DecidableEq κ] in
theorem slotRelease_slots (hx : e.slots i = some x) :
    (e.slotRelease i).slots = Function.update e.slots i none := by
  simp only [slotRelease, hx]

/-- A completion clears the links, frees the slot and is counted once. -/
theorem OwnedBut.complete (h : e.OwnedBut i) (hx : e.slots i = some x) (ha : x.added = true)
    (hc : x.child = some c) :
    (e.complete i).Owned ∧ (e.complete i).slots = Function.update e.slots i none := by
  let e' := (e.unlink c .post i).unlink c .get i
  have hx' : e'.slots i = some x := by rw [unlink_slots, unlink_slots, hx]
  have hcomplete : e.complete i = { e'.slotRelease i with hooks := e'.hooks.free x.pends } := by
    have hpends : x.pends = fun s => decide (s = x.serial) := by
      funext s
      simp [Transfer.pends, ha]
    simp only [Engine.complete, hx, hc, unlink_withHooks, slotRelease_hooks, hpends, e',
      unlink_hooks]
  have hbut : e'.OwnedBut i := h.unlink.unlink
  rw [hcomplete]
  constructor
  · refine hbut.release hx' fun c' m' hl => ?_
    obtain ⟨hl, hget⟩ := unlink_of hl
    obtain ⟨hl, hpost⟩ := unlink_of hl
    obtain ⟨hc', -⟩ := h.linked hx c' m' hl
    rw [hc, Option.some.injEq] at hc'
    cases m' with
    | post => exact hpost ⟨hc'.symm, rfl⟩
    | get => exact hget ⟨hc'.symm, rfl⟩
  · change (e'.slotRelease i).slots = _
    rw [slotRelease_slots hx', unlink_slots, unlink_slots]

theorem OwnedBut.finish (h : e.OwnedBut i) (hx : e.slots i = some x) (ha : x.added = true)
    (hc : x.child = some c) (cause : Status) (result : ℤ) :
    (e.finish i { x with cause := cause } result).Owned := by
  have hl := h.linked hx
  have hwrite := h.write hx
    { x with
      cause := cause
      curlResult := result
      state := .completing } rfl rfl (fun r => by cases r <;> rfl) hl
  exact (hwrite.complete (Function.update_self ..) ha hc).1

/-- The transfer at hand is cancelled: at once, or when the callback it is in has ended. -/
theorem OwnedBut.transferCancel (h : e.OwnedBut i) (hx : e.slots i = some x)
    (hstate : x.state = .active) (heasy : x.easy = true) (ha : x.added = true)
    (hc : x.child = some c) (cause : Status) :
    (e.transferCancel i cause).Owned ∧ (x.cancelled = false → x.inCallback = false →
      (e.transferCancel i cause).slots = Function.update e.slots i none) := by
  have hcount := h.counters e.total e.completed e.failed (e.cancelled + 1) e.started
  have hl := h.linked hx
  simp only [Engine.transferCancel, hx, hstate, reduceCtorEq, false_or]
  by_cases hcancelled : x.cancelled = true
  · rw [if_pos hcancelled]
    refine ⟨h.owned fun y hy => ?_, fun hnot => ?_⟩
    · rw [hx] at hy
      cases hy
      exact ⟨hstate, heasy, ha, c, hc, fun hnot => by rw [hcancelled] at hnot; cases hnot⟩
    · rw [hcancelled] at hnot
      cases hnot
  rw [if_neg hcancelled]
  by_cases hin : x.inCallback = true
  · rw [if_pos hin]
    have hwrite := hcount.write hx
      { x with
        state := .active
        cancelled := true
        cause := cause
        curlResult := curlCancelled
        cancelPending := true } rfl rfl (fun r => by cases r <;> rfl) hl
    refine ⟨hwrite.owned fun y hy => ?_, fun _ hnot => ?_⟩
    · cases (Function.update_self ..).symm.trans hy
      exact ⟨rfl, heasy, ha, c, hc, nofun⟩
    · rw [hin] at hnot
      cases hnot
  · rw [if_neg hin]
    have hwrite := hcount.write hx
      { x with
        cancelled := true
        cause := cause
        curlResult := curlCancelled
        state := .completing } rfl rfl (fun r => by cases r <;> rfl) hl
    obtain ⟨howned, hslots⟩ := hwrite.complete (Function.update_self ..) ha hc
    refine ⟨howned, fun _ _ => hslots.trans ?_⟩
    exact Function.update_idem ..

omit [DecidableEq κ] in
/-- A link that is not null points to a transfer that libcurl works on. -/
theorem Owned.ofLink (h : e.Owned) (hl : (e.links c).of m = some i) :
    ∃ x, e.slots i = some x ∧ e.Live i x ∧ x.child = some c := by
  obtain ⟨x, hx, hc, -⟩ := h.inv.linked c m i hl
  exact ⟨x, hx, h.live i x hx, hc⟩

theorem Owned.cancelCall (h : e.Owned) (c : κ) (call : ℕ) (cause : Status) :
    (e.cancelCall c call cause).Owned := by
  unfold Engine.cancelCall
  cases hl : (e.links c).post with
  | none => exact h
  | some i =>
    obtain ⟨x, hx, hlive, hc⟩ := h.ofLink (m := .post) hl
    simp only
    split_ifs
    · exact ((h.but i).transferCancel hx hlive.state hlive.easy hlive.added hc cause).1
    · exact h

theorem Owned.dropLink (h : e.Owned) (c : κ) (m : Method) (cause : Status) :
    (e.dropLink c m cause).Owned := by
  unfold Engine.dropLink
  cases hl : (e.links c).of m with
  | none => exact h
  | some i =>
    obtain ⟨x, hx, hlive, hc⟩ := h.ofLink hl
    have hclear := (h.but i).clearLink hl
    exact (hclear.transferCancel hx hlive.state hlive.easy hlive.added hc cause).1

theorem Owned.stop (h : e.Owned) (c : κ) (cause : Status) : (e.stop c cause).Owned :=
  (h.dropLink c .post _).dropLink c .get _

/-! ## Callbacks and the completion queue -/

omit [DecidableEq κ] in
/-- The transfer of a slot that libcurl works on is written, and it still does. -/
theorem Owned.rewrite (h : e.Owned) (hx : e.slots i = some x) (x' : Transfer κ)
    (hs : x'.serial = x.serial) (hh : ∀ r, x'.holds r = x.holds r) (ha : x'.added = x.added)
    (hstate : x'.state = x.state) (hcancelled : x'.cancelled = x.cancelled)
    (hc : x'.child = x.child) (hm : x'.method = x.method) :
    (e.setSlot i (some x')).Owned := by
  have hlive := h.live i x hx
  refine ((h.but i).write hx x' hs ha hh fun c m hl => ?_).owned fun y hy => ?_
  · rw [hc, hm]
    exact (h.but i).linked hx c m hl
  · cases (Function.update_self ..).symm.trans hy
    obtain ⟨c, hchild, hlink⟩ := hlive.link
    refine ⟨hstate.trans hlive.state, (hh .easy).trans hlive.easy, ha.trans hlive.added, c,
      hc.trans hchild, fun hnot => ?_⟩
    rw [hm]
    exact hlink (hcancelled.symm.trans hnot)

omit [DecidableEq κ] in
theorem Owned.enterCallback (h : e.Owned) (i : SlotId) : (e.enterCallback i).Owned := by
  unfold Engine.enterCallback
  cases hx : e.slots i with
  | none => exact h
  | some x =>
    simp only
    split_ifs
    · exact h.rewrite hx { x with inCallback := true } rfl (fun r => by cases r <;> rfl)
        rfl rfl rfl rfl rfl
    · exact h

omit [DecidableEq κ] in
theorem Owned.leaveCallback (h : e.Owned) (i : SlotId) (failure : Status) :
    (e.leaveCallback i failure).Owned := by
  unfold Engine.leaveCallback
  cases hx : e.slots i with
  | none => exact h
  | some x =>
    simp only
    split_ifs
    · exact h.rewrite hx { x with cause := failure, inCallback := false } rfl
        (fun r => by cases r <;> rfl) rfl rfl rfl rfl rfl
    · exact h.rewrite hx { x with inCallback := false } rfl
        (fun r => by cases r <;> rfl) rfl rfl rfl rfl rfl
    all_goals exact h

omit [DecidableEq κ] in
/-- A handle that libcurl works on is found by the scan. -/
theorem slotOf_isSome {h : ℕ} (hx : e.slots i = some x) (heasy : x.easy = true)
    (hs : x.serial = h) : ∃ j y, e.slotOf h = some j ∧ e.slots j = some y := by
  have hfound : (e.slotOf h).isSome = true := by
    rw [slotOf, List.find?_isSome]
    exact ⟨i, List.mem_finRange i, by simp [hx, heasy, hs]⟩
  obtain ⟨j, hj⟩ := Option.isSome_iff_exists.mp hfound
  have hmatch := List.find?_some hj
  cases hy : e.slots j with
  | none => simp [hy] at hmatch
  | some y => exact ⟨j, y, hj, hy⟩

theorem Owned.finish (h : e.Owned) (hx : e.slots i = some x) (cause : Status) (result : ℤ) :
    (e.finish i { x with cause := cause } result).Owned := by
  have hlive := h.live i x hx
  obtain ⟨c, hc, -⟩ := hlive.link
  exact (h.but i).finish hx hlive.added hc cause result

/-- A handle without its pointer is found by the handle, and completed. -/
theorem Owned.orphan (h : e.Owned) {handle : ℕ} (hmem : handle ∈ e.multi) (result : ℤ) :
    (e.orphan handle result).Owned := by
  obtain ⟨i, x, hx, hk⟩ := h.inv.handles handle hmem
  have hserial : x.serial = handle := by
    simp only [Transfer.pends, Bool.and_eq_true, decide_eq_true_eq] at hk
    exact hk.2.symm
  obtain ⟨j, y, hj, hy⟩ := slotOf_isSome hx (h.live i x hx).easy hserial
  have hcount := h.counters e.total e.completed (e.failed + 1) e.cancelled e.started
  have hj' : slotOf { e with failed := e.failed + 1 } handle = some j := by
    rw [← hj, slotOf, slotOf]
  unfold Engine.orphan
  simp only [hj', hy]
  exact hcount.finish hy _ _

/-- A handle that libcurl works on is completed, whatever pointer comes with it. -/
theorem Owned.reapOne (h : e.Owned) {handle : ℕ} (hmem : handle ∈ e.multi)
    (pointer : Option SlotId) (result : ℤ) : (e.reapOne handle pointer result).Owned := by
  unfold Engine.reapOne
  cases hpointer : pointer.bind fun i => (e.slots i).map fun x => (i, x) with
  | none => exact h.orphan hmem result
  | some ix =>
    obtain ⟨i, x⟩ := ix
    have hx : e.slots i = some x := by
      simp only [Option.bind_eq_some_iff, Option.map_eq_some_iff, Prod.mk.injEq] at hpointer
      obtain ⟨j, -, y, hy, rfl, rfl⟩ := hpointer
      exact hy
    simp only
    split_ifs with hother hcancelled
    · exact h.orphan hmem result
    · exact h.finish hx x.cause curlCancelled
    · have hcount := h.counters e.total e.completed (e.failed + 1) e.cancelled e.started
      exact hcount.finish hx x.cause result
    · have hcount := h.counters e.total (e.completed + 1) e.failed e.cancelled e.started
      exact hcount.finish hx x.cause result

/-! ## The shutdown -/

/-- No transfer waits to be reported as cancelled, and none is in a callback. -/
def Quiet (e : Engine κ) : Prop :=
  ∀ i, (e.slots i).all (fun x => !x.cancelled && !x.inCallback) = true

instance decidableQuiet (e : Engine κ) : Decidable e.Quiet :=
  inferInstanceAs
    (Decidable (∀ i, (e.slots i).all (fun x => !x.cancelled && !x.inCallback) = true))

omit [DecidableEq κ] in
theorem Quiet.slot (h : e.Quiet) (hx : e.slots i = some x) :
    x.cancelled = false ∧ x.inCallback = false := by
  have hi := h i
  rw [hx] at hi
  simpa using hi

theorem Owned.shutdownSlot (h : e.Owned) (hquiet : e.Quiet) (i : SlotId) :
    (e.shutdownSlot i).Owned ∧ (e.shutdownSlot i).slots = Function.update e.slots i none := by
  unfold Engine.shutdownSlot
  cases hx : e.slots i with
  | none =>
    have hsame : (e.transferCancel i Status.closed).slotRelease i = e := by
      simp only [transferCancel, slotRelease, hx]
    rw [hsame]
    refine ⟨h, ?_⟩
    rw [← hx, Function.update_eq_self]
  | some x =>
    have hlive := h.live i x hx
    obtain ⟨c, hc, -⟩ := hlive.link
    obtain ⟨hcancelled, hin⟩ := hquiet.slot hx
    obtain ⟨howned, hslots⟩ :=
      (h.but i).transferCancel hx hlive.state hlive.easy hlive.added hc Status.closed
    have hslots := hslots hcancelled hin
    have hfree : (e.transferCancel i Status.closed).slots i = none := by
      rw [hslots, Function.update_self]
    have hsame : (e.transferCancel i Status.closed).slotRelease i =
        e.transferCancel i Status.closed := by
      simp only [slotRelease, hfree]
    rw [hsame]
    exact ⟨howned, hslots⟩

/-- The scan cancels every slot that it visits. -/
theorem Owned.shutdownSlots (h : e.Owned) (hquiet : e.Quiet) (l : List SlotId) :
    (l.foldl Engine.shutdownSlot e).Owned ∧
      ∀ i, (l.foldl Engine.shutdownSlot e).slots i = if i ∈ l then none else e.slots i := by
  induction l generalizing e with
  | nil => exact ⟨h, fun i => by simp⟩
  | cons j l ih =>
    obtain ⟨howned, hslots⟩ := h.shutdownSlot hquiet j
    have hkeep : (e.shutdownSlot j).Quiet := by
      intro i
      rw [hslots]
      by_cases hij : i = j
      · rw [hij, Function.update_self]
        rfl
      · rw [Function.update_of_ne hij]
        exact hquiet i
    obtain ⟨hrun, hfree⟩ := ih howned hkeep
    refine ⟨hrun, fun i => ?_⟩
    rw [List.foldl_cons, hfree, hslots]
    by_cases hij : i = j
    · simp [hij]
    · simp [hij]

omit [DecidableEq κ] in
/-- An engine without transfers has nothing to free. -/
theorem Owned.emptied (h : e.Owned) (hfree : ∀ i, e.slots i = none) :
    Owned { e with multi := [], active := 0 } := by
  have hnone : occupancy Option.isSome e.slots = 0 :=
    occupancy_eq_zero fun i => by rw [hfree i]; rfl
  refine ⟨⟨hnone.symm, Nat.zero_le _, h.inv.serials, h.inv.linked, nofun, h.inv.hooks,
    h.inv.owned, h.inv.unfreed⟩, fun j x hx => ?_⟩
  have hfree := hfree j
  rw [hx] at hfree
  cases hfree

theorem Owned.shutdown (h : e.Owned) (hquiet : e.Quiet) : e.shutdown.Owned := by
  unfold Engine.shutdown
  split_ifs
  · exact h
  · have hstopped : Owned { e with started := false } :=
      h.counters e.total e.completed e.failed e.cancelled false
    obtain ⟨howned, hslots⟩ := hstopped.shutdownSlots hquiet (List.finRange maxTransfers)
    exact howned.emptied fun i => by rw [hslots, if_pos (List.mem_finRange i)]

/-! ## A transfer that is built -/

/-- A transfer that is not given to libcurl yet, and that no link points to. -/
structure Building (e : Engine κ) (i : SlotId) (x : Transfer κ) : Prop where
  but : e.OwnedBut i
  slot : e.slots i = some x
  added : x.added = false
  free : ∀ c m, (e.links c).of m ≠ some i

omit [DecidableEq κ] in
theorem Building.abandon (h : e.Building i x) : (e.slotRelease i).Owned :=
  h.but.abandon h.slot h.added h.free

omit [DecidableEq κ] in
theorem Building.write (h : e.Building i x) (x' : Transfer κ) (hs : x'.serial = x.serial)
    (ha : x'.added = x.added) (hh : ∀ r, x'.holds r = x.holds r) :
    (e.setSlot i (some x')).Building i x' where
  but := h.but.write h.slot x' hs ha hh fun c m hl => absurd hl (h.free c m)
  slot := Function.update_self ..
  added := ha.trans h.added
  free := h.free

omit [DecidableEq κ] in
theorem Building.takeOwned (h : e.Building i x) (x' : Transfer κ) (r : Resource)
    (hr : x.holds r = false) (hs : x'.serial = x.serial) (ha : x'.added = x.added)
    (hh : ∀ r', x'.holds r' = (decide (r' = r) || x.holds r')) :
    (e.takeOwned i x' r).Building i x' where
  but := h.but.takeOwned h.slot x' r hr hs ha hh fun c m hl => absurd hl (h.free c m)
  slot := Function.update_self ..
  added := ha.trans h.added
  free := h.free

omit [DecidableEq κ] in
/-- A slot is got with its easy handle, or nothing has changed. -/
theorem Owned.slotAlloc (h : e.Owned) (a : AllocAnswer) :
    ((e.slotAlloc a).2 = none → (e.slotAlloc a).1.Owned) ∧
      ∀ i, (e.slotAlloc a).2 = some i → ∃ x, (e.slotAlloc a).1.Building i x ∧
        x.easy = true ∧ x.slist = false ∧ x.config = false := by
  unfold Engine.slotAlloc
  by_cases hclosed : e.started = false ∨ e.maxActive ≤ e.active
  · rw [if_pos hclosed]
    exact ⟨fun _ => h, nofun⟩
  rw [if_neg hclosed]
  cases hfind : (List.finRange maxTransfers).find? fun i => (e.slots i).isNone with
  | none => exact ⟨fun _ => h, nofun⟩
  | some i =>
    have hx : e.slots i = none := Option.isNone_iff_eq_none.mp (by
      simpa using List.find?_some hfind)
    have hroom : e.active < e.maxActive := by
      rw [not_or] at hclosed
      omega
    have hbuild : (e.occupy i).Building i (.fresh e.serials) := by
      refine ⟨h.occupy hx hroom, Function.update_self .., rfl, fun c m hl => ?_⟩
      obtain ⟨y, hy, -⟩ := h.inv.linked c m i hl
      rw [hx] at hy
      cases hy
    simp only
    split_ifs
    · have htake := hbuild.takeOwned { Transfer.fresh e.serials with easy := true } .easy
        rfl rfl rfl (fun r => by cases r <;> rfl)
      refine ⟨nofun, fun j hj => ?_⟩
      cases hj
      exact ⟨_, ⟨htake.but.counters _ _ _ _ _, htake.slot, htake.added, htake.free⟩,
        rfl, rfl, rfl⟩
    · exact ⟨fun _ => hbuild.abandon, nofun⟩

omit [DecidableEq κ] in
theorem Building.prepareCommon (h : e.Building i x) (hconfig : x.config = false) (c : κ)
    (a : PrepareAnswer) : ∃ x', (e.prepareCommon i c a).1.Building i x' ∧
      x'.easy = x.easy ∧ x'.slist = x.slist ∧ x'.child = some c := by
  simp only [Engine.prepareCommon, h.slot]
  have htake := h.takeOwned { x with child := some c, config := true } .config hconfig rfl rfl
    (fun r => by cases r <;> rfl)
  cases a with
  | early =>
    exact ⟨_, h.write { x with child := some c } rfl rfl (fun r => by cases r <;> rfl),
      rfl, rfl, rfl⟩
  | late => exact ⟨_, htake, rfl, rfl, rfl⟩
  | ok => exact ⟨_, htake, rfl, rfl, rfl⟩

omit [DecidableEq κ] in
theorem Building.addHeaders (h : e.Building i x) (hslist : x.slist = false) (slist : Bool) :
    ∃ x', (e.addHeaders i slist).Building i x' ∧ x'.easy = x.easy ∧ x'.child = x.child := by
  simp only [Engine.addHeaders, h.slot]
  cases slist with
  | false => exact ⟨x, h, rfl, rfl⟩
  | true =>
    exact ⟨_, h.takeOwned { x with slist := true } .slist hslist rfl rfl
      (fun r => by cases r <;> rfl), rfl, rfl⟩

/-- The link of the server is set to the slot at hand. -/
theorem OwnedBut.claimLink (h : e.OwnedBut i) (hx : e.slots i = some x) (hc : x.child = some c)
    (hl : (e.links c).of x.method = none) :
    (e.setLink c x.method (some i)).OwnedBut i := by
  constructor
  · refine ⟨h.inv.count, h.inv.bound, h.inv.serials, fun c' m' j hj => ?_, h.inv.handles,
      h.inv.hooks, h.inv.owned, h.inv.unfreed⟩
    rw [setLink_of] at hj
    split_ifs at hj with hcm
    · obtain ⟨rfl, rfl⟩ := hcm
      cases hj
      exact ⟨x, hx, hc, rfl⟩
    · exact h.inv.linked c' m' j hj
  · intro j y hj hy
    obtain ⟨hstate, heasy, hadded, d, hd, hlink⟩ := h.live j y hj hy
    refine ⟨hstate, heasy, hadded, d, hd, fun hnot => ?_⟩
    rw [setLink_of, if_neg]
    · exact hlink hnot
    · rintro ⟨rfl, hm⟩
      have hlink := hlink hnot
      rw [hm, hl] at hlink
      cases hlink

omit [DecidableEq κ] in
/-- The handle is given to libcurl, and its completion is owed from here on. -/
theorem OwnedBut.publish (h : e.OwnedBut i) (hx : e.slots i = some x) (ha : x.added = false)
    (heasy : x.easy = true) (hc : x.child = some c) (hl : (e.links c).of x.method = some i) :
    Owned { e.setSlot i (some { x with added := true, state := .active }) with
      multi := x.serial :: e.multi
      hooks := e.hooks.take fun s => decide (s = x.serial) } := by
  have hpends := heldIn_write Transfer.pends
    { x with added := true, state := .active } (fun s => decide (s = x.serial)) hx
    fun s => by simp [Transfer.pends, ha]
  have howns := heldIn_write Transfer.owns
    { x with added := true, state := .active } (fun _ => false) hx
    fun k => by obtain ⟨s, r⟩ := k; cases r <;> rfl
  simp only [Bool.false_eq_true, false_or] at howns
  have hserial : Transfer.serial { x with added := true, state := .active } = x.serial := rfl
  have hnew : e.hooks.taken x.serial = false := by
    refine h.inv.hooks.new ?_ (h.inv.unfreed x.serial (.inr ⟨i, x, hx, rfl⟩)).1
    rintro ⟨j, y, hy, hk⟩
    simp only [Transfer.pends, Bool.and_eq_true, decide_eq_true_eq] at hk
    have hij := h.inv.serials.inj i j x y hx hy hk.2
    rw [← hij, hx] at hy
    cases hy
    exact Bool.false_ne_true (ha.symm.trans hk.1)
  constructor
  · constructor
    case count =>
      exact h.inv.count.trans (occupancy_update_of_eq (by rw [hx]; rfl)).symm
    case bound => exact h.inv.bound
    case serials => exact h.inv.serials.write hx hserial
    case linked =>
      intro c' m' j hj
      by_cases hji : j = i
      · subst hji
        exact ⟨_, Function.update_self .., h.linked hx c' m' hj⟩
      · obtain ⟨y, hy, hyl⟩ := h.inv.linked c' m' j hj
        exact ⟨y, (Function.update_of_ne hji ..).trans hy, hyl⟩
    case handles =>
      intro k hk
      obtain rfl | hk := List.mem_cons.mp hk
      · exact (hpends _).mpr (.inl (decide_eq_true rfl))
      · exact (hpends k).mpr (.inr (h.inv.handles k hk))
    case hooks =>
      refine h.inv.hooks.take (fun k hk => ?_) hpends
      rw [of_decide_eq_true hk]
      exact hnew
    case owned => exact h.inv.owned.congr howns
    case unfreed => exact fun s hcur => h.inv.unfreed s (Current.write hx hserial hcur)
  · intro j y hy
    by_cases hj : j = i
    · subst hj
      cases (Function.update_self ..).symm.trans hy
      exact ⟨rfl, heasy, rfl, c, hc, fun _ => hl⟩
    · have hy : e.slots j = some y := (Function.update_of_ne hj ..).symm.trans hy
      exact (h.live j y hj hy).congr rfl

/-- A transfer is given to libcurl, or it can still be abandoned. -/
theorem Building.activate (h : e.Building i x) (heasy : x.easy = true) (hc : x.child = some c)
    (add : Bool) :
    ((e.activate i c add).2 = true → (e.activate i c add).1.Owned) ∧
      ((e.activate i c add).2 = false → (e.activate i c add).1.Building i x) := by
  simp only [Engine.activate, h.slot]
  by_cases hl : (e.links c).of x.method = none
  · have hclaim := h.but.claimLink h.slot hc hl
    have hlink : ((e.setLink c x.method (some i)).links c).of x.method = some i := by
      rw [setLink_of, if_pos ⟨rfl, rfl⟩]
    rw [if_neg (not_not.mpr hl)]
    cases add with
    | true => exact ⟨fun _ => hclaim.publish h.slot h.added heasy hc hlink, nofun⟩
    | false =>
      simp only [hlink, if_true]
      refine ⟨nofun, fun _ => ⟨hclaim.clearLink hlink, h.slot, h.added, fun c' m' hl' => ?_⟩⟩
      rw [setLink_of] at hl'
      split_ifs at hl' with hcm
      rw [setLink_of, if_neg hcm] at hl'
      exact h.free c' m' hl'
  · rw [if_pos hl]
    exact ⟨nofun, fun _ => h⟩

theorem Building.construct (h : e.Building i x) (heasy : x.easy = true)
    (hslist : x.slist = false) (hconfig : x.config = false) (c : κ) (a : BuildAnswer) :
    (e.construct i c a).1.Owned := by
  obtain ⟨x₁, hprepared, heasy₁, hslist₁, hc⟩ := h.prepareCommon hconfig c a.prepare
  unfold Engine.construct
  generalize e.prepareCommon i c a.prepare = r at hprepared ⊢
  obtain ⟨e₁, ok⟩ := r
  cases ok with
  | false => exact hprepared.abandon
  | true =>
    obtain ⟨x₂, hheaders, heasy₂, hc₂⟩ := hprepared.addHeaders (hslist₁.trans hslist) a.slist
    simp only
    split_ifs
    · exact hheaders.abandon
    · obtain ⟨hdone, hleft⟩ := hheaders.activate (heasy₂.trans (heasy₁.trans heasy))
        (hc₂.trans hc) a.add
      generalize (e₁.addHeaders i a.slist).activate i c a.add = r at hdone hleft ⊢
      obtain ⟨e₂, ok⟩ := r
      cases ok with
      | false => exact (hleft rfl).abandon
      | true => exact hdone rfl

theorem Owned.build (h : e.Owned) (c : κ) (m : Method) (call : Option ℕ) (a : BuildAnswer) :
    (e.build c m call a).1.Owned := by
  obtain ⟨hnone, hsome⟩ := h.slotAlloc a.alloc
  unfold Engine.build
  generalize e.slotAlloc a.alloc = r at hnone hsome ⊢
  obtain ⟨e₁, found⟩ := r
  cases found with
  | none => exact hnone rfl
  | some i =>
    obtain ⟨x, hbuild, heasy, hslist, hconfig⟩ := hsome i rfl
    have hslot : e₁.slots i = some x := hbuild.slot
    simp only [hslot]
    exact (hbuild.write { x with method := m, call := call } rfl rfl
      (fun r => by cases r <;> rfl)).construct heasy hslist hconfig c a

theorem Owned.request (h : e.Owned) (c : κ) (call : ℕ) (adapter : Bool) (a : BuildAnswer) :
    (e.request c call adapter a).1.Owned := by
  unfold Engine.request
  split_ifs
  · exact h
  · exact h
  · exact h.build c .post (some call) a

theorem Owned.notify (h : e.Owned) (c : κ) (a : BuildAnswer) : (e.notify c a).1.Owned := by
  unfold Engine.notify
  split_ifs
  · exact h
  · exact h.build c .post none a

theorem Owned.legacyStartGet (h : e.Owned) (c : κ) (a : BuildAnswer) :
    (e.legacyStartGet c a).1.Owned := by
  unfold Engine.legacyStartGet
  split_ifs
  · exact h
  · exact h.build c .get none a

/-! ## Runs -/

end Engine

/-- What libcurl and the loop promise. A handle is reported only while it is added. An
aborted transfer is reported before libcurl returns, and the loop that it returned to is
the one that shuts the engine down. -/
def Legal (e : Engine κ) : Op κ → Prop
  | .reap handle _ _ => handle ∈ e.multi
  | .shutdown => e.Quiet
  | _ => True

instance decidableLegal (e : Engine κ) : ∀ op, Decidable (Legal e op)
  | .reap handle _ _ => inferInstanceAs (Decidable (handle ∈ e.multi))
  | .shutdown => inferInstanceAs (Decidable e.Quiet)
  | .request .. | .notify .. | .startGet .. | .cancelCall .. | .stop .. | .enterCallback _
  | .leaveCallback .. => inferInstanceAs (Decidable True)

/-- What a reader of the table may rely on. -/
structure Sound (e : Engine κ) : Prop where
  count : e.active = occupancy Option.isSome e.slots
  bound : e.active ≤ e.maxActive
  /-- A link is null, or points to a transfer of the server with the method. -/
  linked : ∀ c m i, (e.links c).of m = some i →
    ∃ x, e.slots i = some x ∧ x.child = some c ∧ x.method = m
  /-- A server has one transfer with a method that is not being aborted. -/
  single : ∀ c i j x y, e.slots i = some x → e.slots j = some y →
    x.child = some c → y.child = some c → x.method = y.method →
    x.cancelled = false → y.cancelled = false → i = j
  /-- The completion of a transfer that was activated is owed, or was run once. -/
  completed : e.hooks.Settled (HeldIn e.slots Transfer.pends)
  /-- What a transfer was given to own it still owns, or released once. -/
  released : e.owned.Settled (HeldIn e.slots Transfer.owns)

theorem Engine.Owned.sound {e : Engine κ} (h : e.Owned) : Sound e where
  count := h.inv.count
  bound := h.inv.bound
  linked := h.inv.linked
  single := by
    intro c i j x y hx hy hxc hyc hm hxn hyn
    obtain ⟨d, hd, hi⟩ := (h.live i x hx).link
    obtain ⟨d', hd', hj⟩ := (h.live j y hy).link
    rw [hxc, Option.some.injEq] at hd
    rw [hyc, Option.some.injEq] at hd'
    subst hd hd'
    have hi := hi hxn
    rw [hm, hj hyn, Option.some.injEq] at hi
    exact hi.symm
  completed := h.inv.hooks
  released := h.inv.owned

variable [DecidableEq κ]

/-- Every operation keeps the invariant. -/
theorem Engine.Owned.step {e : Engine κ} (h : e.Owned) (op : Op κ) (hlegal : Legal e op) :
    (step e op).Owned := by
  cases op with
  | request c call adapter a => exact h.request c call adapter a
  | notify c a => exact h.notify c a
  | startGet c a => exact h.legacyStartGet c a
  | cancelCall c call cause => exact h.cancelCall c call cause
  | stop c cause => exact h.stop c cause
  | enterCallback i => exact h.enterCallback i
  | leaveCallback i failure => exact h.leaveCallback i failure
  | reap handle pointer result => exact h.reapOne hlegal pointer result
  | shutdown => exact h.shutdown hlegal

end AsmFlow.McpHttp
