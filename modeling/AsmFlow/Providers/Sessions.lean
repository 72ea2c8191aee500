import AsmFlow.Providers.Steps

/-!
# Invariants of one exchange, in every interleaving

A property of an exchange is two things: what its record keeps while it is in
use, and what its history shows at any time, also when the record has long been
given to another exchange. Both need to be checked only for a step of that
exchange and for its start; no other action of the engine touches them.
-/

namespace AsmFlow.Providers

open Library Routing

variable {Inv : CfgRoute → Exchange → List Event → Prop} {Safe : CfgRoute → List Event → Prop}
variable {w : World} {i : Slot}

/-- What a step of the exchange must leave behind. -/
structure Lands (Inv : CfgRoute → Exchange → List Event → Prop)
    (Safe : CfgRoute → List Event → Prop) (route : CfgRoute) (f : Focus) : Prop where
  safe : Safe route f.trace
  inv : f.x.live = true → Inv route f.x f.trace

/-- Every history is safe, and every record in use is in order. -/
structure Kept (Inv : CfgRoute → Exchange → List Event → Prop)
    (Safe : CfgRoute → List Event → Prop) (w : World) : Prop where
  indexed : w.Indexed
  safe : ∀ (n : ℕ) (h : History), w.history[n]? = some h → Safe h.route h.trace
  inv : ∀ (j : Slot) (h : History), (w.slots j).live = true → w.history[(w.slots j).serial]? = some h →
    Inv h.route (w.slots j) h.trace

/-- The same for all exchanges but the one in slot `i`. -/
structure KeptBut (Inv : CfgRoute → Exchange → List Event → Prop)
    (Safe : CfgRoute → List Event → Prop) (i : Slot) (w : World) : Prop where
  indexed : w.Indexed
  safe : ∀ (n : ℕ) (h : History), n ≠ (w.slots i).serial → w.history[n]? = some h → Safe h.route h.trace
  inv : ∀ (j : Slot) (h : History), j ≠ i → (w.slots j).live = true → w.history[(w.slots j).serial]? = some h →
    Inv h.route (w.slots j) h.trace

theorem Kept.but (h : Kept Inv Safe w) (i : Slot) : KeptBut Inv Safe i w :=
  ⟨h.indexed, fun n h₀ _ => h.safe n h₀, fun j h₀ _ => h.inv j h₀⟩

theorem Kept.of_alike {w' : World} (h : Kept Inv Safe w) (halike : World.Alike w' w) :
    Kept Inv Safe w' := by
  refine ⟨h.indexed.of_alike halike, ?_, ?_⟩
  · rw [halike.history]
    exact h.safe
  · rw [halike.slots, halike.history]
    exact h.inv

theorem World.land_slots (w : World) (i : Slot) (f : Focus) (j : Slot) :
    (w.land i f).slots j = if j = i then f.x else w.slots j := by
  simp only [World.land, World.refocus, Function.update_apply]

theorem World.land_history (w : World) (i : Slot) (f : Focus) (n : ℕ) :
    (w.land i f).history[n]? = (w.history[n]?).map fun h =>
      if (w.slots i).serial = n then { h with trace := f.trace } else h := by
  simp [World.land, World.refocus, List.getElem?_modify]

/-- The exchange's own step restores what its absence left open. -/
theorem KeptBut.land (h : KeptBut Inv Safe i w) (hlive : (w.slots i).live = true) {f : Focus}
    {h₀ : History} (hget : w.history[(w.slots i).serial]? = some h₀)
    (hout : Alive (w.slots i).serial f ∨ f.x = Exchange.zero)
    (hf : Lands Inv Safe h₀.route f) : Kept Inv Safe (w.land i f) := by
  refine ⟨h.indexed.land hlive hout, ?_, ?_⟩
  · intro n h₁ hn
    rw [World.land_history] at hn
    obtain ⟨h₂, hget₂, heq⟩ := Option.map_eq_some_iff.mp hn
    by_cases hserial : (w.slots i).serial = n
    · subst hserial
      rw [if_pos rfl] at heq
      rw [hget] at hget₂
      obtain rfl := Option.some.inj hget₂
      rw [← heq]
      exact hf.safe
    · rw [if_neg hserial] at heq
      rw [← heq]
      exact h.safe n h₂ (Ne.symm hserial) hget₂
  · intro j h₁ hj hn
    rw [World.land_history] at hn
    obtain ⟨h₂, hget₂, heq⟩ := Option.map_eq_some_iff.mp hn
    rw [World.land_slots] at hj hget₂ heq ⊢
    by_cases hji : j = i
    · rw [if_pos hji] at hj hget₂ heq ⊢
      rcases hout with halive | hzero
      · rw [if_pos halive.serial.symm] at heq
        rw [halive.serial, hget] at hget₂
        obtain rfl := Option.some.inj hget₂
        rw [← heq]
        exact hf.inv hj
      · rw [hzero] at hj
        simp [Exchange.live, Exchange.zero] at hj
    · rw [if_neg hji] at hj hget₂ heq ⊢
      have hother : (w.slots i).serial ≠ (w.slots j).serial := by
        intro hsame
        exact hji (h.indexed.serial_inj j i hj hlive hsame.symm)
      rw [if_neg hother] at heq
      rw [← heq]
      exact h.inv j h₂ hji hj hget₂

theorem Kept.occupy (h : Kept Inv Safe w) (i : Slot) (route : CfgRoute) :
    KeptBut Inv Safe i (w.occupy i route) := by
  have hself : ((w.occupy i route).slots i).serial = w.history.length := by simp [World.occupy]
  refine ⟨h.indexed.occupy i route, ?_, ?_⟩
  · intro n h₁ hn hget
    rw [hself] at hn
    simp only [World.occupy, List.getElem?_append] at hget
    split_ifs at hget with hlt
    · exact h.safe n h₁ hget
    · have hpos : n - w.history.length ≠ 0 := by omega
      simp [hpos] at hget
  · intro j h₁ hj hlive hget
    have hslot : (w.occupy i route).slots j = w.slots j := by simp [World.occupy, hj]
    rw [hslot] at hlive hget ⊢
    have hlt := h.indexed.serial_lt j hlive
    simp only [World.occupy, List.getElem?_append_left hlt] at hget
    exact h.inv j h₁ hlive hget

/-- The rule: check the exchange's own step, and its start. -/
theorem Kept.stepped {a : Action} {w' : World} (h : Kept Inv Safe w) (hstep : World.Stepped w a w')
    (hmove : ∀ i e route, a.target w = some (i, e) → (w.slots i).live = true →
      Inv route (w.slots i) (w.focus i).trace → Safe route (w.focus i).trace →
      Lands Inv Safe route (exchangeStep (w.focus i) e))
    (hstart : ∀ i s, a = .start s → w.freeSlot = some i →
      Lands Inv Safe s.route (startStep ((w.occupy i s.route).focus i) s)) :
    Kept Inv Safe w' := by
  cases hstep with
  | looked t hact halike =>
    have hsame : Kept Inv Safe { w with table := t } :=
      ⟨⟨h.indexed.serial_lt, h.indexed.serial_inj, h.indexed.idle⟩, h.safe, h.inv⟩
    exact hsame.of_alike halike
  | scribbled i x hfree hx hcounted halike =>
    have hw : World.Indexed { w with slots := Function.update w.slots i x } := by
      refine h.indexed.write i x (fun hlive => ?_) (fun _ => hcounted) rfl rfl
      simp [hx] at hlive
    have hsame : Kept Inv Safe { w with slots := Function.update w.slots i x } := by
      refine ⟨hw, h.safe, ?_⟩
      intro j h₁ hj hget
      simp only [Function.update_apply] at hj hget ⊢
      by_cases hji : j = i
      · rw [if_pos hji, hx] at hj
        simp at hj
      · rw [if_neg hji] at hj hget ⊢
        exact h.inv j h₁ hj hget
    exact hsame.of_alike halike
  | moved i e htarget hlive halike =>
    obtain ⟨h₀, hget⟩ : ∃ h₀, w.history[(w.slots i).serial]? = some h₀ :=
      ⟨_, List.getElem?_eq_getElem (h.indexed.serial_lt i hlive)⟩
    have htrace : (w.focus i).trace = h₀.trace := by simp [World.focus, World.traceOf, hget]
    have hinv := h.inv i h₀ hlive hget
    have hsafe := h.safe _ h₀ hget
    rw [← htrace] at hinv hsafe
    have hlands := hmove i e h₀.route htarget hlive hinv hsafe
    have hout := exchangeStep_outcome (World.alive_focus hlive) e
    exact ((h.but i).land hlive hget hout hlands).of_alike halike
  | started i s haction hfree halike =>
    have hlive := World.occupy_live w i s.route
    have hget : (w.occupy i s.route).history[((w.occupy i s.route).slots i).serial]? =
        some ⟨s.route, []⟩ := by simp [World.occupy]
    have hout := startStep_outcome (World.alive_focus hlive) s
    have hlands := hstart i s haction hfree
    exact ((h.occupy i s.route).land hlive hget hout hlands).of_alike halike

theorem boot_kept (configured : Word) : Kept Inv Safe (World.boot configured) := by
  refine ⟨World.boot_indexed configured, ?_, ?_⟩
  · intro n h hget
    simp [World.boot] at hget
  · intro j h hlive
    simp [World.boot, Exchange.live, Exchange.zero] at hlive

/-- The record a start works on: zeroed, with the new serial number, and no trace. -/
theorem occupy_focus (w : World) (i : Slot) (route : CfgRoute) :
    (w.occupy i route).focus i =
      ⟨w.table, { Exchange.zero with state := .starting, serial := w.history.length }, []⟩ := by
  simp [World.focus, World.occupy, World.traceOf]

end AsmFlow.Providers
