import AsmFlow.Providers.Engine

/-!
# The engine's steps, one exchange at a time

Apart from the routing table, exchanges share nothing. Every action of the world
is the matching step of one exchange, seen through its focus, with the slot's
occupancy counted on the side; properties of runs are proved on that form.
-/

namespace AsmFlow.Providers

open Library Routing

/-- The record is in use, by the exchange of that serial number. -/
structure Alive (serial : ℕ) (f : Focus) : Prop where
  serial : f.x.serial = serial
  live : f.x.live = true

section Alive

variable {n : ℕ} {f : Focus}

theorem Alive.written (h : Alive n f) {g : Exchange → Exchange}
    (hserial : (g f.x).serial = f.x.serial) (hlive : (g f.x).live = true) :
    Alive n (f.onExchange g) := ⟨hserial.trans h.serial, hlive⟩

theorem Alive.logged (h : Alive n f) (e : Event) : Alive n (f.log e) := ⟨h.serial, h.live⟩

theorem Alive.released (h : Alive n f) (verdict : Status) (nowNs : Word) :
    Alive n (attemptRelease f verdict nowNs) := by
  constructor
  · rw [attemptRelease_x]
    exact h.serial
  · rw [attemptRelease_x]
    exact h.live

theorem Alive.started (h : Alive n f) (env : StartEnv) : Alive n (attemptStart f env).1 := by
  rcases attemptStart_cases f env with ⟨table, st, -, -, heq⟩ | ⟨table, c, rs, -, -, -, -, heq⟩
  · rw [heq]
    exact ⟨h.serial, h.live⟩
  · obtain ⟨-, -, hst, hstate⟩ := launch_spec (claim { f with table } c rs env.nowNs) env
    rw [heq]
    constructor
    · exact (congrArg Standing.serial hst).trans h.serial
    · rcases hstate with ⟨-, hs⟩ | ⟨-, hs⟩
      · rw [Exchange.live, hs]
        exact h.live
      · simp [Exchange.live, hs]

theorem Alive.ended (h : Alive n f) (verdict : Status) : Alive n (endTransfer f verdict) := by
  have hwrite : Alive n (f.onExchange fun x => { x with state := .finishing, result := verdict }) :=
    h.written rfl (by simp [Exchange.live])
  unfold endTransfer
  dsimp only
  split
  · exact hwrite
  · exact hwrite.logged _

theorem Alive.answered (h : Alive n f) (verdict : Status) (r : FinishEnv) :
    Alive n (answerClient f verdict r) := by
  have hrel := h.released verdict r.answerNs
  unfold answerClient
  dsimp only
  split_ifs
  · exact hrel.written rfl hrel.live
  · exact hrel
  · exact ⟨hrel.serial, hrel.live⟩
  · exact hrel

theorem Alive.fellBack (h : Alive n f) (verdict : Status) (r : FinishEnv) :
    Alive n (fallBack f verdict r).1 := by
  have hrel := h.released verdict r.releaseNs
  have htorn : Alive n (attemptTeardown (attemptRelease f verdict r.releaseNs)) :=
    hrel.written rfl hrel.live
  exact htorn.started r.start

theorem Alive.finished (h : Alive n f) (r : FinishEnv) : Alive n (finishExchange f r).1 := by
  have hend := h.ended (r.verdict f.x)
  have hback := hend.fellBack (r.verdict f.x) r
  rcases finishExchange_cases f r with
    ⟨-, heq⟩ | ⟨-, f', st, hfall, ⟨-, heq⟩ | ⟨-, heq⟩⟩
  · rw [heq]
    exact hend.answered _ r
  · rw [hfall] at hback
    rw [heq]
    have hwrite : Alive n (f'.onExchange markFinishing) :=
      hback.written rfl (by simp [Exchange.live, markFinishing])
    exact hwrite.answered _ r
  · rw [hfall] at hback
    rw [heq]
    exact hback

theorem Alive.opened (h : Alive n f) (s : StartRequest) : Alive n (startExchange f s).1 := by
  have hopen : Alive n (f.onExchange (openRecord s)) := h.written rfl h.live
  have hprep : Alive n ((f.onExchange (openRecord s)).onExchange (prepare s)) :=
    hopen.written rfl hopen.live
  have hstart := hprep.started s.start
  rcases startExchange_cases f s with
    ⟨st, -, heq⟩ | ⟨st, -, heq⟩ | ⟨f', st, hatt, ⟨-, heq⟩ | ⟨-, heq⟩⟩
  · rw [heq]
    exact hopen
  · rw [heq]
    exact hprep.written rfl hprep.live
  · rw [hatt] at hstart
    rw [heq]
    exact hstart.written rfl hstart.live
  · rw [hatt] at hstart
    rw [heq]
    exact hstart

theorem Alive.headed (h : Alive n f) (line : HeaderLine) : Alive n (onHeader f line) := by
  unfold onHeader
  split_ifs
  · exact h
  · exact h
  · cases line with
    | statusLine => exact h.written rfl h.live
    | field => exact h
    | blank status eventStream writeHead =>
      dsimp only [headersComplete]
      split_ifs
      · exact h.written rfl h.live
      · exact h.written rfl h.live
      · exact ⟨h.serial, h.live⟩

theorem Alive.wrote (h : Alive n f) (o : WriteEnv) : Alive n (onWrite f o) := by
  unfold onWrite
  split_ifs
  · exact h
  · exact h
  · exact h.written rfl h.live
  · exact h.written rfl h.live

end Alive

/-- What can happen to an exchange in flight. -/
inductive ExchangeAction
  | header (line : HeaderLine)
  | write (o : WriteEnv)
  | drained
  | finish (r : FinishEnv)
  | detach (nowNs : Word)
  | abandon (nowNs : Word)
  | dispose (nowNs : Word)

def exchangeStep (f : Focus) : ExchangeAction → Focus
  | .header line => onHeader f line
  | .write o => onWrite f o
  | .drained => f.onExchange clearPaused
  | .finish r =>
    if f.x.state ≠ .active then disposeExchange f r.releaseNs
    else
      match f.x.conn with
      | none =>
        disposeExchange
          (attemptRelease (endTransfer f (r.verdict f.x)) .upCancelled r.releaseNs) r.releaseNs
      | some _ =>
        if (finishExchange f r).2 then (finishExchange f r).1
        else disposeExchange ((finishExchange f r).1.onExchange forgetClient) r.answerNs
  | .detach nowNs =>
    let f := (f.onExchange forgetClient).onExchange markCancelled
    disposeExchange ((f.log .clientGone).log .cancelled) nowNs
  | .abandon nowNs => disposeExchange (f.onExchange forgetClient) nowNs
  | .dispose nowNs => disposeExchange f nowNs

/-- The three ways a finish goes. -/
theorem exchangeStep_finish_cases (f : Focus) (r : FinishEnv) :
    (f.x.state ≠ .active ∧ exchangeStep f (.finish r) = disposeExchange f r.releaseNs) ∨
      (f.x.state = .active ∧ f.x.conn = none ∧ exchangeStep f (.finish r) =
        disposeExchange
          (attemptRelease (endTransfer f (r.verdict f.x)) .upCancelled r.releaseNs) r.releaseNs) ∨
      (f.x.state = .active ∧ f.x.conn ≠ none ∧ exchangeStep f (.finish r) =
        if (finishExchange f r).2 then (finishExchange f r).1
        else disposeExchange ((finishExchange f r).1.onExchange forgetClient) r.answerNs) := by
  simp only [exchangeStep]
  by_cases hactive : f.x.state = .active
  · rw [if_neg (not_not.mpr hactive)]
    right
    cases hconn : f.x.conn with
    | none => exact Or.inl ⟨hactive, rfl, rfl⟩
    | some c => exact Or.inr ⟨hactive, Option.some_ne_none c, rfl⟩
  · exact Or.inl ⟨hactive, if_pos hactive⟩

theorem disposeExchange_x (f : Focus) (nowNs : Word) :
    (disposeExchange f nowNs).x = Exchange.zero := rfl

/-- A step leaves the exchange alive under its serial number, or the record zeroed. -/
theorem exchangeStep_outcome {n : ℕ} {f : Focus} (h : Alive n f) (e : ExchangeAction) :
    Alive n (exchangeStep f e) ∨ (exchangeStep f e).x = Exchange.zero := by
  cases e with
  | header line => exact Or.inl (h.headed line)
  | write o => exact Or.inl (h.wrote o)
  | drained => exact Or.inl (h.written rfl h.live)
  | finish r =>
    unfold exchangeStep
    split_ifs
    · exact Or.inr rfl
    · cases f.x.conn with
      | none => exact Or.inr rfl
      | some c =>
        dsimp only
        split_ifs
        · exact Or.inl (h.finished r)
        · exact Or.inr rfl
  | detach nowNs => exact Or.inr rfl
  | abandon nowNs => exact Or.inr rfl
  | dispose nowNs => exact Or.inr rfl

/-- A start on a slot just taken, with the disposal of one that fails. -/
def startStep (f : Focus) (s : StartRequest) : Focus :=
  if (startExchange f s).2 < 0 then disposeExchange (startExchange f s).1 s.disposeNs
  else (startExchange f s).1

theorem startStep_outcome {n : ℕ} {f : Focus} (h : Alive n f) (s : StartRequest) :
    Alive n (startStep f s) ∨ (startStep f s).x = Exchange.zero := by
  unfold startStep
  split_ifs
  · exact Or.inr rfl
  · exact Or.inl (h.opened s)

/-- The exchange an action is about, and what happens to it. -/
def Action.target (w : World) : Action → Option (Slot × ExchangeAction)
  | .start _ => none
  | .header i line => some (i, .header line)
  | .write i o => some (i, .write o)
  | .drained c => (w.conns c).map fun i => (i, .drained)
  | .finish i r => some (i, .finish r)
  | .detach c nowNs => (w.conns c).map fun i => (i, .detach nowNs)
  | .abandon i nowNs => some (i, .abandon nowNs)
  | .dispose i nowNs => some (i, .dispose nowNs)
  | .look _ _ _ => none

namespace World

/-- The slot is written back, and counted as given up when its record is free. -/
def land (w : World) (i : Slot) (f : Focus) : World :=
  { w.refocus i f with
    active := if f.x.live then w.active else if w.active = 0 then w.active else w.active - 1 }

/-- The worlds agree on everything exchanges consist of. -/
structure Alike (w w' : World) : Prop where
  table : w.table = w'.table
  slots : w.slots = w'.slots
  history : w.history = w'.history
  active : w.active = w'.active
  maxActive : w.maxActive = w'.maxActive

/-- Every occupied slot has a history of its own, and a free one no claim. -/
structure Indexed (w : World) : Prop where
  serial_lt : ∀ i, (w.slots i).live = true → (w.slots i).serial < w.history.length
  serial_inj : ∀ i j, (w.slots i).live = true → (w.slots j).live = true →
    (w.slots i).serial = (w.slots j).serial → i = j
  idle : ∀ i, (w.slots i).live = false → (w.slots i).counted = false

namespace Alike

variable {w w' w'' : World}

theorem refl (w : World) : Alike w w := ⟨rfl, rfl, rfl, rfl, rfl⟩

theorem trans (h : Alike w w') (h' : Alike w' w'') : Alike w w'' :=
  ⟨h.table.trans h'.table, h.slots.trans h'.slots, h.history.trans h'.history,
    h.active.trans h'.active, h.maxActive.trans h'.maxActive⟩

theorem focus_eq (h : Alike w w') (i : Slot) : w.focus i = w'.focus i := by
  simp only [focus, traceOf, h.table, h.slots, h.history]

theorem refocus (h : Alike w w') (i : Slot) (f : Focus) :
    Alike (w.refocus i f) (w'.refocus i f) := by
  constructor
  · rfl
  · simp only [World.refocus, h.slots]
  · simp only [World.refocus, h.slots, h.history]
  · exact h.active
  · exact h.maxActive

theorem onSlot (h : Alike w w') (i : Slot) (g : Exchange → Exchange) :
    Alike (w.onSlot i g) (w'.onSlot i g) := by
  refine ⟨h.table, ?_, h.history, h.active, h.maxActive⟩
  simp only [World.onSlot, h.slots]

theorem land (h : Alike w w') (i : Slot) (f : Focus) : Alike (w.land i f) (w'.land i f) := by
  obtain ⟨ht, hs, hh, -, hm⟩ := h.refocus i f
  refine ⟨ht, hs, hh, ?_, hm⟩
  simp only [World.land, h.active]

end Alike

section Refocus

variable {w : World} {i : Slot} {f : Focus}

theorem refocus_focus (w : World) (i : Slot) : Alike (w.refocus i (w.focus i)) w := by
  refine ⟨rfl, Function.update_eq_self i w.slots, ?_, rfl, rfl⟩
  apply List.ext_getElem?
  intro n
  simp only [refocus, focus, List.getElem?_modify]
  by_cases hn : (w.slots i).serial = n
  · subst hn
    cases hget : w.history[(w.slots i).serial]? with
    | none => rfl
    | some h => simp [traceOf, hget]
  · simp [hn]

theorem focus_refocus (hserial : f.x.serial = (w.slots i).serial)
    (hlt : (w.slots i).serial < w.history.length) : (w.refocus i f).focus i = f := by
  have hget : w.history[(w.slots i).serial]? = some w.history[(w.slots i).serial] :=
    List.getElem?_eq_getElem hlt
  simp [refocus, focus, traceOf, hserial, hget]

theorem refocus_refocus (hserial : f.x.serial = (w.slots i).serial) (g : Focus) :
    Alike ((w.refocus i f).refocus i g) (w.refocus i g) := by
  refine ⟨rfl, ?_, ?_, rfl, rfl⟩
  · simp [refocus]
  · apply List.ext_getElem?
    intro n
    simp only [refocus, Function.update_self, hserial, List.getElem?_modify]
    cases w.history[n]? with
    | none => rfl
    | some h =>
      simp only [Option.map_eq_map, Option.map_some]
      split_ifs <;> rfl

/-- Disposing of what a slot holds is landing the disposed record. -/
theorem dispose_refocus (hlive : f.x.live = true) (hserial : f.x.serial = (w.slots i).serial)
    (hlt : (w.slots i).serial < w.history.length) (nowNs : Word) :
    Alike ((w.refocus i f).dispose i nowNs) (w.land i (disposeExchange f nowNs)) := by
  have hne : ((w.refocus i f).slots i).state ≠ .free := by
    simpa [refocus, Exchange.live] using hlive
  have hfocus := focus_refocus hserial hlt
  obtain ⟨ht, hs, hh, -, hm⟩ := refocus_refocus hserial (disposeExchange f nowNs)
  rw [dispose, if_neg hne, hfocus]
  exact ⟨ht, hs, hh, rfl, hm⟩

theorem dispose_self (hlive : (w.slots i).live = true) (nowNs : Word) :
    Alike (w.dispose i nowNs) (w.land i (disposeExchange (w.focus i) nowNs)) := by
  have hne : (w.slots i).state ≠ .free := by simpa [Exchange.live] using hlive
  rw [dispose, if_neg hne]
  exact ⟨rfl, rfl, rfl, rfl, rfl⟩

theorem dispose_idle (hidle : (w.slots i).live = false) (nowNs : Word) :
    w.dispose i nowNs = w := by
  have hfree : (w.slots i).state = .free := by simpa [Exchange.live] using hidle
  rw [dispose, if_pos hfree]

theorem Alike.dispose {w' : World} (h : Alike w w') (i : Slot) (nowNs : Word) :
    Alike (w.dispose i nowNs) (w'.dispose i nowNs) := by
  cases hlive : (w.slots i).live with
  | false =>
    have hlive' : (w'.slots i).live = false := by rw [← h.slots]; exact hlive
    rw [dispose_idle hlive, dispose_idle hlive']
    exact h
  | true =>
    have hlive' : (w'.slots i).live = true := by rw [← h.slots]; exact hlive
    obtain ⟨t, s, hh, a, m⟩ := (dispose_self hlive' nowNs)
    have hland := (dispose_self hlive nowNs).trans (h.land i (disposeExchange (w.focus i) nowNs))
    rw [h.focus_eq i] at hland
    exact hland.trans ⟨t.symm, s.symm, hh.symm, a.symm, m.symm⟩

theorem onSlot_refocus (g : Exchange → Exchange) :
    Alike (w.onSlot i g) (w.refocus i ((w.focus i).onExchange g)) :=
  ⟨rfl, rfl, (refocus_focus w i).history.symm, rfl, rfl⟩

theorem note_refocus (hlive : (w.slots i).live = true) (es : List Event) :
    Alike (w.note i es) (w.refocus i { w.focus i with trace := (w.focus i).trace ++ es }) := by
  rw [note, if_pos hlive]
  refine ⟨rfl, (Function.update_eq_self i w.slots).symm, ?_, rfl, rfl⟩
  apply List.ext_getElem?
  intro n
  simp only [refocus, focus, List.getElem?_modify]
  by_cases hn : (w.slots i).serial = n
  · subst hn
    cases hget : w.history[(w.slots i).serial]? with
    | none => rfl
    | some h => simp [traceOf, hget]
  · simp [hn]

/-- A slot whose record is written, when the record lands alive. -/
theorem refocus_land (hlive : f.x.live = true) : Alike (w.refocus i f) (w.land i f) :=
  ⟨rfl, rfl, rfl, by simp [land, hlive, refocus], rfl⟩

end Refocus

section Actions

variable {w : World} {i : Slot}

theorem alive_focus (hlive : (w.slots i).live = true) :
    Alive (w.slots i).serial (w.focus i) := ⟨rfl, hlive⟩

theorem finish_land (hw : w.Indexed) (hlive : (w.slots i).live = true) (r : FinishEnv) :
    Alike (exchangeFinish w i r) (w.land i (exchangeStep (w.focus i) (.finish r))) := by
  have hlt := hw.serial_lt i hlive
  have halive := alive_focus hlive
  unfold exchangeFinish exchangeStep
  dsimp only
  have hx : (w.focus i).x = w.slots i := rfl
  rw [hx]
  by_cases hstate : (w.slots i).state = .active
  · rw [if_neg (not_not.mpr hstate), if_neg (not_not.mpr hstate)]
    cases hconn : (w.slots i).conn with
    | none =>
      have hrel := (halive.ended (r.verdict (w.slots i))).released .upCancelled r.releaseNs
      exact dispose_refocus hrel.live hrel.serial hlt r.releaseNs
    | some c =>
      dsimp only
      generalize hw₁ : (if r.verdict (w.slots i) < 0 then { w with failed := w.failed + 1 }
        else w) = w₁
      have hsame : Alike w₁ w := by
        rw [← hw₁]
        split_ifs <;> exact ⟨rfl, rfl, rfl, rfl, rfl⟩
      have hfin := halive.finished r
      rw [hsame.focus_eq i]
      generalize finishExchange (w.focus i) r = step at hfin
      obtain ⟨f, again⟩ := step
      cases again with
      | true =>
        have hland := (hsame.refocus i f).trans (refocus_land hfin.live)
        exact ⟨hland.table, hland.slots, hland.history, hland.active, hland.maxActive⟩
      | false =>
        have hforget : Alive (w.slots i).serial (f.onExchange forgetClient) :=
          hfin.written rfl hfin.live
        have hfocus : (w.refocus i f).focus i = f := focus_refocus hfin.serial hlt
        have hunlink : Alike ((w₁.refocus i f).unlink c i)
            (w.refocus i (f.onExchange forgetClient)) := by
          have hslot := (hsame.refocus i f).onSlot i forgetClient
          have hwrite : Alike ((w.refocus i f).onSlot i forgetClient)
              ((w.refocus i f).refocus i (((w.refocus i f).focus i).onExchange forgetClient)) :=
            onSlot_refocus forgetClient
          rw [hfocus] at hwrite
          have hall := (hslot.trans hwrite).trans (refocus_refocus hfin.serial _)
          exact ⟨hall.table, hall.slots, hall.history, hall.active, hall.maxActive⟩
        exact (hunlink.dispose i r.answerNs).trans
          (dispose_refocus hforget.live hforget.serial hlt r.answerNs)
  · rw [if_pos hstate, if_pos hstate]
    exact dispose_self hlive r.releaseNs

/-- Forgetting the client, as a write through the focus. -/
theorem unlink_refocus (c : ℕ) :
    Alike (w.unlink c i) (w.refocus i ((w.focus i).onExchange forgetClient)) := by
  have h : Alike (w.onSlot i forgetClient)
      (w.refocus i ((w.focus i).onExchange forgetClient)) := onSlot_refocus forgetClient
  exact ⟨h.table, h.slots, h.history, h.active, h.maxActive⟩

theorem abandon_land (hw : w.Indexed) (hlive : (w.slots i).live = true) (nowNs : Word) :
    Alike (exchangeAbandon w i nowNs) (w.land i (exchangeStep (w.focus i) (.abandon nowNs))) := by
  have hlt := hw.serial_lt i hlive
  have hforget : Alive (w.slots i).serial ((w.focus i).onExchange forgetClient) :=
    (alive_focus hlive).written rfl hlive
  unfold exchangeAbandon exchangeStep
  cases hconn : (w.slots i).conn with
  | none =>
    have hsame : (w.focus i).onExchange forgetClient = w.focus i := by
      have hx : forgetClient (w.slots i) = w.slots i := by
        rw [forgetClient, ← hconn]
      simp only [focus, Focus.onExchange, hx]
    dsimp only
    rw [hsame]
    exact dispose_self hlive nowNs
  | some c =>
    exact ((unlink_refocus c).dispose i nowNs).trans
      (dispose_refocus hforget.live hforget.serial hlt nowNs)

theorem detach_land (hw : w.Indexed) {c : ℕ} (hc : w.conns c = some i)
    (hlive : (w.slots i).live = true) (nowNs : Word) :
    Alike (connDetach w c nowNs) (w.land i (exchangeStep (w.focus i) (.detach nowNs))) := by
  have hlt := hw.serial_lt i hlive
  have hforget : Alive (w.slots i).serial ((w.focus i).onExchange forgetClient) :=
    (alive_focus hlive).written rfl hlive
  have hmark : Alive (w.slots i).serial
      (((w.focus i).onExchange forgetClient).onExchange markCancelled) :=
    hforget.written rfl hforget.live
  have hwrite : Alike ((w.unlink c i).onSlot i markCancelled)
      (w.refocus i (((w.focus i).onExchange forgetClient).onExchange markCancelled)) := by
    have hstep : Alike ((w.refocus i ((w.focus i).onExchange forgetClient)).onSlot i markCancelled)
        ((w.refocus i ((w.focus i).onExchange forgetClient)).refocus i
          (((w.refocus i ((w.focus i).onExchange forgetClient)).focus i).onExchange
            markCancelled)) := onSlot_refocus markCancelled
    rw [focus_refocus hforget.serial hlt] at hstep
    exact (((unlink_refocus c).onSlot i markCancelled).trans hstep).trans
      (refocus_refocus hforget.serial _)
  have hnote : Alike (((w.unlink c i).onSlot i markCancelled).note i [.clientGone, .cancelled])
      (w.refocus i (((((w.focus i).onExchange forgetClient).onExchange markCancelled).log
        .clientGone).log .cancelled)) := by
    have hlive' : (((w.unlink c i).onSlot i markCancelled).slots i).live = true := by
      rw [hwrite.slots]
      simpa [refocus] using hmark.live
    have hstep := note_refocus hlive' [.clientGone, .cancelled]
    rw [hwrite.focus_eq i, focus_refocus hmark.serial hlt] at hstep
    have hall := (hstep.trans (hwrite.refocus i _)).trans (refocus_refocus hmark.serial _)
    simpa [Focus.log] using hall
  have hcount : Alike
      { ((w.unlink c i).onSlot i markCancelled).note i [.clientGone, .cancelled] with
        cancelled := (((w.unlink c i).onSlot i markCancelled).note i
          [.clientGone, .cancelled]).cancelled + 1 }
      (w.refocus i (((((w.focus i).onExchange forgetClient).onExchange markCancelled).log
        .clientGone).log .cancelled)) :=
    ⟨hnote.table, hnote.slots, hnote.history, hnote.active, hnote.maxActive⟩
  have hlogged := (hmark.logged .clientGone).logged .cancelled
  unfold connDetach exchangeStep
  rw [hc]
  exact (hcount.dispose i nowNs).trans (dispose_refocus hlogged.live hlogged.serial hlt nowNs)

theorem start_land {s : StartRequest} (hfree : w.freeSlot = some i) :
    Alike (exchangeStart w s).1
      ((w.occupy i s.route).land i (startStep ((w.occupy i s.route).focus i) s)) := by
  have hlive : ((w.occupy i s.route).slots i).live = true := by
    simp [occupy, Exchange.live]
  have hlt : ((w.occupy i s.route).slots i).serial < (w.occupy i s.route).history.length := by
    simp [occupy]
  have hopen := (alive_focus hlive).opened s
  unfold exchangeStart startStep
  rw [hfree]
  dsimp only
  generalize startExchange ((w.occupy i s.route).focus i) s = step at hopen
  obtain ⟨f, status⟩ := step
  dsimp only at hopen ⊢
  split_ifs
  · exact dispose_refocus hopen.live hopen.serial hlt s.disposeNs
  · have hland : Alike ((w.occupy i s.route).refocus i f) ((w.occupy i s.route).land i f) :=
      refocus_land hopen.live
    exact ⟨hland.table, hland.slots, hland.history, hland.active, hland.maxActive⟩

/-- What a step does to the exchanges: nothing but look at providers, scribble
on a free record, one step of one exchange, or a start on a free slot. -/
inductive Stepped (w : World) (a : Action) (w' : World) : Prop
  | looked (t : Table) (hact : ∀ k, t.activeOf k = w.table.activeOf k)
      (halike : Alike w' { w with table := t })
  | scribbled (i : Slot) (x : Exchange) (hfree : (w.slots i).live = false)
      (hx : x.live = false) (hcounted : x.counted = false)
      (halike : Alike w' { w with slots := Function.update w.slots i x })
  | moved (i : Slot) (e : ExchangeAction) (htarget : a.target w = some (i, e))
      (hlive : (w.slots i).live = true)
      (halike : Alike w' (w.land i (exchangeStep (w.focus i) e)))
  | started (i : Slot) (s : StartRequest) (haction : a = .start s)
      (hfree : w.freeSlot = some i)
      (halike : Alike w' ((w.occupy i s.route).land i
        (startStep ((w.occupy i s.route).focus i) s)))

/-- Nothing at all happens to the exchanges. -/
theorem Stepped.still {a : Action} {w' : World} (h : Alike w' w) : Stepped w a w' :=
  .looked w.table (fun _ => rfl) h

theorem controlLook_activeOf (t : Table) (id : Bytes) (alloc : Bool) (nowNs : Word) (k : ℕ) :
    (controlLook t id alloc nowNs).activeOf k = t.activeOf k := by
  have hkeep := routingProvider_activeOf t id alloc k
  unfold controlLook
  generalize routingProvider t id alloc = found at hkeep
  obtain ⟨t', slot⟩ := found
  cases slot with
  | none => exact hkeep
  | some j =>
    dsimp only
    rw [onProvider_activeOf_of_eq fun s => healthRefresh_active s nowNs]
    exact hkeep

/-- A write to a free record that leaves it free and without a claim. -/
theorem scribble (hw : w.Indexed) {a : Action} (g : Exchange → Exchange)
    (hidle : (w.slots i).live = false) (hlive : ∀ x, (g x).live = x.live)
    (hcounted : ∀ x, (g x).counted = x.counted) {w' : World} (h : Alike w' (w.onSlot i g)) :
    Stepped w a w' :=
  .scribbled i (g (w.slots i)) hidle ((hlive _).trans hidle)
    ((hcounted _).trans (hw.idle i hidle)) h

/-- Every action of the world is one of these. -/
theorem worldStep_stepped (hw : w.Indexed) (a : Action) : Stepped w a (worldStep w a) := by
  have hstate (j : Slot) (hj : (w.slots j).live = false) : (w.slots j).state ≠ .active := by
    intro h
    simp [Exchange.live, h] at hj
  cases a with
  | start s =>
    cases hfree : w.freeSlot with
    | none =>
      have hnone : worldStep w (.start s) = w := by simp [worldStep, exchangeStart, hfree]
      rw [hnone]
      exact .still (.refl w)
    | some i => exact .started i s rfl hfree (start_land hfree)
  | header i line =>
    cases hlive : (w.slots i).live with
    | true => exact .moved i (.header line) rfl hlive (refocus_land ((alive_focus hlive).headed line).live)
    | false =>
      have hsame : onHeader (w.focus i) line = w.focus i := if_pos (hstate i hlive)
      rw [worldStep, hsame]
      exact .still (refocus_focus w i)
  | write i o =>
    cases hlive : (w.slots i).live with
    | true => exact .moved i (.write o) rfl hlive (refocus_land ((alive_focus hlive).wrote o).live)
    | false =>
      have hsame : onWrite (w.focus i) o = w.focus i := if_pos (hstate i hlive)
      rw [worldStep, hsame]
      exact .still (refocus_focus w i)
  | drained c =>
    cases hc : w.conns c with
    | none =>
      have hnone : worldStep w (.drained c) = w := by simp [worldStep, connDrained, hc]
      rw [hnone]
      exact .still (.refl w)
    | some i =>
      have hstep : worldStep w (.drained c) = w.onSlot i clearPaused := by
        simp [worldStep, connDrained, hc]
      rw [hstep]
      cases hlive : (w.slots i).live with
      | true =>
        refine .moved i .drained (by simp [Action.target, hc]) hlive ?_
        have hclear : Alive (w.slots i).serial ((w.focus i).onExchange clearPaused) :=
          (alive_focus hlive).written rfl hlive
        exact (onSlot_refocus clearPaused).trans (refocus_land hclear.live)
      | false => exact scribble hw clearPaused hlive (fun _ => rfl) (fun _ => rfl) (.refl _)
  | finish i r =>
    cases hlive : (w.slots i).live with
    | true => exact .moved i (.finish r) rfl hlive (finish_land hw hlive r)
    | false =>
      have hnone : worldStep w (.finish i r) = w := by
        simp [worldStep, exchangeFinish, hstate i hlive, dispose_idle hlive]
      rw [hnone]
      exact .still (.refl w)
  | detach c nowNs =>
    cases hc : w.conns c with
    | none =>
      have hnone : worldStep w (.detach c nowNs) = w := by simp [worldStep, connDetach, hc]
      rw [hnone]
      exact .still (.refl w)
    | some i =>
      cases hlive : (w.slots i).live with
      | true =>
        exact .moved i (.detach nowNs) (by simp [Action.target, hc]) hlive
          (detach_land hw hc hlive nowNs)
      | false =>
        have hidle : (((w.unlink c i).onSlot i markCancelled).slots i).live = false := by
          have hx : ((w.unlink c i).onSlot i markCancelled).slots i =
              markCancelled (forgetClient (w.slots i)) := by simp [unlink, onSlot]
          rw [hx]
          exact hlive
        have hnote : ((w.unlink c i).onSlot i markCancelled).note i [.clientGone, .cancelled] =
            (w.unlink c i).onSlot i markCancelled := if_neg (by simp [hidle])
        have hstep : worldStep w (.detach c nowNs) =
            { (w.unlink c i).onSlot i markCancelled with cancelled := w.cancelled + 1 } := by
          simp only [worldStep, connDetach, hc, hnote]
          apply dispose_idle
          exact hidle
        rw [hstep]
        apply scribble hw (markCancelled ∘ forgetClient) hlive (fun _ => rfl) fun _ => rfl
        exact ⟨rfl, by simp [unlink, onSlot], rfl, rfl, rfl⟩
  | abandon i nowNs =>
    cases hlive : (w.slots i).live with
    | true => exact .moved i (.abandon nowNs) rfl hlive (abandon_land hw hlive nowNs)
    | false =>
      cases hconn : (w.slots i).conn with
      | none =>
        have hnone : worldStep w (.abandon i nowNs) = w := by
          simp [worldStep, exchangeAbandon, hconn, dispose_idle hlive]
        rw [hnone]
        exact .still (.refl w)
      | some c =>
        have hidle : ((w.unlink c i).slots i).live = false := by
          have hx : (w.unlink c i).slots i = forgetClient (w.slots i) := by simp [unlink, onSlot]
          rw [hx]
          exact hlive
        have hstep : worldStep w (.abandon i nowNs) = w.unlink c i := by
          simp [worldStep, exchangeAbandon, hconn, dispose_idle hidle]
        rw [hstep]
        exact scribble hw forgetClient hlive (fun _ => rfl) (fun _ => rfl) ⟨rfl, rfl, rfl, rfl, rfl⟩
  | dispose i nowNs =>
    cases hlive : (w.slots i).live with
    | true => exact .moved i (.dispose nowNs) rfl hlive (dispose_self hlive nowNs)
    | false =>
      have hnone : worldStep w (.dispose i nowNs) = w := dispose_idle hlive nowNs
      rw [hnone]
      exact .still (.refl w)
  | look id alloc nowNs =>
    exact .looked (controlLook w.table id alloc nowNs)
      (controlLook_activeOf w.table id alloc nowNs) (.refl _)

theorem Indexed.of_alike {w' : World} (hw : w.Indexed) (h : Alike w' w) : w'.Indexed := by
  constructor
  · rw [h.slots, h.history]
    exact hw.serial_lt
  · rw [h.slots]
    exact hw.serial_inj
  · rw [h.slots]
    exact hw.idle

/-- Writing one record keeps the index when the record is alive under the serial
number it had, or free and without a claim. -/
theorem Indexed.write (hw : w.Indexed) (i : Slot) (x : Exchange)
    (hx : x.live = true → (w.slots i).live = true ∧ x.serial = (w.slots i).serial)
    (hidle : x.live = false → x.counted = false) {w' : World}
    (hslots : w'.slots = Function.update w.slots i x)
    (hlength : w'.history.length = w.history.length) : w'.Indexed := by
  have hslot (j : Slot) : w'.slots j = if j = i then x else w.slots j := by
    rw [hslots, Function.update_apply]
  constructor
  · intro j hj
    rw [hslot] at hj ⊢
    rw [hlength]
    split_ifs at hj ⊢
    · obtain ⟨hlive, hserial⟩ := hx hj
      rw [hserial]
      exact hw.serial_lt i hlive
    · exact hw.serial_lt j hj
  · intro j k hj hk hjk
    rw [hslot] at hj hk
    rw [hslot, hslot] at hjk
    split_ifs at hj hk hjk with hji hki hki
    · rw [hji, hki]
    · obtain ⟨hlive, hserial⟩ := hx hj
      rw [hserial] at hjk
      rw [hji]
      exact hw.serial_inj i k hlive hk hjk
    · obtain ⟨hlive, hserial⟩ := hx hk
      rw [hserial] at hjk
      rw [hki]
      exact hw.serial_inj j i hj hlive hjk
    · exact hw.serial_inj j k hj hk hjk
  · intro j hj
    rw [hslot] at hj ⊢
    split_ifs at hj ⊢
    · exact hidle hj
    · exact hw.idle j hj

/-- The outcomes of a step, as the index sees them. -/
theorem Indexed.land (hw : w.Indexed) (hlive : (w.slots i).live = true) {f : Focus}
    (hf : Alive (w.slots i).serial f ∨ f.x = Exchange.zero) : (w.land i f).Indexed := by
  apply hw.write i f.x
  · intro hx
    rcases hf with hf | hf
    · exact ⟨hlive, hf.serial⟩
    · simp [hf, Exchange.live, Exchange.zero] at hx
  · intro hx
    rcases hf with hf | hf
    · simp [hf.live] at hx
    · rw [hf]
      rfl
  · rfl
  · simp [World.land, refocus]

theorem freeSlot_spec (h : w.freeSlot = some i) :
    w.active < w.maxActive ∧ (w.slots i).live = false := by
  unfold freeSlot at h
  split_ifs at h with hfull
  have hfree := List.find?_some h
  refine ⟨?_, by simpa [Exchange.live] using hfree⟩
  rw [UInt64.lt_iff_toNat_lt]
  rw [UInt64.le_iff_toNat_le] at hfull
  omega

theorem Indexed.occupy (hw : w.Indexed) (i : Slot) (route : CfgRoute) :
    (w.occupy i route).Indexed := by
  have hslot (j : Slot) : (w.occupy i route).slots j = if j = i then
      { Exchange.zero with state := .starting, serial := w.history.length } else w.slots j := by
    simp only [World.occupy, Function.update_apply]
  have hlength : (w.occupy i route).history.length = w.history.length + 1 := by
    simp [World.occupy]
  constructor
  · intro j hj
    rw [hslot] at hj ⊢
    rw [hlength]
    split_ifs at hj ⊢
    · exact Nat.lt_succ_self _
    · exact lt_trans (hw.serial_lt j hj) (Nat.lt_succ_self _)
  · intro j k hj hk hjk
    rw [hslot] at hj hk
    rw [hslot, hslot] at hjk
    split_ifs at hj hk hjk with hji hki hki
    · rw [hji, hki]
    · exact absurd (hw.serial_lt k hk) (by simp at hjk; omega)
    · exact absurd (hw.serial_lt j hj) (by simp at hjk; omega)
    · exact hw.serial_inj j k hj hk hjk
  · intro j hj
    rw [hslot] at hj ⊢
    split_ifs at hj ⊢
    · rfl
    · exact hw.idle j hj

theorem occupy_live (w : World) (i : Slot) (route : CfgRoute) :
    ((w.occupy i route).slots i).live = true := by
  simp [occupy, Exchange.live]

theorem Stepped.indexed {a : Action} {w' : World} (hw : w.Indexed) (h : Stepped w a w') :
    w'.Indexed := by
  cases h with
  | looked t hact halike =>
    have hsame : World.Indexed { w with table := t } := ⟨hw.serial_lt, hw.serial_inj, hw.idle⟩
    exact hsame.of_alike halike
  | scribbled i x hfree hx hcounted halike =>
    have hwrite : World.Indexed { w with slots := Function.update w.slots i x } := by
      refine hw.write i x (fun hlive => ?_) (fun _ => hcounted) rfl rfl
      simp [hx] at hlive
    exact hwrite.of_alike halike
  | moved i e htarget hlive halike =>
    exact (hw.land hlive (exchangeStep_outcome (alive_focus hlive) e)).of_alike halike
  | started i s haction hfree halike =>
    have hocc := hw.occupy i s.route
    have hlive := occupy_live w i s.route
    exact (hocc.land hlive (startStep_outcome (alive_focus hlive) s)).of_alike halike

theorem boot_indexed (configured : Word) : (boot configured).Indexed :=
  ⟨fun _ h => by simp [boot, Exchange.live, Exchange.zero] at h,
    fun _ _ h => by simp [boot, Exchange.live, Exchange.zero] at h, fun _ _ => rfl⟩

end Actions
end World
end AsmFlow.Providers
