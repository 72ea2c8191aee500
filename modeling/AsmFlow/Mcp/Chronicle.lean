import AsmFlow.Mcp.Accounts

/-!
# What the deeds of a server say

The restarts that were recorded since the last reset keep within the budget. The starts, the
stops and the resets of a server come in order: nothing is started for a server that an
operator holds, that has spent its budget or whose process is still there.
-/

namespace AsmFlow.Mcp

open Library

/-! ## The restarts since the last reset -/

/-- The restarts that are on record behind a deed. -/
def Deed.record (rs : List Scheduled) : Deed → List Scheduled
  | .scheduled r => rs ++ [r]
  | .reset => []
  | _ => rs

/-- The restarts that were recorded since the last reset. -/
def recorded (deeds : List Deed) : List Scheduled := deeds.foldl Deed.record []

theorem recorded_concat (ds : List Deed) (d : Deed) :
    recorded (ds ++ [d]) = d.record (recorded ds) := List.foldl_concat _ _ _ _

theorem recorded_append_idle (ds : List Deed) {es : List Deed} (h : ∀ e ∈ es, e.Idle) :
    recorded (ds ++ es) = recorded ds := by
  induction es using List.reverseRecOn with
  | nil => rw [List.append_nil]
  | append_singleton es e ih =>
    have hidle : e.Idle := h e (by simp)
    rw [← List.append_assoc, recorded_concat, ih fun x hx => h x (List.mem_append_left _ hx)]
    cases e with
    | scheduled r => exact hidle.elim
    | exhausted t => rfl
    | reset => exact hidle.elim
    | _ => rfl

def times (rs : List Scheduled) : List ℕ := rs.map Scheduled.time

/-- A restart that the budget has room for, behind those on record. -/
structure RestartPolicy.Allows (p : RestartPolicy) (pre : List Scheduled) (r : Scheduled) : Prop where
  admits : Admits (fun now => now - p.windowNs) p.maxRestarts (times pre) r.time
  due : r.time ≤ r.nextStart
  backoff : r.backoffMs ≤ p.maxBackoffMs
  grows : ∀ q, pre.getLast? = some q → r.time ≤ q.time + p.windowNs → q.backoffMs ≤ r.backoffMs

namespace Child

/-- What the budget of a record holds of the restarts on record. -/
structure Budgeted (p : RestartPolicy) (c : Child) : Prop where
  policy : c.cfg.restart = p
  clock : c.clock ≤ maxU64
  allowed : Justified p.Allows (recorded c.deeds)
  past : ∀ t ∈ times (recorded c.deeds), t ≤ c.clock
  kept : ∃ k ≤ c.clock - p.windowNs, c.budget.history = since k (times (recorded c.deeds))
  backoff : c.state ≠ .crashLoop → ∀ q, (recorded c.deeds).getLast? = some q →
    c.budget.backoffMs = q.backoffMs

namespace Budgeted

variable {p : RestartPolicy} {c d : Child}

theorem init (cfg : ServerConfig) : Budgeted cfg.restart (Child.init cfg) where
  policy := rfl
  clock := Nat.zero_le _
  allowed := justified_nil
  past := fun t ht => absurd ht List.not_mem_nil
  kept := ⟨0, Nat.zero_le _, rfl⟩
  backoff := by
    intro _ q hq
    cases hq

theorem leaves (h : c.Budgeted p) (hd : c.Leaves d) : d.Budgeted p := by
  obtain ⟨hcd, hclock⟩ := hd.clock h.clock
  have hrecorded : recorded d.deeds = recorded c.deeds := by
    obtain ⟨ds, hds, hidle⟩ := hd.deeds
    rw [hds, recorded_append_idle _ hidle]
  obtain ⟨k, hk, hkept⟩ := h.kept
  refine ⟨?_, hclock, ?_, ?_, ⟨k, hk.trans (Nat.sub_le_sub_right hcd _), ?_⟩, ?_⟩
  · rw [hd.cfg]
    exact h.policy
  · rw [hrecorded]
    exact h.allowed
  · rw [hrecorded]
    exact fun t ht => (h.past t ht).trans hcd
  · rw [hrecorded, hd.budget]
    exact hkept
  · rw [hrecorded, hd.budget]
    exact fun hstate => h.backoff (mt hd.looping.mpr hstate)

theorem cleared (h : c.Budgeted p) (hd : c.Cleared d) : d.Budgeted p := by
  have hrecorded : recorded d.deeds = [] := by
    rw [hd.deeds, recorded_concat]
    rfl
  refine ⟨?_, ?_, ?_, ?_, ⟨0, Nat.zero_le _, ?_⟩, ?_⟩
  · rw [hd.cfg]
    exact h.policy
  · rw [hd.clock]
    exact h.clock
  · rw [hrecorded]
    exact justified_nil
  · rw [hrecorded]
    exact fun t ht => absurd ht List.not_mem_nil
  · rw [hrecorded, hd.budget]
    rfl
  · rw [hrecorded]
    intro _ q hq
    cases hq

/-- The history behind the dropping of what is too old. -/
theorem since_history (h : c.Budgeted p) {now : ℕ} (hnow : c.clock ≤ now) :
    since (now - p.windowNs) c.budget.history =
      since (now - p.windowNs) (times (recorded c.deeds)) := by
  obtain ⟨k, hk, hkept⟩ := h.kept
  rw [hkept, since_since (hk.trans (Nat.sub_le_sub_right hnow _))]

/-- A back-off grows while the restart before is still in the window. -/
theorem grows (h : c.Budgeted p) (hpaced : c.Paced) (hstate : c.state ≠ .crashLoop) {now : ℕ}
    (hnow : c.clock ≤ now) (stale : ℕ) {q : Scheduled} (hq : (recorded c.deeds).getLast? = some q)
    (hwindow : now ≤ q.time + p.windowNs) :
    q.backoffMs ≤
      p.nextBackoff (RestartPolicy.compact c.budget (now - p.windowNs)).backoffMs stale := by
  have hmem : q.time ∈ times (recorded c.deeds) :=
    List.mem_map.mpr ⟨q, List.mem_of_getLast? hq, rfl⟩
  have hkept : q.time ∈ since (now - p.windowNs) c.budget.history := by
    rw [h.since_history hnow, mem_since]
    exact ⟨hmem, Nat.sub_le_iff_le_add.mpr hwindow⟩
  have hsame : (RestartPolicy.compact c.budget (now - p.windowNs)).backoffMs =
      c.budget.backoffMs := by
    unfold RestartPolicy.compact
    exact if_neg (List.ne_nil_of_mem hkept)
  have hle := hpaced.backoff
  rw [h.policy] at hle
  rw [hsame, ← h.backoff hstate q hq]
  exact (p.nextBackoff_of_le hle stale).2

theorem schedules (h : c.Budgeted p) (hpaced : c.Paced) (hstate : c.state ≠ .crashLoop)
    {stale : ℕ} (hnow : c.clock ≤ d.clock) (hclock : d.clock ≤ maxU64) (hcfg : d.cfg = c.cfg)
    (hverdict : c.cfg.restart.schedule c.budget d.clock stale = .restart d.budget d.nextStart)
    (hrecorded : recorded d.deeds =
      recorded c.deeds ++ [⟨d.clock, d.nextStart, d.budget.backoffMs⟩]) : d.Budgeted p := by
  rw [h.policy] at hverdict
  have hgrants := RestartPolicy.schedule_restart hverdict
  have hle := (RestartPolicy.compact_backoff_le c.budget (d.clock - p.windowNs)).trans hpaced.backoff
  rw [h.policy] at hle
  have hpast : ∀ t ∈ times (recorded c.deeds), t ≤ d.clock := fun t ht => (h.past t ht).trans hnow
  have htimes : times (recorded d.deeds) = times (recorded c.deeds) ++ [d.clock] := by
    rw [hrecorded, times, List.map_append]
    rfl
  refine ⟨hcfg ▸ h.policy, hclock, ?_, ?_, ⟨d.clock - p.windowNs, le_rfl, ?_⟩, ?_⟩
  · rw [hrecorded, justified_concat]
    refine ⟨h.allowed, ⟨hpast, ?_⟩, ?_, ?_, ?_⟩
    · rw [← length_since hpast, ← h.since_history hnow]
      exact hgrants.room
    · show d.clock ≤ d.nextStart
      rw [hgrants.deadline]
      exact le_deadline hclock _
    · show d.budget.backoffMs ≤ p.maxBackoffMs
      rw [hgrants.backoff]
      exact (p.nextBackoff_of_le hle stale).1
    · intro q hq hwindow
      show q.backoffMs ≤ d.budget.backoffMs
      rw [hgrants.backoff]
      exact h.grows hpaced hstate hnow stale hq hwindow
  · intro t ht
    rw [htimes] at ht
    rcases List.mem_append.mp ht with ht | ht
    · exact hpast t ht
    · exact (List.mem_singleton.mp ht).le
  · rw [hgrants.history, htimes, since_concat (Nat.sub_le _ _), h.since_history hnow]
  · intro _ q hq
    rw [hrecorded, List.getLast?_concat, Option.some.injEq] at hq
    rw [← hq]

theorem exhausts (h : c.Budgeted p) (hpaced : c.Paced) {stale : ℕ} (hnow : c.clock ≤ d.clock)
    (hclock : d.clock ≤ maxU64) (hcfg : d.cfg = c.cfg) (hstate : d.state = .crashLoop)
    (hverdict : c.cfg.restart.schedule c.budget d.clock stale = .crashLoop d.budget)
    (hrecorded : recorded d.deeds = recorded c.deeds) : d.Budgeted p := by
  obtain ⟨hsame, -⟩ := RestartPolicy.schedule_crashLoop hpaced.history_le hverdict
  rw [h.policy] at hsame
  refine ⟨hcfg ▸ h.policy, hclock, ?_, ?_, ⟨d.clock - p.windowNs, le_rfl, ?_⟩, ?_⟩
  · rw [hrecorded]
    exact h.allowed
  · rw [hrecorded]
    exact fun t ht => (h.past t ht).trans hnow
  · rw [hrecorded, hsame]
    exact h.since_history hnow
  · exact fun hnot => absurd hstate hnot

theorem accounts (h : c.Budgeted p) (hpaced : c.Paced) (hd : c.Accounts d) : d.Budgeted p := by
  have hsteps {e : Child} (he : c.Leaves e)
      (hclock : e.clock ≤ maxU64 → e.clock ≤ d.clock ∧ d.clock ≤ maxU64) :
      c.clock ≤ d.clock ∧ d.clock ≤ maxU64 ∧ recorded e.deeds = recorded c.deeds := by
    obtain ⟨hce, hle⟩ := he.clock h.clock
    obtain ⟨hed, hd⟩ := hclock hle
    obtain ⟨ds, hds, hidle⟩ := he.deeds
    exact ⟨hce.trans hed, hd, by rw [hds, recorded_append_idle _ hidle]⟩
  cases hd with
  | leaves hleaves => exact h.leaves hleaves
  | schedules b stale e he hbefore hclock hverdict hcfg hbudget hstate hdeeds =>
    obtain ⟨hnow, hle, hsame⟩ := hsteps he hclock
    rw [← hbudget] at hverdict hdeeds
    refine h.schedules hpaced hbefore hnow hle hcfg hverdict ?_
    rw [hdeeds, recorded_concat, hsame]
    rfl
  | exhausts b stale e he hbefore hclock hverdict hcfg hbudget hstate hdeeds =>
    obtain ⟨hnow, hle, hsame⟩ := hsteps he hclock
    rw [← hbudget] at hverdict
    refine h.exhausts hpaced hnow hle hcfg hstate hverdict ?_
    rw [hdeeds, recorded_concat, hsame]
    rfl

theorem move {http : Bool} (hsound : Sound http c) (hpaced : c.Paced) (h : c.Budgeted p)
    (hmove : Move http c d) : d.Budgeted p := by
  rcases Accounts.move hsound hmove with haccounts | hcleared
  · exact h.accounts hpaced haccounts
  · exact h.cleared hcleared

end Budgeted
end Child

/-! ## The order of the deeds -/

/-- An operator holds the server, behind a deed. -/
def Deed.holds (b : Bool) : Deed → Bool
  | .stopped => true
  | .resumed => false
  | _ => b

/-- The budget is spent, behind a deed. -/
def Deed.spends (b : Bool) : Deed → Bool
  | .exhausted _ => true
  | .reset => false
  | _ => b

/-- A stop of an operator stands. -/
def held (deeds : List Deed) : Bool := deeds.foldl Deed.holds false

/-- The budget was spent, and not reset since. -/
def spent (deeds : List Deed) : Bool := deeds.foldl Deed.spends false

theorem held_concat (ds : List Deed) (d : Deed) : held (ds ++ [d]) = d.holds (held ds) :=
  List.foldl_concat _ _ _ _

theorem spent_concat (ds : List Deed) (d : Deed) : spent (ds ++ [d]) = d.spends (spent ds) :=
  List.foldl_concat _ _ _ _

/-- A deed comes when it may. -/
def Orderly (spent held : Bool) : Deed → Prop
  | .spawned state pid pgid _ _ =>
    spent = false ∧ held = false ∧ pid = 0 ∧ pgid = 0 ∧ state ≠ .crashLoop ∧ state ≠ .disabled
  | .scheduled _ | .exhausted _ | .granted | .restarted => spent = false ∧ held = false
  | .stopped | .resumed => spent = false
  | .reset => spent = true ∧ held = false

namespace Child

/-- One deed is noted, or none, and the record says what the deeds say. -/
structure Notes (c : Child) (x : Option Deed) (d : Child) : Prop where
  deeds : d.deeds = c.deeds ++ x.toList
  orderly : ∀ y ∈ x, Orderly (decide (c.state = .crashLoop)) c.flags.manualStop y
  held : d.flags.manualStop = x.elim c.flags.manualStop (Deed.holds c.flags.manualStop)
  looping : decide (d.state = .crashLoop) =
    x.elim (decide (c.state = .crashLoop)) (Deed.spends (decide (c.state = .crashLoop)))
  disabled : d.state = .disabled ↔ c.state = .disabled
  enabled : c.state = .disabled → x = none

/-- Deeds are noted, one behind the other. -/
abbrev Chronicles : Child → Child → Prop := Relation.ReflTransGen fun c d => ∃ x, c.Notes x d

/-- The server is neither disabled nor out of restarts. -/
def Open (c : Child) : Prop := ¬(c.state = .crashLoop ∨ c.state = .disabled)

namespace Notes

variable {c d : Child}

theorem quiet (hdeeds : d.deeds = c.deeds) (hheld : d.flags.manualStop = c.flags.manualStop)
    (hstate : d.state = c.state) : c.Notes none d := by
  refine ⟨?_, ?_, hheld, ?_, ?_, fun _ => rfl⟩
  · rw [hdeeds]
    exact (List.append_nil _).symm
  · intro y hy
    cases hy
  · rw [hstate]
    rfl
  · rw [hstate]

/-- From one state to another that are no matter of the order. -/
theorem among (hc : c.Open) (hd : d.Open) {x : Option Deed} (hdeeds : d.deeds = c.deeds ++ x.toList)
    (hx : ∀ y ∈ x, Orderly false c.flags.manualStop y)
    (hheld : d.flags.manualStop = x.elim c.flags.manualStop (Deed.holds c.flags.manualStop))
    (hspends : ∀ y ∈ x, y.spends false = false) : c.Notes x d := by
  have hloop : decide (c.state = .crashLoop) = false := decide_eq_false fun h => hc (Or.inl h)
  have hloop' : decide (d.state = .crashLoop) = false := decide_eq_false fun h => hd (Or.inl h)
  refine ⟨hdeeds, ?_, hheld, ?_, iff_of_false (fun h => hd (Or.inr h)) fun h => hc (Or.inr h),
    fun h => absurd (Or.inr h) hc⟩
  · rw [hloop]
    exact hx
  · rw [hloop, hloop']
    cases x with
    | none => rfl
    | some y => exact (hspends y rfl).symm

theorem chronicles {x : Option Deed} (h : c.Notes x d) : c.Chronicles d := .single ⟨x, h⟩

end Notes

section Chronicles

variable {c d : Child}

theorem open_of {st : State} (hst : st ≠ .crashLoop ∧ st ≠ .disabled) (h : c.state = st) :
    c.Open := by
  unfold Open
  rw [h]
  exact not_or.mpr hst

theorem open_stopped : c.state = .stopped → c.Open :=
  open_of ⟨State.noConfusion, State.noConfusion⟩

theorem open_restarting : c.state = .restarting → c.Open :=
  open_of ⟨State.noConfusion, State.noConfusion⟩

theorem open_failed : c.state = .failed → c.Open :=
  open_of ⟨State.noConfusion, State.noConfusion⟩

theorem chronicles_quiet (hdeeds : d.deeds = c.deeds)
    (hheld : d.flags.manualStop = c.flags.manualStop) (hstate : d.state = c.state) :
    c.Chronicles d :=
  (Notes.quiet hdeeds hheld hstate).chronicles

/-- Nothing is noted, and neither state is a matter of the order. -/
theorem chronicles_among (hc : c.Open) (hd : d.Open) (hdeeds : d.deeds = c.deeds)
    (hheld : d.flags.manualStop = c.flags.manualStop) : c.Chronicles d := by
  refine Notes.chronicles (x := none) (.among hc hd ?_ ?_ hheld ?_)
  · rw [hdeeds]
    exact (List.append_nil _).symm
  · intro y hy
    cases hy
  · intro y hy
    cases hy

/-- A deed for a server that nobody holds. -/
theorem chronicles_free (hc : c.Open) (hd : d.Open) (hfree : c.flags.manualStop = false) {x : Deed}
    (hdeeds : d.deeds = c.deeds ++ [x]) (hx : Orderly false false x)
    (hheld : d.flags.manualStop = x.holds false) (hspends : x.spends false = false) :
    c.Chronicles d := by
  refine Notes.chronicles (x := some x) (.among hc hd hdeeds ?_ ?_ ?_)
  · rintro y ⟨rfl⟩
    rw [hfree]
    exact hx
  · rw [hfree]
    exact hheld
  · rintro y ⟨rfl⟩
    exact hspends

theorem chronicles_scheduleRestart (hc : c.Open) (hfree : c.flags.manualStop = false)
    (a : FailAnswer) : c.Chronicles (c.scheduleRestart a) := by
  have hspec := c.scheduleRestart_spec a
  generalize c.scheduleRestart a = d at hspec
  cases hspec with
  | never => exact .refl
  | exhausted b hverdict =>
    have hloop : decide (c.state = .crashLoop) = false := decide_eq_false fun h => hc (Or.inl h)
    refine Notes.chronicles (x := some _) ⟨rfl, ?_, rfl, rfl, ?_, ?_⟩
    · rintro y ⟨rfl⟩
      exact ⟨hloop, hfree⟩
    · exact iff_of_false State.noConfusion fun h => hc (Or.inr h)
    · exact fun h => absurd (Or.inr h) hc
  | restart b t hverdict =>
    exact chronicles_free hc (open_restarting rfl) hfree rfl ⟨rfl, rfl⟩ hfree rfl

theorem chronicles_resume (hc : c.Open) : c.Chronicles c.resume := by
  have hopen : c.resume.Open := hc
  refine Notes.chronicles (x := some .resumed) (.among hc hopen rfl ?_ rfl ?_)
  · rintro y ⟨rfl⟩
    rfl
  · rintro y ⟨rfl⟩
    rfl

theorem open_giveUp (c : Child) (why : Status) : (c.giveUp why).Open := by
  obtain ⟨b, hb⟩ := c.giveUp_eq why
  rw [hb]
  exact open_failed rfl

theorem chronicles_startNow (hc : c.Open) (hfree : c.flags.manualStop = false) :
    c.Chronicles c.startNow :=
  chronicles_free hc (open_restarting rfl) hfree rfl ⟨rfl, rfl⟩ hfree rfl

theorem chronicles_childFailed (c : Child) (why : Status) (a : FailAnswer) :
    c.Chronicles (c.childFailed why a) := by
  obtain ⟨b, hblame⟩ := c.blame_eq why
  obtain ⟨b', hb'⟩ := c.giveUp_eq why
  have hopen := c.open_giveUp why
  have hmanual : (c.giveUp why).flags.manualStop = c.flags.manualStop := by
    rw [hb']
    rfl
  have hgone (hstate : c.Open) : c.Chronicles (c.giveUp why) :=
    chronicles_among hstate hopen (by rw [hb']; rfl) hmanual
  have hspec := c.childFailed_spec why a
  generalize c.childFailed why a = d at hspec
  cases hspec with
  | latched => exact .refl
  | stopping =>
    rw [hblame]
    exact chronicles_quiet rfl rfl rfl
  | stopped hstate => exact hgone hstate
  | living hstate =>
    obtain ⟨t, o, hstop⟩ := (c.giveUp why).beginStop_eq a.elapsed
    rw [hstop]
    exact (hgone hstate).trans (chronicles_quiet rfl rfl rfl)
  | legacy hstate _ hfree =>
    exact (hgone hstate).trans (chronicles_startNow hopen (hmanual.trans hfree))
  | scheduled hstate _ hfree =>
    exact (hgone hstate).trans (chronicles_scheduleRestart hopen (hmanual.trans hfree) a)

theorem chronicles_onExit (hc : c.Open) (a : FailAnswer) : c.Chronicles (c.onExit a) := by
  have hunstop : c.Chronicles c.unstop := chronicles_quiet rfl rfl rfl
  have hexit := c.onExit_spec a
  generalize c.onExit a = e at hexit
  cases hexit with
  | halted =>
    exact chronicles_among hc (open_stopped rfl) rfl rfl
  | still =>
    exact chronicles_among hc (open_stopped rfl) rfl rfl
  | legacy _ _ hfree => exact hunstop.trans (chronicles_startNow (c := c.unstop) hc hfree)
  | manual _ _ hfree =>
    exact hunstop.trans
      (chronicles_free (c := c.unstop) hc (open_restarting rfl) hfree rfl ⟨rfl, rfl⟩ hfree rfl)
  | scheduled _ _ hfree =>
    exact hunstop.trans (chronicles_scheduleRestart (c := c.unstop) hc hfree a)
  | clean =>
    exact chronicles_among hc (open_stopped rfl) rfl rfl
  | failed => exact c.chronicles_childFailed _ a

/-- Every move is told by the deeds. -/
theorem chronicles_move {http : Bool} (hsound : Sound http c)
    (hapart : c.state = .crashLoop → c.flags.manualStop = false) (h : Move http c d) :
    c.Chronicles d := by
  cases h with
  | steady hsteady =>
    have halike := hsteady.alike
    have hloop : d.state = .crashLoop ↔ c.state = .crashLoop := halike.state_iff rfl
    refine Notes.chronicles (x := none) ⟨?_, ?_, halike.flag Flags.manualStop fun _ => rfl, ?_,
      halike.state_iff rfl, fun _ => rfl⟩
    · rw [halike.deeds]
      exact (List.append_nil _).symm
    · intro y hy
      cases hy
    · exact decide_eq_decide.mpr hloop
  | fail why a => exact c.chronicles_childFailed why a
  | timeout _ i k _ _ _ a =>
    have hset : c.Chronicles ((c.release i).withFlags ({ · with legacyNext := true })) :=
      chronicles_quiet rfl rfl rfl
    exact hset.trans (chronicles_childFailed _ _ a)
  | hangUp why a =>
    have hdrop : c.Chronicles (c.dropStdout why) := by
      unfold dropStdout
      split_ifs
      · exact chronicles_quiet rfl rfl rfl
      · exact chronicles_quiet rfl rfl rfl
    exact hdrop.trans (chronicles_childFailed _ why a)
  | wait now =>
    obtain ⟨t, b, hwait⟩ := c.advanceShutdown_eq now
    rw [hwait]
    exact chronicles_quiet rfl rfl rfl
  | exit hpid r killed a =>
    have htorn : ((c.collect r).torn http killed).deeds = c.deeds ∧
        ((c.collect r).torn http killed).flags.manualStop = c.flags.manualStop ∧
        ((c.collect r).torn http killed).state = c.state := by
      unfold torn
      rw [teardown_eq]
      split_ifs <;> cases r <;> exact ⟨rfl, rfl, rfl⟩
    obtain ⟨hdeeds, hheld, hstate⟩ := htorn
    have hopen : ((c.collect r).torn http killed).Open := by
      unfold Open
      rw [hstate]
      exact fun hlatched => hpid.ne' (hsound.latched hlatched)
    exact (chronicles_quiet hdeeds hheld hstate).trans (chronicles_onExit hopen a)
  | retry hpid killed =>
    unfold torn
    rw [teardown_eq]
    by_cases hhttp : http = true
    · rw [if_pos hhttp]
      exact chronicles_quiet rfl rfl rfl
    · rw [if_neg hhttp]
      exact chronicles_quiet rfl rfl rfl
  | fallen may manual hdue hfallen a =>
    have hfree := hsound.due hdue
    have hopen := open_failed hfallen.state
    have hspawned : c.Chronicles _ := chronicles_free (not_or.mpr ⟨may.notLooping, may.notDisabled⟩)
      hopen hfree hfallen.deeds ⟨rfl, rfl, may.pid, may.pgid, may.notLooping, may.notDisabled⟩
      (hfallen.manualStop.trans hfree) rfl
    exact hspawned.trans (chronicles_scheduleRestart hopen (hfallen.manualStop.trans hfree) a)
  | begun may manual hdue hbegun =>
    have hfree := hsound.due hdue
    exact chronicles_free (not_or.mpr ⟨may.notLooping, may.notDisabled⟩)
      (open_of ⟨State.noConfusion, State.noConfusion⟩ hbegun.state) hfree hbegun.deeds
      ⟨rfl, rfl, may.pid, may.pgid, may.notLooping, may.notDisabled⟩
      (hbegun.manualStop.trans hfree) rfl
  | resume hstate => exact chronicles_resume hstate
  | stop hstate manual hhalt =>
    have hopen : d.Open := by
      rcases hhalt.outcome with ⟨-, hstopped⟩ | ⟨-, -, hst, -, -⟩
      · exact open_stopped hstopped
      · cases manual with
        | false =>
          unfold Open
          rw [hst]
          exact hstate
        | true => exact open_stopped hst
    cases manual with
    | false =>
      exact chronicles_among hstate hopen (hhalt.deeds.trans (List.append_nil _)) hhalt.manualStop
    | true =>
      refine Notes.chronicles (x := some .stopped) (.among hstate hopen hhalt.deeds ?_
        hhalt.manualStop ?_)
      · rintro y ⟨rfl⟩
        rfl
      · rintro y ⟨rfl⟩
        rfl
  | requeue hstate hgone =>
    have hspec := c.requeue_spec
    generalize c.requeue = d at hspec
    exact (chronicles_resume hstate).trans (chronicles_free (c := c.resume) hstate
      (open_restarting hspec.state) rfl hspec.deeds ⟨rfl, rfl⟩ hspec.manualStop rfl)
  | recycle hstate hpid elapsed =>
    have hspec := c.recycle_spec elapsed
    generalize c.recycle elapsed = d at hspec
    exact (chronicles_resume hstate).trans (chronicles_among (c := c.resume) hstate
      (open_restarting hspec.state) hspec.deeds hspec.manualStop)
  | reset =>
    rcases c.reset_spec with hsame | hcleared
    · rw [hsame]
    · have hloop : decide (c.state = .crashLoop) = true := decide_eq_true hcleared.before
      have hfree := hapart hcleared.before
      refine Notes.chronicles (x := some .reset) ⟨hcleared.deeds, ?_, ?_, ?_, ?_, ?_⟩
      · rintro y ⟨rfl⟩
        exact ⟨hloop, hfree⟩
      · exact hcleared.manualStop.trans hfree.symm
      · rw [hcleared.state]
        rfl
      · rw [hcleared.state, hcleared.before]
        exact iff_of_false State.noConfusion State.noConfusion
      · rw [hcleared.before]
        exact State.noConfusion

end Chronicles

/-- The record agrees with the deeds, and each of them came when it might. -/
structure Chronicled (enabled : Bool) (c : Child) : Prop where
  orderly : Justified (fun pre x => Orderly (spent pre) (AsmFlow.Mcp.held pre) x) c.deeds
  held : c.flags.manualStop = AsmFlow.Mcp.held c.deeds
  spent : decide (c.state = .crashLoop) = AsmFlow.Mcp.spent c.deeds
  apart : c.state = .crashLoop → c.flags.manualStop = false
  disabled : c.state = .disabled ↔ enabled = false
  idle : enabled = false → c.deeds = []

namespace Chronicled

variable {enabled : Bool} {c d : Child}

theorem init (cfg : ServerConfig) : Chronicled cfg.enabled (Child.init cfg) where
  orderly := justified_nil
  held := rfl
  spent := by
    unfold Child.init
    cases cfg.enabled <;> rfl
  apart := fun _ => rfl
  disabled := by
    unfold Child.init
    cases cfg.enabled <;> simp
  idle := fun _ => rfl

theorem notes (h : c.Chronicled enabled) {x : Option Deed} (hx : c.Notes x d) :
    d.Chronicled enabled := by
  have hdisabled : d.state = .disabled ↔ enabled = false := hx.disabled.trans h.disabled
  have hidle : enabled = false → d.deeds = [] := by
    intro hfalse
    rw [hx.deeds, h.idle hfalse, hx.enabled (h.disabled.mpr hfalse)]
    rfl
  cases x with
  | none =>
    have hdeeds : d.deeds = c.deeds := hx.deeds.trans (List.append_nil _)
    refine ⟨?_, ?_, ?_, ?_, hdisabled, hidle⟩
    · rw [hdeeds]
      exact h.orderly
    · rw [hdeeds]
      exact hx.held.trans h.held
    · rw [hdeeds]
      exact hx.looping.trans h.spent
    · intro hloop
      exact hx.held.trans (h.apart ((decide_eq_decide.mp hx.looping).mp hloop))
  | some y =>
    have hdeeds : d.deeds = c.deeds ++ [y] := hx.deeds
    have horderly := hx.orderly y rfl
    have hheld : d.flags.manualStop = y.holds c.flags.manualStop := hx.held
    have hloops : decide (d.state = .crashLoop) = y.spends (decide (c.state = .crashLoop)) :=
      hx.looping
    refine ⟨?_, ?_, ?_, ?_, hdisabled, hidle⟩
    · rw [hdeeds, justified_concat]
      refine ⟨h.orderly, ?_⟩
      rwa [← h.spent, ← h.held]
    · rw [hdeeds, held_concat, ← h.held]
      exact hheld
    · rw [hdeeds, spent_concat, ← h.spent]
      exact hloops
    · intro hloop
      rw [hheld]
      rw [hloop, decide_eq_true rfl] at hloops
      have hsame (hspends : y.spends (decide (c.state = .crashLoop)) = decide (c.state = .crashLoop))
          (hholds : y.holds c.flags.manualStop = c.flags.manualStop) :
          y.holds c.flags.manualStop = false := by
        rw [hholds]
        exact h.apart (of_decide_eq_true (hloops.trans hspends).symm)
      cases y with
      | exhausted t => exact horderly.2
      | stopped => exact absurd (hloops.trans horderly) Bool.noConfusion
      | resumed => rfl
      | reset => cases hloops
      | spawned => exact hsame rfl rfl
      | scheduled => exact hsame rfl rfl
      | granted => exact hsame rfl rfl
      | restarted => exact hsame rfl rfl

theorem move {http : Bool} (hsound : Sound http c) (h : c.Chronicled enabled)
    (hmove : Move http c d) : d.Chronicled enabled := by
  have hchain := chronicles_move hsound h.apart hmove
  clear hmove
  induction hchain with
  | refl => exact h
  | tail _ hlast ih =>
    obtain ⟨x, hx⟩ := hlast
    exact ih.notes hx

end Chronicled
end Child

namespace Server

variable (J : JsonLibrary)

/-- Between two resets a server is not restarted more often than its policy says in any window,
at no time before it was decided, and behind back-offs that grow while the window is not
empty. -/
theorem restarts_within_budget (http : Bool) (cfg : ServerConfig) (es : List Event) :
    let rs := recorded (run (step J) (init http cfg) es).child.deeds
    (∀ a b, b ≤ a + cfg.restart.windowNs → countIn (times rs) a b ≤ cfg.restart.maxRestarts) ∧
      (times rs).Pairwise (· ≤ ·) ∧
      (∀ r ∈ rs, r.time ≤ r.nextStart ∧ r.backoffMs ≤ cfg.restart.maxBackoffMs) ∧
      ∀ pre q r post, rs = pre ++ q :: r :: post → r.time ≤ q.time + cfg.restart.windowNs →
        q.backoffMs ≤ r.backoffMs := by
  have hrun := throughout_of_move J
    (P := fun c => Child.Sound http c ∧ c.Paced ∧ c.Budgeted cfg.restart)
    (by
      rintro c d ⟨hsound, hpaced, hbudgeted⟩ hmove
      exact ⟨hsound.move hmove, hpaced.move hsound hmove, .move hsound hpaced hbudgeted hmove⟩)
    (s := init http cfg) ⟨rfl, .init cfg, .init cfg, .init cfg⟩ es
  obtain ⟨-, -, -, hbudgeted⟩ := hrun.last
  intro rs
  have hallowed : Justified cfg.restart.Allows rs := hbudgeted.allowed
  have htimes : Justified (Admits (fun now => now - cfg.restart.windowNs) cfg.restart.maxRestarts)
      (times rs) := by
    rintro pre t post heq
    obtain ⟨qs, us, hsplit, rfl, hus⟩ := List.map_eq_append_iff.mp heq
    obtain ⟨r, vs, rfl, rfl, -⟩ := List.map_eq_cons_iff.mp hus
    exact (hallowed qs r vs hsplit).admits
  refine ⟨?_, ?_, ?_, ?_⟩
  · intro a b hab
    exact htimes.countIn_le cfg.restart.monotone_cutoff (Nat.sub_le_iff_le_add.mpr hab)
  · exact Justified.sorted (htimes.mono fun _ _ h => h.1)
  · intro r hr
    obtain ⟨pre, post, heq⟩ := List.append_of_mem hr
    exact ⟨(hallowed pre r post heq).due, (hallowed pre r post heq).backoff⟩
  · intro pre q r post heq hwindow
    have hsplit : rs = (pre ++ [q]) ++ r :: post := by rw [heq, List.append_assoc]; rfl
    exact (hallowed _ r post hsplit).grows q List.getLast?_concat hwindow

/-- Whatever happens to a server, nothing is started for it whose process or process group is
still on record, nor while a stop of an operator stands or behind the end of its budget; only
a reset takes back the end of the budget, and a disabled server does nothing. -/
theorem deeds_orderly (http : Bool) (cfg : ServerConfig) (es : List Event) :
    let c := (run (step J) (init http cfg) es).child
    Justified (fun pre x => Orderly (spent pre) (held pre) x) c.deeds ∧
      (c.state = .crashLoop ↔ spent c.deeds = true) ∧
      c.flags.manualStop = held c.deeds ∧
      (c.state = .crashLoop ∨ c.state = .disabled → c.pid = 0) ∧
      (c.state = .disabled ↔ cfg.enabled = false) ∧ (cfg.enabled = false → c.deeds = []) := by
  have hrun := throughout_of_move J
    (P := fun c => Child.Sound http c ∧ c.Chronicled cfg.enabled)
    (by
      rintro c d ⟨hsound, hchronicled⟩ hmove
      exact ⟨hsound.move hmove, .move hsound hchronicled hmove⟩)
    (s := init http cfg) ⟨rfl, .init cfg, .init cfg⟩ es
  obtain ⟨-, hsound, hchronicled⟩ := hrun.last
  intro c
  refine ⟨hchronicled.orderly, ?_, hchronicled.held, hsound.latched, hchronicled.disabled,
    hchronicled.idle⟩
  rw [← hchronicled.spent, decide_eq_true_iff]

end Server
end AsmFlow.Mcp
