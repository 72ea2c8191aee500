import AsmFlow.Mcp.ExitOrder

/-!
# Batches of lists

Whatever happens to a server, its tools are marked as current exactly when the tools of the
last batch were committed and not dropped since: at most one request for the tools is under
way, and none once they are committed.
-/

namespace AsmFlow.Mcp

open Library

/-- No request for the tools is under way. -/
def NoTools (c : Child) : Prop := ∀ i k, c.calls i = some k → k.kind ≠ .tools

/-- Nothing was asked for or committed. -/
structure Calm (s t : Server) : Prop where
  http : t.http = s.http
  calls : Child.OnlyOld (· = .tools) s.child t.child
  state : t.child.state = .probing → s.child.state = .probing
  notify : t.notifyPending = true → s.notifyPending = true
  log : (t.child.flags.toolsCurrent = s.child.flags.toolsCurrent ∧
      toolsCommitted t.log = toolsCommitted s.log) ∨
    t.child.flags.toolsCurrent = false ∧ toolsCommitted t.log = false

/-- What holds of the lists of a server, also while an event is handled. -/
structure Batch (s : Server) : Prop where
  mark : s.child.flags.toolsCurrent = toolsCommitted s.log
  unique : ∀ i j k k', s.child.calls i = some k → s.child.calls j = some k' →
    k.kind = .tools → k'.kind = .tools → i = j
  settled : toolsCommitted s.log = true → NoTools s.child
  notifying : s.notifyPending = true → s.http = true ∧ NoTools s.child

/-- What holds of the lists of a server between the events. -/
structure Rested (s : Server) : Prop extends Batch s where
  probing : s.child.state = .probing → NoTools s.child ∧ s.notifyPending = false

/-- Nothing was asked for yet, or everything is forgotten. -/
structure Unasked (s : Server) : Prop where
  mark : s.child.flags.toolsCurrent = toolsCommitted s.log
  none : NoTools s.child
  idle : s.notifyPending = false

namespace NoTools

theorem onlyOld {c d : Child} (h : NoTools c) (hold : Child.OnlyOld (· = .tools) c d) :
    NoTools d := by
  intro i k hk htools
  obtain ⟨k', hk', hkind⟩ := hold i k hk htools
  exact h i k' hk' (hkind.trans htools)

theorem of_calls {c : Child} (h : ∀ i, c.calls i = none) : NoTools c := by
  intro i k hk
  rw [h i] at hk
  cases hk

end NoTools

namespace Calm

variable {s t u : Server}

theorem refl (s : Server) : Calm s s := ⟨rfl, .refl _, id, id, Or.inl ⟨rfl, rfl⟩⟩

theorem trans (h : Calm s t) (h' : Calm t u) : Calm s u where
  http := h'.http.trans h.http
  calls := h.calls.trans h'.calls
  state := h.state ∘ h'.state
  notify := h.notify ∘ h'.notify
  log := by
    rcases h'.log with ⟨hflag', hlog'⟩ | hdropped
    · rcases h.log with ⟨hflag, hlog⟩ | ⟨hflag, hlog⟩
      · exact Or.inl ⟨hflag'.trans hflag, hlog'.trans hlog⟩
      · exact Or.inr ⟨hflag'.trans hflag, hlog'.trans hlog⟩
    · exact Or.inr hdropped

theorem idle (h : Calm s t) (hidle : s.notifyPending = false) : t.notifyPending = false := by
  cases hpending : t.notifyPending with
  | false => rfl
  | true => exact (h.notify hpending).symm.trans hidle

/-- Only the record changes, and neither the mark nor the requests for the tools. -/
theorem withChild {c : Child} (hcalls : Child.OnlyOld (· = .tools) s.child c)
    (hstate : c.state = .probing → s.child.state = .probing)
    (hcurrent : c.flags.toolsCurrent = s.child.flags.toolsCurrent) : Calm s (s.withChild c) :=
  ⟨rfl, hcalls, hstate, id, Or.inl ⟨hcurrent, rfl⟩⟩

theorem of_eq {c : Child} (hcalls : c.calls = s.child.calls)
    (hstate : c.state = .probing → s.child.state = .probing)
    (hcurrent : c.flags.toolsCurrent = s.child.flags.toolsCurrent) : Calm s (s.withChild c) :=
  withChild (.of_eq hcalls) hstate hcurrent

/-- The record and the lists are those before. -/
theorem of_same (hhttp : t.http = s.http) (hchild : t.child = s.child) (hlog : t.log = s.log)
    (hnotify : t.notifyPending = true → s.notifyPending = true) : Calm s t := by
  refine ⟨hhttp, .of_eq (congrArg Child.calls hchild), ?_, hnotify, Or.inl ⟨?_, ?_⟩⟩
  · rw [hchild]
    exact id
  · rw [hchild]
  · rw [hlog]

theorem of_talks {c : Child} (h : s.child.Talks c) : Calm s (s.withChild c) :=
  withChild (h.old.mono fun _ _ => trivial) h.keeps.state.symm.trans h.keeps.toolsCurrent

theorem of_quiet (h : s.Quiet t) (hcalls : Child.OnlyOld (· = .tools) s.child t.child) :
    Calm s t :=
  ⟨h.http, hcalls, h.state.symm.trans, h.notify.symm.trans, h.log⟩

theorem release (s : Server) (i : Fin maxCalls) : Calm s (s.release i) :=
  of_talks (s.child.talks_release i)

theorem authorize (s : Server) (a : Transfer) : Calm s (s.authorize a) :=
  of_quiet (.authorize s a) (.of_eq (s.calls_authorize a))

theorem request (s : Server) (kind : CallKind) (hkind : kind ≠ .tools) (timeoutMs : ℕ)
    (a : ListAnswer) : Calm s (s.request kind timeoutMs a).1 :=
  of_quiet (s.request_spec kind timeoutMs a).quiet
    ((s.request_spec kind timeoutMs a).onlyOld hkind)

theorem setState (s : Server) (st : State) (hst : st ≠ .probing) :
    Calm s (s.withChild (s.child.setState st)) :=
  withChild (.of_eq rfl) (fun h => absurd h hst) rfl

/-- Nothing is known of the lists any more. -/
theorem dropView {c : Child} (hcalls : ∀ i, c.calls i = none)
    (hstate : c.state = .probing → s.child.state = .probing)
    (hcurrent : c.flags.toolsCurrent = false) : Calm s (s.withChild c).dropView := by
  have hchild : (s.withChild c).dropView.child = c := Server.child_dropView _
  refine ⟨Server.http_dropView _, ?_, ?_, ?_, Or.inr ⟨?_, ?_⟩⟩
  · rw [hchild]
    exact .of_none hcalls
  · rw [hchild]
    exact hstate
  · unfold Server.dropView
    split_ifs
    · intro hpending
      cases hpending
    · exact id
  · rw [hchild]
    exact hcurrent
  · unfold Server.dropView
    split_ifs <;> rfl

theorem invalidate (s : Server) : Calm s s.invalidate :=
  dropView (fun _ => rfl) id rfl

theorem teardown (s : Server) (killed : Bool) : Calm s (s.teardown killed) := by
  unfold Server.teardown
  split_ifs
  · exact invalidate s
  · refine dropView ?_ ?_ ?_
    · rw [Child.teardown_eq]
      exact fun _ => rfl
    · rw [Child.teardown_eq]
      exact id
    · rw [Child.teardown_eq]
      rfl

theorem scheduleRestart (s : Server) (a : FailAnswer) : Calm s (s.scheduleRestart a) := by
  refine withChild (.of_eq (s.child.calls_scheduleRestart a)) ?_ ?_
  · have hspec := s.child.scheduleRestart_spec a
    generalize s.child.scheduleRestart a = d at hspec
    cases hspec with
    | never => exact id
    | exhausted => exact State.noConfusion
    | restart => exact State.noConfusion
  · rw [s.child.flags_scheduleRestart a]

/-- A failure is passed over, or all that is known is dropped. -/
theorem childFailed (s : Server) (why : Status) (a : FailAnswer) : Calm s (s.childFailed why a) := by
  have hspec := s.child.childFailed_spec why a
  obtain ⟨b, hblame⟩ := s.child.blame_eq why
  obtain ⟨b', hgone⟩ := s.child.giveUp_eq why
  unfold Server.childFailed
  generalize s.child.childFailed why a = d at hspec
  dsimp only
  split_ifs with hignored
  · have hfalse {p : Prop} (hlatched : ¬(s.child.state = .crashLoop ∨ s.child.state = .disabled))
        (hstopping : s.child.flags.stopping = false) : p := by
      rcases hignored with h | h | h
      · exact absurd (Or.inl h) hlatched
      · exact absurd (Or.inr h) hlatched
      · exact absurd (hstopping.symm.trans h) Bool.noConfusion
    cases hspec with
    | latched => exact refl s
    | stopping =>
      rw [hblame]
      exact withChild (.of_eq rfl) id rfl
    | stopped h h' => exact hfalse h h'
    | living h h' => exact hfalse h h'
    | legacy h h' => exact hfalse h h'
    | scheduled h h' => exact hfalse h h'
  · rw [not_or, not_or] at hignored
    obtain ⟨hloop, hdisabled, hstopping⟩ := hignored
    have hview : d.calls = (fun _ => none) ∧ d.state ≠ .probing ∧
        d.flags.toolsCurrent = false := by
      cases hspec with
      | latched h => exact absurd h (not_or.mpr ⟨hloop, hdisabled⟩)
      | stopping _ h => exact absurd h hstopping
      | stopped =>
        rw [hgone]
        exact ⟨rfl, State.noConfusion, rfl⟩
      | living =>
        obtain ⟨t, o, hstop⟩ := (s.child.giveUp why).beginStop_eq a.elapsed
        rw [hstop, hgone]
        exact ⟨rfl, State.noConfusion, rfl⟩
      | legacy =>
        rw [hgone]
        exact ⟨rfl, State.noConfusion, rfl⟩
      | scheduled =>
        rw [Child.calls_scheduleRestart, Child.flags_scheduleRestart]
        have hspec := (s.child.giveUp why).scheduleRestart_spec a
        generalize (s.child.giveUp why).scheduleRestart a = e at hspec
        rw [hgone] at hspec ⊢
        refine ⟨rfl, ?_, rfl⟩
        cases hspec <;> exact State.noConfusion
    obtain ⟨hcalls, hstate, hcurrent⟩ := hview
    refine dropView ?_ (fun h => absurd h hstate) hcurrent
    rw [hcalls]
    exact fun _ => rfl

end Calm

namespace Unasked

variable {s t : Server}

theorem calm (h : Unasked s) (hcalm : Calm s t) : Unasked t where
  mark := by
    rcases hcalm.log with ⟨hflag, hlog⟩ | ⟨hflag, hlog⟩
    · rw [hflag, hlog]
      exact h.mark
    · rw [hflag, hlog]
  none := h.none.onlyOld hcalm.calls
  idle := hcalm.idle h.idle

theorem setState (h : Unasked s) (st : State) : Unasked (s.withChild (s.child.setState st)) :=
  ⟨h.mark, h.none, h.idle⟩

theorem init (http : Bool) (cfg : ServerConfig) : Unasked (Server.init http cfg) :=
  ⟨rfl, .of_calls fun _ => rfl, rfl⟩

theorem renew (s : Server) (manual : Bool) : Unasked (s.renew manual) :=
  ⟨rfl, .of_calls fun _ => rfl, rfl⟩

end Unasked

namespace Batch

variable {s t : Server}

theorem calm (h : Batch s) (hcalm : Calm s t) : Batch t where
  mark := by
    rcases hcalm.log with ⟨hflag, hlog⟩ | ⟨hflag, hlog⟩
    · rw [hflag, hlog]
      exact h.mark
    · rw [hflag, hlog]
  unique := by
    intro i j k k' hk hk' htools htools'
    obtain ⟨m, hm, hkind⟩ := hcalm.calls i k hk htools
    obtain ⟨m', hm', hkind'⟩ := hcalm.calls j k' hk' htools'
    exact h.unique i j m m' hm hm' (hkind.trans htools) (hkind'.trans htools')
  settled := by
    intro hcommitted
    rcases hcalm.log with ⟨-, hlog⟩ | ⟨-, hlog⟩
    · exact (h.settled (hlog.symm.trans hcommitted)).onlyOld hcalm.calls
    · rw [hlog] at hcommitted
      cases hcommitted
  notifying := by
    intro hpending
    obtain ⟨hhttp, hnone⟩ := h.notifying (hcalm.notify hpending)
    exact ⟨hcalm.http.trans hhttp, hnone.onlyOld hcalm.calls⟩

end Batch

theorem Rested.calm {s t : Server} (h : Rested s) (hcalm : Calm s t) : Rested t := by
  refine ⟨h.toBatch.calm hcalm, fun hstate => ?_⟩
  obtain ⟨hnone, hidle⟩ := h.probing (hcalm.state hstate)
  exact ⟨hnone.onlyOld hcalm.calls, hcalm.idle hidle⟩

namespace Server

variable (s : Server)

/-! ## Asking for the lists -/

/-- The only request for the tools is the one of a slot. -/
def OnlyAt (i : Fin maxCalls) (c : Child) : Prop :=
  ∀ j k, c.calls j = some k → k.kind = .tools → j = i

theorem OnlyAt.onlyOld {i : Fin maxCalls} {c d : Child} (h : OnlyAt i c)
    (hold : Child.OnlyOld (· = .tools) c d) : OnlyAt i d := by
  intro j k hk htools
  obtain ⟨k', hk', hkind⟩ := hold j k hk htools
  exact h j k' hk' (hkind.trans htools)

theorem OnlyAt.release {i : Fin maxCalls} {c : Child} (h : OnlyAt i c) : NoTools (c.release i) := by
  intro j k hk htools
  have hcalls : (c.release i).calls = Function.update c.calls i none := rfl
  rw [hcalls] at hk
  by_cases hj : j = i
  · rw [hj, Function.update_self] at hk
    cases hk
  · rw [Function.update_of_ne hj] at hk
    exact hj (h j k hk htools)

/-- What a batch that is asked for leaves. -/
structure Asks (s : Server) (r : Server × Status) : Prop where
  batch : Batch r.1
  state : r.1.child.state = s.child.state
  failed : r.2 < 0 → NoTools r.1.child ∧ (s.notifyPending = false → r.1.notifyPending = false)

theorem Asks.of_calm {s t : Server} {r : Server × Status} (hcalm : Calm s t)
    (hst : t.child.state = s.child.state) (h : Asks t r) : Asks s r :=
  ⟨h.batch, h.state.trans hst, fun hneg => ⟨(h.failed hneg).1, fun hidle =>
    (h.failed hneg).2 (hcalm.idle hidle)⟩⟩

section Collect

variable (J : JsonLibrary) (m : Memory)

end Collect

section Advance

variable (J : JsonLibrary) (m : Memory)

end Advance

/-! ## Starting -/

section Loop

variable (J : JsonLibrary) (m : Memory)

end Loop
end Server
end AsmFlow.Mcp
