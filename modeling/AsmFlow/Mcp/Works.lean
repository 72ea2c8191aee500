import AsmFlow.Mcp.Moves

/-!
# A server at work

The requests of a server and what an advance does, taken apart into the moves of its record:
the work goes on, or the server fails.
-/

namespace AsmFlow.Mcp

namespace Server

/-- Only the credentials may have changed. -/
structure Quiet (s t : Server) : Prop where
  http : t.http = s.http
  alike : s.child.Alike t.child
  state : t.child.state = s.child.state
  clock : s.child.clock ≤ maxU64 → s.child.clock ≤ t.child.clock ∧ t.child.clock ≤ maxU64
  notify : t.notifyPending = s.notifyPending
  log : t.child.flags.toolsCurrent = s.child.flags.toolsCurrent ∧
      toolsCommitted t.log = toolsCommitted s.log ∨
    t.child.flags.toolsCurrent = false ∧ toolsCommitted t.log = false

namespace Quiet

theorem of_keeps {s : Server} {c : Child} (h : s.child.Keeps c) : s.Quiet (s.withChild c) :=
  ⟨rfl, congrArg Standing.working h.standing, h.state, h.clock, rfl, Or.inl ⟨h.toolsCurrent, rfl⟩⟩

theorem refl (s : Server) : s.Quiet s := of_keeps (.refl s.child)

theorem trans {s t u : Server} (h : s.Quiet t) (h' : t.Quiet u) : s.Quiet u where
  http := h'.http.trans h.http
  alike := h'.alike.trans h.alike
  state := h'.state.trans h.state
  clock := by
    intro hle
    obtain ⟨hst, ht⟩ := h.clock hle
    obtain ⟨htu, hu⟩ := h'.clock ht
    exact ⟨hst.trans htu, hu⟩
  notify := h'.notify.trans h.notify
  log := by
    rcases h'.log with ⟨hflag', hlog'⟩ | hdropped
    · rcases h.log with ⟨hflag, hlog⟩ | ⟨hflag, hlog⟩
      · exact Or.inl ⟨hflag'.trans hflag, hlog'.trans hlog⟩
      · exact Or.inr ⟨hflag'.trans hflag, hlog'.trans hlog⟩
    · exact Or.inr hdropped

theorem authorize (s : Server) (a : Transfer) : s.Quiet (s.authorize a) := by
  unfold Server.authorize
  split_ifs
  · exact ⟨rfl, rfl, rfl, fun hle => ⟨le_rfl, hle⟩, rfl, Or.inr ⟨rfl, rfl⟩⟩
  · exact .refl s

theorem release (s : Server) (i : Fin maxCalls) : s.Quiet (s.release i) :=
  of_keeps (s.child.talks_release i).keeps

end Quiet

variable (s : Server)

/-- What a request comes to. -/
inductive Requests (kind : CallKind) (s : Server) : Server × Option (Fin maxCalls) → Prop
  | refused {t : Server} (quiet : s.Quiet t) (calls : t.child.calls = s.child.calls) :
      Requests kind s (t, none)
  | sent {t : Server} {i : Fin maxCalls} {k : Call} (quiet : s.Quiet t)
      (free : s.child.calls i = none)
      (calls : t.child.calls = Function.update s.child.calls i (some k)) (hkind : k.kind = kind)
      (idle : s.http = true → s.notifyPending = false) : Requests kind s (t, some i)

theorem calls_authorize (a : Transfer) : (s.authorize a).child.calls = s.child.calls := by
  unfold authorize
  split_ifs <;> rfl

theorem post_spec {kind : CallKind} {i : Fin maxCalls} {k : Call} {c : Child} (a : ListAnswer)
    (hkeeps : s.child.Keeps c) (hfree : s.child.calls i = none)
    (hcalls : c.calls = Function.update s.child.calls i (some k)) (hkind : k.kind = kind) :
    Requests kind s ((s.withChild c).post i a) := by
  have hquiet : s.Quiet (s.withChild c) := .of_keeps hkeeps
  have hback {t : Server} (ht : s.Quiet t) (hchild : t.child.calls = c.calls) :
      Requests kind s (t.release i, none) :=
    .refused (ht.trans (.release t i))
      (Child.update_back (c := s.child) hfree (hchild.trans hcalls))
  have hauth := hquiet.trans (.authorize (s.withChild c) a.transfer)
  unfold post
  by_cases hbuilt : a.request.built = false
  · rw [if_pos hbuilt]
    exact hback hquiet rfl
  rw [if_neg hbuilt]
  by_cases hbusy : (s.withChild c).posting a.transfer = true
  · rw [if_pos hbusy]
    exact hback hquiet rfl
  rw [if_neg hbusy]
  cases a.request.send with
  | refused f => exact hback hauth (calls_authorize _ a.transfer)
  | queued w =>
    refine .sent hauth hfree ((calls_authorize _ a.transfer).trans hcalls) hkind fun _ => ?_
    unfold posting at hbusy
    rw [Bool.or_eq_true, not_or] at hbusy
    exact Bool.eq_false_iff.mpr hbusy.1

theorem request_spec (kind : CallKind) (timeoutMs : ℕ) (a : ListAnswer) :
    Requests kind s (s.request kind timeoutMs a) := by
  unfold request
  by_cases hhttp : s.http = false
  · rw [if_pos hhttp]
    have hspec := s.child.request_spec kind timeoutMs a.request
    generalize s.child.request kind timeoutMs a.request = r at hspec
    cases hspec with
    | refused hkeeps hcalls => exact .refused (.of_keeps hkeeps) hcalls
    | sent hkeeps hfree hcalls hkind =>
      refine .sent (.of_keeps hkeeps) hfree hcalls hkind fun htrue => ?_
      rw [hhttp] at htrue
      cases htrue
  rw [if_neg hhttp]
  have hread := s.child.keeps_read a.request.elapsed
  dsimp only
  cases Child.requestDeadline (s.child.read a.request.elapsed).clock timeoutMs with
  | none => exact .refused (.of_keeps hread) rfl
  | some deadline =>
    dsimp only
    have halloc := (s.child.read a.request.elapsed).callAlloc_spec kind deadline a.request.slotOk
    generalize (s.child.read a.request.elapsed).callAlloc kind deadline a.request.slotOk = r
      at halloc
    cases halloc with
    | refused hkeeps hcalls => exact .refused (.of_keeps (hread.trans hkeeps)) hcalls
    | sent hkeeps hfree hcalls hkind => exact s.post_spec a (hread.trans hkeeps) hfree hcalls hkind

namespace Requests

variable {s} {kind : CallKind} {r : Server × Option (Fin maxCalls)} (h : Requests kind s r)

include h

theorem quiet : s.Quiet r.1 := by
  cases h with
  | refused hquiet _ => exact hquiet
  | sent hquiet _ _ _ _ => exact hquiet

theorem onlyOld {p : CallKind → Prop} (hp : ¬p kind) : Child.OnlyOld p s.child r.1.child := by
  cases h with
  | refused _ hcalls => exact .of_eq hcalls
  | @sent t i k _ _ hcalls hkind _ =>
    intro j k' hk' hpk'
    by_cases hj : j = i
    · rw [hj, hcalls, Function.update_self, Option.some.injEq] at hk'
      rw [← hk', hkind] at hpk'
      exact absurd hpk' hp
    · rw [hcalls, Function.update_of_ne hj] at hk'
      exact ⟨k', hk', rfl⟩

theorem steady (hkind : kind ≠ .discover) : s.child.Steady r.1.child :=
  ⟨h.quiet.alike, h.quiet.clock, h.onlyOld hkind⟩

end Requests

/-- The record works on. -/
structure Works (s t : Server) : Prop where
  http : t.http = s.http
  steady : s.child.Steady t.child

namespace Works

variable {s} {t u : Server}

theorem of_talks {c : Child} (h : s.child.Talks c) : s.Works (s.withChild c) :=
  ⟨rfl, .of_talks h⟩

theorem of_eq (hhttp : t.http = s.http) (h : t.child = s.child) : s.Works t := by
  refine ⟨hhttp, ?_⟩
  rw [h]
  exact .refl s.child

theorem refl (s : Server) : s.Works s := of_eq rfl rfl

theorem trans (h : s.Works t) (h' : t.Works u) : s.Works u :=
  ⟨h'.http.trans h.http, h.steady.trans h'.steady⟩

theorem goes (h : s.Works t) : s.Goes t := .of_steady h.http h.steady

theorem release (s : Server) (i : Fin maxCalls) : s.Works (s.release i) :=
  .of_talks (s.child.talks_release i)

theorem authorize (s : Server) (a : Transfer) : s.Works (s.authorize a) := by
  obtain ⟨hstanding, hclock, hcalls⟩ := s.child_authorize a
  exact ⟨s.http_authorize a, .of_eq hstanding hclock hcalls⟩

theorem request (s : Server) (kind : CallKind) (hkind : kind ≠ .discover) (timeoutMs : ℕ)
    (a : ListAnswer) : s.Works (s.request kind timeoutMs a).1 :=
  ⟨(s.request_spec kind timeoutMs a).quiet.http,
    (s.request_spec kind timeoutMs a).steady hkind⟩

/-- From one stage of the work to another. -/
theorem setState (s : Server) (hlive : s.child.state.live = true) {st : State}
    (hst : st.live = true) : s.Works (s.withChild (s.child.setState st)) := by
  have hstage : st.stage = s.child.state.stage := by
    unfold State.stage
    rw [if_pos hlive, if_pos hst]
  refine ⟨rfl, .of_eq ?_ rfl rfl⟩
  exact congrArg (fun x => { s.child.standing.working with state := x }) hstage

theorem live (h : s.Works t) (hlive : s.child.state.live = true) : t.child.state.live = true :=
  h.steady.alike.live.trans hlive

end Works

/-! ## Lists -/

theorem works_newBatch : s.Works s.newBatch := ⟨rfl, .of_eq rfl rfl rfl⟩

theorem works_markIssued (now : ℕ) : s.Works (s.markIssued now) := ⟨rfl, .of_eq rfl rfl rfl⟩

theorem works_askLists (a : ListKind → ListAnswer) (now : ℕ) : s.Works (s.askLists a now).1 := by
  unfold askLists
  have htools := Works.request s .tools CallKind.noConfusion
    s.child.cfg.listTimeoutMs (a .tools)
  generalize s.request .tools s.child.cfg.listTimeoutMs (a .tools) = r at htools
  obtain ⟨t, _ | i⟩ := r
  · exact htools
  dsimp only at htools ⊢
  split_ifs
  · exact htools.trans (t.works_markIssued now)
  have hresources := htools.trans (Works.request t .resources CallKind.noConfusion
    t.child.cfg.listTimeoutMs (a .resources))
  generalize t.request .resources t.child.cfg.listTimeoutMs (a .resources) = r at hresources
  obtain ⟨u, _ | j⟩ := r
  · exact hresources.trans (.release u i)
  dsimp only at hresources ⊢
  have hprompts := hresources.trans (Works.request u .prompts CallKind.noConfusion
    u.child.cfg.listTimeoutMs (a .prompts))
  generalize u.request .prompts u.child.cfg.listTimeoutMs (a .prompts) = r at hprompts
  obtain ⟨v, _ | l⟩ := r
  · exact (hprompts.trans (.release v j)).trans (.release _ i)
  · exact hprompts.trans (v.works_markIssued now)

theorem works_beginInventory (a : ListKind → ListAnswer) (now : ℕ) :
    s.Works (s.beginInventory a now).1 := by
  unfold beginInventory
  split_ifs
  · exact .refl s
  · exact s.works_newBatch
  · exact s.works_newBatch.trans (s.newBatch.works_askLists a now)

theorem works_releaseInventory : s.Works s.releaseInventory := by
  refine .of_talks ⟨.of_eq rfl rfl, ?_⟩
  intro i k hk _
  obtain ⟨hcall, -⟩ := Option.filter_eq_some_iff.mp hk
  exact ⟨k, hcall, rfl⟩

theorem works_refreshInventory (a : ListKind → ListAnswer) (now : ℕ) :
    s.Works (s.refreshInventory a now).1 := by
  unfold refreshInventory
  by_cases hstate : s.child.state ≠ .ready ∧ s.child.state ≠ .degraded
  · rw [if_pos hstate]
    exact .refl s
  rw [if_neg hstate]
  have hlive : s.child.state.live = true := by
    by_cases hready : s.child.state = .ready
    · rw [hready]
      rfl
    · rw [not_not.mp fun hdegraded => hstate ⟨hready, hdegraded⟩]
      rfl
  split_ifs
  · exact .refl s
  dsimp only
  have hunlist : s.releaseInventory.Works (s.releaseInventory.withChild
      (s.releaseInventory.child.withFlags ({ · with listed := false }))) :=
    ⟨rfl, .of_eq rfl rfl rfl⟩
  have hbegin := (s.works_releaseInventory.trans hunlist).trans (works_beginInventory _ a now)
  split_ifs
  · exact hbegin
  · exact hbegin.trans (.setState _ (hbegin.live hlive) rfl)
  · exact hbegin

/-! ## Collecting -/

theorem works_refuseList (kind : ListKind) (hlive : s.child.state.live = true) :
    s.Works (s.refuseList kind) := by
  unfold refuseList
  dsimp only
  split_ifs
  · have hcurrent : s.Works ((s.record (.failed kind)).setCurrent false) :=
      ⟨rfl, .of_eq rfl rfl rfl⟩
    exact hcurrent.trans (.setState _ (hcurrent.live hlive) rfl)
  · exact .of_eq rfl rfl

theorem works_markReady (kind : ListKind) (hlive : s.child.state.live = true) :
    s.Works (s.markReady kind) := by
  unfold markReady
  dsimp only
  split_ifs
  · have hcurrent : s.Works (s.setCurrent true) := ⟨rfl, .of_eq rfl rfl rfl⟩
    exact hcurrent.trans (.setState _ (hcurrent.live hlive) rfl)
  · exact .refl s

theorem works_commitList (kind : ListKind) (now : ℕ) (r : Replacement)
    (hlive : s.child.state.live = true) : s.Works (s.commitList kind now r).1 := by
  have hready {t : Server} (hhttp : t.http = s.http) (hchild : t.child = s.child) :
      s.Works (t.markReady kind) :=
    (Works.of_eq hhttp hchild).trans (t.works_markReady kind (by rwa [hchild]))
  have hrefuse {t : Server} (hhttp : t.http = s.http) (hchild : t.child = s.child) :
      s.Works (t.refuseList kind) :=
    (Works.of_eq hhttp hchild).trans (t.works_refuseList kind (by rwa [hchild]))
  unfold commitList
  dsimp only
  split_ifs
  · exact hready rfl rfl
  · exact hrefuse rfl rfl
  · exact hrefuse rfl rfl
  · exact hready rfl rfl

section Advance

variable (J : JsonLibrary) (m : Memory)

theorem works_collectList (kind : ListKind) (now : ℕ) (hlive : s.child.state.live = true) :
    s.Works (s.collectList J m kind now).1 := by
  unfold collectList
  cases s.child.findCall kind.call with
  | none => exact .refl s
  | some found =>
    obtain ⟨i, k⟩ := found
    dsimp only
    by_cases hdone : k.done = false
    · rw [if_pos hdone]
      exact .refl s
    rw [if_neg hdone]
    cases s.replacementOf J m kind k with
    | none => exact (s.works_refuseList kind hlive).trans (.release _ i)
    | some r => exact (s.works_commitList kind now r hlive).trans (.release _ i)

theorem goes_askNext (kind : ListKind) (a : ListAnswer) (f : FailAnswer)
    (unmark : Server → Server) (hunmark : ∀ t, (unmark t).http = t.http ∧ (unmark t).child = t.child) :
    s.Goes (s.askNext kind a f unmark) := by
  have hkind : kind.call ≠ .discover := by cases kind <;> exact CallKind.noConfusion
  have hrequest := Works.request s kind.call hkind s.child.cfg.listTimeoutMs a
  unfold askNext
  generalize s.request kind.call s.child.cfg.listTimeoutMs a = r at hrequest
  obtain ⟨t, _ | i⟩ := r
  · have hback : t.Works (unmark t) := .of_eq (hunmark t).1 (hunmark t).2
    exact (hrequest.trans hback).goes.trans ((unmark t).goes_childFailed _ f)
  · exact hrequest.goes

theorem goes_httpAdvanceInventory (a : ListAnswer) (f : FailAnswer) :
    s.Goes (s.httpAdvanceInventory a f) := by
  unfold httpAdvanceInventory
  split_ifs
  · exact .refl s
  · exact .refl s
  · exact .refl s
  · have hissued : s.Goes { s with resourcesIssued := true } := .of_eq rfl rfl
    exact hissued.trans (goes_askNext _ _ a f _ fun _ => ⟨rfl, rfl⟩)
  · exact .refl s
  · exact .refl s
  · have hissued : s.Goes { s with promptsIssued := true } := .of_eq rfl rfl
    exact hissued.trans (goes_askNext _ _ a f _ fun _ => ⟨rfl, rfl⟩)

theorem goes_collectLists (hlive : s.child.state.live = true) (a : AdvanceAnswer) :
    s.Goes (s.collectLists J m a) := by
  unfold collectLists
  dsimp only
  have htools := s.works_collectList J m .tools (a.collected .tools) hlive
  have hresources := htools.trans
    (works_collectList _ J m .resources (a.collected .resources) (htools.live hlive))
  have hprompts := hresources.trans
    (works_collectList _ J m .prompts (a.collected .prompts) (hresources.live hlive))
  exact hprompts.goes.trans (goes_httpAdvanceInventory _ a.next a.fail)

/-! ## The era -/

theorem works_settle (era : Era) : s.Works (s.settle era) := ⟨rfl, .of_eq rfl rfl rfl⟩

theorem goes_listThenReady (hlive : s.child.state.live = true) (a : AdvanceAnswer) :
    s.Goes (s.listThenReady a) := by
  have hbegin := s.works_beginInventory a.lists a.listed
  unfold listThenReady
  dsimp only
  split_ifs
  · exact hbegin.goes.trans (goes_childFailed _ _ a.fail)
  · exact (hbegin.trans (.setState _ (hbegin.live hlive) rfl)).goes

theorem goes_sendInitialize (a : AdvanceAnswer) : s.Goes (s.sendInitialize a) := by
  have hrequest := Works.request s .legacyInitialize CallKind.noConfusion
    s.child.cfg.probeTimeoutMs a.legacyRequest
  unfold sendInitialize
  generalize s.request .legacyInitialize s.child.cfg.probeTimeoutMs a.legacyRequest = r at hrequest
  obtain ⟨t, _ | i⟩ := r
  · exact hrequest.goes.trans (t.goes_childFailed _ a.fail)
  · exact hrequest.goes

theorem goes_releaseFailed (i : Fin maxCalls) (why : Status) (f : FailAnswer) :
    s.Goes ((s.release i).childFailed why f) :=
  (s.goes_release i).trans (goes_childFailed _ why f)

/-- The discovery is found done. -/
structure Discovering (i : Fin maxCalls) (k : Call) : Prop where
  call : s.child.calls i = some k
  kind : k.kind = .discover
  state : s.child.state = .probing

theorem goes_discoverFallback {i : Fin maxCalls} {k : Call} (h : s.Discovering i k)
    (why : Status) {fresh : Bool} (hfresh : fresh = true → s.http = false) (a : AdvanceAnswer) :
    s.Goes (s.discoverFallback i why fresh a) := by
  unfold discoverFallback
  dsimp only
  split_ifs with hlegacy hprocess
  · exact s.goes_releaseFailed i why a.fail
  · refine .of_move (http_childFailed _ _ _) ?_
    rw [child_childFailed]
    exact .timeout (hfresh hprocess) i k h.call h.kind h.state a.fail
  · exact (s.goes_release i).trans (goes_sendInitialize _ a)

theorem goes_discovered {i : Fin maxCalls} {k : Call} (h : s.Discovering i k)
    (a : AdvanceAnswer) : s.Goes (s.discovered J m i k a) := by
  have hsame {why : Status} : s.Goes (s.discoverFallback i why false a) :=
    s.goes_discoverFallback h why Bool.noConfusion a
  unfold discovered
  dsimp only
  split_ifs with hstatus hinvalid hversion
  · unfold discoverRefused
    split_ifs with hhttp
    · exact hsame
    · exact s.goes_releaseFailed i k.status a.fail
    · exact s.goes_discoverFallback h _ (fun _ => Bool.eq_false_iff.mpr hhttp) a
    · exact hsame
  · unfold discoverInvalid
    split_ifs
    · exact s.goes_releaseFailed i _ a.fail
    · exact hsame
  · exact s.goes_childFailed _ a.fail
  · have hsettle := (s.works_settle .modern).trans (.release _ i)
    have hlive : s.child.state.live = true := by
      rw [h.state]
      rfl
    exact hsettle.goes.trans (goes_listThenReady _ (hsettle.live hlive) a)

theorem works_notifyInitialized (a : NotifyAnswer) (t : Transfer) :
    s.Works (s.notifyInitialized a t).1 := by
  unfold notifyInitialized
  by_cases hhttp : s.http = false
  · rw [if_pos hhttp]
    exact .of_talks (s.child.talks_notify _ a)
  rw [if_neg hhttp]
  cases a.built with
  | some st => exact .refl s
  | none =>
    by_cases hbusy : s.posting t = true
    · simp only [if_pos hbusy]
      exact .refl s
    simp only [if_neg hbusy]
    cases a.send with
    | refused f => exact .authorize s t
    | queued w => exact (Works.authorize s t).trans (.of_eq rfl rfl)

theorem goes_handshake (i : Fin maxCalls) (hlive : s.child.state.live = true)
    (a : AdvanceAnswer) : s.Goes (s.handshake i a) := by
  have hnotify := ((Works.release s i).trans (works_settle _ .legacy)).trans
    (works_notifyInitialized _ a.initialized a.transfer)
  unfold handshake
  dsimp only
  split_ifs
  · exact hnotify.goes.trans (goes_childFailed _ _ a.fail)
  · exact (hnotify.trans (.setState _ (hnotify.live hlive) rfl)).goes
  · exact hnotify.goes.trans (goes_listThenReady _ (hnotify.live hlive) a)

theorem goes_checkInitialize (hlive : s.child.state.live = true) (a : AdvanceAnswer) :
    s.Goes (s.checkInitialize J m a) := by
  unfold checkInitialize
  cases s.child.findCall .legacyInitialize with
  | none => exact s.goes_childFailed _ a.fail
  | some found =>
    obtain ⟨i, k⟩ := found
    dsimp only
    split_ifs
    · exact .refl s
    · exact s.goes_releaseFailed i _ a.fail
    · exact s.goes_releaseFailed i _ a.fail
    · exact s.goes_childFailed _ a.fail
    · exact s.goes_handshake i hlive a

theorem goes_advance (a : AdvanceAnswer) : s.Goes (s.advance J m a) := by
  unfold advance
  cases hstate : s.child.state with
  | probing =>
    have hlive : s.child.state.live = true := by
      rw [hstate]
      rfl
    dsimp only
    unfold probe
    cases hfind : s.child.findCall .discover with
    | none => exact s.goes_checkInitialize J m hlive a
    | some found =>
      obtain ⟨i, k⟩ := found
      obtain ⟨hcall, hkind⟩ := s.child.findCall_some hfind
      dsimp only
      split_ifs
      · exact .refl s
      · exact s.goes_discovered J m ⟨hcall, hkind, hstate⟩ a
  | ready => exact s.goes_collectLists J m (by rw [hstate]; rfl) a
  | degraded => exact s.goes_collectLists J m (by rw [hstate]; rfl) a
  | _ => exact .refl s

end Advance
end Server
end AsmFlow.Mcp
