import AsmFlow.Mcp.Exchange
import AsmFlow.Mcp.Batches

/-!
# Correlation over whole runs

Whatever happens to a server, in whatever order, its exchange goes on step by step; so the ids
of a lifetime are distinct, and a call is completed once at most, by an answer of its own. An
operator has one tool call under way at most, and only a server that is ready is asked.
-/

namespace AsmFlow.Mcp

open Library

namespace Server

/-- The exchange of a server goes on by some steps. -/
structure Acts (J : JsonLibrary) (op : Bool) (s t : Server) : Prop where
  http : t.http = s.http
  acts : s.child.Acts J s.http op t.child

variable {J : JsonLibrary} {op : Bool} {s t u : Server}

namespace Acts

theorem of_eq (hhttp : t.http = s.http) (h : t.child.exchange = s.child.exchange) :
    Acts J op s t := ⟨hhttp, .of_eq h⟩

theorem refl (s : Server) : Acts J op s s := of_eq rfl rfl

theorem trans (h : Acts J op s t) (h' : Acts J op t u) : Acts J op s u := by
  refine ⟨h'.http.trans h.http, h.acts.trans ?_⟩
  rw [← h.http]
  exact h'.acts

theorem withChild {c : Child} (h : s.child.Acts J s.http op c) : Acts J op s (s.withChild c) :=
  ⟨rfl, h⟩

/-- The record is not touched where it matters. -/
theorem same {c : Child} (h : c.exchange = s.child.exchange) : Acts J op s (s.withChild c) :=
  withChild (.of_eq h)

theorem none {c : Child} (h : c.exchange = { s.child.exchange with calls := fun _ => none }) :
    Acts J op s (s.withChild c) := withChild (.of_none h)

theorem release (s : Server) (i : Fin maxCalls) : Acts J op s (s.release i) :=
  withChild (s.child.acts_release i)

theorem authorize (s : Server) (a : Transfer) : Acts J op s (s.authorize a) := by
  unfold Server.authorize
  split_ifs
  · exact of_eq rfl rfl
  · exact refl s

theorem invalidate (s : Server) : Acts J op s s.invalidate := by
  refine ⟨s.http_invalidate, ?_⟩
  rw [child_invalidate]
  exact .of_none rfl

theorem teardown (s : Server) (killed : Bool) : Acts J op s (s.teardown killed) := by
  refine ⟨s.http_teardown killed, ?_⟩
  rw [child_teardown]
  exact s.child.acts_torn _ killed

theorem scheduleRestart (s : Server) (a : FailAnswer) : Acts J op s (s.scheduleRestart a) :=
  same (s.child.exchange_scheduleRestart a)

theorem childFailed (s : Server) (why : Status) (a : FailAnswer) :
    Acts J op s (s.childFailed why a) := by
  refine ⟨s.http_childFailed why a, ?_⟩
  rw [child_childFailed]
  exact s.child.acts_childFailed why a

theorem post (s : Server) (i : Fin maxCalls) (a : ListAnswer) : Acts J op s (s.post i a).1 := by
  unfold Server.post
  split_ifs
  · exact release s i
  · exact release s i
  · cases a.request.send with
    | refused f => exact (authorize s a.transfer).trans (release _ i)
    | queued w => exact authorize s a.transfer

theorem request (s : Server) (kind : CallKind) (hop : kind = .toolTest → op = true)
    (timeoutMs : ℕ) (a : ListAnswer) : Acts J op s (s.request kind timeoutMs a).1 := by
  unfold Server.request
  by_cases hhttp : s.http = false
  · rw [if_pos hhttp]
    exact withChild (s.child.acts_request hop timeoutMs a.request)
  rw [if_neg hhttp]
  have hread : Acts J op s (s.withChild (s.child.read a.request.elapsed)) := same rfl
  dsimp only
  cases Child.requestDeadline (s.child.read a.request.elapsed).clock timeoutMs with
  | none => exact hread
  | some deadline =>
    have hread' : s.child.Acts J s.http op (s.child.read a.request.elapsed) := .of_eq rfl
    have halloc := hread'.trans
      ((s.child.read a.request.elapsed).acts_callAlloc hop deadline a.request.slotOk)
    dsimp only
    generalize (s.child.read a.request.elapsed).callAlloc kind deadline a.request.slotOk = r
      at halloc
    obtain ⟨c, _ | i⟩ := r
    · exact withChild halloc
    · exact (withChild halloc).trans (post _ i a)

end Acts

variable (s)

/-! ## Lists -/

section Advance

variable (m : Memory)

end Advance

/-! ## Starting -/

section Loop

variable (m : Memory)

end Loop

/-! ## Whole runs -/

/-- A tool that is called was being called before, unless an operator asks for it. -/
theorem Acts.tools {s : Server} (h : Acts J false s t) {i : Fin maxCalls} {k : Call}
    (hk : t.child.calls i = some k) (htool : k.kind = .toolTest) :
    ∃ k', s.child.calls i = some k' ∧ k'.kind = .toolTest ∧ k'.id = k.id := by
  obtain ⟨k', hk', hkind, hid⟩ := h.acts.tools i k hk htool
  exact ⟨k', hk', hkind.trans htool, hid⟩

end Server
end AsmFlow.Mcp
