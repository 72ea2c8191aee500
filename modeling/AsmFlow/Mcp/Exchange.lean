import AsmFlow.Mcp.Moves

/-!
# The exchange with a process

The calls under way, the ids given out and what was said in each lifetime of a process, and
the steps by which they change: a line is handed over, a call is issued, completed or
forgotten, a process is followed by another.
-/

namespace AsmFlow.Mcp

/-- A call that was completed. -/
structure Completion where
  id : ℕ
  kind : CallKind
  status : Status
  cause : Cause

namespace Talk

def issue : Talk → Option (ℕ × CallKind)
  | .issued id kind => some (id, kind)
  | _ => none

def completion : Talk → Option Completion
  | .completed id kind status cause => some ⟨id, kind, status, cause⟩
  | _ => none

end Talk

namespace Lifetime

variable (l : Lifetime)

/-- The calls that were issued, with their ids. -/
def issued : List (ℕ × CallKind) := l.talk.filterMap Talk.issue

def completions : List Completion := l.talk.filterMap Talk.completion

end Lifetime

/-- What is on record of a lifetime. -/
structure Account where
  lines : List Bytes
  issued : List (ℕ × CallKind)
  completions : List Completion

def Lifetime.account (l : Lifetime) : Account := ⟨l.lines, l.issued, l.completions⟩

def Account.empty : Account := ⟨[], [], []⟩

/-- What is known of the calls of a server. -/
structure Exchange where
  cfg : ServerConfig
  calls : Fin maxCalls → Option Call
  nextId : ℕ
  present : Account
  past : List Account

def Child.exchange (c : Child) : Exchange :=
  ⟨c.cfg, c.calls, c.nextId, c.present.account, c.past.map Lifetime.account⟩

section Founded

variable (J : JsonLibrary) (http : Bool)

/-- A completion is that of a deadline, or of a line that is a response with the id of the
call; from a process, the line is one of those it wrote. -/
def Completion.Founded (cfg : ServerConfig) (lines : List Bytes) (x : Completion) : Prop :=
  match x.cause with
  | .timeout => x.status = Status.mcpTimeout
  | .line line m => (http = false → line ∈ lines) ∧ cfg.readLine J line = m ∧
    ∃ payload error, m = .response x.id payload error

variable {J http}

theorem Completion.Founded.append {cfg : ServerConfig} {lines : List Bytes} {x : Completion}
    (h : x.Founded J http cfg lines) (more : List Bytes) :
    x.Founded J http cfg (lines ++ more) := by
  unfold Founded at h ⊢
  cases hcause : x.cause with
  | timeout =>
    rw [hcause] at h
    exact h
  | line line m =>
    rw [hcause] at h
    obtain ⟨hline, hread⟩ := h
    exact ⟨fun hstdio => List.mem_append_left _ (hline hstdio), hread⟩

end Founded

namespace Exchange

/-- One step of the exchange. Only where `op` holds, a tool is called for an operator. -/
inductive Step (J : JsonLibrary) (http op : Bool) : Exchange → Exchange → Prop
  | hand (e : Exchange) (line : Bytes) : Step J http op e
      { e with present := { e.present with lines := e.present.lines ++ [line] } }
  | issue (e : Exchange) (i : Fin maxCalls) (kind : CallKind) (deadline : ℕ)
      (hfree : e.calls i = none) (hop : kind = .toolTest → op = true) : Step J http op e
      { e with
        calls := Function.update e.calls i
          (some ⟨e.nextId + 1, kind, deadline, false, Status.ok, [], 0⟩)
        nextId := e.nextId + 1
        present := { e.present with issued := e.present.issued ++ [(e.nextId + 1, kind)] } }
  | forget (e : Exchange) (calls : Fin maxCalls → Option Call)
      (hold : ∀ i k, calls i = some k → e.calls i = some k) : Step J http op e { e with calls }
  | complete (e : Exchange) (i : Fin maxCalls) (k k' : Call) (x : Completion)
      (hcall : e.calls i = some k) (hopen : k.done = false) (hdone : k'.done = true)
      (hid : k'.id = k.id) (hkind : k'.kind = k.kind) (hx : x.id = k.id) (hx' : x.kind = k.kind)
      (hfounded : x.Founded J http e.cfg e.present.lines) : Step J http op e
      { e with
        calls := Function.update e.calls i (some k')
        present := { e.present with completions := e.present.completions ++ [x] } }
  | conclude (e : Exchange) (i : Fin maxCalls) (k k' : Call) (hcall : e.calls i = some k)
      (hdone : k'.done = true) (hid : k'.id = k.id) (hkind : k'.kind = k.kind) :
      Step J http op e { e with calls := Function.update e.calls i (some k') }
  | renew (e : Exchange) : Step J http op e
      { e with calls := fun _ => none, nextId := 0, present := .empty, past := e.present :: e.past }

end Exchange

/-! ## What holds of an exchange -/

section Correlated

variable (J : JsonLibrary) (http : Bool)

/-- In a lifetime the ids are given out in order, a call is completed once at most, and for a
reason. -/
structure Account.Correlated (cfg : ServerConfig) (n : ℕ) (l : Account) : Prop where
  ids : l.issued.map Prod.fst = List.range' 1 n
  once : (l.completions.map Completion.id).Nodup
  told : ∀ x ∈ l.completions, (x.id, x.kind) ∈ l.issued ∧ x.Founded J http cfg l.lines

namespace Exchange

structure Correlated (e : Exchange) : Prop where
  present : e.present.Correlated J http e.cfg e.nextId
  past : ∀ l ∈ e.past, ∃ n, l.Correlated J http e.cfg n
  known : ∀ i k, e.calls i = some k → (k.id, k.kind) ∈ e.present.issued
  distinct : ∀ i j k k', e.calls i = some k → e.calls j = some k' → k.id = k'.id → i = j
  pending : ∀ i k, e.calls i = some k → k.done = false →
    k.id ∉ e.present.completions.map Completion.id

variable {J http} {op : Bool} {e e' : Exchange}

theorem update_some {f : Fin maxCalls → Option Call} {i j : Fin maxCalls} {k k' : Call}
    (h : Function.update f i (some k) j = some k') : j = i ∧ k' = k ∨ j ≠ i ∧ f j = some k' := by
  by_cases hj : j = i
  · rw [hj, Function.update_self, Option.some.injEq] at h
    exact Or.inl ⟨hj, h.symm⟩
  · rw [Function.update_of_ne hj] at h
    exact Or.inr ⟨hj, h⟩

theorem Step.cfg (h : Step J http op e e') : e'.cfg = e.cfg := by
  cases h <;> rfl

theorem Step.tools (h : Step J http false e e') : ∀ i k, e'.calls i = some k →
    k.kind = .toolTest → ∃ k', e.calls i = some k' ∧ k'.kind = k.kind ∧ k'.id = k.id := by
  intro i k hk htool
  cases h with
  | hand line => exact ⟨k, hk, rfl, rfl⟩
  | issue j kind deadline hfree hop =>
    rcases update_some hk with ⟨-, rfl⟩ | ⟨-, hold⟩
    · exact absurd (hop htool) Bool.noConfusion
    · exact ⟨k, hold, rfl, rfl⟩
  | forget calls hold => exact ⟨k, hold i k hk, rfl, rfl⟩
  | complete j l l' x hcall hopen hdone hid hkind =>
    rcases update_some hk with ⟨rfl, rfl⟩ | ⟨-, hold⟩
    · exact ⟨l, hcall, hkind.symm, hid.symm⟩
    · exact ⟨k, hold, rfl, rfl⟩
  | conclude j l l' hcall hdone hid hkind =>
    rcases update_some hk with ⟨rfl, rfl⟩ | ⟨-, hold⟩
    · exact ⟨l, hcall, hkind.symm, hid.symm⟩
    · exact ⟨k, hold, rfl, rfl⟩
  | renew => cases hk

namespace Correlated

theorem id_le {l : Account} {cfg : ServerConfig} {n : ℕ} (h : l.Correlated J http cfg n)
    {id : ℕ} {kind : CallKind} (hmem : (id, kind) ∈ l.issued) : id ≤ n := by
  have hid : id ∈ l.issued.map Prod.fst := List.mem_map.mpr ⟨_, hmem, rfl⟩
  rw [h.ids, List.mem_range'_1] at hid
  omega

theorem issue (h : e.Correlated J http) (i : Fin maxCalls) (kind : CallKind) (deadline : ℕ) :
    Correlated J http
      { e with
        calls := Function.update e.calls i
          (some ⟨e.nextId + 1, kind, deadline, false, Status.ok, [], 0⟩)
        nextId := e.nextId + 1
        present := { e.present with issued := e.present.issued ++ [(e.nextId + 1, kind)] } } := by
  have hfresh : ∀ j k, e.calls j = some k → k.id ≠ e.nextId + 1 := by
    intro j k hk
    have hle := id_le h.present (h.known j k hk)
    omega
  have hnever : e.nextId + 1 ∉ e.present.completions.map Completion.id := by
    intro hmem
    obtain ⟨x, hx, hid⟩ := List.mem_map.mp hmem
    have hle := id_le h.present (h.present.told x hx).1
    omega
  refine ⟨⟨?_, h.present.once, ?_⟩, h.past, ?_, ?_, ?_⟩
  · rw [List.map_append, h.present.ids, List.range'_concat]
    simp [Nat.add_comm]
  · intro x hx
    exact ⟨List.mem_append_left _ (h.present.told x hx).1, (h.present.told x hx).2⟩
  · intro j k hk
    rcases update_some hk with ⟨-, rfl⟩ | ⟨-, hold⟩
    · exact List.mem_append_right _ (List.mem_singleton_self _)
    · exact List.mem_append_left _ (h.known j k hold)
  · intro j l k k' hk hk' hid
    rcases update_some hk with ⟨hj, rfl⟩ | ⟨-, hold⟩
    · rcases update_some hk' with ⟨hl, -⟩ | ⟨-, hold'⟩
      · rw [hj, hl]
      · exact absurd hid.symm (hfresh l k' hold')
    · rcases update_some hk' with ⟨-, rfl⟩ | ⟨-, hold'⟩
      · exact absurd hid (hfresh j k hold)
      · exact h.distinct j l k k' hold hold' hid
  · intro j k hk hopen
    rcases update_some hk with ⟨-, rfl⟩ | ⟨-, hold⟩
    · exact hnever
    · exact h.pending j k hold hopen

/-- A call that is done keeps its id. -/
theorem update (h : e.Correlated J http) {i : Fin maxCalls} {k k' : Call}
    (hcall : e.calls i = some k) (hid : k'.id = k.id) (hkind : k'.kind = k.kind) :
    (∀ j l, Function.update e.calls i (some k') j = some l → (l.id, l.kind) ∈ e.present.issued) ∧
      ∀ j l m m', Function.update e.calls i (some k') j = some m →
        Function.update e.calls i (some k') l = some m' → m.id = m'.id → j = l := by
  have hsame : ∀ j l, Function.update e.calls i (some k') j = some l →
      ∃ l', e.calls j = some l' ∧ l'.id = l.id ∧ l'.kind = l.kind := by
    intro j l hl
    rcases update_some hl with ⟨rfl, rfl⟩ | ⟨-, hold⟩
    · exact ⟨k, hcall, hid.symm, hkind.symm⟩
    · exact ⟨l, hold, rfl, rfl⟩
  constructor
  · intro j l hl
    obtain ⟨l', hl', hlid, hlkind⟩ := hsame j l hl
    rw [← hlid, ← hlkind]
    exact h.known j l' hl'
  · intro j l m m' hm hm' heq
    obtain ⟨n, hn, hnid, -⟩ := hsame j m hm
    obtain ⟨n', hn', hnid', -⟩ := hsame l m' hm'
    exact h.distinct j l n n' hn hn' (hnid.trans (heq.trans hnid'.symm))

theorem step (h : e.Correlated J http) (hstep : Step J http op e e') : e'.Correlated J http := by
  cases hstep with
  | hand line =>
    refine ⟨⟨h.present.ids, h.present.once, ?_⟩, h.past, h.known, h.distinct, h.pending⟩
    intro x hx
    exact ⟨(h.present.told x hx).1, (h.present.told x hx).2.append _⟩
  | issue i kind deadline hfree hop => exact h.issue i kind deadline
  | forget calls hold =>
    refine ⟨h.present, h.past, ?_, ?_, ?_⟩
    · exact fun i k hk => h.known i k (hold i k hk)
    · exact fun i j k k' hk hk' => h.distinct i j k k' (hold i k hk) (hold j k' hk')
    · exact fun i k hk => h.pending i k (hold i k hk)
  | complete i k k' x hcall hopen hdone hid hkind hx hx' hfounded =>
    obtain ⟨hknown, hdistinct⟩ := h.update hcall hid hkind
    refine ⟨⟨h.present.ids, ?_, ?_⟩, h.past, hknown, hdistinct, ?_⟩
    · rw [List.map_append, List.nodup_append]
      refine ⟨h.present.once, List.nodup_singleton _, ?_⟩
      rintro a ha b hb rfl
      rw [List.map_singleton, List.mem_singleton, hx] at hb
      exact h.pending i k hcall hopen (hb ▸ ha)
    · intro y hy
      rcases List.mem_append.mp hy with hy | hy
      · exact h.present.told y hy
      · rw [List.mem_singleton.mp hy, hx, hx']
        exact ⟨h.known i k hcall, hfounded⟩
    · intro j l hl hlopen
      rcases update_some hl with ⟨-, rfl⟩ | ⟨hj, hold⟩
      · exact absurd (hdone.symm.trans hlopen) Bool.noConfusion
      · rw [List.map_append, List.mem_append, not_or]
        refine ⟨h.pending j l hold hlopen, ?_⟩
        rw [List.map_singleton, List.mem_singleton, hx]
        exact fun heq => hj (h.distinct j i l k hold hcall heq)
  | conclude i k k' hcall hdone hid hkind =>
    obtain ⟨hknown, hdistinct⟩ := h.update hcall hid hkind
    refine ⟨h.present, h.past, hknown, hdistinct, ?_⟩
    intro j l hl hlopen
    rcases update_some hl with ⟨-, rfl⟩ | ⟨-, hold⟩
    · exact absurd (hdone.symm.trans hlopen) Bool.noConfusion
    · exact h.pending j l hold hlopen
  | renew =>
    have hnone {p : Prop} {k : Call} (hk : (none : Option Call) = some k) : p := by
      cases hk
    refine ⟨⟨rfl, List.nodup_nil, ?_⟩, ?_, fun _ _ => hnone, fun _ _ _ _ hk => hnone hk,
      fun _ _ => hnone⟩
    · intro x hx
      cases hx
    · intro l hl
      rcases List.mem_cons.mp hl with rfl | hl
      · exact ⟨e.nextId, h.present⟩
      · exact h.past l hl

end Correlated
end Exchange
end Correlated
/-! ## The record of a server -/

namespace Child

variable (J : JsonLibrary) (http op : Bool)

/-- The exchange goes on by some steps. -/
def Acts (c d : Child) : Prop :=
  Relation.ReflTransGen (Exchange.Step J http op) c.exchange d.exchange

variable {J http op} {c d e : Child}

namespace Acts

theorem of_eq (h : d.exchange = c.exchange) : c.Acts J http op d := by
  unfold Acts
  rw [h]

theorem refl (c : Child) : c.Acts J http op c :=
  Relation.ReflTransGen.refl

theorem trans (h : c.Acts J http op d) (h' : d.Acts J http op e) : c.Acts J http op e :=
  Relation.ReflTransGen.trans h h'

theorem of_step (h : Exchange.Step J http op c.exchange d.exchange) : c.Acts J http op d :=
  .single h

theorem of_forget (h : d.exchange = { c.exchange with calls := d.calls })
    (hold : ∀ i k, d.calls i = some k → c.calls i = some k) : c.Acts J http op d := by
  refine of_step ?_
  rw [h]
  exact .forget _ _ hold

/-- All calls are forgotten. -/
theorem of_none (h : d.exchange = { c.exchange with calls := fun _ => none }) :
    c.Acts J http op d := by
  have hcalls : d.calls = fun _ => none := congrArg Exchange.calls h
  refine of_forget ?_ ?_
  · rw [h, hcalls]
  · intro i k hk
    rw [hcalls] at hk
    cases hk

theorem cfg (h : c.Acts J http op d) : d.cfg = c.cfg := by
  have hcfg : d.exchange.cfg = c.exchange.cfg := by
    unfold Acts at h
    generalize d.exchange = e at h
    induction h with
    | refl => rfl
    | tail _ hlast ih => exact hlast.cfg.trans ih
  exact hcfg

/-- Where no operator asks for it, no tool is called that was not before. -/
theorem tools (h : c.Acts J http false d) : ∀ i k, d.calls i = some k → k.kind = .toolTest →
    ∃ k', c.calls i = some k' ∧ k'.kind = k.kind ∧ k'.id = k.id := by
  unfold Acts at h
  change ∀ i k, d.exchange.calls i = some k → _
  generalize d.exchange = e at h
  induction h with
  | refl => exact fun i k hk _ => ⟨k, hk, rfl, rfl⟩
  | tail _ hlast ih =>
    intro i k hk htool
    obtain ⟨k', hk', hkind, hid⟩ := hlast.tools i k hk htool
    obtain ⟨l, hl, hlkind, hlid⟩ := ih i k' hk' (hkind.trans htool)
    exact ⟨l, hl, hlkind.trans hkind, hlid.trans hid⟩

end Acts

/-! ## Sending -/

theorem exchange_enqueue (c : Child) (f : Frame) : (c.enqueue f).exchange = c.exchange := by
  simp [enqueue, say, exchange, Lifetime.account, Lifetime.issued, Lifetime.completions,
    Talk.issue, Talk.completion]

theorem exchange_writeStdin (c : Child) (w : WriteAnswer) :
    (c.writeStdin w).1.exchange = c.exchange := by
  unfold writeStdin
  split_ifs
  · rfl
  · rfl
  · cases w <;> rfl

theorem exchange_send (c : Child) (f : Frame) (a : SendAnswer) :
    (c.send f a).1.exchange = c.exchange := by
  unfold send
  split_ifs
  · rfl
  · cases a with
    | refused e => rfl
    | queued w => exact (exchange_writeStdin _ w).trans (c.exchange_enqueue f)

theorem acts_release (c : Child) (i : Fin maxCalls) : c.Acts J http op (c.release i) := by
  refine .of_forget rfl ?_
  intro j k hk
  have hcalls : (c.release i).calls = Function.update c.calls i none := rfl
  rw [hcalls] at hk
  by_cases hj : j = i
  · rw [hj, Function.update_self] at hk
    cases hk
  · rwa [Function.update_of_ne hj] at hk

theorem exchange_issue (c : Child) (i : Fin maxCalls) (kind : CallKind) (deadline : ℕ) :
    (c.issue i kind deadline).exchange =
      { c.exchange with
        calls := Function.update c.calls i
          (some ⟨c.nextId + 1, kind, deadline, false, Status.ok, [], 0⟩)
        nextId := c.nextId + 1
        present := { c.exchange.present with
          issued := c.exchange.present.issued ++ [(c.nextId + 1, kind)] } } := by
  simp [issue, say, setCall, exchange, Lifetime.account, Lifetime.issued, Lifetime.completions,
    Talk.issue, Talk.completion]

theorem acts_callAlloc (c : Child) {kind : CallKind} (hop : kind = .toolTest → op = true)
    (deadline : ℕ) (slotOk : Bool) : c.Acts J http op (c.callAlloc kind deadline slotOk).1 := by
  unfold callAlloc
  cases hfree : c.freeSlot with
  | none => exact .refl c
  | some i =>
    cases slotOk with
    | false => exact .refl c
    | true =>
      refine .of_step ?_
      show Exchange.Step J http op c.exchange (c.issue i kind deadline).exchange
      rw [exchange_issue]
      exact .issue c.exchange i kind deadline (c.freeSlot_spec hfree) hop

theorem acts_dispatch (c : Child) (i : Fin maxCalls) (kind : CallKind) (a : RequestAnswer) :
    c.Acts J http op (c.dispatch i kind a).1 := by
  have hsend : c.Acts J http op (c.send (c.requestFrame kind) a.send).1 :=
    .of_eq (c.exchange_send _ _)
  unfold dispatch
  dsimp only
  split_ifs
  · exact c.acts_release i
  · exact hsend.trans (acts_release _ i)
  · exact hsend

theorem acts_request (c : Child) {kind : CallKind} (hop : kind = .toolTest → op = true)
    (timeoutMs : ℕ) (a : RequestAnswer) : c.Acts J http op (c.request kind timeoutMs a).1 := by
  have hread : c.Acts J http op (c.read a.elapsed) := .of_eq rfl
  unfold request
  dsimp only
  cases requestDeadline (c.read a.elapsed).clock timeoutMs with
  | none => exact hread
  | some deadline =>
    have halloc := hread.trans (acts_callAlloc (c.read a.elapsed) hop deadline a.slotOk)
    dsimp only
    generalize (c.read a.elapsed).callAlloc kind deadline a.slotOk = r at halloc
    obtain ⟨d, _ | i⟩ := r
    · exact halloc
    · exact halloc.trans (acts_dispatch d i kind a)

/-! ## Receiving -/

theorem exchange_scheduleRestart (c : Child) (a : FailAnswer) :
    (c.scheduleRestart a).exchange = c.exchange := by
  have hspec := c.scheduleRestart_spec a
  generalize c.scheduleRestart a = d at hspec
  cases hspec <;> rfl

theorem acts_childFailed (c : Child) (why : Status) (a : FailAnswer) :
    c.Acts J http op (c.childFailed why a) := by
  obtain ⟨b, hblame⟩ := c.blame_eq why
  have hgone : c.Acts J http op (c.giveUp why) := by
    obtain ⟨b, hb⟩ := c.giveUp_eq why
    rw [hb]
    exact .of_none rfl
  have hspec := c.childFailed_spec why a
  generalize c.childFailed why a = d at hspec
  cases hspec with
  | latched => exact .refl c
  | stopping =>
    rw [hblame]
    exact .of_eq rfl
  | stopped => exact hgone
  | living =>
    obtain ⟨t, o, hstop⟩ := (c.giveUp why).beginStop_eq a.elapsed
    rw [hstop]
    exact hgone.trans (.of_eq rfl)
  | legacy => exact hgone.trans (.of_eq rfl)
  | scheduled => exact hgone.trans (.of_eq (exchange_scheduleRestart _ a))

theorem acts_torn (c : Child) (hup killed : Bool) : c.Acts J http op (c.torn hup killed) := by
  unfold torn
  rw [teardown_eq]
  split_ifs
  · exact .of_none rfl
  · exact .of_none rfl
  · exact .of_none rfl

end Child
end AsmFlow.Mcp
