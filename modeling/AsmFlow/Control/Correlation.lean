import AsmFlow.Control.ClientFrame
import AsmFlow.Control.LineSplit

/-!
# A response and its call

What the inbox of a client loses in a call are events and, if the call returns, one response
with the identifier of that call. The identifiers are the serial numbers of the calls, which
come round after `2 ^ 64 - 1` of them.
-/

namespace AsmFlow.Control

open Http Json Library Library.Json Mcp

/-- One call: what it meets, the caller's buffer, what is asked for. -/
structure Asked where
  env : CallEnv
  out : Buffer
  request : ClientRequest

/-- The bytes that arrive. -/
def received (arrivals : List Arrival) : Bytes :=
  arrivals.flatMap fun arrival =>
    match arrival with
    | .got p => p.take clientChunk
    | .intr => []
    | .failed _ => []

section Shapes

variable (loadb : Bytes → Option Mcp.Json)

/-- The client after a call. -/
def Client.after (c : Client) (a : Asked) : Client := (c.call loadb a.env a.out a.request).client

/-- An event envelope, which has no identifier. -/
def IsEvent (frame : Bytes) : Prop :=
  ∃ v, loadb frame = some v ∧ v.isObject = true ∧ v.member "id" = none ∧
    (v.getString "event").isSome = true

/-- A response with this identifier, `ok` with a result or not `ok` with an error. -/
def IsReply (id frame : Bytes) : Prop :=
  ∃ v s, loadb frame = some v ∧ v.isObject = true ∧ v.member "id" = some (.string s) ∧
    utf8Text s.toList = id ∧
    (v.getBool "ok" = some true ∧ (v.member "result").isSome = true ∨
      v.getBool "ok" = some false ∧ (v.getObject "error").isSome = true)

/-- Events are gone from the front. -/
def Skips (before after : Bytes) : Prop :=
  ∃ skipped, before = stream skipped ++ after ∧
    ∀ e ∈ skipped, (10 : UInt8) ∉ e ∧ IsEvent loadb (trimCr e)

/-- Events are gone and, if it was not a failure, behind them the line of the response that is
handed out. -/
def Parts (id before after out : Bytes) (failed : Prop) : Prop :=
  ∃ rest, Skips loadb before rest ∧
    (failed ∧ rest = after ∨
      ∃ l, rest = l ++ 10 :: after ∧ (10 : UInt8) ∉ l ∧ out = trimCr l ∧ IsReply loadb id out)

/-- A call takes from what was in the inbox, and from what arrived and was kept. -/
def Correlates (c : Client) (a : Asked) : Prop :=
  ∃ n, Parts loadb (idOf c.nextId) (c.inbox.data ++ received (a.env.arrivals.take n))
    (c.after loadb a).inbox.data (c.call loadb a.env a.out a.request).out.data
    ((c.call loadb a.env a.out a.request).status < 0)

end Shapes

/-! ## Identifiers -/

/-- The digits can be read back. -/
theorem decimal_value {n : ℕ} (h : n ≠ 0) :
    ((decimal n).map fun b => b.toNat - 48).reverse = Nat.digits 10 n := by
  have hdigit : ∀ d ∈ (Nat.digits 10 n).reverse,
      ((fun b : UInt8 => b.toNat - 48) ∘ fun d => UInt8.ofNat (48 + d)) d = id d := by
    intro d hd
    change (UInt8.ofNat (48 + d)).toNat - 48 = d
    have hlt := Nat.digits_lt_base (by decide : 1 < 10) (List.mem_reverse.mp hd)
    rw [UInt8.toNat_ofNat']
    omega
  unfold decimal
  rw [if_neg h, List.map_map, List.map_congr_left hdigit, List.map_id, List.reverse_reverse]

theorem idOf_inj {m n : Word} (hm : m ≠ 0) (hn : n ≠ 0) (h : idOf m = idOf n) : m = n := by
  unfold idOf at h
  rw [if_neg hm, if_neg hn] at h
  have hdigits := List.append_cancel_left h
  have hm0 : m.toNat ≠ 0 := fun h0 => hm (Word.eq_zero_of_toNat_eq_zero h0)
  have hn0 : n.toNat ≠ 0 := fun h0 => hn (Word.eq_zero_of_toNat_eq_zero h0)
  apply UInt64.toNat_inj.mp
  apply Nat.digits_inj_iff.mp
  rw [← decimal_value hm0, ← decimal_value hn0, hdigits]

/-- The serial number that comes so many calls later. -/
def serialAfter (n : Word) (k : ℕ) : Word := idAfter^[k] n

theorem idAfter_toNat {n : Word} (hn : n ≠ 0) :
    (idAfter n).toNat = n.toNat % (2 ^ 64 - 1) + 1 := by
  have hpos := Word.toNat_pos_of_ne_zero hn
  have hlt := n.toNat_lt
  unfold idAfter
  rw [if_neg hn]
  dsimp only
  have hsum : (n + 1).toNat = (n.toNat + 1) % 2 ^ 64 := UInt64.toNat_add n 1
  split_ifs with hzero
  · rw [hzero] at hsum
    have hone : (1 : Word).toNat = 1 := rfl
    have hnone : (0 : Word).toNat = 0 := rfl
    omega
  · have hnext := Word.toNat_pos_of_ne_zero hzero
    omega

theorem idAfter_ne_zero {n : Word} (hn : n ≠ 0) : idAfter n ≠ 0 := by
  intro h
  have hvalue := idAfter_toNat hn
  rw [h] at hvalue
  exact absurd hvalue (by simp)

theorem serialAfter_succ (n : Word) (k : ℕ) :
    serialAfter n (k + 1) = idAfter (serialAfter n k) := Function.iterate_succ_apply' _ _ _

theorem serialAfter_ne_zero {n : Word} (hn : n ≠ 0) (k : ℕ) : serialAfter n k ≠ 0 := by
  induction k with
  | zero => exact hn
  | succ k ih =>
    rw [serialAfter_succ]
    exact idAfter_ne_zero ih

/-- Serial numbers run from one to the last word and come round. -/
theorem serialAfter_toNat {n : Word} (hn : n ≠ 0) (k : ℕ) :
    (serialAfter n k).toNat = (n.toNat - 1 + k) % (2 ^ 64 - 1) + 1 := by
  induction k with
  | zero =>
    have hpos := Word.toNat_pos_of_ne_zero hn
    have hlt := n.toNat_lt
    change n.toNat = _
    omega
  | succ k ih =>
    rw [serialAfter_succ, idAfter_toNat (serialAfter_ne_zero hn k), ih]
    omega

/-- Before they come round, two serial numbers differ. -/
theorem serialAfter_ne {n : Word} (hn : n ≠ 0) {k : ℕ} (hpos : 0 < k) (hk : k < 2 ^ 64 - 1) :
    serialAfter n k ≠ n := by
  intro h
  have hvalue := serialAfter_toNat hn k
  have hfirst := Word.toNat_pos_of_ne_zero hn
  have hlt := n.toNat_lt
  rw [h] at hvalue
  have hmod : n.toNat - 1 = (n.toNat - 1 + k) % (2 ^ 64 - 1) := by omega
  omega

/-! ## One call -/

section One

variable {loadb : Bytes → Option Mcp.Json} {env : CallEnv} {id : Bytes}

theorem Skips.refl (s : Bytes) : Skips loadb s s :=
  ⟨[], rfl, fun _ h => absurd h List.not_mem_nil⟩

theorem Skips.cons {e rest after : Bytes} (hline : (10 : UInt8) ∉ e)
    (hevent : IsEvent loadb (trimCr e)) (h : Skips loadb rest after) :
    Skips loadb (e ++ 10 :: rest) after := by
  obtain ⟨skipped, rfl, hskipped⟩ := h
  exact ⟨e :: skipped, by simp, List.forall_mem_cons.mpr ⟨⟨hline, hevent⟩, hskipped⟩⟩

theorem Skips.trans {before between after : Bytes} (h : Skips loadb before between)
    (h' : Skips loadb between after) : Skips loadb before after := by
  obtain ⟨skipped, rfl, hskipped⟩ := h
  obtain ⟨more, rfl, hmore⟩ := h'
  refine ⟨skipped ++ more, by rw [stream_append, List.append_assoc], ?_⟩
  exact List.forall_mem_append.mpr ⟨hskipped, hmore⟩

/-- What comes behind does not matter. -/
theorem Skips.behind {before after : Bytes} (h : Skips loadb before after) (behind : Bytes) :
    Skips loadb (before ++ behind) (after ++ behind) := by
  obtain ⟨skipped, rfl, hskipped⟩ := h
  exact ⟨skipped, by rw [List.append_assoc], hskipped⟩

theorem Parts.skips {before between after out : Bytes} {failed : Prop}
    (h : Skips loadb before between) (h' : Parts loadb id between after out failed) :
    Parts loadb id before after out failed := by
  obtain ⟨rest, hskips, hrest⟩ := h'
  exact ⟨rest, h.trans hskips, hrest⟩

theorem Parts.failed {before after out : Bytes} {failed : Prop} (h : Skips loadb before after)
    (hfailed : failed) : Parts loadb id before after out failed :=
  ⟨after, h, Or.inl ⟨hfailed, rfl⟩⟩

theorem frameNext_neg {inbox : Bytes} {frameMax : ℕ} {st : Status}
    (h : frameNext inbox frameMax = .error st) : st < 0 := by
  rcases notMem_or_line 10 inbox with hs | ⟨l, rest, hl, rfl⟩
  · rw [frameNext_notMem hs, verdict_tail hs] at h
    split_ifs at h <;>
    · obtain rfl := Except.error.inj h
      decide
  · by_cases hgood : goodLine frameMax l = true
    · rw [frameNext_line (proper_of_goodLine hgood hl)] at h
      cases h
    · rw [frameNext_bad hl hgood] at h
      split_ifs at h <;>
      · obtain rfl := Except.error.inj h
        decide

theorem not_event_of_responseKind {v : Json} : responseKind v ≠ .event := by
  unfold responseKind
  rcases v.getBool "ok" with _ | _ | _
  · intro h
    cases h
  · dsimp only
    split_ifs <;> intro h <;> cases h
  · dsimp only
    split_ifs <;> intro h <;> cases h

theorem responseKind_response {v : Json} {ok : Bool} (h : responseKind v = .response ok) :
    v.getBool "ok" = some true ∧ (v.member "result").isSome = true ∨
      v.getBool "ok" = some false ∧ (v.getObject "error").isSome = true := by
  unfold responseKind at h
  rcases hok : v.getBool "ok" with _ | _ | _
  · rw [hok] at h
    cases h
  · rw [hok] at h
    dsimp only at h
    split_ifs at h with herror
    exact Or.inr ⟨rfl, herror⟩
  · rw [hok] at h
    dsimp only at h
    split_ifs at h with hresult
    exact Or.inl ⟨rfl, hresult⟩

/-- What a frame is taken for, it is. -/
theorem frameKind_spec (loadb : Bytes → Option Json) (granted : Bool) (id frame : Bytes) :
    match frameKind loadb granted id frame with
    | .event => IsEvent loadb frame
    | .response _ => IsReply loadb id frame
    | .foreign => True := by
  unfold frameKind
  cases hparse : parseDoc loadb granted (clientLimits frame) frame with
  | error e => trivial
  | ok v =>
    have hload := loadb_of_parseDoc hparse
    dsimp only
    by_cases hobject : v.isObject = false
    · rw [if_pos hobject]
      trivial
    · rw [if_neg hobject]
      rw [Bool.not_eq_false] at hobject
      cases hid : v.member "id" with
      | none =>
        dsimp only
        by_cases hevent : (v.getString "event").isSome = true
        · rw [if_pos hevent]
          exact ⟨v, hload, hobject, hid, hevent⟩
        · rw [if_neg hevent]
          trivial
      | some w =>
        cases w with
        | string s =>
          dsimp only
          by_cases hsame : utf8Text s.toList = id
          · rw [if_pos hsame]
            cases hkind : responseKind v with
            | event => exact absurd hkind not_event_of_responseKind
            | response ok =>
              exact ⟨v, s, hload, hobject, hid, hsame, responseKind_response hkind⟩
            | foreign => trivial
          · rw [if_neg hsame]
            trivial
        | null => trivial
        | bool b => trivial
        | integer n => trivial
        | real bits => trivial
        | array xs => trivial
        | object ms => trivial

/-- A scan changes the inbox and the mark alone. It loses events, and behind them the response
it ends with. -/
structure Scanned.Sound (loadb : Bytes → Option Json) (c : Client) (r : Scanned) : Prop where
  keeps : ∃ inbox lastOk, r.client = { c with inbox, lastOk }
  more : r.status = none → Skips loadb c.inbox.data r.client.inbox.data
  ends : ∀ st, r.status = some st →
    Parts loadb c.id c.inbox.data r.client.inbox.data r.out.data (st < 0)

/-- A scan that failed with a frame before it has lost events alone. -/
theorem Scanned.Sound.of_neg {c : Client} {r : Scanned} {st : Status}
    (hkeeps : ∃ inbox lastOk, r.client = { c with inbox, lastOk }) (hst : r.status = some st)
    (hneg : st < 0) (hskips : Skips loadb c.inbox.data r.client.inbox.data) :
    r.Sound loadb c := by
  refine ⟨hkeeps, fun h => ?_, fun st' h => ?_⟩
  · rw [hst] at h
    cases h
  · obtain rfl := Option.some.inj (hst.symm.trans h)
    exact .failed hskips hneg

/-- An event that is consumed is skipped. -/
theorem skips_consume {c : Client} {frame : Bytes} {inbox : Buffer} {st : Status} {granted : Bool}
    (hnext : frameNext c.inbox.data ctlFrameMax = .ok frame)
    (hkind : frameKind loadb granted c.id frame = .event)
    (hconsume : frameConsume c.inbox frame.length = (inbox, st)) :
    st = .ok ∧ Skips loadb c.inbox.data inbox.data := by
  obtain ⟨l, rest, hl, hdata, -, rfl, left, hleft, rfl⟩ := frameConsume_frame hnext
  obtain ⟨rfl, rfl⟩ := Prod.mk.inj (hconsume.symm.trans hleft)
  have hevent := frameKind_spec loadb granted c.id (trimCr l)
  rw [hkind] at hevent
  refine ⟨rfl, ?_⟩
  rw [hdata]
  exact (Skips.refl _).cons hl hevent

theorem scanFrames_spec (loadb : Bytes → Option Json) (env : CallEnv) (c : Client) (out : Buffer) (budget : ℕ) :
    (scanFrames loadb env c out budget).Sound loadb c := by
  have hok : ¬ Status.ok < 0 := by decide
  fun_induction scanFrames loadb env c out budget with
  | case1 budget c hagain => exact ⟨⟨_, _, rfl⟩, fun _ => .refl _, nofun⟩
  | case2 budget c st hnext hagain =>
    exact .of_neg ⟨_, _, rfl⟩ rfl (frameNext_neg hnext) (.refl _)
  | case3 budget c frame hnext hkind => exact .of_neg ⟨_, _, rfl⟩ rfl (by decide) (.refl _)
  | case4 budget c frame hnext ok hkind out' st happend hneg =>
    exact .of_neg ⟨_, _, rfl⟩ rfl hneg (.refl _)
  | case5 budget c frame hnext ok hkind out' st happend hneg =>
    refine ⟨⟨_, _, rfl⟩, nofun, fun st' h => ?_⟩
    obtain rfl := Option.some.inj h
    obtain ⟨l, rest, hl, hdata, -, rfl, left, hleft, rfl⟩ := frameConsume_frame hnext
    have hreply := frameKind_spec loadb (env.granted budget) c.id (trimCr l)
    rw [hkind] at hreply
    have hout : out'.data = trimCr l := by
      have hfits : 0 ≤ (out.clear.append env.outAlloc (trimCr l)).2 := by
        rw [happend]
        exact not_lt.mp hneg
      have hdata' := (Buffer.append_of_ok hfits).1
      rw [happend] at hdata'
      exact hdata'
    refine ⟨_, .refl _, Or.inr ⟨l, ?_, hl, hout, hout ▸ hreply⟩⟩
    rw [hleft]
    exact hdata
  | case6 budget c frame hnext hkind inbox st hconsume hneg =>
    obtain ⟨rfl, -⟩ := skips_consume hnext hkind hconsume
    exact absurd hneg hok
  | case7 c frame hnext inbox st hconsume hneg hkind =>
    exact .of_neg ⟨_, _, rfl⟩ rfl (by decide) (skips_consume hnext hkind hconsume).2
  | case8 c frame hnext inbox st hconsume hneg left hkind ih =>
    have hskips := (skips_consume hnext hkind hconsume).2
    exact ⟨ih.keeps, fun h => hskips.trans (ih.more h), fun st h => .skips hskips (ih.ends st h)⟩

/-- The wait loses events, and the response it ends with, from what was there and what arrived. -/
theorem awaitFrames_spec (loadb : Bytes → Option Json) (env : CallEnv) (c : Client) (out : Buffer) (budget : ℕ) (arrivals : List Arrival) :
    let r := awaitFrames loadb env c out budget arrivals
    (∃ inbox lastOk, r.1 = { c with inbox, lastOk }) ∧
      ∃ n, Parts loadb c.id (c.inbox.data ++ received (arrivals.take n)) r.1.inbox.data
        r.2.1.data (r.2.2 < 0) := by
  have hagain : Status.again < 0 := by decide
  have heof : Status.eof < 0 := by decide
  have hnothing (s : Bytes) : Skips loadb (s ++ received []) s := by
    rw [show received [] = [] from rfl, List.append_nil]
    exact .refl s
  have hfed {c : Client} {inbox : Buffer} {p : Bytes} {st : Status}
      (happend : c.inbox.append env.inboxAlloc (p.take clientChunk) = (inbox, st))
      (hneg : ¬ st < 0) : inbox.data = c.inbox.data ++ p.take clientChunk := by
    have hfits : 0 ≤ (c.inbox.append env.inboxAlloc (p.take clientChunk)).2 := by
      rw [happend]
      exact not_lt.mp hneg
    have hdata := (Buffer.append_of_ok hfits).1
    rw [happend] at hdata
    exact hdata
  fun_induction awaitFrames loadb env c out budget arrivals with
  | case1 c out budget => exact ⟨⟨_, _, rfl⟩, 0, .failed (hnothing _) hagain⟩
  | case2 c out budget arrivals ih =>
    obtain ⟨hkeeps, n, hn⟩ := ih
    exact ⟨hkeeps, n + 1, hn⟩
  | case3 c out budget f arrivals => exact ⟨⟨_, _, rfl⟩, 0, .failed (hnothing _) f.property⟩
  | case4 c out budget p arrivals hnil =>
    exact ⟨⟨_, _, rfl⟩, 0, .failed (hnothing _) heof⟩
  | case5 c out budget p arrivals hnil inbox st happend hneg =>
    have hfull : (c.inbox.append env.inboxAlloc (p.take clientChunk)).2 < 0 := by
      rw [happend]
      exact hneg
    have hsame := Buffer.append_of_neg hfull
    rw [happend] at hsame
    obtain rfl : inbox = c.inbox := hsame
    exact ⟨⟨_, _, rfl⟩, 0, .failed (hnothing _) hneg⟩
  | case6 c out budget p arrivals hnil inbox st happend hneg d out' budget' st' hscan =>
    obtain ⟨hkeeps, -, hends⟩ := scanFrames_spec loadb env { c with inbox } out budget
    rw [hscan] at hkeeps hends
    refine ⟨hkeeps, 1, ?_⟩
    have hparts := hends st' rfl
    dsimp only at hparts
    rw [hfed happend hneg] at hparts
    simpa [received] using hparts
  | case7 c out budget p arrivals hnil inbox st happend hneg d out' budget' hscan ih =>
    obtain ⟨⟨kept, lastOk, hd⟩, hmore, -⟩ :=
      scanFrames_spec loadb env { c with inbox } out budget
    rw [hscan] at hd hmore
    have hskips := hmore rfl
    dsimp only at hd hskips
    subst hd
    rw [hfed happend hneg] at hskips
    obtain ⟨⟨inbox', lastOk', hkeeps⟩, n, hn⟩ := ih
    refine ⟨⟨inbox', lastOk', hkeeps⟩, n + 1, ?_⟩
    have hparts := Parts.skips (hskips.behind (received (arrivals.take n))) hn
    rw [List.append_assoc] at hparts
    exact hparts

theorem nextResponse_spec (loadb : Bytes → Option Json) (env : CallEnv) (c : Client) (out : Buffer) :
    let r := nextResponse loadb env c out
    (∃ inbox lastOk, r.1 = { c with inbox, lastOk }) ∧
      ∃ n, Parts loadb c.id (c.inbox.data ++ received (env.arrivals.take n)) r.1.inbox.data
        r.2.1.data (r.2.2 < 0) := by
  obtain ⟨hkeeps, hmore, hends⟩ :=
    scanFrames_spec loadb env c out eventSkipMax
  unfold nextResponse
  rcases hscan : scanFrames loadb env c out eventSkipMax with ⟨d, out', budget, _ | st⟩
  · rw [hscan] at hkeeps hmore
    obtain ⟨inbox, lastOk, hd⟩ := hkeeps
    have hskips := hmore rfl
    dsimp only at hd hskips ⊢
    subst hd
    obtain ⟨⟨inbox', lastOk', hkeeps⟩, n, hn⟩ := awaitFrames_spec loadb env
      { c with inbox, lastOk } out' budget env.arrivals
    refine ⟨⟨inbox', lastOk', hkeeps⟩, n, ?_⟩
    exact Parts.skips (hskips.behind (received (env.arrivals.take n))) hn
  · rw [hscan] at hkeeps hends
    refine ⟨hkeeps, 0, ?_⟩
    rw [List.take_zero, show received [] = [] from rfl, List.append_nil]
    exact hends st rfl

theorem prepare_keeps (env : CallEnv) (c : Client) (r : ClientRequest) :
    ∃ outbox, (c.prepare env r).1 =
      { c with lastOk := false, id := idOf c.nextId, nextId := idAfter c.nextId, outbox } := by
  unfold Client.prepare
  dsimp only
  rcases (run (Writer.step env.outboxAlloc) (Writer.init c.outbox.clear)
    (requestCalls (idOf c.nextId) r)).finish with ⟨w, st⟩
  dsimp only
  split_ifs
  · exact ⟨_, rfl⟩
  · exact ⟨_, rfl⟩

/-- An admitted call takes the next serial number, and loses what it skips and hands out. -/
theorem call_spec (c : Client) (a : Asked) :
    (c.after loadb a).nextId =
        (if c.check loadb a.env a.request < 0 then c.nextId else idAfter c.nextId) ∧
      Correlates loadb c a := by
  have hnothing (out : Bytes) {failed : Prop} (hfailed : failed) :
      ∃ n, Parts loadb (idOf c.nextId) (c.inbox.data ++ received (a.env.arrivals.take n))
        c.inbox.data out failed := by
    refine ⟨0, .failed ?_ hfailed⟩
    rw [List.take_zero, show received [] = [] from rfl, List.append_nil]
    exact .refl _
  unfold Correlates Client.after Client.call
  by_cases hchecked : c.check loadb a.env a.request < 0
  · rw [if_pos hchecked, if_pos hchecked]
    exact ⟨rfl, hnothing _ hchecked⟩
  · rw [if_neg hchecked, if_neg hchecked]
    obtain ⟨outbox, hkeeps⟩ := prepare_keeps a.env c a.request
    rcases hprepare : c.prepare a.env a.request with ⟨d, st⟩
    rw [hprepare] at hkeeps
    dsimp only at hkeeps ⊢
    subst hkeeps
    by_cases hst : st < 0
    · rw [if_pos hst]
      exact ⟨rfl, hnothing _ hst⟩
    · rw [if_neg hst]
      dsimp only
      rcases sendAll a.env.sends outbox.data with ⟨sent, st'⟩
      dsimp only
      by_cases hst' : st' < 0
      · rw [if_pos hst']
        exact ⟨rfl, hnothing _ hst'⟩
      · rw [if_neg hst']
        obtain ⟨⟨inbox, lastOk, hc⟩, hparts⟩ := nextResponse_spec loadb a.env
          { c with lastOk := false, id := idOf c.nextId, nextId := idAfter c.nextId, outbox }
          a.out.clear
        refine ⟨?_, hparts⟩
        change (nextResponse loadb a.env _ a.out.clear).1.nextId = _
        rw [hc]

end One

/-! ## All calls of a client -/

section Calls

variable {loadb : Bytes → Option Json}

/-- A run takes a serial number for each call at most. -/
theorem run_serial (loadb : Bytes → Option Json) (as : List Asked) (c : Client) :
    ∃ k ≤ as.length, (run (Client.after loadb) c as).nextId = serialAfter c.nextId k := by
  induction as generalizing c with
  | nil => exact ⟨0, le_rfl, rfl⟩
  | cons a as ih =>
    obtain ⟨k, hk, hrun⟩ := ih (c.after loadb a)
    rw [run_cons, hrun, (call_spec c a).1, List.length_cons]
    split_ifs
    · exact ⟨k, by omega, rfl⟩
    · exact ⟨k + 1, by omega, rfl⟩

theorem reply_unique {id id' frame : Bytes} (h : IsReply loadb id frame)
    (h' : IsReply loadb id' frame) : id = id' := by
  obtain ⟨v, s, hload, -, hid, rfl, -⟩ := h
  obtain ⟨v', s', hload', -, hid', rfl, -⟩ := h'
  obtain rfl := Option.some.inj (hload.symm.trans hload')
  rw [hid, Option.some.injEq, Json.string.injEq] at hid'
  rw [hid']

/-- The calls of a client take events and their own responses. Within `2 ^ 64 - 2` calls none
returns the response of an earlier one. -/
theorem calls_correlate (loadb : Bytes → Option Json) (as : List Asked) :
    Along (Client.after loadb) (Correlates loadb) Client.init as ∧
      ∀ pre b mid a post, as = pre ++ b :: (mid ++ a :: post) → mid.length + 1 < 2 ^ 64 - 1 →
        let earlier := run (Client.after loadb) Client.init pre
        let later := run (Client.after loadb) Client.init (pre ++ b :: mid)
        ¬ earlier.check loadb b.env b.request < 0 →
        ¬ (later.call loadb a.env a.out a.request).status < 0 →
        ¬ IsReply loadb (idOf earlier.nextId) (later.call loadb a.env a.out a.request).out.data := by
  refine ⟨(along_iff_forall_split _ _).mpr fun pre a post _ => (call_spec _ a).2, ?_⟩
  rintro pre b mid a post - hnear earlier later hchecked hok hreply
  have hfirst : earlier.nextId ≠ 0 := by
    obtain ⟨k, -, hk⟩ := run_serial loadb pre Client.init
    exact hk ▸ serialAfter_ne_zero (by decide : Client.init.nextId ≠ 0) k
  have hserial : ∃ k ≤ mid.length, later.nextId = serialAfter earlier.nextId (k + 1) := by
    obtain ⟨k, hk, hrun⟩ := run_serial loadb mid (earlier.after loadb b)
    refine ⟨k, hk, ?_⟩
    rw [(call_spec earlier b).1, if_neg hchecked] at hrun
    exact (congrArg Client.nextId (run_append _ pre (b :: mid))).trans hrun
  obtain ⟨k, hk, hlater⟩ := hserial
  have hlate : later.nextId ≠ 0 := hlater ▸ serialAfter_ne_zero hfirst (k + 1)
  obtain ⟨n, rest, -, ⟨hneg, -⟩ | ⟨l, -, -, -, hown⟩⟩ := (call_spec later a).2
  · exact hok hneg
  · have hsame := idOf_inj hfirst hlate (reply_unique hreply hown)
    rw [hlater] at hsame
    exact serialAfter_ne hfirst (Nat.succ_pos k) (by omega) hsame.symm

end Calls

/-! ## The serial numbers come round -/

/-- A response with this identifier. -/
def replyTo (id : String) : Bytes :=
  ascii "\x7b\"id\":\"" ++ ascii id ++ ascii "\",\"ok\":true,\"result\":\x7b\x7d\x7d"

/-- A library that knows the responses to the first two calls. -/
def loadReply (t : Bytes) : Option Json :=
  (["ctl-1", "ctl-2"].find? fun id => t = replyTo id).map fun id =>
    .object [("id", .string id), ("ok", .bool true), ("result", .object [])]

/-- A call to which nothing comes, or this response. -/
def statusCall (reply : Option String) : Asked :=
  { env :=
      { willing with
        sends := [.wrote ctlFrameMax]
        arrivals := reply.toList.map fun id => .got (replyTo id ++ [10]) }
    out := Buffer.init ctlFrameMax
    request := ⟨ascii "runtime.status", none⟩ }

theorem calls_correlate_second :
    ¬ IsReply loadReply (idOf Client.init.nextId)
      ((run (Client.after loadReply) Client.init [statusCall none]).call loadReply
        (statusCall (some "ctl-2")).env (statusCall (some "ctl-2")).out
        (statusCall (some "ctl-2")).request).out.data :=
  (calls_correlate loadReply [statusCall none, statusCall (some "ctl-2")]).2 [] (statusCall none) []
    (statusCall (some "ctl-2")) [] rfl (by decide) (by decide) (by decide)

/-- Nothing was ever read. -/
structure Idle (c : Client) : Prop where
  initialized : c.initialized = true
  connected : c.connected = true
  inbox : c.inbox = Buffer.init ctlFrameMax
  outbox : c.outbox.max = ctlFrameMax

theorem sendAll_whole {n : ℕ} {bytes : Bytes} (hn : n ≠ 0) (h : bytes.length ≤ n) :
    (sendAll [.wrote n] bytes).2 = .ok := by
  cases bytes with
  | nil => rfl
  | cons b bytes =>
    rw [sendAll, if_neg hn, List.drop_of_length_le h]
    rfl

theorem Idle.checked {c : Client} (h : Idle c) (loadb : Bytes → Option Json)
    (reply : Option String) :
    ¬ c.check loadb (statusCall reply).env (statusCall reply).request < 0 := by
  have hchecked : c.check loadb (statusCall reply).env (statusCall reply).request = .ok := by
    unfold Client.check
    rw [h.initialized, h.connected]
    rfl
  rw [hchecked]
  decide

/-- A call of an idle client comes to wait. -/
theorem Idle.call {c : Client} (h : Idle c) (loadb : Bytes → Option Json) (reply : Option String) :
    ∃ outbox sent, outbox.max = ctlFrameMax ∧
      c.call loadb (statusCall reply).env (statusCall reply).out (statusCall reply).request =
        match awaitFrames loadb (statusCall reply).env
            { c with lastOk := false, id := idOf c.nextId, nextId := idAfter c.nextId, outbox }
            (Buffer.init ctlFrameMax) eventSkipMax (statusCall reply).env.arrivals with
        | (d, out, st) => ⟨d, out, sent, st⟩ := by
  have hready := h.checked loadb reply
  have hprepared := prepare_of_check hready rfl h.outbox
  have hmax := prepare_max (statusCall reply).env c (statusCall reply).request
  obtain ⟨outbox, hkeeps⟩ := prepare_keeps (statusCall reply).env c
    (statusCall reply).request
  rw [hkeeps, h.outbox] at hmax
  dsimp only at hmax
  have hsent : (sendAll (statusCall reply).env.sends outbox.data).2 = .ok :=
    sendAll_whole (by decide) (hmax ▸ outbox.len_le_cap.trans outbox.cap_le_max)
  refine ⟨outbox, (sendAll (statusCall reply).env.sends outbox.data).1, hmax, ?_⟩
  unfold Client.call
  rw [if_neg hready, show c.prepare _ _ = (_, Status.ok) from Prod.ext hkeeps hprepared]
  dsimp only
  rw [if_neg (by decide : ¬ Status.ok < 0)]
  rcases hsend : sendAll (statusCall reply).env.sends outbox.data with ⟨sent, st⟩
  rw [hsend] at hsent
  obtain rfl : st = .ok := hsent
  dsimp only
  rw [if_neg (by decide)]
  have hscan : nextResponse loadb (statusCall reply).env
      { c with lastOk := false, id := idOf c.nextId, nextId := idAfter c.nextId, outbox }
      (statusCall reply).out.clear =
        awaitFrames loadb (statusCall reply).env
          { c with lastOk := false, id := idOf c.nextId, nextId := idAfter c.nextId, outbox }
          (Buffer.init ctlFrameMax) eventSkipMax (statusCall reply).env.arrivals := by
    unfold nextResponse
    unfold scanFrames
    rw [h.inbox]
    rfl
  rw [hscan]

/-- A call to which nothing comes leaves an idle client. -/
theorem Idle.after {c : Client} (h : Idle c) : Idle (c.after loadReply (statusCall none)) := by
  obtain ⟨outbox, sent, hmax, hcall⟩ := h.call loadReply none
  unfold Client.after
  rw [hcall]
  exact ⟨h.initialized, h.connected, h.inbox, hmax⟩

theorem run_silent (n : ℕ) {c : Client} (h : Idle c) :
    let d := run (Client.after loadReply) c (List.replicate n (statusCall none))
    Idle d ∧ d.nextId = serialAfter c.nextId n := by
  induction n generalizing c with
  | zero => exact ⟨h, rfl⟩
  | succ n ih =>
    obtain ⟨hidle, hserial⟩ := ih h.after
    rw [List.replicate_succ]
    refine ⟨hidle, hserial.trans ?_⟩
    rw [(call_spec c (statusCall none)).1, if_neg (h.checked loadReply none)]
    rfl

/-- The response to the first call is returned to an idle client in front of that number. -/
theorem Idle.answered {c : Client} (h : Idle c) (hfirst : c.nextId = 1) :
    let r := c.call loadReply (statusCall (some "ctl-1")).env (statusCall (some "ctl-1")).out
      (statusCall (some "ctl-1")).request
    r.status = .ok ∧ r.out.data = replyTo "ctl-1" := by
  obtain ⟨outbox, sent, -, hcall⟩ := h.call loadReply (some "ctl-1")
  obtain ⟨hinit, hconn, hinbox, -⟩ := h
  rcases c with ⟨connected, nextId, lastOk, initialized, inbox, outbox', id⟩
  dsimp only at hinit hconn hinbox hfirst
  subst hinit hconn hinbox hfirst
  dsimp only
  rw [hcall]
  constructor
  · rfl
  · rfl

/-- After `2 ^ 64 - 1` calls to which nothing came, the response to the first of them is returned
by the next. -/
theorem calls_comeRound :
    ¬ ∀ (loadb : Bytes → Option Json) (pre mid : List Asked) (b a : Asked),
      let earlier := run (Client.after loadb) Client.init pre
      let later := run (Client.after loadb) Client.init (pre ++ b :: mid)
      ¬ earlier.check loadb b.env b.request < 0 →
      (earlier.call loadb b.env b.out b.request).status < 0 →
      ¬ (later.call loadb a.env a.out a.request).status < 0 →
      ¬ IsReply loadb (idOf earlier.nextId) (later.call loadb a.env a.out a.request).out.data := by
  intro h
  have hidle : Idle Client.init := ⟨rfl, rfl, rfl, rfl⟩
  obtain ⟨n, hn⟩ : ∃ n, n + 1 = 2 ^ 64 - 1 := ⟨2 ^ 64 - 2, by norm_num⟩
  obtain ⟨hlater, hserial⟩ := run_silent (n + 1) hidle
  have hfirst : (run (Client.after loadReply) Client.init
      (List.replicate (n + 1) (statusCall none))).nextId = 1 := by
    apply UInt64.toNat_inj.mp
    rw [hserial, serialAfter_toNat (by decide), hn]
    decide
  obtain ⟨hok, hout⟩ := hlater.answered hfirst
  refine h loadReply [] (List.replicate n (statusCall none)) (statusCall none)
    (statusCall (some "ctl-1")) (by decide) (by decide) ?_ ?_
  · rw [List.nil_append, ← List.replicate_succ, hok]
    decide
  · rw [List.nil_append, ← List.replicate_succ, hout]
    exact ⟨_, "ctl-1", rfl, rfl, rfl, by decide, Or.inl ⟨rfl, rfl⟩⟩

end AsmFlow.Control
