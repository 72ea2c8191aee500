import AsmFlow.Providers.Steps

/-!
# Conservation of concurrency slots

The counter of transfers in flight against a provider is the number of exchanges
that hold a claim on it, and the engine's count of exchanges is the number of
occupied slots. Each function of an exchange keeps its own account straight,
whatever the other exchanges hold; the engine adds the accounts up.
-/

namespace AsmFlow.Providers

open Library Routing

/-- How often an exchange has claimed a concurrency slot of provider state `k`. -/
def claimsOf (k : ℕ) (trace : List Event) : ℕ :=
  trace.countP fun e => match e with
    | .attempted _ j => j == k
    | _ => false

/-- How often it has given one back. -/
def releasesOf (k : ℕ) (trace : List Event) : ℕ :=
  trace.countP fun e => match e with
    | .released j => j == k
    | _ => false

/-- An exchange's account, beside what the others hold of each provider. -/
structure Settled (others : ℕ → ℕ) (f : Focus) : Prop where
  active : ∀ k, f.table.activeOf k = others k + (f.x.holds k).toNat
  ledger : ∀ k, claimsOf k f.trace = releasesOf k f.trace + (f.x.holds k).toNat

section Ledger

variable (k : ℕ) (trace : List Event)

@[simp] theorem claimsOf_append (more : List Event) :
    claimsOf k (trace ++ more) = claimsOf k trace + claimsOf k more := List.countP_append

@[simp] theorem releasesOf_append (more : List Event) :
    releasesOf k (trace ++ more) = releasesOf k trace + releasesOf k more := List.countP_append

@[simp] theorem claimsOf_attempted (i j : ℕ) :
    claimsOf k [.attempted i j] = (j == k).toNat := by
  cases h : j == k <;> simp [claimsOf, h]

@[simp] theorem releasesOf_released (j : ℕ) : releasesOf k [.released j] = (j == k).toNat := by
  cases h : j == k <;> simp [releasesOf, h]

end Ledger

theorem holds_of_not_counted {x : Exchange} (h : x.counted = false) (k : ℕ) :
    x.holds k = false := by
  simp [Exchange.holds, h]

section Account

variable {others : ℕ → ℕ} {f : Focus}

/-- Whatever keeps the claim, the books and the slot keeps the account. -/
theorem Settled.of_same (h : Settled others f) {f' : Focus}
    (hholds : ∀ k, f'.x.holds k = f.x.holds k)
    (htable : ∀ k, f'.table.activeOf k = f.table.activeOf k)
    (hclaims : ∀ k, claimsOf k f'.trace = claimsOf k f.trace)
    (hreleases : ∀ k, releasesOf k f'.trace = releasesOf k f.trace) : Settled others f' where
  active := fun k => by rw [htable, hholds]; exact h.active k
  ledger := fun k => by rw [hclaims, hreleases, hholds]; exact h.ledger k

/-- A write to the record that is not about the claim. -/
theorem Settled.written (h : Settled others f) {g : Exchange → Exchange}
    (hholds : ∀ k, (g f.x).holds k = f.x.holds k) : Settled others (f.onExchange g) :=
  h.of_same hholds (fun _ => rfl) (fun _ => rfl) fun _ => rfl

theorem Settled.released (h : Settled others f) (verdict : Status) (nowNs : Word) :
    Settled others (attemptRelease f verdict nowNs) := by
  rcases attemptRelease_cases f verdict nowNs with
    ⟨-, heq⟩ | ⟨-, hptr, heq⟩ | ⟨k, table, tail, hcounted, hptr, hself, hother, hreports, heq⟩
  · rw [heq]
    exact h
  · rw [heq]
    apply h.written
    intro k
    simp [Exchange.holds, hptr]
  · have hheld : f.x.holds k = true := by simp [Exchange.holds, hcounted, hptr]
    have hfree (j : ℕ) : ({ f.x with counted := false } : Exchange).holds j = false :=
      holds_of_not_counted rfl j
    have htail (j : ℕ) : claimsOf j (.released k :: tail) = 0 ∧
        releasesOf j (.released k :: tail) = (k == j).toNat := by
      rcases hreports with ⟨-, rfl⟩ | ⟨-, -, rfl⟩ | ⟨-, -, rfl⟩
      all_goals cases hkj : k == j <;> simp [claimsOf, releasesOf, hkj]
    rw [heq]
    refine ⟨fun j => ?_, fun j => ?_⟩
    · rw [hfree]
      have hact := h.active j
      by_cases hj : j = k
      · subst hj
        rw [hself, hact, hheld]
        simp
      · have hnot : f.x.holds j = false := by
          simp [Exchange.holds, hptr, Ne.symm hj]
        rw [hother j hj, hact, hnot]
    · rw [hfree, claimsOf_append, releasesOf_append, (htail j).1, (htail j).2]
      have hled := h.ledger j
      by_cases hj : j = k
      · subst hj
        rw [hheld] at hled
        simpa using hled
      · have hnot : f.x.holds j = false := by
          simp [Exchange.holds, hptr, Ne.symm hj]
        rw [hnot] at hled
        have hkj : (k == j) = false := by simpa using Ne.symm hj
        simpa [hkj] using hled

theorem Settled.claimed (h : Settled others f) (hfree : f.x.counted = false) {table : Table}
    (htable : ∀ k, table.activeOf k = f.table.activeOf k) {c : Candidate}
    (hstate : c.state < table.providers.length) (hroom : ∀ k, others k + 1 < 2 ^ 64)
    (rs : Option ℕ) (nowNs : Word) :
    Settled others (claim { f with table } c rs nowNs) := by
  have hact (k : ℕ) : table.activeOf k = others k := by
    rw [htable, h.active, holds_of_not_counted hfree]
    rfl
  have hholds (k : ℕ) : (claim { f with table } c rs nowNs).x.holds k = (c.state == k) := by
    simp [claim, Exchange.holds]
  refine ⟨fun k => ?_, fun k => ?_⟩
  · rw [hholds]
    simp only [claim, countServed_activeOf]
    by_cases hk : c.state = k
    · subst hk
      have hlt : table.activeOf c.state + 1 < 2 ^ 64 := by rw [hact]; exact hroom _
      rw [onProvider_activeOf_begin hstate hlt, hact]
      simp
    · rw [onProvider_activeOf_of_ne hk, hact]
      simp [hk]
  · have hled := h.ledger k
    rw [holds_of_not_counted hfree] at hled
    rw [hholds]
    have hrel : releasesOf k [Event.attempted c.index c.state] = 0 := rfl
    simp only [claim, claimsOf_append, releasesOf_append, claimsOf_attempted, hrel]
    simp only [Bool.toNat_false] at hled
    omega

theorem Settled.started (h : Settled others f) (hfree : f.x.counted = false)
    (hroom : ∀ k, others k + 1 < 2 ^ 64) (env : StartEnv) :
    Settled others (attemptStart f env).1 := by
  rcases attemptStart_cases f env with ⟨table, st, htable, -, heq⟩ |
    ⟨table, c, rs, htable, hstate, -, -, heq⟩
  · rw [heq]
    exact h.of_same (fun _ => rfl) htable (fun _ => rfl) fun _ => rfl
  · rw [heq]
    have hclaim := h.claimed hfree htable hstate hroom rs env.nowNs
    obtain ⟨ht, htr, hst, -⟩ := launch_spec (claim { f with table } c rs env.nowNs) env
    exact hclaim.of_same (holds_of_standing hst) (fun k => by rw [ht]) (fun k => by rw [htr])
      fun k => by rw [htr]

/-- An entry that is neither a claim nor a release leaves the books as they are. -/
theorem Settled.logged (h : Settled others f) {e : Event} (hclaim : ∀ k, claimsOf k [e] = 0)
    (hrelease : ∀ k, releasesOf k [e] = 0) : Settled others (f.log e) :=
  h.of_same (fun _ => rfl) (fun _ => rfl)
    (fun k => by simp [Focus.log, hclaim]) fun k => by simp [Focus.log, hrelease]

theorem Settled.ended (h : Settled others f) (verdict : Status) :
    Settled others (endTransfer f verdict) := by
  have hwrite : Settled others
      (f.onExchange fun x => { x with state := .finishing, result := verdict }) :=
    h.written fun _ => rfl
  unfold endTransfer
  dsimp only
  split
  · exact hwrite
  · exact hwrite.logged (fun _ => rfl) fun _ => rfl

theorem Settled.answered (h : Settled others f) (verdict : Status) (r : FinishEnv) :
    Settled others (answerClient f verdict r) := by
  have hrel := h.released verdict r.answerNs
  unfold answerClient
  dsimp only
  split_ifs
  · exact hrel.written fun _ => rfl
  · exact hrel
  · have hwrite : Settled others ((attemptRelease f verdict r.answerNs).onExchange fun x =>
        { x with committed := true }) := hrel.written fun _ => rfl
    exact hwrite.logged (fun _ => rfl) fun _ => rfl
  · exact hrel

theorem Settled.fellBack (h : Settled others f) (hroom : ∀ k, others k + 1 < 2 ^ 64)
    (verdict : Status) (r : FinishEnv) : Settled others (fallBack f verdict r).1 := by
  have hrel := h.released verdict r.releaseNs
  have htorn : Settled others (attemptTeardown (attemptRelease f verdict r.releaseNs)) :=
    hrel.written fun _ => rfl
  apply htorn.started
  · simp [attemptTeardown, Focus.onExchange, attemptRelease_x]
  · exact hroom

theorem Settled.finished (h : Settled others f) (hroom : ∀ k, others k + 1 < 2 ^ 64)
    (r : FinishEnv) : Settled others (finishExchange f r).1 := by
  have hend := h.ended (r.verdict f.x)
  have hback := hend.fellBack hroom (r.verdict f.x) r
  rcases finishExchange_cases f r with
    ⟨-, heq⟩ | ⟨-, f', st, hfall, ⟨-, heq⟩ | ⟨-, heq⟩⟩
  · rw [heq]
    exact hend.answered _ r
  · rw [hfall] at hback
    rw [heq]
    have hwrite : Settled others (f'.onExchange markFinishing) :=
      hback.written fun _ => rfl
    exact hwrite.answered _ r
  · rw [hfall] at hback
    rw [heq]
    exact hback

theorem Settled.opened (h : Settled others f) (hfree : f.x.counted = false)
    (hroom : ∀ k, others k + 1 < 2 ^ 64) (s : StartRequest) :
    Settled others (startExchange f s).1 := by
  have hopen : Settled others (f.onExchange (openRecord s)) := h.written fun _ => rfl
  have hprep : Settled others ((f.onExchange (openRecord s)).onExchange (prepare s)) :=
    hopen.written fun _ => rfl
  have hstart := hprep.started hfree hroom s.start
  rcases startExchange_cases f s with
    ⟨st, -, heq⟩ | ⟨st, -, heq⟩ | ⟨f', st, hatt, ⟨-, heq⟩ | ⟨-, heq⟩⟩
  · rw [heq]
    exact hopen
  · rw [heq]
    exact hprep.written fun _ => rfl
  · rw [hatt] at hstart
    rw [heq]
    exact hstart.written fun _ => rfl
  · rw [hatt] at hstart
    rw [heq]
    exact hstart

theorem Settled.headed (h : Settled others f) (line : HeaderLine) :
    Settled others (onHeader f line) := by
  unfold onHeader
  split_ifs
  · exact h
  · exact h
  · cases line with
    | statusLine => exact h.written fun _ => rfl
    | field => exact h
    | blank status eventStream writeHead =>
      have hseen : Settled others (f.onExchange fun x =>
          { x with status, upstreamSse := x.upstreamSse || eventStream }) :=
        h.written fun _ => rfl
      dsimp only [headersComplete]
      split_ifs
      · exact hseen
      · exact hseen
      · have hsent : Settled others ((f.onExchange fun x =>
            { x with status, upstreamSse := x.upstreamSse || eventStream }).onExchange fun x =>
              { x with headSent := true, committed := true }) :=
          hseen.written fun _ => rfl
        exact (hsent.logged (fun _ => rfl) fun _ => rfl).logged (fun _ => rfl) fun _ => rfl

theorem Settled.wrote (h : Settled others f) (o : WriteEnv) :
    Settled others (onWrite f o) := by
  unfold onWrite
  split_ifs
  · exact h
  · exact h
  · exact h.written fun _ => rfl
  · exact h.written fun _ => rfl

theorem Settled.disposed (h : Settled others f) (nowNs : Word) :
    Settled others (disposeExchange f nowNs) := by
  have hrel := h.released .upCancelled nowNs
  apply hrel.written
  intro k
  have hcounted : (attemptRelease f .upCancelled nowNs).x.counted = false := by
    rw [attemptRelease_x]
  rw [holds_of_not_counted hcounted]
  rfl

/-- Every step of an exchange keeps its account. -/
theorem Settled.stepped (h : Settled others f) (hroom : ∀ k, others k + 1 < 2 ^ 64)
    (e : ExchangeAction) : Settled others (exchangeStep f e) := by
  have hforget (g : Focus) (hg : Settled others g) : Settled others (g.onExchange forgetClient) :=
    hg.written fun _ => rfl
  cases e with
  | header line => exact h.headed line
  | write o => exact h.wrote o
  | drained => exact h.written fun _ => rfl
  | finish r =>
    unfold exchangeStep
    split_ifs
    · exact h.disposed r.releaseNs
    · cases f.x.conn with
      | none => exact ((h.ended _).released _ _).disposed _
      | some c =>
        dsimp only
        split_ifs
        · exact h.finished hroom r
        · exact (hforget _ (h.finished hroom r)).disposed _
  | detach nowNs =>
    have hmark : Settled others ((f.onExchange forgetClient).onExchange markCancelled) :=
      (hforget f h).written fun _ => rfl
    have hgone : Settled others
        (((f.onExchange forgetClient).onExchange markCancelled).log .clientGone) :=
      hmark.logged (fun _ => rfl) fun _ => rfl
    exact (hgone.logged (fun _ => rfl) fun _ => rfl).disposed nowNs
  | abandon nowNs => exact (hforget f h).disposed nowNs
  | dispose nowNs => exact h.disposed nowNs

theorem Settled.begun (h : Settled others f) (hfree : f.x.counted = false)
    (hroom : ∀ k, others k + 1 < 2 ^ 64) (s : StartRequest) : Settled others (startStep f s) := by
  have hopen := h.opened hfree hroom s
  unfold startStep
  split_ifs
  · exact hopen.disposed s.disposeNs
  · exact hopen

end Account

/-- The exchange of that serial number, when it holds a claim on provider state `k`. -/
def holdsAs (serial k : ℕ) (x : Exchange) : Bool := x.live && (x.serial == serial && x.holds k)

/-- The accounts of all exchanges add up. -/
structure Conserved (w : World) : Prop where
  active : ∀ k, w.table.activeOf k = occupancy (Exchange.holds · k) w.slots
  occupied : w.active.toNat = occupancy Exchange.live w.slots
  ceiling : w.active.toNat ≤ w.maxActive.toNat
  ledger : ∀ n h, w.history[n]? = some h → ∀ k,
    claimsOf k h.trace = releasesOf k h.trace + occupancy (holdsAs n k) w.slots

section Sums

variable {w : World} {i : Slot}

/-- What the exchanges in the other slots hold of each provider. -/
def heldByOthers (w : World) (i : Slot) (k : ℕ) : ℕ :=
  occupancy (Exchange.holds · k) w.slots - ((w.slots i).holds k).toNat

theorem heldByOthers_add (w : World) (i : Slot) (k : ℕ) :
    heldByOthers w i k + ((w.slots i).holds k).toNat = occupancy (Exchange.holds · k) w.slots := by
  unfold heldByOthers
  cases hheld : (w.slots i).holds k with
  | false => rw [Bool.toNat_false, Nat.sub_zero, Nat.add_zero]
  | true =>
    have hpos : 0 < occupancy (Exchange.holds · k) w.slots := occupancy_pos hheld
    simp only [Bool.toNat_true]
    omega

theorem heldByOthers_le (w : World) (i : Slot) (k : ℕ) :
    heldByOthers w i k ≤ Fintype.card Slot :=
  le_trans (Nat.sub_le _ _) (occupancy_le_card (Exchange.holds · k) w.slots)

theorem heldByOthers_room (w : World) (i : Slot) (k : ℕ) : heldByOthers w i k + 1 < 2 ^ 64 := by
  have hle := heldByOthers_le w i k
  rw [show Fintype.card Slot = 64 from Fintype.card_fin 64] at hle
  generalize heldByOthers w i k = n at hle ⊢
  omega

/-- No other slot stands for the same exchange. -/
theorem holdsAs_other (hw : w.Indexed) (hlive : (w.slots i).live = true) (k : ℕ) (j : Slot)
    (hj : j ≠ i) : holdsAs (w.slots i).serial k (w.slots j) = false := by
  by_contra htrue
  rw [Bool.not_eq_false, holdsAs, Bool.and_eq_true, Bool.and_eq_true, beq_iff_eq] at htrue
  obtain ⟨hlivej, hserial, -⟩ := htrue
  exact hj (hw.serial_inj j i hlivej hlive hserial)

theorem traceOf_eq {n : ℕ} {h : History} (hget : w.history[n]? = some h) :
    w.traceOf n = h.trace := by
  simp [World.traceOf, hget]

/-- The account of one exchange, read off the sums. -/
theorem Conserved.settled (hc : Conserved w) (hw : w.Indexed) (hlive : (w.slots i).live = true) :
    Settled (heldByOthers w i) (w.focus i) := by
  constructor
  · intro k
    rw [show (w.focus i).table = w.table from rfl, show (w.focus i).x = w.slots i from rfl,
      heldByOthers_add]
    exact hc.active k
  · intro k
    obtain ⟨h, hget⟩ : ∃ h, w.history[(w.slots i).serial]? = some h :=
      ⟨_, List.getElem?_eq_getElem (hw.serial_lt i hlive)⟩
    have hled := hc.ledger _ h hget k
    have hself := occupancy_update_of_others (w.slots i) (holdsAs_other hw hlive k)
    rw [Function.update_eq_self] at hself
    rw [hself] at hled
    simpa [World.focus, traceOf_eq hget, holdsAs, hlive] using hled

theorem Conserved.of_alike {w' : World} (hc : Conserved w) (h : World.Alike w' w) :
    Conserved w' := by
  constructor
  · rw [h.table, h.slots]
    exact hc.active
  · rw [h.active, h.slots]
    exact hc.occupied
  · rw [h.active, h.maxActive]
    exact hc.ceiling
  · rw [h.history, h.slots]
    exact hc.ledger

/-- A settled account, landed, keeps the sums. -/
theorem Conserved.land (hc : Conserved w) (hw : w.Indexed) (hlive : (w.slots i).live = true)
    {f : Focus} (hf : Settled (heldByOthers w i) f)
    (hout : Alive (w.slots i).serial f ∨ f.x = Exchange.zero) : Conserved (w.land i f) := by
  have hocc := occupancy_update Exchange.live w.slots i f.x
  have hpos : 0 < occupancy Exchange.live w.slots := occupancy_pos hlive
  have hcount := hc.occupied
  have hdead (hx : f.x.live = false) (k : ℕ) : f.x.holds k = false := by
    rcases hout with hf | hf
    · simp [hf.live] at hx
    · rw [hf]
      rfl
  have hactive : (w.land i f).active.toNat = occupancy Exchange.live (w.land i f).slots := by
    simp only [World.land, World.refocus]
    rw [hlive, Bool.toNat_true] at hocc
    cases hx : f.x.live with
    | true =>
      rw [hx, Bool.toNat_true] at hocc
      simp only [if_true]
      omega
    | false =>
      rw [hx, Bool.toNat_false] at hocc
      have hne : w.active ≠ 0 := by
        intro h0
        simp [h0] at hcount
        omega
      simp only [Bool.false_eq_true, if_false, hne]
      rw [Word.toNat_sub_one (Word.toNat_pos_of_ne_zero hne)]
      omega
  constructor
  · intro k
    have hold := heldByOthers_add w i k
    have hupd := occupancy_update (Exchange.holds · k) w.slots i f.x
    have hnew := hf.active k
    simp only [World.land, World.refocus]
    omega
  · exact hactive
  · have hle := hc.ceiling
    have hmono : (w.land i f).active.toNat ≤ w.active.toNat := by
      rw [hactive, hcount]
      simp only [World.land, World.refocus]
      rw [hlive, Bool.toNat_true] at hocc
      have := Bool.toNat_le f.x.live
      omega
    exact le_trans hmono hle
  · intro n h hget k
    simp only [World.land, World.refocus, List.getElem?_modify] at hget ⊢
    obtain ⟨h₀, hget₀, hh⟩ := Option.map_eq_some_iff.mp hget
    by_cases hn : (w.slots i).serial = n
    · subst hn
      rw [if_pos rfl] at hh
      subst hh
      rw [occupancy_update_of_others f.x (holdsAs_other hw hlive k)]
      have hled := hf.ledger k
      have hown : holdsAs (w.slots i).serial k f.x = f.x.holds k := by
        rcases hout with hf | hf
        · simp [holdsAs, hf.live, hf.serial]
        · rw [hf]
          rfl
      rw [hown]
      exact hled
    · rw [if_neg hn] at hh
      subst hh
      have hold : holdsAs n k (w.slots i) = false := by simp [holdsAs, hn]
      have hnew : holdsAs n k f.x = false := by
        rcases hout with hf | hf
        · simp [holdsAs, hf.serial, hn]
        · rw [hf]
          rfl
      rw [occupancy_update_of_eq (hnew.trans hold.symm)]
      exact hc.ledger n h₀ hget₀ k

/-- Taking a free slot keeps the sums. -/
theorem Conserved.occupy (hc : Conserved w) (hw : w.Indexed) (hfree : w.freeSlot = some i)
    (route : CfgRoute) : Conserved (w.occupy i route) := by
  obtain ⟨hroom, hidle⟩ := World.freeSlot_spec hfree
  have hhold (k : ℕ) : (w.slots i).holds k = false := holds_of_not_counted (hw.idle i hidle) k
  have hlt : w.active.toNat < w.maxActive.toNat := UInt64.lt_iff_toNat_lt.mp hroom
  have hmax := w.maxActive.toNat_lt
  have hsucc : (w.active + 1).toNat = w.active.toNat + 1 := Word.toNat_add_one (by omega)
  constructor
  · intro k
    rw [show (w.occupy i route).table = w.table from rfl, hc.active k]
    simp only [World.occupy]
    rw [occupancy_update_of_eq]
    rw [hhold k]
    rfl
  · have hocc := occupancy_update Exchange.live w.slots i
      { Exchange.zero with state := .starting, serial := w.history.length }
    rw [hidle] at hocc
    have hnew : ({ Exchange.zero with state := .starting, serial := w.history.length } :
        Exchange).live = true := rfl
    rw [hnew] at hocc
    simp only [World.occupy, hsucc, hc.occupied]
    simpa using hocc.symm
  · simp only [World.occupy, hsucc]
    omega
  · intro n h hget k
    have hold : holdsAs n k (w.slots i) = false := by simp [holdsAs, hidle]
    have hsame : occupancy (holdsAs n k) (w.occupy i route).slots =
        occupancy (holdsAs n k) w.slots := by
      simp only [World.occupy]
      apply occupancy_update_of_eq
      rw [hold]
      simp [holdsAs, Exchange.holds, Exchange.zero]
    rw [hsame]
    simp only [World.occupy, List.getElem?_append] at hget
    split_ifs at hget with hn
    · exact hc.ledger n h hget k
    · have hnone : occupancy (holdsAs n k) w.slots = 0 := by
        apply occupancy_eq_zero
        intro j
        by_contra htrue
        rw [Bool.not_eq_false, holdsAs, Bool.and_eq_true, Bool.and_eq_true, beq_iff_eq] at htrue
        obtain ⟨hlive, hserial, -⟩ := htrue
        have := hw.serial_lt j hlive
        omega
      have hmem : h ∈ [(⟨route, []⟩ : History)] := List.mem_of_getElem? hget
      rw [List.mem_singleton.mp hmem, hnone]
      rfl

theorem Conserved.stepped {a : Action} {w' : World} (hc : Conserved w) (hw : w.Indexed)
    (h : World.Stepped w a w') : Conserved w' := by
  cases h with
  | looked t hact halike =>
    have hsame : Conserved { w with table := t } :=
      ⟨fun k => (hact k).trans (hc.active k), hc.occupied, hc.ceiling, hc.ledger⟩
    exact hsame.of_alike halike
  | scribbled i x hfree hx hcounted halike =>
    have hold (k : ℕ) : (w.slots i).holds k = false := holds_of_not_counted (hw.idle i hfree) k
    have hnew (k : ℕ) : x.holds k = false := holds_of_not_counted hcounted k
    have hsame : Conserved { w with slots := Function.update w.slots i x } := by
      refine ⟨fun k => ?_, ?_, hc.ceiling, fun n h hget k => ?_⟩
      · have hsum : occupancy (Exchange.holds · k) (Function.update w.slots i x) =
            occupancy (Exchange.holds · k) w.slots :=
          occupancy_update_of_eq ((hnew k).trans (hold k).symm)
        exact (hc.active k).trans hsum.symm
      · have hsum : occupancy Exchange.live (Function.update w.slots i x) =
            occupancy Exchange.live w.slots := occupancy_update_of_eq (hx.trans hfree.symm)
        exact hc.occupied.trans hsum.symm
      · have hsum : occupancy (holdsAs n k) (Function.update w.slots i x) =
            occupancy (holdsAs n k) w.slots :=
          occupancy_update_of_eq (by simp [holdsAs, hx, hfree])
        dsimp only
        rw [hsum]
        exact hc.ledger n h hget k
    exact hsame.of_alike halike
  | moved i e htarget hlive halike =>
    have hset := (hc.settled hw hlive).stepped (heldByOthers_room w i) e
    have hout := exchangeStep_outcome (World.alive_focus hlive) e
    exact (hc.land hw hlive hset hout).of_alike halike
  | started i s haction hfree halike =>
    have hocc := hc.occupy hw hfree s.route
    have hwocc := hw.occupy i s.route
    have hlive := World.occupy_live w i s.route
    have hunclaimed : ((w.occupy i s.route).focus i).x.counted = false := by
      simp [World.focus, World.occupy, Exchange.zero]
    have hset := (hocc.settled hwocc hlive).begun hunclaimed (heldByOthers_room _ i) s
    have hout := startStep_outcome (World.alive_focus hlive) s
    exact (hocc.land hwocc hlive hset hout).of_alike halike

end Sums

/-- What the engine promises of concurrency slots. -/
structure SlotsConserved (configured : Word) (w : World) : Prop where
  counter : ∀ k s, w.table.providers[k]? = some s →
    s.active.toNat = occupancy (fun x => x.live && x.holds k) w.slots
  placed : ∀ i k, (w.slots i).holds k = true → k < w.table.providers.length
  ledger : ∀ n h, w.history[n]? = some h → ∀ k,
    claimsOf k h.trace = releasesOf k h.trace + occupancy (holdsAs n k) w.slots
  occupied : w.active.toNat = occupancy Exchange.live w.slots
  ceiling : w.active.toNat ≤ (World.ceiling configured).toNat

section Runs

variable {configured : Word} {w : World}

theorem Conserved.slotsConserved (hc : Conserved w) (hw : w.Indexed)
    (hmax : w.maxActive = World.ceiling configured) : SlotsConserved configured w where
  counter := by
    intro k s hget
    have hlive : occupancy (fun x => x.live && x.holds k) w.slots =
        occupancy (Exchange.holds · k) w.slots := by
      apply occupancy_congr
      intro i
      cases hi : (w.slots i).live with
      | true => rw [Bool.true_and]
      | false => rw [Bool.false_and, holds_of_not_counted (hw.idle i hi) k]
    rw [hlive, ← hc.active k]
    simp [Table.activeOf, hget]
  placed := by
    intro i k hheld
    apply lt_length_of_activeOf_pos
    rw [hc.active k]
    exact occupancy_pos hheld
  ledger := hc.ledger
  occupied := hc.occupied
  ceiling := by
    rw [← hmax]
    exact hc.ceiling

theorem stepped_maxActive {a : Action} {w' : World} (h : World.Stepped w a w') :
    w'.maxActive = w.maxActive := by
  cases h with
  | looked t hact halike => exact halike.maxActive
  | scribbled i x hfree hx hcounted halike => exact halike.maxActive
  | moved i e htarget hlive halike => exact halike.maxActive
  | started i s haction hfree halike => exact halike.maxActive

theorem boot_conserved (configured : Word) : Conserved (World.boot configured) := by
  have hnone (p : Exchange → Bool) (hp : p Exchange.zero = false) :
      occupancy p (World.boot configured).slots = 0 := occupancy_eq_zero fun _ => hp
  constructor
  · intro k
    rw [hnone _ rfl]
    rfl
  · rw [hnone _ rfl]
    rfl
  · exact Nat.zero_le _
  · intro n h hget
    simp [World.boot] at hget

/-- However starts, transfers, fallbacks, disconnects and disposals interleave, no
slot is lost and none is given back twice. -/
theorem slots_conserved (configured : Word) (as : List Action) :
    Throughout worldStep (SlotsConserved configured) (World.boot configured) as := by
  have hall : Throughout worldStep
      (fun w => w.Indexed ∧ Conserved w ∧ w.maxActive = World.ceiling configured)
      (World.boot configured) as := by
    apply throughout_of_invariant
    · rintro w a ⟨hw, hc, hmax⟩
      have hstep := World.worldStep_stepped hw a
      exact ⟨hstep.indexed hw, hc.stepped hw hstep, (stepped_maxActive hstep).trans hmax⟩
    · exact ⟨World.boot_indexed configured, boot_conserved configured, rfl⟩
  exact hall.mono fun w h => h.2.1.slotsConserved h.1 h.2.2

end Runs

end AsmFlow.Providers
