import AsmFlow.Library.Runs
import AsmFlow.Machine.Status

/-!
# The event loop

`af_loop_add`, `af_loop_mod`, `af_loop_del` and the dispatch of `af_loop_step`. An event
carries the index of a slot of the source table, and the operations its handler runs may
change the table before the next event of the same wait is dispatched.
-/

namespace AsmFlow.Platform

open Library

/-- `AF_LOOP_MAX_SOURCES`. -/
def maxSources : ℕ := 1024

/-- `af_loop_source`. A free slot has a negative descriptor. -/
structure Source where
  fd : ℤ
  handler : ℕ
  ctx : ℕ
  events : ℕ
  deriving DecidableEq, Repr

/-- A descriptor, the handler it is registered with, and the context the handler is given. -/
structure Owner where
  fd : ℤ
  handler : ℕ
  ctx : ℕ
  deriving DecidableEq, Repr

abbrev Sources := Fin maxSources → Source

/-- `struct epoll_event`: the mask, and the data word. -/
structure Event where
  events : ℕ
  data : ℕ
  deriving DecidableEq, Repr

/-- A handler that is called. -/
structure Call where
  owner : Owner
  events : ℕ
  deriving DecidableEq, Repr

/-- How an operation changes the owner of a slot. -/
inductive Change
  | registered
  | released
  deriving DecidableEq, Repr

/-- The table an operation leaves, its status, and the slot that it gave an owner or took
one from. -/
structure Outcome where
  sources : Sources
  status : Status
  change : Option (Fin maxSources × Change)

/-- An operation with what `epoll_ctl` answers: the status of its error, or none. -/
inductive Op
  | add (fd : ℤ) (events handler ctx : ℕ) (ctl : Option Status)
  | mod (fd : ℤ) (events : ℕ) (ctl : Option Status)
  | del (fd : ℤ)

/-- Whom a slot belongs to, as the dispatch reads it. -/
def Source.owner (s : Source) : Option Owner :=
  if s.fd < 0 ∨ s.handler = 0 then none else some ⟨s.fd, s.handler, s.ctx⟩

/-- The slot an event names. -/
def Event.slot (e : Event) : Option (Fin maxSources) :=
  if h : e.data < maxSources then some ⟨e.data, h⟩ else none

namespace Sources

/-- `af_loop_find_slot`. -/
def findSlot (t : Sources) (fd : ℤ) : Option (Fin maxSources) :=
  (List.finRange maxSources).find? fun i => (t i).fd == fd

/-- `af_loop_add`. -/
def add (t : Sources) (fd : ℤ) (events handler ctx : ℕ) (ctl : Option Status) : Outcome :=
  if fd < 0 ∨ handler = 0 then ⟨t, Status.invalid, none⟩
  else if (t.findSlot fd).isSome then ⟨t, Status.alreadyExists, none⟩
  else
    match t.findSlot (-1) with
    | none => ⟨t, Status.limit, none⟩
    | some i =>
      match ctl with
      | none =>
        ⟨Function.update t i ⟨fd, handler, ctx, events⟩, Status.ok, some (i, .registered)⟩
      | some st => ⟨Function.update t i ⟨-1, handler, ctx, events⟩, st, none⟩

/-- `af_loop_mod`. -/
def mod (t : Sources) (fd : ℤ) (events : ℕ) (ctl : Option Status) : Outcome :=
  match t.findSlot fd with
  | none => ⟨t, Status.notFound, none⟩
  | some i => ⟨Function.update t i { t i with events := events }, ctl.getD Status.ok, none⟩

/-- `af_loop_del`. What `epoll_ctl` answers is not read. -/
def del (t : Sources) (fd : ℤ) : Outcome :=
  match t.findSlot fd with
  | none => ⟨t, Status.notFound, none⟩
  | some i =>
    ⟨Function.update t i ⟨-1, 0, 0, (t i).events⟩, Status.ok, some (i, .released)⟩

def perform (t : Sources) : Op → Outcome
  | .add fd events handler ctx ctl => t.add fd events handler ctx ctl
  | .mod fd events ctl => t.mod fd events ctl
  | .del fd => t.del fd

/-- `.dispatch`, for one event: the handler that is called, if any. -/
def dispatch (t : Sources) (e : Event) : Option Call :=
  e.slot.bind fun i => (t i).owner.map fun o => ⟨o, e.events⟩

theorem fd_of_findSlot {t : Sources} {fd : ℤ} {i : Fin maxSources}
    (h : t.findSlot fd = some i) : (t i).fd = fd := by
  have hfound := List.find?_some h
  simpa using hfound

end Sources

theorem Source.owner_of_fd_neg {s : Source} (h : s.fd < 0) : s.owner = none := by
  simp [Source.owner, h]

theorem owner_update_of_eq {t : Sources} {i : Fin maxSources} {s : Source}
    (h : s.owner = (t i).owner) (j : Fin maxSources) :
    (Function.update t i s j).owner = (t j).owner := by
  by_cases hj : j = i
  · subst hj
    simpa using h
  · rw [Function.update_of_ne hj]

/-! ## What an operation does to the owners -/

/-- An operation changes the owner of the slot it names, and of no other. -/
inductive Effect (t : Sources) : Outcome → Prop
  | none {u : Sources} {st : Status} (h : ∀ j, (u j).owner = (t j).owner) :
    Effect t ⟨u, st, none⟩
  | registered {u : Sources} {st : Status} (i : Fin maxSources) (o : Owner)
    (hi : (u i).owner = some o) (h : ∀ j, j ≠ i → (u j).owner = (t j).owner) :
    Effect t ⟨u, st, some (i, .registered)⟩
  | released {u : Sources} {st : Status} (i : Fin maxSources)
    (hi : (u i).owner = Option.none) (h : ∀ j, j ≠ i → (u j).owner = (t j).owner) :
    Effect t ⟨u, st, some (i, .released)⟩

theorem add_effect (t : Sources) (fd : ℤ) (events handler ctx : ℕ) (ctl : Option Status) :
    Effect t (t.add fd events handler ctx ctl) := by
  unfold Sources.add
  split
  · exact .none fun _ => rfl
  rename_i hvalid
  split
  · exact .none fun _ => rfl
  split
  · exact .none fun _ => rfl
  rename_i i hfree
  cases ctl with
  | none =>
    apply Effect.registered i ⟨fd, handler, ctx⟩
    · simp [Source.owner, hvalid]
    · intro j hj
      rw [Function.update_of_ne hj]
  | some st =>
    -- the slot was free, and is left free with its other fields overwritten
    have hold : (t i).owner = none := by
      apply Source.owner_of_fd_neg
      rw [Sources.fd_of_findSlot hfree]
      decide
    apply Effect.none
    intro j
    apply owner_update_of_eq
    rw [hold]
    exact Source.owner_of_fd_neg neg_one_lt_zero

theorem mod_effect (t : Sources) (fd : ℤ) (events : ℕ) (ctl : Option Status) :
    Effect t (t.mod fd events ctl) := by
  unfold Sources.mod
  split
  · exact .none fun _ => rfl
  · apply Effect.none
    intro j
    apply owner_update_of_eq
    rfl

theorem del_effect (t : Sources) (fd : ℤ) : Effect t (t.del fd) := by
  unfold Sources.del
  split
  · exact .none fun _ => rfl
  · rename_i i _
    apply Effect.released i
    · rw [Function.update_self]
      exact Source.owner_of_fd_neg neg_one_lt_zero
    · intro j hj
      rw [Function.update_of_ne hj]

theorem perform_effect (t : Sources) (o : Op) : Effect t (t.perform o) := by
  cases o with
  | add fd events handler ctx ctl => exact add_effect t fd events handler ctx ctl
  | mod fd events ctl => exact mod_effect t fd events ctl
  | del fd => exact del_effect t fd

/-! ## The loop -/

/-- An owner together with the number of the `af_loop_add` that registered it. -/
structure Registration where
  serial : ℕ
  owner : Owner
  deriving DecidableEq, Repr

/-- The table and counters of the loop, the number of each slot's last registration, the
registrations there were when the last wait returned, and what the operations since did
last to each slot. -/
structure Loop where
  sources : Sources
  iterations : ℕ
  /-- The count `af_loop_step` reports. -/
  dispatched : ℕ
  serials : Fin maxSources → ℕ
  next : ℕ
  atWait : Fin maxSources → Option Registration
  /-- `next`, when the wait returned. -/
  mark : ℕ
  last : Fin maxSources → Option Change

/-- A wait that returns events, one of them with the operations its handler runs if it is
called, and an operation of some other code. A step of the loop is a wait followed by its
events. -/
inductive LoopAct
  | wait
  | event (e : Event) (ops : List Op)
  | op (o : Op)

namespace Loop

/-- `af_loop_init`. -/
def init : Loop where
  sources := fun _ => ⟨-1, 0, 0, 0⟩
  iterations := 0
  dispatched := 0
  serials := fun _ => 0
  next := 0
  atWait := fun _ => none
  mark := 0
  last := fun _ => none

/-- The registration a slot holds. -/
def holds (l : Loop) (i : Fin maxSources) : Option Registration :=
  (l.sources i).owner.map fun o => ⟨l.serials i, o⟩

/-- The loop after an operation left the table `u`. -/
def noted (l : Loop) (u : Sources) : Option (Fin maxSources × Change) → Loop
  | none => { l with sources := u }
  | some (i, .registered) =>
    { l with
      sources := u
      serials := Function.update l.serials i l.next
      next := l.next + 1
      last := Function.update l.last i (some .registered) }
  | some (i, .released) =>
    { l with sources := u, last := Function.update l.last i (some .released) }

def apply (l : Loop) (o : Op) : Loop :=
  l.noted (l.sources.perform o).sources (l.sources.perform o).change

def step (l : Loop) : LoopAct → Loop
  | .wait =>
    { l with
      iterations := l.iterations + 1
      dispatched := 0
      atWait := l.holds
      mark := l.next
      last := fun _ => none }
  | .event e ops =>
    match l.sources.dispatch e with
    | none => l
    | some _ => run apply { l with dispatched := l.dispatched + 1 } ops
  | .op o => l.apply o

/-- The registration an event is delivered to. -/
def target (l : Loop) (e : Event) : Option Registration :=
  match l.sources.dispatch e with
  | none => none
  | some _ => e.slot.bind l.holds

/-- The registration an event was reported for. -/
def reported (l : Loop) (e : Event) : Option Registration := e.slot.bind l.atWait

/-- An event that is delivered reaches the registration it was reported for. -/
def Delivers (l : Loop) (e : Event) : Prop := ∀ r, l.target e = some r → l.reported e = some r

/-- Since the wait, the slot of the event has not been given a new owner that it still has. -/
def Unclaimed (l : Loop) (e : Event) : Prop :=
  ∀ i, e.slot = some i → l.last i ≠ some .registered

/-- What the operations since the wait did last to a slot says which registration it holds. -/
structure SlotTracked (mark next : ℕ) (holds atWait : Option Registration)
    (last : Option Change) : Prop where
  same : last = none → holds = atWait
  free : last = some .released → holds = none
  claimed : last = some .registered → ∃ r, holds = some r ∧ mark ≤ r.serial
  older : ∀ r, atWait = some r → r.serial < mark
  issued : ∀ r, holds = some r → r.serial < next

def Tracked (l : Loop) : Prop :=
  l.mark ≤ l.next ∧ ∀ i, SlotTracked l.mark l.next (l.holds i) (l.atWait i) (l.last i)

theorem SlotTracked.later {mark next next' : ℕ} {holds atWait : Option Registration}
    {last : Option Change} (h : SlotTracked mark next holds atWait last) (hle : next ≤ next') :
    SlotTracked mark next' holds atWait last :=
  { h with issued := fun r hr => (h.issued r hr).trans_le hle }

theorem SlotTracked.register {mark next : ℕ} {holds atWait : Option Registration}
    {last : Option Change} (h : SlotTracked mark next holds atWait last) (hle : mark ≤ next)
    (o : Owner) : SlotTracked mark (next + 1) (some ⟨next, o⟩) atWait (some .registered) where
  same := nofun
  free := nofun
  claimed := fun _ => ⟨_, rfl, hle⟩
  older := h.older
  issued := by
    intro r hr
    obtain rfl := Option.some.inj hr
    exact Nat.lt_succ_self next

theorem SlotTracked.release {mark next : ℕ} {holds atWait : Option Registration}
    {last : Option Change} (h : SlotTracked mark next holds atWait last) :
    SlotTracked mark next none atWait (some .released) where
  same := nofun
  free := fun _ => rfl
  claimed := nofun
  older := h.older
  issued := nofun

theorem SlotTracked.wait {mark next : ℕ} {holds atWait : Option Registration}
    {last : Option Change} (h : SlotTracked mark next holds atWait last) :
    SlotTracked next next holds holds none where
  same := fun _ => rfl
  free := nofun
  claimed := nofun
  older := h.issued
  issued := h.issued

theorem tracked_init : init.Tracked := by
  refine ⟨le_refl _, fun i => ?_⟩
  constructor <;> simp [init, holds, Source.owner]

theorem holds_of_owner_eq {l m : Loop} {i : Fin maxSources}
    (ho : (m.sources i).owner = (l.sources i).owner) (hs : m.serials i = l.serials i) :
    m.holds i = l.holds i := by
  unfold holds
  rw [ho, hs]

theorem tracked_apply {l : Loop} (h : l.Tracked) (o : Op) : (l.apply o).Tracked := by
  obtain ⟨hmark, hslots⟩ := h
  have heffect := perform_effect l.sources o
  unfold apply
  generalize l.sources.perform o = out at heffect
  cases heffect with
  | none hsame =>
    refine ⟨hmark, fun j => ?_⟩
    rw [holds_of_owner_eq (l := l) (i := j)]
    · exact hslots j
    · exact hsame j
    · rfl
  | registered i o hi hsame =>
    refine ⟨Nat.le_succ_of_le hmark, fun j => ?_⟩
    by_cases hj : j = i
    · subst hj
      simpa [holds, noted, hi] using (hslots j).register hmark o
    · rw [holds_of_owner_eq (l := l) (i := j)]
      · simpa [noted, Function.update_of_ne hj] using (hslots j).later (Nat.le_succ l.next)
      · exact hsame j hj
      · exact Function.update_of_ne hj _ _
  | released i hi hsame =>
    refine ⟨hmark, fun j => ?_⟩
    by_cases hj : j = i
    · subst hj
      simpa [holds, noted, hi] using (hslots j).release
    · rw [holds_of_owner_eq (l := l) (i := j)]
      · simpa [noted, Function.update_of_ne hj] using hslots j
      · exact hsame j hj
      · rfl

theorem tracked_handler {l : Loop} (h : l.Tracked) (ops : List Op) :
    (run apply l ops).Tracked := by
  have hall : Throughout apply Tracked l ops :=
    throughout_of_invariant ops (fun _ o h => tracked_apply h o) h
  exact hall.last

theorem tracked_step {l : Loop} (h : l.Tracked) (a : LoopAct) : (l.step a).Tracked := by
  cases a with
  | wait => exact ⟨le_refl _, fun i => (h.2 i).wait⟩
  | event e ops =>
    simp only [step]
    split
    · exact h
    · exact tracked_handler (l := { l with dispatched := l.dispatched + 1 }) h ops
  | op o => exact tracked_apply h o

theorem tracked_run (as : List LoopAct) : (run step init as).Tracked := by
  have hall : Throughout step Tracked init as :=
    throughout_of_invariant as (fun _ a h => tracked_step h a) tracked_init
  exact hall.last

theorem target_of_slot {l : Loop} {e : Event} {i : Fin maxSources} (hi : e.slot = some i) :
    l.target e = l.holds i := by
  unfold target Sources.dispatch holds
  rw [hi]
  cases h : (l.sources i).owner <;> simp [h]

theorem reported_of_slot {l : Loop} {e : Event} {i : Fin maxSources} (hi : e.slot = some i) :
    l.reported e = l.atWait i := by
  simp [reported, hi]

theorem target_of_no_slot {l : Loop} {e : Event} (he : e.slot = none) : l.target e = none := by
  simp [target, Sources.dispatch, he]

theorem SlotTracked.delivers_iff {mark next : ℕ} {holds atWait : Option Registration}
    {last : Option Change} (h : SlotTracked mark next holds atWait last) :
    (∀ r, holds = some r → atWait = some r) ↔ last ≠ some .registered := by
  constructor
  · intro hto hlast
    obtain ⟨r, hr, hle⟩ := h.claimed hlast
    have hlt := h.older r (hto r hr)
    omega
  · intro hlast r hr
    cases last with
    | none => rw [← h.same rfl, hr]
    | some c =>
      cases c with
      | registered => exact absurd rfl hlast
      | released =>
        rw [h.free rfl] at hr
        cases hr

/-- At every moment of every run, an event is delivered to the registration it was reported
for, or dropped, exactly when its slot was not given a new owner since the wait. -/
theorem event_delivered (as : List LoopAct) (e : Event) :
    (run step init as).Delivers e ↔ (run step init as).Unclaimed e := by
  have htracked := tracked_run as
  generalize run step init as = l at htracked
  cases he : e.slot with
  | none =>
    constructor
    · intro _ i hi
      rw [he] at hi
      cases hi
    · intro _ r hr
      rw [target_of_no_slot he] at hr
      cases hr
  | some i =>
    unfold Delivers Unclaimed
    rw [target_of_slot he, reported_of_slot he, he]
    rw [(htracked.2 i).delivers_iff]
    simp

/-- Descriptors 5 and 6 are ready. The handler of 5 takes 6 out of the table and registers
7 with another handler; the event of 6 is delivered to that handler. -/
theorem stale_event_redirected :
    let l := run step init
      [.op (.add 5 1 11 0 none), .op (.add 6 1 12 0 none), .wait,
        .event ⟨1, 0⟩ [.del 6, .add 7 1 13 0 none]]
    l.sources.dispatch ⟨1, 1⟩ = some ⟨⟨7, 13, 0⟩, 1⟩ ∧
      l.reported ⟨1, 1⟩ = some ⟨1, ⟨6, 12, 0⟩⟩ ∧ ¬ l.Delivers ⟨1, 1⟩ := by
  intro l
  have htarget : l.target ⟨1, 1⟩ = some ⟨2, ⟨7, 13, 0⟩⟩ := by decide +kernel
  have hreported : l.reported ⟨1, 1⟩ = some ⟨1, ⟨6, 12, 0⟩⟩ := by decide +kernel
  refine ⟨by decide +kernel, hreported, fun h => ?_⟩
  have hto := h _ htarget
  rw [hreported] at hto
  exact absurd hto (by decide)

end Loop
end AsmFlow.Platform
