import AsmFlow.Http.Conn
import AsmFlow.Library.Runs

/-!
# When a commit is atomic

A response goes out as some twenty bounded appends, and one that is refused
leaves the earlier ones in the outbox. So a commit is all or nothing exactly
when every append finds room, or already the first does not; and what a client
is sent is whole responses exactly when every commit is.
-/

namespace AsmFlow.Http

open Library

namespace Outbox

variable {alloc : ℕ → Bool} {o : Outbox}

/-- The outbox has room for these pieces, appended one after the other. -/
def roomFor (alloc : ℕ → Bool) (o : Outbox) (ps : List Bytes) : Bool :=
  Buffer.roomFor alloc o.buf.max o.buf.len o.buf.cap (ps.map List.length)

theorem append_buf (p : Bytes) : (o.append alloc p).1.buf = (o.buf.append alloc p).1 := rfl

theorem append_status (p : Bytes) : (o.append alloc p).2 = (o.buf.append alloc p).2 := rfl

theorem appendAll_ok_iff (alloc : ℕ → Bool) (ps : List Bytes) (o : Outbox) :
    (o.appendAll alloc ps).2 = .ok ↔ o.roomFor alloc ps = true := by
  induction ps generalizing o with
  | nil => exact iff_of_true rfl rfl
  | cons p ps ih =>
    rw [appendAll_cons]
    unfold roomFor
    rw [List.map_cons, Buffer.roomFor]
    rcases Buffer.append_eq alloc o.buf p with ⟨b', heq, hlen, hmax, hroom⟩ | ⟨hneg, hroom⟩
    · have hst : (o.append alloc p).2 = .ok := by rw [append_status, heq]
      have hbuf : (o.append alloc p).1.buf = b' := by rw [append_buf, heq]
      rw [hst, if_neg (by decide : ¬Status.ok < 0), ih, hroom]
      unfold roomFor
      rw [hbuf, hlen, hmax]
    · rw [← append_status] at hneg
      rw [if_pos hneg, hroom]
      refine iff_of_false ?_ Bool.false_ne_true
      intro hok
      rw [hok] at hneg
      exact absurd hneg (by decide)

theorem append_neg_iff (p : Bytes) :
    (o.append alloc p).2 < 0 ↔ o.roomFor alloc [p] = false := by
  have hone := appendAll_ok_iff alloc [p] o
  rw [appendAll_cons] at hone
  rcases append_cases alloc o p with ⟨o', heq, -⟩ | ⟨e, he, heq⟩
  · have hroom : o.roomFor alloc [p] = true := by
      apply hone.mp
      rw [heq]
      rfl
    rw [heq, hroom]
    exact iff_of_false (by decide : ¬Status.ok < 0) (by decide)
  · rw [heq, if_pos he] at hone
    rw [heq, Bool.eq_false_iff, ne_eq, ← hone]
    refine iff_of_true he ?_
    rintro rfl
    exact absurd he (by decide)

/-- Once the first of the appends is refused nothing changes. -/
theorem appendAll_of_refused {p : Bytes} (ps : List Bytes)
    (h : o.roomFor alloc [p] = false) :
    (o.appendAll alloc (p :: ps)).2 < 0 ∧ (o.appendAll alloc (p :: ps)).1 = o := by
  have hneg := (append_neg_iff p).mpr h
  rw [appendAll_cons, if_pos hneg]
  rcases append_cases alloc o p with ⟨o', heq, -⟩ | ⟨e, -, heq⟩
  · rw [heq] at hneg
    exact absurd hneg (by decide : ¬Status.ok < 0)
  · refine ⟨hneg, ?_⟩
    rw [heq]

/-- Appends of which the first is taken leave something behind. -/
theorem refused_of_appendAll {p : Bytes} {ps : List Bytes} (hp : p ≠ [])
    (hsame : (o.appendAll alloc (p :: ps)).1.pending = o.pending) :
    o.roomFor alloc [p] = false := by
  rw [← append_neg_iff]
  rw [appendAll_cons] at hsame
  rcases append_cases alloc o p with ⟨o', heq, hpending⟩ | ⟨e, he, heq⟩
  · rw [heq, if_neg (by decide : ¬Status.ok < 0)] at hsame
    have hgrows : ∃ added, (o'.appendAll alloc ps).1.pending = o'.pending ++ added := by
      rcases appendAll_cases alloc ps o' with ⟨-, hall⟩ | ⟨-, _, _, _, -, hsome⟩
      · exact ⟨_, hall⟩
      · exact ⟨_, hsome⟩
    obtain ⟨added, hadded⟩ := hgrows
    rw [hsame, hpending, List.append_assoc] at hadded
    have hnil : p ++ added = [] := List.self_eq_append_right.mp hadded
    exact absurd (List.append_eq_nil_iff.mp hnil).1 hp
  · rwa [heq]

/-- A response is posted whole, or refused without a trace. -/
def PostsWhole (alloc : ℕ → Bool) (o : Outbox) (r : Reply) : Prop :=
  ((o.post alloc r).2 = .ok ∧ (o.post alloc r).1.pending = o.pending ++ r.bytes) ∨
    ((o.post alloc r).2 < 0 ∧ (o.post alloc r).1 = o)

/-- Room for the whole response, or not even for the start of its status line. -/
def Decided (alloc : ℕ → Bool) (o : Outbox) (r : Reply) : Prop :=
  o.roomFor alloc (r.pieces ++ [r.body]) = true ∨ o.roomFor alloc [ascii "HTTP/1.1 "] = false

theorem flatten_pieces (r : Reply) : (r.pieces ++ [r.body]).flatten = r.bytes := by
  rw [List.flatten_append, List.flatten_singleton]
  rfl

theorem post_ok_iff (r : Reply) :
    (o.post alloc r).2 = .ok ↔ o.roomFor alloc (r.pieces ++ [r.body]) = true := by
  rw [post_eq, appendAll_ok_iff]

theorem post_pending_of_ok {r : Reply} (h : (o.post alloc r).2 = .ok) :
    (o.post alloc r).1.pending = o.pending ++ r.bytes := by
  rw [post_eq] at h ⊢
  rcases appendAll_cases alloc (r.pieces ++ [r.body]) o with ⟨-, hall⟩ | ⟨hneg, -⟩
  · rw [hall, flatten_pieces]
  · rw [h] at hneg
    exact absurd hneg (by decide)

theorem post_ok_or_neg (alloc : ℕ → Bool) (o : Outbox) (r : Reply) :
    (o.post alloc r).2 = .ok ∨ (o.post alloc r).2 < 0 := by
  rw [post_eq]
  rcases appendAll_cases alloc (r.pieces ++ [r.body]) o with ⟨hok, -⟩ | ⟨hneg, -⟩
  · exact Or.inl hok
  · exact Or.inr hneg

/-- A response leaves nothing exactly when its first piece is refused. -/
theorem post_unchanged_iff (r : Reply) :
    (o.post alloc r).1.pending = o.pending ↔ o.roomFor alloc [ascii "HTTP/1.1 "] = false := by
  rw [post_eq]
  obtain ⟨rest, hpieces⟩ : ∃ rest, r.pieces ++ [r.body] = ascii "HTTP/1.1 " :: rest :=
    ⟨_, rfl⟩
  rw [hpieces]
  constructor
  · intro hsame
    exact refused_of_appendAll (by decide) hsame
  · intro hroom
    rw [(appendAll_of_refused rest hroom).2]

theorem post_of_refused {r : Reply} (h : o.roomFor alloc [ascii "HTTP/1.1 "] = false) :
    (o.post alloc r).2 < 0 ∧ (o.post alloc r).1 = o := by
  rw [post_eq]
  exact appendAll_of_refused _ h

theorem postsWhole_iff (r : Reply) : o.PostsWhole alloc r ↔ o.Decided alloc r := by
  unfold PostsWhole Decided
  rw [← post_ok_iff]
  constructor
  · rintro (⟨hok, -⟩ | ⟨-, hsame⟩)
    · exact Or.inl hok
    · right
      apply (post_unchanged_iff r).mp
      rw [hsame]
  · rintro (hok | hroom)
    · exact Or.inl ⟨hok, post_pending_of_ok hok⟩
    · exact Or.inr (post_of_refused hroom)

/-- With an allocator that grants everything the ceiling alone decides. -/
theorem decided_granting (hmax : o.buf.max < 2 ^ 63) (r : Reply) :
    o.Decided (fun _ => true) r ↔
      o.buf.len + r.bytes.length ≤ o.buf.max ∨ o.buf.max < o.buf.len + 9 := by
  have hroom : ∀ ps : List Bytes, o.roomFor (fun _ => true) ps = true ↔
      o.buf.len + ps.flatten.length ≤ o.buf.max := by
    intro ps
    rw [List.length_flatten]
    exact Buffer.roomFor_granting hmax o.buf.cap_le_max o.buf.len_le_cap _
  have hnine : ([ascii "HTTP/1.1 "] : List Bytes).flatten.length = 9 := by decide
  unfold Decided
  rw [Bool.eq_false_iff, ne_eq, hroom, hroom, flatten_pieces, hnine, not_le]

end Outbox

/-! ## Runs of a connection -/

/-- What happens to the outbox of a connection. Between two responses everything else
of the connection may become anything. -/
inductive Turn
  | between (next : Conn Outbox)
  | commit (alloc : ℕ → Bool) (status : ℕ) (flags : HeadFlags)
  | flush (answers : List SysWrite)

/-- A connection, what the kernel has taken from it, and the responses whose commit
was answered with success. -/
structure Tracked where
  conn : Conn Outbox
  sent : Bytes
  done : List Reply

namespace Tracked

def start (c : Conn Outbox) : Tracked := ⟨c, [], []⟩

def step (t : Tracked) : Turn → Tracked
  | .between next => { t with conn := { next with outbox := t.conn.outbox } }
  | .commit alloc status flags =>
    match t.conn.commit (Outbox.post alloc) status flags with
    | (conn, st) =>
      { t with
        conn := conn
        done := if st < 0 then t.done else t.done ++ [t.conn.reply status flags] }
  | .flush answers =>
    let left := (t.conn.outbox.flush answers).1
    { t with
      conn := { t.conn with outbox := left }
      sent := t.sent ++
        t.conn.outbox.pending.take (t.conn.outbox.pending.length - left.pending.length) }

/-- Everything the client is sent, or will be. -/
def wire (t : Tracked) : Bytes := t.sent ++ t.conn.outbox.pending

/-- Behind what was there before, the wire holds whole responses and nothing else. -/
def Framed (before : Bytes) (t : Tracked) : Prop :=
  t.wire = before ++ (t.done.map Reply.bytes).flatten

/-- A commit appends the head and the body, whose length the head declares, or is
refused and leaves the outbox as it was. -/
def Atomic (t : Tracked) : Turn → Prop
  | .commit alloc status flags =>
    let r := t.conn.reply status flags
    let after := t.conn.commit (Outbox.post alloc) status flags
    (after.2 = .ok ∧
        after.1.outbox.pending = t.conn.outbox.pending ++ (r.head ++ t.conn.response) ∧
        (flags.chunked = false → ∃ front back,
          r.head = front ++ (contentLength t.conn.response.length).flatten ++ back)) ∨
      (after.2 < 0 ∧ after.1.outbox = t.conn.outbox)
  | _ => True

/-- A commit finds room for every piece of its response, or not even for the first. -/
def Decided (t : Tracked) : Turn → Prop
  | .commit alloc status flags => t.conn.outbox.Decided alloc (t.conn.reply status flags)
  | _ => True

theorem commit_outbox (c : Conn Outbox) (alloc : ℕ → Bool) (status : ℕ) (flags : HeadFlags) :
    (c.commit (Outbox.post alloc) status flags).1.outbox =
        (c.outbox.post alloc (c.reply status flags)).1 ∧
      (c.commit (Outbox.post alloc) status flags).2 =
        (c.outbox.post alloc (c.reply status flags)).2 := by
  unfold Conn.commit
  dsimp only
  rcases Outbox.post_ok_or_neg alloc c.outbox (c.reply status flags) with hok | hneg
  · rw [hok, if_neg (by decide : ¬Status.ok < 0)]
    exact ⟨rfl, rfl⟩
  · rw [if_pos hneg]
    exact ⟨rfl, rfl⟩

theorem atomic_iff (t : Tracked) (a : Turn) : t.Atomic a ↔ t.Decided a := by
  cases a with
  | between next => exact Iff.rfl
  | flush answers => exact Iff.rfl
  | commit alloc status flags =>
    obtain ⟨houtbox, hst⟩ := commit_outbox t.conn alloc status flags
    unfold Atomic Decided
    dsimp only
    rw [houtbox, hst, ← Outbox.postsWhole_iff]
    constructor
    · rintro (⟨hok, hpending, -⟩ | hsame)
      · exact Or.inl ⟨hok, hpending⟩
      · exact Or.inr hsame
    · rintro (⟨hok, hpending⟩ | hsame)
      · exact Or.inl ⟨hok, hpending, (t.conn.reply status flags).head_declares⟩
      · exact Or.inr hsame

theorem wire_flush (t : Tracked) (answers : List SysWrite) :
    (t.step (.flush answers)).wire = t.wire := by
  obtain ⟨gone, hgone⟩ := Outbox.flush_pending_suffix answers t.conn.outbox
  unfold wire step
  dsimp only
  rw [← hgone, List.length_append, Nat.add_sub_cancel, List.take_left, List.append_assoc]

/-- One turn keeps the wire framed exactly when its commit is decided at the first piece. -/
theorem framed_step {before : Bytes} {t : Tracked} (a : Turn) (h : t.Framed before) :
    (t.step a).Framed before ↔ t.Decided a := by
  cases a with
  | between next => exact iff_of_true h trivial
  | flush answers =>
    refine iff_of_true ?_ trivial
    unfold Framed
    rw [wire_flush]
    exact h
  | commit alloc status flags =>
    obtain ⟨houtbox, hst⟩ := commit_outbox t.conn alloc status flags
    unfold Framed wire at h ⊢
    unfold Decided step
    dsimp only
    rw [houtbox, hst, ← Outbox.postsWhole_iff]
    unfold Outbox.PostsWhole
    rcases Outbox.post_ok_or_neg alloc t.conn.outbox (t.conn.reply status flags) with hok | hneg
    · have hpending := Outbox.post_pending_of_ok hok
      rw [hok, if_neg (by decide : ¬Status.ok < 0), hpending]
      refine iff_of_true ?_ (Or.inl ⟨rfl, rfl⟩)
      rw [List.map_append, List.flatten_append, ← List.append_assoc, h, List.append_assoc]
      simp
    · rw [if_pos hneg, ← h, List.append_cancel_left_eq, Outbox.post_unchanged_iff]
      constructor
      · intro hroom
        exact Or.inr (Outbox.post_of_refused hroom)
      · rintro (⟨hok, -⟩ | ⟨-, hsame⟩)
        · rw [hok] at hneg
          exact absurd hneg (by decide)
        · apply (Outbox.post_unchanged_iff _).mp
          rw [hsame]

end Tracked

open Tracked in
/-- In every run of a connection, whatever its outbox held: all commits are atomic
exactly when all of them are decided at their first piece, and exactly then the
client is sent whole responses throughout. -/
theorem commits_atomic_iff (c : Conn Outbox) (as : List (Turn)) :
    (Along step Atomic (start c) as ↔ Along step Decided (start c) as) ∧
      (Throughout step (Framed c.outbox.pending) (start c) as ↔
        Along step Decided (start c) as) := by
  constructor
  · constructor
    · intro h
      exact h.mono fun t a => (atomic_iff t a).mp
    · intro h
      exact h.mono fun t a => (atomic_iff t a).mpr
  · have hstart : (start c).Framed c.outbox.pending := by
      unfold Framed wire start
      simp
    have htrivial : Along step (fun _ _ => True) (start c) as := by
      apply (along_iff_forall_split _ _).mpr
      intros
      trivial
    have hkeep : ∀ (t : Tracked) (a : Turn), (fun _ => True) t → (fun _ _ => True) t a →
        t.Framed c.outbox.pending → ((step t a).Framed c.outbox.pending ↔ t.Decided a) :=
      fun t a _ _ hframed => framed_step a hframed
    exact throughout_iff_along (fun _ _ _ _ _ _ => trivial) hkeep trivial hstart htrivial

/-- A chat request whose answer nearly fills a response buffer, on a connection that has
nothing else to write. -/
def nearlyFull : Conn Outbox :=
  { Conn.fresh Outbox.fresh with
    endpoint := .chat
    keepAlive := true
    requestId := ascii "01JAB3C4D5E6F7G8H9J0KMNPQR"
    response := List.replicate 1048500 120 }

/-- Its head goes out and its body does not. -/
theorem nearlyFull_torn :
    ¬(Tracked.start nearlyFull).Atomic (.commit (fun _ => true) 200 HeadFlags.none) ∧
      ¬((Tracked.start nearlyFull).step
        (.commit (fun _ => true) 200 HeadFlags.none)).Framed [] := by
  have hundecided :
      ¬(Tracked.start nearlyFull).Decided (.commit (fun _ => true) 200 HeadFlags.none) := by
    unfold Tracked.Decided
    dsimp only
    rw [Outbox.decided_granting (by decide)]
    have hhead : (headPieces 200 1048500 (some (ascii "01JAB3C4D5E6F7G8H9J0KMNPQR")) true
        { HeadFlags.none with noStore := true }).flatten.length = 208 := by decide +kernel
    have hbody : ((Tracked.start nearlyFull).conn.reply 200 HeadFlags.none).body.length =
        1048500 := List.length_replicate
    have hlen : ((Tracked.start nearlyFull).conn.reply 200 HeadFlags.none).bytes.length =
        208 + 1048500 := by
      unfold Reply.bytes Reply.head Reply.pieces
      rw [List.length_append, hbody, ← hhead]
      rfl
    rw [hlen]
    decide
  have hstart : (Tracked.start nearlyFull).Framed [] := rfl
  rw [Tracked.atomic_iff, Tracked.framed_step _ hstart]
  exact ⟨hundecided, hundecided⟩

end AsmFlow.Http
