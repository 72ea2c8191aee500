import AsmFlow.Http.Frames
import AsmFlow.Http.Moves

/-!
# The credential of a request

Beside the connection stands the heading of its message as the callbacks spell
it: complete header fields, complete trailers, and the field that is being read.
The connection gathers names and values into two buffers, and clears them only
once there is a value; so a name that follows fields without a value is heard
together with theirs.
-/

namespace AsmFlow.Http

open Library

variable {O : Type}

/-- The fields of a message so far, and the name and the value being read. -/
structure Heading where
  headers : List (Bytes × Bytes)
  trailers : List (Bytes × Bytes)
  name : Bytes
  value : Bytes
  phase : Phase
  deriving DecidableEq, Repr

namespace Heading

def fresh : Heading := ⟨[], [], [], [], .idle⟩

/-- The field being read is complete. -/
def close (g : Heading) : Heading :=
  if g.phase = .head then
    { g with headers := g.headers ++ [(g.name, g.value)], name := [], value := [] }
  else { g with trailers := g.trailers ++ [(g.name, g.value)], name := [], value := [] }

def hear (g : Heading) : Call → Heading
  | .messageBegin => { fresh with phase := .head }
  | .span .headerField p => { g with name := g.name ++ p }
  | .span .headerValue p => { g with value := g.value ++ p }
  | .headerValueComplete => g.close
  | .headersComplete _ => { g with phase := .body }
  | .messageComplete => { g with phase := .idle }
  | _ => g

def fields (g : Heading) : List (Bytes × Bytes) := g.headers ++ g.trailers

/-- The names of the last fields, as far as they have no value. -/
def runOn (fs : List (Bytes × Bytes)) : Bytes :=
  fs.foldl (fun names f => if f.2 = [] then names ++ f.1 else []) []

/-- The name of the field being read, behind the names it runs on from. -/
def heardName (g : Heading) : Bytes := runOn g.fields ++ g.name

/-- The library delivers a field as a name, which is not empty, a value and the end of it. -/
def Orderly (g : Heading) (x : Call) : Prop :=
  (g.phase.step x).isSome = true ∧
    match x with
    | .span .headerField p => p ≠ [] ∧ g.value = []
    | .span .headerValue _ => g.name ≠ []
    | .headerValueComplete => g.name ≠ []
    | .headersComplete _ => g.name = []
    | .messageComplete => g.name = []
    | _ => True

instance decidableOrderly (g : Heading) : ∀ x, Decidable (g.Orderly x)
  | .span .headerField p => inferInstanceAs (Decidable (_ ∧ p ≠ [] ∧ g.value = []))
  | .span .headerValue _ => inferInstanceAs (Decidable (_ ∧ g.name ≠ []))
  | .span .url _ => inferInstanceAs (Decidable (_ ∧ True))
  | .span .body _ => inferInstanceAs (Decidable (_ ∧ True))
  | .messageBegin => inferInstanceAs (Decidable (_ ∧ True))
  | .headerFieldComplete => inferInstanceAs (Decidable (_ ∧ True))
  | .headerValueComplete => inferInstanceAs (Decidable (_ ∧ g.name ≠ []))
  | .headersComplete _ => inferInstanceAs (Decidable (_ ∧ g.name = []))
  | .messageComplete => inferInstanceAs (Decidable (_ ∧ g.name = []))
  | .unset => inferInstanceAs (Decidable (_ ∧ True))
  | .bad _ => inferInstanceAs (Decidable (_ ∧ True))

theorem runOn_concat (fs : List (Bytes × Bytes)) (f : Bytes × Bytes) :
    runOn (fs ++ [f]) = if f.2 = [] then runOn fs ++ f.1 else [] := by
  unfold runOn
  rw [List.foldl_append]
  rfl

/-- Before the body there are no trailers. -/
def Sorted (g : Heading) : Prop := g.phase = .head → g.trailers = []

theorem Sorted.fields_close {g : Heading} (h : g.Sorted) :
    g.close.fields = g.fields ++ [(g.name, g.value)] := by
  unfold close fields
  split_ifs with hhead
  · rw [h hhead, List.append_nil, List.append_nil]
  · exact (List.append_assoc _ _ _).symm

end Heading

namespace Server

variable (s : Server O)

/-- A field with this name is kept as the credential. -/
def Takes (name : Bytes) : Prop :=
  isCi name (ascii "content-length") = false ∧ isCi name (ascii "transfer-encoding") = false ∧
    isCi name (ascii "content-type") = false ∧ s.isCredential name = true

/-- The fields with the name the policy asks for. -/
def credentials (fs : List (Bytes × Bytes)) : List (Bytes × Bytes) :=
  fs.filter fun f => s.isCredential f.1

/-- The value is the secret, for a bearer policy behind the word and one space. -/
def Presents (value : Bytes) : Prop :=
  match s.authType with
  | .bearerEnv => ∃ word, isCi word (ascii "bearer") = true ∧ value = word ++ 32 :: s.authSecret
  | _ => value = s.authSecret

/-- There is exactly one field with the name the policy asks for, and it presents the
secret. -/
def Credentialed (fs : List (Bytes × Bytes)) : Prop :=
  ∃ f, s.credentials fs = [f] ∧ s.Presents f.2

/-! ## The check -/

/-- What the connection has kept, beside the fields it was sent. -/
structure Holds (c : Conn O) (fs : List (Bytes × Bytes)) : Prop where
  kept : (c.haveAuth = false ∧ c.auth = [] ∧ s.credentials fs = []) ∨
    (c.haveAuth = true ∧ ∃ name, s.credentials fs = [(name, c.auth)])
  allocated : c.auth ≠ [] → c.authAllocated = true

variable {s}

theorem isCi_length {b token : Bytes} (h : isCi b token = true) : b.length = token.length := by
  have hlower : b.map lower = token.map lower := eq_of_beq h
  simpa using congrArg List.length hlower

/-- The word, exactly one space and the secret, as the check takes a value apart. -/
theorem bearer_iff (hsecret : s.authSecret ≠ [])
    (htoken : ∀ presented, s.checkToken presented = none ↔ presented = s.authSecret)
    (value : Bytes) :
    (if true = false then some ErrorId.missingToken
      else if AuthType.bearerEnv = AuthType.bearerEnv then
        if value.length ≤ 7 then some .invalidToken
        else if isCi (value.take 6) (ascii "bearer") = false then some .invalidToken
        else if value[6]? ≠ some 32 then some .invalidToken
        else s.checkToken (value.drop 7)
      else s.checkToken value) = none ↔
      ∃ word, isCi word (ascii "bearer") = true ∧ value = word ++ 32 :: s.authSecret := by
  rw [if_neg (by decide), if_pos rfl]
  constructor
  · intro h
    split_ifs at h with hlen hword hspace
    refine ⟨value.take 6, Bool.not_eq_false _ ▸ hword, ?_⟩
    have hrest : value.drop 6 = 32 :: value.drop 7 := by
      obtain ⟨hlt, hget⟩ := List.getElem?_eq_some_iff.mp (not_not.mp hspace)
      rw [List.drop_eq_getElem_cons hlt, hget]
    rw [← (htoken _).mp h, ← hrest, List.take_append_drop]
  · rintro ⟨word, hword, rfl⟩
    have hlen : word.length = 6 := isCi_length hword
    have hpos := List.length_pos_iff.mpr hsecret
    have htotal : ¬(word ++ 32 :: s.authSecret).length ≤ 7 := by
      rw [List.length_append, List.length_cons]
      omega
    have htake : (word ++ 32 :: s.authSecret).take 6 = word := by
      rw [← hlen, List.take_left]
    have hget : (word ++ 32 :: s.authSecret)[6]? = some 32 := by
      rw [List.getElem?_append_right hlen.le, hlen]
      rfl
    have hdrop : (word ++ 32 :: s.authSecret).drop 7 = s.authSecret := by
      rw [List.drop_append, hlen, List.drop_eq_nil_of_le (by omega)]
      rfl
    rw [if_neg htotal, htake, hword, if_neg (by decide), hget, if_neg (by simp), hdrop]
    exact (htoken _).mpr rfl

/-- The comparison with the secret, for a value that was kept. -/
theorem checkAuth_eq_none {c : Conn O} (hpolicy : s.authType ≠ .none) (hsecret : s.authSecret ≠ [])
    (hhave : c.haveAuth = true) (hallocated : c.auth ≠ [] → c.authAllocated = true) :
    s.checkAuth c = none ↔ s.Presents c.auth := by
  have htoken : ∀ presented, s.checkToken presented = none ↔ presented = s.authSecret := by
    intro presented
    unfold checkToken
    split_ifs with h
    · exact iff_of_true rfl h
    · exact iff_of_false nofun h
  by_cases halloc : c.authAllocated = false
  · have hempty : c.auth = [] := by
      by_contra hne
      rw [hallocated hne] at halloc
      cases halloc
    have hpresents : ¬s.Presents c.auth := by
      unfold Presents
      rw [hempty]
      cases s.authType with
      | bearerEnv =>
        rintro ⟨word, -, hvalue⟩
        exact absurd hvalue.symm (List.append_ne_nil_of_right_ne_nil _ (List.cons_ne_nil _ _))
      | none => exact fun h => hsecret h.symm
      | headerEnv => exact fun h => hsecret h.symm
    refine iff_of_false ?_ hpresents
    unfold checkAuth
    cases hkind : s.authType with
    | none => exact absurd hkind hpolicy
    | bearerEnv =>
      simp only [if_neg hsecret, hhave, halloc]
      exact nofun
    | headerEnv =>
      simp only [if_neg hsecret, hhave, halloc]
      exact nofun
  · unfold checkAuth Presents
    cases hkind : s.authType with
    | none => exact absurd hkind hpolicy
    | headerEnv =>
      simp only [if_neg hsecret, hhave, if_neg halloc]
      exact htoken c.auth
    | bearerEnv =>
      simp only [if_neg hsecret, hhave, if_neg halloc]
      exact bearer_iff hsecret htoken c.auth

/-- The check lets a request through exactly if its fields are credentialed. -/
theorem Holds.checkAuth {c : Conn O} {fs : List (Bytes × Bytes)} (h : s.Holds c fs)
    (hpolicy : s.authType ≠ .none) (hsecret : s.authSecret ≠ []) :
    s.checkAuth c = none ↔ s.Credentialed fs := by
  unfold Credentialed
  rcases h.kept with ⟨hnone, -, hempty⟩ | ⟨hhave, name, hone⟩
  · rw [hempty]
    refine iff_of_false ?_ (fun ⟨f, hf, _⟩ => List.cons_ne_nil f [] hf.symm)
    unfold Server.checkAuth
    cases hkind : s.authType with
    | none => exact absurd hkind hpolicy
    | bearerEnv =>
      simp only [if_neg hsecret, hnone]
      exact nofun
    | headerEnv =>
      simp only [if_neg hsecret, hnone]
      exact nofun
  · rw [checkAuth_eq_none hpolicy hsecret hhave h.allocated, hone]
    constructor
    · intro hpresents
      exact ⟨(name, c.auth), rfl, hpresents⟩
    · rintro ⟨f, hf, hpresents⟩
      obtain rfl := (List.cons.inj hf).1
      exact hpresents

end Server

/-! ## What the callbacks gather -/

namespace Conn

/-- What a connection has gathered of the field being read, and of the credential. -/
def gathered (c : Conn O) : Bytes × Bytes × Bool × Bytes × Bool :=
  (c.name, c.value, c.haveAuth, c.auth, c.authAllocated)

theorem setFault_gathered (c : Conn O) (id : ErrorId) : (c.setFault id).gathered = c.gathered := by
  unfold setFault
  cases c.fault with
  | none => rfl
  | some f => rfl

theorem commit_gathered (post : O → Reply → O × Status) (c : Conn O) (status : ℕ)
    (flags : HeadFlags) : (c.commit post status flags).1.gathered = c.gathered := by
  unfold commit
  dsimp only
  split_ifs
  · rfl
  · rfl

end Conn

namespace Server

variable {s : Server O}

theorem sendError_gathered (c : Conn O) (id : ErrorId) :
    (s.sendError c id).1.gathered = c.gathered := by
  unfold sendError
  dsimp only
  split_ifs
  · exact Conn.commit_gathered _ _ _ _
  · exact Conn.commit_gathered _ _ _ _

theorem deliver_gathered (c : Conn O) : (s.deliver c).gathered = c.gathered := by
  unfold deliver
  cases s.exchange c.endpoint c.body c.requests with
  | response status flags body => exact Conn.commit_gathered s.post { c with response := body } status flags
  | error id => exact sendError_gathered c id

theorem refuse_gathered (c : Conn O) (id : ErrorId) : (s.refuse c id).gathered = c.gathered := by
  have hfault := c.setFault_gathered id
  unfold refuse
  dsimp only
  split_ifs
  · exact hfault
  · exact (sendError_gathered _ _).trans hfault

/-- The moves that are no callbacks gather nothing. -/
theorem move_gathered (l : Dialogue O) {m : Move} (hm : ∀ x, m ≠ .call x) :
    (s.move l m).conn.gathered = l.conn.gathered := by
  cases m with
  | call x => exact absurd rfl (hm x)
  | count n =>
    unfold move countHeaderBytes
    dsimp only
    split_ifs
    · rfl
    · rfl
  | refuse id => exact refuse_gathered l.conn id
  | overflow =>
    unfold move
    dsimp only
    split_ifs
    · rfl
    · exact l.conn.setFault_gathered .bodyTooLarge
  | deliver =>
    unfold move
    dsimp only
    split_ifs
    · exact deliver_gathered l.conn
    · rfl
  | resume =>
    unfold move
    dsimp only
    split_ifs
    · rfl
    · rfl
  | drain => rfl
  | sweep =>
    unfold move timeout
    dsimp only
    split_ifs
    · exact sendError_gathered l.conn .requestTimeout
    · rfl

/-- Only the end of a message suspends the parser. -/
theorem call_paused {c : Conn O} {x : Call} (h : (s.call c x).2 = some .paused) :
    x = .messageComplete := by
  have hpasses : ∀ {f : Conn O → Conn O × Option Hpe}, Conn.Does f c (Conn.Continues c) →
      (f c).2 ≠ some .paused := by
    intro f hdoes hpaused
    obtain ⟨-, d, -, -, hstop⟩ := hdoes.at
    rw [hpaused] at hstop
    rcases hstop with hstop | ⟨hstop, -⟩
    · cases hstop
    · cases hstop
  cases x with
  | span kind p => exact absurd h (hpasses ((s.onSpan_does p kind c).mono fun _ _ h => h.1))
  | messageBegin => cases h
  | headerFieldComplete => cases h
  | headerValueComplete =>
    exact absurd h (hpasses ((s.onHeaderValueComplete_does c).mono fun _ _ h => h.1))
  | headersComplete line => exact absurd h (hpasses (s.onHeadersComplete_does line c))
  | messageComplete => rfl
  | unset => cases h
  | bad e => cases h

/-- The connection and the heading of its message agree. -/
structure Tracks (s : Server O) (c : Conn O) (g : Heading) : Prop where
  sorted : g.Sorted
  between : g.name = [] → (nextName c).name = Heading.runOn g.fields ∧ g.value = []
  inside : g.name ≠ [] → c.name = g.heardName ∧ c.value = g.value
  holds : s.Holds c g.headers

theorem Tracks.of_gathered {c d : Conn O} {g : Heading} (h : s.Tracks c g)
    (hsame : d.gathered = c.gathered) : s.Tracks d g := by
  have hname : d.name = c.name := congrArg Prod.fst hsame
  have hrest := congrArg Prod.snd hsame
  have hvalue : d.value = c.value := congrArg Prod.fst hrest
  have hcredential := congrArg Prod.snd hrest
  have hhave : d.haveAuth = c.haveAuth := congrArg Prod.fst hcredential
  have hauth : d.auth = c.auth := congrArg (fun x => x.2.1) hcredential
  have hallocated : d.authAllocated = c.authAllocated := congrArg (fun x => x.2.2) hcredential
  have hnext : (nextName d).name = (nextName c).name := by
    unfold nextName
    rw [hvalue]
    split_ifs
    · exact hname
    · rfl
  refine ⟨h.sorted, ?_, ?_, ?_, ?_⟩
  · rw [hnext]
    exact h.between
  · rw [hname, hvalue]
    exact h.inside
  · rw [hhave, hauth]
    exact h.holds.kept
  · rw [hauth, hallocated]
    exact h.holds.allocated

theorem onUrl_gathered (c : Conn O) (p : Bytes) : (onUrl c p).1.gathered = c.gathered := by
  unfold onUrl
  cases extend targetMax c.target p with
  | none => exact c.setFault_gathered _
  | some target => rfl

theorem onBody_gathered (c : Conn O) (p : Bytes) : (s.onBody c p).1.gathered = c.gathered := by
  unfold onBody
  split_ifs
  · exact c.setFault_gathered _
  · cases extend s.bodyMax c.body p with
    | none => exact Conn.setFault_gathered { c with bodyBytes := c.bodyBytes + p.length } _
    | some body => rfl

theorem onHeadersComplete_gathered (c : Conn O) (line : RequestLine) :
    (s.onHeadersComplete c line).1.gathered = c.gathered := by
  have hrefuse : ∀ (d : Conn O) id, (d.refuse id).1.gathered = d.gathered := Conn.setFault_gathered
  unfold onHeadersComplete
  dsimp only
  split_ifs
  · exact hrefuse _ _
  · exact hrefuse _ _
  · exact hrefuse _ _
  · exact hrefuse _ _
  · rfl

theorem extend_eq_some {max : ℕ} {data p grown : Bytes} (h : extend max data p = some grown) :
    grown = data ++ p := by
  unfold extend at h
  split_ifs at h
  exact (Option.some.inj h).symm

/-- A piece of a name. -/
theorem Tracks.field {c : Conn O} {g : Heading} (h : s.Tracks c g) {p : Bytes}
    (hp : p ≠ []) (hvalue : g.value = []) (hgoes : (onHeaderField c p).2 = none) :
    s.Tracks (onHeaderField c p).1 (g.hear (.span .headerField p)) := by
  unfold onHeaderField at hgoes ⊢
  cases hgrown : extend nameMax (nextName c).name p with
  | none =>
    rw [hgrown] at hgoes
    cases hgoes
  | some grown =>
    dsimp only
    rw [extend_eq_some hgrown]
    have hnext : (nextName c).name = g.heardName := by
      by_cases hname : g.name = []
      · rw [(h.between hname).1, Heading.heardName, hname, List.append_nil]
      · have hempty : c.value = [] := (h.inside hname).2.trans hvalue
        rw [nextName, if_pos hempty]
        exact (h.inside hname).1
    have hsame : (nextName c).haveAuth = c.haveAuth ∧ (nextName c).auth = c.auth ∧
        (nextName c).authAllocated = c.authAllocated := by
      unfold nextName
      split_ifs
      · exact ⟨rfl, rfl, rfl⟩
      · exact ⟨rfl, rfl, rfl⟩
    refine ⟨h.sorted, ?_, ?_, ?_, ?_⟩
    · intro hname
      exact absurd (List.append_eq_nil_iff.mp hname).2 hp
    · intro _
      constructor
      · show (nextName c).name ++ p = Heading.runOn g.fields ++ (g.name ++ p)
        rw [hnext, Heading.heardName, List.append_assoc]
      · exact (nextName_value c).trans hvalue.symm
    · show ((nextName c).haveAuth = false ∧ _) ∨ ((nextName c).haveAuth = true ∧ _)
      rw [hsame.1, hsame.2.1]
      exact h.holds.kept
    · show (nextName c).auth ≠ [] → (nextName c).authAllocated = true
      rw [hsame.2.1, hsame.2.2]
      exact h.holds.allocated

/-- A piece of a value. -/
theorem Tracks.value {c : Conn O} {g : Heading} (h : s.Tracks c g) {p : Bytes}
    (hname : g.name ≠ []) (hgoes : (onHeaderValue c p).2 = none) :
    s.Tracks (onHeaderValue c p).1 (g.hear (.span .headerValue p)) := by
  unfold onHeaderValue at hgoes ⊢
  cases hgrown : extend valueMax c.value p with
  | none =>
    rw [hgrown] at hgoes
    cases hgoes
  | some grown =>
    obtain ⟨hheard, hvalue⟩ := h.inside hname
    dsimp only
    rw [extend_eq_some hgrown]
    refine ⟨h.sorted, fun hnone => absurd hnone hname, fun _ => ⟨hheard, ?_⟩, h.holds.kept,
      h.holds.allocated⟩
    exact congrArg (· ++ p) hvalue

/-- A field that is not taken changes nothing of the credential. -/
theorem onHeaderValueComplete_gathered {c : Conn O} (htakes : ¬s.Takes c.name) :
    (s.onHeaderValueComplete c).1.gathered = c.gathered := by
  unfold onHeaderValueComplete
  split_ifs with hcl hte hctype hcredential
  · unfold onContentLength
    split_ifs
    · exact c.setFault_gathered _
    · cases parseU64 c.value with
      | none => exact c.setFault_gathered _
      | some n => rfl
  · unfold onTransferEncoding
    split_ifs
    · exact c.setFault_gathered _
    · rfl
    · exact c.setFault_gathered _
  · unfold onContentType
    cases extend valueMax c.ctype c.value with
    | none => exact c.setFault_gathered _
    | some ctype => rfl
  · exact absurd ⟨Bool.not_eq_true _ ▸ hcl, Bool.not_eq_true _ ▸ hte, Bool.not_eq_true _ ▸ hctype,
      hcredential⟩ htakes
  · rfl

theorem onHeaderValueComplete_of_takes {c : Conn O} (htakes : s.Takes c.name) :
    s.onHeaderValueComplete c = onCredential c := by
  obtain ⟨hcl, hte, hctype, hcredential⟩ := htakes
  unfold onHeaderValueComplete
  rw [hcl, hte, hctype, hcredential, if_neg (by decide), if_neg (by decide), if_neg (by decide),
    if_pos rfl]

theorem credentials_concat (fs : List (Bytes × Bytes)) (f : Bytes × Bytes) :
    s.credentials (fs ++ [f]) =
      s.credentials fs ++ if s.isCredential f.1 = true then [f] else [] := by
  unfold credentials
  rw [List.filter_append]
  cases hf : s.isCredential f.1 with
  | true => simp [hf]
  | false => simp [hf]

/-- The end of a field that is taken for what it is named. -/
theorem Tracks.complete {c : Conn O} {g : Heading} (h : s.Tracks c g) (hname : g.name ≠ [])
    (htakes : s.Takes g.heardName ↔ g.phase = .head ∧ s.isCredential g.name = true)
    (hgoes : (s.onHeaderValueComplete c).2 = none) :
    s.Tracks (s.onHeaderValueComplete c).1 g.close := by
  obtain ⟨hheard, hvalue⟩ := h.inside hname
  rw [← hheard] at htakes
  have hclosed : g.close.name = [] ∧ g.close.value = [] ∧ g.close.Sorted := by
    unfold Heading.close
    split_ifs with hhead
    · exact ⟨rfl, rfl, fun _ => h.sorted hhead⟩
    · exact ⟨rfl, rfl, fun hhead' => absurd hhead' hhead⟩
  have hbetween : ∀ d : Conn O, d.name = c.name → d.value = c.value →
      (nextName d).name = Heading.runOn g.close.fields ∧ g.close.value = [] := by
    intro d hdname hdvalue
    rw [h.sorted.fields_close, Heading.runOn_concat, nextName, hdvalue, hvalue]
    split_ifs
    · exact ⟨hdname.trans hheard, hclosed.2.1⟩
    · exact ⟨rfl, hclosed.2.1⟩
  by_cases htaken : s.Takes c.name
  · obtain ⟨hhead, hcredential⟩ := htakes.mp htaken
    rw [onHeaderValueComplete_of_takes htaken] at hgoes ⊢
    unfold onCredential at hgoes ⊢
    have hfirst : c.haveAuth = false := by
      rw [Bool.eq_false_iff]
      intro hhave
      rw [if_pos hhave] at hgoes
      cases hgoes
    rw [if_neg (Bool.eq_false_iff.mp hfirst)] at hgoes ⊢
    rcases h.holds.kept with ⟨-, hauth, hnone⟩ | ⟨hhave, -⟩
    · cases hgrown : extend valueMax c.auth c.value with
      | none =>
        rw [hgrown] at hgoes
        cases hgoes
      | some auth =>
        have hown : auth = g.value := by
          rw [extend_eq_some hgrown, hauth, hvalue]
          rfl
        have hone : s.credentials g.close.headers = [(g.name, g.value)] := by
          unfold Heading.close
          rw [if_pos hhead, credentials_concat, hnone, if_pos hcredential]
          rfl
        refine ⟨hclosed.2.2, fun _ => hbetween _ rfl rfl, fun hne => absurd hclosed.1 hne,
          Or.inr ⟨rfl, g.name, ?_⟩, fun hne => ?_⟩
        · rw [hone, ← hown]
        · show (c.authAllocated || !c.value.isEmpty) = true
          have hvalued : c.value ≠ [] := by
            rw [hvalue, ← hown]
            exact hne
          cases hcv : c.value with
          | nil => exact absurd hcv hvalued
          | cons b v => exact Bool.or_true _
    · rw [hfirst] at hhave
      cases hhave
  · have hgathered := onHeaderValueComplete_gathered htaken
    have hsame := h.of_gathered hgathered
    have hkept : s.credentials g.close.headers = s.credentials g.headers := by
      unfold Heading.close
      split_ifs with hhead
      · have hother : ¬s.isCredential g.name = true := fun hc => htaken (htakes.mpr ⟨hhead, hc⟩)
        rw [credentials_concat, if_neg hother, List.append_nil]
      · rfl
    refine ⟨hclosed.2.2, fun _ => ?_, fun hne => absurd hclosed.1 hne, ?_, hsame.holds.allocated⟩
    · exact hbetween _ (congrArg Prod.fst hgathered) (congrArg (fun x => x.2.1) hgathered)
    · rw [hkept]
      exact hsame.holds.kept

/-- A message that begins has nothing of the one before it. -/
theorem tracks_begin (c : Conn O) :
    s.Tracks c.resetMessage { Heading.fresh with phase := .head } where
  sorted _ := rfl
  between _ := ⟨rfl, rfl⟩
  inside h := absurd rfl h
  holds := ⟨Or.inl ⟨rfl, rfl, rfl⟩, fun h => absurd rfl h⟩

/-- One callback. -/
theorem Tracks.call {c : Conn O} {g : Heading} {x : Call} (h : g.phase ≠ .idle → s.Tracks c g)
    (hx : g.Orderly x)
    (htakes : x = .headerValueComplete →
      (s.Takes g.heardName ↔ g.phase = .head ∧ s.isCredential g.name = true))
    (hgoes : (s.call c x).2 = none) (hinside : (g.hear x).phase ≠ .idle) :
    s.Tracks (s.call c x).1 (g.hear x) := by
  have hstays : g.phase ≠ .idle → g.hear x = g → (s.call c x).1.gathered = c.gathered →
      s.Tracks (s.call c x).1 (g.hear x) := by
    intro hphase hheading hgathered
    rw [hheading]
    exact (h hphase).of_gathered hgathered
  have hphase : (∀ ph, ph = Phase.idle → ph.step x = none) → g.phase ≠ .idle := by
    intro hnone hidle
    have hsome := hx.1
    rw [hnone g.phase hidle] at hsome
    cases hsome
  cases x with
  | span kind p =>
    have hinside : g.phase ≠ .idle := hphase fun ph hph => by rw [hph]; rfl
    cases kind with
    | url => exact hstays hinside rfl (onUrl_gathered c p)
    | headerField => exact (h hinside).field hx.2.1 hx.2.2 hgoes
    | headerValue => exact (h hinside).value hx.2 hgoes
    | body => exact hstays hinside rfl (onBody_gathered c p)
  | messageBegin => exact tracks_begin c
  | headerFieldComplete =>
    exact hstays (hphase fun ph hph => by rw [hph]; rfl) rfl rfl
  | headerValueComplete =>
    have hinside : g.phase ≠ .idle := hphase fun ph hph => by rw [hph]; rfl
    exact (h hinside).complete hx.2 (htakes rfl) hgoes
  | headersComplete line =>
    have htracks := (h (hphase fun ph hph => by rw [hph]; rfl)).of_gathered
      (onHeadersComplete_gathered (s := s) c line)
    exact ⟨nofun, htracks.between, htracks.inside, htracks.holds⟩
  | messageComplete => exact absurd rfl hinside
  | unset => exact hstays hinside rfl rfl
  | bad e => cases hgoes

end Server

/-! ## Runs -/

/-- A connection and the heading of its message. -/
structure Audit (O : Type) where
  dialogue : Dialogue O
  heading : Heading

namespace Audit

variable (s : Server O)

def start (outbox : O) : Audit O := ⟨Dialogue.start outbox, Heading.fresh⟩

def step (t : Audit O) (m : Move) : Audit O where
  dialogue := s.move t.dialogue m
  heading :=
    match m with
    | .call x => if t.dialogue.errno = none then t.heading.hear x else t.heading
    | _ => t.heading

/-- The library makes its callbacks in order. -/
def Orderly (t : Audit O) (m : Move) : Prop :=
  ∀ x, m = .call x → t.dialogue.errno = none → t.heading.Orderly x

/-- A field is taken for the credential exactly if it is named so and stands in the
header section. -/
def TakenAsNamed (t : Audit O) (m : Move) : Prop :=
  m = .call .headerValueComplete → t.dialogue.errno = none →
    (s.Takes t.heading.heardName ↔
      t.heading.phase = .head ∧ s.isCredential t.heading.name = true)

/-- The handler runs for a request exactly if the fields of its own header section carry the
credential, and nothing else keeps it from its handler; and a field is refused as a second
credential only behind a first. -/
def Checked (t : Audit O) (m : Move) : Prop :=
  (m = .call .messageComplete → t.dialogue.errno = none →
    (s.Runs t.dialogue.conn ↔
      s.Credentialed t.heading.headers ∧ Server.Otherwise t.dialogue.conn)) ∧
    (m = .call .headerValueComplete → t.dialogue.errno = none →
      s.Takes t.dialogue.conn.name → t.dialogue.conn.haveAuth = true →
        2 ≤ (s.credentials t.heading.close.headers).length)

/-- The invariant of runs: inside a message, as long as the parser goes on, the connection
agrees with the heading; it is suspended only between messages. -/
structure Kept (t : Audit O) : Prop where
  tracks : t.dialogue.errno = none → t.heading.phase ≠ .idle →
    s.Tracks t.dialogue.conn t.heading
  suspended : t.dialogue.errno = some .paused → t.heading.phase = .idle

variable {s}

theorem start_kept (outbox : O) : Kept s (start outbox) := ⟨fun _ h => absurd rfl h, nofun⟩

theorem kept_step {t : Audit O} (h : t.Kept s) {m : Move} (horder : t.Orderly m)
    (htaken : t.TakenAsNamed s m) : (t.step s m).Kept s := by
  have hother : ∀ {m : Move}, (∀ x, m ≠ .call x) → (t.step s m).heading = t.heading →
      ((t.step s m).dialogue.errno = t.dialogue.errno ∨
        (t.step s m).dialogue.errno = Server.resumeErrno t.dialogue.errno) →
      (t.step s m).Kept s := by
    intro m hm hheading herrno
    have hgathered : (t.step s m).dialogue.conn.gathered = t.dialogue.conn.gathered :=
      Server.move_gathered t.dialogue hm
    have hback : (t.step s m).dialogue.errno = none →
        t.dialogue.errno = none ∨ t.dialogue.errno = some .paused := by
      intro hnone
      rcases herrno with hsame | hresumed
      · exact Or.inl (hsame.symm.trans hnone)
      · by_cases hpaused : t.dialogue.errno = some .paused
        · exact Or.inr hpaused
        · rw [hresumed, Server.resumeErrno, if_neg hpaused] at hnone
          exact Or.inl hnone
    constructor
    · intro hnone hphase
      rw [hheading] at hphase ⊢
      rcases hback hnone with hrunning | hpaused
      · exact (h.tracks hrunning hphase).of_gathered hgathered
      · exact absurd (h.suspended hpaused) hphase
    · intro hpaused
      rw [hheading]
      apply h.suspended
      rcases herrno with hsame | hresumed
      · exact hsame.symm.trans hpaused
      · rw [hresumed, Server.resumeErrno] at hpaused
        split_ifs at hpaused
        exact hpaused
  cases m with
  | call x =>
    by_cases herrno : t.dialogue.errno = none
    · have hmove : s.move t.dialogue (.call x) =
          ⟨(s.call t.dialogue.conn x).1, (s.call t.dialogue.conn x).2⟩ := if_pos herrno
      have hheading : (t.step s (.call x)).heading = t.heading.hear x := if_pos herrno
      constructor
      · intro hgoes hinside
        rw [hheading] at hinside ⊢
        have hgoes : (s.move t.dialogue (.call x)).errno = none := hgoes
        show s.Tracks (s.move t.dialogue (.call x)).conn _
        rw [hmove] at hgoes ⊢
        exact Server.Tracks.call (h.tracks herrno) (horder x rfl herrno)
          (fun hx => htaken (congrArg Move.call hx) herrno) hgoes hinside
      · intro hpaused
        have hpaused : (s.move t.dialogue (.call x)).errno = some .paused := hpaused
        rw [hmove] at hpaused
        obtain rfl := Server.call_paused hpaused
        rw [hheading]
        rfl
    · have hsame : t.step s (.call x) = t := by
        have hmove : s.move t.dialogue (.call x) = t.dialogue := if_neg herrno
        have hheading : (t.step s (.call x)).heading = t.heading := if_neg herrno
        calc t.step s (.call x)
            = ⟨s.move t.dialogue (.call x), (t.step s (.call x)).heading⟩ := rfl
          _ = t := by rw [hheading, hmove]
      rw [hsame]
      exact h
  | count n => exact hother nofun rfl (Or.inl rfl)
  | refuse id => exact hother nofun rfl (Or.inl rfl)
  | overflow =>
    refine hother nofun rfl (Or.inl ?_)
    show (s.move t.dialogue .overflow).errno = _
    unfold Server.move
    dsimp only
    split_ifs <;> rfl
  | deliver =>
    refine hother nofun rfl (Or.inl ?_)
    show (s.move t.dialogue .deliver).errno = _
    unfold Server.move
    dsimp only
    split_ifs <;> rfl
  | resume =>
    refine hother nofun rfl ?_
    show (s.move t.dialogue .resume).errno = _ ∨ (s.move t.dialogue .resume).errno = _
    unfold Server.move
    dsimp only
    split_ifs
    · exact Or.inl rfl
    · exact Or.inr rfl
  | drain => exact hother nofun rfl (Or.inl rfl)
  | sweep => exact hother nofun rfl (Or.inl rfl)

/-- What the invariant says of the check. -/
theorem Kept.checked {t : Audit O} (h : t.Kept s) (hpolicy : s.authType ≠ .none)
    (hsecret : s.authSecret ≠ []) {m : Move} (horder : t.Orderly m)
    (htaken : t.TakenAsNamed s m) : t.Checked s m := by
  constructor
  · rintro rfl herrno
    have hinside : t.heading.phase ≠ .idle := by
      intro hidle
      have hstep := (horder _ rfl herrno).1
      rw [hidle] at hstep
      cases hstep
    exact and_congr_left fun _ => (h.tracks herrno hinside).holds.checkAuth hpolicy hsecret
  · rintro rfl herrno htakes hhave
    have hinside : t.heading.phase ≠ .idle := by
      intro hidle
      have hstep := (horder _ rfl herrno).1
      rw [hidle] at hstep
      cases hstep
    have htracks := h.tracks herrno hinside
    rw [(htracks.inside (horder _ rfl herrno).2).1] at htakes
    obtain ⟨hhead, hcredential⟩ := (htaken rfl herrno).mp htakes
    rcases htracks.holds.kept with ⟨hnone, -⟩ | ⟨-, name, hone⟩
    · rw [hhave] at hnone
      cases hnone
    · unfold Heading.close
      rw [if_pos hhead, Server.credentials_concat, hone, if_pos hcredential]
      exact le_refl 2

theorem checked_of_kept (hpolicy : s.authType ≠ .none) (hsecret : s.authSecret ≠ [])
    {t : Audit O} (h : t.Kept s) {ms : List Move} (horder : Along (step s) Orderly t ms)
    (htaken : Along (step s) (TakenAsNamed s) t ms) : Along (step s) (Checked s) t ms := by
  induction ms generalizing t with
  | nil => trivial
  | cons m ms ih =>
    exact ⟨h.checked hpolicy hsecret horder.1 htaken.1,
      ih (kept_step h horder.1 htaken.1) horder.2 htaken.2⟩

end Audit

open Audit in
/-- Under a credential policy, along runs in which every field is taken for what it is
named, the credential is checked request by request. -/
theorem credentials_checked (s : Server O) (hpolicy : s.authType ≠ .none)
    (hsecret : s.authSecret ≠ []) (outbox : O) (ms : List Move)
    (horder : Along (step s) Orderly (start outbox) ms)
    (htaken : Along (step s) (TakenAsNamed s) (start outbox) ms) :
    Along (step s) (Checked s) (start outbox) ms :=
  checked_of_kept hpolicy hsecret (start_kept outbox) horder htaken

/-! ## A bearer policy -/

/-- A server whose secret is one letter. -/
def guarded : Server (List Reply) where
  headerMax := 4096
  bodyMax := 65536
  authType := .bearerEnv
  authHeader := some (ascii "Authorization")
  authSecret := ascii "x"
  newId n := [UInt8.ofNat n]
  errorBody _ id := id
  page _ _ := some (200, [])
  generate _ _ _ := none
  exchange _ _ _ := .error .internal
  post sent r := (sent ++ [r], .ok)

/-- A request for a page with these header fields, up to its end; the library delivers an
empty value as an empty span. -/
def headed (fs : List (Bytes × Bytes)) : List Move :=
  [.call .messageBegin, .call (.span .url (ascii "/healthz"))] ++
    fs.flatMap (fun f => [.call (.span .headerField f.1), .call .headerFieldComplete,
      .call (.span .headerValue f.2), .call .headerValueComplete]) ++
    [.call (.headersComplete ⟨methodGet, 1, 1, false, true⟩)]

def asking (fs : List (Bytes × Bytes)) : List Move := headed fs ++ [.call .messageComplete]

def bearer : Bytes := ascii "Bearer x"

open Audit in
theorem bearer_checked :
    Along (step guarded) (Checked guarded) (start [])
      (asking [(ascii "Authorization", bearer)]) := by
  refine credentials_checked guarded (by decide) (by decide) [] _ ?_ ?_
  · refine ⟨?_, ?_, ?_, ?_, ?_, ?_, ?_, ?_, trivial⟩ <;> rintro x ⟨rfl⟩ - <;> decide
  · refine ⟨nofun, nofun, nofun, nofun, nofun, fun _ _ => ?_, nofun, nofun, trivial⟩
    unfold Server.Takes
    decide

open Audit in
/-- Behind a field without a value the next name is heard together with the one before it.
So a request without a credential reaches its handler, and a request with one does not. -/
theorem credential_forged_and_missed :
    ¬Along (step guarded) (Checked guarded) (start [])
        (asking [(ascii "Author", []), (ascii "ization", bearer)]) ∧
      ¬Along (step guarded) (Checked guarded) (start [])
        (asking [(ascii "X-Empty", []), (ascii "Authorization", bearer)]) := by
  have hcomplete : ∀ fs, Along (step guarded) (Checked guarded) (start []) (asking fs) →
      (run (step guarded) (start []) (headed fs)).dialogue.errno = none →
      (guarded.Runs (run (step guarded) (start []) (headed fs)).dialogue.conn ↔
        guarded.Credentialed (run (step guarded) (start []) (headed fs)).heading.headers ∧
          Server.Otherwise (run (step guarded) (start []) (headed fs)).dialogue.conn) :=
    fun fs h => ((along_append _ _ _).mp h).2.1.1 rfl
  constructor
  · intro h
    have hiff := hcomplete _ h (by decide)
    have hruns := hiff.mp (by unfold Server.Runs Server.Otherwise; decide)
    obtain ⟨f, hf, -⟩ := hruns.1
    have hnone : guarded.credentials (run (step guarded) (start [])
        (headed [(ascii "Author", []), (ascii "ization", bearer)])).heading.headers = [] := by
      decide
    rw [hnone] at hf
    cases hf
  · intro h
    have hiff := hcomplete _ h (by decide)
    have hmissed : ¬guarded.Runs (run (step guarded) (start [])
        (headed [(ascii "X-Empty", []), (ascii "Authorization", bearer)])).dialogue.conn := by
      unfold Server.Runs Server.Otherwise
      decide
    have hone : guarded.credentials (run (step guarded) (start [])
        (headed [(ascii "X-Empty", []), (ascii "Authorization", bearer)])).heading.headers =
          [(ascii "Authorization", bearer)] := by
      decide
    refine hmissed (hiff.mpr ⟨⟨_, hone, ascii "Bearer", by decide, by decide⟩, ?_⟩)
    unfold Server.Otherwise
    decide

end AsmFlow.Http
