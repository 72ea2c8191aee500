import AsmFlow.Control.Client
import AsmFlow.Http.Address
import AsmFlow.Json.Lines
import AsmFlow.Json.Strings

/-!
# A call sends one frame

The parameters of a call are checked as JSON and put into the request as they are, line feeds
between their tokens included.
-/

namespace AsmFlow.Control

open Http Json Library Library.Json

/-- The text is a JSON string that stands for these bytes. -/
def Says (t s : Bytes) : Prop :=
  IsString t ∧ ∃ chars cs, t = utf8Text chars ∧ stringValue chars = some cs ∧ s = utf8Text cs

/-- The text is an object with these members, keys and values as texts. -/
def ObjectText (t : Bytes) (members : List (Bytes × Bytes)) : Prop :=
  (∀ m ∈ members, Key m.1 ∧ WellFormed m.2) ∧
    ∃ ms k v, members = ms ++ [(k, v)] ∧ t = (Hole.member ms k).text ++ (v ++ [0x7D])

/-- The text is one object with the identifier, the method and the parameters of a request. -/
def IsRequest (t id : Bytes) (r : ClientRequest) : Prop :=
  ∃ ki vi km vm rest, ObjectText t ((ki, vi) :: (km, vm) :: rest) ∧
    Says ki (ascii "id") ∧ Says vi id ∧ Says km (ascii "method") ∧ Says vm r.method ∧
    match r.params with
    | none => rest = []
    | some p => ∃ kp, rest = [(kp, p)] ∧ Says kp (ascii "params") ∧ ∃ ms, Mirrors p (.object ms)

/-- The bytes are one frame: a request, and the only line feed behind it. -/
def OneFrame (sent id : Bytes) (r : ClientRequest) : Prop :=
  ∃ text, sent = text ++ [10] ∧ (10 : UInt8) ∉ text ∧ IsRequest text id r

/-- The pieces of a request. -/
def requestPieces (id : Bytes) (r : ClientRequest) : List Bytes :=
  [0x7B] :: (Plan.stringText (ascii "id") ++ [0x3A] :: (Plan.stringText id ++
    [0x2C] :: (Plan.stringText (ascii "method") ++ [0x3A] :: (Plan.stringText r.method ++
      (match r.params with
        | none => [[0x7D]]
        | some json =>
          [0x2C] :: (Plan.stringText (ascii "params") ++ [0x3A] :: json :: [[0x7D]]))))))

theorem planned_request (id : Bytes) (r : ClientRequest) :
    planned (requestCalls id r) = ⟨requestPieces id r, some ([], true)⟩ := by
  unfold planned requestCalls requestPieces
  cases r.params with
  | none =>
    simp [Plan.calls, Plan.call, Plan.beginContainer, Plan.prepareValue, Plan.andThen, Plan.puts,
      Plan.key, Plan.value, Plan.itemText, Plan.endContainer, jwMaxDepth]
  | some json =>
    simp [Plan.calls, Plan.call, Plan.beginContainer, Plan.prepareValue, Plan.andThen, Plan.puts,
      Plan.key, Plan.value, Plan.itemText, Plan.endContainer, jwMaxDepth]

/-! ## Strings of a request -/

theorem ascii_text {s : Bytes} (h : ∀ b ∈ s, b < 0x80) : ∃ cs, s = utf8Text cs := by
  induction s with
  | nil => exact ⟨[], rfl⟩
  | cons b s ih =>
    obtain ⟨c, -, hc⟩ := encode_ascii (h b List.mem_cons_self)
    obtain ⟨cs, rfl⟩ := ih fun d hd => h d (List.mem_cons_of_mem b hd)
    have hcons : utf8Text (c :: cs) = String.utf8EncodeChar c ++ utf8Text cs := rfl
    rw [hc] at hcons
    exact ⟨c :: cs, hcons.symm⟩

theorem idOf_text (n : Word) : ∃ cs, idOf n = utf8Text cs := by
  apply ascii_text
  intro b hb
  rcases List.mem_append.mp hb with hb | hb
  · have hctl : ∀ b ∈ ascii "ctl-", b < 0x80 := by simp [ascii]
    exact hctl b hb
  · have hdigit := (whole_decimal (if n = 0 then 1 else n).toNat).1.2 b hb
    have hle := UInt8.le_iff_toNat_le.mp hdigit.2
    have hbound : (0x39 : UInt8).toNat = 57 := rfl
    have hlimit : (0x80 : UInt8).toNat = 128 := rfl
    exact UInt8.lt_iff_toNat_lt.mpr (by omega)

/-- What is written for a text is a string that stands for it. -/
theorem says_stringText {s : Bytes} (h : ∃ cs, s = utf8Text cs) :
    Says (Plan.stringText s).flatten s := by
  obtain ⟨cs, rfl⟩ := h
  obtain ⟨value, ⟨chars, hchars, hvalue⟩, -, hsanitised⟩ := reads_stringPieces (utf8Text cs)
  obtain rfl := hsanitised.unique (sanitised_text cs)
  have hquote : utf8Text ['"'] = [0x22] := by decide
  refine ⟨isString_pieces _, '"' :: (chars ++ ['"']), value, ?_, ?_, rfl⟩
  · rw [show '"' :: (chars ++ ['"']) = ['"'] ++ (chars ++ ['"']) from rfl, utf8Text_append,
      utf8Text_append, ← hchars, hquote]
    simp [Plan.stringText]
  · rw [stringValue, if_pos rfl]
    exact hvalue

theorem Says.wellFormed {t s : Bytes} (h : Says t s) : WellFormed t :=
  ⟨0, .scalar (Or.inr (Or.inl h.1))⟩

theorem Says.key {t s : Bytes} (h : Says t s) : Key t := isString_key h.1

/-- A text that a value mirrors is JSON. -/
theorem wellFormed_of_mirrors {t : Bytes} {v : Mcp.Json} (h : Mirrors t v) : WellFormed t := by
  induction h with
  | scalar h _ => exact ⟨0, .scalar h⟩
  | padded hu _ hw ih =>
    obtain ⟨n, hn⟩ := ih
    exact ⟨n, .padded hu hn hw⟩
  | emptyArray hw => exact ⟨1, .emptyArray hw⟩
  | @array es t v hes ht ihes iht =>
    have helements : ∀ e ∈ es.map Prod.fst, WellFormed e := by
      intro e he
      obtain ⟨x, hx, rfl⟩ := List.mem_map.mp he
      exact ihes x hx
    have hall : ∀ e ∈ t :: es.map Prod.fst, WellFormed e :=
      List.forall_mem_cons.mpr ⟨iht, helements⟩
    obtain ⟨n, hn⟩ := exists_depth hall
    exact ⟨n + 1, .array (fun e he => hn e (List.mem_cons_of_mem t he)) (hn t List.mem_cons_self)⟩
  | emptyObject hw => exact ⟨1, .emptyObject hw⟩
  | @object ms k t v members hkeys hms hk ht hperm ihms iht =>
    have hvalues : ∀ m ∈ ms.map (fun m => m.1.2), WellFormed m := by
      intro m hm
      obtain ⟨x, hx, rfl⟩ := List.mem_map.mp hm
      exact ihms x hx
    have hall : ∀ m ∈ t :: ms.map (fun m => m.1.2), WellFormed m :=
      List.forall_mem_cons.mpr ⟨iht, hvalues⟩
    obtain ⟨n, hn⟩ := exists_depth hall
    refine ⟨n + 1, .object ?_ ?_ hk (hn t List.mem_cons_self)⟩
    · intro m hm
      obtain ⟨x, hx, rfl⟩ := List.mem_map.mp hm
      exact hkeys x hx
    · intro m hm
      obtain ⟨x, hx, rfl⟩ := List.mem_map.mp hm
      exact hn _ (List.mem_cons_of_mem t (List.mem_map.mpr ⟨x, hx, rfl⟩))

/-! ## Lengths -/

theorem length_controlPieces_le (b : UInt8) : (controlPieces b).flatten.length ≤ 6 := by
  unfold controlPieces
  split_ifs <;> simp [ascii]

/-- A byte is written as six at most. -/
theorem length_stringPieces_le (skip : ℕ) (s : Bytes) :
    (stringPieces skip s).flatten.length ≤ 6 * s.length := by
  fun_induction stringPieces skip s with
  | case1 => exact Nat.zero_le _
  | case2 skip b rest ih =>
    rw [List.length_cons]
    omega
  | case3 b rest _ _ ih =>
    rw [List.flatten_cons, List.length_append, List.length_cons]
    have hlen : replacement.length = 3 := rfl
    omega
  | case4 b rest _ n v hseq ih =>
    rw [List.flatten_cons, List.length_append, List.length_cons]
    obtain ⟨c, -, -, hn, -⟩ := exists_char_of_utf8SequenceLength hseq
    have hfour := String.length_utf8EncodeChar c ▸ c.utf8Size_le_four
    have htake := List.length_take_le n (b :: rest)
    omega
  | case5 b rest _ _ ih =>
    rw [List.flatten_append, List.length_append, List.length_cons]
    have hcontrol := length_controlPieces_le b
    omega
  | case6 rest _ _ ih =>
    rw [List.flatten_cons, List.length_append, List.length_cons]
    have hlen : (ascii "\\\"").length = 2 := by decide
    omega
  | case7 rest _ _ _ ih =>
    rw [List.flatten_cons, List.length_append, List.length_cons]
    have hlen : (ascii "\\\\").length = 2 := by decide
    omega
  | case8 rest _ _ _ _ ih =>
    rw [List.flatten_append, List.length_append, List.length_cons]
    have hcontrol := length_controlPieces_le 0x7F
    omega
  | case9 b rest _ _ _ _ _ ih =>
    rw [List.flatten_cons, List.length_append, List.length_cons, List.length_cons,
      List.length_nil]
    omega

theorem length_stringText_le (s : Bytes) :
    (Plan.stringText s).flatten.length ≤ 6 * s.length + 2 := by
  have hpieces := length_stringPieces_le 0 s
  simp only [Plan.stringText, List.flatten_cons, List.flatten_append, List.flatten_nil,
    List.length_append, List.length_cons, List.length_nil]
  omega

/-! ## The frame -/

/-- The pieces are the object of the request. -/
theorem isRequest_pieces {id : Bytes} {r : ClientRequest} (hid : ∃ cs, id = utf8Text cs)
    (hmethod : ∃ cs, r.method = utf8Text cs)
    (hparams : ∀ p, r.params = some p → ∃ ms, Mirrors p (.object ms)) :
    IsRequest (requestPieces id r).flatten id r := by
  have hkey : ∀ name : String, (∀ b ∈ ascii name, b < 0x80) →
      Says (Plan.stringText (ascii name)).flatten (ascii name) :=
    fun name h => says_stringText (ascii_text h)
  have hki := hkey "id" (by simp [ascii])
  have hkm := hkey "method" (by simp [ascii])
  have hkp := hkey "params" (by simp [ascii])
  have hvi := says_stringText hid
  have hvm := says_stringText hmethod
  unfold IsRequest requestPieces
  cases hp : r.params with
  | none =>
    refine ⟨_, _, _, _, [], ⟨?_, [(_, _)], _, _, rfl, ?_⟩, hki, hvi, hkm, hvm, rfl⟩
    · simp [hki.key, hkm.key, hvi.wellFormed, hvm.wellFormed]
    · simp [Hole.text, followed, memberText]
  | some p =>
    have hobject := hparams p hp
    have hwell : WellFormed p := by
      obtain ⟨ms, hms⟩ := hobject
      exact wellFormed_of_mirrors hms
    refine ⟨_, _, _, _, [(_, p)], ⟨?_, [(_, _), (_, _)], _, _, rfl, ?_⟩, hki, hvi, hkm, hvm,
      _, rfl, hkp, hobject⟩
    · simp [hki.key, hkm.key, hkp.key, hvi.wellFormed, hvm.wellFormed, hwell]
    · simp [Hole.text, followed, memberText]

theorem requestPieces_line {id : Bytes} {r : ClientRequest} :
    (10 : UInt8) ∈ (requestPieces id r).flatten ↔ ∃ p, r.params = some p ∧ 10 ∈ p := by
  unfold requestPieces
  have hid := lf_notMem_stringText id
  have hmethod := lf_notMem_stringText r.method
  have hname : ∀ name : String, (10 : UInt8) ∉ (Plan.stringText (ascii name)).flatten :=
    fun name => lf_notMem_stringText (ascii name)
  cases hp : r.params with
  | none => simp [List.flatten_append, hid, hmethod, hname]
  | some p => simp [List.flatten_append, hid, hmethod, hname]

/-- What is sent is one frame exactly when no line feed is in the parameters. -/
theorem oneFrame_pieces_iff {id : Bytes} {r : ClientRequest}
    (h : IsRequest (requestPieces id r).flatten id r) :
    OneFrame ((requestPieces id r).flatten ++ [10]) id r ↔
      ∀ p, r.params = some p → (10 : UInt8) ∉ p := by
  constructor
  · rintro ⟨text, heq, hline, -⟩ p hp hmem
    obtain ⟨rfl, -⟩ := List.append_inj' heq rfl
    exact hline (requestPieces_line.mpr ⟨p, hp, hmem⟩)
  · intro hclean
    refine ⟨_, rfl, fun hmem => ?_, h⟩
    obtain ⟨p, hp, hmem⟩ := requestPieces_line.mp hmem
    exact hclean p hp hmem

/-! ## The call -/

section Call

variable {loadb : Bytes → Option Mcp.Json} {env : CallEnv} {c : Client} {out : Buffer}
  {r : ClientRequest}

/-- A prepared call has the frame in its outbox. -/
theorem prepare_outbox (h : ¬ (c.prepare env r).2 < 0) :
    (c.prepare env r).1.outbox.data = (requestPieces (idOf c.nextId) r).flatten ++ [10] ∧
      (c.prepare env r).1.id = idOf c.nextId := by
  obtain ⟨hout, hend⟩ := finish_planned env.outboxAlloc c.outbox.clear
    (requestCalls (idOf c.nextId) r)
  unfold Client.prepare at h ⊢
  dsimp only at h ⊢
  rcases hfinish : (run (Writer.step env.outboxAlloc) (Writer.init c.outbox.clear)
    (requestCalls (idOf c.nextId) r)).finish with ⟨w, st⟩
  rw [hfinish] at h hout hend
  dsimp only at h hout hend ⊢
  by_cases hneg : st < 0
  · rw [if_pos hneg] at h
    exact absurd hneg h
  · rw [if_neg hneg] at h ⊢
    rcases hend with ⟨-, hfits, hcomplete⟩ | ⟨hneg', -⟩
    · rw [hout] at h ⊢
      have hroom := room_of_frameFinish hcomplete hfits h
      obtain ⟨b, hb, hdata⟩ := frameFinish_of_room hroom
      have hfinal : frameFinish env.outboxAlloc (c.outbox.clear.appendAll env.outboxAlloc
          (planned (requestCalls (idOf c.nextId) r)).pieces).1 0 ctlFrameMax = (b, .ok) := hb
      rw [hfinal]
      dsimp only
      rw [hdata, planned_request]
      exact ⟨rfl, rfl⟩
    · exact absurd hneg' hneg

/-- The writer leaves the ceiling of the outbox. -/
theorem prepare_max (env : CallEnv) (c : Client) (r : ClientRequest) :
    (c.prepare env r).1.outbox.max = c.outbox.max := by
  obtain ⟨hout, -⟩ := finish_planned env.outboxAlloc c.outbox.clear
    (requestCalls (idOf c.nextId) r)
  unfold Client.prepare
  dsimp only at hout ⊢
  rcases hfinish : (run (Writer.step env.outboxAlloc) (Writer.init c.outbox.clear)
    (requestCalls (idOf c.nextId) r)).finish with ⟨w, st⟩
  rw [hfinish] at hout
  dsimp only at hout ⊢
  have hmax : w.out.max = c.outbox.max := by
    rw [hout, Buffer.appendAll_max]
    rfl
  split_ifs
  · exact hmax
  · unfold frameFinish
    split_ifs
    · exact hmax
    · exact Buffer.append_max.trans hmax

/-- With memory for it, a request below the ceiling is prepared. -/
theorem prepare_of_length (halloc : env.outboxAlloc = fun _ => true)
    (hmax : c.outbox.max = ctlFrameMax)
    (hlen : (requestPieces (idOf c.nextId) r).flatten.length < ctlFrameMax) :
    (c.prepare env r).2 = .ok := by
  have hclear : c.outbox.clear.max = ctlFrameMax := hmax
  have hempty : c.outbox.clear.len = 0 := rfl
  have hroom : Room env.outboxAlloc c.outbox.clear ctlFrameMax (requestCalls (idOf c.nextId) r) := by
    refine ⟨by rw [planned_request]; rfl, ?_, by rw [planned_request]; exact hlen⟩
    rw [halloc, Buffer.fits_granting (by rw [hclear]; decide), planned_request,
      List.flatten_append, List.length_append, hempty, hclear]
    have hline : ([[10]] : List Bytes).flatten.length = 1 := rfl
    dsimp only
    omega
  obtain ⟨b, hb, -⟩ := frameFinish_of_room hroom
  obtain ⟨hout, hend⟩ := finish_planned env.outboxAlloc c.outbox.clear
    (requestCalls (idOf c.nextId) r)
  unfold Client.prepare
  dsimp only at hout hend ⊢
  rcases hfinish : (run (Writer.step env.outboxAlloc) (Writer.init c.outbox.clear)
    (requestCalls (idOf c.nextId) r)).finish with ⟨w, st⟩
  rw [hfinish] at hout hend
  dsimp only at hout hend ⊢
  rcases hend with ⟨rfl, -, -⟩ | ⟨-, hnot⟩
  · rw [if_neg (by decide), hout]
    exact congrArg Prod.snd hb
  · exact absurd ⟨((Buffer.fits_append _ _).mp hroom.fits).1, hroom.complete⟩ hnot

theorem loadb_of_parseDoc {granted : Bool} {lim : Limits} {buf : Bytes} {v : Mcp.Json}
    (h : parseDoc loadb granted lim buf = .ok v) : loadb buf = some v := by
  unfold parseDoc at h
  split_ifs at h
  split at h
  · cases h
  · rename_i w hw
    split_ifs at h
    obtain rfl := Except.ok.inj h
    exact hw

theorem object_of_validateParams {granted : Bool} {json : Bytes}
    (h : ¬ validateParams loadb granted json < 0) : ∃ ms, loadb json = some (.object ms) := by
  have hrefused : Status.ctlParams < 0 := by decide
  unfold validateParams at h
  split_ifs at h
  · exact absurd hrefused h
  · exact absurd hrefused h
  · cases hparse : parseDoc loadb granted (clientLimits json) json with
    | error e =>
      rw [hparse] at h
      exact absurd hrefused h
    | ok v =>
      rw [hparse] at h
      have hload := loadb_of_parseDoc hparse
      cases v with
      | object ms => exact ⟨ms, hload⟩
      | null => exact absurd hrefused h
      | bool b => exact absurd hrefused h
      | integer n => exact absurd hrefused h
      | real bits => exact absurd hrefused h
      | string s => exact absurd hrefused h
      | array xs => exact absurd hrefused h

/-- What `af_ctl_client_call` has checked of its arguments. -/
structure Admitted (loadb : Bytes → Option Mcp.Json) (env : CallEnv) (r : ClientRequest) : Prop where
  method_length : r.method.length ≤ methodMax
  method_text : utf8Validate r.method = true
  params : ∀ p, r.params = some p → ¬ validateParams loadb env.paramsGranted p < 0

theorem admitted_of_check (h : ¬ c.check loadb env r < 0) : Admitted loadb env r := by
  have hrefused : Status.ctlParams < 0 := by decide
  have hclosed : Status.closed < 0 := by decide
  unfold Client.check at h
  split_ifs at h with hinit hconn hnil hlong htext
  · exact absurd hclosed h
  · exact absurd hclosed h
  · exact absurd hrefused h
  · exact absurd hrefused h
  · exact absurd hrefused h
  · refine ⟨not_lt.mp hlong, Bool.not_eq_false _ ▸ htext, fun p hp => ?_⟩
    rw [hp] at h
    exact h

/-- An admitted request has a text for its method and an object for its parameters. -/
theorem checked_texts (hstandard : ∀ t v, loadb t = some v → Mirrors t v)
    (h : ¬ c.check loadb env r < 0) :
    (∃ cs, r.method = utf8Text cs) ∧
      ∀ p, r.params = some p → ∃ ms, Mirrors p (.object ms) := by
  obtain ⟨-, htext, hparams⟩ := admitted_of_check h
  refine ⟨(utf8Validate_iff r.method).mp htext, fun p hp => ?_⟩
  obtain ⟨ms, hms⟩ := object_of_validateParams (hparams p hp)
  exact ⟨ms, hstandard p _ hms⟩

theorem length_of_validateParams {granted : Bool} {json : Bytes}
    (h : ¬ validateParams loadb granted json < 0) : json.length ≤ paramsMax := by
  unfold validateParams at h
  split_ifs at h with hnil hlong
  · exact absurd (by decide : Status.ctlParams < 0) h
  · exact absurd (by decide : Status.ctlParams < 0) h
  · exact not_lt.mp hlong

/-- An admitted request is far below the ceiling. -/
theorem length_of_check (hchecked : ¬ c.check loadb env r < 0) :
    (requestPieces (idOf c.nextId) r).flatten.length < ctlFrameMax := by
  have hid : (idOf c.nextId).length ≤ 24 := by
    have hdigits := length_decimal_le (k := 20) (by decide)
      (lt_trans (if c.nextId = 0 then 1 else c.nextId).toNat_lt (by decide))
    unfold idOf
    rw [List.length_append]
    have hctl : (ascii "ctl-").length = 4 := by decide
    omega
  obtain ⟨hmethod, -, hparams⟩ := admitted_of_check hchecked
  have hidText := length_stringText_le (idOf c.nextId)
  have hmethodText := length_stringText_le r.method
  have hkeys : (Plan.stringText (ascii "id")).flatten.length = 4 ∧
      (Plan.stringText (ascii "method")).flatten.length = 8 ∧
      (Plan.stringText (ascii "params")).flatten.length = 8 := by decide
  obtain ⟨hidKey, hmethodKey, hparamsKey⟩ := hkeys
  unfold methodMax at hmethod
  unfold requestPieces ctlFrameMax
  cases hp : r.params with
  | none =>
    simp only [List.flatten_cons, List.flatten_append, List.flatten_nil, List.length_append,
      List.length_cons, List.length_nil]
    omega
  | some p =>
    have hlong := length_of_validateParams (hparams p hp)
    unfold paramsMax ctlFrameMax at hlong
    simp only [List.flatten_cons, List.flatten_append, List.flatten_nil, List.length_append,
      List.length_cons, List.length_nil]
    omega

/-- With memory for it, an admitted request is prepared. -/
theorem prepare_of_check (hchecked : ¬ c.check loadb env r < 0)
    (halloc : env.outboxAlloc = fun _ => true) (hmax : c.outbox.max = ctlFrameMax) :
    (c.prepare env r).2 = .ok :=
  prepare_of_length halloc hmax (length_of_check hchecked)

/-- What is sent is the front of the frame, and all of it if no answer is a failure. -/
theorem sendAll_spec (answers : List SendAnswer) (bytes : Bytes) :
    (sendAll answers bytes).1 <+: bytes ∧
      (¬ (sendAll answers bytes).2 < 0 → (sendAll answers bytes).1 = bytes) := by
  induction answers generalizing bytes with
  | nil =>
    cases bytes with
    | nil => exact ⟨List.prefix_rfl, fun _ => rfl⟩
    | cons b bytes => exact ⟨List.nil_prefix, fun h => absurd (by decide : Status.again < 0) h⟩
  | cons answer answers ih =>
    cases bytes with
    | nil => cases answer <;> exact ⟨List.prefix_rfl, fun _ => rfl⟩
    | cons b bytes =>
      cases answer with
      | intr => exact ih (b :: bytes)
      | failed f => exact ⟨List.nil_prefix, fun h => absurd f.property h⟩
      | wrote n =>
        rw [sendAll]
        split_ifs with hn
        · exact ⟨List.nil_prefix, fun h => absurd (by decide : Status.pipe < 0) h⟩
        · obtain ⟨hfront, hall⟩ := ih ((b :: bytes).drop n)
          have hwhole : (b :: bytes).take n ++ (b :: bytes).drop n = b :: bytes :=
            List.take_append_drop n _
          constructor
          · obtain ⟨tail, htail⟩ := hfront
            exact ⟨tail, by rw [List.append_assoc, htail, hwhole]⟩
          · intro h
            dsimp only at h ⊢
            rw [hall h, hwhole]

/-- A call that comes through its sends has sent the frame of its request. -/
theorem call_sent (hchecked : ¬ c.check loadb env r < 0) (hprepare : ¬ (c.prepare env r).2 < 0)
    (hsend : ¬ (sendAll env.sends (c.prepare env r).1.outbox.data).2 < 0) :
    (c.call loadb env out r).sent = (requestPieces (idOf c.nextId) r).flatten ++ [10] := by
  rw [← (prepare_outbox hprepare).1, ← (sendAll_spec _ _).2 hsend, Client.call, if_neg hchecked]
  rcases hp : c.prepare env r with ⟨d, st⟩
  rw [hp] at hprepare hsend
  dsimp only at hprepare hsend ⊢
  rw [if_neg hprepare]
  rcases hs : sendAll env.sends d.outbox.data with ⟨sent, st'⟩
  rw [hs] at hsend
  dsimp only at hsend ⊢
  rw [if_neg hsend]

/-- A call that comes through its sends has sent one frame exactly when no line feed is in its
parameters. -/
theorem call_oneFrame_iff (hstandard : ∀ t v, loadb t = some v → Mirrors t v)
    (hchecked : ¬ c.check loadb env r < 0) (hprepare : ¬ (c.prepare env r).2 < 0)
    (hsend : ¬ (sendAll env.sends (c.prepare env r).1.outbox.data).2 < 0) :
    OneFrame (c.call loadb env out r).sent (c.prepare env r).1.id r ↔
      ∀ p, r.params = some p → (10 : UInt8) ∉ p := by
  obtain ⟨hmethod, hparams⟩ := checked_texts hstandard hchecked
  rw [call_sent hchecked hprepare hsend, (prepare_outbox hprepare).2]
  exact oneFrame_pieces_iff (isRequest_pieces (idOf_text c.nextId) hmethod hparams)

end Call

/-! ## A line feed between the tokens -/

/-- A library that knows empty objects. -/
def loadEmpty (t : Bytes) : Option Mcp.Json :=
  if t = [0x7B, 0x7D] then some (.object [])
  else if t = [0x7B, 0x0A, 0x7D] then some (.object []) else none

theorem loadEmpty_standard : ∀ t v, loadEmpty t = some v → Mirrors t v := by
  intro t v h
  unfold loadEmpty at h
  split_ifs at h with hplain hline
  · obtain rfl := Option.some.inj h
    rw [hplain]
    exact .emptyObject (w := []) (by simp [Blank])
  · obtain rfl := Option.some.inj h
    rw [hline]
    exact .emptyObject (w := [0x0A]) (by simp [Blank])

/-- Every allocation is granted, and the socket takes all at once. -/
def willing : CallEnv :=
  { outboxAlloc := fun _ => true, inboxAlloc := fun _ => true, outAlloc := fun _ => true
    paramsGranted := true, granted := fun _ => true, sends := [.wrote 4096], arrivals := [] }

theorem call_oneFrame_iff_status :
    OneFrame (Client.init.call loadEmpty willing (Buffer.init ctlFrameMax)
        ⟨ascii "runtime.status", some [0x7B, 0x7D]⟩).sent
      (Client.init.prepare willing ⟨ascii "runtime.status", some [0x7B, 0x7D]⟩).1.id
      ⟨ascii "runtime.status", some [0x7B, 0x7D]⟩ := by
  apply (call_oneFrame_iff loadEmpty_standard _ _ _).mpr
  · intro p hp
    obtain rfl := Option.some.inj hp
    decide
  · decide
  · decide
  · decide

/-- Parameters of two lines go out as two lines. -/
theorem call_twoLines :
    ¬ ∀ (loadb : Bytes → Option Mcp.Json) (env : CallEnv) (c : Client) (out : Buffer)
      (r : ClientRequest), (∀ t v, loadb t = some v → Mirrors t v) →
      ¬ c.check loadb env r < 0 → ¬ (c.prepare env r).2 < 0 →
      ¬ (sendAll env.sends (c.prepare env r).1.outbox.data).2 < 0 →
      OneFrame (c.call loadb env out r).sent (c.prepare env r).1.id r := by
  intro h
  obtain ⟨text, hsent, hline, -⟩ := h loadEmpty willing Client.init (Buffer.init ctlFrameMax)
    ⟨ascii "runtime.status", some [0x7B, 0x0A, 0x7D]⟩ loadEmpty_standard (by decide) (by decide)
    (by decide)
  rw [call_sent (by decide) (by decide) (by decide)] at hsent
  obtain ⟨rfl, -⟩ := List.append_inj' hsent rfl
  exact hline (by decide)

end AsmFlow.Control
