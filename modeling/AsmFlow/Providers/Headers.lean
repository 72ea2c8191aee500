import AsmFlow.Config.Fields
import AsmFlow.Library.Ledger
import AsmFlow.Mcp.Environment
import AsmFlow.Mcp.HttpHeaders
import AsmFlow.Memory.Appends

/-!
# Credentials, at the start and per request

`af_config_resolve_secrets` of `config_top.asm` and the headers of `provider_adapter.asm`. The
start asks whether a variable is set; a request judges its value.
-/

namespace AsmFlow.Providers

open Config Http Library Mcp
open McpHttp (Grant HeaderName headerNameValid)

/-- `af_cfg_auth` of a configuration that was loaded: the variable is named. -/
inductive Auth
  | none
  | bearer (env : CString)
  | header (name : HeaderName) (env : CString)

/-- `AUTH_ENV`. -/
def Auth.env : Auth → Option CString
  | .none => .none
  | .bearer env => some env
  | .header _ env => some env

/-- `MCP_AUTH` and the names and variables of `MCP_ENV_PAIRS`. -/
structure ServerSecrets where
  auth : Auth
  pairs : List (String × Option CString)

/-- The references to secrets in an `af_config`. -/
structure Secrets where
  listener : Auth
  providers : List Auth
  servers : List ServerSecrets

section Resolve

variable (env : Environ)

/-- `af_cfg_auth_secret_present`. -/
def authSecretPresent (auth : Auth) : Bool :=
  match auth.env with
  | none => true
  | some name => (env name).isSome

/-- `.missing`, at a pointer. -/
def missingSecret : Fail :=
  failAt .cfgSecretMissing "referenced environment variable is not set"

/-- A check of every element, at its index. -/
def checkEach {α : Type} (p : α → Except Fail Unit) : ℕ → List α → Except Fail Unit
  | _, [] => .ok ()
  | i, x :: xs =>
    match under (.index i) (p x) with
    | .error f => .error f
    | .ok () => checkEach p (i + 1) xs

def checkAuth (auth : Auth) : Except Fail Unit :=
  under (.key "auth") (check (authSecretPresent env auth) missingSecret)

/-- `.env_pairs`. -/
def checkPairs : List (String × Option CString) → Except Fail Unit
  | [] => .ok ()
  | (name, source) :: pairs =>
    match under (.key "env") (under (.key name)
        (check (source.all fun source => (env source).isSome) missingSecret)) with
    | .error f => .error f
    | .ok () => checkPairs pairs

def checkServer (server : ServerSecrets) : Except Fail Unit :=
  match checkAuth env server.auth with
  | .error f => .error f
  | .ok () => checkPairs env server.pairs

/-- `af_config_resolve_secrets`. -/
def resolveSecrets (cfg : Secrets) : Except Fail Unit :=
  match under (.key "listener") (checkAuth env cfg.listener) with
  | .error f => .error f
  | .ok () =>
    match under (.key "providers") (checkEach (checkAuth env) 0 cfg.providers) with
    | .error f => .error f
    | .ok () => under (.key "mcp_servers") (checkEach (checkServer env) 0 cfg.servers)

end Resolve

/-! ## Headers -/

/-- The scan of `af_prov_validate_header_value`, with so many bytes left. -/
def scanValue : Bytes → ℕ → Status
  | _, 0 => .limit
  | [], _ + 1 => .ok
  | b :: rest, left + 1 =>
    if b < 0x20 then .invalid else if b = 0x7F then .invalid else scanValue rest left

/-- `af_prov_validate_header_value`. -/
def validateHeaderValue (value : CString) (maxBytes : ℕ) : Status :=
  if scanValue value.val maxBytes < 0 then scanValue value.val maxBytes
  else if value.val = [] then .invalid
  else .ok

/-- The ceiling of the staging buffer. -/
def stagingMax : ℕ := 512

/-- `af_version_str`, of the file `VERSION`. -/
def version : Bytes := ascii "0.10.0"

/-- What is in front of a credential. -/
def Auth.start : Auth → List Bytes
  | .none => []
  | .bearer _ => [ascii "Authorization: Bearer "]
  | .header name _ => [name.val, ascii ": "]

/-- What a build acquires. -/
inductive HeaderResource
  | list
  | staging
  deriving DecidableEq

/-- The frame of `af_prov_build_headers`: the list is null while it is empty. -/
structure HeaderFrame where
  list : List Bytes
  staging : Bool
  ledger : Ledger HeaderResource

/-- `PX_SLIST`, the status, and what was acquired and released. -/
structure Built where
  slist : List Bytes
  status : Status
  ledger : Ledger HeaderResource

namespace HeaderFrame

def start : HeaderFrame := ⟨[], false, Ledger.empty⟩

variable (g : Grant)

/-- `af_curl_slist_append`, which copies a C string. -/
def add (f : HeaderFrame) (line : Bytes) : Option HeaderFrame :=
  if g.slist f.list.length then
    some { f with
      list := f.list ++ [line.takeWhile (· ≠ 0)]
      ledger := f.ledger.take fun k => f.list.isEmpty && k = HeaderResource.list }
  else none

/-- `af_buf_free_secure`, where the staging buffer was initialised. -/
def freeStaging (f : HeaderFrame) : HeaderFrame :=
  if f.staging then
    { f with staging := false, ledger := f.ledger.free (· = HeaderResource.staging) }
  else f

/-- `.fail_status`. -/
def fail (f : HeaderFrame) (st : Status) : Built :=
  let f := f.freeStaging
  ⟨[], st, if f.list.isEmpty then f.ledger else f.ledger.free (· = HeaderResource.list)⟩

/-- `.headers_done`. -/
def done (f : HeaderFrame) : Built := ⟨f.list, .ok, f.freeStaging.ledger⟩

/-- A line of the staging buffer, with the NUL behind its last parts. -/
def addStaged (f : HeaderFrame) (staging : Buffer) (parts : List Bytes)
    (next : HeaderFrame → Buffer → Built) : Built :=
  match staging.appendAll g.alloc (parts ++ [[0]]) with
  | (staging, st) =>
    if st < 0 then f.fail st
    else
      match f.add g staging.data with
      | none => f.fail .nomem
      | some f => next f staging

/-- `.append_secret`. -/
def appendSecret (env : Environ) (f : HeaderFrame) (staging : Buffer) (name : CString) : Built :=
  match env name with
  | none => f.fail .cfgSecretMissing
  | some value =>
    if stagingMax ≤ staging.len then f.fail .limit
    else if validateHeaderValue value (stagingMax - staging.len) < 0 then
      f.fail (validateHeaderValue value (stagingMax - staging.len))
    else f.addStaged g staging [value.val] fun f _ => f.done

/-- The credential of the provider, if it has one. -/
def addCredential (env : Environ) (auth : Auth) (f : HeaderFrame) (staging : Buffer) : Built :=
  match auth.env with
  | none => f.done
  | some name =>
    match staging.clear.appendAll g.alloc auth.start with
    | (staging, st) => if st < 0 then f.fail st else f.appendSecret g env staging name

/-- The lines of every request, in front of the user agent. -/
def addFixed (f : HeaderFrame) : List Bytes → HeaderFrame × Status
  | [] => (f, .ok)
  | line :: lines =>
    match f.add g line with
    | none => (f, .nomem)
    | some f => f.addFixed lines

end HeaderFrame

/-- The lines of a request with this stream flag. -/
def fixedLines (stream : Bool) : List Bytes :=
  [ascii "Content-Type: application/json",
    if stream then ascii "Accept: text/event-stream" else ascii "Accept: application/json",
    ascii "Expect:"]

/-- `af_prov_build_headers`. -/
def buildHeaders (g : Grant) (env : Environ) (auth : Auth) (stream : Bool) : Built :=
  match HeaderFrame.start.addFixed g (fixedLines stream) with
  | (f, st) =>
    if st < 0 then f.fail st
    else
      { f with
        staging := true
        ledger := f.ledger.take (· = HeaderResource.staging) }.addStaged g
          (Buffer.init stagingMax) [ascii "User-Agent: AsmFlow/", version]
          fun f staging => f.addCredential g env auth staging

/-! ## What is set -/

section Resolved

variable {env : Environ} {cfg : Secrets}

theorem checkEach_ok {α : Type} {p : α → Except Fail Unit} {i : ℕ} {xs : List α}
    (h : checkEach p i xs = .ok ()) : ∀ x ∈ xs, p x = .ok () := by
  induction xs generalizing i with
  | nil => exact fun x hx => absurd hx List.not_mem_nil
  | cons x xs ih =>
    rw [checkEach] at h
    cases hx : p x with
    | error f =>
      rw [hx] at h
      cases h
    | ok u =>
      rw [hx] at h
      exact List.forall_mem_cons.mpr ⟨hx, ih h⟩

theorem present_of_checkAuth {auth : Auth} (h : checkAuth env auth = .ok ()) {name : CString}
    (hname : auth.env = some name) : ∃ value, env name = some value := by
  have hpresent : authSecretPresent env auth = true := by
    by_contra hnot
    rw [Bool.not_eq_true] at hnot
    unfold checkAuth check at h
    rw [hnot] at h
    cases h
  unfold authSecretPresent at hpresent
  rw [hname] at hpresent
  exact Option.isSome_iff_exists.mp hpresent

/-- Where all secrets are present, the variable of every provider is set. -/
theorem present_of_resolveSecrets (h : resolveSecrets env cfg = .ok ()) {auth : Auth}
    (hauth : auth ∈ cfg.providers) {name : CString} (hname : auth.env = some name) :
    ∃ value, env name = some value := by
  unfold resolveSecrets at h
  cases hlistener : under (.key "listener") (checkAuth env cfg.listener) with
  | error f =>
    rw [hlistener] at h
    cases h
  | ok u =>
    rw [hlistener] at h
    dsimp only at h
    cases hproviders : checkEach (checkAuth env) 0 cfg.providers with
    | error f =>
      rw [hproviders] at h
      cases h
    | ok u => exact present_of_checkAuth (checkEach_ok hproviders auth hauth) hname

end Resolved

/-! ## What is sent -/

/-- A value that fits behind what is in front of it, and has no control byte. -/
structure Sendable (auth : Auth) (value : Bytes) : Prop where
  nonempty : value ≠ []
  clean : ∀ b ∈ value, 0x20 ≤ b ∧ b ≠ 0x7F
  short : auth.start.flatten.length + value.length + 1 ≤ stagingMax

/-- The lines of the credential. -/
def CredentialLines (env : Environ) (auth : Auth) (lines : List Bytes) : Prop :=
  match auth.env with
  | none => lines = []
  | some name =>
    ∃ value, env name = some value ∧ Sendable auth value.val ∧
      lines = [auth.start.flatten ++ value.val] ∧
      ∀ b ∈ auth.start.flatten ++ value.val, 0x20 ≤ b ∧ b ≠ 0x7F

/-- The build failed, and nothing of it is left. -/
structure Failed (r : Built) : Prop where
  neg : r.status < 0
  slist : r.slist = []
  settled : r.ledger.Settled fun _ => False

/-- The build made this list, and nothing else of it is left. -/
structure Finished (lines : List Bytes) (r : Built) : Prop where
  ok : r.status = .ok
  slist : r.slist = lines
  settled : r.ledger.Settled fun k => k = .list

/-- A build ends in a failure, or behind this list with the lines of the credential. -/
def HeaderOutcome (env : Environ) (auth : Auth) (list : List Bytes) (r : Built) : Prop :=
  Failed r ∨ ∃ lines, CredentialLines env auth lines ∧ Finished (list ++ lines) r

theorem scanValue_ok_iff (value : Bytes) (left : ℕ) :
    scanValue value left = .ok ↔ value.length < left ∧ ∀ b ∈ value, 0x20 ≤ b ∧ b ≠ 0x7F := by
  fun_induction scanValue value left with
  | case1 value => simp [Status.limit, Status.ok]
  | case2 left => simp
  | case3 b rest left hlow =>
    refine iff_of_false (by decide) fun h => ?_
    exact absurd (h.2 b List.mem_cons_self).1 (UInt8.not_le.mpr hlow)
  | case4 rest left hlow =>
    exact iff_of_false (by decide) fun h => (h.2 0x7F List.mem_cons_self).2 rfl
  | case5 b rest left hlow hdel ih =>
    rw [ih, List.length_cons, Nat.add_lt_add_iff_right, List.forall_mem_cons]
    simp [UInt8.not_lt.mp hlow, hdel]

theorem scanValue_cases (value : Bytes) (left : ℕ) :
    scanValue value left = .ok ∨ scanValue value left < 0 := by
  fun_induction scanValue value left with
  | case1 value => exact Or.inr (by decide)
  | case2 left => exact Or.inl rfl
  | case3 b rest left hlow => exact Or.inr (by decide)
  | case4 rest left hlow => exact Or.inr (by decide)
  | case5 b rest left hlow hdel ih => exact ih

/-- A value passes exactly when it is not empty, fits with its NUL and has no control byte. -/
theorem validateHeaderValue_neg_iff (value : CString) (maxBytes : ℕ) :
    ¬ validateHeaderValue value maxBytes < 0 ↔
      value.val ≠ [] ∧ value.val.length < maxBytes ∧ ∀ b ∈ value.val, 0x20 ≤ b ∧ b ≠ 0x7F := by
  rw [← scanValue_ok_iff]
  unfold validateHeaderValue
  rcases scanValue_cases value.val maxBytes with hok | hneg
  · rw [hok, if_neg (by decide)]
    split_ifs with hempty
    · simp [hempty, Status.invalid]
    · simp [hempty, Status.ok]
  · have hnot : scanValue value.val maxBytes ≠ .ok := ne_of_lt hneg
    simp [hneg, hnot]

/-! ## Frames -/

section Frames

variable {g : Grant} {env : Environ} {auth : Auth} {f : HeaderFrame} {st : Status}

/-- The ledger is right about the list and the staging buffer. -/
structure HeaderFrame.Sound (f : HeaderFrame) : Prop where
  settled : f.ledger.Settled fun k =>
    match k with
    | .list => f.list ≠ []
    | .staging => f.staging = true
  fresh : f.list = [] → f.ledger.taken .list = false

theorem HeaderFrame.start_sound : HeaderFrame.start.Sound := by
  refine ⟨Ledger.settled_empty fun k => ?_, fun _ => rfl⟩
  cases k <;> simp [HeaderFrame.start]

theorem HeaderFrame.Sound.add {f' : HeaderFrame} {line : Bytes} (h : f.Sound)
    (hadd : f.add g line = some f') :
    f'.Sound ∧ f'.list = f.list ++ [line.takeWhile (· ≠ 0)] ∧ f'.staging = f.staging ∧
      f'.ledger.taken .staging = f.ledger.taken .staging := by
  unfold HeaderFrame.add at hadd
  split_ifs at hadd
  obtain rfl := Option.some.inj hadd
  refine ⟨⟨?_, fun hnil => absurd hnil (by simp)⟩, rfl, rfl, by simp [Ledger.take]⟩
  apply h.settled.take
  · intro k hk
    rw [Bool.and_eq_true, List.isEmpty_iff, decide_eq_true_eq] at hk
    rw [hk.2]
    exact h.fresh hk.1
  · intro k
    cases k with
    | list =>
      by_cases hnil : f.list = []
      · simp [hnil]
      · simp [hnil]
    | staging => simp

theorem HeaderFrame.Sound.freeStaging (h : f.Sound) :
    f.freeStaging.Sound ∧ f.freeStaging.list = f.list ∧ f.freeStaging.staging = false := by
  unfold HeaderFrame.freeStaging
  split_ifs with hstaging
  · refine ⟨⟨?_, h.fresh⟩, rfl, rfl⟩
    apply h.settled.free
    · intro k hk
      rw [of_decide_eq_true hk]
      exact hstaging
    · intro k
      cases k <;> simp
  · exact ⟨h, rfl, Bool.not_eq_true _ ▸ hstaging⟩

theorem HeaderFrame.Sound.fail (h : f.Sound) (hneg : st < 0) : Failed (f.fail st) := by
  obtain ⟨hsound, hlist, hstaging⟩ := h.freeStaging
  refine ⟨hneg, rfl, ?_⟩
  unfold HeaderFrame.fail
  dsimp only
  split_ifs with hnil
  · apply hsound.settled.congr
    intro k
    rw [List.isEmpty_iff] at hnil
    cases k <;> simp [hnil, hstaging]
  · rw [List.isEmpty_iff] at hnil
    apply hsound.settled.free
    · intro k hk
      rw [of_decide_eq_true hk]
      exact hnil
    · intro k
      cases k <;> simp [hstaging]

theorem HeaderFrame.Sound.done (h : f.Sound) (hlist : f.list ≠ []) : Finished f.list f.done := by
  obtain ⟨hsound, hsame, hstaging⟩ := h.freeStaging
  refine ⟨rfl, rfl, ?_⟩
  apply hsound.settled.congr
  intro k
  cases k <;> simp [hsame, hstaging, hlist]

/-- A C string ends at its NUL. -/
theorem takeWhile_nul {s rest : Bytes} (h : (0 : UInt8) ∉ s)
    (hrest : rest = [] ∨ ∃ more, rest = 0 :: more) : (s ++ rest).takeWhile (· ≠ 0) = s := by
  have hkept : ∀ b ∈ s, decide (b ≠ 0) = true := by
    intro b hb
    rw [decide_eq_true_eq]
    rintro rfl
    exact h hb
  rw [List.takeWhile_append_of_pos hkept]
  rcases hrest with rfl | ⟨more, rfl⟩
  · simp
  · simp

/-- A staged line is behind the list, or the build failed. -/
theorem HeaderFrame.Sound.addStaged {P : Built → Prop} {staging : Buffer} {parts : List Bytes}
    {next : HeaderFrame → Buffer → Built} (h : f.Sound) (hfail : ∀ r, Failed r → P r)
    (hclean : (0 : UInt8) ∉ staging.data ++ parts.flatten)
    (hnext : ∀ f' b, f'.Sound → f'.list = f.list ++ [staging.data ++ parts.flatten] →
      b.max = staging.max → P (next f' b)) : P (f.addStaged g staging parts next) := by
  unfold HeaderFrame.addStaged
  rcases happend : staging.appendAll g.alloc (parts ++ [[0]]) with ⟨b, st⟩
  dsimp only
  by_cases hneg : st < 0
  · rw [if_pos hneg]
    exact hfail _ (h.fail hneg)
  · rw [if_neg hneg]
    have hdata : b.data = staging.data ++ parts.flatten ++ [0] := by
      rcases Buffer.appendAll_cases g.alloc staging (parts ++ [[0]]) with ⟨-, hall⟩ | ⟨hneg', -⟩
      · rw [happend] at hall
        simpa using hall
      · rw [happend] at hneg'
        exact absurd hneg' hneg
    have hline : b.data.takeWhile (· ≠ 0) = staging.data ++ parts.flatten := by
      rw [hdata]
      exact takeWhile_nul hclean (Or.inr ⟨[], rfl⟩)
    cases hadd : f.add g b.data with
    | none => exact hfail _ (h.fail (by decide))
    | some f' =>
      obtain ⟨hsound, hlist, -⟩ := h.add hadd
      refine hnext f' b hsound (hlist.trans (by rw [hline])) ?_
      have hmax : (staging.appendAll g.alloc (parts ++ [[0]])).1.max = staging.max :=
        Buffer.appendAll_max _
      rw [happend] at hmax
      exact hmax

theorem HeaderFrame.Sound.addFixed {lines : List Bytes} (h : f.Sound)
    (hclean : ∀ l ∈ lines, (0 : UInt8) ∉ l) :
    (f.addFixed g lines).1.Sound ∧
      (f.addFixed g lines).1.staging = f.staging ∧
      (f.addFixed g lines).1.ledger.taken .staging = f.ledger.taken .staging ∧
      ((f.addFixed g lines).2 < 0 ∨ (f.addFixed g lines).1.list = f.list ++ lines) := by
  induction lines generalizing f with
  | nil => exact ⟨h, rfl, rfl, Or.inr (List.append_nil _).symm⟩
  | cons line lines ih =>
    rw [HeaderFrame.addFixed]
    cases hadd : f.add g line with
    | none => exact ⟨h, rfl, rfl, Or.inl (by decide : Status.nomem < 0)⟩
    | some f' =>
      obtain ⟨hsound, hlist, hstaging, htaken⟩ := h.add hadd
      obtain ⟨hmore, hstaging', htaken', hlines⟩ :=
        ih hsound fun l hl => hclean l (List.mem_cons_of_mem line hl)
      refine ⟨hmore, hstaging'.trans hstaging, htaken'.trans htaken, hlines.imp_right fun heq => ?_⟩
      have hkept : line.takeWhile (· ≠ 0) = line := by
        have hwhole := takeWhile_nul (hclean line List.mem_cons_self) (Or.inl rfl)
        rwa [List.append_nil] at hwhole
      rw [heq, hlist, hkept, List.append_assoc, List.singleton_append]

/-- What is in front of a credential is short and has no control byte. -/
theorem Auth.start_spec (auth : Auth) :
    auth.start.flatten.length ≤ 66 ∧ ∀ b ∈ auth.start.flatten, 0x20 ≤ b ∧ b ≠ 0x7F := by
  have hbearer : ∀ b ∈ ascii "Authorization: Bearer ", 0x20 ≤ b ∧ b ≠ 0x7F := by simp [ascii]
  have hseparator : ∀ b ∈ ascii ": ", 0x20 ≤ b ∧ b ≠ 0x7F := by simp [ascii]
  cases auth with
  | none => exact ⟨by decide, fun b hb => absurd hb List.not_mem_nil⟩
  | bearer env =>
    refine ⟨?_, by simpa [Auth.start] using hbearer⟩
    have hlen : (ascii "Authorization: Bearer ").length = 22 := by decide
    simp [Auth.start, hlen]
  | header name env =>
    have hvalid := name.property
    simp only [headerNameValid, Bool.and_eq_true, List.all_eq_true, Bool.or_eq_true, beq_iff_eq,
      decide_eq_true_eq] at hvalid
    obtain ⟨⟨-, hlong⟩, hletters⟩ := hvalid
    constructor
    · have hlen : (ascii ": ").length = 2 := by decide
      simp only [Auth.start, List.flatten_cons, List.flatten_nil, List.append_nil,
        List.length_append, hlen]
      omega
    · simp only [Auth.start, List.flatten_cons, List.flatten_nil, List.append_nil,
        List.forall_mem_append]
      refine ⟨fun b hb => ?_, hseparator⟩
      rcases hletters b hb with ((rfl | ⟨hlow, hhigh⟩) | ⟨hlow, hhigh⟩) | ⟨hlow, hhigh⟩
      · decide
      all_goals
        refine ⟨UInt8.le_trans (by decide) hlow, ?_⟩
        rintro rfl
        exact absurd hhigh (by decide)

theorem nul_notMem {s : Bytes} (h : ∀ b ∈ s, 0x20 ≤ b ∧ b ≠ 0x7F) : (0 : UInt8) ∉ s :=
  fun hmem => absurd (h 0 hmem).1 (by decide)

theorem appendSecret_outcome {staging : Buffer} {name : CString} (h : f.Sound) (hname : auth.env = some name)
    (hdata : staging.data = auth.start.flatten) :
    HeaderOutcome env auth f.list (f.appendSecret g env staging name) := by
  unfold HeaderFrame.appendSecret
  cases hvalue : env name with
  | none => exact Or.inl (h.fail (by decide))
  | some value =>
    dsimp only
    split_ifs with hfull hneg
    · exact Or.inl (h.fail (by decide))
    · exact Or.inl (h.fail hneg)
    · obtain ⟨hnonempty, hshort, hclean⟩ := (validateHeaderValue_neg_iff _ _).mp hneg
      have hflatten : staging.data ++ [value.val].flatten = auth.start.flatten ++ value.val := by
        simp [hdata]
      have hstart := auth.start_spec.2
      refine h.addStaged (P := HeaderOutcome env auth f.list) (fun r hr => Or.inl hr) ?_
        fun f' b hsound hlines hmax => Or.inr ?_
      · rw [hflatten]
        exact nul_notMem (List.forall_mem_append.mpr ⟨hstart, hclean⟩)
      · refine ⟨[auth.start.flatten ++ value.val], ?_, ?_⟩
        · unfold CredentialLines
          rw [hname]
          refine ⟨value, hvalue, ⟨hnonempty, hclean, ?_⟩, rfl,
            List.forall_mem_append.mpr ⟨hstart, hclean⟩⟩
          have hlen : staging.len = auth.start.flatten.length := congrArg List.length hdata
          omega
        · rw [hflatten] at hlines
          rw [← hlines]
          exact hsound.done (by rw [hlines]; simp)

theorem addCredential_outcome {staging : Buffer} (h : f.Sound) (hlist : f.list ≠ []) :
    HeaderOutcome env auth f.list (f.addCredential g env auth staging) := by
  unfold HeaderFrame.addCredential
  cases hname : auth.env with
  | none =>
    refine Or.inr ⟨[], ?_, ?_⟩
    · unfold CredentialLines
      rw [hname]
    · rw [List.append_nil]
      exact h.done hlist
  | some name =>
    dsimp only
    rcases happend : staging.clear.appendAll g.alloc auth.start with ⟨b, st⟩
    dsimp only
    split_ifs with hneg
    · exact Or.inl (h.fail hneg)
    · refine appendSecret_outcome h hname ?_
      rcases Buffer.appendAll_cases g.alloc staging.clear auth.start with ⟨-, hall⟩ | ⟨hneg', -⟩
      · rw [happend] at hall
        exact hall
      · rw [happend] at hneg'
        exact absurd hneg' hneg

/-- The lines of a request without its credential. -/
def plainLines (stream : Bool) : List Bytes :=
  fixedLines stream ++ [ascii "User-Agent: AsmFlow/" ++ version]

/-- A build fails with nothing left, or makes the lines it should. -/
theorem buildHeaders_outcome (g : Grant) (env : Environ) (auth : Auth) (stream : Bool) :
    HeaderOutcome env auth (plainLines stream) (buildHeaders g env auth stream) := by
  have hclean : ∀ l ∈ fixedLines stream, (0 : UInt8) ∉ l := by
    cases stream <;> decide
  obtain ⟨hsound, hstaging, htaken, hlines⟩ :=
    HeaderFrame.start_sound.addFixed (g := g) hclean
  unfold buildHeaders
  rcases hfixed : HeaderFrame.start.addFixed g (fixedLines stream) with ⟨f, st⟩
  rw [hfixed] at hsound hstaging htaken hlines
  dsimp only at hsound hstaging htaken hlines ⊢
  by_cases hneg : st < 0
  · rw [if_pos hneg]
    exact Or.inl (hsound.fail hneg)
  · rw [if_neg hneg]
    have hstaged : { f with
        staging := true
        ledger := f.ledger.take (· = HeaderResource.staging) }.Sound := by
      refine ⟨?_, fun hnil => by simpa [Ledger.take] using hsound.fresh hnil⟩
      apply hsound.settled.take
      · intro k hk
        rw [of_decide_eq_true hk]
        exact htaken
      · intro k
        cases k <;> simp
    refine hstaged.addStaged (P := HeaderOutcome env auth (plainLines stream))
      (fun r hr => Or.inl hr) (by decide) fun f' b hsound' hlist hmax => ?_
    have hplain : f'.list = plainLines stream := by
      rw [hlist, hlines.resolve_left hneg]
      rfl
    rw [← hplain]
    exact addCredential_outcome hsound' (by rw [hlist]; simp)

/-! ## Where memory is granted -/

theorem add_granted (hslist : g.slist = fun _ => true) (f : HeaderFrame) (line : Bytes) :
    ∃ f', f.add g line = some f' := by
  unfold HeaderFrame.add
  rw [hslist]
  exact ⟨_, if_pos rfl⟩

theorem appendAll_granted {b : Buffer} (ps : List Bytes) (halloc : g.alloc = fun _ => true)
    (hmax : b.max = stagingMax) (hroom : b.len + ps.flatten.length ≤ stagingMax) :
    ∃ b', b.appendAll g.alloc ps = (b', .ok) ∧ b'.data = b.data ++ ps.flatten ∧
      b'.max = stagingMax := by
  have hfits : b.Fits g.alloc ps := by
    rw [halloc, Buffer.fits_granting (by rw [hmax]; decide), hmax]
    exact hroom
  refine ⟨(b.appendAll g.alloc ps).1, Prod.ext rfl hfits, ?_, by rw [Buffer.appendAll_max, hmax]⟩
  rcases Buffer.appendAll_cases g.alloc b ps with ⟨-, hall⟩ | ⟨hneg, -⟩
  · exact hall
  · rw [show (b.appendAll g.alloc ps).2 = .ok from hfits] at hneg
    exact absurd hneg (by decide)

theorem addStaged_granted {P : Built → Prop} {staging : Buffer} {parts : List Bytes}
    {next : HeaderFrame → Buffer → Built} (halloc : g.alloc = fun _ => true)
    (hslist : g.slist = fun _ => true) (hmax : staging.max = stagingMax)
    (hroom : staging.len + parts.flatten.length + 1 ≤ stagingMax)
    (hnext : ∀ f' b, b.max = stagingMax → P (next f' b)) :
    P (f.addStaged g staging parts next) := by
  obtain ⟨b, happend, -, hb⟩ := appendAll_granted (parts ++ [[0]]) halloc hmax
    (by simpa [Nat.add_assoc] using hroom)
  obtain ⟨f', hadd⟩ := add_granted hslist f b.data
  unfold HeaderFrame.addStaged
  rw [happend]
  dsimp only
  rw [if_neg (by decide), hadd]
  exact hnext f' b hb

theorem addCredential_granted {staging : Buffer} (halloc : g.alloc = fun _ => true)
    (hslist : g.slist = fun _ => true) (hmax : staging.max = stagingMax)
    (hsendable : ∀ name, auth.env = some name →
      ∃ value, env name = some value ∧ Sendable auth value.val) :
    (f.addCredential g env auth staging).status = .ok := by
  unfold HeaderFrame.addCredential
  cases hname : auth.env with
  | none => rfl
  | some name =>
    obtain ⟨value, hvalue, hnonempty, hclean, hshort⟩ := hsendable name hname
    have hfront : staging.clear.len = 0 := rfl
    obtain ⟨b, happend, hdata, hb⟩ := appendAll_granted (b := staging.clear)
      auth.start halloc hmax (by rw [hfront]; unfold stagingMax at hshort ⊢; omega)
    have hlen : b.len = auth.start.flatten.length := congrArg List.length hdata
    have hvalid : ¬ validateHeaderValue value (stagingMax - b.len) < 0 :=
      (validateHeaderValue_neg_iff _ _).mpr ⟨hnonempty, by omega, hclean⟩
    dsimp only
    rw [happend]
    dsimp only
    rw [if_neg (by decide)]
    unfold HeaderFrame.appendSecret
    rw [hvalue]
    dsimp only
    rw [if_neg (by omega), if_neg hvalid]
    refine addStaged_granted (P := fun r => r.status = .ok) halloc hslist hb ?_ fun f' b' _ => rfl
    simp only [List.flatten_cons, List.flatten_nil, List.append_nil]
    omega

theorem addFixed_granted (hslist : g.slist = fun _ => true) (lines : List Bytes) :
    (f.addFixed g lines).2 = .ok := by
  induction lines generalizing f with
  | nil => rfl
  | cons line lines ih =>
    obtain ⟨f', hadd⟩ := add_granted hslist f line
    rw [HeaderFrame.addFixed, hadd]
    exact ih

theorem buildHeaders_granted (stream : Bool) (halloc : g.alloc = fun _ => true)
    (hslist : g.slist = fun _ => true)
    (hsendable : ∀ name, auth.env = some name →
      ∃ value, env name = some value ∧ Sendable auth value.val) :
    (buildHeaders g env auth stream).status = .ok := by
  have hok := addFixed_granted (f := HeaderFrame.start) hslist (fixedLines stream)
  unfold buildHeaders
  rcases hfixed : HeaderFrame.start.addFixed g (fixedLines stream) with ⟨f, st⟩
  rw [hfixed] at hok
  dsimp only at hok ⊢
  rw [hok, if_neg (by decide)]
  exact addStaged_granted (P := fun r => r.status = .ok) halloc hslist rfl (by decide)
    fun f' b hb => addCredential_granted halloc hslist hb hsendable

end Frames

/-- A start that finds all secrets lets a provider be sent to, memory granted, exactly where its
value is sendable. Whatever is granted, a build has all of its lines or leaves nothing. -/
theorem buildHeaders_resolved {env : Environ} {cfg : Secrets}
    (hresolved : resolveSecrets env cfg = .ok ()) (auth : Auth) (hauth : auth ∈ cfg.providers)
    (stream : Bool) (g : Grant) :
    HeaderOutcome env auth (plainLines stream) (buildHeaders g env auth stream) ∧
      (g.alloc = (fun _ => true) → g.slist = (fun _ => true) →
        ((buildHeaders g env auth stream).status = .ok ↔
          ∀ name value, auth.env = some name → env name = some value →
            Sendable auth value.val)) := by
  have houtcome := buildHeaders_outcome g env auth stream
  refine ⟨houtcome, fun halloc hslist => ⟨fun hok name value hname hvalue => ?_, fun h => ?_⟩⟩
  · rcases houtcome with hfailed | ⟨lines, hlines, -⟩
    · have hneg := hfailed.neg
      rw [hok] at hneg
      exact absurd hneg (by decide)
    · unfold CredentialLines at hlines
      rw [hname] at hlines
      obtain ⟨value', hvalue', hsendable, -⟩ := hlines
      obtain rfl := Option.some.inj (hvalue.symm.trans hvalue')
      exact hsendable
  · refine buildHeaders_granted stream halloc hslist fun name hname => ?_
    obtain ⟨value, hvalue⟩ := present_of_resolveSecrets hresolved hauth hname
    exact ⟨value, hvalue, h name value hname hvalue⟩

/-! ## Values -/

/-- `OPENAI_API_KEY`. -/
def openaiKey : CString := ⟨ascii "OPENAI_API_KEY", by decide⟩

/-- An environment with this value of the key. -/
def keyed (value : CString) : Environ := fun name => if name = openaiKey then some value else none

/-- A configuration with one provider. -/
def oneProvider : Secrets := ⟨.none, [.bearer openaiKey], []⟩

def allGranted : Grant := ⟨fun _ => true, fun _ => true⟩

theorem buildHeaders_resolved_key :
    (buildHeaders allGranted (keyed ⟨ascii "sk-1", by decide⟩) (.bearer openaiKey) true).status =
      .ok := by
  have hresolved : resolveSecrets (keyed ⟨ascii "sk-1", by decide⟩) oneProvider = .ok () := rfl
  apply ((buildHeaders_resolved hresolved (.bearer openaiKey) (by simp [oneProvider]) true
    allGranted).2 rfl rfl).mpr
  intro name value hname hvalue
  obtain rfl := Option.some.inj hname
  obtain rfl := Option.some.inj hvalue
  exact ⟨by decide +kernel, by decide +kernel, by decide +kernel⟩

/-- A variable that is set to nothing is present, and no request can be sent with it. -/
theorem buildHeaders_empty :
    ¬ ∀ (env : Environ) (cfg : Secrets) (auth : Auth) (stream : Bool) (g : Grant),
      resolveSecrets env cfg = .ok () → auth ∈ cfg.providers → g.alloc = (fun _ => true) →
      g.slist = (fun _ => true) → (buildHeaders g env auth stream).status = .ok := by
  intro h
  have hok := h (keyed ⟨[], by simp⟩) oneProvider (.bearer openaiKey) false allGranted (by rfl)
    (by simp [oneProvider]) rfl rfl
  exact absurd hok (by decide)

end AsmFlow.Providers
