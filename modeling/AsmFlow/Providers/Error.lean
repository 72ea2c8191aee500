import AsmFlow.Machine.Status
import AsmFlow.Machine.Word

/-!
# Classifying an attempt's outcome

The two normalisations of `provider_error.asm` and the test that decides whether
an outcome is worth another target. Its scans over static tables are lookups in
association lists, the first match winning.
-/

namespace AsmFlow.Providers

def curleTimedout : ℕ := 28

def curlMap : List (ℕ × Status) :=
  [(5, .upDnsFailed), (6, .upDnsFailed), (7, .upConnectFailed), (35, .upTls), (60, .upTls),
    (77, .upTls), (83, .upTls), (52, .upMalformed), (18, .upMalformed), (56, .upMalformed),
    (55, .upMalformed), (23, .upCancelled), (42, .upCancelled), (1, .upConnectFailed)]

/-- `AF_RETRY_*` by the status they stand for. -/
def retryMap : List (Status × Word) :=
  [(.upConnectFailed, 1), (.upDnsFailed, 2), (.upConnectTimeout, 4), (.upHttp502, 8),
    (.upHttp503, 16), (.upHttp504, 32)]

/-- libcurl's verdict. No time spent connecting means the connection never came up. -/
def classifyCurl (result : ℕ) (connectUs : Word) : Status :=
  if result = 0 then .ok
  else if result = curleTimedout then
    if connectUs = 0 then .upConnectTimeout else .upTimeout
  else (curlMap.lookup result).getD .upStatus

/-- The upstream's status line. -/
def classifyStatus (status : ℕ) : Status :=
  if status < 200 then .upStatus
  else if status < 300 then .ok
  else if status = 502 then .upHttp502
  else if status = 503 then .upHttp503
  else if status = 504 then .upHttp504
  else .upStatus

def isRetryable (verdict : Status) (mask : Word) : Bool :=
  match retryMap.lookup verdict with
  | none => false
  | some bit => decide (bit &&& mask ≠ 0)

/-- Only failures are retryable, and a cancellation is not one of them. -/
theorem verdict_of_isRetryable {verdict : Status} {mask : Word}
    (h : isRetryable verdict mask = true) : verdict < 0 ∧ verdict ≠ .upCancelled := by
  unfold isRetryable at h
  cases hv : retryMap.lookup verdict with
  | none => simp [hv] at h
  | some bit =>
    obtain ⟨l₁, l₂, hsplit, -⟩ := List.lookup_eq_some_iff.mp hv
    have hmem : (verdict, bit) ∈ retryMap := by simp [hsplit]
    have hall : ∀ entry ∈ retryMap, entry.1 < 0 ∧ entry.1 ≠ Status.upCancelled := by decide
    exact hall _ hmem

end AsmFlow.Providers
