import ProofOfThought.Watcher.Pipeline

/-!
# Fetching a trace

The three fetchers behind `StorageBackend`. Each checks the hash of the URI first, and fails on a mismatch before it
asks anybody (`fetch_mismatch`); `handle_event` drops the failure. What the gateways answer is a parameter.
-/

namespace ProofOfThought.Watcher

open Base
open Program (Bytes32)

/-- An HTTP response: the status, its `Display`, and the body or the failure to read it. -/
structure Response where
  status : Nat
  display : String
  body : Except String Bytes

def Response.isSuccess (resp : Response) : Bool := 200 ≤ resp.status && resp.status < 300

/-- `str::strip_prefix`. -/
def strip (scheme uri : String) : Option String := (scheme.toList.isPrefixOf? uri.toList).map String.ofList

/-- `gateway.trim_end_matches('/')`, a slash, and the path. -/
def gatewayUrl (gateway path : String) : String :=
  String.ofList (gateway.toList.reverse.dropWhile (· = '/')).reverse ++ "/" ++ path

/-- What a fetcher asks of the world: BLAKE3, the CBOR reader and the HTTP client. -/
structure Net where
  blake3 : Bytes → Bytes32
  fromReader : Bytes → Option Value
  get : String → Except String Response

variable (net : Net)

/-! ## The fetchers -/

structure ArweaveFetcher where
  gateway : String

def ArweaveFetcher.fetch (f : ArweaveFetcher) (uri : String) (expectedUriHash : Bytes32) :
    Except FetchError TraceBundle := do
  verifyUriHash net.blake3 uri expectedUriHash
  let txid ← okOr ((strip "ar://" uri).or (strip "arweave://" uri)) (.unsupportedScheme uri)
  let url := gatewayUrl f.gateway txid
  let resp ← (net.get url).mapError .http
  require (resp.status ≠ 404) (.notFound url)
  require (resp.isSuccess = true) (.http ("HTTP " ++ resp.display))
  let bytes ← resp.body.mapError .http
  decodeManifest net.fromReader bytes

structure ShadowFetcher where
  gateway : String

def ShadowFetcher.fetch (f : ShadowFetcher) (uri : String) (expectedUriHash : Bytes32) :
    Except FetchError TraceBundle := do
  verifyUriHash net.blake3 uri expectedUriHash
  let path ← okOr ((strip "shdw://" uri).or (strip "shadow://" uri)) (.unsupportedScheme uri)
  let url := gatewayUrl f.gateway path
  let resp ← (net.get url).mapError .http
  -- a 404 is an HTTP error here
  require (resp.isSuccess = true) (.http ("HTTP " ++ resp.display))
  let bytes ← resp.body.mapError .http
  decodeManifest net.fromReader bytes

structure MockFetcher where
  bundles : String → Option TraceBundle

def MockFetcher.fetch (f : MockFetcher) (uri : String) (expectedUriHash : Bytes32) :
    Except FetchError TraceBundle := do
  verifyUriHash net.blake3 uri expectedUriHash
  okOr (f.bundles uri) (.notFound uri)

/-- `dyn TraceFetcher`. -/
inductive TraceFetcher where
  | arweave (f : ArweaveFetcher)
  | shadow (f : ShadowFetcher)
  | mock (f : MockFetcher)

def TraceFetcher.fetch : TraceFetcher → String → Bytes32 → Except FetchError TraceBundle
  | .arweave f => f.fetch net
  | .shadow f => f.fetch net
  | .mock f => f.fetch net

variable {net}

theorem verifyUriHash_mismatch {blake3 : Bytes → Bytes32} {uri : String} {expected : Bytes32}
    (h : blake3 (utf8 uri) ≠ expected) :
    verifyUriHash blake3 uri expected = .error (.uriHashMismatch expected (blake3 (utf8 uri))) := if_pos h

/-- **Every fetcher fails on a URI that does not match its hash.** -/
theorem fetch_mismatch (f : TraceFetcher) {uri : String} {expected : Bytes32} (h : net.blake3 (utf8 uri) ≠ expected) :
    f.fetch net uri expected = .error (.uriHashMismatch expected (net.blake3 (utf8 uri))) := by
  have hv := verifyUriHash_mismatch h
  cases f with
  | arweave f => rw [TraceFetcher.fetch, ArweaveFetcher.fetch, hv]; rfl
  | shadow f => rw [TraceFetcher.fetch, ShadowFetcher.fetch, hv]; rfl
  | mock f => rw [TraceFetcher.fetch, MockFetcher.fetch, hv]; rfl

/-! ## The daemon -/

/-- A running watcher: its fetcher, its filer and the counter of the bonds in flight. -/
structure Daemon where
  fetcher : TraceFetcher
  filer : ChallengeFiler
  inFlightBond : UInt64

/-- The challenge `handle_event` submits for an event, if it submits one. -/
def Daemon.files (net : Net) (w : Daemon) (event : ThoughtSubmittedEvent) : Option ChallengeArgs :=
  (handleEvent net.blake3 event (w.fetcher.fetch net event.traceUri event.traceUriHash)).bind fun call =>
    match w.filer.decide net.blake3 w.inFlightBond call with
    | .file args => some args
    | _ => none

/-- The bond strategy, the expected value and the cap allow a filing. -/
structure Daemon.Allows (w : Daemon) : Prop where
  enabled : w.filer.bondStrategy ≠ .disabled
  worth : saturatingAdd (w.filer.bondFor PLACEHOLDER_BOND_MIN) w.filer.txFeeLamports <
    mulDiv PLACEHOLDER_AGENT_STAKE_LAMPORTS 6 10
  cap : saturatingAdd (w.filer.bondFor PLACEHOLDER_BOND_MIN) w.inFlightBond ≤ w.filer.maxStakeAtRiskLamports

/-- The default conservative filer, with nothing in flight. -/
def Daemon.conservative (fetcher : TraceFetcher) (maxStakeAtRiskLamports : UInt64) : Daemon :=
  ⟨fetcher, .new .conservative maxStakeAtRiskLamports, 0⟩

theorem conservative_allows (fetcher : TraceFetcher) : (Daemon.conservative fetcher 5000000000).Allows :=
  ⟨nofun, show saturatingAdd 500000000 5000000 < mulDiv 100000000000 6 10 by decide,
    show saturatingAdd 500000000 0 ≤ 5000000000 by decide⟩

/-- **What a watcher that allows a filing files**: a challenge of the thought, exactly when the fetched output does not
match its commitment. -/
theorem files_eq_some {w : Daemon} (hw : w.Allows) {event : ThoughtSubmittedEvent} {args : ChallengeArgs} :
    w.files net event = some args ↔
      ∃ bundle, w.fetcher.fetch net event.traceUri event.traceUriHash = .ok bundle ∧
        net.blake3 bundle.rawCanonicalOutput ≠ event.outputCommitment ∧
        args = ⟨event.thoughtPda, .inconsistentCommitments, w.filer.bondFor PLACEHOLDER_BOND_MIN,
          net.blake3 (utf8 event.traceUri)⟩ := by
  have hworth := UInt64.not_le.2 hw.worth
  have hcap := UInt64.not_lt.2 hw.cap
  unfold Daemon.files
  cases hf : w.fetcher.fetch net event.traceUri event.traceUriHash with
  | error e => simp [handleEvent]
  | ok bundle =>
    simp only [handleEvent, Option.bind_some, Except.ok.injEq, exists_eq_left']
    unfold ChallengeFiler.decide ByteCompareVerifier.verify
    by_cases hm : net.blake3 bundle.rawCanonicalOutput = event.outputCommitment
    · simp [hm, hw.enabled]
    · simp [hm, hw.enabled, hworth, hcap, eq_comm]

/-- A watcher files nothing for a URI that does not match its hash. -/
theorem files_mismatch (w : Daemon) {event : ThoughtSubmittedEvent}
    (h : net.blake3 (utf8 event.traceUri) ≠ event.traceUriHash) : w.files net event = none := by
  rw [Daemon.files, fetch_mismatch w.fetcher h]
  rfl

end ProofOfThought.Watcher
