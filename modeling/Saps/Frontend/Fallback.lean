import Saps.Errors
import Mathlib.Data.List.DropRight

-- What `mount_frontend!` expands to.
namespace Saps.Frontend

def indexHtml : Str :=
  "index.html".toList

-- A byte that `HeaderValue::from_str` takes.
def isHeaderByte (c : Char) : Bool :=
  (32 ≤ c.toNat ∧ c.toNat ≠ 127) ∨ c = '\t'

-- The embedded files and the number of seconds they may be cached for. The types that
-- `mime_guess` knows are text for a header.
structure FrontendAssets where
  get : Str → Option (List UInt8)
  index_embedded : (get indexHtml).isSome
  mimeGuess : Str → Str
  mimeGuess_header : ∀ path, (mimeGuess path).all isHeaderByte = true
  cacheSeconds : Nat

inductive Body where
  | bytes (data : List UInt8)
  | text (message : Str)
  deriving DecidableEq, Repr

structure Response where
  status : Nat
  contentType : Option Str
  cacheControl : Option Str
  body : Body
  deriving DecidableEq, Repr

def Response.message (status : Nat) (message : String) : Response :=
  ⟨status, none, none, .text message.toList⟩

namespace FrontendAssets

def cacheLit (assets : FrontendAssets) : Str :=
  "public, max-age=".toList ++ (toString assets.cacheSeconds).toList

def mime (assets : FrontendAssets) (path : Str) : Str :=
  if ".wasm".toList.isSuffixOf path then "application/wasm".toList else assets.mimeGuess path

def cache (assets : FrontendAssets) (path : Str) : Str :=
  if path = indexHtml then "no-cache".toList else assets.cacheLit

def embeddedFileResponse (assets : FrontendAssets) (path : Str) : Option Response :=
  match assets.get path with
  | none => none
  | some data =>
    let mime := assets.mime path
    if mime.all isHeaderByte then
      some ⟨200, some mime, some (assets.cache path), .bytes data⟩
    else none

def index (assets : FrontendAssets) : Response :=
  match assets.embeddedFileResponse indexHtml with
  | some response => response
  | none => .message 500 "index.html missing from embedded assets"

-- `trim_start_matches('/')`.
def trimmed (path : Str) : Str :=
  path.dropWhile (· = '/')

def isApi (path : Str) : Bool :=
  "/api/".toList.isPrefixOf path

-- `path.rsplit_once('.').is_some()`.
def looksLikeFile (path : Str) : Bool :=
  '.' ∈ path

def staticOrSpaFallback (assets : FrontendAssets) (uriPath : Str) : Response :=
  let path := trimmed uriPath
  if isApi uriPath then .message 404 "Not Found"
  else if path = [] then assets.index
  else
    match assets.embeddedFileResponse path with
    | some response => response
    | none => if looksLikeFile path then .message 404 "404 Not Found" else assets.index

-- The routing table of the module documentation: what is served, if anything.
def lastSegment (path : Str) : Str :=
  path.rtakeWhile (· ≠ '/')

def documented (assets : FrontendAssets) (uriPath : Str) : Option Str :=
  let path := trimmed uriPath
  if isApi uriPath then none
  else if path = [] then some indexHtml
  else if (assets.get path).isSome then some path
  else if '.' ∈ lastSegment path then none
  else some indexHtml

-- A file is served whole, under its type and its caching rule, or else there is a 404.
def Serves (assets : FrontendAssets) (response : Response) : Option Str → Prop
  | none => response.status = 404
  | some path => ∃ data, assets.get path = some data ∧
      response = ⟨200, some (assets.mime path), some (assets.cache path), .bytes data⟩

-- A dot in the path, but none in its last segment.
def DottedFolder (path : Str) : Prop :=
  '.' ∈ path ∧ '.' ∉ lastSegment path

instance (path : Str) : Decidable (DottedFolder path) :=
  inferInstanceAs (Decidable (_ ∧ _))

theorem mime_header (assets : FrontendAssets) (path : Str) :
    (assets.mime path).all isHeaderByte = true := by
  unfold mime
  split
  · decide +kernel
  · exact assets.mimeGuess_header path

theorem embedded_some {assets : FrontendAssets} {path : Str} {data : List UInt8}
    (h : assets.get path = some data) :
    assets.embeddedFileResponse path =
      some ⟨200, some (assets.mime path), some (assets.cache path), .bytes data⟩ := by
  simp [embeddedFileResponse, h, mime_header]

theorem embedded_none {assets : FrontendAssets} {path : Str} (h : assets.get path = none) :
    assets.embeddedFileResponse path = none := by
  simp [embeddedFileResponse, h]

theorem index_serves (assets : FrontendAssets) :
    assets.Serves assets.index (some indexHtml) := by
  obtain ⟨data, hdata⟩ := Option.isSome_iff_exists.mp assets.index_embedded
  refine ⟨data, hdata, ?_⟩
  simp [index, embedded_some hdata]

theorem lastSegment_subset (path : Str) : lastSegment path ⊆ path :=
  (List.rtakeWhile_suffix _ _).subset

-- Whatever is served is the shell or what the path names, with the caching rule of that.
theorem fallback_serves (assets : FrontendAssets) (uriPath : Str) :
    assets.Serves (assets.staticOrSpaFallback uriPath) none ∨
      ∃ path ∈ [indexHtml, trimmed uriPath],
        assets.Serves (assets.staticOrSpaFallback uriPath) (some path) := by
  unfold staticOrSpaFallback
  by_cases hapi : isApi uriPath = true
  · simp [hapi, Serves, Response.message]
  · simp only [hapi, Bool.false_eq_true, ite_false]
    by_cases hempty : trimmed uriPath = []
    · right
      exact ⟨indexHtml, by simp, by simpa [hempty] using assets.index_serves⟩
    · simp only [hempty, ite_false]
      cases hget : assets.get (trimmed uriPath) with
      | some data =>
          right
          exact ⟨trimmed uriPath, by simp, data, hget, by simp [embedded_some hget]⟩
      | none =>
          simp only [embedded_none hget]
          by_cases hfile : looksLikeFile (trimmed uriPath) = true
          · simp [hfile, Serves, Response.message]
          · right
            exact ⟨indexHtml, by simp, by simpa [hfile] using assets.index_serves⟩

-- The table is followed, but for a path that is neither an API route nor a file and has
-- a dot in a segment before the last one only: that is a 404. The caching rules are
-- always followed.
theorem fallback_iff (assets : FrontendAssets) (uriPath : Str) :
    (assets.Serves (assets.staticOrSpaFallback uriPath) (assets.documented uriPath) ↔
      isApi uriPath ∨ (assets.get (trimmed uriPath)).isSome ∨ ¬DottedFolder (trimmed uriPath)) ∧
    ((assets.staticOrSpaFallback uriPath).status = 404 ∨ ∃ path data,
      assets.get path = some data ∧
        (assets.staticOrSpaFallback uriPath).body = .bytes data ∧
        (assets.staticOrSpaFallback uriPath).cacheControl =
          some (if path = indexHtml then "no-cache".toList else assets.cacheLit)) := by
  constructor
  · unfold staticOrSpaFallback documented
    by_cases hapi : isApi uriPath = true
    · simp [hapi, Serves, Response.message]
    · simp only [hapi, Bool.false_eq_true, ite_false, false_or]
      generalize trimmed uriPath = path
      by_cases hempty : path = []
      · refine iff_of_true (by simpa [hempty] using assets.index_serves) (.inr fun h => ?_)
        simp [DottedFolder, hempty] at h
      · simp only [hempty, ite_false]
        cases hget : assets.get path with
        | some data =>
            refine iff_of_true ?_ (.inl rfl)
            simp [embedded_some hget, Serves, hget]
        | none =>
            simp only [embedded_none hget, Option.isSome_none, Bool.false_eq_true, ite_false,
              false_or]
            by_cases hdot : '.' ∈ path
            · by_cases hlast : '.' ∈ lastSegment path
              · simp [looksLikeFile, DottedFolder, hdot, hlast, Serves, Response.message]
              · simp [looksLikeFile, DottedFolder, hdot, hlast, Serves, Response.message]
            · have hlast : '.' ∉ lastSegment path := fun h => hdot (lastSegment_subset path h)
              simpa [looksLikeFile, DottedFolder, hdot, hlast] using assets.index_serves
  · rcases fallback_serves assets uriPath with h | ⟨path, _, data, hdata, hresponse⟩
    · exact .inl h
    · right
      refine ⟨path, data, hdata, ?_, ?_⟩
      · rw [hresponse]
      · rw [hresponse]
        rfl

def shell : FrontendAssets where
  get path := if path = indexHtml then some [60] else none
  index_embedded := by simp
  mimeGuess _ := "text/html".toList
  mimeGuess_header _ := by decide +kernel
  cacheSeconds := 604800

-- A client-side route under a dotted segment does not reach the shell.
theorem fallback_dotted_folder :
    (shell.staticOrSpaFallback "/v1.2/users".toList).status = 404 ∧
      shell.documented "/v1.2/users".toList = some indexHtml ∧
      ¬shell.Serves (shell.staticOrSpaFallback "/v1.2/users".toList)
        (shell.documented "/v1.2/users".toList) := by
  have hstatus : (shell.staticOrSpaFallback "/v1.2/users".toList).status = 404 := by
    decide +kernel
  have hdocumented : shell.documented "/v1.2/users".toList = some indexHtml := by decide +kernel
  refine ⟨hstatus, hdocumented, ?_⟩
  rw [hdocumented]
  rintro ⟨data, _, hresponse⟩
  rw [hresponse] at hstatus
  cases hstatus

end FrontendAssets

end Saps.Frontend
