import Saps.Auth.Cookies
import Saps.Lib.Words

-- Where a request carries its token.
namespace Saps.Auth

-- The fields of a request in their order, by their names in lower case. A value stands
-- for its bytes.
abbrev HeaderMap := List (Str × Str)

namespace HeaderMap

-- The first one.
def get (name : Str) (headers : HeaderMap) : Option Str :=
  (headers.find? (·.1 = name)).map Prod.snd

def COOKIE : Str := "cookie".toList

def TOKEN : Str := "token".toList

def AUTHORIZATION : Str := "authorization".toList

def SEC_WEBSOCKET_PROTOCOL : Str := "sec-websocket-protocol".toList

end HeaderMap

open HeaderMap

-- `str::split_whitespace`.
def splitWhitespace (text : Str) : List Str :=
  Words.words isWhitespace text

-- `str::eq_ignore_ascii_case`.
def eqIgnoreAsciiCase (left right : Str) : Bool :=
  left.map Char.toLower = right.map Char.toLower

def extractTokenFromHeader (headers : HeaderMap) : Except SapsError (Option Str) :=
  match headers.get TOKEN with
  | none => .ok none
  | some rawData =>
    match headerStr rawData with
    | none => .error (.unauthorized "token not a valid string".toList)
    | some token => .ok (some token)

-- `bearer, <JWT>`.
def protocolToken (s : Str) : Option Str :=
  match Trim.splitOnce ',' s with
  | none => none
  | some (p1, p2) =>
    if eqIgnoreAsciiCase (trim p1) "bearer".toList then
      let jwt := trim p2
      if jwt.isEmpty then none else some jwt
    else none

def authorizationToken (headers : HeaderMap) : Except SapsError Str :=
  match headers.get AUTHORIZATION with
  | none => .error (.unauthorized "Missing Authorization header".toList)
  | some raw =>
    match headerStr raw with
    | none => .error (.unauthorized "Invalid Authorization header".toList)
    | some s =>
      let parts := splitWhitespace s
      let scheme := parts.head?.getD []
      let token := parts.tail.head?.getD []
      if !eqIgnoreAsciiCase scheme "bearer".toList || token.isEmpty then
        .error (.unauthorized "Expected 'Bearer <token>'".toList)
      else .ok token

def extractBearerToken (headers : HeaderMap) : Except SapsError Str :=
  match headers.get SEC_WEBSOCKET_PROTOCOL with
  | none => authorizationToken headers
  | some raw =>
    match headerStr raw with
    | none => .error (.unauthorized "Invalid Sec-WebSocket-Protocol header".toList)
    | some s =>
      match protocolToken s with
      | some jwt => .ok jwt
      | none => authorizationToken headers

-- The first lines of `run_auth_extraction`: cookie, `token` header, bearer.
def locateToken (headers : HeaderMap) : Except SapsError Str :=
  match extractTokenFromCookies (headers.get COOKIE).toList with
  | .error e => .error e
  | .ok (some token) => .ok token
  | .ok none =>
    match extractTokenFromHeader headers with
    | .error e => .error e
    | .ok (some token) => .ok token
    | .ok none => extractBearerToken headers

-- `run_auth_extraction` from the headers on.
def extractRequest {Role Uuid : Type} [UserRole Role] [UuidText Uuid] [DecidableEq Uuid]
    [Jsonwebtoken] (config : Config) (mode : RefreshMode) (now : Int) (fresh : Uuid)
    (headers : HeaderMap) (table : AuthSessions Uuid) : Extraction Role Uuid :=
  match locateToken headers with
  | .error e => ⟨.error e, none, table⟩
  | .ok rawToken => runAuthExtraction config mode now fresh rawToken table

-- What the fields are to look like.
namespace Headers

open Words

def IsBearer (scheme : Str) : Prop :=
  eqIgnoreAsciiCase scheme "bearer".toList = true

-- `Bearer <token>`, with whatever stands behind it.
inductive Authorization : Str → Str → Prop
  | intro (gap scheme between token rest : Str) (hgap : IsGap isWhitespace gap)
      (hscheme : IsBearer scheme) (hbetween : IsGap isWhitespace between) (hapart : between ≠ [])
      (htoken : IsWord isWhitespace token) (hrest : Ends isWhitespace rest) :
      Authorization (gap ++ (scheme ++ (between ++ (token ++ rest)))) token

-- The subprotocol `bearer` and a text with a blank at neither end.
inductive Protocol : Str → Str → Prop
  | intro (gap scheme between before token after : Str) (hgap : IsGap isWhitespace gap)
      (hscheme : IsBearer scheme) (hbetween : IsGap isWhitespace between)
      (hbefore : IsGap isWhitespace before) (hnonempty : token ≠ []) (htoken : trim token = token)
      (hafter : IsGap isWhitespace after) :
      Protocol (gap ++ (scheme ++ (between ++ ',' :: (before ++ (token ++ after))))) token

-- A field that is there reads as `text`.
def Reads (headers : HeaderMap) (name text : Str) : Prop :=
  headers.get name = some text ∧ text.all isVisibleAscii = true

def Absent (headers : HeaderMap) (name : Str) : Prop :=
  headers.get name = none

-- The first `Cookie` field, if there is one, is text without an auth cookie.
def NoCookie (headers : HeaderMap) : Prop :=
  Absent headers COOKIE ∨ ∃ field : List Cookies.Crumb,
    Reads headers COOKIE (Cookies.fieldText field) ∧ ∀ crumb ∈ field, crumb.isAuth = false

def NoProtocol (headers : HeaderMap) : Prop :=
  Absent headers SEC_WEBSOCKET_PROTOCOL ∨ ∃ text,
    Reads headers SEC_WEBSOCKET_PROTOCOL text ∧ ∀ token, ¬Protocol text token

-- The places in their order. A later one counts where the earlier ones have no token
-- and can be read.
inductive Located (headers : HeaderMap) : Str → Prop
  | cookie (front back : List Cookies.Crumb) (crumb : Cookies.Crumb) (value : Str)
      (hreads : Reads headers COOKIE (Cookies.fieldText (front ++ crumb :: back)))
      (hfirst : ∀ other ∈ front, other.isAuth = false) (hauth : crumb.isAuth = true)
      (hvalue : crumb.value = some value) : Located headers (trim value)
  | tokenHeader (token : Str) (hcookie : NoCookie headers) (hreads : Reads headers TOKEN token) :
      Located headers token
  | protocol (text token : Str) (hcookie : NoCookie headers) (htoken : Absent headers TOKEN)
      (hreads : Reads headers SEC_WEBSOCKET_PROTOCOL text) (hprotocol : Protocol text token) :
      Located headers token
  | authorization (text token : Str) (hcookie : NoCookie headers) (htoken : Absent headers TOKEN)
      (hprotocol : NoProtocol headers) (hreads : Reads headers AUTHORIZATION text)
      (hauthorization : Authorization text token) : Located headers token

end Headers

end Saps.Auth
