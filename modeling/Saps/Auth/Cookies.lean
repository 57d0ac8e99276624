import Saps.Auth.Token
import Saps.Lib.Trim

-- The auth cookie from its `Set-Cookie` to the `Cookie` fields of a request.
namespace Saps.Auth

def AUTH_TOKEN_COOKIE_KEY : Str :=
  "saps-token".toList

-- `char::is_whitespace`.
def isWhitespace (c : Char) : Bool :=
  c.toNat ∈ [0x20, 0x85, 0xA0, 0x1680, 0x2028, 0x2029, 0x202F, 0x205F, 0x3000] ∨
    (9 ≤ c.toNat ∧ c.toNat ≤ 13) ∨ (0x2000 ≤ c.toNat ∧ c.toNat ≤ 0x200A)

-- `str::trim`.
def trim (text : Str) : Str :=
  Trim.trim isWhitespace text

-- The text of the header value.
def SetCookie.text (cookie : SetCookie) : Str :=
  AUTH_TOKEN_COOKIE_KEY ++ '=' :: cookie.token ++ "; HttpOnly; Path=/; Max-Age=".toList ++
    (toString cookie.maxAge).toList

-- `cookie.trim().split_once('=')`.
def cookiePair (cookie : Str) : Option (Str × Str) :=
  Trim.splitOnce '=' (trim cookie)

def parseCookieValue (cookies targetName : Str) : Option Str :=
  let pairs := (cookies.splitOn ';').filterMap cookiePair
  (pairs.find? fun pair => trim pair.1 = targetName).map fun pair => trim pair.2

-- `HeaderValue::to_str`. A header value stands for its bytes, each as the character of
-- that number.
def headerStr (value : Str) : Option Str :=
  if value.all isVisibleAscii then some value else none

-- The values of the `Cookie` fields, in their order. `get` takes the first one.
def extractTokenFromCookies (cookieFields : List Str) : Except SapsError (Option Str) :=
  match cookieFields.head? with
  | none => .ok none
  | some cookieHeader =>
    match headerStr cookieHeader with
    | none => .error (.unauthorized "Invalid cookie format".toList)
    | some cookiesStr => .ok (parseCookieValue cookiesStr AUTH_TOKEN_COOKIE_KEY)

namespace Cookies

-- What a client keeps of a `Set-Cookie`: the pair in front of the attributes.
def stored (setCookie : Str) : Option (Str × Str) :=
  (Trim.splitOnce '=' (setCookie.takeWhile (· ≠ ';'))).map fun pair => (trim pair.1, trim pair.2)

-- One cookie of a request, with the blanks around its name and its value. Some cookies
-- have no value.
structure Crumb where
  name : Str
  value : Option Str
  name_plain : '=' ∉ name ∧ ';' ∉ name
  value_plain : ∀ text ∈ value, ';' ∉ text

def Crumb.text (crumb : Crumb) : Str :=
  match crumb.value with
  | some value => crumb.name ++ '=' :: value
  | none => crumb.name

def Crumb.isAuth (crumb : Crumb) : Bool :=
  crumb.value.isSome ∧ trim crumb.name = AUTH_TOKEN_COOKIE_KEY

-- One `Cookie` field.
def fieldText (field : List Crumb) : Str :=
  [';'].intercalate (field.map Crumb.text)

-- A character of a token.
def isTokenChar (c : Char) : Bool :=
  c.isAlphanum ∨ c ∈ ['_', '.', '-']

-- The pair that the client stored is sent back, in whatever field.
def Crumb.Returns (crumb : Crumb) (token : Str) : Prop :=
  ∃ value, crumb.value = some value ∧
    stored (AuthTokenCookie.yieldCookieString token).text = some (trim crumb.name, trim value)

-- The auth cookie is in the request, once, among any other cookies.
def Carries (token : Str) (fields : List (List Crumb)) : Prop :=
  ∃ auth : Crumb, auth.Returns token ∧ fields.flatten.filter Crumb.isAuth = [auth]

def Lacks (fields : List (List Crumb)) : Prop :=
  fields.flatten.filter Crumb.isAuth = []

-- The first field is text that `to_str` takes.
def Readable (fields : List (List Crumb)) : Prop :=
  ∀ first ∈ fields.head?, (fieldText first).all isVisibleAscii = true

def AuthFirst (fields : List (List Crumb)) : Prop :=
  ∃ first ∈ fields.head?, ∃ crumb ∈ first, crumb.isAuth = true

end Cookies

end Saps.Auth
