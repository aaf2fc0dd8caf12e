import Paranoia.Lib.Decimal
import Paranoia.Lib.Search

/-!
# The managed region of the nginx configuration

The server keeps the routes of its endpoints in a configuration that is not its own, between two
markers; what is outside of these stays as it is.
-/

namespace Paranoia

namespace Nginx

def beginMarker : List Char :=
  "## >>> PARANOIA AUTOGENERATED ROUTES (managed by paranoia server; do not edit) >>>".toList

def endMarker : List Char := "## <<< PARANOIA AUTOGENERATED ROUTES <<<".toList

structure Route where
  path : List Char
  exact : Bool
deriving DecidableEq

/-- A text of these characters has as many bytes as characters. -/
def isSafePath (path : List Char) : Bool :=
  path.head? = some '/' && path.length ≤ 256
    && path.all (fun c => c.isAlphanum || c ∈ ['/', '_', '.', '-'])

def matcher (r : Route) : List Char :=
  if r.exact then "location = ".toList ++ r.path else "location ".toList ++ r.path

def proxyPass : List Char := "\n    proxy_pass http://127.0.0.1:".toList

def proxySettings : List Char :=
  ";\n    proxy_set_header Host $host;\n    proxy_set_header X-Real-IP $remote_addr;\n    ".toList ++
  "proxy_set_header X-Forwarded-For $proxy_add_x_forwarded_for;\n    ".toList ++
  "proxy_set_header X-Forwarded-Proto https;\n    proxy_http_version 1.1;\n    ".toList ++
  "proxy_buffering off;\n    proxy_ssl_verify off;\n".toList

/-- What stands between the braces. -/
def directives (port : Nat) : List Char := proxyPass ++ Decimal.numeral port ++ proxySettings

def renderRoute (port : Nat) (r : Route) : List Char :=
  matcher r ++ " \x7b".toList ++ directives port ++ "\x7d\n".toList

/-- The block with its markers. Routes that are not safe are left out. -/
def renderBlock (routes : List Route) (port : Nat) : List Char :=
  beginMarker ++ '\n' :: (routes.filter (fun r => isSafePath r.path)).flatMap (renderRoute port)
    ++ endMarker ++ ['\n']

/-- Without the newline at its beginning, if there is one. -/
def stripNewline : List Char → List Char
  | '\n' :: rest => rest
  | rest => rest

def replaceManagedRegion (existing block : List Char) : Except String (List Char) :=
  match Search.find? beginMarker existing with
  | none => .error "begin marker not found"
  | some begin =>
      match Search.find? endMarker existing with
      | none => .error "end marker not found"
      | some endMarkerPos =>
          if endMarkerPos < begin then .error "end marker precedes begin marker"
          else
            let after := stripNewline (existing.drop (endMarkerPos + endMarker.length))
            .ok (existing.take begin ++ block ++ after)

end Nginx

end Paranoia
