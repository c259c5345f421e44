import FederatedMock.Url.Host

namespace FederatedMock

inductive UrlPath where
  | opaquePath (text : String)
  | segments (parts : List String)
deriving DecidableEq, Repr

structure Url where
  scheme : String
  username : String
  password : String
  host : Option Url.Host
  port : Option Nat
  path : UrlPath
  query : Option String
  fragment : Option String
deriving DecidableEq, Repr

namespace Url

def specialPort? (scheme : String) : Option Nat :=
  match scheme with
  | "http" | "ws" => some 80
  | "https" | "wss" => some 443
  | "ftp" => some 21
  | _ => none

def isSpecial (scheme : String) : Bool :=
  scheme == "file" || (specialPort? scheme).isSome

def UrlPath.text : UrlPath → String
  | .opaquePath s => s
  | .segments parts => parts.foldl (fun text part => text ++ "/" ++ part) ""

private def prefixed (mark : String) : Option String → String
  | some s => mark ++ s
  | none => ""

private def credentials (u : Url) : String :=
  if u.username.isEmpty && u.password.isEmpty then ""
  else u.username ++ (if u.password.isEmpty then "" else ":" ++ u.password) ++ "@"

def pathAndQuery (u : Url) : String :=
  let path := UrlPath.text u.path
  (if path.isEmpty then "/" else path) ++ prefixed "?" u.query

def render (u : Url) : String :=
  let authority := match u.host with
    | some host => "//" ++ credentials u ++ host.text ++ prefixed ":" (u.port.map toString)
    | none =>
      match u.path with
      | .segments ("" :: _ :: _) => "/."
      | _ => ""
  u.scheme ++ ":" ++ authority ++ UrlPath.text u.path ++ prefixed "?" u.query ++
    prefixed "#" u.fragment

end Url

end FederatedMock
