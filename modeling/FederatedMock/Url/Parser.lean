import FederatedMock.Url.Basic

namespace FederatedMock.Url

private def isControlOrSpace (c : Char) : Bool :=
  c.toNat ≤ 32

def clean (cs : List Char) : List Char :=
  let trimmed := (cs.dropWhile isControlOrSpace).reverse.dropWhile isControlOrSpace
  trimmed.reverse.filter fun c => c != '\t' && c != '\n' && c != '\r'

private def isSchemeChar (c : Char) : Bool :=
  c.isAlphanum || c == '+' || c == '-' || c == '.'

def splitScheme? (cs : List Char) : Option (String × List Char) :=
  if cs.head?.any Char.isAlpha then
    let (name, rest) := cs.span isSchemeChar
    match rest with
    | ':' :: rest => some (String.ofList (name.map Char.toLower), rest)
    | _ => none
  else none

private def endsAuthority (special : Bool) (c : Char) : Bool :=
  c == '/' || c == '?' || c == '#' || (special && c == '\\')

private def splitAt? (mark : Char) (cs : List Char) : List Char × Option (List Char) :=
  match cs.span (· != mark) with
  | (front, _ :: back) => (front, some back)
  | (front, []) => (front, none)

private def splitTail (cs : List Char) : List Char × Option (List Char) × Option (List Char) :=
  let (cs, fragment) := splitAt? '#' cs
  let (cs, query) := splitAt? '?' cs
  (cs, query, fragment)

private def withTail (u : Url) (query fragment : Option (List Char)) : Url :=
  let set := if isSpecial u.scheme then EscapeSet.specialQuery else EscapeSet.query
  { u with
    query := query.map (escape set)
    fragment := fragment.map (escape .fragment) }

private def isSingleDot (segment : String) : Bool :=
  [".", "%2e", "%2E"].contains segment

private def isDoubleDot (segment : String) : Bool :=
  ["..", ".%2e", ".%2E", "%2e.", "%2E.", "%2e%2e", "%2e%2E", "%2E%2e", "%2E%2E"].contains segment

private def isDrive (cs : List Char) : Bool :=
  match cs with
  | [letter, mark] => letter.isAlpha && (mark == ':' || mark == '|')
  | _ => false

private def shorten (file : Bool) (path : List String) : List String :=
  match path with
  | [only] => if file && isDrive only.toList then path else []
  | path => path.dropLast

private def addSegments (file : Bool) : List String → List (List Char) → List String
  | path, [] => path
  | path, [last] =>
    let segment := escape .path last
    if isDoubleDot segment then shorten file path ++ [""]
    else if isSingleDot segment then path ++ [""]
    else path ++ [driveSegment file path segment]
  | path, part :: rest =>
    let segment := escape .path part
    if isDoubleDot segment then addSegments file (shorten file path) rest
    else if isSingleDot segment then addSegments file path rest
    else addSegments file (path ++ [driveSegment file path segment]) rest
where
  driveSegment (file : Bool) (path : List String) (segment : String) : String :=
    if file && path.isEmpty && isDrive segment.toList then
      String.ofList (segment.toList.take 1 ++ [':'])
    else segment

private def splitPath (special : Bool) (cs : List Char) : List (List Char) :=
  splitOn '/' (if special then cs.map fun c => if c = '\\' then '/' else c else cs)

private def pathStart (scheme : String) (cs : List Char) : List String :=
  let special := isSpecial scheme
  match cs with
  | [] => if special then [""] else []
  | c :: rest =>
    if c = '/' ∨ (special ∧ c = '\\') then
      addSegments (scheme == "file") [] (splitPath special rest)
    else addSegments (scheme == "file") [] (splitPath special (c :: rest))

private def parsePort (scheme : String) (cs : List Char) : Except UrlError (Option Nat) :=
  if cs.all Char.isDigit then
    let port := cs.foldl (fun n c => min 65536 (n * 10 + (c.toNat - 48))) 0
    if port > 65535 then .error .invalidPort
    else if cs.isEmpty ∨ specialPort? scheme = some port then .ok none
    else .ok (some port)
  else .error .invalidPort

private def spanHost : Bool → List Char → List Char × List Char
  | _, [] => ([], [])
  | inside, c :: rest =>
    if c = ':' ∧ ¬ inside then ([], c :: rest)
    else
      let inside := if c = '[' then true else if c = ']' then false else inside
      let (host, after) := spanHost inside rest
      (c :: host, after)

private def splitLastAt (cs : List Char) : Option (List Char × List Char) :=
  match cs.reverse.span (· != '@') with
  | (host, _ :: info) => some (info.reverse, host.reverse)
  | (_, []) => none

structure Authority where
  username : String
  password : String
  host : Host
  port : Option Nat

private def parseAuthority (scheme : String) (cs : List Char) (more : Bool) :
    Except UrlError Authority := do
  let special := isSpecial scheme
  let (info, rest) := (splitLastAt cs).getD ([], cs)
  if (splitLastAt cs).isSome && info.isEmpty && rest.isEmpty && more then throw .emptyHost
  let (user, password) := splitAt? ':' info
  let username := escape .userinfo user
  let password := escape .userinfo (password.getD [])
  let (hostText, portText) := spanHost false rest
  if special && hostText.isEmpty then throw .emptyHost
  let host ← if special then Host.parse hostText else Host.parseOpaque hostText
  if host = .domain "" ∧ ¬ portText.isEmpty then throw .emptyHost
  let port ← parsePort scheme (portText.drop 1)
  if host = .domain "" ∧ ¬ (username.isEmpty ∧ password.isEmpty) then throw .emptyHost
  return ⟨username, password, host, port⟩

private def parseHierarchical (scheme : String) (cs : List Char) : Except UrlError Url := do
  let (front, query, fragment) := splitTail cs
  let special := isSpecial scheme
  let (authority, path) := front.span (fun c => !endsAuthority special c)
  let (authority, path) :=
    if special then (authority, path)
    else
      let (host, port) := spanHost false authority
      let (digits, after) := port.span (· != '\\')
      (host ++ digits, after ++ path)
  let more := !path.isEmpty || query.isSome || fragment.isSome
  let a ← parseAuthority scheme authority more
  let url : Url :=
    ⟨scheme, a.username, a.password, some a.host, a.port, .segments (pathStart scheme path), none,
      none⟩
  return withTail url query fragment

private def fileUrl (host : Host) (path : List String) : Url :=
  ⟨"file", "", "", some host, none, .segments path, none, none⟩

private def isSlash (c : Char) : Bool :=
  c == '/' || c == '\\'

private def parseFile (cs : List Char) : Except UrlError Url := do
  let (front, query, fragment) := splitTail cs
  let path (cs : List Char) : List String := addSegments true [] (splitPath true cs)
  let url ← match front with
    | a :: b :: rest =>
      if isSlash a && isSlash b then
        let (hostText, after) := rest.span fun c => !isSlash c
        if isDrive hostText then pure (fileUrl (.domain "") (path rest))
        else if hostText.isEmpty then pure (fileUrl (.domain "") (pathStart "file" after))
        else
          let host ← Host.parse hostText
          let host := if host = .domain "localhost" then .domain "" else host
          pure (fileUrl host (pathStart "file" after))
      else pure (fileUrl (.domain "") (path (if isSlash a then b :: rest else front)))
    | [a] => pure (fileUrl (.domain "") (path (if isSlash a then [] else front)))
    | [] => pure (fileUrl (.domain "") [""])
  return withTail url query fragment

private def parseOther (scheme : String) (cs : List Char) : Except UrlError Url :=
  match cs with
  | '/' :: '/' :: rest => parseHierarchical scheme rest
  | cs =>
    let (front, query, fragment) := splitTail cs
    let path := match front with
      | '/' :: rest => UrlPath.segments (addSegments false [] (splitPath false rest))
      | front => .opaquePath (escape .control front)
    .ok (withTail ⟨scheme, "", "", none, none, path, none, none⟩ query fragment)

def parse (s : String) : Except UrlError Url :=
  match splitScheme? (clean s.toList) with
  | none => .error .relativeWithoutBase
  | some (scheme, rest) =>
    if scheme = "file" then parseFile rest
    else if isSpecial scheme then parseHierarchical scheme (rest.dropWhile isSlash)
    else parseOther scheme rest

def isValid (s : String) : Bool :=
  match parse s with
  | .ok _ => true
  | .error _ => false

/-- The location that a relative one with a path of its own, not starting at the root, names as
seen from a base: it replaces the base's last segment. -/
def join (base : Url) (relative : String) : Except UrlError Url :=
  match base.path with
  | .opaquePath _ => .error .relativeToOpaque
  | .segments parts =>
    let (front, query, fragment) := splitTail (clean relative.toList)
    let file := base.scheme == "file"
    let path := addSegments file (shorten file parts) (splitPath (isSpecial base.scheme) front)
    .ok (withTail { base with path := .segments path } query fragment)

end FederatedMock.Url
