import WorkflowEngine.Json.Reader
import WorkflowEngine.Text.Encoding
import WorkflowEngine.Text.Pieces

/-!
# Addresses of requests

The path of an address with its escapes read, and its query as pairs of name and value. Dots that
stand for the same or the next higher level are resolved before escapes are read, so an escaped dot
never climbs.
-/

namespace WorkflowEngine.Service

open Text

/-- Reads the escapes of a text. The bytes of neighbouring ASCII characters are read as UTF-8
together; `run` holds those that have been collected, the last in front. -/
def unescapeFrom (run : List UInt8) : List Char → List Char
  | [] => (utf8Lossy run.reverse).toList
  | '%' :: a :: b :: rest =>
    match Json.hexNumber? [a, b] with
    | some n => unescapeFrom (UInt8.ofNat n :: run) rest
    | none => unescapeFrom (UInt8.ofNat '%'.toNat :: run) (a :: b :: rest)
  | c :: rest =>
    if c.toNat < 0x80 then unescapeFrom (UInt8.ofNat c.toNat :: run) rest
    else (utf8Lossy run.reverse).toList ++ c :: unescapeFrom [] rest

/-- Reads the escapes of a text. -/
def unescape (cs : List Char) : List Char := unescapeFrom [] cs

/-- Resolves the dots among the levels of a path; `done` holds the levels so far, the last in
front. -/
def resolveDots (done : List (List Char)) : List (List Char) → List (List Char)
  | [] => done.reverse
  | level :: rest =>
    if level = ['.'] then resolveDots done rest
    else if level = ['.', '.'] then
      resolveDots (if done = [[]] then done else done.drop 1) rest
    else resolveDots (level :: done) rest

/-- Joins levels to a path. -/
def joinLevels (levels : List (List Char)) : List Char := ['/'].intercalate levels

/-- The path that an address names. Its escapes are read twice, by the sender and by the
receiver. -/
def pathOf (path : List Char) : List Char :=
  unescape (unescape (joinLevels (resolveDots [] (pieces '/' path))))

/-- Reads a name or a value of a query, in which a plus sign stands for a blank. -/
def unescapeQuery (cs : List Char) : String :=
  String.ofList (unescape (cs.map fun c => if c = '+' then ' ' else c))

/-- The pairs of a query. -/
def queryPairs (query : List Char) : List (String × String) :=
  ((pieces '&' query).filter fun piece => !piece.isEmpty).map fun piece =>
    let (name, value) := cutFirst '=' piece
    (unescapeQuery name, unescapeQuery (value.getD []))

/-- An address: its path and its query. -/
structure Address where
  path : List Char
  query : List (String × String)

/-- Reads an address; what stands behind a hash sign never reaches the service. -/
def Address.read (address : String) : Address :=
  let (front, _) := cutFirst '#' address.toList
  let (path, query) := cutFirst '?' front
  let path := '/' :: path.dropWhile (· == '/')
  ⟨pathOf path, queryPairs (query.getD [])⟩

/-- The value that counts of a name, which is the last one. -/
def Address.value? (a : Address) (name : String) : Option String := a.query.reverse.lookup name

end WorkflowEngine.Service
