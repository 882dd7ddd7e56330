import Rystemd.Library.Text

namespace Rystemd

open Text

/-- An error of the operating system; `notFound` is the kind that the repository looks for. -/
inductive IoError
  | notFound
  | other (text : String)
  deriving DecidableEq

def IoError.text : IoError → String
  | .notFound => "No such file or directory (os error 2)"
  | .other text => text

inductive RepoError
  | io (e : IoError)
  | invalidName (s : String)
  | parse (line : Nat) (message : String)
  | alreadyExists (s : String)
  | notFound (s : String)
  deriving DecidableEq

def RepoError.text : RepoError → String
  | .io e => e.text
  | .invalidName s => s!"invalid unit name: {s}"
  | .parse line message => s!"line {line}: {message}"
  | .alreadyExists s => s!"unit definition already exists: {s}"
  | .notFound s => s!"unit definition not found: {s}"

inductive UnitType
  | service | timer | target | path | socket | mount | device
  deriving DecidableEq

def UnitType.fromSuffix (value : String) : Option UnitType :=
  if value = "service" then some .service
  else if value = "timer" then some .timer
  else if value = "target" then some .target
  else if value = "path" then some .path
  else if value = "socket" then some .socket
  else if value = "mount" then some .mount
  else if value = "device" then some .device
  else none

def UnitType.fromUnitName (name : String) : Option UnitType :=
  (rsplitOnce '.' name).bind fun parts ↦ fromSuffix parts.2

structure UnitEntry where
  key : String
  value : String
  deriving DecidableEq

structure UnitSection where
  name : String
  entries : List UnitEntry := []
  deriving DecidableEq

structure UnitDocument where
  sections : List UnitSection := []
  deriving DecidableEq

namespace UnitDocument

/-- Whether all characters of a key may stand in one. -/
def validKey (key : String) : Bool :=
  key ≠ "" ∧ key.toList.all fun c ↦ c.isAlphanum || c = '_' || c = '-' || c = '.'

def parseHeader (line : Nat) (trimmed rest : String) : Except RepoError UnitSection :=
  match splitOnce ']' rest with
  | none => .error (.parse line "section header missing closing `]`")
  | some (name, trailing) =>
    if trim name = "" ∨ trim trailing ≠ "" then
      .error (.parse line s!"invalid section header `{trimmed}`")
    else .ok { name := trim name }

def parseEntry (line : Nat) (trimmed : String) : Except RepoError UnitEntry :=
  match splitOnce '=' trimmed with
  | none => .error (.parse line s!"invalid line `{trimmed}`")
  | some (key, value) =>
    if validKey (trim key) then .ok { key := trim key, value := trimStart value }
    else .error (.parse line s!"invalid key `{trim key}`")

/-- One line; the entries go to the section that was opened last. -/
def parseLine (sections : List UnitSection) (raw : String × Nat) :
    Except RepoError (List UnitSection) :=
  let trimmed := trim ((stripSuffix "\r" raw.1).getD raw.1)
  let line := raw.2 + 1
  if trimmed = "" ∨ startsWith '#' trimmed ∨ startsWith ';' trimmed then .ok sections
  else match stripPrefix "[" trimmed with
    | some rest => (parseHeader line trimmed rest).map fun section_ ↦ sections ++ [section_]
    | none => (parseEntry line trimmed).bind fun entry ↦
      if sections = [] then
        .error (.parse line s!"`{entry.key}=` appears before any [Section] header")
      else .ok (sections.modifyLast fun s ↦ { s with entries := s.entries ++ [entry] })

def parse (text : String) : Except RepoError UnitDocument :=
  ((lines text).zipIdx.foldlM parseLine []).map fun sections ↦ { sections }

end UnitDocument

structure UnitDefinition where
  name : String
  kind : UnitType
  document : UnitDocument

def UnitDefinition.parse (name text : String) : Except RepoError UnitDefinition :=
  match UnitType.fromUnitName name with
  | none => .error (.invalidName s!"unit name `{name}` has no recognized unit suffix")
  | some kind => (UnitDocument.parse text).map fun document ↦ { name, kind, document }

structure RawSection where
  name : String
  entries : List (String × String)
  deriving DecidableEq

structure RawUnitFile where
  sections : List RawSection := []
  deriving DecidableEq

def fromRepositoryDocument (document : UnitDocument) : RawUnitFile where
  sections := document.sections.map fun s ↦
    { name := s.name, entries := s.entries.map fun e ↦ (e.key, e.value) }

end Rystemd
