import Kwiry.Foundations.Markers
import Kwiry.Foundations.Words

/-!
# Service Definitions

The service is defined to systemd by a unit file and to the Task Scheduler by the fields of an XML
task. Both name three paths, which each writer escapes for its reader.
-/

namespace Kwiry.Service

open Foundations

/-! ## §1 The specification -/

structure ServiceSpec where
  (executable config dataDir : Text)

/-- The paths with their names in errors. -/
def ServiceSpec.labelled (spec : ServiceSpec) : List (String × Text) :=
  [("executable", spec.executable), ("configuration", spec.config),
    ("data directory", spec.dataDir)]

/-- An absolute path of Linux. -/
def isAbsolute (path : Text) : Bool := path.head? = some '/'

def ServiceSpec.validate (spec : ServiceSpec) : Except Text Unit :=
  match spec.labelled.find? fun p => !isAbsolute p.2 with
  | some (label, path) =>
    .error (("invalid service specification: " ++ label ++ " path must be absolute: ").toList ++
      path)
  | none => .ok ()

/-! ## §2 The unit -/

def hexDigit (n : ℕ) : Char := ("0123456789abcdef".toList).getD n '0'

/-- A byte as `\xHH`. -/
def hexEscape (b : UInt8) : Text :=
  ['\\', 'x', hexDigit (b.toNat / 16), hexDigit (b.toNat % 16)]

/-- The control characters: the general category `Cc`. -/
def isControl (c : Char) : Bool := c.toNat < 0x20 ∨ 0x7f ≤ c.toNat ∧ c.toNat < 0xa0

def quoteSystemdChar (c : Char) : Text :=
  if c = '"' then "\\\"".toList
  else if c = '\\' then "\\\\".toList
  else if c = '%' then "%%".toList
  else if c = '$' then "$$".toList
  else if c = '\n' then "\\n".toList
  else if c = '\r' then "\\r".toList
  else if c = '\t' then "\\t".toList
  else if isControl c then (utf8 [c]).flatMap hexEscape
  else [c]

def quoteSystemdArgument (path : Text) : Text :=
  '"' :: path.flatMap quoteSystemdChar ++ ['"']

def generatedHeader : Text := "# Managed by kwiry (service unit schema 1).\n".toList

def unitDescription : Text := "Kwiry knowledge workspace search daemon".toList

/-- The value of `ExecStart`. -/
def execStart (spec : ServiceSpec) : Text :=
  quoteSystemdArgument spec.executable ++ " \"--config\" ".toList ++
    quoteSystemdArgument spec.config ++ " \"--data-dir\" ".toList ++
    quoteSystemdArgument spec.dataDir ++ " \"serve\"".toList

/-- The lines of the unit before the command. -/
def unitFront : Text :=
  generatedHeader ++ "[Unit]\nDescription=".toList ++ unitDescription ++
    "\n\n[Service]\nType=simple".toList

/-- The lines of the unit after the command. -/
def unitBack : Text :=
  "Restart=on-failure\nRestartSec=5s\nUMask=0077\nNoNewPrivileges=true\n\n".toList ++
    "[Install]\nWantedBy=default.target\n".toList

def renderUnit (spec : ServiceSpec) : Except Text Text := do
  spec.validate
  return unitFront ++ '\n' :: (("ExecStart=".toList ++ execStart spec) ++ '\n' :: unitBack)

/-! ## §3 The task -/

def isWindowsAbsolute (path : Text) : Bool :=
  (match path with
    | drive :: colon :: slash :: _ =>
      drive.isAlpha && colon = ':' && (slash = '\\' || slash = '/')
    | _ => false) ||
    "\\\\".toList.isPrefixOf path || "//".toList.isPrefixOf path

/-- A path that the platform or Windows takes for absolute. -/
def absolutePathText (isAbsolute : Text → Bool) (path : Text) (label : String) : Except Text Text :=
  if !isAbsolute path && !isWindowsAbsolute path then
    .error ("Kwiry service " ++ label ++ " path must be absolute").toList
  else .ok path

/-- The body of a quoted argument; the number is the backslashes that are held back. -/
def quoteWindowsBody : ℕ → Text → Text
  | backslashes, [] => List.replicate (backslashes * 2) '\\'
  | backslashes, c :: rest =>
    if c = '\\' then quoteWindowsBody (backslashes + 1) rest
    else if c = '"' then
      List.replicate (backslashes * 2 + 1) '\\' ++ '"' :: quoteWindowsBody 0 rest
    else List.replicate backslashes '\\' ++ c :: quoteWindowsBody 0 rest

def quoteWindowsArgument (value : Text) : Text :=
  '"' :: quoteWindowsBody 0 value ++ ['"']

/-- The command and the arguments of the task. -/
def taskActionFields (isAbsolute : Text → Bool) (spec : ServiceSpec) :
    Except Text (Text × Text) := do
  let executable ← absolutePathText isAbsolute spec.executable "executable"
  let config ← absolutePathText isAbsolute spec.config "configuration file"
  let dataDir ← absolutePathText isAbsolute spec.dataDir "data directory"
  return (executable, joinWith [' '] ["--config".toList, quoteWindowsArgument config,
    "--data-dir".toList, quoteWindowsArgument dataDir, "serve".toList])

def xmlEscapeChar (c : Char) : Text :=
  if c = '&' then "&amp;".toList
  else if c = '<' then "&lt;".toList
  else if c = '>' then "&gt;".toList
  else if c = '"' then "&quot;".toList
  else if c = '\'' then "&apos;".toList
  else [c]

def xmlEscape (value : Text) : Text := value.flatMap xmlEscapeChar

end Kwiry.Service
