import Bloomd.Basic
import Mathlib.Data.List.Basic

/-! Filter names and the paths built from them (`util.c` and the path checks of
`daemon.c`). -/

namespace Bloomd

def slash : UInt8 := 47

def dot : UInt8 := 46

/-- The character class `[A-Za-z0-9_-]`. -/
def nameChar (char : UInt8) : Bool :=
  (97 ≤ char && char ≤ 122) || (65 ≤ char && char ≤ 90) || (48 ≤ char && char ≤ 57) ||
    char == 45 || char == 95

/-- `bloomd_name_is_valid` -/
def nameIsValid (name : Bytes) : Bool :=
  name.length != 0 && name.length ≤ maxNameLen && name.all nameChar

/-- The text that `snprintf` prints for `"%s/%s%s"`. -/
def joined (root leaf suffix : Bytes) : Bytes := root ++ slash :: (leaf ++ suffix)

/-- `bloomd_join_path` -/
def joinPath (root leaf suffix : Bytes) : Except Errno Bytes :=
  if pathMax ≤ (joined root leaf suffix).length then .error .enametoolong
  else .ok (joined root leaf suffix)

/-- `bloomd_build_pin_path` -/
def buildPinPath (root name : Bytes) : Except Errno Bytes := joinPath root name []

/-- `bloomd_build_meta_path` -/
def buildMetaPath (root name : Bytes) : Except Errno Bytes := joinPath root name (bytes ".meta")

/-- `bloomd_build_log_path` -/
def buildLogPath (root name : Bytes) : Except Errno Bytes := joinPath root name (bytes ".digests")

/-- `bloomd_has_suffix` -/
def hasSuffix (name suffix : Bytes) : Bool :=
  if name.length < suffix.length then false
  else name.drop (name.length - suffix.length) == suffix

/-- `bloomd_meta_entry_name` -/
def metaEntryName (entry : Bytes) : Except Errno Bytes :=
  if !hasSuffix entry (bytes ".meta") then .error .einval
  else
    let length := entry.length - (bytes ".meta").length
    if length = 0 ∨ maxNameLen < length then .error .einval
    else if nameIsValid (entry.take length) then .ok (entry.take length)
    else .error .einval

/-- `bloomd_path_has_name`: the text after the last slash, if there is one. -/
def pathHasName (path name : Bytes) : Bool :=
  slash ∈ path && (path.splitOn slash).getLast? == some name

/-- `bloomd_path_under_root` -/
def pathUnderRoot (path root : Bytes) : Bool :=
  root.isPrefixOf path &&
    match path[root.length]? with
    | some next => next == slash
    | none => true

/-- `bloomd_assign_filter_paths` -/
def assignFilterPaths (config : Config) (record : FilterMeta) : Except Errno FilterMeta := do
  let metaPath ← buildMetaPath config.metaRoot record.name
  let logPath ← buildLogPath config.metaRoot record.name
  let pinPath ← buildPinPath config.pinRoot record.name
  return { record with metaPath, logPath, pinPath }

/-- Where a path leads -/
structure Loc where
  absolute : Bool
  parts : List Bytes
  deriving DecidableEq, Repr

/-- One component further on the way. Repeated and trailing slashes and single dots do not
matter, and two dots lead back, from the root to itself. -/
def enter (absolute : Bool) (parts : List Bytes) (component : Bytes) : List Bytes :=
  if component = [] ∨ component = [dot] then parts
  else if component = [dot, dot] ∧ (absolute ∨ parts ≠ [] ∧ parts.getLast? ≠ some [dot, dot]) then parts.dropLast
  else parts ++ [component]

/-- The directories on the way are taken to be there, and no link is followed. -/
def resolve (path : Bytes) : Loc where
  absolute := path.head? == some slash
  parts := (path.splitOn slash).foldl (enter (path.head? == some slash)) []

/-- The last component, the name of a directory entry. -/
def Loc.leaf (loc : Loc) : Bytes := loc.parts.getLast?.getD []

def Loc.child (dir : Loc) (leaf : Bytes) : Loc := ⟨dir.absolute, dir.parts ++ [leaf]⟩

/-- The entry of a directory through which a place below it is reached -/
def Loc.entryBelow (dir loc : Loc) : Option Bytes :=
  if dir.absolute = loc.absolute ∧ dir.parts <+: loc.parts then loc.parts[dir.parts.length]? else none

end Bloomd
