/-
  Browsing and creating folders under the policy of the host (folders.py,
  `FolderService`).

  The host's helpers are parameters; each answers, or raises.  A handle is the directory
  it was opened at.
-/
import MercuryRelay.Folders.Disk
import MercuryRelay.Python.Json
import MercuryRelay.MethodPolicy
import Mathlib.Data.List.Sort

set_option autoImplicit false

namespace MercuryRelay

open Python Effect Effect.Program

namespace Folders

def maxFolderEntries : ℕ := 500
def maxFolderScanEntries : ℕ := maxFolderEntries + 1
def maxFolderPathChars : ℕ := 1024
def maxFolderNameBytes : ℕ := 255
def maxFolderListingBytes : ℕ := 1024 * 1024

/-- What a request raises: a `SessionReadsError`, or the error of the encoder. -/
inductive Fault where
  | reads (reason : Str)
  | unicode
  deriving DecidableEq

def notAvailable : Fault := .reads (lit "folder_not_available")
def invalidParams : Fault := .reads (lit "invalid_params")
def tooLarge : Fault := .reads (lit "response_too_large")

/-- `_ManagedFilesPolicy`. -/
structure Policy where
  defaultPath : Path
  lockedRoot : Option Path
  canChangePath : Bool

/-- The helpers of the host; `none` where one raises. -/
structure Helpers where
  profileDir : Str → Option Path
  isSensitive : Path → Option Bool
  /-- `some none` is a path that is not absolute -/
  canonical : FileSystem → Path → Option (Option Path)
  /-- what `_as_policy` makes of the answer -/
  managedPolicy : Option Policy
  isUnder : Path → Path → Option Bool

/-- The host, and the bounds of its interpreter. -/
structure Service where
  /-- `helpers_factory`, with the reason of a `SessionReadsError`; an exception of another kind
      is a `folders_unavailable` -/
  helpersFactory : Except Str Helpers
  /-- `_require_secure_adapter` passes -/
  secureAdapter : Bool
  /-- `str.casefold` -/
  casefold : Str → Str
  depths : JsonDepths := ⟨900, 900⟩
  fails : List Operation → Bool

/-! ## Names and paths -/

/-- `_path_units`; `none` is the `UnicodeEncodeError` of a surrogate. -/
def pathUnits (raw : Str) : Option ℕ :=
  if raw.all fun c => !(0xD800 ≤ c && c ≤ 0xDFFF) then
    some ((raw.map fun c => if 0x10000 ≤ c then 2 else 1).sum)
  else none

/-- No control character, and no backslash. -/
def isPlain (raw : Str) : Bool := raw.all fun c => !(c < 32 || c = 127) && c ≠ 92

/-- `validate_path`. -/
def validatePath (raw : Json) : Except Fault Path :=
  match raw with
  | .str raw =>
    match pathUnits raw with
    | none => .error invalidParams
    | some units =>
      if ¬ (1 ≤ units ∧ units ≤ maxFolderPathChars ∧ isPlain raw) then .error invalidParams
      else if raw.head? ≠ some 47 ∨ [47, 47] <:+: raw ∨ lit "." ∈ raw.splitOn 47 ∨ lit ".." ∈ raw.splitOn 47 then
        .error invalidParams
      else .ok (pathOf raw)
  | _ => .error invalidParams

/-- `validate_name`. -/
def validateName (raw : Json) : Except Fault Component :=
  match raw with
  | .str raw =>
    match utf8 raw with
    | none => .error invalidParams
    | some octets =>
      if ¬ (1 ≤ octets.length ∧ octets.length ≤ maxFolderNameBytes ∧ isPlain raw) then .error invalidParams
      else match component raw with
        | none => .error invalidParams
        | some name => .ok name
  | _ => .error invalidParams

/-! ## Checks -/

section Checks

variable (helpers : Helpers) (policy : Policy)

/-- `_under`. -/
def under (root target : Path) : Except Fault Bool :=
  match helpers.isUnder root target with
  | some answer => .ok answer
  | none => .error notAvailable

/-- `_sensitive`. -/
def sensitive (target : Path) : Except Fault Bool :=
  match helpers.isSensitive target with
  | some answer => .ok answer
  | none => .error notAvailable

/-- The path is under the locked root, if there is one. -/
def requireUnder (target : Path) : Except Fault Unit :=
  match policy.lockedRoot with
  | none => .ok ()
  | some root => (under helpers root target).bind fun answer => if answer then .ok () else .error notAvailable

def requireInsensitive (target : Path) : Except Fault Unit :=
  (sensitive helpers target).bind fun answer => if answer then .error notAvailable else .ok ()

/-- The path that a request is about. -/
def candidateOf (raw : Json) (allowDefault : Bool) : Except Fault Path :=
  match raw with
  | .null =>
    if allowDefault then .ok (policy.lockedRoot.getD policy.defaultPath) else .error invalidParams
  | raw =>
    (validatePath raw).map fun requested =>
      match policy.lockedRoot with
      | some root => if requested = [] then root else requested
      | none => requested

/-- The canonical path has a length that a request may have. -/
def requireShort (target : Path) : Except Fault Unit :=
  match pathUnits (text target) with
  | none => .error .unicode
  | some units => if units > maxFolderPathChars then .error notAvailable else .ok ()

end Checks

/-! ## Requests -/

/-- A directory that is listed. -/
structure Entry where
  name : Component
  path : Path

structure Listing where
  path : Path
  parent : Option Path
  root : Option Path
  canChangePath : Bool
  entries : List Entry

section Requests

variable (service : Service) (helpers : Helpers) (policy : Policy)

/-- `_context`. -/
def context (profile : Str) : Program Disk Fault (Helpers × Policy) := do
  if ¬ validateProfileId profile then fail (.reads (lit "profile_not_available"))
  else
    match service.helpersFactory with
    | .error reason => fail (.reads reason)
    | .ok helpers =>
      if ¬ service.secureAdapter then fail (.reads (lit "folders_unavailable"))
      else
        match helpers.profileDir profile with
        | none => fail (.reads (lit "profile_not_available"))
        | some path =>
          (openNofollow service.fails (.openProfile path) path).rescue fun _ =>
            fail (.reads (lit "profile_not_available"))
          match helpers.managedPolicy with
          | none => fail (.reads (lit "folders_unavailable"))
          | some policy => pure (helpers, policy)

/-- `_open_existing_directory`. -/
def openExistingDirectory (path : Path) : Program Disk Fault Unit :=
  (openNofollow service.fails (.openDirectory path) path).rescue fun _ => fail notAvailable

/-- The canonical path of a candidate. -/
def canonicalPath (candidate : Path) : Program Disk Fault Path := do
  let disk ← state
  match helpers.canonical disk.fs candidate with
  | some (some target) => pure target
  | _ => fail notAvailable

/-- `_resolve_existing`. -/
def resolveExisting (raw : Json) (allowDefault : Bool) : Program Disk Fault Path := do
  let candidate ← lift (candidateOf policy raw allowDefault)
  lift (requireUnder helpers policy candidate)
  lift (requireInsensitive helpers candidate)
  openExistingDirectory service candidate
  let target ← canonicalPath helpers candidate
  lift (requireShort target)
  lift (requireUnder helpers policy target)
  lift (requireInsensitive helpers target)
  openExistingDirectory service target
  pure target

/-- What a name of a scan comes to: nothing, if it is not a directory to be shown. -/
def scanEntry (target : Path) (name : Component) : Program Disk Fault (Option Entry) := do
  if (utf8 name.1).isNone then fail notAvailable
  else
    match ← (lstat service.fails (target ++ [name])).attempt with
    | .error .notFound => pure none
    | .error _ => fail notAvailable
    | .ok .link => pure none
    | .ok .other => pure none
    | .ok .directory =>
      match pathUnits (text (target ++ [name])) with
      | none => fail .unicode
      | some units =>
        if units > maxFolderPathChars then fail tooLarge
        else
          let hidden ← lift (sensitive helpers (target ++ [name]))
          if hidden then pure none else pure (some ⟨name, target ++ [name]⟩)

/-- The loop over the names of a directory. -/
def scanEntries (target : Path) : List Component → ℕ → List Entry → Program Disk Fault (List Entry)
  | [], _, entries => do
    (next service.fails target).rescue fun _ => fail notAvailable
    pure entries
  | name :: names, scanned, entries => do
    (next service.fails target).rescue fun _ => fail notAvailable
    if scanned + 1 > maxFolderScanEntries then fail tooLarge
    else
      match ← scanEntry service helpers target name with
      | none => scanEntries target names (scanned + 1) entries
      | some entry =>
        if entries.length + 1 > maxFolderEntries then fail tooLarge
        else scanEntries target names (scanned + 1) (entries ++ [entry])

/-- The order of the entries: by the folded name, then by the name. -/
def entryLe (a b : Entry) : Bool :=
  let folded := service.casefold a.name.1
  let folded' := service.casefold b.name.1
  if folded = folded' then strLe a.name.1 b.name.1 else strLe folded folded'

/-- `_metadata`, with the entries. -/
def listing (target : Path) (entries : List Entry) : Listing where
  path := target
  parent := if target = [] ∨ policy.lockedRoot = some target then none else some target.dropLast
  root := policy.lockedRoot
  canChangePath := policy.canChangePath
  entries := entries

/-- The result of a request. -/
def Listing.json (l : Listing) : Json :=
  let path (p : Option Path) : Json := (p.map fun p => Json.str (text p)).getD .null
  .obj [(lit "path", .str (text l.path)), (lit "parent", path l.parent), (lit "root", path l.root),
    (lit "locked_root", path l.root), (lit "can_change_path", .bool l.canChangePath),
    (lit "entries", .arr (l.entries.map fun entry => .obj [(lit "name", .str entry.name.1),
      (lit "path", .str (text entry.path)), (lit "is_dir", .bool true)]))]

/-- `_bound_listing`. -/
def boundListing (l : Listing) : Except Fault Listing :=
  match (dumps service.depths compactUnicode l.json).bind utf8 with
  | none => .error notAvailable
  | some octets => if octets.length > maxFolderListingBytes then .error tooLarge else .ok l

/-- `_list_target`. -/
def listTarget (target : Path) : Program Disk Fault Listing := do
  openExistingDirectory service target
  let names ← (scandir service.fails target).rescue fun _ => fail notAvailable
  let entries ← scanEntries service helpers target names 0 []
  lift (boundListing service (listing policy target (entries.mergeSort (entryLe service))))

/-- `list_folders`. -/
def listFolders (profile : Str) (path : Json) : Program Disk Fault Listing := do
  let (helpers, policy) ← context service profile
  let target ← resolveExisting service helpers policy path true
  listTarget service helpers policy target

/-- What is of the name in the parent, after it was made if there was nothing. -/
def makeOrFind (parent target : Path) : Program Disk OsFault Kind := do
  match ← (lstat service.fails target).attempt with
  | .ok kind => pure kind
  | .error .notFound =>
    match ← (mkdir service.fails target).attempt with
    | .ok _ =>
      let _ ← (fsync service.fails parent).attempt
      lstat service.fails target
    | .error .exists => lstat service.fails target
    | .error fault => fail fault
  | .error fault => fail fault

/-- The part of `create_folder` that may change the file system. -/
def makeChild (parent target : Path) : Program Disk Fault Unit := do
  match ← (makeOrFind service parent target).attempt with
  | .ok .directory => pure ()
  | .ok .link => fail notAvailable
  | .ok .other => fail (.reads (lit "folder_exists"))
  | .error _ => fail (.reads (lit "folder_create_failed"))

/-- The checks of the final path, before anything is made. -/
def checkTarget (target : Path) : Except Fault Unit := do
  let _ ← validatePath (.str (text target))
  requireInsensitive helpers target
  requireUnder helpers policy target

/-- `create_folder`. -/
def createFolder (profile : Str) (parentPath name : Json) : Program Disk Fault Listing := do
  let (helpers, policy) ← context service profile
  let parent ← resolveExisting service helpers policy parentPath false
  let name ← lift (validateName name)
  lift (checkTarget helpers policy (parent ++ [name]))
  openExistingDirectory service parent
  makeChild service parent (parent ++ [name])
  let created ← resolveExisting service helpers policy (.str (text (parent ++ [name]))) false
  listTarget service helpers policy created

end Requests

end Folders

end MercuryRelay
