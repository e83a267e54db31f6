import Precall.Lib.Text
import Precall.Proto.Metadata

namespace Precall.Client

open TextLib Precall.Proto

/-!
# The foreground window and the privacy gate

`precall-client/src/meta.rs` and `privacy.rs`.  What the operating system answers about the
foreground window is a `Window`, what UI Automation finds in it a list of `EditControl`s.

* `foregroundMeta` — the snapshot a record is built from; it fills neither `urls` nor `files`;
* `browserUrl` — the address bar, read separately;
* `Exclusions`, `check` — the gate, which decides on the snapshot.
-/

/-! ### The foreground window -/

/-- The corners of a window on the screen. -/
structure WindowBounds where
  left : Int := 0
  top : Int := 0
  right : Int := 0
  bottom : Int := 0
  deriving DecidableEq, Repr

/-- What the operating system says about the foreground window.  `process` is nothing when the
    process cannot be opened; its parts are the image path and the application id. -/
structure Window where
  hwnd : Int
  title : String
  bounds : WindowBounds
  pid : UInt32
  process : Option (Option String × Option String)
  windowAumid : Option String
  affinity : Option UInt32
  deriving DecidableEq, Repr

/-- Everything Recall records for the window under capture, with the defaults of a window that
    says nothing. -/
structure WindowMeta where
  hwnd : Int := 0
  title : String := ""
  bounds : WindowBounds := {}
  isForeground : Bool := false
  processName : String := ""
  processPath : String := ""
  pid : UInt32 := 0
  aumid : Option String := none
  urls : List WebRecord := []
  files : List FileRecord := []
  deriving DecidableEq, Repr

/-- The separator of Windows paths. -/
def isBackslash (c : Char) : Bool := c == '\\'

/-- Both separators, as file names may come with either. -/
def isPathSep (c : Char) : Bool := c == '\\' || c == '/'

namespace WindowMeta

/-- `Name` column: `{process_name} ({pid})`. -/
def captureName (m : WindowMeta) : String := m.processName ++ " (" ++ toString m.pid ++ ")"

/-- How to start the application again, if it has an application id. -/
def activationUri (m : WindowMeta) : Option String := m.aumid.map ("shell:AppsFolder\\" ++ ·)

/-- Where its executable lies, if that is known. -/
def fallbackUri (m : WindowMeta) : Option String :=
  if m.processPath = "" then none else some ("file:///" ++ replaceChar '\\' '/' m.processPath)

/-- The application of the window, if its process has a name. -/
def appRecord (m : WindowMeta) : Option AppRecord :=
  if m.processName = "" then none
  else some {
    windowsAppId := m.aumid
    name := m.processName
    path := if m.processPath = "" then none else some m.processPath }

end WindowMeta

section
variable [TextTables]

/-- `foreground_meta` — snapshot the foreground window; the process name is the last piece of its
    image path. -/
def foregroundMeta (w : Window) : WindowMeta :=
  let path := (w.process.bind Prod.fst).getD ""
  { hwnd := w.hwnd
    title := w.title
    bounds := w.bounds
    isForeground := true
    processName := TextTables.toLowercase (lastPiece isPathSep path)
    processPath := path
    pid := w.pid
    aumid := (w.process.bind Prod.snd).or w.windowAumid }

end

/-- `is_protected_window` — any display affinity that can be read and is not zero; one that
    cannot be read does not protect. -/
def isProtectedWindow (w : Window) : Bool :=
  match w.affinity with
  | some affinity => affinity != 0
  | none => false

/-! ### The address bar and Explorer -/

/-- An edit control of a window: its name, and its text if it has a value pattern. -/
structure EditControl where
  name : String
  value : Option String
  deriving DecidableEq, Repr

section
variable [TextTables]

/-- `url_host` — what stands between the scheme, if it is there in lower case, and the first
    delimiter, in lower case. -/
def urlHost (url : String) : String :=
  let s := ((stripPrefix? url "http://").or (stripPrefix? url "https://")).getD url
  TextTables.toLowercase
    (firstPiece (fun c => c == '/' || c == '?' || c == '#' || c == ':') s)

/-- The record of one edit control, if its name is that of an address bar and its text looks like
    an address with a host. -/
def webOfControl (el : EditControl) : Option WebRecord :=
  let lname := TextTables.toLowercase el.name
  if !(contains lname "address" || contains lname "url" || contains lname "search") then none
  else match el.value with
    | none => none
    | some url =>
      -- anything with a dot counts as an address
      if startsWith url "http://" || startsWith url "https://" || contains url "." then
        if urlHost url = "" then none else some { domain := urlHost url, uri := url }
      else none

/-- `browser_url` — the first hit is the address bar; the others are not looked at. -/
def browserUrl (edits : List EditControl) : List WebRecord :=
  (edits.findSome? webOfControl).toList

end

/-- The record of one Explorer window open at `url`, if that is a file address. -/
def fileOfLocation (url : String) : Option FileRecord :=
  (stripPrefix? url "file:///").map fun rest =>
    let path := replaceChar '/' '\\' rest
    let name := lastPiece isBackslash path
    { name := name
      path := trimEnd isBackslash path
      extension := if contains name "." then some (lastPiece (· == '.') name) else none
      kind := some "folder" }

/-- `explorer_paths` over the locations of the open shell windows. -/
def explorerPaths (locations : List String) : List FileRecord := locations.filterMap fileOfLocation

/-! ### The gate -/

/-- The exclusion lists in force: process names and domains, both in lower case. -/
structure Exclusions where
  processes : List String
  domains : List String
  deriving DecidableEq, Repr

section
variable [TextTables]

namespace Exclusions

/-- `Exclusions::new`, which takes the lists in any case. -/
def new (processes domains : List String) : Exclusions where
  processes := processes.map TextTables.toLowercase
  domains := domains.map TextTables.toLowercase

/-- `Exclusions::process_excluded` — a process is excluded by its name, or by a path that ends in
    it behind a separator. -/
def processExcluded (ex : Exclusions) (name : String) : Bool :=
  let n := TextTables.toLowercase name
  ex.processes.any fun p => n == p || endsWith n ("\\" ++ p) || endsWith n ("/" ++ p)

/-- `Exclusions::domain_excluded` — a host is excluded by a domain that it is, or lies under. -/
def domainExcluded (ex : Exclusions) (host : String) : Bool :=
  let h := TextTables.toLowercase host
  ex.domains.any fun d => h == d || endsWith h ("." ++ d)

end Exclusions

/-- Why a capture was dropped; only a missing window is not counted as a matter of privacy. -/
inductive DropReason where
  | paused
  | protectedWindow
  | excludedProcess
  | excludedDomain
  | noWindow
  deriving DecidableEq, Repr

/-- `check` — should this capture be dropped? The first reason that applies is the answer. -/
def check (paused : Bool) (windowMeta : Option WindowMeta) (ex : Exclusions)
    (protectedHwnd : Bool) : Option DropReason :=
  if paused then some .paused
  else match windowMeta with
    | none => some .noWindow
    | some m =>
      if protectedHwnd then some .protectedWindow
      else if ex.processExcluded m.processName then some .excludedProcess
      else if m.urls.any fun w => ex.domainExcluded w.domain then some .excludedDomain
      else none

/-- The gate opens for a snapshot exactly if the client runs, the window asks for no protection
    and neither the process nor an address in the snapshot is excluded. -/
theorem check_eq_none {paused protectedHwnd : Bool} {m : WindowMeta} {ex : Exclusions} :
    check paused (some m) ex protectedHwnd = none ↔
      paused = false ∧ protectedHwnd = false ∧ ex.processExcluded m.processName = false ∧
        ∀ w ∈ m.urls, ex.domainExcluded w.domain = false := by
  unfold check
  cases paused with
  | true => simp
  | false =>
    cases protectedHwnd with
    | true => simp
    | false => cases hprocess : ex.processExcluded m.processName <;> simp [hprocess]

end

end Precall.Client
