import Precall.Lib.Paths
import Precall.Store.Objects

namespace Precall.Store

open ByteLib TextLib PathLib Precall.Proto

/-!
# Where objects lie on disk

The object store of `Store/Objects.lean` once more, with paths as the texts the code joins and
files at the places these lead to (`precall-store/src/objects.rs`; no symbolic links).

* `keyPathText`, `Site.put`, `Site.get` — `key_path`, `put` and `get`;
* `locate_keyPathText` — where an object goes, whatever its key is made of;
* `put_holds`, `get_of_holds` — for canonical client ids and the extensions in use these are the
  `put` and `get` of the model in which a path is the list of its names.
-/

section
variable [TextTables]

/-! ### Keys -/

/-- The last component of a key. -/
def fileName (token ext : String) : String := cleanComponent token ++ "." ++ cleanComponent ext

/-- The names of the directories of a day. -/
def dateNames (date : Int × Nat × Nat) : List String :=
  [padInt 4 date.1, padInt 2 date.2.1, padInt 2 date.2.2]

/-- `ObjectStore::key_path`, as a text; the date is padded, and so is no component of it ever
    `..`. -/
def keyPathText (clientId : String) (date : Int × Nat × Nat) (token ext : String) : String :=
  let year := join (cleanComponent clientId) (padInt 4 date.1)
  let month := join year (padInt 2 date.2.1)
  let day := join month (padInt 2 date.2.2)
  join day (fileName token ext)

/-- Cleaning leaves no slash, so a component is never two. -/
theorem slash_notMem_cleanComponent (s : String) : '/' ∉ (cleanComponent s).toList := by
  intro hmem
  rw [cleanComponent, String.toList_ofList] at hmem
  have hkept := (List.mem_filter.mp hmem).2
  rw [TextTables.isAlphanumeric_ascii '/' (by decide)] at hkept
  exact absurd hkept (by decide)

/-- Nor is there one in the file name made of a token and an extension. -/
theorem slash_notMem_fileName (token ext : String) : '/' ∉ (fileName token ext).toList := by
  have htoken := slash_notMem_cleanComponent token
  have hext := slash_notMem_cleanComponent ext
  simp [fileName, htoken, hext]

omit [TextTables] in
/-- A padded number is a name: a directory, and none of `.` and `..`. -/
theorem isName_padInt (w : Nat) (n : Int) : IsName (padInt w n) := by
  have hchars : ∀ c, c ∈ (padInt w n).toList → c ≠ '/' ∧ c ≠ '.' := by
    intro c hc
    rcases mem_padInt hc with rfl | hdigit
    · decide
    · constructor
      all_goals
        rintro rfl
        exact absurd hdigit (by decide)
  have hdot : ∀ s : String, '.' ∈ s.toList → padInt w n ≠ s := by
    rintro s hs rfl
    exact (hchars '.' hs).2 rfl
  refine ⟨fun hmem => (hchars '/' hmem).1 rfl, fun hempty => ?_, hdot _ (by decide),
    hdot _ (by decide)⟩
  exact padInt_ne_nil w n (by rw [hempty]; rfl)

/-- The name of a screenshot or of audio is one. -/
theorem namesFile_fileName {token ext : String} (hext : ext ∈ objectExts) :
    namesFile (fileName token ext) = true := by
  have hlong : 2 < (fileName token ext).length := by
    have hall : ∀ e ∈ objectExts, 3 ≤ e.length := by decide
    have := hall ext hext
    rw [fileName, cleanComponent_ext hext, String.length_append, String.length_append]
    omega
  rw [namesFile_iff (slash_notMem_fileName token ext)]
  refine ⟨slash_notMem_fileName token ext, ?_, ?_, ?_⟩
  all_goals
    intro heq
    rw [heq] at hlong
    exact absurd hlong (by decide)

/-- An object key is a relative path. -/
theorem isAbsolute_keyPathText (clientId : String) (date : Int × Nat × Nat) (token ext : String) :
    isAbsolute (keyPathText clientId date token ext) = false := by
  unfold keyPathText
  have hdate : ∀ w n, isAbsolute (padInt w n) = false := fun w n =>
    isAbsolute_of_notMem (isName_padInt w n).1
  rw [isAbsolute_join _ (isAbsolute_of_notMem (slash_notMem_fileName token ext)),
    isAbsolute_join _ (hdate _ _), isAbsolute_join _ (hdate _ _), isAbsolute_join _ (hdate _ _)]
  exact isAbsolute_of_notMem (slash_notMem_cleanComponent clientId)

/-- The components of a key: those of its three parts. -/
theorem steps_keyPathText (clientId : String) (date : Int × Nat × Nat) (token ext : String) :
    steps (keyPathText clientId date token ext)
      = steps (cleanComponent clientId) ++ (dateNames date).map .normal ++
          steps (fileName token ext) := by
  have hdate : ∀ w n, isAbsolute (padInt w n) = false := fun w n =>
    isAbsolute_of_notMem (isName_padInt w n).1
  unfold keyPathText
  rw [steps_join _ (isAbsolute_of_notMem (slash_notMem_fileName token ext)),
    steps_join _ (hdate _ _), steps_join _ (hdate _ _), steps_join _ (hdate _ _),
    steps_of_isName (isName_padInt _ _), steps_of_isName (isName_padInt _ _),
    steps_of_isName (isName_padInt _ _)]
  simp [dateNames]

end

/-! ### The store on disk -/

/-- What `get` makes of the bytes of a file. -/
def ObjectStore.opened (store : ObjectStore) (token : String) (raw : Bytes) :
    Except ObjectError Bytes :=
  match store.cipher with
  | none => .ok raw
  | some c => match c.open (utf8 token) raw with
    | .ok bytes => .ok bytes
    | .error e => .error (.crypto e)

/-- Where a process finds the store: its working directory and the path of the root, which may be
    relative to it. -/
structure Site where
  cwd : Location
  root : String

namespace Site

/-- `ObjectStore::abs`. -/
def abs (site : Site) (rel : String) : String := join site.root rel

/-- The place a path below the root leads to when the operating system walks it. -/
def locate (site : Site) (rel : String) : Location := resolve site.cwd (site.abs rel)

section
variable [TextTables]

/-- `ObjectStore::put` as the disk sees it; a key whose last component is no file name fails, for
    the operating system writes no directory. -/
def put (site : Site) (store : ObjectStore) (disk : Files) (nonce : Bytes) (clientId : String)
    (date : Int × Nat × Nat) (token ext : String) (bytes : Bytes) : Except ObjectError Files :=
  let rel := keyPathText clientId date token ext
  if namesFile (site.abs rel) then
    .ok (disk.write (site.locate rel) (store.stored nonce token bytes))
  else .error .io

end

/-- `ObjectStore::get` as the disk sees it: the prefix test looks at the path as it is written,
    the read walks it.  `ioFails` says whether the operating system refuses the read. -/
def get (site : Site) (store : ObjectStore) (disk : Files) (ioFails : Bool)
    (clientId rel token : String) : Except ObjectError Bytes :=
  if ¬ pathStartsWith (site.abs rel) (site.abs clientId) then
    .error (.notFound ((pieces rel).map String.ofList))
  else if ioFails ∨ ¬ namesFile (site.abs rel) then .error .io
  else match disk.read? (site.locate rel) with
    | none => .error .io
    | some raw => store.opened token raw

section
variable [TextTables] (site : Site)

/-- Whether a key names a file is decided by its last component. -/
theorem namesFile_keyPathText (clientId : String) (date : Int × Nat × Nat) (token ext : String) :
    namesFile (site.abs (keyPathText clientId date token ext))
      = namesFile (fileName token ext) := by
  rw [abs, namesFile_join _ (isAbsolute_keyPathText ..), keyPathText,
    namesFile_join _ (isAbsolute_of_notMem (slash_notMem_fileName token ext))]

/-- A put writes one file, where the key lies under the root; it fails only if the last part of
    the key names no file. -/
theorem put_eq (store : ObjectStore) (disk : Files) (nonce : Bytes) (clientId : String)
    (date : Int × Nat × Nat) (token ext : String) (bytes : Bytes) :
    site.put store disk nonce clientId date token ext bytes =
      if namesFile (fileName token ext) then
        .ok (disk.write (site.locate (keyPathText clientId date token ext))
          (store.stored nonce token bytes))
      else .error .io := by
  rw [put, namesFile_keyPathText]

/-- **Where an object goes.** From where its client's text leads, down by the day and the name;
    only the first part of the way depends on the client. -/
theorem locate_keyPathText (clientId : String) (date : Int × Nat × Nat) {token ext : String}
    (hname : namesFile (fileName token ext) = true) :
    site.locate (keyPathText clientId date token ext)
      = site.locate (cleanComponent clientId) ++ (dateNames date ++ [fileName token ext]) := by
  have hclient := isAbsolute_of_notMem (slash_notMem_cleanComponent clientId)
  rw [locate, locate, abs, abs, resolve_join _ _ (isAbsolute_keyPathText ..),
    resolve_join _ _ hclient, steps_keyPathText, List.append_assoc, List.foldl_append,
    steps_of_isName ((namesFile_iff (slash_notMem_fileName token ext)).mp hname)]
  exact foldl_walk_normal _ (dateNames date ++ [fileName token ext])

end

end Site

/-! ### The model with names -/

section
variable [TextTables]

/-- The text of a client id is a name. -/
theorem isName_uuid (id : Uuid) : IsName id.text := by
  have hdash : '-' ∈ id.text.toList := by simp [Uuid.text, Uuid.chars]
  have hne : ∀ s : String, '-' ∉ s.toList → id.text ≠ s := by
    rintro s hs rfl
    exact hs hdash
  refine ⟨?_, hne "" (by decide), hne "." (by decide), hne ".." (by decide)⟩
  rw [← cleanComponent_uuid id]
  exact slash_notMem_cleanComponent _

/-- The model with names has the same key: for a client id the two models of the store agree on
    every path. -/
theorem keyPath_uuid (id : Uuid) (date : Int × Nat × Nat) (token ext : String) :
    keyPath id.text date token ext = [id.text] ++ (dateNames date ++ [fileName token ext]) := by
  rw [keyPath, cleanComponent_uuid, clientPath, if_neg (isName_uuid id).2.1]
  rfl

namespace Site

/-- Below the root of the store the disk has these files, and no others. -/
def Holds (site : Site) (disk fs : Files) : Prop :=
  ∀ path, disk.read? (site.locate "" ++ path) = fs.read? path

variable {site : Site} {disk fs : Files}

omit [TextTables] in
/-- A name lies directly under the root. -/
theorem locate_of_isName (site : Site) {s : String} (h : IsName s) :
    site.locate s = site.locate "" ++ [s] := by
  rw [locate, locate, abs, abs, resolve_join _ _ (isAbsolute_of_notMem h.1),
    resolve_join _ _ rfl, steps_of_isName h]
  rfl

/-- An object lies under the root in the directories of its key, one for each component. -/
theorem locate_keyPath (site : Site) (id : Uuid) (date : Int × Nat × Nat) {token ext : String}
    (hext : ext ∈ objectExts) :
    site.locate (keyPathText id.text date token ext)
      = site.locate "" ++ keyPath id.text date token ext := by
  rw [locate_keyPathText site _ _ (namesFile_fileName hext), cleanComponent_uuid,
    locate_of_isName site (isName_uuid id), keyPath_uuid, List.append_assoc]

/-- **`put` on disk.**  What the model with names writes is what is written below the root. -/
theorem put_holds (h : site.Holds disk fs) (store : ObjectStore) (nonce : Bytes) (id : Uuid)
    (date : Int × Nat × Nat) {token ext : String} (hext : ext ∈ objectExts) (bytes : Bytes) :
    ∃ disk', site.put store disk nonce id.text date token ext bytes = .ok disk' ∧
      site.Holds disk' (store.put fs nonce id.text date token ext bytes) := by
  refine ⟨_, by rw [put_eq, if_pos (namesFile_fileName hext)], fun path => ?_⟩
  rw [locate_keyPath site id date hext, ObjectStore.put, Files.read?_write, Files.read?_write, h]
  simp only [List.append_cancel_left_eq]

/-- **`get` on disk.**  It reads what the model with names reads. -/
theorem get_of_holds (h : site.Holds disk fs) (hroot : site.root ≠ "") (store : ObjectStore)
    (ioFails : Bool) (id : Uuid) (date : Int × Nat × Nat) {token ext : String}
    (hext : ext ∈ objectExts) :
    site.get store disk ioFails id.text (keyPathText id.text date token ext) token
      = store.get fs ioFails id.text (keyPath id.text date token ext) token := by
  have hguard : pathStartsWith (site.abs (keyPathText id.text date token ext)) (site.abs id.text)
      = true := by
    rw [abs, abs, pathStartsWith_join hroot (isAbsolute_keyPathText ..)
      (isAbsolute_of_notMem (isName_uuid id).1), steps_keyPathText, cleanComponent_uuid,
      List.append_assoc]
    exact List.prefix_append _ _
  have hprefix := keyPath_client id date token ext
  rw [get, ObjectStore.get, if_neg (not_not.mpr hguard), if_neg (not_not.mpr hprefix),
    locate_keyPath site id date hext, h, namesFile_keyPathText, namesFile_fileName hext]
  exact if_congr (by simp) rfl rfl

end Site

end

end Precall.Store
