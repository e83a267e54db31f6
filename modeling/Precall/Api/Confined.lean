import Precall.Api.UuidForms
import Precall.Store.Placement

namespace Precall.Api

open ByteLib TextLib PathLib Precall.Proto Precall.Store

/-!
# The subtree of a client

Which files `ObjectStore::put` and `ObjectStore::get` (`precall-store/src/objects.rs`) touch for a
client, when the paths are followed to where they lead.

* `putConfined_iff` — `put` stays below the client's directory, wherever the token comes from,
  if sanitizing leaves the spelling of the id alone;
* `getConfined_iff` — `get` tests the path before it is followed: behind the client's directory
  it may go up and elsewhere, and stays only if it comes back the same way;
* `confined_iff` — both.
-/

section
variable [TextTables]

/-- `put` writes a file strictly below `root/client`, whatever component it is given, if it
    writes one at all. -/
def PutConfined (site : Site) (client : String) : Prop :=
  ∀ store disk nonce date token ext bytes disk', ext ∈ objectExts →
    site.put store disk nonce client date token ext bytes = .ok disk' →
    ∃ below, below ≠ [] ∧
      disk' = disk.write (site.locate client ++ below) (store.stored nonce token bytes)

/-- `get` answers `NotFound`, or the place it reads from lies below `root/client` once the path
    is resolved. -/
def GetConfined (site : Site) (client rel : String) : Prop :=
  ∀ store disk ioFails token,
    site.get store disk ioFails client rel token
      = .error (.notFound ((pieces rel).map String.ofList)) ∨
    site.locate client <+: site.locate rel

/-- Whatever the path has behind `root/client`, it comes back to it: by the names of the levels it
    goes up. -/
def ComesBack (site : Site) (client rel : String) : Prop :=
  ∀ rest, components (site.abs rel) = components (site.abs client) ++ rest →
    (site.locate client).drop ((site.locate client).length - (net rest).ups) <+: (net rest).names

/-! ### Writing -/

variable {site : Site} {client : String}

/-- The names an id is spelled with, before and after sanitizing: a digit and no slash make a
    proper name of a directory. -/
theorem isName_of_spelling (h : Spelling client.toList) :
    IsName client ∧ IsName (cleanComponent client) := by
  obtain ⟨hslash, c, hc, v, hv⟩ := h
  obtain ⟨hascii, halnum⟩ := hexValue_alphanum hv
  have hkept : c ∈ (cleanComponent client).toList := by
    rw [cleanComponent, String.toList_ofList, List.mem_filter,
      TextTables.isAlphanumeric_ascii c hascii, halnum]
    exact ⟨hc, rfl⟩
  have hdot : c ≠ '.' := by
    rintro rfl
    exact absurd halnum (by decide)
  have hname : ∀ s : String, c ∈ s.toList → '/' ∉ s.toList → IsName s := by
    intro s hmem hs
    refine ⟨hs, ?_, ?_, ?_⟩
    all_goals
      rintro rfl
      simp [hdot] at hmem
  exact ⟨hname _ hc hslash, hname _ hkept (slash_notMem_cleanComponent client)⟩

/-- Writing keeps to a client's directory exactly if cleaning leaves the client's name alone:
    what is written goes below the cleaned name, wherever the name itself would lead. -/
theorem putConfined_iff (hname : IsName client) (hclean : IsName (cleanComponent client)) :
    PutConfined site client ↔ cleanComponent client = client := by
  constructor
  · intro hput
    -- a single write shows it: the first name below the root is the sanitized spelling
    obtain ⟨below, -, hwrite⟩ := hput .plain Files.empty [] (0, 0, 0) "" "jpg" [] _ (by decide)
      (by rw [Site.put_eq, if_pos (namesFile_fileName (by decide))])
    have hplace := (Prod.mk.inj (List.cons.inj (Files.mk.inj hwrite)).1).1
    rw [site.locate_keyPathText _ _ (namesFile_fileName (by decide)), site.locate_of_isName hclean,
      site.locate_of_isName hname, List.append_assoc, List.append_assoc] at hplace
    exact (List.cons.inj (List.append_cancel_left hplace)).1
  · intro hsame store disk nonce date token ext bytes disk' hext hput
    rw [Site.put_eq, if_pos (namesFile_fileName hext),
      site.locate_keyPathText _ _ (namesFile_fileName hext), hsame] at hput
    exact ⟨_, by simp, (Except.ok.inj hput).symm⟩

/-! ### Reading -/

omit [TextTables] in
/-- Reading keeps to it exactly if the walk of the path comes back to it: the test looks at the
    path as it is written, the operating system walks it. -/
theorem getConfined_iff (hname : IsName client) (rel : String) :
    GetConfined site client rel ↔ ComesBack site client rel := by
  have hsteps : components (site.abs client) ≠ [] := by
    rw [components, Site.abs, steps_join _ (isAbsolute_of_notMem hname.1), steps_of_isName hname]
    simp
  constructor
  · intro hget rest hrest
    -- a path that passes the guard is never answered with `NotFound`
    have hguard : pathStartsWith (site.abs rel) (site.abs client) = true :=
      List.isPrefixOf_iff_prefix.mpr ⟨rest, hrest.symm⟩
    have hbelow : site.locate client <+: site.locate rel := by
      refine (hget .plain Files.empty true "").resolve_left fun hfound => ?_
      rw [Site.get, if_neg (not_not.mpr hguard), if_pos (Or.inl rfl)] at hfound
      cases hfound
    rwa [Site.locate, Site.locate, resolve_of_startsWith hrest,
      below_iff _ (rootDir_notMem hsteps hrest)] at hbelow
  · intro hback store disk ioFails token
    by_cases hguard : pathStartsWith (site.abs rel) (site.abs client) = true
    · obtain ⟨rest, hrest⟩ := List.isPrefixOf_iff_prefix.mp hguard
      right
      rw [Site.locate, Site.locate, resolve_of_startsWith hrest.symm,
        below_iff _ (rootDir_notMem hsteps hrest.symm)]
      exact hback rest hrest.symm
    · left
      rw [Site.get, if_pos hguard]

/-- **The subtree of a client.**  For every spelling of an id and every path, `put` and `get` keep
    to the client's subtree exactly if sanitizing leaves the spelling alone and the path comes back
    to the subtree whenever it goes up behind it. -/
theorem confined_iff (site : Site) {client : String} {id : Uuid}
    (hid : parseForms client = some id) (rel : String) :
    PutConfined site client ∧ GetConfined site client rel ↔
      cleanComponent client = client ∧ ComesBack site client rel := by
  obtain ⟨hname, hclean⟩ := isName_of_spelling (spelling_of_parseForms hid)
  rw [putConfined_iff hname hclean, getConfined_iff hname]

end

/-! ### Another client's screenshot -/

section

attribute [local instance] TextTables.ascii

/-- A server that keeps its objects under `/data/objects`. -/
def apiSite : Site := ⟨[], "/data/objects"⟩

/-- The client id of zeros. -/
def nilId : Uuid := ⟨Vector.replicate 16 0⟩

/-- The key of a screenshot comes back to the subtree. -/
theorem nilKey_confined :
    PutConfined apiSite nilId.text ∧
      GetConfined apiSite nilId.text (keyPathText nilId.text (1970, 1, 1) "t" "jpg") := by
  refine (confined_iff apiSite (parseForms_text nilId) _).mpr ⟨cleanComponent_uuid nilId, ?_⟩
  have hkey : components (apiSite.abs (keyPathText nilId.text (1970, 1, 1) "t" "jpg"))
      = components (apiSite.abs nilId.text)
          ++ ["1970", "01", "01", "t.jpg"].map Component.normal := by
    decide +kernel
  intro rest hrest
  obtain rfl := List.append_cancel_left (hkey.symm.trans hrest)
  decide +kernel

/-- A path that goes up behind the client's directory and down into another's; as text it begins
    with the client's name. -/
def otherKey : String := nilId.text ++ "/../other/1970/01/01/t.jpg"

/-- A screenshot of each of the two clients. -/
def twoClients : Files :=
  (Files.empty.write ["data", "objects", nilId.text, "1970", "01", "01", "t.jpg"] [1]).write
    ["data", "objects", "other", "1970", "01", "01", "t.jpg"] [7]

/-- It passes the test, which looks at the path as it is written, and the other client's
    screenshot is read. -/
theorem otherKey_escapes :
    parseForms nilId.text = some nilId ∧
    apiSite.get .plain twoClients false nilId.text otherKey "t" = .ok [7] ∧
    ¬ GetConfined apiSite nilId.text otherKey := by
  have hread : apiSite.get .plain twoClients false nilId.text otherKey "t" = .ok [7] := by
    decide +kernel
  refine ⟨parseForms_text nilId, hread, fun hget => ?_⟩
  -- not refused, it would have to be below the client's directory
  rcases hget .plain twoClients false "t" with hfound | hbelow
  · rw [hread] at hfound
    cases hfound
  · revert hbelow
    decide +kernel

end

end Precall.Api
