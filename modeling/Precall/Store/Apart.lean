import Mathlib.Data.List.Find
import Precall.Store.Placement

namespace Precall.Store

open ByteLib TextLib PathLib

/-!
# Distinct objects

Any number of `ObjectStore::put` calls on one store (`precall-store/src/objects.rs`), with any
client ids, dates, tokens and extensions.

* `lastPut` — the store as a map: what was last put under a name;
* `read?_putAll` — what the disk holds after the calls, place by place;
* `keepsApart_iff` — the disk is that map, whatever the bytes, exactly if every name put can be
  read and no two of them share a file;
* `locate_eq_of_prefix` — no object ever stands where another needs a directory.
-/

/-- What an object is put and read under: client, date, token and extension, each as the caller
    gives it. -/
structure ObjectName where
  clientId : String
  date : Int × Nat × Nat
  token : String
  ext : String
  deriving DecidableEq, Repr

/-- A call of `put`, with the nonce it draws. -/
structure Put where
  name : ObjectName
  nonce : Bytes
  bytes : Bytes
  deriving DecidableEq, Repr

/-- The bytes of the most recent call for a name; calls for other names do not count, wherever
    they wrote. -/
def lastPut (puts : List Put) (name : ObjectName) : Option Bytes :=
  (puts.reverse.find? fun p => p.name = name).map Put.bytes

section
variable [TextTables]

/-- The key of an object. -/
def ObjectName.rel (name : ObjectName) : String :=
  keyPathText name.clientId name.date name.token name.ext

/-- The disk after a call; one that fails leaves it as it is. -/
def putOne (site : Site) (store : ObjectStore) (disk : Files) (p : Put) : Files :=
  match site.put store disk p.nonce p.name.clientId p.name.date p.name.token p.name.ext p.bytes with
  | .ok disk' => disk'
  | .error _ => disk

/-- The disk after calls in turn. -/
def putAll (site : Site) (store : ObjectStore) (disk : Files) (puts : List Put) : Files :=
  puts.foldl (putOne site store) disk

/-- Every object put reads back as it was put last: whatever the calls were about, none has
    touched the object of another name. -/
def KeepsApart (site : Site) (store : ObjectStore) (disk : Files) (puts : List Put) : Prop :=
  ∀ name bytes, lastPut puts name = some bytes →
    site.get store (putAll site store disk puts) false name.clientId name.rel name.token
      = .ok bytes

/-! ### The disk, place by place -/

/-- A call for this name writes the file at this place. -/
def ObjectName.writesTo (site : Site) (place : Location) (name : ObjectName) : Bool :=
  namesFile (fileName name.token name.ext) && site.locate name.rel == place

variable {site : Site} {store : ObjectStore} {disk : Files}

/-- A put is seen where its name writes to, and nowhere else. -/
theorem read?_putOne (p : Put) (place : Location) :
    (putOne site store disk p).read? place =
      if p.name.writesTo site place then some (store.stored p.nonce p.name.token p.bytes)
      else disk.read? place := by
  unfold putOne ObjectName.writesTo
  rw [site.put_eq]
  cases namesFile (fileName p.name.token p.name.ext) with
  | false => rfl
  | true =>
    rw [if_pos rfl]
    dsimp only
    rw [Files.read?_write]
    exact if_congr (by rw [Bool.true_and, beq_iff_eq, eq_comm]; rfl) rfl rfl

/-- **What is on disk.** Every place holds what the last call that writes to it has put there, by
    induction on the calls; where none does, it is as before. -/
theorem read?_putAll (puts : List Put) (place : Location) :
    (putAll site store disk puts).read? place =
      ((puts.reverse.find? fun p => p.name.writesTo site place).map fun p =>
        store.stored p.nonce p.name.token p.bytes).or (disk.read? place) := by
  induction puts using List.reverseRecOn with
  | nil => rfl
  | append_singleton puts p ih =>
    have hlast : putAll site store disk (puts ++ [p])
        = putOne site store (putAll site store disk puts) p := by
      simp only [putAll, List.foldl_append, List.foldl_cons, List.foldl_nil]
    rw [hlast, read?_putOne, ih, List.reverse_append, List.reverse_singleton,
      List.singleton_append, List.find?_cons]
    cases p.name.writesTo site place with
    | true => rfl
    | false => rfl

/-! ### Names that share a file -/

/-- The two objects have the same folder, day and name on disk, which is all that decides where
    an object goes. -/
def SameFile (site : Site) (name name' : ObjectName) : Prop :=
  site.locate (cleanComponent name.clientId) = site.locate (cleanComponent name'.clientId) ∧
    name.date = name'.date ∧ fileName name.token name.ext = fileName name'.token name'.ext

omit [TextTables] in
/-- The directories of a date tell it: no two dates share all three names. -/
theorem dateNames_inj {date date' : Int × Nat × Nat} (h : dateNames date = dateNames date') :
    date = date' := by
  simp only [dateNames, List.cons.injEq, and_true] at h
  have hmonth : (date.2.1 : Int) = date'.2.1 := padInt_inj h.2.1
  have hday : (date.2.2 : Int) = date'.2.2 := padInt_inj h.2.2
  exact Prod.ext (padInt_inj h.1) (Prod.ext (by omega) (by omega))

/-- Two object names, both of which name a file, are one place on disk exactly if they name the
    same file. -/
theorem locate_eq_iff {name name' : ObjectName}
    (hname : namesFile (fileName name.token name.ext) = true)
    (hname' : namesFile (fileName name'.token name'.ext) = true) :
    site.locate name.rel = site.locate name'.rel ↔ SameFile site name name' := by
  rw [ObjectName.rel, ObjectName.rel, site.locate_keyPathText _ _ hname,
    site.locate_keyPathText _ _ hname']
  constructor
  · intro h
    obtain ⟨hfolder, hrest⟩ := List.append_inj' h (by simp [dateNames])
    obtain ⟨hdate, hfile⟩ := List.append_inj' hrest (by rw [List.length_singleton,
      List.length_singleton])
    exact ⟨hfolder, dateNames_inj hdate, (List.cons.inj hfile).1⟩
  · rintro ⟨hfolder, hdate, hfile⟩
    rw [hfolder, hdate, hfile]

/-! ### Reading back -/

/-- What `put` leaves under a name that names a file can be read under it: the path stays under
    the root as it is written. -/
def Readable (site : Site) (name : ObjectName) : Prop :=
  namesFile (fileName name.token name.ext) = true ∧
    pathStartsWith (site.abs name.rel) (site.abs name.clientId) = true

/-- `get` under a readable name opens the file; under any other it returns no bytes. -/
theorem get_eq_ok {name : ObjectName} {bytes : Bytes} :
    site.get store disk false name.clientId name.rel name.token = .ok bytes ↔
      Readable site name ∧ ∃ raw, disk.read? (site.locate name.rel) = some raw ∧
        store.opened name.token raw = .ok bytes := by
  have hfile := site.namesFile_keyPathText name.clientId name.date name.token name.ext
  rw [← ObjectName.rel] at hfile
  unfold Site.get Readable
  rw [hfile]
  cases pathStartsWith (site.abs name.rel) (site.abs name.clientId) with
  | false => simp
  | true =>
    cases namesFile (fileName name.token name.ext) with
    | false => simp
    | true =>
      cases hread : disk.read? (site.locate name.rel) with
      | none => simp
      | some raw => simp

/-! ### The disk as a map -/

/-- The cipher of the store, if it has one, opens what it sealed under the same token. -/
def ObjectStore.Lawful (store : ObjectStore) : Prop := ∀ c, store.cipher = some c → c.Lawful

omit [TextTables] in
/-- What `put` stores, `get` opens, under the token it was stored under. -/
theorem opened_stored (hlawful : store.Lawful) {nonce : Bytes} (hnonce : nonce.length = 12)
    (token : String) (bytes : Bytes) :
    store.opened token (store.stored nonce token bytes) = .ok bytes := by
  unfold ObjectStore.opened ObjectStore.stored
  cases hcipher : store.cipher with
  | none => rfl
  | some c =>
    dsimp only
    rw [(hlawful c hcipher).open_seal hnonce]

omit [TextTables] in
/-- The last put under a name, found from the back of the list. -/
theorem lastPut_eq_some {puts : List Put} {name : ObjectName} {bytes : Bytes} :
    lastPut puts name = some bytes ↔
      ∃ p, puts.reverse.find? (fun p => p.name = name) = some p ∧ p.bytes = bytes :=
  Option.map_eq_some_iff

/-- Two readable names go to one place only if they share a file; the question about places on
    disk becomes one about three texts. -/
theorem writesTo_iff {name name' : ObjectName} (h : Readable site name)
    (h' : Readable site name') :
    name'.writesTo site (site.locate name.rel) = true ↔ SameFile site name' name := by
  rw [ObjectName.writesTo, h'.1, Bool.true_and, beq_iff_eq, locate_eq_iff h'.1 h.1]

/-- Where no two names share a file, every object reads back as it was put last: the last call
    that writes to its place is the last call for its name. -/
theorem keepsApart_of_distinct (hlawful : store.Lawful) {puts : List Put}
    (hnonce : ∀ p ∈ puts, p.nonce.length = 12) (hread : ∀ p ∈ puts, Readable site p.name)
    (hinj : ∀ p ∈ puts, ∀ q ∈ puts, SameFile site p.name q.name → p.name = q.name) :
    KeepsApart site store disk puts := by
  intro name bytes hlast
  obtain ⟨p, hfind, rfl⟩ := lastPut_eq_some.mp hlast
  obtain rfl : p.name = name := by simpa using List.find?_some hfind
  have hmem : p ∈ puts := List.mem_reverse.mp (List.mem_of_find?_eq_some hfind)
  have hplace : puts.reverse.find? (fun q => q.name.writesTo site (site.locate p.name.rel))
      = some p := by
    rw [← hfind]
    -- a call writes to the object's place exactly if it is for the object's name
    refine List.find?_congr fun q hq => ?_
    have hq : q ∈ puts := List.mem_reverse.mp hq
    rw [Bool.eq_iff_iff, writesTo_iff (hread p hmem) (hread q hq), decide_eq_true_iff]
    refine ⟨hinj q hq p hmem, fun heq => ?_⟩
    rw [heq]
    exact ⟨rfl, rfl, rfl⟩
  refine get_eq_ok.mpr ⟨hread p hmem, _, ?_, opened_stored hlawful (hnonce p hmem) _ _⟩
  rw [read?_putAll, hplace]
  rfl

/-! ### Names put in turn, with any bytes -/

/-- Calls for these names, with these bytes. -/
def putsOf (content : ObjectName → Bytes) (names : List ObjectName) : List Put :=
  names.map fun name => ⟨name, List.replicate 12 0, content name⟩

omit [TextTables] in
/-- In a list of puts made from names, a search for puts is one for names. -/
theorem find?_putsOf (content : ObjectName → Bytes) (names : List ObjectName)
    (q : ObjectName → Bool) :
    (putsOf content names).reverse.find? (fun p => q p.name)
      = (names.reverse.find? q).map fun name => ⟨name, List.replicate 12 0, content name⟩ := by
  rw [putsOf, ← List.map_reverse, List.find?_map]
  rfl

omit [TextTables] in
/-- Each of the names was put with its content. -/
theorem lastPut_putsOf (content : ObjectName → Bytes) {names : List ObjectName}
    {name : ObjectName} (h : name ∈ names) :
    lastPut (putsOf content names) name = some (content name) := by
  have hfind : names.reverse.find? (fun other => other = name) = some name := by
    cases hsome : names.reverse.find? (fun other => other = name) with
    | none => simpa using List.find?_eq_none.mp hsome name (List.mem_reverse.mpr h)
    | some other =>
      have hsame : other = name := by simpa using List.find?_some hsome
      rw [hsame]
  rw [lastPut, find?_putsOf content names fun other => other = name, hfind]
  rfl

/-- A readable name that keeps its bytes whatever the others are is the last to write its file:
    with other bytes for the last writer it would read those. -/
theorem last_writer {names : List ObjectName} {name : ObjectName} (hmem : name ∈ names)
    (hkeeps : ∀ content, KeepsApart site store disk (putsOf content names)) :
    names.reverse.find? (ObjectName.writesTo site (site.locate name.rel)) = some name := by
  have hopened : ∀ content, ∃ raw,
      (putAll site store disk (putsOf content names)).read? (site.locate name.rel) = some raw ∧
        store.opened name.token raw = .ok (content name) := fun content =>
    (get_eq_ok.mp (hkeeps content name _ (lastPut_putsOf content hmem))).2
  have hreadable : Readable site name :=
    (get_eq_ok.mp (hkeeps (fun _ => []) name _ (lastPut_putsOf _ hmem))).1
  cases hfind : names.reverse.find? (ObjectName.writesTo site (site.locate name.rel)) with
  | none =>
    -- the name itself writes there
    have hself := List.find?_eq_none.mp hfind name (List.mem_reverse.mpr hmem)
    exact absurd ((writesTo_iff hreadable hreadable).mpr ⟨rfl, rfl, rfl⟩) hself
  | some writer =>
    have hraw : ∀ content,
        (putAll site store disk (putsOf content names)).read? (site.locate name.rel)
          = some (store.stored (List.replicate 12 0) writer.token (content writer)) := by
      intro content
      rw [read?_putAll, find?_putsOf content names fun other => other.writesTo site _, hfind]
      rfl
    by_contra hne
    have hwriter : writer ≠ name := fun heq => hne (congrArg some heq)
    -- the writer puts the same in both runs, the object itself two different things
    obtain ⟨raw, hread, hopen⟩ := hopened fun _ => []
    obtain ⟨raw', hread', hopen'⟩ := hopened fun other => if other = name then [0] else []
    rw [hraw, Option.some.injEq] at hread hread'
    rw [if_neg hwriter, hread] at hread'
    rw [← hread', hopen, if_pos rfl] at hopen'
    cases hopen'

/-- **Distinct objects.**  Whatever is put under these names in turn, each of them reads back what
    was put last, if and only if all of them can be read and no two share a file. -/
theorem keepsApart_iff (hlawful : store.Lawful) (names : List ObjectName) :
    (∀ puts, puts.map Put.name = names → (∀ p ∈ puts, p.nonce.length = 12) →
      KeepsApart site store disk puts) ↔
    (∀ name ∈ names, Readable site name) ∧
      ∀ name ∈ names, ∀ name' ∈ names, SameFile site name name' → name = name' := by
  constructor
  · intro h
    have hkeeps : ∀ content, KeepsApart site store disk (putsOf content names) := by
      intro content
      have hnames : (putsOf content names).map Put.name = names := by
        rw [putsOf, List.map_map]
        exact List.map_id names
      refine h _ hnames fun p hp => ?_
      obtain ⟨name, -, rfl⟩ := List.mem_map.mp hp
      rfl
    have hread : ∀ name ∈ names, Readable site name := fun name hmem =>
      (get_eq_ok.mp (hkeeps (fun _ => []) name _ (lastPut_putsOf _ hmem))).1
    refine ⟨hread, fun name hmem name' hmem' hsame => ?_⟩
    -- two names that share a file would both be its last writer
    have hplace := (locate_eq_iff (hread name hmem).1 (hread name' hmem').1).mpr hsame
    have hlast := last_writer hmem hkeeps
    rw [hplace, last_writer hmem' hkeeps] at hlast
    exact (Option.some.inj hlast).symm
  · rintro ⟨hread, hinj⟩ puts rfl hnonce
    have hname : ∀ p ∈ puts, p.name ∈ puts.map Put.name := fun p hp =>
      List.mem_map_of_mem hp
    exact keepsApart_of_distinct hlawful hnonce (fun p hp => hread _ (hname p hp))
      fun p hp q hq => hinj _ (hname p hp) _ (hname q hq)

/-! ### Files and directories -/

variable (site) in
/-- A client's folder is the root of the store, its parent or one of its directories, for a
    cleaned text is one component, of which `..` is the worst. -/
theorem length_locate_cleanComponent (clientId : String) :
    (site.locate "").length - 1 ≤ (site.locate (cleanComponent clientId)).length ∧
      (site.locate (cleanComponent clientId)).length ≤ (site.locate "").length + 1 := by
  have hslash := slash_notMem_cleanComponent clientId
  have hbase : site.locate "" = resolve site.cwd site.root := resolve_join _ _ rfl
  have hsteps : steps (cleanComponent clientId)
      = (step (cleanComponent clientId).toList).toList := by
    rw [steps, pieces_of_notMem hslash, List.filterMap_cons, List.filterMap_nil]
    cases step (cleanComponent clientId).toList <;> rfl
  rw [hbase, Site.locate, Site.abs, resolve_join _ _ (isAbsolute_of_notMem hslash)]
  cases hstep : step (cleanComponent clientId).toList with
  | none =>
    rw [hsteps, hstep]
    exact ⟨Nat.sub_le _ _, Nat.le_succ _⟩
  | some c =>
    rw [hstep] at hsteps
    have hmem : c ∈ steps (cleanComponent clientId) := by simp [hsteps]
    rcases mem_steps hmem with rfl | ⟨name, rfl⟩
    · simp [hsteps, walk]
      omega
    · simp [hsteps, walk]
      omega

/-- **No object stands where another needs a directory.**  The file of one name lies on the way to
    that of another only if it is the same file. -/
theorem locate_eq_of_prefix {name name' : ObjectName}
    (hname : namesFile (fileName name.token name.ext) = true)
    (hname' : namesFile (fileName name'.token name'.ext) = true)
    (h : site.locate name.rel <+: site.locate name'.rel) :
    site.locate name.rel = site.locate name'.rel := by
  have hlow := (length_locate_cleanComponent site name.clientId).1
  have hhigh := (length_locate_cleanComponent site name'.clientId).2
  refine h.eq_of_length_le ?_
  rw [ObjectName.rel, ObjectName.rel, site.locate_keyPathText _ _ hname,
    site.locate_keyPathText _ _ hname'] at *
  generalize site.locate (cleanComponent name.clientId) = folder at *
  generalize site.locate (cleanComponent name'.clientId) = folder' at *
  have hdot : ∀ w n, fileName name.token name.ext ≠ padInt w n := by
    intro w n heq
    have hmem : '.' ∈ (padInt w n).toList := by
      rw [← heq]
      simp [fileName]
    rcases mem_padInt hmem with hdash | hdigit
    · cases hdash
    · exact absurd hdigit (by decide)
  obtain ⟨rest, hrest⟩ := h
  rw [List.append_assoc] at hrest
  -- were the second folder deeper, the file would have the name of a month or of a day
  rcases List.append_eq_append_iff.mp hrest with ⟨extra, rfl, hsplit⟩ | ⟨extra, rfl, -⟩
  · rw [List.length_append] at hhigh
    rcases extra with _ | ⟨first, _ | ⟨second, _ | ⟨third, extra⟩⟩⟩
    · simp [dateNames]
    · simp [dateNames, hdot] at hsplit
    · simp [dateNames, hdot] at hsplit
    · simp only [List.length_cons] at hhigh
      omega
  · simp [dateNames]

end

/-! ### Two screenshots -/

section

attribute [local instance] TextTables.ascii

/-- An AEAD whose tag is the additional data, cut to sixteen bytes: enough to tell tokens apart
    in a test. -/
def namedAead : Aead where
  encrypt := fun _ aad msg => msg ++ (aad ++ List.replicate 16 0).take 16
  decrypt := fun _ aad ct =>
    if 16 ≤ ct.length ∧ ct.drop (ct.length - 16) = (aad ++ List.replicate 16 0).take 16
    then some (ct.take (ct.length - 16)) else none

/-- It opens what it sealed under the same additional data, and the message is what precedes the
    tag. -/
theorem namedAead_lawful : namedAead.Lawful where
  decrypt_encrypt := by
    intro nonce aad msg _
    simp [namedAead]
  length_decrypt := by
    intro nonce aad ct msg h
    simp only [namedAead, Option.ite_none_right_eq_some] at h
    obtain ⟨⟨hlong, -⟩, hmsg⟩ := h
    obtain rfl := Option.some.inj hmsg
    rw [List.length_take]
    omega

/-- A server that keeps its objects under `/data/objects`. -/
def smallSite : Site := ⟨[], "/data/objects"⟩

/-- A screenshot of the first day, by its token. -/
def screenshotName (token : String) : ObjectName := ⟨"c", (1970, 1, 1), token, "jpg"⟩

/-- Two tokens that differ after sanitizing: both screenshots read back. -/
theorem distinct_tokens_apart :
    KeepsApart smallSite (.encrypted namedAead) Files.empty
      [⟨screenshotName "a", List.replicate 12 0, [1]⟩,
        ⟨screenshotName "b", List.replicate 12 0, [2]⟩] := by
  refine (keepsApart_iff ?_ [screenshotName "a", screenshotName "b"]).mpr ⟨?_, ?_⟩ _ rfl ?_
  · intro c hc
    obtain rfl := Option.some.inj hc
    exact namedAead_lawful
  · have hall : ∀ name ∈ [screenshotName "a", screenshotName "b"],
        (namesFile (fileName name.token name.ext) &&
          pathStartsWith (smallSite.abs name.rel) (smallSite.abs name.clientId)) = true := by
      decide +kernel
    exact fun name hmem => (Bool.and_eq_true ..).mp (hall name hmem)
  · have hall : ∀ name ∈ [screenshotName "a", screenshotName "b"],
        ∀ name' ∈ [screenshotName "a", screenshotName "b"],
        fileName name.token name.ext = fileName name'.token name'.ext → name = name' := by
      decide +kernel
    exact fun name hmem name' hmem' hsame => hall name hmem name' hmem' hsame.2.2
  · decide

/-- A separator is dropped: the second screenshot replaces the first. -/
theorem separator_collides :
    ¬ KeepsApart smallSite .plain Files.empty
      [⟨screenshotName "a/b", List.replicate 12 0, [1]⟩,
        ⟨screenshotName "ab", List.replicate 12 0, [2]⟩] := by
  intro hkeeps
  have hread := hkeeps (screenshotName "a/b") [1] (by decide)
  revert hread
  decide +kernel

end

end Precall.Store
