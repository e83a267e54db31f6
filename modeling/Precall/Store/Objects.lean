import Precall.Lib.Text
import Precall.Proto.Metadata

namespace Precall.Store

open ByteLib TextLib Precall.Proto

/-!
# The object store

Screenshots and audio on disk, `{client}/{yyyy}/{mm}/{dd}/{token}.{ext}`
(`precall-store/src/objects.rs` and `crypto.rs`).

* `ymdFromFiletime` — the date a capture is filed under;
* `keyPath` — the path of an object; `keyPath_client` — the objects of a canonical client id lie
  under the directory of that id;
* `ObjectStore` — `put`, `get`, `exists` and `purgeClient` over a tree of files, with the AEAD
  that seals them as a parameter.
-/

/-- FILETIME ticks to (year, month, day), as the code computes it: the subtraction wraps at 64
    bits, and the divisor is `86_400_000_000_000` ticks. -/
def ymdFromFiletime (ticks : Int) : Int × Nat × Nat :=
  let days := Int.bmod (ticks - 116444736000000000) (2 ^ 64) / 86400000000000
  -- civil-from-days
  let z := days + 719468
  let era := z / 146097
  let doe := z % 146097
  let yoe := (doe - doe / 1460 + doe / 36524 - doe / 146096) / 365
  let y := yoe + era * 400
  let doy := doe - (365 * yoe + yoe / 4 - yoe / 100)
  let mp := (5 * doy + 2) / 153
  let d := doy - (153 * mp + 2) / 5 + 1
  let m := if mp < 10 then mp + 3 else mp - 9
  (if m ≤ 2 then y + 1 else y, m.toNat, d.toNat)

/-! ### Object keys -/

/-- The components of a path relative to the store's root. -/
abbrev Path := List String

/-- The directory of a client, whose id is one component; an empty id names the root itself. -/
def clientPath (clientId : String) : Path := if clientId = "" then [] else [clientId]

section
variable [TextTables]

/-- Drop the characters that may not occur in a path component: only letters, digits, `-`, `_`
    and `.` are kept. -/
def cleanComponent (s : String) : String :=
  String.ofList (s.toList.filter fun c =>
    TextTables.isAlphanumeric c || c == '-' || c == '_' || c == '.')

/-- `ObjectStore::key_path` — client, year, month, day and the file name made of the cleaned
    token and the extension. -/
def keyPath (clientId : String) (date : Int × Nat × Nat) (token ext : String) : Path :=
  clientPath (cleanComponent clientId) ++
    [padInt 4 date.1, padInt 2 date.2.1, padInt 2 date.2.2,
      cleanComponent token ++ "." ++ cleanComponent ext]

/-! ### What a path tells -/

/-- The extensions objects are stored under. -/
def objectExts : List String := ["jpg", "raw", "opus"]

/-- Cleaning leaves a text of ASCII letters and digits as it is. -/
theorem cleanComponent_of_alnum {s : String}
    (h : ∀ c ∈ s.toList, c.toNat < 128 ∧ c.isAlphanum = true) : cleanComponent s = s := by
  have hkept : ∀ c ∈ s.toList,
      (TextTables.isAlphanumeric c || c == '-' || c == '_' || c == '.') = true := by
    intro c hc
    obtain ⟨hascii, halnum⟩ := h c hc
    simp [TextTables.isAlphanumeric_ascii c hascii, halnum]
  rw [cleanComponent, List.filter_eq_self.mpr hkept, String.ofList_toList]

/-- So it does with the extensions in use. -/
theorem cleanComponent_ext {ext : String} (h : ext ∈ objectExts) : cleanComponent ext = ext := by
  have hall : (objectExts.all fun e => e.toList.all fun c => c.toNat < 128 && c.isAlphanum)
      = true := by
    decide
  refine cleanComponent_of_alnum fun c hc => ?_
  have hkept := List.all_eq_true.mp (List.all_eq_true.mp hall ext h) c hc
  rwa [Bool.and_eq_true, decide_eq_true_iff] at hkept

omit [TextTables] in
/-- No two of the extensions end in the same name, so the name of an object tells both its token
    and its extension. -/
theorem objectName_inj {name name' ext ext' : String} (hext : ext ∈ objectExts)
    (hext' : ext' ∈ objectExts) (h : name ++ "." ++ ext = name' ++ "." ++ ext') :
    ext = ext' ∧ name = name' := by
  have hlast : ∀ e ∈ objectExts, ∀ e' ∈ objectExts, e.toList.getLast? = e'.toList.getLast? →
      e = e' := by decide
  have hne : ∀ e ∈ objectExts, e.toList ≠ [] := by decide
  have hlists := congrArg String.toList h
  simp only [String.toList_append] at hlists
  have heq : ext = ext' := by
    refine hlast ext hext ext' hext' ?_
    have hends := congrArg List.getLast? hlists
    rwa [List.getLast?_append_of_ne_nil _ (hne ext hext),
      List.getLast?_append_of_ne_nil _ (hne ext' hext')] at hends
  rw [heq, List.append_assoc, List.append_assoc] at hlists
  exact ⟨heq, String.toList_inj.mp (List.append_cancel_right hlists)⟩

/-- The path of an object tells its extension and its sanitized token; two tokens that are
    cleaned to the same text share a path. -/
theorem keyPath_inj {clientId token token' ext ext' : String} {date date' : Int × Nat × Nat}
    (hext : ext ∈ objectExts) (hext' : ext' ∈ objectExts)
    (h : keyPath clientId date token ext = keyPath clientId date' token' ext') :
    ext = ext' ∧ cleanComponent token = cleanComponent token' := by
  unfold keyPath at h
  rw [cleanComponent_ext hext, cleanComponent_ext hext'] at h
  have hname := (List.append_inj h (by rfl)).2
  simp only [List.cons.injEq, and_true] at hname
  exact objectName_inj hext hext' hname.2.2.2

/-- The characters a canonical id is written with are letters and digits, which cleaning keeps. -/
private theorem hexDigit_kept (n : UInt8) (h : n.toNat < 16) :
    TextTables.isAlphanumeric (hexDigit n) = true := by
  have hfacts : ∀ m : Fin 16, (hexDigit (UInt8.ofNat m)).toNat < 128 ∧
      (hexDigit (UInt8.ofNat m)).isAlphanum = true := by decide
  have hn : n = UInt8.ofNat (⟨n.toNat, h⟩ : Fin 16) := by simp
  obtain ⟨hascii, halnum⟩ := hfacts ⟨n.toNat, h⟩
  rw [← hn] at hascii halnum
  rw [TextTables.isAlphanumeric_ascii _ hascii, halnum]

/-- The two digits that stand for a byte that was cleaned away are letters that cleaning keeps. -/
private theorem hexByte_kept (b : UInt8) :
    ∀ c ∈ hexByte b, TextTables.isAlphanumeric c = true := by
  intro c hc
  have hdiv : (b / 16).toNat < 16 := by
    have := b.toNat_lt
    rw [UInt8.toNat_div]
    show b.toNat / 16 < 16
    omega
  have hmod : (b % 16).toNat < 16 := by
    rw [UInt8.toNat_mod]
    show b.toNat % 16 < 16
    omega
  simp only [hexByte, List.mem_cons, List.not_mem_nil, or_false] at hc
  rcases hc with rfl | rfl
  · exact hexDigit_kept _ hdiv
  · exact hexDigit_kept _ hmod

/-- Sanitizing leaves a canonical id alone, so the objects of a client lie in the directory of
    its id. -/
theorem cleanComponent_uuid (id : Uuid) : cleanComponent id.text = id.text := by
  have hkept : ∀ c ∈ id.chars,
      (TextTables.isAlphanumeric c || c == '-' || c == '_' || c == '.') = true := by
    intro c hc
    rcases Uuid.mem_chars hc with rfl | ⟨b, hb⟩
    · simp
    · simp [hexByte_kept b c hb]
  rw [cleanComponent, Uuid.text, String.toList_ofList, List.filter_eq_self.mpr hkept]

/-- The objects of a canonical client id lie under that client's directory. -/
theorem keyPath_client (id : Uuid) (date : Int × Nat × Nat) (token ext : String) :
    clientPath id.text <+: keyPath id.text date token ext := by
  rw [keyPath, cleanComponent_uuid]
  exact List.prefix_append _ _

end

/-! ### Files -/

/-- A tree of files: the content of every path that has one.  Directories are not there for
    themselves, they are what paths have in common. -/
structure Files where
  files : List (Path × Bytes)
  deriving DecidableEq, Repr

namespace Files

/-- No files. -/
def empty : Files := ⟨[]⟩

/-- Create or overwrite a file; what was there under the same path is gone. -/
def write (fs : Files) (path : Path) (bytes : Bytes) : Files :=
  ⟨(path, bytes) :: fs.files.filter fun f => f.1 ≠ path⟩

/-- The content of a file. -/
def read? (fs : Files) (path : Path) : Option Bytes :=
  (fs.files.find? fun f => f.1 == path).map Prod.snd

/-- Remove a directory and everything below it, as `remove_dir_all` does. -/
def removeDirAll (fs : Files) (dir : Path) : Files :=
  ⟨fs.files.filter fun f => ¬ dir <+: f.1⟩

/-- After a write a file is the one written or one that was there. -/
theorem mem_write {fs : Files} {path : Path} {bytes : Bytes} {f : Path × Bytes}
    (h : f ∈ (fs.write path bytes).files) : f = (path, bytes) ∨ f ∈ fs.files := by
  rcases List.mem_cons.mp h with h | h
  · exact Or.inl h
  · exact Or.inr (List.mem_filter.mp h).1

/-- A file reads back as it was last written. -/
theorem read?_write (fs : Files) (path other : Path) (bytes : Bytes) :
    (fs.write path bytes).read? other = if other = path then some bytes else fs.read? other := by
  unfold read? write
  by_cases h : other = path
  · simp [h]
  · have hhead : (path == other) = false := beq_eq_false_iff_ne.mpr (Ne.symm h)
    rw [if_neg h, List.find?_cons]
    simp only [hhead, List.find?_filter]
    congr 2
    funext f
    by_cases hf : f.1 = other
    · simp [hf, h]
    · simp [hf]

end Files

/-! ### The store -/

/-- Why the cipher refused to open a blob. -/
inductive CryptoError where
  | truncated
  | decrypt
  deriving DecidableEq, Repr

/-- An AEAD under a fixed key.  Both functions are parameters of the model; what is assumed of
    them stands in `Aead.Lawful`. -/
structure Aead where
  encrypt : (nonce aad msg : Bytes) → Bytes
  decrypt : (nonce aad ct : Bytes) → Option Bytes

/-- `EnvelopeCipher::seal` — `nonce(12) || ciphertext`. -/
def Aead.seal (c : Aead) (nonce aad plaintext : Bytes) : Bytes :=
  nonce ++ c.encrypt nonce aad plaintext

/-- `EnvelopeCipher::open` — a blob too short for nonce and tag is refused before the cipher sees
    it. -/
def Aead.open (c : Aead) (aad sealed : Bytes) : Except CryptoError Bytes :=
  if sealed.length < 12 + 16 then .error .truncated
  else match c.decrypt (sealed.take 12) aad (sealed.drop 12) with
    | some plaintext => .ok plaintext
    | none => .error .decrypt

/-- What AES-GCM documents: decryption inverts encryption under a nonce of twelve bytes, and a
    text that decrypts carries a tag of sixteen bytes. -/
structure Aead.Lawful (c : Aead) : Prop where
  decrypt_encrypt : ∀ nonce aad msg, nonce.length = 12 →
    c.decrypt nonce aad (c.encrypt nonce aad msg) = some msg
  length_decrypt : ∀ nonce aad ct msg, c.decrypt nonce aad ct = some msg →
    ct.length = msg.length + 16

/-- What has been sealed opens, under the same additional data and with whatever nonce it was
    sealed. -/
theorem Aead.Lawful.open_seal {c : Aead} (h : c.Lawful) {nonce : Bytes} (hnonce : nonce.length = 12)
    (aad msg : Bytes) : c.open aad (c.seal nonce aad msg) = .ok msg := by
  have hround := h.decrypt_encrypt nonce aad msg hnonce
  have hlength := h.length_decrypt _ _ _ _ hround
  unfold Aead.open Aead.seal
  rw [if_neg (by rw [List.length_append]; omega), List.take_left' hnonce, List.drop_left' hnonce,
    hround]

/-- What opens is shorter than what was read, by the nonce and the tag. -/
theorem Aead.Lawful.length_open {c : Aead} (h : c.Lawful) {aad blob msg : Bytes}
    (hopen : c.open aad blob = .ok msg) : blob.length = msg.length + 28 := by
  unfold Aead.open at hopen
  split at hopen
  · cases hopen
  · split at hopen
    · rename_i hlong plaintext hplain
      obtain rfl : plaintext = msg := Except.ok.inj hopen
      have hlength := h.length_decrypt _ _ _ _ hplain
      rw [List.length_drop] at hlength
      omega
    · cases hopen

/-- Nothing opens to itself, for a sealed blob is longer than its message; so plaintext is never
    mistaken for its own ciphertext. -/
theorem Aead.Lawful.open_ne_self {c : Aead} (h : c.Lawful) {aad blob : Bytes} :
    c.open aad blob ≠ .ok blob := by
  intro hopen
  have hlength := h.length_open hopen
  omega

/-- Why an object could not be read. -/
inductive ObjectError where
  | io
  | crypto (e : CryptoError)
  | notFound (path : Path)
  deriving DecidableEq, Repr

/-- An open object store: the cipher it seals with, if any.  A store without one writes what it
    is given. -/
structure ObjectStore where
  cipher : Option Aead

namespace ObjectStore

/-- `ObjectStore::plain` — plaintext at rest. -/
def plain : ObjectStore := ⟨none⟩

/-- `ObjectStore::encrypted`, with the cipher of the installation's key. -/
def encrypted (key : Aead) : ObjectStore := ⟨some key⟩

/-- UTF-8 bytes of a string. -/
def utf8 (s : String) : Bytes := s.toUTF8.toList

/-- The bytes `put` leaves on disk; `nonce` is the random nonce of this call. -/
def stored (store : ObjectStore) (nonce : Bytes) (token : String) (bytes : Bytes) : Bytes :=
  match store.cipher with
  | some c => c.seal nonce (utf8 token) bytes
  | none => bytes

/-- `ObjectStore::put` — seal the bytes if there is a cipher, and write them under the object's
    key. -/
def put [TextTables] (store : ObjectStore) (fs : Files) (nonce : Bytes) (clientId : String)
    (date : Int × Nat × Nat) (token ext : String) (bytes : Bytes) : Files :=
  fs.write (keyPath clientId date token ext) (store.stored nonce token bytes)

/-- `ObjectStore::get`; `ioFails` says whether the operating system refuses the read. -/
def get (store : ObjectStore) (fs : Files) (ioFails : Bool) (clientId : String) (rel : Path)
    (token : String) : Except ObjectError Bytes :=
  if ¬ clientPath clientId <+: rel then .error (.notFound rel)
  else if ioFails then .error .io
  else match fs.read? rel with
    | none => .error .io
    | some raw => match store.cipher with
      | none => .ok raw
      | some c => match c.open (utf8 token) raw with
        | .ok bytes => .ok bytes
        | .error e => .error (.crypto e)

/-- `ObjectStore::exists`. -/
def «exists» (fs : Files) (rel : Path) : Bool := (fs.read? rel).isSome

/-- `ObjectStore::purge_client` — the directory of the client disappears. -/
def purgeClient (fs : Files) (clientId : String) : Files := fs.removeDirAll (clientPath clientId)

/-- Nothing under the client's directory survives a purge; if all files lie there, none is left. -/
theorem purgeClient_eq_empty {fs : Files} {clientId : String}
    (h : ∀ f ∈ fs.files, clientPath clientId <+: f.1) : (purgeClient fs clientId).files = [] := by
  rw [purgeClient, Files.removeDirAll, List.filter_eq_nil_iff]
  intro f hf
  simp [h f hf]

end ObjectStore

end Precall.Store
