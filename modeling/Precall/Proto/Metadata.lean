import Precall.Lib.Bytes

namespace Precall.Proto

open ByteLib

/-!
# Metadata records

The records of `precall-proto/src/metadata.rs`: what the client sends on `PcMeta` and what
`ukg.db` keeps, and the control messages of `PcCtrl`.  JSON is read by a crate outside the
repository; the model takes the parsed value (`CaptureBatch`, or nothing when the payload is not
one).
-/

/-- A 128-bit identifier.  Clients and images are named by one; the token of an image is what
    pairs it with its row. -/
structure Uuid where
  bytes : Vector UInt8 16
  deriving DecidableEq, Repr

/-- One hexadecimal digit, lower case. -/
def hexDigit (n : UInt8) : Char :=
  if n < 10 then Char.ofNat (n.toNat + 48) else Char.ofNat (n.toNat + 87)

/-- Two hexadecimal digits. -/
def hexByte (b : UInt8) : List Char := [hexDigit (b / 16), hexDigit (b % 16)]

/-- Bytes `a..b` of an id in hexadecimal: one of the five groups of its text. -/
def Uuid.hex (id : Uuid) (a b : Nat) : List Char :=
  ((id.bytes.toList.take b).drop a).flatMap hexByte

/-- The characters of the canonical form: lower case, hyphens after bytes 4, 6, 8 and 10.  Two
    ids with the same characters are one. -/
def Uuid.chars (id : Uuid) : List Char :=
  id.hex 0 4 ++ '-' :: (id.hex 4 6 ++ '-' :: (id.hex 6 8 ++ '-' :: (id.hex 8 10 ++ '-' ::
    id.hex 10 16)))

/-- The canonical text of an id: the name of its client's directory. -/
def Uuid.text (id : Uuid) : String := String.ofList id.chars

/-- A canonical id is written with hexadecimal digits and hyphens, so it names one directory and
    cannot leave the one it is joined to. -/
theorem Uuid.mem_chars {id : Uuid} {c : Char} (h : c ∈ id.chars) :
    c = '-' ∨ ∃ b, c ∈ hexByte b := by
  have hhex : ∀ a b, c ∈ id.hex a b → ∃ b, c ∈ hexByte b := by
    intro a b hc
    obtain ⟨byte, -, hbyte⟩ := List.mem_flatMap.mp hc
    exact ⟨byte, hbyte⟩
  simp only [Uuid.chars, List.mem_append, List.mem_cons] at h
  rcases h with h | h | h | h | h | h | h | h | h
  · exact Or.inr (hhex _ _ h)
  · exact Or.inl h
  · exact Or.inr (hhex _ _ h)
  · exact Or.inl h
  · exact Or.inr (hhex _ _ h)
  · exact Or.inl h
  · exact Or.inr (hhex _ _ h)
  · exact Or.inl h
  · exact Or.inr (hhex _ _ h)

/-- The signed value of a 64-bit word (`as i64`).  Timestamps and handles are unsigned on the
    wire and signed in a column. -/
def asI64 (w : UInt64) : Int := w.toInt64.toInt

/-- A cast to `i64` lands in its range. -/
theorem asI64_range (w : UInt64) : -2 ^ 63 ≤ asI64 w ∧ asI64 w < 2 ^ 63 :=
  ⟨Int64.le_toInt _, Int64.toInt_lt _⟩

/-- Row shape of `App`: an application that a window belongs to.  The store looks it up before it
    inserts one. -/
structure AppRecord where
  windowsAppId : Option String := none
  iconUri : Option String := none
  name : String
  path : Option String := none
  properties : Option String := none
  deriving DecidableEq, Repr

/-- Row shape of `File`: a document shown in a window, with the ids its file system has for it. -/
structure FileRecord where
  path : String
  name : String
  extension : Option String := none
  kind : Option String := none
  type : Option String := none
  properties : Option String := none
  objectId : Option String := none
  volumeId : Option String := none
  deriving DecidableEq, Repr

/-- Row shape of `Web`: a page shown in a window, with its domain and its icon. -/
structure WebRecord where
  domain : String
  uri : String
  iconUri : Option String := none
  properties : Option String := none
  deriving DecidableEq, Repr

/-- Row shape of `ScreenRegion`: a part of the screen, with the text recognized in it if there is
    any. -/
structure ScreenRegionRecord where
  regionKind : String
  ocrText : Option String := none
  bounds : String
  deriving DecidableEq, Repr

/-- Row shape of `WindowCapture`: one captured desktop moment and its associations.  Its image
    token says which frame on the graphics channel belongs to it. -/
structure WindowCaptureRecord where
  name : String
  imageToken : String
  isForeground : Bool
  windowId : Int
  windowBounds : String
  windowTitle : String
  properties : Option String := none
  timestamp100ns : UInt64
  activationUri : Option String := none
  activityId : Option String := none
  fallbackUri : Option String := none
  apps : List AppRecord := []
  files : List FileRecord := []
  webs : List WebRecord := []
  regions : List ScreenRegionRecord := []
  deriving DecidableEq, Repr

/-- One `PcMeta` payload: an ordered batch of captures from one client.  Each capture names the
    image it belongs to by its token. -/
structure CaptureBatch where
  clientId : Uuid
  seq : UInt64
  captures : List WindowCaptureRecord
  deriving DecidableEq, Repr

/-- `PcCtrl` control messages. -/
inductive ControlMessage where
  | pause
  | resume (captureIntervalMs : Option UInt32)
  | setExclusions (apps domains : List String)
  | heartbeat (framesSent framesSkippedUnchanged : UInt64) (queueDepth : UInt32)
  | panicWipe
  | goodbye (reason : String)
  deriving DecidableEq, Repr

end Precall.Proto
