import Mathlib.Data.Nat.Digits.Defs
import Precall.Broker.Session
import Precall.Client.Run

namespace Precall.Client

open ByteLib TextLib Durable Precall.Proto Precall.Store Precall.Broker

/-!
# Audio from the client to the broker

`Connection::send_audio` of `precall-client/src/session.rs` against `Broker::handle_audio` of
`precall-broker/src/ingest.rs`.  Each side spells the JSON header of a `PcAudio` payload itself:
the client writes `codec`, `channels` and `sample_rate`, as the protocol document has it; the
broker's `AudioHead` has a required field `token`.

What the JSON crate does with a text is a parameter (`JsonReader`); what its derived reader does
with the fields of an object follows from the struct (`audioHeadOfFields`).

* `parseAudio_sendAudio` — the broker cuts the header out as the client put it in;
* `audio_never_stored` — hence every chunk the client sends ends the session and stores nothing.
-/

/-! ### Flat JSON objects -/

/-- A value of a flat JSON object, as far as the header of a chunk needs them. -/
inductive JsonScalar where
  | null
  | number (n : Int)
  | string (s : String)
  deriving DecidableEq, Repr

/-- The fields of a flat JSON object, in the order they are written in. -/
abbrev JsonFields := List (String × JsonScalar)

/-- The compact text of a value; a string here needs no escape. -/
def JsonScalar.text : JsonScalar → String
  | .null => "null"
  | .number n => toString n
  | .string s => "\"" ++ s ++ "\""

/-- The compact text of an object. -/
def jsonText (fields : JsonFields) : String :=
  "\x7b" ++ ",".intercalate (fields.map fun f => "\"" ++ f.1 ++ "\":" ++ f.2.text) ++ "\x7d"

/-- The derived reader of `AudioHead`: `token` is required, `timestamp_100ns` may be absent or null,
    other fields are ignored. -/
def audioHeadOfFields (fields : JsonFields) : Option AudioHead :=
  match fields.lookup "token" with
  | some (.string token) => match fields.lookup "timestamp_100ns" with
    | none | some .null => some ⟨token, none⟩
    | some (.number n) => if -2 ^ 63 ≤ n ∧ n < 2 ^ 63 then some ⟨token, some n⟩ else none
    | some (.string _) => none
  | _ => none

/-! ### The encoder -/

/-- The header of a chunk; the map of the JSON crate keeps its keys sorted.  A token is not among
    them. -/
def audioHeader (chunk : AudioChunk) : JsonFields :=
  [("channels", .number chunk.channels.toNat), ("codec", .string "pcm16"),
    ("sample_rate", .number chunk.sampleRate.toNat)]

/-- The bytes of the header. -/
def audioHeaderBytes (chunk : AudioChunk) : Bytes :=
  ObjectStore.utf8 (jsonText (audioHeader chunk))

/-- The samples, little-endian. -/
def pcmBytes (pcm : List Int16) : Bytes := pcm.flatMap i16ToLe

/-- `Connection::send_audio` — `[u16 header-len][json header][pcm16 payload]` on the audio
    channel. -/
def sendAudio (chunk : AudioChunk) : MuxFrame :=
  let hb := audioHeaderBytes chunk
  ⟨.pcAudio, toLe 2 hb.length ++ hb ++ pcmBytes chunk.pcm16⟩

/-- A number below `10 ^ e` takes at most `4 * e` bytes of text. -/
private theorem size_number_le {n e : Nat} (he : 0 < e) (hn : n < 10 ^ e) :
    (JsonScalar.text (.number n)).utf8ByteSize ≤ 4 * e := by
  have hlen : (Nat.repr n).length ≤ e := Nat.repr_length n e he hn
  have htext : JsonScalar.text (.number n) = Nat.repr n := rfl
  rw [htext]
  have hsize := utf8ByteSize_le (Nat.repr n)
  omega

/-- The header fits the 16 bits of its length, whatever the numbers in it. -/
theorem length_audioHeaderBytes (chunk : AudioChunk) :
    (audioHeaderBytes chunk).length < 256 ^ 2 := by
  have hchannels : (JsonScalar.text (.number chunk.channels.toNat)).utf8ByteSize ≤ 4 * 5 :=
    size_number_le (by decide) (lt_trans chunk.channels.toNat_lt (by decide))
  have hrate : (JsonScalar.text (.number chunk.sampleRate.toNat)).utf8ByteSize ≤ 4 * 10 :=
    size_number_le (by decide) (lt_trans chunk.sampleRate.toNat_lt (by decide))
  have hbytes : (audioHeaderBytes chunk).length = (jsonText (audioHeader chunk)).utf8ByteSize :=
    length_byteArray_toList _
  have hfixed : "\x7b".utf8ByteSize = 1 ∧ "\x7d".utf8ByteSize = 1 ∧ "\"".utf8ByteSize = 1 ∧
      "\":".utf8ByteSize = 2 ∧ ",".utf8ByteSize = 1 ∧ "channels".utf8ByteSize = 8 ∧
      "codec".utf8ByteSize = 5 ∧ "sample_rate".utf8ByteSize = 11 ∧
      (JsonScalar.text (.string "pcm16")).utf8ByteSize = 7 := by decide
  obtain ⟨h1, h2, h3, h4, h5, h6, h7, h8, h9⟩ := hfixed
  rw [hbytes]
  simp only [jsonText, audioHeader, List.map_cons, List.map_nil, String.intercalate_cons_cons,
    String.intercalate_singleton, String.utf8ByteSize_append]
  omega

/-! ### The decoder on it -/

/-- **The broker cuts the header out as the client put it in**, and hands it to the JSON crate
    before it looks at the samples. -/
theorem parseAudio_sendAudio (json : JsonReader) (chunk : AudioChunk) :
    parseAudio json (sendAudio chunk).payload =
      (json.audioHead (audioHeaderBytes chunk)).elim (.error .json) fun head =>
        .ok (if pcmBytes chunk.pcm16 = [] then none else some (head, pcmBytes chunk.pcm16)) := by
  generalize hhb : audioHeaderBytes chunk = hb
  have hword : hb.length < 256 ^ 2 := hhb ▸ length_audioHeaderBytes chunk
  have hpayload : (sendAudio chunk).payload = toLe 2 hb.length ++ (hb ++ pcmBytes chunk.pcm16) := by
    simp only [sendAudio, hhb, List.append_assoc]
  have hhlen : ofLe ((sendAudio chunk).payload.take 2) = hb.length := by
    rw [hpayload, List.take_left' (length_toLe 2 _), ofLe_toLe_of_lt hword]
  have hdrop : (sendAudio chunk).payload.drop 2 = hb ++ pcmBytes chunk.pcm16 := by
    rw [hpayload, List.drop_left' (length_toLe 2 _)]
  have htotal : (sendAudio chunk).payload.length =
      2 + hb.length + (pcmBytes chunk.pcm16).length := by
    rw [hpayload, List.length_append, List.length_append, length_toLe]
    omega
  have hhead : ((sendAudio chunk).payload.drop 2).take hb.length = hb := by
    rw [hdrop, List.take_left' rfl]
  have hdata : (sendAudio chunk).payload.drop (2 + hb.length) = pcmBytes chunk.pcm16 := by
    rw [← List.drop_drop, hdrop, List.drop_left' rfl]
  unfold parseAudio
  rw [hhlen]
  dsimp only
  rw [if_neg (by omega), hhead, hdata]
  cases json.audioHead hb <;> rfl

/-- The fields the client writes are no `AudioHead`, since that has to name a token. -/
theorem ofFields_audioHeader (chunk : AudioChunk) : audioHeadOfFields (audioHeader chunk) = none :=
  rfl

section
variable [TextTables]

/-- `handle_audio` on a chunk stores exactly one audio object, with the samples as its bytes, and
    returns `Ok`. -/
def AudioStored (json : JsonReader) (cfg : SessionConfig) (chunk : AudioChunk)
    (nonces : Nat → Bytes) (now : Int) : Prop :=
  ∀ dir log, ∃ date token,
    let e := Event.putObject cfg.clientId.text date token "opus"
      (cfg.objects.stored (nonces 0) token (pcmBytes chunk.pcm16))
    Prog.run Event.apply (handleAudio json cfg ⟨sendAudio chunk, nonces, now⟩) 1 dir log =
      ⟨e.apply dir, log ++ [e], some ()⟩

/-- **No chunk the client sends is stored, and each ends the session.**  The JSON crate is assumed
    to read the header's text as the fields it was written from. -/
theorem audio_never_stored (json : JsonReader) (cfg : SessionConfig) (chunk : AudioChunk)
    (nonces : Nat → Bytes) (now : Int)
    (hread : json.audioHead (audioHeaderBytes chunk) = audioHeadOfFields (audioHeader chunk)) :
    ¬ AudioStored json cfg chunk nonces now ∧
      ∀ st budget dir log,
        Prog.run Event.apply (dispatch json cfg ⟨sendAudio chunk, nonces, now⟩ st) budget dir log =
          ⟨dir, log, none⟩ := by
  have habort : handleAudio json cfg ⟨sendAudio chunk, nonces, now⟩ = Prog.abort := by
    rw [handleAudio, parseAudio_sendAudio, hread, ofFields_audioHeader, Option.elim_none]
  constructor
  · intro hstored
    obtain ⟨date, token, hrun⟩ := hstored ClientDir.new []
    rw [habort] at hrun
    cases hrun
  · intro st budget dir log
    show Prog.run Event.apply (handleAudio json cfg ⟨sendAudio chunk, nonces, now⟩ >>= fun _ =>
      pure st) budget dir log = _
    rw [habort]
    rfl

end

/-! ### One chunk -/

section

attribute [local instance] TextTables.ascii

/-- Two samples in mono. -/
def twoSamples : AudioChunk := ⟨[1, -1], 1, 48000⟩

/-- A reader that knows one header with a token. -/
def oneHeader : JsonReader where
  captureBatch := fun _ => none
  audioHead := fun bytes =>
    if bytes = ObjectStore.utf8 (jsonText [("token", .string "t")]) then
      audioHeadOfFields [("token", .string "t")]
    else none

/-- A session of a client whose id is all zeros. -/
def audioSession : SessionConfig := ⟨⟨Vector.replicate 16 0⟩, "pc", 1, ⟨none⟩⟩

/-- The chunk is refused. -/
theorem audio_never_stored_two :
    ¬ AudioStored oneHeader audioSession twoSamples (fun _ => []) 0 :=
  (audio_never_stored oneHeader audioSession twoSamples (fun _ => []) 0 (by decide +kernel)).1

/-- **Encoder and decoder disagree**, also for a non-empty chunk within the cap: the broker
    refuses the header and the session ends. -/
theorem audio_refused :
    ¬ ∀ (json : JsonReader) (cfg : SessionConfig) (chunk : AudioChunk) (nonces : Nat → Bytes)
      (now : Int),
      json.audioHead (audioHeaderBytes chunk) = audioHeadOfFields (audioHeader chunk) →
      chunk.pcm16 ≠ [] → (sendAudio chunk).payload.length ≤ maxMuxPayload →
      AudioStored json cfg chunk nonces now := by
  intro h
  have hstored := h oneHeader audioSession twoSamples (fun _ => []) 0 (by decide +kernel)
    (by decide) (by decide +kernel)
  obtain ⟨date, token, hrun⟩ := hstored ClientDir.new []
  have hrefused : (Prog.run Event.apply (handleAudio oneHeader audioSession
      ⟨sendAudio twoSamples, fun _ => [], 0⟩) 1 ClientDir.new []).value = none := by
    decide +kernel
  rw [hrun] at hrefused
  cases hrefused

end

end Precall.Client
