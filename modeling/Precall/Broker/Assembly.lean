import Precall.Broker.Session
import Precall.Proto.GfxRoundTrip

namespace Precall.Broker

open ByteLib Durable Precall.Proto Precall.Store

/-!
# What a frame is made of

The frames that come out of `FrameAssembler` (`precall-broker/src/ingest.rs`), by the PDUs that
went in.

* `OpenAt` — the frame a list of PDUs leaves open, with its regions, without the assembler;
  `tracks_feedAll` — the assembler keeps exactly that;
* `outputs_spec` — a frame comes out where the open frame ends, made of its regions and nothing
  else; `payloads_never_mix` — over the wire, in payloads of any number of PDUs;
* `stored_as_jpeg_iff` — which frames are stored as JPEG files; `jpeg_exact_iff` — these are the
  single JPEG regions, except where a frame of several regions ends in one.
-/

/-- A region of a frame: codec, rectangle and data, as its PDU brings them. -/
abbrev Region := UInt16 × Rect × Bytes

/-- The region a PDU brings, if it brings one. -/
def regionOf : GfxPdu → Option Region
  | .wireToSurface1 _ codecId _ destRect bitmapData => some (codecId, destRect, bitmapData)
  | _ => none

/-- After these PDUs frame `id` is open with these regions: `id` is the latest frame started, it
    has not been ended since, and the regions are those received since, in order. -/
def OpenAt (pdus : List GfxPdu) (id : UInt32) (regions : List Region) : Prop :=
  ∃ before timestamp since, pdus = before ++ .startFrame id timestamp :: since ∧
    (∀ pdu ∈ since, ∀ id' t, pdu ≠ .startFrame id' t) ∧ .endFrame id ∉ since ∧
    regions = since.filterMap regionOf

/-! ### One more PDU -/

section
variable {pdus : List GfxPdu} {id : UInt32} {regions : List Region}

/-- A frame just started is open and empty. -/
theorem openAt_startFrame {id' t : UInt32} :
    OpenAt (pdus ++ [.startFrame id' t]) id regions ↔ id' = id ∧ regions = [] := by
  constructor
  · rintro ⟨before, timestamp, since, hsplit, hstart, -, hregions⟩
    rcases List.eq_nil_or_concat' since with rfl | ⟨since, pdu, rfl⟩
    · obtain ⟨-, hlast⟩ := List.append_inj' hsplit rfl
      obtain ⟨rfl, -⟩ := GfxPdu.startFrame.inj (List.cons.inj hlast).1
      exact ⟨rfl, hregions⟩
    · -- the open frame would have been started before the last PDU, which starts another
      rw [← List.cons_append, ← List.append_assoc] at hsplit
      obtain ⟨-, hlast⟩ := List.append_inj' hsplit rfl
      exact absurd (List.cons.inj hlast).1.symm (hstart pdu (by simp) id' t)
  · rintro ⟨rfl, rfl⟩
    exact ⟨pdus, t, [], rfl, by simp, by simp, rfl⟩

/-- Any other PDU keeps the frame open unless it ends it, and adds the region it brings; an
    `END_FRAME` of another frame changes nothing. -/
theorem openAt_concat {pdu : GfxPdu} (hpdu : ∀ id' t, pdu ≠ .startFrame id' t) :
    OpenAt (pdus ++ [pdu]) id regions ↔
      pdu ≠ .endFrame id ∧ ∃ earlier, OpenAt pdus id earlier ∧
        regions = earlier ++ (regionOf pdu).toList := by
  constructor
  · rintro ⟨before, timestamp, since, hsplit, hstart, hend, rfl⟩
    rcases List.eq_nil_or_concat' since with rfl | ⟨since, last, rfl⟩
    · -- the start of the open frame is not the last PDU
      obtain ⟨-, hlast⟩ := List.append_inj' hsplit rfl
      exact absurd (List.cons.inj hlast).1 (hpdu id timestamp)
    · rw [← List.cons_append, ← List.append_assoc] at hsplit
      obtain ⟨hpdus, hlast⟩ := List.append_inj' hsplit rfl
      obtain ⟨rfl, -⟩ := List.cons.inj hlast
      refine ⟨fun heq => hend (by simp [heq]), since.filterMap regionOf, ?_, ?_⟩
      · exact ⟨before, timestamp, since, hpdus, fun p hp => hstart p (by simp [hp]),
          fun hmem => hend (by simp [hmem]), rfl⟩
      · rw [List.filterMap_append]
        cases hregion : regionOf pdu <;> simp [hregion]
  · rintro ⟨hne, earlier, ⟨before, timestamp, since, rfl, hstart, hend, rfl⟩, rfl⟩
    refine ⟨before, timestamp, since ++ [pdu], by simp, fun p hp => ?_, fun hmem => ?_, ?_⟩
    · rcases List.mem_append.mp hp with hp | hp
      · exact hstart p hp
      · rw [List.mem_singleton.mp hp]
        exact hpdu
    · rcases List.mem_append.mp hmem with hmem | hmem
      · exact hend hmem
      · exact hne (List.mem_singleton.mp hmem).symm
    · rw [List.filterMap_append]
      cases hregion : regionOf pdu <;> simp [hregion]

end

/-! ### The assembler's state -/

/-- The assembler holds the open frame and its regions, and none where no frame is open. -/
def Tracks (frames : FrameAssembler) (pdus : List GfxPdu) : Prop :=
  ∀ id regions, OpenAt pdus id regions ↔ frames.currentId = some id ∧ frames.regions = regions

/-- Before the first PDU no frame is open. -/
theorem tracks_new : Tracks FrameAssembler.new [] := by
  intro id regions
  constructor
  · rintro ⟨before, timestamp, since, hsplit, -⟩
    simp at hsplit
  · rintro ⟨hid, -⟩
    cases hid

/-- **One PDU.** The assembler goes on holding the open frame: one case for each kind of PDU. -/
theorem tracks_feed {frames : FrameAssembler} {pdus : List GfxPdu} (h : Tracks frames pdus)
    (pdu : GfxPdu) : Tracks (frames.feed pdu).1 (pdus ++ [pdu]) := by
  intro id regions
  cases pdu with
  | startFrame id' t =>
    rw [openAt_startFrame]
    simp [FrameAssembler.feed, FrameAssembler.begin, eq_comm]
  | wireToSurface1 surfaceId codecId pixelFormat destRect bitmapData =>
    rw [openAt_concat (by simp)]
    simp only [h id, FrameAssembler.feed, FrameAssembler.region, regionOf]
    split
    · simp [eq_comm]
    · -- no frame is open: the region is dropped
      rename_i hnone
      have hclosed : frames.currentId ≠ some id := by
        intro hid
        simp [hid] at hnone
      simp [hclosed]
  | endFrame id' =>
    rw [openAt_concat (by simp)]
    simp only [h id, FrameAssembler.feed, FrameAssembler.finish, regionOf]
    split
    · -- another frame is ended: the open one stays as it is
      rename_i hother
      simp only [ne_eq, GfxPdu.endFrame.injEq, Option.toList_none, List.append_nil]
      constructor
      · rintro ⟨-, earlier, hopen, rfl⟩
        exact hopen
      · rintro ⟨hid, hregions⟩
        exact ⟨fun heq => hother (heq ▸ hid), regions, ⟨hid, hregions⟩, rfl⟩
    · -- the open frame is ended, and none is open behind it
      rename_i hsame
      rw [not_not] at hsame
      refine iff_of_false ?_ (by simp)
      rintro ⟨hne, earlier, ⟨hid, -⟩, -⟩
      rw [hsame] at hid
      exact hne (congrArg GfxPdu.endFrame (Option.some.inj hid))
  | frameAcknowledge queueDepth frameId totalFramesDecoded =>
    rw [openAt_concat (by simp)]
    simp [h id, FrameAssembler.feed, regionOf]

/-- The assembler tracks its PDUs along a whole session: the step lemma, by induction on them. -/
theorem tracks_feedAll {frames : FrameAssembler} {earlier : List GfxPdu}
    (h : Tracks frames earlier) (pdus : List GfxPdu) :
    Tracks (frames.feedAll pdus).1 (earlier ++ pdus) := by
  induction pdus generalizing frames earlier with
  | nil => simpa [FrameAssembler.feedAll] using h
  | cons pdu pdus ih =>
    have hrest := ih (tracks_feed h pdu)
    rwa [List.append_assoc, List.singleton_append] at hrest

/-! ### What comes out -/

/-- The data of a frame: that of its one region, or the regions one after the other, each behind
    its rectangle and length. -/
def frameData : List Region → Bytes
  | [(_, _, data)] => data
  | regions => regions.flatMap fun (_, rect, data) =>
      i16ToLe rect.left ++ i16ToLe rect.top ++ i16ToLe rect.right ++ i16ToLe rect.bottom ++
        toLe 4 data.length ++ data

/-- The codec of a frame: that of its last region, whatever the others are. -/
def frameCodec (regions : List Region) : UInt16 :=
  (regions.getLast?.map Prod.fst).getD rdpgfxCodecidUncompressed

/-- An ended frame has the codec of its last region and the data of all of them. -/
theorem assemble_eq (regions : List Region) :
    FrameAssembler.assemble regions = ⟨frameCodec regions, frameData regions⟩ := by
  have hlast : regions.foldl (fun _ r => r.1) rdpgfxCodecidUncompressed = frameCodec regions := by
    induction regions using List.reverseRecOn with
    | nil => rfl
    | append_singleton regions r ih => simp [frameCodec]
  rcases regions with _ | ⟨r, _ | ⟨r', regions⟩⟩
  · rfl
  · rfl
  · exact congrArg (PendingFrame.mk · _) hlast

/-- This PDU ends the frame open after the earlier ones, which has these regions. -/
def Ends (earlier : List GfxPdu) (pdu : GfxPdu) (regions : List Region) : Prop :=
  ∃ id, pdu = .endFrame id ∧ OpenAt earlier id regions

/-- A frame comes out of a PDU exactly if that ends the open frame, and then it is assembled of
    its regions. -/
theorem feed_output {frames : FrameAssembler} {earlier : List GfxPdu} (h : Tracks frames earlier)
    (pdu : GfxPdu) (f : PendingFrame) :
    (frames.feed pdu).2 = some f ↔
      ∃ regions, Ends earlier pdu regions ∧ f = ⟨frameCodec regions, frameData regions⟩ := by
  unfold Ends
  cases pdu with
  | endFrame id =>
    simp only [FrameAssembler.feed, FrameAssembler.finish, GfxPdu.endFrame.injEq]
    split
    · rename_i hother
      refine iff_of_false (by simp) ?_
      rintro ⟨regions, ⟨id', rfl, hopen⟩, -⟩
      exact hother ((h id regions).mp hopen).1
    · rename_i hsame
      rw [not_not] at hsame
      rw [Option.some.injEq, assemble_eq]
      constructor
      · rintro rfl
        exact ⟨frames.regions, ⟨id, rfl, (h id _).mpr ⟨hsame, rfl⟩⟩, rfl⟩
      · rintro ⟨regions, ⟨id', rfl, hopen⟩, rfl⟩
        rw [((h id regions).mp hopen).2]
  | _ => simp [FrameAssembler.feed]

/-- What comes out of each PDU in turn, so that frames keep their place among the PDUs. -/
def outputs (frames : FrameAssembler) : List GfxPdu → List (Option PendingFrame)
  | [] => []
  | pdu :: pdus => (frames.feed pdu).2 :: outputs (frames.feed pdu).1 pdus

/-- Every PDU puts out something, a frame or nothing. -/
theorem length_outputs (frames : FrameAssembler) (pdus : List GfxPdu) :
    (outputs frames pdus).length = pdus.length := by
  induction pdus generalizing frames with
  | nil => rfl
  | cons pdu pdus ih => rw [outputs, List.length_cons, ih, List.length_cons]

/-- The assembler goes on where the first PDUs left it. -/
theorem outputs_append (frames : FrameAssembler) (pdus pdus' : List GfxPdu) :
    outputs frames (pdus ++ pdus')
      = outputs frames pdus ++ outputs (frames.feedAll pdus).1 pdus' := by
  induction pdus generalizing frames with
  | nil => rfl
  | cons pdu pdus ih => simp only [List.cons_append, outputs, ih, FrameAssembler.feedAll]

/-- So does its state. -/
theorem feedAll_append (frames : FrameAssembler) (pdus pdus' : List GfxPdu) :
    (frames.feedAll (pdus ++ pdus')).1 = ((frames.feedAll pdus).1.feedAll pdus').1 := by
  induction pdus generalizing frames with
  | nil => rfl
  | cons pdu pdus ih => simp only [List.cons_append, FrameAssembler.feedAll, ih]

/-- **What comes out of a session.**  At each PDU a frame comes out exactly if it ends the open
    frame, and that frame is made of the regions received since it was started. -/
theorem outputs_spec {pdus before after : List GfxPdu} {pdu : GfxPdu}
    (hsplit : pdus = before ++ pdu :: after) (f : PendingFrame) :
    (outputs FrameAssembler.new pdus)[before.length]? = some (some f) ↔
      ∃ regions, Ends before pdu regions ∧ f = ⟨frameCodec regions, frameData regions⟩ := by
  have htracks := tracks_feedAll tracks_new before
  rw [List.nil_append] at htracks
  rw [← feed_output htracks pdu f, hsplit, outputs_append,
    List.getElem?_append_right (by rw [length_outputs]), length_outputs, Nat.sub_self, outputs,
    List.getElem?_cons_zero, Option.some.injEq]

/-! ### Over the wire -/

/-- A `GfxRdp` payload of whole PDUs: its bytes, and what they decode to. -/
structure GfxPayload where
  pdus : List GfxPdu
  bytes : Bytes
  /-- The bytes decode to these PDUs and nothing else. -/
  whole : gfxItems bytes = pdus.map .ok

/-- Encoded PDUs one after the other are such a payload. -/
def GfxPayload.ofPdus (pdus : List GfxPdu) (h : ∀ pdu ∈ pdus, pdu.encodedLen < 2 ^ 32) :
    GfxPayload :=
  ⟨pdus, pdus.flatMap GfxPdu.encode, gfxItems_flatMap_encode h⟩

/-- Payloads in turn, each with the queue it finds, since captures take frames off it in between;
    the first error ends the session. -/
def handlePayloads (frames : FrameAssembler) :
    List (List PendingFrame × GfxPayload) →
      Except BrokerError (FrameAssembler × List (List PendingFrame))
  | [] => .ok (frames, [])
  | (pending, payload) :: rest => do
      let (frames', pending') ← handleGfx payload.bytes frames pending
      let (frames'', queues) ← handlePayloads frames' rest
      return (frames'', pending' :: queues)

/-- The PDUs of all the payloads. -/
def allPdus (arrivals : List (List PendingFrame × GfxPayload)) : List GfxPdu :=
  arrivals.flatMap fun a => a.2.pdus

/-- The PDUs of the first payload come first. -/
theorem allPdus_cons (a : List PendingFrame × GfxPayload)
    (arrivals : List (List PendingFrame × GfxPayload)) :
    allPdus (a :: arrivals) = a.2.pdus ++ allPdus arrivals :=
  List.flatMap_cons

/-- The queue a payload leaves, from what its PDUs put out, the oldest giving way where it is
    full. -/
def queueAfter (a : List PendingFrame × GfxPayload) (out : List (Option PendingFrame)) :
    List PendingFrame :=
  out.reduceOption.foldl pushPending a.1

/-- Items that are all PDUs are fed to the assembler, and what comes out joins the queue. -/
theorem handleItems_pdus (frames : FrameAssembler) (pending : List PendingFrame)
    (pdus : List GfxPdu) :
    handleItems frames pending (pdus.map .ok)
      = .ok ((frames.feedAll pdus).1, (outputs frames pdus).reduceOption.foldl pushPending pending)
      := by
  induction pdus generalizing frames pending with
  | nil => rfl
  | cons pdu pdus ih =>
    simp only [List.map_cons, handleItems, ih, outputs, FrameAssembler.feedAll]
    cases (frames.feed pdu).2 <;> rfl

/-- **One payload after the other.**  None of them fails, and together they put out what their
    PDUs would put out in one. -/
theorem handlePayloads_eq (frames : FrameAssembler)
    (arrivals : List (List PendingFrame × GfxPayload)) :
    ∃ outs : List (List (Option PendingFrame)),
      handlePayloads frames arrivals
        = .ok ((frames.feedAll (allPdus arrivals)).1, List.zipWith queueAfter arrivals outs) ∧
      outs.map List.length = arrivals.map (fun a => a.2.pdus.length) ∧
      outs.flatten = outputs frames (allPdus arrivals) := by
  induction arrivals generalizing frames with
  | nil => exact ⟨[], rfl, rfl, rfl⟩
  | cons a arrivals ih =>
    obtain ⟨pending, payload⟩ := a
    obtain ⟨outs, hrun, hlen, hflat⟩ := ih (frames.feedAll payload.pdus).1
    refine ⟨outputs frames payload.pdus :: outs, ?_, ?_, ?_⟩
    · have hone : handleGfx payload.bytes frames pending = _ :=
        (congrArg (handleItems frames pending) payload.whole).trans
          (handleItems_pdus frames pending payload.pdus)
      have hstep : handlePayloads frames ((pending, payload) :: arrivals)
          = (handlePayloads (frames.feedAll payload.pdus).1 arrivals).map fun r =>
              (r.1, queueAfter (pending, payload) (outputs frames payload.pdus) :: r.2) := by
        rw [handlePayloads, hone]
        rfl
      rw [hstep, hrun, Except.map, allPdus_cons, feedAll_append, List.zipWith_cons_cons]
    · rw [List.map_cons, List.map_cons, hlen, length_outputs]
    · rw [List.flatten_cons, hflat, allPdus_cons, outputs_append]

/-- **No frame is mixed with another.**  However the PDUs of a session are cut into payloads,
    none of them fails; together they put out what the assembler puts out for all the PDUs in one; a
    PDU puts out a frame exactly if it ends the open one, made of the regions received since that
    was started; and each payload's frames join its queue in order. -/
theorem payloads_never_mix (arrivals : List (List PendingFrame × GfxPayload)) :
    ∃ (frames : FrameAssembler) (outs : List (List (Option PendingFrame))),
      handlePayloads FrameAssembler.new arrivals
        = .ok (frames, List.zipWith queueAfter arrivals outs) ∧
      outs.map List.length = arrivals.map (fun a => a.2.pdus.length) ∧
      outs.flatten = outputs FrameAssembler.new (allPdus arrivals) ∧
      ∀ before pdu after f, allPdus arrivals = before ++ pdu :: after →
        (outs.flatten[before.length]? = some (some f) ↔
          ∃ regions, Ends before pdu regions ∧ f = ⟨frameCodec regions, frameData regions⟩) := by
  obtain ⟨outs, hrun, hlen, hflat⟩ := handlePayloads_eq FrameAssembler.new arrivals
  refine ⟨_, outs, hrun, hlen, hflat, fun before pdu after f hsplit => ?_⟩
  rw [hflat]
  exact outputs_spec hsplit f

/-- A frame cut between two payloads joins the queue of the second. -/
example : (handlePayloads FrameAssembler.new
    [([], .ofPdus [.startFrame 1 0, .wireToSurface1 0 rdpgfxCodecidJpeg rdpgfxPixelFormatXrgb8888
        ⟨0, 0, 1, 1⟩ [0xff, 0xd8]] (by decide)),
      ([], .ofPdus [.endFrame 1, .startFrame 2 0] (by decide))]).map Prod.snd
    = .ok [[], [⟨rdpgfxCodecidJpeg, [0xff, 0xd8]⟩]] := by
  decide +kernel

/-! ### Which frames are called JPEG -/

/-- A frame is stored as a JPEG file exactly if its last region is one: the codec of the frame
    decides the extension. -/
theorem stored_as_jpeg_iff (regions : List Region) :
    (PendingFrame.mk (frameCodec regions) (frameData regions)).ext = "jpg" ↔
      regions.getLast?.map Prod.fst = some rdpgfxCodecidJpeg := by
  have hne : ("raw" : String) ≠ "jpg" := by decide
  rw [PendingFrame.ext]
  split
  · rename_i hcodec
    refine iff_of_true rfl ?_
    cases hlast : regions.getLast? with
    | none => simp [frameCodec, hlast, rdpgfxCodecidUncompressed, rdpgfxCodecidJpeg] at hcodec
    | some r => simpa [frameCodec, hlast] using hcodec
  · rename_i hcodec
    refine iff_of_false hne fun hlast => hcodec ?_
    rw [frameCodec, hlast, Option.getD_some]

/-- The frames a session puts out, with the regions they are made of and at the PDU that ends
    them. -/
def PutsOut (pdus : List GfxPdu) (regions : List Region) (f : PendingFrame) : Prop :=
  ∃ before pdu after, pdus = before ++ pdu :: after ∧ Ends before pdu regions ∧
    (outputs FrameAssembler.new pdus)[before.length]? = some (some f)

/-- A frame that is put out is made of the regions it is said to be made of. -/
theorem putsOut_frame {pdus : List GfxPdu} {regions : List Region} {f : PendingFrame}
    (h : PutsOut pdus regions f) : f = ⟨frameCodec regions, frameData regions⟩ := by
  obtain ⟨before, pdu, after, hsplit, ⟨id, rfl, hopen⟩, hout⟩ := h
  obtain ⟨regions', ⟨id', heq, hopen'⟩, hf⟩ := (outputs_spec hsplit f).mp hout
  have htracks := tracks_feedAll tracks_new before
  rw [List.nil_append] at htracks
  rw [hf, ← ((htracks id regions).mp hopen).2, ← ((htracks id' regions').mp hopen').2]

/-- The write of a frame is that of a JPEG file exactly if the frame is stored as one. -/
theorem putFrame_jpg {cfg : SessionConfig} {nonce : Bytes} {capture : WindowCaptureRecord}
    (f : PendingFrame) :
    (∃ stored, putFrame cfg nonce capture f = .putObject cfg.clientId.text
      (ymdFromFiletime (asI64 capture.timestamp100ns)) capture.imageToken "jpg" stored) ↔
        f.ext = "jpg" := by
  constructor
  · rintro ⟨stored, hput⟩
    exact (Event.putObject.inj hput).2.2.2.1
  · intro hext
    exact ⟨cfg.objects.stored nonce capture.imageToken f.data, by rw [putFrame, hext]⟩

/-- Whichever capture a frame of the session is paired with, it is stored as a JPEG file exactly
    if it is the data of one JPEG region. -/
def JpegExact (cfg : SessionConfig) (nonce : Bytes) (capture : WindowCaptureRecord)
    (pdus : List GfxPdu) : Prop :=
  ∀ regions f, PutsOut pdus regions f →
    ((∃ stored, putFrame cfg nonce capture f = .putObject cfg.clientId.text
        (ymdFromFiletime (asI64 capture.timestamp100ns)) capture.imageToken "jpg" stored) ↔
      ∃ rect, regions = [(rdpgfxCodecidJpeg, rect, f.data)])

/-- A frame of several regions whose last one is a JPEG: it is stored as a JPEG file, but its
    bytes are those of all regions. -/
def EndsInJpeg (regions : List Region) : Prop :=
  2 ≤ regions.length ∧ regions.getLast?.map Prod.fst = some rdpgfxCodecidJpeg

/-- **JPEG files.**  The JPEG files of a session are its JPEG regions if and only if no frame that
    is ended holds several regions of which the last is a JPEG. -/
theorem jpeg_exact_iff (cfg : SessionConfig) (nonce : Bytes) (capture : WindowCaptureRecord)
    (pdus : List GfxPdu) :
    JpegExact cfg nonce capture pdus ↔
      ∀ before id after regions, pdus = before ++ .endFrame id :: after →
        OpenAt before id regions → ¬ EndsInJpeg regions := by
  constructor
  · -- such a frame is put out and stored as a JPEG file, but it is not one region
    rintro hexact before id after regions hsplit hopen ⟨hlen, hlast⟩
    have hends : Ends before (.endFrame id) regions := ⟨id, rfl, hopen⟩
    have hout := (outputs_spec hsplit _).mpr ⟨regions, hends, rfl⟩
    obtain ⟨rect, hone⟩ := (hexact regions _ ⟨before, _, after, hsplit, hends, hout⟩).mp
      ((putFrame_jpg _).mpr ((stored_as_jpeg_iff regions).mpr hlast))
    rw [hone] at hlen
    exact absurd hlen (by simp)
  · intro hnone regions f hput
    obtain ⟨before, pdu, after, hsplit, ⟨id, rfl, hopen⟩, -⟩ := id hput
    rw [putFrame_jpg, putsOut_frame hput, stored_as_jpeg_iff]
    constructor
    · intro hlast
      match regions with
      | [] => cases hlast
      | [(codec, rect, data)] =>
        exact ⟨rect, by rw [← Option.some.inj hlast]; rfl⟩
      | r :: r' :: regions =>
        exact absurd ⟨by simp, hlast⟩ (hnone before id after _ hsplit hopen)
    · rintro ⟨rect, hone⟩
      rw [hone]
      rfl

/-- A frame of two regions, an uncompressed one and a JPEG. -/
def mixedFrame : List GfxPdu :=
  [.startFrame 1 0,
    .wireToSurface1 0 rdpgfxCodecidUncompressed rdpgfxPixelFormatXrgb8888 ⟨0, 0, 1, 1⟩ [1, 2, 3, 4],
    .wireToSurface1 0 rdpgfxCodecidJpeg rdpgfxPixelFormatXrgb8888 ⟨1, 0, 2, 1⟩ [0xff, 0xd8],
    .endFrame 1]

/-- Its regions one after the other go into a JPEG file, which is then none. -/
theorem mixedFrame_not_exact : ¬ ∃ cfg nonce capture, JpegExact cfg nonce capture mixedFrame := by
  rintro ⟨cfg, nonce, capture, hexact⟩
  have hopen : OpenAt (mixedFrame.take 3) 1
      [(rdpgfxCodecidUncompressed, ⟨0, 0, 1, 1⟩, [1, 2, 3, 4]),
        (rdpgfxCodecidJpeg, ⟨1, 0, 2, 1⟩, [0xff, 0xd8])] :=
    ⟨[], 0, (mixedFrame.take 3).tail, rfl, by simp [mixedFrame], by simp [mixedFrame], rfl⟩
  have hends : Ends (mixedFrame.take 3) (.endFrame 1) _ := ⟨1, rfl, hopen⟩
  have hsplit : mixedFrame = mixedFrame.take 3 ++ .endFrame 1 :: [] := rfl
  have hout := (outputs_spec hsplit _).mpr ⟨_, hends, rfl⟩
  obtain ⟨rect, hone⟩ := (hexact _ _ ⟨_, _, [], hsplit, hends, hout⟩).mp
    ((putFrame_jpg _).mpr rfl)
  cases hone

end Precall.Broker
