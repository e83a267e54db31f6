import Precall.Proto.Gfx

namespace Precall.Proto

open ByteLib

/-!
# The RDPGFX codec over the whole format

Encoder, decoder and iterator of `precall-proto/src/gfx.rs` against each other.

* `GfxPdu.length_encode` — `encode` writes exactly `encoded_len` bytes;
* `GfxPdu.decode_encode_append` — a PDU within the 32-bit lengths comes back, with the bytes it
  took, whatever follows it;
* `GfxPdu.decode_no_panic`, `GfxPdu.decode_congr` — on any bytes at all: no slice out of range,
  and what was decoded is read off the bytes consumed alone;
* `gfxItems_flatMap_encode`, `gfxItems_error_last` — what the iterator yields on encodings and on
  arbitrary bytes;
* `gfxCodec_sound` — all of it together.
-/

namespace GfxPdu

/-! ### Lengths -/

/-- The length that the header announces is that of the bytes written, command by command. -/
theorem length_encodeBody (pdu : GfxPdu) : headerLen + pdu.encodeBody.length = pdu.encodedLen := by
  cases pdu with
  | wireToSurface1 surfaceId codecId pixelFormat destRect bitmapData =>
    simp only [encodeBody, i16ToLe, encodedLen, List.length_append, length_toLe,
      List.length_singleton]
  | _ => simp [encodeBody, encodedLen]

/-- `encode` writes exactly `encoded_len` bytes: the eight of the header and those of the body. -/
theorem length_encode (pdu : GfxPdu) : pdu.encode.length = pdu.encodedLen := by
  rw [← length_encodeBody]
  simp only [encode, List.length_append, length_toLe]
  rfl

/-! ### Decoding a body -/

/-- A body that is long enough for a `START_FRAME` is one, whatever follows in it.  The flags in
    the header play no part either. -/
theorem decodeBody_startFrame {body : Bytes} (h : 8 ≤ body.length) :
    decodeBody rdpgfxCmdidStartFrame body =
      .ok (startFrame (u32Le (body.take 4)) (u32Le ((body.take 8).drop 4))) := by
  rw [decodeBody, if_pos rfl, if_neg (by omega), slice_eq (by omega) (by omega), ok_bind,
    slice_eq (by omega) (by omega), ok_bind]
  rfl

/-- The same for an `END_FRAME`. -/
theorem decodeBody_endFrame {body : Bytes} (h : 4 ≤ body.length) :
    decodeBody rdpgfxCmdidEndFrame body = .ok (endFrame (u32Le (body.take 4))) := by
  rw [decodeBody, if_neg (by decide), if_pos rfl, if_neg (by omega),
    slice_eq (by omega) (by omega), ok_bind]
  rfl

/-- A body is a `WIRE_TO_SURFACE_1` if it holds the fixed fields and as many bytes of pixels as
    the last of these says. -/
theorem decodeBody_wireToSurface1 {body : Bytes}
    (h : 17 + ofLe ((body.take 17).drop 13) ≤ body.length) :
    decodeBody rdpgfxCmdidWiretosurface1 body =
      .ok (wireToSurface1 (u16Le (body.take 2)) (u16Le ((body.take 4).drop 2))
        (UInt8.ofNat (ofLe ((body.take 5).drop 4)))
        ⟨i16Le ((body.take 7).drop 5), i16Le ((body.take 9).drop 7),
          i16Le ((body.take 11).drop 9), i16Le ((body.take 13).drop 11)⟩
        ((body.take (17 + ofLe ((body.take 17).drop 13))).drop 17)) := by
  rw [decodeBody, if_neg (by decide), if_neg (by decide), if_pos rfl, if_neg (by omega),
    slice_eq (by omega) (by omega), ok_bind]
  dsimp only
  rw [if_neg (by omega)]
  rw [slice_eq (by omega) (by omega), ok_bind, slice_eq (by omega) (by omega), ok_bind,
    slice_eq (by omega) (by omega), ok_bind, slice_eq (by omega) (by omega), ok_bind,
    slice_eq (by omega) (by omega), ok_bind, slice_eq (by omega) (by omega), ok_bind,
    slice_eq (by omega) (by omega), ok_bind, slice_eq (by omega) (by omega), ok_bind]
  rfl

/-- The same for a `FRAME_ACKNOWLEDGE`. -/
theorem decodeBody_frameAcknowledge {body : Bytes} (h : 12 ≤ body.length) :
    decodeBody rdpgfxCmdidFrameacknowledge body =
      .ok (frameAcknowledge (u32Le (body.take 4)) (u32Le ((body.take 8).drop 4))
        (u32Le ((body.take 12).drop 8))) := by
  rw [decodeBody, if_neg (by decide), if_neg (by decide), if_neg (by decide), if_pos rfl,
    if_neg (by omega), slice_eq (by omega) (by omega), ok_bind, slice_eq (by omega) (by omega),
    ok_bind, slice_eq (by omega) (by omega), ok_bind]
  rfl

/-- What a body is decoded to fits in it, and no slice of it is out of range: every read sits
    behind a length check. -/
theorem decodeBody_spec (cmdId : UInt16) (body : Bytes) :
    (∃ e, decodeBody cmdId body = fail e) ∨
    (∃ pdu, decodeBody cmdId body = .ok pdu ∧ pdu.encodedLen ≤ headerLen + body.length) := by
  by_cases hstart : cmdId = rdpgfxCmdidStartFrame
  · subst hstart
    by_cases hlen : body.length < 8
    · exact .inl ⟨_, by rw [decodeBody, if_pos rfl, if_pos hlen]⟩
    · refine .inr ⟨_, decodeBody_startFrame (not_lt.mp hlen), ?_⟩
      simp only [encodedLen]
      omega
  by_cases hend : cmdId = rdpgfxCmdidEndFrame
  · subst hend
    by_cases hlen : body.length < 4
    · exact .inl ⟨_, by rw [decodeBody, if_neg hstart, if_pos rfl, if_pos hlen]⟩
    · refine .inr ⟨_, decodeBody_endFrame (not_lt.mp hlen), ?_⟩
      simp only [encodedLen]
      omega
  by_cases hwire : cmdId = rdpgfxCmdidWiretosurface1
  · subst hwire
    by_cases hlen : body.length < 17
    · exact .inl ⟨_, by rw [decodeBody, if_neg hstart, if_neg hend, if_pos rfl, if_pos hlen]⟩
    by_cases hbitmap : body.length < 17 + ofLe ((body.take 17).drop 13)
    · refine .inl ⟨.malformed "WIRE_TO_SURFACE_1 bitmap truncated", ?_⟩
      rw [decodeBody, if_neg hstart, if_neg hend, if_pos rfl, if_neg hlen,
        slice_eq (by omega) (by omega), ok_bind]
      exact if_pos hbitmap
    · refine .inr ⟨_, decodeBody_wireToSurface1 (not_lt.mp hbitmap), ?_⟩
      simp only [encodedLen, List.length_drop, List.length_take]
      omega
  by_cases hack : cmdId = rdpgfxCmdidFrameacknowledge
  · subst hack
    by_cases hlen : body.length < 12
    · exact .inl ⟨_, by
        rw [decodeBody, if_neg hstart, if_neg hend, if_neg hwire, if_pos rfl, if_pos hlen]⟩
    · refine .inr ⟨_, decodeBody_frameAcknowledge (not_lt.mp hlen), ?_⟩
      simp only [encodedLen]
      omega
  · exact .inl ⟨_, by
      rw [decodeBody, if_neg hstart, if_neg hend, if_neg hwire, if_neg hack]⟩

/-! ### Decoding a PDU -/

/-- The length field of an RDPGFX header. -/
def pduLength (buf : Bytes) : Nat := ofLe ((buf.take 8).drop 4)

/-- **When a PDU comes off a buffer**, and which: header and body are there, and the body between
    them decodes. -/
theorem decode_eq_ok {buf : Bytes} {pdu : GfxPdu} {n : Nat} :
    decode buf = .ok (pdu, n) ↔
      n = pduLength buf ∧ headerLen ≤ n ∧ n ≤ buf.length ∧
        decodeBody (u16Le (buf.take 2)) ((buf.take n).drop headerLen) = .ok pdu := by
  by_cases hhead : buf.length < headerLen
  · rw [decode, if_pos hhead]
    simp only [fail, reduceCtorEq, false_iff]
    omega
  have hhead' : 8 ≤ buf.length := not_lt.mp hhead
  rw [decode, if_neg hhead, slice_eq (by omega) (by omega), ok_bind, slice_eq (by omega) (by omega),
    ok_bind]
  show (if pduLength buf < headerLen then _ else if buf.length < pduLength buf then _ else _) =
    _ ↔ _
  by_cases hlow : pduLength buf < headerLen
  · rw [if_pos hlow]
    simp only [fail, reduceCtorEq, false_iff]
    omega
  by_cases hhigh : buf.length < pduLength buf
  · rw [if_neg hlow, if_pos hhigh]
    simp only [fail, reduceCtorEq, false_iff]
    omega
  rw [if_neg hlow, if_neg hhigh]
  show ((slice buf headerLen (pduLength buf) >>= fun body =>
    decodeBody (u16Le (buf.take 2)) body >>= fun pdu => pure (pdu, pduLength buf)) :
      Exec ProtoError _) = _ ↔ _
  rw [slice_eq (not_lt.mp hlow) (not_lt.mp hhigh), ok_bind]
  constructor
  · intro h
    obtain ⟨p, hbody, hp⟩ : ∃ p, decodeBody (u16Le (buf.take 2))
        ((buf.take (pduLength buf)).drop headerLen) = .ok p ∧ (p, pduLength buf) = (pdu, n) := by
      cases hb : decodeBody (u16Le (buf.take 2))
          ((buf.take (pduLength buf)).drop headerLen) with
      | error e => rw [hb] at h; cases h
      | ok p => rw [hb] at h; exact ⟨p, rfl, Except.ok.inj h⟩
    cases hp
    exact ⟨rfl, not_lt.mp hlow, not_lt.mp hhigh, hbody⟩
  · rintro ⟨rfl, -, -, hbody⟩
    rw [hbody]
    rfl

/-- **No bytes make `decode` slice out of range.** Every read stands behind a length check that
    covers it. -/
theorem decode_no_panic (buf : Bytes) : decode buf ≠ .error .panicked := by
  unfold decode
  by_cases hhead : buf.length < headerLen
  · rw [if_pos hhead]
    simp [fail]
  have hhead' : 8 ≤ buf.length := not_lt.mp hhead
  rw [if_neg hhead, slice_eq (by omega) (by omega), ok_bind, slice_eq (by omega) (by omega),
    ok_bind]
  dsimp only
  by_cases hlow : ofLe ((buf.take 8).drop 4) < headerLen
  · rw [if_pos hlow]
    simp [fail]
  by_cases hhigh : buf.length < ofLe ((buf.take 8).drop 4)
  · rw [if_neg hlow, if_pos hhigh]
    simp [fail]
  rw [if_neg hlow, if_neg hhigh, slice_eq (not_lt.mp hlow) (not_lt.mp hhigh), ok_bind]
  rcases decodeBody_spec (u16Le ((buf.take 2).drop 0))
      ((buf.take (ofLe ((buf.take 8).drop 4))).drop headerLen) with ⟨e, he⟩ | ⟨pdu, hpdu, -⟩
  · rw [he]
    simp [fail, bind, Except.bind]
  · rw [hpdu, ok_bind]
    simp [pure, Except.pure]

/-- **A decoded PDU depends on the bytes consumed alone.** What follows them in the buffer, and
    its length, change nothing. -/
theorem decode_congr {buf buf' : Bytes} {pdu : GfxPdu} {n : Nat}
    (h : decode buf = .ok (pdu, n)) (hsame : buf'.take n = buf.take n) :
    decode buf' = .ok (pdu, n) := by
  obtain ⟨hn, hlow, hhigh, hbody⟩ := decode_eq_ok.mp h
  have hfront : ∀ k ≤ n, buf'.take k = buf.take k := by
    intro k hk
    have hcut := congrArg (List.take k) hsame
    rwa [List.take_take, List.take_take, Nat.min_eq_left hk] at hcut
  have hlen : n ≤ buf'.length := by
    have hcount := congrArg List.length hsame
    rw [List.length_take, List.length_take] at hcount
    omega
  unfold headerLen at hlow
  refine decode_eq_ok.mpr ⟨?_, hlow, hlen, ?_⟩
  · rw [pduLength, hfront 8 hlow]
    exact hn
  · rw [hfront 2 (by omega), hsame]
    exact hbody

/-- A decoded PDU takes no more room than the bytes it came from, so it can be encoded again
    within the same 32-bit length. -/
theorem encodedLen_le_consumed {buf : Bytes} {pdu : GfxPdu} {n : Nat}
    (h : decode buf = .ok (pdu, n)) : pdu.encodedLen ≤ n ∧ n < 2 ^ 32 := by
  obtain ⟨hn, hlow, hhigh, hbody⟩ := decode_eq_ok.mp h
  constructor
  · rcases decodeBody_spec (u16Le (buf.take 2)) ((buf.take n).drop headerLen) with
      ⟨e, he⟩ | ⟨pdu', hpdu, hfits⟩
    · rw [he] at hbody
      cases hbody
    · rw [hpdu] at hbody
      cases hbody
      rw [List.length_drop, List.length_take] at hfits
      omega
  · have hfour : ((buf.take 8).drop 4).length = 4 := by
      unfold headerLen at hlow
      rw [List.length_drop, List.length_take]
      omega
    have hword := ofLe_lt ((buf.take 8).drop 4)
    rw [hfour] at hword
    rw [hn, pduLength]
    exact hword

/-! ### Encoding and back -/

/-- A `u32` is read back from its bytes. -/
@[simp] theorem u32Le_toLe (x : UInt32) : u32Le (toLe 4 x.toNat) = x := by
  rw [u32Le, ofLe_toLe_of_lt x.toNat_lt, UInt32.ofNat_toNat]

/-- So is a `u16`. -/
@[simp] theorem u16Le_toLe (x : UInt16) : u16Le (toLe 2 x.toNat) = x := by
  rw [u16Le, ofLe_toLe_of_lt x.toNat_lt, UInt16.ofNat_toNat]

/-- And an `i16`, through the unsigned number of its bits. -/
@[simp] theorem i16Le_toLe (x : Int16) : i16Le (toLe 2 x.toUInt16.toNat) = x := by
  rw [i16Le, u16Le_toLe]
  rfl

/-- Each body comes back under its command id, field by field. -/
theorem decodeBody_encodeBody {pdu : GfxPdu} (h : pdu.encodedLen < 2 ^ 32) :
    decodeBody pdu.cmdId pdu.encodeBody = .ok pdu := by
  cases pdu with
  | startFrame frameId timestamp =>
    have hlen : 8 ≤ (startFrame frameId timestamp).encodeBody.length := by simp [encodeBody]
    rw [cmdId, decodeBody_startFrame hlen]
    simp [encodeBody, List.take_append]
  | endFrame frameId =>
    have hlen : 4 ≤ (endFrame frameId).encodeBody.length := by simp [encodeBody]
    rw [cmdId, decodeBody_endFrame hlen]
    simp [encodeBody]
  | wireToSurface1 surfaceId codecId pixelFormat destRect bitmapData =>
    generalize hbody : (wireToSurface1 surfaceId codecId pixelFormat destRect
      bitmapData).encodeBody = body
    have hword : bitmapData.length < 256 ^ 4 := by
      simp only [encodedLen, headerLen] at h
      omega
    -- the bitmap length is the word at offset 13
    have hfield : (body.take 17).drop 13 = toLe 4 bitmapData.length := by
      simp [← hbody, encodeBody, i16ToLe, List.take_append, List.drop_append]
    have htotal : body.length = 17 + bitmapData.length := by
      rw [← hbody]
      simp only [encodeBody, i16ToLe, List.length_append, length_toLe, List.length_singleton]
    have hbitmap : (body.take (17 + bitmapData.length)).drop 17 = bitmapData := by
      rw [← htotal, List.take_length, ← hbody, encodeBody]
      exact List.drop_left' (by simp [i16ToLe])
    have hlen : 17 + ofLe ((body.take 17).drop 13) ≤ body.length := by
      rw [hfield, ofLe_toLe_of_lt hword, htotal]
    rw [cmdId, decodeBody_wireToSurface1 hlen, hfield, ofLe_toLe_of_lt hword, hbitmap, ← hbody]
    simp [encodeBody, i16ToLe, List.take_append, List.drop_append]
  | frameAcknowledge queueDepth frameId totalFramesDecoded =>
    have hlen : 12 ≤
        (frameAcknowledge queueDepth frameId totalFramesDecoded).encodeBody.length := by
      simp [encodeBody]
    rw [cmdId, decodeBody_frameAcknowledge hlen]
    simp [encodeBody, List.take_append, List.drop_append]

/-- **A PDU within the 32-bit lengths comes back**, with the bytes it took, whatever follows.
    Beyond them the header's length field is cut short. -/
theorem decode_encode_append {pdu : GfxPdu} (h : pdu.encodedLen < 2 ^ 32) (rest : Bytes) :
    decode (pdu.encode ++ rest) = .ok (pdu, pdu.encodedLen) := by
  have hlen : pdu.encode.length = pdu.encodedLen := length_encode pdu
  have hbody : headerLen + pdu.encodeBody.length = pdu.encodedLen := length_encodeBody pdu
  have hword : headerLen + pdu.encodeBody.length < 256 ^ 4 := by omega
  have hpdu : pduLength (pdu.encode ++ rest) = pdu.encodedLen := by
    have hfield : ((pdu.encode ++ rest).take 8).drop 4 =
        toLe 4 (headerLen + pdu.encodeBody.length) := by
      simp [encode, List.append_assoc, List.take_append, List.drop_append]
    rw [pduLength, hfield, ofLe_toLe_of_lt hword, hbody]
  have hcmd : (pdu.encode ++ rest).take 2 = toLe 2 pdu.cmdId.toNat := by
    simp [encode, List.append_assoc]
  have hcut : ((pdu.encode ++ rest).take pdu.encodedLen).drop headerLen = pdu.encodeBody := by
    rw [List.take_left' hlen, encode]
    exact List.drop_left' (by simp [headerLen])
  refine decode_eq_ok.mpr ⟨hpdu.symm, by omega, ?_, ?_⟩
  · rw [List.length_append, hlen]
    exact Nat.le_add_right _ _
  · rw [hcmd, hcut, u16Le_toLe]
    exact decodeBody_encodeBody h

end GfxPdu

/-! ### The iterator -/

/-- The iterator takes an encoded PDU off the front and goes on with the rest of the payload. -/
theorem gfxItems_encode_append {pdu : GfxPdu} (h : pdu.encodedLen < 2 ^ 32) (rest : Bytes) :
    gfxItems (pdu.encode ++ rest) = .ok pdu :: gfxItems rest := by
  have hlen : pdu.encode.length = pdu.encodedLen := GfxPdu.length_encode pdu
  have hpos : headerLen ≤ pdu.encodedLen := Nat.le_add_right _ _
  have hne : pdu.encode ++ rest ≠ [] := by
    intro hnil
    rw [List.append_eq_nil_iff.mp hnil |>.1] at hlen
    unfold headerLen at hpos
    simp at hlen
    omega
  rw [← GfxPduIter.drain_of_length_le (Nat.le_succ _), GfxPduIter.drain, GfxPduIter.next,
    if_neg hne, GfxPdu.decode_encode_append h]
  dsimp only
  rw [List.drop_left' hlen, GfxPduIter.drain_of_length_le]
  rw [List.length_append]
  omega

/-- **The iterator over concatenated encodings yields the PDUs**, in order and without an error. -/
theorem gfxItems_flatMap_encode {pdus : List GfxPdu} (h : ∀ pdu ∈ pdus, pdu.encodedLen < 2 ^ 32) :
    gfxItems (pdus.flatMap GfxPdu.encode) = pdus.map .ok := by
  induction pdus with
  | nil => rfl
  | cons pdu pdus ih =>
    rw [List.flatMap_cons, gfxItems_encode_append (h pdu List.mem_cons_self),
      ih fun p hp => h p (List.mem_cons_of_mem pdu hp), List.map_cons]

/-- One call of the iterator on a non-empty rest: a PDU off its front, or one last error that is
    not a panic. -/
theorem gfxItems_cons {buf : Bytes} (hne : buf ≠ []) :
    (∃ pdu n, GfxPdu.decode buf = .ok (pdu, n) ∧
      gfxItems buf = .ok pdu :: gfxItems (buf.drop n)) ∨
    (∃ e, gfxItems buf = [.error e] ∧ e ≠ .panicked) := by
  have hstep : gfxItems buf = GfxPduIter.drain (buf.length + 1) buf :=
    (GfxPduIter.drain_of_length_le (Nat.le_succ _)).symm
  rw [hstep, GfxPduIter.drain, GfxPduIter.next, if_neg hne]
  cases hdec : GfxPdu.decode buf with
  | ok p =>
    obtain ⟨pdu, n⟩ := p
    have hshort : (buf.drop n).length ≤ buf.length := by
      rw [List.length_drop]
      omega
    exact .inl ⟨pdu, n, rfl, by dsimp only; rw [GfxPduIter.drain_of_length_le hshort]⟩
  | error e =>
    refine .inr ⟨e, ?_, fun he => GfxPdu.decode_no_panic buf (he ▸ hdec)⟩
    dsimp only
    rw [GfxPduIter.drain_of_length_le (Nat.zero_le _)]
    rfl

/-- **On any bytes the iterator stops**, within one item a byte; it never slices out of range, and
    an error is its last item. -/
theorem gfxItems_error_last (buf : Bytes) :
    (gfxItems buf).length ≤ buf.length ∧
    (∀ item ∈ gfxItems buf, item ≠ .error .panicked) ∧
    ∀ before after e, gfxItems buf = before ++ .error e :: after → after = [] := by
  -- on the length of the rest: a PDU takes at least its header off it
  induction hlen : buf.length using Nat.strongRecOn generalizing buf with
  | _ k ih =>
    by_cases hne : buf = []
    · subst hne
      refine ⟨Nat.zero_le _, by simp [gfxItems, GfxPduIter.drain], fun before after e h => ?_⟩
      exact absurd h.symm (by simp [gfxItems, GfxPduIter.drain])
    rcases gfxItems_cons hne with ⟨pdu, n, hdec, hitems⟩ | ⟨e, hitems, he⟩
    · have hc := GfxPdu.decode_consumed hdec
      unfold headerLen at hc
      have hdrop : (buf.drop n).length = buf.length - n := List.length_drop
      obtain ⟨hcount, hsafe, hlast⟩ := ih (buf.drop n).length (by omega) (buf.drop n) rfl
      rw [hitems]
      refine ⟨by rw [List.length_cons]; omega, ?_, fun before after e h => ?_⟩
      · intro item hitem
        rcases List.mem_cons.mp hitem with rfl | hrest
        · exact fun h => by cases h
        · exact hsafe item hrest
      · cases before with
        | nil => cases h
        | cons b before => exact hlast before after e (List.cons.inj h).2
    · have hpos : 0 < buf.length := List.length_pos_iff.mpr hne
      rw [hitems]
      refine ⟨by simpa [hlen] using hlen ▸ hpos, ?_, fun before after e' h => ?_⟩
      · intro item hitem
        rw [List.mem_singleton.mp hitem]
        simpa using he
      · cases before with
        | nil => exact (List.cons.inj h).2.symm
        | cons b before => simpa using (List.cons.inj h).2

/-- **The RDPGFX codec is sound over the whole format.**  Encodings have the announced length and
    the iterator gives the list back; on any bytes it stays in range, stops, and errs at most once
    and last; and what `decode` returns lies within the buffer, depends on the bytes consumed
    alone, and survives re-encoding. -/
theorem gfxCodec_sound :
    (∀ pdus : List GfxPdu, (∀ pdu ∈ pdus, pdu.encodedLen < 2 ^ 32) →
      (∀ pdu ∈ pdus, pdu.encode.length = pdu.encodedLen) ∧
      gfxItems (pdus.flatMap GfxPdu.encode) = pdus.map .ok) ∧
    (∀ buf : Bytes,
      (∀ calls ≥ buf.length, GfxPduIter.drain calls buf = gfxItems buf) ∧
      (gfxItems buf).length ≤ buf.length ∧
      (∀ item ∈ gfxItems buf, item ≠ .error .panicked) ∧
      ∀ before after e, gfxItems buf = before ++ .error e :: after → after = []) ∧
    ∀ (buf : Bytes) (pdu : GfxPdu) (n : Nat), GfxPdu.decode buf = .ok (pdu, n) →
      8 ≤ n ∧ n ≤ buf.length ∧
      (∀ buf' : Bytes, buf'.take n = buf.take n → GfxPdu.decode buf' = .ok (pdu, n)) ∧
      GfxPdu.decode pdu.encode = .ok (pdu, pdu.encode.length) := by
  refine ⟨fun pdus h => ⟨fun pdu _ => pdu.length_encode, gfxItems_flatMap_encode h⟩, fun buf => ?_,
    fun buf pdu n hdec => ?_⟩
  · exact ⟨fun calls hcalls => GfxPduIter.drain_of_length_le hcalls, gfxItems_error_last buf⟩
  · obtain ⟨hlow, hhigh⟩ := GfxPdu.decode_consumed hdec
    obtain ⟨hfits, hword⟩ := GfxPdu.encodedLen_le_consumed hdec
    have hround := GfxPdu.decode_encode_append (lt_of_le_of_lt hfits hword) []
    rw [List.append_nil] at hround
    exact ⟨hlow, hhigh, fun buf' hsame => GfxPdu.decode_congr hdec hsame,
      by rw [hround, GfxPdu.length_encode]⟩

/-- A frame of three PDUs, and an END_FRAME with a flag set and two bytes of its body unused. -/
theorem gfxCodec_sound_frame :
    gfxItems ([.startFrame 1 2, .wireToSurface1 0 0xf1 0x20 ⟨-1, 0, 9, 9⟩ [1, 2],
        .endFrame 1].flatMap GfxPdu.encode) =
      [.startFrame 1 2, .wireToSurface1 0 0xf1 0x20 ⟨-1, 0, 9, 9⟩ [1, 2], .endFrame 1].map .ok ∧
    GfxPdu.decode (GfxPdu.endFrame 3).encode =
      .ok (.endFrame 3, (GfxPdu.endFrame 3).encode.length) :=
  have hall := gfxCodec_sound
  ⟨(hall.1 _ (by decide)).2,
    (hall.2.2 [0x0c, 0, 1, 0, 14, 0, 0, 0, 3, 0, 0, 0, 7, 7, 5] (.endFrame 3) 14
      (by decide)).2.2.2⟩

end Precall.Proto
