import Precall.Broker.Pairing

namespace Precall.Broker

open ByteLib TextLib Durable Precall.Proto Precall.Store

/-!
# What sessions have written

The log of a session names each record it handles at most twice: in the write of its object, then
in the insertion of its row.  While image tokens are distinct this decides everything about the
files:

* `session_orderly` — a session commits orderly writes only: no record's object follows anything
  else that carries its token;
* `Filed` — in an orderly log the files are the objects written so far, each as it was written,
  and the rows are the records inserted so far; `stable_filed` is its step lemma.
-/

/-- The image token of the record an event belongs to; audio and bookkeeping belong to none. -/
def tokenOf : Event → Option String
  | .putObject _ _ token ext _ => if ext = "opus" then none else some token
  | .insertCapture c => some c.imageToken
  | _ => none

/-- The records of a mux frame that `handle_meta` goes through: those of a batch of the session's
    own client. -/
def captured (json : JsonReader) (clientId : Uuid) (m : MuxFrame) : List WindowCaptureRecord :=
  match m.channel, json.captureBatch m.payload with
  | .pcMeta, some b => if b.clientId = clientId then b.captures else []
  | _, _ => []

/-- The image tokens of a list of records. -/
def tokens (cs : List WindowCaptureRecord) : List String := cs.map WindowCaptureRecord.imageToken

/-- Nothing in the log carries a token outside a list. -/
def Named (seen : List String) (log : List Event) : Prop :=
  ∀ e ∈ log, ∀ t, tokenOf e = some t → t ∈ seen

/-- Where a session that handles distinct tokens commits its writes: a frame is stored before
    anything else that carries its token, and a record is inserted after nothing but its own
    object. -/
def Orderly (cfg : SessionConfig) (all : List String) (e : Event) (log : List Event) : Prop :=
  match e with
  | .putObject clientId _ token ext _ => clientId = cfg.clientId.text ∧ (ext ≠ "opus" →
      token ∈ all ∧ (∃ nonce c f, e = putFrame cfg nonce c f) ∧
        ∀ e' ∈ log, tokenOf e' ≠ some token)
  | .insertCapture c => c.imageToken ∈ all ∧
      ∀ e' ∈ log, tokenOf e' = some c.imageToken → ∃ nonce f, e' = putFrame cfg nonce c f
  | _ => True

/-- A frame is stored under one of two extensions. -/
theorem PendingFrame.ext_mem (f : PendingFrame) : f.ext ∈ ["jpg", "raw"] := by
  unfold PendingFrame.ext
  split <;> simp

/-- Both are extensions of objects. -/
theorem PendingFrame.ext_object (f : PendingFrame) : f.ext ∈ objectExts := by
  rcases List.mem_pair.mp f.ext_mem with hf | hf <;> simp [objectExts, hf]

/-- Neither is that of audio. -/
theorem PendingFrame.ext_ne (f : PendingFrame) : f.ext ≠ "opus" := by
  unfold PendingFrame.ext
  split <;> decide

/-- The token of a frame's write is that of the record it is stored for. -/
theorem tokenOf_putFrame (cfg : SessionConfig) (nonce : Bytes) (c : WindowCaptureRecord)
    (f : PendingFrame) : tokenOf (putFrame cfg nonce c f) = some c.imageToken :=
  if_neg f.ext_ne

/-- More tokens may be seen than are used. -/
theorem Named.mono {seen seen' : List String} {log : List Event} (h : Named seen log)
    (hsub : seen ⊆ seen') : Named seen' log :=
  fun e he t ht => hsub (h e he t ht)

/-- A write under a token that was seen, or under none, keeps the log named. -/
theorem Named.concat {seen : List String} {log : List Event} {e : Event} (h : Named seen log)
    (he : ∀ t, tokenOf e = some t → t ∈ seen) : Named seen (log ++ [e]) := by
  intro e' hmem t ht
  rcases List.mem_append.mp hmem with hmem | hmem
  · exact h e' hmem t ht
  · obtain rfl := List.mem_singleton.mp hmem
    exact he t ht

/-! ### The walk through a session -/

section
variable [TextTables] (cfg : SessionConfig) (all : List String)

/-- The program commits orderly writes and ends with a log in which only `seen` is named, if it
    ends. -/
def Keeps {α : Type} (p : Ingester α) (seen : List String) (s : ClientDir) (log : List Event) :
    Prop :=
  p.wp Event.apply (fun e _ log => Orderly cfg all e log) (fun _ _ log' => Named seen log') s log

variable {cfg all} {seen : List String} {s : ClientDir} {log : List Event}

/-- A record with a token that is new to the session files its frame under it and keeps what was
    filed. -/
theorem storeCapture_keeps (h : Named seen log) {c : WindowCaptureRecord}
    (hnew : c.imageToken ∉ seen) (hall : c.imageToken ∈ all) (nonce : Bytes) (st : SessionState) :
    Keeps cfg all (storeCapture cfg nonce c st) (seen ++ [c.imageToken]) s log := by
  have hfresh : ∀ e ∈ log, tokenOf e ≠ some c.imageToken := fun e he ht => hnew (h e he _ ht)
  have hseen : Named (seen ++ [c.imageToken]) log := h.mono (List.subset_append_left _ _)
  have hlast : ∀ e, tokenOf e = some c.imageToken →
      ∀ t, tokenOf e = some t → t ∈ seen ++ [c.imageToken] := by
    intro e he t ht
    rw [he] at ht
    obtain rfl := Option.some.inj ht
    simp
  unfold Keeps storeCapture
  cases hfront : st.pending.head? with
  | none =>
    simp only [storeFrame, Prog.wp_bind, Prog.wp_pure, Prog.wp_get, Prog.wp_commit]
    refine ⟨⟨hall, fun e he ht => absurd ht (hfresh e he)⟩, hseen.concat (hlast _ rfl)⟩
  | some f =>
    simp only [storeFrame, Prog.wp_bind, Prog.wp_pure, Prog.wp_get, Prog.wp_commit]
    have hput := hseen.concat (hlast _ (tokenOf_putFrame cfg nonce c f))
    refine ⟨⟨rfl, fun _ => ⟨hall, ⟨nonce, c, f, rfl⟩, hfresh⟩⟩, ⟨hall, ?_⟩,
      hput.concat (hlast _ rfl)⟩
    -- the record's own object is the only earlier write that carries its token
    intro e he ht
    rcases List.mem_append.mp he with he | he
    · exact absurd ht (hfresh e he)
    · exact ⟨nonce, f, List.mem_singleton.mp he⟩

/-- The loop of `handle_meta`, by induction on the records: each adds its own token to those
    seen. -/
theorem captures_keeps (cs : List WindowCaptureRecord) (nonces : Nat → Bytes) (k : Nat)
    (st : SessionState) (hdistinct : (seen ++ tokens cs).Nodup)
    (hall : tokens cs ⊆ all) (h : Named seen log) :
    Keeps cfg all (Prog.forEach (fun c st => storeCapture cfg (nonces c.2) c.1 st) (cs.zipIdx k) st)
      (seen ++ tokens cs) s log := by
  induction cs generalizing seen k st s log with
  | nil =>
    rw [tokens, List.map_nil, List.append_nil]
    exact h
  | cons c cs ih =>
    have hsplit : seen ++ tokens (c :: cs) = (seen ++ [c.imageToken]) ++ tokens cs := by
      simp [tokens]
    have hnew : c.imageToken ∉ seen := by
      intro hmem
      have hdisjoint := (List.nodup_append.mp hdistinct).2.2
      exact hdisjoint _ hmem _ (by simp [tokens]) rfl
    obtain ⟨hc, hcs⟩ := List.cons_subset.mp hall
    rw [hsplit] at hdistinct ⊢
    refine Prog.wp_seq (storeCapture_keeps h hnew hc (nonces k) st) ?_
    exact fun st' s' log' h' => ih (k + 1) st' hdistinct hcs h'

/-- One mux frame names the tokens of its records and no others. -/
theorem dispatch_keeps (json : JsonReader) (a : Arrival) (st : SessionState)
    (hdistinct : (seen ++ tokens (captured json cfg.clientId a.frame)).Nodup)
    (hall : tokens (captured json cfg.clientId a.frame) ⊆ all) (h : Named seen log) :
    Keeps cfg all (dispatch json cfg a st)
      (seen ++ tokens (captured json cfg.clientId a.frame)) s log := by
  have hgrown := h.mono (List.subset_append_left seen (tokens (captured json cfg.clientId a.frame)))
  unfold dispatch
  cases hchannel : a.frame.channel with
  | gfxRdp =>
    dsimp only
    split
    · exact hgrown
    · trivial
  | pcMeta =>
    cases hjson : json.captureBatch a.frame.payload with
    | none => trivial
    | some b =>
      simp only [handleMeta]
      split
      · exact hgrown
      · rename_i hclient
        have hcaptured : captured json cfg.clientId a.frame = b.captures := by
          simp [captured, hchannel, hjson, not_not.mp hclient]
        rw [hcaptured] at hdistinct hall ⊢
        exact captures_keeps b.captures a.nonces 0 st hdistinct hall h
  | pcAudio =>
    simp only [handleAudio]
    split
    · trivial
    · exact hgrown
    · exact ⟨⟨rfl, fun hopus => absurd rfl hopus⟩, hgrown.concat fun t ht => by cases ht⟩
  | pcCtrl => exact hgrown
  | pcQuery => exact hgrown

/-- The loop keeps it, by induction on what arrives: no token occurs twice, so none is filed
    over. -/
theorem loop_keeps (json : JsonReader) (arrivals : List Arrival) (st : SessionState)
    (hdistinct :
      (seen ++ tokens (arrivals.flatMap fun a => captured json cfg.clientId a.frame)).Nodup)
    (hall : tokens (arrivals.flatMap fun a => captured json cfg.clientId a.frame) ⊆ all)
    (h : Named seen log) :
    Keeps cfg all (Prog.forEach (dispatch json cfg) arrivals st)
      (seen ++ tokens (arrivals.flatMap fun a => captured json cfg.clientId a.frame)) s log := by
  induction arrivals generalizing seen st s log with
  | nil =>
    rw [List.flatMap_nil, tokens, List.map_nil, List.append_nil]
    exact h
  | cons a as ih =>
    simp only [List.flatMap_cons, tokens, List.map_append, ← List.append_assoc] at hdistinct hall ⊢
    obtain ⟨ha, has⟩ := List.append_subset.mp hall
    refine Prog.wp_seq (dispatch_keeps json a st (List.nodup_append.mp hdistinct).1 ha h) ?_
    exact fun st' s' log' h' => ih st' hdistinct has h'

/-- **Orderly sessions.**  A session that is sent records with distinct new tokens commits orderly
    writes, and names no token but theirs. -/
theorem session_orderly (json : JsonReader) (now : Int) (arrivals : List Arrival)
    (hdistinct :
      (seen ++ tokens (arrivals.flatMap fun a => captured json cfg.clientId a.frame)).Nodup)
    (hall : tokens (arrivals.flatMap fun a => captured json cfg.clientId a.frame) ⊆ all)
    (h : Named seen log) :
    Keeps cfg all (session json cfg now arrivals)
      (seen ++ tokens (arrivals.flatMap fun a => captured json cfg.clientId a.frame)) s log := by
  have hopen : ∀ leg s log, Named seen log → Keeps cfg all (openIndex cfg leg) seen s log := by
    intro leg s log h
    simp only [Keeps, openIndex, Prog.wp_bind, Prog.wp_get, Prog.wp_ite, Prog.wp_commit,
      Prog.wp_pure]
    exact ⟨fun _ => ⟨trivial, h.concat fun t ht => by cases ht⟩, fun _ => h⟩
  unfold session
  refine Prog.wp_seq (hopen .text s log h) fun _ s₁ log₁ h₁ => ?_
  refine Prog.wp_seq (hopen .image s₁ log₁ h₁) fun _ s₂ log₂ h₂ => ?_
  rw [Prog.wp_bind, Prog.wp_commit]
  exact ⟨trivial, loop_keeps json arrivals _ hdistinct hall
    (h₂.concat fun t ht => by cases ht)⟩

/-! ### Files and rows -/

variable (cfg all) in
/-- What an orderly log says about the directory: whose the rows, the frames and the files are,
    and that every object written is still there. -/
structure Filed (dir : ClientDir) (log : List Event) : Prop where
  named : Named all log
  rows : ∀ r ∈ dir.ukg.windowCapture.rows, ∃ c, .insertCapture c ∈ log ∧
    r.2.imageToken = some c.imageToken ∧ r.2.timeStamp = asI64 c.timestamp100ns
  own : ∀ c, .insertCapture c ∈ log → ∀ e ∈ log, isFrameObject e = true →
    tokenOf e = some c.imageToken → ∃ nonce f, e = putFrame cfg nonce c f
  once : ∀ e ∈ log, ∀ e' ∈ log, isFrameObject e = true → isFrameObject e' = true →
    tokenOf e = tokenOf e' → e = e'
  source : ∀ path bytes, dir.files.read? path = some bytes → ∃ date token ext,
    .putObject cfg.clientId.text date token ext bytes ∈ log ∧ ext ∈ objectExts ∧
      path = keyPath cfg.clientId.text date token ext
  kept : ∀ date token ext bytes, .putObject cfg.clientId.text date token ext bytes ∈ log →
    ext ∈ objectExts → ext ≠ "opus" →
    dir.files.read? (keyPath cfg.clientId.text date token ext) = some bytes

/-- An empty store is filed. -/
theorem filed_new : Filed cfg all ClientDir.new [] where
  named := fun e he => by cases he
  rows := fun r hr => by cases hr
  own := fun c hc => by cases hc
  once := fun e he => by cases he
  source := fun path bytes h => by cases h
  kept := fun date token ext bytes h => by cases h

omit [TextTables] in
/-- The write of a frame has a token. -/
theorem tokenOf_of_isFrameObject {e : Event} (h : isFrameObject e = true) :
    ∃ t, tokenOf e = some t := by
  cases e with
  | putObject clientId date token ext stored => exact ⟨token, if_neg (bne_iff_ne.mp h)⟩
  | _ => cases h

omit [TextTables] in
/-- Nothing before the write of a frame carries its token: it is the first write of its record. -/
theorem Orderly.fresh {e : Event} (h : Orderly cfg all e log) (he : isFrameObject e = true)
    {t : String} (ht : tokenOf e = some t) : ∀ e' ∈ log, tokenOf e' ≠ some t := by
  cases e with
  | putObject clientId date token ext stored =>
    have hext : ext ≠ "opus" := bne_iff_ne.mp he
    obtain rfl : token = t := by simpa [tokenOf, hext] using ht
    exact (h.2 hext).2.2
  | _ => cases he

omit [TextTables] in
/-- The extension of an object a session writes. -/
theorem Orderly.ext_mem {clientId token ext : String} {date : Int × Nat × Nat} {stored : Bytes}
    (h : Orderly cfg all (.putObject clientId date token ext stored) log) : ext ∈ objectExts := by
  by_cases hext : ext = "opus"
  · simp [objectExts, hext]
  · obtain ⟨-, ⟨nonce, c, f, heq⟩, -⟩ := h.2 hext
    obtain ⟨-, -, -, rfl, -⟩ := Event.putObject.inj heq
    exact f.ext_object

omit [TextTables] in
/-- An orderly write names one of the tokens. -/
theorem Orderly.mem {e : Event} (h : Orderly cfg all e log) {t : String}
    (ht : tokenOf e = some t) : t ∈ all := by
  cases e with
  | putObject clientId date token ext stored =>
    by_cases hext : ext = "opus"
    · simp [tokenOf, hext] at ht
    · obtain rfl : token = t := by simpa [tokenOf, hext] using ht
      exact (h.2 hext).1
  | insertCapture c =>
    obtain rfl : c.imageToken = t := Option.some.inj ht
    exact h.1
  | _ => cases ht

variable {dir : ClientDir}

omit [TextTables] in
/-- What is on a longer log is on the log or is the write. -/
theorem mem_concat {e e' : Event} (h : e' ∈ log ++ [e]) : e' ∈ log ∨ e' = e := by
  simpa using h

/-- The frames for an inserted record are the record's own. -/
theorem Filed.own_concat {e : Event} (h : Filed cfg all dir log)
    (horderly : Orderly cfg all e log) {c : WindowCaptureRecord}
    (hc : .insertCapture c ∈ log ++ [e]) {e' : Event} (he' : e' ∈ log ++ [e])
    (hframe : isFrameObject e' = true) (htoken : tokenOf e' = some c.imageToken) :
    ∃ nonce f, e' = putFrame cfg nonce c f := by
  rcases mem_concat hc with hc' | rfl
  · rcases mem_concat he' with he' | rfl
    · exact h.own c hc' e' he' hframe htoken
    · -- a frame for a record already inserted would not be orderly
      exact absurd (show tokenOf (.insertCapture c) = some c.imageToken from rfl)
        (horderly.fresh hframe htoken _ hc')
  · rcases mem_concat he' with he' | rfl
    · exact horderly.2 e' he' htoken
    · cases hframe

/-- No two writes of frames have the same token. -/
theorem Filed.once_concat {e : Event} (h : Filed cfg all dir log)
    (horderly : Orderly cfg all e log) {e₁ e₂ : Event} (h₁ : e₁ ∈ log ++ [e])
    (h₂ : e₂ ∈ log ++ [e]) (hf₁ : isFrameObject e₁ = true) (hf₂ : isFrameObject e₂ = true)
    (htoken : tokenOf e₁ = tokenOf e₂) : e₁ = e₂ := by
  rcases mem_concat h₁ with h₁' | rfl
  · rcases mem_concat h₂ with h₂' | rfl
    · exact h.once e₁ h₁' e₂ h₂' hf₁ hf₂ htoken
    · obtain ⟨t, ht⟩ := tokenOf_of_isFrameObject hf₂
      exact absurd (htoken.trans ht) (horderly.fresh hf₂ ht e₁ h₁')
  · rcases mem_concat h₂ with h₂' | rfl
    · obtain ⟨t, ht⟩ := tokenOf_of_isFrameObject hf₁
      exact absurd (htoken.symm.trans ht) (horderly.fresh hf₁ ht e₂ h₂')
    · rfl

/-- Every file holds what some write put there, under the path that write was for. -/
theorem Filed.source_apply {e : Event} (h : Filed cfg all dir log)
    (horderly : Orderly cfg all e log) {path : Path} {bytes : Bytes}
    (hread : (e.apply dir).files.read? path = some bytes) :
    ∃ date token ext, .putObject cfg.clientId.text date token ext bytes ∈ log ++ [e] ∧
      ext ∈ objectExts ∧ path = keyPath cfg.clientId.text date token ext := by
  have hold : dir.files.read? path = some bytes →
      ∃ date token ext, .putObject cfg.clientId.text date token ext bytes ∈ log ++ [e] ∧
        ext ∈ objectExts ∧ path = keyPath cfg.clientId.text date token ext := by
    intro hbefore
    obtain ⟨date, token, ext, hmem, hrest⟩ := h.source path bytes hbefore
    exact ⟨date, token, ext, List.mem_append_left _ hmem, hrest⟩
  rcases Event.files_apply e dir with ⟨id, date, token, ext, stored, rfl⟩ | hfiles
  · obtain rfl : id = cfg.clientId.text := horderly.1
    rw [Event.apply, Files.read?_write] at hread
    split at hread
    · rename_i hpath
      obtain rfl := Option.some.inj hread
      exact ⟨date, token, ext, by simp, horderly.ext_mem, hpath⟩
    · exact hold hread
  · exact hold (hfiles ▸ hread)

/-- The write of a frame leaves the frames before it: with canonical tokens the same path would
    mean the same token. -/
theorem Filed.kept_apply {e : Event} (hcanonical : ∀ t ∈ all, ∃ u : Uuid, t = u.text)
    (h : Filed cfg all dir log) (horderly : Orderly cfg all e log) {date : Int × Nat × Nat}
    {token ext : String} {bytes : Bytes}
    (hput : .putObject cfg.clientId.text date token ext bytes ∈ log) (hobject : ext ∈ objectExts)
    (hext : ext ≠ "opus") :
    (e.apply dir).files.read? (keyPath cfg.clientId.text date token ext) = some bytes := by
  have hkept := h.kept date token ext bytes hput hobject hext
  rcases Event.files_apply e dir with ⟨id, date', token', ext', stored, rfl⟩ | hfiles
  · obtain rfl : id = cfg.clientId.text := horderly.1
    rw [Event.apply, Files.read?_write, if_neg, hkept]
    intro hpath
    obtain ⟨rfl, hclean⟩ := keyPath_inj hobject horderly.ext_mem hpath
    have htoken : tokenOf (.putObject cfg.clientId.text date token ext bytes) = some token :=
      if_neg hext
    have htoken' : tokenOf (.putObject cfg.clientId.text date' token' ext stored)
        = some token' := if_neg hext
    obtain ⟨u, rfl⟩ := hcanonical token (h.named _ hput _ htoken)
    obtain ⟨u', rfl⟩ := hcanonical token' (horderly.mem htoken')
    rw [cleanComponent_uuid, cleanComponent_uuid] at hclean
    exact horderly.fresh (bne_iff_ne.mpr hext) htoken' _ hput
      (htoken.trans (congrArg some hclean))
  · rwa [hfiles]

/-- **One orderly write.** With canonical tokens no object replaces another record's object,
    since paths tell such tokens apart. -/
theorem stable_filed (hcanonical : ∀ t ∈ all, ∃ u : Uuid, t = u.text) :
    Stable Event.apply (fun e _ log => Orderly cfg all e log) (Filed cfg all) := by
  intro e dir log horderly h
  refine {
    named := h.named.concat fun t ht => horderly.mem ht
    rows := fun r hr => ?_
    own := fun c hc e' he' => h.own_concat horderly hc he'
    once := fun e₁ h₁ e₂ h₂ => h.once_concat horderly h₁ h₂
    source := fun path bytes hread => h.source_apply horderly hread
    kept := fun date token ext bytes hput hobject hext => ?_ }
  · rcases Event.mem_windowCapture_apply hr with ⟨row, hrow, htoken, htime⟩ | ⟨rec, rfl, hrow⟩
    · obtain ⟨c, hc, hctoken, hctime⟩ := h.rows _ hrow
      exact ⟨c, List.mem_append_left _ hc, htoken ▸ hctoken, htime ▸ hctime⟩
    · exact ⟨rec, by simp, hrow ▸ rfl, hrow ▸ rfl⟩
  · rcases mem_concat hput with hput | rfl
    · exact h.kept_apply hcanonical horderly hput hobject hext
    · rw [Event.apply, Files.read?_write, if_pos rfl]

variable {nonce : Bytes} {c : WindowCaptureRecord} {f : PendingFrame}

/-- A frame that was stored is the only screenshot under its token: it is there, and none lies
    under another date or extension. -/
theorem Filed.read_frame (h : Filed cfg all dir log)
    (hcanonical : ∀ t ∈ all, ∃ u : Uuid, t = u.text) (hput : putFrame cfg nonce c f ∈ log) :
    dir.files.read? (keyPath cfg.clientId.text (ymdFromFiletime (asI64 c.timestamp100ns))
        c.imageToken f.ext) = some (cfg.objects.stored nonce c.imageToken f.data) ∧
      ∀ date ext, ext ∈ objectExts → ext ≠ "opus" → ext ≠ f.ext →
        dir.files.read? (keyPath cfg.clientId.text date c.imageToken ext) = none := by
  refine ⟨h.kept _ _ _ _ hput f.ext_object f.ext_ne, fun date ext hobject hframe hne => ?_⟩
  by_contra hread
  obtain ⟨bytes, hbytes⟩ := Option.ne_none_iff_exists'.mp hread
  obtain ⟨date', token, ext', hsource, hobject', hpath⟩ := h.source _ _ hbytes
  obtain ⟨rfl, hclean⟩ := keyPath_inj hobject hobject' hpath
  have htoken : tokenOf (.putObject cfg.clientId.text date' token ext bytes) = some token :=
    if_neg hframe
  -- the other file would be an object stored under the same token
  obtain ⟨u, hu⟩ := hcanonical _ (h.named _ hput _ (tokenOf_putFrame cfg nonce c f))
  obtain ⟨u', hu'⟩ := hcanonical _ (h.named _ hsource _ htoken)
  rw [hu, hu', cleanComponent_uuid, cleanComponent_uuid] at hclean
  have hsame := h.once _ hsource _ hput (bne_iff_ne.mpr hframe)
    (isFrameObject_putFrame cfg nonce c f)
    (by rw [htoken, tokenOf_putFrame, hu, hu', hclean])
  exact hne (Event.putObject.inj hsame).2.2.2.1

/-- The row with a stored frame's token dates from the day the frame is filed under. -/
theorem Filed.row_date (h : Filed cfg all dir log) (hput : putFrame cfg nonce c f ∈ log)
    {r : Int × WindowCaptureRow} (hr : r ∈ dir.ukg.windowCapture.rows)
    (htoken : r.2.imageToken = some c.imageToken) :
    ymdFromFiletime r.2.timeStamp = ymdFromFiletime (asI64 c.timestamp100ns) := by
  obtain ⟨c', hc', htoken', htime⟩ := h.rows r hr
  obtain ⟨nonce', f', hsame⟩ := h.own c' hc' _ hput (isFrameObject_putFrame cfg nonce c f)
    (by rw [tokenOf_putFrame, ← htoken, htoken'])
  rw [htime, (Event.putObject.inj hsame).2.1]

end

end Precall.Broker
