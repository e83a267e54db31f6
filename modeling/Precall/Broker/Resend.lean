import Precall.Broker.Written

namespace Precall.Broker

open ByteLib TextLib Durable TableLib Precall.Proto Precall.Store

/-!
# Records that arrive again

A client may send a batch again, and a record may carry an image token that is already stored.
`insert_capture` recognizes the token, but `handle_meta` has by then taken the front of the queue
and written it.

* `Kept` — stored screenshots stay as they are, and a record that is stored already changes
  nothing;
* `Safe` — when a record may take up a frame;
* `screenshots_kept_iff` — over any further sessions of a client the first holds exactly if every
  record that takes up a frame does so safely;
* `resent_overwrites` — a record sent again with another frame.
-/

/-- One further session: the clock at its start, what arrives, and how many writes it gets to
    commit. -/
structure Sending where
  now : Int
  arrivals : List Arrival
  budget : Nat

section
variable [TextTables] (json : JsonReader) (cfg : SessionConfig) (dir₀ : ClientDir)

/-- The store after a log. -/
def after (log : List Event) : ClientDir := replay Event.apply dir₀ log

/-- The log of further sessions, each started on what the ones before it left. -/
def continuation (sendings : List Sending) : List Event :=
  sendings.foldl (fun log s =>
    ((session json cfg s.now s.arrivals).run Event.apply s.budget (after dir₀ log) log).log) []

/-- The path of a capture's object, from the row's own timestamp and token, as the readers
    compute it. -/
def objectPath (r : Int × WindowCaptureRow) (token ext : String) : Path :=
  keyPath cfg.clientId.text (ymdFromFiletime r.2.timeStamp) token ext

/-- The path a record's object is written to, from the record's timestamp and token. -/
def putPath (c : WindowCaptureRecord) (f : PendingFrame) : Path :=
  keyPath cfg.clientId.text (ymdFromFiletime (asI64 c.timestamp100ns)) c.imageToken f.ext

/-- The same tables and the same files. -/
structure Unchanged (dir dir' : ClientDir) : Prop where
  ukg : dir'.ukg = dir.ukg
  text : dir'.text = dir.text
  image : dir'.image = dir.image
  files : ∀ path, dir'.files.read? path = dir.files.read? path

/-- The write belongs to a record whose token is stored: the client sends it once more. -/
def Again (dir : ClientDir) (e : Event) : Prop :=
  ∃ t, tokenOf e = some t ∧ dir.ukg.captureOfToken t ≠ none

/-- Along a log, captures stay, their objects stay, and records that are stored change nothing
    when they come again. -/
structure Kept (log : List Event) : Prop where
  rows : ∀ before mid rest, log = before ++ (mid ++ rest) →
    (after dir₀ before).ukg.windowCapture.rows ⊆ (after dir₀ (before ++ mid)).ukg.windowCapture.rows
  objects : ∀ before mid rest, log = before ++ (mid ++ rest) →
    ∀ r ∈ (after dir₀ before).ukg.windowCapture.rows, ∀ token, r.2.imageToken = some token →
    ∀ ext ∈ ["jpg", "raw"], ∀ bytes,
      (after dir₀ before).files.read? (objectPath cfg r token ext) = some bytes →
      (after dir₀ (before ++ mid)).files.read? (objectPath cfg r token ext) = some bytes
  idle : ∀ before e rest, log = before ++ e :: rest → Again (after dir₀ before) e →
    Unchanged (after dir₀ before) (after dir₀ (before ++ [e]))

/-- Where a record may take up a frame: if its token is stored, the frame is there already; if
    another capture's object lies where it is written, it is that object. -/
structure Safe (dir : ClientDir) (nonce : Bytes) (c : WindowCaptureRecord) (f : PendingFrame) :
    Prop where
  again : dir.ukg.captureOfToken c.imageToken ≠ none →
    dir.files.read? (putPath cfg c f) = some (cfg.objects.stored nonce c.imageToken f.data)
  other : ∀ r ∈ dir.ukg.windowCapture.rows, ∀ token, r.2.imageToken = some token →
    objectPath cfg r token f.ext = putPath cfg c f → ∀ bytes,
      dir.files.read? (putPath cfg c f) = some bytes →
      bytes = cfg.objects.stored nonce c.imageToken f.data

/-- Every record that takes up a frame does so safely, in the state the writes before it left. -/
def AllSafe (log : List Event) : Prop :=
  ∀ before nonce c f rest, log = before ++ putFrame cfg nonce c f :: rest →
    Safe cfg (after dir₀ before) nonce c f

/-- No record takes up a frame whose token is stored already, or that is written to the path of a
    stored capture's object.  Unlike `AllSafe` it looks at no file. -/
def NoneHits (log : List Event) : Prop :=
  ∀ before nonce c f rest, log = before ++ putFrame cfg nonce c f :: rest →
    (after dir₀ before).ukg.captureOfToken c.imageToken = none ∧
      ∀ r ∈ (after dir₀ before).ukg.windowCapture.rows, ∀ token, r.2.imageToken = some token →
        objectPath cfg r token f.ext ≠ putPath cfg c f

/-- Then the files do not matter. -/
theorem NoneHits.allSafe {cfg : SessionConfig} {dir₀ : ClientDir} {log : List Event}
    (h : NoneHits cfg dir₀ log) : AllSafe cfg dir₀ log := by
  intro before nonce c f rest hlog
  obtain ⟨hnew, hpaths⟩ := h before nonce c f rest hlog
  exact
    { again := fun hstored => absurd hnew hstored
      other := fun r hr token htoken hpath => absurd hpath (hpaths r hr token htoken) }

/-! ### What a session writes -/

/-- A write of a session: one of the ingesting process for its own client, and a frame only for a
    record. -/
def Sent (e : Event) : Prop :=
  e.ingested cfg.clientId.text = true ∧
    (isFrameObject e = true → ∃ nonce c f, e = putFrame cfg nonce c f)

variable {json cfg dir₀}

/-- All that a session writes is of this kind. -/
theorem session_sends (json : JsonReader) (cfg : SessionConfig) (now : Int)
    (arrivals : List Arrival) (budget : Nat) (dir : ClientDir) (log : List Event) :
    ∃ ws, ((session json cfg now arrivals).run Event.apply budget dir log).log = log ++ ws ∧
      ∀ e ∈ ws, Sent cfg e := by
  obtain ⟨ws, hws, hingested⟩ := Prog.run_appends budget
    (session_ingests json now arrivals dir log)
  have hframes : (session json cfg now arrivals).wp Event.apply
      (fun e _ _ => isFrameObject e = true → ∃ nonce c f, e = putFrame cfg nonce c f)
      (fun _ _ _ => True) dir log := by
    refine Prog.wp_mono (session_stores cfg json now arrivals dir log) (fun e _ _ he hf => ?_)
      fun _ _ _ _ => trivial
    obtain ⟨s, -, nonce, hs⟩ := he hf
    exact ⟨nonce, s.capture, s.frame, hs⟩
  obtain ⟨ws', hws', hput⟩ := Prog.run_appends budget hframes
  obtain rfl : ws = ws' := List.append_cancel_left (hws.symm.trans hws')
  exact ⟨ws, hws, fun e he => ⟨hingested e he, hput e he⟩⟩

/-- So is all that further sessions write. -/
theorem continuation_sent (sendings : List Sending) :
    ∀ e ∈ continuation json cfg dir₀ sendings, Sent cfg e := by
  induction sendings using List.reverseRecOn with
  | nil => exact fun e he => by cases he
  | append_singleton sendings s ih =>
    intro e he
    obtain ⟨ws, hws, hsent⟩ := session_sends json cfg s.now s.arrivals s.budget
      (after dir₀ (continuation json cfg dir₀ sendings)) (continuation json cfg dir₀ sendings)
    rw [continuation, List.foldl_append, List.foldl_cons, List.foldl_nil] at he
    rcases List.mem_append.mp (hws ▸ he) with he | he
    · exact ih e he
    · exact hsent e he

/-! ### One write -/

/-- One more write is applied to what the others leave. -/
theorem after_concat (log : List Event) (e : Event) :
    after dir₀ (log ++ [e]) = e.apply (after dir₀ log) := replay_concat ..

variable {dir : ClientDir} {e : Event}

/-- A session deletes no capture. -/
theorem Sent.rows (h : Sent cfg e) :
    dir.ukg.windowCapture.rows ⊆ (e.apply dir).ukg.windowCapture.rows := by
  cases e with
  | insertCapture c =>
    simp only [Event.apply, Ukg.insertCapture]
    split
    · exact List.Subset.refl _
    · exact List.subset_append_left _ _
  | ensureInfo leg dim space => simp [Event.apply]
  | touchClient | putObject | addAppDwell | addWebDwell => exact List.Subset.refl _
  | _ => cases h.1

/-- An object of a capture survives every write but an unsafe one: the only write to its path is
    one of the same object. -/
theorem Sent.object (h : Sent cfg e)
    (hsafe : ∀ nonce c f, e = putFrame cfg nonce c f → Safe cfg dir nonce c f)
    {r : Int × WindowCaptureRow} (hr : r ∈ dir.ukg.windowCapture.rows) {token : String}
    (htoken : r.2.imageToken = some token) {ext : String} (hext : ext ∈ ["jpg", "raw"])
    {bytes : Bytes} (hread : dir.files.read? (objectPath cfg r token ext) = some bytes) :
    (e.apply dir).files.read? (objectPath cfg r token ext) = some bytes := by
  have hobject : ext ∈ objectExts ∧ ext ≠ "opus" := by
    rcases List.mem_pair.mp hext with rfl | rfl <;> decide
  rcases Event.files_apply e dir with ⟨id, date, t, x, stored, rfl⟩ | hfiles
  · obtain rfl : id = cfg.clientId.text := beq_iff_eq.mp h.1
    rw [Event.apply, Files.read?_write]
    split
    · rename_i hpath
      by_cases hx : x = "opus"
      · -- audio lies under another extension
        subst hx
        exact absurd (keyPath_inj hobject.1 (by decide) hpath).1 hobject.2
      · obtain ⟨nonce, c, f, heq⟩ := h.2 (bne_iff_ne.mpr hx)
        have hother := hsafe nonce c f heq
        obtain ⟨-, rfl, rfl, rfl, rfl⟩ := Event.putObject.inj heq
        obtain ⟨rfl, -⟩ := keyPath_inj hobject.1 f.ext_object hpath
        have hsame : objectPath cfg r token f.ext = putPath cfg c f := hpath
        exact congrArg some (hother.other r hr token htoken hsame bytes (hsame ▸ hread)).symm
    · exact hread
  · rwa [hfiles]

/-- A record that is stored changes nothing, unless it stores another frame; its row is not
    inserted twice. -/
theorem Sent.idle (h : Sent cfg e)
    (hsafe : ∀ nonce c f, e = putFrame cfg nonce c f → Safe cfg dir nonce c f)
    (hagain : Again dir e) : Unchanged dir (e.apply dir) := by
  obtain ⟨t, ht, hstored⟩ := hagain
  cases e with
  | insertCapture c =>
    obtain rfl : c.imageToken = t := Option.some.inj ht
    obtain ⟨id, hid⟩ := Option.ne_none_iff_exists'.mp hstored
    have hsame : (dir.ukg.insertCapture c).1 = dir.ukg := by
      rw [Ukg.insertCapture, hid]
    exact ⟨hsame, rfl, rfl, fun _ => rfl⟩
  | putObject id date token ext stored =>
    have hext : ext ≠ "opus" := by
      rintro rfl
      cases ht
    obtain rfl : token = t := Option.some.inj ((if_neg hext).symm.trans ht)
    obtain ⟨nonce, c, f, heq⟩ := h.2 (bne_iff_ne.mpr hext)
    have hagain := (hsafe nonce c f heq).again
    obtain ⟨rfl, rfl, rfl, rfl, rfl⟩ := Event.putObject.inj heq
    refine ⟨rfl, rfl, rfl, fun path => ?_⟩
    rw [Event.apply, Files.read?_write]
    split
    · rename_i hpath
      rw [hpath]
      exact (hagain hstored).symm
    · rfl
  | _ => cases ht

/-! ### Along a log -/

/-- **When stored screenshots stay.**  Over any further sessions, whatever they send, captures and
    their objects stay as they are and records sent again change nothing exactly if every record
    that takes up a frame does so safely. -/
theorem kept_iff {log : List Event} (hsent : ∀ e ∈ log, Sent cfg e) :
    Kept cfg dir₀ log ↔ AllSafe cfg dir₀ log := by
  constructor
  · intro hkept before nonce c f rest hlog
    have hwritten : (after dir₀ (before ++ [putFrame cfg nonce c f])).files.read? (putPath cfg c f)
        = some (cfg.objects.stored nonce c.imageToken f.data) := by
      rw [after_concat, putFrame, Event.apply, Files.read?_write]
      exact if_pos rfl
    refine ⟨fun hstored => ?_, fun r hr token htoken hpath bytes hread => ?_⟩
    · rw [← (hkept.idle before _ rest hlog ⟨_, tokenOf_putFrame cfg nonce c f, hstored⟩).files]
      exact hwritten
    · have hlater := hkept.objects before [putFrame cfg nonce c f] rest hlog r hr token htoken
        f.ext f.ext_mem bytes (hpath ▸ hread)
      rw [hpath, hwritten] at hlater
      exact (Option.some.inj hlater).symm
  · intro hsafe
    have hmem : ∀ {before e rest}, log = before ++ e :: rest → Sent cfg e := by
      intro before e rest hlog
      exact hsent e (hlog ▸ List.mem_append_right before List.mem_cons_self)
    have hput : ∀ {before e rest}, log = before ++ e :: rest →
        ∀ nonce c f, e = putFrame cfg nonce c f → Safe cfg (after dir₀ before) nonce c f := by
      intro before e rest hlog nonce c f heq
      exact hsafe before nonce c f rest (heq ▸ hlog)
    have hrows : ∀ before mid rest, log = before ++ (mid ++ rest) →
        (after dir₀ before).ukg.windowCapture.rows
          ⊆ (after dir₀ (before ++ mid)).ukg.windowCapture.rows := by
      intro before mid
      induction mid using List.reverseRecOn with
      | nil => simp
      | append_singleton mid e ih =>
        intro rest hlog
        have hcut : log = (before ++ mid) ++ e :: rest := by simpa using hlog
        rw [← List.append_assoc, after_concat]
        exact List.Subset.trans (ih (e :: rest) (by simpa using hlog)) (hmem hcut).rows
    refine ⟨hrows, ?_, fun before e rest hlog hagain => ?_⟩
    · intro before mid
      induction mid using List.reverseRecOn with
      | nil => simp
      | append_singleton mid e ih =>
        intro rest hlog r hr token htoken ext hext bytes hread
        have hcut : log = (before ++ mid) ++ e :: rest := by simpa using hlog
        have hbefore := ih (e :: rest) (by simpa using hlog) r hr token htoken ext hext bytes hread
        rw [← List.append_assoc, after_concat]
        exact (hmem hcut).object (hput hcut) (hrows before mid (e :: rest) (by simpa using hlog) hr)
          htoken hext hbefore
    · rw [after_concat]
      exact (hmem hlog).idle (hput hlog) hagain

variable (cfg) in
/-- What a capture's object yields, by `get` under the row's own path and token, to any later
    reader. -/
def yields (dir : ClientDir) (r : Int × WindowCaptureRow) (token ext : String) :
    Except ObjectError Bytes :=
  cfg.objects.get dir.files false cfg.clientId.text (objectPath cfg r token ext) token

/-- A file that stays yields what it did. -/
theorem yields_of_read {dir dir' : ClientDir} {r : Int × WindowCaptureRow} {token ext : String}
    (h : ∀ bytes, dir.files.read? (objectPath cfg r token ext) = some bytes →
      dir'.files.read? (objectPath cfg r token ext) = some bytes) {bytes : Bytes}
    (hyields : yields cfg dir r token ext = .ok bytes) :
    yields cfg dir' r token ext = .ok bytes := by
  unfold yields ObjectStore.get at hyields ⊢
  cases hread : dir.files.read? (objectPath cfg r token ext) with
  | none =>
    rw [hread] at hyields
    split at hyields
    · cases hyields
    · split at hyields <;> cases hyields
  | some raw =>
    rw [hread] at hyields
    rw [h raw hread]
    exact hyields

/-- **Screenshots under later ingestion.**  For every store of a client and any further sessions:
    captures and objects stay as they are, and records sent again change nothing, exactly if every
    record that takes up a frame does so safely; so they do if no such record has a stored token or
    is written to a stored object's path; and whenever they do, every object yields what it did. -/
theorem screenshots_kept_iff (json : JsonReader) (cfg : SessionConfig) (dir₀ : ClientDir)
    (sendings : List Sending) :
    (Kept cfg dir₀ (continuation json cfg dir₀ sendings) ↔
      AllSafe cfg dir₀ (continuation json cfg dir₀ sendings)) ∧
    (NoneHits cfg dir₀ (continuation json cfg dir₀ sendings) →
      Kept cfg dir₀ (continuation json cfg dir₀ sendings)) ∧
    (Kept cfg dir₀ (continuation json cfg dir₀ sendings) → ∀ before mid rest,
      continuation json cfg dir₀ sendings = before ++ (mid ++ rest) →
      ∀ r ∈ (after dir₀ before).ukg.windowCapture.rows, ∀ token, r.2.imageToken = some token →
      ∀ ext ∈ ["jpg", "raw"], ∀ bytes, yields cfg (after dir₀ before) r token ext = .ok bytes →
        yields cfg (after dir₀ (before ++ mid)) r token ext = .ok bytes) := by
  have hiff : Kept cfg dir₀ (continuation json cfg dir₀ sendings) ↔
      AllSafe cfg dir₀ (continuation json cfg dir₀ sendings) :=
    kept_iff (continuation_sent sendings)
  refine ⟨hiff, fun hnone => hiff.mpr hnone.allSafe, ?_⟩
  intro hkept before mid rest hlog r hr token htoken ext hext bytes hyields
  exact yields_of_read (hkept.objects before mid rest hlog r hr token htoken ext hext) hyields

end

/-! ### Another frame under the same token -/

section

attribute [local instance] TextTables.ascii

/-- A screenshot with its record, then, in a session of its own, the same record with another
    screenshot. -/
def resentSessions : List Sending :=
  [0xaa, 0xbb].map fun jpeg =>
    { now := 0
      arrivals := [smallFrame 1 [jpeg], ⟨.pcMeta, [1]⟩].map fun m => ⟨m, fun _ => [], 0⟩
      budget := 100 }

/-- What the two sessions write, starting from nothing. -/
def resentLog : List Event := continuation smallJson smallSession ClientDir.new resentSessions

/-- The first session leaves a row and its screenshot, the second the same row over another
    screenshot. -/
theorem resent_overwrites :
    (∃ before mid, resentLog = before ++ mid ∧
      (1, Ukg.captureRow smallCapture) ∈ (after ClientDir.new before).ukg.windowCapture.rows ∧
      yields smallSession (after ClientDir.new before) (1, Ukg.captureRow smallCapture) "t" "jpg"
        = .ok [0xaa] ∧
      yields smallSession (after ClientDir.new (before ++ mid)) (1, Ukg.captureRow smallCapture) "t"
        "jpg" = .ok [0xbb]) ∧
    ¬ Kept smallSession ClientDir.new resentLog := by
  have hcut : resentLog = resentLog.take 5 ++ (resentLog.drop 5 ++ []) := by
    rw [List.append_nil, List.take_append_drop]
  have hrow : (1, Ukg.captureRow smallCapture) ∈
      (after ClientDir.new (resentLog.take 5)).ukg.windowCapture.rows := by
    decide +kernel
  refine ⟨⟨resentLog.take 5, resentLog.drop 5, (List.take_append_drop 5 resentLog).symm, hrow,
    by decide +kernel, by decide +kernel⟩, fun hkept => ?_⟩
  have hread := hkept.objects _ _ [] hcut _ hrow "t" rfl "jpg" (by decide) [0xaa]
    (by decide +kernel)
  revert hread
  decide +kernel

end

end Precall.Broker
