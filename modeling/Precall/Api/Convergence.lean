import Precall.Api.Healthy
import Precall.Api.ImageLeg
import Precall.Api.TextLeg
import Precall.Lib.Batches

namespace Precall.Api

open ByteLib TextLib TableLib Durable Precall.Proto Precall.Store

/-!
# Enrichment settles down

Whatever happened before (crashes, refusals, services that came and went), once the service is
healthy and nothing new arrives, the passes work off both queues and then stop changing anything.

* `Readied`, `Readied.steady` — where a pass reads its queues the stores are steady, and a pass
  over steady stores changes nothing before (`steady_prepare`);
* `progress_workQueues` — a pass serves what it selected and leaves every other capture as it was;
* `backlog` — of the captures a queue is for (`waiting`) those that no pass of the phase has
  attempted; each pass takes a full batch off it, or empties it (`InPhase.next`);
* `enrichment_settles` — after one pass for every 64 captures waiting, every capture whose object is
  there is through on both legs, and further passes leave the directory as it is.
-/

/-! ### The start of a pass -/

section
variable [TextTables] {cfg : EnrichConfig} {spaces : String × String} {env : PassEnv}
  {dir : ClientDir} {log : List Event}

omit [TextTables] in
/-- Over steady stores no leg has a flag to lift, so the start of a pass has nothing to requeue. -/
theorem Steady.flagSet_eq (h : Steady spaces dir) (leg : Leg) :
    flagSet env dir.ukg (flagKey leg) = false := by
  rw [flagSet, Bool.and_eq_false_iff, beq_eq_false_iff_ne]
  exact Or.inr (h.available leg)

/-- Over steady stores a pass changes nothing before it reads its queues. -/
theorem steady_prepare (henv : Healthy spaces env) (h : Steady spaces dir) :
    (prepare cfg env).wp Event.apply (fun e _ _ => e.apply dir = dir) (fun _ dir' _ => dir' = dir)
      dir log := by
  have hstamped : ∀ leg, (dir.index leg).info.isNone = false := by
    intro leg
    have hlabel := h.label leg
    unfold SiDb.spaceId at hlabel
    cases hinfo : (dir.index leg).info with
    | none =>
      rw [hinfo] at hlabel
      cases hlabel
    | some info => rfl
  simp only [prepare, openIndex, Prog.wp_bind, Prog.wp_get, hstamped, Bool.false_eq_true, if_false,
    Prog.wp_pure, checkSpaces, henv.reported]
  -- each store is given the label it has
  have halign : ∀ leg log', (alignSpace cfg leg (legSpace leg spaces)).wp Event.apply
      (fun e _ _ => e.apply dir = dir) (fun _ dir' _ => dir' = dir) dir log' := fun leg log' =>
    h.wp_alignSpace leg |>.mpr ⟨h.setSpaceId_apply leg cfg.dim, rfl⟩
  have hrequeue : ∀ leg log', (requeueUnavailable env leg).wp Event.apply
      (fun e _ _ => e.apply dir = dir) (fun _ dir' _ => dir' = dir) dir log' := by
    intro leg log'
    simp only [requeueUnavailable, Prog.wp_bind, Prog.wp_get, h.flagSet_eq, Bool.false_eq_true,
      if_false, Prog.wp_pure]
  refine Prog.wp_post (halign .text log) ?_
  rintro _ _ log₁ rfl
  refine Prog.wp_seq (halign .image log₁) ?_
  rintro _ _ log₂ rfl
  refine Prog.wp_seq (hrequeue .text log₂) ?_
  rintro _ _ log₃ rfl
  exact hrequeue .image log₃

/-- What a pass does before it reads its queues leaves every object, clock and capture key: the
    queues may grow, but not by new captures. -/
structure Kept (dir dir' : ClientDir) : Prop where
  files : dir'.files = dir.files
  clock : dir'.ukg.enrichAttempt = dir.ukg.enrichAttempt
  keys : dir'.ukg.windowCapture.rows.map Prod.fst = dir.ukg.windowCapture.rows.map Prod.fst

/-- None of the writes at the start of a pass touches them; of the captures only the processed
    flags and the embedding states change. -/
theorem kept_apply {e : Event} (he : upkeepWrites e = true) : Kept dir (e.apply dir) := by
  refine ⟨?_, enrichAttempt_apply (attemptOf_of_upkeepWrites he), ?_⟩
  · rcases Event.files_apply e dir with ⟨clientId, date, token, ext, stored, rfl⟩ | h
    · cases he
    · exact h
  · by_cases hrequeue : e = .markAllUnprocessed
    · subst hrequeue
      show List.map _ (List.map _ _) = _
      rw [List.map_map]
      rfl
    · rw [Event.windowCapture_apply _ _ hrequeue]
      · rintro rec rfl
        cases he
      · rintro id rfl
        cases he

/-- So nothing of this is changed by any number of such writes. -/
theorem kept_replay {ws : List Event} (hws : ∀ e ∈ ws, upkeepWrites e = true) :
    Kept dir (replay Event.apply dir ws) := by
  induction ws using List.reverseRecOn with
  | nil => exact ⟨rfl, rfl, rfl⟩
  | append_singleton ws e ih =>
    have hinit := ih fun v hv => hws v (List.mem_append_left _ hv)
    have hlast : Kept (replay Event.apply dir ws) _ :=
      kept_apply (hws e (List.mem_append_right _ (List.mem_singleton_self e)))
    rw [replay_concat]
    exact ⟨hlast.files.trans hinit.files, hlast.clock.trans hinit.clock,
      hlast.keys.trans hinit.keys⟩

/-- Taking back a flag leaves the stores, and lowers that flag only, so the other leg's flag can
    be looked at after it. -/
theorem wp_requeueUnavailable (henv : Healthy spaces env) (leg : Leg) :
    (requeueUnavailable env leg).wp Event.apply (fun _ _ _ => True) (fun _ dir' _ =>
      (∀ leg', dir'.index leg' = dir.index leg') ∧
        dir'.ukg.getConfig (flagKey leg) ≠ some "1" ∧
        ∀ leg', leg' ≠ leg → dir'.ukg.getConfig (flagKey leg') = dir.ukg.getConfig (flagKey leg'))
      dir log := by
  simp only [requeueUnavailable, Prog.wp_bind, Prog.wp_get, Prog.wp_ite, Prog.wp_commit,
    Prog.wp_pure]
  refine ⟨fun _ => ⟨trivial, trivial, ?_, ?_, ?_⟩, fun hunset =>
    ⟨fun _ => trivial, ?_, fun _ _ => trivial⟩⟩
  · intro leg'
    cases leg <;> simp [requeue, Event.apply]
  · have hlookup : ((dir.ukg.setConfig (flagKey leg) "0").config.lookup (flagKey leg))
        = some "0" := AList.lookup_insert _
    have hzero : ("0" : String) ≠ "1" := by decide
    cases leg <;> exact fun h => hzero (Option.some.inj (hlookup.symm.trans h))
  · intro leg' hne
    have hkey : flagKey leg' ≠ flagKey leg := by
      cases leg <;> cases leg' <;> first | exact absurd rfl hne | decide
    have hlookup : ((dir.ukg.setConfig (flagKey leg) "0").config.lookup (flagKey leg'))
        = dir.ukg.config.lookup (flagKey leg') := AList.lookup_insert_ne hkey
    cases leg <;> exact hlookup
  · intro hset
    exact hunset (by simp [flagSet, henv.flag, hset])

/-- **The first healthy pass makes the stores steady**, and keeps what the queues go by. -/
theorem steady_of_prepare (henv : Healthy spaces env) :
    (prepare cfg env).wp Event.apply (fun _ _ _ => True)
      (fun _ dir' _ => Steady spaces dir' ∧ Kept dir dir') dir log := by
  have hsteady : (prepare cfg env).wp Event.apply (fun _ _ _ => True)
      (fun _ dir' _ => Steady spaces dir') dir log := by
    unfold prepare
    refine Prog.wp_seq (R := fun _ _ _ => True)
      (Prog.wp_mono (safe_openIndex cfg .text) (fun _ _ _ _ => trivial) fun _ _ _ _ => trivial) ?_
    intro _ d₁ l₁ _
    refine Prog.wp_seq (R := fun _ _ _ => True)
      (Prog.wp_mono (safe_openIndex cfg .image) (fun _ _ _ _ => trivial) fun _ _ _ _ => trivial) ?_
    intro _ d₂ l₂ _
    unfold checkSpaces
    rw [henv.reported]
    refine Prog.wp_seq (Prog.wp_mono (safe_alignSpace cfg .text spaces.1)
      (fun _ _ _ _ => trivial) fun _ _ _ h => h) fun _ d₃ l₃ htext => ?_
    refine Prog.wp_seq (Prog.wp_mono (safe_alignSpace cfg .image spaces.2)
      (fun _ _ _ _ => trivial) fun _ _ _ h => h) fun _ d₄ l₄ himage => ?_
    refine Prog.wp_seq (wp_requeueUnavailable henv .text) ?_
    rintro _ d₅ l₅ ⟨hindex₅, hflag₅, -⟩
    refine Prog.wp_post (wp_requeueUnavailable henv .image) ?_
    rintro _ d₆ l₆ ⟨hindex₆, hflag₆, hother₆⟩
    refine ⟨fun leg => ?_, fun leg => ?_⟩
    · rw [hindex₆, hindex₅]
      cases leg with
      | text =>
        rw [himage.other .text (by decide)]
        exact htext.label
      | image => exact himage.label
    · cases leg with
      | text =>
        rw [hother₆ .text (by decide)]
        exact hflag₅
      | image => exact hflag₆
  have hwrites := Prog.wp_appends (Q := fun _ _ _ => True)
    ((writes_prepare cfg env).wp Event.apply dir log)
  refine Prog.wp_mono (Prog.wp_and hsteady hwrites) (fun _ _ _ _ => trivial) ?_
  rintro _ dir' log' ⟨hdir', -, ws, -, rfl, hws⟩
  exact ⟨hdir', kept_replay hws⟩

/-- A pass that starts over the first directory reads its queues in the second: it has labelled its
    stores by then, and put captures back to work where a store is rebuilt or a flag is lifted. -/
def Readied (cfg : EnrichConfig) (env : PassEnv) (dir dir₁ : ClientDir) : Prop :=
  ∃ budget log log₁, (prepare cfg env).run Event.apply budget dir log = ⟨dir₁, log₁, some ()⟩

section
variable {dir₁ : ClientDir}

/-- What holds after the start of a pass holds of the directory it leaves, since the start always
    comes to its end. -/
theorem Readied.post {Q : Unit → ClientDir → List Event → Prop}
    {G : Event → ClientDir → List Event → Prop} (h : Readied cfg env dir dir₁)
    (hwp : ∀ log, (prepare cfg env).wp Event.apply G Q dir log) : ∃ log₁, Q () dir₁ log₁ := by
  obtain ⟨budget, log, log₁, hrun⟩ := h
  have hends := Prog.run_ends budget (hwp log) (a := ()) (by rw [hrun])
  rw [hrun] at hends
  exact ⟨log₁, hends⟩

/-- With the service healthy the stores are steady where a pass reads its queues, and keep what
    the queues go by. -/
theorem Readied.steady (h : Readied cfg env dir dir₁) (henv : Healthy spaces env) :
    Steady spaces dir₁ ∧ Kept dir dir₁ := by
  obtain ⟨-, hspec⟩ := h.post fun _ => steady_of_prepare henv
  exact hspec

/-- A pass over steady stores reads its queues where it starts. -/
theorem Readied.eq_of_steady (h : Readied cfg env dir dir₁) (henv : Healthy spaces env)
    (hsteady : Steady spaces dir) : dir₁ = dir := by
  obtain ⟨-, hspec⟩ := h.post fun _ => steady_prepare henv hsteady
  exact hspec

end

/-! ### The two loops -/

/-- Part way through a pass: of the captures selected, those in `rest` are still to come and look
    as they did, the others are served; nothing else has changed. -/
structure Progress (cfg : EnrichConfig) (spaces : String × String) (now : Int)
    (dir₁ : ClientDir) (all rest : List Int) (dir : ClientDir) : Prop where
  steady : Steady spaces dir
  files : dir.files = dir₁.files
  waiting : ∀ c, c ∉ all ∨ c ∈ rest → view dir c = view dir₁ c
  served : ∀ c ∈ all, c ∉ rest → Served cfg now dir c

section
variable {dir₁ : ClientDir} {now : Int} {all rest : List Int} {c : Int}

/-- One capture served, out of the work on it: it leaves what is still to do, and the others keep
    their views. -/
theorem Progress.next (h : Progress cfg spaces now dir₁ all (c :: rest) dir) (hall : c ∈ all)
    (hnodup : (c :: rest).Nodup) {ws : List Event} (hws : ∀ e ∈ ws, work spaces c e = true)
    (hserved : Served cfg now (replay Event.apply dir ws) c) :
    Progress cfg spaces now dir₁ all rest (replay Event.apply dir ws) := by
  obtain ⟨hfiles, hview⟩ : (replay Event.apply dir ws).files = dir.files ∧ _ := view_replay hws
  refine ⟨steady_replay h.steady hws, hfiles.trans h.files, fun x hx => ?_, fun x hx hrest => ?_⟩
  · have hxc : x ≠ c := by
      rintro rfl
      rcases hx with hx | hx
      · exact hx hall
      · exact (List.nodup_cons.mp hnodup).1 hx
    rw [hview x hxc]
    exact h.waiting x (hx.imp id fun hmem => List.mem_cons_of_mem c hmem)
  · by_cases hxc : x = c
    · rw [hxc]
      exact hserved
    · refine (h.served x hx ?_).congr (hview x hxc) hfiles
      rw [List.mem_cons, not_or]
      exact ⟨hxc, hrest⟩

/-- A loop whose body serves the capture of each entry serves them all, by induction on the
    entries that are left. -/
theorem progress_loop {β : Type} {body : β → LoopState → Enricher LoopState} {key : β → Int}
    {entries : List β} {later : List Int}
    (hbody : ∀ entry ∈ entries, ∀ acc dir log, acc.stopImages = false → Steady spaces dir →
      view dir (key entry) = view dir₁ (key entry) → (body entry acc).wp Event.apply
        (fun e _ _ => work spaces (key entry) e = true)
        (fun acc' dir' _ => acc'.stopImages = false ∧ Served cfg now dir' (key entry)) dir log)
    (hall : ∀ entry ∈ entries, key entry ∈ all) (hnodup : (entries.map key ++ later).Nodup)
    (h : Progress cfg spaces now dir₁ all (entries.map key ++ later) dir) {acc : LoopState}
    (hgo : acc.stopImages = false) :
    (Prog.forEach body entries acc).wp Event.apply (fun _ _ _ => True)
      (fun acc' dir' _ => acc'.stopImages = false ∧ Progress cfg spaces now dir₁ all later dir')
      dir log := by
  induction entries generalizing acc dir log with
  | nil => exact ⟨hgo, h⟩
  | cons entry entries ih =>
    obtain ⟨hentry, hentries⟩ := List.forall_mem_cons.mp hbody
    obtain ⟨hkey, hkeys⟩ := List.forall_mem_cons.mp hall
    have hview := h.waiting (key entry) (Or.inr List.mem_cons_self)
    have hone := Prog.wp_appends (hentry acc dir log hgo h.steady hview)
    unfold Prog.forEach
    refine Prog.wp_seq (Prog.wp_mono hone (fun _ _ _ _ => trivial) fun _ _ _ h' => h') ?_
    rintro acc' _ log' ⟨⟨hgo', hserved⟩, ws, -, rfl, hws⟩
    exact ih hentries hkeys (List.nodup_cons.mp hnodup).2 (h.next hkey hnodup hws hserved) hgo'

/-- The captures a pass selects, from its two queues. -/
def selected (db : Ukg) (limit now backoff : Int) : List Int :=
  Queue.backfill.select db limit now backoff ++ Queue.fresh.select db limit now backoff

omit [TextTables] in
/-- A queue lists no capture twice, and no capture is in both. -/
theorem nodup_selected (db : Ukg) (limit now backoff : Int) :
    (selected db limit now backoff).Nodup := by
  have hnodup : ∀ queue : Queue, (queue.select db limit now backoff).Nodup := fun _ =>
    Queue.select_prefix.sublist.nodup Queue.nodup
  refine List.Nodup.append (hnodup .backfill) (hnodup .fresh) fun c hb hf => ?_
  exact Queue.not_due_both (fun _ hr => hr) (Queue.select_prefix.subset hb)
    (Queue.select_prefix.subset hf)

/-- **A pass serves what it selects.** Both loops are instances of the same lemma. -/
theorem progress_workQueues (id : Uuid) (hclient : cfg.client = id.text)
    (henv : Healthy spaces env) (h : Steady spaces dir) (limit backoff : Int) :
    (workQueues cfg limit backoff env ⟨dir.ukg, dir.ukg⟩).wp Event.apply (fun _ _ _ => True)
      (fun _ dir' _ => Progress cfg spaces env.now dir
        (selected dir.ukg limit env.now backoff) [] dir') dir log := by
  have hnodup := nodup_selected dir.ukg limit env.now backoff
  have hstart : Progress cfg spaces env.now dir (selected dir.ukg limit env.now backoff)
      (selected dir.ukg limit env.now backoff) dir :=
    ⟨h, rfl, fun _ _ => rfl, fun _ hc hnot => absurd hc hnot⟩
  unfold workQueues
  dsimp only
  refine Prog.wp_seq (progress_loop ?_ ?_ hnodup hstart rfl) ?_
  · -- an entry of the backfill queue carries the row that was read
    intro entry hentry acc dir' log' hgo hsteady hview
    obtain ⟨w, hrow, hts, htoken⟩ := mem_capturesNeedingImageEmbedding hentry
    have hdue : Queue.backfill.Due dir.ukg env.now backoff entry.1 :=
      Queue.select_prefix.subset (List.mem_map_of_mem hentry)
    obtain ⟨⟨w', hrow', hwants⟩, -⟩ := Queue.due_iff.mp hdue
    obtain rfl := Table.eq_of_mem hrow hrow'
    simp only [view, Prod.mk.injEq] at hview
    exact served_backfillOne id hclient henv hsteady
      (hview.1.trans (Table.get?_eq_some.mpr hrow)) (Queue.wants_isProcessed hwants) hts htoken hgo
  · exact fun entry hentry => List.mem_append_left _ (List.mem_map_of_mem hentry)
  rintro acc dir₂ log₂ ⟨hgo, hprogress⟩
  have hrest : Progress cfg spaces env.now dir (selected dir.ukg limit env.now backoff)
      (Queue.fresh.select dir.ukg limit env.now backoff ++ []) dir₂ := by
    rw [List.append_nil]
    exact hprogress
  refine Prog.wp_seq (progress_loop ?_ ?_ ?_ hrest hgo) ?_
  · intro entry hentry acc dir' log' hgo hsteady hview
    obtain ⟨w, hrow, hts, htoken⟩ := mem_capturesPendingEnrichment hentry
    simp only [view, Prod.mk.injEq] at hview
    exact served_freshOne id hclient henv hsteady
      (hview.1.trans (Table.get?_eq_some.mpr hrow)) hts htoken hgo
  · exact fun entry hentry => List.mem_append_right _ (List.mem_map_of_mem hentry)
  · rw [List.append_nil]
    exact (List.nodup_append.mp hnodup).2.1
  · rintro acc' dir₃ log₃ ⟨-, hdone⟩
    exact hdone

end

end

/-! ### The backlog -/

/-- The captures a queue is for, whether or not their last attempt is long enough ago to be
    selected. -/
def waiting (queue : Queue) (db : Ukg) : List Int :=
  (db.windowCapture.rows.filter fun r => queue.wants db r).map Prod.fst

/-- No more captures can wait than are stored. -/
theorem length_waiting_le (queue : Queue) (db : Ukg) :
    (waiting queue db).length ≤ db.windowCapture.rows.length := by
  rw [waiting, List.length_map]
  exact List.length_filter_le _ _

/-- The captures a queue is for and that nobody has attempted since `start`: the measure that the
    passes of a phase bring down. -/
def backlog (queue : Queue) (start : Int) (db : Ukg) : Finset Int :=
  ((db.windowCapture.rows.filter fun r =>
    queue.wants db r && decide (Queue.clock db r.1 < start)).map Prod.fst).toFinset

/-- The backlog of a queue: who is wanted there and was not attempted since the start. -/
theorem mem_backlog {queue : Queue} {start : Int} {db : Ukg} {c : Int} :
    c ∈ backlog queue start db ↔
      (∃ w, (c, w) ∈ db.windowCapture.rows ∧ queue.wants db (c, w) = true) ∧
        Queue.clock db c < start := by
  simp only [backlog, List.mem_toFinset, List.mem_map, List.mem_filter, Bool.and_eq_true,
    decide_eq_true_eq]
  constructor
  · rintro ⟨⟨id, w⟩, ⟨hrow, hwants, hclock⟩, rfl⟩
    exact ⟨⟨w, hrow, hwants⟩, hclock⟩
  · rintro ⟨⟨w, hrow, hwants⟩, hclock⟩
    exact ⟨(c, w), ⟨hrow, hwants, hclock⟩, rfl⟩

/-- No more captures are behind than wait. -/
theorem card_backlog_le (queue : Queue) (start : Int) (db : Ukg) :
    (backlog queue start db).card ≤ (waiting queue db).length := by
  refine (List.toFinset_card_le _).trans ?_
  rw [waiting, List.length_map, List.length_map]
  refine (List.Sublist.length_le ?_)
  exact List.monotone_filter_right _ fun r hr => (Bool.and_eq_true_iff.mp hr).1

/-- Whom a queue is for is a matter of the capture's view: its row, its embedding state and its
    last attempt. -/
theorem wants_congr {queue : Queue} {dir dir' : ClientDir} {c : Int}
    (hview : view dir' c = view dir c)
    (h : ∃ w, (c, w) ∈ dir'.ukg.windowCapture.rows ∧ queue.wants dir'.ukg (c, w) = true) :
    ∃ w, (c, w) ∈ dir.ukg.windowCapture.rows ∧ queue.wants dir.ukg (c, w) = true := by
  obtain ⟨w, hrow, hwants⟩ := h
  simp only [view, Prod.mk.injEq] at hview
  refine ⟨w, Table.get?_eq_some.mp (hview.1 ▸ Table.get?_eq_some.mpr hrow), ?_⟩
  have hopen : dir.ukg.imageStateOpen c = dir'.ukg.imageStateOpen c := by
    unfold Ukg.imageStateOpen
    rw [hview.2.1]
  cases queue with
  | fresh => exact hwants
  | backfill =>
    show (w.imageToken.isSome && w.isProcessed && dir.ukg.imageStateOpen c) = true
    rw [hopen]
    exact hwants

/-- The limit of a pass is a batch. -/
theorem select_batch (queue : Queue) (db : Ukg) (now backoff : Int) :
    queue.select db batch now backoff = (queue.select db (-1) now backoff).take 64 := by
  rw [Queue.select_eq, Queue.select_eq]
  rfl

/-- Between two passes of a healthy phase that began at `start`: attempts are from before the
    phase and rested, or from within it and the capture rests; `n` bounds the backlogs. -/
structure InPhase [TextTables] (cfg : EnrichConfig) (spaces : String × String) (start : Int)
    (n : Nat) (dir : ClientDir) : Prop where
  steady : Steady spaces dir
  clock : ∀ c u, dir.ukg.enrichAttempt.lookup c = some u →
    u + retryBackoffTicks ≤ start ∨ start ≤ u
  rests : ∀ c u, dir.ukg.enrichAttempt.lookup c = some u → start ≤ u → Rests cfg dir c
  behind : ∀ queue, (backlog queue start dir.ukg).card ≤ n

section
variable [TextTables] {cfg : EnrichConfig} {spaces : String × String} {start now : Int} {n : Nat}
  {dir dir' : ClientDir}

/-- **One pass of the phase**: what it attempts comes to rest, and each backlog is smaller by a
    batch. -/
theorem InPhase.next (h : InPhase cfg spaces start n dir) (hnow : start ≤ now)
    (hpass : Progress cfg spaces now dir (selected dir.ukg batch now retryBackoffTicks) [] dir') :
    InPhase cfg spaces start (n - 64) dir' := by
  have hother : ∀ c, c ∉ selected dir.ukg batch now retryBackoffTicks →
      view dir' c = view dir c := fun c hc => hpass.waiting c (Or.inl hc)
  have hserved : ∀ c ∈ selected dir.ukg batch now retryBackoffTicks, Served cfg now dir' c :=
    fun c hc => hpass.served c hc List.not_mem_nil
  have hclock : ∀ c, c ∉ selected dir.ukg batch now retryBackoffTicks →
      dir'.ukg.enrichAttempt.lookup c = dir.ukg.enrichAttempt.lookup c := fun c hc => by
    have hview := hother c hc
    simp only [view, Prod.mk.injEq] at hview
    exact hview.2.2
  refine ⟨hpass.steady, fun c u hu => ?_, fun c u hu hle => ?_, fun queue => ?_⟩
  · by_cases hc : c ∈ selected dir.ukg batch now retryBackoffTicks
    · obtain rfl := Option.some.inj ((hserved c hc).clock.symm.trans hu)
      exact Or.inr hnow
    · exact h.clock c u ((hclock c hc).symm.trans hu)
  · by_cases hc : c ∈ selected dir.ukg batch now retryBackoffTicks
    · exact (hserved c hc).rests
    · exact (h.rests c u ((hclock c hc).symm.trans hu) hle).congr (hother c hc) hpass.files
  · -- a capture still in the backlog was not selected, so it was in the backlog before
    have hleft : ∀ c ∈ backlog queue start dir'.ukg,
        c ∉ selected dir.ukg batch now retryBackoffTicks := by
      intro c hc hsel
      have hlt := (mem_backlog.mp hc).2
      rw [Queue.clock, (hserved c hsel).clock] at hlt
      exact absurd hlt (not_lt.mpr hnow)
    have hsub : backlog queue start dir'.ukg ⊆ backlog queue start dir.ukg := by
      intro c hc
      obtain ⟨hwants, hlt⟩ := mem_backlog.mp hc
      rw [Queue.clock, hclock c (hleft c hc)] at hlt
      exact mem_backlog.mpr ⟨wants_congr (hother c (hleft c hc)) hwants, hlt⟩
    have htaken : ∀ c, c ∈ queue.select dir.ukg batch now retryBackoffTicks →
        c ∈ selected dir.ukg batch now retryBackoffTicks := by
      intro c hc
      cases queue
      · exact List.mem_append_left _ hc
      · exact List.mem_append_right _ hc
    have hnodup : (queue.select dir.ukg batch now retryBackoffTicks).Nodup :=
      Queue.select_prefix.sublist.nodup Queue.nodup
    suffices hbatch : (∀ c ∈ backlog queue start dir.ukg,
          c ∈ queue.select dir.ukg batch now retryBackoffTicks) ∨
        ((∀ d ∈ queue.select dir.ukg batch now retryBackoffTicks,
          d ∈ backlog queue start dir.ukg) ∧
          (queue.select dir.ukg batch now retryBackoffTicks).length = 64) by
      have hround := Batches.card_round hnodup hsub
        (fun c hc hmem => hleft c hc (htaken c hmem)) hbatch
      have hbound := h.behind queue
      omega
    -- the backlog sorts before everything attempted since the start
    have hsorted : (queue.select dir.ukg (-1) now retryBackoffTicks).Pairwise fun a b =>
        Queue.clock dir.ukg a < Queue.clock dir.ukg b ∨
          (Queue.clock dir.ukg a = Queue.clock dir.ukg b ∧ a ≤ b) := Queue.sorted
    have hbehind : ∀ c d, Queue.clock dir.ukg c < start →
        (Queue.clock dir.ukg d < Queue.clock dir.ukg c ∨
          (Queue.clock dir.ukg d = Queue.clock dir.ukg c ∧ d ≤ c)) →
        Queue.clock dir.ukg d < start := fun c d hc hle => by omega
    have hurgent := Batches.urgent_taken hsorted hbehind 64
    rw [← select_batch] at hurgent
    refine hurgent.imp (fun hall c hc => ?_) fun hfull => ⟨fun d hd => ?_, hfull.2⟩
    · obtain ⟨hwants, hlt⟩ := mem_backlog.mp hc
      refine hall c (Queue.due_iff.mpr ⟨hwants, Queue.attemptDue_iff.mpr fun u hu => ?_⟩) hlt
      rcases h.clock c u hu with hold | hnew
      · omega
      · rw [Queue.clock, hu] at hlt
        exact absurd hlt (not_lt.mpr hnew)
    · have hdue : queue.Due dir.ukg now retryBackoffTicks d := Queue.select_prefix.subset hd
      exact mem_backlog.mpr ⟨(Queue.due_iff.mp hdue).1, hfull.1 d hd⟩

end

/-! ### Phases -/

/-- Passes that run to their ends one after the other, with the service healthy throughout and
    nothing arriving in between. -/
inductive Phase [TextTables] (cfg : EnrichConfig) (spaces : String × String) :
    List Event → List PassEnv → List Event → Prop where
  | nil (log : List Event) : Phase cfg spaces log [] log
  | pass {log log' : List Event} {env : PassEnv} {envs : List PassEnv} (budget : Nat)
      (henv : Healthy spaces env)
      (hdone : (runPass cfg env budget log).value.isSome = true)
      (hrest : Phase cfg spaces (runPass cfg env budget log).log envs log') :
      Phase cfg spaces log (env :: envs) log'

section
variable [TextTables] {cfg : EnrichConfig} {spaces : String × String} {start : Int} {n : Nat}
  {dir : ClientDir} {env : PassEnv} {envs : List PassEnv} {log log' : List Event}

/-- A pass over any stores serves what it selects where it reads its queues; what it has to put
    right first, it does before. -/
theorem progress_enrichClient (id : Uuid) (hclient : cfg.client = id.text)
    (henv : Healthy spaces env) :
    (enrichClient cfg env).wp Event.apply (fun _ _ _ => True) (fun _ dir' _ =>
      ∃ dir₁, Readied cfg env dir dir₁ ∧ Progress cfg spaces env.now dir₁
        (selected dir₁.ukg batch env.now retryBackoffTicks) [] dir') dir log := by
  rw [enrichClient_eq]
  refine Prog.wp_seq (Prog.wp_ends (prepare cfg env) dir log) ?_
  rintro _ dir₁ log₁ ⟨budget, hrun⟩
  have hready : Readied cfg env dir dir₁ := ⟨budget, log, log₁, hrun⟩
  rw [Prog.wp_bind, Prog.wp_get]
  refine Prog.wp_post (progress_workQueues id hclient henv (hready.steady henv).1 batch
    retryBackoffTicks) ?_
  exact fun _ _ _ hprogress => ⟨dir₁, hready, hprogress⟩

/-- What a completed pass leaves: from the moment it read its queues, all it selected is served. -/
theorem runPass_progress (id : Uuid) (hclient : cfg.client = id.text) (henv : Healthy spaces env)
    {budget : Nat} (hdone : (runPass cfg env budget log).value.isSome = true) :
    ∃ dir₁, Readied cfg env (ClientDir.after log) dir₁ ∧
      Progress cfg spaces env.now dir₁ (selected dir₁.ukg batch env.now retryBackoffTicks) []
        (ClientDir.after (runPass cfg env budget log).log) := by
  obtain ⟨stats, hstats⟩ := Option.isSome_iff_exists.mp hdone
  have hrun := Prog.run_ends budget
    (@progress_enrichClient _ cfg spaces (ClientDir.after log) env log id hclient henv) hstats
  have hstore : (runPass cfg env budget log).store
      = ClientDir.after (runPass cfg env budget log).log := runPass_store cfg env budget log
  rw [← hstore]
  exact hrun

/-- A phase leaves a guarded log guarded and runs up no debt, by induction on its passes. -/
theorem Phase.guarded (h : Phase cfg spaces log envs log')
    (hlog : Guarded Event.apply (Guard cfg.client cfg.dim) ClientDir.new log) :
    Guarded Event.apply (Guard cfg.client cfg.dim) ClientDir.new log' ∧ Owing log log' := by
  induction h with
  | nil log => exact ⟨hlog, Owing.refl log⟩
  | @pass log log' env envs budget henv hdone hrest ih =>
    obtain ⟨hguarded, hend⟩ := Prog.run_guarded budget hlog (safe_enrichClient cfg env)
    obtain ⟨stats, hstats⟩ := Option.isSome_iff_exists.mp hdone
    obtain ⟨hlast, howing⟩ := ih hguarded
    exact ⟨hlast, (hend stats hstats).owing.trans howing⟩

/-- **The passes of a phase**, each at the start of the phase or later. -/
theorem InPhase.phase (id : Uuid) (hclient : cfg.client = id.text)
    (hphase : Phase cfg spaces log envs log')
    (h : InPhase cfg spaces start n (ClientDir.after log)) (hlater : ∀ e ∈ envs, start ≤ e.now) :
    InPhase cfg spaces start (n - 64 * envs.length) (ClientDir.after log') := by
  induction hphase generalizing n with
  | nil log => simpa using h
  | @pass log log' env envs budget henv hdone hrest ih =>
    obtain ⟨hnow, hlater⟩ := List.forall_mem_cons.mp hlater
    obtain ⟨dir₁, hready, hprogress⟩ := runPass_progress id hclient henv hdone
    obtain rfl := hready.eq_of_steady henv h.steady
    have hcount : n - 64 * (envs.length + 1) = n - 64 - 64 * envs.length := by omega
    rw [List.length_cons, hcount]
    exact ih (h.next hnow hprogress) hlater

end

/-! ### The end of a phase -/

/-- A capture is through: processed, and each leg either searchable or given up on. -/
structure Through [TextTables] (cfg : EnrichConfig) (log : List Event) (wcId : Int)
    (w : WindowCaptureRow) : Prop where
  processed : w.isProcessed = true
  image : ((ClientDir.after log).index .image).hasItem (itemIdForCapture wcId) = true ∨
    ((ClientDir.after log).ukg.imageEmbedding.lookup wcId).map ImageEmbedding.state = some .skipped
  text : HasOcrText (ClientDir.after log) wcId →
    ((ClientDir.after log).index .text).hasItem (itemIdForCapture wcId) = true ∨
      textRefused cfg.dim wcId log = true

/-- The object of every capture that has a token is there, so no image leg waits for one. -/
def AllObjects [TextTables] (cfg : EnrichConfig) (dir : ClientDir) : Prop :=
  ∀ wcId w token, (wcId, w) ∈ dir.ukg.windowCapture.rows → w.imageToken = some token →
    hasObject cfg dir.files w.timeStamp token = true

section
variable [TextTables] {cfg : EnrichConfig} {spaces : String × String} {start : Int}
  {dir : ClientDir} {log : List Event}

/-- With nothing behind, a capture that a queue is for is one whose object is missing, which no
    pass can help. -/
theorem InPhase.missing_of_wants (h : InPhase cfg spaces start 0 dir) (hpos : 0 < start)
    {queue : Queue} {wcId : Int} {w : WindowCaptureRow}
    (hrow : (wcId, w) ∈ dir.ukg.windowCapture.rows)
    (hwants : queue.wants dir.ukg (wcId, w) = true) :
    ∃ token, w.imageToken = some token ∧ hasObject cfg dir.files w.timeStamp token = false := by
  -- it is not in the backlog, so it was attempted in the phase
  have hclock : ¬ Queue.clock dir.ukg wcId < start := by
    intro hlt
    have hempty : backlog queue start dir.ukg = ∅ :=
      Finset.card_eq_zero.mp (Nat.le_zero.mp (h.behind queue))
    have hmem : wcId ∈ backlog queue start dir.ukg := mem_backlog.mpr ⟨⟨w, hrow, hwants⟩, hlt⟩
    rw [hempty] at hmem
    exact absurd hmem (Finset.notMem_empty wcId)
  cases hlookup : dir.ukg.enrichAttempt.lookup wcId with
  | none =>
    rw [Queue.clock, hlookup] at hclock
    exact absurd hpos hclock
  | some u =>
    rw [Queue.clock, hlookup] at hclock
    obtain ⟨w', hget, hrest⟩ := h.rests wcId u hlookup (not_lt.mp hclock)
    obtain rfl := Table.eq_of_mem hrow (Table.get?_eq_some.mp hget)
    rcases hrest with ⟨hprocessed, hclosed⟩ | hmissing
    · cases queue with
      | backfill =>
        have hopen : dir.ukg.imageStateOpen wcId = true := (Bool.and_eq_true_iff.mp hwants).2
        rw [hclosed] at hopen
        cases hopen
      | fresh =>
        have hfresh : w.isProcessed = false := Queue.wants_isProcessed hwants
        rw [hprocessed] at hfresh
        cases hfresh
    · exact hmissing

/-- With nothing behind and every object there, a pass changes nothing, however far it gets: its
    queues are empty. -/
theorem InPhase.unchanged (h : InPhase cfg spaces start 0 (ClientDir.after log)) (hpos : 0 < start)
    (hobjects : AllObjects cfg (ClientDir.after log)) {env : PassEnv} (henv : Healthy spaces env)
    (budget : Nat) : (runPass cfg env budget log).store = ClientDir.after log := by
  have hempty : ∀ queue : Queue,
      queue.select (ClientDir.after log).ukg batch env.now retryBackoffTicks = [] := by
    intro queue
    refine List.eq_nil_iff_forall_not_mem.mpr fun wcId hmem => ?_
    have hdue : queue.Due (ClientDir.after log).ukg env.now retryBackoffTicks wcId :=
      Queue.select_prefix.subset hmem
    obtain ⟨⟨w, hrow, hwants⟩, -⟩ := Queue.due_iff.mp hdue
    obtain ⟨token, htoken, hgone⟩ := h.missing_of_wants hpos hrow hwants
    rw [hobjects wcId w token hrow htoken] at hgone
    cases hgone
  refine Prog.run_unchanged (Q := fun _ _ _ => True) budget ?_
  rw [enrichClient_eq]
  refine Prog.wp_seq (steady_prepare henv h.steady) ?_
  rintro _ _ log₁ rfl
  have hbackfill := List.map_eq_nil_iff.mp (hempty .backfill)
  have hfresh := List.map_eq_nil_iff.mp (hempty .fresh)
  simp only [Prog.wp_bind, Prog.wp_get, workQueues, hbackfill, hfresh, Prog.forEach]
  trivial

/-- A phase begins where its first pass reads its queues: whatever that has put right before, the
    clocks of the captures are as they were, and in either backlog are only captures that wait. -/
theorem InPhase.begin {env : PassEnv} {dir₁ : ClientDir} {n : Nat}
    (hready : Readied cfg env dir dir₁) (henv : Healthy spaces env)
    (hrested : ∀ c u, dir.ukg.enrichAttempt.lookup c = some u → u + retryBackoffTicks ≤ env.now)
    (hcount : ∀ queue, (waiting queue dir₁.ukg).length ≤ n) :
    InPhase cfg spaces env.now n dir₁ := by
  obtain ⟨hsteady, hkept⟩ := hready.steady henv
  have hold : ∀ c u, dir₁.ukg.enrichAttempt.lookup c = some u →
      u + retryBackoffTicks ≤ env.now := by
    intro c u hu
    rw [hkept.clock] at hu
    exact hrested c u hu
  refine ⟨hsteady, fun c u hu => Or.inl (hold c u hu), fun c u hu hle => ?_, fun queue =>
    (card_backlog_le queue env.now dir₁.ukg).trans (hcount queue)⟩
  have hbefore := hold c u hu
  have hbackoff : (0 : Int) < retryBackoffTicks := by decide
  omega

/-- An image leg that is neither open nor owed has come to an end: the vector is searchable, or the
    leg was skipped. -/
theorem image_through {wcId : Int}
    (hlog : Guarded Event.apply (Guard cfg.client cfg.dim) ClientDir.new log)
    (hrepaid : rebuilding .image log = false)
    (hopen : (ClientDir.after log).ukg.imageStateOpen wcId = false) :
    ((ClientDir.after log).index .image).hasItem (itemIdForCapture wcId) = true ∨
      ((ClientDir.after log).ukg.imageEmbedding.lookup wcId).map ImageEmbedding.state
        = some .skipped := by
  unfold Ukg.imageStateOpen at hopen
  cases hlookup : (ClientDir.after log).ukg.imageEmbedding.lookup wcId with
  | none =>
    rw [hlookup] at hopen
    cases hopen
  | some row =>
    cases hstate : row.state with
    | pending =>
      rw [hlookup] at hopen
      simp [hstate] at hopen
    | skipped => exact Or.inr (by simp [hstate])
    | done =>
      refine Or.inl ((doneHasVector_of_guarded hlog wcId row hlookup hstate).resolve_right ?_)
      rw [hrepaid]
      decide

/-- **What a phase leaves of a capture.**  With nothing behind and no debt, a capture whose object
    is there is in no queue, and so it is through. -/
theorem InPhase.through (h : InPhase cfg spaces start 0 (ClientDir.after log)) (hpos : 0 < start)
    (hlog : Guarded Event.apply (Guard cfg.client cfg.dim) ClientDir.new log)
    (hrepaid : ∀ leg, rebuilding leg log = false) {wcId : Int} {w : WindowCaptureRow}
    {token : String} (hrow : (wcId, w) ∈ (ClientDir.after log).ukg.windowCapture.rows)
    (htoken : w.imageToken = some token)
    (hobject : hasObject cfg (ClientDir.after log).files w.timeStamp token = true) :
    Through cfg log wcId w := by
  have hnot : ∀ queue : Queue, queue.wants (ClientDir.after log).ukg (wcId, w) = false := by
    intro queue
    refine Bool.eq_false_iff.mpr fun hwants => ?_
    obtain ⟨t, ht, hgone⟩ := h.missing_of_wants hpos hrow hwants
    obtain rfl := Option.some.inj (htoken.symm.trans ht)
    rw [hobject] at hgone
    cases hgone
  have hprocessed : w.isProcessed = true := by simpa [Queue.wants] using hnot .fresh
  refine ⟨hprocessed, image_through hlog (hrepaid .image) ?_, fun hocr => ?_⟩
  · simpa [Queue.wants, htoken, hprocessed] using hnot .backfill
  · have hkept := textKept_of_inv (processedSettled_of_guarded hlog) (hrepaid .text) wcId w hrow
      hocr
    rcases hkept with h' | h' | h' | h'
    · exact Or.inl h'
    · rw [hprocessed] at h'
      cases h'
    · exact absurd h' (h.steady.available .text)
    · exact Or.inr h'

/-- **Enrichment settles.**  After any history that left no rebuild half done (or whose half-done
    rebuilds the first pass restarts), let passes run to their ends with the service healthy, the
    first at least a backoff after every earlier attempt, and for either queue at least one for
    every 64 captures that wait in it when the first pass reads it.  Then every capture whose object
    is there is through, and if every object is there, further passes with the service healthy leave
    the directory exactly as it is. -/
theorem enrichment_settles (cfg : EnrichConfig) (id : Uuid) (hclient : cfg.client = id.text)
    (steps : List (Step cfg)) (spaces : String × String) (env : PassEnv) (envs : List PassEnv)
    (log : List Event) (hphase : Phase cfg spaces (history cfg steps) (env :: envs) log)
    (hpos : 0 < env.now) (hlater : ∀ e ∈ envs, env.now ≤ e.now)
    (hrested : ∀ wcId u,
      (ClientDir.after (history cfg steps)).ukg.enrichAttempt.lookup wcId = some u →
        u + retryBackoffTicks ≤ env.now)
    (hclosed : ∀ leg, rebuilding leg (history cfg steps) = false ∨
      restarts env (ClientDir.after (history cfg steps)) leg = true)
    (hcount : ∀ dir₁, Readied cfg env (ClientDir.after (history cfg steps)) dir₁ →
      ∀ queue, (waiting queue dir₁.ukg).length ≤ 64 * (env :: envs).length) :
    (∀ wcId w token, (wcId, w) ∈ (ClientDir.after log).ukg.windowCapture.rows →
      w.imageToken = some token →
      hasObject cfg (ClientDir.after log).files w.timeStamp token = true →
        Through cfg log wcId w) ∧
    (AllObjects cfg (ClientDir.after log) → ∀ env' budget, Healthy spaces env' →
      (runPass cfg env' budget log).store = ClientDir.after log) := by
  cases hphase with
  | pass budget henv hdone hrest =>
    obtain ⟨dir₁, hready, hprogress⟩ := runPass_progress id hclient henv hdone
    have hbegin := InPhase.begin hready henv hrested (hcount dir₁ hready)
    have hend := InPhase.phase id hclient hrest (hbegin.next (le_refl _) hprogress) hlater
    have hnone : 64 * (env :: envs).length - 64 - 64 * envs.length = 0 := by
      rw [List.length_cons]
      omega
    rw [hnone] at hend
    -- no debt is left, so what is recorded as done has its vector
    obtain ⟨hguarded, hpass⟩ := runPass_done cfg steps env budget
    obtain ⟨stats, hstats⟩ := Option.isSome_iff_exists.mp hdone
    obtain ⟨hlog, howing⟩ := hrest.guarded hguarded
    have hrepaid : ∀ leg, rebuilding leg log = false := by
      intro leg
      refine howing.repaid ?_
      rcases hclosed leg with h | h
      · exact (hpass stats hstats).owing.repaid h
      · exact (hpass stats hstats).repaid leg h
    exact ⟨fun wcId w token hrow htoken hobject =>
        hend.through hpos hlog hrepaid hrow htoken hobject,
      fun hobjects env' budget' henv' => hend.unchanged hpos hobjects henv' budget'⟩

end

/-! ### One capture after an outage -/

section

attribute [local instance] TextTables.ascii

/-- The client id of zeros. -/
def settleClient : Uuid := ⟨Vector.replicate 16 0⟩

/-- Its enricher, for vectors of one number. -/
def settleConfig : EnrichConfig :=
  { client := settleClient.text, dim := 1, objects := ⟨some smallAead⟩ }

/-- A capture arrives with its screenshot, and a pass finds the embedder down, so the capture
    waits. -/
def settleSteps : List (Step settleConfig) :=
  [.ingest
    [⟨.insertCapture smallRecord, rfl⟩,
      ⟨.putObject settleClient.text (ymdFromFiletime 116444736000000000) "t" "jpg"
        (settleConfig.objects.stored (List.replicate 12 0) "t" smallJpeg), beq_self_eq_true _⟩],
    .pass (smallEnv 1000000000 none .retry .retry) 100]

/-- The service is back, with vectors of the right width. -/
def settleEnv : PassEnv := smallEnv 2000000000 (some ("T", "A")) (.ok [1] "T") (.ok [2] "A")

/-- Everything works in that pass. -/
theorem healthy_settleEnv : Healthy ("T", "A") settleEnv where
  reported := rfl
  text := fun _ _ => rfl
  image := fun _ _ => rfl
  flag := fun _ => rfl
  stat := fun _ => rfl
  read := fun _ => rfl

/-- The log of the history and one pass with the service back. -/
def settledLog : List Event :=
  (runPass settleConfig settleEnv 100 (history settleConfig settleSteps)).log

/-- One pass serves the capture that the outage had left, and no pass after it has anything to
    do. -/
theorem enrichment_settles_small :
    Through settleConfig settledLog 1 { Ukg.captureRow smallRecord with isProcessed := true } ∧
    ∀ env' budget, Healthy ("T", "A") env' →
      (runPass settleConfig env' budget settledLog).store = ClientDir.after settledLog := by
  have hrows : (ClientDir.after settledLog).ukg.windowCapture.rows
      = [(1, { Ukg.captureRow smallRecord with isProcessed := true })] := by decide +kernel
  have hfile : hasObject settleConfig (ClientDir.after settledLog).files
      (Ukg.captureRow smallRecord).timeStamp "t" = true := by decide +kernel
  -- one capture is stored, so no more can wait
  have hcount : ∀ dir₁,
      Readied settleConfig settleEnv (ClientDir.after (history settleConfig settleSteps)) dir₁ →
        ∀ queue, (waiting queue dir₁.ukg).length ≤ 64 := by
    intro dir₁ hready queue
    have hkeys := congrArg List.length (hready.steady healthy_settleEnv).2.keys
    have hone : (ClientDir.after (history settleConfig settleSteps)).ukg.windowCapture.rows.length
        = 1 := by decide +kernel
    rw [List.length_map, List.length_map, hone] at hkeys
    have hwaiting := length_waiting_le queue dir₁.ukg
    omega
  have hsettles := enrichment_settles settleConfig settleClient rfl settleSteps ("T", "A")
    settleEnv [] settledLog (.pass 100 healthy_settleEnv (by decide +kernel) (.nil _)) (by decide)
    (by simp) ?_ (fun leg => Or.inl (by cases leg <;> decide +kernel)) hcount
  · refine ⟨hsettles.1 1 _ "t" (by rw [hrows]; exact List.mem_singleton_self _) rfl hfile,
      hsettles.2 fun wcId w token hrow htoken => ?_⟩
    rw [hrows, List.mem_singleton, Prod.mk.injEq] at hrow
    obtain ⟨-, rfl⟩ := hrow
    obtain rfl : "t" = token := Option.some.inj htoken
    exact hfile
  · -- the one attempt so far was at 1000000000
    intro wcId u hu
    have hclock : (ClientDir.after (history settleConfig settleSteps)).ukg.enrichAttempt.entries
        = [⟨1, 1000000000⟩] := by decide +kernel
    have hmem := AList.mem_lookup_iff.mp hu
    rw [hclock, List.mem_singleton] at hmem
    obtain rfl : u = 1000000000 := by cases hmem; rfl
    decide

end

end Precall.Api
