import Precall.Api.Bookkeeping
import Precall.Lib.FairQueue
import Precall.Lib.Interference
import Precall.Store.Queues

namespace Precall.Api

open ByteLib TextLib Durable Precall.Store

/-!
# The work queues are fair

Runs of enrichment passes over one client, next to the processes that ingest for it.  A pass reads
its two queues and works them off; `touch_enrich_attempt` records every attempt before anything
else happens to the capture, and both queues pace themselves by that record.

* `enrichPaced` — the pass with its limit and its backoff as parameters, and with the two queues
  read one after the other (`enrichPaced_run`: for the constants of the source and without
  interference it is `enrichClient`);
* `PassRun`, `PassRun.Runs` — one pass as it took place: where the queues were read, what was
  committed until the next pass, by the pass or next to it;
* `PassRun.fair` — such a pass is fair to the attempt clock, in the sense of `FairQueue`;
* `queues_fair` — over any run of passes, attempts on one capture are a backoff apart, and no
  capture is overtaken twice while it is due.
-/

/-! ### The pass with its two reads -/

/-- The states of `ukg.db` the two queue queries ran on; something may have arrived between them. -/
structure QueueReads where
  backfill : Ukg
  fresh : Ukg

/-- The state a queue was read from. -/
def QueueReads.of (reads : QueueReads) : Queue → Ukg
  | .backfill => reads.backfill
  | .fresh => reads.fresh

/-- The two reads in the middle of a pass, each of the database as it is at that moment. -/
def readQueues : Enricher QueueReads := do
  let backfill ← Prog.get
  let fresh ← Prog.get
  pure ⟨backfill.ukg, fresh.ukg⟩

/-- What a pass does before it reads its queues. -/
def prepare (cfg : EnrichConfig) (env : PassEnv) : Enricher Unit := do
  openIndex cfg .text
  openIndex cfg .image
  checkSpaces cfg env

/-- A pass up to the point where it has read its queues; from there on it works on what it has
    read. -/
def openPass (cfg : EnrichConfig) (env : PassEnv) : Enricher QueueReads := do
  prepare cfg env
  readQueues

/-! ### Attempts -/

/-- The attempt an event records, the capture and the time, if it records one. -/
def attemptOf : Event → Option (Int × Int)
  | .touchEnrichAttempt wcId now => some (wcId, now)
  | _ => none

/-- The attempts recorded in a log. -/
def attemptsIn (log : List Event) : List (Int × Int) := log.filterMap attemptOf

/-- An attempt is recorded by one event only. -/
theorem attemptOf_eq_some {e : Event} {a : Int × Int} :
    attemptOf e = some a ↔ e = .touchEnrichAttempt a.1 a.2 := by
  constructor
  · intro h
    cases e <;> cases h
    rfl
  · rintro rfl
    rfl

/-- What a leg writes is no attempt. -/
theorem attemptOf_of_legWrites {leg : Leg} {wcId : Int} {e : Event}
    (h : legWrites leg wcId e = true) : attemptOf e = none := by
  cases e <;> first | rfl | cases h

/-- Nor is what a pass writes before it reads its queues. -/
theorem attemptOf_of_upkeepWrites {e : Event} (h : upkeepWrites e = true) : attemptOf e = none := by
  cases e <;> first | rfl | cases h

/-- Nor is what arrives. -/
theorem attemptOf_of_ingested {client : String} {e : Event} (h : e.ingested client = true) :
    attemptOf e = none := by
  cases e <;> first | rfl | cases h

/-- The clock a list of attempts leaves: the time of the last attempt on each capture, and none
    for a capture without attempts. -/
def clockOf (attempts : List (Int × Int)) : FairQueue.Clock Int :=
  fun wcId => attempts.foldl (fun u a => if a.1 = wcId then some a.2 else u) none

/-- The clock of a capture shows the last of its attempts. -/
theorem clockOf_concat (attempts : List (Int × Int)) (a : Int × Int) (wcId : Int) :
    clockOf (attempts ++ [a]) wcId = if a.1 = wcId then some a.2 else clockOf attempts wcId := by
  simp [clockOf]

/-- Attempts that all bear one time, as those of a pass do, set the clock of their captures to
    it. -/
theorem clockOf_append {now : Int} {before later : List (Int × Int)}
    (hlater : ∀ a ∈ later, a.2 = now) (wcId : Int) :
    clockOf (before ++ later) wcId
      = if wcId ∈ later.map Prod.fst then some now else clockOf before wcId := by
  induction later using List.reverseRecOn with
  | nil => simp
  | append_singleton later a ih =>
    have hinit : ∀ a ∈ later, a.2 = now := fun b hb => hlater b (List.mem_append_left _ hb)
    have ha : a.2 = now := hlater a (List.mem_append_right _ (List.mem_singleton_self a))
    rw [← List.append_assoc, clockOf_concat, ih hinit, ha, List.map_append]
    by_cases heq : a.1 = wcId
    · simp [heq]
    · have hne : wcId ≠ a.1 := fun h => heq h.symm
      simp only [heq, if_false, List.mem_append, List.map_cons, List.map_nil, List.mem_singleton,
        hne, or_false]

section
variable [TextTables]

/-- The attempt clock changes only when an attempt is recorded. -/
theorem enrichAttempt_apply {e : Event} {dir : ClientDir} (h : attemptOf e = none) :
    (e.apply dir).ukg.enrichAttempt = dir.ukg.enrichAttempt := by
  cases e with
  | touchEnrichAttempt id now => cases h
  | insertCapture rec =>
    simp only [Event.apply, Ukg.insertCapture]
    split <;> rfl
  | _ => first | rfl | simp [Event.apply]

/-- **The attempt clock is the record of the attempts**: the induction is on the log, and only
    one event moves the clock. -/
theorem lookup_enrichAttempt (log : List Event) (wcId : Int) :
    (ClientDir.after log).ukg.enrichAttempt.lookup wcId = clockOf (attemptsIn log) wcId := by
  induction log using List.reverseRecOn with
  | nil => rfl
  | append_singleton log e ih =>
    have hattempts : attemptsIn (log ++ [e]) = attemptsIn log ++ (attemptOf e).toList := by
      rw [attemptsIn, List.filterMap_append]
      cases hattempt : attemptOf e <;> simp [attemptsIn, hattempt]
    rw [ClientDir.after_concat, hattempts]
    cases hattempt : attemptOf e with
    | none =>
      rw [enrichAttempt_apply hattempt, ih, Option.toList_none, List.append_nil]
    | some a =>
      obtain rfl := attemptOf_eq_some.mp hattempt
      rw [Option.toList_some, clockOf_concat]
      show ((ClientDir.after log).ukg.enrichAttempt.insert a.1 a.2).lookup wcId = _
      by_cases heq : a.1 = wcId
      · subst heq
        rw [AList.lookup_insert, if_pos rfl]
      · rw [AList.lookup_insert_ne (Ne.symm heq), if_neg heq, ih]

end

section
variable [TextTables]

/-- The two loops of a pass. -/
def workQueues (cfg : EnrichConfig) (limit backoff : Int) (env : PassEnv) (reads : QueueReads) :
    Enricher EnrichStats := do
  let backfill := reads.backfill.capturesNeedingImageEmbedding limit env.now backoff
  let fresh := reads.fresh.capturesPendingEnrichment limit env.now backoff
  let acc ← Prog.forEach (backfillOne cfg env) backfill {}
  let acc ← Prog.forEach (freshOne cfg env) fresh acc
  pure acc.stats

/-- `enrich_client`, for any limit and any backoff, with a read of its own for each queue. -/
def enrichPaced (cfg : EnrichConfig) (limit backoff : Int) (env : PassEnv) :
    Enricher EnrichStats := do
  let reads ← openPass cfg env
  workQueues cfg limit backoff env reads

/-- The pass reads both queues from one state when nobody else writes in between. -/
theorem enrichClient_eq (cfg : EnrichConfig) (env : PassEnv) :
    enrichClient cfg env = prepare cfg env >>= fun _ => Prog.get >>= fun dir =>
      workQueues cfg batch retryBackoffTicks env ⟨dir.ukg, dir.ukg⟩ := by
  unfold prepare enrichClient
  simp only [Prog.bind_assoc]
  rfl

/-- A program of the pass, executed next to the processes that ingest for the client, which may
    write between any two of its steps. -/
def Among {α : Type} (cfg : EnrichConfig) (p : Enricher α) (log log' : List Event)
    (r : Option α) : Prop :=
  Exec Event.apply (fun e => e.ingested cfg.client = true) ClientDir.new p log log' r

/-- One pass as it took place: where its queues were read, if it got that far, and what was
    committed, by the pass or next to it, up to the start of the next one. -/
structure PassRun where
  env : PassEnv
  reads : Option QueueReads
  events : List Event

/-- The pass can take place after the events of `log`: either it breaks off before it has read
    its queues, or it works on what they hold. -/
inductive PassRun.Runs (cfg : EnrichConfig) (limit backoff : Int) (log : List Event) :
    PassRun → Prop where
  | worked {env : PassEnv} {reads : QueueReads} {events mid : List Event}
      {stats : Option EnrichStats} (hopen : Among cfg (openPass cfg env) log mid (some reads))
      (hwork : Among cfg (workQueues cfg limit backoff env reads) mid (log ++ events) stats) :
      PassRun.Runs cfg limit backoff log ⟨env, some reads, events⟩
  | stopped {env : PassEnv} {events : List Event}
      (hopen : Among cfg (openPass cfg env) log (log ++ events) none) :
      PassRun.Runs cfg limit backoff log ⟨env, none, events⟩

/-- The passes that can take place are the executions of `enrichPaced`. -/
theorem exists_runs_iff {cfg : EnrichConfig} {limit backoff : Int} {env : PassEnv}
    {log events : List Event} :
    (∃ reads, PassRun.Runs cfg limit backoff log ⟨env, reads, events⟩) ↔
      ∃ stats, Among cfg (enrichPaced cfg limit backoff env) log (log ++ events) stats := by
  constructor
  · rintro ⟨_, h⟩
    cases h with
    | worked hopen hwork => exact ⟨_, Exec.bind hopen hwork⟩
    | stopped hopen => exact ⟨none, hopen.bind_stop _⟩
  · rintro ⟨stats, h⟩
    rcases h.of_bind with ⟨-, hopen⟩ | ⟨reads, mid, hopen, hwork⟩
    · exact ⟨none, .stopped hopen⟩
    · exact ⟨some reads, .worked hopen hwork⟩

/-! ### What a pass reads -/

omit [TextTables] in
/-- What a pass writes before it reads its queues is upkeep. -/
theorem writes_prepare (cfg : EnrichConfig) (env : PassEnv) :
    Writes upkeepWrites (prepare cfg env) := by
  refine (writes_openIndex cfg .text).upkeep.bind fun _ => ?_
  exact (writes_openIndex cfg .image).upkeep.bind fun _ => writes_checkSpaces cfg env

omit [TextTables] in
/-- To read them is no write. -/
theorem writes_openPass (cfg : EnrichConfig) (env : PassEnv) :
    Writes upkeepWrites (openPass cfg env) :=
  (writes_prepare cfg env).bind fun _ => Writes.get.bind fun _ => Writes.get.bind fun _ => .pure _

/-- The ingesting processes take no capture away and change none. -/
theorem mem_windowCapture_of_ingested {client : String} {e : Event} {dir : ClientDir}
    {r : Int × WindowCaptureRow} (h : e.ingested client = true)
    (hr : r ∈ dir.ukg.windowCapture.rows) : r ∈ (e.apply dir).ukg.windowCapture.rows := by
  cases e with
  | insertCapture rec =>
    simp only [Event.apply, Ukg.insertCapture]
    split
    · exact hr
    · exact List.mem_append_left _ hr
  | ensureInfo leg dim space => simpa [Event.apply] using hr
  | touchClient clientId hostname now => exact hr
  | putObject clientId date token ext stored => exact hr
  | addAppDwell windowsAppId ts dwell => exact hr
  | addWebDwell domain ts dwell => exact hr
  | _ => cases h

/-- What a pass that starts after `log` reads: no attempt has been recorded since, and a capture
    that was there at the first read is there, unchanged, at the second. -/
structure QueueReads.From (reads : QueueReads) (log : List Event) : Prop where
  clock : ∀ queue wcId,
    (reads.of queue).enrichAttempt.lookup wcId = clockOf (attemptsIn log) wcId
  rows : ∀ r ∈ reads.backfill.windowCapture.rows, r ∈ reads.fresh.windowCapture.rows

omit [TextTables] in
/-- What arrives adds no attempts. -/
theorem attemptsIn_append_ingested {client : String} {log ws : List Event}
    (h : ∀ e ∈ ws, e.ingested client = true) : attemptsIn (log ++ ws) = attemptsIn log := by
  have hnone : ws.filterMap attemptOf = [] :=
    List.filterMap_eq_nil_iff.mpr fun e he => attemptOf_of_ingested (h e he)
  rw [attemptsIn, List.filterMap_append, hnone, List.append_nil]
  rfl

/-- What arrives takes no capture away. -/
theorem mem_windowCapture_after_append {client : String} {log ws : List Event}
    {r : Int × WindowCaptureRow} (h : ∀ e ∈ ws, e.ingested client = true)
    (hr : r ∈ (ClientDir.after log).ukg.windowCapture.rows) :
    r ∈ (ClientDir.after (log ++ ws)).ukg.windowCapture.rows := by
  induction ws generalizing log with
  | nil => simpa using hr
  | cons e ws ih =>
    obtain ⟨he, hws⟩ := List.forall_mem_cons.mp h
    rw [List.append_cons]
    refine ih hws ?_
    rw [ClientDir.after, replay_concat]
    exact mem_windowCapture_of_ingested he hr

/-- A pass reads both queues from databases that hold what was there when it began, and it has
    recorded no attempt by then. -/
theorem openPass_from {cfg : EnrichConfig} {env : PassEnv} {log mid : List Event}
    {reads : QueueReads} (h : Among cfg (openPass cfg env) log mid (some reads)) :
    reads.From log ∧ attemptsIn mid = attemptsIn log := by
  rcases h.of_bind with ⟨hnone, -⟩ | ⟨_, l, hprepare, hread⟩
  · cases hnone
  have hmarks : attemptsIn l = attemptsIn log :=
    hprepare.marks_of_only (fun _ => attemptOf_of_ingested)
      (Prog.only_mono (writes_prepare cfg env) fun _ => attemptOf_of_upkeepWrites)
  rcases hread.of_bind with ⟨hnone, -⟩ | ⟨dir, _, hfirst, hread⟩
  · cases hnone
  obtain ⟨before, after, rfl, rfl, hbefore, hafter⟩ := hfirst.of_get
  rcases hread.of_bind with ⟨hnone, -⟩ | ⟨dir', _, hsecond, hret⟩
  · cases hnone
  obtain ⟨before', after', rfl, rfl, hbefore', hafter'⟩ := hsecond.of_get
  obtain rfl := hret.ret_value rfl
  obtain ⟨rest, rfl, hrest⟩ := hret.appended (P := fun _ => False) trivial
  have hrest' : ∀ e ∈ rest, e.ingested cfg.client = true := fun e he => (hrest e he).resolve_left id
  refine ⟨⟨fun queue wcId => ?_, fun r hr => ?_⟩, ?_⟩
  · cases queue with
    | backfill =>
      show (ClientDir.after (l ++ before)).ukg.enrichAttempt.lookup wcId = _
      rw [lookup_enrichAttempt, attemptsIn_append_ingested hbefore, hmarks]
    | fresh =>
      show (ClientDir.after (l ++ before ++ after ++ before')).ukg.enrichAttempt.lookup wcId = _
      rw [lookup_enrichAttempt, attemptsIn_append_ingested hbefore',
        attemptsIn_append_ingested hafter, attemptsIn_append_ingested hbefore, hmarks]
  · exact mem_windowCapture_after_append hbefore' (mem_windowCapture_after_append hafter hr)
  · rw [attemptsIn_append_ingested hrest', attemptsIn_append_ingested hafter',
      attemptsIn_append_ingested hbefore', attemptsIn_append_ingested hafter,
      attemptsIn_append_ingested hbefore, hmarks]

/-! ### What a pass attempts -/

/-- A capture of the backfill queue: its attempt is recorded first, and nothing of it after, so a
    failure later on cannot undo it. -/
theorem backfillOne_first (cfg : EnrichConfig) (env : PassEnv) (entry : Int × Option Int × String)
    (acc : LoopState) (hgo : ¬ acc.stopImages = true) :
    ∃ w f, backfillOne cfg env entry acc = (Prog.commit w >>= f) ∧
      attemptOf w = some (entry.1, env.now) ∧ (f ()).Only fun e => attemptOf e = none := by
  rw [backfillOne, if_neg hgo]
  refine ⟨.touchEnrichAttempt entry.1 env.now, _, rfl, rfl, ?_⟩
  refine Prog.only_bind (Prog.only_mono (writes_imageLeg cfg env _ _ _ _)
    fun _ => attemptOf_of_legWrites) fun out => ?_
  obtain ⟨leg, stats⟩ := out
  cases leg <;> trivial

/-- Likewise a capture of the fresh queue. -/
theorem freshOne_first (cfg : EnrichConfig) (env : PassEnv)
    (entry : Int × Option Int × Option String) (acc : LoopState) :
    ∃ w f, freshOne cfg env entry acc = (Prog.commit w >>= f) ∧
      attemptOf w = some (entry.1, env.now) ∧ (f ()).Only fun e => attemptOf e = none := by
  refine ⟨.touchEnrichAttempt entry.1 env.now, _, rfl, rfl, ?_⟩
  refine Prog.only_bind (Prog.only_mono (writes_textLeg cfg env _ _)
    fun _ => attemptOf_of_legWrites) fun out => ?_
  refine Prog.only_bind (Prog.only_mono (writes_freshImage cfg env _ _ _ _)
    fun _ => attemptOf_of_legWrites) fun out' => ?_
  dsimp only
  split
  · exact ⟨rfl, trivial⟩
  · trivial

/-- **What a pass attempts**: the first captures of each queue, in order, up to the point where
    it breaks off. -/
theorem workQueues_attempts {cfg : EnrichConfig} {limit backoff : Int} {env : PassEnv}
    {reads : QueueReads} {log log' : List Event} {r : Option EnrichStats}
    (h : Among cfg (workQueues cfg limit backoff env reads) log log' r) :
    ∃ b f, b <+: Queue.backfill.select reads.backfill limit env.now backoff ∧
      f <+: Queue.fresh.select reads.fresh limit env.now backoff ∧
      attemptsIn log' = attemptsIn log ++ (b ++ f).map fun id => (id, env.now) := by
  have hbackfill : ∀ {l r'}, Among cfg (Prog.forEach (backfillOne cfg env)
      (reads.backfill.capturesNeedingImageEmbedding limit env.now backoff) {}) log l r' →
      ∃ b, b <+: Queue.backfill.select reads.backfill limit env.now backoff ∧
        attemptsIn l = attemptsIn log ++ b.map fun id => (id, env.now) := by
    intro l r' h
    obtain ⟨taken, htaken, hmarks⟩ := Exec.marks_forEach
      (m := fun entry : Int × Option Int × String => (entry.1, env.now))
      (backfillOne_first cfg env)
      (fun entry (acc : LoopState) (hstop : acc.stopImages = true) => if_pos hstop)
      (fun _ => attemptOf_of_ingested) h
    refine ⟨taken.map Prod.fst, htaken.map Prod.fst, ?_⟩
    rw [List.map_map]
    exact hmarks
  have hfresh : ∀ {acc l l' r'}, Among cfg (Prog.forEach (freshOne cfg env)
      (reads.fresh.capturesPendingEnrichment limit env.now backoff) acc) l l' r' →
      ∃ f, f <+: Queue.fresh.select reads.fresh limit env.now backoff ∧
        attemptsIn l' = attemptsIn l ++ f.map fun id => (id, env.now) := by
    intro acc l l' r' h
    obtain ⟨taken, htaken, hmarks⟩ := Exec.marks_forEach
      (m := fun entry : Int × Option Int × Option String => (entry.1, env.now))
      (fun entry (acc : LoopState) (_ : ¬ False) => freshOne_first cfg env entry acc)
      (fun _ _ hstop => hstop.elim)
      (fun _ => attemptOf_of_ingested) h
    refine ⟨taken.map Prod.fst, htaken.map Prod.fst, ?_⟩
    rw [List.map_map]
    exact hmarks
  rcases h.of_bind with ⟨-, hloop⟩ | ⟨acc, mid, hloop, hrest⟩
  · obtain ⟨b, hb, hmarks⟩ := hbackfill hloop
    exact ⟨b, [], hb, List.nil_prefix, by rw [hmarks, List.append_nil]⟩
  obtain ⟨b, hb, hmarks⟩ := hbackfill hloop
  have hlater : ∃ f, f <+: Queue.fresh.select reads.fresh limit env.now backoff ∧
      attemptsIn log' = attemptsIn mid ++ f.map fun id => (id, env.now) := by
    rcases hrest.of_bind with ⟨-, hloop'⟩ | ⟨acc', mid', hloop', hret⟩
    · exact hfresh hloop'
    · have hdone : attemptsIn log' = attemptsIn mid' :=
        hret.marks_of_only (fun _ => attemptOf_of_ingested) trivial
      rw [hdone]
      exact hfresh hloop'
  obtain ⟨f, hf, hmarks'⟩ := hlater
  exact ⟨b, f, hb, hf, by rw [hmarks', hmarks, List.append_assoc, List.map_append]⟩

/-! ### A pass is fair to the attempt clock -/

namespace PassRun

/-- The attempts of a pass. -/
def attempts (P : PassRun) : List (Int × Int) := attemptsIn P.events

/-- The pass attempts a capture. -/
def Attempts (P : PassRun) (wcId : Int) : Prop := wcId ∈ P.attempts.map Prod.fst

instance (P : PassRun) (wcId : Int) : Decidable (P.Attempts wcId) :=
  inferInstanceAs (Decidable (_ ∈ _))

/-- A capture is due in a queue when the pass reads it: wanted there, and its last attempt long
    enough ago. -/
def DueIn (backoff : Int) (P : PassRun) (queue : Queue) (wcId : Int) : Prop :=
  ∃ reads, P.reads = some reads ∧ queue.Due (reads.of queue) P.env.now backoff wcId

/-- The pass attempts a capture from a queue: the limit of the queue has not cut it off. -/
def AttemptsFrom (limit backoff : Int) (P : PassRun) (queue : Queue) (wcId : Int) : Prop :=
  P.Attempts wcId ∧ ∃ reads, P.reads = some reads ∧
    wcId ∈ queue.select (reads.of queue) limit P.env.now backoff

/-- A capture is due in a queue at some moment of a pass that starts after `log`, though perhaps
    not yet when the queue is read. -/
def DueDuring (log : List Event) (backoff : Int) (P : PassRun) (queue : Queue) (wcId : Int) :
    Prop :=
  ∃ before, before <+: P.events ∧
    queue.Due (ClientDir.after (log ++ before)).ukg P.env.now backoff wcId

open Classical in
/-- The queue an attempt comes from, which is unique since no capture is due in both. -/
noncomputable def sourceOf (backoff : Int) (P : PassRun) (wcId : Int) : Queue :=
  if P.DueIn backoff .backfill wcId then .backfill else .fresh

/-- The pass over paced queues that a pass is: its time, who was waiting where, and for each
    attempt the queue it comes from. -/
noncomputable def paced (backoff : Int) (P : PassRun) : FairQueue.Pass Queue Int where
  time := P.env.now
  waiting := P.DueIn backoff
  attempts := P.attempts.map fun a => (P.sourceOf backoff a.1, a.1)

end PassRun

end

/-- What a pass that got to its queues attempted: a prefix of each, as long as the limit allows. -/
structure PassRun.Worked (limit backoff : Int) (log : List Event) (P : PassRun)
    (reads : QueueReads) (taken : Queue → List Int) : Prop where
  read : P.reads = some reads
  found : reads.From log
  prefixes : ∀ queue, taken queue <+: queue.select (reads.of queue) limit P.env.now backoff
  attempts : P.attempts = (taken .backfill ++ taken .fresh).map fun id => (id, P.env.now)

namespace PassRun.Worked

variable {limit backoff : Int} {log : List Event} {P : PassRun} {reads : QueueReads}
  {taken : Queue → List Int}

/-- Who is due in a pass is who was due in the database that the queue was read from. -/
theorem dueIn_iff (h : P.Worked limit backoff log reads taken) {queue : Queue} {wcId : Int} :
    P.DueIn backoff queue wcId ↔ queue.Due (reads.of queue) P.env.now backoff wcId := by
  constructor
  · rintro ⟨reads', hread, hdue⟩
    obtain rfl := Option.some.inj (hread.symm.trans h.read)
    exact hdue
  · exact fun hdue => ⟨reads, h.read, hdue⟩

/-- Whoever a queue took was due. -/
theorem dueIn_of_taken (h : P.Worked limit backoff log reads taken) {queue : Queue} {wcId : Int}
    (hmem : wcId ∈ taken queue) : P.DueIn backoff queue wcId :=
  h.dueIn_iff.mpr ((h.prefixes queue).trans Queue.select_prefix |>.subset hmem)

/-- Nothing is due in both queues: between the two reads no capture is marked processed. -/
theorem not_both (h : P.Worked limit backoff log reads taken) {wcId : Int}
    (hb : P.DueIn backoff .backfill wcId) (hf : P.DueIn backoff .fresh wcId) : False :=
  Queue.not_due_both h.found.rows (h.dueIn_iff.mp hb) (h.dueIn_iff.mp hf)

/-- What is due has rested for the backoff. -/
theorem rested (h : P.Worked limit backoff log reads taken) {queue : Queue} {wcId : Int}
    (hdue : P.DueIn backoff queue wcId) :
    FairQueue.Rested backoff (clockOf (attemptsIn log)) P.env.now wcId := by
  intro u hu
  have hattempt := (Queue.due_iff.mp (h.dueIn_iff.mp hdue)).2
  rw [Ukg.attemptDue, h.found.clock, hu] at hattempt
  exact of_decide_eq_true hattempt

/-- A prefix of a queue leaves out nobody who has waited longer than somebody in it, for a queue
    is sorted by the last attempt. -/
theorem taken_of_stamp_lt (h : P.Worked limit backoff log reads taken) {queue : Queue} {c d : Int}
    (hd : d ∈ taken queue) (hc : P.DueIn backoff queue c)
    (hlt : FairQueue.stamp (clockOf (attemptsIn log)) c
      < FairQueue.stamp (clockOf (attemptsIn log)) d) : c ∈ taken queue := by
  have hclock : ∀ id, Queue.clock (reads.of queue) id
      = FairQueue.stamp (clockOf (attemptsIn log)) id := by
    intro id
    rw [Queue.clock, h.found.clock]
    rfl
  refine FairQueue.mem_prefix_of_not_le Queue.sorted
    ((h.prefixes queue).trans Queue.select_prefix) hd
    (h.dueIn_iff.mp hc) ?_
  rw [hclock c, hclock d]
  omega

/-- A pass attempts whom one of its queues took. -/
theorem mem_attempts (h : P.Worked limit backoff log reads taken) {wcId : Int} :
    P.Attempts wcId ↔ ∃ queue, wcId ∈ taken queue := by
  rw [PassRun.Attempts, h.attempts, List.map_map, List.mem_map]
  constructor
  · rintro ⟨id, hid, rfl⟩
    exact (List.mem_append.mp hid).elim (fun h => ⟨_, h⟩) fun h => ⟨_, h⟩
  · rintro ⟨queue, hid⟩
    refine ⟨wcId, List.mem_append.mpr ?_, rfl⟩
    cases queue
    · exact Or.inl hid
    · exact Or.inr hid

end PassRun.Worked

/-- The queue an attempt of the abstract pass comes from is the one it was due in. -/
theorem PassRun.Worked.source {limit backoff : Int} {log : List Event} {P : PassRun}
    {reads : QueueReads} {taken : Queue → List Int} (h : P.Worked limit backoff log reads taken)
    {queue : Queue} {wcId : Int} :
    (queue, wcId) ∈ (P.paced backoff).attempts ↔ wcId ∈ taken queue := by
  have hqueue : ∀ {queue id}, id ∈ taken queue → P.sourceOf backoff id = queue := by
    intro queue id hid
    unfold PassRun.sourceOf
    cases queue with
    | backfill => exact if_pos (h.dueIn_of_taken hid)
    | fresh => exact if_neg fun hboth => h.not_both hboth (h.dueIn_of_taken hid)
  show (queue, wcId) ∈ List.map _ P.attempts ↔ _
  rw [List.mem_map]
  constructor
  · rintro ⟨a, ha, heq⟩
    obtain ⟨rfl, rfl⟩ := Prod.mk.inj heq
    obtain ⟨queue', hid⟩ := h.mem_attempts.mp (List.mem_map_of_mem ha)
    rw [hqueue hid]
    exact hid
  · intro hid
    obtain ⟨a, ha, rfl⟩ := List.mem_map.mp (h.mem_attempts.mpr ⟨queue, hid⟩)
    exact ⟨a, ha, Prod.ext (hqueue hid) rfl⟩

/-- The pace of a pass does not say whom it attempts. -/
theorem PassRun.paced_attempts {backoff : Int} {P : PassRun} {wcId : Int} :
    (P.paced backoff).Attempts wcId ↔ P.Attempts wcId := by
  show (∃ queue, (queue, wcId) ∈ List.map _ P.attempts) ↔ _
  simp only [List.mem_map, Prod.mk.injEq, PassRun.Attempts]
  constructor
  · rintro ⟨queue, a, ha, -, heq⟩
    exact ⟨a, ha, heq⟩
  · rintro ⟨a, ha, heq⟩
    exact ⟨_, a, ha, rfl, heq⟩

section
variable [TextTables]

/-- A pass works off a prefix of each queue, or attempts nothing, since it broke off before. -/
theorem PassRun.Runs.taken {cfg : EnrichConfig} {limit backoff : Int} {log : List Event}
    {P : PassRun} (h : P.Runs cfg limit backoff log) :
    P.attempts = [] ∨ ∃ reads taken, P.Worked limit backoff log reads taken := by
  have hcancel : ∀ {events : List Event} {later : List (Int × Int)},
      attemptsIn (log ++ events) = attemptsIn log ++ later → attemptsIn events = later := by
    intro events later h
    rw [attemptsIn, List.filterMap_append] at h
    exact List.append_cancel_left h
  cases h with
  | worked hopen hwork =>
    rename_i env reads events mid stats
    obtain ⟨hfound, hmid⟩ := openPass_from hopen
    obtain ⟨b, f, hb, hf, hmarks⟩ := workQueues_attempts hwork
    rw [hmid] at hmarks
    refine Or.inr ⟨reads, fun | .backfill => b | .fresh => f, rfl, hfound, ?_, hcancel hmarks⟩
    rintro (_ | _)
    · exact hb
    · exact hf
  | stopped hopen =>
    refine Or.inl (hcancel ?_)
    rw [List.append_nil]
    refine hopen.marks_of_only (fun _ => attemptOf_of_ingested) ?_
    exact Prog.only_mono (writes_openPass cfg _) fun _ => attemptOf_of_upkeepWrites

/-- **A pass over the work queues is fair to the attempt clock.** -/
theorem PassRun.Runs.fair {cfg : EnrichConfig} {limit backoff : Int} {log : List Event}
    {P : PassRun} (h : P.Runs cfg limit backoff log) :
    (P.paced backoff).Fair backoff (clockOf (attemptsIn log)) := by
  rcases h.taken with hnone | ⟨reads, taken, hwork⟩
  · -- a pass without attempts
    have hempty : (P.paced backoff).attempts = [] := by
      rw [PassRun.paced, hnone, List.map_nil]
    refine ⟨fun i x hx => ?_, fun i c d hd => ?_, ?_⟩
    · rw [hempty] at hx
      cases hx
    · rw [hempty] at hd
      cases hd
    · rw [hempty]
      exact List.nodup_nil
  · refine ⟨fun queue x hx => ?_, fun queue c d hd hwait hlt => ?_, ?_⟩
    · exact hwork.rested (hwork.dueIn_of_taken (hwork.source.mp hx))
    · exact hwork.source.mpr (hwork.taken_of_stamp_lt (hwork.source.mp hd) hwait hlt)
    · have hnodup : ∀ queue, (taken queue).Nodup := fun queue =>
        ((hwork.prefixes queue).trans Queue.select_prefix).sublist.nodup Queue.nodup
      have hids : (P.paced backoff).attempts.map Prod.snd = taken .backfill ++ taken .fresh := by
        rw [PassRun.paced, hwork.attempts]
        simp [Function.comp_def]
      rw [hids]
      refine List.Nodup.append (hnodup .backfill) (hnodup .fresh) fun id hb hf => ?_
      exact hwork.not_both (hwork.dueIn_of_taken hb) (hwork.dueIn_of_taken hf)

/-- Every attempt bears the time of the pass. -/
theorem PassRun.Runs.attempts_time {cfg : EnrichConfig} {limit backoff : Int} {log : List Event}
    {P : PassRun} (h : P.Runs cfg limit backoff log) : ∀ a ∈ P.attempts, a.2 = P.env.now := by
  intro a ha
  rcases h.taken with hnone | ⟨reads, taken, hwork⟩
  · rw [hnone] at ha
    cases ha
  · rw [hwork.attempts] at ha
    obtain ⟨id, -, rfl⟩ := List.mem_map.mp ha
    rfl

/-- The abstract pass leaves the clock that the events of the pass leave, so runs of the one
    follow runs of the other. -/
theorem PassRun.Runs.next {cfg : EnrichConfig} {limit backoff : Int} {log : List Event}
    {P : PassRun} (h : P.Runs cfg limit backoff log) :
    (P.paced backoff).next (clockOf (attemptsIn log)) = clockOf (attemptsIn (log ++ P.events)) := by
  funext wcId
  have hsplit : attemptsIn (log ++ P.events) = attemptsIn log ++ P.attempts :=
    List.filterMap_append
  rw [hsplit, clockOf_append h.attempts_time]
  by_cases hattempts : wcId ∈ P.attempts.map Prod.fst
  · rw [if_pos hattempts]
    exact FairQueue.Pass.next_of_attempts (PassRun.paced_attempts.mpr hattempts)
  · rw [if_neg hattempts]
    exact FairQueue.Pass.next_of_not_attempts fun h => hattempts (PassRun.paced_attempts.mp h)

/-! ### Runs -/

/-- The log at the start of pass `k` of a run that starts after `log`: that of all passes before
    it. -/
def logAt (log : List Event) (passes : List PassRun) (k : Nat) : List Event :=
  log ++ (passes.take k).flatMap PassRun.events

/-- A run of passes over one client, starting after `log`: each can take place where the one before
    it ended. -/
def PassRuns (cfg : EnrichConfig) (limit backoff : Int) (log : List Event)
    (passes : List PassRun) : Prop :=
  ∀ k (hk : k < passes.length), (passes[k]).Runs cfg limit backoff (logAt log passes k)

/-! ### Passes of a history

The passes of `history` run alone, each with a budget of writes; they are runs in this sense. -/

/-- The pass that runs alone after `log`, until its budget of writes is used up. -/
def PassRun.alone (cfg : EnrichConfig) (limit backoff : Int) (log : List Event)
    (pass : PassEnv × Nat) : PassRun where
  env := pass.1
  reads := ((openPass cfg pass.1).run Event.apply pass.2 (ClientDir.after log) log).value
  events := ((enrichPaced cfg limit backoff pass.1).run Event.apply pass.2 (ClientDir.after log)
    log).log.drop log.length

/-- A pass that runs alone adds the events of its run to the log. -/
theorem PassRun.log_append_alone (cfg : EnrichConfig) (limit backoff : Int) (log : List Event)
    (pass : PassEnv × Nat) :
    log ++ (PassRun.alone cfg limit backoff log pass).events
      = ((enrichPaced cfg limit backoff pass.1).run Event.apply pass.2 (ClientDir.after log)
          log).log := by
  have hexec : Among cfg (enrichPaced cfg limit backoff pass.1) log _ _ :=
    exec_of_run (enrichPaced cfg limit backoff pass.1) pass.2 log
  exact List.prefix_iff_eq_append.mp hexec.extends_log

/-- A pass is what its two parts are: it works on the queues if it has read them, and otherwise
    has stopped before. -/
private theorem PassRun.Runs.of_open {cfg : EnrichConfig} {limit backoff : Int}
    {log mid events : List Event} {env : PassEnv} {reads : Option QueueReads}
    (hopen : Among cfg (openPass cfg env) log mid reads)
    (hwork : ∀ r, reads = some r → ∃ stats,
      Among cfg (workQueues cfg limit backoff env r) mid (log ++ events) stats)
    (hstop : reads = none → mid = log ++ events) :
    PassRun.Runs cfg limit backoff log ⟨env, reads, events⟩ := by
  cases reads with
  | some r =>
    obtain ⟨stats, hstats⟩ := hwork r rfl
    exact .worked hopen hstats
  | none => exact .stopped (hstop rfl ▸ hopen)

/-- A pass that runs alone is a pass that can take place: no event of others need fall into it. -/
theorem PassRun.runs_alone (cfg : EnrichConfig) (limit backoff : Int) (log : List Event)
    (pass : PassEnv × Nat) :
    (PassRun.alone cfg limit backoff log pass).Runs cfg limit backoff log := by
  have hlog := PassRun.log_append_alone cfg limit backoff log pass
  have hstore : ((openPass cfg pass.1).run Event.apply pass.2 (ClientDir.after log) log).store
      = ClientDir.after ((openPass cfg pass.1).run Event.apply pass.2 (ClientDir.after log)
          log).log :=
    Prog.run_store (openPass cfg pass.1) pass.2
  have hsplit := @Prog.run_bind _ _ _ _ Event.apply (openPass cfg pass.1)
    (workQueues cfg limit backoff pass.1) pass.2 (ClientDir.after log) log
  rw [hstore] at hsplit
  refine PassRun.Runs.of_open (exec_of_run (openPass cfg pass.1) pass.2 log) ?_ ?_
  · intro reads hreads
    rcases hsplit with ⟨reads', m, hreads', hrun⟩ | ⟨hnone, -⟩
    · obtain rfl := Option.some.inj (hreads.symm.trans hreads')
      show ∃ stats, Among cfg _ _ (log ++ (PassRun.alone cfg limit backoff log pass).events) stats
      rw [hlog, enrichPaced, hrun]
      exact ⟨_, exec_of_run _ m _⟩
    · cases hnone.symm.trans hreads
  · intro hnone
    rcases hsplit with ⟨reads', m, hreads', -⟩ | ⟨-, hrun⟩
    · cases hnone.symm.trans hreads'
    · show _ = log ++ (PassRun.alone cfg limit backoff log pass).events
      rw [hlog, enrichPaced, hrun]
      rfl

/-- Passes that run alone, one after the other. -/
def alonePasses (cfg : EnrichConfig) (limit backoff : Int) :
    List Event → List (PassEnv × Nat) → List PassRun
  | _, [] => []
  | log, pass :: rest =>
      let P := PassRun.alone cfg limit backoff log pass
      P :: alonePasses cfg limit backoff (log ++ P.events) rest

/-- So are passes that run alone, one after the other. -/
theorem passRuns_alone (cfg : EnrichConfig) (limit backoff : Int) (log : List Event)
    (inputs : List (PassEnv × Nat)) :
    PassRuns cfg limit backoff log (alonePasses cfg limit backoff log inputs) := by
  induction inputs generalizing log with
  | nil => exact fun k hk => absurd hk (Nat.not_lt_zero k)
  | cons pass rest ih =>
    intro k hk
    cases k with
    | zero =>
      rw [logAt, List.take_zero, List.flatMap_nil, List.append_nil]
      exact PassRun.runs_alone cfg limit backoff log pass
    | succ k =>
      have hshift := ih (log ++ (PassRun.alone cfg limit backoff log pass).events) k
        (Nat.lt_of_succ_lt_succ hk)
      rw [logAt, List.append_assoc] at hshift
      exact hshift

variable {cfg : EnrichConfig} {limit backoff : Int} {log : List Event} {passes : List PassRun}

omit [TextTables] in
/-- The log before the next pass. -/
theorem logAt_succ {k : Nat} (hk : k < passes.length) :
    logAt log passes (k + 1) = logAt log passes k ++ (passes[k]).events := by
  rw [logAt, logAt, List.take_succ_eq_append_getElem hk, List.flatMap_append,
    List.flatMap_singleton, List.append_assoc]

/-- Along a run, the clock of the abstract passes is the attempt clock. -/
theorem clockAt_paced (hruns : PassRuns cfg limit backoff log passes) {k : Nat}
    (hk : k ≤ passes.length) :
    FairQueue.clockAt (clockOf (attemptsIn log)) (passes.map (PassRun.paced backoff)) k
      = clockOf (attemptsIn (logAt log passes k)) := by
  induction k with
  | zero =>
    show clockOf (attemptsIn log) = clockOf (attemptsIn (log ++ []))
    rw [List.append_nil]
  | succ k ih =>
    have hlt : k < passes.length := Nat.lt_of_succ_le hk
    have hmap : k < (passes.map (PassRun.paced backoff)).length := by rwa [List.length_map]
    rw [FairQueue.clockAt_succ hmap, ih (Nat.le_of_lt hlt), List.getElem_map, (hruns k hlt).next,
      logAt_succ hlt]

/-- A run of passes is a fair run of paced queues, so what holds of those holds of it. -/
theorem PassRuns.fairRun (hruns : PassRuns cfg limit backoff log passes) :
    FairQueue.FairRun backoff (clockOf (attemptsIn log)) (passes.map (PassRun.paced backoff)) := by
  intro k hk
  have hlt : k < passes.length := by rwa [List.length_map] at hk
  rw [List.getElem_map, clockAt_paced hruns (Nat.le_of_lt hlt)]
  exact (hruns k hlt).fair

/-- A capture that is due at some moment of a pass has rested when the pass starts, or is attempted
    in it. -/
theorem PassRun.DueDuring.rested {P : PassRun} {queue : Queue} {wcId : Int}
    (h : P.DueDuring log backoff queue wcId) (hnot : ¬ P.Attempts wcId)
    (htime : ∀ a ∈ P.attempts, a.2 = P.env.now) :
    FairQueue.Rested backoff (clockOf (attemptsIn log)) P.env.now wcId := by
  obtain ⟨before, ⟨rest, hrest⟩, hdue⟩ := h
  have hsub : attemptsIn before ⊆ P.attempts := by
    rw [PassRun.attempts, ← hrest, attemptsIn, attemptsIn, List.filterMap_append]
    exact List.subset_append_left _ _
  have hsame : clockOf (attemptsIn (log ++ before)) wcId = clockOf (attemptsIn log) wcId := by
    have hsplit : attemptsIn (log ++ before) = attemptsIn log ++ attemptsIn before :=
      List.filterMap_append
    rw [hsplit, clockOf_append fun a ha => htime a (hsub ha),
      if_neg fun hmem => hnot (List.map_subset Prod.fst hsub hmem)]
  intro u hu
  have hattempt := (Queue.due_iff.mp hdue).2
  rw [Ukg.attemptDue, lookup_enrichAttempt, hsame, hu] at hattempt
  exact of_decide_eq_true hattempt

/-- What is attempted from a queue is in the prefix the pass took of it. -/
theorem PassRun.Runs.mem_paced {P : PassRun} (h : P.Runs cfg limit backoff log) {queue : Queue}
    {wcId : Int} (hfrom : P.AttemptsFrom limit backoff queue wcId) :
    (queue, wcId) ∈ (P.paced backoff).attempts := by
  obtain ⟨hattempts, reads', hread, hselect⟩ := hfrom
  rcases h.taken with hnone | ⟨reads, taken, hwork⟩
  · rw [PassRun.Attempts, hnone] at hattempts
    cases hattempts
  · have hdue : P.DueIn backoff queue wcId :=
      ⟨reads', hread, Queue.select_prefix.subset hselect⟩
    obtain ⟨queue', hid⟩ := hwork.mem_attempts.mp hattempts
    have hdue' := hwork.dueIn_of_taken hid
    obtain rfl : queue' = queue := by
      cases queue' <;> cases queue
      · rfl
      · exact (hwork.not_both hdue' hdue).elim
      · exact (hwork.not_both hdue hdue').elim
      · rfl
    exact hwork.source.mpr hid

/-- **The queues are fair.**  Over every run of passes at non-decreasing positive times with a
    positive backoff, in which captures arrive at any time and passes stop anywhere: two attempts
    on one capture are at least the backoff apart; and if `d` is attempted in passes `p < q` while
    `c` was due in some queue at some moment of `p` and is due at `q` in the queue from which `d` is
    attempted, then `c` is attempted in some pass from `p` to `q`. -/
theorem queues_fair (cfg : EnrichConfig) (limit backoff : Int) (hbackoff : 0 < backoff)
    (log : List Event) (passes : List PassRun) (hruns : PassRuns cfg limit backoff log passes)
    (hpos : ∀ P ∈ passes, 0 < P.env.now)
    (hord : passes.Pairwise fun P Q => P.env.now ≤ Q.env.now) :
    ((passes.flatMap PassRun.attempts).Pairwise fun a b => a.1 = b.1 → a.2 + backoff ≤ b.2) ∧
    ∀ (p q : Nat) (P Q : PassRun) (queue : Queue) (c d : Int), p < q → passes[p]? = some P →
      passes[q]? = some Q → P.Attempts d → Q.AttemptsFrom limit backoff queue d →
      (∃ queue', P.DueDuring (logAt log passes p) backoff queue' c) → Q.DueIn backoff queue c →
      ∃ (k : Nat) (K : PassRun), p ≤ k ∧ k ≤ q ∧ passes[k]? = some K ∧ K.Attempts c := by
  have hfair := hruns.fairRun
  have hordered : FairQueue.Ordered (passes.map (PassRun.paced backoff)) :=
    List.pairwise_map.mpr hord
  constructor
  · have hstamped : (passes.map (PassRun.paced backoff)).flatMap FairQueue.Pass.stamped
        = passes.flatMap PassRun.attempts := by
      rw [List.flatMap_map]
      refine List.flatMap_congr fun P hP => ?_
      obtain ⟨k, hk, rfl⟩ := List.getElem_of_mem hP
      show List.map _ (List.map _ _) = _
      rw [List.map_map]
      refine (List.map_congr_left fun a ha => ?_).trans (List.map_id _)
      exact Prod.ext rfl ((hruns k hk).attempts_time a ha).symm
    rw [← hstamped]
    exact FairQueue.fair_spaced hfair hordered
  · rintro p q P Q queue c d hpq hP hQ hdp hdq ⟨queue', hcp⟩ hcq
    obtain ⟨hq, rfl⟩ := List.getElem?_eq_some_iff.mp hQ
    obtain ⟨hp, rfl⟩ := List.getElem?_eq_some_iff.mp hP
    by_cases hnow : (passes[p]).Attempts c
    · exact ⟨p, _, le_refl p, Nat.le_of_lt hpq, hP, hnow⟩
    have hrested := hcp.rested hnow (hruns p hp).attempts_time
    rw [← clockAt_paced hruns (Nat.le_of_lt hp)] at hrested
    have hp' : p < (passes.map (PassRun.paced backoff)).length := by rwa [List.length_map]
    have hq' : q < (passes.map (PassRun.paced backoff)).length := by rwa [List.length_map]
    obtain ⟨k, hk, hpk, hkq, hattempts⟩ := FairQueue.no_overtaking hfair hordered hbackoff
      hp' hq' hpq (c := c) (d := d) (i := queue)
      (by
        rw [List.getElem_map]
        exact hpos _ (List.getElem_mem hp))
      (by
        rw [List.getElem_map]
        exact PassRun.paced_attempts.mpr hdp)
      (by
        rw [List.getElem_map]
        exact hrested)
      (by
        rw [List.getElem_map]
        exact (hruns q hq).mem_paced hdq)
      (by
        rw [List.getElem_map]
        exact hcq)
    rw [List.length_map] at hk
    rw [List.getElem_map] at hattempts
    exact ⟨k, _, hpk, hkq, List.getElem?_eq_getElem hk, PassRun.paced_attempts.mp hattempts⟩

end

/-! ### Two captures that take turns -/

section

attribute [local instance] TextTables.ascii

/-- Two captures arrive; their screenshots never do. -/
def twoStuck : List Event :=
  [.insertCapture smallRecord, .insertCapture { smallRecord with imageToken := "u" }]

/-- Three passes with a limit of one capture and a backoff of ten ticks. -/
def threePasses : List PassRun :=
  alonePasses smallConfig 1 10 twoStuck
    [(smallEnv 100 none .retry .retry, 20), (smallEnv 200 none .retry .retry, 20),
      (smallEnv 300 none .retry .retry, 20)]

/-- The first capture is attempted in the first and in the third pass, the second in between. -/
theorem queues_fair_twoStuck :
    ((threePasses.flatMap PassRun.attempts).Pairwise fun a b => a.1 = b.1 → a.2 + 10 ≤ b.2) ∧
    ∃ (k : Nat) (K : PassRun), 0 ≤ k ∧ k ≤ 2 ∧ threePasses[k]? = some K ∧ K.Attempts 2 := by
  have hfair := queues_fair smallConfig 1 10 (by decide) twoStuck threePasses
    (passRuns_alone smallConfig 1 10 twoStuck _) (by decide +kernel) (by decide +kernel)
  refine ⟨hfair.1, hfair.2 0 2 (threePasses.get ⟨0, by decide +kernel⟩)
    (threePasses.get ⟨2, by decide +kernel⟩) .fresh 2 1 (by decide) (List.getElem?_eq_getElem _)
    (List.getElem?_eq_getElem _) (by decide +kernel) ?_ ?_ ?_⟩
  · exact ⟨by decide +kernel, Option.get _ (by decide +kernel), (Option.some_get _).symm,
      by decide +kernel⟩
  · refine ⟨.fresh, [], List.nil_prefix, ?_⟩
    show _ ∈ _
    decide +kernel
  · refine ⟨Option.get _ (by decide +kernel), (Option.some_get _).symm, ?_⟩
    show _ ∈ _
    decide +kernel

end

end Precall.Api
