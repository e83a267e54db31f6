import Precall.Api.Guards

namespace Precall.Api

open ByteLib TextLib Durable Precall.Proto Precall.Store

/-!
# One embedding space per store

`StoreInv` ties the rows of a semantic store to its label and to the answers of the embedder that
the log records: every searchable vector is an answer in the labelled space, of the store's
width, and no capture has two.  The label may move at the health check, in the middle of a batch,
or stand at the placeholder a process created the store with, and `clear` may stop half way; the
guards of the events are what the invariant needs.

* `storeInv_of_guarded` — the invariant at every crash point of every history in which no
  embedder reports the placeholder as its space;
* `stores_wellFormed` — what a search relies on, for both stores, together with the answers that
  change nothing.
-/

/-- A stored vector is an answer the embedder gave for its item in `space`, and has the width
    `dim`. -/
def Made (dim : Nat) (leg : Leg) (log : List Event) (space : String) (r : Searchable) : Prop :=
  ∃ wcId embedding, r.itemId = itemIdForCapture wcId ∧ r.embedding = f32sToBytes embedding ∧
    embedding.length = dim ∧ .embedded leg wcId (.ok embedding space) ∈ log

/-- No embedder reported the placeholder as its space.  A store labelled with it would take
    answers of any space. -/
def KnownSpaces (log : List Event) : Prop :=
  ∀ leg wcId embedding space, .embedded leg wcId (.ok embedding space) ∈ log → space ≠ spaceUnknown

/-- Does an event report a proper space? -/
def reportsKnown : Event → Bool
  | .embedded _ _ (.ok _ space) => space != spaceUnknown
  | _ => true

/-- Whether an embedder has reported the placeholder can be computed. -/
theorem knownSpaces_iff (log : List Event) : KnownSpaces log ↔ log.all reportsKnown = true := by
  rw [List.all_eq_true]
  constructor
  · intro h e he
    cases e with
    | embedded leg wcId outcome =>
      cases outcome with
      | ok embedding space => exact bne_iff_ne.mpr (h leg wcId embedding space he)
      | _ => rfl
    | _ => rfl
  · intro h leg wcId embedding space hmem
    exact bne_iff_ne.mp (h _ hmem)

instance (log : List Event) : Decidable (KnownSpaces log) :=
  decidable_of_iff _ (knownSpaces_iff log).symm

/-- The invariant of one semantic store: every vector belongs to an item, was made in the
    labelled space and is the only one of its item, and the stamp is accounted for. -/
structure StoreInv (dim : Nat) (leg : Leg) (db : SiDb) (log : List Event) : Prop where
  owned : ∀ row ∈ db.metadata.rows, row.2.itemId ∈ db.items
  made : ∀ r ∈ db.searchable, ∃ space, db.spaceId = some space ∧ Made dim leg log space r
  unique : db.searchable.Pairwise fun r r' => r.itemId ≠ r'.itemId
  stamp : ∀ info, db.info = some info →
    info.dimension = dim ∨ ∃ space, .ensureInfo leg info.dimension space ∈ log

/-- What a search relies on: every searchable vector is an answer in the labelled space, each
    capture has at most one, and all have the width the store is opened with.  That is the width
    the store was stamped with, unless a process configured with another one stamped it. -/
structure WellFormed (dim : Nat) (leg : Leg) (db : SiDb) (log : List Event) : Prop where
  made : ∀ r ∈ db.searchable, ∃ space, db.spaceId = some space ∧ Made dim leg log space r
  unique : ∀ wcId, (db.searchable.filter fun r => r.itemId == itemIdForCapture wcId).length ≤ 1
  width : ∀ r ∈ db.searchable, (bytesToF32s r.embedding).length = dim
  stamp : (∀ d space, .ensureInfo leg d space ∈ log → d = dim) →
    ∀ info, db.info = some info → info.dimension = dim

/-! ### Single writes -/

/-- A vector that was made stays made, whatever is written later. -/
theorem Made.mono {dim : Nat} {leg : Leg} {log : List Event} {space : String} {r : Searchable}
    (h : Made dim leg log space r) (e : Event) : Made dim leg (log ++ [e]) space r := by
  obtain ⟨wcId, embedding, hitem, hblob, hdim, hmem⟩ := h
  exact ⟨wcId, embedding, hitem, hblob, hdim, List.mem_append_left _ hmem⟩

namespace StoreInv

variable {dim : Nat} {leg : Leg} {db : SiDb} {log : List Event}

/-- An event that does not write to the store keeps the invariant. -/
theorem mono (h : StoreInv dim leg db log) (e : Event) : StoreInv dim leg db (log ++ [e]) where
  owned := h.owned
  made := fun r hr => (h.made r hr).imp fun _ hs => ⟨hs.1, hs.2.mono e⟩
  unique := h.unique
  stamp := fun info hinfo => (h.stamp info hinfo).imp_right fun ⟨space, hmem⟩ =>
    ⟨space, List.mem_append_left _ hmem⟩

/-- A store without metadata is in order under any label: it has no vector to contradict it. -/
theorem of_empty (hempty : db.metadata.rows = [])
    (hstamp : ∀ info, db.info = some info →
      info.dimension = dim ∨ ∃ space, .ensureInfo leg info.dimension space ∈ log) :
    StoreInv dim leg db log where
  owned := by simp [hempty]
  made := by simp [SiDb.searchable_eq_nil hempty]
  unique := by simp [SiDb.searchable_eq_nil hempty]
  stamp := hstamp

/-- A stamp keeps it.  It is written only where there is none, and a store without one has no
    vectors. -/
theorem ensureInfo (h : StoreInv dim leg db log) {d : Nat} {space : String}
    (hmem : .ensureInfo leg d space ∈ log) : StoreInv dim leg (db.ensureInfo d space) log := by
  unfold SiDb.ensureInfo
  split
  · exact h
  · rename_i hnone
    -- an unstamped store has no label, hence no vectors
    have hnil : db.searchable = [] := by
      rw [List.eq_nil_iff_forall_not_mem]
      intro r hr
      obtain ⟨s, hs, -⟩ := h.made r hr
      simp [SiDb.spaceId, hnone] at hs
    refine { owned := h.owned, made := fun r hr => ?_, unique := h.unique,
             stamp := fun info hinfo => ?_ }
    · have hr' : r ∈ db.searchable := hr
      rw [hnil] at hr'
      cases hr'
    · obtain rfl := Option.some.inj hinfo
      exact Or.inr ⟨space, hmem⟩

/-- The label moves only over vectors that already carry it, or over none; that is what the
    enricher checks before it moves one. -/
theorem setSpaceId (h : StoreInv dim leg db log) (hknown : KnownSpaces log) (space : String)
    (hguard : spaceMismatch db space = false ∨ db.metadata.rows = []) :
    StoreInv dim leg (db.setSpaceId dim space) log := by
  have hsame : ∀ r ∈ db.searchable, db.spaceId = some space := by
    intro r hr
    obtain ⟨s, hs, wcId, embedding, -, -, -, hmem⟩ := h.made r hr
    rcases hguard with hfits | hempty
    · -- the old label is the new one: an answer is never in the placeholder's space
      have hfits' : s = space ∨ s = spaceUnknown := by
        simpa [spaceMismatch, hs, imp_iff_not_or] using hfits
      rcases hfits' with rfl | rfl
      · exact hs
      · exact absurd rfl (hknown leg wcId embedding _ hmem)
    · rw [SiDb.searchable_eq_nil hempty] at hr
      cases hr
  refine { owned := ?_, made := ?_, unique := ?_, stamp := ?_ }
  · have hrows : (db.setSpaceId dim space).metadata = db.metadata ∧
        (db.setSpaceId dim space).items = db.items := by
      unfold SiDb.setSpaceId
      split <;> exact ⟨rfl, rfl⟩
    rw [hrows.1, hrows.2]
    exact h.owned
  · intro r hr
    rw [SiDb.searchable_setSpaceId] at hr
    obtain ⟨s, hs, hmade⟩ := h.made r hr
    obtain rfl := Option.some.inj (hs.symm.trans (hsame r hr))
    exact ⟨s, SiDb.spaceId_setSpaceId db dim s, hmade⟩
  · rw [SiDb.searchable_setSpaceId]
    exact h.unique
  · intro info hinfo
    unfold SiDb.setSpaceId at hinfo
    split at hinfo
    · rename_i old hold
      obtain rfl := Option.some.inj hinfo
      exact h.stamp old hold
    · obtain rfl := Option.some.inj hinfo
      exact Or.inl rfl

/-- An insert for an item that is not there, of an answer in the labelled space, keeps it. -/
theorem insertRows (h : StoreInv dim leg db log) {itemId : Bytes} {embedding : List F32}
    {space : String} (habsent : db.hasItem itemId = false) (hlabel : db.spaceId = some space)
    (hmade : Made dim leg log space ⟨f32sToBytes embedding, itemId, none⟩) :
    StoreInv dim leg (db.insertRows itemId none none embedding) log := by
  refine { owned := ?_, made := ?_, unique := ?_, stamp := h.stamp }
  · -- the item is entered before its metadata row
    intro row hrow
    show row.2.itemId ∈ (if itemId ∈ db.items then db.items else db.items ++ [itemId])
    rcases List.mem_append.mp hrow with hold | hnew
    · have := h.owned row hold
      split <;> simp [this]
    · obtain rfl := List.mem_singleton.mp hnew
      split <;> simp_all
  · intro r hr
    rw [SiDb.searchable_insertRows, List.mem_append, List.mem_singleton] at hr
    rcases hr with hr | rfl
    · exact h.made r hr
    · exact ⟨space, hlabel, hmade⟩
  · rw [SiDb.searchable_insertRows, List.pairwise_append]
    refine ⟨h.unique, List.pairwise_singleton _ _, ?_⟩
    intro r hr r' hr' heq
    obtain rfl := List.mem_singleton.mp hr'
    -- a vector for this item would have made `has_item` true
    obtain ⟨row, hrow, hitem⟩ := SiDb.exists_metadata_of_searchable hr
    have hmem : itemId ∈ db.items := by
      rw [← show r.itemId = itemId from heq, ← hitem]
      exact h.owned row hrow
    rw [SiDb.hasItem_iff.mpr ⟨hmem, r, hr, heq⟩] at habsent
    cases habsent

/-- The invariant gives what a search relies on; item ids are told apart by capture. -/
theorem wellFormed (h : StoreInv dim leg db log) : WellFormed dim leg db log := by
  refine { made := h.made, unique := ?_, width := ?_, stamp := ?_ }
  · intro wcId
    have hpair := h.unique.filter fun r => r.itemId == itemIdForCapture wcId
    generalize hl : db.searchable.filter (fun r => r.itemId == itemIdForCapture wcId) = l at hpair
    cases l with
    | nil => simp
    | cons r rs =>
      cases rs with
      | nil => simp
      | cons r' rs =>
        -- two vectors of one capture would have one item id
        have hitem : ∀ x ∈ r :: r' :: rs, x.itemId = itemIdForCapture wcId := by
          intro x hx
          rw [← hl, List.mem_filter] at hx
          exact beq_iff_eq.mp hx.2
        have hne := List.rel_of_pairwise_cons hpair (List.mem_cons_self)
        exact absurd ((hitem r (by simp)).trans (hitem r' (by simp)).symm) hne
  · intro r hr
    obtain ⟨space, -, wcId, embedding, -, hblob, hdim, -⟩ := h.made r hr
    rw [hblob, bytesToF32s_f32sToBytes, hdim]
  · intro hstamps info hinfo
    exact (h.stamp info hinfo).elim id fun ⟨space, hmem⟩ => hstamps _ space hmem

end StoreInv

section
variable [TextTables]

/-- Every guarded event keeps the invariant of a store.  The cases are the writes to the store;
    all other events only lengthen the log. -/
theorem stable_storeInv (client : String) (dim : Nat) (leg : Leg) :
    Stable Event.apply (Guard client dim) fun dir log =>
      KnownSpaces log → StoreInv dim leg (dir.index leg) log := by
  intro e dir log hguard hinv hknown
  have hknown' : KnownSpaces log := fun leg' id v space hmem =>
    hknown leg' id v space (List.mem_append_left _ hmem)
  have h := (hinv hknown').mono e
  cases htargets : e.targets leg with
  | false =>
    rw [Event.index_apply htargets]
    exact h
  | true =>
    cases e with
    | ensureInfo l d space =>
      obtain rfl := beq_iff_eq.mp htargets
      simp only [Event.apply, ClientDir.index_setIndex]
      exact h.ensureInfo (List.mem_append_right _ (List.mem_singleton_self _))
    | clearMetadata l =>
      obtain rfl := beq_iff_eq.mp htargets
      simp only [Event.apply, ClientDir.index_setIndex]
      exact StoreInv.of_empty rfl h.stamp
    -- the other two deletes find the join empty
    | clearGraph l =>
      obtain rfl := beq_iff_eq.mp htargets
      simp only [Event.apply, ClientDir.index_setIndex]
      exact StoreInv.of_empty hguard.2 h.stamp
    | clearItems l =>
      obtain rfl := beq_iff_eq.mp htargets
      simp only [Event.apply, ClientDir.index_setIndex]
      exact StoreInv.of_empty hguard.2 h.stamp
    | setSpaceId l d space =>
      obtain rfl := beq_iff_eq.mp htargets
      obtain ⟨rfl, hguard⟩ := hguard
      simp only [Event.apply, ClientDir.index_setIndex]
      exact h.setSpaceId hknown space hguard
    | insertVector l itemId embedding =>
      obtain rfl := beq_iff_eq.mp htargets
      obtain ⟨habsent, hdim, wcId, space, hitem, hmem, hlabel⟩ := hguard
      simp only [Event.apply, ClientDir.index_setIndex]
      exact h.insertRows habsent hlabel
        ⟨wcId, embedding, hitem, rfl, hdim, List.mem_append_left _ hmem⟩
    | _ => cases htargets

/-- The invariant holds at every crash point of every history, since it holds after every prefix
    of the writes. -/
theorem storeInv_of_guarded {client : String} {dim : Nat} {log : List Event} (leg : Leg)
    (h : Guarded Event.apply (Guard client dim) ClientDir.new log) (hknown : KnownSpaces log) :
    StoreInv dim leg ((ClientDir.after log).index leg) log := by
  have hnew : ∀ l, ((ClientDir.new).index l).metadata.rows = [] ∧
      (ClientDir.new.index l).info = none := by
    intro l
    cases l <;> exact ⟨rfl, rfl⟩
  refine h.invariant (stable_storeInv client dim leg) (fun _ => ?_) hknown
  exact StoreInv.of_empty (hnew leg).1 fun info hinfo => by rw [(hnew leg).2] at hinfo; cases hinfo

/-! ### Answers that change nothing -/

omit [TextTables] in
/-- Did the embedder return a vector of the store's width? -/
def EmbedOutcome.isUsable (dim : Nat) : EmbedOutcome → Bool
  | .ok embedding _ => usable embedding dim
  | _ => false

/-- A program that commits at most one write leaves the stores it does not target alone, whether
    it gets to the write or not. -/
private theorem run_commit_index {α : Type} {e : Event} (he : ∀ leg, e.targets leg = false)
    (a : α) (n : Nat) (dir : ClientDir) (log : List Event) (leg : Leg) :
    ((Prog.commit e >>= fun _ => pure a : Enricher α).run Event.apply n dir log).store.index leg
      = dir.index leg := by
  cases n with
  | zero => rfl
  | succ n => exact Event.index_apply (he leg)

/-- An image answer that is not a vector of the right width leaves both stores alone. -/
theorem imageRecord_unusable (cfg : EnrichConfig) (env : PassEnv) (wcId attempts : Int)
    {outcome : EmbedOutcome} (stats : EnrichStats)
    (h : EmbedOutcome.isUsable cfg.dim outcome = false) (n : Nat) (dir : ClientDir)
    (log : List Event) (leg : Leg) :
    ((imageRecord cfg env wcId attempts outcome stats).run Event.apply n dir log).store.index leg
      = dir.index leg := by
  cases outcome with
  | ok embedding space =>
    rw [imageRecord, if_pos (by simpa [EmbedOutcome.isUsable] using h)]
    exact run_commit_index (fun _ => rfl) _ n dir log leg
  | disabled => exact run_commit_index (fun _ => rfl) _ n dir log leg
  | rejected => exact run_commit_index (fun _ => rfl) _ n dir log leg
  | retry => exact run_commit_index (fun _ => rfl) _ n dir log leg

/-- A text answer that is not a vector of the right width leaves both stores alone. -/
theorem textRecord_unusable (cfg : EnrichConfig) (wcId : Int) {outcome : EmbedOutcome}
    (stats : EnrichStats) (h : EmbedOutcome.isUsable cfg.dim outcome = false) (n : Nat)
    (dir : ClientDir) (log : List Event) (leg : Leg) :
    ((textRecord cfg wcId outcome stats).run Event.apply n dir log).store.index leg
      = dir.index leg := by
  cases outcome with
  | ok embedding space =>
    rw [textRecord, if_pos (by simpa [EmbedOutcome.isUsable] using h)]
    rfl
  | disabled => exact run_commit_index (fun _ => rfl) _ n dir log leg
  | rejected => rfl
  | retry => rfl

/-- **The semantic stores stay well formed.**  At every crash point of every history in which no
    embedder reports the placeholder space, every searchable vector was returned in the labelled
    space, each capture has at most one, and all have the width the store is opened with; and an
    answer that is not a vector of that width changes neither rows nor label. -/
theorem stores_wellFormed (cfg : EnrichConfig) (steps : List (Step cfg))
    (hknown : KnownSpaces (history cfg steps)) :
    (∀ leg, WellFormed cfg.dim leg ((ClientDir.after (history cfg steps)).index leg)
      (history cfg steps)) ∧
    ∀ env wcId attempts outcome stats n dir log leg, EmbedOutcome.isUsable cfg.dim outcome = false →
      ((imageRecord cfg env wcId attempts outcome stats).run Event.apply n dir log).store.index leg
        = dir.index leg ∧
      ((textRecord cfg wcId outcome stats).run Event.apply n dir log).store.index leg
        = dir.index leg := by
  refine ⟨fun leg => ?_, ?_⟩
  · exact (storeInv_of_guarded leg (history_guarded cfg steps) hknown).wellFormed
  · intro env wcId attempts outcome stats n dir log leg h
    exact ⟨imageRecord_unusable cfg env wcId attempts stats h n dir log leg,
      textRecord_unusable cfg wcId stats h n dir log leg⟩

end

section

attribute [local instance] TextTables.ascii

/-- A capture is embedded in `A`; then the service reports `B`, and the image store is cleared,
    moved to `B` and refilled. -/
def movedStore : List (Step smallConfig) :=
  [smallArrival,
    .pass (smallEnv 1000000000 (some ("T", "A")) (.ok [1] "T") (.ok [2] "A")) 100,
    .pass (smallEnv 2000000000 (some ("T", "B")) .retry (.ok [3] "B")) 100]

/-- A history with a move to another space. -/
theorem stores_wellFormed_moved :
    (∀ leg, WellFormed smallConfig.dim leg
      ((ClientDir.after (history smallConfig movedStore)).index leg)
      (history smallConfig movedStore)) ∧
    ∀ env wcId attempts outcome stats n dir log leg,
      EmbedOutcome.isUsable smallConfig.dim outcome = false →
      ((imageRecord smallConfig env wcId attempts outcome stats).run Event.apply n dir
        log).store.index leg = dir.index leg ∧
      ((textRecord smallConfig wcId outcome stats).run Event.apply n dir log).store.index leg
        = dir.index leg :=
  stores_wellFormed smallConfig movedStore (by decide +kernel)

end

end Precall.Api
