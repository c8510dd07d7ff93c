import Eugraph.Query.IndexBackfillRuns

/-!
# What an index contains that was filled among writers

The unique check of a batch does not know whose entry it finds.  So the index may end in
`ERROR` for a vertex that a writer had indexed before the cursor came to it.  Apart from
that an index in `ERROR` had two vertices the check takes for one another, a vertex with two
values for one weak accessor, or no transaction, and an index in `PUBLIC` is exact.
-/

namespace Eugraph.Query

open Lib Lib.Program Wt KeyCodec IndexKeyCodec DataStore List Option DdlRun

namespace VertexIndexJob

variable (job : VertexIndexJob)

/-! ### Stores that keep the live vertices -/

/-- The live vertices stay, with what is found for them. -/
structure KeepsLive (s s' : Store) : Prop where
  live : ∀ vid ∈ job.live s, vid ∈ job.live s'
  found : ∀ vid ∈ job.live s, job.backfill.found s' vid = job.backfill.found s vid

section KeepsLive

variable {job} {s s' : Store} {vid : VertexId} {vs : List PropertyValue}

lemma tuple_eq_some_iff : job.tuple s vid = some vs ↔
      vid ∈ job.live s ∧ job.backfill.found s vid = .ok (.values vs) := by
  unfold tuple
  split
  · rename_i hlive
    rcases job.backfill.found s vid with message | found
    · simp
    · cases found with
      | skipped => simp [Found.values?]
      | values ws => simp [Found.values?, hlive]
      | conflicting => simp [Found.values?]
  · rename_i hdead
    simp [hdead]

lemma readsOff_backfill : job.backfill.ReadsOff := readsOff_vertexBackfill job.unique job.resolved

lemma live_congr (hagree : s.AgreeOff job.backfill.table s') : job.live s' = job.live s :=
  exec_fst_of_readsOff (readsOff_scanVerticesByLabel job.labelId) hagree

lemma KeepsLive.of_agreeOff (hagree : s.AgreeOff job.backfill.table s') : job.KeepsLive s s' where
  live vid hvid := by
    rw [live_congr hagree]
    exact hvid
  found vid _ := readsOff_backfill.found_congr hagree vid

lemma Inserts.keepsLive {vids : List VertexId} (h : job.Inserts s vids s') : job.KeepsLive s s' where
  live vid hvid := (h.live vid).mpr (.inl hvid)
  found := h.kept

lemma KeepsLive.tuple (h : job.KeepsLive s s') (hvid : vid ∈ job.live s) : job.tuple s' vid = job.tuple s vid := by
  unfold VertexIndexJob.tuple
  rw [if_pos hvid, if_pos (h.live vid hvid), h.found vid hvid]

lemma KeepsLive.tuple_some (h : job.KeepsLive s s') (hvs : job.tuple s vid = some vs) :
    job.tuple s' vid = some vs := by
  rw [h.tuple (tuple_eq_some_iff.mp hvs).1]
  exact hvs

end KeepsLive

/-! ### What a conflict stands for -/

/-- Two live vertices that the unique check takes for one another: the values of the one
begin the key of the other. -/
def Duplicate (s : Store) : Prop :=
  ∃ vid vid' vs vs', vid ≠ vid' ∧ job.tuple s vid = some vs ∧ job.tuple s vid' = some vs' ∧
    encodeEqualityPrefix vs <+: encodeIndexKey vs' vid'

/-- A weak accessor finds two values at a live vertex. -/
def Disagreement (s : Store) : Prop :=
  ∃ vid ∈ job.live s, job.backfill.found s vid = .ok .conflicting

/-- The scan came upon a vertex that a writer had inserted and indexed. -/
def MetWritten (r : BackfillRun) : Prop :=
  ∃ vid ∈ r.written, vid ∈ r.delivered ∧ (job.tuple r.store vid).isSome

def Conflict (r : BackfillRun) : Prop :=
  job.Duplicate r.store ∨ job.Disagreement r.store ∨ job.MetWritten r

variable {job} in
lemma Conflict.mono {r r' : BackfillRun} (h : job.Conflict r)
    (hkeeps : job.KeepsLive r.store r'.store) (hwritten : r.written ⊆ r'.written)
    (hdelivered : r.delivered ⊆ r'.delivered) : job.Conflict r' := by
  rcases h with ⟨vid, vid', vs, vs', hne, hvs, hvs', hbegins⟩ | ⟨vid, hlive, hfound⟩ | ⟨vid, hvid, hseen, htuple⟩
  · exact .inl ⟨vid, vid', vs, vs', hne, hkeeps.tuple_some hvs, hkeeps.tuple_some hvs', hbegins⟩
  · refine .inr (.inl ⟨vid, hkeeps.live vid hlive, ?_⟩)
    rw [hkeeps.found vid hlive, hfound]
  · obtain ⟨vs, hvs⟩ := isSome_iff_exists.mp htuple
    refine .inr (.inr ⟨vid, hwritten hvid, hdelivered hseen, ?_⟩)
    rw [hkeeps.tuple_some hvs]
    rfl

/-! ### The invariant -/

/-- Every vertex is delivered once and is live. -/
structure Queued (r : BackfillRun) (todo pending : List VertexId) : Prop where
  nodup : (todo ++ pending).Nodup
  live : ∀ vid ∈ todo ++ pending, vid ∈ job.live r.store
  delivered : ∀ vid ∈ pending, vid ∈ r.delivered

/-- Since the snapshot entries were only added, and the batch reads what it is now. -/
structure SnapshotOf (r : BackfillRun) (pending : List VertexId) (snapshot : Store) : Prop where
  keys : ∀ key, (snapshot.get (.vidxTableById job.indexId) key).isSome →
    (r.store.get (.vidxTableById job.indexId) key).isSome
  found : ∀ vid ∈ pending, job.backfill.found snapshot vid = job.backfill.found r.store vid

def PhaseOk (r : BackfillRun) : Prop :=
  match r.phase with
  | .opening => True
  | .scanning todo pending => job.Queued r todo pending
  | .flushing todo pending snapshot =>
    pending ≠ [] ∧ job.Queued r todo pending ∧ job.SnapshotOf r pending snapshot
  | .ended e => e = .conflict → job.Conflict r

/-- An entry is the one of a live vertex that a writer inserted or that was filed, and every
live vertex has its entry or will be filed. -/
structure Inv (r : BackfillRun) : Prop where
  content : ∀ key, (r.store.get (.vidxTableById job.indexId) key).isSome →
    ∃ vid vs, job.tuple r.store vid = some vs ∧ key = encodeIndexKey vs vid ∧
      (vid ∈ r.written ∨ vid ∉ r.phase.awaited (job.live r.store))
  covered : ¬ r.phase.Failed → ∀ vid vs, job.tuple r.store vid = some vs →
    (r.store.get (.vidxTableById job.indexId) (encodeIndexKey vs vid)).isSome ∨
      vid ∈ r.phase.awaited (job.live r.store)
  phase : job.PhaseOk r
  state : r.state = .WRITE_ONLY ∨ ∃ e, r.phase = .ended e ∧ e.indexState = some r.state

variable {job} {r r' : BackfillRun}

variable {s : Store}

lemma inv_start (hempty : s (.vidxTableById job.indexId) = SortedMap.empty) : job.Inv (.start s) where
  content key hkey := by
    replace hkey : ((s (.vidxTableById job.indexId)).get key).isSome := hkey
    rw [hempty] at hkey
    exact nomatch hkey
  covered _ vid vs hvs := .inr (tuple_eq_some_iff.mp hvs).1
  phase := trivial
  state := .inl rfl

variable {s' : Store} {vids seen : List VertexId}

/-- A vertex that was live before is awaited as before. -/
theorem mem_awaited_ahead {phase : BackfillPhase}
    (hins : job.Inserts s vids s') (hseen : seen.Sublist vids) {vid : VertexId}
    (hlive : vid ∈ job.live s) :
    vid ∈ (phase.ahead seen).awaited (job.live s') ↔ vid ∈ phase.awaited (job.live s) := by
  have hold : vid ∉ seen := fun hmem => hins.fresh vid (hseen.subset hmem) hlive
  cases phase with
  | opening => simp [BackfillPhase.ahead, BackfillPhase.awaited, hlive, hins.live]
  | scanning todo pending => simp [BackfillPhase.ahead, BackfillPhase.awaited, hold]
  | flushing todo pending snapshot => simp [BackfillPhase.ahead, BackfillPhase.awaited, hold]
  | ended e => rfl

variable {todo : List VertexId} {pending : List VertexId}

lemma Queued.ahead {after : Store}
    (h : job.Queued r todo pending) (hins : job.Inserts r.store vids after)
    (hseen : seen.Sublist vids) (hstore : r'.store = after) (hdelivered : r'.delivered = r.delivered) :
    job.Queued r' (todo ++ seen) pending where
  nodup := by
    have hdisjoint : ∀ vid ∈ todo ++ pending, vid ∉ seen := fun vid hvid hmem =>
      hins.fresh vid (hseen.subset hmem) (h.live vid hvid)
    have hseenNodup : seen.Nodup := hins.nodup.sublist hseen
    have hnodup := h.nodup
    rw [nodup_append] at hnodup ⊢
    rw [nodup_append]
    grind
  live vid hvid := by
    rw [hstore, hins.live]
    rcases mem_append.mp hvid with hvid | hvid
    · rcases mem_append.mp hvid with hvid | hvid
      · exact .inl (h.live vid (mem_append_left pending hvid))
      · exact .inr (hseen.subset hvid)
    · exact .inl (h.live vid (mem_append_right todo hvid))
  delivered vid hvid := by
    rw [hdelivered]
    exact h.delivered vid hvid

/-- A writer commits. -/
theorem Inv.insert (h : job.Inv r) {after : Store}
    (hins : job.Inserts r.store vids after) (hseen : seen.Sublist vids) :
    job.Inv { r with store := after, phase := r.phase.ahead seen, written := r.written ++ vids } where
  content key hkey := by
    rcases (hins.entries key).mp hkey with hold | ⟨vid, hvid, vs, hvs, hkey⟩
    · obtain ⟨vid, vs, hvs, hkey, hfrom⟩ := h.content key hold
      refine ⟨vid, vs, hins.keepsLive.tuple_some hvs, hkey, ?_⟩
      show vid ∈ r.written ++ vids ∨ _
      rw [mem_awaited_ahead hins hseen (tuple_eq_some_iff.mp hvs).1]
      rcases hfrom with hwritten | hfiled
      · exact .inl (mem_append_left vids hwritten)
      · exact .inr hfiled
    · exact ⟨vid, vs, hvs, hkey, .inl (mem_append_right r.written hvid)⟩
  covered hfailed vid vs hvs := by
    have hlive := (tuple_eq_some_iff.mp hvs).1
    rcases (hins.live vid).mp hlive with hold | hnew
    · have hfailed' : ¬ r.phase.Failed := by
        intro hr
        apply hfailed
        show (r.phase.ahead seen).Failed
        cases hphase : r.phase with
        | ended e =>
          rw [hphase] at hr
          exact hr
        | _ =>
          rw [hphase] at hr
          exact hr.elim
      replace hvs : job.tuple after vid = some vs := hvs
      rw [hins.keepsLive.tuple hold] at hvs
      rcases h.covered hfailed' vid vs hvs with hentry | hawaited
      · exact .inl ((hins.entries _).mpr (.inl hentry))
      · exact .inr ((mem_awaited_ahead hins hseen hold).mpr hawaited)
    · exact .inl ((hins.entries _).mpr (.inr ⟨vid, hnew, vs, hvs, rfl⟩))
  phase := by
    have hphase := h.phase
    unfold PhaseOk at hphase ⊢
    dsimp only
    cases hp : r.phase with
    | opening => trivial
    | scanning todo pending =>
      rw [hp] at hphase
      exact hphase.ahead hins hseen rfl rfl
    | flushing todo pending snapshot =>
      rw [hp] at hphase
      obtain ⟨hpending, hqueued, hsnapshot⟩ := hphase
      refine ⟨hpending, hqueued.ahead hins hseen rfl rfl, ?_, ?_⟩
      · exact fun key hkey => (hins.entries key).mpr (.inl (hsnapshot.keys key hkey))
      · intro vid hvid
        rw [hsnapshot.found vid hvid]
        exact (hins.kept vid (hqueued.live vid (mem_append_right todo hvid))).symm
    | ended e =>
      rw [hp] at hphase
      intro he
      exact (hphase he).mono hins.keepsLive (subset_append_left _ _) (List.Subset.refl _)
  state := by
    rcases h.state with hstate | ⟨e, hphase, hstate⟩
    · exact .inl hstate
    · refine .inr ⟨e, ?_, hstate⟩
      show r.phase.ahead seen = .ended e
      rw [hphase]
      rfl

lemma Inv.state_of_running (h : job.Inv r) (hrunning : ∀ e, r.phase ≠ .ended e) : r.state = .WRITE_ONLY := by
  rcases h.state with hstate | ⟨e, hphase, -⟩
  · exact hstate
  · exact absurd hphase (hrunning e)

/-- The phase changes, the store does not, and the same vertices are awaited. -/
theorem Inv.rephase (h : job.Inv r) {phase : BackfillPhase} {delivered : List VertexId}
    (hawaited : ∀ vid, vid ∈ phase.awaited (job.live r.store) ↔ vid ∈ r.phase.awaited (job.live r.store))
    (hrunning : ∀ e, r.phase ≠ .ended e)
    (hphase : job.PhaseOk { r with phase := phase, delivered := delivered }) :
    job.Inv { r with phase := phase, delivered := delivered } where
  content key hkey := by
    obtain ⟨vid, vs, hvs, hkey, hfrom⟩ := h.content key hkey
    refine ⟨vid, vs, hvs, hkey, ?_⟩
    show _ ∨ vid ∉ phase.awaited (job.live r.store)
    rw [hawaited]
    exact hfrom
  covered _ vid vs hvs := by
    have hfailed : ¬ r.phase.Failed := by
      cases hp : r.phase with
      | ended e => exact absurd hp (hrunning e)
      | _ => exact not_false
    rcases h.covered hfailed vid vs hvs with hentry | hvid
    · exact .inl hentry
    · exact .inr ((hawaited vid).mpr hvid)
  phase := hphase
  state := .inl (h.state_of_running hrunning)

variable {e : BackfillEnd}

/-- The backfill gives up. -/
theorem Inv.fail (h : job.Inv r) (he : e ≠ .filled)
    (hrunning : ∀ e, r.phase ≠ .ended e) (hconflict : e = .conflict → job.Conflict r) :
    job.Inv { r with phase := .ended e } where
  content key hkey := by
    obtain ⟨vid, vs, hvs, hkey, -⟩ := h.content key hkey
    exact ⟨vid, vs, hvs, hkey, .inr not_mem_nil⟩
  covered hfailed := absurd he hfailed
  phase := hconflict
  state := .inl (h.state_of_running hrunning)

/-- The batch commits: its rows are added to what the store is now. -/
theorem Inv.commit (h : job.Inv r) {snapshot : Store}
    (hp : r.phase = .flushing todo pending snapshot) :
    job.Inv { r with
      store := r.store.putAll job.backfill.table (job.backfill.rows snapshot pending)
      phase := .scanning todo [] } := by
  have hphase := h.phase
  rw [PhaseOk, hp] at hphase
  obtain ⟨-, hqueued, hsnapshot⟩ := hphase
  have hagree := r.store.agreeOff_putAll job.backfill.table (job.backfill.rows snapshot pending)
  have hkeeps : job.KeepsLive r.store _ := .of_agreeOff hagree
  have hget := r.store.putAll_get_isSome job.backfill.table (job.backfill.rows snapshot pending)
  -- the rows are those of the batch as the store is now
  have hrows : ∀ key, key ∈ (job.backfill.rows snapshot pending).map Prod.fst ↔
      ∃ vid ∈ pending, ∃ vs, job.tuple r.store vid = some vs ∧ key = encodeIndexKey vs vid := by
    intro key
    rw [Backfill.mem_rows]
    apply exists_congr
    intro vid
    apply and_congr_right
    intro hvid
    apply exists_congr
    intro vs
    rw [hsnapshot.found vid hvid, tuple_eq_some_iff]
    have hlive := hqueued.live vid (mem_append_right todo hvid)
    show _ ∧ key = encodeIndexKey vs vid ↔ _
    simp [hlive]
  constructor
  · intro key hkey
    rcases (hget key).mp hkey with hold | hnew
    · obtain ⟨vid, vs, hvs, hkey, hfrom⟩ := h.content key hold
      refine ⟨vid, vs, hkeeps.tuple_some hvs, hkey, ?_⟩
      rcases hfrom with hwritten | hfiled
      · exact .inl hwritten
      · rw [hp] at hfiled
        exact .inr fun hvid => hfiled (mem_append_left pending (by simpa [BackfillPhase.awaited] using hvid))
    · obtain ⟨vid, hvid, vs, hvs, hkey⟩ := (hrows key).mp hnew
      refine ⟨vid, vs, hkeeps.tuple_some hvs, hkey, .inr ?_⟩
      intro hmem
      have htodo : vid ∈ todo := by simpa [BackfillPhase.awaited] using hmem
      exact (nodup_append.mp hqueued.nodup).2.2 vid htodo vid hvid rfl
  · intro _ vid vs hvs
    obtain ⟨hlive, -⟩ := tuple_eq_some_iff.mp hvs
    replace hlive : vid ∈ job.live (r.store.putAll job.backfill.table _) := hlive
    rw [live_congr hagree] at hlive
    replace hvs : job.tuple (r.store.putAll job.backfill.table _) vid = some vs := hvs
    rw [hkeeps.tuple hlive] at hvs
    have hrunning : ¬ r.phase.Failed := by
      rw [hp]
      exact not_false
    rcases h.covered hrunning vid vs hvs with hentry | hawaited
    · exact .inl ((hget _).mpr (.inl hentry))
    · rw [hp] at hawaited
      rcases mem_append.mp hawaited with htodo | hpending
      · exact .inr (mem_append_left [] htodo)
      · exact .inl ((hget _).mpr (.inr ((hrows _).mpr ⟨vid, hpending, vs, hvs, rfl⟩)))
  · refine ⟨?_, ?_, fun vid hvid => absurd hvid not_mem_nil⟩
    · rw [append_nil]
      exact (nodup_append.mp hqueued.nodup).1
    · intro vid hvid
      rw [append_nil] at hvid
      exact hkeeps.live vid (hqueued.live vid (mem_append_left pending hvid))
  · exact .inl (h.state_of_running fun e he => nomatch hp.symm.trans he)

/-- Why a batch has met a conflict. -/
theorem Inv.conflict (h : job.Inv r) {snapshot : Store}
    (hp : r.phase = .flushing todo pending snapshot)
    (hrun : runOperator (job.backfill.entities pending) snapshot = (.ok false, s')) :
    job.Conflict r := by
  have hphase := h.phase
  rw [PhaseOk, hp] at hphase
  obtain ⟨-, hqueued, hsnapshot⟩ := hphase
  obtain ⟨pre, vid, post, hpending, hstop⟩ := Backfill.stop_of_conflict readsOff_backfill hrun
  have hvid : vid ∈ pending := hpending ▸ mem_append_right pre mem_cons_self
  have hlive := hqueued.live vid (mem_append_right todo hvid)
  rw [hsnapshot.found vid hvid] at hstop
  rcases hstop with hfound | ⟨vs, hfound, key, hbegins, hkey⟩
  · exact .inr (.inl ⟨vid, hlive, hfound⟩)
  have hvs : job.tuple r.store vid = some vs := tuple_eq_some_iff.mpr ⟨hlive, hfound⟩
  rcases hkey with hold | hnew
  · -- an entry of the snapshot, so one of the store
    obtain ⟨vid', vs', hvs', rfl, hfrom⟩ := h.content key (hsnapshot.keys key hold)
    by_cases hsame : vid = vid'
    · -- its own entry: a batch files it only now, so a writer did
      subst hsame
      refine .inr (.inr ⟨vid, ?_, hqueued.delivered vid hvid, ?_⟩)
      · rcases hfrom with hwritten | hfiled
        · exact hwritten
        · rw [hp] at hfiled
          exact absurd (mem_append_right todo hvid) hfiled
      · rw [hvs]
        rfl
    · exact .inl ⟨vid, vid', vs, vs', hsame, hvs, hvs', hbegins⟩
  · -- an entry of this batch, so of another vertex
    obtain ⟨vid', hvid', vs', hfound', rfl⟩ := Backfill.mem_rows.mp hnew
    have hmem' : vid' ∈ pending := hpending ▸ mem_append_left (vid :: post) hvid'
    have hne : vid ≠ vid' := by
      rintro rfl
      have hnodup := (nodup_append.mp hqueued.nodup).2.1
      rw [hpending] at hnodup
      exact (nodup_append.mp hnodup).2.2 vid hvid' vid mem_cons_self rfl
    rw [hsnapshot.found vid' hmem'] at hfound'
    have hlive' := hqueued.live vid' (mem_append_right todo hmem')
    exact .inl ⟨vid, vid', vs, vs', hne, hvs, tuple_eq_some_iff.mpr ⟨hlive', hfound'⟩, hbegins⟩

/-! ### Steps and runs -/

lemma Inv.openScan (h : job.Inv r) (hp : r.phase = .opening) :
    job.Inv { r with phase := .scanning (job.live r.store).dedup [] } := by
  apply h.rephase
  · intro vid
    rw [hp]
    simp [BackfillPhase.awaited]
  · exact fun e he => nomatch hp.symm.trans he
  · show job.Queued _ _ _
    refine ⟨?_, ?_, fun vid hvid => absurd hvid not_mem_nil⟩
    · rw [append_nil]
      exact nodup_dedup _
    · intro vid hvid
      rw [append_nil] at hvid
      exact mem_dedup.mp hvid

lemma Inv.deliver (h : job.Inv r)
    (hp : r.phase = .scanning todo pending) {vid : VertexId} (hvid : vid ∈ todo) :
    job.Inv { r with
      phase := .scanning (todo.erase vid) (pending ++ [vid])
      delivered := r.delivered ++ [vid] } := by
  have hphase := h.phase
  rw [PhaseOk, hp] at hphase
  have hperm : (todo.erase vid ++ (pending ++ [vid])).Perm (todo ++ pending) :=
    calc todo.erase vid ++ (pending ++ [vid])
      _ = (todo.erase vid ++ pending) ++ [vid] := (append_assoc ..).symm
      List.Perm _ (vid :: (todo.erase vid ++ pending)) := perm_append_singleton vid _
      List.Perm _ (todo ++ pending) := (perm_cons_erase hvid).symm.append_right pending
  apply h.rephase
  · intro vid'
    rw [hp]
    exact hperm.mem_iff
  · exact fun e he => nomatch hp.symm.trans he
  · show job.Queued _ _ _
    refine ⟨hperm.nodup_iff.mpr hphase.nodup, ?_, ?_⟩
    · exact fun vid' hvid' => hphase.live vid' (hperm.mem_iff.mp hvid')
    · intro vid' hvid'
      rcases mem_append.mp hvid' with hold | hnew
      · exact mem_append_left [vid] (hphase.delivered vid' hold)
      · exact mem_append_right r.delivered hnew

lemma Inv.beginBatch (h : job.Inv r)
    (hp : r.phase = .scanning todo pending) (hpending : pending ≠ []) :
    job.Inv { r with phase := .flushing todo pending r.store } := by
  have hphase := h.phase
  rw [PhaseOk, hp] at hphase
  apply h.rephase
  · intro vid
    rw [hp]
    rfl
  · exact fun e he => nomatch hp.symm.trans he
  · exact ⟨hpending, ⟨hphase.nodup, hphase.live, hphase.delivered⟩, fun _ hkey => hkey, fun _ _ => rfl⟩

lemma Inv.complete (h : job.Inv r) (hp : r.phase = .scanning [] []) :
    job.Inv { r with phase := .ended .filled } := by
  apply h.rephase
  · intro vid
    rw [hp]
    rfl
  · exact fun e he => nomatch hp.symm.trans he
  · exact fun he => nomatch he

lemma Inv.changeState (h : job.Inv r) (hp : r.phase = .ended e)
    {state : IndexState} (hstate : e.indexState = some state) :
    job.Inv { r with state := state } where
  content := h.content
  covered := h.covered
  phase := by
    have hphase := h.phase
    rw [PhaseOk, hp] at hphase
    rw [PhaseOk]
    dsimp only
    rw [hp]
    exact hphase
  state := .inr ⟨e, hp, hstate⟩

/-- What one step does. -/
inductive Moves (job : VertexIndexJob) (r : BackfillRun) : BackfillAction → BackfillRun → Prop
  | insert (vids seen : List VertexId) (after : Store) :
      Moves job r (.insert vids seen after)
        { r with store := after, phase := r.phase.ahead seen, written := r.written ++ vids }
  | openScan (hp : r.phase = .opening) :
      Moves job r .openScan { r with phase := .scanning (job.live r.store).dedup [] }
  | deliver {todo pending : List VertexId} (hp : r.phase = .scanning todo pending) {vid : VertexId}
      (hvid : vid ∈ todo) :
      Moves job r (.deliver vid) { r with
        phase := .scanning (todo.erase vid) (pending ++ [vid])
        delivered := r.delivered ++ [vid] }
  | beginBatch {todo pending : List VertexId} (hp : r.phase = .scanning todo pending)
      (hpending : pending ≠ []) :
      Moves job r .beginBatch { r with phase := .flushing todo pending r.store }
  | commit {todo pending : List VertexId} {snapshot : Store}
      (hp : r.phase = .flushing todo pending snapshot) :
      Moves job r .commitBatch { r with
        store := r.store.putAll job.backfill.table (job.backfill.rows snapshot pending)
        phase := .scanning todo [] }
  | conflict {todo pending : List VertexId} {snapshot s' : Store}
      (hp : r.phase = .flushing todo pending snapshot)
      (hrun : runOperator (job.backfill.entities pending) snapshot = (.ok false, s')) :
      Moves job r .commitBatch { r with phase := .ended .conflict }
  | fail {a : BackfillAction} {e : BackfillEnd} (hrunning : ∀ e, r.phase ≠ .ended e)
      (he : e = .refused ∨ e = .threw) : Moves job r a { r with phase := .ended e }
  | complete (hp : r.phase = .scanning [] []) :
      Moves job r .complete { r with phase := .ended .filled }
  | changeState {e : BackfillEnd} (hp : r.phase = .ended e) (hwriteOnly : r.state = .WRITE_ONLY)
      {state : IndexState} (hstate : e.indexState = some state) :
      Moves job r .changeState { r with state := state }

variable {a : BackfillAction}

lemma moves_of_step (hstep : job.step r a = some r') : Moves job r a r' := by
  cases a with
  | insert vids seen after =>
    obtain rfl := some.inj hstep
    exact .insert vids seen after
  | openScan =>
    simp only [step] at hstep
    split at hstep
    · rename_i hp
      obtain rfl := some.inj hstep
      exact .openScan hp
    · cases hstep
  | deliver vid =>
    simp only [step] at hstep
    split at hstep
    · rename_i hp
      split at hstep
      · rename_i hvid
        obtain rfl := some.inj hstep
        exact .deliver hp hvid.1
      · cases hstep
    · cases hstep
  | beginBatch =>
    simp only [step] at hstep
    split at hstep
    · rename_i hp
      split at hstep
      · rename_i hdue
        obtain rfl := some.inj hstep
        exact .beginBatch hp hdue.1
      · cases hstep
    · cases hstep
  | commitBatch =>
    simp only [step] at hstep
    split at hstep
    · rename_i hp
      split at hstep <;> cases hstep
      · exact .commit hp
      · rename_i hrun
        exact .conflict hp hrun
      · exact .fail (fun e he => by cases hp.symm.trans he) (.inr rfl)
    · cases hstep
  | refuse =>
    simp only [step] at hstep
    split at hstep
    · rename_i hp
      obtain rfl := some.inj hstep
      exact .fail (fun e he => by cases hp.symm.trans he) (.inl rfl)
    · rename_i hp
      split at hstep
      · obtain rfl := some.inj hstep
        exact .fail (fun e he => by cases hp.symm.trans he) (.inl rfl)
      · cases hstep
    · rename_i hp
      obtain rfl := some.inj hstep
      exact .fail (fun e he => by cases hp.symm.trans he) (.inl rfl)
    · cases hstep
  | complete =>
    simp only [step] at hstep
    split at hstep
    · rename_i hp
      obtain rfl := some.inj hstep
      exact .complete hp
    · cases hstep
  | changeState =>
    simp only [step] at hstep
    split at hstep
    · rename_i e hp
      split at hstep
      · rename_i hwriteOnly
        obtain ⟨state, hstate, rfl⟩ := map_eq_some_iff.mp hstep
        exact .changeState hp hwriteOnly hstate
      · cases hstep
    · cases hstep

lemma inv_step (h : job.Inv r) (hallowed : job.Allowed r a) (hstep : job.step r a = some r') : job.Inv r' := by
  cases moves_of_step hstep with
  | insert vids seen after => exact h.insert hallowed.1 hallowed.2
  | openScan hp => exact h.openScan hp
  | deliver hp hvid => exact h.deliver hp hvid
  | beginBatch hp hpending => exact h.beginBatch hp hpending
  | commit hp => exact h.commit hp
  | conflict hp hrun =>
    exact h.fail nofun (fun e he => nomatch hp.symm.trans he) fun _ => h.conflict hp hrun
  | fail hrunning he =>
    rcases he with rfl | rfl
    · exact h.fail nofun hrunning nofun
    · exact h.fail nofun hrunning nofun
  | complete hp => exact h.complete hp
  | changeState hp hwriteOnly hstate => exact h.changeState hp hstate

lemma inv_of_reaches (hempty : s (.vidxTableById job.indexId) = SortedMap.empty)
    (h : Reaches job.step job.Allowed (.start s) r) : job.Inv r :=
  h.invariant job.Inv (inv_start hempty) fun _ _ _ hinv hallowed hstep =>
    inv_step hinv hallowed hstep

/-! ### The backfill ends -/

/-- A bound on the steps that the backfill has still to take, if no writer commits. -/
def remaining (job : VertexIndexJob) (r : BackfillRun) : Nat :=
  match r.phase with
  | .opening => 3 * (job.live r.store).length + 4
  | .scanning todo pending => 3 * todo.length + 2 * pending.length + 3
  | .flushing todo pending _ => 3 * todo.length + 2 * pending.length + 2
  | .ended _ => if r.state = .WRITE_ONLY then 1 else 0

lemma remaining_ended {r : BackfillRun} (hp : r.phase = .ended e) : job.remaining r ≤ 1 := by
  unfold remaining
  rw [hp]
  dsimp only
  split <;> omega

lemma one_lt_remaining (hrunning : ∀ e, r.phase ≠ .ended e) : 1 < job.remaining r := by
  unfold remaining
  cases hp : r.phase with
  | ended e => exact absurd hp (hrunning e)
  | _ => dsimp only; omega

lemma remaining_lt (h : job.Inv r) (ha : ¬ a.IsInsert)
    (hstep : job.step r a = some r') : job.remaining r' < job.remaining r := by
  have hended (e : BackfillEnd) (hrunning : ∀ e, r.phase ≠ .ended e) :
      job.remaining { r with phase := .ended e } < job.remaining r :=
    lt_of_le_of_lt (remaining_ended rfl) (one_lt_remaining hrunning)
  cases moves_of_step hstep with
  | insert vids seen after => exact absurd trivial ha
  | openScan hp =>
    have hdedup := (dedup_sublist (job.live r.store)).length_le
    simp only [remaining, hp, length_nil]
    omega
  | @deliver todo pending hp vid hvid =>
    have herase := length_erase_of_mem hvid
    have hpos := length_pos_of_mem hvid
    simp only [remaining, hp, length_append, length_singleton]
    omega
  | beginBatch hp hpending =>
    simp only [remaining, hp]
    omega
  | @commit todo pending snapshot hp =>
    have hphase := h.phase
    rw [PhaseOk, hp] at hphase
    have hpos := length_pos_iff.mpr hphase.1
    simp only [remaining, hp, length_nil]
    omega
  | conflict hp hrun => exact hended .conflict fun e he => nomatch hp.symm.trans he
  | @fail _ e hrunning he => exact hended e hrunning
  | complete hp => exact hended .filled fun e he => nomatch hp.symm.trans he
  | @changeState e hp hwriteOnly state hstate =>
    have hne : state ≠ .WRITE_ONLY := by
      rintro rfl
      cases e with
      | _ => exact nomatch hstate
    simp only [remaining, hp, if_pos hwriteOnly, if_neg hne]
    omega

/-- As long as the index is `WRITE_ONLY` and nothing was thrown, the backfill can go on. -/
theorem exists_step (job : VertexIndexJob) (hstate : r.state = .WRITE_ONLY) (hthrew : r.phase ≠ .ended .threw) :
    ∃ a, ¬ a.IsInsert ∧ (job.step r a).isSome := by
  cases hp : r.phase with
  | opening =>
    refine ⟨.openScan, not_false, ?_⟩
    simp [step, hp]
  | scanning todo pending =>
    by_cases hdue : job.FlushDue todo pending
    · refine ⟨.beginBatch, not_false, ?_⟩
      simp [step, hp, hdue]
    · -- the batch has room, so the cursor goes on, or all is filed
      rw [FlushDue, not_and_or, not_or, not_not, not_le] at hdue
      cases todo with
      | nil =>
        obtain rfl : pending = [] := by
          rcases hdue with hempty | ⟨-, hne⟩
          · exact hempty
          · exact absurd rfl hne
        refine ⟨.complete, not_false, ?_⟩
        simp [step, hp]
      | cons vid rest =>
        have hroom : pending = [] ∨ pending.length < job.batchRows := hdue.imp_right And.left
        refine ⟨.deliver vid, not_false, ?_⟩
        simp [step, hp, hroom]
  | flushing todo pending snapshot =>
    refine ⟨.commitBatch, not_false, ?_⟩
    simp only [step, hp]
    split <;> rfl
  | ended e =>
    refine ⟨.changeState, not_false, ?_⟩
    cases e with
    | threw => exact absurd hp hthrew
    | _ => simp [step, hp, hstate, BackfillEnd.indexState]

/-! ### How the index ends -/

lemma Inv.of_error (h : job.Inv r) (hstate : r.state = .ERROR) : r.phase = .ended .refused ∨ job.Conflict r := by
  rcases h.state with hwriteOnly | ⟨e, hp, he⟩
  · exact nomatch hwriteOnly.symm.trans hstate
  rw [hstate] at he
  cases e with
  | refused => exact .inl hp
  | conflict =>
    have hphase := h.phase
    rw [PhaseOk, hp] at hphase
    exact .inr (hphase rfl)
  | filled => exact nomatch he
  | threw => exact nomatch he

lemma Inv.exactContent (h : job.Inv r) (hstate : r.state = .PUBLIC) :
    ExactContent (r.store (.vidxTableById job.indexId)) (job.tuple r.store) := by
  have hp : r.phase = .ended .filled := by
    rcases h.state with hwriteOnly | ⟨e, hp, he⟩
    · exact nomatch hwriteOnly.symm.trans hstate
    rw [hstate] at he
    cases e with
    | filled => exact hp
    | _ => exact nomatch he
  apply ExactContent.of_entries
  · intro key hkey
    obtain ⟨vid, vs, hvs, hkey, -⟩ := h.content key hkey
    exact ⟨vid, vs, hvs, hkey⟩
  · intro vid vs hvs
    have hfiled : ¬ r.phase.Failed := by
      rw [hp]
      exact fun hfailed => hfailed rfl
    rcases h.covered hfiled vid vs hvs with hentry | hawaited
    · exact hentry
    · rw [hp] at hawaited
      exact absurd hawaited not_mem_nil

/-- After the index was registered, in any interleaving of its backfill with transactions
that insert vertices and maintain the index: the index is in `ERROR` only if there was no
session or transaction for the backfill, two live vertices are taken for one another, a weak
accessor finds two values at a live vertex, or the scan came upon a vertex that a writer had
indexed; an index in `PUBLIC` is exact.  The backfill takes finitely many steps, and when it
can take none the index is `PUBLIC` or in `ERROR`, unless an exception was thrown. -/
theorem backfill_among_writers {capacity : UInt32} {batchRows : Nat} {r₀ : DdlRun}
    (hddl : Reaches (DdlRun.step capacity batchRows) IdLeft initial r₀)
    (hid : job.indexId = r₀.schema.nextIds.nextIndexId)
    (hrun : Reaches job.step job.Allowed (.start r₀.store) r) :
    (r.state = .ERROR → r.phase = .ended .refused ∨ job.Conflict r) ∧
    (r.state = .PUBLIC → ExactContent (r.store (.vidxTableById job.indexId)) (job.tuple r.store)) ∧
    (∀ a r', ¬ a.IsInsert → job.step r a = some r' → job.remaining r' < job.remaining r) ∧
    ((∀ a, ¬ a.IsInsert → job.step r a = none) → r.state = .PUBLIC ∨ r.state = .ERROR ∨
      r.phase = .ended .threw) := by
  have hempty : r₀.store (.vidxTableById job.indexId) = SortedMap.empty := by
    rw [hid]
    exact (DdlRun.inv_of_reaches hddl).unused _ (UInt32.lt_irrefl _)
  have hinv := inv_of_reaches hempty hrun
  refine ⟨hinv.of_error, hinv.exactContent, fun a r' ha hstep => remaining_lt hinv ha hstep, ?_⟩
  intro hhalted
  by_cases hthrew : r.phase = .ended .threw
  · exact .inr (.inr hthrew)
  rcases hinv.state with hstate | ⟨e, -, he⟩
  · obtain ⟨a, ha, hsome⟩ := exists_step job hstate hthrew
    rw [hhalted a ha] at hsome
    exact nomatch hsome
  · cases e with
    | filled => exact .inl (some.inj he).symm
    | conflict => exact .inr (.inl (some.inj he).symm)
    | refused => exact .inr (.inl (some.inj he).symm)
    | threw => exact nomatch he

/-! ### Two indexes on a label -/

/-- `CREATE UNIQUE INDEX i FOR (n:L) ON (n.p)`, after it has registered the index. -/
def uniqueOnL (r : DdlRun) : Option VertexIndexJob := do
  let d ← r.schema.getLabel "L"
  let accessors := [⟨false, INVALID_LABEL_ID, "p"⟩]
  let schema := withVertexIndex r.schema d "i" accessors true
  let resolved ← (accessors.mapM (resolveAccessor schema "i")).toOption
  return ⟨schema, r.schema.nextIds.nextIndexId, true, resolved, d.id, 2⟩

lemma indexId_uniqueOnL {r : DdlRun} (h : uniqueOnL r = some job) : job.indexId = r.schema.nextIds.nextIndexId := by
  obtain ⟨d, -, hd⟩ := bind_eq_some_iff.mp h
  obtain ⟨resolved, -, hjob⟩ := bind_eq_some_iff.mp hd
  obtain rfl := some.inj hjob
  rfl

lemma allowed_of_not_insert (ha : ¬ a.IsInsert) : job.Allowed r a := by
  cases a with
  | insert vids seen after => exact absurd trivial ha
  | _ => trivial

/-- A run of steps of the backfill. -/
theorem reaches_of_backfill {actions : List BackfillAction}
    (h : runGuarded job.step (fun _ a => ¬ a.IsInsert) r actions = some r') :
    Reaches job.step job.Allowed r r' :=
  (reaches_of_runGuarded _ h).mono fun _ _ ha => allowed_of_not_insert ha

/-- The labels `L` and `M`, both with the property `p`. -/
def labelsWithP : List DdlAction :=
  [.register (.createLabel "L" [⟨0, "p", .INT64, false, none⟩] [] false),
    .register (.createLabel "M" [⟨0, "p", .INT64, false, none⟩] [] false)]

/-- A bulk load inserts vertex 2 with `p = 6`, next to a batch that files vertex 1. -/
def loadSecond (job : VertexIndexJob) (s : Store) : Store :=
  (runOperator (runStatement 4 (edgeLabelDefs job.schema) (planned job.schema)
    [.batchInsertVertices [⟨2, [(1, [some (.int64 6)])]⟩]]) s).2

lemma inserts_second (hlive : job.live s = [1]) (hlive' : job.live s' = [1, 2])
    {vs vs' : List PropertyValue} (htuple : job.tuple s 1 = some vs) (htuple' : job.tuple s' 1 = some vs)
    (hsecond : job.tuple s' 2 = some vs')
    (hentries : (s (.vidxTableById job.indexId)).entries = [])
    (hentries' : (s' (.vidxTableById job.indexId)).entries = [(encodeIndexKey vs' 2, [])]) :
    job.Inserts s [2] s' where
  nodup := nodup_singleton 2
  fresh vid hvid := by
    rw [mem_singleton.mp hvid, hlive]
    decide
  live vid := by
    rw [hlive, hlive']
    simp
  kept vid hvid := by
    rw [hlive, mem_singleton] at hvid
    rw [hvid, (tuple_eq_some_iff.mp htuple).2, (tuple_eq_some_iff.mp htuple').2]
  entries key := by
    have hsome (t : Table) : (t.get key).isSome ↔ ∃ value, (key, value) ∈ t.entries := by
      simp only [SortedMap.mem_entries_iff, isSome_iff_exists]
    show ((s' (.vidxTableById job.indexId)).get key).isSome ↔ ((s (.vidxTableById job.indexId)).get key).isSome ∨ _
    rw [hsome, hsome, hentries, hentries']
    simp [hsecond]

theorem backfill_among_writers_bulkLoad : ∃ r₀ job r, Reaches (DdlRun.step 4 2) IdLeft initial r₀ ∧
      uniqueOnL r₀ = some job ∧ Reaches job.step job.Allowed (.start r₀.store) r ∧
      r.written = [2] ∧ r.state = .PUBLIC ∧
      (r.store (.vidxTableById job.indexId)).entries =
        [(encodeIndexKey [.int64 5] 1, []), (encodeIndexKey [.int64 6] 2, [])] ∧
      ExactContent (r.store (.vidxTableById job.indexId)) (job.tuple r.store) := by
  have hcomputed : ((runGuarded (DdlRun.step 4 2) IdLeft initial
        (labelsWithP ++ [.write [.mergeVertex 1 [(1, [some (.int64 5)])]]])).bind fun r₀ =>
      (uniqueOnL r₀).bind fun job =>
        (runGuarded job.step (fun _ a => ¬ a.IsInsert) (.start r₀.store)
            [.openScan, .deliver 1, .beginBatch]).bind fun r =>
          ((job.step r (.insert [2] [] (loadSecond job r.store))).bind fun r₁ =>
            (runGuarded job.step (fun _ a => ¬ a.IsInsert) r₁ [.commitBatch, .complete, .changeState])).map fun r₂ =>
            (job.live r.store = [1] ∧ job.live (loadSecond job r.store) = [1, 2] ∧
              job.tuple r.store 1 = some [.int64 5] ∧
              job.tuple (loadSecond job r.store) 1 = some [.int64 5] ∧
              job.tuple (loadSecond job r.store) 2 = some [.int64 6] ∧
              (r.store (.vidxTableById job.indexId)).entries = [] ∧
              (loadSecond job r.store (.vidxTableById job.indexId)).entries = [(encodeIndexKey [.int64 6] 2, [])] ∧
              r₂.written = [2] ∧ r₂.state = .PUBLIC ∧
              (r₂.store (.vidxTableById job.indexId)).entries =
                [(encodeIndexKey [.int64 5] 1, []), (encodeIndexKey [.int64 6] 2, [])] : Bool)) =
      some true := by decide +kernel
  obtain ⟨r₀, hr₀, hcomputed⟩ := bind_eq_some_iff.mp hcomputed
  obtain ⟨job, hjob, hcomputed⟩ := bind_eq_some_iff.mp hcomputed
  obtain ⟨r, hr, hcomputed⟩ := bind_eq_some_iff.mp hcomputed
  obtain ⟨r₂, hr₂, hfacts⟩ := map_eq_some_iff.mp hcomputed
  obtain ⟨r₁, hr₁, hr₂⟩ := bind_eq_some_iff.mp hr₂
  obtain ⟨hlive, hlive', htuple, htuple', hsecond, hentries, hentries', hwritten, hstate, hfiled⟩ :=
    of_decide_eq_true hfacts
  have hddl : Reaches (DdlRun.step 4 2) IdLeft initial r₀ := reaches_of_runGuarded _ hr₀
  have hinserts : job.Allowed r (.insert [2] [] (loadSecond job r.store)) :=
    ⟨inserts_second hlive hlive' htuple htuple' hsecond hentries hentries', nil_sublist _⟩
  have hrun : Reaches job.step job.Allowed (.start r₀.store) r₂ :=
    ((reaches_of_backfill hr).next hinserts hr₁).trans (reaches_of_backfill hr₂)
  have hexact := (backfill_among_writers hddl (indexId_uniqueOnL hjob) hrun).2.1 hstate
  exact ⟨r₀, job, r₂, hddl, hjob, hrun, hwritten, hstate, hfiled, hexact⟩

/-- A vertex with `p = 5` under `L` and `p = 6` under `M`: the index ends in `ERROR`, and no
other vertex is live. -/
theorem disagreement_ends_in_error : ∃ r₀ job r, Reaches (DdlRun.step 4 2) IdLeft initial r₀ ∧
      uniqueOnL r₀ = some job ∧ Reaches job.step job.Allowed (.start r₀.store) r ∧
      r.written = [] ∧ r.state = .ERROR ∧
      ¬ ∃ vid vid', vid ≠ vid' ∧ vid ∈ job.live r.store ∧ vid' ∈ job.live r.store := by
  have hcomputed : ((runGuarded (DdlRun.step 4 2) IdLeft initial (labelsWithP ++
        [.write [.mergeVertex 1 [(1, [some (.int64 5)]), (2, [some (.int64 6)])]]])).bind fun r₀ =>
      (uniqueOnL r₀).bind fun job =>
        (runGuarded job.step (fun _ a => ¬ a.IsInsert) (.start r₀.store)
            [.openScan, .deliver 1, .beginBatch, .commitBatch, .changeState]).map fun r =>
          (r.written = [] ∧ r.state = .ERROR ∧ job.live r.store = [1] : Bool)) =
      some true := by decide +kernel
  obtain ⟨r₀, hr₀, hcomputed⟩ := bind_eq_some_iff.mp hcomputed
  obtain ⟨job, hjob, hcomputed⟩ := bind_eq_some_iff.mp hcomputed
  obtain ⟨r, hr, hfacts⟩ := map_eq_some_iff.mp hcomputed
  obtain ⟨hwritten, hstate, hlive⟩ := of_decide_eq_true hfacts
  refine ⟨r₀, job, r, reaches_of_runGuarded _ hr₀, hjob, reaches_of_backfill hr, hwritten, hstate, ?_⟩
  rintro ⟨vid, vid', hne, hvid, hvid'⟩
  rw [hlive, mem_singleton] at hvid hvid'
  exact hne (hvid.trans hvid'.symm)

end VertexIndexJob

end Eugraph.Query
