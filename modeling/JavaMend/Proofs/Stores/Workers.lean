import JavaMend.Proofs.Normalizing
import Mathlib.Algebra.Order.BigOperators.Group.List
import Mathlib.Algebra.Order.Ring.Nat
import Mathlib.Logic.Function.Basic

/-!
# `Proofs.Stores.Workers` — sources that are worked on at once

The sources of a store are worked on by workers, each source by one of them, and nobody says in which order they are taken
and finished. A worker takes a source, finds out what comes of it, and then replaces its text or reports a failure. Step by
step every source is as it was or as it will be (`sound_step`), so however the work goes on it ends, and with the same store,
counts and failures as if the sources were worked on one after another (`ends_of_job`, `stages_pointwise`).

## Contents
- **Jobs.** `Job`, `Job.after`; `Job.Pointwise`, `Job.Accounts`.
- **Crews.** `Stage`, `Crew`, `Step`, `Reaches`, `Crew.summary`; `Job.Ends`.
- **One step.** `Crew.Sound`; `sound_start`; `sound_take`, `sound_replace`, `sound_report`; `sound_step`.
- **Runs.** `sound_of_reaches`, `steps_eq`, `steps_le`; `done_of_stuck`.
- **The end.** `Job.summary`, `accounts_summary`, `pointwise_mapSources`; `store_of_done`, `summary_of_done`; `ends_of_job`.
- **Stages of a build.** `normalizeStore_eq`, `fixupStore_eq`; `stages_pointwise`.
-/

namespace JavaMend

open Text Java

/-! ## Jobs -/

/-- What is done to a source on its own: its key and its text give a new text or a failure. -/
abbrev Job := Key → Text → Except FormatError Text

namespace Job

/-- The text after the job: the new one, or that from before if the job failed. -/
def after (job : Job) (k : Key) (t : Text) : Text :=
  match job k t with
  | .ok new  => new
  | .error _ => t

/-- What the job fails with on a source. -/
def failure? (job : Job) (e : Key × Text) : Option (Key × FormatError) :=
  match job e.1 e.2 with
  | .ok _      => none
  | .error why => some (e.1, why)

/-- **The second store is the first one with the job done**: the keys, their kinds and the resources are the same, and every
    source has the text after the job. -/
structure Pointwise (job : Job) (s s' : Store) : Prop where
  absent : ∀ k, s'.find? k = none ↔ s.find? k = none
  resource : ∀ k data, s'.find? k = some ⟨k, .resource data⟩ ↔ s.find? k = some ⟨k, .resource data⟩
  source : ∀ k t, s.find? k = some ⟨k, .source t⟩ → s'.find? k = some ⟨k, .source (job.after k t)⟩

/-- **The summary is that of the job**: it counts the sources and those that have another text than before, and lists the
    failures by their keys, one for each source that the job fails on. -/
structure Accounts (job : Job) (s : Store) (r : Normalizer.Summary) : Prop where
  files : r.files = s.sourceCount
  changed : r.changed = s.sources.countP fun e => job.after e.1 e.2 != e.2
  failures : ∀ k why, (k, why) ∈ r.failures ↔ ∃ t, s.find? k = some ⟨k, .source t⟩ ∧ job k t = .error why
  inOrder : r.failures.Pairwise fun a b => a.1.text.before b.1.text = true

end Job

/-! ## Crews -/

/-- How far a source is. -/
inductive Stage where
  | waiting
  /-- A worker has taken it and found out what comes of it. -/
  | taken (result : Except FormatError Text)
  /-- It has another text than before, or not. -/
  | done (changed : Bool)

/-- Workers on a store, with the failures in the order in which they were reported. -/
structure Crew where
  store : Store
  stage : Key → Stage
  failures : List (Key × FormatError)

/-- Nothing is taken yet. -/
def Crew.start (s : Store) : Crew := ⟨s, fun _ => .waiting, []⟩

/-- The source is at another stage. -/
def Crew.mark (c : Crew) (k : Key) (stage : Stage) : Crew := { c with stage := Function.update c.stage k stage }

/-- **What a worker can do next**, with any source. No other worker can do anything with a source that is taken. -/
inductive Step (job : Job) : Crew → Crew → Prop
  | take {c : Crew} {k : Key} {t : Text} : c.store.find? k = some ⟨k, .source t⟩ → c.stage k = .waiting →
      Step job c (c.mark k (.taken (job k t)))
  | replace {c : Crew} {k : Key} {t new : Text} : c.store.find? k = some ⟨k, .source t⟩ →
      c.stage k = .taken (.ok new) →
      Step job c { c.mark k (.done (new != t)) with store := c.store.set k (.source new) }
  | report {c : Crew} {k : Key} {why : FormatError} : c.stage k = .taken (.error why) →
      Step job c { c.mark k (.done false) with failures := c.failures ++ [(k, why)] }

/-- From a store on, so many steps lead to the crew. -/
inductive Reaches (job : Job) (s : Store) : Nat → Crew → Prop
  | start : Reaches job s 0 (.start s)
  | step {m : Nat} {c c' : Crew} : Reaches job s m c → Step job c c' → Reaches job s (m + 1) c'

/-- The source is done and has another text than before. -/
def Stage.isChanged : Stage → Bool
  | done changed => changed
  | _            => false

/-- What the crew has to say of its work: the counts, and the failures in the order of their keys. -/
def Crew.summary (c : Crew) : Normalizer.Summary where
  files := c.store.sources.length
  changed := c.store.sources.countP fun e => (c.stage e.1).isChanged
  failures := c.failures.mergeSort fun a b => atMost a.1.text b.1.text

/-- **However the work goes on, it ends**, after two steps for each source at most, and when no worker can do anything more
    the crew is as said. -/
def Job.Ends (job : Job) (s : Store) (P : Crew → Prop) : Prop :=
  ∀ m c, Reaches job s m c → m ≤ 2 * s.sourceCount ∧ ((∀ c', ¬ Step job c c') → P c)

/-! ## One step -/

/-- The source is done. -/
def Stage.isDone : Stage → Bool
  | done _ => true
  | _      => false

theorem isDone_iff {stage : Stage} : stage.isDone = true ↔ ∃ changed, stage = .done changed := by
  cases stage <;> simp [Stage.isDone]

/-- How many steps it took to get so far. -/
def Stage.rank : Stage → Nat
  | waiting => 0
  | taken _ => 1
  | done _  => 2

/-- **What holds of a crew at any time**: the sources that are done have the text after the job, the others are as they
    were, and the failures are those of the sources that are done, each one once. -/
structure Crew.Sound (job : Job) (s : Store) (c : Crew) : Prop where
  store : ∀ k, c.store.find? k = if (c.stage k).isDone then (s.mapSources job.after).find? k else s.find? k
  taken : ∀ {k r}, c.stage k = .taken r → ∃ t, s.find? k = some ⟨k, .source t⟩ ∧ r = job k t
  done : ∀ {k b}, c.stage k = .done b → ∃ t, s.find? k = some ⟨k, .source t⟩ ∧ b = (job.after k t != t)
  failed : ∀ {k why}, (k, why) ∈ c.failures ↔
    (c.stage k).isDone = true ∧ ∃ t, s.find? k = some ⟨k, .source t⟩ ∧ job k t = .error why
  once : (c.failures.map Prod.fst).Nodup

section
variable {job : Job} {s : Store} {c c' : Crew} {k : Key} {t : Text}

theorem sound_start (job : Job) (s : Store) : (Crew.start s).Sound job s where
  store k := rfl
  taken h := nomatch h
  done h := nomatch h
  failed := by simp [Crew.start, Stage.isDone]
  once := List.nodup_nil

theorem find?_mapSources_source (h : s.find? k = some ⟨k, .source t⟩) :
    (s.mapSources job.after).find? k = some ⟨k, .source (job.after k t)⟩ := by
  rw [Store.find?_mapSources, h]
  rfl

@[simp] theorem Crew.stage_mark (c : Crew) (k l : Key) (stage : Stage) :
    (c.mark k stage).stage l = if l = k then stage else c.stage l := by
  simp [Crew.mark, Function.update_apply]

@[simp] theorem Crew.store_mark (c : Crew) (k : Key) (stage : Stage) : (c.mark k stage).store = c.store := rfl

@[simp] theorem Crew.failures_mark (c : Crew) (k : Key) (stage : Stage) : (c.mark k stage).failures = c.failures := rfl

theorem sound_take (hc : c.Sound job s) (hfind : c.store.find? k = some ⟨k, .source t⟩) (hstage : c.stage k = .waiting) :
    (c.mark k (.taken (job k t))).Sound job s := by
  have hsource : s.find? k = some ⟨k, .source t⟩ := by simpa [hc.store, hstage, Stage.isDone] using hfind
  -- The source is done no more than before.
  have hdone (l : Key) : ((c.mark k (.taken (job k t))).stage l).isDone = (c.stage l).isDone := by
    by_cases hl : l = k <;> simp [hl, hstage, Stage.isDone]
  refine ⟨fun l => by rw [hdone]; exact hc.store l, fun {l r} hl => ?_, fun {l b} hl => ?_, fun {l why} => ?_, hc.once⟩
  · by_cases heq : l = k
    · subst heq
      exact ⟨t, hsource, by simpa using hl.symm⟩
    · exact hc.taken (by simpa [heq] using hl)
  · by_cases heq : l = k
    · simp [heq] at hl
    · exact hc.done (by simpa [heq] using hl)
  · rw [hdone]
    exact hc.failed

/-- When a source is done, the ones that are taken are others. -/
theorem taken_mark_done {b : Bool} (hc : c.Sound job s) {l : Key} {r : Except FormatError Text}
    (hl : (c.mark k (.done b)).stage l = .taken r) : ∃ t, s.find? l = some ⟨l, .source t⟩ ∧ r = job l t := by
  by_cases heq : l = k
  · simp [heq] at hl
  · exact hc.taken (by simpa [heq] using hl)

/-- A source that is done as the job says is as the others that are. -/
theorem done_mark_done {b b' : Bool} (hc : c.Sound job s) (hsource : s.find? k = some ⟨k, .source t⟩)
    (hb : b = (job.after k t != t)) {l : Key} (hl : (c.mark k (.done b)).stage l = .done b') :
    ∃ t, s.find? l = some ⟨l, .source t⟩ ∧ b' = (job.after l t != t) := by
  by_cases heq : l = k
  · subst heq
    exact ⟨t, hsource, by simpa [hb, eq_comm] using hl⟩
  · exact hc.done (by simpa [heq] using hl)

theorem sound_replace {new : Text} (hc : c.Sound job s) (hfind : c.store.find? k = some ⟨k, .source t⟩)
    (hstage : c.stage k = .taken (.ok new)) :
    Crew.Sound job s { c.mark k (.done (new != t)) with store := c.store.set k (.source new) } := by
  obtain ⟨t', hsource, hnew⟩ := hc.taken hstage
  obtain rfl : t' = t := by simpa [hc.store, hstage, Stage.isDone, hsource] using hfind
  have hafter : job.after k t' = new := by simp [Job.after, ← hnew]
  refine ⟨fun l => ?_, taken_mark_done hc, done_mark_done hc hsource (by rw [hafter]), fun {l why} => ?_, hc.once⟩
  · by_cases heq : l = k
    · subst heq
      simp [Stage.isDone, find?_mapSources_source hsource, hafter]
    · simpa [heq, Store.find?_set_of_ne heq] using hc.store l
  · by_cases heq : l = k
    · subst heq
      simp [hc.failed, hstage, Stage.isDone, hsource, ← hnew]
    · simpa [heq] using hc.failed

theorem sound_report {why : FormatError} (hc : c.Sound job s) (hstage : c.stage k = .taken (.error why)) :
    Crew.Sound job s { c.mark k (.done false) with failures := c.failures ++ [(k, why)] } := by
  obtain ⟨t, hsource, hwhy⟩ := hc.taken hstage
  have hafter : job.after k t = t := by simp [Job.after, ← hwhy]
  have hnew (why' : FormatError) : (k, why') ∉ c.failures := by simp [hc.failed, hstage, Stage.isDone]
  refine ⟨fun l => ?_, taken_mark_done hc, done_mark_done hc hsource (by simp [hafter]), fun {l why'} => ?_, ?_⟩
  · by_cases heq : l = k
    · subst heq
      simp [hc.store, hstage, Stage.isDone, find?_mapSources_source hsource, hafter, hsource]
    · simpa [heq] using hc.store l
  · by_cases heq : l = k
    · subst heq
      simp [hnew, Stage.isDone, hsource, ← hwhy, eq_comm]
    · simpa [heq] using hc.failed
  · rw [List.map_append, List.nodup_append]
    refine ⟨hc.once, by simp, ?_⟩
    rintro l hl _ hk rfl
    obtain ⟨⟨l', why'⟩, hmem, rfl⟩ := List.mem_map.1 hl
    obtain rfl : l' = k := by simpa using hk
    exact hnew why' hmem

/-- **Every step keeps a crew sound.** -/
theorem sound_step (hc : c.Sound job s) (h : Step job c c') : c'.Sound job s := by
  cases h with
  | take hfind hstage => exact sound_take hc hfind hstage
  | replace hfind hstage => exact sound_replace hc hfind hstage
  | report hstage => exact sound_report hc hstage

/-! ## Runs -/

theorem sound_of_reaches {m : Nat} (h : Reaches job s m c) : c.Sound job s := by
  induction h with
  | start => exact sound_start job s
  | step _ hstep ih => exact sound_step ih hstep

/-- A step brings one source one stage further. -/
theorem exists_mark_of_step (hc : c.Sound job s) (h : Step job c c') :
    ∃ k stage, c'.stage = Function.update c.stage k stage ∧ stage.rank = (c.stage k).rank + 1 ∧
      ∃ t, s.find? k = some ⟨k, .source t⟩ := by
  cases h with
  | @take k t hfind hstage =>
    exact ⟨k, _, rfl, by simp [hstage, Stage.rank], t, by simpa [hc.store, hstage, Stage.isDone] using hfind⟩
  | @replace k t new hfind hstage =>
    obtain ⟨t', hsource, -⟩ := hc.taken hstage
    exact ⟨k, _, rfl, by simp [hstage, Stage.rank], t', hsource⟩
  | @report k why hstage =>
    obtain ⟨t, hsource, -⟩ := hc.taken hstage
    exact ⟨k, _, rfl, by simp [hstage, Stage.rank], t, hsource⟩

theorem sum_rank_update {keys : List Key} (hkeys : keys.Nodup) (hk : k ∈ keys) (f : Key → Stage) (stage : Stage)
    (h : stage.rank = (f k).rank + 1) :
    (keys.map fun l => (Function.update f k stage l).rank).sum = (keys.map fun l => (f l).rank).sum + 1 := by
  induction keys with
  | nil => cases hk
  | cons l ls ih =>
    obtain ⟨hl, hls⟩ := List.nodup_cons.1 hkeys
    by_cases heq : l = k
    · subst heq
      have hrest : (ls.map fun l' => (Function.update f l stage l').rank) = ls.map fun l' => (f l').rank :=
        List.map_congr_left fun l' hl' => by rw [Function.update_of_ne (ne_of_mem_of_not_mem hl' hl)]
      rw [List.map_cons, List.map_cons, List.sum_cons, List.sum_cons, hrest, Function.update_self, h]
      omega
    · have hmem : k ∈ ls := (List.mem_cons.1 hk).resolve_left (Ne.symm heq)
      rw [List.map_cons, List.map_cons, List.sum_cons, List.sum_cons, ih hls hmem, Function.update_of_ne heq]
      omega

theorem pairwise_sources (s : Store) : s.sources.Pairwise fun a b => a.1.text.before b.1.text = true := by
  refine s.ordered.filterMap _ ?_
  rintro ⟨k, t | _⟩ ⟨k', t' | _⟩ h a ha b hb
  · cases ha
    cases hb
    exact h
  all_goals simp at ha hb

/-- What lies in the order of some texts has each text once. -/
theorem nodup_map_of_before {α : Type} {f : α → Text} {l : List α} (h : l.Pairwise fun a b => (f a).before (f b) = true) :
    (l.map f).Nodup := by
  refine List.pairwise_map.2 (h.imp fun {a b} hab heq => ?_)
  rw [heq, before_irrefl] at hab
  cases hab

theorem nodup_sources (s : Store) : (s.sources.map Prod.fst).Nodup := by
  have h := nodup_map_of_before (pairwise_sources s)
  rw [show s.sources.map (fun a => a.1.text) = (s.sources.map Prod.fst).map Key.text by simp] at h
  exact h.of_map

theorem length_sources (s : Store) : s.sources.length = s.sourceCount := by
  unfold Store.sources Store.sourceCount
  induction s.entries with
  | nil => rfl
  | cons e es ih =>
    obtain ⟨k, t | data⟩ := e <;> simp [Content.isSource, ih]

/-- So many steps were made as the stages of the sources tell. -/
theorem steps_eq {m : Nat} (h : Reaches job s m c) :
    m = ((s.sources.map Prod.fst).map fun k => (c.stage k).rank).sum := by
  induction h with
  | start =>
    refine (List.sum_eq_zero fun x hx => ?_).symm
    obtain ⟨k, -, rfl⟩ := List.mem_map.1 hx
    rfl
  | @step m c c' hreach hstep ih =>
    obtain ⟨k, stage, hmark, hrank, t, hsource⟩ := exists_mark_of_step (sound_of_reaches hreach) hstep
    have hk : k ∈ s.sources.map Prod.fst := List.mem_map.2 ⟨(k, t), Store.mem_sources.2 hsource, rfl⟩
    rw [hmark, sum_rank_update (nodup_sources s) hk _ _ hrank, ← ih]

theorem steps_le {m : Nat} (h : Reaches job s m c) : m ≤ 2 * s.sourceCount := by
  have hle : ∀ x ∈ (s.sources.map Prod.fst).map fun k => (c.stage k).rank, x ≤ 2 := by
    intro x hx
    obtain ⟨k, -, rfl⟩ := List.mem_map.1 hx
    cases c.stage k <;> simp [Stage.rank]
  have hsum := List.sum_le_card_nsmul _ 2 hle
  rw [← steps_eq h, List.length_map, List.length_map, length_sources, Nat.nsmul_eq_mul] at hsum
  omega

/-- When no worker can do anything more, every source is done. -/
theorem done_of_stuck (hc : c.Sound job s) (hstuck : ∀ c', ¬ Step job c c') (h : s.find? k = some ⟨k, .source t⟩) :
    (c.stage k).isDone = true := by
  cases hstage : c.stage k with
  | waiting => exact absurd (.take (by simpa [hc.store, hstage, Stage.isDone] using h) hstage) (hstuck _)
  | taken r =>
    cases r with
    | ok new => exact absurd (.replace (by simpa [hc.store, hstage, Stage.isDone] using h) hstage) (hstuck _)
    | error why => exact absurd (.report hstage) (hstuck _)
  | done b => rfl

/-! ## The end -/

/-- What the job changes on its own, source by source in the order of the keys. -/
def Job.summary (job : Job) (s : Store) : Normalizer.Summary where
  files := s.sources.length
  changed := s.sources.countP fun e => job.after e.1 e.2 != e.2
  failures := s.sources.filterMap job.failure?

theorem failure?_eq_some_iff {e : Key × Text} {why : FormatError} :
    job.failure? e = some (k, why) ↔ e.1 = k ∧ job e.1 e.2 = .error why := by
  unfold Job.failure?
  cases job e.1 e.2 <;> simp

theorem mem_failures_summary {why : FormatError} :
    (k, why) ∈ (job.summary s).failures ↔ ∃ t, s.find? k = some ⟨k, .source t⟩ ∧ job k t = .error why := by
  unfold Job.summary
  constructor
  · intro h
    obtain ⟨⟨l, t⟩, hmem, hl⟩ := List.mem_filterMap.1 h
    obtain ⟨rfl, hwhy⟩ := failure?_eq_some_iff.1 hl
    exact ⟨t, Store.mem_sources.1 hmem, hwhy⟩
  · rintro ⟨t, hfind, hwhy⟩
    exact List.mem_filterMap.2 ⟨(k, t), Store.mem_sources.2 hfind, failure?_eq_some_iff.2 ⟨rfl, hwhy⟩⟩

theorem pairwise_failures (job : Job) (s : Store) :
    (job.summary s).failures.Pairwise fun a b => a.1.text.before b.1.text = true := by
  refine (pairwise_sources s).filterMap _ ?_
  rintro e e' h ⟨k, why⟩ hk ⟨k', why'⟩ hk'
  obtain ⟨rfl, -⟩ := failure?_eq_some_iff.1 hk
  obtain ⟨rfl, -⟩ := failure?_eq_some_iff.1 hk'
  exact h

theorem accounts_summary (job : Job) (s : Store) : job.Accounts s (job.summary s) where
  files := length_sources s
  changed := rfl
  failures _ _ := mem_failures_summary
  inOrder := pairwise_failures job s

theorem pointwise_mapSources (job : Job) (s : Store) : job.Pointwise s (s.mapSources job.after) where
  absent k := by rw [Store.find?_mapSources, Option.map_eq_none_iff]
  resource k data := by
    rw [Store.find?_mapSources]
    cases hfind : s.find? k with
    | none => simp
    | some e =>
      obtain ⟨l, t | data'⟩ := e <;> simp [Content.mapText]
  source k t h := find?_mapSources_source h

/-- **When every source is done, the store is as if the sources were worked on one after another.** -/
theorem store_of_done (hc : c.Sound job s)
    (hdone : ∀ {k t}, s.find? k = some ⟨k, .source t⟩ → (c.stage k).isDone = true) :
    c.store = s.mapSources job.after := by
  refine Store.ext_find? fun k => ?_
  rw [hc.store]
  cases hstage : (c.stage k).isDone with
  | true => rfl
  | false =>
    rw [Store.find?_mapSources]
    cases hfind : s.find? k with
    | none => rfl
    | some e =>
      obtain ⟨l, t | data⟩ := e
      · cases Store.key_of_find? hfind
        rw [hdone hfind] at hstage
        cases hstage
      · rfl

/-- The failures are the same ones in whatever order they were reported. -/
theorem perm_failures (hc : c.Sound job s)
    (hdone : ∀ {k t}, s.find? k = some ⟨k, .source t⟩ → (c.stage k).isDone = true) :
    c.failures.Perm (job.summary s).failures := by
  refine (List.perm_ext_iff_of_nodup hc.once.of_map (nodup_map_of_before (pairwise_failures job s)).of_map).2 ?_
  rintro ⟨k, why⟩
  rw [hc.failed, mem_failures_summary]
  exact ⟨fun h => h.2, fun h => ⟨hdone h.choose_spec.1, h⟩⟩

/-- Sorting puts failures that lie in any order into that of their keys. -/
theorem mergeSort_failures {l l' : List (Key × FormatError)} (hperm : l.Perm l')
    (hl' : l'.Pairwise fun a b => a.1.text.before b.1.text = true) :
    (l.mergeSort fun a b => atMost a.1.text b.1.text) = l' := by
  have hsorted : (l.mergeSort fun a b => atMost a.1.text b.1.text).Pairwise fun a b => atMost a.1.text b.1.text = true :=
    List.pairwise_mergeSort (fun a b e => atMost_trans a.1.text b.1.text e.1.text)
      (fun a b => by simpa using atMost_total a.1.text b.1.text) l
  have hle : l'.Pairwise fun a b => atMost a.1.text b.1.text = true := hl'.imp fun h => atMost_iff.2 (.inr h)
  refine ((List.mergeSort_perm l _).trans hperm).eq_of_pairwise (fun a b ha hb hab hba => ?_) hsorted hle
  -- Two failures of one key are one failure.
  have hmem : a ∈ l' := ((List.mergeSort_perm l _).trans hperm).subset ha
  exact List.inj_on_of_nodup_map (nodup_map_of_before hl') hmem hb (atMost_antisymm hab hba)

theorem sources_mapSources (s : Store) (f : Key → Text → Text) :
    (s.mapSources f).sources = s.sources.map fun e => (e.1, f e.1 e.2) := by
  unfold Store.sources Store.mapSources
  rw [List.filterMap_map, List.map_filterMap]
  refine List.filterMap_congr fun e _ => ?_
  obtain ⟨k, t | data⟩ := e <;> rfl

/-- **When every source is done, the crew tells of its work what the job changes.** -/
theorem summary_of_done (hc : c.Sound job s)
    (hdone : ∀ {k t}, s.find? k = some ⟨k, .source t⟩ → (c.stage k).isDone = true) :
    c.summary = job.summary s := by
  have hsources : c.store.sources = s.sources.map fun e => (e.1, job.after e.1 e.2) := by
    rw [store_of_done hc hdone, sources_mapSources]
  have hchanged (e : Key × Text) (he : e ∈ s.sources) :
      (c.stage e.1).isChanged = true ↔ (job.after e.1 e.2 != e.2) = true := by
    obtain ⟨k, t⟩ := e
    have hfind := Store.mem_sources.1 he
    obtain ⟨b, hstage⟩ := isDone_iff.1 (hdone hfind)
    obtain ⟨t', hfind', hb⟩ := hc.done hstage
    cases hfind.symm.trans hfind'
    rw [hstage, hb]
    rfl
  unfold Crew.summary
  rw [hsources, List.length_map, List.countP_map,
    mergeSort_failures (perm_failures hc hdone) (pairwise_failures job s)]
  refine congrArg (fun n => Normalizer.Summary.mk _ n _) ?_
  exact List.countP_congr hchanged

/-- **However the work goes on, the job is done**: with the store in which every source has the text after the job, and
    with the summary of the job. -/
theorem ends_of_job (job : Job) (s : Store) :
    job.Ends s fun c => c.store = s.mapSources job.after ∧ c.summary = job.summary s := by
  intro m c hreach
  refine ⟨steps_le hreach, fun hstuck => ?_⟩
  have hc := sound_of_reaches hreach
  exact ⟨store_of_done hc (done_of_stuck hc hstuck), summary_of_done hc (done_of_stuck hc hstuck)⟩

end

/-! ## Stages of a build -/

namespace Job

/-- Normalising a text. -/
def normalizing (n : Normalizer) (d : Disk) : Job := fun _ t => ((n.normalize t).on d).1

/-- Fixing up a text, which never fails. -/
def fixing (o : FixupOptions) : Job := fun k t => .ok (fixup o k.fileName t)

end Job

section
variable {n : Normalizer} {f : Text → Except FormatError Text}

theorem normalizing_eq (h : n.formatter = Formatter.ofFunction f) (d : Disk) (k : Key) (t : Text) :
    Job.normalizing n d k t = (n.attemptWith f (k, t)).result := by
  rw [Job.normalizing, n.normalize_ofFunction h]
  rfl

theorem after_normalizing (h : n.formatter = Formatter.ofFunction f) (d : Disk) (k : Key) (t : Text) :
    (Job.normalizing n d).after k t = (n.attemptWith f (k, t)).text := by
  rw [Job.after, normalizing_eq h]
  rfl

/-- Normalising a store one source after another is the job of normalising. -/
theorem normalizeStore_eq (h : n.formatter = Formatter.ofFunction f) (s : Store) (d : Disk) :
    (n.normalizeStore s).run d =
      ((s.mapSources (Job.normalizing n d).after, (Job.normalizing n d).summary s), d) := by
  have hstore : n.normalStore f s = s.mapSources (Job.normalizing n d).after :=
    congrArg s.mapSources (funext fun k => funext fun t => (after_normalizing h d k t).symm)
  have hsummary : Normalizer.summarize (s.sources.map (n.attemptWith f)) = (Job.normalizing n d).summary s := by
    unfold Normalizer.summarize Job.summary
    rw [List.length_map, List.countP_map, List.filterMap_map]
    congr 1
    · refine List.countP_congr fun e _ => ?_
      rw [after_normalizing h]
      rfl
    · refine List.filterMap_congr fun e _ => ?_
      rw [Job.failure?, normalizing_eq h]
      rfl
  rw [n.normalizeStore_ofFunction h, hstore, hsummary]

end

theorem fixupStore_eq (o : FixupOptions) (s : Store) :
    fixupStore o s = (s.mapSources (Job.fixing o).after, ((Job.fixing o).summary s).changed) := rfl

/-- **Normalising and fixing up a store work on every source by itself.** With a formatter that is a function, normalising
    replaces every text by its normal one where that can be formatted and leaves it where not, and counts and lists what
    it did; fixing up replaces every text by the fixed one and counts the others. Workers that take the sources in whatever
    order end with the same. -/
theorem stages_pointwise (constants : ConstantTable) (renames : RenameTable) (f : Text → Except FormatError Text)
    (o : FixupOptions) (s : Store) (d : Disk) :
    let n : Normalizer := ⟨constants, renames, Formatter.ofFunction f⟩
    (∃ after summary, (n.normalizeStore s).run d = ((after, summary), d) ∧
      (Job.normalizing n d).Pointwise s after ∧ (Job.normalizing n d).Accounts s summary ∧
      (Job.normalizing n d).Ends s fun c => c.store = after ∧ c.summary = summary) ∧
    ∃ after changed, fixupStore o s = (after, changed) ∧
      (Job.fixing o).Pointwise s after ∧
      (changed = s.sources.countP fun e => fixup o e.1.fileName e.2 != e.2) ∧
      (Job.fixing o).Ends s fun c => c.store = after ∧ c.summary.changed = changed := by
  intro n
  refine ⟨⟨_, _, normalizeStore_eq rfl s d, pointwise_mapSources _ s, accounts_summary _ s, ends_of_job _ s⟩,
    _, _, fixupStore_eq o s, pointwise_mapSources _ s, rfl, fun m c h => ?_⟩
  obtain ⟨hsteps, hend⟩ := ends_of_job (Job.fixing o) s m c h
  exact ⟨hsteps, fun hstuck => ⟨(hend hstuck).1, congrArg Normalizer.Summary.changed (hend hstuck).2⟩⟩

end JavaMend
