import GaugeConsole.Proofs.Agreement
import GaugeConsole.Proofs.Views
import Mathlib.Data.List.Flatten

/-!
# What is shown

A gauge family shows its series as samples, with nothing left out (`GaugeFamily.Shows`), and from the
labels of a sample one can tell its series. The surface shows what each of its collectors shows,
unless one of them fails (`Registry.snapshot_eq_ok_iff`), and to ask it for one sample is to look
that up (`Registry.sample?_eq_find?`).
-/

namespace GaugeConsole

instance : DecidablePred Collector.IsShell
  | .shell _ _ => .isTrue trivial
  | .self _ _ => .isFalse id
  | .foreign _ _ => .isFalse id
  | .failing _ _ => .isFalse id

namespace Sample

theorem sortedLabels_pairwise {s : Sample} (h : (s.labels.map Prod.fst).Nodup) :
    s.sortedLabels.Pairwise fun a b => a.1 < b.1 :=
  pairwise_mergeSort_lt Prod.fst h

end Sample

theorem Histogram.name_mem_claims {h : Histogram} {name : String} {smp : Sample}
    (hsmp : smp ∈ h.samples name) : smp.name ∈ MetricKind.histogram.claims name := by
  rw [samples, List.mem_append, List.mem_map] at hsmp
  rcases hsmp with ⟨b, -, rfl⟩ | hsmp
  · simp [MetricKind.claims]
  · simp only [List.mem_cons, List.not_mem_nil, or_false] at hsmp
    rcases hsmp with rfl | rfl <;> simp [MetricKind.claims]

/-- A sample is found by its name and its labels, in whatever order these are. -/
theorem Exposition.isSample_iff {n : String} {tags : Tags} {s : Sample}
    (h : (s.labels.map Prod.fst).Nodup) :
    isSample n tags s ↔ s.name = n ∧ s.labels.Perm tags.entries := by
  rw [isSample, Bool.and_eq_true, decide_eq_true_iff, decide_eq_true_iff]
  refine and_congr_right fun _ => ⟨fun heq => ?_, fun hperm => ?_⟩
  · have hsorted : s.sortedLabels.Perm tags.entries := heq ▸ List.mergeSort_perm _ _
    exact (List.mergeSort_perm _ _).symm.trans hsorted
  · refine List.Perm.eq_of_pairwise ?_ (Sample.sortedLabels_pairwise h)
      (Sample.sortedLabels_pairwise tags.nodup) ?_
    · exact fun a b _ _ hab hba => absurd hab hba.asymm
    · exact (List.mergeSort_perm _ _).trans (hperm.trans (List.mergeSort_perm _ _).symm)

namespace GaugeFamily

variable {f : GaugeFamily} {n : String} {t : List String} {tags : Tags}

/-- The samples of a gauge family are its series, all of them and each once, in their order. The
labels of a sample are the label names, each with the label value that stands in its place. -/
structure Shows (f : GaugeFamily) (shown : MetricFamily) : Prop where
  name : shown.name = f.name
  kind : shown.kind = .gauge
  samples : List.Forall₂
    (fun (e : List String × Binary64) (s : Sample) => s.name = f.name
      ∧ s.labels.map Prod.fst = f.labelNames ∧ s.labels.map Prod.snd = e.1 ∧ s.value = e.2)
    f.series.entries shown.samples
  labels : f.labelNames.Nodup
  apart : (shown.samples.map Sample.labels).Nodup

theorem Proper.nodup (h : f.Proper n) : f.labelNames.Nodup := h.sorted.imp fun hlt => ne_of_lt hlt

theorem Proper.unzip (h : f.Proper n) (ht : t ∈ f.series.keys) :
    (f.labelNames.zip t).map Prod.fst = f.labelNames ∧ (f.labelNames.zip t).map Prod.snd = t :=
  ⟨List.map_fst_zip (h.full t ht).ge, List.map_snd_zip (h.full t ht).le⟩

theorem Proper.shows_expose (h : f.Proper n) : f.Shows f.expose where
  name := rfl
  kind := rfl
  samples := by
    rw [expose, List.forall₂_map_right_iff, List.forall₂_same]
    intro e he
    obtain ⟨hfst, hsnd⟩ := h.unzip (List.mem_map_of_mem he)
    exact ⟨rfl, hfst, hsnd, rfl⟩
  labels := h.nodup
  apart := by
    have hkeys : (f.expose.samples.map Sample.labels).map (List.map Prod.snd) = f.series.keys := by
      rw [expose, List.map_map, List.map_map]
      exact List.map_congr_left fun e he => (h.unzip (List.mem_map_of_mem he)).2
    refine .of_map (List.map Prod.snd) ?_
    rw [hkeys]
    exact f.series.nodup

theorem zip_resolve :
    f.labelNames.zip (f.resolve tags) = f.labelNames.map fun k => (k, (tags.get? k).getD "") := by
  have hzip := List.zip_map' (f := id) (g := fun k => (tags.get? k).getD "") (l := f.labelNames)
  rwa [List.map_id] at hzip

/-- Tags whose keys are the label names are the labels of the sample of their series. -/
theorem Proper.perm_resolve (h : f.Proper n) (hkeys : ∀ k, k ∈ tags.keys ↔ k ∈ f.labelNames) :
    (f.labelNames.zip (f.resolve tags)).Perm tags.entries := by
  rw [zip_resolve]
  refine (List.perm_ext_iff_of_nodup (.of_map Prod.fst ?_) tags.nodup.of_map).2 fun (k, v) => ?_
  · simpa [Function.comp_def] using h.nodup
  rw [OrderedMap.mem_entries_iff, List.mem_map]
  constructor
  · rintro ⟨k, hk, heq⟩
    obtain ⟨w, hw⟩ := Option.isSome_iff_exists.1 (OrderedMap.mem_keys_iff.1 ((hkeys k).2 hk))
    cases heq
    rw [hw, Option.getD_some]
  · intro hv
    have hk : k ∈ tags.keys := OrderedMap.mem_keys_iff.2 (by rw [hv]; rfl)
    exact ⟨k, (hkeys k).1 hk, by rw [hv, Option.getD_some]⟩

/-- Tags that are the labels of a series' sample mean that series. -/
theorem Proper.resolve_of_perm (h : f.Proper n) (ht : t ∈ f.series.keys)
    (hperm : (f.labelNames.zip t).Perm tags.entries) : f.resolve tags = t := by
  obtain ⟨hfst, hsnd⟩ := h.unzip ht
  have hvalue : ∀ p ∈ f.labelNames.zip t, (tags.get? p.1).getD "" = p.2 := by
    intro p hp
    rw [OrderedMap.mem_entries_iff.1 (hperm.mem_iff.1 hp), Option.getD_some]
  calc f.resolve tags
      = ((f.labelNames.zip t).map Prod.fst).map fun k => (tags.get? k).getD "" := by
        rw [hfst, resolve]
    _ = (f.labelNames.zip t).map Prod.snd := by
        rw [List.map_map]
        exact List.map_congr_left hvalue
    _ = t := hsnd

end GaugeFamily

namespace Registry

variable {r : Registry} {self : Option SelfMetrics}

/-- What a collector shows, which is nothing if it fails. -/
def shownBy (r : Registry) (self : Option SelfMetrics) (c : Collector) : List MetricFamily :=
  (r.collect self c).toOption.getD []

/-- What all collectors on the surface show, in their order. -/
def shown (r : Registry) (self : Option SelfMetrics) : List MetricFamily :=
  r.surface.collectors.flatMap (r.shownBy self)

/-- What the gauge families on the surface show. -/
def gauges (r : Registry) (self : Option SelfMetrics) : List MetricFamily :=
  (r.surface.collectors.filter (·.IsShell)).flatMap (r.shownBy self)

/-- A collector shows samples only under names that it claims. -/
def Candid (r : Registry) (self : Option SelfMetrics) (c : Collector) : Prop :=
  ∀ family ∈ r.shownBy self c, ∀ smp ∈ family.samples, smp.name ∈ c.claims

theorem candid_self {m : SelfMetrics} {metric : SelfMetric} :
    r.Candid (some m) (.self m.stem metric) := by
  intro family hfamily smp hsmp
  obtain rfl : family = m.expose metric := List.mem_singleton.1 hfamily
  have htally : ∀ {name label : String} {counts : OrderedMap String Nat},
      smp ∈ SelfMetrics.tallySamples name label counts →
        smp.name ∈ MetricKind.counter.claims name := fun h => by
    obtain ⟨e, -, rfl⟩ := List.mem_map.1 h
    simp [MetricKind.claims]
  cases metric with
  | commands => exact htally hsmp
  | commandErrors => exact htally hsmp
  | refreshDuration => exact Histogram.name_mem_claims hsmp
  | families => exact List.mem_singleton.1 hsmp ▸ List.mem_singleton_self _
  | series => exact List.mem_singleton.1 hsmp ▸ List.mem_singleton_self _

theorem candid_ofForeign {kind : MetricKind} {name documentation : String} :
    r.Candid self (.ofForeign kind name documentation) := by
  have hclaims : ∀ {stem : String} {smp : Sample},
      smp ∈ (Collector.exposeForeign kind stem documentation).samples →
        smp.name ∈ kind.claims stem := by
    intro stem smp hsmp
    cases kind with
    | gauge => exact List.mem_singleton.1 hsmp ▸ List.mem_singleton_self _
    | counter =>
      rw [List.mem_singleton.1 hsmp]
      simp [MetricKind.claims]
    | summary =>
      simp only [Collector.exposeForeign, List.mem_cons, List.not_mem_nil, or_false] at hsmp
      rcases hsmp with rfl | rfl <;> simp [MetricKind.claims]
    | histogram => exact Histogram.name_mem_claims hsmp
  intro family hfamily smp hsmp
  obtain rfl := List.mem_singleton.1 hfamily
  exact hclaims hsmp

theorem collect_of_mem {cs : List Collector} (h : ∀ names e, .failing names e ∉ cs)
    {c : Collector} (hc : c ∈ cs) : r.collect self c = .ok (r.shownBy self c) := by
  rcases c with ⟨n, e⟩ | ⟨stem, metric⟩ | ⟨names, shown⟩ | ⟨names, e⟩
  · rfl
  · rfl
  · rfl
  · exact absurd hc (h names e)

theorem mapM_collect :
    ∀ {cs : List Collector}, (∀ names e, .failing names e ∉ cs) →
      cs.mapM (r.collect self) = .ok (cs.map (r.shownBy self))
  | [], _ => rfl
  | c :: cs, h => by
    have hrest := mapM_collect fun names e hn => h names e (List.mem_cons_of_mem c hn)
    rw [List.mapM_cons, collect_of_mem h List.mem_cons_self, hrest]
    rfl

theorem gauges_sublist : (r.gauges self).Sublist (r.shown self) :=
  List.filter_sublist.flatMap _

/-- The surface can be asked unless a collector fails, and then it shows what each of them shows. -/
theorem snapshot_eq_ok_iff {view : List MetricFamily} :
    r.snapshot self = .ok view ↔
      (∀ names e, .failing names e ∉ r.surface.collectors) ∧ view = r.shown self := by
  have hok : (∀ names e, .failing names e ∉ r.surface.collectors) →
      r.snapshot self = .ok (r.shown self) := fun h => by
    rw [snapshot, mapM_collect h]
    rfl
  constructor
  · intro hview
    have hfails : ∀ names e, .failing names e ∉ r.surface.collectors := by
      intro names message hn
      rcases hshown : r.surface.collectors.mapM (r.collect self) with e | shown
      · rw [snapshot, hshown] at hview
        cases hview
      · obtain ⟨fs, -, hfs⟩ := mem_mapM_ok hshown _ hn
        cases hfs
    exact ⟨hfails, Except.ok.inj (hview.symm.trans (hok hfails))⟩
  · rintro ⟨hfails, rfl⟩
    exact hok hfails

theorem go_eq_find? {n : String} {tags : Tags} {cs : List Collector}
    (h : ∀ names e, .failing names e ∉ cs) :
    sample?.go r self n tags cs = .ok (Exposition.find? (cs.flatMap (r.shownBy self)) n tags) := by
  induction cs with
  | nil => rfl
  | cons c cs ih =>
    have hrest := ih fun names e hn => h names e (List.mem_cons_of_mem c hn)
    have hfind : Exposition.find? ((c :: cs).flatMap (r.shownBy self)) n tags
        = (Exposition.find? (r.shownBy self c) n tags).or
          (Exposition.find? (cs.flatMap (r.shownBy self)) n tags) := by
      simp [Exposition.find?, Option.map_or]
    rw [sample?.go, collect_of_mem h List.mem_cons_self, hfind]
    rcases hshown : Exposition.find? (r.shownBy self c) n tags with _ | v
    · simpa [hshown, bind, Except.bind] using hrest
    · simp [hshown, bind, Except.bind, pure, Except.pure]

theorem sample?_eq_find? {n : String} {tags : Tags}
    (h : ∀ names e, .failing names e ∉ r.surface.collectors) :
    r.sample? self n tags = .ok (Exposition.find? (r.shown self) n tags) := go_eq_find? h

end Registry

end GaugeConsole
