import GaugeConsole.Proofs.Requests

/-!
# Clients with series of their own

Clients whose series are their own do not disturb each other, although they share the families: the
last remove of one client can end a family that another one is about to begin again. In whatever
way the requests are interleaved, each of them succeeds, a client gets what it set itself, and in
the end there is what each client would have left alone (`Registry.run_clients`).
-/

namespace GaugeConsole

theorem OrderedMap.perm_iff {κ ν : Type} [DecidableEq κ] {m m' : OrderedMap κ ν} :
    m.entries.Perm m'.entries ↔ ∀ k, m.get? k = m'.get? k := by
  constructor
  · intro hperm k
    ext v
    rw [← mem_entries_iff, ← mem_entries_iff, hperm.mem_iff]
  · intro hget
    refine (List.perm_ext_iff_of_nodup m.nodup.of_map m'.nodup.of_map).2 fun (k, v) => ?_
    rw [mem_entries_iff, mem_entries_iff, hget]

namespace Metric

variable {a b : Metric}

/-- Two metrics are one series: they have the same name and the same tags, in whatever order. -/
def Same (a b : Metric) : Prop := a.name = b.name ∧ a.tags.entries.Perm b.tags.entries

instance : Decidable (a.Same b) := inferInstanceAs (Decidable (_ ∧ _))

/-- The label values of a series, if the label names of the family are its keys. -/
def labelValues (m : Metric) : List String := Deed.meant (sortTexts m.tags.keys) m.tags

theorem labelNames_congr (hkeys : ∀ k, k ∈ a.tags.keys ↔ k ∈ b.tags.keys) :
    sortTexts a.tags.keys = sortTexts b.tags.keys :=
  sortTexts_congr a.tags.nodup b.tags.nodup hkeys

/-- Among metrics of one name and with the same keys, the label values tell the series. -/
theorem same_iff (hname : a.name = b.name) (hkeys : ∀ k, k ∈ a.tags.keys ↔ k ∈ b.tags.keys) :
    a.Same b ↔ a.labelValues = b.labelValues := by
  rw [Same, OrderedMap.perm_iff, labelValues, labelValues, labelNames_congr hkeys, Deed.meant,
    Deed.meant, List.map_inj_left]
  refine ⟨fun h k _ => by rw [h.2 k], fun h => ⟨hname, fun k => ?_⟩⟩
  have hsome : (a.tags.get? k).isSome ↔ (b.tags.get? k).isSome := by
    rw [← OrderedMap.mem_keys_iff, ← OrderedMap.mem_keys_iff, hkeys]
  by_cases hk : k ∈ b.tags.keys
  · have hb := OrderedMap.mem_keys_iff.1 hk
    obtain ⟨v, hv⟩ := Option.isSome_iff_exists.1 (hsome.2 hb)
    obtain ⟨w, hw⟩ := Option.isSome_iff_exists.1 hb
    have heq := h k (List.mem_mergeSort.2 hk)
    rw [hv, hw, Option.getD_some, Option.getD_some] at heq
    rw [hv, hw, heq]
  · have hb : b.tags.get? k = none := by simpa [OrderedMap.mem_keys_iff] using hk
    have ha : a.tags.get? k = none := by simpa [hb] using hsome
    rw [ha, hb]

end Metric

namespace Request

def isAdd : Request → Bool
  | add _ _ => true
  | _ => false

/-- What a request writes to the series of its metric. -/
def written? : Request → Option (Option Binary64)
  | add _ v => some (some v)
  | get _ => none
  | remove _ => some none

def due (value : Option Binary64) : Request → Option Binary64
  | get _ => value
  | _ => none

end Request

/-- The value that requests leave a series: that of the last add, if there was no remove since. -/
def standing (qs : List Request) (m : Metric) : Option Binary64 :=
  qs.foldl (fun value q => if q.metric.Same m then q.written?.getD value else value) none

theorem standing_concat {qs : List Request} {q : Request} {m : Metric} :
    standing (qs ++ [q]) m
      = if q.metric.Same m then q.written?.getD (standing qs m) else standing qs m :=
  List.foldl_append

namespace GaugeFamily

def value? (held : Option GaugeFamily) (t : List String) : Option Binary64 :=
  held.bind (·.series.get? t)

theorem resolve_eq_labelValues {f : GaugeFamily} {m : Metric}
    (hf : f.labelNames = sortTexts m.tags.keys) : f.resolve m.tags = m.labelValues := by
  rw [resolve, hf]
  rfl

end GaugeFamily

namespace Request

open GaugeFamily

/-- A request succeeds and writes to its own series alone. -/
structure Succeeds (q : Request) (held : Option GaugeFamily) (reply : Answer × Option GaugeFamily) :
    Prop where
  result : reply.1.result = .ok (q.due (value? held q.metric.labelValues))
  labels : ∀ f, reply.2 = some f → f.labelNames = sortTexts q.metric.tags.keys
  values : ∀ t, value? reply.2 t
    = if t = q.metric.labelValues then q.written?.getD (value? held t) else value? held t

variable {m : Metric} {f : GaugeFamily}

theorem succeeds_add {held : Option GaugeFamily} {v : Binary64}
    (hfit : ∀ f, held = some f → f.labelNames = sortTexts m.tags.keys) :
    (add m v).Succeeds held ((add m v).reply none held) := by
  rcases held with _ | f
  · refine ⟨rfl, fun f hf => ?_, fun t => OrderedMap.get?_insert⟩
    obtain rfl := Option.some.inj hf
    rfl
  · have hf := hfit f rfl
    refine ⟨rfl, fun g hg => ?_, fun t => ?_⟩
    · obtain rfl := Option.some.inj hg
      exact hf
    · simp only [reply, metric, ← resolve_eq_labelValues hf]
      exact OrderedMap.get?_insert

theorem succeeds_get {v : Binary64} (hf : f.labelNames = sortTexts m.tags.keys)
    (hv : f.series.get? m.labelValues = some v) :
    (get m).Succeeds (some f) ((get m).reply none (some f)) := by
  refine ⟨?_, fun g hg => ?_, fun t => (ite_self _).symm⟩
  · simp [reply, Answer.value, due, value?, metric, GaugeFamily.read, resolve_eq_labelValues hf, hv]
  · obtain rfl := Option.some.inj hg
    exact hf

theorem succeeds_remove {v : Binary64} (hf : f.labelNames = sortTexts m.tags.keys)
    (hv : f.series.get? m.labelValues = some v) :
    (remove m).Succeeds (some f) ((remove m).reply none (some f)) := by
  have hres := resolve_eq_labelValues hf
  have hdrop : ∀ t, (f.drop m.tags).series.get? t
      = if t = m.labelValues then none else f.series.get? t := fun t => by
    rw [← hres]
    exact OrderedMap.get?_erase
  rcases he : (f.drop m.tags).series.isEmpty with _ | _
  · have hreply : (remove m).reply none (some f) = (.done, some (f.drop m.tags)) := by
      simp [reply, hres, hv, he]
    rw [hreply]
    refine ⟨rfl, fun g hg => ?_, hdrop⟩
    obtain rfl := Option.some.inj hg
    exact hf
  · -- the series was the last one, so there are no others whose values could get lost
    have hreply : (remove m).reply none (some f) = (.noted (.unregistered m.name), none) := by
      simp [reply, hres, hv, he]
    rw [hreply]
    refine ⟨rfl, fun g hg => ?_, fun t => ?_⟩
    · cases hg
    · exact (OrderedMap.isEmpty_iff.1 he t).symm.trans (hdrop t)

/-- A request succeeds if its series is there, or if it adds it. -/
theorem succeeds_reply {q : Request} {held : Option GaugeFamily}
    (hfit : ∀ f, held = some f → f.labelNames = sortTexts q.metric.tags.keys)
    (hgiven : q.isAdd ∨ (value? held q.metric.labelValues).isSome) :
    q.Succeeds held (q.reply none held) := by
  cases q with
  | add m v => exact succeeds_add hfit
  | get m =>
    obtain ⟨v, hv⟩ := Option.isSome_iff_exists.1 (hgiven.resolve_left (by simp [isAdd]))
    obtain ⟨f, rfl, hf⟩ := Option.bind_eq_some_iff.1 hv
    exact succeeds_get (hfit f rfl) hf
  | remove m =>
    obtain ⟨v, hv⟩ := Option.isSome_iff_exists.1 (hgiven.resolve_left (by simp [isAdd]))
    obtain ⟨f, rfl, hf⟩ := Option.bind_eq_some_iff.1 hv
    exact succeeds_remove (hfit f rfl) hf

end Request

namespace Registry

variable {κ : Type} {r r' : Registry}

def labelNames? (r : Registry) (n : String) : Option (List String) :=
  (r.gauge? n).map (·.labelNames)

def value? (r : Registry) (n : String) (t : List String) : Option Binary64 :=
  GaugeFamily.value? (r.gauge? n) t

/-- A registry holds what several others hold together. -/
structure Joins (r : Registry) (parts : κ → Registry) : Prop where
  names : ∀ n, n ∈ r.names ↔ ∃ i, n ∈ (parts i).names
  labelNames : ∀ n labels, r.labelNames? n = some labels
    ↔ ∃ i, (parts i).labelNames? n = some labels
  values : ∀ n t v, r.value? n t = some v ↔ ∃ i, (parts i).value? n t = some v

theorem mem_names_iff {n : String} : n ∈ r.names ↔ ∃ labels, r.labelNames? n = some labels := by
  rw [names, sortTexts, List.mem_mergeSort, OrderedMap.mem_keys_iff,
    ← Option.isSome_iff_exists, labelNames?, gauge?, Option.isSome_map, Option.isSome_map]
  rfl

theorem Joins.eq {parts : κ → Registry} (h : r.Joins parts) (h' : r'.Joins parts) :
    r.names = r'.names ∧ (∀ n, r.labelNames? n = r'.labelNames? n)
      ∧ ∀ n t, r.value? n t = r'.value? n t := by
  refine ⟨?_, fun n => ?_, fun n t => ?_⟩
  · refine sortTexts_congr r.families.nodup r'.families.nodup fun n => ?_
    have hnames := (h.names n).trans (h'.names n).symm
    simpa only [Registry.names, sortTexts, List.mem_mergeSort] using hnames
  · ext labels
    rw [h.labelNames, h'.labelNames]
  · ext v
    rw [h.values, h'.values]

end Registry

section Clients

variable {κ : Type} {program : κ → List Request} {others : List Outsider}

/-- Clients keep to themselves: whoever uses a name uses it with the same keys, nobody uses the
series of somebody else, and who gets or removes a series has added it and not removed it since. The
names are ones that can be registered. -/
structure Disciplined (others : List Outsider) (program : κ → List Request) : Prop where
  keys : ∀ i, ∀ p ∈ program i, ∀ j, ∀ q ∈ program j, p.name = q.name →
    ∀ k, k ∈ p.metric.tags.keys ↔ k ∈ q.metric.tags.keys
  apart : ∀ i, ∀ p ∈ program i, ∀ j, ∀ q ∈ program j, p.metric.Same q.metric → i = j
  given : ∀ i pre q post, program i = pre ++ q :: post →
    q.isAdd ∨ (standing pre q.metric).isSome
  named : ∀ i, ∀ q ∈ program i, q.name ≠ ""
  free : ∀ i, ∀ q ∈ program i, ∀ c ∈ others, q.name ∉ c.1.claims

theorem Disciplined.refusal?_eq_none (hd : Disciplined others program) {i : κ} {q : Request}
    (hq : q ∈ program i) : (Surface.ofOutsiders others).refusal? q.name = none := by
  refine Option.eq_none_iff_forall_ne_some.2 fun e he => ?_
  rw [Surface.refusal?_eq_some_iff (k := 0), Surface.register_shell_eq_error_iff] at he
  obtain ⟨hn, -⟩ | ⟨-, ⟨d, hdmem, hclaim⟩, -⟩ := he
  · exact hd.named i q hq hn
  · obtain ⟨c, hc, rfl⟩ := List.mem_map.1 hdmem
    exact hd.free i q hq c hc hclaim

variable [DecidableEq κ]

/-- The requests of one client, in their order. -/
def own (i : κ) (steps : List (κ × Request)) : List Request :=
  (steps.filter (·.1 = i)).map Prod.snd

@[simp] theorem own_append {i : κ} {as bs : List (κ × Request)} :
    own i (as ++ bs) = own i as ++ own i bs := by
  simp [own]

@[simp] theorem own_singleton {i j : κ} {q : Request} :
    own j [(i, q)] = if i = j then [q] else [] := by
  by_cases hij : i = j <;> simp [own, hij]

theorem own_solo {i j : κ} {qs : List Request} :
    own j (qs.map (i, ·)) = if i = j then qs else [] := by
  by_cases hij : i = j <;> simp [own, hij, List.filter_map, Function.comp_def]

/-- Each client makes its requests one after the other, whatever the others do in between. -/
def Interleaves (steps : List (κ × Request)) (program : κ → List Request) : Prop :=
  ∀ i, own i steps = program i

namespace Registry

variable {r : Registry} {steps : List (κ × Request)}

/-- After some steps of the clients, the registry holds the series that they added and did not
remove. -/
structure Keeps (others : List Outsider) (program : κ → List Request)
    (steps : List (κ × Request)) (r : Registry) : Prop where
  beside : Beside others r
  labels : ∀ i, ∀ q ∈ program i, ∀ f, r.gauge? q.name = some f →
    f.labelNames = sortTexts q.metric.tags.keys
  values : ∀ i, ∀ q ∈ program i,
    r.value? q.name q.metric.labelValues = standing (own i steps) q.metric
  used : ∀ n t, (r.value? n t).isSome →
    ∃ i, ∃ q ∈ program i, q.name = n ∧ q.metric.labelValues = t

theorem keeps_start (others : List Outsider) (program : κ → List Request) :
    Keeps others program [] (among others) where
  beside := .start others
  labels _ _ _ _ hf := by cases hf
  values _ _ _ := rfl
  used _ _ hv := by cases hv

namespace Keeps

variable {i : κ} {q : Request}

theorem succeeds (h : Keeps others program steps r) (hd : Disciplined others program)
    (hq : own i steps ++ [q] <+: program i) :
    q.Succeeds (r.gauge? q.name) (r.answer q, (r.after q.call).gauge? q.name) := by
  obtain ⟨post, hpost⟩ := hq
  have hmem : q ∈ program i := hpost ▸ by simp
  have hgiven : q.isAdd ∨ (r.value? q.name q.metric.labelValues).isSome := by
    rw [h.values i q hmem]
    exact hd.given i _ q post (by rw [← hpost, List.append_assoc]; rfl)
  rw [← h.beside.reply_eq q, hd.refusal?_eq_none hmem]
  exact Request.succeeds_reply (h.labels i q hmem) hgiven

theorem result_eq (h : Keeps others program steps r) (hd : Disciplined others program)
    (hq : own i steps ++ [q] <+: program i) :
    (r.answer q).result = .ok (q.due (standing (own i steps) q.metric)) := by
  rw [← h.values i q (hq.subset (by simp))]
  exact (h.succeeds hd hq).result

theorem value?_after (h : Keeps others program steps r) (hd : Disciplined others program)
    (hq : own i steps ++ [q] <+: program i) (n : String) (t : List String) :
    (r.after q.call).value? n t = if n = q.name ∧ t = q.metric.labelValues
      then q.written?.getD (r.value? n t) else r.value? n t := by
  by_cases hn : n = q.name
  · subst hn
    simp only [true_and]
    exact (h.succeeds hd hq).values t
  · rw [value?, h.beside.gauge?_after_of_ne hn, if_neg fun hc => hn hc.1]
    rfl

theorem step (h : Keeps others program steps r) (hd : Disciplined others program)
    (hq : own i steps ++ [q] <+: program i) :
    Keeps others program (steps ++ [(i, q)]) (r.after q.call) := by
  have hmem : q ∈ program i := hq.subset (by simp)
  refine ⟨h.beside.after q, fun j p hp f hf => ?_, fun j p hp => ?_, fun n t hv => ?_⟩
  · by_cases hn : p.name = q.name
    · rw [hn] at hf
      rw [(h.succeeds hd hq).labels f hf]
      exact Metric.labelNames_congr (hd.keys i q hmem j p hp hn.symm)
    · rw [h.beside.gauge?_after_of_ne hn] at hf
      exact h.labels j p hp f hf
  · rw [h.value?_after hd hq, own_append, own_singleton, h.values j p hp]
    by_cases hsame : q.metric.Same p.metric
    · -- only the client itself has requests on the series
      obtain rfl := hd.apart i q hmem j p hp hsame
      have hkeys := hd.keys i q hmem i p hp hsame.1
      have hvalues := (Metric.same_iff hsame.1 hkeys).1 hsame
      rw [if_pos ⟨hsame.1.symm, hvalues.symm⟩, if_pos rfl, standing_concat, if_pos hsame]
    · have hother : ¬ (p.name = q.name ∧ p.metric.labelValues = q.metric.labelValues) := by
        rintro ⟨hn, hvalues⟩
        have hkeys := hd.keys i q hmem j p hp hn.symm
        exact hsame ((Metric.same_iff hn.symm hkeys).2 hvalues.symm)
      rw [if_neg hother]
      split_ifs
      · rw [standing_concat, if_neg hsame]
      · rw [List.append_nil]
  · rw [h.value?_after hd hq] at hv
    split_ifs at hv with hc
    · exact ⟨i, q, hmem, hc.1.symm, hc.2.symm⟩
    · exact h.used n t hv

theorem run (hd : Disciplined others program) (steps : List (κ × Request))
    (hsteps : ∀ i, own i steps <+: program i) :
    Keeps others program steps
      (served (among others) (steps.map Prod.snd)) := by
  induction steps using List.reverseRecOn with
  | nil => exact keeps_start others program
  | append_singleton steps x ih =>
    obtain ⟨i, q⟩ := x
    simp only [own_append] at hsteps
    have hq := hsteps i
    rw [own_singleton, if_pos rfl] at hq
    have hkeeps := ih fun j => (List.prefix_append _ _).trans (hsteps j)
    rw [List.map_append, served, List.map_append, run_append]
    exact hkeeps.step hd hq

theorem value?_eq_some_iff (h : Keeps others program steps r) {n : String} {t : List String}
    {v : Binary64} :
    r.value? n t = some v ↔ ∃ i, ∃ q ∈ program i, (q.name = n ∧ q.metric.labelValues = t)
      ∧ standing (own i steps) q.metric = some v := by
  constructor
  · intro hv
    obtain ⟨i, q, hq, rfl, rfl⟩ := h.used n t (by rw [hv]; rfl)
    exact ⟨i, q, hq, ⟨rfl, rfl⟩, h.values i q hq ▸ hv⟩
  · rintro ⟨i, q, hq, ⟨rfl, rfl⟩, hv⟩
    exact (h.values i q hq).trans hv

theorem labelNames?_eq_some_iff (h : Keeps others program steps r) {n : String}
    {labels : List String} :
    r.labelNames? n = some labels ↔ ∃ i, ∃ q ∈ program i,
      (q.name = n ∧ sortTexts q.metric.tags.keys = labels)
        ∧ (standing (own i steps) q.metric).isSome := by
  rw [labelNames?, Option.map_eq_some_iff]
  constructor
  · rintro ⟨f, hf, rfl⟩
    obtain ⟨g, hg, rfl⟩ := Option.map_eq_some_iff.1 hf
    -- no family is held without a series, and somebody added this one
    have hseries := Bool.eq_false_iff.1 (h.beside.orderly hg).inhabited
    rw [ne_eq, OrderedMap.isEmpty_iff, not_forall] at hseries
    obtain ⟨t, ht⟩ := hseries
    obtain ⟨v, hv⟩ := Option.ne_none_iff_exists'.1 ht
    have hvalue : r.value? n t = some v := by rw [value?, hf]; exact hv
    obtain ⟨i, q, hq, ⟨rfl, rfl⟩, hstands⟩ := h.value?_eq_some_iff.1 hvalue
    exact ⟨i, q, hq, ⟨rfl, (h.labels i q hq _ hf).symm⟩, by rw [hstands]; rfl⟩
  · rintro ⟨i, q, hq, ⟨rfl, rfl⟩, hstands⟩
    obtain ⟨v, hv⟩ := Option.isSome_iff_exists.1 hstands
    obtain ⟨f, hf, -⟩ := Option.bind_eq_some_iff.1 ((h.values i q hq).trans hv)
    exact ⟨f, hf, h.labels i q hq f hf⟩

end Keeps

theorem exists_solo_iff {A : Request → Prop} {P : Option Binary64 → Prop} (hnone : ¬ P none) :
    (∃ i j, ∃ q ∈ program j, A q ∧ P (standing (own j ((program i).map (i, ·))) q.metric))
      ↔ ∃ i, ∃ q ∈ program i, A q ∧ P (standing (program i) q.metric) := by
  simp only [own_solo]
  constructor
  · rintro ⟨i, j, q, hq, ha, hp⟩
    split_ifs at hp with hij
    · subst hij
      exact ⟨i, q, hq, ha, hp⟩
    · exact absurd hp hnone
  · rintro ⟨i, q, hq, ha, hp⟩
    exact ⟨i, i, q, hq, ha, by rwa [if_pos rfl]⟩

/-- When the clients are done there is what each of them would have left alone. -/
theorem joins_served (hd : Disciplined others program) (hsteps : Interleaves steps program) :
    (served (among others) (steps.map Prod.snd)).Joins
      fun i => served (among others) (program i) := by
  have h := Keeps.run hd steps fun i => (hsteps i).symm ▸ List.prefix_refl _
  have halone : ∀ i, Keeps others program ((program i).map (i, ·))
      (served (among others) (program i)) := by
    intro i
    have hrun := Keeps.run hd ((program i).map (i, ·)) fun j => by
      rw [own_solo]
      split_ifs with hij
      · exact hij ▸ List.prefix_refl _
      · exact List.nil_prefix
    simpa [Function.comp_def] using hrun
  have hlabels : ∀ n labels,
      (served (among others) (steps.map Prod.snd)).labelNames? n = some labels
        ↔ ∃ i, (served (among others) (program i)).labelNames? n
          = some labels := by
    intro n labels
    simp only [h.labelNames?_eq_some_iff, (halone _).labelNames?_eq_some_iff, hsteps _]
    exact (exists_solo_iff (P := fun value => value.isSome) (by simp)).symm
  refine ⟨fun n => ?_, hlabels, fun n t v => ?_⟩
  · simp only [mem_names_iff, hlabels]
    exact exists_comm
  · simp only [h.value?_eq_some_iff, (halone _).value?_eq_some_iff, hsteps _]
    exact (exists_solo_iff (P := fun value => value = some v) (by simp)).symm

/-- In whatever way the requests of disciplined clients are interleaved, none of them fails, and who
gets a series is answered the value that he added last. In the end there are the families, the
series and the values that each client would have left alone, and no others, the same in every
interleaving. -/
theorem run_clients (hd : Disciplined others program) (hsteps : Interleaves steps program) :
    (∀ pre i q post, steps = pre ++ (i, q) :: post →
        let answer := (served (among others) (pre.map Prod.snd)).answer q
        (∀ e, answer.result ≠ .error e)
          ∧ ∀ m, q = .get m →
            ∃ v, standing (own i pre) m = some v ∧ answer.result = .ok (some v))
      ∧ (served (among others) (steps.map Prod.snd)).Joins
        (fun i => served (among others) (program i))
      ∧ (∀ i, ∀ q ∈ program i, (served (among others) (steps.map Prod.snd)).value? q.name
        q.metric.labelValues = standing (program i) q.metric)
      ∧ ∀ steps', Interleaves steps' program →
        let r := served (among others) (steps.map Prod.snd)
        let r' := served (among others) (steps'.map Prod.snd)
        r.names = r'.names ∧ (∀ n, r.labelNames? n = r'.labelNames? n)
          ∧ ∀ n t, r.value? n t = r'.value? n t := by
  have hjoins := joins_served hd hsteps
  refine ⟨fun pre i q post hpre => ?_, hjoins, fun i q hq => ?_, fun steps' hsteps' => ?_⟩
  · have hown : ∀ j, own j pre ++ own j ((i, q) :: post) = program j := fun j => by
      rw [← own_append, ← hpre, hsteps]
    have hkeeps := Keeps.run hd pre fun j => hown j ▸ List.prefix_append _ _
    have hprogram : program i = own i pre ++ q :: own i post := by
      rw [← hown, ← List.singleton_append, own_append, own_singleton, if_pos rfl]
      rfl
    have hresult := hkeeps.result_eq hd (i := i) (q := q)
      ⟨own i post, by rw [hprogram, List.append_assoc]; rfl⟩
    refine ⟨fun e he => ?_, ?_⟩
    · rw [hresult] at he
      cases he
    · rintro m rfl
      obtain ⟨v, hv⟩ := Option.isSome_iff_exists.1
        ((hd.given i _ _ _ hprogram).resolve_left (by simp [Request.isAdd]))
      exact ⟨v, hv, by rw [hresult, hv]; rfl⟩
  · have hkeeps := Keeps.run hd steps fun i => (hsteps i).symm ▸ List.prefix_refl _
    rw [hkeeps.values i q hq, hsteps]
  · exact hjoins.eq (joins_served hd hsteps')

end Registry

end Clients

/-- Two clients share a family, which goes away under one of them and is begun again. -/
theorem Registry.run_clients_begun_again :
    let others : List Outsider := [⟨.ofForeign .counter "up" "", id⟩]
    let x : Metric := ⟨"x", .ofList [("a", "1"), ("b", "")]⟩
    let y : Metric := ⟨"x", .ofList [("b", "2"), ("a", "1")]⟩
    let y' : Metric := ⟨"x", .ofList [("a", "1"), ("b", "2")]⟩
    let program : Bool → List Request
      | false => [.add x (.ofNat 1), .get x, .remove x]
      | true => [.add y .zero, .remove y', .add y (.ofNat 3), .get y']
    let before : List (Bool × Request) := [(false, .add x (.ofNat 1)), (true, .add y .zero),
      (false, .get x), (true, .remove y'), (false, .remove x), (true, .add y (.ofNat 3))]
    Disciplined others program ∧ Interleaves (before ++ [(true, .get y')]) program
      ∧ (served (among others) ((before.take 5).map Prod.snd)).labelNames? "x" = none
      ∧ ((served (among others) (before.map Prod.snd)).answer (.get y')).result
        = .ok (some (.ofNat 3)) := by
  intro others x y y' program before
  have hkeys : ∀ i, ∀ q ∈ program i, q.metric.tags.keys.Perm ["a", "b"] := by decide +kernel
  have hgiven : ∀ i, ∀ n : Fin (program i).length, ((program i)[n]).isAdd
      ∨ (standing ((program i).take n) ((program i)[n]).metric).isSome := by decide +kernel
  have hdisciplined : Disciplined others program := by
    refine ⟨fun i p hp j q hq _ k => ?_, by decide +kernel, fun i pre q post hsplit => ?_,
      by decide +kernel, by decide +kernel⟩
    · rw [(hkeys i p hp).mem_iff, (hkeys j q hq).mem_iff]
    · have hlt : pre.length < (program i).length := by simp [hsplit]
      simpa [hsplit] using hgiven i ⟨pre.length, hlt⟩
  have hsteps : Interleaves (before ++ [(true, .get y')]) program := by
    unfold Interleaves
    decide +kernel
  have hgone : (served (among others) ((before.take 5).map Prod.snd)).labelNames? "x" = none := by
    have hkeeps := Keeps.run hdisciplined (before.take 5) (by decide +kernel)
    have hnone : ∀ i, ∀ q ∈ program i, standing (own i (before.take 5)) q.metric = none := by
      decide +kernel
    refine Option.eq_none_iff_forall_ne_some.2 fun labels hlabels => ?_
    obtain ⟨i, q, hq, -, hstands⟩ := hkeeps.labelNames?_eq_some_iff.1 hlabels
    simp [hnone i q hq] at hstands
  obtain ⟨hanswers, -⟩ := run_clients hdisciplined hsteps
  obtain ⟨v, hv, hresult⟩ := (hanswers before true (.get y') [] rfl).2 y' rfl
  have hlast : standing (own true before) y' = some (.ofNat 3) := by decide +kernel
  rw [hlast] at hv
  exact ⟨hdisciplined, hsteps, hgone, hresult.trans (by rw [hv])⟩

end GaugeConsole
