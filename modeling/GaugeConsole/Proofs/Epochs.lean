import GaugeConsole.Proofs.Agreement

/-!
# What the calls on a name tell

A name can be taken up and given up many times. All that a registry holds under it is told by the
calls since it was last taken up (`Registry.run_follows`): the tags of the first of them are the
label names, and of the calls that mean one series the last one says whether it is there and with
which value. Only calls that came to something count.
-/

namespace GaugeConsole

/-- Whether a call failed because something is not there. -/
def notFound {α : Type} : Except RegistryError α → Bool
  | .error (.metricNotFound _) | .error (.seriesNotFound _) => true
  | _ => false

/-- A call on a name that came to something. -/
structure Deed where
  tags : Tags
  /-- The value that was set, or nothing if the series was removed. -/
  value : Option Binary64
  /-- Whether the name was not held before. -/
  opens : Bool

namespace Deed

/-- The deeds since the last one that opens. -/
def epoch : List Deed → List Deed
  | [] => []
  | d :: ds => if d.opens && !ds.any (·.opens) then d :: ds else epoch ds

/-- The label names that an epoch began with. -/
def labels (ds : List Deed) : List String :=
  ((epoch ds).head?.map fun d => sortTexts d.tags.keys).getD []

/-- The label values that tags mean. -/
def meant (labels : List String) (tags : Tags) : List String :=
  labels.map fun key => (tags.get? key).getD ""

/-- The last deed of the epoch on a series. -/
def last? (ds : List Deed) (t : List String) : Option Deed :=
  (epoch ds).reverse.find? fun d => meant (labels ds) d.tags = t

/-- The value of a series, if the last deed on it set one. -/
def value? (ds : List Deed) (t : List String) : Option Binary64 := (last? ds t).bind (·.value)

variable {ds : List Deed} {d : Deed} {t : List String}

theorem epoch_append_opens (h : d.opens = true) : ∀ ds : List Deed, epoch (ds ++ [d]) = [d]
  | [] => by simp [epoch, h]
  | d' :: ds => by
    rw [List.cons_append, epoch, epoch_append_opens h ds, if_neg (by simp [h])]

theorem epoch_append (h : d.opens = false) :
    ∀ {ds : List Deed}, epoch ds ≠ [] → epoch (ds ++ [d]) = epoch ds ++ [d]
  | [], hne => by simp [epoch] at hne
  | d' :: ds, hne => by
    have hany : (ds ++ [d]).any (·.opens) = ds.any (·.opens) := by simp [h]
    rw [List.cons_append, epoch, hany]
    rw [epoch] at hne ⊢
    split_ifs at hne ⊢
    · rfl
    · exact epoch_append h hne

theorem labels_append_opens (h : d.opens = true) : labels (ds ++ [d]) = sortTexts d.tags.keys := by
  simp [labels, epoch_append_opens h]

theorem labels_append (h : d.opens = false) (hne : epoch ds ≠ []) :
    labels (ds ++ [d]) = labels ds := by
  rw [labels, epoch_append h hne, List.head?_append_of_ne_nil _ hne, labels]

theorem value?_append_opens (h : d.opens = true) :
    value? (ds ++ [d]) t = if meant (sortTexts d.tags.keys) d.tags = t then d.value else none := by
  rw [value?, last?, epoch_append_opens h, labels_append_opens h]
  split_ifs with ht <;> simp [ht]

theorem value?_append (h : d.opens = false) (hne : epoch ds ≠ []) :
    value? (ds ++ [d]) t = if meant (labels ds) d.tags = t then d.value else value? ds t := by
  rw [value?, last?, epoch_append h hne, labels_append h hne, List.reverse_append]
  split_ifs with ht <;> simp [ht, value?, last?]

end Deed

/-- The only series of a family is the one without which it is empty. -/
theorem GaugeFamily.isSome_get?_of_last (f : GaugeFamily) {tags : Tags} {v : Binary64}
    (hv : f.series.get? (f.resolve tags) = some v) (he : (f.drop tags).series.isEmpty)
    (t : List String) : (f.series.get? t).isSome ↔ t = f.resolve tags := by
  have hnone := OrderedMap.get?_erase.symm.trans (OrderedMap.isEmpty_iff.1 he t)
  split_ifs at hnone with ht
  · simp [ht, hv]
  · simp [ht, hnone]

namespace Registry

/-- What a call comes to on a name: an add that does not fail sets a series, and a remove that
finds one under a name that is held removes it. -/
def deedsOf (r : Registry) (n : String) : Call → List Deed
  | .add m v =>
    if m.name = n ∧ (r.add m v).2.isOk then [⟨m.tags, some v, (r.family? n).isNone⟩] else []
  | .remove m =>
    if m.name = n ∧ (r.family? n).isSome ∧ ¬ notFound (r.remove m).2 then [⟨m.tags, none, false⟩]
    else []
  | _ => []

/-- The deeds on a name in the course of calls. -/
def deeds (n : String) : Registry → List Call → List Deed
  | _, [] => []
  | r, c :: cs => r.deedsOf n c ++ deeds n (r.after c) cs

variable {r : Registry} {n : String} {call : Call} {before after : Option GaugeFamily}
  {ds es : List Deed}

/-- What a call can do to the family that is held under a name, and the deed that it is then. -/
inductive Effect (n : String) :
    Call → Option GaugeFamily → Option GaugeFamily → List Deed → Prop
  | rest {call : Call} {family : Option GaugeFamily} : Effect n call family family []
  | write {call : Call} {f g : GaugeFamily} {tags : Tags} {value : Option Binary64} :
      g.labelNames = f.labelNames →
      (∀ t, g.series.get? t = if t = f.resolve tags then value else f.series.get? t) →
      Effect n call (some f) (some g) [⟨tags, value, false⟩]
  | last {m : Metric} {f : GaugeFamily} : m.name = n →
      (∀ t, (f.series.get? t).isSome ↔ t = f.resolve m.tags) →
      Effect n (.remove m) (some f) none [⟨m.tags, none, false⟩]
  | begin {call : Call} {g : GaugeFamily} {tags : Tags} {v : Binary64} :
      g.labelNames = sortTexts tags.keys →
      (∀ t, g.series.get? t = if t = g.resolve tags then some v else none) →
      Effect n call none (some g) [⟨tags, some v, true⟩]

theorem Orderly.family?_add_of_ne (ho : r.Orderly) {m : Metric} (v : Binary64)
    (hne : n ≠ m.name) : (r.add m v).1.family? n = r.family? n := by
  obtain ⟨f, hf, heq⟩ | ⟨e, -, -, heq⟩ | ⟨s, -, -, heq⟩ := add_cases r m v <;> rw [heq]
  · exact family?_hold.trans (if_neg (((ho hf).put m.tags v).named.symm ▸ hne))
  · exact family?_hold.trans (if_neg hne)

theorem Orderly.family?_remove_of_ne (ho : r.Orderly) {m : Metric} (hne : n ≠ m.name) :
    (r.remove m).1.family? n = r.family? n := by
  obtain ⟨-, heq⟩ | ⟨f, hf, hcases⟩ := remove_cases r m
  · rw [heq]
  obtain ⟨-, heq⟩ | ⟨v, -, he, heq⟩ | ⟨v, -, -, -, heq⟩ | ⟨v, s, -, -, -, heq⟩ := hcases <;>
    rw [heq]
  · exact family?_hold.trans (if_neg (((ho hf).drop he).named.symm ▸ hne))
  · exact family?_forget.trans (if_neg hne)
  · exact family?_forget.trans (if_neg hne)

theorem Orderly.effect_add (ho : r.Orderly) (n : String) (m : Metric) (v : Binary64) :
    Effect n (.add m v) (r.family? n) ((r.add m v).1.family? n) (r.deedsOf n (.add m v)) := by
  by_cases hm : m.name = n
  · subst hm
    obtain ⟨f, hf, heq⟩ | ⟨e, -, -, heq⟩ | ⟨s, hf, -, heq⟩ := add_cases r m v <;>
      simp only [deedsOf, heq]
    · have hg := ((ho hf).put m.tags v).named
      rw [family?_hold, if_pos hg.symm, hf]
      exact .write rfl fun t => OrderedMap.get?_insert
    · simpa [Except.isOk, Except.toBool] using Effect.rest
    · rw [family?_hold, if_pos (proper_familyFor r m v).named.symm, hf]
      exact .begin rfl fun t => OrderedMap.get?_insert
  · simp only [deedsOf, hm, false_and, ↓reduceIte, ho.family?_add_of_ne v (Ne.symm hm)]
    exact .rest

theorem Orderly.effect_remove (ho : r.Orderly) (n : String) (m : Metric) :
    Effect n (.remove m) (r.family? n) ((r.remove m).1.family? n) (r.deedsOf n (.remove m)) := by
  by_cases hm : m.name = n
  · subst hm
    obtain ⟨hf, heq⟩ | ⟨f, hf, hcases⟩ := remove_cases r m
    · simp only [deedsOf, heq, hf]
      simpa using Effect.rest
    obtain ⟨-, heq⟩ | ⟨v, -, he, heq⟩ | ⟨v, hv, he, -, heq⟩ | ⟨v, s, hv, he, -, heq⟩ := hcases <;>
      simp only [deedsOf, heq, hf, notFound]
    · simpa using Effect.rest
    · rw [family?_hold, if_pos ((ho hf).drop he).named.symm]
      exact .write rfl fun t => OrderedMap.get?_erase
    · rw [family?_forget, if_pos rfl]
      exact .last rfl (f.isSome_get?_of_last hv he)
    · rw [family?_withSurface, family?_forget, if_pos rfl]
      exact .last rfl (f.isSome_get?_of_last hv he)
  · simp only [deedsOf, hm, false_and, ↓reduceIte, ho.family?_remove_of_ne (Ne.symm hm)]
    exact .rest

theorem Orderly.effect (ho : r.Orderly) (n : String) :
    ∀ call : Call, Effect n call (r.family? n) ((r.after call).family? n) (r.deedsOf n call)
  | .add m v => ho.effect_add n m v
  | .remove m => ho.effect_remove n m
  | .get _ | .register _ | .unregister _ => .rest

/-- What is held under a name is what deeds tell of it. -/
def Told (ds : List Deed) : Option GaugeFamily → Prop
  | none => ∀ t, Deed.value? ds t = none
  | some f => Deed.epoch ds ≠ [] ∧ f.labelNames = Deed.labels ds
    ∧ ∀ t, f.series.get? t = Deed.value? ds t

theorem Effect.told (h : Effect n call before after es) (ht : Told ds before) :
    Told (ds ++ es) after := by
  cases h with
  | rest => rwa [List.append_nil]
  | @write _ f g tags value hlabels hvalue =>
    obtain ⟨hne, hl, hv⟩ := ht
    refine ⟨?_, ?_, fun t => ?_⟩
    · rw [Deed.epoch_append rfl hne]
      exact List.append_ne_nil_of_right_ne_nil _ (List.cons_ne_nil _ _)
    · rw [Deed.labels_append rfl hne, hlabels, hl]
    · rw [Deed.value?_append rfl hne, hvalue t, ← hl, ← hv t]
      exact if_congr eq_comm rfl rfl
  | @last m f hm hlast =>
    obtain ⟨hne, hl, hv⟩ := ht
    intro t
    rw [Deed.value?_append rfl hne, ← hl, ← hv t]
    split_ifs with hmeant
    · rfl
    · exact Option.not_isSome_iff_eq_none.1 fun hsome => hmeant ((hlast t).1 hsome).symm
  | @begin _ g tags v hlabels hvalue =>
    refine ⟨?_, ?_, fun t => ?_⟩
    · rw [Deed.epoch_append_opens rfl]
      exact List.cons_ne_nil _ _
    · rw [Deed.labels_append_opens rfl, hlabels]
    · rw [Deed.value?_append_opens rfl, hvalue t, ← hlabels]
      exact if_congr eq_comm rfl rfl

theorem told_run (n : String) :
    ∀ (calls : List Call) {r : Registry} {ds : List Deed}, r.Orderly → Told ds (r.family? n) →
      Told (ds ++ deeds n r calls) ((r.run calls).family? n)
  | [], _, _, _, h => by rwa [deeds, List.append_nil]
  | c :: cs, _, _, ho, h => by
    rw [deeds, ← List.append_assoc]
    exact told_run n cs (ho.after c) ((ho.effect n c).told h)

/-- A call on a family that is held leaves it with its label names, or removes its last series. -/
theorem Effect.lasting {f : GaugeFamily} (h : Effect n call (some f) after es) :
    (∃ g, after = some g ∧ g.labelNames = f.labelNames)
      ∨ after = none ∧ ∃ m, call = .remove m ∧ m.name = n
        ∧ ∀ t, (f.series.get? t).isSome ↔ t = f.resolve m.tags := by
  cases h with
  | rest => exact .inl ⟨f, rfl, rfl⟩
  | write hlabels _ => exact .inl ⟨_, rfl, hlabels⟩
  | last hm hlast => exact .inr ⟨rfl, _, rfl, hm, hlast⟩

/-- Whether a name is held, its label names, its series and what every metric of that name reads
as are what the deeds on it tell. -/
structure Follows (n : String) (ds : List Deed) (r : Registry) : Prop where
  labels : ∀ f, r.family? n = some f → f.labelNames = Deed.labels ds
  series : ∀ f, r.family? n = some f → ∀ t, f.series.get? t = Deed.value? ds t
  held : (r.family? n).isSome ↔ ∃ t, (Deed.value? ds t).isSome
  get : ∀ m, m.name = n → r.get m =
    if (r.family? n).isSome then
      .ok ((Deed.value? ds (Deed.meant (Deed.labels ds) m.tags)).getD .zero)
    else .error (.metricNotFound n)

theorem Told.follows (ho : r.Orderly) (h : Told ds (r.family? n)) : Follows n ds r := by
  rcases hf : r.family? n with _ | f <;> rw [hf] at h
  · refine ⟨?_, ?_, ?_, ?_⟩
    · simp [hf]
    · simp [hf]
    · simp [hf, h _]
    · rintro m rfl
      simp [Registry.get, hf]
  obtain ⟨-, hlabels, hvalue⟩ := h
  refine ⟨?_, ?_, ?_, ?_⟩
  · intro g hg
    obtain rfl := Option.some.inj (hf.symm.trans hg)
    exact hlabels
  · intro g hg
    obtain rfl := Option.some.inj (hf.symm.trans hg)
    exact hvalue
  · simp only [hf, ← hvalue, Option.isSome_some, true_iff]
    by_contra hnone
    have hempty : f.series.isEmpty = true := by
      refine OrderedMap.isEmpty_iff.2 fun t => ?_
      simpa using not_exists.1 hnone t
    rw [(ho hf).inhabited] at hempty
    contradiction
  · rintro m rfl
    simp only [Registry.get, hf, Option.isSome_some, ↓reduceIte, ← hvalue, ← hlabels]
    rfl

/-- After any calls a name is as the deeds on it tell. Its label names last until a remove takes out
its only series, and to get a metric changes nothing. -/
theorem run_follows (s : Surface) (calls : List Call) (n : String) :
    Follows n (deeds n { surface := s } calls) (run { surface := s } calls)
      ∧ (∀ f c, (run { surface := s } calls).family? n = some f →
        (∃ g, ((run { surface := s } calls).after c).family? n = some g
            ∧ g.labelNames = f.labelNames)
          ∨ ((run { surface := s } calls).after c).family? n = none
            ∧ ∃ m, c = .remove m ∧ m.name = n
              ∧ ∀ t, (f.series.get? t).isSome ↔ t = f.resolve m.tags)
      ∧ ∀ m, (run { surface := s } calls).after (.get m) = run { surface := s } calls := by
  have ho := (orderly_start s).run calls
  have htold : Told (deeds n { surface := s } calls) ((run { surface := s } calls).family? n) :=
    @told_run n calls _ [] (orderly_start s) fun _ => rfl
  refine ⟨htold.follows ho, fun f c hf => ?_, fun _ => rfl⟩
  have heffect := ho.effect n c
  rw [hf] at heffect
  exact heffect.lasting

-- A name that was given up can be taken up again with other tags.
example :
    let calls : List Call := [.add ⟨"x", .ofList [("a", "1")]⟩ .zero,
      .remove ⟨"x", .ofList [("a", "1")]⟩, .add ⟨"x", .ofList [("b", "2")]⟩ .zero]
    Deed.labels (deeds "x" {} calls) = ["b"]
      ∧ Deed.value? (deeds "x" {} calls) ["2"] = some .zero := by
  decide +kernel

end Registry

end GaugeConsole
