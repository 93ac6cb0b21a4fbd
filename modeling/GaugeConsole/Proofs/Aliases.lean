import GaugeConsole.Proofs.Clients

/-!
# Metrics that mean the same series

A registry does not tell apart two metrics of one name that have the same tags, in whatever order,
or that agree on the label names of the family which is held under the name. A request can be made
with the one or the other: it leaves the same registry and comes to the same, and only where it
fails because a series is not there, it tells of the metric that it was made with. So in a run
requests can be replaced, and nothing later on shows it (`Registry.run_alike`).
-/

namespace GaugeConsole

namespace Metric

variable {a b : Metric}

theorem Same.labelKey_eq (h : a.Same b) : a.labelKey = b.labelKey := by
  have hkeys : sortTexts a.tags.keys = sortTexts b.tags.keys :=
    labelNames_congr fun k => (h.2.map Prod.fst).mem_iff
  simp only [labelKey, sortedTags, hkeys, OrderedMap.perm_iff.1 h.2]

/-- The printed identity does not tell in which order the tags were given. -/
theorem Same.identity_eq (h : a.Same b) : a.identity = b.identity := by
  have hempty : a.tags.isEmpty = b.tags.isEmpty := by
    rw [Bool.eq_iff_iff, OrderedMap.isEmpty_iff, OrderedMap.isEmpty_iff]
    simp only [OrderedMap.perm_iff.1 h.2]
  rw [identity, identity, hempty, h.1, h.labelKey_eq]

end Metric

def Request.on (m : Metric) : Request → Request
  | add _ v => add m v
  | get _ => get m
  | remove _ => remove m

def Call.request? : Call → Option Request
  | .add m v => some (.add m v)
  | .get m => some (.get m)
  | .remove m => some (.remove m)
  | .register _ | .unregister _ => none

theorem Request.request?_call : ∀ q : Request, q.call.request? = some q
  | add _ _ | get _ | remove _ => rfl

/-- What can be read of an answer: its value or the text of its error, and what is in the log. -/
def Answer.printed (a : Answer) : Except String (Option Binary64) × List Record :=
  (a.result.mapError RegistryError.message, a.records)

namespace Registry

variable {r : Registry} {a b m : Metric} {q : Request} {f : GaugeFamily} {cs ds : List Call}

/-- Two metrics mean the same series, the one that is there or the one that there would be. -/
def Alike (r : Registry) (a b : Metric) : Prop :=
  a.name = b.name ∧ (a.tags.entries.Perm b.tags.entries ∨ ∃ f ∈ r.family? a.name,
    ∀ k ∈ f.labelNames, (a.tags.get? k).getD "" = (b.tags.get? k).getD "")

instance : Decidable (r.Alike a b) := inferInstanceAs (Decidable (_ ∧ _))

theorem alike_of_same (h : a.Same b) : r.Alike a b := ⟨h.1, .inl h.2⟩

theorem resolve_congr (h : a.tags.entries.Perm b.tags.entries) :
    f.resolve a.tags = f.resolve b.tags :=
  GaugeFamily.resolve_eq_iff.2 fun k _ => by rw [OrderedMap.perm_iff.1 h]

theorem Alike.resolve_eq (h : r.Alike a b) (hf : r.family? a.name = some f) :
    f.resolve a.tags = f.resolve b.tags := by
  obtain ⟨-, hperm | ⟨g, hg, hagree⟩⟩ := h
  · exact resolve_congr hperm
  · obtain rfl := Option.some.inj (hf.symm.trans hg)
    exact GaugeFamily.resolve_eq_iff.2 hagree

/-- Under a name that is not held, metrics that are alike have the same tags. -/
theorem Alike.perm (h : r.Alike a b) (hf : r.family? a.name = none) :
    a.tags.entries.Perm b.tags.entries := by
  obtain ⟨-, hperm | ⟨g, hg, -⟩⟩ := h
  · exact hperm
  · rw [hf] at hg
    cases hg

theorem familyFor_congr (hname : a.name = b.name) (hperm : a.tags.entries.Perm b.tags.entries) :
    r.familyFor a = r.familyFor b := by
  rw [familyFor, familyFor, hname,
    Metric.labelNames_congr fun k => (hperm.map Prod.fst).mem_iff]

theorem Alike.add_eq (h : r.Alike a b) (v : Binary64) : r.add a v = r.add b v := by
  rcases hf : r.family? a.name with _ | f
  · have hfamily : r.familyFor a = r.familyFor b := familyFor_congr h.1 (h.perm hf)
    have hput : (r.familyFor a).put a.tags v = (r.familyFor b).put b.tags v := by
      rw [hfamily, GaugeFamily.put, GaugeFamily.put, resolve_congr (h.perm hf)]
    simp only [add, ← h.1, hf, hput, ← hfamily]
  · simp only [add, ← h.1, hf, GaugeFamily.put, h.resolve_eq hf]

theorem Alike.get_eq (h : r.Alike a b) : r.get a = r.get b := by
  rcases hf : r.family? a.name with _ | f
  · simp only [get, ← h.1, hf]
  · simp only [get, ← h.1, hf, GaugeFamily.read, h.resolve_eq hf]

theorem Alike.remove_eq (h : r.Alike a b) :
    r.remove a = r.remove b
      ∨ r.remove a = (r, .error (.seriesNotFound a))
        ∧ r.remove b = (r, .error (.seriesNotFound b)) := by
  rcases hf : r.family? a.name with _ | f
  · simp only [remove, ← h.1, hf, true_or]
  · have hdrop : f.drop a.tags = f.drop b.tags := by
      rw [GaugeFamily.drop, GaugeFamily.drop, h.resolve_eq hf]
    rcases hv : f.series.get? (f.resolve a.tags) with _ | v
    · refine .inr ⟨?_, ?_⟩
      · simp [remove, hf, hv]
      · simp [remove, ← h.1, hf, ← h.resolve_eq hf, hv]
    · refine .inl ?_
      simp only [remove, ← h.1, hf, ← h.resolve_eq hf, hv, hdrop, Option.isNone_some,
        Bool.false_eq_true, ↓reduceIte]

theorem Alike.after_eq (h : r.Alike q.metric m) : r.after q.call = r.after (q.on m).call := by
  cases q with
  | add a v => exact congrArg Prod.fst (h.add_eq v)
  | get a => rfl
  | remove a =>
    obtain heq | ⟨ha, hb⟩ := h.remove_eq
    · exact congrArg Prod.fst heq
    · exact (congrArg Prod.fst ha).trans (congrArg Prod.fst hb).symm

theorem Alike.answer_eq (h : r.Alike q.metric m) :
    r.answer q = r.answer (q.on m)
      ∨ q = .remove q.metric ∧ r.answer q = .failed (.seriesNotFound q.metric)
        ∧ r.answer (q.on m) = .failed (.seriesNotFound m) := by
  cases q with
  | add a v => exact .inl (congrArg Answer.ofChange (congrArg Prod.snd (h.add_eq v)))
  | get a =>
    refine .inl ?_
    simp only [answer, Request.on, show r.get a = r.get m from h.get_eq]
  | remove a =>
    obtain heq | ⟨ha, hb⟩ := h.remove_eq
    · exact .inl (congrArg Answer.ofChange (congrArg Prod.snd heq))
    · refine .inr ⟨rfl, ?_, ?_⟩
      · exact congrArg Answer.ofChange (congrArg Prod.snd ha)
      · exact congrArg Answer.ofChange (congrArg Prod.snd hb)

theorem printed_answer_eq (h : q.metric.Same m) :
    (r.answer q).printed = (r.answer (q.on m)).printed := by
  obtain heq | ⟨-, ha, hb⟩ := (alike_of_same (r := r) h).answer_eq
  · rw [heq]
  · have hmessage : (RegistryError.seriesNotFound q.metric).message
        = (RegistryError.seriesNotFound m).message := congrArg (_ ++ ·) h.identity_eq
    rw [ha, hb, Answer.printed, Answer.printed, Answer.failed, Answer.failed, Except.mapError,
      Except.mapError, hmessage]

/-- Each call of a run is kept or is a request that is made with a metric that means the same at
this point. -/
inductive Replaces : Registry → List Call → List Call → Prop
  | nil {r : Registry} : Replaces r [] []
  | keep {r : Registry} {c : Call} {cs ds : List Call} : Replaces (r.after c) cs ds →
      Replaces r (c :: cs) (c :: ds)
  | on {r : Registry} {q : Request} {m : Metric} {cs ds : List Call} : r.Alike q.metric m →
      Replaces (r.after q.call) cs ds → Replaces r (q.call :: cs) ((q.on m).call :: ds)

/-- The calls one after the other, each with its answer if it is a request. -/
def heard : Registry → List Call → List (Call × Option Answer)
  | _, [] => []
  | r, c :: cs => (c, c.request?.map r.answer) :: (r.after c).heard cs

/-- Two calls come to the same, or both find that there is no series. -/
def Echoes (x y : Call × Option Answer) : Prop :=
  x.2 = y.2 ∨ ∃ a b, x = (.remove a, some (.failed (.seriesNotFound a)))
    ∧ y = (.remove b, some (.failed (.seriesNotFound b)))

theorem Alike.echoes (h : r.Alike q.metric m) :
    Echoes (q.call, some (r.answer q)) ((q.on m).call, some (r.answer (q.on m))) := by
  obtain heq | ⟨hq, ha, hb⟩ := h.answer_eq
  · exact .inl (congrArg some heq)
  · refine .inr ⟨q.metric, m, ?_, ?_⟩
    · rw [ha, hq]
      rfl
    · rw [hb, hq]
      rfl

theorem Replaces.run_eq (h : Replaces r cs ds) : r.run cs = r.run ds := by
  induction h with
  | nil => rfl
  | keep _ ih => exact ih
  | on halike _ ih => rw [run_cons, run_cons, ih, halike.after_eq]

theorem Replaces.echoes (h : Replaces r cs ds) :
    List.Forall₂ Echoes (r.heard cs) (r.heard ds) := by
  induction h with
  | nil => exact .nil
  | keep _ ih => exact .cons (.inl rfl) ih
  | @on r q m cs ds halike _ ih =>
    -- both runs go on from one registry, so what follows needs no more than before
    rw [heard, heard, ← halike.after_eq, Request.request?_call, Request.request?_call]
    exact .cons halike.echoes ih

/-- A request can be made with a metric of the same name and tags, and then it leaves the same and
everything that can be read of its answer is the same. If the name is held, the metric need only
agree on the label names of the family; the answer is the same, but for the metric of which it tells
that it has no series. So in a run the requests can be replaced one and all: the registry, what the
surface shows and the answers stay the same in this sense. -/
theorem run_alike (r : Registry) :
    (∀ (q : Request) (m : Metric), q.metric.Same m → r.after q.call = r.after (q.on m).call
        ∧ (r.answer q).printed = (r.answer (q.on m)).printed)
      ∧ (∀ (q : Request) (m : Metric) (f : GaugeFamily), q.name = m.name →
        r.family? q.name = some f →
        (∀ k ∈ f.labelNames, (q.metric.tags.get? k).getD "" = (m.tags.get? k).getD "") →
        r.after q.call = r.after (q.on m).call
          ∧ (r.answer q = r.answer (q.on m)
            ∨ q = .remove q.metric ∧ r.answer q = .failed (.seriesNotFound q.metric)
              ∧ r.answer (q.on m) = .failed (.seriesNotFound m)))
      ∧ ∀ cs ds, Replaces r cs ds → r.run cs = r.run ds
        ∧ List.Forall₂ Echoes (r.heard cs) (r.heard ds)
        ∧ ∀ self, (r.run cs).snapshot self = (r.run ds).snapshot self := by
  refine ⟨fun q m h => ⟨(alike_of_same h).after_eq, printed_answer_eq h⟩,
    fun q m f hname hf hagree => ?_, fun cs ds h => ⟨h.run_eq, h.echoes, fun self => ?_⟩⟩
  · have halike : r.Alike q.metric m := ⟨hname, .inr ⟨f, hf, hagree⟩⟩
    exact ⟨halike.after_eq, halike.answer_eq⟩
  · rw [h.run_eq]

/-- A family with two labels is begun with its tags in either order. A series is set, got and
removed under other tags each time, and one that is not there is looked for under two. -/
theorem run_alike_aliased :
    let r := among [⟨.ofForeign .counter "up" "", id⟩]
    let w : Metric := ⟨"w", .ofList [("a", "1"), ("b", "2")]⟩
    let w' : Metric := ⟨"w", .ofList [("b", "2"), ("a", "1")]⟩
    let x : Metric := ⟨"x", .ofList [("a", "1")]⟩
    let y : Metric := ⟨"x", .ofList [("c", "3"), ("a", "1")]⟩
    let z : Metric := ⟨"x", .ofList [("c", "3")]⟩
    let calls : List Call := [.add x .zero, .register ⟨.ofForeign .gauge "y" "", id⟩, .get x,
      .remove z, .remove x]
    let calls' : List Call := [.add x .zero, .register ⟨.ofForeign .gauge "y" "", id⟩, .get y,
      .remove ⟨"x", ∅⟩, .remove y]
    w.Same w' ∧ (r.answer (.add w .zero)).printed = (r.answer (.add w' .zero)).printed
      ∧ Replaces r calls calls' ∧ r.run calls = r.run calls'
      ∧ (r.heard calls).map Prod.snd = [some (.noted (.registered "x" ["a"])), none,
        some (.value .zero), some (.failed (.seriesNotFound z)), some (.noted (.unregistered "x"))]
      ∧ (r.heard calls').map Prod.snd = [some (.noted (.registered "x" ["a"])), none,
        some (.value .zero), some (.failed (.seriesNotFound ⟨"x", ∅⟩)),
        some (.noted (.unregistered "x"))] := by
  intro r w w' x y z calls calls'
  have hsame : w.Same w' := by decide +kernel
  have hreplaces : Replaces r calls calls' := by
    refine .keep (.keep (.on (q := .get x) (m := y) ?_ (.on (q := .remove z) (m := ⟨"x", ∅⟩) ?_
      (.on (q := .remove x) (m := y) ?_ .nil))))
    all_goals decide +kernel
  obtain ⟨hone, -, hall⟩ := run_alike r
  exact ⟨hsame, (hone (.add w .zero) w' hsame).2, hreplaces, (hall calls calls' hreplaces).1,
    by decide +kernel, by decide +kernel⟩

end Registry

end GaugeConsole
