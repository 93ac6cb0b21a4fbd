import GaugeConsole.Proofs.Exposures
import GaugeConsole.Proofs.Failures

/-!
# Requests

Somebody who adds, gets and removes series sees the answers to the requests, and what they leave in
the log. As long as the others on the surface stay the same, an answer depends on the family that is
held under the name that was asked for, and on nothing else that the registry holds
(`Registry.Beside.reply_eq`).
-/

namespace GaugeConsole

inductive Request where
  | add (m : Metric) (value : Binary64)
  | get (m : Metric)
  | remove (m : Metric)
deriving DecidableEq

namespace Request

def metric : Request → Metric
  | add m _ | get m | remove m => m

def name (q : Request) : String := q.metric.name

@[simp] theorem name_add {m : Metric} {v : Binary64} : (add m v).name = m.name := rfl

@[simp] theorem name_get {m : Metric} : (get m).name = m.name := rfl

@[simp] theorem name_remove {m : Metric} : (remove m).name = m.name := rfl

def call : Request → Call
  | add m v => .add m v
  | get m => .get m
  | remove m => .remove m

end Request

/-- What comes back from a request: a value if one was asked for, or what went wrong, and what is in
the log. -/
structure Answer where
  result : Except RegistryError (Option Binary64)
  records : List Record
deriving DecidableEq

namespace Answer

def done : Answer := ⟨.ok none, []⟩

def value (v : Binary64) : Answer := ⟨.ok (some v), []⟩

def noted (l : Lifetime) : Answer := ⟨.ok none, [l.record]⟩

def failed (e : RegistryError) : Answer := ⟨.error e, []⟩

def ofChange : Except RegistryError (Option Lifetime) → Answer
  | .ok none => done
  | .ok (some l) => noted l
  | .error e => failed e

end Answer

namespace GaugeFamily

/-- A family as it looks from outside, where the epoch does not show. -/
def ageless (f : GaugeFamily) : GaugeFamily := { f with epoch := 0 }

variable {f : GaugeFamily} {tags : Tags}

@[simp] theorem series_ageless : f.ageless.series = f.series := rfl

@[simp] theorem resolve_ageless : f.ageless.resolve tags = f.resolve tags := rfl

@[simp] theorem drop_ageless : f.ageless.drop tags = (f.drop tags).ageless := rfl

end GaugeFamily

namespace Request

/-- The answer to a request, and the family that it leaves under the name, from the family that was
held and the reason why the surface would refuse one. -/
def reply (refusal : Option RegisterError) (held : Option GaugeFamily) :
    Request → Answer × Option GaugeFamily
  | add m v =>
    match held, refusal with
    | some f, _ => (.done, some (f.put m.tags v))
    | none, some e => (.failed (.registration m.name e), none)
    | none, none =>
      let f := ({} : Registry).familyFor m
      (.noted (.registered m.name f.labelNames), some (f.put m.tags v))
  | get m =>
    match held with
    | none => (.failed (.metricNotFound m.name), none)
    | some f => (.value (f.read m.tags), some f)
  | remove m =>
    match held with
    | none => (.done, none)
    | some f =>
      if f.series.get? (f.resolve m.tags) = none then (.failed (.seriesNotFound m), some f)
      else if (f.drop m.tags).series.isEmpty then (.noted (.unregistered m.name), none)
      else (.done, some (f.drop m.tags))

end Request

namespace Surface

variable {s s' : Surface} {n : String} {k : ℕ} {e : RegisterError}

def ofOutsiders (others : List Outsider) : Surface := ⟨others.map (·.1)⟩

/-- Why the surface would refuse a gauge family of a name. -/
def refusal? (s : Surface) (n : String) : Option RegisterError :=
  match s.register (.shell n 0) with
  | .ok _ => none
  | .error e => some e

theorem refusal?_eq_some_iff : s.refusal? n = some e ↔ s.register (.shell n k) = .error e := by
  rw [register_shell_eq_error_iff, ← register_shell_eq_error_iff (k := 0), refusal?]
  rcases s.register (.shell n 0) with x | s' <;> simp

theorem refusal?_eq_none (h : s.register (.shell n k) = .ok s') : s.refusal? n = none := by
  refine Option.eq_none_iff_forall_ne_some.2 fun e he => ?_
  rw [refusal?_eq_some_iff (k := k), h] at he
  cases he

end Surface

namespace Registry

variable {others : List Outsider} {r r' : Registry} {n : String}

/-- A registry that begins on a surface on which others have collectors. -/
abbrev among (others : List Outsider) : Registry := { surface := .ofOutsiders others }

def answer (r : Registry) : Request → Answer
  | .add m v => .ofChange (r.add m v).2
  | .get m =>
    match r.get m with
    | .ok v => .value v
    | .error e => .failed e
  | .remove m => .ofChange (r.remove m).2

/-- Requests one after the other, each with its answer. -/
def dialogue : Registry → List Request → List (Request × Answer)
  | _, [] => []
  | r, q :: qs => (q, r.answer q) :: (r.after q.call).dialogue qs

def served (r : Registry) (qs : List Request) : Registry := r.run (qs.map Request.call)

/-- The family that is held under a name, as it looks from outside. -/
def gauge? (r : Registry) (n : String) : Option GaugeFamily := (r.family? n).map (·.ageless)

theorem gauge?_hold {f : GaugeFamily} :
    (r.hold f).gauge? n = if n = f.name then some f.ageless else r.gauge? n := by
  rw [gauge?, family?_hold]
  split_ifs <;> rfl

theorem gauge?_forget {k : String} :
    (r.forget k).gauge? n = if n = k then none else r.gauge? n := by
  rw [gauge?, family?_forget]
  split_ifs <;> rfl

theorem gauge?_withSurface {s : Surface} : (r.withSurface s).gauge? n = r.gauge? n := rfl

/-- The registry shares its surface with some others: they come first, and then the families that it
holds, in their order. -/
structure Beside (others : List Outsider) (r : Registry) : Prop where
  orderly : r.Orderly
  collectors : r.surface.collectors
    = others.map (·.1) ++ r.families.entries.map (·.2.collector)

namespace Beside

theorem start (others : List Outsider) : Beside others (among others) :=
  ⟨orderly_start _, (List.append_nil _).symm⟩

theorem mem_collectors (h : Beside others r) {f : GaugeFamily} (hf : r.family? n = some f) :
    f.collector ∈ r.surface.collectors := by
  rw [h.collectors]
  exact List.mem_append_right _ (List.mem_map.2 ⟨(n, f), OrderedMap.mem_entries_iff.2 hf, rfl⟩)

/-- A name that is not held can only be claimed by one of the others. -/
theorem refusal?_eq (h : Beside others r) (hf : r.family? n = none) :
    r.surface.refusal? n = (Surface.ofOutsiders others).refusal? n := by
  have hclaims : (∃ c ∈ r.surface.collectors, n ∈ c.claims)
      ↔ ∃ c ∈ (Surface.ofOutsiders others).collectors, n ∈ c.claims := by
    rw [h.collectors]
    constructor
    · rintro ⟨c, hc, hn⟩
      rcases List.mem_append.1 hc with hc | hc
      · exact ⟨c, hc, hn⟩
      · obtain ⟨e, he, rfl⟩ := List.mem_map.1 hc
        obtain ⟨hheld, hproper⟩ := h.orderly.of_mem he
        have hname : n = e.1 := (List.mem_singleton.1 hn).trans hproper.named
        rw [← hname, hf] at hheld
        cases hheld
    · rintro ⟨c, hc, hn⟩
      exact ⟨c, List.mem_append_left _ hc, hn⟩
  ext e
  rw [Surface.refusal?_eq_some_iff (k := 0), Surface.refusal?_eq_some_iff (k := 0),
    Surface.register_shell_eq_error_iff, Surface.register_shell_eq_error_iff, hclaims]

theorem change (h : Beside others r) {q : Request} (hc : Change r q.call r') :
    Beside others r' := by
  refine ⟨hc.orderly h.orderly, ?_⟩
  have hcs := h.collectors
  generalize hcall : q.call = call at hc
  cases hc with
  | rest => exact hcs
  | hold hf hg hfg => exact hcs.trans (congrArg _ (collectors_hold hf hg.named hfg).symm)
  | begin hf hs =>
    obtain ⟨-, -, rfl⟩ := Surface.register_eq_ok_iff.1 hs
    rw [collectors_begin hf, ← List.append_assoc, ← hcs]
    rfl
  | @forget m f hf =>
    have hother : f.collector ∉ others.map (·.1) := fun hmem => by
      obtain ⟨c, -, hc⟩ := List.mem_map.1 hmem
      exact c.2 (hc ▸ trivial)
    change r.surface.collectors.erase f.collector = _
    rw [hcs, List.erase_append_right _ hother, h.orderly.erase_collector hf]
    rfl
  -- requests neither put collectors of others on the surface nor take any off it
  | _ => cases q <;> cases hcall

theorem after (h : Beside others r) (q : Request) : Beside others (r.after q.call) :=
  h.change (h.orderly.change q.call)

theorem served (h : Beside others r) (qs : List Request) : Beside others (r.served qs) := by
  induction qs generalizing r with
  | nil => exact h
  | cons q qs ih => exact ih (h.after q)

/-- A request is answered from the family under its name, and changes this one as the answer
tells. -/
theorem reply_eq (h : Beside others r) (q : Request) :
    q.reply ((Surface.ofOutsiders others).refusal? q.name) (r.gauge? q.name)
      = (r.answer q, (r.after q.call).gauge? q.name) := by
  cases q with
  | add m v =>
    simp only [answer, Request.call, Registry.after, Request.name_add]
    obtain ⟨f, hf, heq⟩ | ⟨e, hf, hs, heq⟩ | ⟨s, hf, hs, heq⟩ := add_cases r m v <;> rw [heq]
    · have hname : m.name = (f.put m.tags v).name := (h.orderly hf).named.symm
      rw [gauge?_hold, if_pos hname, gauge?, hf]
      rfl
    · have hrefusal := (h.refusal?_eq hf).symm.trans (Surface.refusal?_eq_some_iff.2 hs)
      rw [hrefusal, gauge?, hf]
      rfl
    · have hrefusal := (h.refusal?_eq hf).symm.trans (Surface.refusal?_eq_none hs)
      have hname : m.name = ((r.familyFor m).put m.tags v).name := rfl
      rw [gauge?_hold, if_pos hname, hrefusal, gauge?, hf]
      rfl
  | get m =>
    simp only [answer, Request.call, Registry.after, Request.name_get, gauge?, Registry.get]
    rcases r.family? m.name with _ | f <;> rfl
  | remove m =>
    simp only [answer, Request.call, Registry.after, Request.name_remove]
    obtain ⟨hf, heq⟩ | ⟨f, hf, hcases⟩ := remove_cases r m
    · rw [heq, gauge?, hf]
      rfl
    have hgauge : r.gauge? m.name = some f.ageless := by rw [gauge?, hf]; rfl
    obtain ⟨hv, heq⟩ | ⟨v, hv, he, heq⟩ | ⟨v, hv, he, hs, heq⟩ | ⟨v, s, hv, he, hs, heq⟩ :=
      hcases <;> rw [heq]
    · simp [Request.reply, hgauge, hv, Answer.ofChange]
    · have hname : m.name = (f.drop m.tags).name := (h.orderly hf).named.symm
      rw [gauge?_hold, if_pos hname]
      simp [Request.reply, hgauge, hv, he, Answer.ofChange]
    · -- the surface has the family and lets go of it
      rw [Surface.unregister_of_mem (h.mem_collectors hf)] at hs
      cases hs
    · rw [gauge?_withSurface, gauge?_forget, if_pos rfl]
      simp [Request.reply, hgauge, hv, he, Answer.ofChange]

theorem gauge?_after_of_ne (h : Beside others r) {q : Request} (hne : n ≠ q.name) :
    (r.after q.call).gauge? n = r.gauge? n := by
  cases q with
  | add m v => exact congrArg (Option.map _) (h.orderly.family?_add_of_ne v hne)
  | get m => rfl
  | remove m => exact congrArg (Option.map _) (h.orderly.family?_remove_of_ne hne)

end Beside

end Registry

end GaugeConsole
