import GaugeConsole.Proofs.Requests

/-!
# Names do not interfere

Whoever is only interested in one name can leave out the requests on all others: the answers on this
name and the family that is left under it are the same without them (`Registry.run_apart`). So
requests on different names can change places, and this shows only in the order of the families.
-/

namespace GaugeConsole

/-- A list in two parts is gone through in two parts, of which the second does not fail. -/
theorem map_flatten_mapM_append {α β ε : Type} {f : α → Except ε (List β)} {as bs : List α}
    {shown : List (List β)} (h : bs.mapM f = .ok shown) :
    ((as ++ bs).mapM f).map List.flatten
      = ((as.mapM f).map List.flatten).map (· ++ shown.flatten) := by
  rw [List.mapM_append, h]
  rcases as.mapM f with e | first
  · rfl
  · exact congrArg Except.ok List.flatten_append

namespace Registry

variable {others : List Outsider} {r r' : Registry} {n : String} {self : Option SelfMetrics}

/-- The families that are held, in their order, as they look from outside. -/
def held (r : Registry) : List GaugeFamily := r.families.values.map GaugeFamily.ageless

theorem Orderly.mem_held_iff (h : r.Orderly) {f : GaugeFamily} :
    f ∈ r.held ↔ r.gauge? f.name = some f := by
  rw [held, OrderedMap.values, List.map_map, List.mem_map]
  constructor
  · rintro ⟨e, he, rfl⟩
    obtain ⟨hf, hp⟩ := h.of_mem he
    have hname : (e.2.ageless).name = e.1 := hp.named
    exact (congrArg r.gauge? hname).trans (congrArg (Option.map _) hf)
  · intro hf
    obtain ⟨g, hg, rfl⟩ := Option.map_eq_some_iff.1 hf
    exact ⟨(g.name, g), OrderedMap.mem_entries_iff.2 hg, rfl⟩

theorem Orderly.names_held (h : r.Orderly) : r.held.map GaugeFamily.name = r.families.keys := by
  rw [held, OrderedMap.values, List.map_map, List.map_map]
  exact List.map_congr_left fun e he => (h.of_mem he).2.named

/-- Registries that hold the same family under every name differ in the order of the families. -/
theorem Orderly.held_perm (h : r.Orderly) (h' : r'.Orderly)
    (heq : ∀ n, r.gauge? n = r'.gauge? n) : r.held.Perm r'.held := by
  have hnodup : ∀ {r : Registry}, r.Orderly → r.held.Nodup := fun h =>
    .of_map GaugeFamily.name (h.names_held ▸ OrderedMap.nodup _)
  refine (List.perm_ext_iff_of_nodup (hnodup h) (hnodup h')).2 fun f => ?_
  rw [h.mem_held_iff, h'.mem_held_iff, heq]

namespace Beside

theorem answer_eq (h : Beside others r) (h' : Beside others r') {q : Request}
    (heq : r.gauge? q.name = r'.gauge? q.name) :
    r.answer q = r'.answer q
      ∧ (r.after q.call).gauge? q.name = (r'.after q.call).gauge? q.name := by
  rw [← Prod.mk.injEq, ← h.reply_eq, ← h'.reply_eq, heq]

/-- Two registries that hold the same family under a name stay so, and give the same answers on this
name, if one of them is spared the requests on other names. -/
theorem apart (h : Beside others r) (h' : Beside others r') (heq : r.gauge? n = r'.gauge? n)
    (qs : List Request) :
    (r.dialogue qs).filter (·.1.name = n) = r'.dialogue (qs.filter (·.name = n))
      ∧ (r.served qs).gauge? n = (r'.served (qs.filter (·.name = n))).gauge? n := by
  induction qs generalizing r r' with
  | nil => exact ⟨rfl, heq⟩
  | cons q qs ih =>
    by_cases hq : q.name = n
    · subst hq
      obtain ⟨hanswer, hnext⟩ := h.answer_eq h' heq
      obtain ⟨hrest, hlast⟩ := ih (h.after q) (h'.after q) hnext
      simp only [dialogue, List.filter_cons, decide_true, ↓reduceIte, hanswer, hrest]
      exact ⟨trivial, hlast⟩
    · have hsame : (r.after q.call).gauge? n = r'.gauge? n :=
        (h.gauge?_after_of_ne (Ne.symm hq)).trans heq
      simp only [dialogue, List.filter_cons, hq, decide_false, Bool.false_eq_true, ↓reduceIte]
      exact ih (h.after q) h' hsame

theorem mapM_collect_outsiders (r r' : Registry) (others : List Outsider) :
    (others.map (·.1)).mapM (r.collect self) = (others.map (·.1)).mapM (r'.collect self) := by
  rw [List.mapM_map, List.mapM_map]
  congr 1
  funext ⟨c, hc⟩
  -- only a collector of the shell looks at the registry, and others have none of them
  rcases c with _ | _ | ⟨names, _ | shown⟩
  · exact absurd trivial hc
  all_goals rfl

/-- The surface shows what the others show, and then the families that are held. -/
theorem snapshot_eq (h : Beside others r) :
    r.snapshot self
      = ((among others).snapshot self).map (· ++ r.held.map GaugeFamily.expose) := by
  have hheld : (r.families.entries.map (·.2.collector)).mapM (r.collect self)
      = .ok (r.families.entries.map fun e => [e.2.expose]) := by
    rw [mapM_collect, List.map_map]
    · exact congrArg _ (List.map_congr_left fun e he => h.orderly.shownBy_collector he)
    · intro names message hmem
      obtain ⟨e, -, he⟩ := List.mem_map.1 hmem
      cases he
  have hflat : (r.families.entries.map fun e => [e.2.expose]).flatten
      = r.held.map GaugeFamily.expose := by
    rw [held, OrderedMap.values, List.map_map, List.map_map, ← List.flatMap_def,
      List.map_eq_flatMap]
    rfl
  rw [snapshot, snapshot, h.collectors, map_flatten_mapM_append hheld, hflat,
    mapM_collect_outsiders r (among others)]
  rfl

end Beside

/-- Requests to a registry that begins beside some others: leaving out the requests on other names
changes neither the answers on a name nor the family that is left under it. So it does not matter
how the requests on different names are mixed; in the end there are the same families, in some
order, behind what the others show. -/
theorem run_apart (others : List Outsider) (self : Option SelfMetrics) (requests : List Request) :
    let r := among others
    (∀ n, (r.dialogue requests).filter (·.1.name = n) = r.dialogue (requests.filter (·.name = n))
        ∧ (r.served requests).gauge? n = (r.served (requests.filter (·.name = n))).gauge? n)
      ∧ ∀ mixed, (∀ n, mixed.filter (·.name = n) = requests.filter (·.name = n)) →
        (∀ n, (r.dialogue mixed).filter (·.1.name = n)
          = (r.dialogue requests).filter (·.1.name = n))
        ∧ (r.served mixed).held.Perm (r.served requests).held
        ∧ (r.served requests).snapshot self
          = (r.snapshot self).map (· ++ (r.served requests).held.map GaugeFamily.expose)
        ∧ (r.served mixed).snapshot self
          = (r.snapshot self).map (· ++ (r.served mixed).held.map GaugeFamily.expose) := by
  intro r
  have h : Beside others r := .start others
  refine ⟨fun n => h.apart h rfl requests, fun mixed hmixed => ⟨fun n => ?_, ?_, ?_, ?_⟩⟩
  · rw [(h.apart h rfl mixed).1, (h.apart h rfl requests).1, hmixed]
  · refine (h.served mixed).orderly.held_perm (h.served requests).orderly fun n => ?_
    rw [(h.apart h rfl mixed).2, (h.apart h rfl requests).2, hmixed]
  · exact (h.served requests).snapshot_eq
  · exact (h.served mixed).snapshot_eq

/-- A family goes away and comes back, and a name is taken; with the requests mixed another way the
families stand the other way round. -/
theorem run_apart_reordered :
    let others : List Outsider := [⟨.ofForeign .counter "up" "", id⟩]
    let r := among others
    let up : Metric := ⟨"up", .empty⟩
    let x : Metric := ⟨"x", .ofList [("a", "1")]⟩
    let y : Metric := ⟨"y", .empty⟩
    let requests : List Request := [.add x .zero, .add y (.ofNat 1), .add up .zero, .remove x,
      .get x, .get y, .add x (.ofNat 2)]
    let mixed : List Request := [.add up .zero, .add x .zero, .remove x, .get x,
      .add x (.ofNat 2), .add y (.ofNat 1), .get y]
    (∀ n, mixed.filter (·.name = n) = requests.filter (·.name = n))
      ∧ (r.served requests).held.map GaugeFamily.name = ["y", "x"]
      ∧ (r.served mixed).held.map GaugeFamily.name = ["x", "y"]
      ∧ (r.served mixed).held.Perm (r.served requests).held
      ∧ (r.dialogue mixed).filter (·.1.name = "x") = [(.add x .zero,
          .noted (.registered "x" ["a"])), (.remove x, .noted (.unregistered "x")),
        (.get x, .failed (.metricNotFound "x")), (.add x (.ofNat 2),
          .noted (.registered "x" ["a"]))] := by
  intro others r up x y requests mixed
  have hmixed : ∀ n, mixed.filter (·.name = n) = requests.filter (·.name = n) := by
    intro n
    by_cases hup : "up" = n
    · subst hup
      decide +kernel
    by_cases hx : "x" = n
    · subst hx
      decide +kernel
    by_cases hy : "y" = n
    · subst hy
      decide +kernel
    · simp [mixed, requests, up, x, y, hup, hx, hy]
  obtain ⟨hone, hmix⟩ := run_apart others none requests
  obtain ⟨hdialogue, hperm, -, -⟩ := hmix mixed hmixed
  refine ⟨hmixed, by decide +kernel, by decide +kernel, hperm, ?_⟩
  rw [hdialogue, (hone "x").1]
  decide +kernel

end Registry

end GaugeConsole
