import GaugeConsole.Proofs.Clients
import GaugeConsole.Proofs.Reading
import GaugeConsole.Proofs.Requests
import Mathlib.Data.List.Chain

/-!
# Lifetimes in the log

The registry logs that it takes up a name or gives it up, and nothing else. So the log tells which
families are held and with which label names (`Registry.run_logs`), unless somebody else takes a
gauge family off the surface: then the family is given up without a word.

A record is no more than the text of its message. What makes a text tell of one name only, is that
the name is made of letters and cannot run into the words behind it.
-/

namespace GaugeConsole

open Grammar

/-- What stands in a text behind its first words, if it begins with them. -/
def behind? (words text : String) : Option String :=
  (words.toList.isPrefixOf? text.toList).map String.ofList

theorem behind?_eq_some_iff {words text rest : String} :
    behind? words text = some rest ↔ text = words ++ rest := by
  simp only [behind?, Option.map_eq_some_iff, List.isPrefixOf?_eq_some_iff_append_eq]
  constructor
  · rintro ⟨t, ht, rfl⟩
    exact String.toList_inj.1 (by simp [← ht])
  · rintro rfl
    exact ⟨rest.toList, by simp, by simp⟩

theorem isSome_behind?_iff {words text : String} :
    (behind? words text).isSome ↔ ∃ rest, text = words ++ rest := by
  simp only [Option.isSome_iff_exists, behind?_eq_some_iff]

/-- What a record can tell of the gauge family of a name. -/
inductive Notice where
  /-- It is there, with the label names as they are printed. -/
  | begun (labels : String)
  | ended
deriving DecidableEq

namespace Record

variable {n k text : String} {ls : List String} {record : Record}

def tellsBeginning (record : Record) : Bool := (behind? "Registered gauge " record.message).isSome

def tellsEnd (record : Record) : Bool := (behind? "Unregistered gauge " record.message).isSome

/-- What a record tells of the gauge family of a name, if it tells of that one. -/
def notice? (n : String) (record : Record) : Option Notice :=
  if record.message = "Unregistered gauge " ++ n then some .ended
  else (behind? ("Registered gauge " ++ n ++ " with labels ") record.message).map .begun

theorem ended_ne_begun : "Unregistered gauge " ++ n ≠ "Registered gauge " ++ text := by
  intro h
  have hfirst := congrArg (·.toList.head?) h
  simp at hfirst

theorem notice?_eq_ended_iff :
    record.notice? n = some .ended ↔ record.message = "Unregistered gauge " ++ n := by
  rw [notice?]
  split_ifs with h <;> simp [h]

theorem notice?_eq_begun_iff : record.notice? n = some (.begun text)
    ↔ record.message = "Registered gauge " ++ n ++ " with labels " ++ text := by
  rw [notice?]
  split_ifs with h
  · simp only [h, String.append_assoc, ended_ne_begun, Option.some.injEq, reduceCtorEq]
  · simp [behind?_eq_some_iff]

end Record

namespace Lifetime

variable {n k : String} {ls : List String}

/-- Letters do not run into the blank behind them. -/
theorem registered_inj {text text' : String} (hn : Letters n.toList) (hk : Letters k.toList)
    (h : "Registered gauge " ++ k ++ " with labels " ++ text'
      = "Registered gauge " ++ n ++ " with labels " ++ text) : k = n ∧ text' = text := by
  have hstop : ∀ r, Stops isLetter (" with labels ".toList ++ r) := fun r =>
    stops_cons.2 (by decide)
  simp only [String.append_assoc, String.append_right_inj] at h
  have hlist := congrArg String.toList h
  simp only [String.toList_append] at hlist
  have hnames := congrArg (List.takeWhile isLetter) hlist
  rw [takeWhile_append (letters_iff.1 hk) (hstop _),
    takeWhile_append (letters_iff.1 hn) (hstop _)] at hnames
  obtain rfl := String.toList_injective hnames
  refine ⟨rfl, ?_⟩
  simpa using h

theorem message_registered : (registered k ls).record.message
    = "Registered gauge " ++ (k ++ (" with labels " ++ quotedList ls)) := by
  rw [← String.append_assoc, ← String.append_assoc]
  rfl

theorem notice?_registered (hn : Letters n.toList) (hk : Letters k.toList) :
    (registered k ls).record.notice? n = if n = k then some (.begun (quotedList ls)) else none := by
  split_ifs with h
  · subst h
    exact Record.notice?_eq_begun_iff.2 rfl
  · rcases hnotice : (registered k ls).record.notice? n with _ | text | _
    · rfl
    · exact absurd (registered_inj hn hk (Record.notice?_eq_begun_iff.1 hnotice)).1.symm h
    · have hmessage := Record.notice?_eq_ended_iff.1 hnotice
      exact absurd (hmessage.symm.trans message_registered) Record.ended_ne_begun

theorem notice?_unregistered :
    (unregistered k).record.notice? n = if n = k then some .ended else none := by
  split_ifs with h
  · subst h
    exact Record.notice?_eq_ended_iff.2 rfl
  · rcases hnotice : (unregistered k).record.notice? n with _ | text | _
    · rfl
    · have hmessage : "Unregistered gauge " ++ k
          = "Registered gauge " ++ n ++ " with labels " ++ text :=
        Record.notice?_eq_begun_iff.1 hnotice
      rw [String.append_assoc, String.append_assoc] at hmessage
      exact absurd hmessage Record.ended_ne_begun
    · have hmessage : "Unregistered gauge " ++ k = "Unregistered gauge " ++ n :=
        Record.notice?_eq_ended_iff.1 hnotice
      exact absurd ((String.append_right_inj _).1 hmessage).symm h

theorem tellsBeginning_registered : (registered k ls).record.tellsBeginning = true :=
  isSome_behind?_iff.2 ⟨_, message_registered⟩

theorem tellsEnd_unregistered : (unregistered k).record.tellsEnd = true :=
  isSome_behind?_iff.2 ⟨k, rfl⟩

theorem tellsEnd_registered : (registered k ls).record.tellsEnd = false := by
  refine Bool.eq_false_iff.2 fun h => ?_
  obtain ⟨rest, hrest⟩ := isSome_behind?_iff.1 h
  exact Record.ended_ne_begun (hrest.symm.trans message_registered)

theorem tellsBeginning_unregistered : (unregistered k).record.tellsBeginning = false := by
  refine Bool.eq_false_iff.2 fun h => ?_
  obtain ⟨rest, hrest⟩ := isSome_behind?_iff.1 h
  have hmessage : (unregistered k).record.message = "Unregistered gauge " ++ k := rfl
  exact Record.ended_ne_begun (hmessage.symm.trans hrest)

end Lifetime

/-! ## What one call adds to the log -/

namespace OrderedMap

variable {κ ν : Type} [DecidableEq κ] {m : OrderedMap κ ν} {k : κ} {v w : ν}

theorem size_insert_of_get? (h : m.get? k = some w) : (m.insert k v).size = m.size := by
  have hentries := congrArg List.length
    (map_entries_insert (φ := fun _ => ()) (v := v) h rfl)
  simpa [size] using hentries

theorem size_insert_of_none (h : m.get? k = none) : (m.insert k v).size = m.size + 1 := by
  rw [size, entries_insert h, List.length_append]
  rfl

theorem size_erase (h : m.get? k = some v) : m.size = (m.erase k).size + 1 := by
  have hperm : ((m.erase k).insert k v).entries.Perm m.entries := by
    refine perm_iff.2 fun i => ?_
    rw [get?_insert, get?_erase]
    split_ifs with hi
    · rw [hi, h]
    · rfl
  rw [← size_insert_of_none (v := v) get?_erase_self]
  exact hperm.length_eq.symm

end OrderedMap

namespace Registry

variable {r r' : Registry} {n : String} {c : Call} {log records : List Record}

/-- The label names of the family that is held under a name. -/
def labels? (r : Registry) (n : String) : Option (List String) :=
  (r.family? n).map (·.labelNames)

theorem isSome_labels? : (r.labels? n).isSome = (r.family? n).isSome := Option.isSome_map

theorem labels?_hold {f : GaugeFamily} :
    (r.hold f).labels? n = if n = f.name then some f.labelNames else r.labels? n := by
  rw [labels?, family?_hold]
  split_ifs <;> rfl

/-- Another family of the same name and the same label names makes no difference. -/
theorem labels?_hold_of_family? {f g : GaugeFamily} (hf : r.family? g.name = some f)
    (hlabels : g.labelNames = f.labelNames) : (r.hold g).labels? n = r.labels? n := by
  rw [labels?_hold]
  split_ifs with h
  · rw [h, labels?, hf, hlabels]
    rfl
  · rfl

theorem labels?_forget {k : String} :
    (r.forget k).labels? n = if n = k then none else r.labels? n := by
  rw [labels?, family?_forget]
  split_ifs <;> rfl

theorem familyCount_hold {f g : GaugeFamily} (hf : r.family? g.name = some f) :
    (r.hold g).familyCount = r.familyCount := OrderedMap.size_insert_of_get? hf

theorem familyCount_hold_of_none {g : GaugeFamily} (hf : r.family? g.name = none) :
    (r.hold g).familyCount = r.familyCount + 1 := OrderedMap.size_insert_of_none hf

theorem familyCount_forget {f : GaugeFamily} (hf : r.family? n = some f) :
    r.familyCount = (r.forget n).familyCount + 1 := OrderedMap.size_erase hf

/-- What a call adds to the log. -/
def recorded (r : Registry) : Call → List Record
  | .add m v => (r.answer (.add m v)).records
  | .get m => (r.answer (.get m)).records
  | .remove m => (r.answer (.remove m)).records
  | .register _ | .unregister _ => []

@[simp] theorem recorded_call {q : Request} : r.recorded q.call = (r.answer q).records := by
  cases q <;> rfl

/-- What a call adds to the log, and what it does to the names that are held. -/
inductive Noted (r r' : Registry) : Call → List Record → Prop
  | nothing {c : Call} : (∀ n, r'.labels? n = r.labels? n) → r'.familyCount = r.familyCount →
      Noted r r' c []
  | begun {m : Metric} {v : Binary64} {ls : List String} : r.labels? m.name = none →
      (∀ n, r'.labels? n = if n = m.name then some ls else r.labels? n) →
      r'.familyCount = r.familyCount + 1 →
      Noted r r' (.add m v) [(Lifetime.registered m.name ls).record]
  | ended {m : Metric} {ls : List String} : r.labels? m.name = some ls →
      (∀ n, r'.labels? n = if n = m.name then none else r.labels? n) →
      r.familyCount = r'.familyCount + 1 →
      Noted r r' (.remove m) [(Lifetime.unregistered m.name).record]

/-- The surface lets go of every family that it has, so no remove stops half-way. -/
theorem ShownBut.remove_cases (hs : r.ShownBut fun _ => False) (m : Metric) :
    (r.family? m.name = none ∧ r.remove m = (r, .ok none))
      ∨ ∃ f, r.family? m.name = some f ∧ (r.remove m = (r, .error (.seriesNotFound m))
        ∨ r.remove m = (r.hold (f.drop m.tags), .ok none)
        ∨ ∃ s, r.remove m
          = ((r.forget m.name).withSurface s, .ok (some (.unregistered m.name)))) := by
  obtain ⟨hf, heq⟩ | ⟨f, hf, hcases⟩ := Registry.remove_cases r m
  · exact .inl ⟨hf, heq⟩
  refine .inr ⟨f, hf, ?_⟩
  obtain ⟨-, heq⟩ | ⟨v, -, -, heq⟩ | ⟨v, -, -, hs', -⟩ | ⟨v, s, -, -, -, heq⟩ := hcases
  · exact .inl heq
  · exact .inr (.inl heq)
  · rw [Surface.unregister_of_mem ((hs hf).resolve_right id)] at hs'
    cases hs'
  · exact .inr (.inr ⟨s, heq⟩)

theorem Orderly.noted (h : r.Orderly) (hs : r.ShownBut fun _ => False) (c : Call) :
    Noted r (r.after c) c (r.recorded c) := by
  cases c with
  | add m v =>
    simp only [Registry.after, recorded, answer]
    obtain ⟨f, hf, heq⟩ | ⟨e, -, -, heq⟩ | ⟨s, hf, -, heq⟩ := add_cases r m v <;> rw [heq]
    · have hheld : r.family? (f.put m.tags v).name = some f := (h hf).named.symm ▸ hf
      exact .nothing (fun n => labels?_hold_of_family? hheld rfl) (familyCount_hold hheld)
    · exact .nothing (fun _ => rfl) rfl
    · refine .begun (by rw [labels?, hf]; rfl) (fun n => labels?_hold) ?_
      exact familyCount_hold_of_none (r := r.grown s) hf
  | get m =>
    simp only [Registry.after, recorded, answer]
    rcases r.get m with e | v
    all_goals exact .nothing (fun _ => rfl) rfl
  | remove m =>
    simp only [Registry.after, recorded, answer]
    obtain ⟨-, heq⟩ | ⟨f, hf, heq | heq | ⟨s, heq⟩⟩ := hs.remove_cases m <;> rw [heq]
    · exact .nothing (fun _ => rfl) rfl
    · exact .nothing (fun _ => rfl) rfl
    · have hheld : r.family? (f.drop m.tags).name = some f := (h hf).named.symm ▸ hf
      exact .nothing (fun n => labels?_hold_of_family? hheld rfl) (familyCount_hold hheld)
    · exact .ended (by rw [labels?, hf]; rfl) (fun n => labels?_forget) (familyCount_forget hf)
  | register c => exact .nothing (fun _ => rfl) rfl
  | unregister c => exact .nothing (fun _ => rfl) rfl

/-- What is told and what is not, whatever is asked for next. -/
structure Quiet (r : Registry) : Prop where
  /-- A request is told of if it takes up its name or gives it up, and only then. -/
  records : ∀ q : Request, (r.answer q).records = []
    ↔ ((r.family? q.name).isSome ↔ ((r.after q.call).family? q.name).isSome)
  failed : ∀ q e, (r.answer q).result = .error e →
    (r.answer q).records = [] ∧ r.after q.call = r
  overwritten : ∀ m v, (r.family? m.name).isSome → (r.answer (.add m v)).records = []
  read : ∀ m, (r.answer (.get m)).records = []
  /-- A remove that leaves something of the family. -/
  left : ∀ m, ((r.remove m).1.family? m.name).isSome → (r.answer (.remove m)).records = []

theorem Noted.records_eq_nil_iff {q : Request} (h : Noted r r' q.call records) :
    records = [] ↔ ((r.family? q.name).isSome ↔ (r'.family? q.name).isSome) := by
  generalize hc : q.call = c at h
  simp only [← isSome_labels?]
  cases h with
  | nothing hlabels => simp [hlabels]
  | begun hnone hlabels =>
    cases q <;> cases hc
    simp [hnone, hlabels]
  | ended hsome hlabels =>
    cases q <;> cases hc
    simp [hsome, hlabels]

/-- What fails, fails before anything is changed. -/
theorem after_of_failed (hs : r.ShownBut fun _ => False) {q : Request} {e : RegistryError}
    (h : (r.answer q).result = .error e) : r.after q.call = r := by
  cases q with
  | add m v =>
    simp only [answer, Request.call, Registry.after] at h ⊢
    obtain ⟨f, hf, heq⟩ | ⟨e, -, -, heq⟩ | ⟨s, hf, -, heq⟩ := add_cases r m v <;> rw [heq] at h ⊢
    · cases h
    · cases h
  | get m => rfl
  | remove m =>
    simp only [answer, Request.call, Registry.after] at h ⊢
    obtain ⟨-, heq⟩ | ⟨f, hf, heq | heq | ⟨s, heq⟩⟩ := hs.remove_cases m <;> rw [heq] at h ⊢
    · cases h
    · cases h

theorem records_of_failed {q : Request} {e : RegistryError}
    (h : (r.answer q).result = .error e) : (r.answer q).records = [] := by
  have hchange : ∀ x, (Answer.ofChange x).result = .error e → (Answer.ofChange x).records = [] := by
    rintro (e | _ | l) hx
    · rfl
    · rfl
    · cases hx
  cases q with
  | add m v => exact hchange _ h
  | get m =>
    simp only [answer]
    split <;> rfl
  | remove m => exact hchange _ h

theorem Orderly.quiet (h : r.Orderly) (hs : r.ShownBut fun _ => False) : r.Quiet := by
  have hrecords : ∀ q : Request, (r.answer q).records = []
      ↔ ((r.family? q.name).isSome ↔ ((r.after q.call).family? q.name).isSome) := by
    intro q
    have hnoted := h.noted hs q.call
    rw [recorded_call] at hnoted
    exact hnoted.records_eq_nil_iff
  refine ⟨hrecords, fun q e he => ⟨records_of_failed he, after_of_failed hs he⟩, ?_, ?_, ?_⟩
  · intro m v hheld
    obtain ⟨f, hf⟩ := Option.isSome_iff_exists.1 hheld
    simp only [answer]
    rw [add, hf]
    rfl
  · exact fun m => (hrecords (.get m)).2 .rfl
  · intro m hleft
    refine (hrecords (.remove m)).2 (iff_of_true ?_ hleft)
    rcases hf : r.family? m.name with _ | f
    · have hrest : r.remove m = (r, .ok none) := by rw [remove, hf]
      rw [hrest, hf] at hleft
      cases hleft
    · exact Option.isSome_iff_exists.2 ⟨f, hf⟩

end Registry

/-! ## What a run leaves in the log -/

def notices (n : String) (log : List Record) : List Notice := log.filterMap (·.notice? n)

/-- Notices tell of something that begins and ends in turn, and the last of them tells how things
are. -/
structure Alternates (ns : List Notice) (held : Option (List String)) : Prop where
  starts : ns.head? ≠ some .ended
  alternates : ns.IsChain fun a b => a = .ended ↔ b ≠ .ended
  last : ∀ text, ns.getLast? = some (.begun text)
    ↔ ∃ ls, held = some ls ∧ text = quotedList ls

namespace Alternates

variable {ns : List Notice} {ls : List String}

theorem nil : Alternates [] none where
  starts := by simp
  alternates := .nil
  last := by simp

theorem begun (h : Alternates ns none) (ls : List String) :
    Alternates (ns ++ [.begun (quotedList ls)]) (some ls) where
  starts := by
    rcases ns with _ | ⟨a, ns⟩
    · simp
    · simpa using h.starts
  alternates := by
    refine List.isChain_append.2 ⟨h.alternates, .singleton _, fun a ha b hb => ?_⟩
    obtain rfl : Notice.begun (quotedList ls) = b := by simpa using hb
    refine iff_of_true ?_ (by simp)
    cases a with
    | begun text => simpa using (h.last text).1 ha
    | ended => rfl
  last text := by
    rw [List.getLast?_concat]
    simp [eq_comm]

theorem ended (h : Alternates ns (some ls)) : Alternates (ns ++ [.ended]) none where
  starts := by
    rcases ns with _ | ⟨a, ns⟩
    · simpa using h.last (quotedList ls)
    · simpa using h.starts
  alternates := by
    refine List.isChain_append.2 ⟨h.alternates, .singleton _, fun a ha b hb => ?_⟩
    obtain rfl : Notice.ended = b := by simpa using hb
    have hlast := (h.last (quotedList ls)).2 ⟨ls, rfl, rfl⟩
    rw [hlast] at ha
    cases ha
    simp
  last text := by
    rw [List.getLast?_concat]
    simp

end Alternates

namespace Registry

variable {r r' : Registry} {n : String} {c : Call} {log records : List Record}

/-- What calls add to the log, one after the other. -/
def logged : Registry → List Call → List Record
  | _, [] => []
  | r, c :: cs => r.recorded c ++ (r.after c).logged cs

theorem logged_concat : ∀ (r : Registry) (cs : List Call) (c : Call),
    r.logged (cs ++ [c]) = r.logged cs ++ (r.run cs).recorded c
  | r, [], c => List.append_nil _
  | r, d :: cs, c => by
    rw [List.cons_append, logged, logged_concat, logged, List.append_assoc, run_cons]

/-- The log tells which names are held. -/
structure Faithful (log : List Record) (r : Registry) : Prop where
  notices : ∀ n, Letters n.toList → Alternates (notices n log) (r.labels? n)
  count : log.countP (·.tellsBeginning) = r.familyCount + log.countP (·.tellsEnd)
  level : ∀ record ∈ log, record.level = .info

theorem Faithful.start (s : Surface) : Faithful [] { surface := s } where
  notices _ _ := .nil
  count := rfl
  level := by simp

theorem Faithful.concat (h : Faithful log r) (hc : Noted r r' c records)
    (hname : ∀ q : Request, c = q.call → Letters q.name.toList) :
    Faithful (log ++ records) r' := by
  cases hc with
  | nothing hlabels hcount =>
    rw [List.append_nil]
    exact ⟨fun n hn => hlabels n ▸ h.notices n hn, hcount ▸ h.count, h.level⟩
  | @begun m v ls hnone hlabels hcount =>
    have hm : Letters m.name.toList := hname (.add m v) rfl
    refine ⟨fun n hn => ?_, ?_, ?_⟩
    · have hbefore := h.notices n hn
      rw [GaugeConsole.notices, List.filterMap_append, ← GaugeConsole.notices, hlabels,
        List.filterMap_cons, Lifetime.notice?_registered hn hm]
      split_ifs with hnm
      · rw [hnm, hnone] at hbefore
        rw [hnm]
        exact hbefore.begun ls
      · simpa using hbefore
    · rw [List.countP_append, List.countP_append, h.count, hcount, List.countP_singleton,
        List.countP_singleton, Lifetime.tellsBeginning_registered, Lifetime.tellsEnd_registered]
      simp only [↓reduceIte, Bool.false_eq_true]
      omega
    · exact List.forall_mem_append.2 ⟨h.level, List.forall_mem_singleton.2 rfl⟩
  | @ended m ls hsome hlabels hcount =>
    refine ⟨fun n hn => ?_, ?_, ?_⟩
    · have hbefore := h.notices n hn
      rw [GaugeConsole.notices, List.filterMap_append, ← GaugeConsole.notices, hlabels,
        List.filterMap_cons, Lifetime.notice?_unregistered]
      split_ifs with hnm
      · rw [hnm, hsome] at hbefore
        rw [hnm]
        exact hbefore.ended
      · simpa using hbefore
    · rw [List.countP_append, List.countP_append, h.count, hcount, List.countP_singleton,
        List.countP_singleton, Lifetime.tellsBeginning_unregistered, Lifetime.tellsEnd_unregistered]
      simp only [↓reduceIte, Bool.false_eq_true]
      omega
    · exact List.forall_mem_append.2 ⟨h.level, List.forall_mem_singleton.2 rfl⟩

/-- What a prefix of calls releases, the calls release. -/
theorem Released.of_prefix {pre calls : List Call} {d : Collector} (hpre : pre <+: calls)
    (h : Released r pre d) : Released r calls d := by
  obtain ⟨rest, rfl⟩ := hpre
  obtain ⟨before, after, rfl, hd⟩ := h
  exact ⟨before, after ++ rest, by simp, hd⟩

theorem shownBut_of_kept {s : Surface} {calls : List Call}
    (hkept : ∀ d, d.IsShell → ¬ Released { surface := s } calls d) :
    (run { surface := s } calls).ShownBut fun _ => False := fun _ f hf =>
  ((orderly_start s).shownBut_run (fun _ => rfl) calls hf).imp_right (hkept f.collector trivial)

theorem faithful_run {s : Surface} (calls : List Call)
    (hkept : ∀ d, d.IsShell → ¬ Released { surface := s } calls d)
    (hnames : ∀ q : Request, q.call ∈ calls → Letters q.name.toList) :
    Faithful (logged { surface := s } calls) (run { surface := s } calls) := by
  induction calls using List.reverseRecOn with
  | nil => exact .start s
  | append_singleton cs c ih =>
    have hkept' : ∀ d, d.IsShell → ¬ Released { surface := s } cs d := fun d hd hreleased =>
      hkept d hd (hreleased.of_prefix (List.prefix_append cs [c]))
    rw [logged_concat, run_append]
    refine (ih hkept' fun q hq => hnames q (List.mem_append_left _ hq)).concat
      (((orderly_start s).run cs).noted (shownBut_of_kept hkept') c) fun q hq => ?_
    exact hnames q (List.mem_append_right _ (List.mem_singleton.2 hq.symm))

/-- As long as nobody else takes a gauge family off the surface, the log tells at any time which
names are held and with which label names, in texts that only tell of one name each, and it tells
of nothing else. -/
theorem run_logs (s : Surface) (calls : List Call)
    (hkept : ∀ d, d.IsShell → ¬ Released { surface := s } calls d)
    (hnames : ∀ q : Request, q.call ∈ calls → Letters q.name.toList) {pre : List Call}
    (hpre : pre <+: calls) :
    Faithful (logged { surface := s } pre) (run { surface := s } pre)
      ∧ (run { surface := s } pre).Quiet := by
  have hkept' : ∀ d, d.IsShell → ¬ Released { surface := s } pre d := fun d hd hreleased =>
    hkept d hd (hreleased.of_prefix hpre)
  exact ⟨faithful_run pre hkept' fun q hq => hnames q (hpre.subset hq),
    ((orderly_start s).run pre).quiet (shownBut_of_kept hkept')⟩

/-- A family is left with one of its series, ends with that one, and is begun again with other
labels. In between a name is refused that somebody else has, who gives it up later. -/
theorem run_logs_begun_again :
    let up : Collector := .ofForeign .counter "up" ""
    let x : String → String → Metric := fun k v => ⟨"x", .ofList [(k, v)]⟩
    let calls : List Call := [.add (x "a" "1") .zero, .register ⟨up, id⟩, .add ⟨"up", .empty⟩ .zero,
      .add (x "a" "2") .zero, .remove (x "a" "1"), .get ⟨"y", .empty⟩, .remove (x "a" "2"),
      .add (x "b" "3") .zero, .unregister up]
    (notices "x" (logged {} calls) = [.begun "['a']", .ended, .begun "['b']"]
      ∧ notices "x" (logged {} (calls.take 7)) = [.begun "['a']", .ended])
    ∧ (∃ ls, (run {} calls).labels? "x" = some ls ∧ "['b']" = quotedList ls)
      ∧ (run {} (calls.take 7)).labels? "x" = none ∧ 2 = (run {} calls).familyCount + 1 := by
  intro up x calls
  have hkept : ∀ d, d.IsShell → ¬ Released {} calls d := by
    rintro d hshell ⟨pre, post, heq, -⟩
    have hmem : Call.unregister d ∈ calls := heq ▸ by simp
    obtain rfl : d = up := by simpa [calls] using hmem
    exact hshell
  have hletters : ∀ n ∈ ["x", "up", "y"], Letters n.toList := by
    simp only [letters_iff, ← List.all_eq_true]
    decide +kernel
  have hnames : ∀ q : Request, q.call ∈ calls → Letters q.name.toList := by
    intro q hq
    apply hletters
    cases q <;> simp only [calls, Request.call, List.mem_cons, Call.add.injEq, Call.get.injEq,
      Call.remove.injEq, reduceCtorEq, List.not_mem_nil, or_false, false_or] at hq
    · obtain ⟨rfl, -⟩ | ⟨rfl, -⟩ | ⟨rfl, -⟩ | ⟨rfl, -⟩ := hq <;> simp [x]
    · simp [hq]
    · obtain rfl | rfl := hq <;> simp [x]
  obtain ⟨hfaithful, -⟩ := run_logs {} calls hkept hnames (List.prefix_refl _)
  obtain ⟨hbefore, -⟩ := run_logs {} calls hkept hnames (List.take_prefix 7 _)
  have hnotices : notices "x" (logged {} calls) = [.begun "['a']", .ended, .begun "['b']"]
      ∧ notices "x" (logged {} (calls.take 7)) = [.begun "['a']", .ended] := by
    decide +kernel
  have hcounts : (logged {} calls).countP (·.tellsBeginning) = 2
      ∧ (logged {} calls).countP (·.tellsEnd) = 1 := by
    decide +kernel
  have hlast := (hfaithful.notices "x" (hletters "x" (by simp))).last "['b']"
  have hlast' := (hbefore.notices "x" (hletters "x" (by simp))).last
  have hcount := hfaithful.count
  rw [hnotices.1] at hlast
  rw [hnotices.2] at hlast'
  rw [hcounts.1, hcounts.2] at hcount
  refine ⟨hnotices, hlast.1 rfl, Option.eq_none_iff_forall_ne_some.2 fun ls hls => ?_, hcount⟩
  cases (hlast' _).2 ⟨ls, hls, rfl⟩

end Registry

end GaugeConsole
