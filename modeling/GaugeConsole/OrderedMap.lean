/-!
# Maps that keep their order

A map whose keys stand in the order in which they were first put in. Putting a value under a key
that is there replaces the value and keeps the place; erasing a key and putting it in again moves
it to the end. No key stands twice.
-/

namespace GaugeConsole

namespace Entries

variable {κ ν : Type} [DecidableEq κ]

def get? (k : κ) : List (κ × ν) → Option ν
  | [] => none
  | (k', v) :: r => if k' = k then some v else get? k r

/-- Replaces the value under a key, or adds the pair at the end. -/
def insert (k : κ) (v : ν) : List (κ × ν) → List (κ × ν)
  | [] => [(k, v)]
  | (k', v') :: r => if k' = k then (k, v) :: r else (k', v') :: insert k v r

def erase (k : κ) : List (κ × ν) → List (κ × ν)
  | [] => []
  | (k', v) :: r => if k' = k then r else (k', v) :: erase k r

theorem mem_keys_insert {k k' : κ} {v : ν} :
    ∀ {es : List (κ × ν)}, k' ∈ (insert k v es).map Prod.fst ↔ k' = k ∨ k' ∈ es.map Prod.fst
  | [] => by simp [insert]
  | (j, w) :: r => by
    simp only [insert]
    split
    · rename_i h
      subst h
      simp
    · have ih : k' ∈ (insert k v r).map Prod.fst ↔ k' = k ∨ k' ∈ r.map Prod.fst := mem_keys_insert
      rw [List.map_cons, List.mem_cons, List.map_cons, List.mem_cons, ih]
      grind

theorem mem_keys_erase {k k' : κ} :
    ∀ {es : List (κ × ν)}, k' ∈ (erase k es).map Prod.fst → k' ∈ es.map Prod.fst
  | [], h => by simp [erase] at h
  | (j, w) :: r, h => by
    simp only [erase] at h
    split at h
    · exact List.mem_cons_of_mem _ h
    · simp only [List.map_cons, List.mem_cons] at h ⊢
      exact h.imp_right mem_keys_erase

theorem nodup_insert {k : κ} {v : ν} :
    ∀ {es : List (κ × ν)}, (es.map Prod.fst).Nodup → ((insert k v es).map Prod.fst).Nodup
  | [], _ => by simp [insert]
  | (j, w) :: r, h => by
    simp only [List.map_cons, List.nodup_cons] at h
    simp only [insert]
    split
    · rename_i hj
      subst hj
      simpa using h
    · rename_i hj
      simp only [List.map_cons, List.nodup_cons, mem_keys_insert, not_or]
      exact ⟨⟨hj, h.1⟩, nodup_insert h.2⟩

theorem nodup_erase {k : κ} :
    ∀ {es : List (κ × ν)}, (es.map Prod.fst).Nodup → ((erase k es).map Prod.fst).Nodup
  | [], _ => by simp [erase]
  | (j, w) :: r, h => by
    simp only [List.map_cons, List.nodup_cons] at h
    simp only [erase]
    split
    · exact h.2
    · simp only [List.map_cons, List.nodup_cons]
      exact ⟨fun hj => h.1 (mem_keys_erase hj), nodup_erase h.2⟩

theorem get?_insert {k k' : κ} {v : ν} :
    ∀ {es : List (κ × ν)}, get? k' (insert k v es) = if k' = k then some v else get? k' es
  | [] => by simp [insert, get?, eq_comm]
  | (j, w) :: r => by
    by_cases hj : j = k
    · subst hj
      by_cases hk : k' = j <;> simp [insert, get?, hk, Ne.symm]
    · by_cases hk : j = k'
      · subst hk
        simp [insert, get?, hj]
      · simp only [insert, hj, ↓reduceIte, get?, hk]
        exact get?_insert

theorem get?_eq_none_iff {k : κ} :
    ∀ {es : List (κ × ν)}, get? k es = none ↔ k ∉ es.map Prod.fst
  | [] => by simp [get?]
  | (j, w) :: r => by
    have ih : get? k r = none ↔ k ∉ r.map Prod.fst := get?_eq_none_iff
    by_cases hj : j = k
    · simp [get?, hj]
    · rw [List.map_cons, List.mem_cons, not_or, ← ih]
      simp [get?, hj, Ne.symm hj]

theorem get?_erase {k k' : κ} :
    ∀ {es : List (κ × ν)}, (es.map Prod.fst).Nodup →
      get? k' (erase k es) = if k' = k then none else get? k' es
  | [], _ => by simp [erase, get?]
  | (j, w) :: r, h => by
    simp only [List.map_cons, List.nodup_cons] at h
    by_cases hj : j = k
    · subst hj
      by_cases hk : k' = j
      · subst hk
        simpa [erase] using get?_eq_none_iff.2 h.1
      · simp [erase, get?, hk, Ne.symm hk]
    · by_cases hk : j = k'
      · subst hk
        simp [erase, get?, hj]
      · simp only [erase, hj, ↓reduceIte, get?, hk]
        exact get?_erase h.2

theorem mem_iff_get? {k : κ} {v : ν} :
    ∀ {es : List (κ × ν)}, (es.map Prod.fst).Nodup → ((k, v) ∈ es ↔ get? k es = some v)
  | [], _ => by simp [get?]
  | (j, w) :: r, h => by
    simp only [List.map_cons, List.nodup_cons] at h
    have ih := mem_iff_get? (k := k) (v := v) h.2
    by_cases hj : j = k
    · subst hj
      have hv : (j, v) ∉ r := fun hm => h.1 (List.mem_map_of_mem hm)
      simp [get?, hv, eq_comm]
    · simp [get?, hj, Ne.symm hj, ih]

theorem map_insert {β : Type} {φ : κ × ν → β} {k : κ} {v w : ν} (hφ : φ (k, v) = φ (k, w)) :
    ∀ {es : List (κ × ν)}, get? k es = some w → (insert k v es).map φ = es.map φ
  | [], h => by simp [get?] at h
  | (j, u) :: r, h => by
    by_cases hj : j = k
    · subst hj
      obtain rfl : u = w := by simpa [get?] using h
      simp [insert, hφ]
    · rw [get?, if_neg hj] at h
      simp [insert, hj, map_insert hφ h]

theorem insert_of_not_mem {k : κ} {v : ν} :
    ∀ {es : List (κ × ν)}, k ∉ es.map Prod.fst → insert k v es = es ++ [(k, v)]
  | [], _ => rfl
  | (j, w) :: r, h => by
    rw [List.map_cons, List.mem_cons, not_or] at h
    rw [insert, if_neg (Ne.symm h.1), insert_of_not_mem h.2, List.cons_append]

/-- Of two values that are put under a key the second counts. -/
theorem insert_insert {k : κ} {v w : ν} :
    ∀ {es : List (κ × ν)}, insert k w (insert k v es) = insert k w es
  | [] => by simp [insert]
  | (j, u) :: r => by
    by_cases hj : j = k
    · simp [insert, hj]
    · simp [insert, hj, insert_insert]

theorem erase_eq_filter {k : κ} :
    ∀ {es : List (κ × ν)}, (es.map Prod.fst).Nodup → erase k es = es.filter (·.1 ≠ k)
  | [], _ => rfl
  | (j, w) :: r, h => by
    rw [List.map_cons, List.nodup_cons] at h
    by_cases hj : j = k
    · subst hj
      have hr : r.filter (fun e => decide (e.1 ≠ j)) = r := by
        refine List.filter_eq_self.2 fun e he => decide_eq_true fun hej => h.1 ?_
        exact List.mem_map.2 ⟨e, he, hej⟩
      rw [erase, if_pos rfl, List.filter_cons_of_neg (by simp), hr]
    · simp [erase, hj, erase_eq_filter h.2]

end Entries

/-- Pairs of different keys, in the order in which the keys came. -/
@[ext]
structure OrderedMap (κ ν : Type) [DecidableEq κ] where
  entries : List (κ × ν)
  nodup : (entries.map Prod.fst).Nodup

namespace OrderedMap

variable {κ ν : Type} [DecidableEq κ]

instance [DecidableEq ν] : DecidableEq (OrderedMap κ ν) := fun _ _ =>
  decidable_of_iff _ OrderedMap.ext_iff.symm

def empty : OrderedMap κ ν := ⟨[], by simp⟩

instance : EmptyCollection (OrderedMap κ ν) := ⟨empty⟩
instance : Inhabited (OrderedMap κ ν) := ⟨empty⟩

def get? (m : OrderedMap κ ν) (k : κ) : Option ν := Entries.get? k m.entries

def insert (m : OrderedMap κ ν) (k : κ) (v : ν) : OrderedMap κ ν :=
  ⟨Entries.insert k v m.entries, Entries.nodup_insert m.nodup⟩

def erase (m : OrderedMap κ ν) (k : κ) : OrderedMap κ ν :=
  ⟨Entries.erase k m.entries, Entries.nodup_erase m.nodup⟩

def keys (m : OrderedMap κ ν) : List κ := m.entries.map Prod.fst

def values (m : OrderedMap κ ν) : List ν := m.entries.map Prod.snd

def size (m : OrderedMap κ ν) : Nat := m.entries.length

def isEmpty (m : OrderedMap κ ν) : Bool := m.entries.isEmpty

def ofList (ps : List (κ × ν)) : OrderedMap κ ν :=
  ps.foldl (fun m p => m.insert p.1 p.2) empty

variable {m : OrderedMap κ ν} {k k' : κ} {v : ν}

@[simp] theorem get?_empty : (∅ : OrderedMap κ ν).get? k = none := rfl

theorem get?_insert : (m.insert k v).get? k' = if k' = k then some v else m.get? k' :=
  Entries.get?_insert

@[simp] theorem get?_insert_self : (m.insert k v).get? k = some v := by simp [get?_insert]

theorem get?_erase : (m.erase k).get? k' = if k' = k then none else m.get? k' :=
  Entries.get?_erase m.nodup

@[simp] theorem get?_erase_self : (m.erase k).get? k = none := by simp [get?_erase]

theorem mem_entries_iff : (k, v) ∈ m.entries ↔ m.get? k = some v := Entries.mem_iff_get? m.nodup

theorem isEmpty_iff : m.isEmpty ↔ ∀ k, m.get? k = none := by
  refine ⟨fun h k => ?_, fun h => ?_⟩
  · have he : m.entries = [] := List.isEmpty_iff.1 h
    simp [get?, he, Entries.get?]
  · refine List.isEmpty_iff.2 (List.eq_nil_iff_forall_not_mem.2 fun p hp => ?_)
    have := mem_entries_iff.1 (show (p.1, p.2) ∈ m.entries from hp)
    rw [h] at this
    simp at this

theorem mem_keys_iff : k ∈ m.keys ↔ (m.get? k).isSome := by
  rw [← Option.ne_none_iff_isSome, ne_eq, get?, Entries.get?_eq_none_iff, Classical.not_not, keys]

/-- What is the same about the old and the new value of a key stays as it is in every place. -/
theorem map_entries_insert {β : Type} {φ : κ × ν → β} {w : ν} (h : m.get? k = some w)
    (hφ : φ (k, v) = φ (k, w)) : (m.insert k v).entries.map φ = m.entries.map φ :=
  Entries.map_insert hφ h

theorem insert_of_get? (h : m.get? k = some v) : m.insert k v = m :=
  OrderedMap.ext (by simpa using map_entries_insert (φ := id) h rfl)

theorem insert_insert {w : ν} : (m.insert k v).insert k w = m.insert k w :=
  OrderedMap.ext Entries.insert_insert

theorem entries_insert (h : m.get? k = none) :
    (m.insert k v).entries = m.entries ++ [(k, v)] :=
  Entries.insert_of_not_mem (Entries.get?_eq_none_iff.1 h)

theorem entries_erase : (m.erase k).entries = m.entries.filter (·.1 ≠ k) :=
  Entries.erase_eq_filter m.nodup

/-- A new key goes last, so that the others keep their places when it goes away again. -/
theorem erase_insert (h : m.get? k = none) : (m.insert k v).erase k = m := by
  have hkeys : m.entries.filter (·.1 ≠ k) = m.entries := by
    refine List.filter_eq_self.2 fun e he => decide_eq_true fun hk => ?_
    have hsome := mem_entries_iff.1 (show (e.1, e.2) ∈ m.entries from he)
    rw [hk, h] at hsome
    cases hsome
  refine OrderedMap.ext ?_
  rw [entries_erase, entries_insert h, List.filter_append, hkeys]
  simp

theorem keys_insert :
    (m.insert k v).keys = m.keys ∨ k ∉ m.keys ∧ (m.insert k v).keys = m.keys ++ [k] := by
  rcases h : m.get? k with _ | w
  · refine .inr ⟨by simp [mem_keys_iff, h], ?_⟩
    rw [keys, entries_insert h, List.map_append, keys, List.map_singleton]
  · exact .inl (map_entries_insert h rfl)

theorem keys_erase : (m.erase k).keys.Sublist m.keys := by
  rw [keys, entries_erase]
  exact List.filter_sublist.map _

theorem isEmpty_erase_iff (h : k ∈ m.keys) : (m.erase k).isEmpty ↔ m.keys = [k] := by
  rw [isEmpty, entries_erase, List.isEmpty_iff, List.filter_eq_nil_iff]
  constructor
  · intro hall
    have hk : ∀ j ∈ m.keys, j = k := by
      intro j hj
      obtain ⟨e, he, rfl⟩ := List.mem_map.1 hj
      simpa using hall e he
    have hnodup : m.keys.Nodup := m.nodup
    match hkeys : m.keys with
    | [] => simp [hkeys] at h
    | [j] => rw [hk j (by simp [hkeys])]
    | i :: j :: r =>
      rw [hk i (by simp [hkeys]), hk j (by simp [hkeys])] at hkeys
      simp [hkeys] at hnodup
  · intro hkeys e he
    have hmem : e.1 ∈ m.keys := List.mem_map_of_mem he
    rw [hkeys, List.mem_singleton] at hmem
    simp [hmem]

theorem get?_foldl_insert (k : κ) :
    ∀ (ps : List (κ × ν)) (m : OrderedMap κ ν),
      (ps.foldl (fun m p => m.insert p.1 p.2) m).get? k
        = ((ps.reverse.find? (·.1 = k)).map Prod.snd).or (m.get? k)
  | [], m => by simp
  | p :: ps, m => by
    rw [List.foldl_cons, get?_foldl_insert k ps, List.reverse_cons, List.find?_append, get?_insert]
    by_cases hk : p.1 = k
    · cases ps.reverse.find? (·.1 = k) <;> simp [hk]
    · cases ps.reverse.find? (·.1 = k) <;> simp [hk, Ne.symm hk]

/-- Of the pairs with one key the last counts. -/
theorem get?_ofList (ps : List (κ × ν)) (k : κ) :
    (ofList ps).get? k = (ps.reverse.find? (·.1 = k)).map Prod.snd := by
  rw [ofList, get?_foldl_insert, show (empty : OrderedMap κ ν).get? k = none from rfl,
    Option.or_none]

end OrderedMap

end GaugeConsole
