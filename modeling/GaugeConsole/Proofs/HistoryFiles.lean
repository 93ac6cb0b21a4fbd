import GaugeConsole.Files
import GaugeConsole.History
import Mathlib.Data.List.DropRight

/-!
# The history as a file

What is written under a path is what is read there afterwards (`Files.read_of_write`): the way that
the path goes leads through directories only, so what is put at its end is not on it. In the text of
a history each of the last entries has a line of its own (`History.toText_eq`).
-/

namespace GaugeConsole

namespace Files

variable {f f' : Files} {p q : List String} {n : Node} {path text : String}

theorem node?_insert_of_ne (h : q ≠ p) : (⟨f.nodes.insert p n⟩ : Files).node? q = f.node? q := by
  simp only [node?, OrderedMap.get?_insert, h, ↓reduceIte]

theorem node?_insert_self (h : f.node? p ≠ some .directory) :
    (⟨f.nodes.insert p n⟩ : Files).node? p = some n := by
  rw [node?] at h ⊢
  split_ifs at h ⊢ with hroot
  · exact absurd rfl h
  · rw [OrderedMap.get?_insert_self]

/-- A path that leads to no directory leads there still when something is put there. -/
theorem follow_insert (hp : f.node? p ≠ some .directory) :
    ∀ (cs : List (List Char)) {here : List String}, f.follow here cs = .ok p →
      (⟨f.nodes.insert p n⟩ : Files).follow here cs = .ok p
  | [], _, h => h
  | c :: r, here, h => by
    rw [follow] at h ⊢
    split_ifs at h ⊢ with hsame hup hlong hlast
    · exact follow_insert hp r h
    · exact follow_insert hp r h
    · exact h
    · rcases hnode : f.node? (here ++ [String.ofList c]) with _ | _ | text <;>
        simp only [hnode] at h
      · cases h
      · -- a directory on the way is not where the path ends
        have hne : here ++ [String.ofList c] ≠ p := by
          rintro rfl
          exact hp hnode
        simp only [node?_insert_of_ne hne, hnode]
        exact follow_insert hp r h
      · cases h

theorem place_insert {path : List Char} (hp : f.node? p ≠ some .directory)
    (h : f.place path = .ok p) : (⟨f.nodes.insert p n⟩ : Files).place path = .ok p := by
  unfold place at h ⊢
  split at h
  · cases h
  · split_ifs at h ⊢ with hlong hslash
    · exact follow_insert hp _ h
    · exact follow_insert hp _ h

theorem write_eq_ok_iff : f.write path text = .ok f' ↔ ∃ p, f.place path.toList = .ok p
    ∧ f.node? p ≠ some .directory ∧ f' = ⟨f.nodes.insert p (.file text)⟩ := by
  rw [write]
  rcases f.place path.toList with e | p
  · simp
  · rcases hnode : f.node? p with _ | _ | old <;> simp [hnode, eq_comm]

theorem read_of_write (h : f.write path text = .ok f') : f'.read path = .ok text := by
  obtain ⟨p, hplace, hnode, rfl⟩ := write_eq_ok_iff.1 h
  simp only [read, place_insert hnode hplace, node?_insert_self hnode]

/-- A file can be written under the path, once the directory that it is to stand in is made. -/
def Writable (f : Files) (path : String) : Prop :=
  '\x00' ∉ path.toList ∧ ∃ g g', f.prepare path = (g, .ok ()) ∧ g.write path "" = .ok g'

theorem Writable.exists_write (h : f.Writable path) (text : String) :
    ∃ g g', f.prepare path = (g, .ok ()) ∧ g.write path text = .ok g' := by
  obtain ⟨-, g, g', hprepare, hwrite⟩ := h
  obtain ⟨p, hplace, hnode, -⟩ := write_eq_ok_iff.1 hwrite
  exact ⟨g, _, hprepare, write_eq_ok_iff.2 ⟨p, hplace, hnode, rfl⟩⟩

/-- The entries of the history that is under the path, if it can be read. -/
def entries (f : Files) (path : String) : List String :=
  match f.read path with
  | .ok text => History.ofText text
  | .error _ => []

end Files

namespace History

variable {l r : List Char} {limit : ℤ} {line text : String}

/-- The last entries up to a limit, if there is one. -/
def cut {α : Type} (limit : ℤ) (entries : List α) : List α :=
  if limit < 0 then entries else entries.rtake limit.toNat

/-- An entry that can stand on a line of its own. -/
def IsLine (e : String) : Prop := e ≠ "" ∧ '\n' ∉ e.toList

theorem isLine_of_isKept (hkept : isKept line) (hline : '\n' ∉ line.toList) : IsLine line := by
  refine ⟨?_, hline⟩
  rintro rfl
  exact absurd hkept (by decide)

theorem terminated_append (r : List Char) :
    ∀ {l : List Char}, '\n' ∉ l → terminated (l ++ '\n' :: r) = l :: terminated r
  | [], _ => rfl
  | c :: l, h => by
    rw [List.mem_cons, not_or] at h
    rw [List.cons_append, terminated, terminated_append r h.2]
    exact fun hc => h.1 hc.symm

theorem terminated_flatMap : ∀ {ls : List (List Char)}, (∀ l ∈ ls, '\n' ∉ l) →
    terminated (ls.flatMap (· ++ ['\n'])) = ls
  | [], _ => rfl
  | l :: ls, h => by
    rw [List.flatMap_cons, List.append_assoc, List.singleton_append,
      terminated_append _ (h l List.mem_cons_self),
      terminated_flatMap fun m hm => h m (List.mem_cons_of_mem _ hm)]

theorem not_mem_of_mem_terminated :
    ∀ (cs : List Char) {l : List Char}, l ∈ terminated cs → '\n' ∉ l
  | [], _, h => by simp [terminated] at h
  | c :: cs, _, h => by
    by_cases hc : c = '\n'
    · rw [hc, terminated, List.mem_cons] at h
      rcases h with rfl | h
      · exact List.not_mem_nil
      · exact not_mem_of_mem_terminated cs h
    · rw [terminated] at h
      · rcases hcs : terminated cs with _ | ⟨m, ms⟩ <;> rw [hcs] at h
        · simp at h
        · rcases List.mem_cons.1 h with rfl | hl
          · have hm : '\n' ∉ m := not_mem_of_mem_terminated cs (by simp [hcs])
            simp [hm, Ne.symm hc]
          · exact not_mem_of_mem_terminated cs (by simp [hcs, hl])
      · exact hc

theorem mem_of_mem_visible {c : Char} (h : c ∈ visible l) : c ∈ l := by
  have hmem : c ∈ dropReturn l := List.takeWhile_sublist _ |>.subset h
  rw [dropReturn] at hmem
  split_ifs at hmem
  · exact (List.dropLast_sublist l).subset hmem
  · exact hmem

theorem isLine_of_mem_ofText {e : String} (h : e ∈ ofText text) : IsLine e := by
  obtain ⟨l, hl, rfl⟩ := List.mem_map.1 h
  obtain ⟨hl, hne⟩ := List.mem_filter.1 hl
  have hvisible : l ∈ (terminated text.toList).map visible := by
    split_ifs at hl
    · exact (List.mem_filter.1 hl).1
    · exact hl
  obtain ⟨m, hm, rfl⟩ := List.mem_map.1 hvisible
  refine ⟨fun hnil => ?_, fun hn => ?_⟩
  · exact of_decide_eq_true hne (by simpa using congrArg String.toList hnil)
  · rw [String.toList_ofList] at hn
    exact not_mem_of_mem_terminated _ hm (mem_of_mem_visible hn)

/-- Lines that are read as they are: in none of them is there anything that reading leaves out, and
the first one does not tell the time of an entry. -/
structure Plain (lines : List String) : Prop where
  noBreak : ∀ line ∈ lines, '\n' ∉ line.toList
  noNull : ∀ line ∈ lines, '\x00' ∉ line.toList
  noReturn : ∀ line ∈ lines, line.toList.getLast? ≠ some '\r'
  noTime : ∀ line ∈ lines.head?, isTime line.toList = false

theorem visible_of_plain {lines : List String} (h : Plain lines) (hline : line ∈ lines) :
    visible line.toList = line.toList := by
  rw [visible, dropReturn, if_neg (h.noReturn line hline), List.takeWhile_eq_self_iff]
  rintro c hc
  simpa using ne_of_mem_of_not_mem hc (h.noNull line hline)

theorem isTime_append : ∀ l : List Char, isTime (l ++ '\n' :: r) = isTime l
  | [] => rfl
  | [c] => by by_cases hc : c = '#' <;> simp [isTime, hc, isDigit]
  | c :: d :: l => by by_cases hc : c = '#' <;> simp [isTime, hc]

/-- Reading such a text gives its lines, but for the empty ones. -/
theorem ofText_plain {lines : List String} (h : Plain lines) :
    ofText (String.join (lines.map (· ++ "\n"))) = lines.filter (· ≠ "") := by
  have htext : (String.join (lines.map (· ++ "\n"))).toList
      = (lines.map String.toList).flatMap (· ++ ['\n']) := by
    simp [String.toList_join, List.flatMap_map]
  have htime : isTime (String.join (lines.map (· ++ "\n"))).toList = false := by
    rw [htext]
    rcases lines with _ | ⟨line, lines⟩
    · rfl
    · rw [List.map_cons, List.flatMap_cons, List.append_assoc]
      exact (isTime_append _).trans (h.noTime line rfl)
  have hlines : (terminated (String.join (lines.map (· ++ "\n"))).toList).map visible
      = lines.map String.toList := by
    rw [htext, terminated_flatMap, List.map_map]
    · exact List.map_congr_left fun line hline => visible_of_plain h hline
    · intro l hl
      obtain ⟨line, hline, rfl⟩ := List.mem_map.1 hl
      exact h.noBreak line hline
  rw [ofText]
  simp only [htime, hlines, Bool.false_eq_true, ↓reduceIte, List.filter_map, List.map_map]
  have hne : (fun l : List Char => decide (l ≠ [])) ∘ String.toList
      = fun line : String => decide (line ≠ "") := by
    funext line
    simp
  have hid : String.ofList ∘ String.toList = id := funext fun _ => String.ofList_toList
  rw [hne, hid, List.map_id]

theorem measured_flatMap {ls : List (List Char)} (h : ∀ l ∈ ls, l ≠ [] ∧ '\n' ∉ l) :
    measured (ls.flatMap (· ++ ['\n'])) = ls := by
  rw [measured, terminated_flatMap fun l hl => (h l hl).2]
  split
  · exact absurd rfl (h [] List.mem_cons_self).1
  · rfl

theorem lastLines_map (limit : ℤ) (entries : List String) :
    lastLines limit (entries.map String.toList) = (cut limit entries).map String.toList := by
  rw [lastLines, cut]
  split_ifs
  · rfl
  · rw [List.rtake, List.length_map, List.map_drop]

/-- A history has a line for each of its last entries. -/
theorem toText_eq {entries : List String} (h : ∀ e ∈ entries, IsLine e) :
    toText limit entries = String.join ((cut limit entries).map (· ++ "\n")) := by
  have hlines : ∀ l ∈ entries.map String.toList, l ≠ [] ∧ '\n' ∉ l := by
    intro l hl
    obtain ⟨e, he, rfl⟩ := List.mem_map.1 hl
    exact ⟨fun hnil => (h e he).1 (String.toList_injective hnil), (h e he).2⟩
  have hall : entries.flatMap (fun e => e.toList ++ ['\n'])
      = (entries.map String.toList).flatMap (· ++ ['\n']) := by rw [List.flatMap_map]
  rw [toText, hall, measured_flatMap hlines, lastLines_map]
  apply String.toList_injective
  simp [String.toList_join, List.flatMap_map]

end History

theorem Files.entries_of_plain {f : Files} {path : String} {lines : List String}
    (hlines : History.Plain lines)
    (h : f.read path = .ok (String.join (lines.map (· ++ "\n")))) :
    f.entries path = lines.filter (· ≠ "") := by
  simp only [entries, h, History.ofText_plain hlines]

theorem Files.isLine_of_mem_entries {f : Files} {path e : String} (h : e ∈ f.entries path) :
    History.IsLine e := by
  rw [entries] at h
  split at h
  · exact History.isLine_of_mem_ofText h
  · cases h

end GaugeConsole
