import Strongbox.Proofs.Name
import Strongbox.Proofs.Text.Blank
import Strongbox.Proofs.Text.Split

/-!
# What a safe name is made of

A name that was made safe is the last part of the given one that names something, without the
blanks around it. It is a plain name: whatever folder it is put into, it leads to an entry of that
folder and nowhere else.

## Main definitions

* `Name.IsEntry`: a part of a path names something.
* `Name.HasEntry`, `Name.IsLast`: a path has such a part, and which one is the last.
* `Name.IsPlain`: a name that is safe as it is.
* `steps`: the names along a written path.

## Main statements

* `Name.getLast?_components_iff`: the last component is the last part that names something.
* `steps_joinPath`, `Tree.locate_joinPath`: where a path with one more step leads.
* `Name.reduces_to_last_part`: what names are made safe, and what becomes of them.
-/

namespace Strongbox

/-! ## Parts of a path -/

namespace Name

variable {name part kept : List Char}

def isSlash (c : Char) : Bool := c == '/' || c == '\\'

/-- A part of a path names something. Without a name it would be nothing, and with dots only it
would be the folder itself or the one around it. -/
def IsEntry (part : List Char) : Prop := ¬ (part = [] ∨ part = ['.'] ∨ part = ['.', '.'])

/-- Between slashes of a path there is a part that names something. -/
def HasEntry (name : List Char) : Prop :=
  ∃ before part after, name = before ++ part ++ after ∧ Text.Stands isSlash before part after ∧
    IsEntry part

/-- A part of a path names something, and what follows it has no such part. -/
def IsLast (name part : List Char) : Prop :=
  ∃ before after, name = before ++ part ++ after ∧ Text.Stands isSlash before part after ∧
    IsEntry part ∧ ¬ HasEntry after

theorem isEntry_iff : (!part.isEmpty && !isDots part) = true ↔ IsEntry part := by
  simp [IsEntry, isDots]

theorem isUnusable_iff : (part.isEmpty || isDots part) = true ↔ ¬ IsEntry part := by
  rw [IsEntry, Classical.not_not]
  simp [isDots]

theorem split_slashed (name : List Char) :
    Text.split '/' (slashed name) = name.splitOnP isSlash := by
  rw [Text.split_eq_splitOn]
  induction name with
  | nil => rfl
  | cons c name ih =>
    rw [List.splitOnP_cons_eq_if_modifyHead, ← ih, slashed, List.map_cons,
      List.splitOn_cons_eq_if_modifyHead]
    by_cases slash : c = '\\' <;> simp [slash, isSlash, slashed]

theorem components_eq (name : List Char) :
    components name = (name.splitOnP isSlash).filter fun part => !part.isEmpty && !isDots part := by
  rw [components, split_slashed]

theorem components_eq_nil_iff : components name = [] ↔ ¬ HasEntry name := by
  simp only [components_eq, List.filter_eq_nil_iff, isEntry_iff]
  constructor
  · rintro none ⟨before, part, after, rfl, stands, entry⟩
    obtain ⟨xs, ys, split, -⟩ := stands.splitOnP_eq
    exact none part (split ▸ by simp) entry
  · intro none part hpart entry
    obtain ⟨xs, ys, split⟩ := List.append_of_mem hpart
    obtain ⟨before, after, whole, stands, -⟩ := Text.stands_of_splitOnP split
    exact none ⟨before, part, after, whole, stands, entry⟩

/-- The last component is the last part that names something. -/
theorem getLast?_components_iff : (components name).getLast? = some part ↔ IsLast name part := by
  have rest {after : List Char} {ys : List (List Char)}
      (ends : after.splitOnP isSlash = [] :: ys) :
      ys.filter (fun part => !part.isEmpty && !isDots part) = [] ↔ ¬ HasEntry after := by
    rw [← components_eq_nil_iff, components_eq, ends]
    simp
  constructor
  · intro last
    obtain ⟨front, whole⟩ := List.getLast?_eq_some_iff.1 last
    rw [components_eq, List.filter_eq_append_iff] at whole
    obtain ⟨xs, more, split, -, more_eq⟩ := whole
    obtain ⟨skipped, ys, rfl, passed, entry, none⟩ := List.filter_eq_cons_iff.1 more_eq
    rw [← List.append_assoc] at split
    obtain ⟨before, after, whole, stands, ends⟩ := Text.stands_of_splitOnP split
    exact ⟨before, after, whole, stands, isEntry_iff.1 entry, (rest ends).1 none⟩
  · rintro ⟨before, after, rfl, stands, entry, none⟩
    obtain ⟨xs, ys, split, ends⟩ := stands.splitOnP_eq
    rw [components_eq, split, List.filter_append, List.filter_cons, (rest ends).2 none,
      if_pos (isEntry_iff.2 entry)]
    simp

/-! ## Safe names -/

/-- A name is safe as it is: a plain step from a folder to an entry, without slashes of either kind
and without blanks at its ends. -/
structure IsPlain (name : String) : Prop where
  step : IsStep name
  straight : '\\' ∉ name.toList
  begins : ∀ c ∈ name.toList.head?, Text.isBlank c = false
  ends : ∀ c ∈ name.toList.getLast?, Text.isBlank c = false

theorem bare?_eq_some_iff :
    bare? name = some kept ↔ ∃ part, IsLast name part ∧ Text.trim part = kept ∧ IsEntry kept := by
  simp only [← getLast?_components_iff]
  unfold bare?
  cases (components name).getLast? with
  | none => simp
  | some part =>
    simp only [Option.some.injEq, exists_eq_left']
    by_cases entry : IsEntry (Text.trim part)
    · rw [if_neg fun h => isUnusable_iff.1 h entry, Option.some.injEq]
      exact ⟨fun same => ⟨same, same ▸ entry⟩, And.left⟩
    · rw [if_pos (isUnusable_iff.2 entry)]
      exact ⟨nofun, fun ⟨same, h⟩ => absurd (same ▸ h) entry⟩

theorem bare?_eq_none_iff : bare? name = none ↔
    ¬ HasEntry name ∨ ∃ part, IsLast name part ∧ ¬ IsEntry (Text.trim part) := by
  simp only [← getLast?_components_iff, ← components_eq_nil_iff, ← List.getLast?_eq_none_iff]
  unfold bare?
  cases (components name).getLast? with
  | none => simp
  | some part =>
    simp only [reduceCtorEq, false_or, Option.some.injEq, exists_eq_left', ← isUnusable_iff]
    split <;> simp [*]

theorem safe_eq_ok_iff {name kept : String} :
    safe name = .ok kept ↔ bare? name.toList = some kept.toList := by
  unfold safe
  cases bare? name.toList with
  | none => simp
  | some k =>
    simp only [Except.ok.injEq, Option.some.injEq]
    exact ⟨fun h => h ▸ String.toList_ofList.symm, fun h => h ▸ String.ofList_toList⟩

theorem exists_safe_eq_error_iff {name : String} :
    (∃ f, safe name = .error f) ↔ bare? name.toList = none := by
  unfold safe
  cases bare? name.toList <;> simp

theorem isEntry_toList_iff {name : String} :
    IsEntry name.toList ↔ name ≠ "" ∧ name ≠ "." ∧ name ≠ ".." := by
  simp only [IsEntry, not_or, ne_eq, ← String.toList_inj]
  exact Iff.rfl

theorem isPlain_of_safe {name kept : String} (h : safe name = .ok kept) : IsPlain kept := by
  obtain ⟨part, ⟨before, after, -, stands, -⟩, trimmed, -⟩ :=
    bare?_eq_some_iff.1 (safe_eq_ok_iff.1 h)
  have ⟨begins, ends⟩ := Text.not_blank_of_trim (s := part)
  rw [trimmed] at begins ends
  refine ⟨isStep_of_safe h, fun back => ?_, begins, ends⟩
  have inside := stands.solid _ (Text.mem_of_mem_trim (trimmed ▸ back))
  exact absurd inside (by decide)

/-- A plain name is its own last part, and is left as it is. -/
theorem safe_of_isPlain {name : String} (h : IsPlain name) : safe name = .ok name := by
  have solid : ∀ c ∈ name.toList, isSlash c = false := by
    intro c hc
    simp only [isSlash, Bool.or_eq_false_iff, beq_eq_false_iff_ne]
    exact ⟨fun slash => h.step.single (slash ▸ hc), fun back => h.straight (back ▸ hc)⟩
  have entry : IsEntry name.toList :=
    isEntry_toList_iff.2 ⟨h.step.nonempty, h.step.not_here, h.step.not_up⟩
  have nothing : ¬ HasEntry [] := by
    rintro ⟨before, part, after, whole, -, entry⟩
    exact entry (.inl (by simp_all))
  refine safe_eq_ok_iff.2 (bare?_eq_some_iff.2 ⟨name.toList, ?_, ?_, entry⟩)
  · exact ⟨[], [], by simp, ⟨by simp, by simp, solid⟩, entry, nothing⟩
  · exact Text.trim_of_ends h.begins h.ends

end Name

/-! ## One more step along a path -/

/-- The names along a written path. Steps that lead nowhere are left out. -/
def steps (path : String) : List String :=
  ((Text.split '/' path.toList).map String.ofList).filter fun step => step ≠ "" ∧ step ≠ "."

def IsAbsolute (path : String) : Prop := path.toList.head? = some '/'

variable {dest r : String}

/-- One more name is the last piece of a path; before it are the pieces of the path, except for an
empty one at its end. -/
theorem exists_split_joinPath (dest : String) (step : IsStep r) :
    ∃ before, Text.split '/' (joinPath dest r).toList = before ++ [r.toList] ∧
      (Text.split '/' dest.toList = before ∨ Text.split '/' dest.toList = before ++ [[]]) := by
  simp only [Text.split_eq_splitOn]
  have alone : r.toList.splitOn '/' = [r.toList] := List.splitOn_eq_singleton step.single
  have next (d : List Char) : (d ++ '/' :: r.toList).splitOn '/' = d.splitOn '/' ++ [r.toList] := by
    rw [List.splitOn_append_cons_self, alone]
  unfold joinPath
  by_cases blank : dest = ""
  · exact ⟨[], by simp [blank, alone], .inr (by simp [blank])⟩
  by_cases ended : dest.toList.getLast? = some '/'
  · obtain ⟨d, hd⟩ := List.getLast?_eq_some_iff.1 ended
    refine ⟨d.splitOn '/', ?_, .inr ?_⟩
    · simp [hd, next]
    · rw [hd, List.splitOn_append_cons_self]
      simp
  · refine ⟨dest.toList.splitOn '/', ?_, .inl rfl⟩
    simp [blank, ended, next]

theorem steps_joinPath (dest : String) (step : IsStep r) :
    steps (joinPath dest r) = steps dest ++ [r] := by
  obtain ⟨before, joined, whole⟩ := exists_split_joinPath dest step
  have kept : [String.ofList r.toList].filter (fun step => step ≠ "" ∧ step ≠ ".") = [r] := by
    simp [step.nonempty, step.not_here]
  rw [steps, joined, List.map_append, List.filter_append]
  rcases whole with whole | whole <;> simp [steps, whole, step.nonempty, step.not_here]

theorem isAbsolute_joinPath (dest : String) (step : IsStep r) :
    IsAbsolute (joinPath dest r) ↔ IsAbsolute dest := by
  have first : r.toList.head? ≠ some '/' := fun h => step.single (List.mem_of_mem_head? h)
  unfold IsAbsolute joinPath
  by_cases blank : dest = ""
  · simp [blank, first]
  · have some : dest.toList ≠ [] := by simpa using blank
    obtain ⟨c, rest, hd⟩ := List.exists_cons_of_ne_nil some
    split <;> simp [hd]

namespace Tree

variable {t : Tree} {p q : Path}

theorem folder_eq_ok_iff {text : String} :
    t.folder text = .ok p ↔ t.locate text = .ok p ∧ t.isFolder p = true := by
  rw [folder, bind_eq_ok_iff]
  constructor
  · rintro ⟨there, located, h⟩
    split at h
    · next isFolder =>
      cases h
      exact ⟨located, isFolder⟩
    · cases h
  · rintro ⟨located, isFolder⟩
    exact ⟨p, located, if_pos isFolder⟩

theorem locate_eq_ok_iff {text : String} : t.locate text = .ok p ↔ ¬ IsAbsolute text ∧
    ((Text.split '/' text.toList).map String.ofList).foldlM t.walk [] = .ok p := by
  unfold locate IsAbsolute
  split <;> simp [*]

theorem eq_of_walk_idle (h : t.walk p "" = .ok q) : q = p := by
  unfold walk at h
  split at h
  · cases h
  · exact (Except.ok.inj h).symm

theorem walk_of_isStep (isFolder : t.isFolder p = true) (step : IsStep r) :
    t.walk p r = .ok q ↔ q = p ++ [r] ∧ (t.get? q).isSome = true := by
  have idle : ¬ (r = "" ∨ r = ".") := not_or.2 ⟨step.nonempty, step.not_here⟩
  have up : ¬ (r = ".." ∧ p ≠ []) := fun h => step.not_up h.1
  rw [walk, isFolder, if_neg (by simp), if_neg idle, if_neg up]
  cases there : t.get? (p ++ [r]) with
  | some n =>
    simp only [Except.ok.injEq]
    exact ⟨fun h => ⟨h.symm, h ▸ there ▸ rfl⟩, fun h => h.1.symm⟩
  | none =>
    refine ⟨nofun, fun ⟨same, present⟩ => ?_⟩
    rw [same, there] at present
    cases present

/-- A path with one more step leads to the entry of the folder that has this name. -/
theorem locate_joinPath (found : t.folder dest = .ok p) (step : IsStep r) :
    t.locate (joinPath dest r) = .ok q ↔ q = p ++ [r] ∧ (t.get? q).isSome = true := by
  obtain ⟨located, isFolder⟩ := folder_eq_ok_iff.1 found
  obtain ⟨relative, walked⟩ := locate_eq_ok_iff.1 located
  obtain ⟨before, joined, whole⟩ := exists_split_joinPath dest step
  -- an empty piece at the end of the path leads nowhere
  have reached : (before.map String.ofList).foldlM t.walk [] = .ok p := by
    rcases whole with whole | whole
    · rwa [whole] at walked
    · rw [whole, List.map_append, List.foldlM_append, bind_eq_ok_iff] at walked
      obtain ⟨there, reached, last⟩ := walked
      simp only [List.map_cons, List.map_nil, List.foldlM_cons, List.foldlM_nil, bind_pure] at last
      rwa [eq_of_walk_idle last]
  have last : ([r.toList].map String.ofList).foldlM t.walk p = t.walk p r := by simp
  rw [locate_eq_ok_iff, isAbsolute_joinPath dest step, and_iff_right relative, joined,
    List.map_append, List.foldlM_append, reached, ← walk_of_isStep isFolder step, ← last]
  rfl

end Tree

/-! ## What becomes of a name -/

namespace Name

/-- A name that is made safe is the last part that names something, without the blanks around it.
It is plain, so in whatever folder it is used it leads to an entry of that folder, and making it
safe again changes nothing. A name is refused if and only if no part names anything, or the last one
that does is blank or made of dots once its blanks are gone. -/
theorem reduces_to_last_part (name : String) :
    (∀ r, safe name = .ok r →
      IsPlain r ∧
      (∃ lead trail, (∀ c ∈ lead ++ trail, Text.isBlank c = true) ∧
        IsLast name.toList (lead ++ r.toList ++ trail)) ∧
      (∀ dest, steps (joinPath dest r) = steps dest ++ [r] ∧
        (IsAbsolute (joinPath dest r) ↔ IsAbsolute dest)) ∧
      (∀ (t : Tree) dest p, t.folder dest = .ok p → ∀ q,
        t.locate (joinPath dest r) = .ok q ↔ q = p ++ [r] ∧ (t.get? q).isSome = true) ∧
      safe r = .ok r) ∧
    ((∃ f, safe name = .error f) ↔
      ¬ HasEntry name.toList ∨ ∃ part, IsLast name.toList part ∧
        (Text.trim part = [] ∨ Text.trim part = ['.'] ∨ Text.trim part = ['.', '.'])) := by
  constructor
  · intro r h
    have plain := isPlain_of_safe h
    obtain ⟨part, last, trimmed, -⟩ := bare?_eq_some_iff.1 (safe_eq_ok_iff.1 h)
    obtain ⟨lead, trail, whole, blank⟩ := Text.trim_append_blanks part
    rw [trimmed] at whole
    exact ⟨plain, ⟨lead, trail, blank, whole ▸ last⟩,
      fun dest => ⟨steps_joinPath dest plain.step, isAbsolute_joinPath dest plain.step⟩,
      fun t dest p found q => Tree.locate_joinPath found plain.step, safe_of_isPlain plain⟩
  · simp only [exists_safe_eq_error_iff, bare?_eq_none_iff, IsEntry, Classical.not_not]

/-- Of a path with slashes of both kinds the last part with a name is kept, and two dots with a
blank beside them are refused. -/
theorem reduces_to_last_part_of_two_paths :
    (safe "C:\\up/ b c.txt \\../." = .ok "b c.txt" ∧ IsPlain "b c.txt" ∧
      steps (joinPath "/srv/./in/" "b c.txt") = ["srv", "in", "b c.txt"]) ∧
    ∃ f, safe "a/ ..\\" = .error f := by
  have kept : safe "C:\\up/ b c.txt \\../." = .ok "b c.txt" := by rfl
  obtain ⟨plain, -, child, -⟩ := (reduces_to_last_part _).1 _ kept
  refine ⟨⟨kept, plain, ?_⟩, ?_⟩
  · rw [(child "/srv/./in/").1]
    decide
  · have last : IsLast "a/ ..\\".toList " ..".toList := getLast?_components_iff.1 (by decide)
    exact (reduces_to_last_part _).2.2 (.inr ⟨_, last, .inr (.inr (by decide))⟩)

end Name

end Strongbox
