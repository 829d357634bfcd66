/-!
# Lists with keys

Looking up the member with a given key, and what becomes of it when the list changes.
-/

namespace Strongbox.Keyed

variable {α κ : Type} [DecidableEq κ] (key : α → κ) {l : List α} {a : α} {k : κ}

theorem of_find? (h : l.find? (fun a => key a = k) = some a) : a ∈ l ∧ key a = k :=
  ⟨List.mem_of_find?_eq_some h, by simpa using List.find?_some h⟩

theorem find?_isSome_iff : (l.find? fun a => key a = k).isSome ↔ k ∈ l.map key := by
  simp [List.find?_isSome]

theorem find?_of_mem (nodup : (l.map key).Nodup) (h : a ∈ l) :
    l.find? (fun b => key b = key a) = some a := by
  induction l with
  | nil => cases h
  | cons b rest ih =>
    simp only [List.map_cons, List.nodup_cons] at nodup
    rcases List.mem_cons.1 h with rfl | h
    · simp
    · have hne : key b ≠ key a := fun e => nodup.1 (e ▸ List.mem_map_of_mem h)
      rw [List.find?_cons_of_neg (by simpa using hne)]
      exact ih nodup.2 h

theorem filter_of_mem (nodup : (l.map key).Nodup) (h : a ∈ l) :
    (l.filter fun b => key b = key a) = [a] := by
  induction l with
  | nil => cases h
  | cons b rest ih =>
    simp only [List.map_cons, List.nodup_cons] at nodup
    rcases List.mem_cons.1 h with rfl | h
    · rw [List.filter_cons_of_pos (by simp), List.filter_eq_nil_iff.2]
      intro c hc
      simpa using fun e : key c = key a => nodup.1 (e ▸ List.mem_map_of_mem hc)
    · have hne : key b ≠ key a := fun e => nodup.1 (e ▸ List.mem_map_of_mem h)
      rw [List.filter_cons_of_neg (by simpa using hne)]
      exact ih nodup.2 h

theorem find?_map (change : α → α) (same : ∀ a, key (change a) = key a) :
    (l.map change).find? (fun a => key a = k) = (l.find? fun a => key a = k).map change := by
  rw [List.find?_map]
  congr 2
  funext a
  simp [same]

theorem find?_append (fresh : key a ∉ l.map key) :
    (l ++ [a]).find? (fun b => key b = k) =
      if k = key a then some a else l.find? fun b => key b = k := by
  rw [List.find?_append]
  split
  · rename_i h
    subst h
    have : (l.find? fun b => key b = key a) = none := by
      simpa [List.find?_eq_none] using fresh
    simp [this]
  · rename_i h
    have : [a].find? (fun b => key b = k) = none := by simpa using Ne.symm h
    rw [this, Option.or_none]

theorem find?_filter_ne {j : κ} :
    (l.filter fun a => key a ≠ j).find? (fun a => key a = k) =
      if k = j then none else l.find? fun a => key a = k := by
  rw [List.find?_filter]
  split
  · rename_i h
    subst h
    simp [List.find?_eq_none]
  · rename_i h
    congr 1
    funext a
    by_cases e : key a = k <;> simp [e, h]

omit [DecidableEq κ] in
theorem nodup_append (nodup : (l.map key).Nodup) (fresh : key a ∉ l.map key) :
    ((l ++ [a]).map key).Nodup := by
  rw [List.map_append, List.nodup_append]
  refine ⟨nodup, by simp, ?_⟩
  intro x hx y hy
  rw [List.map_singleton, List.mem_singleton] at hy
  subst hy
  exact fun e => fresh (e ▸ hx)

omit [DecidableEq κ] in
theorem nodup_filter {p : α → Bool} (nodup : (l.map key).Nodup) : ((l.filter p).map key).Nodup :=
  nodup.sublist (List.filter_sublist.map key)

omit [DecidableEq κ] in
theorem map_map {change : α → α} (same : ∀ a, key (change a) = key a) :
    (l.map change).map key = l.map key := by
  rw [List.map_map]
  exact List.map_congr_left fun a _ => same a

end Strongbox.Keyed
