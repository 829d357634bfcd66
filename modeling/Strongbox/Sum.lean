/-!
# Sums

A measure summed up over a list.
-/

namespace Strongbox

variable {α : Type}

def sumOver (measure : α → Nat) : List α → Nat
  | [] => 0
  | a :: rest => measure a + sumOver measure rest

@[simp] theorem sumOver_nil (measure : α → Nat) : sumOver measure [] = 0 := rfl

@[simp] theorem sumOver_cons (measure : α → Nat) (a : α) (rest : List α) :
    sumOver measure (a :: rest) = measure a + sumOver measure rest := rfl

@[simp] theorem sumOver_append (measure : α → Nat) (as bs : List α) :
    sumOver measure (as ++ bs) = sumOver measure as + sumOver measure bs := by
  induction as with
  | nil => simp
  | cons a rest ih => rw [List.cons_append, sumOver_cons, sumOver_cons, ih, Nat.add_assoc]

theorem sumOver_map {β : Type} (measure : β → Nat) (f : α → β) (as : List α) :
    sumOver measure (as.map f) = sumOver (fun a => measure (f a)) as := by
  induction as with
  | nil => rfl
  | cons a rest ih => rw [List.map_cons, sumOver_cons, sumOver_cons, ih]

theorem sumOver_flatMap {β : Type} (measure : β → Nat) (f : α → List β) (as : List α) :
    sumOver measure (as.flatMap f) = sumOver (fun a => sumOver measure (f a)) as := by
  induction as with
  | nil => rfl
  | cons a rest ih => rw [List.flatMap_cons, sumOver_append, sumOver_cons, ih]

theorem sumOver_congr {measure other : α → Nat} {as : List α} (h : ∀ a ∈ as, measure a = other a) :
    sumOver measure as = sumOver other as := by
  induction as with
  | nil => rfl
  | cons a rest ih =>
    rw [sumOver_cons, sumOver_cons, h a List.mem_cons_self, ih fun b hb => h b (.tail _ hb)]

theorem sumOver_perm {measure : α → Nat} {as bs : List α} (h : as.Perm bs) :
    sumOver measure as = sumOver measure bs := by
  induction h with
  | nil => rfl
  | cons a _ ih => rw [sumOver_cons, sumOver_cons, ih]
  | swap a b rest => simp only [sumOver_cons, Nat.add_left_comm]
  | trans _ _ ih ih' => exact ih.trans ih'

/-- Lists are permutations of each other if they have the same sums. -/
theorem perm_iff_sumOver [DecidableEq α] {as bs : List α} :
    as.Perm bs ↔ ∀ measure, sumOver measure as = sumOver measure bs := by
  refine ⟨fun h _ => sumOver_perm h, fun h => List.perm_iff_count.2 fun a => ?_⟩
  have count (as : List α) : as.count a = sumOver (fun b => if b = a then 1 else 0) as := by
    induction as with
    | nil => rfl
    | cons b rest ih => simp [List.count_cons, ih, Nat.add_comm]
  rw [count, count]
  exact h _

theorem sumOver_replicate (measure : α → Nat) (n : Nat) (a : α) :
    sumOver measure (List.replicate n a) = n * measure a := by
  induction n with
  | zero => simp
  | succ n ih => rw [List.replicate_succ, sumOver_cons, ih, Nat.succ_mul, Nat.add_comm]

/-- A list with one member replaced gains what the new one has and loses what the old one had. -/
theorem sumOver_set (measure : α → Nat) {as : List α} {n : Nat} {a : α} (b : α)
    (h : as[n]? = some a) :
    sumOver measure (as.set n b) + measure a = sumOver measure as + measure b := by
  induction as generalizing n with
  | nil => simp at h
  | cons x rest ih =>
    cases n with
    | zero =>
      simp only [List.getElem?_cons_zero, Option.some.injEq] at h
      subst h
      simp only [List.set_cons_zero, sumOver_cons]
      omega
    | succ n =>
      have := ih (by simpa using h)
      simp only [List.set_cons_succ, sumOver_cons]
      omega

/-- Where all members are alike and bring nothing, nothing comes together. -/
theorem flatMap_eq_nil_of_alike {β : Type} {f : α → List β} {as : List α} {a : α}
    (alike : ∀ b ∈ as, b = a) (nothing : f a = []) : as.flatMap f = [] := by
  rw [List.flatMap_eq_nil_iff]
  intro b hb
  rw [alike b hb, nothing]

/-- A list with one member replaced by a lighter one is no heavier. -/
theorem sumOver_set_le (measure : α → Nat) {as : List α} {n : Nat} {a b : α} (h : as[n]? = some a)
    (hle : measure b ≤ measure a) : sumOver measure (as.set n b) ≤ sumOver measure as := by
  have := sumOver_set measure b h
  omega

end Strongbox
