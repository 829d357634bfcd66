import Strongbox.Proofs.Upload.Charge
import Strongbox.Traffic

/-!
# What holds of a store while calls are under way
-/

namespace Strongbox.Traffic

open Ledger Upload

variable {σ : Type} [Store σ]

/-- What a given row of events leads to. -/
inductive Run (t : Transfer) (w : Traffic σ) : List Event → Traffic σ → Prop where
  | nil : Run t w [] w
  | snoc {v u : Traffic σ} {es : List Event} {e : Event} (run : Run t w es v)
      (h : step t e v = some u) : Run t w (es ++ [e]) u

theorem reaches_iff_run {t : Transfer} {w v : Traffic σ} : Reaches t w v ↔ ∃ es, Run t w es v := by
  constructor
  · intro h
    induction h with
    | refl => exact ⟨[], .nil⟩
    | next e _ hstep ih =>
      obtain ⟨es, run⟩ := ih
      exact ⟨_, run.snoc hstep⟩
  · rintro ⟨es, run⟩
    induction run with
    | nil => exact .refl
    | snoc _ hstep ih => exact ih.next _ hstep

theorem Run.append {t : Transfer} {w v u : Traffic σ} {es es' : List Event} (run : Run t w es v)
    (run' : Run t v es' u) : Run t w (es ++ es') u := by
  induction run' with
  | nil => simpa using run
  | snoc _ h ih =>
    rw [← List.append_assoc]
    exact ih.snoc h

/-- Events that can all happen, one after another, are a row. -/
theorem Run.of_foldlM {t : Transfer} {w v : Traffic σ} {es : List Event}
    (h : es.foldlM (fun w e => step t e w) w = some v) : Run t w es v := by
  induction es generalizing w with
  | nil =>
    cases h
    exact .nil
  | cons e es ih =>
    obtain ⟨u, hu, h⟩ := Option.bind_eq_some_iff.1 h
    exact (Run.nil.snoc hu).append (ih h)

/-- What can come of an event, one case for each. -/
inductive Advance (t : Transfer) (w : Traffic σ) : Event → Traffic σ → Prop where
  | offer {user : Int} {frames : List Message.Item} :
      Advance t w (.offer user frames) (w.join (.uploading user (.start t.workers frames)))
  | fetch {user file : Int} {d : Download.Distributor}
      (h : Download.begin t.workers user file w.store = .ok d) :
      Advance t w (.fetch user file) (w.join (.downloading d))
  | delete {user file : Int} {s : σ} (h : Store.delete w.store user file = .ok s) :
      Advance t w (.delete user file) { w with store := s }
  | still {e : Event} (h : e.call? = none) : Advance t w e w
  | upload {n : Nat} {now : Moment} {m : Move} {owner : Int} {p q : Pipeline} {s : σ}
      (hn : w.calls[n]? = some (.uploading owner p))
      (h : Upload.step t.key owner now m w.store p = some (s, q)) :
      Advance t w (.upload n now m) (w.moveTo n s (.uploading owner q))
  | download {n : Nat} {m : Download.Move} {d d' : Download.Distributor}
      (hn : w.calls[n]? = some (.downloading d))
      (h : Download.step t.key m w.store d = some d') :
      Advance t w (.download n m) (w.moveTo n w.store (.downloading d'))

theorem advance_of_step {t : Transfer} {w v : Traffic σ} {e : Event} (h : step t e w = some v) :
    Advance t w e v := by
  cases e with
  | offer user frames =>
    cases h
    exact .offer
  | fetch user file =>
    simp only [step] at h
    split at h <;> cases h
    · exact .fetch ‹_›
    · exact .still rfl
  | delete user file =>
    simp only [step] at h
    split at h <;> cases h
    · exact .delete ‹_›
    · exact .still rfl
  | inform | enumerate =>
    cases h
    exact .still rfl
  | upload n now m =>
    simp only [step] at h
    split at h
    · obtain ⟨⟨s, q⟩, hstep, rfl⟩ := Option.map_eq_some_iff.1 h
      exact .upload ‹_› hstep
    · cases h
  | download n m =>
    simp only [step] at h
    split at h
    · obtain ⟨d', hstep, rfl⟩ := Option.map_eq_some_iff.1 h
      exact .download ‹_› hstep
    · cases h

/-- A move of a call that uploads is a move of its upload. -/
theorem Advance.of_uploading {t : Transfer} {w v : Traffic σ} {e : Event} {n : Nat} {owner : Int}
    {p : Pipeline} (h : Advance t w e v) (own : e.call? = some n)
    (hn : w.calls[n]? = some (.uploading owner p)) :
    ∃ now m s q, e = .upload n now m ∧ Upload.step t.key owner now m w.store p = some (s, q) ∧
      v = w.moveTo n s (.uploading owner q) := by
  cases h with
  | offer | fetch | delete => cases own
  | still idle =>
    rw [idle] at own
    cases own
  | download hk =>
    cases own
    cases hn.symm.trans hk
  | upload hk hstep =>
    cases own
    cases hn.symm.trans hk
    exact ⟨_, _, _, _, rfl, hstep, rfl⟩

/-- An event came at a moment when the state was `v`. -/
def Happened (t : Transfer) (w : Traffic σ) (es : List Event) (e : Event) (v : Traffic σ) : Prop :=
  ∃ before after, es = before ++ e :: after ∧ Run t w before v

/-- A call began as an upload of these frames. -/
def Begun (t : Transfer) (w : Traffic σ) (es : List Event) (n : Nat) (owner : Int)
    (frames : List Message.Item) : Prop :=
  ∃ v, Happened t w es (.offer owner frames) v ∧ v.calls.length = n

variable {t : Transfer} {w₀ w v : Traffic σ} {es : List Event} {e : Event} {n : Nat} {owner : Int}
  {frames : List Message.Item} {file : Int}

theorem Happened.snoc {e' : Event} (h : Happened t w₀ es e v) : Happened t w₀ (es ++ [e']) e v := by
  obtain ⟨before, after, rfl, run⟩ := h
  exact ⟨before, after ++ [e'], by simp, run⟩

theorem Happened.last (run : Run t w₀ es v) : Happened t w₀ (es ++ [e]) e v := ⟨es, [], rfl, run⟩

theorem Begun.snoc (h : Begun t w₀ es n owner frames) : Begun t w₀ (es ++ [e]) n owner frames := by
  obtain ⟨v, happened, length_eq⟩ := h
  exact ⟨v, happened.snoc, length_eq⟩

omit [Store σ] in
theorem getElem?_moveTo {s : σ} {b c : Call} (hn : w.calls[n]? = some b) (k : Nat) :
    (w.moveTo n s c).calls[k]? = if k = n then some c else w.calls[k]? := by
  obtain ⟨lt, -⟩ := List.getElem?_eq_some_iff.1 hn
  simp only [moveTo, List.getElem?_set, lt, if_true, eq_comm]

/-! ## Events of other calls -/

section Beside

variable {c : Call}

omit [Store σ] in
theorem join_beside (c' : Call) (hn : n < w.calls.length) :
    (w.moveTo n w.store c).join c' = (w.join c').moveTo n (w.join c').store c := by
  simp only [join, moveTo, List.set_append_left _ _ hn]

omit [Store σ] in
theorem moveTo_moveTo (w : Traffic σ) (n : Nat) (s s' : σ) (c c' : Call) :
    (w.moveTo n s c).moveTo n s' c' = w.moveTo n s' c' := by
  simp only [moveTo, List.set_set]

omit [Store σ] in
theorem moveTo_self (hn : w.calls[n]? = some c) : w.moveTo n w.store c = w := by
  obtain ⟨lt, rfl⟩ := List.getElem?_eq_some_iff.1 hn
  rw [moveTo, List.set_getElem_self]

omit [Store σ] in
theorem moveTo_beside {k : Nat} (s : σ) (c' : Call) (other : k ≠ n) :
    (w.moveTo n w.store c).moveTo k s c' = (w.moveTo k s c').moveTo n s c := by
  simp only [moveTo, List.set_comm _ _ other.symm]

/-- An event of another call goes on beside a call that is elsewhere. -/
theorem step_beside (h : step t e w = some v) (other : e.call? ≠ some n)
    (hn : n < w.calls.length) :
    step t e (w.moveTo n w.store c) = some (v.moveTo n v.store c) := by
  have elsewhere : ∀ {k : Nat}, k ≠ n → (w.moveTo n w.store c).calls[k]? = w.calls[k]? :=
    fun hk => List.getElem?_set_ne hk.symm
  cases e with
  | offer user frames =>
    cases h
    exact congrArg some (join_beside _ hn)
  | fetch user file =>
    simp only [step] at h ⊢
    rw [show (w.moveTo n w.store c).store = w.store from rfl]
    split at h <;> cases h
    · exact congrArg some (join_beside _ hn)
    · rfl
  | delete user file =>
    simp only [step] at h ⊢
    rw [show (w.moveTo n w.store c).store = w.store from rfl]
    split at h <;> cases h <;> rfl
  | inform | enumerate =>
    cases h
    rfl
  | upload k now m =>
    have hk : k ≠ n := fun e => other (congrArg some e)
    simp only [step] at h ⊢
    rw [elsewhere hk, show (w.moveTo n w.store c).store = w.store from rfl]
    split at h
    · obtain ⟨⟨s, q⟩, hstep, rfl⟩ := Option.map_eq_some_iff.1 h
      simp only [hstep, Option.map_some]
      exact congrArg some (moveTo_beside s _ hk)
    · cases h
  | download k m =>
    have hk : k ≠ n := fun e => other (congrArg some e)
    simp only [step] at h ⊢
    rw [elsewhere hk, show (w.moveTo n w.store c).store = w.store from rfl]
    split at h
    · obtain ⟨d, hstep, rfl⟩ := Option.map_eq_some_iff.1 h
      simp only [hstep, Option.map_some]
      exact congrArg some (moveTo_beside _ _ hk)
    · cases h

theorem calls_beside (h : step t e w = some v) (other : e.call? ≠ some n)
    (hn : n < w.calls.length) : v.calls[n]? = w.calls[n]? := by
  cases advance_of_step h with
  | offer | fetch => exact List.getElem?_append_left hn
  | delete | still => rfl
  | upload | download =>
    apply List.getElem?_set_ne
    intro hk
    exact other (congrArg some hk)

omit [Store σ] in
theorem calls_join {c' : Call} (h : (w.join c').calls[n]? = some c) :
    w.calls[n]? = some c ∨ n = w.calls.length ∧ c = c' := by
  rw [join, List.getElem?_append] at h
  split at h
  · exact .inl h
  · rename_i ge
    obtain ⟨lt, heq⟩ := List.getElem?_eq_some_iff.1 h
    simp only [List.length_singleton] at lt
    simp only [List.getElem_singleton] at heq
    exact .inr ⟨by omega, heq.symm⟩

/-- A call was where it is before an event, unless the event is a move of it or began it. -/
theorem calls_of_step (h : step t e w = some v) (hn : v.calls[n]? = some c) :
    w.calls[n]? = some c ∨ e.call? = some n ∨
      (∃ user frames, e = .offer user frames ∧ c = .uploading user (.start t.workers frames)) ∨
      ∃ d, c = .downloading d := by
  cases advance_of_step h with
  | @offer user frames =>
    rcases calls_join hn with old | ⟨-, rfl⟩
    · exact .inl old
    · exact .inr (.inr (.inl ⟨user, frames, rfl, rfl⟩))
  | fetch =>
    rcases calls_join hn with old | ⟨-, rfl⟩
    · exact .inl old
    · exact .inr (.inr (.inr ⟨_, rfl⟩))
  | delete | still => exact .inl hn
  | @upload k | @download k =>
    by_cases hk : k = n
    · exact .inr (.inl (congrArg some hk))
    · exact .inl ((List.getElem?_set_ne hk).symm.trans hn)

end Beside

variable [Ledger σ]

def Made (t : Transfer) (w : Traffic σ) (es : List Event) (n : Nat) (file : Int) : Prop :=
  ∃ now v u, Happened t w es (.upload n now .front) v ∧
    step t (.upload n now .front) v = some u ∧
    record? v.store file = none ∧ (record? u.store file).isSome

theorem Made.snoc (h : Made t w₀ es n file) : Made t w₀ (es ++ [e]) n file := by
  obtain ⟨now, v, u, happened, rest⟩ := h
  exact ⟨now, v, u, happened.snoc, rest⟩

/-- Every upload is where it should be, and every file is in the charge of one. -/
structure Orderly (t : Transfer) (w₀ : Traffic σ) (es : List Event) (w : Traffic σ) : Prop where
  sound : Sound w.store
  stands : ∀ {n : Nat} {owner : Int} {p : Pipeline}, w.calls[n]? = some (.uploading owner p) →
    ∃ frames, Begun t w₀ es n owner frames ∧ Inv t.key owner frames w.store p
  made : ∀ {n : Nat} {owner file : Int} {p : Pipeline}, w.calls[n]? = some (.uploading owner p) →
    p.front.charge? = some file → file ≤ last w.store ∧ Made t w₀ es n file
  apart : ∀ {n k : Nat} {owner user file : Int} {p q : Pipeline},
    w.calls[n]? = some (.uploading owner p) → w.calls[k]? = some (.uploading user q) →
    p.front.charge? = some file → q.front.charge? = some file → n = k
  kept : ∀ {file : Int} {r : Record}, record? w.store file = some r →
    ∃ (n : Nat) (owner : Int) (p : Pipeline),
      w.calls[n]? = some (.uploading owner p) ∧ p.front.charge? = some file

namespace Orderly

variable {s : σ} {p q : Pipeline}

theorem start (sound : Sound s) (empty : ∀ file, record? s file = none) :
    Orderly t w₀ [] ⟨s, []⟩ where
  sound := sound
  stands h := by cases h
  made h := by cases h
  apart h := by cases h
  kept h := by
    rw [empty] at h
    cases h

/-- An event that changes no call and no file but that one may be deleted. -/
theorem spared (orderly : Orderly t w₀ es w) (sound : Sound s) (last_eq : last s = last w.store)
    (all : ∀ file, Spared file w.store s) (records : ∀ file, record? w.store file = none →
      record? s file = none) : Orderly t w₀ (es ++ [e]) { w with store := s } where
  sound := sound
  stands hn := by
    obtain ⟨frames, begun, inv⟩ := orderly.stands hn
    exact ⟨frames, begun.snoc, inv.spared fun file _ => all file⟩
  made hn hc := by
    obtain ⟨le, made⟩ := orderly.made hn hc
    exact ⟨last_eq ▸ le, made.snoc⟩
  apart := orderly.apart
  kept {file r} hr := by
    cases hold : record? w.store file with
    | none =>
      rw [records file hold] at hr
      cases hr
    | some r => exact orderly.kept hold

theorem join (orderly : Orderly t w₀ es w) (run : Run t w₀ es w) {c : Call}
    (fresh : ∀ owner p, c = .uploading owner p →
      ∃ frames, e = .offer owner frames ∧ p = .start t.workers frames) :
    Orderly t w₀ (es ++ [e]) (w.join c) := by
  have old : ∀ {n : Nat} {owner file : Int} {p : Pipeline},
      (w.join c).calls[n]? = some (.uploading owner p) → p.front.charge? = some file →
        w.calls[n]? = some (.uploading owner p) := by
    intro n owner p file hn hc
    rcases calls_join hn with old | ⟨-, rfl⟩
    · exact old
    · obtain ⟨frames, -, rfl⟩ := fresh _ _ rfl
      cases hc
  constructor
  case sound => exact orderly.sound
  case stands =>
    intro n owner p hn
    rcases calls_join hn with old | ⟨rfl, rfl⟩
    · obtain ⟨frames, begun, inv⟩ := orderly.stands old
      exact ⟨frames, begun.snoc, inv⟩
    · obtain ⟨frames, rfl, rfl⟩ := fresh _ _ rfl
      exact ⟨frames, ⟨w, .last run, rfl⟩, .start t.key owner t.workers frames w.store⟩
  case made =>
    intro n owner p file hn hc
    obtain ⟨le, made⟩ := orderly.made (old hn hc) hc
    exact ⟨le, made.snoc⟩
  case apart =>
    intro n k owner user p q file hn hk hp hq
    exact orderly.apart (old hn hp) (old hk hq) hp hq
  case kept =>
    intro file r hr
    obtain ⟨n, owner, p, hn, hc⟩ := orderly.kept hr
    refine ⟨n, owner, p, ?_, hc⟩
    obtain ⟨lt, -⟩ := List.getElem?_eq_some_iff.1 hn
    rw [Traffic.join, List.getElem?_append_left lt, hn]

theorem bystander (orderly : Orderly t w₀ es w) {d d' : Download.Distributor}
    (hn : w.calls[n]? = some (.downloading d)) :
    Orderly t w₀ (es ++ [e]) (w.moveTo n w.store (.downloading d')) := by
  have same : ∀ {k : Nat} {owner : Int} {p : Pipeline},
      (w.moveTo n w.store (.downloading d')).calls[k]? = some (.uploading owner p) ↔
        w.calls[k]? = some (.uploading owner p) := by
    intro k owner p
    rw [getElem?_moveTo hn]
    split
    · rename_i h
      rw [h, hn]
      simp
    · exact Iff.rfl
  constructor
  case sound => exact orderly.sound
  case stands =>
    intro k owner p hk
    obtain ⟨frames, begun, inv⟩ := orderly.stands (same.1 hk)
    exact ⟨frames, begun.snoc, inv⟩
  case made =>
    intro k owner p file hk hc
    obtain ⟨le, made⟩ := orderly.made (same.1 hk) hc
    exact ⟨le, made.snoc⟩
  case apart =>
    intro n k owner user p q file hn hk
    exact orderly.apart (same.1 hn) (same.1 hk)
  case kept =>
    intro file r hr
    obtain ⟨k, owner, p, hk, hc⟩ := orderly.kept hr
    exact ⟨k, owner, p, same.2 hk, hc⟩

omit [Store σ] in
/-- A file that is deleted keeps its chunks, and others are left alone. -/
theorem spared_of_deleting {user g : Int} {s u : σ} (h : Store.Deleting s user g (.ok u))
    (file : Int) : Spared file s u := by
  cases h with
  | @done r u live owned changes record_eq rows_eq =>
    by_cases hg : file = g
    · subst hg
      refine ⟨rows_eq, fun r' hr' => .inr ?_⟩
      cases hr'.symm.trans (live?_eq_some_iff.1 live).1
      exact record_eq
    · exact ⟨changes.rows_eq file hg, fun r hr => .inl ((changes.record_eq file hg).trans hr)⟩

variable [LawfulStore σ]

/-- The file in the charge of an upload is left alone by all others, but that it may be deleted. -/
theorem spares (orderly : Orderly t w₀ es w) (hn : w.calls[n]? = some (.uploading owner p))
    (hc : p.front.charge? = some file) (h : Traffic.step t e w = some v)
    (other : e.call? ≠ some n) : Spared file w.store v.store := by
  have same : Spared file w.store w.store := ⟨rfl, fun _ => .inl⟩
  cases advance_of_step h with
  | offer | fetch | still | download => exact same
  | @delete user g s hs =>
    exact spared_of_deleting (hs ▸ LawfulStore.delete user g orderly.sound) file
  | upload hk hstep =>
    obtain ⟨frames, -, inv⟩ := orderly.stands hk
    have framed := (inv.step orderly.sound hstep).1
    have le := (orderly.made hn hc).1
    have foreign : _ ≠ some file := fun hu =>
      other (congrArg some (orderly.apart hk hn (charge?_of_file? hu) hc))
    exact ⟨framed.rows_eq file le foreign, fun r hr =>
      .inl ((framed.record_eq file le foreign).trans hr)⟩

theorem upload {now : Moment} {m : Move} (orderly : Orderly t w₀ es w) (run : Run t w₀ es w)
    (hn : w.calls[n]? = some (.uploading owner p))
    (h : Upload.step t.key owner now m w.store p = some (s, q)) :
    Orderly t w₀ (es ++ [.upload n now m]) (w.moveTo n s (.uploading owner q)) := by
  obtain ⟨frames, begun, inv⟩ := orderly.stands hn
  obtain ⟨framed, inv'⟩ := inv.step orderly.sound h
  have either : ∀ {k : Nat} {user : Int} {u : Pipeline},
      (w.moveTo n s (.uploading owner q)).calls[k]? = some (.uploading user u) →
      k = n ∧ user = owner ∧ u = q ∨ k ≠ n ∧ w.calls[k]? = some (.uploading user u) := by
    intro k user u hk
    rw [getElem?_moveTo hn] at hk
    split at hk
    · cases hk
      exact .inl ⟨‹_›, rfl, rfl⟩
    · exact .inr ⟨‹_›, hk⟩
  have moved : Traffic.step t (.upload n now m) w = some (w.moveTo n s (.uploading owner q)) := by
    simp [Traffic.step, hn, h]
  constructor
  case sound => exact framed.sound
  case stands =>
    intro k user u hk
    rcases either hk with ⟨rfl, rfl, rfl⟩ | ⟨other, hk⟩
    · exact ⟨frames, begun.snoc, inv'⟩
    · obtain ⟨frames', begun', inv''⟩ := orderly.stands hk
      have beside : (Event.upload n now m).call? ≠ some k := fun e => other (Option.some.inj e).symm
      exact ⟨frames', begun'.snoc, inv''.spared fun file hfile =>
        orderly.spares hk hfile moved beside⟩
  case made =>
    intro k user file u hk hc
    rcases either hk with ⟨rfl, rfl, rfl⟩ | ⟨-, hk⟩
    · rcases charge?_of_step orderly.sound h hc with old | ⟨rfl, missing, there, -, le⟩
      · obtain ⟨le, made⟩ := orderly.made hn old
        exact ⟨Int.le_trans le framed.last_le, made.snoc⟩
      · exact ⟨le, now, w, _, .last run, moved, missing, there⟩
    · obtain ⟨le, made⟩ := orderly.made hk hc
      exact ⟨Int.le_trans le framed.last_le, made.snoc⟩
  case apart =>
    intro j k user user' file u u' hj hk hu hu'
    -- A file that this move has made has a number above those in the charge of other calls.
    have foreign : ∀ {k : Nat} {user : Int} {u : Pipeline}, k ≠ n →
        w.calls[k]? = some (.uploading user u) → u.front.charge? = some file →
        q.front.charge? ≠ some file := by
      intro k user u other hk hu hq
      rcases charge?_of_step orderly.sound h hq with old | ⟨-, -, -, lt, -⟩
      · exact other (orderly.apart hk hn hu old)
      · have := (orderly.made hk hu).1
        omega
    rcases either hj with ⟨rfl, rfl, rfl⟩ | ⟨otherj, oldj⟩ <;>
      rcases either hk with ⟨rfl, rfl, rfl⟩ | ⟨otherk, oldk⟩
    · rfl
    · exact absurd hu (foreign otherk oldk hu')
    · exact absurd hu' (foreign otherj oldj hu)
    · exact orderly.apart oldj oldk hu hu'
  case kept =>
    intro file r hr
    rcases inv.record_of_step orderly.sound h hr with own | ⟨old, other⟩
    · exact ⟨n, owner, q, by rw [getElem?_moveTo hn, if_pos rfl], own⟩
    · obtain ⟨k, user, u, hk, hu⟩ := orderly.kept old
      have elsewhere : k ≠ n := by
        rintro rfl
        cases hn.symm.trans hk
        exact other hu
      exact ⟨k, user, u, by rw [getElem?_moveTo hn, if_neg elsewhere, hk], hu⟩

theorem step (orderly : Orderly t w₀ es w) (run : Run t w₀ es w)
    (h : Traffic.step t e w = some v) : Orderly t w₀ (es ++ [e]) v := by
  cases advance_of_step h with
  | @offer user frames =>
    exact orderly.join run fun owner p hc => by cases hc; exact ⟨frames, rfl, rfl⟩
  | fetch => exact orderly.join run fun owner p hc => by cases hc
  | still => exact orderly.spared orderly.sound rfl (fun _ => ⟨rfl, fun _ => .inl⟩) fun _ => id
  | @delete user file s hs =>
    have outcome := LawfulStore.delete user file orderly.sound
    rw [hs] at outcome
    have all := spared_of_deleting outcome
    cases outcome with
    | done live owned changes record_eq rows_eq =>
      apply orderly.spared changes.sound changes.last_eq all
      intro g hg
      have elsewhere : g ≠ file := by
        rintro rfl
        rw [(live?_eq_some_iff.1 live).1] at hg
        cases hg
      exact (changes.record_eq g elsewhere).trans hg
  | upload hn hstep => exact orderly.upload run hn hstep
  | download hn => exact orderly.bystander hn

end Orderly

/-- An upload stays where it should be, by the frames with which it began. -/
theorem Orderly.stays [LawfulStore σ] {p : Pipeline} (orderly : Orderly t w₀ es w)
    (hn : w.calls[n]? = some (.uploading owner p)) (inv : Inv t.key owner frames w.store p)
    (h : Traffic.step t e w = some v) :
    ∃ q, v.calls[n]? = some (.uploading owner q) ∧ Inv t.key owner frames v.store q := by
  obtain ⟨lt, -⟩ := List.getElem?_eq_some_iff.1 hn
  by_cases own : e.call? = some n
  · obtain ⟨now, m, s, q, -, hstep, rfl⟩ := (advance_of_step h).of_uploading own hn
    exact ⟨q, by rw [getElem?_moveTo hn, if_pos rfl], (inv.step orderly.sound hstep).2⟩
  · refine ⟨p, (calls_beside h own lt).trans hn, inv.spared ?_⟩
    intro file hfile
    exact orderly.spares hn hfile h own

theorem Run.orderly [LawfulStore σ] {s : σ} (sound : Sound s)
    (empty : ∀ file, record? s file = none) (run : Run t ⟨s, []⟩ es w) :
    Orderly t ⟨s, []⟩ es w := by
  induction run with
  | nil => exact .start sound empty
  | snoc run h ih => exact ih.step run h

end Strongbox.Traffic
