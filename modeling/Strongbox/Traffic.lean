import Strongbox.Service

/-!
# Traffic

A store with many calls under way. Uploads and downloads take many moves, and between two moves of
one call any other call may move; the calls that make one store operation take one move.
-/

namespace Strongbox

namespace Traffic

inductive Call where
  | uploading (owner : Int) (p : Upload.Pipeline)
  | downloading (d : Download.Distributor)

/-- What happens next. Calls under way are told apart by the order in which they came. -/
inductive Event where
  /-- A user begins an upload. -/
  | offer (user : Int) (frames : List Message.Item)
  /-- A user opens a download. -/
  | fetch (user file : Int)
  /-- A user deletes a file. -/
  | delete (user file : Int)
  /-- A user asks about a file. -/
  | inform (user file : Int)
  /-- A user asks for a page of files. -/
  | enumerate (user : Int) (r : Message.ListRequest)
  /-- A call that uploads makes a move. -/
  | upload (n : Nat) (now : Moment) (m : Upload.Move)
  /-- A call that downloads makes a move. -/
  | download (n : Nat) (m : Download.Move)

/-- The call that an event is a move of. -/
def Event.call? : Event → Option Nat
  | upload n .. | download n _ => some n
  | _ => none

end Traffic

/-- A store and the calls under way. Those that have ended stay in their places. -/
structure Traffic (σ : Type) where
  store : σ
  calls : List Traffic.Call := []

namespace Traffic

variable {σ : Type} [Store σ]

def join (w : Traffic σ) (c : Call) : Traffic σ := { w with calls := w.calls ++ [c] }

def moveTo (w : Traffic σ) (n : Nat) (s : σ) (c : Call) : Traffic σ where
  store := s
  calls := w.calls.set n c

/-- What comes of an event, if it can happen. A question, a download that is turned away and a file
that is not deleted leave all as it was. -/
def step (t : Transfer) (e : Event) (w : Traffic σ) : Option (Traffic σ) :=
  match e with
  | .offer user frames => some (w.join (.uploading user (.start t.workers frames)))
  | .fetch user file =>
    match Download.begin t.workers user file w.store with
    | .ok d => some (w.join (.downloading d))
    | .error _ => some w
  | .delete user file =>
    match Store.delete w.store user file with
    | .ok s => some { w with store := s }
    | .error _ => some w
  | .inform _ _ | .enumerate _ _ => some w
  | .upload n now m =>
    match w.calls[n]? with
    | some (.uploading owner p) =>
      (Upload.step t.key owner now m w.store p).map fun (s, p) => w.moveTo n s (.uploading owner p)
    | _ => none
  | .download n m =>
    match w.calls[n]? with
    | some (.downloading d) =>
      (Download.step t.key m w.store d).map fun d => w.moveTo n w.store (.downloading d)
    | _ => none

/-- What a row of events can lead to. -/
inductive Reaches (t : Transfer) (w : Traffic σ) : Traffic σ → Prop where
  | refl : Reaches t w w
  | next {v u : Traffic σ} (e : Event) : Reaches t w v → step t e v = some u → Reaches t w u

theorem calls_step {t : Transfer} {e : Event} {w v : Traffic σ} (h : step t e w = some v) :
    w.calls.length ≤ v.calls.length := by
  cases e with
  | offer user frames =>
    cases h
    simp [join]
  | fetch user file =>
    simp only [step] at h
    split at h <;> cases h <;> simp [join]
  | delete user file =>
    simp only [step] at h
    split at h <;> cases h <;> simp
  | inform | enumerate =>
    cases h
    exact Nat.le_refl _
  | upload n now m =>
    simp only [step] at h
    split at h
    · obtain ⟨⟨s, p⟩, _, rfl⟩ := Option.map_eq_some_iff.1 h
      simp [moveTo]
    · cases h
  | download n m =>
    simp only [step] at h
    split at h
    · obtain ⟨d, _, rfl⟩ := Option.map_eq_some_iff.1 h
      simp [moveTo]
    · cases h

end Traffic

end Strongbox
