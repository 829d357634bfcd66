import Strongbox.Cipher
import Strongbox.Query
import Strongbox.Record
import Strongbox.Span

/-!
# Stores

What the service asks of a store. An operation that fails leaves the store as it was.
-/

namespace Strongbox

/-- The operations of a store. -/
class Store (σ : Type) where
  /-- A new file of an owner, not yet complete, and its number. -/
  create : σ → (now : Moment) → (owner : Int) → Draft → Except Failure (Int × σ)
  /-- Writes a chunk of a file. No chunk is written twice. -/
  save : σ → (file : Int) → (index : Nat) → Sealed → Except Failure σ
  /-- Marks a file of `bytes` bytes as complete, if exactly its chunks are there. -/
  complete : σ → (file : Int) → (bytes : Nat) → Except Failure σ
  /-- The record of a file for its owner, unless it is deleted. -/
  info : σ → (file owner : Int) → Except Failure Record
  /-- The chunks of a file whose indices lie in a range, in order. -/
  chunks : σ → (file : Int) → Span → Except (Halt Failure) (List Chunk)
  /-- Hides a file from its owner. -/
  delete : σ → (owner file : Int) → Except Failure σ
  /-- One page of an owner's available files, and the number of files on all pages. -/
  list : σ → (owner : Int) → Query → Except Failure (List Record × Nat)
  /-- Forgets a file with all its chunks. -/
  purge : σ → (file : Int) → Except Failure σ

/-- The failure reported when a file lacks chunks or has too many. -/
def wrongChunks (file : Int) (found total : Nat) : Failure :=
  .validation ("file " ++ toString file ++ " has " ++ toString found ++ " of " ++ toString total
    ++ " chunks")

/-- Either of two stores is a store. -/
instance {σ τ : Type} [Store σ] [Store τ] : Store (σ ⊕ τ) where
  create s now owner d := match s with
    | .inl s => (Store.create s now owner d).map fun (file, s) => (file, .inl s)
    | .inr s => (Store.create s now owner d).map fun (file, s) => (file, .inr s)
  save s file index c := match s with
    | .inl s => (Store.save s file index c).map .inl
    | .inr s => (Store.save s file index c).map .inr
  complete s file bytes := match s with
    | .inl s => (Store.complete s file bytes).map .inl
    | .inr s => (Store.complete s file bytes).map .inr
  info s file owner := match s with
    | .inl s => Store.info s file owner
    | .inr s => Store.info s file owner
  chunks s file range := match s with
    | .inl s => Store.chunks s file range
    | .inr s => Store.chunks s file range
  delete s owner file := match s with
    | .inl s => (Store.delete s owner file).map .inl
    | .inr s => (Store.delete s owner file).map .inr
  list s owner q := match s with
    | .inl s => Store.list s owner q
    | .inr s => Store.list s owner q
  purge s file := match s with
    | .inl s => (Store.purge s file).map .inl
    | .inr s => (Store.purge s file).map .inr

end Strongbox
