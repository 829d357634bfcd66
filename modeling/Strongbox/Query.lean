import Strongbox.Text.Blank
import Strongbox.Text.Lower
import Strongbox.Text.Split

/-!
# Listing queries

One page of a listing, with an optional filter.
-/

namespace Strongbox

def defaultPerPage : Nat := 10

/-- A request for one page. -/
structure Query where
  page : Nat
  perPage : Nat
  filter : Option String
  page_pos : 0 < page
  perPage_pos : 0 < perPage
  deriving Repr

namespace Query

/-- The request with out-of-range numbers replaced and a blank filter dropped. -/
def make (page perPage : Int) (filter : String) : Query where
  page := if page < 1 then 1 else page.toNat
  perPage := if perPage < 1 then defaultPerPage else perPage.toNat
  filter :=
    let kept := Text.trim filter.toList
    if kept.isEmpty then none else some (String.ofList kept)
  page_pos := by split <;> omega
  perPage_pos := by split <;> simp [defaultPerPage]; omega

def offset (q : Query) : Nat := (q.page - 1) * q.perPage

def totalPages (q : Query) (total : Nat) : Nat := (total + q.perPage - 1) / q.perPage

def slice {α : Type} (q : Query) (items : List α) : List α := (items.drop q.offset).take q.perPage

/-- Some field holds the filter, letter case aside. -/
def accepts (q : Query) (fields : List String) : Bool :=
  match q.filter with
  | none => true
  | some f =>
    let needle := Text.lower f.toList
    fields.any fun s => Text.holds needle (Text.lower s.toList)

end Query

end Strongbox
