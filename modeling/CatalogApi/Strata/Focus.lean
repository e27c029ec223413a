import CatalogApi.Lib.Slices
import CatalogApi.Strata.Ladder

/-!
# Focus cursors

`_parse_focus`, `_page_size` and `resolve_focus` of `api/strata.py`: a cursor is parsed to the
member set it names, and a page of that set is chosen. The level, credit, master, lane and decade
of `_Focus` are carried by the four kinds of member sets a cursor can name.
-/

namespace CatalogApi.Strata

open Slices Text

/-- The member set a cursor names: the credits beyond the root, the masters of a bucket, the
releases of a master, or the releases of a no-master lane. -/
inductive Target where
  | others (members : List Credit)
  | bucket (credit : Credit) (label : String) (members : List String)
  | pressings (credit : Credit) (masterId : String) (members : List Item)
  | lane (credit : Credit) (label : Option String) (members : List Item)

/-- The number of members. -/
def Target.size : Target → Nat
  | .others members => members.length
  | .bucket _ _ members => members.length
  | .pressings _ _ members => members.length
  | .lane _ _ members => members.length

/-- The credit a cursor is under. -/
def Target.credit : Target → Option Credit
  | .others _ => none
  | .bucket credit _ _ => some credit
  | .pressings credit _ _ => some credit
  | .lane credit _ _ => some credit

/-- A parsed cursor: its canonical form and its member set. -/
structure Cursor where
  canonical : String
  target : Target

/-- `_Focus`. -/
structure Focus where
  id : String
  target : Target
  page : Nat
  pageSize : Nat

/-- `_Focus.pages`. -/
def Focus.pages (focus : Focus) : Nat :=
  pageCount focus.target.size focus.pageSize

/-- `_Focus.page_members`, of the members of the target. -/
def Focus.onPage {α : Type} (focus : Focus) (members : List α) : List α :=
  slice members focus.page focus.pageSize

/-- `_Focus.rest`, of the members of the target. -/
def Focus.offPage {α : Type} (focus : Focus) (members : List α) : List α :=
  leftover members focus.page focus.pageSize

namespace Ladder

variable (ladder : Ladder)

/-! ## Parsing -/

/-- `_parse_credit`. -/
def parseCredit (text : String) : Option Credit × Option String :=
  match split ':' text with
  | [head, artists] =>
      if head ≠ "c" ∨ artists = "" then (none, none) else (some (split '+' artists), none)
  | [head, artists, label] =>
      if head ≠ "c" ∨ artists = "" then (none, none) else (some (split '+' artists), some label)
  | _ => (none, none)

/-- The cursor of the releases of a master. -/
def masterCursor (masterId : String) : Option Cursor :=
  if masterId ∈ ladder.masterIds then
    some { canonical := "ra:m:" ++ masterId
           target := .pressings (ladder.masterCredit masterId) masterId
             (ladder.itemsByMaster masterId) }
  else none

/-- The cursor of a no-master lane, or of one decade of it. -/
def laneCursor (text : String) : Option Cursor :=
  match parseCredit text with
  | (none, _) => none
  | (some credit, none) =>
      if ladder.masterless credit = [] then none
      else some { canonical := "ra:nm:" ++ creditId credit
                  target := .lane credit none (ladder.masterless credit) }
  | (some credit, some label) =>
      let members := (ladder.masterless credit).filter fun item => decade item.year = label
      if members = [] then none
      else some { canonical := "ra:nm:" ++ creditId credit ++
                    (if label = "" then "" else ":" ++ label)
                  target := .lane credit (some label) members }

/-- The cursor of a master bucket. -/
def bucketCursor (text : String) : Option Cursor :=
  match parseCredit text with
  | (some credit, some label) =>
      let members := (ladder.mastersByCredit credit).filter fun masterId =>
        label = all ∨ (ladder.bucket .decade masterId).2 = label
      if members = [] then none
      else some { canonical := "ma:" ++ creditId credit ++ ":" ++ label
                  target := .bucket credit label members }
  | _ => none

/-- The cursor of the credits beyond the root. -/
def othersCursor : Option Cursor :=
  let others := ladder.creditOrder.drop 1
  if others = [] then none
  else some { canonical := otherCredits, target := .others others }

/-- `_parse_focus`. -/
def parseFocus (focusId : String) : Option Cursor :=
  if focusId = otherCredits then ladder.othersCursor
  else match afterPrefix "ra:m:" focusId with
  | some masterId => ladder.masterCursor masterId
  | none => match afterPrefix "m:" focusId with
  | some masterId => ladder.masterCursor masterId
  | none => match afterPrefix "ra:nm:" focusId with
  | some text => ladder.laneCursor text
  | none => match afterPrefix "nm:" focusId with
  | some text => ladder.laneCursor text
  | none => match afterPrefix "ma:" focusId with
  | some text => ladder.bucketCursor text
  | none => none

/-- `_pressing`. -/
def pressing (focusId : String) : Option Item :=
  if (afterPrefix "mb:" focusId).isSome then ladder.byNodeId (lower focusId)
  else if (afterPrefix "r:" focusId).isSome then ladder.byNodeId focusId
  else none

/-- `_pressing_cursor`. -/
def pressingCursor (item : Item) : String :=
  match item.release.masterId with
  | some masterId => "ra:m:" ++ masterId
  | none => "ra:nm:" ++ creditId item.credit

/-! ## The page -/

end Ladder

/-- `_page_size`: a set that fits whole is one page, and any other leaves room for its rest. -/
def pageSizeFor (members : Nat) (withoutRest withRest : Int) : Nat :=
  if (members : Int) ≤ min (pageSize : Int) withoutRest then members
  else (max 1 (min (pageSize : Int) withRest)).toNat

/-- `int(bool(items))`. -/
def present {α : Type} (items : List α) : Nat :=
  if items = [] then 0 else 1

namespace Ladder

variable (ladder : Ladder)

/-- The root and the credit of a focus, once each. -/
def focusedCredits (credit : Credit) : List Credit :=
  if credit = ladder.root then [ladder.root] else [ladder.root, credit]

/-- The entries of the master plane that a focused bucket leaves room for. -/
def otherMasterEntries (credit : Credit) (members : List String) : Nat :=
  let own := present (ladder.masterless credit) +
    present ((ladder.mastersByCredit credit).filter fun masterId => masterId ∉ members)
  if credit = ladder.root then own
  else own + present (ladder.masterless ladder.root) + present (ladder.mastersByCredit ladder.root)

/-- The lanes of the release plane that a focused master or lane leaves room for. -/
def otherLanes (credit : Credit) (lane : Option Credit) (members : List Item) : Nat :=
  ((ladder.focusedCredits credit).map fun c =>
    if lane = some c then
      if (ladder.masterless c).length > members.length then 1 else 0
    else present (ladder.masterless c)).sum

/-- The page size of a member set: it depends on the set and the budget only. -/
def targetPageSize (target : Target) (budget : Budget) : Nat :=
  match target with
  | .others members =>
      pageSizeFor members.length (budget.credits - 1) (budget.credits - 2)
  | .bucket credit _ members =>
      let othersM : Int := ladder.otherMasterEntries credit members
      let lanes : Int := ((ladder.focusedCredits credit).map fun c =>
        present (ladder.masterless c)).sum
      pageSizeFor members.length
        (min (budget.masters - othersM) (budget.releases - lanes))
        (min (budget.masters - othersM - 1) (budget.releases - lanes))
  | .pressings credit _ members =>
      let room : Int := budget.releases - (ladder.otherLanes credit none members : Nat)
      pageSizeFor members.length room (room - 1)
  | .lane credit _ members =>
      let room : Int := budget.releases - (ladder.otherLanes credit (some credit) members : Nat)
      pageSizeFor members.length room (room - 1)

/-- The index of an item in a list: the items are told apart by identity, and of equal ones the
ladder finds the last. -/
def lastIndex (item : Item) (members : List Item) : Option Nat :=
  if item ∈ members then some (members.length - 1 - members.reverse.idxOf item) else none

/-- The index of a pressing among the members of its cursor. -/
def memberIndex (item : Item) : Target → Option Nat
  | .pressings _ _ members => lastIndex item members
  | .lane _ _ members => lastIndex item members
  | _ => none

/-- The page of a focus before it wraps: the requested one, or the one that holds the pressing. -/
def pageOf (pressing : Option Item) (target : Target) (page size : Nat) :
    Except StrataError Nat :=
  match pressing with
  | none => pure page
  | some item =>
      match memberIndex item target with
      | some index => pure (index / size)
      | none => throw .stopIteration

/-- `resolve_focus`. -/
def resolveFocus (focusId : String) (page : Nat) (budget : Budget) : Except StrataError Focus :=
  let pressing := ladder.pressing focusId
  match ladder.parseFocus (pressing.elim focusId pressingCursor) with
  | none => throw (.focusNotFound s!"focus '{focusId}' names nothing under this artist")
  | some cursor => do
      let size := ladder.targetPageSize cursor.target budget
      let page ← pageOf pressing cursor.target page size
      pure { id := cursor.canonical, target := cursor.target,
             page := page % pageCount cursor.target.size size, pageSize := size }

end Ladder

end CatalogApi.Strata
