/-! # Identifiers

Entries, entry types, properties, facts, sites and users are named by texts. Each sort of
thing has identifiers of its own type, ordered as their texts are.
-/

namespace GraphExpr

inductive Id.Kind where
  | entry | entryType | property | fact | site | user
  deriving DecidableEq

/-- The identifier of a thing of the given sort. -/
structure Id (kind : Id.Kind) where
  text : String
  deriving DecidableEq

instance {kind : Id.Kind} : Ord (Id kind) where
  compare a b := compare a.text b.text

abbrev EntryId := Id .entry

abbrev EntryTypeId := Id .entryType

abbrev PropertyId := Id .property

abbrev FactId := Id .fact

/-- The identifier of a site, whose graph is separate from those of other sites. -/
abbrev SiteId := Id .site

abbrev UserId := Id .user

end GraphExpr
