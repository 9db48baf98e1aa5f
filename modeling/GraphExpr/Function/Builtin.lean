import GraphExpr.Function.Signature

/-! # Built-in functions

The vocabulary that every expression may use, with the name, the signature and a description
of each function.
-/

namespace GraphExpr

inductive Builtin where
  | allEntries | allEntryTypes
  | ancestors | andAncestors | descendants | andDescendants
  | count | first | date | entry | entryType | prop | not | range | markdown
  | filter | map | sort | slice | get | reverse | annotate | withDetail | conditional
  | union | intersection | difference | graph
  deriving DecidableEq

namespace Builtin

def all : List Builtin :=
  [allEntries, allEntryTypes, ancestors, andAncestors, descendants, andDescendants, count, first,
    date, entry, entryType, prop, not, range, markdown, filter, map, sort, slice, get, reverse,
    annotate, withDetail, conditional, union, intersection, difference, graph]

def name : Builtin → String
  | allEntries => "allEntries"
  | allEntryTypes => "allEntryTypes"
  | ancestors => "ancestors"
  | andAncestors => "andAncestors"
  | descendants => "descendants"
  | andDescendants => "andDescendants"
  | count => "count"
  | first => "first"
  | date => "date"
  | entry => "entry"
  | entryType => "entryType"
  | prop => "prop"
  | not => "not"
  | range => "range"
  | markdown => "markdown"
  | filter => "filter"
  | map => "map"
  | sort => "sort"
  | slice => "slice"
  | get => "get"
  | reverse => "reverse"
  | annotate => "annotate"
  | withDetail => "withDetail"
  | conditional => "if"
  | union => "union"
  | intersection => "intersection"
  | difference => "difference"
  | graph => "graph"

def ofName? (name : String) : Option Builtin :=
  all.find? fun builtin => builtin.name == name

/-- The keys that cannot name an annotation in a call. -/
def reservedAnnotationKeys : List String :=
  ["key", "value", "id", "type"]

def signature : Builtin → Signature
  | allEntries | allEntryTypes => .noArguments
  | ancestors | andAncestors | descendants | andDescendants | count | first | date | entry
  | entryType | prop | not | range | markdown | graph => .oneArgument
  | filter => .keyed ⟨[], ["entryType", "excludeEntryType"], false, []⟩
  | map => .keyed ⟨["apply"], [], false, []⟩
  | sort => .keyed ⟨[], ["by", "reverse"], false, []⟩
  | slice => .keyed ⟨[], ["start", "end", "size"], false, []⟩
  | get | reverse | withDetail => .keyed ⟨["prop"], [], false, []⟩
  | annotate => .keyed ⟨[], [], true, reservedAnnotationKeys⟩
  | conditional => .keyed ⟨["then"], ["else"], false, []⟩
  | union | intersection => .keyed ⟨["with"], [], false, []⟩
  | difference => .keyed ⟨["without"], [], false, []⟩

def description : Builtin → String
  | allEntries => "Every entry of the site."
  | allEntryTypes => "Every entry type of the site."
  | ancestors => "Entries reachable by IS-A relationships, nearest first."
  | andAncestors => "The entry itself plus its ancestors."
  | descendants => "Entries that reach this one by IS-A relationships, nearest first."
  | andDescendants => "The entry itself plus its descendants."
  | count => "Number of items."
  | first => "The first item, or null."
  | date => "Parses YYYY-MM-DD, YYYY-MM or YYYY."
  | entry => "An entry by id or key."
  | entryType => "An entry type by id, or the type of an entry."
  | prop => "A property by id or key."
  | not => "Boolean negation."
  | range => "Minimum and maximum of the items."
  | markdown => "Marks a string as Markdown."
  | filter => "Keeps entries of (or excludes entries of) the given types."
  | map => "Applies a lambda to each item."
  | sort => "Sorts items, optionally by a lambda."
  | slice => "A page of items; negative indexes count from the end."
  | get => "Value of a property for an entry or set of entries."
  | reverse => "Entries that point at these entries through a relationship property."
  | annotate => "Attaches named annotations."
  | withDetail => "Annotates each entry with the value of a property."
  | conditional => "Chooses between two values."
  | union => "Entries in either set."
  | intersection => "Entries in both sets."
  | difference => "Entries in the first set but not the second."
  | graph => "Entries and their relationships, for drawing."

end Builtin

end GraphExpr
