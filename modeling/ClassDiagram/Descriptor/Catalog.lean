import ClassDiagram.Descriptor.Format
import ClassDiagram.Descriptor.Request

/-! # Catalogs of descriptors

Descriptors under their full names, in the order in which the names came up.  A later descriptor
of a name takes the place of the earlier one.

* `insert_ok`: a descriptor with a name is always accepted, under its full name;
* `insert_blank`: one without a name never is.
-/

namespace ClassDiagram

/-- Descriptors under their full names. -/
structure Catalog where
  types : OrderedMap String Descriptor
  deriving DecidableEq, Repr

namespace Catalog

def empty : Catalog := ⟨OrderedMap.empty⟩

instance : Inhabited Catalog := ⟨empty⟩

/-- Add a descriptor, in the place of one with the same full name. -/
def insert (c : Catalog) (d : Descriptor) : Except Error Catalog :=
  if Text.isBlankText d.name then .error (.descriptor "descriptor name must not be empty")
  else .ok ⟨c.types.insert d.fullName d⟩

def ofList (ds : List Descriptor) : Except Error Catalog :=
  ds.foldlM insert empty

def ofJson (s : Json.Source) : Except Error Catalog := do
  ofList (← (Json.Reader.list Descriptor.reader).result s)

def descriptors (c : Catalog) : List Descriptor := c.types.values

def names (c : Catalog) : List String := c.types.keys

def size (c : Catalog) : Nat := c.types.size

/-- The descriptor that a name asks for: the one whose full name it is, else the first one whose
name it is without where the type lives. -/
def lookup? (c : Catalog) (name : String) : Option Descriptor :=
  let key := Request.metadataForm (Text.trim name)
  (c.types.get? key).or (c.descriptors.find? (·.shortName == key))

/-- Each name with the descriptor that it asks for. -/
def resolve (c : Catalog) (names : List String) : List (String × Option Descriptor) :=
  names.map fun name => (name, c.lookup? name)

theorem insert_ok (c : Catalog) {d : Descriptor} (h : Text.isBlankText d.name = false) :
    c.insert d = .ok ⟨c.types.insert d.fullName d⟩ := by
  simp [insert, h]

theorem insert_blank (c : Catalog) {d : Descriptor} (h : Text.isBlankText d.name = true) :
    c.insert d = .error (.descriptor "descriptor name must not be empty") := by
  simp [insert, h]

end Catalog

end ClassDiagram
