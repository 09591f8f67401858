/-!
# The keys of a page's document

`doc/docSchema.ts`: the maps of a document and the keys of its page, of its blocks and of its
collections.
-/

namespace Sone

/-! ### `PAGE_KEYS` -/

namespace PageKeys

def title : String := "title"
/-- One of `ENTRY_KINDS`. -/
def kind : String := "kind"
/-- Tag names, as a `Y.Array`. -/
def tags : String := "tags"
def icon : String := "icon"
def width : String := "width"
def template : String := "template"
def locked : String := "locked"
def cover : String := "cover"
def parentPageId : String := "parentPageId"
def idx : String := "idx"
def collectionId : String := "collectionId"
def archivedAt : String := "archivedAt"

end PageKeys

def MetaKeys.schemaVersion : String := "schemaVersion"

/-! ### `BLOCK_ATTRS` -/

namespace BlockAttrs

def id : String := "id"
/-- A JSON object, for what ProseMirror does not model. -/
def props : String := "props"
def indent : String := "indent"

end BlockAttrs

/-- `STRUCTURAL_BLOCK_TYPES` -/
def structuralBlockTypes : List String := ["columns", "column"]

/-! ### `COLLECTION_KEYS`, `FIELD_KEYS` and `VIEW_KEYS` -/

namespace CollectionKeys

def titleFieldId : String := "titleFieldId"
def fields : String := "fields"
def views : String := "views"

end CollectionKeys

namespace FieldKeys

def name : String := "name"
def description : String := "description"
def fieldType : String := "fieldType"
def config : String := "config"
def idx : String := "idx"
def schemaVersion : String := "schemaVersion"

end FieldKeys

namespace ViewKeys

def name : String := "name"
def viewType : String := "viewType"
def idx : String := "idx"
def definition : String := "definition"
def schemaVersion : String := "schemaVersion"

end ViewKeys

end Sone
