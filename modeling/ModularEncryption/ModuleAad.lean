import ModularEncryption.Error.Refusal

/-! # Additional data of modules

A file is made of modules, and each is encrypted with additional data that name it: the bytes of the
file, a tag for the kind of the module, and the ordinals that the kind carries, two bytes each with
the lowest first. An ordinal must fit into 15 bits. Pages are numbered on, so the last two bytes of
the data of a page may be replaced (`withPage`, `renumberPage`) instead of building them anew. -/

namespace ModularEncryption

/-- The kinds of modules. -/
inductive ModuleKind where
  | footer
  | columnMetaData
  | dataPage
  | dictionaryPage
  | dataPageHeader
  | dictionaryPageHeader
  | columnIndex
  | offsetIndex
deriving DecidableEq, Repr

/-- The ordinals that say where in its file a module stands. -/
structure Ordinals where
  rowGroup : Nat
  column : Nat
  page : Nat
deriving DecidableEq, Repr

/-- The greatest ordinal. -/
def maxOrdinal : Nat := 32767

/-- The two bytes of an ordinal. -/
def ordinalBytes (role : OrdinalRole) (ordinal : Nat) : Except Error Bytes :=
  if maxOrdinal < ordinal then
    .error { cause := .ordinalTooLarge role ordinal, context := [("ordinal", role.name)] }
  else .ok (Bytes.littleEndian 2 ordinal)

namespace ModuleKind

/-- The byte that stands for a kind. -/
def tag : ModuleKind → UInt8
  | .footer => 0
  | .columnMetaData => 1
  | .dataPage => 2
  | .dictionaryPage => 3
  | .dataPageHeader => 4
  | .dictionaryPageHeader => 5
  | .columnIndex => 6
  | .offsetIndex => 7

/-- Whether modules of a kind carry the ordinal of a page. -/
def hasPage : ModuleKind → Bool
  | .dataPage | .dataPageHeader => true
  | _ => false

/-- The additional data of the footer. -/
def footerAad (fileAad : Bytes) : Bytes := fileAad ++ [ModuleKind.footer.tag]

/-- The additional data of a module; ordinals that its kind does not carry are ignored. -/
def aad (kind : ModuleKind) (fileAad : Bytes) (o : Ordinals) : Except Error Bytes :=
  if kind = .footer then .ok (footerAad fileAad)
  else do
    let rowGroup ← ordinalBytes .rowGroup o.rowGroup
    let column ← ordinalBytes .column o.column
    let page ← if kind.hasPage then ordinalBytes .page o.page else .ok []
    return fileAad ++ [kind.tag] ++ rowGroup ++ column ++ page

end ModuleKind

/-- The additional data of a page, with another page's ordinal at their end. -/
def withPage (aad : Bytes) (page : Nat) : Except Error Bytes := do
  let bytes ← ordinalBytes .page page
  refuseIf (aad.length < 2) (.pageAadTooShort aad.length)
  return aad.take (aad.length - 2) ++ bytes

/-- Numbers on a buffer that holds the additional data of a page: how that went, and what the buffer
holds afterwards. -/
def renumberPage (aad : Bytes) (page : Nat) : Except Error Unit × Bytes :=
  match withPage aad page with
  | .ok updated => (.ok (), updated)
  | .error e => (.error e, aad)

theorem ordinalBytes_of_le {role : OrdinalRole} {ordinal : Nat} (h : ordinal ≤ maxOrdinal) :
    ordinalBytes role ordinal = .ok (Bytes.littleEndian 2 ordinal) := by
  rw [ordinalBytes, if_neg (by omega)]

end ModularEncryption
