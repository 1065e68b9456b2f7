import ModularEncryption.Text.Quoted

/-! # Listings of values

A listing shows a value with its structure: records with named fields, variants with arguments,
sequences and maps. It is written on one line (`line`), or with one item a line and each level
indented by four spaces (`page`). A record may end in two dots where fields are kept back: keys are
shown in this way. -/

namespace ModularEncryption.Text

/-- A value to be shown. -/
inductive Listing where
  /-- A word shown as it is. -/
  | word (w : String)
  /-- A text, shown in quotes. -/
  | text (s : String)
  /-- A named value, an item of a record. -/
  | field (name : String) (value : Listing)
  /-- A key with its value, an item of a map. -/
  | entry (key value : Listing)
  /-- A record of fields. -/
  | record (name : String) (fields : List Listing)
  /-- A record of which some fields are kept back. -/
  | redacted (name : String) (fields : List Listing)
  /-- A name with arguments; a tuple, if the name is empty. -/
  | variant (name : String) (arguments : List Listing)
  /-- A list of values. -/
  | sequence (items : List Listing)
  /-- A map of entries. -/
  | mapping (entries : List Listing)
deriving Repr

namespace Listing

/-! ### Shorthands -/

/-- A number. -/
def nat (n : Nat) : Listing := .word (toString n)

/-- A truth value. -/
def bool (b : Bool) : Listing := .word (if b then "true" else "false")

/-- A running text, in quotes. -/
def running (s : String) : Listing := .word (quoteRunning s)

/-- A byte string, as the list of its bytes. -/
def bytes (bs : List UInt8) : Listing := .sequence (bs.map fun b => .nat b.toNat)

/-- A value that may be missing. -/
def option {α : Type} (list : α → Listing) : Option α → Listing
  | none => .word "None"
  | some a => .variant "Some" [list a]

/-! ### One line -/

/-- Items between brackets, with blanks inside them if there are any items. -/
def braced (items : List String) : String :=
  if items.isEmpty then "" else " \x7b " ++ String.intercalate ", " items ++ " \x7d"

mutual

/-- The listing on one line. -/
def line : Listing → String
  | .word w => w
  | .text s => quote s
  | .field name value => name ++ ": " ++ line value
  | .entry key value => line key ++ ": " ++ line value
  | .record name fields => name ++ braced (lines fields)
  | .redacted name fields => name ++ braced (lines fields ++ [".."])
  | .variant name arguments =>
    if arguments.isEmpty then name
    else name ++ "(" ++ String.intercalate ", " (lines arguments) ++ ")"
  | .sequence items => "[" ++ String.intercalate ", " (lines items) ++ "]"
  | .mapping entries => "\x7b" ++ String.intercalate ", " (lines entries) ++ "\x7d"

/-- Each listing on one line. -/
def lines : List Listing → List String
  | [] => []
  | l :: ls => line l :: lines ls

end

/-! ### One item a line -/

/-- Lines put after a text on its line. -/
def after (s : String) : List String → List String
  | [] => [s]
  | l :: ls => (s ++ l) :: ls

/-- Lines with a text put at the end of the last one. -/
def endWith (s : String) : List String → List String
  | [] => [s]
  | [l] => [l ++ s]
  | l :: ls => l :: endWith s ls

/-- Items between brackets, each on lines of its own, indented and followed by a comma. -/
def block (opening : String) (items : List (List String)) (closing : String) : List String :=
  opening :: (items.flatMap fun item => (endWith "," item).map ("    " ++ ·)) ++ [closing]

mutual

/-- The lines of the listing with one item a line. -/
def pageLines : Listing → List String
  | .word w => [w]
  | .text s => [quote s]
  | .field name value => after (name ++ ": ") (pageLines value)
  | .entry key value =>
    match pageLines value with
    | [] => endWith ": " (pageLines key)
    | l :: ls => endWith (": " ++ l) (pageLines key) ++ ls
  | .record name fields =>
    if fields.isEmpty then [name] else block (name ++ " \x7b") (pagesLines fields) "\x7d"
  | .redacted name fields =>
    (name ++ " \x7b") :: ((pagesLines fields).flatMap fun item =>
      (endWith "," item).map ("    " ++ ·)) ++ ["    ..", "\x7d"]
  | .variant name arguments =>
    if arguments.isEmpty then [name] else block (name ++ "(") (pagesLines arguments) ")"
  | .sequence items => if items.isEmpty then ["[]"] else block "[" (pagesLines items) "]"
  | .mapping entries =>
    if entries.isEmpty then ["\x7b\x7d"] else block "\x7b" (pagesLines entries) "\x7d"

/-- The lines of each listing. -/
def pagesLines : List Listing → List (List String)
  | [] => []
  | l :: ls => pageLines l :: pagesLines ls

end

/-- The listing with one item a line. -/
def page (l : Listing) : String := String.intercalate "\n" l.pageLines

end Listing

end ModularEncryption.Text
