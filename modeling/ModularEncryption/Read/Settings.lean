import ModularEncryption.AesKey
import ModularEncryption.Asking
import ModularEncryption.ColumnPath
import ModularEncryption.Error.Refusal
import ModularEncryption.Table
import ModularEncryption.Text.Shown

/-! # How a file is read

The settings of a reader give keys, or say where to ask for them: a footer key, a key to verify
signed footers, keys of columns, a key retriever for all others, and the writer's prefix or a lookup
for it. They are drafted by a sequence of choices (`ReadChoice`), of which the last one of a sort
prevails, and looked at as a whole when the draft is built.

Every refusal is a configuration error (`ReadDraft.kind_of_build_eq_error`). -/

namespace ModularEncryption

/-- A lookup of writers' prefixes by the metadata that files carry. -/
abbrev PrefixLookup := Bytes → Except Error Bytes

/-- The key of one column. -/
structure ColumnKey where
  path : ColumnPath
  key : AesKey
deriving DecidableEq

/-- The key of a column, given by its bytes. -/
def ColumnKey.ofBytes (path : ColumnPath) (bytes : Bytes) : Except Error ColumnKey :=
  match AesKey.ofBytes bytes with
  | .ok key => .ok ⟨path, key⟩
  | .error e => .error (e.withContext "column" path.toDotted)

/-- How a file is read. -/
structure ReadSettings where
  footerKey : Option AesKey
  footerSigningKey : Option AesKey
  columnKeys : Table ColumnPath AesKey
  retriever : Option RetrieverRef
  aadPrefix : Option Bytes
  prefixLookup : Option PrefixLookup
  checkFooterIntegrity : Bool

namespace ReadSettings

/-- The key that was given for a column. -/
def columnKey? (s : ReadSettings) (path : ColumnPath) : Option AesKey := s.columnKeys.get? path

/-- The key that an answer gives for metadata. -/
def keyOfAnswer (metadata : Bytes) : KeyAnswer → Except Failure AesKey
  | .error f => .error (f.withContext "key_metadata" (Text.shown metadata))
  | .ok bytes =>
    match AesKey.ofBytes bytes with
    | .ok key => .ok key
    | .error e => .error (.error (e.withContext "key_metadata" (Text.shown metadata)))

/-- Asks a retriever for the key of metadata. -/
def askKey (retriever : RetrieverRef) (metadata : Bytes) : Asking (Except Failure AesKey) :=
  .ask retriever metadata (keyOfAnswer metadata)

/-- Asks for the key of metadata, if there are any and there is a retriever. -/
def retrieveKey (s : ReadSettings) (metadata : Option Bytes) :
    Asking (Except Failure (Option AesKey)) :=
  match s.retriever, metadata with
  | some retriever, some md => (askKey retriever md).map (Except.map some)
  | _, _ => .done (.ok none)

/-- The listing of a reader's settings, which shows no key. -/
def listing (s : ReadSettings) : Text.Listing :=
  .record "FileDecryptionProperties" [.field "footer_key" (.option AesKey.listing s.footerKey),
    .field "footer_signing_key" (.option AesKey.listing s.footerSigningKey),
    .field "column_keys" (.sequence (s.columnKeys.keys.map ColumnPath.listing)),
    .field "has_key_retriever" (.bool s.retriever.isSome),
    .field "aad_prefix" (.option (fun bs => .text (Text.shown bs)) s.aadPrefix),
    .field "has_aad_prefix_retriever" (.bool s.prefixLookup.isSome),
    .field "check_footer_integrity" (.bool s.checkFooterIntegrity)]

end ReadSettings

/-! ### Drafts -/

/-- What may be said about how a file is read. -/
inductive ReadChoice where
  | footerKey (bytes : Bytes)
  | footerSigningKey (bytes : Bytes)
  | columnKey (path : ColumnPath) (bytes : Bytes)
  | column (c : ColumnKey)
  | retriever (ref : RetrieverRef)
  | aadPrefix (bytes : Bytes)
  | prefixLookup (lookup : PrefixLookup)
  | checkFooterIntegrity (b : Bool)

/-- What has been said about how a file is read. -/
structure ReadDraft where
  footerKey : Option Bytes := none
  footerSigningKey : Option Bytes := none
  columnKeys : List (ColumnPath × Bytes) := []
  retriever : Option RetrieverRef := none
  aadPrefix : Option Bytes := none
  prefixLookup : Option PrefixLookup := none
  checkFooterIntegrity : Bool := false

namespace ReadDraft

/-- The draft with one more choice. -/
def choose (d : ReadDraft) : ReadChoice → ReadDraft
  | .footerKey bytes => { d with footerKey := some bytes }
  | .footerSigningKey bytes => { d with footerSigningKey := some bytes }
  | .columnKey path bytes => { d with columnKeys := d.columnKeys ++ [(path, bytes)] }
  | .column c => { d with columnKeys := d.columnKeys ++ [(c.path, c.key.bytes)] }
  | .retriever ref => { d with retriever := some ref }
  | .aadPrefix bytes => { d with aadPrefix := some bytes }
  | .prefixLookup lookup => { d with prefixLookup := some lookup }
  | .checkFooterIntegrity b => { d with checkFooterIntegrity := b }

/-- The draft after a sequence of choices. -/
def ofChoices (choices : List ReadChoice) : ReadDraft := choices.foldl choose {}

/-- A key that was given, if its length is valid; the error says which key it is. -/
def checkKey (name : String) : Option Bytes → Except Error (Option AesKey) :=
  AesKey.ofOption fun _ e => e.withContext "key" name

/-- The keys of columns added to a table one by one; the first one that has a wrong length or comes
a second time is the error. -/
def addColumnKeys (keys : Table ColumnPath AesKey) :
    List (ColumnPath × Bytes) → Except Error (Table ColumnPath AesKey)
  | [] => .ok keys
  | (path, bytes) :: rest =>
    match ColumnKey.ofBytes path bytes with
    | .error e => .error e
    | .ok c =>
      if keys.contains path then .error { cause := .columnKeyTwice path }
      else addColumnKeys (keys.insert path c.key) rest

/-- The settings that the choices amount to. -/
def build (d : ReadDraft) : Except Error ReadSettings := do
  refuseIf (d.footerKey.isNone ∧ d.retriever.isNone ∧ d.columnKeys.isEmpty) .nothingDecryptable
  refuseIf (d.aadPrefix.isSome ∧ d.prefixLookup.isSome) .twoPrefixSources
  let footerKey ← checkKey "footer" d.footerKey
  let footerSigningKey ← checkKey "footer signing" d.footerSigningKey
  let columnKeys ← addColumnKeys .empty d.columnKeys
  return { footerKey, footerSigningKey, columnKeys
           retriever := d.retriever
           aadPrefix := d.aadPrefix
           prefixLookup := d.prefixLookup
           checkFooterIntegrity := d.checkFooterIntegrity }

theorem kind_of_checkKey_eq_error {name : String} {key : Option Bytes} {e : Error}
    (h : checkKey name key = .error e) : e.kind = .configuration :=
  AesKey.kind_of_ofOption_eq_error (fun _ e he => (e.kind_withContext ..).trans he) h

theorem kind_of_addColumnKeys_eq_error : ∀ {entries : List (ColumnPath × Bytes)}
    {keys : Table ColumnPath AesKey} {e : Error},
    addColumnKeys keys entries = .error e → e.kind = .configuration
  | [], _, _, h => by cases h
  | (path, bytes) :: rest, keys, e, h => by
    simp only [addColumnKeys] at h
    cases hk : AesKey.ofBytes bytes with
    | error e' =>
      simp only [ColumnKey.ofBytes, hk] at h
      cases h
      rw [Error.kind_withContext]
      exact AesKey.kind_of_ofBytes_eq_error hk
    | ok k =>
      simp only [ColumnKey.ofBytes, hk] at h
      split at h
      · cases h; rfl
      · exact kind_of_addColumnKeys_eq_error h

/-- A draft that is refused is badly configured. -/
theorem kind_of_build_eq_error {d : ReadDraft} {e : Error} (h : d.build = .error e) :
    e.kind = .configuration := by
  simp only [build, bind_eq_error_iff, refuseIf_eq_error_iff] at h
  rcases h with ⟨_, rfl⟩ | ⟨_, _, ⟨_, rfl⟩ | ⟨_, _, h | ⟨_, _, h | ⟨_, _, h | ⟨_, _, h⟩⟩⟩⟩⟩
  · rfl
  · rfl
  · exact kind_of_checkKey_eq_error h
  · exact kind_of_checkKey_eq_error h
  · exact kind_of_addColumnKeys_eq_error h
  · cases h

end ReadDraft

end ModularEncryption
