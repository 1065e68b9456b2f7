import ModularEncryption.Proofs.Write.File

/-! # Writers never get stuck

A writer is asked for the cipher of the footer and for columns (`WriterRequest`), in any order and
as often as one likes. What it replies is settled beforehand (`WriteSettings.reply`): by its
settings alone, but that a column keeps the ordinal with which its path was first asked for
(`firstOrdinal`).

A writer recalls what it was asked if it follows its settings and its columns have these ordinals
(`FileWriter.Recalls`). Then its next reply is the one that is settled, and it recalls that request,
too (`succeeds_perform`). So no run fails (`succeeds_serve`), and the ciphers of the footer that are
kept on the way are nowhere to be seen (`never_stuck`). -/

namespace ModularEncryption

/-- What may be asked of a writer. -/
inductive WriterRequest where
  | footer
  | column (path : ColumnPath) (ordinal : Nat)
deriving DecidableEq

/-- What a writer replies. -/
inductive WriterReply where
  | footer (cipher : Option FrameCipher)
  | column (c : WriterColumn)
deriving DecidableEq

/-- The ordinal with which a path is first asked for. -/
def firstOrdinal (path : ColumnPath) (requests : List WriterRequest) : Option Nat :=
  requests.findSome? fun
    | .footer => none
    | .column path' ordinal => if path = path' then some ordinal else none

namespace WriteSettings

/-- The setup of a column, with an ordinal. -/
def setup (s : WriteSettings) (path : ColumnPath) (ordinal : Nat) : WriterColumn :=
  ⟨path, ordinal, (s.column path).usesFooterKey, (s.column path).keyMetadata?, s.ciphers? path⟩

/-- The reply to a request that comes after others. -/
def reply (s : WriteSettings) (before : List WriterRequest) : WriterRequest → WriterReply
  | .footer => .footer (s.footerKey?.map (⟨.gcm, ·⟩))
  | .column path ordinal => .column (s.setup path ((firstOrdinal path before).getD ordinal))

end WriteSettings

namespace FileWriter

/-- Lets a writer do what it is asked. -/
def perform : WriterRequest → Writing WriterReply
  | .footer => return .footer (← footerCipher)
  | .column path ordinal => return .column (← column path ordinal)

/-- Lets a writer do one thing after the other. -/
def serve (requests : List WriterRequest) : Writing (List WriterReply) := requests.mapM perform

variable {α β : Type} {w : FileWriter} {s : WriteSettings} {before : List WriterRequest}

/-! ### Steps that leave the columns -/

/-- A step leaves the columns as they are, whether it succeeds or not. -/
def LeavesColumns (x : Writing α) : Prop := ∀ w, (x w).2.columns = w.columns

theorem LeavesColumns.bind {x : Writing α} {f : α → Writing β} (hx : LeavesColumns x)
    (hf : ∀ a, LeavesColumns (f a)) : LeavesColumns (x >>= f) := by
  intro w
  have hx' := hx w
  show (ExceptT.bindCont f (x w).1 (x w).2).2.columns = _
  cases (x w).1 with
  | error e => exact hx'
  | ok a => exact (hf a (x w).2).trans hx'

/-- A step that begins by looking at the writer. -/
theorem leavesColumns_get_bind {f : FileWriter → Writing α}
    (h : ∀ w, (f w w).2.columns = w.columns) : LeavesColumns (get >>= f) := h

theorem leavesColumns_footerCipherOf (mode : Mode) : LeavesColumns (footerCipherOf mode) := by
  have hkeep : ∀ (w : FileWriter) c, (w.keep mode c).columns = w.columns := by
    intro w c
    unfold FileWriter.keep
    split <;> rfl
  refine leavesColumns_get_bind fun w => ?_
  -- with a cipher kept and without a key nothing is kept, otherwise the cipher that is made
  cases w.keptCipher mode with
  | some c => rfl
  | none =>
    cases w.settings.footerKey? with
    | none => rfl
    | some key => exact hkeep w ⟨mode, key⟩

theorem leavesColumns_footerCipher : LeavesColumns footerCipher := by
  refine leavesColumns_get_bind fun w => ?_
  split
  · exact (leavesColumns_footerCipherOf .gcm).bind (fun c => fun _ => rfl) w
  · rfl

theorem leavesColumns_columnCiphers (c : ColumnSettings) : LeavesColumns (columnCiphers c) := by
  intro w
  unfold columnCiphers
  cases c.protection with
  | plaintext => rfl
  | ownKey key metadata => rfl
  | footerKey =>
    exact (leavesColumns_footerCipherOf w.suite.dataMode).bind (fun data =>
      (leavesColumns_footerCipherOf w.suite.metadataMode).bind fun metadata => fun _ => rfl) w

/-- A step that leaves the columns does so when it succeeds. -/
theorem LeavesColumns.succeeds {x : Writing α} {post : α → FileWriter → Prop}
    (hx : LeavesColumns x) (h : Succeeds x w post) :
    Succeeds x w fun a w' => post a w' ∧ w'.columns = w.columns := by
  obtain ⟨a, w', hxw, hpost⟩ := h
  refine ⟨a, w', hxw, hpost, ?_⟩
  have hcolumns := hx w
  rwa [hxw] at hcolumns

/-! ### Writers that recall what they were asked -/

/-- A writer follows its settings, and its columns have the ordinals with which they were first
asked for. -/
structure Recalls (w : FileWriter) (s : WriteSettings) (before : List WriterRequest) : Prop where
  follows : w.Follows s
  ordinal : ∀ path, (w.columns.get? path).map (·.ordinal) = firstOrdinal path before

theorem recalls_start (s : WriteSettings) : (start s).Recalls s [] where
  follows := follows_start s
  ordinal _ := rfl

theorem firstOrdinal_append (path : ColumnPath) (before : List WriterRequest)
    (request : WriterRequest) : firstOrdinal path (before ++ [request]) =
      (firstOrdinal path before).or (firstOrdinal path [request]) :=
  List.findSome?_append

theorem firstOrdinal_singleton (path path' : ColumnPath) (ordinal : Nat) :
    firstOrdinal path [.column path' ordinal] = if path = path' then some ordinal else none := by
  unfold firstOrdinal
  rw [List.findSome?_singleton]

theorem eq_setup {c : WriterColumn} {path : ColumnPath} (h : c.Follows s path) :
    c = s.setup path c.ordinal := by
  obtain ⟨path', ordinal, usesFooterKey, keyMetadata, ciphers⟩ := c
  obtain ⟨hpath, huses, hmetadata, hciphers⟩ := h
  simp only at hpath huses hmetadata hciphers
  rw [WriteSettings.setup, hpath, huses, hmetadata, hciphers]

/-- The cipher of the footer is asked for. -/
theorem Recalls.footer {w' : FileWriter} (h : w.Recalls s before) (hw' : w'.Follows s)
    (hcolumns : w'.columns = w.columns) : w'.Recalls s (before ++ [.footer]) where
  follows := hw'
  ordinal path := by
    rw [hcolumns, h.ordinal, firstOrdinal_append]
    exact Option.or_none.symm

/-- A column is asked for, and is there afterwards if it was not there before. -/
theorem Recalls.column {w' : FileWriter} {path : ColumnPath} {c : WriterColumn} {ordinal : Nat}
    (h : w.Recalls s before) (hw' : w'.Follows s)
    (hordinal : c.ordinal = (firstOrdinal path before).getD ordinal)
    (hget : ∀ path', w'.columns.get? path' =
      if path' = path then some c else w.columns.get? path') :
    w'.Recalls s (before ++ [.column path ordinal]) where
  follows := hw'
  ordinal path' := by
    rw [hget, firstOrdinal_append, firstOrdinal_singleton]
    by_cases hpath : path' = path
    · rw [if_pos hpath, if_pos hpath, hpath, Option.map_some, hordinal]
      cases firstOrdinal path before <;> rfl
    · rw [if_neg hpath, if_neg hpath, Option.or_none, h.ordinal]

/-- **A column is set up once**, with the ordinal that comes first. -/
theorem succeeds_column_recalls (h : w.Recalls s before) (hs : s.Keyed) (path : ColumnPath)
    (ordinal : Nat) : Succeeds (FileWriter.column path ordinal) w fun c w' =>
      c = s.setup path ((firstOrdinal path before).getD ordinal) ∧
        w'.Recalls s (before ++ [.column path ordinal]) := by
  refine Succeeds.get_bind ?_
  have hfirst := h.ordinal path
  cases hget : w.columns.get? path with
  | some c =>
    rw [hget, Option.map_some] at hfirst
    have hordinal : c.ordinal = (firstOrdinal path before).getD ordinal := by
      rw [← hfirst, Option.getD_some]
    have hsame : ∀ path', w.columns.get? path' =
        if path' = path then some c else w.columns.get? path' := by
      intro path'
      split
      · next hpath => rw [hpath, hget]
      · rfl
    refine Succeeds.pure ⟨?_, h.column h.follows hordinal hsame⟩
    rw [← hordinal]
    exact eq_setup (h.follows.columns path c hget)
  | none =>
    rw [hget, Option.map_none] at hfirst
    simp only [h.follows.settings_eq]
    refine ((leavesColumns_columnCiphers _).succeeds
      (succeeds_columnCiphers h.follows hs path)).bind ?_
    rintro ciphers w' ⟨⟨rfl, hw'⟩, hcolumns⟩
    have hsetup : (s.setup path ordinal).Follows s path := ⟨rfl, rfl, rfl, rfl⟩
    have hordinal : ordinal = (firstOrdinal path before).getD ordinal := by
      rw [← hfirst, Option.getD_none]
    have hinsert : ∀ path', (w'.columns.insert path (s.setup path ordinal)).get? path' =
        if path' = path then some (s.setup path ordinal) else w.columns.get? path' := by
      intro path'
      rw [← hcolumns]
      exact Table.get?_insert ..
    refine Succeeds.modify_bind (Succeeds.pure ⟨?_, h.column (hw'.insert hsetup) hordinal hinsert⟩)
    rw [← hordinal]
    rfl

/-! ### Runs -/

/-- **The next reply is the one that is settled**, and the request is recalled. -/
theorem succeeds_perform (h : w.Recalls s before) (hs : s.Keyed) (request : WriterRequest) :
    Succeeds (perform request) w fun reply w' =>
      reply = s.reply before request ∧ w'.Recalls s (before ++ [request]) := by
  cases request with
  | footer =>
    refine (leavesColumns_footerCipher.succeeds (succeeds_footerCipher h.follows)).bind ?_
    rintro c w' ⟨⟨rfl, hw'⟩, hcolumns⟩
    exact Succeeds.pure ⟨rfl, h.footer hw' hcolumns⟩
  | column path ordinal =>
    refine (succeeds_column_recalls h hs path ordinal).bind ?_
    rintro c w' ⟨rfl, hw'⟩
    exact Succeeds.pure ⟨rfl, hw'⟩

/-- **No run gets stuck**, and all of it is recalled. -/
theorem succeeds_serve (hs : s.Keyed) (requests : List WriterRequest) :
    ∀ {w : FileWriter} {before : List WriterRequest}, w.Recalls s before →
      Succeeds (serve requests) w fun _ w' => w'.Recalls s (before ++ requests) := by
  induction requests with
  | nil =>
    intro w before h
    refine Succeeds.pure ?_
    rwa [List.append_nil]
  | cons request requests ih =>
    intro w before h
    unfold serve
    rw [List.mapM_cons]
    refine (succeeds_perform h hs request).bind ?_
    rintro reply w' ⟨-, hw'⟩
    refine (ih hw').bind ?_
    intro replies w'' hw''
    refine Succeeds.pure ?_
    rwa [List.append_assoc] at hw''

/-- What the settings of a draft that was accepted give a column: no ciphers exactly if it is left
in plaintext, and otherwise ciphers of its own key or, without one, of the footer's. -/
theorem ciphers_of_keyed (hs : s.Keyed) (path : ColumnPath) :
    (s.ciphers? path = none ↔ (s.column path).protection = .plaintext) ∧
    ∀ ciphers, s.ciphers? path = some ciphers → ∃ key,
      (s.column path).key?.or s.footerKey? = some key ∧ ciphers.metadata = ⟨.gcm, key⟩ ∧
        ciphers.data = ⟨s.algorithm.suite.dataMode, key⟩ := by
  unfold ColumnSettings.key?
  cases hpath : (s.column path).protection with
  | plaintext =>
    rw [WriteSettings.ciphers?_of_plaintext hpath]
    exact ⟨⟨fun _ => rfl, fun _ => rfl⟩, nofun⟩
  | ownKey key metadata =>
    rw [WriteSettings.ciphers?_of_ownKey hpath]
    refine ⟨⟨nofun, nofun⟩, fun ciphers hciphers => ⟨key, rfl, ?_⟩⟩
    cases hciphers
    exact ⟨rfl, rfl⟩
  | footerKey =>
    obtain ⟨key, hkey⟩ := hs path hpath
    rw [WriteSettings.ciphers?_of_footerKey hpath hkey]
    refine ⟨⟨nofun, nofun⟩, fun ciphers hciphers => ⟨key, hkey, ?_⟩⟩
    cases hciphers
    exact ⟨rfl, rfl⟩

theorem footerKey?_eq_none_iff :
    s.footerKey? = none ↔ ∃ signingKey metadata, s.footer = .plaintext signingKey metadata := by
  unfold WriteSettings.footerKey?
  cases s.footer with
  | encrypted key metadata => exact ⟨nofun, nofun⟩
  | plaintext signingKey metadata => exact ⟨fun _ => ⟨signingKey, metadata, rfl⟩, fun _ => rfl⟩

/-- **A writer never gets stuck.** With settings that were accepted, every run of requests succeeds,
and after it so does every request. Its reply does not depend on what came before, but for the
ordinal with which a column was first asked for. The footer has no cipher exactly if it stays
readable, and otherwise an authenticating one of its key; a column has none exactly if it is left in
plaintext, and otherwise those that the suite gives its own key or, without one, the footer's. -/
theorem never_stuck {d : WriteDraft} {e e' : Entropy} {s : WriteSettings}
    (h : d.build e = (.ok s, e')) :
    (∀ before, Succeeds (serve before) (start s) fun _ w => ∀ request,
      Succeeds (perform request) w fun reply _ => reply = s.reply before request) ∧
    (s.footerKey? = none ↔ ∃ signingKey metadata, s.footer = .plaintext signingKey metadata) ∧
    ∀ path, (s.ciphers? path = none ↔ (s.column path).protection = .plaintext) ∧
      ∀ ciphers, s.ciphers? path = some ciphers → ∃ key,
        (s.column path).key?.or s.footerKey? = some key ∧ ciphers.metadata = ⟨.gcm, key⟩ ∧
          ciphers.data = ⟨s.algorithm.suite.dataMode, key⟩ := by
  have hs := WriteDraft.keyed_of_build h
  refine ⟨fun before => ?_, footerKey?_eq_none_iff, ciphers_of_keyed hs⟩
  refine (succeeds_serve hs before (recalls_start s)).mono fun _ w hw request => ?_
  exact (succeeds_perform hw hs request).mono fun reply w' hreply => hreply.1

namespace Sample

/-- A key of fives. -/
def key : AesKey := ⟨List.replicate 16 5, by decide⟩

/-- A key of sixes. -/
def ownKey : AesKey := ⟨List.replicate 24 6, by decide⟩

/-- A draft with a key for the footer and one for the column `b`, its pages in counter mode. -/
def draft : WriteDraft :=
  { suite := .aesGcmCtrV1
    footerKey := some key.bytes
    columns := .ofList [(⟨["b"]⟩, ⟨⟨["b"]⟩, .ownKey ownKey none⟩)] }

/-- Random bytes that are all zero. -/
def zeros : Entropy := ⟨fun _ => 0, 0⟩

/-- What the draft amounts to. -/
def accepted : WriteSettings :=
  { algorithm := { suite := .aesGcmCtrV1, aadMetadata := none, aadFileUnique := zeros.next 8 }
    footer := .encrypted key none
    aadPrefix := none
    columns := draft.columns
    encryptTheRest := true }

/-- Requests in which the columns `a` and `b` are asked for first. -/
def asked : List WriterRequest :=
  [.column ⟨["a"]⟩ 3, .footer, .column ⟨["b"]⟩ 4, .column ⟨["a"]⟩ 5]

end Sample

open FileWriter.Sample in
/-- A column is asked for with a third ordinal, and stays what it was; its ciphers are those of the
footer's key, which are at hand already. -/
theorem never_stuck_mixed :
    ∃ e, draft.build zeros = (.ok accepted, e) ∧
      Succeeds (serve asked) (start accepted) fun _ w =>
        Succeeds (perform (.column ⟨["a"]⟩ 9)) w fun reply _ =>
          reply = .column ⟨⟨["a"]⟩, 3, true, none, some (.ofKey .aesGcmCtrV1 key)⟩ := by
  have hbuild : draft.build zeros = (.ok accepted, zeros.skip 8) := rfl
  refine ⟨_, hbuild, ?_⟩
  obtain ⟨hrun, -, -⟩ := never_stuck hbuild
  exact (hrun asked).mono fun _ w hw => hw (.column ⟨["a"]⟩ 9)

end FileWriter

end ModularEncryption
