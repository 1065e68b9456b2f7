import Mathlib.Data.List.Infix
import ModularEncryption.Error.Report
import ModularEncryption.Proofs.Redaction.Sessions

/-! # What texts tell of keys

In a session keys are made and drawn, settings of columns, writers and readers are drafted and
built, and key services and managers work with keys (`Session.Call`). All that is shown on the way
is taken down (`Session.allTexts`): services and managers before and after each call, what a call
makes, the errors of those that make nothing, and drafts before and after each choice.

The drafts of columns and writers tell the bytes of the keys that they hold themselves
(`allTexts_apart`). Of all other keys the texts tell the lengths and no more: without the drafts
that hold a key of their own (`Session.texts`), two sequences of calls that differ in the bytes of
keys only, and in what was wrapped or retrieved with them, give the same texts in sessions with the
same random bytes (`texts_eq_of_blank_eq`). -/

namespace ModularEncryption

/-! ### Texts -/

/-- The texts of a listing: on one line, and with one item a line. -/
def Text.Listing.texts (l : Text.Listing) : List String := [l.line, l.page]

/-- The texts of an error: on one line, with its chain of sources, and with one part a line. -/
def Error.texts (e : Error) : List String := [e.display, e.report, e.listing.page]

/-- The texts of what ends a step early; a table that is too large and a name that leads nowhere are
not reported in this library. -/
def Stop.texts : Stop → List String
  | .failed (.error e) => e.texts
  | .failed .clockOverflow => [Failure.clockMessage]
  | .tableOverflow => []
  | .unknownName _ => []

/-- The listing of a draft, unless it holds a key. -/
def ColumnDraft.shown? (d : ColumnDraft) : Option Text.Listing :=
  if d.key.isNone then some d.listing else none

/-- The listing of a draft, unless it holds a key of the footer; columns show none of theirs. -/
def WriteDraft.shown? (d : WriteDraft) : Option Text.Listing :=
  if d.footerKey.isNone ∧ d.footerSigningKey.isNone then some d.listing else none

theorem ColumnDraft.shown?_blank (d : ColumnDraft) : d.blank.shown? = d.shown? := by
  obtain ⟨path, encrypted, key, metadata, conflicts⟩ := d
  cases key <;> rfl

theorem WriteDraft.shown?_blank (d : WriteDraft) : d.blank.shown? = d.shown? := by
  cases hkey : d.footerKey with
  | some _ => simp [shown?, blank, hkey]
  | none =>
    cases hsigning : d.footerSigningKey with
    | some _ => simp [shown?, blank, hsigning]
    | none =>
      simp [shown?, blank, hkey, hsigning, listing, WriteSettings.columnsListing_blank]

namespace Session

/-! ### Calls -/

/-- What is done in a session with keys and what holds them. -/
inductive Call where
  | newKey (bytes : Bytes)
  | drawKey (length : Nat)
  | newCipher (mode : Mode) (bytes : Bytes)
  | buildColumn (path : ColumnPath) (choices : List ColumnChoice)
  | buildWriteSettings (choices : List WriteChoice)
  | newColumnKey (path : ColumnPath) (bytes : Bytes)
  | buildReadSettings (choices : List ReadChoice)
  | newService (name : String) (master : Option (String × Bytes)) (serverSide : Bool)
  | addMasterKey (name id : String) (bytes : Bytes)
  | wrapKey (name : String) (bytes : Bytes) (id : String)
  | unwrapKey (name : String) (wrapped : Bytes) (id : String)
  | serviceOutage (name : String) (outage : Option Error)
  | newStore (name : String)
  | storePut (name material fileId keyName : String)
  | storeOutage (name : String) (outage : Option Error)
  | newManager (name service : String) (store fileId : Option String) (settings : Settings)
  | generateKey (name masterKeyId : String)
  | retrieveKey (name : String) (metadata : Bytes)
  | evictExpired (name : String)
  | clearCache (name : String)
  | pass (d : Duration)

namespace Call

/-- The call with keys of zeros, and without what comes from keys: wrapped keys, metadata and
material. -/
def blank : Call → Call
  | .newKey bytes => .newKey (Bytes.blank bytes)
  | .newCipher mode bytes => .newCipher mode (Bytes.blank bytes)
  | .buildColumn path choices => .buildColumn path (choices.map ColumnChoice.blank)
  | .buildWriteSettings choices => .buildWriteSettings (choices.map WriteChoice.blank)
  | .newColumnKey path bytes => .newColumnKey path (Bytes.blank bytes)
  | .buildReadSettings choices => .buildReadSettings (choices.map ReadChoice.blank)
  | .newService name master serverSide =>
    .newService name (master.map (Prod.map id Bytes.blank)) serverSide
  | .addMasterKey name id bytes => .addMasterKey name id (Bytes.blank bytes)
  | .wrapKey name bytes id => .wrapKey name (Bytes.blank bytes) id
  | .unwrapKey name _ id => .unwrapKey name [] id
  | .storePut name _ fileId keyName => .storePut name "" fileId keyName
  | .retrieveKey name _ => .retrieveKey name []
  | call => call

/-- The listings of drafts, before and after each choice. -/
def drafts : Call → List Text.Listing
  | .buildColumn path choices =>
    choices.inits.map fun front => (ColumnDraft.ofChoices path front).listing
  | .buildWriteSettings choices =>
    choices.inits.map fun front => (({} : WriteDraft).chooseAll front).listing
  | _ => []

/-- The listings of drafts that hold no key of their own, before and after each choice. -/
def keylessDrafts : Call → List Text.Listing
  | .buildColumn path choices =>
    choices.inits.filterMap fun front => (ColumnDraft.ofChoices path front).shown?
  | .buildWriteSettings choices =>
    choices.inits.filterMap fun front => (({} : WriteDraft).chooseAll front).shown?
  | _ => []

/-- A call is made, and what it makes is listed. -/
def act : Call → Acting (List Text.Listing)
  | .newKey bytes => do return [(← ofError (AesKey.ofBytes bytes)).listing]
  | .drawKey length => do return [(← drawing (AesKey.generate length)).listing]
  | .newCipher mode bytes => do return [(← ofError (FrameCipher.ofBytes mode bytes)).listing]
  | .buildColumn path choices => do
    return [(← ofError (ColumnDraft.ofChoices path choices).build).listing]
  | .buildWriteSettings choices => do
    return [(← drawing (({} : WriteDraft).chooseAll choices).build).listing]
  | .newColumnKey path bytes => do
    let _ ← ofError (ColumnKey.ofBytes path bytes)
    return []
  | .buildReadSettings choices => do
    return [(← ofError (ReadDraft.ofChoices choices).build).listing]
  | .newService name master serverSide => do
    Session.newService name master serverSide
    return []
  | .addMasterKey name id bytes => do
    Session.addMasterKey name id bytes
    return []
  | .wrapKey name bytes id => do
    let _ ← Session.wrapKey name bytes id
    return []
  | .unwrapKey name wrapped id => do
    quiet (Session.unwrapKey name wrapped id)
    return []
  | .serviceOutage name outage => do
    change .services name fun s => { s with outage }
    return []
  | .newStore name => do
    make .stores name {}
    return []
  | .storePut name material fileId keyName => do
    quiet (Session.storePut name material fileId keyName)
    return []
  | .storeOutage name outage => do
    change .stores name fun s => { s with outage }
    return []
  | .newManager name service store fileId settings => do
    Session.newManager name service store fileId settings
    return []
  | .generateKey name masterKeyId => do
    return [(← Session.generateKey name masterKeyId).key.listing]
  | .retrieveKey name metadata => do
    let _ ← retrieveFrom name metadata
    return []
  | .evictExpired name => do
    changeCache name fun now cache => cache.evictExpired now
    return []
  | .clearCache name => do
    changeCache name fun _ cache => cache.clear
    return []
  | .pass d => do
    Session.pass d
    return []

theorem keylessDrafts_blank (call : Call) : call.blank.keylessDrafts = call.keylessDrafts := by
  cases call with
  | buildColumn path choices =>
    simp only [blank, keylessDrafts, List.map_inits, List.filterMap_map]
    refine List.filterMap_congr fun front _ => ?_
    rw [Function.comp, ColumnDraft.ofChoices_blank, ColumnDraft.shown?_blank]
  | buildWriteSettings choices =>
    simp only [blank, keylessDrafts, List.map_inits, List.filterMap_map]
    refine List.filterMap_congr fun front _ => ?_
    rw [Function.comp, WriteDraft.chooseAll_start_blank, WriteDraft.shown?_blank]
  | _ => rfl

theorem agrees_listed {α β : Type} {R : α → β → Prop} {x : Acting α} {y : Acting β}
    {f : α → List Text.Listing} {g : β → List Text.Listing} (h : Agrees R x y)
    (hlisted : ∀ a b, R a b → f a = g b) :
    Agrees Eq (do return f (← x)) (do return g (← y)) :=
  h.bind fun a b hab => agrees_pure (hlisted a b hab)

/-- **A call shows the same with keys of zeros**, and what it leaves behind differs in keys only. -/
theorem agrees_act (call : Call) : Agrees Eq call.act call.blank.act := by
  cases call with
  | newKey bytes =>
    simp only [blank, act, AesKey.ofBytes_blank]
    exact agrees_listed (agrees_ofError_map _ _) (by rintro a _ rfl; simp)
  | drawKey length =>
    exact agrees_listed (agrees_drawing (fun _ => rfl) fun e => agrees_ofError _)
      fun a b h => by rw [h]
  | newCipher mode bytes =>
    have hlisting : FrameCipher.listing <$> FrameCipher.ofBytes mode (Bytes.blank bytes) =
        FrameCipher.listing <$> FrameCipher.ofBytes mode bytes := by
      rw [FrameCipher.ofBytes, FrameCipher.ofBytes, AesKey.ofBytes_blank]
      cases AesKey.ofBytes bytes <;> rfl
    exact agrees_listed (agrees_ofError_of_map_eq hlisting) fun a b h => by rw [h]
  | buildColumn path choices =>
    simp only [blank, act, ColumnDraft.ofChoices_blank, ColumnDraft.build_blank]
    exact agrees_listed (agrees_ofError_map _ _) (by rintro a _ rfl; simp)
  | buildWriteSettings choices =>
    simp only [blank, act, WriteDraft.chooseAll_start_blank]
    have hbuild : ∀ d : WriteDraft, Agrees (fun a b : WriteSettings => b = a.blank)
        (drawing d.build) (drawing d.blank.build) := fun d =>
      agrees_drawing (fun e => by rw [WriteDraft.build_blank]) fun e => by
        rw [WriteDraft.build_blank]
        exact agrees_ofError_map _ _
    exact agrees_listed (hbuild _) (by rintro a _ rfl; simp)
  | newColumnKey path bytes =>
    have hfate : fate (ColumnKey.ofBytes path (Bytes.blank bytes)) =
        fate (ColumnKey.ofBytes path bytes) := by
      rw [ColumnKey.ofBytes, ColumnKey.ofBytes, AesKey.ofBytes_blank]
      cases AesKey.ofBytes bytes <;> rfl
    exact agrees_listed (agrees_ofError_of_map_eq hfate) fun _ _ _ => rfl
  | buildReadSettings choices =>
    simp only [blank, act, ReadDraft.ofChoices_blank, ReadDraft.build_blank]
    exact agrees_listed (agrees_ofError_map _ _) (by rintro a _ rfl; simp)
  | newService name master serverSide =>
    exact agrees_listed (agrees_newService name master serverSide) fun _ _ _ => rfl
  | addMasterKey name id bytes =>
    exact agrees_listed (agrees_addMasterKey name id bytes) fun _ _ _ => rfl
  | wrapKey name bytes id =>
    exact agrees_listed (agrees_wrapKey name id bytes) fun _ _ _ => rfl
  | unwrapKey name wrapped id =>
    exact agrees_listed (agrees_unwrapKey name id wrapped []) fun _ _ _ => rfl
  | serviceOutage name outage =>
    refine agrees_listed (known_services.agrees_change name fun a b hab => ?_) fun _ _ _ => rfl
    obtain ⟨hmaster, hserverSide, -⟩ := KeyService.blank_eq_iff.mp hab
    exact KeyService.blank_eq_iff.mpr ⟨hmaster, hserverSide, rfl⟩
  | newStore name =>
    exact agrees_listed (known_stores.agrees_make name rfl) fun _ _ _ => rfl
  | storePut name material fileId keyName =>
    exact agrees_listed (agrees_storePut name material "" fileId keyName) fun _ _ _ => rfl
  | storeOutage name outage =>
    exact agrees_listed (known_stores.agrees_change name fun a b hab => rfl) fun _ _ _ => rfl
  | newManager name service store fileId settings =>
    exact agrees_listed (agrees_newManager name service store fileId settings) fun _ _ _ => rfl
  | generateKey name masterKeyId =>
    exact agrees_listed (agrees_generateKey name masterKeyId) fun a b h => by rw [h]
  | retrieveKey name metadata =>
    exact agrees_listed (agrees_retrieveFrom name metadata []) fun _ _ _ => rfl
  | evictExpired name =>
    exact agrees_listed (agrees_changeCache name _ _) fun _ _ _ => rfl
  | clearCache name =>
    exact agrees_listed (agrees_changeCache name _ _) fun _ _ _ => rfl
  | pass d =>
    refine agrees_listed (agrees_modify fun s t h => ?_) fun _ _ _ => rfl
    obtain ⟨hentropy, hnow, hrest⟩ := blank_eq_iff.mp h
    exact blank_eq_iff.mpr ⟨hentropy, by rw [hnow], hrest⟩

end Call

/-! ### Texts of a session -/

/-- The texts of the services and managers of a session. -/
def standing (s : Session) : List String :=
  (s.services.objects.map (·.masterKeys.listing) ++
    s.managers.objects.map (·.manager.listing)).flatMap Text.Listing.texts

/-- The texts of what a call makes, or of why it makes nothing. -/
def told : Except Stop (List Text.Listing) → List String
  | .ok listings => listings.flatMap Text.Listing.texts
  | .error e => e.texts

/-- The texts of a sequence of calls: of what there is before, between and after them, of drafts,
and of what each call comes to. -/
def textsWith (drafts : Call → List Text.Listing) : List Call → Session → List String
  | [], s => s.standing
  | call :: calls, s =>
    s.standing ++ (drafts call).flatMap Text.Listing.texts ++ told (call.act s).1 ++
      textsWith drafts calls (call.act s).2

/-- All texts of a sequence of calls. -/
def allTexts : List Call → Session → List String := textsWith Call.drafts

/-- The texts of a sequence of calls but those of drafts that hold a key of their own. -/
def texts : List Call → Session → List String := textsWith Call.keylessDrafts

theorem standing_eq {s t : Session} (h : t.blank = s.blank) : t.standing = s.standing := by
  obtain ⟨-, -, hservices, -, hmanagers, -⟩ := blank_eq_iff.mp h
  have hshown : ∀ s : Session, s.standing =
      ((s.services.map KeyService.blank).objects.map (·.masterKeys.listing) ++
        (s.managers.map ManagerEntry.blank).objects.map (·.manager.listing)).flatMap
          Text.Listing.texts := by
    intro s
    simp [standing, Shelf.map, KeyService.blank, ManagerEntry.blank, Function.comp_def]
  rw [hshown, hshown, hservices, hmanagers]

/-- With keys of zeros there are the same texts, if the drafts show the same. -/
theorem textsWith_blank {drafts : Call → List Text.Listing}
    (hdrafts : ∀ call, drafts call.blank = drafts call) (calls : List Call) :
    ∀ {s t : Session}, t.blank = s.blank →
      textsWith drafts (calls.map Call.blank) t = textsWith drafts calls s := by
  induction calls with
  | nil => exact fun h => standing_eq h
  | cons call calls ih =>
    intro s t h
    have hact := call.agrees_act h
    simp only [List.map_cons, textsWith]
    rw [standing_eq h, hdrafts]
    generalize call.act s = r at hact
    generalize call.blank.act t = r' at hact
    cases hact with
    | ok hlistings hblank => rw [ih hblank, hlistings]
    | error hblank => rw [ih hblank]

theorem texts_blank (calls : List Call) {s t : Session} (h : t.blank = s.blank) :
    texts (calls.map Call.blank) t = texts calls s :=
  textsWith_blank Call.keylessDrafts_blank calls h

/-- **Texts tell nothing of the bytes of keys**, but those of drafts that hold a key of their own.
Sequences of calls that differ in the bytes of keys, and in what comes from keys, give the same
texts, in sessions that have the same random bytes and do not differ otherwise but in keys
themselves. -/
theorem texts_eq_of_blank_eq {calls calls' : List Call}
    (hcalls : calls'.map Call.blank = calls.map Call.blank) {s s' : Session}
    (hs : s'.blank = s.blank) : texts calls' s' = texts calls s := by
  calc texts calls' s' = texts (calls'.map Call.blank) s' := (texts_blank calls' rfl).symm
    _ = texts (calls.map Call.blank) s' := by rw [hcalls]
    _ = texts calls s := texts_blank calls hs

namespace Sample

/-- Calls with keys all of whose bytes are the same. One key is too short, and one text to unwrap is
no wrapped key at all. -/
def calls (b : UInt8) : List Call :=
  [.newKey (List.replicate 16 b), .newKey (List.replicate 17 b),
    .newCipher .ctr (List.replicate 24 b),
    .newService "kms" (some ("m", List.replicate 32 b)) true,
    .newManager "a" "kms" none (some "f") .default, .generateKey "a" "m",
    .unwrapKey "kms" [b] "m", .addMasterKey "kms" "n" [b],
    .buildColumn ⟨["a"]⟩ [.keyId "k", .key (List.replicate 16 b), .encrypted true],
    .buildWriteSettings [.aadPrefix [1], .footerKey (List.replicate 32 b),
      .footerSigningKey (List.replicate 16 b)],
    .buildReadSettings [.footerKey (List.replicate 16 b), .columnKey ⟨["a"]⟩ [b]]]

/-- A session with a service whose master key has these bytes. -/
def session (b : UInt8) : Session :=
  let master : AesKey := ⟨List.replicate 16 b, show 16 ∈ [16, 24, 32] from List.mem_cons_self⟩
  { start (fun _ => 7) 1000 with
    services := Shelf.put {} "old" { masterKeys := Table.insert .empty "m" master } }

end Sample

/-- Two keys in the same places make no difference. -/
theorem texts_eq_of_blank_eq_sample :
    (Sample.calls 2).map Call.blank = (Sample.calls 1).map Call.blank ∧
      (Sample.session 2).blank = (Sample.session 1).blank ∧
      texts (Sample.calls 2) (Sample.session 2) = texts (Sample.calls 1) (Sample.session 1) :=
  have hcalls : (Sample.calls 2).map Call.blank = (Sample.calls 1).map Call.blank := rfl
  have hsession : (Sample.session 2).blank = (Sample.session 1).blank := rfl
  ⟨hcalls, hsession, texts_eq_of_blank_eq hcalls hsession⟩

namespace Sample

/-- A column is drafted with a key of its own. -/
def columnKey (b : UInt8) : List Call := [.buildColumn ⟨["a"]⟩ [.key (List.replicate 16 b)]]

/-- Settings of a writer are drafted with a key that encrypts the footer. -/
def footerKey (b : UInt8) : List Call := [.buildWriteSettings [.footerKey (List.replicate 16 b)]]

/-- Settings of a writer are drafted with a key that signs the footer. -/
def signingKey (b : UInt8) : List Call :=
  [.buildWriteSettings [.footerSigningKey (List.replicate 16 b)]]

/-- A session at its beginning. -/
def fresh : Session := start (fun n => UInt8.ofNat (7 * n + n / 256)) 1000

end Sample

/-- **Drafts tell the bytes of the keys that they hold.** Of one session, with the same random
bytes, two keys of the same length give different texts: of the draft of a column, and of the draft
of a writer for both of its keys. -/
theorem allTexts_apart :
    ((Sample.columnKey 2).map Call.blank = (Sample.columnKey 1).map Call.blank ∧
      allTexts (Sample.columnKey 2) Sample.fresh ≠ allTexts (Sample.columnKey 1) Sample.fresh) ∧
    ((Sample.footerKey 2).map Call.blank = (Sample.footerKey 1).map Call.blank ∧
      allTexts (Sample.footerKey 2) Sample.fresh ≠ allTexts (Sample.footerKey 1) Sample.fresh) ∧
    (Sample.signingKey 2).map Call.blank = (Sample.signingKey 1).map Call.blank ∧
      allTexts (Sample.signingKey 2) Sample.fresh ≠ allTexts (Sample.signingKey 1) Sample.fresh :=
  ⟨⟨rfl, by decide +kernel⟩, ⟨rfl, by decide +kernel⟩, rfl, by decide +kernel⟩

end Session

end ModularEncryption
