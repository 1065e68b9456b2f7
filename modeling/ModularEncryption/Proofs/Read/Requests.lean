import Mathlib.Logic.Relation
import ModularEncryption.Read.File

/-! # What a reader can come to

A reader is asked one thing after another (`ReaderRequest`), in any order, and retrievers may answer
differently each time they are asked (`Asking.MayYield`); between requests the lookup of prefixes
may change, too (`FileReader.Moves`). What a request can do to a reader is said once, by
`FileReader.Advances`: it may keep ciphers, record the file, register one column, close the columns
or keep a signing key, and each of these only under its own condition (`advances_of_perform`).

The ciphers that a reader keeps are those of the footer's key (`FileReader.Kept`), so what a new
column is granted depends on the facts about the file and on the column alone
(`FileReader.grantFor`, `registerColumn_of_admits`). -/

namespace ModularEncryption

variable {α β : Type}

namespace Asking

/-- The step may end with a result, by some answer. -/
def MayYield : Asking α → α → Prop
  | .done a, b => a = b
  | .ask _ _ resume, b => ∃ answer, resume answer = b

theorem mayYield_map {f : α → β} {a : Asking α} {b : β} :
    (a.map f).MayYield b ↔ ∃ x, a.MayYield x ∧ f x = b := by
  cases a with
  | done x => simp [map, MayYield]
  | ask retriever metadata resume =>
    constructor
    · rintro ⟨answer, h⟩
      exact ⟨_, ⟨answer, rfl⟩, h⟩
    · rintro ⟨_, ⟨answer, rfl⟩, h⟩
      exact ⟨answer, h⟩

theorem mayYield_run (answer : RetrieverRef → Bytes → KeyAnswer) (a : Asking α) :
    a.MayYield (a.run answer) := by
  cases a with
  | done x => rfl
  | ask retriever metadata resume => exact ⟨_, rfl⟩

end Asking

/-! ### Requests -/

/-- What a file says about its encryption. -/
structure FileHeading where
  algorithm : AlgorithmRecord
  encryptedFooter : Bool
  footerKeyMetadata : Option Bytes
deriving DecidableEq

/-- What may be asked of a reader. -/
inductive ReaderRequest where
  | setFile (heading : FileHeading)
  | registerColumn (c : ColumnFacts)
  | closeColumns
  | footer
  | column (path : ColumnPath)
  | footerSigningKey (metadata : Option Bytes)
  | verifyFooter (footer : Bytes) (signature metadata : Option Bytes)

/-- What a reader replies when it succeeds. -/
inductive ReaderReply where
  | done
  | footer (cipher : Option FrameCipher)
  | column (c : ReaderColumn)
  | signingKey (key : Option AesKey)
deriving DecidableEq

namespace FileReader

/-- The outcome of a step with its result as a reply. -/
def reply (f : α → ReaderReply) (x : Except Failure α × FileReader) :
    Except Failure ReaderReply × FileReader :=
  (x.1.map f, x.2)

/-- Lets a reader do what it is asked. -/
def perform (r : FileReader) : ReaderRequest → Asking (Except Failure ReaderReply × FileReader)
  | .setFile h =>
    (r.setFile h.algorithm h.encryptedFooter h.footerKeyMetadata).map (reply fun _ => .done)
  | .registerColumn c => (r.registerColumn c).map (reply .column)
  | .closeColumns => .done (.ok .done, r.closeColumns)
  | .footer => .done (reply .footer (r.footer.1.mapError .error, r.footer.2))
  | .column path => .done (reply .column ((r.column path).mapError .error, r))
  | .footerSigningKey metadata => (r.footerSigningKey metadata).map (reply .signingKey)
  | .verifyFooter footer signature metadata =>
    (r.verifyFooter footer signature metadata).map (reply fun _ => .done)

/-- The reader, for which prefixes are looked up in another way from now on. -/
def lookingUp (r : FileReader) (lookup : PrefixLookup) : FileReader :=
  { r with
    settings := { r.settings with prefixLookup := r.settings.prefixLookup.map fun _ => lookup } }

/-- One step of a run: the reader does what it is asked, or prefixes are looked up differently from
then on. -/
inductive Moves : FileReader → FileReader → Prop where
  | perform {r r' : FileReader} {request : ReaderRequest}
      {reply : Except Failure ReaderReply} (h : (r.perform request).MayYield (reply, r')) :
      Moves r r'
  | lookingUp (r : FileReader) (lookup : PrefixLookup) : Moves r (r.lookingUp lookup)

/-- A reader can become another one in a run of any length. -/
abbrev Leads : FileReader → FileReader → Prop := Relation.ReflTransGen Moves

/-- The reader after one request after the other, if retrievers answer by a function. -/
def serve (answer : RetrieverRef → Bytes → KeyAnswer) (r : FileReader)
    (requests : List ReaderRequest) : FileReader :=
  requests.foldl (fun r request => ((r.perform request).run answer).2) r

section Serve

variable (answer : RetrieverRef → Bytes → KeyAnswer) (r : FileReader)

@[simp] theorem serve_nil : serve answer r [] = r := rfl

@[simp] theorem serve_cons (request : ReaderRequest) (requests : List ReaderRequest) :
    serve answer r (request :: requests) =
      serve answer ((r.perform request).run answer).2 requests := rfl

@[simp] theorem serve_append (requests more : List ReaderRequest) :
    serve answer r (requests ++ more) = serve answer (serve answer r requests) more :=
  List.foldl_append

theorem leads_serve (requests : List ReaderRequest) : Leads r (serve answer r requests) := by
  induction requests generalizing r with
  | nil => exact .refl
  | cons request requests ih =>
    have hfirst : Moves r ((r.perform request).run answer).2 :=
      .perform (Asking.mayYield_run answer (r.perform request))
    exact .head hfirst (ih _)

end Serve

variable {r r' : FileReader} {facts : FileFacts}

theorem facts_eq_ok_iff : r.facts = .ok facts ↔ r.file = some facts := by
  unfold FileReader.facts
  cases r.file <;> simp

theorem facts_of_file_eq_none (h : r.file = none) :
    r.facts = .error { cause := .noFileMetadata } := by
  unfold FileReader.facts
  rw [h]

/-! ### Ciphers that are kept -/

/-- The ciphers that a reader keeps are those that it would make. -/
structure Kept (r : FileReader) : Prop where
  footerCipher : ∀ c, r.footerCipher = some c → ∃ key, r.footerKey = .ok key ∧ c = ⟨.gcm, key⟩
  footerColumnCiphers : ∀ c, r.footerColumnCiphers = some c → ∃ facts key,
    r.facts = .ok facts ∧ r.footerKey = .ok key ∧ c = .ofKey facts.algorithm.suite key

/-- Only the ciphers that are kept are others, and they are those that would be made. -/
structure Refills (r' r : FileReader) : Prop where
  settings_eq : r'.settings = r.settings
  file_eq : r'.file = r.file
  signingKey_eq : r'.signingKey = r.signingKey
  columns_eq : r'.columns = r.columns
  columnsClosed_eq : r'.columnsClosed = r.columnsClosed
  kept : r'.Kept

theorem Kept.refills (h : r.Kept) : r.Refills r := ⟨rfl, rfl, rfl, rfl, rfl, h⟩

theorem facts_congr (h : r'.file = r.file) : r'.facts = r.facts := by
  unfold FileReader.facts
  rw [h]

theorem footerKey_congr (h : r'.file = r.file) : r'.footerKey = r.footerKey := by
  unfold footerKey
  rw [facts_congr h]

/-- What a reader keeps only depends on the facts about the file. -/
theorem Kept.congr (h : r.Kept) (hfile : r'.file = r.file)
    (hfooter : r'.footerCipher = r.footerCipher)
    (hcolumns : r'.footerColumnCiphers = r.footerColumnCiphers) : r'.Kept where
  footerCipher c hc := by
    rw [hfooter] at hc
    rw [footerKey_congr hfile]
    exact h.footerCipher c hc
  footerColumnCiphers c hc := by
    rw [hcolumns] at hc
    rw [footerKey_congr hfile, facts_congr hfile]
    exact h.footerColumnCiphers c hc

/-- Before the file is recorded nothing is kept. -/
theorem Kept.of_file_eq_none (h : r.Kept) (hnone : r.file = none) :
    r.footerCipher = none ∧ r.footerColumnCiphers = none := by
  have hfacts := facts_of_file_eq_none hnone
  constructor
  · cases hkept : r.footerCipher with
    | none => rfl
    | some c =>
      obtain ⟨key, hkey, -⟩ := h.footerCipher c hkept
      simp only [footerKey, hfacts] at hkey
      cases hkey
  · cases hkept : r.footerColumnCiphers with
    | none => rfl
    | some c =>
      obtain ⟨facts, key, hok, -⟩ := h.footerColumnCiphers c hkept
      rw [hfacts] at hok
      cases hok

/-- **The cipher of the footer's key is made once**, and it is the same ever after. -/
theorem keptFooterCipher_of_kept (h : r.Kept) :
    ∃ r', r.keptFooterCipher = (r.footerKey.map (⟨.gcm, ·⟩), r') ∧ r'.Refills r := by
  unfold keptFooterCipher
  cases hkept : r.footerCipher with
  | some c =>
    obtain ⟨key, hkey, rfl⟩ := h.footerCipher c hkept
    rw [hkey]
    exact ⟨r, rfl, h.refills⟩
  | none =>
    cases hkey : r.footerKey with
    | error e => exact ⟨r, rfl, h.refills⟩
    | ok key =>
      refine ⟨_, rfl, rfl, rfl, rfl, rfl, rfl, fun c hc => ?_, h.footerColumnCiphers⟩
      cases hc
      exact ⟨key, hkey, rfl⟩

/-- **The ciphers of columns with the footer's key are made once**, and they are the same ever
after. -/
theorem keptColumnCiphers_of_kept (h : r.Kept) {key : AesKey} (hfacts : r.facts = .ok facts)
    (hkey : r.footerKey = .ok key) :
    ∃ r', r.keptColumnCiphers facts key = (.ok (.ofKey facts.algorithm.suite key), r') ∧
      r'.Refills r := by
  unfold keptColumnCiphers
  cases hkept : r.footerColumnCiphers with
  | some c =>
    obtain ⟨facts', key', hfacts', hkey', rfl⟩ := h.footerColumnCiphers c hkept
    obtain rfl := Except.ok.inj (hfacts'.symm.trans hfacts)
    obtain rfl := Except.ok.inj (hkey'.symm.trans hkey)
    exact ⟨r, rfl, h.refills⟩
  | none =>
    obtain ⟨r₁, hr₁, hrefills⟩ := keptFooterCipher_of_kept h
    rw [hkey] at hr₁
    rw [hr₁]
    refine ⟨{ r₁ with footerColumnCiphers := some (.ofKey facts.algorithm.suite key) }, ?_,
      hrefills.settings_eq, hrefills.file_eq, hrefills.signingKey_eq, hrefills.columns_eq,
      hrefills.columnsClosed_eq, hrefills.kept.footerCipher, fun c hc => ?_⟩
    · simp only [Except.map]
      cases facts.algorithm.suite <;> rfl
    · cases hc
      have hfile : r₁.file = r.file := hrefills.file_eq
      exact ⟨facts, key, (facts_congr hfile).trans hfacts, (footerKey_congr hfile).trans hkey, rfl⟩

theorem footer_refills (h : r.Kept) : r.footer.2.Refills r := by
  unfold footer
  cases r.facts with
  | error e => exact h.refills
  | ok facts =>
    simp only
    split
    · exact h.refills
    · obtain ⟨r', hr', hrefills⟩ := keptFooterCipher_of_kept h
      rw [hr']
      exact hrefills

/-! ### New columns -/

/-- What a column is granted: by the facts about the file, and by what the sources know of its own
key if it has one. -/
def grantFor (s : ReadSettings) (facts : FileFacts) (c : ColumnFacts) :
    Asking (Except Failure ColumnAccess) :=
  if !c.encrypted then .done (.ok .plaintext)
  else if c.withFooterKey then
    match facts.footerKey with
    | some key => .done (.ok (.footerKey (.ofKey facts.algorithm.suite key)))
    | none =>
      .done (.error (.error { cause := .noFooterKey, context := [("column", c.path.toDotted)] }))
  else (resolveColumnKey s c).map (accessOfKey facts.algorithm.suite c.path)

/-- The reader with a column added, if the column was granted anything. -/
def addGranted (r : FileReader) (c : ColumnFacts) :
    Except Failure ColumnAccess → Except Failure ReaderColumn × FileReader
  | .error f => (.error f, r)
  | .ok access => r.addColumn c access

/-- A file with some facts is recorded, and a path may still be registered. -/
structure Admits (r : FileReader) (facts : FileFacts) (path : ColumnPath) : Prop where
  file_eq : r.file = some facts
  new : r.columns.get? path = none
  isOpen : r.columnsClosed = false

/-- **A new column gets what it is granted**, whatever ciphers are kept already. -/
theorem registerColumn_of_admits (h : r.Kept) {c : ColumnFacts} (ha : r.Admits facts c.path) :
    ∃ r₁ : FileReader, r₁.Refills r ∧
      r.registerColumn c = (grantFor r.settings facts c).map (r₁.addGranted c) := by
  have hfacts : r.facts = .ok facts := facts_eq_ok_iff.mpr ha.file_eq
  unfold registerColumn grantFor
  simp only [hfacts, ha.new, ha.isOpen, Bool.false_eq_true, if_false]
  cases c.encrypted with
  | false => exact ⟨r, h.refills, rfl⟩
  | true =>
    -- a key of its own is asked for, and the footer's key may have ciphers already
    cases c.withFooterKey with
    | false =>
      refine ⟨r, h.refills, ?_⟩
      simp only [Bool.not_true, Bool.false_eq_true, if_false, addOwnKeyColumn]
      cases resolveColumnKey r.settings c <;> rfl
    | true =>
      simp only [Bool.not_true, Bool.false_eq_true, if_false, if_true, addFooterKeyColumn]
      cases hkey : facts.footerKey with
      | none =>
        have hnone : r.footerKey = .error { cause := .noFooterKey } := by
          simp only [footerKey, hfacts, hkey]
        rw [hnone]
        exact ⟨r, h.refills, rfl⟩
      | some key =>
        have hsome : r.footerKey = .ok key := by simp only [footerKey, hfacts, hkey]
        obtain ⟨r₁, hr₁, hrefills⟩ := keptColumnCiphers_of_kept h hfacts hsome
        rw [hsome]
        simp only [hr₁]
        exact ⟨r₁, hrefills, rfl⟩

/-- **A column that is not new changes nothing**, and if there is a reply it is what was
registered. -/
theorem registerColumn_of_not_admits {c : ColumnFacts} (h : ∀ facts, ¬ r.Admits facts c.path) :
    ∃ result, r.registerColumn c = .done (result, r) ∧
      ∀ column, result = .ok column → r.columns.get? c.path = some column := by
  unfold registerColumn
  cases hfacts : r.facts with
  | error e => exact ⟨_, rfl, fun _ hok => by cases hok⟩
  | ok facts =>
    cases hget : r.columns.get? c.path with
    | some column =>
      refine ⟨_, rfl, fun column' hok => ?_⟩
      unfold revisitColumn at hok
      split at hok
      · cases hok
      · split at hok
        · cases hok
        · split at hok
          · cases hok
          · cases hok; rfl
    | none =>
      cases hclosed : r.columnsClosed with
      | true => exact ⟨_, rfl, fun _ hok => by cases hok⟩
      | false => exact absurd ⟨facts_eq_ok_iff.mp hfacts, hget, hclosed⟩ (h facts)

/-! ### What a request can do -/

/-- The file is recorded, if it was not. -/
theorem setFile_cases {algorithm : AlgorithmRecord} {encryptedFooter : Bool}
    {metadata : Option Bytes} {result : Except Failure Unit}
    (h : (r.setFile algorithm encryptedFooter metadata).MayYield (result, r')) :
    r' = r ∨ ∃ facts, r.file = none ∧ r' = { r with file := some facts } := by
  unfold setFile at h
  cases hfile : r.file with
  | some facts =>
    simp only [hfile] at h
    split at h <;> (cases h; exact .inl rfl)
  | none =>
    simp only [hfile] at h
    obtain ⟨resolved, -, hresult⟩ := Asking.mayYield_map.mp h
    split at hresult
    · cases hresult; exact .inl rfl
    · split at hresult
      · cases hresult; exact .inl rfl
      · cases hresult; exact .inr ⟨_, rfl, rfl⟩

/-- A column is added, if it is new. -/
theorem registerColumn_cases (h : r.Kept) {c : ColumnFacts} {result : Except Failure ReaderColumn}
    (hr' : (r.registerColumn c).MayYield (result, r')) :
    r'.Refills r ∨ ∃ (facts : FileFacts) (access : ColumnAccess) (r₁ : FileReader),
      r.Admits facts c.path ∧ r₁.Refills r ∧
      r' = { r₁ with columns := r₁.columns.insert c.path ⟨c.path, c.ordinal, access⟩ } := by
  by_cases ha : ∃ facts, r.Admits facts c.path
  · obtain ⟨facts, ha⟩ := ha
    obtain ⟨r₁, hrefills, heq⟩ := registerColumn_of_admits h ha
    rw [heq] at hr'
    obtain ⟨granted, -, hresult⟩ := Asking.mayYield_map.mp hr'
    cases granted with
    | error f => cases hresult; exact .inl hrefills
    | ok access => cases hresult; exact .inr ⟨facts, access, r₁, ha, hrefills, rfl⟩
  · obtain ⟨_, heq, -⟩ := registerColumn_of_not_admits (not_exists.mp ha)
    rw [heq] at hr'
    cases hr'
    exact .inl h.refills

/-- A signing key is kept, if none is known. -/
theorem footerSigningKey_cases {metadata : Option Bytes}
    {result : Except Failure (Option AesKey)}
    (h : (r.footerSigningKey metadata).MayYield (result, r')) :
    r' = r ∨ ∃ key, r.signingKey = none ∧ r' = { r with signingKey := key } := by
  unfold footerSigningKey at h
  cases hkey : r.signingKey with
  | some key =>
    simp only [hkey] at h
    cases h
    exact .inl rfl
  | none =>
    simp only [hkey] at h
    obtain ⟨answer, -, hresult⟩ := Asking.mayYield_map.mp h
    split at hresult
    · cases hresult; exact .inl rfl
    · cases hresult; exact .inr ⟨_, rfl, rfl⟩

/-- A signing key is kept on the way to a verification, if none is known. -/
theorem verifyFooter_cases {footer : Bytes} {signature metadata : Option Bytes}
    {result : Except Failure Unit}
    (h : (r.verifyFooter footer signature metadata).MayYield (result, r')) :
    r' = r ∨ ∃ key, r.signingKey = none ∧ r' = { r with signingKey := key } := by
  unfold verifyFooter at h
  split at h
  · cases h; exact .inl rfl
  · split at h
    · cases h; exact .inl rfl
    · split at h
      · cases h; exact .inl rfl
      · split at h
        · cases h; exact .inl rfl
        · -- what was found is kept, whether the signature is right or not
          obtain ⟨⟨answer, r₁⟩, hasked, hresult⟩ := Asking.mayYield_map.mp h
          have hcases := footerSigningKey_cases hasked
          cases answer <;> (cases hresult; exact hcases)

theorem mayYield_reply {f : α → ReaderReply} {a : Asking (Except Failure α × FileReader)}
    {answered : Except Failure ReaderReply} (h : (a.map (reply f)).MayYield (answered, r')) :
    ∃ result, a.MayYield (result, r') := by
  obtain ⟨⟨result, r₁⟩, hresult, heq⟩ := Asking.mayYield_map.mp h
  cases heq
  exact ⟨result, hresult⟩

/-- **What a request can do to a reader**, and which one does it. -/
inductive Advances (r : FileReader) : ReaderRequest → FileReader → Prop where
  | refills (request : ReaderRequest) {r' : FileReader} (h : r'.Refills r) : Advances r request r'
  | records (heading : FileHeading) (hnone : r.file = none) (facts : FileFacts) :
      Advances r (.setFile heading) { r with file := some facts }
  | registers {r₁ : FileReader} {facts : FileFacts} {c : ColumnFacts} (h : r₁.Refills r)
      (ha : r.Admits facts c.path) (access : ColumnAccess) :
      Advances r (.registerColumn c)
        { r₁ with columns := r₁.columns.insert c.path ⟨c.path, c.ordinal, access⟩ }
  | closes : Advances r .closeColumns r.closeColumns
  | findsSigningKey (request : ReaderRequest) (hnone : r.signingKey = none)
      (key : Option AesKey) : Advances r request { r with signingKey := key }

/-- **Every request does one of the things that requests can do.** -/
theorem advances_of_perform (h : r.Kept) {request : ReaderRequest}
    {reply : Except Failure ReaderReply} (hr' : (r.perform request).MayYield (reply, r')) :
    r.Advances request r' := by
  cases request with
  | setFile heading =>
    obtain ⟨_, hresult⟩ := mayYield_reply hr'
    rcases setFile_cases hresult with rfl | ⟨facts, hnone, rfl⟩
    · exact .refills _ h.refills
    · exact .records heading hnone facts
  | registerColumn c =>
    obtain ⟨_, hresult⟩ := mayYield_reply hr'
    rcases registerColumn_cases h hresult with hrefills | ⟨facts, access, r₁, ha, hrefills, rfl⟩
    · exact .refills _ hrefills
    · exact .registers hrefills ha access
  | closeColumns => cases hr'; exact .closes
  | footer => cases hr'; exact .refills _ (footer_refills h)
  | column path => cases hr'; exact .refills _ h.refills
  | footerSigningKey metadata =>
    obtain ⟨_, hresult⟩ := mayYield_reply hr'
    rcases footerSigningKey_cases hresult with rfl | ⟨key, hnone, rfl⟩
    · exact .refills _ h.refills
    · exact .findsSigningKey _ hnone key
  | verifyFooter footer signature metadata =>
    obtain ⟨_, hresult⟩ := mayYield_reply hr'
    rcases verifyFooter_cases hresult with rfl | ⟨key, hnone, rfl⟩
    · exact .refills _ h.refills
    · exact .findsSigningKey _ hnone key

theorem Advances.settings_eq {request : ReaderRequest} (h : r.Advances request r') :
    r'.settings = r.settings := by
  cases h with
  | refills _ hr' => exact hr'.settings_eq
  | registers hr₁ _ _ => exact hr₁.settings_eq
  | _ => rfl

end FileReader

end ModularEncryption
