import ModularEncryption.Proofs.Keys.Verdict
import ModularEncryption.Proofs.Read.Requests
import ModularEncryption.Proofs.Read.Sources

/-! # Hidden columns and failures

When a reader asks for a key, its source finds one or knows of none; or the question fails, with an
error that says nothing about the key (`ReadSettings.FailsWith`) or at the end of the clock
(`ReadSettings.Overflows`). One of these is always the case (`source_cases`).

What a reader makes of it depends on what the key is for. A column whose own key nobody knows is
hidden, and a failure is passed on and changes nothing, so that the column may be registered later
(`OwnKeyOutcome`). A signing key that nobody knows is no failure either (`SigningKeyOutcome`). But
an encrypted footer is lost without its key, and every failure means that the key is missing
(`FooterOutcome`). With a manager as the source, the verdict on the column's metadata
decides (`ManagedOutcome`). -/

namespace ModularEncryption

variable {σ : Type}

theorem ErrorKind.meansUnknownKey_iff {kind : ErrorKind} :
    kind.meansUnknownKey = true ↔ kind = .missingKey ∨ kind = .notFound := by
  cases kind <;> simp [meansUnknownKey]

namespace ReadSettings

/-! ### Sources that fail -/

section Outcomes

variable (answer : Answering σ) (s : ReadSettings) (given : Option AesKey)
  (metadata : Option Bytes) (world : σ)

/-- In a state of the retrievers, a key is not given, and asking for it fails with an error of a
kind that does not mean that nobody knows it; the wrong length of a key is such an error. -/
inductive FailsWith : ErrorKind → Prop where
  | reported {retriever : RetrieverRef} {md : Bytes} {e : Error} (hgiven : given = none)
      (hretriever : s.retriever = some retriever) (hmetadata : metadata = some md)
      (hanswer : (answer retriever md world).1 = .error (.error e))
      (hkind : e.kind ≠ .missingKey ∧ e.kind ≠ .notFound) : FailsWith e.kind
  | wrongLength {retriever : RetrieverRef} {md bytes : Bytes} (hgiven : given = none)
      (hretriever : s.retriever = some retriever) (hmetadata : metadata = some md)
      (hanswer : (answer retriever md world).1 = .ok bytes)
      (hlength : bytes.length ∉ validKeyLengths) : FailsWith .configuration

/-- In a state of the retrievers, a key is not given, and asking for it runs the clock over. -/
inductive Overflows : Prop where
  | overflow {retriever : RetrieverRef} {md : Bytes} (hgiven : given = none)
      (hretriever : s.retriever = some retriever) (hmetadata : metadata = some md)
      (hanswer : (answer retriever md world).1 = .error .clockOverflow)

end Outcomes

variable {answer : Answering σ} {s : ReadSettings} {given : Option AesKey}
  {metadata : Option Bytes} {world : σ} {kind : ErrorKind}

/-- **A source finds a key, or knows of none, or fails.** -/
theorem source_cases (answer : Answering σ) (s : ReadSettings) (given : Option AesKey)
    (metadata : Option Bytes) (world : σ) :
    LacksKey answer s given metadata world ∨ (∃ key, FindsKey answer s given metadata world key) ∨
      (∃ kind, FailsWith answer s given metadata world kind) ∨
      Overflows answer s given metadata world := by
  cases hgiven : given with
  | some key => exact .inr (.inl ⟨key, .given rfl⟩)
  | none =>
    cases hretriever : s.retriever with
    | none => exact .inl (.noRetriever rfl hretriever)
    | some retriever =>
      cases hmetadata : metadata with
      | none => exact .inl (.noMetadata rfl rfl)
      | some md =>
        cases hanswer : (answer retriever md world).1 with
        | ok bytes =>
          by_cases hlength : bytes.length ∈ validKeyLengths
          · exact .inr (.inl ⟨⟨bytes, hlength⟩, .retrieved rfl hretriever rfl hanswer⟩)
          · exact .inr (.inr (.inl ⟨_, .wrongLength rfl hretriever rfl hanswer hlength⟩))
        | error f =>
          cases f with
          | clockOverflow => exact .inr (.inr (.inr (.overflow rfl hretriever rfl hanswer)))
          | error e =>
            by_cases hkind : e.kind = .missingKey ∨ e.kind = .notFound
            · exact .inl (.unknown rfl hretriever rfl hanswer hkind)
            · exact .inr (.inr (.inl
                ⟨_, .reported rfl hretriever rfl hanswer (not_or.mp hkind)⟩))

theorem retrieveKey_runWith {retriever : RetrieverRef} {md : Bytes}
    (hretriever : s.retriever = some retriever) :
    ((s.retrieveKey (some md)).runWith answer world).1 =
      Except.map some (keyOfAnswer md (answer retriever md world).1) := by
  unfold retrieveKey
  rw [hretriever]
  rfl

theorem keyOfAnswer_of_wrongLength (md : Bytes) {bytes : Bytes}
    (h : bytes.length ∉ validKeyLengths) :
    ∃ e, keyOfAnswer md (.ok bytes) = .error (.error e) ∧ e.kind = .configuration := by
  unfold keyOfAnswer
  cases hkey : AesKey.ofBytes bytes with
  | ok key =>
    rw [← AesKey.ofBytes_eq_ok_iff.mp hkey] at h
    exact absurd key.length_mem h
  | error e =>
    simp only [hkey]
    exact ⟨_, rfl, (Error.kind_withContext ..).trans (AesKey.kind_of_ofBytes_eq_error hkey)⟩

/-- A question that fails is answered with an error of the same kind. -/
theorem retrieveKey_of_failsWith (h : FailsWith answer s given metadata world kind) :
    ∃ e, ((s.retrieveKey metadata).runWith answer world).1 = .error (.error e) ∧ e.kind = kind ∧
      kind.meansUnknownKey = false := by
  cases h with
  | @reported retriever md e hgiven hretriever hmetadata hanswer hkind =>
    subst hmetadata
    rw [retrieveKey_runWith hretriever, hanswer]
    refine ⟨_, rfl, Error.kind_withContext .., Bool.eq_false_iff.mpr fun hunknown => ?_⟩
    exact not_or.mpr hkind (ErrorKind.meansUnknownKey_iff.mp hunknown)
  | @wrongLength retriever md bytes hgiven hretriever hmetadata hanswer hlength =>
    subst hmetadata
    obtain ⟨e, he, hkind⟩ := keyOfAnswer_of_wrongLength md hlength
    rw [retrieveKey_runWith hretriever, hanswer, he]
    exact ⟨e, rfl, hkind, rfl⟩

theorem retrieveKey_of_overflows (h : Overflows answer s given metadata world) :
    ((s.retrieveKey metadata).runWith answer world).1 = .error .clockOverflow := by
  obtain ⟨-, hretriever, hmetadata, hanswer⟩ := h
  subst hmetadata
  rw [retrieveKey_runWith hretriever, hanswer]
  rfl

end ReadSettings

namespace FileReader

open ReadSettings

variable {r : FileReader} {facts : FileFacts} {c : ColumnFacts} {answer : Answering σ} {world : σ}
  {kind : ErrorKind}

/-! ### Columns with keys of their own -/

/-- The outcome of registering a column, if retrievers answer in a state. -/
def outcome (r : FileReader) (c : ColumnFacts) (answer : Answering σ) (world : σ) :
    Except Failure ReaderColumn × FileReader := ((r.registerColumn c).runWith answer world).1

/-- What registering a column comes to that is new and has a key of its own: a key that was given is
taken without asking; otherwise the column is hidden exactly if nobody knows its key, gets its
ciphers exactly if the key is found, and is not registered if asking fails. After any failure the
reader is as before, and whenever the key is found later the column is registered. -/
structure OwnKeyOutcome (r : FileReader) (facts : FileFacts) (c : ColumnFacts)
    (answer : Answering σ) (world : σ) : Prop where
  given : ∀ key, r.settings.columnKey? c.path = some key →
    r.registerColumn c = .done (r.addColumn c (.ownKey (.ofKey facts.algorithm.suite key)))
  hidden_iff : r.settings.columnKey? c.path = none →
    (r.outcome c answer world = r.addColumn c .hidden ↔
      LacksKey answer r.settings none c.keyMetadata world)
  ownKey_iff : r.settings.columnKey? c.path = none → ∀ key,
    (r.outcome c answer world = r.addColumn c (.ownKey (.ofKey facts.algorithm.suite key)) ↔
      FindsKey answer r.settings none c.keyMetadata world key)
  fails : r.settings.columnKey? c.path = none → ∀ kind,
    FailsWith answer r.settings none c.keyMetadata world kind →
      ∃ e, r.outcome c answer world = (.error (.error e), r) ∧ e.kind = kind
  overflows : r.settings.columnKey? c.path = none →
    Overflows answer r.settings none c.keyMetadata world →
      r.outcome c answer world = (.error .clockOverflow, r)
  retry : ∀ f r', r.outcome c answer world = (.error f, r') → r' = r ∧
    ∀ {τ : Type} (later : Answering τ) (world' : τ) (key : AesKey),
      FindsKey later r.settings none c.keyMetadata world' key →
      r'.outcome c later world' = r.addColumn c (.ownKey (.ofKey facts.algorithm.suite key))

theorem addColumn_injective {access access' : ColumnAccess}
    (h : r.addColumn c access = r.addColumn c access') : access = access' := by
  have hcolumn := congrArg Prod.fst h
  simp only [addColumn, Except.ok.injEq, ReaderColumn.mk.injEq, true_and] at hcolumn
  exact hcolumn

theorem ofKey_injective {suite : CipherSuite} {key key' : AesKey}
    (h : ColumnCiphers.ofKey suite key = ColumnCiphers.ofKey suite key') : key = key' :=
  congrArg (·.metadata.key) h

section OwnKey

variable (ha : r.Admits facts c.path) (hencrypted : c.encrypted = true)
  (hown : c.withFooterKey = false)
include ha hencrypted hown

theorem registerColumn_of_ownKey : r.registerColumn c = r.addOwnKeyColumn facts c := by
  have hfacts : r.facts = .ok facts := facts_eq_ok_iff.mpr ha.file_eq
  unfold registerColumn
  simp only [hfacts, ha.new, ha.isOpen, hencrypted, hown, Bool.not_true, Bool.false_eq_true,
    if_false]

/-- A column of its own key gets what the answer to the question for its key means. -/
theorem outcome_of_ownKey (answer : Answering σ) (world : σ) :
    r.outcome c answer world = r.addGranted c (accessOfKey facts.algorithm.suite c.path
      ((resolveColumnKey r.settings c).runWith answer world).1) := by
  rw [outcome, registerColumn_of_ownKey ha hencrypted hown, addOwnKeyColumn, Asking.runWith_map]
  unfold addGranted
  cases accessOfKey facts.algorithm.suite c.path
    ((resolveColumnKey r.settings c).runWith answer world).1 <;> rfl

theorem outcome_of_lacksKey (hgiven : r.settings.columnKey? c.path = none)
    (h : LacksKey answer r.settings none c.keyMetadata world) :
    r.outcome c answer world = r.addColumn c .hidden := by
  rw [← hgiven] at h
  rw [outcome_of_ownKey ha hencrypted hown, accessOfKey_of_lacksKey _ h]
  rfl

theorem outcome_of_findsKey (hgiven : r.settings.columnKey? c.path = none) {key : AesKey}
    (h : FindsKey answer r.settings none c.keyMetadata world key) :
    r.outcome c answer world = r.addColumn c (.ownKey (.ofKey facts.algorithm.suite key)) := by
  rw [← hgiven] at h
  rw [outcome_of_ownKey ha hencrypted hown, accessOfKey_of_findsKey _ h]
  rfl

theorem outcome_of_failsWith (hgiven : r.settings.columnKey? c.path = none)
    (h : FailsWith answer r.settings none c.keyMetadata world kind) :
    ∃ e, r.outcome c answer world = (.error (.error e), r) ∧ e.kind = kind := by
  obtain ⟨e, he, hkind, hunknown⟩ := retrieveKey_of_failsWith h
  rw [outcome_of_ownKey ha hencrypted hown]
  refine ⟨e.withContext "column" c.path.toDotted, ?_, (Error.kind_withContext ..).trans hkind⟩
  simp only [resolveColumnKey, hgiven, he, accessOfKey, hkind, hunknown, Bool.false_eq_true,
    if_false]
  rfl

theorem outcome_of_overflows (hgiven : r.settings.columnKey? c.path = none)
    (h : Overflows answer r.settings none c.keyMetadata world) :
    r.outcome c answer world = (.error .clockOverflow, r) := by
  rw [outcome_of_ownKey ha hencrypted hown]
  simp only [resolveColumnKey, hgiven, retrieveKey_of_overflows h, accessOfKey]
  rfl

/-- A column that was not given a key is registered as hidden because nobody knows the key, or with
the key that is found. -/
theorem of_outcome_eq_addColumn (hgiven : r.settings.columnKey? c.path = none)
    {access : ColumnAccess} (h : r.outcome c answer world = r.addColumn c access) :
    (access = .hidden ∧ LacksKey answer r.settings none c.keyMetadata world) ∨
      ∃ key, access = .ownKey (.ofKey facts.algorithm.suite key) ∧
        FindsKey answer r.settings none c.keyMetadata world key := by
  rcases source_cases answer r.settings none c.keyMetadata world with
    hlacks | ⟨key, hfinds⟩ | ⟨kind, hfails⟩ | hover
  · rw [outcome_of_lacksKey ha hencrypted hown hgiven hlacks] at h
    exact .inl ⟨(addColumn_injective h).symm, hlacks⟩
  · rw [outcome_of_findsKey ha hencrypted hown hgiven hfinds] at h
    exact .inr ⟨key, (addColumn_injective h).symm, hfinds⟩
  · obtain ⟨e, he, -⟩ := outcome_of_failsWith ha hencrypted hown hgiven hfails
    rw [he] at h
    cases congrArg Prod.fst h
  · rw [outcome_of_overflows ha hencrypted hown hgiven hover] at h
    cases congrArg Prod.fst h

/-- A failure leaves the reader as it was, and no key of the column was given. -/
theorem of_outcome_eq_error {f : Failure} {r' : FileReader}
    (h : r.outcome c answer world = (.error f, r')) :
    r' = r ∧ r.settings.columnKey? c.path = none := by
  rw [outcome_of_ownKey ha hencrypted hown] at h
  cases hgiven : r.settings.columnKey? c.path with
  | some key =>
    rw [resolveColumnKey, hgiven] at h
    cases congrArg Prod.fst h
  | none =>
    unfold addGranted at h
    split at h
    · exact ⟨(congrArg Prod.snd h).symm, rfl⟩
    · cases congrArg Prod.fst h

/-- **A column with a key of its own** is hidden, readable or not registered, as its source says. -/
theorem ownKeyOutcome (answer : Answering σ) (world : σ) :
    r.OwnKeyOutcome facts c answer world where
  given key hgiven := by
    rw [registerColumn_of_ownKey ha hencrypted hown, addOwnKeyColumn, resolveColumnKey, hgiven]
    rfl
  hidden_iff hgiven := by
    refine ⟨fun h => ?_, outcome_of_lacksKey ha hencrypted hown hgiven⟩
    rcases of_outcome_eq_addColumn ha hencrypted hown hgiven h with
      ⟨-, hlacks⟩ | ⟨key, haccess, -⟩
    · exact hlacks
    · cases haccess
  ownKey_iff hgiven key := by
    refine ⟨fun h => ?_, outcome_of_findsKey ha hencrypted hown hgiven⟩
    rcases of_outcome_eq_addColumn ha hencrypted hown hgiven h with
      ⟨haccess, -⟩ | ⟨key', haccess, hfinds⟩
    · cases haccess
    · rwa [ofKey_injective (ColumnAccess.ownKey.inj haccess)]
  fails hgiven kind hfails := outcome_of_failsWith ha hencrypted hown hgiven hfails
  overflows hgiven hover := outcome_of_overflows ha hencrypted hown hgiven hover
  retry f r' h := by
    obtain ⟨rfl, hgiven⟩ := of_outcome_eq_error ha hencrypted hown h
    exact ⟨rfl, fun later world' key hfinds =>
      outcome_of_findsKey ha hencrypted hown hgiven hfinds⟩

end OwnKey

/-! ### Signing keys and footers -/

/-- What looking for the signing key of a footer comes to, if none is known: a key that is found is
kept, nobody knowing it is no failure, and a failure is passed on and changes nothing. -/
structure SigningKeyOutcome (r : FileReader) (metadata : Option Bytes) (answer : Answering σ)
    (world : σ) : Prop where
  lacks_iff : ((r.footerSigningKey metadata).runWith answer world).1 = (.ok none, r) ↔
    LacksKey answer r.settings none metadata world
  finds : ∀ key, FindsKey answer r.settings none metadata world key →
    ((r.footerSigningKey metadata).runWith answer world).1 =
      (.ok (some key), { r with signingKey := some key })
  fails : ∀ kind, FailsWith answer r.settings none metadata world kind →
    ∃ e, ((r.footerSigningKey metadata).runWith answer world).1 = (.error (.error e), r) ∧
      e.kind = kind
  overflows : Overflows answer r.settings none metadata world →
    ((r.footerSigningKey metadata).runWith answer world).1 = (.error .clockOverflow, r)

section Signing

variable {metadata : Option Bytes} (hnone : r.signingKey = none)
include hnone

/-- The outcome of looking for a signing key is decided by the answer. -/
theorem footerSigningKey_runWith (answer : Answering σ) (world : σ) :
    ((r.footerSigningKey metadata).runWith answer world).1 =
      match signingKeyOfAnswer ((r.settings.retrieveKey metadata).runWith answer world).1 with
      | .error f => (.error f, r)
      | .ok key => (.ok key, { r with signingKey := key }) := by
  unfold footerSigningKey
  rw [hnone]
  exact congrArg Prod.fst (Asking.runWith_map answer _ (r.settings.retrieveKey metadata) world)

theorem footerSigningKey_of_lacksKey (h : LacksKey answer r.settings none metadata world) :
    ((r.footerSigningKey metadata).runWith answer world).1 = (.ok none, r) := by
  have hkeep : { r with signingKey := none } = r := by rw [← hnone]
  rw [footerSigningKey_runWith hnone]
  rcases retrieveKey_of_lacksKey h with hanswer | ⟨e, hanswer, hkind⟩
  · simp only [hanswer, signingKeyOfAnswer, hkeep]
  · simp only [hanswer, signingKeyOfAnswer, hkind, if_true, hkeep]

theorem footerSigningKey_of_findsKey {key : AesKey}
    (h : FindsKey answer r.settings none metadata world key) :
    ((r.footerSigningKey metadata).runWith answer world).1 =
      (.ok (some key), { r with signingKey := some key }) := by
  rw [footerSigningKey_runWith hnone, retrieveKey_of_findsKey h]
  rfl

theorem footerSigningKey_of_failsWith (h : FailsWith answer r.settings none metadata world kind) :
    ∃ e, ((r.footerSigningKey metadata).runWith answer world).1 = (.error (.error e), r) ∧
      e.kind = kind := by
  obtain ⟨e, he, hkind, hunknown⟩ := retrieveKey_of_failsWith h
  refine ⟨e, ?_, hkind⟩
  rw [footerSigningKey_runWith hnone]
  simp only [he, signingKeyOfAnswer, hkind, hunknown, Bool.false_eq_true, if_false]

theorem footerSigningKey_of_overflows (h : Overflows answer r.settings none metadata world) :
    ((r.footerSigningKey metadata).runWith answer world).1 = (.error .clockOverflow, r) := by
  rw [footerSigningKey_runWith hnone, retrieveKey_of_overflows h]
  rfl

/-- **A signing key** that nobody knows is no failure. -/
theorem signingKeyOutcome (metadata : Option Bytes) (answer : Answering σ) (world : σ) :
    r.SigningKeyOutcome metadata answer world where
  lacks_iff := by
    refine ⟨fun h => ?_, footerSigningKey_of_lacksKey hnone⟩
    rcases source_cases answer r.settings none metadata world with
      hlacks | ⟨key, hfinds⟩ | ⟨kind, hfails⟩ | hover
    · exact hlacks
    · rw [footerSigningKey_of_findsKey hnone hfinds] at h
      cases congrArg Prod.fst h
    · obtain ⟨e, he, -⟩ := footerSigningKey_of_failsWith hnone hfails
      rw [he] at h
      cases congrArg Prod.fst h
    · rw [footerSigningKey_of_overflows hnone hover] at h
      cases congrArg Prod.fst h
  finds _ hfinds := footerSigningKey_of_findsKey hnone hfinds
  fails _ hfails := footerSigningKey_of_failsWith hnone hfails
  overflows hover := footerSigningKey_of_overflows hnone hover

end Signing

/-- The error of a footer's key that could not be had. -/
theorem resolveFooterKey_of_not_findsKey {s : ReadSettings} {metadata : Option Bytes}
    (hgiven : s.footerKey = none) (hfinds : ∀ key, ¬ FindsKey answer s none metadata world key)
    (hover : ¬ Overflows answer s none metadata world) :
    ∃ e, ((resolveFooterKey s true metadata).runWith answer world).1 = .error (.error e) ∧
      e.kind = .missingKey := by
  unfold resolveFooterKey
  rw [hgiven]
  cases metadata with
  | none => exact ⟨_, rfl, rfl⟩
  | some md =>
    cases hretriever : s.retriever with
    | none => exact ⟨_, rfl, rfl⟩
    | some retriever =>
      simp only [Bool.not_true, Bool.false_eq_true, if_false, Asking.runWith_map]
      have hask : ((askKey retriever md).runWith answer world).1 =
          keyOfAnswer md (answer retriever md world).1 := rfl
      rw [hask]
      cases hanswer : (answer retriever md world).1 with
      | error f =>
        cases f with
        | error e => exact ⟨_, rfl, rfl⟩
        | clockOverflow => exact absurd (.overflow rfl hretriever rfl hanswer) hover
      | ok bytes =>
        by_cases hlength : bytes.length ∈ validKeyLengths
        · exact absurd (.retrieved rfl hretriever rfl hanswer) (hfinds ⟨bytes, hlength⟩)
        · obtain ⟨e, he, -⟩ := keyOfAnswer_of_wrongLength md hlength
          rw [he]
          exact ⟨_, rfl, rfl⟩

theorem resolveFooterKey_of_overflows {s : ReadSettings} {metadata : Option Bytes}
    (hgiven : s.footerKey = none) (hover : Overflows answer s none metadata world) :
    ((resolveFooterKey s true metadata).runWith answer world).1 = .error .clockOverflow := by
  obtain @⟨retriever, md, -, hretriever, rfl, hanswer⟩ := hover
  have hask : ((askKey retriever md).runWith answer world).1 = .error .clockOverflow :=
    congrArg (keyOfAnswer md) hanswer
  unfold resolveFooterKey
  simp only [hgiven, hretriever, Bool.not_true, Bool.false_eq_true, if_false, Asking.runWith_map,
    hask, footerKeyFailure]

/-- What recording a file comes to whose footer is encrypted, if the key of the footer is not given:
where it is not found, nothing is recorded, and the error is that it is missing, whatever the source
says. -/
structure FooterOutcome (r : FileReader) (algorithm : AlgorithmRecord) (metadata : Option Bytes)
    (answer : Answering σ) (world : σ) : Prop where
  missing : (∀ key, ¬ FindsKey answer r.settings none metadata world key) →
    ¬ Overflows answer r.settings none metadata world →
      ∃ e, ((r.setFile algorithm true metadata).runWith answer world).1 = (.error (.error e), r) ∧
        e.kind = .missingKey
  overflows : Overflows answer r.settings none metadata world →
    ((r.setFile algorithm true metadata).runWith answer world).1 = (.error .clockOverflow, r)

/-- **An encrypted footer whose key is not found** is lost. -/
theorem footerOutcome (hfile : r.file = none) (hgiven : r.settings.footerKey = none)
    (algorithm : AlgorithmRecord) (metadata : Option Bytes) (answer : Answering σ) (world : σ) :
    r.FooterOutcome algorithm metadata answer world where
  missing hfinds hover := by
    obtain ⟨e, he, hkind⟩ := resolveFooterKey_of_not_findsKey hgiven hfinds hover
    refine ⟨e, ?_, hkind⟩
    unfold setFile
    rw [hfile]
    simp only [Asking.runWith_map, he]
  overflows hover := by
    unfold setFile
    rw [hfile]
    simp only [Asking.runWith_map, resolveFooterKey_of_overflows hgiven hover]

/-! ### Managers as sources -/

/-- What registering a column comes to whose key a manager is asked for: the verdict on its metadata
says whether it is hidden, not registered or readable. -/
structure ManagedOutcome (r : FileReader) (facts : FileFacts) (c : ColumnFacts) (metadata : Bytes)
    (custody : Custody) (answer : Answering σ) (world : σ) : Prop where
  judged : ∃ verdict, custody.Verdict metadata verdict
  hidden : ∀ kind, custody.Verdict metadata (.error kind) → kind.meansUnknownKey = true →
    r.outcome c answer world = r.addColumn c .hidden
  fails : ∀ kind, custody.Verdict metadata (.error kind) → kind.meansUnknownKey = false →
    ∃ e, r.outcome c answer world = (.error (.error e), r) ∧ e.kind = kind
  ownKey : ∀ key, custody.Verdict metadata (.ok key) →
    custody.now + custody.manager.cache.lifetime < endOfTime →
    r.outcome c answer world = r.addColumn c (.ownKey (.ofKey facts.algorithm.suite key))
  overflows : ∀ key, custody.Verdict metadata (.ok key) →
    ¬ custody.now + custody.manager.cache.lifetime < endOfTime →
    r.outcome c answer world = (.error .clockOverflow, r)

/-- A manager that leaves the wrapping to its service, which works, is the source of a key that is
not in its cache. -/
structure Manages (custody : Custody) (s : ReadSettings) (metadata : Bytes) (answer : Answering σ)
    (world : σ) : Prop where
  asked : ∃ retriever, s.retriever = some retriever ∧
    (answer retriever metadata world).1 = (custody.retrieveKey metadata).1
  wrapLocally_eq : custody.manager.wrapLocally = false
  works : custody.service.outage = none
  missed : (custody.manager.cache.get custody.now metadata).1 = none

/-- What a retriever of the manager answers is what the verdict says. -/
theorem Manages.meets {custody : Custody} {s : ReadSettings} {metadata : Bytes}
    (h : Manages custody s metadata answer world) {verdict : Except ErrorKind AesKey}
    (hverdict : custody.Verdict metadata verdict) : ∃ retriever, s.retriever = some retriever ∧
      custody.Meets (answer retriever metadata world).1 verdict := by
  obtain ⟨⟨retriever, hretriever, hanswer⟩, hlocal, hworks, hmissed⟩ := h
  refine ⟨retriever, hretriever, ?_⟩
  rw [hanswer]
  exact Custody.retrieveKey_of_verdict hlocal hworks hmissed hverdict

/-- **A column whose key a manager is asked for** is hidden exactly if the verdict on its metadata
means that nobody knows the key. -/
theorem managedOutcome (ha : r.Admits facts c.path) (hencrypted : c.encrypted = true)
    (hown : c.withFooterKey = false) (hgiven : r.settings.columnKey? c.path = none)
    {metadata : Bytes} (hmetadata : c.keyMetadata = some metadata) {custody : Custody}
    (hmanages : Manages custody r.settings metadata answer world) :
    r.ManagedOutcome facts c metadata custody answer world where
  judged := custody.exists_verdict metadata
  hidden kind hverdict hkind := by
    obtain ⟨retriever, hretriever, e, he, rfl⟩ := hmanages.meets hverdict
    exact outcome_of_lacksKey ha hencrypted hown hgiven
      (.unknown rfl hretriever hmetadata he (ErrorKind.meansUnknownKey_iff.mp hkind))
  fails kind hverdict hkind := by
    obtain ⟨retriever, hretriever, e, he, rfl⟩ := hmanages.meets hverdict
    have hknown := mt ErrorKind.meansUnknownKey_iff.mpr (Bool.eq_false_iff.mp hkind)
    exact outcome_of_failsWith ha hencrypted hown hgiven
      (.reported rfl hretriever hmetadata he (not_or.mp hknown))
  ownKey key hverdict hclock := by
    obtain ⟨retriever, hretriever, hkey⟩ := hmanages.meets hverdict
    rw [Custody.Meets, if_pos hclock] at hkey
    exact outcome_of_findsKey ha hencrypted hown hgiven
      (.retrieved rfl hretriever hmetadata hkey)
  overflows key hverdict hclock := by
    obtain ⟨retriever, hretriever, hkey⟩ := hmanages.meets hverdict
    rw [Custody.Meets, if_neg hclock] at hkey
    exact outcome_of_overflows ha hencrypted hown hgiven
      (.overflow rfl hretriever hmetadata hkey)

/-! ### Hidden or failed -/

/-- **What a key that cannot be had means** depends on what it is for, whoever is asked for it and
in whatever state. A new column with a key of its own is hidden exactly if nobody knows the key, and
readable exactly if it was given or is found; any other failure is passed on and leaves the column
to be registered later. A signing key that nobody knows is no failure, and an encrypted footer is
lost without its key. If a manager is asked, what it makes of the metadata decides, step by step. -/
theorem hidden_or_fails (r : FileReader) (answer : Answering σ) (world : σ) :
    (∀ facts c, r.Admits facts c.path → c.encrypted = true → c.withFooterKey = false →
      r.OwnKeyOutcome facts c answer world ∧
      ∀ metadata custody, r.settings.columnKey? c.path = none → c.keyMetadata = some metadata →
        Manages custody r.settings metadata answer world →
        r.ManagedOutcome facts c metadata custody answer world) ∧
    (∀ metadata, (∀ key, r.signingKey = some key →
        r.footerSigningKey metadata = .done (.ok (some key), r)) ∧
      (r.signingKey = none → r.SigningKeyOutcome metadata answer world)) ∧
    (r.file = none → r.settings.footerKey = none → ∀ algorithm metadata,
      r.FooterOutcome algorithm metadata answer world) := by
  refine ⟨fun facts c ha hencrypted hown =>
      ⟨?_, fun metadata custody hgiven hmetadata hmanages => ?_⟩,
    fun metadata => ⟨fun key hkey => ?_, fun hnone => ?_⟩,
    fun hfile hgiven algorithm metadata => ?_⟩
  · exact ownKeyOutcome ha hencrypted hown answer world
  · exact managedOutcome ha hencrypted hown hgiven hmetadata hmanages
  · rw [footerSigningKey, hkey]
  · exact signingKeyOutcome hnone metadata answer world
  · exact footerOutcome hfile hgiven algorithm metadata answer world

namespace Sample

/-- A manager whose store is empty. -/
def emptyCustody : Custody :=
  { manager := { wrapLocally := false
                 placement := .inStore "f"
                 dataKeyLength := 16
                 cache := { lifetime := 60 * second, capacity := 1, capacity_pos := by decide } }
    service := {}
    store := {}
    entropy := ⟨fun _ => 0, 0⟩
    now := 0 }

/-- A manager as the only retriever. -/
def managed : Answering Custody := fun _ metadata custody => custody.retrieveKey metadata

/-- A reader of a file with a readable footer, which asks a retriever for all keys. -/
def asking : FileReader :=
  { settings := { footerKey := none
                  footerSigningKey := none
                  columnKeys := .empty
                  retriever := some ⟨0⟩
                  aadPrefix := none
                  prefixLookup := none
                  checkFooterIntegrity := true }
    file := some { algorithm := ⟨.aesGcmV1, none, [1, 2, 3]⟩
                   encryptedFooter := false
                   footerKey := none
                   fileAad := [1, 2, 3] }
    signingKey := none }

/-- A key that a retriever may come to know. -/
def foundKey : AesKey := ⟨List.replicate 16 3, by decide⟩

/-- A retriever that knows it. -/
def finder : Answering Unit := fun _ _ => pure (.ok foundKey.bytes)

/-- The column `a`, whose key has the given metadata. -/
def columnOf (metadata : Bytes) : ColumnFacts := ⟨⟨["a"]⟩, true, false, some metadata, 0⟩

theorem admits_asking (metadata : Bytes) :
    asking.Admits ⟨⟨.aesGcmV1, none, [1, 2, 3]⟩, false, none, [1, 2, 3]⟩
      (columnOf metadata).path := ⟨rfl, rfl, rfl⟩

theorem manages_emptyCustody (metadata : Bytes) :
    Manages emptyCustody asking.settings metadata managed emptyCustody :=
  ⟨⟨⟨0⟩, rfl, rfl⟩, rfl, rfl, rfl⟩

/-- No text is written as the byte 255. -/
theorem notText_255 (text : String) : [255] ≠ Text.Utf8.encode text := by
  intro h
  have hdecode := Text.Utf8.decode_eq_ok_iff.mpr h
  rw [show Text.Utf8.decode [255] = .error _ from rfl] at hdecode
  cases hdecode

end Sample

open Sample in
/-- A column under whose metadata nothing is stored is hidden; one whose metadata are no text is not
registered, but can be as soon as its key is found. -/
theorem hidden_or_fails_asking :
    asking.outcome (columnOf (Text.Utf8.encode "k0")) managed emptyCustody =
        asking.addColumn (columnOf (Text.Utf8.encode "k0")) .hidden ∧
      (∃ e, asking.outcome (columnOf [255]) managed emptyCustody = (.error (.error e), asking) ∧
        e.kind = .dataInvalid) ∧
      asking.outcome (columnOf [255]) finder () =
        asking.addColumn (columnOf [255]) (.ownKey (.ofKey .aesGcmV1 foundKey)) := by
  obtain ⟨hcolumns, -, -⟩ := hidden_or_fails asking managed emptyCustody
  obtain ⟨-, hstored⟩ := hcolumns _ _ (admits_asking (Text.Utf8.encode "k0")) rfl rfl
  obtain ⟨hown, hbad⟩ := hcolumns _ _ (admits_asking [255]) rfl rfl
  have hhidden := (hstored _ _ rfl rfl (manages_emptyCustody _)).hidden .notFound
    (.nothingStored rfl rfl rfl rfl) rfl
  obtain ⟨e, he, hkind⟩ := (hbad _ _ rfl rfl (manages_emptyCustody _)).fails .dataInvalid
    (.notText notText_255) rfl
  exact ⟨hhidden, ⟨e, he, hkind⟩, (hown.retry _ _ he).2 _ _ foundKey (.retrieved rfl rfl rfl rfl)⟩

end FileReader

end ModularEncryption
