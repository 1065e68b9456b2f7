import ModularEncryption.Read.File

/-! # Where readers find keys

A reader takes the key of a footer or of a column from its settings, or asks the retriever that they
name. Retrievers may have a state, in which they answer (`Asking.runWith`). A source finds a key
(`ReadSettings.FindsKey`) or knows of none (`ReadSettings.LacksKey`), and likewise the settings find
the writer's prefix (`ReadSettings.FindsPrefix`). What a reader makes of each of these follows:
`resolveFooterKey_of_findsKey`, `accessOfKey_of_findsKey`, `accessOfKey_of_lacksKey` and
`resolvePrefix_of_findsPrefix`. -/

namespace ModularEncryption

variable {σ α β : Type}

/-- How retrievers answer, in a state of their own. -/
abbrev Answering (σ : Type) := RetrieverRef → Bytes → StateM σ KeyAnswer

/-- The result of a step, if retrievers answer in a state. -/
def Asking.runWith (answer : Answering σ) : Asking α → StateM σ α
  | .done a => return a
  | .ask retriever metadata resume => return resume (← answer retriever metadata)

@[simp] theorem Asking.runWith_done (answer : Answering σ) (a : α) (world : σ) :
    (Asking.done a).runWith answer world = (a, world) := rfl

@[simp] theorem Asking.runWith_map (answer : Answering σ) (f : α → β) (a : Asking α) (world : σ) :
    (a.map f).runWith answer world =
      (f (a.runWith answer world).1, (a.runWith answer world).2) := by
  cases a <;> rfl

namespace ReadSettings

variable (answer : Answering σ) (s : ReadSettings) (given : Option AesKey)
  (metadata : Option Bytes) (world : σ)

/-- In a state of the retrievers, a key that may have been given, or that has metadata, is found. -/
inductive FindsKey : AesKey → Prop where
  | given {key : AesKey} (h : given = some key) : FindsKey key
  | retrieved {key : AesKey} {retriever : RetrieverRef} {md : Bytes} (hgiven : given = none)
      (hretriever : s.retriever = some retriever) (hmetadata : metadata = some md)
      (hanswer : (answer retriever md world).1 = .ok key.bytes) : FindsKey key

/-- In a state of the retrievers, a key is not given, and nobody knows it. -/
inductive LacksKey : Prop where
  | noRetriever (hgiven : given = none) (hretriever : s.retriever = none)
  | noMetadata (hgiven : given = none) (hmetadata : metadata = none)
  | unknown {retriever : RetrieverRef} {md : Bytes} {e : Error} (hgiven : given = none)
      (hretriever : s.retriever = some retriever) (hmetadata : metadata = some md)
      (hanswer : (answer retriever md world).1 = .error (.error e))
      (hkind : e.kind = .missingKey ∨ e.kind = .notFound)

/-- The prefix is given, or looked up by the file's metadata, or empty without a way to find
one. -/
inductive FindsPrefix (s : ReadSettings) (metadata : Option Bytes) : Bytes → Prop where
  | given {bytes : Bytes} (h : s.aadPrefix = some bytes) : FindsPrefix s metadata bytes
  | lookedUp {lookup : PrefixLookup} {md bytes : Bytes} (hgiven : s.aadPrefix = none)
      (hlookup : s.prefixLookup = some lookup) (hmetadata : metadata = some md)
      (hbytes : lookup md = .ok bytes) : FindsPrefix s metadata bytes
  | absent (hgiven : s.aadPrefix = none) (h : s.prefixLookup = none ∨ metadata = none) :
      FindsPrefix s metadata []

variable {answer s metadata world} {given : Option AesKey}

theorem keyOfAnswer_bytes (metadata : Bytes) (key : AesKey) :
    keyOfAnswer metadata (.ok key.bytes) = .ok key := by
  have hk : AesKey.ofBytes key.bytes = .ok key := AesKey.ofBytes_eq_ok_iff.mpr rfl
  simp only [keyOfAnswer, hk]

/-- A key that was not given and is found is the answer to a question for its metadata. -/
theorem retrieveKey_of_findsKey {key : AesKey}
    (h : FindsKey answer s none metadata world key) :
    ((s.retrieveKey metadata).runWith answer world).1 = .ok (some key) := by
  rcases h with h | ⟨-, hretriever, rfl, hanswer⟩
  · cases h
  · unfold retrieveKey
    rw [hretriever]
    show Except.map some (keyOfAnswer _ (answer _ _ world).1) = _
    rw [hanswer, keyOfAnswer_bytes]
    rfl

/-- A key that nobody knows is no answer, or the answer that it is unknown. -/
theorem retrieveKey_of_lacksKey (h : LacksKey answer s given metadata world) :
    ((s.retrieveKey metadata).runWith answer world).1 = .ok none ∨
      ∃ e, ((s.retrieveKey metadata).runWith answer world).1 = .error (.error e) ∧
        e.kind.meansUnknownKey = true := by
  unfold retrieveKey
  rcases h with ⟨-, hretriever⟩ | ⟨-, rfl⟩ | @⟨retriever, md, e, -, hretriever, rfl, hanswer, hkind⟩
  · rw [hretriever]
    exact .inl rfl
  · cases s.retriever <;> exact .inl rfl
  · rw [hretriever]
    refine .inr ⟨e.withContext "key_metadata" (Text.shown md), ?_, ?_⟩
    · show Except.map some (keyOfAnswer md (answer retriever md world).1) = _
      rw [hanswer]
      rfl
    · rw [Error.kind_withContext]
      rcases hkind with hkind | hkind <;> rw [hkind] <;> rfl

/-- **A footer's key that is found is the reader's.** -/
theorem resolveFooterKey_of_findsKey {key : AesKey}
    (h : FindsKey answer s s.footerKey metadata world key) :
    ((FileReader.resolveFooterKey s true metadata).runWith answer world).1 = .ok (some key) := by
  unfold FileReader.resolveFooterKey
  rcases h with hgiven | ⟨hgiven, hretriever, rfl, hanswer⟩
  · rw [hgiven]
    rfl
  · simp only [hgiven, hretriever, Bool.not_true, Bool.false_eq_true, if_false,
      Asking.runWith_map]
    have hkey : ((askKey _ _).runWith answer world).1 = .ok key :=
      (congrArg (keyOfAnswer _) hanswer).trans (keyOfAnswer_bytes _ key)
    rw [hkey]

theorem resolveFooterKey_of_readable (answer : Answering σ) (s : ReadSettings)
    (metadata : Option Bytes) (world : σ) :
    (FileReader.resolveFooterKey s false metadata).runWith answer world =
      (.ok s.footerKey, world) := by
  unfold FileReader.resolveFooterKey
  cases s.footerKey <;> rfl

theorem resolvePrefix_of_findsPrefix {algorithm : AlgorithmRecord} {bytes : Bytes}
    (h : s.FindsPrefix algorithm.aadMetadata bytes) :
    FileReader.resolvePrefix s algorithm = .ok bytes := by
  unfold FileReader.resolvePrefix
  rcases h with hgiven | ⟨hgiven, hlookup, hmetadata, hbytes⟩ | ⟨hgiven, hnone | hnone⟩
  · rw [hgiven]
  · rw [hgiven, hlookup, hmetadata]
    exact hbytes
  · rw [hgiven, hnone]
  · rw [hgiven, hnone]
    cases s.prefixLookup <;> rfl

variable {c : ColumnFacts}

/-- **A column's own key that is found gives the column its ciphers.** -/
theorem accessOfKey_of_findsKey (suite : CipherSuite) {key : AesKey}
    (h : FindsKey answer s (s.columnKey? c.path) c.keyMetadata world key) :
    FileReader.accessOfKey suite c.path
      ((FileReader.resolveColumnKey s c).runWith answer world).1 =
        .ok (.ownKey (.ofKey suite key)) := by
  unfold FileReader.resolveColumnKey
  cases hgiven : s.columnKey? c.path with
  | some key' =>
    rw [hgiven] at h
    rcases h with h | ⟨h, -⟩
    · cases h; rfl
    · cases h
  | none =>
    rw [hgiven] at h
    simp only [retrieveKey_of_findsKey h, FileReader.accessOfKey]

/-- **A column whose own key nobody knows is hidden.** -/
theorem accessOfKey_of_lacksKey (suite : CipherSuite)
    (h : LacksKey answer s (s.columnKey? c.path) c.keyMetadata world) :
    FileReader.accessOfKey suite c.path
      ((FileReader.resolveColumnKey s c).runWith answer world).1 = .ok .hidden := by
  have hgiven : s.columnKey? c.path = none := by
    rcases h with ⟨h, -⟩ | ⟨h, -⟩ | ⟨h, -⟩ <;> exact h
  unfold FileReader.resolveColumnKey
  rw [hgiven]
  rcases retrieveKey_of_lacksKey h with hnone | ⟨e, he, hkind⟩
  · simp only [hnone, FileReader.accessOfKey]
  · simp only [he, FileReader.accessOfKey, hkind, if_true]

end ReadSettings

end ModularEncryption
