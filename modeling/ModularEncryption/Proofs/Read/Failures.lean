import ModularEncryption.Proofs.Read.Signature

/-! # Failures leave no trace

What happens to a reader one after the other (`ReaderEvent`) are requests, each with the answers
that retrievers give while it is served, and changes of the way in which prefixes are looked up. A
request that fails leaves the reader as it was, wherever on the way it fails: whatever was found out
before is recorded at the very end only (`setFile_failure`, `registerColumn_failure`,
`footerSigningKey_failure`).

There is one exception. A verification that asks a retriever for the signing key and gets it
(`FileReader.FindsSigningKey`) keeps the key even if the signature then turns out wrong
(`meet_of_findsSigningKey`). This comes to the same as asking for the signing key alone.

So requests that fail otherwise may be struck out of a run (`FileReader.effective`), and nobody will
notice (`after_effective`, `failures_leave_no_trace`). -/

namespace ModularEncryption

variable {ε α β : Type}

/-- The question that a step asks. -/
def Asking.question : Asking α → Option (RetrieverRef × Bytes)
  | .done _ => none
  | .ask retriever metadata _ => some (retriever, metadata)

@[simp] theorem Asking.question_map (f : α → β) (a : Asking α) :
    (a.map f).question = a.question := by
  cases a <;> rfl

/-- What may happen to a reader: it is asked something, while retrievers answer by a function; or
prefixes are looked up in another way from now on. -/
inductive ReaderEvent where
  | asked (request : ReaderRequest) (answer : RetrieverRef → Bytes → KeyAnswer)
  | lookingUp (lookup : PrefixLookup)

namespace FileReader

open ReadSettings

/-- What a reader replies when something happens to it, and the reader afterwards. -/
def meet (r : FileReader) : ReaderEvent → Except Failure ReaderReply × FileReader
  | .asked request answer => (r.perform request).run answer
  | .lookingUp lookup => (.ok .done, r.lookingUp lookup)

/-- The replies of a reader to one thing after the other. -/
def replies : FileReader → List ReaderEvent → List (Except Failure ReaderReply)
  | _, [] => []
  | r, event :: events => (r.meet event).1 :: (r.meet event).2.replies events

/-- The reader after one thing after the other. -/
def after : FileReader → List ReaderEvent → FileReader
  | r, [] => r
  | r, event :: events => (r.meet event).2.after events

variable {r r' : FileReader} {metadata : Option Bytes} {answer : RetrieverRef → Bytes → KeyAnswer}
  {f : Failure} {key : AesKey}

/-! ### Where requests fail -/

/-- An outcome leaves a reader as it was if it is a failure. -/
def FailsInPlace (r : FileReader) (outcome : Except ε α × FileReader) : Prop :=
  ∀ e, outcome.1 = .error e → outcome.2 = r

theorem failsInPlace_of_eq {outcome : Except ε α × FileReader} (h : outcome.2 = r) :
    r.FailsInPlace outcome := fun _ _ => h

theorem failsInPlace_ok (a : α) : r.FailsInPlace ((.ok a, r') : Except ε α × FileReader) :=
  fun _ h => nomatch h

theorem FailsInPlace.reply {outcome : Except Failure α × FileReader} (h : r.FailsInPlace outcome)
    (g : α → ReaderReply) : r.FailsInPlace (FileReader.reply g outcome) := by
  intro f hf
  rcases outcome with ⟨f' | a, r'⟩
  · exact h f' rfl
  · cases hf

theorem setFile_failure (algorithm : AlgorithmRecord) (encryptedFooter : Bool)
    (metadata : Option Bytes) (answer : RetrieverRef → Bytes → KeyAnswer) :
    r.FailsInPlace ((r.setFile algorithm encryptedFooter metadata).run answer) := by
  unfold setFile
  cases r.file with
  | some facts =>
    simp only
    split <;> exact failsInPlace_of_eq rfl
  | none =>
    simp only [Asking.run_map]
    cases (resolveFooterKey r.settings encryptedFooter metadata).run answer with
    | error f => exact failsInPlace_of_eq rfl
    | ok footerKey =>
      -- the footer's key is known by now, but it is not recorded before the prefix is
      cases resolvePrefix r.settings algorithm with
      | error e => exact failsInPlace_of_eq rfl
      | ok aadPrefix => exact failsInPlace_ok _

theorem keptFooterCipher_failure : r.FailsInPlace r.keptFooterCipher := by
  unfold keptFooterCipher
  cases r.footerCipher with
  | some c => exact failsInPlace_ok c
  | none =>
    cases r.footerKey with
    | error e => exact failsInPlace_of_eq rfl
    | ok key => exact failsInPlace_ok _

theorem footer_failure : r.FailsInPlace r.footer := by
  unfold footer
  cases r.facts with
  | error e => exact failsInPlace_of_eq rfl
  | ok facts =>
    simp only
    split
    · exact failsInPlace_ok _
    · intro e he
      have hkept := keptFooterCipher_failure (r := r)
      rcases houtcome : r.keptFooterCipher with ⟨e' | c, r'⟩
      · rw [houtcome] at hkept
        exact hkept e' rfl
      · rw [houtcome] at he
        cases he

theorem keptColumnCiphers_failure (facts : FileFacts) (key : AesKey) :
    r.FailsInPlace (r.keptColumnCiphers facts key) := by
  unfold keptColumnCiphers
  cases r.footerColumnCiphers with
  | some c => exact failsInPlace_ok c
  | none =>
    have hkept := keptFooterCipher_failure (r := r)
    rcases houtcome : r.keptFooterCipher with ⟨e | c, r'⟩
    · rw [houtcome] at hkept
      exact failsInPlace_of_eq (hkept e rfl)
    · exact failsInPlace_ok _

theorem addFooterKeyColumn_failure (facts : FileFacts) (c : ColumnFacts) :
    r.FailsInPlace (r.addFooterKeyColumn facts c) := by
  unfold addFooterKeyColumn
  cases r.footerKey with
  | error e => exact failsInPlace_of_eq rfl
  | ok key =>
    have hkept := keptColumnCiphers_failure (r := r) facts key
    rcases houtcome : r.keptColumnCiphers facts key with ⟨e | ciphers, r'⟩
    · simp only [houtcome] at hkept ⊢
      exact failsInPlace_of_eq (hkept e rfl)
    · simp only [houtcome]
      exact failsInPlace_ok _

theorem registerColumn_failure (c : ColumnFacts) (answer : RetrieverRef → Bytes → KeyAnswer) :
    r.FailsInPlace ((r.registerColumn c).run answer) := by
  unfold registerColumn
  cases r.facts with
  | error e => exact failsInPlace_of_eq rfl
  | ok facts =>
    cases r.columns.get? c.path with
    | some column => exact failsInPlace_of_eq rfl
    | none =>
      simp only
      split
      · exact failsInPlace_of_eq rfl
      · split
        · exact failsInPlace_ok _
        · split
          · exact addFooterKeyColumn_failure facts c
          · simp only [addOwnKeyColumn, Asking.run_map]
            cases accessOfKey facts.algorithm.suite c.path
                ((resolveColumnKey r.settings c).run answer) with
            | error f => exact failsInPlace_of_eq rfl
            | ok access => exact failsInPlace_ok _

theorem footerSigningKey_failure (metadata : Option Bytes)
    (answer : RetrieverRef → Bytes → KeyAnswer) :
    r.FailsInPlace ((r.footerSigningKey metadata).run answer) := by
  unfold footerSigningKey
  cases r.signingKey with
  | some key => exact failsInPlace_of_eq rfl
  | none =>
    simp only [Asking.run_map]
    cases signingKeyOfAnswer ((r.settings.retrieveKey metadata).run answer) with
    | error f => exact failsInPlace_of_eq rfl
    | ok key => exact failsInPlace_ok _

/-! ### Signing keys that are found -/

/-- While a footer is verified, a retriever is asked for the signing key and gives it. -/
inductive FindsSigningKey (r : FileReader) : ReaderEvent → AesKey → Prop where
  | verifying {footer : Bytes} {signature metadata : Option Bytes}
      {answer : RetrieverRef → Bytes → KeyAnswer} {retriever : RetrieverRef} {md : Bytes}
      {key : AesKey}
      (hasks : (r.verifyFooter footer signature metadata).question = some (retriever, md))
      (hanswer : keyOfAnswer md (answer retriever md) = .ok key) :
      FindsSigningKey r (.asked (.verifyFooter footer signature metadata) answer) key

theorem retrieveKey_of_question {s : ReadSettings} {retriever : RetrieverRef} {md : Bytes}
    (h : (s.retrieveKey metadata).question = some (retriever, md))
    (answer : RetrieverRef → Bytes → KeyAnswer) :
    (s.retrieveKey metadata).run answer = (keyOfAnswer md (answer retriever md)).map some := by
  unfold retrieveKey at h ⊢
  cases hretriever : s.retriever with
  | none => rw [hretriever] at h; cases h
  | some retriever' =>
    cases metadata with
    | none => rw [hretriever] at h; cases h
    | some md' => rw [hretriever] at h; cases h; rfl

/-- Where no retriever is asked, there is no key. -/
theorem retrieveKey_of_done {s : ReadSettings} {result : Except Failure (Option AesKey)}
    (h : s.retrieveKey metadata = .done result) : result = .ok none := by
  unfold retrieveKey at h
  split at h
  · cases h
  · cases h
    rfl

/-- Asking for the signing key is asking for the key of metadata, where none is known. -/
theorem footerSigningKey_of_question {question : RetrieverRef × Bytes}
    (h : (r.footerSigningKey metadata).question = some question) :
    r.signingKey = none ∧ (r.settings.retrieveKey metadata).question = some question := by
  unfold footerSigningKey at h
  cases hkey : r.signingKey with
  | some key => rw [hkey] at h; cases h
  | none =>
    rw [hkey] at h
    simp only [Asking.question_map] at h
    exact ⟨rfl, h⟩

/-- A signing key that a retriever gives is kept. -/
theorem footerSigningKey_of_answer {retriever : RetrieverRef} {md : Bytes}
    (h : (r.footerSigningKey metadata).question = some (retriever, md))
    (hanswer : keyOfAnswer md (answer retriever md) = .ok key) :
    (r.footerSigningKey metadata).run answer =
      (.ok (some key), { r with signingKey := some key }) := by
  obtain ⟨hnone, hasks⟩ := footerSigningKey_of_question h
  unfold footerSigningKey
  simp only [hnone, Asking.run_map, retrieveKey_of_question hasks, hanswer]
  rfl

/-- **Asking for the signing key changes nothing, or a retriever gives it.** -/
theorem footerSigningKey_snd (r : FileReader) (metadata : Option Bytes)
    (answer : RetrieverRef → Bytes → KeyAnswer) :
    ((r.footerSigningKey metadata).run answer).2 = r ∨
      ∃ retriever md key, (r.footerSigningKey metadata).question = some (retriever, md) ∧
        keyOfAnswer md (answer retriever md) = .ok key := by
  unfold footerSigningKey
  cases hnone : r.signingKey with
  | some key => exact .inl rfl
  | none =>
    -- keeping no key where there is none changes nothing
    have hkeep : { r with signingKey := none } = r := by rw [← hnone]
    simp only [Asking.run_map, Asking.question_map]
    cases hasks : r.settings.retrieveKey metadata with
    | done result =>
      obtain rfl := retrieveKey_of_done hasks
      exact .inl hkeep
    | ask retriever md resume =>
      have hrun := retrieveKey_of_question (congrArg Asking.question hasks) answer
      rw [hasks] at hrun
      rw [hrun]
      cases hanswer : keyOfAnswer md (answer retriever md) with
      | ok key => exact .inr ⟨retriever, md, key, rfl, hanswer⟩
      | error f =>
        left
        cases f with
        | clockOverflow => rfl
        | error e =>
          simp only [Except.map, signingKeyOfAnswer]
          cases e.kind.meansUnknownKey with
          | true => exact hkeep
          | false => rfl

/-- What a verification concludes once it has asked for the signing key. -/
def conclude (facts : FileFacts) (footer signature : Bytes) :
    Except Failure (Option AesKey) × FileReader → Except Failure Unit × FileReader
  | (.error f, r) => (.error f, r)
  | (.ok key, r) => ((checkTag facts footer signature key).mapError .error, r)

@[simp] theorem conclude_snd (facts : FileFacts) (footer signature : Bytes)
    (outcome : Except Failure (Option AesKey) × FileReader) :
    (conclude facts footer signature outcome).2 = outcome.2 := by
  obtain ⟨result, r⟩ := outcome
  cases result <;> rfl

theorem checkSignature_eq_ok {signature : Option Bytes} {bytes : Bytes}
    (h : checkSignature signature = .ok bytes) : signature = some bytes ∧ bytes.length = 28 := by
  cases signature with
  | none => cases h
  | some bytes' =>
    simp only [checkSignature] at h
    split at h
    · cases h
    · next hlength =>
      cases h
      exact ⟨rfl, not_not.mp hlength⟩

/-- **A verification asks for the signing key only if the signature has the right length**; else
it changes nothing. -/
theorem verifyFooter_eq (r : FileReader) (footer : Bytes) (signature metadata : Option Bytes) :
    (∃ result, r.verifyFooter footer signature metadata = .done (result, r)) ∨
      ∃ facts bytes, signature = some bytes ∧ bytes.length = 28 ∧
        r.verifyFooter footer signature metadata =
          (r.footerSigningKey metadata).map (conclude facts footer bytes) := by
  unfold verifyFooter
  cases r.facts with
  | error e => exact .inl ⟨_, rfl⟩
  | ok facts =>
    simp only
    split
    · exact .inl ⟨_, rfl⟩
    · split
      · exact .inl ⟨_, rfl⟩
      · cases hsignature : checkSignature signature with
        | error e => exact .inl ⟨_, rfl⟩
        | ok bytes =>
          obtain ⟨hsome, hlength⟩ := checkSignature_eq_ok hsignature
          refine .inr ⟨facts, bytes, hsome, hlength, congrArg (Asking.map · _) (funext ?_)⟩
          rintro ⟨f | key, r'⟩ <;> rfl

/-- **A verification that finds a signing key keeps it**, and comes to the same as asking for it
alone. The signature has the right length then, and no key was known. -/
theorem meet_of_findsSigningKey {event : ReaderEvent} (h : r.FindsSigningKey event key) :
    ∃ footer bytes metadata answer,
      event = .asked (.verifyFooter footer (some bytes) metadata) answer ∧ bytes.length = 28 ∧
      r.signingKey = none ∧ (r.meet event).2 = { r with signingKey := some key } ∧
      r.meet (.asked (.footerSigningKey metadata) answer) =
        (.ok (.signingKey (some key)), { r with signingKey := some key }) := by
  obtain @⟨footer, signature, metadata, answer, retriever, md, _, hasks, hanswer⟩ := h
  obtain ⟨result, hdone⟩ | ⟨facts, bytes, rfl, hlength, heq⟩ :=
    verifyFooter_eq r footer signature metadata
  · rw [hdone] at hasks
    cases hasks
  · rw [heq, Asking.question_map] at hasks
    have hfound := footerSigningKey_of_answer hasks hanswer
    refine ⟨footer, bytes, metadata, answer, rfl, hlength, (footerSigningKey_of_question hasks).1,
      ?_, ?_⟩
    · simp only [meet, perform, heq, Asking.run_map, reply, conclude_snd, hfound]
    · simp only [meet, perform, Asking.run_map, reply, hfound, Except.map]

/-- A verification that finds no signing key changes nothing. -/
theorem meet_verifyFooter {footer : Bytes} {signature : Option Bytes}
    (h : ∀ key, ¬ r.FindsSigningKey (.asked (.verifyFooter footer signature metadata) answer) key) :
    (r.meet (.asked (.verifyFooter footer signature metadata) answer)).2 = r := by
  obtain ⟨result, hdone⟩ | ⟨facts, bytes, -, -, heq⟩ :=
    verifyFooter_eq r footer signature metadata
  · simp only [meet, perform, hdone, Asking.map, Asking.run_done, reply]
  · obtain hsame | ⟨retriever, md, key, hasks, hanswer⟩ := footerSigningKey_snd r metadata answer
    · simp only [meet, perform, heq, Asking.run_map, reply, conclude_snd, hsame]
    · refine absurd (.verifying ?_ hanswer) (h key)
      rw [heq, Asking.question_map, hasks]

/-- **A request that fails leaves the reader as it was**, unless a signing key is found. -/
theorem meet_failure {event : ReaderEvent} (h : (r.meet event).1 = .error f)
    (hkey : ∀ key, ¬ r.FindsSigningKey event key) : (r.meet event).2 = r := by
  cases event with
  | lookingUp lookup => cases h
  | asked request answer =>
    cases request with
    | setFile heading =>
      have houtcome := (setFile_failure (r := r) heading.algorithm heading.encryptedFooter
        heading.footerKeyMetadata answer).reply fun _ => .done
      simp only [meet, perform, Asking.run_map] at h ⊢
      exact houtcome f h
    | registerColumn c =>
      have houtcome := (registerColumn_failure (r := r) c answer).reply .column
      simp only [meet, perform, Asking.run_map] at h ⊢
      exact houtcome f h
    | closeColumns => cases h
    | footer =>
      simp only [meet, perform, Asking.run_done, reply] at h ⊢
      cases hcipher : r.footer.1 with
      | error e => exact footer_failure e hcipher
      | ok cipher =>
        rw [hcipher] at h
        cases h
    | column path => rfl
    | footerSigningKey metadata =>
      have houtcome := (footerSigningKey_failure (r := r) metadata answer).reply .signingKey
      simp only [meet, perform, Asking.run_map] at h ⊢
      exact houtcome f h
    | verifyFooter footer signature metadata => exact meet_verifyFooter hkey

/-! ### Whole runs -/

/-- A request fails and finds no signing key. -/
def idle (r : FileReader) (event : ReaderEvent) : Bool :=
  !(r.meet event).1.isOk && decide ((r.meet event).2.signingKey = r.signingKey)

/-- A run without what is idle in it. -/
def effective : FileReader → List ReaderEvent → List ReaderEvent
  | _, [] => []
  | r, event :: events =>
    if r.idle event then (r.meet event).2.effective events
    else event :: (r.meet event).2.effective events

/-- An outcome that is no success is a failure. -/
theorem eq_error_of_isOk_eq_false {outcome : Except ε α × β} (h : outcome.1.isOk = false) :
    ∃ e, outcome = (.error e, outcome.2) := by
  obtain ⟨e | a, b⟩ := outcome
  · exact ⟨e, rfl⟩
  · cases h

/-- What is idle has no effect. -/
theorem meet_of_idle {event : ReaderEvent} (h : r.idle event = true) :
    (∃ f, (r.meet event).1 = .error f) ∧ (r.meet event).2 = r := by
  simp only [idle, Bool.and_eq_true, Bool.not_eq_true', decide_eq_true_eq] at h
  obtain ⟨hfails, hsame⟩ := h
  obtain ⟨f, hmeet⟩ := eq_error_of_isOk_eq_false hfails
  have hf : (r.meet event).1 = .error f := congrArg Prod.fst hmeet
  refine ⟨⟨f, hf⟩, meet_failure hf fun key hfinds => ?_⟩
  obtain ⟨-, -, -, -, -, -, hnone, hfound, -⟩ := meet_of_findsSigningKey hfinds
  rw [hfound, hnone] at hsame
  cases hsame

/-- **What is idle may be struck out**: the reader comes to the same. -/
theorem after_effective (r : FileReader) (events : List ReaderEvent) :
    r.after (r.effective events) = r.after events := by
  induction events generalizing r with
  | nil => rfl
  | cons event events ih =>
    simp only [effective, after]
    split
    · next hidle => rw [(meet_of_idle hidle).2, ih]
    · exact ih _

/-- **What is idle may be struck out**: what succeeds is replied to in the same way. -/
theorem replies_effective (r : FileReader) (events : List ReaderEvent) :
    (r.replies (r.effective events)).filter Except.isOk =
      (r.replies events).filter Except.isOk := by
  induction events generalizing r with
  | nil => rfl
  | cons event events ih =>
    simp only [effective, replies]
    split
    · next hidle =>
      obtain ⟨⟨f, hf⟩, hsame⟩ := meet_of_idle hidle
      rw [hf, hsame, ih]
      rfl
    · simp only [replies, List.filter_cons, ih]

theorem phase_congr (hfile : r'.file = r.file) (hcolumns : r'.columns = r.columns)
    (hclosed : r'.columnsClosed = r.columnsClosed) : r'.phase = r.phase := by
  unfold phase
  rw [hfile, hcolumns, hclosed]

/-- **Failures leave no trace.** A request that fails leaves the facts about the file, the columns,
that they are closed and the phase as they were, and whatever happens later goes on as if it had not
been made. The exception is a verification that finds a signing key: the signature has the right
length then, and the reader goes on as if it had been asked for that key alone. So requests that
fail and find no key may be struck out of any run. -/
theorem failures_leave_no_trace (r : FileReader) :
    (∀ event f r', r.meet event = (.error f, r') →
      r'.file = r.file ∧ r'.columns = r.columns ∧ r'.columnsClosed = r.columnsClosed ∧
      r'.phase = r.phase ∧
      ((∀ key, ¬ r.FindsSigningKey event key) →
        r' = r ∧ ∀ later, r'.replies later = r.replies later) ∧
      ∀ key, r.FindsSigningKey event key → ∃ footer bytes metadata answer,
        event = .asked (.verifyFooter footer (some bytes) metadata) answer ∧ bytes.length = 28 ∧
        r.signingKey = none ∧ r' = { r with signingKey := some key } ∧
        r.meet (.asked (.footerSigningKey metadata) answer) = (.ok (.signingKey (some key)), r')) ∧
    ∀ events, r.after (r.effective events) = r.after events ∧
      (r.replies (r.effective events)).filter Except.isOk =
        (r.replies events).filter Except.isOk := by
  refine ⟨fun event f r' hmeet => ?_, fun events => ⟨after_effective r events,
    replies_effective r events⟩⟩
  have hfails : (r.meet event).1 = .error f := by rw [hmeet]
  obtain rfl : (r.meet event).2 = r' := by rw [hmeet]
  by_cases hfinds : ∃ key, r.FindsSigningKey event key
  · obtain ⟨key, hkey⟩ := hfinds
    obtain ⟨-, -, -, -, -, -, -, hfound, -⟩ := meet_of_findsSigningKey hkey
    have hfile : (r.meet event).2.file = r.file := by rw [hfound]
    have hcolumns : (r.meet event).2.columns = r.columns := by rw [hfound]
    have hclosed : (r.meet event).2.columnsClosed = r.columnsClosed := by rw [hfound]
    refine ⟨hfile, hcolumns, hclosed, phase_congr hfile hcolumns hclosed,
      fun hnot => absurd hkey (hnot key), fun key' hkey' => ?_⟩
    obtain ⟨footer, bytes, metadata, answer, hevent, hlength, hnone, hfound', hasked⟩ :=
      meet_of_findsSigningKey hkey'
    exact ⟨footer, bytes, metadata, answer, hevent, hlength, hnone, hfound', hfound' ▸ hasked⟩
  · have hnot := not_exists.mp hfinds
    have hsame := meet_failure hfails hnot
    rw [hsame]
    exact ⟨rfl, rfl, rfl, rfl, fun _ => ⟨rfl, fun _ => rfl⟩, fun key hkey => absurd hkey (hnot key)⟩

namespace Sample

/-- Settings without keys, by which retrievers are asked and signatures checked. -/
def retrieverOnly : ReadSettings :=
  { footerKey := none
    footerSigningKey := none
    columnKeys := .empty
    retriever := some ⟨0⟩
    aadPrefix := none
    prefixLookup := none
    checkFooterIntegrity := true }

/-- A retriever that gives the same key for all metadata. -/
def generous : RetrieverRef → Bytes → KeyAnswer := fun _ _ => .ok Sample.key.bytes

/-- A reader of a file with a readable footer. -/
def verifier : FileReader :=
  serve nobody (start retrieverOnly) [.setFile { heading with encryptedFooter := false }]

/-- A verification of a signature that is wrong, by a retriever's key. -/
def mismatching : ReaderEvent :=
  .asked (.verifyFooter [] (some (List.replicate 28 0)) (some [7])) generous

/-- A registration by which a retriever is asked and fails. -/
def unanswered : ReaderEvent := .asked (.registerColumn ⟨⟨["a"]⟩, true, false, some [7], 0⟩) nobody

end Sample

open Sample in
/-- A registration that fails changes nothing; a verification that fails keeps the key that the
retriever gave. -/
theorem failures_leave_no_trace_verifier :
    (verifier.meet unanswered).1.isOk = false ∧ (verifier.meet unanswered).2 = verifier ∧
      (verifier.meet mismatching).1.isOk = false ∧ verifier.FindsSigningKey mismatching Sample.key ∧
      (verifier.meet mismatching).2 = { verifier with signingKey := some Sample.key } := by
  have hunanswered : (verifier.meet unanswered).1.isOk = false := by decide +kernel
  have hmismatching : (verifier.meet mismatching).1.isOk = false := by decide +kernel
  have hfinds : verifier.FindsSigningKey mismatching Sample.key := .verifying rfl rfl
  have hnone : ∀ key, ¬ verifier.FindsSigningKey unanswered key := by
    generalize verifier = r
    exact fun _ hkey => nomatch hkey
  obtain ⟨f, hfails⟩ := eq_error_of_isOk_eq_false hunanswered
  obtain ⟨f', hfails'⟩ := eq_error_of_isOk_eq_false hmismatching
  obtain ⟨hleaves, -⟩ := failures_leave_no_trace verifier
  obtain ⟨-, -, -, -, hsame, -⟩ := hleaves unanswered f _ hfails
  obtain ⟨-, -, -, -, -, hkeeps⟩ := hleaves mismatching f' _ hfails'
  obtain ⟨-, -, -, -, -, -, -, hkept, -⟩ := hkeeps Sample.key hfinds
  exact ⟨hunanswered, (hsame hnone).1, hmismatching, hfinds, hkept⟩

end FileReader

end ModularEncryption
