import ModularEncryption.Proofs.File.Layout
import ModularEncryption.Proofs.Read.Hidden
import ModularEncryption.Proofs.Read.WriteOnce
import ModularEncryption.Proofs.Succeeds
import ModularEncryption.Write.File

/-! # Signatures are accepted exactly where they are right

A signature is right for a footer under a key if it has the length of signatures and ends with the
tag that the footer has under the nonce in front (`Signature.Signs`). There is one such signature
for each nonce (`Signature.signs_iff`), and signing makes one (`Signature.succeeds_sign`).

A reader that checks signatures accepts exactly those that are right under the key it knows or finds
(`FileReader.VerifyOutcome`). It looks at a signature's length before it asks for the key, and at
the tag last, so what is wrong first is what it says. What a writer signs is accepted by all readers
that have the writer's key and prefix, whatever else they are asked (`ReadersAccept`), because what
the verdict depends on is recorded and stays. -/

namespace ModularEncryption

variable {σ : Type}

namespace Signature

variable {key : AesKey} {aad footer signature : Bytes}

/-- The bytes are the signature of a footer under a key and the nonce in front. -/
structure Signs (key : AesKey) (aad footer signature : Bytes) : Prop where
  length_eq : signature.length = 28
  tag_eq : ∀ nonce : Nonce, nonce.bytes = signature.take 12 →
    signature.drop 12 = (Gcm.encrypt key.encipher nonce aad footer).2

/-- The signature of a footer under a nonce. -/
def of (key : AesKey) (nonce : Nonce) (aad footer : Bytes) : Bytes :=
  nonce.bytes ++ (Gcm.encrypt key.encipher nonce aad footer).2

theorem length_encrypt_snd (nonce : Nonce) (aad footer : Bytes) :
    (Gcm.encrypt key.encipher nonce aad footer).2.length = 16 := Gcm.length_tag ..

theorem signs_of (key : AesKey) (nonce : Nonce) (aad footer : Bytes) :
    Signs key aad footer (of key nonce aad footer) where
  length_eq := by rw [of, List.length_append, nonce.length_eq, length_encrypt_snd]
  tag_eq nonce' h := by
    rw [of, List.take_left' nonce.length_eq] at h
    rw [Nonce.bytes_injective h, of, List.drop_left' nonce.length_eq]

/-- **For each nonce there is one signature.** -/
theorem signs_iff : Signs key aad footer signature ↔
    ∃ nonce, signature.take 12 = nonce.bytes ∧ signature = of key nonce aad footer := by
  constructor
  · intro h
    have hfront : (signature.take 12).length = 12 := by
      rw [List.length_take, h.length_eq]
      rfl
    refine ⟨⟨signature.take 12, hfront⟩, rfl, ?_⟩
    rw [of, ← h.tag_eq ⟨signature.take 12, hfront⟩ rfl, List.take_append_drop]
  · rintro ⟨nonce, -, rfl⟩
    exact signs_of key nonce aad footer

theorem eq_of_signs (h : Signs key aad footer signature) {nonce : Nonce}
    (hnonce : signature.take 12 = nonce.bytes) : signature = of key nonce aad footer := by
  obtain ⟨nonce', hnonce', hsignature⟩ := signs_iff.mp h
  rwa [← Nonce.bytes_injective (hnonce'.symm.trans hnonce)]

theorem tag_of_admitted (h : Admitted .gcm footer) (nonce : Nonce) :
    tag key nonce aad footer = .ok (Gcm.encrypt key.encipher nonce aad footer).2 :=
  if_neg (Nat.not_lt.mpr h)

/-- A signature of the right length matches exactly if it is right. -/
theorem matches?_of_admitted (h : Admitted .gcm footer) (hlength : signature.length = 28)
    (key : AesKey) (aad : Bytes) :
    ∃ matched, matches? key aad footer signature = .ok matched ∧
      (matched = true ↔ Signs key aad footer signature) := by
  have hfront : (Nonce.ofFront signature).bytes = signature.take 12 :=
    Nonce.bytes_ofFront (by rw [hlength]; decide)
  refine ⟨(Gcm.encrypt key.encipher (Nonce.ofFront signature) aad footer).2 ==
    signature.drop Nonce.length, ?_, ?_⟩
  · unfold matches?
    rw [tag_of_admitted h]
    rfl
  · rw [beq_iff_eq]
    constructor
    · intro htag
      refine ⟨hlength, fun nonce hnonce => ?_⟩
      rw [Nonce.bytes_injective (hnonce.trans hfront.symm)]
      exact htag.symm
    · exact fun hsigns => (hsigns.tag_eq _ hfront).symm

/-- **Signing makes a signature that is right.** -/
theorem succeeds_sign (h : Admitted .gcm footer) (key : AesKey) (aad : Bytes) (e : Entropy) :
    Succeeds (sign key aad footer) e fun signature _ => Signs key aad footer signature := by
  have hnonce : Entropy.drawNonce e = (.ok ⟨e.next Nonce.length, _⟩, e.skip Nonce.length) := rfl
  refine Succeeds.run_bind hnonce ?_
  exact Succeeds.lift_bind (tag_of_admitted h _) (Succeeds.pure (signs_of key _ aad footer))

end Signature

/-- A source finds one key only. -/
theorem ReadSettings.FindsKey.unique {answer : Answering σ} {s : ReadSettings}
    {given : Option AesKey} {metadata : Option Bytes} {world : σ} {key key' : AesKey}
    (h : s.FindsKey answer given metadata world key)
    (h' : s.FindsKey answer given metadata world key') : key = key' := by
  rcases h with hgiven | ⟨hgiven, hretriever, rfl, hanswer⟩ <;>
    rcases h' with hgiven' | ⟨hgiven', hretriever', hmetadata', hanswer'⟩
  · exact Option.some.inj (hgiven.symm.trans hgiven')
  · cases hgiven.symm.trans hgiven'
  · cases hgiven.symm.trans hgiven'
  · obtain rfl := Option.some.inj (hretriever.symm.trans hretriever')
    obtain rfl := Option.some.inj hmetadata'
    have hbytes := Except.ok.inj (hanswer.symm.trans hanswer')
    cases key
    cases key'
    cases hbytes
    rfl

open ReadSettings Signature

namespace FileReader

variable {r : FileReader} {facts : FileFacts} {footer bytes : Bytes}
  {signature metadata : Option Bytes} {answer : Answering σ} {world : σ} {key : AesKey}

/-- The outcome of verifying a footer, if retrievers answer in a state. -/
def verification (r : FileReader) (footer : Bytes) (signature metadata : Option Bytes)
    (answer : Answering σ) (world : σ) : Except Failure Unit × FileReader :=
  ((r.verifyFooter footer signature metadata).runWith answer world).1

/-- A signature is present and has the length of signatures. -/
def WellShaped (signature : Option Bytes) (bytes : Bytes) : Prop :=
  signature = some bytes ∧ bytes.length = 28

/-! ### Verdicts on tags -/

theorem checkTag_none (facts : FileFacts) (footer bytes : Bytes) :
    ∃ e, checkTag facts footer bytes none = .error e ∧ e.kind = .missingKey := ⟨_, rfl, rfl⟩

/-- With a key at hand, only the signatures that are right pass. -/
theorem checkTag_some (h : Admitted .gcm footer) (hlength : bytes.length = 28)
    (facts : FileFacts) (key : AesKey) :
    (Signs key (ModuleKind.footerAad facts.fileAad) footer bytes →
      checkTag facts footer bytes (some key) = .ok ()) ∧
    (¬ Signs key (ModuleKind.footerAad facts.fileAad) footer bytes →
      ∃ e, checkTag facts footer bytes (some key) = .error e ∧ e.kind = .integrityFailure) := by
  obtain ⟨matched, hmatched, hiff⟩ := matches?_of_admitted h hlength key
    (ModuleKind.footerAad facts.fileAad)
  unfold checkTag
  simp only [hmatched, bind, Except.bind]
  constructor
  · intro hsigns
    rw [if_pos (hiff.mpr hsigns)]
    rfl
  · intro hsigns
    rw [if_neg fun htrue => hsigns (hiff.mp htrue)]
    exact ⟨_, rfl, rfl⟩

/-! ### What verifying comes to -/

/-- What verifying a footer comes to for a reader that checks signatures: the signature is accepted
exactly if it is right under the key that the reader knows or finds. What is refused is refused for
the first thing that is wrong: the shape of the signature, which is looked at without asking for the
key, then the key, then the tag. A key that was found is kept in either case. -/
structure VerifyOutcome (r : FileReader) (facts : FileFacts) (footer : Bytes)
    (signature metadata : Option Bytes) (answer : Answering σ) (world : σ) : Prop where
  accepts_iff : (r.verification footer signature metadata answer world).1 = .ok () ↔
    ∃ bytes key, signature = some bytes ∧
      FindsKey answer r.settings r.signingKey metadata world key ∧
      Signs key (ModuleKind.footerAad facts.fileAad) footer bytes
  misshapen : (∀ bytes, ¬ WellShaped signature bytes) →
    ∃ e, r.verifyFooter footer signature metadata = .done (.error (.error e), r) ∧
      e.kind = .integrityFailure
  lacks : ∀ bytes, WellShaped signature bytes →
    LacksKey answer r.settings r.signingKey metadata world →
    ∃ e, r.verification footer signature metadata answer world = (.error (.error e), r) ∧
      e.kind = .missingKey
  fails : ∀ bytes kind, WellShaped signature bytes →
    FailsWith answer r.settings r.signingKey metadata world kind →
    ∃ e, r.verification footer signature metadata answer world = (.error (.error e), r) ∧
      e.kind = kind
  overflows : ∀ bytes, WellShaped signature bytes →
    Overflows answer r.settings r.signingKey metadata world →
    r.verification footer signature metadata answer world = (.error .clockOverflow, r)
  mismatch : ∀ bytes key, WellShaped signature bytes →
    FindsKey answer r.settings r.signingKey metadata world key →
    ¬ Signs key (ModuleKind.footerAad facts.fileAad) footer bytes →
    ∃ e, (r.verification footer signature metadata answer world).1 = .error (.error e) ∧
      e.kind = .integrityFailure
  keeps : ∀ bytes key, WellShaped signature bytes →
    FindsKey answer r.settings r.signingKey metadata world key →
    (r.verification footer signature metadata answer world).2 = { r with signingKey := some key }

section Verifying

variable (hfile : r.file = some facts) (hplain : facts.encryptedFooter = false)
include hfile hplain

/-- A reader that does not check signatures accepts whatever stands there. -/
theorem verifyFooter_of_unchecked (h : r.settings.checkFooterIntegrity = false) :
    r.verifyFooter footer signature metadata = .done (.ok (), r) := by
  unfold verifyFooter
  simp only [facts_eq_ok_iff.mpr hfile, hplain, h, Bool.not_false, Bool.false_eq_true, if_false,
    if_true]

variable (hcheck : r.settings.checkFooterIntegrity = true)
include hcheck

theorem verifyFooter_of_misshapen (h : ∀ bytes, ¬ WellShaped signature bytes) (footer : Bytes)
    (metadata : Option Bytes) :
    ∃ e, r.verifyFooter footer signature metadata = .done (.error (.error e), r) ∧
      e.kind = .integrityFailure := by
  unfold verifyFooter
  simp only [facts_eq_ok_iff.mpr hfile, hplain, hcheck, Bool.not_true, Bool.false_eq_true,
    if_false]
  cases signature with
  | none => exact ⟨_, rfl, rfl⟩
  | some bytes =>
    have hlength : bytes.length ≠ Signature.length := fun hlength => h bytes ⟨rfl, hlength⟩
    simp only [checkSignature, if_pos hlength]
    exact ⟨_, rfl, rfl⟩

/-- The verdict on a well-shaped signature is that on its tag, under the key that is found. -/
theorem verification_of_wellShaped (hshape : WellShaped signature bytes)
    {result : Except Failure (Option AesKey)} {r' : FileReader}
    (hkey : ((r.footerSigningKey metadata).runWith answer world).1 = (result, r')) :
    r.verification footer signature metadata answer world =
      (result.bind fun key => (checkTag facts footer bytes key).mapError .error, r') := by
  obtain ⟨rfl, hlength⟩ := hshape
  have hright : ¬ bytes.length ≠ Signature.length := not_not.mpr hlength
  unfold verification verifyFooter
  simp only [facts_eq_ok_iff.mpr hfile, hplain, hcheck, Bool.not_true, Bool.false_eq_true,
    if_false, checkSignature, if_neg hright, Asking.runWith_map, hkey]
  cases result <;> rfl

theorem verification_of_lacksKey (hshape : WellShaped signature bytes)
    (h : LacksKey answer r.settings r.signingKey metadata world) (footer : Bytes) :
    ∃ e, r.verification footer signature metadata answer world = (.error (.error e), r) ∧
      e.kind = .missingKey := by
  have hnone : r.signingKey = none := by
    rcases h with ⟨h, -⟩ | ⟨h, -⟩ | ⟨h, -⟩ <;> exact h
  rw [hnone] at h
  rw [verification_of_wellShaped hfile hplain hcheck hshape (footerSigningKey_of_lacksKey hnone h)]
  obtain ⟨e, he, hkind⟩ := checkTag_none facts footer bytes
  exact ⟨e, by simp only [Except.bind, he, Except.mapError], hkind⟩

theorem verification_of_failsWith {kind : ErrorKind} (hshape : WellShaped signature bytes)
    (h : FailsWith answer r.settings r.signingKey metadata world kind) (footer : Bytes) :
    ∃ e, r.verification footer signature metadata answer world = (.error (.error e), r) ∧
      e.kind = kind := by
  have hnone : r.signingKey = none := by cases h <;> assumption
  rw [hnone] at h
  obtain ⟨e, he, hkind⟩ := footerSigningKey_of_failsWith hnone h
  rw [verification_of_wellShaped hfile hplain hcheck hshape he]
  exact ⟨e, rfl, hkind⟩

theorem verification_of_overflows (hshape : WellShaped signature bytes)
    (h : Overflows answer r.settings r.signingKey metadata world) :
    r.verification footer signature metadata answer world = (.error .clockOverflow, r) := by
  have hnone : r.signingKey = none := by cases h; assumption
  rw [hnone] at h
  rw [verification_of_wellShaped hfile hplain hcheck hshape (footerSigningKey_of_overflows hnone h)]
  rfl

/-- A key that is known or found decides, and is kept. -/
theorem verification_of_findsKey (hshape : WellShaped signature bytes)
    (h : FindsKey answer r.settings r.signingKey metadata world key) :
    r.verification footer signature metadata answer world =
      ((checkTag facts footer bytes (some key)).mapError .error,
        { r with signingKey := some key }) := by
  have hkey : ((r.footerSigningKey metadata).runWith answer world).1 =
      (.ok (some key), { r with signingKey := some key }) := by
    cases hknown : r.signingKey with
    | none =>
      rw [hknown] at h
      exact footerSigningKey_of_findsKey hknown h
    | some known =>
      -- no retriever is asked, and keeping the key once more changes nothing
      rw [hknown] at h
      rcases h with hsame | ⟨hnone, -⟩
      · obtain rfl := Option.some.inj hsame
        have hkeep : { r with signingKey := some known } = r := by rw [← hknown]
        rw [footerSigningKey, hknown, Asking.runWith_done, hkeep]
      · cases hnone
  rw [verification_of_wellShaped hfile hplain hcheck hshape hkey]
  rfl

theorem wellShaped_of_accepted
    (haccepted : (r.verification footer signature metadata answer world).1 = .ok ()) :
    ∃ bytes, WellShaped signature bytes := by
  by_contra hshape
  obtain ⟨e, he, -⟩ := verifyFooter_of_misshapen hfile hplain hcheck (not_exists.mp hshape) footer
    metadata
  rw [verification, he] at haccepted
  cases haccepted

theorem findsKey_of_accepted (hshape : WellShaped signature bytes)
    (haccepted : (r.verification footer signature metadata answer world).1 = .ok ()) :
    ∃ key, FindsKey answer r.settings r.signingKey metadata world key := by
  rcases source_cases answer r.settings r.signingKey metadata world with
    hlacks | hfinds | ⟨kind, hfails⟩ | hover
  · obtain ⟨e, he, -⟩ := verification_of_lacksKey hfile hplain hcheck hshape hlacks footer
    rw [he] at haccepted
    cases haccepted
  · exact hfinds
  · obtain ⟨e, he, -⟩ := verification_of_failsWith hfile hplain hcheck hshape hfails footer
    rw [he] at haccepted
    cases haccepted
  · rw [verification_of_overflows hfile hplain hcheck hshape hover] at haccepted
    cases haccepted

/-- **A reader that checks signatures** accepts those that are right. -/
theorem verifyOutcome (h : Admitted .gcm footer) (signature metadata : Option Bytes)
    (answer : Answering σ) (world : σ) :
    r.VerifyOutcome facts footer signature metadata answer world where
  accepts_iff := by
    constructor
    · intro haccepted
      obtain ⟨bytes, hshape⟩ := wellShaped_of_accepted hfile hplain hcheck haccepted
      obtain ⟨key, hfinds⟩ := findsKey_of_accepted hfile hplain hcheck hshape haccepted
      refine ⟨bytes, key, hshape.1, hfinds, by_contra fun hsigns => ?_⟩
      obtain ⟨e, he, -⟩ := (checkTag_some h hshape.2 facts key).2 hsigns
      rw [verification_of_findsKey hfile hplain hcheck hshape hfinds, he] at haccepted
      cases haccepted
    · rintro ⟨bytes, key, rfl, hfinds, hsigns⟩
      rw [verification_of_findsKey hfile hplain hcheck ⟨rfl, hsigns.length_eq⟩ hfinds,
        (checkTag_some h hsigns.length_eq facts key).1 hsigns]
      rfl
  misshapen hshape := verifyFooter_of_misshapen hfile hplain hcheck hshape footer metadata
  lacks _ hshape hlacks := verification_of_lacksKey hfile hplain hcheck hshape hlacks footer
  fails _ _ hshape hfails := verification_of_failsWith hfile hplain hcheck hshape hfails footer
  overflows _ hshape hover := verification_of_overflows hfile hplain hcheck hshape hover
  mismatch bytes key hshape hfinds hsigns := by
    obtain ⟨e, he, hkind⟩ := (checkTag_some h hshape.2 facts key).2 hsigns
    rw [verification_of_findsKey hfile hplain hcheck hshape hfinds, he]
    exact ⟨e, rfl, hkind⟩
  keeps _ _ hshape hfinds := by
    rw [verification_of_findsKey hfile hplain hcheck hshape hfinds]

/-- **For each nonce one signature is accepted.** -/
theorem existsUnique_accepted (h : Admitted .gcm footer)
    (hfinds : FindsKey answer r.settings r.signingKey metadata world key) (nonce : Nonce) :
    ∃! bytes, bytes.take 12 = nonce.bytes ∧
      (r.verification footer (some bytes) metadata answer world).1 = .ok () := by
  have haccepts : ∀ bytes, (r.verification footer (some bytes) metadata answer world).1 = .ok () ↔
      Signs key (ModuleKind.footerAad facts.fileAad) footer bytes := by
    intro bytes
    rw [(verifyOutcome hfile hplain hcheck h (some bytes) metadata answer world).accepts_iff]
    constructor
    · rintro ⟨bytes', key', hbytes, hfinds', hsigns⟩
      cases hbytes
      rwa [hfinds.unique hfinds']
    · exact fun hsigns => ⟨bytes, key, rfl, hfinds, hsigns⟩
  refine ⟨Signature.of key nonce (ModuleKind.footerAad facts.fileAad) footer, ⟨?_, ?_⟩, ?_⟩
  · exact List.take_left' nonce.length_eq
  · exact (haccepts _).mpr (signs_of ..)
  · rintro bytes ⟨hnonce, haccepted⟩
    exact eq_of_signs ((haccepts bytes).mp haccepted) hnonce

end Verifying

/-! ### What writers sign -/

/-- A file with a readable footer is recorded with the additional data of the settings that it was
written with, if the writer's prefix is found. -/
theorem setFile_of_findsPrefix {ws : WriteSettings} (hfile : r.file = none)
    (h : r.settings.FindsPrefix ws.algorithm.aadMetadata (ws.aadPrefix.getD []))
    (metadata : Option Bytes) :
    ∃ footerKey, r.setFile ws.algorithm false metadata = .done (.ok (),
      { r with file := some ⟨ws.algorithm, false, footerKey, ws.fileAad⟩ }) := by
  refine ⟨r.settings.footerKey, ?_⟩
  have hprefix := resolvePrefix_of_findsPrefix h
  unfold setFile resolveFooterKey
  rw [hfile]
  cases r.settings.footerKey <;> simp only [Bool.not_false, if_true, Asking.map, hprefix] <;> rfl

/-- A signature is accepted by every reader, whatever it was asked before and is asked afterwards,
that finds the writer's prefix when it is told about the file, and that was given the key or finds
it when it verifies the footer. -/
def ReadersAccept (ws : WriteSettings) (key : AesKey) (footer bytes : Bytes) : Prop :=
  ∀ s r, Leads (start s) r → r.file = none →
    r.settings.FindsPrefix ws.algorithm.aadMetadata (ws.aadPrefix.getD []) →
    ∀ footerKeyMetadata, ∃ told,
      r.setFile ws.algorithm false footerKeyMetadata = .done (.ok (), told) ∧
      ∀ later, Leads told later → ∀ {σ : Type} (answer : Answering σ) metadata world,
        (s.footerSigningKey = some key ∨
          FindsKey answer later.settings later.signingKey metadata world key) →
        (later.verification footer (some bytes) metadata answer world).1 = .ok ()

/-- **Right signatures are accepted by all readers of the file.** -/
theorem readersAccept_of_signs {ws : WriteSettings} (h : Admitted .gcm footer)
    (hsigns : Signs key (ModuleKind.footerAad ws.fileAad) footer bytes) :
    ReadersAccept ws key footer bytes := by
  intro s r hleads hfile hprefix footerKeyMetadata
  obtain ⟨footerKey, htold⟩ := setFile_of_findsPrefix hfile hprefix footerKeyMetadata
  refine ⟨_, htold, fun later hlater σ answer metadata world hkey => ?_⟩
  have hyields : (r.perform (.setFile ⟨ws.algorithm, false, footerKeyMetadata⟩)).MayYield
      (.ok .done, { r with file := some ⟨ws.algorithm, false, footerKey, ws.fileAad⟩ }) := by
    simp only [perform, htold]
    rfl
  have htold' := hleads.tail (.perform hyields)
  -- the additional data were fixed when the reader was told, and a key that was given stays
  have hrecorded := (leads_remembers ((sound_start s).leads htold') hlater).file _ rfl
  have hfinds : FindsKey answer later.settings later.signingKey metadata world key := by
    rcases hkey with hgiven | hfinds
    · have hstays := (leads_remembers (sound_start s) (htold'.trans hlater)).signingKey key hgiven
      exact .given hstays
    · exact hfinds
  cases hcheck : later.settings.checkFooterIntegrity with
  | false => rw [verification, verifyFooter_of_unchecked hrecorded rfl hcheck]; rfl
  | true =>
    exact (verifyOutcome hrecorded rfl hcheck h (some bytes) metadata answer world).accepts_iff.mpr
      ⟨bytes, key, rfl, hfinds, hsigns⟩

theorem succeeds_signFooter {w : FileWriter} (h : Admitted .gcm footer) {metadata : Option Bytes}
    (hw : w.settings.footer = .plaintext (some key) metadata) (e : Entropy) :
    Succeeds (w.signFooter footer) e fun bytes _ =>
      Signs key (ModuleKind.footerAad w.settings.fileAad) footer bytes := by
  unfold FileWriter.signFooter
  rw [hw]
  exact succeeds_sign h key _ e

/-- **Signatures are accepted exactly where they are right.** A reader that does not check them
accepts anything; one that does accepts what is right under the key it knows or finds, one signature
for each nonce, and says of any other what is wrong with it first. What a writer signs is accepted
by all readers that have its key and its prefix. -/
theorem verifyFooter_exact (h : Admitted .gcm footer) :
    (∀ (r : FileReader) facts, r.file = some facts → facts.encryptedFooter = false →
      (r.settings.checkFooterIntegrity = false → ∀ signature metadata,
        r.verifyFooter footer signature metadata = .done (.ok (), r)) ∧
      (r.settings.checkFooterIntegrity = true →
        ∀ {σ : Type} (answer : Answering σ) metadata world,
          (∀ signature, r.VerifyOutcome facts footer signature metadata answer world) ∧
          ∀ key, FindsKey answer r.settings r.signingKey metadata world key → ∀ nonce : Nonce,
            ∃! bytes, bytes.take 12 = nonce.bytes ∧
              (r.verification footer (some bytes) metadata answer world).1 = .ok ())) ∧
    (∀ (w : FileWriter) key metadata, w.settings.footer = .plaintext (some key) metadata → ∀ e,
      Succeeds (w.signFooter footer) e fun bytes _ =>
        bytes.length = 28 ∧ ReadersAccept w.settings key footer bytes) := by
  refine ⟨fun r facts hfile hplain => ⟨fun hcheck signature metadata => ?_,
    fun hcheck σ answer metadata world => ⟨fun signature => ?_, fun key hfinds nonce => ?_⟩⟩,
    fun w key metadata hw e => ?_⟩
  · exact verifyFooter_of_unchecked hfile hplain hcheck
  · exact verifyOutcome hfile hplain hcheck h signature metadata answer world
  · exact existsUnique_accepted hfile hplain hcheck h hfinds nonce
  · exact (succeeds_signFooter h hw e).mono fun bytes _ hsigns =>
      ⟨hsigns.length_eq, readersAccept_of_signs h hsigns⟩

namespace Sample

/-- A writer that leaves the footer readable, signs it and encrypts one column. -/
def signer : FileWriter :=
  .start { algorithm := heading.algorithm
           footer := .plaintext (some Sample.key) none
           aadPrefix := none
           columns := .ofList [(own.path, ⟨own.path, .ownKey ownKey none⟩)]
           encryptTheRest := false }

/-- Random bytes that are all zero. -/
def zeros : Entropy := ⟨fun _ => 0, 0⟩

/-- A short footer. -/
def shortFooter : Bytes := [1, 2, 3]

/-- Retrievers that know nothing, in a state. -/
def nobodyAnswers : Answering Unit := fun _ _ => pure (.error .clockOverflow)

end Sample

open Sample in
/-- A footer that is signed and verified by a reader that was given the key; without the signature
it is refused. -/
theorem verifyFooter_exact_signed :
    Admitted .gcm shortFooter ∧
      ∃ bytes e told, (signer.signFooter shortFooter zeros).1 = .ok bytes ∧
        (start keys).setFile signer.settings.algorithm false none = .done (.ok (), told) ∧
        (told.verification shortFooter (some bytes) none nobodyAnswers ()).1 = .ok () ∧
        told.verifyFooter shortFooter none none = .done (.error (.error e), told) ∧
        e.kind = .integrityFailure := by
  have hfits : Admitted .gcm shortFooter := by
    show 12 + 3 + 16 ≤ maxFrameLength
    decide
  obtain ⟨hverify, hsign⟩ := verifyFooter_exact hfits
  obtain ⟨bytes, e', hsigned, -, haccept⟩ := hsign signer Sample.key none rfl zeros
  obtain ⟨told, htold, hlater⟩ := haccept keys (start keys) .refl rfl (.absent rfl (.inl rfl)) none
  have haccepted := hlater told .refl nobodyAnswers none () (.inl rfl)
  have hfile : told.file = some ⟨heading.algorithm, false, some Sample.key, [1, 2, 3]⟩ := by
    cases htold
    rfl
  have hcheck : told.settings.checkFooterIntegrity = true := by
    cases htold
    rfl
  obtain ⟨-, hchecked⟩ := hverify told _ hfile rfl
  obtain ⟨e, he, hkind⟩ := ((hchecked hcheck nobodyAnswers none ()).1 none).misshapen
    fun bytes hshape => by cases hshape.1
  exact ⟨hfits, bytes, e, told, congrArg Prod.fst hsigned, htold, haccepted, he, hkind⟩

end FileReader

end ModularEncryption
