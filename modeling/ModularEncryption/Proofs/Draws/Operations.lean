import ModularEncryption.Proofs.Keys.Generation
import ModularEncryption.Proofs.Write.Acceptance
import ModularEncryption.Write.File

/-! # What operations draw

An operation that draws random bytes writes them into what it hands out: the nonce of a frame or a
signature, the bytes of a key, those that make a file unique. `Drawing.Draws` says of an operation
how many bytes it draws, one draw after the other, and where they are found again. If it succeeds,
the parts that it hands out are the next bytes of the stream (`Entropy.Gives`); if it fails, it has
made the first few of its draws, and what they gave is skipped. -/

namespace ModularEncryption

namespace Entropy

/-- Parts that are the next bytes of a stream, one after the other, up to a later state of it. -/
def Gives (e : Entropy) : List Bytes → Entropy → Prop
  | [], e' => e' = e
  | part :: parts, e' => part = e.next part.length ∧ (e.skip part.length).Gives parts e'

theorem skip_skip (e : Entropy) (m n : Nat) : (e.skip m).skip n = e.skip (m + n) := by
  simp only [skip, Nat.add_assoc]

theorem gives_singleton (e : Entropy) (n : Nat) : e.Gives [e.next n] (e.skip n) := by
  refine ⟨?_, ?_⟩
  · rw [length_next]
  · rw [length_next, Gives]

/-- A stream after draws whose bytes are thrown away. -/
def skipAll (e : Entropy) (draws : List Nat) : Entropy := draws.foldl skip e

theorem exists_skipAll_eq (e : Entropy) (draws : List Nat) : ∃ n, e.skipAll draws = e.skip n := by
  induction draws generalizing e with
  | nil => exact ⟨0, rfl⟩
  | cons first draws ih =>
    obtain ⟨n, hn⟩ := ih (e.skip first)
    exact ⟨first + n, hn.trans (e.skip_skip first n)⟩

end Entropy

/-- **What an operation draws**: the numbers of bytes, one draw after the other, which are the parts
of what it hands out. -/
structure Drawing.Draws {α : Type} (x : Drawing α) (draws : List Nat)
    (parts : α → List Bytes) : Prop where
  ok : ∀ {e e' : Entropy} {a : α}, x e = (.ok a, e') →
    (parts a).map List.length = draws ∧ e.Gives (parts a) e'
  /-- An operation that fails has made the first few of its draws. -/
  error : ∀ {e e' : Entropy} {error : Error}, x e = (.error error, e') →
    ∃ k, e' = e.skipAll (draws.take k)

theorem Drawing.draws_throw {α : Type} (error : Error) (draws : List Nat)
    (parts : α → List Bytes) : Drawing.Draws (throw error : Drawing α) draws parts where
  ok h := by cases h
  error h := by
    cases h
    exact ⟨0, rfl⟩

/-! ### Frames and signatures -/

/-- The nonce in a frame. -/
def frameNonce (frame : Bytes) : Bytes := (frame.drop sizeLength).take Nonce.length

namespace FrameCipher

theorem encrypt_apply (c : FrameCipher) (aad text : Bytes) (e : Entropy) :
    c.encrypt aad text e =
      (c.encryptWith ⟨e.next Nonce.length, e.length_next _⟩ aad text, e.skip Nonce.length) := rfl

theorem draws_encrypt (c : FrameCipher) (aad text : Bytes) :
    (c.encrypt aad text).Draws [Nonce.length] fun frame => [frameNonce frame] where
  ok {e e' frame} h := by
    rw [encrypt_apply] at h
    obtain ⟨hframe, rfl⟩ := Prod.mk.inj h
    have hnonce : frameNonce frame = e.next Nonce.length := nonce_of_encryptWith hframe
    rw [hnonce]
    exact ⟨by simp, e.gives_singleton _⟩
  error {e e' error} h := by
    rw [encrypt_apply] at h
    obtain ⟨-, rfl⟩ := Prod.mk.inj h
    exact ⟨1, rfl⟩

end FrameCipher

namespace Signature

theorem sign_apply (key : AesKey) (aad footer : Bytes) (e : Entropy) :
    sign key aad footer e =
      match tag key ⟨e.next Nonce.length, e.length_next _⟩ aad footer with
      | .ok t => (.ok (e.next Nonce.length ++ t), e.skip Nonce.length)
      | .error error => (.error error, e.skip Nonce.length) := by
  have hrun : sign key aad footer e =
      ((liftM (tag key ⟨e.next Nonce.length, e.length_next _⟩ aad footer) >>= fun t =>
        pure (e.next Nonce.length ++ t) : Drawing Bytes)) (e.skip Nonce.length) := rfl
  rw [hrun]
  cases tag key ⟨e.next Nonce.length, e.length_next _⟩ aad footer <;> rfl

theorem draws_sign (key : AesKey) (aad footer : Bytes) :
    (sign key aad footer).Draws [Nonce.length] fun signature =>
      [signature.take Nonce.length] where
  ok {e e' signature} h := by
    rw [sign_apply] at h
    cases htag : tag key ⟨e.next Nonce.length, e.length_next _⟩ aad footer with
    | error _ => rw [htag] at h; cases h
    | ok t =>
      rw [htag] at h
      cases h
      have hnonce : (e.next Nonce.length ++ t).take Nonce.length = e.next Nonce.length :=
        List.take_left' (e.length_next _)
      rw [hnonce]
      exact ⟨by simp, e.gives_singleton _⟩
  error {e e' error} h := by
    rw [sign_apply] at h
    cases htag : tag key ⟨e.next Nonce.length, e.length_next _⟩ aad footer with
    | ok _ => rw [htag] at h; cases h
    | error _ =>
      rw [htag] at h
      cases h
      exact ⟨1, rfl⟩

end Signature

namespace FileWriter

theorem signFooter_of_no_key {w : FileWriter} (h : w.settings.footerSigningKey? = none)
    (footer : Bytes) (e : Entropy) : ∃ error, w.signFooter footer e = (.error error, e) := by
  unfold WriteSettings.footerSigningKey? at h
  unfold signFooter
  cases hfooter : w.settings.footer with
  | encrypted _ _ => exact ⟨_, rfl⟩
  | plaintext key _ =>
    rw [hfooter] at h
    cases h
    exact ⟨_, rfl⟩

theorem signFooter_of_key {w : FileWriter} {key : AesKey}
    (h : w.settings.footerSigningKey? = some key) (footer : Bytes) :
    w.signFooter footer =
      Signature.sign key (ModuleKind.footerAad w.settings.fileAad) footer := by
  unfold WriteSettings.footerSigningKey? at h
  unfold signFooter
  cases hfooter : w.settings.footer with
  | encrypted _ _ => rw [hfooter] at h; cases h
  | plaintext key' _ =>
    rw [hfooter] at h
    cases h
    rfl

/-- The nonce of a footer that is too long to be signed is drawn nevertheless. -/
theorem signFooter_of_too_long {w : FileWriter} {key : AesKey}
    (h : w.settings.footerSigningKey? = some key) {footer : Bytes}
    (hlong : maxFrameLength < 28 + footer.length) (e : Entropy) :
    w.signFooter footer e =
      (.error { cause := .moduleTooLarge footer.length }, e.skip Nonce.length) := by
  have hstated : maxFrameLength < FrameCipher.statedLength ⟨.gcm, key⟩ footer.length := by
    simp only [FrameCipher.statedLength, Nonce.length, Mode.tagLength, Gcm.tagLength]
    omega
  rw [signFooter_of_key h, Signature.sign_apply, Signature.tag, if_pos hstated]

theorem signFooter_of_fits {w : FileWriter} {key : AesKey}
    (h : w.settings.footerSigningKey? = some key) {footer : Bytes}
    (hfits : 28 + footer.length ≤ maxFrameLength) (e : Entropy) :
    ∃ signature, w.signFooter footer e = (.ok signature, e.skip Nonce.length) := by
  have hstated : ¬ maxFrameLength < FrameCipher.statedLength ⟨.gcm, key⟩ footer.length := by
    simp only [FrameCipher.statedLength, Nonce.length, Mode.tagLength, Gcm.tagLength]
    omega
  rw [signFooter_of_key h, Signature.sign_apply, Signature.tag, if_neg hstated]
  exact ⟨_, rfl⟩

theorem draws_signFooter (w : FileWriter) (footer : Bytes) :
    (w.signFooter footer).Draws [Nonce.length] fun signature =>
      [signature.take Nonce.length] := by
  unfold signFooter
  cases w.settings.footer with
  | encrypted _ _ => exact Drawing.draws_throw ..
  | plaintext key _ =>
    cases key with
    | none => exact Drawing.draws_throw ..
    | some key => exact Signature.draws_sign key _ footer

end FileWriter

/-! ### Keys -/

theorem AesKey.draws_generate (length : Nat) :
    (generate length).Draws [length] fun key => [key.bytes] where
  ok {e e' key} h := by
    obtain ⟨hkey, rfl⟩ : ofBytes (e.next length) = .ok key ∧ e.skip length = e' := Prod.mk.inj h
    rw [ofBytes_eq_ok_iff.mp hkey]
    exact ⟨by simp, e.gives_singleton _⟩
  error {e e' error} h := by
    obtain ⟨-, rfl⟩ : _ ∧ e.skip length = e' := Prod.mk.inj h
    exact ⟨1, rfl⟩

theorem MasterKeys.draws_wrap (m : MasterKeys) (key : Bytes) (id : String) :
    (m.wrap key id).Draws [Nonce.length] fun frame => [frameNonce frame] := by
  unfold wrap
  cases m.cipher id with
  | error e => exact Drawing.draws_throw ..
  | ok c => exact c.draws_encrypt _ key

/-- Under a master key that it does not know a service wraps nothing. -/
theorem KeyService.wrapped_of_unknown {s : KeyService} {id : String}
    (h : Table.get? s.masterKeys id = none) (key : Bytes) (e : Entropy) :
    ∃ error, s.wrapped key id e = (.error error, e) := by
  unfold wrapped
  cases s.outage with
  | some error => exact ⟨error, rfl⟩
  | none =>
    unfold MasterKeys.wrap MasterKeys.cipher
    rw [h]
    exact ⟨_, rfl⟩

theorem KeyService.draws_wrapped (s : KeyService) (key : Bytes) (id : String) :
    (s.wrapped key id).Draws [Nonce.length] fun frame => [frameNonce frame] := by
  unfold wrapped
  cases s.outage with
  | some e => exact Drawing.draws_throw ..
  | none => exact s.masterKeys.draws_wrap key id

/-! ### Data keys -/

namespace KeyMaterial

/-- The wrapped key of which a text tells; it ends at the first colon. -/
def wrappedIn (text : String) : Bytes :=
  match Text.Base64.decode
    (Text.Utf8.encode (String.ofList (text.toList.span (· ≠ ':')).1)) with
  | .ok bytes => bytes
  | .error _ => []

theorem wrappedIn_serialize (m : KeyMaterial) : wrappedIn m.serialize = m.wrappedKey := by
  have hbytes : Text.Utf8.encode
      (String.ofList (asciiChars (Text.Base64.encode m.wrappedKey))) =
        Text.Base64.encode m.wrappedKey :=
    encode_asciiChars fun b hb => (Text.Base64.ascii_of_mem_encode hb).1
  unfold wrappedIn
  rw [span_serialize]
  simp only [hbytes, Text.Base64.decode_encode]

end KeyMaterial

namespace Custody

variable {c c' : Custody} {key : AesKey} {text masterKeyId : String} {dataKey : DataKey}

/-- The text that metadata lead to. -/
def text? (c : Custody) (metadata : Bytes) : Option String :=
  match Text.Utf8.decode metadata with
  | .error _ => none
  | .ok text =>
    match c.manager.placement with
    | .inMetadata _ => some text
    | .inStore fileId => c.store.materials.get? (fileId, text)

/-- The metadata of a key that is placed lead to the text that is placed. -/
theorem text?_of_place (h : c.place key text = (.ok dataKey, c')) :
    c'.text? dataKey.metadata = some text := by
  unfold place at h
  unfold text?
  cases hplacement : c.manager.placement with
  | inMetadata _ =>
    simp only [hplacement] at h
    cases h
    simp only [Text.Utf8.decode_encode, hplacement]
  | inStore fileId =>
    cases hput : c.store.put text fileId c.manager.nextName with
    | error e => simp only [hplacement, hput] at h; cases h
    | ok store =>
      obtain ⟨-, rfl⟩ := KeyStore.of_put hput
      simp only [hplacement, hput] at h
      cases h
      simp only [Text.Utf8.decode_encode, KeyStore.keep, Table.get?_insert_self]

/-- Placing a key draws nothing. -/
theorem entropy_place (c : Custody) (key : AesKey) (text : String) :
    (c.place key text).2.entropy = c.entropy := by
  unfold place
  cases c.manager.placement with
  | inMetadata _ => rfl
  | inStore fileId => cases hput : c.store.put text fileId c.manager.nextName <;> simp [hput]

/-- Whatever becomes of a generation, the key is drawn first, and the nonce only if the service gets
as far as encrypting the key. -/
theorem exists_entropy_generateKey (c : Custody) (masterKeyId : String) :
    ∃ k, (c.generateKey masterKeyId).2.entropy =
      c.entropy.skipAll ([c.manager.dataKeyLength, Nonce.length].take k) := by
  unfold generateKey
  cases hlocal : c.manager.wrapLocally with
  | true => exact ⟨0, rfl⟩
  | false =>
    cases hkey : AesKey.generate c.manager.dataKeyLength c.entropy with
    | mk generated drawn =>
      obtain rfl : c.entropy.skip c.manager.dataKeyLength = drawn := congrArg Prod.snd hkey
      cases generated with
      | error _ => exact ⟨1, rfl⟩
      | ok key =>
        cases hwrapped : c.service.wrapped key.bytes masterKeyId
            (c.entropy.skip c.manager.dataKeyLength) with
        | mk answer entropy =>
          simp only [KeyService.wrap, hwrapped]
          cases answer with
          | error _ =>
            obtain ⟨k, hk⟩ := (c.service.draws_wrapped _ _).error hwrapped
            exact ⟨k + 1, hk⟩
          | ok wrapped =>
            have hentropy : entropy =
                (c.entropy.skip c.manager.dataKeyLength).skip Nonce.length :=
              entropy_of_wrapped hwrapped
            exact ⟨2, (entropy_place ..).trans hentropy⟩

end Custody

/-- What it comes to that a manager generates a data key: the key, and the text that its metadata
lead to. -/
def KeyManager.generating (m : KeyManager) (service : KeyService) (store : KeyStore)
    (now : Instant) (masterKeyId : String) : Drawing (DataKey × Option String) := fun e =>
  let (answer, c) := Custody.generateKey ⟨m, service, store, e, now⟩ masterKeyId
  (answer.map fun dataKey => (dataKey, c.text? dataKey.metadata), c.entropy)

theorem KeyManager.generating_of_wrapLocally {m : KeyManager} (h : m.wrapLocally = true)
    (service : KeyService) (store : KeyStore) (now : Instant) (masterKeyId : String)
    (e : Entropy) :
    m.generating service store now masterKeyId e =
      (.error { cause := .localWrappingUnsupported }, e) := by
  unfold generating Custody.generateKey
  simp only [h, if_true]
  rfl

/-- The key and the nonce of the frame that wraps it are drawn one after the other. -/
theorem KeyManager.draws_generating (m : KeyManager) (service : KeyService) (store : KeyStore)
    (now : Instant) (masterKeyId : String) :
    (m.generating service store now masterKeyId).Draws [m.dataKeyLength, Nonce.length]
      fun out => out.1.key.bytes ::
        (out.2.map fun text => frameNonce (KeyMaterial.wrappedIn text)).toList where
  ok {e e' out} h := by
    cases hgenerate : Custody.generateKey ⟨m, service, store, e, now⟩ masterKeyId with
    | mk answer c' =>
      unfold generating at h
      rw [hgenerate] at h
      obtain ⟨hanswer, rfl⟩ : answer.map _ = .ok out ∧ c'.entropy = e' := Prod.mk.inj h
      cases answer with
      | error error => cases hanswer
      | ok dataKey =>
        cases hanswer
        obtain ⟨key, wrapped, drawn, entropy, -, hkey, hwrapped, hplaced⟩ :=
          Custody.of_generateKey hgenerate
        obtain ⟨rfl, honly⟩ := Custody.of_place hplaced
        obtain ⟨hbytes, rfl⟩ := Custody.bytes_of_generate hkey
        obtain ⟨hlength, hgives⟩ := (service.draws_wrapped _ _).ok hwrapped
        have hkeyLength : dataKey.key.bytes.length = m.dataKeyLength := by
          rw [hbytes, Entropy.length_next]
        have hentropy : c'.entropy = entropy := honly.entropy_eq
        simp only [Custody.text?_of_place hplaced, Option.map_some, Option.toList_some,
          KeyMaterial.wrappedIn_serialize]
        refine ⟨?_, ?_, ?_⟩
        · rw [List.map_cons, hlength, hkeyLength]
        · rw [hkeyLength]
          exact hbytes
        · rw [hkeyLength, hentropy]
          exact hgives
  error {e e' error} h := by
    obtain rfl : _ = e' := congrArg Prod.snd h
    exact Custody.exists_entropy_generateKey ⟨m, service, store, e, now⟩ masterKeyId

/-! ### Settings of writers -/

theorem WriteDraft.entropy_of_build_eq_error {d : WriteDraft} {e e' : Entropy} {error : Error}
    (h : d.build e = (.error error, e')) : e' = e := by
  rw [build_eq] at h
  cases hcheck : d.check with
  | ok _ => rw [hcheck] at h; cases h
  | error _ =>
    rw [hcheck] at h
    cases h
    rfl

theorem WriteDraft.draws_build (d : WriteDraft) :
    d.build.Draws [8] fun s => [s.algorithm.aadFileUnique] where
  ok {e e' s} h := by
    rw [build_eq] at h
    cases hcheck : d.check with
    | error _ => rw [hcheck] at h; cases h
    | ok footer =>
      rw [hcheck] at h
      cases h
      exact ⟨by simp [settings], e.gives_singleton 8⟩
  error h := ⟨0, entropy_of_build_eq_error h⟩

end ModularEncryption
