import ModularEncryption.Proofs.Draws.Operations

/-! # Random bytes are used once

Requests for random bytes come in any order and from any objects, and each is answered from where
the one before it stopped (`DrawRequest.performAll`). The books are kept request by request
(`Ledger`): one that succeeds hands out the next bytes of the stream, one that fails skips some, and
nothing else happens to the stream. One request keeps the books right (`DrawRequest.draws_perform`),
and so does every run (`ledger_performAll`).

Hence the parts that a run hands out stand in the stream in their order (`Ledger.inOrder`), and no
two of them share a byte (`InOrder.pairwise`): two equal nonces were drawn in two places, and the
stream repeats itself. What failures leave of the stream is said in `LeavesStream`. -/

namespace ModularEncryption

/-! ### Requests -/

/-- A request that may draw random bytes, with the objects that take part in it. -/
inductive DrawRequest where
  | encrypt (cipher : FrameCipher) (aad text : Bytes)
  | encryptWith (cipher : FrameCipher) (nonce : Nonce) (aad text : Bytes)
  | wrap (service : KeyService) (key : Bytes) (masterKeyId : String)
  | signFooter (writer : FileWriter) (footer : Bytes)
  | generate (length : Nat)
  | generateKey (manager : KeyManager) (service : KeyService) (store : KeyStore) (now : Instant)
      (masterKeyId : String)
  | build (draft : WriteDraft)

/-- What a request hands out. -/
inductive DrawProduct where
  /-- A frame under a fresh nonce. -/
  | frame (bytes : Bytes)
  /-- A frame under a nonce that was given. -/
  | frameUnder (bytes : Bytes)
  | signature (bytes : Bytes)
  | key (key : AesKey)
  /-- A data key, and the text that its metadata lead to. -/
  | dataKey (dataKey : DataKey) (text : Option String)
  | settings (settings : WriteSettings)

/-- The parts of what is handed out that were drawn. -/
def DrawProduct.parts : DrawProduct → List Bytes
  | .frame bytes => [frameNonce bytes]
  | .frameUnder _ => []
  | .signature bytes => [bytes.take Nonce.length]
  | .key k => [k.bytes]
  | .dataKey made text =>
    made.key.bytes :: (text.map fun t => frameNonce (KeyMaterial.wrappedIn t)).toList
  | .settings s => [s.algorithm.aadFileUnique]

/-- The nonces of the frames and signatures that are handed out. -/
def DrawProduct.nonces : DrawProduct → List Bytes
  | .frame bytes => [frameNonce bytes]
  | .signature bytes => [bytes.take Nonce.length]
  | .dataKey _ text => (text.map fun t => frameNonce (KeyMaterial.wrappedIn t)).toList
  | _ => []

/-- An operation that hands out a product. -/
def Drawing.handing {α : Type} (x : Drawing α) (product : α → DrawProduct) :
    Drawing DrawProduct := fun e => ((x e).1.map product, (x e).2)

namespace DrawRequest

/-- What a request comes to. -/
def perform : DrawRequest → Drawing DrawProduct
  | .encrypt cipher aad text => (cipher.encrypt aad text).handing .frame
  | .encryptWith cipher nonce aad text =>
    Drawing.handing (fun e => (cipher.encryptWith nonce aad text, e)) .frameUnder
  | .wrap service key masterKeyId =>
    Drawing.handing (fun e =>
      let (answer, _, e) := service.wrap key masterKeyId e
      (answer, e)) .frame
  | .signFooter writer footer => (writer.signFooter footer).handing .signature
  | .generate length => (AesKey.generate length).handing .key
  | .generateKey manager service store now masterKeyId =>
    (manager.generating service store now masterKeyId).handing fun out => .dataKey out.1 out.2
  | .build draft => draft.build.handing .settings

/-- The numbers of bytes that a request draws, one draw after the other, if nothing fails. -/
def draws : DrawRequest → List Nat
  | .encrypt _ _ _ | .wrap _ _ _ | .signFooter _ _ => [Nonce.length]
  | .encryptWith _ _ _ _ => []
  | .generate length => [length]
  | .generateKey manager _ _ _ _ => [manager.dataKeyLength, Nonce.length]
  | .build _ => [8]

/-- Performs requests one after the other. -/
def performAll : List DrawRequest → Entropy → List (Except Error DrawProduct) × Entropy
  | [], e => ([], e)
  | request :: requests, e =>
    let (result, e) := request.perform e
    let (results, e) := performAll requests e
    (result :: results, e)

end DrawRequest

namespace Drawing

variable {α : Type} {x : Drawing α} {product : α → DrawProduct} {e e' : Entropy}

theorem of_handing_eq_ok {handed : DrawProduct} (h : handing x product e = (.ok handed, e')) :
    ∃ a, x e = (.ok a, e') ∧ handed = product a := by
  obtain ⟨hresult, rfl⟩ : (x e).1.map product = .ok handed ∧ (x e).2 = e' := Prod.mk.inj h
  cases hx : (x e).1 with
  | error _ => rw [hx] at hresult; cases hresult
  | ok a =>
    rw [hx] at hresult
    cases hresult
    exact ⟨a, Prod.ext hx rfl, rfl⟩

theorem of_handing_eq_error {error : Error} (h : handing x product e = (.error error, e')) :
    x e = (.error error, e') := by
  obtain ⟨hresult, rfl⟩ : (x e).1.map product = .error error ∧ (x e).2 = e' := Prod.mk.inj h
  cases hx : (x e).1 with
  | error _ =>
    rw [hx] at hresult
    cases hresult
    exact Prod.ext hx rfl
  | ok _ => rw [hx] at hresult; cases hresult

theorem handing_of_error {error : Error} (h : x e = (.error error, e')) :
    handing x product e = (.error error, e') := by
  unfold handing
  rw [h]
  rfl

/-- What an operation draws is found in what it hands out. -/
theorem Draws.handing {draws : List Nat} {parts : α → List Bytes} (h : Draws x draws parts)
    (hparts : ∀ a, (product a).parts = parts a) :
    Draws (handing x product) draws DrawProduct.parts where
  ok hok := by
    obtain ⟨a, hx, rfl⟩ := of_handing_eq_ok hok
    rw [hparts]
    exact h.ok hx
  error herror := h.error (of_handing_eq_error herror)

end Drawing

theorem FrameCipher.draws_encryptWith (c : FrameCipher) (nonce : Nonce) (aad text : Bytes) :
    Drawing.Draws (fun e => (c.encryptWith nonce aad text, e)) [] fun _ => [] where
  ok {e e' frame} h := by
    obtain ⟨-, rfl⟩ : _ ∧ e = e' := Prod.mk.inj h
    exact ⟨rfl, rfl⟩
  error {e e' error} h := by
    obtain ⟨-, rfl⟩ : _ ∧ e = e' := Prod.mk.inj h
    exact ⟨0, rfl⟩

/-- **A request draws what it hands out**; if it fails, it has made some of its draws. -/
theorem DrawRequest.draws_perform (request : DrawRequest) :
    request.perform.Draws request.draws DrawProduct.parts := by
  cases request with
  | encrypt cipher aad text => exact (cipher.draws_encrypt aad text).handing fun _ => rfl
  | encryptWith cipher nonce aad text =>
    exact (cipher.draws_encryptWith nonce aad text).handing fun _ => rfl
  | wrap service key masterKeyId =>
    exact (service.draws_wrapped key masterKeyId).handing fun _ => rfl
  | signFooter writer footer => exact (writer.draws_signFooter footer).handing fun _ => rfl
  | generate length => exact (AesKey.draws_generate length).handing fun _ => rfl
  | generateKey manager service store now masterKeyId =>
    exact (manager.draws_generating service store now masterKeyId).handing fun _ => rfl
  | build draft => exact draft.draws_build.handing fun _ => rfl

/-- Nonces have twelve bytes. -/
theorem DrawRequest.length_of_mem_nonces {request : DrawRequest} {e e' : Entropy}
    {product : DrawProduct} (h : request.perform e = (.ok product, e')) {nonce : Bytes}
    (hnonce : nonce ∈ product.nonces) : nonce.length = 12 := by
  have hdraws := (request.draws_perform.ok h).1
  -- what the request hands out tells which of the parts are nonces
  cases request with
  | encrypt _ _ _ | wrap _ _ _ | signFooter _ _ =>
    obtain ⟨_, -, rfl⟩ := Drawing.of_handing_eq_ok h
    cases List.mem_singleton.mp hnonce
    exact List.head_eq_of_cons_eq hdraws
  | encryptWith _ _ _ _ | generate _ | build _ =>
    obtain ⟨_, -, rfl⟩ := Drawing.of_handing_eq_ok h
    cases hnonce
  | generateKey _ _ _ _ _ =>
    obtain ⟨⟨made, text⟩, -, rfl⟩ := Drawing.of_handing_eq_ok h
    have hlengths : (DrawProduct.dataKey made text).nonces.map List.length = [Nonce.length] :=
      List.tail_eq_of_cons_eq hdraws
    have hlength := List.mem_map_of_mem (f := List.length) hnonce
    rw [hlengths] at hlength
    exact List.mem_singleton.mp hlength

/-! ### Runs -/

/-- **The books of a run**: what each request drew, from where the one before it stopped. -/
inductive Ledger : Entropy → List DrawRequest → List (Except Error DrawProduct) → Entropy → Prop
  | nil (e : Entropy) : Ledger e [] [] e
  /-- What is handed out are the next bytes, drawn in as many draws as the request makes. -/
  | done {e e' e'' : Entropy} {request : DrawRequest} {product : DrawProduct}
      {requests : List DrawRequest} {results : List (Except Error DrawProduct)}
      (hdraws : product.parts.map List.length = request.draws) (hgives : e.Gives product.parts e')
      (hrest : Ledger e' requests results e'') :
      Ledger e (request :: requests) (.ok product :: results) e''
  /-- A request that fails has made its first few draws, and what they gave is skipped. -/
  | failed {e e'' : Entropy} {request : DrawRequest} {error : Error}
      {requests : List DrawRequest} {results : List (Except Error DrawProduct)} (k : Nat)
      (hrest : Ledger (e.skipAll (request.draws.take k)) requests results e'') :
      Ledger e (request :: requests) (.error error :: results) e''

/-- **The books of every run are right.** -/
theorem ledger_performAll (requests : List DrawRequest) (e : Entropy) :
    Ledger e requests (DrawRequest.performAll requests e).1
      (DrawRequest.performAll requests e).2 := by
  induction requests generalizing e with
  | nil => exact .nil e
  | cons request requests ih =>
    unfold DrawRequest.performAll
    cases hperform : request.perform e with
    | mk result e' =>
      cases result with
      | ok product =>
        obtain ⟨hdraws, hgives⟩ := request.draws_perform.ok hperform
        exact .done hdraws hgives (ih e')
      | error error =>
        obtain ⟨k, rfl⟩ := request.draws_perform.error hperform
        exact .failed k (ih _)

/-- What a run hands out, as far as it is asked for. -/
def handedOut (asked : DrawProduct → List Bytes) (results : List (Except Error DrawProduct)) :
    List Bytes :=
  results.flatMap fun result =>
    match result with
    | .ok product => asked product
    | .error _ => []

/-- All that was drawn and handed out. -/
def partsOf (results : List (Except Error DrawProduct)) : List Bytes :=
  handedOut DrawProduct.parts results

/-- The nonces that were handed out. -/
def noncesOf (results : List (Except Error DrawProduct)) : List Bytes :=
  handedOut DrawProduct.nonces results

theorem DrawProduct.nonces_sublist (product : DrawProduct) :
    product.nonces.Sublist product.parts := by
  cases product with
  | frame _ | signature _ => exact List.Sublist.refl _
  | frameUnder _ | key _ | settings _ => exact List.nil_sublist _
  | dataKey made text => exact List.sublist_cons_self _ _

theorem noncesOf_sublist (results : List (Except Error DrawProduct)) :
    (noncesOf results).Sublist (partsOf results) := by
  induction results with
  | nil => exact List.Sublist.refl _
  | cons result results ih =>
    cases result with
    | ok product => exact product.nonces_sublist.append ih
    | error _ => exact ih

theorem length_of_mem_noncesOf {requests : List DrawRequest} {e : Entropy} {nonce : Bytes}
    (h : nonce ∈ noncesOf (DrawRequest.performAll requests e).1) : nonce.length = 12 := by
  induction requests generalizing e with
  | nil => cases h
  | cons request requests ih =>
    unfold DrawRequest.performAll at h
    cases hperform : request.perform e with
    | mk result e' =>
      rw [hperform] at h
      cases result with
      | error _ => exact ih h
      | ok product =>
        rcases List.mem_append.mp h with hmem | hmem
        · exact request.length_of_mem_nonces hperform hmem
        · exact ih hmem

/-- A part stands in a stream at a place. -/
def StandsAt (stream : Nat → UInt8) (part : Bytes) (place : Nat) : Prop :=
  part = (List.range part.length).map fun i => stream (place + i)

/-- Parts stand in a stream one after the other, between two positions; no two of them share a
byte, but there may be bytes between them. -/
def InOrder (stream : Nat → UInt8) (start stop : Nat) : List Bytes → Prop
  | [] => start ≤ stop
  | part :: parts =>
    ∃ p, start ≤ p ∧ StandsAt stream part p ∧ InOrder stream (p + part.length) stop parts

namespace InOrder

variable {stream : Nat → UInt8} {start start' stop : Nat} {parts : List Bytes} {part : Bytes}

theorem mono (h : InOrder stream start stop parts) (hstart : start' ≤ start) :
    InOrder stream start' stop parts := by
  cases parts with
  | nil => exact Nat.le_trans hstart h
  | cons part parts =>
    obtain ⟨p, hp, hstands, hrest⟩ := h
    exact ⟨p, Nat.le_trans hstart hp, hstands, hrest⟩

theorem le (h : InOrder stream start stop parts) : start ≤ stop := by
  induction parts generalizing start with
  | nil => exact h
  | cons part parts ih =>
    obtain ⟨p, hp, -, hrest⟩ := h
    have hle := ih hrest
    omega

/-- Each part has a place of its own, -/
theorem exists_place (h : InOrder stream start stop parts) (hpart : part ∈ parts) :
    ∃ p, start ≤ p ∧ StandsAt stream part p ∧ p + part.length ≤ stop := by
  induction parts generalizing start with
  | nil => cases hpart
  | cons first parts ih =>
    obtain ⟨p, hp, hstands, hrest⟩ := h
    rcases List.mem_cons.mp hpart with rfl | hmem
    · exact ⟨p, hp, hstands, hrest.le⟩
    · obtain ⟨q, hq, hstands', hstop⟩ := ih hrest hmem
      exact ⟨q, by omega, hstands', hstop⟩

/-- and the places of any two follow one another. -/
theorem pairwise (h : InOrder stream start stop parts) :
    parts.Pairwise fun a b => ∃ p q, start ≤ p ∧ StandsAt stream a p ∧ p + a.length ≤ q ∧
      StandsAt stream b q ∧ q + b.length ≤ stop := by
  induction parts generalizing start with
  | nil => exact .nil
  | cons first parts ih =>
    obtain ⟨p, hp, hstands, hrest⟩ := h
    refine .cons (fun b hb => ?_) ((ih hrest).imp ?_)
    · obtain ⟨q, hq, hstands', hstop⟩ := hrest.exists_place hb
      exact ⟨p, q, hp, hstands, hq, hstands', hstop⟩
    · rintro a b ⟨p', q, hp', hrest'⟩
      exact ⟨p', q, by omega, hrest'⟩

end InOrder

/-- What is given stands in the stream. -/
theorem Entropy.Gives.inOrder_append {e e' : Entropy} {parts rest : List Bytes} {stop : Nat}
    (h : e.Gives parts e') (hrest : InOrder e'.stream e'.position stop rest) :
    e'.stream = e.stream ∧ InOrder e.stream e.position stop (parts ++ rest) := by
  induction parts generalizing e with
  | nil =>
    obtain rfl := h
    exact ⟨rfl, hrest⟩
  | cons part parts ih =>
    obtain ⟨hpart, htail⟩ := h
    obtain ⟨hstream, horder⟩ := ih htail
    exact ⟨hstream, e.position, Nat.le_refl _, hpart, horder⟩

/-- **What a run hands out stands in the stream, in order.** -/
theorem Ledger.inOrder {e e' : Entropy} {requests : List DrawRequest}
    {results : List (Except Error DrawProduct)} (h : Ledger e requests results e') :
    e'.stream = e.stream ∧ InOrder e.stream e.position e'.position (partsOf results) := by
  induction h with
  | nil e => exact ⟨rfl, Nat.le_refl _⟩
  | done hdraws hgives hrest ih =>
    obtain ⟨hstream, horder⟩ := hgives.inOrder_append ih.2
    exact ⟨ih.1.trans hstream, horder⟩
  | @failed e _ request _ _ _ k hrest ih =>
    obtain ⟨n, hskip⟩ := e.exists_skipAll_eq (request.draws.take k)
    rw [hskip] at ih
    exact ⟨ih.1, ih.2.mono (Nat.le_add_right _ _)⟩

/-- A part that stands at two places is repeated by the stream. -/
theorem StandsAt.repeats {stream : Nat → UInt8} {part : Bytes} {p q : Nat}
    (hp : StandsAt stream part p) (hq : StandsAt stream part q) :
    ∀ i < part.length, stream (p + i) = stream (q + i) := by
  intro i hi
  have hmap := hp.symm.trans hq
  exact List.map_inj_left.mp hmap i (List.mem_range.mpr hi)

/-! ### No byte is used twice -/

/-- Requests that leave the stream where it is when they fail, or in any case; and the one that does
not always. -/
structure LeavesStream (e : Entropy) : Prop where
  encryptWith : ∀ cipher nonce aad text,
    ((DrawRequest.encryptWith cipher nonce aad text).perform e).2 = e
  build : ∀ draft error e', (DrawRequest.build draft).perform e = (.error error, e') → e' = e
  wrap : ∀ service key masterKeyId, Table.get? service.masterKeys masterKeyId = none →
    ∃ error, (DrawRequest.wrap service key masterKeyId).perform e = (.error error, e)
  generateKey : ∀ manager service store now masterKeyId, manager.wrapLocally = true →
    ∃ error, (DrawRequest.generateKey manager service store now masterKeyId).perform e =
      (.error error, e)
  signFooter : ∀ writer footer, writer.settings.footerSigningKey? = none →
    ∃ error, (DrawRequest.signFooter writer footer).perform e = (.error error, e)
  /-- With a key, signing fails exactly if the footer is too long, and then a nonce is skipped. -/
  signTooLong : ∀ (writer : FileWriter) (footer : Bytes),
    writer.settings.footerSigningKey? ≠ none →
      ((∃ error e', (DrawRequest.signFooter writer footer).perform e = (.error error, e')) ↔
        maxFrameLength < 28 + footer.length) ∧
      ∀ error e', (DrawRequest.signFooter writer footer).perform e = (.error error, e') →
        e' = e.skip Nonce.length

theorem leavesStream (e : Entropy) : LeavesStream e where
  encryptWith _ _ _ _ := rfl
  build draft error e' h := WriteDraft.entropy_of_build_eq_error (Drawing.of_handing_eq_error h)
  wrap service key masterKeyId h := by
    obtain ⟨error, hwrapped⟩ := KeyService.wrapped_of_unknown h key e
    exact ⟨error, Drawing.handing_of_error hwrapped⟩
  generateKey manager service store now masterKeyId h := by
    have hfails := KeyManager.generating_of_wrapLocally h service store now masterKeyId e
    exact ⟨_, Drawing.handing_of_error hfails⟩
  signFooter writer footer h := by
    obtain ⟨error, hfails⟩ := FileWriter.signFooter_of_no_key h footer e
    exact ⟨error, Drawing.handing_of_error hfails⟩
  signTooLong writer footer hkey := by
    obtain ⟨key, hkey⟩ := Option.ne_none_iff_exists'.mp hkey
    have hlong : maxFrameLength < 28 + footer.length →
        (DrawRequest.signFooter writer footer).perform e =
          (.error { cause := .moduleTooLarge footer.length }, e.skip Nonce.length) :=
      fun hlong => Drawing.handing_of_error (FileWriter.signFooter_of_too_long hkey hlong e)
    have hfails : ∀ error e',
        (DrawRequest.signFooter writer footer).perform e = (.error error, e') →
          maxFrameLength < 28 + footer.length := by
      intro error e' h
      by_contra hfits
      obtain ⟨signature, hsigned⟩ := FileWriter.signFooter_of_fits hkey (Nat.not_lt.mp hfits) e
      rw [Drawing.of_handing_eq_error h] at hsigned
      cases hsigned
    refine ⟨⟨?_, fun h => ⟨_, _, hlong h⟩⟩, fun error e' h => ?_⟩
    · rintro ⟨error, e', h⟩
      exact hfails error e' h
    · rw [hlong (hfails error e' h)] at h
      cases h
      rfl

/-- **Random bytes are used once.** Whatever is requested, the books are right and the stream is not
changed. What is handed out stands in the stream in its order, no two parts sharing a byte, and so
two nonces are equal only if the stream repeats their twelve bytes at another place. -/
theorem drawn_once (requests : List DrawRequest) (e : Entropy) :
    Ledger e requests (DrawRequest.performAll requests e).1
        (DrawRequest.performAll requests e).2 ∧
      (DrawRequest.performAll requests e).2.stream = e.stream ∧
      (partsOf (DrawRequest.performAll requests e).1).Pairwise (fun a b =>
        ∃ p q, e.position ≤ p ∧ StandsAt e.stream a p ∧ p + a.length ≤ q ∧
          StandsAt e.stream b q ∧ q + b.length ≤ (DrawRequest.performAll requests e).2.position) ∧
      (noncesOf (DrawRequest.performAll requests e).1).Pairwise (fun a b => a = b →
        ∃ p q, p + 12 ≤ q ∧ ∀ i < 12, e.stream (p + i) = e.stream (q + i)) ∧
      LeavesStream e := by
  have hledger := ledger_performAll requests e
  obtain ⟨hstream, horder⟩ := hledger.inOrder
  refine ⟨hledger, hstream, horder.pairwise, ?_, leavesStream e⟩
  have hnonces := horder.pairwise.sublist (noncesOf_sublist _)
  refine hnonces.imp_of_mem ?_
  rintro a b ha - ⟨p, q, -, hp, hpq, hq, -⟩ rfl
  have hlength := length_of_mem_noncesOf ha
  have hrepeats := hp.repeats hq
  rw [hlength] at hpq hrepeats
  exact ⟨p, q, hpq, hrepeats⟩

namespace DrawRequest.Sample

/-- A key of twos. -/
def key : AesKey := ⟨List.replicate 16 2, by simp [validKeyLengths]⟩

/-- A draft with a key that signs the footer and encrypts the column `a`. -/
def draft : WriteDraft :=
  { footerSigningKey := some key.bytes
    columns := .ofList [(⟨["a"]⟩, ⟨⟨["a"]⟩, .ownKey key none⟩)]
    encryptTheRest := false }

/-- What the draft amounts to if the random bytes are all zero. -/
def signed : WriteSettings :=
  { algorithm := { suite := .default, aadMetadata := none, aadFileUnique := List.replicate 8 0 }
    footer := .plaintext (some key) none
    aadPrefix := none
    columns := draft.columns
    encryptTheRest := false }

end DrawRequest.Sample

open DrawRequest.Sample in
/-- A signature that fails does move the stream: a footer of 2 GiB is refused by a writer with a
signing key when its nonce has been drawn. -/
theorem signFooter_skips_nonce :
    ¬ ∀ (draft : WriteDraft) (settings : WriteSettings) (e e' : Entropy),
      draft.build e = (.ok settings, e') →
        ∀ (footer : Bytes) (error : Error) (e'' : Entropy),
          (DrawRequest.signFooter (.start settings) footer).perform e' = (.error error, e'') →
            e''.position = e'.position := by
  intro hstays
  have hbuild : draft.build ⟨fun _ => 0, 0⟩ = (.ok signed, ⟨fun _ => 0, 8⟩) := rfl
  have hkey : (FileWriter.start signed).settings.footerSigningKey? = some key := rfl
  -- the footer stays a variable, so that nothing writes it out
  obtain ⟨footer, hlength⟩ : ∃ footer : Bytes, footer.length = 2147483648 :=
    ⟨List.replicate 2147483648 0, List.length_replicate ..⟩
  have hlong : maxFrameLength < 28 + footer.length := by
    rw [hlength]
    decide
  have hfails := FileWriter.signFooter_of_too_long hkey hlong ⟨fun _ => 0, 8⟩
  have hposition : 8 + Nonce.length = 8 :=
    hstays draft signed _ _ hbuild footer _ _ (Drawing.handing_of_error hfails)
  cases hposition

end ModularEncryption
