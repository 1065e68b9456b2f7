import ModularEncryption.Proofs.Redaction.Custody
import ModularEncryption.Session.Keys

/-! # Sessions that differ in keys only

A session is blanked by blanking its key services, stores and managers and by leaving out what shows
no key (`Session.blank`). Two steps agree (`Session.Agrees`) if in sessions of the same blank they
both succeed, with results that are related, or both fail, with the same error, and leave sessions
of the same blank behind. Steps that agree one by one agree in sequence (`Agrees.bind`), so that the
operations on keys are followed through as they are written. -/

namespace ModularEncryption

namespace Shelf

variable {α β : Type}

/-- The shelf with all objects changed. -/
def map (f : α → β) (s : Shelf α) : Shelf β := { objects := s.objects.map f, names := s.names }

theorem get?_map (f : α → β) (s : Shelf α) (i : Nat) : (s.map f).get? i = (s.get? i).map f :=
  List.getElem?_map

theorem set_map (f : α → β) (s : Shelf α) (i : Nat) (a : α) :
    (s.set i a).map f = (s.map f).set i (f a) := by
  simp [set, map, List.map_set]

theorem put_map (f : α → β) (s : Shelf α) (name : String) (a : α) :
    (s.put name a).map f = (s.map f).put name (f a) := by
  simp [put, map]

end Shelf

/-- The manager without what is in its cache; it keeps its service and its store. -/
def ManagerEntry.blank (m : ManagerEntry) : ManagerEntry := { m with manager := m.manager.blank }

/-- What managers have in common that do not differ but in keys. -/
theorem ManagerEntry.blank_eq_iff {m m' : ManagerEntry} : m'.blank = m.blank ↔
    m'.manager.blank = m.manager.blank ∧ m'.service = m.service ∧ m'.store = m.store := by
  simp [ManagerEntry.blank]

namespace Session

/-- The session without the bytes of keys, without what is kept in stores and caches, and without
all else that shows no key. -/
def blank (s : Session) : Session :=
  { entropy := s.entropy
    now := s.now
    tableLimit := s.tableLimit
    services := s.services.map KeyService.blank
    stores := s.stores.map KeyStore.blank
    managers := s.managers.map ManagerEntry.blank }

variable {s t : Session}

/-- What sessions have in common that do not differ but in keys. -/
theorem blank_eq_iff : t.blank = s.blank ↔ t.entropy = s.entropy ∧ t.now = s.now ∧
    t.services.map KeyService.blank = s.services.map KeyService.blank ∧
    t.stores.map KeyStore.blank = s.stores.map KeyStore.blank ∧
    t.managers.map ManagerEntry.blank = s.managers.map ManagerEntry.blank ∧
    t.tableLimit = s.tableLimit := by
  unfold blank
  grind

theorem entropy_eq (h : t.blank = s.blank) : t.entropy = s.entropy := (blank_eq_iff.mp h).1

theorem blank_withEntropy (h : t.blank = s.blank) (entropy : Entropy) :
    Session.blank { t with entropy } = Session.blank { s with entropy } := by
  obtain ⟨-, hrest⟩ := blank_eq_iff.mp h
  exact blank_eq_iff.mpr ⟨rfl, hrest⟩

/-! ### Steps that agree -/

section Agrees

variable {α β γ δ : Type}

/-- Two steps have both succeeded, with related results, or have both failed, with one error, in
sessions that do not differ but in keys. -/
inductive Agree (R : α → β → Prop) : Except Stop α × Session → Except Stop β × Session → Prop
  | ok {a : α} {b : β} {s t : Session} (hresult : R a b) (hblank : t.blank = s.blank) :
    Agree R (.ok a, s) (.ok b, t)
  | error {e : Stop} {s t : Session} (hblank : t.blank = s.blank) :
    Agree R (.error e, s) (.error e, t)

/-- **Two steps agree** in all sessions that do not differ but in keys. -/
def Agrees (R : α → β → Prop) (x : Acting α) (y : Acting β) : Prop :=
  ∀ ⦃s t : Session⦄, t.blank = s.blank → Agree R (x s) (y t)

variable {R : α → β → Prop} {Q : γ → δ → Prop}

theorem agrees_pure {a : α} {b : β} (h : R a b) : Agrees R (pure a) (pure b) :=
  fun _ _ hblank => .ok h hblank

theorem agrees_throw (e : Stop) : Agrees R (throw e) (throw e) := fun _ _ hblank => .error hblank

theorem agrees_get : Agrees (fun a b => b.blank = a.blank) get get :=
  fun _ _ hblank => .ok hblank hblank

theorem agrees_time : Agrees Eq time time :=
  fun _ _ hblank => .ok (blank_eq_iff.mp hblank).2.1.symm hblank

theorem Agrees.bind {x : Acting α} {y : Acting β} {f : α → Acting γ} {g : β → Acting δ}
    (h : Agrees R x y) (hf : ∀ a b, R a b → Agrees Q (f a) (g b)) :
    Agrees Q (x >>= f) (y >>= g) := by
  intro s t hblank
  have hxy := h hblank
  have hx : (x >>= f) s = match x s with
      | (.ok a, s') => f a s'
      | (.error e, s') => (.error e, s') := by
    show (ExceptT.bindCont f (x s).1) (x s).2 = _
    rcases x s with ⟨_ | _, _⟩ <;> rfl
  have hy : (y >>= g) t = match y t with
      | (.ok b, t') => g b t'
      | (.error e, t') => (.error e, t') := by
    show (ExceptT.bindCont g (y t).1) (y t).2 = _
    rcases y t with ⟨_ | _, _⟩ <;> rfl
  rw [hx, hy]
  generalize x s = r at hxy
  generalize y t = r' at hxy
  cases hxy with
  | ok hresult hblank => exact hf _ _ hresult hblank
  | error hblank => exact .error hblank

theorem Agrees.mono {R' : α → β → Prop} {x : Acting α} {y : Acting β} (h : Agrees R x y)
    (hR : ∀ a b, R a b → R' a b) : Agrees R' x y := by
  intro s t hblank
  have hxy := h hblank
  generalize x s = r at hxy
  generalize y t = r' at hxy
  cases hxy with
  | ok hresult hblank => exact .ok (hR _ _ hresult) hblank
  | error hblank => exact .error hblank

/-- Results that are mapped to the same agree as far as that. -/
theorem agrees_ofError_of_map_eq {f : α → γ} {g : β → γ} {r : Except Error α}
    {r' : Except Error β} (h : g <$> r' = f <$> r) :
    Agrees (fun a b => g b = f a) (ofError r) (ofError r') := by
  intro s t hblank
  rcases cases_of_map_eq h with ⟨e, rfl, rfl⟩ | ⟨a, b, rfl, rfl, hab⟩
  · exact .error hblank
  · exact .ok hab hblank

theorem agrees_ofError (r : Except Error α) : Agrees Eq (ofError r) (ofError r) :=
  (agrees_ofError_of_map_eq (rfl : id <$> r = id <$> r)).mono fun _ _ h => h.symm

theorem agrees_ofError_map (f : α → β) (r : Except Error α) :
    Agrees (fun a b => b = f a) (ofError r) (ofError (f <$> r)) :=
  agrees_ofError_of_map_eq (id_map (f <$> r))

/-- The same object is made, or there is the same reason why none is. -/
theorem agrees_ofCreation (r : Except CreationFailure α) :
    Agrees Eq (ofCreation r) (ofCreation r) := by
  intro s t hblank
  cases r with
  | ok a => exact .ok rfl hblank
  | error f => cases f <;> exact .error hblank

/-- Drawings that draw alike and end in related results agree. -/
theorem agrees_drawing {x : Drawing α} {y : Drawing β} (hdraws : ∀ e, (y e).2 = (x e).2)
    (hresults : ∀ e, Agrees R (ofError (x e).1) (ofError (y e).1)) :
    Agrees R (drawing x) (drawing y) := by
  intro s t hblank
  have hx : drawing x s = ofError (x s.entropy).1 { s with entropy := (x s.entropy).2 } := rfl
  have hy : drawing y t = ofError (y t.entropy).1 { t with entropy := (y t.entropy).2 } := rfl
  rw [hx, hy, entropy_eq hblank, hdraws]
  exact hresults _ (blank_withEntropy hblank _)

/-- A step of which nothing is told. -/
def quiet (x : Acting α) : Acting Unit := fun s => (.ok (), (x s).2)

theorem Agrees.quiet {x : Acting α} {y : Acting β} (h : Agrees R x y) :
    Agrees Eq (quiet x) (quiet y) := by
  intro s t hblank
  refine .ok rfl ?_
  have hxy := h hblank
  generalize x s = r at hxy
  generalize y t = r' at hxy
  cases hxy with
  | ok _ hblank => exact hblank
  | error hblank => exact hblank

/-- What is done last is not told if it changes nothing. -/
theorem quiet_bind {x : Acting α} {g : α → Acting γ} (h : ∀ a s, (g a s).2 = s) :
    quiet (x >>= g) = quiet x := by
  funext s
  show (Except.ok (), ((ExceptT.bindCont g (x s).1) (x s).2).2) = (Except.ok (), (x s).2)
  rcases x s with ⟨e | a, s'⟩
  · rfl
  · exact congrArg (Prod.mk _) (h a s')

theorem snd_ofError (r : Except Error α) (s : Session) : (ofError r s).2 = s := by
  cases r <;> rfl

/-! ### Objects by name -/

/-- The objects of a catalogue are known up to a blank of their own. -/
structure Known (p : Catalogue α) (f : α → α) : Prop where
  shelf : ∀ {s t : Session}, t.blank = s.blank → (p.shelf t).map f = (p.shelf s).map f
  withShelf : ∀ {s t : Session} {x y : Shelf α}, t.blank = s.blank → y.map f = x.map f →
    (p.withShelf y t).blank = (p.withShelf x s).blank

theorem known_services : Known .services KeyService.blank where
  shelf h := (blank_eq_iff.mp h).2.2.1
  withShelf h hshelf := by
    obtain ⟨hentropy, hnow, -, hrest⟩ := blank_eq_iff.mp h
    exact blank_eq_iff.mpr ⟨hentropy, hnow, hshelf, hrest⟩

theorem known_stores : Known .stores KeyStore.blank where
  shelf h := (blank_eq_iff.mp h).2.2.2.1
  withShelf h hshelf := by
    obtain ⟨hentropy, hnow, hservices, -, hrest⟩ := blank_eq_iff.mp h
    exact blank_eq_iff.mpr ⟨hentropy, hnow, hservices, hshelf, hrest⟩

theorem known_managers : Known .managers ManagerEntry.blank where
  shelf h := (blank_eq_iff.mp h).2.2.2.2.1
  withShelf h hshelf := by
    obtain ⟨hentropy, hnow, hservices, hstores, -, hlimit⟩ := blank_eq_iff.mp h
    exact blank_eq_iff.mpr ⟨hentropy, hnow, hservices, hstores, hshelf, hlimit⟩

variable {p : Catalogue α} {f : α → α}

theorem Known.place?_eq (h : Known p f) (hblank : t.blank = s.blank) (name : String) :
    (p.shelf t).place? name = (p.shelf s).place? name := by
  show ((p.shelf t).map f).place? name = ((p.shelf s).map f).place? name
  rw [h.shelf hblank]

theorem Known.get?_eq (h : Known p f) (hblank : t.blank = s.blank) (i : Nat) :
    ((p.shelf t).get? i).map f = ((p.shelf s).get? i).map f := by
  rw [← Shelf.get?_map, ← Shelf.get?_map, h.shelf hblank]

theorem Known.get?_eq_none (h : Known p f) (hblank : t.blank = s.blank) {i : Nat}
    (hs : (p.shelf s).get? i = none) : (p.shelf t).get? i = none := by
  have hget := h.get?_eq hblank i
  rwa [hs, Option.map_none, Option.map_eq_none_iff] at hget

theorem Known.exists_get? (h : Known p f) (hblank : t.blank = s.blank) {i : Nat} {a : α}
    (hs : (p.shelf s).get? i = some a) : ∃ b, (p.shelf t).get? i = some b ∧ f b = f a := by
  have hget := h.get?_eq hblank i
  rwa [hs, Option.map_some, Option.map_eq_some_iff] at hget

theorem Known.agrees_place (h : Known p f) (name : String) :
    Agrees Eq (place p name) (place p name) := by
  unfold place
  refine agrees_get.bind fun a b hblank => ?_
  rw [h.place?_eq hblank]
  cases (p.shelf a).place? name with
  | none => exact agrees_throw _
  | some i => exact agrees_pure rfl

/-- What is found under a name is in one place, and differs in keys only. -/
theorem Known.agrees_find (h : Known p f) (name : String) :
    Agrees (fun a b => b.1 = a.1 ∧ f b.2 = f a.2) (find p name) (find p name) := by
  unfold find
  refine (h.agrees_place name).bind fun i _ hi => ?_
  subst hi
  refine agrees_get.bind fun a b hblank => ?_
  cases ha : (p.shelf a).get? i with
  | none =>
    rw [h.get?_eq_none hblank ha]
    exact agrees_throw _
  | some x =>
    obtain ⟨y, hb, hxy⟩ := h.exists_get? hblank ha
    rw [hb]
    exact agrees_pure ⟨rfl, hxy⟩

theorem Known.agrees_replace (h : Known p f) (i : Nat) {a b : α} (hab : f b = f a) :
    Agrees Eq (replace p i a) (replace p i b) := by
  intro s t hblank
  refine .ok rfl (h.withShelf hblank ?_)
  rw [Shelf.set_map, Shelf.set_map, h.shelf hblank, hab]

theorem Known.agrees_make (h : Known p f) (name : String) {a b : α} (hab : f b = f a) :
    Agrees Eq (make p name a) (make p name b) := by
  intro s t hblank
  refine .ok rfl (h.withShelf hblank ?_)
  rw [Shelf.put_map, Shelf.put_map, h.shelf hblank, hab]

/-- What is changed alike under a name differs in keys only. -/
theorem Known.agrees_change (h : Known p f) (name : String) {g g' : α → α}
    (hg : ∀ a b, f b = f a → f (g' b) = f (g a)) :
    Agrees Eq (change p name g) (change p name g') := by
  unfold change
  refine (h.agrees_find name).bind fun ⟨i, a⟩ ⟨j, b⟩ hab => ?_
  obtain ⟨rfl, hab⟩ : j = i ∧ f b = f a := hab
  exact h.agrees_replace j (hg a b hab)

theorem Known.agrees_step (h : Known p f) (name : String) {g : α → β × α} {g' : α → γ × α}
    (hg : ∀ a b, f b = f a → f (g' b).2 = f (g a).2) :
    Agrees (fun _ _ => True) (step p name g) (step p name g') := by
  unfold step
  refine (h.agrees_find name).bind fun ⟨i, a⟩ ⟨j, b⟩ hab => ?_
  obtain ⟨rfl, hab⟩ : j = i ∧ f b = f a := hab
  exact (h.agrees_replace j (hg a b hab)).bind fun _ _ _ => agrees_pure trivial

end Agrees

/-! ### Key services -/

theorem agrees_newService (name : String) (master : Option (String × Bytes)) (serverSide : Bool) :
    Agrees Eq (newService name master serverSide)
      (newService name (master.map (Prod.map id Bytes.blank)) serverSide) := by
  have hmake : ∀ m m' : MasterKeys, m' = m.blank →
      Agrees Eq (make .services name { masterKeys := m, serverSide })
        (make .services name { masterKeys := m', serverSide }) := by
    rintro m _ rfl
    exact known_services.agrees_make name (by simp [KeyService.blank])
  unfold newService
  cases master with
  | none => exact hmake .empty .empty rfl
  | some entry =>
    obtain ⟨id, bytes⟩ := entry
    have hadd : MasterKeys.add .empty id (Bytes.blank bytes) =
        MasterKeys.blank <$> MasterKeys.add .empty id bytes := MasterKeys.add_blank .empty id bytes
    show Agrees Eq (ofError (MasterKeys.add .empty id bytes) >>= _)
      (ofError (MasterKeys.add .empty id (Bytes.blank bytes)) >>= _)
    rw [hadd]
    exact (agrees_ofError_map _ _).bind hmake

/-- One more master key is taken or refused for its length, and the master keys before it stay. -/
theorem agrees_add {m m' : MasterKeys} (h : m'.blank = m.blank) (id : String) (bytes : Bytes) :
    Agrees (fun a b : MasterKeys => b.blank = a.blank) (ofError (m.add id bytes))
      (ofError (m'.add id (Bytes.blank bytes))) := by
  rw [MasterKeys.add, MasterKeys.add, AesKey.ofBytes_blank]
  intro s t hblank
  cases AesKey.ofBytes bytes with
  | error e => exact .error hblank
  | ok key =>
    refine .ok ?_ hblank
    rw [MasterKeys.blank_insert, MasterKeys.blank_insert, h, AesKey.blank_blank]

theorem agrees_addMasterKey (name id : String) (bytes : Bytes) :
    Agrees Eq (addMasterKey name id bytes) (addMasterKey name id (Bytes.blank bytes)) := by
  unfold addMasterKey
  refine (known_services.agrees_find name).bind fun ⟨i, a⟩ ⟨j, b⟩ hab => ?_
  obtain ⟨rfl, hab⟩ : j = i ∧ b.blank = a.blank := hab
  obtain ⟨hmaster, hrest⟩ := KeyService.blank_eq_iff.mp hab
  refine (agrees_add hmaster id bytes).bind fun m m' hm => ?_
  exact known_services.agrees_replace j (KeyService.blank_eq_iff.mpr ⟨hm, hrest⟩)

theorem agrees_modify {g g' : Session → Session}
    (h : ∀ s t : Session, t.blank = s.blank → (g' t).blank = (g s).blank) :
    Agrees Eq (modify g) (modify g') :=
  fun s t hblank => .ok rfl (h s t hblank)

/-- A key is wrapped or refused whatever its bytes are. -/
theorem agrees_wrapKey (name id : String) (bytes : Bytes) :
    Agrees (fun _ _ => True) (wrapKey name bytes id) (wrapKey name (Bytes.blank bytes) id) := by
  unfold wrapKey
  refine (known_services.agrees_find name).bind fun ⟨i, a⟩ ⟨j, b⟩ hab => ?_
  obtain ⟨rfl, hab⟩ : j = i ∧ b.blank = a.blank := hab
  refine agrees_get.bind fun s t hblank => ?_
  obtain ⟨hfate, hrest⟩ :=
    KeyService.wrapped_congr hab (Bytes.length_blank bytes) id s.entropy
  simp only [KeyService.wrap_eq, entropy_eq hblank, hrest]
  refine (agrees_modify fun s t h => blank_withEntropy h _).bind fun _ _ _ => ?_
  refine (known_services.agrees_replace j ?_).bind fun _ _ _ =>
    (agrees_ofError_of_map_eq hfate).mono fun _ _ _ => trivial
  exact KeyService.blank_eq_iff.mpr (KeyService.blank_eq_iff.mp hab)

/-- A service that unwraps a key is only counted, whatever it is asked to unwrap. -/
theorem agrees_unwrapKey (name id : String) (wrapped wrapped' : Bytes) :
    Agrees Eq (quiet (unwrapKey name wrapped id)) (quiet (unwrapKey name wrapped' id)) := by
  unfold unwrapKey
  rw [quiet_bind fun _ => snd_ofError _, quiet_bind fun _ => snd_ofError _]
  refine (known_services.agrees_step name fun a b hab => ?_).quiet
  exact KeyService.blank_eq_iff.mpr (KeyService.blank_eq_iff.mp hab)

/-! ### Stores -/

/-- What is put into a store is kept or refused whatever it is. -/
theorem agrees_put {a b : KeyStore} (h : b.blank = a.blank)
    (material material' fileId name : String) :
    Agrees (fun x y : KeyStore => y.blank = x.blank) (ofError (a.put material fileId name))
      (ofError (b.put material' fileId name)) := by
  have houtage : b.outage = a.outage := KeyStore.blank_eq_iff.mp h
  unfold KeyStore.put
  rw [houtage]
  intro s t hblank
  cases a.outage with
  | some e => exact .error hblank
  | none => exact .ok rfl hblank

theorem agrees_storePut (name material material' fileId keyName : String) :
    Agrees Eq (quiet (storePut name material fileId keyName))
      (quiet (storePut name material' fileId keyName)) := by
  refine Agrees.quiet (R := fun _ _ => True) ?_
  unfold storePut
  refine (known_stores.agrees_find name).bind fun ⟨i, a⟩ ⟨j, b⟩ hab => ?_
  obtain ⟨rfl, hab⟩ : j = i ∧ b.blank = a.blank := hab
  refine (agrees_put hab material material' fileId keyName).bind fun x y hxy => ?_
  exact (known_stores.agrees_replace j hxy).bind fun _ _ _ => agrees_pure trivial

/-! ### Managers -/

/-- A manager is made for a service of which it matters only whether it wraps keys itself. -/
theorem agrees_newManager (name service : String) (store fileId : Option String)
    (settings : Settings) :
    Agrees Eq (newManager name service store fileId settings)
      (newManager name service store fileId settings) := by
  unfold newManager
  refine (known_services.agrees_find service).bind fun ⟨i, a⟩ ⟨j, b⟩ hab => ?_
  obtain ⟨rfl, hab⟩ : j = i ∧ b.blank = a.blank := hab
  obtain ⟨-, hserverSide, -⟩ := KeyService.blank_eq_iff.mp hab
  have hstore : Agrees Eq (store.mapM (place .stores)) (store.mapM (place .stores)) := by
    cases store with
    | none => exact agrees_pure rfl
    | some store => exact (known_stores.agrees_place store).bind fun _ _ h => agrees_pure (h ▸ rfl)
  refine hstore.bind fun place _ hplace => ?_
  subst hplace
  refine agrees_get.bind fun s t hblank => ?_
  obtain ⟨-, -, -, -, -, hlimit⟩ := blank_eq_iff.mp hblank
  simp only [hserverSide, hlimit]
  refine (agrees_ofCreation _).bind fun manager _ hmanager => ?_
  subst hmanager
  exact known_managers.agrees_make name rfl

/-- What becomes of the cache of a manager is not known. -/
theorem agrees_changeCache (name : String) (f f' : Instant → KeyCache → KeyCache) :
    Agrees Eq (changeCache name f) (changeCache name f') := by
  unfold changeCache
  refine agrees_time.bind fun now _ _ => ?_
  refine known_managers.agrees_change name fun a b hab => ?_
  exact ManagerEntry.blank_eq_iff.mpr (ManagerEntry.blank_eq_iff.mp hab)

variable {s t : Session}

/-- The store of a manager; one that it never looks into, if it has none. -/
def storeAt? (s : Session) : Option Nat → Option KeyStore
  | some place => s.stores.get? place
  | none => some {}

theorem custody?_eq (s : Session) (i : Nat) :
    s.custody? i = (s.managers.get? i).bind fun entry =>
      (s.services.get? entry.service).bind fun service =>
        (s.storeAt? entry.store).map fun store =>
          (entry, {
            manager := entry.manager
            service
            store
            entropy := s.entropy
            now := s.now }) := by
  unfold custody?
  cases s.managers.get? i with
  | none => rfl
  | some entry =>
    obtain ⟨manager, service, store⟩ := entry
    cases hservice : s.services.get? service with
    | none => cases store <;> simp [hservice]
    | some x =>
      cases store with
      | none => simp [hservice, storeAt?]
      | some place => cases hstore : s.stores.get? place <;> simp [hservice, storeAt?, hstore]

theorem storeAt?_cases (h : t.blank = s.blank) (place? : Option Nat) :
    (s.storeAt? place? = none ∧ t.storeAt? place? = none) ∨
      ∃ store store', s.storeAt? place? = some store ∧ t.storeAt? place? = some store' ∧
        store'.blank = store.blank := by
  cases place? with
  | none => exact .inr ⟨_, _, rfl, rfl, rfl⟩
  | some place =>
    cases hs : s.stores.get? place with
    | none => exact .inl ⟨hs, known_stores.get?_eq_none h hs⟩
    | some store =>
      obtain ⟨store', ht, hstore⟩ := known_stores.exists_get? h hs
      exact .inr ⟨store, store', hs, ht, hstore⟩

/-- The custody of a manager is found in both sessions or in neither, and differs in keys only. -/
theorem custody?_cases (h : t.blank = s.blank) (i : Nat) :
    (s.custody? i = none ∧ t.custody? i = none) ∨
      ∃ entry entry' c c', s.custody? i = some (entry, c) ∧ t.custody? i = some (entry', c') ∧
        entry'.blank = entry.blank ∧ c'.blank = c.blank := by
  rw [custody?_eq, custody?_eq]
  cases hs : s.managers.get? i with
  | none =>
    have ht : t.managers.get? i = none := known_managers.get?_eq_none h hs
    exact .inl ⟨rfl, by rw [ht]; rfl⟩
  | some entry =>
    obtain ⟨entry', ht, hentry⟩ := known_managers.exists_get? h hs
    obtain ⟨hmanager, hplace, hstorePlace⟩ := ManagerEntry.blank_eq_iff.mp hentry
    have ht : t.managers.get? i = some entry' := ht
    rw [ht]
    simp only [Option.bind_some, hplace, hstorePlace]
    cases hs : s.services.get? entry.service with
    | none =>
      have ht : t.services.get? entry.service = none := known_services.get?_eq_none h hs
      exact .inl ⟨rfl, by rw [ht]; rfl⟩
    | some service =>
      obtain ⟨service', ht, hservice⟩ := known_services.exists_get? h hs
      have ht : t.services.get? entry.service = some service' := ht
      rw [ht]
      simp only [Option.bind_some]
      rcases storeAt?_cases h entry.store with ⟨hs, ht⟩ | ⟨store, store', hs, ht, hstore⟩
      · exact .inl ⟨by rw [hs]; rfl, by rw [ht]; rfl⟩
      · rw [hs, ht]
        refine .inr ⟨entry, entry', _, _, rfl, rfl, hentry, Custody.blank_eq_iff.mpr ?_⟩
        exact ⟨hmanager, hservice, hstore, (blank_eq_iff.mp h).1, (blank_eq_iff.mp h).2.1⟩

theorem blank_withCustody (h : t.blank = s.blank) (i : Nat) {entry entry' : ManagerEntry}
    (hentry : entry'.blank = entry.blank) {c c' : Custody} (hc : c'.blank = c.blank) :
    (t.withCustody i entry' c').blank = (s.withCustody i entry c).blank := by
  obtain ⟨-, hnow, hservices, hstores, hmanagers, hlimit⟩ := blank_eq_iff.mp h
  obtain ⟨-, hplace, hstorePlace⟩ := ManagerEntry.blank_eq_iff.mp hentry
  obtain ⟨hmanager, hservice, hstore, hentropy, -⟩ := Custody.blank_eq_iff.mp hc
  refine blank_eq_iff.mpr ⟨hentropy, hnow, ?_, ?_, ?_, hlimit⟩
  · show (t.services.set entry'.service c'.service).map _ = (s.services.set _ _).map _
    rw [Shelf.set_map, Shelf.set_map, hservices, hplace, hservice]
  · unfold withCustody
    simp only [hstorePlace]
    cases entry.store with
    | none => exact hstores
    | some place => rw [Shelf.set_map, Shelf.set_map, hstores, hstore]
  · have hnew : ManagerEntry.blank { entry' with manager := c'.manager } =
        ManagerEntry.blank { entry with manager := c.manager } :=
      ManagerEntry.blank_eq_iff.mpr ⟨hmanager, hplace, hstorePlace⟩
    show (t.managers.set i _).map _ = (s.managers.set i _).map _
    rw [Shelf.set_map, Shelf.set_map, hmanagers, hnew]

theorem onCustody_apply {α : Type} (i : Nat) (f : Custody → α × Custody) (s : Session) :
    onCustody i f s = match s.custody? i with
      | none => (none, s)
      | some (entry, c) => (some (f c).1, s.withCustody i entry (f c).2) := by
  show (match s.custody? i with
    | none => (pure none : StateM Session (Option α))
    | some (entry, c) => do
      set (s.withCustody i entry (f c).2)
      return some (f c).1) s = _
  cases s.custody? i <;> rfl

/-- Steps of custodies that keep keys apart from all else agree. -/
theorem agrees_onCustody {α β : Type} {R : α → β → Prop} {f : Custody → α × Custody}
    {g : Custody → β × Custody}
    (h : ∀ c d : Custody, d.blank = c.blank → R (f c).1 (g d).1 ∧ (g d).2.blank = (f c).2.blank)
    (i : Nat) : Agrees (Option.Rel R) (onCustody i f : StateM Session _)
      (onCustody i g : StateM Session _) := by
  intro s t hblank
  show Agree _ (Except.ok (onCustody i f s).1, (onCustody i f s).2)
    (Except.ok (onCustody i g t).1, (onCustody i g t).2)
  rcases custody?_cases hblank i with ⟨hs, ht⟩ | ⟨entry, entry', c, c', hs, ht, hentry, hc⟩
  · rw [onCustody_apply, onCustody_apply, hs, ht]
    exact .ok .none hblank
  · obtain ⟨hresult, hafter⟩ := h c c' hc
    rw [onCustody_apply, onCustody_apply, hs, ht]
    exact .ok (.some hresult) (blank_withCustody hblank i hentry hafter)

/-- The same key is generated whatever master keys there are, or there is the same error. -/
theorem agrees_generateKey (name masterKeyId : String) :
    Agrees (fun a b : DataKey => b.key = a.key) (generateKey name masterKeyId)
      (generateKey name masterKeyId) := by
  unfold generateKey
  refine (known_managers.agrees_place name).bind fun i _ hi => ?_
  subst hi
  have hcustody := agrees_onCustody (R := fun a b : Except Error DataKey =>
    DataKey.key <$> b = DataKey.key <$> a) (f := (·.generateKey masterKeyId))
    (g := (·.generateKey masterKeyId)) (fun c d h => Custody.generateKey_congr h masterKeyId) i
  refine hcustody.bind fun a b hab => ?_
  cases hab with
  | none => exact agrees_throw _
  | some hkeys => exact agrees_ofError_of_map_eq hkeys

/-- Has a manager retrieve a key; there is no answer from a manager that is not found. -/
def retrieveFrom (name : String) (metadata : Bytes) : Acting (Option KeyAnswer) := do
  let i ← place .managers name
  (onCustody i (·.retrieveKey metadata) : StateM Session _)

/-- What is retrieved, and whether it is, leaves no trace. -/
theorem agrees_retrieveFrom (name : String) (metadata metadata' : Bytes) :
    Agrees (fun _ _ => True) (retrieveFrom name metadata) (retrieveFrom name metadata') := by
  unfold retrieveFrom
  refine (known_managers.agrees_place name).bind fun i _ hi => ?_
  subst hi
  refine (agrees_onCustody (R := fun _ _ => True) (fun c d h => ⟨trivial, ?_⟩) i).mono
    fun _ _ _ => trivial
  rw [Custody.blank_retrieveKey, Custody.blank_retrieveKey, h]

end Session

end ModularEncryption
