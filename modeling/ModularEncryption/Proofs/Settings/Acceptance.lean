import ModularEncryption.Error.Report
import ModularEncryption.Proofs.Settings.Values

/-! # Which properties are accepted

Every setting has a set of texts that denote its values (`Setting.Denotes`). Properties are accepted
exactly if each of the five settings is absent or has such a text, up to blanks at its ends, and
then the settings are what the texts denote and the defaults elsewhere. Otherwise the error names
the first setting at fault, in a fixed order (`Setting.FirstInvalid`). Nothing else of the
properties matters (`Settings.ofProperties_exact`). -/

namespace ModularEncryption

namespace Setting

/-- The values of a setting. -/
abbrev Value : Setting → Type
  | .algorithm => CipherSuite
  | .wrapLocally => Bool
  | .dataKeyLengthBits => Nat
  | .keyCacheLifetimeSeconds => Duration
  | .keyCacheCapacity => Nat

/-- **What a text without blanks at its ends denotes.** -/
def Denotes (t : String) : (k : Setting) → k.Value → Prop
  | .algorithm, suite => CipherSuite.SpelledAs t (CipherSuite.name suite)
  | .wrapLocally, truth => t = if truth then "true" else "false"
  | .dataKeyLengthBits, bits =>
    (Text.Decimal.Writes t bits ∧ bits < 2 ^ 64) ∧ (bits = 128 ∨ bits = 192 ∨ bits = 256)
  | .keyCacheLifetimeSeconds, lifetime =>
    ∃ seconds : Nat, (Text.Decimal.Writes t seconds ∧ seconds < 2 ^ 64) ∧
      lifetime = seconds * second
  | .keyCacheCapacity, capacity =>
    (Text.Decimal.Writes t capacity ∧ capacity < 2 ^ 64) ∧ capacity ≠ (0 : Nat)

end Setting

/-- The value of a setting. -/
def Settings.value (s : Settings) : (k : Setting) → k.Value
  | .algorithm => s.suite
  | .wrapLocally => s.wrapLocally
  | .dataKeyLengthBits => s.dataKeyLengthBits
  | .keyCacheLifetimeSeconds => s.keyCacheLifetime
  | .keyCacheCapacity => s.keyCacheCapacity

/-- **An error names a setting**: the property is invalid data, and the wording starts with it. -/
def Error.Names (e : Error) (k : Setting) : Prop :=
  e.kind = .dataInvalid ∧ ∃ rest, e.message = "Invalid value for " ++ k.key ++ ": " ++ rest

namespace Setting

section Properties

variable (properties : Table String String)

/-- **Properties give a setting a value**: the default where they have none, and else what the text
denotes between the blanks at its ends. -/
def Gives (k : Setting) (a : k.Value) : Prop :=
  match properties.get? k.key with
  | none => a = Settings.default.value k
  | some text => ∃ t, Text.Trims text t ∧ Denotes t k a

/-- A setting is absent or has a valid text. -/
def Valid (k : Setting) : Prop :=
  ∀ text, properties.get? k.key = some text → ∃ t a, Text.Trims text t ∧ Denotes t k a

/-- The order in which settings are read. -/
def order : List Setting :=
  [.dataKeyLengthBits, .keyCacheCapacity, .algorithm, .wrapLocally, .keyCacheLifetimeSeconds]

/-- **A setting is the first that is not valid.** -/
def FirstInvalid (k : Setting) : Prop :=
  ∃ before after, order = before ++ k :: after ∧ (∀ k' ∈ before, k'.Valid properties) ∧
    ¬ k.Valid properties

variable {properties}

theorem valid_iff_exists_gives {k : Setting} :
    k.Valid properties ↔ ∃ a, k.Gives properties a := by
  unfold Valid Gives
  cases hget : properties.get? k.key with
  | none => simp
  | some text =>
    constructor
    · intro h
      obtain ⟨t, a, ht, ha⟩ := h text rfl
      exact ⟨a, t, ht, ha⟩
    · rintro ⟨a, t, ht, ha⟩ _ ⟨⟩
      exact ⟨t, a, ht, ha⟩

/-! ### One setting is read -/

variable {α : Type} {k : Setting} {read : String → Except ValueFault α} {default a : α}

/-- A value is read exactly if it is the default of an absent setting, or is read from the text
between the blanks. -/
theorem readSetting_eq_ok_iff :
    Settings.readSetting properties k read default = .ok a ↔
      match properties.get? k.key with
      | none => a = default
      | some text => ∃ t, Text.Trims text t ∧ read t = .ok a := by
  unfold Settings.readSetting
  cases properties.get? k.key with
  | none => rw [Except.ok.injEq, eq_comm]
  | some text =>
    rw [mapError_eq_ok_iff]
    constructor
    · exact fun h => ⟨_, Text.trims_trim text, h⟩
    · rintro ⟨t, ht, h⟩
      rw [Text.trim_eq_iff.mpr ht, h]

theorem names_of_readSetting_eq_error {e : Error}
    (h : Settings.readSetting properties k read default = .error e) : e.Names k := by
  unfold Settings.readSetting at h
  cases hget : properties.get? k.key with
  | none => rw [hget] at h; cases h
  | some text =>
    rw [hget] at h
    obtain ⟨fault, -, rfl⟩ := mapError_eq_error_iff.mp h
    exact ⟨rfl, Cause.valueMessage fault, rfl⟩

/-- Only the property of the setting is looked at. -/
theorem readSetting_congr {properties' : Table String String}
    (h : properties'.get? k.key = properties.get? k.key) :
    Settings.readSetting properties' k read default =
      Settings.readSetting properties k read default := by
  rw [Settings.readSetting, Settings.readSetting, h]

variable (properties)

/-- A setting is read, with the check that is made of it alone. -/
def reading : (k : Setting) → Except Error k.Value
  | .algorithm =>
    Settings.readSetting properties .algorithm Settings.readSuite Settings.default.suite
  | .wrapLocally =>
    Settings.readSetting properties .wrapLocally Settings.readTruth Settings.default.wrapLocally
  | .dataKeyLengthBits => do
    let bits ← Settings.readSetting properties .dataKeyLengthBits Settings.readNumber
      Settings.default.dataKeyLengthBits
    refuseIf (bits % 8 ≠ 0 ∨ bits / 8 ∉ validKeyLengths) (.settingKeyLength bits)
    return bits
  | .keyCacheLifetimeSeconds => do
    let seconds ← Settings.readSetting properties .keyCacheLifetimeSeconds Settings.readNumber
      (Settings.default.keyCacheLifetime / second)
    return seconds * second
  | .keyCacheCapacity => do
    let capacity ← Settings.readSetting properties .keyCacheCapacity Settings.readNumber
      Settings.default.keyCacheCapacity
    refuseIf (capacity = 0) .settingCapacityZero
    return capacity

variable {properties}

/-- The lengths of keys in bits are three. -/
theorem bits_iff {bits : Nat} :
    ¬ (bits % 8 ≠ 0 ∨ bits / 8 ∉ validKeyLengths) ↔ bits = 128 ∨ bits = 192 ∨ bits = 256 := by
  simp only [validKeyLengths, List.mem_cons, List.not_mem_nil, or_false]
  omega

/-- A value that is checked after it is read is one that is read and passes. -/
theorem checked_eq_ok_iff {x : Except Error α} {condition : α → Prop} [DecidablePred condition]
    {cause : α → Cause} :
    (do let b ← x; refuseIf (condition b) (cause b); return b) = .ok a ↔
      x = .ok a ∧ ¬ condition a := by
  simp only [bind_eq_ok_iff, refuseIf_eq_ok_iff]
  constructor
  · rintro ⟨b, hb, -, hpass, h⟩
    cases h
    exact ⟨hb, hpass⟩
  · rintro ⟨hx, hpass⟩
    exact ⟨a, hx, (), hpass, rfl⟩

theorem lifetime_eq_ok_iff {x : Except Error Nat} {lifetime : Duration} :
    (do let seconds ← x; return seconds * second) = .ok lifetime ↔
      ∃ seconds, x = .ok seconds ∧ lifetime = seconds * second := by
  rw [bind_eq_ok_iff]
  simp only [pure, Except.pure, Except.ok.injEq, eq_comm]

/-- **A setting is read as what the properties give it.** -/
theorem reading_eq_ok_iff {a : k.Value} : k.reading properties = .ok a ↔ k.Gives properties a := by
  cases k with
  | algorithm =>
    rw [reading, readSetting_eq_ok_iff]
    simp only [Settings.readSuite_eq_ok_iff]
    rfl
  | wrapLocally =>
    rw [reading, readSetting_eq_ok_iff]
    simp only [Settings.readTruth_eq_ok_iff]
    rfl
  | dataKeyLengthBits =>
    rw [reading, checked_eq_ok_iff, readSetting_eq_ok_iff, bits_iff, Gives]
    simp only [Settings.readNumber_eq_ok_iff, Denotes]
    cases properties.get? dataKeyLengthBits.key with
    | none => exact and_iff_left_of_imp fun h => .inl h
    | some text => simp only [← exists_and_right, and_assoc]
  | keyCacheLifetimeSeconds =>
    rw [reading, lifetime_eq_ok_iff, Gives]
    simp only [readSetting_eq_ok_iff, Settings.readNumber_eq_ok_iff, Denotes]
    cases properties.get? keyCacheLifetimeSeconds.key with
    | none =>
      constructor
      · rintro ⟨_, rfl, rfl⟩
        rfl
      · rintro rfl
        exact ⟨_, rfl, rfl⟩
    | some text =>
      constructor
      · rintro ⟨seconds, ⟨t, ht, hnumber⟩, hlifetime⟩
        exact ⟨t, ht, seconds, hnumber, hlifetime⟩
      · rintro ⟨t, ht, seconds, hnumber, hlifetime⟩
        exact ⟨seconds, ⟨t, ht, hnumber⟩, hlifetime⟩
  | keyCacheCapacity =>
    rw [reading, checked_eq_ok_iff, readSetting_eq_ok_iff, Gives]
    simp only [Settings.readNumber_eq_ok_iff, Denotes]
    cases properties.get? keyCacheCapacity.key with
    | none =>
      refine and_iff_left_of_imp ?_
      rintro rfl
      decide
    | some text => simp only [← exists_and_right, and_assoc]

theorem names_of_checked_eq_error {x : Except Error α} {condition : α → Prop}
    [DecidablePred condition] {cause : α → Cause} {e : Error}
    (hx : ∀ e, x = .error e → e.Names k) (hcause : ∀ a, Error.Names ⟨cause a, [], []⟩ k)
    (h : (do let b ← x; refuseIf (condition b) (cause b); return b) = .error e) : e.Names k := by
  rcases bind_eq_error_iff.mp h with h | ⟨b, -, h⟩
  · exact hx e h
  rcases bind_eq_error_iff.mp h with h | ⟨-, -, h⟩
  · obtain ⟨-, rfl⟩ := refuseIf_eq_error_iff.mp h
    exact hcause b
  · cases h

theorem names_of_reading_eq_error {e : Error} (h : k.reading properties = .error e) :
    e.Names k := by
  cases k with
  | algorithm | wrapLocally => exact names_of_readSetting_eq_error h
  | dataKeyLengthBits =>
    rw [reading] at h
    refine names_of_checked_eq_error (fun _ => names_of_readSetting_eq_error) (fun bits => ?_) h
    have hmessage : (Cause.settingKeyLength bits).message = "Invalid value for " ++
        dataKeyLengthBits.key ++ ": " ++ (toString bits ++ ", expected 128, 192 or 256") := by
      rw [← String.append_assoc]
      rfl
    exact ⟨rfl, _, hmessage⟩
  | keyCacheLifetimeSeconds =>
    rw [reading] at h
    rcases bind_eq_error_iff.mp h with h | ⟨seconds, -, h⟩
    · exact names_of_readSetting_eq_error h
    · cases h
  | keyCacheCapacity =>
    rw [reading] at h
    refine names_of_checked_eq_error (fun _ => names_of_readSetting_eq_error) (fun _ => ?_) h
    exact ⟨rfl, "must be positive", rfl⟩

theorem not_valid_of_reading_eq_error {e : Error} (h : k.reading properties = .error e) :
    ¬ k.Valid properties := by
  intro hvalid
  obtain ⟨a, ha⟩ := valid_iff_exists_gives.mp hvalid
  rw [reading_eq_ok_iff.mpr ha] at h
  cases h

theorem valid_of_reading_eq_ok {a : k.Value} (h : k.reading properties = .ok a) :
    k.Valid properties :=
  valid_iff_exists_gives.mpr ⟨a, reading_eq_ok_iff.mp h⟩

end Properties

end Setting

namespace Settings

/-! ### All settings are read -/

variable (properties : Table String String)

theorem ofProperties_eq :
    ofProperties properties = do
      let dataKeyLengthBits ← Setting.reading properties .dataKeyLengthBits
      let keyCacheCapacity ← Setting.reading properties .keyCacheCapacity
      let suite ← Setting.reading properties .algorithm
      let wrapLocally ← Setting.reading properties .wrapLocally
      let keyCacheLifetime ← Setting.reading properties .keyCacheLifetimeSeconds
      return { suite, wrapLocally, dataKeyLengthBits, keyCacheLifetime, keyCacheCapacity } := by
  simp only [ofProperties, Setting.reading, bind_assoc, pure_bind]

variable {properties}

/-- Settings are read exactly if each of them is. -/
theorem ofProperties_eq_ok_iff {s : Settings} :
    ofProperties properties = .ok s ↔ ∀ k, Setting.reading properties k = .ok (s.value k) := by
  rw [ofProperties_eq]
  constructor
  · intro h k
    simp only [bind_eq_ok_iff] at h
    obtain ⟨bits, hbits, capacity, hcapacity, suite, hsuite, wrapLocally, hwrap, lifetime,
      hlifetime, h⟩ := h
    cases h
    cases k
    · exact hsuite
    · exact hwrap
    · exact hbits
    · exact hlifetime
    · exact hcapacity
  · intro h
    rw [h .dataKeyLengthBits, h .keyCacheCapacity, h .algorithm, h .wrapLocally,
      h .keyCacheLifetimeSeconds]
    rfl

/-- The error is that of the first setting that is not read. -/
theorem first_of_ofProperties_eq_error {e : Error} (h : ofProperties properties = .error e) :
    ∃ k, k.FirstInvalid properties ∧ Setting.reading properties k = .error e := by
  rw [ofProperties_eq] at h
  have invalid {k : Setting} {e : Error} (hk : Setting.reading properties k = .error e) :
      ¬ k.Valid properties := Setting.not_valid_of_reading_eq_error hk
  have valid {k : Setting} {a : k.Value} (hk : Setting.reading properties k = .ok a) :
      k.Valid properties := Setting.valid_of_reading_eq_ok hk
  rcases bind_eq_error_iff.mp h with h | ⟨bits, hbits, h⟩
  · exact ⟨_, ⟨[], _, rfl, by simp, invalid h⟩, h⟩
  rcases bind_eq_error_iff.mp h with h | ⟨capacity, hcapacity, h⟩
  · exact ⟨_, ⟨[_], _, rfl, by simp [valid hbits], invalid h⟩, h⟩
  rcases bind_eq_error_iff.mp h with h | ⟨suite, hsuite, h⟩
  · exact ⟨_, ⟨[_, _], _, rfl, by simp [valid hbits, valid hcapacity], invalid h⟩, h⟩
  rcases bind_eq_error_iff.mp h with h | ⟨wrapLocally, hwrap, h⟩
  · exact ⟨_, ⟨[_, _, _], _, rfl, by simp [valid hbits, valid hcapacity, valid hsuite],
      invalid h⟩, h⟩
  rcases bind_eq_error_iff.mp h with h | ⟨lifetime, -, h⟩
  · exact ⟨_, ⟨[_, _, _, _], _, rfl,
      by simp [valid hbits, valid hcapacity, valid hsuite, valid hwrap], invalid h⟩, h⟩
  · cases h

/-- Properties that give no setting anything else are read alike. -/
theorem ofProperties_congr {properties' : Table String String}
    (h : ∀ k : Setting, properties'.get? k.key = properties.get? k.key) :
    ofProperties properties' = ofProperties properties := by
  simp only [ofProperties, Setting.readSetting_congr (h _)]

/-- **Properties are read exactly.** They are accepted if and only if each setting is absent or has
a valid text, and then the settings are what the texts denote, and the defaults elsewhere. A refusal
is for invalid data and names the first invalid setting. Properties of other names are never looked
at. -/
theorem ofProperties_exact (properties : Table String String) :
    ((∃ s, ofProperties properties = .ok s) ↔ ∀ k : Setting, k.Valid properties) ∧
    (∀ s, ofProperties properties = .ok s ↔ ∀ k : Setting, k.Gives properties (s.value k)) ∧
    (∀ e, ofProperties properties = .error e →
      ∃ k : Setting, k.FirstInvalid properties ∧ e.Names k) ∧
    ∀ properties' : Table String String,
      (∀ k : Setting, properties'.get? k.key = properties.get? k.key) →
        ofProperties properties' = ofProperties properties := by
  have hok : ∀ s, ofProperties properties = .ok s ↔
      ∀ k : Setting, k.Gives properties (s.value k) := fun s =>
    ofProperties_eq_ok_iff.trans (forall_congr' fun _ => Setting.reading_eq_ok_iff)
  refine ⟨⟨?_, ?_⟩, hok, ?_, fun _ => ofProperties_congr⟩
  · rintro ⟨s, hs⟩ k
    exact Setting.valid_iff_exists_gives.mpr ⟨s.value k, (hok s).mp hs k⟩
  · intro hvalid
    cases hresult : ofProperties properties with
    | ok s => exact ⟨s, rfl⟩
    | error e =>
      obtain ⟨k, ⟨_, _, -, -, hinvalid⟩, -⟩ := first_of_ofProperties_eq_error hresult
      exact absurd (hvalid k) hinvalid
  · intro e he
    obtain ⟨k, hfirst, hreading⟩ := first_of_ofProperties_eq_error he
    exact ⟨k, hfirst, Setting.names_of_reading_eq_error hreading⟩

namespace Sample

/-- Keys of 192 bits under the suite with counter mode, oddly written, and a property of another
name. -/
def odd : Table String String :=
  .ofList [("parquet.encryption.data.key.length.bits", "\t+00192\u3000"),
    ("parquet.encryption.algorithm", "aes_gcm_Ctr_v1"), ("parquet.encryption.keys", "none")]

/-- What the odd properties say. -/
def oddSettings : Settings :=
  { Settings.default with dataKeyLengthBits := 192, suite := .aesGcmCtrV1 }

/-- Three settings that are not valid. -/
def faulty : Table String String :=
  .ofList [("parquet.encryption.wrap.locally", "yes"), ("parquet.encryption.algorithm", "AES_CBC"),
    ("parquet.encryption.key.cache.capacity", "0")]

end Sample

open Sample in
/-- Oddly written settings are read, whatever the property of another name is; of three faults that
of the capacity is reported, which is the first. -/
theorem ofProperties_exact_odd :
    ofProperties odd = .ok oddSettings ∧
      (∀ k : Setting, k.Gives odd (oddSettings.value k)) ∧
      ofProperties (odd.insert "parquet.encryption.keys" "all") = .ok oddSettings ∧
      ofProperties faulty = .error { cause := .settingCapacityZero } ∧
      ∃ k : Setting, k.FirstInvalid faulty ∧ Error.Names { cause := .settingCapacityZero } k := by
  have hodd : ofProperties odd = .ok oddSettings := rfl
  have hfaulty : ofProperties faulty = .error { cause := .settingCapacityZero } := rfl
  obtain ⟨-, hgives, -, hcongr⟩ := ofProperties_exact odd
  have hkeys : ∀ k : Setting,
      (odd.insert "parquet.encryption.keys" "all").get? k.key = odd.get? k.key := by
    intro k
    cases k <;> rfl
  obtain ⟨-, -, hnames, -⟩ := ofProperties_exact faulty
  exact ⟨hodd, (hgives oddSettings).mp hodd, (hcongr _ hkeys).trans hodd, hfaulty,
    hnames _ hfaulty⟩

end Settings

end ModularEncryption
