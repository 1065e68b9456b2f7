import ModularEncryption.CipherSuite
import ModularEncryption.Clock
import ModularEncryption.Error.Refusal
import ModularEncryption.Table
import ModularEncryption.Text.Blank
import ModularEncryption.Text.Decimal

/-! # Settings

The settings of encryption are read from string properties (`ofProperties`). A property that is
absent leaves its setting at the default; blanks around a value are ignored. The first value that
cannot be used, in the order length of keys, capacity, suite, local wrapping, lifetime, is the
error. -/

namespace ModularEncryption

/-- The settings of encryption. -/
structure Settings where
  suite : CipherSuite := .default
  wrapLocally : Bool := false
  dataKeyLengthBits : Nat := 128
  keyCacheLifetime : Duration := 600 * second
  keyCacheCapacity : Nat := 1000
deriving DecidableEq, Repr

namespace Settings

/-- The settings where no property is given. -/
def default : Settings := {}

/-- The length of data keys in bytes. -/
def dataKeyLength (s : Settings) : Nat := s.dataKeyLengthBits / 8

/-- The number that a value denotes. -/
def readNumber (value : String) : Except ValueFault Nat :=
  (Text.Decimal.read value).mapError .number

/-- The truth value that a value denotes. -/
def readTruth (value : String) : Except ValueFault Bool :=
  if value = "true" then .ok true
  else if value = "false" then .ok false
  else .error .truthValue

/-- The suite that a value names. -/
def readSuite (value : String) : Except ValueFault CipherSuite :=
  match CipherSuite.ofName? value with
  | some suite => .ok suite
  | none => .error (.algorithm value)

/-- The value of a setting: the default, or what its property denotes. -/
def readSetting {α : Type} (properties : Table String String) (setting : Setting)
    (read : String → Except ValueFault α) (default : α) : Except Error α :=
  match properties.get? setting.key with
  | none => .ok default
  | some value =>
    (read (Text.trim value)).mapError fun fault => { cause := .settingUnreadable setting fault }

/-- The settings that properties give. -/
def ofProperties (properties : Table String String) : Except Error Settings := do
  let bits ← readSetting properties .dataKeyLengthBits readNumber default.dataKeyLengthBits
  refuseIf (bits % 8 ≠ 0 ∨ bits / 8 ∉ validKeyLengths) (.settingKeyLength bits)
  let capacity ← readSetting properties .keyCacheCapacity readNumber default.keyCacheCapacity
  refuseIf (capacity = 0) .settingCapacityZero
  let suite ← readSetting properties .algorithm readSuite default.suite
  let wrapLocally ← readSetting properties .wrapLocally readTruth default.wrapLocally
  let seconds ← readSetting properties .keyCacheLifetimeSeconds readNumber
    (default.keyCacheLifetime / second)
  return { suite, wrapLocally, dataKeyLengthBits := bits, keyCacheLifetime := seconds * second,
           keyCacheCapacity := capacity }

end Settings

end ModularEncryption
