/-! # The properties that configure encryption

Each setting is read from a string property; `key` is the property's name. -/

namespace ModularEncryption

/-- A setting that a property may give. -/
inductive Setting where
  | algorithm
  | wrapLocally
  | dataKeyLengthBits
  | keyCacheLifetimeSeconds
  | keyCacheCapacity
deriving DecidableEq, Repr

/-- The name of the property of a setting. -/
def Setting.key : Setting → String
  | .algorithm => "parquet.encryption.algorithm"
  | .wrapLocally => "parquet.encryption.wrap.locally"
  | .dataKeyLengthBits => "parquet.encryption.data.key.length.bits"
  | .keyCacheLifetimeSeconds => "parquet.encryption.key.cache.lifetime.seconds"
  | .keyCacheCapacity => "parquet.encryption.key.cache.capacity"

end ModularEncryption
