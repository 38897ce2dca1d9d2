import AssetPlan.ConfigError

/-! # File systems

What a resolution asks of a file system: whether a path is a file, and its bytes. -/

namespace AssetPlan

/-- A file system at one moment. -/
structure FileSystem where
  isFile : String → Bool
  read : String → Except ReadFault (List UInt8)

end AssetPlan
