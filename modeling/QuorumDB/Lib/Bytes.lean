import Mathlib.Data.List.Basic

/-! Byte strings, as `std::string` and raw buffers hold them. -/

namespace QuorumDB

abbrev Bytes := List UInt8

end QuorumDB
