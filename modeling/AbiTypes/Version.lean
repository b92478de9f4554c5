/-!
# Version — the ABI versions

A version is any integer.  Two are known; a type is supported from the version that introduced it on.
-/
namespace AbiTypes

/-- The versions whose types are known, lowest first. -/
def knownVersions : List Int := [1, 2]

/-- The version assumed when none is given: the newest known one. -/
def defaultVersion : Int := 2

/-- The bits of a standard address as a map key: tag, empty anycast, workchain, account. -/
def addressKeyBits : Nat := 2 + 1 + 8 + 256

end AbiTypes
