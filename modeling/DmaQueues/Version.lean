import DmaQueues.Word.Mask

/-!
# Version registers

Physical and virtual functions see the same four fields at different places of
their version register. What the release and the IP code mean depends on the
platform.
-/

namespace DmaQueues

inductive Platform where
  | soft
  | versal
  deriving DecidableEq, Repr

def Platform.all : List Platform :=
  [soft, versal]

/-- Kind of IP, read relative to the platform. -/
inductive Ip where
  | qdmaSoft
  | eqdmaSoft
  | versalHard
  | versalSoft
  deriving DecidableEq, Repr

def Ip.all : List Ip :=
  [qdmaSoft, eqdmaSoft, versalHard, versalSoft]

/-- Tool release that generated the IP. -/
inductive Release where
  | v2018_3
  | v2019_1
  | v2019_2
  | v2020_1
  | v2020_2
  deriving DecidableEq, Repr

/-- All releases, the earliest first. -/
def Release.all : List Release :=
  [v2018_3, v2019_1, v2019_2, v2020_1, v2020_2]

/-- Position in time. -/
def Release.rank : Release → Nat
  | v2018_3 => 0
  | v2019_1 => 1
  | v2019_2 => 2
  | v2020_1 => 3
  | v2020_2 => 4

/-- Earlier releases come first, and an unknown release before all. -/
def Release.order (a b : Option Release) : Ordering :=
  compare (a.elim 0 fun r => r.rank + 1) (b.elim 0 fun r => r.rank + 1)

inductive Revision where
  | base
  | patch
  deriving DecidableEq, Repr

def Revision.all : List Revision :=
  [base, patch]

structure Version where
  platform : Option Platform
  ip : Option Ip
  release : Option Release
  revision : Revision
  /-- The register value that was decoded. -/
  raw : UInt32
  deriving DecidableEq, Repr

namespace Version

/-- Where a version register keeps its fields. -/
structure Masks where
  platform : Mask
  release : Mask
  ip : Mask
  revision : Mask

def physical : Masks :=
  ⟨Mask.ones 31 28, Mask.ones 27 24, Mask.ones 23 20, Mask.ones 19 16⟩

def virtual : Masks :=
  ⟨Mask.ones 15 12, Mask.ones 11 8, Mask.ones 7 4, Mask.ones 3 0⟩

def platformOfCode? : Nat → Option Platform
  | 0 => some .soft
  | 1 => some .versal
  | _ => none

def ipOfCode? : Option Platform → Nat → Option Ip
  | some .soft, 0 => some .qdmaSoft
  | some .soft, 1 => some .eqdmaSoft
  | some .versal, 0 => some .versalHard
  | some .versal, 1 => some .versalSoft
  | _, _ => none

def releaseOfCode? : Option Platform → Nat → Option Release
  | some .soft, 0 => some .v2018_3
  | some .soft, 1 => some .v2019_1
  | some .soft, 2 => some .v2019_2
  | some .soft, 3 => some .v2020_1
  | some .soft, 4 => some .v2020_2
  | some .versal, 0 => some .v2019_2
  | some .versal, 1 => some .v2020_1
  | some .versal, 2 => some .v2020_2
  | _, _ => none

/-- Reads a version register of a virtual or a physical function. -/
def decode (isVirtual : Bool) (raw : UInt32) : Version :=
  let masks := if isVirtual then virtual else physical
  let platform := platformOfCode? (masks.platform.get raw).toNat
  { platform
    ip := ipOfCode? platform (masks.ip.get raw).toNat
    release := releaseOfCode? platform (masks.release.get raw).toNat
    revision := if masks.revision.get raw = 1 then .patch else .base
    raw }

def platformText : Option Platform → String
  | some .soft => "Soft IP"
  | some .versal => "Versal"
  | none => "unknown device"

def ipText : Option Ip → String
  | some .qdmaSoft => "QDMA Soft IP"
  | some .eqdmaSoft => "EQDMA Soft IP"
  | some .versalHard => "Versal Hard IP"
  | some .versalSoft => "Versal Soft IP"
  | none => "unknown IP"

def releaseText : Option Release → String
  | some .v2018_3 => "2018.3"
  | some .v2019_1 => "2019.1"
  | some .v2019_2 => "2019.2"
  | some .v2020_1 => "2020.1"
  | some .v2020_2 => "2020.2"
  | none => "unknown release"

def revisionText : Revision → String
  | .base => "base"
  | .patch => "patch"

def text (v : Version) : String :=
  platformText v.platform ++ " / " ++ ipText v.ip ++ " / " ++ releaseText v.release ++ " (" ++
    revisionText v.revision ++ ")"

end Version

end DmaQueues
