/-!
# Context selectors

Every context memory of the engine has a selector. Its hardware code is its
position in `Selector.all`.
-/

namespace DmaQueues

/-- Data direction of a descriptor queue: host to card or card to host. -/
inductive Direction where
  | h2c
  | c2h
  deriving DecidableEq, Repr

def Direction.all : List Direction :=
  [h2c, c2h]

inductive Selector where
  | softwareC2h
  | softwareH2c
  | hardwareC2h
  | hardwareH2c
  | creditC2h
  | creditH2c
  | completion
  | prefetch
  | interruptAggregation
  | pasidRamLow
  | pasidRamHigh
  | timer
  | functionMap
  deriving DecidableEq, Repr

namespace Selector

/-- All selectors in code order. -/
def all : List Selector :=
  [softwareC2h, softwareH2c, hardwareC2h, hardwareH2c, creditC2h, creditH2c, completion, prefetch,
    interruptAggregation, pasidRamLow, pasidRamHigh, timer, functionMap]

def code : Selector → Nat
  | softwareC2h => 0
  | softwareH2c => 1
  | hardwareC2h => 2
  | hardwareH2c => 3
  | creditC2h => 4
  | creditH2c => 5
  | completion => 6
  | prefetch => 7
  | interruptAggregation => 8
  | pasidRamLow => 9
  | pasidRamHigh => 10
  | timer => 11
  | functionMap => 12

def ofCode? (code : Nat) : Option Selector :=
  all[code]?

/-- Short name used in log messages. -/
def label : Selector → String
  | softwareC2h => "SW_C2H"
  | softwareH2c => "SW_H2C"
  | hardwareC2h => "HW_C2H"
  | hardwareH2c => "HW_H2C"
  | creditC2h => "CR_C2H"
  | creditH2c => "CR_H2C"
  | completion => "CMPT"
  | prefetch => "PFTCH"
  | interruptAggregation => "INT_COAL"
  | pasidRamLow => "PASID_RAM_LOW"
  | pasidRamHigh => "PASID_RAM_HIGH"
  | timer => "TIMER"
  | functionMap => "FMAP"

/-- Software descriptor context of a direction. -/
def software : Direction → Selector
  | .c2h => softwareC2h
  | .h2c => softwareH2c

/-- Hardware descriptor context of a direction. -/
def hardware : Direction → Selector
  | .c2h => hardwareC2h
  | .h2c => hardwareH2c

/-- Credit context of a direction. -/
def credit : Direction → Selector
  | .c2h => creditC2h
  | .h2c => creditH2c

theorem ofCode?_code (s : Selector) : ofCode? s.code = some s := by
  cases s <;> rfl

end Selector

end DmaQueues
