import AoaBoard.Library.Fields

/-!
# The configuration of the pins

`GPIO.c` reaches the registers through word pointers, so they are a memory of
words: those behind `LPC_PINCON` and those behind `LPC_GPIO_BASE`, counted from
the base. `LPC_GPIO_TypeDef` has eight words.
-/

namespace AoaBoard.Gpio

inductive Word
  | pincon (k : ℕ)
  | gpio (k : ℕ)
  deriving DecidableEq

abbrev Registers := Word → UInt32

def pinSel0 : ℕ := 0
def pinMode0 : ℕ := 16
def pinModeOd0 : ℕ := 26
def gpioTypeDefWords : ℕ := 8

inductive PinFunction
  | dafaultFunc
  | firstAltFunc
  | secondAltFunc
  | thirdAltFunc
  deriving DecidableEq

inductive PinResMode
  | pullUp
  | lastState
  | none
  | pullDown
  deriving DecidableEq

inductive PinOdMode
  | notOpenDrain
  | openDrain
  deriving DecidableEq

inductive PinDirection
  | in
  | out
  deriving DecidableEq

def PinFunction.code : PinFunction → ℕ
  | .dafaultFunc => 0
  | .firstAltFunc => 1
  | .secondAltFunc => 2
  | .thirdAltFunc => 3

def PinResMode.code : PinResMode → ℕ
  | .pullUp => 0
  | .lastState => 1
  | .none => 2
  | .pullDown => 3

def PinOdMode.code : PinOdMode → ℕ
  | .notOpenDrain => 0
  | .openDrain => 1

def PinDirection.code : PinDirection → ℕ
  | .in => 0
  | .out => 1

/-- `*p &= mask` -/
def andAt (r : Registers) (p : Word) (mask : UInt32) : Registers :=
  Function.update r p (r p &&& mask)

/-- `*p |= v` -/
def orAt (r : Registers) (p : Word) (v : UInt32) : Registers := Function.update r p (r p ||| v)

/-- The two bits of a pin in the registers that begin at `base`, two for each port. -/
def setTwoBits (base : ℕ) (r : Registers) (portNum pinNum code : ℕ) : Registers :=
  let pinNum_t := if 16 ≤ pinNum then pinNum - 16 else pinNum
  let idx := if 16 ≤ pinNum then 2 * portNum + 1 else 2 * portNum
  let r := andAt r (.pincon (base + idx)) (~~~(3 <<< UInt32.ofNat (pinNum_t * 2)))
  orAt r (.pincon (base + idx)) (UInt32.ofNat code <<< UInt32.ofNat (pinNum_t * 2))

def setPinFunc (r : Registers) (portNum pinNum : ℕ) (func : PinFunction) : Registers :=
  setTwoBits pinSel0 r portNum pinNum func.code

def setPinDir (r : Registers) (portNum pinNum : ℕ) (dir : PinDirection) : Registers :=
  let fioDir := Word.gpio (gpioTypeDefWords * portNum)
  -- the shift of an `int` here, by 31 into its sign
  if dir = .in then andAt r fioDir (~~~(1 <<< UInt32.ofNat pinNum))
  else orAt r fioDir (1 <<< UInt32.ofNat pinNum)

def setResistorMode (r : Registers) (portNum pinNum : ℕ) (resMode : PinResMode) : Registers :=
  if portNum = 0 ∧ 27 ≤ pinNum ∧ pinNum ≤ 30 then r
  else setTwoBits pinMode0 r portNum pinNum resMode.code

def setOpenDrainMode (r : Registers) (portNum pinNum : ℕ) (odMode : PinOdMode) : Registers :=
  if portNum = 0 ∧ 27 ≤ pinNum ∧ pinNum ≤ 28 then r
  else
    let pinModeOd := Word.pincon (pinModeOd0 + portNum)
    if odMode = .openDrain then orAt r pinModeOd (1 <<< UInt32.ofNat pinNum)
    else andAt r pinModeOd (~~~(1 <<< UInt32.ofNat pinNum))

def initPinAsGPIO (r : Registers) (portNum pinNum : ℕ) (dir : PinDirection) (resMode : PinResMode)
    (odMode : PinOdMode) : Registers :=
  let r := setPinFunc r portNum pinNum .dafaultFunc
  let r := setPinDir r portNum pinNum dir
  let r := setResistorMode r portNum pinNum resMode
  setOpenDrainMode r portNum pinNum odMode

def initPinNotAsGPIO (r : Registers) (portNum pinNum : ℕ) (func : PinFunction)
    (resMode : PinResMode) (odMode : PinOdMode) : Registers :=
  let r := setPinFunc r portNum pinNum func
  let r := setResistorMode r portNum pinNum resMode
  setOpenDrainMode r portNum pinNum odMode

structure Pin where
  port : Fin 5
  num : Fin 32
  deriving DecidableEq

inductive Call
  | asGpio (pin : Pin) (dir : PinDirection) (resMode : PinResMode) (odMode : PinOdMode)
  | notAsGpio (pin : Pin) (func : PinFunction) (resMode : PinResMode) (odMode : PinOdMode)

def Call.pin : Call → Pin
  | .asGpio pin _ _ _ => pin
  | .notAsGpio pin _ _ _ => pin

def call (r : Registers) : Call → Registers
  | .asGpio pin dir resMode odMode => initPinAsGPIO r pin.port pin.num dir resMode odMode
  | .notAsGpio pin func resMode odMode => initPinNotAsGPIO r pin.port pin.num func resMode odMode

def calls (r : Registers) (cs : List Call) : Registers := cs.foldl call r

end AoaBoard.Gpio
