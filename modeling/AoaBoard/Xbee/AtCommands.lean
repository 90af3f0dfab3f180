import AoaBoard.Xbee.Driver

/-!
# The AT commands of the XBee driver

`xbee_init` puts the module into command mode and sets its parameters, each with
a line of text that the module answers with `OK`. The module sends at any time:
a `Schedule` says which bytes arrive before each reading of the clock and each
call on the receive queue, what the clock shows there and what the uninitialised
arrays on the stack hold. `Uart` counts these points and records the bytes that
arrived, how often one found 255 others pending, and the conversation: the texts
sent and the bytes that `rf_uart_receive` handed over. A call with too little
`fuel` for its loop has no result.
-/

namespace AoaBoard.Xbee.AtCommands
open Library.Bytes Board Board.RxQueue

structure Schedule where
  arrivals : ℕ → List UInt8
  clock : ℕ → UInt32
  nondecreasing : ∀ i j, i ≤ j → clock i ≤ clock j
  stack : ℕ → ℕ → UInt8

inductive Talk
  | sent (text : List UInt8)
  | handed (data : UInt8)
  deriving DecidableEq

structure Uart where
  now : ℕ
  queue : Rxq
  arrived : List UInt8
  overflows : ℕ
  talk : List Talk

def arrive (u : Uart) (data : UInt8) : Uart :=
  { u with queue := rxqPut u.queue data
           arrived := u.arrived ++ [data]
           overflows := if (content u.queue).length = 255 then u.overflows + 1 else u.overflows }

/-- The UART callback runs before the next reading or call. -/
def wait (σ : Schedule) (u : Uart) : Uart :=
  { (σ.arrivals u.now).foldl arrive u with now := u.now + 1 }

def timeGet (σ : Schedule) (u : Uart) : UInt32 × Uart := (σ.clock u.now, wait σ u)

def isEmpty (σ : Schedule) (u : Uart) : Bool × Uart := (rxqIsEmpty (wait σ u).queue, wait σ u)

def get (σ : Schedule) (u : Uart) : UInt8 × Uart :=
  let r := rxqGet (wait σ u).queue
  (r.1, { wait σ u with queue := r.2, talk := u.talk ++ [.handed r.1] })

def rfUartReceive (σ : Schedule) : ℕ → Uart → List UInt8 × Uart
  | 0, u => ([], u)
  | buflen + 1, u =>
    let e := isEmpty σ u
    if e.1 then ([], e.2)
    else
      let g := get σ e.2
      let rest := rfUartReceive σ buflen g.2
      (g.1 :: rest.1, rest.2)

def rfUartSendString (σ : Schedule) (text : List UInt8) (u : Uart) : Uart :=
  { wait σ u with talk := u.talk ++ [.sent text] }

def text (cs : List Char) : List UInt8 := cs.map fun c => UInt8.ofNat c.toNat

def cr : UInt8 := 0x0D
def respOk : List UInt8 := text ['O', 'K']
def xbeeEndCmd : List UInt8 := [cr]
def errorBufTooSmall : ℤ := -1
def errorTimeout : ℤ := -2

def toInt32 (v : UInt32) : ℤ := if v.toNat < 2 ^ 31 then v.toNat else v.toNat - 2 ^ 32

/-- The variables of `readLine` and a record of the offsets at which it stores. -/
structure Line where
  uart : Uart
  buf : ℕ → UInt8
  pos : UInt32
  stores : List ℕ

def store (l : Line) (data : UInt8) : Line :=
  { l with buf := Function.update l.buf l.pos.toNat data, stores := l.stores ++ [l.pos.toNat] }

def readLoop (σ : Schedule) (bufLen t : UInt32) : ℕ → Line → Option Line
  | 0, _ => none
  | fuel + 1, l =>
    if l.pos < bufLen then
      let clock := timeGet σ l.uart
      if clock.1 < t then
        let r := rfUartReceive σ 1 clock.2
        let l := r.1.foldl store { l with uart := r.2 }
        let len := UInt32.ofNat r.1.length
        if 0 < len ∧ l.buf l.pos.toNat = cr then some (store l 0)
        else readLoop σ bufLen t fuel { l with pos := l.pos + len }
      else some { l with uart := clock.2 }
    else some l

structure Reply where
  result : ℤ
  line : Line

def conclude (σ : Schedule) (bufLen t : UInt32) (l : Line) : Reply :=
  if bufLen ≤ l.pos then ⟨errorBufTooSmall, l⟩
  else
    let clock := timeGet σ l.uart
    let l := { l with uart := clock.2 }
    if t ≤ clock.1 then ⟨errorTimeout, l⟩ else ⟨toInt32 l.pos, l⟩

def readLine (σ : Schedule) (fuel : ℕ) (u : Uart) (buf : ℕ → UInt8) (bufLen timeout : UInt32) :
    Option Reply :=
  let clock := timeGet σ u
  let t := clock.1 + timeout
  (readLoop σ bufLen t fuel ⟨clock.2, buf, 0, []⟩).map (conclude σ bufLen t)

/-- `strcmp` finds the string at `buf`. -/
def strEq : List UInt8 → (ℕ → UInt8) → Bool
  | [], buf => buf 0 = 0
  | c :: cs, buf => buf 0 = c && strEq cs (shift buf 1)

structure Answer where
  err : ErrorT
  uart : Uart

def commandMode (σ : Schedule) (fuel : ℕ) (u : Uart) : Option Answer :=
  let u := rfUartSendString σ (text ['+', '+', '+']) u
  (readLine σ fuel u (σ.stack u.now) 10 1200).map fun r =>
    if r.result < 0 then ⟨.rfReadError, r.line.uart⟩
    else if strEq respOk r.line.buf = false then ⟨.rfCmdError, r.line.uart⟩
    else ⟨.ok, r.line.uart⟩

/-- `resp` is the memory at the response buffer, unless the pointer is `NULL`. -/
def atGet (σ : Schedule) (fuel : ℕ) (u : Uart) (atCmd : List UInt8) (resp : Option (ℕ → UInt8))
    (respLen : UInt32) : Option (Answer × Option (ℕ → UInt8)) :=
  let u := rfUartSendString σ xbeeEndCmd (rfUartSendString σ atCmd u)
  match resp with
  | none => some (⟨.ok, u⟩, none)
  | some buf =>
    if 0 < respLen then
      (readLine σ fuel u buf respLen 1000).map fun r =>
        (⟨if r.result < 0 then .rfReadError else .ok, r.line.uart⟩, some r.line.buf)
    else some (⟨.ok, u⟩, some buf)

def atSet (σ : Schedule) (fuel : ℕ) (u : Uart) (atCmd : List UInt8) : Option Answer :=
  (atGet σ fuel u atCmd (some (σ.stack u.now)) 10).map fun r =>
    match r with
    | (⟨.ok, u⟩, some buf) => if strEq respOk buf = false then ⟨.rfCmdError, u⟩ else ⟨.ok, u⟩
    | (answer, _) => answer

def orBreak (a : Option Answer) (next : Uart → Option Answer) : Option Answer :=
  a.bind fun a => if a.err = .ok then next a.uart else some a

def xbeeInit (σ : Schedule) (fuel : ℕ) (coordinator : Bool) (callbacks : Callb) (x : XbeeState)
    (u : Uart) : XbeeState × Option Answer :=
  let set (cmd : List UInt8) (u : Uart) := atSet σ fuel u cmd
  let a := commandMode σ fuel u
  let a := orBreak a (set (text ['A', 'T', 'I', 'D', 'E', 'A', 'E', 'A']))
  let a := orBreak a (set (text ['A', 'T', 'M', 'Y', 'F', 'F', 'F', 'E']))
  let a :=
    if coordinator then
      let a := orBreak a (set (text ['A', 'T', 'A', '2', '4']))
      orBreak a (set (text ['A', 'T', 'C', 'E', '1']))
    else orBreak a (set (text ['A', 'T', 'A', '1', '4']))
  ({ x with cb := callbacks, isCoordinator := coordinator },
    orBreak a (set (text ['A', 'T', 'A', 'P', '1'])))

end AoaBoard.Xbee.AtCommands
