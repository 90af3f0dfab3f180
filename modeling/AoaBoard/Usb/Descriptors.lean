import AoaBoard.Library.Bytes
import AoaBoard.Usb.Pipe

/-!
# The configuration descriptor of an attached device

`ProcessConfigurationDescriptor` fetches the descriptor into a buffer of 512
bytes and searches it for the interface of an Android accessory and its two bulk
endpoints. A pointer into the buffer is an offset, and the memory goes on behind
the bytes that the device has sent, and behind the buffer. `device` stands for
the control transfers: how each of them ends and what it leaves in the control
pipe. `steps` lists where each call of `USB_GetNextDescriptor` starts.
-/

namespace AoaBoard.Usb.Descriptors
open Library.Bytes

def dtypeConfiguration : UInt8 := 0x02
def dtypeInterface : UInt8 := 0x04
def dtypeEndpoint : UInt8 := 0x05

def androidInterfaceClass : UInt8 := 0xFF
def androidInterfaceSubclass : UInt8 := 0xFF
def androidInterfaceProtocol : UInt8 := 0x00

def androidDataInPipe : UInt8 := 1
def androidDataOutPipe : UInt8 := 2

def endpointDirMask : UInt8 := 0x80
def endpointDirIn : UInt8 := 0x80
def epTypeMask : UInt8 := 0x03
def epTypeBulk : UInt8 := 0x02

def hostSendcontrolSuccessful : UInt8 := 0
def hostSendcontrolPipeError : UInt8 := 2
def hostGetconfigBuffOverflow : UInt8 := 5
def hostGetconfigInvalidData : UInt8 := 6

structure Request where
  bmRequestType : UInt8
  bRequest : UInt8
  wValue : UInt16
  wIndex : UInt16
  wLength : UInt16

structure Reply where
  ok : Bool
  data : ℕ → UInt8

/-- For a request to the host; `buf` is the memory at `BufferPtr`. -/
def usbHostSendControlRequest (reply : Reply) (request : Request) (buf : ℕ → UInt8) :
    UInt8 × (ℕ → UInt8) :=
  if reply.ok then
    (hostSendcontrolSuccessful, fun k => if k < request.wLength.toNat then reply.data k else buf k)
  else (hostSendcontrolPipeError, buf)

def word16 (m : ℕ → UInt8) (loc : ℕ) : UInt16 := (m (loc + 1)).toUInt16 <<< 8 ||| (m loc).toUInt16

def configRequest (configNumber : UInt8) (wLength : UInt16) : Request :=
  ⟨0x80, 6, dtypeConfiguration.toUInt16 <<< 8 ||| (configNumber - 1).toUInt16, 0, wLength⟩

def configHeaderSize : UInt16 := 9

def usbHostGetDeviceConfigDescriptor (device : ℕ → Request → Reply) (configNumber : UInt8)
    (buf : ℕ → UInt8) (bufferSize : UInt16) : Except UInt8 (UInt16 × (ℕ → UInt8)) :=
  let request := configRequest configNumber configHeaderSize
  let header := usbHostSendControlRequest (device 0 request) request fun _ => 0
  if header.1 ≠ hostSendcontrolSuccessful then .error header.1
  else
    let configSize := word16 header.2 2
    if bufferSize < configSize then .error hostGetconfigBuffOverflow
    else
      let request := configRequest configNumber configSize
      let config := usbHostSendControlRequest (device 1 request) request buf
      if config.1 ≠ hostSendcontrolSuccessful then .error config.1
      else if config.2 1 ≠ dtypeConfiguration then .error hostGetconfigInvalidData
      else .ok (configSize, config.2)

inductive Comparison
  | found
  | fail
  | notFound
  deriving DecidableEq

inductive SearchComp
  | found
  | fail
  | endOfDescriptor
  deriving DecidableEq

structure Walk where
  bytesRem : ℕ
  loc : ℕ

def usbGetNextDescriptor (m : ℕ → UInt8) (w : Walk) : Walk :=
  let size := (m w.loc).toNat
  let size := if w.bytesRem < size then w.bytesRem else size
  ⟨w.bytesRem - size, w.loc + size⟩

def dcompNextAndroidAccessoryInterface (m : ℕ → UInt8) (loc : ℕ) : Comparison :=
  if m (loc + 1) = dtypeInterface then
    if m (loc + 5) = androidInterfaceClass ∧ m (loc + 6) = androidInterfaceSubclass ∧
        m (loc + 7) = androidInterfaceProtocol then .found
    else .notFound
  else .notFound

def pipeIsEndpointBound (_endpointAddress : UInt8) : Bool := false

def dcompNextInterfaceBulkEndpoint (m : ℕ → UInt8) (loc : ℕ) : Comparison :=
  if m (loc + 1) = dtypeEndpoint then
    if m (loc + 3) &&& epTypeMask = epTypeBulk ∧ ¬ pipeIsEndpointBound (m (loc + 2)) then .found
    else .notFound
  else if m (loc + 1) = dtypeInterface then .fail
  else .notFound

structure Searched where
  result : SearchComp
  walk : Walk
  steps : List Walk

/-- `none` when `fuel` rounds are not enough. -/
def usbGetNextDescriptorComp (m : ℕ → UInt8) (comparator : ℕ → Comparison) :
    ℕ → Walk → Option Searched
  | 0, w => if w.bytesRem = 0 then some ⟨.endOfDescriptor, w, []⟩ else none
  | fuel + 1, w =>
    if w.bytesRem = 0 then some ⟨.endOfDescriptor, w, []⟩
    else
      let next := usbGetNextDescriptor m w
      match comparator next.loc with
      | .found => some ⟨.found, next, [w]⟩
      | .fail => some ⟨.fail, w, [w]⟩
      | .notFound => (usbGetNextDescriptorComp m comparator fuel next).map fun s =>
          { s with steps := w :: s.steps }

structure Endpoints where
  dataIN : Option ℕ
  dataOUT : Option ℕ

def storeEndpoint (m : ℕ → UInt8) (e : Endpoints) (loc : ℕ) : Endpoints :=
  if m (loc + 2) &&& endpointDirMask = endpointDirIn then { e with dataIN := some loc }
  else { e with dataOUT := some loc }

structure Found where
  endpoints : Option (ℕ × ℕ)
  steps : List Walk

/-- The loop of `ProcessConfigurationDescriptor`, with at most `rounds` rounds of at most `fuel`
rounds each; `endpoints` is `none` after the return out of the loop. -/
def endpointLoop (m : ℕ → UInt8) (fuel : ℕ) : ℕ → Walk → Endpoints → Option Found
  | _, _, ⟨some dataIN, some dataOUT⟩ => some ⟨some (dataIN, dataOUT), []⟩
  | 0, _, _ => none
  | rounds + 1, w, e =>
    (usbGetNextDescriptorComp m (dcompNextInterfaceBulkEndpoint m) fuel w).bind fun s =>
      if s.result ≠ .found then some ⟨none, s.steps⟩
      else (endpointLoop m fuel rounds s.walk (storeEndpoint m e s.walk.loc)).map fun f =>
        { f with steps := s.steps ++ f.steps }

inductive ConfigCode
  | successfulConfigRead
  | devControlError
  | descriptorTooLarge
  | invalidConfigDataReturned
  | noCompatibleInterfaceFound
  deriving DecidableEq

structure PipeConfig where
  number : UInt8
  type : UInt8
  token : Token
  endpointAddress : UInt8
  size : UInt16

def pipeConfig (m : ℕ → UInt8) (number : UInt8) (token : Token) (loc : ℕ) : PipeConfig :=
  ⟨number, epTypeBulk, token, m (loc + 2), word16 m (loc + 4)⟩

structure Processed where
  code : ConfigCode
  endpoints : Option (ℕ × ℕ)
  pipes : List PipeConfig
  steps : List Walk

def configError (code : UInt8) : ConfigCode :=
  if code = hostGetconfigInvalidData then .invalidConfigDataReturned
  else if code = hostGetconfigBuffOverflow then .descriptorTooLarge
  else .devControlError

def processDescriptors (fuel : ℕ) (size : ℕ) (m : ℕ → UInt8) : Option Processed :=
  (usbGetNextDescriptorComp m (dcompNextAndroidAccessoryInterface m) fuel ⟨size, 0⟩).bind fun s =>
    if s.result ≠ .found then some ⟨.noCompatibleInterfaceFound, none, [], s.steps⟩
    else (endpointLoop m fuel fuel s.walk ⟨none, none⟩).map fun f =>
      match f.endpoints with
      | none => ⟨.noCompatibleInterfaceFound, none, [], s.steps ++ f.steps⟩
      | some (dataIN, dataOUT) =>
        ⟨.successfulConfigRead, some (dataIN, dataOUT),
          [pipeConfig m androidDataInPipe .in dataIN, pipeConfig m androidDataOutPipe .out dataOUT],
          s.steps ++ f.steps⟩

def configBufferSize : UInt16 := 512

/-- `buf` is the old content of the buffer and the memory behind it. -/
def processConfigurationDescriptor (fuel : ℕ) (device : ℕ → Request → Reply) (buf : ℕ → UInt8) :
    Option Processed :=
  match usbHostGetDeviceConfigDescriptor device 1 buf configBufferSize with
  | .error code => some ⟨configError code, none, [], []⟩
  | .ok (size, m) => processDescriptors fuel size.toNat m

end AoaBoard.Usb.Descriptors
