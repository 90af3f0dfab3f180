import AoaBoard.Library.Run
import AoaBoard.Library.Ring
import AoaBoard.Board.RxQueue
import AoaBoard.Library.Bytes
import AoaBoard.Xbee.Driver
import AoaBoard.Xbee.Receiver
import AoaBoard.Xbee.Bounds
import AoaBoard.Xbee.RoundTrip
import AoaBoard.Can.Driver
import AoaBoard.Can.Gateway
import AoaBoard.Library.Registry
import AoaBoard.Rf.Lifecycle
import AoaBoard.Rf.Attribution
import AoaBoard.Rf.Subscriptions
import AoaBoard.Can.Nodes
import AoaBoard.Host.Task
import AoaBoard.Rf.InUse
import AoaBoard.Host.Packets
import AoaBoard.Library.Slots
import AoaBoard.Host.Monitor
import AoaBoard.Host.Sessions
import AoaBoard.Host.Subscriptions
import AoaBoard.Host.Announce
import AoaBoard.Can.Discovery
import AoaBoard.Can.Capabilities
import AoaBoard.Rf.Capabilities
import AoaBoard.Rf.Commands
import AoaBoard.Rf.Payload
import AoaBoard.Xbee.Independence
import AoaBoard.Xbee.Segments
import AoaBoard.Can.Accesses
import AoaBoard.Can.Arrivals
import AoaBoard.Library.Clock
import AoaBoard.Xbee.Timer
import AoaBoard.Board.NodeTimeouts
import AoaBoard.Rf.Triggers
import AoaBoard.Rf.Notifications
import AoaBoard.Library.Pages
import AoaBoard.Library.Retry
import AoaBoard.Rf.Addressing
import AoaBoard.Eeprom.Driver
import AoaBoard.Eeprom.Device
import AoaBoard.Eeprom.Errors
import AoaBoard.I2c.Master
import AoaBoard.Eeprom.Wire
import AoaBoard.Eeprom.Undisturbed
import AoaBoard.Eeprom.Calls
import AoaBoard.Library.Records
import AoaBoard.Usb.Descriptors
import AoaBoard.Usb.Enumeration
import AoaBoard.Usb.Accessory
import AoaBoard.Can.SendMessage
import AoaBoard.Gpio.Pins
import AoaBoard.Host.Cores
import AoaBoard.Host.SetValue
import AoaBoard.Board.Delay
import AoaBoard.Gpio.Configuration
import AoaBoard.Rf.Corruption
import AoaBoard.Xbee.AtCommands
import AoaBoard.Xbee.Replies
import AoaBoard.Usb.Allocations
import AoaBoard.Rf.Provenance
import AoaBoard.Usb.Capacity
import AoaBoard.Usb.Counting
