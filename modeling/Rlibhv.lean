import Rlibhv.Library.Run
import Rlibhv.Event.State
import Rlibhv.Event.Hevent
import Rlibhv.Event.Hloop
import Rlibhv.Server.Process
import Rlibhv.Event.Theorems.Conn
import Rlibhv.Event.Theorems.Nio
import Rlibhv.Event.Theorems.Wf
import Rlibhv.Event.Theorems.Accept
import Rlibhv.Event.Theorems.Dispatch
import Rlibhv.Event.Theorems.Chronicle
import Rlibhv.Event.Theorems.Setup
import Rlibhv.Server.Theorems.Control
import Rlibhv.Server.Theorems.Lifecycle
import Rlibhv.Server.Theorems.Interrupt
import Rlibhv.Server.Theorems.Signal
import Rlibhv.Install.Script
import Rlibhv.Install.Theorems
import Rlibhv.Event.Theorems.Echo
import Rlibhv.Event.Theorems.Order
import Rlibhv.Server.Theorems.Echo
import Rlibhv.Event.Theorems.Close
import Rlibhv.Server.Theorems.Close
import Rlibhv.Base.Heap
import Rlibhv.Base.Theorems.Heap
import Rlibhv.Base.Time
import Rlibhv.Event.Theorems.Timer
import Rlibhv.Event.Theorems.Expire
import Rlibhv.Event.Theorems.Rounds
import Rlibhv.Event.Theorems.Calls
import Rlibhv.Event.Read
import Rlibhv.Library.Framing
import Rlibhv.Event.Theorems.Package
import Rlibhv.Event.Theorems.Unpack
import Rlibhv.Event.Theorems.Stream
import Rlibhv.Event.Theorems.Delivery
import Rlibhv.Event.Theorems.Messages
import Rlibhv.Event.Theorems.Lengths
