import MeshNode.Gsm.CsqParse
import MeshNode.Gsm.Line
import MeshNode.Heartbeat
import MeshNode.Isr
import MeshNode.Lora.Direction
import MeshNode.Lora.Queue
import MeshNode.Lora.Receive
import MeshNode.Lora.Record
import MeshNode.Main
import MeshNode.NativePosix.Counter
import MeshNode.NativePosix.Offload
import MeshNode.NativePosix.Process
import MeshNode.NativePosix.Settings
import MeshNode.NativePosix.Wait
import MeshNode.Node.Boot
import MeshNode.Node.Order
import MeshNode.Node.Scan
import MeshNode.Status
