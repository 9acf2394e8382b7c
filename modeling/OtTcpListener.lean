import OtTcpListener.Foundations.Probe
import OtTcpListener.Foundations.SelfDelimiting
import OtTcpListener.Foundations.Buffer
import OtTcpListener.Foundations.History
import OtTcpListener.Foundations.Descent
import OtTcpListener.Foundations.Parts
import OtTcpListener.Foundations.Throwing
import OtTcpListener.Foundations.Lines
import OtTcpListener.Foundations.Incremental
import OtTcpListener.Foundations.Marks
import OtTcpListener.Platform.Host
import OtTcpListener.Platform.Qt
import OtTcpListener.Platform.StdString
import OtTcpListener.Platform.Inet
import OtTcpListener.Platform.Stoul
import OtTcpListener.Modbus.Analyze
import OtTcpListener.Modbus.Process
import OtTcpListener.Modbus.Calls
import OtTcpListener.Modbus.Adu
import OtTcpListener.Modbus.Framing
import OtTcpListener.Modbus.Confinement
import OtTcpListener.Modbus.Read
import OtTcpListener.Modbus.Replies
import OtTcpListener.Modbus.LabelBase
import OtTcpListener.Modbus.Session
import OtTcpListener.Modbus.Bounds
import OtTcpListener.Modbus.Consistency
import OtTcpListener.Modbus.Unambiguous
import OtTcpListener.Tools.Split
import OtTcpListener.Tools.ValidateIP
import OtTcpListener.Tools.CleanName
import OtTcpListener.Tools.AddressInt
import OtTcpListener.Tools.Segment
import OtTcpListener.Tools.Vendor
import OtTcpListener.Tools.Software
import OtTcpListener.Sniffer.Packet
import OtTcpListener.Sniffer.Monitor
import OtTcpListener.Sniffer.Bounds
import OtTcpListener.Sniffer.Frame
import OtTcpListener.Sniffer.Trailer
import OtTcpListener.Sniffer.Labels
import OtTcpListener.Arp.Send
import OtTcpListener.Arp.Sweep
import OtTcpListener.Service.Listener
import OtTcpListener.Service.Resume
import OtTcpListener.Service.Stop
import OtTcpListener.Service.Control
import OtTcpListener.Service.Controller
import OtTcpListener.Service.World
import OtTcpListener.Service.Orders
import OtTcpListener.Service.Instance
import OtTcpListener.Service.Exec
import OtTcpListener.Http.Response
import OtTcpListener.Http.Parse
import OtTcpListener.Http.Receive
import OtTcpListener.Http.Message
import OtTcpListener.Http.Url
import OtTcpListener.Http.Request
import OtTcpListener.Http.UrlEncode
